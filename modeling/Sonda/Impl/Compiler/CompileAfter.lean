import Sonda.Impl.Compiler.References
import Sonda.Impl.Compiler.Timing

/-!
# Compiling `after:` clauses

The second half of `compile_after`, from `sonda-core/src/compiler/compile_after.rs`: the
checks of the `while:` targets, the crossing time of an `after:` target, the offsets in
the order of the sort, the clock groups, and what is left of an entry. `f64` arithmetic
is exact.
-/

namespace Sonda.Compiler

open Framework Generator
open Config (Text StdParse parseDuration parseOffsetDuration asSecs errorText textString)

/-! ## Crossing times -/

def operatorFrom : AfterOp → Operator
  | .lessThan => .lessThan
  | .greaterThan => .greaterThan

section

variable (std : StdParse)

def durationOrDefault (input : Option Text) (defaultSecs : ℚ) (field : String) : Except TimingError ℚ :=
  match input with
  | some s => ((parseDuration std s).map asSecs).mapError fun e => .invalidDuration field s (errorText e)
  | none => .ok defaultSecs

def offsetOrZero (input : Option Text) (field : String) : Except TimingError ℚ :=
  match input with
  | some s =>
    ((parseOffsetDuration std s).map asSecs).mapError fun e => .invalidDuration field s (errorText e)
  | none => .ok 0

def numberText (x : ℚ) : String := textString (std.showF64 x)

def crossingSecs (generator : GeneratorConfig) (op : Operator) (threshold rate : ℚ) :
    Except TimingError ℚ :=
  let num := numberText std
  match generator with
  | .constant value => constantCrossingSecs num op threshold value
  | .uniform .. => uniformCrossingSecs
  | .sine .. => sineCrossingSecs
  | .csvReplay .. => csvReplayCrossingSecs
  | .sawtooth min max periodSecs => sawtoothCrossingSecs num op threshold min max periodSecs
  | .sequence values _ => sequenceCrossingSecs num op threshold values rate
  | .step start stepSize max => stepCrossingSecs num op threshold (start.getD 0) stepSize max rate
  | .spike baseline magnitude durationSecs _ =>
    spikeCrossingSecs num op threshold baseline magnitude durationSecs
  | .flap upDuration downDuration upValue downValue enumKind phase => do
    let upSecs ← durationOrDefault std upDuration 10 "flap.up_duration"
    let downSecs ← durationOrDefault std downDuration 5 "flap.down_duration"
    let phaseSecs ← offsetOrZero std phase "flap.phase"
    let (upDefault, downDefault) := (enumKind.map FlapEnum.defaults).getD (1, 0)
    flapCrossingSecs num op threshold upSecs downSecs (upValue.getD upDefault)
      (downValue.getD downDefault) phaseSecs
  | .saturation baseline ceiling timeToSaturate => do
    let period ← durationOrDefault std timeToSaturate (5 * 60) "saturation.time_to_saturate"
    sawtoothCrossingSecs num op threshold (baseline.getD 0) (ceiling.getD 100) period
  | .leak baseline ceiling timeToCeiling => do
    let period ← durationOrDefault std timeToCeiling (10 * 60) "leak.time_to_ceiling"
    sawtoothCrossingSecs num op threshold (baseline.getD 0) (ceiling.getD 100) period
  | .degradation baseline ceiling timeToDegrade _ _ => do
    let period ← durationOrDefault std timeToDegrade (5 * 60) "degradation.time_to_degrade"
    sawtoothCrossingSecs num op threshold (baseline.getD 0) (ceiling.getD 100) period
  | .steady .. => steadyCrossingSecs
  | .spikeEvent baseline spikeHeight spikeDuration _ => do
    let dur ← durationOrDefault std spikeDuration 10 "spike_event.spike_duration"
    spikeCrossingSecs num op threshold (baseline.getD 0) (spikeHeight.getD 100) dur

end

def generatorKind : GeneratorConfig → String
  | .constant .. => "constant"
  | .uniform .. => "uniform"
  | .sine .. => "sine"
  | .sawtooth .. => "sawtooth"
  | .sequence .. => "sequence"
  | .spike .. => "spike"
  | .csvReplay .. => "csv_replay"
  | .step .. => "step"
  | .flap .. => "flap"
  | .saturation .. => "saturation"
  | .leak .. => "leak"
  | .degradation .. => "degradation"
  | .steady .. => "steady"
  | .spikeEvent .. => "spike_event"

def timingToError (err : TimingError) (sourceId refId : Text) (generator : GeneratorConfig)
    (op : Operator) (value : ℚ) : CompileAfterError :=
  match err with
  | .unsupported message =>
    .unsupportedGenerator sourceId refId (generatorKind generator) op.text message
  | .outOfRange message => .outOfRangeThreshold sourceId refId op.text value message
  | .ambiguous message => .ambiguousAtT0 sourceId refId op.text value message
  | .invalidDuration field input reason => .invalidDuration sourceId field input reason

/-! ## The `while:` targets -/

def isSupportedWhileUpstream : GeneratorConfig → Bool
  | .csvReplay .. => false
  | _ => true

/-- The generator of a metrics entry, or the error for the others. -/
def metricsGenerator (source : ExpandedEntry) (refId : Text) (clause : ClauseKind)
    (target : ExpandedEntry) : Except CompileAfterError GeneratorConfig :=
  if h : target.signalType = .metrics then .ok (target.generator.get (target.metrics_generator h))
  else .error (.nonMetricsTarget (sourceLabel source) refId clause target.signalType)

def checkWhile (file : ExpandedFile) (index : IdIndex) (entry : ExpandedEntry) :
    Except CompileAfterError Unit :=
  match entry.whileClause with
  | none => .ok ()
  | some clause =>
    if isDeferredWhile clause file.scenarioName then .ok ()
    else
      -- The index has every reference here: `checkReferences` came before.
      match (index.get clause.refId).bind fun dep => file.entries[dep]? with
      | none => .ok ()
      | some target => do
        let generator ← metricsGenerator entry clause.refId .while_ target
        if isSupportedWhileUpstream generator then .ok ()
        else .error (.whileUnsupportedUpstreamGenerator (sourceLabel entry) clause.refId
          (generatorKind generator))

/-! ## Offsets -/

section

variable (std : StdParse)

def parseDurationSecs (input sourceId : Text) (field : String) : Except CompileAfterError ℚ :=
  ((parseDuration std input).map asSecs).mapError fun e =>
    .invalidDuration sourceId field input (errorText e)

/-- The entry's own `phase_offset`. -/
def baseOffset (entry : ExpandedEntry) : Except CompileAfterError ℚ :=
  match entry.phaseOffset with
  | some s => parseDurationSecs std s (sourceLabel entry) "phase_offset"
  | none => .ok 0

def linkCrossing (source : ExpandedEntry) (clause : AfterClause) (target : ExpandedEntry) :
    Except CompileAfterError ℚ := do
  let generator ← metricsGenerator source clause.refId .after target
  let op := operatorFrom clause.op
  (crossingSecs std generator op clause.value target.rate).mapError fun err =>
    timingToError err (sourceLabel source) clause.refId generator op clause.value

def linkDelay (source : ExpandedEntry) (clause : AfterClause) : Except CompileAfterError ℚ :=
  match clause.delay with
  | some s => parseDurationSecs std s (sourceLabel source) "after.delay"
  | none => .ok 0

/-- The offset of the entry at a place, from those that are computed already. -/
def entryOffset (file : ExpandedFile) (index : IdIndex) (base total : List ℚ) (idx : Nat) :
    Except CompileAfterError ℚ :=
  match file.entries[idx]? with
  | none => .ok 0
  | some entry =>
    match entry.after with
    | none => .ok (base.getD idx 0)
    | some clause =>
      match index.get clause.refId with
      | none => .ok 0
      | some dep =>
        match file.entries[dep]? with
        | none => .ok 0
        | some target => do
          let crossing ← linkCrossing std entry clause target
          let delay ← linkDelay std entry clause
          .ok (base.getD idx 0 + total.getD dep 0 + crossing + delay)

/-- The loop over the sorted places. -/
def sumOffsets (file : ExpandedFile) (index : IdIndex) (base : List ℚ) (sorted : List Nat) :
    Except CompileAfterError (List ℚ) :=
  sorted.foldlM (fun total idx => do
    let offset ← entryOffset std file index base total idx
    .ok (total.set idx offset)) (List.replicate file.entries.length 0)

def totalOffsets (file : ExpandedFile) : Except CompileAfterError (List ℚ) := do
  let index := buildIdIndex file.entries
  let sorted ← resolutionOrder file
  file.entries.forM (checkWhile file index)
  let base ← file.entries.mapM (baseOffset std)
  sumOffsets std file index base sorted

end

/-! ## Clock groups -/

inductive ClockGroupAssignment
  | resolved (name : Text) (isAuto : Bool)
  | unassigned

section

variable (entries : List ExpandedEntry) (index : IdIndex)

/-- The neighbours of every place, by the `after:` links in both directions. -/
def adjacency : List (List Nat) :=
  entries.zipIdx.foldl (fun adj (entry, i) =>
    match entry.after.bind fun clause => index.get clause.refId with
    | some dep => (adj.modify i (· ++ [dep])).modify dep (· ++ [i])
    | none => adj) (List.replicate entries.length [])

/-- The loop over the stack, its top first: the places that have a component, and the
members of this one in the order they are found. Every link is pushed at most twice. -/
def collectMembers (adj : List (List Nat)) : (fuel : Nat) → (stack seen members : List Nat) →
    List Nat × List Nat
  | 0, _, seen, members => (seen, members)
  | _ + 1, [], seen, members => (seen, members)
  | fuel + 1, node :: stack, seen, members =>
    if seen.contains node then collectMembers adj fuel stack seen members
    else
      let seen := node :: seen
      let next := (adj.getD node []).filter fun i => !seen.contains i
      collectMembers adj fuel (next.reverse ++ stack) seen (members ++ [node])

def components (adj : List (List Nat)) : List (List Nat) :=
  ((List.range entries.length).foldl (fun (found : List Nat × List (List Nat)) start =>
    if found.1.contains start then found
    else
      let (seen, members) := collectMembers adj (1 + (adj.map List.length).sum) [start] found.1 []
      (seen, found.2 ++ [members])) ([], [])).2

/-- The places of the first members with each explicit group, in the order of the groups. -/
def distinctGroups (members : List Nat) : IdIndex :=
  members.foldl (fun groups idx =>
    match (entries[idx]?.bind ExpandedEntry.clockGroup).filter (· ≠ []) with
    | some group => if (groups.get group).isSome then groups else groups.insert group idx
    | none => groups) []

/-- `chain_`, and the least id of the members. -/
def autoChainName (members : List Nat) : Text :=
  let ids := members.filterMap fun i => entries[i]?.bind ExpandedEntry.id
  [0x63, 0x68, 0x61, 0x69, 0x6e, 0x5f] ++
    ((ids.foldl (fun sorted id => IdIndex.insert sorted id 0) []).head?.map Prod.fst).getD []

def groupName (members : List Nat) : Except CompileAfterError (Text × Bool) :=
  match distinctGroups entries members with
  | [] => .ok (autoChainName entries members, true)
  | [(group, _)] => .ok (group, false)
  | (firstGroup, first) :: (secondGroup, second) :: _ =>
    .error (.conflictingClockGroup (labelOf entries first) firstGroup (labelOf entries second)
      secondGroup)

def assignClockGroups : Except CompileAfterError (List ClockGroupAssignment) :=
  (components entries (adjacency entries index)).foldlM (fun out members =>
    if members.length < 2 then .ok out
    else do
      let (name, isAuto) ← groupName entries members
      .ok (members.foldl (fun out idx => out.set idx (.resolved name isAuto)) out))
    (List.replicate entries.length .unassigned)

end

/-! ## The pass -/

/-- `x.round() as u64`, of a number that is not negative. -/
def roundU64 (x : ℚ) : Nat := min ⌊x + 1 / 2⌋.toNat (2 ^ 64 - 1)

def formatDurationSecs (std : StdParse) (secs : ℚ) : Text :=
  if secs ≤ 0 then [0x30, 0x73]
  else
    let ms := roundU64 (secs * 1000)
    if ms % 1000 = 0 then
      let wholeSecs := ms / 1000
      if 0 < wholeSecs ∧ wholeSecs % 3600 = 0 then decimal (wholeSecs / 3600) ++ [0x68]
      else if 0 < wholeSecs ∧ wholeSecs % 60 = 0 then decimal (wholeSecs / 60) ++ [0x6d]
      else decimal wholeSecs ++ [0x73]
    else if ms < 1 then std.showF64 secs ++ [0x73]
    else std.showF64 (ms / 1000) ++ [0x73]

/-- The fields of a compiled entry that the pass sets; the others are those of the
expanded entry. -/
structure CompiledEntry where
  phaseOffset : Option Text
  clockGroup : Option Text
  clockGroupIsAuto : Bool
  afterRef : Option Text

def compileEntry (std : StdParse) (entry : ExpandedEntry) (total : ℚ) (group : ClockGroupAssignment) :
    CompiledEntry where
  phaseOffset :=
    if entry.after.isSome ∨ total ≠ 0 then some (formatDurationSecs std total) else entry.phaseOffset
  clockGroup := match group with
    | .resolved name _ => some name
    | .unassigned => entry.clockGroup
  clockGroupIsAuto := match group with
    | .resolved _ isAuto => isAuto
    | .unassigned => false
  afterRef := entry.after.map AfterClause.refId

def compileAfter (std : StdParse) (file : ExpandedFile) : Except CompileAfterError (List CompiledEntry) := do
  let total ← totalOffsets std file
  let groups ← assignClockGroups file.entries (buildIdIndex file.entries)
  .ok ((file.entries.zip (total.zip groups)).map fun item => compileEntry std item.1 item.2.1 item.2.2)

end Sonda.Compiler
