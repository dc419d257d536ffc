import Mathlib.Data.List.Lex
import Sonda.Framework.Ordered
import Sonda.Impl.Generator.Generators

/-!
# References between entries

The first half of `compile_after`, from `sonda-core/src/compiler/compile_after.rs`: the
index of the ids, the resolution of every `after:` and same-file `while:` reference, the
topological sort and, where it does not cover every entry, `find_cycle`.

An entry is its place in the file. A loop over a queue or a stack is a recursion with
fuel.
-/

namespace Sonda.Compiler

open Framework Generator
open Config (Text textString)

/-! ## Entries -/

inductive ClauseKind
  | after
  | while_
  deriving DecidableEq

inductive AfterOp
  | lessThan
  | greaterThan
  deriving DecidableEq

structure AfterClause where
  refId : Text
  op : AfterOp
  value : ℚ
  delay : Option Text

/-- The fields of a `while:` clause that the compiler reads. -/
structure WhileClause where
  refId : Text
  scenarioName : Option Text

inductive SignalType
  | metrics
  | logs
  | histogram
  | summary
  deriving DecidableEq

/-- The fields of an expanded entry that the pass reads. -/
structure ExpandedEntry where
  id : Option Text
  signalType : SignalType
  name : Text
  rate : ℚ
  generator : Option GeneratorConfig
  phaseOffset : Option Text
  clockGroup : Option Text
  after : Option AfterClause
  whileClause : Option WhileClause
  /-- The parser and the expand pass give every metrics entry a generator. -/
  metrics_generator : signalType = .metrics → generator.isSome

structure ExpandedFile where
  scenarioName : Option Text
  entries : List ExpandedEntry
  /-- The expand pass refuses a file that repeats an id. -/
  ids_nodup : (entries.filterMap ExpandedEntry.id).Nodup

/-! ## Errors -/

/-- The errors of the pass. The one for a NaN upstream is left out: numbers are exact. -/
inductive CompileAfterError
  | unknownRef (sourceId refId : Text) (clause : ClauseKind) (available : List Text)
  | ambiguousSubSignalRef (refId packEntryId : Text) (candidates : List Text)
  | selfReference (sourceId : Text) (clause : ClauseKind)
  | circularDependency (cycle : List (Text × ClauseKind))
  | unsupportedGenerator (sourceId refId : Text) (generator op reason : String)
  | outOfRangeThreshold (sourceId refId : Text) (op : String) (value : ℚ) (reason : String)
  | ambiguousAtT0 (sourceId refId : Text) (op : String) (value : ℚ) (reason : String)
  | conflictingClockGroup (firstEntry firstGroup secondEntry secondGroup : Text)
  | nonMetricsTarget (sourceId refId : Text) (clause : ClauseKind) (targetSignal : SignalType)
  | invalidDuration (sourceId : Text) (field : String) (input : Text) (reason : String)
  | whileUnsupportedUpstreamGenerator (sourceId refId : Text) (generatorKind : String)

/-! ## The index -/

/-- A `BTreeMap` from id to place, in the order of the ids. -/
abbrev IdIndex := List (Text × Nat)

namespace IdIndex

def insert (index : IdIndex) (id : Text) (place : Nat) : IdIndex :=
  insertKey (fun item : Text × Nat => item.1.map UInt8.toNat) (id, place) index

def get (index : IdIndex) (id : Text) : Option Nat :=
  (index.find? fun item => item.1 == id).map Prod.snd

end IdIndex

def indexEntry (index : IdIndex) (item : ExpandedEntry × Nat) : IdIndex :=
  match item.1.id with
  | some id => index.insert id item.2
  | none => index

def buildIdIndex (entries : List ExpandedEntry) : IdIndex := entries.zipIdx.foldl indexEntry []

/-- `<anonymous:`. -/
def anonymous : Text := [0x3c, 0x61, 0x6e, 0x6f, 0x6e, 0x79, 0x6d, 0x6f, 0x75, 0x73, 0x3a]

def sourceLabel (entry : ExpandedEntry) : Text :=
  match entry.id with
  | some id => id
  | none => anonymous ++ entry.name ++ [0x3e]

/-- What stands before the last `.`, or the text itself. -/
def beforeLastDot (text : Text) : Text :=
  if text.contains 0x2e then ((text.reverse.dropWhile (· != 0x2e)).drop 1).reverse else text

def resolveReference (refId : Text) (index : IdIndex) (sourceId : Text) (clause : ClauseKind) :
    Except CompileAfterError Nat :=
  match index.get refId with
  | some idx => .ok idx
  | none =>
    let candidates := (index.map Prod.fst).filter fun id => (refId ++ [0x2e]).isPrefixOf id
    if 1 < candidates.length then
      .error (.ambiguousSubSignalRef refId (beforeLastDot refId) candidates)
    else .error (.unknownRef sourceId refId clause (index.map Prod.fst))

/-! ## Edges -/

def isDeferredWhile (clause : WhileClause) (fileScenarioName : Option Text) : Bool :=
  match clause.scenarioName with
  | some name => some name ≠ fileScenarioName
  | none => false

/-- The references of an entry, `after:` first. -/
def outgoingEdges (entry : ExpandedEntry) (fileScenarioName : Option Text) : List (Text × ClauseKind) :=
  (entry.after.map fun c => (c.refId, ClauseKind.after)).toList ++
    ((entry.whileClause.filter fun c => !isDeferredWhile c fileScenarioName).map fun c =>
      (c.refId, ClauseKind.while_)).toList

/-- A reference of an entry resolves, and not to the entry itself. -/
def checkReference (index : IdIndex) (entry : ExpandedEntry) (edge : Text × ClauseKind) :
    Except CompileAfterError Unit := do
  let _ ← resolveReference edge.1 index (sourceLabel entry) edge.2
  if entry.id = some edge.1 then .error (.selfReference (sourceLabel entry) edge.2) else .ok ()

def checkReferences (fileScenarioName : Option Text) (index : IdIndex) (entry : ExpandedEntry) :
    Except CompileAfterError Unit :=
  (outgoingEdges entry fileScenarioName).forM (checkReference index entry)

/-! ## The topological sort -/

/-- The places the references of an entry resolve to. -/
def targets (fileScenarioName : Option Text) (index : IdIndex) (entry : ExpandedEntry) :
    List (Nat × ClauseKind) :=
  (outgoingEdges entry fileScenarioName).filterMap fun edge =>
    (index.get edge.1).map fun dep => (dep, edge.2)

structure SortState where
  inDegree : List Nat
  queue : List Nat
  sorted : List Nat

/-- One dependent of the entry that is taken off the queue. -/
def SortState.relax (s : SortState) (dependent : Nat) : SortState :=
  let degree := s.inDegree.getD dependent 0 - 1
  { s with
    inDegree := s.inDegree.set dependent degree
    queue := if degree = 0 then s.queue ++ [dependent] else s.queue }

/-- The loop over the queue. Every entry is taken off it at most once. -/
def SortState.run (dependents : Nat → List (Nat × ClauseKind)) : (fuel : Nat) → SortState → SortState
  | 0, s => s
  | fuel + 1, s =>
    match s.queue with
    | [] => s
    | idx :: queue =>
      run dependents fuel (((dependents idx).map Prod.fst).foldl SortState.relax
        { s with queue := queue, sorted := s.sorted ++ [idx] })

section

variable (fileScenarioName : Option Text) (index : IdIndex) (entries : List ExpandedEntry)

/-- The entries that refer to a place, once for each reference. -/
def dependents (idx : Nat) : List (Nat × ClauseKind) :=
  entries.zipIdx.flatMap fun item =>
    (targets fileScenarioName index item.1).filterMap fun target =>
      if target.1 = idx then some (item.2, target.2) else none

def topologicalSort : List Nat :=
  let inDegree := entries.map fun entry => (targets fileScenarioName index entry).length
  let start : SortState :=
    { inDegree
      queue := (List.range entries.length).filter fun i => inDegree.getD i 0 = 0
      sorted := [] }
  (SortState.run (dependents fileScenarioName index entries) entries.length start).sorted

/-! ## Cycles -/

inductive Color
  | white
  | gray
  | black
  deriving DecidableEq

/-- The variables of the search: a color for each place, and the places that are being
visited, each with the kind of the edge that is followed out of it. -/
structure Search where
  color : List Color
  path : List (Nat × ClauseKind)

namespace Search

variable (s : Search)

def colorOf (place : Nat) : Color := s.color.getD place .white

def enter (node : Nat) : Search := ⟨s.color.set node .gray, s.path ++ [(node, .after)]⟩

def leave (node : Nat) : Search := ⟨s.color.set node .black, s.path.dropLast⟩

/-- The last place of the path goes on by an edge of this kind. -/
def follow (clause : ClauseKind) : Search :=
  { s with path := s.path.modifyLast fun (place, _) => (place, clause) }

/-- The path from a place on that is on it, back to the place. -/
def close (dep : Nat) (clause : ClauseKind) : List (Nat × ClauseKind) :=
  s.path.drop ((s.path.findIdx? fun item => item.1 == dep).getD 0) ++ [(dep, clause)]

end Search

/-- What is found, and the variables after it. -/
abbrev Found := Option (List (Nat × ClauseKind)) × Search

/-- The loop over the edges of the place that is visited. -/
def searchEdges (visit : Nat → Search → Found) : List (Nat × ClauseKind) → Search → Found
  | [], s => (none, s)
  | (dep, clause) :: rest, s =>
    let s := s.follow clause
    match s.colorOf dep with
    | .white =>
      match visit dep s with
      | (some cycle, s) => (some cycle, s)
      | (none, s) => searchEdges visit rest s
    | .gray => (some (s.close dep clause), s)
    | .black => searchEdges visit rest s

def edgesOf (node : Nat) : List (Nat × ClauseKind) :=
  (entries[node]?.map (targets fileScenarioName index)).getD []

/-- `dfs`. Every visit colors a white place, so as many as there are places are enough. -/
def dfs : (fuel node : Nat) → Search → Found
  | 0, _, s => (none, s)
  | fuel + 1, node, s =>
    match searchEdges (dfs fuel) (edgesOf fileScenarioName index entries node) (s.enter node) with
    | (some cycle, s) => (some cycle, s)
    | (none, s) => (none, s.leave node)

/-- The loop over the places to start from. -/
def searchFrom : List Nat → Search → Option (List (Nat × ClauseKind))
  | [], _ => none
  | start :: rest, s =>
    match s.colorOf start with
    | .white =>
      match dfs fileScenarioName index entries entries.length start s with
      | (some cycle, _) => some cycle
      | (none, s) => searchFrom rest s
    | _ => searchFrom rest s

/-- `<unknown cycle>`. -/
def unknownCycle : Text :=
  [0x3c, 0x75, 0x6e, 0x6b, 0x6e, 0x6f, 0x77, 0x6e, 0x20, 0x63, 0x79, 0x63, 0x6c, 0x65, 0x3e]

def labelOf (place : Nat) : Text := (entries[place]?.map sourceLabel).getD []

def findCycle : List (Text × ClauseKind) :=
  match searchFrom fileScenarioName index entries (List.range entries.length)
      ⟨List.replicate entries.length .white, []⟩ with
  | some cycle => cycle.map fun item => (labelOf entries item.1, item.2)
  | none => [(unknownCycle, .after)]

end

def resolutionOrder (file : ExpandedFile) : Except CompileAfterError (List Nat) := do
  let index := buildIdIndex file.entries
  file.entries.forM (checkReferences file.scenarioName index)
  let sorted := topologicalSort file.scenarioName index file.entries
  if sorted.length < file.entries.length then
    .error (.circularDependency (findCycle file.scenarioName index file.entries))
  else .ok sorted

end Sonda.Compiler
