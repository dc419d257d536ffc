import Mathlib.Data.List.AList
import Mathlib.Data.List.Lex
import Sonda.Framework.Ordered
import Sonda.Impl.Config.Durations

/-!
# The labels of an entry's events

The label sources of a `BaseScheduleConfig` (`sonda-core/src/config/mod.rs`): what
validation asks of them, `label_value_set`, and the labels the metrics runner puts on
the event of a tick (`schedule/mod.rs`, `schedule/runner.rs`). From `schedule/launch.rs`,
`may_be_absent`.

The `f64` seconds of `is_in_spike` are a parameter, `StdSecs`.
-/

namespace Sonda.Config

open Framework
open Sonda.Schedule (SondaError)

/-! ## Configuration -/

inductive SpikeStrategy
  | counter
  | random

structure CardinalitySpikeConfig where
  label : Text
  every : Text
  for_ : Text
  cardinality : UInt64
  strategy : SpikeStrategy
  lead : Option Text
  seed : Option UInt64

inductive DynamicLabelStrategy
  /-- A `Vec` has fewer than 2^64 values. -/
  | valuesList (values : List Text) (fits : values.length < 2 ^ 64)
  | counter (lead : Option Text) (cardinality : UInt64)

structure DynamicLabelConfig where
  key : Text
  strategy : DynamicLabelStrategy

/-- The fields that give an entry's events their labels. -/
structure BaseScheduleConfig where
  cardinalitySpikes : Option (List CardinalitySpikeConfig)
  dynamicLabels : Option (List DynamicLabelConfig)
  labels : Option (AList fun _ : Text => Text)

/-- `{key}_`. -/
def defaultPrefix (key : Text) : Text := key ++ [0x5f]

/-! ## Validation -/

def isAsciiAlphabetic (b : UInt8) : Bool := (0x41 ≤ b && b ≤ 0x5a) || (0x61 ≤ b && b ≤ 0x7a)

def isValidLabelKey : Text → Bool
  | [] => false
  | c :: rest =>
    (isAsciiAlphabetic c || c == 0x5f) &&
      rest.all fun c => isAsciiAlphabetic c || isDigit c || c == 0x5f

section

variable (std : StdParse)

def validateCardinalitySpikeConfig (spike : CardinalitySpikeConfig) : Except SondaError Unit :=
  if !isValidLabelKey spike.label then
    .error (.config ("invalid cardinality_spikes label " ++ std.quote spike.label ++
      ": must match [a-zA-Z_][a-zA-Z0-9_]*"))
  else do
    let every ← (parseDuration std spike.every).mapError
      (prependContext std "invalid cardinality_spikes.every" spike.every)
    let forDur ← (parseDuration std spike.for_).mapError
      (prependContext std "invalid cardinality_spikes.for" spike.for_)
    if forDur ≥ every then
      .error (.config ("cardinality_spikes.for (" ++ std.quote spike.for_ ++
        ") must be less than cardinality_spikes.every (" ++ std.quote spike.every ++ ")"))
    else if spike.cardinality == 0 then
      .error (.config "cardinality_spikes.cardinality must be greater than zero")
    else .ok ()

def validateDynamicLabelConfig (dl : DynamicLabelConfig) : Except SondaError Unit :=
  if !isValidLabelKey dl.key then
    .error (.config ("invalid dynamic_labels key " ++ std.quote dl.key ++
      ": must match [a-zA-Z_][a-zA-Z0-9_]*"))
  else
    match dl.strategy with
    | .counter _ cardinality =>
      if cardinality == 0 then
        .error (.config ("dynamic_labels[key=" ++ std.quote dl.key ++
          "].cardinality must be greater than zero"))
      else .ok ()
    | .valuesList values _ =>
      if values.isEmpty then
        .error (.config ("dynamic_labels[key=" ++ std.quote dl.key ++ "].values must not be empty"))
      else .ok ()

/-- What `validate_config` checks of the label sources. -/
def validateLabelSources (config : BaseScheduleConfig) : Except SondaError Unit := do
  (config.cardinalitySpikes.getD []).forM (validateCardinalitySpikeConfig std)
  (config.dynamicLabels.getD []).forM (validateDynamicLabelConfig std)

end

/-! ## The values of a key -/

namespace BaseScheduleConfig

/-- The set of a key with one more spike on it. -/
def wrapSpike (key : Text) (set : Option LabelValueSet) (spike : CardinalitySpikeConfig) :
    Option LabelValueSet :=
  if spike.label ≠ key then set
  else
    let lead := spike.lead.getD (defaultPrefix key)
    some <| match spike.strategy with
      | .counter => .spikeCounter lead spike.cardinality set
      | .random => .randomShape lead (spike.seed.getD 0) spike.cardinality set

def dynamicValueSet (key : Text) (dl : DynamicLabelConfig) : LabelValueSet :=
  match dl.strategy with
  | .valuesList values _ => .values values
  | .counter lead cardinality => .counter (lead.getD (defaultPrefix key)) cardinality

/-- The set of a key before its spikes. -/
def baseValueSet (config : BaseScheduleConfig) (key : Text) : Option LabelValueSet :=
  match (config.dynamicLabels.getD []).reverse.find? fun dl => dl.key == key with
  | some dl => some (dynamicValueSet key dl)
  | none => (config.labels.bind fun labels => labels.lookup key).map .static

def labelValueSet (config : BaseScheduleConfig) (key : Text) : Option LabelValueSet :=
  (config.cardinalitySpikes.getD []).foldl (wrapSpike key) (config.baseValueSet key)

end BaseScheduleConfig

/-- An event may lack a label with these values: a spike over nothing. -/
def LabelValueSet.mayBeAbsent : LabelValueSet → Bool
  | .spikeCounter _ _ outside | .randomShape _ _ _ outside =>
    match outside with
    | none => true
    | some set => set.mayBeAbsent
  | _ => false

/-! ## The schedule -/

structure CardinalitySpikeWindow where
  label : Text
  every : Nat
  duration : Nat
  cardinality : UInt64
  strategy : SpikeStrategy
  lead : Text
  seed : UInt64

/-- The value of a spike at a tick; `none` where the division by the cardinality
panics. -/
def CardinalitySpikeWindow.labelValueForTick (window : CardinalitySpikeWindow) (tick : UInt64) :
    Option Text :=
  if window.cardinality = 0 then none
  else
    let index := tick % window.cardinality
    some <| match window.strategy with
      | .counter => window.lead ++ decimal index.toNat
      | .random => randomSpikeValue window.lead window.seed index

structure DynamicLabel where
  key : Text
  lead : Text
  cardinality : UInt64
  values : List Text

/-- The value of a dynamic label at a tick; `none` where the division by the
cardinality or the index panics. -/
def DynamicLabel.labelValueForTick (dl : DynamicLabel) (tick : UInt64) : Option Text :=
  if dl.cardinality = 0 then none
  else
    let index := tick % dl.cardinality
    if dl.values.isEmpty then some (dl.lead ++ decimal index.toNat) else dl.values[index.toNat]?

/-- The label fields of a `ParsedSchedule`. -/
structure LabelSchedule where
  spikeWindows : List CardinalitySpikeWindow
  dynamicLabels : List DynamicLabel

def spikeWindow (std : StdParse) (s : CardinalitySpikeConfig) :
    Except SondaError CardinalitySpikeWindow := do
  let every ← parseDuration std s.every
  let duration ← parseDuration std s.for_
  .ok ⟨s.label, every, duration, s.cardinality, s.strategy, s.lead.getD (defaultPrefix s.label),
    s.seed.getD 0⟩

def dynamicLabel (dl : DynamicLabelConfig) : DynamicLabel :=
  match dl.strategy with
  | .counter lead cardinality => ⟨dl.key, lead.getD (defaultPrefix dl.key), cardinality, []⟩
  | .valuesList values _ => ⟨dl.key, [], UInt64.ofNat values.length, values⟩

def LabelSchedule.fromBaseConfig (std : StdParse) (config : BaseScheduleConfig) :
    Except SondaError LabelSchedule := do
  let spikeWindows ← (config.cardinalitySpikes.getD []).mapM (spikeWindow std)
  .ok ⟨spikeWindows, (config.dynamicLabels.getD []).map dynamicLabel⟩

/-- The `f64` operations of `is_in_spike`. -/
structure StdSecs (F : Type) where
  asSecs : Nat → F
  rem : F → F → F
  lt : F → F → Bool

def isInSpike {F : Type} (secs : StdSecs F) (elapsed : Nat) (spike : CardinalitySpikeWindow) : Bool :=
  let cyclePos := secs.rem (secs.asSecs elapsed) (secs.asSecs spike.every)
  secs.lt cyclePos (secs.asSecs spike.duration)

/-! ## The runner -/

inductive LabelSource
  | static
  | dynamic
  | spike
  deriving DecidableEq

variable (config : BaseScheduleConfig)

def BaseScheduleConfig.emittedLabelKeys : List (Text × LabelSource) :=
  let statics := (config.labels.elim [] fun labels => labels.keys).map fun key => (key, .static)
  let dynamics := (config.dynamicLabels.getD []).map fun dl => (dl.key, .dynamic)
  let spikes := (config.cardinalitySpikes.getD []).map fun spike => (spike.label, .spike)
  statics ++ dynamics ++ spikes

/-- A `BTreeMap` from label key to value, in the order of the keys. -/
abbrev EventLabels := List (Text × Text)

namespace EventLabels

def insert (labels : EventLabels) (key value : Text) : EventLabels :=
  insertKey (fun entry : Text × Text => entry.1.map UInt8.toNat) (key, value) labels

def get (labels : EventLabels) (key : Text) : Option Text :=
  (labels.find? fun entry => entry.1 == key).map Prod.snd

/-- The labels with one more pair, if its key is a label key. -/
def insertPair (std : StdParse) (inner : EventLabels) (pair : Text × Text) : Except SondaError EventLabels :=
  if !isValidLabelKey pair.1 then
    .error (.config ("invalid label key " ++ std.quote pair.1 ++ ": must match [a-zA-Z_][a-zA-Z0-9_]*"))
  else .ok (insert inner pair.1 pair.2)

def fromPairs (std : StdParse) (pairs : List (Text × Text)) : Except SondaError EventLabels :=
  pairs.foldlM (insertPair std) []

end EventLabels

/-- The static labels of an entry, by `emitted_label_keys`. -/
def staticPairs : List (Text × Text) :=
  config.emittedLabelKeys.filterMap fun (key, source) =>
    if source = .static then
      (config.labels.bind fun labels => labels.lookup key).map fun value => (key, value)
    else none

/-- Some label is applied tick by tick. -/
def perTickLabels : Bool :=
  config.emittedLabelKeys.any fun (_, source) => source ≠ .static

section

variable {F : Type} (secs : StdSecs F)

/-- The labels with those of the dynamic labels on them. -/
def applyDynamic (tick : UInt64) (labels : EventLabels) (dl : DynamicLabel) : Option EventLabels :=
  (dl.labelValueForTick tick).map (labels.insert dl.key)

/-- The labels with those of a spike on them if its window is open. -/
def applySpike (tick : UInt64) (elapsed : Nat) (labels : EventLabels) (window : CardinalitySpikeWindow) :
    Option EventLabels :=
  if isInSpike secs elapsed window then
    (window.labelValueForTick tick).map (labels.insert window.label)
  else some labels

/-- The labels of the event of a tick; `none` where the runner panics. -/
def tickLabels (perTick : Bool) (schedule : LabelSchedule) (labels : EventLabels) (tick : UInt64)
    (elapsed : Nat) : Option EventLabels :=
  if !perTick then some labels
  else do
    let labels ← schedule.dynamicLabels.foldlM (applyDynamic tick) labels
    schedule.spikeWindows.foldlM (applySpike secs tick elapsed) labels

/-- The labels of the event that the entry emits at a tick, if the run starts. -/
def eventLabels (std : StdParse) (config : BaseScheduleConfig) (tick : UInt64) (elapsed : Nat) :
    Except SondaError (Option EventLabels) := do
  let schedule ← LabelSchedule.fromBaseConfig std config
  let labels ← EventLabels.fromPairs std (staticPairs config)
  .ok (tickLabels secs (perTickLabels config) schedule labels tick elapsed)

end

end Sonda.Config
