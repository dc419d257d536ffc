import Sonda.Framework.Residues
import Sonda.Impl.Config.Durations

/-!
# Value generators

The generators of `sonda-core/src/generator/` whose values are arithmetic on the tick
(`sequence.rs`, `sawtooth.rs`, `spike.rs`, `step.rs`), their configuration and the
factory `create_generator` (`mod.rs`). `f64` numbers are exact rationals, and a value
that `f64` has as NaN is `none`. The generators with random, irrational or replayed
values are parameters of the factory (`OtherGenerators`).
-/

namespace Sonda.Generator

open Framework
open Config (Text)
open Sonda.Schedule (SondaError)

/-! ## Configuration -/

inductive FlapEnum
  | boolean
  | linkState
  | operState
  | adminState
  | neighborState
  deriving DecidableEq

def FlapEnum.defaults : FlapEnum → ℚ × ℚ
  | .boolean | .linkState => (1, 0)
  | .operState | .adminState => (1, 2)
  | .neighborState => (6, 1)

inductive GeneratorConfig
  | constant (value : ℚ)
  | uniform (min max : ℚ) (seed : Option UInt64)
  | sine (amplitude periodSecs offset : ℚ)
  | sawtooth (min max periodSecs : ℚ)
  | sequence (values : List ℚ) (repeats : Option Bool)
  | spike (baseline magnitude durationSecs intervalSecs : ℚ)
  | csvReplay (file : Text) (column : Option Nat) (columns : Option (List Nat)) (repeats : Option Bool)
  | step (start : Option ℚ) (stepSize : ℚ) (max : Option ℚ)
  | flap (upDuration downDuration : Option Text) (upValue downValue : Option ℚ)
      (enumKind : Option FlapEnum) (phase : Option Text)
  | saturation (baseline ceiling : Option ℚ) (timeToSaturate : Option Text)
  | leak (baseline ceiling : Option ℚ) (timeToCeiling : Option Text)
  | degradation (baseline ceiling : Option ℚ) (timeToDegrade : Option Text) (noise : Option ℚ)
      (noiseSeed : Option UInt64)
  | steady (center amplitude : Option ℚ) (period : Option Text) (noise : Option ℚ)
      (noiseSeed : Option UInt64)
  | spikeEvent (baseline spikeHeight : Option ℚ) (spikeDuration spikeInterval : Option Text)
  deriving DecidableEq

/-! ## Generators -/

/-- `x % m` of a tick count; a remainder by zero is NaN. -/
def frem (x m : ℚ) : Option ℚ := if m = 0 then none else some (residue x |m|)

abbrev ValueGenerator := Nat → Option ℚ

structure SequenceGenerator where
  values : List ℚ
  repeats : Bool
  /-- `new` refuses an empty list. -/
  ne_nil : values ≠ []

namespace SequenceGenerator

def new (values : List ℚ) (repeats : Bool) : Except SondaError SequenceGenerator :=
  if h : values = [] then .error (.config "sequence generator requires at least one value")
  else .ok ⟨values, repeats, h⟩

def index (g : SequenceGenerator) (tick : Nat) : Nat :=
  if g.repeats then tick % g.values.length else min tick (g.values.length - 1)

def value (g : SequenceGenerator) : ValueGenerator := fun tick => g.values[g.index tick]?

end SequenceGenerator

structure Sawtooth where
  min : ℚ
  max : ℚ
  periodTicks : ℚ

namespace Sawtooth

def new (min max periodSecs rate : ℚ) : Sawtooth := ⟨min, max, periodSecs * rate⟩

def value (g : Sawtooth) : ValueGenerator := fun tick =>
  (frem tick g.periodTicks).map fun position => g.min + position / g.periodTicks * (g.max - g.min)

end Sawtooth

structure SpikeGenerator where
  baseline : ℚ
  magnitude : ℚ
  durationTicks : ℚ
  intervalTicks : ℚ

namespace SpikeGenerator

def new (baseline magnitude durationSecs intervalSecs rate : ℚ) : SpikeGenerator :=
  ⟨baseline, magnitude, durationSecs * rate, intervalSecs * rate⟩

/-- A comparison with NaN does not hold. -/
def value (g : SpikeGenerator) : ValueGenerator := fun tick =>
  if (frem tick g.intervalTicks).any fun position => position < g.durationTicks then
    some (g.baseline + g.magnitude)
  else some g.baseline

end SpikeGenerator

structure StepGenerator where
  start : ℚ
  stepSize : ℚ
  max : Option ℚ

namespace StepGenerator

/-- The `max` at which the values wrap: above `start`, or none at all. -/
def wraps (g : StepGenerator) : Option ℚ := g.max.filter fun m => g.start < m

def value (g : StepGenerator) : ValueGenerator := fun tick =>
  let raw := tick * g.stepSize
  match g.wraps with
  | some m => some (g.start + residue raw (m - g.start))
  | none => some (g.start + raw)

end StepGenerator

/-! ## The factory -/

structure OtherGenerators where
  uniform : (min max : ℚ) → (seed : UInt64) → ValueGenerator
  sine : (amplitude periodSecs offset rate : ℚ) → ValueGenerator
  csvReplay : (file : Text) → (column : Nat) → (repeats : Bool) → Except SondaError ValueGenerator

def createGenerator (others : OtherGenerators) (config : GeneratorConfig) (rate : ℚ) :
    Except SondaError ValueGenerator :=
  match config with
  | .constant value => .ok fun _ => some value
  | .uniform min max seed => .ok (others.uniform min max (seed.getD 0))
  | .sine amplitude periodSecs offset => .ok (others.sine amplitude periodSecs offset rate)
  | .sawtooth min max periodSecs => .ok (Sawtooth.new min max periodSecs rate).value
  | .spike baseline magnitude durationSecs intervalSecs =>
    if intervalSecs ≤ 0 then .error (.config "spike generator requires interval_secs > 0")
    else if durationSecs < 0 then .error (.config "spike generator requires duration_secs >= 0")
    else .ok (SpikeGenerator.new baseline magnitude durationSecs intervalSecs rate).value
  | .sequence values repeats => (SequenceGenerator.new values (repeats.getD true)).map (·.value)
  | .csvReplay file column columns repeats =>
    if columns.isSome then
      .error (.config "csv_replay: call expand_scenario before create_generator when 'columns' is set")
    else others.csvReplay file (column.getD 0) (repeats.getD true)
  | .step start stepSize max => .ok (StepGenerator.value ⟨start.getD 0, stepSize, max⟩)
  | .flap .. | .saturation .. | .leak .. | .degradation .. | .steady .. | .spikeEvent .. =>
    .error (.config ("operational alias generator must be desugared via " ++
      "desugar_entry() or desugar_scenario_config() before calling create_generator()"))

end Sonda.Generator
