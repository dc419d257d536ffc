import Sonda.Impl.Generator.Generators

/-!
# Operational aliases

`desugar_scenario_config` of `sonda-core/src/config/aliases.rs`: the generator an alias
stands for. Ticks are counted exactly: a duration in seconds times the rate, rounded to
the nearest whole number, halves up.
-/

namespace Sonda.Config

open Generator
open Sonda.Schedule (SondaError)

/-- The fields of a `ScenarioConfig` that desugaring reads or sets. -/
structure ScenarioConfig where
  generator : GeneratorConfig
  rate : ℚ
  duration : Option Text
  jitter : Option ℚ
  jitterSeed : Option UInt64
  deriving DecidableEq

/-- `x.round() as usize`. -/
def roundTicks (x : ℚ) : Nat := ⌊x + 1 / 2⌋.toNat

variable (std : StdParse)

def durationToSecs (s : Text) : Except SondaError ℚ := (parseDuration std s).map asSecs

def flapPhaseSecs (phase : Option Text) : Except SondaError ℚ :=
  match phase with
  | none => .ok 0
  | some s => ((parseOffsetDuration std s).map asSecs).mapError (prependContext std "flap: invalid phase" s)

/-- The jitter of an alias, where the entry sets none. -/
def applyJitterIfUnset (config : ScenarioConfig) (jitter : ℚ) (seed : Option UInt64) : ScenarioConfig :=
  { config with
    jitter := config.jitter <|> some jitter
    jitterSeed := config.jitterSeed <|> seed }

/-- The values of one cycle of a flap, from its phase on. -/
def flapValues (upSecs downSecs phaseSecs rate upVal downVal : ℚ) : List ℚ :=
  let values := List.replicate (max (roundTicks (upSecs * rate)) 1) upVal ++
    List.replicate (max (roundTicks (downSecs * rate)) 1) downVal
  values.rotate (roundTicks (phaseSecs * rate) % values.length)

def flapStates (upValue downValue : Option ℚ) (enumKind : Option FlapEnum) : ℚ × ℚ :=
  let (upDefault, downDefault) := (enumKind.map FlapEnum.defaults).getD (1, 0)
  (upValue.getD upDefault, downValue.getD downDefault)

/-- `10s`, `5s`, `5m`, `10m`, `60s` and `30s`. -/
def tenSeconds : Text := [0x31, 0x30, 0x73]
def fiveSeconds : Text := [0x35, 0x73]
def fiveMinutes : Text := [0x35, 0x6d]
def tenMinutes : Text := [0x31, 0x30, 0x6d]
def sixtySeconds : Text := [0x36, 0x30, 0x73]
def thirtySeconds : Text := [0x33, 0x30, 0x73]

def desugarFlap (rate : ℚ) (upDuration downDuration : Option Text)
    (upValue downValue : Option ℚ) (enumKind : Option FlapEnum) (phase : Option Text) :
    Except SondaError GeneratorConfig :=
  if enumKind.isSome && (upValue.isSome || downValue.isSome) then
    .error (.config ("flap: 'enum' is mutually exclusive with explicit 'up_value'/'down_value' " ++
      "— pick one"))
  else do
    let upSecs ← durationToSecs std (upDuration.getD tenSeconds)
    let downSecs ← durationToSecs std (downDuration.getD fiveSeconds)
    if roundTicks (upSecs * rate) = 0 ∧ roundTicks (downSecs * rate) = 0 then
      .error (.config "flap: up_duration and down_duration must produce at least one tick total")
    else do
      let phaseSecs ← flapPhaseSecs std phase
      let (upVal, downVal) := flapStates upValue downValue enumKind
      .ok (.sequence (flapValues upSecs downSecs phaseSecs rate upVal downVal) (some true))

/-- A leak's ramp does not end before the run does. -/
def checkLeak (duration : Option Text) (ceilingIn : Text) (periodSecs : ℚ) : Except SondaError Unit :=
  match duration with
  | none => .ok ()
  | some scenarioDur => do
    let scenarioSecs ← durationToSecs std scenarioDur
    if periodSecs < scenarioSecs then
      .error (.config ("leak: time_to_ceiling (" ++ textString ceilingIn ++
        ") is shorter than scenario duration (" ++ textString scenarioDur ++
        "); the sawtooth would reset mid-run. Use 'saturation' instead for repeating fill-and-reset " ++
        "cycles, or increase time_to_ceiling to >= duration"))
    else .ok ()

def desugarScenarioConfig (config : ScenarioConfig) : Except SondaError ScenarioConfig :=
  match config.generator with
  | .flap upDuration downDuration upValue downValue enumKind phase => do
    let generator ← desugarFlap std config.rate upDuration downDuration upValue downValue enumKind phase
    .ok { config with generator }
  | .saturation baseline ceiling timeToSaturate => do
    let periodSecs ← durationToSecs std (timeToSaturate.getD fiveMinutes)
    .ok { config with generator := .sawtooth (baseline.getD 0) (ceiling.getD 100) periodSecs }
  | .leak baseline ceiling timeToCeiling => do
    let dur := timeToCeiling.getD tenMinutes
    let periodSecs ← durationToSecs std dur
    checkLeak std config.duration dur periodSecs
    .ok { config with generator := .sawtooth (baseline.getD 0) (ceiling.getD 100) periodSecs }
  | .degradation baseline ceiling timeToDegrade noise noiseSeed => do
    let periodSecs ← durationToSecs std (timeToDegrade.getD fiveMinutes)
    .ok (applyJitterIfUnset
      { config with generator := .sawtooth (baseline.getD 0) (ceiling.getD 100) periodSecs }
      (noise.getD 1) noiseSeed)
  | .steady center amplitude period noise noiseSeed => do
    let periodSecs ← durationToSecs std (period.getD sixtySeconds)
    .ok (applyJitterIfUnset
      { config with generator := .sine (amplitude.getD 10) periodSecs (center.getD 50) }
      (noise.getD 1) noiseSeed)
  | .spikeEvent baseline spikeHeight spikeDuration spikeInterval => do
    let durationSecs ← durationToSecs std (spikeDuration.getD tenSeconds)
    let intervalSecs ← durationToSecs std (spikeInterval.getD thirtySeconds)
    .ok { config with
      generator := .spike (baseline.getD 0) (spikeHeight.getD 100) durationSecs intervalSecs }
  | _ => .ok config

end Sonda.Config
