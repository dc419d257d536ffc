import Sonda.Proof.Compiler.Crossings

/-!
# Flap crossings

The compiler counts a flap's first change in seconds, the sequence it desugars to in
ticks that are rounded state by state. A tick of the sequence is up or down by its place
in the cycle (`flap_tick`), the first tick of the other state comes after the rounded
ticks that are left of the first (`firstDown`, `firstUp`), and the two agree exactly if
that count is the exact one rounded up (`flap_crossing_iff`). They do for a flap of whole
ticks (`keepsChange_whole`).
-/

namespace Sonda.Compiler

open Framework Generator List
open SequenceGenerator (mk new)
open Config

variable {op : Operator} {phase : Option Text} {std : StdParse}
  {rate threshold t secs upSecs downSecs phaseSecs : ℚ} {num : ℚ → String}

/-! ## The first tick of a state -/

section

variable {A B s : Nat}

/-- The first tick that is down, from the `s`-th of a cycle of `A` up and `B` down ticks. -/
theorem firstDown (hB : 0 < B) (hs : s < A + B) :
    A ≤ (A - s + s) % (A + B) ∧ ∀ n < A - s, ¬ A ≤ (n + s) % (A + B) := by
  constructor
  · rw [Nat.mod_eq_of_lt (by omega)]
    omega
  · intro n hn
    rw [Nat.mod_eq_of_lt (by omega)]
    omega

theorem firstUp (hA : 0 < A) (hs : s < A + B) :
    ((if s < A then 0 else A + B - s) + s) % (A + B) < A ∧
      ∀ n < (if s < A then 0 else A + B - s), ¬ (n + s) % (A + B) < A := by
  split
  · refine ⟨?_, fun n hn => by omega⟩
    rw [Nat.mod_eq_of_lt (by omega)]
    omega
  · constructor
    · rw [show A + B - s + s = A + B by omega, Nat.mod_self]
      exact hA
    · intro n hn
      rw [Nat.mod_eq_of_lt (by omega)]
      omega

end

/-- There is one first tick. -/
theorem first_unique {p : Nat → Prop} {first n : Nat} (hp : p first) (hbefore : ∀ m < first, ¬ p m) :
    ((∀ m < n, ¬ p m) ∧ p n) ↔ n = first := by
  constructor
  · intro ⟨hn, hpn⟩
    rcases lt_trichotomy n first with h | h | h
    · exact absurd hpn (hbefore n h)
    · exact h
    · exact absurd hp (hn first h)
  · rintro rfl
    exact ⟨hbefore, hp⟩

/-! ## The sequence of a flap -/

section

variable (upSecs downSecs phaseSecs rate : ℚ)

/-- The ticks of the up state, of the down state, and those that the phase skips. -/
def upTicks : Nat := max (roundTicks (upSecs * rate)) 1
def downTicks : Nat := max (roundTicks (downSecs * rate)) 1
def phaseTicks : Nat := roundTicks (phaseSecs * rate) % (upTicks upSecs rate + downTicks downSecs rate)

theorem flapValues_length (upVal downVal : ℚ) :
    (flapValues upSecs downSecs phaseSecs rate upVal downVal).length =
      upTicks upSecs rate + downTicks downSecs rate := by
  simp [flapValues, upTicks, downTicks]

/-- A tick is up or down by its place in the cycle. -/
theorem flap_tick (upVal downVal : ℚ) {g : SequenceGenerator}
    (hg : new (flapValues upSecs downSecs phaseSecs rate upVal downVal) true = .ok g)
    (n : Nat) : g.value n = some (if (n + phaseTicks upSecs downSecs phaseSecs rate) %
          (upTicks upSecs rate + downTicks downSecs rate) < upTicks upSecs rate
        then upVal else downVal) := by
  have hlen := flapValues_length upSecs downSecs phaseSecs rate upVal downVal
  have hpos : 0 < upTicks upSecs rate := by
    rw [upTicks]
    omega
  have hne : flapValues upSecs downSecs phaseSecs rate upVal downVal ≠ [] := by
    intro hnil
    rw [hnil, length_nil] at hlen
    omega
  rw [new, dif_neg hne] at hg
  cases hg
  show (flapValues upSecs downSecs phaseSecs rate upVal downVal)[n % _]? = _
  rw [hlen]
  have hbase : (replicate (upTicks upSecs rate) upVal ++
      replicate (downTicks downSecs rate) downVal).length =
        upTicks upSecs rate + downTicks downSecs rate := by simp
  have hvalues : flapValues upSecs downSecs phaseSecs rate upVal downVal =
      (replicate (upTicks upSecs rate) upVal ++
        replicate (downTicks downSecs rate) downVal).rotate
          (phaseTicks upSecs downSecs phaseSecs rate) := by
    simp only [flapValues, phaseTicks, upTicks, downTicks, length_append, length_replicate]
  rw [hvalues, getElem?_rotate (by rw [hbase]; exact Nat.mod_lt _ (by omega)), hbase, Nat.mod_add_mod,
    getElem?_append, length_replicate]
  have hlt := Nat.mod_lt (n + phaseTicks upSecs downSecs phaseSecs rate)
    (show 0 < upTicks upSecs rate + downTicks downSecs rate by omega)
  split
  · rw [getElem?_replicate, if_pos (by assumption)]
  · rw [getElem?_replicate, if_pos (by omega)]

end

/-! ## What is accepted -/

theorem asSecs_nonneg {r : Except SondaError Nat} (h : r.map asSecs = .ok secs) : 0 ≤ secs := by
  cases r with
  | error e => cases h
  | ok d =>
    cases h
    exact div_nonneg (Nat.cast_nonneg d) (by norm_num)

theorem durationToSecs_nonneg {s : Text} (h : durationToSecs std s = .ok secs) : 0 ≤ secs :=
  asSecs_nonneg h

theorem flapPhaseSecs_nonneg (h : flapPhaseSecs std phase = .ok secs) : 0 ≤ secs := by
  cases phase with
  | none =>
    cases h
    exact le_refl 0
  | some s =>
    rw [flapPhaseSecs] at h
    refine asSecs_nonneg (r := parseOffsetDuration std s) ?_
    cases hp : parseOffsetDuration std s with
    | error e =>
      rw [hp] at h
      cases h
    | ok d => rwa [hp] at h

theorem roundTicks_of_nonpos {x : ℚ} (h : x ≤ 0) : roundTicks x = 0 := by
  rw [roundTicks, Int.toNat_eq_zero, ← Int.lt_add_one_iff, Int.floor_lt]
  linarith

/-- What a flap that is desugared has. -/
theorem desugarFlap_ok {upDuration downDuration : Option Text} {upValue downValue : Option ℚ}
    {enumKind : Option FlapEnum} {generator : GeneratorConfig}
    (h : desugarFlap std rate upDuration downDuration upValue downValue enumKind phase = .ok generator) :
    ∃ upSecs downSecs phaseSecs, durationToSecs std (upDuration.getD tenSeconds) = .ok upSecs ∧
      durationToSecs std (downDuration.getD fiveSeconds) = .ok downSecs ∧
      flapPhaseSecs std phase = .ok phaseSecs ∧
      ¬ (roundTicks (upSecs * rate) = 0 ∧ roundTicks (downSecs * rate) = 0) ∧
      generator = .sequence (flapValues upSecs downSecs phaseSecs rate
        (flapStates upValue downValue enumKind).1 (flapStates upValue downValue enumKind).2) (some true) := by
  obtain ⟨-, h⟩ := check_ok h
  obtain ⟨upSecs, hup, h⟩ := bind_ok h
  obtain ⟨downSecs, hdown, h⟩ := bind_ok h
  obtain ⟨hticks, h⟩ := check_ok h
  obtain ⟨phaseSecs, hphase, h⟩ := bind_ok h
  cases h
  exact ⟨upSecs, downSecs, phaseSecs, hup, hdown, hphase, hticks, rfl⟩

/-- When there is a crossing, and where. -/
theorem flapCrossingSecs_ok {upValue downValue : ℚ}
    (h : flapCrossingSecs num op threshold upSecs downSecs upValue downValue phaseSecs = .ok t) :
    (startsUp upSecs downSecs phaseSecs = true ∧ op.holds upValue threshold = false ∧
      op.holds downValue threshold = true ∧ t = upSecs - intoCycle upSecs downSecs phaseSecs) ∨
    (startsUp upSecs downSecs phaseSecs = false ∧ op.holds upValue threshold = true ∧
      op.holds downValue threshold = false ∧
      t = upSecs + downSecs - intoCycle upSecs downSecs phaseSecs) := by
  unfold flapCrossingSecs at h
  cases hup : op.holds upValue threshold <;> cases hdown : op.holds downValue threshold <;>
    cases hstart : startsUp upSecs downSecs phaseSecs <;> simp [hup, hdown, hstart] at h <;> simp [h]

/-! ## Agreement -/

/-- With the up state, the down state and the phase in exact ticks: the ticks to the first
change of state are as many when the three are rounded, the states to one tick at least,
as when they are counted exactly and rounded up. -/
def KeepsChange (up down phase : ℚ) : Prop :=
  let upTicks := max (roundTicks up) 1
  let downTicks := max (roundTicks down) 1
  let skipped := roundTicks phase % (upTicks + downTicks)
  let into := residue phase (up + down)
  if into = 0 ∨ into < up then ((upTicks - skipped : Nat) : ℤ) = ⌈up - into⌉
  else ((if skipped < upTicks then 0 else upTicks + downTicks - skipped : Nat) : ℤ) = ⌈up + down - into⌉

/-- The generator satisfies the comparison at no tick before the time, and at the first
one from it on. -/
structure CrossesAt (g : ValueGenerator) (rate : ℚ) (op : Operator) (threshold t : ℚ) : Prop where
  before : ∀ n : Nat, n / rate < t → ¬ Satisfies g op threshold n
  first : ∀ n : Nat, t ≤ n / rate → (∀ m : Nat, m < n → m / rate < t) → Satisfies g op threshold n

theorem crossesAt_iff {g : ValueGenerator} (hrate : 0 < rate) :
    CrossesAt g rate op threshold t ↔ (∀ n < ⌈t * rate⌉.toNat, ¬ Satisfies g op threshold n) ∧
      Satisfies g op threshold ⌈t * rate⌉.toNat := by
  constructor
  · intro ⟨hbefore, hfirst⟩
    refine ⟨fun n hn => hbefore n ((tick_lt_iff hrate t n).2 hn), hfirst _ ?_ fun m hm => ?_⟩
    · exact (le_tick_iff hrate t _).2 le_rfl
    · exact (tick_lt_iff hrate t m).2 hm
  · intro ⟨hbefore, hfirst⟩
    refine ⟨fun n hn => hbefore n ((tick_lt_iff hrate t n).1 hn), fun n hn hm => ?_⟩
    have hle := (le_tick_iff hrate t n).1 hn
    have hge : ¬ ⌈t * rate⌉.toNat < n := fun hlt =>
      absurd ((tick_lt_iff hrate t _).1 (hm _ hlt)) (lt_irrefl _)
    rw [show n = ⌈t * rate⌉.toNat by omega]
    exact hfirst

section

variable {upSecs downSecs phaseSecs rate : ℚ}

theorem intoCycle_mul (hrate : 0 < rate) (hcycle : 0 < upSecs + downSecs) (hphase : 0 ≤ phaseSecs) :
    residue (phaseSecs * rate) (upSecs * rate + downSecs * rate) =
      intoCycle upSecs downSecs phaseSecs * rate := by
  rw [← add_mul, residue_mul hrate.ne', intoCycle]
  split
  · rfl
  · rename_i h
    have hzero : phaseSecs = 0 := le_antisymm (not_lt.1 fun hp => h ⟨hcycle, hp⟩) hphase
    rw [hzero, residue_of_lt le_rfl hcycle]

theorem startsUp_iff (hrate : 0 < rate) (hcycle : 0 < upSecs + downSecs) (hphase : 0 ≤ phaseSecs) :
    startsUp upSecs downSecs phaseSecs = true ↔
      residue (phaseSecs * rate) (upSecs * rate + downSecs * rate) = 0 ∨
        residue (phaseSecs * rate) (upSecs * rate + downSecs * rate) < upSecs * rate := by
  rw [intoCycle_mul hrate hcycle hphase, mul_eq_zero, or_iff_left hrate.ne', mul_lt_mul_iff_left₀ hrate]
  simp [startsUp]

end

theorem toNat_eq_iff {x : ℤ} (hx : 0 ≤ x) (n : Nat) : x.toNat = n ↔ (n : ℤ) = x := by omega

/-- The crossing of a flap's sequence is where the compiler has it exactly if rounding
keeps the change. -/
theorem crossesAt_flap {upVal downVal : ℚ} {g : SequenceGenerator} (hup : 0 ≤ upSecs)
    (hphase : 0 ≤ phaseSecs) (hrate : 0 < rate) (hcycle : 0 < upSecs + downSecs)
    (hg : new (flapValues upSecs downSecs phaseSecs rate upVal downVal) true = .ok g)
    (ht : flapCrossingSecs num op threshold upSecs downSecs upVal downVal phaseSecs = .ok t) :
    CrossesAt g.value rate op threshold t ↔
      KeepsChange (upSecs * rate) (downSecs * rate) (phaseSecs * rate) := by
  have htick := flap_tick upSecs downSecs phaseSecs rate upVal downVal hg
  have hinto := intoCycle_mul hrate hcycle hphase
  have hstarts := startsUp_iff hrate hcycle hphase
  have hlt : residue (phaseSecs * rate) (upSecs * rate + downSecs * rate) <
      upSecs * rate + downSecs * rate := residue_lt (by rw [← add_mul]; exact mul_pos hcycle hrate)
  have hA : 0 < upTicks upSecs rate := by
    rw [upTicks]
    omega
  have hB : 0 < downTicks downSecs rate := by
    rw [downTicks]
    omega
  have hs : phaseTicks upSecs downSecs phaseSecs rate < upTicks upSecs rate + downTicks downSecs rate :=
    Nat.mod_lt _ (by omega)
  rw [crossesAt_iff hrate]
  rcases flapCrossingSecs_ok ht with ⟨hstart, huph, hdownh, rfl⟩ | ⟨hstart, huph, hdownh, rfl⟩
  · -- Up to down: the state that holds is the down state.
    have hcond := hstarts.1 hstart
    have hsat : ∀ n, Satisfies g.value op threshold n ↔ upTicks upSecs rate ≤
        (n + phaseTicks upSecs downSecs phaseSecs rate) % (upTicks upSecs rate + downTicks downSecs rate) := by
      intro n
      rw [satisfies_some (htick n)]
      split <;> simp_all
    obtain ⟨hp, hbefore⟩ := firstDown hB hs
    rw [first_unique ((hsat _).2 hp) fun n hn h => hbefore n hn ((hsat n).1 h), sub_mul, ← hinto, KeepsChange]
    simp only [hcond, if_true]
    refine toNat_eq_iff (Int.ceil_nonneg ?_) _
    rcases hcond with h | h
    · rw [h, sub_zero]
      exact mul_nonneg hup hrate.le
    · linarith
  · -- Down to up.
    have hcond : ¬ (residue (phaseSecs * rate) (upSecs * rate + downSecs * rate) = 0 ∨
        residue (phaseSecs * rate) (upSecs * rate + downSecs * rate) < upSecs * rate) := by
      rw [← hstarts, hstart]
      simp
    have hsat : ∀ n, Satisfies g.value op threshold n ↔
        (n + phaseTicks upSecs downSecs phaseSecs rate) % (upTicks upSecs rate + downTicks downSecs rate) <
          upTicks upSecs rate := by
      intro n
      rw [satisfies_some (htick n)]
      split <;> simp_all
    obtain ⟨hp, hbefore⟩ := firstUp hA hs
    rw [first_unique ((hsat _).2 hp) fun n hn h => hbefore n hn ((hsat n).1 h), sub_mul, add_mul,
      ← hinto, KeepsChange]
    simp only [hcond, if_false]
    exact toNat_eq_iff (Int.ceil_nonneg (by linarith)) _

/-- For every flap that is desugared, and every threshold that it crosses: the sequence
crosses it where the compiler says exactly if rounding to ticks keeps the first change. -/
theorem flap_crossing_iff {std : StdParse} {others : OtherGenerators} {config out : ScenarioConfig}
    {upDuration downDuration phase : Option Text} {upValue downValue : Option ℚ}
    {enumKind : Option FlapEnum} {g : ValueGenerator} {op : Operator}
    {threshold t upSecs downSecs phaseSecs : ℚ}
    (hflap : config.generator = .flap upDuration downDuration upValue downValue enumKind phase)
    (hout : desugarScenarioConfig std config = .ok out)
    (hg : createGenerator others out.generator out.rate = .ok g)
    (ht : crossingSecs std config.generator op threshold config.rate = .ok t)
    (hup : durationToSecs std (upDuration.getD tenSeconds) = .ok upSecs)
    (hdown : durationToSecs std (downDuration.getD fiveSeconds) = .ok downSecs)
    (hphase : flapPhaseSecs std phase = .ok phaseSecs) :
    CrossesAt g config.rate op threshold t ↔
      KeepsChange (upSecs * config.rate) (downSecs * config.rate) (phaseSecs * config.rate) := by
  rw [desugarScenarioConfig, hflap] at hout
  obtain ⟨generator, hgen, hout⟩ := bind_ok hout
  cases hout
  obtain ⟨_, _, _, hup', hdown', hphase', hticks, rfl⟩ := desugarFlap_ok hgen
  cases hup.symm.trans hup'
  cases hdown.symm.trans hdown'
  cases hphase.symm.trans hphase'
  have hup0 := durationToSecs_nonneg hup
  have hdown0 := durationToSecs_nonneg hdown
  have hphase0 := flapPhaseSecs_nonneg hphase
  -- One of the states has a tick, so the rate and the cycle are positive.
  have hrate : 0 < config.rate := by
    by_contra hle
    rw [not_lt] at hle
    exact hticks ⟨roundTicks_of_nonpos (mul_nonpos_of_nonneg_of_nonpos hup0 hle),
      roundTicks_of_nonpos (mul_nonpos_of_nonneg_of_nonpos hdown0 hle)⟩
  have hcycle : 0 < upSecs + downSecs := by
    by_contra hle
    have hup1 : upSecs = 0 := by linarith
    have hdown1 : downSecs = 0 := by linarith
    subst hup1 hdown1
    exact hticks ⟨roundTicks_of_nonpos (by simp), roundTicks_of_nonpos (by simp)⟩
  rw [hflap] at ht
  unfold crossingSecs at ht
  dsimp only at ht
  rw [durationOrDefault_ok (durationToSecs_defaults std).1 hup,
    durationOrDefault_ok (durationToSecs_defaults std).2.1 hdown, offsetOrZero_ok hphase] at ht
  cases hseq : new (flapValues upSecs downSecs phaseSecs config.rate
      (flapStates upValue downValue enumKind).1 (flapStates upValue downValue enumKind).2) true with
  | error e =>
    rw [createGenerator] at hg
    simp only [Option.getD_some, hseq] at hg
    cases hg
  | ok sg =>
    rw [createGenerator] at hg
    simp only [Option.getD_some, hseq] at hg
    cases hg
    exact crossesAt_flap hup0 hphase0 hrate hcycle hseq ht

/-! ## Flaps of whole ticks, and others -/

theorem roundTicks_natCast (n : Nat) : roundTicks n = n := by
  rw [roundTicks, Int.floor_natCast_add, show ⌊(1 / 2 : ℚ)⌋ = 0 by norm_num]
  omega

/-- States and a phase of whole ticks keep the change. -/
theorem keepsChange_whole {up down : Nat} (hup : 0 < up) (hdown : 0 < down) (phase : Nat) :
    KeepsChange up down phase := by
  have hinto : residue (phase : ℚ) ((up : ℚ) + down) = ((phase % (up + down) : Nat) : ℚ) := by
    have h := residue_div (phase : ℤ) (b := ((up + down : Nat) : ℤ)) (by omega) (q := 1) one_pos
    rw [div_one, div_one, div_one] at h
    exact_mod_cast h
  have hlt : phase % (up + down) < up + down := Nat.mod_lt _ (by omega)
  unfold KeepsChange
  simp only [roundTicks_natCast, hinto, Nat.max_eq_left hup, Nat.max_eq_left hdown]
  split
  · rename_i h
    have hle : phase % (up + down) ≤ up := by
      rcases h with h | h
      · have : phase % (up + down) = 0 := by exact_mod_cast h
        omega
      · have : phase % (up + down) < up := by exact_mod_cast h
        omega
    rw [← Nat.cast_sub hle, Int.ceil_natCast]
  · rename_i h
    have hge : ¬ phase % (up + down) < up := fun hlt => h (.inr (by exact_mod_cast hlt))
    rw [if_neg hge, ← Nat.cast_add, ← Nat.cast_sub hlt.le, Int.ceil_natCast]

/-- A flap with an up state of 1.4 seconds, at one tick a second. -/
def briefFlap : ScenarioConfig where
  generator := .flap (some [0x31, 0x34, 0x30, 0x30, 0x6d, 0x73]) none none none none none
  rate := 1
  duration := none
  jitter := none
  jitterSeed := none

/-- The compiler has it go down at 1.4 seconds; the sequence is down at the first. -/
theorem flap_crossing_early : ∃ out g, desugarScenarioConfig decimalParse briefFlap = .ok out ∧
    createGenerator noOthers out.generator out.rate = .ok g ∧
    crossingSecs decimalParse briefFlap.generator .lessThan (1 / 2) briefFlap.rate = .ok (7 / 5) ∧
    (1 : ℕ) / briefFlap.rate < 7 / 5 ∧ Satisfies g .lessThan (1 / 2) 1 := by
  refine ⟨{ briefFlap with generator := .sequence [1, 0, 0, 0, 0, 0] (some true) },
    (mk [1, 0, 0, 0, 0, 0] true (by decide)).value,
    ok_of_toOption (by decide +kernel), rfl, ok_of_toOption (by decide +kernel),
    by decide +kernel, by decide +kernel⟩

/-- Up for two seconds and down for three, from one second into the cycle. -/
def wholeFlap : ScenarioConfig :=
  { briefFlap with
    generator := .flap (some [0x32, 0x73]) (some [0x33, 0x73]) none none none (some [0x31, 0x73]) }

theorem flap_crossing_phase :
    let g := (mk [1, 0, 0, 0, 1] true (by decide)).value
    (desugarScenarioConfig decimalParse wholeFlap = .ok { wholeFlap with
        generator := .sequence [1, 0, 0, 0, 1] (some true) } ∧
      crossingSecs decimalParse wholeFlap.generator .lessThan (1 / 2) 1 = .ok 1) ∧
    (CrossesAt g 1 .lessThan (1 / 2) 1 ↔ KeepsChange (2 * 1) (3 * 1) (1 * 1)) ∧
    KeepsChange (2 * 1) (3 * 1) (1 * 1) := by
  have hout : desugarScenarioConfig decimalParse wholeFlap = .ok { wholeFlap with
      generator := .sequence [1, 0, 0, 0, 1] (some true) } := ok_of_toOption (by decide +kernel)
  have ht : crossingSecs decimalParse wholeFlap.generator .lessThan (1 / 2) 1 = .ok 1 :=
    ok_of_toOption (by decide +kernel)
  have hg : createGenerator noOthers (.sequence [1, 0, 0, 0, 1] (some true)) 1 =
    .ok (mk [1, 0, 0, 0, 1] true (by decide)).value := rfl
  refine ⟨⟨hout, ht⟩, flap_crossing_iff rfl hout hg ht (ok_of_toOption (by decide +kernel))
    (ok_of_toOption (by decide +kernel)) (ok_of_toOption (by decide +kernel)), ?_⟩
  simpa using keepsChange_whole (show 0 < 2 by decide) (show 0 < 3 by decide) 1

end Sonda.Compiler
