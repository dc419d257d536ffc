import Sonda.Proof.Schedule.ScheduleLoop
import Sonda.Proof.Schedule.Seconds

/-!
# The tick numbers of a run increase

The tick counter moves by one per emission, whatever the interval, and is
derived anew from the clock when a synthetic run comes out of a recurring gap.
Under `KeepsPace` the derived tick is not behind the counter, and then the
ticks a run emits increase and no published rate underflows
(`ticks_increase`). A schedule that never emits faster than its base interval
keeps pace while its slots are exact (`run_keepsPace`), so its ticks increase.
A burst that runs ahead of the grid does not: `burst_rewinds` is a run that
emits a tick twice.
-/

namespace Sonda.Proof.Schedule

open Sonda.Schedule Framework List
open ScheduleLoop (advance enter resume)

variable {cfg : LoopConfig}
variable {inp : LoopInput} {s : LoopState}

/-- The ticks a run has emitted. -/
def ticks (log : List LoopEvent) : List Nat :=
  log.filterMap fun
    | .tick n _ _ => some n
    | .rate .. => none

@[simp] theorem ticks_append (log es : List LoopEvent) :
    ticks (log ++ es) = ticks log ++ ticks es := filterMap_append

@[simp] theorem ticks_nil : ticks [] = [] := rfl

@[simp] theorem ticks_tick (n e a : Nat) : ticks [.tick n e a] = [n] := rfl

@[simp] theorem ticks_rate (t w e : Nat) : ticks [.rate t w e] = [] := rfl

/-- A published rate counts the events since its window began, a `u64`
subtraction that must not underflow. -/
def RateDefined : LoopEvent → Prop
  | .tick .. => True
  | .rate tick windowTick _ => windowTick ≤ tick

/-- Where a synthetic run sleeps through a recurring gap to its end, the slot
of the last tick it emitted lies before that end. -/
def KeepsPace (cfg : LoopConfig) (s : LoopState) (inp : LoopInput) : Prop :=
  s.pc = .head → (s.cancelled || inp.cancel) = false → hasRecordedRows cfg.schedule = false →
    s.loop.initialTick < s.loop.tick →
    ∀ gapEnd next, judge cfg s.loop (emitAt s.clock s.loop inp) = .sleep gapEnd next →
      (s.clock + inp.delay + inp.delay' < gapEnd → inp.cancelSleep = false) →
      s.loop.start + cfg.slot (s.loop.tick - 1 - s.loop.initialTick) < gapEnd

/-- Every emitted tick is below this one. -/
def owed (s : LoopState) : Nat :=
  match s.pc with
  | .head => s.loop.tick
  | _ => s.loop.tick + 1

theorem owed_le (s : LoopState) : owed s ≤ s.loop.tick + 1 := by
  simp only [owed]; split <;> omega

/-- The ticks emitted so far increase, and the counters are ahead of them. -/
structure Ordered (s : LoopState) (log : List LoopEvent) : Prop where
  initial : s.loop.initialTick ≤ s.loop.tick
  window : s.loop.rateWindowTick ≤ s.loop.tick
  below : ∀ n ∈ ticks log, n < owed s
  sorted : (ticks log).Pairwise (· < ·)
  rates : ∀ e ∈ log, RateDefined e

/-- A walk out of a silence moves the counter forward. -/
theorem le_of_moves {n : Nat} (hpc : s.pc = .head) (hlive : (s.cancelled || inp.cancel) = false)
    (hk : KeepsPace cfg s inp) (h : Moves cfg s.clock s.loop inp n) :
    s.loop.tick ≤ s.loop.initialTick + n := by
  cases h with
  | skip hj => have := (walk_some (skip_of_judge hj).2.symm).1; omega
  | resume hj hslept =>
    obtain ⟨gap, r, -, -, hend, hw⟩ := sleep_of_judge hj
    obtain ⟨hle, hp, -⟩ := walk_some hw.symm
    cases hr : hasRecordedRows cfg.schedule with
    | true => simp only [walkStart, hr, if_true] at hle; omega
    | false =>
      have hslot := resumedAt_le hr hp
      by_contra hlt
      have hpace := hk hpc hlive hr (by omega) _ _ hj hslept
      have hmono : mulF64 cfg.base n ≤ cfg.slot (s.loop.tick - 1 - s.loop.initialTick) :=
        mulF64_mono (by omega)
      omega

theorem ordered_step {s s' : LoopState} {log es : List LoopEvent} (h : Ordered s log)
    (hk : KeepsPace cfg s inp) (hs : (scheduleLoop cfg).step s inp = some (s', es)) :
    Ordered s' (log ++ es) := by
  obtain ⟨hinit, hwin, hbelow, hsort, hrates⟩ := h
  cases steps_of_step hs with
  | idle hpc hl hpc' =>
    have howed : owed s ≤ owed s' := by
      simp only [owed, hpc, hl]; split <;> omega
    refine ⟨by rwa [hl], by rwa [hl], ?_, by simpa using hsort, by simpa using hrates⟩
    intro n hn
    exact (hbelow n (by simpa using hn)).trans_le howed
  | moved hpc hpc' hlive hl hm =>
    have hle := le_of_moves hpc hlive hk hm
    simp only [owed, hpc] at hbelow
    refine ⟨by simp [hl, resume], ?_, ?_, by simpa using hsort, by simpa using hrates⟩
    · simp only [hl, resume]; omega
    · intro n hn
      simp only [owed, hpc', hl, resume]
      have := hbelow n (by simpa using hn)
      omega
  | called hpc hl hpc' hm =>
    simp only [owed, hpc] at hbelow
    refine ⟨by rwa [hl], by rwa [hl], ?_, ?_, ?_⟩
    · intro n hn
      simp only [ticks_append, ticks_tick, mem_append, mem_singleton] at hn
      simp only [owed, hpc', hl]
      rcases hn with hn | rfl
      · have := hbelow n hn; omega
      · omega
    · simp only [ticks_append, ticks_tick, pairwise_append, pairwise_singleton,
        mem_singleton, forall_eq, true_and]
      exact ⟨hsort, hbelow⟩
    · intro e he
      rcases mem_append.mp he with he | he
      · exact hrates e he
      · simp only [mem_singleton] at he; subst he; trivial
  | settled hpc hpc' hp hl =>
    simp only [owed, hpc] at hbelow
    cases hp with
    | nothing =>
      refine ⟨?_, ?_, ?_, by simpa using hsort, by simpa using hrates⟩
      · simp only [hl, advance]; omega
      · simp only [hl, advance]; omega
      · simpa [owed, hpc', hl, advance] using hbelow
    | rate =>
      refine ⟨?_, ?_, ?_, by simpa using hsort, ?_⟩
      · simp only [hl, advance]; omega
      · simp only [hl, advance]; omega
      · simpa [owed, hpc', hl, advance] using hbelow
      · intro e he
        rcases mem_append.mp he with he | he
        · exact hrates e he
        · simp only [mem_singleton] at he; subst he; exact hwin
  | failed hpc hpc' hl =>
    refine ⟨by rwa [hl], by rwa [hl], ?_, by simpa using hsort, by simpa using hrates⟩
    simpa [owed, hpc, hpc', hl] using hbelow

theorem ordered_enter (initialTick now : Nat) : Ordered (.enter initialTick now) [] :=
  ⟨Nat.le_refl _, Nat.zero_le _, by simp, by simp, by simp⟩

/-- In a run that keeps pace the emitted ticks increase, and every published
rate is defined. -/
theorem ticks_increase {initialTick now : Nat} {s : LoopState} {log : List LoopEvent}
    (h : (scheduleLoop cfg).Run (KeepsPace cfg) (.enter initialTick now) s log) :
    (ticks log).Pairwise (· < ·) ∧ ∀ e ∈ log, RateDefined e :=
  have o : Ordered s log := h.invariant (ordered_enter initialTick now) ordered_step
  ⟨o.sorted, o.rates⟩

/-! ## Schedules that keep pace -/

/-- No burst emits faster than the base rate. -/
def NeverFaster (cfg : LoopConfig) : Prop :=
  ∀ burst, cfg.schedule.burstWindow = some burst → burst.multiplier.units ≤ Double.one

/-- The slots of the loop lie in the first thirteen days, where they are exact. -/
def FirstDays (cfg : LoopConfig) (s : LoopState) (_ : LoopInput) : Prop :=
  cfg.base * (s.loop.tick - s.loop.initialTick + 1) ≤ 2 ^ 50

theorem le_burstInterval {base : Nat} {m : Double} (hb : base ≤ 2 ^ 50) (hpos : 0 < m.units)
    (hle : m.units ≤ Double.one) : base ≤ burstInterval base m := by
  have hone : (Double.ofNat 1).units = Double.one := (Double.ofNat_units (by decide)).trans (one_mul _)
  calc base = mulF64 base 1 := by rw [mulF64_eq (by omega), mul_one]
    _ ≤ burstInterval base m := fromSecs_mono (roundUnits_mono Double.one_pos hpos ?_)
  rw [hone, mul_comm Double.one]
  exact Nat.mul_le_mul_left _ hle

theorem le_effectiveInterval (h : NeverFaster cfg) (hb : cfg.base ≤ 2 ^ 50) (elapsed : Nat) :
    cfg.base ≤ effectiveInterval cfg elapsed := by
  simp only [effectiveInterval]
  split
  · rename_i m hm
    obtain ⟨burst, hburst, hm⟩ := Option.bind_eq_some_iff.mp hm
    simp only [isInBurst] at hm
    split at hm <;> cases hm
    exact le_burstInterval hb burst.pos (h burst hburst)
  · exact Nat.le_refl _

/-- The loop's deadline is not before the slot of its tick. -/
structure Paced (cfg : LoopConfig) (s : LoopState) : Prop where
  start : s.loop.start ≤ s.loop.nextDeadline
  slot : cfg.base * (s.loop.tick - s.loop.initialTick) ≤ 2 ^ 50 →
    cfg.base * (s.loop.tick - s.loop.initialTick) ≤ s.loop.nextDeadline - s.loop.start
  interval : ∀ i, s.pc = .call i → cfg.base ≤ i

theorem paced_step (hf : NeverFaster cfg) {s s' : LoopState} {es : List LoopEvent} (h : Paced cfg s)
    (hd : FirstDays cfg s inp) (hs : (scheduleLoop cfg).step s inp = some (s', es)) :
    Paced cfg s' := by
  obtain ⟨hstart, hslot, hint⟩ := h
  rw [FirstDays, Nat.mul_succ] at hd
  cases steps_of_step hs with
  | idle hpc hl hpc' => exact ⟨by rwa [hl], by rwa [hl], fun i e => absurd e (hpc' i)⟩
  | moved hpc hpc' hlive hl hm =>
    refine ⟨by simp [hl, resume], fun hdays => ?_, by simp [hpc']⟩
    simp only [hl, resume, Nat.add_sub_cancel_left] at hdays ⊢
    exact (mulF64_eq hdays).ge
  | called hpc hl hpc' hm =>
    refine ⟨by rwa [hl], by rwa [hl], fun i e => ?_⟩
    rw [hpc'] at e
    cases e
    exact le_effectiveInterval hf (by omega) _
  | settled hpc hpc' hp hl =>
    have hi := hint _ hpc
    have hslot := hslot (by omega)
    have hmul : cfg.base * (s.loop.tick + 1 - s.loop.initialTick) ≤
        cfg.base * (s.loop.tick - s.loop.initialTick) + cfg.base := by
      rw [← Nat.mul_succ]; exact Nat.mul_le_mul_left _ (by omega)
    cases hp <;> refine ⟨?_, fun _ => ?_, by simp [hpc']⟩ <;>
      simp only [hl, advance] <;> omega
  | failed hpc hpc' hl => exact ⟨by rwa [hl], by rwa [hl], by simp [hpc']⟩

theorem Paced.keepsPace (h : Paced cfg s) (hb : 0 < cfg.base) (hd : FirstDays cfg s inp) :
    KeepsPace cfg s inp := by
  intro _ _ _ htick gapEnd next hj _
  obtain ⟨gap, r, -, hr, rfl, -⟩ := sleep_of_judge hj
  have hdeadline : s.loop.nextDeadline ≤ emitAt s.clock s.loop inp := Nat.le_max_left _ _
  rw [FirstDays, Nat.mul_succ] at hd
  have hslot := h.slot (by omega)
  have hlast : cfg.base * (s.loop.tick - 1 - s.loop.initialTick) + cfg.base =
      cfg.base * (s.loop.tick - s.loop.initialTick) := by
    rw [← Nat.mul_succ]; congr 1; omega
  rw [LoopConfig.slot, mulF64_eq (by omega)]
  omega

/-- A schedule without a burst, or whose bursts only slow it down, keeps pace
in the first days of every run. -/
theorem run_keepsPace (hf : NeverFaster cfg) (hb : 0 < cfg.base) {initialTick now : Nat}
    {log : List LoopEvent}
    (h : (scheduleLoop cfg).Run (FirstDays cfg) (.enter initialTick now) s log) :
    (scheduleLoop cfg).Run (KeepsPace cfg) (.enter initialTick now) s log :=
  h.strengthen (I := fun s _ => Paced cfg s)
    ⟨Nat.le_refl _, by simp [LoopState.enter, enter], by simp [LoopState.enter]⟩
    (fun hp hd hs => paced_step hf hp hd hs) (fun hp hd => hp.keepsPace hb hd)

/-- Its ticks increase and its rates are defined, whatever the clock does and
whatever tick it resumes from. -/
theorem ticks_increase_of_neverFaster (hf : NeverFaster cfg) (hb : 0 < cfg.base)
    {initialTick now : Nat} {log : List LoopEvent}
    (h : (scheduleLoop cfg).Run (FirstDays cfg) (.enter initialTick now) s log) :
    (ticks log).Pairwise (· < ·) ∧ ∀ e ∈ log, RateDefined e :=
  have o : Ordered s log :=
    (run_keepsPace hf hb h).invariant (ordered_enter initialTick now) ordered_step
  ⟨o.sorted, o.rates⟩

/-! ## A run that keeps pace and one that does not -/

instance : DecidablePred RateDefined
  | .tick .. => inferInstanceAs (Decidable True)
  | .rate tick windowTick _ => inferInstanceAs (Decidable (windowTick ≤ tick))

instance (s : LoopState) (inp : LoopInput) : Decidable (KeepsPace cfg s inp) :=
  match hj : judge cfg s.loop (emitAt s.clock s.loop inp) with
  | .sleep gapEnd _ =>
    decidable_of_iff (s.pc = .head → (s.cancelled || inp.cancel) = false →
        hasRecordedRows cfg.schedule = false → s.loop.initialTick < s.loop.tick →
        (s.clock + inp.delay + inp.delay' < gapEnd → inp.cancelSleep = false) →
        s.loop.start + cfg.slot (s.loop.tick - 1 - s.loop.initialTick) < gapEnd)
      (by simp [KeepsPace, hj])
  | .expired | .skip _ | .emit _ => isTrue (by simp [KeepsPace, hj])

instance (s : LoopState) (inp : LoopInput) : Decidable (FirstDays cfg s inp) :=
  inferInstanceAs (Decidable (_ ≤ _))

/-- One event a second, silent in every third. -/
def everyThirdSilent : LoopConfig where
  schedule := { gapWindow := some ⟨3 * oneSecond, oneSecond, by decide⟩ }
  rate := 1
  hasStats := true

theorem ticks_increase_everyThirdSilent : ∃ s log,
    (scheduleLoop everyThirdSilent).Run (KeepsPace everyThirdSilent) (.enter 0 0) s log ∧
      ticks log = [0, 1, 3] ∧ (ticks log).Pairwise (· < ·) ∧ ∀ e ∈ log, RateDefined e :=
  Machine.run_reaches_and (replicate 7 {}) (by decide +kernel) fun _ _ hrun _ => ticks_increase hrun

theorem ticks_increase_late : ∃ s log,
    (scheduleLoop everyThirdSilent).Run (FirstDays everyThirdSilent) (.enter 5 0) s log ∧
      ticks log = [5, 6, 8] ∧ (ticks log).Pairwise (· < ·) :=
  Machine.run_reaches_and (replicate 7 {}) (by decide +kernel) fun _ _ hrun _ =>
    (ticks_increase_of_neverFaster (by simp [NeverFaster, everyThirdSilent]) (by decide +kernel)
      hrun).1

/-- One event a second, four a second in the first 1.25 s, and silent in
every third second. -/
def burstBeforeGap : LoopConfig where
  schedule :=
    { gapWindow := some ⟨3 * oneSecond, oneSecond, by decide⟩
      burstWindow := some ⟨100 * oneSecond, 1250000000, 4, by decide, by decide +kernel⟩ }
  rate := 1
  hasStats := true

/-- A run that falls behind its own counter: after ticks 0 to 5 the gap ends
at three seconds, and the loop goes on with tick 3, behind the tick 4 of its
rate window. -/
theorem burst_rewinds : ∃ s log,
    (scheduleLoop burstBeforeGap).Run (fun _ _ => True) (.enter 0 0) s log ∧
      (ticks log = [0, 1, 2, 3, 4, 5, 3] ∧ ¬ ∀ e ∈ log, RateDefined e) ∧
      ¬ (ticks log).Pairwise (· < ·) :=
  Machine.run_reaches_and (replicate 15 {}) (by decide +kernel) fun _ _ _ hp => by
    rw [hp.1]
    decide

end Sonda.Proof.Schedule
