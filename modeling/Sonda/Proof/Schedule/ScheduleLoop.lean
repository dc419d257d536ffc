import Sonda.Proof.Schedule.Windows
import Sonda.Impl.Schedule.ScheduleLoop

/-!
# What the schedule loop does in a step

The walks stop on the first tick they do not pass over (`walk_some`).
`Heads` is what an iteration that is not cancelled can do (`heads_of_head`),
`LoopSteps` what a step of the loop can do (`steps_of_step`): the results
about its runs go by cases on these, and unfold nothing.
-/

namespace Sonda.Proof.Schedule

open Sonda.Schedule Option Nat

variable {cfg : LoopConfig} {schedule : ParsedSchedule} {base : Nat}
variable {inp : LoopInput} {es : List LoopEvent} {l : ScheduleLoop}
  {a r clock n clock' interval : Nat}

/-! ## The walks -/

theorem walk_some {passes : Nat → Bool} (h : walk base passes a = some n) :
    a ≤ n ∧ passes (mulF64 base n) = false ∧
      ∀ k, a ≤ k → k < n → passes (mulF64 base k) = true := by
  unfold walk at h
  generalize 2 ^ 64 - a = fuel at h
  induction fuel generalizing a with
  | zero => cases h
  | succ fuel ih =>
    rw [walkTurns] at h
    split at h <;> [cases h; skip]
    split at h
    · rename_i hp
      obtain ⟨hle, hn, hbefore⟩ := ih h
      refine ⟨le_of_succ_le hle, hn, fun k hk hkn => ?_⟩
      rcases eq_or_lt_of_le hk with rfl | hk
      · exact hp
      · exact hbefore k hk hkn
    · rename_i hp
      cases h
      exact ⟨le_refl _, by simpa using hp, fun k hk hkn => absurd hk (not_le.mpr hkn)⟩

/-- A synthetic run resumes on no slot before the end of the gap. -/
theorem resumedAt_le (hr : hasRecordedRows schedule = false)
    (h : passesOver schedule r n = false) : r ≤ n := by
  have := (Bool.or_eq_false_iff.mp h).1
  simpa [hr] using this

theorem start_le_resume (l : ScheduleLoop) (base n : Nat) :
    (l.resume base n).start ≤ (l.resume base n).nextDeadline := by
  unfold ScheduleLoop.resume
  generalize mulF64 base n = slot
  exact le_add_right _ _

/-! ## An iteration -/

/-- An iteration moves to the tick `initialTick + n`. -/
inductive Moves (cfg : LoopConfig) (clock : Nat) (l : ScheduleLoop) (inp : LoopInput) (n : Nat) : Prop
  /-- Out of a one-shot window. -/
  | skip (hj : judge cfg l (emitAt clock l inp) = .skip (some n))
  /-- Out of a recurring gap, slept through to its end. -/
  | resume {gapEnd : Nat} (hj : judge cfg l (emitAt clock l inp) = .sleep gapEnd (some n))
      (hslept : clock + inp.delay + inp.delay' < gapEnd → inp.cancelSleep = false)

/-- A tick is skipped where a one-shot window covers its deadline. -/
theorem skip_of_judge {t : Nat} {next : Option Nat} (h : judge cfg l t = .skip next) :
    isInGapWindow (l.nextDeadline - l.start) cfg.schedule.gapWindows = true ∧
      next = oneShotWalk cfg.schedule cfg.base (l.tick - l.initialTick) := by
  simp only [judge] at h
  split at h <;> [cases h; skip]
  split at h <;> [skip; cases h]
  split at h
  · rename_i hw
    cases h
    exact ⟨hw, rfl⟩
  · cases h

/-- A sleep ends when the recurring gap and the windows it runs into do. -/
theorem sleep_of_judge {t gapEnd : Nat} {next : Option Nat} (h : judge cfg l t = .sleep gapEnd next) :
    ∃ gap r, cfg.schedule.gapWindow = some gap ∧
      r = t - l.start + sleepFor cfg.schedule gap (t - l.start) ∧ gapEnd = l.start + r ∧
      next = resumeWalk cfg.schedule cfg.base r (walkStart cfg.schedule cfg.base r l) := by
  simp only [judge] at h
  split at h <;> [cases h; skip]
  split at h
  · split at h <;> cases h
  · rename_i gap hgap
    cases h
    exact ⟨gap, _, (filter_eq_some_iff.mp hgap).1, rfl, rfl, rfl⟩

/-- The schedule has neither a recurring gap nor one-shot windows. -/
structure Gapless (schedule : ParsedSchedule) : Prop where
  gap : schedule.gapWindow = none
  windows : schedule.gapWindows = []

theorem not_moves (hg : Gapless cfg.schedule) : ¬ Moves cfg clock l inp n
  | .skip hj => by simpa [hg.windows, isInGapWindow] using (skip_of_judge hj).1
  | .resume hj _ => by
    obtain ⟨gap, r, hgap, -⟩ := sleep_of_judge hj
    rw [hg.gap] at hgap
    cases hgap

/-- An iteration that decides about `elapsed` emits. -/
structure Emits (cfg : LoopConfig) (l : ScheduleLoop) (elapsed : Nat) : Prop where
  total : ∀ total, cfg.schedule.totalDuration = some total → elapsed < total
  gap : ∀ gap, cfg.schedule.gapWindow = some gap → isInGap elapsed gap = false
  windows : isInGapWindow (l.nextDeadline - l.start) cfg.schedule.gapWindows = false

/-- What an iteration that is not cancelled can do. -/
inductive Heads (cfg : LoopConfig) (clock : Nat) (l : ScheduleLoop) (inp : LoopInput) : HeadExit → Prop
  | expired : Heads cfg clock l inp .stopped
  | woken : Heads cfg clock l inp .woken
  | moved {n : Nat} (h : Moves cfg clock l inp n) :
      Heads cfg clock l inp (.moved (l.resume cfg.base n))
  | called {elapsed : Nat} (he : elapsed = emitAt clock l inp - l.start) (h : Emits cfg l elapsed) :
      Heads cfg clock l inp (.called (effectiveInterval cfg elapsed) elapsed)

theorem head_cancelled (cfg : LoopConfig) (clock : Nat) (l : ScheduleLoop) (inp : LoopInput) :
    head cfg clock true l inp = some (clock, .stopped) := rfl

/-- A tick is called once the clock has reached its instant. -/
theorem heads_of_head {x : HeadExit} (h : head cfg clock false l inp = some (clock', x)) :
    clock ≤ clock' ∧ Heads cfg clock l inp x ∧ ∀ i e, x = .called i e → emitAt clock l inp ≤ clock' := by
  simp only [head, Bool.false_eq_true, if_false] at h
  split at h
  · cases h
    exact ⟨le_add_right _ _, .expired, nofun⟩
  · rename_i next hj
    obtain ⟨n, rfl, h⟩ := map_eq_some_iff.mp h
    cases h
    exact ⟨le_add_right _ _, .moved (.skip hj), nofun⟩
  · rename_i gapEnd next hj
    split at h
    · cases h; exact ⟨by omega, .woken, nofun⟩
    · rename_i hawake
      obtain ⟨n, rfl, h⟩ := map_eq_some_iff.mp h
      cases h
      exact ⟨by omega, .moved (.resume hj (by simpa using hawake)), nofun⟩
  · rename_i interval hj
    split at h <;> [cases h; skip]
    split at h
    · cases h; exact ⟨by omega, .woken, nofun⟩
    · cases h
      simp only [judge] at hj
      split at hj <;> [cases hj; skip]
      rename_i ht
      split at hj <;> [skip; cases hj]
      rename_i hgap
      split at hj <;> [cases hj; skip]
      rename_i hw
      cases hj
      refine ⟨by omega, .called rfl ⟨fun total e => ?_, fun gap e => ?_, by simpa using hw⟩,
        fun _ _ _ => le_max_right _ _⟩
      · simpa [e] using ht
      · simpa using filter_eq_none_iff.mp hgap gap e

/-! ## A step -/

/-- What the loop does with an outcome that does not end it. -/
inductive Publishes (l : ScheduleLoop) : ScheduleLoop → List LoopEvent → Prop
  | nothing : Publishes l l []
  | rate {now window : Nat} : Publishes l { l with rateWindowTick := l.tick, rateWindowStart := now }
      [.rate l.tick l.rateWindowTick window]

theorem publishes_of_settle {l l' : ScheduleLoop}
    (h : settle cfg clock l interval inp = (.ok l', es)) :
    ∃ k, Publishes l k es ∧ l' = k.advance interval := by
  simp only [settle, publishRate] at h
  split at h
  · split at h <;> cases h
    · exact ⟨_, .rate, rfl⟩
    · exact ⟨_, .nothing, rfl⟩
  · split at h <;> cases h
    exact ⟨_, .nothing, rfl⟩
  · cases h; exact ⟨_, .nothing, rfl⟩
  · cases h

theorem settle_error {e : SondaError} (h : settle cfg clock l interval inp = (.error e, es)) :
    es = [] := by
  simp only [settle] at h
  split at h
  · cases h
  · split at h <;> cases h; rfl
  · cases h
  · cases h; rfl

/-- What a step of the loop can do. -/
inductive LoopSteps (cfg : LoopConfig) (s : LoopState) (inp : LoopInput) :
    LoopState → List LoopEvent → Prop
  | idle {s' : LoopState} (hpc : s.pc = .head) (hl : s'.loop = s.loop)
      (hpc' : ∀ i, s'.pc ≠ .call i) : LoopSteps cfg s inp s' []
  | moved {s' : LoopState} {n : Nat} (hpc : s.pc = .head) (hpc' : s'.pc = .head)
      (hlive : (s.cancelled || inp.cancel) = false) (hl : s'.loop = s.loop.resume cfg.base n)
      (h : Moves cfg s.clock s.loop inp n) : LoopSteps cfg s inp s' []
  | called {s' : LoopState} {elapsed : Nat} (hpc : s.pc = .head) (hl : s'.loop = s.loop)
      (hpc' : s'.pc = .call (effectiveInterval cfg elapsed)) (h : Emits cfg s.loop elapsed) :
      LoopSteps cfg s inp s' [.tick s.loop.tick elapsed (s.loop.start + elapsed)]
  | settled {s' : LoopState} {k : ScheduleLoop} {interval : Nat} {es : List LoopEvent}
      (hpc : s.pc = .call interval) (hpc' : s'.pc = .head) (h : Publishes s.loop k es)
      (hl : s'.loop = k.advance interval) : LoopSteps cfg s inp s' es
  | failed {s' : LoopState} {interval : Nat} {e : SondaError} (hpc : s.pc = .call interval)
      (hpc' : s'.pc = .returned (.error e)) (hl : s'.loop = s.loop) : LoopSteps cfg s inp s' []

theorem steps_of_step {s s' : LoopState} (h : (scheduleLoop cfg).step s inp = some (s', es)) :
    LoopSteps cfg s inp s' es := by
  simp only [scheduleLoop, loopStep] at h
  split at h
  · rename_i hpc
    simp only [map_eq_some_iff] at h
    obtain ⟨⟨clock, x⟩, hx, he⟩ := h
    cases hc : s.cancelled || inp.cancel with
    | true =>
      rw [hc, head_cancelled] at hx
      cases hx; cases he
      exact .idle hpc rfl (by simp)
    | false =>
      rw [hc] at hx
      cases (heads_of_head hx).2.1 with
      | expired | woken => cases he; exact .idle hpc rfl (by simp [hpc])
      | moved hm => cases he; exact .moved hpc hpc hc rfl hm
      | called _ hm => cases he; exact .called hpc rfl rfl hm
  · rename_i interval hpc
    obtain ⟨rfl, rfl⟩ := h
    rcases hr : settle cfg s.clock s.loop interval inp with ⟨_ | l', es⟩
    · rw [settle_error hr]; exact .failed hpc rfl rfl
    · obtain ⟨k, hk, rfl⟩ := publishes_of_settle hr
      exact .settled hpc rfl hk rfl
  · cases h

end Sonda.Proof.Schedule
