import Sonda.Proof.Schedule.Ticks

/-!
# A recorded row is played once, in order, however late

A schedule that replays recorded rows, or declares recorded silences, and has
no burst stays on its grid: tick `n` has the deadline of its own slot
(`Replayed.grid`). Every walk then starts at the owed row, so the ticks it
passes over are those whose own slots the source takes to be silent
(`silent_of_moves`), and a run emits every other tick, exactly once and in
order. Where the source finds no slot in the recurring gap that is not in it,
those are the rows outside every silence (`rows_played`). It does find some:
`row_dropped` is a run that never emits such a row.
-/

namespace Sonda.Proof.Schedule

open Sonda.Schedule Framework List

variable {cfg : LoopConfig}

theorem hasRecordedRows_iff {schedule : ParsedSchedule} : hasRecordedRows schedule = true ↔
    schedule.replaysRecordedRows = true ∨ schedule.gapWindows ≠ [] := by
  simp [hasRecordedRows]

/-- A walk passes over silent slots only. -/
theorem silent_of_moves (hr : hasRecordedRows cfg.schedule = true) {clock n : Nat}
    {l : ScheduleLoop} {inp : LoopInput} (h : Moves cfg clock l inp n) :
    l.tick - l.initialTick ≤ n ∧
      ∀ k, l.tick - l.initialTick ≤ k → k < n → stillSilent cfg.schedule (cfg.slot k) = true := by
  cases h with
  | skip hj =>
    obtain ⟨hle, -, hk⟩ := walk_some (skip_of_judge hj).2.symm
    exact ⟨hle, fun k h₁ h₂ => Bool.or_eq_true_iff.mpr (.inr (hk k h₁ h₂))⟩
  | resume hj _ =>
    obtain ⟨gap, r, -, -, -, hw⟩ := sleep_of_judge hj
    obtain ⟨hle, -, hk⟩ := walk_some hw.symm
    simp only [walkStart, hr, if_true] at hle hk
    refine ⟨hle, fun k h₁ h₂ => ?_⟩
    have := hk k h₁ h₂
    rwa [passesOver, hr, Bool.not_true, Bool.false_and, Bool.false_or] at this

/-- The loop is on its grid, has emitted every row before its tick whose slot
is not silent, and no row a one-shot window covers. -/
structure Replayed (cfg : LoopConfig) (i₀ : Nat) (s : LoopState) (log : List LoopEvent) : Prop where
  initial : s.loop.initialTick = i₀
  grid : cfg.base * (s.loop.tick - i₀) ≤ 2 ^ 50 →
    s.loop.nextDeadline = s.loop.start + cfg.base * (s.loop.tick - i₀)
  called : ∀ i, s.pc = .call i → i = cfg.base ∧ s.loop.tick ∈ ticks log
  owed : ∀ n, i₀ ≤ n → n < s.loop.tick → cfg.base * (n - i₀) ≤ 2 ^ 50 →
    stillSilent cfg.schedule (cfg.base * (n - i₀)) = false → n ∈ ticks log
  clear : ∀ n ∈ ticks log, cfg.base * (n - i₀) ≤ 2 ^ 50 ∧
    isInGapWindow (cfg.base * (n - i₀)) cfg.schedule.gapWindows = false

section

variable (hb : cfg.schedule.burstWindow = none)

include hb

theorem effectiveInterval_base (elapsed : Nat) :
    effectiveInterval cfg elapsed = cfg.base := by simp [effectiveInterval, hb]

theorem replayed_step (hr : hasRecordedRows cfg.schedule = true) {i₀ : Nat} {s s' : LoopState}
    {log es : List LoopEvent} {inp : LoopInput} (ho : Ordered s log) (h : Replayed cfg i₀ s log)
    (hd : FirstDays cfg s inp) (hs : (scheduleLoop cfg).step s inp = some (s', es)) :
    Replayed cfg i₀ s' (log ++ es) := by
  obtain ⟨hinit, hgrid, hcalled, howed, hclear⟩ := h
  have hle := ho.initial
  rw [FirstDays, hinit, Nat.mul_succ] at hd
  cases steps_of_step hs with
  | idle hpc hl hpc' =>
    rw [append_nil]
    exact ⟨by rw [hl, hinit], by rwa [hl], fun i e => absurd e (hpc' i), by rwa [hl], hclear⟩
  | moved hpc hpc' hlive hl hm =>
    obtain ⟨hn, hsilent⟩ := silent_of_moves hr hm
    rw [append_nil]
    refine ⟨by simp [hl, ScheduleLoop.resume, hinit], fun hdays => ?_, by simp [hpc'],
      fun k h₁ h₂ hdays h₃ => ?_, hclear⟩
    · simp only [hl, ScheduleLoop.resume, hinit, Nat.add_sub_cancel_left] at hdays ⊢
      rw [mulF64_eq hdays]
    simp only [hl, ScheduleLoop.resume, hinit] at h₂
    -- a row past the tick the loop was at was passed over, so it is silent
    rcases Nat.lt_or_ge k s.loop.tick with hk | hk
    · exact howed k h₁ hk hdays h₃
    · have := hsilent (k - i₀) (by omega) (by omega)
      rw [LoopConfig.slot, mulF64_eq hdays, h₃] at this
      cases this
  | called hpc hl hpc' hm =>
    refine ⟨by rw [hl, hinit], by rwa [hl], fun i e => ?_, fun k h₁ h₂ hdays h₃ => ?_, fun k hk => ?_⟩
    · rw [hpc', LoopPc.call.injEq, effectiveInterval_base hb] at e
      exact ⟨e.symm, by simp [hl]⟩
    · rw [hl] at h₂
      simp [howed k h₁ h₂ hdays h₃]
    · simp only [ticks_append, ticks_tick, mem_append, mem_singleton] at hk
      rcases hk with hk | rfl
      · exact hclear k hk
      · have hdays : cfg.base * (s.loop.tick - i₀) ≤ 2 ^ 50 := by omega
        have := hm.windows
        rw [hgrid hdays, Nat.add_sub_cancel_left] at this
        exact ⟨hdays, this⟩
  | settled hpc hpc' hp hl =>
    obtain ⟨rfl, hmem⟩ := hcalled _ hpc
    have hnext : s.loop.tick + 1 - i₀ = s.loop.tick - i₀ + 1 := by omega
    have hslot := hgrid (by omega)
    have hmem' : ∀ n, i₀ ≤ n → n < s.loop.tick + 1 → cfg.base * (n - i₀) ≤ 2 ^ 50 →
        stillSilent cfg.schedule (cfg.base * (n - i₀)) = false → n ∈ ticks log :=
      fun n h₁ h₂ hdays h₃ =>
        (Nat.lt_succ_iff_lt_or_eq.mp h₂).elim (fun hn => howed n h₁ hn hdays h₃) (fun e => e ▸ hmem)
    cases hp <;>
      refine ⟨by simp [hl, ScheduleLoop.advance, hinit], fun _ => ?_, by simp [hpc'], ?_, ?_⟩ <;>
      simp only [hl, ScheduleLoop.advance, hslot, hnext, Nat.mul_add, Nat.mul_one, Nat.add_assoc,
        ticks_append, ticks_rate, append_nil]
    all_goals assumption
  | failed hpc hpc' hl =>
    rw [append_nil]
    exact ⟨by rw [hl, hinit], by rwa [hl], by simp [hpc'], by rwa [hl], hclear⟩

theorem replayed_run
    (hr : hasRecordedRows cfg.schedule = true) {i₀ now : Nat} {s : LoopState} {log : List LoopEvent}
    (h : (scheduleLoop cfg).Run (FirstDays cfg) (.enter i₀ now) s log) :
    Ordered s log ∧ Replayed cfg i₀ s log := by
  refine h.invariant (I := fun s log => Ordered s log ∧ Replayed cfg i₀ s log)
    ⟨ordered_enter i₀ now, rfl, ?_, ?_, ?_, by simp⟩
    (fun hi hd hs => ⟨ordered_step hi.1 (fun _ _ h => by simp [hr] at h) hs,
      replayed_step hb hr hi.1 hi.2 hd hs⟩)
  · simp [LoopState.enter, ScheduleLoop.enter]
  · simp [LoopState.enter]
  · intro n h₁ h₂
    simp only [LoopState.enter, ScheduleLoop.enter] at h₂
    omega

end

/-- The source takes no slot to be in the recurring gap that is not in it. -/
def ExactOnGrid (cfg : LoopConfig) : Prop :=
  ∀ gap, cfg.schedule.gapWindow = some gap → ∀ k, cfg.base * k ≤ 2 ^ 50 →
    isInGap (cfg.base * k) gap = true → InGap (cfg.base * k) gap

/-- A slot outside every silence. -/
def Sounds (schedule : ParsedSchedule) (slot : Nat) : Prop :=
  isInGapWindow slot schedule.gapWindows = false ∧
    ∀ gap, schedule.gapWindow = some gap → ¬ InGap slot gap

theorem Sounds.not_stillSilent {k : Nat} (h : Sounds cfg.schedule (cfg.base * k))
    (hx : ExactOnGrid cfg) (hdays : cfg.base * k ≤ 2 ^ 50) :
    stillSilent cfg.schedule (cfg.base * k) = false := by
  refine Bool.or_eq_false_iff.mpr ⟨?_, h.1⟩
  cases hgap : cfg.schedule.gapWindow with
  | none => rfl
  | some gap =>
    rw [Option.any_some, ← Bool.not_eq_true]
    exact fun hin => h.2 gap hgap (hx gap hgap k hdays hin)

/-- A schedule of recorded rows without a burst, under any stalls, in its
first days: when tick `m` is emitted every earlier tick whose own slot is in
no silence has been, the ticks are emitted once and in order, and none of them
has its slot in a one-shot window. -/
theorem rows_played (hb : cfg.schedule.burstWindow = none)
    (hr : cfg.schedule.replaysRecordedRows = true ∨ cfg.schedule.gapWindows ≠ [])
    (hx : ExactOnGrid cfg) {i₀ now : Nat} {s : LoopState} {log : List LoopEvent}
    (h : (scheduleLoop cfg).Run (FirstDays cfg) (.enter i₀ now) s log) :
    (∀ before after m e a, log = before ++ .tick m e a :: after → ∀ n, i₀ ≤ n → n < m →
      Sounds cfg.schedule (cfg.base * (n - i₀)) → n ∈ ticks before) ∧
    (ticks log).Pairwise (· < ·) ∧
    ∀ n ∈ ticks log, isInGapWindow (cfg.base * (n - i₀)) cfg.schedule.gapWindows = false := by
  obtain ⟨ho, hp⟩ := replayed_run hb (hasRecordedRows_iff.mpr hr) h
  refine ⟨?_, ho.sorted, fun n hn => (hp.clear n hn).2⟩
  rintro before after m e a rfl n h₁ h₂ h₃
  have hcons : ticks (before ++ .tick m e a :: after) = ticks before ++ m :: ticks after := by
    simp [ticks]
  have hsort := ho.sorted
  have hm : m < owed s := ho.below m (by simp [hcons])
  have hdays : cfg.base * (n - i₀) ≤ 2 ^ 50 :=
    (Nat.mul_le_mul_left _ (by omega)).trans (hp.clear m (by simp [hcons])).1
  have hn : n ∈ ticks (before ++ .tick m e a :: after) :=
    hp.owed n h₁ (h₂.trans_le (Nat.le_of_lt_succ (hm.trans_le (owed_le s)))) hdays
      (h₃.not_stillSilent hx hdays)
  -- what is emitted from `m` on is no smaller than `m`
  rw [hcons, pairwise_append, pairwise_cons] at hsort
  rw [hcons, mem_append, mem_cons] at hn
  rcases hn with hn | rfl | hn
  · exact hn
  · omega
  · have := hsort.2.1.1 n hn; omega

/-- A capture of five rows a second with a recorded silence of 400 ms, which
a recurring gap of one second in two follows. -/
def capture : LoopConfig where
  schedule :=
    { gapWindow := some ⟨2 * oneSecond, oneSecond, by decide⟩
      gapWindows := [⟨600000000, 400000000⟩]
      replaysRecordedRows := true }
  rate := 5

/-- The sink stalls for 600 ms in tick 1. Tick 2 is reached inside the
silence on the wall, and is emitted late. -/
theorem rows_played_capture : ∃ s log,
    (scheduleLoop capture).Run (FirstDays capture) (.enter 0 0) s log ∧ ticks log = [0, 1, 2, 10] ∧
      (ticks log).Pairwise (· < ·) ∧
      ∀ n ∈ ticks log, isInGapWindow (capture.base * (n - 0)) capture.schedule.gapWindows = false := by
  have hx : ExactOnGrid capture := by
    rintro gap hgap k hk hin
    cases hgap
    exact (isInGap_whole (rfl : _ = 2 * 10 ^ 9) (rfl : _ = 1 * 10 ^ 9) (by decide) (by omega)).mp hin
  exact Machine.run_reaches_and [{}, {}, {}, { delay := 600000000 }, {}, {}, {}, {}, {}]
    (by decide +kernel) fun _ _ hrun _ => (rows_played rfl (.inl rfl) hx hrun).2

/-- Two hundred rows a second, the second of every two in a gap. -/
def everyOtherRow : LoopConfig where
  schedule := { gapWindow := some ⟨10000000, 5000000, by decide⟩, replaysRecordedRows := true }
  rate := 200

/-- The seconds of 30 ms leave a remainder of almost 10 ms: the row is passed
over with the gap before it. -/
theorem row_dropped : ∃ s log,
    (scheduleLoop everyOtherRow).Run (FirstDays everyOtherRow) (.enter 0 0) s log ∧
      ticks log = [0, 2, 3, 4, 8] ∧ Sounds everyOtherRow.schedule (everyOtherRow.base * (6 - 0)) := by
  refine Machine.run_reaches_and (replicate 12 {}) (by decide +kernel)
    fun _ _ _ _ => ⟨rfl, fun gap hgap => ?_⟩
  cases hgap
  unfold InGap
  decide +kernel

end Sonda.Proof.Schedule
