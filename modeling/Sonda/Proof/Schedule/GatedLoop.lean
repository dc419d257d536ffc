import Sonda.Proof.Schedule.ScheduleLoop
import Sonda.Impl.Schedule.GatedLoop

/-!
# What the gated loop does in a step

A step outside a segment is a turn of the loop, which polls at most once
(`Turns`), or enters a segment; a step in a segment moves the segment on
(`Evolves`) or leaves it (`Leaves`). `step_cases` says so. Hence ticks come
out of the iterations of a segment and of nothing else (`tick_of_step`), and a
segment is the one just entered or the one of the step before, moved on
(`segment_of_step`). `Frame` is what no step changes.
-/

namespace Sonda.Proof.Schedule

open Sonda.Schedule
open GatedState (closeEmit exit exitCancelled fail gone moveTo toClosed toUnresolved)

variable {cfg : GatedConfig} {s s' : GatedState} {inp : GatedInput} {es : List GatedEvent}
variable {r : StepResult}

/-! ## Steps outside a segment -/

/-- The loop is not in a segment. -/
def Outside (pc : GatedPc) : Prop := ∀ seg, pc ≠ .segment seg

/-- An event that neither a schedule loop emits nor a poll. -/
def Plain : GatedEvent → Prop
  | .loop _ | .took .. => False
  | _ => True

/-- The result moves the loop on without a poll or a segment. -/
def Moved (r : StepResult) : Prop := (∀ e ∈ r.2, Plain e) ∧ Outside r.1.pc

theorem moved_nil (h : Outside s.pc) : Moved (s, []) := ⟨by simp, h⟩

theorem moved_exit (s : GatedState) (r : LoopExit) : Moved (s.exit r) := by
  simp [Moved, Outside, Plain, exit]

theorem moved_moveTo (s : GatedState) (st : ScenarioState) : Moved (s.moveTo st) := by
  simp [Moved, Outside, Plain, moveTo]

theorem moved_gone (s : GatedState) : Moved (s.gone cfg) := by
  simp only [gone]
  split
  · exact moved_exit _ _
  · exact moved_moveTo _ _

theorem moved_closeEmit {k : GatedState → StepResult} (hk : ∀ s, Moved (k s)) (s : GatedState) :
    Moved (s.closeEmit cfg inp k) := by
  simp only [closeEmit]
  split
  · split
    · exact ⟨by simpa [Plain] using (hk s).1, (hk s).2⟩
    · simp [Moved, Outside, Plain, fail]
  · exact hk s

theorem moved_toClosed (s : GatedState) : Moved (s.closeEmit cfg inp (·.toClosed cfg inp)) :=
  moved_closeEmit (fun _ => moved_moveTo _ _) s

theorem moved_fireDue (h : Outside s.pc) : Moved (fireDue s) := by
  simp only [fireDue]
  split
  · exact moved_moveTo _ _
  · exact moved_nil h

/-- A turn of the loop outside a segment: it moves on, after a poll that took
an edge or without one. Outside the close debounce (`wait`) a removal is
answered at once, or already known. -/
inductive Turns (cfg : GatedConfig) (inp : GatedInput) (wait : Bool) : StepResult → Prop
  | moved {r : StepResult} (h : Moved r) : Turns cfg inp wait r
  | took {p : Place} {e : GateEdge} {r : StepResult} (he : inp.edge = some e) (h : Moved r)
      (hgone : e = .upstreamGone → (∃ t : GatedState, r = t.gone cfg) ∨ p = .unresolved ∨ wait = true) :
      Turns cfg inp wait (taking p e r)

variable {wait : Bool}

theorem Turns.outside (h : Turns cfg inp wait r) : Outside r.1.pc := by
  cases h with
  | moved h => exact h.2
  | took _ h _ => exact h.2

theorem Turns.quiet (h : Turns cfg inp wait r) (l : LoopEvent) : GatedEvent.loop l ∉ r.2 := by
  cases h with
  | moved h => exact fun hm => h.1 _ hm
  | took _ h _ =>
    intro hm
    rcases List.mem_cons.mp hm with hm | hm
    · cases hm
    · exact h.1 _ hm

theorem pendingStep_turns (h : Outside s.pc) : Turns cfg inp false (pendingStep cfg s inp) := by
  simp only [pendingStep]
  split
  · split
    · exact .moved (moved_exit _ _)
    · split <;> rename_i he
      · exact .took he (moved_nil h) nofun
      · exact .took he (moved_nil h) nofun
      · exact .took he (moved_nil h) nofun
      · exact .took he (moved_gone s) (fun _ => .inl ⟨s, rfl⟩)
      · exact .moved (moved_nil h)
  · split <;> exact .moved (moved_moveTo _ _)

theorem pausedStep_turns (p : Place) (h : Outside s.pc) :
    Turns cfg inp false (pausedStep cfg p s inp) := by
  simp only [pausedStep]
  split
  · exact .moved (moved_exit _ _)
  · split <;> rename_i he
    · exact .took he (moved_fireDue h) nofun
    · exact .took he (moved_fireDue h) nofun
    · exact .took he (moved_fireDue h) nofun
    · exact .took he (moved_gone _) (fun _ => .inl ⟨_, rfl⟩)
    · exact .moved (moved_fireDue h)

theorem unresolvedStep_turns (h : Outside s.pc) : Turns cfg inp false (unresolvedStep cfg s inp) := by
  simp only [unresolvedStep]
  split
  · exact .moved (moved_exit _ _)
  · split <;> rename_i he
    · exact .took he (moved_moveTo _ _) nofun
    · exact .took he (moved_moveTo _ _) nofun
    · exact .took he (moved_nil h) nofun
    · exact .took he (moved_nil h) (fun _ => .inr (.inl rfl))
    · exact .moved (moved_nil h)

theorem segmentExitStep_moved {x : SegmentExit} : Moved (segmentExitStep cfg s x inp) := by
  simp only [segmentExitStep]
  split
  · exact moved_exit _ _
  split
  · exact moved_exit _ _
  split
  · cases x with
    | whileClose => exact moved_toClosed _
    | upstreamGone | shutdownOrDuration => exact moved_nil (by simp [Outside])
    | whileOpen => exact moved_moveTo _ _
  · cases x with
    | upstreamGone =>
      simp only [afterRunning]
      split
      · exact moved_exit _ _
      · exact moved_closeEmit (fun _ => moved_moveTo _ _) _
    | whileClose =>
      simp only [afterRunning]
      split
      · exact moved_toClosed _
      · exact moved_nil (by simp [Outside])
    | whileOpen | shutdownOrDuration => exact moved_moveTo _ _

theorem closeWaitStep_turns {d : Nat} (h : Outside s.pc) :
    Turns cfg inp true (closeWaitStep cfg s d inp) := by
  simp only [closeWaitStep]
  split
  · exact .moved (moved_toClosed _)
  split
  · exact .moved (moved_toClosed _)
  split
  · exact .moved (moved_toClosed _)
  split <;> rename_i he
  · exact .took he (moved_nil (by simp [Outside])) nofun
  · exact .took he (moved_nil h) nofun
  · exact .took he (moved_nil h) nofun
  · exact .took he (moved_toClosed _) (fun _ => .inr (.inr rfl))
  · exact .moved (moved_nil h)

theorem tailStep_moved : Moved (tailStep cfg s inp) :=
  moved_closeEmit (fun _ => by simp [Moved, Outside, Plain]) s

theorem tailStep_returned : ∃ result, (tailStep cfg s inp).1.pc = .returned result := by
  simp only [tailStep, closeEmit]
  split
  · split
    · exact ⟨_, rfl⟩
    · exact ⟨_, rfl⟩
  · exact ⟨_, rfl⟩

/-- The segment entered at the top of the loop: one of `Running`, or one of
`Unresolved` that an open edge ends. -/
def Entered (s : GatedState) (r : StepResult) : Prop :=
  r.2 = [] ∧ r.1.state = s.state ∧
    ∃ now, r.1.pc = .segment (.enter (decide (s.state = .unresolved)) s.nextTick now)

/-- The top of the loop is a turn, or enters a segment. -/
theorem topStep_cases (h : Outside s.pc) :
    Turns cfg inp false (topStep cfg s inp) ∨ Entered s (topStep cfg s inp) := by
  have ha : Outside (s.arrive inp).pc := h
  have hst : (s.arrive inp).state = s.state := rfl
  have entered (b : Bool) (hb : b = decide (s.state = .unresolved)) :
      Entered s (enterSegment (s.arrive inp) b inp) := ⟨rfl, rfl, _, by rw [← hb]; rfl⟩
  simp only [topStep]
  split
  · exact .inl (.moved (moved_exit _ _))
  split
  · exact .inl (.moved (moved_exit _ _))
  split <;> rename_i e <;> rw [hst] at e
  · exact .inl (pendingStep_turns ha)
  · exact .inr (entered _ (by simp [e]))
  · exact .inl (pausedStep_turns _ ha)
  · exact .inl (pausedStep_turns _ ha)
  · split
    · exact .inr (entered _ (by simp [e]))
    · exact .inl (unresolvedStep_turns ha)
    · exact .inl (unresolvedStep_turns ha)
  · exact .inl (.moved (moved_exit _ _))

/-! ## Segments -/

/-- What a step does to the segment it is in and stays in. -/
inductive Evolves (cfg : GatedConfig) (s : GatedState) (inp : GatedInput) (seg : Segment) :
    Segment → List GatedEvent → Prop
  | woken (hpc : seg.pc = .head) : Evolves cfg s inp seg seg []
  | moved {n : Nat} (hpc : seg.pc = .head)
      (h : Moves cfg.toLoopConfig s.clock seg.loop inp.toLoopInput n) :
      Evolves cfg s inp seg { seg with loop := seg.loop.resume cfg.base n } []
  | called {elapsed : Nat} (hpc : seg.pc = .head)
      (hlive : (s.cancelled || inp.cancel) = false ∧ seg.cancelled = false)
      (he : elapsed = emitAt s.clock seg.loop inp.toLoopInput - seg.loop.start)
      (h : Emits cfg.toLoopConfig seg.loop elapsed) :
      Evolves cfg s inp seg
        { seg with pc := .drain (effectiveInterval cfg.toLoopConfig elapsed) }
        [.loop (.tick seg.loop.tick elapsed (seg.loop.start + elapsed))]
  | observed {i : Nat} {edge : GateEdge} (hpc : seg.pc = .drain i) (he : inp.edge = some edge) :
      Evolves cfg s inp seg (seg.observe edge) [.took (drainPlace s.state) edge]
  | settled {i : Nat} {k : ScheduleLoop} {ls : List LoopEvent} (hpc : seg.pc = .drain i)
      (he : inp.edge = none) (h : Publishes seg.loop k ls) :
      Evolves cfg s inp seg { seg with loop := k.advance i, pc := .head } (ls.map .loop)

theorem observe_frame (seg : Segment) (e : GateEdge) :
    (seg.observe e).loop = seg.loop ∧ (seg.observe e).pc = seg.pc := by
  unfold Segment.observe
  split
  · exact ⟨rfl, rfl⟩
  · split <;> exact ⟨rfl, rfl⟩
  · exact ⟨rfl, rfl⟩
  · exact ⟨rfl, rfl⟩

theorem observe_cancelled {seg : Segment} (h : seg.cancelled = true) (e : GateEdge) :
    (seg.observe e).cancelled = true := by
  unfold Segment.observe
  split <;> [skip; split; skip; skip] <;> first | rfl | exact h

/-- How a segment ends. -/
inductive Leaves (s : GatedState) (inp : GatedInput) (seg : Segment) :
    GatedState → List GatedEvent → Prop
  | stopped {clock : Nat} {cancelled : Bool} (hpc : seg.pc = .head)
      (hc : s.cancelled = true → cancelled = true) (hclock : s.clock ≤ clock) :
      Leaves s inp seg { s with clock, cancelled, nextTick := seg.loop.tick,
                                pc := .segmentExit (decodeSegmentExit seg.observed) } []
  | failed {i clock : Nat} {e : SondaError} (hpc : seg.pc = .drain i) (hclock : s.clock ≤ clock) :
      Leaves s inp seg { s with clock, pc := .returned (.error e) } [.failed e]

/-- A step in a segment changes nothing but the segment, the clock and the
cancel flag, or leaves it. -/
theorem segmentStep_cases {seg : Segment} (h : segmentStep cfg s seg inp = some (s', es)) :
    (∃ seg' clock cancelled, s' = { s with clock, cancelled, pc := .segment seg' } ∧
      Evolves cfg s inp seg seg' es ∧ s.clock ≤ clock) ∨ Leaves s inp seg s' es := by
  simp only [segmentStep] at h
  split at h
  · rename_i hpc
    simp only [Option.map_eq_some_iff] at h
    obtain ⟨⟨clock, x⟩, hx, he⟩ := h
    cases hc : s.cancelled || inp.cancel || seg.cancelled with
    | true =>
      rw [hc, head_cancelled] at hx
      cases hx; cases he
      exact .inr (.stopped hpc (by simp_all) (Nat.le_refl _))
    | false =>
      rw [hc] at hx
      obtain ⟨hclock, hheads, -⟩ := heads_of_head hx
      cases hheads with
      | expired => cases he; exact .inr (.stopped hpc (by simp_all) hclock)
      | woken => cases he; exact .inl ⟨_, _, _, rfl, .woken hpc, hclock⟩
      | moved hm => cases he; exact .inl ⟨_, _, _, rfl, .moved hpc hm, hclock⟩
      | called hemit hm =>
        cases he
        exact .inl ⟨_, _, _, rfl, .called hpc (by simpa using hc) hemit hm, hclock⟩
  · rename_i i hpc
    split at h
    · rename_i edge he
      cases h
      exact .inl ⟨_, _, _, rfl, .observed hpc he, Nat.le_refl _⟩
    · rename_i he
      rcases hr : settle cfg.toLoopConfig s.clock seg.loop i inp.toLoopInput with ⟨e | l', ls⟩
      · rw [hr] at h
        cases settle_error hr
        cases h
        exact .inr (.failed hpc (by omega))
      · rw [hr] at h
        obtain ⟨k, hk, rfl⟩ := publishes_of_settle hr
        cases h
        exact .inl ⟨_, _, _, rfl, .settled hpc he hk, by omega⟩

/-! ## A step -/

/-- A step of the loop, by where it is taken. -/
inductive StepAt (cfg : GatedConfig) (s : GatedState) (inp : GatedInput) : StepResult → Prop
  | top (hpc : s.pc = .top) : StepAt cfg s inp (topStep cfg s inp)
  | evolves {seg seg' : Segment} {clock : Nat} {cancelled : Bool} {es : List GatedEvent}
      (hpc : s.pc = .segment seg) (h : Evolves cfg s inp seg seg' es) (hclock : s.clock ≤ clock) :
      StepAt cfg s inp ({ s with clock, cancelled, pc := .segment seg' }, es)
  | leaves {seg : Segment} {s' : GatedState} {es : List GatedEvent} (hpc : s.pc = .segment seg)
      (h : Leaves s inp seg s' es) : StepAt cfg s inp (s', es)
  | segmentExit {x : SegmentExit} (hpc : s.pc = .segmentExit x) :
      StepAt cfg s inp (segmentExitStep cfg s x inp)
  | closeWait {d : Nat} (hpc : s.pc = .closeWait d) : StepAt cfg s inp (closeWaitStep cfg s d inp)
  | tail {x : LoopExit} (hpc : s.pc = .exited x) : StepAt cfg s inp (tailStep cfg s inp)

theorem stepAt_of_step (h : (gatedLoop cfg).step s inp = some r) : StepAt cfg s inp r := by
  simp only [gatedLoop, gatedStep] at h
  split at h
  · exact Option.some.inj h ▸ .top ‹_›
  · rename_i seg hpc
    rcases segmentStep_cases h with ⟨seg', clock, cancelled, hr, hev, hclock⟩ | hl
    · obtain ⟨s', es⟩ := r
      cases hr
      exact .evolves hpc hev hclock
    · exact .leaves hpc hl
  · exact Option.some.inj h ▸ .segmentExit ‹_›
  · exact Option.some.inj h ▸ .closeWait ‹_›
  · exact Option.some.inj h ▸ .tail ‹_›
  · cases h

/-- A step outside a segment is a turn, or enters one; a step in a segment
keeps it or leaves it. -/
theorem step_cases (h : (gatedLoop cfg).step s inp = some r) :
    (Outside s.pc ∧ ∃ wait, Turns cfg inp wait r) ∨ (s.pc = .top ∧ Entered s r) ∨
      ∃ seg, s.pc = .segment seg ∧ ((∃ seg', r.1.state = s.state ∧ r.1.pc = .segment seg' ∧
        Evolves cfg s inp seg seg' r.2) ∨ Leaves s inp seg r.1 r.2) := by
  cases stepAt_of_step h with
  | top hpc =>
    have ho : Outside s.pc := by simp [Outside, hpc]
    exact (topStep_cases ho).elim (fun ht => .inl ⟨ho, _, ht⟩) (fun he => .inr (.inl ⟨hpc, he⟩))
  | evolves hpc hev => exact .inr (.inr ⟨_, hpc, .inl ⟨_, rfl, rfl, hev⟩⟩)
  | leaves hpc hl => exact .inr (.inr ⟨_, hpc, .inr hl⟩)
  | segmentExit hpc => exact .inl ⟨by simp [Outside, hpc], false, .moved segmentExitStep_moved⟩
  | closeWait hpc =>
    have ho : Outside s.pc := by simp [Outside, hpc]
    exact .inl ⟨ho, _, closeWaitStep_turns ho⟩
  | tail hpc => exact .inl ⟨by simp [Outside, hpc], false, .moved tailStep_moved⟩

/-- What a step leaves alone: the start of the run, the next tick outside a
segment, and `after_satisfied` unless an `AfterFired` is taken. The clock only
moves forward. -/
structure Frame (s : GatedState) (r : StepResult) : Prop where
  startedAt : r.1.startedAt = s.startedAt
  clock : s.clock ≤ r.1.clock
  nextTick : Outside s.pc → r.1.nextTick = s.nextTick
  satisfied : s.afterSatisfied = true → r.1.afterSatisfied = true
  fired : r.1.afterSatisfied = true → s.afterSatisfied = true ∨ ∃ p, .took p .afterFired ∈ r.2

theorem frame_of_step (h : (gatedLoop cfg).step s inp = some r) : Frame s r := by
  have keeps {r : StepResult} (h₁ : r.1.startedAt = s.startedAt)
      (h₂ : r.1.afterSatisfied = s.afterSatisfied) (h₃ : s.clock ≤ r.1.clock)
      (h₄ : Outside s.pc → r.1.nextTick = s.nextTick) : Frame s r :=
    ⟨h₁, h₃, h₄, fun h => h₂.trans h, fun h => .inl (h₂.symm.trans h)⟩
  have harrive : s.clock ≤ (s.arrive inp).clock := Nat.le_add_right _ _
  have hlater : s.clock ≤ (s.arrive inp).clock + inp.delay' := harrive.trans (Nat.le_add_right _ _)
  cases stepAt_of_step h with
  | top =>
    simp only [topStep, pendingStep, pausedStep, unresolvedStep, enterSegment, fireDue, taking,
      gone, exit, exitCancelled, moveTo,
      toUnresolved, toClosed]
    (repeat' split) <;>
      first
        | exact keeps rfl rfl harrive fun _ => rfl
        | exact keeps rfl rfl hlater fun _ => rfl
        | exact ⟨rfl, harrive, fun _ => rfl, fun _ => rfl, fun _ => .inr ⟨_, List.mem_cons_self⟩⟩
        | exact ⟨rfl, hlater, fun _ => rfl, fun _ => rfl, fun _ => .inr ⟨_, List.mem_cons_self⟩⟩
  | evolves hpc _ hclock => exact keeps rfl rfl hclock fun ho => absurd hpc (ho _)
  | leaves hpc hl =>
    cases hl with
    | stopped _ _ hclock | failed _ hclock => exact keeps rfl rfl hclock fun ho => absurd hpc (ho _)
  | segmentExit | closeWait =>
    simp only [segmentExitStep, afterUnresolved.eq_def, afterRunning.eq_def, closeWaitStep, taking,
      closeEmit, exit, fail, moveTo,
      toUnresolved, toClosed]
    (repeat' split) <;>
      first
        | exact keeps rfl rfl harrive fun _ => rfl
        | exact keeps rfl rfl hlater fun _ => rfl
  | tail =>
    simp only [tailStep, closeEmit, fail]
    (repeat' split) <;> exact keeps rfl rfl (Nat.le_refl _) fun _ => rfl

/-- Ticks come out of the iterations of a segment that is not cancelled. -/
theorem tick_of_step {n e a : Nat} (h : (gatedLoop cfg).step s inp = some r)
    (hm : GatedEvent.loop (.tick n e a) ∈ r.2) :
    ∃ seg, s.pc = .segment seg ∧ seg.pc = .head ∧
      ((s.cancelled || inp.cancel) = false ∧ seg.cancelled = false) ∧ n = seg.loop.tick ∧
      e = emitAt s.clock seg.loop inp.toLoopInput - seg.loop.start ∧ a = seg.loop.start + e ∧
      Emits cfg.toLoopConfig seg.loop e := by
  rcases step_cases h with ⟨-, _, ht⟩ | ⟨-, hnil, -⟩ | ⟨seg, hpc, ⟨seg', -, -, hev⟩ | hl⟩
  · exact absurd hm (ht.quiet _)
  · rw [hnil] at hm; cases hm
  · obtain ⟨s', es⟩ := r
    cases hev with
    | woken | moved => cases hm
    | called hhead hlive he hemit =>
      simp only [List.mem_singleton, GatedEvent.loop.injEq, LoopEvent.tick.injEq] at hm
      obtain ⟨rfl, rfl, rfl⟩ := hm
      exact ⟨_, hpc, hhead, hlive, rfl, he, rfl, hemit⟩
    | observed => simp at hm
    | settled _ _ hp => cases hp <;> simp at hm
  · obtain ⟨s', es⟩ := r
    cases hl <;> simp at hm

/-- Where a segment comes from. -/
theorem segment_of_step {seg' : Segment} (h : (gatedLoop cfg).step s inp = some r)
    (hpc' : r.1.pc = .segment seg') :
    r.1.state = s.state ∧ ((∃ now, seg' = .enter (decide (s.state = .unresolved)) s.nextTick now) ∨
        ∃ seg, s.pc = .segment seg ∧ Evolves cfg s inp seg seg' r.2) := by
  rcases step_cases h with ⟨-, _, ht⟩ | ⟨-, -, hst, now, hseg⟩ |
    ⟨seg, hpc, ⟨seg'', hst, hseg, hev⟩ | hl⟩
  · exact absurd hpc' (ht.outside _)
  · rw [hseg] at hpc'
    exact ⟨hst, .inl ⟨now, (GatedPc.segment.inj hpc').symm⟩⟩
  · rw [hseg] at hpc'
    exact ⟨hst, .inr ⟨seg, hpc, GatedPc.segment.inj hpc' ▸ hev⟩⟩
  · obtain ⟨s', es⟩ := r
    cases hl <;> cases hpc'

end Sonda.Proof.Schedule
