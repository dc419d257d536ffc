import Sonda.Proof.Schedule.GatedLoop

/-!
# The tick numbers of a gated run

The number of the next tick is kept in the schedule loop of a segment while
there is one, and in `next_tick` between two segments; `nextNumber` is where
it is. Without gaps no step but the end of an iteration changes it, so that it
counts the ticks called (`Numbered`), and the ticks of a whole run are
numbered 0, 1, 2, … (`ticks_numbered`).
-/

namespace Sonda.Proof.Schedule

open Sonda.Schedule Framework

/-- The number of the tick the callback is called for. -/
def tickNumber : GatedEvent → Option Nat
  | .loop (.tick n _ _) => some n
  | _ => none

/-- The numbers of the ticks called in a run. -/
def tickNumbers (log : List GatedEvent) : List Nat := log.filterMap tickNumber

theorem tickNumbers_append (log es : List GatedEvent) :
    tickNumbers (log ++ es) = tickNumbers log ++ tickNumbers es := List.filterMap_append

/-- Events that are not ticks of a schedule loop. -/
theorem tickNumbers_of_quiet {es : List GatedEvent} (h : ∀ l, GatedEvent.loop l ∉ es) :
    tickNumbers es = [] := by
  refine List.filterMap_eq_nil_iff.mpr fun e he => ?_
  cases e with
  | loop l => exact absurd he (h l)
  | _ => rfl

theorem tickNumbers_publishes {l k : ScheduleLoop} {ls : List LoopEvent} (h : Publishes l k ls) :
    tickNumbers (ls.map .loop) = [] ∧ k.tick = l.tick ∧ k.initialTick = l.initialTick := by
  cases h with
  | nothing => exact ⟨rfl, rfl, rfl⟩
  | rate => exact ⟨rfl, rfl, rfl⟩

/-- The number of the next tick of a segment. -/
def Segment.nextNumber (seg : Segment) : Nat :=
  match seg.pc with
  | .head => seg.loop.tick
  | .drain _ => seg.loop.tick + 1

/-- The number of the next tick. -/
def nextNumber (s : GatedState) : Nat :=
  match s.pc with
  | .segment seg => Segment.nextNumber seg
  | _ => s.nextTick

theorem nextNumber_segment {s : GatedState} {seg : Segment} (h : s.pc = .segment seg) :
    nextNumber s = Segment.nextNumber seg := by
  unfold nextNumber
  rw [h]

theorem nextNumber_outside {s : GatedState} (h : Outside s.pc) : nextNumber s = s.nextTick := by
  unfold nextNumber
  split
  · rename_i seg hpc
    exact absurd hpc (h seg)
  · rfl

variable {cfg : GatedConfig} {s : GatedState} {inp : GatedInput} {log : List GatedEvent}

/-- The ticks called so far are numbered from zero, and the next one goes on
from there. -/
structure Numbered (s : GatedState) (log : List GatedEvent) : Prop where
  numbers : tickNumbers log = List.range (tickNumbers log).length
  next : (∀ result, s.pc ≠ .returned result) → nextNumber s = (tickNumbers log).length
  initial : ∀ seg, s.pc = .segment seg → seg.loop.initialTick ≤ seg.loop.tick

/-- A step that calls no tick and keeps the number of the next one. -/
theorem Numbered.quiet (h : Numbered s log) {r : StepResult} (hes : tickNumbers r.2 = [])
    (hlive : ∀ result, s.pc ≠ .returned result) (hnext : nextNumber r.1 = nextNumber s)
    (hinit : ∀ seg, r.1.pc = .segment seg → seg.loop.initialTick ≤ seg.loop.tick) :
    Numbered r.1 (log ++ r.2) := by
  have hlog : tickNumbers (log ++ r.2) = tickNumbers log := by
    rw [tickNumbers_append, hes, List.append_nil]
  refine ⟨by rw [hlog]; exact h.numbers, fun _ => ?_, hinit⟩
  rw [hlog, hnext]
  exact h.next hlive

/-- A step inside a segment. -/
theorem Numbered.evolves (hg : Gapless cfg.schedule) (h : Numbered s log) {seg seg' : Segment}
    {r : StepResult} (hpc : s.pc = .segment seg) (hpc' : r.1.pc = .segment seg')
    (hev : Evolves cfg s inp seg seg' r.2) : Numbered r.1 (log ++ r.2) := by
  have hlive : ∀ result, s.pc ≠ .returned result := by
    intro result hret
    rw [hpc] at hret
    cases hret
  have hinit := h.initial seg hpc
  have hnext := h.next hlive
  rw [nextNumber_segment hpc] at hnext
  -- a step that calls no tick
  have quiet (hes : tickNumbers r.2 = [])
      (hsame : Segment.nextNumber seg' = Segment.nextNumber seg)
      (hinit' : seg'.loop.initialTick ≤ seg'.loop.tick) : Numbered r.1 (log ++ r.2) := by
    refine h.quiet hes hlive ?_ fun seg'' hseg => ?_
    · rw [nextNumber_segment hpc', nextNumber_segment hpc, hsame]
    · obtain rfl := GatedPc.segment.inj (hpc'.symm.trans hseg)
      exact hinit'
  obtain ⟨s', es⟩ := r
  cases hev with
  | woken => exact quiet rfl rfl hinit
  | moved _ hm => exact absurd hm (not_moves hg)
  | @called elapsed hhead =>
    have hnum : Segment.nextNumber seg = seg.loop.tick := by
      unfold Segment.nextNumber
      rw [hhead]
    rw [hnum] at hnext
    have hlog : tickNumbers (log ++ [.loop (.tick seg.loop.tick elapsed (seg.loop.start + elapsed))]) =
        List.range ((tickNumbers log).length + 1) := by
      rw [tickNumbers_append, List.range_succ, ← h.numbers, ← hnext]
      rfl
    refine ⟨by rw [hlog, List.length_range], fun _ => ?_, fun seg'' hseg => ?_⟩
    · rw [hlog, List.length_range, nextNumber_segment hpc', ← hnext]
      rfl
    · obtain rfl := GatedPc.segment.inj (hpc'.symm.trans hseg)
      exact hinit
  | observed hdrain hedge =>
    obtain ⟨hloop, hsame⟩ := observe_frame seg _
    refine quiet rfl ?_ (by rw [hloop]; exact hinit)
    unfold Segment.nextNumber
    rw [hloop, hsame]
  | settled hdrain hedge hp =>
    obtain ⟨hes, htick, hini⟩ := tickNumbers_publishes hp
    refine quiet hes ?_ ?_
    · unfold Segment.nextNumber
      rw [hdrain]
      exact congrArg (· + 1) htick
    · show _ ≤ _ + 1
      rw [htick]
      exact Nat.le_succ_of_le (hini ▸ hinit)

theorem numbered_step (hg : Gapless cfg.schedule) (h : Numbered s log) {r : StepResult}
    (hs : (gatedLoop cfg).step s inp = some r) : Numbered r.1 (log ++ r.2) := by
  have hlive : ∀ result, s.pc ≠ .returned result := by
    intro result hret
    simp [gatedLoop, gatedStep, hret] at hs
  have hframe := frame_of_step hs
  rcases step_cases hs with ⟨ho, _, ht⟩ | ⟨hpc, hnil, -, now, hseg⟩ |
    ⟨seg, hpc, ⟨seg', -, hpc', hev⟩ | hl⟩
  · -- outside a segment
    refine h.quiet (tickNumbers_of_quiet ht.quiet) hlive ?_ fun seg hseg => absurd hseg (ht.outside seg)
    rw [nextNumber_outside ht.outside, nextNumber_outside ho]
    exact hframe.nextTick ho
  · -- a segment is entered
    have ho : Outside s.pc := by
      intro seg hs'
      rw [hpc] at hs'
      cases hs'
    refine h.quiet (by rw [hnil]; rfl) hlive ?_ fun seg hs' => ?_
    · rw [nextNumber_segment hseg, nextNumber_outside ho]
      rfl
    · obtain rfl := GatedPc.segment.inj (hseg.symm.trans hs')
      exact Nat.le_refl _
  · exact h.evolves hg hpc hpc' hev
  · -- a segment is left
    obtain ⟨s', es⟩ := r
    cases hl with
    | stopped hhead =>
      refine h.quiet rfl hlive ?_ fun seg' hs' => by cases hs'
      rw [nextNumber_segment hpc]
      unfold Segment.nextNumber
      rw [hhead]
      rfl
    | @failed _ _ e =>
      have hlog : tickNumbers (log ++ [GatedEvent.failed e]) = tickNumbers log := by
        rw [tickNumbers_append]
        exact List.append_nil _
      refine ⟨by rw [hlog]; exact h.numbers, fun hret => absurd rfl (hret _), fun seg' hs' => ?_⟩
      cases hs'

/-- In every run without gaps the ticks are numbered 0, 1, 2, … in the order
they are called in, over all segments. -/
theorem ticks_numbered (hg : Gapless cfg.schedule) {now : Nat}
    (h : (gatedLoop cfg).Run (fun _ _ => True) (.enter cfg.ctx now) s log) :
    tickNumbers log = List.range (tickNumbers log).length := by
  have hstart : Numbered (.enter cfg.ctx now) [] :=
    ⟨rfl, fun _ => rfl, fun seg hseg => by cases hseg⟩
  exact (h.invariant hstart fun hi _ hs => numbered_step hg hi hs).numbers

/-- One event a second behind a gate that starts open, and that goes on
without its upstream. -/
def openUnresolved : GatedConfig where
  schedule := {}
  rate := 1
  ctx :=
    { initial := { whileGateOpen := some true }
      hasWhile := true
      ifUnresolved := some .opened }

/-- A segment is entered, a tick is called, `edge` is taken, and the segment
is left. -/
def segmentUntil (edge : GateEdge) : List GatedInput :=
  [{}, {}, { edge := some edge }, {}, {}, {}]

theorem ticks_numbered_openUnresolved : ∃ s log, (gatedLoop openUnresolved).Run (fun _ _ => True)
      (.enter openUnresolved.ctx 0) s log ∧
    tickNumbers log = [0, 1, 2, 3] ∧ tickNumbers log = List.range (tickNumbers log).length :=
  -- the upstream goes, comes back open, closes, and opens again
  Machine.run_reaches_and
    ({} :: segmentUntil .upstreamGone ++ segmentUntil .whileOpen ++ segmentUntil .whileClose ++
      { edge := some .whileOpen } :: segmentUntil .whileClose)
    (by decide +kernel) fun _ _ hrun _ => ticks_numbered ⟨rfl, rfl⟩ hrun

end Sonda.Proof.Schedule
