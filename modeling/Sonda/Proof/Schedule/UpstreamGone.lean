import Sonda.Proof.Schedule.GatedLoop

/-!
# The removal of an upstream is answered

`Answered` reads the events after an `UpstreamGone` was taken: the first of
them that decides anything is the end of the loop or, where the scenario has
an `if_unresolved`, the state `Unresolved`, and after the end there is no
tick. A loop that has taken the edge in a segment owes that answer until the
segment is left (`Owing`). In a run whose polls meet `KeepsGone` every removal
is answered (`gone_answered`); `gone_taken_as_close` has the two runs that
take the edge and go on as if the gate had closed.
-/

namespace Sonda.Proof.Schedule

open Sonda.Schedule Framework

variable {cfg : GatedConfig} {s : GatedState} {inp : GatedInput} {r : StepResult}
  {es fs : List GatedEvent} {mode : Option UnresolvedBehavior} {p : Place} {seg : Segment}

/-! ## What an answer is -/

/-- A removal taken here has to be answered. In `Unresolved` the loop already
knows of one. -/
def needsAnswer : Place → Bool
  | .pending | .running | .closeWait | .paused | .held => true
  | .unresolvedOpen | .unresolved => false

def NoTick (es : List GatedEvent) : Prop := ∀ n e a, GatedEvent.loop (.tick n e a) ∉ es

/-- The events `es` after a removal was taken answer it, as far as they go. -/
def Answered (mode : Option UnresolvedBehavior) : List GatedEvent → Prop
  | [] => True
  | .exited r :: es => (mode ≠ none → r ≠ .upstreamFinished) ∧ NoTick es
  | .failed _ :: es => NoTick es
  | .wrote st :: _ => mode ≠ none ∧ st = .unresolved
  | .loop (.tick ..) :: _ => False
  | .loop (.rate ..) :: es => Answered mode es
  | .took .. :: es => Answered mode es
  | .closeEmitted :: es => Answered mode es

/-- How far events decide about a removal taken before them. -/
inductive Verdict
  | awaited
  | ended
  | resolved
  deriving DecidableEq

def verdict : List GatedEvent → Verdict
  | [] => .awaited
  | .exited _ :: _ | .failed _ :: _ => .ended
  | .wrote _ :: _ | .loop (.tick ..) :: _ => .resolved
  | .loop (.rate ..) :: es => verdict es
  | .took .. :: es => verdict es
  | .closeEmitted :: es => verdict es

theorem noTick_append : NoTick (es ++ fs) ↔ NoTick es ∧ NoTick fs := by
  simp only [NoTick, List.mem_append, not_or]
  exact ⟨fun h => ⟨fun n e a => (h n e a).1, fun n e a => (h n e a).2⟩,
    fun h n e a => ⟨h.1 n e a, h.2 n e a⟩⟩

theorem answered_append :
    ∀ es : List GatedEvent, Answered mode es → (verdict es = .awaited → Answered mode fs) →
      (verdict es = .ended → NoTick fs) → Answered mode (es ++ fs)
  | [], _, ha, _ => ha rfl
  | .exited _ :: _, h, _, he => ⟨h.1, noTick_append.mpr ⟨h.2, he rfl⟩⟩
  | .failed _ :: _, h, _, he => noTick_append.mpr ⟨h, he rfl⟩
  | .wrote _ :: _, h, _, _ => h
  | .loop (.rate ..) :: es, h, ha, he => answered_append es h ha he
  | .took .. :: es, h, ha, he => answered_append es h ha he
  | .closeEmitted :: es, h, ha, he => answered_append es h ha he

theorem verdict_append (fs : List GatedEvent) : ∀ es : List GatedEvent, verdict (es ++ fs) =
    if verdict es = .awaited then verdict fs else verdict es
  | [] => rfl
  | .exited _ :: _ | .failed _ :: _ | .wrote _ :: _ | .loop (.tick ..) :: _ => rfl
  | .loop (.rate ..) :: es => verdict_append fs es
  | .took .. :: es => verdict_append fs es
  | .closeEmitted :: es => verdict_append fs es

/-! ## A loop that owes an answer -/

/-- The loop has taken a removal in a segment of `Running` and will answer it
when the segment is left. -/
inductive Owing (s : GatedState) : Prop
  | segment {seg : Segment} (hpc : s.pc = .segment seg) (hst : s.state ≠ .unresolved)
      (ho : seg.observed = some .upstreamGone) (hc : seg.cancelled = true)
  | exit (hpc : s.pc = .segmentExit .upstreamGone) (hst : s.state ≠ .unresolved)

/-- The loop has left its body. -/
def Ended (s : GatedState) : Prop := (∃ x, s.pc = .exited x) ∨ ∃ r, s.pc = .returned r

theorem not_ended_of_pc {s : GatedState} {pc : GatedPc} (hpc : s.pc = pc)
    (hx : ∀ x, pc ≠ .exited x) (hr : ∀ r, pc ≠ .returned r) : ¬ Ended s := by
  rintro (⟨x, h⟩ | ⟨r, h⟩)
  · exact hx x (hpc.symm.trans h)
  · exact hr r (hpc.symm.trans h)

/-- `es` answers a removal taken before it, and leaves the loop in `s`. -/
structure Answers (cfg : GatedConfig) (s : GatedState) (es : List GatedEvent) : Prop where
  answered : Answered cfg.ctx.ifUnresolved es
  awaited : verdict es = .awaited → Owing s
  ended : verdict es = .ended → Ended s

/-- The polls of a run never treat a removal as a close: none is taken in the
close debounce, and a segment of `Running` that has taken one takes no
`WhileClose` after it in the same drain. -/
def KeepsGone (s : GatedState) (inp : GatedInput) : Prop :=
  (∀ d, s.pc = .closeWait d → inp.edge ≠ some .upstreamGone) ∧
  ∀ seg, s.pc = .segment seg → seg.pc ≠ .head → s.state ≠ .unresolved →
    seg.observed = some .upstreamGone → inp.edge ≠ some .whileClose

theorem answers_exit {r : LoopExit} (h : cfg.ctx.ifUnresolved ≠ none → r ≠ .upstreamFinished) :
    Answers cfg (s.exit r).1 (s.exit r).2 where
  answered := ⟨h, by simp [NoTick]⟩
  awaited := nofun
  ended _ := .inl ⟨r, rfl⟩

theorem answers_toUnresolved (h : cfg.ctx.ifUnresolved ≠ none) :
    Answers cfg s.toUnresolved.1 s.toUnresolved.2 where
  answered := ⟨h, rfl⟩
  awaited := nofun
  ended := nofun

theorem answers_gone : Answers cfg (s.gone cfg).1 (s.gone cfg).2 := by
  simp only [GatedState.gone]
  split
  · rename_i h; exact answers_exit (absurd h)
  · rename_i h; exact answers_toUnresolved h

theorem answers_closeEmit {k : GatedState → StepResult} (hk : Answers cfg (k s).1 (k s).2) :
    Answers cfg (s.closeEmit cfg inp k).1 (s.closeEmit cfg inp k).2 := by
  simp only [GatedState.closeEmit]
  split
  · split
    · exact ⟨hk.answered, hk.awaited, hk.ended⟩
    · exact ⟨by simp [Answered, GatedState.fail, NoTick], (fun h => by cases h),
        fun _ => .inr ⟨_, rfl⟩⟩
  · exact hk

theorem answers_segmentExit (hst : s.state ≠ .unresolved) :
    Answers cfg (segmentExitStep cfg s .upstreamGone inp).1
      (segmentExitStep cfg s .upstreamGone inp).2 := by
  simp only [segmentExitStep]
  split
  · exact answers_exit (fun _ => by simp)
  split
  · exact answers_exit (fun _ => by simp)
  split
  · rename_i h; exact absurd h hst
  · simp only [afterRunning]
    split
    · rename_i h; exact answers_exit (absurd h)
    · rename_i h; exact answers_closeEmit (answers_toUnresolved h)

/-- In `Running`, an open edge does not end the segment. -/
def RunsThrough (s : GatedState) : Prop :=
  ∀ seg, s.pc = .segment seg → s.state ≠ .unresolved → seg.exitOnWhileOpen = false

theorem observe_gone {edge : GateEdge} (he : seg.exitOnWhileOpen = false)
    (ho : seg.observed = some .upstreamGone) (hc : seg.cancelled = true) (h : edge ≠ .whileClose) :
    (seg.observe edge).observed = some .upstreamGone ∧ (seg.observe edge).cancelled = true := by
  cases edge with
  | whileClose => exact absurd rfl h
  | whileOpen => simp [Segment.observe, he, ho, hc]
  | afterFired | upstreamGone => simp [Segment.observe, ho, hc]

theorem publishes_answered {l k : ScheduleLoop} {ls : List LoopEvent} (h : Publishes l k ls) :
    Answered mode (ls.map .loop) ∧ verdict (ls.map .loop) = .awaited := by
  cases h <;> simp [Answered, verdict]

/-- A segment that owes an answer still owes it, or has ended with an error. -/
theorem owing_evolves {seg' : Segment} {t : GatedState} (hr : RunsThrough s) (hk : KeepsGone s inp)
    (hpc : s.pc = .segment seg) (hst : s.state ≠ .unresolved)
    (hobs : seg.observed = some .upstreamGone) (hc : seg.cancelled = true)
    (hev : Evolves cfg s inp seg seg' es) (htst : t.state = s.state) (htpc : t.pc = .segment seg') :
    Answers cfg t es := by
  have owing (h : seg'.observed = some .upstreamGone ∧ seg'.cancelled = true) : Owing t :=
    .segment htpc (htst ▸ hst) h.1 h.2
  cases hev with
  | woken | moved => exact ⟨trivial, fun _ => owing ⟨hobs, hc⟩, nofun⟩
  | called _ hlive => rw [hc] at hlive; cases hlive.2
  | observed hd he =>
    have hne : _ ≠ GateEdge.whileClose := fun e =>
      hk.2 _ hpc (by simp [hd]) hst hobs (e ▸ he)
    exact ⟨trivial, fun _ => owing (observe_gone (hr _ hpc hst) hobs hc hne), nofun⟩
  | settled _ _ hp =>
    obtain ⟨ha, hv⟩ := publishes_answered hp
    exact ⟨ha, fun _ => owing ⟨hobs, hc⟩, fun h => (by rw [hv] at h; cases h)⟩

/-- A loop that owes an answer gives it, or still owes it. -/
theorem owing_step (hr : RunsThrough s) (ho : Owing s) (hk : KeepsGone s inp)
    (h : (gatedLoop cfg).step s inp = some r) : Answers cfg r.1 r.2 := by
  cases ho with
  | segment hpc hst hobs hc =>
    rcases step_cases h with ⟨hout, -⟩ | ⟨htop, -⟩ | ⟨seg, hpc', ⟨seg', hst', hseg', hev⟩ | hl⟩
    · exact absurd hpc (hout _)
    · rw [hpc] at htop; cases htop
    · rw [hpc] at hpc'
      cases hpc'
      exact owing_evolves hr hk hpc hst hobs hc hev hst' hseg'
    · rw [hpc] at hpc'
      cases hpc'
      obtain ⟨s', es⟩ := r
      cases hl with
      | stopped => exact ⟨trivial, fun _ => .exit (by rw [hobs]; rfl) hst, nofun⟩
      | failed => exact ⟨by simp [Answered, NoTick], nofun, fun _ => .inr ⟨_, rfl⟩⟩
  | exit hpc hst =>
    simp only [gatedLoop, gatedStep, hpc] at h
    exact Option.some.inj h ▸ answers_segmentExit hst

/-- A loop that has left its body neither polls nor emits a tick. -/
theorem ended_step (he : Ended s) (h : (gatedLoop cfg).step s inp = some r) :
    (∀ e ∈ r.2, Plain e) ∧ Ended r.1 := by
  rcases he with ⟨x, hpc⟩ | ⟨x, hpc⟩ <;> simp only [gatedLoop, gatedStep, hpc] at h
  · exact Option.some.inj h ▸ ⟨tailStep_moved.1, .inr tailStep_returned⟩
  · cases h

/-! ## Where a removal is taken -/

theorem runsThrough_step (hr : RunsThrough s) (h : (gatedLoop cfg).step s inp = some r) :
    RunsThrough r.1 := by
  intro seg' hpc' hst'
  obtain ⟨hst, ⟨now, rfl⟩ | ⟨seg, hpc, hev⟩⟩ := segment_of_step h hpc'
  · rw [hst] at hst'; simp [Segment.enter, hst']
  · have hseg := hr seg hpc (hst ▸ hst')
    obtain ⟨s', es⟩ := r
    cases hev with
    | observed => simp only [Segment.observe]; (repeat' split) <;> exact hseg
    | _ => exact hseg

theorem noTook_of_moved (h : Moved r) {e : GateEdge} : .took p e ∉ r.2 :=
  fun hm => h.1 _ hm

/-- The events of a step with a removal that needs an answer: the taking of
it, and then events that answer it or leave the loop owing. -/
def TakenFirst (cfg : GatedConfig) (p : Place) (r : StepResult) : Prop :=
  ∃ fs, r.2 = .took p .upstreamGone :: fs ∧ Answers cfg r.1 fs ∧
    ∀ {q e}, GatedEvent.took q e ∉ fs

theorem taken_of_turns {wait : Bool} (ht : Turns cfg inp wait r)
    (hw : wait = true → inp.edge ≠ some .upstreamGone) (hp : needsAnswer p = true)
    (hm : .took p .upstreamGone ∈ r.2) : TakenFirst cfg p r := by
  cases ht with
  | moved hmv => exact absurd hm (noTook_of_moved hmv)
  | took he hmv hgone =>
    rcases List.mem_cons.mp hm with hm | hm
    · obtain ⟨rfl, rfl⟩ := hm
      rcases hgone rfl with ⟨t, rfl⟩ | rfl | hwait
      · exact ⟨_, rfl, answers_gone, noTook_of_moved hmv⟩
      · cases hp
      · exact absurd he (hw hwait)
    · exact absurd hm (noTook_of_moved hmv)

theorem taken_of_step (hk : KeepsGone s inp) (h : (gatedLoop cfg).step s inp = some r)
    (hp : needsAnswer p = true) (hm : .took p .upstreamGone ∈ r.2) : TakenFirst cfg p r := by
  cases stepAt_of_step h with
  | top hpc =>
    rcases topStep_cases (show Outside s.pc by simp [Outside, hpc]) with ht | ⟨hnil, -⟩
    · exact taken_of_turns ht (fun h => by cases h) hp hm
    · rw [hnil] at hm; cases hm
  | evolves hpc hev =>
    cases hev with
    | observed hd he =>
      simp only [List.mem_singleton, GatedEvent.took.injEq] at hm
      obtain ⟨rfl, rfl⟩ := hm
      refine ⟨[], rfl, ⟨trivial, fun _ => .segment rfl ?_ rfl rfl, fun h => by cases h⟩, by simp⟩
      intro (e : s.state = .unresolved)
      rw [e] at hp
      cases hp
    | settled _ _ hpub => cases hpub <;> simp at hm
    | _ => simp at hm
  | leaves hpc hl => cases hl <;> simp at hm
  | segmentExit hpc => exact absurd hm (noTook_of_moved segmentExitStep_moved)
  | closeWait hpc =>
    exact taken_of_turns (closeWaitStep_turns (by simp [Outside, hpc])) (fun _ => hk.1 _ hpc) hp hm
  | tail hpc => exact absurd hm (noTook_of_moved tailStep_moved)

/-! ## Runs -/

/-- Every removal in the log is answered by what follows it. -/
structure AllAnswered (cfg : GatedConfig) (s : GatedState) (log : List GatedEvent) : Prop where
  runs : RunsThrough s
  answers : ∀ before p after, log = before ++ .took p .upstreamGone :: after →
    needsAnswer p = true → Answers cfg s after

theorem Answers.append (hr : RunsThrough s) (h : Answers cfg s es) (hk : KeepsGone s inp)
    (hs : (gatedLoop cfg).step s inp = some r) : Answers cfg r.1 (es ++ r.2) := by
  have hv := verdict_append r.2 es
  refine ⟨answered_append es h.answered (fun hv => (owing_step hr (h.awaited hv) hk hs).answered)
    (fun hv _ _ _ => (ended_step (h.ended hv) hs).1 _), fun ha => ?_, fun he => ?_⟩
  · rw [hv] at ha
    split at ha
    · exact (owing_step hr (h.awaited ‹_›) hk hs).awaited ha
    · exact absurd ha ‹_›
  · rw [hv] at he
    split at he
    · exact (owing_step hr (h.awaited ‹_›) hk hs).ended he
    · exact (ended_step (h.ended he) hs).2

theorem allAnswered_step {log : List GatedEvent} (hi : AllAnswered cfg s log) (hk : KeepsGone s inp)
    (hs : (gatedLoop cfg).step s inp = some r) : AllAnswered cfg r.1 (log ++ r.2) := by
  refine ⟨runsThrough_step hi.runs hs, fun before p after hcut hp => ?_⟩
  rcases append_eq_cut hcut with ⟨mid, hlog, rfl⟩ | ⟨mid, -, hes⟩
  · exact (hi.answers before p mid hlog hp).append hi.runs hk hs
  · obtain ⟨fs, hfs, ha, hno⟩ := taken_of_step hk hs hp (hes ▸ by simp)
    -- a step takes one edge, so the cut is at its first event
    cases mid with
    | nil =>
      rw [hes] at hfs
      simp only [List.nil_append, List.cons.injEq, true_and] at hfs
      exact hfs ▸ ha
    | cons y mid =>
      rw [hes] at hfs
      simp only [List.cons_append, List.cons.injEq] at hfs
      exact absurd (by rw [← hfs.2]; simp) (hno (q := p) (e := .upstreamGone))

/-- In a run that never takes a removal for a close, every removal taken in
`Pending`, a segment of `Running`, the close debounce, `Paused` or `Held` is
answered: without `if_unresolved` the loop ends and emits no further tick,
with it the next state is `Unresolved`, unless the loop ends first. -/
theorem gone_answered {now : Nat} {log : List GatedEvent}
    (h : (gatedLoop cfg).Run KeepsGone (.enter cfg.ctx now) s log) {before after : List GatedEvent}
    {p : Place} (hlog : log = before ++ .took p .upstreamGone :: after)
    (hp : needsAnswer p = true) : Answered cfg.ctx.ifUnresolved after := by
  have hi : AllAnswered cfg s log := h.invariant ⟨by simp [RunsThrough, GatedState.enter], by simp⟩
    fun hi hk hs => allAnswered_step hi hk hs
  exact (hi.answers before p after hlog hp).answered

/-! ## Runs that answer a removal and runs that do not -/

instance (s : GatedState) (inp : GatedInput) : Decidable (KeepsGone s inp) :=
  match hpc : s.pc with
  | .closeWait _ => decidable_of_iff (inp.edge ≠ some .upstreamGone) (by simp [KeepsGone, hpc])
  | .segment seg =>
    decidable_of_iff (seg.pc ≠ .head → s.state ≠ .unresolved → seg.observed = some .upstreamGone →
      inp.edge ≠ some .whileClose) (by simp [KeepsGone, hpc])
  | .top | .segmentExit _ | .exited _ | .returned _ =>
    isTrue (by simp [KeepsGone, hpc])

/-- One event a second behind a gate that starts open, with a close debounce. -/
def openAtFirst (closeDelay : Option Nat) : GatedConfig where
  schedule := {}
  rate := 1
  ctx :=
    { initial := { whileGateOpen := some true }
      delay := some ⟨none, closeDelay⟩
      hasWhile := true }

/-- The loop runs, emits a tick, and then `rest`. -/
def firstTick (rest : List GatedInput) : List GatedInput := {} :: {} :: {} :: rest

theorem gone_answered_openAtFirst : ∃ s log, (gatedLoop (openAtFirst none)).Run KeepsGone
      (.enter (openAtFirst none).ctx 0) s log ∧
    log = [.wrote .running, .loop (.tick 0 0 0)] ++ .took .running .upstreamGone ::
      [.exited .upstreamFinished] ∧ Answered none [.exited .upstreamFinished] :=
  Machine.run_reaches_and (firstTick [{ edge := some .upstreamGone }, {}, {}, {}])
    (by decide +kernel) fun _ _ hrun hlog => gone_answered hrun hlog rfl

/-- Two runs without `if_unresolved` that take a removal and pause: in the
close debounce, and in a drain that takes a `WhileClose` after it. -/
theorem gone_taken_as_close :
    (∃ s log, (gatedLoop (openAtFirst (some oneSecond))).Run (fun _ _ => True)
        (.enter (openAtFirst (some oneSecond)).ctx 0) s log ∧
      (s.state = .paused ∧ log = [.wrote .running, .loop (.tick 0 0 0), .took .running .whileClose] ++
        .took .closeWait .upstreamGone :: [.wrote .paused]) ∧ ¬ Answered none [.wrote .paused]) ∧
    ∃ s log, (gatedLoop (openAtFirst none)).Run (fun _ _ => True) (.enter (openAtFirst none).ctx 0)
        s log ∧
      (s.state = .paused ∧ log = [.wrote .running, .loop (.tick 0 0 0)] ++
        .took .running .upstreamGone :: [.took .running .whileClose, .wrote .paused]) ∧
      ¬ Answered none [.took .running .whileClose, .wrote .paused] :=
  ⟨Machine.run_reaches_and
      (firstTick [{ edge := some .whileClose }, {}, {}, {}, { edge := some .upstreamGone }])
      (by decide +kernel) fun _ _ _ _ => by simp [Answered],
    Machine.run_reaches_and
      (firstTick [{ edge := some .upstreamGone }, { edge := some .whileClose }, {}, {}, {}])
      (by decide +kernel) fun _ _ _ _ => by simp [Answered]⟩

end Sonda.Proof.Schedule
