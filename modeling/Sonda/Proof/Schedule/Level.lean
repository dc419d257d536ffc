import Sonda.Proof.Schedule.GateBus
import Sonda.Proof.Schedule.UpstreamGone

/-!
# The loop and the level it has learned

`learn` is the last `while` level a loop has learned from the edges it took.
`Agrees` says, for each place the loop can be in, what that level is: open in
`Running`, closed in `Paused` and `Held` unless the open timer runs, and what
a segment has observed while it is being left. A step that meets `KeepsLevel`
keeps it (`agrees_step`), so that a loop at rest agrees with the level
(`Agrees.active_iff`).
-/

namespace Sonda.Proof.Schedule

open Sonda.Schedule Framework GateBus

variable {cfg : GatedConfig} {s : GatedState} {inp : GatedInput} {r : StepResult}
  {L : GateEdge}
variable {es : List GatedEvent}

/-! ## What a loop learns -/

def learn (L : GateEdge) (es : List GatedEvent) : GateEdge :=
  es.foldl (fun L e => match e with | .took _ edge => learnEdge L edge | _ => L) L

theorem learn_append (L : GateEdge) (es fs : List GatedEvent) :
    learn L (es ++ fs) = learn (learn L es) fs := List.foldl_append

theorem learn_plain (h : ∀ e ∈ es, Plain e) : learn L es = L := by
  induction es with
  | nil => rfl
  | cons e es ih =>
    have he := h e List.mem_cons_self
    have hes := ih fun x hx => h x (List.mem_cons_of_mem _ hx)
    cases e with
    | took | loop => exact he.elim
    | _ => exact hes

theorem any_isTook_plain (h : ∀ e ∈ es, Plain e) : es.any (·.isTook) = false := by
  refine List.any_eq_false.mpr fun e he => ?_
  have := h e he
  cases e with
  | took | loop => exact this.elim
  | _ => simp [GatedEvent.isTook]

theorem learn_taking (p : Place) (e : GateEdge) (h : Moved r) :
    learn L (taking p e r).2 = learnEdge L e := learn_plain h.1

theorem learn_loop (ls : List LoopEvent) : learn L (ls.map .loop) = L := by
  induction ls with
  | nil => rfl
  | cons _ _ ih => exact ih

/-! ## What each place knows -/

/-- The level a state that emits stands for. -/
def baseLevel : ScenarioState → GateEdge
  | .unresolved => .upstreamGone
  | _ => .whileOpen

/-- The level a segment has learned when it ends with `x`. -/
def exitLevel (base : GateEdge) : SegmentExit → GateEdge
  | .whileClose => .whileClose
  | .upstreamGone => .upstreamGone
  | .whileOpen => .whileOpen
  | .shutdownOrDuration => base

/-- The gate is open at this level: a removed upstream leaves it open under
`if_unresolved: open`. -/
def LevelOpen (cfg : GatedConfig) (L : GateEdge) : Prop :=
  L = .whileOpen ∨ L = .upstreamGone ∧ cfg.ctx.ifUnresolved = some .opened

def LevelClosed (cfg : GatedConfig) (L : GateEdge) : Prop :=
  L = .whileClose ∨ L = .upstreamGone ∧ cfg.ctx.ifUnresolved ≠ some .opened

theorem LevelClosed.not_open (h : LevelClosed cfg L) : ¬ LevelOpen cfg L := by
  rintro (ho | ⟨ho, hm⟩)
  · rcases h with rfl | ⟨rfl, -⟩ <;> cases ho
  · rcases h with rfl | ⟨-, hm'⟩
    · cases ho
    · exact hm' hm

/-- The loop emits in this state. -/
def Emitting (st : ScenarioState) : Prop := st = .running ∨ st = .unresolved

def Silent (st : ScenarioState) : Prop := st = .paused ∨ st = .held

/-- What a silent loop has learned: that the gate is closed, or that it opens when the timer
fires. -/
def SilentLevel (cfg : GatedConfig) (s : GatedState) (L : GateEdge) : Prop :=
  LevelClosed cfg L ∧ s.debounce.pendingOpenAt = none ∨
    L = .whileOpen ∧ s.whileOpen = true ∧ s.debounce.pendingOpenAt ≠ none

/-- No open timer runs, and `after:` is satisfied. -/
def Steady (s : GatedState) : Prop := s.debounce.pendingOpenAt = none ∧ s.afterSatisfied = true

/-- The loop in `s` has learned the level `L`. -/
inductive Agrees (cfg : GatedConfig) (s : GatedState) (L : GateEdge) : Prop
  | pending (hpc : s.pc = .top) (hst : s.state = .pending) (hl : L = levelEdge s.whileOpen)
      (hd : s.debounce.pendingOpenAt = none)
  | emitting (hpc : s.pc = .top) (hst : Emitting s.state) (hl : L = baseLevel s.state) (hq : Steady s)
  | silent (hpc : s.pc = .top) (hst : Silent s.state) (hl : SilentLevel cfg s L)
      (ha : s.afterSatisfied = true)
  | segment {seg : Segment} (hpc : s.pc = .segment seg) (hst : Emitting s.state)
      (hx : seg.exitOnWhileOpen = decide (s.state = .unresolved))
      (ho : s.state = .running → seg.observed ≠ some .whileOpen)
      (hl : L = exitLevel (baseLevel s.state) (decodeSegmentExit seg.observed)) (hq : Steady s)
  | left {x : SegmentExit} (hpc : s.pc = .segmentExit x) (hst : Emitting s.state)
      (ho : s.state = .running → x ≠ .whileOpen) (hl : L = exitLevel (baseLevel s.state) x)
      (hq : Steady s)
  | closing {d : Nat} (hpc : s.pc = .closeWait d) (hst : s.state = .running) (hl : L = .whileClose)
      (hq : Steady s)
  | ended (h : Ended s)

/-- What a step must not do for the loop to keep up with the level:

* leave `Pending` for `Unresolved`, with `after:` not fired;
* take a removal in the close debounce under `if_unresolved: open`;
* take a `WhileOpen` in a drain of `Running` that already took an edge that
  ends the segment;
* leave a segment of `Running` that ended by its own limit, when neither a
  cancel nor the scenario's duration ends the loop. -/
@[mk_iff]
structure KeepsLevel (cfg : GatedConfig) (s : GatedState) (inp : GatedInput) : Prop where
  pending : s.pc = .top → s.state = .pending → s.afterSatisfied = false →
    inp.edge = some .upstreamGone → cfg.ctx.ifUnresolved = none
  wait : ∀ d, s.pc = .closeWait d → inp.edge = some .upstreamGone →
    cfg.ctx.ifUnresolved ≠ some .opened
  drain : ∀ seg, s.pc = .segment seg → seg.pc ≠ .head → s.state = .running → seg.observed ≠ none →
    inp.edge ≠ some .whileOpen
  limit : s.pc = .segmentExit .shutdownOrDuration → s.state = .running →
    (s.cancelled || inp.cancel) = true ∨
      durationExpired cfg.schedule s.startedAt (s.clock + inp.delay) = true

instance (s : GatedState) (inp : GatedInput) : Decidable (KeepsLevel cfg s inp) :=
  match hpc : s.pc with
  | .top =>
    decidable_of_iff (s.state = .pending → s.afterSatisfied = false →
      inp.edge = some .upstreamGone → cfg.ctx.ifUnresolved = none) (by simp [keepsLevel_iff, hpc])
  | .closeWait _ =>
    decidable_of_iff (inp.edge = some .upstreamGone → cfg.ctx.ifUnresolved ≠ some .opened)
      (by simp [keepsLevel_iff, hpc])
  | .segment seg =>
    decidable_of_iff (seg.pc ≠ .head → s.state = .running → seg.observed ≠ none →
      inp.edge ≠ some .whileOpen) (by simp [keepsLevel_iff, hpc])
  | .segmentExit x =>
    decidable_of_iff (x = .shutdownOrDuration → s.state = .running →
      (s.cancelled || inp.cancel) = true ∨
        durationExpired cfg.schedule s.startedAt (s.clock + inp.delay) = true)
      (by simp [keepsLevel_iff, hpc])
  | .exited _ | .returned _ => isTrue (by simp [keepsLevel_iff, hpc])

/-! ## Results of a step -/

theorem agrees_exit (s : GatedState) (x : LoopExit) : Agrees cfg (s.exit x).1 L :=
  .ended (.inl ⟨x, rfl⟩)

theorem agrees_toUnresolved (ha : s.afterSatisfied = true) :
    Agrees cfg s.toUnresolved.1 .upstreamGone :=
  .emitting rfl (.inr rfl) rfl ⟨rfl, ha⟩

theorem closeTargetState_silent (cfg : GatedConfig) (inp : GatedInput) :
    Silent (closeTargetState cfg inp) := by
  simp only [closeTargetState, Silent]
  split <;> simp

theorem agrees_toClosed (ha : s.afterSatisfied = true) (hl : LevelClosed cfg L) :
    Agrees cfg (s.toClosed cfg inp).1 L :=
  .silent rfl (closeTargetState_silent cfg inp) (.inl ⟨hl, rfl⟩) ha

theorem agrees_closeEmit {k : GatedState → StepResult} (hk : Agrees cfg (k s).1 L) :
    Agrees cfg (s.closeEmit cfg inp k).1 L := by
  simp only [GatedState.closeEmit]
  split
  · split
    · exact hk
    · exact .ended (.inr ⟨_, rfl⟩)
  · exact hk

theorem agrees_gone (h : s.afterSatisfied = true ∨ cfg.ctx.ifUnresolved = none) :
    Agrees cfg (s.gone cfg).1 .upstreamGone := by
  simp only [GatedState.gone]
  split
  · exact agrees_exit _ _
  · exact agrees_toUnresolved (h.resolve_right ‹_›)

/-- What the timers do at the end of a turn of `Paused` or `Held`. -/
theorem fireDue_cases (s : GatedState) : (∃ t, s.debounce.pendingOpenAt = some t ∧ t ≤ s.clock ∧
      fireDue s = if s.whileOpen = true then
          { s with debounce := { s.debounce with pendingOpenAt := none } }.moveTo .running
        else ({ s with debounce := { s.debounce with pendingOpenAt := none } }, [])) ∨
    ∃ d : DebounceState, d.pendingOpenAt = s.debounce.pendingOpenAt ∧
      fireDue s = ({ s with debounce := d }, []) := by
  by_cases h : s.debounce.pendingOpenAt.any (· ≤ s.clock) = true
  · obtain ⟨t, ht, hle⟩ := (Option.any_eq_true _ _).mp h
    refine .inl ⟨t, ht, by simpa using hle, ?_⟩
    simp [fireDue, DebounceState.fireIfDue, h]
  · simp only [fireDue, DebounceState.fireIfDue, if_neg h]
    right
    by_cases hc : s.debounce.pendingCloseAt.any (· ≤ s.clock) = true
    · exact ⟨{ s.debounce with pendingCloseAt := none }, rfl, by simp [hc]⟩
    · exact ⟨s.debounce, rfl, by simp [hc]⟩

/-- A silent loop agrees, before and after its timers fire. -/
theorem agrees_fireDue (hpc : s.pc = .top) (hst : Silent s.state) (ha : s.afterSatisfied = true)
    (h : SilentLevel cfg s L) : Agrees cfg (fireDue s).1 L := by
  rcases fireDue_cases s with ⟨t, ht, -, hf⟩ | ⟨d, hd, hf⟩
  · obtain ⟨hl, hw, -⟩ := h.resolve_left (fun h => by rw [ht] at h; cases h.2)
    rw [hf, if_pos hw]
    exact .emitting rfl (.inl rfl) hl ⟨rfl, ha⟩
  · rw [hf]
    exact .silent hpc hst (by rwa [SilentLevel, hd]) ha

/-! ## Turns of the loop -/

/-- The result agrees with the level the loop has after it. -/
def AgreesAfter (cfg : GatedConfig) (L : GateEdge) (r : StepResult) : Prop :=
  Agrees cfg r.1 (learn L r.2)

theorem agreesAfter_moved (hm : Moved r) (h : Agrees cfg r.1 L) : AgreesAfter cfg L r := by
  rwa [AgreesAfter, learn_plain hm.1]

theorem agreesAfter_exit (s : GatedState) (x : LoopExit) : AgreesAfter cfg L (s.exit x) :=
  agreesAfter_moved (moved_exit s x) (agrees_exit s x)

theorem agreesAfter_taking {p : Place} {e : GateEdge} (hm : Moved r)
    (h : Agrees cfg r.1 (learnEdge L e)) : AgreesAfter cfg L (taking p e r) := by
  rwa [AgreesAfter, learn_taking p e hm]

theorem agrees_pendingStep (hw : cfg.ctx.hasWhile = true) (hpc : s.pc = .top)
    (hst : s.state = .pending) (hl : L = levelEdge s.whileOpen)
    (hd : s.debounce.pendingOpenAt = none)
    (hk : s.afterSatisfied = false → inp.edge = some .upstreamGone → cfg.ctx.ifUnresolved = none) :
    AgreesAfter cfg L (pendingStep cfg s inp) := by
  have hout : Outside s.pc := by simp [Outside, hpc]
  simp only [pendingStep]
  split
  · rename_i ha
    split
    · exact agreesAfter_exit _ _
    · split <;> rename_i he
      · exact agreesAfter_taking (moved_nil hout) (.pending hpc hst hl hd)
      · exact agreesAfter_taking (moved_nil hout) (.pending hpc hst rfl hd)
      · exact agreesAfter_taking (moved_nil hout) (.pending hpc hst rfl hd)
      · exact agreesAfter_taking (moved_gone s) (agrees_gone (.inr (hk ha he)))
      · exact agreesAfter_moved (moved_nil hout) (.pending hpc hst hl hd)
  · rename_i ha
    simp only [Bool.not_eq_false] at ha
    rw [hw]
    cases hopen : s.whileOpen with
    | true =>
      rw [hopen] at hl
      exact agreesAfter_moved (moved_moveTo _ _) (.emitting rfl (.inl rfl) hl ⟨hd, ha⟩)
    | false =>
      rw [hopen] at hl
      exact agreesAfter_moved (moved_moveTo _ _)
        (.silent rfl (closeTargetState_silent cfg inp) (.inl ⟨.inl hl, hd⟩) ha)

theorem agrees_pausedStep (p : Place) (hpc : s.pc = .top) (hst : Silent s.state)
    (ha : s.afterSatisfied = true) (h : SilentLevel cfg s L) : AgreesAfter cfg L (pausedStep cfg p s inp) := by
  have hout : Outside s.pc := by simp [Outside, hpc]
  simp only [pausedStep]
  split
  · exact agreesAfter_exit _ _
  · split
    · exact agreesAfter_taking (moved_fireDue hout)
        (agrees_fireDue hpc hst ha (.inr ⟨rfl, rfl, by simp [DebounceState.observe]⟩))
    · exact agreesAfter_taking (moved_fireDue hout)
        (agrees_fireDue hpc hst ha (.inl ⟨.inl rfl, rfl⟩))
    · exact agreesAfter_taking (moved_fireDue hout) (agrees_fireDue hpc hst rfl h)
    · exact agreesAfter_taking (moved_gone _) (agrees_gone (.inl ha))
    · exact agreesAfter_moved (moved_fireDue hout) (agrees_fireDue hpc hst ha h)

theorem agrees_unresolvedStep (hpc : s.pc = .top) (hst : s.state = .unresolved)
    (hl : L = .upstreamGone) (hq : Steady s) : AgreesAfter cfg L (unresolvedStep cfg s inp) := by
  have hout : Outside s.pc := by simp [Outside, hpc]
  have hbase : L = baseLevel s.state := by rw [hst]; exact hl
  simp only [unresolvedStep]
  split
  · exact agreesAfter_exit _ _
  · split
    · exact agreesAfter_taking (moved_moveTo _ _) (.pending rfl rfl rfl rfl)
    · exact agreesAfter_taking (moved_moveTo _ _) (agrees_toClosed hq.2 (.inl rfl))
    · exact agreesAfter_taking (moved_nil hout) (.emitting hpc (.inr hst) hbase ⟨hq.1, rfl⟩)
    · exact agreesAfter_taking (moved_nil hout) (.emitting hpc (.inr hst) (by rw [hst]; rfl) hq)
    · exact agreesAfter_moved (moved_nil hout) (.emitting hpc (.inr hst) hbase hq)

theorem agrees_enterSegment (hst : Emitting s.state) (hl : L = baseLevel s.state)
    (hq : Steady s) {b : Bool} (hb : b = decide (s.state = .unresolved)) :
    AgreesAfter cfg L (enterSegment s b inp) :=
  .segment rfl hst hb (fun _ => by simp [Segment.enter]) hl hq

theorem agrees_topStep (hw : cfg.ctx.hasWhile = true) (hpc : s.pc = .top) (h : Agrees cfg s L)
    (hk : KeepsLevel cfg s inp) : AgreesAfter cfg L (topStep cfg s inp) := by
  have hapc : (s.arrive inp).pc = .top := hpc
  simp only [topStep]
  split
  · exact agreesAfter_exit _ _
  split
  · exact agreesAfter_exit _ _
  cases h with
  | pending _ hst hl hd =>
    simp only [show (s.arrive inp).state = .pending from hst]
    exact agrees_pendingStep hw hapc hst hl hd (hk.pending hpc hst)
  | emitting _ hst hl hq =>
    rcases hst with hst | hst
    · simp only [show (s.arrive inp).state = .running from hst]
      exact agrees_enterSegment (s := s.arrive inp) (.inl hst) hl hq
        (by simp [GatedState.arrive, hst])
    · simp only [show (s.arrive inp).state = .unresolved from hst]
      have hl' : L = .upstreamGone := by rw [hl, hst]; rfl
      split
      · exact agrees_enterSegment (s := s.arrive inp) (.inr hst) hl hq
          (by simp [GatedState.arrive, hst])
      · exact agrees_unresolvedStep hapc hst hl' hq
      · exact agrees_unresolvedStep hapc hst hl' hq
  | silent _ hst hl ha =>
    rcases hst with hst | hst
    · simp only [show (s.arrive inp).state = .paused from hst]
      exact agrees_pausedStep _ hapc (.inl hst) ha hl
    · simp only [show (s.arrive inp).state = .held from hst]
      exact agrees_pausedStep _ hapc (.inr hst) ha hl
  | segment h' | left h' | closing h' => rw [hpc] at h'; cases h'
  | ended h' => exact absurd h' (not_ended_of_pc hpc (by simp) (by simp))

/-! ## Segments and what follows them -/

theorem Agrees.of_segment {seg : Segment} (h : Agrees cfg s L) (hpc : s.pc = .segment seg) :
    Emitting s.state ∧ seg.exitOnWhileOpen = decide (s.state = .unresolved) ∧
      (s.state = .running → seg.observed ≠ some .whileOpen) ∧
      L = exitLevel (baseLevel s.state) (decodeSegmentExit seg.observed) ∧ Steady s := by
  cases h with
  | segment hpc' hst hx ho hl hq =>
    rw [hpc] at hpc'
    cases hpc'
    exact ⟨hst, hx, ho, hl, hq⟩
  | ended h' => exact absurd h' (not_ended_of_pc hpc (by simp) (by simp))
  | _ h' => rw [hpc] at h'; cases h'

theorem agrees_evolves {seg seg' : Segment} {clock : Nat} {cancelled : Bool} (h : Agrees cfg s L)
    (hpc : s.pc = .segment seg) (hk : KeepsLevel cfg s inp) (hev : Evolves cfg s inp seg seg' es) :
    AgreesAfter cfg L ({ s with clock, cancelled, pc := .segment seg' }, es) := by
  obtain ⟨hst, hx, ho, hl, hq⟩ := h.of_segment hpc
  cases hev with
  | woken | moved | called => exact .segment rfl hst hx ho hl hq
  | settled _ _ hp =>
    rw [AgreesAfter, learn_loop]
    exact .segment rfl hst hx ho hl hq
  | @observed i edge hdr he =>
    have same : edge = .afterFired ∨ L = learnEdge L edge → seg.observe edge = seg →
        Agrees cfg { s with clock, cancelled, pc := .segment (seg.observe edge) }
          (learnEdge L edge) := fun h hseg => by
      rw [hseg]
      rcases h with rfl | h
      · exact .segment rfl hst hx ho hl hq
      · exact h ▸ .segment rfl hst hx ho hl hq
    cases edge with
    | afterFired => exact same (.inl rfl) rfl
    | whileClose | upstreamGone => exact .segment rfl hst hx (fun _ => by simp [Segment.observe]) rfl hq
    | whileOpen =>
      rcases hst with hrun | hun
      · -- the edge is not observed, and the segment has observed no other
        have hx' : seg.exitOnWhileOpen = false := by simp [hx, hrun]
        have hnone : seg.observed = none := by
          by_contra hne
          exact hk.drain seg hpc (by simp [hdr]) hrun hne he
        refine same (.inr ?_) (by simp [Segment.observe, hx'])
        rw [hl, hnone, hrun]
        rfl
      · have hx' : seg.exitOnWhileOpen = true := by simp [hx, hun]
        refine .segment rfl (.inr hun) ?_ (fun h => ?_) ?_ hq
        · simpa [Segment.observe, hx'] using hx
        · rw [hun] at h; cases h
        · simp [Segment.observe, hx', decodeSegmentExit, exitLevel, learn, learnEdge]

theorem agrees_leaves {seg : Segment} (h : Agrees cfg s L) (hpc : s.pc = .segment seg)
    {t : GatedState} (hleft : Leaves s inp seg t es) : AgreesAfter cfg L (t, es) := by
  obtain ⟨hst, -, ho, hl, hq⟩ := h.of_segment hpc
  cases hleft with
  | stopped =>
    refine .left rfl hst (fun h e => ho h ?_) hl hq
    cases hobs : seg.observed with
    | none => rw [hobs] at e; cases e
    | some x => rw [hobs] at e; exact congrArg some e
  | failed => exact .ended (.inr ⟨_, rfl⟩)

theorem agrees_segmentExitStep {x : SegmentExit} (hpc : s.pc = .segmentExit x)
    (hst : Emitting s.state) (ho : s.state = .running → x ≠ .whileOpen)
    (hl : L = exitLevel (baseLevel s.state) x) (hq : Steady s) (hk : KeepsLevel cfg s inp) :
    AgreesAfter cfg L (segmentExitStep cfg s x inp) := by
  refine agreesAfter_moved segmentExitStep_moved ?_
  simp only [segmentExitStep]
  split
  · exact agrees_exit _ _
  rename_i hc
  split
  · exact agrees_exit _ _
  rename_i hexp
  rcases hst with hst | hst
  · simp only [show (s.arrive inp).state = .running from hst]
    cases x with
    | upstreamGone =>
      simp only [afterRunning]
      split
      · exact agrees_exit _ _
      · exact hl ▸ agrees_closeEmit (agrees_toUnresolved hq.2)
    | whileClose =>
      simp only [afterRunning]
      split
      · exact agrees_closeEmit (agrees_toClosed hq.2 (.inl hl))
      · exact .closing rfl hst hl hq
    | whileOpen => exact absurd rfl (ho hst)
    | shutdownOrDuration =>
      rcases hk.limit hpc hst with h | h
      · exact absurd h hc
      · exact absurd h hexp
  · simp only [show (s.arrive inp).state = .unresolved from hst]
    cases x with
    | whileClose => exact agrees_closeEmit (agrees_toClosed hq.2 (.inl hl))
    | upstreamGone | shutdownOrDuration =>
      refine .emitting rfl (.inr hst) ?_ hq
      rw [hl]
      simp [GatedState.arrive, hst, exitLevel, baseLevel, afterUnresolved]
    | whileOpen => exact .emitting rfl (.inl rfl) hl ⟨rfl, hq.2⟩

theorem agrees_closeWaitStep {d : Nat} (hpc : s.pc = .closeWait d) (hst : s.state = .running)
    (hl : L = .whileClose) (hq : Steady s) (hk : KeepsLevel cfg s inp) :
    AgreesAfter cfg L (closeWaitStep cfg s d inp) := by
  have hout : Outside (s.arrive inp).pc := by simp [Outside, GatedState.arrive, hpc]
  have hapc : (s.arrive inp).pc = .closeWait d := hpc
  have commit (t : GatedState) (h : t.afterSatisfied = true) :
      AgreesAfter cfg L (t.closeEmit cfg inp (·.toClosed cfg inp)) :=
    agreesAfter_moved (moved_toClosed t) (agrees_closeEmit (agrees_toClosed h (.inl hl)))
  simp only [closeWaitStep]
  split
  · exact commit _ hq.2
  split
  · exact commit _ hq.2
  split
  · exact commit _ hq.2
  split <;> rename_i he
  · exact agreesAfter_taking (moved_nil (by simp [Outside])) (.emitting rfl (.inl hst) (by
      simp [learnEdge, GatedState.arrive, hst, baseLevel]) hq)
  · exact agreesAfter_taking (moved_nil hout) (.closing hapc hst rfl hq)
  · exact agreesAfter_taking (moved_nil hout) (.closing hapc hst hl hq)
  · exact agreesAfter_taking (moved_toClosed _)
      (agrees_closeEmit (agrees_toClosed hq.2 (.inr ⟨rfl, hk.wait d hpc he⟩)))
  · exact agreesAfter_moved (moved_nil hout) (.closing hapc hst hl hq)

/-! ## A step -/

/-- A step that keeps the level keeps the loop in agreement with it. -/
theorem agrees_step (hw : cfg.ctx.hasWhile = true) (h : Agrees cfg s L) (hk : KeepsLevel cfg s inp)
    (hs : (gatedLoop cfg).step s inp = some r) : AgreesAfter cfg L r := by
  cases stepAt_of_step hs with
  | top hpc => exact agrees_topStep hw hpc h hk
  | evolves hpc hev => exact agrees_evolves h hpc hk hev
  | leaves hpc hl => exact agrees_leaves h hpc hl
  | segmentExit hpc =>
    cases h with
    | left hpc' hst ho hl hq =>
      rw [hpc] at hpc'
      cases hpc'
      exact agrees_segmentExitStep hpc hst ho hl hq hk
    | ended h' => exact absurd h' (not_ended_of_pc hpc (by simp) (by simp))
    | _ h' => rw [hpc] at h'; cases h'
  | closeWait hpc =>
    cases h with
    | closing hpc' hst hl hq =>
      rw [hpc] at hpc'
      exact agrees_closeWaitStep hpc hst hl hq hk
    | ended h' => exact absurd h' (not_ended_of_pc hpc (by simp) (by simp))
    | _ h' => rw [hpc] at h'; cases h'
  | tail hpc => exact .ended (.inr tailStep_returned)

/-- A step takes one edge, the one its poll answered, or none. -/
theorem polled_of_step (hs : (gatedLoop cfg).step s inp = some r) :
    (r.2.any (·.isTook) = false ∧ learn L r.2 = L) ∨
    ∃ e, inp.edge = some e ∧ (∀ p e', .took p e' ∈ r.2 → e' = e) ∧
      r.2.any (·.isTook) = true ∧ learn L r.2 = learnEdge L e := by
  rcases step_cases hs with ⟨-, _, ht⟩ | ⟨-, hnil, -⟩ | ⟨seg, hpc, ⟨seg', -, -, hev⟩ | hl⟩
  · cases ht with
    | moved h => exact .inl ⟨any_isTook_plain h.1, learn_plain h.1⟩
    | @took p e _ he h _ =>
      refine .inr ⟨e, he, fun q e' hm => ?_, rfl, learn_taking p e h⟩
      rcases List.mem_cons.mp hm with hm | hm
      · exact (GatedEvent.took.inj hm).2
      · exact (h.1 _ hm).elim
  · rw [hnil]; exact .inl ⟨rfl, rfl⟩
  · obtain ⟨s', es⟩ := r
    cases hev with
    | woken | moved | called => exact .inl ⟨rfl, rfl⟩
    | settled _ _ hp => cases hp <;> exact .inl ⟨rfl, rfl⟩
    | observed _ he => exact .inr ⟨_, he, by simp, rfl, rfl⟩
  · obtain ⟨s', es⟩ := r
    cases hl <;> exact .inl ⟨rfl, rfl⟩

/-- A loop that agrees has `after:` satisfied, waits for it or has ended. -/
theorem Agrees.satisfied (h : Agrees cfg s L) :
    s.afterSatisfied = true ∨ s.pc = .top ∧ s.state = .pending ∨ Ended s := by
  cases h with
  | pending hpc hst => exact .inr (.inl ⟨hpc, hst⟩)
  | ended h => exact .inr (.inr h)
  | silent _ _ _ ha => exact .inl ha
  | emitting _ _ _ hq | segment _ _ _ _ _ hq | left _ _ _ _ hq | closing _ _ _ hq =>
    exact .inl hq.2

/-- Taking `AfterFired`, or a removal, leaves `after:` satisfied or ends the
loop. -/
theorem taken_satisfies (h : Agrees cfg s L) (hk : KeepsLevel cfg s inp)
    (hs : (gatedLoop cfg).step s inp = some r) {e : GateEdge} (he : inp.edge = some e)
    (hl : e = .afterFired ∨ e = .upstreamGone) : r.1.afterSatisfied = true ∨ Ended r.1 := by
  by_cases ha : s.afterSatisfied = true
  · exact .inl ((frame_of_step hs).satisfied ha)
  rcases h.satisfied.resolve_left ha with ⟨hpc, hst⟩ | hend
  · have ha' : s.afterSatisfied = false := by simpa using ha
    obtain rfl : topStep cfg s inp = r := by
      simpa only [gatedLoop, gatedStep, hpc, Option.some.injEq] using hs
    simp only [topStep, show (s.arrive inp).state = .pending from hst, pendingStep,
      show (s.arrive inp).afterSatisfied = false from ha', he, if_true]
    split
    · exact .inr (.inl ⟨_, rfl⟩)
    split
    · exact .inr (.inl ⟨_, rfl⟩)
    split
    · exact .inr (.inl ⟨_, rfl⟩)
    rcases hl with rfl | rfl
    · exact .inl rfl
    · refine .inr (.inl ⟨.upstreamFinished, ?_⟩)
      simp [taking, GatedState.gone, hk.pending hpc hst ha' he, GatedState.exit]
  · exact .inr (ended_step hend hs).2

/-! ## At rest -/

/-- The loop waits for its gate: it is not in the middle of leaving a segment
or a state. -/
def AtRest (s : GatedState) : Prop :=
  (s.pc = .top ∧ ¬ (s.state = .pending ∧ s.afterSatisfied = true)) ∨
    ∃ seg, s.pc = .segment seg ∧ seg.observed = none

theorem AtRest.not_ended (hr : AtRest s) : ¬ Ended s := by
  rcases hr with ⟨hpc, -⟩ | ⟨seg, hpc, -⟩ <;> exact not_ended_of_pc hpc (by simp) (by simp)

/-- The scenario emits: `Running`, or `Unresolved` under `if_unresolved:
open`. -/
def Active (cfg : GatedConfig) (s : GatedState) : Prop :=
  s.state = .running ∨ s.state = .unresolved ∧ cfg.ctx.ifUnresolved = some .opened

theorem active_iff_of_emitting (hst : Emitting s.state) (hl : L = baseLevel s.state) :
    Active cfg s ↔ LevelOpen cfg L := by
  rcases hst with hst | hst <;> simp [Active, LevelOpen, hl, hst, baseLevel]

theorem not_active_of_silent (hst : Silent s.state) : ¬ Active cfg s := by
  rcases hst with hst | hst <;> simp [Active, hst]

/-- A loop at rest, with no open timer running, is active exactly when the
level it has learned is open and `after:` is satisfied. -/
theorem Agrees.active_iff (h : Agrees cfg s L) (hr : AtRest s)
    (hd : s.debounce.pendingOpenAt = none) :
    Active cfg s ↔ LevelOpen cfg L ∧ s.afterSatisfied = true := by
  cases h with
  | pending hpc hst hl _ =>
    have ha : s.afterSatisfied ≠ true := by
      rcases hr with ⟨-, hn⟩ | ⟨seg, hseg, -⟩
      · exact fun ha => hn ⟨hst, ha⟩
      · rw [hpc] at hseg; cases hseg
    simp [Active, hst, ha]
  | emitting _ hst hl hq => simp [active_iff_of_emitting hst hl, hq.2]
  | silent _ hst hl _ =>
    obtain ⟨hl, -⟩ := hl.resolve_right fun h => h.2.2 hd
    exact iff_of_false (not_active_of_silent hst) (fun h => hl.not_open h.1)
  | segment hpc hst _ _ hl hq =>
    rcases hr with ⟨htop, -⟩ | ⟨seg, hseg, hnone⟩
    · rw [hpc] at htop; cases htop
    · rw [hpc] at hseg
      cases hseg
      rw [hnone] at hl
      simp [active_iff_of_emitting hst hl, hq.2]
  | left hpc | closing hpc =>
    rcases hr with ⟨htop, -⟩ | ⟨seg, hseg, -⟩
    · rw [hpc] at htop; cases htop
    · rw [hpc] at hseg; cases hseg
  | ended hend => exact absurd hend hr.not_ended

end Sonda.Proof.Schedule
