import Sonda.Proof.Schedule.Level

/-!
# A gated loop agrees with the level published to it

The slots tie what is published to what the loop has learned (`Slotted`), and
the loop agrees with what it has learned (`Agrees`); `Linked` is both, in
every state of a run. Hence, at a point where the slots are empty, no timer
runs and the loop is at rest, the scenario emits exactly when the last level
published is open and `after:` has fired (`level_agrees`), in every run whose
polls meet `KeepsLevel`. `reopened_in_drain` is a run in which a gate that
closes and opens again within one drain leaves the scenario paused.
-/

namespace Sonda.Proof.Schedule

open Sonda.Schedule Framework GateBus

variable (value : Option Value) (es : List GatedEvent) (sends : List (Nat × GateEdge))

/-! ## Reading a log -/

/-- The edges sent. -/
def sents (log : List WorldEvent) : List (Nat × GateEdge) :=
  log.filterMap fun
    | .sent c e => some (c, e)
    | .loop _ => none

/-- The events of the loop. -/
def heard (log : List WorldEvent) : List GatedEvent :=
  log.filterMap fun
    | .loop e => some e
    | .sent .. => none

@[simp] theorem sents_append (log es : List WorldEvent) : sents (log ++ es) = sents log ++ sents es :=
  List.filterMap_append

@[simp] theorem heard_append (log es : List WorldEvent) : heard (log ++ es) = heard log ++ heard es :=
  List.filterMap_append

@[simp] theorem sents_sent : sents (sends.map fun s => .sent s.1 s.2) = sends := by
  induction sends with
  | nil => rfl
  | cons s ss ih => exact congrArg (s :: ·) ih

@[simp] theorem heard_sent : heard (sends.map fun s => .sent s.1 s.2) = [] := by
  induction sends with
  | nil => rfl
  | cons s ss ih => exact ih

@[simp] theorem sents_loop : sents (es.map .loop) = [] := by
  induction es with
  | nil => rfl
  | cons s ss ih => exact ih

@[simp] theorem heard_loop : heard (es.map .loop) = es := by
  induction es with
  | nil => rfl
  | cons s ss ih => exact congrArg (s :: ·) ih

/-- The level the loop starts from. -/
def initialLevel (c : Connection) : GateEdge :=
  if c.startUnresolved then .upstreamGone else levelEdge (c.initial.whileGateOpen.getD false)

/-- The last level published to the loop's `while` subscription. -/
def published (c : Connection) (log : List WorldEvent) : GateEdge :=
  publishedBy (initialLevel c) (sents log)

def learned (c : Connection) (log : List WorldEvent) : GateEdge :=
  learn (initialLevel c) (heard log)

/-- The upstream has satisfied the loop's `after:` clause. -/
def afterFired (c : Connection) (log : List WorldEvent) : Bool :=
  firedBy c.initial.afterAlreadyFired (sents log)

theorem publishedBy_append (P : GateEdge) (ss ts : List (Nat × GateEdge)) :
    publishedBy P (ss ++ ts) = publishedBy (publishedBy P ss) ts := List.foldl_append

theorem firedBy_mono {F : Bool} (h : F = true) (ss : List (Nat × GateEdge)) :
    firedBy F ss = true := by
  induction ss generalizing F with
  | nil => exact h
  | cons s ss ih => exact ih (by simp [h])

/-! ## The invariant of the whole -/

/-- The buses, the slots and the loop are in step. -/
structure Linked (cfg : GatedConfig) (c : Connection) (w : World) (log : List WorldEvent) : Prop where
  receives : Receives w.rx
  wired : ∀ b, ∀ sub ∈ (w.buses b).subs, Wired w.rx sub
  agrees : Agrees cfg w.loop (learned c log)
  free : cfg.ctx.hasAfter = false → w.loop.afterSatisfied = true
  slotted : Ended w.loop ∨
    Slotted w.rx w.slots (published c log) (learned c log) (afterFired c log)
        w.loop.afterSatisfied ∧
      (w.loop.afterSatisfied = true → cfg.ctx.hasAfter = false ∨ afterFired c log = true)

variable {cfg : GatedConfig} {c : Connection} {w : World} {log : List WorldEvent}

/-- A call on a bus keeps the whole in step. -/
theorem Linked.publish (h : Linked cfg c w log) (b : Nat) {bus : GateBus}
    {sends : List (Nat × GateEdge)} (hb : ∀ sub ∈ bus.subs, Wired w.rx sub)
    (hs : Sends w.rx sends) :
    Linked cfg c (w.publish b bus sends).1 (log ++ (w.publish b bus sends).2) := by
  have hl : learned c (log ++ (w.publish b bus sends).2) = learned c log := by
    simp [learned, World.publish]
  refine ⟨h.receives, fun b' sub hsub => ?_, hl ▸ h.agrees, h.free, h.slotted.imp id ?_⟩
  · by_cases e : b' = b
    · subst e; exact hb sub (by simpa [World.publish] using hsub)
    · exact h.wired b' sub (by simpa [World.publish, e] using hsub)
  · rintro ⟨hsl, hsound⟩
    refine ⟨?_, fun ha => (hsound ha).imp id fun hf => ?_⟩
    · have := hsl.sendAll hs
      rw [hl]
      simpa [published, afterFired, World.publish, publishedBy_append, firedBy, List.foldl_append] using this
    · simpa [afterFired, World.publish, firedBy, List.foldl_append] using firedBy_mono hf sends

/-- A step of the loop keeps the whole in step. -/
theorem Linked.advance (hw : cfg.ctx.hasWhile = true) (h : Linked cfg c w log) {inp : GatedInput}
    (hk : KeepsLevel cfg w.loop inp) {r : StepResult}
    (hs : (gatedLoop cfg).step w.loop inp = some r)
    (hp : ∀ e, inp.edge = some e → (w.rx.tryRecv w.slots).edge = some e) :
    Linked cfg c (w.advance (w.rx.tryRecv w.slots) r).1
      (log ++ (w.advance (w.rx.tryRecv w.slots) r).2) := by
  have hf : afterFired c (log ++ r.2.map .loop) = afterFired c log := by simp [afterFired]
  have hpub : published c (log ++ r.2.map .loop) = published c log := by simp [published]
  have hlearn : learned c (log ++ r.2.map .loop) = learn (learned c log) r.2 := by
    simp [learned, learn_append]
  have hag : Agrees cfg r.1 (learned c (log ++ r.2.map .loop)) :=
    hlearn ▸ agrees_step hw h.agrees hk hs
  have frame := frame_of_step hs
  have quiet (hno : r.2.any (·.isTook) = false)
      (hsl : Ended r.1 ∨ Slotted w.rx w.slots (published c log) (learn (learned c log) r.2)
        (afterFired c log) r.1.afterSatisfied ∧
        (r.1.afterSatisfied = true → cfg.ctx.hasAfter = false ∨ afterFired c log = true)) :
      Linked cfg c (w.advance (w.rx.tryRecv w.slots) r).1
        (log ++ (w.advance (w.rx.tryRecv w.slots) r).2) := by
    rw [World.advance, hno, if_neg (by simp)]
    exact ⟨h.receives, h.wired, hag, frame.satisfied ∘ h.free, by rwa [hf, hpub, hlearn]⟩
  rcases h.slotted with hend | ⟨hsl, hsound⟩
  · obtain ⟨hplain, hend'⟩ := ended_step hend hs
    exact quiet (any_isTook_plain hplain) (.inl hend')
  rcases polled_of_step (L := learned c log) hs with ⟨hno, hL⟩ | ⟨e, he, honly, hany, hL⟩
  · refine quiet hno (.inr ⟨?_, fun ha => ?_⟩)
    · rw [hL]
      exact ⟨hsl.live, hsl.pending, hsl.learned, hsl.after,
        fun hF => (hsl.fired hF).imp frame.satisfied id⟩
    · rcases frame.fired ha with hs' | ⟨q, hq⟩
      · exact hsound hs'
      · exact absurd rfl (List.any_eq_false.mp hno _ hq)
  · have hpe := hp e he
    have hrx : (w.rx.tryRecv w.slots).rx = w.rx := by
      rcases tryRecv_cases h.receives hsl with ⟨_, -, hr⟩ | ⟨-, hr⟩ <;> rw [hr]
    rw [World.advance, hany, if_pos rfl, hrx]
    refine ⟨h.receives, h.wired, hag, frame.satisfied ∘ h.free, ?_⟩
    rw [hf, hpub, hlearn, hL]
    by_cases hend : Ended r.1
    · exact .inl hend
    refine .inr ⟨(hsl.take h.receives hpe frame.satisfied fun hslot => ?_).2, fun ha => ?_⟩
    · exact (taken_satisfies h.agrees hk hs he
        ((hsl.after e hslot).2.imp And.left And.left)).resolve_right hend
    · rcases frame.fired ha with hs' | ⟨q, hq⟩
      · exact hsound hs'
      -- `AfterFired` comes out of the `after` slot only
      · cases honly q _ hq
        rcases tryRecv_cases h.receives hsl with ⟨e', hslot, hr⟩ | ⟨-, hr⟩ <;> rw [hr] at hpe
        · cases hpe
          rcases (hsl.after _ hslot).2 with ⟨-, hF⟩ | ⟨hne, -⟩
          · exact .inr hF
          · cases hne
        · exact absurd rfl (hsl.pending _ hpe).2

/-- The condition on a run: the steps of the loop keep the level. -/
def LoopKeeps (cfg : GatedConfig) (w : World) : Act → Prop
  | .loop inp => KeepsLevel cfg w.loop inp
  | .tick .. | .subscribeWhile .. | .broadcastUpstreamGone _ => True

instance (w : World) : (a : Act) → Decidable (LoopKeeps cfg w a)
  | .loop inp => inferInstanceAs (Decidable (KeepsLevel cfg w.loop inp))
  | .tick .. | .subscribeWhile .. | .broadcastUpstreamGone _ => isTrue trivial

theorem linked_step (hw : cfg.ctx.hasWhile = true) (h : Linked cfg c w log) {a : Act}
    (hk : LoopKeeps cfg w a) {w' : World} {es : List WorldEvent}
    (hs : worldStep cfg w a = some (w', es)) : Linked cfg c w' (log ++ es) := by
  cases a with
  | tick b value =>
    have hb := sends_tick (h.wired b) value
    have := h.publish b hb.2 hb.1
    rwa [Option.some.inj hs] at this
  | subscribeWhile b spec channel =>
    simp only [worldStep] at hs
    split at hs
    · cases hs
    · rename_i hc
      have hb := sends_subscribeWithWhileSender (h.wired b) spec hc
      have := h.publish b hb.2 hb.1
      rwa [Option.some.inj hs] at this
  | broadcastUpstreamGone b =>
    have := h.publish b (h.wired b) (sends_broadcast (h.wired b))
    rwa [Option.some.inj hs] at this
  | loop inp =>
    simp only [worldStep] at hs
    split at hs
    · rename_i hedge
      obtain ⟨r, hr, hadv⟩ := Option.map_eq_some_iff.mp hs
      have := h.advance hw hk hr fun e he => by
        rcases hedge with hedge | ⟨hnone, -⟩
        · exact hedge ▸ he
        · rw [he] at hnone; cases hnone
      rwa [hadv] at this
    · cases hs

/-! ## The start -/

theorem slotted_start (rx : GateReceiver) (P : GateEdge) (S : Bool) :
    Slotted rx (fun _ => {}) P P false S where
  live _ := rfl
  pending _ h := by cases h
  learned _ := rfl
  after _ h := by cases h
  fired h := by cases h

theorem busAt_subs : (busAt value).subs = [] := by
  cases value <;> rfl

/-- What a wiring leaves behind is in order. -/
structure Connected (c : Connection) : Prop where
  receives : Receives c.rx
  wired : ∀ sub ∈ c.bus.subs, Wired c.rx sub
  sends : Sends c.rx c.sends
  published : publishedBy (initialLevel c) c.sends = initialLevel c
  fired : firedBy false c.sends = c.initial.afterAlreadyFired

theorem connected (wiring : Wiring) : Connected (wiring.connect (busAt value)) := by
  have none_wired {rx : GateReceiver} : ∀ sub ∈ (busAt value).subs, Wired rx sub := by
    simp [busAt_subs]
  cases wiring with
  | subscribe afterSpec whileSpec =>
    simp only [Wiring.connect, GateBus.subscribe, busAt_subs, List.nil_append]
    generalize (if (busAt value).hasValue then (busAt value).lastValue else nan) = v
    refine ⟨⟨rfl, ?_⟩, fun sub hsub => ?_, ?_, ?_, ?_⟩
    · cases afterSpec <;> simp
    · simp only [List.mem_singleton] at hsub
      subst hsub
      exact ⟨by simp [afterChannel, whileChannel], by cases afterSpec <;> simp⟩
    all_goals
      cases afterSpec with
      | none => first | exact .nil | rfl
      | some a =>
        dsimp only [Option.map_some, Option.getD_some]
        rcases Bool.eq_false_or_eq_true (afterEval v a.op a.threshold) with hf | hf <;>
          simp only [hf, if_true, Bool.false_eq_true, if_false] <;>
          first | exact .nil | exact .fired nofun .nil | rfl
  | sender whileSpec =>
    have h := @sends_subscribeWithWhileSender _ _ ⟨none, some { channel := whileChannel }⟩
      none_wired whileSpec after_ne_while.symm
    refine ⟨⟨rfl, .inl rfl⟩, h.2, h.1, ?_, ?_⟩ <;>
      cases value <;> rfl
  | deferred => exact ⟨⟨rfl, .inl rfl⟩, none_wired, .nil, rfl, rfl⟩

theorem linked_start (hw : cfg.ctx.hasWhile = true) (hc : Connected c)
    (ha : c.startUnresolved = true → cfg.ctx.hasAfter = false) (now : Nat) :
    Linked (cfg.wired c) c (.start cfg c now) [] := by
  refine ⟨hc.receives, fun b sub hsub => ?_, ?_, fun hn => ?_, .inr ⟨?_, fun hsat => ?_⟩⟩
  · by_cases e : b = 0
    · subst e; exact hc.wired sub (by simpa [World.start] using hsub)
    · simp [World.start, e] at hsub
  · cases hu : c.startUnresolved with
    | true =>
      refine .emitting rfl (.inr ?_) ?_ ⟨rfl, ?_⟩ <;>
        simp [World.start, GatedState.enter, GatedConfig.wired, hu, ha hu, learned, initialLevel, learn,
          baseLevel, heard]
    | false =>
      refine .pending rfl ?_ ?_ rfl <;>
        simp [World.start, GatedState.enter, GatedConfig.wired, hu, learned, initialLevel, learn, hw,
          heard]
  · show (if cfg.ctx.hasAfter then c.initial.afterAlreadyFired else true) = true
    rw [show cfg.ctx.hasAfter = false from hn, if_neg (by simp)]
  · have := (slotted_start c.rx (initialLevel c)
      (World.start cfg c now).loop.afterSatisfied).sendAll hc.sends
    rwa [hc.published, hc.fired] at this
  · have hsat : (if cfg.ctx.hasAfter then c.initial.afterAlreadyFired else true) = true := hsat
    cases hh : cfg.ctx.hasAfter with
    | false => exact .inl hh
    | true => rw [hh] at hsat; exact .inr hsat

/-! ## Agreement -/

/-- Every edge is consumed, no timer runs and the loop is at rest. -/
@[mk_iff]
structure Quiescent (w : World) : Prop where
  afterSlot : (w.slots afterChannel).edge = none
  whileSlot : (w.slots whileChannel).edge = none
  debounce : w.loop.debounce.pendingOpenAt = none
  rest : AtRest w.loop

/-- At a quiescent point of a run whose loop keeps the level, the scenario
emits exactly when the last level published to it is open and `after:` is
satisfied. -/
theorem level_agrees {wiring : Wiring} {value : Option Value} {now : Nat}
    (hc : c = wiring.connect (busAt value)) (hw : cfg.ctx.hasWhile = true)
    (ha : wiring = .deferred → cfg.ctx.hasAfter = false)
    (h : (gating cfg c).Run (LoopKeeps (cfg.wired c)) (.start cfg c now) w log)
    (hq : Quiescent w) :
    Active cfg w.loop ↔
      LevelOpen cfg (published c log) ∧ (cfg.ctx.hasAfter = false ∨ afterFired c log = true) := by
  have hstart : Linked (cfg.wired c) c (.start cfg c now) [] := by
    refine linked_start hw (hc ▸ connected value wiring) (fun hu => ha ?_) now
    cases wiring with
    | deferred => rfl
    | _ => rw [hc] at hu; cases hu
  have hi : Linked (cfg.wired c) c w log :=
    h.invariant hstart fun hi hk hs => @linked_step (cfg.wired c) _ _ _ hw hi _ hk _ _ hs
  rcases hi.slotted with hend | ⟨hsl, hsound⟩
  · exact absurd hend hq.rest.not_ended
  have hafter : w.loop.afterSatisfied = true ↔ cfg.ctx.hasAfter = false ∨ afterFired c log = true := by
    refine ⟨hsound, fun hf => hf.elim hi.free fun hf => ?_⟩
    exact (hsl.fired hf).resolve_right fun hne => hne hq.afterSlot
  rw [← hafter, ← hsl.learned hq.whileSlot]
  exact hi.agrees.active_iff hq.rest hq.debounce

/-! ## A gate that closes and opens again -/

/-- One event a second while the upstream is above zero. -/
def aboveZero : GatedConfig where
  schedule := {}
  rate := 1
  ctx := { hasWhile := true }

/-- The upstream is at one when the loop subscribes. -/
def startsAtOne : Connection :=
  Wiring.connect (busAt (some 0x3ff0000000000000#64)) (.subscribe none ⟨.greaterThan, 0#64⟩)

/-- The loop runs and emits a tick, the upstream falls to zero, the loop
takes the edge, and then `rest`. -/
def closes (rest : List Act) : List Act :=
  .loop {} :: .loop {} :: .loop {} :: .tick 0 0#64 :: .loop { edge := some .whileClose } :: rest

/-- The upstream is back at one. -/
def reopens : Act := .tick 0 0x3ff0000000000000#64

instance (s : GatedState) : Decidable (AtRest s) :=
  match h : s.pc with
  | .top =>
    decidable_of_iff (¬ (s.state = .pending ∧ s.afterSatisfied = true)) (by simp [AtRest, h])
  | .segment seg => decidable_of_iff (seg.observed = none) (by simp [AtRest, h])
  | .segmentExit _ | .closeWait _ | .exited _ | .returned _ => isFalse (by simp [AtRest, h])

instance (w : World) : Decidable (Quiescent w) := decidable_of_iff' _ (quiescent_iff w)

/-- The gate opens again once the loop has paused. -/
theorem level_agrees_aboveZero : ∃ w log,
    (gating aboveZero startsAtOne).Run (LoopKeeps (aboveZero.wired startsAtOne))
      (.start aboveZero startsAtOne 0) w log ∧
    (Quiescent w ∧ published startsAtOne log = .whileOpen ∧ w.loop.state = .running) ∧
    (Active aboveZero w.loop ↔ LevelOpen aboveZero (published startsAtOne log) ∧
      (aboveZero.ctx.hasAfter = false ∨ afterFired startsAtOne log = true)) :=
  Machine.run_reaches_and
    (closes [.loop {}, .loop {}, .loop {}, reopens, .loop { edge := some .whileOpen }])
    (by decide +kernel) fun _ _ hrun hp => level_agrees rfl rfl (by simp) hrun hp.1

/-- The gate opens again within the drain that took its close: the drain
takes both edges, and the loop pauses below an open gate. -/
theorem reopened_in_drain : ∃ w log,
    (gating aboveZero startsAtOne).Run (fun _ _ => True) (.start aboveZero startsAtOne 0) w log ∧
    (Quiescent w ∧ published startsAtOne log = .whileOpen ∧ w.loop.state = .paused) ∧
    ¬ (Active aboveZero w.loop ↔ LevelOpen aboveZero (published startsAtOne log) ∧
      (aboveZero.ctx.hasAfter = false ∨ afterFired startsAtOne log = true)) :=
  Machine.run_reaches_and
    (closes [reopens, .loop { edge := some .whileOpen }, .loop {}, .loop {}, .loop {}])
    (by decide +kernel) fun _ _ _ ⟨_, hp, hst⟩ => by simp [Active, LevelOpen, hst, hp, aboveZero]

end Sonda.Proof.Schedule
