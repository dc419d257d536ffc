import Sonda.Proof.Schedule.BusCalls

/-!
# What the receivers of one bus learn

`Tuned` ties a receiver whose subscriptions all have one spec to its slot: an
edge in the slot is the level of the last value, and differs from the last one
taken unless one was overwritten since or the receiver was subscribed again;
with the slot empty the level is the one the receiver has learned. Every call
keeps it (`tuned_of_step`), and `receivers_follow_value` reads it off.
-/

namespace Sonda.Proof.Schedule.Bus

open Sonda.Schedule Framework List Option
open GateBus (levelEdge tickSub)

variable {w : BusWorld} {log : List BusEvent}
variable {es : List BusEvent} {w' : BusWorld} {call : BusCall} {j : Nat} {c : Nat}

/-- Every subscription of receiver `i` so far has the spec `spec`. -/
def OneSpec (log : List BusEvent) (i : Nat) (spec : WhileSpec) : Prop :=
  ∀ s initial, .subscribed i s initial ∈ log → s = some spec

theorem OneSpec.of_append {log es : List BusEvent} {i : Nat} {spec : WhileSpec}
    (h : OneSpec (log ++ es) i spec) : OneSpec log i spec :=
  fun s initial hs => h s initial (mem_append_left _ hs)

/-- Receiver `i` and the bus agree that the level is `level`, up to the edge
in the slot. -/
structure Tuned (w : BusWorld) (log : List BusEvent) (i : Nat) (spec : WhileSpec)
    (level : Option Bool) : Prop where
  subs : ∀ sub ∈ w.bus.subs, sub.whileTx = some (whileChannelOf i) →
    sub.spec.whileSpec = some spec ∧ sub.prevWhileOpen = level
  value : w.bus.hasValue = true → Enrolled w.bus i →
    level = some (strictEval w.bus.lastValue spec.op spec.threshold)
  unsubscribed : ¬ Enrolled w.bus i → level = none
  unpublished : w.bus.hasValue = false → i ∈ w.senders → level = none
  pending : ∀ e, (w.slots (whileChannelOf i)).edge = some e → ∃ b, level = some b ∧
    e = levelEdge b ∧ ((heard i log).2 = true ∨ (heard i log).1 ≠ some e)
  empty : (w.slots (whileChannelOf i)).edge = none → learned i log = level ∧
    ∀ t, (heard i log).1 = some t → ∃ b, level = some b ∧ t = levelEdge b

/-! ## The calls keep it -/

variable {i : Nat} {spec : WhileSpec} {level : Option Bool}

/-- A call that does not concern receiver `i`. -/
theorem Tuned.frame (h : Tuned w log i spec level) {log' : List BusEvent}
    (hsubs : ∀ sub, sub.whileTx = some (whileChannelOf i) → (sub ∈ w'.bus.subs ↔ sub ∈ w.bus.subs))
    (hvalue : w'.bus.hasValue = w.bus.hasValue) (hlast : w'.bus.lastValue = w.bus.lastValue)
    (hsenders : i ∈ w'.senders → i ∈ w.senders ∨ level = none)
    (hslot : (w'.slots (whileChannelOf i)).edge = (w.slots (whileChannelOf i)).edge)
    (hlearned : learned i log' = learned i log)
    (hheard : (heard i log').1 = (heard i log).1 ∧ ((heard i log).2 = true → (heard i log').2 = true)) :
    Tuned w' log' i spec level where
  subs sub hsub hc := h.subs sub ((hsubs sub hc).mp hsub) hc
  value hv := by
    rintro ⟨sub, hsub, hc⟩
    rw [hlast]
    exact h.value (hvalue ▸ hv) ⟨sub, (hsubs sub hc).mp hsub, hc⟩
  unsubscribed hno := h.unsubscribed fun ⟨sub, hsub, hc⟩ => hno ⟨sub, (hsubs sub hc).mpr hsub, hc⟩
  unpublished hv hi := by
    rcases hsenders hi with hi | hn
    · exact h.unpublished (hvalue ▸ hv) hi
    · exact hn
  pending e he := by
    rw [hslot] at he
    obtain ⟨b, hb, heb, hd⟩ := h.pending e he
    refine ⟨b, hb, heb, ?_⟩
    rw [hheard.1]
    exact hd.imp_left hheard.2
  empty he := by
    rw [hslot] at he
    rw [hlearned, hheard.1]
    exact h.empty he

/-- A receiver that is not subscribed knows nothing, and nothing waits for it. -/
theorem Tuned.silent (h : Tuned w log i spec level) (hno : ¬ Enrolled w.bus i) :
    level = none ∧ (w.slots (whileChannelOf i)).edge = none ∧ learned i log = none ∧
      (heard i log).1 = none := by
  obtain rfl := h.unsubscribed hno
  have hslot : (w.slots (whileChannelOf i)).edge = none := by
    rw [eq_none_iff_forall_ne_some]
    intro e he
    obtain ⟨b, hb, -⟩ := h.pending e he
    cases hb
  obtain ⟨hlearn, htaken⟩ := h.empty hslot
  refine ⟨rfl, hslot, hlearn, ?_⟩
  rw [eq_none_iff_forall_ne_some]
  intro t ht
  obtain ⟨b, hb, -⟩ := htaken t ht
  cases hb

theorem Tuned.gateEdgeChannel (hw : Sound w log) (h : Tuned w log i spec level) : Tuned { w with
      slots := w.slots.fresh (whileChannelOf w.receivers.length)
      receivers := w.receivers ++ [⟨none, some { channel := whileChannelOf w.receivers.length }⟩]
      senders := w.senders ++ [w.receivers.length] } log i spec level := by
  by_cases hi : i = w.receivers.length
  · subst hi
    obtain ⟨hl, hslot, -⟩ := h.silent hw.unsubscribed
    refine h.frame (fun _ _ => Iff.rfl) rfl rfl (fun _ => .inr hl) ?_ rfl ⟨rfl, id⟩
    dsimp only
    rw [fresh_same, hslot]
  · refine h.frame (fun _ _ => Iff.rfl) rfl rfl (fun hs => .inl ?_) ?_ rfl ⟨rfl, id⟩
    · rcases mem_append.mp hs with hs | hs
      · exact hs
      · exact absurd (mem_singleton.mp hs) hi
    · dsimp only
      rw [fresh_other w.slots fun hc => hi (whileChannelOf_inj hc)]

/-- What an event and the edges that are sent with it leave a receiver with. -/
theorem heard_event (log : List BusEvent) (i : Nat) (x : BusEvent) (slots : Slots)
    (ss : List (Nat × GateEdge)) :
    learned i (log ++ x :: sentEvents slots ss) = learns i (learned i log) x ∧
      (heard i (log ++ x :: sentEvents slots ss)).1 = (hears i (heard i log) x).1 ∧
      ((hears i (heard i log) x).2 = true → (heard i (log ++ x :: sentEvents slots ss)).2 = true) ∧
      ((slots (whileChannelOf i)).edge ≠ none → (∃ s ∈ ss, s.1 = whileChannelOf i) →
        (heard i (log ++ x :: sentEvents slots ss)).2 = true) := by
  rw [heard_append, learned_append, foldl_cons, foldl_cons, learned_sentEvents]
  exact ⟨rfl, heard_sentEvents i ss _ slots⟩

/-- The events of a subscription of another receiver. -/
theorem heard_subscribed_other (hj : j ≠ i) (s : Option WhileSpec) (initial : InitialState)
    (slots : Slots) (ss : List (Nat × GateEdge)) :
    learned i (log ++ .subscribed j s initial :: sentEvents slots ss) = learned i log ∧
      (heard i (log ++ .subscribed j s initial :: sentEvents slots ss)).1 = (heard i log).1 ∧
      ((heard i log).2 = true →
        (heard i (log ++ .subscribed j s initial :: sentEvents slots ss)).2 = true) := by
  obtain ⟨hl, h₁, h₂, -⟩ := heard_event log i (.subscribed j s initial) slots ss
  simp only [learns, hears, if_neg hj] at hl h₁ h₂
  exact ⟨hl, h₁, h₂⟩

/-- A `while` slot after a subscription: that of the new receiver is empty. -/
theorem edge_subscribe (slots : Slots) (bus : GateBus) (s : SubscriptionSpec) (n i : Nat) :
    (((slots.fresh (afterChannelOf n)).fresh (whileChannelOf n)).sendAll
      (bus.subscribe s (afterChannelOf n) (whileChannelOf n)).2.1 (whileChannelOf i)).edge =
        if i = n then none else (slots (whileChannelOf i)).edge := by
  have hno : ∀ p ∈ (bus.subscribe s (afterChannelOf n) (whileChannelOf n)).2.1,
      p.1 ≠ whileChannelOf i := by
    intro p hp hpc
    rw [mem_subscribe hp] at hpc
    exact while_ne_after i n hpc.symm
  rw [sendAll_edge_other hno]
  split
  · rename_i hi
    rw [hi, fresh_same]
  · rename_i hi
    rw [fresh_other _ fun hc => hi (whileChannelOf_inj hc), fresh_other _ (while_ne_after i n)]

/-- A new subscription to another channel is none of the receiver's. -/
theorem mem_subs_of_other {subs : List Subscription} {new sub : Subscription}
    (hnew : new.whileTx ≠ some c) (hc : sub.whileTx = some c) : sub ∈ subs ++ [new] ↔ sub ∈ subs := by
  rw [mem_append, mem_singleton]
  refine ⟨fun h => h.resolve_right fun hsub => ?_, .inl⟩
  rw [hsub] at hc
  exact hnew hc

/-- All the receiver just made knows is the initial state. -/
theorem Tuned.subscribe_self (hw : Sound w log) (h : Tuned w log w.receivers.length spec level)
    {s : SubscriptionSpec} (hspec : s.whileSpec = some spec)
    (hs : busCallStep GateBus.tick w (.subscribe s) = some (w', es)) :
    Tuned w' (log ++ es) w.receivers.length spec (some (strictEval
      (if w.bus.hasValue then w.bus.lastValue else nan) spec.op spec.threshold)) := by
  cases hs
  obtain ⟨-, -, -, htaken⟩ := h.silent hw.unsubscribed
  set n := w.receivers.length with hn
  have hempty := (edge_subscribe w.slots w.bus s n n).trans (if_pos rfl)
  have hopen : (w.bus.subscribe s (afterChannelOf n) (whileChannelOf n)).2.2.2.whileGateOpen =
      some (strictEval (if w.bus.hasValue then w.bus.lastValue else nan) spec.op
        spec.threshold) := by
    show s.whileSpec.map _ = _
    rw [hspec]
    rfl
  obtain ⟨hlearned', htaken', -⟩ := heard_event log n
    (.subscribed n s.whileSpec (w.bus.subscribe s (afterChannelOf n) (whileChannelOf n)).2.2.2)
    ((w.slots.fresh (afterChannelOf n)).fresh (whileChannelOf n))
    (w.bus.subscribe s (afterChannelOf n) (whileChannelOf n)).2.1
  simp only [learns, hears, if_true] at hlearned' htaken'
  refine ⟨?_, ?_, ?_, ?_, ?_, ?_⟩
  · intro sub hsub hc
    rcases mem_append.mp hsub with hsub | hsub
    · exact absurd ⟨sub, hsub, hc⟩ hw.unsubscribed
    · rw [mem_singleton] at hsub
      subst hsub
      exact ⟨hspec, hopen⟩
  · intro hv _
    have hv' : w.bus.hasValue = true := hv
    rw [if_pos hv']
    rfl
  · intro hno
    refine absurd ⟨_, mem_append_right _ (mem_singleton_self _), ?_⟩ hno
    rw [hspec]
    rfl
  · intro _ hsend
    exact absurd (hw.senders n hsend) (lt_irrefl _)
  · intro e he
    exact absurd (hempty.symm.trans he) (by simp)
  · intro _
    refine ⟨by rw [hlearned', hopen]; rfl, fun t ht => ?_⟩
    rw [htaken', htaken] at ht
    cases ht

theorem Tuned.subscribe (hw : Sound w log) (h : Tuned w log i spec level) {s : SubscriptionSpec}
    (hs : busCallStep GateBus.tick w (.subscribe s) = some (w', es))
    (hone : OneSpec (log ++ es) i spec) : ∃ level', Tuned w' (log ++ es) i spec level' := by
  by_cases hi : i = w.receivers.length
  · subst hi
    refine ⟨_, h.subscribe_self hw ?_ hs⟩
    cases hs
    exact hone _ _ (mem_append_right _ mem_cons_self)
  · cases hs
    refine ⟨level, h.frame (fun sub hc => mem_subs_of_other (fun hnew => ?_) hc) rfl rfl .inl ?_ ?_ ?_⟩
    · obtain ⟨-, -, hnew⟩ := map_eq_some_iff.mp hnew
      exact absurd (whileChannelOf_inj hnew).symm hi
    · exact (edge_subscribe w.slots w.bus s _ i).trans (if_neg hi)
    · exact (heard_subscribed_other (Ne.symm hi) ..).1
    · exact (heard_subscribed_other (Ne.symm hi) ..).2

/-- What `GateBus::subscribe_with_while_sender` sends and says: its level, if
it has one. -/
theorem mem_subscribeWithWhileSender {bus : GateBus} {s : WhileSpec} {p : Nat × GateEdge} :
    p ∈ (bus.subscribeWithWhileSender s c).2.1 ↔ bus.hasValue = true ∧
      p = (c, levelEdge (strictEval bus.lastValue s.op s.threshold)) := by
  unfold GateBus.subscribeWithWhileSender
  cases bus.hasValue <;> simp

theorem mem_subs_subscribeWithWhileSender {bus : GateBus} {s : WhileSpec} {sub : Subscription}
    (h : sub ∈ (bus.subscribeWithWhileSender s c).1.subs) : sub ∈ bus.subs ∨
      sub.spec.whileSpec = some s ∧
      sub.prevWhileOpen = (bus.subscribeWithWhileSender s c).2.2.whileGateOpen := by
  refine (mem_append.mp h).imp_right fun hsub => ?_
  rw [mem_singleton] at hsub
  subst hsub
  exact ⟨rfl, rfl⟩

/-- A sender subscribes to a bus that has a value: the level is sent. -/
theorem Tuned.subscribeWithWhileSender_value (h : Tuned w log i spec level)
    (hv : w.bus.hasValue = true) (hj : i ∈ w.senders)
    (hs : busCallStep GateBus.tick w (.subscribeWithWhileSender spec i) = some (w', es)) :
    Tuned w' (log ++ es) i spec (some (strictEval w.bus.lastValue spec.op spec.threshold)) := by
  simp only [busCallStep, if_pos hj] at hs
  cases hs
  set r := w.bus.subscribeWithWhileSender spec (whileChannelOf i) with hr
  obtain ⟨-, -, hmarked, -⟩ := heard_event log i (.subscribed i (some spec) r.2.2) w.slots r.2.1
  have hopen : r.2.2.whileGateOpen = some (strictEval w.bus.lastValue spec.op spec.threshold) :=
    if_pos hv
  have hslot : (w.slots.sendAll r.2.1 (whileChannelOf i)).edge =
      some (levelEdge (strictEval w.bus.lastValue spec.op spec.threshold)) := by
    refine (sendAll_edge _ fun p hp _ => ?_).2 ?_
    · rw [(mem_subscribeWithWhileSender.mp hp).2]
    · exact ⟨_, mem_subscribeWithWhileSender.mpr ⟨hv, rfl⟩, rfl⟩
  refine ⟨fun sub hsub hc => ?_, fun _ _ => rfl, fun hno => ?_, fun hv' => ?_, fun e he => ?_,
    fun he => ?_⟩
  · rcases mem_subs_subscribeWithWhileSender hsub with hsub | ⟨hspec, hprev⟩
    · obtain ⟨hspec, hprev⟩ := h.subs sub hsub hc
      exact ⟨hspec, hprev.trans (h.value hv ⟨sub, hsub, hc⟩)⟩
    · exact ⟨hspec, hprev.trans hopen⟩
  · exact absurd ⟨_, mem_append_right _ (mem_singleton_self _), rfl⟩ hno
  · exact absurd (hv.symm.trans hv') (by decide)
  · rw [hslot] at he
    exact ⟨_, rfl, (some.inj he).symm, .inl (hmarked (by simp [hears]))⟩
  · rw [hslot] at he
    cases he

/-- A sender subscribes to a bus without a value: nothing is sent. -/
theorem Tuned.subscribeWithWhileSender_none (h : Tuned w log i spec none)
    (hv : w.bus.hasValue = false) (hj : i ∈ w.senders)
    (hs : busCallStep GateBus.tick w (.subscribeWithWhileSender spec i) = some (w', es)) :
    Tuned w' (log ++ es) i spec none := by
  simp only [busCallStep, if_pos hj] at hs
  cases hs
  set r := w.bus.subscribeWithWhileSender spec (whileChannelOf i) with hr
  obtain ⟨hlearned, htaken, -⟩ := heard_event log i (.subscribed i (some spec) r.2.2) w.slots r.2.1
  simp only [learns, hears, if_true] at hlearned htaken
  have hopen : r.2.2.whileGateOpen = none := by
    show (if w.bus.hasValue = true then _ else _) = _
    rw [hv]
    rfl
  have hno : ∀ p ∈ r.2.1, p.1 ≠ whileChannelOf i := by
    intro p hp
    have := (mem_subscribeWithWhileSender.mp hp).1
    rw [hv] at this
    cases this
  have hslot : (w.slots.sendAll r.2.1 (whileChannelOf i)).edge = (w.slots (whileChannelOf i)).edge :=
    sendAll_edge_other hno
  refine ⟨fun sub hsub hc => ?_, fun hv' => ?_, fun _ => rfl, fun _ _ => rfl, fun e he => ?_,
    fun he => ?_⟩
  · rcases mem_subs_subscribeWithWhileSender hsub with hsub | ⟨hspec, hprev⟩
    · exact h.subs sub hsub hc
    · exact ⟨hspec, hprev.trans hopen⟩
  · exact absurd (hv.symm.trans hv') (by decide)
  · rw [hslot] at he
    obtain ⟨b, hb, -⟩ := h.pending e he
    cases hb
  · rw [hslot] at he
    rw [hlearned, htaken, hopen, none_or]
    exact h.empty he

theorem Tuned.subscribeWithWhileSender (h : Tuned w log i spec level) {s : WhileSpec}
    (hj : j ∈ w.senders)
    (hs : busCallStep GateBus.tick w (.subscribeWithWhileSender s j) = some (w', es))
    (hone : OneSpec (log ++ es) i spec) : ∃ level', Tuned w' (log ++ es) i spec level' := by
  have hs' := hs
  simp only [busCallStep, if_pos hj] at hs'
  cases hs'
  by_cases hi : i = j
  · subst hi
    obtain rfl : s = spec :=
      some.inj (hone _ _ (mem_append_right _ mem_cons_self))
    cases hv : w.bus.hasValue with
    | true => exact ⟨_, h.subscribeWithWhileSender_value hv hj hs⟩
    | false =>
      obtain rfl := h.unpublished hv hj
      exact ⟨_, h.subscribeWithWhileSender_none hv hj hs⟩
  · refine ⟨level, h.frame (fun sub hc => mem_subs_of_other (fun hnew => ?_) hc) rfl rfl .inl ?_ ?_ ?_⟩
    · exact hi (whileChannelOf_inj (some.inj hnew)).symm
    · refine sendAll_edge_other fun p hp hpc => ?_
      rw [(mem_subscribeWithWhileSender.mp hp).2] at hpc
      exact hi (whileChannelOf_inj hpc).symm
    · exact (heard_subscribed_other (Ne.symm hi) ..).1
    · exact (heard_subscribed_other (Ne.symm hi) ..).2

/-- The edges of a tick on the channel of a tuned receiver: the new level, if
it is not the old one. -/
theorem Tuned.mem_tickEvery_iff (hw : Sound w log) (h : Tuned w log i spec level) (v : Value)
    (p : Nat × GateEdge) (hc : p.1 = whileChannelOf i) :
    p ∈ (w.bus.tickEvery v).2 ↔ Enrolled w.bus i ∧
      level ≠ some (strictEval v spec.op spec.threshold) ∧
      p.2 = levelEdge (strictEval v spec.op spec.threshold) := by
  constructor
  · intro hp
    obtain ⟨sub, hsub, hp⟩ := mem_tickEvery hp
    rcases mem_tickSub hp with ⟨ha, -⟩ | ⟨s, hs, htx, hne, he⟩
    · obtain ⟨j, hj⟩ := hw.afterTx sub hsub _ ha
      exact absurd (hc.symm.trans hj) (while_ne_after i j)
    · rw [hc] at htx
      obtain ⟨hspec, hprev⟩ := h.subs sub hsub htx
      obtain rfl : s = spec := some.inj (hs.symm.trans hspec)
      rw [hprev] at hne
      exact ⟨⟨sub, hsub, htx⟩, hne, he⟩
  · rintro ⟨⟨sub, hsub, htx⟩, hne, he⟩
    obtain ⟨hspec, hprev⟩ := h.subs sub hsub htx
    rw [← hprev] at hne
    refine mem_flatMap.mpr ⟨sub, hsub, ?_⟩
    rw [show p = (whileChannelOf i, levelEdge (strictEval v spec.op spec.threshold)) from
      Prod.ext hc he]
    exact level_mem_tickSub hspec htx hne

theorem levelEdge_inj {a b : Bool} (h : levelEdge a = levelEdge b) : a = b := by
  cases a <;> cases b <;> first | rfl | cases h

/-- The slot of a subscribed receiver after a tick: as it was if the level
stays, with the edge of the new level if not. -/
theorem Tuned.tickEvery_slot (hw : Sound w log) (h : Tuned w log i spec level) (v : Value)
    (hsub : Enrolled w.bus i) :
    level = some (strictEval v spec.op spec.threshold) ∧
        (w.slots.sendAll (w.bus.tickEvery v).2 (whileChannelOf i)).edge =
          (w.slots (whileChannelOf i)).edge ∨ level ≠ some (strictEval v spec.op spec.threshold) ∧
        (∃ p ∈ (w.bus.tickEvery v).2, p.1 = whileChannelOf i) ∧
        (w.slots.sendAll (w.bus.tickEvery v).2 (whileChannelOf i)).edge =
          some (levelEdge (strictEval v spec.op spec.threshold)) := by
  have hmem := h.mem_tickEvery_iff hw v
  by_cases hsame : level = some (strictEval v spec.op spec.threshold)
  · exact .inl ⟨hsame, sendAll_edge_other fun p hp hpc => ((hmem p hpc).mp hp).2.1 hsame⟩
  · have hex : ∃ p ∈ (w.bus.tickEvery v).2, p.1 = whileChannelOf i :=
      ⟨(_, _), (hmem (whileChannelOf i, _) rfl).mpr ⟨hsub, hsame, rfl⟩, rfl⟩
    exact .inr ⟨hsame, hex, (sendAll_edge _ fun p hp hpc => ((hmem p hpc).mp hp).2.2).2 hex⟩

theorem Tuned.tickEvery (hw : Sound w log) (h : Tuned w log i spec level) (v : Value) :
    ∃ level', Tuned
      { w with bus := (w.bus.tickEvery v).1, slots := w.slots.sendAll (w.bus.tickEvery v).2 }
      (log ++ .published v :: sentEvents w.slots (w.bus.tickEvery v).2) i spec level' := by
  have hmem := h.mem_tickEvery_iff hw v
  obtain ⟨hlearned, htaken, hkept, hover⟩ :=
    heard_event log i (.published v) w.slots (w.bus.tickEvery v).2
  dsimp only [learns, hears] at hlearned htaken hkept
  by_cases hsub : Enrolled w.bus i
  · refine ⟨some (strictEval v spec.op spec.threshold), fun sub hs hc => ?_, fun _ _ => rfl,
      fun hno => ?_, fun hv => ?_, fun e he => ?_, fun he => ?_⟩
    · obtain ⟨sub', hs', rfl⟩ := mem_map.mp hs
      rw [tickSub_whileTx] at hc
      have hspec := (h.subs sub' hs' hc).1
      rw [tickSub_spec]
      exact ⟨hspec, (settledAt_tickSub v sub').level spec (by rwa [tickSub_spec])⟩
    · obtain ⟨sub, hs, hc⟩ := hsub
      exact absurd ⟨_, mem_map_of_mem hs, by rwa [tickSub_whileTx]⟩ hno
    · cases hv
    · -- the edge in the slot: an old one of the same level, or the new one
      rw [htaken]
      rcases h.tickEvery_slot hw v hsub with ⟨hsame, hslot⟩ | ⟨hnew, hex, hslot⟩
      · obtain ⟨b, hb, heb, hd⟩ := h.pending e (hslot.symm.trans he)
        exact ⟨b, hsame.symm.trans hb, heb, hd.imp_left hkept⟩
      · obtain rfl := some.inj (hslot.symm.trans he)
        refine ⟨_, rfl, rfl, ?_⟩
        by_cases hold : (w.slots (whileChannelOf i)).edge = none
        · right
          intro ht
          obtain ⟨b, hb, heb⟩ := (h.empty hold).2 _ ht
          rw [levelEdge_inj heb] at hnew
          exact hnew hb
        · exact .inl (hover hold hex)
    · rcases h.tickEvery_slot hw v hsub with ⟨hsame, hslot⟩ | ⟨-, -, hslot⟩
      · rw [htaken, hlearned, ← hsame]
        exact h.empty (hslot.symm.trans he)
      · exact absurd (hslot.symm.trans he) (by simp)
  · obtain ⟨rfl, hslot, hl, ht⟩ := h.silent hsub
    have hnone : ¬ Enrolled (w.bus.tickEvery v).1 i := by
      rintro ⟨sub, hs, hc⟩
      obtain ⟨sub', hs', rfl⟩ := mem_map.mp hs
      rw [tickSub_whileTx] at hc
      exact hsub ⟨sub', hs', hc⟩
    have hempty : (w.slots.sendAll (w.bus.tickEvery v).2 (whileChannelOf i)).edge = none := by
      rw [sendAll_edge_other fun p hp hpc => hsub ((hmem p hpc).mp hp).1, hslot]
    refine ⟨none, fun sub hs hc => absurd ⟨sub, hs, hc⟩ hnone, fun _ he => absurd he hnone,
      fun _ => rfl, fun _ _ => rfl, fun e he => ?_, fun _ => ⟨hlearned.trans hl, fun t ht' => ?_⟩⟩
    · exact absurd (hempty.symm.trans he) (by simp)
    · rw [htaken, ht] at ht'
      cases ht'

theorem learned_took_level (log : List BusEvent) (i : Nat) (b : Bool) :
    learned i (log ++ [.took i (levelEdge b)]) = some b ∧
      heard i (log ++ [.took i (levelEdge b)]) = (some (levelEdge b), false) := by
  cases b <;> simp [levelEdge, learns, hears]

theorem learned_took_other (log : List BusEvent) {e : GateEdge} (h : ¬ TookLevel i (.took j e)) :
    learned i (log ++ [.took j e]) = learned i log ∧ heard i (log ++ [.took j e]) = heard i log := by
  have hj : j = i → e ≠ .whileOpen ∧ e ≠ .whileClose := by
    rintro rfl
    exact ⟨fun he => h (.inl (by rw [he])), fun he => h (.inr (by rw [he]))⟩
  rw [learned_append, heard_append]
  by_cases hji : j = i
  · obtain ⟨ho, hc⟩ := hj hji
    cases e <;> first | exact ⟨rfl, rfl⟩ | exact absurd rfl ho | exact absurd rfl hc
  · cases e <;> simp [learns, hears, hji]

theorem Tuned.tryRecv (h : Tuned w log i spec level) (hr : TryRecv w j w' es) :
    Tuned w' (log ++ es) i spec level := by
  -- an edge that is not the receiver's
  have other {e : GateEdge} {c : Nat} (ht : ¬ TookLevel i (.took j e)) (hc : whileChannelOf i ≠ c) :
      Tuned { w with slots := Slots.clear w.slots c } (log ++ [.took j e]) i spec level := by
    obtain ⟨hl, hh⟩ := learned_took_other log ht
    refine h.frame (fun _ _ => Iff.rfl) rfl rfl .inl ?_ hl (by rw [hh]; exact ⟨rfl, id⟩)
    dsimp only
    rw [clear_other w.slots hc]
  cases hr with
  | nothing => rwa [append_nil]
  | after hslot => exact other (by rintro (ht | ht) <;> cases ht) (while_ne_after i j)
  | level e hslot =>
    by_cases hji : j = i
    · subst hji
      obtain ⟨b, rfl, rfl, -⟩ := h.pending e hslot
      obtain ⟨hl, hh⟩ := learned_took_level log j b
      refine ⟨h.subs, h.value, h.unsubscribed, h.unpublished, fun e he => ?_, fun _ => ?_⟩
      · rw [clear_edge] at he
        cases he
      · rw [hl, hh]
        exact ⟨rfl, fun t ht => ⟨b, rfl, (some.inj ht).symm⟩⟩
    · refine other ?_ fun hc => hji (whileChannelOf_inj hc).symm
      rintro (ht | ht) <;> exact hji (by injection ht)

theorem tuned_of_step (hw : Sound w log) (h : Tuned w log i spec level)
    (hs : busCallStep GateBus.tick w call = some (w', es)) (hone : OneSpec (log ++ es) i spec) :
    ∃ level', Tuned w' (log ++ es) i spec level' := by
  cases call with
  | gateEdgeChannel =>
    cases hs
    rw [append_nil]
    exact ⟨level, h.gateEdgeChannel hw⟩
  | subscribe s => exact h.subscribe hw hs hone
  | subscribeWithWhileSender s j =>
    exact h.subscribeWithWhileSender (hw.subscribeWithWhileSender hs).1 hs hone
  | tick v =>
    cases hs
    rw [tick_eq_tickEvery hw.settled v]
    exact h.tickEvery hw v
  | tryRecv j => exact ⟨level, h.tryRecv (tryRecv_of_step hw hs)⟩

/-! ## The edges a receiver takes -/

/-- Two level edges receiver `i` takes one after the other differ, unless
something disturbed its slot between them. -/
def Alternates (log : List BusEvent) (i : Nat) : Prop :=
  ∀ before mid after e, log = before ++ .took i e :: mid ++ .took i e :: after →
    TookLevel i (.took i e) → (∀ x ∈ mid, ¬ TookLevel i x) → ∃ x ∈ mid, Disturbs i x

theorem took_of_step (hw : Sound w log) (hs : busCallStep GateBus.tick w call = some (w', es))
    {e : GateEdge} (ht : TookLevel i (.took i e)) (hm : .took i e ∈ es) :
    es = [.took i e] ∧ (w.slots (whileChannelOf i)).edge = some e := by
  have hsent {slots : Slots} {ss : List (Nat × GateEdge)} {x : BusEvent} (hx : .took i e ≠ x) :
      .took i e ∉ x :: sentEvents slots ss := by
    intro h
    obtain ⟨p, -, o, hp⟩ := mem_sentEvents ((mem_cons.mp h).resolve_left hx)
    cases hp
  cases call with
  | gateEdgeChannel =>
    cases hs
    cases hm
  | subscribe | tick =>
    cases hs
    exact absurd hm (hsent (by simp))
  | subscribeWithWhileSender s j =>
    have hj := (hw.subscribeWithWhileSender hs).1
    simp only [busCallStep, if_pos hj] at hs
    cases hs
    exact absurd hm (hsent (by simp))
  | tryRecv j =>
    cases tryRecv_of_step hw hs with
    | nothing => cases hm
    | after =>
      rw [mem_singleton] at hm
      rw [hm] at ht
      rcases ht with ht | ht <;> cases ht
    | level e' hslot =>
      rw [mem_singleton] at hm
      injection hm with hj he
      subst hj he
      exact ⟨rfl, hslot⟩

theorem alternates_of_step (hw : Sound w log) (h : Tuned w log i spec level) (ha : Alternates log i)
    (hs : busCallStep GateBus.tick w call = some (w', es)) : Alternates (log ++ es) i := by
  intro before mid after e hlog ht hmid
  rcases append_eq_cut hlog with ⟨mid', hold, -⟩ | ⟨mid', hcut, hes⟩
  · exact ha before mid mid' e hold ht hmid
  · have hm : .took i e ∈ es := by
      rw [hes]
      exact mem_append_right _ mem_cons_self
    obtain ⟨hone, hslot⟩ := took_of_step hw hs ht hm
    have hnil : mid' = [] := by
      have hlen := congrArg length (hes.symm.trans hone)
      simp only [length_append, length_cons, length_nil] at hlen
      exact length_eq_zero_iff.mp (by omega)
    rw [hnil, append_nil] at hcut
    obtain ⟨hlast, hsince⟩ := heard_since before ht hmid
    rw [hcut] at hlast hsince
    obtain ⟨-, -, -, hd⟩ := h.pending e hslot
    exact hsince (hd.resolve_right (not_not.mpr hlast))

/-! ## Whole runs -/

theorem tuned_start (i : Nat) (spec : WhileSpec) : Tuned {} [] i spec none where
  subs _ hsub := by cases hsub
  value hv := by cases hv
  unsubscribed _ := rfl
  unpublished _ _ := rfl
  pending _ he := by cases he
  empty _ := ⟨rfl, nofun⟩

theorem followed_of_run {w : BusWorld} {log : List BusEvent}
    (h : (busCalls GateBus.tick).Run (fun _ _ => True) {} w log) :
    Sound w log ∧ ∀ i spec, OneSpec log i spec →
      (∃ level, Tuned w log i spec level) ∧ Alternates log i := by
  refine h.invariant (I := fun w log => Sound w log ∧ ∀ i spec, OneSpec log i spec →
    (∃ level, Tuned w log i spec level) ∧ Alternates log i) ⟨sound_start, fun i spec _ => ?_⟩ ?_
  · refine ⟨⟨none, tuned_start i spec⟩, fun before mid after e hlog => ?_⟩
    simp at hlog
  · intro w log call w' es ⟨hw, ht⟩ _ hs
    refine ⟨hw.step hs, fun i spec hone => ?_⟩
    obtain ⟨⟨level, hi⟩, ha⟩ := ht i spec hone.of_append
    exact ⟨tuned_of_step hw hi hs hone, alternates_of_step hw hi ha hs⟩

/-- In every interleaving of calls on one bus, a `while` receiver whose
subscriptions have one spec and whose slot is empty knows the level of the
last value published; two edges it takes in a row differ, unless an edge for
it was overwritten between them or its sender subscribed again; and nothing
would be different without the fast path of `tick`. -/
theorem receivers_follow_value {w : BusWorld} {log : List BusEvent}
    (h : (busCalls GateBus.tick).Run (fun _ _ => True) {} w log) :
    (∀ i spec initial v, OneSpec log i spec → .subscribed i (some spec) initial ∈ log →
      lastPublished log = some v → (w.slots (whileChannelOf i)).edge = none →
      learned i log = some (strictEval v spec.op spec.threshold)) ∧
    (∀ i spec, OneSpec log i spec → Alternates log i) ∧
    ∀ calls, (busCalls GateBus.tick).exec (fun _ _ => True) {} calls =
      (busCalls GateBus.tickEvery).exec (fun _ _ => True) {} calls := by
  obtain ⟨hw, ht⟩ := followed_of_run h
  refine ⟨fun i spec initial v hone hsub hv hslot => ?_, fun i spec hone => (ht i spec hone).2,
    fun calls => exec_eq_exec_tickEvery calls sound_start⟩
  obtain ⟨⟨level, hi⟩, -⟩ := ht i spec hone
  have hpub := hw.published
  rw [hv] at hpub
  split at hpub
  · rename_i hval
    cases hpub
    rw [(hi.empty hslot).1, hi.value hval (hw.enrolled i spec initial hsub)]
  · cases hpub

/-- The bits of `1.0`. -/
def one : Value := 0x3ff0000000000000#64

/-- The spec `> 0`. -/
def positive : WhileSpec := ⟨.greaterThan, 0⟩

/-- Receiver 0 subscribes to `> 0` after `1.0` was published. -/
def subscribedOpen : BusEvent := .subscribed 0 (some positive) ⟨false, some true, one⟩

/-- Receiver 0 takes the edge of its subscription. Then `0.0` is published, and it takes
another. -/
theorem receivers_follow_value_openClose :
    ∃ w log, (busCalls GateBus.tick).Run (fun _ _ => True) {} w log ∧
      (log = [.published one, subscribedOpen, .sent 1 .whileOpen false, .took 0 .whileOpen,
          .published 0, .sent 1 .whileClose false, .took 0 .whileClose] ∧
        (w.slots (whileChannelOf 0)).edge = none) ∧
      learned 0 log = some (strictEval 0 .greaterThan 0) ∧ Alternates log 0 := by
  refine Machine.run_reaches_and [.gateEdgeChannel, .tick one, .subscribeWithWhileSender positive 0,
    .tryRecv 0, .tick 0, .tryRecv 0] (by decide) fun w log hrun ⟨hlog, hslot⟩ => ?_
  have hone : OneSpec log 0 positive := by
    intro s initial hm
    rw [hlog] at hm
    simp only [subscribedOpen, mem_cons, reduceCtorEq, BusEvent.subscribed.injEq, false_or, or_false,
      not_mem_nil] at hm
    exact hm.2.1
  have hsub : subscribedOpen ∈ log := by simp [hlog]
  obtain ⟨ha, hb, -⟩ := receivers_follow_value hrun
  exact ⟨ha 0 _ _ _ hone hsub (by rw [hlog]; rfl) hslot, hb 0 _ hone⟩

/-- One sender can be subscribed twice. A bus that has a value sends its level
to it again, and the receiver takes the same edge twice; under two specs, it
ends up with the level of one of them. -/
theorem subscribed_again_takes_edge_again :
    (∃ w log, (busCalls GateBus.tick).Run (fun _ _ => True) {} w log ∧
      ∃ before mid after, log = before ++ .took 0 .whileOpen :: mid ++ .took 0 .whileOpen :: after ∧
        (∀ e, .took 0 e ∉ mid) ∧ ∀ e, .sent (whileChannelOf 0) e true ∉ mid) ∧
    ∃ w log spec initial v, (busCalls GateBus.tick).Run (fun _ _ => True) {} w log ∧
      .subscribed 0 (some spec) initial ∈ log ∧ lastPublished log = some v ∧
      (w.slots (whileChannelOf 0)).edge = none ∧
      learned 0 log = some !(strictEval v spec.op spec.threshold) := by
  constructor
  · obtain ⟨w, log, hrun, hlog⟩ := Machine.run_reaches (busCalls GateBus.tick) (fun _ _ => True) {}
      [.gateEdgeChannel, .tick one, .subscribeWithWhileSender positive 0, .tryRecv 0,
        .subscribeWithWhileSender positive 0, .tryRecv 0]
      (fun _ log => log = [.published one, subscribedOpen, .sent 1 .whileOpen false] ++
        .took 0 .whileOpen :: [subscribedOpen, .sent 1 .whileOpen false] ++
        .took 0 .whileOpen :: []) (by decide)
    exact ⟨w, log, hrun, _, _, _, hlog, by simp [subscribedOpen], by simp [subscribedOpen]⟩
  · obtain ⟨w, log, hrun, hp⟩ := Machine.run_reaches (busCalls GateBus.tick) (fun _ _ => True) {}
      [.gateEdgeChannel, .subscribeWithWhileSender positive 0,
        .subscribeWithWhileSender ⟨.lessThan, 0⟩ 0, .tick one, .tryRecv 0]
      (fun w log => .subscribed 0 (some positive) ⟨false, none, nan⟩ ∈ log ∧
        lastPublished log = some one ∧ (w.slots (whileChannelOf 0)).edge = none ∧
        learned 0 log = some !(strictEval one .greaterThan 0)) (by decide)
    exact ⟨w, log, _, _, _, hrun, hp⟩

end Sonda.Proof.Schedule.Bus
