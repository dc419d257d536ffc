import Sonda.Impl.Schedule.BusCalls
import Sonda.Proof.Schedule.GateBus

/-!
# Calls on one bus

`tick_eq_tickEvery`: on a bus whose subscriptions have seen its value
(`Settled`), the fast path of `GateBus::tick` skips nothing.

`learned` and `heard` are what a receiver knows from the events so far;
`Sound` says how channels, receivers and subscriptions belong together, and is
kept by every call (`Sound.step`), so that a run with the fast path is the run
without it (`exec_eq_exec_tickEvery`).
-/

namespace Sonda.Proof.Schedule.Bus

open Sonda.Schedule Framework List
open GateBus (levelEdge tickAfter tickWhile tickSub)

variable {slots : Slots} {ss : List (Nat × GateEdge)} {bus : GateBus} {i : Nat} {sub : Subscription}
  {v : Value} {c : Nat} {e : BusEvent} {w' : BusWorld} {rx : GateReceiver} {es : List BusEvent}
  {p : Nat × GateEdge}

/-! ## The fast path -/

/-- The subscription has seen the value `v`. -/
structure SettledAt (v : Value) (sub : Subscription) : Prop where
  level : ∀ s, sub.spec.whileSpec = some s → sub.prevWhileOpen = some (strictEval v s.op s.threshold)
  fired : ∀ a, sub.spec.afterSpec = some a → afterEval v a.op a.threshold = true → sub.afterFired = true

/-- Every subscription has seen the last value. -/
def Settled (bus : GateBus) : Prop :=
  bus.hasValue = true → ∀ sub ∈ bus.subs, SettledAt bus.lastValue sub

theorem tickAfter_frame (v : Value) (sub : Subscription) :
    (tickAfter v sub).1.spec = sub.spec ∧ (tickAfter v sub).1.afterTx = sub.afterTx ∧
      (tickAfter v sub).1.whileTx = sub.whileTx ∧
      (tickAfter v sub).1.prevWhileOpen = sub.prevWhileOpen := by
  unfold tickAfter
  split
  · simp
  · split <;> simp

theorem tickWhile_frame (v : Value) (sub : Subscription) :
    (tickWhile v sub).1.spec = sub.spec ∧ (tickWhile v sub).1.afterTx = sub.afterTx ∧
      (tickWhile v sub).1.whileTx = sub.whileTx ∧
      (tickWhile v sub).1.afterFired = sub.afterFired := by
  unfold tickWhile
  split
  · simp
  · dsimp only; split <;> simp

@[simp] theorem tickSub_spec (v : Value) (sub : Subscription) :
    (tickSub v sub).1.spec = sub.spec :=
  (tickWhile_frame v _).1.trans (tickAfter_frame v sub).1

@[simp] theorem tickSub_afterTx (v : Value) (sub : Subscription) :
    (tickSub v sub).1.afterTx = sub.afterTx :=
  (tickWhile_frame v _).2.1.trans (tickAfter_frame v sub).2.1

@[simp] theorem tickSub_whileTx (v : Value) (sub : Subscription) :
    (tickSub v sub).1.whileTx = sub.whileTx :=
  (tickWhile_frame v _).2.2.1.trans (tickAfter_frame v sub).2.2.1

/-- A subscription that was told a value has seen it. -/
theorem settledAt_tickSub (v : Value) (sub : Subscription) :
    SettledAt v (tickSub v sub).1 := by
  constructor
  · intro s hs
    rw [tickSub_spec] at hs
    have hs' : (tickAfter v sub).1.spec.whileSpec = some s := by
      rw [(tickAfter_frame v sub).1, hs]
    show (tickWhile v (tickAfter v sub).1).1.prevWhileOpen = _
    unfold tickWhile
    rw [hs']
    dsimp only
    split
    · rfl
    · rename_i h; exact not_not.mp h
  · intro a ha hf
    rw [tickSub_spec] at ha
    show (tickWhile v (tickAfter v sub).1).1.afterFired = _
    rw [(tickWhile_frame v _).2.2.2]
    unfold tickAfter
    rw [ha]
    dsimp only
    split
    · rfl
    · rename_i h
      simpa [hf] using h

/-- A subscription that has seen the value hears nothing of it. -/
theorem tickSub_of_settledAt (h : SettledAt v sub) : tickSub v sub = (sub, []) := by
  have ha : tickAfter v sub = (sub, []) := by
    unfold tickAfter
    split
    · rfl
    · rename_i a hsome
      rw [if_neg]
      intro hc
      simp only [Bool.and_eq_true, Bool.not_eq_true'] at hc
      rw [h.fired a hsome hc.2] at hc
      cases hc.1
  have hw : tickWhile v sub = (sub, []) := by
    unfold tickWhile
    split
    · rfl
    · rename_i s hsome
      rw [if_neg (not_not.mpr (h.level s hsome))]
  unfold tickSub
  rw [ha]
  dsimp only
  rw [hw]
  rfl

/-- The fast path skips nothing. -/
theorem tick_eq_tickEvery (h : Settled bus) (v : Value) : bus.tick v = bus.tickEvery v := by
  unfold GateBus.tick GateBus.tickEvery
  split
  · rename_i hu
    simp only [Bool.and_eq_true, beq_iff_eq] at hu
    obtain ⟨hv, rfl⟩ := hu
    have hsub : ∀ sub ∈ bus.subs, tickSub bus.lastValue sub = (sub, []) :=
      fun sub hsub => tickSub_of_settledAt (h hv sub hsub)
    have hmap : bus.subs.map (fun sub => (tickSub bus.lastValue sub).1) = bus.subs := by
      rw [map_congr_left fun sub hs => congrArg Prod.fst (hsub sub hs), map_id']
    have hsends : bus.subs.flatMap (fun sub => (tickSub bus.lastValue sub).2) = [] :=
      flatMap_eq_nil_iff.mpr fun sub hs => congrArg Prod.snd (hsub sub hs)
    rw [hmap, hsends]
  · rfl

theorem settled_tickEvery (bus : GateBus) (v : Value) : Settled (bus.tickEvery v).1 := by
  intro _ sub hsub
  obtain ⟨sub', -, rfl⟩ := mem_map.mp hsub
  exact settledAt_tickSub v sub'

theorem Settled.append {sub : Subscription} (h : Settled bus)
    (hsub : bus.hasValue = true → SettledAt bus.lastValue sub) :
    Settled { bus with subs := bus.subs ++ [sub] } := by
  intro hv sub' hsub'
  rcases mem_append.mp hsub' with hsub' | hsub'
  · exact h hv sub' hsub'
  · rw [mem_singleton.mp hsub']
    exact hsub hv

/-! ## What a receiver has heard -/

/-- The level receiver `i` knows after an event, from `L` on. -/
def learns (i : Nat) (L : Option Bool) : BusEvent → Option Bool
  | .subscribed j _ initial => if j = i then initial.whileGateOpen.or L else L
  | .took j .whileOpen => if j = i then some true else L
  | .took j .whileClose => if j = i then some false else L
  | _ => L

/-- The level receiver `i` last learned. -/
def learned (i : Nat) (log : List BusEvent) : Option Bool := log.foldl (learns i) none

def publishes (last : Option Value) : BusEvent → Option Value
  | .published v => some v
  | _ => last

def lastPublished (log : List BusEvent) : Option Value := log.foldl publishes none

/-- An edge of the `while` channel was taken by receiver `i`. -/
def TookLevel (i : Nat) (e : BusEvent) : Prop := e = .took i .whileOpen ∨ e = .took i .whileClose

/-- An edge for receiver `i` was overwritten, or its sender subscribed. -/
def Disturbs (i : Nat) (e : BusEvent) : Prop :=
  (∃ edge, e = .sent (whileChannelOf i) edge true) ∨ ∃ spec initial, e = .subscribed i spec initial

/-- The last level edge receiver `i` took, and whether something disturbed
its slot since. -/
def hears (i : Nat) (p : Option GateEdge × Bool) : BusEvent → Option GateEdge × Bool
  | .subscribed j _ _ => if j = i then (p.1, true) else p
  | .sent c _ overwrote => if c = whileChannelOf i ∧ overwrote = true then (p.1, true) else p
  | .took j .whileOpen => if j = i then (some .whileOpen, false) else p
  | .took j .whileClose => if j = i then (some .whileClose, false) else p
  | _ => p

def heard (i : Nat) (log : List BusEvent) : Option GateEdge × Bool := log.foldl (hears i) (none, false)

@[simp] theorem learned_append (i : Nat) (log es : List BusEvent) :
    learned i (log ++ es) = es.foldl (learns i) (learned i log) := foldl_append

@[simp] theorem lastPublished_append (log es : List BusEvent) :
    lastPublished (log ++ es) = es.foldl publishes (lastPublished log) := foldl_append

@[simp] theorem heard_append (i : Nat) (log es : List BusEvent) :
    heard i (log ++ es) = es.foldl (hears i) (heard i log) := foldl_append

/-- What was disturbed stays so until the next level edge is taken. -/
theorem hears_of_not_took {p : Option GateEdge × Bool} (h : ¬ TookLevel i e) :
    (hears i p e).1 = p.1 ∧ ((hears i p e).2 = true → p.2 = true ∨ Disturbs i e) := by
  unfold hears
  split
  · split
    · rename_i spec initial hj
      exact ⟨rfl, fun _ => .inr (.inr ⟨spec, initial, by rw [hj]⟩)⟩
    · exact ⟨rfl, .inl⟩
  · split
    · rename_i edge overwrote hc
      exact ⟨rfl, fun _ => .inr (.inl ⟨edge, by rw [hc.1, hc.2]⟩)⟩
    · exact ⟨rfl, .inl⟩
  · split
    · rename_i hj
      exact absurd (.inl (by rw [hj])) h
    · exact ⟨rfl, .inl⟩
  · split
    · rename_i hj
      exact absurd (.inr (by rw [hj])) h
    · exact ⟨rfl, .inl⟩
  · exact ⟨rfl, .inl⟩

theorem foldl_hears : ∀ {mid : List BusEvent} {p : Option GateEdge × Bool},
    (∀ e ∈ mid, ¬ TookLevel i e) → (mid.foldl (hears i) p).1 = p.1 ∧
      ((mid.foldl (hears i) p).2 = true → p.2 = true ∨ ∃ e ∈ mid, Disturbs i e)
  | [], _, _ => ⟨rfl, .inl⟩
  | e :: mid, p, h => by
    have he := hears_of_not_took (p := p) (h e mem_cons_self)
    have ih := foldl_hears (p := hears i p e) fun x hx => h x (mem_cons_of_mem _ hx)
    refine ⟨ih.1.trans he.1, fun hd => ?_⟩
    rcases ih.2 hd with hd | ⟨x, hx, hd⟩
    · exact (he.2 hd).imp_right fun hd => ⟨e, mem_cons_self, hd⟩
    · exact .inr ⟨x, mem_cons_of_mem _ hx, hd⟩

/-- Since a level edge was taken, and no other. -/
theorem heard_since (before : List BusEvent) {mid : List BusEvent} {edge : GateEdge}
    (he : TookLevel i (.took i edge)) (h : ∀ e ∈ mid, ¬ TookLevel i e) :
    (heard i (before ++ .took i edge :: mid)).1 = some edge ∧
      ((heard i (before ++ .took i edge :: mid)).2 = true → ∃ e ∈ mid, Disturbs i e) := by
  have htook : hears i (heard i before) (.took i edge) = (some edge, false) := by
    rcases he with he | he <;> cases he <;> simp [hears]
  rw [heard_append, foldl_cons, htook]
  have hm := foldl_hears (p := (some edge, false)) h
  refine ⟨hm.1, fun hd => ?_⟩
  rcases hm.2 hd with hf | hd
  · cases hf
  · exact hd

/-! ## What sends leave behind -/

theorem sendAll_edge {e : GateEdge} : ∀ {ss : List (Nat × GateEdge)} (slots : Slots),
    (∀ p ∈ ss, p.1 = c → p.2 = e) →
      ((∀ p ∈ ss, p.1 ≠ c) → (slots.sendAll ss c).edge = (slots c).edge) ∧
      ((∃ p ∈ ss, p.1 = c) → (slots.sendAll ss c).edge = some e)
  | [], _, _ => ⟨fun _ => rfl, fun ⟨_, h, _⟩ => by cases h⟩
  | (d, x) :: ss, slots, h => by
    have ih := sendAll_edge (slots.send d x) fun p hp => h p (mem_cons_of_mem _ hp)
    rw [sendAll_cons]
    refine ⟨fun hn => ?_, fun hc => ?_⟩
    · rw [ih.1 fun p hp => hn p (mem_cons_of_mem _ hp),
        send_other slots x (hn _ mem_cons_self).symm]
    · by_cases hs : ∃ p ∈ ss, p.1 = c
      · exact ih.2 hs
      · have hd : d = c := by
          obtain ⟨p, hp, hpc⟩ := hc
          rcases mem_cons.mp hp with rfl | hp
          · exact hpc
          · exact absurd ⟨p, hp, hpc⟩ hs
        subst hd
        rw [ih.1 fun p hp hpc => hs ⟨p, hp, hpc⟩, send_same]
        exact congrArg some (h (d, x) mem_cons_self rfl)

/-- A channel nothing is sent to. -/
theorem sendAll_edge_other (h : ∀ p ∈ ss, p.1 ≠ c) : (slots.sendAll ss c).edge = (slots c).edge :=
  (sendAll_edge (e := .afterFired) slots fun p hp hpc => absurd hpc (h p hp)).1 h

theorem sendAll_senderDropped (ss : List (Nat × GateEdge)) : ∀ (slots : Slots) (c : Nat),
    (slots.sendAll ss c).senderDropped = (slots c).senderDropped := by
  induction ss with
  | nil => exact fun _ _ => rfl
  | cons p ss ih =>
    intro slots c
    rw [show p = (p.1, p.2) from rfl, sendAll_cons, ih, send_senderDropped]

theorem mem_sentEvents : ∀ {ss : List (Nat × GateEdge)} {slots : Slots},
    e ∈ sentEvents slots ss → ∃ p ∈ ss, ∃ overwrote, e = .sent p.1 p.2 overwrote
  | (c, x) :: ss, slots, h => by
    rcases mem_cons.mp h with rfl | h
    · exact ⟨(c, x), mem_cons_self, _, rfl⟩
    · obtain ⟨p, hp, hx⟩ := mem_sentEvents h
      exact ⟨p, mem_cons_of_mem _ hp, hx⟩

theorem learned_sentEvents (i : Nat) (L : Option Bool) (ss : List (Nat × GateEdge)) (slots : Slots) :
    (sentEvents slots ss).foldl (learns i) L = L := by
  induction ss generalizing slots with
  | nil => rfl
  | cons p ss ih => exact ih _

theorem lastPublished_sentEvents (v : Option Value) (ss : List (Nat × GateEdge)) (slots : Slots) :
    (sentEvents slots ss).foldl publishes v = v := by
  induction ss generalizing slots with
  | nil => rfl
  | cons p ss ih => exact ih _

/-- Sends take nothing, and one on top of another is noticed. -/
theorem heard_sentEvents (i : Nat) : ∀ (ss : List (Nat × GateEdge)) (p : Option GateEdge × Bool)
    (slots : Slots), ((sentEvents slots ss).foldl (hears i) p).1 = p.1 ∧
      (p.2 = true → ((sentEvents slots ss).foldl (hears i) p).2 = true) ∧
      ((slots (whileChannelOf i)).edge ≠ none → (∃ s ∈ ss, s.1 = whileChannelOf i) →
        ((sentEvents slots ss).foldl (hears i) p).2 = true)
  | [], p, slots => ⟨rfl, id, fun _ ⟨_, h, _⟩ => by cases h⟩
  | (c, x) :: ss, p, slots => by
    have hstep : (sentEvents slots ((c, x) :: ss)).foldl (hears i) p =
        (sentEvents (slots.send c x) ss).foldl (hears i)
          (hears i p (.sent c x (slots c).edge.isSome)) := rfl
    have ih := heard_sentEvents i ss (hears i p (.sent c x (slots c).edge.isSome)) (slots.send c x)
    rw [hstep]
    by_cases hc : c = whileChannelOf i ∧ (slots c).edge.isSome = true
    · have hp : hears i p (.sent c x (slots c).edge.isSome) = (p.1, true) := if_pos hc
      rw [hp] at ih ⊢
      exact ⟨ih.1, fun _ => ih.2.1 rfl, fun _ _ => ih.2.1 rfl⟩
    · have hp : hears i p (.sent c x (slots c).edge.isSome) = p := if_neg hc
      rw [hp] at ih ⊢
      refine ⟨ih.1, ih.2.1, fun hne hs => ?_⟩
      have hcne : c ≠ whileChannelOf i := by
        intro h
        subst h
        exact hc ⟨rfl, Option.isSome_iff_ne_none.mpr hne⟩
      refine ih.2.2 ?_ ?_
      · rwa [send_other slots x hcne.symm]
      · obtain ⟨s, hs, hsc⟩ := hs
        rcases mem_cons.mp hs with rfl | hs
        · exact absurd hsc hcne
        · exact ⟨s, hs, hsc⟩

/-! ## Receivers and subscriptions -/

theorem while_ne_after (i j : Nat) : whileChannelOf i ≠ afterChannelOf j := by
  unfold whileChannelOf afterChannelOf
  omega

theorem whileChannelOf_inj {i j : Nat} (h : whileChannelOf i = whileChannelOf j) : i = j := by
  unfold whileChannelOf at h
  omega

/-- The receiver polls the channels of receiver `i`. -/
structure Polls (i : Nat) (rx : GateReceiver) : Prop where
  after : rx.afterRx = none ∨ rx.afterRx = some { channel := afterChannelOf i }
  level : rx.whileRx = none ∨ rx.whileRx = some { channel := whileChannelOf i }

/-- A poll finds nothing, or takes the edge of one of the two slots. -/
inductive Takes (i : Nat) (slots : Slots) (p : Polled GateReceiver) : Prop
  | nothing (he : p.edge = none) (hs : p.slots = slots)
  | after (e : GateEdge) (h : (slots (afterChannelOf i)).edge = some e) (he : p.edge = some e)
      (hs : p.slots = Slots.clear slots (afterChannelOf i))
  | level (e : GateEdge) (h : (slots (whileChannelOf i)).edge = some e) (he : p.edge = some e)
      (hs : p.slots = Slots.clear slots (whileChannelOf i))

theorem takes_while (hrx : Polls i rx) (hlive : ∀ c, (slots c).senderDropped = false) :
    (rx.tryRecvWhile slots).rx = rx ∧ Takes i slots (rx.tryRecvWhile slots) := by
  unfold GateReceiver.tryRecvWhile
  rcases hrx.level with hr | hr
  · rw [hr]
    exact ⟨rfl, .nothing rfl rfl⟩
  · rw [hr]
    dsimp only
    rw [tryRecv_live _ _ (hlive _)]
    refine ⟨by rw [← hr], ?_⟩
    cases hslot : (slots (whileChannelOf i)).edge with
    | none => exact .nothing rfl (clear_of_empty hslot)
    | some e => exact .level e hslot rfl rfl

theorem takes_tryRecv (hrx : Polls i rx) (hlive : ∀ c, (slots c).senderDropped = false) :
    (rx.tryRecv slots).rx = rx ∧ Takes i slots (rx.tryRecv slots) := by
  unfold GateReceiver.tryRecv
  rcases hrx.after with hr | hr
  · rw [hr]
    exact takes_while hrx hlive
  · rw [hr]
    dsimp only
    rw [tryRecv_live _ _ (hlive _)]
    have hsame : ({ rx with afterRx := some { channel := afterChannelOf i } } : GateReceiver) = rx := by
      rw [← hr]
    rw [hsame]
    cases hslot : (slots (afterChannelOf i)).edge with
    | none =>
      rw [clear_of_empty hslot]
      exact takes_while hrx hlive
    | some e => exact ⟨rfl, .after e hslot rfl rfl⟩

/-- What `GateBus::tick` can send a subscription: `AfterFired` on its `after`
channel, the new level on its `while` channel if it is not the last one. -/
theorem mem_tickSub (h : p ∈ (tickSub v sub).2) :
    sub.afterTx = some p.1 ∧ p.2 = .afterFired ∨
    ∃ s, sub.spec.whileSpec = some s ∧ sub.whileTx = some p.1 ∧
      sub.prevWhileOpen ≠ some (strictEval v s.op s.threshold) ∧
      p.2 = levelEdge (strictEval v s.op s.threshold) := by
  rcases mem_append.mp h with h | h
  · unfold tickAfter at h
    split at h
    · cases h
    · split at h
      · simp only [mem_map, Option.mem_toList] at h
        obtain ⟨c, hc, rfl⟩ := h
        exact .inl ⟨hc, rfl⟩
      · cases h
  · obtain ⟨hspec, -, htx, hprev⟩ := tickAfter_frame v sub
    unfold tickWhile at h
    split at h
    · cases h
    · rename_i s hs
      dsimp only at h
      split at h
      · rename_i hne
        rw [hspec] at hs
        rw [hprev] at hne
        simp only [mem_map, Option.mem_toList, htx] at h
        obtain ⟨c, hc, rfl⟩ := h
        exact .inr ⟨s, hs, hc, hne, rfl⟩
      · cases h

/-- A new level is sent. -/
theorem level_mem_tickSub {s : WhileSpec} (hs : sub.spec.whileSpec = some s)
    (hc : sub.whileTx = some c) (hne : sub.prevWhileOpen ≠ some (strictEval v s.op s.threshold)) :
    (c, levelEdge (strictEval v s.op s.threshold)) ∈ (tickSub v sub).2 := by
  obtain ⟨hspec, -, htx, hprev⟩ := tickAfter_frame v sub
  apply mem_append_right
  have hs' : (tickAfter v sub).1.spec.whileSpec = some s := by rw [hspec, hs]
  have hne' : (tickAfter v sub).1.prevWhileOpen ≠ some (strictEval v s.op s.threshold) := by
    rwa [hprev]
  unfold tickWhile
  rw [hs']
  dsimp only
  rw [if_pos hne', htx, hc]
  exact mem_singleton_self _

/-! ## The invariant of the calls -/

/-- The `while` channel of receiver `i` is subscribed. -/
def Enrolled (bus : GateBus) (i : Nat) : Prop :=
  ∃ sub ∈ bus.subs, sub.whileTx = some (whileChannelOf i)

/-- What holds of all channels and subscriptions. -/
structure Sound (w : BusWorld) (log : List BusEvent) : Prop where
  settled : Settled w.bus
  live : ∀ c, (w.slots c).senderDropped = false
  afterSlots : ∀ j e, (w.slots (afterChannelOf j)).edge = some e → e = .afterFired
  polls : ∀ (i : Nat) rx, w.receivers[i]? = some rx → Polls i rx
  afterTx : ∀ sub ∈ w.bus.subs, ∀ c, sub.afterTx = some c → ∃ j, c = afterChannelOf j
  whileTx : ∀ sub ∈ w.bus.subs, ∀ c, sub.whileTx = some c →
    ∃ j < w.receivers.length, c = whileChannelOf j
  senders : ∀ j ∈ w.senders, j < w.receivers.length
  published : lastPublished log = if w.bus.hasValue then some w.bus.lastValue else none
  enrolled : ∀ i s initial, .subscribed i (some s) initial ∈ log → Enrolled w.bus i

/-- The sends of a call on a sound bus: what goes to an `after` channel is
`AfterFired`. -/
theorem Sound.afterSlots_sendAll
    (h : ∀ j e, (slots (afterChannelOf j)).edge = some e → e = .afterFired)
    (hs : ∀ p ∈ ss, p.2 = .afterFired ∨ ∃ j, p.1 = whileChannelOf j) (j : Nat) (e : GateEdge)
    (he : (slots.sendAll ss (afterChannelOf j)).edge = some e) : e = .afterFired := by
  have hone : ∀ p ∈ ss, p.1 = afterChannelOf j → p.2 = .afterFired := by
    intro p hp hpc
    rcases hs p hp with hf | ⟨k, hk⟩
    · exact hf
    · exact absurd (hk.symm.trans hpc) (while_ne_after k j)
  obtain ⟨hno, hyes⟩ := sendAll_edge slots hone
  by_cases hex : ∃ p ∈ ss, p.1 = afterChannelOf j
  · rw [hyes hex] at he
    exact (Option.some.inj he).symm
  · rw [hno fun p hp hpc => hex ⟨p, hp, hpc⟩] at he
    exact h j e he

theorem not_subscribed_sentEvents {s : Option WhileSpec} {initial : InitialState} :
    .subscribed i s initial ∉ sentEvents slots ss := by
  intro h
  obtain ⟨p, -, o, hp⟩ := mem_sentEvents h
  cases hp

theorem mem_tickEvery (h : p ∈ (bus.tickEvery v).2) :
    ∃ sub ∈ bus.subs, p ∈ (tickSub v sub).2 :=
  mem_flatMap.mp h

/-- All `GateBus::subscribe` can send is `AfterFired`. -/
theorem mem_subscribe {spec : SubscriptionSpec} {a w : Nat} (h : p ∈ (bus.subscribe spec a w).2.1) :
    p = (a, .afterFired) := by
  unfold GateBus.subscribe at h
  rw [mem_ite_nil_right] at h
  obtain ⟨c, hc, rfl⟩ := mem_map.mp h.2
  obtain ⟨-, -, rfl⟩ := Option.map_eq_some_iff.mp (Option.mem_toList.mp hc)
  rfl

theorem polls_subscribe (bus : GateBus) (spec : SubscriptionSpec) (i : Nat) :
    Polls i (bus.subscribe spec (afterChannelOf i) (whileChannelOf i)).2.2.1 := by
  constructor
  · show (spec.afterSpec.map _).map _ = none ∨ (spec.afterSpec.map _).map _ = _
    cases spec.afterSpec <;> simp
  · show (spec.whileSpec.map _).map _ = none ∨ (spec.whileSpec.map _).map _ = _
    cases spec.whileSpec <;> simp

/-! ## The calls keep it -/

theorem fresh_other (slots : Slots) {c d : Nat} (h : d ≠ c) : slots.fresh c d = slots d := by
  simp [Slots.fresh, h]

theorem fresh_same (slots : Slots) (c : Nat) : slots.fresh c c = {} := by simp [Slots.fresh]

/-- A channel is as it was, or has just been made. -/
def Slots.Renews (slots slots' : Slots) : Prop := ∀ c, slots' c = slots c ∨ slots' c = {}

theorem Slots.Renews.fresh {slots' : Slots} (h : Slots.Renews slots slots') (c : Nat) :
    Slots.Renews slots (slots'.fresh c) := by
  intro d
  by_cases hd : d = c
  · exact .inr (hd ▸ fresh_same slots' c)
  · rw [fresh_other slots' hd]
    exact h d

theorem renews_fresh (slots : Slots) (c : Nat) : Slots.Renews slots (slots.fresh c) :=
  Slots.Renews.fresh (fun _ => .inl rfl) c

variable {w : BusWorld} {log : List BusEvent}

/-- A receiver is made, and with it channels. -/
theorem Sound.receiver (h : Sound w log) {senders : List Nat} (hrx : Polls w.receivers.length rx)
    (hslots : Slots.Renews w.slots slots)
    (hsenders : ∀ j ∈ senders, j < w.receivers.length + 1) :
    Sound { w with slots := slots, receivers := w.receivers ++ [rx], senders := senders } log where
  settled := h.settled
  live c := by
    dsimp only
    rcases hslots c with hc | hc <;> rw [hc]
    exact h.live c
  afterSlots j e he := by
    dsimp only at he
    rcases hslots (afterChannelOf j) with hc | hc <;> rw [hc] at he
    · exact h.afterSlots j e he
    · cases he
  polls i rx hrx := by
    rcases getElem?_append_cases hrx with ⟨rfl, rfl⟩ | hrx
    · assumption
    · exact h.polls i rx hrx
  afterTx := h.afterTx
  whileTx sub hsub c hc := by
    obtain ⟨j, hj, rfl⟩ := h.whileTx sub hsub c hc
    exact ⟨j, by rw [length_append]; omega, rfl⟩
  senders j hj := by rw [length_append]; exact hsenders j hj
  published := h.published
  enrolled := h.enrolled

/-- Receiver `i` is subscribed. -/
theorem Sound.enrol (h : Sound w log) {s : Option WhileSpec} {initial : InitialState}
    (hsettled : w.bus.hasValue = true → SettledAt w.bus.lastValue sub)
    (hsends : ∀ p ∈ ss, p.2 = .afterFired ∨ ∃ j, p.1 = whileChannelOf j)
    (hafter : ∀ c, sub.afterTx = some c → ∃ j, c = afterChannelOf j)
    (hwhile : ∀ c, sub.whileTx = some c → c = whileChannelOf i) (hi : i < w.receivers.length)
    (hspec : s ≠ none → sub.whileTx = some (whileChannelOf i)) :
    Sound { w with bus := { w.bus with subs := w.bus.subs ++ [sub] }, slots := w.slots.sendAll ss }
      (log ++ .subscribed i s initial :: sentEvents w.slots ss) where
  settled := h.settled.append hsettled
  live c := (sendAll_senderDropped ..).trans (h.live c)
  afterSlots := Sound.afterSlots_sendAll h.afterSlots hsends
  polls := h.polls
  afterTx sub' hsub c hc := by
    rcases mem_append.mp hsub with hsub | hsub
    · exact h.afterTx sub' hsub c hc
    · exact hafter c (mem_singleton.mp hsub ▸ hc)
  whileTx sub' hsub c hc := by
    rcases mem_append.mp hsub with hsub | hsub
    · exact h.whileTx sub' hsub c hc
    · exact ⟨i, hi, hwhile c (mem_singleton.mp hsub ▸ hc)⟩
  senders := h.senders
  published := by
    rw [lastPublished_append, foldl_cons, lastPublished_sentEvents]
    exact h.published
  enrolled k t initial' hm := by
    rcases mem_append.mp hm with hm | hm
    · obtain ⟨sub', hsub, hc⟩ := h.enrolled k t initial' hm
      exact ⟨sub', mem_append_left _ hsub, hc⟩
    · rcases mem_cons.mp hm with hm | hm
      · injection hm with hk hs
        subst hk hs
        exact ⟨sub, mem_append_right _ (mem_singleton_self _), hspec nofun⟩
      · exact absurd hm not_subscribed_sentEvents

theorem Sound.gateEdgeChannel (h : Sound w log) : Sound { w with
      slots := w.slots.fresh (whileChannelOf w.receivers.length)
      receivers := w.receivers ++ [⟨none, some { channel := whileChannelOf w.receivers.length }⟩]
      senders := w.senders ++ [w.receivers.length] } log := by
  refine h.receiver ⟨.inl rfl, .inr rfl⟩ (renews_fresh _ _) fun j hj => ?_
  rcases mem_append.mp hj with hj | hj
  · exact (h.senders j hj).trans (Nat.lt_succ_self _)
  · exact mem_singleton.mp hj ▸ Nat.lt_succ_self _

theorem Sound.subscribe (h : Sound w log) (spec : SubscriptionSpec)
    (hs : busCallStep GateBus.tick w (.subscribe spec) = some (w', es)) : Sound w' (log ++ es) := by
  cases hs
  let i := w.receivers.length
  have hrx := h.receiver (polls_subscribe w.bus spec i) ((renews_fresh _ (afterChannelOf i)).fresh
    (whileChannelOf i)) fun j hj => (h.senders j hj).trans (Nat.lt_succ_self _)
  refine hrx.enrol (fun hv => ⟨fun s hs => ?_, fun a ha hf => ?_⟩)
    (fun p hp => .inl (congrArg Prod.snd (mem_subscribe hp))) (fun c hc => ?_) (fun c hc => ?_)
    (by simp) fun hne => ?_
  · have hv' : w.bus.hasValue = true := hv
    rw [show spec.whileSpec = some s from hs, hv']
    rfl
  · have hv' : w.bus.hasValue = true := hv
    rw [show spec.afterSpec = some a from ha, hv']
    exact hf
  · obtain ⟨-, -, rfl⟩ := Option.map_eq_some_iff.mp hc
    exact ⟨_, rfl⟩
  · obtain ⟨-, -, rfl⟩ := Option.map_eq_some_iff.mp hc
    rfl
  · obtain ⟨s, hs⟩ := Option.ne_none_iff_exists'.mp hne
    rw [hs]
    rfl

theorem Sound.subscribeWithWhileSender (h : Sound w log) {spec : WhileSpec}
    (hs : busCallStep GateBus.tick w (.subscribeWithWhileSender spec i) = some (w', es)) :
    i ∈ w.senders ∧ Sound w' (log ++ es) := by
  simp only [busCallStep] at hs
  split at hs
  case isFalse => cases hs
  case isTrue hi =>
  cases hs
  refine ⟨hi, h.enrol (fun hv => ⟨fun s hs => ?_, fun a ha => ?_⟩) (fun p hp => ?_) nofun
    (fun c hc => (Option.some.inj hc).symm) (h.senders i hi) fun _ => rfl⟩
  · cases hs
    exact if_pos hv
  · cases ha
  · obtain ⟨b, -, rfl⟩ := mem_map.mp hp
    exact .inr ⟨i, rfl⟩

theorem Sound.tickEvery (h : Sound w log) (v : Value) :
    Sound { w with bus := (w.bus.tickEvery v).1, slots := w.slots.sendAll (w.bus.tickEvery v).2 }
      (log ++ .published v :: sentEvents w.slots (w.bus.tickEvery v).2) where
  settled := settled_tickEvery w.bus v
  live c := (sendAll_senderDropped ..).trans (h.live c)
  afterSlots := by
    refine Sound.afterSlots_sendAll h.afterSlots fun p hp => ?_
    obtain ⟨sub, hsub, hp⟩ := mem_tickEvery hp
    rcases mem_tickSub hp with ⟨-, hf⟩ | ⟨s, -, hc, -, -⟩
    · exact .inl hf
    · obtain ⟨j, -, hj⟩ := h.whileTx sub hsub _ hc
      exact .inr ⟨j, hj⟩
  polls := h.polls
  afterTx sub hsub c hc := by
    obtain ⟨sub', hsub', rfl⟩ := mem_map.mp hsub
    exact h.afterTx sub' hsub' c (by rwa [tickSub_afterTx] at hc)
  whileTx sub hsub c hc := by
    obtain ⟨sub', hsub', rfl⟩ := mem_map.mp hsub
    exact h.whileTx sub' hsub' c (by rwa [tickSub_whileTx] at hc)
  senders := h.senders
  published := by
    rw [lastPublished_append, foldl_cons, lastPublished_sentEvents]
    rfl
  enrolled i s initial hm := by
    have hm' : .subscribed i (some s) initial ∈ log := by
      rcases mem_append.mp hm with hm | hm
      · exact hm
      · rcases mem_cons.mp hm with hm | hm
        · cases hm
        · exact absurd hm not_subscribed_sentEvents
    obtain ⟨sub, hsub, hc⟩ := h.enrolled i s initial hm'
    exact ⟨_, mem_map_of_mem hsub, by rw [tickSub_whileTx, hc]⟩

/-- What `GateReceiver::try_recv` does on a sound bus. -/
inductive TryRecv (w : BusWorld) (i : Nat) : BusWorld → List BusEvent → Prop
  | nothing : TryRecv w i w []
  | after (h : (w.slots (afterChannelOf i)).edge = some .afterFired) :
      TryRecv w i { w with slots := Slots.clear w.slots (afterChannelOf i) } [.took i .afterFired]
  | level (e : GateEdge) (h : (w.slots (whileChannelOf i)).edge = some e) :
      TryRecv w i { w with slots := Slots.clear w.slots (whileChannelOf i) } [.took i e]

theorem tryRecv_of_step (h : Sound w log) {tick : GateBus → Value → GateBus × List (Nat × GateEdge)}
    (hs : busCallStep tick w (.tryRecv i) = some (w', es)) : TryRecv w i w' es := by
  obtain ⟨rx, hrx, hs⟩ := Option.map_eq_some_iff.mp hs
  obtain ⟨rfl, rfl⟩ := Prod.mk.inj hs
  obtain ⟨hsame, htakes⟩ := takes_tryRecv (h.polls i rx hrx) h.live
  have hset : w.receivers.set i rx = w.receivers := by
    obtain ⟨hi, rfl⟩ := List.getElem?_eq_some_iff.mp hrx
    exact set_getElem_self hi
  rw [hsame, hset]
  cases htakes with
  | nothing he hslots => rw [he, hslots]; exact .nothing
  | after e hslot he hslots =>
    have hf := h.afterSlots i e hslot
    subst hf
    rw [he, hslots]
    exact .after hslot
  | level e hslot he hslots => rw [he, hslots]; exact .level e hslot

/-- Emptying a slot and an event about a poll change nothing else. -/
theorem Sound.clear (h : Sound w log) (c i : Nat) (e : GateEdge) :
    Sound { w with slots := Slots.clear w.slots c } (log ++ [.took i e]) where
  settled := h.settled
  live d := (clear_senderDropped w.slots c d).trans (h.live d)
  afterSlots j e he := by
    by_cases hd : afterChannelOf j = c
    · subst hd
      rw [clear_edge] at he
      cases he
    · dsimp only at he
      rw [clear_other w.slots hd] at he
      exact h.afterSlots j e he
  polls := h.polls
  afterTx := h.afterTx
  whileTx := h.whileTx
  senders := h.senders
  published := by
    rw [lastPublished_append]
    exact h.published
  enrolled k s initial hm := by
    rcases mem_append.mp hm with hm | hm
    · exact h.enrolled k s initial hm
    · rw [mem_singleton] at hm
      cases hm

theorem Sound.step (h : Sound w log) {call : BusCall}
    (hs : busCallStep GateBus.tick w call = some (w', es)) : Sound w' (log ++ es) := by
  cases call with
  | gateEdgeChannel =>
    cases hs
    rw [append_nil]
    exact h.gateEdgeChannel
  | subscribe spec => exact h.subscribe spec hs
  | subscribeWithWhileSender spec i => exact (h.subscribeWithWhileSender hs).2
  | tick v =>
    cases hs
    rw [tick_eq_tickEvery h.settled v]
    exact h.tickEvery v
  | tryRecv i =>
    cases tryRecv_of_step h hs with
    | nothing => rwa [append_nil]
    | after => exact h.clear ..
    | level e => exact h.clear ..

/-- Nothing is subscribed to the channels of a receiver not made yet. -/
theorem Sound.unsubscribed (h : Sound w log) : ¬ Enrolled w.bus w.receivers.length := by
  rintro ⟨sub, hsub, hc⟩
  obtain ⟨j, hj, hjc⟩ := h.whileTx sub hsub _ hc
  have := whileChannelOf_inj hjc
  omega

/-! ## Runs without the fast path -/

/-- A step without the fast path is the same step. -/
theorem step_eq_step_tickEvery (hw : Sound w log) (call : BusCall) :
    busCallStep GateBus.tick w call = busCallStep GateBus.tickEvery w call := by
  cases call with
  | tick v => simp only [busCallStep, tick_eq_tickEvery hw.settled v]
  | _ => rfl

theorem exec_eq_exec_tickEvery (calls : List BusCall) : ∀ {w : BusWorld} {log : List BusEvent},
    Sound w log → (busCalls GateBus.tick).exec (fun _ _ => True) w calls =
      (busCalls GateBus.tickEvery).exec (fun _ _ => True) w calls := by
  induction calls with
  | nil => exact fun _ => rfl
  | cons call calls ih =>
    intro w log hw
    have hstep : (busCalls GateBus.tick).step w call = (busCalls GateBus.tickEvery).step w call :=
      step_eq_step_tickEvery hw call
    simp only [Machine.exec, if_true, ← hstep]
    cases hs : (busCalls GateBus.tick).step w call with
    | none => rfl
    | some p =>
      have hw' : Sound p.1 (log ++ p.2) := hw.step hs
      simp only [Option.bind_some, ih hw']

theorem sound_start : Sound {} [] where
  settled hv := by cases hv
  live _ := rfl
  afterSlots _ _ he := by cases he
  polls _ _ hrx := by cases hrx
  afterTx _ hsub := by cases hsub
  whileTx _ hsub := by cases hsub
  senders _ hj := by cases hj
  published := rfl
  enrolled _ _ _ hm := by cases hm

end Sonda.Proof.Schedule.Bus
