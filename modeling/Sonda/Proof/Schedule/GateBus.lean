import Sonda.Impl.Schedule.Gating

/-!
# The slots of a gated loop

`Slotted` ties the two slots of a loop to what was published and what the
loop has learned: an edge in the `while` slot is the last one published, and
with the slot empty the loop has learned it; a removal in the `after` slot
has one in the `while` slot beside it. Whatever a bus sends keeps it
(`Slotted.sendAll`), and so does a poll (`Slotted.take`).
-/

namespace Sonda.Proof.Schedule

open Sonda.Schedule

variable {e : GateEdge} {bus : GateBus} {c : Nat}

/-! ## Slots -/

@[simp] theorem send_same (slots : Slots) (c : Nat) (e : GateEdge) :
    slots.send c e c = { slots c with edge := some e } := by simp [Slots.send]

theorem send_other (slots : Slots) {c d : Nat} (e : GateEdge) (h : d ≠ c) :
    slots.send c e d = slots d := by simp [Slots.send, h]

@[simp] theorem send_senderDropped (slots : Slots) (c d : Nat) (e : GateEdge) :
    (slots.send c e d).senderDropped = (slots d).senderDropped := by
  by_cases h : d = c
  · subst h; simp
  · rw [send_other slots e h]

/-- The slots with the one of `c` emptied. -/
def Slots.clear (slots : Slots) (c : Nat) : Slots :=
  Function.update slots c { slots c with edge := none }

theorem clear_other (slots : Slots) {c d : Nat} (h : d ≠ c) : Slots.clear slots c d = slots d := by
  simp [Slots.clear, h]

theorem clear_edge (slots : Slots) (c : Nat) : (Slots.clear slots c c).edge = none := by
  simp [Slots.clear]

theorem clear_senderDropped (slots : Slots) (c d : Nat) :
    (Slots.clear slots c d).senderDropped = (slots d).senderDropped := by
  by_cases h : d = c
  · subst h; simp [Slots.clear]
  · rw [clear_other slots h]

theorem clear_of_empty {slots : Slots} (h : (slots c).edge = none) :
    Slots.clear slots c = slots := by
  rw [Slots.clear, ← h]
  exact Function.update_eq_self c slots

theorem after_ne_while : afterChannel ≠ whileChannel := by decide

/-! ## What is published -/

/-- The last edge sent to the `while` channel, from `P` on. -/
def publishedBy (P : GateEdge) (sends : List (Nat × GateEdge)) : GateEdge :=
  sends.foldl (fun P s => if s.1 = whileChannel then s.2 else P) P

/-- `AfterFired` was sent, from `F` on. -/
def firedBy (F : Bool) (sends : List (Nat × GateEdge)) : Bool :=
  sends.foldl (fun F s => F || decide (s = (afterChannel, .afterFired))) F

@[simp] theorem sendAll_cons (slots : Slots) (c : Nat) (e : GateEdge) (ss : List (Nat × GateEdge)) :
    slots.sendAll ((c, e) :: ss) = (slots.send c e).sendAll ss := rfl

@[simp] theorem publishedBy_cons (P : GateEdge) (c : Nat) (e : GateEdge)
    (ss : List (Nat × GateEdge)) :
    publishedBy P ((c, e) :: ss) = publishedBy (if c = whileChannel then e else P) ss := rfl

@[simp] theorem firedBy_cons (F : Bool) (c : Nat) (e : GateEdge) (ss : List (Nat × GateEdge)) :
    firedBy F ((c, e) :: ss) = firedBy (F || decide ((c, e) = (afterChannel, .afterFired))) ss := rfl

/-- The level after an edge: `AfterFired` says nothing about it. -/
def learnEdge (L : GateEdge) : GateEdge → GateEdge
  | .afterFired => L
  | e => e

/-- What a bus can send to a loop with the receiver `rx`. -/
inductive Sends (rx : GateReceiver) : List (Nat × GateEdge) → Prop
  | nil : Sends rx []
  | level {e : GateEdge} {ss : List (Nat × GateEdge)} (he : e ≠ .afterFired) (h : Sends rx ss) :
      Sends rx ((whileChannel, e) :: ss)
  | fired {ss : List (Nat × GateEdge)} (hr : rx.afterRx ≠ none) (h : Sends rx ss) :
      Sends rx ((afterChannel, .afterFired) :: ss)
  | gone {ss : List (Nat × GateEdge)} (hr : rx.afterRx ≠ none) (h : Sends rx ss) :
      Sends rx ((whileChannel, .upstreamGone) :: (afterChannel, .upstreamGone) :: ss)
  | other {c : Nat} {e : GateEdge} {ss : List (Nat × GateEdge)} (ha : c ≠ afterChannel)
      (hw : c ≠ whileChannel) (h : Sends rx ss) : Sends rx ((c, e) :: ss)

theorem Sends.append {rx : GateReceiver} {ss ts : List (Nat × GateEdge)} (hs : Sends rx ss)
    (ht : Sends rx ts) : Sends rx (ss ++ ts) := by
  induction hs with
  | nil => exact ht
  | level he _ ih => exact .level he ih
  | fired hr _ ih => exact .fired hr ih
  | gone hr _ ih => exact .gone hr ih
  | other ha hw _ ih => exact .other ha hw ih

theorem Sends.flatMap {rx : GateReceiver} {α : Type} {f : α → List (Nat × GateEdge)} :
    ∀ {xs : List α}, (∀ x ∈ xs, Sends rx (f x)) → Sends rx (xs.flatMap f)
  | [], _ => .nil
  | x :: xs, h => by
    rw [List.flatMap_cons]
    exact (h x List.mem_cons_self).append (.flatMap fun y hy => h y (List.mem_cons_of_mem _ hy))

/-- An edge sent to a channel other than the `after` channel. -/
theorem Sends.single {rx : GateReceiver} (hc : c ≠ afterChannel) (he : e ≠ .afterFired) :
    Sends rx [(c, e)] := by
  by_cases hw : c = whileChannel
  · subst hw; exact .level he .nil
  · exact .other hc hw .nil

/-! ## The two slots of a loop -/

/-- The slots of a loop that has learned `L`, with `P` published last,
`AfterFired` sent if `F`, and `after_satisfied` as `S`. -/
structure Slotted (rx : GateReceiver) (slots : Slots) (P L : GateEdge) (F S : Bool) : Prop where
  live : ∀ c, (slots c).senderDropped = false
  pending : ∀ e, (slots whileChannel).edge = some e → P = e ∧ e ≠ .afterFired
  learned : (slots whileChannel).edge = none → L = P
  after : ∀ e, (slots afterChannel).edge = some e → rx.afterRx ≠ none ∧
    (e = .afterFired ∧ F = true ∨ e = .upstreamGone ∧ (slots whileChannel).edge ≠ none)
  fired : F = true → S = true ∨ (slots afterChannel).edge ≠ none

variable {rx : GateReceiver} {slots : Slots} {P L : GateEdge} {F S : Bool}

theorem Slotted.send_while (h : Slotted rx slots P L F S) (he : e ≠ .afterFired) :
    Slotted rx (slots.send whileChannel e) e L F S := by
  have ha : slots.send whileChannel e afterChannel = slots afterChannel :=
    send_other slots e after_ne_while
  refine ⟨fun c => by simp [h.live c], ?_, ?_, ?_, ?_⟩
  · intro e' he'
    simp only [send_same, Option.some.injEq] at he'
    exact ⟨he', he' ▸ he⟩
  · intro hn; simp at hn
  · intro e' he'
    obtain ⟨hr, hf | ⟨hg, -⟩⟩ := h.after e' he'
    · exact ⟨hr, .inl hf⟩
    · exact ⟨hr, .inr ⟨hg, by simp⟩⟩
  · rw [ha]; exact h.fired

theorem Slotted.send_after (h : Slotted rx slots P L F S) (hr : rx.afterRx ≠ none) {F' : Bool}
    (he : e = .afterFired ∧ F' = true ∨ e = .upstreamGone ∧ (slots whileChannel).edge ≠ none) :
    Slotted rx (slots.send afterChannel e) P L F' S := by
  have hw : slots.send afterChannel e whileChannel = slots whileChannel :=
    send_other slots e after_ne_while.symm
  refine ⟨fun c => by simp [h.live c], by rw [hw]; exact h.pending, by rw [hw]; exact h.learned, ?_,
    fun _ => .inr (by simp)⟩
  intro e' he'
  simp only [send_same, Option.some.injEq] at he'
  rw [hw, ← he']
  exact ⟨hr, he⟩

theorem Slotted.send_other (h : Slotted rx slots P L F S) (hc : c ≠ afterChannel)
    (hcw : c ≠ whileChannel) : Slotted rx (slots.send c e) P L F S := by
  have hw := Schedule.send_other slots e hcw.symm
  have ha := Schedule.send_other slots e hc.symm
  exact ⟨fun d => by simp [h.live d], by rw [hw]; exact h.pending, by rw [hw]; exact h.learned,
    by rw [ha, hw]; exact h.after, by rw [ha]; exact h.fired⟩

/-- What a bus sends keeps the slots in order. -/
theorem Slotted.sendAll {ss : List (Nat × GateEdge)} (hs : Sends rx ss) :
    ∀ {slots : Slots} {P : GateEdge} {F : Bool}, Slotted rx slots P L F S →
      Slotted rx (slots.sendAll ss) (publishedBy P ss) L (firedBy F ss) S := by
  induction hs with
  | nil => exact fun h => h
  | level he _ ih =>
    exact fun h => by simpa [after_ne_while.symm] using ih (h.send_while he)
  | fired hr _ ih => exact fun h => by simpa [after_ne_while] using ih (h.send_after hr (.inl ⟨rfl, rfl⟩))
  | gone hr _ ih =>
    intro slots P F h
    have hw : Slotted rx (slots.send whileChannel .upstreamGone) .upstreamGone L F S :=
      h.send_while (by decide)
    simpa [after_ne_while, after_ne_while.symm] using ih (hw.send_after hr (.inr ⟨rfl, by simp⟩))
  | @other c e _ ha hw _ ih =>
    exact fun h => by simpa [ha, hw] using ih (h.send_other (e := e) ha hw)

/-! ## A poll -/

/-- The receiver of a loop, with no sender dropped. -/
structure Receives (rx : GateReceiver) : Prop where
  whileRx : rx.whileRx = some { channel := whileChannel }
  afterRx : rx.afterRx = none ∨ rx.afterRx = some { channel := afterChannel }

theorem tryRecv_live (rx : EdgeReceiver) (slots : Slots)
    (h : (slots rx.channel).senderDropped = false) :
    rx.tryRecv slots = ⟨(slots rx.channel).edge, rx, Slots.clear slots rx.channel⟩ := by
  simp only [EdgeReceiver.tryRecv, Slots.clear]
  split
  · rename_i e; simp [e, h]
  · rename_i e
    split
    · rw [e]
    · simp [e, h]

/-- A poll takes the edge of the `after` slot, or else that of the `while`
slot. -/
theorem tryRecv_cases (hrx : Receives rx) (h : Slotted rx slots P L F S) :
    (∃ e, (slots afterChannel).edge = some e ∧
      rx.tryRecv slots = ⟨some e, rx, Slots.clear slots afterChannel⟩) ∨
    (slots afterChannel).edge = none ∧
      rx.tryRecv slots = ⟨(slots whileChannel).edge, rx, Slots.clear slots whileChannel⟩ := by
  have hwhile : rx.tryRecvWhile slots =
      ⟨(slots whileChannel).edge, rx, Slots.clear slots whileChannel⟩ := by
    simp only [GateReceiver.tryRecvWhile, hrx.whileRx, tryRecv_live _ _ (h.live _)]
    rw [← hrx.whileRx]
  cases hslot : (slots afterChannel).edge with
  | some e =>
    have hr := hrx.afterRx.resolve_left (h.after e hslot).1
    refine .inl ⟨e, rfl, ?_⟩
    simp only [GateReceiver.tryRecv, hr, tryRecv_live _ _ (h.live _), hslot]
    rw [← hr]
  | none =>
    refine .inr ⟨rfl, ?_⟩
    rcases hrx.afterRx with hr | hr
    · simp only [GateReceiver.tryRecv, hr, hwhile]
    · simp only [GateReceiver.tryRecv, hr, tryRecv_live _ _ (h.live _), hslot,
        clear_of_empty hslot]
      rw [← hr]
      exact hwhile

/-- A poll that takes an edge keeps the slots in order, when the loop learns
the edge and an edge of the `after` slot finds or leaves `after:` satisfied. -/
theorem Slotted.take (hrx : Receives rx) (h : Slotted rx slots P L F S) {S' : Bool}
    (hp : (rx.tryRecv slots).edge = some e) (hS : S = true → S' = true)
    (ha : (slots afterChannel).edge = some e → S' = true) :
    (rx.tryRecv slots).rx = rx ∧ Slotted rx (rx.tryRecv slots).slots P (learnEdge L e) F S' := by
  rcases tryRecv_cases hrx h with ⟨e', hslot, hr⟩ | ⟨hslot, hr⟩
  · simp only [hr] at hp ⊢
    cases hp
    have hw := clear_other slots after_ne_while.symm
    refine ⟨trivial, fun c => (clear_senderDropped _ _ c).trans (h.live c), by rw [hw]; exact h.pending,
      ?_, ?_, fun _ => .inl (ha hslot)⟩
    · intro hn
      rcases (h.after e hslot).2 with ⟨rfl, -⟩ | ⟨-, hne⟩
      · exact h.learned hn
      · exact absurd hn hne
    · intro e' he'; rw [clear_edge] at he'; cases he'
  · simp only [hr] at hp ⊢
    have hac := clear_other slots after_ne_while
    obtain ⟨hP, hne⟩ := h.pending e hp
    refine ⟨trivial, fun c => (clear_senderDropped _ _ c).trans (h.live c), ?_, fun _ => ?_, ?_, ?_⟩
    · intro e' he'; rw [clear_edge] at he'; cases he'
    · rw [hP]; cases e <;> first | rfl | exact absurd rfl hne
    · rw [hac, hslot]; intro e' he'; cases he'
    · rw [hac]; exact fun hF => (h.fired hF).imp hS id

/-! ## What a bus sends -/

/-- The subscription sends the loop with the receiver `rx` what it may. -/
structure Wired (rx : GateReceiver) (sub : Subscription) : Prop where
  whileTx : sub.whileTx ≠ some afterChannel
  afterTx : sub.afterTx = none ∨
    rx.afterRx ≠ none ∧ sub.afterTx = some afterChannel ∧ sub.whileTx = some whileChannel

theorem levelEdge_ne (b : Bool) : GateBus.levelEdge b ≠ .afterFired := by cases b <;> decide

theorem sends_whileTx {sub : Subscription} (h : Wired rx sub) (he : e ≠ .afterFired) :
    Sends rx (sub.whileTx.toList.map (·, e)) := by
  cases hw : sub.whileTx with
  | none => exact .nil
  | some c => exact .single (fun hc => h.whileTx (hc ▸ hw)) he

theorem sends_tickSub {sub : Subscription} (h : Wired rx sub) (v : Value) :
    Sends rx (GateBus.tickSub v sub).2 ∧ Wired rx (GateBus.tickSub v sub).1 := by
  have hafter : Sends rx (GateBus.tickAfter v sub).2 ∧ Wired rx (GateBus.tickAfter v sub).1 := by
    simp only [GateBus.tickAfter]
    split
    · exact ⟨.nil, h⟩
    split
    · refine ⟨?_, h.whileTx, h.afterTx⟩
      rcases h.afterTx with ha | ⟨hr, ha, -⟩ <;> rw [ha]
      · exact .nil
      · exact .fired hr .nil
    · exact ⟨.nil, h⟩
  have hwhile {sub : Subscription} (h : Wired rx sub) :
      Sends rx (GateBus.tickWhile v sub).2 ∧ Wired rx (GateBus.tickWhile v sub).1 := by
    simp only [GateBus.tickWhile]
    split
    · exact ⟨.nil, h⟩
    split
    · exact ⟨sends_whileTx h (levelEdge_ne _), h.whileTx, h.afterTx⟩
    · exact ⟨.nil, h⟩
  exact ⟨hafter.1.append (hwhile hafter.2).1, (hwhile hafter.2).2⟩

section

variable (h : ∀ sub ∈ bus.subs, Wired rx sub)

include h

theorem sends_broadcast : Sends rx bus.broadcastUpstreamGone := by
  refine .flatMap fun sub hsub => ?_
  rcases (h sub hsub).afterTx with ha | ⟨hr, ha, hw⟩
  · rw [ha]
    exact (sends_whileTx (h sub hsub) (by decide)).append .nil
  · rw [ha, hw]
    exact .gone hr .nil

/-- `GateBus::tick` sends what it may, and leaves the subscriptions wired. -/
theorem sends_tick (v : Value) :
    Sends rx (bus.tick v).2 ∧ ∀ sub ∈ (bus.tick v).1.subs, Wired rx sub := by
  simp only [GateBus.tick]
  split
  · exact ⟨.nil, h⟩
  · refine ⟨.flatMap fun sub hsub => (sends_tickSub (h sub hsub) v).1, fun sub hsub => ?_⟩
    obtain ⟨sub', hsub', rfl⟩ := List.mem_map.mp hsub
    exact (sends_tickSub (h sub' hsub') v).2

/-- `GateBus::subscribe_with_while_sender`, likewise. -/
theorem sends_subscribeWithWhileSender (spec : WhileSpec) (hc : c ≠ afterChannel) :
    Sends rx (bus.subscribeWithWhileSender spec c).2.1 ∧
      ∀ sub ∈ (bus.subscribeWithWhileSender spec c).1.subs, Wired rx sub := by
  constructor
  · simp only [GateBus.subscribeWithWhileSender]
    split
    · exact .single hc (levelEdge_ne _)
    · exact .nil
  · intro sub hsub
    rcases List.mem_append.mp hsub with hsub | hsub
    · exact h sub hsub
    · simp only [List.mem_singleton] at hsub
      subst hsub
      exact ⟨by simpa using hc, .inl rfl⟩

end

end Sonda.Proof.Schedule
