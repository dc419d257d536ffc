import Sonda.Framework.RefCounts
import Sonda.Proof.Server.GateRegistry

/-!
# The records of the downstreams

A downstream whose upstream is in another file has a record in the registry:
an entry of `pending`, or of a row of `subscribers`. Both are read as what the
launch recorded (`Records`). `Carries` says what a function of the registry
does to them: every record is an old one or a new one it has to make, and no
live downstream loses its last record. The functions that move records between
the two maps do so where one id stands for one downstream (`OneLabel`).
-/

namespace Sonda.Proof.Server

open Sonda.Server Framework List
open GateBusRegistry (insertPending renamePending renameSubscribers sweepKey sweepPending)

variable {r r' r'' : GateBusRegistry} {alive : HandleRef → Bool} {new : PendingResolution → Prop}
variable {x : BusKey × SubscriberRef} {oldId newId : HandleId} {p : PendingResolution}

/-- The downstream waits, or is in the row of its key. -/
def Records (r : GateBusRegistry) (p : PendingResolution) : Prop :=
  r.pending.lookup p.handleId = some p ∨ SubscriberRef.fromPending p ∈ r.subscribers

/-- Every entry of `pending` is under its own id. -/
def Keyed (r : GateBusRegistry) : Prop := ∀ id p, r.pending.lookup id = some p → p.handleId = id

/-- One id stands for one downstream. -/
def OneLabel (r : GateBusRegistry) : Prop :=
  ∀ p q, Records r p → Records r q → p.handleId = q.handleId → p.downstream = q.downstream

structure Carries (alive : HandleRef → Bool) (new : PendingResolution → Prop)
    (r r' : GateBusRegistry) : Prop where
  keyed : Keyed r'
  origin : ∀ p, Records r' p → Records r p ∨ new p
  kept : ∀ p, Records r p → alive p.downstream = true →
    ∃ q, Records r' q ∧ q.downstream = p.downstream

theorem Carries.of_eq (hk : Keyed r) (hs : r'.subscribers = r.subscribers)
    (hp : r'.pending = r.pending) : Carries alive new r r' := by
  have hrec (p : PendingResolution) : Records r' p ↔ Records r p := by rw [Records, hs, hp, Records]
  exact ⟨fun id p h => hk id p (hp ▸ h), fun p h => .inl ((hrec p).mp h),
    fun p h _ => ⟨p, (hrec p).mpr h, rfl⟩⟩

theorem Carries.trans (h : Carries alive (fun _ => False) r r')
    (h' : Carries alive (fun _ => False) r' r'') : Carries alive (fun _ => False) r r'' := by
  refine ⟨h'.keyed, fun p hp => ?_, fun p hp ha => ?_⟩
  · exact (h'.origin p hp).elim (h.origin p) False.elim
  · obtain ⟨q, hq, hqd⟩ := h.kept p hp ha
    obtain ⟨q', hq', hqd'⟩ := h'.kept q hq (hqd ▸ ha)
    exact ⟨q', hq', hqd'.trans hqd⟩

theorem OneLabel.carry (ho : OneLabel r) (h : Carries alive (fun _ => False) r r') : OneLabel r' :=
  fun p q hp hq => ho p q ((h.origin p hp).elim id False.elim) ((h.origin q hq).elim id False.elim)

/-! ## New records -/

theorem records_insertPending (p q : PendingResolution) :
    Records (r.insertPending p) q ↔ q = p ∨ (q.handleId ≠ p.handleId ∧ Records r q) ∨
      SubscriberRef.fromPending q ∈ r.subscribers := by
  simp only [Records, insertPending]
  by_cases h : q.handleId = p.handleId
  · rw [h, AList.lookup_insert]
    simp [eq_comm]
  · rw [AList.lookup_insert_ne h]
    tauto

/-- A waiter is inserted; only an entry of its own downstream is overwritten. -/
theorem carries_insertPending (hk : Keyed r)
    (hone : ∀ q, Records r q → q.handleId = p.handleId → q.downstream = p.downstream) :
    Carries alive (· = p) r (r.insertPending p) := by
  refine ⟨fun id q h => ?_, fun q h => ?_, fun q h _ => ?_⟩
  · by_cases hid : id = p.handleId
    · subst hid
      rw [insertPending, AList.lookup_insert] at h
      cases h; rfl
    · exact hk id q ((AList.lookup_insert_ne hid).symm.trans h)
  · rcases (records_insertPending p q).mp h with h | ⟨-, h⟩ | h
    · exact .inr h
    · exact .inl h
    · exact .inl (.inr h)
  · by_cases hid : q.handleId = p.handleId
    · exact ⟨p, (records_insertPending p p).mpr (.inl rfl), (hone q h hid).symm⟩
    · exact ⟨q, (records_insertPending p q).mpr (.inr (.inl ⟨hid, h⟩)), rfl⟩

/-- Several waiters are inserted. -/
theorem carries_foldl_insertPending (ps : List PendingResolution) (hk : Keyed r)
    (hone : ∀ p q, (Records r p ∨ p ∈ ps) → (Records r q ∨ q ∈ ps) → p.handleId = q.handleId →
      p.downstream = q.downstream) :
    Carries alive (· ∈ ps) r (ps.foldl insertPending r) ∧
      ∀ p ∈ ps, alive p.downstream = true →
        ∃ q, Records (ps.foldl insertPending r) q ∧ q.downstream = p.downstream := by
  induction ps generalizing r with
  | nil => exact ⟨.of_eq hk rfl rfl, nofun⟩
  | cons p ps ih =>
    have h₁ : Carries alive (· = p) r (r.insertPending p) :=
      carries_insertPending hk fun q hq hid => hone q p (.inl hq) (.inr mem_cons_self) hid
    have hsub (q : PendingResolution) (hq : Records (r.insertPending p) q ∨ q ∈ ps) :
        Records r q ∨ q ∈ p :: ps := by
      rcases hq with hq | hq
      · exact (h₁.origin q hq).imp id fun (h : q = p) => h ▸ mem_cons_self
      · exact .inr (mem_cons_of_mem p hq)
    obtain ⟨h₂, hall⟩ := ih h₁.keyed fun q q' hq hq' => hone q q' (hsub q hq) (hsub q' hq')
    refine ⟨⟨h₂.keyed, fun q hq => (h₂.origin q hq).elim (fun h => hsub q (.inl h))
      fun h => .inr (mem_cons_of_mem p h), fun q hq ha => ?_⟩, fun q hq ha => ?_⟩
    · obtain ⟨q₁, hq₁, hd₁⟩ := h₁.kept q hq ha
      obtain ⟨q₂, hq₂, hd₂⟩ := h₂.kept q₁ hq₁ (hd₁ ▸ ha)
      exact ⟨q₂, hq₂, hd₂.trans hd₁⟩
    · rcases mem_cons.mp hq with rfl | hq
      · exact h₂.kept q ((records_insertPending q q).mpr (.inl rfl)) ha
      · exact hall q hq ha

theorem carries_trackSubscriber (hk : Keyed r) : Carries alive (· = p) r (r.trackSubscriber p) := by
  refine ⟨hk, fun q h => ?_, fun q h _ => ⟨q, h.imp id (mem_append_left _), rfl⟩⟩
  rcases h with h | h
  · exact .inl (.inl h)
  · rcases mem_append.mp h with h | h
    · exact .inl (.inr h)
    · have hq := mem_singleton.mp h
      obtain ⟨_, _, _, _, _, _⟩ := p
      cases hq
      exact .inr rfl

/-! ## Requeuing -/

theorem intoPending_inj {key : BusKey} {sub : SubscriberRef}
    (h : SubscriberRef.fromPending p = (key, sub)) : sub.intoPending key.1 key.2 = p := by
  cases h; rfl

/-- The live subscribers of the row wait again. -/
theorem carries_requeueKey (hk : Keyed r) (ho : OneLabel r) (key : BusKey) :
    Carries alive (fun _ => False) r (r.requeueKey alive key) := by
  let base : GateBusRegistry := { r with subscribers := r.subscribers.filter fun p => p.1 ≠ key }
  let row := r.subscribers.filter fun p => p.1 = key && alive p.2.downstream
  let ps := row.map fun p => p.2.intoPending key.1 key.2
  have heq : r.requeueKey alive key = ps.foldl insertPending base := by
    rw [foldl_map]; rfl
  have hbase (q : PendingResolution) (hq : Records base q) : Records r q :=
    hq.imp id fun h => (mem_filter.mp h).1
  have hps (q : PendingResolution) : q ∈ ps ↔
      SubscriberRef.fromPending q ∈ r.subscribers ∧ (q.scenarioName, q.entryId) = key ∧
        alive q.downstream = true := by
    constructor
    · intro h
      obtain ⟨⟨k, sub⟩, hm, rfl⟩ := mem_map.mp h
      simp only [row, mem_filter, Bool.and_eq_true, decide_eq_true_eq] at hm
      obtain ⟨hm, rfl, ha⟩ := hm
      exact ⟨hm, rfl, ha⟩
    · rintro ⟨hm, rfl, ha⟩
      refine mem_map.mpr ⟨_, mem_filter.mpr ⟨hm, ?_⟩, intoPending_inj rfl⟩
      simpa [SubscriberRef.fromPending] using ha
  have hsub (q : PendingResolution) (hq : Records base q ∨ q ∈ ps) : Records r q :=
    hq.elim (hbase q) fun h => .inr ((hps q).mp h).1
  obtain ⟨h, hall⟩ := @carries_foldl_insertPending base alive ps hk
    fun p q hp hq => ho p q (hsub p hp) (hsub q hq)
  rw [heq]
  refine ⟨h.keyed, fun q hq => .inl (hsub q (h.origin q hq)), fun q hq ha => ?_⟩
  rcases hq with hq | hq
  · exact h.kept q (.inl hq) ha
  · by_cases hkey : (q.scenarioName, q.entryId) = key
    · exact hall q ((hps q).mpr ⟨hq, hkey, ha⟩) ha
    · refine h.kept q (.inr (mem_filter.mpr ⟨hq, ?_⟩)) ha
      exact decide_eq_true hkey

theorem carries_requeueSubscribers (hk : Keyed r) (ho : OneLabel r) (keys : List BusKey) :
    Carries alive (fun _ => False) r (r.requeueSubscribers alive keys) := by
  induction keys generalizing r with
  | nil => exact .of_eq hk rfl rfl
  | cons key keys ih =>
    have h : Carries alive (fun _ => False) r (r.requeueKey alive key) := carries_requeueKey hk ho key
    exact h.trans (ih h.keyed (ho.carry h))

/-- The rows of the keys are gone. -/
theorem mem_requeueSubscribers {keys : List BusKey}
    (h : x ∈ (r.requeueSubscribers alive keys).subscribers) : x ∈ r.subscribers ∧ x.1 ∉ keys := by
  induction keys generalizing r with
  | nil => exact ⟨h, not_mem_nil⟩
  | cons key keys ih =>
    obtain ⟨hm, hn⟩ := ih h
    rw [(requeueKey_frame r alive key).2, mem_filter] at hm
    refine ⟨hm.1, fun hmem => ?_⟩
    rcases mem_cons.mp hmem with heq | hmem
    · simp [heq] at hm
    · exact hn hmem

/-! ## Sweeping -/

/-- The entry stays, goes with its downstream, or becomes a subscriber. -/
theorem carries_sweepKey (hk : Keyed r) (id : HandleId) :
    Carries alive (fun _ => False) r (r.sweepKey alive id).1 := by
  simp only [sweepKey]
  split
  · exact .of_eq hk rfl rfl
  rename_i entry hentry
  -- the other entries stay
  have hother {q : PendingResolution} (hq : r.pending.lookup q.handleId = some q) (hne : q ≠ entry) :
      (r.pending.erase id).lookup q.handleId = some q := by
    rw [AList.lookup_erase_ne]
    · exact hq
    · rintro rfl
      exact hne (Option.some.inj (hq.symm.trans hentry))
  have herase {id' : HandleId} {q : PendingResolution}
      (hq : (r.pending.erase id).lookup id' = some q) : r.pending.lookup id' = some q := by
    by_cases hid : id' = id
    · subst hid; rw [AList.lookup_erase] at hq; cases hq
    · rwa [AList.lookup_erase_ne hid] at hq
  split
  · rename_i hdead
    refine ⟨fun id' q hq => hk id' q (herase hq), fun q hq => .inl (hq.imp herase fun h => h),
      fun q hq ha => ⟨q, hq.imp (fun h => hother h ?_) fun h => h, rfl⟩⟩
    rintro rfl
    rw [hdead] at ha; cases ha
  · split
    · exact .of_eq hk rfl rfl
    · refine ⟨fun id' q hq => hk id' q (herase hq), fun q hq => .inl ?_, fun q hq _ => ⟨q, ?_, rfl⟩⟩
      · rcases hq with hq | hq
        · exact .inl (herase hq)
        · rcases mem_append.mp hq with hq | hq
          · exact .inr hq
          · have := intoPending_inj (mem_singleton.mp hq)
            rw [← this]
            refine .inl ?_
            change r.pending.lookup entry.handleId = some entry
            rw [hk id entry hentry]
            exact hentry
      · by_cases hqe : q = entry
        · exact .inr (mem_append_right _ (by rw [hqe]; exact mem_singleton_self _))
        · exact hq.imp (fun h => hother h hqe) (mem_append_left _)

theorem carries_sweepPending (hk : Keyed r) (order : List HandleId) :
    Carries alive (fun _ => False) r (sweepPending alive order r).1 := by
  induction order generalizing r with
  | nil => exact .of_eq hk rfl rfl
  | cons id order ih =>
    have h : Carries alive (fun _ => False) r (r.sweepKey alive id).1 := carries_sweepKey hk id
    exact h.trans (ih h.keyed)

theorem mem_sweepKey {id : HandleId} (h : x ∈ (r.sweepKey alive id).1.subscribers) : x ∈ r.subscribers ∨
      ∃ b, r.buses.lookup x.1 = some b ∧ (b, x.2.downstream) ∈ (r.sweepKey alive id).2 := by
  simp only [sweepKey] at h ⊢
  split at h
  · exact .inl h
  · split at h
    · exact .inl h
    · split at h
      · exact .inl h
      · rename_i hbus
        rcases mem_append.mp h with h | h
        · exact .inl h
        · rw [mem_singleton.mp h]
          refine .inr ⟨_, hbus, ?_⟩
          simp_all [SubscriberRef.fromPending]

/-- A new subscriber is subscribed to the bus of its key. -/
theorem mem_sweepPending {order : List HandleId}
    (h : x ∈ (sweepPending alive order r).1.subscribers) : x ∈ r.subscribers ∨
      ∃ b, r.buses.lookup x.1 = some b ∧
        (b, x.2.downstream) ∈ (sweepPending alive order r).2 := by
  induction order generalizing r with
  | nil => exact .inl h
  | cons id order ih =>
    rcases ih (r := (r.sweepKey alive id).1) h with h | ⟨b, hb, hm⟩
    · rcases mem_sweepKey h with h | ⟨b, hb, hm⟩
      · exact .inl h
      · exact .inr ⟨b, hb, mem_append_left _ hm⟩
    · rw [sweepKey_buses] at hb
      exact .inr ⟨b, hb, mem_append_right _ hm⟩

/-! ## Renaming -/

/-- The record of an old id under the new one. -/
def Relabelled (r : GateBusRegistry) (oldId newId : HandleId) (p : PendingResolution) : Prop :=
  ∃ q, Records r q ∧ q.handleId = oldId ∧ p = { q with handleId := newId }

theorem carries_renamePending (hk : Keyed r)
    (hone : ∀ p q, Records r p → Records r q → p.handleId = newId → q.handleId = oldId →
      p.downstream = q.downstream) :
    Carries alive (Relabelled r oldId newId) r (r.renamePending oldId newId) := by
  simp only [renamePending]
  split
  · exact .of_eq hk rfl rfl
  split
  · exact .of_eq hk rfl rfl
  rename_i hne entry hentry
  have hold := hk oldId entry hentry
  have hrec : Records r entry := .inl (hold ▸ hentry)
  have hmoved : Records { r with
      pending := (r.pending.erase oldId).insert newId { entry with handleId := newId } }
      { entry with handleId := newId } := .inl (AList.lookup_insert _)
  -- an entry after the renaming is the moved one, or one that stayed
  have hlook {id : HandleId} {q : PendingResolution} (h : ((r.pending.erase oldId).insert newId
      { entry with handleId := newId }).lookup id = some q) :
      id = newId ∧ q = { entry with handleId := newId } ∨ r.pending.lookup id = some q := by
    exact (lookup_insert_cases h).imp_right fun h => (lookup_erase_some h.2).2
  refine ⟨fun id q h => ?_, fun q h => ?_, fun q h _ => ?_⟩
  · rcases hlook h with ⟨rfl, rfl⟩ | h
    · rfl
    · exact hk id q h
  · rcases h with h | h
    · rcases hlook h with ⟨-, h⟩ | h
      · exact .inr ⟨entry, hrec, hold, h⟩
      · exact .inl (.inl h)
    · exact .inl (.inr h)
  · by_cases hn : q.handleId = newId
    · exact ⟨_, hmoved, (hone q entry h hrec hn hold).symm⟩
    · rcases h with h | h
      · by_cases ho : q.handleId = oldId
        · rw [ho, hentry] at h
          cases h
          exact ⟨_, hmoved, rfl⟩
        · refine ⟨q, .inl ?_, rfl⟩
          exact (AList.lookup_insert_ne hn).trans ((AList.lookup_erase_ne ho).trans h)
      · exact ⟨q, .inr h, rfl⟩

theorem renamePending_subscribers (r : GateBusRegistry) (oldId newId : HandleId) :
    (r.renamePending oldId newId).subscribers = r.subscribers := by
  simp only [renamePending]
  (repeat' split) <;> rfl

theorem carries_renameSubscribers (hk : Keyed r) :
    Carries alive (Relabelled r oldId newId) r (r.renameSubscribers oldId newId) := by
  simp only [renameSubscribers]
  split
  · exact .of_eq hk rfl rfl
  refine ⟨hk, fun q h => ?_, fun q h _ => ?_⟩
  · rcases h with h | h
    · exact .inl (.inl h)
    · obtain ⟨⟨key, sub⟩, hm, heq⟩ := mem_map.mp h
      split at heq
      · rename_i hid
        exact .inr ⟨sub.intoPending key.1 key.2, .inr hm, hid, (intoPending_inj heq.symm).symm⟩
      · exact .inl (.inr (heq ▸ hm))
  · rcases h with h | h
    · exact ⟨q, .inl h, rfl⟩
    · by_cases hid : q.handleId = oldId
      · exact ⟨{ q with handleId := newId }, .inr (mem_map.mpr ⟨_, h, if_pos hid⟩), rfl⟩
      · exact ⟨q, .inr (mem_map.mpr ⟨_, h, if_neg hid⟩), rfl⟩

/-- Renaming leaves each subscriber in its row. -/
theorem mem_renameSubscribers (h : x ∈ (r.renameSubscribers oldId newId).subscribers) :
    ∃ sub, (x.1, sub) ∈ r.subscribers ∧ sub.downstream = x.2.downstream := by
  simp only [renameSubscribers] at h
  split at h
  · exact ⟨x.2, h, rfl⟩
  · obtain ⟨p, hp, rfl⟩ := mem_map.mp h
    refine ⟨p.2, ?_, ?_⟩ <;> split <;> first | exact hp | rfl

end Sonda.Proof.Server
