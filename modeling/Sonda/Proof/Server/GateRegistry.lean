import Sonda.Impl.Server.GateRegistry

/-!
# The maps of the registry

What each function of the registry does to its three maps, as far as the
proofs about launches and endings use it.
-/

namespace Sonda.Proof.Server

open Sonda.Server

variable (r : GateBusRegistry)

theorem mem_of_lookup {κ β : Type} [DecidableEq κ] {m : AList fun _ : κ => β} {k : κ} {v : β}
    (h : m.lookup k = some v) : k ∈ m :=
  AList.lookup_isSome.mp (by rw [h]; rfl)

/-! ## Buses -/

theorem lookup_foldl_erase {κ β : Type} [DecidableEq κ] (k : κ) :
    ∀ (ks : List κ) (m : AList fun _ : κ => β),
      (ks.foldl (fun m k => m.erase k) m).lookup k = if k ∈ ks then none else m.lookup k
  | [], _ => by simp
  | a :: ks, m => by
    rw [List.foldl_cons, lookup_foldl_erase k ks]
    by_cases hk : k = a
    · subst hk; simp
    · simp [AList.lookup_erase_ne hk, hk]

variable (name id : String) (k : BusKey)

theorem mem_retire_keys : k ∈ r.buses.keys.filter (fun k => k.1 == name && [id].contains k.2) ↔
      k = (name, id) ∧ k ∈ r.buses := by
  obtain ⟨n, i⟩ := k
  simp only [List.mem_filter, Bool.and_eq_true, beq_iff_eq, List.contains_iff_mem,
    List.mem_singleton, Prod.mk.injEq, AList.mem_keys]
  tauto

theorem lookup_retireBuses :
    (r.retireBuses name [id]).1.buses.lookup k = if k = (name, id) then none else r.buses.lookup k := by
  simp only [GateBusRegistry.retireBuses, lookup_foldl_erase, mem_retire_keys]
  by_cases hk : k = (name, id)
  · subst hk
    rw [if_pos rfl]
    split
    · rfl
    · rename_i hm
      exact AList.lookup_eq_none.mpr fun h => hm ⟨rfl, h⟩
  · simp [hk]

theorem mem_retired (b : BusRef) :
    (k, b) ∈ (r.retireBuses name [id]).2 ↔ k = (name, id) ∧ r.buses.lookup k = some b := by
  simp only [GateBusRegistry.retireBuses, List.mem_filterMap, mem_retire_keys, Option.map_eq_some_iff,
    Prod.mk.injEq]
  constructor
  · rintro ⟨k', ⟨rfl, -⟩, b', hb, rfl, rfl⟩
    exact ⟨rfl, hb⟩
  · rintro ⟨rfl, hb⟩
    exact ⟨_, ⟨rfl, mem_of_lookup hb⟩, b, hb, rfl, rfl⟩

theorem register_cases {name id : String} {b : BusRef} {r' : GateBusRegistry}
    (h : r.register name id b = .ok r') :
    (name, id) ∉ r.buses ∧ r' = { r with buses := r.buses.insert (name, id) b } := by
  simp only [GateBusRegistry.register] at h
  split at h <;> cases h
  exact ⟨by assumption, rfl⟩

variable (alive : HandleRef → Bool)

theorem sweepKey_buses (id : HandleId) : (r.sweepKey alive id).1.buses = r.buses := by
  simp only [GateBusRegistry.sweepKey]
  (repeat' split) <;> rfl

theorem sweepPending_buses (alive : HandleRef → Bool) :
    ∀ (order : List HandleId) (r : GateBusRegistry),
      (GateBusRegistry.sweepPending alive order r).1.buses = r.buses
  | [], _ => rfl
  | id :: order, r => (sweepPending_buses alive order _).trans (sweepKey_buses r alive id)

theorem requeueKey_frame (key : BusKey) : (r.requeueKey alive key).buses = r.buses ∧
      (r.requeueKey alive key).subscribers = r.subscribers.filter fun p => p.1 ≠ key := by
  have hfold (row : List (BusKey × SubscriberRef)) (r : GateBusRegistry) :
      (row.foldl (fun r p => r.insertPending (p.2.intoPending key.1 key.2)) r).buses = r.buses ∧
        (row.foldl (fun r p => r.insertPending (p.2.intoPending key.1 key.2)) r).subscribers =
          r.subscribers := by
    induction row generalizing r with
    | nil => exact ⟨rfl, rfl⟩
    | cons p row ih => exact ih _
  exact hfold _ _

theorem requeueSubscribers_buses (keys : List BusKey) :
    (r.requeueSubscribers alive keys).buses = r.buses := by
  induction keys generalizing r with
  | nil => rfl
  | cons key keys ih => exact (ih _).trans (requeueKey_frame r alive key).1

theorem renamePending_buses (oldId newId : HandleId) :
    (r.renamePending oldId newId).buses = r.buses := by
  simp only [GateBusRegistry.renamePending]
  (repeat' split) <;> rfl

theorem renameSubscribers_buses (oldId newId : HandleId) :
    (r.renameSubscribers oldId newId).buses = r.buses := by
  simp only [GateBusRegistry.renameSubscribers]
  split <;> rfl

end Sonda.Proof.Server
