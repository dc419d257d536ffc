import Mathlib.Algebra.BigOperators.Group.List.Basic
import Mathlib.Algebra.GroupWithZero.Nat
import Mathlib.Algebra.Order.Group.Multiset
import Mathlib.Data.List.AList

/-!
# Counted claims

A table that keeps, for each key, an owner and a number, against the claims
that parties hold on its keys. `Counts table claims` says that the number at a
key is how often it is claimed, that the owner at a key is the one who claims
it, and that a key nobody claims is not in the table. `Counts.claim` and
`Counts.release` are the two ways a claim comes and goes.

`allClaims` are the claims of all parties, and `add_sum_set` is what they come
to when one party's change. `lookup_insert_cases` and `lookup_erase_some` are for tables kept as
association lists.
-/

namespace Sonda.Framework

open Multiset Function

section lookups

variable {α β : Type} [DecidableEq α] {l : AList fun _ : α => β} {a b : α} {x y : β}

theorem lookup_insert_cases (h : (l.insert a x).lookup b = some y) :
    b = a ∧ y = x ∨ b ≠ a ∧ l.lookup b = some y := by
  rcases eq_or_ne b a with rfl | hne
  · rw [AList.lookup_insert] at h
    exact .inl ⟨rfl, (Option.some.inj h).symm⟩
  · rw [AList.lookup_insert_ne hne] at h
    exact .inr ⟨hne, h⟩

theorem lookup_erase_some (h : (l.erase a).lookup b = some y) : b ≠ a ∧ l.lookup b = some y := by
  rcases eq_or_ne b a with rfl | hne
  · rw [AList.lookup_erase] at h
    exact nomatch h
  · rw [AList.lookup_erase_ne hne] at h
    exact ⟨hne, h⟩

end lookups

section counts

variable {O K : Type} [DecidableEq O] [DecidableEq K] {k : K} {n : Nat} {o : O}

/-- The table counts exactly these claims. -/
structure Counts (table : K → Option (O × Nat)) (claims : Multiset (O × K)) : Prop where
  absent {k : K} : table k = none → ∀ o, (o, k) ∉ claims
  present {k : K} {o : O} {n : Nat} : table k = some (o, n) → 0 < n ∧ claims.count (o, k) = n
  owner {k : K} {o o' : O} {n : Nat} : table k = some (o, n) → (o', k) ∈ claims → o' = o

variable {table : K → Option (O × Nat)} {claims : Multiset (O × K)}

theorem Counts.empty : Counts (fun _ : K => (none : Option (O × Nat))) 0 where
  absent _ _ := notMem_zero _
  present h := nomatch h
  owner h := nomatch h

section

variable (h : Counts table claims)

include h

/-- A claimed key is in the table, under the one who claims it. -/
theorem Counts.of_mem (hm : (o, k) ∈ claims) : table k = some (o, claims.count (o, k)) := by
  cases hk : table k with
  | none => exact absurd hm (h.absent hk o)
  | some p =>
    obtain rfl := h.owner hk hm
    rw [(h.present hk).2]

/-- A key in the table is claimed. -/
theorem Counts.mem (hk : table k = some (o, n)) : (o, k) ∈ claims := by
  obtain ⟨hn, hc⟩ := h.present hk
  rw [← count_pos, hc]
  exact hn

/-- How often a key is claimed, whoever claims it. -/
theorem Counts.countP_key (hk : table k = some (o, n)) : claims.countP (fun c => c.2 = k) = n := by
  rw [← (h.present hk).2, count]
  refine countP_congr rfl fun c hc => propext ⟨?_, fun e => e ▸ rfl⟩
  rintro rfl
  rw [← h.owner hk hc]

/-- One more claim on a key that is not in the table or belongs to the
claimant. -/
theorem Counts.claim (hk : ∀ p ∈ table k, p.1 = o) :
    Counts (Function.update table k (some (o, (table k).elim 0 Prod.snd + 1)))
      ((o, k) ::ₘ claims) where
  absent {j} hj := by
    rcases eq_or_ne j k with rfl | hne
    · simp at hj
    · rw [update_of_ne hne] at hj
      intro o' hm
      rcases mem_cons.mp hm with heq | hm
      · exact hne (congrArg Prod.snd heq)
      · exact h.absent hj o' hm
  present {j o' n} hj := by
    rcases eq_or_ne j k with rfl | hne
    · rw [update_self] at hj
      cases hj
      refine ⟨Nat.succ_pos _, ?_⟩
      rw [count_cons_self]
      congr 1
      cases ht : table j with
      | none => exact count_eq_zero.mpr (h.absent ht o)
      | some p =>
        obtain rfl := hk p ht
        exact (h.present ht).2
    · rw [update_of_ne hne] at hj
      rw [count_cons_of_ne (fun e => hne (congrArg Prod.snd e))]
      exact h.present hj
  owner {j o' o'' n} hj hm := by
    rcases eq_or_ne j k with rfl | hne
    · rw [update_self] at hj
      obtain ⟨rfl, -⟩ := Prod.mk.inj (Option.some.inj hj)
      rcases mem_cons.mp hm with heq | hm
      · exact congrArg Prod.fst heq
      · exact hk _ (h.of_mem hm)
    · rw [update_of_ne hne] at hj
      rcases mem_cons.mp hm with heq | hm
      · exact absurd (congrArg Prod.snd heq) hne
      · exact h.owner hj hm

end

/-- One claim less on a key: the number goes down, and with the last claim the
key leaves the table. -/
theorem Counts.release (h : Counts table ((o, k) ::ₘ claims)) (hk : table k = some (o, n)) :
    Counts (Function.update table k (if n - 1 = 0 then none else some (o, n - 1))) claims := by
  have hn : claims.count (o, k) = n - 1 := by
    rw [← (h.present hk).2, count_cons_self, Nat.add_sub_cancel]
  constructor
  case absent =>
    intro j hj o' hm
    rcases eq_or_ne j k with rfl | hne
    · obtain rfl := h.owner hk (mem_cons_of_mem hm)
      have hpos := count_pos.mpr hm
      rw [update_self, if_neg (by omega)] at hj
      exact nomatch hj
    · rw [update_of_ne hne] at hj
      exact h.absent hj o' (mem_cons_of_mem hm)
  case present =>
    intro j o' m hj
    rcases eq_or_ne j k with rfl | hne
    · rw [update_self] at hj
      split at hj
      · exact nomatch hj
      · cases hj
        exact ⟨by omega, hn⟩
    · rw [update_of_ne hne] at hj
      have hp := h.present hj
      rwa [count_cons_of_ne (fun e => hne (congrArg Prod.snd e))] at hp
  case owner =>
    intro j o' o'' m hj hm
    rcases eq_or_ne j k with rfl | hne
    · rw [update_self] at hj
      split at hj
      · exact nomatch hj
      · obtain ⟨rfl, -⟩ := Prod.mk.inj (Option.some.inj hj)
        exact h.owner hk (mem_cons_of_mem hm)
    · rw [update_of_ne hne] at hj
      exact h.owner hj (mem_cons_of_mem hm)

end counts

section parties

variable {P O K : Type} (owner : P → O) (listed : P → List K) {ps : List P} {o : O} {k : K}

/-- The claims of all parties, each on the keys it lists. -/
def allClaims (ps : List P) : Multiset (O × K) :=
  (ps.map fun p => (listed p : Multiset K).map fun k => (owner p, k)).sum

theorem mem_allClaims : (o, k) ∈ allClaims owner listed ps ↔ ∃ p ∈ ps, o = owner p ∧ k ∈ listed p := by
  unfold allClaims
  induction ps with
  | nil => simp
  | cons p ps ih =>
    rw [List.map_cons, List.sum_cons, mem_add, ih, List.exists_mem_cons_iff]
    simp [eq_comm, and_comm]

/-- How often the parties list a key. -/
theorem countP_allClaims [DecidableEq K] : (allClaims owner listed ps).countP (fun c => c.2 = k) =
    (ps.map fun p => (listed p).count k).sum := by
  unfold allClaims
  induction ps with
  | nil => rfl
  | cons p ps ih =>
    rw [List.map_cons, List.sum_cons, countP_add, ih, countP_map,
      ← countP_eq_card_filter, coe_countP, List.map_cons, List.sum_cons, List.count]
    congr

end parties

/-- The sum over a list when one element changes. -/
theorem add_sum_set {α M : Type} [AddCommMonoid M] (f : α → M) :
    ∀ {l : List α} {i : Nat} {a : α} (b : α), l[i]? = some a →
      f a + ((l.set i b).map f).sum = f b + (l.map f).sum
  | x :: l, 0, a, b, h => by
    cases h
    simp only [List.set_cons_zero, List.map_cons, List.sum_cons]
    exact add_left_comm _ _ _
  | x :: l, i + 1, a, b, h => by
    simp only [List.set_cons_succ, List.map_cons, List.sum_cons]
    rw [add_left_comm, add_sum_set f b (by simpa using h), add_left_comm]

end Sonda.Framework
