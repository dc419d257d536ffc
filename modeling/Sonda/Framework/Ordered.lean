import Mathlib.Data.List.Sort
import Mathlib.Order.Defs.LinearOrder

/-!
# Lists in the order of a key

A list whose keys strictly increase is an ordered table. What comes after a key
in it is a filter (`filter_after_head`: the head's successors are the tail), and
two such tables with no key in common merge into one (`ordered_mergeKeys`),
filtered before or after (`mergeKeys_filter`). An element goes to the place of
its key (`ordered_insertKey`), where the key finds it (`find_insertKey`,
`value_insertKey`), the last one when its key is beyond the others (`insertKey_last`).
-/

namespace Sonda.Framework

open List

section

variable {α β : Type} [LinearOrder β] {key : α → β} {l r : List α} {a x : α}

/-- The keys strictly increase. -/
def Ordered (key : α → β) (l : List α) : Prop := l.Pairwise fun a b => key a < key b

/-- What a filter keeps after its first element is what it keeps beyond that
element's key. -/
theorem filter_after_head [DecidableLT β] {keep : α → Bool} (h : Ordered key l) {a : β}
    {xs : List α} (hx : l.filter (fun y => decide (a < key y) && keep y) = x :: xs) :
    l.filter (fun y => decide (key x < key y) && keep y) = xs := by
  induction l with
  | nil => exact nomatch hx
  | cons y l ih =>
    obtain ⟨hy, hl⟩ := pairwise_cons.mp h
    rw [filter_cons] at hx ⊢
    split at hx
    · rename_i hkeep
      obtain ⟨rfl, rfl⟩ := cons.inj hx
      have hay : a < key y := of_decide_eq_true (Bool.and_eq_true_iff.mp hkeep).1
      rw [if_neg (by simp)]
      refine filter_congr fun z hz => ?_
      rw [decide_eq_true (hy z hz), decide_eq_true (hay.trans (hy z hz))]
    · have hmem : x ∈ l.filter (fun y => decide (a < key y) && keep y) := by
        rw [hx]
        exact mem_cons_self
      have hyx : key y < key x := hy x (mem_filter.mp hmem).1
      rw [if_neg (by simp [hyx.le])]
      exact ih hl hx

/-- In an ordered table what is beyond a key is what is left once the rest is
dropped. -/
theorem dropWhile_eq_filter [DecidableLT β] [DecidableLE β] (h : Ordered key l) (a : β) :
    l.dropWhile (fun y => decide (key y ≤ a)) = l.filter fun y => decide (a < key y) := by
  induction l with
  | nil => rfl
  | cons y l ih =>
    obtain ⟨hy, hl⟩ := pairwise_cons.mp h
    rw [dropWhile_cons, filter_cons]
    by_cases hya : key y ≤ a
    · rw [if_pos (by simpa using hya), if_neg (by simpa using hya), ih hl]
    · have hall : ∀ z ∈ l, decide (a < key z) = true :=
        fun z hz => decide_eq_true ((not_le.mp hya).trans (hy z hz))
      rw [if_neg (by simpa using hya), if_pos (by simpa using hya), filter_eq_self.mpr hall]

/-- The left element goes first unless the right one is smaller. -/
def mergeKeys [DecidableLE β] (key : α → β) (l r : List α) : List α :=
  l.merge r fun a b => decide (key a ≤ key b)

theorem mem_mergeKeys [DecidableLE β] :
    a ∈ mergeKeys key l r ↔ a ∈ l ∨ a ∈ r := mem_merge

theorem ordered_mergeKeys [DecidableLE β] (hl : Ordered key l) (hr : Ordered key r)
    (hd : ∀ a ∈ l, ∀ b ∈ r, key a ≠ key b) : Ordered key (mergeKeys key l r) := by
  have hle : (mergeKeys key l r).Pairwise fun a b => key a ≤ key b := by
    have hmerge := @pairwise_merge α (fun a b => decide (key a ≤ key b))
      (fun a b c hab hbc => decide_eq_true ((of_decide_eq_true hab).trans (of_decide_eq_true hbc)))
      (fun a b => by simpa using le_total (key a) (key b)) l r
      (hl.imp fun h => decide_eq_true h.le) (hr.imp fun h => decide_eq_true h.le)
    exact hmerge.imp of_decide_eq_true
  have hne : (l ++ r).Pairwise fun a b => key a ≠ key b :=
    pairwise_append.mpr ⟨hl.imp fun h => h.ne, hr.imp fun h => h.ne, hd⟩
  have hne' : (mergeKeys key l r).Pairwise fun a b => key a ≠ key b :=
    (merge_perm_append _).symm.pairwise hne fun h => h.symm
  exact (hle.and hne').imp fun h => lt_of_le_of_ne h.1 h.2

theorem mergeKeys_filter [DecidableLE β] (hl : Ordered key l) (hr : Ordered key r)
    (hd : ∀ a ∈ l, ∀ b ∈ r, key a ≠ key b) (keep : α → Bool) :
    mergeKeys key (l.filter keep) (r.filter keep) = (mergeKeys key l r).filter keep := by
  have hf : Ordered key (mergeKeys key (l.filter keep) (r.filter keep)) :=
    ordered_mergeKeys (hl.filter _) (hr.filter _) fun a ha b hb =>
      hd a (mem_of_mem_filter ha) b (mem_of_mem_filter hb)
  refine List.Perm.eq_of_pairwise (fun _ _ _ _ hab hba => absurd hab hba.asymm) hf
    ((ordered_mergeKeys hl hr hd).filter _) ?_
  have hp : (mergeKeys key (l.filter keep) (r.filter keep)).Perm ((l ++ r).filter keep) := by
    rw [filter_append]
    exact merge_perm_append _
  exact hp.trans ((merge_perm_append _).symm.filter keep)

/-- `a` in the place of its key, instead of what has that key. -/
def insertKey [DecidableLT β] [DecidableEq β] (key : α → β) (a : α) : List α → List α
  | [] => [a]
  | b :: l =>
    if key a < key b then a :: b :: l
    else if key a = key b then a :: l
    else b :: insertKey key a l

theorem mem_insertKey [DecidableLT β] [DecidableEq β] (h : x ∈ insertKey key a l) :
    x = a ∨ x ∈ l := by
  induction l with
  | nil => exact .inl (mem_singleton.mp h)
  | cons b l ih =>
    rw [insertKey] at h
    split at h
    · exact mem_cons.mp h
    · split at h
      · rcases mem_cons.mp h with h | h
        · exact .inl h
        · exact .inr (mem_cons_of_mem _ h)
      · rcases mem_cons.mp h with rfl | h
        · exact .inr mem_cons_self
        · exact (ih h).imp_right (mem_cons_of_mem _)

theorem ordered_insertKey [DecidableLT β] [DecidableEq β] (h : Ordered key l) :
    Ordered key (insertKey key a l) := by
  induction l with
  | nil => exact pairwise_singleton _ _
  | cons b l ih =>
    obtain ⟨hb, hl⟩ := pairwise_cons.mp h
    rw [insertKey]
    split
    · rename_i hab
      exact pairwise_cons.mpr ⟨forall_mem_cons.mpr ⟨hab, fun x hx => hab.trans (hb x hx)⟩, h⟩
    · split
      · rename_i hab
        exact pairwise_cons.mpr ⟨fun x hx => hab ▸ hb x hx, hl⟩
      · rename_i hlt hne
        have hba : key b < key a := lt_of_le_of_ne (not_lt.mp hlt) (Ne.symm hne)
        refine pairwise_cons.mpr ⟨fun x hx => ?_, ih hl⟩
        rcases mem_insertKey hx with rfl | hx
        · exact hba
        · exact hb x hx

/-- What a key finds after an insert. -/
theorem find_insertKey [DecidableLT β] [DecidableEq β] (a : α) (k : β) (l : List α) :
    (insertKey key a l).find? (fun e => decide (key e = k)) =
      if key a = k then some a else l.find? fun e => decide (key e = k) := by
  induction l with
  | nil =>
    rw [insertKey, find?_singleton]
    by_cases h : key a = k <;> simp [h]
  | cons b l ih =>
    rw [insertKey]
    split
    · by_cases h : key a = k <;> simp [h]
    · split
      · rename_i hab
        by_cases h : key a = k
        · simp [h]
        · have hb : ¬ key b = k := fun hb => h (hab.trans hb)
          simp [h, hb]
      · rename_i hab
        rw [find?_cons, find?_cons, ih]
        by_cases h : key a = k
        · have hb : ¬ key b = k := fun hb => hab (h.trans hb.symm)
          simp [h, hb]
        · simp [h]

/-- The value that a key finds after an insert, where the order of the keys is that of
their images. -/
theorem value_insertKey {K γ : Type} [BEq K] [LawfulBEq K] [DecidableEq K] [DecidableLT β] [DecidableEq β]
    {f : K → β} (hf : Function.Injective f) (k k' : K) (v : γ) (l : List (K × γ)) :
    ((insertKey (fun e => f e.1) (k, v) l).find? fun e => e.1 == k').map Prod.snd =
      if k = k' then some v else (l.find? fun e => e.1 == k').map Prod.snd := by
  have hfind : (fun e : K × γ => e.1 == k') = fun e => decide (f e.1 = f k') := by
    funext e
    rw [Bool.eq_iff_iff, beq_iff_eq, decide_eq_true_eq]
    exact hf.eq_iff.symm
  rw [hfind, find_insertKey]
  simp only [hf.eq_iff]
  split <;> rfl

/-- Texts go by their octets. -/
theorem octets_injective : Function.Injective (List.map UInt8.toNat) :=
  map_injective_iff.mpr fun _ _ => UInt8.toNat_inj.mp

/-- A key beyond the others goes last. -/
theorem insertKey_last [DecidableLT β] [DecidableEq β] (h : ∀ b ∈ l, key b < key a) :
    insertKey key a l = l ++ [a] := by
  induction l with
  | nil => rfl
  | cons b l ih =>
    obtain ⟨hb, hl⟩ := forall_mem_cons.mp h
    rw [insertKey, if_neg hb.asymm, if_neg hb.ne', ih hl, cons_append]

end

end Sonda.Framework
