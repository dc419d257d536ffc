import Mathlib.Data.List.AList

/-!
# Hash maps with buckets

A map from hashes to the entries that have them, in the order they were added.
An entry is found by its hash and then by its key, so entries of other keys
with the same hash do not matter: `entry` is what is found for a key, and
`entry_push` and `entry_update` say what a new entry and a change of the entry
of one key do to it. Nothing is assumed of the hash.
-/

namespace Sonda.Framework

/-- The first element that meets `p`, changed by `f`. -/
def updateFirst {α : Type} (p : α → Bool) (f : α → α) : List α → List α
  | [] => []
  | a :: as => if p a then f a :: as else a :: updateFirst p f as

/-- A change of the first element with one key is seen under that key only. -/
theorem find?_updateFirst {α κ : Type} [DecidableEq κ] {key : α → κ} {f : α → α}
    (hf : ∀ a, key (f a) = key a) (k₀ k : κ) (as : List α) :
    (updateFirst (fun a => decide (key a = k₀)) f as).find? (fun a => decide (key a = k)) =
      if k = k₀ then (as.find? fun a => decide (key a = k)).map f
      else as.find? fun a => decide (key a = k) := by
  induction as with
  | nil => simp [updateFirst]
  | cons a as ih =>
    unfold updateFirst
    by_cases ha : key a = k₀
    · rw [if_pos (decide_eq_true ha)]
      by_cases hk : k = k₀
      · simp only [List.find?_cons, hf, ha, hk, decide_true, if_true, Option.map_some]
      · have hne : ¬ key a = k := fun h => hk (h.symm.trans ha)
        simp only [List.find?_cons, hf, decide_eq_false hne, if_neg hk]
    · rw [if_neg (mt of_decide_eq_true ha)]
      by_cases hk : key a = k
      · have hne : ¬ k = k₀ := fun h => ha (hk.trans h)
        simp only [List.find?_cons, decide_eq_true hk, if_neg hne]
      · simp only [List.find?_cons, decide_eq_false hk, ih]

/-- The entries that have each hash. -/
abbrev Buckets (η ε : Type) := AList (fun _ : η => List ε)

namespace Buckets

variable {η ε κ : Type} [DecidableEq η] [DecidableEq κ]

def bucket (b : Buckets η ε) (h : η) : List ε := (b.lookup h).getD []

/-- The first entry with the hash `h` that meets `p`. -/
def find (b : Buckets η ε) (h : η) (p : ε → Bool) : Option ε := (b.bucket h).find? p

/-- A new entry. -/
def push (b : Buckets η ε) (h : η) (e : ε) : Buckets η ε := b.insert h (b.bucket h ++ [e])

/-- The entry that `find` finds, changed by `f`. -/
def update (b : Buckets η ε) (h : η) (p : ε → Bool) (f : ε → ε) : Buckets η ε :=
  b.insert h (updateFirst p f (b.bucket h))

theorem bucket_insert (b : Buckets η ε) (h h' : η) (es : List ε) :
    bucket (b.insert h es) h' = if h' = h then es else b.bucket h' := by
  unfold bucket
  by_cases heq : h' = h
  · rw [if_pos heq, heq, AList.lookup_insert]
    rfl
  · rw [if_neg heq, AList.lookup_insert_ne heq]

variable (hash : κ → η) (key : ε → κ)

/-- What is found for a key. -/
def entry (b : Buckets η ε) (k : κ) : Option ε := b.find (hash k) fun e => decide (key e = k)

theorem entry_push (b : Buckets η ε) (e : ε) (k : κ) : entry hash key (b.push (hash (key e)) e) k =
      if k = key e then (entry hash key b k).or (some e) else entry hash key b k := by
  unfold entry find push
  rw [bucket_insert]
  by_cases hk : k = key e
  · simp only [hk, if_true, List.find?_append, List.find?_cons, decide_true]
  · rw [if_neg hk]
    by_cases hh : hash k = hash (key e)
    · have hne : ¬ key e = k := fun h => hk h.symm
      simp only [hh, if_true, List.find?_append, List.find?_cons, decide_eq_false hne, List.find?_nil,
        Option.or_none]
    · rw [if_neg hh]

theorem entry_update {f : ε → ε} (hf : ∀ e, key (f e) = key e) (b : Buckets η ε) (k₀ k : κ) :
    entry hash key (b.update (hash k₀) (fun e => decide (key e = k₀)) f) k =
      if k = k₀ then (entry hash key b k).map f else entry hash key b k := by
  unfold entry find update
  rw [bucket_insert]
  by_cases hh : hash k = hash k₀
  · rw [if_pos hh, hh]
    exact find?_updateFirst hf k₀ k _
  · have hk : ¬ k = k₀ := fun h => hh (by rw [h])
    rw [if_neg hh, if_neg hk]

end Buckets

end Sonda.Framework
