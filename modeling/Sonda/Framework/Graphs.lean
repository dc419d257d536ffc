import Mathlib.Data.List.Chain
import Mathlib.Logic.Relation
import Mathlib.Order.WellFoundedSet

/-!
# Cycles of a finite graph

`Cyclic r` says that a vertex reaches itself. A vertex is `Grounded` if no endless walk
starts from it; a graph with finitely many vertices on its edges has a cycle or else all
its vertices are grounded (`Grounded.of_not_cyclic`, `not_cyclic_of_grounded`). A list is
`Topological` if it has the successors of each of its vertices before it; its vertices
are grounded (`Topological.grounded`).

A walk over labelled edges is the list of its vertices, each with the label of the edge
that leaves it (`Linked`); the label of the last one is free (`linked_relabel`).
-/

namespace Sonda.Framework

open List

section

variable {V : Type*} {r : V → V → Prop} {l : List V} {a : V}

/-! ## Cycles -/

def Cyclic (r : V → V → Prop) : Prop := ∃ a, Relation.TransGen r a a

/-- A cycle goes over to another graph with its edges. Each of them follows another. -/
theorem Cyclic.map {W : Type*} {q : W → W → Prop} (f : V → W)
    (hf : ∀ a b c, r a b → r b c → q (f b) (f c)) (h : Cyclic r) : Cyclic q := by
  obtain ⟨a, ha⟩ := h
  obtain ⟨c, -, hca⟩ := Relation.TransGen.tail'_iff.1 ha
  refine ⟨f a, ?_⟩
  suffices hwalk : ∀ b, Relation.TransGen r a b → Relation.TransGen q (f a) (f b) from hwalk a ha
  intro b hab
  induction hab with
  | single hab => exact .single (hf c a _ hca hab)
  | @tail b d hab hbd ih =>
    obtain ⟨e, -, heb⟩ := Relation.TransGen.tail'_iff.1 hab
    exact ih.tail (hf e b d heb hbd)

/-- No endless walk starts here. -/
def Grounded (r : V → V → Prop) : V → Prop := Acc (Function.swap r)

theorem Grounded.intro (h : ∀ b, r a b → Grounded r b) : Grounded r a := Acc.intro a h

theorem not_cyclic_of_grounded (h : ∀ a, Grounded r a) : ¬ Cyclic r := by
  intro ⟨a, ha⟩
  have hwf : WellFounded (Relation.TransGen (Function.swap r)) := (WellFounded.intro h).transGen
  exact hwf.irrefl.irrefl a (Relation.transGen_swap.2 ha)

theorem Grounded.of_not_cyclic {s : Set V} (hs : s.Finite) (hr : ∀ a b, r a b → a ∈ s ∧ b ∈ s)
    (h : ¬ Cyclic r) (a : V) : Grounded r a := by
  have horder : IsStrictOrder V (Relation.TransGen (Function.swap r)) :=
    { irrefl := fun a ha => h ⟨a, Relation.transGen_swap.1 ha⟩
      trans := fun _ _ _ => Relation.TransGen.trans }
  have hwf := Set.wellFoundedOn_iff.1 (hs.wellFoundedOn (r := Relation.TransGen (Function.swap r)))
  have hsub : Subrelation (Function.swap r)
      (fun b a => Relation.TransGen (Function.swap r) b a ∧ b ∈ s ∧ a ∈ s) :=
    fun {b a} hab => ⟨.single hab, (hr a b hab).2, (hr a b hab).1⟩
  exact (hsub.wf hwf).apply a

/-! ## Topological orders -/

/-- Every vertex comes after its successors. -/
def Topological (r : V → V → Prop) (l : List V) : Prop :=
  ∀ p a q, l = p ++ a :: q → ∀ b, r a b → b ∈ p

theorem Topological.concat (h : Topological r l) (ha : ∀ b, r a b → b ∈ l) :
    Topological r (l ++ [a]) := by
  intro p c q heq b hb
  rcases eq_nil_or_concat q with rfl | ⟨q', d, rfl⟩
  · obtain ⟨rfl, hac⟩ := append_inj' heq rfl
    obtain ⟨rfl, -⟩ := cons.inj hac
    exact ha b hb
  · rw [concat_eq_append, ← cons_append, ← append_assoc] at heq
    exact h p c q' (append_inj' heq rfl).1 b hb

theorem Topological.of_concat (h : Topological r (l ++ [a])) :
    Topological r l ∧ ∀ b, r a b → b ∈ l := by
  refine ⟨fun p c q heq => h p c (q ++ [a]) ?_, h l a [] rfl⟩
  rw [heq, append_assoc, cons_append]

theorem Topological.grounded (h : Topological r l) : ∀ a ∈ l, Grounded r a := by
  induction l using reverseRecOn with
  | nil => simp
  | append_singleton l a ih =>
    obtain ⟨hl, ha⟩ := h.of_concat
    have hprev := ih hl
    intro c hc
    rcases mem_append.1 hc with hc | hc
    · exact hprev c hc
    · rw [mem_singleton.1 hc]
      exact Grounded.intro fun b hb => hprev b (ha b hb)

end

/-! ## Walks over labelled edges -/

section

variable {V K : Type*} {edges : V → List (V × K)} {k k' : K} {l : List (V × K)} {b : V} {x : V × K}

/-- The graph without its labels. -/
def Leads (edges : V → List (V × K)) (a b : V) : Prop := ∃ k, (b, k) ∈ edges a

/-- Each vertex is left by an edge with its label, to the next one. -/
def Linked (edges : V → List (V × K)) (l : List (V × K)) : Prop :=
  l.IsChain fun a b => (b.1, a.2) ∈ edges a.1

theorem linked_relabel {a : V} (h : Linked edges (l ++ [(a, k)])) :
    Linked edges (l ++ [(a, k')]) := by
  obtain ⟨hl, -, hlast⟩ := isChain_append.1 h
  refine isChain_append.2 ⟨hl, .singleton _, ?_⟩
  intro x hx y hy
  obtain rfl : (a, k') = y := by simpa using hy
  exact hlast x hx (a, k) rfl

theorem Linked.concat (h : Linked edges l) (hb : ∀ x ∈ l.getLast?, (b, x.2) ∈ edges x.1) :
    Linked edges (l ++ [(b, k)]) := by
  refine isChain_append.2 ⟨h, .singleton _, ?_⟩
  intro x hx y hy
  obtain rfl : (b, k) = y := by simpa using hy
  exact hb x hx

/-- A walk of one edge at least that comes back to its start. -/
structure ClosedWalk (edges : V → List (V × K)) (l : List (V × K)) : Prop where
  linked : Linked edges l
  nontrivial : 2 ≤ l.length
  closed : l.head?.map Prod.fst = l.getLast?.map Prod.fst

theorem Linked.entered {a : V × K} (h : Linked edges (a :: l)) (hx : x ∈ l) :
    ∃ y ∈ a :: l, (x.1, y.2) ∈ edges y.1 := by
  induction l generalizing a with
  | nil => simp at hx
  | cons b l ih =>
    obtain ⟨hab, hl⟩ := isChain_cons_cons.1 h
    rcases mem_cons.1 hx with rfl | hx
    · exact ⟨a, mem_cons_self, hab⟩
    · obtain ⟨y, hy, hxy⟩ := ih hl hx
      exact ⟨y, mem_cons_of_mem a hy, hxy⟩

/-- Every vertex of a closed walk, its start too, is entered on the walk. -/
theorem ClosedWalk.entered (h : ClosedWalk edges l) (hx : x ∈ l) :
    ∃ y ∈ l, (x.1, y.2) ∈ edges y.1 := by
  obtain ⟨hlinked, hlen, hclosed⟩ := h
  match l, hlen with
  | a :: b :: l, _ =>
    rcases mem_cons.1 hx with rfl | hx
    · have hlast := getLast_mem (cons_ne_nil b l)
      obtain ⟨y, hy, hxy⟩ := hlinked.entered hlast
      refine ⟨y, hy, ?_⟩
      rw [Option.some.inj hclosed]
      exact hxy
    · exact hlinked.entered hx

/-- A walk that can go on to one of its vertices, closed there. -/
theorem Linked.close {i : Nat} (h : Linked edges l) (hi : l[i]? = some (b, k))
    (hb : ∀ x ∈ l.getLast?, (b, x.2) ∈ edges x.1) : ClosedWalk edges (l.drop i ++ [(b, k')]) := by
  obtain ⟨hlt, hget⟩ := List.getElem?_eq_some_iff.1 hi
  have hdrop : l.drop i = (b, k) :: l.drop (i + 1) := by rw [drop_eq_getElem_cons hlt, hget]
  refine ⟨Linked.concat (List.IsChain.drop h i) fun x hx => hb x ?_, ?_, ?_⟩
  · rw [getLast?_drop, if_neg (by omega)] at hx
    exact hx
  · simp [hdrop]
  · rw [getLast?_concat, hdrop]
    rfl

end

end Sonda.Framework
