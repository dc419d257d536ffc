import Mathlib.Order.WellFounded
import Mathlib.Tactic.Common

/-!
# Passes until nothing changes

A pass makes each of some steps once, in order, and notes whether one of them
changed the state; passes repeat until one changes nothing. When every step that
changes the state goes down a well-founded relation, the passes end, in a state
that no step changes (`settle_ends`). What every step keeps holds there too.
-/

namespace Sonda.Framework

variable {ι σ : Type}

/-- The steps of one pass; `true` once one has changed the state. A step is
`none` when it changes nothing. -/
def pass (step : ι → σ → Option σ) : List ι → σ × Bool → σ × Bool
  | [], s => s
  | i :: is, (s, changed) =>
    match step i s with
    | some s' => pass step is (s', true)
    | none => pass step is (s, changed)

/-- Passes until one changes nothing, `fuel` of them at most. -/
def settle (step : ι → σ → Option σ) (steps : List ι) : Nat → σ → Option σ
  | 0, _ => none
  | fuel + 1, s =>
    match pass step steps (s, false) with
    | (s', true) => settle step steps fuel s'
    | (s', false) => some s'

variable {step : ι → σ → Option σ}

/-- Once a step has changed the state, the pass says so. -/
theorem pass_changed (step : ι → σ → Option σ) (is : List ι) (s : σ) :
    (pass step is (s, true)).2 = true := by
  induction is generalizing s with
  | nil => rfl
  | cons i is ih =>
    rw [pass]
    split
    · exact ih _
    · exact ih _

/-- A pass that changes nothing leaves the state as it is, and so does each of
its steps. -/
theorem pass_unchanged {is : List ι} {s s' : σ} (h : pass step is (s, false) = (s', false)) :
    s' = s ∧ ∀ i ∈ is, step i s = none := by
  induction is with
  | nil => exact ⟨(congrArg Prod.fst h).symm, fun _ hi => absurd hi List.not_mem_nil⟩
  | cons i is ih =>
    rw [pass] at h
    split at h
    · have hchanged := pass_changed step is ‹σ›
      rw [h] at hchanged
      cases hchanged
    · rename_i hi
      obtain ⟨hs, his⟩ := ih h
      exact ⟨hs, List.forall_mem_cons.mpr ⟨hi, his⟩⟩

variable {r : σ → σ → Prop} {I : σ → Prop}

/-- A pass keeps what its steps keep, and goes down when it changes the state. -/
theorem pass_keeps [IsTrans σ r] {is : List ι}
    (hstep : ∀ i ∈ is, ∀ s s', I s → step i s = some s' → I s' ∧ r s' s) {s : σ} (changed : Bool)
    (hI : I s) :
    I (pass step is (s, changed)).1 ∧
      ((pass step is (s, changed)).2 = changed ∧ (pass step is (s, changed)).1 = s ∨
        r (pass step is (s, changed)).1 s) := by
  induction is generalizing s changed with
  | nil => exact ⟨hI, .inl ⟨rfl, rfl⟩⟩
  | cons i is ih =>
    have hrest : ∀ j ∈ is, ∀ s s', I s → step j s = some s' → I s' ∧ r s' s :=
      fun j hj => hstep j (List.mem_cons_of_mem _ hj)
    rw [pass]
    split
    · rename_i s' hs
      obtain ⟨hI', hr⟩ := hstep i List.mem_cons_self _ _ hI hs
      obtain ⟨hkeep, hdown⟩ := ih hrest true hI'
      refine ⟨hkeep, .inr ?_⟩
      rcases hdown with ⟨-, heq⟩ | hdown
      · rwa [heq]
      · exact IsTrans.trans _ _ _ hdown hr
    · exact ih hrest changed hI

/-- The passes end in a state that no step changes and that keeps what every
step keeps; more fuel does not change it. -/
theorem settle_ends [IsTrans σ r] (hwf : WellFounded r) {steps : List ι}
    (hstep : ∀ i ∈ steps, ∀ s s', I s → step i s = some s' → I s' ∧ r s' s) (s : σ) (hI : I s) :
    ∃ n s', (∀ fuel, n ≤ fuel → settle step steps fuel s = some s') ∧ I s' ∧
      ∀ i ∈ steps, step i s' = none := by
  induction s using hwf.induction with
  | _ s ih =>
    obtain ⟨hkeep, hdown⟩ := pass_keeps hstep false hI
    rcases hp : pass step steps (s, false) with ⟨s', changed⟩
    rw [hp] at hkeep hdown
    cases changed with
    | true =>
      have hr : r s' s := by
        rcases hdown with ⟨h, -⟩ | h
        · cases h
        · exact h
      obtain ⟨n, t, ht, hIt, hfix⟩ := ih s' hr hkeep
      refine ⟨n + 1, t, fun fuel hfuel => ?_, hIt, hfix⟩
      obtain ⟨fuel, rfl⟩ := Nat.exists_eq_add_of_le' hfuel
      rw [← Nat.add_assoc, settle, hp]
      exact ht _ (Nat.le_add_left _ _)
    | false =>
      obtain ⟨rfl, hfix⟩ := pass_unchanged hp
      refine ⟨1, s', fun fuel hfuel => ?_, hkeep, hfix⟩
      obtain ⟨fuel, rfl⟩ := Nat.exists_eq_add_of_le' hfuel
      rw [settle, hp]

end Sonda.Framework
