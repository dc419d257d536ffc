import Mathlib.Order.Monotone.Defs
import Mathlib.Order.Nat

/-!
# Blocks appended while they fit

`appendFitting fits blocks out` appends blocks to `out` one by one, until one
does not fit. Lists of blocks are appended one after the other
(`appendFitting_append`), and for a monotone cost what is appended is the
longest front of the blocks that the budget holds (`appendFitting_longest`).
-/

namespace Sonda.Framework

open List

variable {α : Type}

/-- The result, and whether all blocks fitted. -/
def appendFitting (fits : List α → Nat → Bool) : List (List α) → List α → List α × Bool
  | [], out => (out, true)
  | block :: blocks, out =>
    if fits out block.length then appendFitting fits blocks (out ++ block) else (out, false)

variable {fits : List α → Nat → Bool}

theorem appendFitting_append (xs ys : List (List α)) (out : List α) :
    appendFitting fits (xs ++ ys) out =
      if (appendFitting fits xs out).2 then appendFitting fits ys (appendFitting fits xs out).1
      else appendFitting fits xs out := by
  induction xs generalizing out with
  | nil => rfl
  | cons block xs ih =>
    rw [cons_append, appendFitting, appendFitting]
    by_cases hfits : fits out block.length = true
    · rw [if_pos hfits, if_pos hfits, ih]
    · rw [if_neg hfits, if_neg hfits]
      rfl

/-- Nothing that was there is changed. -/
theorem appendFitting_extends (blocks : List (List α)) (out : List α) :
    ∃ more, (appendFitting fits blocks out).1 = out ++ more := by
  induction blocks generalizing out with
  | nil => exact ⟨[], (append_nil _).symm⟩
  | cons block blocks ih =>
    rw [appendFitting]
    split
    · obtain ⟨more, hmore⟩ := ih (out ++ block)
      exact ⟨block ++ more, by rw [hmore, append_assoc]⟩
    · exact ⟨[], (append_nil _).symm⟩

theorem appendFitting_longest {cost : Nat → Nat} {start budget : Nat} (hcost : Monotone cost)
    (hfits : ∀ out n, fits out n = decide (cost (out.length - start + n) ≤ budget))
    (blocks : List (List α)) : ∀ {out : List α}, start ≤ out.length →
    ∃ k ≤ blocks.length, (appendFitting fits blocks out).1 = out ++ (blocks.take k).flatten ∧
      ∀ j, 0 < j → j ≤ blocks.length →
        (cost (out.length - start + (blocks.take j).flatten.length) ≤ budget ↔ j ≤ k) := by
  induction blocks with
  | nil =>
    intro out _
    refine ⟨0, Nat.le_refl _, by simp [appendFitting], fun j hpos hj => ?_⟩
    exact absurd hpos (Nat.not_lt.mpr hj)
  | cons block blocks ih =>
    intro out hstart
    have hfirst : ∀ j, ((block :: blocks).take (j + 1)).flatten.length =
        block.length + (blocks.take j).flatten.length := by
      intro j
      rw [take_succ_cons, flatten_cons, length_append]
    rw [appendFitting]
    by_cases hfit : cost (out.length - start + block.length) ≤ budget
    · obtain ⟨k, hk, heq, hlongest⟩ := @ih (out ++ block) (by rw [length_append]; omega)
      rw [if_pos (by rw [hfits]; exact decide_eq_true hfit)]
      refine ⟨k + 1, Nat.succ_le_succ hk, ?_, fun j hpos hj => ?_⟩
      · rw [heq, take_succ_cons, flatten_cons, append_assoc]
      · obtain ⟨j, rfl⟩ := Nat.exists_eq_add_one.mpr hpos
        rw [hfirst]
        rcases Nat.eq_zero_or_pos j with rfl | hj0
        · simpa using hfit
        · have hat : out.length - start + (block.length + (blocks.take j).flatten.length) =
              (out ++ block).length - start + (blocks.take j).flatten.length := by
            rw [length_append]
            omega
          rw [hat, hlongest j hj0 (Nat.le_of_succ_le_succ hj), Nat.succ_le_succ_iff]
    · rw [if_neg (by rw [hfits]; simpa using hfit)]
      refine ⟨0, Nat.zero_le _, by simp, fun j hpos _ => ?_⟩
      obtain ⟨j, rfl⟩ := Nat.exists_eq_add_one.mpr hpos
      have hmore : cost (out.length - start + block.length) ≤
          cost (out.length - start + (block.length + (blocks.take j).flatten.length)) :=
        hcost (by omega)
      rw [hfirst]
      constructor
      · exact fun h => absurd (hmore.trans h) hfit
      · exact fun h => absurd h (by omega)

end Sonda.Framework
