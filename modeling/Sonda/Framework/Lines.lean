import Mathlib.Data.List.Basic

/-!
# Lists of ended lines

A line holds no end mark and is written with one behind it. `splitOn_ended` reads the lines
back, `mem_intercalate` says what stands between separators, and `takeWhile_run` where a run ends.
-/

namespace Sonda.Framework

open List

variable {α : Type*}

/-- One line: the end mark is its last element and stands nowhere else. -/
def IsLine (mark : α) (text : List α) : Prop := ∃ body, mark ∉ body ∧ text = body ++ [mark]

theorem isLine_concat {mark : α} {body : List α} : IsLine mark (body ++ [mark]) ↔ mark ∉ body := by
  refine ⟨fun ⟨body', hbody, heq⟩ => ?_, fun h => ⟨body, h, rfl⟩⟩
  rwa [append_cancel_right heq]

/-- An element that is not the separator stands in one of the parts. -/
theorem mem_intercalate {a sep : α} (h : a ≠ sep) (ls : List (List α)) :
    a ∈ [sep].intercalate ls ↔ ∃ l ∈ ls, a ∈ l := by
  induction ls with
  | nil => simp
  | cons l ls ih =>
    cases ls with
    | nil => simp
    | cons l' ls =>
      rw [intercalate_cons_cons, mem_append, mem_append, ih]
      simp [h]

/-- A run of elements of a kind ends at the first element of another. -/
theorem takeWhile_run {p : α → Bool} {run : List α} (hrun : ∀ a ∈ run, p a = true) {c : α} (hc : p c = false)
    (rest : List α) :
    (run ++ c :: rest).takeWhile p = run ∧ (run ++ c :: rest).dropWhile p = c :: rest := by
  rw [takeWhile_append_of_pos hrun, dropWhile_append_of_pos hrun,
    takeWhile_cons_of_neg (by simp [hc]), dropWhile_cons_of_neg (by simp [hc]), append_nil]
  exact ⟨rfl, rfl⟩

variable [DecidableEq α]

/-- Ended lines are split into these lines, and what follows the last mark. -/
theorem splitOn_ended {mark : α} {ls : List (List α)} (h : ∀ line ∈ ls, mark ∉ line) :
    (ls.flatMap fun line => line ++ [mark]).splitOn mark = ls ++ [[]] := by
  induction ls with
  | nil => rfl
  | cons line ls ih =>
    obtain ⟨hline, hls⟩ := forall_mem_cons.1 h
    rw [flatMap_cons, append_assoc, singleton_append,
      splitOn_append_cons_self_of_not_mem hline, ih hls, cons_append]

end Sonda.Framework
