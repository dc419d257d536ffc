import Mathlib.Data.List.Basic
import Mathlib.Data.Prod.Lex
import Mathlib.Tactic.Common

/-!
# Patterns with wildcards for runs

A pattern aligns with the front of a list: an element of it that is a wildcard
takes any run of the list, any other element one that it fits (`alignsBy`). The
search `alignsFrom` keeps the latest wildcard only: on a mismatch that wildcard
takes one element more. It ends with the answer of the definition
(`alignsFrom_eq`), since what an earlier wildcard could still take, the latest one
can take as well (`alignsBy_of_retry`).
-/

namespace Sonda.Framework

open List

variable {π α : Type} (isRun : π → Bool) (fits : π → α → Bool)
variable (wanted after : List π) (e : α) (rest series : List α) {run : Option (List π × List α)}
  {element first : π}

/-- The alignment by its definition. -/
def alignsBy : List π → List α → Bool
  | [], _ => true
  | first :: rest, series =>
    if isRun first then
      (List.range (series.length + 1)).any fun taken => alignsBy rest (series.drop taken)
    else series.head?.any (fits first) && alignsBy rest series.tail

/-- The latest wildcard takes one element more, if there is one. -/
def takeMore (run : Option (List π × List α)) : Option (List π × List α) :=
  match run with
  | some (after, _ :: rest) => some (after, rest)
  | _ => none

/-- The search, from what is left of the pattern and of the list. `run` is what
follows the latest wildcard in the pattern and what follows its run in the list. -/
def alignsFrom : Nat → List π → List α → Option (List π × List α) → Option Bool
  | 0, _, _, _ => none
  | _ + 1, [], _, _ => some true
  | fuel + 1, element :: wanted, series, run =>
    if isRun element then alignsFrom fuel wanted series (some (wanted, series))
    else if series.head?.any (fits element) then alignsFrom fuel wanted series.tail run
    else
      match takeMore run with
      | some (after, rest) => alignsFrom fuel after rest (some (after, rest))
      | none => some false

/-- The latest wildcard takes more than it has. -/
def retries (run : Option (List π × List α)) : Bool :=
  match run with
  | none => false
  | some (after, rest) => (List.range rest.length).any fun k => alignsBy isRun fits after (rest.drop (k + 1))

/-- The search stands where the elements after the latest wildcard were aligned
from the end of its run. -/
def Held (wanted : List π) (series : List α) (run : Option (List π × List α)) : Prop :=
  ∀ after rest, run = some (after, rest) → ∃ aligned, after = aligned ++ wanted ∧
    (∀ w ∈ aligned, isRun w = false) ∧ aligned.length ≤ rest.length ∧ series = rest.drop aligned.length

/-- Fewer elements after the latest wildcard, then fewer after its run, then fewer
to align. -/
def remaining (wanted : List π) (run : Option (List π × List α)) : Nat ×ₗ Nat ×ₗ Nat :=
  match run with
  | none => toLex (wanted.length, toLex (0, 0))
  | some (after, rest) => toLex (after.length, toLex (rest.length, wanted.length))

variable {isRun fits}

theorem alignsBy_run (h : isRun first = true) {rest : List π} {series : List α} :
    alignsBy isRun fits (first :: rest) series = true ↔
      ∃ taken ≤ series.length, alignsBy isRun fits rest (series.drop taken) = true := by
  rw [alignsBy, if_pos h, any_eq_true]
  simp only [mem_range, Nat.lt_succ_iff]

/-- What follows a wildcard aligns after what precedes it. -/
theorem alignsBy_append {aligned : List π} (h : ∀ w ∈ aligned, isRun w = false)
    (hfirst : isRun first = true) {rest : List π} {series : List α}
    (ha : alignsBy isRun fits (aligned ++ first :: rest) series = true) :
    ∃ taken, aligned.length ≤ taken ∧ taken ≤ series.length ∧
      alignsBy isRun fits rest (series.drop taken) = true := by
  induction aligned generalizing series with
  | nil =>
    obtain ⟨taken, hle, ha⟩ := (alignsBy_run hfirst).mp ha
    exact ⟨taken, Nat.zero_le _, hle, ha⟩
  | cons w aligned ih =>
    rw [cons_append, alignsBy, h w mem_cons_self] at ha
    cases series with
    | nil => cases ha
    | cons e series =>
      obtain ⟨taken, hge, hle, ha⟩ := ih (fun x hx => h x (mem_cons_of_mem _ hx))
        (Bool.and_eq_true_iff.mp ha).2
      exact ⟨taken + 1, Nat.succ_le_succ hge, Nat.succ_le_succ hle, ha⟩

/-- At a further wildcard, nothing is lost of what the latest one could take. -/
theorem alignsBy_of_retry (hrun : isRun element = true) {wanted : List π} {series : List α}
    (hheld : Held isRun (element :: wanted) series run) (h : retries isRun fits run = true) :
    alignsBy isRun fits (element :: wanted) series = true := by
  cases run with
  | none => cases h
  | some ends =>
    obtain ⟨after, rest⟩ := ends
    obtain ⟨aligned, rfl, hno, hlen, rfl⟩ := hheld after rest rfl
    obtain ⟨k, hk, ha⟩ := any_eq_true.mp h
    rw [mem_range] at hk
    obtain ⟨taken, hge, hle, ha⟩ := alignsBy_append hno hrun ha
    rw [length_drop] at hle
    rw [drop_drop] at ha
    refine (alignsBy_run hrun).mpr ⟨k + 1 + taken - aligned.length, ?_, ?_⟩
    · rw [length_drop]
      omega
    · rw [drop_drop]
      rwa [show aligned.length + (k + 1 + taken - aligned.length) = k + 1 + taken by omega]

/-- A wildcard takes nothing, or more. -/
theorem alignsBy_run_eq (h : isRun first = true) (rest : List π) (series : List α) :
    alignsBy isRun fits (first :: rest) series =
      (alignsBy isRun fits rest series || retries isRun fits (some (rest, series))) := by
  rw [alignsBy, if_pos h, range_succ_eq_map, any_cons, any_map, drop_zero]
  rfl

theorem retries_cons : retries isRun fits (some (after, e :: rest)) =
      (alignsBy isRun fits after rest || retries isRun fits (some (after, rest))) := by
  rw [retries, retries, length_cons, range_succ_eq_map, any_cons, any_map]
  rfl

theorem alignsBy_cons (h : isRun element = false) (wanted : List π) (series : List α) :
    alignsBy isRun fits (element :: wanted) series =
      (series.head?.any (fits element) && alignsBy isRun fits wanted series.tail) := by
  rw [alignsBy, h, if_neg Bool.false_ne_true]

/-! ## The states of the search -/

theorem takeMore_eq_some {after : List π} {rest : List α} (h : takeMore run = some (after, rest)) :
    ∃ e, run = some (after, e :: rest) := by
  unfold takeMore at h
  split at h
  · rename_i e _
    cases h
    exact ⟨e, rfl⟩
  · cases h

theorem retries_of_takeMore_none (h : takeMore run = none) : retries isRun fits run = false := by
  unfold takeMore at h
  split at h
  · cases h
  · rename_i hne
    match run, hne with
    | none, _ => rfl
    | some (_, []), _ => rfl
    | some (after, e :: rest), hne => exact absurd rfl (hne after e rest)

theorem held_start : Held isRun wanted series (some (wanted, series)) := by
  intro after rest h
  cases h
  exact ⟨[], rfl, fun w hw => absurd hw not_mem_nil, Nat.zero_le _, rfl⟩

theorem Held.cons {wanted : List π} {series : List α}
    (h : Held isRun (element :: wanted) series run) (hrun : isRun element = false)
    (hne : series.head?.any (fits element) = true) : Held isRun wanted series.tail run := by
  intro after rest heq
  obtain ⟨aligned, rfl, hno, hlen, rfl⟩ := h after rest heq
  refine ⟨aligned ++ [element], by simp, ?_, ?_, ?_⟩
  · intro w hw
    rcases mem_append.mp hw with hw | hw
    · exact hno w hw
    · rwa [mem_singleton.mp hw]
  · rw [length_append, length_singleton]
    refine lt_of_le_of_ne hlen fun hl => ?_
    rw [hl, drop_length] at hne
    cases hne
  · rw [tail_drop, length_append, length_singleton]

theorem remaining_run {wanted : List π} {series : List α}
    (h : Held isRun (element :: wanted) series run) :
    remaining wanted (some (wanted, series)) < remaining (element :: wanted) run := by
  rw [remaining, Prod.Lex.lt_iff]
  refine .inl ?_
  cases run with
  | none => exact Nat.lt_succ_self _
  | some ends =>
    obtain ⟨after, rest⟩ := ends
    obtain ⟨aligned, rfl, -⟩ := h after rest rfl
    show wanted.length < (aligned ++ element :: wanted).length
    rw [length_append, length_cons]
    omega

theorem remaining_cons (element : π) (wanted : List π) (run : Option (List π × List α)) :
    remaining wanted run < remaining (element :: wanted) run := by
  cases run with
  | none => exact Prod.Lex.lt_iff.mpr (.inl (Nat.lt_succ_self _))
  | some ends =>
    exact Prod.Lex.lt_iff.mpr (.inr ⟨rfl, Prod.Lex.lt_iff.mpr (.inr ⟨rfl, Nat.lt_succ_self _⟩)⟩)

theorem remaining_more :
    remaining after (some (after, rest)) < remaining wanted (some (after, e :: rest)) :=
  Prod.Lex.lt_iff.mpr (.inr ⟨rfl, Prod.Lex.lt_iff.mpr (.inl (Nat.lt_succ_self _))⟩)

/-- The search ends with the alignment of what is left, or with one that the
latest wildcard still has. -/
theorem alignsFrom_ends (run : Option (List π × List α)) (hheld : Held isRun wanted series run) :
    ∃ n, ∀ fuel, n ≤ fuel → alignsFrom isRun fits fuel wanted series run =
      some (alignsBy isRun fits wanted series || retries isRun fits run) := by
  generalize hm : remaining wanted run = m
  induction m using WellFoundedLT.induction generalizing wanted series run with
  | _ m ih =>
    subst hm
    -- one step of the search, to a state that has less remaining
    have hstep : ∀ {wanted' series' run'} {v : Bool}, remaining wanted' run' < remaining wanted run →
        Held isRun wanted' series' run' →
        (∀ fuel, alignsFrom isRun fits (fuel + 1) wanted series run =
          alignsFrom isRun fits fuel wanted' series' run') →
        (alignsBy isRun fits wanted' series' || retries isRun fits run') = v →
        ∃ n, ∀ fuel, n ≤ fuel → alignsFrom isRun fits fuel wanted series run = some v := by
      intro wanted' series' run' v hlt hheld' heq hv
      obtain ⟨n, hn⟩ := ih _ hlt wanted' series' run' hheld' rfl
      refine ⟨n + 1, fun fuel hfuel => ?_⟩
      obtain ⟨fuel, rfl⟩ := Nat.exists_eq_add_of_le' hfuel
      rw [← Nat.add_assoc, heq, hn _ (Nat.le_add_left _ _), hv]
    cases wanted with
    | nil =>
      refine ⟨1, fun fuel hfuel => ?_⟩
      obtain ⟨fuel, rfl⟩ := Nat.exists_eq_add_of_le' hfuel
      rw [alignsFrom, alignsBy, Bool.true_or]
    | cons element wanted =>
      by_cases hrun : isRun element = true
      · -- a wildcard: it takes nothing at first, and the earlier one is forgotten
        refine hstep (remaining_run hheld) (held_start wanted series) ?_ ?_
        · intro fuel
          rw [alignsFrom, if_pos hrun]
        · rw [← alignsBy_run_eq hrun]
          by_cases hretry : retries isRun fits run = true
          · rw [hretry, Bool.or_true, alignsBy_of_retry hrun hheld hretry]
          · rw [Bool.eq_false_iff.mpr hretry, Bool.or_false]
      · by_cases hfits : series.head?.any (fits element) = true
        · refine hstep (remaining_cons element wanted run) (hheld.cons (Bool.eq_false_iff.mpr hrun) hfits) ?_ ?_
          · intro fuel
            rw [alignsFrom, if_neg hrun, if_pos hfits]
          · rw [alignsBy_cons (Bool.eq_false_iff.mpr hrun), hfits, Bool.true_and]
        · rw [alignsBy_cons (Bool.eq_false_iff.mpr hrun), Bool.eq_false_iff.mpr hfits, Bool.false_and,
            Bool.false_or]
          cases hmore : takeMore run with
          | none =>
            refine ⟨1, fun fuel hfuel => ?_⟩
            obtain ⟨fuel, rfl⟩ := Nat.exists_eq_add_of_le' hfuel
            rw [alignsFrom, if_neg hrun, if_neg hfits, hmore, retries_of_takeMore_none hmore]
          | some ends =>
            obtain ⟨after, rest⟩ := ends
            obtain ⟨e, rfl⟩ := takeMore_eq_some hmore
            refine hstep (remaining_more _ _ _ _) (held_start after rest) ?_ (retries_cons _ _ _).symm
            intro fuel
            rw [alignsFrom, if_neg hrun, if_neg hfits, hmore]

variable (isRun fits) in
/-- The search ends with the answer of the definition. -/
theorem alignsFrom_eq : ∃ n, ∀ fuel, n ≤ fuel →
      alignsFrom isRun fits fuel wanted series none = some (alignsBy isRun fits wanted series) := by
  have hheld : Held isRun wanted series none := nofun
  obtain ⟨n, hn⟩ := alignsFrom_ends wanted series none hheld
  exact ⟨n, fun fuel hfuel => by rw [hn fuel hfuel, retries, Bool.or_false]⟩

end Sonda.Framework
