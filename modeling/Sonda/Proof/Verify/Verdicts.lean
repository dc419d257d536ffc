import Mathlib.Data.List.Basic
import Sonda.Impl.Verify.Evaluator

/-!
# What a verdict says of its timeline

The walk returns at the first success; until then it gathers whether the deadline was
covered and whether a poll in time failed. So each verdict on a timeline in order of time
is a fact about the whole of it (`verdicts`).
-/

namespace Sonda.Verify

variable (check : AlertState → Bool) (deadline : Nat)

/-- A successful poll that satisfies the check. -/
def Observation.satisfies (o : Observation) : Bool :=
  match o.state with
  | .ok state => check state
  | .error _ => false

/-- A successful poll that does not. -/
def Observation.fails (o : Observation) : Bool :=
  match o.state with
  | .ok state => !check state
  | .error _ => false

/-- The verdicts of a check: which it passes, with the time of the first success, which
it is late on or has missed, and that it is undecided on every other one. -/
structure Judges (verdict : List Observation → Outcome) : Prop where
  pass : ∀ obs t, obs.Pairwise (·.time ≤ ·.time) → (verdict obs = .pass t ↔
    ∃ o, obs.find? (fun o => o.satisfies check && decide (o.time ≤ deadline)) = some o ∧ o.time = t)
  late : ∀ obs, obs.Pairwise (·.time ≤ ·.time) → ((∃ t, verdict obs = .late t deadline) ↔
    (∀ o ∈ obs, o.satisfies check → deadline < o.time) ∧ (∃ o ∈ obs, o.satisfies check) ∧
      ∃ o ∈ obs, o.fails check ∧ o.time ≤ deadline)
  missed : ∀ obs, (∃ e, verdict obs = .missed deadline e) ↔
    (∀ o ∈ obs, ¬ o.satisfies check) ∧ ∃ o ∈ obs, deadline ≤ o.time
  undecided : ∀ obs, (∃ t, verdict obs = .pass t) ∨ (∃ t, verdict obs = .late t deadline) ∨
    (∃ e, verdict obs = .missed deadline e) ∨ ∃ t e, verdict obs = .undecided t e
  stable : ∀ obs later t, verdict obs = .pass t ∨ verdict obs = .late t deadline →
    verdict (obs ++ later) = verdict obs

variable {check deadline} {obs rest : List Observation} {o : Observation} {error : Option String}
  {covered evidence : Bool}

theorem walk_success (hs : o.satisfies check = true) :
    walk deadline check error covered evidence (o :: rest) =
      if o.time ≤ deadline then .pass o.time
      else if evidence then .late o.time deadline else .undecided (some o.time) error := by
  unfold Observation.satisfies at hs
  split at hs
  · rename_i state hstate
    simp [walk, hstate, hs]
  · cases hs

theorem walk_skip (hs : o.satisfies check = false) : ∃ error', ∀ rest,
    walk deadline check error covered evidence (o :: rest) =
      walk deadline check error' (covered || decide (deadline ≤ o.time))
        (evidence || o.fails check && decide (o.time ≤ deadline)) rest := by
  unfold Observation.satisfies at hs
  unfold Observation.fails
  split at hs
  · rename_i state hstate
    exact ⟨error, fun _ => by simp [walk, hstate, hs]⟩
  · rename_i e hstate
    exact ⟨if o.time ≤ deadline then some e else error, fun _ => by simp [walk, hstate]⟩

/-- After a late poll every poll is late. -/
theorem late_of_pairwise (h : (o :: rest).Pairwise (·.time ≤ ·.time)) (htime : ¬ o.time ≤ deadline) :
    ∀ p ∈ o :: rest, deadline < p.time := by
  intro p hp
  rcases List.mem_cons.mp hp with rfl | hp
  · omega
  · have := List.rel_of_pairwise_cons h hp
    omega

theorem walk_pass (h : obs.Pairwise (·.time ≤ ·.time)) (t : Nat) :
    walk deadline check error covered evidence obs = .pass t ↔
      ∃ o, obs.find? (fun o => o.satisfies check && decide (o.time ≤ deadline)) = some o ∧ o.time = t := by
  induction obs generalizing error covered evidence with
  | nil => cases covered <;> simp [walk]
  | cons o rest ih =>
    cases hs : o.satisfies check with
    | false =>
      obtain ⟨error', hwalk⟩ := walk_skip hs
      rw [hwalk, ih h.of_cons, List.find?_cons_of_neg (by simp [hs])]
    | true =>
      rw [walk_success hs]
      by_cases htime : o.time ≤ deadline
      · simp [htime, hs]
      · have hnone : (o :: rest).find? (fun o => o.satisfies check && decide (o.time ≤ deadline)) = none :=
          List.find?_eq_none.mpr fun p hp => by simp [late_of_pairwise h htime p hp]
        rw [hnone, if_neg htime]
        cases evidence <;> simp

/-- What was gathered before counts as evidence. -/
theorem walk_late (h : obs.Pairwise (·.time ≤ ·.time)) :
    (∃ t, walk deadline check error covered evidence obs = .late t deadline) ↔
      (∀ o ∈ obs, o.satisfies check → deadline < o.time) ∧ (∃ o ∈ obs, o.satisfies check) ∧
        (evidence ∨ ∃ o ∈ obs, o.fails check ∧ o.time ≤ deadline) := by
  induction obs generalizing error covered evidence with
  | nil => cases covered <;> simp [walk]
  | cons o rest ih =>
    cases hs : o.satisfies check with
    | false =>
      obtain ⟨error', hwalk⟩ := walk_skip hs
      rw [hwalk, ih h.of_cons]
      simp [hs, or_assoc]
    | true =>
      rw [walk_success hs]
      by_cases htime : o.time ≤ deadline
      · simp [htime, hs, Nat.not_lt.mpr htime]
      · have hlate := late_of_pairwise h htime
        have hfails : ¬ ∃ p ∈ o :: rest, p.fails check ∧ p.time ≤ deadline :=
          fun ⟨p, hp, _, hle⟩ => absurd (hlate p hp) (Nat.not_lt.mpr hle)
        rw [if_neg htime, or_iff_left hfails, and_iff_right fun p hp _ => hlate p hp,
          and_iff_right ⟨o, List.mem_cons_self, hs⟩]
        cases evidence <;> simp

theorem walk_missed : (∃ e, walk deadline check error covered evidence obs = .missed deadline e) ↔
    (∀ o ∈ obs, ¬ o.satisfies check) ∧ (covered ∨ ∃ o ∈ obs, deadline ≤ o.time) := by
  induction obs generalizing error covered evidence with
  | nil => cases covered <;> simp [walk]
  | cons o rest ih =>
    cases hs : o.satisfies check with
    | false =>
      obtain ⟨error', hwalk⟩ := walk_skip hs
      rw [hwalk, ih]
      simp [hs, or_assoc]
    | true =>
      rw [walk_success hs]
      by_cases htime : o.time ≤ deadline <;> cases evidence <;> simp [htime, hs]

theorem walk_append (h : ∃ o ∈ obs, o.satisfies check) (later : List Observation) :
    walk deadline check error covered evidence (obs ++ later) =
      walk deadline check error covered evidence obs := by
  induction obs generalizing error covered evidence with
  | nil => simp at h
  | cons o rest ih =>
    cases hs : o.satisfies check with
    | false =>
      obtain ⟨error', hwalk⟩ := walk_skip hs
      rw [List.cons_append, hwalk, hwalk, ih (by simpa [hs] using h)]
    | true => rw [List.cons_append, walk_success hs, walk_success hs]

/-- Only a success gives one of the first two verdicts. -/
theorem walk_cases (obs : List Observation) (error : Option String) (covered evidence : Bool) :
    let v := walk deadline check error covered evidence obs
    (∃ o ∈ obs, o.satisfies check) ∧ ((∃ t, v = .pass t) ∨ ∃ t, v = .late t deadline) ∨
      (∃ e, v = .missed deadline e) ∨ ∃ t e, v = .undecided t e := by
  induction obs generalizing error covered evidence with
  | nil => cases covered <;> simp [walk]
  | cons o rest ih =>
    cases hs : o.satisfies check with
    | false =>
      obtain ⟨error', hwalk⟩ := walk_skip hs
      rw [hwalk]
      simpa [hs] using ih _ _ _
    | true =>
      rw [walk_success hs]
      by_cases htime : o.time ≤ deadline <;> cases evidence <;> simp [htime, hs]

theorem evaluate_judges : Judges check deadline (evaluate deadline check) where
  pass _ t h := walk_pass h t
  late _ h := (walk_late h).trans (by simp)
  missed _ := walk_missed.trans (by simp)
  undecided obs := by
    have h := @walk_cases check deadline obs none false false
    unfold evaluate
    grind
  stable obs later t h := by
    rcases @walk_cases check deadline obs none false false with ⟨hyes, -⟩ | hno
    · exact walk_append hyes later
    · unfold evaluate at h
      grind

/-- The firing and the resolution verdicts. -/
theorem verdicts (deadline : Nat) :
    Judges (fun state => decide (state = .firing)) deadline (evaluateFiring deadline) ∧
      Judges (fun state => decide (state ≠ .firing)) deadline (evaluateResolution deadline) :=
  ⟨evaluate_judges, evaluate_judges⟩

end Sonda.Verify
