import Mathlib.Tactic.Common

/-!
# Machines and their runs

A machine takes a step on an input, if the step is enabled, and emits events.
`Machine.Run` is its runs from a state: every choice the outside makes (a
clock reading, the answer of a poll, which thread goes next) is in the
inputs, so the runs are all interleavings. The steps of a run meet a
condition `ok` on the state before the step and the input; with
`fun _ _ => True` these are all runs.

`Run.invariant` is the induction every safety result uses: what holds at the
start and is kept by each step holds in every state a run reaches, with the
events emitted up to there. `exec` runs a machine on given inputs, and
`run_reaches` makes a run of it that ends where a decidable condition holds.
-/

namespace Sonda.Framework

variable {j : Nat}

/-- What a machine does on an input: the state it leads to and the events it
emits, or nothing if the step is not enabled. -/
structure Machine (σ ι ε : Type) where
  step : σ → ι → Option (σ × List ε)

namespace Machine

variable {σ ι ε : Type} (M : Machine σ ι ε) {log : List ε} {s₀ s : σ} {I : σ → List ε → Prop}
  {ok ok' : σ → ι → Prop}

/-- The runs of `M` from `s₀` whose steps all meet `ok`: the state reached
and the events emitted on the way. -/
inductive Run (ok : σ → ι → Prop) (s₀ : σ) : σ → List ε → Prop
  | start : Run ok s₀ s₀ []
  | step {s s' : σ} {log es : List ε} {i : ι} : Run ok s₀ s log → ok s i →
      M.step s i = some (s', es) → Run ok s₀ s' (log ++ es)

/-- The run of `M` on the inputs `is`, as long as each step is enabled and
meets `ok`. -/
def exec (ok : σ → ι → Prop) [∀ s i, Decidable (ok s i)] : σ → List ι → Option (σ × List ε)
  | s, [] => some (s, [])
  | s, i :: is =>
    if ok s i then
      (M.step s i).bind fun p => (exec ok p.1 is).map fun q => (q.1, p.2 ++ q.2)
    else none

variable {M}

/-- What holds at the start and is kept by every step holds in every state a
run reaches. -/
theorem Run.invariant (h₀ : I s₀ [])
    (hstep : ∀ {s log i s' es}, I s log → ok s i → M.step s i = some (s', es) → I s' (log ++ es))
    (h : M.Run ok s₀ s log) : I s log := by
  induction h with
  | start => exact h₀
  | step _ hok hs ih => exact hstep ih hok hs

/-- A run that meets a condition meets every weaker one. -/
theorem Run.mono (hok : ∀ s i, ok s i → ok' s i) (h : M.Run ok s₀ s log) : M.Run ok' s₀ s log := by
  induction h with
  | start => exact .start
  | step _ h hs ih => exact .step ih (hok _ _ h) hs

/-- Where an invariant makes every step meet a stronger condition, every run
is one that meets it. -/
theorem Run.strengthen (h₀ : I s₀ [])
    (hstep : ∀ {s log i s' es}, I s log → ok s i → M.step s i = some (s', es) → I s' (log ++ es))
    (hok : ∀ {s log i}, I s log → ok s i → ok' s i) (h : M.Run ok s₀ s log) : M.Run ok' s₀ s log := by
  induction h with
  | start => exact .start
  | step h hi hs ih => exact .step ih (hok (h.invariant h₀ hstep) hi) hs

/-- A run, and a run from where it ended. -/
theorem Run.trans {t : σ} {log' : List ε} (h : M.Run ok s₀ s log) (h' : M.Run ok s t log') :
    M.Run ok s₀ t (log ++ log') := by
  induction h' with
  | start => rwa [List.append_nil]
  | step _ hok hs ih => rw [← List.append_assoc]; exact .step ih hok hs

theorem exec_run [∀ s i, Decidable (ok s i)] :
    ∀ {is : List ι} {s t : σ} {log : List ε}, M.exec ok s is = some (t, log) → M.Run ok s t log
  | [], s, t, log, h => by
    simp only [exec, Option.some.injEq, Prod.mk.injEq] at h
    obtain ⟨rfl, rfl⟩ := h
    exact .start
  | i :: is, s, t, log, h => by
    simp only [exec] at h
    split at h <;> [skip; cases h]
    rename_i hok
    simp only [Option.bind_eq_some_iff, Option.map_eq_some_iff, Prod.mk.injEq] at h
    obtain ⟨⟨s', es⟩, hs, ⟨t', fs⟩, ht, rfl, rfl⟩ := h
    exact (Run.step .start hok hs).trans (exec_run ht)

/-- A run on given inputs that ends where `P` holds. -/
theorem run_reaches (M : Machine σ ι ε) (ok : σ → ι → Prop) [∀ s i, Decidable (ok s i)] (s : σ)
    (is : List ι) (P : σ → List ε → Prop) [∀ s log, Decidable (P s log)]
    (h : (M.exec ok s is).any (fun p => decide (P p.1 p.2)) = true) :
    ∃ t log, M.Run ok s t log ∧ P t log := by
  simp only [Option.any_eq_true, decide_eq_true_eq] at h
  obtain ⟨⟨t, log⟩, he, hp⟩ := h
  exact ⟨t, log, exec_run he, hp⟩

/-- A run on given inputs that ends where `P` holds, with what follows there. -/
theorem run_reaches_and {P Q : σ → List ε → Prop} [∀ s i, Decidable (ok s i)]
    [∀ s log, Decidable (P s log)] (is : List ι)
    (h : (M.exec ok s is).any (fun p => decide (P p.1 p.2)) = true)
    (hq : ∀ t log, M.Run ok s t log → P t log → Q t log) :
    ∃ t log, M.Run ok s t log ∧ P t log ∧ Q t log := by
  obtain ⟨t, log, hrun, hp⟩ := run_reaches M ok s is P h
  exact ⟨t, log, hrun, hp, hq t log hrun hp⟩

end Machine

/-- A log cut at an event, with what a step appends: the cut is in the old log
or in what was appended. -/
theorem append_eq_cut {ε : Type} {log es before after : List ε} {x : ε}
    (h : log ++ es = before ++ x :: after) :
    (∃ mid, log = before ++ x :: mid ∧ after = mid ++ es) ∨
      ∃ mid, before = log ++ mid ∧ es = mid ++ x :: after := by
  rcases List.append_eq_append_iff.mp h with ⟨mid, hb, he⟩ | ⟨mid, hl, he⟩
  · exact .inr ⟨mid, hb, he⟩
  · cases mid with
    | nil => exact .inr ⟨[], by simpa using hl.symm, he.symm⟩
    | cons y mid =>
      obtain ⟨rfl, rfl⟩ := he
      exact .inl ⟨mid, hl, rfl⟩

/-! ## Lists a state is kept in -/

theorem getElem?_set_cases {β : Type} {l : List β} {i : Nat} {a x : β}
    (h : (l.set i a)[j]? = some x) : j = i ∧ x = a ∨ j ≠ i ∧ l[j]? = some x := by
  by_cases hij : j = i
  · subst hij
    obtain ⟨hlt, rfl⟩ := List.getElem?_eq_some_iff.mp h
    exact .inl ⟨rfl, by simp⟩
  · rw [List.getElem?_set_ne (Ne.symm hij)] at h
    exact .inr ⟨hij, h⟩

theorem getElem?_append_cases {β : Type} {l : List β} {a x : β} (h : (l ++ [a])[j]? = some x) :
    j = l.length ∧ x = a ∨ l[j]? = some x := by
  rw [List.getElem?_append] at h
  split at h
  · exact .inr h
  · obtain ⟨hlt, rfl⟩ := List.getElem?_eq_some_iff.mp h
    have : j = l.length := by simp at hlt; omega
    exact .inl ⟨this, by simp⟩

end Sonda.Framework
