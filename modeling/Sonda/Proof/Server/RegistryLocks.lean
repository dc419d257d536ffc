import Mathlib.Tactic.IntervalCases
import Sonda.Impl.Server.GateRegistry

/-!
# The locks of the registry

`sweep_pending` takes `pending` before `subscribers`, `unregister_entries`
takes them the other way round; every other call holds one lock at a time.
Where the two take turns (`TakesTurns`) no callers deadlock
(`calls_not_deadlocked`): the locks then have an order that all callers
keep, though not the same one in every state. `sweep_meets_requeue` is a run
of one call of each that deadlocks.
-/

namespace Sonda.Proof.Server

open Sonda.Server Framework

/-- The condition on a run: `sweep_pending` acquires `pending` only when no
`unregister_entries` holds `subscribers`, and that acquires `subscribers` only
when no `sweep_pending` holds `pending`. -/
def TakesTurns (cs : List (Caller RegistryCall)) : LockAct RegistryCall → Prop
  | .call _ => True
  | .step i => ∀ c ∈ cs[i]?,
    (c.call = .sweepPending → registryCalls.wants c = some .pending →
      ∀ d ∈ cs, d.call = .unregisterEntries → ¬ registryCalls.Holds d .subscribers) ∧
    (c.call = .unregisterEntries → registryCalls.wants c = some .subscribers →
      ∀ d ∈ cs, d.call = .sweepPending → ¬ registryCalls.Holds d .pending)

/-- No `sweep_pending` holds `pending` while an `unregister_entries` holds
`subscribers`. -/
def Apart (cs : List (Caller RegistryCall)) : Prop :=
  ∀ c ∈ cs, ∀ d ∈ cs, c.call = .sweepPending → d.call = .unregisterEntries →
    registryCalls.Holds c .pending → ¬ registryCalls.Holds d .subscribers

theorem apart_step {cs cs' : List (Caller RegistryCall)} {a : LockAct RegistryCall} {es : List Empty}
    (hi : Apart cs) (hk : TakesTurns cs a) (hs : lockStep registryCalls cs a = some (cs', es)) :
    Apart cs' := by
  intro c hc d hd hcall hdall hp hsub
  rcases lockStep_cases hs with ⟨x, rfl, rfl⟩ | ⟨i, e, rfl, he, rfl⟩
  · rcases List.mem_append.mp hc with hc | hc
    · rcases List.mem_append.mp hd with hd | hd
      · exact hi c hc d hd hcall hdall hp hsub
      · rw [List.mem_singleton.mp hd] at hsub
        exact not_holds_start x _ hsub
    · rw [List.mem_singleton.mp hc] at hp
      exact not_holds_start x _ hp
  · have hmem := List.mem_of_getElem? he
    obtain ⟨hsweep, hunreg⟩ := hk e he
    rcases List.mem_or_eq_of_mem_set hc with hc | rfl <;>
      rcases List.mem_or_eq_of_mem_set hd with hd | rfl
    · exact hi c hc d hd hcall hdall hp hsub
    · rcases holds_advance hsub with hsub | hw
      · exact hi c hc e hmem hcall hdall hp hsub
      · exact hunreg hdall hw c hc hcall hp
    · rcases holds_advance hp with hp | hw
      · exact hi e hmem d hd hcall hdall hp hsub
      · exact hsweep hcall hw d hd hdall hsub
    · rw [hcall] at hdall; cases hdall

/-! ## The order of the locks -/

/-- `subscribers` comes last, or `pending` does. -/
def rank (subscribersLast : Bool) : RegistryLock → Nat
  | .buses => 0
  | .subscribers => if subscribersLast then 2 else 1
  | .pending => if subscribersLast then 1 else 2

variable {c : Caller RegistryCall} {l l' : RegistryLock}

theorem done_lt_of_wants (h : registryCalls.wants c = some l) :
    c.done < (registryCalls.ops c.call).length := by
  by_contra hn
  simp [Program.wants, Program.next, List.getElem?_eq_none (Nat.le_of_not_lt hn)] at h

/-- A caller that waits and holds locks is a `sweep_pending` or an
`unregister_entries`, at one of the places where these hold locks. -/
theorem wants_holds (hw : registryCalls.wants c = some l) (hh : registryCalls.Holds c l') :
    l' = .buses ∧ (l = .pending ∨ l = .subscribers) ∨
    c.call = .sweepPending ∧ registryCalls.Holds c .pending ∧ l' = .pending ∧ l = .subscribers ∨
    c.call = .unregisterEntries ∧ l' = .subscribers ∧ l = .pending := by
  have hlt := done_lt_of_wants hw
  obtain ⟨call, done⟩ := c
  cases call
  all_goals
    simp only [registryCalls, RegistryCall.locks] at hlt
    try split at hlt
  all_goals
    simp [once, retireBusesLocks, requeueSubscribersLocks] at hlt
    try interval_cases done
  all_goals
    simp_all [registryCalls, RegistryCall.locks, Program.wants, Program.next, Program.Holds,
      Program.held, LockOp.apply, once, retireBusesLocks, requeueSubscribersLocks]
  exact hh.symm

/-- While an `unregister_entries` holds `subscribers` the callers keep the
order that ends with `pending`, otherwise the one that ends with
`subscribers`. -/
theorem Apart.ranked {cs : List (Caller RegistryCall)} (h : Apart cs) :
    ∃ subscribersLast, Ranked registryCalls cs (rank subscribersLast) := by
  by_cases hu : ∃ d ∈ cs, d.call = .unregisterEntries ∧ registryCalls.Holds d .subscribers
  · obtain ⟨d, hd, hcall, hsub⟩ := hu
    refine ⟨false, fun c hc l hw l' hh => ?_⟩
    rcases wants_holds hw hh with ⟨rfl, rfl | rfl⟩ | ⟨hsweep, hp, -, -⟩ | ⟨-, rfl, rfl⟩
    · decide
    · decide
    · exact absurd hsub (h c hc d hd hsweep hcall hp)
    · decide
  · refine ⟨true, fun c hc l hw l' hh => ?_⟩
    rcases wants_holds hw hh with ⟨rfl, rfl | rfl⟩ | ⟨-, -, rfl, rfl⟩ | ⟨hunreg, rfl, -⟩
    · decide
    · decide
    · decide
    · exact absurd ⟨c, hc, hunreg, hh⟩ hu

/-- In a run whose sweeps and removals take turns, no callers wait for each
other in a circle. -/
theorem calls_not_deadlocked {cs : List (Caller RegistryCall)} {log : List Empty}
    (h : (locking registryCalls).Run TakesTurns [] cs log) : ¬ Deadlock registryCalls cs := by
  have hi : Apart cs := h.invariant (I := fun cs _ => Apart cs) (by simp [Apart])
    fun hi hk hs => apart_step hi hk hs
  obtain ⟨last, hr⟩ := hi.ranked
  exact not_deadlock_of_rank hr

/-! ## A sweep and a removal -/

instance (cs : List (Caller RegistryCall)) : (a : LockAct RegistryCall) → Decidable (TakesTurns cs a)
  | .call _ => isTrue trivial
  | .step i => inferInstanceAs (Decidable (∀ c ∈ cs[i]?, _))

/-- A sweep and a removal, one after the other. -/
theorem calls_not_deadlocked_sweep_removal : ∃ cs log,
    (locking registryCalls).Run TakesTurns [] cs log ∧
      cs = [⟨.sweepPending, 6⟩, ⟨.unregisterEntries, 4⟩] ∧ ¬ Deadlock registryCalls cs :=
  Machine.run_reaches_and
    [.call .sweepPending, .step 0, .step 0, .step 0, .step 0, .step 0, .step 0,
      .call .unregisterEntries, .step 1, .step 1, .step 1, .step 1]
    (by decide) fun _ _ hrun _ => calls_not_deadlocked hrun

/-- The removal has retired its buses and holds `subscribers`, the sweep
holds `pending`: neither can go on. -/
theorem sweep_meets_requeue : ∃ cs log,
    (locking registryCalls).Run (fun _ _ => True) [] cs log ∧
      (locking registryCalls).step cs (.step 0) = none ∧
      (locking registryCalls).step cs (.step 1) = none ∧ Deadlock registryCalls cs := by
  obtain ⟨cs, log, hrun, rfl⟩ := Machine.run_reaches (locking registryCalls) (fun _ _ => True) []
    [.call .sweepPending, .call .unregisterEntries, .step 1, .step 1, .step 1, .step 0, .step 0]
    (fun cs _ => cs = [⟨.sweepPending, 2⟩, ⟨.unregisterEntries, 3⟩]) (by decide)
  have h₀ : WaitsFor registryCalls [⟨.sweepPending, 2⟩, ⟨.unregisterEntries, 3⟩] 0 1 :=
    ⟨_, _, .subscribers, rfl, rfl, rfl, by decide⟩
  have h₁ : WaitsFor registryCalls [⟨.sweepPending, 2⟩, ⟨.unregisterEntries, 3⟩] 1 0 :=
    ⟨_, _, .pending, rfl, rfl, rfl, by decide⟩
  exact ⟨_, log, hrun, by decide, by decide, 0, .tail (.single h₀) h₁⟩

end Sonda.Proof.Server
