import Mathlib.Logic.Relation
import Sonda.Framework.Machine

/-!
# Callers that share readers-writer locks

A call is a list of acquisitions and releases, and a caller is a call with the
number of operations it has done: what it holds and what it waits for are read
off these. `locking` is the machine of any number of callers. Callers deadlock
where they wait for each other in a circle (`Deadlock`).

`not_deadlock_of_rank` is the rule for proving that they do not: rank the
locks so that every caller that waits holds only locks of a smaller rank. The
ranks may differ from state to state.
-/

namespace Sonda.Framework

inductive Mode
  | read
  | write
  deriving DecidableEq

def Mode.excludes : Mode → Mode → Bool
  | .read, .read => false
  | _, _ => true

inductive LockOp (L : Type)
  | acquire (l : L) (m : Mode)
  | release (l : L)
  deriving DecidableEq

structure Caller (α : Type) where
  call : α
  /-- How many operations of the call are done. -/
  done : Nat
  deriving DecidableEq

variable {α L : Type} [DecidableEq L]

/-- What is held after an operation. -/
def LockOp.apply (held : List (L × Mode)) : LockOp L → List (L × Mode)
  | .acquire l m => (l, m) :: held
  | .release l => held.filter (·.1 ≠ l)

/-- The callers whose calls are the programs `prog`. -/
structure Program (α L : Type) where
  ops : α → List (LockOp L)

namespace Program

variable (prog : Program α L) (c : Caller α) (cs : List (Caller α))

def next : Option (LockOp L) := (prog.ops c.call)[c.done]?

def held : List (L × Mode) := ((prog.ops c.call).take c.done).foldl LockOp.apply []

def Holds (l : L) : Prop := l ∈ (prog.held c).map Prod.fst

instance (l : L) : Decidable (prog.Holds c l) := inferInstanceAs (Decidable (_ ∈ _))

/-- The lock a caller acquires next. -/
def wants : Option L :=
  match prog.next c with
  | some (.acquire l _) => some l
  | some (.release _) | none => none

/-- Nobody holds `l` in a mode that excludes `m`. -/
def grants (l : L) (m : Mode) : Bool :=
  cs.all fun c => (prog.held c).all fun h => h.1 ≠ l || !m.excludes h.2

end Program

inductive LockAct (α : Type)
  | call (a : α)
  | step (i : Nat)

def lockStep (prog : Program α L) (cs : List (Caller α)) :
    LockAct α → Option (List (Caller α) × List Empty)
  | .call a => some (cs ++ [⟨a, 0⟩], [])
  | .step i =>
    cs[i]?.bind fun c =>
      let advanced := cs.set i { c with done := c.done + 1 }
      match prog.next c with
      | some (.acquire l m) => if prog.grants cs l m then some (advanced, []) else none
      | some (.release _) => some (advanced, [])
      | none => none

def locking (prog : Program α L) : Machine (List (Caller α)) (LockAct α) Empty where
  step := lockStep prog

variable {prog : Program α L} {c : Caller α} {cs cs' : List (Caller α)}

/-- A step starts a call, or does one operation of a caller. -/
theorem lockStep_cases {a : LockAct α} {es : List Empty} (h : lockStep prog cs a = some (cs', es)) :
    (∃ x, a = .call x ∧ cs' = cs ++ [⟨x, 0⟩]) ∨
      ∃ i c, a = .step i ∧ cs[i]? = some c ∧ cs' = cs.set i { c with done := c.done + 1 } := by
  cases a with
  | call x => exact .inl ⟨x, rfl, (Prod.mk.inj (Option.some.inj h)).1.symm⟩
  | step i =>
    obtain ⟨c, hc, h⟩ := Option.bind_eq_some_iff.mp h
    refine .inr ⟨i, c, rfl, hc, ?_⟩
    split at h
    · split at h <;> cases h; rfl
    · cases h; rfl
    · cases h

theorem not_holds_start (x : α) (l : L) : ¬ prog.Holds ⟨x, 0⟩ l := by
  simp [Program.Holds, Program.held]

/-- What a caller holds after an operation it held before, or has just
acquired. -/
theorem holds_advance {l : L} (h : prog.Holds { c with done := c.done + 1 } l) :
    prog.Holds c l ∨ prog.wants c = some l := by
  simp only [Program.Holds, Program.held, List.take_add_one, List.foldl_append] at h
  cases hn : (prog.ops c.call)[c.done]? with
  | none => rw [hn] at h; exact .inl h
  | some op =>
    simp only [hn, Option.toList_some, List.foldl_cons, List.foldl_nil] at h
    cases op with
    | acquire l' m =>
      rcases List.mem_cons.mp h with rfl | h
      · exact .inr (by simp [Program.wants, Program.next, hn])
      · exact .inl h
    | release l' =>
      obtain ⟨p, hp, rfl⟩ := List.mem_map.mp h
      exact .inl (List.mem_map_of_mem (List.mem_filter.mp hp).1)

/-! ## Waiting in a circle -/

/-- Caller `i` waits for a lock that caller `j` holds. The modes are left out:
a reader may also queue behind a writer that waits for another reader. -/
def WaitsFor (prog : Program α L) (cs : List (Caller α)) (i j : Nat) : Prop :=
  ∃ c d l, cs[i]? = some c ∧ cs[j]? = some d ∧ prog.wants c = some l ∧ prog.Holds d l

def Deadlock (prog : Program α L) (cs : List (Caller α)) : Prop :=
  ∃ i, Relation.TransGen (WaitsFor prog cs) i i

/-- Every caller that waits holds only locks of a smaller rank. -/
def Ranked (prog : Program α L) (cs : List (Caller α)) (rank : L → Nat) : Prop :=
  ∀ c ∈ cs, ∀ l, prog.wants c = some l → ∀ l', prog.Holds c l' → rank l' < rank l

/-- The lock waited for rises along a chain of waiting callers. -/
theorem Ranked.lt_of_transGen {rank : L → Nat} (h : Ranked prog cs rank) {i j : Nat}
    (hij : Relation.TransGen (WaitsFor prog cs) i j) {c d : Caller α} {l l' : L}
    (hc : cs[i]? = some c) (hl : prog.wants c = some l) (hd : cs[j]? = some d)
    (hl' : prog.wants d = some l') : rank l < rank l' := by
  induction hij generalizing d l' with
  | single hij =>
    obtain ⟨c', d', k, hc', hd', hk, hheld⟩ := hij
    obtain rfl : c = c' := Option.some.inj (hc.symm.trans hc')
    obtain rfl : d = d' := Option.some.inj (hd.symm.trans hd')
    obtain rfl : l = k := Option.some.inj (hl.symm.trans hk)
    exact h d (List.mem_of_getElem? hd) l' hl' l hheld
  | tail _ hij ih =>
    obtain ⟨e, d', k, he, hd', hk, hheld⟩ := hij
    obtain rfl : d = d' := Option.some.inj (hd.symm.trans hd')
    exact Nat.lt_trans (ih he hk) (h d (List.mem_of_getElem? hd) l' hl' k hheld)

theorem not_deadlock_of_rank {rank : L → Nat} (h : Ranked prog cs rank) : ¬ Deadlock prog cs := by
  rintro ⟨i, hi⟩
  obtain ⟨j, ⟨c, d, l, hc, hd, hl, hheld⟩, -⟩ := Relation.TransGen.head'_iff.mp hi
  exact absurd (h.lt_of_transGen hi hc hl hc hl) (Nat.lt_irrefl _)

end Sonda.Framework
