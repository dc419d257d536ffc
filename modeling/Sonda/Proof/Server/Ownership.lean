import Sonda.Framework.RefCounts
import Sonda.Proof.Server.Scenarios

/-!
# A launch loses its buses only by its own end

The end of a scenario and its deletion unregister by name and entry id.
`Owned` says of every key a scenario may still unregister that it is free or
its own launch's, and `owned_step` that every step keeps this, where
registrations, launches and deletions under one key do not cross
(`KeepsOwners`). Hence a bus is removed, and told that it is gone, only by its
own launch, and stays registered until one of its launch's scenarios is
cleaned up (`buses_removed_by_owner`). `deleted_after_repost` is a run in which
deleting the row of a finished scenario removes the bus of a later launch.
-/

namespace Sonda.Proof.Server

open Sonda.Server Sonda.Schedule Framework Sonda.Proof.Schedule List

variable {α τ : Type} {P : Pipeline α τ} {sv sv' : ServerState} {a : ServerAct α}
  {es log : List RegistryEvent} {x : HandleRef} {rest : List Op} {handle : ScenarioHandle}
  {w : Shared} {t : Thread}

/-! ## Threads that end a scenario -/

/-- The operations of a POST. -/
def Admits : Op → Prop
  | .conflicts _ | .scenarioNameInUse _ | .preflight | .launch _ | .rejectEmpty | .renamePending _
  | .renameSubscribers _ | .insertRows _ => True
  | .finish _ | .claim _ | .removeRow _ | .retireBuses .. | .requeueSubscribers => False

/-- What a thread has still to do: part of a POST, or the end of a scenario
from some point on. Its buses are retired once it is cleaned up. -/
inductive Shape (w : Shared) : List Op → Prop
  | admits {todo : List Op} (h : ∀ op ∈ todo, Admits op) : Shape w todo
  | finish {x : HandleRef} {handle : ScenarioHandle} (hh : w.handles.lookup x = some handle) :
      Shape w (.finish x :: .claim x :: unregisterOps x handle)
  | claim {x : HandleRef} {handle : ScenarioHandle} (hh : w.handles.lookup x = some handle) :
      Shape w (.claim x :: unregisterOps x handle)
  | remove {x : HandleRef} {handle : ScenarioHandle} (hh : w.handles.lookup x = some handle) :
      Shape w (.removeRow x :: unregisterOps x handle)
  | retire {x : HandleRef} {handle : ScenarioHandle} {name : String}
      (hh : w.handles.lookup x = some handle) (hc : handle.cleanedUp = true)
      (hn : handle.scenarioName = some name) :
      Shape w [.retireBuses x name handle.entryId, .requeueSubscribers]
  | requeue : Shape w [.requeueSubscribers]

theorem Later.unregisterOps {handle' : ScenarioHandle} (h : Later x handle handle') :
    unregisterOps x handle' = unregisterOps x handle := by
  simp only [Sonda.Server.unregisterOps, h.scenarioName, h.entryId]

theorem Shape.later {w' : Shared} {todo : List Op} (h : Shape w todo)
    (hl : ∀ x handle, w.handles.lookup x = some handle →
      ∃ handle', w'.handles.lookup x = some handle' ∧ Later x handle handle') :
    Shape w' todo := by
  cases h with
  | admits h => exact .admits h
  | finish hh => obtain ⟨_, hh', h⟩ := hl _ _ hh; exact h.unregisterOps ▸ .finish hh'
  | claim hh => obtain ⟨_, hh', h⟩ := hl _ _ hh; exact h.unregisterOps ▸ .claim hh'
  | remove hh => obtain ⟨_, hh', h⟩ := hl _ _ hh; exact h.unregisterOps ▸ .remove hh'
  | retire hh hc hn =>
    obtain ⟨_, hh', h⟩ := hl _ _ hh
    exact h.entryId ▸ .retire hh' (h.cleanedUp hc) (h.scenarioName.trans hn)
  | requeue => exact .requeue

/-- A scenario that is cleaned up has its buses retired next, if it has a
name. -/
theorem shape_unregisterOps (hh : w.handles.lookup x = some handle) (hc : handle.cleanedUp = true) :
    Shape w (unregisterOps x handle) := by
  cases hn : handle.scenarioName with
  | none => rw [unregisterOps, hn]; exact .admits (by simp)
  | some name => rw [unregisterOps, hn]; exact .retire hh hc hn

/-- The thread retires the buses of `x` next. -/
def Retires (x : HandleRef) (t : Thread) : Prop :=
  ∃ name id rest, t.todo = .retireBuses x name id :: rest

theorem retires_unregisterOps {y : HandleRef} (h : Retires y t)
    (ht : t.todo = unregisterOps x handle) : y = x := by
  obtain ⟨name, id, rest, h⟩ := h
  rw [ht, unregisterOps] at h
  cases hn : handle.scenarioName <;> simp [hn] at h
  exact h.1.1.symm

theorem shape_cleaned (s : AppState) (x : HandleRef) (handle : ScenarioHandle) :
    Shape (s.setHandle x { handle with cleanedUp := true }).toShared
      (unregisterOps x { handle with cleanedUp := true }) :=
  shape_unregisterOps (AList.lookup_insert _) rfl

/-- The operation claims the cleanup of `y` or removes its row. -/
def Clears (s : AppState) (op : Op) (y : HandleRef) : Prop :=
  op = .claim y ∧ (∃ handle, s.handles.lookup y = some handle ∧ handle.cleanedUp = false) ∨
    op = .removeRow y ∧ y ∈ s.scenarios

/-- A thread that retires no buses next. -/
theorem shape_quiet {Q : HandleRef → Prop} (h : Shape w t.todo)
    (hn : ∀ y name id rest, t.todo ≠ .retireBuses y name id :: rest) :
    Shape w t.todo ∧ ∀ y, Retires y t → Q y :=
  ⟨h, fun y ⟨name, id, rest, hy⟩ => absurd hy (hn y name id rest)⟩

/-- After an operation a thread has a shape again, and retires buses only
where it has just claimed the cleanup or removed the row. -/
theorem shape_exec {inp : OpInput} {s s' : AppState} {t' : Thread} {op : Op}
    (h : Shape s.toShared (op :: rest)) (hex : op.exec inp s { t with todo := rest } = (s', t', es))
    (hl : ∀ x handle, s.handles.lookup x = some handle →
      ∃ handle', s'.handles.lookup x = some handle' ∧ Later x handle handle') :
    Shape s'.toShared t'.todo ∧ ∀ y, Retires y t' → Clears s op y := by
  obtain ⟨-, -, hr | hr⟩ := exec_thread hex
  case inr => exact shape_quiet (hr ▸ .admits (by simp)) (by simp [hr])
  change t'.todo = rest at hr
  cases h with
  | admits h =>
    refine ⟨.admits fun op hop => h op (mem_cons_of_mem _ (hr ▸ hop)), ?_⟩
    rintro y ⟨name, id, rest', hy⟩
    exact (h (.retireBuses y name id) (mem_cons_of_mem _ (hr ▸ hy ▸ mem_cons_self))).elim
  | finish hh =>
    obtain ⟨_, hh', h⟩ := hl _ _ hh
    exact shape_quiet (hr ▸ h.unregisterOps ▸ .claim hh') (by simp [hr])
  | @claim x handle hh =>
    simp only [Op.exec, hh] at hex
    split at hex <;> cases hex
    · exact shape_quiet (.admits (by simp [Thread.stop])) (by simp [Thread.stop])
    · rename_i hc
      refine ⟨shape_cleaned s x handle, fun y hy => .inl ?_⟩
      obtain rfl := retires_unregisterOps hy rfl
      exact ⟨rfl, handle, hh, by simpa using hc⟩
  | @remove x handle hh =>
    simp only [Op.exec, hh] at hex
    split at hex <;> cases hex
    · rename_i hrow
      refine ⟨shape_cleaned s x handle, fun y hy => .inr ?_⟩
      obtain rfl := retires_unregisterOps hy rfl
      exact ⟨rfl, hrow⟩
    · exact shape_quiet (.admits (by simp [Thread.stop])) (by simp [Thread.stop])
  | retire hh hc hn => exact shape_quiet (hr ▸ .requeue) (by simp [hr])
  | requeue => exact shape_quiet (hr ▸ .admits (by simp)) (by simp [hr])

/-! ## Posts -/

theorem admits_admitCompiled (n : Nat) (file : CompiledFile α) (order : List String) :
    ∀ op ∈ (admitCompiled P n file order).todo, Admits op := by
  intro op h
  rcases mem_admitCompiled h with h | h
  · rcases mem_front h with (⟨_, _, rfl⟩ | ⟨_, rfl⟩) | rfl | ⟨_, _, rfl⟩ <;> trivial
  · rcases mem_adoptOps h with rfl | ⟨_, rfl | rfl⟩ | rfl <;> trivial

theorem not_retires_admits (h : ∀ op ∈ t.todo, Admits op) (x : HandleRef) : ¬ Retires x t := by
  rintro ⟨name, id, rest, ht⟩
  exact h (.retireBuses x name id) (ht ▸ mem_cons_self)

/-! ## Owned keys -/

/-- The scenario may still unregister its key. -/
def Threatens (sv : ServerState) (x : HandleRef) (handle : ScenarioHandle) : Prop :=
  handle.cleanedUp = false ∨ ∃ t ∈ sv.threads, Retires x t

/-- No scenario of such a launch may still unregister the key. -/
def Unthreatened (sv : ServerState) (launch : Nat → Prop) (k : BusKey) : Prop :=
  ∀ x ∈ sv.handles.keys, ∀ handle ∈ sv.handles.lookup x, launch x.launch → handle.key = some k →
    ¬ Threatens sv x handle

/-- What an operation must find for the keys to stay with their owners:

* a key that is registered is one that no scenario of another launch may still
  unregister;
* a scenario that is launched finds its key free or its own launch's;
* the row of a scenario that is already cleaned up is deleted while no other
  launch holds its key: no scenario of another launch may still unregister it,
  and it is free or registered by a launch with a scenario that may, not by a
  POST that is half-way or has failed. -/
def OpKeepsOwners (sv : ServerState) (t : Thread) : Op → Prop
  | .launch (.register name id) =>
    (name, id) ∉ sv.registry.buses → Unthreatened sv (· ≠ t.launch) (name, id)
  | .launch (.launch _ handle) =>
    ∀ k ∈ handle.key, ∀ b ∈ sv.registry.buses.lookup k, b.launch = t.launch
  | .removeRow x => ∀ handle ∈ sv.handles.lookup x, handle.cleanedUp = true →
    ∀ k ∈ handle.key, ∀ b ∈ sv.registry.buses.lookup k,
      Unthreatened sv (· ≠ x.launch) k ∧ ¬ Unthreatened sv (· = b.launch) k
  | _ => True

/-- A key that no other launch holds is the launch's own. -/
theorem launch_eq_of_unthreatened {k : BusKey} {l m : Nat} (hother : Unthreatened sv (· ≠ l) k)
    (hown : ¬ Unthreatened sv (· = m) k) : m = l := by
  by_contra hne
  refine hown fun x hx handle hh hl => ?_
  exact hother x hx handle hh (hl.trans_ne hne)

/-- The condition on a run. -/
def KeepsOwners (sv : ServerState) : ServerAct α → Prop
  | .step i _ => ∀ t ∈ sv.threads[i]?, ∀ op ∈ t.todo.head?, OpKeepsOwners sv t op
  | _ => True

/-- Every key a scenario may still unregister is free or its own launch's. -/
def KeysOwned (sv : ServerState) : Prop :=
  ∀ x handle k b, sv.handles.lookup x = some handle → handle.key = some k → Threatens sv x handle →
    sv.registry.buses.lookup k = some b → b.launch = x.launch

/-- Where no thread is new that retires buses, and the buses are the same. -/
theorem KeysOwned.of_same (hk : KeysOwned sv) (hkept : Kept sv.toShared sv'.toShared)
    (hb : sv'.registry.buses = sv.registry.buses)
    (ht : ∀ x, (∃ t ∈ sv'.threads, Retires x t) → ∃ t ∈ sv.threads, Retires x t) : KeysOwned sv' := by
  intro x handle' k b hh hkey hthreat hlook
  obtain ⟨handle, ho, hl⟩ := hkept.lookup hh
  exact hk x handle k b ho (hl.key ▸ hkey) (hthreat.imp hl.uncleaned (ht x)) (hb ▸ hlook)

theorem retires_spawn (ht : ∀ x, ¬ Retires x t) (h : ∃ t' ∈ (sv.spawn t).threads, Retires x t') :
    ∃ t' ∈ sv.threads, Retires x t' := by
  obtain ⟨t', hm, hr⟩ := h
  rcases mem_spawn hm with hm | rfl
  · exact ⟨t', hm, hr⟩
  · exact absurd hr (ht x)

section Exec

variable {i : Nat} {inp : OpInput} {s : AppState} {t t' : Thread} {op : Op} {rest : List Op}
  {x : HandleRef}

/-- A thread that retires buses did so before, or has just come to it. -/
theorem retires_set (h : ∃ u ∈ sv.threads.set i t', Retires x u) :
    (∃ u ∈ sv.threads, Retires x u) ∨ Retires x t' := by
  obtain ⟨u, hu, hr⟩ := h
  rcases mem_or_eq_of_mem_set hu with hu | rfl
  · exact .inl ⟨u, hu, hr⟩
  · exact .inr hr

/-- A scenario that may unregister its key after an operation could before,
or the operation removes its row. -/
theorem threatens_before {handle handle' : ScenarioHandle} (ho : sv.handles.lookup x = some handle)
    (hl : Later x handle handle') (hthreat : Threatens ⟨s, sv.threads.set i t'⟩ x handle')
    (hret : ∀ y, Retires y t' → Clears sv.toAppState op y) :
    Threatens sv x handle ∨ op = .removeRow x := by
  rcases hthreat with hc | h
  · exact .inl (.inl (hl.uncleaned hc))
  · rcases retires_set h with h | hr
    · exact .inl (.inr h)
    · rcases hret x hr with ⟨-, handle₂, ho₂, hc⟩ | ⟨h, -⟩
      · rw [ho] at ho₂; cases ho₂; exact .inl (.inl hc)
      · exact .inr h

/-- An operation that meets the condition keeps the keys with their owners. -/
theorem keysOwned_exec (hk : KeysOwned sv) (hcond : OpKeepsOwners sv t op)
    (hex : op.exec inp sv.toAppState { t with todo := rest } = (s, t', es))
    (hret : ∀ y, Retires y t' → Clears sv.toAppState op y) :
    KeysOwned ⟨s, sv.threads.set i t'⟩ := by
  have hbuses := busesAfter_exec hex
  intro x handle' k b hh hkey hthreat hlook
  rcases exec_handles hex with ⟨index, new, rfl, he⟩ | hkept
  · cases hbuses with | same hb => ?_
    rw [he] at hh
    rw [hb] at hlook
    rcases lookup_insert_cases hh with ⟨rfl, rfl⟩ | ⟨-, hh⟩
    · exact hcond k hkey b hlook
    · have hold := threatens_before hh (.refl x handle') hthreat hret
      exact hk x handle' k b hh hkey (hold.resolve_right nofun) hlook
  · obtain ⟨handle, ho, hl⟩ := hkept.lookup hh
    have hkey' : handle.key = some k := hl.key ▸ hkey
    have hold := threatens_before ho hl hthreat hret
    cases hbuses with
    | same hb =>
      rw [hb] at hlook
      rcases hold with hold | rfl
      · exact hk x handle k b ho hkey' hold hlook
      · by_cases hc : handle.cleanedUp = true
        · obtain ⟨hother, hown⟩ := hcond handle ho hc k hkey' b hlook
          exact launch_eq_of_unthreatened hother hown
        · exact hk x handle k b ho hkey' (.inl (by simpa using hc)) hlook
    | @registered name id hfree hb =>
      have hold := hold.resolve_right nofun
      rw [hb] at hlook
      rcases lookup_insert_cases hlook with ⟨rfl, rfl⟩ | ⟨-, hlook⟩
      · by_contra hne
        exact hcond hfree x (mem_of_lookup ho) handle ho (Ne.symm hne) hkey' hold
      · exact hk x handle k b ho hkey' hold hlook
    | retired hb =>
      rw [hb k] at hlook
      split at hlook
      · cases hlook
      · exact hk x handle k b ho hkey' (hold.resolve_right nofun) hlook

end Exec

/-! ## Runs -/

/-- No scenario of the bus's launch under its key is cleaned up. -/
def Uncleaned (w : Shared) (k : BusKey) (b : BusRef) : Prop :=
  ∀ x handle, w.handles.lookup x = some handle → x.launch = b.launch → handle.key = some k →
    handle.cleanedUp = false

structure Owned (sv : ServerState) (log : List RegistryEvent) : Prop where
  fresh : Fresh sv
  shape : ∀ t ∈ sv.threads, Shape sv.toShared t.todo
  keys : KeysOwned sv
  retired : ∀ x k b, .retired x k b ∈ log → b.launch = x.launch
  registered : ∀ k b, .registered k b ∈ log → Uncleaned sv.toShared k b →
    sv.registry.buses.lookup k = some b

/-- What the thread at `i` has still to do. -/
theorem Owned.todo {i : Nat} {op : Op} (h : Owned sv log) (ht : sv.threads[i]? = some t)
    (htodo : t.todo = op :: rest) : Shape sv.toShared (op :: rest) :=
  htodo ▸ h.shape t (mem_of_getElem? ht)

theorem shape_step (hf : Fresh sv) (h : ∀ t ∈ sv.threads, Shape sv.toShared t.todo)
    (hs : Steps P sv a sv' es) : ∀ t ∈ sv'.threads, Shape sv'.toShared t.todo := by
  have hold : ∀ t ∈ sv.threads, Shape sv'.toShared t.todo :=
    fun t ht => (h t ht).later fun _ _ hh => later_of_step hf hs hh
  have spawned {new : Thread} (hnew : Shape sv'.toShared new.todo) :
      ∀ t ∈ (sv.spawn new).threads, Shape sv'.toShared t.todo := by
    intro t ht
    rcases mem_spawn ht with ht | rfl
    · exact hold t ht
    · exact hnew
  cases hs with
  | post => exact spawned (.admits (admits_admitCompiled _ _ _))
  | transition | drop => exact hold
  | @finish x handle hh =>
    have hh' : (sv.setHandle x { handle with ending := true }).handles.lookup x =
        some { handle with ending := true } := AList.lookup_insert _
    exact spawned (.finish hh' : Shape _ (dropStateGuard x { handle with ending := true }).todo)
  | delete hh => exact spawned (.remove hh)
  | op ht htodo ha hex =>
    intro u hu
    rcases mem_or_eq_of_mem_set hu with hu | rfl
    · exact hold u hu
    · have hshape := h _ (mem_of_getElem? ht)
      rw [htodo] at hshape
      exact (shape_exec hshape hex fun x handle hh =>
        later_of_step hf (.op (P := P) ht htodo ha hex) hh).1

theorem keysOwned_step (h : Owned sv log) (hc : KeepsOwners sv a) (hs : Steps P sv a sv' es) :
    KeysOwned sv' := by
  cases hs with
  | post =>
    exact h.keys.of_same (kept_of_eq rfl) rfl fun x =>
      retires_spawn (not_retires_admits (admits_admitCompiled _ _ _))
  | transition hh hfin => exact h.keys.of_same (kept_state hh hfin) rfl fun _ => id
  | finish hh =>
    refine h.keys.of_same (kept_ending hh) rfl fun x hx => retires_spawn ?_ hx
    rintro y ⟨_, _, _, hy⟩
    cases hy
  | delete hh =>
    refine h.keys.of_same (kept_of_eq rfl) rfl fun x hx => retires_spawn ?_ hx
    rintro y ⟨_, _, _, hy⟩
    cases hy
  | drop => exact h.keys.of_same (kept_of_eq rfl) rfl fun _ => id
  | op ht htodo ha hex =>
    refine keysOwned_exec h.keys (hc _ ht _ (by rw [htodo]; rfl)) hex ?_
    exact (shape_exec (h.todo ht htodo) hex fun x handle hh =>
      later_of_step h.fresh (.op (P := P) ht htodo ha hex) hh).2

/-- The scenario whose buses a thread retires is cleaned up. -/
theorem Shape.retires {name id : String} (h : Shape w (.retireBuses x name id :: rest)) :
    ∃ handle, w.handles.lookup x = some handle ∧ handle.key = some (name, id) ∧
      handle.cleanedUp = true := by
  cases h with
  | admits h => exact (h _ mem_cons_self).elim
  | @retire x handle name hh hc hn => exact ⟨handle, hh, by simp [ScenarioHandle.key, hn], hc⟩

theorem owned_step (h : Owned sv log) (hc : KeepsOwners sv a) (hs : Steps P sv a sv' es) :
    Owned sv' (log ++ es) := by
  -- what is cleaned up stays so
  have huncleaned {k : BusKey} {b : BusRef} (hall : Uncleaned sv'.toShared k b) :
      Uncleaned sv.toShared k b := by
    intro x handle hh hx hkey
    obtain ⟨handle', hh', hl⟩ := later_of_step h.fresh hs hh
    exact hl.uncleaned (hall x handle' hh' hx (hl.key.trans hkey))
  refine ⟨fresh_step h.fresh hs, shape_step h.fresh h.shape hs, keysOwned_step h hc hs, ?_, ?_⟩
  · intro x k b hm
    rcases mem_append.mp hm with hm | hm
    · exact h.retired x k b hm
    cases hs with
    | post | transition | finish | delete | drop => cases hm
    | op ht htodo ha hex =>
      cases busesAfter_exec hex with
      | same => cases hm
      | registered => cases mem_singleton.mp hm
      | retired _ hes =>
        obtain ⟨b', heq, hb⟩ := hes _ hm
        cases heq
        obtain ⟨handle, hh, hkey, -⟩ := (h.todo ht htodo).retires
        exact h.keys x handle _ _ hh hkey (.inr ⟨_, mem_of_getElem? ht, _, _, _, htodo⟩) hb
  · intro k b hm hall
    rcases mem_append.mp hm with hm | hm
    · have hlook := h.registered k b hm (huncleaned hall)
      cases hs with
      | post | transition | finish | delete | drop => exact hlook
      | op ht htodo ha hex =>
        refine ((busesAfter_exec hex).lookup hlook).resolve_right ?_
        rintro ⟨x, rfl⟩
        obtain ⟨handle, hh, hkey, hclean⟩ := (h.todo ht htodo).retires
        have hown := h.keys x handle _ _ hh hkey
          (.inr ⟨_, mem_of_getElem? ht, _, _, _, htodo⟩) hlook
        rw [huncleaned hall x handle hh hown.symm hkey] at hclean
        cases hclean
    · cases hs with
      | post | transition | finish | delete | drop => cases hm
      | op ht htodo ha hex =>
        cases busesAfter_exec hex with
        | same => cases hm
        | registered hfree hb =>
          cases mem_singleton.mp hm
          exact (congrArg (AList.lookup _) hb).trans (AList.lookup_insert _)
        | retired hb hes =>
          obtain ⟨_, heq, -⟩ := hes _ hm
          cases heq

/-- In a run that keeps the owners, a bus is removed only by the end or the
deletion of a scenario of its own launch, and stays registered until a
scenario of its launch under its key is cleaned up. -/
theorem buses_removed_by_owner (h : (server P).Run KeepsOwners {} sv log) :
    (∀ x k b, .retired x k b ∈ log → b.launch = x.launch) ∧
      ∀ k b, .registered k b ∈ log →
        (∀ x handle, sv.handles.lookup x = some handle → x.launch = b.launch → handle.key = some k →
          handle.cleanedUp = false) → sv.registry.buses.lookup k = some b := by
  have hstart : Owned {} [] := by
    refine ⟨fresh_start, nofun, ?_, nofun, nofun⟩
    intro x handle k b hh
    simp at hh
  have hi : Owned sv log := h.invariant hstart fun hi hc hs => owned_step hi hc (steps_of_step hs)
  exact ⟨hi.retired, hi.registered⟩

/-! ## Finish, post again, delete -/

instance (x : HandleRef) (t : Thread) : Decidable (Retires x t) :=
  match h : t.todo with
  | .retireBuses y name id :: rest => decidable_of_iff (y = x) (by simp [Retires, h])
  | [] | .conflicts _ :: _ | .scenarioNameInUse _ :: _ | .preflight :: _ | .launch _ :: _
  | .rejectEmpty :: _ | .renamePending _ :: _ | .renameSubscribers _ :: _ | .insertRows _ :: _
  | .finish _ :: _ | .claim _ :: _ | .removeRow _ :: _ | .requeueSubscribers :: _ =>
    isFalse (by simp [Retires, h])

instance (x : HandleRef) (handle : ScenarioHandle) : Decidable (Threatens sv x handle) :=
  inferInstanceAs (Decidable (_ ∨ _))

instance (p : Nat → Prop) [DecidablePred p] (k : BusKey) : Decidable (Unthreatened sv p k) :=
  inferInstanceAs (Decidable (∀ x ∈ sv.handles.keys, ∀ handle ∈ sv.handles.lookup x, _))

instance (t : Thread) (op : Op) : Decidable (OpKeepsOwners sv t op) := by
  unfold OpKeepsOwners
  split <;> infer_instance

instance : (a : ServerAct α) → Decidable (KeepsOwners sv a)
  | .step i _ => inferInstanceAs (Decidable (∀ t ∈ sv.threads[i]?, _))
  | .post .. | .transition .. | .finish _ | .delete _ | .drop _ => isTrue trivial

/-- `web` is posted, its task ends, and it is posted again. -/
def reposted (rest : List (ServerAct Unit)) : List (ServerAct Unit) :=
  .post webCpu ["cpu"] :: steps 0 9 ++ .finish ⟨0, 0⟩ :: steps 1 4 ++
    .post webCpu ["cpu"] :: steps 2 9 ++ rest

/-- The second run of `web` ends too, and both rows are deleted. -/
theorem buses_removed_by_owner_web : ∃ sv log,
    (server plainPipeline).Run KeepsOwners {} sv log ∧
      .retired ⟨2, 0⟩ ("web", "cpu") ⟨2, "cpu"⟩ ∈ log ∧
      (∀ x k b, .retired x k b ∈ log → b.launch = x.launch) ∧
      ∀ k b, .registered k b ∈ log →
        (∀ x handle, sv.handles.lookup x = some handle → x.launch = b.launch → handle.key = some k →
          handle.cleanedUp = false) → sv.registry.buses.lookup k = some b :=
  Machine.run_reaches_and
    (reposted (.finish ⟨2, 0⟩ :: steps 3 4 ++ .delete ⟨0, 0⟩ :: steps 4 3 ++
      .delete ⟨2, 0⟩ :: steps 5 3))
    (by decide +kernel) fun _ _ hrun _ => buses_removed_by_owner hrun

/-- The row of the first run is deleted while the second run goes on: its bus
is removed. -/
theorem deleted_after_repost : ∃ sv log,
    (server plainPipeline).Run (fun _ _ => True) {} sv log ∧
      (∃ handle, sv.handles.lookup ⟨2, 0⟩ = some handle ∧ handle.state ≠ .finished ∧
        handle.cleanedUp = false) ∧
      sv.registry.buses.lookup ("web", "cpu") = none ∧
      ¬ ∀ x k b, .retired x k b ∈ log → b.launch = x.launch := by
  obtain ⟨sv, log, hrun, hhandle, hnone, hm⟩ := Machine.run_reaches (server plainPipeline)
    (fun _ _ => True) {} (reposted (.delete ⟨0, 0⟩ :: steps 3 3))
    (fun sv log => sv.handles.lookup ⟨2, 0⟩ =
        some ⟨.fresh ⟨2, 0⟩, some "web", "cpu", none, .pending, false, false⟩ ∧
      sv.registry.buses.lookup ("web", "cpu") = none ∧
      .retired ⟨0, 0⟩ ("web", "cpu") ⟨2, "cpu"⟩ ∈ log) (by decide)
  exact ⟨sv, log, hrun, ⟨_, hhandle, nofun, rfl⟩, hnone,
    fun hall => absurd (hall _ _ _ hm) (by decide)⟩

end Sonda.Proof.Server
