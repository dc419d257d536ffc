import Sonda.Proof.Server.Records
import Sonda.Proof.Server.Wiring

/-!
# No live downstream is lost

A downstream with an upstream in another file is recorded by its launch, and
the record moves between `pending` and the rows of `subscribers` as upstreams
end and are posted again. `Labels` says whose the records are and `Resolved`
where they are; every step keeps both where a launch finds the id of its entry
free and records a downstream on the bus that is registered
(`KeepsRecords`). So when no thread is at work every live downstream waits, or
is subscribed to the bus of its key (`live_downstreams_recorded`).
`downstreams_lost` is two runs that lose one.
-/

namespace Sonda.Proof.Server

open Sonda.Server Sonda.Schedule Framework Sonda.Proof.Schedule List Option

variable {α τ : Type} {P : Pipeline α τ} {sv sv' : ServerState} {a : ServerAct α}
  {es log : List RegistryEvent}

/-! ## Labels -/

/-- The record is what the launch of its downstream recorded, under the id of
the entry or the fresh one. -/
def Own (w : Shared) (p : PendingResolution) : Prop :=
  ∃ handle, w.handles.lookup p.downstream = some handle ∧
    handle.upstream = some ⟨p.scenarioName, p.entryId, p.ifUnresolved, p.spec⟩ ∧
    (p.handleId = .given handle.entryId ∨ p.handleId = .fresh p.downstream)

structure Labels (w : Shared) : Prop where
  keyed : Keyed w.registry
  own : ∀ p, Records w.registry p → Own w p
  one : OneLabel w.registry
  ids : ∀ h handle, w.handles.lookup h = some handle →
    handle.id = .given handle.entryId ∨ handle.id = .fresh h
  /-- A handle that still has the id of its entry is the only one recorded
  under it. -/
  mine : ∀ h handle i, w.handles.lookup h = some handle → handle.id = .given i →
    ∀ p, Records w.registry p → p.handleId = .given i → p.downstream = h

section Labels

variable {w w' : Shared} {alive : HandleRef → Bool} {new : PendingResolution → Prop}
variable {handle : ScenarioHandle} {p : PendingResolution} {x : HandleRef}

theorem Own.kept (hk : Kept w w') (h : Own w p) : Own w' p := by
  obtain ⟨handle, hh, hup, hid⟩ := h
  obtain ⟨handle', hh', hl⟩ := hk.later hh
  exact ⟨handle', hh', hl.upstream.trans hup, hl.entryId ▸ hid⟩

/-- A record under a fresh id is that handle's. -/
theorem Labels.fresh (h : Labels w) (hp : Records w.registry p) (hid : p.handleId = .fresh x) :
    p.downstream = x := by
  obtain ⟨handle, -, -, hown | hown⟩ := h.own p hp
  · rw [hid] at hown; cases hown
  · rw [hid] at hown; cases hown; rfl

/-- A record under the id of a handle is that handle's. -/
theorem Labels.ofId (h : Labels w) (hh : w.handles.lookup x = some handle)
    (hp : Records w.registry p) (hid : p.handleId = handle.id) : p.downstream = x := by
  rcases h.ids x handle hh with hown | hown
  · exact h.mine x handle _ hh hown p hp (hid.trans hown)
  · exact h.fresh hp (hid.trans hown)

section

variable (h : Labels w) (hk : Kept w w')

include h hk

/-- The records carried over, and the new ones, are labelled if the new ones
fit in. -/
theorem Labels.carry (hc : Carries alive new w.registry w'.registry) (hown : ∀ p, new p → Own w p)
    (hone : ∀ p q, new p → Records w.registry q ∨ new q → q.handleId = p.handleId →
      q.downstream = p.downstream)
    (hmine : ∀ p x handle i, new p → w'.handles.lookup x = some handle → handle.id = .given i →
      p.handleId = .given i → p.downstream = x) : Labels w' where
  keyed := hc.keyed
  own p hp := ((hc.origin p hp).elim (h.own p) (hown p)).kept hk
  one p q hp hq hid := by
    rcases hc.origin p hp with hp | hp
    · rcases hc.origin q hq with hq | hq
      · exact h.one p q hp hq hid
      · exact hone q p hq (.inl hp) hid
    · exact (hone p q hp (hc.origin q hq) hid.symm).symm
  ids x handle' hh := by
    obtain ⟨handle, ho, hl⟩ := hk.lookup hh
    rcases hl.id with hid | hid
    · rw [hid, hl.entryId]; exact h.ids x handle ho
    · exact .inr hid
  mine x handle' i hh hid p hp hpid := by
    rcases hc.origin p hp with hp | hp
    · obtain ⟨handle, ho, hl⟩ := hk.lookup hh
      rcases hl.id with hsame | hfresh
      · exact h.mine x handle i ho (hsame ▸ hid) p hp hpid
      · rw [hid] at hfresh; cases hfresh
    · exact hmine p x handle' i hp hh hid hpid

/-- Nothing new is recorded. -/
theorem Labels.move (hc : Carries alive (fun _ => False) w.registry w'.registry) : Labels w' :=
  h.carry hk hc (fun _ => False.elim) (fun _ _ h => h.elim) fun _ _ _ _ h => h.elim

/-- Renaming the handle `x`. -/
theorem Labels.rename (hh : w.handles.lookup x = some handle)
    (hc : Carries alive (Relabelled w.registry handle.id (.fresh x)) w.registry w'.registry) :
    Labels w' := by
  have hx {p : PendingResolution} (hp : Relabelled w.registry handle.id (.fresh x) p) :
      p.downstream = x := by
    obtain ⟨q, hq, hid, rfl⟩ := hp
    have : q.downstream = x := h.ofId hh hq hid
    exact this
  refine h.carry hk hc (fun p hp => ?_) (fun p q hp hq hid => ?_) fun p y handle' i hp _ _ hid => ?_
  · have hpx := hx hp
    obtain ⟨q, hq, -, rfl⟩ := hp
    obtain ⟨handle', hh', hup, -⟩ := h.own q hq
    exact ⟨handle', hh', hup, .inr (hpx ▸ rfl)⟩
  · rcases hq with hq | hq
    · rw [hx hp]
      obtain ⟨_, -, -, rfl⟩ := hp
      exact h.fresh hq hid
    · exact (hx hq).trans (hx hp).symm
  · obtain ⟨_, -, -, rfl⟩ := hp
    cases hid

/-- The handle `x` is recorded, and no other handle has its id. -/
theorem Labels.record (hh : w.handles.lookup x = some handle) (hp : handle.resolution x = some p)
    (hother : ∀ y other, w.handles.lookup y = some other → other.id = handle.id → y = x)
    (hc : Carries alive (· = p) w.registry w'.registry) : Labels w' := by
  obtain ⟨up, hup, rfl⟩ := map_eq_some_iff.mp hp
  refine h.carry hk hc ?_ ?_ ?_
  · rintro _ rfl
    exact ⟨handle, hh, hup, h.ids x handle hh⟩
  · rintro _ q rfl (hq | rfl) hid
    · exact h.ofId hh hq hid
    · rfl
  · rintro _ y other i rfl hy hid hpid
    obtain ⟨other₀, hy₀, hl⟩ := hk.lookup hy
    rcases hl.id with hsame | hfresh
    · exact (hother y other₀ hy₀ (hsame.symm.trans (hid.trans hpid.symm))).symm
    · rw [hid] at hfresh; cases hfresh

end

/-- A handle is launched under an id that no record has. -/
theorem Labels.launch (h : Labels w) (hx : x ∉ w.handles) (hid : handle.id = .given handle.entryId)
    (hfree : ∀ p, Records w.registry p → p.handleId ≠ handle.id) (hr : w'.registry = w.registry)
    (hh : w'.handles = w.handles.insert x handle) : Labels w' := by
  have hlook {y : HandleRef} {other : ScenarioHandle} (hy : w'.handles.lookup y = some other) :
      y = x ∧ other = handle ∨ w.handles.lookup y = some other := by
    rw [hh] at hy
    exact (lookup_insert_cases hy).imp_right And.right
  refine ⟨hr ▸ h.keyed, fun p hp => ?_, hr ▸ h.one, fun y other hy => ?_,
    fun y other i hy hi p hp hpi => ?_⟩
  · obtain ⟨other, ho, hrest⟩ := h.own p (hr ▸ hp)
    refine ⟨other, ?_, hrest⟩
    have hne : p.downstream ≠ x := fun he => hx (he ▸ mem_of_lookup ho)
    rw [hh, AList.lookup_insert_ne hne, ho]
  · rcases hlook hy with ⟨rfl, rfl⟩ | hy
    · exact .inl hid
    · exact h.ids y other hy
  · rcases hlook hy with ⟨rfl, rfl⟩ | hy
    · exact absurd (hpi.trans hi.symm) (hfree p (hr ▸ hp))
    · exact h.mine y other i hy hi p (hr ▸ hp) hpi

end Labels

/-! ## What an operation does to the records -/

section Exec

variable {inp : OpInput} {s s' : AppState} {t t' : Thread} {op : Op}

inductive RecordsAfter (s : AppState) (t : Thread) (s' : AppState) : Op → Prop
  | same {op : Op} (hsub : s'.registry.subscribers = s.registry.subscribers)
      (hpen : s'.registry.pending = s.registry.pending) (hne : op ≠ .requeueSubscribers)
      (hrec : ∀ index, op = .launch (.record index) →
        (s.handles.lookup ⟨t.launch, index⟩).bind (·.resolution ⟨t.launch, index⟩) = none) :
      RecordsAfter s t s' op
  | recorded {index : Nat} {handle : ScenarioHandle} {p : PendingResolution}
      (hh : s.handles.lookup ⟨t.launch, index⟩ = some handle)
      (hp : handle.resolution ⟨t.launch, index⟩ = some p)
      (hr : s'.registry = s.registry.insertPending p ∨
        (∃ b, t.found index = some b) ∧ s'.registry = s.registry.trackSubscriber p) :
      RecordsAfter s t s' (.launch (.record index))
  | swept {order : List HandleId}
      (hr : s'.registry = (GateBusRegistry.sweepPending s.alive order s.registry).1)
      (hs : ∀ p ∈ (GateBusRegistry.sweepPending s.alive order s.registry).2, p.2 ∈ s'.senders p.1) :
      RecordsAfter s t s' (.launch .sweepPending)
  | renamedPending {x : HandleRef} {handle : ScenarioHandle} (hh : s.handles.lookup x = some handle)
      (hr : s'.registry = s.registry.renamePending handle.id (.fresh x)) :
      RecordsAfter s t s' (.renamePending x)
  | renamedSubscribers {x : HandleRef} {handle : ScenarioHandle}
      (hh : s.handles.lookup x = some handle)
      (hr : s'.registry = s.registry.renameSubscribers handle.id (.fresh x)) :
      RecordsAfter s t s' (.renameSubscribers x)
  | requeued (hr : s'.registry = s.registry.requeueSubscribers s.alive t.removed) :
      RecordsAfter s t s' .requeueSubscribers

theorem mem_subscribe {w : Shared} {bus b : BusRef} {h d : HandleRef} :
    d ∈ (w.subscribe bus h).senders b ↔ d ∈ w.senders b ∨ b = bus ∧ d = h := by
  simp only [Shared.subscribe]
  by_cases hb : b = bus
  · subst hb; simp
  · simp [hb]

theorem subscribe_senders (ps : List (BusRef × HandleRef)) (w : Shared) :
    (ps.foldl (fun w p => w.subscribe p.1 p.2) w).dropped = w.dropped ∧
      (∀ b d, d ∈ w.senders b → d ∈ (ps.foldl (fun w p => w.subscribe p.1 p.2) w).senders b) ∧
      ∀ p ∈ ps, p.2 ∈ (ps.foldl (fun w p => w.subscribe p.1 p.2) w).senders p.1 := by
  induction ps generalizing w with
  | nil => exact ⟨rfl, fun _ _ => id, nofun⟩
  | cons p ps ih =>
    obtain ⟨hd, hmono, hall⟩ := ih (w.subscribe p.1 p.2)
    refine ⟨hd, fun b d h => hmono b d (mem_subscribe.mpr (.inl h)), fun q hq => ?_⟩
    rcases mem_cons.mp hq with rfl | hq
    · exact hmono _ _ (mem_subscribe.mpr (.inr ⟨rfl, rfl⟩))
    · exact hall q hq

theorem recordsAfter_launchOp {lop : LaunchOp} {found : Found} {w : Shared}
    (h : lop.exec t.launch inp.order t.found s.toShared = .ok (found, w, es)) :
    RecordsAfter s t { s with toShared := w } (.launch lop) := by
  cases lop with
  | register name id =>
    simp only [LaunchOp.exec] at h
    split at h
    · cases h
    · rename_i hr
      obtain ⟨-, rfl⟩ := register_cases _ hr
      cases h
      exact .same rfl rfl (by simp) (by simp)
  | fail => cases h
  | lookup | launch => cases h; exact .same rfl rfl (by simp) (by simp)
  | subscribe =>
    simp only [LaunchOp.exec] at h
    split at h <;> cases h <;> exact .same rfl rfl (by simp) (by simp)
  | record index =>
    simp only [LaunchOp.exec] at h
    split at h
    · rename_i hnone
      cases h
      exact .same rfl rfl (by simp) fun i hi => by cases hi; exact hnone
    · rename_i hsome hfound
      cases h
      obtain ⟨handle, hh, hp⟩ := bind_eq_some_iff.mp hsome
      exact .recorded hh hp (.inl rfl)
    · rename_i hsome hfound
      cases h
      obtain ⟨handle, hh, hp⟩ := bind_eq_some_iff.mp hsome
      exact .recorded hh hp (.inr ⟨⟨_, hfound⟩, rfl⟩)
  | sweepPending =>
    cases h
    exact .swept (subscribe_registry _ _) (subscribe_senders _ _).2.2

section

variable (h : op.exec inp s t = (s', t', es))

include h

theorem recordsAfter_exec : RecordsAfter s t s' op := by
  cases op with
  | launch lop =>
    simp only [Op.exec] at h
    split at h
    · rename_i herr
      cases h
      refine .same rfl rfl (by simp) fun index hi => ?_
      cases hi
      simp only [LaunchOp.exec] at herr
      split at herr <;> cases herr
    · rename_i hex
      cases h
      exact recordsAfter_launchOp hex
  | requeueSubscribers => cases h; exact .requeued rfl
  | renamePending x =>
    simp only [Op.exec] at h
    split at h <;> cases h
    · exact .same rfl rfl (by simp) (by simp)
    · rename_i hh
      exact .renamedPending hh rfl
  | renameSubscribers x =>
    simp only [Op.exec] at h
    split at h <;> cases h
    · exact .same rfl rfl (by simp) (by simp)
    · rename_i hh
      exact .renamedSubscribers hh rfl
  | conflicts | scenarioNameInUse | preflight | rejectEmpty | insertRows | retireBuses =>
    cases h; exact .same rfl rfl (by simp) (by simp)
  | finish | claim | removeRow =>
    simp only [Op.exec] at h
    (repeat' split at h) <;> cases h <;> exact .same rfl rfl (by simp) (by simp)

/-- No sender is taken from a bus. -/
theorem senders_exec : s'.dropped = s.dropped ∧ ∀ b d, d ∈ s.senders b → d ∈ s'.senders b := by
  cases op with
  | launch lop =>
    simp only [Op.exec] at h
    split at h
    · cases h; exact ⟨rfl, fun _ _ => id⟩
    · rename_i hex
      cases h
      cases lop with
      | sweepPending =>
        cases hex
        obtain ⟨hd, hmono, -⟩ := subscribe_senders _ _
        exact ⟨hd, hmono⟩
      | subscribe index =>
        simp only [LaunchOp.exec] at hex
        split at hex <;> cases hex
        · exact ⟨rfl, fun _ _ => id⟩
        · exact ⟨rfl, fun b d h => mem_subscribe.mpr (.inl h)⟩
      | _ =>
        simp only [LaunchOp.exec] at hex
        (repeat' split at hex) <;> cases hex <;> exact ⟨rfl, fun _ _ => id⟩
  | _ =>
    simp only [Op.exec] at h
    (repeat' split at h) <;> cases h <;> exact ⟨rfl, fun _ _ => id⟩

/-- A thread finds a bus by a lookup, and subscribes the handle to the bus it
has found. -/
theorem found_exec : (∃ i up, op = .launch (.lookup i up) ∧ ∀ j, j ≠ i → t'.found j = t.found j) ∨
      (∃ i, op = .launch (.subscribe i) ∧ t'.found = t.found ∧
        ∀ b, t.found i = some b → ⟨t.launch, i⟩ ∈ s'.senders b) ∨
      (∀ i, op ≠ .launch (.subscribe i)) ∧ t'.found = t.found := by
  cases op with
  | launch lop =>
    simp only [Op.exec] at h
    cases lop with
    | lookup i up =>
      cases h
      exact .inl ⟨i, up, rfl, fun j hj => Function.update_of_ne hj _ _⟩
    | subscribe i =>
      refine .inr (.inl ⟨i, rfl, ?_⟩)
      simp only [LaunchOp.exec] at h
      cases hf : t.found i <;> rw [hf] at h <;> cases h
      · exact ⟨rfl, by simp⟩
      · refine ⟨rfl, fun b hb => ?_⟩
        exact mem_subscribe.mpr (.inr ⟨(some.inj hb).symm, rfl⟩)
    | _ =>
      refine .inr (.inr ⟨by simp, ?_⟩)
      split at h
      · cases h; rfl
      · rename_i hex
        cases h
        simp only [LaunchOp.exec] at hex
        (repeat' split at hex) <;> cases hex <;> rfl
  | _ =>
    simp only [Op.exec] at h
    (repeat' split at h) <;> cases h <;> exact .inr (.inr ⟨by simp, rfl⟩)

theorem removed_exec : t'.removed = t.removed ∨ ∃ x name id, op = .retireBuses x name id ∧
      t'.removed = (s.registry.retireBuses name [id]).2.map Prod.fst := by
  cases op with
  | retireBuses x name id => cases h; exact .inr ⟨x, name, id, rfl, rfl⟩
  | _ =>
    simp only [Op.exec] at h
    (repeat' split at h) <;> cases h <;> exact .inl rfl

end

end Exec

/-! ## The condition -/

/-- A thread has still to requeue the subscribers of the key. -/
def Outstanding (sv : ServerState) (k : BusKey) : Prop :=
  ∃ t ∈ sv.threads, k ∈ t.removed ∧ .requeueSubscribers ∈ t.todo

/-- No other handle has the id of the handle `h`. -/
def OnlyId (sv : ServerState) (h : HandleRef) (handle : ScenarioHandle) : Prop :=
  ∀ x ∈ sv.handles.keys, ∀ other ∈ sv.handles.lookup x, other.id = handle.id → x = h

/-- The bus is still the one of the upstream, or its subscribers are still to
be requeued. -/
def StillThere (sv : ServerState) (bus : BusRef) (up : Upstream) : Prop :=
  sv.registry.buses.lookup up.key = some bus ∨ Outstanding sv up.key

/-- What an operation must find for no downstream to be lost:

* a handle is launched under an id that no record has;
* it is recorded when no other handle has its id and, if a bus was found for
  it, when that bus is still registered or the subscribers of its key are
  still to be requeued. -/
def OpKeepsRecords (sv : ServerState) (t : Thread) : Op → Prop
  | .launch (.launch _ handle) =>
    handle.id ∉ sv.registry.pending ∧ ∀ x ∈ sv.registry.subscribers, x.2.handleId ≠ handle.id
  | .launch (.record index) => ∀ handle ∈ sv.handles.lookup ⟨t.launch, index⟩,
    OnlyId sv ⟨t.launch, index⟩ handle ∧
      ∀ bus ∈ t.found index, ∀ up ∈ handle.upstream, StillThere sv bus up
  | _ => True

/-- The condition on a run. -/
def KeepsRecords (sv : ServerState) : ServerAct α → Prop
  | .step i _ => ∀ t ∈ sv.threads[i]?, ∀ op ∈ t.todo.head?, OpKeepsRecords sv t op
  | _ => True

/-! ## The records of a run -/

/-- What the thread has found and removed. -/
structure Threaded (w : Shared) (t : Thread) : Prop where
  wired : Wired t.todo
  removed : t.removed = [] ∨ t.todo = [.requeueSubscribers] ∨ t.todo = []
  found : ∀ i b, .launch (.record i) ∈ t.todo → t.found i = some b →
    ⟨t.launch, i⟩ ∈ w.senders b ∨ .launch (.subscribe i) ∈ t.todo

/-- The bus of the key holds the sender of the downstream, or the downstream
will be requeued. -/
def Covered (sv : ServerState) (k : BusKey) (d : HandleRef) : Prop :=
  (∃ b, sv.registry.buses.lookup k = some b ∧ d ∈ sv.senders b) ∨ Outstanding sv k

/-- The downstream has a record, or its launch has still to make it. -/
def Tracked (sv : ServerState) (d : HandleRef) : Prop :=
  (∃ p, Records sv.registry p ∧ p.downstream = d) ∨
    ∃ t ∈ sv.threads, t.launch = d.launch ∧ .launch (.record d.index) ∈ t.todo

structure Resolved (sv : ServerState) : Prop where
  fresh : Fresh sv
  labels : Labels sv.toShared
  threads : ∀ t ∈ sv.threads, Threaded sv.toShared t
  recorded : ∀ d handle, sv.handles.lookup d = some handle → handle.upstream.isSome = true →
    sv.alive d = true → Tracked sv d
  subscribed : ∀ x ∈ sv.registry.subscribers, sv.alive x.2.downstream = true →
    Covered sv x.1 x.2.downstream

theorem Threaded.mono {w w' : Shared} {t : Thread} (h : Threaded w t)
    (hs : ∀ b d, d ∈ w.senders b → d ∈ w'.senders b) : Threaded w' t :=
  ⟨h.wired, h.removed, fun i b hm hf => (h.found i b hm hf).imp (hs b _) id⟩

/-- A step that no thread takes. -/
theorem Resolved.of_quiet (h : Resolved sv) (hfresh : Fresh sv')
    (hk : Kept sv.toShared sv'.toShared) (hr : sv'.registry = sv.registry)
    (hs : sv'.senders = sv.senders) (ha : ∀ d, sv'.alive d = true → sv.alive d = true)
    (hthreads : ∀ t ∈ sv'.threads, t ∈ sv.threads ∨ Threaded sv'.toShared t)
    (hsub : ∀ t ∈ sv.threads, t ∈ sv'.threads) : Resolved sv' where
  fresh := hfresh
  labels := by
    have hc : Carries sv.alive (fun _ => False) sv.registry sv'.registry :=
      .of_eq h.labels.keyed (congrArg _ hr) (congrArg _ hr)
    exact h.labels.move hk hc
  threads t ht := (hthreads t ht).elim
    (fun ht => (h.threads t ht).mono fun b d hd => hs ▸ hd) id
  recorded d handle' hh hup halive := by
    obtain ⟨handle, ho, hl⟩ := hk.lookup hh
    rcases h.recorded d handle ho (hl.upstream ▸ hup) (ha d halive) with hp | ⟨t, ht, hrest⟩
    · exact .inl (hr ▸ hp)
    · exact .inr ⟨t, hsub t ht, hrest⟩
  subscribed x hx halive := by
    rcases h.subscribed x (hr ▸ hx) (ha _ halive) with ⟨b, hb, hd⟩ | ⟨t, ht, hrest⟩
    · exact .inl ⟨b, hr ▸ hb, hs ▸ hd⟩
    · exact .inr ⟨t, hsub t ht, hrest⟩

section Step

variable {i : Nat} {inp : OpInput} {s : AppState} {t t' : Thread} {op : Op} {rest : List Op}

/-- A thread is still there after a step of another. -/
theorem mem_set_of_mem {β : Type} {l : List β} {x y z : β} (hi : l[i]? = some y) (hx : x ∈ l) :
    x = y ∨ x ∈ l.set i z := by
  obtain ⟨j, hj⟩ := mem_iff_getElem?.mp hx
  by_cases hij : i = j
  · subst hij
    exact .inl (some.inj (hj.symm.trans hi))
  · exact .inr (mem_iff_getElem?.mpr ⟨j, (getElem?_set_ne hij).trans hj⟩)

theorem mem_set_self {β : Type} {l : List β} {y z : β} (hi : l[i]? = some y) : z ∈ l.set i z :=
  List.mem_iff_getElem?.mpr ⟨i, List.getElem?_set_self (List.getElem?_eq_some_iff.mp hi).1⟩

/-- A handle with an upstream is recorded by the operation for it. -/
theorem records_record {index : Nat} {d : HandleRef} {handle : ScenarioHandle}
    (hd : ⟨t.launch, index⟩ = d) (hh : sv.handles.lookup d = some handle)
    (hup : handle.upstream.isSome = true)
    (hex : (Op.launch (.record index)).exec inp sv.toAppState { t with todo := rest } = (s, t', es)) :
    ∃ p, Records s.registry p ∧ p.downstream = d := by
  obtain ⟨up, hup⟩ := isSome_iff_exists.mp hup
  cases recordsAfter_exec hex with
  | same _ _ _ hrec =>
    have hnone := hrec index rfl
    rw [hd] at hnone
    simp [hh, ScenarioHandle.resolution, hup] at hnone
  | recorded _ hp hr =>
    obtain ⟨_, -, rfl⟩ := map_eq_some_iff.mp hp
    rcases hr with hr | ⟨-, hr⟩ <;> rw [hr]
    · exact ⟨_, (records_insertPending _ _).mpr (.inl rfl), hd⟩
    · exact ⟨_, .inr (mem_append_right _ (mem_singleton_self _)), hd⟩

variable (htodo : t.todo = op :: rest)
variable (hex : op.exec inp sv.toAppState { t with todo := rest } = (s, t', es))

include htodo hex

/-- An operation that meets the condition carries the records over, and keeps
them labelled. -/
theorem labels_exec (h : Labels sv.toShared) (hunused : ∀ x ∈ toLaunch t, x ∉ sv.handles)
    (hw : OpWired rest op) (hcond : OpKeepsRecords sv t op) :
    Labels s.toShared ∧ ∃ new, Carries sv.alive new sv.registry s.registry := by
  rcases exec_handles hex with ⟨index, handle, rfl, he⟩ | hk
  · have hr : s.registry = sv.registry := by cases hex; rfl
    refine ⟨h.launch (hunused _ (by simp [toLaunch, htodo, launches])) hw.1 (fun p hp hid => ?_) hr he,
      fun _ => False, .of_eq h.keyed (congrArg _ hr) (congrArg _ hr)⟩
    rcases hp with hp | hp
    · exact hcond.1 (hid ▸ mem_of_lookup hp)
    · exact hcond.2 _ hp hid
  have move (hc : Carries sv.alive (fun _ => False) sv.registry s.registry) :
      Labels s.toShared ∧ ∃ new, Carries sv.alive new sv.registry s.registry :=
    ⟨h.move hk hc, _, hc⟩
  have rename {x : HandleRef} {handle : ScenarioHandle} (hh : sv.handles.lookup x = some handle)
      (hc : Carries sv.alive (Relabelled sv.registry handle.id (.fresh x)) sv.registry s.registry) :
      Labels s.toShared ∧ ∃ new, Carries sv.alive new sv.registry s.registry :=
    ⟨h.rename hk hh hc, _, hc⟩
  cases recordsAfter_exec hex with
  | same hsub hpen => exact move (.of_eq h.keyed hsub hpen)
  | @recorded _ _ p hh hp hr =>
    have hc : Carries sv.alive (· = p) sv.registry s.registry := by
      rcases hr with hr | ⟨-, hr⟩ <;> rw [hr]
      · refine carries_insertPending h.keyed fun q hq hid => ?_
        obtain ⟨up, -, rfl⟩ := map_eq_some_iff.mp hp
        exact h.ofId hh hq hid
      · exact carries_trackSubscriber h.keyed
    exact ⟨h.record hk hh hp (fun y other hy => (hcond _ hh).1 y (mem_of_lookup hy) other hy) hc,
      _, hc⟩
  | swept hr hs => exact move (hr ▸ carries_sweepPending h.keyed _)
  | renamedPending hh hr =>
    exact rename hh (hr ▸ carries_renamePending h.keyed fun p q hp hq hpid hqid =>
      (h.fresh hp hpid).trans (h.ofId hh hq hqid).symm)
  | renamedSubscribers hh hr => exact rename hh (hr ▸ carries_renameSubscribers h.keyed)
  | requeued hr => exact move (hr ▸ carries_requeueSubscribers h.keyed h.one t.removed)

theorem Threaded.exec {w : Shared} (h : Threaded w t)
    (hs : ∀ b d, d ∈ w.senders b → d ∈ s.senders b) : Threaded s.toShared t' := by
  have hw : Wired (op :: rest) := htodo ▸ h.wired
  refine ⟨wired_exec hw hex, ?_, fun i b hm hf => ?_⟩
  · rcases removed_exec hex with hr | ⟨x, name, id, rfl, -⟩
    · rcases h.removed with hn | hq | hq
      · exact .inl (hr.trans hn)
      · rw [htodo, cons.injEq] at hq
        obtain ⟨rfl, rfl⟩ := hq
        obtain ⟨-, -, h | h⟩ := exec_thread hex <;> exact .inr (.inr h)
      · rw [htodo] at hq; cases hq
    · rcases todo_exec hw.1 hex with hr | ⟨hr, -⟩
      · exact .inr (.inl (hr.trans hw.1))
      · exact .inr (.inr hr)
  · have hl : t'.launch = t.launch := (exec_thread hex).1
    have hr : t'.todo = rest := by
      rcases todo_exec hw.1 hex with hr | ⟨hr, -⟩
      · exact hr
      · rw [hr] at hm; cases hm
    rw [hr] at hm
    rw [hl, hr]
    have hold (hf : t.found i = some b) (hne : op ≠ .launch (.subscribe i)) :
        ⟨t.launch, i⟩ ∈ s.senders b ∨ .launch (.subscribe i) ∈ rest := by
      rcases h.found i b (htodo ▸ mem_cons_of_mem _ hm) hf with h | h
      · exact .inl (hs b _ h)
      · rw [htodo] at h
        exact .inr ((mem_cons.mp h).resolve_left fun e => hne e.symm)
    rcases found_exec hex with ⟨j, up, rfl, hother⟩ | ⟨j, rfl, hsame, hsub⟩ | ⟨hne, hsame⟩
    · by_cases hij : i = j
      · subst hij; exact .inr hw.1
      · exact hold ((hother i hij).symm.trans hf) nofun
    · have hf : t.found i = some b := hsame ▸ hf
      by_cases hij : i = j
      · subst hij; exact .inl (hsub b hf)
      · exact hold hf fun h => by cases h; exact hij rfl
    · exact hold (hsame ▸ hf) (hne i)

/-- A downstream stays covered, unless it is requeued right now. -/
theorem Covered.exec {k : BusKey} {d : HandleRef} (h : Covered sv k d)
    (ht : sv.threads[i]? = some t) (hthread : Threaded sv.toShared t)
    (hop : op = .requeueSubscribers → k ∉ t.removed) : Covered ⟨s, sv.threads.set i t'⟩ k d := by
  have hw : Wired (op :: rest) := htodo ▸ hthread.wired
  rcases h with ⟨b, hb, hd⟩ | ⟨u, hu, hk, hq⟩
  · rcases (busesAfter_exec hex).lookup hb with hb' | ⟨x, rfl⟩
    · exact .inl ⟨b, hb', (senders_exec hex).2 b d hd⟩
    · -- the thread that removed the bus requeues next
      cases hex
      refine .inr ⟨_, mem_set_self ht, ?_, ?_⟩
      · exact mem_map.mpr ⟨(k, b), (mem_retired _ _ _ _ _).mpr ⟨rfl, hb⟩, rfl⟩
      · rw [show rest = [.requeueSubscribers] from hw.1]
        exact mem_singleton_self _
  · rcases mem_set_of_mem (z := t') ht hu with rfl | hu
    · -- the thread requeues the key itself
      rcases hthread.removed with hn | hq' | hq'
      · rw [hn] at hk; cases hk
      · rw [htodo, cons.injEq] at hq'
        exact absurd hk (hop hq'.1)
      · rw [htodo] at hq'; cases hq'
    · exact .inr ⟨u, hu, hk, hq⟩

theorem subscribed_exec (h : Resolved sv) (ht : sv.threads[i]? = some t)
    (hcond : OpKeepsRecords sv t op) :
    ∀ x ∈ s.registry.subscribers, s.alive x.2.downstream = true →
      Covered ⟨s, sv.threads.set i t'⟩ x.1 x.2.downstream := by
  intro x hx halive
  have hthread := h.threads t (mem_of_getElem? ht)
  have ha (d : HandleRef) : s.alive d = sv.alive d := by
    simp only [Shared.alive, (senders_exec hex).1]
  -- a subscriber that was in its row
  have hold {sub : SubscriberRef} (hm : (x.1, sub) ∈ sv.registry.subscribers)
      (hd : sub.downstream = x.2.downstream) (hop : op = .requeueSubscribers → x.1 ∉ t.removed) :
      Covered ⟨s, sv.threads.set i t'⟩ x.1 x.2.downstream := by
    have hc := h.subscribed _ hm (by rw [hd, ← ha]; exact halive)
    rw [hd] at hc
    exact hc.exec htodo hex ht hthread hop
  cases recordsAfter_exec hex with
  | same hsub _ hne => exact hold (hsub ▸ hx) rfl fun h => absurd h hne
  | @recorded index handle p hh hp hr =>
    rcases hr with hr | ⟨⟨b, hb⟩, hr⟩ <;> rw [hr] at hx
    · exact hold hx rfl nofun
    rcases mem_append.mp hx with hx | hx
    · exact hold hx rfl nofun
    obtain ⟨up, hup, rfl⟩ := map_eq_some_iff.mp hp
    rw [mem_singleton.mp hx]
    have hsender : ⟨t.launch, index⟩ ∈ sv.senders b := by
      refine (hthread.found index b (htodo ▸ mem_cons_self) hb).resolve_right fun hm => ?_
      rw [htodo] at hm
      have hw : Wired (.launch (.record index) :: rest) := htodo ▸ hthread.wired
      exact (mem_cons.mp hm).elim nofun hw.1
    have hc : Covered sv up.key ⟨t.launch, index⟩ :=
      ((hcond handle hh).2 b hb up hup).imp (fun hb => ⟨b, hb, hsender⟩) id
    exact hc.exec htodo hex ht hthread nofun
  | swept hr hs =>
    rw [hr] at hx
    rcases mem_sweepPending hx with hx | ⟨b, hb, hm⟩
    · exact hold hx rfl nofun
    · refine .inl ⟨b, ?_, hs _ hm⟩
      rw [hr, sweepPending_buses, hb]
  | renamedPending _ hr =>
    rw [hr, renamePending_subscribers] at hx
    exact hold hx rfl nofun
  | renamedSubscribers _ hr =>
    rw [hr] at hx
    obtain ⟨sub, hm, hd⟩ := mem_renameSubscribers hx
    exact hold hm hd nofun
  | requeued hr =>
    rw [hr] at hx
    obtain ⟨hm, hn⟩ := mem_requeueSubscribers hx
    exact hold hm rfl fun _ => hn

theorem recorded_exec (h : Resolved sv) (ht : sv.threads[i]? = some t)
    {new : PendingResolution → Prop} (hc : Carries sv.alive new sv.registry s.registry) :
    ∀ d handle, s.handles.lookup d = some handle → handle.upstream.isSome = true →
      s.alive d = true → Tracked ⟨s, sv.threads.set i t'⟩ d := by
  intro d handle' hh' hup halive
  have hw : Wired (op :: rest) := htodo ▸ (h.threads t (mem_of_getElem? ht)).wired
  have hl : t'.launch = t.launch := (exec_thread hex).1
  have ha : sv.alive d = true := by
    rw [Shared.alive, ← (senders_exec hex).1]; exact halive
  -- the handle was there before the operation
  have hold {handle : ScenarioHandle} (hh : sv.handles.lookup d = some handle)
      (hup : handle.upstream.isSome = true) : Tracked ⟨s, sv.threads.set i t'⟩ d := by
    rcases h.recorded d handle hh hup ha with ⟨p, hp, rfl⟩ | ⟨u, hu, hlaunch, hm⟩
    · exact .inl (hc.kept p hp ha)
    rcases mem_set_of_mem (z := t') ht hu with rfl | hu
    swap
    · exact .inr ⟨u, hu, hlaunch, hm⟩
    have hd : (⟨u.launch, d.index⟩ : HandleRef) = d := by rw [hlaunch]
    rw [htodo] at hm
    rcases mem_cons.mp hm with rfl | hm
    · exact .inl (records_record hd hh hup hex)
    · rcases todo_exec hw.1 hex with hr | ⟨-, hready⟩
      · exact .inr ⟨t', mem_set_self ht, hl.trans hlaunch, hr ▸ hm⟩
      · -- a thread that ends has launched nothing
        obtain ⟨new, hnew⟩ := hready d.index hm
        refine absurd (mem_of_lookup hh) ((h.fresh.thread ht).unused d ?_)
        refine mem_filterMap.mpr ⟨_, htodo ▸ mem_cons_of_mem op hnew, ?_⟩
        rw [launches, hd]
  rcases exec_handles hex with ⟨index, handle, rfl, he⟩ | hk
  · rw [he] at hh'
    rcases lookup_insert_cases hh' with ⟨rfl, rfl⟩ | ⟨-, hh'⟩
    · refine .inr ⟨t', mem_set_self ht, hl, ?_⟩
      have hr : t'.todo = rest := by cases hex; rfl
      rw [hr]
      exact hw.1.2 hup
    · exact hold hh' hup
  · obtain ⟨handle, hh, hlater⟩ := hk.lookup hh'
    exact hold hh (hlater.upstream ▸ hup)

end Step

theorem resolved_step (h : Resolved sv) (hcond : KeepsRecords sv a) (hs : Steps P sv a sv' es) :
    Resolved sv' := by
  have hfresh := fresh_step h.fresh hs
  -- a thread that is new has found and removed nothing
  have hspawn {w : Shared} {sv₀ : ServerState} {new t : Thread} (hw : Wired new.todo)
      (hf : new.found = fun _ => none) (hr : new.removed = []) (ht : t ∈ (sv₀.spawn new).threads) :
      t ∈ sv₀.threads ∨ Threaded w t := by
    refine (mem_spawn ht).imp id fun h => ?_
    subst h
    exact ⟨hw, .inl hr, fun i b _ hb => by rw [hf] at hb; cases hb⟩
  cases hs with
  | post =>
    exact h.of_quiet hfresh (kept_of_eq rfl) rfl rfl (fun _ => id)
      (fun t => hspawn (wired_admitCompiled _ _ _) rfl rfl) fun t => mem_append_left _
  | transition hh hfin =>
    exact h.of_quiet hfresh (kept_state hh hfin) rfl rfl (fun _ => id) (fun t => .inl) fun t => id
  | finish hh =>
    exact h.of_quiet hfresh (kept_ending hh) rfl rfl (fun _ => id)
      (fun t => hspawn (wired_of_end (.inl rfl)) rfl rfl) fun t => mem_append_left _
  | delete hh =>
    exact h.of_quiet hfresh (kept_of_eq rfl) rfl rfl (fun _ => id)
      (fun t => hspawn (wired_of_end (.inr rfl)) rfl rfl) fun t => mem_append_left _
  | drop =>
    refine h.of_quiet hfresh (kept_of_eq rfl) rfl rfl (fun d hd => ?_) (fun t => .inl) fun t => id
    simp only [Shared.alive, contains_cons, Bool.not_or, Bool.and_eq_true] at hd ⊢
    exact hd.2
  | @op i t t' op rest inp s es ht htodo ha hex =>
    have hthread := h.threads t (mem_of_getElem? ht)
    have hw : Wired (op :: rest) := htodo ▸ hthread.wired
    have hcond : OpKeepsRecords sv t op := hcond t ht op (by rw [htodo]; rfl)
    obtain ⟨hlabels, new, hc⟩ :=
      labels_exec htodo hex h.labels (h.fresh.thread ht).unused hw.1 hcond
    have hmono := (senders_exec hex).2
    refine ⟨hfresh, hlabels, fun u hu => ?_, recorded_exec htodo hex h ht hc,
      subscribed_exec htodo hex h ht hcond⟩
    obtain ⟨j, hj⟩ := mem_iff_getElem?.mp hu
    rcases getElem?_set_cases hj with ⟨-, rfl⟩ | ⟨-, hj⟩
    · exact hthread.exec htodo hex hmono
    · exact (h.threads u (mem_of_getElem? hj)).mono hmono

/-- The downstream waits, or is in the row of a key registered to a bus that
holds its sender. -/
def Recorded (sv : ServerState) (d : HandleRef) : Prop :=
  ∃ p : PendingResolution, p.downstream = d ∧ (sv.registry.pending.lookup p.handleId = some p ∨
    SubscriberRef.fromPending p ∈ sv.registry.subscribers ∧
      ∃ b, sv.registry.buses.lookup (p.scenarioName, p.entryId) = some b ∧ d ∈ sv.senders b)

theorem Resolved.recorded_of_done (h : Resolved sv) (hdone : ∀ t ∈ sv.threads, t.todo = [])
    {p : PendingResolution} (hp : Records sv.registry p) (ha : sv.alive p.downstream = true) :
    Recorded sv p.downstream := by
  refine ⟨p, rfl, hp.imp id fun hp => ⟨hp, ?_⟩⟩
  rcases h.subscribed _ hp ha with hb | ⟨t, ht, -, hq⟩
  · exact hb
  · rw [hdone t ht] at hq; cases hq

theorem resolved_start : Resolved {} where
  fresh := fresh_start
  labels := by
    have hnone (p : PendingResolution) : ¬ Records ({} : ServerState).registry p := by
      simp [Records]
    exact ⟨fun id p h => by simp at h, fun p hp => absurd hp (hnone p),
      fun p _ hp => absurd hp (hnone p), fun x handle h => by simp at h,
      fun x handle i h => by simp at h⟩
  threads := nofun
  recorded d handle h := by simp at h
  subscribed := nofun

/-- In a run that keeps the records, every record is its downstream's own,
every live downstream that its launch has recorded keeps a record, and when no
thread is at work it waits or is subscribed to the bus of its key. -/
theorem live_downstreams_recorded (h : (server P).Run KeepsRecords {} sv log) :
    (∀ p, Records sv.registry p → Own sv.toShared p) ∧
      ∀ d handle, sv.handles.lookup d = some handle → handle.upstream.isSome = true →
        sv.alive d = true →
        ((∀ t ∈ sv.threads, t.launch = d.launch → .launch (.record d.index) ∉ t.todo) →
          ∃ p, Records sv.registry p ∧ p.downstream = d) ∧
        ((∀ t ∈ sv.threads, t.todo = []) → Recorded sv d) := by
  have hi : Resolved sv := h.invariant (I := fun sv _ => Resolved sv) resolved_start
    fun hi hc hs => resolved_step hi hc (steps_of_step hs)
  refine ⟨hi.labels.own, fun d handle hh hup ha => ?_⟩
  have hrec := hi.recorded d handle hh hup ha
  refine ⟨fun hlaunched => hrec.resolve_right ?_, fun hdone => ?_⟩
  · rintro ⟨t, ht, hl, hm⟩
    exact hlaunched t ht hl hm
  · rcases hrec with ⟨p, hp, rfl⟩ | ⟨t, ht, -, hm⟩
    · exact hi.recorded_of_done hdone hp ha
    · rw [hdone t ht] at hm; cases hm

/-! ## Lost downstreams -/

instance (k : BusKey) : Decidable (Outstanding sv k) :=
  inferInstanceAs (Decidable (∃ t ∈ sv.threads, _))

instance (h : HandleRef) (handle : ScenarioHandle) : Decidable (OnlyId sv h handle) :=
  inferInstanceAs (Decidable (∀ x ∈ sv.handles.keys, ∀ other ∈ sv.handles.lookup x, _))

instance (bus : BusRef) (up : Upstream) : Decidable (StillThere sv bus up) :=
  inferInstanceAs (Decidable (_ ∨ _))

instance (t : Thread) : (op : Op) → Decidable (OpKeepsRecords sv t op)
  | .launch (.launch _ _) =>
    inferInstanceAs (Decidable (_ ∧ ∀ x ∈ sv.registry.subscribers, _))
  | .launch (.record index) =>
    inferInstanceAs (Decidable (∀ handle ∈ sv.handles.lookup ⟨t.launch, index⟩,
      OnlyId sv ⟨t.launch, index⟩ handle ∧
        ∀ bus ∈ t.found index, ∀ up ∈ handle.upstream, StillThere sv bus up))
  | .launch (.register ..) | .launch (.lookup ..) | .launch (.subscribe _) | .launch (.fail _)
  | .launch .sweepPending | .conflicts _ | .scenarioNameInUse _ | .preflight | .rejectEmpty
  | .renamePending _ | .renameSubscribers _ | .insertRows _ | .finish _ | .claim _ | .removeRow _
  | .retireBuses .. | .requeueSubscribers => isTrue trivial

instance : (a : ServerAct α) → Decidable (KeepsRecords sv a)
  | .step i _ => inferInstanceAs (Decidable (∀ t ∈ sv.threads[i]?, ∀ op ∈ t.todo.head?, _))
  | .post .. | .transition .. | .finish _ | .delete _ | .drop _ => isTrue trivial

/-- A scenario whose entry `gate` runs while `cpu` of `web` is above zero. -/
def gateFile (name : String) : CompiledFile Unit where
  scenarioName := some name
  entries := [⟨some "gate", "logs", some ⟨"cpu", .greaterThan, 0, some "web", none⟩, none, ()⟩]

/-- The launch is over and the downstream is alive. -/
def Waiting (sv : ServerState) (d : HandleRef) : Prop :=
  (∀ t ∈ sv.threads, t.todo = []) ∧ sv.alive d = true ∧
    (sv.handles.lookup d).any (·.upstream.isSome) = true

instance (d : HandleRef) : Decidable (Waiting sv d) := inferInstanceAs (Decidable (_ ∧ _ ∧ _))

/-- What is to be seen of a downstream that is not recorded. -/
def Lost (sv : ServerState) (d : HandleRef) : Prop :=
  (∀ id ∈ sv.registry.pending.keys, ∀ p ∈ sv.registry.pending.lookup id, p.downstream ≠ d) ∧
    ∀ x ∈ sv.registry.subscribers, x.2.downstream = d → sv.registry.buses.lookup x.1 = none

instance (d : HandleRef) : Decidable (Lost sv d) := inferInstanceAs (Decidable (_ ∧ _))

theorem Lost.not_recorded {d : HandleRef} (h : Lost sv d) : ¬ Recorded sv d := by
  rintro ⟨p, hd, hp | ⟨hs, b, hb, -⟩⟩
  · exact h.1 p.handleId (mem_of_lookup hp) p hp hd
  · have hnone := h.2 _ hs hd
    exact nomatch hnone.symm.trans hb

/-- `gate` is subscribed to `web`, waits when `web` ends, and is subscribed
again when `web` is posted again. -/
theorem live_downstreams_recorded_gate : ∃ sv log,
    (server plainPipeline).Run KeepsRecords {} sv log ∧ (Waiting sv ⟨1, 0⟩ ∧
      sv.registry.buses.lookup ("web", "cpu") = some ⟨3, "cpu"⟩ ∧ sv.senders ⟨3, "cpu"⟩ = [⟨1, 0⟩]) ∧
      (∀ p, Records sv.registry p → Own sv.toShared p) ∧
      ∀ d handle, sv.handles.lookup d = some handle → handle.upstream.isSome = true →
        sv.alive d = true →
        ((∀ t ∈ sv.threads, t.launch = d.launch → .launch (.record d.index) ∉ t.todo) →
          ∃ p, Records sv.registry p ∧ p.downstream = d) ∧
        ((∀ t ∈ sv.threads, t.todo = []) → Recorded sv d) :=
  Machine.run_reaches_and
    (.post webCpu ["cpu"] :: steps 0 9 ++ .post (gateFile "edge") [] :: steps 1 11 ++
      .finish ⟨0, 0⟩ :: steps 2 4 ++
      .post webCpu ["cpu"] :: steps 3 5 ++ .step 3 { order := [.fresh ⟨1, 0⟩] } :: steps 3 3)
    (by decide) fun _ _ hrun _ => live_downstreams_recorded hrun

/-- Two ways to lose a live downstream. `web` ends between the subscription of
`gate` and its record, which goes to the row of a key that is not registered.
Or two POSTs have an entry `gate` that waits: the second takes the place of
the first in `pending` before the first has its fresh id. -/
theorem downstreams_lost :
    (∃ sv log, (server plainPipeline).Run (fun _ _ => True) {} sv log ∧
      (Waiting sv ⟨1, 0⟩ ∧ Lost sv ⟨1, 0⟩) ∧ ¬ Recorded sv ⟨1, 0⟩) ∧
    ∃ sv log, (server plainPipeline).Run (fun _ _ => True) {} sv log ∧
      (Waiting sv ⟨0, 0⟩ ∧ Lost sv ⟨0, 0⟩) ∧ ¬ Recorded sv ⟨0, 0⟩ :=
  ⟨Machine.run_reaches_and
      (.post webCpu ["cpu"] :: steps 0 9 ++ .post (gateFile "edge") [] :: steps 1 5 ++
        .finish ⟨0, 0⟩ :: steps 2 4 ++ steps 1 6)
      (by decide) fun _ _ _ hp => hp.2.not_recorded,
    Machine.run_reaches_and
      (.post (gateFile "edge") [] :: steps 0 7 ++ .post (gateFile "core") [] :: steps 1 7 ++
        .step 0 { order := [.given "gate"] } :: steps 0 3 ++
        .step 1 { order := [.fresh ⟨0, 0⟩] } :: steps 1 3)
      (by decide) fun _ _ _ hp => hp.2.not_recorded⟩

end Sonda.Proof.Server
