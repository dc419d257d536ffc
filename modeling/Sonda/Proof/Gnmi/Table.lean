import Mathlib.Data.List.Sigma
import Sonda.Framework.RefCounts
import Sonda.Impl.Gnmi.Target

/-!
# What a call does to the table

One lemma for each call of the target: what it leaves under every path and every
id. `SeriesTable.Sound` says that `ids` and `slots` are inverse to each other;
`sound_insert`, `sound_create` and `sound_erase` are its three steps.

The id that the search for one comes to is free (`freeId_not_mem`).
-/

namespace Sonda.Gnmi

open Framework List Option AList
open Sonda.Schedule (SondaError)

/-- `ids` and `slots` are inverse to each other. -/
structure SeriesTable.Sound (table : SeriesTable) : Prop where
  slot_of_id {path : Path} {id : SeriesId} : table.ids.lookup path = some id →
    ∃ slot, table.slots.lookup id = some slot ∧ slot.path = path
  id_of_slot {id : SeriesId} {slot : Slot} : table.slots.lookup id = some slot →
    table.ids.lookup slot.path = some id

theorem SeriesTable.sound_empty (nextId : SeriesId) : SeriesTable.Sound { nextId } :=
  ⟨nofun, nofun⟩

/-- The series a call gave an id to. -/
def createdIn (events : List TargetEvent) : List (SeriesId × Path) :=
  events.filterMap fun event =>
    match event with
    | .created id path => some (id, path)
    | .sent _ => none

theorem createdIn_append (events more : List TargetEvent) :
    createdIn (events ++ more) = createdIn events ++ createdIn more :=
  filterMap_append

@[simp] theorem createdIn_cons (id : SeriesId) (path : Path) (events : List TargetEvent) :
    createdIn (.created id path :: events) = (id, path) :: createdIn events := rfl

theorem createdIn_replace (id : SeriesId) (kind : ValueKind) (current latest : Latest) :
    createdIn (replace id kind current latest).2 = [] := by
  unfold replace
  dsimp only
  split <;> rfl

/-! ## The search for an id -/

theorem freeId_not_mem {slots : AList fun _ : SeriesId => Slot} :
    ∀ {fuel : Nat} {start id : SeriesId}, freeId slots fuel start = some id → id ∉ slots
  | 0, _, _, h => nomatch h
  | fuel + 1, start, id, h => by
    unfold freeId at h
    split at h
    · exact freeId_not_mem h
    · rename_i hfree
      rw [← some.inj h]
      exact hfree

/-! ## Storing -/

namespace SeriesTable

variable {table : SeriesTable} {id j : SeriesId} {path p : Path} {slot : Slot} {latest : Latest}
  {owner : Owner} {kind : ValueKind}
variable {out : SeriesTable × List TargetEvent}

@[simp] theorem stored_ids (table : SeriesTable) (id : SeriesId) (slot : Slot) (latest : Latest) :
    (table.stored id slot latest).1.ids = table.ids := rfl

theorem createdIn_stored (table : SeriesTable) (id : SeriesId) (slot : Slot) (latest : Latest) :
    createdIn (table.stored id slot latest).2 = [] :=
  createdIn_replace id slot.kind slot.latest latest

/-- The slot of `id` is replaced by one of the same path. -/
theorem sound_insert (h : table.Sound) (hs : table.slots.lookup id = some slot) {slot' : Slot}
    (hp : slot'.path = slot.path) : Sound { table with slots := table.slots.insert id slot' } where
  slot_of_id {p j} hj := by
    rcases eq_or_ne j id with rfl | hne
    · obtain ⟨old, hold, rfl⟩ := h.slot_of_id hj
      rw [hs] at hold
      rw [← some.inj hold]
      exact ⟨slot', lookup_insert _, hp⟩
    · rw [lookup_insert_ne hne]
      exact h.slot_of_id hj
  id_of_slot {j old} hj := by
    rcases lookup_insert_cases hj with ⟨rfl, rfl⟩ | ⟨-, hj⟩
    · rw [hp]
      exact h.id_of_slot hs
    · exact h.id_of_slot hj

/-- A series comes to a free path under a free id. -/
theorem sound_create (h : table.Sound) (hp : table.ids.lookup path = none)
    (hid : table.slots.lookup id = none) {next : SeriesId} (hpath : slot.path = path) :
    Sound ⟨table.ids.insert path id, table.slots.insert id slot, next⟩ where
  slot_of_id {p j} hj := by
    rcases lookup_insert_cases hj with ⟨rfl, rfl⟩ | ⟨-, hj⟩
    · exact ⟨slot, lookup_insert _, hpath⟩
    · obtain ⟨old, hold, heq⟩ := h.slot_of_id hj
      have hne' : j ≠ id := by
        rintro rfl
        rw [hid] at hold
        exact nomatch hold
      exact ⟨old, by rw [lookup_insert_ne hne', hold], heq⟩
  id_of_slot {j old} hj := by
    rcases lookup_insert_cases hj with ⟨rfl, rfl⟩ | ⟨-, hj⟩
    · rw [hpath, lookup_insert]
    · have hold := h.id_of_slot hj
      have hne' : old.path ≠ path := by
        intro heq
        rw [heq, hp] at hold
        exact nomatch hold
      rw [lookup_insert_ne hne', hold]

/-- The series of another path has another id. -/
theorem ne_of_path {j : SeriesId} {old : Slot} (hs : table.slots.lookup id = some slot)
    (hold : table.slots.lookup j = some old) (hne : old.path ≠ slot.path) : j ≠ id := by
  rintro rfl
  rw [hs] at hold
  exact hne (congrArg Slot.path (some.inj hold).symm)

/-- A series leaves. -/
theorem sound_erase (h : table.Sound) (hid : table.slots.lookup id = some slot) :
    Sound { table with ids := table.ids.erase slot.path, slots := table.slots.erase id } where
  slot_of_id {p j} hj := by
    obtain ⟨hne, hj⟩ := lookup_erase_some hj
    obtain ⟨old, hold, rfl⟩ := h.slot_of_id hj
    exact ⟨old, by rw [lookup_erase_ne (ne_of_path hid hold hne), hold], rfl⟩
  id_of_slot {j old} hj := by
    obtain ⟨hne, hj⟩ := lookup_erase_some hj
    have hold := h.id_of_slot hj
    have hne' : old.path ≠ slot.path := by
      intro heq
      rw [heq, h.id_of_slot hid] at hold
      exact hne (some.inj hold).symm
    rw [lookup_erase_ne hne', hold]

theorem Sound.slotAt (h : table.Sound) (hid : table.slots.lookup id = some slot) :
    table.slotAt slot.path = some (id, slot) := by
  simp [SeriesTable.slotAt, h.id_of_slot hid, hid]

theorem Sound.of_slotAt (h : table.Sound) (hp : table.slotAt path = some (id, slot)) :
    table.ids.lookup path = some id ∧ table.slots.lookup id = some slot ∧ slot.path = path := by
  obtain ⟨j, hj, hs⟩ := bind_eq_some_iff.mp hp
  obtain ⟨old, hold, heq⟩ := map_eq_some_iff.mp hs
  obtain ⟨rfl, rfl⟩ := Prod.mk.inj heq
  obtain ⟨new, hnew, hpath⟩ := h.slot_of_id hj
  rw [hold] at hnew
  cases hnew
  exact ⟨hj, hold, hpath⟩

/-! ## The calls -/

theorem storeCached_some (h : table.storeCached owner id path latest = some out) :
    ∃ slot, table.slots.lookup id = some slot ∧ slot.owner = owner ∧ slot.path = path ∧
      table.stored id slot latest = out := by
  obtain ⟨slot, hs, rfl⟩ := map_eq_some_iff.mp h
  obtain ⟨hs, hf⟩ := filter_eq_some_iff.mp hs
  obtain ⟨ho, hp⟩ := of_decide_eq_true hf
  exact ⟨slot, hs, ho, hp, rfl⟩

theorem storeCached_isSome (hs : table.slots.lookup id = some slot) (latest : Latest) :
    (table.storeCached slot.owner id slot.path latest).isSome := by
  simp [storeCached, hs]

theorem overwrite_some (h : table.Sound) (hw : table.overwrite path latest = some out) :
    ∃ id slot, table.slots.lookup id = some slot ∧ slot.path = path ∧
      table.stored id slot latest = out := by
  obtain ⟨⟨id, slot⟩, hs, rfl⟩ := map_eq_some_iff.mp hw
  obtain ⟨-, hs, hp⟩ := h.of_slotAt hs
  exact ⟨id, slot, hs, hp, rfl⟩

/-- What a first publish does: it counts one more publisher of the launch's series
at the path, or makes the series under a free id. -/
inductive Claims (table : SeriesTable) (owner : Owner) (path : Path) (latest : Latest)
    (kind : ValueKind) (id : SeriesId) : SeriesTable × List TargetEvent → Prop
  | joined {slot : Slot} (hs : table.slots.lookup id = some slot) (hp : slot.path = path)
      (ho : slot.owner = owner) : Claims table owner path latest kind id
        (table.stored id { slot with publishers := slot.publishers + 1 } latest)
  | created {out : SeriesTable × List TargetEvent} (hp : table.ids.lookup path = none)
      (hid : table.slots.lookup id = none) (hnext : table.nextId ∉ table.slots → id = table.nextId)
      (hout : stored { table with nextId := id + 1, ids := table.ids.insert path id } id
        { path, latest := {}, kind, owner, publishers := 1 } latest = out) :
      Claims table owner path latest kind id (out.1, .created id path :: out.2)

theorem storeFirst_claims (h : table.Sound) {localAddr : String}
    (hs : table.storeFirst localAddr owner path latest kind = some (.ok (id, out))) :
    Claims table owner path latest kind id out := by
  unfold storeFirst at hs
  split at hs
  · rename_i j hj
    obtain ⟨slot, hslot, hpath⟩ := h.slot_of_id hj
    split at hs
    · exact nomatch hs
    · rename_i howner
      obtain ⟨rfl, rfl⟩ := Prod.mk.inj (Except.ok.inj (some.inj hs))
      have howner : slot.owner = owner := by simpa [hslot] using howner
      have hc : table.claim owner j path latest kind =
          table.stored j { slot with publishers := slot.publishers + 1 } latest := by
        simp only [claim, hslot, getD_some]
      rw [hc]
      exact .joined hslot hpath howner
  · rename_i hj
    obtain ⟨j, hfree, heq⟩ := map_eq_some_iff.mp hs
    have hid : table.slots.lookup j = none := lookup_eq_none.mpr (freeId_not_mem hfree)
    have hc : claim { table with nextId := j + 1, ids := table.ids.insert path j } owner j path latest
        kind = stored { table with nextId := j + 1, ids := table.ids.insert path j } j
          { path, latest := {}, kind, owner, publishers := 1 } latest := by
      simp only [claim, hid, getD_none, Nat.zero_add]
    dsimp only at heq
    rw [hc] at heq
    cases heq
    refine .created hj hid (fun hn => ?_) rfl
    rw [freeId, if_neg hn] at hfree
    exact (some.inj hfree).symm

/-- A release of a series of the launch: the last publisher takes it along. -/
theorem releaseOne_eq (hs : table.slots.lookup id = some slot) : table.releaseOne slot.owner id =
      if slot.publishers - 1 = 0 then
        ({ table with ids := table.ids.erase slot.path, slots := table.slots.erase id },
          [.sent (.removed id slot.path)])
      else
        ({ table with slots := table.slots.insert id { slot with publishers := slot.publishers - 1 } },
          []) := by
  have hf : (table.slots.lookup id).filter (fun s => decide (s.owner = slot.owner)) = some slot := by
    rw [hs, filter_some, if_pos (decide_eq_true rfl)]
  rw [releaseOne, hf]

/-- What a release changes: one series has a publisher less, or leaves. -/
inductive Releases (table : SeriesTable) (owner : Owner) (id : SeriesId) :
    SeriesTable × List TargetEvent → Prop
  | ignored : Releases table owner id (table, [])
  | fewer {slot : Slot} (hs : table.slots.lookup id = some slot) (ho : slot.owner = owner)
      (hn : slot.publishers - 1 ≠ 0) : Releases table owner id
        ({ table with slots := table.slots.insert id { slot with publishers := slot.publishers - 1 } }, [])
  | left {slot : Slot} (hs : table.slots.lookup id = some slot) (ho : slot.owner = owner)
      (hn : slot.publishers - 1 = 0) : Releases table owner id
        ({ table with ids := table.ids.erase slot.path, slots := table.slots.erase id },
          [.sent (.removed id slot.path)])

theorem releaseOne_releases (table : SeriesTable) (owner : Owner) (id : SeriesId) :
    Releases table owner id (table.releaseOne owner id) := by
  unfold releaseOne
  split
  · exact .ignored
  · rename_i slot hf
    obtain ⟨hs, ho⟩ := filter_eq_some_iff.mp hf
    have ho := of_decide_eq_true ho
    dsimp only
    split
    · exact .left hs ho ‹_›
    · exact .fewer hs ho ‹_›

theorem Releases.sound (hr : Releases table owner id out) (h : table.Sound) : out.1.Sound := by
  cases hr with
  | ignored => exact h
  | fewer hs ho hn => exact sound_insert h hs rfl
  | left hs ho hn => exact sound_erase h hs

theorem Claims.sound (hc : Claims table owner path latest kind id out) (h : table.Sound) :
    out.1.Sound := by
  cases hc with
  | joined hs hp ho => exact sound_insert h hs rfl
  | created hp hid hnext hout =>
    rw [← hout]
    exact sound_create h hp hid rfl

theorem stored_sound (h : table.Sound) (hs : table.slots.lookup id = some slot) :
    (table.stored id slot latest).1.Sound :=
  sound_insert h hs rfl

/-! ## The ids given -/

/-- The series of the table are ones that were made, and the ids of those, `created`, are
0, 1, 2, … in order, as long as there are enough ids for that. -/
structure Given (table : SeriesTable) (created : List (SeriesId × Path)) : Prop where
  named {id : SeriesId} {slot : Slot} : table.slots.lookup id = some slot → (id, slot.path) ∈ created
  numbered : created.length ≤ UInt32.size → table.nextId.toNat = created.length % UInt32.size ∧
    created.map (fun c => c.1.toNat) = List.range created.length

theorem given_empty : Given {} [] := ⟨nofun, fun _ => ⟨rfl, rfl⟩⟩

section

variable {created : List (SeriesId × Path)} (h : Given table created)

include h

/-- While there are ids left the next series gets the next one. -/
theorem Given.next (hlen : created.length < UInt32.size)
    (hfree : table.nextId ∉ table.slots → id = table.nextId) : id.toNat = created.length := by
  obtain ⟨hnext, hids⟩ := h.numbered hlen.le
  rw [Nat.mod_eq_of_lt hlen] at hnext
  have hnot : table.nextId ∉ table.slots := fun hmem => by
    obtain ⟨slot, hs⟩ := isSome_iff_exists.mp (lookup_isSome.mpr hmem)
    have hlt : table.nextId.toNat ∈ created.map fun c => c.1.toNat := mem_map_of_mem (h.named hs)
    rw [hids, mem_range, hnext] at hlt
    exact absurd hlt (Nat.lt_irrefl _)
  rw [hfree hnot, hnext]

/-- No id is given twice. -/
theorem Given.path_eq (hlen : created.length ≤ UInt32.size)
    {p q : Path} (hp : (id, p) ∈ created) (hq : (id, q) ∈ created) : p = q := by
  have hnodup : (created.map fun c => c.1.toNat).Nodup := (h.numbered hlen).2 ▸ nodup_range
  exact congrArg Prod.snd (inj_on_of_nodup_map hnodup hp hq rfl)

theorem Given.insert (hs : table.slots.lookup id = some slot) {slot' : Slot}
    (hp : slot'.path = slot.path) : Given { table with slots := table.slots.insert id slot' } created := by
  refine ⟨fun {j old} hj => ?_, h.numbered⟩
  rcases lookup_insert_cases hj with ⟨rfl, rfl⟩ | ⟨-, hj⟩
  · rw [hp]
    exact h.named hs
  · exact h.named hj

theorem Given.claims (hc : Claims table owner path latest kind id out) :
    Given out.1 (created ++ createdIn out.2) := by
  cases hc with
  | joined hs hp ho =>
    rw [createdIn_stored, append_nil]
    exact h.insert hs rfl
  | created hp hid hnext hout =>
    rw [createdIn_cons, ← hout, createdIn_stored]
    refine ⟨fun {j old} hj => ?_, fun hlen => ?_⟩
    · rcases lookup_insert_cases (show AList.lookup j (AList.insert _ _ _) = _ from hj) with
        ⟨rfl, rfl⟩ | ⟨-, hj⟩
      · exact mem_append_right _ (mem_singleton_self _)
      · exact mem_append_left _ (h.named hj)
    · rw [length_append, length_singleton] at hlen ⊢
      have hid := h.next hlen hnext
      constructor
      · show (id + 1).toNat = _
        rw [UInt32.toNat_add, hid]
        rfl
      · rw [map_append, (h.numbered (by omega)).2, range_succ, map_singleton, hid]

theorem Given.releases (hr : Releases table owner id out) :
    Given out.1 (created ++ createdIn out.2) := by
  cases hr with
  | ignored => exact (append_nil created).symm ▸ h
  | fewer hs ho hn =>
    rw [show createdIn [] = [] from rfl, append_nil]
    exact h.insert hs rfl
  | left hs ho hn =>
    rw [show createdIn [.sent _] = [] from rfl, append_nil]
    exact ⟨fun hj => h.named (lookup_erase_some hj).2, h.numbered⟩

end

end SeriesTable

end Sonda.Gnmi
