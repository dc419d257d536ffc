import Sonda.Impl.Gnmi.Sink
import Sonda.Proof.Gnmi.Table

/-!
# The publishers of a path

The target keeps a number of publishers with each series; the sinks keep the paths
they have published with the ids they were given. `table_published`: in every state
that any interleaving of the calls on any number of sinks reaches, the two agree.

`Effect` says once what a step of a sink does to the table and to the sink, whatever
the call and wherever it fails. A cached id is the id of its path's series
(`Published.cached`), so a publish through it finds the series, and no sink ever
comes to the write lock a second time for a path it has (`SinkThread.Sound.settled`).
-/

namespace Sonda.Gnmi

open Framework List Option AList
open Sonda.Schedule (SondaError)

/-! ## The table as a table of counts -/

namespace SeriesTable

variable {table : SeriesTable} {id : SeriesId} {path : Path} {slot : Slot} {owner : Owner}
variable {out : SeriesTable × List TargetEvent} {latest : Latest} {table' : SeriesTable}
  {kind : ValueKind}

/-- The owner and the number of publishers of the series at a path. -/
def counts (table : SeriesTable) (path : Path) : Option (Owner × Nat) :=
  (table.slotAt path).map fun p => (p.2.owner, p.2.publishers)

section

variable (h : table.Sound)

include h

theorem Sound.counts_eq (hs : table.slots.lookup id = some slot) :
    table.counts slot.path = some (slot.owner, slot.publishers) := by
  rw [counts, h.slotAt hs]
  rfl

theorem Sound.of_counts {p : Owner × Nat} (hp : table.counts path = some p) :
    ∃ id slot, table.ids.lookup path = some id ∧ table.slots.lookup id = some slot ∧
      slot.path = path ∧ (slot.owner, slot.publishers) = p := by
  obtain ⟨⟨id, slot⟩, hat, rfl⟩ := map_eq_some_iff.mp hp
  obtain ⟨hid, hs, hpath⟩ := h.of_slotAt hat
  exact ⟨id, slot, hid, hs, hpath, rfl⟩

/-- A table that differs at one path only. -/
theorem counts_update {c : Option (Owner × Nat)} (hpath : table'.counts path = c)
    (hids : ∀ q, q ≠ path → table'.ids.lookup q = table.ids.lookup q)
    (hslots : ∀ q j old, q ≠ path → table.slots.lookup j = some old → old.path = q →
      table'.slots.lookup j = table.slots.lookup j) :
    table'.counts = Function.update table.counts path c := by
  funext q
  rcases eq_or_ne q path with rfl | hne
  · rw [hpath, Function.update_self]
  · rw [Function.update_of_ne hne]
    unfold counts slotAt
    rw [hids q hne]
    cases hq : table.ids.lookup q with
    | none => rfl
    | some j =>
      obtain ⟨old, hold, hp⟩ := h.slot_of_id hq
      simp only [bind_some, hslots q j old hne hold hp]

theorem counts_insert (hs : table.slots.lookup id = some slot) (slot' : Slot) :
    counts { table with slots := table.slots.insert id slot' } =
      Function.update table.counts slot.path (some (slot'.owner, slot'.publishers)) := by
  refine counts_update h ?_ (fun _ _ => rfl) fun q j old hne hold hp => ?_
  · simp [counts, slotAt, h.id_of_slot hs]
  · exact lookup_insert_ne (ne_of_path hs hold (hp ▸ hne))

theorem counts_create (hid : table.slots.lookup id = none) (path : Path)
    (slot : Slot) (next : SeriesId) :
    counts ⟨table.ids.insert path id, table.slots.insert id slot, next⟩ =
      Function.update table.counts path (some (slot.owner, slot.publishers)) := by
  refine counts_update h ?_ (fun q hne => lookup_insert_ne hne) fun q j old _ hold _ => ?_
  · simp [counts, slotAt]
  · refine lookup_insert_ne ?_
    rintro rfl
    rw [hid] at hold
    cases hold

theorem counts_erase (hs : table.slots.lookup id = some slot) :
    counts { table with ids := table.ids.erase slot.path, slots := table.slots.erase id } =
      Function.update table.counts slot.path none := by
  refine counts_update h ?_ (fun q hne => lookup_erase_ne hne) fun q j old hne hold hp => ?_
  · simp [counts, slotAt]
  · exact lookup_erase_ne (ne_of_path hs hold (hp ▸ hne))

/-- A store changes no owner and no number. -/
theorem stored_counts (hs : table.slots.lookup id = some slot) (latest : Latest) :
    (table.stored id slot latest).1.counts = table.counts := by
  have hc := counts_insert h hs { slot with latest := (replace id slot.kind slot.latest latest).1 }
  rw [Function.update_eq_self_iff.mpr (h.counts_eq hs).symm] at hc
  exact hc

end

/-- A first publish counts one more publisher of the launch. -/
theorem Claims.counts (hc : Claims table owner path latest kind id out) (h : table.Sound) :
    (∀ p ∈ table.counts path, p.1 = owner) ∧ out.1.counts = Function.update table.counts path
        (some (owner, (table.counts path).elim 0 Prod.snd + 1)) ∧
      out.1.ids.lookup path = some id := by
  cases hc with
  | @joined slot hs hp ho =>
    subst hp ho
    have hcount := h.counts_eq hs
    refine ⟨fun p hp => ?_, ?_, h.id_of_slot hs⟩
    · rw [hcount] at hp
      rw [← some.inj hp]
    · rw [hcount]
      exact counts_insert h hs _
  | created hp hid hnext hout =>
    rw [show table.counts path = none by simp [counts, slotAt, hp], ← hout]
    exact ⟨by simp, counts_create h hid path _ _, lookup_insert _⟩

/-- A release by the owner takes one publisher away, and with the last the series. -/
theorem releaseOne_counts (h : table.Sound) {n : Nat} (hid : table.ids.lookup path = some id)
    (hc : table.counts path = some (owner, n)) :
    (table.releaseOne owner id).1.counts =
      Function.update table.counts path (if n - 1 = 0 then none else some (owner, n - 1)) := by
  obtain ⟨j, slot, hj, hs, rfl, heq⟩ := h.of_counts hc
  rw [hid] at hj
  cases hj
  obtain ⟨rfl, rfl⟩ := Prod.mk.inj heq
  rw [releaseOne_eq hs]
  split
  · exact counts_erase h hs
  · exact counts_insert h hs _

/-! ## Ids of a path -/

/-- A path that is in both tables has one id. -/
def SameIds (table table' : SeriesTable) : Prop :=
  ∀ {path i j}, table.ids.lookup path = some i → table'.ids.lookup path = some j → j = i

theorem SameIds.of_left (h : ∀ {q j}, table'.ids.lookup q = some j → table.ids.lookup q = some j) :
    SameIds table table' := fun hi hj => some.inj ((h hj).symm.trans hi)

theorem Claims.sameIds (hc : Claims table owner path latest kind id out) : SameIds table out.1 := by
  cases hc with
  | joined hs hp ho => exact SameIds.of_left fun hq => hq
  | created hp hid hnext hout =>
    intro q i j hi hj
    have hne : q ≠ path := by
      rintro rfl
      rw [hp] at hi
      exact nomatch hi
    rw [← hout, stored_ids] at hj
    rw [lookup_insert_ne hne, hi] at hj
    exact (some.inj hj).symm

/-- The paths of a table only leave. -/
theorem Releases.ids (hr : Releases table owner id out) {q : Path} {j : SeriesId}
    (hq : out.1.ids.lookup q = some j) : table.ids.lookup q = some j := by
  cases hr with
  | ignored => exact hq
  | fewer hs ho hn => exact hq
  | left hs ho hn => exact (lookup_erase_some hq).2

end SeriesTable

/-! ## What a sink lists -/

/-- What a sink has published and not released, a publish it has yet to enter
included. -/
def SinkThread.listed (t : SinkThread) : List Publication :=
  match t.pc with
  | .dropped => []
  | .recording _ id path => t.sink.published ++ [⟨id, path⟩]
  | _ => t.sink.published

/-- The paths a sink lists. -/
def SinkThread.paths (t : SinkThread) : List Path := t.listed.map Publication.path

/-- `published[entry]` is of the path. -/
def HasPath (published : List Publication) (entry : Nat) (path : Path) : Prop :=
  published[entry]?.map Publication.path = some path

/-- What a sink keeps is true of what it has published. -/
structure GnmiTargetSink.Sound (sink : GnmiTargetSink) : Prop where
  owned : ∀ {key entry}, sink.owned.lookup key = some entry → entry < sink.published.length
  paths : ∀ {path entry}, sink.paths.lookup path = some entry ↔ HasPath sink.published entry path
  joined : sink.joined = true → sink.published = []

structure SinkThread.Sound (t : SinkThread) : Prop extends t.sink.Sound where
  recording : ∀ {key id path}, t.pc = .recording key id path →
    t.sink.paths.lookup path = none ∧ t.sink.joined = false
  settled : ∀ {entry latest kind}, t.pc ≠ .relocking entry latest kind

/-- What a step does to the table and to what the sink lists. -/
inductive Effect (table : SeriesTable) (t : SinkThread) (s : SinkStep) : Prop
  | keep (ht : s.table = table) (he : s.events = []) (hl : s.thread.listed = t.listed)
  | stored {id : SeriesId} {slot : Slot} {latest : Latest} (hs : table.slots.lookup id = some slot)
      (ht : table.stored id slot latest = (s.table, s.events)) (hl : s.thread.listed = t.listed)
  | first {id : SeriesId} {path : Path} {latest : Latest} {kind : ValueKind}
      (hc : table.Claims t.sink.owner path latest kind id (s.table, s.events))
      (hl : s.thread.listed = t.listed ++ [⟨id, path⟩])
  | released (ht : table.release t.sink.owner (t.listed.map Publication.id) = (s.table, s.events))
      (hl : s.thread.listed = [])

structure Moves (table : SeriesTable) (t : SinkThread) (s : SinkStep) : Prop where
  owner : s.thread.sink.owner = t.sink.owner
  sound : s.thread.Sound
  effect : Effect table t s

/-- The table has the publication's path under its id, as a series of `owner`. -/
def Holds (table : SeriesTable) (owner : Owner) (p : Publication) : Prop :=
  ∃ slot, table.slots.lookup p.id = some slot ∧ slot.path = p.path ∧ slot.owner = owner

section steps

variable {localAddr : String} {table : SeriesTable} {t : SinkThread} {s : SinkStep}
  {sink : GnmiTargetSink}
variable {encoded : Encoded} {key : MetricKey} {published : List Publication} {entry : Nat}
  {path : Path} {id : SeriesId}

/-- `sink` has what the sink of `t`, which is in no call, has published. -/
structure Keeps (t : SinkThread) (sink : GnmiTargetSink) : Prop extends sink.Sound where
  live : t.listed = t.sink.published
  owner : sink.owner = t.sink.owner
  published : sink.published = t.sink.published

section

variable (h : Keeps t sink)

include h

theorem Keeps.listed : sink.published = t.listed := h.published.trans h.live.symm

theorem Keeps.idle (b : Bool) : SinkThread.Sound ⟨{ sink with lastDelivered := b }, .idle⟩ :=
  ⟨⟨h.owned, h.paths, h.joined⟩, nofun, nofun⟩

theorem Keeps.fail (e : SondaError) : Moves table t (fail table sink e) :=
  ⟨h.owner, h.idle _, .keep rfl rfl h.listed⟩

theorem Keeps.stored {slot : Slot} {latest : Latest}
    {out : SeriesTable × List TargetEvent} (hs : table.slots.lookup id = some slot)
    (ht : table.stored id slot latest = out) : Moves table t (delivered out.1 sink out.2) :=
  ⟨h.owner, h.idle _, .stored hs ht h.listed⟩

theorem Keeps.writeJoined (ht : table.Sound) (encoded : Encoded) :
    Moves table t (writeJoined localAddr table sink encoded) := by
  unfold Gnmi.writeJoined
  split
  · exact h.fail _
  split
  · exact h.fail _
  split
  · exact h.fail _
  · rename_i hw
    obtain ⟨id, slot, hs, -, hstored⟩ := SeriesTable.overwrite_some ht hw
    exact h.stored hs hstored

/-- A publish through a cached id finds its series. -/
theorem Keeps.republish (hold : ∀ p ∈ t.listed, Holds table t.sink.owner p)
    (hs : republish table sink entry encoded = some s) : Moves table t s := by
  obtain ⟨publication, hp, rfl⟩ := map_eq_some_iff.mp hs
  split
  · exact h.fail _
  rename_i latest kind _
  have hmem : publication ∈ t.listed := h.listed ▸ mem_of_getElem? hp
  obtain ⟨slot, hslot, hpath, howner⟩ := hold publication hmem
  have hfound := SeriesTable.storeCached_isSome hslot latest
  rw [hpath, howner, ← h.owner] at hfound
  split
  · rename_i hc
    obtain ⟨slot', hslot', -, -, hstored⟩ := SeriesTable.storeCached_some hc
    exact h.stored hslot' hstored
  · rename_i hc
    rw [hc] at hfound
    exact nomatch hfound

theorem Keeps.publishFirst (ht : table.Sound) (hj : sink.joined = false)
    (hnew : sink.paths.lookup path = none)
    (hs : publishFirst localAddr table sink key path encoded = some s) : Moves table t s := by
  unfold Gnmi.publishFirst at hs
  split at hs
  · rw [← some.inj hs]
    exact h.fail _
  obtain ⟨stored, hstored, rfl⟩ := map_eq_some_iff.mp hs
  split
  · exact h.fail _
  · rw [h.owner] at hstored
    refine ⟨h.owner, ⟨h.toSound, fun e => ?_, nofun⟩,
      .first (SeriesTable.storeFirst_claims ht hstored) ?_⟩
    · injection e with hkey hid hpath
      exact ⟨hpath ▸ hnew, hj⟩
    · rw [← h.listed]
      rfl

end

/-- The part of a write up to its first use of the table. -/
theorem writeMetricEvent_moves (ht : t.Sound) (hpc : t.pc = .idle) (htable : table.Sound)
    (hold : ∀ p ∈ t.listed, Holds table t.sink.owner p) {serving : Bool} {exitError : Option String}
    (hs : writeMetricEvent localAddr table t.sink serving exitError key encoded = some s) :
    Moves table t s := by
  have hlive : t.listed = t.sink.published := by rw [SinkThread.listed, hpc]
  have h : Keeps t { t.sink with lastDelivered := false } :=
    ⟨⟨ht.owned, ht.paths, ht.joined⟩, hlive, rfl, rfl⟩
  unfold writeMetricEvent at hs
  dsimp only at hs
  split at hs
  · rw [← some.inj hs]
    exact h.fail _
  split at hs
  · rw [← some.inj hs]
    exact h.writeJoined htable encoded
  rename_i hj
  split at hs
  · exact h.republish hold hs
  split at hs
  · rw [← some.inj hs]
    exact h.fail _
  split at hs
  · rename_i entry hentry
    have hlt : entry < t.sink.published.length := by
      obtain ⟨_, hp, -⟩ := map_eq_some_iff.mp (ht.paths.mp hentry)
      exact (List.getElem?_eq_some_iff.mp hp).1
    have h' : Keeps t
        { t.sink with lastDelivered := false, owned := t.sink.owned.insert key entry } := by
      refine ⟨⟨fun {k e} hl => ?_, ht.paths, ht.joined⟩, hlive, rfl, rfl⟩
      rcases lookup_insert_cases hl with ⟨-, rfl⟩ | ⟨-, hl⟩
      · exact hlt
      · exact ht.owned hl
    exact h'.republish hold hs
  · exact h.publishFirst htable (Bool.not_eq_true _ ▸ hj) ‹_› hs

theorem hasPath_push (p : Publication) (hnew : ∀ e, ¬ HasPath published e p.path) :
    HasPath (published ++ [p]) entry path ↔
      path = p.path ∧ entry = published.length ∨ path ≠ p.path ∧ HasPath published entry path := by
  unfold HasPath
  rcases Nat.lt_trichotomy entry published.length with hlt | rfl | hgt
  · rw [getElem?_append_left hlt]
    constructor
    · intro hp
      refine .inr ⟨?_, hp⟩
      rintro rfl
      exact hnew entry hp
    · rintro (⟨-, rfl⟩ | ⟨-, hp⟩)
      · exact absurd hlt (Nat.lt_irrefl _)
      · exact hp
  · simp [eq_comm]
  · have hnone : (published ++ [p])[entry]? = none := by
      rw [getElem?_eq_none_iff, length_append, length_singleton]
      omega
    have hnone' : published[entry]? = none := getElem?_eq_none_iff.mpr hgt.le
    rw [hnone, hnone']
    simp only [map_none, reduceCtorEq, and_false, or_false, false_iff, not_and]
    omega

/-- The path is entered under the key the table has, which is the path itself. -/
theorem record_moves (ht : t.Sound) (hpc : t.pc = .recording key id path)
    (hold : ∀ p ∈ t.listed, Holds table t.sink.owner p) :
    Moves table t (record table t.sink key id path) := by
  have hlist : t.listed = t.sink.published ++ [⟨id, path⟩] := by rw [SinkThread.listed, hpc]
  obtain ⟨slot, hslot, hpath, -⟩ := hold ⟨id, path⟩ (by rw [hlist]; simp)
  have hof : (table.pathOf id).getD path = path := by
    rw [SeriesTable.pathOf, hslot, map_some, hpath, getD_some]
  obtain ⟨hnew, hj⟩ := ht.recording hpc
  have hfresh : ∀ e, ¬ HasPath t.sink.published e path := by
    intro e he
    rw [ht.paths.mpr he] at hnew
    exact nomatch hnew
  unfold record delivered
  rw [hof]
  refine ⟨rfl, ⟨⟨fun {k e} hl => ?_, fun {q e} => ?_, fun hl => ?_⟩, nofun, nofun⟩,
    .keep rfl rfl hlist.symm⟩
  · rw [length_append, length_singleton]
    rcases lookup_insert_cases hl with ⟨-, rfl⟩ | ⟨-, hl⟩
    · exact Nat.lt_succ_self _
    · exact Nat.lt_succ_of_lt (ht.owned hl)
  · rw [hasPath_push ⟨id, path⟩ hfresh]
    rcases eq_or_ne q path with rfl | hne
    · simp [eq_comm]
    · rw [lookup_insert_ne hne, ht.paths]
      simp [hne]
  · exact absurd (hj.symm.trans hl) Bool.false_ne_true

/-- The next part of a call. -/
theorem go_moves (ht : t.Sound) (hold : ∀ p ∈ t.listed, Holds table t.sink.owner p)
    (hs : t.go localAddr table = some s) : Moves table t s := by
  unfold SinkThread.go at hs
  split at hs
  · exact nomatch hs
  · exact nomatch hs
  · exact absurd ‹_› ht.settled
  · rw [← some.inj hs]
    exact record_moves ht ‹_› hold

theorem drop_moves (ht : t.Sound) (hpc : t.pc = .idle) : Moves table t (t.drop table) where
  owner := rfl
  sound := ⟨ht.toSound, nofun, nofun⟩
  effect := by
    have hlive : t.listed = t.sink.published := by rw [SinkThread.listed, hpc]
    exact .released (by rw [hlive]; rfl) rfl

theorem SinkThread.Sound.new (owner : Owner) (joined : Bool) :
    SinkThread.Sound ⟨{ owner, joined }, .idle⟩ where
  owned := nofun
  paths := ⟨nofun, nofun⟩
  joined _ := rfl
  recording := nofun
  settled := nofun

theorem nodup_published {paths : AList fun _ : Path => Nat}
    (h : ∀ {path entry}, paths.lookup path = some entry ↔ HasPath published entry path) :
    (published.map Publication.path).Nodup := by
  rw [nodup_iff_getElem?_ne_getElem?]
  intro i j hij hlt heq
  have hj : HasPath published j (published.map Publication.path)[j] := by
    rw [HasPath, ← getElem?_map]
    exact getElem?_eq_getElem hlt
  have hi : HasPath published i (published.map Publication.path)[j] := by
    rw [HasPath, ← getElem?_map, heq]
    exact getElem?_eq_getElem hlt
  have hsame := (h.mpr hi).symm.trans (h.mpr hj)
  exact absurd (some.inj hsame) (Nat.ne_of_lt hij)

/-- A sink lists a path once. -/
theorem SinkThread.Sound.nodup (ht : t.Sound) : t.paths.Nodup := by
  have hn := nodup_published ht.paths
  unfold SinkThread.paths SinkThread.listed
  split
  · exact nodup_nil
  · rename_i hpc
    rw [map_append, map_singleton]
    refine nodup_append.mpr ⟨hn, nodup_singleton _, fun a ha b hb heq => ?_⟩
    rw [heq, mem_singleton.mp hb] at ha
    obtain ⟨e, he⟩ := mem_iff_getElem?.mp ha
    rw [getElem?_map] at he
    have hnew := (ht.recording hpc).1
    rw [ht.paths.mpr he] at hnew
    exact nomatch hnew
  · exact hn

end steps

/-! ## Releases -/

section release

variable {table : SeriesTable} {owner : Owner}

theorem release_given (owner : Owner) (ids : List SeriesId) :
    ∀ {table : SeriesTable} {created : List (SeriesId × Path)}, table.Given created →
      (table.release owner ids).1.Given (created ++ createdIn (table.release owner ids).2) := by
  induction ids with
  | nil => exact fun {_ created} h => (append_nil created).symm ▸ h
  | cons id ids ih =>
    intro table created h
    have hrest := ih (h.releases (SeriesTable.releaseOne_releases table owner id))
    rw [append_assoc, ← createdIn_append] at hrest
    exact hrest

/-- The claims of a launch on the paths of its publications. -/
def claimsOf (owner : Owner) (ps : List Publication) : Multiset (Owner × Path) :=
  ((ps.map Publication.path : List Path) : Multiset Path).map fun path => (owner, path)

@[simp] theorem claimsOf_cons (owner : Owner) (p : Publication) (ps : List Publication) :
    claimsOf owner (p :: ps) = (owner, p.path) ::ₘ claimsOf owner ps := rfl

theorem claimsOf_append (owner : Owner) (ps qs : List Publication) :
    claimsOf owner (ps ++ qs) = claimsOf owner ps + claimsOf owner qs := by
  simp only [claimsOf, map_append, ← Multiset.coe_add, Multiset.map_add]

/-- A path that is claimed is in the table, under the id it had. -/
theorem ids_of_claimed {table' : SeriesTable} {claims : Multiset (Owner × Path)} (h' : table'.Sound)
    (hc : Counts table'.counts claims) (hsame : table.SameIds table') {path : Path} {id : SeriesId}
    (hm : (owner, path) ∈ claims) (hid : table.ids.lookup path = some id) :
    table'.ids.lookup path = some id := by
  obtain ⟨j, _, hj, -⟩ := h'.of_counts (hc.of_mem hm)
  rw [hj, hsame hid hj]

theorem release_counts (ps : List Publication) :
    ∀ {table : SeriesTable} {claims : Multiset (Owner × Path)}, table.Sound →
      (∀ p ∈ ps, table.ids.lookup p.path = some p.id) →
      Counts table.counts (claimsOf owner ps + claims) →
      (table.release owner (ps.map Publication.id)).1.Sound ∧
        Counts (table.release owner (ps.map Publication.id)).1.counts claims ∧
        ∀ {q j}, (table.release owner (ps.map Publication.id)).1.ids.lookup q = some j →
          table.ids.lookup q = some j := by
  induction ps with
  | nil => exact fun {_ claims} h _ hc => ⟨h, (zero_add claims) ▸ hc, id⟩
  | cons p ps ih =>
    intro table claims h hcached hc
    rw [claimsOf_cons, Multiset.cons_add] at hc
    have hcount := hc.of_mem (Multiset.mem_cons_self _ _)
    have hreleases := SeriesTable.releaseOne_releases table owner p.id
    have hone := hreleases.sound h
    have hrest := hc.release hcount
    rw [← SeriesTable.releaseOne_counts h (hcached p mem_cons_self) hcount] at hrest
    have hsame : table.SameIds (table.releaseOne owner p.id).1 :=
      SeriesTable.SameIds.of_left hreleases.ids
    have hcached' : ∀ p' ∈ ps, (table.releaseOne owner p.id).1.ids.lookup p'.path = some p'.id :=
      fun p' hp' => ids_of_claimed hone hrest hsame
        (Multiset.mem_add.mpr (.inl (Multiset.mem_map_of_mem _ (mem_map_of_mem hp'))))
        (hcached p' (mem_cons_of_mem _ hp'))
    obtain ⟨hsound, hcounts, hids⟩ := ih hone hcached' hrest
    exact ⟨hsound, hcounts, fun hq => hreleases.ids (hids hq)⟩

end release

/-! ## All sinks -/

/-- The claims of all sinks. -/
def SinkWorld.claims (w : SinkWorld) : Multiset (Owner × Path) :=
  (w.threads.map fun t => claimsOf t.sink.owner t.listed).sum

/-- The series a run gave ids to, in order. -/
def createdOf (log : List SinkEvent) : List (SeriesId × Path) :=
  createdIn (log.filterMap fun e =>
    match e with
    | .target event => some event
    | .returned _ _ => none)

/-- The table and the sinks agree. -/
structure Published (w : SinkWorld) : Prop where
  table : w.table.Sound
  sound : ∀ t ∈ w.threads, t.Sound
  counts : Counts w.table.counts w.claims
  cached : ∀ t ∈ w.threads, ∀ p ∈ t.listed, w.table.ids.lookup p.path = some p.id

section world

variable {localAddr : String} {w w' : SinkWorld} {t : SinkThread} {s : SinkStep} {i : Nat}
  {path : Path} {log : List SinkEvent}
variable {es : List SinkEvent} {p : Publication} {id : SeriesId}

theorem mem_worldClaims {o : Owner} :
    (o, path) ∈ w.claims ↔ ∃ t ∈ w.threads, o = t.sink.owner ∧ path ∈ t.paths :=
  mem_allClaims (fun t : SinkThread => t.sink.owner) SinkThread.paths

theorem mem_paths (hp : p ∈ t.listed) : p.path ∈ t.paths := mem_map_of_mem hp

/-- How many sinks list a path. -/
theorem countP_worldClaims (hsound : ∀ t ∈ w.threads, t.Sound) :
    w.claims.countP (fun c => c.2 = path) = w.threads.countP fun t => path ∈ t.paths := by
  refine (countP_allClaims (fun t : SinkThread => t.sink.owner) SinkThread.paths).trans ?_
  revert hsound
  induction w.threads with
  | nil => exact fun _ => rfl
  | cons t ts ih =>
    intro hsound
    obtain ⟨ht, hts⟩ := forall_mem_cons.mp hsound
    rw [map_cons, sum_cons, ih hts, countP_cons, ht.nodup.count, Nat.add_comm]
    simp only [decide_eq_true_eq]

/-- What a sink lists is in the table, as a series of the sink's launch. -/
theorem Published.holds (h : Published w) (ht : t ∈ w.threads) :
    ∀ p ∈ t.listed, Holds w.table t.sink.owner p := by
  intro p hp
  obtain ⟨slot, hs, hpath⟩ := h.table.slot_of_id (h.cached t ht p hp)
  have hcount := h.table.counts_eq hs
  rw [hpath] at hcount
  exact ⟨slot, hs, hpath, (h.counts.owner hcount (mem_worldClaims.mpr ⟨t, ht, rfl, mem_paths hp⟩)).symm⟩

/-- What a step of the machine does: a sink comes, or the sink `i` moves. -/
inductive WorldStep (w : SinkWorld) : SinkWorld → List SinkEvent → Prop
  | new (owner : Owner) (joined : Bool) :
      WorldStep w { w with threads := w.threads ++ [⟨{ owner, joined }, .idle⟩] } []
  | moves {i : Nat} {t : SinkThread} {s : SinkStep} (hi : w.threads[i]? = some t)
      (hm : Moves w.table t s) : WorldStep w (w.after i s).1 (w.after i s).2

theorem worldStep {c : SinkCall} (h : Published w) (hs : (sinks localAddr).step w c = some (w', es)) :
    WorldStep w w' es := by
  have step {i : Nat} {t : SinkThread} {s : SinkStep} (hi : w.threads[i]? = some t)
      (hm : Moves w.table t s) (heq : w.after i s = (w', es)) : WorldStep w w' es := by
    have hw := WorldStep.moves hi hm
    rwa [heq] at hw
  cases c with
  | new owner joined =>
    cases hs
    exact .new owner joined
  | write i serving exitError key encoded =>
    obtain ⟨t, hi, hs⟩ := bind_eq_some_iff.mp hs
    have ht := mem_of_getElem? hi
    split at hs
    · rename_i hpc
      obtain ⟨s, hs, heq⟩ := map_eq_some_iff.mp hs
      exact step hi (writeMetricEvent_moves (h.sound t ht) hpc h.table (h.holds ht) hs) heq
    · exact nomatch hs
  | go i =>
    obtain ⟨t, hi, hs⟩ := bind_eq_some_iff.mp hs
    have ht := mem_of_getElem? hi
    obtain ⟨s, hs, heq⟩ := map_eq_some_iff.mp hs
    exact step hi (go_moves (h.sound t ht) (h.holds ht) hs) heq
  | drop i =>
    obtain ⟨t, hi, hs⟩ := bind_eq_some_iff.mp hs
    split at hs
    · rename_i hpc
      exact step hi (drop_moves (h.sound t (mem_of_getElem? hi)) hpc) (some.inj hs)
    · exact nomatch hs

/-- A step of a sink leaves the table sound, counting what the sinks list now, and a
path that stays keeps its id. -/
theorem Moves.counts (h : Moves w.table t s) (hw : Published w) (hi : w.threads[i]? = some t) :
    s.table.Sound ∧ Counts s.table.counts (w.after i s).1.claims ∧ w.table.SameIds s.table := by
  have hclaims : claimsOf t.sink.owner t.listed + (w.after i s).1.claims =
      claimsOf s.thread.sink.owner s.thread.listed + w.claims :=
    add_sum_set (fun t : SinkThread => claimsOf t.sink.owner t.listed) s.thread hi
  rw [h.owner] at hclaims
  have same (hl : s.thread.listed = t.listed) : (w.after i s).1.claims = w.claims := by
    rw [hl] at hclaims
    exact add_left_cancel hclaims
  cases h.effect with
  | keep ht he hl =>
    rw [same hl, ht]
    exact ⟨hw.table, hw.counts, SeriesTable.SameIds.of_left fun hq => hq⟩
  | @stored id slot latest hs ht hl =>
    have ht : s.table = (w.table.stored id slot latest).1 := congrArg Prod.fst ht.symm
    rw [same hl, ht, SeriesTable.stored_counts hw.table hs]
    exact ⟨SeriesTable.stored_sound hw.table hs, hw.counts, SeriesTable.SameIds.of_left fun hq => hq⟩
  | first hc hl =>
    obtain ⟨howner, hcounts, -⟩ := hc.counts hw.table
    refine ⟨hc.sound hw.table, ?_, hc.sameIds⟩
    rw [hl, claimsOf_append, add_assoc] at hclaims
    rw [add_left_cancel hclaims, hcounts]
    exact hw.counts.claim howner
  | released ht hl =>
    have hold := hw.counts
    rw [hl, show claimsOf t.sink.owner [] = 0 from rfl, zero_add] at hclaims
    rw [← hclaims] at hold
    obtain ⟨hsound, hcounts, hids⟩ :=
      release_counts t.listed hw.table (hw.cached t (mem_of_getElem? hi)) hold
    rw [ht] at hsound hcounts hids
    exact ⟨hsound, hcounts, SeriesTable.SameIds.of_left hids⟩

/-- What a sink lists after a step it listed before, or the step has published it. -/
theorem Moves.cached (h : Moves w.table t s) (hw : Published w) (hp : p ∈ s.thread.listed) :
    p ∈ t.listed ∨ s.table.ids.lookup p.path = some p.id := by
  cases h.effect with
  | keep ht he hl => exact .inl (hl ▸ hp)
  | stored hs ht hl => exact .inl (hl ▸ hp)
  | first hc hl =>
    rw [hl, mem_append, mem_singleton] at hp
    rcases hp with hp | rfl
    · exact .inl hp
    · exact .inr (hc.counts hw.table).2.2
  | released ht hl =>
    rw [hl] at hp
    exact absurd hp not_mem_nil

theorem Published.step (hw : Published w) (h : WorldStep w w' es) : Published w' := by
  cases h with
  | new owner joined =>
    refine ⟨hw.table, fun t ht => ?_, ?_, fun t ht p hp => ?_⟩
    · rcases mem_append.mp ht with ht | ht
      · exact hw.sound t ht
      · rw [mem_singleton.mp ht]
        exact .new owner joined
    · rw [SinkWorld.claims, map_append, sum_append]
      exact (add_zero w.claims).symm ▸ hw.counts
    · rcases mem_append.mp ht with ht | ht
      · exact hw.cached t ht p hp
      · rw [mem_singleton.mp ht] at hp
        exact absurd hp not_mem_nil
  | @moves i t s hi hm =>
    obtain ⟨hsound, hcounts, hsame⟩ := hm.counts hw hi
    refine ⟨hsound, fun t' ht' => ?_, hcounts, fun t' ht' p hp => ?_⟩
    · rcases mem_or_eq_of_mem_set ht' with ht' | rfl
      · exact hw.sound t' ht'
      · exact hm.sound
    · have hclaimed : (t'.sink.owner, p.path) ∈ (w.after i s).1.claims :=
        mem_worldClaims.mpr ⟨t', ht', rfl, mem_paths hp⟩
      rcases mem_or_eq_of_mem_set ht' with ht' | rfl
      · exact ids_of_claimed hsound hcounts hsame hclaimed (hw.cached t' ht' p hp)
      · rcases hm.cached hw hp with hp | hp
        · exact ids_of_claimed hsound hcounts hsame hclaimed
            (hw.cached t (mem_of_getElem? hi) p hp)
        · exact hp

theorem createdOf_after (w : SinkWorld) (i : Nat) (s : SinkStep) (log : List SinkEvent) :
    createdOf (log ++ (w.after i s).2) = createdOf log ++ createdIn s.events := by
  simp only [createdOf, SinkWorld.after, filterMap_append, createdIn_append, filterMap_map]
  simp [createdIn]

/-- A step gives ids in order, and to the series it makes. -/
theorem WorldStep.created (h : WorldStep w w' es) (hg : w.table.Given (createdOf log)) :
    w'.table.Given (createdOf (log ++ es)) := by
  cases h with
  | new owner joined => rwa [append_nil]
  | @moves i t s hi hmove =>
    rw [createdOf_after]
    cases hmove.effect with
    | keep ht he hl =>
      rw [he, show createdIn [] = [] from rfl, append_nil]
      exact (show s.table.Given _ from ht.symm ▸ hg)
    | @stored id slot latest hs ht hl =>
      have hgiven : (w.table.stored id slot latest).1.Given _ := hg.insert hs rfl
      have hnone := SeriesTable.createdIn_stored w.table id slot latest
      rw [ht] at hgiven hnone
      rwa [hnone, append_nil]
    | first hc hl => exact hg.claims hc
    | released ht hl =>
      have hgiven := release_given t.sink.owner (t.listed.map Publication.id) hg
      rwa [ht] at hgiven

theorem published_new : Published {} where
  table := SeriesTable.sound_empty 0
  sound _ ht := absurd ht not_mem_nil
  counts := Counts.empty
  cached _ ht := absurd ht not_mem_nil

theorem published_run (h : (sinks localAddr).Run (fun _ _ => True) {} w log) :
    Published w ∧ w.table.Given (createdOf log) :=
  h.invariant (I := fun w log => Published w ∧ w.table.Given (createdOf log))
    ⟨published_new, SeriesTable.given_empty⟩ fun hw _ hs =>
      have hstep := worldStep hw.1 hs
      ⟨hw.1.step hstep, hstep.created hw.2⟩

theorem Published.at_iff (h : Published w) : w.table.ids.lookup path = some id ↔
      ∃ slot, w.table.slots.lookup id = some slot ∧ slot.path = path := by
  constructor
  · exact h.table.slot_of_id
  · rintro ⟨slot, hs, rfl⟩
    exact h.table.id_of_slot hs

/-- A series is in the table while a sink lists its path. -/
theorem Published.slot_iff (h : Published w) :
    (∃ id slot, w.table.slots.lookup id = some slot ∧ slot.path = path) ↔
      ∃ t ∈ w.threads, path ∈ t.paths := by
  constructor
  · rintro ⟨id, slot, hs, rfl⟩
    obtain ⟨t, ht, -, hm⟩ := mem_worldClaims.mp (h.counts.mem (h.table.counts_eq hs))
    exact ⟨t, ht, hm⟩
  · rintro ⟨t, ht, hm⟩
    obtain ⟨id, slot, -, hs, hp, -⟩ :=
      h.table.of_counts (h.counts.of_mem (mem_worldClaims.mpr ⟨t, ht, rfl, hm⟩))
    exact ⟨id, slot, hs, hp⟩

theorem Published.slot_counts (h : Published w) {slot : Slot}
    (hs : w.table.slots.lookup id = some slot) :
    slot.publishers = w.threads.countP (fun t => slot.path ∈ t.paths) ∧
      ∀ t ∈ w.threads, slot.path ∈ t.paths → t.sink.owner = slot.owner := by
  have hcount := h.table.counts_eq hs
  constructor
  · rw [← countP_worldClaims h.sound, h.counts.countP_key hcount]
  · exact fun t ht hm => h.counts.owner hcount (mem_worldClaims.mpr ⟨t, ht, rfl, hm⟩)

theorem eq_empty_of_lookup {α : Type} {β : α → Type} [DecidableEq α] {l : AList β}
    (h : ∀ a, l.lookup a = none) : l = ∅ := by
  refine ext (eq_nil_iff_forall_not_mem.mpr fun ⟨a, b⟩ hm => ?_)
  have hl := mem_lookup_iff.mpr hm
  rw [h a] at hl
  exact nomatch hl

theorem Published.table_empty (h : Published w) (hd : ∀ t ∈ w.threads, t.pc = .dropped) :
    w.table.ids = ∅ ∧ w.table.slots = ∅ := by
  have hslots (id : SeriesId) : w.table.slots.lookup id = none := by
    cases hs : w.table.slots.lookup id with
    | none => rfl
    | some slot =>
      obtain ⟨t, ht, hm⟩ := h.slot_iff.mp ⟨id, slot, hs, rfl⟩
      rw [SinkThread.paths, SinkThread.listed, hd t ht] at hm
      exact absurd hm not_mem_nil
  refine ⟨eq_empty_of_lookup fun path => ?_, eq_empty_of_lookup hslots⟩
  cases hid : w.table.ids.lookup path with
  | none => rfl
  | some id =>
    obtain ⟨slot, hs, -⟩ := h.table.slot_of_id hid
    rw [hslots id] at hs
    exact nomatch hs

/-- In every state the calls on the sinks of one target reach: `ids` and `slots` are
inverse; the series are those of the paths the sinks list, each with its owner and
the number of sinks that list it; every id a sink has cached is the id of its path's
series; and with the last sink dropped the table is empty. Every series was given its
id once, and as long as at most 2^32 series have been made no id was given to two
paths. A sink between a first publish and its entry in `published` lists the path. -/
theorem table_published (h : (sinks localAddr).Run (fun _ _ => True) {} w log) :
    (∀ path id, w.table.ids.lookup path = some id ↔
        ∃ slot, w.table.slots.lookup id = some slot ∧ slot.path = path) ∧
      (∀ path, (∃ id slot, w.table.slots.lookup id = some slot ∧ slot.path = path) ↔
        ∃ t ∈ w.threads, path ∈ t.paths) ∧
      (∀ id slot, w.table.slots.lookup id = some slot →
        slot.publishers = w.threads.countP (fun t => slot.path ∈ t.paths) ∧
          (∀ t ∈ w.threads, slot.path ∈ t.paths → t.sink.owner = slot.owner) ∧
          (id, slot.path) ∈ createdOf log) ∧
      (∀ t ∈ w.threads, ∀ p ∈ t.listed, w.table.ids.lookup p.path = some p.id) ∧
      ((createdOf log).length ≤ UInt32.size →
        ∀ id p q, (id, p) ∈ createdOf log → (id, q) ∈ createdOf log → p = q) ∧
      ((∀ t ∈ w.threads, t.pc = .dropped) → w.table.ids = ∅ ∧ w.table.slots = ∅) := by
  obtain ⟨hw, hgiven⟩ := published_run h
  refine ⟨fun path id => hw.at_iff, fun path => hw.slot_iff, fun id slot hs => ?_, hw.cached,
    fun hlen id p q hp hq => hgiven.path_eq hlen hp hq, hw.table_empty⟩
  obtain ⟨hcount, howner⟩ := hw.slot_counts hs
  exact ⟨hcount, howner, hgiven.named hs⟩

/-- Before each step of a run some sink lists the path: its series keeps its
id, whichever sinks publish it, release it or come and go. -/
theorem id_kept (h : (sinks localAddr).Run (fun _ _ => True) {} w log)
    (hid : w.table.ids.lookup path = some id) {log' : List SinkEvent}
    (h' : (sinks localAddr).Run (fun w _ => ∃ t ∈ w.threads, path ∈ t.paths) w w' log') :
    ∀ j ∈ w'.table.ids.lookup path, j = id := by
  refine (h'.invariant (I := fun w _ => Published w ∧ ∀ j ∈ w.table.ids.lookup path, j = id)
    ⟨(published_run h).1, fun j hj => some.inj (hj.symm.trans hid)⟩ fun hv hlisted hs => ?_).2
  have hstep := worldStep hv.1 hs
  refine ⟨hv.1.step hstep, fun j hj => ?_⟩
  obtain ⟨k, hat⟩ := hv.1.slot_iff.mpr hlisted
  have hk := hv.1.at_iff.mpr hat
  rw [← hv.2 k hk]
  cases hstep with
  | new owner joined => exact SeriesTable.SameIds.of_left (fun hq => hq) hk hj
  | moves hi hm => exact (hm.counts hv.1 hi).2.2 hk hj

end world

/-! ## Runs -/

/-- The path `/a` or another one of one element. -/
def pathOfName (name : List UInt8) : Path := ⟨[], [⟨name, .empty⟩], []⟩

/-- The notification of `value` at `path`. -/
def notification (path : Path) (value : UInt8) : Encoded where
  timestamp := 0
  path := .ok path
  value := some (⟨[value], List.cons_ne_nil _ _⟩, .double)

/-- Two sinks of one launch publish one path, a sink of another launch is refused it,
and one of the two is dropped. -/
theorem table_published_shared :
    ∃ w log, (sinks "127.0.0.1:9339").Run (fun _ _ => True) {} w log ∧
      (createdOf log = [(0, pathOfName [97])] ∧
        (w.table.slots.lookup 0).map Slot.publishers = some 1) ∧
      ∀ slot, w.table.slots.lookup 0 = some slot →
        slot.publishers = w.threads.countP (fun t => slot.path ∈ t.paths) :=
  Machine.run_reaches_and
    [.new 7 false, .new 7 false, .new 8 false,
      .write 0 true none ([1], []) (notification (pathOfName [97]) 1), .go 0,
      .write 1 true none ([2], []) (notification (pathOfName [97]) 2), .go 1,
      .write 2 true none ([3], []) (notification (pathOfName [97]) 3), .drop 0]
    (by decide) fun _ _ h _ slot hs => ((table_published h).2.2.1 0 slot hs).1

/-- Another sink publishes the path of the first, a joined one overwrites it, and the first is
dropped. -/
theorem id_kept_handedOver : ∃ w w' log', (sinks "127.0.0.1:9339").Run
      (fun w _ => ∃ t ∈ w.threads, pathOfName [97] ∈ t.paths) w w' log' ∧
      w'.threads.map (·.paths.length) = [0, 1, 0] ∧
      w'.table.ids.lookup (pathOfName [97]) = some 0 ∧
      ∀ j ∈ w'.table.ids.lookup (pathOfName [97]), j = 0 := by
  obtain ⟨w, log, h, hid, hexec⟩ := (sinks "127.0.0.1:9339").run_reaches (fun _ _ => True) {}
    [.new 7 false, .write 0 true none ([1], []) (notification (pathOfName [97]) 1), .go 0]
    (fun w _ => w.table.ids.lookup (pathOfName [97]) = some 0 ∧
      ((sinks "127.0.0.1:9339").exec (fun w _ => ∃ t ∈ w.threads, pathOfName [97] ∈ t.paths) w
        [.new 7 false, .write 1 true none ([2], []) (notification (pathOfName [97]) 2), .go 1,
          .new 7 true, .write 2 true none ([3], []) (notification (pathOfName [97]) 3), .drop 0]).any
        (fun p => decide (p.1.threads.map (·.paths.length) = [0, 1, 0] ∧
          p.1.table.ids.lookup (pathOfName [97]) = some 0)) = true) (by decide)
  obtain ⟨⟨w', log'⟩, hexec, hp⟩ := (any_eq_true _ _).mp hexec
  obtain ⟨hpaths, hid'⟩ := of_decide_eq_true hp
  have h' := Machine.exec_run hexec
  exact ⟨w, w', log', h', hpaths, hid', id_kept h hid h'⟩

section wrap

variable {localAddr : String}

/-- The world and the events after a step of the last sink. -/
def lastStep (threads : List SinkThread) (s : SinkStep) : SinkWorld × List SinkEvent :=
  (⟨s.table, threads ++ [s.thread]⟩,
    s.events.map .target ++ s.result.toList.map (.returned threads.length))

theorem after_last (table : SeriesTable) (threads : List SinkThread) (t : SinkThread) (s : SinkStep) :
    SinkWorld.after ⟨table, threads ++ [t]⟩ threads.length s = lastStep threads s := by
  simp [SinkWorld.after, lastStep]

variable {table : SeriesTable} {threads : List SinkThread} {t : SinkThread} {s : SinkStep}

theorem write_last {serving : Bool} {exitError : Option String} {key : MetricKey} {encoded : Encoded}
    (hpc : t.pc = .idle)
    (h : writeMetricEvent localAddr table t.sink serving exitError key encoded = some s) :
    (sinks localAddr).step ⟨table, threads ++ [t]⟩
      (.write threads.length serving exitError key encoded) = some (lastStep threads s) := by
  simp only [sinks, sinkStep, getElem?_concat_length, bind_some, if_pos hpc, h,
    map_some, after_last]

theorem go_last (h : t.go localAddr table = some s) :
    (sinks localAddr).step ⟨table, threads ++ [t]⟩ (.go threads.length) = some (lastStep threads s) := by
  simp only [sinks, sinkStep, getElem?_concat_length, bind_some, h, map_some,
    after_last]

theorem drop_last (hpc : t.pc = .idle) :
    (sinks localAddr).step ⟨table, threads ++ [t]⟩ (.drop threads.length) =
      some (lastStep threads (t.drop table)) := by
  simp only [sinks, sinkStep, getElem?_concat_length, bind_some, if_pos hpc, after_last]

theorem erase_insert_empty {α : Type} {β : α → Type} [DecidableEq α] (a : α) (b : β a) :
    (AList.insert a b ∅).erase a = (∅ : AList β) := by
  refine eq_empty_of_lookup fun c => ?_
  rcases eq_or_ne c a with rfl | hne
  · exact lookup_erase _ _
  · rw [lookup_erase_ne hne, lookup_insert_ne hne]
    rfl

/-- The series of `path` after its first publish, by the launch 0. -/
def firstSlot (path : Path) : Slot where
  path
  latest := { encoded := notification path 1, version := 1 }
  kind := .double
  owner := 0
  publishers := 1

/-- A sink that publishes `path` and is dropped, in a target without series: the path
gets the next id, and the table is as it was but for that. -/
theorem publish_drop_run (path : Path) (k : SeriesId) (threads : List SinkThread) :
    ∃ threads' log, (sinks localAddr).Run (fun _ _ => True) ⟨{ nextId := k }, threads⟩
      ⟨{ nextId := k + 1 }, threads'⟩ log ∧ createdOf log = [(k, path)] := by
  let table : SeriesTable := ⟨insert path k ∅, insert k (firstSlot path) ∅, k + 1⟩
  let sink : GnmiTargetSink :=
    { owner := 0, owned := insert ([], []) 0 ∅, published := [⟨k, path⟩],
      paths := insert path 0 ∅, lastDelivered := true }
  have hs : table.slots.lookup k = some (firstSlot path) := lookup_insert _
  have hwrite : writeMetricEvent localAddr { nextId := k } { owner := 0 } true none ([], [])
      (notification path 1) = some
        { table, thread := ⟨{ owner := 0 }, .recording ([], []) k path⟩
          events := [.created k path, .sent (.changed ⟨k, .double, 1, notification path 1⟩)] } := rfl
  have hgo : SinkThread.go localAddr table ⟨{ owner := 0 }, .recording ([], []) k path⟩ = some
      { table, thread := ⟨sink, .idle⟩, result := some (.ok ()) } := by
    have hof : (table.pathOf k).getD path = path := by
      rw [SeriesTable.pathOf, hs]
      rfl
    simp only [SinkThread.go, record, hof]
    rfl
  have hdrop : SinkThread.drop table ⟨sink, .idle⟩ =
      { table := { nextId := k + 1 }, thread := ⟨sink, .dropped⟩
        events := [.sent (.removed k path)] } := by
    have hone : table.releaseOne 0 k = ({ nextId := k + 1 }, [.sent (.removed k path)]) := by
      rw [show (0 : Owner) = (firstSlot path).owner from rfl, SeriesTable.releaseOne_eq hs]
      simp only [firstSlot, table, erase_insert_empty, Nat.sub_self, if_pos]
    simp only [SinkThread.drop, sink, map_singleton, SeriesTable.release, hone, append_nil]
  have hnew : (sinks localAddr).step ⟨{ nextId := k }, threads⟩ (.new 0 false) =
      some (⟨{ nextId := k }, threads ++ [⟨{ owner := 0 }, .idle⟩]⟩, []) := rfl
  have hlast : (sinks localAddr).step ⟨table, threads ++ [⟨sink, .idle⟩]⟩ (.drop threads.length) =
      some (lastStep threads _) := drop_last rfl
  rw [hdrop] at hlast
  exact ⟨_, _, (((Machine.Run.start.step trivial hnew).step trivial (write_last rfl hwrite)).step
    trivial (go_last hgo)).step trivial hlast, rfl⟩

/-- So do any number of sinks, one after the other. -/
theorem publish_drop_runs (path : Path) (n : Nat) :
    ∀ (k : SeriesId) (threads : List SinkThread), ∃ threads' log,
      (sinks localAddr).Run (fun _ _ => True) ⟨{ nextId := k }, threads⟩
        ⟨{ nextId := k + UInt32.ofNat n }, threads'⟩ log := by
  induction n with
  | zero =>
    intro k threads
    rw [show UInt32.ofNat 0 = 0 from rfl, UInt32.add_zero]
    exact ⟨threads, [], .start⟩
  | succ n ih =>
    intro k threads
    obtain ⟨threads₁, log₁, h₁, -⟩ := publish_drop_run path k threads
    obtain ⟨threads₂, log₂, h₂⟩ := ih (k + 1) threads₁
    rw [UInt32.add_assoc, UInt32.add_comm 1, ← UInt32.ofNat_one, ← UInt32.ofNat_add] at h₂
    exact ⟨threads₂, _, h₁.trans h₂⟩

end wrap

/-- One sink after the other publishes a path and is dropped. After 2^32 of them the
ids begin again, and the id of the first path is given to another. -/
theorem id_given_twice :
    ∃ w log id p q, (sinks "127.0.0.1:9339").Run (fun _ _ => True) {} w log ∧
      (id, p) ∈ createdOf log ∧ (id, q) ∈ createdOf log ∧ p ≠ q := by
  obtain ⟨threads₁, log₁, h₁, hlog₁⟩ :=
    publish_drop_run (pathOfName [97]) 0 []
  obtain ⟨threads₂, log₂, h₂⟩ :=
    publish_drop_runs (pathOfName [97]) (UInt32.size - 1) (0 + 1) threads₁
  rw [show (0 + 1 : SeriesId) + UInt32.ofNat (UInt32.size - 1) = 0 from by decide] at h₂
  obtain ⟨threads₃, log₃, h₃, hlog₃⟩ :=
    publish_drop_run (pathOfName [98]) 0 threads₂
  have hmem (log log' : List SinkEvent) : createdOf (log ++ log') = createdOf log ++ createdOf log' := by
    rw [createdOf, filterMap_append, createdIn_append]
    rfl
  refine ⟨_, _, 0, pathOfName [97], pathOfName [98], (h₁.trans h₂).trans h₃, ?_, ?_, by decide⟩
  · rw [hmem, hmem, hlog₁]
    simp
  · rw [hmem, hlog₃]
    simp

end Sonda.Gnmi
