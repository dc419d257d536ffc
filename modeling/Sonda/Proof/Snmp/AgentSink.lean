import Sonda.Framework.RefCounts
import Sonda.Impl.Snmp.AgentSink

/-!
# What a step of a sink does

`Moves` says once what a step of a sink does to the table and to the sink,
whatever the call and wherever it fails: `writeMetricEvent_moves`, `go_moves`
and `drop_moves`. What the records that are written are known to hold is a
`Voucher`, so that the same inversion serves results about any records and
results about the encoder's.
-/

namespace Sonda.Snmp

open Framework List Option
open Sonda.Schedule (SondaError)

variable {v : Nat → Voucher} {publication : Publication} {w w' : SinkWorld} {localAddr : String}

/-! ## What a sink keeps -/

/-- What a sink has yet to release: all it has published, or what its drop
has not come to. -/
def SinkThread.listed (t : SinkThread) : List Oid :=
  match t.pc with
  | .dropped => []
  | .dropping rest => rest
  | _ => releases t.sink.published

/-- What is known of the records a sink is given: the OIDs their series render
to, what they may store under an OID, and their companions. -/
structure Voucher where
  renders : MetricKey → Oid → Prop
  stores : Oid → Octets → Prop
  carries : Companions → Prop
  next : ∀ {c companion rest}, carries c → c.next = some (companion, rest) → carries rest ∧
    ∀ {oid}, instanceOid companion.varbind = .ok oid → stores oid companion.varbind

/-- The record is one the voucher knows of, of the series `key`. -/
def Voucher.Vouches (v : Voucher) (key : MetricKey) (encoded : Octets) : Prop :=
  ∀ {record}, splitRecord encoded = .ok record → v.carries record.companions ∧
    (∀ {oid}, instanceOid record.varbind = .ok oid → v.renders key oid ∧ v.stores oid record.varbind) ∧
    ∀ {oid}, v.renders key oid → v.stores oid record.varbind

/-- `published[entry]` is of the instance `oid`. -/
def HasOid (published : List Publication) (entry : Nat) (oid : Oid) : Prop :=
  published[entry]?.map Publication.oid = some oid

/-- What a sink keeps is true of what it has published; a joined sink has
published nothing. -/
structure SnmpAgentSink.Sound (v : Voucher) (sink : SnmpAgentSink) : Prop where
  owned : ∀ {key entry}, sink.owned.lookup key = some entry →
    ∃ oid, HasOid sink.published entry oid ∧ v.renders key oid
  instances : ∀ {oid entry}, sink.instances.lookup oid = some entry → HasOid sink.published entry oid
  joined : sink.joined = true → sink.published = []

structure SinkThread.Sound (v : Voucher) (t : SinkThread) : Prop extends t.sink.Sound v where
  companions : ∀ {entry rest}, t.pc = .companions entry rest →
    entry < t.sink.published.length ∧ v.carries rest
  overwriting : ∀ {rest}, t.pc = .overwriting rest → v.carries rest
  dropping : ∀ {rest}, t.pc = .dropping rest → t.sink.joined = true → rest = []

/-- What a step does to the slots of the table and to what the sink lists. -/
inductive Effect (localAddr : String) (v : Voucher) (table : MibTable) (t : SinkThread) (s : SinkStep) :
    Prop
  | keep (hs : s.table.slots = table.slots) (hl : s.thread.listed = t.listed)
  | again {oid : Oid} {varbind : Octets} {table' : MibTable} (hm : oid ∈ t.listed)
      (hv : v.stores oid varbind)
      (hp : table.publish localAddr t.sink.owner oid varbind false = .ok table')
      (hs : s.table.slots = table'.slots) (hl : s.thread.listed = t.listed)
  | first {oid : Oid} {varbind : Octets} {table' : MibTable} (hv : v.stores oid varbind)
      (hp : table.publish localAddr t.sink.owner oid varbind true = .ok table')
      (hs : s.table.slots = table'.slots) (hl : s.thread.listed.Perm (oid :: t.listed))
  | overwrote {oid : Oid} {varbind : Octets} {table' : MibTable} (hv : v.stores oid varbind)
      (hp : table.overwrite oid varbind = some table') (hs : s.table.slots = table'.slots)
      (hl : s.thread.listed = t.listed)
  | released {oid : Oid} (hs : s.table = table.release t.sink.owner oid)
      (hl : t.listed = oid :: s.thread.listed)

structure Moves (localAddr : String) (v : Voucher) (table : MibTable) (t : SinkThread) (s : SinkStep) :
    Prop where
  owner : s.thread.sink.owner = t.sink.owner
  sound : s.thread.Sound v
  effect : Effect localAddr v table t s

/-! ## What is published -/

theorem mem_releases {published : List Publication} {oid : Oid} (hp : publication ∈ published)
    (ho : oid = publication.oid ∨ oid ∈ publication.companions) : oid ∈ releases published :=
  mem_flatMap.mpr ⟨publication, hp, mem_cons.mpr ho⟩

theorem releases_push (published : List Publication) (oid : Oid) :
    (releases (published ++ [⟨oid, []⟩])).Perm (oid :: releases published) := by
  simp only [releases, flatMap_append, flatMap_cons, flatMap_nil, append_nil]
  exact perm_append_comm

/-- A companion pushed on one publication. -/
theorem releases_set (oid : Oid) :
    ∀ {published : List Publication} {entry : Nat}, published[entry]? = some publication →
      (releases (published.set entry
        { publication with companions := publication.companions ++ [oid] })).Perm
          (oid :: releases published)
  | p :: published, 0, h => by
    cases h
    simp only [releases, set_cons_zero, flatMap_cons, cons_append,
      append_assoc, nil_append]
    refine (List.Perm.cons _ perm_middle).trans ?_
    exact List.Perm.swap _ _ _
  | p :: published, entry + 1, h => by
    have hp : published[entry]? = some publication := by simpa using h
    have ih := releases_set oid hp
    simp only [releases, set_cons_succ, flatMap_cons] at ih ⊢
    exact (ih.append_left _).trans perm_middle

namespace HasOid

variable {published : List Publication} {entry : Nat} {oid : Oid}

theorem lt (h : HasOid published entry oid) : entry < published.length := by
  obtain ⟨_, hp, -⟩ := map_eq_some_iff.mp h
  exact (List.getElem?_eq_some_iff.mp hp).1

theorem push (h : HasOid published entry oid) (p : Publication) : HasOid (published ++ [p]) entry oid := by
  have hlt := h.lt
  unfold HasOid at h ⊢
  rwa [getElem?_append_left hlt]

theorem last (published : List Publication) (p : Publication) :
    HasOid (published ++ [p]) published.length p.oid := by
  rw [HasOid, getElem?_append_right (Nat.le_refl _), Nat.sub_self]
  rfl

/-- A publication replaced by one of the same instance. -/
theorem set {e : Nat} {p p' : Publication} (hp : published[e]? = some p) (hoid : p'.oid = p.oid)
    (h : HasOid published entry oid) : HasOid (published.set e p') entry oid := by
  unfold HasOid at h ⊢
  rcases eq_or_ne entry e with rfl | hne
  · rw [List.getElem?_set_self (List.getElem?_eq_some_iff.mp hp).1]
    rw [hp] at h
    exact (congrArg some hoid).trans h
  · rwa [getElem?_set_ne hne.symm]

end HasOid

/-! ## Calls -/

section steps

variable {localAddr : String} {v : Voucher} {table : MibTable} {t : SinkThread} {s : SinkStep}
variable {rest : Companions} {record : Record} {companion : Companion} {key : MetricKey}
  {entry : Nat} {oid : Oid}

/-- `sink` has what the sink of `t`, which has not begun its drop, has
published. -/
structure Keeps (v : Voucher) (t : SinkThread) (sink : SnmpAgentSink) : Prop extends sink.Sound v where
  live : t.listed = releases t.sink.published
  owner : sink.owner = t.sink.owner
  published : sink.published = t.sink.published

theorem SinkThread.Sound.keeps (h : t.Sound v) (hl : t.listed = releases t.sink.published) :
    Keeps v t t.sink :=
  ⟨h.toSound, hl, rfl, rfl⟩

variable {sink : SnmpAgentSink}

section

variable (h : Keeps v t sink)

include h

theorem Keeps.listed : releases sink.published = t.listed := by
  rw [h.live, h.published]

theorem Keeps.delivered (b : Bool) : SnmpAgentSink.Sound v { sink with lastDelivered := b } :=
  ⟨h.owned, h.instances, h.joined⟩

theorem Keeps.idle (b : Bool) : SinkThread.Sound v ⟨{ sink with lastDelivered := b }, .idle⟩ :=
  ⟨h.delivered b, nofun, nofun, nofun⟩

theorem Keeps.inCompanions (b : Bool) (he : entry < sink.published.length) (hr : v.carries rest) :
    SinkThread.Sound v ⟨{ sink with lastDelivered := b }, .companions entry rest⟩ := by
  refine ⟨h.delivered b, fun e => ?_, nofun, nofun⟩
  injection e with h₁ h₂
  exact ⟨h₁ ▸ he, h₂ ▸ hr⟩

theorem Keeps.inOverwriting (b : Bool) (hr : v.carries rest) :
    SinkThread.Sound v ⟨{ sink with lastDelivered := b }, .overwriting rest⟩ := by
  refine ⟨h.delivered b, nofun, fun e => ?_, nofun⟩
  injection e with h₁
  exact h₁ ▸ hr

theorem Keeps.fail (e : SondaError) : Moves localAddr v table t (fail table sink e) :=
  ⟨h.owner, h.idle _, .keep rfl h.listed⟩

theorem Keeps.republish (ho : HasOid sink.published entry oid)
    (hv : v.stores oid record.varbind) (hr : v.carries record.companions)
    (hs : republish localAddr table sink entry record = some s) : Moves localAddr v table t s := by
  obtain ⟨publication, hp, rfl⟩ := map_eq_some_iff.mp hs
  have hoid : publication.oid = oid := by
    rw [HasOid, hp] at ho
    exact some.inj ho
  rw [hoid]
  split
  · exact h.fail _
  · rename_i table' hpub
    rw [h.owner] at hpub
    have hm : oid ∈ t.listed := by
      rw [← h.listed]
      exact mem_releases (mem_of_getElem? hp) (.inl hoid.symm)
    split
    · exact ⟨h.owner, h.inCompanions _ ho.lt hr, .again hm hv hpub rfl h.listed⟩
    · exact ⟨h.owner, h.idle _, .again hm hv hpub rfl h.listed⟩

/-- A publish that fails changes nothing, and one that does not is pushed on
`published` before the call does anything else. -/
theorem Keeps.publishFirst (hj : sink.joined = false) (hk : v.renders key oid)
    (hv : v.stores oid record.varbind) (hr : v.carries record.companions) :
    Moves localAddr v table t (publishFirst localAddr table sink key oid record) := by
  unfold Snmp.publishFirst
  split
  · exact h.fail _
  split
  · exact h.fail _
  rename_i table' hpub
  rw [h.owner] at hpub
  have hlast : HasOid (sink.published ++ [⟨oid, []⟩]) sink.published.length oid := HasOid.last _ _
  refine ⟨h.owner, ⟨⟨fun hl => ?_, fun hl => ?_, fun hl => ?_⟩, fun e => ?_, nofun, nofun⟩,
    .first hv hpub rfl ?_⟩
  · rcases lookup_insert_cases hl with ⟨rfl, rfl⟩ | ⟨-, hl⟩
    · exact ⟨oid, hlast, hk⟩
    · obtain ⟨oid', ho, hk'⟩ := h.owned hl
      exact ⟨oid', ho.push _, hk'⟩
  · rcases lookup_insert_cases hl with ⟨rfl, rfl⟩ | ⟨-, hl⟩
    · exact hlast
    · exact (h.instances hl).push _
  · exact absurd (hj.symm.trans hl) Bool.false_ne_true
  · injection e with h₁ h₂
    exact ⟨h₁ ▸ hlast.lt, h₂ ▸ hr⟩
  · rw [← h.listed]
    exact releases_push _ _

theorem Keeps.writeJoined
    (hv : ∀ {oid}, instanceOid record.varbind = .ok oid → v.stores oid record.varbind)
    (hr : v.carries record.companions) :
    Moves localAddr v table t (writeJoined localAddr table sink record) := by
  unfold Snmp.writeJoined
  split
  · exact h.fail _
  rename_i hoid
  split
  · exact h.fail _
  · rename_i hw
    exact ⟨h.owner, h.inOverwriting _ hr, .overwrote (hv hoid) hw rfl h.listed⟩

end

/-- The part of a write up to its instance. -/
theorem writeMetricEvent_moves (ht : t.Sound v) (hpc : t.pc = .idle) {serving : Bool}
    {encoded : Octets} (hv : v.Vouches key encoded)
    (hs : writeMetricEvent localAddr table t.sink serving key encoded = some s) :
    Moves localAddr v table t s := by
  have hlive : t.listed = releases t.sink.published := by rw [SinkThread.listed, hpc]
  have h : Keeps v t { t.sink with lastDelivered := false } :=
    ⟨⟨ht.owned, ht.instances, ht.joined⟩, hlive, rfl, rfl⟩
  unfold writeMetricEvent at hs
  dsimp only at hs
  split at hs
  · cases hs
    exact h.fail _
  split at hs
  · cases hs
    exact h.fail _
  rename_i record hrec
  obtain ⟨hcarries, hfound, hstores⟩ := hv hrec
  split at hs
  · cases hs
    exact h.writeJoined (fun hoid => (hfound hoid).2) hcarries
  rename_i hj
  split at hs
  · rename_i hl
    obtain ⟨oid, ho, hk⟩ := ht.owned hl
    exact h.republish ho (hstores hk) hcarries hs
  split at hs
  · cases hs
    exact h.fail _
  rename_i oid hoid
  obtain ⟨hk, hst⟩ := hfound hoid
  split at hs
  · rename_i entry hi
    have ho := ht.instances hi
    have h' : Keeps v t
        { t.sink with lastDelivered := false, owned := t.sink.owned.insert key entry } := by
      refine ⟨⟨fun hl => ?_, ht.instances, ht.joined⟩, hlive, rfl, rfl⟩
      rcases lookup_insert_cases hl with ⟨rfl, rfl⟩ | ⟨-, hl⟩
      · exact ⟨oid, ho, hk⟩
      · exact ht.owned hl
    exact h'.republish ho hst hcarries hs
  · cases hs
    exact h.publishFirst (Bool.not_eq_true _ ▸ hj) hk hst hcarries

/-- One companion. -/
theorem Keeps.publishCompanion (h : Keeps v t sink) {publication : Publication}
    (hp : sink.published[entry]? = some publication)
    (hv : ∀ {oid}, instanceOid companion.varbind = .ok oid → v.stores oid companion.varbind)
    (hr : v.carries rest) :
    Moves localAddr v table t
      (publishCompanion localAddr table sink entry publication companion rest) := by
  have hlt : entry < sink.published.length := (List.getElem?_eq_some_iff.mp hp).1
  unfold Snmp.publishCompanion
  split
  · exact h.fail _
  rename_i oid hoid
  split
  · rename_i hmem
    split
    · exact h.fail _
    rename_i hpub
    have hm : oid ∈ t.listed := by
      rw [← h.listed]
      exact mem_releases (mem_of_getElem? hp) (.inr hmem)
    exact ⟨h.owner, h.inCompanions _ hlt hr, .again hm (hv hoid) (h.owner ▸ hpub) rfl h.listed⟩
  · split
    · exact h.fail _
    split
    · exact h.fail _
    rename_i hpub
    rw [h.owner] at hpub
    have hset {entry' : Nat} {oid' : Oid} (ho : HasOid sink.published entry' oid') :
        HasOid (sink.published.set entry
          { publication with companions := publication.companions ++ [oid] }) entry' oid' :=
      HasOid.set hp rfl ho
    refine ⟨h.owner, ⟨⟨fun hl => ?_, fun hl => hset (h.instances hl), fun hl => ?_⟩, fun e => ?_, nofun,
      nofun⟩, .first (hv hoid) hpub rfl ?_⟩
    · obtain ⟨oid', ho, hk⟩ := h.owned hl
      exact ⟨oid', hset ho, hk⟩
    · have hnil := h.joined hl
      rw [hnil] at hlt
      exact absurd hlt (Nat.not_lt_zero _)
    · injection e with h₁ h₂
      rw [length_set]
      exact ⟨h₁ ▸ hlt, h₂ ▸ hr⟩
    · rw [← h.listed]
      exact releases_set oid hp

theorem Keeps.overwriteCompanion (h : Keeps v t sink)
    (hv : ∀ {oid}, instanceOid companion.varbind = .ok oid → v.stores oid companion.varbind)
    (hr : v.carries rest) :
    Moves localAddr v table t (overwriteCompanion table sink companion rest) := by
  unfold Snmp.overwriteCompanion
  split
  · exact h.fail _
  rename_i oid hoid
  refine ⟨h.owner, h.inOverwriting _ hr, ?_⟩
  cases hw : table.overwrite oid companion.varbind with
  | none => exact .keep rfl h.listed
  | some table' => exact .overwrote (hv hoid) hw rfl h.listed

/-- The next part of a call. -/
theorem go_moves (ht : t.Sound v) (hs : t.go localAddr table = some s) : Moves localAddr v table t s := by
  unfold SinkThread.go at hs
  split at hs
  · exact nomatch hs
  · exact nomatch hs
  · rename_i hpc
    have h := ht.keeps (by rw [SinkThread.listed, hpc])
    split at hs
    · cases hs
      exact ⟨h.owner, h.idle _, .keep rfl h.listed⟩
    · rename_i hnext
      obtain ⟨publication, hp, rfl⟩ := map_eq_some_iff.mp hs
      obtain ⟨hr, hv⟩ := v.next (ht.companions hpc).2 hnext
      exact h.publishCompanion hp hv hr
  · rename_i hpc
    have h := ht.keeps (by rw [SinkThread.listed, hpc])
    split at hs
    · cases hs
      exact ⟨h.owner, h.idle _, .keep rfl h.listed⟩
    · rename_i hnext
      cases hs
      obtain ⟨hr, hv⟩ := v.next (ht.overwriting hpc) hnext
      exact h.overwriteCompanion hv hr
  · rename_i hpc
    cases hs
    refine ⟨rfl, ⟨ht.toSound, nofun, nofun, nofun⟩, .keep rfl ?_⟩
    rw [SinkThread.listed, SinkThread.listed, hpc]
  · rename_i hpc
    cases hs
    refine ⟨rfl, ⟨ht.toSound, nofun, nofun, fun _ hj => ?_⟩, .released rfl ?_⟩
    · exact absurd (ht.dropping hpc hj) (cons_ne_nil _ _)
    · rw [SinkThread.listed, hpc]
      rfl

/-- A sink that begins its drop lists what it listed. -/
theorem drop_moves (localAddr : String) (table : MibTable) (ht : t.Sound v) (hpc : t.pc = .idle) :
    Moves localAddr v table t ⟨table, ⟨t.sink, .dropping (releases t.sink.published)⟩, none⟩ where
  owner := rfl
  sound := by
    refine ⟨ht.toSound, nofun, nofun, fun e hj => ?_⟩
    injection e with e
    rw [← e, ht.joined hj]
    rfl
  effect := .keep rfl (by rw [SinkThread.listed, SinkThread.listed, hpc])

end steps

/-! ## Steps -/

/-- What a step of the machine does: a sink comes, or the sink `i` moves. -/
inductive WorldStep (localAddr : String) (v : Nat → Voucher) (w : SinkWorld) : SinkWorld → Prop
  | new (owner : Owner) (joined : Bool) :
      WorldStep localAddr v w { w with threads := w.threads ++ [⟨{ owner, joined }, .idle⟩] }
  | moves {i : Nat} {t : SinkThread} {s : SinkStep} (hi : w.threads[i]? = some t)
      (hm : Moves localAddr (v i) w.table t s) : WorldStep localAddr v w (w.after i s).1

/-- The records of a call are ones the sink's voucher knows of. -/
def SinkCall.Vouched (v : Nat → Voucher) : SinkCall → Prop
  | .write i _ key encoded => (v i).Vouches key encoded
  | _ => True

/-- The sinks keep what is true of what they have published. -/
def SinkWorld.Sound (v : Nat → Voucher) (w : SinkWorld) : Prop :=
  ∀ (i : Nat) (t : SinkThread), w.threads[i]? = some t → t.Sound (v i)

theorem worldStep {c : SinkCall} {es : List SinkEvent} (hw : w.Sound v) (hc : c.Vouched v)
    (hs : (sinks localAddr).step w c = some (w', es)) : WorldStep localAddr v w w' := by
  cases c with
  | new owner joined =>
    obtain ⟨rfl, -⟩ := Prod.mk.inj (some.inj hs)
    exact .new owner joined
  | write i serving key encoded =>
    obtain ⟨t, hi, hs⟩ := bind_eq_some_iff.mp hs
    split at hs
    · rename_i hpc
      obtain ⟨s, hs, heq⟩ := map_eq_some_iff.mp hs
      have hm := WorldStep.moves hi (writeMetricEvent_moves (hw i t hi) hpc hc hs)
      rwa [heq] at hm
    · exact nomatch hs
  | go i =>
    obtain ⟨t, hi, hs⟩ := bind_eq_some_iff.mp hs
    obtain ⟨s, hs, heq⟩ := map_eq_some_iff.mp hs
    have hm := WorldStep.moves hi (go_moves (hw i t hi) hs)
    rwa [heq] at hm
  | drop i =>
    obtain ⟨t, hi, hs⟩ := bind_eq_some_iff.mp hs
    split at hs
    · rename_i hpc
      have hm := WorldStep.moves hi (drop_moves localAddr w.table (hw i t hi) hpc)
      rwa [some.inj hs] at hm
    · exact nomatch hs

theorem WorldStep.sound (h : WorldStep localAddr v w w') (hw : w.Sound v) : w'.Sound v := by
  intro j t' hj
  cases h with
  | new owner joined =>
    rcases Framework.getElem?_append_cases hj with ⟨-, rfl⟩ | hj
    · exact ⟨⟨nofun, nofun, fun _ => rfl⟩, nofun, nofun, nofun⟩
    · exact hw j t' hj
  | moves hi hm =>
    rcases Framework.getElem?_set_cases hj with ⟨rfl, rfl⟩ | ⟨-, hj⟩
    · exact hm.sound
    · exact hw j t' hj

end Sonda.Snmp
