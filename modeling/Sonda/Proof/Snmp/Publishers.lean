import Sonda.Proof.Snmp.AgentSink

/-!
# The publishers of an instance

The agent keeps a number of publishers with each instance; the sinks keep
lists of what they have published. `slots_counted`: in every state that any
interleaving of the calls on any number of sinks reaches, the two agree.

`MibTable.counts` is the table as a table of counts, `SinkWorld.claims` what
the sinks list, and the agreement is `Counts`; `Moves.counts` is that a step of
a sink keeps it. `calls_enabled`: no call indexes `published` out of range.
-/

namespace Sonda.Snmp

open Framework List Option

/-! ## The table as a table of counts -/

namespace MibTable

variable {localAddr : String} {table table' : MibTable} {owner : Owner} {oid : Oid}
  {varbind : Octets} {first : Bool}

/-- The owner and the number of publishers of an instance. -/
def counts (table : MibTable) (oid : Oid) : Option (Owner × Nat) :=
  table.slots[oid]?.map fun slot => (slot.owner, slot.publishers)

theorem counts_insert (oid : Oid) (slot : Slot) :
    counts { table with slots := table.slots.insert oid slot } =
      Function.update table.counts oid (some (slot.owner, slot.publishers)) := by
  funext j
  rcases eq_or_ne j oid with rfl | hne
  · simp [counts]
  · rw [Function.update_of_ne hne]
    simp [counts, Std.TreeMap.getElem?_insert, hne.symm]

theorem counts_erase (oid : Oid) : counts { table with slots := table.slots.erase oid } =
      Function.update table.counts oid none := by
  funext j
  rcases eq_or_ne j oid with rfl | hne
  · simp [counts]
  · rw [Function.update_of_ne hne]
    simp [counts, Std.TreeMap.getElem?_erase, hne.symm]

/-- A publish succeeds on an instance of its own launch, or on a new one
outside the system group. It counts one more publisher if it is the first of
its sink, and one if the instance is new. -/
theorem publish_counts (h : table.publish localAddr owner oid varbind first = .ok table') :
    (∀ p ∈ table.counts oid, p.1 = owner) ∧
      (table.counts oid = none → systemGroup.isPrefixOf oid.arcs = false) ∧
      table'.counts = Function.update table.counts oid
        (some (owner, (table.counts oid).elim 1 (·.2 + first.toNat))) := by
  unfold publish at h
  split at h
  · rename_i slot hslot
    have hc : table.counts oid = some (slot.owner, slot.publishers) := by rw [counts, hslot]; rfl
    split at h
    · exact nomatch h
    · rename_i howner
      have howner : slot.owner = owner := not_not.mp howner
      cases h
      refine ⟨fun p hp => ?_, fun hn => ?_, ?_⟩
      · rw [hc] at hp
        rw [← some.inj hp, howner]
      · rw [hc] at hn
        exact nomatch hn
      · rw [counts_insert, hc, ← howner]
        rfl
  · rename_i hslot
    have hc : table.counts oid = none := by rw [counts, hslot]; rfl
    split at h
    · exact nomatch h
    · rename_i hsys
      cases h
      refine ⟨fun p hp => ?_, fun _ => Bool.not_eq_true _ ▸ hsys, ?_⟩
      · rw [hc] at hp
        exact nomatch hp
      · rw [counts_insert, hc]
        rfl

/-- An overwrite changes no owner and no number. -/
theorem overwrite_counts (h : table.overwrite oid varbind = some table') :
    table'.counts = table.counts := by
  unfold overwrite at h
  split at h
  · rename_i slot hslot
    cases h
    have hc : table.counts oid = some (slot.owner, slot.publishers) := by rw [counts, hslot]; rfl
    rw [counts_insert]
    exact Function.update_eq_self_iff.mpr hc.symm
  · exact nomatch h

theorem counts_congr (h : table.slots = table'.slots) : table.counts = table'.counts := by
  funext oid
  rw [counts, counts, h]

/-- A release by the owner takes one publisher away, and with the last the
instance. -/
theorem release_counts {n : Nat} (h : table.counts oid = some (owner, n)) :
    (table.release owner oid).counts =
      Function.update table.counts oid (if n - 1 = 0 then none else some (owner, n - 1)) := by
  obtain ⟨slot, hslot, hs⟩ := map_eq_some_iff.mp h
  obtain ⟨rfl, rfl⟩ := Prod.mk.inj hs
  rw [release, hslot]
  dsimp only
  rw [if_pos rfl]
  split
  · rw [counts_erase]
  · rw [counts_insert]

end MibTable

/-! ## All sinks -/

/-- The claims of a sink on the table: one for each time it lists an
instance. -/
def SinkThread.claims (t : SinkThread) : Multiset (Owner × Oid) :=
  (t.listed : Multiset Oid).map fun oid => (t.sink.owner, oid)

/-- The claims of all sinks. -/
def SinkWorld.claims (w : SinkWorld) : Multiset (Owner × Oid) :=
  (w.threads.map SinkThread.claims).sum

/-- The table counts what the sinks list, and nothing of it is in the system
group. -/
structure Published (v : Nat → Voucher) (w : SinkWorld) : Prop where
  sound : w.Sound v
  counts : Counts w.table.counts w.claims
  outside : ∀ {oid p}, w.table.counts oid = some p → systemGroup.isPrefixOf oid.arcs = false

section world

variable {localAddr : String} {objects : Std.TreeSet Oid} {v : Nat → Voucher} {w : SinkWorld}
  {t : SinkThread} {s : SinkStep} {i : Nat} {oid : Oid}
variable {log : List SinkEvent} {u : Voucher}

theorem mem_worldClaims {o : Owner} :
    (o, oid) ∈ w.claims ↔ ∃ t ∈ w.threads, o = t.sink.owner ∧ oid ∈ t.listed :=
  mem_allClaims (fun t : SinkThread => t.sink.owner) SinkThread.listed

/-- What a sink lists is in the table, under the sink's owner. -/
theorem Published.counts_listed (hw : Published v w) (hi : w.threads[i]? = some t)
    (hm : oid ∈ t.listed) : ∃ n, w.table.counts oid = some (t.sink.owner, n) :=
  ⟨_, hw.counts.of_mem (mem_worldClaims.mpr ⟨t, mem_of_getElem? hi, rfl, hm⟩)⟩

/-- A publish of what the sink lists changes no number. -/
theorem Published.again (hw : Published v w) (hi : w.threads[i]? = some t) (hm : oid ∈ t.listed)
    {varbind : Octets} {table' : MibTable}
    (hp : w.table.publish localAddr t.sink.owner oid varbind false = .ok table') :
    table'.counts = w.table.counts := by
  obtain ⟨n, hn⟩ := hw.counts_listed hi hm
  rw [(MibTable.publish_counts hp).2.2]
  refine Function.update_eq_self_iff.mpr ?_
  rw [hn]
  rfl

theorem claims_of_listed (ho : s.thread.sink.owner = t.sink.owner)
    (hl : s.thread.listed.Perm (oid :: t.listed)) :
    s.thread.claims = (t.sink.owner, oid) ::ₘ t.claims := by
  rw [SinkThread.claims, ho, Multiset.coe_eq_coe.mpr hl]
  rfl

/-- A step of one sink keeps the agreement. -/
theorem Moves.counts (h : Moves localAddr (v i) w.table t s) (hw : Published v w)
    (hi : w.threads[i]? = some t) : Counts s.table.counts (w.after i s).1.claims := by
  have hclaims : t.claims + (w.after i s).1.claims = s.thread.claims + w.claims :=
    add_sum_set SinkThread.claims s.thread hi
  have same (hl : s.thread.listed = t.listed) : (w.after i s).1.claims = w.claims := by
    have hc : s.thread.claims = t.claims := by rw [SinkThread.claims, SinkThread.claims, hl, h.owner]
    rw [hc] at hclaims
    exact add_left_cancel hclaims
  cases h.effect with
  | keep hs hl =>
    rw [MibTable.counts_congr hs, same hl]
    exact hw.counts
  | again hm _ hp hs hl =>
    rw [MibTable.counts_congr hs, same hl, hw.again hi hm hp]
    exact hw.counts
  | overwrote _ hp hs hl =>
    rw [MibTable.counts_congr hs, same hl, MibTable.overwrite_counts hp]
    exact hw.counts
  | first _ hp hs hl =>
    obtain ⟨howner, -, hupdate⟩ := MibTable.publish_counts hp
    rw [claims_of_listed h.owner hl, Multiset.cons_add, ← Multiset.add_cons] at hclaims
    rw [MibTable.counts_congr hs, hupdate, add_left_cancel hclaims]
    convert hw.counts.claim howner using 4
    cases w.table.counts _ <;> rfl
  | @released oid hs hl =>
    have ht : t.claims = (t.sink.owner, oid) ::ₘ s.thread.claims := by
      rw [SinkThread.claims, hl, SinkThread.claims, h.owner]
      rfl
    rw [ht, Multiset.cons_add, ← Multiset.add_cons] at hclaims
    have hold := hw.counts
    rw [← add_left_cancel hclaims] at hold
    obtain ⟨n, hn⟩ := hw.counts_listed hi (show oid ∈ t.listed by rw [hl]; exact mem_cons_self)
    rw [hs, MibTable.release_counts hn]
    exact hold.release hn

/-- What is in the table after a step was there before or is outside the
system group. -/
theorem Moves.outside (h : Moves localAddr (v i) w.table t s) (hw : Published v w)
    (hi : w.threads[i]? = some t) {oid : Oid} {p : Owner × Nat} (hp : s.table.counts oid = some p) :
    systemGroup.isPrefixOf oid.arcs = false := by
  cases h.effect with
  | keep hs _ => exact hw.outside (MibTable.counts_congr hs ▸ hp)
  | again hm _ hpub hs _ =>
    rw [MibTable.counts_congr hs, hw.again hi hm hpub] at hp
    exact hw.outside hp
  | overwrote _ hw' hs _ =>
    rw [MibTable.counts_congr hs, MibTable.overwrite_counts hw'] at hp
    exact hw.outside hp
  | @first oid' _ _ _ hpub hs _ =>
    obtain ⟨-, hnew, hupdate⟩ := MibTable.publish_counts hpub
    rw [MibTable.counts_congr hs, hupdate] at hp
    rcases eq_or_ne oid oid' with rfl | hne
    · cases hold : w.table.counts oid with
      | none => exact hnew hold
      | some q => exact hw.outside hold
    · rw [Function.update_of_ne hne] at hp
      exact hw.outside hp
  | @released oid' hs hl =>
    obtain ⟨n, hn⟩ := hw.counts_listed hi (show oid' ∈ t.listed by rw [hl]; exact mem_cons_self)
    rw [hs, MibTable.release_counts hn] at hp
    rcases eq_or_ne oid oid' with rfl | hne
    · exact hw.outside hn
    · rw [Function.update_of_ne hne] at hp
      exact hw.outside hp

theorem Published.step (hw : Published v w) {w' : SinkWorld} (h : WorldStep localAddr v w w') :
    Published v w' := by
  refine ⟨h.sound hw.sound, ?_, fun hp => ?_⟩
  · cases h with
    | new owner joined =>
      rw [SinkWorld.claims, map_append, sum_append]
      exact (add_zero w.claims).symm ▸ hw.counts
    | moves hi hm => exact hm.counts hw hi
  · cases h with
    | new owner joined => exact hw.outside hp
    | moves hi hm => exact hm.outside hw hi hp

theorem published_new (v : Nat → Voucher) (objects : Std.TreeSet Oid) :
    Published v { table := { objects } } :=
  ⟨nofun, Counts.empty, fun hp => by simp [MibTable.counts] at hp⟩

theorem published_run
    (h : (sinks localAddr).Run (fun _ c => c.Vouched v) { table := { objects } } w log) :
    Published v w :=
  h.invariant (I := fun w _ => Published v w) (published_new v objects) fun hw hc hs =>
    hw.step (worldStep hw.sound hc hs)

/-- Nothing is known of the records. -/
def anyRecord : Voucher where
  renders _ _ := True
  stores _ _ := True
  carries _ := True
  next _ _ := ⟨trivial, fun _ => trivial⟩

theorem vouched_anyRecord (c : SinkCall) : c.Vouched fun _ => anyRecord := by
  cases c with
  | write => exact fun _ => ⟨trivial, fun _ => ⟨trivial, trivial⟩, fun _ => trivial⟩
  | new => trivial
  | go => trivial
  | drop => trivial

theorem published_any (h : (sinks localAddr).Run (fun _ _ => True) { table := { objects } } w log) :
    Published (fun _ => anyRecord) w :=
  published_run (h.mono fun _ c _ => vouched_anyRecord c)

theorem republish_isSome (table : MibTable) {sink : SnmpAgentSink} {entry : Nat} (record : Record)
    (h : entry < sink.published.length) : (republish localAddr table sink entry record).isSome := by
  rw [republish, isSome_map, getElem?_eq_getElem h]
  rfl

theorem SinkThread.Sound.write_isSome (ht : t.Sound u) (table : MibTable) (serving : Bool)
    (key : MetricKey) (encoded : Octets) :
    (writeMetricEvent localAddr table t.sink serving key encoded).isSome := by
  unfold writeMetricEvent
  dsimp only
  split
  · rfl
  split
  · rfl
  split
  · rfl
  split
  · rename_i hk
    obtain ⟨_, ho, -⟩ := ht.owned hk
    exact republish_isSome table _ ho.lt
  split
  · rfl
  split
  · rename_i hk
    exact republish_isSome table _ (ht.instances hk).lt
  · rfl

theorem SinkThread.Sound.go_isSome (ht : t.Sound u) (table : MibTable) (hidle : t.pc ≠ .idle)
    (hdropped : t.pc ≠ .dropped) : (t.go localAddr table).isSome := by
  unfold SinkThread.go
  split
  · exact absurd (by assumption) hidle
  · exact absurd (by assumption) hdropped
  · rename_i hpc
    split
    · rfl
    · rw [isSome_map, getElem?_eq_getElem (ht.companions hpc).1]
      rfl
  · split <;> rfl
  · rfl
  · rfl

/-- No call of a sink panics: a sink in no call takes any write, and a sink
in a call goes on. -/
theorem calls_enabled (h : (sinks localAddr).Run (fun _ _ => True) { table := { objects } } w log)
    (hi : w.threads[i]? = some t) :
    (t.pc = .idle → ∀ serving key encoded,
        ((sinks localAddr).step w (.write i serving key encoded)).isSome) ∧
      (t.pc ≠ .idle → t.pc ≠ .dropped → ((sinks localAddr).step w (.go i)).isSome) := by
  have ht := (published_any h).sound i t hi
  constructor
  · intro hpc serving key encoded
    simp only [sinks, sinkStep, hi, bind_some, if_pos hpc, isSome_map]
    exact ht.write_isSome _ _ _ _
  · intro hidle hdropped
    simp only [sinks, sinkStep, hi, bind_some, isSome_map]
    exact ht.go_isSome _ hidle hdropped

/-- The record of `1.3.6.1.9.0` with the companion `1.3.6.1.8.0`, both the
INTEGER 5. -/
def pairRecord : Octets :=
  [1, 1, 0x30, 10, 0x06, 5, 0x2b, 6, 1, 9, 0, 0x02, 1, 5,
    1, 0x30, 10, 0x06, 5, 0x2b, 6, 1, 8, 0, 0x02, 1, 5]

/-- One sink has published a pair, and takes a write of it again. Another has published the
instance of its pair, and goes on with the companion. -/
theorem calls_enabled_pair : ∃ w log,
    (sinks "127.0.0.1:1161").Run (fun _ _ => True) {} w log ∧
      w.threads[0]?.any (fun t => t.sink.owned.lookup ("a", []) = some 0) = true ∧
      w.threads[1]?.any (fun t => t.pc matches .companions 0 _) = true ∧
      (∀ serving key encoded, ((sinks "127.0.0.1:1161").step w (.write 0 serving key encoded)).isSome) ∧
      ((sinks "127.0.0.1:1161").step w (.go 1)).isSome := by
  obtain ⟨w, log, h, ⟨howned, hidle⟩, hpc⟩ := (sinks "127.0.0.1:1161").run_reaches (fun _ _ => True) {}
    [.new 7 false, .new 7 false, .write 0 true ("a", []) pairRecord, .go 0, .go 0,
      .write 1 true ("b", []) pairRecord]
    (fun w _ => (w.threads[0]?.any (fun t => t.sink.owned.lookup ("a", []) = some 0) = true ∧
        w.threads[0]?.any (fun t => t.pc = .idle) = true) ∧
      w.threads[1]?.any (fun t => t.pc matches .companions 0 _) = true) (by decide)
  obtain ⟨t₀, h₀, hidle⟩ := (any_eq_true _ _).mp hidle
  obtain ⟨t₁, h₁, hgo⟩ := (any_eq_true _ _).mp hpc
  refine ⟨w, log, h, howned, hpc, (calls_enabled h h₀).1 (of_decide_eq_true hidle),
    (calls_enabled h h₁).2 ?_ ?_⟩
  · intro e; rw [e] at hgo; cases hgo
  · intro e; rw [e] at hgo; cases hgo

theorem SinkThread.Sound.not_joined (ht : t.Sound u) (hm : oid ∈ t.listed) :
    t.sink.joined = false := by
  cases hj : t.sink.joined with
  | false => rfl
  | true =>
    exfalso
    unfold SinkThread.listed at hm
    split at hm
    · exact not_mem_nil hm
    · rename_i hpc
      rw [ht.dropping hpc hj] at hm
      exact not_mem_nil hm
    · rw [ht.joined hj] at hm
      exact not_mem_nil hm

theorem mem_slots_iff {table : MibTable} : oid ∈ table.slots ↔ ∃ p, table.counts oid = some p := by
  rw [← Std.TreeMap.isSome_getElem?_iff_mem, MibTable.counts, isSome_iff_exists]
  constructor
  · rintro ⟨slot, h⟩
    exact ⟨_, by rw [h]; rfl⟩
  · rintro ⟨p, h⟩
    obtain ⟨slot, hslot, -⟩ := map_eq_some_iff.mp h
    exact ⟨slot, hslot⟩

theorem Published.mem_slots (hw : Published v w) :
    oid ∈ w.table.slots ↔ ∃ t ∈ w.threads, t.sink.joined = false ∧ oid ∈ t.listed := by
  rw [mem_slots_iff]
  constructor
  · rintro ⟨p, hp⟩
    obtain ⟨t, ht, -, hm⟩ := mem_worldClaims.mp (hw.counts.mem hp)
    obtain ⟨i, hi⟩ := mem_iff_getElem?.mp ht
    exact ⟨t, ht, (hw.sound i t hi).not_joined hm, hm⟩
  · rintro ⟨t, ht, -, hm⟩
    exact ⟨_, hw.counts.of_mem (mem_worldClaims.mpr ⟨t, ht, rfl, hm⟩)⟩

/-- The table holds exactly the instances the sinks list, each with its owner
and the number of its listings, in every state the calls on the sinks can
reach from the agent's bind; a sink in its drop lists what it has yet to
release. With the last sink dropped the table is empty. -/
theorem slots_counted {log : List SinkEvent}
    (h : (sinks localAddr).Run (fun _ _ => True) { table := { objects } } w log) :
    (∀ oid, oid ∈ w.table.slots ↔ ∃ t ∈ w.threads, t.sink.joined = false ∧ oid ∈ t.listed) ∧
      (∀ oid slot, w.table.slots[oid]? = some slot →
        slot.publishers = (w.threads.map fun t => t.listed.count oid).sum ∧
        (∀ t ∈ w.threads, oid ∈ t.listed → t.sink.owner = slot.owner) ∧
        systemGroup.isPrefixOf oid.arcs = false) ∧
      ((∀ t ∈ w.threads, t.pc = .dropped) → w.table.slots.isEmpty) := by
  have hw := published_any h
  refine ⟨fun oid => hw.mem_slots, fun oid slot hslot => ?_, fun hall => ?_⟩
  · have hc : w.table.counts oid = some (slot.owner, slot.publishers) := by
      rw [MibTable.counts, hslot]
      rfl
    refine ⟨?_, fun t ht hm => ?_, hw.outside hc⟩
    · rw [← hw.counts.countP_key hc]
      exact countP_allClaims (fun t : SinkThread => t.sink.owner) SinkThread.listed
    · exact hw.counts.owner hc (mem_worldClaims.mpr ⟨t, ht, rfl, hm⟩)
  · refine Std.TreeMap.isEmpty_iff_forall_not_mem.mpr fun oid hoid => ?_
    obtain ⟨t, ht, -, hm⟩ := hw.mem_slots.mp hoid
    rw [SinkThread.listed, hall t ht] at hm
    exact not_mem_nil hm

end world

/-- Two sinks of one launch publish the same instance and companion, and one
of them is in its drop with the companion yet to release. -/
theorem slots_counted_halfDropped :
    ∃ w log, (sinks "127.0.0.1:1161").Run (fun _ _ => True) {} w log ∧
      (w.table.slots.toList.map (fun p => (p.1.arcs, p.2.publishers)) =
        [([1, 3, 6, 1, 8, 0], 2), ([1, 3, 6, 1, 9, 0], 1)] ∧
      (w.threads.map fun t => t.listed.length) = [1, 2]) ∧
      ∀ oid, oid ∈ w.table.slots ↔ ∃ t ∈ w.threads, t.sink.joined = false ∧ oid ∈ t.listed :=
  Machine.run_reaches_and
    [.new 7 false, .new 7 false, .write 0 true ("a", []) pairRecord, .go 0,
      .write 1 true ("b", []) pairRecord, .go 0, .go 1, .go 1, .drop 0, .go 0]
    (by decide) fun _ _ h _ => (slots_counted h).1

end Sonda.Snmp
