import Sonda.Framework.Ordered
import Sonda.Proof.Snmp.Records

/-!
# The instances an agent serves

`SnmpAgent.instances` is the published and the system instances in the order
of their OIDs: `bulk` goes over those after its start (`ahead_eq`), and what
comes after the first of them is the rest (`after_cons`). For a bound agent
with a reachable table it holds each served instance once
(`WellServed.ordered`, `mem_instances`), as the `VarBind` of its own name
(`WellServed.stored`): `wellServed_bind`.
-/

namespace Sonda.Snmp

open Framework List

variable {settings : AgentSettings} {std : StdText} {agent : SnmpAgent} {config : SnmpAgentConfig}

/-! ## The list of instances -/

def Instance.arcs (i : Instance) : List Nat := i.oid.arcs

def publishedInstance (p : Oid × Slot) : Instance := ⟨false, p.1, p.2.varbind⟩

def SnmpAgent.systemInstance (agent : SnmpAgent) (i : SystemInstance) : Instance :=
  ⟨true, i.oid, agent.systemVarbind i⟩

/-- All instances, in the order of their OIDs. -/
def SnmpAgent.instances (agent : SnmpAgent) : List Instance :=
  mergeKeys Instance.arcs (agent.table.slots.toList.map publishedInstance)
    (agent.system.map agent.systemInstance)

/-- `bulk` passes over the instance. -/
def Instance.skipped (skipCounter64 : Bool) (i : Instance) : Bool :=
  !i.fromSystem && skipCounter64 && isCounter64 i.varbind

/-- The instances after `start` that `bulk` does not skip. -/
def SnmpAgent.after (agent : SnmpAgent) (start : List Nat) (skipCounter64 : Bool) : List Instance :=
  agent.instances.filter fun i => decide (start < i.arcs) && !i.skipped skipCounter64

/-- `emit` is called for at most `max` instances, until it returns `false`. -/
def emitEach {σ : Type} (emit : σ → Oid → Octets → σ × Bool) : Nat → List Instance → σ → σ
  | 0, _, s => s
  | _ + 1, [], s => s
  | max + 1, i :: instances, s =>
    let r := emit s i.oid i.varbind
    if r.2 then emitEach emit max instances r.1 else r.1

section bulk

variable {σ : Type} {agent : SnmpAgent} {emit : σ → Oid → Octets → σ × Bool} {skip : Bool}
  {published : List (Oid × Slot)} {system : List SystemInstance}

/-- The merge of what is left of both sources. -/
def SnmpAgent.merged (agent : SnmpAgent) (published : List (Oid × Slot)) (system : List SystemInstance) :
    List Instance :=
  mergeKeys Instance.arcs (published.map publishedInstance) (system.map agent.systemInstance)

theorem merged_nil : agent.merged [] [] = [] := by
  rw [SnmpAgent.merged, mergeKeys, map_nil, map_nil, nil_merge]

theorem nextOf_eq_none (h : agent.nextOf published system = none) :
    agent.merged published system = [] := by
  match published, system, h with
  | [], [], _ => exact merged_nil
  | _ :: _, i :: _, h =>
    simp only [SnmpAgent.nextOf] at h
    split at h <;> exact nomatch h

theorem nextOf_eq_some {published' : List (Oid × Slot)} {system' : List SystemInstance}
    {i : Instance} (h : agent.nextOf published system = some (i, published', system')) :
    agent.merged published system = i :: agent.merged published' system' ∧
      published.length + system.length = published'.length + system'.length + 1 := by
  match published, system, h with
  | p :: published, [], h =>
    obtain ⟨rfl, rfl, rfl⟩ := h
    simp [SnmpAgent.merged, mergeKeys, publishedInstance]
  | [], s :: system, h =>
    obtain ⟨rfl, rfl, rfl⟩ := h
    simp [SnmpAgent.merged, mergeKeys, SnmpAgent.systemInstance]
  | p :: published, s :: system, h =>
    simp only [SnmpAgent.nextOf] at h
    split at h
    · rename_i hlt
      obtain ⟨rfl, rfl, rfl⟩ := h
      have hle : ¬ (publishedInstance p).arcs ≤ (agent.systemInstance s).arcs := not_le.mpr hlt
      refine ⟨?_, by simp only [length_cons]; omega⟩
      rw [SnmpAgent.merged, mergeKeys, map_cons, map_cons, cons_merge_cons,
        if_neg (by simpa using hle)]
      rfl
    · rename_i hlt
      obtain ⟨rfl, rfl, rfl⟩ := h
      have hle : (publishedInstance p).arcs ≤ (agent.systemInstance s).arcs := not_lt.mp hlt
      refine ⟨?_, by simp only [length_cons]; omega⟩
      rw [SnmpAgent.merged, mergeKeys, map_cons, map_cons, cons_merge_cons,
        if_pos (by simpa using hle)]
      rfl

/-- The loop takes the merged instances one by one. -/
theorem bulkRounds_eq {fuel : Nat} : ∀ {published : List (Oid × Slot)} {system : List SystemInstance}
    {max : Nat} {s : σ}, published.length + system.length ≤ fuel →
    bulkRounds agent skip emit fuel published system max s =
      emitEach emit max ((agent.merged published system).filter fun i => !i.skipped skip) s := by
  induction fuel with
  | zero =>
    intro published system max s hfuel
    obtain rfl := length_eq_zero_iff.mp (show published.length = 0 by omega)
    obtain rfl := length_eq_zero_iff.mp (show system.length = 0 by omega)
    rw [merged_nil]
    cases max <;> rfl
  | succ fuel ih =>
    intro published system max s hfuel
    unfold bulkRounds
    cases max with
    | zero => rfl
    | succ max =>
      rw [if_neg (Nat.succ_ne_zero max)]
      cases hn : agent.nextOf published system with
      | none =>
        rw [nextOf_eq_none hn]
        rfl
      | some p =>
        obtain ⟨i, published', system'⟩ := p
        obtain ⟨hmerged, hlen⟩ := nextOf_eq_some hn
        rw [hmerged, filter_cons]
        show (if i.skipped skip = true then _ else _) = _
        have hfuel' : published'.length + system'.length ≤ fuel := by omega
        by_cases hs : i.skipped skip = true
        · rw [if_pos hs, if_neg (by simp [hs]), ih hfuel']
        · have hkeep : (!i.skipped skip) = true := by simpa using hs
          rw [if_neg hs, hkeep, if_pos rfl, emitEach]
          dsimp only
          rw [ih hfuel', Nat.add_sub_cancel]

/-- The instances `bulk` comes to. -/
def SnmpAgent.ahead (agent : SnmpAgent) (start : List Nat) (skipCounter64 : Bool) : List Instance :=
  (agent.merged (agent.table.slots.toList.filter fun p => decide (start < p.1.arcs))
    (agent.system.dropWhile fun i => decide (i.oid.arcs ≤ start))).filter fun i => !i.skipped skipCounter64

theorem bulk_eq (start : List Nat) (max : Nat) (s : σ) :
    agent.bulk start max skip emit s = emitEach emit max (agent.ahead start skip) s :=
  bulkRounds_eq (Nat.le_refl _)

/-- What the callback of `bulk` keeps holds after it. -/
theorem bulk_invariant (I : σ → Prop) (hemit : ∀ s oid varbind, I s → I (emit s oid varbind).1)
    (start : List Nat) (max : Nat) {s : σ} (hs : I s) : I (agent.bulk start max skip emit s) := by
  rw [bulk_eq]
  fun_induction emitEach emit max (agent.ahead start skip) s with
  | case1 | case2 => exact hs
  | case3 max i rest s r _ ih => exact ih (hemit s i.oid i.varbind hs)
  | case4 max i rest s r => exact hemit s i.oid i.varbind hs

end bulk

/-! ## A bound agent -/

/-- The instance `oid` is served with `varbind`: a sink has published it, or
it is of the system group. -/
def SnmpAgent.Serves (agent : SnmpAgent) (oid : Oid) (varbind : Octets) : Prop :=
  (∃ slot, agent.table.slots[oid]? = some slot ∧ slot.varbind = varbind) ∨
    ∃ i ∈ agent.system, i.oid = oid ∧ agent.systemVarbind i = varbind

theorem mem_instances {oid : Oid} {varbind : Octets} :
    (∃ i ∈ agent.instances, i.oid = oid ∧ i.varbind = varbind) ↔ agent.Serves oid varbind := by
  constructor
  · rintro ⟨i, hi, rfl, rfl⟩
    rcases mem_mergeKeys.mp hi with hi | hi
    · obtain ⟨p, hp, rfl⟩ := mem_map.mp hi
      exact .inl ⟨p.2, Std.TreeMap.mem_toList_iff_getElem?_eq_some.mp hp, rfl⟩
    · obtain ⟨s, hs, rfl⟩ := mem_map.mp hi
      exact .inr ⟨s, hs, rfl, rfl⟩
  · rintro (⟨slot, hslot, rfl⟩ | ⟨s, hs, rfl, rfl⟩)
    · have hp := Std.TreeMap.mem_toList_iff_getElem?_eq_some.mpr hslot
      exact ⟨_, mem_mergeKeys.mpr (.inl (mem_map_of_mem hp)), rfl, rfl⟩
    · exact ⟨_, mem_mergeKeys.mpr (.inr (mem_map_of_mem hs)), rfl, rfl⟩

/-- What every instance of an agent is: outside the system group if it was
published, and the `VarBind` of its own name. -/
structure SnmpAgent.WellServed (agent : SnmpAgent) : Prop where
  system : Ordered (fun i : SystemInstance => i.oid.arcs) agent.system
  group : ∀ i ∈ agent.system, systemGroup.isPrefixOf i.oid.arcs = true
  outside : ∀ {oid : Oid} {slot : Slot}, agent.table.slots[oid]? = some slot →
    systemGroup.isPrefixOf oid.arcs = false
  stored : ∀ i ∈ agent.instances, ∃ value, i.varbind = instanceVarbind i.oid value ∧
    (i.fromSystem = true → value.tag ≠ .counter64) ∧
    (i.fromSystem = false → Readable (oidBody i.oid) value.tag value.octets)

theorem ordered_slots (table : MibTable) :
    Ordered Instance.arcs (table.slots.toList.map publishedInstance) := by
  refine pairwise_map.mpr (Std.TreeMap.ordered_keys_toList.imp fun {a b} h => ?_)
  exact (compare_lt_iff_lt (a := a.1) (b := b.1)).mp h

section

variable (h : agent.WellServed)

include h

theorem SnmpAgent.WellServed.ordered_system :
    Ordered Instance.arcs (agent.system.map agent.systemInstance) :=
  pairwise_map.mpr h.system

/-- No instance is both published and of the system group. -/
theorem SnmpAgent.WellServed.disjoint : ∀ a ∈ agent.table.slots.toList.map publishedInstance,
      ∀ b ∈ agent.system.map agent.systemInstance, a.arcs ≠ b.arcs := by
  intro a ha b hb heq
  obtain ⟨p, hp, rfl⟩ := mem_map.mp ha
  obtain ⟨s, hs, rfl⟩ := mem_map.mp hb
  have hout := h.outside (Std.TreeMap.mem_toList_iff_getElem?_eq_some.mp hp)
  have hin := h.group s hs
  rw [show s.oid.arcs = p.1.arcs from heq.symm, hout] at hin
  exact Bool.false_ne_true hin

theorem SnmpAgent.WellServed.ordered : Ordered Instance.arcs agent.instances :=
  ordered_mergeKeys (ordered_slots agent.table) h.ordered_system h.disjoint

/-- Those are the instances after the start. -/
theorem ahead_eq (start : List Nat) (skip : Bool) :
    agent.ahead start skip = agent.after start skip := by
  have hpub : (agent.table.slots.toList.filter fun p => decide (start < p.1.arcs)).map publishedInstance =
      (agent.table.slots.toList.map publishedInstance).filter fun i => decide (start < i.arcs) := by
    rw [filter_map]
    rfl
  have hsys : (agent.system.dropWhile fun i => decide (i.oid.arcs ≤ start)).map agent.systemInstance =
      (agent.system.map agent.systemInstance).filter fun i => decide (start < i.arcs) := by
    rw [dropWhile_eq_filter h.system, filter_map]
    rfl
  rw [SnmpAgent.ahead, SnmpAgent.merged, hpub, hsys,
    mergeKeys_filter (ordered_slots agent.table) h.ordered_system h.disjoint, filter_filter,
    SnmpAgent.after, SnmpAgent.instances]
  exact filter_congr fun i _ => Bool.and_comm _ _

/-- What comes after the first instance after a start is the rest. -/
theorem after_cons {start : List Nat} {skip : Bool} {i : Instance}
    {rest : List Instance} (hs : agent.after start skip = i :: rest) :
    agent.after i.arcs skip = rest :=
  filter_after_head h.ordered hs

end

/-! ## The system group -/

theorem arcs_systemInstances (settings : AgentSettings) :
    (systemInstances settings).map (fun i => i.oid.arcs) =
      [1, 2, 3, 4, 5, 6, 7].map fun k => systemGroup ++ [k, 0] := rfl

/-- The encoded values of the system group, none of them a `Counter64`. -/
theorem systemValues_tlv {system : SystemSettings} {k : Nat} {encoded : Octets}
    (h : (k, some encoded) ∈ systemValues system) :
    ∃ value : Value, encoded = tlv value.tag value.octets ∧ value.tag ≠ .counter64 := by
  simp only [systemValues, mem_cons, Prod.mk.injEq, Option.some.injEq, not_mem_nil,
    or_false, reduceCtorEq, and_false, false_or] at h
  rcases h with ⟨-, rfl⟩ | ⟨-, rfl⟩ | ⟨-, rfl⟩ | ⟨-, rfl⟩ | ⟨-, rfl⟩ | ⟨-, rfl⟩
  · exact ⟨⟨.octetString, _, rfl⟩, writeOctets_eq [] _ _, nofun⟩
  · exact ⟨⟨.oid, _, rfl⟩, writeOid_eq [] _, nofun⟩
  · exact ⟨⟨.octetString, _, rfl⟩, writeOctets_eq [] _ _, nofun⟩
  · exact ⟨⟨.octetString, _, rfl⟩, writeOctets_eq [] _ _, nofun⟩
  · exact ⟨⟨.octetString, _, rfl⟩, writeOctets_eq [] _ _, nofun⟩
  · exact ⟨⟨.integer, _, rfl⟩, writeI64_eq [] _ _, nofun⟩

theorem systemVarbind_stored {i : SystemInstance} (hi : i ∈ systemInstances settings)
    (agent : SnmpAgent) :
    ∃ value, agent.systemVarbind i = instanceVarbind i.oid value ∧ value.tag ≠ .counter64 := by
  obtain ⟨⟨k, encoded⟩, hp, hmap⟩ := mem_filterMap.mp hi
  obtain ⟨oid, -, rfl⟩ := Option.map_eq_some_iff.mp hmap
  cases encoded with
  | none =>
    have hbody : ∀ out, writeTimeticks (writeOid out oid) agent.uptimeTicks = out ++
        (tlv .oid (oidBody oid) ++ tlv .timeTicks (unsignedSpan agent.uptimeTicks)) := by
      intro out
      rw [writeTimeticks, writeU64_eq, writeOid_eq, append_assoc]
    exact ⟨⟨.timeTicks, _, rfl⟩, writeTlv_eq (hbody _), nofun⟩
  | some encoded =>
    obtain ⟨value, rfl, htag⟩ := systemValues_tlv hp
    exact ⟨value, writeVarbind_eq [] oid _, htag⟩

/-- What settings that were accepted are. -/
structure AgentSettings.Accepted (settings : AgentSettings) : Prop where
  minSize : minMaxMessageSize ≤ settings.maxMessageSize
  maxSize : settings.maxMessageSize ≤ maxMaxMessageSize
  users : ∀ user ∈ settings.users, user.name.length ≤ maxUserName
  engineId : ∀ id, settings.engineId = some id → id.length ≤ maxEngineId

theorem checkUser_ok {user : UsmUser} (h : checkUser std user = .ok ()) :
    user.name.length ≤ maxUserName := by
  by_contra hlong
  have hbad : (user.name.isEmpty || decide (maxUserName < user.name.length)) = true := by
    rw [decide_eq_true (Nat.not_le.mp hlong), Bool.or_true]
  unfold checkUser at h
  rw [if_pos hbad] at h
  exact nomatch h

theorem resolvedUsers_ok {users : List UsmUser} (h : resolvedUsers std config = .ok users) :
    ∀ user ∈ users, user.name.length ≤ maxUserName := by
  obtain ⟨_, hchecked, h⟩ := bind_ok h
  split at h
  · exact nomatch h
  · cases h
    exact fun user huser => checkUser_ok (forM_ok hchecked user huser)

theorem parseEngineId_ok {text : Text} {id : Octets} (h : parseEngineId std text = .ok id) :
    id.length ≤ maxEngineId := by
  obtain ⟨-, h⟩ := check_ok h
  obtain ⟨hrange, h⟩ := check_ok h
  cases h
  simp only [Bool.or_eq_true, decide_eq_true_eq, not_or] at hrange
  exact Nat.not_lt.mp hrange.2

theorem settings_ok (h : config.settings std = .ok settings) : settings.Accepted := by
  unfold SnmpAgentConfig.settings at h
  split at h
  · exact nomatch h
  obtain ⟨_, hsize, h⟩ := bind_ok h
  obtain ⟨_, -, h⟩ := bind_ok h
  obtain ⟨_, -, h⟩ := bind_ok h
  obtain ⟨users, husers, h⟩ := bind_ok h
  obtain ⟨-, h⟩ := check_ok h
  obtain ⟨engineId, hengine, h⟩ := bind_ok h
  cases h
  obtain ⟨hrange, -⟩ := check_ok hsize
  simp only [Bool.or_eq_true, decide_eq_true_eq, not_or] at hrange
  refine ⟨Nat.not_lt.mp hrange.1, Nat.not_lt.mp hrange.2, resolvedUsers_ok husers, fun id hid => ?_⟩
  subst hid
  cases htext : config.engineId with
  | none =>
    rw [htext] at hengine
    exact nomatch hengine
  | some text =>
    rw [htext] at hengine
    obtain ⟨id', hid, h⟩ := bind_ok hengine
    obtain rfl := Option.some.inj (Except.ok.inj h)
    exact parseEngineId_ok hid

/-- A bound agent with a reachable table. -/
theorem wellServed_bind {table : MibTable} (h : Reachable settings table) (crypto : Crypto)
    (bound : Bound) (uptimeMillis : Nat) (counters : Counter → Nat) :
    (SnmpAgent.bind crypto settings bound table uptimeMillis counters).WellServed where
  system := by
    have hpairs : ((systemInstances settings).map fun i => i.oid.arcs).Pairwise (· < ·) := by
      rw [arcs_systemInstances]
      decide
    exact pairwise_map.mp hpairs
  group := by
    intro i hi
    have hmem : i.oid.arcs ∈ (systemInstances settings).map fun i => i.oid.arcs :=
      mem_map_of_mem hi
    rw [arcs_systemInstances] at hmem
    obtain ⟨k, -, hk⟩ := mem_map.mp hmem
    rw [← hk]
    rfl
  outside hslot := (h.slot hslot).2
  stored := by
    intro i hi
    rcases mem_mergeKeys.mp hi with hi | hi
    · obtain ⟨p, hp, rfl⟩ := mem_map.mp hi
      obtain ⟨⟨value, hvalue, hread⟩, -⟩ := h.slot (Std.TreeMap.mem_toList_iff_getElem?_eq_some.mp hp)
      exact ⟨value, hvalue, nofun, fun _ => hread⟩
    · obtain ⟨s, hs, rfl⟩ := mem_map.mp hi
      obtain ⟨value, hvalue, htag⟩ := systemVarbind_stored hs
        (SnmpAgent.bind crypto settings bound table uptimeMillis counters)
      exact ⟨value, hvalue, (fun _ => htag), nofun⟩

/-! ## An agent with one published instance -/

/-- A standard library that reads every address as `127.0.0.1:1161`. -/
def loopback : StdText := ⟨fun _ => some ⟨.v4 [127, 0, 0, 1], 1161⟩, fun _ => ""⟩

/-- Primitives that do nothing. -/
def identityCrypto : Crypto := ⟨fun _ _ => [], fun _ _ _ => [], fun _ _ _ _ data => data, fun _ _ _ _ _ => rfl⟩

/-- An agent of the community `public` that serves v1 and v2c. -/
def publicConfig : SnmpAgentConfig where
  listen := []
  community := [0x70, 0x75, 0x62, 0x6c, 0x69, 0x63]
  maxMessageSize := 1472
  system := ⟨[0x73], [0x64], [], [], [0x31, 0x2e, 0x33], 72⟩
  versions := [.v2c, .v1]
  users := []
  engineId := none

def publicSettings : AgentSettings where
  listen := ⟨.v4 [127, 0, 0, 1], 1161⟩
  community := [0x70, 0x75, 0x62, 0x6c, 0x69, 0x63]
  maxMessageSize := 1472
  system := ⟨[0x73], [0x64], [], [], ⟨[1, 3], by decide⟩, 72⟩
  versions := [.v1, .v2c]
  users := []
  engineId := none

theorem publicConfig_settings : publicConfig.settings loopback = .ok publicSettings := by decide

deriving instance DecidableEq for SinkCall

/-- The series `a` is the Counter64 7 at `1.3.6.1.9.0`. -/
def counterSeries (_ : Nat) (_ : MetricKey) : SeriesInstance := ⟨⟨[1, 3, 6, 1, 9, 0], by decide⟩, 1, []⟩

def counterCalls : List SinkCall :=
  [.new 7 false, .write 0 true ("a", []) (encodeMetric (renderOid (counterSeries 0 ("a", []))) false
    ⟨.counter64, [7], rfl⟩ []), .go 0]

theorem encoded_counterCalls {c : SinkCall} (h : c ∈ counterCalls) : c.Encoded counterSeries := by
  simp only [counterCalls, mem_cons, not_mem_nil, or_false] at h
  rcases h with rfl | rfl | rfl
  · trivial
  · exact ⟨by decide, false, ⟨.counter64, [7], rfl⟩, rfl⟩
  · trivial

theorem reachable_counter : ∃ table, Reachable publicSettings table ∧
    table.slots.toList.map (fun p => p.1.arcs) = [[1, 3, 6, 1, 9, 0]] := by
  obtain ⟨w, log, hrun, hslots⟩ := (sinks "127.0.0.1:1161").run_reaches (fun _ c => c ∈ counterCalls)
    { table := bindTable publicSettings } counterCalls
    (fun w _ => w.table.slots.toList.map (fun p => p.1.arcs) = [[1, 3, 6, 1, 9, 0]]) (by decide)
  exact ⟨w.table, ⟨_, counterSeries, w, log, hrun.mono fun _ _ hc => encoded_counterCalls hc, rfl⟩, hslots⟩

end Sonda.Snmp
