import Sonda.Proof.Snmp.Publishers
import Sonda.Proof.Snmp.Varbinds

/-!
# What a table serves

`Reachable settings table`: a table that sinks make of an agent's with the
encoder's records. Each of its instances is outside the system group and holds
the `VarBind` of its own name (`Reachable.slot`).
-/

namespace Sonda.Snmp

open Framework

variable {table table' : MibTable} {oid : Oid} {varbind : Octets}
  {series : Nat → MetricKey → SeriesInstance} {localAddr : String} {value : Value}

/-! ## The encoder's records -/

/-- A `VarBind` of the instance `oid` that can be read. -/
def Stored (oid : Oid) (varbind : Octets) : Prop :=
  ∃ value : Value, varbind = instanceVarbind oid value ∧ Readable (oidBody oid) value.tag value.octets

/-- The companion records of some columns. -/
def Carried (c : Companions) : Prop :=
  c.rest.length < usizeBound ∧ ∃ columns, c.rest = companionOctets columns

theorem Stored.instanceOid_eq {oid oid' : Oid} (h : Stored oid varbind)
    (h' : instanceOid varbind = .ok oid') : oid' = oid := by
  obtain ⟨value, rfl, hread⟩ := h
  rw [instanceVarbind, instanceOid_bindOf hread (fromBerBody_oidBody oid)] at h'
  exact (Except.ok.inj h').symm

theorem splitVarbind_instance {rest varbind rest' : Octets}
    (hu : (instanceVarbind oid value).length < usizeBound)
    (h : splitVarbind (instanceVarbind oid value ++ rest) = .ok (varbind, rest')) :
    Stored oid varbind ∧ rest' = rest := by
  obtain ⟨hread, rfl, rfl⟩ := splitVarbind_ok hu h
  exact ⟨⟨value, rfl, hread⟩, rfl⟩

theorem Carried.next {c rest : Companions} {companion : Companion} (h : Carried c)
    (hn : c.next = some (companion, rest)) :
    Carried rest ∧ ∃ oid, Stored oid companion.varbind := by
  obtain ⟨hu, columns, hc⟩ := h
  unfold Companions.next at hn
  split at hn
  · exact nomatch hn
  cases columns with
  | nil =>
    rw [hc] at hn
    exact nomatch hn
  | cons column columns =>
    rw [companionOctets_cons] at hc
    rw [hc, List.length_cons, List.length_append] at hu
    rw [hc] at hn
    dsimp only at hn
    split at hn
    · rename_i hs
      obtain ⟨hstored, rfl⟩ := splitVarbind_instance (by omega) hs
      cases hn
      exact ⟨⟨by dsimp only; omega, columns, rfl⟩, column.oid, hstored⟩
    · exact nomatch hn

/-- The records of an encoder whose series render to `series`. -/
def encoderRecords (series : MetricKey → SeriesInstance) : Voucher where
  renders key oid := oid = (series key).oid
  stores := Stored
  carries := Carried
  next h hn := by
    obtain ⟨hrest, _, hstored⟩ := h.next hn
    exact ⟨hrest, fun ho => hstored.instanceOid_eq ho ▸ hstored⟩

theorem encoderRecords_vouches {series : MetricKey → SeriesInstance} {key : MetricKey}
    {companions : Bool}
    (hu : (encodeMetric (renderOid (series key)) companions value []).length < usizeBound) :
    (encoderRecords series).Vouches key (encodeMetric (renderOid (series key)) companions value []) := by
  intro record hr
  rw [encodeMetric_eq] at hu hr
  simp only [List.length_append, List.length_cons, List.length_nil] at hu
  simp only [splitRecord, List.cons_append, List.nil_append] at hr
  split at hr
  · exact nomatch hr
  rename_i varbind rest hs
  obtain ⟨hstored, rfl⟩ := splitVarbind_instance (by omega) hs
  simp only [bind, Except.bind] at hr
  split at hr
  · exact nomatch hr
  split at hr
  · exact nomatch hr
  cases hr
  refine ⟨⟨by dsimp only; omega, _, rfl⟩, fun ho => ?_, fun hoid => ?_⟩
  · obtain rfl := hstored.instanceOid_eq ho
    exact ⟨rfl, hstored⟩
  · rw [show _ = (series key).oid from hoid]
    exact hstored

/-! ## Reachable tables -/

/-- A write is of a record of the sink's encoder. -/
def SinkCall.Encoded (series : Nat → MetricKey → SeriesInstance) : SinkCall → Prop
  | .write i _ key encoded => encoded.length < usizeBound ∧
      ∃ companions value, encoded = encodeMetric (renderOid (series i key)) companions value []
  | _ => True

/-- Sinks make `table` of the agent's with the records of their encoders, each
of which renders its series to some instances. -/
def Reachable (settings : AgentSettings) (table : MibTable) : Prop :=
  ∃ localAddr series w log, (sinks localAddr).Run (fun _ c => c.Encoded series)
    { table := bindTable settings } w log ∧ w.table = table

theorem SinkCall.Encoded.vouched {c : SinkCall} (h : c.Encoded series) :
    c.Vouched fun i => encoderRecords (series i) := by
  cases c with
  | write i serving key encoded =>
    obtain ⟨hu, companions, value, rfl⟩ := h
    exact encoderRecords_vouches hu
  | new => trivial
  | go => trivial
  | drop => trivial

/-- Every instance of the table is stored under its own name. -/
def MibTable.Named (table : MibTable) : Prop :=
  ∀ (oid : Oid) (slot : Slot), table.slots[oid]? = some slot → Stored oid slot.varbind

theorem MibTable.Named.congr (h : table.Named) (hs : table'.slots = table.slots) : table'.Named := by
  intro oid slot hslot
  rw [hs] at hslot
  exact h oid slot hslot

/-- An instance stored in a named table. -/
theorem MibTable.Named.insert {table : MibTable} {slot : Slot} (h : table.Named)
    (hs : Stored oid slot.varbind) :
    MibTable.Named { table with slots := table.slots.insert oid slot } := by
  intro oid' slot' hslot
  rw [Std.TreeMap.getElem?_insert] at hslot
  split at hslot
  · rename_i heq
    obtain rfl := compare_eq_iff_eq.mp heq
    cases hslot
    exact hs
  · exact h oid' slot' hslot

theorem MibTable.Named.publish {owner : Owner} {first : Bool} (h : table.Named)
    (hs : Stored oid varbind) (hp : table.publish localAddr owner oid varbind first = .ok table') :
    table'.Named := by
  unfold MibTable.publish at hp
  split at hp
  · split at hp
    · exact nomatch hp
    · cases hp
      exact h.insert hs
  · split at hp
    · exact nomatch hp
    · cases hp
      exact h.insert hs

theorem MibTable.Named.overwrite (h : table.Named) (hs : Stored oid varbind)
    (hp : table.overwrite oid varbind = some table') : table'.Named := by
  unfold MibTable.overwrite at hp
  split at hp
  · cases hp
    exact h.insert hs
  · exact nomatch hp

theorem MibTable.Named.release {table : MibTable} (h : table.Named) (owner : Owner) (oid : Oid) :
    (table.release owner oid).Named := by
  unfold MibTable.release
  split
  · rename_i slot hslot
    dsimp only
    split
    · split
      · intro oid' slot' hslot'
        rw [Std.TreeMap.getElem?_erase] at hslot'
        split at hslot'
        · exact nomatch hslot'
        · exact h oid' slot' hslot'
      · exact h.insert (h oid slot hslot)
    · exact h
  · exact h

theorem WorldStep.named {w w' : SinkWorld}
    (h : WorldStep localAddr (fun i => encoderRecords (series i)) w w') (hw : w.table.Named) :
    w'.table.Named := by
  cases h with
  | new owner joined => exact hw
  | moves hi hm =>
    cases hm.effect with
    | keep hs hl => exact hw.congr hs
    | again _ hv hp hs | first hv hp hs => exact (hw.publish hv hp).congr hs
    | overwrote hv hp hs hl => exact (hw.overwrite hv hp).congr hs
    | released hs hl => exact (hw.release _ _).congr (congrArg MibTable.slots hs)

/-- The instances of a reachable table. -/
theorem Reachable.slot {settings : AgentSettings} {table : MibTable} (h : Reachable settings table)
    {slot : Slot} (hslot : table.slots[oid]? = some slot) :
    Stored oid slot.varbind ∧ systemGroup.isPrefixOf oid.arcs = false := by
  obtain ⟨localAddr, series, w, log, hrun, rfl⟩ := h
  have hrun := hrun.mono fun _ _ hc => hc.vouched
  have hinv := hrun.invariant
    (I := fun w _ => Published (fun i => encoderRecords (series i)) w ∧ w.table.Named)
    ⟨published_new _ _, fun oid slot hs => by simp at hs⟩
    fun hw hc hs => ⟨hw.1.step (worldStep hw.1.sound hc hs), (worldStep hw.1.sound hc hs).named hw.2⟩
  refine ⟨hinv.2 oid slot hslot, hinv.1.outside (p := (slot.owner, slot.publishers)) ?_⟩
  rw [MibTable.counts, hslot]
  rfl

end Sonda.Snmp
