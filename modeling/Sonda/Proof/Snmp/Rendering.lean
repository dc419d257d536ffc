import Sonda.Impl.Snmp.SnmpEncoder
import Sonda.Proof.Snmp.Varbinds

/-!
# What the encoder renders and writes

A value type writes one TLV, wherever it is written, or nothing
(`write_cases`, `writeLabelText_cases`). So a label column's companion is the
record of a column instance (`writeColumn_eq`), and what `render_oid` accepts
is the rendering of some instances (`renderOid_ok`): the records of the encoder
are those of `encodeMetric`. `splitRecord_record` reads one back.
-/

namespace Sonda.Snmp

open Framework List
open Sonda.Schedule (SondaError)

/-! ## Values -/

section values

variable {F : Type} (f64 : StdFloat F)

/-- A writer appends one value wherever, or fails wherever. -/
def WritesValue {ε : Type} (write : Octets → Except ε Octets) : Prop :=
  (∃ value : Value, ∀ out, write out = .ok (value.write out)) ∨ ∃ e, ∀ out, write out = .error e

theorem WritesValue.of_map {ε α : Type} (x : Except ε α) {write : Octets → α → Octets}
    (h : ∀ a, ∃ value : Value, ∀ out, write out a = value.write out) :
    WritesValue fun out => x.map (write out) := by
  cases x with
  | error e => exact .inr ⟨e, fun _ => rfl⟩
  | ok a =>
    obtain ⟨value, hvalue⟩ := h a
    exact .inl ⟨value, fun out => congrArg Except.ok (hvalue out)⟩

theorem writeU64_value {tag : Tag} (htag : tag.isValue = true) (v : Nat) :
    ∃ value : Value, ∀ out, writeU64 out tag v = value.write out := by
  refine ⟨⟨tag, unsignedSpan v, htag⟩, fun out => ?_⟩
  rw [writeU64_eq, Value.write, writeOctets_eq]

theorem writeOctets_value {tag : Tag} (htag : tag.isValue = true) (octets : Octets) :
    ∃ value : Value, ∀ out, writeOctets out tag octets = value.write out :=
  ⟨⟨tag, octets, htag⟩, fun _ => rfl⟩

/-- The octets of a double in an Opaque. -/
theorem writeOpaque_value (tagged octets : Octets) :
    ∃ value : Value, ∀ out, writeHeader out .opaqueValue (tagged.length + octets.length) ++ tagged ++
      octets = value.write out := by
  refine ⟨⟨.opaqueValue, tagged ++ octets, rfl⟩, fun out => ?_⟩
  rw [Value.write, writeOctets, length_append, append_assoc]

theorem write_cases (ty : SnmpValueType) (value : F) : WritesValue (ty.write f64 value) := by
  cases ty with
  | integer =>
    refine .of_map _ fun v => ⟨⟨.integer, signedSpan v, rfl⟩, fun out => ?_⟩
    rw [writeInteger, writeI64_eq, Value.write, writeOctets_eq]
  | counter32 | counter64 | gauge32 | unsigned32 | timeTicks => exact .of_map _ fun v => writeU64_value rfl v
  | string => exact .of_map _ fun text => writeOctets_value rfl text
  | ipAddress => exact .of_map _ fun v => writeOctets_value rfl _
  | opaqueFloat =>
    unfold SnmpValueType.write
    cases finite f64 .opaqueFloat value with
    | error e => exact .inr ⟨e, fun _ => rfl⟩
    | ok v =>
      simp only [bind, Except.bind]
      cases hs : f64.single v with
      | none => exact .inr ⟨_, fun _ => rfl⟩
      | some octets =>
        obtain ⟨written, hwritten⟩ := writeOpaque_value [0x9F, 0x78, 0x04] octets
        rw [f64.length_single v octets hs] at hwritten
        exact .inl ⟨written, fun out => congrArg Except.ok (hwritten out)⟩
  | opaqueDouble =>
    unfold SnmpValueType.write
    cases finite f64 .opaqueDouble value with
    | error e => exact .inr ⟨e, fun _ => rfl⟩
    | ok v =>
      obtain ⟨written, hwritten⟩ := writeOpaque_value [0x9F, 0x79, 0x08] (f64.toBeBytes v)
      rw [f64.length_toBeBytes v] at hwritten
      exact .inl ⟨written, fun out => congrArg Except.ok (hwritten out)⟩
  | enum labels =>
    unfold SnmpValueType.write
    cases finite f64 (.enum labels) value with
    | error e => exact .inr ⟨e, fun _ => rfl⟩
    | ok v =>
      simp only [bind, Except.bind]
      split
      · exact .inl ⟨⟨.octetString, _, rfl⟩, fun _ => rfl⟩
      · exact .inr ⟨_, fun _ => rfl⟩

theorem writeLabelText_cases (ty : Option SnmpValueType) (label text : Text) :
    WritesValue (writeLabelText f64 ty label text) := by
  unfold writeLabelText
  split
  · exact .inl ⟨⟨.octetString, text, rfl⟩, fun _ => rfl⟩
  · exact .inl ⟨⟨.octetString, text, rfl⟩, fun _ => rfl⟩
  · exact .inr ⟨_, fun _ => rfl⟩
  · rename_i ty _ _
    split
    · exact .inr ⟨_, fun _ => rfl⟩
    · rename_i value _
      split
      · exact .inr ⟨_, fun _ => rfl⟩
      · rcases write_cases f64 ty value with ⟨written, hwritten⟩ | ⟨e, herror⟩
        · exact .inl ⟨written, fun out => by simp only [hwritten]⟩
        · exact .inr ⟨⟨label, ty.name, text, e.text f64⟩, fun out => by simp only [herror]⟩

end values

/-! ## Instances -/

namespace SnmpEncoder

variable {F : Type} {std : StdText} {f64 : StdFloat F} {event : MetricEvent F}

/-- A companion is the record of a column instance, or its value is refused. -/
theorem writeColumn_eq (column : Column) (oid : Oid) (text : Text) (companions : Octets) (arcs : UInt8) :
    (∃ value : Value, writeTlvWith (companions ++ [arcs]) .sequence (writeColumn f64 column oid text) =
      (writeCompanion companions ⟨oid, arcs, value⟩, .ok ())) ∨
    ∃ e out, writeTlvWith (companions ++ [arcs]) .sequence (writeColumn f64 column oid text) =
      (out, .error e) := by
  rcases writeLabelText_cases f64 column.ty column.label text with ⟨value, hvalue⟩ | ⟨e, herror⟩
  · refine .inl ⟨value, ?_⟩
    have hbody : ∀ out, writeColumn f64 column oid text out = (value.write (writeOid out oid), .ok ()) := by
      intro out
      rw [writeColumn, hvalue]
    unfold writeCompanion writeTlv writeTlvWith
    simp only [hbody]
  · have hbody : ∀ out, writeColumn f64 column oid text out = (writeOid out oid, .error e) := by
      intro out
      rw [writeColumn, herror]
    refine .inr ⟨e, (writeTlvWith (companions ++ [arcs]) .sequence (writeColumn f64 column oid text)).1, ?_⟩
    unfold writeTlvWith
    simp only [hbody]

/-- What the loop over the columns accepts is the companions of some instances. -/
theorem renderColumns_ok {columns : List Column} : ∀ {companions companions' : Octets} {count count' : UInt8},
    renderColumns std f64 event columns companions count = .ok (companions', count') →
    ∃ instances : List ColumnInstance, instances.length ≤ columns.length ∧
      companions' = instances.foldl writeCompanion companions ∧
      count' = count + UInt8.ofNat instances.length := by
  induction columns with
  | nil =>
    intro companions companions' count count' h
    cases h
    exact ⟨[], Nat.le_refl _, rfl, (UInt8.add_zero _).symm⟩
  | cons column columns ih =>
    intro companions companions' count count' h
    unfold renderColumns at h
    split at h
    · obtain ⟨instances, hlen, hcompanions, hcount⟩ := ih h
      exact ⟨instances, hlen.trans (Nat.le_succ _), hcompanions, hcount⟩
    · rename_i text _
      split at h
      · cases h
      · rename_i oid arcs _
        rcases @writeColumn_eq F f64 column oid text companions arcs with ⟨value, hwritten⟩ | ⟨e, out, herror⟩
        · rw [hwritten] at h
          obtain ⟨instances, hlen, hcompanions, hcount⟩ := ih h
          refine ⟨⟨oid, arcs, value⟩ :: instances, Nat.succ_le_succ hlen, hcompanions, ?_⟩
          rw [hcount, length_cons, UInt8.ofNat_add, UInt8.add_assoc, UInt8.add_comm 1]
          rfl
        · rw [herror] at h
          cases h

/-- What `render_oid` accepts is the rendering of some instances. -/
theorem renderOid_ok {encoder : SnmpEncoder} {template : Template} {shared : Shared}
    (h : encoder.renderOid std f64 template event = .ok shared) :
    ∃ series : SeriesInstance, series.columns.length ≤ 255 ∧
      shared = ⟨Snmp.renderOid series, decide (series.columns ≠ [])⟩ := by
  unfold renderOid at h
  split at h
  · cases h
  · split at h
    · cases h
    · rename_i oid indexArcs _
      obtain ⟨⟨companions, count⟩, hcolumns, h⟩ := bind_ok h
      obtain ⟨instances, hlen, rfl, rfl⟩ := renderColumns_ok hcolumns
      have hle := hlen.trans encoder.columns_le
      refine ⟨⟨oid, indexArcs, instances⟩, hle, ?_⟩
      cases h
      have hcount : 0 < UInt8.ofNat instances.length ↔ instances ≠ [] := by
        rw [UInt8.lt_iff_toNat_lt, toNat_ofNat_of_lt (by omega), ← length_pos_iff]
        rfl
      simp only [UInt8.zero_add, hcount]
      rfl

end SnmpEncoder

/-! ## Records -/

/-- The companions a record's iterator gives. -/
def Companions.list : Nat → Companions → List Companion
  | 0, _ => []
  | n + 1, c =>
    match c.next with
    | none => []
    | some (companion, rest) => companion :: Companions.list n rest

/-- The `VarBind`s of a record are short enough for the readers' lengths. -/
def SeriesInstance.Short (series : SeriesInstance) (value : Value) : Prop :=
  (instanceVarbind series.oid value).length < 4294967296 ∧
    ∀ column ∈ series.columns, (instanceVarbind column.oid column.value).length < 4294967296

theorem splitVarbind_eq {oid : Oid} {value : Value} (rest : Octets)
    (h : (instanceVarbind oid value).length < 4294967296) :
    splitVarbind (instanceVarbind oid value ++ rest) = .ok (instanceVarbind oid value, rest) := by
  have hread := Readable.of_length h
  have hstop : 0 + 1 + lengthLen (tlv .oid (oidBody oid) ++ tlv value.tag value.octets).length +
      (tlv .oid (oidBody oid) ++ tlv value.tag value.octets).length = (instanceVarbind oid value).length := by
    rw [instanceVarbind, bindOf, length_tlv, tlvLen, Nat.zero_add]
  unfold splitVarbind
  rw [instanceVarbind, Reader.new, expect_bindOf hread]
  rw [instanceVarbind] at hstop
  simp only [bind, Except.bind, Slice.stop, hstop, take_left, drop_left]

theorem checkCompanions_eq {columns : List ColumnInstance} (count : UInt8)
    (h : ∀ column ∈ columns, (instanceVarbind column.oid column.value).length < 4294967296) :
    checkCompanions count columns.length (companionOctets columns) = .ok [] := by
  induction columns with
  | nil => rfl
  | cons column columns ih =>
    rw [companionOctets_cons, length_cons, checkCompanions]
    simp only [splitVarbind_eq _ (h column mem_cons_self)]
    exact ih fun c hc => h c (mem_cons_of_mem _ hc)

theorem list_companionOctets {columns : List ColumnInstance}
    (h : ∀ column ∈ columns, (instanceVarbind column.oid column.value).length < 4294967296) :
    Companions.list columns.length ⟨companionOctets columns, columns.length⟩ =
      columns.map fun column => ⟨column.indexArcs.toNat, instanceVarbind column.oid column.value⟩ := by
  induction columns with
  | nil => rfl
  | cons column columns ih =>
    have hnext : Companions.next ⟨companionOctets (column :: columns), (column :: columns).length⟩ =
        some (⟨column.indexArcs.toNat, instanceVarbind column.oid column.value⟩,
          ⟨companionOctets columns, columns.length⟩) := by
      rw [companionOctets_cons, Companions.next]
      dsimp only
      rw [if_neg (by rw [length_cons]; exact Nat.succ_ne_zero _),
        splitVarbind_eq _ (h column mem_cons_self)]
      rfl
    rw [length_cons, Companions.list, ← length_cons (a := column), hnext, map_cons,
      ← ih fun c hc => h c (mem_cons_of_mem _ hc)]

/-- A record reads back as the instance and its companions. -/
theorem splitRecord_record {series : SeriesInstance} (hlen : series.columns.length ≤ 255) (carried : Bool)
    {value : Value} (h : series.Short value) :
    ∃ record, splitRecord (encodeMetric (renderOid series) carried value []) = .ok record ∧
      record.indexArcs = series.indexArcs.toNat ∧ record.varbind = instanceVarbind series.oid value ∧
      record.companions.list record.companions.left =
        (if carried then series.columns else []).map fun column =>
          ⟨column.indexArcs.toNat, instanceVarbind column.oid column.value⟩ := by
  have hcolumns : ∀ column ∈ (if carried then series.columns else []),
      (instanceVarbind column.oid column.value).length < 4294967296 := by
    intro column hmem
    split at hmem
    · exact h.2 column hmem
    · exact absurd hmem not_mem_nil
  have hcount : (if carried then UInt8.ofNat series.columns.length else 0).toNat =
      (if carried then series.columns else []).length := by
    cases carried with
    | true => exact toNat_ofNat_of_lt (Nat.lt_succ_of_le hlen)
    | false => rfl
  refine ⟨⟨series.indexArcs.toNat, instanceVarbind series.oid value,
    ⟨companionOctets (if carried then series.columns else []),
      (if carried then series.columns else []).length⟩⟩, ?_, rfl, rfl, list_companionOctets hcolumns⟩
  rw [encodeMetric_eq]
  simp only [splitRecord, cons_append, nil_append, splitVarbind_eq _ h.1, hcount,
    checkCompanions_eq _ hcolumns, bind, Except.bind]
  rfl

end Sonda.Snmp
