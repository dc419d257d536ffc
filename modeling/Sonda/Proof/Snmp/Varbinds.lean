import Sonda.Impl.Snmp.Encoder
import Sonda.Impl.Snmp.Responder
import Sonda.Proof.Snmp.Oid

/-!
# The VarBinds of instances

`instanceVarbind oid value` is the `VarBind` of an instance, however it was
written (`encodeMetric_eq`). It reads back as its name and its value
(`readOne_bindOf`, `instanceOid_bindOf`, `isCounter64_bindOf`), and a VarBind
that can be split off a record is short enough to be read (`splitVarbind_ok`).
-/

namespace Sonda.Snmp

open Framework List

/-! ## VarBinds -/

/-- The `VarBind` of a name's content octets and a value. -/
def bindOf (name : Octets) (tag : Tag) (octets : Octets) : Octets :=
  tlv .sequence (tlv .oid name ++ tlv tag octets)

/-- The `VarBind` of an instance. -/
def instanceVarbind (oid : Oid) (value : Value) : Octets := bindOf (oidBody oid) value.tag value.octets

/-- A `VarBind` short enough for the readers' lengths. -/
def Readable (name : Octets) (tag : Tag) (octets : Octets) : Prop :=
  (tlv .oid name ++ tlv tag octets).length < 4294967296

section reading

variable {name octets rest out : Octets} {tag : Tag} {a start stop : Nat}

theorem length_bindOf : (bindOf name tag octets).length = tlvLen (tlvLen name.length + tlvLen octets.length) := by
  rw [bindOf, length_tlv, length_append, length_tlv, length_tlv]

/-- The lengths inside a readable `VarBind`. -/
theorem Readable.parts (h : Readable name tag octets) :
    name.length < 4294967296 ∧ octets.length < 4294967296 := by
  rw [Readable, length_append, length_tlv, length_tlv] at h
  have h₁ := le_tlvLen name.length
  have h₂ := le_tlvLen octets.length
  omega

theorem Readable.of_length (h : (bindOf name tag octets).length < 4294967296) :
    Readable name tag octets := by
  rw [bindOf, length_tlv] at h
  exact (le_tlvLen _).trans_lt h

/-- `out[start..stop]` is `name`. -/
def Holds (out : Octets) (start stop : Nat) (name : Octets) : Prop :=
  ∃ before after, out = before ++ name ++ after ∧ start = before.length ∧
    stop = before.length + name.length

section

variable (h : Holds out start stop name)

include h

theorem Holds.append (more : Octets) : Holds (out ++ more) start stop name := by
  obtain ⟨before, after, rfl, hstart, hstop⟩ := h
  exact ⟨before, after ++ more, by simp, hstart, hstop⟩

theorem Holds.sliceOf_eq : sliceOf out start stop = name := by
  obtain ⟨before, after, rfl, rfl, rfl⟩ := h
  rw [sliceOf, ← length_append, take_left, drop_left]

theorem Holds.stop_sub : stop - start = name.length := by
  obtain ⟨before, after, -, rfl, rfl⟩ := h
  omega

theorem Holds.length_le : name.length ≤ out.length := by
  obtain ⟨before, after, rfl, -, -⟩ := h
  simp only [length_append]
  omega

end

theorem holds_drop (h : start ≤ out.length) :
    Holds out start (start + (out.drop start).length) (out.drop start) := by
  have hlen : (out.take start).length = start := length_take_of_le h
  exact ⟨out.take start, [], by rw [append_nil, take_append_drop], hlen.symm, by rw [hlen]⟩

/-- What is read from a slice of a datagram, and what is left, are slices of it. -/
theorem Holds.expect {raw : Octets} {r r' : Reader} {s : Slice} {tag : Tag}
    (h : Holds raw r.start r.stop r.octets) (he : r.expect tag = .ok (s, r')) :
    Holds raw s.start s.stop s.octets ∧ Holds raw r'.start r'.stop r'.octets := by
  obtain ⟨ls, -, happ, hs, hr⟩ := Reader.expect_ok he
  obtain ⟨before, after, hraw, hstart, -⟩ := h
  have hbefore : (before ++ tag.byte :: ls).length = s.start := by
    rw [hs, hstart, length_append, length_cons]
    omega
  have hstop : (before ++ tag.byte :: ls ++ s.octets).length = s.stop := by
    rw [length_append, hbefore, Slice.stop]
  constructor
  · refine ⟨before ++ tag.byte :: ls, r'.octets ++ after, ?_, hbefore.symm, ?_⟩
    · rw [hraw, happ]
      simp only [append_assoc]
    · rw [← hstop, length_append]
  · refine ⟨before ++ tag.byte :: ls ++ s.octets, after, ?_, ?_, ?_⟩
    · rw [hraw, happ]
      simp only [append_assoc]
    · rw [hr, hstop]
    · rw [hstop, Slice.stop, hr]

theorem expect_bindOf (h : Readable name tag octets) :
    Reader.expect ⟨a, bindOf name tag octets ++ rest⟩ .sequence =
      .ok (⟨a + 1 + lengthLen (tlv .oid name ++ tlv tag octets).length, tlv .oid name ++ tlv tag octets⟩,
        ⟨a + (bindOf name tag octets).length, rest⟩) := by
  rw [bindOf, Reader.expect_tlv h, length_tlv]

theorem readOne_bindOf (h : Readable name tag octets) :
    VarBind.readOne ⟨a, bindOf name tag octets ++ rest⟩ =
      .ok (⟨name, tag.byte, octets⟩, ⟨a + (bindOf name tag octets).length, rest⟩) := by
  obtain ⟨hname, hoctets⟩ := h.parts
  have hvalue := @Reader.rawTlv_tlv tag octets [] (a + 1 +
    lengthLen (tlv .oid name ++ tlv tag octets).length + tlvLen name.length) hoctets
  rw [append_nil] at hvalue
  simp only [VarBind.readOne, expect_bindOf h, Reader.expect_tlv hname, hvalue, bind, Except.bind]
  rfl

theorem list_bindOf (h : Readable name tag octets) :
    VarBind.list (bindOf name tag octets) = .ok [⟨name, tag.byte, octets⟩] := by
  have hone := @readOne_bindOf name octets [] tag 0 h
  rw [append_nil] at hone
  obtain ⟨k, hk⟩ : ∃ k, (bindOf name tag octets).length = k + 1 := Nat.exists_eq_add_one.mpr (by
    rw [bindOf, length_tlv, tlvLen]
    omega)
  have hne : Reader.isEmpty ⟨0, bindOf name tag octets⟩ = false := rfl
  rw [VarBind.list, hk, VarBind.readAll, Reader.new, hne, if_neg (by decide), hone]
  cases k <;> rfl

theorem nameIn_bindOf (before : Octets) (h : Readable name tag octets) :
    ∃ start stop, nameIn (before ++ bindOf name tag octets) before.length = .ok (start, stop) ∧
      Holds (before ++ bindOf name tag octets) start stop name := by
  obtain ⟨hname, -⟩ := h.parts
  have hbody := @expect_bindOf name octets [] tag before.length h
  rw [append_nil] at hbody
  have hin : nameIn (before ++ bindOf name tag octets) before.length =
      .ok (before.length + 1 + lengthLen (tlv .oid name ++ tlv tag octets).length + 1 +
        lengthLen name.length, before.length + 1 +
        lengthLen (tlv .oid name ++ tlv tag octets).length + 1 + lengthLen name.length + name.length) := by
    simp only [nameIn, drop_left, hbody, Reader.expect_tlv hname, bind, Except.bind, Slice.stop]
  refine ⟨_, _, hin, before ++ Tag.sequence.byte ::
    lengthOctets (tlv .oid name ++ tlv tag octets).length ++ Tag.oid.byte :: lengthOctets name.length,
    tlv tag octets, ?_, ?_, ?_⟩
  · simp only [bindOf, tlv, append_assoc, cons_append]
  · simp only [length_append, length_cons, length_lengthOctets]
    omega
  · simp only [length_append, length_cons, length_lengthOctets]
    omega

theorem expect_sequence_bindOf (h : Readable name tag octets) :
    (Reader.new (bindOf name tag octets)).expect .sequence =
      .ok (⟨1 + lengthLen (tlv .oid name ++ tlv tag octets).length, tlv .oid name ++ tlv tag octets⟩,
        ⟨(bindOf name tag octets).length, []⟩) := by
  have hbody := @expect_bindOf name octets [] tag 0 h
  rwa [append_nil, Nat.zero_add, Nat.zero_add] at hbody

theorem isCounter64_bindOf (h : Readable name tag octets) :
    isCounter64 (bindOf name tag octets) = decide (tag = .counter64) := by
  obtain ⟨hname, hoctets⟩ := h.parts
  have hvalue := @Reader.rawTlv_tlv tag octets [] (1 +
    lengthLen (tlv .oid name ++ tlv tag octets).length + tlvLen name.length) hoctets
  rw [append_nil] at hvalue
  rw [isCounter64, expect_sequence_bindOf h]
  simp only [Reader.expect_tlv hname, hvalue]
  cases tag <;> rfl

theorem instanceOid_bindOf (h : Readable name tag octets) {oid : Oid}
    (hoid : Oid.fromBerBody name = some oid) : instanceOid (bindOf name tag octets) = .ok oid := by
  have hname : Reader.oid ⟨1 + lengthLen (tlv .oid name ++ tlv tag octets).length,
      tlv .oid name ++ tlv tag octets⟩ = .ok (oid, ⟨1 +
        lengthLen (tlv .oid name ++ tlv tag octets).length + tlvLen name.length, tlv tag octets⟩) := by
    simp only [Reader.oid, Reader.expect_tlv h.parts.1, bind, Except.bind, hoid]
  simp only [instanceOid, expect_sequence_bindOf h, hname]

end reading

/-! ## Values -/

theorem tlv_injective {tag : Tag} {body body' : Octets} (h : tlv tag body = tlv tag body') :
    body = body' := by
  have hlen := congrArg length h
  rw [length_tlv, length_tlv] at hlen
  have hsame : body.length = body'.length := by
    rcases Nat.lt_trichotomy body.length body'.length with hlt | heq | hlt
    · exact absurd hlen (tlvLen_lt hlt).ne
    · exact heq
    · exact absurd hlen (tlvLen_lt hlt).ne'
  unfold tlv at h
  rw [hsame] at h
  exact append_cancel_left h

/-- Two `VarBind`s of one name that are the same have values of one tag. -/
theorem bindOf_tag {name octets octets' : Octets} {tag tag' : Tag}
    (h : bindOf name tag octets = bindOf name tag' octets') : tag = tag' := by
  have hvalue := append_cancel_left (tlv_injective h)
  have hbyte : tag.byte = tag'.byte := (cons.inj hvalue).1
  have hfrom := Tag.fromByte_byte tag
  rw [hbyte, Tag.fromByte_byte] at hfrom
  exact (Except.ok.inj hfrom).symm

/-! ## Lengths that do not read -/

/-- The first octet of a length that reads. -/
theorem IsLength.head_le {b : UInt8} {ls : Octets} {n : Nat} (h : IsLength (b :: ls) n) :
    b.toNat ≤ 132 := by
  cases h with
  | short h =>
    rw [toNat_ofNat_of_lt (by omega)]
    omega
  | long _ h4 =>
    rw [toNat_or_80 _ (by omega)]
    omega

/-- The length of a `Vec`, a `usize`. -/
def usizeBound : Nat := 18446744073709551616

/-- A TLV that reads has at most four length octets. -/
theorem length_of_expect_tlv {tag : Tag} {body rest : Octets} {a : Nat} {s : Slice} {r : Reader}
    (hu : body.length < usizeBound) (h : Reader.expect ⟨a, tlv tag body ++ rest⟩ tag = .ok (s, r)) :
    body.length < 4294967296 := by
  by_contra hlong
  obtain ⟨ls, hls, heq, -, -⟩ := Reader.expect_ok h
  have hcount : 5 ≤ digitCount 8 body.length := by
    by_contra hc
    have hlt : body.length < (2 ^ 8) ^ digitCount 8 body.length := lt_pow_digitCount (by decide) _
    have hle : (2 ^ 8) ^ digitCount 8 body.length ≤ (2 ^ 8) ^ 4 :=
      Nat.pow_le_pow_right (by decide) (by omega)
    omega
  have hmost : digitCount 8 body.length ≤ 8 := digitCount_le (b := 8) (by decide) hu
  simp only [tlv, lengthOctets_long (show ¬ body.length < 0x80 by omega), cons_append,
    cons.injEq, true_and] at heq
  cases ls with
  | nil => cases hls
  | cons b ls =>
    have hb : (0x80 ||| UInt8.ofNat (digitCount 8 body.length)) = b := (cons.inj heq).1
    have := hls.head_le
    rw [← hb, toNat_or_80 _ (by omega)] at this
    omega

/-- A `VarBind` that splits off a record is readable. -/
theorem splitVarbind_ok {name octets rest varbind rest' : Octets} {tag : Tag}
    (hu : (bindOf name tag octets).length < usizeBound)
    (h : splitVarbind (bindOf name tag octets ++ rest) = .ok (varbind, rest')) :
    Readable name tag octets ∧ varbind = bindOf name tag octets ∧ rest' = rest := by
  have hbody : (tlv .oid name ++ tlv tag octets).length < usizeBound := by
    rw [bindOf, length_tlv] at hu
    exact (le_tlvLen _).trans_lt hu
  cases hs : (Reader.new (bindOf name tag octets ++ rest)).expect .sequence with
  | error e =>
    rw [splitVarbind, hs] at h
    exact nomatch h
  | ok p =>
    have hread : Readable name tag octets := length_of_expect_tlv hbody (s := p.1) (r := p.2) hs
    have hexp := @expect_bindOf name octets rest tag 0 hread
    have hstop : 0 + 1 + lengthLen (tlv .oid name ++ tlv tag octets).length +
        (tlv .oid name ++ tlv tag octets).length = (bindOf name tag octets).length := by
      rw [bindOf, length_tlv, tlvLen, Nat.zero_add]
    rw [splitVarbind, Reader.new, hexp] at h
    simp only [bind, Except.bind, Slice.stop, hstop, take_left, drop_left] at h
    cases h
    exact ⟨hread, rfl, rfl⟩

/-! ## Writers -/

theorem writeCompanion_eq (companions : Octets) (column : ColumnInstance) :
    writeCompanion companions column =
      companions ++ column.indexArcs :: instanceVarbind column.oid column.value := by
  have hbody : ∀ out, column.value.write (writeOid out column.oid) = out ++
      (tlv .oid (oidBody column.oid) ++ tlv column.value.tag column.value.octets) := by
    intro out
    rw [Value.write, writeOctets_eq, writeOid_eq, append_assoc]
  rw [writeCompanion, writeTlv_eq (hbody _), append_assoc]
  rfl

/-- The companion records of `columns`. -/
def companionOctets (columns : List ColumnInstance) : Octets :=
  columns.flatMap fun column => column.indexArcs :: instanceVarbind column.oid column.value

theorem companionOctets_cons (column : ColumnInstance) (columns : List ColumnInstance) :
    companionOctets (column :: columns) =
      column.indexArcs :: (instanceVarbind column.oid column.value ++ companionOctets columns) := rfl

theorem foldl_writeCompanion (columns : List ColumnInstance) (out : Octets) :
    columns.foldl writeCompanion out = out ++ companionOctets columns := by
  induction columns generalizing out with
  | nil => simp [companionOctets]
  | cons column columns ih =>
    rw [foldl_cons, ih, writeCompanion_eq, append_assoc]
    rfl

/-- The octets of a record. -/
theorem encodeMetric_eq (series : SeriesInstance) (companions : Bool) (value : Value) :
    encodeMetric (renderOid series) companions value [] =
      [series.indexArcs, if companions then UInt8.ofNat series.columns.length else 0] ++
        (instanceVarbind series.oid value ++ companionOctets (if companions then series.columns else [])) := by
  have hbody : ∀ out : Octets, value.write (out ++ writeOid [] series.oid) = out ++
      (tlv .oid (oidBody series.oid) ++ tlv value.tag value.octets) := by
    intro out
    rw [Value.write, writeOctets_eq, writeOid_eq, nil_append, append_assoc]
  simp only [encodeMetric, renderOid, foldl_writeCompanion]
  rw [writeTlv_eq (hbody _)]
  cases companions with
  | true => simp [instanceVarbind, bindOf]
  | false => simp [instanceVarbind, bindOf, companionOctets]

end Sonda.Snmp
