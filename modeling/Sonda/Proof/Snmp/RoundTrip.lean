import Sonda.Proof.Snmp.Envelopes
import Sonda.Proof.Snmp.Varbinds

/-!
# Messages read back

What `writeMessage` and `writeVarbind` append is read back whole by
`Message.decode` and `VarBind.list`: `pduFields_eq` for the fields of a PDU,
`readAll_binds` for its varbinds, `decode_communityOctets` for a message, and
`writeMessage_roundTrip` for all of it. `MinimalLength` is the one form of a
length that `writeTlv` patches in.
-/

namespace Sonda.Snmp

open Framework List
open V3 (intOctets length_intOctets)

/-! ## Fields -/

/-- The values of an `i64`. -/
def IsI64 (v : Int) : Prop := -9223372036854775808 ≤ v ∧ v < 9223372036854775808

theorem i64_intOctets {v : Int} (h : IsI64 v) (a : Nat) (rest : Octets) :
    Reader.i64 ⟨a, intOctets v ++ rest⟩ .integer = .ok (v, ⟨a + i64Len v, rest⟩) :=
  Reader.i64_tlv h.1 h.2

/-- A TLV at the end. -/
theorem expect_last {tag : Tag} {body : Octets} (h : body.length < 4294967296) (a : Nat) :
    Reader.expect ⟨a, tlv tag body⟩ tag =
      .ok (⟨a + 1 + lengthLen body.length, body⟩, ⟨a + tlvLen body.length, []⟩) := by
  have hread := @Reader.expect_tlv tag body [] a h
  rwa [append_nil] at hread

theorem pduFields_eq {id status index : Int} (hid : IsI64 id) (hstatus : IsI64 status)
    (hindex : IsI64 index) {varbinds : Octets} (hlen : varbinds.length < 4294967296) (version : Int)
    (community : Octets) (pdu : Tag) (a : Nat) :
    pduFields version community pdu
        ⟨a, intOctets id ++ (intOctets status ++ (intOctets index ++ tlv .sequence varbinds))⟩ =
      .ok ⟨version, community, pdu, id, status, index, varbinds⟩ := by
  unfold pduFields
  simp only [i64_intOctets hid, i64_intOctets hstatus, i64_intOctets hindex, expect_last hlen, bind,
    Except.bind]
  rfl

/-- A message of the community-based versions is read back. -/
theorem decode_communityOctets {version : Int} (hversion : version = 0 ∨ version = 1) {community : Octets}
    {pdu : Tag} (hpdu : pdu.isPdu = true) {id status index : Int} (hid : IsI64 id)
    (hstatus : IsI64 status) (hindex : IsI64 index) {varbinds : Octets}
    (hlen : (communityOctets version community (pduOctets pdu id status index varbinds)).length <
      4294967296) :
    Message.decode (communityOctets version community (pduOctets pdu id status index varbinds)) =
      .ok ⟨version, community, pdu, id, status, index, varbinds⟩ := by
  have hv : IsI64 version := by
    unfold IsI64
    omega
  have hrange : ¬ (version < 0 ∨ 1 < version) := by omega
  unfold communityOctets pduOctets at hlen ⊢
  rw [length_tlv] at hlen
  have hbody := (le_tlvLen _).trans_lt hlen
  have hparts := hbody
  simp only [length_append, length_tlv] at hparts
  have hcommunity := le_tlvLen community.length
  have hfields := le_tlvLen ((intOctets id).length + ((intOctets status).length +
    ((intOctets index).length + tlvLen varbinds.length)))
  have hvarbinds := le_tlvLen varbinds.length
  have hpduBody : (intOctets id ++ (intOctets status ++ (intOctets index ++
      tlv .sequence varbinds))).length < 4294967296 := by
    simp only [length_append, length_tlv]
    omega
  have htlv := fun a => @Reader.tlv_tlv pdu _ [] a hpduBody
  simp only [append_nil] at htlv
  unfold Message.decode
  simp only [Reader.new, expect_last hbody, i64_intOctets hv,
    Reader.expect_tlv (show community.length < 4294967296 by omega), htlv, bind, Except.bind, hpdu,
    if_neg hrange, pduFields_eq hid hstatus hindex (show varbinds.length < 4294967296 by omega)]
  rfl

/-! ## Varbinds -/

/-- A varbind to be written: a name, and the tag and the content of a value. -/
structure EncodedVar where
  oid : Oid
  tag : Tag
  octets : Octets

variable (vars : List EncodedVar)

/-- The `VarBind`s of a list, one after the other. -/
def EncodedVar.binds : Octets :=
  (vars.map fun v => bindOf (oidBody v.oid) v.tag v.octets).flatten

/-- What `VarBind.list` reads of a varbind. -/
def EncodedVar.read (v : EncodedVar) : VarBind := ⟨oidBody v.oid, v.tag.byte, v.octets⟩

open EncodedVar (binds read)

def writeVarbinds (out : Octets) : Octets :=
  vars.foldl (fun out v => writeVarbind out v.oid (writeOctets [] v.tag v.octets)) out

theorem writeVarbinds_eq (out : Octets) : writeVarbinds vars out = out ++ binds vars := by
  induction vars generalizing out with
  | nil => exact (append_nil out).symm
  | cons v vars ih =>
    have hv : writeVarbind out v.oid (writeOctets [] v.tag v.octets) =
        out ++ bindOf (oidBody v.oid) v.tag v.octets := by
      rw [writeVarbind_eq, writeOctets_eq]
      rfl
    show writeVarbinds vars (writeVarbind out v.oid (writeOctets [] v.tag v.octets)) = _
    rw [ih, hv, append_assoc]
    rfl

theorem readAll_binds : ∀ {fuel a : Nat}, (binds vars).length ≤ fuel →
      (binds vars).length < 4294967296 →
      VarBind.readAll fuel ⟨a, binds vars⟩ = .ok (vars.map read) := by
  induction vars with
  | nil =>
    intro fuel a _ _
    cases fuel <;> rfl
  | cons v vars ih =>
    intro fuel a hfuel hlen
    have happ : binds (v :: vars) =
        bindOf (oidBody v.oid) v.tag v.octets ++ binds vars := rfl
    rw [happ] at hfuel hlen ⊢
    rw [length_append] at hfuel hlen
    have hpos : 0 < (bindOf (oidBody v.oid) v.tag v.octets).length := by
      rw [bindOf, length_tlv, tlvLen]
      omega
    cases fuel with
    | zero => omega
    | succ fuel =>
      have hone := @readOne_bindOf (oidBody v.oid) v.octets (binds vars) v.tag a
        (.of_length (by omega))
      have hne : Reader.isEmpty ⟨a, bindOf (oidBody v.oid) v.tag v.octets ++ binds vars⟩ =
          false := rfl
      rw [VarBind.readAll, hne, if_neg Bool.false_ne_true, hone]
      simp only [bind, Except.bind]
      rw [ih (by omega) (by omega)]
      rfl

/-! ## Messages -/

/-- The one octet of a length below 128, or the number of its digits in base
256 and the digits, with no more of them than it needs. -/
def MinimalLength (n : Nat) (ls : Octets) : Prop :=
  (n < 128 ∧ ls = [UInt8.ofNat n]) ∨
    ∃ k, ls = (0x80 ||| UInt8.ofNat (k + 1)) :: beOctets (k + 1) n ∧ 128 ≤ n ∧ 256 ^ k ≤ n ∧
      n < 256 ^ (k + 1)

theorem minimalLength_lengthOctets (n : Nat) : MinimalLength n (lengthOctets n) := by
  by_cases hs : n < 0x80
  · exact .inl ⟨hs, lengthOctets_short hs⟩
  · obtain ⟨k, hk⟩ := Nat.exists_eq_add_of_le' (digitCount_pos hs)
    have hlow := pow_digitCount_le (b := 8) (n := n) (by decide) (by omega)
    have hhigh := lt_pow_digitCount (b := 8) (by decide) n
    rw [hk] at hlow hhigh
    exact .inr ⟨k, by rw [lengthOctets_long hs, hk], by omega, hlow, hhigh⟩

/-- What is written is read back, whatever was in the buffer before; its
length is the one predicted; and a TLV that is written before its length is
known is a tag, the minimal length and the body. -/
theorem writeMessage_roundTrip (out : Octets) :
    (∀ (version : Int) (community : Octets) (pdu : Tag) (id status index : Int) (vars : List EncodedVar),
      (version = 0 ∨ version = 1) → pdu.isPdu = true → IsI64 id → IsI64 status → IsI64 index →
      messageLen version community id status index (writeVarbinds vars []).length < 4294967296 →
      ∃ appended message,
        writeMessage out version community pdu id status index
          (fun out => (writeVarbinds vars out, ())) = (out ++ appended, ()) ∧
        appended.length = messageLen version community id status index (writeVarbinds vars []).length ∧
        Message.decode appended = .ok message ∧
        message.version = version ∧ message.community = community ∧ message.pdu = pdu ∧
        message.requestId = id ∧ message.errorStatus = status ∧ message.errorIndex = index ∧
        VarBind.list message.varbinds = .ok (vars.map read) ∧
        ∀ v ∈ vars, Oid.fromBerBody v.read.oid = some v.oid) ∧
    ∀ (tag : Tag) (content : Octets) (body : Octets → Octets), (∀ out, body out = out ++ content) →
      ∃ ls, MinimalLength content.length ls ∧ writeTlv out tag body = out ++ tag.byte :: ls ++ content := by
  constructor
  · intro version community pdu id status index vars hversion hpdu hid hstatus hindex hlen
    have hbinds : writeVarbinds vars [] = binds vars := writeVarbinds_eq vars []
    have hwritten : ∀ out, (writeVarbinds vars out, ()) = (out ++ binds vars, ()) :=
      fun out => by rw [writeVarbinds_eq]
    have hmessage : (communityOctets version community (pduOctets pdu id status index
        (binds vars))).length =
        messageLen version community id status index (binds vars).length := by
      rw [communityOctets, length_tlv, length_append, length_append, length_intOctets,
        length_tlv, length_pduOctets, messageLen, ← Nat.add_assoc]
    rw [hbinds] at hlen ⊢
    refine ⟨_, _, writeMessage_eq hwritten out version community pdu id status index, hmessage,
      decode_communityOctets hversion hpdu hid hstatus hindex (hmessage ▸ hlen), rfl, rfl, rfl, rfl,
      rfl, rfl, readAll_binds vars (Nat.le_refl _) ?_, fun v _ => fromBerBody_oidBody v.oid⟩
    have hle := (Envelope.community version community).le_len id status index
      (binds vars).length
    exact hle.trans_lt hlen
  · intro tag content body hbody
    exact ⟨lengthOctets content.length, minimalLength_lengthOctets _, by
      rw [writeTlv_eq (hbody _), tlv, append_assoc, cons_append]⟩

/-- A response with a counter and a text of 200 octets, after an octet that is in the buffer. -/
theorem writeMessage_roundTrip_text :
    let vars : List EncodedVar := [⟨⟨[1, 3, 6, 1, 9, 0], by decide⟩, .counter64, [7]⟩,
      ⟨⟨[1, 3, 6, 1, 8, 0], by decide⟩, .octetString, replicate 200 0x61⟩]
    ∃ appended message,
      writeMessage [0xff] 1 [0x70] .response 7 0 0 (fun out => (writeVarbinds vars out, ())) =
        ([0xff] ++ appended, ()) ∧ Message.decode appended = .ok message ∧ message.requestId = 7 ∧
      VarBind.list message.varbinds =
        .ok [⟨[0x2b, 6, 1, 9, 0], 0x46, [7]⟩, ⟨[0x2b, 6, 1, 8, 0], 0x04, replicate 200 0x61⟩] := by
  obtain ⟨appended, message, hwritten, -, hdecode, -, -, -, hid, -, -, hvars, -⟩ :=
    (writeMessage_roundTrip [0xff]).1 1 [0x70] .response 7 0 0
      [⟨⟨[1, 3, 6, 1, 9, 0], by decide⟩, .counter64, [7]⟩,
        ⟨⟨[1, 3, 6, 1, 8, 0], by decide⟩, .octetString, replicate 200 0x61⟩] (.inr rfl) rfl
      (by unfold IsI64; decide) (by unfold IsI64; decide) (by unfold IsI64; decide) (by decide +kernel)
  exact ⟨appended, message, hwritten, hdecode, hid, hvars.trans (by decide +kernel)⟩

end Sonda.Snmp
