import Sonda.Impl.Snmp.V3
import Sonda.Proof.Snmp.Ber

/-!
# How an SNMPv3 message is laid out

`writeTlvWith_body`: the body of the outer SEQUENCE, with the authentication and
privacy parameters zeroed, is `bodyOctets`, and the offsets its closure assigns
are where the two parameters stand. `writeMessage_plain` and
`writeMessage_private` are the message after both are copied in and its tail is
encrypted, for messages whose length the outer header can state;
`length_writeMessage` its length, for all.
-/

namespace Sonda.Snmp.V3

open Framework List Nat

variable {privacy : Bool} {i : Nat} {out body salt : Octets} {user : Option LocalizedUser}
  {engine : Snapshot} {req : V3Message}

/-! ## Pieces -/

/-- An INTEGER. -/
def intOctets (v : Int) : Octets := tlv .integer (signedSpan v)

theorem length_intOctets (v : Int) : (intOctets v).length = i64Len v := length_tlv_signedSpan _ _

/-- A TLV's identifier and length octets. -/
def header (tag : Tag) (len : Nat) : Octets := tag.byte :: lengthOctets len

theorem length_header (tag : Tag) (len : Nat) : (header tag len).length = 1 + lengthLen len := by
  rw [header, length_cons, length_lengthOctets, add_comm]

theorem tlv_eq_header (tag : Tag) (body : Octets) : tlv tag body = header tag body.length ++ body := rfl

def scopedOctets (engine : Snapshot) (pdu : Octets) : Octets :=
  tlv .sequence (tlv .octetString engine.id ++ (tlv .octetString [] ++ pdu))

/-- The content of `msgGlobalData`. -/
def globalBody (req : V3Message) (flags : Flags) : Octets :=
  intOctets req.msgId ++ (intOctets V3.msgMaxSize ++ (tlv .octetString [flags.octet] ++ intOctets usmModel))

def globalOctets (req : V3Message) (flags : Flags) : Octets := tlv .sequence (globalBody req flags)

variable (protocol : PrivProtocol)

/-- A plaintext, padded for its cipher. -/
def padded (plain : Octets) : Octets :=
  plain ++ List.replicate (paddedLen protocol plain.length - plain.length) 0

theorem le_paddedLen (n : Nat) : n ≤ paddedLen protocol n := by
  cases protocol with
  | des =>
    simp only [paddedLen, desBlock]
    omega
  | _ => exact le_refl _

theorem length_padded (plain : Octets) :
    (padded protocol plain).length = paddedLen protocol plain.length := by
  have := le_paddedLen protocol plain.length
  rw [padded, length_append, length_replicate]
  omega

/-- What is before the authentication parameter's content in the body, for
parameters of these lengths. -/
def beforeAuth (req : V3Message) (engine : Snapshot) (privacy : Bool) (authLen privLen : Nat) : Octets :=
  let params := usmBodyLen engine req.usm.user authLen privLen
  intOctets version ++ (globalOctets req ⟨decide (0 < authLen), privacy, false⟩ ++
    (header .octetString (tlvLen params) ++ (header .sequence params ++
      (tlv .octetString engine.id ++ (intOctets engine.boots ++ (intOctets engine.time ++
        (tlv .octetString req.usm.user ++ header .octetString authLen)))))))

/-- The body of the outer SEQUENCE, with these parameters and `msgData`. -/
def bodyOctets (req : V3Message) (engine : Snapshot) (privacy : Bool) (auth salt data : Octets) : Octets :=
  beforeAuth req engine privacy auth.length salt.length ++ (auth ++
    (header .octetString salt.length ++ (salt ++ data)))

/-- A message with these parameters and `msgData`. -/
def messageOctets (req : V3Message) (engine : Snapshot) (privacy : Bool) (auth salt data : Octets) : Octets :=
  tlv .sequence (bodyOctets req engine privacy auth salt data)

/-- `msgData` before it is encrypted. -/
def plainData (engine : Snapshot) (privacy : Option PrivProtocol) (pdu : Octets) : Octets :=
  match privacy with
  | some protocol => tlv .octetString (padded protocol (scopedOctets engine pdu))
  | none => scopedOctets engine pdu

/-- How much of `msgData` is encrypted. -/
def plainLen (engine : Snapshot) (privacy : Option PrivProtocol) (pdu : Octets) : Nat :=
  match privacy with
  | some protocol => paddedLen protocol (scopedOctets engine pdu).length
  | none => 0

/-! ## The body -/

section body

variable {α : Type} {a : α} {pdu : Octets → Octets × α} {content : Octets}

theorem writeScoped_eq (engine : Snapshot) (h : ∀ out, pdu out = (out ++ content, a)) (out : Octets) :
    writeScoped engine pdu out = (out ++ scopedOctets engine content, a) := by
  refine writeTlvWith_eq ?_
  dsimp only
  rw [writeOctets_eq, writeOctets_eq, h]
  simp only [append_assoc]

theorem writeGlobalData_eq (req : V3Message) (out : Octets) (flags : Flags) :
    writeGlobalData req out flags = out ++ globalOctets req flags := by
  refine writeTlv_eq ?_
  rw [writeI64_eq, writeI64_eq, writeOctets_eq, writeI64_eq]
  simp only [append_assoc, globalBody, intOctets]

theorem resize_eq (out : Octets) (n : Nat) : resize out (out.length + n) = out ++ List.replicate n 0 := by
  rw [resize, take_of_length_le (Nat.le_add_right _ _), Nat.add_sub_cancel_left]

theorem writeData_eq (engine : Snapshot) (privacy : Option PrivProtocol)
    (h : ∀ out, pdu out = (out ++ content, a)) (out : Octets) :
    writeData engine privacy pdu out =
      (out ++ plainData engine privacy content, (plainLen engine privacy content, a)) := by
  cases privacy with
  | none =>
    rw [writeData, writeScoped_eq engine h]
    rfl
  | some protocol =>
    unfold writeData plainData
    refine writeTlvWith_eq ?_
    dsimp only
    rw [writeScoped_eq engine h]
    generalize hs : scopedOctets engine content = scopedPdu
    have hlen : (out ++ [Tag.octetString.byte, 0] ++ scopedPdu).length -
        (out ++ [Tag.octetString.byte, 0]).length = scopedPdu.length := by
      rw [length_append, Nat.add_sub_cancel_left]
    have hle := le_paddedLen protocol scopedPdu.length
    have hto : (out ++ [Tag.octetString.byte, 0]).length + paddedLen protocol scopedPdu.length =
        (out ++ [Tag.octetString.byte, 0] ++ scopedPdu).length +
          (paddedLen protocol scopedPdu.length - scopedPdu.length) := by
      simp only [length_append]
      omega
    rw [hlen, hto, resize_eq, plainLen, hs, padded, append_assoc]

/-- The outer SEQUENCE, its parameters zeroed. -/
theorem writeTlvWith_body (req : V3Message) (engine : Snapshot) (authLen : Nat) (privacy : Option PrivProtocol)
    (h : ∀ out, pdu out = (out ++ content, a)) (out : Octets) :
    writeTlvWith out .sequence (writeBody req engine authLen privacy pdu) =
      (out ++ messageOctets req engine privacy.isSome (List.replicate authLen 0)
          (List.replicate (privLen privacy) 0) (plainData engine privacy content),
        ⟨(beforeAuth req engine privacy.isSome authLen (privLen privacy)).length,
          (beforeAuth req engine privacy.isSome authLen (privLen privacy)).length + authLen +
            (header .octetString (privLen privacy)).length,
          plainLen engine privacy content, a⟩) := by
  refine writeTlvWith_eq ?_
  generalize out ++ [Tag.sequence.byte, 0] = out
  have hhead : writeHeader (writeOctets (writeI64 (writeI64 (writeOctets (writeHeader (writeHeader
      (writeGlobalData req (writeI64 out .integer version) ⟨decide (0 < authLen), privacy.isSome, false⟩)
      .octetString (tlvLen (usmBodyLen engine req.usm.user authLen (privLen privacy)))) .sequence
      (usmBodyLen engine req.usm.user authLen (privLen privacy))) .octetString engine.id) .integer
      engine.boots) .integer engine.time) .octetString req.usm.user) .octetString authLen =
      out ++ beforeAuth req engine privacy.isSome authLen (privLen privacy) := by
    simp only [writeI64_eq, writeGlobalData_eq, writeHeader_eq, writeOctets_eq, beforeAuth, header,
      intOctets, append_assoc]
  unfold writeBody
  dsimp only
  rw [hhead]
  generalize hb : beforeAuth req engine privacy.isSome authLen (privLen privacy) = before
  simp only [writeHeader_eq, resize_eq, writeData_eq engine privacy h, Prod.mk.injEq, Laid.mk.injEq,
    and_true]
  refine ⟨?_, ?_, ?_⟩
  · simp only [bodyOctets, length_replicate, hb, header, append_assoc]
  · rw [length_append, Nat.add_sub_cancel_left]
  · simp only [length_append, length_replicate, header]
    omega

end body

theorem length_bodyOctets (req : V3Message) (engine : Snapshot) (privacy : Bool) (auth salt data : Octets) :
    (bodyOctets req engine privacy auth salt data).length = i64Len version +
      tlvLen (i64Len req.msgId + i64Len V3.msgMaxSize + tlvLen 1 + i64Len usmModel) +
      tlvLen (tlvLen (usmBodyLen engine req.usm.user auth.length salt.length)) + data.length := by
  have hglobal : ∀ flags, (globalOctets req flags).length =
      tlvLen (i64Len req.msgId + i64Len V3.msgMaxSize + tlvLen 1 + i64Len usmModel) := by
    intro flags
    simp only [globalOctets, globalBody, length_tlv, length_append, length_intOctets, length_singleton,
      add_assoc]
  simp only [bodyOctets, beforeAuth, length_append, hglobal, length_intOctets, length_header,
    length_tlv]
  generalize hp : usmBodyLen engine req.usm.user auth.length salt.length = params
  have hauth : tlvLen auth.length = 1 + lengthLen auth.length + auth.length := rfl
  have hsalt : tlvLen salt.length = 1 + lengthLen salt.length + salt.length := rfl
  have houter : tlvLen (tlvLen params) = 1 + lengthLen (tlvLen params) + (1 + lengthLen params + params) := rfl
  unfold usmBodyLen at hp
  omega

theorem length_scopedOctets (engine : Snapshot) (pdu : Octets) :
    (scopedOctets engine pdu).length = tlvLen (tlvLen engine.id.length + tlvLen 0 + pdu.length) := by
  simp only [scopedOctets, length_tlv, length_append, length_nil, add_assoc]

/-! ## The splices -/

theorem length_copyFromSlice {src : Octets} (h : i + src.length ≤ out.length) :
    (copyFromSlice out i src).length = out.length := by
  simp only [copyFromSlice, length_append, length_take, length_drop]
  omega

theorem length_hmac (crypto : Crypto) (protocol : AuthProtocol) (key message : Octets) :
    (hmac crypto protocol key message).length = authParamsLen protocol := by
  simp only [hmac, length_append, length_take, length_replicate]
  omega

theorem length_salt (salts : SaltCounter) (protocol : PrivProtocol) (boots : Nat) :
    (salts.next protocol boots).1.length = privParams := by
  cases protocol <;> simp [SaltCounter.next, privParams]

theorem length_encrypt (crypto : Crypto) (engine : Snapshot) (user : LocalizedUser) (salts : SaltCounter)
    (data : Octets) : (encrypt crypto engine user salts data).1.1.length = data.length ∧
      (encrypt crypto engine user salts data).1.2.length = privParams := by
  unfold encrypt
  split
  · exact ⟨rfl, length_replicate⟩
  · exact ⟨crypto.length_cipher _ _ _ _ _, length_salt _ _ _⟩

/-- The first length octet of a TLV. -/
theorem getElem?_length (out body : Octets) (tag : Tag) :
    (out ++ tlv tag body)[out.length + 1]? = (lengthOctets body.length ++ body)[0]? := by
  rw [getElem?_append_right (Nat.le_add_right _ _), Nat.add_sub_cancel_left]
  rfl

theorem bodyStart_short (out : Octets) (h : body.length < 0x80) :
    bodyStart (out ++ tlv .sequence body) out.length = out.length + 2 := by
  have hlt : UInt8.ofNat body.length &&& 0x80 = 0 := by
    rw [and_80_eq_zero_iff, UInt8.lt_iff_toNat_lt, toNat_ofNat_of_lt (by omega)]
    exact h
  simp only [bodyStart, getElem?_length, lengthOctets_short h, cons_append, getElem?_cons_zero,
    hlt, bne_self_eq_false, Bool.false_eq_true, if_false]

theorem bodyStart_long (out : Octets) (h : ¬ body.length < 0x80) :
    bodyStart (out ++ tlv .sequence body) out.length =
      out.length + 2 + ((0x80 ||| UInt8.ofNat (digitCount 8 body.length)) &&& 0x7F).toNat := by
  have hset : ∀ b : UInt8, (0x80 ||| b) &&& 0x80 ≠ 0 := octet_all (by decide +kernel)
  have hb := hset (UInt8.ofNat (digitCount 8 body.length))
  simp only [bodyStart, getElem?_length, lengthOctets_long h, cons_append, getElem?_cons_zero]
  rw [if_pos (by simpa using hb)]

/-- The body starts after a header that the length fits. -/
theorem bodyStart_eq (out : Octets) (h : body.length < 18446744073709551616) :
    bodyStart (out ++ tlv .sequence body) out.length = out.length + (header .sequence body.length).length := by
  rw [length_header, lengthLen]
  by_cases hs : body.length < 0x80
  · rw [bodyStart_short out hs, if_pos hs]
  · have hcount : digitCount 8 body.length ≤ 8 := digitCount_le (by decide) h
    rw [bodyStart_long out hs, if_neg hs, toNat_and_7f, toNat_or_80 _ (by omega)]
    omega

theorem bodyStart_le (out body : Octets) : bodyStart (out ++ tlv .sequence body) out.length ≤
      out.length + (header .sequence body.length).length := by
  rw [length_header, lengthLen]
  by_cases hs : body.length < 0x80
  · rw [bodyStart_short out hs, if_pos hs]
  · have hle : ∀ b : UInt8, ((0x80 ||| b) &&& 0x7F).toNat ≤ b.toNat := octet_all (by decide +kernel)
    have hb := hle (UInt8.ofNat (digitCount 8 body.length))
    rw [UInt8.toNat_ofNat'] at hb
    rw [bodyStart_long out hs, if_neg hs]
    omega

/-! ## Messages -/

/-- Where the authentication parameter's content starts in a message. -/
def authStart (req : V3Message) (engine : Snapshot) (privacy : Bool) (auth salt data : Octets) : Nat :=
  (header .sequence (bodyOctets req engine privacy auth salt data).length).length +
    (beforeAuth req engine privacy auth.length salt.length).length

section splices

variable {req : V3Message} {engine : Snapshot} {privacy : Bool} {out auth auth' salt salt' data data' : Octets}

theorem authStart_congr (ha : auth'.length = auth.length) (hs : salt'.length = salt.length)
    (hd : data'.length = data.length) :
    authStart req engine privacy auth' salt' data' = authStart req engine privacy auth salt data := by
  rw [authStart, authStart, length_bodyOctets, length_bodyOctets, ha, hs, hd]

/-- A part of a SEQUENCE in its place. -/
theorem copy_part (before : Octets) {part part' : Octets} (after : Octets)
    (h : part'.length = part.length) :
    copyFromSlice (out ++ tlv .sequence (before ++ (part ++ after)))
        (out.length + ((header .sequence (before ++ (part ++ after)).length).length + before.length))
        part' = out ++ tlv .sequence (before ++ (part' ++ after)) := by
  have hlen : (before ++ (part' ++ after)).length = (before ++ (part ++ after)).length := by
    simp only [length_append, h]
  have hcopy := copyFromSlice_append (out ++ (header .sequence (before ++ (part ++ after)).length ++ before))
    part' after h.symm
  rw [tlv_eq_header, tlv_eq_header, hlen]
  simpa only [length_append, append_assoc] using hcopy

/-- The authentication parameter in its place. -/
theorem copy_auth (ha : auth'.length = auth.length) :
    copyFromSlice (out ++ messageOctets req engine privacy auth salt data)
        (out.length + authStart req engine privacy auth salt data) auth' =
      out ++ messageOctets req engine privacy auth' salt data := by
  unfold messageOctets authStart bodyOctets
  rw [ha]
  exact copy_part _ _ ha

/-- The privacy parameter in its place. -/
theorem copy_salt (hs : salt'.length = salt.length) :
    copyFromSlice (out ++ messageOctets req engine privacy auth salt data)
        (out.length + (authStart req engine privacy auth salt data + auth.length +
          (header .octetString salt.length).length)) salt' =
      out ++ messageOctets req engine privacy auth salt' data := by
  have hcopy := @copy_part out (beforeAuth req engine privacy auth.length salt.length ++ (auth ++
    header .octetString salt.length)) salt salt' data hs
  unfold messageOctets authStart bodyOctets
  rw [hs]
  simpa only [length_append, append_assoc, add_assoc] using hcopy

/-- A message whose `msgData` is an OCTET STRING, before its content. -/
theorem messageOctets_tail (content : Octets) : ∃ before, before.length + content.length =
        (messageOctets req engine privacy auth salt (tlv .octetString content)).length ∧
      ∀ {content' : Octets}, content'.length = content.length →
        messageOctets req engine privacy auth salt (tlv .octetString content') = before ++ content' := by
  generalize hbefore : beforeAuth req engine privacy auth.length salt.length ++ (auth ++
    (header .octetString salt.length ++ (salt ++ header .octetString content.length))) = before
  have hbody : ∀ {content' : Octets}, content'.length = content.length →
      bodyOctets req engine privacy auth salt (tlv .octetString content') = before ++ content' := by
    intro content' hlen
    rw [← hbefore, bodyOctets, tlv_eq_header, hlen]
    simp only [append_assoc]
  refine ⟨header .sequence (before ++ content).length ++ before, ?_, fun {content'} hlen => ?_⟩
  · rw [messageOctets, hbody rfl, tlv_eq_header, ← append_assoc]
    exact length_append.symm
  · have hsame : (before ++ content').length = (before ++ content).length := by
      rw [length_append, length_append, hlen]
    rw [messageOctets, hbody hlen, tlv_eq_header, hsame, append_assoc]

/-- The content of `msgData` encrypted in place. -/
theorem encrypt_tail (content : Octets) {content' : Octets} (hlen : content'.length = content.length) :
    let message := messageOctets req engine privacy auth salt (tlv .octetString content)
    (out ++ message).drop ((out ++ message).length - content.length) = content ∧
      (out ++ message).take ((out ++ message).length - content.length) ++ content' =
        out ++ messageOctets req engine privacy auth salt (tlv .octetString content') := by
  obtain ⟨before, hlength, hmessage⟩ := @messageOctets_tail req engine privacy auth salt content
  have hat : (out ++ (before ++ content)).length - content.length = (out ++ before).length := by
    simp only [length_append]
    omega
  dsimp only
  rw [hmessage rfl, hmessage hlen, hat, ← append_assoc, drop_left, take_left,
    append_assoc]
  exact ⟨rfl, rfl⟩

end splices

/-- The authentication parameter of a message for `user`: the HMAC of the
message with the parameter zeroed. -/
def authOf (crypto : Crypto) (user : Option LocalizedUser) (message : Octets → Octets) : Octets :=
  match user.bind LocalizedUser.auth with
  | some (protocol, key) =>
    hmac crypto protocol key (message (List.replicate (authParamsLen protocol) 0))
  | none => []

theorem length_authOf (crypto : Crypto) (user : Option LocalizedUser) (message : Octets → Octets) :
    (authOf crypto user message).length = authLen user := by
  unfold authOf authLen
  cases user.bind LocalizedUser.auth with
  | none => rfl
  | some p => exact length_hmac _ _ _ _

theorem authLen_le (user : Option LocalizedUser) : authLen user ≤ 48 := by
  unfold authLen
  split
  · rename_i protocol _ _
    cases protocol <;> decide
  · decide

theorem privLen_le (privacy : Option PrivProtocol) : privLen privacy ≤ 8 := by
  cases privacy with
  | none => exact zero_le _
  | some _ => exact le_refl _

theorem spliceAuth_eq (crypto : Crypto) {data : Octets} :
    spliceAuth crypto user
        (out ++ messageOctets req engine privacy (List.replicate (authLen user) 0) salt data) out.length
        (out.length + authStart req engine privacy (List.replicate (authLen user) 0) salt data) =
      out ++ messageOctets req engine privacy
        (authOf crypto user fun auth => messageOctets req engine privacy auth salt data) salt data := by
  unfold spliceAuth authOf authLen
  cases user.bind LocalizedUser.auth with
  | none => rfl
  | some p =>
    dsimp only
    rw [drop_left, copy_auth]
    rw [length_hmac, length_replicate]

theorem length_spliceAuth (crypto : Crypto) {start : Nat} (h : i + authLen user ≤ out.length) :
    (spliceAuth crypto user out start i).length = out.length := by
  unfold authLen at h
  unfold spliceAuth
  cases hauth : user.bind LocalizedUser.auth with
  | none => rfl
  | some p =>
    rw [hauth] at h
    exact length_copyFromSlice (by rw [length_hmac]; exact h)

theorem length_splicePrivacy (crypto : Crypto) (engine : Snapshot) (user : LocalizedUser)
    (salts : SaltCounter) {n : Nat} (hi : i + privParams ≤ out.length) (hn : n ≤ out.length) :
    (splicePrivacy crypto engine user salts out i n).1.length = out.length := by
  obtain ⟨hdata, hsalt⟩ := length_encrypt crypto engine user salts (out.drop (out.length - n))
  have hlen : (out.take (out.length - n) ++ (encrypt crypto engine user salts (out.drop
      (out.length - n))).1.1).length = out.length := by
    rw [length_append, hdata, length_take, length_drop]
    omega
  unfold splicePrivacy
  rw [length_copyFromSlice (by rw [hsalt, hlen]; exact hi), hlen]

/-- The tail encrypted, and the salt in its place. -/
theorem splicePrivacy_eq (crypto : Crypto) {user : LocalizedUser} {protocol : PrivProtocol}
    {key : Octets} (hpriv : user.privacy = some (protocol, key)) (salts : SaltCounter)
    {auth plain : Octets} (hsalt : salt.length = privParams) :
    let next := salts.next protocol engine.boots
    splicePrivacy crypto engine user salts
        (out ++ messageOctets req engine privacy auth salt (tlv .octetString plain))
        (out.length + (authStart req engine privacy auth salt (tlv .octetString plain) + auth.length +
          (header .octetString salt.length).length)) plain.length =
      (out ++ messageOctets req engine privacy auth next.1
        (tlv .octetString (crypt crypto protocol key engine.boots engine.time next.1 plain true)), next.2) := by
  generalize hn : salts.next protocol engine.boots = next
  have hnext : next.1.length = salt.length := by rw [← hn, length_salt, hsalt]
  have hcipher : (crypt crypto protocol key engine.boots engine.time next.1 plain true).length =
      plain.length := crypto.length_cipher _ _ _ _ _
  obtain ⟨hdrop, htake⟩ := @encrypt_tail req engine privacy out auth salt plain _ hcipher
  have hencrypt : encrypt crypto engine user salts plain =
      ((crypt crypto protocol key engine.boots engine.time next.1 plain true, next.1), next.2) := by
    simp only [encrypt, hpriv, hn]
  unfold splicePrivacy
  dsimp only
  rw [hdrop, hencrypt]
  rw [htake, @authStart_congr req engine privacy auth auth salt salt
    (tlv .octetString (crypt crypto protocol key engine.boots engine.time next.1 plain true)) _ rfl rfl
    (by rw [length_tlv, length_tlv, hcipher]), copy_salt hnext]

section message

variable {α : Type} {a : α} {pdu : Octets → Octets × α} {content : Octets}
variable (crypto : Crypto) (req : V3Message) (engine : Snapshot) (out : Octets)
  (user : Option LocalizedUser) (salts : Option SaltCounter)

theorem length_plainData (privacy : Option PrivProtocol) (content : Octets) :
    (plainData engine privacy content).length =
      match privacy with
      | some protocol =>
        tlvLen (paddedLen protocol (tlvLen (tlvLen engine.id.length + tlvLen 0 + content.length)))
      | none => tlvLen (tlvLen engine.id.length + tlvLen 0 + content.length) := by
  cases privacy with
  | none => exact length_scopedOctets engine content
  | some protocol => rw [plainData, length_tlv, length_padded, length_scopedOctets]

theorem length_messageOctets (isPrivate : Bool) (content : Octets) {auth salt data : Octets}
    (hauth : auth.length = authLen user) (hsalt : salt.length = privLen (privacyOf user isPrivate))
    (hdata : data.length = (plainData engine (privacyOf user isPrivate) content).length)
    (privacy : Bool) :
    (messageOctets req engine privacy auth salt data).length =
      messageLen req engine user isPrivate content.length := by
  rw [messageOctets, length_tlv, length_bodyOctets, hauth, hsalt, hdata, length_plainData]
  rfl

/-- A message that is not encrypted. -/
theorem writeMessage_plain (h : ∀ out, pdu out = (out ++ content, a))
    (hlen : messageLen req engine user false content.length < 18446744073709551616) :
    writeMessage crypto req engine out user none pdu = ((out ++ messageOctets req engine false
        (authOf crypto user fun auth => messageOctets req engine false auth [] (scopedOctets engine content))
        [] (scopedOctets engine content), a), none) := by
  have hbound : (bodyOctets req engine false (replicate (authLen user) 0) []
      (scopedOctets engine content)).length < 18446744073709551616 := by
    rw [← length_messageOctets req engine user false content length_replicate
      (show ([] : Octets).length = _ from rfl) rfl false, messageOctets, length_tlv] at hlen
    exact (le_tlvLen _).trans_lt hlen
  have hsplice := @spliceAuth_eq false out [] user engine req crypto (scopedOctets engine content)
  rw [authStart, ← add_assoc, ← bodyStart_eq out hbound, length_replicate] at hsplice
  have hbody := writeTlvWith_body req engine (authLen user) none h out
  unfold writeMessage
  simp only [Option.isSome_none, privacyOf, Bool.false_eq_true, if_false, hbody, privLen, plainData,
    replicate_zero]
  exact congrArg (fun octets => ((octets, a), none)) hsplice

/-- The salt and the ciphertext of an encrypted message. -/
def sealedOf (crypto : Crypto) (engine : Snapshot) (protocol : PrivProtocol) (key : Octets)
    (salts : SaltCounter) (content : Octets) : Octets × Octets :=
  let salt := (salts.next protocol engine.boots).1
  (salt, crypt crypto protocol key engine.boots engine.time salt
    (padded protocol (scopedOctets engine content)) true)

/-- A message that is encrypted. -/
theorem writeMessage_private {user : LocalizedUser} {protocol : PrivProtocol} {key : Octets}
    (hpriv : user.privacy = some (protocol, key)) (salts : SaltCounter)
    (h : ∀ out, pdu out = (out ++ content, a))
    (hlen : messageLen req engine (some user) true content.length < 18446744073709551616) :
    let s := sealedOf crypto engine protocol key salts content
    writeMessage crypto req engine out (some user) (some salts) pdu =
      ((out ++ messageOctets req engine true (authOf crypto (some user) fun auth =>
        messageOctets req engine true auth s.1 (tlv .octetString s.2)) s.1 (tlv .octetString s.2), a),
        some (salts.next protocol engine.boots).2) := by
  have hprivacy : privacyOf (some user) true = some protocol := by
    rw [privacyOf, if_pos rfl, Option.bind_some, hpriv]
    rfl
  have hlaid : plainLen engine (some protocol) content =
      (padded protocol (scopedOctets engine content)).length := (length_padded _ _).symm
  have hbody := writeTlvWith_body req engine (authLen (some user)) (some protocol) h out
  rw [hlaid, plainData, show privLen (some protocol) = privParams from rfl, Option.isSome_some] at hbody
  have hmessage := length_messageOctets req engine (some user) true content
    (length_replicate (a := (0 : UInt8)))
    (show (replicate privParams (0 : UInt8)).length = _ by rw [hprivacy]; rfl)
    (show (tlv .octetString (padded protocol (scopedOctets engine content))).length = _ by
      rw [hprivacy, plainData]) true
  unfold sealedOf
  dsimp only
  generalize padded protocol (scopedOctets engine content) = plain at hbody hmessage ⊢
  have hbound : (bodyOctets req engine true (replicate (authLen (some user)) 0)
      (replicate privParams 0) (tlv .octetString plain)).length < 18446744073709551616 := by
    rw [← hmessage, messageOctets, length_tlv] at hlen
    exact (le_tlvLen _).trans_lt hlen
  have hstart : bodyStart (out ++ messageOctets req engine true _ _ (tlv .octetString plain)) out.length = _ :=
    bodyStart_eq out hbound
  have hprivacyAt := @splicePrivacy_eq true out (replicate privParams 0) engine req crypto user protocol key
    hpriv salts (replicate (authLen (some user)) 0) plain length_replicate
  dsimp only at hprivacyAt
  have hsalt := length_salt salts protocol engine.boots
  generalize salts.next protocol engine.boots = next at hprivacyAt hsalt ⊢
  have hcipher : (crypt crypto protocol key engine.boots engine.time next.1 plain true).length =
      plain.length := crypto.length_cipher _ _ _ _ _
  generalize crypt crypto protocol key engine.boots engine.time next.1 plain true = cipher
    at hprivacyAt hcipher ⊢
  have hauthAt := @spliceAuth_eq true out next.1 (some user) engine req crypto (tlv .octetString cipher)
  rw [authStart_congr rfl (show _ = (replicate privParams (0 : UInt8)).length by
    rw [length_replicate, hsalt]) (show _ = (tlv .octetString plain).length by
    rw [length_tlv, length_tlv, hcipher])] at hauthAt
  simp only [authStart, ← add_assoc, ← hstart, length_replicate] at hprivacyAt hauthAt
  unfold writeMessage
  simp only [Option.isSome_some, hprivacy, hbody, if_pos, ← add_assoc]
  rw [hprivacyAt]
  rw [hauthAt]

/-- What the PDU's closure assigns does not change what is written. -/
theorem writeMessage_const (h : ∀ out, pdu out = (out ++ content, a)) :
    writeMessage crypto req engine out user salts pdu =
      (((writeMessage crypto req engine out user salts fun out => (out ++ content, ())).1.1, a),
        (writeMessage crypto req engine out user salts fun out => (out ++ content, ())).2) := by
  unfold writeMessage
  dsimp only
  rw [writeTlvWith_body req engine _ _ h, writeTlvWith_body req engine _ _ fun _ => rfl]

theorem plainLen_le (privacy : Option PrivProtocol) (content : Octets) :
    plainLen engine privacy content ≤ (plainData engine privacy content).length := by
  cases privacy with
  | none => exact zero_le _
  | some protocol =>
    rw [plainLen, plainData, length_tlv, length_padded]
    exact le_tlvLen _

/-- The octets of a message, however long. -/
theorem length_writeMessage (h : ∀ out, pdu out = (out ++ content, a)) :
    (writeMessage crypto req engine out user salts pdu).1.1.length =
      out.length + messageLen req engine user salts.isSome content.length := by
  have hbody := writeTlvWith_body req engine (authLen user) (privacyOf user salts.isSome) h out
  have hmessage := length_messageOctets req engine user salts.isSome content
    (length_replicate (a := (0 : UInt8))) (length_replicate (a := (0 : UInt8))) rfl
    (privacyOf user salts.isSome).isSome
  have hplain := plainLen_le engine (privacyOf user salts.isSome) content
  generalize hp : privacyOf user salts.isSome = privacy at hbody hmessage hplain
  generalize plainData engine privacy content = data at hbody hmessage hplain
  have hparts : (messageOctets req engine privacy.isSome (replicate (authLen user) 0)
      (replicate (privLen privacy) 0) data).length =
      (header .sequence (bodyOctets req engine privacy.isSome (replicate (authLen user) 0)
        (replicate (privLen privacy) 0) data).length).length +
        ((beforeAuth req engine privacy.isSome (authLen user) (privLen privacy)).length +
          (authLen user + ((header .octetString (privLen privacy)).length +
            (privLen privacy + data.length)))) := by
    rw [messageOctets, tlv_eq_header, length_append, bodyOctets]
    simp only [length_append, length_replicate]
  have hstart : bodyStart (out ++ messageOctets req engine privacy.isSome _ _ data) out.length ≤ _ :=
    bodyStart_le out (bodyOctets req engine privacy.isSome (replicate (authLen user) 0)
      (replicate (privLen privacy) 0) data)
  unfold writeMessage
  dsimp only
  rw [hp, hbody]
  generalize hm : messageOctets req engine privacy.isSome (replicate (authLen user) 0)
    (replicate (privLen privacy) 0) data = message at hmessage hparts hstart ⊢
  have hout : (out ++ message).length =
      out.length + messageLen req engine user salts.isSome content.length := by
    rw [length_append, hmessage]
  rw [← hout]
  generalize hb : bodyStart (out ++ message) out.length = body at hstart ⊢
  have hsplice : ∀ {user' : LocalizedUser} {salts' : SaltCounter}, privacy.isSome = true →
      (splicePrivacy crypto engine user' salts' (out ++ message)
        (body + ((beforeAuth req engine privacy.isSome (authLen user) (privLen privacy)).length +
          authLen user + (header .octetString (privLen privacy)).length))
        (plainLen engine privacy content)).1.length = (out ++ message).length := by
    intro user' salts' hsome
    have hpriv : privLen privacy = privParams := by rw [privLen, if_pos hsome]
    exact length_splicePrivacy crypto engine user' salts' (by omega) (by omega)
  have hspliced : ∀ spliced : Octets × Option SaltCounter, spliced.1.length = (out ++ message).length →
      (spliceAuth crypto user spliced.1 out.length
        (body + (beforeAuth req engine privacy.isSome (authLen user) (privLen privacy)).length)).length =
        (out ++ message).length := by
    intro spliced heq
    rw [length_spliceAuth crypto (by omega), heq]
  refine hspliced _ ?_
  split
  · split
    · exact hsplice (by assumption)
    · rfl
  · rfl

end message

end Sonda.Snmp.V3
