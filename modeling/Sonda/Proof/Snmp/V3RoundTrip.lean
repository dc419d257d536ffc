import Sonda.Proof.Snmp.RoundTrip
import Sonda.Proof.Snmp.Security

/-!
# SNMPv3 messages read back

A message with the parameters `auth` and `salt` decodes to its fields, with
its authentication parameter where the writer has put it
(`decode_messageOctets`): the same place at which `authentic` zeroes it
(`authentic_messageOctets`). A padded scoped PDU is read back
(`decodeScopedPdu_padded`), so a ciphertext is, where decrypting undoes
encrypting (`Inverts`). `response_roundTrip` is both for the messages
the agent writes.
-/

namespace Sonda.Snmp.V3

open Framework List

variable {privacy : Bool} {crypto : Crypto} {v : Int} {n : Nat} {auth salt data key : Octets}
  {engine : Snapshot} {req : V3Message}

/-! ## Parts -/

theorem field_intOctets {min : Int} (hmin : min ≤ v) (hmax : v ≤ maxField) (hrange : IsI64 v)
    (a : Nat) (rest : Octets) : field ⟨a, intOctets v ++ rest⟩ min = .ok (v, ⟨a + i64Len v, rest⟩) := by
  unfold field
  rw [i64_intOctets hrange]
  simp only [bind, Except.bind]
  rw [if_neg (by omega)]

theorem isI64_of_field (hmin : 0 ≤ v) (hmax : v ≤ maxField) : IsI64 v := by
  unfold IsI64
  have hmax : v ≤ 2147483647 := hmax
  omega

/-- An INTEGER at the end. -/
theorem field_last (hmin : 0 ≤ v) (hmax : v ≤ maxField) (a : Nat) :
    field ⟨a, intOctets v⟩ 0 = .ok (v, ⟨a + i64Len v, []⟩) := by
  have hread := field_intOctets hmin hmax (isI64_of_field hmin hmax) a []
  rwa [append_nil] at hread

theorem fromOctet_octet (flags : Flags) : Flags.fromOctet flags.octet = flags := by
  obtain ⟨auth, privacy, reportable⟩ := flags
  revert auth privacy reportable
  decide

theorem globalData_globalBody (hmin : 0 ≤ req.msgId) (hmax : req.msgId ≤ maxField) (flags : Flags)
    (a : Nat) :
    globalData ⟨a, globalBody req flags⟩ = .ok ⟨req.msgId, V3.msgMaxSize, flags, usmModel⟩ := by
  unfold globalData globalBody
  have hsize : ∀ a rest, field ⟨a, intOctets V3.msgMaxSize ++ rest⟩ minMsgMaxSize =
      .ok (V3.msgMaxSize, ⟨a + i64Len V3.msgMaxSize, rest⟩) :=
    fun a rest => field_intOctets (by decide) (by decide) (by unfold IsI64; decide) a rest
  have hmodel : ∀ a, field ⟨a, intOctets usmModel⟩ 0 = .ok (usmModel, ⟨a + i64Len usmModel, []⟩) :=
    fun a => field_last (by decide) (by decide) a
  simp only [field_intOctets hmin hmax (isI64_of_field hmin hmax), hsize,
    Reader.expect_tlv (show [flags.octet].length < 4294967296 by simp), hmodel, bind, Except.bind,
    fromOctet_octet]
  rfl

/-- The content of the SEQUENCE in `msgSecurityParameters`. -/
def usmBody (engine : Snapshot) (user auth salt : Octets) : Octets :=
  tlv .octetString engine.id ++ (intOctets engine.boots ++ (intOctets engine.time ++
    (tlv .octetString user ++ (tlv .octetString auth ++ tlv .octetString salt))))

theorem length_usmBody (engine : Snapshot) (user auth salt : Octets) :
    (usmBody engine user auth salt).length = usmBodyLen engine user auth.length salt.length := by
  simp only [usmBody, length_append, length_tlv, length_intOctets, usmBodyLen, Nat.add_assoc]

theorem securityParams_usmBody (hboots : engine.boots ≤ 2147483647)
    (htime : engine.time ≤ 2147483647) {user : Octets}
    (hlen : (usmBody engine user auth salt).length < 4294967296) (a : Nat) :
    let body := usmBody engine user auth salt
    let start := a + (header .sequence body.length).length + tlvLen engine.id.length +
      i64Len engine.boots + i64Len engine.time + tlvLen user.length +
      (header .octetString auth.length).length
    securityParams ⟨a, tlv .sequence body⟩ =
      .ok (⟨engine.id, engine.boots, engine.time, user, auth, salt⟩, (start, start + auth.length)) := by
  have hparts := hlen
  rw [length_usmBody, usmBodyLen] at hparts
  have hid := le_tlvLen engine.id.length
  have huser := le_tlvLen user.length
  have hauth := le_tlvLen auth.length
  have hsalt := le_tlvLen salt.length
  have hint : ∀ {n : Nat}, n ≤ 2147483647 → ∀ a rest, field ⟨a, intOctets n ++ rest⟩ 0 =
      .ok ((n : Int), ⟨a + i64Len n, rest⟩) := by
    intro n hn a rest
    have hmax : (n : Int) ≤ maxField := by
      unfold maxField
      omega
    exact field_intOctets (by omega) hmax (isI64_of_field (by omega) hmax) a rest
  unfold securityParams
  simp only [expect_last hlen, bind, Except.bind]
  unfold usmBody
  simp only [Reader.expect_tlv (show engine.id.length < 4294967296 by omega), hint hboots, hint htime,
    Reader.expect_tlv (show user.length < 4294967296 by omega),
    Reader.expect_tlv (show auth.length < 4294967296 by omega),
    expect_last (show salt.length < 4294967296 by omega)]
  simp only [Reader.isEmpty, isEmpty_nil, Bool.not_true, Bool.false_eq_true, if_false,
    Int.toNat_natCast, Slice.stop, length_header, Nat.add_assoc]

/-! ## Messages -/

theorem bodyOctets_eq (req : V3Message) (engine : Snapshot) (privacy : Bool) (auth salt data : Octets) :
    bodyOctets req engine privacy auth salt data =
      intOctets version ++ (tlv .sequence (globalBody req ⟨decide (0 < auth.length), privacy, false⟩) ++
        (tlv .octetString (tlv .sequence (usmBody engine req.usm.user auth salt)) ++ data)) := by
  have husm : tlv .octetString (tlv .sequence (usmBody engine req.usm.user auth salt)) =
      header .octetString (tlvLen (usmBodyLen engine req.usm.user auth.length salt.length)) ++
        (header .sequence (usmBodyLen engine req.usm.user auth.length salt.length) ++
          usmBody engine req.usm.user auth salt) := by
    rw [tlv_eq_header, length_tlv, length_usmBody, tlv_eq_header, length_usmBody]
  have hauth : tlv .octetString auth = header .octetString auth.length ++ auth := rfl
  have hsalt : tlv .octetString salt = header .octetString salt.length ++ salt := rfl
  rw [husm]
  unfold bodyOctets beforeAuth usmBody globalOctets globalBody
  rw [hauth, hsalt]
  simp only [append_assoc]

/-- Where a reader comes to the authentication parameter. -/
theorem authStart_eq (req : V3Message) (engine : Snapshot) (privacy : Bool) (auth salt data : Octets) :
    authStart req engine privacy auth salt data =
      0 + 1 + lengthLen (bodyOctets req engine privacy auth salt data).length + i64Len version +
        tlvLen (globalBody req ⟨decide (0 < auth.length), privacy, false⟩).length + 1 +
        lengthLen (tlv .sequence (usmBody engine req.usm.user auth salt)).length +
        (header .sequence (usmBody engine req.usm.user auth salt).length).length +
        tlvLen engine.id.length + i64Len engine.boots + i64Len engine.time +
        tlvLen req.usm.user.length + (header .octetString auth.length).length := by
  have hglobal : (globalOctets req ⟨decide (0 < auth.length), privacy, false⟩).length =
      tlvLen (globalBody req ⟨decide (0 < auth.length), privacy, false⟩).length := length_tlv _ _
  unfold authStart beforeAuth
  simp only [length_append, length_intOctets, length_header, length_tlv, hglobal, length_usmBody]
  omega

/-- The numbers of a header that a reader takes. -/
structure InRange (req : V3Message) (engine : Snapshot) : Prop where
  msgId : 0 ≤ req.msgId ∧ req.msgId ≤ maxField
  boots : engine.boots ≤ 2147483647
  time : engine.time ≤ 2147483647

/-- What a message with a `msgData` that reads decodes to. -/
theorem decode_messageOctets (hrange : InRange req engine)
    (hlen : (messageOctets req engine privacy auth salt data).length < 4294967296)
    {scopedPdu : Option ScopedPdu} {encrypted : Option Octets}
    (hdata : ∀ a, ∃ stop, msgData ⟨a, data⟩ privacy = .ok ((scopedPdu, encrypted), ⟨stop, []⟩)) :
    let start := authStart req engine privacy auth salt data
    decode (messageOctets req engine privacy auth salt data) =
      .ok { msgId := req.msgId, msgMaxSize := 65507,
            flags := ⟨decide (0 < auth.length), privacy, false⟩, securityModel := usmModel,
            usm := ⟨engine.id, engine.boots, engine.time, req.usm.user, auth, salt⟩,
            authRange := (start, start + auth.length), scopedPdu, encrypted } := by
  have hbody : (bodyOctets req engine privacy auth salt data).length < 4294967296 := by
    rw [messageOctets, length_tlv] at hlen
    exact (le_tlvLen _).trans_lt hlen
  have hparts := hbody
  simp only [bodyOctets_eq, length_append, length_tlv] at hparts
  have hglobal := le_tlvLen (globalBody req ⟨decide (0 < auth.length), privacy, false⟩).length
  have husm := le_tlvLen (usmBody engine req.usm.user auth salt).length
  have husm' := le_tlvLen (tlvLen (usmBody engine req.usm.user auth salt).length)
  have hcontent : (tlv .sequence (usmBody engine req.usm.user auth salt)).length < 4294967296 := by
    rw [length_tlv]
    omega
  have hversion : IsI64 V3.version := by
    unfold IsI64
    decide
  unfold messageOctets decode
  simp only [Reader.new, expect_last hbody, bind, Except.bind]
  rw [authStart_eq, bodyOctets_eq]
  simp only [i64_intOctets hversion, Reader.expect_tlv (show (globalBody req
    ⟨decide (0 < auth.length), privacy, false⟩).length < 4294967296 by omega),
    globalData_globalBody hrange.msgId.1 hrange.msgId.2, Reader.expect_tlv hcontent,
    securityParams_usmBody hrange.boots hrange.time (show (usmBody engine req.usm.user auth salt).length <
      4294967296 by omega)]
  choose stop hd using hdata
  simp only [hd, Reader.isEmpty, isEmpty_nil, Bool.not_true, Bool.false_eq_true, if_false,
    ne_eq, not_true_eq_false]
  rfl

/-- A message with the HMAC of itself, zeroed, is authentic. -/
theorem authentic_messageOctets {protocol : AuthProtocol}
    (hauth : auth = hmac crypto protocol key
      (messageOctets req engine privacy (List.replicate (authParamsLen protocol) 0) salt data))
    {msg : V3Message} (hmsg : decode (messageOctets req engine privacy auth salt data) = .ok msg)
    (hrange : msg.authRange = (authStart req engine privacy auth salt data,
      authStart req engine privacy auth salt data + auth.length))
    (hparams : msg.usm.authParams = auth) :
    authentic crypto protocol key msg (messageOctets req engine privacy auth salt data) = true := by
  have hlen : auth.length = authParamsLen protocol := by
    rw [hauth]
    exact length_hmac _ _ _ _
  obtain ⟨before, after, hraw, hstart, hstop⟩ := (decode_ok hmsg).auth
  rw [hrange, hparams] at hstop
  have hbound : (messageOctets req engine privacy auth salt data).length =
      before.length + auth.length + after.length := by
    rw [hraw, hparams]
    simp only [length_append]
  have hzeroed := @copy_auth req engine privacy [] auth (replicate (authParamsLen protocol) 0) salt data
    (by rw [length_replicate, hlen])
  simp only [nil_append, length_nil, Nat.zero_add, copyFromSlice, length_replicate] at hzeroed
  unfold authentic
  rw [hrange, hparams]
  dsimp only at hstart hstop ⊢
  rw [if_neg (by omega), if_neg (by omega), hlen, hzeroed, ← hauth]
  exact constantTimeEq_iff.mpr rfl

/-! ## Scoped PDUs -/

section scopedPdus

variable {engine : Snapshot} {pdu : Tag} {id status index : Int} {varbinds : Octets}

theorem msgData_cipherText {cipherText : Octets} (hlen : cipherText.length < 4294967296) (a : Nat) :
    ∃ stop, msgData ⟨a, tlv .octetString cipherText⟩ true =
      .ok ((none, some cipherText), ⟨stop, []⟩) := by
  refine ⟨a + tlvLen cipherText.length, ?_⟩
  unfold msgData
  rw [if_pos rfl, expect_last hlen]
  rfl

/-- The tag and the fields of a PDU that a reader takes. -/
structure ReadablePdu (pdu : Tag) (id status index : Int) : Prop where
  tag : pdu.isPdu = true
  id : IsI64 id
  status : IsI64 status
  index : IsI64 index

variable (hpdu : ReadablePdu pdu id status index)
variable (hlen : (scopedOctets engine (pduOctets pdu id status index varbinds)).length < 4294967296)

include hpdu hlen

theorem scopedPduOf_eq (a : Nat) :
    scopedPduOf ⟨a, tlv .octetString engine.id ++ (tlv .octetString [] ++
        pduOctets pdu id status index varbinds)⟩ =
      .ok ⟨engine.id, [], ⟨version, [], pdu, id, status, index, varbinds⟩⟩ := by
  rw [length_scopedOctets, length_pduOctets] at hlen
  have hengine := le_tlvLen engine.id.length
  have hbody := le_tlvLen (i64Len id + i64Len status + i64Len index + tlvLen varbinds.length)
  have hvarbinds := le_tlvLen varbinds.length
  have houter := le_tlvLen (tlvLen engine.id.length + tlvLen 0 +
    tlvLen (i64Len id + i64Len status + i64Len index + tlvLen varbinds.length))
  have hfields : (intOctets id ++ (intOctets status ++ (intOctets index ++
      tlv .sequence varbinds))).length < 4294967296 := by
    simp only [length_append, length_tlv, length_intOctets]
    omega
  have htlv := fun a => @Reader.tlv_tlv pdu _ [] a hfields
  simp only [append_nil] at htlv
  unfold scopedPduOf pduOctets
  simp only [Reader.expect_tlv (show engine.id.length < 4294967296 by omega),
    Reader.expect_tlv (show ([] : Octets).length < 4294967296 by decide), htlv, bind, Except.bind, hpdu.tag,
    pduFields_eq hpdu.id hpdu.status hpdu.index (show varbinds.length < 4294967296 by omega)]
  rfl

theorem msgData_scopedOctets (a : Nat) :
    ∃ stop, msgData ⟨a, scopedOctets engine (pduOctets pdu id status index varbinds)⟩ false =
      .ok ((some ⟨engine.id, [], ⟨version, [], pdu, id, status, index, varbinds⟩⟩, none), ⟨stop, []⟩) := by
  have hbody := hlen
  rw [scopedOctets, length_tlv] at hbody
  have hread := scopedPduOf_eq hpdu hlen
  refine ⟨a + tlvLen (tlv .octetString engine.id ++ (tlv .octetString [] ++
    pduOctets pdu id status index varbinds)).length, ?_⟩
  unfold msgData
  rw [if_neg Bool.false_ne_true, scopedOctets, expect_last ((le_tlvLen _).trans_lt hbody)]
  simp only [bind, Except.bind, hread]

/-- A scoped PDU is read back from its padded form. -/
theorem decodeScopedPdu_padded (protocol : PrivProtocol) :
    decodeScopedPdu (padded protocol (scopedOctets engine (pduOctets pdu id status index varbinds)))
        (paddingOf protocol) =
      .ok ⟨engine.id, [], ⟨version, [], pdu, id, status, index, varbinds⟩⟩ := by
  have hpadding : paddedLen protocol (scopedOctets engine (pduOctets pdu id status index varbinds)).length -
      (scopedOctets engine (pduOctets pdu id status index varbinds)).length ≤ paddingOf protocol := by
    unfold paddedLen paddingOf desBlock
    cases protocol <;> dsimp only <;> omega
  have hbody := hlen
  rw [scopedOctets, length_tlv] at hbody
  have hread := scopedPduOf_eq hpdu hlen
  have hlength := length_padded protocol (scopedOctets engine (pduOctets pdu id status index varbinds))
  unfold decodeScopedPdu Reader.new
  rw [hlength]
  rw [padded, scopedOctets, Reader.expect_tlv ((le_tlvLen _).trans_lt hbody)]
  simp only [bind, Except.bind, hread]
  rw [if_neg]
  rw [scopedOctets, length_tlv, tlvLen] at hpadding
  rw [length_tlv, tlvLen]
  simp only [Slice.stop]
  omega

end scopedPdus

/-! ## Decryption -/

/-- Decrypting undoes encrypting, on whole blocks where the cipher has blocks. -/
def Inverts (crypto : Crypto) : Prop :=
  ∀ protocol key iv data, (protocol = .des → data.length % desBlock = 0) →
    crypto.cipher protocol key iv false (crypto.cipher protocol key iv true data) = data

/-- A scoped PDU is read back from its ciphertext. -/
theorem decrypt_sealedOf (hinverts : Inverts crypto) {user : LocalizedUser}
    {protocol : PrivProtocol} (hpriv : user.privacy = some (protocol, key)) (salts : SaltCounter)
    {content : Octets} {scopedPdu : ScopedPdu}
    (hread : decodeScopedPdu (padded protocol (scopedOctets engine content)) (paddingOf protocol) = .ok scopedPdu) :
    let s := sealedOf crypto engine protocol key salts content
    decrypt crypto user engine.boots engine.time s.1 s.2 = .ok scopedPdu := by
  have hblocks : protocol = .des →
      (padded protocol (scopedOctets engine content)).length % desBlock = 0 := by
    intro hdes
    rw [length_padded, hdes]
    exact Nat.mul_mod_left _ _
  have hopened := hinverts protocol key
    (iv protocol key engine.boots engine.time (salts.next protocol engine.boots).1) _ hblocks
  unfold sealedOf decrypt
  rw [hpriv]
  dsimp only
  rw [if_neg (by rw [length_salt]; exact fun h => h rfl), if_neg]
  · unfold crypt
    rw [hopened, hread]
  · rintro ⟨hdes, hodd⟩
    rw [crypt, crypto.length_cipher] at hodd
    exact hodd (hblocks hdes)

/-! ## Responses -/

/-- `raw` decodes to `msg`, from `engine` to the user `req` names, at the level
of the keys of `user`. -/
structure Echoes (crypto : Crypto) (req : V3Message) (engine : Snapshot) (user : Option LocalizedUser)
    (privacy : Bool) (raw : Octets) (msg : V3Message) : Prop where
  decoded : decode raw = .ok msg
  msgId : msg.msgId = req.msgId
  name : msg.usm.user = req.usm.user
  snapshot : msg.usm.engineId = engine.id ∧ msg.usm.boots = engine.boots ∧ msg.usm.time = engine.time
  flags : msg.flags = ⟨(user.bind LocalizedUser.auth).isSome, privacy, false⟩
  authRange : msg.authRange.2 = msg.authRange.1 + authLen user
  authentic : ∀ protocol key, user.bind LocalizedUser.auth = some (protocol, key) →
    authentic crypto protocol key msg raw = true

/-- The scoped PDU of a message, decrypted with the keys of `user` where it is
encrypted. -/
def opened (crypto : Crypto) (user : Option LocalizedUser) (msg : V3Message) : Option ScopedPdu :=
  (user.bind (decrypted crypto msg)).or msg.scopedPdu

section responses

variable {crypto : Crypto} {req : V3Message} {engine : Snapshot}

theorem authLen_pos_iff (user : Option LocalizedUser) :
    0 < authLen user ↔ (user.bind LocalizedUser.auth).isSome = true := by
  unfold authLen
  split
  · rename_i protocol key h
    have hpos : 0 < authParamsLen protocol := by cases protocol <;> decide
    rw [h]
    exact iff_of_true hpos rfl
  · rename_i h
    rw [h]
    decide

/-- A message authenticated with the keys of `user`, read. -/
theorem echoes_messageOctets {user : Option LocalizedUser} {privacy : Bool} {salt data : Octets}
    (hrange : InRange req engine) {scopedPdu : Option ScopedPdu} {encrypted : Option Octets}
    (hdata : ∀ a, ∃ stop, msgData ⟨a, data⟩ privacy = .ok ((scopedPdu, encrypted), ⟨stop, []⟩))
    {auth : Octets}
    (hauth : auth = authOf crypto user fun auth => messageOctets req engine privacy auth salt data)
    (hlen : (messageOctets req engine privacy auth salt data).length < 4294967296) :
    ∃ msg, Echoes crypto req engine user privacy (messageOctets req engine privacy auth salt data) msg ∧
      msg.usm.privParams = salt ∧ msg.scopedPdu = scopedPdu ∧ msg.encrypted = encrypted := by
  have hdecode := decode_messageOctets hrange hlen hdata
  have hauthLen : auth.length = authLen user := by
    rw [hauth]
    exact length_authOf _ _ _
  refine ⟨_, ⟨hdecode, rfl, rfl, ⟨rfl, rfl, rfl⟩, ?_, ?_, ?_⟩, rfl, rfl, rfl⟩
  · rw [hauthLen]
    refine congrArg (fun auth => (⟨auth, privacy, false⟩ : Flags)) ?_
    rw [Bool.eq_iff_iff, decide_eq_true_iff, authLen_pos_iff]
  · rw [hauthLen]
  · intro protocol key hkey
    refine authentic_messageOctets ?_ hdecode rfl rfl
    rw [hauth, authOf, hkey]

variable {α : Type} {pdu : Octets → Octets × α} {a : α} {tag : Tag} {id status index : Int}
  {varbinds : Octets}

/-- A message to a user without privacy keys is written as one that is not
encrypted. -/
theorem writeMessage_of_no_privacy (out : Octets) {user : LocalizedUser} (hnone : user.privacy = none)
    (salts : SaltCounter) :
    writeMessage crypto req engine out (some user) (some salts) pdu =
      ((writeMessage crypto req engine out (some user) none pdu).1, some salts) := by
  have hprivacy : privacyOf (some user) true = none := by
    rw [privacyOf, if_pos rfl, Option.bind_some, hnone]
    rfl
  have hplain : privacyOf (some user) false = none := rfl
  unfold writeMessage
  simp only [Option.isSome_some, Option.isSome_none, hprivacy, hplain, Bool.false_eq_true, if_false]

section written

variable (hrange : InRange req engine) (hname : req.usm.user.length ≤ 1073741824)
  (hid : engine.id.length ≤ 32) (hpdu : ReadablePdu tag id status index)
  (hlen : (pduOctets tag id status index varbinds).length < 2147483648)
  (hwrites : ∀ out, pdu out = (out ++ pduOctets tag id status index varbinds, a)) (out : Octets)

include hid hlen in
theorem scopedOctets_lt :
    (scopedOctets engine (pduOctets tag id status index varbinds)).length < 4294967296 := by
  have hle := scopedLen_le hid hlen
  rw [length_scopedOctets]
  omega

include hrange hname hid hpdu hlen hwrites in
theorem writeMessage_plain_reads (user : Option LocalizedUser) :
    ∃ raw msg, writeMessage crypto req engine out user none pdu = ((out ++ raw, a), none) ∧
      Echoes crypto req engine user false raw msg ∧ msg.encrypted = none ∧
      msg.scopedPdu = some ⟨engine.id, [], ⟨version, [], tag, id, status, index, varbinds⟩⟩ := by
  have hbound : messageLen req engine user false _ < 4294967296 :=
    (messageLen_le user false hid hlen hname).trans_lt (by omega)
  have hdata := msgData_scopedOctets hpdu (scopedOctets_lt hid hlen)
  obtain ⟨msg, hechoes, -, hscoped, hencrypted⟩ :=
    @echoes_messageOctets crypto req engine user false [] _ hrange _ _ hdata _ rfl
      ((length_messageOctets req engine user false _ (length_authOf _ _ _) rfl rfl false).trans_lt hbound)
  exact ⟨_, msg, writeMessage_plain crypto req engine out user hwrites (hbound.trans (by decide)), hechoes,
    hencrypted, hscoped⟩

include hrange hname hid hpdu hlen hwrites in
theorem writeMessage_private_reads (hinverts : Inverts crypto) {user : LocalizedUser}
    {protocol : PrivProtocol} {key : Octets} (hpriv : user.privacy = some (protocol, key))
    (salts : SaltCounter) :
    ∃ raw salts' msg, writeMessage crypto req engine out (some user) (some salts) pdu =
        ((out ++ raw, a), salts') ∧
      Echoes crypto req engine (some user) true raw msg ∧ msg.encrypted.isSome = true ∧
      decrypted crypto msg user =
        some ⟨engine.id, [], ⟨version, [], tag, id, status, index, varbinds⟩⟩ := by
  have hbound : messageLen req engine (some user) true _ < 4294967296 :=
    (messageLen_le (some user) true hid hlen hname).trans_lt (by omega)
  have hprivacy : privacyOf (some user) true = some protocol := by
    rw [privacyOf, if_pos rfl, Option.bind_some, hpriv]
    rfl
  have hwritten := writeMessage_private crypto req engine out hpriv salts hwrites (hbound.trans (by decide))
  have hdecrypt := decrypt_sealedOf hinverts hpriv salts
    (decodeScopedPdu_padded hpdu (scopedOctets_lt hid hlen) protocol)
  have hsalt : (sealedOf crypto engine protocol key salts
      (pduOctets tag id status index varbinds)).1.length = privLen (privacyOf (some user) true) := by
    rw [hprivacy]
    exact length_salt salts protocol engine.boots
  have hcipher : (tlv .octetString (sealedOf crypto engine protocol key salts
      (pduOctets tag id status index varbinds)).2).length =
      (plainData engine (privacyOf (some user) true) (pduOctets tag id status index varbinds)).length := by
    rw [hprivacy, plainData, length_tlv, length_tlv]
    exact congrArg tlvLen (crypto.length_cipher _ _ _ _ _)
  generalize sealedOf crypto engine protocol key salts (pduOctets tag id status index varbinds) = s
    at hwritten hdecrypt hsalt hcipher
  have hauth := length_authOf crypto (some user) fun auth =>
    messageOctets req engine true auth s.1 (tlv .octetString s.2)
  have hshort := (length_messageOctets req engine (some user) true _ hauth hsalt hcipher true).trans_lt hbound
  have htext : s.2.length < 4294967296 := by
    rw [messageOctets, length_tlv, length_bodyOctets, length_tlv] at hshort
    exact (((le_tlvLen _).trans (Nat.le_add_left _ _)).trans (le_tlvLen _)).trans_lt hshort
  obtain ⟨msg, hechoes, hparams, -, hencrypted⟩ :=
    @echoes_messageOctets crypto req engine (some user) true s.1 _ hrange _ _
      (msgData_cipherText htext) _ rfl hshort
  obtain ⟨-, hmsgBoots, hmsgTime⟩ := hechoes.snapshot
  refine ⟨_, _, msg, hwritten, hechoes, by rw [hencrypted]; rfl, ?_⟩
  rw [decrypted, hencrypted, hmsgBoots, hmsgTime, hparams, Option.bind_some, hdecrypt]
  rfl

end written

/-- The octets of a response decode to its PDU, from the engine and for the
user of the request, at the level it is written at. -/
theorem response_roundTrip (hinverts : Inverts crypto) {datagram : Octets} (hreq : decode datagram = .ok req)
    (hdatagram : datagram.length ≤ 1073741824) (hid : engine.id.length ≤ 32)
    (hboots : engine.boots ≤ 2147483647) (htime : engine.time ≤ 2147483647)
    (hpdu : tag.isPdu = true) (hrequest : IsI64 id) (hstatus : IsI64 status) (hindex : IsI64 index)
    (hlen : (pduOctets tag id status index varbinds).length < 2147483648)
    (hwrites : ∀ out, pdu out = (out ++ pduOctets tag id status index varbinds, a)) (out : Octets) :
    let written : ScopedPdu := ⟨engine.id, [], ⟨version, [], tag, id, status, index, varbinds⟩⟩
    (∀ user, ∃ raw msg, writeResponse crypto req engine out user pdu = (out ++ raw, a) ∧
      Echoes crypto req engine user false raw msg ∧ msg.scopedPdu = some written) ∧
    ∀ user salts, ∃ raw salts' msg,
      writePrivateResponse crypto req engine out user salts pdu = ((out ++ raw, a), salts') ∧
      Echoes crypto req engine (some user) user.privacy.isSome raw msg ∧
      msg.encrypted.isSome = user.privacy.isSome ∧ opened crypto (some user) msg = some written := by
  have hmsg := decode_ok hreq
  have hname := hmsg.user.trans hdatagram
  have hrange : InRange req engine := ⟨hmsg.msgId, hboots, htime⟩
  have hread : ReadablePdu tag id status index := ⟨hpdu, hrequest, hstatus, hindex⟩
  have hplain := @writeMessage_plain_reads crypto req engine α pdu a tag id status index varbinds
    hrange hname hid hread hlen hwrites out
  refine ⟨fun user => ?_, fun user salts => ?_⟩
  · obtain ⟨raw, msg, hwritten, hechoes, -, hscoped⟩ := hplain user
    exact ⟨raw, msg, congrArg Prod.fst hwritten, hechoes, hscoped⟩
  · unfold writePrivateResponse opened
    cases hpriv : user.privacy with
    | none =>
      obtain ⟨raw, msg, hwritten, hechoes, hencrypted, hscoped⟩ := hplain (some user)
      refine ⟨raw, salts, msg, ?_, hechoes, by rw [hencrypted]; rfl, ?_⟩
      · rw [writeMessage_of_no_privacy out hpriv, hwritten]
        rfl
      · rw [Option.bind_some, decrypted, hencrypted]
        exact hscoped
    | some keys =>
      obtain ⟨raw, salts', msg, hwritten, hechoes, hencrypted, hdecrypted⟩ :=
        writeMessage_private_reads hrange hname hid hread hlen hwrites out hinverts hpriv salts
      refine ⟨raw, salts'.getD salts, msg, by rw [hwritten], hechoes, hencrypted, ?_⟩
      rw [Option.bind_some, hdecrypted]
      rfl

end responses

theorem recordedCrypto_inverts : Inverts recordedCrypto := by
  intro protocol key iv data _
  simp only [recordedCrypto]
  split
  · exact exchange_exchange _ _ data
  · exact exchange_exchange _ _ data

theorem response_roundTrip_secure :
    ∃ req raw salts msg, decode secureRequest = .ok req ∧
      writePrivateResponse recordedCrypto req ⟨[1, 2, 3, 4, 5], 1, 100⟩ [] secureUser ⟨0, 0⟩
        (fun out => (out ++ pduOctets .response 1 0 0 [], ())) = ((raw, ()), salts) ∧
      Echoes recordedCrypto req ⟨[1, 2, 3, 4, 5], 1, 100⟩ (some secureUser) true raw msg ∧
      opened recordedCrypto (some secureUser) msg =
        some ⟨[1, 2, 3, 4, 5], [], ⟨version, [], .response, 1, 0, 0, []⟩⟩ := by
  cases hreq : decode secureRequest with
  | error e =>
    have hok : (decode secureRequest).toOption.isSome = true := by decide
    rw [hreq] at hok
    exact absurd hok Bool.false_ne_true
  | ok req =>
    obtain ⟨-, hprivate⟩ := @response_roundTrip recordedCrypto req ⟨[1, 2, 3, 4, 5], 1, 100⟩ Unit _ ()
      .response 1 0 0 [] recordedCrypto_inverts _ hreq (by decide) (by decide) (by decide) (by decide)
      rfl (by unfold IsI64; decide) (by unfold IsI64; decide) (by unfold IsI64; decide) (by decide)
      (fun _ => rfl) []
    obtain ⟨raw, salts, msg, hwritten, hechoes, -, hopened⟩ := hprivate secureUser ⟨0, 0⟩
    exact ⟨req, raw, salts, msg, rfl, hwritten, hechoes, hopened⟩

end Sonda.Snmp.V3
