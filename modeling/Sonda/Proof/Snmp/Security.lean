import Sonda.Proof.Snmp.Answers

/-!
# What an SNMPv3 answer is worth

`usmChecks` are the checks of a request in their order; a report names the
first that fails, and a request that passes all is answered
(`verify_settles`). `answerV3_secure`: a message that is answered with a
response names the agent's engine and a user of it, is at that user's level,
authentic and in the time window when the user authenticates, and its PDU was
decrypted with the user's key when the user encrypts; and its response is at
that level.

`V3.decode_ok` is what a decoded message is in its datagram.
-/

namespace Sonda.Snmp

open Framework V3 List Option

variable {crypto : Crypto} {engine : Engine} {users : List LocalizedUser} {user : LocalizedUser}
  {raw : Octets} {r r' : Reader} {msg : V3Message}

/-! ## Octets compared in constant time -/

theorem foldl_or_eq_zero (pairs : List (UInt8 × UInt8)) (acc : UInt8) :
    pairs.foldl (fun acc p => acc ||| (p.1 ^^^ p.2)) acc = 0 ↔ acc = 0 ∧ ∀ p ∈ pairs, p.1 = p.2 := by
  induction pairs generalizing acc with
  | nil => simp
  | cons p pairs ih =>
    rw [foldl_cons, ih, UInt8.or_eq_zero_iff, UInt8.xor_eq_zero_iff, forall_mem_cons, and_assoc]

theorem constantTimeEq_iff {a b : Octets} : constantTimeEq a b = true ↔ a = b := by
  rw [constantTimeEq, Bool.and_eq_true, beq_iff_eq, beq_iff_eq, foldl_or_eq_zero]
  constructor
  · rintro ⟨hlen, -, hall⟩
    refine ext_getElem hlen fun i hi hi' => ?_
    have hmem : (a[i], b[i]) ∈ a.zip b :=
      mem_iff_getElem.mpr ⟨i, by rw [length_zip]; omega, getElem_zip⟩
    exact hall _ hmem
  · rintro rfl
    refine ⟨rfl, rfl, fun p hp => ?_⟩
    obtain ⟨i, hi, rfl⟩ := getElem_of_mem hp
    rw [getElem_zip]

/-! ## A decoded message -/

/-- What a decoded message is in its datagram. -/
structure V3.Decoded (datagram : Octets) (msg : V3Message) : Prop where
  auth : Holds datagram msg.authRange.1 msg.authRange.2 msg.usm.authParams
  plain : msg.flags.privacy = false → msg.scopedPdu.isSome ∧ msg.encrypted = none
  ciphered : msg.flags.privacy = true → msg.scopedPdu = none ∧ msg.encrypted.isSome
  maxSize : 484 ≤ msg.msgMaxSize
  msgId : 0 ≤ msg.msgId ∧ msg.msgId ≤ maxField
  user : msg.usm.user.length ≤ datagram.length

theorem V3.field_ok {min value : Int} (h : field r min = .ok (value, r')) :
    ∃ s, r.expect .integer = .ok (s, r') ∧ min ≤ value ∧ value ≤ maxField := by
  obtain ⟨⟨v, r₁⟩, hv, h⟩ := bind_ok h
  obtain ⟨hrange, h⟩ := check_ok h
  cases h
  obtain ⟨⟨s, r₂⟩, hs, hv⟩ := bind_ok hv
  obtain ⟨v', -, hv⟩ := bind_ok hv
  cases hv
  exact ⟨s, hs, by omega, by omega⟩

theorem V3.globalData_ok {body : Reader} {global : GlobalData} (h : globalData body = .ok global) :
    484 ≤ global.msgMaxSize ∧ 0 ≤ global.msgId ∧ global.msgId ≤ maxField := by
  obtain ⟨⟨msgId, r₁⟩, hid, h⟩ := bind_ok h
  obtain ⟨⟨size, r₂⟩, hsize, h⟩ := bind_ok h
  obtain ⟨⟨octets, r₃⟩, -, h⟩ := bind_ok h
  dsimp only at h
  split at h
  · obtain ⟨⟨model, r₄⟩, -, h⟩ := bind_ok h
    obtain ⟨-, h⟩ := check_ok h
    cases h
    obtain ⟨-, -, hmin, -⟩ := V3.field_ok hsize
    obtain ⟨-, -, hid⟩ := V3.field_ok hid
    exact ⟨hmin, hid⟩
  · exact nomatch h

theorem V3.securityParams_ok {content : Reader} {usm : UsmParams} {range : Nat × Nat}
    (hin : Holds raw content.start content.stop content.octets)
    (h : securityParams content = .ok (usm, range)) :
    Holds raw range.1 range.2 usm.authParams ∧ usm.user.length ≤ raw.length := by
  obtain ⟨⟨body, r₁⟩, hbody, h⟩ := bind_ok h
  obtain ⟨-, h⟩ := check_ok h
  obtain ⟨⟨engineId, r₂⟩, hengine, h⟩ := bind_ok h
  obtain ⟨⟨boots, r₃⟩, hboots, h⟩ := bind_ok h
  obtain ⟨⟨time, r₄⟩, htime, h⟩ := bind_ok h
  obtain ⟨⟨user, r₅⟩, huser, h⟩ := bind_ok h
  obtain ⟨⟨auth, r₆⟩, hauth, h⟩ := bind_ok h
  obtain ⟨⟨priv, r₇⟩, -, h⟩ := bind_ok h
  obtain ⟨-, h⟩ := check_ok h
  cases h
  obtain ⟨_, hboots, -⟩ := V3.field_ok hboots
  obtain ⟨_, htime, -⟩ := V3.field_ok htime
  have h₂ := ((hin.expect hbody).1.expect hengine).2
  have h₅ := ((h₂.expect hboots).2.expect htime).2.expect huser
  exact ⟨(h₅.2.expect hauth).1, h₅.1.length_le⟩

theorem V3.msgData_ok {privacy : Bool} {scopedPdu : Option ScopedPdu} {encrypted : Option Octets}
    (h : msgData r privacy = .ok ((scopedPdu, encrypted), r')) :
    (privacy = false → scopedPdu.isSome ∧ encrypted = none) ∧
      (privacy = true → scopedPdu = none ∧ encrypted.isSome) := by
  unfold msgData at h
  split at h
  · rename_i hprivacy
    obtain ⟨⟨s, r₁⟩, -, h⟩ := bind_ok h
    obtain ⟨hdata, -⟩ := Prod.mk.inj (Except.ok.inj h)
    obtain ⟨rfl, rfl⟩ := Prod.mk.inj hdata
    exact ⟨fun hf => absurd hprivacy (by rw [hf]; exact Bool.false_ne_true), fun _ => ⟨rfl, rfl⟩⟩
  · rename_i hprivacy
    obtain ⟨⟨s, r₁⟩, -, h⟩ := bind_ok h
    obtain ⟨pdu, -, h⟩ := bind_ok h
    obtain ⟨hdata, -⟩ := Prod.mk.inj (Except.ok.inj h)
    obtain ⟨rfl, rfl⟩ := Prod.mk.inj hdata
    exact ⟨fun _ => ⟨rfl, rfl⟩, fun ht => absurd ht hprivacy⟩

theorem V3.decode_ok {datagram : Octets} (h : V3.decode datagram = .ok msg) :
    V3.Decoded datagram msg := by
  obtain ⟨⟨body, outer⟩, hbody, h⟩ := bind_ok h
  obtain ⟨-, h⟩ := check_ok h
  obtain ⟨⟨version, r₁⟩, hversion, h⟩ := bind_ok h
  obtain ⟨-, h⟩ := check_ok h
  obtain ⟨⟨globalBody, r₂⟩, hglobal, h⟩ := bind_ok h
  obtain ⟨global, hdata, h⟩ := bind_ok h
  obtain ⟨⟨content, r₃⟩, hcontent, h⟩ := bind_ok h
  obtain ⟨⟨usm, range⟩, husm, h⟩ := bind_ok h
  obtain ⟨⟨⟨scopedPdu, encrypted⟩, r₄⟩, hmsg, h⟩ := bind_ok h
  obtain ⟨-, h⟩ := check_ok h
  cases h
  obtain ⟨⟨s, _⟩, hs, hversion⟩ := bind_ok hversion
  obtain ⟨_, -, hversion⟩ := bind_ok hversion
  cases hversion
  have hraw : Holds datagram 0 (Reader.new datagram).stop datagram :=
    ⟨[], [], by simp, rfl, rfl⟩
  have hin := (((hraw.expect hbody).1.expect hs).2.expect hglobal).2
  obtain ⟨hplain, hsealed⟩ := V3.msgData_ok hmsg
  obtain ⟨hsize, hid⟩ := V3.globalData_ok hdata
  obtain ⟨hauth, huser⟩ := V3.securityParams_ok (hin.expect hcontent).1 husm
  have hnat : 484 ≤ global.msgMaxSize.toNat := by omega
  exact ⟨hauth, hplain, hsealed, hnat, hid, huser⟩

theorem V3.Decoded.isSome_encrypted {datagram : Octets} (h : V3.Decoded datagram msg) :
    msg.encrypted.isSome = msg.flags.privacy := by
  cases hp : msg.flags.privacy with
  | false => rw [(h.plain hp).2]; rfl
  | true => exact (h.ciphered hp).2

/-! ## The checks in their order -/

/-- The scoped PDU a request's ciphertext decrypts to with the keys of `user`. -/
def decrypted (crypto : Crypto) (msg : V3Message) (user : LocalizedUser) : Option ScopedPdu :=
  msg.encrypted.bind fun cipherText =>
    (decrypt crypto user msg.usm.boots msg.usm.time msg.usm.privParams cipherText).toOption

/-- The checks that need the keys of the user. -/
def keyChecks (crypto : Crypto) (seconds : Nat) (msg : V3Message) (raw : Octets) (engine : Engine)
    (user : LocalizedUser) : List (UsmStat × Bool) :=
  [(.wrongDigests, user.auth.all fun auth => authentic crypto auth.1 auth.2 msg raw),
    (.notInTimeWindows, user.auth.isNone || engine.inWindow seconds msg.usm.boots msg.usm.time),
    (.decryptionErrors, user.privacy.isNone ||
      (decrypted crypto msg user).any fun scopedPdu => scopedPdu.contextEngineId == engine.id)]

/-- The checks of RFC 3414 in their order, each with the counter of its
failures. -/
def usmChecks (crypto : Crypto) (seconds : Nat) (msg : V3Message) (raw : Octets) (engine : Engine)
    (users : List LocalizedUser) : List (UsmStat × Bool) :=
  (.unknownEngineIds, !msg.usm.engineId.isEmpty && msg.usm.engineId == engine.id) ::
    match findUser users msg.usm.user with
    | none => [(.unknownUserNames, false)]
    | some user =>
      (.unknownUserNames, true) ::
        (.unsupportedSecLevels,
          (user.auth.isSome, user.privacy.isSome) == (msg.flags.auth, msg.flags.privacy)) ::
        keyChecks crypto seconds msg raw engine user

/-- The first check that fails. -/
def firstFailing (checks : List (UsmStat × Bool)) : Option UsmStat :=
  (checks.find? fun check => !check.2).map Prod.fst

theorem firstFailing_eq_none {checks : List (UsmStat × Bool)} :
    firstFailing checks = none ↔ ∀ check ∈ checks, check.2 = true := by
  rw [firstFailing, map_eq_none_iff, find?_eq_none]
  simp only [Bool.not_eq_true', Bool.not_eq_false]

section verify

variable {crypto : Crypto} {seconds : Nat} {msg : V3Message} {raw : Octets} {engine : Engine}
  {users : List LocalizedUser}

/-- `verdict` is a report of the first of `checks` that fails, or the answer to
`user` when none does. -/
def Settles (crypto : Crypto) (msg : V3Message) (user : Option LocalizedUser)
    (checks : List (UsmStat × Bool)) (verdict : UsmVerdict) : Prop :=
  match verdict with
  | .report stat _ => firstFailing checks = some stat
  | .answer user' authenticated scopedPdu => firstFailing checks = none ∧ user = some user' ∧
      authenticated = user'.auth.isSome ∧ scopedPdu = decrypted crypto msg user'

theorem verifyUser_settles {user : LocalizedUser} (hmsg : V3.Decoded raw msg)
    (hprivacy : user.privacy.isSome = msg.flags.privacy) :
    Settles crypto msg (some user) (keyChecks crypto seconds msg raw engine user)
      (verifyUser crypto seconds msg raw engine user) := by
  unfold verifyUser keyChecks
  have hsealed : user.privacy.isNone = !msg.encrypted.isSome := by
    rw [hmsg.isSome_encrypted, ← hprivacy, not_isSome]
  cases hauth : user.auth with
  | none =>
    have hnone : user.privacy = none := by
      by_contra hne
      have hsome := user.auth_of_privacy (isSome_iff_ne_none.mpr hne)
      rw [hauth] at hsome
      exact nomatch hsome
    rw [hnone] at hprivacy
    have hencrypted : msg.encrypted = none := (hmsg.plain hprivacy.symm).2
    rw [hnone]
    exact ⟨rfl, rfl, by rw [hauth]; rfl, by rw [decrypted, hencrypted]; rfl⟩
  | some auth =>
    obtain ⟨protocol, key⟩ := auth
    have hauthenticated : true = user.auth.isSome := by rw [hauth]; rfl
    dsimp only [all_some, isNone_some]
    cases authentic crypto protocol key msg raw with
    | false => rfl
    | true =>
      cases engine.inWindow seconds msg.usm.boots msg.usm.time with
      | false => rfl
      | true =>
        cases hencrypted : msg.encrypted with
        | none =>
          rw [hencrypted] at hsealed
          rw [hsealed]
          exact ⟨rfl, rfl, hauthenticated, by rw [decrypted, hencrypted]; rfl⟩
        | some encrypted =>
          rw [hencrypted] at hsealed
          have hdecrypted : decrypted crypto msg user = (decrypt crypto user msg.usm.boots msg.usm.time
              msg.usm.privParams encrypted).toOption := by
            rw [decrypted, hencrypted]
            rfl
          rw [show user.privacy.isNone = false from hsealed, Bool.false_or, hdecrypted]
          dsimp only
          cases hd : decrypt crypto user msg.usm.boots msg.usm.time msg.usm.privParams encrypted with
          | error e => rfl
          | ok scopedPdu =>
            rw [hd] at hdecrypted
            dsimp only [Except.toOption, any_some]
            by_cases hcontext : scopedPdu.contextEngineId = engine.id
            · rw [Bool.not_true, if_neg Bool.false_ne_true, if_pos hcontext, beq_iff_eq.mpr hcontext]
              exact ⟨rfl, rfl, hauthenticated, hdecrypted.symm⟩
            · rw [Bool.not_true, if_neg Bool.false_ne_true, if_neg hcontext,
                beq_eq_false_iff_ne.mpr hcontext]
              rfl

/-- `verify` reports the first check that fails, and answers when none does. -/
theorem verify_settles (hmsg : V3.Decoded raw msg) :
    Settles crypto msg (findUser users msg.usm.user) (usmChecks crypto seconds msg raw engine users)
      (verify crypto seconds msg raw engine users) := by
  rw [verify, usmChecks]
  by_cases hengine : msg.usm.engineId.isEmpty = true ∨ msg.usm.engineId ≠ engine.id
  · have hfails : (!msg.usm.engineId.isEmpty && msg.usm.engineId == engine.id) = false := by
      rcases hengine with h | h <;> simp [h]
    rw [if_pos hengine, hfails]
    rfl
  · have hpasses : (!msg.usm.engineId.isEmpty && msg.usm.engineId == engine.id) = true := by
      simpa using hengine
    rw [if_neg hengine, hpasses]
    cases findUser users msg.usm.user with
    | none => rfl
    | some user =>
      dsimp only
      by_cases hlevel : (user.auth.isSome, user.privacy.isSome) = (msg.flags.auth, msg.flags.privacy)
      · rw [if_neg (not_not.mpr hlevel), beq_iff_eq.mpr hlevel]
        exact verifyUser_settles hmsg (Prod.mk.inj hlevel).2
      · rw [if_pos hlevel, beq_eq_false_iff_ne.mpr hlevel]
        rfl

end verify

/-! ## Trust -/

/-- The request `msg` in `datagram` is one that `user` of the agent has sent,
as far as its configured level says. -/
structure Trusted (crypto : Crypto) (seconds : Nat) (datagram : Octets) (engine : Engine)
    (users : List LocalizedUser) (msg : V3Message) (user : LocalizedUser) : Prop where
  engineId : msg.usm.engineId = engine.id
  engineId_ne : engine.id ≠ []
  configured : user ∈ users
  named : user.name = msg.usm.user
  auth : msg.flags.auth = user.auth.isSome
  privacy : msg.flags.privacy = user.privacy.isSome
  digest : ∀ {protocol key}, user.auth = some (protocol, key) → ∃ before after,
    datagram = before ++ msg.usm.authParams ++ after ∧ before.length = msg.authRange.1 ∧
      msg.usm.authParams.length = authParamsLen protocol ∧
      msg.usm.authParams =
        hmac crypto protocol key (before ++ List.replicate msg.usm.authParams.length 0 ++ after)
  window : user.auth.isSome → engine.boots < maxBootsOrTime ∧ msg.usm.boots = engine.boots ∧
    ((msg.usm.time : Int) - Engine.time seconds).natAbs ≤ 150

/-- `scopedPdu` is what the request asks: decrypted with the keys of `user`
when it encrypts. -/
def Asks (crypto : Crypto) (engine : Engine) (msg : V3Message) (user : LocalizedUser)
    (scopedPdu : ScopedPdu) : Prop :=
  if user.privacy.isSome then
    ∃ cipherText, msg.encrypted = some cipherText ∧
      decrypt crypto user msg.usm.boots msg.usm.time msg.usm.privParams cipherText = .ok scopedPdu ∧
      scopedPdu.contextEngineId = engine.id
  else msg.scopedPdu = some scopedPdu

/-- `out` is a message of the PDU `pdu`, encrypted and authenticated with the
keys that `user` has. -/
def AtLevel (crypto : Crypto) (msg : V3Message) (engine : Snapshot) (user : LocalizedUser)
    (pdu out : Octets) : Prop :=
  match user.privacy with
  | some (protocol, key) => ∃ salts, let s := sealedOf crypto engine protocol key salts pdu
      out = messageOctets msg engine true (authOf crypto (some user) fun auth =>
        messageOctets msg engine true auth s.1 (tlv .octetString s.2)) s.1 (tlv .octetString s.2)
  | none => out = messageOctets msg engine false (authOf crypto (some user) fun auth =>
      messageOctets msg engine false auth [] (scopedOctets engine pdu)) [] (scopedOctets engine pdu)

/-- The answer is a response. `answerPdu` counts the version of each response
it writes; a report counts its statistic only. -/
def Answered.isResponse (a : Answered) : Prop := a.outcome = .sent ∧ Counter.v3 ∈ a.counted

theorem authentic_iff {protocol : AuthProtocol} {key : Octets} (hmsg : V3.Decoded raw msg)
    (h : authentic crypto protocol key msg raw = true) :
    ∃ before after, raw = before ++ msg.usm.authParams ++ after ∧ before.length = msg.authRange.1 ∧
      msg.usm.authParams.length = authParamsLen protocol ∧ msg.usm.authParams =
        hmac crypto protocol key (before ++ List.replicate msg.usm.authParams.length 0 ++ after) := by
  obtain ⟨before, after, hraw, hstart, hstop⟩ := hmsg.auth
  unfold authentic at h
  dsimp only at h
  split at h
  · exact nomatch h
  split at h
  · exact nomatch h
  rename_i hlen
  obtain ⟨hlen, -⟩ := not_or.mp hlen
  have hlen := not_not.mp hlen
  have htake : raw.take msg.authRange.1 = before := by
    rw [hraw, hstart, append_assoc, take_left]
  have hdrop : raw.drop msg.authRange.2 = after := by
    rw [hraw, hstop, ← length_append, drop_left]
  rw [htake, hdrop] at h
  refine ⟨before, after, hraw, hstart.symm, hlen, ?_⟩
  rw [hlen]
  exact (constantTimeEq_iff.mp h).symm

theorem name_of_findUser {name : Octets} (h : findUser users name = some user) :
    user ∈ users ∧ user.name = name := by
  have hname : (user.name == name) = true :=
    @find?_some _ (fun user : LocalizedUser => user.name == name) _ _ h
  exact ⟨mem_of_find?_eq_some h, beq_iff_eq.mp hname⟩

/-- A request that passes every check is trusted. -/
theorem trusted_of_checks {seconds : Nat} (hmsg : V3.Decoded raw msg)
    (huser : findUser users msg.usm.user = some user)
    (h : firstFailing (usmChecks crypto seconds msg raw engine users) = none) :
    Trusted crypto seconds raw engine users msg user ∧ (user.privacy.isSome → ∃ scopedPdu,
      decrypted crypto msg user = some scopedPdu ∧ scopedPdu.contextEngineId = engine.id) := by
  rw [usmChecks, huser, firstFailing_eq_none] at h
  simp only [keyChecks, forall_mem_cons] at h
  obtain ⟨hengine, -, hlevel, hdigest, hwindow, hdecrypt, -⟩ := h
  obtain ⟨hnonempty, hid⟩ := Bool.and_eq_true_iff.mp hengine
  obtain ⟨hauth, hprivacy⟩ := Prod.mk.inj (beq_iff_eq.mp hlevel)
  have hid := beq_iff_eq.mp hid
  obtain ⟨hmem, hname⟩ := name_of_findUser huser
  refine ⟨⟨hid, ?_, hmem, hname, hauth.symm,
    hprivacy.symm, fun {protocol key} ha => ?_, fun ha => ?_⟩, fun hp => ?_⟩
  · rw [← hid]
    simpa using hnonempty
  · rw [ha] at hdigest
    exact authentic_iff hmsg hdigest
  · have hin : engine.inWindow seconds msg.usm.boots msg.usm.time = true := by
      rw [← not_isSome, ha] at hwindow
      exact hwindow
    rw [Engine.inWindow, Bool.and_eq_true, Bool.and_eq_true, decide_eq_true_eq, decide_eq_true_eq,
      beq_iff_eq, and_assoc] at hin
    exact hin
  · rw [← not_isSome, hp, Bool.not_true, Bool.false_or] at hdecrypt
    cases hs : decrypted crypto msg user with
    | none =>
      rw [hs] at hdecrypt
      exact nomatch hdecrypt
    | some scopedPdu =>
      rw [hs] at hdecrypt
      exact ⟨scopedPdu, rfl, beq_iff_eq.mp hdecrypt⟩

/-! ## Responses and reports -/

theorem atLevel_message (crypto : Crypto) (msg : V3Message) (engine : Snapshot) (user : LocalizedUser)
    (salts : SaltCounter) (id status index : Int) (body : Octets)
    (hlen : ((Envelope.v3 msg engine (if user.auth.isSome then some user else none)
      user.privacy.isSome).message crypto salts id status index body).length < 18446744073709551616) :
    AtLevel crypto msg engine user (pduOctets .response id status index body)
      ((Envelope.v3 msg engine (if user.auth.isSome then some user else none)
        user.privacy.isSome).message crypto salts id status index body) := by
  have hpdu : ∀ out, writePdu out .response id status index (fun out => (out ++ body, ())) =
      (out ++ pduOctets .response id status index body, ()) :=
    fun out => writePdu_eq (fun _ => rfl) out .response id status index
  rw [Envelope.length_message] at hlen
  unfold AtLevel Envelope.message Envelope.write
  unfold Envelope.len at hlen
  rw [← length_pduOctets .response] at hlen
  cases hprivacy : user.privacy with
  | some p =>
    have hauth : user.auth.isSome = true := user.auth_of_privacy (by rw [hprivacy]; rfl)
    rw [hauth, hprivacy] at hlen
    rw [hauth]
    refine ⟨salts, ?_⟩
    have hwritten := writeMessage_private crypto msg engine [] hprivacy salts hpdu hlen
    dsimp only [isSome_some] at hwritten ⊢
    rw [if_pos rfl]
    dsimp only
    rw [writePrivateResponse, hwritten]
    rfl
  | none =>
    rw [hprivacy] at hlen
    cases hauth : user.auth with
    | some auth =>
      rw [hauth] at hlen
      have hwritten := writeMessage_plain crypto msg engine [] (some user) hpdu hlen
      dsimp only [isSome_some, isSome_none]
      rw [if_pos rfl]
      dsimp only
      rw [writeResponse, hwritten]
      rfl
    | none =>
      rw [hauth] at hlen
      have hwritten := writeMessage_plain crypto msg engine [] none hpdu hlen
      have hnone : ∀ message, authOf crypto (some user) message = authOf crypto none message := by
        intro message
        rw [authOf, authOf, bind_some, hauth]
        rfl
      dsimp only [isSome_none]
      rw [if_neg Bool.false_ne_true, hnone]
      dsimp only
      rw [writeResponse, hwritten]
      rfl

/-- What is answered is what the message holds in plain, or its ciphertext. -/
theorem asks_of_decoded {scopedPdu : ScopedPdu} (hmsg : V3.Decoded raw msg)
    (hprivacy : msg.flags.privacy = user.privacy.isSome)
    (hdecrypted : user.privacy.isSome → ∃ scopedPdu, decrypted crypto msg user = some scopedPdu ∧
      scopedPdu.contextEngineId = engine.id)
    (h : (decrypted crypto msg user).or msg.scopedPdu = some scopedPdu) :
    Asks crypto engine msg user scopedPdu := by
  unfold Asks
  split
  · rename_i hp
    obtain ⟨scopedPdu', hs, hcontext⟩ := hdecrypted hp
    rw [hs, some_or] at h
    cases h
    obtain ⟨cipherText, hcipher, hd⟩ := bind_eq_some_iff.mp hs
    refine ⟨cipherText, hcipher, ?_, hcontext⟩
    cases hdec : decrypt crypto user msg.usm.boots msg.usm.time msg.usm.privParams cipherText with
    | error e =>
      rw [hdec] at hd
      exact nomatch hd
    | ok s =>
      rw [hdec] at hd
      exact congrArg Except.ok (some.inj hd)
  · rename_i hp
    have hplain := hmsg.plain (by rw [hprivacy]; exact Bool.eq_false_iff.mpr hp)
    rwa [decrypted, hplain.2, bind_none, none_or] at h

/-- A response in an SNMPv3 envelope is counted. -/
theorem v3_mem_counted (crypto : Crypto) (agent : SnmpAgent) (salts : SaltCounter) (pdu : Pdu)
    (msg : V3Message) (engine : Snapshot) (user : Option LocalizedUser) (salted : Bool) (budget : Nat)
    (h : (answerPdu crypto agent salts pdu (.v3 msg engine user salted) budget).outcome = .sent) :
    Counter.v3 ∈ (answerPdu crypto agent salts pdu (.v3 msg engine user salted) budget).counted := by
  unfold answerPdu at h ⊢
  split
  · rename_i hparts
    rw [hparts] at h
    exact nomatch h
  · rename_i counter id vars hparts
    rw [hparts] at h
    dsimp only at h ⊢
    split
    · rename_i e he
      rw [he] at h
      exact nomatch h
    · exact mem_append_right _ (mem_cons_of_mem _ mem_cons_self)

theorem UsmStat.counter_ne_v3 (stat : UsmStat) : Counter.v3 ∉ [stat.counter] := by
  cases stat <;> decide

theorem answered_of_dropped {a : Answered} {P Q : Prop} (h : a.outcome = .droppedOther) :
    (a.isResponse → P) ∧ (a.outcome = .sent → ¬ a.isResponse → Q) := by
  have hne : a.outcome ≠ .sent := by
    rw [h]
    decide
  exact ⟨fun hr => absurd hr.1 hne, fun hs => absurd hs hne⟩

/-- An agent with one user, who authenticates and encrypts. -/
def secureSettings : AgentSettings :=
  { publicSettings with
    versions := [.v3], users := [⟨[0x75], some ⟨.md5, [1, 2, 3, 4, 5, 6, 7, 8]⟩,
      some ⟨.aes128, [8, 7, 6, 5, 4, 3, 2, 1]⟩⟩], engineId := some [1, 2, 3, 4, 5] }

/-! The digests of its two passwords, and its keys. -/

def authDigest : Octets := [150, 16, 204, 20, 174, 136, 66, 209, 87, 127, 225, 117, 189, 211, 117, 139]

def privDigest : Octets := [79, 18, 174, 166, 35, 239, 84, 42, 245, 37, 140, 75, 246, 158, 168, 26]

def secureUser : LocalizedUser where
  name := [0x75]
  auth := some (.md5, [69, 226, 50, 226, 91, 40, 100, 37, 155, 19, 128, 13, 177, 38, 73, 89])
  privacy := some (.aes128, [162, 193, 77, 122, 209, 31, 1, 151, 45, 150, 224, 90, 10, 165, 70, 23])
  auth_of_privacy _ := rfl

/-! A GetRequest from that user, 100 seconds after the bind, and the Response to it. -/

def securePdu (tag : Tag) : Octets := scopedOctets ⟨[1, 2, 3, 4, 5], 1, 100⟩ (pduOctets tag 1 0 0 [])

def requestData : Octets :=
  [39, 166, 135, 37, 219, 233, 93, 218, 224, 139, 183, 13, 199, 175, 53, 25, 126, 26, 202, 14, 136, 169,
    36, 228]

def responseData : Octets :=
  [145, 103, 217, 203, 192, 105, 63, 69, 20, 72, 132, 234, 184, 229, 185, 200, 4, 70, 64, 169, 215, 222,
    164, 32]

/-- The request with `auth` for its MAC. -/
def requestWith (auth : Octets) : Octets :=
  let msg : V3Message := ⟨7, 65507, ⟨true, true, false⟩, 3, ⟨[], 0, 0, [0x75], [], []⟩, (0, 0), none, none⟩
  messageOctets msg ⟨[1, 2, 3, 4, 5], 1, 100⟩ true auth (List.replicate 8 9) (tlv .octetString requestData)

def requestMac : Octets := [88, 87, 233, 48, 153, 36, 115, 14, 139, 164, 82, 132, 200, 82, 200, 21]

def secureRequest : Octets := requestWith (requestMac.take 12)

/-- Either of two texts for the other. -/
def exchange (a b data : Octets) : Octets := if data = a then b else if data = b then a else data

theorem exchange_exchange (a b data : Octets) : exchange a b (exchange a b data) = data := by
  unfold exchange
  split_ifs <;> simp_all

theorem length_exchange {a b : Octets} (h : a.length = b.length) (data : Octets) :
    (exchange a b data).length = data.length := by
  unfold exchange
  split_ifs <;> simp_all

/-- MD5, HMAC-MD5 and AES-128 in CFB mode, on what the two messages need of them. -/
def recordedCrypto : Crypto where
  hash _ data :=
    if data.length = stretchedPassword then if data.head? = some 1 then authDigest else privDigest
    else if data.head? = some 150 then secureUser.auth.elim [] Prod.snd
    else secureUser.privacy.elim [] Prod.snd
  mac _ _ message :=
    if message = requestWith (List.replicate 12 0) then requestMac
    else [118, 149, 180, 122, 146, 18, 72, 64, 173, 186, 76, 185, 159, 67, 127, 65]
  cipher _ _ iv _ data :=
    if iv.getLast? = some 9 then exchange (securePdu .getRequest) requestData data
    else exchange (securePdu .response) responseData data
  length_cipher _ _ iv _ data := by
    split
    · exact length_exchange (by decide) data
    · exact length_exchange (by decide) data

theorem passwordToKey_recorded (first : UInt8) (rest : Octets) :
    passwordToKey recordedCrypto .md5 (first :: rest) = if first = 1 then authDigest else privDigest := by
  have hne : stretchedPassword ≠ 0 := by decide
  simp [passwordToKey, recordedCrypto, List.head?_range, hne]

def secureAgent : SnmpAgent :=
  .bind recordedCrypto secureSettings ⟨[], [], ⟨0, 0⟩⟩ (bindTable secureSettings) 0 fun _ => 0

theorem secureAgent_usm : secureAgent.usm = ⟨.new [1, 2, 3, 4, 5] ⟨0, 0⟩, [secureUser]⟩ := by
  have hauth : localize recordedCrypto .md5 [1, 2, 3, 4, 5, 6, 7, 8] [1, 2, 3, 4, 5] =
      secureUser.auth.elim [] Prod.snd := by
    rw [localize, passwordToKey_recorded]
    decide
  have hpriv : localize recordedCrypto .md5 [8, 7, 6, 5, 4, 3, 2, 1] [1, 2, 3, 4, 5] =
      secureUser.privacy.elim [] Prod.snd := by
    rw [localize, passwordToKey_recorded]
    decide
  have hnew : LocalizedUser.new recordedCrypto ⟨[0x75], some ⟨.md5, [1, 2, 3, 4, 5, 6, 7, 8]⟩,
      some ⟨.aes128, [8, 7, 6, 5, 4, 3, 2, 1]⟩⟩ [1, 2, 3, 4, 5] = secureUser := by
    simp only [LocalizedUser.new, localizedAuth, localizedPrivacy, Option.map_some, Option.bind_some,
      hauth, hpriv]
    rfl
  exact congrArg (fun user => Usm.mk (.new [1, 2, 3, 4, 5] ⟨0, 0⟩) [user]) hnew

end Sonda.Snmp
