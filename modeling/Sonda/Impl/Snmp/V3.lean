import Sonda.Impl.Snmp.Usm

/-!
# SNMPv3 messages

`sonda-core/src/encoder/snmp/v3.rs`, with the encryption and decryption of
`sonda-core/src/sink/snmp/usm.rs` it calls. A decoded message keeps where its
authentication parameter is in the datagram (`authRange`), which the source
reads off the slices' pointers.

`writeBody` is the closure that writes the outer SEQUENCE's body, and
`writeMessage` what is done after its length is patched in: the body's start is
found again, the tail encrypted in place, the salt copied in, then the HMAC.
-/

namespace Sonda.Snmp.V3

def version : Int := 3

/-- The User-based Security Model. -/
def usmModel : Int := 3

def minMsgMaxSize : Int := 484
def maxField : Int := 2147483647
def msgMaxSize : Int := 65507
def authFlag : UInt8 := 0x01
def privFlag : UInt8 := 0x02
def reportableFlag : UInt8 := 0x04

structure Flags where
  auth : Bool
  privacy : Bool
  reportable : Bool
  deriving DecidableEq

def Flags.fromOctet (octet : UInt8) : Flags where
  auth := octet &&& authFlag != 0
  privacy := octet &&& privFlag != 0
  reportable := octet &&& reportableFlag != 0

def Flags.octet (flags : Flags) : UInt8 :=
  ([(flags.auth, authFlag), (flags.privacy, privFlag), (flags.reportable, reportableFlag)].filter
    fun p => p.1).foldl (fun octet p => octet ||| p.2) 0

structure UsmParams where
  engineId : Octets
  boots : Nat
  time : Nat
  user : Octets
  authParams : Octets
  privParams : Octets
  deriving DecidableEq

structure ScopedPdu where
  contextEngineId : Octets
  contextName : Octets
  /-- A `Message` of version 3 with an empty community. -/
  pdu : Message
  deriving DecidableEq

structure V3Message where
  msgId : Int
  msgMaxSize : Nat
  flags : Flags
  securityModel : Int
  usm : UsmParams
  /-- Where `usm.authParams` starts and ends in the datagram. -/
  authRange : Nat × Nat
  scopedPdu : Option ScopedPdu
  encrypted : Option Octets
  deriving DecidableEq

/-! ## Decoding -/

/-- An INTEGER from `min` to `2 ^ 31 - 1`. -/
def field (r : Reader) (min : Int) : Except BerError (Int × Reader) := do
  let (value, r) ← r.i64 .integer
  if value < min ∨ maxField < value then .error .overflow else .ok (value, r)

def scopedPduOf (body : Reader) : Except BerError ScopedPdu := do
  let (contextEngineId, fields) ← body.expect .octetString
  let (contextName, fields) ← fields.expect .octetString
  let ((pdu, pduBody), fields) ← fields.tlv
  if !pdu.isPdu then .error (.badTag pdu.byte)
  else if !fields.isEmpty then .error .badLength
  else
    let pdu ← pduFields version [] pdu pduBody
    .ok ⟨contextEngineId.octets, contextName.octets, pdu⟩

/-- A decrypted scoped PDU, and no more than `padding` octets after it. -/
def decodeScopedPdu (plain : Octets) (padding : Nat) : Except BerError ScopedPdu := do
  let (body, _) ← (Reader.new plain).expect .sequence
  let scopedPdu ← scopedPduOf body
  if padding < plain.length - body.stop then .error .badLength else .ok scopedPdu

structure GlobalData where
  msgId : Int
  msgMaxSize : Int
  flags : Flags
  securityModel : Int

/-- The body of `msgGlobalData`. -/
def globalData (body : Reader) : Except BerError GlobalData := do
  let (msgId, global) ← field body 0
  let (msgMaxSize, global) ← field global minMsgMaxSize
  let (octets, global) ← global.expect .octetString
  match octets.octets with
  | [octet] =>
    let (securityModel, global) ← field global 0
    if !global.isEmpty then .error .badLength
    else .ok ⟨msgId, msgMaxSize, .fromOctet octet, securityModel⟩
  | _ => .error .badLength

/-- The content of `msgSecurityParameters`, and where its authentication
parameter is. -/
def securityParams (content : Reader) : Except BerError (UsmParams × (Nat × Nat)) := do
  let (body, security) ← content.expect .sequence
  if !security.isEmpty then .error .badLength
  else
    let (engineId, params) ← Reader.expect body .octetString
    let (boots, params) ← field params 0
    let (time, params) ← field params 0
    let (user, params) ← params.expect .octetString
    let (authParams, params) ← params.expect .octetString
    let (privParams, params) ← params.expect .octetString
    if !params.isEmpty then .error .badLength
    else
      .ok (⟨engineId.octets, boots.toNat, time.toNat, user.octets, authParams.octets,
        privParams.octets⟩, (authParams.start, authParams.stop))

/-- `msgData`: a scoped PDU, or an encrypted one. -/
def msgData (r : Reader) (privacy : Bool) :
    Except BerError ((Option ScopedPdu × Option Octets) × Reader) :=
  if privacy then do
    let (encrypted, r) ← r.expect .octetString
    .ok ((none, some encrypted.octets), r)
  else do
    let (body, r) ← r.expect .sequence
    let scopedPdu ← scopedPduOf body
    .ok ((some scopedPdu, none), r)

def decode (datagram : Octets) : Except BerError V3Message := do
  let (body, outer) ← (Reader.new datagram).expect .sequence
  if !outer.isEmpty then .error .badLength
  else
    let (version, message) ← Reader.i64 body .integer
    if version ≠ V3.version then .error (.unsupportedVersion version)
    else
      let (globalBody, message) ← message.expect .sequence
      let global ← globalData globalBody
      let (content, message) ← message.expect .octetString
      let (usm, authRange) ← securityParams content
      let ((scopedPdu, encrypted), message) ← msgData message global.flags.privacy
      if !message.isEmpty then .error .badLength
      else
        .ok { msgId := global.msgId, msgMaxSize := global.msgMaxSize.toNat, flags := global.flags,
              securityModel := global.securityModel, usm, authRange, scopedPdu, encrypted }

/-! ## Lengths -/

def authLen (user : Option LocalizedUser) : Nat :=
  match user.bind LocalizedUser.auth with
  | some (protocol, _) => authParamsLen protocol
  | none => 0

/-- The protocol a message to `user` is encrypted with. -/
def privacyOf (user : Option LocalizedUser) (isPrivate : Bool) : Option PrivProtocol :=
  if isPrivate then (user.bind LocalizedUser.privacy).map Prod.fst else none

def privLen (privacy : Option PrivProtocol) : Nat := if privacy.isSome then privParams else 0

def usmBodyLen (engine : Snapshot) (user : Octets) (authLen privLen : Nat) : Nat :=
  tlvLen engine.id.length + i64Len engine.boots + i64Len engine.time + tlvLen user.length +
    tlvLen authLen + tlvLen privLen

def messageLen (req : V3Message) (engine : Snapshot) (user : Option LocalizedUser) (isPrivate : Bool)
    (pduLen : Nat) : Nat :=
  let privacy := privacyOf user isPrivate
  let global := tlvLen (i64Len req.msgId + i64Len V3.msgMaxSize + tlvLen 1 + i64Len usmModel)
  let security := tlvLen (tlvLen (usmBodyLen engine req.usm.user (authLen user) (privLen privacy)))
  let scopedPdu := tlvLen (tlvLen engine.id.length + tlvLen 0 + pduLen)
  let data :=
    match privacy with
    | some protocol => tlvLen (paddedLen protocol scopedPdu)
    | none => scopedPdu
  tlvLen (i64Len version + global + security + data)

def responseLen (req : V3Message) (engine : Snapshot) (user : Option LocalizedUser) (pduLen : Nat) : Nat :=
  messageLen req engine user false pduLen

def privateResponseLen (req : V3Message) (engine : Snapshot) (user : LocalizedUser) (pduLen : Nat) : Nat :=
  messageLen req engine (some user) true pduLen

/-! ## Writing -/

/-- `Vec::resize` with zeros. -/
def resize (out : Octets) (len : Nat) : Octets := out.take len ++ List.replicate (len - out.length) 0

section write

variable {α : Type} (crypto : Crypto) (req : V3Message) (engine : Snapshot)

def writeScoped (pdu : Octets → Octets × α) (out : Octets) : Octets × α :=
  writeTlvWith out .sequence fun out =>
    let out := writeOctets out .octetString engine.id
    let out := writeOctets out .octetString []
    pdu out

variable (out : Octets)

def writeGlobalData (flags : Flags) : Octets :=
  writeTlv out .sequence fun out =>
    let out := writeI64 out .integer req.msgId
    let out := writeI64 out .integer V3.msgMaxSize
    let out := writeOctets out .octetString [flags.octet]
    writeI64 out .integer usmModel

/-- `msgData`, and how long the plaintext to encrypt is, at its end. -/
def writeData (privacy : Option PrivProtocol) (pdu : Octets → Octets × α) (out : Octets) :
    Octets × (Nat × α) :=
  match privacy with
  | some protocol =>
    writeTlvWith out .octetString fun out =>
      let start := out.length
      let r := writeScoped engine pdu out
      let plainLen := paddedLen protocol (r.1.length - start)
      (resize r.1 (start + plainLen), (plainLen, r.2))
  | none =>
    let r := writeScoped engine pdu out
    (r.1, (0, r.2))

/-- What the body's closure assigns: where the authentication and privacy
parameters are from the start of the body, how long the plaintext is, and what
the PDU's closure assigned. -/
structure Laid (α : Type) where
  authAt : Nat
  privAt : Nat
  plainLen : Nat
  result : α

def writeBody (authLen : Nat) (privacy : Option PrivProtocol) (pdu : Octets → Octets × α)
    (out : Octets) : Octets × Laid α :=
  let body := out.length
  let privLen := privLen privacy
  let out := writeI64 out .integer version
  let out := writeGlobalData req out ⟨decide (0 < authLen), privacy.isSome, false⟩
  let params := usmBodyLen engine req.usm.user authLen privLen
  let out := writeHeader out .octetString (tlvLen params)
  let out := writeHeader out .sequence params
  let out := writeOctets out .octetString engine.id
  let out := writeI64 out .integer engine.boots
  let out := writeI64 out .integer engine.time
  let out := writeOctets out .octetString req.usm.user
  let out := writeHeader out .octetString authLen
  let authAt := out.length - body
  let out := resize out (out.length + authLen)
  let out := writeHeader out .octetString privLen
  let privAt := out.length - body
  let out := resize out (out.length + privLen)
  let r := writeData engine privacy pdu out
  (r.1, ⟨authAt, privAt, r.2.1, r.2.2⟩)

/-- Where the body of the TLV that starts at `start` starts. -/
def bodyStart (start : Nat) : Nat :=
  match out[start + 1]? with
  | some len => if len &&& 0x80 != 0 then start + 2 + (len &&& 0x7f).toNat else start + 2
  | none => start + 2

variable (user : LocalizedUser) (salts : SaltCounter)

/-- The octets encrypted, the salt they were encrypted with, and the counters
after it. -/
def encrypt (data : Octets) : (Octets × Octets) × SaltCounter :=
  match user.privacy with
  | none => ((data, List.replicate privParams 0), salts)
  | some (protocol, key) =>
    let next := salts.next protocol engine.boots
    ((crypt crypto protocol key engine.boots engine.time next.1 data true, next.1), next.2)

/-- The last `plainLen` octets encrypted, and the salt copied to `privAt`. -/
def splicePrivacy (out : Octets) (privAt plainLen : Nat) : Octets × SaltCounter :=
  let plain := out.length - plainLen
  let r := encrypt crypto engine user salts (out.drop plain)
  (copyFromSlice (out.take plain ++ r.1.1) privAt r.1.2, r.2)

/-- The HMAC of what is after `start` copied to `authAt`. -/
def spliceAuth (user : Option LocalizedUser) (out : Octets) (start authAt : Nat) : Octets :=
  match user.bind LocalizedUser.auth with
  | some (protocol, key) => copyFromSlice out authAt (hmac crypto protocol key (out.drop start))
  | none => out

/-- The message appended to `out`, what the PDU's closure assigned, and the
salt counters after it. -/
def writeMessage (user : Option LocalizedUser) (salts : Option SaltCounter)
    (pdu : Octets → Octets × α) : (Octets × α) × Option SaltCounter :=
  let start := out.length
  let authLen := authLen user
  let privacy := privacyOf user salts.isSome
  let r := writeTlvWith out .sequence (writeBody req engine authLen privacy pdu)
  let body := bodyStart r.1 start
  let spliced :=
    match user, salts with
    | some user, some salts =>
      if privacy.isSome then
        let s := splicePrivacy crypto engine user salts r.1 (body + r.2.privAt) r.2.plainLen
        (s.1, some s.2)
      else (r.1, some salts)
    | _, salts => (r.1, salts)
  ((spliceAuth crypto user spliced.1 start (body + r.2.authAt), r.2.result), spliced.2)

def writeResponse (user : Option LocalizedUser) (pdu : Octets → Octets × α) : Octets × α :=
  (writeMessage crypto req engine out user none pdu).1

def writePrivateResponse (pdu : Octets → Octets × α) : (Octets × α) × SaltCounter :=
  let r := writeMessage crypto req engine out (some user) (some salts) pdu
  (r.1, r.2.getD salts)

end write

/-! ## Decryption -/

inductive PrivError
  | noKey
  | badSalt
  | badLength
  | garbled
  deriving DecidableEq

/-- The padding a plaintext may end in. -/
def paddingOf : PrivProtocol → Nat
  | .des => desBlock - 1
  | _ => 0

def decrypt (crypto : Crypto) (user : LocalizedUser) (boots time : Nat) (privParams cipherText : Octets) :
    Except PrivError ScopedPdu :=
  match user.privacy with
  | none => .error .noKey
  | some (protocol, key) =>
    if privParams.length ≠ Snmp.privParams then .error .badSalt
    else if protocol = .des ∧ cipherText.length % desBlock ≠ 0 then .error .badLength
    else
      match decodeScopedPdu (crypt crypto protocol key boots time privParams cipherText false)
          (paddingOf protocol) with
      | .ok scopedPdu => .ok scopedPdu
      | .error _ => .error .garbled

end Sonda.Snmp.V3
