import Sonda.Framework.Digits

/-!
# BER

The subset of ASN.1 BER of `sonda-core/src/encoder/snmp/ber.rs`. A writer
takes the buffer it appends to and gives it back. `writeTlvWith` writes its
body first and patches the length in afterwards, moving the body when it needs
the long form, as the source does; what the body's closure assigns to its
captures is the second component.

A `Slice` is a borrow from a datagram: where it starts there, which the source
reads off its pointer, and its octets. A `Reader` is the slice not yet read.
-/

namespace Sonda.Snmp

open Framework

abbrev Octets := List UInt8

/-! ## Tags and errors -/

inductive Tag
  | integer
  | octetString
  | null
  | oid
  | sequence
  | ipAddress
  | counter32
  | gauge32
  | timeTicks
  | opaqueValue
  | counter64
  | noSuchObject
  | noSuchInstance
  | endOfMibView
  | getRequest
  | getNextRequest
  | response
  | setRequest
  | getBulkRequest
  | informRequest
  | trapV2
  | report
  deriving DecidableEq

inductive BerError
  | truncated
  | badLength
  | badTag (tag : UInt8)
  | overflow
  | badOid
  | unsupportedVersion (version : Int)
  deriving DecidableEq

def hexOctet (b : UInt8) : String :=
  String.ofList [Nat.digitChar (b.toNat / 16), Nat.digitChar (b.toNat % 16)]

def BerError.text : BerError → String
  | .truncated => "truncated BER input"
  | .badLength => "bad BER length"
  | .badTag tag => "unexpected BER tag 0x" ++ hexOctet tag
  | .overflow => "BER integer out of range"
  | .badOid => "malformed BER object identifier"
  | .unsupportedVersion v =>
    "SNMP message version " ++ toString v ++ " is neither 0 (v1) nor 1 (v2c)"

namespace Tag

def byte : Tag → UInt8
  | integer => 0x02
  | octetString => 0x04
  | null => 0x05
  | oid => 0x06
  | sequence => 0x30
  | ipAddress => 0x40
  | counter32 => 0x41
  | gauge32 => 0x42
  | timeTicks => 0x43
  | opaqueValue => 0x44
  | counter64 => 0x46
  | noSuchObject => 0x80
  | noSuchInstance => 0x81
  | endOfMibView => 0x82
  | getRequest => 0xA0
  | getNextRequest => 0xA1
  | response => 0xA2
  | setRequest => 0xA3
  | getBulkRequest => 0xA5
  | informRequest => 0xA6
  | trapV2 => 0xA7
  | report => 0xA8

def fromByte (byte : UInt8) : Except BerError Tag :=
  match byte with
  | 0x02 => .ok integer
  | 0x04 => .ok octetString
  | 0x05 => .ok null
  | 0x06 => .ok oid
  | 0x30 => .ok sequence
  | 0x40 => .ok ipAddress
  | 0x41 => .ok counter32
  | 0x42 => .ok gauge32
  | 0x43 => .ok timeTicks
  | 0x44 => .ok opaqueValue
  | 0x46 => .ok counter64
  | 0x80 => .ok noSuchObject
  | 0x81 => .ok noSuchInstance
  | 0x82 => .ok endOfMibView
  | 0xA0 => .ok getRequest
  | 0xA1 => .ok getNextRequest
  | 0xA2 => .ok response
  | 0xA3 => .ok setRequest
  | 0xA5 => .ok getBulkRequest
  | 0xA6 => .ok informRequest
  | 0xA7 => .ok trapV2
  | 0xA8 => .ok report
  | other => .error (.badTag other)

def isPdu : Tag → Bool
  | getRequest | getNextRequest | response | setRequest | getBulkRequest | informRequest | trapV2
  | report => true
  | _ => false

end Tag

/-! ## Lengths -/

/-- The `k` lowest octets of `n`, big-endian. -/
def beOctets (k n : Nat) : Octets := (beDigits 256 k n).map UInt8.ofNat

/-- The number big-endian octets stand for. -/
def ofBeOctets (bytes : Octets) : Nat := ofBe 256 (bytes.map UInt8.toNat)

def lengthLen (len : Nat) : Nat := if len < 0x80 then 1 else 1 + digitCount 8 len

def tlvLen (bodyLen : Nat) : Nat := 1 + lengthLen bodyLen + bodyLen

variable (out : Octets)

def writeLength (len : Nat) : Octets :=
  if len < 0x80 then out ++ [UInt8.ofNat len]
  else
    let octets := lengthLen len - 1
    out ++ [0x80 ||| UInt8.ofNat octets] ++ beOctets octets len

def writeHeader (tag : Tag) (len : Nat) : Octets := writeLength (out ++ [tag.byte]) len

/-- `out[i..i + src.len()].copy_from_slice(src)`. -/
def copyFromSlice (i : Nat) (src : Octets) : Octets :=
  out.take i ++ src ++ out.drop (i + src.length)

/-- The length is written at `i`, before the body, which moves if it must. -/
def patchLength (i : Nat) : Octets :=
  let len := out.length - i - 1
  if len < 0x80 then out.set i (UInt8.ofNat len)
  else
    let octets := lengthLen len - 1
    let body := out.drop (i + 1)
    let out := out ++ List.replicate octets 0
    let out := copyFromSlice out (i + 1 + octets) body
    let out := out.set i (0x80 ||| UInt8.ofNat octets)
    copyFromSlice out (i + 1) (beOctets octets len)

def writeTlvWith {α : Type} (out : Octets) (tag : Tag) (body : Octets → Octets × α) : Octets × α :=
  let out := out ++ [tag.byte]
  let r := body (out ++ [0])
  (patchLength r.1 out.length, r.2)

def writeTlv (tag : Tag) (body : Octets → Octets) : Octets :=
  (writeTlvWith out tag fun out => (body out, ())).1

/-! ## Integers -/

def toBeBytes (v : Int) : Octets := beOctets 8 (v % 18446744073709551616).toNat

def fromBeBytes (bytes : Octets) : Int :=
  let n := ofBeOctets bytes
  if n < 9223372036854775808 then n else (n : Int) - 18446744073709551616

/-- The first octet says nothing that the second does not. -/
def redundant (a b : UInt8) : Bool :=
  (a == 0x00 && b &&& 0x80 == 0) || (a == 0xFF && b &&& 0x80 != 0)

def dropRedundant : Octets → Octets
  | a :: b :: rest => if redundant a b then dropRedundant (b :: rest) else a :: b :: rest
  | bytes => bytes

/-- The minimal two's-complement content octets of `v`. -/
def signedSpan (v : Int) : Octets := dropRedundant (toBeBytes v)

def i64Len (v : Int) : Nat := tlvLen (signedSpan v).length

def writeI64 (tag : Tag) (v : Int) : Octets :=
  writeHeader out tag (signedSpan v).length ++ signedSpan v

def writeU64 (tag : Tag) (v : Nat) : Octets :=
  let bytes := beOctets 8 v
  let start := min ((64 - v.size) / 8) 7
  let content := bytes.drop start
  let pad := content.headD 0 &&& 0x80 != 0
  writeHeader out tag (8 - start + pad.toNat) ++ (if pad then [0] else []) ++ content

def writeInteger (v : Int) : Octets := writeI64 out .integer v

def writeCounter32 (v : Nat) : Octets := writeU64 out .counter32 v

def writeTimeticks (v : Nat) : Octets := writeU64 out .timeTicks v

def writeOctets (tag : Tag) (bytes : Octets) : Octets :=
  writeHeader out tag bytes.length ++ bytes

def writeString (bytes : Octets) : Octets := writeOctets out .octetString bytes

/-! ## Readers -/

/-- A borrow from a datagram: where it starts there, and its octets. -/
structure Slice where
  start : Nat
  octets : Octets
  deriving DecidableEq

def Slice.stop (s : Slice) : Nat := s.start + s.octets.length

/-- A cursor over consecutive TLVs. -/
abbrev Reader := Slice

namespace Reader

def new (input : Octets) : Reader := ⟨0, input⟩

variable (r : Reader)

def isEmpty : Bool := r.octets.isEmpty

/-- The first `len` octets, and the reader after them. -/
def splitAt (len : Nat) : Except BerError (Slice × Reader) :=
  if r.octets.length < len then .error .truncated
  else .ok (⟨r.start, r.octets.take len⟩, ⟨r.start + len, r.octets.drop len⟩)

/-- The length of a TLV whose first length octet is `first`. -/
def lengthAfter (first : UInt8) (r : Reader) : Except BerError (Nat × Reader) :=
  if first < 0x80 then .ok (first.toNat, r)
  else
    let octets := (first &&& 0x7F).toNat
    if octets = 0 ∨ 4 < octets then .error .badLength
    else
      match r.splitAt octets with
      | .ok (lenBytes, r) => .ok (ofBeOctets lenBytes.octets, r)
      | .error e => .error e

def rawTlv : Except BerError ((UInt8 × Slice) × Reader) :=
  match r.octets with
  | [] => .error .truncated
  | [tag] => if tag &&& 0x1F == 0x1F then .error (.badTag tag) else .error .truncated
  | tag :: first :: rest =>
    if tag &&& 0x1F == 0x1F then .error (.badTag tag)
    else
      match lengthAfter first ⟨r.start + 2, rest⟩ with
      | .error e => .error e
      | .ok (len, r) =>
        match r.splitAt len with
        | .error e => .error e
        | .ok (body, r) => .ok ((tag, body), r)

def tlv : Except BerError ((Tag × Slice) × Reader) := do
  let ((tag, body), r) ← r.rawTlv
  let tag ← Tag.fromByte tag
  .ok ((tag, body), r)

def expect (tag : Tag) : Except BerError (Slice × Reader) := do
  let ((found, body), r) ← r.rawTlv
  if found != tag.byte then .error (.badTag found) else .ok (body, r)

end Reader

def decodeI64 (body : Octets) : Except BerError Int :=
  match body with
  | [] => .error .badLength
  | first :: _ =>
    if 8 < body.length then .error .overflow
    else
      let fill : UInt8 := if first &&& 0x80 != 0 then 0xFF else 0
      .ok (fromBeBytes (List.replicate (8 - body.length) fill ++ body))

def Reader.i64 (r : Reader) (tag : Tag) : Except BerError (Int × Reader) := do
  let (body, r) ← r.expect tag
  let v ← decodeI64 body.octets
  .ok (v, r)

/-! ## Messages -/

structure Message where
  version : Int
  community : Octets
  pdu : Tag
  requestId : Int
  errorStatus : Int
  errorIndex : Int
  varbinds : Octets
  deriving DecidableEq

def pduFields (version : Int) (community : Octets) (pdu : Tag) (body : Reader) :
    Except BerError Message := do
  let (requestId, fields) ← body.i64 .integer
  let (errorStatus, fields) ← fields.i64 .integer
  let (errorIndex, fields) ← fields.i64 .integer
  let (varbinds, fields) ← fields.expect .sequence
  if !fields.isEmpty then .error .badLength
  else .ok { version, community, pdu, requestId, errorStatus, errorIndex, varbinds := varbinds.octets }

def Message.decode (datagram : Octets) : Except BerError Message := do
  let (body, outer) ← (Reader.new datagram).expect .sequence
  if !outer.isEmpty then .error .badLength
  else
    let (version, message) ← Reader.i64 body .integer
    if version < 0 ∨ 1 < version then .error (.unsupportedVersion version)
    else
      let (community, message) ← message.expect .octetString
      let ((pdu, pduBody), message) ← message.tlv
      if !pdu.isPdu then .error (.badTag pdu.byte)
      else if !message.isEmpty then .error .badLength
      else pduFields version community.octets pdu pduBody

structure VarBind where
  /-- The content octets of the name. -/
  oid : Octets
  valueTag : UInt8
  value : Octets
  deriving DecidableEq

def VarBind.readOne (r : Reader) : Except BerError (VarBind × Reader) := do
  let (body, r) ← r.expect .sequence
  let (oid, fields) ← Reader.expect body .oid
  let ((valueTag, value), fields) ← fields.rawTlv
  if !fields.isEmpty then .error .badLength
  else .ok (⟨oid.octets, valueTag, value.octets⟩, r)

/-- The `VarBind`s up to the end, each at least two octets long, or the first
error. -/
def VarBind.readAll : Nat → Reader → Except BerError (List VarBind)
  | 0, _ => .ok []
  | fuel + 1, r =>
    if r.isEmpty then .ok []
    else do
      let (var, r) ← readOne r
      let vars ← readAll fuel r
      .ok (var :: vars)

def VarBind.list (body : Octets) : Except BerError (List VarBind) := readAll body.length (Reader.new body)

def messageLen (version : Int) (community : Octets) (requestId errorStatus errorIndex : Int)
    (varbindsLen : Nat) : Nat :=
  let pduBody := i64Len requestId + i64Len errorStatus + i64Len errorIndex + tlvLen varbindsLen
  tlvLen (i64Len version + tlvLen community.length + tlvLen pduBody)

/-- A PDU whose varbind list `varbinds` appends. -/
def writePdu {α : Type} (out : Octets) (pdu : Tag) (requestId errorStatus errorIndex : Int)
    (varbinds : Octets → Octets × α) : Octets × α :=
  writeTlvWith out pdu fun out =>
    let out := writeI64 out .integer requestId
    let out := writeI64 out .integer errorStatus
    let out := writeI64 out .integer errorIndex
    writeTlvWith out .sequence varbinds

def writeMessage {α : Type} (out : Octets) (version : Int) (community : Octets) (pdu : Tag)
    (requestId errorStatus errorIndex : Int) (varbinds : Octets → Octets × α) : Octets × α :=
  writeTlvWith out .sequence fun out =>
    let out := writeI64 out .integer version
    let out := writeOctets out .octetString community
    writePdu out pdu requestId errorStatus errorIndex varbinds

end Sonda.Snmp
