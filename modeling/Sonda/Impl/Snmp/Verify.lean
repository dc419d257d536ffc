import Sonda.Impl.Snmp.Agent
import Sonda.Impl.Snmp.V3

/-!
# The checks of an SNMPv3 request

`verify` of `sonda-core/src/sink/snmp/usm.rs` and the report it may come to,
`write_report` of `sonda-core/src/encoder/snmp/v3.rs`.
-/

namespace Sonda.Snmp

open V3

/-- `constant_time_eq` of `sonda-core/src/util.rs`. -/
def constantTimeEq (a b : Octets) : Bool :=
  a.length == b.length && (List.zip a b).foldl (fun acc p => acc ||| (p.1 ^^^ p.2)) 0 == 0

inductive UsmStat
  | unknownEngineIds
  | unknownUserNames
  | unsupportedSecLevels
  | wrongDigests
  | notInTimeWindows
  | decryptionErrors
  deriving DecidableEq

namespace UsmStat

/-- The content octets of `1.3.6.1.6.3.15.1.1.N.0`. -/
def oidBody : UsmStat → Octets
  | unsupportedSecLevels => [0x2b, 6, 1, 6, 3, 15, 1, 1, 1, 0]
  | notInTimeWindows => [0x2b, 6, 1, 6, 3, 15, 1, 1, 2, 0]
  | unknownUserNames => [0x2b, 6, 1, 6, 3, 15, 1, 1, 3, 0]
  | unknownEngineIds => [0x2b, 6, 1, 6, 3, 15, 1, 1, 4, 0]
  | wrongDigests => [0x2b, 6, 1, 6, 3, 15, 1, 1, 5, 0]
  | decryptionErrors => [0x2b, 6, 1, 6, 3, 15, 1, 1, 6, 0]

def counter : UsmStat → Counter
  | unknownEngineIds => .usmUnknownEngineIds
  | unknownUserNames => .usmUnknownUserNames
  | unsupportedSecLevels => .usmUnsupportedSecLevels
  | wrongDigests => .usmWrongDigests
  | notInTimeWindows => .usmNotInTimeWindows
  | decryptionErrors => .usmDecryptionErrors

end UsmStat

inductive UsmVerdict
  | answer (user : LocalizedUser) (authenticated : Bool) (scopedPdu : Option ScopedPdu)
  | report (stat : UsmStat) (authenticated : Bool)
  deriving DecidableEq

/-- The message's authentication parameter is the HMAC of `raw` with the
parameter zeroed. -/
def authentic (crypto : Crypto) (protocol : AuthProtocol) (key : Octets) (msg : V3Message)
    (raw : Octets) : Bool :=
  let len := authParamsLen protocol
  let (start, stop) := msg.authRange
  if raw.length < start ∨ raw.length < stop then false
  else if msg.usm.authParams.length ≠ len ∨ stop - start ≠ len then false
  else
    let zeroed := raw.take start ++ List.replicate len 0 ++ raw.drop stop
    constantTimeEq (hmac crypto protocol key zeroed) msg.usm.authParams

/-- The checks that need the keys of the user. -/
def verifyUser (crypto : Crypto) (seconds : Nat) (msg : V3Message) (raw : Octets) (engine : Engine)
    (user : LocalizedUser) : UsmVerdict :=
  match user.auth with
  | none => .answer user false none
  | some (protocol, key) =>
    if !authentic crypto protocol key msg raw then .report .wrongDigests false
    else if !engine.inWindow seconds msg.usm.boots msg.usm.time then .report .notInTimeWindows true
    else
      match msg.encrypted with
      | none => .answer user true none
      | some encrypted =>
        match decrypt crypto user msg.usm.boots msg.usm.time msg.usm.privParams encrypted with
        | .ok scopedPdu =>
          if scopedPdu.contextEngineId = engine.id then .answer user true (some scopedPdu)
          else .report .decryptionErrors true
        | .error _ => .report .decryptionErrors true

/-- The checks in their order, `seconds` after the bind. -/
def verify (crypto : Crypto) (seconds : Nat) (msg : V3Message) (raw : Octets) (engine : Engine)
    (users : List LocalizedUser) : UsmVerdict :=
  if msg.usm.engineId.isEmpty ∨ msg.usm.engineId ≠ engine.id then .report .unknownEngineIds false
  else
    match findUser users msg.usm.user with
    | none => .report .unknownUserNames false
    | some user =>
      if (user.auth.isSome, user.privacy.isSome) ≠ (msg.flags.auth, msg.flags.privacy) then
        .report .unsupportedSecLevels false
      else verifyUser crypto seconds msg raw engine user

/-- The PDU of a report: one varbind, the counter's instance. -/
def writeReportPdu (requestId : Int) (stat : UsmStat) (value : Nat) (out : Octets) : Octets :=
  writeTlv out .report fun out =>
    let out := writeI64 out .integer requestId
    let out := writeI64 out .integer 0
    let out := writeI64 out .integer 0
    writeTlv out .sequence fun out =>
      writeTlv out .sequence fun out =>
        writeCounter32 (writeOctets out .oid stat.oidBody) value

def writeReport (crypto : Crypto) (out : Octets) (req : V3Message) (engine : Snapshot) (stat : UsmStat)
    (value : Nat) (user : Option LocalizedUser) : Octets :=
  let requestId :=
    match req.scopedPdu with
    | some scopedPdu => scopedPdu.pdu.requestId
    | none => 0
  (writeResponse crypto req engine out user fun out =>
    (writeReportPdu requestId stat value out, ())).1

end Sonda.Snmp
