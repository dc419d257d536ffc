import Mathlib.Data.List.Sort
import Sonda.Impl.Schedule.ScheduleLoop
import Sonda.Impl.Snmp.Oid
import Sonda.Impl.Snmp.Usm

/-!
# The settings of an agent

`SnmpAgentConfig::settings` of `sonda-core/src/sink/snmp/mod.rs`, with
`Oid::parse` of `sonda-core/src/encoder/snmp/oid.rs` and `canonical` of
`sonda-core/src/sink/listener_registry.rs`. How the standard library reads a
socket address and prints a string with `{:?}` is a `StdText`.
-/

namespace Sonda.Snmp

open Sonda.Schedule (SondaError)

/-! ## Addresses and texts -/

inductive IpAddr
  | v4 (octets : Octets)
  | v6 (segments : List Nat)
  deriving DecidableEq

structure SocketAddr where
  ip : IpAddr
  port : Nat
  deriving DecidableEq

/-- An IPv4-mapped address is the IPv4 address it maps. -/
def canonical (addr : SocketAddr) : SocketAddr :=
  match addr.ip with
  | .v6 [0, 0, 0, 0, 0, 0xffff, a, b] => { addr with ip := .v4 (beOctets 2 a ++ beOctets 2 b) }
  | _ => addr

/-- What the standard library does with texts. -/
structure StdText where
  parseAddr : Text → Option SocketAddr
  /-- A text in quotes, escaped. -/
  quote : Text → String

/-! ## Dotted OIDs -/

inductive OidParseError
  | leadingDot (text : Text)
  | emptyArc (text : Text)
  | oneArc (text : Text)
  | badArc (oid arc : Text)
  | notEncodable (text : Text)
  deriving DecidableEq

def OidParseError.text (std : StdText) : OidParseError → String
  | .leadingDot text => "OID " ++ std.quote text ++ " starts with '.'; write it without the leading dot"
  | .emptyArc text => "OID " ++ std.quote text ++ " has an empty arc"
  | .oneArc text => "OID " ++ std.quote text ++ " has one arc; an OID has at least two"
  | .badArc oid arc => "OID " ++ std.quote oid ++ " has arc " ++ std.quote arc ++
      ", which is not an unsigned 32-bit integer"
  | .notEncodable text => "OID " ++ std.quote text ++ " cannot be encoded: the first arc must be 0, " ++
      "1 or 2, and the second below 40 when the first is 0 or 1"

def isAsciiDigit (b : UInt8) : Bool := 0x30 ≤ b && b ≤ 0x39

/-- An arc of `text`: digits that make a `u32`. -/
def parseArc (text arc : Text) : Except OidParseError Nat :=
  if arc.isEmpty then .error (.emptyArc text)
  else if !arc.all isAsciiDigit then .error (.badArc text arc)
  else
    let value := arc.foldl (fun value b => value * 10 + (b.toNat - 0x30)) 0
    if value < arcBound then .ok value else .error (.badArc text arc)

def Oid.parse (text : Text) : Except OidParseError Oid :=
  if text.head? = some 0x2e then .error (.leadingDot text)
  else do
    let arcs ← (text.splitOn 0x2e).mapM (parseArc text)
    if arcs.length < 2 then .error (.oneArc text)
    else
      match Oid.fromArcs arcs with
      | some oid => .ok oid
      | none => .error (.notEncodable text)

/-! ## The config and the settings -/

inductive SnmpVersion
  | v1
  | v2c
  | v3
  deriving DecidableEq

def SnmpVersion.name : SnmpVersion → String
  | .v1 => "v1"
  | .v2c => "v2c"
  | .v3 => "v3"

def SnmpVersion.rank : SnmpVersion → Nat
  | .v1 => 1
  | .v2c => 2
  | .v3 => 3

structure SystemGroup where
  name : Text
  descr : Text
  contact : Text
  location : Text
  objectId : Text
  services : UInt8

structure SnmpAgentConfig where
  listen : Text
  community : Text
  maxMessageSize : Nat
  system : SystemGroup
  versions : List SnmpVersion
  users : List UsmUser
  engineId : Option Text

/-- A `SystemGroup` with its OID parsed. -/
structure SystemSettings where
  name : Text
  descr : Text
  contact : Text
  location : Text
  objectId : Oid
  services : UInt8
  deriving DecidableEq

structure AgentSettings where
  listen : SocketAddr
  community : Text
  maxMessageSize : Nat
  system : SystemSettings
  versions : List SnmpVersion
  users : List UsmUser
  engineId : Option Octets
  deriving DecidableEq

def minMaxMessageSize : Nat := 484
def maxMaxMessageSize : Nat := 65507
def maxSysServices : Nat := 127
def minEngineId : Nat := 5
def maxEngineId : Nat := 32
def maxUserName : Nat := 32
def minPassword : Nat := 8

def invalid (message : String) : SondaError := .config message

/-- The first of two equal neighbours. -/
def findTwice {α β : Type} [DecidableEq β] (key : α → β) : List α → Option α
  | a :: b :: rest => if key a = key b then some a else findTwice key (b :: rest)
  | _ => none

/-- A hex digit, `0` for any other octet. -/
def nibble (b : UInt8) : UInt8 :=
  if isAsciiDigit b then b - 0x30
  else if 0x61 ≤ b && b ≤ 0x66 then b - 0x61 + 10
  else if 0x41 ≤ b && b ≤ 0x46 then b - 0x41 + 10
  else 0

def isAsciiHexdigit (b : UInt8) : Bool :=
  isAsciiDigit b || (0x61 ≤ b && b ≤ 0x66) || (0x41 ≤ b && b ≤ 0x46)

/-- Two digits an octet. -/
def hexPairs : Text → Octets
  | a :: b :: rest => (nibble a <<< 4 ||| nibble b) :: hexPairs rest
  | _ => []

def parseEngineId (std : StdText) (text : Text) : Except SondaError Octets :=
  let digits :=
    match text with
    | 0x30 :: 0x78 :: rest | 0x30 :: 0x58 :: rest => rest
    | _ => text
  if digits.length % 2 ≠ 0 || !digits.all isAsciiHexdigit then
    .error (invalid ("snmp_agent engine_id " ++ std.quote text ++
      " is not hex, such as \"80001f8804736f6e6461\""))
  else
    let octets := hexPairs digits
    if octets.length < minEngineId || maxEngineId < octets.length then
      .error (invalid ("snmp_agent engine_id must be " ++ toString minEngineId ++ " to " ++
        toString maxEngineId ++ " bytes, got " ++ toString octets.length))
    else .ok octets

def checkUser (std : StdText) (user : UsmUser) : Except SondaError Unit := do
  if user.name.isEmpty || maxUserName < user.name.length then
    throw (invalid ("snmp_agent users name " ++ std.quote user.name ++ " must be 1 to " ++
      toString maxUserName ++ " bytes, got " ++ toString user.name.length))
  if let some auth := user.auth then
    if auth.password.length < minPassword then
      throw (invalid ("snmp_agent users " ++ std.quote user.name ++ " auth.password must be at least " ++
        toString minPassword ++ " bytes (RFC 3414)"))
  if let some privacy := user.privacy then
    if user.auth.isNone then
      throw (invalid ("snmp_agent users " ++ std.quote user.name ++
        " has priv without auth; privacy (authPriv) needs auth as well"))
    if privacy.password.length < minPassword then
      throw (invalid ("snmp_agent users " ++ std.quote user.name ++ " priv.password must be at least " ++
        toString minPassword ++ " bytes (RFC 3414)"))

def resolvedUsers (std : StdText) (config : SnmpAgentConfig) : Except SondaError (List UsmUser) := do
  let users := config.users.insertionSort fun a b => a.name ≤ b.name
  users.forM (checkUser std)
  match findTwice UsmUser.name users with
  | some twice =>
    throw (invalid ("snmp_agent users names " ++ std.quote twice.name ++ " more than once"))
  | none => pure users

def checkMaxMessageSize (config : SnmpAgentConfig) : Except SondaError Unit :=
  if config.maxMessageSize < minMaxMessageSize || maxMaxMessageSize < config.maxMessageSize then
    .error (invalid ("snmp_agent max_message_size must be between " ++ toString minMaxMessageSize ++
      " and " ++ toString maxMaxMessageSize ++ ", got " ++ toString config.maxMessageSize))
  else .ok ()

def resolvedSystem (std : StdText) (system : SystemGroup) : Except SondaError SystemSettings :=
  match Oid.parse system.objectId with
  | .error e => .error (invalid ("snmp_agent system.object_id: " ++ e.text std))
  | .ok objectId =>
    if maxSysServices < system.services.toNat then
      .error (invalid ("snmp_agent system.services must be between 0 and " ++ toString maxSysServices ++
        ", got " ++ toString system.services.toNat))
    else
      .ok ⟨system.name, system.descr, system.contact, system.location, objectId, system.services⟩

def resolvedVersions (config : SnmpAgentConfig) : Except SondaError (List SnmpVersion) :=
  let versions := config.versions.insertionSort fun a b => a.rank ≤ b.rank
  if versions.isEmpty then
    .error (invalid "snmp_agent versions must name at least one version, such as [v2c]")
  else
    match findTwice id versions with
    | some twice => .error (invalid ("snmp_agent versions names " ++ twice.name ++ " more than once"))
    | none => .ok versions

def SnmpAgentConfig.settings (std : StdText) (config : SnmpAgentConfig) :
    Except SondaError AgentSettings :=
  match std.parseAddr config.listen with
  | none => .error (invalid ("snmp_agent listen " ++ std.quote config.listen ++
      " is not a socket address such as \"0.0.0.0:1161\""))
  | some listen => do
    checkMaxMessageSize config
    let system ← resolvedSystem std config.system
    let versions ← resolvedVersions config
    let users ← resolvedUsers std config
    if versions.contains .v3 && users.isEmpty then
      .error (invalid "snmp_agent versions names v3, which needs at least one user under users")
    else
      let engineId ← config.engineId.mapM (parseEngineId std)
      .ok { listen := canonical listen, community := config.community,
            maxMessageSize := config.maxMessageSize, system, versions, users, engineId }

end Sonda.Snmp
