import Sonda.Impl.Snmp.Ber

/-!
# The keys and ciphers of the User-based Security Model

The engine, the localized users and the encryption of
`sonda-core/src/sink/snmp/usm.rs`. The hashes, the HMAC and the ciphers are
those of other crates: a `Crypto` stands for them. The clock is a number of
seconds since the bind, given where the source reads it.
-/

namespace Sonda.Snmp

inductive AuthProtocol
  | md5
  | sha1
  | sha224
  | sha256
  | sha384
  | sha512
  deriving DecidableEq

inductive PrivProtocol
  | des
  | aes128
  | aes192
  | aes192c
  | aes256
  | aes256c
  deriving DecidableEq

/-- The functions of the hash, HMAC and cipher crates. A cipher works in place,
so it keeps the length. -/
structure Crypto where
  hash : AuthProtocol → Octets → Octets
  /-- The whole HMAC. -/
  mac : AuthProtocol → (key message : Octets) → Octets
  cipher : PrivProtocol → (key iv : Octets) → (encrypt : Bool) → Octets → Octets
  length_cipher : ∀ protocol key iv encrypt data,
    (cipher protocol key iv encrypt data).length = data.length

def maxBootsOrTime : Nat := 2147483647
def timeWindow : Nat := 150
def stretchedPassword : Nat := 1048576
def privParams : Nat := 8
def desBlock : Nat := 8

/-! ## The engine -/

structure SaltCounter where
  des : Nat
  aes : Nat
  deriving DecidableEq

structure Engine where
  id : Octets
  boots : Nat
  salts : SaltCounter
  deriving DecidableEq

/-- What an engine reports at one instant. -/
structure Snapshot where
  id : Octets
  boots : Nat
  time : Nat
  deriving DecidableEq

namespace Engine

def new (id : Octets) (salts : SaltCounter) : Engine := ⟨id, 1, salts⟩

/-- The engine's time, `seconds` after the bind. -/
def time (seconds : Nat) : Nat := min (min seconds 4294967295) maxBootsOrTime

def inWindow (engine : Engine) (seconds boots time : Nat) : Bool :=
  decide (engine.boots < maxBootsOrTime) && boots == engine.boots &&
    decide (((time : Int) - (Engine.time seconds : Int)).natAbs ≤ timeWindow)

def snapshot (engine : Engine) (seconds : Nat) : Snapshot := ⟨engine.id, engine.boots, time seconds⟩

end Engine

/-! ## Keys -/

section keys

variable (crypto : Crypto)

def passwordToKey (protocol : AuthProtocol) (password : Octets) : Octets :=
  crypto.hash protocol
    ((List.range stretchedPassword).map fun i => password.getD (i % password.length) 0)

def localize (protocol : AuthProtocol) (password engineId : Octets) : Octets :=
  let key := passwordToKey crypto protocol password
  crypto.hash protocol (key ++ engineId ++ key)

def keyLen : PrivProtocol → Nat
  | .des | .aes128 => 16
  | .aes192 | .aes192c => 24
  | .aes256 | .aes256c => 32

/-- The loop of `extend_key`: a round that appends nothing is its last. -/
def extendRounds (protocol : PrivProtocol) (auth : AuthProtocol) (engineId : Octets) :
    Nat → (key previous : Octets) → Octets
  | 0, key, _ => key
  | fuel + 1, key, previous =>
    if key.length < keyLen protocol && !previous.isEmpty then
      let previous :=
        match protocol with
        | .aes192 | .aes256 => crypto.hash auth key
        | _ => localize crypto auth previous engineId
      extendRounds protocol auth engineId fuel (key ++ previous) previous
    else key

def extendKey (protocol : PrivProtocol) (auth : AuthProtocol) (kul engineId : Octets) : Octets :=
  (extendRounds crypto protocol auth engineId (keyLen protocol + 1) kul kul).take (keyLen protocol)

/-! ## Users -/

/-- A `String` of the source, as its UTF-8 octets. -/
abbrev Text := Octets

structure UsmAuth where
  protocol : AuthProtocol
  password : Text
  deriving DecidableEq

structure UsmPriv where
  protocol : PrivProtocol
  password : Text
  deriving DecidableEq

structure UsmUser where
  name : Text
  auth : Option UsmAuth
  privacy : Option UsmPriv
  deriving DecidableEq

/-- A user with its keys; one that encrypts also authenticates. -/
structure LocalizedUser where
  name : Octets
  auth : Option (AuthProtocol × Octets)
  privacy : Option (PrivProtocol × Octets)
  auth_of_privacy : privacy.isSome → auth.isSome
  deriving DecidableEq

variable (user : UsmUser) (engineId : Octets)

def localizedAuth : Option (AuthProtocol × Octets) :=
  user.auth.map fun auth => (auth.protocol, localize crypto auth.protocol auth.password engineId)

def localizedPrivacy : Option (PrivProtocol × Octets) :=
  user.auth.bind fun auth => user.privacy.map fun privacy =>
    let kul := localize crypto auth.protocol privacy.password engineId
    (privacy.protocol, extendKey crypto privacy.protocol auth.protocol kul engineId)

theorem localizedAuth_of_privacy
    (h : (localizedPrivacy crypto user engineId).isSome) : (localizedAuth crypto user engineId).isSome := by
  unfold localizedPrivacy at h
  unfold localizedAuth
  cases hauth : user.auth with
  | none => rw [hauth] at h; exact h
  | some auth => rfl

def LocalizedUser.new : LocalizedUser where
  name := user.name
  auth := localizedAuth crypto user engineId
  privacy := localizedPrivacy crypto user engineId
  auth_of_privacy := localizedAuth_of_privacy crypto user engineId

end keys

structure Usm where
  engine : Engine
  users : List LocalizedUser
  deriving DecidableEq

def findUser (users : List LocalizedUser) (name : Octets) : Option LocalizedUser :=
  users.find? fun user => user.name == name

/-- The prefix of enterprise 8072 and format 5, then 16 octets of the hash of
`sonda:<hostname>:<bound>`. -/
def defaultEngineId (crypto : Crypto) (hostname : Octets) (bound : Text) : Octets :=
  let hashed := [0x73, 0x6f, 0x6e, 0x64, 0x61, 0x3a] ++ hostname ++ 0x3a :: bound
  [0x80, 0x00, 0x1f, 0x88, 0x05] ++ (crypto.hash .sha256 hashed).take 16

def Usm.new (crypto : Crypto) (engineId : Option Octets) (users : List UsmUser) (hostname : Octets)
    (bound : Text) (salts : SaltCounter) : Usm :=
  let id := engineId.getD (defaultEngineId crypto hostname bound)
  ⟨Engine.new id salts, users.map fun user => LocalizedUser.new crypto user id⟩

/-! ## Digests and ciphers -/

def authParamsLen : AuthProtocol → Nat
  | .md5 | .sha1 => 12
  | .sha224 => 16
  | .sha256 => 24
  | .sha384 => 32
  | .sha512 => 48

/-- The first `authParamsLen` octets of the HMAC, over zeros. -/
def hmac (crypto : Crypto) (protocol : AuthProtocol) (key message : Octets) : Octets :=
  let tag := (crypto.mac protocol key message).take (authParamsLen protocol)
  tag ++ List.replicate (authParamsLen protocol - tag.length) 0

def paddedLen (protocol : PrivProtocol) (len : Nat) : Nat :=
  match protocol with
  | .des => (len + (desBlock - 1)) / desBlock * desBlock
  | _ => len

def iv (protocol : PrivProtocol) (key : Octets) (boots time : Nat) (salt : Octets) : Octets :=
  match protocol with
  | .des =>
    let xored := List.zipWith (fun pre salt => pre ^^^ salt) ((key.drop 8).take 8) salt
    if key.length < 16 then List.replicate 16 0 else xored ++ List.replicate (16 - xored.length) 0
  | _ => beOctets 4 boots ++ beOctets 4 time ++ salt

def crypt (crypto : Crypto) (protocol : PrivProtocol) (key : Octets) (boots time : Nat)
    (salt data : Octets) (encrypt : Bool) : Octets :=
  crypto.cipher protocol key (iv protocol key boots time salt) encrypt data

/-- The salt of the next message, and the counters after it. -/
def SaltCounter.next (salts : SaltCounter) (protocol : PrivProtocol) (boots : Nat) :
    Octets × SaltCounter :=
  match protocol with
  | .des => (beOctets 4 boots ++ beOctets 4 salts.des, { salts with des := (salts.des + 1) % 4294967296 })
  | _ => (beOctets 8 salts.aes, { salts with aes := (salts.aes + 1) % 18446744073709551616 })

end Sonda.Snmp
