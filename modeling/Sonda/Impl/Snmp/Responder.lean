import Mathlib.Data.List.AList
import Sonda.Impl.Snmp.Verify

/-!
# Answers

`sonda-core/src/sink/snmp/responder.rs`: a datagram decoded, its PDU answered
from an agent in the envelope its version asks for, or reported, and the peers
`serve` warned about. `serve`'s socket is not part of it.

What is appended to the response in a closure of the source is a function from
the buffer to the buffer and what the closure assigned. A name that is already
in the response is a range of the buffer (`Name.response`, `Cursor`), read
again from there, as in the source.
-/

namespace Sonda.Snmp

open V3

def v1Field : Int := 0
def v2cField : Int := 1
def tooBigStatus : Int := 1
def noSuchNameStatus : Int := 2
def notWritableStatus : Int := 17

/-! ## Requests -/

inductive Version
  | v1
  | v2c
  deriving DecidableEq

def Version.field : Version → Int
  | .v1 => v1Field
  | .v2c => v2cField

def Version.configured : Version → SnmpVersion
  | .v1 => .v1
  | .v2c => .v2c

/-- A request's varbind list, every entry a well-formed `VarBind`. -/
structure VarList where
  body : Octets
  vars : List VarBind
  checked : VarBind.list body = .ok vars
  deriving DecidableEq

/-- The list of a message, or the error of its first malformed entry. -/
def VarList.of (message : Message) : Except BerError VarList :=
  match h : VarBind.list message.varbinds with
  | .ok vars => .ok ⟨message.varbinds, vars, h⟩
  | .error e => .error e

inductive Pdu
  | get (id : Int) (vars : VarList)
  | getNext (id : Int) (vars : VarList)
  | getBulk (id : Int) (nonRepeaters maxRepetitions : Nat) (vars : VarList)
  | set (id : Int) (vars : VarList)
  | other (tag : Tag)
  deriving DecidableEq

structure Request where
  version : Version
  community : Octets
  pdu : Pdu
  deriving DecidableEq

/-- The request-id, an `i32`. -/
def requestIdOf (message : Message) : Except BerError Int :=
  if message.requestId < -2147483648 ∨ 2147483647 < message.requestId then .error .overflow
  else .ok message.requestId

/-- A count of a `GetBulkRequest`, as a `u32`. -/
def countOf (v : Int) : Nat := min v.toNat 4294967295

def classify (message : Message) : Except BerError Pdu :=
  match message.pdu with
  | .getRequest => do
    let id ← requestIdOf message
    let vars ← VarList.of message
    .ok (.get id vars)
  | .getNextRequest => do
    let id ← requestIdOf message
    let vars ← VarList.of message
    .ok (.getNext id vars)
  | .getBulkRequest => do
    let id ← requestIdOf message
    let vars ← VarList.of message
    .ok (.getBulk id (countOf message.errorStatus) (countOf message.errorIndex) vars)
  | .setRequest => do
    let id ← requestIdOf message
    let vars ← VarList.of message
    .ok (.set id vars)
  | tag => .ok (.other tag)

def decode (datagram : Octets) : Except BerError Request := do
  let message ← Message.decode datagram
  let version := if message.version = v2cField then Version.v2c else Version.v1
  if version = .v1 ∧ message.pdu = .getBulkRequest then .error (.badTag Tag.getBulkRequest.byte)
  else
    let pdu ← classify message
    .ok ⟨version, message.community, pdu⟩

/-! ## Envelopes -/

inductive Envelope
  | community (version : Int) (community : Octets)
  /-- Authenticated by `user` when it is given, and encrypted for it with the
  engine's salts when `salted`. -/
  | v3 (request : V3Message) (engine : Snapshot) (user : Option LocalizedUser) (salted : Bool)

namespace Envelope

def isV1 : Envelope → Bool
  | community version _ => version == v1Field
  | v3 .. => false

/-- The octets of a response whose varbind list body is `varbindsLen` octets. -/
def len (envelope : Envelope) (id status index : Int) (varbindsLen : Nat) : Nat :=
  match envelope with
  | community version name => Snmp.messageLen version name id status index varbindsLen
  | v3 request engine user salted =>
    let pdu := tlvLen (i64Len id + i64Len status + i64Len index + tlvLen varbindsLen)
    match user, salted with
    | some user, true => privateResponseLen request engine user pdu
    | user, _ => responseLen request engine user pdu

/-- The response whose varbind list body `varbinds` appends, and the salt
counters after it. -/
def write {α : Type} (envelope : Envelope) (crypto : Crypto) (salts : SaltCounter) (out : Octets)
    (id status index : Int) (varbinds : Octets → Octets × α) : (Octets × α) × SaltCounter :=
  match envelope with
  | community version name =>
    (Snmp.writeMessage out version name .response id status index varbinds, salts)
  | v3 request engine user salted =>
    let pdu := fun out => writePdu out .response id status index varbinds
    match user, salted with
    | some user, true => writePrivateResponse crypto request engine out user salts pdu
    | user, _ => (writeResponse crypto request engine out user pdu, salts)

end Envelope

structure Reply where
  envelope : Envelope
  id : Int
  budget : Nat

/-- The `List` of the source: where the body of the varbind list being written
starts. -/
structure BindList where
  start : Nat
  reply : Reply

/-- `more` octets after what `out` holds still fit the budget. -/
def BindList.fits (list : BindList) (out : Octets) (more : Nat) : Bool :=
  decide (list.reply.envelope.len list.reply.id 0 0 (out.length - list.start + more) ≤ list.reply.budget)

inductive Written
  | complete
  | full
  | noSuchName (index : Nat)
  deriving DecidableEq

/-! ## Names -/

inductive Step
  | found
  | ended
  | full
  deriving DecidableEq

/-- Where the content octets of a name are. -/
inductive Name
  | request (body : Octets)
  | response (start stop : Nat)

def Name.len : Name → Nat
  | request body => body.length
  | response start stop => stop - start

/-- `out[start..stop]`. -/
def sliceOf (out : Octets) (start stop : Nat) : Octets := (out.take stop).drop start

def exceptionLen (nameLen : Nat) : Nat := tlvLen (tlvLen nameLen + 2)

def writeException (out : Octets) (name : Name) (tag : Tag) : Octets :=
  let out := writeHeader out .sequence (tlvLen name.len + 2)
  let out := writeHeader out .oid name.len
  let out :=
    match name with
    | .request body => out ++ body
    | .response start stop => out ++ sliceOf out start stop
  writeOctets out tag []

/-- The range of the name of the `VarBind` that starts at `start`. -/
def nameIn (out : Octets) (start : Nat) : Except BerError (Nat × Nat) := do
  let (body, _) ← Reader.expect ⟨start, out.drop start⟩ .sequence
  let (name, _) ← Reader.expect body .oid
  .ok (name.start, name.stop)

/-! ## Varbinds -/

section varbinds

variable (agent : SnmpAgent) (list : BindList)

/-- The exception `tag` under `name`, if it fits. -/
def putException (name : Name) (tag : Tag) (out : Octets) : Option Octets :=
  if list.fits out (exceptionLen name.len) then some (writeException out name tag) else none

def get : List VarBind → Octets → Octets × Except BerError Written
  | [], out => (out, .ok .complete)
  | var :: vars, out =>
    match decodeBerBody var.oid with
    | none => (out, .error .badOid)
    | some name =>
      let put :=
        match agent.lookup name with
        | .value varbind => if list.fits out varbind.length then some (out ++ varbind) else none
        | .noSuchInstance => putException list (.request var.oid) .noSuchInstance out
        | .noSuchObject => putException list (.request var.oid) .noSuchObject out
      match put with
      | some out => get vars out
      | none => (out, .ok .full)

def getV1 : (index : Nat) → (full : Bool) → List VarBind → Octets → Octets × Except BerError Written
  | _, full, [], out => (out, .ok (if full then .full else .complete))
  | index, full, var :: vars, out =>
    match decodeBerBody var.oid with
    | none => (out, .error .badOid)
    | some name =>
      match agent.lookup name with
      | .value varbind =>
        if isCounter64 varbind then (out, .ok (.noSuchName (index + 1)))
        else if !full && list.fits out varbind.length then getV1 (index + 1) full vars (out ++ varbind)
        else getV1 (index + 1) true vars out
      | _ => (out, .ok (.noSuchName (index + 1)))

/-- What one successor lookup of `get_next_v1` leads to. -/
structure Found1 where
  found : Bool
  full : Bool
  out : Octets

def nextV1 (name : List Nat) (full : Bool) (out : Octets) : Found1 :=
  agent.bulk name 1 true (fun (s : Found1) _ varbind =>
    (if !s.full && list.fits s.out varbind.length then ⟨true, s.full, s.out ++ varbind⟩
      else ⟨true, true, s.out⟩, false)) ⟨false, full, out⟩

def getNextV1 : (index : Nat) → (full : Bool) → List VarBind → Octets →
    Octets × Except BerError Written
  | _, full, [], out => (out, .ok (if full then .full else .complete))
  | index, full, var :: vars, out =>
    match decodeBerBody var.oid with
    | none => (out, .error .badOid)
    | some name =>
      let r := nextV1 agent list name full out
      if r.found then getNextV1 (index + 1) r.full vars r.out
      else (r.out, .ok (.noSuchName (index + 1)))

def endOfMibView (name : Name) (out : Octets) : Octets × Step :=
  if list.fits out (exceptionLen name.len) then (writeException out name .endOfMibView, .ended)
  else (out, .full)

/-- The successor of `arcs`, or `endOfMibView` under `name`. -/
def next (arcs : List Nat) (name : Name) (out : Octets) : Octets × Step :=
  let r := agent.bulk arcs 1 false (fun (s : Octets × Step) _ varbind =>
    (if list.fits s.1 varbind.length then (s.1 ++ varbind, .found) else (s.1, .full), false))
    (out, .ended)
  if r.2 = .ended then endOfMibView list name r.1 else r

/-- The successors of the names in turn, up to the first that does not fit. -/
def nextEach {α : Type} (full complete : α) : List VarBind → Octets → Octets × Except BerError α
  | [], out => (out, .ok complete)
  | var :: vars, out =>
    match decodeBerBody var.oid with
    | none => (out, .error .badOid)
    | some name =>
      let r := next agent list name (.request var.oid) out
      if r.2 = .full then (r.1, .ok full) else nextEach full complete vars r.1

def getNext : List VarBind → Octets → Octets × Except BerError Written :=
  nextEach agent list .full .complete

/-- A `GetBulk` repeater's last varbind in the response: the range of its name,
and whether it was `endOfMibView`. -/
structure Cursor where
  start : Nat
  stop : Nat
  ended : Bool
  deriving DecidableEq

/-- What a round of `GetBulk` leads to: `none` once a varbind does not fit. -/
abbrev Round := Octets × Except BerError (Option (List Cursor))

/-- The cursor of a varbind that was written at `start`, before the cursors of
the rest of the round. -/
def pushCursor (r : Octets × Step) (start : Nat) (rest : Octets → Round) : Round :=
  if r.2 = .full then (r.1, .ok none)
  else
    match nameIn r.1 start with
    | .error e => (r.1, .error e)
    | .ok name =>
      let s := rest r.1
      (s.1, s.2.map fun cursors => cursors.map (⟨name.1, name.2, r.2 == .ended⟩ :: ·))

/-- The first round, from the request's names. -/
def firstRound : List VarBind → Octets → Round
  | [], out => (out, .ok (some []))
  | var :: vars, out =>
    match decodeBerBody var.oid with
    | none => (out, .error .badOid)
    | some name =>
      pushCursor (next agent list name (.request var.oid) out) out.length (firstRound vars)

/-- A later round, from the names the round before answered. -/
def laterRound : List Cursor → Octets → Round
  | [], out => (out, .ok (some []))
  | cursor :: cursors, out =>
    let name := Name.response cursor.start cursor.stop
    if cursor.ended then pushCursor (endOfMibView list name out) out.length (laterRound cursors)
    else
      match decodeBerBody (sliceOf out cursor.start cursor.stop) with
      | none => (out, .error .badOid)
      | some arcs => pushCursor (next agent list arcs name out) out.length (laterRound cursors)

def laterRounds : Nat → List Cursor → Octets → Octets × Except BerError Written
  | 0, _, out => (out, .ok .complete)
  | rounds + 1, cursors, out =>
    if cursors.all Cursor.ended then (out, .ok .complete)
    else
      let r := laterRound agent list cursors out
      match r.2 with
      | .error e => (r.1, .error e)
      | .ok none => (r.1, .ok .complete)
      | .ok (some cursors) => laterRounds rounds cursors r.1

/-- What the closure of `column` assigns. -/
structure Column where
  out : Octets
  emitted : Nat
  full : Bool
  last : Option Nat

/-- The closure of `column`. -/
def columnEmit (c : Column) (_ : Oid) (varbind : Octets) : Column × Bool :=
  if !list.fits c.out varbind.length then ({ c with full := true }, false)
  else (⟨c.out ++ varbind, c.emitted + 1, c.full, some c.out.length⟩, true)

/-- Where `column` has the name it wrote last. -/
def lastName (first : Cursor) (out : Octets) : Option Nat → Except BerError (Nat × Nat)
  | some start => nameIn out start
  | none => .ok (first.start, first.stop)

/-- What `column` does after its loop. -/
def columnEnd (first : Cursor) (rounds : Nat) (c : Column) : Octets × Except BerError Written :=
  if c.full || c.emitted == rounds then (c.out, .ok .complete)
  else
    match lastName first c.out c.last with
    | .error e => (c.out, .error e)
    | .ok name => ((endOfMibView list (.response name.1 name.2) c.out).1, .ok .complete)

/-- The rounds after the first for a lone repeater. -/
def column (first : Cursor) (rounds : Nat) (out : Octets) : Octets × Except BerError Written :=
  if first.ended || rounds == 0 then (out, .ok .complete)
  else
    match decodeBerBody (sliceOf out first.start first.stop) with
    | none => (out, .error .badOid)
    | some arcs =>
      columnEnd list first rounds (agent.bulk arcs rounds false (columnEmit list) ⟨out, 0, false, none⟩)

/-- The successors of the non-repeaters, and whether one did not fit. -/
def nonRepeaters : List VarBind → Octets → Octets × Except BerError Bool :=
  nextEach agent list true false

/-- The repeaters, `maxRepetitions` of them at most. -/
def repeaters (vars : List VarBind) (maxRepetitions : Nat) (out : Octets) :
    Octets × Except BerError Written :=
  if maxRepetitions = 0 then (out, .ok .complete)
  else
    let r := firstRound agent list vars out
    match r.2 with
    | .error e => (r.1, .error e)
    | .ok none => (r.1, .ok .complete)
    | .ok (some [cursor]) => column agent list cursor (maxRepetitions - 1) r.1
    | .ok (some cursors) => laterRounds agent list (maxRepetitions - 1) cursors r.1

def getBulk (vars : List VarBind) (nonRepeaterCount maxRepetitions : Nat) (out : Octets) :
    Octets × Except BerError Written :=
  let count := min vars.length nonRepeaterCount
  let r := nonRepeaters agent list (vars.take count) out
  match r.2 with
  | .error e => (r.1, .error e)
  | .ok true => (r.1, .ok .complete)
  | .ok false => repeaters agent list (vars.drop count) maxRepetitions r.1

/-- The request's varbinds, unchanged. -/
def echo (vars : VarList) (out : Octets) : Octets × Except BerError Written :=
  if list.fits out vars.body.length then (out ++ vars.body, .ok .complete) else (out, .ok .full)

def Pdu.varbinds (pdu : Pdu) (isV1 : Bool) (out : Octets) : Octets × Except BerError Written :=
  match pdu with
  | .get _ vars =>
    if isV1 then getV1 agent list 0 false vars.vars out else Snmp.get agent list vars.vars out
  | .getNext _ vars =>
    if isV1 then getNextV1 agent list 0 false vars.vars out
    else Snmp.getNext agent list vars.vars out
  | .getBulk _ nonRepeaters maxRepetitions vars =>
    Snmp.getBulk agent list vars.vars nonRepeaters maxRepetitions out
  | .set _ vars => echo list vars out
  | .other _ => (out, .ok .complete)

end varbinds

/-! ## Answers -/

inductive Outcome
  | sent
  | droppedWrongCommunity
  | droppedUnsupportedVersion
  | droppedOther
  deriving DecidableEq

/-- What became of a request: the outcome, the response, the counters raised
and the salt counters left. -/
structure Answered where
  outcome : Outcome
  out : Octets := []
  counted : List Counter := []
  salts : SaltCounter
  deriving DecidableEq

section answers

variable (crypto : Crypto) (agent : SnmpAgent) (reply : Reply) (salts : SaltCounter)

/-- A response of error-status `status`, or nothing when it does not fit. -/
def errorResponse (status index : Int) (varbinds : Octets) : Answered :=
  if reply.budget < reply.envelope.len reply.id status index varbinds.length then
    { outcome := .droppedOther, salts }
  else
    let r := reply.envelope.write crypto salts [] reply.id status index fun out => (out ++ varbinds, ())
    { outcome := .sent, out := r.1.1, salts := r.2 }

def tooBig (vars : VarList) : Answered :=
  let echoed := if reply.envelope.isV1 then vars.body else []
  let r := errorResponse crypto reply salts tooBigStatus 0 echoed
  { r with counted := [.tooBig] }

def noSuchName (vars : VarList) (index : Nat) : Answered :=
  let r := errorResponse crypto reply salts noSuchNameStatus index vars.body
  if r.outcome = .sent then r else tooBig crypto reply r.salts vars

/-- The counter of a PDU the agent answers, its id and its varbinds. -/
def Pdu.parts : Pdu → Option (Counter × Int × VarList)
  | .get id vars => some (.get, id, vars)
  | .getNext id vars => some (.getNext, id, vars)
  | .getBulk id _ _ vars => some (.getBulk, id, vars)
  | .set id vars => some (.setRefused, id, vars)
  | .other _ => none

/-- The error-status and error-index of a response that is written whole. -/
def Pdu.status (pdu : Pdu) (isV1 : Bool) : Int × Int :=
  match pdu with
  | .set _ vars =>
    if vars.vars.isEmpty then (0, 0) else if isV1 then (noSuchNameStatus, 1) else (notWritableStatus, 1)
  | _ => (0, 0)

/-- The counter of the version a response is in. -/
def Envelope.counted : Envelope → List Counter
  | .community version _ => if version == v1Field then [.v1] else []
  | .v3 .. => [.v3]

def answerPdu (salts : SaltCounter) (pdu : Pdu) (envelope : Envelope) (budget : Nat) : Answered :=
  match pdu.parts with
  | none => { outcome := .droppedOther, counted := [.malformed], salts }
  | some (counter, id, vars) =>
    let reply : Reply := ⟨envelope, id, budget⟩
    let status := pdu.status envelope.isV1
    let r := envelope.write crypto salts [] id status.1 status.2 fun out =>
      pdu.varbinds agent ⟨out.length, reply⟩ envelope.isV1 out
    match r.1.2 with
    | .error _ => { outcome := .droppedOther, counted := [.malformed], salts := r.2 }
    | .ok written =>
      let a : Answered :=
        match written with
        | .complete => { outcome := .sent, out := r.1.1, salts := r.2 }
        | .full => tooBig crypto reply r.2 vars
        | .noSuchName index => noSuchName crypto reply r.2 vars index
      { a with counted := a.counted ++ counter :: envelope.counted }

def answer (req : Request) (budget : Nat) : Answered :=
  let salts := agent.usm.engine.salts
  if !agent.settings.versions.contains req.version.configured then
    { outcome := .droppedUnsupportedVersion, counted := [.unsupportedVersion], salts }
  else if !constantTimeEq req.community agent.settings.community then
    { outcome := .droppedWrongCommunity, counted := [.wrongCommunity], salts }
  else
    answerPdu crypto agent salts req.pdu (.community req.version.field agent.settings.community) budget

/-- The clock as an SNMPv3 message is answered: when it is verified, and when
its answer is written, in seconds after the bind. -/
structure Clock where
  verified : Nat
  answered : Nat

/-- The report of `stat`, when the message asks for one. -/
def answerReport (clock : Clock) (request : V3Message) (stat : UsmStat) (authenticated : Bool) : Answered :=
  let usm := agent.usm
  if request.flags.reportable then
    let value := (agent.counters stat.counter + 1) % 18446744073709551616 % 4294967296
    let user := if authenticated then findUser usm.users request.usm.user else none
    let engine := usm.engine.snapshot clock.answered
    { outcome := .sent, out := writeReport crypto [] request engine stat value user,
      counted := [stat.counter], salts := usm.engine.salts }
  else { outcome := .droppedOther, counted := [stat.counter], salts := usm.engine.salts }

variable (clock : Clock) (datagram : Octets) (budget : Nat)

def answerV3 : Answered :=
  let usm := agent.usm
  let malformed : Answered := { outcome := .droppedOther, counted := [.malformed], salts := usm.engine.salts }
  match V3.decode datagram with
  | .error _ => malformed
  | .ok request =>
    if request.securityModel ≠ usmModel then malformed
    else
      match verify crypto clock.verified request datagram usm.engine usm.users with
      | .report stat authenticated => answerReport crypto agent clock request stat authenticated
      | .answer user authenticated scopedPdu =>
        match scopedPdu.or request.scopedPdu with
        | none => malformed
        | some scopedPdu =>
          match classify scopedPdu.pdu with
          | .error _ => malformed
          | .ok pdu =>
            let envelope := Envelope.v3 request (usm.engine.snapshot clock.answered)
              (if authenticated then some user else none) request.flags.privacy
            answerPdu crypto agent usm.engine.salts pdu envelope (min budget request.msgMaxSize)

def undecodable (e : BerError) : Answered :=
  let salts := agent.usm.engine.salts
  if e = .unsupportedVersion V3.version then
    { outcome := .droppedUnsupportedVersion, counted := [.unsupportedVersion], salts }
  else { outcome := .droppedOther, counted := [.malformed], salts }

def respondNoting : Answered :=
  match decode datagram with
  | .ok request => answer crypto agent request budget
  | .error e =>
    if e = .unsupportedVersion V3.version ∧ agent.settings.versions.contains .v3 then
      answerV3 crypto agent clock datagram budget
    else undecodable agent e

end answers

/-! ## Warnings -/

/-- A minute, in nanoseconds. -/
def warnInterval : Nat := 60000000000

def warnedPeers : Nat := 1024

/-- Whether a warning last logged at `last` may be logged again at `now`. -/
def warnDue (last : Option Nat) (now : Nat) : Bool :=
  last.all fun time => decide (warnInterval ≤ now - time)

/-- When each peer was last warned about one kind of refusal. -/
structure PeerWarnings (IpAddr : Type) where
  last : AList fun _ : IpAddr => Nat := ∅

namespace PeerWarnings

variable {IpAddr : Type} [DecidableEq IpAddr]

/-- Only the peers that may not be warned about at `now`. -/
def retain (w : PeerWarnings IpAddr) (now : Nat) : PeerWarnings IpAddr where
  last := ⟨w.last.entries.filter fun e => !warnDue (some e.2) now,
    .sublist List.filter_sublist w.last.nodupKeys⟩

/-- Whether `peer` may be warned about at `now`, recording it if so. -/
def due (w : PeerWarnings IpAddr) (peer : IpAddr) (now : Nat) : Bool × PeerWarnings IpAddr :=
  if !warnDue (w.last.lookup peer) now then (false, w)
  else if warnedPeers ≤ w.last.keys.length ∧ peer ∉ w.last then
    let kept := w.retain now
    if warnedPeers ≤ kept.last.keys.length then (false, kept)
    else (true, ⟨kept.last.insert peer now⟩)
  else (true, ⟨w.last.insert peer now⟩)

end PeerWarnings

end Sonda.Snmp
