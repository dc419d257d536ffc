import Sonda.Proof.Snmp.Security

/-!
# How long an answer is

A list of varbinds is checked against the budget when something is appended to
it, and an error response before it is written; a response with no varbinds and
a report are not. `answerPdu_fits_iff`: the answer to a PDU fits its budget
unless it is one that nothing is appended to (`Pdu.unchecked`) in an envelope
that is too long by itself.

In SNMPv3 an envelope holds names that were checked when the agent was
configured, and fits any message size (`v3_len_le`), but a report to an unknown
engine or user repeats the user name of the request. `respondNoting_fits_iff`
is when every answer fits.
-/

namespace Sonda.Snmp

open Framework V3 List Nat

variable {msg : V3Message} {pdu : Pdu} {id : Int}
variable (requestId : Int) (stat : UsmStat) (value : Nat) (user : Option LocalizedUser)
  (crypto : Crypto) (reply : Reply) (salts : SaltCounter) {counter : Counter} {datagram : Octets}
  {engine : Snapshot} {agent : SnmpAgent} {usm : Usm} {vars : VarList}

/-! ## A budget that nothing fits -/

section nothing

variable {agent : SnmpAgent} {list : BindList} {vars : List VarBind}

theorem laterRounds_nil (rounds : Nat) (out : Octets) :
    laterRounds agent list rounds [] out = (out, .ok .complete) := by
  cases rounds <;> rfl

variable (h : ∀ out n, list.fits out n = false)

include h

theorem endOfMibView_full (name : Name) (out : Octets) :
    endOfMibView list name out = (out, .full) := by
  rw [endOfMibView, h, if_neg Bool.false_ne_true]

theorem next_full (arcs : List Nat) (name : Name) (out : Octets) :
    next agent list arcs name out = (out, .full) := by
  rw [next_eq]
  split
  · exact endOfMibView_full h name out
  · rw [h, if_neg Bool.false_ne_true]

theorem get_full (hne : vars ≠ []) (out : Octets) : (get agent list vars out).2 ≠ .ok .complete := by
  cases vars with
  | nil => exact absurd rfl hne
  | cons var vars =>
    unfold get
    split
    · nofun
    · rename_i name _
      have hput : ∀ tag, putException list (.request var.oid) tag out = none := by
        intro tag
        rw [putException, h, if_neg Bool.false_ne_true]
      cases agent.lookup name with
      | value varbind =>
        simp only [h, Bool.false_eq_true, if_false]
        nofun
      | noSuchInstance | noSuchObject =>
        simp only [hput]
        nofun

theorem scanV1_full {index : Nat} {full : Bool} {answers : List (Option (Option Octets))} {out : Octets}
    (hor : answers ≠ [] ∨ full = true) : (scanV1 list index full answers out).2 ≠ .ok .complete := by
  fun_induction scanV1 list index full answers out with
  | case1 index full out =>
    obtain rfl : full = true := hor.resolve_left fun hne => hne rfl
    intro hok
    cases hok
  | case2 | case3 =>
    intro hok
    cases hok
  | case4 _ _ _ _ _ hfits =>
    rw [h, Bool.and_false] at hfits
    cases hfits
  | case5 _ _ _ _ _ _ ih => exact ih (.inr rfl)

theorem nextEach_full {α : Type} (full complete : α) (var : VarBind) (vars : List VarBind)
    (out : Octets) : nextEach agent list full complete (var :: vars) out =
      (out, if (decodeBerBody var.oid).isSome then .ok full else .error .badOid) := by
  unfold nextEach
  cases decodeBerBody var.oid with
  | none => rfl
  | some name =>
    dsimp only
    rw [next_full h]
    rfl

theorem getNext_full (hne : vars ≠ []) (out : Octets) :
    (getNext agent list vars out).2 ≠ .ok .complete := by
  cases vars with
  | nil => exact absurd rfl hne
  | cons var vars =>
    rw [getNext, nextEach_full h]
    split <;> nofun

/-- Whether a GetBulk that nothing fits is answered at all. -/
def bulkAnswered (vars : List VarBind) (nonRepeaters maxRepetitions : Nat) : Bool :=
  match vars with
  | [] => true
  | var :: _ => (nonRepeaters == 0 && maxRepetitions == 0) || (decodeBerBody var.oid).isSome

theorem firstRound_full (var : VarBind) (vars : List VarBind)
    (out : Octets) : firstRound agent list (var :: vars) out =
      (out, if (decodeBerBody var.oid).isSome then .ok none else .error .badOid) := by
  unfold firstRound
  cases decodeBerBody var.oid with
  | none => rfl
  | some name =>
    dsimp only
    rw [next_full h]
    rfl

theorem getBulk_full (vars : List VarBind) (nonRepeaterCount maxRepetitions : Nat) (out : Octets) :
    getBulk agent list vars nonRepeaterCount maxRepetitions out =
      (out, if bulkAnswered vars nonRepeaterCount maxRepetitions then .ok .complete
        else .error .badOid) := by
  cases vars with
  | nil =>
    show repeaters agent list [] maxRepetitions out = _
    unfold repeaters
    split
    · rfl
    · exact laterRounds_nil _ _
  | cons var vars =>
    cases nonRepeaterCount with
    | zero =>
      show repeaters agent list (var :: vars) maxRepetitions out = _
      unfold repeaters bulkAnswered
      cases maxRepetitions with
      | zero => rfl
      | succ rounds =>
        rw [if_neg (succ_ne_zero rounds), firstRound_full h]
        by_cases hsome : (decodeBerBody var.oid).isSome = true <;> simp [hsome]
    | succ count =>
      have htake : (var :: vars).take (min (var :: vars).length (count + 1)) =
          var :: vars.take (min vars.length count) := by
        rw [length_cons, succ_min_succ, take_succ_cons]
      unfold getBulk bulkAnswered
      dsimp only
      rw [htake, nonRepeaters, nextEach_full h]
      by_cases hsome : (decodeBerBody var.oid).isSome = true <;> simp [hsome]

end nothing

/-! ## PDUs -/

/-- The request-id of a PDU that may be answered with no varbind appended, and
so with nothing checked. -/
def Pdu.unchecked : Pdu → Option Int
  | .get id vars | .getNext id vars => if vars.vars.isEmpty then some id else none
  | .getBulk id nonRepeaters maxRepetitions vars =>
    if bulkAnswered vars.vars nonRepeaters maxRepetitions then some id else none
  | .set .. | .other _ => none

/-- With a budget that nothing fits, only a PDU that is not checked is complete. -/
theorem varbinds_full {list : BindList} (h : ∀ out n, list.fits out n = false)
    (hparts : pdu.parts = some (counter, id, vars)) (isV1 : Bool) (out : Octets) :
    (pdu.unchecked = some id ∧ pdu.varbinds agent list isV1 out = (out, .ok .complete)) ∨
      (pdu.unchecked = none ∧ (pdu.varbinds agent list isV1 out).2 ≠ .ok .complete) := by
  cases pdu with
  | get id' vars' | getNext id' vars' =>
    obtain ⟨-, rfl, rfl⟩ : _ ∧ id' = id ∧ vars' = vars := by simpa [Pdu.parts] using hparts
    unfold Pdu.unchecked Pdu.varbinds
    dsimp only
    cases vars'.vars with
    | nil => cases isV1 <;> exact .inl ⟨rfl, rfl⟩
    | cons var rest =>
      have hne := cons_ne_nil var rest
      refine .inr ⟨rfl, ?_⟩
      cases isV1 with
      | false => first | exact get_full h hne _ | exact getNext_full h hne _
      | true =>
        first | rw [if_pos rfl, getV1_eq] | rw [if_pos rfl, getNextV1_eq]
        exact scanV1_full h (.inl (cons_ne_nil _ _))
  | getBulk id' nonRepeaters maxRepetitions vars' =>
    obtain ⟨-, rfl, rfl⟩ : _ ∧ id' = id ∧ vars' = vars := by simpa [Pdu.parts] using hparts
    unfold Pdu.unchecked Pdu.varbinds
    dsimp only
    rw [getBulk_full h]
    cases bulkAnswered vars'.vars nonRepeaters maxRepetitions with
    | true => exact .inl ⟨rfl, rfl⟩
    | false => exact .inr ⟨rfl, nofun⟩
  | set id' vars' =>
    refine .inr ⟨rfl, ?_⟩
    unfold Pdu.varbinds echo
    dsimp only
    rw [h, if_neg Bool.false_ne_true]
    nofun
  | other tag => exact nomatch hparts

/-- An error response does not fit where a response with no varbinds does not. -/
theorem errorResponse_dropped (status index : Int) (varbinds : Octets)
    (h : reply.budget < reply.envelope.len reply.id 0 0 0) :
    (errorResponse crypto reply salts status index varbinds).outcome = .droppedOther := by
  have hlen : reply.envelope.len reply.id 0 0 0 ≤
      reply.envelope.len reply.id status index varbinds.length :=
    reply.envelope.len_le reply.id (i64Len_zero_le _) (i64Len_zero_le _) (zero_le _)
  rw [errorResponse, if_pos (h.trans_le hlen)]

theorem noSuchName_dropped (vars : VarList) (index : Nat)
    (h : reply.budget < reply.envelope.len reply.id 0 0 0) :
    (noSuchName crypto reply salts vars index).outcome = .droppedOther := by
  unfold noSuchName
  rw [if_neg (by rw [errorResponse_dropped crypto reply salts _ _ _ h]; decide)]
  exact errorResponse_dropped crypto reply _ _ _ _ h

/-- An answer with a budget that not even the empty list fits. -/
theorem answerPdu_full (agent : SnmpAgent) (salts : SaltCounter) (envelope : Envelope)
    (budget : Nat) (hparts : pdu.parts = some (counter, id, vars))
    (h : budget < envelope.len id 0 0 0) :
    let a := answerPdu crypto agent salts pdu envelope budget
    (pdu.unchecked = some id ∧ a.outcome = .sent ∧ a.out.length = envelope.len id 0 0 0) ∨
      (pdu.unchecked = none ∧ a.outcome ≠ .sent) := by
  have hnothing : ∀ start out n, BindList.fits ⟨start, ⟨envelope, id, budget⟩⟩ out n = false :=
    fun start out n => decide_eq_false (not_le.mpr
      (h.trans_le (envelope.len_mono id 0 0 (zero_le _))))
  obtain ⟨out, body, hbody, -, heq⟩ := answerPdu_eq crypto ⟨envelope, id, budget⟩ salts agent hparts
  rw [heq]
  rcases @varbinds_full pdu id counter agent vars ⟨out.length, ⟨envelope, id, budget⟩⟩ (hnothing _)
    hparts envelope.isV1 out with ⟨hunchecked, hcomplete⟩ | ⟨hchecked, hincomplete⟩
  · rw [hcomplete] at hbody ⊢
    obtain rfl : body = [] := by simpa using hbody
    refine .inl ⟨hunchecked, rfl, ?_⟩
    obtain ⟨hstatus, hindex⟩ := pdu.status_len envelope.isV1
    dsimp only [answered]
    rw [Envelope.length_message]
    exact le_antisymm (envelope.len_le id hstatus.le hindex.le (le_refl _))
      (envelope.len_le id hstatus.ge hindex.ge (le_refl _))
  · refine .inr ⟨hchecked, ?_⟩
    generalize (pdu.varbinds agent ⟨out.length, ⟨envelope, id, budget⟩⟩ envelope.isV1 out).2 = written
      at hincomplete
    rcases written with e | _ | _ | index
    · nofun
    · exact absurd rfl hincomplete
    · dsimp only [answered, tooBig]
      rw [errorResponse_dropped crypto ⟨envelope, id, budget⟩ _ _ _ _ h]
      nofun
    · dsimp only [answered]
      rw [noSuchName_dropped crypto ⟨envelope, id, budget⟩ _ vars index h]
      nofun

theorem parts_of_unchecked (h : pdu.unchecked = some id) :
    ∃ counter vars, pdu.parts = some (counter, id, vars) := by
  unfold Pdu.unchecked at h
  cases pdu with
  | get id' vars | getNext id' vars | getBulk id' _ _ vars =>
    dsimp only at h
    split at h
    · cases h
      exact ⟨_, _, rfl⟩
    · exact nomatch h
  | set id' vars => exact nomatch h
  | other tag => exact nomatch h

/-- When the answer to a PDU fits. -/
theorem answerPdu_fits_iff (agent : SnmpAgent) (salts : SaltCounter) (pdu : Pdu)
    (envelope : Envelope) (budget : Nat) :
    let a := answerPdu crypto agent salts pdu envelope budget
    (a.outcome = .sent → a.out.length ≤ budget) ↔
      ∀ id, pdu.unchecked = some id → envelope.len id 0 0 0 ≤ budget := by
  constructor
  · intro hfits id hid
    obtain ⟨counter, vars, hparts⟩ := parts_of_unchecked hid
    by_contra hlong
    rcases answerPdu_full crypto agent salts envelope budget hparts (not_le.mp hlong) with
      ⟨-, hsent, hlen⟩ | ⟨hnone, -⟩
    · exact hlong (hlen ▸ hfits hsent)
    · rw [hid] at hnone
      exact nomatch hnone
  · intro hroom hsent
    obtain ⟨counter, id, vars, hparts, salts', status, index, body, hout, hlen⟩ :=
      answerPdu_sent crypto agent salts pdu envelope budget hsent
    rw [hout, Envelope.length_message]
    rcases hlen with hlen | ⟨rfl, hstatus, hindex⟩
    · exact hlen
    · refine (envelope.len_le id hstatus.le hindex.le (le_refl _)).trans (not_lt.mp fun hlong => ?_)
      rcases answerPdu_full crypto agent salts envelope budget hparts hlong with ⟨hid, -⟩ | ⟨-, hnot⟩
      · exact absurd (hroom id hid) (not_le.mpr hlong)
      · exact hnot hsent

/-! ## SNMPv3 -/

/-- The names of a bound agent. -/
theorem bind_names {settings : AgentSettings} (h : settings.Accepted) (crypto : Crypto) (bound : Bound)
    (table : MibTable) (uptimeMillis : Nat) (counters : Counter → Nat) :
    let agent := SnmpAgent.bind crypto settings bound table uptimeMillis counters
    agent.usm.engine.id.length ≤ 32 ∧ ∀ user ∈ agent.usm.users, user.name.length ≤ 32 := by
  refine ⟨?_, fun user huser => ?_⟩
  · show (settings.engineId.getD (defaultEngineId crypto bound.hostname bound.localAddr)).length ≤ 32
    cases hid : settings.engineId with
    | some id => exact h.engineId id hid
    | none =>
      rw [Option.getD_none, defaultEngineId, length_append, length_take]
      show 5 + _ ≤ 32
      omega
  · obtain ⟨configured, hmem, rfl⟩ := mem_map.mp huser
    exact h.users configured hmem

/-- A PDU with no varbinds in any SNMPv3 envelope of the agent. -/
theorem v3_len_le (salted : Bool) (id : Int) (hid : engine.id.length ≤ 32)
    (hname : msg.usm.user.length ≤ 32) :
    (Envelope.v3 msg engine user salted).len id 0 0 0 ≤ 484 := by
  have hpdu : tlvLen (i64Len id + i64Len 0 + i64Len 0 + tlvLen 0) ≤ 38 := by
    have h₁ := i64Len_le id
    have h₂ := i64Len_le 0
    have h₃ : tlvLen 0 = 2 := by decide
    exact (tlvLen_le (by omega)).trans (by omega)
  have hle (isPrivate : Bool) := V3.messageLen_le user isPrivate hid (hpdu.trans_lt (by decide))
    (hname.trans (by decide))
  unfold Envelope.len
  dsimp only
  split
  · exact (hle _).trans (by omega)
  · exact (hle _).trans (by omega)

/-! ## Reports -/

/-- The PDU of a report. -/
def reportPdu (requestId : Int) (stat : UsmStat) (value : Nat) : Octets :=
  pduOctets .report requestId 0 0 (bindOf stat.oidBody .counter32 (unsignedSpan value))

/-- The request-id a report repeats. -/
def reportId (msg : V3Message) : Int :=
  match msg.scopedPdu with
  | some scopedPdu => scopedPdu.pdu.requestId
  | none => 0

theorem writeReportPdu_eq (out : Octets) :
    writeReportPdu requestId stat value out = out ++ reportPdu requestId stat value := by
  refine writeTlv_eq ?_
  dsimp only
  have hvarbind : ∀ out, writeTlv out .sequence (fun out =>
      writeCounter32 (writeOctets out .oid stat.oidBody) value) =
      out ++ bindOf stat.oidBody .counter32 (unsignedSpan value) := by
    intro out
    refine writeTlv_eq ?_
    rw [writeCounter32, writeU64_eq, writeOctets_eq, append_assoc]
  rw [writeI64_eq, writeI64_eq, writeI64_eq, writeTlv_eq (hvarbind _)]
  simp only [append_assoc, intOctets]

theorem length_writeReport (msg : V3Message) (engine : Snapshot) (stat : UsmStat) (value : Nat)
    (user : Option LocalizedUser) :
    (writeReport crypto [] msg engine stat value user).length =
      responseLen msg engine user (reportPdu (reportId msg) stat value).length := by
  have hpdu : ∀ out, (writeReportPdu (reportId msg) stat value out, ()) =
      (out ++ reportPdu (reportId msg) stat value, ()) := by
    intro out
    rw [writeReportPdu_eq]
  have hlen := length_writeMessage crypto msg engine [] user none hpdu
  rw [length_nil, zero_add] at hlen
  exact hlen

theorem length_unsignedSpan_le (v : Nat) : (unsignedSpan v).length ≤ 9 := by
  have hlen : ((beOctets 8 v).drop (min ((64 - v.size) / 8) 7)).length ≤ 8 := by
    rw [length_drop, length_beOctets]
    omega
  unfold unsignedSpan
  dsimp only
  split
  · rw [length_cons]
    omega
  · omega

theorem length_reportPdu_le : (reportPdu requestId stat value).length ≤ 75 := by
  have hbind : (bindOf stat.oidBody .counter32 (unsignedSpan value)).length ≤ 33 := by
    have hname : stat.oidBody.length = 10 := by cases stat <;> rfl
    have hspan := length_unsignedSpan_le value
    have hvalue := tlvLen_le (n := (unsignedSpan value).length)
    have hten : tlvLen 10 = 12 := by decide
    rw [length_bindOf, hname]
    exact (tlvLen_le (by omega)).trans (by omega)
  have hlist := tlvLen_le (n := (bindOf stat.oidBody .counter32 (unsignedSpan value)).length)
  have h₁ := i64Len_le requestId
  have h₂ := i64Len_le 0
  rw [reportPdu, length_pduOctets]
  exact (tlvLen_le (by omega)).trans (by omega)

/-- The check that fails for a request whose sender the agent does not know. -/
def unidentified (usm : Usm) (msg : V3Message) : Option UsmStat :=
  if msg.usm.engineId.isEmpty ∨ msg.usm.engineId ≠ usm.engine.id then some .unknownEngineIds
  else if findUser usm.users msg.usm.user = none then some .unknownUserNames
  else none

/-- A report goes out for a request that is not known, or its user is found. -/
theorem verify_unidentified {crypto : Crypto} {seconds : Nat} {raw : Octets} {stat : UsmStat}
    {authenticated : Bool}
    (h : verify crypto seconds msg raw usm.engine usm.users = .report stat authenticated) :
    (unidentified usm msg = some stat ∧ authenticated = false) ∨
      (unidentified usm msg = none ∧ ∃ user, findUser usm.users msg.usm.user = some user) := by
  rw [verify] at h
  unfold unidentified
  split at h
  · rename_i hengine
    cases h
    exact .inl ⟨if_pos hengine, rfl⟩
  · rename_i hengine
    rw [if_neg hengine]
    cases huser : findUser usm.users msg.usm.user with
    | none =>
      rw [huser] at h
      cases h
      exact .inl ⟨rfl, rfl⟩
    | some user => exact .inr ⟨rfl, user, rfl⟩

theorem verify_of_unidentified {stat : UsmStat} (h : unidentified usm msg = some stat)
    (crypto : Crypto) (seconds : Nat) (raw : Octets) :
    verify crypto seconds msg raw usm.engine usm.users = .report stat false := by
  rw [verify]
  unfold unidentified at h
  split at h
  · rename_i hengine
    rw [if_pos hengine, Option.some.inj h]
  · rename_i hengine
    rw [if_neg hengine]
    split at h
    · rename_i huser
      rw [huser, Option.some.inj h]
    · cases h

/-! ## Every answer -/

/-- An SNMPv3 message is of a version the other decoder does not take. -/
theorem decode_of_v3 (h : V3.decode datagram = .ok msg) :
    Snmp.decode datagram = .error (.unsupportedVersion V3.version) := by
  obtain ⟨⟨body, outer⟩, hbody, h⟩ := bind_ok h
  obtain ⟨houter, h⟩ := check_ok h
  obtain ⟨⟨version, r⟩, hversion, h⟩ := bind_ok h
  obtain ⟨hv, -⟩ := check_ok h
  have hv : version = 3 := not_not.mp hv
  subst hv
  have hmessage : Message.decode datagram = .error (.unsupportedVersion V3.version) := by
    unfold Message.decode
    rw [hbody]
    simp only [bind, Except.bind, houter, hversion]
    rfl
  unfold Snmp.decode
  rw [hmessage]
  rfl

/-- If the request goes unchecked, its community is not too long for an empty response. -/
def EmptyFits (agent : SnmpAgent) (request : Request) : Prop :=
  ∀ id, request.version.configured ∈ agent.settings.versions →
    request.community = agent.settings.community → request.pdu.unchecked = some id →
    messageLen request.version.field agent.settings.community id 0 0 0 ≤ agent.settings.maxMessageSize

/-- If a report goes to the message, the user that it names, unchecked, is not too long for the report. -/
def ReportFits (agent : SnmpAgent) (clock : Clock) (msg : V3Message) : Prop :=
  ∀ stat, msg.securityModel = usmModel → msg.flags.reportable = true → unidentified agent.usm msg = some stat →
    responseLen msg (agent.usm.engine.snapshot clock.answered) none
      (reportPdu (reportId msg) stat
        ((agent.counters stat.counter + 1) % 18446744073709551616 % 4294967296)).length ≤
      min agent.settings.maxMessageSize msg.msgMaxSize

def FitsWhen (agent : SnmpAgent) (clock : Clock) (datagram : Octets) : Prop :=
  (∀ request, Snmp.decode datagram = .ok request → EmptyFits agent request) ∧
  ∀ msg, V3.decode datagram = .ok msg → .v3 ∈ agent.settings.versions → ReportFits agent clock msg

theorem answer_fits_iff (agent : SnmpAgent) (request : Request) :
    let a := answer crypto agent request agent.settings.maxMessageSize
    (a.outcome = .sent → a.out.length ≤ agent.settings.maxMessageSize) ↔ EmptyFits agent request := by
  unfold answer EmptyFits
  by_cases hversion : request.version.configured ∈ agent.settings.versions
  · rw [if_neg (by simpa using hversion)]
    by_cases hcommunity : request.community = agent.settings.community
    · rw [if_neg (by rw [constantTimeEq_iff.mpr hcommunity]; decide)]
      refine (answerPdu_fits_iff _ _ _ _ _ _).trans ?_
      exact ⟨fun h id _ _ => h id, fun h id => h id hversion hcommunity⟩
    · have hne : constantTimeEq request.community agent.settings.community = false :=
        Bool.eq_false_iff.mpr fun h => hcommunity (constantTimeEq_iff.mp h)
      rw [if_pos (by rw [hne]; rfl)]
      exact ⟨fun _ _ _ hc => absurd hc hcommunity, nofun⟩
  · rw [if_pos (by simpa using hversion)]
    exact ⟨fun _ _ hv => absurd hv hversion, nofun⟩

section configured

variable (hsize : minMaxMessageSize ≤ agent.settings.maxMessageSize)
  (hid : agent.usm.engine.id.length ≤ 32) (husers : ∀ user ∈ agent.usm.users, user.name.length ≤ 32)
  (crypto : Crypto) (clock : Clock)

include hsize hid husers

theorem answerV3_fits_iff (hmsg : V3.decode datagram = .ok msg) :
    let a := answerV3 crypto agent clock datagram agent.settings.maxMessageSize
    (a.outcome = .sent → a.out.length ≤ min agent.settings.maxMessageSize msg.msgMaxSize) ↔
      ReportFits agent clock msg := by
  have hroom : 484 ≤ min agent.settings.maxMessageSize msg.msgMaxSize :=
    Nat.le_min.mpr ⟨hsize, (V3.decode_ok hmsg).maxSize⟩
  unfold answerV3 ReportFits
  rw [hmsg]
  dsimp only
  by_cases hmodel : msg.securityModel = usmModel
  swap
  · rw [if_pos hmodel]
    exact ⟨fun _ _ h => absurd h hmodel, nofun⟩
  rw [if_neg (not_not.mpr hmodel)]
  cases hverify : verify crypto clock.verified msg datagram agent.usm.engine agent.usm.users with
  | report stat authenticated =>
    unfold answerReport
    dsimp only
    by_cases hreportable : msg.flags.reportable = true
    swap
    · rw [if_neg hreportable]
      exact ⟨fun _ _ _ h => absurd h hreportable, nofun⟩
    rw [if_pos hreportable]
    rw [length_writeReport]
    rcases verify_unidentified hverify with ⟨hstat, rfl⟩ | ⟨hnone, user, huser⟩
    · rw [if_neg Bool.false_ne_true, hstat]
      constructor
      · intro h stat' _ _ hstat'
        cases hstat'
        exact h rfl
      · exact fun h _ => h stat hmodel hreportable rfl
    · rw [hnone]
      refine ⟨nofun, fun _ _ => ?_⟩
      obtain ⟨hmem, hname⟩ := name_of_findUser huser
      have hshort : msg.usm.user.length ≤ 32 := hname ▸ husers user hmem
      have hpdu := length_reportPdu_le (reportId msg) stat
        ((agent.counters stat.counter + 1) % 18446744073709551616 % 4294967296)
      exact (V3.messageLen_le _ _ hid (hpdu.trans_lt (by decide)) (hshort.trans (by decide))).trans
        (by omega)
  | answer user authenticated scopedPdu =>
    have hsettles := @verify_settles crypto clock.verified msg datagram agent.usm.engine agent.usm.users
      (V3.decode_ok hmsg)
    rw [hverify] at hsettles
    obtain ⟨hmem, hname⟩ := name_of_findUser hsettles.2.1
    have hshort : msg.usm.user.length ≤ 32 := hname ▸ husers user hmem
    have hidentified : ∀ stat, unidentified agent.usm msg ≠ some stat := by
      intro stat hstat
      rw [verify_of_unidentified hstat] at hverify
      exact nomatch hverify
    have hsnapshot : (agent.usm.engine.snapshot clock.answered).id.length ≤ 32 := hid
    refine ⟨fun _ stat _ _ hstat => absurd hstat (hidentified stat), fun _ => ?_⟩
    dsimp only
    cases scopedPdu.or msg.scopedPdu with
    | none => exact nofun
    | some scopedPdu =>
      dsimp only
      cases classify scopedPdu.pdu with
      | error e => exact nofun
      | ok pdu =>
        exact (answerPdu_fits_iff _ _ _ _ _ _).mpr fun id _ =>
          (v3_len_le _ _ id hsnapshot hshort).trans hroom

theorem fits_iff (datagram : Octets) :
    let a := respondNoting crypto agent clock datagram agent.settings.maxMessageSize
    (a.outcome = .sent → a.out.length ≤ agent.settings.maxMessageSize ∧
      ∀ msg, V3.decode datagram = .ok msg → a.out.length ≤ msg.msgMaxSize) ↔
      FitsWhen agent clock datagram := by
  unfold respondNoting FitsWhen
  cases hdecode : Snmp.decode datagram with
  | ok request =>
    have hnot : ∀ msg, V3.decode datagram ≠ .ok msg := by
      intro msg hmsg
      rw [decode_of_v3 hmsg] at hdecode
      exact nomatch hdecode
    have hanswer := answer_fits_iff crypto agent request
    constructor
    · intro h
      refine ⟨fun request' hrequest => ?_, fun msg hmsg => absurd hmsg (hnot msg)⟩
      cases hrequest
      exact hanswer.mp fun hsent => (h hsent).1
    · exact fun h hsent => ⟨hanswer.mpr (h.1 request rfl) hsent, fun msg hmsg => absurd hmsg (hnot msg)⟩
  | error e =>
    dsimp only
    by_cases hserves : e = .unsupportedVersion V3.version ∧ agent.settings.versions.contains .v3
    · rw [if_pos hserves]
      have hversion : .v3 ∈ agent.settings.versions := by simpa using hserves.2
      cases hmsg : V3.decode datagram with
      | error e' =>
        have hdropped : (answerV3 crypto agent clock datagram agent.settings.maxMessageSize).outcome =
            .droppedOther := by
          unfold answerV3
          rw [hmsg]
        rw [hdropped]
        exact ⟨fun _ => ⟨nofun, fun _ h => (nomatch h)⟩, nofun⟩
      | ok msg =>
        have hanswer := answerV3_fits_iff hsize hid husers crypto clock hmsg
        constructor
        · intro h
          refine ⟨nofun, fun msg' hmsg' _ => ?_⟩
          cases hmsg'
          exact hanswer.mp fun hsent => Nat.le_min.mpr ⟨(h hsent).1, (h hsent).2 msg rfl⟩
        · intro h hsent
          have hfits := hanswer.mpr (h.2 msg rfl hversion) hsent
          refine ⟨hfits.trans (min_le_left _ _), fun msg' hmsg' => ?_⟩
          cases hmsg'
          exact hfits.trans (min_le_right _ _)
    · rw [if_neg hserves]
      have hdropped : (undecodable agent e).outcome ≠ .sent := by
        unfold undecodable
        split <;> nofun
      refine ⟨fun _ => ⟨nofun, fun msg hmsg hversion => ?_⟩,
        fun _ h => absurd h hdropped⟩
      rw [decode_of_v3 hmsg] at hdecode
      exact absurd ⟨(Except.error.inj hdecode).symm, by simpa using hversion⟩ hserves

end configured

/-- When every answer to a datagram fits. -/
theorem respondNoting_fits_iff {std : StdText} {config : SnmpAgentConfig} {settings : AgentSettings}
    (hset : config.settings std = .ok settings) (crypto : Crypto) (bound : Bound) (table : MibTable)
    (uptimeMillis : Nat) (counters : Counter → Nat) (clock : Clock) (datagram : Octets) :
    let agent := SnmpAgent.bind crypto settings bound table uptimeMillis counters
    let a := respondNoting crypto agent clock datagram settings.maxMessageSize
    (a.outcome = .sent → a.out.length ≤ settings.maxMessageSize ∧
      ∀ msg, V3.decode datagram = .ok msg → a.out.length ≤ msg.msgMaxSize) ↔
      FitsWhen agent clock datagram := by
  have hsettings := settings_ok hset
  obtain ⟨hid, husers⟩ := bind_names hsettings crypto bound table uptimeMillis counters
  exact fits_iff hsettings.minSize hid husers crypto clock datagram

/-- An agent of a message size of 484, for one user. -/
def reportConfig : SnmpAgentConfig :=
  { publicConfig with
    maxMessageSize := 484, versions := [.v3], users := [⟨[0x75], none, none⟩],
    engineId := some [0x30, 0x31, 0x30, 0x32, 0x30, 0x33, 0x30, 0x34, 0x30, 0x35] }

def reportSettings : AgentSettings :=
  { publicSettings with
    maxMessageSize := 484, versions := [.v3], users := [⟨[0x75], none, none⟩],
    engineId := some [1, 2, 3, 4, 5] }

def reportAgent : SnmpAgent :=
  .bind identityCrypto reportSettings ⟨[], [], ⟨0, 0⟩⟩ (bindTable reportSettings) 0 fun _ => 0

/-- A discovery request that names a user in `length` octets. -/
def discovery (length : Nat) : Octets :=
  tlv .sequence (intOctets 3 ++ tlv .sequence (intOctets 1 ++ intOctets 65507 ++
      tlv .octetString [reportableFlag] ++ intOctets 3) ++
    tlv .octetString (tlv .sequence (tlv .octetString [] ++ intOctets 0 ++ intOctets 0 ++
      tlv .octetString (List.replicate length 0x75) ++ tlv .octetString [] ++ tlv .octetString [])) ++
    scopedOctets ⟨[], 0, 0⟩ (pduOctets .getRequest 1 0 0 []))

/-- The report to a user name of 500 octets is longer than the agent's
messages. -/
theorem report_too_long : reportConfig.settings loopback = .ok reportSettings ∧
    let a := respondNoting identityCrypto reportAgent ⟨0, 0⟩ (discovery 500) reportSettings.maxMessageSize
    a.outcome = .sent ∧ reportSettings.maxMessageSize < a.out.length := by
  have hset : reportConfig.settings loopback = .ok reportSettings := by decide +kernel
  have hsettings := settings_ok hset
  obtain ⟨hid, husers⟩ := bind_names hsettings identityCrypto ⟨[], [], ⟨0, 0⟩⟩
    (bindTable reportSettings) 0 fun _ => 0
  -- The length is read off the request, so that no report is computed.
  have hlong : (V3.decode (discovery 500)).toOption.any (fun msg => decide
      (msg.securityModel = usmModel ∧ msg.flags.reportable = true ∧
        unidentified reportAgent.usm msg = some .unknownEngineIds ∧
        484 < responseLen msg (reportAgent.usm.engine.snapshot 0) none
          (reportPdu (reportId msg) .unknownEngineIds 1).length)) = true := by decide +kernel
  obtain ⟨msg, hmsg, hlong⟩ := (Option.any_eq_true _ _).mp hlong
  obtain ⟨hmodel, hreport, hstat, hlen⟩ := of_decide_eq_true hlong
  refine ⟨hset, by_contra fun hshort => ?_⟩
  have hfits := (fits_iff hsettings.minSize hid husers identityCrypto ⟨0, 0⟩ (discovery 500)).mp
    fun hsent => by
      have hle := Nat.le_of_not_lt fun h => hshort ⟨hsent, h⟩
      exact ⟨hle, fun msg hmsg => hle.trans (V3.decode_ok hmsg).maxSize⟩
  have hle := hfits.2 msg (ok_of_toOption hmsg) (by decide) _ hmodel hreport hstat
  exact absurd (hle.trans (Nat.min_le_left _ _)) (Nat.not_le.mpr hlen)

/-- The report to a user name of 30 octets fits. -/
theorem respondNoting_fits_iff_discovery :
    (respondNoting identityCrypto reportAgent ⟨0, 0⟩ (discovery 30) 484).outcome = .sent ∧
      FitsWhen reportAgent ⟨0, 0⟩ (discovery 30) := by
  have hset : reportConfig.settings loopback = .ok reportSettings := by decide
  refine ⟨by decide, (respondNoting_fits_iff hset identityCrypto ⟨[], [], ⟨0, 0⟩⟩
    (bindTable reportSettings) 0 (fun _ => 0) ⟨0, 0⟩ (discovery 30)).mp fun _ => ?_⟩
  have hshort : (respondNoting identityCrypto reportAgent ⟨0, 0⟩ (discovery 30)
      reportSettings.maxMessageSize).out.length ≤ 484 := by decide +kernel
  exact ⟨hshort, fun msg hmsg => hshort.trans (V3.decode_ok hmsg).maxSize⟩

end Sonda.Snmp
