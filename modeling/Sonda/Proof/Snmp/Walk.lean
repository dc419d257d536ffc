import Sonda.Proof.Snmp.Envelopes
import Sonda.Proof.Snmp.Successors

/-!
# A walk with GetNext

A client asks for the successor of one name, then for the successor of the
name it was answered with, until the answer is `endOfMibView`, or `noSuchName`
under SNMPv1. `getNext_walk`: it comes to every instance after its start, in
the order of their OIDs.

`Says` reads an answer: a response whose varbind list is the one `VarBind` that
names an instance, or `endOfMibView` under the request's name; or the
`noSuchName` response. `Answers` is what every request for one name is
answered with whose budget holds any answer (`Room`).
-/

namespace Sonda.Snmp

open Framework List

variable {agent : SnmpAgent}

/-! ## Requests for one name -/

/-- The fields of a `GetNextRequest` for one name. -/
structure NextRequest where
  id : Int
  vars : VarList
  var : VarBind
  oid : Oid
  single : vars.vars = [var]
  named : Oid.fromBerBody var.oid = some oid

inductive NextAnswer
  | found (oid : Oid) (varbind : Octets)
  | endOfMibView (oid : Oid)
  | noSuchName

section asking

variable (crypto : Crypto) (salts : SaltCounter) (envelope : Envelope) (request : NextRequest)

/-- What a client reads in the response to a request. -/
inductive Says (a : Answered) : NextAnswer → Prop
  | found {oid : Oid} {varbind : Octets} {var : VarBind}
      (hsent : a.response = some (envelope.message crypto salts request.id 0 0 varbind))
      (hlist : VarBind.list varbind = .ok [var]) (hname : Oid.fromBerBody var.oid = some oid)
      (htag : var.valueTag ≠ Tag.endOfMibView.byte) : Says a (.found oid varbind)
  | endOfMibView {oid : Oid} {varbind : Octets} {var : VarBind}
      (hsent : a.response = some (envelope.message crypto salts request.id 0 0 varbind))
      (hlist : VarBind.list varbind = .ok [var]) (hname : Oid.fromBerBody var.oid = some oid)
      (htag : var.valueTag = Tag.endOfMibView.byte) : Says a (.endOfMibView oid)
  | noSuchName (hsent : a.response =
      some (envelope.message crypto salts request.id noSuchNameStatus 1 request.vars.body)) :
      Says a .noSuchName

end asking

/-- The budget holds the response with any instance, with an exception under
the request's name, and the refusal. -/
structure Room (agent : SnmpAgent) (envelope : Envelope) (request : NextRequest) (budget : Nat) :
    Prop where
  instances : ∀ {oid varbind}, agent.Serves oid varbind →
    envelope.len request.id 0 0 varbind.length ≤ budget
  ending : envelope.len request.id 0 0 (exceptionLen request.var.oid.length) ≤ budget
  refusal : envelope.len request.id noSuchNameStatus 1 request.vars.body.length ≤ budget

/-- What the requests for the successor of `oid` are answered with, in
whichever envelope of that version. -/
def Answers (agent : SnmpAgent) (isV1 : Bool) (oid : Oid) (answer : NextAnswer) : Prop :=
  ∀ (crypto : Crypto) (salts : SaltCounter) (envelope : Envelope) (request : NextRequest) (budget : Nat),
    request.oid = oid → envelope.isV1 = isV1 → budget ≤ agent.settings.maxMessageSize →
    Room agent envelope request budget →
    Says crypto salts envelope request
      (answerPdu crypto agent salts (.getNext request.id request.vars) envelope budget) answer

/-- The answer a walk ends with. -/
def endAnswer (isV1 : Bool) (oid : Oid) : NextAnswer := if isV1 then .noSuchName else .endOfMibView oid

/-- A walk from an OID comes to these instances, one after the other, and
ends. -/
inductive Walk (agent : SnmpAgent) (isV1 : Bool) : Oid → List (Oid × Octets) → Prop
  | ended {oid : Oid} (h : Answers agent isV1 oid (endAnswer isV1 oid)) : Walk agent isV1 oid []
  | found {oid next : Oid} {varbind : Octets} {rest : List (Oid × Octets)}
      (h : Answers agent isV1 oid (.found next varbind)) (hrest : Walk agent isV1 next rest) :
      Walk agent isV1 oid ((next, varbind) :: rest)

/-- The `VarBind` of `oid` with a `Counter64`. -/
def HoldsCounter64 (oid : Oid) (varbind : Octets) : Prop :=
  ∃ octets, varbind = bindOf (oidBody oid) .counter64 octets

/-! ## One answer -/

theorem Tag.isValue_ne_endOfMibView {tag : Tag} (h : tag.isValue = true) :
    tag.byte ≠ Tag.endOfMibView.byte := by
  cases tag <;> first | decide | exact nomatch h

section answer

variable {agent : SnmpAgent} {envelope : Envelope} {request : NextRequest} {budget : Nat}
  {isV1 : Bool} {i : Instance} {rest : List Instance} {oid : Oid}

theorem NextRequest.decode_name (request : NextRequest) :
    decodeBerBody request.var.oid = some request.oid.arcs := fromBerBody_iff.mp request.named

theorem NextRequest.answered_name (request : NextRequest) (hagent : agent.WellServed) :
    agent.answersV1 true request.var =
      some ((agent.after request.oid.arcs true).head?.map (·.varbind)) := by
  rw [SnmpAgent.answersV1, request.decode_name, Option.map_some, SnmpAgent.answerV1, if_pos rfl,
    ahead_eq hagent]

/-- What fits the budget after the start of the list. -/
theorem fits_start {reply : Reply} {out : Octets} {n : Nat} :
    BindList.fits ⟨out.length, reply⟩ out n = decide (reply.envelope.len reply.id 0 0 n ≤ reply.budget) := by
  rw [BindList.fits, Nat.sub_self, Nat.zero_add]

/-- The varbinds of a request are answered with `body`, and come to `written`. -/
def Writes (agent : SnmpAgent) (envelope : Envelope) (request : NextRequest) (budget : Nat) (body : Octets)
    (written : Written) : Prop :=
  ∀ out : Octets, (Pdu.getNext request.id request.vars).varbinds agent
    ⟨out.length, ⟨envelope, request.id, budget⟩⟩ envelope.isV1 out = (out ++ body, .ok written)

/-- The answer to a request whose varbinds are complete. -/
theorem answerPdu_complete (crypto : Crypto) (salts : SaltCounter) {body : Octets}
    (h : Writes agent envelope request budget body .complete) :
    (answerPdu crypto agent salts (.getNext request.id request.vars) envelope budget).response =
      some (envelope.message crypto salts request.id 0 0 body) := by
  have hwrite := envelope.write_eq crypto salts request.id 0 0 h
  unfold answerPdu Answered.response
  simp only [Pdu.parts, Pdu.status, hwrite, if_true]

/-- The varbinds of an answer with an instance. -/
theorem writes_found (hagent : agent.WellServed)
    (hafter : agent.after request.oid.arcs envelope.isV1 = i :: rest)
    (hfits : envelope.len request.id 0 0 i.varbind.length ≤ budget) :
    Writes agent envelope request budget i.varbind .complete := by
  intro out
  have hroom : BindList.fits ⟨out.length, ⟨envelope, request.id, budget⟩⟩ out i.varbind.length = true := by
    rw [fits_start]
    exact decide_eq_true hfits
  unfold Pdu.varbinds
  dsimp only
  rw [request.single]
  cases hv : envelope.isV1 with
  | true =>
    rw [hv] at hafter
    simp [getNextV1_eq, request.answered_name, hagent, hafter, hroom, scanV1]
  | false =>
    rw [hv] at hafter
    simp only [Snmp.getNext, nextEach, request.decode_name, next_eq, ahead_eq hagent, hafter, hroom, if_true,
      reduceCtorEq, Bool.false_eq_true, if_false]

/-- The varbinds of an answer with `endOfMibView`. -/
theorem writes_ended (hagent : agent.WellServed) (hv : envelope.isV1 = false)
    (hafter : agent.after request.oid.arcs false = [])
    (hfits : envelope.len request.id 0 0 (exceptionLen request.var.oid.length) ≤ budget) :
    Writes agent envelope request budget (bindOf request.var.oid .endOfMibView []) .complete := by
  intro out
  have hroom : BindList.fits ⟨out.length, ⟨envelope, request.id, budget⟩⟩ out
      (bindOf request.var.oid .endOfMibView []).length = true := by
    rw [fits_start, length_exception]
    exact decide_eq_true hfits
  have hname : (Name.request request.var.oid).Is out request.var.oid := rfl
  unfold Pdu.varbinds
  dsimp only
  rw [request.single, hv, if_neg Bool.false_ne_true]
  simp only [Snmp.getNext, nextEach, request.decode_name, next_eq, ahead_eq hagent, hafter,
    endOfMibView_eq hname, hroom, if_true, reduceCtorEq, if_false]

/-- The varbinds of a refusal under SNMPv1. -/
theorem writes_refused (hagent : agent.WellServed) (hv : envelope.isV1 = true)
    (hafter : agent.after request.oid.arcs true = []) :
    Writes agent envelope request budget [] (.noSuchName 1) := by
  intro out
  unfold Pdu.varbinds
  dsimp only
  rw [request.single, hv, if_pos rfl]
  simp [getNextV1_eq, request.answered_name, hagent, hafter, scanV1]

theorem answerPdu_refused (crypto : Crypto) (salts : SaltCounter) (hv : envelope.isV1 = true)
    (h : Writes agent envelope request budget [] (.noSuchName 1))
    (hfits : envelope.len request.id noSuchNameStatus 1 request.vars.body.length ≤ budget) :
    (answerPdu crypto agent salts (.getNext request.id request.vars) envelope budget).response =
      some (envelope.message crypto salts request.id noSuchNameStatus 1 request.vars.body) := by
  have hwrite := envelope.write_eq crypto salts request.id 0 0 h
  -- an SNMPv1 envelope uses no salt
  have hsalts : envelope.saltsAfter crypto salts request.id 0 0 [] = salts := by
    cases envelope with
    | community version name => rfl
    | v3 => exact nomatch hv
  have herror := errorResponse_sent crypto ⟨envelope, request.id, budget⟩ salts hfits
  unfold answerPdu Answered.response
  simp only [Pdu.parts, Pdu.status, hwrite, hsalts, noSuchName, Nat.cast_one, herror, if_true]

/-! ## The walk -/

theorem answers_found (hagent : agent.WellServed)
    (hmax : agent.settings.maxMessageSize < 4294967296)
    (hafter : agent.after oid.arcs isV1 = i :: rest) :
    Answers agent isV1 oid (.found i.oid i.varbind) := by
  intro crypto salts envelope request budget hoid hv hbudget hroom
  subst hoid hv
  have hi : i ∈ agent.instances := by
    refine mem_of_mem_filter (p := fun j => decide (request.oid.arcs < j.arcs) &&
      !j.skipped envelope.isV1) ?_
    show i ∈ agent.after request.oid.arcs envelope.isV1
    rw [hafter]
    exact mem_cons_self
  have hfits := hroom.instances (mem_instances.mp ⟨i, hi, rfl, rfl⟩)
  have hsent := answerPdu_complete crypto salts (writes_found hagent hafter hfits)
  obtain ⟨value, hvalue, -, -⟩ := hagent.stored i hi
  have hlen := ((envelope.le_len request.id 0 0 i.varbind.length).trans (hfits.trans hbudget)).trans_lt hmax
  rw [hvalue] at hlen
  have hlist : VarBind.list i.varbind = .ok [⟨oidBody i.oid, value.tag.byte, value.octets⟩] := by
    rw [hvalue]
    exact list_bindOf (.of_length hlen)
  exact .found hsent hlist (fromBerBody_oidBody i.oid) (Tag.isValue_ne_endOfMibView value.isValue)

theorem answers_ended (hagent : agent.WellServed) (hafter : agent.after oid.arcs isV1 = []) :
    Answers agent isV1 oid (endAnswer isV1 oid) := by
  intro crypto salts envelope request budget hoid hv hbudget hroom
  subst hoid hv
  cases hv : envelope.isV1 with
  | true =>
    rw [hv] at hafter
    exact .noSuchName (answerPdu_refused crypto salts hv (writes_refused hagent hv hafter) hroom.refusal)
  | false =>
    rw [hv] at hafter
    have hsent := answerPdu_complete crypto salts (writes_ended hagent hv hafter hroom.ending)
    have hvar : request.var ∈ request.vars.vars := by
      rw [request.single]
      exact mem_singleton_self _
    exact .endOfMibView hsent (list_bindOf (request.vars.readable hvar .endOfMibView)) request.named rfl

end answer

theorem walk_after (hagent : agent.WellServed) (hmax : agent.settings.maxMessageSize < 4294967296)
    {isV1 : Bool} {l : List Instance} :
    ∀ {oid : Oid}, agent.after oid.arcs isV1 = l →
      Walk agent isV1 oid (l.map fun i => (i.oid, i.varbind)) := by
  induction l with
  | nil => exact fun hafter => .ended (answers_ended hagent hafter)
  | cons i rest ih =>
    exact fun hafter => .found (answers_found hagent hmax hafter) (ih (after_cons hagent hafter))

/-- What `bulk` skips under SNMPv1 is what holds a `Counter64`. -/
theorem kept_iff (hagent : agent.WellServed) {i : Instance} (hi : i ∈ agent.instances) (isV1 : Bool) :
    (!i.skipped isV1) = true ↔ (isV1 = true → ¬ HoldsCounter64 i.oid i.varbind) := by
  obtain ⟨value, hvalue, hsystem, hpublished⟩ := hagent.stored i hi
  have hholds : HoldsCounter64 i.oid i.varbind ↔ value.tag = .counter64 := by
    rw [hvalue]
    constructor
    · rintro ⟨octets, heq⟩
      exact bindOf_tag heq
    · intro htag
      exact ⟨value.octets, by rw [instanceVarbind, htag]⟩
  rw [hholds, Instance.skipped]
  cases hf : i.fromSystem with
  | true => simp [hsystem hf]
  | false =>
    rw [hvalue, instanceVarbind, isCounter64_bindOf (hpublished hf)]
    cases isV1 <;> simp

/-- The instances a walk comes to. -/
theorem mem_after (hagent : agent.WellServed) (isV1 : Bool) (start oid : Oid) (varbind : Octets) :
    (oid, varbind) ∈ (agent.after start.arcs isV1).map (fun i => (i.oid, i.varbind)) ↔
      agent.Serves oid varbind ∧ start < oid ∧ (isV1 = true → ¬ HoldsCounter64 oid varbind) := by
  constructor
  · intro h
    obtain ⟨i, hi, heq⟩ := mem_map.mp h
    obtain ⟨rfl, rfl⟩ := Prod.mk.inj heq
    obtain ⟨hmem, hkept⟩ := mem_filter.mp hi
    obtain ⟨hlt, hkept⟩ := Bool.and_eq_true_iff.mp hkept
    have hlt : start.arcs < i.arcs := of_decide_eq_true hlt
    exact ⟨mem_instances.mp ⟨i, hmem, rfl, rfl⟩, hlt, (kept_iff hagent hmem isV1).mp hkept⟩
  · rintro ⟨hserves, hlt, hkept⟩
    obtain ⟨i, hmem, rfl, rfl⟩ := mem_instances.mpr hserves
    refine mem_map.mpr ⟨i, mem_filter.mpr ⟨hmem, ?_⟩, rfl⟩
    exact Bool.and_eq_true_iff.mpr ⟨decide_eq_true (show start.arcs < i.arcs from hlt),
      (kept_iff hagent hmem isV1).mpr hkept⟩

/-- A walk comes to the instances after its start that its version can carry,
each once, in the order of their OIDs, and ends. -/
theorem getNext_walk {std : StdText} {config : SnmpAgentConfig} {settings : AgentSettings}
    (hset : config.settings std = .ok settings) {table : MibTable} (htable : Reachable settings table)
    (crypto : Crypto) (bound : Bound) (uptimeMillis : Nat) (counters : Counter → Nat) (isV1 : Bool)
    (start : Oid) :
    let agent := SnmpAgent.bind crypto settings bound table uptimeMillis counters
    ∃ visited, Walk agent isV1 start visited ∧ (visited.map Prod.fst).Pairwise (· < ·) ∧
      ∀ oid varbind, (oid, varbind) ∈ visited ↔ agent.Serves oid varbind ∧ start < oid ∧
        (isV1 = true → ¬ HoldsCounter64 oid varbind) := by
  have hagent := wellServed_bind htable crypto bound uptimeMillis counters
  have hmax : settings.maxMessageSize < 4294967296 :=
    (settings_ok hset).maxSize.trans_lt (by decide)
  refine ⟨_, walk_after hagent hmax rfl, ?_, fun oid varbind => mem_after hagent isV1 start oid varbind⟩
  rw [map_map]
  exact pairwise_map.mpr (hagent.ordered.filter _)

/-- A walk under SNMPv1 of a table with one published Counter64 comes to the
system group only. -/
theorem getNext_walk_counter64 :
    publicConfig.settings loopback = .ok publicSettings ∧ ∃ table, Reachable publicSettings table ∧
      table.slots.toList.map (fun p => p.1.arcs) = [[1, 3, 6, 1, 9, 0]] ∧
      let agent := SnmpAgent.bind identityCrypto publicSettings ⟨[], [], ⟨0, 0⟩⟩ table 0 fun _ => 0
      ∃ visited, Walk agent true ⟨[0, 0], by decide⟩ visited ∧
        ∀ oid varbind, (oid, varbind) ∈ visited ↔ agent.Serves oid varbind ∧
          ⟨[0, 0], by decide⟩ < oid ∧ (true = true → ¬ HoldsCounter64 oid varbind) := by
  obtain ⟨table, htable, hslots⟩ := reachable_counter
  obtain ⟨visited, hwalk, -, hmem⟩ := getNext_walk publicConfig_settings htable identityCrypto
    ⟨[], [], ⟨0, 0⟩⟩ 0 (fun _ => 0) true ⟨[0, 0], by decide⟩
  exact ⟨publicConfig_settings, table, htable, hslots, visited, hwalk, hmem⟩

end Sonda.Snmp
