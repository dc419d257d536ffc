import Sonda.Proof.Snmp.Answers

/-!
# Answers of SNMPv1

The whole list of names is looked up before a response is chosen: `noSuchName` at the first name
without an answer, else the answers, and `tooBig` for what does not fit (`answerPdu_v1_iff`). A
request for no name at all is answered without a look at the budget.
-/

namespace Sonda.Snmp

open Sonda.Framework List

/-- The first response that fits, of error-status, error-index and varbind list body. -/
def firstFitting (crypto : Crypto) (salts : SaltCounter) (reply : Reply) :
    List (Int × Int × Octets) → Option Octets
  | [] => none
  | (status, index, body) :: rest =>
    if reply.envelope.len reply.id status index body.length ≤ reply.budget then
      some (reply.envelope.message crypto salts reply.id status index body)
    else firstFitting crypto salts reply rest

/-- The responses in the order of precedence, by the answers to the names from `index` on: a name
that has none is reported with the varbinds `body` of the request, and `found` are the answers
before. -/
def responsesV1 (body : Octets) (index : Nat) (found : Octets) :
    List (Option Octets) → List (Int × Int × Octets)
  | [] => [(0, 0, found), (tooBigStatus, 0, body)]
  | none :: _ => [(noSuchNameStatus, (index + 1 : Nat), body), (tooBigStatus, 0, body)]
  | some varbind :: answers => responsesV1 body (index + 1) (found ++ varbind) answers

/-- A GetRequest or a GetNextRequest. -/
def requestV1 (next : Bool) (id : Int) (vars : VarList) : Pdu :=
  if next then .getNext id vars else .get id vars

def replyV1 (community : Octets) (id : Int) (budget : Nat) : Reply :=
  ⟨.community v1Field community, id, budget⟩

section v1

variable (crypto : Crypto) (salts : SaltCounter) (vars : VarList) {reply : Reply}
  (hv : reply.envelope.isV1 = true)

include hv

theorem tooBig_response : (tooBig crypto reply salts vars).response =
    firstFitting crypto salts reply [(tooBigStatus, 0, vars.body)] := by
  rw [tooBig, if_pos hv, errorResponse, firstFitting]
  split
  · rw [if_neg (by omega)]
    rfl
  · rw [if_pos (by omega)]
    rfl

theorem noSuchName_response (index : Nat) :
    (noSuchName crypto reply salts vars index).response = firstFitting crypto salts reply
      [(noSuchNameStatus, index, vars.body), (tooBigStatus, 0, vars.body)] := by
  rw [firstFitting, ← tooBig_response crypto salts vars hv]
  by_cases h : reply.envelope.len reply.id noSuchNameStatus index vars.body.length ≤ reply.budget
  · simp [noSuchName, errorResponse_sent crypto reply salts h, Answered.response, h]
  · simp [noSuchName, errorResponse, h, Nat.not_le.mp h]

/-- The loop stops to append once the answers found do not fit, and goes on to look names up. -/
theorem scanV1_response {counter : Counter} {index : Nat} {full : Bool} {start out found body : Octets}
    {answers : List (Option Octets)} (hout : full = false → out = start ++ found ∧
      (answers = [] → reply.envelope.len reply.id 0 0 found.length ≤ reply.budget))
    (hfull : full = true → reply.budget < reply.envelope.len reply.id 0 0 found.length)
    (hbody : (scanV1 ⟨start.length, reply⟩ index full (answers.map some) out).1 = start ++ body) :
    (answered crypto reply salts counter vars (0, 0) body
      (scanV1 ⟨start.length, reply⟩ index full (answers.map some) out).2).response =
        firstFitting crypto salts reply (responsesV1 vars.body index found answers) := by
  have hsalts : reply.envelope.saltsAfter crypto salts reply.id 0 0 body = salts := by
    obtain ⟨_ | _, _, _⟩ := reply
    · rfl
    · cases hv
  induction answers generalizing index full out found with
  | nil =>
    cases full with
    | false =>
      obtain ⟨rfl, hlen⟩ := hout rfl
      obtain rfl := append_cancel_left hbody
      exact (if_pos (hlen rfl)).symm
    | true =>
      rw [responsesV1, firstFitting, if_neg (Nat.not_le.mpr (hfull rfl)),
        ← tooBig_response crypto salts vars hv]
      exact congrArg (fun s => (tooBig crypto reply s vars).response) hsalts
  | cons answer answers ih =>
    cases answer with
    | none =>
      rw [responsesV1, ← noSuchName_response crypto salts vars hv]
      exact congrArg (fun s => (noSuchName crypto reply s vars (index + 1)).response) hsalts
    | some varbind =>
      have hmono := reply.envelope.len_mono reply.id 0 0
        (show found.length ≤ (found ++ varbind).length by rw [length_append]; omega)
      rw [map_cons, scanV1] at hbody ⊢
      cases full with
      | true => exact ih (by simp) (fun _ => (hfull rfl).trans_le hmono) hbody
      | false =>
        obtain ⟨rfl, -⟩ := hout rfl
        rw [Bool.not_false, Bool.true_and, BindList.fits, length_append, Nat.add_sub_cancel_left,
          ← length_append] at hbody ⊢
        split at hbody
        · rename_i hput
          rw [if_pos hput]
          exact ih (fun _ => ⟨append_assoc .., fun _ => of_decide_eq_true hput⟩) (by simp) hbody
        · rename_i hput
          rw [if_neg hput]
          exact ih (by simp) (fun _ => Nat.not_le.mp fun h => hput (decide_eq_true h)) hbody

end v1

/-- The response is the first that fits by the order of precedence, unless no name is asked for
and the budget does not hold the envelope. -/
theorem answerPdu_v1_iff (crypto : Crypto) (agent : SnmpAgent) (salts : SaltCounter) (id : Int)
    (vars : VarList) (community : Octets) (budget : Nat) (next : Bool) :
    let reply := replyV1 community id budget
    (∀ answers : List (Option Octets), vars.vars.map (agent.answersV1 next) = answers.map some →
      (answerPdu crypto agent salts (requestV1 next id vars) reply.envelope budget).response =
        firstFitting crypto salts reply (responsesV1 vars.body 0 [] answers)) ↔
      (vars.vars = [] → reply.envelope.len id 0 0 0 ≤ budget) := by
  intro reply
  obtain ⟨counter, hparts⟩ : ∃ counter, (requestV1 next id vars).parts = some (counter, id, vars) := by
    cases next <;> exact ⟨_, rfl⟩
  have hstatus : (requestV1 next id vars).status true = (0, 0) := by cases next <;> rfl
  obtain ⟨out, body, hbody, -, hanswer⟩ := answerPdu_eq crypto reply salts agent hparts
  have hscan : (requestV1 next id vars).varbinds agent ⟨out.length, reply⟩ true out =
      scanV1 ⟨out.length, reply⟩ 0 false (vars.vars.map (agent.answersV1 next)) out := by
    cases next
    · exact getV1_eq ..
    · exact getNextV1_eq ..
  rw [show reply.envelope.isV1 = true from rfl, hscan] at hbody hanswer
  rw [hstatus] at hanswer
  rw [show answerPdu crypto agent salts _ reply.envelope budget = _ from hanswer]
  constructor
  · intro h hnil
    have hlong := h [] (by rw [hnil]; rfl)
    by_contra hbudget
    have htooBig : budget < reply.envelope.len id tooBigStatus 0 vars.body.length :=
      (Nat.not_le.mp hbudget).trans_le
        (reply.envelope.len_le id (i64Len_zero_le _) (Nat.le_refl _) (Nat.zero_le _))
    rw [hnil] at hlong
    exact Option.some_ne_none _ (hlong.trans ((if_neg hbudget).trans (if_neg (Nat.not_le.mpr htooBig))))
  · intro hbudget answers hanswers
    rw [hanswers] at hbody ⊢
    refine scanV1_response crypto salts vars rfl (fun _ => ⟨(append_nil _).symm, ?_⟩) nofun hbody
    rintro rfl
    exact hbudget (map_eq_nil_iff.mp hanswers)

/-- A GetRequest for no name, to an agent whose community alone is longer than its messages. -/
theorem empty_request_sent :
    let settings := { publicSettings with community := replicate 500 0x70, maxMessageSize := 484 }
    let agent := SnmpAgent.bind identityCrypto settings ⟨[], [], ⟨0, 0⟩⟩ (bindTable settings) 0 fun _ => 0
    let reply := replyV1 settings.community 1 484
    (answerPdu identityCrypto agent ⟨0, 0⟩ (requestV1 false 1 ⟨[], [], rfl⟩) reply.envelope 484).response ≠
      firstFitting identityCrypto ⟨0, 0⟩ reply (responsesV1 [] 0 [] []) := by decide +kernel

end Sonda.Snmp
