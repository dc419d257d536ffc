import Sonda.Proof.Snmp.Served

/-!
# One successor

What `next` and `endOfMibView` append (`next_eq`, `endOfMibView_eq`): the
`VarBind` of the first instance after a name, or an exception under the name,
which is itself a `VarBind` that reads (`VarList.readable`). Under SNMPv1 the
two kinds of request run one loop (`scanV1`).
-/

namespace Sonda.Snmp

open Framework

/-! ## The names of a request -/

/-- An exception under a name that was read. -/
theorem readable_of_body {ls lv oid value : Octets} {valueTag : UInt8} {tag : Tag}
    (hls : IsLength ls oid.length) (hlv : IsLength lv value.length)
    (hbody : (Tag.oid.byte :: ls ++ oid ++ (valueTag :: lv ++ value)).length < 4294967296) :
    Readable oid tag [] := by
  have h₁ := hls.lengthLen_le
  have h₂ := hlv.lengthLen_le
  have hpos : 1 ≤ lengthLen value.length := by
    rw [lengthLen]
    split <;> omega
  simp only [List.length_append, List.length_cons] at hbody
  have hend : tlvLen ([] : Octets).length = 2 := rfl
  rw [Readable, List.length_append, length_tlv, length_tlv, hend, tlvLen]
  omega

theorem readOne_ok {r r' : Reader} {var : VarBind} (h : VarBind.readOne r = .ok (var, r')) (tag : Tag) :
    Readable var.oid tag [] := by
  obtain ⟨⟨body, r₁⟩, hb, h⟩ := bind_ok h
  obtain ⟨⟨oid, fields⟩, ho, h⟩ := bind_ok h
  obtain ⟨⟨⟨valueTag, value⟩, fields'⟩, hv, h⟩ := bind_ok h
  obtain ⟨hempty, h⟩ := check_ok h
  obtain ⟨rfl, -⟩ := Prod.mk.inj (Except.ok.inj h)
  obtain ⟨lb, hlb, -, -, -⟩ := Reader.expect_ok hb
  obtain ⟨ls, hls, hbody, -, -⟩ := Reader.expect_ok ho
  obtain ⟨-, lv, hlv, hvalue, -, -⟩ := Reader.rawTlv_ok hv
  have hend : fields'.octets = [] := by simpa [Reader.isEmpty] using hempty
  rw [hend, List.append_nil] at hvalue
  have hlen := hlb.lt
  rw [hbody, hvalue] at hlen
  exact readable_of_body hls hlv hlen

theorem readAll_ok {fuel : Nat} : ∀ {r : Reader} {vars : List VarBind},
    VarBind.readAll fuel r = .ok vars → ∀ var ∈ vars, ∀ tag, Readable var.oid tag [] := by
  induction fuel with
  | zero =>
    intro r vars h
    cases h
    exact nofun
  | succ fuel ih =>
    intro r vars h
    unfold VarBind.readAll at h
    split at h
    · cases h
      exact nofun
    obtain ⟨⟨var, r₁⟩, hone, h⟩ := bind_ok h
    obtain ⟨rest, hall, h⟩ := bind_ok h
    cases h
    intro var' hvar tag
    rcases List.mem_cons.mp hvar with rfl | hvar
    · exact readOne_ok hone tag
    · exact ih hall var' hvar tag

/-- An exception under a request's name reads. -/
theorem VarList.readable (vars : VarList) {var : VarBind} (hvar : var ∈ vars.vars) (tag : Tag) :
    Readable var.oid tag [] :=
  readAll_ok vars.checked var hvar tag

/-! ## Exceptions -/

/-- `name` stands for the octets `octets`, in a response or in a request. -/
def Name.Is (name : Name) (out octets : Octets) : Prop :=
  match name with
  | .request body => body = octets
  | .response start stop => Holds out start stop octets

theorem Name.Is.len_eq {name : Name} {out octets : Octets} (h : name.Is out octets) :
    name.len = octets.length := by
  cases name with
  | request body => exact congrArg List.length h
  | response start stop => exact Holds.stop_sub h

theorem length_exception (name : Octets) (tag : Tag) :
    (bindOf name tag []).length = exceptionLen name.length := length_bindOf

theorem writeException_eq {name : Name} {out octets : Octets} (h : name.Is out octets) (tag : Tag) :
    writeException out name tag = out ++ bindOf octets tag [] := by
  have hbody : (tlv .oid octets ++ tlv tag []).length = tlvLen octets.length + 2 := by
    rw [List.length_append, length_tlv, length_tlv]
    rfl
  have hflat : bindOf octets tag [] = Tag.sequence.byte :: lengthOctets (tlvLen octets.length + 2) ++
      (Tag.oid.byte :: lengthOctets octets.length ++ octets ++ tlv tag []) := by
    rw [bindOf, tlv, hbody]
    rfl
  unfold writeException
  dsimp only
  rw [h.len_eq, writeHeader_eq, writeHeader_eq, writeOctets_eq, hflat]
  cases name with
  | request body =>
    rw [show body = octets from h]
    simp only [List.append_assoc]
  | response start stop =>
    dsimp only
    rw [((Holds.append h _).append _).sliceOf_eq]
    simp only [List.append_assoc]

section next

variable {agent : SnmpAgent} {list : BindList}

theorem endOfMibView_eq {name : Name} {out octets : Octets} (h : name.Is out octets) :
    endOfMibView list name out = if list.fits out (bindOf octets .endOfMibView []).length then
        (out ++ bindOf octets .endOfMibView [], .ended) else (out, .full) := by
  rw [endOfMibView, h.len_eq, length_exception, writeException_eq h]

/-! ## Successors -/

/-- The first instance after `arcs`, or `endOfMibView` under the name. -/
theorem next_eq (arcs : List Nat) (name : Name) (out : Octets) :
    next agent list arcs name out =
      match agent.ahead arcs false with
      | [] => endOfMibView list name out
      | i :: _ => if list.fits out i.varbind.length then (out ++ i.varbind, .found) else (out, .full) := by
  unfold next
  rw [bulk_eq]
  cases agent.ahead arcs false with
  | nil => rfl
  | cons i rest =>
    dsimp only [emitEach]
    by_cases hfits : list.fits out i.varbind.length = true
    · rw [if_pos hfits]
      rfl
    · rw [if_neg hfits]
      rfl

/-- What an SNMPv1 request for a name is answered with, if SNMPv1 can carry it: the value of the
name, or the first instance after it that is not a `Counter64`. -/
def SnmpAgent.answerV1 (agent : SnmpAgent) (next : Bool) (name : List Nat) : Option Octets :=
  if next then (agent.ahead name true).head?.map (·.varbind)
  else
    match agent.lookup name with
    | .value varbind => if isCounter64 varbind then none else some varbind
    | _ => none

/-- The answer to a varbind of a request, whose name may be no OID. -/
def SnmpAgent.answersV1 (agent : SnmpAgent) (next : Bool) (var : VarBind) : Option (Option Octets) :=
  (decodeBerBody var.oid).map (agent.answerV1 next)

/-- The loop of `getV1` and `getNextV1`, over the answers. -/
def scanV1 (list : BindList) : (index : Nat) → (full : Bool) → List (Option (Option Octets)) → Octets →
    Octets × Except BerError Written
  | _, full, [], out => (out, .ok (if full then .full else .complete))
  | _, _, none :: _, out => (out, .error .badOid)
  | index, _, some none :: _, out => (out, .ok (.noSuchName (index + 1)))
  | index, full, some (some varbind) :: answers, out =>
    if !full && list.fits out varbind.length then scanV1 list (index + 1) full answers (out ++ varbind)
    else scanV1 list (index + 1) true answers out

variable (index : Nat) (full : Bool) (vars : List VarBind) (out : Octets)

theorem getV1_eq : getV1 agent list index full vars out =
      scanV1 list index full (vars.map (agent.answersV1 false)) out := by
  induction vars generalizing index full out with
  | nil => rfl
  | cons var vars ih =>
    rw [List.map_cons, SnmpAgent.answersV1, getV1]
    cases decodeBerBody var.oid with
    | none => rfl
    | some name =>
      dsimp only [Option.map_some, SnmpAgent.answerV1]
      cases agent.lookup name with
      | value varbind => cases hc : isCounter64 varbind <;> simp [hc, scanV1, ih]
      | _ => rfl

theorem getNextV1_eq : getNextV1 agent list index full vars out =
      scanV1 list index full (vars.map (agent.answersV1 true)) out := by
  induction vars generalizing index full out with
  | nil => rfl
  | cons var vars ih =>
    rw [List.map_cons, SnmpAgent.answersV1, getNextV1]
    cases decodeBerBody var.oid with
    | none => rfl
    | some name =>
      dsimp only [Option.map_some, SnmpAgent.answerV1]
      rw [nextV1, bulk_eq]
      cases agent.ahead name true with
      | nil => rfl
      | cons i rest =>
        cases hput : !full && list.fits out i.varbind.length <;> simp [emitEach, scanV1, hput, ih]

end next

end Sonda.Snmp
