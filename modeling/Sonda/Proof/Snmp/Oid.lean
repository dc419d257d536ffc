import Sonda.Impl.Snmp.Oid
import Sonda.Proof.Snmp.Ber

/-!
# The BER form of an OID

`fromBerBody_oidBody`: the content octets of an OID decode to it. A
subidentifier is read back septet by septet (`decodeOctets_septets`), its first
octet never the padding the decoder refuses.
-/

namespace Sonda.Snmp

open Framework List

variable (value : Nat) (out : Octets) (arcs : List Nat) (oid : Oid)

/-! ## Subidentifiers -/

theorem septet_more : ∀ d < 128, ((UInt8.ofNat d ||| 0x80) &&& 0x7F).toNat = d ∧
    (UInt8.ofNat d ||| 0x80) &&& 0x80 ≠ 0 ∧ (UInt8.ofNat d ||| 0x80 = 0x80 → d = 0) := by
  decide

theorem septet_last : ∀ d < 128, (UInt8.ofNat d &&& 0x7F).toNat = d ∧ UInt8.ofNat d &&& 0x80 = 0 ∧
    UInt8.ofNat d ≠ 0x80 := by
  decide

@[simp]
theorem length_septets : ∀ ds : List Nat, (septets ds).length = ds.length
  | [] => rfl
  | [_] => rfl
  | d :: e :: ds => by
    rw [septets, length_cons, length_septets (e :: ds)]
    · rfl
    · simp

/-- The arc or arcs a whole subidentifier stands for, and the octets after it. -/
def decodeArc (first : Bool) (value : Nat) (arcs : List Nat) (rest : Octets) : Option (List Nat) :=
  if first then
    if (unfoldFirst value).2 < arcBound then
      decodeOctets false false 0 (arcs ++ [(unfoldFirst value).1, (unfoldFirst value).2]) rest
    else none
  else if value < arcBound then decodeOctets false false 0 (arcs ++ [value]) rest
  else none

theorem le_foldl_pushDigit (ds : List Nat) : value ≤ ds.foldl (pushDigit 128) value := by
  rw [foldl_pushDigit]
  have : value * 1 ≤ value * 128 ^ ds.length := Nat.mul_le_mul_left _ (Nat.pow_pos (by decide))
  omega

theorem decodeOctets_septets {first : Bool} {arcs : List Nat} {rest : Octets} :
    ∀ {ds : List Nat} {started : Bool} {value : Nat}, ds ≠ [] → (∀ d ∈ ds, d < 128) →
      (started = false → 1 < ds.length → ds.headD 0 ≠ 0) →
      ds.foldl (pushDigit 128) value ≤ arcBound - 1 + 80 →
      decodeOctets first started value arcs (septets ds ++ rest) =
        decodeArc first (ds.foldl (pushDigit 128) value) arcs rest
  | [], _, _, h, _, _, _ => absurd rfl h
  | [d], started, value, _, hd, _, hv => by
    obtain ⟨h7f, h80, hne⟩ := septet_last d (hd d mem_cons_self)
    have hv : value * 128 + d ≤ arcBound - 1 + 80 := hv
    rw [septets, singleton_append, decodeOctets]
    simp only [beq_eq_false_iff_ne.mpr hne, Bool.and_false, Bool.false_eq_true, if_false, h7f, h80,
      bne_self_eq_false]
    rw [if_neg (Nat.not_lt.mpr hv)]
    rfl
  | d :: e :: ds, started, value, _, hd, hfirst, hv => by
    obtain ⟨h7f, h80, hz⟩ := septet_more d (hd d mem_cons_self)
    have hle : value * 128 + d ≤ arcBound - 1 + 80 :=
      (le_foldl_pushDigit (pushDigit 128 value d) (e :: ds)).trans hv
    have hpad : (!started && (UInt8.ofNat d ||| 0x80) == 0x80) = false := by
      cases started with
      | true => rfl
      | false =>
        have hne : UInt8.ofNat d ||| 0x80 ≠ 0x80 := fun e => hfirst rfl (by simp) (hz e)
        simpa using hne
    rw [septets, cons_append, decodeOctets]
    · simp only [hpad, Bool.false_eq_true, if_false, h7f]
      rw [if_neg (Nat.not_lt.mpr hle), if_pos (by simpa using h80)]
      exact decodeOctets_septets (cons_ne_nil e ds) (fun x hx => hd x (mem_cons_of_mem _ hx))
        nofun hv
    · simp

theorem subidentifierLen_pos : 0 < subidentifierLen value := by
  unfold subidentifierLen
  omega

theorem lt_pow_subidentifierLen : value < 128 ^ subidentifierLen value := by
  have h : value < 128 ^ digitCount 7 value := lt_pow_digitCount (b := 7) (by decide) value
  refine h.trans_le (Nat.pow_le_pow_right (by decide) ?_)
  unfold subidentifierLen
  omega

/-- The first digit of a subidentifier of more than one is not zero. -/
theorem headD_subidentifier {value : Nat} (h : 1 < subidentifierLen value) :
    (beDigits 128 (subidentifierLen value) value).headD 0 ≠ 0 := by
  have hcount : subidentifierLen value = digitCount 7 value := by
    unfold subidentifierLen at h ⊢
    omega
  have hpos : 0 < value := by
    rcases Nat.eq_zero_or_pos value with rfl | hpos
    · exact absurd h (by decide)
    · exact hpos
  have hle : 128 ^ (subidentifierLen value - 1) ≤ value := by
    rw [hcount]
    exact pow_digitCount_le (b := 7) (by decide) hpos
  have hlt := lt_pow_subidentifierLen value
  obtain ⟨k, hk⟩ : ∃ k, subidentifierLen value = k + 1 := ⟨subidentifierLen value - 1, by omega⟩
  rw [hk] at hle hlt ⊢
  rw [beDigits, headD_cons]
  have hdiv : 0 < value / 128 ^ k := Nat.div_pos hle (Nat.pow_pos (by decide))
  have hdlt : value / 128 ^ k < 128 := by
    rw [Nat.div_lt_iff_lt_mul (Nat.pow_pos (by decide)), Nat.mul_comm]
    rwa [Nat.pow_succ] at hlt
  omega

/-- A subidentifier is read back. -/
theorem decodeOctets_subidentifier {first : Bool} {value : Nat} {arcs : List Nat} {rest : Octets}
    (h : value ≤ arcBound - 1 + 80) :
    decodeOctets first false 0 arcs (septets (beDigits 128 (subidentifierLen value) value) ++ rest) =
      decodeArc first value arcs rest := by
  have hfold : (beDigits 128 (subidentifierLen value) value).foldl (pushDigit 128) 0 = value :=
    ofBe_beDigits (lt_pow_subidentifierLen value)
  rw [decodeOctets_septets, hfold]
  · intro hnil
    have hlen := congrArg length hnil
    rw [length_beDigits] at hlen
    exact absurd hlen (subidentifierLen_pos value).ne'
  · exact fun d hd => lt_of_mem_beDigits (by decide) hd
  · intro _ hlen
    rw [length_beDigits] at hlen
    exact headD_subidentifier hlen
  · rwa [hfold]

/-! ## Bodies -/

/-- The content octets of an OID. -/
def oidBody (oid : Oid) : Octets := writeBerBody oid.arcs []

/-- The octets of the arcs after the second. -/
def arcOctets (arcs : List Nat) : Octets :=
  arcs.flatMap fun arc => septets (beDigits 128 (subidentifierLen arc) arc)

theorem foldl_writeSubidentifier :
    arcs.foldl (fun out arc => writeSubidentifier arc out) out = out ++ arcOctets arcs := by
  induction arcs generalizing out with
  | nil => simp [arcOctets]
  | cons arc arcs ih =>
    rw [foldl_cons, ih, writeSubidentifier, append_assoc]
    rfl

theorem writeBerBody_eq (out : Octets) : writeBerBody arcs out = out ++ writeBerBody arcs [] := by
  rw [writeBerBody, writeBerBody, foldl_writeSubidentifier, foldl_writeSubidentifier,
    writeSubidentifier, writeSubidentifier, nil_append, append_assoc]

theorem length_writeBerBody : (writeBerBody arcs []).length = berBodyLen arcs := by
  rw [writeBerBody, foldl_writeSubidentifier, writeSubidentifier, nil_append, length_append,
    length_septets, length_beDigits, arcOctets, length_flatMap, berBodyLen]
  simp only [length_septets, length_beDigits]

theorem decodeOctets_arcOctets {arcs tail : List Nat} (h : ∀ arc ∈ tail, arc < arcBound) :
    decodeOctets false false 0 arcs (arcOctets tail) = some (arcs ++ tail) := by
  induction tail generalizing arcs with
  | nil => simp [arcOctets, decodeOctets]
  | cons arc tail ih =>
    have harc := h arc mem_cons_self
    have hrest : ∀ x ∈ tail, x < arcBound := fun x hx => h x (mem_cons_of_mem _ hx)
    have hle : arc ≤ arcBound - 1 + 80 := by omega
    have hcons : arcOctets (arc :: tail) =
        septets (beDigits 128 (subidentifierLen arc) arc) ++ arcOctets tail := rfl
    rw [hcons, decodeOctets_subidentifier hle, decodeArc, if_neg (by decide), if_pos harc, ih hrest,
      append_assoc]
    rfl

/-- The first subidentifier unfolds to the first two arcs. -/
theorem unfoldFirst_firstSubidentifier {arcs : List Nat} (h : ValidArcs arcs) :
    unfoldFirst (firstSubidentifier arcs) = (arcs.headD 0, arcs.getD 1 0) ∧
      firstSubidentifier arcs ≤ arcBound - 1 + 80 := by
  obtain ⟨hlen, hu, hfirst⟩ := h
  have hsecond : arcs.getD 1 0 < arcBound := by
    have h1 : 1 < arcs.length := by omega
    rw [getD_eq_getElem?_getD, getElem?_eq_getElem h1]
    exact hu _ (getElem_mem h1)
  unfold firstSubidentifier unfoldFirst
  rcases hfirst with ⟨h0, h1⟩ | ⟨h0, h1⟩ | h0
  · rw [h0]
    refine ⟨?_, by omega⟩
    rw [if_pos (by omega)]
    simp
  · rw [h0]
    refine ⟨?_, by omega⟩
    rw [if_neg (by omega), if_pos (by omega)]
    simp
  · rw [h0]
    refine ⟨?_, by omega⟩
    rw [if_neg (by omega), if_neg (by omega)]
    simp

theorem decodeBerBody_writeBerBody {arcs : List Nat} (h : ValidArcs arcs) :
    decodeBerBody (writeBerBody arcs []) = some arcs := by
  obtain ⟨hunfold, hle⟩ := unfoldFirst_firstSubidentifier h
  have hbody : writeBerBody arcs [] =
      septets (beDigits 128 (subidentifierLen (firstSubidentifier arcs)) (firstSubidentifier arcs)) ++
        arcOctets (arcs.drop 2) := by
    rw [writeBerBody, foldl_writeSubidentifier]
    rfl
  have hne : (writeBerBody arcs []).isEmpty = false := by
    have hpos : 0 < (writeBerBody arcs []).length := by
      rw [length_writeBerBody, berBodyLen]
      have := subidentifierLen_pos (firstSubidentifier arcs)
      omega
    exact isEmpty_eq_false_iff.mpr (ne_nil_of_length_pos hpos)
  rw [decodeBerBody, hne, if_neg (by decide), hbody, decodeOctets_subidentifier hle, decodeArc, hunfold]
  match arcs, h with
  | a :: b :: tail, ⟨_, hu, _⟩ =>
    have hb : b < arcBound := hu b (by simp)
    have htail : ∀ arc ∈ tail, arc < arcBound := fun x hx => hu x (by simp [hx])
    simp only [headD_cons, getD_cons_succ, getD_cons_zero, if_pos, hb, nil_append]
    exact decodeOctets_arcOctets htail

theorem decodeBerBody_oidBody : decodeBerBody (oidBody oid) = some oid.arcs :=
  decodeBerBody_writeBerBody oid.valid

theorem fromBerBody_iff {body : Octets} {oid : Oid} :
    Oid.fromBerBody body = some oid ↔ decodeBerBody body = some oid.arcs := by
  unfold Oid.fromBerBody
  split
  · rename_i arcs h
    refine ⟨fun e => Option.some.inj e ▸ h, fun e => ?_⟩
    exact congrArg some (Oid.arcs_injective (Option.some.inj (h.symm.trans e)))
  · rename_i h
    exact ⟨nofun, fun e => nomatch h.symm.trans e⟩

theorem fromBerBody_oidBody : Oid.fromBerBody (oidBody oid) = some oid :=
  fromBerBody_iff.mpr (decodeBerBody_oidBody oid)

/-! ## TLVs of OIDs -/

theorem length_oidBody : (oidBody oid).length = berBodyLen oid.arcs :=
  length_writeBerBody oid.arcs

theorem writeOid_eq : writeOid out oid = out ++ tlv .oid (oidBody oid) := by
  rw [writeOid, writeBerBody_eq, writeHeader_eq, append_assoc, tlv, length_oidBody]
  rfl

theorem writeVarbind_eq (value : Octets) :
    writeVarbind out oid value = out ++ tlv .sequence (tlv .oid (oidBody oid) ++ value) := by
  have hlen : (tlv .oid (oidBody oid) ++ value).length = tlvLen (berBodyLen oid.arcs) + value.length := by
    rw [length_append, length_tlv, length_oidBody]
  show writeOid (writeHeader out .sequence _) oid ++ value =
    out ++ (Tag.sequence.byte :: lengthOctets (tlv .oid (oidBody oid) ++ value).length ++ _)
  rw [writeOid_eq, writeHeader_eq, hlen]
  simp

end Sonda.Snmp
