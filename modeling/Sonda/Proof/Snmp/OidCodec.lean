import Sonda.Proof.Snmp.Oid

/-!
# One encoding of every OID

What `decode_ber_body` accepts is what `write_ber_body` writes for the arcs it
returns. The loop reads a subidentifier's septets (`decodeOctets_some`), the
first of them not zero unless it is the only one; such septets are the digits
of their value (`septets_canonical`), so the octets read are the ones the
writer has for it (`arcOctets_of_decodeOctets`).

`machineOctets` is the loop over the `u64` of the source. Its accumulator is at
most `u32::MAX + 80` before a shift, so the shift loses nothing
(`toNat_pushSeptet`) and the loop is the one over numbers (`machineOctets_eq`).
-/

namespace Sonda.Snmp

open Framework List Nat

variable {first : Bool} {arcs r : List Nat} {body : Octets}

/-! ## Subidentifiers -/

/-- An octet with the continuation bit, from its septet. -/
theorem octet_more : ∀ octet : UInt8, octet &&& 0x80 ≠ 0 →
    UInt8.ofNat (octet &&& 0x7F).toNat ||| 0x80 = octet ∧ (octet ≠ 0x80 → (octet &&& 0x7F).toNat ≠ 0) :=
  octet_all (by decide +kernel)

/-- The last octet of a subidentifier is its septet. -/
theorem octet_last : ∀ octet : UInt8, octet &&& 0x80 = 0 → UInt8.ofNat (octet &&& 0x7F).toNat = octet :=
  octet_all (by decide +kernel)

theorem septet_lt (octet : UInt8) : (octet &&& 0x7F).toNat < 128 := by
  rw [toNat_and_7f]
  exact mod_lt _ (by decide)

/-- What the loop accepts starts with the septets of a subidentifier. -/
theorem decodeOctets_some :
    ∀ {started : Bool} {value : Nat}, decodeOctets first started value arcs body = some r →
      (started = true ∨ body ≠ []) → ∃ ds rest, ds ≠ [] ∧ (∀ d ∈ ds, d < 128) ∧
        (started = false → 1 < ds.length → ds.headD 0 ≠ 0) ∧ body = septets ds ++ rest ∧
        decodeArc first (ds.foldl (pushDigit 128) value) arcs rest = some r := by
  induction body with
  | nil =>
    intro started value h hne
    obtain rfl : started = true := hne.resolve_right fun h => h rfl
    cases h
  | cons octet body ih =>
    intro started value h _
    unfold decodeOctets at h
    split at h
    · cases h
    · rename_i hpad
      dsimp only at h
      split at h
      · cases h
      · have hlt := septet_lt octet
        split at h
        · -- The subidentifier goes on: its septets are this one and those of the rest.
          rename_i hmore
          obtain ⟨hoctet, hnonzero⟩ := octet_more octet (by simpa using hmore)
          obtain ⟨ds, rest, hne, hds, -, hbody, hread⟩ := ih h (.inl rfl)
          obtain ⟨e, es, rfl⟩ := exists_cons_of_ne_nil hne
          refine ⟨(octet &&& 0x7F).toNat :: e :: es, rest, cons_ne_nil _ _, ?_, ?_, ?_, hread⟩
          · intro d hd
            rcases mem_cons.mp hd with rfl | hd
            · exact hlt
            · exact hds d hd
          · rintro rfl -
            exact hnonzero fun h => hpad (by rw [h]; rfl)
          · rw [septets, hoctet, hbody]
            · rfl
            · exact cons_ne_nil _ _
        · rename_i hlast
          refine ⟨[(octet &&& 0x7F).toNat], body, cons_ne_nil _ _, ?_, ?_, ?_, h⟩
          · intro d hd
            rw [mem_singleton.mp hd]
            exact hlt
          · exact fun _ hlong => absurd hlong (lt_irrefl 1)
          · rw [septets, octet_last octet (by simpa using hlast)]
            rfl

/-- Septets without a leading zero are the digits of their value. -/
theorem septets_canonical {ds : List Nat} (hne : ds ≠ []) (hds : ∀ d ∈ ds, d < 128)
    (hfirst : 1 < ds.length → ds.headD 0 ≠ 0) :
    beDigits 128 (subidentifierLen (ofBe 128 ds)) (ofBe 128 ds) = ds := by
  have hlt := ofBe_lt (by decide) hds
  have hcount : digitCount 7 (ofBe 128 ds) ≤ ds.length := digitCount_le (by decide) hlt
  have hlen : subidentifierLen (ofBe 128 ds) = ds.length := by
    have hpos := length_pos_iff.mpr hne
    unfold subidentifierLen
    by_cases hone : ds.length = 1
    · omega
    · obtain ⟨d, tail, rfl⟩ := exists_cons_of_ne_nil hne
      rw [length_cons] at hone hcount hpos ⊢
      have hd : 1 ≤ d := pos_of_ne_zero (hfirst (by rw [length_cons]; omega))
      -- A first digit of one or more gives the value at least its weight.
      have hweight : 128 ^ tail.length ≤ ofBe 128 (d :: tail) := by
        rw [ofBe, foldl_cons, foldl_pushDigit]
        have hmul := mul_le_mul_right (128 ^ tail.length) (show 1 ≤ pushDigit 128 0 d by
          unfold pushDigit
          omega)
        omega
      have hbound : ofBe 128 (d :: tail) < 128 ^ digitCount 7 (ofBe 128 (d :: tail)) :=
        lt_pow_digitCount (b := 7) (by decide) _
      have hexp := (Nat.pow_lt_pow_iff_right (by decide : 1 < 128)).mp (hweight.trans_lt hbound)
      omega
  rw [hlen]
  exact beDigits_ofBe (by decide) hds

/-- What the loop accepts from the start of a subidentifier is the octets the
writer has for it, and then what it accepts after it. -/
theorem decodeOctets_subidentifier_some (h : decodeOctets first false 0 arcs body = some r)
    (hne : body ≠ []) :
    ∃ value rest, body = septets (beDigits 128 (subidentifierLen value) value) ++ rest ∧
      decodeArc first value arcs rest = some r := by
  obtain ⟨ds, rest, hds, hlt, hfirst, hbody, hread⟩ := decodeOctets_some h (.inr hne)
  refine ⟨ofBe 128 ds, rest, ?_, hread⟩
  rwa [septets_canonical hds hlt (hfirst rfl)]

/-! ## Bodies -/

/-- The loop accepts the octets of the arcs it appends. -/
theorem arcOctets_of_decodeOctets : ∀ (n : Nat) {arcs : List Nat} {body : Octets},
    body.length ≤ n → decodeOctets false false 0 arcs body = some r →
    ∃ tail, r = arcs ++ tail ∧ body = arcOctets tail := by
  intro n
  induction n with
  | zero =>
    intro arcs body hlen h
    obtain rfl := length_eq_zero_iff.mp (le_zero.mp hlen)
    exact ⟨[], by rw [append_nil]; exact (Option.some.inj h).symm, rfl⟩
  | succ n ih =>
    intro arcs body hlen h
    by_cases hne : body = []
    · exact ih (by rw [hne]; exact zero_le _) h
    · obtain ⟨value, rest, hbody, hread⟩ := decodeOctets_subidentifier_some h hne
      have hshort : rest.length ≤ n := by
        have hpos := subidentifierLen_pos value
        rw [hbody, length_append, length_septets, length_beDigits] at hlen
        omega
      rw [decodeArc, if_neg Bool.false_ne_true] at hread
      split at hread
      · obtain ⟨tail, rfl, rfl⟩ := ih hshort hread
        exact ⟨value :: tail, by rw [append_assoc]; rfl, hbody⟩
      · cases hread

theorem firstSubidentifier_unfoldFirst (value : Nat) (tail : List Nat) :
    firstSubidentifier ((unfoldFirst value).1 :: (unfoldFirst value).2 :: tail) = value := by
  unfold unfoldFirst
  split
  · show 0 * 40 + value = value
    omega
  · split
    · show 1 * 40 + (value - 40) = value
      omega
    · show 2 * 40 + (value - 80) = value
      omega

/-- What is accepted is what is written for it. -/
theorem writeBerBody_of_decodeBerBody (h : decodeBerBody body = some arcs) :
    writeBerBody arcs [] = body := by
  unfold decodeBerBody at h
  split at h
  · cases h
  · rename_i hne
    obtain ⟨value, rest, rfl, hread⟩ := decodeOctets_subidentifier_some h fun he => hne (by rw [he]; rfl)
    rw [decodeArc, if_pos rfl] at hread
    split at hread
    · obtain ⟨tail, rfl, rfl⟩ := arcOctets_of_decodeOctets rest.length le_rfl hread
      rw [nil_append, writeBerBody, foldl_writeSubidentifier, writeSubidentifier, nil_append]
      show septets (beDigits 128 (subidentifierLen (firstSubidentifier
        ((unfoldFirst value).1 :: (unfoldFirst value).2 :: tail))) (firstSubidentifier
        ((unfoldFirst value).1 :: (unfoldFirst value).2 :: tail))) ++ arcOctets tail = _
      rw [firstSubidentifier_unfoldFirst]
    · cases hread

/-! ## The accumulator -/

/-- The values the accumulator is given, as numbers without a bound. -/
def accumulated (started : Bool) (value : Nat) : Octets → List Nat
  | [] => []
  | octet :: rest =>
    if !started && octet == 0x80 then []
    else
      let value := pushDigit 128 value (octet &&& 0x7F).toNat
      value ::
        if arcBound - 1 + 80 < value then []
        else if octet &&& 0x80 != 0 then accumulated true value rest
        else accumulated false 0 rest

theorem toNat_pushSeptet {value : UInt64} (h : value.toNat ≤ arcBound - 1 + 80) (octet : UInt8) :
    (pushSeptet value octet).toNat = value.toNat * 128 + (octet &&& 0x7F).toNat := by
  have hlt : (octet &&& 0x7F).toNat < 2 ^ 7 := septet_lt octet
  have hsum := two_pow_add_eq_or_of_lt hlt value.toNat
  have hshift : (value <<< 7).toNat = 2 ^ 7 * value.toNat := by
    unfold arcBound at h
    rw [UInt64.toNat_shiftLeft, show (7 : UInt64).toNat % 64 = 7 from rfl, shiftLeft_eq]
    omega
  rw [pushSeptet, UInt64.toNat_or, UInt8.toNat_toUInt64, hshift, ← hsum]
  omega

theorem machineFirst_eq (value : UInt64) :
    ((machineFirst value).1, (machineFirst value).2.toNat) = unfoldFirst value.toNat := by
  have h39 : value ≤ 39 ↔ value.toNat ≤ 39 := UInt64.le_iff_toNat_le
  have h79 : value ≤ 79 ↔ value.toNat ≤ 79 := UInt64.le_iff_toNat_le
  unfold machineFirst unfoldFirst
  by_cases hzero : value.toNat ≤ 39
  · rw [if_pos hzero, if_pos (h39.mpr hzero)]
  · rw [if_neg hzero, if_neg (mt h39.mp hzero)]
    by_cases hone : value.toNat ≤ 79
    · have hsub := UInt64.toNat_sub_of_le value 40 (UInt64.le_iff_toNat_le.mpr (show 40 ≤ value.toNat by omega))
      rw [if_pos hone, if_pos (h79.mpr hone), hsub]
      rfl
    · have hsub := UInt64.toNat_sub_of_le value 80 (UInt64.le_iff_toNat_le.mpr (show 80 ≤ value.toNat by omega))
      rw [if_neg hone, if_neg (mt h79.mp hone), hsub]
      rfl

/-- The loop over the `u64` is the one over numbers. -/
theorem machineOctets_eq : ∀ {first started : Bool} {value : UInt64} {arcs : List Nat},
    value.toNat ≤ arcBound - 1 + 80 →
    machineOctets first started value arcs body = decodeOctets first started value.toNat arcs body := by
  induction body with
  | nil => exact fun _ => rfl
  | cons octet body ih =>
    intro first started value arcs hvalue
    have hpush := toNat_pushSeptet hvalue octet
    have hzero : ∀ arcs, machineOctets false false 0 arcs body = decodeOctets false false 0 arcs body :=
      fun arcs => ih (zero_le _)
    unfold machineOctets decodeOctets
    rw [← hpush]
    generalize pushSeptet value octet = next at hpush ⊢
    by_cases hpad : (!started && octet == 0x80) = true
    · rw [if_pos hpad, if_pos hpad]
    · rw [if_neg hpad, if_neg hpad]
      have hlimit : (4294967295 + 80 < next) ↔ arcBound - 1 + 80 < next.toNat := UInt64.lt_iff_toNat_lt
      by_cases hbig : arcBound - 1 + 80 < next.toNat
      · rw [if_pos hbig, if_pos (hlimit.mpr hbig)]
      · rw [if_neg hbig, if_neg (mt hlimit.mp hbig)]
        by_cases hmore : (octet &&& 0x80 != 0) = true
        · rw [if_pos hmore, if_pos hmore]
          exact ih (not_lt.mp hbig)
        · rw [if_neg hmore, if_neg hmore]
          have harc : ∀ v : UInt64, v ≤ 4294967295 ↔ v.toNat < arcBound := fun v =>
            UInt64.le_iff_toNat_le.trans Nat.lt_succ_iff.symm
          simp only [harc, hzero, ← machineFirst_eq]

theorem accumulated_lt : ∀ {started : Bool} {value : Nat}, value ≤ arcBound - 1 + 80 →
    ∀ v ∈ accumulated started value body, v < 18446744073709551616 := by
  induction body with
  | nil => exact fun _ _ hv => absurd hv not_mem_nil
  | cons octet body ih =>
    intro started value hvalue v hv
    have hlt := septet_lt octet
    unfold arcBound at hvalue
    unfold accumulated at hv
    split at hv
    · exact absurd hv not_mem_nil
    · rcases mem_cons.mp hv with rfl | hv
      · unfold pushDigit
        omega
      · split at hv
        · exact absurd hv not_mem_nil
        · rename_i hle
          split at hv
          · exact ih (not_lt.mp hle) v hv
          · exact ih (zero_le _) v hv

/-! ## The codec -/

/-- Valid arcs and accepted bodies are in bijection, and the `u64` of the
decoder does not overflow. -/
theorem berBody_bijection :
    (∀ arcs out, ValidArcs arcs → ∃ body, writeBerBody arcs out = out ++ body ∧
      body.length = berBodyLen arcs ∧ decodeBerBody body = some arcs) ∧
    (∀ body arcs, decodeBerBody body = some arcs → ValidArcs arcs ∧ writeBerBody arcs [] = body) ∧
    ∀ body, machineBerBody body = decodeBerBody body ∧
      ∀ value ∈ accumulated false 0 body, value < 18446744073709551616 := by
  refine ⟨fun arcs out hvalid => ?_, fun body arcs hread => ?_, fun body => ?_⟩
  · exact ⟨writeBerBody arcs [], writeBerBody_eq arcs out, length_writeBerBody arcs,
      decodeBerBody_writeBerBody hvalid⟩
  · exact ⟨validArcs_decodeBerBody hread, writeBerBody_of_decodeBerBody hread⟩
  · refine ⟨?_, accumulated_lt (zero_le _)⟩
    rw [machineBerBody, decodeBerBody, machineOctets_eq (zero_le _)]
    rfl

theorem berBody_bijection_ifDescr : ∃ body, writeBerBody [1, 3, 6, 1, 2, 1, 2, 2, 1, 2, 4294967295] [] = body ∧
    decodeBerBody body = some [1, 3, 6, 1, 2, 1, 2, 2, 1, 2, 4294967295] := by
  obtain ⟨body, hwritten, -, hread⟩ :=
    berBody_bijection.1 [1, 3, 6, 1, 2, 1, 2, 2, 1, 2, 4294967295] [] (by decide)
  exact ⟨body, hwritten, hread⟩

end Sonda.Snmp
