import Mathlib.Tactic.Ring
import Mathlib.Tactic.NormNum.Basic
import Sonda.Framework.Fallible
import Sonda.Impl.Snmp.Ber

/-!
# What the BER writers and readers do

`tlv tag body` is the TLV the writers append, whichever way they come to its
length (`writeTlvWith_eq`, `writeOctets_eq`, `writeI64_eq`). `rawTlv_ok` and
`rawTlv_of_isLength` say what a reader takes: a tag, a length in one of the
forms `IsLength` and as many octets. Readers read what the writers wrote
(`expect_tlv`, `i64_tlv`), and integers come back (`decodeI64_signedSpan`).
-/

namespace Sonda.Snmp

open Framework List UInt8 Nat

variable {n : Nat} {bytes : Octets} {v : Int} {m : Nat} {ls out content body : Octets} {tag : Tag}

/-! ## Octets -/

theorem toNat_and_7f (b : UInt8) : (b &&& 0x7F).toNat = b.toNat % 128 := by
  exact and_two_pow_sub_one_eq_mod b.toNat 7

theorem toNat_or_80 : ∀ k < 128, (0x80 ||| UInt8.ofNat k).toNat = 128 + k := by decide

/-- What holds of the 256 octets. -/
theorem octet_all {P : UInt8 → Prop} (h : ∀ n < 256, P (UInt8.ofNat n)) (b : UInt8) : P b := by
  have hb := h b.toNat b.toNat_lt
  rwa [UInt8.ofNat_toNat] at hb

theorem and_80_eq_zero_iff : ∀ b : UInt8, b &&& 0x80 = 0 ↔ b < 0x80 :=
  octet_all (by decide +kernel)

theorem toNat_ofNat_of_lt (h : n < 256) : (UInt8.ofNat n).toNat = n := by
  exact mod_eq_of_lt h

@[simp]
theorem length_beOctets (k n : Nat) : (beOctets k n).length = k := by
  rw [beOctets, length_map, length_beDigits]

theorem map_toNat_beOctets (k n : Nat) : (beOctets k n).map UInt8.toNat = beDigits 256 k n := by
  rw [beOctets, map_map]
  refine (map_congr_left fun d hd => ?_).trans (map_id _)
  exact toNat_ofNat_of_lt (lt_of_mem_beDigits (by decide) hd)

theorem ofBeOctets_beOctets {k n : Nat} (h : n < 256 ^ k) : ofBeOctets (beOctets k n) = n := by
  rw [ofBeOctets, map_toNat_beOctets, ofBe_beDigits h]

theorem ofBeOctets_lt (bytes : Octets) : ofBeOctets bytes < 256 ^ bytes.length := by
  have h : ∀ d ∈ bytes.map toNat, d < 256 := by
    intro d hd
    obtain ⟨b, -, rfl⟩ := mem_map.mp hd
    exact b.toNat_lt
  have hlt := ofBe_lt (by decide) h
  rwa [length_map] at hlt

/-! ## Lengths -/

/-- The octets of a length, as the writers write it. -/
def lengthOctets (n : Nat) : Octets := writeLength [] n

theorem writeLength_eq (out : Octets) (n : Nat) : writeLength out n = out ++ lengthOctets n := by
  unfold lengthOctets writeLength
  split <;> simp

@[simp]
theorem length_lengthOctets (n : Nat) : (lengthOctets n).length = lengthLen n := by
  unfold lengthOctets writeLength
  split
  · rename_i h
    rw [lengthLen, if_pos h]
    rfl
  · rename_i h
    rw [lengthLen, if_neg h]
    simp
    omega

theorem lengthOctets_short (h : n < 0x80) : lengthOctets n = [UInt8.ofNat n] := by
  rw [lengthOctets, writeLength, if_pos h]
  rfl

theorem lengthOctets_long (h : ¬ n < 0x80) :
    lengthOctets n = (0x80 ||| UInt8.ofNat (digitCount 8 n)) :: beOctets (digitCount 8 n) n := by
  have hlen : lengthLen n - 1 = digitCount 8 n := by
    rw [lengthLen, if_neg h]
    omega
  rw [lengthOctets, writeLength, if_neg h]
  rw [hlen]
  rfl

/-- The forms of a length the readers take. -/
inductive IsLength : Octets → Nat → Prop
  | short {n : Nat} (h : n < 0x80) : IsLength [UInt8.ofNat n] n
  | long {ds : Octets} (h : 1 ≤ ds.length) (h4 : ds.length ≤ 4) :
      IsLength ((0x80 ||| UInt8.ofNat ds.length) :: ds) (ofBeOctets ds)

theorem digitCount_pos (h : ¬ n < 0x80) : 1 ≤ digitCount 8 n := by
  have hsize : 0 < n.size := size_pos.mpr (by omega)
  rw [digitCount]
  omega

theorem isLength_lengthOctets (h : n < 4294967296) : IsLength (lengthOctets n) n := by
  by_cases hs : n < 0x80
  · rw [lengthOctets_short hs]
    exact .short hs
  · rw [lengthOctets_long hs]
    have hd : digitCount 8 n ≤ 4 := digitCount_le (by decide) h
    have hn : ofBeOctets (beOctets (digitCount 8 n) n) = n :=
      ofBeOctets_beOctets (lt_pow_digitCount (by decide) n)
    have hl := @IsLength.long (beOctets (digitCount 8 n) n) (by simpa using digitCount_pos hs)
      (by simpa using hd)
    rwa [length_beOctets, hn] at hl

theorem IsLength.lt (h : IsLength ls n) : n < 4294967296 := by
  cases h with
  | short h => omega
  | @long ds _ h4 =>
    refine (ofBeOctets_lt ds).trans_le ?_
    exact Nat.pow_le_pow_right (by decide) h4

/-- The writers' form is the shortest. -/
theorem IsLength.lengthLen_le (h : IsLength ls n) : lengthLen n ≤ ls.length := by
  cases h with
  | short h => rw [lengthLen, if_pos h]; exact le_refl _
  | @long ds h1 _ =>
    unfold lengthLen
    split
    · exact succ_le_succ (zero_le _)
    · have := digitCount_le (b := 8) (by decide) (ofBeOctets_lt ds)
      rw [length_cons]
      omega

/-! ## Readers -/

namespace Reader

variable {r r' : Reader} {a : Nat} {ls rest : Octets} {first tag : UInt8}

theorem splitAt_eq {xs ys : Octets} :
    splitAt ⟨a, xs ++ ys⟩ xs.length = .ok (⟨a, xs⟩, ⟨a + xs.length, ys⟩) := by
  rw [splitAt, if_neg (by simp)]
  simp

theorem splitAt_ok {s : Slice} {n : Nat} (h : r.splitAt n = .ok (s, r')) :
    r.octets = s.octets ++ r'.octets ∧ s.octets.length = n ∧ s.start = r.start ∧ r'.start = s.stop := by
  unfold splitAt at h
  split at h
  · exact nomatch h
  · cases h
    have htake : (r.octets.take n).length = n := by
      rw [length_take]
      omega
    exact ⟨(take_append_drop n r.octets).symm, htake, rfl, by rw [Slice.stop, htake]⟩

theorem lengthAfter_of_isLength {n : Nat} (h : IsLength (first :: ls) n) :
    lengthAfter first ⟨a, ls ++ rest⟩ = .ok (n, ⟨a + ls.length, rest⟩) := by
  unfold lengthAfter
  cases h with
  | short h =>
    have hn : (ofNat n).toNat = n := toNat_ofNat_of_lt (by omega)
    have hlt : ofNat n < 0x80 := by
      rw [lt_iff_toNat_lt, hn]
      exact h
    rw [if_pos hlt, hn]
    rfl
  | long h h4 =>
    have hfirst := toNat_or_80 ls.length (by omega)
    have hnot : ¬ (0x80 ||| ofNat ls.length) < 0x80 := by
      rw [lt_iff_toNat_lt, hfirst]
      exact fun hc => absurd hc (by show ¬ 128 + ls.length < 128; omega)
    have hoctets : ((0x80 ||| ofNat ls.length) &&& 0x7F).toNat = ls.length := by
      rw [toNat_and_7f, hfirst]
      omega
    rw [if_neg hnot]
    rw [hoctets, if_neg (by omega), splitAt_eq]

theorem lengthAfter_ok {n : Nat} (h : lengthAfter first r = .ok (n, r')) :
    ∃ ls, IsLength (first :: ls) n ∧ r.octets = ls ++ r'.octets ∧ r'.start = r.start + ls.length := by
  unfold lengthAfter at h
  split at h
  · rename_i hlt
    cases h
    have hs := @IsLength.short first.toNat hlt
    rw [UInt8.ofNat_toNat] at hs
    exact ⟨[], hs, rfl, rfl⟩
  · rename_i hge
    dsimp only at h
    split at h
    · exact nomatch h
    · rename_i hoctets
      split at h
      · rename_i lenBytes r₁ hsplit
        cases h
        obtain ⟨happ, hlen, hstart, hstop⟩ := splitAt_ok hsplit
        rw [toNat_and_7f] at hlen hoctets
        have hge' : 128 ≤ first.toNat := Nat.le_of_not_lt hge
        have hlt := first.toNat_lt
        have hfirst : first = 0x80 ||| UInt8.ofNat lenBytes.octets.length := by
          apply UInt8.toNat_inj.mp
          rw [toNat_or_80 _ (by omega)]
          omega
        refine ⟨lenBytes.octets, ?_, happ, ?_⟩
        · rw [hfirst]
          exact .long (by omega) (by omega)
        · rw [hstop, Slice.stop, hstart]
      · exact nomatch h

/-- A reader takes a tag, a length and its octets. -/
theorem rawTlv_of_isLength {body : Octets} (htag : tag &&& 0x1F ≠ 0x1F)
    (h : IsLength ls body.length) :
    rawTlv ⟨a, tag :: ls ++ body ++ rest⟩ =
      .ok ((tag, ⟨a + 1 + ls.length, body⟩), ⟨a + 1 + ls.length + body.length, rest⟩) := by
  cases ls with
  | nil => cases h
  | cons first ls =>
    simp only [rawTlv, cons_append, append_assoc]
    rw [if_neg (by simpa using htag), lengthAfter_of_isLength h]
    dsimp only
    rw [splitAt_eq]
    simp only [length_cons]
    congr 4 <;> omega

/-- What a reader takes is a tag, a length and its octets. -/
theorem rawTlv_ok {body : Slice} (h : r.rawTlv = .ok ((tag, body), r')) :
    tag &&& 0x1F ≠ 0x1F ∧ ∃ ls, IsLength ls body.octets.length ∧
      r.octets = tag :: ls ++ body.octets ++ r'.octets ∧ body.start = r.start + 1 + ls.length ∧
      r'.start = body.stop := by
  unfold rawTlv at h
  split at h
  · exact nomatch h
  · split at h <;> exact nomatch h
  · rename_i tag' first rest hr
    split at h
    · exact nomatch h
    · rename_i htag
      split at h
      · exact nomatch h
      · rename_i len r₁ hlen
        split at h
        · exact nomatch h
        · rename_i body' r₂ hsplit
          obtain ⟨hp, rfl⟩ := Prod.mk.inj (Except.ok.inj h)
          obtain ⟨rfl, rfl⟩ := Prod.mk.inj hp
          obtain ⟨ls, hls, happ, hstart⟩ := lengthAfter_ok hlen
          obtain ⟨happ', hbody, hbs, hstop⟩ := splitAt_ok hsplit
          refine ⟨by simpa using htag, first :: ls, hbody ▸ hls, ?_, ?_, hstop⟩
          · dsimp only at happ
            rw [hr, happ, happ']
            simp
          · dsimp only at hstart
            rw [hbs, hstart, length_cons]
            omega

end Reader

/-! ## TLVs -/

/-- The TLV of `body`. -/
def tlv (tag : Tag) (body : Octets) : Octets := tag.byte :: lengthOctets body.length ++ body

@[simp]
theorem length_tlv (tag : Tag) (body : Octets) : (tlv tag body).length = tlvLen body.length := by
  simp only [tlv, length_append, length_cons, length_lengthOctets, tlvLen]
  omega

theorem lengthLen_mono {n : Nat} (h : n ≤ m) : lengthLen n ≤ lengthLen m := by
  have hcount : digitCount 8 _ ≤ digitCount 8 _ :=
    Nat.div_le_div_right (Nat.add_le_add_right (Nat.size_le_size h) _)
  unfold lengthLen
  split
  · split <;> omega
  · rw [if_neg (by omega)]
    omega

theorem tlvLen_mono {n : Nat} (h : n ≤ m) : tlvLen n ≤ tlvLen m := by
  have hlength := lengthLen_mono h
  unfold tlvLen
  omega

theorem tlvLen_lt {n : Nat} (h : n < m) : tlvLen n < tlvLen m := by
  have hlength := lengthLen_mono h.le
  unfold tlvLen
  omega

theorem le_tlvLen (n : Nat) : n ≤ tlvLen n := le_add_left _ _

theorem writeHeader_eq (out : Octets) (tag : Tag) (n : Nat) :
    writeHeader out tag n = out ++ tag.byte :: lengthOctets n := by
  rw [writeHeader, writeLength_eq, append_assoc]
  rfl

theorem writeOctets_eq (out : Octets) (tag : Tag) (bytes : Octets) :
    writeOctets out tag bytes = out ++ tlv tag bytes := by
  rw [writeOctets, writeHeader_eq, append_assoc]
  rfl

theorem writeI64_eq (out : Octets) (tag : Tag) (v : Int) :
    writeI64 out tag v = out ++ tlv tag (signedSpan v) := by
  rw [writeI64, writeHeader_eq, append_assoc]
  rfl

theorem copyFromSlice_append (before src after : Octets) {mid : Octets} (h : mid.length = src.length) :
    copyFromSlice (before ++ mid ++ after) before.length src = before ++ src ++ after := by
  have htake : (before ++ mid ++ after).take before.length = before := by simp
  have hdrop : (before ++ mid ++ after).drop (before.length + src.length) = after := by
    rw [← h, ← length_append, drop_left]
  rw [copyFromSlice, htake, hdrop]

/-- The length goes in front of the body, in either form. -/
theorem patchLength_eq (out body : Octets) :
    patchLength (out ++ [0] ++ body) out.length = out ++ lengthOctets body.length ++ body := by
  have hlen : (out ++ [0] ++ body).length - out.length - 1 = body.length := by
    simp only [length_append, length_singleton]
    omega
  unfold patchLength
  dsimp only
  rw [hlen]
  split
  · rename_i hs
    rw [lengthOctets_short hs, append_assoc, set_append_right _ _ (le_refl _)]
    simp
  · rename_i hl
    have hoctets : lengthLen body.length - 1 = digitCount 8 body.length := by
      rw [lengthLen, if_neg hl]
      omega
    rw [hoctets, lengthOctets_long hl]
    generalize hk : digitCount 8 body.length = k
    have hdrop : (out ++ [0] ++ body).drop (out.length + 1) = body := by
      rw [show out.length + 1 = (out ++ [(0 : UInt8)]).length by simp, drop_left]
    rw [hdrop]
    -- the body moves `k` octets up, over its old place and the appended zeros
    obtain ⟨gap, hgap, hmove⟩ : ∃ gap : Octets, gap.length = k ∧
        copyFromSlice (out ++ [0] ++ body ++ replicate k 0) (out.length + 1 + k) body =
          out ++ [0] ++ gap ++ body := by
      refine ⟨(body ++ replicate k 0).take k, by simp, ?_⟩
      have hsplit : out ++ [0] ++ body ++ replicate k 0 =
          out ++ [0] ++ (body ++ replicate k 0).take k ++
            (body ++ replicate k 0).drop k ++ [] := by
        simp
      have hat : out.length + 1 + k =
          (out ++ [(0 : UInt8)] ++ (body ++ replicate k 0).take k).length := by
        simp
        omega
      rw [hsplit, hat, copyFromSlice_append _ _ _ (by simp), append_nil]
    rw [hmove]
    have hset : (out ++ [0] ++ gap ++ body).set out.length (0x80 ||| ofNat k) =
        out ++ [0x80 ||| ofNat k] ++ gap ++ body := by
      simp [set_append_right]
    have hat : out.length + 1 = (out ++ [0x80 ||| ofNat k]).length := by simp
    rw [hset, hat, copyFromSlice_append _ _ _ (by simp [hgap])]
    simp

/-- A TLV whose body a closure appends, with what the closure assigns. -/
theorem writeTlvWith_eq {α : Type} {body : Octets → Octets × α} {a : α}
    (h : body (out ++ [tag.byte, 0]) = (out ++ [tag.byte, 0] ++ content, a)) :
    writeTlvWith out tag body = (out ++ tlv tag content, a) := by
  have happ : out ++ [tag.byte] ++ [0] = out ++ [tag.byte, 0] := by simp
  unfold writeTlvWith
  dsimp only
  rw [happ, h]
  rw [← happ, patchLength_eq]
  simp [tlv]

theorem writeTlv_eq {body : Octets → Octets}
    (h : body (out ++ [tag.byte, 0]) = out ++ [tag.byte, 0] ++ content) :
    writeTlv out tag body = out ++ tlv tag content := by
  have hb : (body (out ++ [tag.byte, 0]), ()) = (out ++ [tag.byte, 0] ++ content, ()) := by rw [h]
  rw [writeTlv, @writeTlvWith_eq out content tag Unit (fun out => (body out, ())) () hb]

theorem Tag.byte_and_1f (tag : Tag) : tag.byte &&& 0x1F ≠ 0x1F := by
  cases tag <;> decide

theorem Tag.fromByte_byte (tag : Tag) : Tag.fromByte tag.byte = .ok tag := by
  cases tag <;> rfl

namespace Reader

variable {tag : Tag} {body rest : Octets} {a : Nat}

theorem rawTlv_tlv (hlen : body.length < 4294967296) : rawTlv ⟨a, Snmp.tlv tag body ++ rest⟩ =
      .ok ((tag.byte, ⟨a + 1 + lengthLen body.length, body⟩), ⟨a + tlvLen body.length, rest⟩) := by
  rw [Snmp.tlv, rawTlv_of_isLength tag.byte_and_1f (isLength_lengthOctets hlen), length_lengthOctets,
    tlvLen, add_assoc a 1 (lengthLen body.length), add_assoc a _ body.length]

theorem tlv_tlv (hlen : body.length < 4294967296) : tlv ⟨a, Snmp.tlv tag body ++ rest⟩ =
      .ok ((tag, ⟨a + 1 + lengthLen body.length, body⟩), ⟨a + tlvLen body.length, rest⟩) := by
  simp only [tlv, rawTlv_tlv hlen, bind, Except.bind, Tag.fromByte_byte]

theorem expect_tlv (hlen : body.length < 4294967296) : expect ⟨a, Snmp.tlv tag body ++ rest⟩ tag =
      .ok (⟨a + 1 + lengthLen body.length, body⟩, ⟨a + tlvLen body.length, rest⟩) := by
  simp [expect, rawTlv_tlv hlen, bind, Except.bind]

theorem expect_ok {r r' : Reader} {s : Slice} (h : r.expect tag = .ok (s, r')) :
    ∃ ls, IsLength ls s.octets.length ∧ r.octets = tag.byte :: ls ++ s.octets ++ r'.octets ∧
      s.start = r.start + 1 + ls.length ∧ r'.start = s.stop := by
  obtain ⟨⟨⟨found, s'⟩, r₁⟩, hr, h⟩ := bind_ok h
  obtain ⟨hfound, h⟩ := check_ok h
  cases h
  have hfound : found = tag.byte := by simpa using hfound
  exact hfound ▸ (rawTlv_ok hr).2

end Reader

/-! ## Integers -/

/-- The number of octets in two's complement. -/
def signedValue (bytes : Octets) : Int :=
  if bytes.headD 0 < 0x80 then ofBeOctets bytes else (ofBeOctets bytes : Int) - 256 ^ bytes.length

theorem ofBeOctets_cons (b : UInt8) (bytes : Octets) :
    ofBeOctets (b :: bytes) = b.toNat * 256 ^ bytes.length + ofBeOctets bytes := by
  rw [ofBeOctets, ofBe, map_cons, foldl_cons, foldl_pushDigit, length_map, pushDigit,
    Nat.zero_mul, Nat.zero_add]
  rfl

theorem redundant_iff (a b : UInt8) :
    redundant a b = true ↔ a = 0 ∧ b < 0x80 ∨ a = 0xFF ∧ ¬ b < 0x80 := by
  simp [redundant, ← and_80_eq_zero_iff]

/-- A redundant octet says nothing. -/
theorem signedValue_cons {a b : UInt8} (h : redundant a b = true) :
    signedValue (a :: b :: bytes) = signedValue (b :: bytes) := by
  rcases (redundant_iff a b).mp h with ⟨rfl, hb⟩ | ⟨rfl, hb⟩
  · rw [signedValue, signedValue, if_pos (by simp), if_pos (by simpa using hb), ofBeOctets_cons]
    simp
  · have hlen : ((0xFF : UInt8) :: b :: bytes).length = (b :: bytes).length + 1 := rfl
    rw [signedValue, signedValue, if_neg (by simp), if_neg (by simpa using hb), ofBeOctets_cons, hlen,
      pow_succ]
    push_cast
    ring

theorem signedValue_dropRedundant : ∀ bytes : Octets, signedValue (dropRedundant bytes) = signedValue bytes
  | [] => rfl
  | [_] => rfl
  | a :: b :: bytes => by
    unfold dropRedundant
    split
    · rename_i h
      rw [signedValue_dropRedundant (b :: bytes), signedValue_cons h]
    · rfl

theorem length_dropRedundant : ∀ {bytes : Octets}, bytes ≠ [] →
    1 ≤ (dropRedundant bytes).length ∧ (dropRedundant bytes).length ≤ bytes.length
  | [], h => absurd rfl h
  | [_], _ => ⟨le_refl _, le_refl _⟩
  | a :: b :: bytes, _ => by
    unfold dropRedundant
    split
    · obtain ⟨h₁, h₂⟩ := length_dropRedundant (cons_ne_nil b bytes)
      exact ⟨h₁, h₂.trans (le_succ _)⟩
    · exact ⟨succ_le_succ (zero_le _), le_refl _⟩

/-- The sign bit of eight octets. -/
theorem headD_lt_iff (h : bytes.length = 8) :
    bytes.headD 0 < 0x80 ↔ ofBeOctets bytes < 9223372036854775808 := by
  cases bytes with
  | nil => exact nomatch h
  | cons b bytes =>
    have hlen : bytes.length = 7 := succ.inj h
    have hlt := ofBeOctets_lt bytes
    rw [ofBeOctets_cons, headD_cons, lt_iff_toNat_lt]
    rw [hlen] at hlt ⊢
    show b.toNat < 128 ↔ _
    omega

theorem fromBeBytes_eq (h : bytes.length = 8) : fromBeBytes bytes = signedValue bytes := by
  unfold fromBeBytes signedValue
  rw [h]
  by_cases hs : ofBeOctets bytes < 9223372036854775808
  · rw [if_pos hs, if_pos ((headD_lt_iff h).mpr hs)]
  · rw [if_neg hs, if_neg (mt (headD_lt_iff h).mp hs)]
    rfl

theorem signedValue_toBeBytes (hlo : -9223372036854775808 ≤ v) (hhi : v < 9223372036854775808) :
    signedValue (toBeBytes v) = v := by
  have hlen : (toBeBytes v).length = 8 := length_beOctets _ _
  have hn : ofBeOctets (toBeBytes v) = (v % 18446744073709551616).toNat :=
    ofBeOctets_beOctets (by rw [show 256 ^ 8 = 18446744073709551616 from rfl]; omega)
  rw [← fromBeBytes_eq hlen, fromBeBytes, hn]
  split <;> omega

/-- The octet the sign is extended with. -/
theorem signedValue_fill (h : body ≠ []) (k : Nat) :
    signedValue (List.replicate k (if body.headD 0 &&& 0x80 != 0 then 0xFF else 0) ++ body) =
      signedValue body := by
  cases body with
  | nil => exact absurd rfl h
  | cons b rest =>
    rw [headD_cons]
    generalize hf : (if b &&& 0x80 != 0 then (0xFF : UInt8) else 0) = fill
    have hred : redundant fill b = true ∧ redundant fill fill = true := by
      rw [redundant_iff, redundant_iff, ← and_80_eq_zero_iff, ← and_80_eq_zero_iff, ← hf]
      by_cases hb : b &&& 0x80 = 0
      · simp [hb]
      · simp [hb, show ¬ (255 : UInt8) &&& 128 = 0 by decide]
    induction k with
    | zero => rfl
    | succ k ih =>
      rw [replicate_succ, cons_append, ← ih]
      cases k with
      | zero => exact signedValue_cons hred.1
      | succ k => exact signedValue_cons hred.2

theorem decodeI64_eq (h : body ≠ []) (h8 : body.length ≤ 8) :
    decodeI64 body = .ok (signedValue body) := by
  cases body with
  | nil => exact absurd rfl h
  | cons b rest =>
    have hfill := signedValue_fill h (8 - (b :: rest).length)
    rw [headD_cons] at hfill
    rw [decodeI64, if_neg (not_lt.mpr h8)]
    dsimp only
    have hlen (fill : UInt8) : (replicate (8 - (b :: rest).length) fill ++ b :: rest).length = 8 := by
      rw [length_append, length_replicate]
      omega
    rw [fromBeBytes_eq (hlen _), hfill]

theorem length_signedSpan (v : Int) : 1 ≤ (signedSpan v).length ∧ (signedSpan v).length ≤ 8 := by
  have hlen : (toBeBytes v).length = 8 := length_beOctets _ _
  have h := @length_dropRedundant (toBeBytes v) (fun e => by simp [e] at hlen)
  rwa [hlen] at h

theorem decodeI64_signedSpan (hlo : -9223372036854775808 ≤ v) (hhi : v < 9223372036854775808) :
    decodeI64 (signedSpan v) = .ok v := by
  obtain ⟨h₁, h₈⟩ := length_signedSpan v
  rw [decodeI64_eq (ne_nil_of_length_pos h₁) h₈, signedSpan, signedValue_dropRedundant,
    signedValue_toBeBytes hlo hhi]

theorem length_tlv_signedSpan (tag : Tag) (v : Int) : (tlv tag (signedSpan v)).length = i64Len v := by
  rw [length_tlv, i64Len]

theorem Reader.i64_tlv {rest : Octets} {a : Nat} (hlo : -9223372036854775808 ≤ v)
    (hhi : v < 9223372036854775808) :
    Reader.i64 ⟨a, Snmp.tlv tag (signedSpan v) ++ rest⟩ tag = .ok (v, ⟨a + i64Len v, rest⟩) := by
  have hlen := (length_signedSpan v).2
  simp only [Reader.i64, Reader.expect_tlv (show (signedSpan v).length < 4294967296 by omega), bind,
    Except.bind, decodeI64_signedSpan hlo hhi]
  rfl

/-! ## Unsigned integers -/

/-- The content octets of an unsigned value. -/
def unsignedSpan (v : Nat) : Octets :=
  let content := (beOctets 8 v).drop (min ((64 - v.size) / 8) 7)
  if content.headD 0 &&& 0x80 != 0 then 0 :: content else content

theorem writeU64_eq (out : Octets) (tag : Tag) (v : Nat) :
    writeU64 out tag v = out ++ tlv tag (unsignedSpan v) := by
  have hlen : ((beOctets 8 v).drop (min ((64 - v.size) / 8) 7)).length =
      8 - min ((64 - v.size) / 8) 7 := by
    rw [length_drop, length_beOctets]
  unfold writeU64 unsignedSpan
  dsimp only
  generalize (beOctets 8 v).drop (min ((64 - v.size) / 8) 7) = content at hlen ⊢
  rw [writeHeader_eq, ← hlen, tlv]
  cases content.headD 0 &&& 0x80 != 0 <;> simp

end Sonda.Snmp
