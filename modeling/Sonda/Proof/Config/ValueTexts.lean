import Mathlib.Data.Fintype.EquivFin
import Sonda.Framework.Bits
import Sonda.Impl.Config.Overlaps

/-!
# The texts of counters and random spikes

A text is a counter's value when what follows the lead reads as a number below the
cardinality (`counterIndex_eq_some`), and a random spike's when what follows it
reads as a hash whose index is (`shapeHash_eq_some`, `randomSpikeIndex_eq`): the
mixer is a bijection (`splitmix64Inverse_splitmix64`).
-/

namespace Sonda.Config

open Framework List

variable {lead value : Text} {digits : Text}

theorem stripPrefix_eq_some {lead text rest : Text} :
    stripPrefix lead text = some rest ↔ text = lead ++ rest := by
  unfold stripPrefix
  split
  · rename_i h
    obtain ⟨tail, rfl⟩ := isPrefixOf_iff_prefix.mp h
    rw [drop_left, Option.some.injEq, append_cancel_left_eq]
  · rename_i h
    constructor
    · nofun
    · rintro rfl
      exact absurd (List.isPrefixOf_iff_prefix.mpr (prefix_append _ _)) h

theorem stripPrefix_append (lead rest : Text) : stripPrefix lead (lead ++ rest) = some rest :=
  stripPrefix_eq_some.mpr rfl

/-! ## The mixer -/

theorem toNat_shift {bit : Nat} (h : bit < 64) : (UInt64.ofNat bit).toNat % 64 = bit := by
  rw [UInt64.toNat_ofNat', Nat.mod_eq_of_lt (show bit < 2 ^ 64 by omega), Nat.mod_eq_of_lt h]

/-- The loop ends at the number once all its bits are known. -/
theorem unxorshiftFrom_eq {x y : UInt64} {shift fuel known : Nat} (hlt : shift < 64)
    (hfuel : 64 ≤ fuel * shift + known)
    (h : ∀ i, 64 ≤ i + known → x.toNat.testBit i = y.toNat.testBit i) :
    unxorshiftFrom (y ^^^ y >>> UInt64.ofNat shift) shift fuel known x = y := by
  fun_induction unxorshiftFrom _ shift fuel known x with
  | case1 known x =>
    exact UInt64.toNat_inj.mp (Nat.eq_of_testBit_eq fun i => h i (by omega))
  | case2 known x fuel hk ih =>
    refine ih (by rw [Nat.succ_mul] at hfuel; omega) fun i hi => ?_
    simp only [UInt64.toNat_xor, UInt64.toNat_shiftRight, toNat_shift hlt]
    exact testBit_round h hi
  | case3 known x fuel hk =>
    exact UInt64.toNat_inj.mp (Nat.eq_of_testBit_eq fun i => h i (by omega))

theorem unxorshift_xor {shift : Nat} (hpos : 1 ≤ shift) (hlt : shift ≤ 63) (x : UInt64) :
    unxorshift (x ^^^ x >>> UInt64.ofNat shift) shift = x := by
  refine unxorshiftFrom_eq (by omega) (by omega) fun i hi => ?_
  have hzero : ∀ i, 64 ≤ i + 0 → Nat.testBit 0 i = x.toNat.testBit i := fun i hi =>
    ((Nat.testBit_lt_two_pow (Nat.lt_of_lt_of_le x.toNat_lt (Nat.pow_le_pow_right (by omega) hi))).trans
      (Nat.zero_testBit i).symm).symm
  have h := testBit_round (s := shift) hzero (i := i) (by omega)
  rw [UInt64.toNat_xor, UInt64.toNat_shiftRight, toNat_shift (by omega)]
  simpa using h

/-- A step squares the error. -/
theorem newton_step {a x c k : UInt64} (h : 1 - a * x = c * k) :
    1 - a * (x * (2 - a * x)) = c * c * (k * k) := by
  grind

theorem odd_square {a : UInt64} (ha : a % 2 = 1) : ∃ k, 1 - a * a = 8 * k := by
  obtain ⟨c, rfl | rfl⟩ : ∃ c, a = 4 * c + 1 ∨ a = 4 * c + 3 := by
    have hodd : a.toNat % 2 = 1 := congrArg UInt64.toNat ha
    have hlt := a.toNat_lt
    refine ⟨a / 4, ?_⟩
    simp only [← UInt64.toNat_inj, UInt64.toNat_add, UInt64.toNat_mul, UInt64.toNat_div, UInt64.reduceToNat]
    omega
  · exact ⟨-(2 * c * c + c), by grind⟩
  · exact ⟨-(2 * c * c + 3 * c + 1), by grind⟩

theorem mul_inverseOfOdd {a : UInt64} (ha : a % 2 = 1) : a * inverseOfOdd a = 1 := by
  obtain ⟨k, hk⟩ := odd_square ha
  have h := newton_step (newton_step (newton_step (newton_step (newton_step hk))))
  change 1 - a * inverseOfOdd a = _ at h
  grind

theorem splitmix64Inverse_splitmix64 (z : UInt64) : splitmix64Inverse (splitmix64 z) = z := by
  have hmul {a : UInt64} (ha : a % 2 = 1) (z : UInt64) : z * a * inverseOfOdd a = z := by
    rw [UInt64.mul_assoc, mul_inverseOfOdd ha, UInt64.mul_one]
  have h31 (x : UInt64) : unxorshift (x ^^^ x >>> 31) 31 = x := unxorshift_xor (by decide) (by decide) x
  have h27 (x : UInt64) : unxorshift (x ^^^ x >>> 27) 27 = x := unxorshift_xor (by decide) (by decide) x
  have h30 (x : UInt64) : unxorshift (x ^^^ x >>> 30) 30 = x := unxorshift_xor (by decide) (by decide) x
  unfold splitmix64Inverse splitmix64 splitmix64Mix1Inverse splitmix64Mix2Inverse
  dsimp only
  rw [h31, hmul (by decide), h27, hmul (by decide), h30, UInt64.add_sub_cancel]

/-- The mixer is injective on finitely many words. -/
theorem splitmix64_splitmix64Inverse (z : UInt64) : splitmix64 (splitmix64Inverse z) = z := by
  have : Finite UInt64 := .of_injective UInt64.toFin fun _ _ => UInt64.toFin_inj.mp
  obtain ⟨y, rfl⟩ := Finite.surjective_of_injective
    (Function.LeftInverse.injective splitmix64Inverse_splitmix64) z
  rw [splitmix64Inverse_splitmix64]

/-- The shifts, the odd factors and so the mixer are undone. -/
theorem mixer_inverted :
    (∀ shift : Nat, 1 ≤ shift → shift ≤ 63 → ∀ x : UInt64,
      unxorshift (x ^^^ x >>> UInt64.ofNat shift) shift = x) ∧
    (∀ a : UInt64, a % 2 = 1 → a * inverseOfOdd a = 1) ∧
    Function.LeftInverse splitmix64Inverse splitmix64 ∧
    Function.RightInverse splitmix64Inverse splitmix64 :=
  ⟨fun _ => unxorshift_xor, fun _ => mul_inverseOfOdd, splitmix64Inverse_splitmix64,
    splitmix64_splitmix64Inverse⟩

/-- The index of a hash is the one number that has it. -/
theorem randomSpikeIndex_eq {seed hash index : UInt64} :
    randomSpikeIndex seed hash = index ↔ randomSpikeHash seed index = hash := by
  unfold randomSpikeIndex randomSpikeHash
  constructor
  · rintro rfl
    rw [UInt64.xor_comm seed, UInt64.xor_assoc, UInt64.xor_self, UInt64.xor_zero,
      splitmix64_splitmix64Inverse]
  · rintro rfl
    rw [splitmix64Inverse_splitmix64, UInt64.xor_comm seed, UInt64.xor_assoc, UInt64.xor_self,
      UInt64.xor_zero]

/-! ## Numbers -/

theorem parseU128_eq_some {n : Nat} :
    parseU128 digits = some n ↔ decimalValue digits = n ∧ n < 2 ^ 128 := by
  unfold parseU128
  split
  · rename_i h
    rw [Option.some.injEq]
    constructor
    · rintro rfl
      exact ⟨rfl, h⟩
    · exact And.left
  · rename_i h
    constructor
    · nofun
    · rintro ⟨rfl, hn⟩
      exact absurd hn h

theorem canonical_iff :
    (!digits.isEmpty && digits.all isDigit && (digits == [0x30] || digits.head? != some 0x30)) = true ↔
      Canonical digits := by
  rw [Bool.and_eq_true, Bool.and_eq_true, Bool.or_eq_true, all_eq_true, Bool.not_eq_true',
    isEmpty_eq_false_iff, beq_iff_eq, bne_iff_ne]
  constructor
  · rintro ⟨⟨hne, hall⟩, hhead⟩
    refine ⟨hne, hall, fun hlen => ?_⟩
    rcases hhead with rfl | hhead
    · exact absurd hlen (by decide)
    · exact hhead
  · intro h
    refine ⟨⟨h.ne_nil, h.digits⟩, ?_⟩
    by_cases hlen : 1 < digits.length
    · exact .inr (h.head hlen)
    · obtain ⟨d, rfl⟩ : ∃ d, digits = [d] := by
        rw [← length_eq_one_iff]
        have := length_pos_of_ne_nil h.ne_nil
        omega
      by_cases hd : d = 0x30
      · exact .inl (by rw [hd])
      · exact .inr (by simpa using hd)

/-- A counter's values, by their numbers. -/
theorem counterIndex_eq_some {n : Nat} :
    counterIndex lead value = some n ↔ value = lead ++ decimal n ∧ n < 2 ^ 128 := by
  unfold counterIndex
  rw [Option.bind_eq_some_iff]
  constructor
  · rintro ⟨digits, hdigits, hn⟩
    split at hn
    · rename_i hc
      obtain ⟨rfl, hlt⟩ := parseU128_eq_some.mp hn
      rw [(canonical_iff.mp hc).decimal_eq]
      exact ⟨stripPrefix_eq_some.mp hdigits, hlt⟩
    · cases hn
  · rintro ⟨rfl, hlt⟩
    refine ⟨decimal n, stripPrefix_append _ _, ?_⟩
    rw [if_pos (canonical_iff.mpr (canonical_decimal n))]
    exact parseU128_eq_some.mpr ⟨decimalValue_decimal n, hlt⟩

theorem counterIndex_any {cardinality : UInt64} :
    (counterIndex lead value).any (fun i => decide (i < cardinality.toNat)) = true ↔
      CounterValue lead cardinality value := by
  rw [Option.any_eq_true]
  constructor
  · rintro ⟨i, hi, hlt⟩
    exact ⟨i, of_decide_eq_true hlt, (counterIndex_eq_some.mp hi).1⟩
  · rintro ⟨i, hlt, heq⟩
    have := cardinality.toNat_lt
    exact ⟨i, counterIndex_eq_some.mpr ⟨heq, by omega⟩, decide_eq_true hlt⟩

/-! ## Hexadecimal texts -/

theorem hexDigit_octet : ∀ d < 16,
    isLowerHexDigit (octetOf d.digitChar) = true ∧ hexValue (octetOf d.digitChar) = d := by decide

theorem octetOf_hexDigit : ∀ d < 16,
    octetOf d.digitChar = UInt8.ofNat (if d < 10 then 0x30 + d else 0x57 + d) := by decide

theorem isLowerHexDigit_iff {b : UInt8} :
    isLowerHexDigit b = true ↔ 0x30 ≤ b.toNat ∧ b.toNat ≤ 0x39 ∨ 0x61 ≤ b.toNat ∧ b.toNat ≤ 0x66 := by
  rw [isLowerHexDigit, Bool.or_eq_true, isDigit_iff, Bool.and_eq_true, decide_eq_true_eq,
    decide_eq_true_eq, UInt8.le_iff_toNat_le, UInt8.le_iff_toNat_le]
  rfl

theorem octet_hexDigit {b : UInt8} (h : isLowerHexDigit b = true) :
    hexValue b < 16 ∧ octetOf (hexValue b).digitChar = b := by
  rw [isLowerHexDigit_iff] at h
  have hvalue : hexValue b = if b.toNat ≤ 0x39 then b.toNat - 0x30 else b.toNat - 0x57 := by
    unfold hexValue
    by_cases hd : b.toNat ≤ 0x39
    · rw [if_pos hd, if_pos (isDigit_iff.mpr (by omega))]
    · rw [if_neg hd, if_neg (fun hd' => hd (isDigit_iff.mp hd').2)]
  have hlt : hexValue b < 16 := by
    rw [hvalue]
    split <;> omega
  refine ⟨hlt, ?_⟩
  rw [octetOf_hexDigit _ hlt]
  apply UInt8.toNat_inj.mp
  rw [UInt8.toNat_ofNat', hvalue]
  split <;> split <;> omega

theorem length_hex16 (n : UInt64) : (hex16 n).length = 16 := by
  rw [hex16, length_map, length_beDigits]

theorem isLowerHex_hex16 (n : UInt64) : isLowerHex (hex16 n) = true := by
  rw [isLowerHex, all_eq_true]
  intro b hb
  obtain ⟨d, hd, rfl⟩ := mem_map.mp hb
  exact (hexDigit_octet d (lt_of_mem_beDigits (by decide) hd)).1

theorem parseHex_hex16 (n : UInt64) : parseHex (hex16 n) = some n := by
  have hmap : (hex16 n).map hexValue = beDigits 16 16 n.toNat := by
    rw [hex16, map_map]
    exact map_congr_left fun d hd => (hexDigit_octet d (lt_of_mem_beDigits (by decide) hd)).2
  have hlt := n.toNat_lt
  unfold parseHex
  rw [hmap, ofBe_beDigits (by omega), if_pos hlt, UInt64.ofNat_toNat]

/-- Sixteen hexadecimal digits are those of a number. -/
theorem exists_hex16 (hlen : digits.length = 16) (hhex : isLowerHex digits = true) :
    ∃ n, digits = hex16 n := by
  rw [isLowerHex, all_eq_true] at hhex
  have hdigits : ∀ d ∈ digits.map hexValue, d < 16 := by
    intro d hd
    obtain ⟨b, hb, rfl⟩ := mem_map.mp hd
    exact (octet_hexDigit (hhex b hb)).1
  have hlt := ofBe_lt (by decide) hdigits
  rw [length_map, hlen] at hlt
  refine ⟨UInt64.ofNat (ofBe 16 (digits.map hexValue)), ?_⟩
  have hback := beDigits_ofBe (by decide) hdigits
  rw [length_map, hlen] at hback
  rw [hex16, UInt64.toNat_ofNat', Nat.mod_eq_of_lt (by omega), hback, map_map]
  conv_lhs => rw [← map_id digits]
  exact map_congr_left fun b hb => ((octet_hexDigit (hhex b hb)).2).symm

theorem hasShape_iff : hasShape lead value = true ↔ ∃ n, value = lead ++ hex16 n := by
  rw [hasShape, Option.any_eq_true]
  constructor
  · rintro ⟨rest, hrest, hs⟩
    rw [Bool.and_eq_true, beq_iff_eq] at hs
    obtain ⟨n, rfl⟩ := exists_hex16 hs.1 hs.2
    exact ⟨n, stripPrefix_eq_some.mp hrest⟩
  · rintro ⟨n, rfl⟩
    refine ⟨hex16 n, stripPrefix_append _ _, ?_⟩
    rw [length_hex16, isLowerHex_hex16]
    rfl

theorem shapeHash_eq_some {n : UInt64} :
    shapeHash lead value = some n ↔ value = lead ++ hex16 n := by
  have happend (m : UInt64) : shapeHash lead (lead ++ hex16 m) = some m := by
    rw [shapeHash, hasShape_iff.mpr ⟨m, rfl⟩, drop_left, parseHex_hex16]
    rfl
  constructor
  · intro h
    have hs : hasShape lead value = true := by
      by_contra hs
      rw [shapeHash, Bool.not_eq_true _ |>.mp hs] at h
      cases h
    obtain ⟨m, rfl⟩ := hasShape_iff.mp hs
    rw [happend] at h
    rw [Option.some.inj h]
  · rintro rfl
    exact happend n

theorem hex16_inj {m n : UInt64} (h : hex16 m = hex16 n) : m = n := by
  have hm := parseHex_hex16 m
  rw [h, parseHex_hex16] at hm
  exact (Option.some.inj hm).symm

theorem shapeHash_any {seed cardinality : UInt64} :
    (shapeHash lead value).any (fun hash => decide (randomSpikeIndex seed hash < cardinality)) = true ↔
      RandomValue lead seed cardinality value := by
  rw [Option.any_eq_true]
  constructor
  · rintro ⟨hash, hh, hlt⟩
    refine ⟨randomSpikeIndex seed hash, of_decide_eq_true hlt, ?_⟩
    rw [randomSpikeValue, randomSpikeIndex_eq.mp rfl]
    exact shapeHash_eq_some.mp hh
  · rintro ⟨i, hi, rfl⟩
    refine ⟨randomSpikeHash seed i, shapeHash_eq_some.mpr rfl, ?_⟩
    rw [randomSpikeIndex_eq.mpr rfl]
    exact decide_eq_true hi

end Sonda.Config
