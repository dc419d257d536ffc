import Mathlib.Data.List.Basic
import Mathlib.Data.List.Induction
import Sonda.Framework.Digits

/-!
# Decimal texts

`decimal n` is `n` in decimal, as octets, and `decimalValue` the number a run of
digits stands for. A run of digits without a leading zero is the decimal text of
its value (`Canonical.decimal_eq`), so a text that ends with a number splits into
a lead and that number: a lead before a decimal text is part of a larger number
(`lead_of_decimal_eq`), and the least number with that lead ends in `0`
(`Lead.decimal_eq`).
-/

namespace Sonda.Framework

open List Nat

variable {t ds : List UInt8} {n d : Nat} {b : UInt8}

def octetOf (c : Char) : UInt8 := UInt8.ofNat c.toNat

/-- `n` in decimal, without leading zeros. -/
def decimal (n : Nat) : List UInt8 := (Nat.toDigits 10 n).map octetOf

def isDigit (b : UInt8) : Bool := 0x30 ≤ b && b ≤ 0x39

def digitValue (b : UInt8) : Nat := b.toNat - 0x30

def decimalValue (ds : List UInt8) : Nat := ofBe 10 (ds.map digitValue)

/-- What a reader of numbers without leading zeros accepts. -/
structure Canonical (ds : List UInt8) : Prop where
  ne_nil : ds ≠ []
  digits : ∀ b ∈ ds, isDigit b = true
  head : 1 < ds.length → ds.head? ≠ some 0x30

/-- Digits that a number may go on with. -/
structure Lead (t : List UInt8) : Prop where
  digits : ∀ b ∈ t, isDigit b = true
  head : t.head? ≠ some 0x30

theorem octetOf_digitChar : ∀ d < 10, octetOf d.digitChar = UInt8.ofNat (0x30 + d) := by decide

theorem decimal_of_lt (h : n < 10) : decimal n = [UInt8.ofNat (0x30 + n)] := by
  rw [decimal, toDigits_of_lt_base h, map_singleton, octetOf_digitChar n h]

theorem decimal_of_le (h : 10 ≤ n) :
    decimal n = decimal (n / 10) ++ [UInt8.ofNat (0x30 + n % 10)] := by
  rw [decimal, toDigits_of_base_le (by decide) h, map_append, map_singleton,
    octetOf_digitChar _ (mod_lt _ (by decide)), decimal]

/-! ## The value of a run of digits -/

theorem isDigit_iff : isDigit b = true ↔ 0x30 ≤ b.toNat ∧ b.toNat ≤ 0x39 := by
  simp only [isDigit, Bool.and_eq_true, decide_eq_true_eq, UInt8.le_iff_toNat_le]
  rfl

theorem digitValue_ofNat (h : d < 10) : digitValue (UInt8.ofNat (0x30 + d)) = d := by
  rw [digitValue, UInt8.toNat_ofNat', mod_eq_of_lt (by omega)]
  omega

theorem isDigit_ofNat (h : d < 10) : isDigit (UInt8.ofNat (0x30 + d)) = true := by
  rw [isDigit_iff, UInt8.toNat_ofNat', mod_eq_of_lt (by omega)]
  omega

theorem ofNat_digitValue (h : isDigit b = true) : UInt8.ofNat (0x30 + digitValue b) = b := by
  rw [isDigit_iff] at h
  apply UInt8.toNat_inj.mp
  rw [UInt8.toNat_ofNat', digitValue]
  omega

theorem digitValue_lt (h : isDigit b = true) : digitValue b < 10 := by
  rw [isDigit_iff] at h
  rw [digitValue]
  omega

theorem digitValue_eq_zero (h : isDigit b = true) : digitValue b = 0 ↔ b = 0x30 := by
  constructor
  · intro h0
    rw [← ofNat_digitValue h, h0]
    rfl
  · rintro rfl
    rfl

theorem decimalValue_append (p q : List UInt8) :
    decimalValue (p ++ q) = decimalValue p * 10 ^ q.length + decimalValue q := by
  rw [decimalValue, map_append, ofBe, foldl_append, foldl_pushDigit, length_map]
  rfl

theorem decimalValue_singleton (b : UInt8) : decimalValue [b] = digitValue b := by
  simp [decimalValue, ofBe, pushDigit]

theorem decimalValue_le_append (p q : List UInt8) : decimalValue q ≤ decimalValue (p ++ q) := by
  rw [decimalValue_append]
  omega

theorem decimalValue_decimal (n : Nat) : decimalValue (decimal n) = n := by
  induction n using Nat.strongRecOn with
  | _ n ih =>
    by_cases h : n < 10
    · rw [decimal_of_lt h, decimalValue_singleton, digitValue_ofNat h]
    · rw [decimal_of_le (by omega), decimalValue_append, ih _ (by omega), decimalValue_singleton,
        digitValue_ofNat (mod_lt _ (by decide)), length_singleton]
      omega

theorem length_decimal_le {k : Nat} (hk : 0 < k) (h : n < 10 ^ k) : (decimal n).length ≤ k := by
  induction k generalizing n with
  | zero => omega
  | succ k ih =>
    by_cases h10 : n < 10
    · rw [decimal_of_lt h10, length_singleton]
      omega
    · rw [decimal_of_le (by omega), length_append, length_singleton]
      have hdiv : n / 10 < 10 ^ k := by
        exact Nat.div_lt_of_lt_mul (by omega)
      have hpos : 0 < k := by
        rw [pos_iff_ne_zero]
        rintro rfl
        omega
      have := ih hpos hdiv
      omega

theorem decimalValue_lt (h : ∀ b ∈ ds, isDigit b = true) : decimalValue ds < 10 ^ ds.length := by
  have hdigits : ∀ d ∈ ds.map digitValue, d < 10 := by
    intro d hd
    obtain ⟨b, hb, rfl⟩ := mem_map.mp hd
    exact digitValue_lt (h b hb)
  have hlt := ofBe_lt (by decide) hdigits
  rwa [length_map] at hlt

/-! ## Canonical texts -/

theorem decimal_ne_nil (n : Nat) : decimal n ≠ [] := by
  by_cases h : n < 10
  · rw [decimal_of_lt h]
    simp
  · rw [decimal_of_le (by omega)]
    simp

theorem isDigit_of_mem_decimal (hb : b ∈ decimal n) : isDigit b = true := by
  induction n using Nat.strongRecOn with
  | _ n ih =>
    by_cases h : n < 10
    · rw [decimal_of_lt h, mem_singleton] at hb
      rw [hb]
      exact isDigit_ofNat h
    · rw [decimal_of_le (by omega), mem_append, mem_singleton] at hb
      rcases hb with hb | rfl
      · exact ih _ (by omega) hb
      · exact isDigit_ofNat (mod_lt _ (by decide))

theorem lt_pow_length_decimal (n : Nat) : n < 10 ^ (decimal n).length := by
  have h : decimalValue (decimal n) < _ := decimalValue_lt fun _ hb => isDigit_of_mem_decimal hb
  rwa [decimalValue_decimal] at h

theorem head_decimal (h : 0 < n) : (decimal n).head? ≠ some 0x30 := by
  induction n using Nat.strongRecOn with
  | _ n ih =>
    by_cases h10 : n < 10
    · rw [decimal_of_lt h10, head?_cons]
      intro hn
      have := (digitValue_eq_zero (isDigit_ofNat h10)).mpr (Option.some.inj hn)
      rw [digitValue_ofNat h10] at this
      omega
    · rw [decimal_of_le (by omega), head?_append_of_ne_nil _ (decimal_ne_nil _)]
      exact ih _ (by omega) (by omega)

theorem canonical_decimal (n : Nat) : Canonical (decimal n) where
  ne_nil := decimal_ne_nil n
  digits _ hb := isDigit_of_mem_decimal hb
  head h := by
    apply head_decimal
    rw [pos_iff_ne_zero]
    rintro rfl
    exact absurd h (by decide)

theorem Canonical.lead (h : Canonical (t ++ [b])) : Lead t where
  digits c hc := h.digits c (mem_append_left _ hc)
  head ht := by
    cases t with
    | nil => cases ht
    | cons c t => exact h.head (by simp) ht

theorem Lead.canonical (h : Lead t) (hb : isDigit b = true) :
    Canonical (t ++ [b]) where
  ne_nil := by simp
  digits c hc := by
    rw [mem_append, mem_singleton] at hc
    rcases hc with hc | rfl
    · exact h.digits c hc
    · exact hb
  head hl := by
    cases t with
    | nil => simp at hl
    | cons c t => exact h.head

theorem Canonical.decimalValue_pos (h : Canonical ds) (h0 : ds.head? ≠ some 0x30) :
    0 < decimalValue ds := by
  cases ds with
  | nil => exact absurd rfl h.ne_nil
  | cons b ds =>
    have hb := h.digits b mem_cons_self
    have hpos : digitValue b ≠ 0 := fun hz => h0 (congrArg some ((digitValue_eq_zero hb).mp hz))
    rw [← singleton_append, decimalValue_append, decimalValue_singleton]
    have := mul_pos (pos_of_ne_zero hpos) (pow_pos (n := ds.length) (a := 10) (by decide))
    omega

/-- Digits without a leading zero are the decimal text of their value. -/
theorem Canonical.decimal_eq (h : Canonical ds) : decimal (decimalValue ds) = ds := by
  induction ds using reverseRecOn with
  | nil => exact absurd rfl h.ne_nil
  | append_singleton t b ih =>
    have hb := h.digits b (by simp)
    have hlt := digitValue_lt hb
    rw [decimalValue_append, decimalValue_singleton, length_singleton, pow_one]
    by_cases ht : t = []
    · rw [ht]
      show decimal (0 * 10 + digitValue b) = [b]
      rw [zero_mul, zero_add, decimal_of_lt hlt, ofNat_digitValue hb]
    · have hcanonical : Canonical t := ⟨ht, h.lead.digits, fun _ => h.lead.head⟩
      have hpos := hcanonical.decimalValue_pos h.lead.head
      rw [decimal_of_le (by omega),
        show (decimalValue t * 10 + digitValue b) / 10 = decimalValue t by omega,
        show (decimalValue t * 10 + digitValue b) % 10 = digitValue b by omega,
        ih hcanonical, ofNat_digitValue hb]

/-! ## Leads -/

/-- What stands before a number at the end of a number. -/
theorem lead_of_decimal_eq {i j : Nat} (h : decimal i = t ++ decimal j) :
    Lead t ∧ decimalValue t * 10 ≤ i := by
  have hi := canonical_decimal i
  rw [h] at hi
  constructor
  · constructor
    · intro b hb
      exact hi.digits b (mem_append_left _ hb)
    · intro ht
      have hne : t ≠ [] := by
        rintro rfl
        cases ht
      refine hi.head ?_ (by rw [head?_append_of_ne_nil _ hne]; exact ht)
      have := length_pos_of_ne_nil hne
      have := length_pos_of_ne_nil (decimal_ne_nil j)
      rw [length_append]
      omega
  · have hval := decimalValue_decimal i
    rw [h, decimalValue_append] at hval
    have hlen := length_pos_of_ne_nil (decimal_ne_nil j)
    have hpow : 10 ^ 1 ≤ 10 ^ (decimal j).length := Nat.pow_le_pow_right (by decide) hlen
    have := mul_le_mul_left (decimalValue t) hpow
    omega

/-- The least number with a lead. -/
theorem Lead.decimal_eq (h : Lead t) : decimal (decimalValue t * 10) = t ++ [0x30] := by
  have hc := (h.canonical (b := 0x30) rfl).decimal_eq
  rw [decimalValue_append] at hc
  exact hc

end Sonda.Framework
