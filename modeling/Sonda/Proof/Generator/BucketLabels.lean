import Mathlib.Data.Rat.Encodable
import Sonda.Framework.Fallible
import Sonda.Impl.Generator.Histogram

/-!
# The labels of a histogram's buckets

The `le` labels of buckets that `validate_buckets` accepts are pairwise distinct
(`leValues_nodup`), up to the bounds that `as i64` saturates at: two of those share one label.
-/

namespace Sonda.Generator

open Framework
open Config (Text)

/-- What `Display` writes for the finite `f64`s. -/
structure Displays (display : F64 → Text) : Prop where
  injective : ∀ p q : ℚ, display (.finite p) = display (.finite q) → p = q
  /-- A fraction has its decimal point. -/
  point : ∀ q : ℚ, q.isInt = false → 0x2e ∈ display (.finite q)

/-- A whole bound that converts to `i64::MAX`; every `f64` of that size is whole. -/
def F64.Saturates : F64 → Prop
  | .finite q => q.isInt = true ∧ 0x7fffffffffffffff ≤ q
  | _ => False

/-- A positive number, below another one. -/
def F64.Below (a b : F64) : Prop := ∃ p q : ℚ, a = .finite p ∧ b = .finite q ∧ 0 < p ∧ p < q

variable {display : F64 → Text} {buckets : List F64}

theorem checkBounds_ok {i : ℕ} (h : checkBounds display i buckets = .ok ()) :
    ∀ b ∈ buckets, ∃ q : ℚ, b = .finite q ∧ 0 < q := by
  fun_induction checkBounds display i buckets with
  | case1 => simp
  | case2 i b rest hb ih =>
    refine List.forall_mem_cons.mpr ⟨?_, ih h⟩
    unfold F64.isPositive at hb
    split at hb
    · exact ⟨_, rfl, of_decide_eq_true hb⟩
    · cases hb
  | case3 => cases h

theorem checkSorted_ok (hpos : ∀ b ∈ buckets, ∃ q : ℚ, b = .finite q ∧ 0 < q)
    (h : checkSorted display buckets = .ok ()) : buckets.Pairwise F64.Below := by
  fun_induction checkSorted display buckets with
  | case1 => cases h
  | case2 a b rest hle ih =>
    obtain ⟨p, rfl, hp⟩ := hpos a (.head _)
    obtain ⟨q, rfl, -⟩ := hpos b (.tail _ (.head _))
    have hpq : p < q := not_le.mp fun hqp => hle (decide_eq_true hqp)
    grind [F64.Below, List.pairwise_cons]
  | case3 => exact .nil
  | case4 => exact List.pairwise_singleton ..

theorem validateBuckets_ok (h : validateBuckets display buckets = .ok ()) :
    (∀ b ∈ buckets, ∃ q : ℚ, b = .finite q ∧ 0 < q) ∧ buckets.Pairwise F64.Below := by
  rw [validateBuckets] at h
  split at h
  · cases h
  obtain ⟨_, hbounds, h⟩ := bind_ok h
  exact ⟨checkBounds_ok hbounds, checkSorted_ok (checkBounds_ok hbounds) h⟩

/-! ## Two labels -/

theorem exists_nat {q : ℚ} (hq : q.isInt = true) (h0 : 0 < q) : ∃ n : ℕ, q = n := by
  have hval : (q.num : ℚ) = q := Rat.coe_int_num_of_den_eq_one (of_decide_eq_true hq)
  exact ⟨q.num.toNat, by rw [← Int.cast_natCast, Int.toNat_of_nonneg (Rat.num_nonneg.mpr h0.le), hval]⟩

/-- A whole bound is written as a number of at most `i64::MAX`. -/
theorem formatLeValue_natCast (n : ℕ) :
    formatLeValue display (.finite n) = decimal (min n 0x7fffffffffffffff) := by
  have hi : asI64 n = (min n 0x7fffffffffffffff : ℕ) := by
    simp only [asI64, Rat.num_natCast, Rat.den_natCast, Nat.cast_one, Int.tdiv_one]
    omega
  rw [formatLeValue, if_pos (by rfl), showI64, hi, if_neg (by omega), Int.natAbs_natCast]
  rfl

theorem saturates_natCast (n : ℕ) : F64.Saturates (.finite n) ↔ 0x7fffffffffffffff ≤ n := by
  rw [F64.Saturates, and_iff_right (by rfl)]
  norm_cast

theorem point_mem (hd : Displays display) {q : ℚ} (hq : q.isInt = false) :
    0x2e ∈ formatLeValue display (.finite q) := by
  simpa [formatLeValue, hq] using hd.point q hq

theorem point_not_mem_decimal (n : ℕ) : 0x2e ∉ decimal n :=
  fun h => absurd (isDigit_of_mem_decimal h) (by decide)

/-- Two bounds share a label only where both saturate. -/
theorem formatLeValue_eq_iff (hd : Displays display) {p q : ℚ} (h0 : 0 < p) (hlt : p < q) :
    formatLeValue display (.finite p) = formatLeValue display (.finite q) ↔
      F64.Saturates (.finite p) ∧ F64.Saturates (.finite q) := by
  cases hp : p.isInt <;> cases hq : q.isInt
  case true.true =>
    obtain ⟨m, rfl⟩ := exists_nat hp h0
    obtain ⟨n, rfl⟩ := exists_nat hq (h0.trans hlt)
    rw [formatLeValue_natCast, formatLeValue_natCast, saturates_natCast, saturates_natCast]
    have hmn : m < n := by exact_mod_cast hlt
    constructor
    · intro h
      have hmin := congrArg decimalValue h
      rw [decimalValue_decimal, decimalValue_decimal] at hmin
      omega
    · intro h
      rw [min_eq_right h.1, min_eq_right h.2]
  -- a fraction has a label of its own
  all_goals
    refine iff_of_false (fun h => ?_) (by simp [F64.Saturates, hp, hq])
  case false.false =>
    simp only [formatLeValue, hp, hq] at h
    exact hlt.ne (hd.injective p q h)
  case false.true =>
    obtain ⟨n, rfl⟩ := exists_nat hq (h0.trans hlt)
    exact point_not_mem_decimal _ (formatLeValue_natCast n ▸ h ▸ point_mem hd hp)
  case true.false =>
    obtain ⟨m, rfl⟩ := exists_nat hp h0
    exact point_not_mem_decimal _ (formatLeValue_natCast m ▸ h ▸ point_mem hd hq)

theorem formatLeValue_ne_inf (hd : Displays display) {q : ℚ} (h0 : 0 < q) :
    formatLeValue display (.finite q) ≠ infBucket := by
  intro h
  cases hq : q.isInt
  · exact absurd (h ▸ point_mem hd hq) (by decide)
  · obtain ⟨n, rfl⟩ := exists_nat hq h0
    have hplus : 0x2b ∈ decimal (min n 0x7fffffffffffffff) := by
      rw [← formatLeValue_natCast, h, infBucket]
      exact .head _
    exact absurd (isDigit_of_mem_decimal hplus) (by decide)

/-! ## The list of labels -/

/-- The labels of accepted buckets are distinct exactly when no two bounds saturate. -/
theorem leValues_nodup (hd : Displays display) (h : validateBuckets display buckets = .ok ()) :
    (leValues display buckets).Nodup ↔
      buckets.Pairwise fun a b => ¬(F64.Saturates a ∧ F64.Saturates b) := by
  obtain ⟨hpos, hbelow⟩ := validateBuckets_ok h
  have hinf : infBucket ∉ buckets.map (formatLeValue display) := by
    intro hmem
    obtain ⟨b, hb, he⟩ := List.mem_map.mp hmem
    obtain ⟨q, rfl, h0⟩ := hpos b hb
    exact formatLeValue_ne_inf hd h0 he
  rw [leValues, List.perm_append_comm.nodup_iff, List.singleton_append, List.nodup_cons,
    and_iff_right hinf, List.Nodup, List.pairwise_map]
  refine ⟨fun h => (hbelow.and h).imp ?_, fun h => (hbelow.and h).imp ?_⟩
  all_goals
    rintro _ _ ⟨⟨p, q, rfl, rfl, h0, hlt⟩, hne⟩
    simpa [formatLeValue_eq_iff hd h0 hlt] using hne

/-- A way to show numbers: a half as it is shown, and any other one by its place in an
enumeration, after a point. -/
def enumerated : F64 → Text
  | .finite q => if q = 1 / 2 then [0x30, 0x2e, 0x35] else 0x2e :: decimal (Encodable.encode q)
  | _ => []

theorem enumerated_displays : Displays enumerated where
  injective p q h := by
    simp only [enumerated] at h
    split at h <;> split at h
    · exact ‹p = _›.trans ‹q = _›.symm
    · cases h
    · cases h
    · have hcode := congrArg decimalValue (List.cons.inj h).2
      rw [decimalValue_decimal, decimalValue_decimal] at hcode
      exact Encodable.encode_injective hcode
  point q _ := by
    simp only [enumerated]
    split
    · decide
    · exact .head _

/-- The labels of `0.5`, `2` and `10` are distinct. -/
theorem leValues_nodup_small :
    validateBuckets enumerated [.finite (1 / 2), .finite 2, .finite 10] = .ok () ∧
      (leValues enumerated [.finite (1 / 2), .finite 2, .finite 10]).Nodup := by
  have h : validateBuckets enumerated [.finite (1 / 2), .finite 2, .finite 10] = .ok () :=
    ok_of_toOption (by decide +kernel)
  refine ⟨h, (leValues_nodup enumerated_displays h).mpr ?_⟩
  norm_num [F64.Saturates]

/-- The bounds `2^63` and `2^64` share the label of `i64::MAX`. -/
theorem leValues_shared :
    validateBuckets enumerated [.finite (2 ^ 63), .finite (2 ^ 64)] = .ok () ∧
      ¬(leValues enumerated [.finite (2 ^ 63), .finite (2 ^ 64)]).Nodup :=
  ⟨ok_of_toOption (by decide), by decide⟩

end Sonda.Generator
