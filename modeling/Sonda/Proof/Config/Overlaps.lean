import Sonda.Proof.Config.ValueTexts

/-!
# How value sets meet

Each pair of parts is decided by arithmetic on what the parts are made of: two random
spikes by the least exclusive or (`randomSpikesMeet_iff`), two counters by the number
their leads differ in (`countersShare_iff`), a counter and a shape by the least number
of the right length (`counterMeetsShape_iff`). `ValuePart.meets_cases` says what each
answer means for a pair of parts, and `meets_spec` for two sets.
-/

namespace Sonda.Config

open Framework UInt64
open List hiding set

variable {cardinality : UInt64} {a b : Text} {digits : Text} {bit : Nat} {n m : UInt64} {k : Nat}

/-! ## Two random spikes -/

/-- The bit that the walk compares. -/
theorem toNat_bit (x : UInt64) (h : bit < 64) :
    (x >>> UInt64.ofNat bit &&& 1).toNat = (x.toNat.testBit bit).toNat := by
  rw [UInt64.toNat_and, UInt64.toNat_shiftRight, toNat_shift h, Nat.toNat_testBit, Nat.shiftRight_eq_div_pow]
  exact Nat.and_one_is_mod _

/-- A set bit below a multiple of twice its weight. -/
theorem toNat_or_bit {smallest : UInt64} (h : bit < 64) (hdvd : 2 ^ (bit + 1) ∣ smallest.toNat) :
    (smallest ||| 1 <<< UInt64.ofNat bit).toNat = smallest.toNat + 2 ^ bit := by
  obtain ⟨q, hq⟩ := hdvd
  have hpow : 2 ^ bit < 2 ^ 64 := Nat.pow_lt_pow_right (by decide) h
  have hlt : 2 ^ bit < 2 ^ (bit + 1) := Nat.pow_lt_pow_right (by decide) (Nat.lt_succ_self bit)
  rw [UInt64.toNat_or, UInt64.toNat_shiftLeft, toNat_shift h, hq, Nat.mul_comm, ← Nat.shiftLeft_eq,
    show UInt64.toNat 1 = 1 from rfl, Nat.shiftLeft_eq 1, Nat.one_mul, Nat.mod_eq_of_lt hpow,
    Nat.shiftLeft_add_eq_or_of_lt hlt]

theorem minXorFrom_eq (limit c : UInt64) (h : bit ≤ 64) {smallest : UInt64}
    (hdvd : 2 ^ bit ∣ smallest.toNat) :
    (minXorFrom limit c bit smallest).toNat =
      smallest.toNat + leastXor bit limit.toNat c.toNat := by
  induction bit generalizing smallest with
  | zero => rfl
  | succ bit ih =>
    have hdvd' : 2 ^ bit ∣ smallest.toNat := Nat.dvd_trans (Nat.pow_dvd_pow 2 (Nat.le_succ bit)) hdvd
    rw [minXorFrom, leastXor]
    simp only [GT.gt, lt_iff_toNat_lt, toNat_bit _ (show bit < 64 by omega)]
    by_cases hc : c.toNat.testBit bit = true <;> by_cases hl : limit.toNat.testBit bit = true <;>
      simp only [hc, hl, if_true, Bool.toNat_true, Bool.false_eq_true, if_false, Bool.toNat_false,
        Nat.lt_irrefl, Nat.not_lt_zero, Nat.zero_lt_one, Nat.add_zero]
    · exact ih (by omega) hdvd'
    · have hor := toNat_or_bit (show bit < 64 by omega) hdvd
      rw [ih (by omega), hor]
      · omega
      · rw [hor]
        exact Nat.dvd_add hdvd' (Nat.dvd_refl _)
    · exact ih (by omega) hdvd'

theorem toNat_pos {n : UInt64} (h : n ≠ 0) : 0 < n.toNat := by
  rw [Nat.pos_iff_ne_zero]
  exact fun h0 => h (UInt64.toNat_inj.mp h0)

theorem randomSpikesMeet_iff {count otherCount seeds : UInt64} :
    randomSpikesMeet count otherCount seeds = true ↔ ∃ i < count, i ^^^ seeds < otherCount := by
  unfold randomSpikesMeet minXorBelow
  by_cases h0 : count = 0
  · rw [if_pos h0, h0]
    constructor
    · nofun
    · rintro ⟨i, hi, -⟩
      exact absurd hi (by rw [lt_iff_toNat_lt]; exact Nat.not_lt_zero _)
  have hpos := toNat_pos h0
  have hlimit : (count - 1).toNat = count.toNat - 1 :=
    UInt64.toNat_sub_of_le _ _ (by rw [UInt64.le_iff_toNat_le]; exact hpos)
  have hmod (x : UInt64) : x.toNat % 2 ^ 64 = x.toNat := Nat.mod_eq_of_lt x.toNat_lt
  have hmin := minXorFrom_eq (count - 1) seeds (Nat.le_refl 64) (show 2 ^ 64 ∣ UInt64.toNat 0 from ⟨0, rfl⟩)
  rw [show UInt64.toNat 0 = 0 from rfl, Nat.zero_add] at hmin
  rw [if_neg h0, Option.any_some, decide_eq_true_eq, lt_iff_toNat_lt, hmin]
  constructor
  · intro h
    obtain ⟨i, hi, heq⟩ := exists_leastXor 64 (count - 1).toNat seeds.toNat
    have hcount := count.toNat_lt
    have hnat : (UInt64.ofNat i).toNat = i := by
      rw [toNat_ofNat', Nat.mod_eq_of_lt (by omega)]
    refine ⟨UInt64.ofNat i, ?_, ?_⟩
    · rw [lt_iff_toNat_lt, hnat]
      omega
    · rw [lt_iff_toNat_lt, UInt64.toNat_xor, hnat]
      rw [hmod] at heq
      omega
  · rintro ⟨i, hi, hlt⟩
    rw [lt_iff_toNat_lt] at hi hlt
    have hle := leastXor_le 64 (count - 1).toNat seeds.toNat i.toNat (by rw [hmod, hlimit]; omega)
    rw [hmod, ← UInt64.toNat_xor] at hle
    omega

/-- Indices of two seeds give one hash. -/
theorem randomSpikeHash_eq {x y i j : UInt64} :
    randomSpikeHash x i = randomSpikeHash y j ↔ j = i ^^^ (x ^^^ y) := by
  have hcancel (k : UInt64) : y ^^^ (y ^^^ k) = k := by
    rw [← UInt64.xor_assoc, UInt64.xor_self, UInt64.zero_xor]
  have hassoc : i ^^^ (x ^^^ y) = y ^^^ (x ^^^ i) := by ac_rfl
  rw [hassoc]
  constructor
  · intro h
    have hmix := congrArg splitmix64Inverse h
    rw [randomSpikeHash, randomSpikeHash, splitmix64Inverse_splitmix64,
      splitmix64Inverse_splitmix64] at hmix
    rw [hmix, hcancel]
  · rintro rfl
    rw [randomSpikeHash, randomSpikeHash, hcancel]

/-- Random spikes share a value when they have one lead and an index of each gives
one hash. -/
theorem random_share {x y n m : UInt64} : (a == b && randomSpikesMeet n m (x ^^^ y)) = true ↔
      ∃ v, RandomValue a x n v ∧ RandomValue b y m v := by
  rw [Bool.and_eq_true, beq_iff_eq, randomSpikesMeet_iff]
  constructor
  · rintro ⟨rfl, i, hi, hj⟩
    refine ⟨randomSpikeValue a x i, ⟨i, hi, rfl⟩, i ^^^ (x ^^^ y), hj, ?_⟩
    rw [randomSpikeValue, randomSpikeValue, randomSpikeHash_eq.mpr rfl]
  · rintro ⟨v, ⟨i, hi, rfl⟩, j, hj, heq⟩
    obtain ⟨rfl, hhex⟩ := append_inj' heq (by rw [length_hex16, length_hex16])
    refine ⟨rfl, i, hi, ?_⟩
    rw [← randomSpikeHash_eq.mp (hex16_inj hhex)]
    exact hj

/-! ## Two counters -/

/-- The counter with the shorter lead holds a value of the other when the rest of the
other's lead starts one of its numbers. -/
theorem counter_share_of_le (h : a.length ≤ b.length) :
    (∃ v, CounterValue a n v ∧ CounterValue b m v) ↔
      0 < m.toNat ∧ ∃ q, b = a ++ q ∧ Lead q ∧ decimalValue q * 10 < n.toNat := by
  constructor
  · rintro ⟨v, ⟨i, hi, heqi⟩, j, hj, heqj⟩
    obtain ⟨q, rfl⟩ : a <+: b :=
      prefix_of_prefix_length_le (heqi ▸ prefix_append _ _) (heqj ▸ prefix_append _ _) h
    have hboth : a ++ decimal i = a ++ (q ++ decimal j) := by rw [← heqi, heqj, append_assoc]
    have htail := append_cancel_left hboth
    obtain ⟨hlead, hle⟩ := lead_of_decimal_eq htail
    exact ⟨by omega, q, rfl, hlead, by omega⟩
  · rintro ⟨hm, q, rfl, hlead, hlt⟩
    refine ⟨a ++ q ++ [0x30], ⟨_, hlt, ?_⟩, 0, hm, rfl⟩
    rw [hlead.decimal_eq, append_assoc]

/-- No multiple that fits a count leaves the `u128`s. -/
theorem parseU128_any (hk : 0 < k) {n : UInt64} : ((parseU128 digits).any fun lead =>
        decide (lead * k < 2 ^ 128) && decide (lead * k < n.toNat)) = true ↔
      decimalValue digits * k < n.toNat := by
  rw [Option.any_eq_true]
  constructor
  · rintro ⟨lead, hlead, hlt⟩
    rw [Bool.and_eq_true, decide_eq_true_eq, decide_eq_true_eq] at hlt
    rw [(parseU128_eq_some.mp hlead).1]
    exact hlt.2
  · intro hlt
    have hn := n.toNat_lt
    have hle := Nat.le_mul_of_pos_right (decimalValue digits) hk
    refine ⟨decimalValue digits, parseU128_eq_some.mpr ⟨rfl, by omega⟩, ?_⟩
    rw [Bool.and_eq_true, decide_eq_true_eq, decide_eq_true_eq]
    omega

theorem lead_iff : (!digits.all isDigit || digits.head? == some 0x30) = false ↔ Lead digits := by
  rw [Bool.or_eq_false_iff, Bool.not_eq_false', all_eq_true, beq_eq_false_iff_ne]
  exact ⟨fun h => ⟨h.1, h.2⟩, fun h => ⟨h.digits, h.head⟩⟩

/-- The check of the digits that one text has over the other. -/
theorem leads_iff (hk : 0 < k) {n : UInt64} :
    (if !digits.all isDigit || digits.head? == some 0x30 then false
      else (parseU128 digits).any fun lead =>
        decide (lead * k < 2 ^ 128) && decide (lead * k < n.toNat)) = true ↔
      Lead digits ∧ decimalValue digits * k < n.toNat := by
  rw [← lead_iff]
  cases !digits.all isDigit || digits.head? == some 0x30 with
  | true => exact ⟨nofun, fun h => nomatch h.1⟩
  | false =>
    rw [if_neg Bool.false_ne_true, parseU128_any hk]
    exact ⟨fun hlt => ⟨rfl, hlt⟩, And.right⟩

theorem countersShare_of_le (h : a.length ≤ b.length) :
    countersShare (a, n) (b, m) = true ↔ ∃ v, CounterValue a n v ∧ CounterValue b m v := by
  rw [counter_share_of_le h, countersShare]
  simp only [if_pos h]
  by_cases h0 : n = 0 ∨ m = 0
  · rw [if_pos (by rwa [Bool.or_eq_true, beq_iff_eq, beq_iff_eq])]
    constructor
    · nofun
    · rintro ⟨hm, q, -, -, hlt⟩
      rcases h0 with rfl | rfl
      · exact absurd hlt (Nat.not_lt_zero _)
      · exact absurd hm (Nat.not_lt_zero _)
  rw [if_neg (by rwa [Bool.or_eq_true, beq_iff_eq, beq_iff_eq])]
  rw [not_or] at h0
  have hn := toNat_pos h0.1
  have hm := toNat_pos h0.2
  cases hs : stripPrefix a b with
  | none =>
    constructor
    · nofun
    · rintro ⟨-, q, rfl, -, -⟩
      rw [stripPrefix_append] at hs
      cases hs
  | some digits =>
    obtain rfl := stripPrefix_eq_some.mp hs
    have hrest : (∃ q, a ++ digits = a ++ q ∧ Lead q ∧ decimalValue q * 10 < n.toNat) ↔
        Lead digits ∧ decimalValue digits * 10 < n.toNat := by
      constructor
      · rintro ⟨q, hq, hlead⟩
        obtain rfl := append_cancel_left hq
        exact hlead
      · exact fun hlead => ⟨digits, rfl, hlead⟩
    simp only [hrest, hm, true_and]
    by_cases hnil : digits = []
    · subst hnil
      exact ⟨fun _ => ⟨⟨fun b hb => absurd hb (not_mem_nil), by simp⟩, by
        simpa [decimalValue, ofBe] using hn⟩, fun _ => rfl⟩
    rw [if_neg (by rwa [List.isEmpty_iff])]
    exact leads_iff (by decide)

theorem countersShare_iff :
    countersShare (a, n) (b, m) = true ↔ ∃ v, CounterValue a n v ∧ CounterValue b m v := by
  rcases Nat.lt_or_ge b.length a.length with h | h
  · have hswap : countersShare (a, n) (b, m) = countersShare (b, m) (a, n) := by
      unfold countersShare
      simp only [if_neg (Nat.not_le_of_lt h), if_pos (Nat.le_of_lt h)]
    rw [hswap, countersShare_of_le (Nat.le_of_lt h)]
    simp only [and_comm]
  · exact countersShare_of_le h

/-! ## A counter and a shape -/

/-- The least number with `k` digits. -/
theorem length_decimal_least (hk : 0 < k) :
    (decimal (if k = 1 then 0 else 10 ^ (k - 1))).length = k := by
  by_cases h1 : k = 1
  · rw [if_pos h1, h1]
    rfl
  rw [if_neg h1]
  have hle : (decimal (10 ^ (k - 1))).length ≤ k :=
    length_decimal_le hk (Nat.pow_lt_pow_right (by decide) (by omega))
  have hlt := (Nat.pow_lt_pow_iff_right (by decide)).mp (lt_pow_length_decimal (10 ^ (k - 1)))
  omega

theorem least_le_of_length {i k : Nat} (h : (decimal i).length = k) :
    (if k = 1 then 0 else 10 ^ (k - 1)) ≤ i := by
  split
  · exact Nat.zero_le i
  · by_contra hlt
    have hpos := length_pos_of_ne_nil (decimal_ne_nil i)
    have := length_decimal_le (show 0 < k - 1 by omega) (Nat.lt_of_not_le hlt)
    omega

theorem isLowerHex_decimal (i : Nat) : isLowerHex (decimal i) = true := by
  rw [isLowerHex, all_eq_true]
  intro b hb
  rw [isLowerHexDigit, isDigit_of_mem_decimal hb]
  rfl

theorem isLowerHex_append {s t : Text} :
    isLowerHex (s ++ t) = true ↔ isLowerHex s = true ∧ isLowerHex t = true := by
  rw [isLowerHex, all_append, Bool.and_eq_true]
  rfl

/-- A counter holds a value that is `shape` followed by 16 hexadecimal digits. -/
def HoldsShape (lead : Text) (cardinality : UInt64) (shape : Text) : Prop :=
  ∃ v, CounterValue lead cardinality v ∧ hasShape shape v = true

theorem hasShape_append {shape rest : Text} :
    hasShape shape (shape ++ rest) = true ↔ rest.length = 16 ∧ isLowerHex rest = true := by
  rw [hasShape, stripPrefix_append, Option.any_some, Bool.and_eq_true, beq_iff_eq]

/-- A lead that goes on from the shape leaves digits of the hash to the number. -/
theorem holdsShape_of_tail {shape tail : Text} (h : tail.length < 16) :
    HoldsShape (shape ++ tail) cardinality shape ↔ isLowerHex tail = true ∧
      (if 16 - tail.length = 1 then 0 else 10 ^ (16 - tail.length - 1)) < cardinality.toNat := by
  constructor
  · rintro ⟨v, ⟨i, hi, rfl⟩, hs⟩
    rw [append_assoc, hasShape_append, length_append, isLowerHex_append] at hs
    have hle := least_le_of_length (show (decimal i).length = 16 - tail.length by omega)
    exact ⟨hs.2.1, by omega⟩
  · rintro ⟨hhex, hlt⟩
    refine ⟨_, ⟨_, hlt, rfl⟩, ?_⟩
    have hlen := length_decimal_least (show 0 < 16 - tail.length by omega)
    rw [append_assoc, hasShape_append, length_append, isLowerHex_append, hlen]
    exact ⟨by omega, hhex, isLowerHex_decimal _⟩

/-- A shape that goes on from the lead starts the number. -/
theorem holdsShape_of_front {lead front : Text} (h : front ≠ []) :
    HoldsShape lead cardinality (lead ++ front) ↔ Lead front ∧
      decimalValue front * 10 ^ 16 < cardinality.toNat := by
  constructor
  · rintro ⟨v, ⟨i, hi, rfl⟩, hs⟩
    obtain ⟨m, hm⟩ := hasShape_iff.mp hs
    rw [append_assoc] at hm
    have heq := append_cancel_left hm
    have hc := canonical_decimal i
    have hval := decimalValue_decimal i
    rw [heq] at hc hval
    rw [decimalValue_append, length_hex16] at hval
    refine ⟨⟨fun b hb => hc.digits b (mem_append_left _ hb), fun hhead => ?_⟩, by omega⟩
    refine hc.head ?_ (by rw [head?_append_of_ne_nil _ h]; exact hhead)
    rw [length_append, length_hex16]
    omega
  · rintro ⟨hlead, hlt⟩
    have hzero : hex16 0 = replicate 16 0x30 := by decide
    have hc : Canonical (front ++ hex16 0) := by
      refine ⟨by simp [h], fun b hb => ?_, fun _ => ?_⟩
      · rcases mem_append.mp hb with hb | hb
        · exact hlead.digits b hb
        · rw [hzero] at hb
          rw [eq_of_mem_replicate hb]
          rfl
      · rw [head?_append_of_ne_nil _ h]
        exact hlead.head
    have hval : decimalValue (front ++ hex16 0) = decimalValue front * 10 ^ 16 := by
      rw [decimalValue_append, length_hex16, show decimalValue (hex16 0) = 0 by decide, Nat.add_zero]
    refine ⟨_, ⟨_, hlt, rfl⟩, hasShape_iff.mpr ⟨0, ?_⟩⟩
    rw [← hval, hc.decimal_eq, append_assoc]

theorem counterMeetsShape_iff {lead shape : Text} :
    counterMeetsShape lead cardinality shape = true ↔ HoldsShape lead cardinality shape := by
  unfold counterMeetsShape
  dsimp only
  split
  · constructor
    · nofun
    · rintro ⟨v, ⟨i, hi, rfl⟩, hs⟩
      obtain ⟨m, hm⟩ := hasShape_iff.mp hs
      have hl := congrArg length hm
      rw [length_append, length_append, length_hex16] at hl
      have := length_pos_of_ne_nil (decimal_ne_nil i)
      omega
  rename_i hlen
  split
  · rename_i tail htail
    obtain rfl := stripPrefix_eq_some.mp htail
    rw [length_append] at hlen ⊢
    rw [holdsShape_of_tail (by omega), show shape.length + 16 - (shape.length + tail.length)
      = 16 - tail.length by omega]
    cases hhex : isLowerHex tail with
    | false =>
      constructor
      · nofun
      · exact fun h => absurd h.1 Bool.false_ne_true
    | true =>
      rw [if_neg (by decide), Bool.and_eq_true, decide_eq_true_eq, decide_eq_true_eq]
      have hn := cardinality.toNat_lt
      exact ⟨fun h => ⟨rfl, h.2⟩, fun h => ⟨by omega, h.2⟩⟩
  rename_i htail
  split
  · rename_i front hfront
    obtain rfl := stripPrefix_eq_some.mp hfront
    have hne : front ≠ [] := by
      rintro rfl
      rw [append_nil, stripPrefix_eq_some.mpr (append_nil lead).symm] at htail
      cases htail
    rw [holdsShape_of_front hne]
    exact leads_iff (by decide)
  · rename_i hfront
    -- one of the two would start the other if they started one text
    constructor
    · nofun
    · rintro ⟨v, ⟨i, hi, heq⟩, hs⟩
      obtain ⟨m, hm⟩ := hasShape_iff.mp hs
      have hl : lead <+: v := heq ▸ prefix_append _ _
      have hsv : shape <+: v := hm ▸ prefix_append _ _
      rcases prefix_or_prefix_of_prefix hl hsv with ⟨t, ht⟩ | ⟨t, ht⟩
      · rw [stripPrefix_eq_some.mpr ht.symm] at hfront
        cases hfront
      · rw [stripPrefix_eq_some.mpr ht.symm] at htail
        cases htail

/-! ## Overlaps -/

namespace Overlap

variable {overlaps : List Overlap}

theorem rank_inj {a b : Overlap} (h : a.rank = b.rank) : a = b := by
  cases a <;> cases b <;> first | rfl | cases h

theorem rank_max (a b : Overlap) : (max a b).rank = Nat.max a.rank b.rank := by
  cases a <;> cases b <;> rfl

theorem le_best {o : Overlap} (h : o ∈ overlaps) : o.rank ≤ (best overlaps).rank := by
  induction overlaps with
  | nil => cases h
  | cons a rest ih =>
    rw [best, foldr_cons, rank_max]
    rcases mem_cons.mp h with rfl | h
    · exact Nat.le_max_left _ _
    · exact Nat.le_trans (ih h) (Nat.le_max_right _ _)

theorem best_mem (h : best overlaps ≠ disjoint) : best overlaps ∈ overlaps := by
  induction overlaps with
  | nil => exact absurd rfl h
  | cons a rest ih =>
    rw [best, foldr_cons, max] at h ⊢
    split
    · rename_i hle
      rw [if_pos hle] at h
      exact mem_cons_of_mem _ (ih h)
    · exact mem_cons_self

theorem best_eq_certain : best overlaps = certain ↔ certain ∈ overlaps := by
  constructor
  · intro h
    rw [← h]
    exact best_mem (by rw [h]; decide)
  · intro h
    have hle := le_best h
    cases hb : best overlaps <;> rw [hb] at hle <;> first | rfl | exact absurd hle (by decide)

theorem best_eq_disjoint : best overlaps = disjoint ↔ ∀ o ∈ overlaps, o = disjoint := by
  constructor
  · intro h o ho
    have hle := le_best ho
    rw [h] at hle
    exact rank_inj (Nat.le_zero.mp hle)
  · intro h
    by_contra hne
    exact hne (h _ (best_mem hne))

/-- The answer of an exact comparison. -/
def Tells (o : Overlap) (P : Prop) : Prop := o = certain ∧ P ∨ o = disjoint ∧ ¬ P

theorem Tells.unique {o o' : Overlap} {P : Prop} (h : Tells o P) (h' : Tells o' P) : o = o' := by
  rcases h with h | h <;> rcases h' with h' | h'
  · exact h.1.trans h'.1.symm
  · exact absurd h.2 h'.2
  · exact absurd h'.2 h.2
  · exact h.1.trans h'.1.symm

theorem best_map_cases {α : Type} {f : α → Overlap} {P : α → Prop} (hf : ∀ x, Tells (f x) (P x))
    (xs : List α) : Tells (best (xs.map f)) (∃ x ∈ xs, P x) := by
  by_cases h : ∃ x ∈ xs, P x
  · obtain ⟨x, hx, hp⟩ := h
    have hc : f x = certain := (hf x).elim And.left fun hd => absurd hp hd.2
    exact .inl ⟨best_eq_certain.mpr (mem_map.mpr ⟨x, hx, hc⟩), x, hx, hp⟩
  · refine .inr ⟨best_eq_disjoint.mpr fun o ho => ?_, h⟩
    obtain ⟨x, hx, rfl⟩ := mem_map.mp ho
    exact (hf x).elim (fun hc => absurd ⟨x, hx, hc.2⟩ h) And.left

/-- The best of some answers is the best of the same answers in another order. -/
theorem best_congr {l l' : List Overlap} (h : ∀ o, o ∈ l ↔ o ∈ l') : best l = best l' := by
  have hle {l l' : List Overlap} (h : ∀ o ∈ l, o ∈ l') : (best l).rank ≤ (best l').rank := by
    by_cases hd : best l = disjoint
    · rw [hd]
      exact Nat.zero_le _
    · exact le_best (h _ (best_mem hd))
  exact rank_inj (Nat.le_antisymm (hle fun o => (h o).mp) (hle fun o => (h o).mpr))

theorem Tells.ite {found : Bool} {P : Prop} (h : found = true ↔ P) :
    Tells (if found then certain else disjoint) P := by
  cases found with
  | true => exact .inl ⟨rfl, h.mp rfl⟩
  | false => exact .inr ⟨rfl, fun hp => Bool.false_ne_true (h.mpr hp)⟩

end Overlap

/-! ## Parts -/

namespace ValuePart

/-- The part gives an event `value`. -/
def Holds : ValuePart → Text → Prop
  | listed vs, value => value ∈ vs
  | counter lead cardinality, value => CounterValue lead cardinality value
  | random lead seed cardinality, value => RandomValue lead seed cardinality value

def Share (p q : ValuePart) : Prop := ∃ v, p.Holds v ∧ q.Holds v

/-- A counter and a random spike of too many values to try, with a value of the spike's
shape in the counter. -/
def ShapePair : ValuePart → ValuePart → Prop
  | counter lead cardinality, random shape _ count
  | random shape _ count, counter lead cardinality =>
    maxEnumeratedSpike < count ∧ HoldsShape lead cardinality shape
  | _, _ => False

theorem share_comm {p q : ValuePart} : Share p q ↔ Share q p :=
  exists_congr fun _ => and_comm

theorem tells_comm {o : Overlap} {p q : ValuePart} (h : o.Tells (Share p q)) : o.Tells (Share q p) := by
  rwa [share_comm]

theorem meetsValue_cases (p : ValuePart) (value : Text) :
    Overlap.Tells (p.meetsValue value) (p.Holds value) := by
  apply Overlap.Tells.ite
  cases p with
  | listed vs =>
    rw [any_eq_true]
    constructor
    · rintro ⟨v, hv, heq⟩
      rw [← beq_iff_eq.mp heq]
      exact hv
    · exact fun hv => ⟨value, hv, beq_self_eq_true value⟩
  | counter lead cardinality => exact counterIndex_any
  | random lead seed cardinality => exact shapeHash_any

/-- A list of values against a part. -/
theorem listed_cases (vs : List Text) (p : ValuePart) :
    Overlap.Tells (Overlap.best (vs.map p.meetsValue)) (Share (listed vs) p) :=
  Overlap.best_map_cases p.meetsValue_cases vs

theorem holdsShape_of_share {lead shape : Text} {cardinality seed count : UInt64}
    (h : Share (counter lead cardinality) (random shape seed count)) :
    HoldsShape lead cardinality shape := by
  obtain ⟨v, hc, i, hi, rfl⟩ := h
  exact ⟨_, hc, hasShape_iff.mpr ⟨_, rfl⟩⟩

/-- A spike of few values is tried value by value. -/
theorem enumerated_iff {lead shape : Text} {cardinality seed count : UInt64} :
    ((List.range count.toNat).any fun i =>
        (counterIndex lead (randomSpikeValue shape seed (UInt64.ofNat i))).any fun n =>
          decide (n < cardinality.toNat)) = true ↔
      Share (counter lead cardinality) (random shape seed count) := by
  rw [any_eq_true]
  have hcount := count.toNat_lt
  constructor
  · rintro ⟨i, hi, hany⟩
    rw [mem_range] at hi
    refine ⟨_, counterIndex_any.mp hany, UInt64.ofNat i, ?_, rfl⟩
    rw [lt_iff_toNat_lt, toNat_ofNat', Nat.mod_eq_of_lt (by omega)]
    exact hi
  · rintro ⟨v, hc, i, hi, rfl⟩
    refine ⟨i.toNat, mem_range.mpr (lt_iff_toNat_lt.mp hi), ?_⟩
    rw [UInt64.ofNat_toNat]
    exact counterIndex_any.mpr hc

/-- What each answer means for two parts. -/
def Answers (p q : ValuePart) (o : Overlap) : Prop :=
  o = .certain ∧ Share p q ∨ o = .byShape ∧ ShapePair p q ∨ o = .disjoint ∧ ¬ Share p q

theorem counterMeetsRandom_cases (lead shape : Text) (cardinality seed count : UInt64) :
    Answers (counter lead cardinality) (random shape seed count)
      (counterMeetsRandom lead cardinality shape seed count) := by
  unfold counterMeetsRandom
  by_cases hmany : count > maxEnumeratedSpike
  · rw [if_pos hmany]
    by_cases hshape : counterMeetsShape lead cardinality shape = true
    · exact .inr (.inl ⟨if_pos hshape, hmany, counterMeetsShape_iff.mp hshape⟩)
    · refine .inr (.inr ⟨if_neg hshape, fun hs => hshape ?_⟩)
      exact counterMeetsShape_iff.mpr (holdsShape_of_share hs)
  · rw [if_neg hmany]
    have hiff : (counterMeetsShape lead cardinality shape && (range count.toNat).any fun i =>
        (counterIndex lead (randomSpikeValue shape seed (UInt64.ofNat i))).any fun n =>
          decide (n < cardinality.toNat)) = true ↔
        Share (counter lead cardinality) (random shape seed count) := by
      rw [Bool.and_eq_true, counterMeetsShape_iff, enumerated_iff]
      exact ⟨And.right, fun hs => ⟨holdsShape_of_share hs, hs⟩⟩
    rcases Overlap.Tells.ite hiff with h | h
    · exact .inl h
    · exact .inr (.inr h)

theorem meets_cases (p q : ValuePart) : Answers p q (p.meets q) := by
  have hexact {o : Overlap} (h : Overlap.Tells o (Share p q)) : Answers p q o := h.imp_right .inr
  cases p with
  | listed vs => cases q <;> exact hexact (listed_cases vs _)
  | counter a n =>
    cases q with
    | listed ws => exact hexact (tells_comm (listed_cases ws _))
    | counter b m => exact hexact (.ite countersShare_iff)
    | random b y m => exact counterMeetsRandom_cases a b n y m
  | random a x n =>
    cases q with
    | listed ws => exact hexact (tells_comm (listed_cases ws _))
    | counter b m =>
      unfold Answers
      rw [share_comm]
      exact counterMeetsRandom_cases b a m x n
    | random b y m => exact hexact (.ite random_share)

theorem meets_comm (p q : ValuePart) : p.meets q = q.meets p := by
  have hexact (p q : ValuePart) {o o' : Overlap} (h : o.Tells (Share p q)) (h' : o'.Tells (Share q p)) :
      o = o' := h.unique (tells_comm h')
  have hlisted (vs : List Text) (r : ValuePart) : (listed vs).meets r = r.meets (listed vs) := by
    cases r with
    | counter => rfl
    | random => rfl
    | listed ws => exact hexact _ _ (listed_cases vs _) (listed_cases ws _)
  cases p with
  | listed vs => exact hlisted vs q
  | counter a n =>
    cases q with
    | listed ws => exact (hlisted ws _).symm
    | random b y m => rfl
    | counter b m => exact hexact (counter a n) (counter b m) (.ite countersShare_iff) (.ite countersShare_iff)
  | random a x n =>
    cases q with
    | listed ws => exact (hlisted ws _).symm
    | counter b m => rfl
    | random b y m => exact hexact (random a x n) (random b y m) (.ite random_share) (.ite random_share)

end ValuePart

/-! ## Sets -/

namespace LabelValueSet

variable {a b : LabelValueSet} {value : Text}

theorem holds_single {part : ValuePart} : part.Holds value ↔ ∃ p ∈ [part], p.Holds value := by
  simp only [mem_singleton, exists_eq_left]

theorem holds_parts : (set : LabelValueSet) →
    (set.Holds value ↔ ∃ part ∈ set.parts, part.Holds value)
  | .static _ => by
    rw [parts, ← holds_single]
    exact mem_singleton.symm
  | .values _ | .counter _ _ => by
    rw [parts, ← holds_single]
    rfl
  | .spikeCounter _ _ none | .randomShape _ _ _ none => by
    rw [parts, ← holds_single]
    exact iff_of_eq (or_false _)
  | .spikeCounter _ _ (some set) | .randomShape _ _ _ (some set) => by
    rw [parts, exists_mem_cons_iff, ← holds_parts set]
    rfl

theorem holds_iff {set : LabelValueSet} :
    set.Holds value ↔ ∃ part ∈ set.parts, part.Holds value := holds_parts set

/-- A part of `a` and one of `b` are a counter and a random spike of too many values
to try, with a value of the spike's shape in the counter. -/
def ShapePair (a b : LabelValueSet) : Prop :=
  ∃ p ∈ a.parts, ∃ q ∈ b.parts, p.ShapePair q

/-- Some value is in both sets. -/
def Share (a b : LabelValueSet) : Prop := ∃ v, a.Holds v ∧ b.Holds v

theorem share_iff : Share a b ↔ ∃ p ∈ a.parts, ∃ q ∈ b.parts, p.Share q := by
  simp only [Share, holds_iff]
  constructor
  · rintro ⟨v, ⟨p, hp, hpv⟩, q, hq, hqv⟩
    exact ⟨p, hp, q, hq, v, hpv, hqv⟩
  · rintro ⟨p, hp, q, hq, v, hpv, hqv⟩
    exact ⟨v, ⟨p, hp, hpv⟩, q, hq, hqv⟩

theorem mem_answers {o : Overlap} : (o ∈ a.parts.flatMap fun mine => b.parts.map mine.meets) ↔
      ∃ p ∈ a.parts, ∃ q ∈ b.parts, p.meets q = o := by
  simp only [mem_flatMap, mem_map]

theorem meets_comm (a b : LabelValueSet) : a.meets b = b.meets a := by
  apply Overlap.best_congr
  intro o
  rw [mem_answers, mem_answers]
  constructor
  · rintro ⟨p, hp, q, hq, rfl⟩
    exact ⟨q, hq, p, hp, q.meets_comm p⟩
  · rintro ⟨q, hq, p, hp, rfl⟩
    exact ⟨p, hp, q, hq, p.meets_comm q⟩

theorem share_of_certain (h : a.meets b = .certain) : Share a b := by
  obtain ⟨p, hp, q, hq, hpq⟩ := mem_answers.mp (Overlap.best_eq_certain.mp h)
  rw [share_iff]
  refine ⟨p, hp, q, hq, ?_⟩
  simpa [ValuePart.Answers, hpq] using p.meets_cases q

theorem not_share_of_disjoint (h : a.meets b = .disjoint) : ¬ Share a b := by
  rw [share_iff]
  rintro ⟨p, hp, q, hq, hs⟩
  have hpq := Overlap.best_eq_disjoint.mp h _ (mem_answers.mpr ⟨p, hp, q, hq, rfl⟩)
  have hc := p.meets_cases q
  simp only [ValuePart.Answers, hpq, reduceCtorEq, false_and, true_and, false_or] at hc
  exact hc hs

theorem shapePair_of_byShape (h : a.meets b = .byShape) : ShapePair a b := by
  have hmem := Overlap.best_mem (show a.meets b ≠ .disjoint by rw [h]; decide)
  obtain ⟨p, hp, q, hq, hpq⟩ := mem_answers.mp hmem
  have hpq : p.meets q = .byShape := hpq.trans h
  refine ⟨p, hp, q, hq, ?_⟩
  simpa [ValuePart.Answers, hpq] using p.meets_cases q

theorem meetsValue_cases (set : LabelValueSet) (value : Text) :
    Overlap.Tells (set.meetsValue value) (set.Holds value) := by
  rw [holds_iff]
  exact Overlap.best_map_cases (fun part => part.meetsValue_cases value) set.parts

/-- What each answer means for two sets, and for a set and a value. -/
theorem meets_spec (a b : LabelValueSet) :
    a.meets b = b.meets a ∧
      (a.meets b = .certain → Share a b) ∧
      (a.meets b = .disjoint → ¬ Share a b) ∧
      (a.meets b = .byShape → ShapePair a b) ∧
      (¬ ShapePair a b → (a.meets b = .certain ↔ Share a b)) ∧
      ∀ value, (a.meetsValue value = .certain ↔ a.Holds value) ∧
        (¬ a.Holds value → a.meetsValue value = .disjoint) := by
  refine ⟨meets_comm a b, share_of_certain, not_share_of_disjoint, shapePair_of_byShape,
    fun hnone => ⟨share_of_certain, fun hs => ?_⟩, fun value => ?_⟩
  · cases hm : a.meets b with
    | certain => rfl
    | byShape => exact absurd (shapePair_of_byShape hm) hnone
    | disjoint => exact absurd hs (not_share_of_disjoint hm)
  · rcases a.meetsValue_cases value with hc | hd
    · exact ⟨⟨fun _ => hc.2, fun _ => hc.1⟩, fun hn => absurd hc.2 hn⟩
    · refine ⟨⟨fun hcertain => ?_, fun hv => absurd hv hd.2⟩, fun _ => hd.1⟩
      exact absurd (hcertain.symm.trans hd.1) (by decide)

/-- An answer by shape is one about a set that is compared by shape, and two sets that
are not have an exact answer. -/
theorem byShape_compared (a b : LabelValueSet) :
    (a.meets b = .byShape → (a.comparedByShape || b.comparedByShape) = true) ∧
      ((a.comparedByShape || b.comparedByShape) = false →
        (a.meets b = .certain ↔ Share a b) ∧ (a.meets b = .disjoint ↔ ¬ Share a b)) := by
  have hshape (h : a.meets b = .byShape) : (a.comparedByShape || b.comparedByShape) = true := by
    obtain ⟨p, hp, q, hq, hpair⟩ := shapePair_of_byShape h
    rw [Bool.or_eq_true, comparedByShape, comparedByShape, any_eq_true, any_eq_true]
    -- one is a counter and the other a random spike
    match p, q, hpair with
    | .counter .., .random .., hpair => exact .inr ⟨_, hq, decide_eq_true hpair.1⟩
    | .random .., .counter .., hpair => exact .inl ⟨_, hp, decide_eq_true hpair.1⟩
  refine ⟨hshape, fun hnone => ?_⟩
  cases hm : a.meets b with
  | certain => simp [share_of_certain hm]
  | byShape => exact absurd (hshape hm) (by simp [hnone])
  | disjoint => simp [not_share_of_disjoint hm]

end LabelValueSet

end Sonda.Config
