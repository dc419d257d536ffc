import Sonda.Impl.Config.SnmpCollision
import Sonda.Proof.Config.ValueTexts

/-!
# Sets of arcs

What the sets of `snmp_collision` hold. A counter holds an arc when the arc's
decimal text is one of its values (`counterHolds_iff`), and two counters that
hold one arc meet (`countersMeet_isSome`), in an arc of both (`countersMeet_holds`).
So `narrow` drops no arc that both sides hold (`contains_narrow`), adds none
(`contains_of_narrow`), and goes down when it changes a set (`narrow_down`);
`common` finds an arc whenever there is one (`common_isSome`, `common_holds`). The
set of a label holds the arcs its values are (`arc_ofLabel`).
-/

namespace Sonda.Config

open Framework Sonda.Snmp
open List hiding set

variable {short long : Text × UInt64} {a : Nat} {n : Nat} {value lead : Text} {c d : Text × UInt64}
  {cardinality : UInt64}

/-! ## Arcs as texts -/

theorem indexArc_canonical :
    indexArc value = some n ↔ Canonical value ∧ decimalValue value = n ∧ n < arcBound := by
  have hval : value.foldl (fun value b => value * 10 + (b.toNat - 0x30)) 0 = decimalValue value := by
    rw [decimalValue, ofBe, List.foldl_map]
    rfl
  have hall : value.all isAsciiDigit = true ↔ ∀ b ∈ value, isDigit b = true := List.all_eq_true
  unfold indexArc
  dsimp only
  rw [hval]
  split
  · rename_i h
    constructor
    · intro hn
      cases hn
    · rintro ⟨hc, -⟩
      exfalso
      simp only [Bool.or_eq_true, Bool.not_eq_true', Bool.and_eq_false_iff, Bool.not_eq_false',
        List.isEmpty_iff, Bool.and_eq_true, decide_eq_true_eq, beq_iff_eq] at h
      rcases h with (h | h) | h
      · exact hc.ne_nil h
      · rw [hall.mpr hc.digits] at h
        cases h
      · exact hc.head h.1 h.2
  · rename_i h
    simp only [Bool.or_eq_true, Bool.not_eq_true', Bool.and_eq_false_iff, Bool.not_eq_false',
      List.isEmpty_iff, Bool.and_eq_true, decide_eq_true_eq, beq_iff_eq, not_or, not_and,
      Bool.not_eq_false] at h
    have hc : Canonical value := ⟨h.1.1, hall.mp h.1.2, h.2⟩
    split
    · rename_i hlt
      rw [Option.some.injEq]
      exact ⟨fun hn => ⟨hc, hn, hn ▸ hlt⟩, fun hn => hn.2.1⟩
    · rename_i hlt
      constructor
      · intro hn
        cases hn
      · rintro ⟨-, rfl, hn⟩
        exact absurd hn hlt

/-- A label's value is an arc when it is the arc's decimal text. -/
theorem indexArc_eq_some : indexArc value = some n ↔ value = decimal n ∧ n < arcBound := by
  rw [indexArc_canonical]
  constructor
  · rintro ⟨hc, rfl, hn⟩
    exact ⟨hc.decimal_eq.symm, hn⟩
  · rintro ⟨rfl, hn⟩
    exact ⟨canonical_decimal n, decimalValue_decimal n, hn⟩

theorem indexArc_decimal (h : n < arcBound) : indexArc (decimal n) = some n :=
  indexArc_eq_some.mpr ⟨rfl, h⟩

/-- The number a text ends with is no larger than the text's. -/
theorem lt_of_decimal_eq {a i : Nat} (h : decimal a = lead ++ decimal i) (ha : a < arcBound) :
    i < arcBound := by
  have := decimalValue_le_append lead (decimal i)
  rw [← h, decimalValue_decimal, decimalValue_decimal] at this
  omega

theorem counterHolds_iff {arc : Nat} (ha : arc < arcBound) :
    counterHolds lead cardinality arc = true ↔ CounterValue lead cardinality (decimal arc) := by
  unfold counterHolds CounterValue
  constructor
  · intro h
    split at h
    · rename_i n hn
      obtain ⟨rest, hrest, hidx⟩ := Option.bind_eq_some_iff.mp hn
      obtain ⟨rfl, -⟩ := indexArc_eq_some.mp hidx
      exact ⟨n, of_decide_eq_true h, stripPrefix_eq_some.mp hrest⟩
    · cases h
  · rintro ⟨i, hi, heq⟩
    have hstrip : (stripPrefix lead (decimal arc)).bind indexArc = some i := by
      rw [stripPrefix_eq_some.mpr heq]
      exact indexArc_decimal (lt_of_decimal_eq heq ha)
    rw [hstrip]
    exact decide_eq_true hi

/-! ## Two counters -/

theorem goesOn_iff {q : Text} (h : 0 < cardinality.toNat) :
    goesOn q cardinality = true ↔ Lead q ∧ decimalValue q * 10 < cardinality.toNat := by
  have hdigits : q.all isAsciiDigit = true ↔ ∀ b ∈ q, isDigit b = true := all_eq_true
  have hq0 : decimalValue (q ++ [0x30]) = decimalValue q * 10 := by
    rw [decimalValue_append]
    rfl
  have hbound := cardinality.toNat_lt
  unfold goesOn
  by_cases hnil : q = []
  · rw [hnil]
    exact ⟨fun _ => ⟨⟨fun b hb => absurd hb not_mem_nil, by simp⟩, h⟩, fun _ => rfl⟩
  · have hempty : q.isEmpty = false := by simpa using hnil
    rw [hempty, Bool.false_or, Bool.and_eq_true, Bool.and_eq_true, bne_iff_ne, hdigits, parseU128, hq0]
    constructor
    · rintro ⟨⟨hhead, hall⟩, hany⟩
      refine ⟨⟨hall, hhead⟩, ?_⟩
      split at hany
      · simpa using hany
      · cases hany
    · rintro ⟨hlead, hlt⟩
      refine ⟨⟨hlead.head, hlead.digits⟩, ?_⟩
      rw [if_pos (by omega)]
      simpa using hlt

/-- The longer lead goes on from the shorter with digits that still number a
value of its counter. -/
theorem leadsMeet_eq_some : leadsMeet short long = some a ↔
      0 < long.2.toNat ∧ (∃ q, long.1 = short.1 ++ q ∧ Lead q ∧ decimalValue q * 10 < short.2.toNat) ∧
        indexArc (long.1 ++ [0x30]) = some a := by
  have hzero : ∀ c : UInt64, (c == 0) = true ↔ ¬ 0 < c.toNat := by
    intro c
    rw [beq_iff_eq, ← UInt64.toNat_inj, UInt64.toNat_zero]
    omega
  unfold leadsMeet
  split
  · rename_i h
    rw [Bool.or_eq_true, hzero, hzero] at h
    constructor
    · nofun
    · omega
  · rename_i hne
    rw [Bool.or_eq_true, hzero, hzero, not_or, not_not, not_not] at hne
    rw [Option.bind_eq_some_iff]
    constructor
    · rintro ⟨q, hq, ha⟩
      split at ha
      · rename_i hgoes
        exact ⟨hne.2, ⟨q, stripPrefix_eq_some.mp hq, (goesOn_iff hne.1).mp hgoes⟩, ha⟩
      · cases ha
    · rintro ⟨-, ⟨q, hq, hgoes⟩, ha⟩
      exact ⟨q, stripPrefix_eq_some.mpr hq, (if_pos ((goesOn_iff hne.1).mpr hgoes)).trans ha⟩

theorem leadsMeet_holds (h : leadsMeet short long = some a) :
    CounterValue short.1 short.2 (decimal a) ∧ CounterValue long.1 long.2 (decimal a) ∧ a < arcBound := by
  obtain ⟨hlong, ⟨q, hq, hlead, hlt⟩, ha⟩ := leadsMeet_eq_some.mp h
  obtain ⟨heq, hbound⟩ := indexArc_eq_some.mp ha
  refine ⟨⟨decimalValue q * 10, hlt, ?_⟩, ⟨0, hlong, heq.symm⟩, hbound⟩
  rw [← heq, hq, hlead.decimal_eq, append_assoc]

theorem leadsMeet_isSome (hle : short.1.length ≤ long.1.length) (ha : a < arcBound)
    (hs : CounterValue short.1 short.2 (decimal a)) (hl : CounterValue long.1 long.2 (decimal a)) :
    (leadsMeet short long).isSome = true := by
  obtain ⟨i, hi, heqi⟩ := hs
  obtain ⟨j, hj, heqj⟩ := hl
  obtain ⟨q, hq⟩ : short.1 <+: long.1 :=
    prefix_of_prefix_length_le (heqi ▸ prefix_append _ _) (heqj ▸ prefix_append _ _) hle
  have htail : decimal i = q ++ decimal j := by
    have hboth : short.1 ++ decimal i = short.1 ++ (q ++ decimal j) := by
      rw [← heqi, ← append_assoc, hq, heqj]
    exact append_cancel_left hboth
  obtain ⟨hlead, hlt⟩ := lead_of_decimal_eq htail
  obtain ⟨hwhole, hwholeLt⟩ := lead_of_decimal_eq heqj
  rw [Option.isSome_iff_exists]
  refine ⟨decimalValue long.1 * 10, leadsMeet_eq_some.mpr ⟨by omega, ⟨q, hq.symm, hlead, by omega⟩, ?_⟩⟩
  rw [← hwhole.decimal_eq]
  exact indexArc_decimal (by omega)

/-- Counters meet in an arc of both. -/
theorem countersMeet_holds (h : countersMeet c d = some a) :
    CounterValue c.1 c.2 (decimal a) ∧ CounterValue d.1 d.2 (decimal a) ∧ a < arcBound := by
  unfold countersMeet at h
  split at h
  · exact leadsMeet_holds h
  · obtain ⟨hd, hc, ha⟩ := leadsMeet_holds h
    exact ⟨hc, hd, ha⟩

/-- Counters that hold one arc meet. -/
theorem countersMeet_isSome (ha : a < arcBound) (hc : CounterValue c.1 c.2 (decimal a))
    (hd : CounterValue d.1 d.2 (decimal a)) : (countersMeet c d).isSome = true := by
  unfold countersMeet
  split
  · exact leadsMeet_isSome ‹_› ha hc hd
  · exact leadsMeet_isSome (by omega) ha hd hc

namespace ArcSet

variable {s other : ArcSet} {a : Nat} {arcs : ArcSet} {listed : Finset Nat} {lead : Text}
  {holds : Text → Prop} {cardinality : UInt64}

/-! ## What a set holds -/

/-- The set holds the arc `a`, a `u32`. -/
def Arc (s : ArcSet) (a : Nat) : Prop := s.contains a = true ∧ a < arcBound

/-- The listed arcs are `u32`s. -/
def Bounded (s : ArcSet) : Prop := ∀ a ∈ s.listed, a < arcBound

theorem contains_iff {s : ArcSet} (ha : a < arcBound) :
    s.contains a = true ↔ a ∈ s.listed ∨ ∃ c ∈ s.counters, CounterValue c.1 c.2 (decimal a) := by
  simp only [contains, Bool.or_eq_true, decide_eq_true_eq, any_eq_true, counterHolds_iff ha]

theorem arc_iff {s : ArcSet} :
    s.Arc a ↔ a < arcBound ∧ (a ∈ s.listed ∨ ∃ c ∈ s.counters, CounterValue c.1 c.2 (decimal a)) := by
  constructor
  · rintro ⟨hc, ha⟩
    exact ⟨ha, (contains_iff ha).mp hc⟩
  · rintro ⟨ha, hc⟩
    exact ⟨(contains_iff ha).mpr hc, ha⟩

theorem isEmpty_of_arc {s : ArcSet} (h : s.Arc a) : s.isEmpty = false := by
  obtain ⟨-, h⟩ := arc_iff.mp h
  rw [isEmpty, Bool.and_eq_false_iff]
  rcases h with h | ⟨c, hc, i, hi, -⟩
  · exact .inl (decide_eq_false (Finset.ne_empty_of_mem h))
  · refine .inr (all_eq_false.mpr ⟨c, hc, ?_⟩)
    rw [beq_iff_eq]
    intro h0
    rw [h0] at hi
    exact absurd hi (Nat.not_lt_zero i)

/-! ## Narrowing -/

theorem mem_narrow_listed : a ∈ (s.narrow other).listed ↔ a ∈ s.listed ∧ other.contains a = true ∨
      a ∈ other.listed ∧ ∃ c ∈ s.counters, other.meetsACounter c = false ∧ counterHolds c.1 c.2 a = true := by
  simp only [narrow, Finset.mem_union, Finset.mem_filter, any_eq_true, Bool.and_eq_true,
    Bool.not_eq_true']

theorem mem_narrow_counters {c : Text × UInt64} :
    c ∈ (s.narrow other).counters ↔ c ∈ s.counters ∧ other.meetsACounter c = true :=
  mem_filter

theorem Bounded.narrow (hs : s.Bounded) (ho : other.Bounded) : (s.narrow other).Bounded := by
  intro a ha
  rcases mem_narrow_listed.mp ha with ⟨h, -⟩ | ⟨h, -⟩
  · exact hs a h
  · exact ho a h

/-- An arc of both sides stays. -/
theorem contains_narrow (hs : s.Arc a) (ho : other.Arc a) : (s.narrow other).Arc a := by
  obtain ⟨ha, hmem⟩ := arc_iff.mp hs
  refine arc_iff.mpr ⟨ha, ?_⟩
  rcases hmem with hmem | ⟨c, hc, hval⟩
  · exact .inl (mem_narrow_listed.mpr (.inl ⟨hmem, ho.1⟩))
  · by_cases hmeets : other.meetsACounter c = true
    · exact .inr ⟨c, mem_narrow_counters.mpr ⟨hc, hmeets⟩, hval⟩
    · -- a counter of `other` that holds `a` would meet `c`
      rw [Bool.not_eq_true] at hmeets
      rcases (arc_iff.mp ho).2 with hlisted | ⟨d, hd, hdval⟩
      · exact .inl (mem_narrow_listed.mpr (.inr ⟨hlisted, c, hc, hmeets, (counterHolds_iff ha).mpr hval⟩))
      · have := any_eq_false.mp hmeets d hd
        exact absurd (countersMeet_isSome ha hval hdval) this

/-- No arc is added. -/
theorem contains_of_narrow (h : (s.narrow other).Arc a) : s.Arc a := by
  obtain ⟨ha, hmem⟩ := arc_iff.mp h
  refine arc_iff.mpr ⟨ha, ?_⟩
  rcases hmem with hmem | ⟨c, hc, hval⟩
  · rcases mem_narrow_listed.mp hmem with ⟨h, -⟩ | ⟨-, c, hc, -, hholds⟩
    · exact .inl h
    · exact .inr ⟨c, hc, (counterHolds_iff ha).mp hholds⟩
  · exact .inr ⟨c, (mem_narrow_counters.mp hc).1, hval⟩

/-- Fewer counters, or as many and fewer listed arcs. -/
def weight (s : ArcSet) : Nat × Nat := (s.counters.length, s.listed.card)

theorem narrow_down (h : s.narrow other ≠ s) :
    Prod.Lex (· < ·) (· < ·) (s.narrow other).weight s.weight := by
  have hsub : (s.narrow other).counters.Sublist s.counters := filter_sublist
  rcases Nat.lt_or_ge (s.narrow other).counters.length s.counters.length with hlt | hge
  · exact .left _ _ hlt
  · -- every counter is kept, so the listed arcs are only filtered
    have hcounters := hsub.eq_of_length_le hge
    have hlisted : (s.narrow other).listed ⊂ s.listed := by
      refine lt_of_le_of_ne ?_ fun heq => h ?_
      · intro a ha
        rcases mem_narrow_listed.mp ha with ⟨ha, -⟩ | ⟨-, c, hc, hmeets, -⟩
        · exact ha
        · rw [← hcounters] at hc
          rw [(mem_narrow_counters.mp hc).2] at hmeets
          cases hmeets
      · rw [ArcSet.mk.injEq]
        exact ⟨heq, hcounters⟩
    have hw : (s.narrow other).weight = (s.counters.length, (s.narrow other).listed.card) := by
      rw [weight, hcounters]
    rw [hw]
    exact .right _ (Finset.card_lt_card hlisted)

/-- A set that narrowing leaves as it is: the other side holds every listed arc,
and meets every counter. -/
theorem of_narrow_eq (h : s.narrow other = s) :
    (∀ a ∈ s.listed, other.contains a = true) ∧ ∀ c ∈ s.counters, other.meetsACounter c = true := by
  constructor
  · intro a ha
    rw [← h] at ha
    rcases mem_narrow_listed.mp ha with ⟨-, ha⟩ | ⟨ha, -⟩
    · exact ha
    · simp [contains, ha]
  · intro c hc
    rw [← h] at hc
    exact (mem_narrow_counters.mp hc).2

theorem meetsACounter_of_none {s : ArcSet} (h : s.counters = []) (c : Text × UInt64) :
    s.meetsACounter c = false := by
  rw [meetsACounter, h, any_nil]

/-! ## A common arc -/

theorem smallest_eq_some : smallest listed = some a ↔ a ∈ listed ∧ ∀ b ∈ listed, a ≤ b := by
  unfold smallest
  split
  · rename_i h
    rw [Option.some.injEq]
    constructor
    · rintro rfl
      exact ⟨Finset.min'_mem _ h, fun b hb => Finset.min'_le _ b hb⟩
    · rintro ⟨ha, hle⟩
      exact le_antisymm (Finset.min'_le _ a ha) (hle _ (Finset.min'_mem _ h))
  · rename_i h
    constructor
    · nofun
    · rintro ⟨ha, -⟩
      exact absurd ⟨a, ha⟩ h

/-- The candidates `common` takes the least of. -/
theorem mem_candidates (h : s.common other = some a) :
    (a ∈ s.listed ∧ other.contains a = true) ∨ (a ∈ other.listed ∧ s.contains a = true) ∨
      ∃ c ∈ s.counters, ∃ d ∈ other.counters, countersMeet c d = some a := by
  have hmem := (min?_eq_some_iff.mp h).1
  rw [mem_append, mem_filterMap] at hmem
  rcases hmem with ⟨o, ho, hoa⟩ | hmem
  · simp only [mem_cons, not_mem_nil, or_false] at ho
    rcases ho with rfl | rfl
    · exact .inl (Finset.mem_filter.mp (smallest_eq_some.mp hoa).1)
    · exact .inr (.inl (Finset.mem_filter.mp (smallest_eq_some.mp hoa).1))
  · obtain ⟨c, hc, hmem⟩ := mem_flatMap.mp hmem
    obtain ⟨d, hd, hmeet⟩ := mem_filterMap.mp hmem
    exact .inr (.inr ⟨c, hc, d, hd, hmeet⟩)

/-- The common arc is in both sets. -/
theorem common_holds (hs : s.Bounded) (ho : other.Bounded) (h : s.common other = some a) :
    s.Arc a ∧ other.Arc a := by
  rcases mem_candidates h with ⟨ha, hc⟩ | ⟨ha, hc⟩ | ⟨c, hc, d, hd, hmeet⟩
  · exact ⟨arc_iff.mpr ⟨hs a ha, .inl ha⟩, hc, hs a ha⟩
  · exact ⟨⟨hc, ho a ha⟩, arc_iff.mpr ⟨ho a ha, .inl ha⟩⟩
  · obtain ⟨hcv, hdv, ha⟩ := countersMeet_holds hmeet
    exact ⟨arc_iff.mpr ⟨ha, .inr ⟨c, hc, hcv⟩⟩, arc_iff.mpr ⟨ha, .inr ⟨d, hd, hdv⟩⟩⟩

/-- Sets that share an arc have a common one. -/
theorem common_isSome (hs : s.Arc a) (ho : other.Arc a) : (s.common other).isSome = true := by
  rw [Option.isSome_iff_ne_none, common, Ne, min?_eq_none_iff, append_eq_nil_iff]
  rintro ⟨hlisted, hcounters⟩
  have hnone : ∀ l : Finset Nat, smallest l ∈ [smallest (s.listed.filter fun arc => other.contains arc),
      smallest (other.listed.filter fun arc => s.contains arc)] → a ∉ l := by
    intro l hl ha
    obtain ⟨b, hb⟩ : ∃ b, smallest l = some b := ⟨l.min' ⟨a, ha⟩, dif_pos ⟨a, ha⟩⟩
    exact not_mem_nil (hlisted ▸ mem_filterMap.mpr ⟨_, hl, hb⟩)
  rcases (arc_iff.mp hs).2 with ha | ⟨c, hc, hcv⟩
  · exact hnone _ mem_cons_self (Finset.mem_filter.mpr ⟨ha, ho.1⟩)
  rcases (arc_iff.mp ho).2 with ha | ⟨d, hd, hdv⟩
  · exact hnone _ (mem_cons_of_mem _ mem_cons_self) (Finset.mem_filter.mpr ⟨ha, hs.1⟩)
  · obtain ⟨b, hb⟩ := Option.isSome_iff_exists.mp (countersMeet_isSome hs.2 hcv hdv)
    exact not_mem_nil
      (hcounters ▸ mem_flatMap.mpr ⟨c, hc, mem_filterMap.mpr ⟨d, hd, hb⟩⟩)

/-- Without counters, the common arc of two sets with the same listed arcs is the
least of them. -/
theorem common_of_listed (hs : s.counters = []) (heq : other.listed = s.listed)
    (h : s.common other = some a) : smallest s.listed = some a := by
  have hkeep : ∀ t : ArcSet, t.listed = s.listed → (s.listed.filter fun arc => t.contains arc) = s.listed := by
    intro t ht
    apply Finset.filter_true_of_mem
    intro b hb
    simp [contains, ht, hb]
  rw [common, hs, flatMap_nil, append_nil, heq, hkeep other heq, hkeep s rfl] at h
  have hmem := (min?_eq_some_iff.mp h).1
  obtain ⟨o, ho, hoa⟩ := mem_filterMap.mp hmem
  simp only [mem_cons, not_mem_nil, or_false, or_self] at ho
  rw [← ho]
  exact hoa

/-! ## The set of a label -/

/-- The label's values render `a`. -/
def RendersAs (holds : Text → Prop) (a : Nat) : Prop := ∃ value, holds value ∧ indexArc value = some a

theorem rendersAs_iff : RendersAs holds a ↔ a < arcBound ∧ holds (decimal a) := by
  constructor
  · rintro ⟨value, hv, ha⟩
    obtain ⟨rfl, hlt⟩ := indexArc_eq_some.mp ha
    exact ⟨hlt, hv⟩
  · rintro ⟨hlt, hv⟩
    exact ⟨_, hv, indexArc_decimal hlt⟩

theorem rendersAs_or {p q : Text → Prop} :
    RendersAs (fun v => p v ∨ q v) a ↔ RendersAs p a ∨ RendersAs q a := by
  simp only [rendersAs_iff]
  tauto

/-- The texts of a random spike are too long for an arc. -/
theorem not_rendersAs_random {seed : UInt64} :
    ¬ RendersAs (RandomValue lead seed cardinality) a := by
  rintro ⟨value, ⟨i, -, rfl⟩, ha⟩
  obtain ⟨heq, hlt⟩ := indexArc_eq_some.mp ha
  have hlen := length_decimal_le (n := a) (k := 10) (by decide) (by unfold arcBound at hlt; omega)
  rw [← heq, randomSpikeValue, length_append, hex16, length_map, length_beDigits] at hlen
  omega

theorem arc_addCounter :
    Arc { arcs with counters := arcs.counters ++ [(lead, cardinality)] } a ↔
      arcs.Arc a ∨ RendersAs (CounterValue lead cardinality) a := by
  rw [rendersAs_iff, arc_iff, arc_iff]
  simp only [mem_append, mem_singleton, or_and_right, exists_or, exists_eq_left]
  rw [← and_or_left, or_assoc]

theorem arc_addListed (h : ∀ a, a ∈ listed ↔ RendersAs holds a) :
    Arc { arcs with listed := arcs.listed ∪ listed } a ↔ arcs.Arc a ∨ RendersAs holds a := by
  have hbound : RendersAs holds a ↔ a < arcBound ∧ RendersAs holds a :=
    ⟨fun hr => ⟨(rendersAs_iff.mp hr).1, hr⟩, And.right⟩
  rw [arc_iff, arc_iff, Finset.mem_union, h a, or_right_comm, and_or_left, ← hbound]

/-- The arcs of a label are its values that are arcs. -/
theorem arc_addLabel : ∀ (set : LabelValueSet) (arcs : ArcSet),
    (addLabel arcs set).Arc a ↔ arcs.Arc a ∨ RendersAs set.Holds a
  | .static _, arcs | .values _, arcs => by
    refine arc_addListed fun b => ?_
    simp [RendersAs, LabelValueSet.Holds]
  | .counter lead cardinality, arcs => arc_addCounter
  | .spikeCounter lead cardinality none, arcs => by
    rw [addLabel, arc_addCounter]
    simp [RendersAs, LabelValueSet.Holds]
  | .spikeCounter lead cardinality (some set), arcs => by
    have hset : RendersAs (LabelValueSet.spikeCounter lead cardinality (some set)).Holds a ↔
        RendersAs (CounterValue lead cardinality) a ∨ RendersAs set.Holds a := rendersAs_or
    rw [addLabel, arc_addLabel set, arc_addCounter, hset, or_assoc]
  | .randomShape lead seed cardinality none, arcs => by
    have hset : RendersAs (LabelValueSet.randomShape lead seed cardinality none).Holds a ↔
        RendersAs (RandomValue lead seed cardinality) a ∨ RendersAs (fun _ => False) a := rendersAs_or
    have hnone : ¬ RendersAs (fun _ => False) a := fun ⟨_, h, _⟩ => h
    rw [addLabel, hset]
    simp [not_rendersAs_random, hnone]
  | .randomShape lead seed cardinality (some set), arcs => by
    have hset : RendersAs (LabelValueSet.randomShape lead seed cardinality (some set)).Holds a ↔
        RendersAs (RandomValue lead seed cardinality) a ∨ RendersAs set.Holds a := rendersAs_or
    rw [addLabel, arc_addLabel set, hset]
    simp [not_rendersAs_random]

theorem arc_ofLabel {set : Option LabelValueSet} :
    (ofLabel set).Arc a ↔ ∃ s, set = some s ∧ RendersAs s.Holds a := by
  have hdefault : ¬ (default : ArcSet).Arc a := fun h => Bool.false_ne_true h.1
  cases set with
  | none => simp [ofLabel, hdefault]
  | some s => simp [ofLabel, arc_addLabel, hdefault]

theorem bounded_addLabel : ∀ (set : LabelValueSet) {arcs : ArcSet}, arcs.Bounded →
    (addLabel arcs set).Bounded
  | .static value, arcs, h => by
    intro a ha
    rcases Finset.mem_union.mp ha with ha | ha
    · exact h a ha
    · exact (indexArc_eq_some.mp (Option.mem_toFinset.mp ha)).2
  | .values values, arcs, h => by
    intro a ha
    rcases Finset.mem_union.mp ha with ha | ha
    · exact h a ha
    · obtain ⟨v, -, hv⟩ := mem_filterMap.mp (mem_toFinset.mp ha)
      exact (indexArc_eq_some.mp hv).2
  | .counter _ _, _, h => h
  | .spikeCounter _ _ none, _, h => h
  | .spikeCounter _ _ (some set), _, h => bounded_addLabel set h
  | .randomShape _ _ _ none, _, h => h
  | .randomShape _ _ _ (some set), _, h => bounded_addLabel set h

theorem bounded_ofLabel (set : Option LabelValueSet) : (ofLabel set).Bounded := by
  have hdefault : (default : ArcSet).Bounded := fun a ha => absurd ha (Finset.notMem_empty a)
  cases set with
  | none => exact hdefault
  | some s => exact bounded_addLabel s hdefault

end ArcSet

end Sonda.Config
