import Mathlib.Data.Prod.Lex
import Sonda.Framework.Fallible
import Sonda.Proof.Config.ArcSets

/-!
# Narrowing the sets of two templates

The positions of two templates are equations between the arcs of their labels,
which an arc for each label may solve (`Solves`). Narrowing a set keeps every
solution and goes down (`Narrowed.step`), so the passes end in sets that hold
them all (`settles`), and positions with a solution collide
(`collisionOf_of_solves`). Where a collision is exact, the sets the passes end in
have one (`solves_of_collisionOf`): the two sets of a position without counters
are equal, and the labels of one with counters are at no other.
-/

namespace Sonda.Config

open Framework Sonda.Snmp List

variable {i : Nat} {pair : Slot × Slot} {p : Slot × Slot} {s : ArcSet} {sets' : List ArcSet}
  {a arc : Nat} {A : Nat → Nat} {slot : Slot} {slots : Slot × Slot}

/-! ## Equations between labels -/

/-- The arc of a slot when label `i` renders `A i`. -/
def slotArc (A : Nat → Nat) (slot : Slot) : Option Nat :=
  match slot.set, slot.arc with
  | some i, _ => some (A i)
  | none, .literal arc => some arc
  | none, _ => none

/-- Both sides of every position render the same arc. -/
def Solves (positions : List (Slot × Slot)) (A : Nat → Nat) : Prop :=
  ∀ p ∈ positions, ∃ x, slotArc A p.1 = some x ∧ slotArc A p.2 = some x

/-- A slot of one of `n` labels, or a literal arc. -/
def Slot.Placed (n : Nat) (slot : Slot) : Prop :=
  (∃ i < n, slot.set = some i) ∨ slot.set = none ∧ ∃ arc < arcBound, slot.arc = .literal arc

def Placed (n : Nat) (positions : List (Slot × Slot)) : Prop :=
  ∀ p ∈ positions, p.1.Placed n ∧ p.2.Placed n

theorem Slot.Placed.lt {n : Nat} (h : slot.Placed n) (hi : slot.set = some i) : i < n := by
  rcases h with ⟨j, hj, hslot⟩ | ⟨hslot, -⟩
  · rw [hi] at hslot
    rwa [Option.some.inj hslot]
  · rw [hi] at hslot
    cases hslot

theorem mem_facing {positions : List (Slot × Slot)} :
    pair ∈ facing positions ↔ pair ∈ positions ∨ pair.swap ∈ positions := by
  simp only [facing, mem_flatMap, mem_cons, not_mem_nil, or_false]
  constructor
  · rintro ⟨p, hp, rfl | rfl⟩
    · exact .inl hp
    · exact .inr (by rwa [Prod.swap_swap])
  · rintro (hp | hp)
    · exact ⟨pair, hp, .inl rfl⟩
    · exact ⟨_, hp, .inr (Prod.swap_swap pair).symm⟩

theorem setOf_some {sets : List ArcSet} (h : slot.set = some i) :
    setOf sets slot = sets.getD i default := by
  simp [setOf, h]

theorem setOf_literal {sets : List ArcSet} (h : slot.set = none) (ha : slot.arc = .literal arc) :
    setOf sets slot = .literal arc := by
  simp [setOf, h, ha]

theorem arc_literal : (ArcSet.literal arc).Arc a ↔ a = arc ∧ a < arcBound := by
  simp [ArcSet.Arc, ArcSet.literal, ArcSet.contains]

section

variable {sets : List ArcSet} {n : Nat} {slot : Slot}

theorem arc_setOf (hp : slot.Placed n) {A : Nat → Nat} (hA : ∀ i < n, (sets.getD i default).Arc (A i))
    {x : Nat} (hx : slotArc A slot = some x) : (setOf sets slot).Arc x := by
  rcases hp with ⟨i, hi, hslot⟩ | ⟨hslot, arc, harc, hlit⟩
  · simp only [slotArc, hslot, Option.some.injEq] at hx
    rw [setOf_some hslot, ← hx]
    exact hA i hi
  · simp only [slotArc, hslot, hlit, Option.some.injEq] at hx
    rw [setOf_literal hslot hlit, ← hx]
    exact arc_literal.mpr ⟨rfl, harc⟩

theorem bounded_setOf (hp : slot.Placed n) (hb : ∀ i < n, (sets.getD i default).Bounded) :
    (setOf sets slot).Bounded := by
  rcases hp with ⟨i, hi, hslot⟩ | ⟨hslot, arc, harc, hlit⟩
  · rw [setOf_some hslot]
    exact hb i hi
  · rw [setOf_literal hslot hlit]
    intro a ha
    rw [Finset.mem_singleton.mp ha]
    exact harc

end

/-! ## One step of a pass -/

/-- What a step that changes a set does. -/
theorem narrowSlot_some {sets : List ArcSet} (h : narrowSlot slots sets = some sets') :
    ∃ i, slots.1.set = some i ∧
      (sets.getD i default).narrow (setOf sets slots.2) ≠ sets.getD i default ∧
        sets' = sets.set i ((sets.getD i default).narrow (setOf sets slots.2)) := by
  unfold narrowSlot at h
  split at h
  · cases h
  · rename_i i hi
    dsimp only at h
    split at h
    · cases h
    · rename_i hne
      exact ⟨i, hi, hne, (Option.some.inj h).symm⟩

theorem narrowSlot_none {sets : List ArcSet} (h : narrowSlot slots sets = none)
    (hi : slots.1.set = some i) :
    (sets.getD i default).narrow (setOf sets slots.2) = sets.getD i default := by
  unfold narrowSlot at h
  rw [hi] at h
  dsimp only at h
  split at h
  · assumption
  · cases h

theorem getD_set {sets : List ArcSet} {i j : Nat} (hj : j < sets.length) :
    (sets.set i s).getD j default = if i = j then s else sets.getD j default := by
  simp only [getD_eq_getElem?_getD, getElem?_set]
  split
  · rw [if_pos (by omega)]
    rfl
  · rfl

/-- The counters of all the sets, then their listed arcs. -/
def totalWeight (sets : List ArcSet) : Nat ×ₗ Nat :=
  toLex ((sets.map fun s => s.counters.length).sum, (sets.map fun s => s.listed.card).sum)

theorem sum_map_set (f : ArcSet → Nat) {sets : List ArcSet} (hi : i < sets.length) (s : ArcSet) :
    ((sets.set i s).map f).sum + f (sets.getD i default) = (sets.map f).sum + f s := by
  induction sets generalizing i with
  | nil => exact absurd hi (Nat.not_lt_zero i)
  | cons t sets ih =>
    cases i with
    | zero =>
      simp only [set_cons_zero, map_cons, sum_cons, getD_cons_zero]
      omega
    | succ i =>
      have := ih (Nat.lt_of_succ_lt_succ hi)
      simp only [set_cons_succ, map_cons, sum_cons, getD_cons_succ]
      omega

theorem totalWeight_set {sets : List ArcSet} (hi : i < sets.length)
    (h : Prod.Lex (· < ·) (· < ·) s.weight (sets.getD i default).weight) :
    totalWeight (sets.set i s) < totalWeight sets := by
  have hc := sum_map_set (fun s => s.counters.length) hi s
  have hl := sum_map_set (fun s => s.listed.card) hi s
  rw [totalWeight, totalWeight, Prod.Lex.toLex_lt_toLex]
  dsimp only [ArcSet.weight] at h hc hl ⊢
  omega

/-! ## The passes -/

/-- The sets the passes have come to from `sets₀`. -/
structure Narrowed (positions : List (Slot × Slot)) (sets₀ sets : List ArcSet) : Prop where
  length_eq : sets.length = sets₀.length
  bounded : ∀ i < sets₀.length, (sets.getD i default).Bounded
  shrinks : ∀ i < sets₀.length, ∀ a, (sets.getD i default).Arc a → (sets₀.getD i default).Arc a
  /-- No solution is lost. -/
  keeps : ∀ A, Solves positions A → (∀ i < sets₀.length, (sets₀.getD i default).Arc (A i)) →
    ∀ i < sets₀.length, (sets.getD i default).Arc (A i)

variable {positions : List (Slot × Slot)} {sets₀ sets : List ArcSet} {n : Nat}

theorem solves_facing (hA : Solves positions A) (h : pair ∈ facing positions) :
    ∃ x, slotArc A pair.1 = some x ∧ slotArc A pair.2 = some x := by
  rcases mem_facing.mp h with h | h
  · exact hA pair h
  · obtain ⟨x, h1, h2⟩ := hA _ h
    exact ⟨x, h2, h1⟩

theorem placed_facing (hp : Placed n positions) (h : pair ∈ facing positions) :
    pair.1.Placed n ∧ pair.2.Placed n := by
  rcases mem_facing.mp h with h | h
  · exact hp _ h
  · exact (hp _ h).symm

/-- A step narrows further, and goes down. -/
theorem Narrowed.step (hp : Placed sets₀.length positions)
    (h : Narrowed positions sets₀ sets) (hpair : pair ∈ facing positions)
    (hs : narrowSlot pair sets = some sets') :
    Narrowed positions sets₀ sets' ∧ totalWeight sets' < totalWeight sets := by
  obtain ⟨i, hi, hne, rfl⟩ := narrowSlot_some hs
  obtain ⟨hmine, htheirs⟩ := placed_facing hp hpair
  have hilt := hmine.lt hi
  refine ⟨⟨?_, ?_, ?_, ?_⟩, totalWeight_set (h.length_eq ▸ hilt) (ArcSet.narrow_down hne)⟩
  · rw [length_set, h.length_eq]
  · intro j hj
    rw [getD_set (h.length_eq ▸ hj)]
    split
    · exact (h.bounded i hilt).narrow (bounded_setOf htheirs h.bounded)
    · exact h.bounded j hj
  · intro j hj a ha
    rw [getD_set (h.length_eq ▸ hj)] at ha
    split at ha
    · subst j
      exact h.shrinks i hilt a (ArcSet.contains_of_narrow ha)
    · exact h.shrinks j hj a ha
  · intro A hA h₀ j hj
    have hkept := h.keeps A hA h₀
    rw [getD_set (h.length_eq ▸ hj)]
    split
    · subst j
      obtain ⟨x, hx, hy⟩ := solves_facing hA hpair
      obtain rfl : A i = x := by simpa [slotArc, hi] using hx
      exact ArcSet.contains_narrow (hkept i hilt) (arc_setOf htheirs hkept hy)
    · exact hkept j hj

/-- The passes end, in narrowed sets that no step changes. -/
theorem settles (hp : Placed sets₀.length positions)
    (hb : ∀ i < sets₀.length, (sets₀.getD i default).Bounded) :
    ∃ passes sets, (∀ fuel, passes ≤ fuel → settle narrowSlot (facing positions) fuel sets₀ = some sets) ∧
      Narrowed positions sets₀ sets ∧ ∀ pair ∈ facing positions, narrowSlot pair sets = none := by
  have hwf : WellFounded fun s' s : List ArcSet => totalWeight s' < totalWeight s :=
    InvImage.wf totalWeight wellFounded_lt
  exact settle_ends hwf (fun pair hpair s s' hs h => Narrowed.step hp hs hpair h) sets₀
    ⟨rfl, hb, fun _ _ _ => id, fun _ _ h => h⟩

/-! ## A collision for every solution -/

theorem forall₂_of_isSome {α β : Type} {f : α → Option β} {l : List α} (h : ∀ a ∈ l, (f a).isSome = true) :
    ∃ l', List.Forall₂ (fun a b => f a = some b) l l' := by
  induction l with
  | nil => exact ⟨[], .nil⟩
  | cons a l ih =>
    obtain ⟨b, hb⟩ := Option.isSome_iff_exists.mp (h a mem_cons_self)
    obtain ⟨bs, hbs⟩ := ih fun x hx => h x (mem_cons_of_mem _ hx)
    exact ⟨b :: bs, .cons hb hbs⟩

/-- Templates that have a solution collide. -/
theorem collisionOf_of_solves (hp : Placed sets₀.length positions)
    (h : Narrowed positions sets₀ sets) (hA : Solves positions A)
    (h₀ : ∀ i < sets₀.length, (sets₀.getD i default).Arc (A i)) :
    (collisionOf positions sets).isSome = true := by
  have hkept := h.keeps A hA h₀
  have hnonempty : sets.any ArcSet.isEmpty = false := by
    rw [any_eq_false]
    intro s hs
    obtain ⟨i, hi, rfl⟩ := getElem_of_mem hs
    have harc := hkept i (h.length_eq ▸ hi)
    rw [getD_eq_getElem?_getD, getElem?_eq_getElem hi, Option.getD_some] at harc
    rw [ArcSet.isEmpty_of_arc harc]
    exact Bool.false_ne_true
  have hcommon : ∀ p ∈ positions, ((setOf sets p.1).common (setOf sets p.2)).isSome = true := by
    intro p hpos
    obtain ⟨x, h1, h2⟩ := hA p hpos
    exact ArcSet.common_isSome (arc_setOf (hp p hpos).1 hkept h1) (arc_setOf (hp p hpos).2 hkept h2)
  obtain ⟨oid, hoid⟩ := forall₂_of_isSome hcommon
  rw [collisionOf, hnonempty, mapM_some.mpr hoid]
  rfl

/-! ## A solution for every exact collision -/

section sound

variable (hfix : ∀ pair ∈ facing positions, narrowSlot pair sets = none)
include hfix

/-- A label's set without counters is what the other side of each of its
positions lists. -/
theorem listed_eq_of_fixed (hp : Placed n positions) {pair : Slot × Slot}
    (hpair : pair ∈ facing positions) {i : Nat} (hi : pair.1.set = some i)
    (hnone : (sets.getD i default).counters = []) (hne : (sets.getD i default).isEmpty = false) :
    (setOf sets pair.2).counters = [] ∧ (setOf sets pair.2).listed = (sets.getD i default).listed := by
  obtain ⟨hmine, -⟩ := ArcSet.of_narrow_eq (narrowSlot_none (hfix pair hpair) hi)
  have hlisted : ∀ {s : ArcSet}, s.counters = [] → ∀ a, s.contains a = true → a ∈ s.listed := by
    intro s hs a ha
    simpa [ArcSet.contains, hs] using ha
  rcases (placed_facing hp hpair).2 with ⟨j, -, hj⟩ | ⟨hj, arc, -, hlit⟩
  · -- two labels: each side's set is narrowed to the other's
    have hswap : pair.swap ∈ facing positions := by
      rw [mem_facing] at hpair ⊢
      exact hpair.symm
    obtain ⟨htheirs, hmeets⟩ := ArcSet.of_narrow_eq (narrowSlot_none (hfix _ hswap) hj)
    rw [Prod.snd_swap, setOf_some hi] at htheirs hmeets
    have hcounters : (sets.getD j default).counters = [] := by
      rw [eq_nil_iff_forall_not_mem]
      intro c hc
      have := hmeets c hc
      rw [ArcSet.meetsACounter_of_none hnone] at this
      cases this
    rw [setOf_some hj] at hmine ⊢
    refine ⟨hcounters, Finset.Subset.antisymm ?_ ?_⟩
    · exact fun a ha => hlisted hnone a (htheirs a ha)
    · exact fun a ha => hlisted hcounters a (hmine a ha)
  · rw [setOf_literal hj hlit] at hmine ⊢
    refine ⟨rfl, Finset.Subset.antisymm ?_ ?_⟩
    · -- the label lists something, and nothing but the literal
      intro a ha
      obtain ⟨b, hb⟩ : (sets.getD i default).listed.Nonempty := by
        rw [ArcSet.isEmpty, hnone, all_nil, Bool.and_true, decide_eq_false_iff_not] at hne
        exact Finset.nonempty_iff_ne_empty.mpr hne
      have hb' := hlisted (s := .literal arc) rfl b (hmine b hb)
      rw [Finset.mem_singleton.mp hb'] at hb
      rwa [Finset.mem_singleton.mp ha]
    · exact fun a ha => hlisted (s := .literal arc) rfl a (hmine a ha)

/-- A label without counters has its least arc at each of its positions. -/
theorem smallest_of_fixed (hp : Placed n positions) {p : Slot × Slot}
    (hpos : p ∈ positions) {i a : Nat} (hi : p.1.set = some i ∨ p.2.set = some i)
    (hnone : (sets.getD i default).counters = []) (hne : (sets.getD i default).isEmpty = false)
    (ha : (setOf sets p.1).common (setOf sets p.2) = some a) :
    ArcSet.smallest (sets.getD i default).listed = some a := by
  rcases hi with hi | hi
  · obtain ⟨-, hlisted⟩ := listed_eq_of_fixed hfix hp (mem_facing.mpr (.inl hpos)) hi hnone hne
    rw [setOf_some hi] at ha
    exact ArcSet.common_of_listed hnone hlisted ha
  · have hswap : p.swap ∈ facing positions := mem_facing.mpr (.inr (by rwa [Prod.swap_swap]))
    obtain ⟨hcounters, hlisted⟩ := listed_eq_of_fixed hfix hp hswap hi hnone hne
    rw [setOf_some hi] at ha
    rw [← hlisted]
    exact ArcSet.common_of_listed hcounters hlisted.symm ha

end sound

/-- A slot of the position is `i`'s. -/
def Occupies (p : Slot × Slot) (i : Nat) : Prop := p.1.set = some i ∨ p.2.set = some i

theorem occupied_cons (p : Slot × Slot) (positions : List (Slot × Slot)) (i : Nat) :
    occupied (p :: positions) i =
      (if p.1.set = some i then 1 else 0) + (if p.2.set = some i then 1 else 0) + occupied positions i := by
  simp only [occupied, slotsOf, flatMap_cons, countP_append, countP_cons, countP_nil,
    beq_iff_eq]
  omega

theorem occupied_pos (hp : p ∈ positions) (hi : Occupies p i) : 0 < occupied positions i := by
  rw [occupied, countP_pos_iff]
  rcases hi with hi | hi
  · exact ⟨p.1, mem_flatMap.mpr ⟨p, hp, by simp⟩, beq_iff_eq.mpr hi⟩
  · exact ⟨p.2, mem_flatMap.mpr ⟨p, hp, by simp⟩, beq_iff_eq.mpr hi⟩

/-- A label that occupies one position has one arc. -/
theorem eq_of_occupied_one {R : Slot × Slot → Nat → Prop} {oid : List Nat}
    (h : List.Forall₂ R positions oid) (hone : occupied positions i = 1) {p q : Slot × Slot}
    {b : Nat} (hp : (p, a) ∈ positions.zip oid) (hq : (q, b) ∈ positions.zip oid)
    (hpi : Occupies p i) (hqi : Occupies q i) : a = b := by
  induction h with
  | nil => cases hp
  | @cons r c positions oid _ _ ih =>
    have hr : Occupies r i → occupied positions i = 0 := by
      rw [occupied_cons] at hone
      rintro (hi | hi)
      · rw [if_pos hi] at hone
        omega
      · rw [if_pos hi] at hone
        omega
    have hrest : ∀ {s : Slot × Slot} {d : Nat}, (s, d) ∈ positions.zip oid → Occupies s i →
        occupied positions i ≠ 0 := fun hs hi => Nat.ne_of_gt (occupied_pos (of_mem_zip hs).1 hi)
    rw [zip_cons_cons, mem_cons] at hp hq
    rcases hp with hp | hp <;> rcases hq with hq | hq
    · rw [(Prod.mk.inj hp).2, (Prod.mk.inj hq).2]
    · exact absurd (hr ((Prod.mk.inj hp).1 ▸ hpi)) (hrest hq hqi)
    · exact absurd (hr ((Prod.mk.inj hq).1 ▸ hqi)) (hrest hp hpi)
    · refine ih ?_ hp hq
      have := hrest hp hpi
      rw [occupied_cons] at hone
      omega

/-- What an exact collision says of a position of a label with counters. -/
theorem occupied_one_of_exact (hexact : exactAt positions sets p = true) (hi : Occupies p i)
    (hcounters : (sets.getD i default).counters ≠ []) : occupied positions i = 1 := by
  have hkept : ([p.1, p.2].any fun slot =>
      slot.set.any fun i => !(sets.getD i default).counters.isEmpty) = true := by
    rw [any_eq_true]
    rcases hi with hi | hi
    · exact ⟨p.1, by simp, by simpa [hi] using hcounters⟩
    · exact ⟨p.2, by simp, by simpa [hi] using hcounters⟩
  rw [exactAt, hkept] at hexact
  simp only [Bool.not_true, Bool.false_or, all_cons, all_nil, Bool.and_true,
    Bool.and_eq_true] at hexact
  rcases hi with hi | hi
  · simpa [hi] using hexact.1
  · simpa [hi] using hexact.2

theorem lt_of_occupies (hp : Placed n positions) (hpos : p ∈ positions)
    (hi : Occupies p i) : i < n := by
  rcases hi with hi | hi
  · exact (hp p hpos).1.lt hi
  · exact (hp p hpos).2.lt hi

/-- The arc of a label: the one at its first position. -/
def arcOf (placed : List ((Slot × Slot) × Nat)) (i : Nat) : Nat :=
  ((placed.find? fun pa => pa.1.1.set == some i || pa.1.2.set == some i).map Prod.snd).getD 0

theorem arcOf_eq {placed : List ((Slot × Slot) × Nat)}
    (huniq : ∀ {p q a b}, (p, a) ∈ placed → (q, b) ∈ placed → Occupies p i → Occupies q i → a = b)
    (hp : (p, a) ∈ placed) (hi : Occupies p i) : arcOf placed i = a := by
  have hocc : ∀ q : Slot × Slot, (q.1.set == some i || q.2.set == some i) = true ↔ Occupies q i := by
    intro q
    rw [Bool.or_eq_true, beq_iff_eq, beq_iff_eq, Occupies]
  unfold arcOf
  cases hfind : placed.find? fun pa => pa.1.1.set == some i || pa.1.2.set == some i with
  | none => exact absurd ((hocc p).mpr hi) (find?_eq_none.mp hfind _ hp)
  | some qb =>
    have hqb := find?_some hfind
    exact huniq (mem_of_find?_eq_some hfind) hp ((hocc qb.1).mp hqb) hi

/-- An exact collision has a solution, in the sets the passes end in. -/
theorem solves_of_collisionOf (hp : Placed sets₀.length positions)
    (h : Narrowed positions sets₀ sets) (hfix : ∀ pair ∈ facing positions, narrowSlot pair sets = none)
    {oid : String} {values : List (Text × Nat × Option Nat)}
    (hc : collisionOf positions sets = some (.oid oid values true)) :
    ∃ A arcs, oid = dotted arcs ∧ List.Forall₂ (fun p x => slotArc A p.1 = some x ∧ slotArc A p.2 = some x ∧
      ∀ i, Occupies p i → (sets₀.getD i default).Arc (A i)) positions arcs := by
  unfold collisionOf at hc
  split at hc
  · cases hc
  rename_i hempty
  rw [Bool.not_eq_true, any_eq_false] at hempty
  split at hc
  · cases hc
  rename_i arcs harcs
  rw [Option.some.injEq, SnmpCollision.oid.injEq] at hc
  obtain ⟨rfl, -, hexact⟩ := hc
  rw [mapM_some] at harcs
  rw [all_eq_true] at hexact
  obtain ⟨hlen, hcommon⟩ := forall₂_iff_zip.mp harcs
  have hne : ∀ i < sets₀.length, (sets.getD i default).isEmpty = false := by
    intro i hi
    have hi' : i < sets.length := h.length_eq ▸ hi
    rw [getD_eq_getElem?_getD, getElem?_eq_getElem hi', Option.getD_some]
    exact Bool.eq_false_iff.mpr (hempty _ (getElem_mem hi'))
  -- the arcs at two positions of one label are equal
  have huniq : ∀ {p q a b i}, (p, a) ∈ positions.zip arcs → (q, b) ∈ positions.zip arcs → Occupies p i →
      Occupies q i → a = b := by
    intro p q a b i hpa hqb hpi hqi
    have hpmem := (of_mem_zip hpa).1
    have hqmem := (of_mem_zip hqb).1
    by_cases hnone : (sets.getD i default).counters = []
    · have hi := hne i (lt_of_occupies hp hpmem hpi)
      have h1 := smallest_of_fixed hfix hp hpmem hpi hnone hi (hcommon hpa)
      have h2 := smallest_of_fixed hfix hp hqmem hqi hnone hi (hcommon hqb)
      exact Option.some.inj (h1.symm.trans h2)
    · exact eq_of_occupied_one harcs (occupied_one_of_exact (hexact p hpmem) hpi hnone) hpa hqb hpi hqi
  refine ⟨arcOf (positions.zip arcs), arcs, rfl, forall₂_iff_zip.mpr ⟨hlen, ?_⟩⟩
  intro p a hpa
  have hpmem := (of_mem_zip hpa).1
  have hplaced := hp p hpmem
  have harc : ∀ {i}, Occupies p i → arcOf (positions.zip arcs) i = a := fun hi => arcOf_eq huniq hpa hi
  obtain ⟨hown, hother⟩ := ArcSet.common_holds (bounded_setOf hplaced.1 h.bounded)
    (bounded_setOf hplaced.2 h.bounded) (hcommon hpa)
  have hslot : ∀ {slot : Slot}, slot.Placed sets₀.length → (setOf sets slot).Arc a →
      (∀ i, slot.set = some i → Occupies p i) → slotArc (arcOf (positions.zip arcs)) slot = some a := by
    intro slot hpl ha hocc
    rcases hpl with ⟨i, -, hi⟩ | ⟨hi, arc, -, hlit⟩
    · simp only [slotArc, hi, harc (hocc i hi)]
    · rw [setOf_literal hi hlit] at ha
      simp only [slotArc, hi, hlit, (arc_literal.mp ha).1]
  refine ⟨hslot hplaced.1 hown fun i => .inl, hslot hplaced.2 hother fun i => .inr, fun i hi => ?_⟩
  rw [harc hi]
  apply h.shrinks i (lt_of_occupies hp hpmem hi)
  rcases hi with hi | hi
  · rwa [setOf_some hi] at hown
  · rwa [setOf_some hi] at hother

end Sonda.Config
