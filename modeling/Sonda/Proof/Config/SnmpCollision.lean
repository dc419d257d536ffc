import Sonda.Proof.Config.Narrowing

/-!
# `snmp_collision` finds the OID two templates share

The sets and positions `snmp_collision` starts from stand for the labels of both
templates (`positionsOf_laid`), and a template without string indices renders arc
by arc (`render_iff`). So values that render one OID from both templates solve
the positions, and a solution is read back as such values. The main result is
`snmpCollision_finds`.
-/

namespace Sonda.Config

open Framework Sonda.Snmp List

variable {labels : Labels} {xs : List Nat} {template : OidTemplate}

/-- One of two, by the side it is on. -/
def Side.of {α : Type} (side : Side) (pair : α × α) : α :=
  match side with
  | .own => pair.1
  | .other => pair.2

/-! ## The labels of two templates -/

section

variable (labelValueSet : Text → Option LabelValueSet) {labels : LabelSets}
  {keys : List (Side × Text)} {side : Side} {slot : Slot}

/-- Each label has one set, of the arcs its values are. -/
structure LabelSets.Laid (labels : LabelSets) : Prop where
  nodup : labels.keys.Nodup
  sets_eq : labels.sets = labels.keys.map fun key => .ofLabel (labelValueSet key.2)

/-- A label's slot is the index of its key; another arc's is none. -/
structure Slot.Of (keys : List (Side × Text)) (side : Side) (slot : Slot) : Prop where
  label : ∀ label, slot.arc = .label label → ∃ i, slot.set = some i ∧ keys[i]? = some (side, label)
  other : (∀ label, slot.arc ≠ .label label) → slot.set = none

theorem Slot.Of.literal (h : slot.Of keys side) {n : Nat} (hn : slot.arc = .literal n) :
    slot.set = none := by
  apply h.other
  intro label hl
  rw [hn] at hl
  cases hl

theorem Slot.Of.mono {keys' : List (Side × Text)} (h : slot.Of keys side) (hle : keys <+: keys') :
    slot.Of keys' side where
  label label hl := by
    obtain ⟨i, hi, hkey⟩ := h.label label hl
    obtain ⟨rest, rfl⟩ := hle
    refine ⟨i, hi, ?_⟩
    rw [List.getElem?_append_left (List.getElem?_eq_some_iff.mp hkey).1]
    exact hkey
  other := h.other

variable (arcs : List (TemplateArc × TemplateArc))

/-- What the positions of two templates and the sets of their labels are. -/
structure LaidOut (before : LabelSets)
    (positions : List (Slot × Slot)) (labels : LabelSets) : Prop where
  laid : labels.Laid labelValueSet
  keys_le : before.keys <+: labels.keys
  arcs_eq : positions.map (fun p => (p.1.arc, p.2.arc)) = arcs
  slots : ∀ p ∈ positions, ∀ side : Side, (side.of p).Of labels.keys side
  keys : ∀ key ∈ labels.keys, key ∈ before.keys ∨ ∃ p ∈ positions, (key.1.of p).arc = .label key.2

variable {labelValueSet}

theorem slotFor_laid (h : labels.Laid labelValueSet) (side : Side) (arc : TemplateArc) :
    (slotFor labelValueSet labels side arc).1.arc = arc ∧
      (slotFor labelValueSet labels side arc).2.Laid labelValueSet ∧
      labels.keys <+: (slotFor labelValueSet labels side arc).2.keys ∧
      (slotFor labelValueSet labels side arc).1.Of (slotFor labelValueSet labels side arc).2.keys side ∧
      ∀ key ∈ (slotFor labelValueSet labels side arc).2.keys,
        key ∈ labels.keys ∨ key.1 = side ∧ arc = .label key.2 := by
  unfold slotFor
  cases arc with
  | label label =>
    dsimp only
    split
    · rename_i i hi
      obtain ⟨hlt, hkey, -⟩ := findIdx?_eq_some_iff_getElem.mp hi
      refine ⟨rfl, h, prefix_rfl, ⟨?_, fun hne => absurd rfl (hne label)⟩, fun key hk => .inl hk⟩
      intro l hl
      obtain rfl := TemplateArc.label.inj hl
      refine ⟨i, rfl, ?_⟩
      rw [getElem?_eq_getElem hlt, of_decide_eq_true hkey]
    · rename_i hnone
      have hnew : (side, label) ∉ labels.keys := by
        intro hmem
        have := findIdx?_eq_none_iff.mp hnone _ hmem
        simp at this
      refine ⟨rfl, ⟨?_, ?_⟩, prefix_append _ _, ⟨?_, fun hne => absurd rfl (hne label)⟩, ?_⟩
      · rw [nodup_append]
        refine ⟨h.nodup, nodup_singleton _, ?_⟩
        rintro a ha b hb rfl
        exact hnew (mem_singleton.mp hb ▸ ha)
      · rw [map_append, h.sets_eq, map_singleton]
      · intro l hl
        obtain rfl := TemplateArc.label.inj hl
        exact ⟨labels.keys.length, rfl, getElem?_concat_length⟩
      · intro key hk
        rcases mem_append.mp hk with hk | hk
        · exact .inl hk
        · rw [mem_singleton.mp hk]
          exact .inr ⟨rfl, rfl⟩
  | literal | stringLabel =>
    exact ⟨rfl, h, prefix_rfl, ⟨fun l hl => (nomatch hl), fun _ => rfl⟩, fun key hk => .inl hk⟩

theorem positionsOf_laid (h : labels.Laid labelValueSet) :
    LaidOut labelValueSet arcs labels (positionsOf labelValueSet arcs labels).1
      (positionsOf labelValueSet arcs labels).2 := by
  induction arcs generalizing labels with
  | nil => exact ⟨h, prefix_rfl, rfl, fun p hp => absurd hp not_mem_nil, fun key hk => .inl hk⟩
  | cons ab rest ih =>
    obtain ⟨a, b⟩ := ab
    rw [positionsOf]
    obtain ⟨ha, hlaid, hle, hof, hkeys⟩ := slotFor_laid h .own a
    obtain ⟨hb, hlaid', hle', hof', hkeys'⟩ := slotFor_laid hlaid .other b
    have hrest := ih hlaid'
    refine ⟨hrest.laid, (hle.trans hle').trans hrest.keys_le, ?_, ?_, ?_⟩
    · rw [map_cons, hrest.arcs_eq, ha, hb]
    · rw [forall_mem_cons]
      refine ⟨fun side => ?_, hrest.slots⟩
      cases side with
      | own => exact hof.mono (hle'.trans hrest.keys_le)
      | other => exact hof'.mono hrest.keys_le
    · intro key hk
      rcases hrest.keys key hk with hk | ⟨p, hp, hat⟩
      · rcases hkeys' key hk with hk | ⟨hside, rfl⟩
        · rcases hkeys key hk with hk | ⟨hside, rfl⟩
          · exact .inl hk
          · refine .inr ⟨_, mem_cons_self, ?_⟩
            rw [hside]
            exact ha
        · refine .inr ⟨_, mem_cons_self, ?_⟩
          rw [hside]
          exact hb
      · exact .inr ⟨p, mem_cons_of_mem _ hp, hat⟩

end

/-! ## Rendering arc by arc -/

/-- `labels` render the arc of a template as `x`. -/
def RendersArc (labels : Labels) (arc : TemplateArc) (x : Nat) : Prop :=
  match arc with
  | .literal n => x = n
  | .label label => (labelValue labels label).bind indexArc = some x
  | .stringLabel _ => False

theorem renderPlaceholders_iff {placeholders : List Placeholder}
    (h : placeholders.any Placeholder.string = false) {out : List Nat} :
    renderPlaceholders labels placeholders out = .ok xs ↔
      ∃ ys, xs = out ++ ys ∧ List.Forall₂ (RendersArc labels)
        (placeholders.map fun p => if p.string then .stringLabel p.name else .label p.name) ys := by
  induction placeholders generalizing out with
  | nil =>
    simp only [renderPlaceholders, Except.ok.injEq, map_nil, forall₂_nil_left_iff,
      exists_eq_right, append_nil]
    exact eq_comm
  | cons p rest ih =>
    rw [any_cons, Bool.or_eq_false_iff] at h
    obtain ⟨hp, hrest⟩ := h
    have harc : ∀ x, RendersArc labels (if p.string then .stringLabel p.name else .label p.name) x ↔
        (labelValue labels p.name).bind indexArc = some x := by
      intro x
      rw [hp]
      rfl
    rw [renderPlaceholders, map_cons]
    simp only [forall₂_cons_left_iff, harc]
    cases hv : labelValue labels p.name with
    | none => simp
    | some value =>
      simp only [hp, Option.bind_some, Bool.not_false, if_true]
      cases hi : indexArc value with
      | none => simp
      | some arc =>
        simp only [ih hrest, Option.some.injEq]
        constructor
        · rintro ⟨ys, rfl, hys⟩
          exact ⟨arc :: ys, by simp, arc, ys, rfl, hys, rfl⟩
        · rintro ⟨_, rfl, _, ys, rfl, hys, rfl⟩
          exact ⟨ys, by simp, hys⟩

theorem forall₂_literals {ns : List Nat} {arcs : List TemplateArc} :
    List.Forall₂ (RendersArc labels) (ns.map .literal ++ arcs) xs ↔
      ∃ ys, xs = ns ++ ys ∧ List.Forall₂ (RendersArc labels) arcs ys := by
  induction ns generalizing xs with
  | nil => simp
  | cons n ns ih =>
    rw [map_cons, cons_append, forall₂_cons_left_iff]
    constructor
    · rintro ⟨x, zs, rfl, hzs, rfl⟩
      obtain ⟨ys, rfl, hys⟩ := ih.mp hzs
      exact ⟨ys, rfl, hys⟩
    · rintro ⟨ys, rfl, hys⟩
      exact ⟨n, ns ++ ys, rfl, ih.mpr ⟨ys, rfl, hys⟩, rfl⟩

/-- A template without string indices renders arc by arc. -/
theorem render_iff (h : template.hasStringIndex = false) :
    template.render labels = .ok xs ↔ List.Forall₂ (RendersArc labels) template.arcs xs := by
  rw [OidTemplate.render, renderPlaceholders_iff h, OidTemplate.arcs, forall₂_literals]

theorem arc_cases (h : template.hasStringIndex = false) {arc : TemplateArc}
    (ha : arc ∈ template.arcs) :
    (∃ n < arcBound, arc = .literal n) ∨ ∃ p ∈ template.placeholders, arc = .label p.name := by
  rcases mem_append.mp ha with ha | ha
  · obtain ⟨n, hn, rfl⟩ := mem_map.mp ha
    refine .inl ⟨n, ?_, rfl⟩
    rcases mem_append.mp hn with hn | hn
    · exact template.object.valid.2.1 n hn
    · split at hn
      · rw [mem_singleton.mp hn]
        decide
      · cases hn
  · obtain ⟨p, hp, rfl⟩ := mem_map.mp ha
    have hstring := any_eq_false.mp h p hp
    exact .inr ⟨p, hp, if_neg hstring⟩

/-! ## Values and solutions -/

theorem exists_mem_zip {α β : Type} {l : List α} {l' : List β} (hlen : l.length = l'.length) {a : α}
    (ha : a ∈ l) : ∃ b, (a, b) ∈ l.zip l' := by
  have hfst : (l.zip l').map Prod.fst = l := map_fst_zip hlen.le
  rw [← hfst, mem_map] at ha
  obtain ⟨⟨_, b⟩, hb, rfl⟩ := ha
  exact ⟨b, hb⟩

/-- One value per label of the template, of those the label can take. -/
def Chosen (labelValueSet : Text → Option LabelValueSet) (template : OidTemplate) (labels : Labels) : Prop :=
  ∀ p ∈ template.placeholders, ∃ set value, labelValueSet p.name = some set ∧ set.Holds value ∧
    labelValue labels p.name = some value

section

variable {labelValueSet : Text → Option LabelValueSet} {arcs : List (TemplateArc × TemplateArc)}
  {positions : List (Slot × Slot)} {labels : LabelSets}
  (hl : LaidOut labelValueSet arcs ⟨[], []⟩ positions labels) {template : Side → OidTemplate}
  (harcs : ∀ side : Side, positions.map (fun p => (side.of p).arc) = (template side).arcs)
  (hstring : ∀ side, (template side).hasStringIndex = false) {keys : List (Side × Text)}
  {xs : List Nat} {i : Nat} {A : Nat → Nat} {side : Side} {values : Side → Labels} {label : Text}

include hl

theorem LaidOut.length_sets : labels.sets.length = labels.keys.length := by
  rw [hl.laid.sets_eq, length_map]

theorem LaidOut.getD_sets {key : Side × Text} (h : labels.keys[i]? = some key) :
    labels.sets.getD i default = .ofLabel (labelValueSet key.2) := by
  rw [hl.laid.sets_eq, getD_eq_getElem?_getD, getElem?_map, h]
  rfl

theorem LaidOut.bounded : ∀ i < labels.sets.length, (labels.sets.getD i default).Bounded := by
  intro i hi
  rw [hl.length_sets] at hi
  rw [hl.getD_sets (getElem?_eq_getElem hi)]
  exact ArcSet.bounded_ofLabel _

omit hl in
include harcs in
theorem arc_mem_template {p : Slot × Slot} (hp : p ∈ positions) (side : Side) :
    (side.of p).arc ∈ (template side).arcs := by
  rw [← harcs side]
  exact mem_map_of_mem hp

include harcs hstring

theorem LaidOut.placed : Placed labels.sets.length positions := by
  have hside : ∀ p ∈ positions, ∀ side : Side, (side.of p).Placed labels.sets.length := by
    intro p hp side
    have hof := hl.slots p hp side
    rcases arc_cases (hstring side) (arc_mem_template harcs hp side) with ⟨n, hn, heq⟩ | ⟨q, -, heq⟩
    · exact .inr ⟨hof.literal heq, n, hn, heq⟩
    · obtain ⟨i, hi, hkey⟩ := hof.label _ heq
      rw [hl.length_sets]
      exact .inl ⟨i, (List.getElem?_eq_some_iff.mp hkey).1, hi⟩
  exact fun p hp => ⟨hside p hp .own, hside p hp .other⟩

omit hl harcs hstring in
/-- The arc of the label `i` when the two sides have the labels `values`. -/
def arcAt (keys : List (Side × Text)) (values : Side → Labels) (i : Nat) : Nat :=
  match keys[i]? with
  | some (side, label) => ((labelValue (values side) label).bind indexArc).getD 0
  | none => 0

omit hl harcs hstring in
theorem arcAt_eq (hkey : keys[i]? = some (side, label)) {x : Nat}
    (hx : RendersArc (values side) (.label label) x) : arcAt keys values i = x := by
  have hbind : (labelValue (values side) label).bind indexArc = some x := hx
  simp only [arcAt, hkey, hbind, Option.getD_some]

/-- Values that render one OID from both templates solve the positions. -/
theorem solves_of_chosen (hchosen : ∀ side, Chosen labelValueSet (template side) (values side))
    (hrender : ∀ side, (template side).render (values side) = .ok xs) :
    ∃ A, Solves positions A ∧ ∀ i < labels.sets.length, (labels.sets.getD i default).Arc (A i) := by
  have hall : ∀ side : Side, List.Forall₂ (fun p x => RendersArc (values side) (side.of p).arc x) positions xs := by
    intro side
    have := (render_iff (hstring side)).mp (hrender side)
    rw [← harcs side, forall₂_map_left_iff] at this
    exact this
  have hat : ∀ p ∈ positions, ∃ x, ∀ side : Side, RendersArc (values side) (side.of p).arc x := by
    intro p hp
    obtain ⟨x, hx⟩ := exists_mem_zip (hall .own).length_eq hp
    exact ⟨x, fun side => (forall₂_iff_zip.mp (hall side)).2 hx⟩
  refine ⟨arcAt labels.keys values, fun p hp => ?_, fun i hi => ?_⟩
  · obtain ⟨x, hx⟩ := hat p hp
    have hslot : ∀ side : Side, slotArc (arcAt labels.keys values) (side.of p) = some x := by
      intro side
      have hof := hl.slots p hp side
      have hxs := hx side
      rcases arc_cases (hstring side) (arc_mem_template harcs hp side) with ⟨n, -, heq⟩ | ⟨q, -, heq⟩
      · rw [heq] at hxs
        simp only [slotArc, hof.literal heq, heq]
        exact congrArg some hxs.symm
      · obtain ⟨i, hi, hkey⟩ := hof.label _ heq
        rw [heq] at hxs
        simp only [slotArc, hi, arcAt_eq hkey hxs]
    exact ⟨x, hslot .own, hslot .other⟩
  · rw [hl.length_sets] at hi
    obtain ⟨⟨side, label⟩, hkey⟩ : ∃ key, labels.keys[i]? = some key := ⟨_, getElem?_eq_getElem hi⟩
    obtain ⟨p, hp, harc⟩ : ∃ p ∈ positions, (side.of p).arc = .label label := by
      rcases hl.keys _ (mem_of_getElem? hkey) with h | h
      · cases h
      · exact h
    obtain ⟨x, hx⟩ := hat p hp
    have hxs := hx side
    rw [harc] at hxs
    rw [hl.getD_sets hkey, arcAt_eq hkey hxs]
    obtain ⟨q, hq, heq⟩ : ∃ q ∈ (template side).placeholders, TemplateArc.label label = .label q.name := by
      rcases arc_cases (hstring side) (arc_mem_template harcs hp side) with ⟨n, -, heq⟩ | ⟨q, hq, heq⟩
      · rw [harc] at heq
        cases heq
      · exact ⟨q, hq, harc.symm.trans heq⟩
    obtain rfl := TemplateArc.label.inj heq
    obtain ⟨set, value, hset, hholds, hvalue⟩ := hchosen side q hq
    refine ArcSet.arc_ofLabel.mpr ⟨set, hset, value, hholds, ?_⟩
    have hbind : (labelValue (values side) q.name).bind indexArc = some x := hxs
    rwa [hvalue] at hbind

omit hl harcs hstring in
/-- The labels of one side, with the texts of their arcs. -/
def choiceOf (keys : List (Side × Text)) (A : Nat → Nat) (side : Side) : Labels :=
  keys.zipIdx.filterMap fun (key, i) => if key.1 = side then some (key.2, decimal (A i)) else none

omit hl harcs hstring in
theorem labelValue_choiceOf (hnodup : keys.Nodup) (hkey : keys[i]? = some (side, label)) :
    labelValue (choiceOf keys A side) label = some (decimal (A i)) := by
  have hmem : ∀ {entry}, entry ∈ choiceOf keys A side ↔
      ∃ j, keys[j]? = some (side, entry.1) ∧ entry.2 = decimal (A j) := by
    rintro ⟨name, value⟩
    simp only [choiceOf, mem_filterMap, Prod.exists, mem_zipIdx_iff_getElem?]
    constructor
    · rintro ⟨s, l, j, hj, heq⟩
      split at heq
      · cases heq
        subst s
        exact ⟨j, hj, rfl⟩
      · cases heq
    · rintro ⟨j, hj, rfl⟩
      exact ⟨side, name, j, hj, if_pos rfl⟩
  unfold labelValue
  cases hfind : (choiceOf keys A side).find? fun entry => entry.1 == label with
  | none =>
    have hentry : (label, decimal (A i)) ∈ choiceOf keys A side := hmem.mpr ⟨i, hkey, rfl⟩
    exact absurd (beq_self_eq_true label) (find?_eq_none.mp hfind _ hentry)
  | some entry =>
    obtain ⟨j, hj, hvalue⟩ := hmem.mp (mem_of_find?_eq_some hfind)
    have hname := find?_some hfind
    rw [beq_iff_eq.mp hname, ← hkey] at hj
    have hij : j = i := (List.getElem?_inj (List.getElem?_eq_some_iff.mp (hj.trans hkey)).1 hnodup).mp hj
    rw [Option.map_some, hvalue, hij]

/-- A solution is read back as values that render one OID from both templates. -/
theorem chosen_of_solves
    (hA : List.Forall₂ (fun p x => slotArc A p.1 = some x ∧ slotArc A p.2 = some x ∧
      ∀ i, Occupies p i → (labels.sets.getD i default).Arc (A i)) positions xs)
    (side : Side) :
    Chosen labelValueSet (template side) (choiceOf labels.keys A side) ∧
      (template side).render (choiceOf labels.keys A side) = .ok xs := by
  obtain ⟨hlen, hzip⟩ := forall₂_iff_zip.mp hA
  have hslot : ∀ {p x}, (p, x) ∈ positions.zip xs → slotArc A (side.of p) = some x := by
    intro p x hpx
    cases side with
    | own => exact (hzip hpx).1
    | other => exact (hzip hpx).2.1
  have hlabel : ∀ {p x label}, (p, x) ∈ positions.zip xs → (side.of p).arc = .label label →
      ∃ i, labels.keys[i]? = some (side, label) ∧ x = A i ∧ (labels.sets.getD i default).Arc x := by
    intro p x label hpx harc
    obtain ⟨i, hi, hkey⟩ := (hl.slots p (of_mem_zip hpx).1 side).label _ harc
    have hx : x = A i := by simpa [slotArc, hi] using (hslot hpx).symm
    have hocc : Occupies p i := by
      cases side with
      | own => exact .inl hi
      | other => exact .inr hi
    exact ⟨i, hkey, hx, hx ▸ (hzip hpx).2.2 i hocc⟩
  constructor
  · intro q hq
    have hmem : TemplateArc.label q.name ∈ (template side).arcs := by
      refine mem_append_right _ (mem_map.mpr ⟨q, hq, ?_⟩)
      exact if_neg (any_eq_false.mp (hstring side) q hq)
    rw [← harcs side] at hmem
    obtain ⟨p, hp, harc⟩ := mem_map.mp hmem
    obtain ⟨x, hpx⟩ := exists_mem_zip hlen hp
    obtain ⟨i, hkey, hx, harcx⟩ := hlabel hpx harc
    rw [hl.getD_sets hkey] at harcx
    obtain ⟨set, hset, hrenders⟩ := ArcSet.arc_ofLabel.mp harcx
    refine ⟨set, decimal x, hset, (ArcSet.rendersAs_iff.mp hrenders).2, ?_⟩
    rw [hx]
    exact labelValue_choiceOf hl.laid.nodup hkey
  · rw [render_iff (hstring side), ← harcs side, forall₂_map_left_iff, forall₂_iff_zip]
    refine ⟨hlen, ?_⟩
    intro p x hpx
    have hp := (of_mem_zip hpx).1
    rcases arc_cases (hstring side) (arc_mem_template harcs hp side) with ⟨n, -, heq⟩ | ⟨q, -, heq⟩
    · rw [heq]
      show x = n
      simpa [slotArc, (hl.slots p hp side).literal heq, heq] using (hslot hpx).symm
    · obtain ⟨i, hkey, hx, harcx⟩ := hlabel hpx heq
      rw [heq]
      show (labelValue (choiceOf labels.keys A side) q.name).bind indexArc = some x
      rw [labelValue_choiceOf hl.laid.nodup hkey, ← hx]
      exact indexArc_decimal harcx.2

end

/-! ## The templates of a pair -/

/-- For two templates without string indices and any values of their labels, the
passes of `snmp_collision` end; it returns a collision when values of the labels,
chosen on each side by themselves, render one OID from both templates; and when
the collision is exact, such values render its OID. -/
theorem snmpCollision_finds (own other : OidTemplate) (labelValueSet : Text → Option LabelValueSet)
    (hown : own.hasStringIndex = false) (hother : other.hasStringIndex = false) :
    ∃ passes r, (∀ fuel, passes ≤ fuel → snmpCollision fuel own other labelValueSet = some r) ∧
      ((∃ a b arcs, Chosen labelValueSet own a ∧ Chosen labelValueSet other b ∧
        own.render a = .ok arcs ∧ other.render b = .ok arcs) → r.isSome = true) ∧
      ∀ oid values, r = some (.oid oid values true) →
        ∃ a b arcs, Chosen labelValueSet own a ∧ Chosen labelValueSet other b ∧
          own.render a = .ok arcs ∧ other.render b = .ok arcs ∧ oid = dotted arcs := by
  have hstring : ∀ side : Side, (side.of (own, other)).hasStringIndex = false := by
    intro side
    cases side with
    | own => exact hown
    | other => exact hother
  simp only [snmpCollision, hown, hother, Bool.or_self, Bool.false_eq_true, if_false]
  by_cases hlen : own.arcs.length = other.arcs.length
  · simp only [ne_eq, hlen, not_true, if_false]
    have hl : LaidOut labelValueSet (own.arcs.zip other.arcs) ⟨[], []⟩
        (positionsOf labelValueSet (own.arcs.zip other.arcs) ⟨[], []⟩).1
        (positionsOf labelValueSet (own.arcs.zip other.arcs) ⟨[], []⟩).2 :=
      positionsOf_laid _ ⟨nodup_nil, rfl⟩
    generalize positionsOf labelValueSet (own.arcs.zip other.arcs) ⟨[], []⟩ = laid at hl ⊢
    obtain ⟨positions, labels⟩ := laid
    have harcs : ∀ side : Side, positions.map (fun p => (side.of p).arc) = (side.of (own, other)).arcs := by
      intro side
      cases side with
      | own =>
        have := congrArg (map Prod.fst) hl.arcs_eq
        rwa [map_map, map_fst_zip hlen.le] at this
      | other =>
        have := congrArg (map Prod.snd) hl.arcs_eq
        rwa [map_map, map_snd_zip hlen.ge] at this
    have hplaced := hl.placed harcs hstring
    obtain ⟨passes, sets, hsettle, hnarrowed, hfix⟩ := settles hplaced hl.bounded
    refine ⟨passes, collisionOf positions sets, fun fuel hfuel => ?_, ?_, fun oid values hc => ?_⟩
    · rw [hsettle fuel hfuel]
      rfl
    · rintro ⟨a, b, arcs, hchosen, hchosen', hrender, hrender'⟩
      have hboth : ∀ side : Side, Chosen labelValueSet (side.of (own, other)) (side.of (a, b)) ∧
          (side.of (own, other)).render (side.of (a, b)) = .ok arcs := by
        intro side
        cases side with
        | own => exact ⟨hchosen, hrender⟩
        | other => exact ⟨hchosen', hrender'⟩
      obtain ⟨A, hA, h₀⟩ := solves_of_chosen hl harcs hstring (fun side => (hboth side).1)
        fun side => (hboth side).2
      exact collisionOf_of_solves hplaced hnarrowed hA h₀
    · obtain ⟨A, arcs, hoid, hA⟩ := solves_of_collisionOf hplaced hnarrowed hfix hc
      have hchosen := chosen_of_solves hl harcs hstring hA
      exact ⟨_, _, arcs, (hchosen .own).1, (hchosen .other).1, (hchosen .own).2, (hchosen .other).2, hoid⟩
  · simp only [ne_eq, hlen, not_false_eq_true, if_true]
    refine ⟨0, none, fun _ _ => rfl, ?_, nofun⟩
    -- templates that render one OID have the OID's length
    rintro ⟨a, b, arcs, -, -, hrender, hrender'⟩
    exact absurd (((render_iff hown).mp hrender).length_eq.trans
      ((render_iff hother).mp hrender').length_eq.symm) hlen

/-- `1.3.6.1.4.{slot}.{slot}`. -/
def twiceIndexed : OidTemplate :=
  ⟨⟨[1, 3, 6, 1, 4], by decide⟩, [⟨[0x73], false⟩, ⟨[0x73], false⟩], by decide⟩

/-- `1.3.6.1.4.7.{port}`. -/
def onceIndexed : OidTemplate := ⟨⟨[1, 3, 6, 1, 4, 7], by decide⟩, [⟨[0x70], false⟩], by decide⟩

/-- A slot is 7 or 8, a port a counter's number below 10. -/
def slotsAndPorts (label : Text) : Option LabelValueSet :=
  if label = [0x73] then some (.values [[0x37], [0x38]])
  else if label = [0x70] then some (.counter [] 10)
  else none

/-- Slot 7 and port 7 render one OID. -/
theorem snmpCollision_finds_slot_and_port :
    ∃ passes r, (∀ fuel, passes ≤ fuel → snmpCollision fuel twiceIndexed onceIndexed slotsAndPorts = some r) ∧
      r.isSome = true := by
  obtain ⟨passes, r, hr, hfound, -⟩ :=
    snmpCollision_finds twiceIndexed onceIndexed slotsAndPorts (by decide) (by decide)
  refine ⟨passes, r, hr, hfound ⟨[([0x73], [0x37])], [([0x70], [0x37])], [1, 3, 6, 1, 4, 7, 7], ?_, ?_, ?_, ?_⟩⟩
  · intro p hp
    obtain rfl : p = ⟨[0x73], false⟩ := by simpa [twiceIndexed] using hp
    exact ⟨.values [[0x37], [0x38]], [0x37], rfl, mem_cons_self, rfl⟩
  · intro p hp
    obtain rfl : p = ⟨[0x70], false⟩ := by simpa [onceIndexed] using hp
    exact ⟨.counter [] 10, [0x37], rfl, ⟨7, by decide, by decide⟩, rfl⟩
  · decide
  · decide

end Sonda.Config
