import Sonda.Impl.Config.Labels
import Sonda.Proof.Config.Durations

/-!
# Events carry labels of their value sets

`label_value_set` and the runner go over the same sources in the same order: the
static label, the last dynamic label and each spike. `Covers` says that a set accounts
for what an event has at a key, a value or none. A dynamic label's set covers its value
(`dynamic_covers`), a spike's set covers what is under its window, open or closed
(`wrapSpike_covers`), and so the set of a key covers it on every event
(`event_covered`).
-/

namespace Sonda.Config

open Framework List
open BaseScheduleConfig (dynamicValueSet emittedLabelKeys wrapSpike)
open Sonda.Schedule (SondaError)

variable {spike : CardinalitySpikeConfig} {std : StdParse} {config : BaseScheduleConfig}
  {window : CardinalitySpikeWindow} {value key lead : Text} {cardinality : UInt64}

/-- The set accounts for what an event has at a key: its value is in the set, and
where it has none the set may be absent. -/
def Covers (set : Option LabelValueSet) : Option Text → Prop
  | some value => ∃ s, set = some s ∧ s.Holds value
  | none => ∀ s, set = some s → s.mayBeAbsent = true

/-! ## Labels -/

namespace EventLabels

theorem get_insert (labels : EventLabels) (k value key : Text) :
    (labels.insert k value).get key = if k = key then some value else labels.get key :=
  value_insertKey octets_injective k key value labels

/-- What a key has after pairs are inserted. -/
theorem fromPairs_get {std : StdParse} {pairs : List (Text × Text)} {labels : EventLabels}
    (h : fromPairs std pairs = .ok labels) (key : Text) :
    (∀ value, labels.get key = some value → (key, value) ∈ pairs) ∧
      (labels.get key = none → ∀ value, (key, value) ∉ pairs) := by
  induction pairs using reverseRecOn generalizing labels with
  | nil =>
    cases h
    exact ⟨fun value hv => absurd hv (by rw [get]; simp), fun _ _ => not_mem_nil⟩
  | append_singleton pairs pair ih =>
    rw [fromPairs, foldlM_append] at h
    obtain ⟨inner, hinner, h⟩ := bind_ok h
    obtain ⟨next, hnext, h⟩ := bind_ok h
    cases h
    obtain ⟨-, hnext⟩ := check_ok hnext
    cases hnext
    have ih := ih hinner
    rw [get_insert]
    by_cases hk : pair.1 = key
    · rw [if_pos hk]
      refine ⟨fun value hv => ?_, nofun⟩
      rw [← Option.some.inj hv, ← hk]
      exact mem_append_right _ mem_cons_self
    · rw [if_neg hk]
      refine ⟨fun value hv => mem_append_left _ (ih.1 value hv), fun hv value hmem => ?_⟩
      rcases mem_append.mp hmem with hmem | hmem
      · exact ih.2 hv value hmem
      · rw [← mem_singleton.mp hmem] at hk
        exact hk rfl

end EventLabels

/-! ## Static labels -/

theorem mem_staticPairs : (key, value) ∈ staticPairs config ↔
      (config.labels.bind fun labels => labels.lookup key) = some value := by
  unfold staticPairs
  rw [mem_filterMap]
  constructor
  · rintro ⟨⟨k, source⟩, -, h⟩
    dsimp only at h
    split at h
    · obtain ⟨v, hv, heq⟩ := Option.map_eq_some_iff.mp h
      obtain ⟨rfl, rfl⟩ := Prod.mk.inj heq
      exact hv
    · cases h
  · intro h
    obtain ⟨labels, hlabels, hlookup⟩ := Option.bind_eq_some_iff.mp h
    refine ⟨(key, .static), ?_, by simp [h]⟩
    have hkey : key ∈ labels.keys := by
      apply AList.mem_keys.mp
      rw [← AList.lookup_isSome, hlookup]
      rfl
    simp [emittedLabelKeys, hlabels, hkey]

theorem static_covers {labels : EventLabels}
    (h : EventLabels.fromPairs std (staticPairs config) = .ok labels) (key : Text) :
    Covers ((config.labels.bind fun labels => labels.lookup key).map .static) (labels.get key) := by
  obtain ⟨hsome, hnone⟩ := EventLabels.fromPairs_get h key
  cases hv : labels.get key with
  | some value =>
    rw [mem_staticPairs.mp (hsome value hv)]
    exact ⟨.static value, rfl, rfl⟩
  | none =>
    intro s hs
    obtain ⟨value, hvalue, -⟩ := Option.map_eq_some_iff.mp hs
    exact absurd (mem_staticPairs.mpr hvalue) (hnone hv value)

/-! ## Dynamic labels -/

/-- A tick's place in a cycle. -/
theorem toNat_mod_lt (tick : UInt64) {n : UInt64} (h : n ≠ 0) : (tick % n).toNat < n.toNat := by
  apply Nat.mod_lt
  rw [Nat.pos_iff_ne_zero]
  exact fun h0 => h (UInt64.toNat_inj.mp h0)

theorem dynamicLabel_value {dl : DynamicLabelConfig}
    (h : validateDynamicLabelConfig std dl = .ok ()) (tick : UInt64) :
    ∃ value, (dynamicLabel dl).labelValueForTick tick = some value ∧
      (dynamicValueSet dl.key dl).Holds value := by
  obtain ⟨key, strategy⟩ := dl
  obtain ⟨-, h⟩ := check_ok h
  cases strategy with
  | counter lead cardinality =>
    have hne : cardinality ≠ 0 := fun h0 => (check_ok h).1 (by rw [h0]; rfl)
    refine ⟨_, if_neg hne, ?_⟩
    exact ⟨_, toNat_mod_lt tick hne, rfl⟩
  | valuesList values fits =>
    have hne : values ≠ [] := fun h0 => (check_ok h).1 (by rw [h0]; rfl)
    have hlen : (UInt64.ofNat values.length).toNat = values.length := by
      rw [UInt64.toNat_ofNat', Nat.mod_eq_of_lt fits]
    have hcard : UInt64.ofNat values.length ≠ 0 := by
      intro h0
      rw [h0] at hlen
      exact hne (length_eq_zero_iff.mp hlen.symm)
    have hlt := toNat_mod_lt tick hcard
    rw [hlen] at hlt
    have hempty : ¬ values.isEmpty = true := by rwa [List.isEmpty_iff]
    refine ⟨values[(tick % UInt64.ofNat values.length).toNat], ?_, getElem_mem _⟩
    exact (if_neg hcard).trans ((if_neg hempty).trans (getElem?_eq_getElem hlt))

/-- The last dynamic label of a key covers what it has. -/
theorem dynamic_covers {dls : List DynamicLabelConfig}
    (h : ∀ dl ∈ dls, validateDynamicLabelConfig std dl = .ok ()) (tick : UInt64)
    (labels : EventLabels) :
    ∃ labels', (dls.map dynamicLabel).foldlM (applyDynamic tick) labels = some labels' ∧
      ∀ key set, Covers set (labels.get key) →
        Covers (match dls.reverse.find? fun dl => dl.key == key with
          | some dl => some (dynamicValueSet key dl)
          | none => set) (labels'.get key) := by
  induction dls using reverseRecOn with
  | nil => exact ⟨labels, rfl, fun _ _ hset => hset⟩
  | append_singleton dls dl ih =>
    obtain ⟨labels₁, hfold, hcovers⟩ := ih fun d hd => h d (mem_append_left _ hd)
    obtain ⟨value, hvalue, hholds⟩ := dynamicLabel_value (h dl (by simp)) tick
    have hkey : (dynamicLabel dl).key = dl.key := by
      unfold dynamicLabel
      split <;> rfl
    refine ⟨labels₁.insert dl.key value, ?_, fun key set hset => ?_⟩
    · rw [map_append, foldlM_append, hfold, map_singleton]
      show (applyDynamic tick labels₁ (dynamicLabel dl) >>= fun s => some s) = _
      rw [applyDynamic, hvalue, hkey]
      rfl
    · rw [reverse_append, reverse_singleton, singleton_append, find?_cons,
        EventLabels.get_insert]
      by_cases hk : dl.key = key
      · rw [if_pos hk, beq_iff_eq.mpr hk, ← hk]
        exact ⟨_, rfl, hholds⟩
      · rw [if_neg hk, beq_eq_false_iff_ne.mpr hk]
        exact hcovers key set hset

/-! ## Spikes -/

/-- What a spike's window has of its configuration. -/
theorem spikeWindow_ok (h : spikeWindow std spike = .ok window) :
    ∃ every duration, window = ⟨spike.label, every, duration, spike.cardinality, spike.strategy,
      spike.lead.getD (defaultPrefix spike.label), spike.seed.getD 0⟩ := by
  obtain ⟨every, -, h⟩ := bind_ok h
  obtain ⟨duration, -, h⟩ := bind_ok h
  cases h
  exact ⟨every, duration, rfl⟩

theorem cardinality_ne_zero (h : validateCardinalitySpikeConfig std spike = .ok ()) :
    spike.cardinality ≠ 0 := by
  obtain ⟨-, h⟩ := check_ok h
  obtain ⟨every, -, h⟩ := bind_ok h
  obtain ⟨forDur, -, h⟩ := bind_ok h
  obtain ⟨-, h⟩ := check_ok h
  intro h0
  exact (check_ok h).1 (by rw [h0]; rfl)

/-- A spike's value is in the set it makes. -/
theorem spike_value (hc : spike.cardinality ≠ 0) (every duration : Nat) (tick : UInt64)
    (set : Option LabelValueSet) :
    ∃ value s, CardinalitySpikeWindow.labelValueForTick ⟨spike.label, every, duration,
        spike.cardinality, spike.strategy, spike.lead.getD (defaultPrefix spike.label),
        spike.seed.getD 0⟩ tick = some value ∧
      wrapSpike spike.label set spike = some s ∧ s.Holds value := by
  obtain ⟨label, every', for_, cardinality, strategy, lead, seed⟩ := spike
  have hlt := toNat_mod_lt tick hc
  cases strategy with
  | counter =>
    refine ⟨_, .spikeCounter (lead.getD (defaultPrefix label)) cardinality set, if_neg hc,
      if_neg (fun h => h rfl), ?_⟩
    cases set <;> exact .inl ⟨_, hlt, rfl⟩
  | random =>
    refine ⟨_, .randomShape (lead.getD (defaultPrefix label)) (seed.getD 0) cardinality set, if_neg hc,
      if_neg (fun h => h rfl), ?_⟩
    cases set <;> exact .inl ⟨_, UInt64.lt_iff_toNat_lt.mpr hlt, rfl⟩

/-- A spike's set covers what its key has while the window is closed. -/
theorem wrapSpike_covers {set : Option LabelValueSet} {value : Option Text} (h : Covers set value)
    (spike : CardinalitySpikeConfig) :
    Covers (wrapSpike key set spike) value := by
  unfold wrapSpike
  split
  · exact h
  cases value with
  | some value =>
    obtain ⟨s, rfl, hs⟩ := h
    refine ⟨_, rfl, ?_⟩
    cases spike.strategy with
    | counter => exact Or.inr hs
    | random => exact Or.inr hs
  | none =>
    intro s hs
    rw [← Option.some.inj hs]
    cases set with
    | none =>
      cases spike.strategy with
      | counter => rfl
      | random => rfl
    | some outside =>
      have habsent := h outside rfl
      cases spike.strategy with
      | counter => exact habsent
      | random => exact habsent

theorem applySpike_covers {F : Type} (secs : StdSecs F)
    (hv : validateCardinalitySpikeConfig std spike = .ok ())
    (hw : spikeWindow std spike = .ok window) (tick : UInt64) (elapsed : Nat) (labels : EventLabels) :
    ∃ labels', applySpike secs tick elapsed labels window = some labels' ∧
      ∀ key set, Covers set (labels.get key) →
        Covers (wrapSpike key set spike) (labels'.get key) := by
  obtain ⟨every, duration, rfl⟩ := spikeWindow_ok hw
  unfold applySpike
  split
  · obtain ⟨value, -, hvalue, -⟩ := spike_value (cardinality_ne_zero hv) every duration tick none
    rw [hvalue]
    refine ⟨_, rfl, fun key set hset => ?_⟩
    rw [EventLabels.get_insert]
    split
    · rename_i hk
      subst hk
      obtain ⟨value', s, hvalue', hs, hholds⟩ :=
        spike_value (cardinality_ne_zero hv) every duration tick set
      rw [hvalue] at hvalue'
      cases hvalue'
      exact ⟨s, hs, hholds⟩
    · exact wrapSpike_covers hset spike
  · exact ⟨labels, rfl, fun key set hset => wrapSpike_covers hset spike⟩

/-- Over all spikes. -/
theorem spikes_cover {F : Type} (secs : StdSecs F) {spikes : List CardinalitySpikeConfig}
    {windows : List CardinalitySpikeWindow}
    (hv : ∀ spike ∈ spikes, validateCardinalitySpikeConfig std spike = .ok ())
    (hw : List.Forall₂ (fun spike window => spikeWindow std spike = .ok window) spikes windows)
    (tick : UInt64) (elapsed : Nat) (labels : EventLabels) :
    ∃ labels', windows.foldlM (applySpike secs tick elapsed) labels = some labels' ∧
      ∀ key set, Covers set (labels.get key) →
        Covers (spikes.foldl (wrapSpike key) set) (labels'.get key) := by
  induction hw generalizing labels with
  | nil => exact ⟨labels, rfl, fun _ _ hset => hset⟩
  | cons hhead _ ih =>
    obtain ⟨hvhead, hvtail⟩ := forall_mem_cons.mp hv
    obtain ⟨labels₁, happly, hcovers⟩ := applySpike_covers secs hvhead hhead tick elapsed labels
    obtain ⟨labels₂, hfold, hcovers'⟩ := ih hvtail labels₁
    refine ⟨labels₂, ?_, fun key set hset => hcovers' key _ (hcovers key set hset)⟩
    rw [foldlM_cons, happly]
    exact hfold

/-! ## Events -/

/-- With no label applied tick by tick the sources are the static labels alone. -/
theorem of_not_perTickLabels (h : perTickLabels config = false) :
    config.dynamicLabels.getD [] = [] ∧ config.cardinalitySpikes.getD [] = [] := by
  unfold perTickLabels emittedLabelKeys at h
  refine ⟨?_, ?_⟩
  · by_contra hne
    obtain ⟨dl, dls, hcons⟩ := exists_cons_of_ne_nil hne
    rw [hcons] at h
    simp at h
  · by_contra hne
    obtain ⟨spike, spikes, hcons⟩ := exists_cons_of_ne_nil hne
    rw [hcons] at h
    simp at h

/-- An event of a validated entry carries at each key a value of the key's set, or none
where the set may be absent. -/
theorem event_covered {F : Type} (secs : StdSecs F) {std : StdParse} {config : BaseScheduleConfig}
    {tick : UInt64} {elapsed : Nat} {event : Option EventLabels}
    (hvalid : validateLabelSources std config = .ok ())
    (hevent : eventLabels secs std config tick elapsed = .ok event) :
    ∃ labels, event = some labels ∧ ∀ key, Covers (config.labelValueSet key) (labels.get key) := by
  obtain ⟨_, hspikes, hdynamic⟩ := bind_ok hvalid
  have hspikes := forM_ok hspikes
  have hdynamic := forM_ok hdynamic
  obtain ⟨schedule, hschedule, hevent⟩ := bind_ok hevent
  obtain ⟨statics, hstatics, hevent⟩ := bind_ok hevent
  obtain ⟨windows, hwindows, hschedule⟩ := bind_ok hschedule
  cases hschedule
  cases hevent
  obtain ⟨labels₁, hdl, hcovers₁⟩ := dynamic_covers hdynamic tick statics
  obtain ⟨labels₂, hsw, hcovers₂⟩ :=
    spikes_cover secs hspikes (mapM_ok_forall₂ hwindows) tick elapsed labels₁
  have hcovers (key : Text) : Covers (config.labelValueSet key) (labels₂.get key) :=
    hcovers₂ key _ (hcovers₁ key _ (static_covers hstatics key))
  refine ⟨labels₂, ?_, hcovers⟩
  cases hper : perTickLabels config with
  | true =>
    show (foldlM _ _ _ >>= _) = _
    rw [hdl]
    exact hsw
  | false =>
    obtain ⟨hnodl, hnosw⟩ := of_not_perTickLabels hper
    rw [hnodl] at hdl
    rw [hnosw] at hwindows
    cases hwindows
    cases hdl
    cases hsw
    rfl

/-- A key with a static, a dynamic and a spike label, and a key with a spike alone: the
spikes are open for a second of each minute. -/
def layered : BaseScheduleConfig where
  cardinalitySpikes := some [⟨[0x61], [0x31, 0x6d], [0x31, 0x73], 3, .counter, none, none⟩,
    ⟨[0x62], [0x31, 0x6d], [0x31, 0x73], 2, .counter, some [], none⟩]
  dynamicLabels := some [⟨[0x61], .counter (some []) 4⟩]
  labels := some ((∅ : AList fun _ : Text => Text).insert [0x61] [0x78])

def exactSecs : StdSecs Nat := ⟨id, fun a b => a % b, fun a b => a < b⟩

/-- At tick 7, with the windows open and with the windows closed. -/
theorem event_covered_layered :
    (validateLabelSources decimalParse layered = .ok () ∧
      eventLabels exactSecs decimalParse layered 7 0 =
        .ok (some [([0x61], [0x61, 0x5f, 0x31]), ([0x62], [0x31])]) ∧
      eventLabels exactSecs decimalParse layered 7 2000000000 = .ok (some [([0x61], [0x33])])) ∧
    (∃ labels, some [([0x61], [0x61, 0x5f, 0x31]), ([0x62], [0x31])] = some labels ∧
        ∀ key, Covers (layered.labelValueSet key) (EventLabels.get labels key)) ∧
      ∃ labels, some [([0x61], [0x33])] = some labels ∧
        ∀ key, Covers (layered.labelValueSet key) (EventLabels.get labels key) := by
  have hopen : eventLabels exactSecs decimalParse layered 7 0 =
      .ok (some [([0x61], [0x61, 0x5f, 0x31]), ([0x62], [0x31])]) := by decide +kernel
  have hclosed : eventLabels exactSecs decimalParse layered 7 2000000000 =
      .ok (some [([0x61], [0x33])]) := by decide +kernel
  have hvalid : validateLabelSources decimalParse layered = .ok () := by decide +kernel
  exact ⟨⟨hvalid, hopen, hclosed⟩, event_covered exactSecs hvalid hopen,
    event_covered exactSecs hvalid hclosed⟩

end Sonda.Config
