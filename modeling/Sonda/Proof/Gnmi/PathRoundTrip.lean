import Mathlib.Data.List.TakeWhile
import Sonda.Framework.Fallible
import Sonda.Impl.Gnmi.Path

/-!
# Rendered paths read back

`parse_client_path` reads the text of a path back when each element name and each
key name keeps clear of the characters that end it (`Path.Readable`), whatever the
key values are (`parseClientPath_of_readable`): the text of a path is cut into
names, key names and escaped values, and each piece is read up to what ends it.
What a template renders is readable (`readable_of_render`), because `parse` cuts
key names at the first `=` and at `]`, and `render` checks element names. The main
result is `parseClientPath_render`.
-/

namespace Sonda.Gnmi

open Framework List
open Config (Text stripPrefix)
open Sonda.Schedule (SondaError)

variable {origin : Text}

/-! ## What reads back -/

/-- A key name that ends at its `=`. -/
structure KeyReadable (key : Text) : Prop where
  ne_nil : key ≠ []
  chars : ∀ c ∈ key, c ≠ equals ∧ c ≠ closeBracket

/-- An element that reads back as one element with its keys. -/
structure PathElem.Readable (elem : PathElem) : Prop where
  name : isValidElementName elem.name = true
  keys : ∀ entry ∈ elem.key.entries, KeyReadable entry.1

theorem isValidElementName_iff {element : Text} : isValidElementName element = true ↔
      element ≠ [] ∧ ∀ c ∈ element, c ≠ slash ∧ c ≠ openBracket ∧ c ≠ closeBracket := by
  simp [isValidElementName, and_assoc]

/-! ## Reading each piece -/

section

variable {elem : List PathElem}
variable {e : PathElem} {keys all : KeyMap} {text : Text} {entry : Text × Text} (name : Text)

theorem readElems_name (h : ∀ c ∈ text, c ≠ slash ∧ c ≠ openBracket ∧ c ≠ closeBracket) (rest : Text) :
    readElems elem (.name name) (text ++ rest) = readElems elem (.name (name ++ text)) rest := by
  induction text generalizing name with
  | nil => rw [nil_append, append_nil]
  | cons c text ih =>
    obtain ⟨⟨h1, h2, h3⟩, htext⟩ := forall_mem_cons.mp h
    rw [cons_append, readElems, if_neg (by simpa using h1), if_neg (by simpa using h2),
      if_neg (by simpa using h3), ih _ htext, append_assoc, singleton_append]

theorem readElems_key (keys : KeyMap) (key : Text)
    (h : ∀ c ∈ text, c ≠ equals ∧ c ≠ closeBracket) (rest : Text) :
    readElems elem (.key name keys key) (text ++ rest) =
      readElems elem (.key name keys (key ++ text)) rest := by
  induction text generalizing key with
  | nil => rw [nil_append, append_nil]
  | cons c text ih =>
    obtain ⟨⟨h1, h2⟩, htext⟩ := forall_mem_cons.mp h
    rw [cons_append, readElems, if_neg (by simpa using h1), if_neg (by simpa using h2), ih _ htext,
      append_assoc, singleton_append]

/-- An escaped value is read as the value. -/
theorem readElems_value (keys : KeyMap) (key value text rest : Text) :
    readElems elem (.value name keys key value) (escaped text ++ rest) =
      readElems elem (.value name keys key (value ++ text)) rest := by
  induction text generalizing value with
  | nil => rw [escaped, flatMap_nil, nil_append, append_nil]
  | cons c text ih =>
    have hrest : ∀ value, readElems elem (.value name keys key value) (escaped text ++ rest) =
        readElems elem (.value name keys key (value ++ text)) rest := ih
    rw [escaped, flatMap_cons, append_assoc]
    change readElems elem _ ((if c == closeBracket || c == backslash then [backslash, c] else [c]) ++
      (escaped text ++ rest)) = _
    split
    · -- the backslash is dropped, and whatever follows it is taken
      rw [cons_append, singleton_append, readElems, if_neg (by decide), if_pos (by decide),
        readElems_escape, hrest, append_assoc, singleton_append]
    · rename_i hc
      rw [Bool.or_eq_true, not_or] at hc
      rw [singleton_append, readElems, if_neg hc.1, if_neg hc.2, hrest, append_assoc,
        singleton_append]

theorem keyText_append (entry : Text × Text) (rest : Text) : keyText entry ++ rest =
    openBracket :: (entry.1 ++ equals :: (escaped entry.2 ++ closeBracket :: rest)) := by
  simp [keyText]

/-- A key group, after its bracket. -/
theorem readElems_group (keys : KeyMap) (hkey : KeyReadable entry.1)
    (hnew : keys.containsKey entry.1 = false) (rest : Text) :
    readElems elem (.key name keys []) (entry.1 ++ equals :: (escaped entry.2 ++ closeBracket :: rest)) =
      readElems elem (.after name (keys.insert entry.1 entry.2)) rest := by
  have hne : ¬ entry.1.isEmpty = true := by simpa using hkey.ne_nil
  rw [readElems_key _ _ _ hkey.chars, nil_append, readElems, if_pos (by decide), if_neg hne,
    readElems_value, nil_append, readElems, if_pos (by decide), if_neg (by simp [hnew])]

/-! ## Reading an element -/

/-- Where the loops are after an element: keys that are read end it. -/
def afterElem (elem : PathElem) : Reading :=
  if elem.key.entries = [] then .name elem.name else .after elem.name elem.key

theorem KeyMap.containsKey_eq_false {key : Text}
    (h : ∀ e ∈ keys.entries, octetNumbers e.1 < octetNumbers key) : keys.containsKey key = false := by
  rw [KeyMap.containsKey, any_eq_false]
  intro e he hkey
  have hlt := h e he
  rw [beq_iff_eq.mp hkey] at hlt
  exact lt_irrefl _ hlt

theorem KeyMap.ext (h : keys.entries = all.entries) : keys = all := by
  rwa [KeyMap.mk.injEq]

/-- Key groups in the order of their keys are read into one map. -/
theorem readElems_groups {entries : List (Text × Text)}
    (hall : all.entries = keys.entries ++ entries) (hread : ∀ e ∈ entries, KeyReadable e.1)
    (rest : Text) :
    readElems elem (.after name keys) (entries.flatMap keyText ++ rest) =
      readElems elem (.after name all) rest := by
  induction entries generalizing keys with
  | nil =>
    rw [append_nil] at hall
    rw [flatMap_nil, nil_append, KeyMap.ext hall]
  | cons entry entries ih =>
    obtain ⟨hentry, hentries⟩ := forall_mem_cons.mp hread
    have hordered := all.ordered
    rw [hall] at hordered
    have hless : ∀ e ∈ keys.entries, octetNumbers e.1 < octetNumbers entry.1 :=
      fun e he => (pairwise_append.mp hordered).2.2 e he entry mem_cons_self
    rw [flatMap_cons, append_assoc, keyText_append, readElems, if_pos (by decide),
      readElems_group _ _ hentry (KeyMap.containsKey_eq_false hless)]
    apply ih _ hentries
    rw [show (keys.insert entry.1 entry.2).entries = _ from insertKey_last hless, hall,
      append_assoc, singleton_append]

/-- An element is read up to what follows it. -/
theorem readElems_elem (h : e.Readable) (rest : Text) :
    readElems elem (.name []) (e.name ++ e.key.entries.flatMap keyText ++ rest) =
      readElems elem (afterElem e) rest := by
  obtain ⟨hne, hchars⟩ := isValidElementName_iff.mp h.name
  rw [append_assoc, readElems_name _ hchars, nil_append, afterElem]
  cases hentries : e.key.entries with
  | nil => rw [if_pos rfl, flatMap_nil, nil_append]
  | cons entry entries =>
    have hread := h.keys
    rw [hentries] at hread
    obtain ⟨hentry, hrest⟩ := forall_mem_cons.mp hread
    have hname : ¬ e.name.isEmpty = true := by simpa using hne
    rw [if_neg (cons_ne_nil _ _), flatMap_cons, append_assoc, keyText_append, readElems,
      if_neg (by decide), if_pos (by decide), if_neg hname, readElems_group _ _ hentry rfl]
    exact readElems_groups _ hentries hrest rest

theorem readElems_end (h : e.Readable) : readElems elem (afterElem e) [] = .ok (elem ++ [e]) := by
  have hname : ¬ e.name.isEmpty = true := by simpa using (isValidElementName_iff.mp h.name).1
  unfold afterElem
  split
  · rename_i hempty
    have hkey : e.key = .empty := KeyMap.ext hempty
    rw [readElems, if_neg hname, ← hkey]
  · rw [readElems]

theorem readElems_next (h : e.Readable) (rest : Text) :
    readElems elem (afterElem e) (slash :: rest) = readElems (elem ++ [e]) (.name []) rest := by
  have hname : ¬ e.name.isEmpty = true := by simpa using (isValidElementName_iff.mp h.name).1
  unfold afterElem
  split
  · rename_i hempty
    have hkey : e.key = .empty := KeyMap.ext hempty
    rw [readElems, if_pos (by decide), if_neg hname, ← hkey]
  · rw [readElems, if_neg (by decide), if_pos (by decide)]

/-- The elements of a path are read back, the first one after its slash. -/
theorem readElems_elems {es : List PathElem} (h : ∀ x ∈ e :: es, x.Readable) :
    readElems elem (.name []) (e.name ++ e.key.entries.flatMap keyText ++ es.flatMap PathElem.text) =
      .ok (elem ++ e :: es) := by
  induction es generalizing elem e with
  | nil =>
    have he := h e mem_cons_self
    rw [flatMap_nil, readElems_elem he, readElems_end he]
  | cons e' es ih =>
    obtain ⟨he, hes⟩ := forall_mem_cons.mp h
    rw [readElems_elem he, flatMap_cons, PathElem.text, cons_append, cons_append,
      readElems_next he, ih hes, append_assoc, singleton_append]

end

/-! ## Reading a path -/

/-- An origin without `/` is what stands before the first `:/`. -/
theorem findColonSlash_origin (h : ∀ c ∈ origin, c ≠ slash) (rest : Text) :
    findColonSlash (origin ++ colon :: slash :: rest) = some (origin, slash :: rest) := by
  induction origin with
  | nil => rfl
  | cons c origin ih =>
    obtain ⟨-, horigin⟩ := forall_mem_cons.mp h
    have hhead : (origin ++ colon :: slash :: rest).head? ≠ some slash := by
      cases origin with
      | nil => exact fun hc => absurd (Option.some.inj hc) (by decide)
      | cons d origin =>
        intro hd
        exact (forall_mem_cons.mp horigin).1 (Option.some.inj hd)
    have hnot : ¬ (c == colon && (origin ++ colon :: slash :: rest).head? == some slash) = true :=
      fun hc => hhead (beq_iff_eq.mp (Bool.and_eq_true_iff.mp hc).2)
    rw [cons_append, findColonSlash, if_neg hnot, ih horigin]
    rfl

/-- A text that starts with `/` has no origin. -/
theorem splitOrigin_slash (rest : Text) : splitOrigin (slash :: rest) = (none, slash :: rest) := by
  rw [splitOrigin, findColonSlash, if_neg (by simp [slash, colon])]
  cases findColonSlash rest with
  | none => rfl
  | some found => rw [Option.map_some]; exact if_pos rfl

/-- What `Display` writes before the elements is read as the origin. -/
theorem splitOrigin_text (h : ∀ c ∈ origin, c ≠ slash ∧ c ≠ openBracket) (rest : Text) :
    ∃ found, splitOrigin ((if origin.isEmpty then [] else origin ++ [colon]) ++ slash :: rest) =
      (found, slash :: rest) ∧ found.getD [] = origin := by
  split
  · rename_i hempty
    exact ⟨none, splitOrigin_slash rest, (isEmpty_iff.mp hempty).symm⟩
  · have hany : ¬ (origin.any fun c => c == slash || c == openBracket) = true := by
      rw [any_eq_true]
      rintro ⟨c, hc, hbad⟩
      rw [Bool.or_eq_true, beq_iff_eq, beq_iff_eq] at hbad
      exact hbad.elim (h c hc).1 (h c hc).2
    refine ⟨some origin, ?_, rfl⟩
    rw [append_assoc, singleton_append, splitOrigin,
      findColonSlash_origin fun c hc => (h c hc).1]
    exact if_neg hany

/-- The text of a path with readable elements reads back. -/
theorem parseClientPath_of_readable (std : StdDebug) (path : Path)
    (horigin : ∀ c ∈ path.origin, c ≠ slash ∧ c ≠ openBracket) (helem : ∀ e ∈ path.elem, e.Readable) :
    parseClientPath std path.text = .ok ⟨path.origin, path.elem, []⟩ := by
  obtain ⟨origin, elems, target⟩ := path
  have hbody : ∀ rest : Text, withoutSlash (slash :: rest) = rest := fun rest => rfl
  cases elems with
  | nil =>
    obtain ⟨found, hsplit, hfound⟩ := splitOrigin_text horigin []
    have htext : Path.text ⟨origin, [], target⟩ =
      (if origin.isEmpty then [] else origin ++ [colon]) ++ [slash] := rfl
    rw [parseClientPath, htext, hsplit]
    dsimp only
    rw [hbody, isEmpty_nil, if_pos rfl, hfound]
  | cons e es =>
    obtain ⟨found, hsplit, hfound⟩ := splitOrigin_text horigin
      (e.name ++ e.key.entries.flatMap keyText ++ es.flatMap PathElem.text)
    have htext : Path.text ⟨origin, e :: es, target⟩ =
      (if origin.isEmpty then [] else origin ++ [colon]) ++
        slash :: (e.name ++ e.key.entries.flatMap keyText ++ es.flatMap PathElem.text) := rfl
    have hne : ¬ (e.name ++ e.key.entries.flatMap keyText ++ es.flatMap PathElem.text).isEmpty = true := by
      have := (isValidElementName_iff.mp (helem e mem_cons_self).name).1
      simp [this]
    rw [parseClientPath, htext, hsplit]
    dsimp only
    rw [hbody, if_neg hne, readElems_elems helem, hfound]
    rfl

/-! ## What templates render -/

section

variable {std : StdDebug}
variable {labels : Labels} {name : Text} {keys : List (Text × Part)} {template : PathTemplate}
  {segment : Segment} {raw text : Text}

theorem parseGroup_readable {group : Text} {entry : Text × Part}
    (hgroup : ∀ c ∈ group, c ≠ closeBracket) (h : parseGroup std raw keys group = .ok entry) :
    KeyReadable entry.1 := by
  obtain ⟨-, h⟩ := check_ok h
  obtain ⟨-, h⟩ := check_ok h
  obtain ⟨hne, h⟩ := check_ok h
  obtain ⟨-, h⟩ := check_ok h
  obtain ⟨-, h⟩ := check_ok h
  have hentry : entry.1 = group.takeWhile (· != equals) := by
    cases hp : parsePart std (group.dropWhile (· != equals)).tail with
    | error e =>
      rw [hp] at h
      cases h
    | ok part =>
      rw [hp] at h
      cases h
      rfl
  rw [hentry]
  refine ⟨by simpa using hne, fun c hc => ⟨?_, hgroup c ((takeWhile_sublist _).subset hc)⟩⟩
  simpa using mem_takeWhile_imp hc

theorem parseGroups_readable {out : List (Text × Part)} {group : Option Text} {rest : Text}
    (h : parseGroups std raw keys group rest = .ok out) (hkeys : ∀ e ∈ keys, KeyReadable e.1)
    (hgroup : ∀ g, group = some g → ∀ c ∈ g, c ≠ closeBracket) : ∀ e ∈ out, KeyReadable e.1 := by
  induction rest generalizing keys group with
  | nil =>
    cases group with
    | none =>
      cases h
      exact hkeys
    | some g => cases h
  | cons c rest ih =>
    cases group with
    | none =>
      rw [parseGroups] at h
      split at h
      · refine ih h hkeys fun g hg c hc => ?_
        cases hg
        cases hc
      · cases h
    | some g =>
      rw [parseGroups] at h
      split at h
      · split at h
        · rename_i entry hentry
          have hread := parseGroup_readable (hgroup g rfl) hentry
          refine ih h ?_ fun g hg => nomatch hg
          intro e he
          rcases mem_append.mp he with he | he
          · exact hkeys e he
          · rwa [mem_singleton.mp he]
        · cases h
      · rename_i hc
        refine ih h hkeys fun g' hg' d hd => ?_
        cases hg'
        rcases mem_append.mp hd with hd | hd
        · exact hgroup g rfl d hd
        · rw [mem_singleton.mp hd]
          simpa using hc

theorem parseSegment_readable (h : parseSegment std raw = .ok segment) :
    ∀ e ∈ segment.keys, KeyReadable e.1 := by
  obtain ⟨-, h⟩ := check_ok h
  obtain ⟨-, h⟩ := check_ok h
  obtain ⟨-, h⟩ := check_ok h
  have hgroups : ∀ {part : Part}, ((parseGroups std raw [] none (raw.dropWhile (· != openBracket))).map
      fun keys => (⟨part, keys⟩ : Segment)) = .ok segment → ∀ e ∈ segment.keys, KeyReadable e.1 := by
    intro part hmap
    cases hg : parseGroups std raw [] none (raw.dropWhile (· != openBracket)) with
    | error e =>
      rw [hg] at hmap
      cases hmap
    | ok keys =>
      rw [hg] at hmap
      cases hmap
      exact parseGroups_readable hg (fun e he => absurd he not_mem_nil) fun g hg => nomatch hg
  split at h
  · cases h
  · cases h
  · exact hgroups h

/-- The key names of a template that parses end at their `=`. -/
theorem parse_readable (h : PathTemplate.parse std text = .ok template) :
    ∀ segment ∈ template.segments, ∀ e ∈ segment.keys, KeyReadable e.1 := by
  unfold PathTemplate.parse at h
  split at h
  · cases h
  · obtain ⟨-, h⟩ := check_ok h
    split at h
    · rename_i segments hsegments
      cases h
      intro segment hs
      obtain ⟨raw, -, hraw⟩ := mapM_ok hsegments segment hs
      exact parseSegment_readable hraw
    · cases h

theorem renderKeys_readable {parts : List (Text × Part)} {keys out : KeyMap}
    (h : renderKeys std name labels parts keys = .ok out) (hparts : ∀ e ∈ parts, KeyReadable e.1)
    (hkeys : ∀ e ∈ keys.entries, KeyReadable e.1) : ∀ e ∈ out.entries, KeyReadable e.1 := by
  induction parts generalizing keys with
  | nil =>
    cases h
    exact hkeys
  | cons part parts ih =>
    obtain ⟨hpart, hrest⟩ := forall_mem_cons.mp hparts
    rw [renderKeys] at h
    split at h
    · cases h
    · refine ih h hrest fun e he => ?_
      rcases mem_insertKey he with rfl | he
      · exact hpart
      · exact hkeys e he
    · exact ih h hrest hkeys

theorem renderSegment_readable {elem : PathElem}
    (h : renderSegment std name labels segment = .ok elem)
    (hkeys : ∀ e ∈ segment.keys, KeyReadable e.1) : elem.Readable := by
  obtain ⟨key, hkey, h⟩ := bind_ok h
  obtain ⟨found, -, h⟩ := bind_ok h
  cases found with
  | none => cases h
  | some element =>
    dsimp only at h
    split at h
    · rename_i hvalid
      cases h
      exact ⟨hvalid, renderKeys_readable hkey hkeys fun e he => absurd he not_mem_nil⟩
    · cases h

/-- What a template that parses renders reads back. -/
theorem readable_of_render (hparse : PathTemplate.parse std text = .ok template) {path : Path}
    (h : template.render std name labels = .ok path) : ∀ e ∈ path.elem, e.Readable := by
  obtain ⟨elems, helems, h⟩ := bind_ok h
  cases h
  intro e he
  obtain ⟨segment, hsegment, hrendered⟩ := mapM_ok helems e he
  exact renderSegment_readable hrendered (parse_readable hparse segment hsegment)

end

/-- The text of a path that a template renders, with any origin without `/` or `[`,
is parsed back to the same origin, element names and keys. -/
theorem parseClientPath_render (std : StdDebug) {text : Text} {template : PathTemplate}
    (hparse : PathTemplate.parse std text = .ok template) {name : Text} {labels : Labels} {path : Path}
    (hrender : template.render std name labels = .ok path) {origin : Text}
    (horigin : ∀ c ∈ origin, c ≠ slash ∧ c ≠ openBracket) (target : Text) :
    parseClientPath std (Path.text ⟨origin, path.elem, target⟩) = .ok ⟨origin, path.elem, []⟩ := by
  have helem := readable_of_render hparse hrender
  exact parseClientPath_of_readable std ⟨origin, path.elem, target⟩ horigin helem

/-- Texts in quotes, as they are. -/
def plainDebug : StdDebug := ⟨fun text => "\"" ++ str text ++ "\"", fun text => "'" ++ str (text.take 1) ++ "'"⟩

/-- `/a[k={v}]/{name}`. -/
def keyedTemplate : Text :=
  [0x2f, 0x61, 0x5b, 0x6b, 0x3d, 0x7b, 0x76, 0x7d, 0x5d, 0x2f, 0x7b, 0x6e, 0x61, 0x6d, 0x65, 0x7d]

/-- Every delimiter, as the value of a label: `]\/[=:`. -/
def delimiters : Text := [0x5d, 0x5c, 0x2f, 0x5b, 0x3d, 0x3a]

/-- The elements of `/a[k=\]\\/[=:]/if-up`. -/
def keyedElems : List PathElem :=
  [⟨[0x61], KeyMap.empty.insert [0x6b] delimiters⟩, ⟨[0x69, 0x66, 0x2d, 0x75, 0x70], .empty⟩]

def keyedSegments : PathTemplate :=
  ⟨[⟨.literal [0x61], [([0x6b], .placeholder [0x76])]⟩, ⟨.placeholder namePlaceholder, []⟩]⟩

/-- The metric `if_up` with the delimiters in its label, under the origin `oc`. -/
theorem parseClientPath_render_delimiters :
    parseClientPath plainDebug (Path.text ⟨[0x6f, 0x63], keyedElems, []⟩) =
      .ok ⟨[0x6f, 0x63], keyedElems, []⟩ := by
  have hparse : PathTemplate.parse plainDebug keyedTemplate = .ok keyedSegments := rfl
  have hrender : keyedSegments.render plainDebug [0x69, 0x66, 0x5f, 0x75, 0x70] [([0x76], delimiters)] =
    .ok ⟨[], keyedElems, []⟩ := rfl
  exact parseClientPath_render plainDebug hparse hrender (by simp [slash, openBracket]) []

end Sonda.Gnmi
