import Mathlib.Data.List.TakeWhile
import Sonda.Framework.Fallible
import Sonda.Framework.Lines
import Sonda.Impl.Generator.LogTemplate

/-!
# Placeholders of a log template

`Substituted` says what becomes of a message when every `{name}` of it, the name without
braces and known, gives way to its value. A message is a list of stretches that end in `}`
with one without behind them. On one stretch the scan takes what is behind its first `{`
for the name (`scanned`), while the placeholder is behind its last one (`substituted`): the
two agree when the stretch has one `{` only, or neither text is a name
(`scanned_eq_substituted`), and differ otherwise (`scanned_ne_substituted`). So does the
message (`resolveTemplate_iff`).
-/

namespace Sonda.Generator

open List

open Config (Text)

variable {fields : Fields}
variable {text : Text} {name : Text} {n : Nat} {out rest last lead message : Text} {b : UInt8}

/-! ## What a template stands for -/

/-- A text without braces. -/
def BraceFree (name : Text) : Prop := openBrace ∉ name ∧ closeBrace ∉ name

/-- The text starts with a placeholder that has a value. -/
def StartsPlaceholder (fields : Fields) (text : Text) : Prop :=
  ∃ name rest, text = openBrace :: (name ++ closeBrace :: rest) ∧ BraceFree name ∧ (fields.get name).isSome

/-- The message with its placeholders replaced, each where it stands. -/
inductive Substituted (fields : Fields) : Text → Text → Prop
  | nil : Substituted fields [] []
  | placeholder {name value rest out : Text} (hname : BraceFree name) (hvalue : fields.get name = some value)
      (hrest : Substituted fields rest out) :
      Substituted fields (openBrace :: (name ++ closeBrace :: rest)) (value ++ out)
  | literal {b : UInt8} {rest out : Text} (hnot : ¬ StartsPlaceholder fields (b :: rest))
      (hrest : Substituted fields rest out) : Substituted fields (b :: rest) (b :: out)

/-! ## One stretch -/

/-- What stands for `{name}`. -/
def placeholderText (fields : Fields) (name : Text) : Text :=
  (fields.get name).getD (openBrace :: (name ++ [closeBrace]))

/-- What the scan makes of a stretch and the `}` behind it. -/
def scanned (fields : Fields) : Text → Text
  | [] => [closeBrace]
  | b :: stretch => if b = openBrace then placeholderText fields stretch else b :: scanned fields stretch

/-- What the placeholders of a stretch give with the `}` behind it. -/
def substituted (fields : Fields) : Text → Text
  | [] => [closeBrace]
  | b :: stretch =>
    if b = openBrace ∧ openBrace ∉ stretch then placeholderText fields stretch
    else b :: substituted fields stretch

section
variable {stretch : Text} (hclose : closeBrace ∉ stretch) (rest : Text)
include hclose

theorem run_stretch : (stretch ++ closeBrace :: rest).takeWhile (· ≠ closeBrace) = stretch ∧
    (stretch ++ closeBrace :: rest).dropWhile (· ≠ closeBrace) = closeBrace :: rest := by
  refine Framework.takeWhile_run (fun b hb => ?_) (by decide) rest
  rw [decide_eq_true_eq]
  exact fun heq => hclose (heq ▸ hb)

theorem takeWhile_stretch : (stretch ++ closeBrace :: rest).takeWhile (· ≠ closeBrace) = stretch :=
  (run_stretch hclose rest).1

theorem dropWhile_stretch : (stretch ++ closeBrace :: rest).dropWhile (· ≠ closeBrace) = closeBrace :: rest :=
  (run_stretch hclose rest).2

/-- A placeholder at the start takes all of the stretch. -/
theorem startsPlaceholder_stretch_iff :
    StartsPlaceholder fields (openBrace :: (stretch ++ closeBrace :: rest)) ↔
      openBrace ∉ stretch ∧ (fields.get stretch).isSome := by
  constructor
  · rintro ⟨name, rest', heq, hname, hvalue⟩
    have htake := congrArg (takeWhile (· ≠ closeBrace)) (cons.inj heq).2
    rw [takeWhile_stretch hclose, takeWhile_stretch hname.2] at htake
    rw [htake]
    exact ⟨hname.1, hvalue⟩
  · rintro ⟨hopen, hvalue⟩
    exact ⟨stretch, rest, rfl, ⟨hopen, hclose⟩, hvalue⟩

end

theorem not_startsPlaceholder_of_ne (hb : b ≠ openBrace) (rest : Text) :
    ¬ StartsPlaceholder fields (b :: rest) := by
  rintro ⟨name, rest', heq, -⟩
  exact hb (cons.inj heq).1

/-- Bytes that start no placeholder stay. -/
theorem Substituted.append_of_closeBrace {text : Text} (hopen : openBrace ∉ text)
    (h : Substituted fields rest out) : Substituted fields (text ++ rest) (text ++ out) := by
  induction text with
  | nil => exact h
  | cons b text ih =>
    obtain ⟨hb, htext⟩ := not_or.1 (mt mem_cons.2 hopen)
    exact .literal (not_startsPlaceholder_of_ne (Ne.symm hb) _) (ih htext)

/-- A stretch gives what its placeholder gives, and the rest is on its own. -/
theorem Substituted.stretch {stretch : Text} (hclose : closeBrace ∉ stretch)
    (h : Substituted fields rest out) :
    Substituted fields (stretch ++ closeBrace :: rest) (substituted fields stretch ++ out) := by
  induction stretch with
  | nil => exact .literal (not_startsPlaceholder_of_ne (by decide) _) h
  | cons b stretch ih =>
    have hclose' := not_mem_of_not_mem_cons hclose
    rw [substituted]
    by_cases hlast : b = openBrace ∧ openBrace ∉ stretch
    · rw [if_pos hlast, hlast.1]
      unfold placeholderText
      cases hvalue : fields.get stretch with
      | some value => exact .placeholder ⟨hlast.2, hclose'⟩ hvalue h
      | none =>
        have hstart : ¬ StartsPlaceholder fields (openBrace :: (stretch ++ closeBrace :: rest)) := by
          rw [startsPlaceholder_stretch_iff hclose', hvalue]
          exact fun hsome => nomatch hsome.2
        have htail : Substituted fields (closeBrace :: rest) (closeBrace :: out) :=
          .literal (not_startsPlaceholder_of_ne (by decide) _) h
        have htext := Substituted.append_of_closeBrace hlast.2 htail
        have hout : openBrace :: (stretch ++ [closeBrace]) ++ out = openBrace :: (stretch ++ closeBrace :: out) := by
          simp only [cons_append, append_assoc, nil_append]
        rw [Option.getD_none, hout]
        exact .literal hstart htext
    · rw [if_neg hlast]
      refine .literal ?_ (ih hclose')
      by_cases hb : b = openBrace
      · rw [hb]
        show ¬ StartsPlaceholder fields (openBrace :: (stretch ++ closeBrace :: rest))
        rw [startsPlaceholder_stretch_iff hclose']
        exact fun hstart => hlast ⟨hb, hstart.1⟩
      · exact not_startsPlaceholder_of_ne hb _

/-- A text without `}` has no placeholder. -/
theorem Substituted.unclosed (hclose : closeBrace ∉ text) : Substituted fields text text := by
  induction text with
  | nil => exact .nil
  | cons b text ih =>
    refine .literal ?_ (ih (not_mem_of_not_mem_cons hclose))
    rintro ⟨name, rest, heq, -⟩
    apply hclose
    rw [heq]
    exact mem_cons_of_mem _ (mem_append_right _ mem_cons_self)

theorem Substituted.inv {text : Text} (h : Substituted fields text out) :
    (text = [] ∧ out = []) ∨
    (∃ name value rest out', text = openBrace :: (name ++ closeBrace :: rest) ∧ out = value ++ out' ∧
      BraceFree name ∧ fields.get name = some value ∧ Substituted fields rest out') ∨
    ∃ b rest out', text = b :: rest ∧ out = b :: out' ∧ ¬ StartsPlaceholder fields (b :: rest) ∧
      Substituted fields rest out' := by
  cases h with
  | nil => exact .inl ⟨rfl, rfl⟩
  | placeholder hname hvalue hrest => exact .inr (.inl ⟨_, _, _, _, rfl, rfl, hname, hvalue, hrest⟩)
  | literal hnot hrest => exact .inr (.inr ⟨_, _, _, rfl, rfl, hnot, hrest⟩)

/-- A message has one text with its placeholders replaced. -/
theorem Substituted.unique {text out' : Text} (h : Substituted fields text out)
    (h' : Substituted fields text out') : out' = out := by
  induction h generalizing out' with
  | nil =>
    obtain ⟨-, hout⟩ | ⟨_, _, _, _, heq, -⟩ | ⟨_, _, _, heq, -⟩ := h'.inv
    · exact hout
    · cases heq
    · cases heq
  | @placeholder name value rest out hname hvalue _ ih =>
    obtain ⟨heq, -⟩ | ⟨name', value', rest', out'', heq, hout, hname', hvalue', hrest'⟩ |
      ⟨b, rest', out'', heq, -, hnot, -⟩ := h'.inv
    · cases heq
    · have htake := congrArg (takeWhile (· ≠ closeBrace)) (cons.inj heq).2
      have hdrop := congrArg (dropWhile (· ≠ closeBrace)) (cons.inj heq).2
      rw [takeWhile_stretch hname.2, takeWhile_stretch hname'.2] at htake
      rw [dropWhile_stretch hname.2, dropWhile_stretch hname'.2] at hdrop
      rw [← htake, hvalue] at hvalue'
      rw [← (cons.inj hdrop).2] at hrest'
      rw [hout, ih hrest', Option.some.inj hvalue']
    · rw [← heq] at hnot
      exact absurd ⟨name, rest, rfl, hname, by rw [hvalue]; rfl⟩ hnot
  | @literal b rest out hnot _ ih =>
    obtain ⟨heq, -⟩ | ⟨name', value', rest', out'', heq, -, hname', hvalue', -⟩ |
      ⟨b', rest', out'', heq, hout, -, hrest'⟩ := h'.inv
    · cases heq
    · exact absurd ⟨name', rest', heq, hname', by rw [hvalue']; rfl⟩ hnot
    · obtain ⟨rfl, rfl⟩ := cons.inj heq
      rw [hout, ih hrest']

/-! ## The scan -/

theorem length_dropWhile_le (p : UInt8 → Bool) (text : Text) : (text.dropWhile p).length ≤ text.length :=
  (dropWhile_suffix p).length_le

/-- Fuel for every byte is enough. -/
theorem resolveFrom_fuel {m : Nat} (hn : text.length ≤ n) (hm : text.length ≤ m) :
    resolveFrom fields n text = resolveFrom fields m text := by
  induction n generalizing m text with
  | zero =>
    rw [eq_nil_of_length_eq_zero (Nat.le_zero.1 hn)]
    cases m <;> rfl
  | succ n ih =>
    cases m with
    | zero =>
      rw [eq_nil_of_length_eq_zero (Nat.le_zero.1 hm)]
      rfl
    | succ m =>
      cases text with
      | nil => rfl
      | cons b rest =>
        rw [length_cons] at hn hm
        have hdrop := length_dropWhile_le (· ≠ openBrace) rest
        have hclose : ((rest.dropWhile (· ≠ closeBrace)).drop 1).length ≤ rest.length := by
          have hle := length_dropWhile_le (· ≠ closeBrace) rest
          rw [length_drop]
          omega
        have hplaceholder : resolveFrom fields n ((rest.dropWhile (· ≠ closeBrace)).drop 1) =
            resolveFrom fields m ((rest.dropWhile (· ≠ closeBrace)).drop 1) := ih (by omega) (by omega)
        have hliteral : resolveFrom fields n (rest.dropWhile (· ≠ openBrace)) =
            resolveFrom fields m (rest.dropWhile (· ≠ openBrace)) := ih (by omega) (by omega)
        have hopen : resolveFrom fields n rest = resolveFrom fields m rest := ih (by omega) (by omega)
        rw [resolveFrom, resolveFrom]
        rw [hplaceholder, hliteral, hopen]

/-- The scan of a text. -/
def resolve (fields : Fields) (text : Text) : Text := resolveFrom fields text.length text

theorem resolveFrom_eq (hn : text.length ≤ n) :
    resolveFrom fields n text = resolve fields text := resolveFrom_fuel hn (le_refl _)

/-- The literal run up to the next `{`. -/
theorem resolve_run (text : Text) :
    text.takeWhile (· ≠ openBrace) ++ resolve fields (text.dropWhile (· ≠ openBrace)) = resolve fields text := by
  cases text with
  | nil => rfl
  | cons b rest =>
    by_cases hb : b = openBrace
    · rw [takeWhile_cons_of_neg (by simpa using hb), dropWhile_cons_of_neg (by simpa using hb),
        nil_append]
    · rw [takeWhile_cons_of_pos (by simpa using hb), dropWhile_cons_of_pos (by simpa using hb)]
      show _ = resolveFrom fields (rest.length + 1) (b :: rest)
      rw [resolveFrom, if_neg hb, resolveFrom_eq (length_dropWhile_le _ rest)]
      rfl

theorem resolve_literal (hb : b ≠ openBrace) (rest : Text) :
    resolve fields (b :: rest) = b :: resolve fields rest := by
  show resolveFrom fields (rest.length + 1) (b :: rest) = _
  rw [resolveFrom, if_neg hb, resolveFrom_eq (length_dropWhile_le _ rest), resolve_run]

theorem resolve_placeholder {stretch : Text} (hclose : closeBrace ∉ stretch) (rest : Text) :
    resolve fields (openBrace :: (stretch ++ closeBrace :: rest)) =
      placeholderText fields stretch ++ resolve fields rest := by
  have hcontains : (stretch ++ closeBrace :: rest).contains closeBrace = true := by simp
  show resolveFrom fields ((stretch ++ closeBrace :: rest).length + 1) _ = _
  rw [resolveFrom, if_pos rfl, if_pos hcontains]
  rw [takeWhile_stretch hclose, dropWhile_stretch hclose, drop_one, tail_cons, resolveFrom_eq]
  · rfl
  · rw [length_append, length_cons]
    omega

theorem resolve_unclosed (hclose : closeBrace ∉ text) : resolve fields text = text := by
  induction text with
  | nil => rfl
  | cons b rest ih =>
    have hrest := not_mem_of_not_mem_cons hclose
    by_cases hb : b = openBrace
    · show resolveFrom fields (rest.length + 1) (b :: rest) = _
      rw [resolveFrom, if_pos hb, if_neg (by simpa using hrest), resolveFrom_eq (le_refl _), ih hrest, hb]
    · rw [resolve_literal hb, ih hrest]

theorem resolve_stretch {stretch : Text} (hclose : closeBrace ∉ stretch) (rest : Text) :
    resolve fields (stretch ++ closeBrace :: rest) = scanned fields stretch ++ resolve fields rest := by
  induction stretch with
  | nil => exact resolve_literal (by decide) rest
  | cons b stretch ih =>
    have hclose' := not_mem_of_not_mem_cons hclose
    rw [scanned, cons_append]
    by_cases hb : b = openBrace
    · rw [if_pos hb, hb, resolve_placeholder hclose']
    · rw [if_neg hb, resolve_literal hb, ih hclose']
      rfl

/-! ## Stretches on which the two agree -/

/-- Where a stretch has a second `{`, neither what is behind its first `{` nor what is behind its last
one is a name. -/
def OneBrace (names : List Text) (stretch : Text) : Prop :=
  ∀ lead inner, stretch = lead ++ openBrace :: inner → openBrace ∉ lead → openBrace ∈ inner →
    inner ∉ names ∧ ∀ front last, inner = front ++ openBrace :: last → openBrace ∉ last → last ∉ names

theorem get_eq_none (h : name ∉ fields.map Prod.fst) : fields.get name = none := by
  unfold Fields.get
  rw [Option.map_eq_none_iff, find?_eq_none]
  intro field hfield
  rw [decide_eq_true_eq]
  exact fun heq => h (heq ▸ mem_map_of_mem hfield)

theorem get_eq_some (h : name ∈ fields.map Prod.fst) :
    ∃ value ∈ fields.map Prod.snd, fields.get name = some value := by
  obtain ⟨field, hfield, rfl⟩ := mem_map.1 h
  have hfind : (find? (fun other => decide (other.1 = field.1)) fields).isSome :=
    find?_isSome.2 ⟨field, hfield, decide_eq_true rfl⟩
  obtain ⟨found, hfound⟩ := Option.isSome_iff_exists.1 hfind
  refine ⟨found.2, mem_map_of_mem (mem_of_find?_eq_some hfound), ?_⟩
  unfold Fields.get
  rw [hfound]
  rfl

theorem placeholderText_of_not (h : name ∉ fields.map Prod.fst) :
    placeholderText fields name = openBrace :: (name ++ [closeBrace]) := by
  unfold placeholderText
  rw [get_eq_none h]
  rfl

/-- A text up to its last `{`. -/
theorem exists_last_brace (h : openBrace ∈ text) :
    ∃ front last, text = front ++ openBrace :: last ∧ openBrace ∉ last := by
  induction text with
  | nil => cases h
  | cons b text ih =>
    by_cases hmem : openBrace ∈ text
    · obtain ⟨front, last, rfl, hlast⟩ := ih hmem
      exact ⟨b :: front, last, rfl, hlast⟩
    · rcases mem_cons.1 h with rfl | h
      · exact ⟨[], text, rfl, hmem⟩
      · exact absurd h hmem

theorem substituted_lead (front : Text) (h : openBrace ∈ text) :
    substituted fields (front ++ text) = front ++ substituted fields text := by
  induction front with
  | nil => rfl
  | cons b front ih =>
    rw [cons_append, substituted, if_neg (fun hlast => hlast.2 (mem_append_right front h)), ih,
      cons_append]

theorem substituted_last (h : openBrace ∉ last) :
    substituted fields (openBrace :: last) = placeholderText fields last := by
  rw [substituted, if_pos ⟨rfl, h⟩]

theorem scanned_lead (h : openBrace ∉ lead) (inner : Text) :
    scanned fields (lead ++ openBrace :: inner) = lead ++ placeholderText fields inner := by
  induction lead with
  | nil => rw [nil_append, scanned, if_pos rfl, nil_append]
  | cons b lead ih =>
    obtain ⟨hb, hlead⟩ := not_or.1 (mt mem_cons.2 h)
    rw [cons_append, scanned, if_neg (Ne.symm hb), ih hlead, cons_append]

theorem scanned_closed {stretch : Text} (h : openBrace ∉ stretch) :
    scanned fields stretch = substituted fields stretch := by
  induction stretch with
  | nil => rfl
  | cons b stretch ih =>
    obtain ⟨hb, hstretch⟩ := not_or.1 (mt mem_cons.2 h)
    rw [scanned, substituted, if_neg (Ne.symm hb), if_neg (fun hlast => hb hlast.1.symm), ih hstretch]

/-- A stretch with a second `{`: what is behind its first `{`, and behind its last one. -/
theorem scanned_substituted_nested (fields : Fields) (front : Text) (hlead : openBrace ∉ lead)
    (hlast : openBrace ∉ last) :
    scanned fields (lead ++ openBrace :: (front ++ openBrace :: last)) =
        lead ++ placeholderText fields (front ++ openBrace :: last) ∧
      substituted fields (lead ++ openBrace :: (front ++ openBrace :: last)) =
        lead ++ openBrace :: (front ++ placeholderText fields last) := by
  refine ⟨scanned_lead hlead _, ?_⟩
  have hinner : openBrace ∈ front ++ openBrace :: last := mem_append_right _ mem_cons_self
  rw [substituted_lead lead mem_cons_self, substituted, if_neg fun h => h.2 hinner,
    substituted_lead front mem_cons_self, substituted_last hlast]

theorem scanned_eq_substituted {stretch : Text} (h : OneBrace (fields.map Prod.fst) stretch) :
    scanned fields stretch = substituted fields stretch := by
  by_cases hopen : openBrace ∈ stretch
  · obtain ⟨lead, inner, rfl, hlead⟩ := eq_append_cons_of_mem hopen
    by_cases hinner : openBrace ∈ inner
    · obtain ⟨front, last, rfl, hlast⟩ := exists_last_brace hinner
      obtain ⟨hinner', hlast'⟩ := h lead _ rfl hlead hinner
      obtain ⟨hscanned, hsubstituted⟩ := scanned_substituted_nested fields front hlead hlast
      rw [hscanned, hsubstituted, placeholderText_of_not hinner',
        placeholderText_of_not (hlast' front last rfl hlast)]
      simp only [append_assoc, cons_append]
    · rw [scanned_lead hlead, substituted_lead lead mem_cons_self, substituted_last hinner]
  · exact scanned_closed hopen

/-- The values start with something else than `{`. -/
def Telling (fields : Fields) : Prop := ∀ value ∈ fields.map Prod.snd, value ≠ [] ∧ value.head? ≠ some openBrace

theorem Telling.placeholderText_ne (htelling : Telling fields) (h : name ∈ fields.map Prod.fst)
    (rest out : Text) : placeholderText fields name ++ out ≠ openBrace :: rest := by
  obtain ⟨value, hvalue, hget⟩ := get_eq_some h
  obtain ⟨hne, hhead⟩ := htelling value hvalue
  obtain ⟨b, value', rfl⟩ := exists_cons_of_ne_nil hne
  unfold placeholderText
  rw [hget, Option.getD_some, cons_append]
  intro heq
  exact hhead (congrArg some (cons.inj heq).1)

/-- Otherwise the difference is in the stretch itself. -/
theorem scanned_ne_substituted (htelling : Telling fields) {stretch : Text}
    (h : ¬ OneBrace (fields.map Prod.fst) stretch) (rest out : Text) :
    scanned fields stretch ++ rest ≠ substituted fields stretch ++ out := by
  unfold OneBrace at h
  push Not at h
  obtain ⟨lead, inner, rfl, hlead, hinner, hnames⟩ := h
  by_cases hname : inner ∈ fields.map Prod.fst
  · obtain ⟨front, last, rfl, hlast⟩ := exists_last_brace hinner
    obtain ⟨hscanned, hsubstituted⟩ := scanned_substituted_nested fields front hlead hlast
    rw [hscanned, hsubstituted, append_assoc, append_assoc]
    intro heq
    exact htelling.placeholderText_ne hname _ _ (append_cancel_left heq)
  · obtain ⟨front, last, rfl, hlast, hlast'⟩ := hnames hname
    obtain ⟨hscanned, hsubstituted⟩ := scanned_substituted_nested fields front hlead hlast
    rw [hscanned, hsubstituted, placeholderText_of_not hname]
    intro heq
    have hcancel : front ++ openBrace :: (last ++ closeBrace :: rest) =
        front ++ (placeholderText fields last ++ out) := by
      simpa using heq
    exact htelling.placeholderText_ne hlast' _ _ (append_cancel_left hcancel).symm

/-! ## Messages -/

/-- A message is a stretch with the rest behind it, or has no `}`. -/
theorem stretch_induction {P : Text → Prop} (unclosed : ∀ text, closeBrace ∉ text → P text)
    (stretch : ∀ stretch rest, closeBrace ∉ stretch → P rest → P (stretch ++ closeBrace :: rest)) (text : Text) :
    P text := by
  induction hlen : text.length using Nat.strong_induction_on generalizing text with
  | _ n ih =>
    by_cases hclose : closeBrace ∈ text
    · obtain ⟨front, rest, rfl, hfront⟩ := eq_append_cons_of_mem hclose
      refine stretch front rest hfront (ih rest.length ?_ rest rfl)
      rw [← hlen, length_append, length_cons]
      omega
    · exact unclosed text hclose

theorem exists_substituted (fields : Fields) (text : Text) : ∃ out, Substituted fields text out := by
  induction text using stretch_induction with
  | unclosed text hclose => exact ⟨text, .unclosed hclose⟩
  | stretch stretch rest hclose ih =>
    obtain ⟨out, hout⟩ := ih
    exact ⟨_, hout.stretch hclose⟩

/-- The stretches of the message have no placeholder behind another `{`. -/
def BracesApart (names : List Text) (message : Text) : Prop :=
  ∀ stretch ∈ (message.splitOn closeBrace).dropLast, OneBrace names stretch

theorem bracesApart_unclosed (names : List Text) (h : closeBrace ∉ text) : BracesApart names text := by
  unfold BracesApart
  rw [splitOn_eq_singleton h]
  exact fun stretch hstretch => absurd hstretch not_mem_nil

theorem bracesApart_stretch {names : List Text} {stretch : Text} (h : closeBrace ∉ stretch) (rest : Text) :
    BracesApart names (stretch ++ closeBrace :: rest) ↔ OneBrace names stretch ∧ BracesApart names rest := by
  unfold BracesApart
  rw [splitOn_append_cons_self_of_not_mem h, dropLast_cons_of_ne_nil (splitOn_ne_nil _ _)]
  exact forall_mem_cons

theorem substituted_resolve (h : BracesApart (fields.map Prod.fst) message) :
    Substituted fields message (resolve fields message) := by
  induction message using stretch_induction with
  | unclosed text hclose =>
    rw [resolve_unclosed hclose]
    exact .unclosed hclose
  | stretch stretch rest hclose ih =>
    obtain ⟨hstretch, hrest⟩ := (bracesApart_stretch hclose rest).1 h
    rw [resolve_stretch hclose, scanned_eq_substituted hstretch]
    exact (ih hrest).stretch hclose

theorem bracesApart_of_substituted (htelling : Telling fields)
    (h : Substituted fields message (resolve fields message)) :
    BracesApart (fields.map Prod.fst) message := by
  induction message using stretch_induction with
  | unclosed text hclose => exact bracesApart_unclosed _ hclose
  | stretch stretch rest hclose ih =>
    obtain ⟨out, hout⟩ := exists_substituted fields rest
    rw [resolve_stretch hclose] at h
    have heq := (hout.stretch hclose).unique h
    have hstretch : OneBrace (fields.map Prod.fst) stretch := by
      by_contra hnot
      exact scanned_ne_substituted htelling hnot _ _ heq
    rw [scanned_eq_substituted hstretch] at heq
    rw [bracesApart_stretch hclose]
    refine ⟨hstretch, ih ?_⟩
    rw [append_cancel_left heq]
    exact hout

/-- The names of the pools. -/
def TemplateEntry.names (template : TemplateEntry) : List Text := template.fieldPools.map Prod.fst

theorem names_selectFields (template : TemplateEntry) (seed tick : UInt64) :
    (selectFields template seed tick).map Prod.fst = template.names := by
  unfold selectFields TemplateEntry.names
  rw [map_map]
  rfl

/-- The message has its placeholders replaced when no name stands behind a `{` that is not closed before
the next one; and, where the values do not start with a `{` themselves, only then. -/
theorem resolveTemplate_iff (template : TemplateEntry) (seed tick : UInt64) :
    (BracesApart template.names template.message →
      Substituted (selectFields template seed tick) template.message (resolveTemplate template seed tick).1) ∧
    (Telling (selectFields template seed tick) →
      Substituted (selectFields template seed tick) template.message (resolveTemplate template seed tick).1 →
      BracesApart template.names template.message) := by
  rw [← names_selectFields template seed tick]
  exact ⟨substituted_resolve, fun htelling h => bracesApart_of_substituted htelling h⟩

/-- A stretch with one `{`. -/
theorem oneBrace_of_count (names : List Text) {stretch : Text} (h : stretch.count openBrace ≤ 1) :
    OneBrace names stretch := by
  rintro lead inner rfl - hinner
  have hpos := count_pos_iff.2 hinner
  rw [count_append, count_cons_self] at h
  omega

/-- `ip={ip} {}`. -/
def plainTemplate : TemplateEntry :=
  ⟨[0x69, 0x70, 0x3d, 0x7b, 0x69, 0x70, 0x7d, 0x20, 0x7b, 0x7d], [([0x69, 0x70], [[0x31]])], by decide⟩

theorem resolveTemplate_plain :
    (resolveTemplate plainTemplate 0 0).1 = [0x69, 0x70, 0x3d, 0x31, 0x20, 0x7b, 0x7d] ∧
      Substituted (selectFields plainTemplate 0 0) plainTemplate.message (resolveTemplate plainTemplate 0 0).1 := by
  have hcount : ∀ stretch ∈ (plainTemplate.message.splitOn closeBrace).dropLast, stretch.count openBrace ≤ 1 := by
    decide
  refine ⟨by decide, (resolveTemplate_iff plainTemplate 0 0).1 fun stretch hstretch => ?_⟩
  exact oneBrace_of_count _ (hcount stretch hstretch)

/-- `{"ip":"{ip}"}`. -/
def jsonTemplate : TemplateEntry :=
  ⟨[0x7b, 0x22, 0x69, 0x70, 0x22, 0x3a, 0x22, 0x7b, 0x69, 0x70, 0x7d, 0x22, 0x7d], [([0x69, 0x70], [[0x31]])],
    by decide⟩

/-- The first brace of a JSON text hides the placeholder: the message stays as it is, and not with the
value in it, which is `{"ip":"1"}`. -/
theorem resolveTemplate_json :
    (resolveTemplate jsonTemplate 0 0).1 = jsonTemplate.message ∧
      Substituted (selectFields jsonTemplate 0 0) jsonTemplate.message
        [0x7b, 0x22, 0x69, 0x70, 0x22, 0x3a, 0x22, 0x31, 0x22, 0x7d] ∧
      ¬ Substituted (selectFields jsonTemplate 0 0) jsonTemplate.message jsonTemplate.message := by
  have hrest : Substituted (selectFields jsonTemplate 0 0) [0x22, 0x7d] [0x22, 0x7d] :=
    .stretch (show closeBrace ∉ [0x22] by decide) .nil
  have hmessage : Substituted (selectFields jsonTemplate 0 0) jsonTemplate.message
      [0x7b, 0x22, 0x69, 0x70, 0x22, 0x3a, 0x22, 0x31, 0x22, 0x7d] :=
    .stretch (show closeBrace ∉ [0x7b, 0x22, 0x69, 0x70, 0x22, 0x3a, 0x22, 0x7b, 0x69, 0x70] by decide) hrest
  refine ⟨by decide, hmessage, fun hsame => ?_⟩
  exact absurd (hmessage.unique hsame) (by decide)

end Sonda.Generator
