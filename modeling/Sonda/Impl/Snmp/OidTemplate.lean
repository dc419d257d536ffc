import Sonda.Impl.Snmp.Settings

/-!
# OID templates

The `OidTemplate` of `sonda-core/src/encoder/snmp/oid.rs`, as it is after
`parse`: `arcs`, `render` and `index_arc`. A `{label}` renders to one arc, a
`{label:str}` to the length of the label's value and its octets.
-/

namespace Sonda.Snmp

def maxArcs : Nat := 128

/-- A text of the source, as a string. -/
def str (text : Text) : String := (String.fromUTF8? ⟨text.toArray⟩).getD ""

/-- Keys and values, in the order of the keys. -/
abbrev Labels := List (Text × Text)

def labelValue (labels : Labels) (label : Text) : Option Text :=
  (labels.find? fun entry => entry.1 == label).map Prod.snd

def indexArc (value : Text) : Option Nat :=
  let digits := !value.isEmpty && value.all isAsciiDigit
  if !digits || (1 < value.length && value.head? == some 0x30) then none
  else
    let arc := value.foldl (fun value b => value * 10 + (b.toNat - 0x30)) 0
    if arc < arcBound then some arc else none

structure Placeholder where
  name : Text
  /-- `{label:str}`. -/
  string : Bool
  deriving DecidableEq

def Placeholder.minArcs (p : Placeholder) : Nat := if p.string then 2 else 1

def minArcs (placeholders : List Placeholder) : Nat := (placeholders.map Placeholder.minArcs).sum

structure OidTemplate where
  object : Oid
  /-- Empty for a scalar, whose index arc is `0`. -/
  placeholders : List Placeholder
  /-- `parse` refuses a template with more arcs. -/
  arcs_le : object.arcs.length + max (minArcs placeholders) 1 ≤ maxArcs
  deriving DecidableEq

inductive RenderError
  | missingLabel (name : Text)
  | notAnArc (name value : Text)
  | emptyString (name : Text)
  | tooManyArcs (name : Text) (arcs : Nat)
  deriving DecidableEq

def RenderError.text (std : StdText) : RenderError → String
  | .missingLabel name => "the OID template's placeholder \x7b" ++ str name ++
      "\x7d names a label the event does not carry"
  | .notAnArc name value => "label `" ++ str name ++ "` has value " ++ std.quote value ++
      ", which is not an OID arc (an unsigned 32-bit integer in decimal, without leading zeros)"
  | .emptyString name => "label `" ++ str name ++ "` is empty, and the OID template's placeholder \x7b" ++
      str name ++ ":str\x7d renders it as a string index, which needs at least one byte"
  | .tooManyArcs name arcs => "label `" ++ str name ++ "` makes the OID " ++ toString arcs ++
      " arcs or more, and an OID has at most 128; its placeholder \x7b" ++ str name ++
      ":str\x7d renders one arc per byte"

/-- The loop of `render` over the placeholders that are left. -/
def renderPlaceholders (labels : Labels) : List Placeholder → List Nat → Except RenderError (List Nat)
  | [], out => .ok out
  | placeholder :: rest, out =>
    match labelValue labels placeholder.name with
    | none => .error (.missingLabel placeholder.name)
    | some value =>
      if !placeholder.string then
        match indexArc value with
        | none => .error (.notAnArc placeholder.name value)
        | some arc => renderPlaceholders labels rest (out ++ [arc])
      else if value.isEmpty then .error (.emptyString placeholder.name)
      else
        let arcs := out.length + 1 + value.length + minArcs rest
        if maxArcs < arcs then .error (.tooManyArcs placeholder.name arcs)
        else renderPlaceholders labels rest (out ++ value.length :: value.map UInt8.toNat)

namespace OidTemplate

/-- The object's arcs, and the `0` of a scalar. -/
def literal (template : OidTemplate) : List Nat :=
  template.object.arcs ++ if template.placeholders.isEmpty then [0] else []

def render (template : OidTemplate) (labels : Labels) : Except RenderError (List Nat) :=
  renderPlaceholders labels template.placeholders template.literal

def hasStringIndex (template : OidTemplate) : Bool := template.placeholders.any Placeholder.string

end OidTemplate

inductive TemplateArc
  | literal (arc : Nat)
  | label (name : Text)
  | stringLabel (name : Text)
  deriving DecidableEq

def OidTemplate.arcs (template : OidTemplate) : List TemplateArc :=
  template.literal.map .literal ++
    template.placeholders.map fun p => if p.string then .stringLabel p.name else .label p.name

/-- The instance OID of `labels` and how many of its arcs are the index. -/
def renderInstance (std : StdText) (template : OidTemplate) (labels : Labels) : Except String (Oid × UInt8) :=
  match template.render labels with
  | .error e => .error (e.text std)
  | .ok arcs =>
    match Oid.fromArcs arcs with
    | some oid => .ok (oid, UInt8.ofNat (arcs.length - template.object.arcs.length))
    | none => .error "the rendered OID cannot be encoded"

end Sonda.Snmp
