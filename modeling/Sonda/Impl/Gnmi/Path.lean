import Mathlib.Data.List.Lex
import Sonda.Framework.Ordered
import Sonda.Impl.Config.LabelValues
import Sonda.Impl.Schedule.ScheduleLoop

/-!
# gNMI paths

The `Path` of `sonda-core/src/encoder/gnmi/proto.rs` and its text form, and from
`path.rs` the path templates and `parse_client_path`. A text is its octets: each
character the source looks for is one octet, so reading by octets and reading by
characters is the same. A loop over the characters of a text is a recursion over
the text with what the loop holds as its state.
-/

namespace Sonda.Gnmi

open Framework
open Config (Text stripPrefix)
open Sonda.Schedule (SondaError)

/-- A text of the source, as a string. -/
def str (text : Text) : String := (String.fromUTF8? ⟨text.toArray⟩).getD ""

/-- How the standard library shows texts. -/
structure StdDebug where
  /-- A text in quotes, escaped. -/
  quote : Text → String
  /-- The first character of a text in quotes, escaped. -/
  quoteFirst : Text → String

def slash : UInt8 := 0x2f
def colon : UInt8 := 0x3a
def equals : UInt8 := 0x3d
def question : UInt8 := 0x3f
def openBracket : UInt8 := 0x5b
def backslash : UInt8 := 0x5c
def closeBracket : UInt8 := 0x5d
def openBrace : UInt8 := 0x7b
def closeBrace : UInt8 := 0x7d

/-! ## Paths -/

/-- Texts compare by their octets. -/
def octetNumbers (text : Text) : List Nat := text.map UInt8.toNat

/-- A `BTreeMap` from key name to key value. -/
structure KeyMap where
  entries : List (Text × Text)
  ordered : Ordered (fun entry => octetNumbers entry.1) entries
  deriving DecidableEq

namespace KeyMap

def empty : KeyMap := ⟨[], .nil⟩

def insert (map : KeyMap) (key value : Text) : KeyMap :=
  ⟨insertKey (fun entry => octetNumbers entry.1) (key, value) map.entries, ordered_insertKey map.ordered⟩

def get (map : KeyMap) (key : Text) : Option Text :=
  (map.entries.find? fun entry => entry.1 == key).map Prod.snd

def containsKey (map : KeyMap) (key : Text) : Bool := map.entries.any fun entry => entry.1 == key

end KeyMap

structure PathElem where
  name : Text
  key : KeyMap
  deriving DecidableEq

structure Path where
  origin : Text
  elem : List PathElem
  target : Text
  deriving DecidableEq

/-- A key value as `Display` writes it. -/
def escaped (value : Text) : Text :=
  value.flatMap fun c => if c == closeBracket || c == backslash then [backslash, c] else [c]

def keyText (entry : Text × Text) : Text :=
  openBracket :: entry.1 ++ equals :: escaped entry.2 ++ [closeBracket]

def PathElem.text (elem : PathElem) : Text := slash :: elem.name ++ elem.key.entries.flatMap keyText

/-- `Display`: `origin:/a/b[k=v]/c`. -/
def Path.text (path : Path) : Text :=
  (if path.origin.isEmpty then [] else path.origin ++ [colon]) ++
    if path.elem.isEmpty then [slash] else path.elem.flatMap PathElem.text

/-! ## The `origin:` prefix -/

/-- What stands before the first `:/` and what follows its `:`. -/
def findColonSlash : Text → Option (Text × Text)
  | [] => none
  | c :: rest =>
    if c == colon && rest.head? == some slash then some ([], rest)
    else (findColonSlash rest).map fun (before, after) => (c :: before, after)

def splitOrigin (s : Text) : Option Text × Text :=
  match findColonSlash s with
  | some (before, after) =>
    if before.any fun c => c == slash || c == openBracket then (none, s) else (some before, after)
  | none => (none, s)

/-- `strip_prefix('/')`, or the text itself. -/
def withoutSlash (s : Text) : Text := (stripPrefix [slash] s).getD s

/-! ## Client paths -/

inductive ClientPathError
  | unmatchedBracket
  | emptyElement
  | noEquals (name : Text)
  | emptyKey (name : Text)
  | unclosedBracket (name : Text)
  | repeatedKey (key name : Text)
  /-- The character that `rest` starts with. -/
  | unexpected (rest name : Text)
  deriving DecidableEq

section

variable (std : StdDebug)

def ClientPathError.reason : ClientPathError → String
  | .unmatchedBracket => "unmatched ']'"
  | .emptyElement => "empty path element"
  | .noEquals name => "key group in element " ++ std.quote name ++ " has no '='"
  | .emptyKey name => "empty key in element " ++ std.quote name
  | .unclosedBracket name => "unclosed '[' in element " ++ std.quote name
  | .repeatedKey key name => "key " ++ std.quote key ++ " appears more than once in element " ++ std.quote name
  | .unexpected rest name => "unexpected " ++ std.quoteFirst rest ++ " after a key group in element " ++
      std.quote name

end

/-- Where the loops of `parse_client_path` are. -/
inductive Reading
  | name (name : Text)
  | key (name : Text) (keys : KeyMap) (key : Text)
  | value (name : Text) (keys : KeyMap) (key value : Text)
  /-- After a backslash in a value. -/
  | escape (name : Text) (keys : KeyMap) (key value : Text)
  /-- After a key group. -/
  | after (name : Text) (keys : KeyMap)

/-- The elements of a path's body, after `elem`. -/
def readElems (elem : List PathElem) : Reading → Text → Except ClientPathError (List PathElem)
  | .name name, [] => if name.isEmpty then .error .emptyElement else .ok (elem ++ [⟨name, .empty⟩])
  | .name name, c :: rest =>
    if c == slash then
      if name.isEmpty then .error .emptyElement
      else readElems (elem ++ [⟨name, .empty⟩]) (.name []) rest
    else if c == openBracket then
      if name.isEmpty then .error .emptyElement else readElems elem (.key name .empty []) rest
    else if c == closeBracket then .error .unmatchedBracket
    else readElems elem (.name (name ++ [c])) rest
  | .key name _ _, [] => .error (.noEquals name)
  | .key name keys key, c :: rest =>
    if c == equals then
      if key.isEmpty then .error (.emptyKey name) else readElems elem (.value name keys key []) rest
    else if c == closeBracket then .error (.noEquals name)
    else readElems elem (.key name keys (key ++ [c])) rest
  | .value name _ _ _, [] => .error (.unclosedBracket name)
  | .value name keys key value, c :: rest =>
    if c == closeBracket then
      if keys.containsKey key then .error (.repeatedKey key name)
      else readElems elem (.after name (keys.insert key value)) rest
    else if c == backslash then readElems elem (.escape name keys key value) rest
    else readElems elem (.value name keys key (value ++ [c])) rest
  | .escape name _ _ _, [] => .error (.unclosedBracket name)
  | .escape name keys key value, c :: rest => readElems elem (.value name keys key (value ++ [c])) rest
  | .after name keys, [] => .ok (elem ++ [⟨name, keys⟩])
  | .after name keys, c :: rest =>
    if c == openBracket then readElems elem (.key name keys []) rest
    else if c == slash then readElems (elem ++ [⟨name, keys⟩]) (.name []) rest
    else .error (.unexpected (c :: rest) name)

theorem readElems_escape (elem name keys key value c rest) :
    readElems elem (.escape name keys key value) (c :: rest) =
      readElems elem (.value name keys key (value ++ [c])) rest := by
  rw [readElems]

def parseClientPath (std : StdDebug) (s : Text) : Except SondaError Path :=
  let (origin, rest) := splitOrigin s
  let body := withoutSlash rest
  match if body.isEmpty then .ok [] else readElems [] (.name []) body with
  | .ok elem => .ok ⟨origin.getD [], elem, []⟩
  | .error e => .error (.config ("invalid gnmi path " ++ std.quote s ++ ": " ++ e.reason std))

/-! ## Templates -/

/-- A literal or a placeholder. -/
inductive Part
  | literal (text : Text)
  | placeholder (name : Text)
  /-- `{x?}`, as a key value only. -/
  | optional (name : Text)
  deriving DecidableEq

structure Segment where
  name : Part
  keys : List (Text × Part)
  deriving DecidableEq

structure PathTemplate where
  segments : List Segment
  deriving DecidableEq

/-- `name`, the placeholder of the metric name. -/
def namePlaceholder : Text := [0x6e, 0x61, 0x6d, 0x65]

/-- What is between `{` and `}`. -/
def withoutBraces : Text → Option Text
  | [] => none
  | c :: rest => if c == openBrace && rest.getLast? == some closeBrace then some rest.dropLast else none

section

variable (std : StdDebug)

def parsePart (s : Text) : Except String Part :=
  match withoutBraces s with
  | some inner =>
    let isOptional := inner.getLast? == some question
    let label := if isOptional then inner.dropLast else inner
    if label.isEmpty || label.any fun c => c == openBrace || c == closeBrace || c == question then
      .error ("malformed placeholder " ++ std.quote s)
    else .ok (if isOptional then .optional label else .placeholder label)
  | none =>
    if s.any fun c => c == openBrace || c == closeBrace then
      .error (std.quote s ++ " mixes text and braces; a placeholder must be the whole name or value")
    else .ok (.literal s)

/-- Split on `/` that are not inside `[...]`. -/
def splitOutsideBrackets (depth : Nat) (part : Text) : Text → List Text
  | [] => [part]
  | c :: rest =>
    if c == openBracket then splitOutsideBrackets (depth + 1) (part ++ [c]) rest
    else if c == closeBracket then splitOutsideBrackets (depth - 1) (part ++ [c]) rest
    else if c == slash && depth == 0 then part :: splitOutsideBrackets depth [] rest
    else splitOutsideBrackets depth (part ++ [c]) rest

/-- One `[key=value]` of a segment, after `keys`. -/
def parseGroup (raw : Text) (keys : List (Text × Part)) (group : Text) : Except String (Text × Part) :=
  if group.contains openBracket then .error ("nested '[' in segment " ++ std.quote raw)
  else if !group.contains equals then
    .error ("key group [" ++ str group ++ "] in segment " ++ std.quote raw ++ " has no '='")
  else
    let key := group.takeWhile (· != equals)
    let value := (group.dropWhile (· != equals)).tail
    if key.isEmpty then
      .error ("key group [" ++ str group ++ "] in segment " ++ std.quote raw ++ " has an empty key")
    else if key.any fun c => c == openBrace || c == closeBrace then
      .error ("key name " ++ std.quote key ++ " in segment " ++ std.quote raw ++
        " must be a literal, not a placeholder")
    else if keys.any fun entry => entry.1 == key then
      .error ("key " ++ std.quote key ++ " appears more than once in segment " ++ std.quote raw)
    else (parsePart std value).map fun part => (key, part)

/-- The groups of a segment, after `keys`; `group` is the one that is open. -/
def parseGroups (raw : Text) (keys : List (Text × Part)) :
    Option Text → Text → Except String (List (Text × Part))
  | none, [] => .ok keys
  | none, c :: rest =>
    if c == openBracket then parseGroups raw keys (some []) rest
    else .error ("expected '[' after ']' in segment " ++ std.quote raw)
  | some _, [] => .error ("unclosed '[' in segment " ++ std.quote raw)
  | some group, c :: rest =>
    if c == closeBracket then
      match parseGroup std raw keys group with
      | .ok entry => parseGroups raw (keys ++ [entry]) none rest
      | .error e => .error e
    else parseGroups raw keys (some (group ++ [c])) rest

def parseSegment (raw : Text) : Except String Segment :=
  if raw.isEmpty then .error "empty path segment"
  else
    let name := raw.takeWhile (· != openBracket)
    if name.isEmpty then .error ("segment " ++ std.quote raw ++ " has no element name")
    else if name.contains closeBracket then .error ("unmatched ']' in segment " ++ std.quote raw)
    else
      match parsePart std name with
      | .error e => .error e
      | .ok (.optional label) =>
        .error ("element name \x7b" ++ str label ++ "?\x7d in segment " ++ std.quote raw ++
          " is optional; only a key value may be optional, as in [key=\x7b" ++ str label ++
          "?\x7d], because an element cannot be left out")
      | .ok part =>
        (parseGroups std raw [] none (raw.dropWhile (· != openBracket))).map fun keys => ⟨part, keys⟩

def invalidTemplate (template : Text) (reason : String) : SondaError :=
  .config ("invalid gnmi path template " ++ std.quote template ++ ": " ++ reason)

def PathTemplate.parse (template : Text) : Except SondaError PathTemplate :=
  match (splitOrigin template).1 with
  | some origin =>
    .error (invalidTemplate std template ("the template carries an origin prefix " ++ std.quote origin ++
      "; set the encoder's `origin` field instead"))
  | none =>
    let body := withoutSlash template
    if body.isEmpty then .error (invalidTemplate std template "the path has no elements")
    else
      match (splitOutsideBrackets 0 [] body).mapM (parseSegment std) with
      | .ok segments => .ok ⟨segments⟩
      | .error reason => .error (invalidTemplate std template reason)

/-! ## Rendering -/

abbrev Labels := List (Text × Text)

def labelValue (labels : Labels) (label : Text) : Option Text :=
  (labels.find? fun entry => entry.1 == label).map Prod.snd

def missingLabel (part : Part) (name : Text) : SondaError :=
  let shown := match part with
    | .literal s => str s
    | .placeholder p => "\x7b" ++ str p ++ "\x7d"
    | .optional p => "\x7b" ++ str p ++ "?\x7d"
  .encoder (.eventRejected ("gnmi path template placeholder " ++ shown ++
    " names a label that metric " ++ std.quote name ++ " does not carry"))

/-- `name.replace('_', "-")`. -/
def dashed (name : Text) : Text := name.map fun c => if c == 0x5f then 0x2d else c

/-- The text of a part; `none` for an optional placeholder whose label is absent. -/
def resolve (part : Part) (name : Text) (labels : Labels) : Except SondaError (Option Text) :=
  match part with
  | .literal s => .ok (some s)
  | .placeholder p =>
    if p = namePlaceholder then .ok (some (dashed name))
    else
      match labelValue labels p with
      | some value => .ok (some value)
      | none => .error (missingLabel std part name)
  | .optional p => if p = namePlaceholder then .ok (some (dashed name)) else .ok (labelValue labels p)

def isValidElementName (element : Text) : Bool :=
  !element.isEmpty && !element.any fun c => c == slash || c == openBracket || c == closeBracket

/-- The keys of a segment that the labels give a value. -/
def renderKeys (name : Text) (labels : Labels) :
    List (Text × Part) → KeyMap → Except SondaError KeyMap
  | [], keys => .ok keys
  | (k, v) :: rest, keys =>
    match resolve std v name labels with
    | .error e => .error e
    | .ok (some value) => renderKeys name labels rest (keys.insert k value)
    | .ok none => renderKeys name labels rest keys

def renderSegment (name : Text) (labels : Labels) (segment : Segment) : Except SondaError PathElem := do
  let key ← renderKeys std name labels segment.keys .empty
  match ← resolve std segment.name name labels with
  | none => .error (missingLabel std segment.name name)
  | some element =>
    if isValidElementName element then .ok ⟨element, key⟩
    else .error (.encoder (.eventRejected ("metric " ++ std.quote name ++ " renders gnmi path element " ++
      std.quote element ++ "; an element name must be non-empty and contain no '/', '[' or ']'")))

/-- The path of a series, with no origin and no target. -/
def PathTemplate.render (template : PathTemplate) (name : Text) (labels : Labels) :
    Except SondaError Path := do
  let elem ← template.segments.mapM (renderSegment std name labels)
  .ok ⟨[], elem, []⟩

end

end Sonda.Gnmi
