import Sonda.Impl.Config.LabelValues

/-!
# Log templates

`sonda-core/src/generator/log_template.rs`: the value that is selected for a placeholder,
and the scan that puts the values into a message. Texts are their bytes.
-/

namespace Sonda.Generator

open Config (Text splitmix64)

/-- A message with the pools of its placeholders, in the order of their names. -/
structure TemplateEntry where
  message : Text
  fieldPools : List (Text × List Text)
  ordered : fieldPools.Pairwise fun a b => a.1 < b.1

/-- The name is mixed into the hash byte by byte. -/
def hashFor (seed tick : UInt64) (discriminant : Text) : UInt64 :=
  discriminant.foldl (fun h b => splitmix64 (h ^^^ b.toUInt64)) (splitmix64 (seed ^^^ tick))

def selectFromPool (seed tick : UInt64) (fieldName : Text) (pool : List Text) : Text :=
  if pool.isEmpty then [] else pool.getD ((hashFor seed tick fieldName).toNat % pool.length) []

/-- `{`. -/
def openBrace : UInt8 := 0x7b

/-- `}`. -/
def closeBrace : UInt8 := 0x7d

/-- The names of the fields with the values that are selected for them. -/
abbrev Fields := List (Text × Text)

def Fields.get (fields : Fields) (name : Text) : Option Text :=
  (fields.find? (·.1 = name)).map Prod.snd

/-- The scan from a position on. Every turn takes a byte at least, so the length is enough fuel. -/
def resolveFrom (fields : Fields) : (fuel : Nat) → (src : Text) → Text
  | 0, _ => []
  | _ + 1, [] => []
  | fuel + 1, b :: rest =>
    if b = openBrace then
      if rest.contains closeBrace then
        let name := rest.takeWhile (· ≠ closeBrace)
        let resolved := (fields.get name).getD (openBrace :: (name ++ [closeBrace]))
        resolved ++ resolveFrom fields fuel ((rest.dropWhile (· ≠ closeBrace)).drop 1)
      else openBrace :: resolveFrom fields fuel rest
    else
      -- The literal run up to the next brace goes in one piece.
      b :: (rest.takeWhile (· ≠ openBrace) ++ resolveFrom fields fuel (rest.dropWhile (· ≠ openBrace)))

def selectFields (template : TemplateEntry) (seed tick : UInt64) : Fields :=
  template.fieldPools.map fun pool => (pool.1, selectFromPool seed tick pool.1 pool.2)

/-- The message, and the fields. -/
def resolveTemplate (template : TemplateEntry) (seed tick : UInt64) : Text × Fields :=
  let fields := selectFields template seed tick
  (resolveFrom fields template.message.length template.message, fields)

end Sonda.Generator
