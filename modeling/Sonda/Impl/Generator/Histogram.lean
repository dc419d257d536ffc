import Sonda.Impl.Config.Durations

/-!
# Histogram buckets

`format_le_value` and `le_values` of `sonda-core/src/generator/histogram.rs`, and
`validate_buckets` of `sonda-core/src/config/validate.rs`. How the standard library shows an
`f64` is the parameter `display`.
-/

namespace Sonda.Generator

open Framework
open Config (Text textString)
open Sonda.Schedule (SondaError)

/-- An `f64` of a configuration. -/
inductive F64
  | finite (q : ℚ)
  | infinity
  | negInfinity
  | nan

/-- Neither NaN nor infinite nor `<= 0.0`. -/
def F64.isPositive : F64 → Bool
  | .finite q => 0 < q
  | _ => false

def F64.le : F64 → F64 → Bool
  | .nan, _ | _, .nan => false
  | .finite p, .finite q => p ≤ q
  | .negInfinity, _ | _, .infinity => true
  | _, _ => false

/-- The conversion `as i64`, which saturates. -/
def asI64 (q : ℚ) : Int := max (-0x8000000000000000) (min (q.num.tdiv q.den) 0x7fffffffffffffff)

def showI64 (n : Int) : Text := (if n < 0 then [0x2d] else []) ++ decimal n.natAbs

/-- The text `+Inf`. -/
def infBucket : Text := [0x2b, 0x49, 0x6e, 0x66]

def formatLeValue (display : F64 → Text) : F64 → Text
  -- a number that equals its truncation
  | .finite q => if q.isInt then showI64 (asI64 q) else display (.finite q)
  | bound => display bound

def leValues (display : F64 → Text) (buckets : List F64) : List Text :=
  buckets.map (formatLeValue display) ++ [infBucket]

/-- The first loop of `validate_buckets`, from the bound at `i` on. -/
def checkBounds (display : F64 → Text) : Nat → List F64 → Except SondaError Unit
  | _, [] => .ok ()
  | i, b :: rest =>
    if F64.isPositive b then checkBounds display (i + 1) rest
    else .error (.config s!"buckets[{i}] must be positive and finite, got {textString (display b)}")

/-- The second loop of `validate_buckets`, over the windows of two bounds. -/
def checkSorted (display : F64 → Text) : List F64 → Except SondaError Unit
  | a :: b :: rest =>
    if F64.le b a then
      .error (.config
        s!"buckets must be strictly sorted: {textString (display a)} >= {textString (display b)}")
    else checkSorted display (b :: rest)
  | [] | [_] => .ok ()

def validateBuckets (display : F64 → Text) (buckets : List F64) : Except SondaError Unit :=
  if buckets.isEmpty then .error (.config "buckets must not be empty")
  else do
    checkBounds display 0 buckets
    checkSorted display buckets

end Sonda.Generator
