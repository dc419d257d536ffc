import Sonda.Framework.Runs
import Sonda.Impl.Gnmi.Path

/-!
# Which series a request selects

The `SubscriptionMatcher` of `sonda-core/src/sink/gnmi/matcher.rs`: the requested
paths joined to the request's prefix, and `aligns`, the scan that aligns a
requested path with the front of a series' path. `alignsByDefinition` is the
reference the tests of the source compare it with.
-/

namespace Sonda.Gnmi

open Framework
open Config (Text)

/-- `*`, any one element or any value of a key. -/
def anyOne : Text := [0x2a]

/-- `...`, any run of elements. -/
def anyRun : Text := [0x2e, 0x2e, 0x2e]

/-- An element of a requested path, a name or `*`, matches an element of a series. -/
def elementMatches (wanted elem : PathElem) : Bool :=
  (wanted.name == anyOne || wanted.name == elem.name) &&
    wanted.key.entries.all fun (k, v) => v == anyOne || elem.key.get k == some v

/-- The scan of `wanted` along `series`, `fuel` steps at most. -/
def aligns (fuel : Nat) (wanted series : List PathElem) : Option Bool :=
  alignsFrom (fun element => element.name == anyRun) elementMatches fuel wanted series none

/-- An empty pattern aligns; `...` aligns when the rest does after it takes any
number of elements; any other element aligns when it matches the first element and
the rest aligns after it. -/
def alignsByDefinition : List PathElem → List PathElem → Bool
  | [], _ => true
  | first :: rest, series =>
    if first.name == anyRun then
      (List.range (series.length + 1)).any fun taken => alignsByDefinition rest (series.drop taken)
    else series.head?.any (elementMatches first) && alignsByDefinition rest series.tail

/-- `series` is `subscribed` or below it. -/
def isUnder (fuel : Nat) (series subscribed : Path) : Option Bool :=
  if (subscribed.origin.isEmpty || subscribed.origin == series.origin) &&
      (subscribed.target.isEmpty || subscribed.target == series.target) then
    aligns fuel subscribed.elem series.elem
  else some false

end Sonda.Gnmi
