import Sonda.Impl.Gnmi.Matcher

/-!
# The scan of a requested path

`aligns` remembers only the latest `...` it has passed. By the general result on
such a search (`alignsFrom_eq`) it ends, with the answer of the recursive
definition: `aligns_eq_definition`.
-/

namespace Sonda.Gnmi

open Framework

theorem alignsBy_eq_definition (wanted series : List PathElem) :
    alignsBy (fun element => element.name == anyRun) elementMatches wanted series =
      alignsByDefinition wanted series := by
  induction wanted generalizing series with
  | nil => rfl
  | cons first rest ih => simp only [alignsBy, alignsByDefinition, ih]

/-- For every requested path and every series' path, the scan ends, and it finds an
alignment exactly when the definition has one. -/
theorem aligns_eq_definition (wanted series : List PathElem) :
    ∃ steps, ∀ fuel, steps ≤ fuel → aligns fuel wanted series = some (alignsByDefinition wanted series) := by
  obtain ⟨steps, h⟩ := alignsFrom_eq (fun element : PathElem => element.name == anyRun) elementMatches
    wanted series
  refine ⟨steps, fun fuel hfuel => ?_⟩
  rw [aligns, h fuel hfuel, alignsBy_eq_definition]

/-- `/a/.../b/c` aligns with `/a/b/x/b/c/d`: the first `b` is not followed by `c`. -/
example :
    let name (c : UInt8) : PathElem := ⟨[c], .empty⟩
    alignsByDefinition [name 0x61, ⟨anyRun, .empty⟩, name 0x62, name 0x63]
      [name 0x61, name 0x62, name 0x78, name 0x62, name 0x63, name 0x64] = true := by decide

end Sonda.Gnmi
