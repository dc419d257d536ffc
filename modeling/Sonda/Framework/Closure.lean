/-!
# Closures that are called once

A function that takes a closure and calls it on one argument only depends on
the closure's result there and on nothing else (`CallsOnce`). Calling once is
kept by what is done with the result (`CallsOnce.map`) and by calling the
closure inside another closure that is called once (`CallsOnce.comp`).
-/

namespace Sonda.Framework

variable {α β γ δ ε : Type}

/-- `w` reads its closure at one argument. -/
def CallsOnce (w : (α → β) → γ) : Prop := ∃ a, ∀ f g : α → β, f a = g a → w f = w g

theorem CallsOnce.call (a : α) : CallsOnce fun f : α → β => f a := ⟨a, fun _ _ h => h⟩

theorem CallsOnce.map {w : (α → β) → γ} (h : CallsOnce w) (k : γ → δ) : CallsOnce fun f => k (w f) := by
  obtain ⟨a, ha⟩ := h
  exact ⟨a, fun f g hfg => congrArg k (ha f g hfg)⟩

theorem CallsOnce.comp {w : (δ → ε) → γ} {v : δ → (α → β) → ε} (hw : CallsOnce w)
    (hv : ∀ d, CallsOnce (v d)) : CallsOnce fun f => w fun d => v d f := by
  obtain ⟨d, hd⟩ := hw
  obtain ⟨a, ha⟩ := hv d
  exact ⟨a, fun f g hfg => hd _ _ (ha f g hfg)⟩

end Sonda.Framework
