import Mathlib.Data.List.Forall2
import Mathlib.Data.List.Induction

/-!
# Computations that may fail

What a computation in `Except` that gave a result went through: each bind and
each check passed (`bind_ok`, `check_ok`), for each element it was repeated
for (`forM_ok`, `mapM_ok_forall₂`, `mapM_some`), with what a fold keeps
(`foldlM_ok`). What one that failed has failed with (`Fails`).
-/

namespace Sonda.Framework

open List

variable {ε α β : Type} {x : Except ε α} {l : List α} {l' : List β} {f : α → Except ε β} {r : β}

theorem bind_ok (h : (x >>= f) = .ok r) : ∃ a, x = .ok a ∧ f a = .ok r := by
  cases x with
  | error e => exact nomatch h
  | ok a => exact ⟨a, rfl, h⟩

theorem ok_of_toOption {r : α} (h : x.toOption = some r) : x = .ok r := by
  cases x with
  | error e => cases h
  | ok a => rw [Option.some.inj h]

theorem check_ok {c : Prop} [Decidable c] {e : ε} {r : α} (h : (if c then .error e else x) = .ok r) :
    ¬ c ∧ x = .ok r := by
  split at h
  · exact nomatch h
  · exact ⟨by assumption, h⟩

theorem forM_ok_iff {f : α → Except ε Unit} : l.forM f = .ok () ↔ ∀ a ∈ l, f a = .ok () := by
  induction l with
  | nil => exact ⟨fun _ _ ha => absurd ha not_mem_nil, fun _ => rfl⟩
  | cons b l ih =>
    constructor
    · intro h
      obtain ⟨_, hb, h⟩ := bind_ok h
      exact forall_mem_cons.2 ⟨hb, ih.1 h⟩
    · intro h
      obtain ⟨hb, hl⟩ := forall_mem_cons.1 h
      show (f b >>= fun _ => l.forM f) = _
      rw [hb]
      exact ih.2 hl

theorem forM_ok {f : α → Except ε Unit} (h : l.forM f = .ok ()) :
    ∀ a ∈ l, f a = .ok () := forM_ok_iff.1 h

theorem mapM_ok_forall₂ (h : l.mapM f = .ok l') : List.Forall₂ (fun a b => f a = .ok b) l l' := by
  induction l generalizing l' with
  | nil =>
    cases h
    exact .nil
  | cons a l ih =>
    rw [mapM_cons] at h
    obtain ⟨c, hc, h⟩ := bind_ok h
    obtain ⟨cs, hcs, h⟩ := bind_ok h
    cases h
    exact .cons hc (ih hcs)

theorem mapM_ok_getElem? (h : l.mapM f = .ok l') {i : Nat} {a : α} (ha : l[i]? = some a) :
    ∃ b, l'[i]? = some b ∧ f a = .ok b := by
  have hall := mapM_ok_forall₂ h
  clear h
  induction hall generalizing i with
  | nil => cases ha
  | cons hc _ ih =>
    cases i with
    | zero =>
      cases ha
      exact ⟨_, rfl, hc⟩
    | succ i => exact ih ha

theorem mapM_isOk (h : ∀ a ∈ l, ∃ b, f a = .ok b) : ∃ l', l.mapM f = .ok l' := by
  induction l with
  | nil => exact ⟨[], rfl⟩
  | cons a l ih =>
    obtain ⟨⟨b, hb⟩, hl⟩ := forall_mem_cons.1 h
    obtain ⟨bs, hbs⟩ := ih hl
    refine ⟨b :: bs, ?_⟩
    rw [mapM_cons, hb, hbs]
    rfl

/-- What a fold keeps as it goes over a list, whose part before each element is known. -/
theorem foldlM_ok {f : β → α → Except ε β} {p : List α → β → Prop} {b : β} (hnil : p [] b)
    (hstep : ∀ done a rest b b', l = done ++ a :: rest → p done b → f b a = .ok b' → p (done ++ [a]) b')
    (h : l.foldlM f b = .ok r) : p l r := by
  induction l using reverseRecOn generalizing r with
  | nil =>
    cases h
    exact hnil
  | append_singleton l a ih =>
    rw [foldlM_append] at h
    obtain ⟨c, hc, h⟩ := bind_ok h
    obtain ⟨d, hd, h⟩ := bind_ok h
    cases h
    refine hstep l a [] c r rfl (ih (fun done x rest b b' heq => ?_) hc) hd
    exact hstep done x (rest ++ [a]) b b' (by rw [heq, append_assoc, cons_append])

theorem foldlM_isOk {f : β → α → Except ε β} (h : ∀ b, ∀ a ∈ l, ∃ b', f b a = .ok b') (b : β) :
    ∃ r, l.foldlM f b = .ok r := by
  induction l generalizing b with
  | nil => exact ⟨b, rfl⟩
  | cons a l ih =>
    obtain ⟨b', hb'⟩ := h b a mem_cons_self
    obtain ⟨r, hr⟩ := ih (fun b x hx => h b x (mem_cons_of_mem a hx)) b'
    refine ⟨r, ?_⟩
    rw [foldlM_cons, hb']
    exact hr

theorem mapM_ok (h : l.mapM f = .ok l') : ∀ b ∈ l', ∃ a ∈ l, f a = .ok b := by
  have hall := mapM_ok_forall₂ h
  clear h
  induction hall with
  | nil => exact fun b hb => absurd hb not_mem_nil
  | cons hc _ ih =>
    intro b hb
    rcases mem_cons.mp hb with rfl | hb
    · exact ⟨_, mem_cons_self, hc⟩
    · obtain ⟨x, hx, hfx⟩ := ih b hb
      exact ⟨x, mem_cons_of_mem _ hx, hfx⟩

/-- A map that may fail gave each element its result. -/
theorem mapM_some {f : α → Option β} :
    l.mapM f = some l' ↔ List.Forall₂ (fun a b => f a = some b) l l' := by
  induction l generalizing l' with
  | nil => simp [eq_comm]
  | cons a l ih =>
    rw [mapM_cons, forall₂_cons_left_iff]
    constructor
    · intro h
      obtain ⟨b, hb, h⟩ := Option.bind_eq_some_iff.mp h
      obtain ⟨bs, hbs, h⟩ := Option.bind_eq_some_iff.mp h
      exact ⟨b, bs, hb, ih.mp hbs, (Option.some.inj h).symm⟩
    · rintro ⟨b, bs, hb, hbs, rfl⟩
      rw [hb, ih.mpr hbs]
      rfl

/-! ## How a computation fails -/

/-- Whatever error there is has the property. -/
def Fails (p : ε → Prop) (x : Except ε α) : Prop := ∀ e, x = .error e → p e

namespace Fails

variable {p : ε → Prop} {x : Except ε α} {f : α → Except ε β} {e : ε}

theorem ok (a : α) : Fails p (.ok a : Except ε α) := by
  intro e h
  cases h

theorem error (h : p e) : Fails p (.error e : Except ε α) := by
  intro e' he
  cases he
  exact h

theorem bind (hx : Fails p x) (hf : ∀ a, Fails p (f a)) : Fails p (x >>= f) := by
  cases x with
  | error e => exact error (hx e rfl)
  | ok a => exact hf a

/-- An error that the continuation does not fail with is one of the computation. -/
theorem bind_error_iff (hf : ∀ a, Fails p (f a)) (he : ¬ p e) :
    (x >>= f) = .error e ↔ x = .error e := by
  cases x with
  | error e' =>
    show Except.error e' = _ ↔ _
    rw [Except.error.injEq, Except.error.injEq]
  | ok a =>
    constructor
    · intro h
      exact absurd (hf a e h) he
    · nofun

theorem mapError {δ : Type} {g : δ → ε} (hg : ∀ e, p (g e)) (x : Except δ α) : Fails p (x.mapError g) := by
  cases x with
  | error e => exact error (hg e)
  | ok a => exact ok a

theorem forM {f : α → Except ε Unit} (hf : ∀ a, Fails p (f a)) (l : List α) : Fails p (l.forM f) := by
  induction l with
  | nil => exact ok ()
  | cons a l ih => exact bind (hf a) fun _ => ih

theorem mapM (hf : ∀ a, Fails p (f a)) (l : List α) : Fails p (l.mapM f) := by
  induction l with
  | nil => exact ok []
  | cons a l ih =>
    rw [mapM_cons]
    exact bind (hf a) fun b => bind ih fun bs => ok (b :: bs)

theorem foldlM {f : β → α → Except ε β} (hf : ∀ b a, Fails p (f b a)) (l : List α) (b : β) :
    Fails p (l.foldlM f b) := by
  induction l generalizing b with
  | nil => exact ok b
  | cons a l ih => exact bind (hf b a) ih

end Fails

end Sonda.Framework
