import Mathlib.Data.List.Lex
import Sonda.Impl.Snmp.Ber

/-!
# Object identifiers

The `Oid` of `sonda-core/src/encoder/snmp/oid.rs` with its BER form. An arc is
a `u32`, a number below `2 ^ 32` here. Every way to build an `Oid` leaves its
first two arcs foldable into one subidentifier, so that is a field of it.
-/

namespace Sonda.Snmp

open Framework

/-- `u32::MAX + 1`. -/
def arcBound : Nat := 4294967296

variable (arcs : List Nat)

/-- Two arcs or more, the first two of them foldable, all of them `u32`s. -/
def ValidArcs : Prop :=
  2 ≤ arcs.length ∧ (∀ arc ∈ arcs, arc < arcBound) ∧
    (arcs.headD 0 = 0 ∧ arcs.getD 1 0 < 40 ∨ arcs.headD 0 = 1 ∧ arcs.getD 1 0 < 40 ∨
      arcs.headD 0 = 2)

instance (arcs : List Nat) : Decidable (ValidArcs arcs) := inferInstanceAs (Decidable (_ ∧ _ ∧ _))

structure Oid where
  arcs : List Nat
  valid : ValidArcs arcs
  deriving DecidableEq

theorem Oid.arcs_injective : Function.Injective Oid.arcs := fun _ _ h => by
  rwa [Oid.mk.injEq]

/-- By arc, an OID before every OID it is a front of. -/
instance : LinearOrder Oid := LinearOrder.lift' Oid.arcs Oid.arcs_injective

instance : Std.LawfulEqOrd Oid := ⟨fun h => compare_eq_iff_eq.mp h⟩

/-- Dotted decimal. -/
def Oid.text (oid : Oid) : String := ".".intercalate (oid.arcs.map toString)

def firstArcsEncodable : Bool :=
  match arcs with
  | 0 :: second :: _ | 1 :: second :: _ => second < 40
  | 2 :: second :: _ => second ≤ arcBound - 1 - 80
  | _ => false

theorem validArcs_of_encodable {arcs : List Nat} (h : firstArcsEncodable arcs = true)
    (hu : ∀ arc ∈ arcs, arc < arcBound) : ValidArcs arcs := by
  match arcs, h with
  | 0 :: second :: rest, h => exact ⟨by simp, hu, .inl ⟨rfl, by simpa [firstArcsEncodable] using h⟩⟩
  | 1 :: second :: rest, h =>
    exact ⟨by simp, hu, .inr (.inl ⟨rfl, by simpa [firstArcsEncodable] using h⟩)⟩
  | 2 :: second :: rest, _ => exact ⟨by simp, hu, .inr (.inr rfl)⟩

/-- `Oid::from_arcs`, of arcs that are `u32`s. -/
def Oid.fromArcs : Option Oid :=
  if h : firstArcsEncodable arcs = true ∧ ∀ arc ∈ arcs, arc < arcBound then
    some ⟨arcs, validArcs_of_encodable h.1 h.2⟩
  else none

/-! ## BER -/

def firstSubidentifier : Nat := arcs.headD 0 * 40 + arcs.getD 1 0

def subidentifierLen (value : Nat) : Nat := max (digitCount 7 value) 1

/-- Septets, the high bit set on every octet but the last. -/
def septets : List Nat → Octets
  | [] => []
  | [d] => [UInt8.ofNat d]
  | d :: ds => (UInt8.ofNat d ||| 0x80) :: septets ds

def writeSubidentifier (value : Nat) (out : Octets) : Octets :=
  out ++ septets (beDigits 128 (subidentifierLen value) value)

def berBodyLen : Nat :=
  subidentifierLen (firstSubidentifier arcs) + ((arcs.drop 2).map subidentifierLen).sum

def writeBerBody (out : Octets) : Octets :=
  (arcs.drop 2).foldl (fun out arc => writeSubidentifier arc out)
    (writeSubidentifier (firstSubidentifier arcs) out)

/-- The first two arcs of the first subidentifier. -/
def unfoldFirst (value : Nat) : Nat × Nat :=
  if value ≤ 39 then (0, value) else if value ≤ 79 then (1, value - 40) else (2, value - 80)

/-- The loop of `decode_ber_body` over the octets that are left. -/
def decodeOctets (first started : Bool) (value : Nat) (arcs : List Nat) : Octets → Option (List Nat)
  | [] => if started then none else some arcs
  | octet :: rest =>
    if !started && octet == 0x80 then none
    else
      let value := value * 128 + (octet &&& 0x7F).toNat
      if arcBound - 1 + 80 < value then none
      else if octet &&& 0x80 != 0 then decodeOctets first true value arcs rest
      else if first then
        let p := unfoldFirst value
        if p.2 < arcBound then decodeOctets false false 0 (arcs ++ [p.1, p.2]) rest else none
      else if value < arcBound then decodeOctets false false 0 (arcs ++ [value]) rest
      else none

def decodeBerBody (body : Octets) : Option (List Nat) :=
  if body.isEmpty then none else decodeOctets true false 0 [] body

/-- The accumulator with the septet of an octet shifted in. -/
def pushSeptet (value : UInt64) (octet : UInt8) : UInt64 := value <<< 7 ||| (octet &&& 0x7F).toUInt64

def machineFirst (value : UInt64) : Nat × UInt64 :=
  if value ≤ 39 then (0, value) else if value ≤ 79 then (1, value - 40) else (2, value - 80)

/-- The loop of `decode_ber_body` with its `u64`. -/
def machineOctets (first started : Bool) (value : UInt64) (arcs : List Nat) : Octets → Option (List Nat)
  | [] => if started then none else some arcs
  | octet :: rest =>
    if !started && octet == 0x80 then none
    else
      let value := pushSeptet value octet
      if 4294967295 + 80 < value then none
      else if octet &&& 0x80 != 0 then machineOctets first true value arcs rest
      else if first then
        let p := machineFirst value
        if p.2 ≤ 4294967295 then machineOctets false false 0 (arcs ++ [p.1, p.2.toNat]) rest else none
      else if value ≤ 4294967295 then machineOctets false false 0 (arcs ++ [value.toNat]) rest
      else none

def machineBerBody (body : Octets) : Option (List Nat) :=
  if body.isEmpty then none else machineOctets true false 0 [] body

theorem validArcs_unfoldFirst {value : Nat} (h : (unfoldFirst value).2 < arcBound) :
    ValidArcs [(unfoldFirst value).1, (unfoldFirst value).2] := by
  simp only [ValidArcs, unfoldFirst, arcBound] at h ⊢
  split
  · exact ⟨by simp, by simp; omega, .inl ⟨rfl, by simp; omega⟩⟩
  · split
    · exact ⟨by simp, by simp; omega, .inr (.inl ⟨rfl, by simp; omega⟩)⟩
    · rename_i h₁ h₂
      rw [if_neg h₁, if_neg h₂] at h
      exact ⟨by simp, by simp; omega, .inr (.inr rfl)⟩

theorem validArcs_append {arcs : List Nat} {arc : Nat} (h : ValidArcs arcs) (ha : arc < arcBound) :
    ValidArcs (arcs ++ [arc]) := by
  match arcs, h with
  | a :: b :: rest, ⟨hlen, hu, hfirst⟩ =>
    refine ⟨by simp, fun x hx => ?_, hfirst⟩
    rcases List.mem_append.mp hx with hx | hx
    · exact hu x hx
    · rw [List.mem_singleton.mp hx]
      exact ha

/-- What the loop accepts is an OID's arcs. -/
theorem validArcs_decodeOctets {body : Octets} : ∀ {first started : Bool} {value : Nat}
    {arcs r : List Nat}, decodeOctets first started value arcs body = some r →
    (first = true → arcs = [] ∧ (started = true ∨ body ≠ [])) → (first = false → ValidArcs arcs) →
    ValidArcs r := by
  induction body with
  | nil =>
    intro first started value arcs r h hfirst hrest
    unfold decodeOctets at h
    split at h
    · cases h
    · rename_i hs
      cases first with
      | true => simp [hs] at hfirst
      | false => exact Option.some.inj h ▸ hrest rfl
  | cons octet rest ih =>
    intro first started value arcs r h hfirst hrest
    unfold decodeOctets at h
    dsimp only at h
    split at h <;> [cases h; skip]
    split at h <;> [cases h; skip]
    split at h
    · exact ih h (fun hf => ⟨(hfirst hf).1, .inl rfl⟩) hrest
    · split at h
      · rename_i hf
        split at h <;> [skip; cases h]
        rename_i hlt
        refine ih h (by simp) fun _ => ?_
        rw [(hfirst hf).1]
        exact validArcs_unfoldFirst hlt
      · rename_i hf
        split at h <;> [skip; cases h]
        rename_i hlt
        exact ih h (by simp) fun _ => validArcs_append (hrest (by simpa using hf)) hlt

theorem validArcs_decodeBerBody {body : Octets} {arcs : List Nat} (h : decodeBerBody body = some arcs) :
    ValidArcs arcs := by
  unfold decodeBerBody at h
  split at h
  · cases h
  · rename_i hne
    exact validArcs_decodeOctets h (fun _ => ⟨rfl, .inr (by simpa using hne)⟩) (by simp)

def Oid.fromBerBody (body : Octets) : Option Oid :=
  match h : decodeBerBody body with
  | some arcs => some ⟨arcs, validArcs_decodeBerBody h⟩
  | none => none

def Reader.oid (r : Reader) : Except BerError (Oid × Reader) := do
  let (body, r) ← r.expect .oid
  match Oid.fromBerBody body.octets with
  | some oid => .ok (oid, r)
  | none => .error .badOid

def writeOid (out : Octets) (oid : Oid) : Octets :=
  writeBerBody oid.arcs (writeHeader out .oid (berBodyLen oid.arcs))

def writeVarbind (out : Octets) (oid : Oid) (value : Octets) : Octets :=
  let body := tlvLen (berBodyLen oid.arcs) + value.length
  writeOid (writeHeader out .sequence body) oid ++ value

end Sonda.Snmp
