import Sonda.Framework.Digits

/-!
# Values on the wire

Numbers as little-endian bytes (`leBytes`), and codecs of structured values (`Codec`), whose texts
are read back in front of any rest.
-/

namespace Sonda.Framework

open List

/-! ## Numbers -/

/-- The `k` lowest bytes of `n`, the least significant first. -/
def leBytes (k n : Nat) : List UInt8 := (beDigits 256 k n).reverse.map UInt8.ofNat

def ofLeBytes (bytes : List UInt8) : Nat := ofBe 256 (bytes.reverse.map UInt8.toNat)

@[simp]
theorem length_leBytes (k n : Nat) : (leBytes k n).length = k := by
  rw [leBytes, length_map, length_reverse, length_beDigits]

theorem ofLeBytes_leBytes {k n : Nat} (h : n < 256 ^ k) : ofLeBytes (leBytes k n) = n := by
  have hdigits : ∀ d ∈ beDigits 256 k n, (UInt8.toNat ∘ UInt8.ofNat) d = d := by
    intro d hd
    rw [Function.comp_apply, UInt8.toNat_ofNat', Nat.mod_eq_of_lt (lt_of_mem_beDigits (by decide) hd)]
  rw [ofLeBytes, leBytes, ← map_reverse, reverse_reverse, map_map,
    map_congr_left hdigits, map_id', ofBe_beDigits h]

/-! ## Codecs -/

/-- What is written is read back in front of any rest. -/
structure Codec (α : Type) where
  write : α → List UInt8
  read : List UInt8 → Option (α × List UInt8)
  read_write : ∀ a rest, read (write a ++ rest) = some (a, rest)

namespace Codec

variable {α β : Type} (c : Codec α)

def byte : Codec UInt8 where
  write b := [b]
  read
    | [] => none
    | b :: rest => some (b, rest)
  read_write _ _ := rfl

/-- A word of eight bytes. -/
def word : Codec (BitVec 64) where
  write v := leBytes 8 v.toNat
  read text :=
    if text.length < 8 then none else some (BitVec.ofNat 64 (ofLeBytes (text.take 8)), text.drop 8)
  read_write v rest := by
    rw [if_neg (by simp), take_left' (length_leBytes _ _), drop_left' (length_leBytes _ _),
      ofLeBytes_leBytes v.isLt, BitVec.ofNat_toNat, BitVec.setWidth_eq]

/-- Values that are written as those of another type. -/
def map (f : α → β) (g : β → α) (h : ∀ b, f (g b) = b) : Codec β where
  write b := c.write (g b)
  read text := (c.read text).map fun r => (f r.1, r.2)
  read_write b rest := by rw [c.read_write, Option.map_some, h]

def pair (d : Codec β) : Codec (α × β) where
  write p := c.write p.1 ++ d.write p.2
  read text := (c.read text).bind fun r => (d.read r.2).map fun q => ((r.1, q.1), q.2)
  read_write p rest := by
    rw [append_assoc, c.read_write, Option.bind_some, d.read_write]
    rfl

/-- A count in front: as many `1`s, and a `0`. -/
def readCount : List UInt8 → Option (Nat × List UInt8)
  | [] => none
  | 0 :: rest => some (0, rest)
  | _ :: rest => (readCount rest).map fun r => (r.1 + 1, r.2)

def readTimes : Nat → List UInt8 → Option (List α × List UInt8)
  | 0, text => some ([], text)
  | n + 1, text => (c.read text).bind fun r => (readTimes n r.2).map fun q => (r.1 :: q.1, q.2)

theorem readCount_replicate (n : Nat) (rest : List UInt8) :
    readCount (replicate n 1 ++ 0 :: rest) = some (n, rest) := by
  induction n with
  | zero => rfl
  | succ n ih =>
    rw [replicate_succ, cons_append, readCount, ih]
    · rfl
    · decide

/-- The number of elements, and each of them. -/
def list : Codec (List α) where
  write l := replicate l.length 1 ++ 0 :: l.flatMap c.write
  read text := (readCount text).bind fun r => c.readTimes r.1 r.2
  read_write l rest := by
    rw [append_assoc, cons_append, readCount_replicate, Option.bind_some]
    dsimp only
    induction l with
    | nil => rfl
    | cons a l ih =>
      rw [length_cons, readTimes, flatMap_cons, append_assoc, c.read_write, Option.bind_some, ih]
      rfl

/-- A text that is one value and no more. -/
def readAll (text : List UInt8) : Except String α :=
  match c.read text with
  | some (a, []) => .ok a
  | _ => .error "invalid wire format"

theorem readAll_write (a : α) : c.readAll (c.write a) = .ok a := by
  have h := c.read_write a []
  rw [append_nil] at h
  rw [readAll, h]

end Codec

end Sonda.Framework
