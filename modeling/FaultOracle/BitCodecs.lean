import Mathlib.Data.List.Basic
import Mathlib.Data.Nat.Bitwise
import Mathlib.Logic.Equiv.Defs

/-!
# Codecs of fixed width

A codec writes the values of a type as so many bits, the most significant first, and
reads them back.  That the two are inverse is part of the codec (`get_put`, `put_get`),
so codecs put together from smaller ones need no proof of their own: `bits` for one bit
vector, `pair` for one value after another, `map` for a record with the same contents.

`extract` takes a value from the front of a stream, which works exactly when the stream
begins with the encoding of that value (`extract_eq_some_iff`).
-/

namespace BitCodecs

/-- The low `width` bits of a number, the most significant first. -/
def bitsOfNat : Nat → Nat → List Bool
  | 0, _ => []
  | width + 1, n => n.testBit width :: bitsOfNat width n

/-- The number spelled by bits, the most significant first. -/
def natOfBits : List Bool → Nat
  | [] => 0
  | b :: bits => 2 ^ bits.length * b.toNat + natOfBits bits

@[simp] theorem length_bitsOfNat (width n : Nat) : (bitsOfNat width n).length = width := by
  induction width with
  | zero => rfl
  | succ width ih => simp [bitsOfNat, ih]

theorem natOfBits_lt (bits : List Bool) : natOfBits bits < 2 ^ bits.length := by
  induction bits with
  | nil => simp [natOfBits]
  | cons b bits ih =>
      have hb : b.toNat ≤ 1 := Bool.toNat_le b
      have htop : 2 ^ bits.length * b.toNat ≤ 2 ^ bits.length * 1 := Nat.mul_le_mul_left _ hb
      rw [natOfBits, List.length_cons, pow_succ]
      omega

theorem natOfBits_bitsOfNat (width n : Nat) : natOfBits (bitsOfNat width n) = n % 2 ^ width := by
  induction width with
  | zero => simp [bitsOfNat, natOfBits, Nat.mod_one]
  | succ width ih =>
      have hbit : (n.testBit width).toNat = n / 2 ^ width % 2 := by
        rw [Nat.testBit_eq_decide_div_mod_eq]
        rcases Nat.mod_two_eq_zero_or_one (n / 2 ^ width) with h | h <;> simp [h]
      rw [bitsOfNat, natOfBits, ih, length_bitsOfNat, Nat.mod_pow_succ, hbit, Nat.add_comm]

/-- The low bits do not depend on what stands above them. -/
theorem bitsOfNat_mod {width k : Nat} (hk : width ≤ k) (n : Nat) :
    bitsOfNat width (n % 2 ^ k) = bitsOfNat width n := by
  induction width with
  | zero => rfl
  | succ width ih =>
      have hbit : (n % 2 ^ k).testBit width = n.testBit width := by
        rw [Nat.testBit_mod_two_pow, decide_eq_true (by omega), Bool.true_and]
      rw [bitsOfNat, bitsOfNat, hbit, ih (by omega)]

theorem bitsOfNat_natOfBits (bits : List Bool) : bitsOfNat bits.length (natOfBits bits) = bits := by
  induction bits with
  | nil => rfl
  | cons b bits ih =>
      have hlt : natOfBits bits < 2 ^ bits.length := natOfBits_lt bits
      have hlow : (2 ^ bits.length * b.toNat + natOfBits bits) % 2 ^ bits.length =
          natOfBits bits := by
        rw [Nat.mul_add_mod, Nat.mod_eq_of_lt hlt]
      have hbit : (2 ^ bits.length * b.toNat + natOfBits bits).testBit bits.length = b := by
        rw [Nat.testBit_two_pow_mul_add _ hlt, if_neg (Nat.lt_irrefl _), Nat.sub_self]
        cases b <;> rfl
      rw [List.length_cons, bitsOfNat, natOfBits, hbit, ← bitsOfNat_mod (Nat.le_refl _), hlow, ih]

/-- A way of writing the values of a type in a fixed number of bits. -/
structure Codec (α : Type*) where
  width : Nat
  put : α → List Bool
  get : List Bool → α
  length_put : ∀ a, (put a).length = width
  get_put : ∀ a, get (put a) = a
  put_get : ∀ bits, bits.length = width → put (get bits) = bits

namespace Codec

variable {α β : Type*}

attribute [simp] length_put get_put

/-- A bit vector. -/
def bits (w : Nat) : Codec (BitVec w) where
  width := w
  put := fun x => bitsOfNat w x.toNat
  get := fun l => BitVec.ofNat w (natOfBits l)
  length_put := fun x => length_bitsOfNat w x.toNat
  get_put := by
    intro x
    apply BitVec.eq_of_toNat_eq
    rw [natOfBits_bitsOfNat, BitVec.toNat_ofNat, Nat.mod_mod, Nat.mod_eq_of_lt x.isLt]
  put_get := by
    intro l hl
    have hlt : natOfBits l < 2 ^ w := hl ▸ natOfBits_lt l
    rw [BitVec.toNat_ofNat, Nat.mod_eq_of_lt hlt, ← hl, bitsOfNat_natOfBits]

/-- One value after another. -/
def pair (c : Codec α) (d : Codec β) : Codec (α × β) where
  width := c.width + d.width
  put := fun p => c.put p.1 ++ d.put p.2
  get := fun l => (c.get (l.take c.width), d.get (l.drop c.width))
  length_put := by simp
  get_put := by
    rintro ⟨a, b⟩
    have htake : (c.put a ++ d.put b).take c.width = c.put a :=
      List.take_left' (c.length_put a)
    have hdrop : (c.put a ++ d.put b).drop c.width = d.put b :=
      List.drop_left' (c.length_put a)
    simp [htake, hdrop]
  put_get := by
    intro l hl
    have hfront : (l.take c.width).length = c.width := by
      rw [List.length_take]
      omega
    have hback : (l.drop c.width).length = d.width := by
      rw [List.length_drop]
      omega
    rw [c.put_get _ hfront, d.put_get _ hback, List.take_append_drop]

/-- The same bits for a type with the same values. -/
def map (c : Codec α) (e : α ≃ β) : Codec β where
  width := c.width
  put := fun b => c.put (e.symm b)
  get := fun l => e (c.get l)
  length_put := fun b => c.length_put (e.symm b)
  get_put := by simp
  put_get := by
    intro l hl
    simp [c.put_get l hl]

/-- The value at the front of a stream, and what follows it. -/
def extract (c : Codec α) (stream : List Bool) : Option (α × List Bool) :=
  if c.width ≤ stream.length then
    some (c.get (stream.take c.width), stream.drop c.width)
  else none

@[simp] theorem extract_put_append (c : Codec α) (a : α) (rest : List Bool) :
    c.extract (c.put a ++ rest) = some (a, rest) := by
  have hlong : c.width ≤ (c.put a ++ rest).length := by simp
  rw [extract, if_pos hlong, List.take_left' (c.length_put a), List.drop_left' (c.length_put a),
    c.get_put]

/-- A stream too short for a value is all that `extract` fails on. -/
theorem extract_eq_none_iff {c : Codec α} {stream : List Bool} :
    c.extract stream = none ↔ stream.length < c.width := by
  rw [extract, ite_eq_right_iff]
  simp

/-- **Extraction** succeeds exactly on the streams that begin with the value's encoding. -/
theorem extract_eq_some_iff {c : Codec α} {stream rest : List Bool} {a : α} :
    c.extract stream = some (a, rest) ↔ stream = c.put a ++ rest := by
  constructor
  · intro h
    unfold extract at h
    split at h
    · rename_i hlong
      have hfront : (stream.take c.width).length = c.width := by
        rw [List.length_take]
        omega
      obtain ⟨rfl, rfl⟩ := Prod.mk.inj (Option.some.inj h)
      rw [c.put_get _ hfront, List.take_append_drop]
    · cases h
  · rintro rfl
    exact extract_put_append c a rest

/-- Encodings can be told from what follows them. -/
theorem put_append_inj (c : Codec α) {a b : α} {rest rest' : List Bool} :
    c.put a ++ rest = c.put b ++ rest' ↔ a = b ∧ rest = rest' := by
  constructor
  · intro h
    have hsame : some (a, rest) = some (b, rest') := by
      rw [← c.extract_put_append a rest, h, c.extract_put_append]
    exact Prod.mk.inj (Option.some.inj hsame)
  · rintro ⟨rfl, rfl⟩
    rfl

end Codec

end BitCodecs
