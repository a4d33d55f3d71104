import Mathlib.Algebra.BigOperators.Group.Finset.Basic
import Mathlib.Algebra.Field.ZMod
import Mathlib.Data.List.Basic

/-!
# Cyclic redundancy checks

A check of `w` bits is given by the lower bits `g` of its generator polynomial
`x ^ w + g`.  The remainder of a message is kept in a register: one message bit is added
to the bit at its top, and the register is shifted, `g` being added for the bit that
falls out (`feed`).  The remainder of a whole message starts from zero (`residue`), and a
message is accepted when it leaves nothing.

Everything rests on two facts.  The remainder is linear (`residue_xor`), so an altered
message is accepted exactly when the alterations on their own leave nothing.  And a shift
loses nothing when `x` does not divide the generator (`shift_eq_zero_iff`).  From there

* `residue_burst_ne_zero`: alterations within `w` consecutive bits are found;
* `residue_odd_ne_zero`: so is an odd number of them, if `x + 1` divides the generator.
-/

namespace Crc

variable {w : Nat}

/-- The register after a shift. -/
def shift (g c : BitVec w) : BitVec w := if c.msb then (c <<< 1) ^^^ g else c <<< 1

/-- The bit at the top of the register. -/
def top (w : Nat) (b : Bool) : BitVec w := if b then BitVec.twoPow w (w - 1) else 0#w

/-- The register after one more bit of the message. -/
def feed (g c : BitVec w) (b : Bool) : BitVec w := shift g (c ^^^ top w b)

/-- The remainder of a message, its bits in their order. -/
def residue (g : BitVec w) (bits : List Bool) : BitVec w := bits.foldl (feed g) 0#w

/-- Message `bits` altered where `errors` has a bit. -/
def altered (bits errors : List Bool) : List Bool := List.zipWith Bool.xor bits errors

/-! ## Linearity -/

variable (g : BitVec w)

/-- The top bit of a sum. -/
theorem top_xor (a b : Bool) : top w (a ^^ b) = top w a ^^^ top w b := by
  cases a <;> cases b <;> simp [top]

@[simp] theorem shift_zero : shift g 0#w = 0#w := by
  simp [shift]

/-- Shifting is additive. -/
theorem shift_xor (c d : BitVec w) : shift g (c ^^^ d) = shift g c ^^^ shift g d := by
  unfold shift
  rw [BitVec.msb_xor, BitVec.shiftLeft_xor_distrib]
  cases c.msb <;> cases d.msb
  · rfl
  · simp [BitVec.xor_assoc]
  · simp only [Bool.xor_false, if_true, Bool.false_eq_true, if_false]
    rw [BitVec.xor_assoc, BitVec.xor_assoc, BitVec.xor_comm g]
  · simp only [Bool.xor_self, if_true, Bool.false_eq_true, if_false]
    rw [BitVec.xor_assoc, BitVec.xor_comm g, BitVec.xor_assoc, BitVec.xor_self, BitVec.xor_zero]

/-- Feeding a bit is additive. -/
theorem feed_xor (c d : BitVec w) (a b : Bool) :
    feed g (c ^^^ d) (a ^^ b) = feed g c a ^^^ feed g d b := by
  unfold feed
  rw [top_xor, ← shift_xor]
  congr 1
  ac_rfl

/-- **Linearity.**  Two messages of one length are fed together. -/
theorem foldl_feed_altered {bits errors : List Bool} (h : bits.length = errors.length)
    (c d : BitVec w) :
    (altered bits errors).foldl (feed g) (c ^^^ d) =
      bits.foldl (feed g) c ^^^ errors.foldl (feed g) d := by
  induction bits generalizing errors c d with
  | nil =>
      obtain rfl := List.length_eq_zero_iff.mp h.symm
      rfl
  | cons a bits ih =>
      cases errors with
      | nil => cases h
      | cons b errors =>
          have hrest := ih (Nat.succ.inj h) (feed g c a) (feed g d b)
          rw [← feed_xor] at hrest
          exact hrest

/-- Altered bits alter the residue by that of the errors. -/
theorem residue_altered {bits errors : List Bool} (h : bits.length = errors.length) :
    residue g (altered bits errors) = residue g bits ^^^ residue g errors := by
  have hboth := foldl_feed_altered g h 0#w 0#w
  rwa [BitVec.xor_self] at hboth

/-! ## Shifts -/

variable {g}

/-- **Nothing is lost.**  If `x` does not divide the generator, only an empty register is
shifted to an empty one. -/
theorem shift_eq_zero_iff (hg : g.getLsbD 0 = true) {c : BitVec w} :
    shift g c = 0#w ↔ c = 0#w := by
  constructor
  · intro h
    have hbits : ∀ i, (shift g c).getLsbD i = false := fun i => by rw [h, BitVec.getLsbD_zero]
    unfold shift at hbits
    cases hmsb : c.msb with
    | true =>
        have hlow := hbits 0
        rw [hmsb, if_pos rfl, BitVec.getLsbD_xor, hg] at hlow
        simp at hlow
    | false =>
        rw [hmsb, if_neg Bool.false_ne_true] at hbits
        apply BitVec.eq_of_getLsbD_eq
        intro i hi
        rw [BitVec.getLsbD_zero]
        by_cases hlast : i = w - 1
        · rw [hlast, ← BitVec.msb_eq_getLsbD_last, hmsb]
        · have hnext := hbits (i + 1)
          rw [BitVec.getLsbD_shiftLeft] at hnext
          have hin : i + 1 < w := by omega
          simpa [hin] using hnext
  · intro h
    rw [h, shift_zero]

/-- With a generator of odd constant term no shifting brings a register to zero. -/
theorem iterate_shift_eq_zero_iff (hg : g.getLsbD 0 = true) {c : BitVec w} (n : Nat) :
    (shift g)^[n] c = 0#w ↔ c = 0#w := by
  induction n with
  | zero => exact Iff.rfl
  | succ n ih => rw [Function.iterate_succ_apply', shift_eq_zero_iff hg, ih]

variable (g)

theorem iterate_shift_zero (n : Nat) : (shift g)^[n] 0#w = 0#w := by
  induction n with
  | zero => rfl
  | succ n ih => rw [Function.iterate_succ_apply, shift_zero, ih]

/-- Unaltered bits only shift the register. -/
theorem foldl_feed_replicate_false (n : Nat) (c : BitVec w) :
    (List.replicate n false).foldl (feed g) c = (shift g)^[n] c := by
  induction n generalizing c with
  | zero => rfl
  | succ n ih =>
      rw [List.replicate_succ, List.foldl_cons, ih, Function.iterate_succ_apply]
      congr 1
      simp [feed, top]

/-! ## Words -/

/-- The word with the given first bits, from the top. -/
def wordOf (w : Nat) : List Bool → BitVec w
  | [] => 0#w
  | b :: bits => top w b ^^^ (wordOf w bits >>> 1)

/-- The bits of a word, from the top. -/
theorem getMsbD_wordOf (bits : List Bool) {i : Nat} (hi : i < w) :
    (wordOf w bits).getMsbD i = bits.getD i false := by
  induction bits generalizing i with
  | nil => simp [wordOf]
  | cons b bits ih =>
      have htop : (top w b).getMsbD i = (decide (i = 0) && b) := by
        cases b
        · simp [top]
        · have hlast : w - (w - 1) - 1 = 0 := by omega
          have hw : w - 1 < w := by omega
          simp [top, hlast, hw]
      rw [wordOf, BitVec.getMsbD_xor, htop, BitVec.getMsbD_ushiftRight]
      cases i with
      | zero => simp
      | succ i => simp [ih (Nat.lt_of_succ_lt hi), hi]

/-- A word whose lowest bit is clear comes back from one place below. -/
theorem shift_ushiftRight_one {x : BitVec w} (hx : x.getLsbD 0 = false) :
    shift g (x >>> 1) = x := by
  have hmsb : (x >>> 1).msb = false := by
    simp [BitVec.msb_ushiftRight]
  rw [shift, hmsb, if_neg Bool.false_ne_true]
  apply BitVec.eq_of_getLsbD_eq
  intro i hi
  rw [BitVec.getLsbD_shiftLeft, BitVec.getLsbD_ushiftRight]
  cases i with
  | zero => simp [hx]
  | succ i => simp [hi, Nat.add_comm 1 i]

/-- Feeding at most `w` bits is adding them to the register at once and shifting for each. -/
theorem foldl_feed_eq (c : BitVec w) {bits : List Bool} (h : bits.length ≤ w) :
    bits.foldl (feed g) c = (shift g)^[bits.length] (c ^^^ wordOf w bits) := by
  induction bits generalizing c with
  | nil => exact BitVec.xor_zero.symm
  | cons b bits ih =>
      have hlast : (wordOf w bits).getLsbD 0 = false := by
        have hw : w - 1 < w := by
          rw [List.length_cons] at h
          omega
        have hbit := getMsbD_wordOf bits hw
        rw [BitVec.getMsbD_eq_getLsbD] at hbit
        simpa [hw, show w - 1 - (w - 1) = 0 by omega,
          List.getElem?_eq_none (show bits.length ≤ w - 1 by rw [List.length_cons] at h; omega)]
          using hbit
      rw [List.foldl_cons, ih _ (Nat.le_of_succ_le h), List.length_cons,
        Function.iterate_succ_apply, wordOf, ← BitVec.xor_assoc, shift_xor,
        shift_ushiftRight_one g hlast, feed]

/-- The bits of a word, from the top. -/
def bitsOf (x : BitVec w) : List Bool := (List.range w).map x.getMsbD

@[simp] theorem length_bitsOf (x : BitVec w) : (bitsOf x).length = w := by
  rw [bitsOf, List.length_map, List.length_range]

/-- A word is read back from its bits. -/
theorem wordOf_bitsOf (x : BitVec w) : wordOf w (bitsOf x) = x := by
  apply BitVec.eq_of_getMsbD_eq
  intro i hi
  rw [getMsbD_wordOf _ hi]
  simp [bitsOf, hi]

/-- Feeding all the bits of a word. -/
theorem foldl_feed_bitsOf (c x : BitVec w) :
    (bitsOf x).foldl (feed g) c = (shift g)^[w] (c ^^^ x) := by
  rw [foldl_feed_eq g c (le_of_eq (length_bitsOf x)), length_bitsOf, wordOf_bitsOf]

/-! ## Acceptance -/

variable {g}

/-- **Acceptance.**  A message with a check behind it leaves nothing exactly when the check
is the remainder of the message. -/
theorem residue_append_bitsOf_eq_zero_iff (hg : g.getLsbD 0 = true) (bits : List Bool)
    (check : BitVec w) :
    residue g (bits ++ bitsOf check) = 0#w ↔ check = residue g bits := by
  rw [residue, List.foldl_append, foldl_feed_bitsOf, iterate_shift_eq_zero_iff hg,
    BitVec.xor_eq_zero_iff]
  exact eq_comm

/-- Altered by `errors`, an accepted message is accepted when they leave nothing. -/
theorem residue_altered_eq_zero_iff {bits errors : List Bool}
    (hlength : bits.length = errors.length) (hbits : residue g bits = 0#w) :
    residue g (altered bits errors) = 0#w ↔ residue g errors = 0#w := by
  rw [residue_altered g hlength, hbits, BitVec.zero_xor]

/-! ## Bursts -/

/-- All the altered bits lie within `n` consecutive ones. -/
def Within (n : Nat) (errors : List Bool) : Prop :=
  ∃ start, ∀ i : Nat, errors[i]? = some true → start ≤ i ∧ i < start + n

/-- Bits none of which is set. -/
theorem eq_replicate_false {bits : List Bool} (h : ∀ i : Nat, bits[i]? ≠ some true) :
    bits = List.replicate bits.length false := by
  refine List.eq_replicate_iff.mpr ⟨rfl, ?_⟩
  intro b hb
  obtain ⟨i, hi⟩ := List.mem_iff_getElem?.mp hb
  cases b
  · rfl
  · exact absurd hi (h i)

/-- Errors within a window are zeros, the window and zeros. -/
theorem Within.split {n : Nat} {errors : List Bool} (h : Within n errors) :
    ∃ before window after, errors =
      List.replicate before false ++ (window ++ List.replicate after false) ∧
        window.length ≤ n := by
  obtain ⟨start, hstart⟩ := h
  have hbefore : ∀ i : Nat, (errors.take start)[i]? ≠ some true := by
    intro i hi
    rw [List.getElem?_take] at hi
    split at hi
    · have := (hstart i hi).1
      omega
    · cases hi
  have hafter : ∀ i : Nat, ((errors.drop start).drop n)[i]? ≠ some true := by
    intro i hi
    rw [List.getElem?_drop, List.getElem?_drop] at hi
    have := (hstart _ hi).2
    omega
  refine ⟨(errors.take start).length, (errors.drop start).take n,
    ((errors.drop start).drop n).length, ?_, List.length_take_le n _⟩
  rw [← eq_replicate_false hbefore, ← eq_replicate_false hafter, List.take_append_drop,
    List.take_append_drop]

/-- A few bits, one of them set, are not a word of zeros. -/
theorem wordOf_ne_zero {bits : List Bool} (hlength : bits.length ≤ w) (hset : true ∈ bits) :
    wordOf w bits ≠ 0#w := by
  intro h
  obtain ⟨i, hi, hbit⟩ := List.mem_iff_getElem.mp hset
  have hzero := getMsbD_wordOf bits (Nat.lt_of_lt_of_le hi hlength)
  rw [h, BitVec.getMsbD_zero] at hzero
  simp [List.getElem?_eq_getElem hi, hbit] at hzero

/-- **Bursts leave something.** -/
theorem residue_burst_ne_zero (hg : g.getLsbD 0 = true) {errors : List Bool}
    (hset : true ∈ errors) (hwithin : Within w errors) : residue g errors ≠ 0#w := by
  obtain ⟨before, window, after, rfl, hlength⟩ := hwithin.split
  have hwindow : true ∈ window := by
    simpa [List.mem_append, List.mem_replicate] using hset
  rw [residue, List.foldl_append, foldl_feed_replicate_false, iterate_shift_zero,
    List.foldl_append, foldl_feed_replicate_false, foldl_feed_eq g 0#w hlength, BitVec.zero_xor,
    ne_eq, iterate_shift_eq_zero_iff hg, iterate_shift_eq_zero_iff hg]
  exact wordOf_ne_zero hlength hwindow

/-! ## Odd numbers of alterations -/

/-- The number of bits set, modulo 2. -/
def parity (x : BitVec w) : ZMod 2 := ∑ i ∈ Finset.range w, if x.getLsbD i then 1 else 0

/-- Parity is additive. -/
theorem parity_xor (x y : BitVec w) : parity (x ^^^ y) = parity x + parity y := by
  rw [parity, parity, parity, ← Finset.sum_add_distrib]
  refine Finset.sum_congr rfl fun i _ => ?_
  rw [BitVec.getLsbD_xor]
  cases x.getLsbD i <;> cases y.getLsbD i <;> decide

/-- A shift loses the parity of the top bit. -/
theorem parity_shiftLeft_one (x : BitVec w) :
    parity (x <<< 1) = parity x + if x.msb then 1 else 0 := by
  cases w with
  | zero => simp [parity, Subsingleton.elim x 0#0]
  | succ n =>
      have hmsb : x.msb = x.getLsbD n := BitVec.msb_eq_getLsbD_last x
      have hshift : ∀ i ∈ Finset.range n,
          (if (x <<< 1).getLsbD (i + 1) then (1 : ZMod 2) else 0) =
            if x.getLsbD i then 1 else 0 := by
        intro i hi
        have hin : i < n := Finset.mem_range.mp hi
        rw [BitVec.getLsbD_shiftLeft]
        simp [hin]
      rw [parity, parity, Finset.sum_range_succ', Finset.sum_range_succ,
        Finset.sum_congr rfl hshift, hmsb, add_assoc, CharTwo.add_self_eq_zero]
      simp

/-- The parity of a single top bit. -/
theorem parity_top (hw : 0 < w) (b : Bool) : parity (top w b) = if b then 1 else 0 := by
  cases b
  · simp [parity, top]
  · have hlast : w - 1 < w := by omega
    simp [parity, top, BitVec.getLsbD_twoPow, hlast]

/-- If `x + 1` divides the generator, a shift keeps the parity of the register. -/
theorem parity_shift (hg : parity g = 1) (c : BitVec w) : parity (shift g c) = parity c := by
  unfold shift
  split
  · rename_i hmsb
    rw [parity_xor, parity_shiftLeft_one, if_pos hmsb, hg, add_assoc, CharTwo.add_self_eq_zero,
      add_zero]
  · rename_i hmsb
    rw [parity_shiftLeft_one, if_neg hmsb, add_zero]

/-- With a generator of odd parity the register keeps count of the bits' parity. -/
theorem parity_foldl_feed (hw : 0 < w) (hg : parity g = 1) (bits : List Bool) (c : BitVec w) :
    parity (bits.foldl (feed g) c) = parity c + (bits.count true : ZMod 2) := by
  induction bits generalizing c with
  | nil => simp
  | cons b bits ih =>
      rw [List.foldl_cons, ih, feed, parity_shift hg, parity_xor, parity_top hw, add_assoc]
      cases b
      · simp
      · simp [add_comm]

/-- **An odd number of alterations leaves something.** -/
theorem residue_odd_ne_zero (hw : 0 < w) (hg : parity g = 1) {errors : List Bool}
    (hodd : Odd (errors.count true)) : residue g errors ≠ 0#w := by
  intro h
  have hparity := parity_foldl_feed hw hg errors 0#w
  have hzero : parity 0#w = 0 := by simp [parity]
  rw [← residue, h, hzero, zero_add] at hparity
  rw [ZMod.natCast_eq_one_iff_odd.mpr hodd] at hparity
  exact absurd hparity (by decide)

end Crc
