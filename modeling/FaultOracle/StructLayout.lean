import Mathlib.Data.List.Basic
import Mathlib.Data.Nat.ModEq

/-!
# Structures in memory

A structure type is the list of its fields with the size and the alignment of each.
Fields are placed one after the other, every one at the next multiple of its
alignment, and the size of the whole is rounded up to the largest alignment.  The
bytes of a value (`Image`) are written and read field by field, integers little-endian.

* `span_disjoint`, `span_in_sizeof`: the fields lie inside the structure and do not
  overlap;
* `read_write_same`, `read_write_ne`: what is written to a field is read from it, and
  from no other field;
* `span_of_prefix`: two structures that begin with the same fields place them alike.
-/

namespace StructLayout

/-- Size and alignment of the type of a field, in bytes. -/
structure FieldType where
  size : Nat
  align : Nat
  align_pos : 0 < align

/-- A structure type: its fields in the order of their declaration. -/
abbrev Layout (F : Type*) := List (F × FieldType)

/-- Where a field lies. -/
structure Span where
  offset : Nat
  size : Nat
deriving DecidableEq, Repr

def Span.stop (s : Span) : Nat := s.offset + s.size

/-- The least multiple of `a` that is not below `n`. -/
def alignUp (n a : Nat) : Nat := (n + a - 1) / a * a

/-- Rounding up never goes below. -/
theorem le_alignUp {a : Nat} (ha : 0 < a) (n : Nat) : n ≤ alignUp n a := by
  have hdiv := Nat.div_add_mod (n + a - 1) a
  have hmod := Nat.mod_lt (n + a - 1) ha
  have hcomm : a * ((n + a - 1) / a) = alignUp n a := by rw [alignUp, Nat.mul_comm]
  omega

variable {F : Type*} [DecidableEq F]

/-- Where the field `f` lies when the first field may start at `pos`; an unknown field is
empty and lies at the end. -/
def spanFrom (pos : Nat) : Layout F → F → Span
  | [], _ => ⟨pos, 0⟩
  | (g, t) :: rest, f =>
      if f = g then ⟨alignUp pos t.align, t.size⟩
      else spanFrom (alignUp pos t.align + t.size) rest f

/-- The end of the last field. -/
def stopFrom (pos : Nat) : Layout F → Nat
  | [] => pos
  | (_, t) :: rest => stopFrom (alignUp pos t.align + t.size) rest

def span (fields : Layout F) (f : F) : Span := spanFrom 0 fields f

def maxAlign : Layout F → Nat
  | [] => 1
  | (_, t) :: rest => max t.align (maxAlign rest)

/-- The size of a value of the structure, with the padding at its end. -/
def sizeof (fields : Layout F) : Nat := alignUp (stopFrom 0 fields) (maxAlign fields)

omit [DecidableEq F] in
/-- Every layout has a positive alignment. -/
theorem maxAlign_pos (fields : Layout F) : 0 < maxAlign fields := by
  induction fields with
  | nil => exact Nat.one_pos
  | cons field rest ih => exact lt_max_of_lt_right ih

/-- A field lies between the start and the end of its layout. -/
theorem spanFrom_bounds (fields : Layout F) (f : F) (pos : Nat) :
    pos ≤ (spanFrom pos fields f).offset ∧
      (spanFrom pos fields f).stop ≤ stopFrom pos fields := by
  induction fields generalizing pos with
  | nil => exact ⟨le_rfl, le_rfl⟩
  | cons field rest ih =>
      obtain ⟨g, t⟩ := field
      have hge := le_alignUp t.align_pos pos
      have hrest := ih (alignUp pos t.align + t.size)
      by_cases hfg : f = g
      · have hspan : spanFrom pos ((g, t) :: rest) f =
            ⟨alignUp pos t.align, t.size⟩ := if_pos hfg
        rw [hspan]
        refine ⟨hge, ?_⟩
        have hstop := (ih (alignUp pos t.align + t.size)).2
        simp only [Span.stop, stopFrom] at hrest hstop ⊢
        omega
      · have hspan : spanFrom pos ((g, t) :: rest) f =
            spanFrom (alignUp pos t.align + t.size) rest f := if_neg hfg
        rw [hspan]
        exact ⟨by omega, hrest.2⟩

/-- **The fields lie inside the structure.** -/
theorem span_in_sizeof (fields : Layout F) (f : F) :
    (span fields f).stop ≤ sizeof fields :=
  calc (span fields f).stop ≤ stopFrom 0 fields := (spanFrom_bounds fields f 0).2
    _ ≤ sizeof fields := le_alignUp (maxAlign_pos fields) _

/-- Two fields do not overlap. -/
theorem spanFrom_disjoint (fields : Layout F) {f g : F} (hfg : f ≠ g) (pos : Nat) :
    (spanFrom pos fields f).stop ≤ (spanFrom pos fields g).offset ∨
      (spanFrom pos fields g).stop ≤ (spanFrom pos fields f).offset := by
  induction fields generalizing pos with
  | nil => exact Or.inl le_rfl
  | cons field rest ih =>
      obtain ⟨k, t⟩ := field
      have hbounds := fun x => (spanFrom_bounds rest x (alignUp pos t.align + t.size)).1
      by_cases hf : f = k
      · have hg : g ≠ k := fun h => hfg (hf.trans h.symm)
        left
        simpa [spanFrom, hf, hg, Span.stop] using hbounds g
      · by_cases hg : g = k
        · right
          simpa [spanFrom, hf, hg, Span.stop] using hbounds f
        · simpa [spanFrom, hf, hg] using ih (alignUp pos t.align + t.size)

/-- **Different fields do not overlap.** -/
theorem span_disjoint (fields : Layout F) {f g : F} (hfg : f ≠ g) :
    (span fields f).stop ≤ (span fields g).offset ∨
      (span fields g).stop ≤ (span fields f).offset :=
  spanFrom_disjoint fields hfg 0

/-- **Common prefix.**  Fields declared after `f` do not move it. -/
theorem spanFrom_append {fields : Layout F} {f : F} (hf : f ∈ fields.map Prod.fst)
    (rest : Layout F) (pos : Nat) :
    spanFrom pos (fields ++ rest) f = spanFrom pos fields f := by
  induction fields generalizing pos with
  | nil => exact absurd hf List.not_mem_nil
  | cons field fields ih =>
      obtain ⟨g, t⟩ := field
      by_cases hfg : f = g
      · simp [spanFrom, hfg]
      · have hmem : f ∈ fields.map Prod.fst := by simpa [hfg] using hf
        simpa [spanFrom, hfg] using ih hmem _

/-- A field's place does not depend on the fields after it. -/
theorem span_of_prefix (header : Layout F) {f : F} (hf : f ∈ header.map Prod.fst)
    (rest₁ rest₂ : Layout F) : span (header ++ rest₁) f = span (header ++ rest₂) f := by
  rw [span, span, spanFrom_append hf, spanFrom_append hf]

/-! ## Reading and writing bytes -/

/-- The bytes of `mem` in the span `s`. -/
def peek (mem : List UInt8) (s : Span) : List UInt8 := (mem.drop s.offset).take s.size

/-- `mem` with the bytes `bs` from `pos` on. -/
def poke (mem : List UInt8) (pos : Nat) (bs : List UInt8) : List UInt8 :=
  mem.take pos ++ bs ++ mem.drop (pos + bs.length)

theorem length_poke {mem bs : List UInt8} {pos : Nat} (h : pos + bs.length ≤ mem.length) :
    (poke mem pos bs).length = mem.length := by
  simp only [poke, List.length_append, List.length_take, List.length_drop]
  omega

theorem peek_append {mem : List UInt8} {s : Span} (h : s.stop ≤ mem.length) (rest : List UInt8) :
    peek (mem ++ rest) s = peek mem s := by
  have hlen : s.size ≤ (mem.drop s.offset).length := by
    rw [List.length_drop]
    exact Nat.le_sub_of_add_le (by rw [Nat.add_comm]; exact h)
  have hoffset : s.offset ≤ mem.length := le_trans (Nat.le_add_right _ _) h
  rw [peek, List.drop_append_of_le_length hoffset, List.take_append_of_le_length hlen, peek]

/-- What a write leaves in a span that begins where it begins. -/
theorem peek_poke_same {mem bs : List UInt8} {s : Span} (hbs : bs.length ≤ s.size)
    (hin : s.stop ≤ mem.length) :
    peek (poke mem s.offset bs) s = bs ++ (peek mem s).drop bs.length := by
  have hoffset : (mem.take s.offset).length = s.offset := by
    rw [List.length_take]
    exact min_eq_left (le_trans (Nat.le_add_right _ _) hin)
  have hdrop : (poke mem s.offset bs).drop s.offset = bs ++ mem.drop (s.offset + bs.length) := by
    rw [poke, List.append_assoc, List.drop_append_of_le_length (le_of_eq hoffset.symm)]
    rw [List.drop_eq_nil_of_le (le_of_eq hoffset), List.nil_append]
  rw [peek, hdrop, List.take_append, List.take_of_length_le hbs, peek, List.drop_take,
    List.drop_drop]

/-- A write outside of a span is not seen in it. -/
theorem peek_poke_disjoint {mem bs : List UInt8} {s : Span} {pos : Nat}
    (hin : pos + bs.length ≤ mem.length)
    (hdisjoint : s.stop ≤ pos ∨ pos + bs.length ≤ s.offset) :
    peek (poke mem pos bs) s = peek mem s := by
  apply List.ext_getElem?
  intro i
  simp only [peek, poke, List.getElem?_take, List.getElem?_drop, List.getElem?_append,
    List.length_append, List.length_take, Span.stop] at hdisjoint ⊢
  by_cases hi : i < s.size
  · rw [if_pos hi, if_pos hi]
    rcases hdisjoint with hbefore | hafter
    · rw [if_pos (by omega), if_pos (by omega), if_pos (by omega)]
    · rw [if_neg (by omega)]
      congr 1
      omega
  · rw [if_neg hi, if_neg hi]

/-! ## Little-endian integers -/

/-- The `k` low bytes of `n`, least first. -/
def leBytes : Nat → Nat → List UInt8
  | 0, _ => []
  | k + 1, n => UInt8.ofNat n :: leBytes k (n / 256)

def leNat : List UInt8 → Nat
  | [] => 0
  | b :: bs => b.toNat + 256 * leNat bs

@[simp] theorem length_leBytes (k n : Nat) : (leBytes k n).length = k := by
  induction k generalizing n with
  | zero => rfl
  | succ k ih => rw [leBytes, List.length_cons, ih]

/-- Reading back the bytes of a number. -/
theorem leNat_leBytes (k n : Nat) : leNat (leBytes k n) = n % 256 ^ k := by
  induction k generalizing n with
  | zero => rw [Nat.pow_zero, Nat.mod_one]; rfl
  | succ k ih =>
      calc leNat (leBytes (k + 1) n) = n % 256 + 256 * (n / 256 % 256 ^ k) := by
            rw [leBytes, leNat, ih, UInt8.toNat_ofNat']
        _ = n % 256 ^ (k + 1) := by rw [Nat.pow_succ', Nat.mod_mul]

/-! ## Values of a structure -/

/-- The memory of one value of the structure. -/
structure Image (fields : Layout F) where
  bytes : List UInt8
  length_eq : bytes.length = sizeof fields

namespace Image

variable {fields : Layout F}

/-- A field lies within the image. -/
theorem stop_le (m : Image fields) (f : F) : (span fields f).stop ≤ m.bytes.length := by
  rw [m.length_eq]
  exact span_in_sizeof fields f

/-- A value of zero bytes. -/
def zero (fields : Layout F) : Image fields :=
  ⟨List.replicate (sizeof fields) 0, List.length_replicate⟩

/-- The bytes of a field. -/
def read (m : Image fields) (f : F) : List UInt8 := peek m.bytes (span fields f)

/-- A write into a field stays within the image. -/
theorem write_in (m : Image fields) (f : F) (bs : List UInt8) :
    (span fields f).offset + (bs.take (span fields f).size).length ≤ m.bytes.length := by
  have hstop := m.stop_le f
  have htake := List.length_take_le (span fields f).size bs
  rw [Span.stop] at hstop
  omega

/-- Write `bs` from the start of a field on, at most to its end. -/
def write (m : Image fields) (f : F) (bs : List UInt8) : Image fields :=
  ⟨poke m.bytes (span fields f).offset (bs.take (span fields f).size),
    (length_poke (m.write_in f bs)).trans m.length_eq⟩

/-- Copy as many bytes of `raw` as fit over the value. -/
def copyFrom (m : Image fields) (raw : List UInt8) : Image fields :=
  ⟨raw.take (sizeof fields) ++ m.bytes.drop raw.length, by
    have hlen := m.length_eq
    rw [List.length_append, List.length_take, List.length_drop]
    omega⟩

/-- What is read from the field just written. -/
theorem read_write_same (m : Image fields) (f : F) (bs : List UInt8) :
    (m.write f bs).read f =
      bs.take (span fields f).size ++ (m.read f).drop (bs.take (span fields f).size).length :=
  peek_poke_same (List.length_take_le _ _) (m.stop_le f)

/-- A write leaves the other fields as they were. -/
theorem read_write_ne (m : Image fields) {f g : F} (hfg : f ≠ g) (bs : List UInt8) :
    (m.write g bs).read f = m.read f := by
  have htake := List.length_take_le (span fields g).size bs
  apply peek_poke_disjoint (m.write_in g bs)
  rcases span_disjoint fields hfg with hbefore | hafter
  · exact Or.inl hbefore
  · right
    rw [Span.stop] at hafter
    omega

def writeNat (m : Image fields) (f : F) (n : Nat) : Image fields :=
  m.write f (leBytes (span fields f).size n)

def readNat (m : Image fields) (f : F) : Nat := leNat (m.read f)

theorem length_read (m : Image fields) (f : F) : (m.read f).length = (span fields f).size := by
  have hstop := m.stop_le f
  rw [Span.stop] at hstop
  rw [read, peek, List.length_take, List.length_drop]
  omega

/-- A number is read back up to the width of its field. -/
@[simp] theorem readNat_writeNat_same (m : Image fields) (f : F) (n : Nat) :
    (m.writeNat f n).readNat f = n % 256 ^ (span fields f).size := by
  have htake : (leBytes (span fields f).size n).take (span fields f).size =
      leBytes (span fields f).size n := List.take_of_length_le (le_of_eq (length_leBytes _ _))
  have hrest : (m.read f).drop (span fields f).size = [] :=
    List.drop_eq_nil_of_le (le_of_eq (m.length_read f))
  rw [readNat, writeNat, read_write_same, htake, length_leBytes, hrest, List.append_nil,
    leNat_leBytes]

/-- A write leaves the numbers in the other fields as they were. -/
theorem readNat_write_ne (m : Image fields) {f g : F} (hfg : f ≠ g) (bs : List UInt8) :
    (m.write g bs).readNat f = m.readNat f := by
  rw [readNat, read_write_ne m hfg, readNat]

/-- Writing a number leaves those in the other fields as they were. -/
theorem readNat_writeNat_ne (m : Image fields) {f g : F} (hfg : f ≠ g) (n : Nat) :
    (m.writeNat g n).readNat f = m.readNat f := readNat_write_ne m hfg _

/-- **Overlay.**  A value of one structure that is copied, with bytes behind it, over a
value of another is read there alike in a field that lies at the same place in both. -/
theorem read_copyFrom {other : Layout F} (m : Image fields) (n : Image other) {f : F}
    (hspan : span fields f = span other f) (rest : List UInt8)
    (hfits : sizeof other ≤ (m.bytes ++ rest).length) :
    (n.copyFrom (m.bytes ++ rest)).read f = m.read f := by
  have hother : (span other f).stop ≤ ((m.bytes ++ rest).take (sizeof other)).length := by
    rw [List.length_take, min_eq_left hfits]
    exact span_in_sizeof other f
  have htake : peek ((m.bytes ++ rest).take (sizeof other)) (span other f) =
      peek (m.bytes ++ rest) (span other f) := by
    conv_rhs => rw [← List.take_append_drop (sizeof other) (m.bytes ++ rest)]
    exact (peek_append hother _).symm
  calc (n.copyFrom (m.bytes ++ rest)).read f
      = peek ((m.bytes ++ rest).take (sizeof other)) (span other f) := peek_append hother _
    _ = peek (m.bytes ++ rest) (span fields f) := by rw [htake, hspan]
    _ = m.read f := peek_append (m.stop_le f) rest

/-- A field at the same place in both layouts is read as in the copied image. -/
theorem readNat_copyFrom {other : Layout F} (m : Image fields) (n : Image other) {f : F}
    (hspan : span fields f = span other f) (rest : List UInt8)
    (hfits : sizeof other ≤ (m.bytes ++ rest).length) :
    (n.copyFrom (m.bytes ++ rest)).readNat f = m.readNat f := by
  rw [readNat, read_copyFrom m n hspan rest hfits, readNat]

end Image

end StructLayout
