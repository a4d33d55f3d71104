import Mathlib.Algebra.BigOperators.Group.List.Basic
import Mathlib.Algebra.Order.Ring.Int
import Mathlib.Data.List.Basic
import Mathlib.Data.List.TakeWhile

/-!
# Go strings

What `strings`, `strconv` and `bufio` make of a text, given as the list of its characters:
`strings.TrimSpace` and `strings.Fields`, `strconv.ParseUint` for 64 bits, and the lines of a
`bufio.Scanner`, which stops at a line that does not fit into its buffer.
-/

namespace GoStrings

/-- `unicode.IsSpace`. -/
def isSpace (c : Char) : Bool :=
  [0x09, 0x0A, 0x0B, 0x0C, 0x0D, 0x20, 0x85, 0xA0, 0x1680, 0x2028, 0x2029, 0x202F, 0x205F,
    0x3000].contains c.toNat ||
  (0x2000 ≤ c.toNat && c.toNat ≤ 0x200A)

/-- `strings.TrimSpace`. -/
def trimSpace (s : List Char) : List Char :=
  ((s.dropWhile isSpace).reverse.dropWhile isSpace).reverse

/-- The words of a text between characters that satisfy `p`. -/
def wordsBy (p : Char → Bool) (s : List Char) : List (List Char) :=
  (s.splitOnP p).filter fun w => !w.isEmpty

/-- `strings.Fields`. -/
def fields (s : List Char) : List (List Char) :=
  (s.splitOnP isSpace).filter fun w => !w.isEmpty

/-- The value of decimal digits. -/
def decimalValue (digits : List Char) : Nat :=
  digits.foldl (fun n c => 10 * n + (c.toNat - '0'.toNat)) 0

/-- `strconv.ParseUint(s, 10, 64)`. -/
def parseUint (s : List Char) : Option Nat :=
  if s ≠ [] ∧ s.all Char.isDigit ∧ decimalValue s < 2 ^ 64 then some (decimalValue s) else none

/-! ## Lines -/

/-- The length of a text in bytes. -/
def byteLength (s : List Char) : Nat := (s.map Char.utf8Size).sum

/-- `bufio.MaxScanTokenSize`. -/
def maxScanTokenSize : Nat := 64 * 1024

/-- A line which the buffer of a scanner holds together with its end. -/
def fitsBuffer (line : List Char) : Bool := byteLength line < maxScanTokenSize

/-- The lines of a text without their newlines; no line follows the last newline. -/
def rawLines (text : List Char) : List (List Char) :=
  let pieces := text.splitOn '\n'
  if pieces.getLast? = some [] then pieces.dropLast else pieces

/-- A line without the carriage return at its end. -/
def dropCR (line : List Char) : List Char :=
  if line.getLast? = some '\r' then line.dropLast else line

/-- What a scanner gives: the lines, and whether it has stopped with `ErrTooLong`. -/
structure Scan where
  lines : List (List Char)
  tooLong : Bool

/-- The scan of a whole text by lines. -/
def scanLines (text : List Char) : Scan where
  lines := ((rawLines text).takeWhile fitsBuffer).map dropCR
  tooLong := (rawLines text).any fun line => !fitsBuffer line

example : (scanLines "RxErr 0\r\nBadTLP 3\n".toList).lines.map fields =
    ["RxErr 0".toList, "BadTLP 3".toList].map fun l => l.splitOn ' ' := by decide

/-! ## Words -/

section Words

variable {p : Char → Bool}

theorem wordsBy_append_cons {c : Char} (hc : p c = true) (a b : List Char) :
    wordsBy p (a ++ c :: b) = wordsBy p a ++ wordsBy p b := by
  rw [wordsBy, List.splitOnP_append_cons a b hc, List.filter_append]
  rfl

theorem wordsBy_nil : wordsBy p [] = [] := rfl

/-- A text without separators is one word. -/
theorem wordsBy_of_dark {w : List Char} (hne : w ≠ []) (hw : ∀ c ∈ w, p c = false) :
    wordsBy p w = [w] := by
  rw [wordsBy, List.splitOnP_eq_singleton hw]
  simp [hne]

/-- Separators behind a text do not matter. -/
theorem wordsBy_append_blank {a s : List Char} (hs : ∀ c ∈ s, p c = true) :
    wordsBy p (a ++ s) = wordsBy p a := by
  induction s generalizing a with
  | nil => rw [List.append_nil]
  | cons c s ih =>
      have hrest := ih (a := []) fun d hd => hs d (List.mem_cons_of_mem _ hd)
      rw [wordsBy_append_cons (hs c List.mem_cons_self), ← List.nil_append s, hrest, wordsBy_nil,
        List.append_nil]

/-- Nor do separators before it. -/
theorem wordsBy_blank_append {a s : List Char} (hs : ∀ c ∈ s, p c = true) :
    wordsBy p (s ++ a) = wordsBy p a := by
  induction s with
  | nil => rfl
  | cons c s ih =>
      rw [List.cons_append, ← List.nil_append (c :: (s ++ a)),
        wordsBy_append_cons (hs c List.mem_cons_self), wordsBy_nil, List.nil_append,
        ih fun d hd => hs d (List.mem_cons_of_mem _ hd)]

end Words

theorem fields_eq_wordsBy (s : List Char) : fields s = wordsBy isSpace s := rfl

/-- Trimming a text leaves its words as they are. -/
theorem fields_trimSpace (s : List Char) : fields (trimSpace s) = fields s := by
  have hfront : ∀ s : List Char, wordsBy isSpace (s.dropWhile isSpace) = wordsBy isSpace s := by
    intro s
    conv_rhs => rw [← List.takeWhile_append_dropWhile (p := isSpace) (l := s)]
    exact (wordsBy_blank_append fun c hc => List.mem_takeWhile_imp hc).symm
  have hback : ∀ s : List Char,
      wordsBy isSpace (s.reverse.dropWhile isSpace).reverse = wordsBy isSpace s := by
    intro s
    have hsplit : s = (s.reverse.dropWhile isSpace).reverse ++
        (s.reverse.takeWhile isSpace).reverse := by
      rw [← List.reverse_append, List.takeWhile_append_dropWhile, List.reverse_reverse]
    conv_rhs => rw [hsplit]
    refine (wordsBy_append_blank fun c hc => ?_).symm
    exact List.mem_takeWhile_imp (List.mem_reverse.mp hc)
  rw [fields_eq_wordsBy, trimSpace, hback, hfront, fields_eq_wordsBy]

/-- A carriage return is white space. -/
theorem fields_dropCR (line : List Char) : fields (dropCR line) = fields line := by
  unfold dropCR
  split
  · rename_i hlast
    obtain ⟨front, rfl⟩ := List.getLast?_eq_some_iff.mp hlast
    rw [List.dropLast_concat, fields_eq_wordsBy, fields_eq_wordsBy,
      wordsBy_append_blank fun c hc => by rw [List.mem_singleton.mp hc]; rfl]
  · rfl

/-- The lines of a text that ends each of them with a newline. -/
theorem rawLines_flatMap {lines : List (List Char)} (h : ∀ l ∈ lines, '\n' ∉ l) :
    rawLines (lines.flatMap fun l => l ++ ['\n']) = lines := by
  have hsplit : (lines.flatMap fun l => l ++ ['\n']).splitOn '\n' = lines ++ [[]] := by
    induction lines with
    | nil => rfl
    | cons l lines ih =>
        have hl : ∀ c ∈ l, (c == '\n') = false := by
          intro c hc
          rw [beq_eq_false_iff_ne]
          rintro rfl
          exact h l List.mem_cons_self hc
        rw [List.splitOn_eq_splitOnP] at ih
        rw [List.flatMap_cons, List.append_assoc, List.singleton_append, List.splitOn_eq_splitOnP,
          List.splitOnP_append_cons_of_forall_mem hl '\n' (by rfl),
          ih fun m hm => h m (List.mem_cons_of_mem _ hm), List.cons_append]
  rw [rawLines, hsplit]
  simp

end GoStrings
