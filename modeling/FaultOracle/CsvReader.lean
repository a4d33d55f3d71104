import Mathlib.Data.List.Basic

/-!
# A reader of comma-separated values

`csv.reader` in its default dialect: fields between commas, a field in quotes may hold commas and
line feeds, and two quotes in it are one.  It is given line after line, and a row ends with the
line at whose end no quote is open.
-/

namespace CsvReader

abbrev Text := List Char

/-- Where the reader is in a row. -/
inductive Place
  | startRecord
  | startField
  | inField
  | inQuotedField
  | quoteInQuotedField
  | eatCrnl
deriving DecidableEq, Repr

/-- The row as far as it is read: its fields, and the field the reader is in. -/
structure Row where
  place : Place
  fields : List Text
  field : Text
deriving DecidableEq, Repr

def Row.start : Row := ⟨.startRecord, [], []⟩

/-- The longest field. -/
def fieldLimit : Nat := 131072

def Row.save (r : Row) (next : Place) : Row := ⟨next, r.fields ++ [r.field], []⟩

/-- One more character of a field; `none` where the field is too long. -/
def Row.add (r : Row) (c : Char) (next : Place) : Option Row :=
  if fieldLimit ≤ r.field.length then none else some ⟨next, r.fields, r.field ++ [c]⟩

/-- Where a field ends at the end of a line, or at the line feed in front of it. -/
def Row.finish (r : Row) (c : Option Char) : Row :=
  r.save (if c = none then .startRecord else .eatCrnl)

def isLineEnd (c : Option Char) : Bool := c = none || c = some '\n' || c = some '\r'

/-- A character at the start of a field. -/
def Row.startField (r : Row) (c : Option Char) : Option Row :=
  if isLineEnd c then some (r.finish c)
  else if c = some '"' then some { r with place := .inQuotedField }
  else if c = some ',' then some (r.save .startField)
  else c.bind fun c => r.add c .inField

/-- The next character of a line, or its end; `none` where the reader raises. -/
def Row.next (r : Row) (c : Option Char) : Option Row :=
  match r.place with
  | .startRecord =>
      if c = none then some r
      else if isLineEnd c then some { r with place := .eatCrnl }
      else r.startField c
  | .startField => r.startField c
  | .inField =>
      if isLineEnd c then some (r.finish c)
      else if c = some ',' then some (r.save .startField)
      else c.bind fun c => r.add c .inField
  | .inQuotedField =>
      if c = some '"' then some { r with place := .quoteInQuotedField }
      else match c with
        | none => some r
        | some c => r.add c .inQuotedField
  | .quoteInQuotedField =>
      if isLineEnd c then some (r.finish c)
      else if c = some ',' then some (r.save .startField)
      else c.bind fun d => r.add d (if d = '"' then .inQuotedField else .inField)
  | .eatCrnl =>
      if c = none then some { r with place := .startRecord }
      else if isLineEnd c then some r
      else none

/-- A line, and its end. -/
def Row.line (r : Row) (line : Text) : Option Row :=
  (line.map some ++ [none]).foldlM Row.next r

/-- The rows of the lines.  A row whose quote is open at the end of the text is a row. -/
def rowsFrom : Row → List Text → Option (List (List Text))
  | r, [] =>
      if r.field ≠ [] ∨ r.place = .inQuotedField then some [r.fields ++ [r.field]] else some []
  | r, line :: rest => do
      let r ← r.line line
      if r.place = .startRecord then
        let rows ← rowsFrom .start rest
        return r.fields :: rows
      else rowsFrom r rest

/-- The rows of the lines which a reader is given, each line with its line feed; `none` where
the reader raises `csv.Error`. -/
def rows (lines : List Text) : Option (List (List Text)) := rowsFrom .start lines

example : rows ["1,\"b,\"\"c\"\n".toList, "d\"e,,\n".toList, "\n".toList, "2,\"x\n".toList,
    "y".toList] =
      some [["1".toList, "b,\"c".toList], ["d\"e".toList, [], []], [],
        ["2".toList, "x\ny".toList]] := by
  decide +kernel

end CsvReader
