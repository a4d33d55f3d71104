import Mathlib.Data.List.Sort
import Mathlib.Data.String.Basic
import FaultOracle.InsertionDict
import FaultOracle.PythonFloats

/-!
# JSON values as a Python program sees them

The values which `json.loads` can return, with the operations a program performs
on them before it knows their shape (truth value, use as a key, `dict.get`), the value
with its keys sorted, and JSON Merge Patch, RFC 7386.

An object is the `dict` of its members, in insertion order.
-/

namespace JsonValues

open InsertionDict PythonFloats

/-- A decoded JSON value.  Integers and floats are one constructor; Python's decoder
also accepts `NaN` and the infinities. -/
inductive Json
  | null
  | bool (b : Bool)
  | num (x : PyFloat)
  | str (s : String)
  | arr (elems : List Json)
  | obj (fields : List (String × Json))
deriving Repr

/-- The members of an object, and none for any other value. -/
def Json.fields : Json → List (String × Json)
  | .obj fields => fields
  | _ => []

/-- The member of a name, if the value is an object which has one. -/
def Json.get? (j : Json) (name : String) : Option Json := j.fields.lookup name

@[simp] theorem Json.fields_obj (fields : List (String × Json)) :
    (Json.obj fields).fields = fields := rfl

/-! ## What Python asks of a value -/

def Json.isNull : Json → Bool
  | .null => true
  | _ => false

/-- The truth value: zero, `None`, `False` and the empty containers are false. -/
def Json.truthy : Json → Bool
  | .null => false
  | .bool b => b
  | .num x => x.truthy
  | .str s => decide (s ≠ "")
  | .arr elems => !elems.isEmpty
  | .obj fields => !fields.isEmpty

/-- A decoded value as the key of a dictionary.  `True` is the key `1`; the decoder
has one NaN object, and an object is the same key as itself. -/
inductive JsonKey
  | none
  | num (x : PyFloat)
  | str (s : String)
deriving DecidableEq, Repr

/-- Lists and dictionaries have no hash, and are the key of nothing. -/
def Json.key? : Json → Option JsonKey
  | .null => some .none
  | .bool b => some (.num (.fin (if b then 1 else 0)))
  | .num x => some (.num x)
  | .str s => some (.str s)
  | .arr _ => none
  | .obj _ => none

def Json.hashable (j : Json) : Bool := j.key?.isSome

/-- `j.get(name, default)`; only a dictionary has the method. -/
def Json.dictGet (j : Json) (name : String) (default : Json) : Option Json :=
  match j with
  | .obj fields => some ((fields.lookup name).getD default)
  | _ => none

/-! ## Sorted keys -/

/-- The items of a dictionary by their names. -/
def sortItems (fields : List (String × Json)) : List (String × Json) :=
  fields.mergeSort (fun a b => decide (a.1 ≤ b.1))

mutual

/-- The value which `json.dumps(j, sort_keys=True)` writes: every dictionary in it, at
any depth, has its items in the order of their names. -/
def sortKeys : Json → Json
  | .obj fields => .obj (sortItems (sortFields fields))
  | .arr elems => .arr (sortElems elems)
  | .null => .null
  | .bool b => .bool b
  | .num x => .num x
  | .str s => .str s

def sortFields : List (String × Json) → List (String × Json)
  | [] => []
  | (name, value) :: rest => (name, sortKeys value) :: sortFields rest

def sortElems : List Json → List Json
  | [] => []
  | elem :: rest => sortKeys elem :: sortElems rest

end

theorem sortItems_perm (fields : List (String × Json)) : (sortItems fields).Perm fields :=
  List.mergeSort_perm fields _

/-- Of distinct names, the order of the items does not matter. -/
theorem sortItems_eq_of_perm {fields other : List (String × Json)} (hperm : fields.Perm other)
    (hnames : (fields.map Prod.fst).Nodup) : sortItems fields = sortItems other :=
  mergeSort_key_eq_of_perm hperm hnames

/-- An object of strings has nothing below its own items to sort. -/
theorem sortKeys_strings (labels : List (String × String)) :
    sortKeys (.obj (labels.map fun l => (l.1, .str l.2))) =
      .obj (sortItems (labels.map fun l => (l.1, .str l.2))) := by
  have hfields : sortFields (labels.map fun l => (l.1, .str l.2)) =
      labels.map fun l => (l.1, .str l.2) := by
    induction labels with
    | nil => rfl
    | cons l labels ih => rw [List.map_cons, sortFields, sortKeys, ih]
  rw [sortKeys, hfields]

/-! ## Merge patch -/

mutual

/-- `MergePatch(Target, Patch)` of RFC 7386. -/
def mergePatch : Json → Json → Json
  | .obj patch, target => .obj (mergeFields patch target.fields)
  | .null, _ => .null
  | .bool b, _ => .bool b
  | .num x, _ => .num x
  | .str s, _ => .str s
  | .arr elems, _ => .arr elems

/-- The loop over the members of the patch: a `null` member removes, any other is
merged into the member of its name. -/
def mergeFields : List (String × Json) → List (String × Json) → List (String × Json)
  | [], target => target
  | (name, patch) :: rest, target =>
      if patch.isNull then mergeFields rest (delItem name target)
      else
        mergeFields rest
          (setItem name (mergePatch patch ((target.lookup name).getD .null)) target)

end

/-- An array in a patch replaces whatever was there as a whole. -/
@[simp] theorem mergePatch_arr (elems : List Json) (target : Json) :
    mergePatch (.arr elems) target = .arr elems := by
  rw [mergePatch]

@[simp] theorem mergePatch_bool (b : Bool) (target : Json) :
    mergePatch (.bool b) target = .bool b := by
  rw [mergePatch]

/-- A patch of one member which is not `null`. -/
theorem mergePatch_member (name : String) {patch : Json} (hpatch : patch.isNull = false)
    (target : Json) :
    mergePatch (.obj [(name, patch)]) target =
      .obj (setItem name (mergePatch patch ((target.get? name).getD .null)) target.fields) := by
  rw [mergePatch, mergeFields, if_neg (by simp [hpatch]), mergeFields, Json.get?]

/-- The patched member is merged. -/
theorem mergePatch_member_self (name : String) {patch : Json} (hpatch : patch.isNull = false)
    (target : Json) :
    (mergePatch (.obj [(name, patch)]) target).get? name =
      some (mergePatch patch ((target.get? name).getD .null)) := by
  rw [mergePatch_member name hpatch, Json.get?, Json.fields_obj, lookup_setItem_self]

/-- Every other member stays as it was. -/
theorem mergePatch_member_ne {name other : String} (hne : name ≠ other) {patch : Json}
    (hpatch : patch.isNull = false) (target : Json) :
    (mergePatch (.obj [(name, patch)]) target).get? other = target.get? other := by
  rw [mergePatch_member name hpatch, Json.get?, Json.fields_obj,
    lookup_setItem_ne hne.symm, Json.get?]

end JsonValues
