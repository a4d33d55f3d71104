import FaultOracle.CheckedLoops
import FaultOracle.PrometheusQuery

/-!
# The readers of SMART data

`parse_smart_log` and `count_error_log_entries` of `storage/nvme_collector.py`, with
`parse_smart_attributes` and `parse_smart_health` of `storage/sata_collector.py`.

A text which is no JSON gives the defaults, and a field which is no integer is left out.  But
only an object has the method `get`, a list is no member of a set, and `int` of an infinity is an
`OverflowError`: none of these is caught, and all fields of the device are lost with the one.
`readers_survive_iff` says which outputs the four readers get through.
-/

namespace FaultOracle.Smart

open CheckedLoops InsertionDict JsonValues PythonFloats
open FaultOracle.Aer (pythonInt)
open FaultOracle.Remediation (PyRaised get iterate strip)
open FaultOracle.Trace (CharTables asciiTables)

/-! ## `int` -/

section Int

variable (U : CharTables)

/-- `int(val)`.  As documented, all white space around the digits is dropped; CPython keeps
U+001C to U+001F in a text of ASCII characters only, and raises there. -/
def intOf : Json → Except PyRaised Int
  | .num x => match x.toInt with
      | .ok n => .ok n
      | .error .overflowError => .error .overflowError
      | .error .valueError => .error .valueError
  | .bool b => .ok (if b then 1 else 0)
  | .str s => match pythonInt U (strip s.toList) with
      | some n => .ok n
      | none => .error .valueError
  | _ => .error .typeError

/-- `int(val)` under `except (TypeError, ValueError)`. -/
def tryInt (val : Json) : Except PyRaised (Option Int) :=
  match intOf U val with
  | .ok n => .ok (some n)
  | .error .typeError => .ok none
  | .error .valueError => .ok none
  | .error e => .error e

end Int

/-- The values which `int` raises an `OverflowError` for. -/
def isInfinite : Json → Bool
  | .num (.inf _) => true
  | _ => false

/-! ## NVMe -/

def kelvinOffset : Int := 273

/-- The dictionary which `parse_smart_log` returns, at first with its defaults. -/
structure SmartLog where
  criticalWarning : Option Int := none
  temperatureCelsius : Option Int := none
  availableSpare : Option Int := none
  availableSpareThreshold : Option Int := none
  percentageUsed : Option Int := none
  dataUnitsWritten : Option Int := none
  powerOnHours : Option Int := none
  unsafeShutdowns : Option Int := none
  mediaErrors : Option Int := none
  numErrLogEntries : Option Int := none
deriving DecidableEq, Repr

section Nvme

variable (U : CharTables)

/-- `_get(key)`. -/
def getInt (data : Json) (key : String) : Except PyRaised (Option Int) := do
  let val ← get data key .null
  if val.isNull then return none
  else tryInt U val

/-- What `parse_smart_log` does with the decoded text. -/
def readSmartLog (data : Json) : Except PyRaised SmartLog := do
  let criticalWarning ← getInt U data "critical_warning"
  let availableSpare ← getInt U data "avail_spare"
  let availableSpareThreshold ← getInt U data "spare_thresh"
  let percentageUsed ← getInt U data "percent_used"
  let dataUnitsWritten ← getInt U data "data_units_written"
  let powerOnHours ← getInt U data "power_on_hours"
  let unsafeShutdowns ← getInt U data "unsafe_shutdowns"
  let mediaErrors ← getInt U data "media_errors"
  let numErrLogEntries ← getInt U data "num_err_log_entries"
  -- nvme-cli reports Kelvin
  let tempK ← getInt U data "temperature"
  return {
    criticalWarning, availableSpare, availableSpareThreshold, percentageUsed,
    dataUnitsWritten, powerOnHours, unsafeShutdowns, mediaErrors, numErrLogEntries
    temperatureCelsius := tempK.map (· - kelvinOffset) }

end Nvme

/-- `a or b`. -/
def pyOr (a b : Json) : Json := if a.truthy then a else b

/-- What `count_error_log_entries` does with the decoded text. -/
def errorLogEntries : Json → Nat
  | .arr entries => entries.length
  | .obj fields =>
      let errors := (fields.lookup "errors").getD .null
      let errorLog := (fields.lookup "error_log").getD .null
      match pyOr errors (pyOr errorLog (.arr [])) with
      | .arr entries => entries.length
      | _ => 0
  | _ => 0

/-! ## SATA -/

/-- An attribute ID as the key of a dictionary. -/
def attrKey (id : Nat) : JsonKey := .num (.fin id)

/-- `SMART_ATTR_IDS`. -/
def smartAttrIds : List (JsonKey × String) :=
  [(attrKey 5, "reallocated_sector_ct"), (attrKey 9, "power_on_hours"),
    (attrKey 187, "reported_uncorrect"), (attrKey 190, "airflow_temperature_cel"),
    (attrKey 194, "temperature_celsius"), (attrKey 197, "current_pending_sector"),
    (attrKey 198, "offline_uncorrectable"), (attrKey 231, "ssd_life_left"),
    (attrKey 233, "media_wearout_indicator")]

/-- `SSD_ONLY_ATTR_IDS`. -/
def ssdOnlyAttrIds : List JsonKey := [attrKey 231, attrKey 233]

/-- The name of an attribute, and none where the loop goes on to the next. -/
def attrName? (isRotational : Bool) (attrId : JsonKey) : Option String :=
  match smartAttrIds.lookup attrId with
  | none => none
  | some attrName =>
      -- SSD-only attributes are skipped for spinning disks
      if isRotational != false && ssdOnlyAttrIds.contains attrId && isRotational then none
      else some attrName

/-- The `value` of an object, or what else is there in its place. -/
def rawValue : Json → Json
  | .obj fields => (fields.lookup "value").getD .null
  | rawVal => rawVal

section Sata

variable (U : CharTables) (isRotational : Bool)

/-- The body of the loop, on the dictionary of the attributes. -/
def readAttr (attributes : List (String × Int)) (attr : Json) :
    Except PyRaised (List (String × Int)) := do
  let attrId ← get attr "id" .null
  match attrId.key? with
  | none => throw .typeError
  | some attrId =>
      match attrName? isRotational attrId with
      | none => return attributes
      | some attrName =>
          let rawVal ← get attr "raw" (.obj [])
          match ← tryInt U (rawValue rawVal) with
          | some n => return setItem attrName n attributes
          | none => return attributes

/-- What `parse_smart_attributes` does with the decoded text. -/
def readAttributes (data : Json) : Except PyRaised (List (String × Int)) := do
  let ataSmart ← get data "ata_smart_attributes" (.obj [])
  let attrList ← get ataSmart "table" (.arr [])
  (← iterate attrList).foldlM (readAttr U isRotational) []

end Sata

/-- `1 if passed is True else 0`. -/
def passedCode : Json → Int
  | .bool true => 1
  | _ => 0

/-- What `parse_smart_health` does with the decoded text. -/
def readHealth (data : Json) : Except PyRaised Int := do
  let smartStatus ← get data "smart_status" (.obj [])
  let passed ← get smartStatus "passed" .null
  return passedCode passed

/-! ## From the text -/

/-- How `json.loads` ends: a value, a `JSONDecodeError`, or what it raises for a text which nests
too deeply or holds an integer of too many digits. -/
inductive Loaded
  | value (data : Json)
  | jsonDecodeError
  | otherError

/-- What leaves a reader: an exception of `json.loads`, or one of its own. -/
inductive Raised
  | loads
  | python (e : PyRaised)
deriving DecidableEq, Repr

section Readers

variable {α : Type} (U : CharTables) (loads : String → Loaded)

/-- What the four readers have in common: the default for no text and for no JSON. -/
def readJson (default : α) (read : Json → Except PyRaised α) (rawJson : String) :
    Except Raised α :=
  if rawJson = "" then .ok default
  else
    match loads rawJson with
    | .jsonDecodeError => .ok default
    | .otherError => .error .loads
    | .value data =>
        match read data with
        | .ok result => .ok result
        | .error e => .error (.python e)

/-- `parse_smart_log`. -/
def parseSmartLog : String → Except Raised SmartLog := readJson loads {} (readSmartLog U)

/-- `count_error_log_entries`. -/
def countErrorLogEntries : String → Except Raised Nat :=
  readJson loads 0 fun data => .ok (errorLogEntries data)

/-- `parse_smart_attributes`. -/
def parseSmartAttributes (isRotational : Bool) : String → Except Raised (List (String × Int)) :=
  readJson loads [] (readAttributes U isRotational)

/-- `parse_smart_health`. -/
def parseSmartHealth : String → Except Raised Int := readJson loads 0 readHealth

end Readers

/-! ## Fields by themselves -/

section Fields

variable (U : CharTables) (isRotational : Bool)

/-- One integer field of a value of any shape. -/
def ownField (data : Json) (key : String) : Option Int :=
  (data.get? key).bind fun val => (intOf U val).toOption

/-- The log with every field read by itself. -/
def ownSmartLog (data : Json) : SmartLog where
  criticalWarning := ownField U data "critical_warning"
  temperatureCelsius := (ownField U data "temperature").map (· - kelvinOffset)
  availableSpare := ownField U data "avail_spare"
  availableSpareThreshold := ownField U data "spare_thresh"
  percentageUsed := ownField U data "percent_used"
  dataUnitsWritten := ownField U data "data_units_written"
  powerOnHours := ownField U data "power_on_hours"
  unsafeShutdowns := ownField U data "unsafe_shutdowns"
  mediaErrors := ownField U data "media_errors"
  numErrLogEntries := ownField U data "num_err_log_entries"

/-- The entry of one row of the table, of any shape. -/
def ownEntry (attr : Json) : Option (String × Int) := do
  let attrId ← ((attr.get? "id").getD .null).key?
  let attrName ← attrName? isRotational attrId
  let n ← (intOf U (rawValue ((attr.get? "raw").getD (.obj [])))).toOption
  return (attrName, n)

/-- A row adds its entry, if it has one. -/
def addEntry (attributes : List (String × Int)) (attr : Json) : List (String × Int) :=
  match ownEntry U isRotational attr with
  | some (attrName, n) => setItem attrName n attributes
  | none => attributes

/-- The rows of a value which is a list. -/
def rowsOf : Json → List Json
  | .arr rows => rows
  | _ => []

/-- The rows of the table, of a value of any shape. -/
def tableRows (data : Json) : List Json :=
  rowsOf (((data.get? "ata_smart_attributes").bind (·.get? "table")).getD (.arr []))

/-- The attributes with every row read by itself. -/
def ownAttributes (data : Json) : List (String × Int) :=
  (tableRows data).foldl (addEntry U isRotational) []

end Fields

/-- The overall assessment, of a value of any shape. -/
def ownHealth (data : Json) : Int :=
  match (data.get? "smart_status").bind (·.get? "passed") with
  | some passed => passedCode passed
  | none => 0

/-! ## What the readers get through -/

/-- The keys which `parse_smart_log` converts. -/
def smartLogKeys : List String :=
  ["critical_warning", "avail_spare", "spare_thresh", "percent_used", "data_units_written",
    "power_on_hours", "unsafe_shutdowns", "media_errors", "num_err_log_entries", "temperature"]

/-- The value is an object, and holds no infinity under a key which is converted. -/
def LogReadable : Json → Prop
  | .obj fields =>
      ∀ key ∈ smartLogKeys, ∀ val, fields.lookup key = some val → isInfinite val = false
  | _ => False

/-- The row is an object, its ID has a hash, and where it is kept its raw value is no infinity. -/
def RowReadable (isRotational : Bool) : Json → Prop
  | .obj fields =>
      match ((fields.lookup "id").getD .null).key? with
      | none => False
      | some attrId =>
          attrName? isRotational attrId = none ∨
            isInfinite (rawValue ((fields.lookup "raw").getD (.obj []))) = false
  | _ => False

/-- A list of such rows; nothing is iterated over in an empty string or object. -/
def TableReadable (isRotational : Bool) : Json → Prop
  | .arr rows => ∀ row ∈ rows, RowReadable isRotational row
  | .str s => s = ""
  | .obj fields => fields = []
  | _ => False

/-- The value is an object, and so is what it has under `outer`, if it has that. -/
def Nested (outer : String) (P : List (String × Json) → Prop) : Json → Prop
  | .obj fields =>
      match (fields.lookup outer).getD (.obj []) with
      | .obj inner => P inner
      | _ => False
  | _ => False

def AttributesReadable (isRotational : Bool) : Json → Prop :=
  Nested "ata_smart_attributes" fun inner =>
    TableReadable isRotational ((inner.lookup "table").getD (.arr []))

def HealthReadable : Json → Prop := Nested "smart_status" fun _ => True

/-! ### The log -/

section Log

variable {U : CharTables} {val : Json} {fields : List (String × Json)} {key : String}

/-- `int` converts, or raises what is caught, or the value is an infinity. -/
theorem intOf_cases (U : CharTables) (val : Json) :
    (∃ n, intOf U val = .ok n ∧ isInfinite val = false) ∨
      (∃ e, intOf U val = .error e ∧ (e = .typeError ∨ e = .valueError) ∧
        isInfinite val = false) ∨
      (intOf U val = .error .overflowError ∧ isInfinite val = true) := by
  cases val with
  | num x =>
      cases x with
      | fin q => exact .inl ⟨_, rfl, rfl⟩
      | inf negative => exact .inr (.inr ⟨rfl, rfl⟩)
      | nan => exact .inr (.inl ⟨_, rfl, .inr rfl, rfl⟩)
  | bool b => exact .inl ⟨_, rfl, rfl⟩
  | str s =>
      rw [intOf]
      cases pythonInt U (strip s.toList) with
      | some n => exact .inl ⟨n, rfl, rfl⟩
      | none => exact .inr (.inl ⟨_, rfl, .inr rfl, rfl⟩)
  | _ => exact .inr (.inl ⟨_, rfl, .inl rfl, rfl⟩)

/-- **Conversion.**  Only the overflow gets out. -/
theorem tryInt_eq_ok {r : Option Int} :
    tryInt U val = .ok r ↔ isInfinite val = false ∧ r = (intOf U val).toOption := by
  rcases intOf_cases U val with ⟨n, hn, hfin⟩ | ⟨e, he, rfl | rfl, hfin⟩ | ⟨he, hinf⟩
  · simp [tryInt, hn, hfin, Except.toOption, eq_comm]
  · simp [tryInt, he, hfin, Except.toOption, eq_comm]
  · simp [tryInt, he, hfin, Except.toOption, eq_comm]
  · simp [tryInt, he, hinf]

theorem get_obj (name : String) (default : Json) :
    get (.obj fields) name default = .ok ((fields.lookup name).getD default) := rfl

/-- `null` is tried in vain where the source does not try it. -/
theorem getInt_obj :
    getInt U (.obj fields) key = tryInt U ((fields.lookup key).getD .null) := by
  rw [getInt, get_obj]
  cases (fields.lookup key).getD .null <;> rfl

/-- **A field.**  It is read by itself, unless it is an infinity. -/
theorem getInt_eq_ok {r : Option Int} :
    getInt U (.obj fields) key = .ok r ↔
      (∀ val, fields.lookup key = some val → isInfinite val = false) ∧
        r = ownField U (.obj fields) key := by
  rw [getInt_obj, tryInt_eq_ok, ownField, Json.get?, Json.fields_obj]
  cases fields.lookup key with
  | none =>
      have hnull : (intOf U ((none : Option Json).getD .null)).toOption = none := rfl
      rw [hnull]
      simp [isInfinite]
  | some val => simp

/-- **The log.**  Every field is read by itself, if none of them raises. -/
theorem readSmartLog_eq_ok {data : Json} {r : SmartLog} :
    readSmartLog U data = .ok r ↔ LogReadable data ∧ r = ownSmartLog U data := by
  cases data with
  | obj fields =>
      simp only [readSmartLog, bind_eq_ok, getInt_eq_ok, LogReadable, smartLogKeys,
        List.forall_mem_cons]
      constructor
      · rintro ⟨_, ⟨h1, rfl⟩, _, ⟨h2, rfl⟩, _, ⟨h3, rfl⟩, _, ⟨h4, rfl⟩, _, ⟨h5, rfl⟩, _, ⟨h6, rfl⟩,
          _, ⟨h7, rfl⟩, _, ⟨h8, rfl⟩, _, ⟨h9, rfl⟩, _, ⟨h10, rfl⟩, hr⟩
        exact ⟨⟨h1, h2, h3, h4, h5, h6, h7, h8, h9, h10, by simp⟩, (Except.ok.inj hr).symm⟩
      · rintro ⟨⟨h1, h2, h3, h4, h5, h6, h7, h8, h9, h10, -⟩, rfl⟩
        exact ⟨_, ⟨h1, rfl⟩, _, ⟨h2, rfl⟩, _, ⟨h3, rfl⟩, _, ⟨h4, rfl⟩, _, ⟨h5, rfl⟩, _, ⟨h6, rfl⟩,
          _, ⟨h7, rfl⟩, _, ⟨h8, rfl⟩, _, ⟨h9, rfl⟩, _, ⟨h10, rfl⟩, rfl⟩
  | _ => exact ⟨fun h => (nomatch h), fun h => h.1.elim⟩

end Log

/-! ### The nested objects -/

section Nested

variable {β : Type} {outer name : String} {default : Json} {fields inner : List (String × Json)}

/-- Two lookups, the second in what the first gave. -/
theorem get_get_eq_ok {data : Json} {f : Json → Except PyRaised β} {r : β} :
    ((get data outer (.obj [])).bind fun j => (get j name default).bind f) = .ok r ↔
      Nested outer (fun inner => f ((inner.lookup name).getD default) = .ok r) data := by
  cases data with
  | obj fields =>
      have hfirst : ((get (.obj fields) outer (.obj [])).bind fun j => (get j name default).bind f)
          = (get ((fields.lookup outer).getD (.obj [])) name default).bind f := rfl
      rw [hfirst, Nested]
      cases (fields.lookup outer).getD (.obj []) with
      | obj inner => exact Iff.rfl
      | _ => exact ⟨fun h => (nomatch h), False.elim⟩
  | _ => exact ⟨fun h => (nomatch h), False.elim⟩

/-- What the second lookup finds. -/
theorem get?_get? (h : (fields.lookup outer).getD (.obj []) = .obj inner) :
    ((Json.obj fields).get? outer).bind (·.get? name) = inner.lookup name := by
  rw [Json.get?, Json.fields_obj]
  cases hlookup : fields.lookup outer with
  | none =>
      rw [hlookup, Option.getD_none, Json.obj.injEq] at h
      rw [← h]
      rfl
  | some j =>
      rw [hlookup, Option.getD_some] at h
      rw [h]
      rfl

/-- A condition on the inner object, together with a result which depends on it. -/
theorem nested_and_eq {P : List (String × Json) → Prop} {value : List (String × Json) → β}
    {own : Json → β} {data : Json} {r : β}
    (hown : ∀ fields inner, (fields.lookup outer).getD (.obj []) = .obj inner →
      own (.obj fields) = value inner) :
    Nested outer (fun inner => P inner ∧ r = value inner) data ↔
      Nested outer P data ∧ r = own data := by
  cases data with
  | obj fields =>
      rw [Nested, Nested]
      cases hinner : (fields.lookup outer).getD (.obj []) with
      | obj inner => rw [hown fields inner hinner]
      | _ => exact ⟨False.elim, fun h => h.1⟩
  | _ => exact ⟨False.elim, fun h => h.1⟩

/-- **The assessment.**  A `smart_status` which is no object is all that raises. -/
theorem readHealth_eq_ok {data : Json} {r : Int} :
    readHealth data = .ok r ↔ HealthReadable data ∧ r = ownHealth data := by
  have hread : readHealth data = .ok r ↔ Nested "smart_status" (fun inner =>
      True ∧ r = passedCode ((inner.lookup "passed").getD .null)) data := by
    simp only [true_and, eq_comm (a := r)]
    exact get_get_eq_ok.trans (by simp only [pure, Except.pure, Except.ok.injEq])
  rw [hread]
  apply nested_and_eq
  intro fields inner hinner
  rw [ownHealth, get?_get? hinner]
  cases inner.lookup "passed" <;> rfl

end Nested

/-! ### The table -/

section Table

variable {U : CharTables} {isRotational : Bool} {attr : Json}

/-- A row which is an object, after the lookup of its ID. -/
theorem readAttr_obj (fields : List (String × Json)) (attributes : List (String × Int)) :
    readAttr U isRotational attributes (.obj fields) =
      match ((fields.lookup "id").getD .null).key? with
      | none => .error .typeError
      | some attrId =>
          match attrName? isRotational attrId with
          | none => .ok attributes
          | some attrName =>
              (tryInt U (rawValue ((fields.lookup "raw").getD (.obj [])))).bind fun
                | some n => .ok (setItem attrName n attributes)
                | none => .ok attributes := by
  rw [readAttr, get_obj]
  rfl

theorem readAttr_ok (h : RowReadable isRotational attr) (attributes : List (String × Int)) :
    readAttr U isRotational attributes attr = .ok (addEntry U isRotational attributes attr) := by
  cases attr with
  | obj fields =>
      rw [readAttr_obj, addEntry, ownEntry, Json.get?, Json.get?, Json.fields_obj]
      rw [RowReadable] at h
      cases hid : ((fields.lookup "id").getD .null).key? with
      | none =>
          rw [hid] at h
          exact h.elim
      | some attrId =>
          rw [hid] at h
          cases hname : attrName? isRotational attrId with
          | none => simp [hname]
          | some attrName =>
              have hfin := h.resolve_left (by simp [hname])
              have htry := (tryInt_eq_ok (U := U)).mpr ⟨hfin, rfl⟩
              simp only [htry, hname, Except.bind, Option.bind_eq_bind, Option.bind_some]
              cases (intOf U (rawValue ((fields.lookup "raw").getD (.obj [])))).toOption <;> rfl
  | _ => exact h.elim

theorem readAttr_error (h : ¬ RowReadable isRotational attr) (attributes : List (String × Int)) :
    ∃ e, readAttr U isRotational attributes attr = .error e := by
  cases attr with
  | obj fields =>
      rw [readAttr_obj]
      rw [RowReadable] at h
      cases hid : ((fields.lookup "id").getD .null).key? with
      | none => exact ⟨_, rfl⟩
      | some attrId =>
          simp only [hid, not_or] at h
          obtain ⟨attrName, hname⟩ := Option.ne_none_iff_exists'.mp h.1
          rcases intOf_cases U (rawValue ((fields.lookup "raw").getD (.obj []))) with
            ⟨_, _, hfin⟩ | ⟨_, _, _, hfin⟩ | ⟨he, -⟩
          · exact absurd hfin h.2
          · exact absurd hfin h.2
          · exact ⟨.overflowError, by simp [hname, tryInt, he, Except.bind]⟩
  | _ => exact ⟨_, rfl⟩

/-- **The loop.**  Every row of the list adds its own entry, if none of them raises. -/
theorem readRows_eq_ok {rows : List Json} {r : List (String × Int)} :
    rows.foldlM (readAttr U isRotational) [] = .ok r ↔
      (∀ row ∈ rows, RowReadable isRotational row) ∧
        r = rows.foldl (addEntry U isRotational) [] := by
  have hok : ∀ attributes row, ¬ ¬ RowReadable isRotational row →
      readAttr U isRotational attributes row = .ok (addEntry U isRotational attributes row) :=
    fun attributes _ hrow => readAttr_ok (not_not.mp hrow) attributes
  have hbad : ∀ attributes row, ¬ RowReadable isRotational row →
      ∃ e, readAttr U isRotational attributes row = .error e :=
    fun attributes _ hrow => readAttr_error hrow attributes
  rw [foldlM_eq_ok_iff hok hbad]
  simp only [not_not, eq_comm]

/-- Characters and names are no rows. -/
theorem readTable_eq_ok {attrList : Json} {r : List (String × Int)} :
    ((iterate attrList).bind fun rows => rows.foldlM (readAttr U isRotational) []) = .ok r ↔
      TableReadable isRotational attrList ∧
        r = (rowsOf attrList).foldl (addEntry U isRotational) [] := by
  cases attrList with
  | arr rows => exact readRows_eq_ok
  | str s =>
      have hchars : (∀ row ∈ s.toList.map fun c => Json.str (String.singleton c),
          RowReadable isRotational row) ↔ s = "" := by
        rw [List.forall_mem_map, ← String.toList_eq_nil_iff, List.eq_nil_iff_forall_not_mem]
        exact Iff.rfl
      refine readRows_eq_ok.trans ?_
      rw [hchars]
      refine and_congr_right fun hs => ?_
      subst hs
      rfl
  | obj fields =>
      have hnames : (∀ row ∈ fields.map fun field => Json.str field.1,
          RowReadable isRotational row) ↔ fields = [] := by
        rw [List.forall_mem_map, List.eq_nil_iff_forall_not_mem]
        exact Iff.rfl
      refine readRows_eq_ok.trans ?_
      rw [hnames]
      refine and_congr_right fun hs => ?_
      subst hs
      rfl
  | _ => exact ⟨fun h => (nomatch h), fun h => h.1.elim⟩

theorem readAttributes_eq_ok {data : Json} {r : List (String × Int)} :
    readAttributes U isRotational data = .ok r ↔
      AttributesReadable isRotational data ∧ r = ownAttributes U isRotational data := by
  have hread : readAttributes U isRotational data = .ok r ↔
      Nested "ata_smart_attributes" (fun inner =>
        TableReadable isRotational ((inner.lookup "table").getD (.arr [])) ∧
          r = (rowsOf ((inner.lookup "table").getD (.arr []))).foldl
            (addEntry U isRotational) []) data :=
    get_get_eq_ok.trans (by simp only [bind, readTable_eq_ok])
  rw [hread]
  apply nested_and_eq
  intro fields inner hinner
  rw [ownAttributes, tableRows, get?_get? hinner]

end Table

/-! ### The texts -/

section Texts

variable {α : Type} (loads : String → Loaded)

/-- What `json.loads` makes of the text, if it is called and there is a value. -/
def decoded (rawJson : String) : Option Json :=
  if rawJson = "" then none
  else
    match loads rawJson with
    | .value data => some data
    | _ => none

/-- There is no text, or `json.loads` gives a value or raises a `JSONDecodeError`. -/
def Loads (rawJson : String) : Prop := rawJson = "" ∨ loads rawJson ≠ .otherError

/-- The text is one which `json.loads` does not fail on, and its value, if any, is readable. -/
def Passes (Readable : Json → Prop) (rawJson : String) : Prop :=
  Loads loads rawJson ∧ ∀ data, decoded loads rawJson = some data → Readable data

/-- The default, or the value with each of its fields read by itself. -/
def owed (default : α) (own : Json → α) (rawJson : String) : α :=
  ((decoded loads rawJson).map own).getD default

variable {loads} in
/-- **A reader.**  It passes the readable texts, and returns what it owes there. -/
theorem readJson_eq_ok {default : α} {read : Json → Except PyRaised α} {own : Json → α}
    {Readable : Json → Prop} (hread : ∀ {data r}, read data = .ok r ↔ Readable data ∧ r = own data)
    {rawJson : String} {r : α} :
    readJson loads default read rawJson = .ok r ↔
      Passes loads Readable rawJson ∧ r = owed loads default own rawJson := by
  unfold Passes Loads owed decoded readJson
  by_cases hempty : rawJson = ""
  · simp [hempty, eq_comm]
  · cases hloads : loads rawJson with
    | jsonDecodeError => simp [hempty, eq_comm]
    | otherError => simp [hempty]
    | value data =>
        have hresult : (match read data with
            | .ok result => (.ok result : Except Raised α)
            | .error e => .error (.python e)) = .ok r ↔ read data = .ok r := by
          cases read data <;> simp
        simp only [hempty, if_false, hresult, hread]
        simp

/-- The reader returns, and each field is what it is by itself. -/
def Survives (reader : String → Except Raised α) (default : α) (own : Json → α)
    (rawJson : String) : Prop :=
  reader rawJson = .ok (owed loads default own rawJson)

theorem survives_readJson_iff {default : α} {read : Json → Except PyRaised α} {own : Json → α}
    {Readable : Json → Prop} (hread : ∀ {data r}, read data = .ok r ↔ Readable data ∧ r = own data)
    {rawJson : String} :
    Survives loads (readJson loads default read) default own rawJson ↔
      Passes loads Readable rawJson := by
  rw [Survives, readJson_eq_ok hread, and_iff_left rfl]

variable (U : CharTables)

/-- **What the readers get through**: texts which `json.loads` does not fail on, and values with
objects where a field is looked up, hashable IDs and no infinity which is converted.  The count of
the error log needs nothing of its value. -/
theorem readers_survive_iff (smartLog errorLog attributes health : String) (isRotational : Bool) :
    (Survives loads (parseSmartLog U loads) {} (ownSmartLog U) smartLog ∧
      Survives loads (countErrorLogEntries loads) 0 errorLogEntries errorLog ∧
      Survives loads (parseSmartAttributes U loads isRotational) []
        (ownAttributes U isRotational) attributes ∧
      Survives loads (parseSmartHealth loads) 0 ownHealth health) ↔
    Passes loads LogReadable smartLog ∧ Loads loads errorLog ∧
      Passes loads (AttributesReadable isRotational) attributes ∧
      Passes loads HealthReadable health := by
  have herrors : Survives loads (countErrorLogEntries loads) 0 errorLogEntries errorLog ↔
      Loads loads errorLog := by
    have hread : ∀ {data : Json} {r : Nat}, (.ok (errorLogEntries data) : Except PyRaised Nat) =
        .ok r ↔ True ∧ r = errorLogEntries data := by
      intro data r
      rw [Except.ok.injEq, true_and, eq_comm]
    rw [countErrorLogEntries, survives_readJson_iff loads hread, Passes]
    simp
  rw [herrors, parseSmartLog, parseSmartAttributes, parseSmartHealth,
    survives_readJson_iff loads readSmartLog_eq_ok,
    survives_readJson_iff loads readAttributes_eq_ok, survives_readJson_iff loads readHealth_eq_ok]

end Texts

/-! ### Odd values -/

/-- A text, with the value which it has. -/
structure Sample where
  text : String
  data : Json

/-- `json.loads`, as far as one text. -/
def Sample.loads (s : Sample) (rawJson : String) : Loaded :=
  if rawJson = s.text then .value s.data else .jsonDecodeError

def emptyList : Sample := ⟨"[]", .arr []⟩

def infiniteTemperature : Sample where
  text := "\x7b\"temperature\": Infinity, \"power_on_hours\": 12\x7d"
  data := .obj [("temperature", .num (.inf false)), ("power_on_hours", .num (.fin 12))]

def nullRow : Sample where
  text := "\x7b\"ata_smart_attributes\": \x7b\"table\": [null, " ++
    "\x7b\"id\": 9, \"raw\": 12\x7d]\x7d\x7d"
  data := .obj [("ata_smart_attributes", .obj [("table",
    .arr [.null, .obj [("id", .num (.fin 9)), ("raw", .num (.fin 12))]])])]

/-- Three readers raise on an empty list.  An infinite temperature loses the hours of the same
device, and a row which is `null` the next one. -/
theorem odd_json_not_survived :
    (parseSmartLog asciiTables emptyList.loads emptyList.text =
        .error (.python .attributeError) ∧
      parseSmartAttributes asciiTables emptyList.loads true emptyList.text =
        .error (.python .attributeError) ∧
      parseSmartHealth emptyList.loads emptyList.text = .error (.python .attributeError)) ∧
    (¬ Survives infiniteTemperature.loads (parseSmartLog asciiTables infiniteTemperature.loads) {}
        (ownSmartLog asciiTables) infiniteTemperature.text ∧
      (ownSmartLog asciiTables infiniteTemperature.data).powerOnHours = some 12) ∧
    ¬ Survives nullRow.loads (parseSmartAttributes asciiTables nullRow.loads true) []
        (ownAttributes asciiTables true) nullRow.text ∧
      ownAttributes asciiTables true nullRow.data = [("power_on_hours", 12)] := by
  unfold Survives
  decide

end FaultOracle.Smart
