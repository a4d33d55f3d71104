import FaultOracle.AerReaders
import FaultOracle.JsonValues

/-!
# The answer of Prometheus

`query_prometheus` of `remediation/remediation-controller.py`: the items of the answer, and what
the chain of lookups and conversions does with an item of any shape.

Inside the `try` the code expects a missing key, a short list and a string which is no number.
Everything else that can go wrong with an item (a `null` sample, a `metric` which is no object)
raises out of the loop, and `poll_once` gives up the whole poll.  `queryPrometheus_iff` says for
which answers the function returns the well-formed items and nothing else.
-/

namespace FaultOracle.Remediation

open GoStrings JsonValues PythonFloats
open FaultOracle.Trace (CharTables)
open FaultOracle.Aer (digitGroups)

/-! ## `float` of a string -/

section Float

variable (U : CharTables)

/-- The digits on one side of the point, where there may be none. -/
def digitPart (s : List Char) : Option (List Char) := if s = [] then some [] else digitGroups U s

/-- The exponent behind a mantissa. -/
def floatExponent : List Char → Option Int
  | [] => some 0
  | _ :: exponent =>
      (digitGroups U (unsigned exponent)).map fun digits =>
        if exponent.head? = some '-' then -(U.decimal digits : Int) else U.decimal digits

/-- A decimal number without its sign, not rounded. -/
def floatNumber (s : List Char) : Option ℚ := do
  let mantissa := s.takeWhile fun c => c ≠ 'e' ∧ c ≠ 'E'
  let whole := mantissa.takeWhile (· ≠ '.')
  let wholeDigits ← digitPart U whole
  let fractionDigits ← digitPart U ((mantissa.drop whole.length).drop 1)
  let exponent ← floatExponent U (s.drop mantissa.length)
  if wholeDigits ++ fractionDigits = [] then none
  else some (U.decimal (wholeDigits ++ fractionDigits) * 10 ^ (exponent - fractionDigits.length))

/-- `float(text)`; a number out of range is an infinity.  As documented, all white space around
the number is dropped; CPython keeps U+001C to U+001F in a text of ASCII characters only, and
raises there. -/
def pythonFloat (text : List Char) : Option PyFloat :=
  let s := strip text
  let body := unsigned s
  let negative := s.head? = some '-'
  let name := body.map Char.toLower
  if name = "inf".toList ∨ name = "infinity".toList then some (.inf negative)
  else if name = "nan".toList then some .nan
  else (floatNumber U body).map fun q => toDouble (if negative then -q else q)

example : [" 0.93\n", "-1_0e-1", ".5", "5.", "Infinity", "1e400", ".", "1__0", "0x1", ""].map
    (fun s => pythonFloat FaultOracle.Trace.asciiTables s.toList) =
      [some (toDouble (93 / 100)), some (.fin (-1)), some (.fin (1 / 2)), some (.fin 5),
        some (.inf false), some (.inf false), none, none, none, none] := by
  decide +kernel

end Float

/-! ## One item -/

/-- What the lookups and conversions raise. -/
inductive PyRaised
  | attributeError
  | typeError
  | keyError
  | indexError
  | valueError
  | overflowError
deriving DecidableEq, Repr

/-- `j.get(name, default)`. -/
def get (j : Json) (name : String) (default : Json) : Except PyRaised Json :=
  match j.dictGet name default with
  | some value => .ok value
  | none => .error .attributeError

/-- `j["value"]`, of an object. -/
def valueOf (j : Json) : Except PyRaised Json :=
  match j.get? "value" with
  | some value => .ok value
  | none => .error .keyError

/-- `j[1]`; the keys of a decoded object are strings. -/
def second : Json → Except PyRaised Json
  | .arr elems => match elems[1]? with
      | some x => .ok x
      | none => .error .indexError
  | .str s => match s.toList[1]? with
      | some c => .ok (.str (String.singleton c))
      | none => .error .indexError
  | .obj _ => .error .keyError
  | _ => .error .typeError

section Items

variable (U : CharTables)

/-- `float(j)`; an integer may be out of range. -/
def floatOf : Json → Except PyRaised PyFloat
  | .str s => match pythonFloat U s.toList with
      | some x => .ok x
      | none => .error .valueError
  | .num (.fin q) => match toDouble q with
      | .fin r => .ok (.fin r)
      | _ => .error .overflowError
  | .num x => .ok x
  | .bool b => .ok (.fin (if b then 1 else 0))
  | _ => .error .typeError

/-- The name of the node, as it is used: `node`, or `instance` where that is false. -/
def nodeOf (item : Json) : Except PyRaised Json := do
  let node ← get (← get item "metric" (.obj [])) "node" .null
  if node.truthy then return node
  else get (← get item "metric" (.obj [])) "instance" (.str "")

/-- `float(item["value"][1])`. -/
def sampleOf (item : Json) : Except PyRaised PyFloat := do
  floatOf U (← second (← valueOf item))

/-- The body of the loop: the result it appends, or none where it continues. -/
def itemResult (item : Json) : Except PyRaised (Option (Json × PyFloat)) := do
  let node ← nodeOf item
  if !node.truthy then return none
  else
    match sampleOf U item with
    | .ok value => return some (node, value)
    | .error .keyError => return none
    | .error .indexError => return none
    | .error .valueError => return none
    | .error e => throw e

/-- The loop. -/
def itemResults : List Json → Except PyRaised (List (Json × PyFloat))
  | [] => .ok []
  | item :: rest => do
      match ← itemResult U item with
      | none => itemResults rest
      | some result => return result :: (← itemResults rest)

/-! ## The query -/

/-- What `query_prometheus` raises: the two errors it makes itself, `Prometheus query failed: ..`
and `Prometheus returned status: ..`, or what its lookups raise. -/
inductive QueryError
  | queryFailed
  | badStatus (status : Json)
  | raised (e : PyRaised)

/-- The iteration over a value. -/
def iterate : Json → Except PyRaised (List Json)
  | .arr elems => .ok elems
  | .str s => .ok (s.toList.map fun c => .str (String.singleton c))
  | .obj fields => .ok (fields.map fun field => .str field.1)
  | _ => .error .typeError

/-- `data.get("data", {}).get("result", [])`, iterated over. -/
def resultItems (data : Json) : Except PyRaised (List Json) := do
  let result ← get (← get data "data" (.obj [])) "result" (.arr [])
  iterate result

/-- `status != "success"` is false. -/
def isSuccess : Json → Bool
  | .str s => s == "success"
  | _ => false

/-- `query_prometheus`, where `answer` is the decoded answer, if there is one. -/
def queryPrometheus (answer : Option Json) : Except QueryError (List (Json × PyFloat)) :=
  match answer with
  | none => .error .queryFailed
  | some data =>
      match get data "status" .null with
      | .error e => .error (.raised e)
      | .ok status =>
          if !isSuccess status then .error (.badStatus status)
          else
            match resultItems data >>= itemResults U with
            | .ok results => .ok results
            | .error e => .error (.raised e)

/-! ## Well-formed items -/

/-- The name in a set of labels: `node`, or `instance` where there is no `node` or it is empty. -/
def nodeName (labels : List (String × Json)) : Option String :=
  match labels.lookup "node" with
  | some (.str node) => if node ≠ "" then some node else instanceName
  | some _ => none
  | none => instanceName
where
  instanceName : Option String :=
    match labels.lookup "instance" with
    | some (.str name) => if name ≠ "" then some name else none
    | _ => none

/-- What a well-formed item says: an object with the labels of the series and a sample, which is
a time and a number written as a string. -/
def wellFormed? (item : Json) : Option (String × PyFloat) :=
  match item.get? "metric", item.get? "value" with
  | some (.obj labels), some (.arr [.num _, .str s]) => do
      let name ← nodeName labels
      let value ← pythonFloat U s.toList
      return (name, value)
  | _, _ => none

def WellFormedItem (item : Json) : Prop := (wellFormed? U item).isSome = true

instance (item : Json) : Decidable (WellFormedItem U item) := inferInstanceAs (Decidable (_ = true))

/-- The label is missing, or one of the values which count as false. -/
def Blank (labels : List (String × Json)) (name : String) : Prop :=
  ∀ j, labels.lookup name = some j → j.truthy = false

/-- What the `try` is prepared for: no sample, or one in a list or string which is too short or
holds no number there, or in an object. -/
def BadSample : Option Json → Prop
  | none => True
  | some (.arr elems) =>
      match (elems[1]? : Option Json) with
      | none => True
      | some (.str s) => pythonFloat U s.toList = none
      | some _ => False
  | some (.str s) =>
      match s.toList[1]? with
      | none => True
      | some c => pythonFloat U [c] = none
  | some (.obj _) => True
  | some _ => False

/-- An item which the loop passes over: an object, with no `metric` or one which is an object,
which lacks a name or whose sample the `try` is prepared for. -/
def Skipped (item : Json) : Prop :=
  ∃ fields, item = .obj fields ∧
    ∃ labels, (fields.lookup "metric").getD (.obj []) = .obj labels ∧
      (Blank labels "node" ∧ Blank labels "instance" ∨ BadSample U (fields.lookup "value"))

/-! ## What the loop does with an item -/

section Loop

variable {U} {item j : Json} {fields labels : List (String × Json)} {name : String}
  {items : List Json}

/-- A field of an object, or its default. -/
theorem get_obj (default : Json) :
    get (.obj fields) name default = .ok ((fields.lookup name).getD default) := rfl

/-- A label is blank exactly when its value is not truthy. -/
theorem blank_iff (default : Json) (hdefault : default.truthy = false) :
    Blank labels name ↔ ((labels.lookup name).getD default).truthy = false := by
  cases h : labels.lookup name with
  | none => simp [Blank, h, hdefault]
  | some j => simp [Blank, h]

/-- The name which the loop takes from an object with labels. -/
theorem nodeOf_labels (hmetric : (fields.lookup "metric").getD (.obj []) = .obj labels) :
    nodeOf (.obj fields) = .ok
      (if ((labels.lookup "node").getD .null).truthy then (labels.lookup "node").getD .null
        else (labels.lookup "instance").getD (.str "")) := by
  rw [nodeOf, get_obj, hmetric]
  show (if _ then _ else _) = _
  split
  · rfl
  · rfl

/-- A result with a node is an object whose metric is one. -/
theorem nodeOf_eq_ok (h : nodeOf item = .ok j) :
    ∃ fields, item = .obj fields ∧
      ∃ labels, (fields.lookup "metric").getD (.obj []) = .obj labels := by
  cases item with
  | obj fields =>
      refine ⟨fields, rfl, ?_⟩
      rw [nodeOf, get_obj] at h
      cases hmetric : (fields.lookup "metric").getD (.obj []) with
      | obj labels => exact ⟨labels, rfl⟩
      | _ =>
          rw [hmetric] at h
          cases h
  | _ => cases h

/-- The node is not truthy exactly when both labels are blank. -/
theorem not_truthy_nodeOf_iff (hmetric : (fields.lookup "metric").getD (.obj []) = .obj labels)
    (hnode : nodeOf (.obj fields) = .ok j) :
    j.truthy = false ↔ Blank labels "node" ∧ Blank labels "instance" := by
  rw [nodeOf_labels hmetric] at hnode
  rw [← Except.ok.inj hnode, blank_iff .null rfl,
    blank_iff (.str "") (by simp [Json.truthy])]
  split
  · rename_i htruthy
    simp [htruthy]
  · rename_i hblank
    simp [hblank]

/-- What the `try` catches. -/
def PyRaised.caught : PyRaised → Prop
  | .keyError | .indexError | .valueError => True
  | _ => False

/-- A result without a value raises. -/
theorem sampleOf_none (h : fields.lookup "value" = none) :
    sampleOf U (.obj fields) = .error .keyError := by
  rw [sampleOf, valueOf, Json.get?, Json.fields_obj, h]
  rfl

/-- A result's sample is the second element of its value. -/
theorem sampleOf_some (h : fields.lookup "value" = some j) :
    sampleOf U (.obj fields) = second j >>= floatOf U := by
  rw [sampleOf, valueOf, Json.get?, Json.fields_obj, h]
  rfl

/-- A sample in a string. -/
theorem floatOf_str (s : String) :
    (∃ e, floatOf U (.str s) = .error e ∧ e.caught) ↔ pythonFloat U s.toList = none := by
  have hfloat : floatOf U (.str s) = match pythonFloat U s.toList with
      | some x => .ok x
      | none => .error .valueError := rfl
  rw [hfloat]
  cases pythonFloat U s.toList with
  | none => simp [PyRaised.caught]
  | some x => simp

/-- A sample of any other shape is converted, or raises what is not caught. -/
theorem floatOf_other (hj : ∀ s, j ≠ .str s) : ¬ ∃ e, floatOf U j = .error e ∧ e.caught := by
  intro ⟨e, he, hcaught⟩
  cases j with
  | str s => exact hj s rfl
  | num x =>
      cases x with
      | fin q =>
          unfold floatOf at he
          cases hq : toDouble q with
          | fin r => simp only [hq] at he; cases he
          | _ => simp only [hq] at he; cases he; exact hcaught
      | _ => cases he
  | bool b => cases he
  | _ => cases he; exact hcaught

/-- The bad samples are those whose error the `try` catches. -/
theorem badSample_iff :
    BadSample U (fields.lookup "value") ↔
      ∃ e, sampleOf U (.obj fields) = .error e ∧ e.caught := by
  cases hvalue : fields.lookup "value" with
  | none =>
      rw [sampleOf_none hvalue]
      exact ⟨fun _ => ⟨_, rfl, trivial⟩, fun _ => trivial⟩
  | some value =>
      rw [sampleOf_some hvalue]
      cases value with
      | arr elems =>
          rw [BadSample, second]
          cases elems[1]? with
          | none => exact ⟨fun _ => ⟨_, rfl, trivial⟩, fun _ => trivial⟩
          | some x =>
              have hx : (Except.ok x >>= floatOf U) = floatOf U x := rfl
              simp only [hx]
              cases x with
              | str s => exact (floatOf_str s).symm
              | _ => exact iff_of_false id (floatOf_other fun s h => by cases h)
      | str s =>
          rw [BadSample, second]
          cases s.toList[1]? with
          | none => exact ⟨fun _ => ⟨_, rfl, trivial⟩, fun _ => trivial⟩
          | some c =>
              have hc : (String.singleton c).toList = [c] := by simp
              simp only
              rw [← hc]
              exact (floatOf_str _).symm
      | obj entries => exact ⟨fun _ => ⟨_, rfl, trivial⟩, fun _ => trivial⟩
      | _ => exact ⟨False.elim, fun ⟨e, he, hcaught⟩ => by cases he; exact hcaught⟩

/-- An item without a name is skipped. -/
theorem itemResult_of_blank (hnode : nodeOf item = .ok j) (hj : j.truthy = false) :
    itemResult U item = .ok none := by
  rw [itemResult, hnode]
  show (if !j.truthy then _ else _) = _
  rw [hj]
  rfl

/-- A result with a node and a sample gives both. -/
theorem itemResult_of_sample (hnode : nodeOf item = .ok j) (hj : j.truthy = true) {value : PyFloat}
    (hsample : sampleOf U item = .ok value) : itemResult U item = .ok (some (j, value)) := by
  rw [itemResult, hnode]
  show (if !j.truthy then _ else _) = _
  rw [hj, hsample]
  rfl

/-- What a sample raises is caught, or raised again. -/
theorem itemResult_of_error (hnode : nodeOf item = .ok j) (hj : j.truthy = true) {e : PyRaised}
    (hsample : sampleOf U item = .error e) : itemResult U item = .ok none ↔ e.caught := by
  rw [itemResult, hnode]
  show (if !j.truthy then _ else _) = _ ↔ _
  rw [hj, hsample]
  cases e with
  | keyError | indexError | valueError => exact iff_of_true rfl trivial
  | _ => exact iff_of_false (fun h => by cases h) id

/-- The loop continues past an item exactly when it is one to skip. -/
theorem itemResult_none_iff : itemResult U item = .ok none ↔ Skipped U item := by
  constructor
  · intro h
    cases hnode : nodeOf item with
    | error e =>
        rw [itemResult, hnode] at h
        cases h
    | ok j =>
        obtain ⟨fields, rfl, labels, hmetric⟩ := nodeOf_eq_ok hnode
        refine ⟨fields, rfl, labels, hmetric, ?_⟩
        cases hj : j.truthy with
        | false => exact Or.inl ((not_truthy_nodeOf_iff hmetric hnode).mp hj)
        | true =>
            cases hsample : sampleOf U (.obj fields) with
            | ok value =>
                rw [itemResult_of_sample hnode hj hsample] at h
                cases h
            | error e =>
                have hcaught := (itemResult_of_error hnode hj hsample).mp h
                exact Or.inr (badSample_iff.mpr ⟨e, hsample, hcaught⟩)
  · intro ⟨fields, hitem, labels, hmetric, h⟩
    obtain ⟨j, hnode⟩ : ∃ j, nodeOf (.obj fields) = .ok j := ⟨_, nodeOf_labels hmetric⟩
    rw [hitem]
    cases hj : j.truthy with
    | false => exact itemResult_of_blank hnode hj
    | true =>
        rcases h with hblank | hbad
        · rw [← not_truthy_nodeOf_iff hmetric hnode, hj] at hblank
          cases hblank
        · obtain ⟨e, hsample, hcaught⟩ := badSample_iff.mp hbad
          exact (itemResult_of_error hnode hj hsample).mpr hcaught

/-- The name of well-formed labels is the one the loop takes. -/
theorem nodeName_eq (h : nodeName labels = some name) :
    name ≠ "" ∧ (if ((labels.lookup "node").getD .null).truthy then
        (labels.lookup "node").getD .null else (labels.lookup "instance").getD (.str "")) =
      .str name := by
  have hinstance : nodeName.instanceName labels = some name →
      name ≠ "" ∧ (labels.lookup "instance").getD (.str "") = .str name := by
    intro h
    rw [nodeName.instanceName] at h
    split at h
    · rename_i s hs
      by_cases hne : s ≠ ""
      · rw [if_pos hne] at h
        obtain rfl := Option.some.inj h
        exact ⟨hne, by rw [hs]; rfl⟩
      · rw [if_neg hne] at h
        cases h
    · cases h
  rw [nodeName] at h
  split at h
  · rename_i node hnode
    by_cases hne : node ≠ ""
    · rw [if_pos hne] at h
      obtain rfl := Option.some.inj h
      simp [hnode, Json.truthy, hne]
    · rw [if_neg hne] at h
      have hempty : node = "" := not_not.mp hne
      simpa [hnode, Json.truthy, hempty] using hinstance h
  · cases h
  · rename_i hnode
    simpa [hnode, Json.truthy] using hinstance h

/-- A well-formed item is appended, with its name and its value. -/
theorem itemResult_of_wellFormed {r : String × PyFloat} (h : wellFormed? U item = some r) :
    itemResult U item = .ok (some (.str r.1, r.2)) := by
  rw [wellFormed?] at h
  split at h
  · rename_i labels t s hmetric hvalue
    simp only [Option.bind_eq_bind, Option.bind_eq_some_iff, Option.pure_def,
      Option.some.injEq] at h
    obtain ⟨name, hname, value, hfloat, rfl⟩ := h
    obtain ⟨hne, hnode⟩ := nodeName_eq hname
    cases item with
    | obj fields =>
        have hlabels : (fields.lookup "metric").getD (.obj []) = .obj labels := by
          rw [Json.get?, Json.fields_obj] at hmetric
          rw [hmetric]
          rfl
        have hsample : sampleOf U (.obj fields) = .ok value := by
          rw [Json.get?, Json.fields_obj] at hvalue
          rw [sampleOf_some hvalue]
          show floatOf U (.str s) = .ok value
          unfold floatOf
          simp only [hfloat]
        refine itemResult_of_sample ?_ ?_ hsample
        · rw [nodeOf_labels hlabels, hnode]
        · simpa [Json.truthy] using hne
    | _ => cases hmetric
  · cases h

/-- What the loop keeps of an item. -/
def keptOf (U : CharTables) (item : Json) : Option (Json × PyFloat) :=
  (itemResult U item).toOption.join

/-- What is kept of a result which does not raise. -/
theorem keptOf_eq {o : Option (Json × PyFloat)} (h : itemResult U item = .ok o) :
    keptOf U item = o := by
  rw [keptOf, h]
  rfl

/-- A result which is passed over. -/
theorem itemResults_cons_none (h : itemResult U item = .ok none) :
    itemResults U (item :: items) = itemResults U items := by
  rw [itemResults, h]
  rfl

/-- A result which is kept. -/
theorem itemResults_cons_some {r : Json × PyFloat} (h : itemResult U item = .ok (some r)) :
    itemResults U (item :: items) =
      itemResults U items >>= fun results => .ok (r :: results) := by
  rw [itemResults, h]
  rfl

/-- A result which raises. -/
theorem itemResults_cons_error {e : PyRaised} (h : itemResult U item = .error e) :
    itemResults U (item :: items) = .error e := by
  rw [itemResults, h]
  rfl

/-- **The loop** ends when no item raises, and appends what it keeps of each. -/
theorem itemResults_eq_ok_iff {results : List (Json × PyFloat)} :
    itemResults U items = .ok results ↔
      (∀ item ∈ items, ∃ o, itemResult U item = .ok o) ∧ items.filterMap (keptOf U) = results := by
  induction items generalizing results with
  | nil => simp [itemResults]
  | cons item rest ih =>
      cases hitem : itemResult U item with
      | error e =>
          rw [itemResults_cons_error hitem]
          refine iff_of_false (fun h => by cases h) fun ⟨hall, _⟩ => ?_
          obtain ⟨o, ho⟩ := hall item List.mem_cons_self
          rw [hitem] at ho
          cases ho
      | ok o =>
          have hkept := keptOf_eq hitem
          rw [List.forall_mem_cons, and_iff_right (⟨o, hitem⟩ : ∃ o, itemResult U item = .ok o)]
          cases o with
          | none => rw [List.filterMap_cons_none hkept, ← ih, itemResults_cons_none hitem]
          | some r =>
              rw [List.filterMap_cons_some hkept, itemResults_cons_some hitem]
              cases hrest : itemResults U rest with
              | error e =>
                  refine iff_of_false (fun h => by cases h) fun ⟨hall, _⟩ => ?_
                  rw [ih.mpr ⟨hall, rfl⟩] at hrest
                  cases hrest
              | ok kept =>
                  obtain ⟨hall, rfl⟩ := ih.mp hrest
                  rw [and_iff_right hall]
                  exact ⟨Except.ok.inj, congrArg Except.ok⟩

/-- Where one function keeps whatever another does, they keep the same of a list only if they
agree on it. -/
theorem eq_of_filterMap_eq {α β : Type} {f g : α → Option β}
    (hfg : ∀ x y, g x = some y → f x = some y) {xs : List α}
    (h : xs.filterMap f = xs.filterMap g) : ∀ x ∈ xs, f x = g x := by
  have hlength : ∀ ys : List α, (ys.filterMap g).length ≤ (ys.filterMap f).length := by
    intro ys
    induction ys with
    | nil => exact Nat.le_refl _
    | cons y ys ih =>
        cases hg : g y with
        | none =>
            rw [List.filterMap_cons_none hg]
            cases hf : f y with
            | none => rwa [List.filterMap_cons_none hf]
            | some z =>
                rw [List.filterMap_cons_some hf, List.length_cons]
                exact Nat.le_succ_of_le ih
        | some z =>
            rw [List.filterMap_cons_some hg, List.filterMap_cons_some (hfg y z hg)]
            exact Nat.succ_le_succ ih
  induction xs with
  | nil => exact fun _ hx => absurd hx List.not_mem_nil
  | cons x xs ih =>
      rw [List.forall_mem_cons]
      cases hg : g x with
      | some z =>
          have hf := hfg x z hg
          rw [List.filterMap_cons_some hg, List.filterMap_cons_some hf] at h
          exact ⟨hf, ih (List.cons.inj h).2⟩
      | none =>
          cases hf : f x with
          | none =>
              rw [List.filterMap_cons_none hg, List.filterMap_cons_none hf] at h
              exact ⟨rfl, ih h⟩
          | some z =>
              rw [List.filterMap_cons_none hg, List.filterMap_cons_some hf] at h
              have hshort := congrArg List.length h
              have hle := hlength xs
              rw [List.length_cons] at hshort
              omega

/-- The well-formed items of a result, in order. -/
def wellFormedItems (U : CharTables) (items : List Json) : List (Json × PyFloat) :=
  items.filterMap fun item => (wellFormed? U item).map fun r => (.str r.1, r.2)

/-- The loop returns the well-formed items exactly when every other item is one to skip. -/
theorem itemResults_iff :
    itemResults U items = .ok (wellFormedItems U items) ↔
      ∀ item ∈ items, WellFormedItem U item ∨ Skipped U item := by
  have hkeeps : ∀ item r, ((wellFormed? U item).map fun r => (Json.str r.1, r.2)) = some r →
      keptOf U item = some r := by
    intro item r h
    obtain ⟨r', hr, rfl⟩ := Option.map_eq_some_iff.mp h
    exact keptOf_eq (itemResult_of_wellFormed hr)
  rw [itemResults_eq_ok_iff]
  constructor
  · intro ⟨hall, hsame⟩ item hitem
    obtain ⟨o, ho⟩ := hall item hitem
    have hkept := eq_of_filterMap_eq hkeeps hsame item hitem
    rw [keptOf_eq ho] at hkept
    cases hwell : wellFormed? U item with
    | some r => exact Or.inl (by rw [WellFormedItem, hwell]; rfl)
    | none =>
        rw [hwell, Option.map_none] at hkept
        exact Or.inr (itemResult_none_iff.mp (hkept ▸ ho))
  · intro h
    have heach : ∀ item ∈ items, ∃ o, itemResult U item = .ok o ∧
        (wellFormed? U item).map (fun r => (Json.str r.1, r.2)) = o := by
      intro item hitem
      cases hwell : wellFormed? U item with
      | some r => exact ⟨_, itemResult_of_wellFormed hwell, rfl⟩
      | none =>
          rcases h item hitem with hgood | hskip
          · rw [WellFormedItem, hwell] at hgood
            cases hgood
          · exact ⟨none, itemResult_none_iff.mpr hskip, rfl⟩
    refine ⟨fun item hitem => (heach item hitem).imp fun _ => And.left, ?_⟩
    refine List.filterMap_congr fun item hitem => ?_
    obtain ⟨o, ho, hwell⟩ := heach item hitem
    rw [keptOf_eq ho, hwell]

end Loop

end Items

/-- The answer reports success, and its result is a list of items. -/
structure Succeeds (data : Json) (items : List Json) : Prop where
  status : data.get? "status" = some (.str "success")
  result : ∃ fields, data.get? "data" = some (.obj fields) ∧
    fields.lookup "result" = some (.arr items)

/-- **The query.**  Of a successful answer whose result is a list, `query_prometheus` returns
exactly the well-formed items, in order, if and only if every other item is one to skip. -/
theorem queryPrometheus_iff (U : CharTables) (data : Json) (items : List Json)
    (h : Succeeds data items) :
    queryPrometheus U (some data) = .ok (wellFormedItems U items) ↔
      ∀ item ∈ items, WellFormedItem U item ∨ Skipped U item := by
  obtain ⟨hstatus, fields, hdata, hresult⟩ := h
  cases data with
  | obj top =>
      rw [Json.get?, Json.fields_obj] at hstatus hdata
      have hitems : resultItems (.obj top) = .ok items := by
        rw [resultItems, get_obj, hdata]
        show (get (.obj fields) "result" (.arr []) >>= iterate) = _
        rw [get_obj, hresult]
        rfl
      rw [← itemResults_iff, queryPrometheus, get_obj, hstatus, hitems]
      show (match itemResults U items with
        | .ok results => Except.ok results
        | .error e => .error (QueryError.raised e)) = _ ↔ _
      cases itemResults U items with
      | ok results => rw [Except.ok.injEq, Except.ok.injEq]
      | error e => exact iff_of_false (fun h => by cases h) fun h => by cases h
  | _ => cases hstatus

/-- The series of a node, with its sample. -/
def seriesItem (node : String) (sample : Json) : Json :=
  .obj [("metric", .obj [("node", .str node)]), ("value", .arr [.num (.fin 1700000000), sample])]

/-- A successful answer. -/
def successAnswer (items : List Json) : Json :=
  .obj [("status", .str "success"), ("data", .obj [("result", .arr items)])]

/-- Two series, the second with a sample which is no number. -/
theorem spoiled_sample_skipped :
    queryPrometheus FaultOracle.Trace.asciiTables
        (some (successAnswer [seriesItem "a" (.str "0.5"), seriesItem "b" (.str "?")])) =
      .ok (wellFormedItems FaultOracle.Trace.asciiTables
        [seriesItem "a" (.str "0.5"), seriesItem "b" (.str "?")]) := by
  refine (queryPrometheus_iff _ _ _ ⟨rfl, _, rfl, rfl⟩).mpr ?_
  rw [List.forall_mem_cons, List.forall_mem_singleton]
  refine ⟨Or.inl (by decide +kernel), Or.inr ⟨_, rfl, _, rfl, Or.inr ?_⟩⟩
  show pythonFloat FaultOracle.Trace.asciiTables "?".toList = none
  decide +kernel

/-- The same with a `null` sample: the query raises, and the first series is lost with it. -/
theorem null_sample_raises :
    queryPrometheus FaultOracle.Trace.asciiTables
        (some (successAnswer [seriesItem "a" (.str "0.5"), seriesItem "b" .null])) =
      .error (.raised .typeError) ∧
    wellFormedItems FaultOracle.Trace.asciiTables
        [seriesItem "a" (.str "0.5"), seriesItem "b" .null] = [(.str "a", .fin (1 / 2))] := by
  have hgood : wellFormed? FaultOracle.Trace.asciiTables (seriesItem "a" (.str "0.5")) =
      some ("a", .fin (1 / 2)) := by decide +kernel
  have hbad : wellFormed? FaultOracle.Trace.asciiTables (seriesItem "b" .null) = none := rfl
  have hraises : itemResult FaultOracle.Trace.asciiTables (seriesItem "b" .null) =
      .error .typeError := rfl
  have hloop : itemResults FaultOracle.Trace.asciiTables
      [seriesItem "a" (.str "0.5"), seriesItem "b" .null] = .error .typeError := by
    rw [itemResults_cons_some (itemResult_of_wellFormed hgood), itemResults_cons_error hraises]
    rfl
  constructor
  · show (match itemResults FaultOracle.Trace.asciiTables
        [seriesItem "a" (.str "0.5"), seriesItem "b" .null] with
      | .ok results => Except.ok results
      | .error e => .error (QueryError.raised e)) = _
    rw [hloop]
  · rw [wellFormedItems, List.filterMap_cons_some (by rw [hgood]; rfl),
      List.filterMap_cons_none (by rw [hbad]; rfl), List.filterMap_nil]

end FaultOracle.Remediation
