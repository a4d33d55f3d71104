import FaultOracle.BmcMetrics
import FaultOracle.GroupedCounts

/-!
# The rasdaemon exporter

`ras/rasdaemon_exporter.py` counts the events of the rasdaemon tables with a query that groups
them by their raw columns, files the counts under the sanitized columns, and writes a sample for
each.

SQLite is given by what it answers.  The counts add up to the events of the window exactly when
every text among them can be decoded and no two groups have the same sanitized columns
(`counts_conserved_iff`).
-/

namespace FaultOracle.Rasdaemon

open InsertionDict PrometheusText PythonFloats GroupedCounts
open FaultOracle.Bmc (sanitizeLabel clean_sanitizeLabel clean_label)

/-! ## Values of columns -/

/-- A value of SQLite; a text may have bytes which are not UTF-8. -/
inductive SqlValue
  | null
  | integer (n : Int)
  | real (x : PyFloat)
  | text (s : Text)
  | undecodable (bytes : List UInt8)
  | blob (bytes : List UInt8)
deriving DecidableEq

def hexDigit (n : Nat) : Char := "0123456789abcdef".toList.getD n '0'

/-- A byte as `repr` of bytes shows it. -/
def byteText (quote : Char) (b : UInt8) : Text :=
  let c := Char.ofNat b.toNat
  if c = quote ∨ c = '\\' then ['\\', c]
  else if c = '\t' then ['\\', 't']
  else if c = '\n' then ['\\', 'n']
  else if c = '\r' then ['\\', 'r']
  else if ' ' ≤ c ∧ c ≤ '~' then [c]
  else ['\\', 'x', hexDigit (b.toNat / 16), hexDigit (b.toNat % 16)]

/-- `repr` of bytes. -/
def bytesRepr (bytes : List UInt8) : Text :=
  let single : UInt8 := UInt8.ofNat '\''.toNat
  let double : UInt8 := UInt8.ofNat '"'.toNat
  let quote := if single ∈ bytes ∧ double ∉ bytes then '"' else '\''
  'b' :: quote :: bytes.flatMap (byteText quote) ++ [quote]

/-- `str` of a column, which `sqlite3` has to decode first. -/
def SqlValue.str : SqlValue → Option Text
  | null => some "None".toList
  | integer n => some (intText n)
  | real x => some x.repr
  | text s => some s
  | undecodable _ => none
  | blob bytes => some (bytesRepr bytes)

/-! ## The queries -/

/-- The columns by which the events of the memory controllers are grouped. -/
structure McColumns where
  errorType : SqlValue
  mc : SqlValue
  topLayer : SqlValue
  midLayer : SqlValue
deriving DecidableEq

/-- The columns by which the AER events are grouped. -/
structure AerColumns where
  severity : SqlValue
  devId : SqlValue
  errorType : SqlValue
deriving DecidableEq

def McColumns.list (row : McColumns) : List SqlValue :=
  [row.errorType, row.mc, row.topLayer, row.midLayer]

def AerColumns.list (row : AerColumns) : List SqlValue := [row.severity, row.devId, row.errorType]

/-- The key under which a row is filed. -/
def rowKey (columns : List SqlValue) : Option (List Text) :=
  columns.mapM fun v => v.str.map sanitizeLabel

/-- A row of the answer is filed, over whatever has its key. -/
def fileRow {ρ : Type} (columns : ρ → List SqlValue) (counts : List (List Text × Nat))
    (row : ρ × Nat) : Option (List (List Text × Nat)) := do
  let key ← rowKey (columns row.1)
  return setItem key row.2 counts

/-- What a query returns; without an answer, or with a row that cannot be decoded, nothing. -/
def queryEvents {ρ : Type} (columns : ρ → List SqlValue) (answer : Option (List (ρ × Nat))) :
    List (List Text × Nat) :=
  (answer.bind fun rows => rows.foldlM (fileRow columns) []).getD []

/-- `query_mc_events`. -/
def queryMcEvents (answer : Option (List (McColumns × Nat))) : List (List Text × Nat) :=
  queryEvents McColumns.list answer

/-- `query_aer_events`. -/
def queryAerEvents (answer : Option (List (AerColumns × Nat))) : List (List Text × Nat) :=
  queryEvents AerColumns.list answer

/-! ## The text -/

/-- The samples of sorted counts, with the names of their labels. -/
def countSamples (names : List String) (counts : List (List Text × Nat)) :
    List (List (Text × Text) × Text) :=
  (counts.mergeSort fun a b => decide (a.1 ≤ b.1)).map fun item =>
    ((names.map String.toList).zip item.1, natText item.2)

/-- The metrics which `emit_metrics` writes. -/
def families (mcCounts aerCounts : List (List Text × Nat)) (totalEvents : Nat) (now : PyFloat) :
    List MetricFamily :=
  [{ name := "ras_mc_event_total".toList
     help := "Total rasdaemon memory controller events.".toList
     kind := "counter".toList
     samples := countSamples ["type", "mc", "top_layer", "mid_layer"] mcCounts },
    { name := "ras_aer_event_total".toList
      help := "Total rasdaemon PCIe AER events.".toList
      kind := "counter".toList
      samples := countSamples ["severity", "dev_id", "error_type"] aerCounts },
    { name := "ras_exporter_last_run_timestamp".toList
      help := "Unix timestamp of the last rasdaemon exporter run.".toList
      kind := "gauge".toList
      samples := [([], (now.fixed 3).toList)] },
    { name := "ras_exporter_db_events_total".toList
      help := "Total events in rasdaemon database.".toList
      kind := "gauge".toList
      samples := [([], natText totalEvents)] }]

/-- `emit_metrics`. -/
def emitMetrics (mcCounts aerCounts : List (List Text × Nat)) (totalEvents : Nat)
    (now : PyFloat) : Text :=
  exposition (families mcCounts aerCounts totalEvents now)

example : sanitizeLabel "say \"CE\"\n".toList = "say 'CE'".toList := by decide

/-! ## Events and answers -/

/-- What SQLite decides for a table: which rows are one group, and which timestamps lie in the
window. -/
structure Engine (ρ : Type) where
  same : Setoid ρ
  atLeast : SqlValue → PyFloat → Bool

structure Event (ρ : Type) where
  timestamp : SqlValue
  columns : ρ

/-- The rows of the window. -/
def Engine.window {ρ : Type} (engine : Engine ρ) (table : List (Event ρ)) (since : PyFloat) :
    List ρ :=
  (table.filter fun event => engine.atLeast event.timestamp since).map Event.columns

structure Database where
  mcEngine : Engine McColumns
  aerEngine : Engine AerColumns
  mcEvents : List (Event McColumns)
  aerEvents : List (Event AerColumns)

def Database.mcWindow (db : Database) (since : PyFloat) : List McColumns :=
  db.mcEngine.window db.mcEvents since

def Database.aerWindow (db : Database) (since : PyFloat) : List AerColumns :=
  db.aerEngine.window db.aerEvents since

/-- Whatever SQLite answers, the counts are as many as the events of the window, and the text has
a series once. -/
def CountsConserved (db : Database) (since : PyFloat) : Prop :=
  ∀ mcAnswer aerAnswer, Answers db.mcEngine.same (db.mcWindow since) mcAnswer →
    Answers db.aerEngine.same (db.aerWindow since) aerAnswer →
      ((queryMcEvents (some mcAnswer)).map Prod.snd).sum = (db.mcWindow since).length ∧
      ((queryAerEvents (some aerAnswer)).map Prod.snd).sum = (db.aerWindow since).length ∧
      ∀ totalEvents now, Unambiguous
        (emitMetrics (queryMcEvents (some mcAnswer)) (queryAerEvents (some aerAnswer)) totalEvents
          now)

/-- All texts of the rows can be decoded, and rows with one key are of one group. -/
def ToldApart {ρ : Type} (same : Setoid ρ) (columns : ρ → List SqlValue) (rows : List ρ) : Prop :=
  (∀ r ∈ rows, (rowKey (columns r)).isSome) ∧
    ∀ r ∈ rows, ∀ r' ∈ rows, rowKey (columns r) = rowKey (columns r') → same.r r r'

section Queries

variable {ρ : Type} {columns : ρ → List SqlValue} {same : Setoid ρ} {rows : List ρ}
  {answer : List (ρ × Nat)}

/-- A row that cannot be decoded leaves nothing of the answer. -/
theorem queryEvents_eq_nil {r : ρ} {n : Nat} (h : rowKey (columns r) = none) :
    queryEvents columns (some ((r, n) :: answer)) = [] := by
  simp [queryEvents, fileRow, h]

/-- The items which a decoded answer is filed as. -/
def itemsOf (columns : ρ → List SqlValue) (answer : List (ρ × Nat)) : List (List Text × Nat) :=
  answer.map fun row => ((rowKey (columns row.1)).getD [], row.2)

theorem sum_itemsOf : ((itemsOf columns answer).map Prod.snd).sum =
    (answer.map Prod.snd).sum := by
  rw [itemsOf, List.map_map]
  rfl

/-- Otherwise each row is written under its key. -/
theorem queryEvents_eq (h : ∀ row ∈ answer, (rowKey (columns row.1)).isSome) :
    queryEvents columns (some answer) =
      (itemsOf columns answer).foldl (fun d item => setItem item.1 item.2 d) [] := by
  have hfold : ∀ d, answer.foldlM (fileRow columns) d =
      some ((itemsOf columns answer).foldl (fun d item => setItem item.1 item.2 d) d) := by
    induction answer with
    | nil => exact fun d => rfl
    | cons row answer ih =>
        intro d
        obtain ⟨hrow, hrest⟩ := List.forall_mem_cons.mp h
        obtain ⟨key, hkey⟩ := Option.isSome_iff_exists.mp hrow
        have hfile : fileRow columns d row = some (setItem key row.2 d) := by
          rw [fileRow, hkey]
          rfl
        rw [List.foldlM_cons, hfile, itemsOf, List.map_cons, List.foldl_cons, hkey]
        exact ih hrest _
  rw [queryEvents, Option.bind_some, hfold, Option.getD_some]

/-- **Conservation**: the counts of every answer add up to the rows exactly when the rows are told
apart. -/
theorem sum_queryEvents_iff : (∀ answer, Answers same rows answer →
      ((queryEvents columns (some answer)).map Prod.snd).sum = rows.length) ↔
    ToldApart same columns rows := by
  constructor
  · intro h
    have hdecoded : ∀ r ∈ rows, (rowKey (columns r)).isSome := by
      intro r hr
      by_contra hnone
      obtain ⟨n, answer, hanswer⟩ := exists_answers_cons hr
      have hsum := h _ hanswer
      rw [queryEvents_eq_nil (Option.not_isSome_iff_eq_none.mp hnone)] at hsum
      exact List.ne_nil_of_mem hr (List.eq_nil_of_length_eq_zero hsum.symm)
    refine ⟨hdecoded, fun r hr r' hr' hkey => ?_⟩
    by_contra hne
    obtain ⟨n, n', answer, hanswer⟩ := exists_answers_pair hr hr' hne
    have hsum := h _ hanswer
    have htotal := hanswer.sum
    obtain ⟨_, hpos⟩ := hanswer.mem (r, n) List.mem_cons_self
    have hall : ∀ row ∈ (r, n) :: (r', n') :: answer, (rowKey (columns row.1)).isSome :=
      fun row hrow => hdecoded _ (hanswer.mem row hrow).1
    -- the second group is written over the first
    have hover : (itemsOf columns ((r, n) :: (r', n') :: answer)).foldl
        (fun d item => setItem item.1 item.2 d) [] = (itemsOf columns answer).foldl
          (fun d item => setItem item.1 item.2 d) [((rowKey (columns r')).getD [], n')] := by
      simp [itemsOf, hkey, setItem]
    have hle := sum_foldl_setItem_le (itemsOf columns answer)
      [((rowKey (columns r')).getD [], n')]
    rw [queryEvents_eq hall, hover] at hsum
    rw [sum_itemsOf] at hle
    simp only [List.map_cons, List.map_nil, List.sum_cons, List.sum_nil] at hle htotal
    omega
  · intro h answer hanswer
    obtain ⟨hdecoded, hsame⟩ := h
    have hall : ∀ row ∈ answer, (rowKey (columns row.1)).isSome :=
      fun row hrow => hdecoded _ (hanswer.mem row hrow).1
    have hnodup : (([] ++ itemsOf columns answer).map Prod.fst).Nodup := by
      rw [List.nil_append, itemsOf, List.map_map, List.Nodup, List.pairwise_map]
      refine hanswer.pairwise.imp_of_mem fun {a b} ha hb hne hkey => hne ?_
      obtain ⟨k, hk⟩ := Option.isSome_iff_exists.mp (hall a ha)
      obtain ⟨k', hk'⟩ := Option.isSome_iff_exists.mp (hall b hb)
      apply hsame _ (hanswer.mem a ha).1 _ (hanswer.mem b hb).1
      simpa [hk, hk'] using hkey
    rw [queryEvents_eq hall, foldl_setItem_of_nodup hnodup, List.nil_append, sum_itemsOf,
      hanswer.sum]

end Queries

/-! ## The samples of the text -/

section Samples

variable {ρ : Type} {columns : ρ → List SqlValue} {n : Nat} {counts counts' : List (List Text × Nat)}

theorem rowKey_eq_some {values : List SqlValue} {key : List Text} (h : rowKey values = some key) :
    key.length = values.length ∧ ∀ v ∈ key, Clean v := by
  unfold rowKey at h
  induction values generalizing key with
  | nil =>
      obtain rfl : key = [] := by simpa using h.symm
      simp
  | cons value values ih =>
      rw [List.mapM_cons] at h
      obtain ⟨v, hv, h⟩ := Option.bind_eq_some_iff.mp h
      obtain ⟨rest, hrest, h⟩ := Option.bind_eq_some_iff.mp h
      obtain rfl : v :: rest = key := Option.some.inj h
      obtain ⟨hlength, hclean⟩ := ih hrest
      obtain ⟨_, _, rfl⟩ := Option.map_eq_some_iff.mp hv
      exact ⟨by rw [List.length_cons, hlength, List.length_cons],
        List.forall_mem_cons.mpr ⟨clean_sanitizeLabel _, hclean⟩⟩

/-- Counts under distinct keys of `n` sanitized texts. -/
structure Filed (n : Nat) (counts : List (List Text × Nat)) : Prop where
  nodup : (counts.map Prod.fst).Nodup
  keys : ∀ key ∈ counts.map Prod.fst, key.length = n ∧ ∀ v ∈ key, Clean v

theorem filed_nil : Filed n [] := ⟨List.nodup_nil, by simp⟩

theorem Filed.fileRow {row : ρ × Nat} (hcounts : Filed n counts)
    (hcolumns : ∀ r, (columns r).length = n) (h : fileRow columns counts row = some counts') :
    Filed n counts' := by
  obtain ⟨key, hkey, h⟩ := Option.bind_eq_some_iff.mp h
  obtain rfl := Option.some.inj h
  refine ⟨nodup_keys_setItem hcounts.nodup, fun k hk => ?_⟩
  rcases mem_keys_setItem.mp hk with rfl | hk
  · rw [← hcolumns row.1]
    exact rowKey_eq_some hkey
  · exact hcounts.keys k hk

/-- Whatever is answered, the counts are filed. -/
theorem filed_queryEvents (hcolumns : ∀ r, (columns r).length = n)
    (answer : Option (List (ρ × Nat))) : Filed n (queryEvents columns answer) := by
  have hfold : ∀ rows : List (ρ × Nat), ∀ counts counts', Filed n counts →
      rows.foldlM (fileRow columns) counts = some counts' → Filed n counts' := by
    intro rows
    induction rows with
    | nil =>
        intro counts counts' hcounts h
        exact Option.some.inj h ▸ hcounts
    | cons row rows ih =>
        intro counts counts' hcounts h
        rw [List.foldlM_cons] at h
        obtain ⟨next, hnext, h⟩ := Option.bind_eq_some_iff.mp h
        exact ih next counts' (hcounts.fileRow hcolumns hnext) h
  unfold queryEvents
  cases h : answer.bind fun rows => rows.foldlM (fileRow columns) [] with
  | none => exact filed_nil
  | some counts =>
      obtain ⟨rows, _, hrows⟩ := Option.bind_eq_some_iff.mp h
      exact hfold rows [] counts filed_nil hrows

theorem mem_countSamples {names : List String} {s : List (Text × Text) × Text}
    (hs : s ∈ countSamples names counts) :
    ∃ item ∈ counts, s = ((names.map String.toList).zip item.1, natText item.2) := by
  obtain ⟨item, hitem, rfl⟩ := List.mem_map.mp hs
  exact ⟨item, (List.mergeSort_perm counts _).mem_iff.mp hitem, rfl⟩

theorem wellFormed_countSamples {name help : Text} {names : List String}
    (hnamed : wellNamed name help "counter".toList = true)
    (hnames : ∀ label ∈ names.map String.toList, isLabelName label = true)
    (hcounts : Filed n counts) :
    MetricFamily.WellFormed ⟨name, help, "counter".toList, countSamples names counts⟩ := by
  refine wellFormed_mk hnamed fun s hs => ?_
  obtain ⟨item, hitem, rfl⟩ := mem_countSamples hs
  refine ⟨fun l hl => ?_, isNumber_natText _⟩
  obtain ⟨hname, hvalue⟩ := List.of_mem_zip hl
  exact ⟨hnames _ hname, (hcounts.keys item.1 (List.mem_map_of_mem hitem)).2 _ hvalue⟩

/-- The samples of distinct keys have distinct label sets. -/
theorem pairwise_countSamples {names : List String} (hnames : (names.map String.toList).Nodup)
    (hcounts : Filed names.length counts) :
    (countSamples names counts).Pairwise fun a b => ¬ a.1.Perm b.1 := by
  have hsorted := List.mergeSort_perm counts fun a b => decide (a.1 ≤ b.1)
  have hnodup := (hsorted.map Prod.fst).nodup_iff.mpr hcounts.nodup
  have hzip : ∀ item ∈ counts, ((names.map String.toList).zip item.1).map Prod.fst =
      names.map String.toList ∧ ((names.map String.toList).zip item.1).map Prod.snd = item.1 := by
    intro item hitem
    have hlength : (names.map String.toList).length = item.1.length := by
      rw [List.length_map, (hcounts.keys item.1 (List.mem_map_of_mem hitem)).1]
    exact ⟨List.map_fst_zip hlength.le, List.map_snd_zip hlength.ge⟩
  rw [countSamples, List.pairwise_map]
  refine (List.pairwise_map.mp hnodup).imp_of_mem fun {a b} ha hb hne hperm => hne ?_
  obtain ⟨hnameA, hvalueA⟩ := hzip a (hsorted.mem_iff.mp ha)
  obtain ⟨hnameB, hvalueB⟩ := hzip b (hsorted.mem_iff.mp hb)
  have hfirst : (((names.map String.toList).zip a.1).map Prod.fst).Nodup := by
    rw [hnameA]
    exact hnames
  have hequal := (labels_perm_iff (hnameA.trans hnameB.symm) hfirst).mp hperm
  rw [← hvalueA, ← hvalueB, hequal]

end Samples

/-- The text has each series once. -/
theorem unambiguous_emitMetrics {mcCounts aerCounts : List (List Text × Nat)}
    (hmc : Filed 4 mcCounts) (haer : Filed 3 aerCounts) (totalEvents : Nat) (now : PyFloat) :
    Unambiguous (emitMetrics mcCounts aerCounts totalEvents now) := by
  have hnow : isNumber (now.fixed 3).toList = true := isNumber_fixed 3 (by decide) now
  rw [emitMetrics, unambiguous_iff]
  · refine List.forall_mem_cons.mpr ⟨pairwise_countSamples (by decide) hmc,
      List.forall_mem_cons.mpr ⟨pairwise_countSamples (by decide) haer, List.forall_mem_cons.mpr
        ⟨List.pairwise_singleton _ _, List.forall_mem_singleton.mpr (List.pairwise_singleton _ _)⟩⟩⟩
  · refine List.forall_mem_cons.mpr ⟨wellFormed_countSamples (by decide) (by decide) hmc,
      List.forall_mem_cons.mpr ⟨wellFormed_countSamples (by decide) (by decide) haer,
        List.forall_mem_cons.mpr ⟨wellFormed_unlabelled (by decide +kernel) hnow,
          List.forall_mem_singleton.mpr
            (wellFormed_unlabelled (by decide +kernel) (isNumber_natText _))⟩⟩⟩
  · have hnames : (families mcCounts aerCounts totalEvents now).map MetricFamily.name =
        ["ras_mc_event_total".toList, "ras_aer_event_total".toList,
          "ras_exporter_last_run_timestamp".toList, "ras_exporter_db_events_total".toList] := rfl
    rw [hnames]
    decide

/-- **Events are conserved** exactly when, in both tables, the rows of the window can be decoded
and those with one key are of one group. -/
theorem counts_conserved_iff (db : Database) (since : PyFloat) : CountsConserved db since ↔
    ToldApart db.mcEngine.same McColumns.list (db.mcWindow since) ∧
      ToldApart db.aerEngine.same AerColumns.list (db.aerWindow since) := by
  rw [← sum_queryEvents_iff, ← sum_queryEvents_iff]
  constructor
  · intro h
    obtain ⟨mcAnswer, hmc⟩ := exists_answers db.mcEngine.same (db.mcWindow since)
    obtain ⟨aerAnswer, haer⟩ := exists_answers db.aerEngine.same (db.aerWindow since)
    exact ⟨fun answer hanswer => (h answer aerAnswer hanswer haer).1,
      fun answer hanswer => (h mcAnswer answer hmc hanswer).2.1⟩
  · intro ⟨hmc, haer⟩ mcAnswer aerAnswer hmcAnswer haerAnswer
    have hfour : ∀ row : McColumns, row.list.length = 4 := fun _ => rfl
    have hthree : ∀ row : AerColumns, row.list.length = 3 := fun _ => rfl
    exact ⟨hmc mcAnswer hmcAnswer, haer aerAnswer haerAnswer,
      unambiguous_emitMetrics (filed_queryEvents hfour _) (filed_queryEvents hthree _)⟩

/-- Rows are one group if they are equal, and every event lies in the window. -/
def plainEngine (ρ : Type) : Engine ρ := ⟨⟨Eq, eq_equivalence⟩, fun _ _ => true⟩

def typedRow (errorType : String) : McColumns := ⟨.text errorType.toList, .null, .null, .null⟩

/-- Two events whose types differ in a quote. -/
def quotedTypes : Database where
  mcEngine := plainEngine McColumns
  aerEngine := plainEngine AerColumns
  mcEvents := [⟨.real (.fin 1), typedRow "a\"b"⟩, ⟨.real (.fin 2), typedRow "a'b"⟩]
  aerEvents := []

/-- One of the two is lost. -/
theorem event_lost : ¬ CountsConserved quotedTypes (.fin 0) := by
  intro h
  have hsecond : Answers (plainEngine McColumns).same [typedRow "a'b"] [(typedRow "a'b", 1)] :=
    .group (List.mem_singleton.mpr rfl) (List.forall_mem_singleton.mpr rfl) (by simp)
      (List.Perm.refl ([typedRow "a'b"] ++ [])) .nil
  have hne : ¬ (plainEngine McColumns).same.r (typedRow "a\"b") (typedRow "a'b") := by
    change ¬ typedRow "a\"b" = typedRow "a'b"
    decide
  have hboth : Answers (plainEngine McColumns).same (quotedTypes.mcWindow (.fin 0))
      [(typedRow "a\"b", 1), (typedRow "a'b", 1)] :=
    .group (List.mem_singleton.mpr rfl) (List.forall_mem_singleton.mpr rfl)
      (List.forall_mem_singleton.mpr hne)
      (List.Perm.refl ([typedRow "a\"b"] ++ [typedRow "a'b"])) hsecond
  have hsum := (h _ [] hboth .nil).1
  exact absurd hsum (by decide +kernel)

end FaultOracle.Rasdaemon
