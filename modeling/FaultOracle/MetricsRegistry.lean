import Mathlib.Data.List.Induction
import Mathlib.Data.List.Perm.Subperm
import FaultOracle.FloatRepr
import FaultOracle.RemediationState

/-!
# The metrics of the remediation programs as a text

`webhook-server.py` and `remediation-controller.py` each hold dictionaries of counters and
gauges, one entry for a tuple of labels, and `render_metrics` writes them in the Prometheus
text format.  The label values are strings from outside: names of components and alerts in the
body of a request, node names in a query result.

`exposes_iff` says after which calls the text is read as the samples which the calls made.
-/

namespace FaultOracle.Metrics

open InsertionDict PythonFloats PrometheusText Remediation

/-- The argument `labels`: a dictionary from label names to any strings. -/
structure LabelSet where
  items : List (String × String)
  distinct : (items.map Prod.fst).Nodup
  named : ∀ item ∈ items, isLabelName item.1.toList = true

/-- A call of one of the two functions. -/
inductive Call
  | counterInc (name : String) (labels : LabelSet)
  | gaugeSet (name : String) (value : PyFloat) (labels : LabelSet)

def Call.labels : Call → LabelSet
  | .counterInc _ labels => labels
  | .gaugeSet _ _ labels => labels

/-- What a program declares: the keys of `_counters` and of `_gauges`, the gauges which
start with `{(): 0.0}`, and the gauges which `render_metrics` writes as a constant. -/
structure Registry where
  counters : List String
  gauges : List String
  zeroed : List String
  constants : List String
  distinct : (counters ++ gauges ++ constants).Nodup
  named : ∀ name ∈ counters ++ gauges ++ constants, isMetricName name.toList = true

/-- The registry of `webhook-server.py`, which has no `gauge_set`. -/
def webhookServer : Registry where
  counters := ["replacement_confirmed_total", "false_positive_total"]
  gauges := []
  zeroed := []
  constants := ["webhook_server_up"]
  distinct := by decide
  named := by decide

/-- The registry of `remediation-controller.py`. -/
def remediationController : Registry where
  counters := ["remediation_actions_total", "remediation_poll_errors_total"]
  gauges := ["remediation_cooldown_active", "remediation_nodes_at_risk",
    "remediation_controller_last_poll_timestamp"]
  zeroed := ["remediation_nodes_at_risk", "remediation_controller_last_poll_timestamp"]
  constants := []
  distinct := by decide
  named := by decide

/-- The two dictionaries, of a metric each. -/
structure Dictionaries where
  counters : Samples String Nat
  gauges : Samples String PyFloat

/-- `gauge_set`, of a float. -/
def gaugeSet (gauges : Samples String PyFloat) (name : String) (value : PyFloat)
    (labels : List (String × String)) : Samples String PyFloat :=
  Function.update gauges name (setItem (labelKey labels) value (gauges name))

variable (r : Registry)

def Registry.initial : Dictionaries where
  counters _ := []
  gauges name := if name ∈ r.zeroed then [([], .fin 0)] else []

/-- The metrics after a call; `none` where it raises a `KeyError` and changes nothing. -/
def Registry.call (m : Dictionaries) : Call → Option Dictionaries
  | .counterInc name labels =>
      if name ∈ r.counters then
        some { m with counters := counterInc m.counters name labels.items }
      else none
  | .gaugeSet name value labels =>
      if name ∈ r.gauges then some { m with gauges := gaugeSet m.gauges name value labels.items }
      else none

def Registry.run (calls : List Call) : Dictionaries :=
  calls.foldl (fun m c => (r.call m c).getD m) r.initial

/-! ## The text -/

/-- `_labels_str`. -/
def labelsStr (labels : List (String × String)) : Text :=
  if labels = [] then []
  else
    let parts := (labelKey labels).map fun l => l.1.toList ++ '=' :: '"' :: l.2.toList ++ ['"']
    '{' :: [','].intercalate parts ++ ['}']

/-- `dict(key)`. -/
def dict (key : List (String × String)) : List (String × String) :=
  key.foldl (fun d item => setItem item.1 item.2 d) []

/-- The entries of a metric, with the texts of their values. -/
structure Family where
  name : String
  kind : String
  entries : List (List (String × String) × Text)

def Family.lines (f : Family) : List Text :=
  ("# TYPE " ++ f.name ++ " " ++ f.kind).toList ::
    f.entries.map fun entry => f.name.toList ++ labelsStr (dict entry.1) ++ ' ' :: entry.2

/-- The metrics in the order in which `render_metrics` writes them. -/
def Registry.families (m : Dictionaries) : List Family :=
  (r.counters.map fun name =>
    ⟨name, "counter", (m.counters name).map fun entry => (entry.1, natText entry.2)⟩) ++
  (r.gauges.map fun name =>
    ⟨name, "gauge", (m.gauges name).map fun entry => (entry.1, entry.2.repr)⟩) ++
  r.constants.map fun name => ⟨name, "gauge", [([], natText 1)]⟩

/-- `render_metrics`. -/
def Registry.renderMetrics (m : Dictionaries) : Text :=
  ['\n'].intercalate ((r.families m).flatMap Family.lines) ++ ['\n']

/-! ## What the calls have made -/

/-- A call which counts this sample. -/
def Call.counts (name : String) (labels : List (String × String)) : Call → Bool
  | .counterInc n given => decide (n = name) && given.items.isPerm labels
  | .gaugeSet _ _ _ => false

/-- What a call sets this sample to. -/
def Call.sets (name : String) (labels : List (String × String)) : Call → Option PyFloat
  | .counterInc _ _ => none
  | .gaugeSet n value given => if n = name ∧ given.items.isPerm labels then some value else none

/-- The value of a sample after the calls: how often it was counted, or what it was last
set to.  Where no call has touched it there is nothing, but for the gauges which start with a
zero sample without labels. -/
def Registry.expected (calls : List Call) (name : String) (labels : List (String × String)) :
    Option Text :=
  if name ∈ r.counters then
    let n := calls.countP (Call.counts name labels)
    if n = 0 then none else some (natText n)
  else if name ∈ r.gauges then
    let start := if name ∈ r.zeroed ∧ labels = [] then some (.fin 0) else none
    ((calls.reverse.findSome? (Call.sets name labels)).or start).map PyFloat.repr
  else none

/-- Labels as a reader has them. -/
def texts (labels : List (String × String)) : List (Text × Text) :=
  labels.map fun l => (l.1.toList, l.2.toList)

/-- The text is readable, and of each metric it has exactly one sample for the labels which a
call has touched (or which it starts with), with their value, and no other sample. -/
def Registry.Exposes (calls : List Call) (text : Text) : Prop :=
  ∃ samples, parse text = some samples ∧
    ∀ name ∈ r.counters ++ r.gauges, ∀ labels : List (String × String),
      ((samples.filter fun s => decide (s.name = name.toList) && s.labels.isPerm (texts labels)).map
        Sample.value) = (r.expected calls name labels).toList

/-! ## Keys -/

section Keys

variable {a b : List (String × String)}

/-- The key has the labels in some order. -/
theorem labelKey_perm (a : List (String × String)) : (labelKey a).Perm a := List.mergeSort_perm _ _

/-- The keys of two label sets are equal when they are the same labels. -/
theorem labelKey_eq_iff (ha : (a.map Prod.fst).Nodup) : labelKey a = labelKey b ↔ a.Perm b := by
  constructor
  · intro h
    exact ((labelKey_perm a).symm.trans (h ▸ List.Perm.refl _)).trans (labelKey_perm b)
  · intro h
    exact InsertionDict.mergeSort_key_eq_of_perm h ha

/-- It is empty only when there are no labels. -/
theorem labelKey_eq_nil_iff : labelKey a = [] ↔ a = [] := by
  rw [← List.length_eq_zero_iff, (labelKey_perm a).length_eq, List.length_eq_zero_iff]

/-- A key of a dictionary: the sorted items of a label set. -/
def IsKey (key : List (String × String)) : Prop := ∃ labels : LabelSet, key = labelKey labels.items

/-- No label name stands twice in a key. -/
theorem IsKey.nodup {key : List (String × String)} (h : IsKey key) : (key.map Prod.fst).Nodup := by
  obtain ⟨labels, rfl⟩ := h
  exact ((labelKey_perm labels.items).map Prod.fst).nodup_iff.mpr labels.distinct

/-- A key is in order already. -/
theorem IsKey.labelKey_eq {key : List (String × String)} (h : IsKey key) : labelKey key = key := by
  obtain ⟨labels, rfl⟩ := h
  exact (labelKey_eq_iff (IsKey.nodup ⟨labels, rfl⟩)).mpr (labelKey_perm labels.items)

/-- Its names are label names. -/
theorem IsKey.named {key : List (String × String)} (h : IsKey key) :
    ∀ item ∈ key, isLabelName item.1.toList = true := by
  obtain ⟨labels, rfl⟩ := h
  exact fun item hitem => labels.named item ((labelKey_perm labels.items).subset hitem)

/-- As a dictionary it is itself. -/
theorem dict_key {key : List (String × String)} (h : IsKey key) : dict key = key :=
  foldl_setItem_of_nodup (d := []) h.nodup

end Keys

/-! ## What the dictionaries hold -/

section Runs

variable {r} {α : Type} {name : String} {calls : List Call} {labels : List (String × String)}

/-- No key is there twice, and each is the key of a label set. -/
structure Sound (d : List (List (String × String) × α)) : Prop where
  nodup : (d.map Prod.fst).Nodup
  isKey : ∀ key ∈ d.map Prod.fst, IsKey key

/-- Setting a value keeps the keys in order. -/
theorem Sound.setItem {d : List (List (String × String) × α)} (h : Sound d) (given : LabelSet)
    (value : α) : Sound (setItem (labelKey given.items) value d) := by
  refine ⟨nodup_keys_setItem h.nodup, fun key hkey => ?_⟩
  rcases mem_keys_setItem.mp hkey with hkey | hkey
  · exact ⟨given, hkey⟩
  · exact h.isKey key hkey

/-- So does changing the values. -/
theorem Sound.map {β : Type} {d : List (List (String × String) × α)} (h : Sound d) (g : α → β) :
    Sound (d.map fun entry => (entry.1, g entry.2)) := by
  have hkeys : (d.map fun entry => (entry.1, g entry.2)).map Prod.fst = d.map Prod.fst := by
    rw [List.map_map]
    rfl
  exact ⟨hkeys ▸ h.nodup, hkeys ▸ h.isKey⟩

/-- And the sample without labels. -/
theorem sound_unlabelled (value : α) :
    Sound [(([] : List (String × String)), value)] := by
  refine ⟨List.nodup_singleton _, fun key hkey => ?_⟩
  obtain rfl := List.mem_singleton.mp hkey
  exact ⟨⟨[], List.nodup_nil, List.forall_mem_nil _⟩, labelKey_eq_nil_iff.mpr rfl |>.symm⟩

/-- A call more, at the end. -/
theorem run_concat (calls : List Call) (c : Call) :
    r.run (calls ++ [c]) = (r.call (r.run calls) c).getD (r.run calls) := by
  rw [Registry.run, List.foldl_append]
  rfl

/-- `counter_inc` changes one counter of those which are declared. -/
theorem counters_counterInc (m : Dictionaries) (n name : String) (given : LabelSet) :
    ((r.call m (.counterInc n given)).getD m).counters name =
      if n = name ∧ n ∈ r.counters then bump (m.counters name) (labelKey given.items)
      else m.counters name := by
  rw [Registry.call]
  by_cases hn : n ∈ r.counters
  · rw [if_pos hn, Option.getD_some]
    by_cases h : n = name
    · rw [if_pos ⟨h, hn⟩, ← h]
      exact Function.update_self ..
    · rw [if_neg fun hand => h hand.1]
      exact Function.update_of_ne (Ne.symm h) ..
  · rw [if_neg hn, if_neg fun hand => hn hand.2]
    rfl

/-- A counter does not touch the gauges. -/
theorem gauges_counterInc (m : Dictionaries) (n : String) (given : LabelSet) :
    ((r.call m (.counterInc n given)).getD m).gauges = m.gauges := by
  rw [Registry.call]
  split <;> rfl

/-- `gauge_set` changes one gauge of those which are declared. -/
theorem gauges_gaugeSet (m : Dictionaries) (n name : String) (value : PyFloat) (given : LabelSet) :
    ((r.call m (.gaugeSet n value given)).getD m).gauges name =
      if n = name ∧ n ∈ r.gauges then setItem (labelKey given.items) value (m.gauges name)
      else m.gauges name := by
  rw [Registry.call]
  by_cases hn : n ∈ r.gauges
  · rw [if_pos hn, Option.getD_some]
    by_cases h : n = name
    · rw [if_pos ⟨h, hn⟩, ← h]
      exact Function.update_self ..
    · rw [if_neg fun hand => h hand.1]
      exact Function.update_of_ne (Ne.symm h) ..
  · rw [if_neg hn, if_neg fun hand => hn hand.2]
    rfl

/-- A gauge does not touch the counters. -/
theorem counters_gaugeSet (m : Dictionaries) (n : String) (value : PyFloat) (given : LabelSet) :
    ((r.call m (.gaugeSet n value given)).getD m).counters = m.counters := by
  rw [Registry.call]
  split <;> rfl

/-- **The dictionaries stay sound** whatever is called. -/
theorem sound_run (calls : List Call) (name : String) :
    Sound ((r.run calls).counters name) ∧ Sound ((r.run calls).gauges name) := by
  induction calls using List.reverseRecOn with
  | nil =>
      refine ⟨⟨List.nodup_nil, List.forall_mem_nil _⟩, ?_⟩
      show Sound (if name ∈ r.zeroed then [([], PyFloat.fin 0)] else [])
      split
      · exact sound_unlabelled _
      · exact ⟨List.nodup_nil, List.forall_mem_nil _⟩
  | append_singleton calls c ih =>
      rw [run_concat]
      cases c with
      | counterInc n given =>
          rw [gauges_counterInc, counters_counterInc]
          refine ⟨?_, ih.2⟩
          split
          · exact ih.1.setItem given _
          · exact ih.1
      | gaugeSet n value given =>
          rw [counters_gaugeSet, gauges_gaugeSet]
          refine ⟨ih.1, ?_⟩
          split
          · exact ih.2.setItem given _
          · exact ih.2

/-- A counter stands at the number of calls which counted it. -/
theorem lookup_counters (hname : name ∈ r.counters) (labels : List (String × String))
    (calls : List Call) :
    ((r.run calls).counters name).lookup (labelKey labels) =
      if calls.countP (Call.counts name labels) = 0 then none
      else some (calls.countP (Call.counts name labels)) := by
  induction calls using List.reverseRecOn with
  | nil => rfl
  | append_singleton calls c ih =>
      rw [run_concat, List.countP_append, List.countP_singleton]
      cases c with
      | counterInc n given =>
          have hcounts : Call.counts name labels (.counterInc n given) = true ↔
              n = name ∧ labelKey given.items = labelKey labels := by
            rw [labelKey_eq_iff given.distinct, Call.counts, Bool.and_eq_true, decide_eq_true_eq,
              List.isPerm_iff]
          rw [counters_counterInc]
          by_cases hn : n = name
          · subst hn
            rw [if_pos ⟨rfl, hname⟩]
            by_cases hkey : labelKey given.items = labelKey labels
            · rw [if_pos (hcounts.mpr ⟨rfl, hkey⟩), hkey, bump, lookup_setItem_self, ih]
              split <;> simp_all
            · rw [if_neg fun h => hkey (hcounts.mp h).2, bump,
                lookup_setItem_ne (Ne.symm hkey), ih, Nat.add_zero]
          · rw [if_neg fun h => hn h.1, if_neg fun h => hn (hcounts.mp h).1, ih, Nat.add_zero]
      | gaugeSet n value given =>
          rw [counters_gaugeSet, ih]
          rfl

/-- A gauge stands at what it was last set to. -/
theorem lookup_gauges (hname : name ∈ r.gauges) (labels : List (String × String))
    (calls : List Call) :
    ((r.run calls).gauges name).lookup (labelKey labels) =
      (calls.reverse.findSome? (Call.sets name labels)).or
        (if name ∈ r.zeroed ∧ labels = [] then some (.fin 0) else none) := by
  induction calls using List.reverseRecOn with
  | nil =>
      show (if name ∈ r.zeroed then [([], PyFloat.fin 0)] else []).lookup (labelKey labels) =
        if name ∈ r.zeroed ∧ labels = [] then some (.fin 0) else none
      by_cases hzeroed : name ∈ r.zeroed
      · by_cases hempty : labels = []
        · rw [if_pos hzeroed, if_pos ⟨hzeroed, hempty⟩, labelKey_eq_nil_iff.mpr hempty]
          rfl
        · rw [if_pos hzeroed, if_neg fun h => hempty h.2, List.lookup_cons,
            beq_eq_false_iff_ne.mpr fun h => hempty (labelKey_eq_nil_iff.mp h)]
          rfl
      · rw [if_neg hzeroed, if_neg fun h => hzeroed h.1]
        rfl
  | append_singleton calls c ih =>
      rw [run_concat, List.reverse_concat, List.findSome?_cons]
      cases c with
      | counterInc n given =>
          rw [gauges_counterInc, ih]
          rfl
      | gaugeSet n value given =>
          have hsets : (n = name ∧ given.items.isPerm labels = true) ↔
              n = name ∧ labelKey given.items = labelKey labels := by
            rw [labelKey_eq_iff given.distinct, List.isPerm_iff]
          rw [gauges_gaugeSet, Call.sets]
          by_cases hn : n = name
          · subst hn
            rw [if_pos ⟨rfl, hname⟩]
            by_cases hkey : labelKey given.items = labelKey labels
            · rw [if_pos (hsets.mpr ⟨rfl, hkey⟩), hkey, lookup_setItem_self]
              rfl
            · rw [if_neg fun h => hkey (hsets.mp h).2, lookup_setItem_ne (Ne.symm hkey), ih]
          · rw [if_neg fun h => hn h.1, if_neg fun h => hn (hsets.mp h).1, ih]

end Runs

/-! ## The text of a registry -/

section Texts

variable {r} {f : Family} {name : String} {calls : List Call} {labels : List (String × String)}

/-- The samples of a metric, as a reader should find them. -/
def Family.samples (f : Family) : List Sample :=
  f.entries.map fun entry => ⟨f.name.toList, texts entry.1, entry.2⟩

def Family.document (f : Family) : List Line :=
  .comment (" TYPE " ++ f.name ++ " " ++ f.kind).toList :: f.samples.map .sample

/-- What holds of each metric that is written. -/
structure Family.WellFormed (f : Family) : Prop where
  sound : Sound f.entries
  named : isMetricName f.name.toList = true
  kind : f.kind = "counter" ∨ f.kind = "gauge"
  numbers : ∀ entry ∈ f.entries, isNumber entry.2 = true

/-- The labels are written as the text format wants them. -/
theorem labelsStr_key {key : List (String × String)} (h : IsKey key) :
    labelsStr (dict key) = labelsText (texts key) := by
  rw [dict_key h, labelsStr, h.labelKey_eq, labelsText, texts]
  by_cases hempty : key = []
  · rw [if_pos hempty, if_pos (List.map_eq_nil_iff.mpr hempty)]
  · rw [if_neg hempty, if_neg (mt List.map_eq_nil_iff.mp hempty), List.map_map]
    rfl

/-- The lines of a family are those of its document. -/
theorem Family.WellFormed.lines_eq (h : f.WellFormed) : f.lines = f.document.map Line.text := by
  rw [Family.lines, Family.document, List.map_cons, Family.samples, List.map_map, List.map_map]
  congr 1
  · simp [Line.text]
  · refine List.map_congr_left fun entry hentry => ?_
    have hkey : IsKey entry.1 := h.sound.isKey _ (List.mem_map_of_mem hentry)
    rw [labelsStr_key hkey]
    rfl

/-- So are its samples. -/
theorem Family.samples_document (f : Family) : f.document.flatMap Line.samples = f.samples := by
  rw [Family.document, List.flatMap_cons, List.flatMap_map]
  exact (List.nil_append _).trans (List.flatMap_singleton' _)

/-- Its samples are well formed. -/
theorem Family.WellFormed.sample (h : f.WellFormed) : ∀ s ∈ f.samples, s.WellFormed := by
  intro s hs
  obtain ⟨entry, hentry, rfl⟩ := List.mem_map.mp hs
  have hkey : IsKey entry.1 := h.sound.isKey _ (List.mem_map_of_mem hentry)
  refine ⟨h.named, fun l hl => ?_, h.numbers entry hentry⟩
  obtain ⟨item, hitem, rfl⟩ := List.mem_map.mp hl
  exact hkey.named item hitem

/-- So are its lines. -/
theorem Family.WellFormed.line (h : f.WellFormed) : ∀ line ∈ f.document, line.WellFormed := by
  refine List.forall_mem_cons.mpr ⟨?_, fun line hline => ?_⟩
  · have hname : ∀ c ∈ f.name.toList, isNameChar c = true :=
      List.all_eq_true.mp (Bool.and_eq_true_iff.mp h.named).1
    have hkind : ∀ c ∈ f.kind.toList, isNameChar c = true := by
      rcases h.kind with hkind | hkind <;> rw [hkind] <;> exact List.all_eq_true.mp (by decide)
    have hchars : ∀ c ∈ (" TYPE " ++ f.name ++ " " ++ f.kind).toList,
        (isNameChar c || c == ' ') = true := by
      simp only [String.toList_append, List.mem_append]
      intro c hc
      rcases hc with ((hc | hc) | hc) | hc
      · exact List.all_eq_true (p := fun c => isNameChar c || c == ' ').mp (by decide) c hc
      · rw [hname c hc, Bool.true_or]
      · exact List.all_eq_true (p := fun c => isNameChar c || c == ' ').mp (by decide) c hc
      · rw [hkind c hc, Bool.true_or]
    exact ⟨fun h => absurd (hchars _ h) (by decide), fun h => absurd (hchars _ h) (by decide)⟩
  · obtain ⟨s, hs, rfl⟩ := List.mem_map.mp hline
    exact h.sample s hs

/-- After any calls every family is well formed. -/
theorem wellFormed_families (calls : List Call) : ∀ f ∈ r.families (r.run calls), f.WellFormed := by
  intro f hf
  rw [Registry.families, List.mem_append, List.mem_append] at hf
  rcases hf with (hf | hf) | hf <;> obtain ⟨name, hname, rfl⟩ := List.mem_map.mp hf
  · refine ⟨(sound_run calls name).1.map natText, r.named name ?_, .inl rfl, fun entry h => ?_⟩
    · exact List.mem_append_left _ (List.mem_append_left _ hname)
    · obtain ⟨e, _, rfl⟩ := List.mem_map.mp h
      exact isNumber_natText e.2
  · refine ⟨(sound_run calls name).2.map PyFloat.repr, r.named name ?_, .inr rfl, fun entry h => ?_⟩
    · exact List.mem_append_left _ (List.mem_append_right _ hname)
    · obtain ⟨e, _, rfl⟩ := List.mem_map.mp h
      exact isNumber_repr e.2
  · refine ⟨sound_unlabelled _, r.named name (List.mem_append_right _ hname), .inr rfl, ?_⟩
    exact List.forall_mem_singleton.mpr (isNumber_natText 1)

/-- The text is that of the samples in the dictionaries. -/
theorem renderMetrics_eq (calls : List Call) :
    r.renderMetrics (r.run calls) =
      document ((r.families (r.run calls)).flatMap Family.document) := by
  have hlines : (r.families (r.run calls)).flatMap Family.lines =
      ((r.families (r.run calls)).flatMap Family.document).map Line.text := by
    rw [List.map_flatMap]
    exact List.flatMap_congr fun f hf => (wellFormed_families calls f hf).lines_eq
  rw [Registry.renderMetrics, hlines, document]

/-- The names of the metrics in a text are distinct. -/
theorem nodup_families (m : Dictionaries) : ((r.families m).map Family.name).Nodup := by
  have hnames : (r.families m).map Family.name = r.counters ++ r.gauges ++ r.constants := by
    simp [Registry.families, Function.comp_def]
  rw [hnames]
  exact r.distinct

/-- The metric of a declared name, with what the calls have made of it. -/
theorem exists_family (calls : List Call) (hname : name ∈ r.counters ++ r.gauges) :
    ∃ f ∈ r.families (r.run calls), f.name = name ∧
      ∀ labels, f.entries.lookup (labelKey labels) = r.expected calls name labels := by
  rcases List.mem_append.mp hname with hcounter | hgauge
  · refine ⟨_, List.mem_append_left _ (List.mem_append_left _ (List.mem_map_of_mem hcounter)), rfl,
      fun labels => ?_⟩
    rw [lookup_map_snd, lookup_counters hcounter, Registry.expected, if_pos hcounter]
    simp only
    split <;> rfl
  · have hcounter : name ∉ r.counters := fun h =>
      (List.nodup_append.mp (List.nodup_append.mp r.distinct).1).2.2 _ h _ hgauge rfl
    refine ⟨_, List.mem_append_left _ (List.mem_append_right _ (List.mem_map_of_mem hgauge)), rfl,
      fun labels => ?_⟩
    rw [lookup_map_snd, lookup_gauges hgauge, Registry.expected, if_neg hcounter, if_pos hgauge]

/-- The samples of a text with a name are those of the metric of the name. -/
theorem filter_samples {families : List Family} (hnodup : (families.map Family.name).Nodup)
    (hf : f ∈ families) (p : Sample → Bool) :
    (families.flatMap Family.samples).filter (fun s => decide (s.name = f.name.toList) && p s) =
      f.samples.filter p := by
  have hother : ∀ g : Family, g.name ≠ f.name →
      g.samples.filter (fun s => decide (s.name = f.name.toList) && p s) = [] := by
    intro g hg
    refine List.filter_eq_nil_iff.mpr fun s hs h => hg ?_
    obtain ⟨entry, _, rfl⟩ := List.mem_map.mp hs
    exact String.toList_inj.mp (of_decide_eq_true (Bool.and_eq_true_iff.mp h).1)
  have hself : f.samples.filter (fun s => decide (s.name = f.name.toList) && p s) =
      f.samples.filter p := by
    refine List.filter_congr fun s hs => ?_
    obtain ⟨entry, _, rfl⟩ := List.mem_map.mp hs
    rw [decide_eq_true rfl, Bool.true_and]
  induction families with
  | nil => cases hf
  | cons g families ih =>
      obtain ⟨hnew, hrest⟩ := List.nodup_cons.mp (List.map_cons ▸ hnodup)
      rw [List.flatMap_cons, List.filter_append]
      rcases List.mem_cons.mp hf with heq | hf
      · subst heq
        have hnone : (families.flatMap Family.samples).filter
            (fun s => decide (s.name = f.name.toList) && p s) = [] := by
          rw [List.filter_flatMap, List.flatMap_eq_nil_iff]
          exact fun g hg => hother g fun h => hnew (h ▸ List.mem_map_of_mem hg)
        rw [hself, hnone, List.append_nil]
      · have hne : g.name ≠ f.name := fun h => hnew (h ▸ List.mem_map_of_mem hf)
        rw [hother g hne, List.nil_append, ih hrest hf]

/-- Labels are the same up to order as strings and as texts. -/
theorem texts_perm_iff {a b : List (String × String)} : (texts a).Perm (texts b) ↔ a.Perm b := by
  refine List.map_perm_map_iff fun x y h => ?_
  exact Prod.ext (String.toList_inj.mp (Prod.mk.inj h).1) (String.toList_inj.mp (Prod.mk.inj h).2)

/-- Of the entries of a metric, at most one has given labels. -/
theorem filter_labels (h : f.WellFormed) (labels : List (String × String)) :
    (f.samples.filter fun s => s.labels.isPerm (texts labels)).map Sample.value =
      (f.entries.lookup (labelKey labels)).toList := by
  have hperm : ∀ entry ∈ f.entries,
      (texts entry.1).isPerm (texts labels) = (labelKey labels == entry.1) := by
    intro entry hentry
    have hkey : IsKey entry.1 := h.sound.isKey _ (List.mem_map_of_mem hentry)
    rw [Bool.eq_iff_iff, List.isPerm_iff, beq_iff_eq, texts_perm_iff,
      ← labelKey_eq_iff hkey.nodup, hkey.labelKey_eq, eq_comm]
  rw [Family.samples, List.filter_map, List.map_map, ← filter_key h.sound.nodup]
  exact congrArg (List.map Prod.snd) (List.filter_congr hperm)

/-- What is written for a metric is what the calls have made. -/
theorem lookup_entries (hf : f ∈ r.families (r.run calls)) (hname : f.name ∈ r.counters ++ r.gauges)
    (labels : List (String × String)) :
    f.entries.lookup (labelKey labels) = r.expected calls f.name labels := by
  obtain ⟨g, hg, hgname, hlookup⟩ := exists_family calls hname
  have hgf : g = f := List.inj_on_of_nodup_map (nodup_families _) hg hf hgname
  rw [← hgf, hgname, hgf]
  exact hgf ▸ hlookup labels

/-- A metric with labels is one of those which calls can touch. -/
theorem mem_of_labels (hf : f ∈ r.families (r.run calls)) {entry : List (String × String) × Text}
    (hentry : entry ∈ f.entries) (hlabels : entry.1 ≠ []) : f.name ∈ r.counters ++ r.gauges := by
  rw [Registry.families, List.mem_append, List.mem_append] at hf
  rcases hf with (hf | hf) | hf <;> obtain ⟨name, hname, rfl⟩ := List.mem_map.mp hf
  · exact List.mem_append_left _ hname
  · exact List.mem_append_right _ hname
  · rw [List.mem_singleton.mp hentry] at hlabels
    exact absurd rfl hlabels

end Texts

/-! ## Calls and samples -/

section Calls

variable {r} {name : String} {calls : List Call} {c : Call} {labels : List (String × String)}

/-- The call is of a metric which the program declares; other calls raise. -/
def Registry.Declares (r : Registry) : Call → Prop
  | .counterInc name _ => name ∈ r.counters
  | .gaugeSet name _ _ => name ∈ r.gauges

/-- What is expected was set by a call, unless it has no labels. -/
theorem exists_call_of_expected {value : Text} (h : r.expected calls name labels = some value) :
    labels = [] ∨ ∃ c ∈ calls, r.Declares c ∧ c.labels.items.Perm labels := by
  rw [Registry.expected] at h
  split at h
  · rename_i hname
    have hpos : 0 < calls.countP (Call.counts name labels) := by
      rcases Nat.eq_zero_or_pos (calls.countP (Call.counts name labels)) with hzero | hpos
      · simp [hzero] at h
      · exact hpos
    obtain ⟨c, hc, hcounts⟩ := List.countP_pos_iff.mp hpos
    cases c with
    | counterInc n given =>
        obtain ⟨hn, hperm⟩ := Bool.and_eq_true_iff.mp hcounts
        exact .inr ⟨_, hc, of_decide_eq_true hn ▸ hname, List.isPerm_iff.mp hperm⟩
    | gaugeSet n value given => cases hcounts
  · split at h
    · rename_i hname
      obtain ⟨x, hx, _⟩ := Option.map_eq_some_iff.mp h
      rcases Option.or_eq_some_iff.mp hx with hx | ⟨_, hx⟩
      · obtain ⟨c, hc, hsets⟩ := List.exists_of_findSome?_eq_some hx
        cases c with
        | counterInc n given => cases hsets
        | gaugeSet n value given =>
            rw [Call.sets] at hsets
            split at hsets
            · rename_i hand
              exact .inr ⟨_, List.mem_reverse.mp hc, hand.1 ▸ hname, List.isPerm_iff.mp hand.2⟩
            · cases hsets
      · split at hx
        · rename_i hand
          exact .inl hand.2
        · cases hx
    · cases h

/-- And what a call has set is expected. -/
theorem expected_of_call (hc : c ∈ calls) (h : r.Declares c) :
    ∃ name ∈ r.counters ++ r.gauges, ∃ value,
      r.expected calls name c.labels.items = some value := by
  cases c with
  | counterInc name given =>
      refine ⟨name, List.mem_append_left _ h, ?_⟩
      have hpos : 0 < calls.countP (Call.counts name given.items) :=
        List.countP_pos_iff.mpr ⟨_, hc, by simp [Call.counts, List.isPerm_iff]⟩
      have hname : name ∈ r.counters := h
      refine ⟨natText (calls.countP (Call.counts name given.items)), ?_⟩
      rw [Registry.expected, if_pos hname]
      exact if_neg hpos.ne'
  | gaugeSet name value given =>
      refine ⟨name, List.mem_append_right _ h, ?_⟩
      have hgauge : name ∈ r.gauges := h
      have hcounter : name ∉ r.counters := fun h =>
        (List.nodup_append.mp (List.nodup_append.mp r.distinct).1).2.2 _ h _ hgauge rfl
      have hsets : (calls.reverse.findSome? (Call.sets name given.items)).isSome = true :=
        List.findSome?_isSome_iff.mpr ⟨_, List.mem_reverse.mpr hc, by
          simp [Call.sets, List.isPerm_iff]⟩
      obtain ⟨x, hx⟩ := Option.isSome_iff_exists.mp hsets
      refine ⟨x.repr, ?_⟩
      rw [Call.labels, Registry.expected, if_neg hcounter, if_pos hgauge, hx]
      rfl

end Calls

/-! ## When the text says what was called -/

section Exposes

variable {r} {f : Family} {calls : List Call}

def strings (labels : List (Text × Text)) : List (String × String) :=
  labels.map fun l => (String.ofList l.1, String.ofList l.2)

/-- Strings are told by their characters. -/
theorem strings_texts (labels : List (String × String)) : strings (texts labels) = labels := by
  rw [strings, texts, List.map_map]
  refine (List.map_congr_left fun l _ => ?_).trans (List.map_id _)
  exact Prod.ext String.ofList_toList String.ofList_toList

/-- And characters by their strings. -/
theorem texts_strings (labels : List (Text × Text)) : texts (strings labels) = labels := by
  rw [strings, texts, List.map_map]
  refine (List.map_congr_left fun l _ => ?_).trans (List.map_id _)
  exact Prod.ext String.toList_ofList String.toList_ofList

/-- What a sample is about: the metric and the key of its labels. -/
def subject (s : Sample) : Text × List (String × String) := (s.name, labelKey (strings s.labels))

/-- The weight of a sample is that of its labels. -/
theorem weight_subject (s : Sample) :
    ((texts (subject s).2).map fun l => weight l.2).sum = s.weight := by
  have hperm : (texts (subject s).2).Perm s.labels := by
    have h := texts_perm_iff.mpr (labelKey_perm (strings s.labels))
    rwa [texts_strings] at h
  exact (hperm.map _).sum_eq

/-- A sum over fewer items is no larger. -/
theorem sum_le_of_subset {α : Type} {W : α → Nat} {l₁ l₂ : List α} (hnodup : l₁.Nodup)
    (h : l₁ ⊆ l₂) : (l₁.map W).sum ≤ (l₂.map W).sum := by
  obtain ⟨l, hperm, hsub⟩ := List.subperm_of_subset hnodup h
  rw [← (hperm.map W).sum_eq]
  exact (hsub.map W).sum_le_sum fun _ _ => Nat.zero_le _

/-- An entry is read back under its name and key. -/
theorem subject_of_entry (h : f.WellFormed) {entry : List (String × String) × Text}
    (hentry : entry ∈ f.entries) :
    subject ⟨f.name.toList, texts entry.1, entry.2⟩ = (f.name.toList, entry.1) := by
  have hkey : IsKey entry.1 := h.sound.isKey _ (List.mem_map_of_mem hentry)
  rw [subject, strings_texts, hkey.labelKey_eq]

/-- No two samples of a registry are about the same. -/
theorem nodup_subjects (calls : List Call) :
    (((r.families (r.run calls)).flatMap Family.samples).map subject).Nodup := by
  have hsubjects : ∀ f ∈ r.families (r.run calls), f.samples.map subject =
      (f.entries.map Prod.fst).map (Prod.mk f.name.toList) := by
    intro f hf
    rw [Family.samples, List.map_map, List.map_map]
    exact List.map_congr_left fun entry h => subject_of_entry (wellFormed_families calls f hf) h
  rw [List.map_flatMap, List.nodup_flatMap]
  refine ⟨fun f hf => ?_, ?_⟩
  · rw [hsubjects f hf]
    exact (wellFormed_families calls f hf).sound.nodup.map fun _ _ h => (Prod.mk.inj h).2
  · refine (List.pairwise_map.mp (nodup_families _)).imp_of_mem fun {f g} hf hg hne => ?_
    show List.Disjoint (f.samples.map subject) (g.samples.map subject)
    rw [hsubjects f hf, hsubjects g hg]
    intro k hkf hkg
    obtain ⟨key, _, rfl⟩ := List.mem_map.mp hkf
    obtain ⟨other, _, heq⟩ := List.mem_map.mp hkg
    exact hne (String.toList_inj.mp (Prod.mk.inj heq).1.symm)

/-- A sum may leave out what counts nothing. -/
theorem sum_filter {α : Type} {W : α → Nat} {p : α → Bool} {l : List α}
    (h : ∀ a ∈ l, p a = false → W a = 0) : ((l.filter p).map W).sum = (l.map W).sum := by
  induction l with
  | nil => rfl
  | cons a l ih =>
      have hrest := ih fun b hb => h b (.tail _ hb)
      cases hp : p a with
      | true => rw [List.filter_cons_of_pos hp, List.map_cons, List.sum_cons, hrest]; rfl
      | false =>
          rw [List.filter_cons_of_neg (by simp [hp]), hrest, List.map_cons, List.sum_cons,
            h a (.head _) hp, Nat.zero_add]

/-- A reader who finds the samples which the calls have made finds all their label values. -/
theorem weight_le_of_exposes {samples : List Sample}
    (h : ∀ name ∈ r.counters ++ r.gauges, ∀ labels : List (String × String),
      ((samples.filter fun s => decide (s.name = name.toList) && s.labels.isPerm (texts labels)).map
        Sample.value) = (r.expected calls name labels).toList) :
    (((r.families (r.run calls)).flatMap Family.samples).map Sample.weight).sum ≤
      (samples.map Sample.weight).sum := by
  let labelled := ((r.families (r.run calls)).flatMap Family.samples).filter fun s =>
    !s.labels.isEmpty
  let W := fun k : Text × List (String × String) => ((texts k.2).map fun l => weight l.2).sum
  have hW : ∀ l : List Sample, ((l.map subject).map W).sum = (l.map Sample.weight).sum := by
    intro l
    rw [List.map_map]
    exact congrArg List.sum (List.map_congr_left fun s _ => weight_subject s)
  have hall : (labelled.map Sample.weight).sum =
      (((r.families (r.run calls)).flatMap Family.samples).map Sample.weight).sum := by
    refine sum_filter fun s _ hs => ?_
    have hempty : s.labels = [] := by simpa using hs
    rw [Sample.weight, hempty]
    rfl
  have hfound : labelled.map subject ⊆ samples.map subject := by
    intro k hk
    obtain ⟨s, hs, rfl⟩ := List.mem_map.mp hk
    obtain ⟨hs, hlabels⟩ := List.mem_filter.mp hs
    obtain ⟨f, hf, hs⟩ := List.mem_flatMap.mp hs
    obtain ⟨entry, hentry, rfl⟩ := List.mem_map.mp hs
    have hwf := wellFormed_families calls f hf
    have hkey : IsKey entry.1 := hwf.sound.isKey _ (List.mem_map_of_mem hentry)
    have hne : entry.1 ≠ [] := fun h => by simp [texts, h] at hlabels
    have hname := mem_of_labels hf hentry hne
    have hexpected : r.expected calls f.name entry.1 = some entry.2 := by
      rw [← lookup_entries hf hname, hkey.labelKey_eq]
      exact (mem_iff_lookup hwf.sound.nodup).mp hentry
    have hvalues := h f.name hname entry.1
    rw [hexpected, Option.toList_some] at hvalues
    obtain ⟨t, ht, _⟩ := List.mem_map.mp (hvalues ▸ List.mem_singleton_self entry.2)
    obtain ⟨ht, hmatch⟩ := List.mem_filter.mp ht
    obtain ⟨htname, htlabels⟩ := Bool.and_eq_true_iff.mp hmatch
    have hperm : entry.1.Perm (strings t.labels) := by
      rw [← texts_perm_iff, texts_strings]
      exact (List.isPerm_iff.mp htlabels).symm
    have hlabels : labelKey (strings t.labels) = entry.1 :=
      ((labelKey_eq_iff hkey.nodup).mpr hperm).symm.trans hkey.labelKey_eq
    refine List.mem_map.mpr ⟨t, ht, ?_⟩
    rw [subject_of_entry hwf hentry, subject, of_decide_eq_true htname, hlabels]
  calc (((r.families (r.run calls)).flatMap Family.samples).map Sample.weight).sum
      = ((labelled.map subject).map W).sum := by rw [hW, hall]
    _ ≤ ((samples.map subject).map W).sum :=
        sum_le_of_subset ((nodup_subjects calls).sublist (List.filter_sublist.map subject)) hfound
    _ = (samples.map Sample.weight).sum := hW samples

/-- The lines of all families have the samples of all families. -/
theorem samples_lines (families : List Family) :
    (families.flatMap Family.document).flatMap Line.samples = families.flatMap Family.samples := by
  rw [List.flatMap_assoc]
  exact List.flatMap_congr fun f _ => f.samples_document

/-- They are well formed. -/
theorem wellFormed_lines (calls : List Call) :
    ∀ line ∈ (r.families (r.run calls)).flatMap Family.document, line.WellFormed := by
  intro line hline
  obtain ⟨f, hf, hline⟩ := List.mem_flatMap.mp hline
  exact (wellFormed_families calls f hf).line line hline

/-- The label values in a text are those which the calls were given. -/
theorem clean_samples_iff (calls : List Call) :
    (∀ s ∈ (r.families (r.run calls)).flatMap Family.samples, ∀ l ∈ s.labels, Clean l.2) ↔
      ∀ c ∈ calls, r.Declares c → ∀ l ∈ c.labels.items, Clean l.2.toList := by
  constructor
  · intro h c hc hdeclares l hl
    obtain ⟨name, hname, value, hexpected⟩ := expected_of_call hc hdeclares
    obtain ⟨f, hf, _, hlookup⟩ := exists_family calls hname
    have hwf := wellFormed_families calls f hf
    have hentry : (labelKey c.labels.items, value) ∈ f.entries :=
      (mem_iff_lookup hwf.sound.nodup).mpr ((hlookup _).trans hexpected)
    refine h _ (List.mem_flatMap.mpr ⟨f, hf, List.mem_map_of_mem hentry⟩)
      (l.1.toList, l.2.toList) ?_
    exact List.mem_map.mpr ⟨l, (labelKey_perm _).symm.subset hl, rfl⟩
  · intro h s hs l hl
    obtain ⟨f, hf, hs⟩ := List.mem_flatMap.mp hs
    obtain ⟨entry, hentry, rfl⟩ := List.mem_map.mp hs
    obtain ⟨item, hitem, rfl⟩ := List.mem_map.mp hl
    have hwf := wellFormed_families calls f hf
    have hkey : IsKey entry.1 := hwf.sound.isKey _ (List.mem_map_of_mem hentry)
    have hne : entry.1 ≠ [] := List.ne_nil_of_mem hitem
    have hexpected : r.expected calls f.name entry.1 = some entry.2 := by
      rw [← lookup_entries hf (mem_of_labels hf hentry hne), hkey.labelKey_eq]
      exact (mem_iff_lookup hwf.sound.nodup).mp hentry
    obtain ⟨c, hc, hdeclares, hperm⟩ := (exists_call_of_expected hexpected).resolve_left hne
    exact h c hc hdeclares item (hperm.symm.subset hitem)

/-- **When the metrics can be read back.**  `render_metrics` writes label values as they are:
the text says what the calls have made exactly when no declared call had a backslash, a
quote or a line feed in a label value. -/
theorem exposes_iff (r : Registry) (calls : List Call) :
    r.Exposes calls (r.renderMetrics (r.run calls)) ↔
      ∀ c ∈ calls, r.Declares c → ∀ l ∈ c.labels.items,
        '\\' ∉ l.2.toList ∧ '"' ∉ l.2.toList ∧ '\n' ∉ l.2.toList := by
  simp only [← clean_iff]
  rw [← clean_samples_iff, renderMetrics_eq]
  constructor
  · intro ⟨samples, hparse, h⟩
    have hfound := weight_le_of_exposes h
    rw [← samples_lines] at hfound ⊢
    exact clean_of_parse (wellFormed_lines calls) hparse hfound
  · intro hclean
    rw [← samples_lines] at hclean
    refine ⟨_, parse_document (wellFormed_lines calls) hclean, fun name hname labels => ?_⟩
    obtain ⟨f, hf, rfl, hlookup⟩ := exists_family calls hname
    rw [samples_lines, filter_samples (nodup_families _) hf, ← hlookup,
      filter_labels (wellFormed_families calls f hf)]

/-- One alert name with a quote, as a false positive is reported with, and no reader gets at
any metric of the server. -/
theorem quoted_alert_unreadable :
    let calls := [Call.counterInc "false_positive_total"
      ⟨[("alertname", "Disk \"sda\" failing")], by decide, by decide⟩]
    parse (webhookServer.renderMetrics (webhookServer.run calls)) = none ∧
      ¬ webhookServer.Exposes calls (webhookServer.renderMetrics (webhookServer.run calls)) := by
  have hparse : parse (webhookServer.renderMetrics (webhookServer.run
      [Call.counterInc "false_positive_total"
        ⟨[("alertname", "Disk \"sda\" failing")], by decide, by decide⟩])) = none := by
    decide +kernel
  refine ⟨hparse, fun ⟨samples, hsamples, _⟩ => ?_⟩
  rw [hparse] at hsamples
  cases hsamples

end Exposes

end FaultOracle.Metrics
