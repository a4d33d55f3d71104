import Mathlib.Data.List.Chain
import Mathlib.Data.List.Perm.Basic
import FaultOracle.PrometheusText

/-!
# Metric families and counters

A text of the Prometheus format is written family by family: a metric with its help and its type,
and its samples.  A reader tells samples apart by their names and label sets, so a text has
to have each of these once, and the counters of successive texts must not fall.

`unambiguous_iff` and `valueOf_exposition` read both off the families that are written.
-/

namespace PrometheusText

/-! ## What a reader asks of texts -/

/-- The samples are of one metric, with one label set. -/
def SameSeries (a b : Sample) : Prop := a.name = b.name ∧ a.labels.Perm b.labels

instance : DecidableRel SameSeries := fun a b =>
  inferInstanceAs (Decidable (a.name = b.name ∧ a.labels.Perm b.labels))

/-- The text can be read, and has no two samples of one series. -/
def Unambiguous (text : Text) : Prop :=
  ∃ samples ∈ parse text, samples.Pairwise fun a b => ¬ SameSeries a b

instance : DecidablePred Unambiguous := fun text =>
  inferInstanceAs (Decidable (∃ samples ∈ parse text, samples.Pairwise fun a b => ¬ SameSeries a b))

/-- The number which digits spell. -/
def numberOf (digits : Text) : Nat := Nat.ofDigitChars 10 digits 0

/-- The number at which a text has a counter; a counter which it does not have stands at zero. -/
def valueOf (text : Text) (name : Text) (labels : List (Text × Text)) : Nat :=
  let samples := (parse text).getD []
  ((samples.find? fun s => decide (s.name = name) && s.labels.isPerm labels).map fun s =>
    numberOf s.value).getD 0

/-- From one text to the next no counter of these metrics falls. -/
def NeverFalls (names : List Text) (texts : List Text) : Prop :=
  texts.IsChain fun a b => ∀ name ∈ names, ∀ labels, valueOf a name labels ≤ valueOf b name labels

/-- Each text is unambiguous, and the counters never fall. -/
def Accumulates (names : List Text) (texts : List Text) : Prop :=
  (∀ text ∈ texts, Unambiguous text) ∧ NeverFalls names texts

/-- The values of a counter which never falls. -/
theorem NeverFalls.values {names texts : List Text} (h : NeverFalls names texts) {name : Text}
    (hname : name ∈ names) (labels : List (Text × Text)) :
    (texts.map fun text => valueOf text name labels).IsChain (· ≤ ·) :=
  (List.isChain_map _).mpr (h.imp fun _ _ hle => hle name hname labels)

/-! ## Families -/

/-- A metric with its samples: their labels, and their numbers as they are written. -/
structure MetricFamily where
  name : Text
  help : Text
  kind : Text
  samples : List (List (Text × Text) × Text)

def MetricFamily.toSamples (f : MetricFamily) : List Sample :=
  f.samples.map fun s => ⟨f.name, s.1, s.2⟩

def MetricFamily.lines (f : MetricFamily) : List Line :=
  .comment (" HELP ".toList ++ f.name ++ ' ' :: f.help) ::
    .comment (" TYPE ".toList ++ f.name ++ ' ' :: f.kind) :: f.toSamples.map .sample

/-- The number at which the samples of a family have a label set. -/
def numberAt (samples : List (List (Text × Text) × Text)) (labels : List (Text × Text)) : Nat :=
  ((samples.find? fun s => s.1.isPerm labels).map fun s => numberOf s.2).getD 0

/-- The text of families. -/
def exposition (families : List MetricFamily) : Text :=
  document (families.flatMap MetricFamily.lines)

/-- What is asked of the texts of a family. -/
def wellNamed (name help kind : Text) : Bool :=
  isMetricName name && (help ++ kind).all fun c => c != '\n' && c != '\\'

/-- What is asked of a family. -/
structure MetricFamily.WellFormed (f : MetricFamily) : Prop where
  named : wellNamed f.name f.help f.kind = true
  labels : ∀ s ∈ f.samples, ∀ l ∈ s.1, isLabelName l.1 = true ∧ Clean l.2
  numbers : ∀ s ∈ f.samples, isNumber s.2 = true

section

variable {f : MetricFamily} {families : List MetricFamily} {labels : List (Text × Text)}

theorem MetricFamily.samples_lines (f : MetricFamily) :
    f.lines.flatMap Line.samples = f.toSamples := by
  rw [MetricFamily.lines, List.flatMap_cons, List.flatMap_cons, List.flatMap_map]
  exact List.flatMap_singleton' _

theorem MetricFamily.WellFormed.line (h : f.WellFormed) : ∀ line ∈ f.lines, line.WellFormed := by
  obtain ⟨hname, hall⟩ := Bool.and_eq_true_iff.mp h.named
  have hfree : ∀ c, isNameChar c = false → c ∉ f.name := fun c hc =>
    List.count_eq_zero.mp (count_of_isNameOf hname hc)
  have hplain : ∀ c ∈ f.help ++ f.kind, c ≠ '\n' ∧ c ≠ '\\' := fun c hc => by
    simpa using List.all_eq_true.mp hall c hc
  have hcomment : ∀ {word text : Text}, '\n' ∉ word ∧ '\\' ∉ word →
      (∀ c ∈ text, c ∈ f.help ++ f.kind) →
      (Line.comment (word ++ f.name ++ ' ' :: text)).WellFormed := by
    intro word text hword htext
    simp only [Line.WellFormed, List.mem_append, List.mem_cons, not_or]
    exact ⟨⟨⟨hword.1, hfree _ (by decide)⟩, by decide, fun h => (hplain _ (htext _ h)).1 rfl⟩,
      ⟨⟨hword.2, hfree _ (by decide)⟩, by decide, fun h => (hplain _ (htext _ h)).2 rfl⟩⟩
  refine List.forall_mem_cons.mpr ⟨hcomment (by decide) fun _ => List.mem_append_left _,
    List.forall_mem_cons.mpr ⟨hcomment (by decide) fun _ => List.mem_append_right _,
      fun line hline => ?_⟩⟩
  obtain ⟨sample, hsample, rfl⟩ := List.mem_map.mp hline
  obtain ⟨s, hs, rfl⟩ := List.mem_map.mp hsample
  exact ⟨hname, fun l hl => (h.labels s hs l hl).1, h.numbers s hs⟩

theorem wellFormed_mk {name help kind : Text} {samples : List (List (Text × Text) × Text)}
    (hnamed : wellNamed name help kind = true)
    (hsamples : ∀ s ∈ samples,
      (∀ l ∈ s.1, isLabelName l.1 = true ∧ Clean l.2) ∧ isNumber s.2 = true) :
    MetricFamily.WellFormed ⟨name, help, kind, samples⟩ :=
  ⟨hnamed, fun s hs => (hsamples s hs).1, fun s hs => (hsamples s hs).2⟩

/-- A family which is written from a list. -/
theorem wellFormed_map {α : Type*} {name help kind : Text} {xs : List α}
    {labelsOf : α → List (Text × Text)} {value : α → Text}
    (hnamed : wellNamed name help kind = true)
    (hlabels : ∀ x, ∀ l ∈ labelsOf x, isLabelName l.1 = true ∧ Clean l.2)
    (hvalue : ∀ x, isNumber (value x) = true) :
    MetricFamily.WellFormed ⟨name, help, kind, xs.map fun x => (labelsOf x, value x)⟩ := by
  refine wellFormed_mk hnamed fun s hs => ?_
  obtain ⟨x, _, rfl⟩ := List.mem_map.mp hs
  exact ⟨hlabels x, hvalue x⟩

/-- A family with one sample, which has no label. -/
theorem wellFormed_unlabelled {name help kind value : Text}
    (hnamed : wellNamed name help kind = true) (hvalue : isNumber value = true) :
    MetricFamily.WellFormed ⟨name, help, kind, [([], value)]⟩ :=
  wellFormed_mk hnamed (List.forall_mem_singleton.mpr ⟨List.forall_mem_nil _, hvalue⟩)

/-- **The samples of families are read back.** -/
theorem parse_exposition (hwf : ∀ f ∈ families, f.WellFormed) :
    parse (exposition families) = some (families.flatMap MetricFamily.toSamples) := by
  have hsamples : (families.flatMap MetricFamily.lines).flatMap Line.samples =
      families.flatMap MetricFamily.toSamples := by
    rw [List.flatMap_assoc]
    exact List.flatMap_congr fun f _ => f.samples_lines
  rw [exposition, parse_document, hsamples]
  · intro line hline
    obtain ⟨f, hf, hline⟩ := List.mem_flatMap.mp hline
    exact (hwf f hf).line line hline
  · rw [hsamples]
    intro sample hsample l hl
    obtain ⟨f, hf, hsample⟩ := List.mem_flatMap.mp hsample
    obtain ⟨s, hs, rfl⟩ := List.mem_map.mp hsample
    exact ((hwf f hf).labels s hs l hl).2

/-- A text of families is unambiguous when no family has a label set twice. -/
theorem unambiguous_iff (hwf : ∀ f ∈ families, f.WellFormed)
    (hnames : (families.map MetricFamily.name).Nodup) :
    Unambiguous (exposition families) ↔
      ∀ f ∈ families, f.samples.Pairwise fun a b => ¬ a.1.Perm b.1 := by
  have hacross : families.Pairwise fun f g =>
      ∀ a ∈ f.toSamples, ∀ b ∈ g.toSamples, ¬ SameSeries a b := by
    refine (List.pairwise_map.mp hnames).imp fun hne a ha b hb hsame => hne ?_
    obtain ⟨_, _, rfl⟩ := List.mem_map.mp ha
    obtain ⟨_, _, rfl⟩ := List.mem_map.mp hb
    exact hsame.1
  have hwithin : ∀ f : MetricFamily, (f.toSamples.Pairwise fun a b => ¬ SameSeries a b) ↔
      f.samples.Pairwise fun a b => ¬ a.1.Perm b.1 := by
    intro f
    rw [MetricFamily.toSamples, List.pairwise_map]
    simp only [SameSeries, true_and]
  have hread : Unambiguous (exposition families) ↔
      (families.flatMap MetricFamily.toSamples).Pairwise fun a b => ¬ SameSeries a b := by
    rw [Unambiguous, parse_exposition hwf]
    simp
  rw [hread, List.pairwise_flatMap]
  simp only [hwithin]
  exact and_iff_left hacross

/-- The samples of a metric are those of its family. -/
theorem filter_toSamples (hnames : (families.map MetricFamily.name).Nodup) (hf : f ∈ families) :
    ((families.flatMap MetricFamily.toSamples).filter fun s => s.name = f.name) = f.toSamples := by
  have hself : (f.toSamples.filter fun s => s.name = f.name) = f.toSamples := by
    refine List.filter_eq_self.mpr fun s hs => ?_
    obtain ⟨_, _, rfl⟩ := List.mem_map.mp hs
    exact decide_eq_true rfl
  have hother : ∀ g : MetricFamily, g.name ≠ f.name →
      (g.toSamples.filter fun s => s.name = f.name) = [] := by
    intro g hne
    refine List.filter_eq_nil_iff.mpr fun s hs h => hne ?_
    obtain ⟨_, _, rfl⟩ := List.mem_map.mp hs
    exact of_decide_eq_true h
  induction families with
  | nil => cases hf
  | cons g families ih =>
      obtain ⟨hnew, hrest⟩ := List.nodup_cons.mp (List.map_cons ▸ hnames)
      rw [List.flatMap_cons, List.filter_append]
      rcases List.mem_cons.mp hf with rfl | hf
      · have hnone : ((families.flatMap MetricFamily.toSamples).filter
            fun s => s.name = f.name) = [] := by
          rw [List.filter_flatMap, List.flatMap_eq_nil_iff]
          exact fun other hmem => hother other fun h => hnew (h ▸ List.mem_map_of_mem hmem)
        rw [hself, hnone, List.append_nil]
      · have hne : g.name ≠ f.name := fun h => hnew (h ▸ List.mem_map_of_mem hf)
        rw [hother g hne, List.nil_append]
        exact ih hrest hf

theorem valueOf_exposition (hwf : ∀ f ∈ families, f.WellFormed)
    (hnames : (families.map MetricFamily.name).Nodup) (hf : f ∈ families)
    (labels : List (Text × Text)) :
    valueOf (exposition families) f.name labels = numberAt f.samples labels := by
  have hfind : ((families.flatMap MetricFamily.toSamples).find? fun s =>
        decide (s.name = f.name) && s.labels.isPerm labels) =
      (f.samples.find? fun s => s.1.isPerm labels).map fun s => ⟨f.name, s.1, s.2⟩ := by
    have hwithin : ((families.flatMap MetricFamily.toSamples).find? fun s =>
          decide (s.name = f.name) && s.labels.isPerm labels) =
        f.toSamples.find? fun s => s.labels.isPerm labels := by
      rw [← filter_toSamples hnames hf, List.find?_filter]
      simp
    rw [hwithin, MetricFamily.toSamples, List.find?_map]
    rfl
  rw [valueOf, parse_exposition hwf, Option.getD_some, numberAt]
  simp only [hfind, Option.map_map, Function.comp_def]

/-- Label lists with the same names in one order are one label set only if they are equal. -/
theorem labels_perm_iff {a b : List (Text × Text)} (hnames : a.map Prod.fst = b.map Prod.fst)
    (hnodup : (a.map Prod.fst).Nodup) : a.Perm b ↔ a = b := by
  refine ⟨fun h => ?_, fun h => h ▸ List.Perm.refl _⟩
  induction a generalizing b with
  | nil => exact h.nil_eq
  | cons l a ih =>
      cases b with
      | nil => cases h.eq_nil
      | cons m b =>
          obtain ⟨hlm, hrest⟩ := List.cons_eq_cons.mp hnames
          obtain ⟨hnew, hnodup⟩ := List.nodup_cons.mp hnodup
          have hmem : l ∈ m :: b := h.subset (.head _)
          have heq : l = m := by
            refine (List.mem_cons.mp hmem).resolve_right fun hb => hnew ?_
            rw [hrest]
            exact List.mem_map_of_mem hb
          subst heq
          rw [ih hrest hnodup (List.perm_cons l |>.mp h)]

/-- Samples which are written for different keys are of different series. -/
theorem pairwise_labels_iff {α κ : Type*} {xs : List α} {key : α → κ}
    {labelsOf : α → List (Text × Text)} {value : α → Text}
    (hkey : ∀ a b, (labelsOf a).Perm (labelsOf b) ↔ key a = key b) :
    ((xs.map fun x => (labelsOf x, value x)).Pairwise fun a b => ¬ a.1.Perm b.1) ↔
      (xs.map key).Nodup := by
  rw [List.pairwise_map, List.Nodup, List.pairwise_map]
  simp only [hkey, ne_eq]

/-! ### Families written from a list -/

section

variable {α κ : Type*} {xs ys : List α} {x : α} {key : α → κ} {labelsOf : α → List (Text × Text)}
  {v w : α → Text}

/-- A label set which nothing is written for has no number. -/
theorem numberAt_eq_zero (h : ∀ x ∈ xs, ¬ (labelsOf x).Perm labels) :
    numberAt (xs.map fun x => (labelsOf x, v x)) labels = 0 := by
  have hnone : (xs.map fun x => (labelsOf x, v x)).find? (fun s => s.1.isPerm labels) = none := by
    refine List.find?_eq_none.mpr fun s hs hperm => ?_
    obtain ⟨x, hx, rfl⟩ := List.mem_map.mp hs
    exact h x hx (List.isPerm_iff.mp hperm)
  rw [numberAt, hnone]
  rfl

/-- Of different keys, each label set has the number which is written for it. -/
theorem numberAt_of_mem (hkey : ∀ a b, (labelsOf a).Perm (labelsOf b) ↔ key a = key b)
    (hxs : (xs.map key).Nodup) (hx : x ∈ xs) (hperm : (labelsOf x).Perm labels) :
    numberAt (xs.map fun x => (labelsOf x, v x)) labels = numberOf (v x) := by
  have hfind : (xs.map fun x => (labelsOf x, v x)).find? (fun s => s.1.isPerm labels) =
      some (labelsOf x, v x) := by
    induction xs with
    | nil => cases hx
    | cons y xs ih =>
        obtain ⟨hnew, hrest⟩ := List.nodup_cons.mp (List.map_cons ▸ hxs)
        rw [List.map_cons]
        rcases List.mem_cons.mp hx with rfl | hx
        · exact List.find?_cons_of_pos (List.isPerm_iff.mpr hperm)
        · rw [List.find?_cons_of_neg, ih hrest hx]
          intro hy
          have hyx : key y = key x :=
            (hkey y x).mp ((List.isPerm_iff.mp hy).trans hperm.symm)
          exact hnew (hyx ▸ List.mem_map_of_mem hx)
  rw [numberAt, hfind]
  rfl

/-- A counter does not fall when each key that has counted is written again with no less. -/
theorem numberAt_le_iff (hkey : ∀ a b, (labelsOf a).Perm (labelsOf b) ↔ key a = key b)
    (hxs : (xs.map key).Nodup) (hys : (ys.map key).Nodup) :
    (∀ labels, numberAt (xs.map fun x => (labelsOf x, v x)) labels ≤
        numberAt (ys.map fun y => (labelsOf y, w y)) labels) ↔
      ∀ x ∈ xs, 0 < numberOf (v x) → ∃ y ∈ ys, key y = key x ∧ numberOf (v x) ≤ numberOf (w y) := by
  constructor
  · intro h x hx hpos
    have hle := h (labelsOf x)
    rw [numberAt_of_mem hkey hxs hx (List.Perm.refl _)] at hle
    by_cases hy : ∃ y ∈ ys, key y = key x
    · obtain ⟨y, hy, hyx⟩ := hy
      rw [numberAt_of_mem hkey hys hy ((hkey y x).mpr hyx)] at hle
      exact ⟨y, hy, hyx, hle⟩
    · rw [numberAt_eq_zero fun y hmem hperm => hy ⟨y, hmem, (hkey y x).mp hperm⟩] at hle
      omega
  · intro h labels
    by_cases hx : ∃ x ∈ xs, (labelsOf x).Perm labels
    · obtain ⟨x, hx, hperm⟩ := hx
      rw [numberAt_of_mem hkey hxs hx hperm]
      rcases Nat.eq_zero_or_pos (numberOf (v x)) with hzero | hpos
      · rw [hzero]
        exact Nat.zero_le _
      · obtain ⟨y, hy, hyx, hle⟩ := h x hx hpos
        rw [numberAt_of_mem hkey hys hy (((hkey y x).mpr hyx).trans hperm)]
        exact hle
    · rw [numberAt_eq_zero fun x hmem hperm => hx ⟨x, hmem, hperm⟩]
      exact Nat.zero_le _

end

end

/-- Runs accumulate when the text of each is unambiguous and each keeps the counters of the
one before. -/
theorem accumulates_iff {α : Type*} {emit : α → Text} {names : List Text} {P : α → Prop}
    {Keeps : α → α → Prop} (hP : ∀ a, Unambiguous (emit a) ↔ P a)
    (hKeeps : ∀ a b, P a → P b → ((∀ name ∈ names, ∀ labels,
      valueOf (emit a) name labels ≤ valueOf (emit b) name labels) ↔ Keeps a b))
    (runs : List α) :
    Accumulates names (runs.map emit) ↔ (∀ a ∈ runs, P a) ∧ runs.IsChain Keeps := by
  rw [Accumulates, NeverFalls, List.isChain_map, List.forall_mem_map]
  simp only [hP]
  refine and_congr_right fun hall => ?_
  exact List.IsChain.iff_of_mem_imp fun a b ha hb => hKeeps a b (hall a ha) (hall b hb)

end PrometheusText
