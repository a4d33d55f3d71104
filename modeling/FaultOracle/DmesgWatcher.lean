import FaultOracle.EdacPatterns
import FaultOracle.RegexSubstitution
import FaultOracle.TraceParserErrors

/-!
# The dmesg watcher

`parse_dmesg_line` of `correlation/dmesg_watcher.py` looks a kernel line up in a table of
patterns, while the trace parser tries its own patterns on the replayed line.  What the
patterns of the two ask of a text is said here without reference to matching; the parser
tells the type of a line by the first of `CeCount`, `UeCount`, `Corrected` and `Uncorrected`
which the line has (`report_type_iff`).
-/

namespace FaultOracle.Dmesg

open BacktrackingRegex PythonFloats FaultOracle.Trace
open FaultOracle.Remediation (isPySpace strip)

/-! ## The table -/

inductive DmesgType
  | edacCe
  | edacUe
  | mce
  | pcieAerCorrectable
  | pcieAerNonfatal
  | pcieAerFatal
  | cxlCe
  | cxlUe
  | thermalCritical
  | undervoltage
deriving DecidableEq, Repr

/-- An entry of `PATTERNS`, with the number of groups of its pattern. -/
structure Pattern where
  regex : Re
  groups : Nat
  eventType : DmesgType
  severity : String

/-- Texts with anything between them, `a.*b.*c`. -/
def apart : List Re → Re
  | [] => .empty
  | [a] => a
  | a :: rest => a ++ .star isDot ++ apart rest

/-- `a.b.c`, where a dot is one character. -/
def dotted : List Text → Re
  | [] => .empty
  | [a] => Re.lit a
  | a :: rest => Re.lit a ++ .one isDot ++ dotted rest

def mceText : Text := "mce: [Hardware Error]: Machine check events logged".toList

section Watcher

variable (U : CharTables)

/-- `EDAC MC(\d+): (\d+) CE`, or with the other kind. -/
def edacPattern (kind : Text) : Re :=
  Re.lit "EDAC MC".toList ++ .group 1 (Re.plus U.isDigit) ++ Re.lit ": ".toList ++
    .group 2 (Re.plus U.isDigit) ++ Re.lit (' ' :: kind)

/-- `PATTERNS`. -/
def patterns : List Pattern :=
  let pcieport := Re.lit "pcieport".toList
  let aer := Re.lit "AER".toList
  let cxl := Re.lit "cxl".toList
  [⟨edacPattern U "CE".toList, 2, .edacCe, "warning"⟩,
    ⟨edacPattern U "UE".toList, 2, .edacUe, "critical"⟩,
    ⟨Re.lit mceText, 0, .mce, "critical"⟩,
    ⟨apart [pcieport, aer, Re.lit "Corrected error".toList], 0, .pcieAerCorrectable, "info"⟩,
    ⟨apart [pcieport, aer, dotted ["Uncorrected ".toList, "Non-Fatal".toList, " error".toList]], 0,
      .pcieAerNonfatal, "warning"⟩,
    ⟨apart [pcieport, aer, dotted ["Uncorrected ".toList, "Fatal".toList, " error".toList]], 0,
      .pcieAerFatal, "critical"⟩,
    ⟨apart [cxl, Re.lit "correctable error".toList], 0, .cxlCe, "warning"⟩,
    ⟨apart [cxl, Re.lit "uncorrectable error".toList], 0, .cxlUe, "critical"⟩,
    ⟨Re.lit "thermal thermal_zone".toList ++ .group 1 (Re.plus U.isDigit) ++
      Re.lit ": critical temperature reached".toList, 1, .thermalCritical, "critical"⟩,
    ⟨Re.lit "Under-voltage detected".toList, 0, .undervoltage, "warning"⟩]

/-- `^\[\s*(\d+\.\d+)\]\s*(.*)`. -/
def reKernelLine : Re :=
  .atStart ++ (Re.lit "[".toList ++ .star isPySpace ++
    .group 1 (Re.plus U.isDigit ++ Re.lit ".".toList ++ Re.plus U.isDigit) ++
    Re.lit "]".toList ++ .star isPySpace ++ .group 2 (.star isDot))

/-- What `parse_dmesg_line` returns. -/
structure DmesgEvent where
  timestamp : ℚ
  kernelTs : PyFloat
  eventType : DmesgType
  severity : String
  message : Text
  groups : List (Option Text)

/-- The event of a message under one pattern. -/
def Pattern.event (p : Pattern) (now : ℚ) (kernelTs : PyFloat) (message : Text) :
    Option DmesgEvent :=
  (p.regex.search message).map fun m =>
    { timestamp := now
      kernelTs := kernelTs
      eventType := p.eventType
      severity := p.severity
      message := message
      groups := (List.range p.groups).map fun i => m.groups (i + 1) }

/-- `parse_dmesg_line`, at a reading of the clock. -/
def parseDmesgLine (now : ℚ) (line : Text) : Option DmesgEvent :=
  match (reKernelLine U).matchStart line with
  | none => none
  | some m =>
      let kernelTs := U.parseFloat ((m.groups 1).getD [])
      let message := strip ((m.groups 2).getD [])
      (patterns U).findSome? fun p => p.event now kernelTs message

end Watcher

/-! ## What the parser asks of a text -/

section Texts

variable (U : CharTables)

/-- `EDAC MC0: 1 CE` or the like, with any white space. -/
def CountText (kind w : Text) : Prop :=
  ∃ s₁ d₁ s₂ d₂ s₃, Spaces s₁ ∧ U.Digits d₁ ∧ Spaces s₂ ∧ U.Digits d₂ ∧ Spaces s₃ ∧
    w = "EDAC".toList ++ s₁ ++ ("MC".toList ++ d₁) ++ ":".toList ++ s₂ ++ d₂ ++ s₃ ++ kind

/-- Behind `u`, the text goes on with a count, and its kind is a word. -/
def CountAt (kind u text : Text) : Prop :=
  ∃ w v, text = u ++ (w ++ v) ∧ CountText U kind w ∧ Stops U.isWord v

/-- A count of correctable errors, with no `UE` before it. -/
def CeCount (text : Text) : Prop := ∃ u, CountAt U "CE".toList u text ∧ ¬ "UE".toList <:+: u

def UeCount (text : Text) : Prop := ∃ u, CountAt U "UE".toList u text

/-- `AER: Corrected error received: ` and the begin of an address. -/
def Corrected (text : Text) : Prop :=
  ∃ s s' c, Spaces s ∧ Spaces s' ∧ U.isAddressChar c = true ∧
    "AER:".toList ++ s ++ "Corrected error received:".toList ++ s' ++ [c] <:+: text

/-- `AER: Uncorrected (Non-Fatal) error received: ` and the begin of an address, with any
word between the parentheses. -/
def Uncorrected (text : Text) : Prop :=
  ∃ s s' w s'' s''' c, Spaces s ∧ Spaces s' ∧
    (w ≠ [] ∧ ∀ x ∈ w, (U.isWord x || x == '-') = true) ∧ Spaces s'' ∧ Spaces s''' ∧
      U.isAddressChar c = true ∧
        "AER:".toList ++ s ++ "Uncorrected".toList ++ s' ++ "(".toList ++ w ++ ")".toList ++ s'' ++
          "error received:".toList ++ s''' ++ [c] <:+: text

/-- The text tells an error of a type, and none of those that come first. -/
def Tells (text : Text) : EventType → Prop
  | .ce => CeCount U text
  | .ue => ¬ CeCount U text ∧ UeCount U text
  | .aerCe => ¬ CeCount U text ∧ ¬ UeCount U text ∧ Corrected U text
  | .aerUe => ¬ CeCount U text ∧ ¬ UeCount U text ∧ ¬ Corrected U text ∧ Uncorrected U text
  | .mce => ¬ CeCount U text ∧ ¬ UeCount U text ∧ ¬ Corrected U text ∧ ¬ Uncorrected U text

end Texts

/-! ## Counts -/

section Counts

variable {U : CharTables} {kind text u : Text}

/-- The pattern of a count without the end of the word. -/
def countRe (U : CharTables) (kind : Text) : Re :=
  Re.lit "EDAC".toList ++ Re.plus isPySpace ++
    .group 1 (Re.lit "MC".toList ++ Re.plus U.isDigit) ++ Re.lit ":".toList ++
    Re.plus isPySpace ++ .group 2 (Re.plus U.isDigit) ++ Re.plus isPySpace ++ Re.lit kind

/-- The count's pattern matches a number and its kind. -/
theorem lang_countRe {w : Text} : (countRe U kind).Lang w ↔ CountText U kind w := by
  simp only [countRe, lang_append, lang_lit, lang_group, lang_plus]
  constructor
  · intro h
    obtain ⟨_, _, ⟨_, s₃, ⟨_, d₂, ⟨_, s₂, ⟨_, _, ⟨_, _, ⟨_, s₁, rfl, h₁, rfl⟩, ⟨_, d₁, rfl, h₂, rfl⟩,
      rfl⟩, rfl, rfl⟩, h₃, rfl⟩, h₄, rfl⟩, h₅, rfl⟩, rfl, hw⟩ := h
    exact ⟨s₁, d₁, s₂, d₂, s₃, h₁, h₂, h₃, h₄, h₅, hw⟩
  · intro h
    obtain ⟨s₁, d₁, s₂, d₂, s₃, h₁, h₂, h₃, h₄, h₅, hw⟩ := h
    exact ⟨_, _, ⟨_, s₃, ⟨_, d₂, ⟨_, s₂, ⟨_, _, ⟨_, _, ⟨_, s₁, rfl, h₁, rfl⟩, ⟨_, d₁, rfl, h₂, rfl⟩,
      rfl⟩, rfl, rfl⟩, h₃, rfl⟩, h₄, rfl⟩, h₅, rfl⟩, rfl, hw⟩

/-- The pattern with its groups matches as the count before a word's end. -/
theorem matchFrom_reEdac (before after : Text) :
    (reEdac U kind).matchFrom before after =
      (countRe U kind ++ Re.boundary U.isWord).matchFrom before after := by
  rw [Re.matchFrom, Re.matchFrom, Re.first, Re.first, countRe, run_append_assoc]
  rfl

/-- The pattern matches behind `u`, if a count stands there. -/
theorem matchFrom_reEdac_isSome_iff {front : Text} {c : Char} (hkind : kind = front ++ [c])
    (hc : U.isWord c = true) {after : Text} :
    ((reEdac U kind).matchFrom u.reverse after).isSome ↔ CountAt U kind u (u ++ after) := by
  have hplain : (countRe U kind).Plain := by simp [countRe]
  rw [matchFrom_reEdac, matchFrom_boundary_isSome_iff hplain]
  have hedge {w v : Text} (hw : CountText U kind w) :
      wordEdge U.isWord (w.reverse ++ u.reverse) v = true ↔ Stops U.isWord v := by
    obtain ⟨s₁, d₁, s₂, d₂, s₃, _, _, _, _, _, rfl⟩ := hw
    rw [hkind, ← List.append_assoc, List.reverse_append]
    exact wordEdge_of_wordEnd hc _ _
  constructor
  · intro ⟨w, v, hafter, hlang, hend⟩
    have hw := lang_countRe.mp hlang
    exact ⟨w, v, by rw [hafter], hw, (hedge hw).mp hend⟩
  · intro ⟨w, v, hafter, hw, hstops⟩
    exact ⟨w, v, List.append_cancel_left hafter, lang_countRe.mpr hw, (hedge hw).mpr hstops⟩

/-- The letter E is a word character. -/
theorem isWord_E : U.isWord 'E' = true := by
  rw [U.isWord_ascii _ (by decide)]
  decide

/-- The pattern matches exactly where a count stands. -/
theorem matchFrom_kind_isSome_iff {k : Char} {after : Text} :
    ((reEdac U [k, 'E']).matchFrom u.reverse after).isSome ↔ CountAt U [k, 'E'] u (u ++ after) :=
  matchFrom_reEdac_isSome_iff (show [k, 'E'] = [k] ++ ['E'] from rfl) isWord_E

/-- The pattern is found exactly when a count stands somewhere. -/
theorem search_kind_isSome_iff {k : Char} :
    ((reEdac U [k, 'E']).search text).isSome ↔ ∃ u, CountAt U [k, 'E'] u text := by
  rw [search_isSome_iff]
  constructor
  · intro ⟨u, v, hsplit, hmatch⟩
    exact ⟨u, hsplit ▸ matchFrom_kind_isSome_iff.mp hmatch⟩
  · intro ⟨u, w, v, hsplit, hcount⟩
    exact ⟨u, w ++ v, hsplit, matchFrom_kind_isSome_iff.mpr ⟨w, v, rfl, hcount⟩⟩

/-- A count of uncorrected errors is what the pattern finds. -/
theorem ueCount_iff : UeCount U text ↔ ((reEdacUe U).search text).isSome :=
  search_kind_isSome_iff.symm

/-- Of the counts of correctable errors, the leftmost has the least before it. -/
theorem ceCount_iff :
    CeCount U text ↔ ∃ m ∈ (reEdacCe U).search text, ¬ "UE".toList <:+: m.pre := by
  constructor
  · intro ⟨u, hcount, hfree⟩
    obtain ⟨m, hm⟩ := Option.isSome_iff_exists.mp (search_kind_isSome_iff.mpr ⟨u, hcount⟩)
    obtain ⟨w, v, hsplit, hw, hstops⟩ := hcount
    have hmatch : ((reEdacCe U).matchFrom u.reverse (w ++ v)).isSome :=
      matchFrom_kind_isSome_iff.mpr ⟨w, v, rfl, hw, hstops⟩
    have hpre : m.pre <+: u := search_leftmost hm hsplit hmatch
    exact ⟨m, hm, fun hinside => hfree (hinside.trans hpre.isInfix)⟩
  · intro ⟨m, hm, hfree⟩
    obtain ⟨skipped, rest, hsplit, hmatch, _⟩ := searchFrom_eq_some hm
    rw [List.append_nil] at hmatch
    have hpre : m.pre = skipped := by simpa using matchFrom_pre hmatch
    have hcount := matchFrom_kind_isSome_iff.mp (Option.isSome_iff_exists.mpr ⟨m, hmatch⟩)
    exact ⟨skipped, hsplit ▸ hcount, hpre ▸ hfree⟩

end Counts

/-! ## Reports of PCIe errors -/

section Aer

variable {U : CharTables} {text : Text}

/-- A pattern occurs exactly when a text of its language does. -/
theorem occurs_iff_isInfix {re : Re} : re.Occurs text ↔ ∃ w, re.Lang w ∧ w <:+: text := by
  constructor
  · exact Re.Occurs.exists_infix
  · intro ⟨w, hw, u, v, hsplit⟩
    exact ⟨u, w ++ v, by rw [← hsplit, List.append_assoc], w, hw, List.prefix_append w v⟩

/-- Of an address, one character is enough. -/
theorem infix_address_iff {front : Text} :
    (∃ a, (a ≠ [] ∧ ∀ c ∈ a, U.isAddressChar c = true) ∧ front ++ a <:+: text) ↔
      ∃ c, U.isAddressChar c = true ∧ front ++ [c] <:+: text := by
  constructor
  · intro ⟨a, ⟨hne, hall⟩, hpart⟩
    obtain ⟨c, a, rfl⟩ := List.exists_cons_of_ne_nil hne
    refine ⟨c, hall c List.mem_cons_self, List.IsInfix.trans ?_ hpart⟩
    exact ⟨[], a, by simp⟩
  · intro ⟨c, hc, hpart⟩
    exact ⟨[c], ⟨List.cons_ne_nil _ _, fun d hd => List.mem_singleton.mp hd ▸ hc⟩, hpart⟩

/-- Being corrected is what the pattern finds. -/
theorem corrected_iff : Corrected U text ↔ ((reAerCorrected U).search text).isSome := by
  have hplain : (reAerCorrected U).Plain := by simp [reAerCorrected]
  rw [hplain.search_isSome_iff, occurs_iff_isInfix]
  simp only [reAerCorrected, lang_append, lang_lit, lang_group, lang_plus]
  constructor
  · intro h
    obtain ⟨s₁, s₂, c, h₁, h₂, hc, hpart⟩ := h
    exact ⟨_, ⟨_, [c], ⟨_, s₂, ⟨_, _, ⟨_, s₁, rfl, h₁, rfl⟩, rfl, rfl⟩, h₂, rfl⟩,
      ⟨List.cons_ne_nil _ _, fun d hd => List.mem_singleton.mp hd ▸ hc⟩, rfl⟩, hpart⟩
  · intro h
    obtain ⟨_, ⟨_, a, ⟨_, s₂, ⟨_, _, ⟨_, s₁, rfl, h₁, rfl⟩, rfl, rfl⟩, h₂, rfl⟩, ha, rfl⟩, hpart⟩ := h
    obtain ⟨c, hc, hpart⟩ := infix_address_iff.mp ⟨a, ha, hpart⟩
    exact ⟨s₁, s₂, c, h₁, h₂, hc, hpart⟩

/-- Being uncorrected is what the pattern finds. -/
theorem uncorrected_iff : Uncorrected U text ↔ ((reAerUncorrected U).search text).isSome := by
  have hplain : (reAerUncorrected U).Plain := by simp [reAerUncorrected]
  rw [hplain.search_isSome_iff, occurs_iff_isInfix]
  simp only [reAerUncorrected, lang_append, lang_lit, lang_group, lang_plus]
  constructor
  · intro h
    obtain ⟨s₁, s₂, w, s₃, s₄, c, h₁, h₂, hw, h₃, h₄, hc, hpart⟩ := h
    exact ⟨_, ⟨_, [c], ⟨_, s₄, ⟨_, _, ⟨_, s₃, ⟨_, _, ⟨_, w, ⟨_, _, ⟨_, s₂, ⟨_, _,
      ⟨_, s₁, rfl, h₁, rfl⟩, rfl, rfl⟩, h₂, rfl⟩, rfl, rfl⟩, hw, rfl⟩, rfl, rfl⟩, h₃, rfl⟩,
      rfl, rfl⟩, h₄, rfl⟩, ⟨List.cons_ne_nil _ _, fun d hd => List.mem_singleton.mp hd ▸ hc⟩,
      rfl⟩, hpart⟩
  · intro h
    obtain ⟨_, ⟨_, a, ⟨_, s₄, ⟨_, _, ⟨_, s₃, ⟨_, _, ⟨_, w, ⟨_, _, ⟨_, s₂, ⟨_, _,
      ⟨_, s₁, rfl, h₁, rfl⟩, rfl, rfl⟩, h₂, rfl⟩, rfl, rfl⟩, hw, rfl⟩, rfl, rfl⟩, h₃, rfl⟩,
      rfl, rfl⟩, h₄, rfl⟩, ha, rfl⟩, hpart⟩ := h
    obtain ⟨c, hc, hpart⟩ := infix_address_iff.mp ⟨a, ha, hpart⟩
    exact ⟨s₁, s₂, w, s₃, s₄, c, h₁, h₂, hw, h₃, h₄, hc, hpart⟩

end Aer

/-! ## What a line reports -/

section Reports

variable {U : CharTables} {clean : Text}

/-- The type of the event that a report becomes. -/
def reportType : Report → EventType
  | .edac type _ => type
  | .aer type _ => type
  | .mce => .mce

/-- A count follows the driver's name. -/
theorem infix_of_count {kind u : Text} (h : CountAt U kind u clean) :
    "EDAC".toList <:+: clean := by
  obtain ⟨w, v, rfl, ⟨s₁, d₁, s₂, d₂, s₃, _, _, _, _, _, rfl⟩, _⟩ := h
  exact ⟨u, s₁ ++ ("MC".toList ++ d₁) ++ ":".toList ++ s₂ ++ d₂ ++ s₃ ++ kind ++ v, by simp⟩

/-- A count of correctable errors is reported. -/
theorem tryEdac_ce (h : CeCount U clean) :
    ∃ m ∈ (reEdacCe U).search clean, tryEdac U clean = some (.edac .ce m) := by
  obtain ⟨m, hm, hfree⟩ := ceCount_iff.mp h
  obtain ⟨u, hcount, _⟩ := h
  refine ⟨m, hm, ?_⟩
  rw [tryEdac, if_pos (infix_of_count hcount), Option.mem_def.mp hm]
  exact if_neg hfree

/-- Without one, a count of uncorrectable errors is. -/
theorem tryEdac_ue (h : ¬ CeCount U clean) :
    tryEdac U clean = ((reEdacUe U).search clean).map (Report.edac .ue) := by
  unfold tryEdac
  by_cases hword : "EDAC".toList <:+: clean
  · rw [if_pos hword]
    cases hm : (reEdacCe U).search clean with
    | none => rfl
    | some m =>
        have hinside : "UE".toList <:+: m.pre := by
          by_contra hfree
          exact h (ceCount_iff.mpr ⟨m, hm, hfree⟩)
        exact if_pos hinside
  · rw [if_neg hword]
    cases hm : (reEdacUe U).search clean with
    | none => rfl
    | some m =>
        obtain ⟨u, hcount⟩ := ueCount_iff.mpr (Option.isSome_iff_exists.mpr ⟨m, hm⟩)
        exact absurd (infix_of_count hcount) hword

theorem infix_of_append {a b : Text} (h : a ++ b <:+: clean) : a <:+: clean :=
  List.IsInfix.trans ⟨[], b, rfl⟩ h

/-- The parser looks for `AER` first, which its patterns begin with. -/
theorem tryAer_eq :
    tryAer U clean = match (reAerCorrected U).search clean with
      | some m => some (.aer .aerCe ((m.groups 1).getD []))
      | none => ((reAerUncorrected U).search clean).map
          fun m => .aer .aerUe ((m.groups 2).getD []) := by
  unfold tryAer
  by_cases hword : "AER".toList <:+: clean
  · exact if_pos hword
  · have hcolon : "AER:".toList = "AER".toList ++ ":".toList := rfl
    have hcorrected : (reAerCorrected U).search clean = none := by
      rw [← Option.not_isSome_iff_eq_none, ← corrected_iff]
      intro ⟨s₁, s₂, c, _, _, _, hpart⟩
      rw [hcolon] at hpart
      simp only [List.append_assoc] at hpart
      exact hword (infix_of_append hpart)
    have huncorrected : (reAerUncorrected U).search clean = none := by
      rw [← Option.not_isSome_iff_eq_none, ← uncorrected_iff]
      intro ⟨s₁, s₂, w, s₃, s₄, c, _, _, _, _, _, _, hpart⟩
      rw [hcolon] at hpart
      simp only [List.append_assoc] at hpart
      exact hword (infix_of_append hpart)
    rw [if_neg hword, hcorrected, huncorrected]
    rfl

/-- What is reported where no count is. -/
theorem tryPatterns_no_count (hce : ¬ CeCount U clean) (hue : ¬ UeCount U clean) :
    tryPatterns U clean = (tryAer U clean).or (tryMce U clean) := by
  have hnone : (reEdacUe U).search clean = none :=
    Option.not_isSome_iff_eq_none.mp (mt ueCount_iff.mpr hue)
  rw [tryPatterns, tryEdac_ue hce, hnone]
  rfl

end Reports

end FaultOracle.Dmesg
