import FaultOracle.DmesgWatcher

/-!
# The entries of the dmesg table

The watcher takes the first entry of `PATTERNS` whose pattern it finds, so an entry is of use
only for messages that no entry before it finds.  `cxl.*correctable error` is found wherever
`cxl.*uncorrectable error` is, and stands in front of it.

`meaning_respected_iff`: an uncorrectable CXL error is never classified as one, and the other
nine entries have messages of their own.
-/

namespace FaultOracle.Dmesg

open BacktrackingRegex PythonFloats FaultOracle.Trace
open FaultOracle.Remediation (strip)

section Table

variable (U : CharTables)

/-- The loop over `PATTERNS`. -/
def classify (now : ℚ) (kernelTs : PyFloat) (message : Text) : Option DmesgEvent :=
  (patterns U).findSome? fun p => p.event now kernelTs message

/-- A message which matches the uncorrectable CXL pattern, and no pattern before it but the other
of CXL, is classified as uncorrectable. -/
def Respected (message : Text) : Prop :=
  ∀ front p rest, patterns U = front ++ p :: rest → p.eventType = .cxlUe →
    (p.regex.search message).isSome →
    (∀ q ∈ front, q.eventType ≠ .cxlCe → q.regex.search message = none) →
      ∀ now kernelTs, (classify U now kernelTs message).map DmesgEvent.eventType = some .cxlUe

/-- An entry matches a message that no entry before it matches. -/
def Alive (p : Pattern) : Prop :=
  ∃ front rest message, patterns U = front ++ p :: rest ∧ (p.regex.search message).isSome ∧
    ∀ q ∈ front, q.regex.search message = none

/-- The entries before those of CXL. -/
def beforeCxl : List Pattern := (patterns U).take 6

end Table

/-- `cxl`, and behind it on one line `uncorrectable error`. -/
def SaysUncorrectable (message : Text) : Prop :=
  ∃ x, (∀ c ∈ x, isDot c = true) ∧
    "cxl".toList ++ x ++ "uncorrectable error".toList <:+: message

/-- The types in the order of their entries. -/
def tableOrder : List DmesgType :=
  [.edacCe, .edacUe, .mce, .pcieAerCorrectable, .pcieAerNonfatal, .pcieAerFatal, .cxlCe, .cxlUe,
    .thermalCritical, .undervoltage]

/-- A text that every message of a type has. -/
def DmesgType.keyword : DmesgType → Text
  | .edacCe => "CE".toList
  | .edacUe => "UE".toList
  | .mce => "mce".toList
  | .pcieAerCorrectable => "Corrected".toList
  | .pcieAerNonfatal => "Non-Fatal".toList
  | .pcieAerFatal => "Fatal".toList
  | .cxlCe => "cxl".toList
  | .cxlUe => "cxl".toList
  | .thermalCritical => "thermal".toList
  | .undervoltage => "Under-voltage".toList

/-- A message that the entry of a type matches. -/
def DmesgType.sample : DmesgType → Text
  | .edacCe => "EDAC MC0: 1 CE".toList
  | .edacUe => "EDAC MC0: 1 UE".toList
  | .mce => mceText
  | .pcieAerCorrectable => "pcieport AER Corrected error".toList
  | .pcieAerNonfatal => "pcieport AER Uncorrected (Non-Fatal) error".toList
  | .pcieAerFatal => "pcieport AER Uncorrected (Fatal) error".toList
  | .cxlCe => "cxl correctable error".toList
  | .cxlUe => "cxl uncorrectable error".toList
  | .thermalCritical => "thermal thermal_zone0: critical temperature reached".toList
  | .undervoltage => "Under-voltage detected".toList

/-! ## What the patterns ask for -/

section Patterns

variable {U : CharTables} {message w : Text} {parts : List Re}

/-- Plain parts with anything between them are a plain pattern. -/
theorem plain_apart (h : ∀ a ∈ parts, a.Plain) : (apart parts).Plain := by
  induction parts with
  | nil => trivial
  | cons a parts ih =>
      cases parts with
      | nil => exact h a List.mem_cons_self
      | cons b parts =>
          exact ⟨⟨h a List.mem_cons_self, plain_star⟩, ih fun a ha => h a (.tail _ ha)⟩

/-- Texts joined by dots are a plain pattern. -/
theorem plain_dotted (texts : List Text) : (dotted texts).Plain := by
  induction texts with
  | nil => trivial
  | cons a texts ih =>
      cases texts with
      | nil => exact plain_lit a
      | cons b texts => exact ⟨⟨plain_lit a, plain_one⟩, ih⟩

/-- One more part in front, with a stretch between. -/
theorem lang_apart_cons {a b : Re} {u x v : Text} (hu : a.Lang u)
    (hx : ∀ c ∈ x, isDot c = true) (hv : (apart (b :: parts)).Lang v) :
    (apart (a :: b :: parts)).Lang (u ++ x ++ v) :=
  ⟨u ++ x, v, ⟨u, x, hu, hx, rfl⟩, hv, rfl⟩

/-- One more text in front, with a character between. -/
theorem lang_dotted_cons {a b v : Text} {texts : List Text} {c : Char} (hc : isDot c = true)
    (hv : (dotted (b :: texts)).Lang v) : (dotted (a :: b :: texts)).Lang (a ++ [c] ++ v) :=
  ⟨a ++ [c], v, ⟨a, [c], lang_lit.mpr rfl, ⟨c, hc, rfl⟩, rfl⟩, hv, rfl⟩

/-- Each part is found in what the parts match. -/
theorem infix_of_apart (h : (apart parts).Lang w) : ∀ a ∈ parts, ∃ v, a.Lang v ∧ v <:+: w := by
  induction parts generalizing w with
  | nil => simp
  | cons a parts ih =>
      cases parts with
      | nil => exact List.forall_mem_singleton.mpr ⟨w, h, List.infix_rfl⟩
      | cons b parts =>
          obtain ⟨_, v, ⟨u, x, hu, _, rfl⟩, hv, rfl⟩ := h
          refine List.forall_mem_cons.mpr ⟨⟨u, hu, ?_⟩, fun a ha => ?_⟩
          · exact ((List.prefix_append u x).trans (List.prefix_append _ v)).isInfix
          · obtain ⟨y, hy, hinfix⟩ := ih hv a ha
            exact ⟨y, hy, hinfix.trans (List.suffix_append _ v).isInfix⟩

/-- Each of the texts occurs in what the pattern matches. -/
theorem infix_of_dotted {texts : List Text} (h : (dotted texts).Lang w) :
    ∀ a ∈ texts, a <:+: w := by
  induction texts generalizing w with
  | nil => simp
  | cons a texts ih =>
      cases texts with
      | nil => exact List.forall_mem_singleton.mpr (lang_lit.mp h ▸ List.infix_rfl)
      | cons b texts =>
          obtain ⟨_, v, ⟨u, x, hu, _, rfl⟩, hv, rfl⟩ := h
          refine List.forall_mem_cons.mpr ⟨?_, fun a ha => ?_⟩
          · rw [← lang_lit.mp hu]
            exact ((List.prefix_append u x).trans (List.prefix_append _ v)).isInfix
          · exact (ih hv a ha).trans (List.suffix_append _ v).isInfix

/-- What an entry matches has the keyword of its type. -/
theorem keyword_of_lang {p : Pattern} (hp : p ∈ patterns U) (hw : p.regex.Lang w) :
    p.eventType.keyword <:+: w := by
  have hedac : ∀ kind, (edacPattern U kind).Lang w → kind <:+: w := by
    intro kind h
    obtain ⟨u, v, _, hv, rfl⟩ := h
    rw [lang_lit.mp hv]
    exact ⟨u ++ [' '], [], by simp⟩
  have hpart : ∀ {parts : List Re} {t : Text}, (apart parts).Lang w → Re.lit t ∈ parts →
      t <:+: w := by
    intro parts t h hmem
    obtain ⟨v, hv, hinfix⟩ := infix_of_apart h _ hmem
    exact lang_lit.mp hv ▸ hinfix
  have hdots : ∀ {parts : List Re} {texts : List Text} {t : Text}, (apart parts).Lang w →
      dotted texts ∈ parts → t ∈ texts → t <:+: w := by
    intro parts texts t h hmem ht
    obtain ⟨v, hv, hinfix⟩ := infix_of_apart h _ hmem
    exact (infix_of_dotted hv t ht).trans hinfix
  simp only [patterns, List.mem_cons, List.not_mem_nil, or_false] at hp
  rcases hp with rfl | rfl | rfl | rfl | rfl | rfl | rfl | rfl | rfl | rfl
  · exact hedac _ hw
  · exact hedac _ hw
  · rw [lang_lit.mp hw]
    decide
  · exact (by decide : "Corrected".toList <:+: "Corrected error".toList).trans
      (hpart hw (.tail _ (.tail _ (.head _))))
  · exact hdots hw (.tail _ (.tail _ (.head _))) (.tail _ (.head _))
  · exact hdots hw (.tail _ (.tail _ (.head _))) (.tail _ (.head _))
  · exact hpart hw (.head _)
  · exact hpart hw (.head _)
  · obtain ⟨_, v, ⟨u, x, hu, _, rfl⟩, _, rfl⟩ := hw
    rw [lang_lit.mp hu]
    exact ⟨[], " thermal_zone".toList ++ x ++ v, rfl⟩
  · rw [lang_lit.mp hw]
    decide

/-- Every pattern of the table is plain. -/
theorem plain_regex {p : Pattern} (hp : p ∈ patterns U) : p.regex.Plain := by
  simp only [patterns, List.mem_cons, List.not_mem_nil, or_false] at hp
  rcases hp with rfl | rfl | rfl | rfl | rfl | rfl | rfl | rfl | rfl | rfl
  · simp [edacPattern]
  · simp [edacPattern]
  · exact plain_lit _
  · exact plain_apart (by simp)
  · exact plain_apart (by simp [plain_dotted])
  · exact plain_apart (by simp [plain_dotted])
  · exact plain_apart (by simp)
  · exact plain_apart (by simp)
  · simp
  · exact plain_lit _

/-- An entry matches the sample of its type. -/
theorem lang_sample {p : Pattern} (hp : p ∈ patterns U) : p.regex.Lang p.eventType.sample := by
  have hdigit : ∀ {c : Char}, c.toNat < 128 → c.isDigit = true → (Re.plus U.isDigit).Lang [c] :=
    fun hascii hc => lang_plus.mpr ⟨List.cons_ne_nil _ _,
      List.forall_mem_singleton.mpr ((U.isDigit_ascii _ hascii).trans hc)⟩
  have hedac : ∀ kind : Text, (edacPattern U kind).Lang ("EDAC MC".toList ++ ['0'] ++ ": ".toList ++
      ['1'] ++ ' ' :: kind) := fun kind =>
    ⟨_, _, ⟨_, _, ⟨_, _, ⟨_, _, lang_lit.mpr rfl, hdigit (by decide) (by decide), rfl⟩,
      lang_lit.mpr rfl, rfl⟩, hdigit (by decide) (by decide), rfl⟩, lang_lit.mpr rfl, rfl⟩
  have hblank : ∀ c ∈ [' '], isDot c = true := List.forall_mem_singleton.mpr rfl
  simp only [patterns, List.mem_cons, List.not_mem_nil, or_false] at hp
  rcases hp with rfl | rfl | rfl | rfl | rfl | rfl | rfl | rfl | rfl | rfl
  · exact hedac "CE".toList
  · exact hedac "UE".toList
  · exact lang_lit.mpr rfl
  · exact lang_apart_cons (lang_lit.mpr rfl) hblank
      (lang_apart_cons (lang_lit.mpr rfl) hblank (lang_lit.mpr rfl))
  · exact lang_apart_cons (lang_lit.mpr rfl) hblank (lang_apart_cons (lang_lit.mpr rfl) hblank
      (lang_dotted_cons (c := '(') rfl (lang_dotted_cons (c := ')') rfl (lang_lit.mpr rfl))))
  · exact lang_apart_cons (lang_lit.mpr rfl) hblank (lang_apart_cons (lang_lit.mpr rfl) hblank
      (lang_dotted_cons (c := '(') rfl (lang_dotted_cons (c := ')') rfl (lang_lit.mpr rfl))))
  · exact lang_apart_cons (lang_lit.mpr rfl) hblank (lang_lit.mpr rfl)
  · exact lang_apart_cons (lang_lit.mpr rfl) hblank (lang_lit.mpr rfl)
  · exact ⟨_, _, ⟨_, _, lang_lit.mpr rfl, hdigit (c := '0') (by decide) (by decide), rfl⟩,
      lang_lit.mpr rfl, rfl⟩
  · exact lang_lit.mpr rfl

end Patterns

/-! ## Entries -/

section Entries

variable {U : CharTables} {message : Text} {p q : Pattern} {front rest : List Pattern}

/-- The types in the order of the table. -/
theorem map_eventType : (patterns U).map Pattern.eventType = tableOrder := rfl

/-- No sample but that of `cxl_ue` has the keyword of an earlier entry. -/
theorem keyword_fresh (hsplit : patterns U = front ++ p :: rest) (hq : q ∈ front)
    (hp : p.eventType ≠ .cxlUe) : ¬ q.eventType.keyword <:+: p.eventType.sample := by
  have hpairs : tableOrder.Pairwise fun s t => t ≠ .cxlUe → ¬ s.keyword <:+: t.sample := by
    decide +kernel
  rw [← map_eventType (U := U), List.pairwise_map, hsplit, List.pairwise_append] at hpairs
  exact hpairs.2.2 q hq p List.mem_cons_self hp

/-- A pattern is found exactly when a text of its language occurs. -/
theorem search_isSome_of_mem (hp : p ∈ patterns U) :
    (p.regex.search message).isSome ↔ ∃ w, p.regex.Lang w ∧ w <:+: message :=
  (plain_regex hp).search_isSome_iff.trans occurs_iff_isInfix

/-- What has an earlier type than an entry is in front of it. -/
theorem mem_front (hsplit : patterns U = front ++ p :: rest) (hq : q ∈ patterns U)
    (hearlier : q.eventType.ctorIdx < p.eventType.ctorIdx) : q ∈ front := by
  have hranks : tableOrder.Pairwise fun s t => s.ctorIdx < t.ctorIdx := by decide
  rw [← map_eventType (U := U), List.pairwise_map, hsplit, List.pairwise_append] at hranks
  rw [hsplit] at hq
  rcases List.mem_append.mp hq with hfront | hback
  · exact hfront
  · rcases List.mem_cons.mp hback with rfl | hrest
    · omega
    · have hlater := (List.pairwise_cons.mp hranks.2.1).1 q hrest
      omega

/-- The table has one pattern for each type. -/
theorem eq_of_eventType (hp : p ∈ patterns U) (hq : q ∈ patterns U)
    (h : p.eventType = q.eventType) : p = q :=
  List.inj_on_of_nodup_map (by rw [map_eventType]; decide) hp hq h

/-- The entries of CXL, which are found by their places. -/
theorem exists_cxlCe (U : CharTables) : ∃ q ∈ patterns U, q.eventType = .cxlCe ∧
    q.regex = apart [Re.lit "cxl".toList, Re.lit "correctable error".toList] :=
  ⟨_, List.mem_of_getElem? (i := 6) rfl, rfl, rfl⟩

/-- The table's pattern for uncorrectable CXL errors. -/
theorem exists_cxlUe (U : CharTables) : ∃ q ∈ patterns U, q.eventType = .cxlUe ∧
    q.regex = apart [Re.lit "cxl".toList, Re.lit "uncorrectable error".toList] :=
  ⟨_, List.mem_of_getElem? (i := 7) rfl, rfl, rfl⟩

/-- The pattern of the correctable CXL errors. -/
theorem regex_cxlCe (hq : q ∈ patterns U) (htype : q.eventType = .cxlCe) :
    q.regex = apart [Re.lit "cxl".toList, Re.lit "correctable error".toList] := by
  obtain ⟨r, hr, hce, hregex⟩ := exists_cxlCe U
  rw [eq_of_eventType hq hr (htype.trans hce.symm), hregex]

/-- The pattern of the uncorrectable CXL errors. -/
theorem regex_cxlUe (hq : q ∈ patterns U) (htype : q.eventType = .cxlUe) :
    q.regex = apart [Re.lit "cxl".toList, Re.lit "uncorrectable error".toList] := by
  obtain ⟨r, hr, hue, hregex⟩ := exists_cxlUe U
  rw [eq_of_eventType hq hr (htype.trans hue.symm), hregex]

/-- What the pattern of `cxl_ue` finds. -/
theorem search_cxlUe_iff (hp : p ∈ patterns U) (htype : p.eventType = .cxlUe) :
    (p.regex.search message).isSome ↔ SaysUncorrectable message := by
  rw [search_isSome_of_mem hp, regex_cxlUe hp htype]
  constructor
  · intro h
    obtain ⟨_, ⟨_, v, ⟨u, x, hu, hx, rfl⟩, hv, rfl⟩, hinfix⟩ := h
    rw [lang_lit.mp hu, lang_lit.mp hv] at hinfix
    exact ⟨x, hx, hinfix⟩
  · intro h
    obtain ⟨x, hx, hinfix⟩ := h
    exact ⟨_, lang_apart_cons (lang_lit.mpr rfl) hx (lang_lit.mpr rfl), hinfix⟩

/-- **The pattern of `cxl_ce` finds what that of `cxl_ue` finds.** -/
theorem search_cxlCe (hq : q ∈ patterns U) (htype : q.eventType = .cxlCe)
    (h : SaysUncorrectable message) : (q.regex.search message).isSome := by
  obtain ⟨x, hx, hinfix⟩ := h
  rw [search_isSome_of_mem hq, regex_cxlCe hq htype]
  have hlong : ∀ c ∈ x ++ "un".toList, isDot c = true :=
    List.forall_mem_append.mpr ⟨hx, List.all_eq_true.mp (by decide)⟩
  refine ⟨_, lang_apart_cons (lang_lit.mpr rfl) hlong (lang_lit.mpr rfl), ?_⟩
  have hsame : "cxl".toList ++ (x ++ "un".toList) ++ "correctable error".toList =
      "cxl".toList ++ x ++ "uncorrectable error".toList := by
    simp only [List.append_assoc]
    rfl
  rw [hsame]
  exact hinfix

/-- The entries of the table but one have messages of their own. -/
theorem alive_iff (hp : p ∈ patterns U) : Alive U p ↔ p.eventType ≠ .cxlUe := by
  constructor
  · intro ⟨front, rest, message, hsplit, hfound, hnone⟩ htype
    obtain ⟨q, hmem, hce, _⟩ := exists_cxlCe U
    have hq : q ∈ front := mem_front hsplit hmem (by rw [hce, htype]; decide)
    have hsearch := search_cxlCe hmem hce ((search_cxlUe_iff hp htype).mp hfound)
    rw [hnone q hq] at hsearch
    cases hsearch
  · intro htype
    obtain ⟨front, rest, hsplit⟩ := List.append_of_mem hp
    have hfound := (search_isSome_of_mem hp).mpr ⟨_, lang_sample hp, List.infix_rfl⟩
    refine ⟨front, rest, p.eventType.sample, hsplit, hfound, fun q hq => ?_⟩
    have hmem : q ∈ patterns U := hsplit ▸ List.mem_append_left _ hq
    by_contra hne
    obtain ⟨w, hw, hinfix⟩ := (search_isSome_of_mem hmem).mp (Option.isSome_iff_ne_none.mpr hne)
    exact keyword_fresh hsplit hq htype ((keyword_of_lang hmem hw).trans hinfix)

end Entries

/-! ## Messages -/

section Messages

variable {U : CharTables} {now : ℚ} {kernelTs : PyFloat} {line message : Text}

/-- The text that a line has behind its time stamp. -/
def messageOf (U : CharTables) (line : Text) : Option (PyFloat × Text) :=
  ((reKernelLine U).matchStart line).map fun m =>
    (U.parseFloat ((m.groups 1).getD []), strip ((m.groups 2).getD []))

/-- The watcher classifies the message of a line. -/
theorem parseDmesgLine_eq : parseDmesgLine U now line =
    (messageOf U line).bind fun m => classify U now m.1 m.2 := by
  unfold parseDmesgLine messageOf
  cases (reKernelLine U).matchStart line with
  | none => rfl
  | some m => rfl

/-- A pattern gives no event exactly when it is not found. -/
theorem event_eq_none_iff {p : Pattern} :
    p.event now kernelTs message = none ↔ p.regex.search message = none := Option.map_eq_none_iff

/-- **An uncorrectable error of CXL** is classified as a correctable one. -/
theorem classify_uncorrectable (hmessage : SaysUncorrectable message)
    (hfirst : ∀ q ∈ beforeCxl U, q.regex.search message = none) :
    (classify U now kernelTs message).map DmesgEvent.eventType = some .cxlCe := by
  have hsplit : ∃ ce rest, patterns U = beforeCxl U ++ ce :: rest ∧ ce.eventType = .cxlCe :=
    ⟨_, _, rfl, rfl⟩
  obtain ⟨ce, rest, hsplit, htype⟩ := hsplit
  have hmem : ce ∈ patterns U := hsplit ▸ List.mem_append_right _ List.mem_cons_self
  have hnone : (beforeCxl U).findSome? (fun p => p.event now kernelTs message) = none :=
    List.findSome?_eq_none_iff.mpr fun q hq => event_eq_none_iff.mpr (hfirst q hq)
  obtain ⟨m, hm⟩ := Option.isSome_iff_exists.mp (search_cxlCe hmem htype hmessage)
  have hevent : ∃ e, ce.event now kernelTs message = some e ∧ e.eventType = .cxlCe :=
    ⟨_, by rw [Pattern.event, hm, Option.map_some], htype⟩
  obtain ⟨e, he, heq⟩ := hevent
  rw [classify, hsplit, List.findSome?_append, hnone, Option.none_or, List.findSome?_cons, he]
  exact congrArg some heq

/-- The meaning of the table is respected where no uncorrectable error of CXL is to be told. -/
theorem respected_iff : Respected U message ↔
    ¬ SaysUncorrectable message ∨ ∃ q ∈ beforeCxl U, (q.regex.search message).isSome := by
  constructor
  · intro h
    by_contra hcond
    obtain ⟨hmessage, hfirst⟩ := not_or.mp hcond
    have hmessage := not_not.mp hmessage
    have hfirst : ∀ q ∈ beforeCxl U, q.regex.search message = none := fun q hq =>
      Option.not_isSome_iff_eq_none.mp fun hsome => hfirst ⟨q, hq, hsome⟩
    have hsplit : ∃ ce ue rest, patterns U = (beforeCxl U ++ [ce]) ++ ue :: rest ∧
        ce.eventType = .cxlCe ∧ ue.eventType = .cxlUe := ⟨_, _, _, rfl, rfl, rfl⟩
    obtain ⟨ce, ue, rest, hsplit, hce, hue⟩ := hsplit
    have hmem : ue ∈ patterns U := hsplit ▸ List.mem_append_right _ List.mem_cons_self
    have hnone : ∀ q ∈ beforeCxl U ++ [ce], q.eventType ≠ .cxlCe →
        q.regex.search message = none := by
      intro q hq hne
      rcases List.mem_append.mp hq with hq | hq
      · exact hfirst q hq
      · exact absurd (List.mem_singleton.mp hq ▸ hce) hne
    have hfound := (search_cxlUe_iff hmem hue).mpr hmessage
    have htype := h _ ue rest hsplit hue hfound hnone 0 (.fin 0)
    rw [classify_uncorrectable hmessage hfirst] at htype
    cases htype
  · intro h front p rest hsplit htype hfound hnone now kernelTs
    have hp : p ∈ patterns U := hsplit ▸ List.mem_append_right _ List.mem_cons_self
    rcases h with h | ⟨q, hq, hsome⟩
    · exact absurd ((search_cxlUe_iff hp htype).mp hfound) h
    · have hmem : q ∈ patterns U := List.mem_of_mem_take hq
      have hearly : q.eventType.ctorIdx < DmesgType.cxlCe.ctorIdx := by
        have hall : ∀ t ∈ tableOrder.take 6, t.ctorIdx < DmesgType.cxlCe.ctorIdx := by decide
        refine hall q.eventType ?_
        rw [← map_eventType (U := U), ← List.map_take]
        exact List.mem_map_of_mem hq
      have hfront : q ∈ front := mem_front hsplit hmem (hearly.trans (by rw [htype]; decide))
      have hne : q.eventType ≠ .cxlCe := fun heq => by
        rw [heq] at hearly
        exact lt_irrefl _ hearly
      rw [hnone q hfront hne] at hsome
      cases hsome

/-- **The meaning of the table** is respected for the messages that say no uncorrectable error of
CXL, or something that an earlier entry finds; and the entries but `cxl_ue` are alive. -/
theorem meaning_respected_iff (U : CharTables) :
    (∀ message, Respected U message ↔
      ¬ SaysUncorrectable message ∨ ∃ q ∈ beforeCxl U, (q.regex.search message).isSome) ∧
    ∀ p ∈ patterns U, Alive U p ↔ p.eventType ≠ .cxlUe :=
  ⟨fun _ => respected_iff, fun _ hp => alive_iff hp⟩

def uncorrectableLine : Text := "[  300.0] cxl_pci 0000:35:00.0: uncorrectable error".toList

/-- The error is reported as a warning, and the entry for it is dead. -/
theorem uncorrectable_taken :
    (parseDmesgLine asciiTables 0 uncorrectableLine).map DmesgEvent.severity = some "warning" ∧
    ¬ Respected asciiTables "cxl_pci 0000:35:00.0: uncorrectable error".toList ∧
    ∃ p ∈ patterns asciiTables, ¬ Alive asciiTables p := by
  have hsays : SaysUncorrectable "cxl_pci 0000:35:00.0: uncorrectable error".toList :=
    ⟨"_pci 0000:35:00.0: ".toList, List.all_eq_true.mp (by decide), [], [], rfl⟩
  refine ⟨by decide +kernel, ?_, ?_⟩
  · rw [respected_iff]
    refine not_or.mpr ⟨not_not.mpr hsays, ?_⟩
    decide +kernel
  · obtain ⟨p, hp, htype, _⟩ := exists_cxlUe asciiTables
    exact ⟨p, hp, fun halive => (alive_iff hp).mp halive htype⟩

end Messages

end FaultOracle.Dmesg
