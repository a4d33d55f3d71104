import FaultOracle.EdacPatterns
import FaultOracle.RegexSubstitution
import FaultOracle.TraceParserErrors

/-!
# The details of an EDAC line

`RE_EDAC_DETAILS` is an opening parenthesis with optional fields behind it, so it matches at
the first parenthesis of a line whatever stands there.  A block with the fields of the error
is read only where no other parenthesis is in front of it.

`extracted_iff`: the fields of a block are those of the event exactly when the text at the
first parenthesis of the line spells them, and Python converts the numbers of the line.
-/

namespace FaultOracle.Trace

open BacktrackingRegex PythonFloats
open FaultOracle.Remediation (isPySpace isPySpace_of_graphic)

/-! ## Blocks -/

/-- The numbers of a detail block. -/
structure DetailBlock (U : CharTables) where
  mc : Text
  page : Text
  offset : Text
  grain : Text
  syndrome : Text
  mc_digits : U.Digits mc
  page_digits : HexDigits page
  offset_digits : HexDigits offset
  grain_digits : U.Digits grain
  syndrome_digits : HexDigits syndrome

/-- `(mc:0 page:0x12 offset:0x0 grain:8 syndrome:0x1)`. -/
def DetailBlock.text {U : CharTables} (b : DetailBlock U) : Text :=
  detailText b.mc b.page b.offset b.grain b.syndrome ++ ")".toList

/-- The fields of a block, with or without the controller, and with any white space between
them, or none. -/
structure Spelling (U : CharTables) where
  mc : Text
  page : Text
  gap₁ : Text
  offset : Text
  gap₂ : Text
  grain : Text
  gap₃ : Text
  syndrome : Text
  mc_part : mc = [] ∨ ∃ n s, U.Digits n ∧ Spaces s ∧ mc = "mc:".toList ++ n ++ s
  page_digits : HexDigits page
  gap₁_blank : ∀ c ∈ gap₁, isPySpace c = true
  offset_digits : HexDigits offset
  gap₂_blank : ∀ c ∈ gap₂, isPySpace c = true
  grain_digits : U.Digits grain
  gap₃_blank : ∀ c ∈ gap₃, isPySpace c = true
  syndrome_digits : HexDigits syndrome

def Spelling.text {U : CharTables} (s : Spelling U) : Text :=
  "(".toList ++ s.mc ++ ("page:0x".toList ++ s.page ++ s.gap₁) ++
    ("offset:0x".toList ++ s.offset ++ s.gap₂) ++ ("grain:".toList ++ s.grain ++ s.gap₃) ++
    ("syndrome:0x".toList ++ s.syndrome)

/-- The numbers are those of the block; the syndrome is kept as a text. -/
structure Spelling.Same {U : CharTables} (s : Spelling U) (b : DetailBlock U) : Prop where
  page : hexadecimal s.page = hexadecimal b.page
  offset : hexadecimal s.offset = hexadecimal b.offset
  grain : U.decimal s.grain = U.decimal b.grain
  syndrome : s.syndrome = b.syndrome

section Lines

variable (U : CharTables)

/-- What an EDAC line has behind its error type. -/
def behindType (line : Text) : Option Text :=
  match tryPatterns U (cleanLine U line) with
  | some (.edac _ m) => some m.post
  | _ => none

/-- The line carries the block, anywhere behind its error type. -/
def Carries (line : Text) (b : DetailBlock U) : Prop :=
  ∃ tail ∈ behindType U line, b.text <:+: tail

/-- The event of the line has the fields of the block. -/
def Extracted (p : TraceParser) (line : Text) (following : List Text) (b : DetailBlock U) : Prop :=
  ∃ e q, p.parseLine U line following = .ok (some e, q) ∧ e.page = some (hexadecimal b.page) ∧
    e.offset = some (hexadecimal b.offset) ∧ e.grain = some (U.decimal b.grain) ∧
    e.syndrome = some b.syndrome

instance (line : Text) (b : DetailBlock U) : Decidable (Carries U line b) :=
  inferInstanceAs (Decidable (∃ tail ∈ behindType U line, b.text <:+: tail))

/-- Python converts the numbers of the line. -/
def NumbersConvert (line : Text) (following : List Text) : Prop :=
  (∀ r ∈ tryPatterns U (cleanLine U line), ∀ d ∈ intLiterals U line following r,
    d.length ≤ maxStrDigits) ∧ FiniteNanoseconds U line

/-- The text at the first parenthesis of the line spells the fields of the block. -/
def FirstSpells (line : Text) (b : DetailBlock U) : Prop :=
  ∃ (front : Text) (s : Spelling U) (rest : Text),
    cleanLine U line = front ++ (s.text ++ rest) ∧ '(' ∉ front ∧ Stops isHexDigit rest ∧ s.Same b

end Lines

/-! ## The first parenthesis -/

section Pattern

variable {U : CharTables} {front text more w : Text} {f : Groups → Groups}

/-- White space stops what reads digits. -/
theorem stops_gap {p : Char → Bool} {gap next : Text} (hgap : ∀ c ∈ gap, isPySpace c = true)
    (hp : ∀ c, isPySpace c = true → p c = false) (hnext : Stops p next) : Stops p (gap ++ next) := by
  cases gap with
  | nil => exact hnext
  | cons c gap =>
      rw [List.cons_append, stops_cons]
      exact hp c (hgap c List.mem_cons_self)

/-- White space is no hexadecimal digit. -/
theorem isHexDigit_of_isPySpace (c : Char) (h : isPySpace c = true) : isHexDigit c = false := by
  by_contra hhex
  have hcode := isHexDigit_iff.mp (eq_true_of_ne_false hhex)
  rw [isPySpace_of_graphic (by omega) (by omega)] at h
  cases h

/-- **The fields are read** wherever they are spelled. -/
theorem reads_spelling (s : Spelling U) {rest : Text} (hrest : Stops isHexDigit rest) :
    ∃ f, Reads (reEdacDetails U) s.text rest f ∧
      f (fun _ => none) = detailGroups s.page s.offset s.grain s.syndrome := by
  have hmc : Reads (.opt (Re.lit "mc:".toList ++ Re.plus U.isDigit ++ Re.plus isPySpace)) s.mc
      ("page:0x".toList ++ s.page ++ s.gap₁ ++ ("offset:0x".toList ++ s.offset ++ s.gap₂ ++
        ("grain:".toList ++ s.grain ++ s.gap₃ ++ ("syndrome:0x".toList ++ s.syndrome ++ rest)))) id := by
    rcases s.mc_part with hmc | ⟨n, blank, hn, hblank, hmc⟩
    · rw [hmc]
      refine reads_opt_none fun hat => ?_
      have hlit : "mc:".toList <+: "page:0x".toList ++ _ := at_lit.mp hat.left.left
      exact absurd (List.cons_prefix_cons.mp hlit).1 (by decide)
    · rw [hmc]
      refine (((reads_lit _ _).append (hn.reads ?_)).append (reads_plus hblank.1 hblank.2 ?_)).opt
      · exact hblank.stops_digits _
      · simp [show isPySpace 'p' = false from rfl]
  refine ⟨_, (((((reads_lit _ _).append hmc).append
    (((reads_lit _ _).append ((s.page_digits.reads ?_).group 1)).append
      (reads_star s.gap₁_blank ?_)).opt).append
    (((reads_lit _ _).append ((s.offset_digits.reads ?_).group 2)).append
      (reads_star s.gap₂_blank ?_)).opt).append
    (((reads_lit _ _).append ((s.grain_digits.reads ?_).group 3)).append
      (reads_star s.gap₃_blank ?_)).opt).append
    ((reads_lit _ _).append ((s.syndrome_digits.reads hrest).group 4)).opt, rfl⟩
  · exact stops_gap s.gap₁_blank isHexDigit_of_isPySpace
      (by simp [show isHexDigit 'o' = false from rfl])
  · simp [show isPySpace 'o' = false from rfl]
  · exact stops_gap s.gap₂_blank isHexDigit_of_isPySpace
      (by simp [show isHexDigit 'g' = false from rfl])
  · simp [show isPySpace 'g' = false from rfl]
  · exact stops_gap s.gap₃_blank (fun _ => U.isDigit_of_isPySpace) (by simp [U.isDigit_ascii])
  · simp [show isPySpace 's' = false from rfl]

/-- All fields are captured. -/
structure Captured (g : Groups) (page offset grain syndrome : Text) : Prop where
  page : g 1 = some page
  offset : g 2 = some offset
  grain : g 3 = some grain
  syndrome : g 4 = some syndrome

/-- An optional field is read with its digits, or not at all. -/
theorem captures_field {l : Text} {n : Nat} {p : Char → Bool} :
    (Re.opt (Re.lit l ++ .group n (Re.plus p) ++ .star isPySpace)).Captures w f ↔
      (∃ d gap, (d ≠ [] ∧ ∀ c ∈ d, p c = true) ∧ (∀ c ∈ gap, isPySpace c = true) ∧
        w = l ++ d ++ gap ∧ f = fun g => Function.update g n (some d)) ∨ w = [] ∧ f = id := by
  have hfield : ∀ {w f}, (Re.lit l ++ .group n (Re.plus p) ++ .star isPySpace).Captures w f ↔
      ∃ d gap, (d ≠ [] ∧ ∀ c ∈ d, p c = true) ∧ (∀ c ∈ gap, isPySpace c = true) ∧
        w = l ++ d ++ gap ∧ f = fun g => Function.update g n (some d) := by
    intro w f
    simp only [captures_append, captures_group, captures_lit, captures_plus]
    constructor
    · intro h
      obtain ⟨_, gap, _, _, ⟨_, d, _, _, ⟨rfl, rfl⟩, ⟨_, ⟨hne, hd, rfl⟩, rfl⟩, rfl, rfl⟩,
        ⟨hgap, rfl⟩, rfl, rfl⟩ := h
      exact ⟨d, gap, ⟨hne, hd⟩, hgap, rfl, rfl⟩
    · intro h
      obtain ⟨d, gap, ⟨hne, hd⟩, hgap, rfl, rfl⟩ := h
      exact ⟨_, gap, _, id, ⟨l, d, id, _, ⟨rfl, rfl⟩, ⟨id, ⟨hne, hd, rfl⟩, rfl⟩, rfl, rfl⟩,
        ⟨hgap, rfl⟩, rfl, rfl⟩
  exact or_congr hfield Iff.rfl

/-- The pattern of the details is plain. -/
theorem reEdacDetails_plain : (reEdacDetails U).Plain := by simp [reEdacDetails, Re.Plain]

/-- An opening parenthesis is enough. -/
theorem at_open (text : Text) : (reEdacDetails U).At ('(' :: text) :=
  ⟨['('], ⟨['('], [], ⟨['('], [], ⟨['('], [], ⟨['('], [], ⟨['('], [], lang_lit.mpr rfl, .inr rfl, rfl⟩,
    .inr rfl, rfl⟩, .inr rfl, rfl⟩, .inr rfl, rfl⟩, .inr rfl, rfl⟩, text, rfl⟩

/-- **The pattern matches at the first parenthesis.** -/
theorem exists_match (hfront : '(' ∉ front) (text : Text) :
    ∃ m, (reEdacDetails U).matchFrom front.reverse ('(' :: text) = some m ∧
      edacDetails U (front ++ '(' :: text) = m.groups := by
  have hskip : ∀ u v, front = u ++ v → v ≠ [] → ¬ (reEdacDetails U).At (v ++ '(' :: text) := by
    intro u v hsplit hv hat
    obtain ⟨c, v, rfl⟩ := List.exists_cons_of_ne_nil hv
    obtain ⟨rfl, _⟩ := List.cons_prefix_cons.mp (at_reEdacDetails_start hat)
    exact hfront (hsplit ▸ List.mem_append_right _ List.mem_cons_self)
  obtain ⟨m, hm⟩ := Option.ne_none_iff_exists'.mp
    (mt (reEdacDetails_plain (U := U)).matchFrom_eq_none_iff.mp (not_not.mpr (at_open text)))
  refine ⟨m, hm, ?_⟩
  rw [edacDetails, Re.search, searchFrom_skip hskip, List.append_nil, searchFrom_of_matchFrom hm]
  rfl

/-- The details of a text with a spelling at its first parenthesis. -/
theorem edacDetails_spelling (hfront : '(' ∉ front) (s : Spelling U) {rest : Text}
    (hrest : Stops isHexDigit rest) :
    edacDetails U (front ++ (s.text ++ rest)) = detailGroups s.page s.offset s.grain s.syndrome := by
  obtain ⟨f, hreads, hf⟩ := reads_spelling s hrest
  obtain ⟨m, hm, hdetails⟩ := exists_match (U := U) hfront (s.text.tail ++ rest)
  have htext : s.text ++ rest = '(' :: (s.text.tail ++ rest) := by
    simp [Spelling.text]
  rw [← htext] at hm hdetails
  rw [hdetails, ← hf]
  rw [hreads.matchFrom] at hm
  rw [← Option.some.inj hm]

/-- What a field captures. -/
theorem captured_field {l x : Text} {n : Nat} {p : Char → Bool} {g : Groups}
    (h : (Re.opt (Re.lit l ++ .group n (Re.plus p) ++ .star isPySpace)).Captures w f)
    (hnone : g n = none) (hsome : f g n = some x) :
    (x ≠ [] ∧ ∀ c ∈ x, p c = true) ∧
      ∃ gap, (∀ c ∈ gap, isPySpace c = true) ∧ w = l ++ x ++ gap := by
  rcases captures_field.mp h with ⟨d, gap, hd, hgap, rfl, rfl⟩ | ⟨rfl, rfl⟩
  · obtain rfl : d = x := by simpa using hsome
    exact ⟨hd, gap, hgap, rfl⟩
  · rw [id_eq, hnone] at hsome
    cases hsome

/-- A field keeps what others have captured. -/
theorem field_frame {l : Text} {n k : Nat} {p : Char → Bool} {g : Groups}
    (h : (Re.opt (Re.lit l ++ .group n (Re.plus p) ++ .star isPySpace)).Captures w f)
    (hk : k ≠ n) : f g k = g k := by
  rcases captures_field.mp h with ⟨d, gap, _, _, rfl, rfl⟩ | ⟨rfl, rfl⟩
  · exact Function.update_of_ne hk _ _
  · rfl

/-- What the optional group for the controller captures. -/
theorem captures_mc
    (h : (Re.opt (Re.lit "mc:".toList ++ Re.plus U.isDigit ++ Re.plus isPySpace)).Captures w f) :
    (w = [] ∨ ∃ n s, U.Digits n ∧ Spaces s ∧ w = "mc:".toList ++ n ++ s) ∧ f = id := by
  rcases h with h | ⟨rfl, rfl⟩
  · simp only [captures_append, captures_lit, captures_plus] at h
    obtain ⟨_, s, _, _, ⟨_, n, _, _, ⟨rfl, rfl⟩, ⟨hne, hn, rfl⟩, rfl, rfl⟩, ⟨hs, hblank, rfl⟩,
      rfl, rfl⟩ := h
    exact ⟨.inr ⟨n, s, ⟨hne, hn⟩, ⟨hs, hblank⟩, rfl⟩, rfl⟩
  · exact ⟨.inl rfl, rfl⟩

/-- The last field, behind which no white space is read. -/
theorem captures_last {l : Text} {n : Nat} {p : Char → Bool}
    (h : (Re.opt (Re.lit l ++ .group n (Re.plus p))).Captures w f) :
    (∃ d, (d ≠ [] ∧ ∀ c ∈ d, p c = true) ∧ w = l ++ d ∧
      f = fun g => Function.update g n (some d)) ∨ w = [] ∧ f = id := by
  refine h.imp_left fun h => ?_
  simp only [captures_append, captures_group, captures_lit, captures_plus] at h
  obtain ⟨_, d, _, _, ⟨rfl, rfl⟩, ⟨_, ⟨hne, hd, rfl⟩, rfl⟩, rfl, rfl⟩ := h
  exact ⟨d, ⟨hne, hd⟩, rfl, rfl⟩

/-- Where all fields are captured, they are spelled. -/
theorem spelling_of_captures (h : (reEdacDetails U).Captures w f)
    {page offset grain syndrome : Text}
    (hgroups : Captured (f fun _ => none) page offset grain syndrome) :
    ∃ s : Spelling U, w = s.text ∧ s.page = page ∧ s.offset = offset ∧ s.grain = grain ∧
      s.syndrome = syndrome := by
  obtain ⟨_, w₅, _, f₅, ⟨_, w₄, _, f₄, ⟨_, w₃, _, f₃, ⟨_, w₂, _, f₂, ⟨_, mc, _, f₁, hopen, hmc,
    rfl, rfl⟩, h₂, rfl, rfl⟩, h₃, rfl, rfl⟩, h₄, rfl, rfl⟩, h₅, rfl, rfl⟩ := h
  obtain ⟨rfl, rfl⟩ := captures_lit.mp hopen
  obtain ⟨hpart, rfl⟩ := captures_mc hmc
  have hlast : ∀ {g : Groups} {k}, k ≠ 4 → f₅ g k = g k := by
    intro g k hk
    rcases captures_last h₅ with ⟨d, _, _, rfl⟩ | ⟨_, rfl⟩
    · exact Function.update_of_ne hk _ _
    · rfl
  have hone : f₂ (fun _ => none) 1 = some page :=
    (field_frame h₃ (by decide)).symm.trans
      ((field_frame h₄ (by decide)).symm.trans ((hlast (by decide)).symm.trans hgroups.page))
  have htwo : f₃ (f₂ fun _ => none) 2 = some offset :=
    (field_frame h₄ (by decide)).symm.trans ((hlast (by decide)).symm.trans hgroups.offset)
  have hthree : f₄ (f₃ (f₂ fun _ => none)) 3 = some grain :=
    (hlast (by decide)).symm.trans hgroups.grain
  have hfour : f₅ (f₄ (f₃ (f₂ fun _ => none))) 4 = some syndrome := hgroups.syndrome
  obtain ⟨hpage, gap₁, hgap₁, rfl⟩ := captured_field h₂ rfl hone
  obtain ⟨hoffset, gap₂, hgap₂, rfl⟩ := captured_field h₃ (field_frame h₂ (by decide)) htwo
  obtain ⟨hgrain, gap₃, hgap₃, rfl⟩ := captured_field h₄
    ((field_frame h₃ (by decide)).trans (field_frame h₂ (by decide))) hthree
  rcases captures_last h₅ with ⟨d, hd, rfl, rfl⟩ | ⟨rfl, rfl⟩
  · obtain rfl : d = syndrome := by simpa using hfour
    exact ⟨⟨mc, page, gap₁, offset, gap₂, grain, gap₃, d, hpart, hpage, hgap₁, hoffset, hgap₂,
      hgrain, hgap₃, hd⟩, rfl, rfl, rfl, rfl, rfl⟩
  · rw [id_eq, field_frame h₄ (by decide), field_frame h₃ (by decide),
      field_frame h₂ (by decide)] at hfour
    cases hfour

/-- **The details are those of a spelling** at the first parenthesis, and of no other text. -/
theorem captured_iff (hfront : '(' ∉ front) {page offset grain syndrome : Text} :
    Captured (edacDetails U (front ++ '(' :: text)) page offset grain syndrome ↔
      ∃ (s : Spelling U) (rest : Text), '(' :: text = s.text ++ rest ∧ Stops isHexDigit rest ∧
        s.page = page ∧ s.offset = offset ∧ s.grain = grain ∧ s.syndrome = syndrome := by
  constructor
  · intro h
    obtain ⟨m, hm, hdetails⟩ := exists_match (U := U) hfront text
    obtain ⟨t, ht, rfl⟩ := Option.map_eq_some_iff.mp hm
    obtain ⟨w, f, hw, hafter, hgroups⟩ := mem_run_captures (List.mem_of_mem_head? ht)
    obtain ⟨s, rfl, hpage, hoffset, hgrain, hsyndrome⟩ :=
      spelling_of_captures hw (hgroups ▸ (hdetails ▸ h : Captured t.groups _ _ _ _))
    -- the last digits are read as far as they go, so that none is left behind them
    let more := t.after.takeWhile isHexDigit
    let longer : Spelling U :=
      { s with
        syndrome := s.syndrome ++ more
        syndrome_digits := ⟨List.append_ne_nil_of_left_ne_nil s.syndrome_digits.1 _,
          List.forall_mem_append.mpr ⟨s.syndrome_digits.2, fun _ hc => List.mem_takeWhile_imp hc⟩⟩ }
    have hsplit : '(' :: text = longer.text ++ t.after.dropWhile isHexDigit := by
      have htext : longer.text = s.text ++ more := by simp [Spelling.text, longer]
      rw [htext, List.append_assoc, List.takeWhile_append_dropWhile]
      exact hafter
    have hstops : Stops isHexDigit (t.after.dropWhile isHexDigit) := by
      intro c hc
      have hhead := List.head?_dropWhile_not isHexDigit t.after
      rw [Option.mem_def.mp hc] at hhead
      simpa using hhead
    have hread := edacDetails_spelling hfront longer hstops
    rw [← hsplit] at hread
    have hfour : some syndrome = some longer.syndrome := h.syndrome.symm.trans (congrFun hread 4)
    have hsame : s.syndrome = longer.syndrome := hsyndrome.trans (Option.some.inj hfour)
    have hnone : more = [] := List.append_right_eq_self.mp hsame.symm
    have hwhole : more ++ t.after.dropWhile isHexDigit = t.after :=
      List.takeWhile_append_dropWhile
    rw [hnone, List.nil_append] at hwhole
    exact ⟨s, t.after, hafter, hwhole ▸ hstops, hpage, hoffset, hgrain, hsyndrome⟩
  · intro h
    obtain ⟨s, rest, htext, hrest, rfl, rfl, rfl, rfl⟩ := h
    have hread := edacDetails_spelling hfront s hrest
    rw [htext]
    exact ⟨congrFun hread 1, congrFun hread 2, congrFun hread 3, congrFun hread 4⟩

/-- The details have no closing parenthesis. -/
theorem close_notMem (s : Spelling U) : ')' ∉ s.text := by
  have hspaces : ∀ {gap : Text}, (∀ c ∈ gap, isPySpace c = true) → ')' ∉ gap := by
    intro gap hgap hmem
    cases hgap _ hmem
  have hhexes : ∀ {d : Text}, HexDigits d → ')' ∉ d := by
    intro d hd hmem
    cases hd.2 _ hmem
  have hdigit : U.isDigit ')' = false := U.isDigit_ascii ')' (by decide)
  have hmc : ')' ∉ s.mc := by
    rcases s.mc_part with hmc | ⟨n, blank, hn, hblank, hmc⟩
    · rw [hmc]
      exact List.not_mem_nil
    · rw [hmc]
      simp [hn.notMem hdigit, hspaces hblank.2]
  simp [Spelling.text, hmc, hhexes s.page_digits, hspaces s.gap₁_blank, hhexes s.offset_digits,
    hspaces s.gap₂_blank, s.grain_digits.notMem hdigit, hspaces s.gap₃_blank,
    hhexes s.syndrome_digits]

/-- What is appended behind a closing parenthesis does not change what is spelled. -/
theorem spelled_append_iff (hclose : ')' ∈ text) (s : Spelling U) :
    (∃ rest, text ++ more = s.text ++ rest ∧ Stops isHexDigit rest) ↔
      ∃ rest, text = s.text ++ rest ∧ Stops isHexDigit rest := by
  constructor
  · intro h
    obtain ⟨rest, hsplit, hrest⟩ := h
    rcases List.append_eq_append_iff.mp hsplit with ⟨left, htext, _⟩ | ⟨left, rfl, rfl⟩
    · exact absurd (htext ▸ List.mem_append_left _ hclose) (close_notMem s)
    · refine ⟨left, rfl, ?_⟩
      cases left with
      | nil => exact stops_nil
      | cons c left => exact stops_cons.mpr (stops_cons.mp hrest)
  · intro h
    obtain ⟨rest, rfl, hrest⟩ := h
    refine ⟨rest ++ more, List.append_assoc _ _ _, ?_⟩
    cases rest with
    | nil => exact absurd (by simpa using hclose) (close_notMem s)
    | cons c rest => exact stops_cons.mpr (stops_cons.mp hrest)

end Pattern

/-! ## Lines -/

section Lines

variable {U : CharTables} {p : TraceParser} {line : Text} {following : List Text}
  {b : DetailBlock U} {type : EventType} {m : Match} {clean : Text}

/-- A line told as an EDAC report is found by one of the two patterns. -/
theorem search_of_edac {clean : Text} (h : tryPatterns U clean = some (.edac type m)) :
    (reEdacCe U).search clean = some m ∨ (reEdacUe U).search clean = some m := by
  have hedac : tryEdac U clean = some (.edac type m) := by
    rw [tryPatterns, Option.or_eq_some_iff, Option.or_eq_some_iff] at h
    rcases h with (h | ⟨_, h⟩) | ⟨_, h⟩
    · exact h
    · unfold tryAer at h
      split at h
      · split at h
        · cases h
        · obtain ⟨_, _, h⟩ := Option.map_eq_some_iff.mp h
          cases h
      · cases h
    · unfold tryMce at h
      split at h <;> cases h
  unfold tryEdac at hedac
  split at hedac
  · split at hedac
    · rename_i found hfound
      split at hedac
      · obtain ⟨_, hue, h⟩ := Option.map_eq_some_iff.mp hedac
        cases h
        exact .inr hue
      · cases hedac
        exact .inl hfound
    · obtain ⟨_, hue, h⟩ := Option.map_eq_some_iff.mp hedac
      cases h
      exact .inr hue
  · cases hedac

/-- A line with a block is one of EDAC, and has the block. -/
theorem Carries.report (h : Carries U line b) :
    (∃ type m, tryPatterns U (cleanLine U line) = some (.edac type m)) ∧
      b.text <:+: cleanLine U line := by
  obtain ⟨tail, htail, hblock⟩ := h
  unfold behindType at htail
  split at htail
  · rename_i type m hreport
    obtain rfl := Option.some.inj htail
    have hsuffix : m.post <:+ cleanLine U line := by
      rcases search_of_edac hreport with hm | hm
      · exact post_suffix_of_search hm
      · exact post_suffix_of_search hm
    exact ⟨⟨type, m, hreport⟩, hblock.trans hsuffix.isInfix⟩
  · cases htail

/-- The first parenthesis of a line with a block, which is closed at the latest with the block. -/
theorem exists_first (h : b.text <:+: clean) :
    ∃ front text, clean = front ++ '(' :: text ∧ '(' ∉ front ∧ ')' ∈ '(' :: text := by
  obtain ⟨u, v, rfl⟩ := h
  obtain ⟨inner, hinner⟩ : ∃ inner, b.text = '(' :: (inner ++ [')']) := ⟨_, rfl⟩
  have hopen : '(' ∈ u ++ b.text ++ v := by simp [hinner]
  obtain ⟨front, text, hsplit, hfront⟩ := List.eq_append_cons_of_mem hopen
  refine ⟨front, text, hsplit, hfront, ?_⟩
  rw [hinner, List.append_assoc] at hsplit
  rcases List.append_eq_append_iff.mp hsplit with ⟨more, rfl, hmore⟩ | ⟨left, rfl, hleft⟩
  · cases more with
    | nil =>
        rw [List.nil_append] at hmore
        rw [← hmore]
        simp
    | cons c more =>
        obtain ⟨rfl, _⟩ := List.cons.inj hmore
        exact absurd (List.mem_append_right _ List.mem_cons_self) hfront
  · rw [hleft]
    simp

/-- What is found at the first parenthesis of a text does not depend on the parenthesis. -/
theorem firstSpells_iff {front text : Text} (hclean : cleanLine U line = front ++ '(' :: text)
    (hfront : '(' ∉ front) : FirstSpells U line b ↔
      ∃ (s : Spelling U) (rest : Text),
        '(' :: text = s.text ++ rest ∧ Stops isHexDigit rest ∧ s.Same b := by
  constructor
  · intro h
    obtain ⟨front', s, rest, hsplit, hfront', hrest, hsame⟩ := h
    obtain ⟨inner, hinner⟩ : ∃ inner, s.text = '(' :: inner := ⟨_, rfl⟩
    have hboth : front ++ '(' :: text = front' ++ '(' :: (inner ++ rest) := by
      rw [← hclean, hsplit, hinner, List.cons_append]
    have hother : ∀ {t : Text}, '(' ∉ t → ∀ c ∈ t, (c != '(') = true := fun ht c hc =>
      bne_iff_ne.mpr fun heq => ht (heq ▸ hc)
    obtain ⟨_, htext⟩ := span_unique (hother hfront) (hother hfront') (by decide) (by decide) hboth
    exact ⟨s, rest, by rw [htext, hinner, List.cons_append], hrest, hsame⟩
  · intro h
    obtain ⟨s, rest, htext, hrest, hsame⟩ := h
    exact ⟨front, s, rest, htext ▸ hclean, hfront, hrest, hsame⟩

/-- What the parser makes of a line which reports an error. -/
theorem parseLine_eq_ok {e : HardwareEvent} {q : TraceParser} {r : Report}
    (hreport : tryPatterns U (cleanLine U line) = some r) :
    p.parseLine U line following = .ok (some e, q) ↔
      reportEvent U p.seq line following r = .ok e ∧ p.after r = q := by
  rw [TraceParser.parseLine, hreport]
  cases hevent : reportEvent U p.seq line following r with
  | ok e' => simp [hevent, Except.map]
  | error err => simp [hevent, Except.map]

/-- The event of an EDAC line has the details of the line and of what is looked ahead for. -/
theorem parseLine_edac {e : HardwareEvent} {q : TraceParser} {combined : Text}
    (hreport : tryPatterns U (cleanLine U line) = some (.edac type m))
    (hcombined : cleanLine U line ++ " ".toList ++ lookAheadEdacLocation U following = combined)
    (h : p.parseLine U line following = .ok (some e, q)) :
    e.page = (edacDetails U combined 1).map hexadecimal ∧
      e.offset = (edacDetails U combined 2).map hexadecimal ∧
      e.grain = (edacDetails U combined 3).map U.decimal ∧ e.syndrome = edacDetails U combined 4 := by
  obtain ⟨hevent, _⟩ := (parseLine_eq_ok hreport).mp h
  simp only [reportEvent, hcombined, makeEdacEvent_eq_ok] at hevent
  obtain ⟨_, _, _, _, ns, _, he⟩ := hevent
  rw [he]
  exact ⟨rfl, rfl, rfl, rfl⟩

/-- An EDAC line gives an event exactly when its numbers convert. -/
theorem exists_parseLine_iff (hreport : tryPatterns U (cleanLine U line) = some (.edac type m)) :
    (∃ e q, p.parseLine U line following = .ok (some e, q)) ↔ NumbersConvert U line following := by
  simp only [parseLine_eq_ok hreport, exists_and_left, exists_eq', and_true]
  rw [exists_reportEvent_iff, NumbersConvert, hreport]
  simp only [Option.mem_def, Option.some.injEq, forall_eq']

/-- A block spells its own fields, so it is enough that no parenthesis is in front of it. -/
theorem firstSpells_of_block {front rest : Text}
    (hclean : cleanLine U line = front ++ (b.text ++ rest)) (hfront : '(' ∉ front) :
    FirstSpells U line b := by
  have hblank : ∀ c ∈ " ".toList, isPySpace c = true := List.all_eq_true.mp (by decide)
  let s : Spelling U :=
    { mc := "mc:".toList ++ b.mc ++ " ".toList, page := b.page, gap₁ := " ".toList
      offset := b.offset, gap₂ := " ".toList, grain := b.grain, gap₃ := " ".toList
      syndrome := b.syndrome
      mc_part := .inr ⟨b.mc, " ".toList, b.mc_digits, ⟨by decide, hblank⟩, rfl⟩
      page_digits := b.page_digits, gap₁_blank := hblank, offset_digits := b.offset_digits
      gap₂_blank := hblank, grain_digits := b.grain_digits, gap₃_blank := hblank
      syndrome_digits := b.syndrome_digits }
  refine ⟨front, s, ")".toList ++ rest, ?_, hfront, by simp [isHexDigit], ⟨rfl, rfl, rfl, rfl⟩⟩
  rw [hclean, DetailBlock.text, List.append_assoc]
  rfl

/-- **The fields of a block** are those of the event exactly when the first parenthesis of the
line spells them, and the numbers of the line are converted. -/
theorem extracted_iff (p : TraceParser) (following : List Text) (h : Carries U line b) :
    Extracted U p line following b ↔ NumbersConvert U line following ∧ FirstSpells U line b := by
  obtain ⟨⟨type, m, hreport⟩, hblock⟩ := h.report
  obtain ⟨front, text, hclean, hfront, hclose⟩ := exists_first hblock
  have hcombined : cleanLine U line ++ " ".toList ++ lookAheadEdacLocation U following =
      front ++ '(' :: (text ++ (" ".toList ++ lookAheadEdacLocation U following)) := by
    rw [hclean]
    simp only [List.append_assoc, List.cons_append]
  -- the fields of the event are those of a spelling at the first parenthesis
  have hspelled : FirstSpells U line b ↔ ∃ page offset grain syndrome,
      Captured (edacDetails U
        (cleanLine U line ++ " ".toList ++ lookAheadEdacLocation U following))
        page offset grain syndrome ∧ hexadecimal page = hexadecimal b.page ∧
      hexadecimal offset = hexadecimal b.offset ∧ U.decimal grain = U.decimal b.grain ∧
      syndrome = b.syndrome := by
    rw [firstSpells_iff hclean hfront, hcombined]
    simp only [captured_iff hfront]
    constructor
    · intro h
      obtain ⟨s, rest, htext, hrest, hpage, hoffset, hgrain, hsyndrome⟩ := h
      obtain ⟨rest', hlonger⟩ := (spelled_append_iff hclose s).mpr ⟨rest, htext, hrest⟩
      exact ⟨_, _, _, _, ⟨s, rest', hlonger.1, hlonger.2, rfl, rfl, rfl, rfl⟩, hpage, hoffset,
        hgrain, hsyndrome⟩
    · intro h
      obtain ⟨_, _, _, _, ⟨s, rest, htext, hrest, rfl, rfl, rfl, rfl⟩, hpage, hoffset, hgrain,
        hsyndrome⟩ := h
      obtain ⟨rest', hshorter⟩ := (spelled_append_iff hclose s).mp ⟨rest, htext, hrest⟩
      exact ⟨s, rest', hshorter.1, hshorter.2, hpage, hoffset, hgrain, hsyndrome⟩
  rw [← exists_parseLine_iff (p := p) hreport, hspelled]
  constructor
  · intro h
    obtain ⟨e, q, hparse, hpage, hoffset, hgrain, hsyndrome⟩ := h
    obtain ⟨hone, htwo, hthree, hfour⟩ := parseLine_edac hreport rfl hparse
    obtain ⟨page, hdetail₁, hpage⟩ := Option.map_eq_some_iff.mp (hone.symm.trans hpage)
    obtain ⟨offset, hdetail₂, hoffset⟩ := Option.map_eq_some_iff.mp (htwo.symm.trans hoffset)
    obtain ⟨grain, hdetail₃, hgrain⟩ := Option.map_eq_some_iff.mp (hthree.symm.trans hgrain)
    exact ⟨⟨e, q, hparse⟩, page, offset, grain, _,
      ⟨hdetail₁, hdetail₂, hdetail₃, hfour.symm.trans hsyndrome⟩, hpage, hoffset, hgrain, rfl⟩
  · intro h
    obtain ⟨⟨e, q, hparse⟩, page, offset, grain, syndrome, hcaptured, hpage, hoffset, hgrain,
      rfl⟩ := h
    obtain ⟨hone, htwo, hthree, hfour⟩ := parseLine_edac hreport rfl hparse
    refine ⟨e, q, hparse, ?_, ?_, ?_, hfour.trans hcaptured.syndrome⟩
    · rw [hone, hcaptured.page, Option.map_some, hpage]
    · rw [htwo, hcaptured.offset, Option.map_some, hoffset]
    · rw [hthree, hcaptured.grain, Option.map_some, hgrain]

/-- A label with a parenthesis in front of the block. -/
def slotLine : Text :=
  "[   10.001234] EDAC MC0: 1 CE on DIMM_A1 (slot 2) ".toList ++
    "(mc:0 page:0x12ab offset:0x8 grain:8 syndrome:0x1)".toList

/-- The page of the example is hexadecimal. -/
theorem slotPage_digits : HexDigits "12ab".toList := hexDigits_of_all (List.cons_ne_nil _ _) rfl

def slotBlock : DetailBlock asciiTables where
  mc := "0".toList
  page := "12ab".toList
  offset := "8".toList
  grain := "8".toList
  syndrome := "1".toList
  mc_digits := asciiTables.digits_of_all (List.cons_ne_nil _ _) rfl
  page_digits := slotPage_digits
  offset_digits := hexDigits_of_all (List.cons_ne_nil _ _) rfl
  grain_digits := asciiTables.digits_of_all (List.cons_ne_nil _ _) rfl
  syndrome_digits := hexDigits_of_all (List.cons_ne_nil _ _) rfl

/-- The law for a line which spells a slot. -/
theorem slot_extracted_iff : Extracted asciiTables (TraceParser.new none) slotLine [] slotBlock ↔
    NumbersConvert asciiTables slotLine [] ∧ FirstSpells asciiTables slotLine slotBlock :=
  extracted_iff _ _ (by decide +kernel)

/-- The event has no page, offset, grain or syndrome. -/
theorem slot_block_lost : Carries asciiTables slotLine slotBlock ∧
    ¬ Extracted asciiTables (TraceParser.new none) slotLine [] slotBlock := by
  have hfields : (((TraceParser.new none).parseLine asciiTables slotLine []).toOption.bind
      Prod.fst).map (fun e => (e.page, e.offset, e.grain, e.syndrome)) =
        some (none, none, none, none) := by
    decide +kernel
  refine ⟨by decide +kernel, ?_⟩
  intro h
  obtain ⟨e, q, hparse, hpage, _⟩ := h
  rw [hparse] at hfields
  have hnone : e.page = none := congrArg Prod.fst (Option.some.inj hfields)
  rw [hpage] at hnone
  cases hnone

end Lines

end FaultOracle.Trace
