import Mathlib.Data.List.TakeWhile
import FaultOracle.TraceParser

/-!
# What the EDAC patterns match

`RE_EDAC_LOCATION` matches the text `csrow:<r> channel:<c>`.  Such a text holds no second
`cs`, so matches of it do not overlap, and text put behind a line leaves the match in the
line as it is (`location_append`).
-/

namespace FaultOracle.Trace

open BacktrackingRegex
open FaultOracle.Remediation (isPySpace)

/-- A run of decimal digits. -/
def CharTables.Digits (U : CharTables) (d : Text) : Prop := d ≠ [] ∧ ∀ c ∈ d, U.isDigit c = true

/-- A run of hexadecimal digits. -/
def HexDigits (d : Text) : Prop := d ≠ [] ∧ ∀ c ∈ d, isHexDigit c = true

/-- A run of white space. -/
def Spaces (s : Text) : Prop := s ≠ [] ∧ ∀ c ∈ s, isPySpace c = true

variable {U : CharTables}

/-! ## Characters -/

/-- A text of digits is a number. -/
theorem CharTables.digits_of_all {d : Text} (hne : d ≠ []) (hall : d.all U.isDigit = true) :
    U.Digits d := ⟨hne, List.all_eq_true.mp hall⟩

/-- So is one of hexadecimal digits. -/
theorem hexDigits_of_all {d : Text} (hne : d ≠ []) (hall : d.all isHexDigit = true) :
    HexDigits d := ⟨hne, List.all_eq_true.mp hall⟩

/-- A number has no other characters. -/
theorem CharTables.Digits.notMem {d : Text} (hd : U.Digits d) {c : Char}
    (hc : U.isDigit c = false) : c ∉ d := by
  intro hmem
  rw [hd.2 c hmem] at hc
  cases hc

/-- Nor has white space. -/
theorem Spaces.notMem {s : Text} (hs : Spaces s) {c : Char} (hc : isPySpace c = false) :
    c ∉ s := by
  intro hmem
  rw [hs.2 c hmem] at hc
  cases hc

/-- A blank is white space. -/
theorem isPySpace_blank : isPySpace ' ' = true := rfl

/-- White space is no digit. -/
theorem CharTables.isDigit_of_isPySpace (U : CharTables) {c : Char} (h : isPySpace c = true) :
    U.isDigit c = false := by
  cases hd : U.isDigit c with
  | false => rfl
  | true =>
      rw [U.isPySpace_of_isDigit c hd] at h
      cases h

/-- So white space ends a number. -/
theorem Spaces.stops_digits {s : Text} (hs : Spaces s) (rest : Text) :
    Stops U.isDigit (s ++ rest) := by
  obtain ⟨c, s, rfl⟩ := List.exists_cons_of_ne_nil hs.1
  exact stops_cons.mpr (U.isDigit_of_isPySpace (hs.2 c (by simp)))

/-- And a number ends white space. -/
theorem CharTables.Digits.stops_spaces {d : Text} (hd : U.Digits d) (rest : Text) :
    Stops isPySpace (d ++ rest) := by
  obtain ⟨c, d, rfl⟩ := List.exists_cons_of_ne_nil hd.1
  exact stops_cons.mpr (U.isPySpace_of_isDigit c (hd.2 c (by simp)))

/-- The text of a location. -/
def locationText (row gap channel : Text) : Text :=
  "csrow:".toList ++ row ++ gap ++ "channel:".toList ++ channel

/-- A location, part by part. -/
theorem locationText_eq (row gap channel : Text) :
    locationText row gap channel =
      "csrow:".toList ++ row ++ gap ++ "channel:".toList ++ channel := rfl

/-- A location. -/
structure IsLocation (U : CharTables) (row gap channel : Text) : Prop where
  row : U.Digits row
  gap : Spaces gap
  channel : U.Digits channel

/-- The pattern matches locations and nothing else. -/
theorem lang_reEdacLocation {w : Text} :
    (reEdacLocation U).Lang w ↔
      ∃ row gap channel, IsLocation U row gap channel ∧ w = locationText row gap channel := by
  simp only [reEdacLocation, lang_append, lang_lit, lang_group, lang_plus]
  constructor
  · intro h
    obtain ⟨_, channel, ⟨_, _, ⟨_, gap, ⟨_, row, rfl, hrow, rfl⟩, hgap, rfl⟩, rfl, rfl⟩,
      hch, hw⟩ := h
    exact ⟨row, gap, channel, ⟨hrow, hgap, hch⟩, hw⟩
  · intro h
    obtain ⟨row, gap, channel, hloc, hw⟩ := h
    exact ⟨_, channel, ⟨_, _, ⟨_, gap, ⟨_, row, rfl, hloc.row, rfl⟩, hloc.gap, rfl⟩, rfl, rfl⟩,
      hloc.channel, hw⟩

/-- It has no anchor. -/
theorem reEdacLocation_plain : (reEdacLocation U).Plain := by
  simp [reEdacLocation]

/-- The groups of a location. -/
def locationGroups (row channel : Text) : Groups :=
  Function.update (Function.update (fun _ => none) 1 (some row)) 2 (some channel)

/-- A location is read as a whole. -/
theorem IsLocation.reads {row gap channel : Text} (h : IsLocation U row gap channel)
    {rest : Text} (hrest : Stops U.isDigit rest) :
    ∃ f, Reads (reEdacLocation U) (locationText row gap channel) rest f ∧
      f (fun _ => none) = locationGroups row channel := by
  refine ⟨_, ((((reads_lit _ _).append ((reads_plus h.row.1 h.row.2 ?_).group 1)).append
    (reads_plus h.gap.1 h.gap.2 ?_)).append (reads_lit _ _)).append
    ((reads_plus h.channel.1 h.channel.2 hrest).group 2), rfl⟩
  · exact h.gap.stops_digits _
  · simp [show isPySpace 'c' = false from rfl]

/-! ## Where a location can begin -/

/-- A text at the start of two others is in the first or reaches into the second. -/
theorem prefix_append_cases {w a b : Text} (h : w <+: a ++ b) :
    w <+: a ∨ ∃ w', w = a ++ w' ∧ w' <+: b := by
  rcases List.prefix_or_prefix_of_prefix h (List.prefix_append a b) with hw | ⟨w', rfl⟩
  · exact Or.inl hw
  · exact Or.inr ⟨w', rfl, (List.prefix_append_right_inj a).mp h⟩

/-- A prefix which does not hold `x` ends before it. -/
theorem prefix_of_notMem {w a b : Text} {x : Char} (h : w <+: a ++ x :: b) (hx : x ∉ w) :
    w <+: a := by
  rcases prefix_append_cases h with hw | ⟨w', rfl, hw'⟩
  · exact hw
  · cases w' with
    | nil => simp
    | cons y w' =>
        obtain ⟨rfl, _⟩ := List.cons_prefix_cons.mp hw'
        simp at hx

/-- A location has only its words, digits and white space. -/
theorem IsLocation.notMem {row gap channel : Text} (h : IsLocation U row gap channel) {x : Char}
    (hdigit : U.isDigit x = false) (hspace : isPySpace x = false)
    (hrow : x ∉ "csrow:".toList) (hchannel : x ∉ "channel:".toList) :
    x ∉ locationText row gap channel := by
  simp only [locationText_eq, List.mem_append, not_or]
  exact ⟨⟨⟨⟨hrow, h.row.notMem hdigit⟩, h.gap.notMem hspace⟩, hchannel⟩, h.channel.notMem hdigit⟩

/-- A location which begins before a character it cannot hold ends before it. -/
theorem at_of_append_cons {a b : Text} {x : Char} (h : (reEdacLocation U).At (a ++ x :: b))
    (hdigit : U.isDigit x = false) (hspace : isPySpace x = false)
    (hrow : x ∉ "csrow:".toList) (hchannel : x ∉ "channel:".toList) :
    (reEdacLocation U).At a := by
  obtain ⟨w, hw, hpre⟩ := h
  obtain ⟨row, gap, channel, hloc, rfl⟩ := lang_reEdacLocation.mp hw
  exact ⟨_, hw, prefix_of_notMem hpre (hloc.notMem hdigit hspace hrow hchannel)⟩

/-- The second `c` of a location is that of `channel`. -/
theorem IsLocation.eq_of_append_c {row gap channel a w : Text}
    (h : IsLocation U row gap channel) (ha : a ≠ [])
    (hsplit : locationText row gap channel = a ++ 'c' :: w) : w = "hannel:".toList ++ channel := by
  obtain ⟨d, a, rfl⟩ := List.exists_cons_of_ne_nil ha
  have hdigit : U.isDigit 'c' = false := by simp [U.isDigit_ascii]
  have hspace : isPySpace 'c' = false := rfl
  have hfront : 'c' ∉ "srow:".toList ++ row ++ gap := by
    simp only [List.mem_append, not_or]
    exact ⟨⟨by decide, h.row.notMem hdigit⟩, h.gap.notMem hspace⟩
  have hback : 'c' ∉ "hannel:".toList ++ channel := by
    simp only [List.mem_append, not_or]
    exact ⟨by decide, h.channel.notMem hdigit⟩
  have htail : ("srow:".toList ++ row ++ gap) ++ 'c' :: ("hannel:".toList ++ channel) =
      a ++ 'c' :: w := by
    simp only [locationText_eq, String.reduceToList, List.cons_append, List.append_assoc,
      List.cons.injEq] at hsplit
    simpa using hsplit.2
  exact ((List.append_cons_inj_of_notMem hfront hback).mp htail).2.2.symm

/-- A location which begins before a `cs` ends before it. -/
theorem at_of_append_cs {a b : Text} (ha : a ≠ [])
    (h : (reEdacLocation U).At (a ++ 'c' :: 's' :: b)) : (reEdacLocation U).At a := by
  obtain ⟨w, hw, hpre⟩ := h
  obtain ⟨row, gap, channel, hloc, rfl⟩ := lang_reEdacLocation.mp hw
  rcases prefix_append_cases hpre with hpre | ⟨w', hsplit, hw'⟩
  · exact ⟨_, hw, hpre⟩
  · cases w' with
    | nil => exact ⟨_, hw, by simp [hsplit]⟩
    | cons y w' =>
        obtain ⟨rfl, hw'⟩ := List.cons_prefix_cons.mp hw'
        rw [hloc.eq_of_append_c ha hsplit] at hw'
        simp at hw'

/-! ## Locations in a text -/

/-- A location can be read to its end. -/
theorem exists_location_of_at {text : Text} (h : (reEdacLocation U).At text) :
    ∃ row gap channel rest, IsLocation U row gap channel ∧
      text = locationText row gap channel ++ rest ∧ Stops U.isDigit rest := by
  obtain ⟨w, hw, rest, rfl⟩ := h
  obtain ⟨row, gap, channel, hloc, rfl⟩ := lang_reEdacLocation.mp hw
  refine ⟨row, gap, channel ++ rest.takeWhile U.isDigit, rest.dropWhile U.isDigit, ?_, ?_, ?_⟩
  · refine ⟨hloc.row, hloc.gap, by simp [hloc.channel.1], ?_⟩
    intro c hc
    rcases List.mem_append.mp hc with hc | hc
    · exact hloc.channel.2 c hc
    · exact List.mem_takeWhile_imp hc
  · simp only [locationText_eq, List.append_assoc, List.takeWhile_append_dropWhile]
  · intro c hc
    have hnot := List.head?_dropWhile_not U.isDigit rest
    rw [Option.mem_def.mp hc] at hnot
    simpa using hnot

/-- The leftmost location of a text is the one found. -/
theorem IsLocation.search {row gap channel pre rest : Text} (h : IsLocation U row gap channel)
    (hrest : Stops U.isDigit rest)
    (hpre : ∀ u v, pre = u ++ v → v ≠ [] →
      ¬ (reEdacLocation U).At (v ++ (locationText row gap channel ++ rest))) :
    (reEdacLocation U).search (pre ++ (locationText row gap channel ++ rest)) =
      some ⟨pre, rest, locationGroups row channel⟩ := by
  obtain ⟨f, hreads, hf⟩ := h.reads hrest
  rw [hreads.search hpre, hf]

/-- No location begins before the start of another one, unless it ends before it. -/
theorem not_at_append_location {row gap channel rest v : Text} (hv : v ≠ [])
    (h : ¬ (reEdacLocation U).At v) :
    ¬ (reEdacLocation U).At (v ++ (locationText row gap channel ++ rest)) := by
  intro hat
  apply h
  apply at_of_append_cs hv
  simpa [locationText_eq] using hat

/-- A location of a text is found in the same way when more text follows, as long as that
does not go on with digits. -/
theorem search_location_append {text more : Text} {m : Match}
    (h : (reEdacLocation U).search text = some m) (hmore : Stops U.isDigit more) :
    ∃ m', (reEdacLocation U).search (text ++ more) = some m' ∧ m'.groups = m.groups := by
  obtain ⟨tail, hsplit, hmatch, hnone⟩ := reEdacLocation_plain.search_eq_some h
  obtain ⟨row, gap, channel, rest, hloc, rfl, hrest⟩ :=
    exists_location_of_at (at_of_matchFrom hmatch)
  have hmore' : Stops U.isDigit (rest ++ more) := by
    cases rest with
    | nil => exact hmore
    | cons c rest => simpa using hrest
  have hearlier : ∀ (tail : Text) (u v), m.pre = u ++ v → v ≠ [] →
      ¬ (reEdacLocation U).At (v ++ (locationText row gap channel ++ tail)) := by
    intro tail u v huv hv
    exact not_at_append_location hv fun hat => hnone u v huv hv (hat.append _)
  have hhere := hloc.search hrest (hearlier rest)
  have hthere := hloc.search hmore' (hearlier (rest ++ more))
  rw [← hsplit, h] at hhere
  refine ⟨⟨m.pre, rest ++ more, locationGroups row channel⟩, ?_,
    (congrArg Match.groups (Option.some.inj hhere)).symm⟩
  rw [hsplit, List.append_assoc, List.append_assoc, hthere]

/-- A blank at the end of a text makes no location. -/
theorem occurs_location_append_blank {text : Text} :
    (reEdacLocation U).Occurs (text ++ [' ']) ↔ (reEdacLocation U).Occurs text := by
  constructor
  · intro ⟨u, v, hsplit, w, hw, hpre⟩
    obtain ⟨row, gap, channel, hloc, rfl⟩ := lang_reEdacLocation.mp hw
    rcases List.eq_nil_or_concat v with rfl | ⟨v', c, rfl⟩
    · simp [locationText_eq] at hpre
    · rw [List.concat_eq_append] at hsplit hpre
      rw [← List.append_assoc] at hsplit
      obtain ⟨rfl, hc⟩ := List.append_inj' hsplit rfl
      obtain rfl := (List.cons.inj hc).1
      rcases List.prefix_concat_iff.mp hpre with hwhole | hfront
      · -- a location ends with a digit
        obtain ⟨front, last, hlast⟩ := (List.eq_nil_or_concat channel).resolve_left hloc.channel.1
        rw [List.concat_eq_append] at hlast
        have hend : ("csrow:".toList ++ row ++ gap ++ "channel:".toList ++ front) ++ [last] =
            v' ++ [' '] := by
          rw [← hwhole, locationText_eq, hlast, List.append_assoc]
        have hblank : last = ' ' := (List.cons.inj (List.append_inj' hend rfl).2).1
        have hdigit := hloc.channel.2 last (by simp [hlast])
        rw [hblank, U.isDigit_of_isPySpace (by decide)] at hdigit
        cases hdigit
      · exact ⟨u, v', rfl, _, hw, hfront⟩
  · intro h
    exact h.append_right _

/-! ## Reports and details -/

/-- The part of an EDAC report which names the controller, the count and the kind. -/
def reportText (controller count kind : Text) : Text :=
  "EDAC".toList ++ " ".toList ++ ("MC".toList ++ controller) ++ ":".toList ++ " ".toList ++
    count ++ " ".toList ++ kind

/-- A report, part by part. -/
theorem reportText_eq (controller count kind : Text) :
    reportText controller count kind =
      "EDAC".toList ++ " ".toList ++ ("MC".toList ++ controller) ++ ":".toList ++ " ".toList ++
        count ++ " ".toList ++ kind := rfl

/-- The detail block, up to its closing parenthesis. -/
def detailText (mc page offset grain syndrome : Text) : Text :=
  "(".toList ++ ("mc:".toList ++ mc ++ " ".toList) ++
    ("page:0x".toList ++ page ++ " ".toList) ++ ("offset:0x".toList ++ offset ++ " ".toList) ++
    ("grain:".toList ++ grain ++ " ".toList) ++ ("syndrome:0x".toList ++ syndrome)

/-- The details, part by part. -/
theorem detailText_eq (mc page offset grain syndrome : Text) :
    detailText mc page offset grain syndrome =
      "(".toList ++ ("mc:".toList ++ mc ++ " ".toList) ++
        ("page:0x".toList ++ page ++ " ".toList) ++
        ("offset:0x".toList ++ offset ++ " ".toList) ++
        ("grain:".toList ++ grain ++ " ".toList) ++ ("syndrome:0x".toList ++ syndrome) := rfl

/-- A blank is read by `\s+`, and by `\s*`. -/
theorem reads_blank {rest : Text} (hrest : Stops isPySpace rest) :
    Reads (Re.plus isPySpace) " ".toList rest id := by
  apply reads_plus _ _ hrest
  · simp
  · simp [isPySpace_blank]

/-- One blank is read where white space may stand. -/
theorem reads_blank' {rest : Text} (hrest : Stops isPySpace rest) :
    Reads (.star isPySpace) " ".toList rest id := by
  apply reads_star _ hrest
  simp [isPySpace_blank]

/-- A number is read up to the first character which is no digit. -/
theorem CharTables.Digits.reads {d rest : Text} (hd : U.Digits d) (hrest : Stops U.isDigit rest) :
    Reads (Re.plus U.isDigit) d rest id := reads_plus hd.1 hd.2 hrest

/-- So is a hexadecimal one. -/
theorem HexDigits.reads {d rest : Text} (hd : HexDigits d) (hrest : Stops isHexDigit rest) :
    Reads (Re.plus isHexDigit) d rest id := reads_plus hd.1 hd.2 hrest

/-- The groups of an EDAC report. -/
def reportGroups (controller count : Text) : Groups :=
  Function.update (Function.update (fun _ => none) 1 (some ("MC".toList ++ controller))) 2
    (some count)

/-- The pattern of corrected errors, with its word. -/
theorem reEdacCe_eq : reEdacCe U = reEdac U ['C', 'E'] := rfl

/-- That of uncorrected ones, with its own. -/
theorem reEdacUe_eq : reEdacUe U = reEdac U ['U', 'E'] := rfl

/-- An EDAC report, of the kind which `k` begins, is read up to the word end. -/
theorem reads_reEdac {controller count rest : Text} {k : Char} (hcontroller : U.Digits controller)
    (hcount : U.Digits count) (hk : isPySpace k = false) (hrest : Stops U.isWord rest) :
    ∃ f, Reads (reEdac U [k, 'E']) (reportText controller count [k, 'E']) rest f ∧
      f (fun _ => none) = reportGroups controller count := by
  have hword : U.isWord 'E' = true := by simp [U.isWord_ascii]
  have hkind : Reads (Re.lit ([k] ++ ['E']) ++ .boundary U.isWord) ([k] ++ ['E']) rest id :=
    (reads_lit _ _).wordEnd hword hrest
  refine ⟨_, ((((((((reads_lit _ _).append (reads_blank ?_)).append
    (((reads_lit _ _).append (hcontroller.reads ?_)).group 1)).append (reads_lit _ _)).append
    (reads_blank ?_)).append ((hcount.reads ?_).group 2)).append (reads_blank ?_)).append hkind),
    rfl⟩
  · simp [show isPySpace 'M' = false from rfl]
  · simp [U.isDigit_ascii]
  · exact hcount.stops_spaces _
  · simp [U.isDigit_ascii]
  · simp [hk]

/-- The groups of the details. -/
def detailGroups (page offset grain syndrome : Text) : Groups :=
  Function.update (Function.update (Function.update (Function.update (fun _ => none)
    1 (some page)) 2 (some offset)) 3 (some grain)) 4 (some syndrome)

/-- A complete detail block is read up to its closing parenthesis. -/
theorem reads_reEdacDetails {mc page offset grain syndrome rest : Text} (hmc : U.Digits mc)
    (hpage : HexDigits page) (hoffset : HexDigits offset) (hgrain : U.Digits grain)
    (hsyndrome : HexDigits syndrome) (hrest : Stops isHexDigit rest) :
    ∃ f, Reads (reEdacDetails U) (detailText mc page offset grain syndrome) rest f ∧
      f (fun _ => none) = detailGroups page offset grain syndrome := by
  refine ⟨_, (((((reads_lit _ _).append
    (((reads_lit _ _).append (hmc.reads ?_)).append (reads_blank ?_)).opt).append
    (((reads_lit _ _).append ((hpage.reads ?_).group 1)).append (reads_blank' ?_)).opt).append
    (((reads_lit _ _).append ((hoffset.reads ?_).group 2)).append (reads_blank' ?_)).opt).append
    (((reads_lit _ _).append ((hgrain.reads ?_).group 3)).append (reads_blank' ?_)).opt).append
    ((reads_lit _ _).append ((hsyndrome.reads hrest).group 4)).opt, rfl⟩
  · simp [U.isDigit_ascii]
  · simp [show isPySpace 'p' = false from rfl]
  · simp [show isHexDigit ' ' = false from rfl]
  · simp [show isPySpace 'o' = false from rfl]
  · simp [show isHexDigit ' ' = false from rfl]
  · simp [show isPySpace 'g' = false from rfl]
  · simp [U.isDigit_ascii]
  · simp [show isPySpace 's' = false from rfl]

/-! ## Which report a line makes -/

/-- A run of a class is told from what follows it. -/
theorem span_unique {p : Char → Bool} {d d' r r' : Text} {x y : Char}
    (hd : ∀ c ∈ d, p c = true) (hd' : ∀ c ∈ d', p c = true) (hx : p x = false)
    (hy : p y = false) (h : d ++ x :: r = d' ++ y :: r') : d = d' ∧ x :: r = y :: r' := by
  induction d generalizing d' with
  | nil =>
      cases d' with
      | nil => exact ⟨rfl, h⟩
      | cons e d' =>
          obtain ⟨rfl, _⟩ := List.cons.inj h
          rw [hd' x (by simp)] at hx
          cases hx
  | cons c d ih =>
      cases d' with
      | nil =>
          obtain ⟨rfl, _⟩ := List.cons.inj h
          rw [hd c (by simp)] at hy
          cases hy
      | cons e d' =>
          obtain ⟨rfl, htail⟩ := List.cons.inj h
          obtain ⟨rfl, hrest⟩ := ih (fun a ha => hd a (List.mem_cons_of_mem c ha))
            (fun a ha => hd' a (List.mem_cons_of_mem c ha)) htail
          exact ⟨rfl, hrest⟩

/-- What they match, part by part. -/
theorem lang_reEdac {kind w : Text} (h : (reEdac U kind).Lang w) :
    ∃ s₁ d₁ s₂ d₂ s₃, Spaces s₁ ∧ U.Digits d₁ ∧ Spaces s₂ ∧ U.Digits d₂ ∧ Spaces s₃ ∧
      w = "EDAC".toList ++ s₁ ++ ("MC".toList ++ d₁) ++ ":".toList ++ s₂ ++ d₂ ++ s₃ ++ kind := by
  simp only [reEdac, lang_append, lang_lit, lang_group, lang_plus, lang_boundary] at h
  obtain ⟨_, _, ⟨_, s₃, ⟨_, d₂, ⟨_, s₂, ⟨_, _, ⟨_, _, ⟨_, s₁, rfl, h₁, rfl⟩, ⟨_, d₁, rfl, h₂, rfl⟩,
    rfl⟩, rfl, rfl⟩, h₃, rfl⟩, h₄, rfl⟩, h₅, rfl⟩, ⟨_, _, rfl, rfl, rfl⟩, rfl⟩ := h
  exact ⟨s₁, d₁, s₂, d₂, s₃, h₁, h₂, h₃, h₄, h₅, by rw [List.append_nil]⟩

/-- It begins with the word of the driver. -/
theorem at_reEdac_start {kind text : Text} (h : (reEdac U kind).At text) :
    ['E', 'D', 'A', 'C'] <+: text := by
  simpa using at_lit.mp h.left.left.left.left.left.left.left

/-- A report is not also one of another kind. -/
theorem not_at_report {controller count rest : Text} {k k' : Char}
    (hcontroller : U.Digits controller) (hcount : U.Digits count) (hk : isPySpace k = false)
    (hk' : isPySpace k' = false) (hne : k ≠ k') :
    ¬ (reEdac U [k', 'E']).At (reportText controller count [k, 'E'] ++ rest) := by
  intro ⟨w, hw, more, hmore⟩
  obtain ⟨s₁, d₁, s₂, d₂, s₃, hs₁, hd₁, hs₂, hd₂, hs₃, rfl⟩ := lang_reEdac hw
  obtain ⟨c, count, rfl⟩ := List.exists_cons_of_ne_nil hcount.1
  obtain ⟨c', d₂, rfl⟩ := List.exists_cons_of_ne_nil hd₂.1
  obtain ⟨b, s₃, rfl⟩ := List.exists_cons_of_ne_nil hs₃.1
  have hM : isPySpace 'M' = false := rfl
  have hblanks : ∀ a ∈ [' '], isPySpace a = true := by simp [isPySpace_blank]
  have hcolon : U.isDigit ':' = false := by simp [U.isDigit_ascii]
  have hblank : U.isDigit ' ' = false := by simp [U.isDigit_ascii]
  have hb : U.isDigit b = false := U.isDigit_of_isPySpace (hs₃.2 b (by simp))
  have hc : isPySpace c = false := U.isPySpace_of_isDigit c (hcount.2 c (by simp))
  have hc' : isPySpace c' = false := U.isPySpace_of_isDigit c' (hd₂.2 c' (by simp))
  simp only [reportText_eq, List.append_assoc, List.append_cancel_left_eq] at hmore
  -- run by run, both sides read the same text, up to the letter of the kind
  have h₁ := (span_unique hs₁.2 hblanks hM hM hmore).2
  have hC := (List.cons.inj (List.cons.inj h₁).2).2
  have h₂ := (span_unique hd₁.2 hcontroller.2 hcolon hcolon hC).2
  have h₃ := (span_unique hs₂.2 hblanks hc' hc (List.cons.inj h₂).2).2
  have h₄ := (span_unique hd₂.2 hcount.2 hb hblank h₃).2
  have h₅ := (span_unique hs₃.2 hblanks hk' hk h₄).2
  exact hne (List.cons.inj h₅).1.symm

/-- A report at the start of a line is found. -/
theorem search_report {controller count tail : Text} {k : Char} (hcontroller : U.Digits controller)
    (hcount : U.Digits count) (hk : isPySpace k = false) (htail : Stops U.isWord tail) :
    (reEdac U [k, 'E']).search (reportText controller count [k, 'E'] ++ tail) =
      some ⟨[], tail, reportGroups controller count⟩ := by
  obtain ⟨f, hreads, hf⟩ := reads_reEdac hcontroller hcount hk htail
  rw [Re.search, searchFrom_of_matchFrom (hreads.matchFrom []), hf]
  rfl

/-- The only `E` of a report, after its first character, is its last. -/
theorem report_last_E {controller count skipped left : Text} {k x : Char}
    (hcontroller : U.Digits controller) (hcount : U.Digits count) (hkE : k ≠ 'E')
    (h : reportText controller count [k, 'E'] = x :: skipped ++ 'E' :: left) : left = [] := by
  have hdigit : U.isDigit 'E' = false := by simp [U.isDigit_ascii]
  have hmiddle : 'E' ∉ "DAC MC".toList ++ (controller ++ (": ".toList ++ (count ++ [' ', k]))) := by
    simp [hcontroller.notMem hdigit, hcount.notMem hdigit, hkE.symm]
  have hword : 'E' = x ∧ "DAC MC".toList ++ (controller ++ (": ".toList ++ (count ++ [' ', k]))) ++
      'E' :: [] = skipped ++ 'E' :: left := by
    simpa [reportText_eq] using h
  exact ((List.append_cons_inj_of_notMem hmiddle (by simp)).mp hword.2).2.2.symm

/-- No report of another kind begins inside a report. -/
theorem not_at_inside {controller count skipped left tail : Text} {k k' : Char}
    (hcontroller : U.Digits controller) (hcount : U.Digits count) (hk : isPySpace k = false)
    (hk' : isPySpace k' = false) (hne : k ≠ k') (hkE : k ≠ 'E') (htail : Stops U.isWord tail)
    (hreport : reportText controller count [k, 'E'] = skipped ++ left) (hleft : left ≠ []) :
    ¬ (reEdac U [k', 'E']).At (left ++ tail) := by
  intro hat
  obtain ⟨e, left, rfl⟩ := List.exists_cons_of_ne_nil hleft
  cases skipped with
  | nil =>
      rw [List.nil_append] at hreport
      rw [← hreport] at hat
      exact not_at_report hcontroller hcount hk hk' hne hat
  | cons x skipped =>
      obtain ⟨rfl, hD⟩ := List.cons_prefix_cons.mp (at_reEdac_start hat)
      obtain rfl := report_last_E hcontroller hcount hkE hreport
      change ['D', 'A', 'C'] <+: tail at hD
      cases tail with
      | nil => simp at hD
      | cons d tail =>
          obtain ⟨rfl, _⟩ := List.cons_prefix_cons.mp hD
          simp [U.isWord_ascii] at htail

/-- A report of another kind comes after it. -/
theorem report_before_other {controller count tail : Text} {k k' : Char} {m : Match}
    (hcontroller : U.Digits controller) (hcount : U.Digits count) (hk : isPySpace k = false)
    (hk' : isPySpace k' = false) (hne : k ≠ k') (hkE : k ≠ 'E') (htail : Stops U.isWord tail)
    (h : (reEdac U [k', 'E']).search (reportText controller count [k, 'E'] ++ tail) = some m) :
    [k, 'E'] <:+: m.pre := by
  obtain ⟨skipped, rest, hsplit, hmatch, _⟩ := searchFrom_eq_some h
  have hpre : m.pre = skipped := by simpa using matchFrom_pre hmatch
  have hat : (reEdac U [k', 'E']).At rest := at_of_matchFrom hmatch
  have hend : [k, 'E'] <:+: reportText controller count [k, 'E'] :=
    (List.suffix_append _ _).isInfix
  rw [hpre]
  rcases List.append_eq_append_iff.mp hsplit with ⟨more, rfl, _⟩ | ⟨left, hreport, rfl⟩
  · exact hend.trans (List.prefix_append _ _).isInfix
  · by_cases hleft : left = []
    · rw [hleft, List.append_nil] at hreport
      rw [← hreport]
      exact hend
    · exact absurd hat (not_at_inside hcontroller hcount hk hk' hne hkE htail hreport hleft)

/-- The kind of a memory error. -/
inductive EdacKind
  | ce
  | ue
deriving DecidableEq

/-- Its word in the log. -/
def EdacKind.word : EdacKind → Text
  | .ce => ['C', 'E']
  | .ue => ['U', 'E']

def EdacKind.type : EdacKind → EventType
  | .ce => .ce
  | .ue => .ue

/-- **A line which begins with a report** is claimed by the pattern of its kind, whatever
follows. -/
theorem tryPatterns_report {controller count tail : Text} (kind : EdacKind)
    (hcontroller : U.Digits controller) (hcount : U.Digits count) (htail : Stops U.isWord tail) :
    ∃ m, tryPatterns U (reportText controller count kind.word ++ tail) =
        some (.edac kind.type m) ∧ m.groups = reportGroups controller count := by
  have hedac : "EDAC".toList <:+: reportText controller count kind.word ++ tail := by
    simp only [reportText_eq, List.append_assoc]
    exact (List.prefix_append _ _).isInfix
  have hC : isPySpace 'C' = false := rfl
  have hU : isPySpace 'U' = false := rfl
  refine ⟨⟨[], tail, reportGroups controller count⟩, ?_, rfl⟩
  cases kind with
  | ce =>
      have hfound := search_report hcontroller hcount hC htail
      rw [tryPatterns, tryEdac, if_pos hedac, reEdacCe_eq]
      simp only [EdacKind.word, hfound]
      rw [if_neg (by simp)]
      rfl
  | ue =>
      have hfound := search_report hcontroller hcount hU htail
      rw [tryPatterns, tryEdac, if_pos hedac, reEdacCe_eq, reEdacUe_eq]
      simp only [EdacKind.word, hfound]
      cases hce : (reEdac U ['C', 'E']).search (reportText controller count ['U', 'E'] ++ tail) with
      | none => rfl
      | some m =>
          have hguard : "UE".toList <:+: m.pre := by
            simpa using report_before_other hcontroller hcount hU hC (by decide) (by decide)
              htail hce
          simp only [if_pos hguard]
          rfl

/-! ## What follows the report -/

/-- Details begin with a bracket. -/
theorem at_reEdacDetails_start {text : Text} (h : (reEdacDetails U).At text) : ['('] <+: text := by
  simpa using at_lit.mp h.left.left.left.left.left

/-- The details of a line are those of its first parenthesis. -/
theorem edacDetails_eq {front mc page offset grain syndrome rest : Text} (hfront : '(' ∉ front)
    (hmc : U.Digits mc) (hpage : HexDigits page) (hoffset : HexDigits offset)
    (hgrain : U.Digits grain) (hsyndrome : HexDigits syndrome) (hrest : Stops isHexDigit rest) :
    edacDetails U (front ++ (detailText mc page offset grain syndrome ++ rest)) =
      detailGroups page offset grain syndrome := by
  obtain ⟨f, hreads, hf⟩ := reads_reEdacDetails hmc hpage hoffset hgrain hsyndrome hrest
  rw [edacDetails, hreads.search, ← hf]
  · rfl
  · intro u v hsplit hv hat
    obtain ⟨c, v, rfl⟩ := List.exists_cons_of_ne_nil hv
    obtain ⟨rfl, _⟩ := List.cons_prefix_cons.mp (at_reEdacDetails_start hat)
    apply hfront
    simp [hsplit]

/-- A location has its first word in it. -/
theorem infix_of_occurs_location {text : Text} (h : (reEdacLocation U).Occurs text) :
    "csrow:".toList <:+: text := by
  obtain ⟨u, v, rfl, hat⟩ := h
  exact (at_lit.mp hat.left.left.left.left).isInfix.trans (List.suffix_append u v).isInfix

/-- A text without a character lies on one side of it. -/
theorem infix_append_cons {w a b : Text} {x : Char} (h : w <:+: a ++ x :: b) (hx : x ∉ w) :
    w <:+: a ∨ w <:+: b := by
  obtain ⟨u, v, hsplit⟩ := h
  rw [List.append_assoc] at hsplit
  rcases List.append_eq_append_iff.mp hsplit with ⟨left, rfl, hleft⟩ | ⟨more, rfl, hmore⟩
  · have hpre : w <+: left := prefix_of_notMem ⟨v, hleft⟩ hx
    exact Or.inl (hpre.isInfix.trans (List.suffix_append _ _).isInfix)
  · cases more with
    | nil =>
        have hpre : w <+: [] := prefix_of_notMem (a := []) ⟨v, hmore.symm⟩ hx
        obtain rfl := List.prefix_nil.mp hpre
        exact Or.inl (List.nil_infix)
    | cons y more =>
        obtain ⟨_, rfl⟩ := List.cons.inj hmore
        exact Or.inr ⟨more, v, List.append_assoc _ _ _⟩

/-- A location lies on one side of a character it cannot hold. -/
theorem occurs_append_cons {a b : Text} {x : Char} (h : (reEdacLocation U).Occurs (a ++ x :: b))
    (hdigit : U.isDigit x = false) (hspace : isPySpace x = false)
    (hrow : x ∉ "csrow:".toList) (hchannel : x ∉ "channel:".toList) :
    (reEdacLocation U).Occurs a ∨ (reEdacLocation U).Occurs b := by
  obtain ⟨u, v, hsplit, hat⟩ := h
  rcases List.append_eq_append_iff.mp hsplit with ⟨more, rfl, hmore⟩ | ⟨left, rfl, rfl⟩
  · cases more with
    | nil =>
        rw [List.nil_append] at hmore
        rw [← hmore] at hat
        have hnil : (reEdacLocation U).At [] :=
          at_of_append_cons (a := []) hat hdigit hspace hrow hchannel
        exact Or.inl (by simpa using hnil.occurs.append_left a)
    | cons y more =>
        obtain ⟨_, rfl⟩ := List.cons.inj hmore
        exact Or.inr ⟨more, v, rfl, hat⟩
  · exact Or.inl ⟨u, left, rfl, at_of_append_cons hat hdigit hspace hrow hchannel⟩

end FaultOracle.Trace
