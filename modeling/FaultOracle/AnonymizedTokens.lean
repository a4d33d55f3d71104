import FaultOracle.AddressTokens
import FaultOracle.SubstitutionBlocks

/-!
# What the patterns find in a text

Every pattern needs some number of separators (`marks_of_lang`), so that most runs of a text
are of no interest to the anonymizer (`notable`).  Where a pattern can match depends on the
word boundaries only (`spans_iff`), and a token is matched as a whole (`match_token`) unless it
is an IPv6 address in one of the forms of which the pattern finds a part.
-/

namespace FaultOracle.Anonymize

open BacktrackingRegex
open FaultOracle.Trace (Text isHexDigit asciiTables)

/-! ## Separators -/

/-- The separators which a pattern needs. -/
def Kind.mark : Kind → Char → Bool
  | mac => isSeparator
  | bdf => fun c => c == ':'
  | uuid => fun c => c == '-'
  | ipv6 => fun c => c == ':'
  | ipv4 => fun c => c == '.'

/-- How many of them. -/
def Kind.marks : Kind → Nat
  | mac => 5
  | bdf => 2
  | uuid => 4
  | ipv6 => 2
  | ipv4 => 3

section Marks

variable {U : WordTables} {k : Kind} {g t w text tail : Text}

/-- No separator is a hexadecimal digit. -/
theorem isHexDigit_of_mark {c : Char} (k : Kind) (h : k.mark c = true) : isHexDigit c = false := by
  cases k with
  | mac => rcases Bool.or_eq_true_iff.mp h with h | h <;> rw [beq_iff_eq.mp h] <;> rfl
  | _ => rw [beq_iff_eq.mp h]; rfl

/-- So hexadecimal digits have no separators among them. -/
theorem marks_hex (k : Kind) (hg : ∀ c ∈ g, isHexDigit c = true) : g.countP k.mark = 0 :=
  countP_hex hg fun _ => isHexDigit_of_mark k

/-- Groups with a colon behind each have as many colons as groups. -/
theorem marks_colons {gs : List Text} (hgs : ∀ g ∈ gs, IsHexGroup g) :
    (colons gs).countP (fun c => c == ':') = gs.length := by
  induction gs with
  | nil => rfl
  | cons g gs ih =>
      rw [List.forall_mem_cons] at hgs
      have hg : g.countP (fun c => c == ':') = 0 := marks_hex .ipv6 hgs.1.all
      rw [colons_cons, List.countP_append, List.countP_cons, ih hgs.2, hg]
      simp

/-- Every match has the separators its pattern needs. -/
theorem marks_of_lang (k : Kind) (hw : (k.pattern U).Lang w) : k.marks ≤ w.countP k.mark := by
  cases k with
  | mac => exact (size_of_lang_reMac hw).2.ge
  | bdf =>
      obtain ⟨domain, bus, device, function, hdomain, hbus, hdevice, hfunction, rfl⟩ :=
        lang_reBdf.mp hw
      simp only [List.countP_append, List.countP_cons, Kind.mark, Kind.marks]
      simp
      omega
  | uuid =>
      obtain ⟨a, b, c, d, e, ha, hb, hc, hd, he, rfl⟩ := lang_reUuid.mp hw
      simp only [List.countP_append, List.countP_cons, Kind.mark, Kind.marks]
      simp
      omega
  | ipv6 =>
      rcases hw with hw | hw | hw
      · obtain ⟨gs, g, hlen, hgs, _, rfl⟩ := lang_reIpv6Full.mp hw
        simp only [List.countP_append, Kind.mark, Kind.marks, marks_colons hgs]
        omega
      · obtain ⟨gs, g, _, hgs, _, rfl⟩ := lang_reIpv6Leading.mp hw
        simp only [List.countP_append, List.countP_cons, Kind.mark, Kind.marks, marks_colons hgs]
        simp
      · obtain ⟨gs, hlen, hgs, rfl⟩ := lang_reIpv6Trailing.mp hw
        simp only [List.countP_append, Kind.mark, Kind.marks, marks_colons hgs]
        simp
        omega
  | ipv4 => exact (points_of_lang_reIpv4 hw).1.ge

/-- A text with too few separators has no match. -/
theorem not_occurs_of_marks (k : Kind) (h : text.countP k.mark < k.marks) :
    ¬ (k.pattern U).Occurs text :=
  not_occurs_of_countP (fun _ => marks_of_lang k) h

/-- The number of a placeholder has no separators. -/
theorem marks_placeholder (k : Kind) (start : Text) (n : Nat) :
    (placeholder start n).countP k.mark = start.countP k.mark := by
  rw [placeholder, List.countP_append,
    marks_hex k fun c hc => isHexDigit_of_isDigit (isDigit_of_mem_padded hc), Nat.add_zero]

/-- Every address has the separators its pattern needs. -/
theorem marks_of_address (k : Kind) (ht : IsAddress k t) : k.marks ≤ t.countP k.mark := by
  cases k with
  | mac => exact marks_of_lang .mac (U := asciiWords) (lang_reMac_of_address ht)
  | bdf => exact marks_of_lang .bdf (U := asciiWords) (lang_reBdf.mpr ht)
  | uuid => exact marks_of_lang .uuid (U := asciiWords) (lang_reUuid.mpr ht)
  | ipv4 => exact marks_of_lang .ipv4 (U := asciiWords) (lang_reIpv4_of_address ht)
  | ipv6 =>
      rcases ht with ⟨gs, hlen, hgs, rfl⟩ | ⟨gs, hs, _, rfl⟩
      · rw [Kind.mark, countP_intercalate, hlen]
        · decide
        · intro g hg c hc
          have hcolon : c ≠ ':' := fun heq => (hgs g hg).colon_notMem (heq ▸ hc)
          simpa using hcolon
      · rw [compressed, List.countP_append, List.countP_append]
        have htwo : "::".toList.countP Kind.ipv6.mark = 2 := by decide
        simp only [Kind.marks]
        omega

/-- Whether a run has the separators of an address. -/
def notable (run : Text) : Bool :=
  Kind.order.any fun k => decide (k.marks ≤ run.countP k.mark)

/-- A run is notable when it has the separators of some kind. -/
theorem notable_of_marks (k : Kind) (h : k.marks ≤ text.countP k.mark) : notable text = true := by
  rw [notable, List.any_eq_true]
  exact ⟨k, by cases k <;> decide, decide_eq_true h⟩

end Marks

/-! ## Matching a whole address -/

/-- A text which begins and ends with a character of a word. -/
def Bordered (U : WordTables) (t : Text) : Prop :=
  (∃ c u, t = c :: u ∧ U.isWord c = true) ∧ ∃ u c, t = u ++ [c] ∧ U.isWord c = true

section Matching

variable {U : WordTables} {k : Kind} {g h m t u w rest tail : Text}

/-- A text begins and ends with a character of a word when its first and last part do. -/
theorem bordered_of_parts (hg : g ≠ [] ∧ ∀ c ∈ g, U.isWord c = true)
    (hh : h ≠ [] ∧ ∀ c ∈ h, U.isWord c = true) : Bordered U (g ++ m ++ h) := by
  obtain ⟨c, g, rfl⟩ := List.exists_cons_of_ne_nil hg.1
  obtain ⟨u, d, rfl⟩ := (List.eq_nil_or_concat h).resolve_left hh.1
  exact ⟨⟨c, g ++ m ++ u.concat d, by simp, hg.2 c (by simp)⟩,
    c :: g ++ m ++ u, d, by simp, hh.2 d (by simp)⟩

/-- Hexadecimal digits are characters of words. -/
theorem IsHex.word {n : Nat} (hg : IsHex (n + 1) g) : g ≠ [] ∧ ∀ c ∈ g, U.isWord c = true :=
  ⟨hg.ne_nil, fun c hc => U.isWord_of_isHexDigit (hg.2 c hc)⟩

/-- So are those of a group. -/
theorem IsHexGroup.word (hg : IsHexGroup g) : g ≠ [] ∧ ∀ c ∈ g, U.isWord c = true :=
  ⟨hg.ne_nil, fun c hc => U.isWord_of_isHexDigit (hg.2 c hc)⟩

/-- And those of an octet. -/
theorem octet_word (ho : (octet U).Lang g) : g ≠ [] ∧ ∀ c ∈ g, U.isWord c = true :=
  ⟨(octet_digits ho).1, fun c hc => U.isWord_of_isDigit c ((octet_digits ho).2 c hc)⟩

/-- Whether a class goes on is a matter of the first character. -/
theorem stops_iff {p : Char → Bool} : Stops p rest ↔ rest.head?.any p = false := by
  cases rest <;> simp

/-- A word begins with the text when none goes on to it. -/
theorem Bordered.begins_iff (ht : Bordered U t) :
    wordEdge U.isWord u (t ++ rest) = true ↔ Stops U.isWord u := by
  obtain ⟨c, t, rfl, hc⟩ := ht.1
  simp [wordEdge, hc, stops_iff]

/-- It ends with the text when none goes on behind it. -/
theorem Bordered.ends_iff (ht : Bordered U t) :
    wordEdge U.isWord (t.reverse ++ u) rest = true ↔ Stops U.isWord rest := by
  obtain ⟨t, c, rfl, hc⟩ := ht.2
  simp [wordEdge, hc, stops_iff]

/-- Such a text is not empty. -/
theorem Bordered.ne_nil (ht : Bordered U t) : t ≠ [] := by
  obtain ⟨c, u, rfl, _⟩ := ht.1
  exact List.cons_ne_nil c u

/-- Within ASCII the words have letters, digits and underscores. -/
theorem WordTables.not_word (U : WordTables) {c : Char} (hascii : c.toNat < 128)
    (hc : (c.isAlphanum || c == '_') = false) : U.isWord c = false := by
  rw [U.isWord_ascii c hascii, hc]

/-- A point belongs to no word. -/
theorem not_word_dot (U : WordTables) : U.isWord '.' = false := U.not_word (by decide) rfl

/-- Nor does a colon. -/
theorem not_word_colon (U : WordTables) : U.isWord ':' = false := U.not_word (by decide) rfl

/-- A match of the MAC pattern begins and ends with a digit. -/
theorem bordered_of_lang_reMac (hw : (reMac U).Lang w) : Bordered U w := by
  obtain ⟨ws, g, hlen, hws, hg, rfl⟩ := lang_reMac.mp hw
  obtain ⟨u, ws, rfl⟩ := List.exists_cons_of_length_eq_add_one hlen
  obtain ⟨h, s, hh, _, rfl⟩ := hws u List.mem_cons_self
  have hborder : Bordered U (h ++ (s :: ws.flatten) ++ g) := bordered_of_parts hh.word hg.word
  simpa using hborder

/-- So does one of the PCI pattern. -/
theorem bordered_of_lang_reBdf (hw : (reBdf U).Lang w) : Bordered U w := by
  obtain ⟨domain, bus, device, function, hdomain, _, _, hfunction, rfl⟩ := lang_reBdf.mp hw
  have hborder : Bordered U
      (domain ++ (':' :: bus ++ ':' :: device ++ ['.']) ++ function) :=
    bordered_of_parts hdomain.word hfunction.word
  simpa using hborder

/-- And one of the UUID pattern. -/
theorem bordered_of_lang_reUuid (hw : (reUuid U).Lang w) : Bordered U w := by
  obtain ⟨a, b, c, d, e, ha, _, _, _, he, rfl⟩ := lang_reUuid.mp hw
  have hborder : Bordered U (a ++ ('-' :: b ++ '-' :: c ++ '-' :: d ++ ['-']) ++ e) :=
    bordered_of_parts ha.word he.word
  simpa using hborder

/-- And one of the IPv4 pattern. -/
theorem bordered_of_lang_reIpv4 (hw : (reIpv4 U).Lang w) : Bordered U w := by
  obtain ⟨ws, o, hlen, hws, ho, rfl⟩ := lang_reIpv4.mp hw
  obtain ⟨u, ws, rfl⟩ := List.exists_cons_of_length_eq_add_one hlen
  obtain ⟨p, hp, rfl⟩ := hws u List.mem_cons_self
  have hborder : Bordered U (p ++ ('.' :: ws.flatten) ++ o) :=
    bordered_of_parts (octet_word hp) (octet_word ho)
  simpa using hborder

/-- And one of the full form of the IPv6 pattern. -/
theorem bordered_of_lang_reIpv6Full (hw : (reIpv6Full U).Lang w) : Bordered U w := by
  obtain ⟨gs, g, hlen, hgs, hg, rfl⟩ := lang_reIpv6Full.mp hw
  obtain ⟨h, gs, rfl⟩ := List.exists_cons_of_ne_nil
    (List.ne_nil_of_length_pos (Nat.lt_of_lt_of_le Nat.two_pos hlen.1))
  have hborder : Bordered U (h ++ (':' :: colons gs) ++ g) :=
    bordered_of_parts (hgs h List.mem_cons_self).word hg.word
  simpa using hborder

end Matching

/-- The pattern of a kind, of that of IPv6 addresses the alternative with word boundaries. -/
def Kind.strict (U : WordTables) : Kind → Re
  | ipv6 => reIpv6Full U
  | k => k.pattern U

/-- What the other alternatives of the IPv6 pattern match. -/
def IsLoose (w : Text) : Prop := reIpv6Leading.Lang w ∨ reIpv6Trailing.Lang w

section Spans

variable {U : WordTables} {k : Kind} {t u v w u' v' : Text}

/-- An octet has no anchor. -/
theorem octet_plain (U : WordTables) : (octet U).Plain :=
  ⟨⟨plain_lit _, trivial⟩, ⟨⟨plain_lit _, trivial⟩, trivial⟩, ⟨trivial, trivial⟩, trivial⟩

/-- Nor has a group with its colon. -/
theorem hexColon_plain : hexColon.Plain := ⟨plain_between trivial, plain_lit _⟩

/-- Only the IPv6 pattern has alternatives without boundaries. -/
theorem strict_eq (hk : k ≠ .ipv6) : k.strict U = k.pattern U := by
  cases k <;> first | rfl | exact absurd rfl hk

/-- The patterns with boundaries have them around a pattern without anchors. -/
theorem exists_body (U : WordTables) (k : Kind) :
    ∃ a : Re, a.Plain ∧ k.strict U = Re.bounded U.isWord a := by
  cases k with
  | mac => exact ⟨_, by simp, rfl⟩
  | bdf => exact ⟨_, by simp, rfl⟩
  | uuid => exact ⟨_, by simp, rfl⟩
  | ipv6 =>
      exact ⟨Re.between 2 7 hexColon ++ hexGroup,
        ⟨plain_between hexColon_plain, plain_between trivial⟩, rfl⟩
  | ipv4 =>
      exact ⟨Re.times 3 (octet U ++ Re.lit ".".toList) ++ octet U,
        ⟨plain_times ⟨octet_plain U, plain_lit _⟩, octet_plain U⟩, rfl⟩

/-- What stands between boundaries begins and ends with a character of a word. -/
theorem bordered_of_strict (k : Kind) (hw : (k.strict U).Lang w) : Bordered U w := by
  cases k with
  | mac => exact bordered_of_lang_reMac hw
  | bdf => exact bordered_of_lang_reBdf hw
  | uuid => exact bordered_of_lang_reUuid hw
  | ipv6 => exact bordered_of_lang_reIpv6Full hw
  | ipv4 => exact bordered_of_lang_reIpv4 hw

/-- So it can match where no word goes on at either side. -/
theorem spans_strict : (k.strict U).Spans u w v ↔
    (k.strict U).Lang w ∧ Stops U.isWord u.reverse ∧ Stops U.isWord v := by
  obtain ⟨a, ha, hbody⟩ := exists_body U k
  have hborder : (k.strict U).Lang w → Bordered U w := bordered_of_strict k
  rw [hbody] at hborder ⊢
  rw [spans_bounded ha, lang_bounded]
  refine and_congr_right fun hw => ?_
  rw [(hborder (lang_bounded.mpr hw)).begins_iff, (hborder (lang_bounded.mpr hw)).ends_iff]

/-- **Where a pattern can match** depends on its text and on the word boundaries. -/
theorem spans_iff : (k.pattern U).Spans u w v ↔
    ((k.strict U).Lang w ∧ Stops U.isWord u.reverse ∧ Stops U.isWord v) ∨
      k = .ipv6 ∧ IsLoose w := by
  by_cases hk : k = .ipv6
  · subst hk
    have hleading : reIpv6Leading.Plain :=
      ⟨⟨plain_lit _, plain_between hexColon_plain⟩, plain_between trivial⟩
    have htrailing : reIpv6Trailing.Plain := ⟨plain_between hexColon_plain, plain_lit _⟩
    rw [Kind.pattern, reIpv6, spans_alt, spans_alt, hleading.spans_iff, htrailing.spans_iff,
      and_iff_right rfl, IsLoose]
    exact or_congr_left (spans_strict (k := .ipv6))
  · rw [← strict_eq hk, spans_strict]
    simp [hk]

/-- What can match goes on to do so when no word is joined to it. -/
theorem spans_transfer (h : (k.pattern U).Spans u w v)
    (hbefore : Stops U.isWord u.reverse → Stops U.isWord u'.reverse)
    (hafter : Stops U.isWord v → Stops U.isWord v') : (k.pattern U).Spans u' w v' := by
  rw [spans_iff] at h ⊢
  exact h.imp_left fun ⟨hw, hu, hv⟩ => ⟨hw, hbefore hu, hafter hv⟩

end Spans

/-! ## Matching a token -/

section MatchingStrict

variable {U : WordTables} {k : Kind} {t u v w u' v' : Text}

/-- A text which alone can be matched there is matched. -/
theorem match_of_unique (hk : k ≠ .ipv6) (hw : (k.pattern U).Lang w)
    (hbefore : Stops U.isWord u.reverse) (hafter : Stops U.isWord v)
    (hunique : ∀ w' v', (k.pattern U).Lang w' → w ++ v = w' ++ v' → Stops U.isWord v' → w' = w) :
    ∃ m, (k.pattern U).matchFrom u.reverse (w ++ v) = some m ∧ m.post = v := by
  have hstrict : k.strict U = k.pattern U := strict_eq hk
  obtain ⟨a, ha, hbody⟩ := exists_body U k
  have hborder : ∀ w, (k.pattern U).Lang w → Bordered U w := by
    intro w hw
    rw [← hstrict] at hw
    exact bordered_of_strict k hw
  rw [hstrict] at hbody
  rw [hbody] at hw hunique hborder ⊢
  refine matchFrom_bounded_unique ha (lang_bounded.mp hw) ((hborder w hw).begins_iff.mpr hbefore)
    ((hborder w hw).ends_iff.mpr hafter) ?_
  intro w' v' hw' hsplit hedge
  have hlang : (Re.bounded U.isWord a).Lang w' := lang_bounded.mpr hw'
  exact hunique w' v' hlang hsplit ((hborder w' hlang).ends_iff.mp hedge)

/-- PCI addresses have one length. -/
theorem length_of_bdf (ht : IsAddress .bdf t) : t.length = 12 := by
  obtain ⟨domain, bus, device, function, hdomain, hbus, hdevice, hfunction, rfl⟩ := ht
  simp only [List.length_append, List.length_cons, hdomain.1, hbus.1, hdevice.1, hfunction.1]

/-- So have UUIDs. -/
theorem length_of_uuid (ht : IsAddress .uuid t) : t.length = 36 := by
  obtain ⟨a, b, c, d, e, ha, hb, hc, hd, he, rfl⟩ := ht
  simp only [List.length_append, List.length_cons, ha.1, hb.1, hc.1, hd.1, he.1]

/-- Where all matches have one length, an address is matched as a whole. -/
theorem match_of_length {n : Nat} (hk : k ≠ .ipv6) (hw : (k.pattern U).Lang w)
    (hlen : ∀ w, (k.pattern U).Lang w → w.length = n) (hbefore : Stops U.isWord u.reverse)
    (hafter : Stops U.isWord v) :
    ∃ m, (k.pattern U).matchFrom u.reverse (w ++ v) = some m ∧ m.post = v := by
  refine match_of_unique hk hw hbefore hafter ?_
  intro w' v' hw' hsplit _
  exact (List.append_inj hsplit (by rw [hlen w hw, hlen w' hw'])).1.symm

/-- Of the matches at the start of an IPv4 address, only the address ends where a word ends. -/
theorem ipv4_unique (ht : (reIpv4 U).Lang t) (hv : Stops U.isWord v) (hw : (reIpv4 U).Lang w)
    (hsplit : t ++ v = w ++ v') (hv' : Stops U.isWord v') : w = t := by
  obtain ⟨htcount, htchars⟩ := points_of_lang_reIpv4 ht
  obtain ⟨hwcount, hwchars⟩ := points_of_lang_reIpv4 hw
  -- a longer or shorter one would go on with a digit, which is a character of a word
  have hnone : ∀ x z : Text, (∀ c ∈ x, U.isDigit c = true ∨ c = '.') → x.count '.' = 0 →
      Stops U.isWord (x ++ z) → x = [] := by
    intro x z hchars hcount hstops
    cases x with
    | nil => rfl
    | cons c x =>
        have hdot : c ≠ '.' := by
          rintro rfl
          rw [List.count_cons_self] at hcount
          cases hcount
        have hc := U.isWord_of_isDigit c ((hchars c List.mem_cons_self).resolve_right hdot)
        rw [List.cons_append, stops_cons, hc] at hstops
        cases hstops
  rcases List.append_eq_append_iff.mp hsplit with ⟨x, rfl, rfl⟩ | ⟨x, rfl, rfl⟩
  · rw [List.count_append] at hwcount
    rw [hnone x v' (fun c hc => hwchars c (List.mem_append_right _ hc)) (by omega) hv,
      List.append_nil]
  · rw [List.count_append] at htcount
    rw [hnone x v (fun c hc => htchars c (List.mem_append_right _ hc)) (by omega) hv',
      List.append_nil]

end MatchingStrict

/-! ## Matching an IPv6 address -/

section MatchingIpv6

variable {U : WordTables} {gs hs : List Text} {g t w tail rest : Text} {m : Match}

/-- A group with its colon is read as a whole. -/
theorem reads_hexColon (hg : IsHexGroup g) : Reads hexColon (g ++ [':']) rest id :=
  (reads_between_one hg.1.1 hg.1.2 hg.all (stops_cons.mpr rfl)).append (reads_lit [':'] rest)

/-- So is each of several. -/
theorem reads_hexColons (hgs : ∀ g ∈ gs, IsHexGroup g) :
    ∀ u ∈ gs.map (fun g => g ++ [':']), ∀ rest, Reads hexColon u rest id := by
  intro u hu rest
  obtain ⟨g, hg, rfl⟩ := List.mem_map.mp hu
  exact reads_hexColon (hgs g hg)

/-- Groups with a colon behind each, as texts in a row. -/
theorem colons_eq_flatten (gs : List Text) : colons gs = (gs.map fun g => g ++ [':']).flatten := by
  rw [colons, List.flatMap_def]

/-- No group begins at a colon. -/
theorem not_at_hexColon_colon : ¬ hexColon.At (':' :: rest) := by
  rintro ⟨w, hw, z, hz⟩
  obtain ⟨g, hg, rfl⟩ := lang_hexColon.mp hw
  rw [List.append_assoc] at hz
  exact hg.append_ne hz

/-- No group with a colon begins where no colon follows. -/
theorem not_at_hexColon_group (hg : IsHexGroup g) : ¬ hexColon.At g := by
  rintro ⟨w, hw, hpre⟩
  obtain ⟨h, _, rfl⟩ := lang_hexColon.mp hw
  exact hg.colon_notMem (hpre.subset (by simp))

/-- A group is read up to the first character which is no digit. -/
theorem reads_lastGroup (hg : IsHexGroup g) (hrest : Stops isHexDigit rest) :
    Reads hexGroup g rest id :=
  reads_between_one hg.1.1 hg.1.2 hg.all hrest

/-- An address of eight groups is matched as a whole. -/
theorem match_full (ht : IsFullIpv6 t) :
    ∃ m, (reIpv6 U).matchFrom [] t = some m ∧ m.post = [] := by
  obtain ⟨gs, hlen, hgs, rfl⟩ := ht
  obtain ⟨gs, g, rfl⟩ := (List.eq_nil_or_concat gs).resolve_left (by rintro rfl; cases hlen)
  rw [List.concat_eq_append] at hlen hgs ⊢
  rw [List.forall_mem_append] at hgs
  have hseven : gs.length = 7 := by simpa using hlen
  have hg : IsHexGroup g := hgs.2 g (by simp)
  rw [intercalate_concat, ← colons]
  obtain ⟨g', c, rfl⟩ := (List.eq_nil_or_concat g).resolve_left hg.ne_nil
  rw [List.concat_eq_append] at hg ⊢
  have hgroups : Reads (.between 2 7 hexColon) (colons gs) (g' ++ [c] ++ []) id := by
    rw [colons_eq_flatten]
    exact reads_between (by simp [hseven]) (by simp [hseven]) (reads_hexColons hgs.1)
      (Or.inl (by simp [hseven]))
  have hbody : Reads (.between 2 7 hexColon ++ hexGroup) (colons gs ++ (g' ++ [c])) [] id :=
    hgroups.append (reads_lastGroup hg stops_nil)
  have hlang : (reIpv6Full U).Lang (colons gs ++ (g' ++ [c])) :=
    lang_reIpv6Full.mpr ⟨gs, g' ++ [c], by omega, hgs.1, hg, rfl⟩
  have hstart : wordEdge U.isWord [] (colons gs ++ (g' ++ [c]) ++ []) = true := by
    exact (bordered_of_lang_reIpv6Full hlang).begins_iff.mpr stops_nil
  rw [← List.append_assoc] at hbody hstart ⊢
  have hword : Reads (.between 2 7 hexColon ++ hexGroup ++ .boundary U.isWord)
      (colons gs ++ g' ++ [c]) [] id :=
    hbody.wordEnd (U.isWord_of_isHexDigit (hg.all c (by simp))) stops_nil
  have hfull : (reIpv6Full U).matchFrom [] (colons gs ++ g' ++ [c] ++ []) =
      some ⟨[], [], fun _ => none⟩ := by
    rw [reIpv6Full, matchFrom_bounded_start hstart, hword.matchFrom]
    rfl
  rw [List.append_nil] at hfull
  exact ⟨_, matchFrom_alt_left hfull, rfl⟩

/-- An address which begins with `::`, written out. -/
theorem compressed_leading (hs : List Text) (h : Text) :
    compressed [] (hs ++ [h]) = ':' :: ':' :: (colons hs ++ h) := by
  rw [compressed, intercalate_concat, ← colons]
  rfl

/-- An address with groups before `::`, written out. -/
theorem compressed_trailing (gs hs : List Text) (hne : gs ≠ []) :
    compressed gs hs = colons gs ++ ':' :: [':'].intercalate hs := by
  obtain ⟨gs, g, rfl⟩ := (List.eq_nil_or_concat gs).resolve_left hne
  rw [List.concat_eq_append, compressed, intercalate_concat]
  simp [colons]

/-- An address which begins with `::` is matched as a whole. -/
theorem match_leading (hne : hs ≠ []) (ht : IsCompressed [] hs) :
    ∃ m, (reIpv6 U).matchFrom [] (compressed [] hs) = some m ∧ m.post = [] := by
  obtain ⟨hs, h, rfl⟩ := (List.eq_nil_or_concat hs).resolve_left hne
  rw [List.concat_eq_append] at ht ⊢
  have hhs := List.forall_mem_append.mp ht.behind
  have hh : IsHexGroup h := hhs.2 h (by simp)
  have hsix : hs.length ≤ 6 := by
    have hfew := ht.few
    rw [List.length_append, List.length_singleton, List.length_nil] at hfew
    omega
  rw [compressed_leading]
  have hnone : (reIpv6Full U).matchFrom [] (':' :: ':' :: (colons hs ++ h)) = none :=
    matchFrom_bounded_eq_none (by simp [wordEdge, not_word_colon U])
  have hgroups : Reads (.between 0 6 hexColon) (colons hs) (h ++ []) id := by
    rw [colons_eq_flatten, List.append_nil]
    exact reads_between (Nat.zero_le _) (by simpa using hsix) (reads_hexColons hhs.1)
      (Or.inr (not_at_hexColon_group hh))
  have hread : Reads reIpv6Leading ("::".toList ++ colons hs ++ h) [] id := by
    have hlit := (reads_lit "::".toList (colons hs ++ (h ++ []))).append hgroups
    exact hlit.append (reads_lastGroup hh stops_nil)
  have hmatch : reIpv6Leading.matchFrom [] ("::".toList ++ colons hs ++ h ++ []) =
      some ⟨[], [], fun _ => none⟩ := hread.matchFrom []
  rw [List.append_nil] at hmatch
  exact ⟨_, (matchFrom_alt_right hnone).trans (matchFrom_alt_left hmatch), rfl⟩

/-- The full form does not match few groups before `::`. -/
theorem not_at_full (hgs : ∀ g ∈ gs, IsHexGroup g) (hfew : gs.length ≤ 2) :
    ¬ (reIpv6Full U).At (colons gs ++ ':' :: rest) := by
  rintro ⟨w, hw, z, hz⟩
  obtain ⟨hs, g, hlen, hhs, hg, rfl⟩ := lang_reIpv6Full.mp hw
  rw [List.append_assoc] at hz
  obtain ⟨h, more, rfl, _⟩ := colons_align hgs hhs hg hz
  rw [List.length_append, List.length_cons] at hfew
  omega

/-- What begins with a group does not begin with `::`. -/
theorem not_at_leading (hgs : ∀ g ∈ gs, IsHexGroup g) (hne : gs ≠ []) :
    ¬ reIpv6Leading.At (colons gs ++ rest) := by
  rintro ⟨w, hw, z, hz⟩
  obtain ⟨hs, h, _, _, _, rfl⟩ := lang_reIpv6Leading.mp hw
  exact colons_ne hgs hne hz.symm

/-- One or two groups before a `::` at the end are matched as a whole. -/
theorem match_trailing (hne : gs ≠ []) (hgs : ∀ g ∈ gs, IsHexGroup g) (hfew : gs.length ≤ 2) :
    ∃ m, (reIpv6 U).matchFrom [] (compressed gs []) = some m ∧ m.post = [] := by
  rw [compressed_trailing gs [] hne, List.intercalate_nil]
  have hfull : (reIpv6Full U).matchFrom [] (colons gs ++ [':']) = none :=
    matchFrom_eq_none (not_at_full hgs hfew)
  have hleading : reIpv6Leading.matchFrom [] (colons gs ++ [':']) = none :=
    matchFrom_eq_none (not_at_leading hgs hne)
  have hgroups : Reads (.between 1 7 hexColon) (colons gs) (":".toList ++ []) id := by
    rw [colons_eq_flatten]
    refine reads_between ?_ (by rw [List.length_map]; omega) (reads_hexColons hgs)
      (Or.inr not_at_hexColon_colon)
    rw [List.length_map]
    exact List.length_pos_of_ne_nil hne
  have hmatch : reIpv6Trailing.matchFrom [] (colons gs ++ ":".toList ++ []) =
      some ⟨[], [], fun _ => none⟩ := (hgroups.append (reads_lit ":".toList [])).matchFrom []
  rw [List.append_nil] at hmatch
  exact ⟨_, (matchFrom_alt_right hfull).trans ((matchFrom_alt_right hleading).trans hmatch), rfl⟩

end MatchingIpv6

/-- An IPv6 address in one of the forms which the pattern matches as a whole. -/
def WholeIpv6 (t : Text) : Prop :=
  IsFullIpv6 t ∨ (∃ hs, hs ≠ [] ∧ IsCompressed [] hs ∧ t = compressed [] hs) ∨
    ∃ gs, gs ≠ [] ∧ gs.length ≤ 2 ∧ IsCompressed gs [] ∧ t = compressed gs []

section MatchToken

variable {U : WordTables} {k : Kind} {t u v : Text}

/-- An address in one of the forms by itself is matched as a whole. -/
theorem match_whole (ht : WholeIpv6 t) :
    ∃ m, (reIpv6 U).matchFrom [] t = some m ∧ m.post = [] := by
  rcases ht with ht | ⟨hs, hne, hform, rfl⟩ | ⟨gs, hne, hfew, hform, rfl⟩
  · exact match_full ht
  · exact match_leading hne hform
  · exact match_trailing hne hform.before hfew

/-- The IPv6 pattern sees no further than to a character which goes on no address. -/
theorem reIpv6_within (U : WordTables) :
    (reIpv6 U).Within (fun c => isHexDigit c || c == ':') U.isWord := by
  have hhex : (Re.one isHexDigit).Within (fun c => isHexDigit c || c == ':') U.isWord :=
    fun c hc => by simp [hc]
  have hlit : ∀ w : Text, (∀ c ∈ w, c = ':') →
      (Re.lit w).Within (fun c => isHexDigit c || c == ':') U.isWord :=
    fun w hw => within_lit fun c hc => by simp [hw c hc]
  have hgroup : hexColon.Within (fun c => isHexDigit c || c == ':') U.isWord :=
    ⟨within_between hhex, hlit _ (by simp)⟩
  exact ⟨within_bounded.mpr ⟨within_between hgroup, within_between hhex⟩,
    ⟨⟨hlit _ (by simp), within_between hgroup⟩, within_between hhex⟩,
    ⟨within_between hgroup, hlit _ (by simp)⟩⟩

/-- Where no address goes on no word does. -/
theorem stops_word_of_goesOn (h : Stops (k.goesOn U) v) : Stops U.isWord v := by
  intro c hc
  have hno := h c hc
  rw [Kind.goesOn, Bool.or_eq_false_iff] at hno
  exact hno.1

/-- **A token is matched as a whole** where its pattern is tried at its start. -/
theorem match_token (ht : Stands U k u t v) (hwhole : k = .ipv6 → WholeIpv6 t) :
    ∃ m, (k.pattern U).matchFrom u.reverse (t ++ v) = some m ∧ m.post = v := by
  have hu := stops_word_of_goesOn ht.begins
  have hv := stops_word_of_goesOn ht.ends
  cases k with
  | mac =>
      exact match_of_length (by decide) (lang_reMac_of_address ht.address)
        (fun w hw => (size_of_lang_reMac hw).1) hu hv
  | bdf =>
      exact match_of_length (by decide) (lang_reBdf.mpr ht.address)
        (fun w hw => length_of_bdf (lang_reBdf.mp hw)) hu hv
  | uuid =>
      exact match_of_length (by decide) (lang_reUuid.mpr ht.address)
        (fun w hw => length_of_uuid (lang_reUuid.mp hw)) hu hv
  | ipv4 =>
      have hw : (reIpv4 U).Lang t := lang_reIpv4_of_address ht.address
      exact match_of_unique (by decide) hw hu hv fun w v' hw' => ipv4_unique hw hv hw'
  | ipv6 =>
      obtain ⟨m, hm, hpost⟩ := match_whole (U := U) (hwhole rfl)
      have hhidden : Hidden (fun c => isHexDigit c || c == ':') U.isWord v := by
        intro c hc
        have hno := ht.ends c hc
        simp only [Kind.goesOn, beq_self_eq_true, Bool.true_and, Bool.or_eq_false_iff] at hno
        refine ⟨?_, hno.1⟩
        rw [Bool.or_eq_false_iff]
        refine ⟨?_, hno.2⟩
        cases hhex : isHexDigit c with
        | false => rfl
        | true =>
            rw [U.isWord_of_isHexDigit hhex] at hno
            cases hno.1
      have hlocal : Option.Rel (LocalMatch v) ((reIpv6 U).matchFrom u.reverse (t ++ v))
          ((reIpv6 U).matchFrom [] t) :=
        (reIpv6_within U).matchFrom_local hhidden (stops_iff.mp hu) t
      rw [hm] at hlocal
      generalize hfound : (reIpv6 U).matchFrom u.reverse (t ++ v) = found at hlocal
      cases hlocal with
      | some hmatch =>
          rename_i m'
          exact ⟨m', hfound, by rw [hmatch.1, hpost, List.nil_append]⟩

end MatchToken

/-! ## Matches which reach into a placeholder -/

section Entering

variable {U : WordTables} {j k : Kind} {a b s u v w x y z : Text} {n : Nat}

/-- Every placeholder begins and ends with a character of a word. -/
theorem bordered_placeholder (U : WordTables) (k : Kind) (n : Nat) :
    Bordered U (placeholder k.start n) := by
  obtain ⟨ds, d, hds⟩ := (List.eq_nil_or_concat _).resolve_left (padded_ne_nil 3 n)
  rw [List.concat_eq_append] at hds
  constructor
  · obtain ⟨c, start, hstart, hc⟩ : ∃ c start, k.start = c :: start ∧ c.toNat < 128 ∧
        c.isAlphanum = true := by
      cases k <;> exact ⟨_, _, rfl, by decide, by decide⟩
    refine ⟨c, start ++ (PythonFloats.padded 3 n).toList, by rw [placeholder, hstart]; rfl, ?_⟩
    rw [U.isWord_ascii c hc.1, hc.2, Bool.true_or]
  · refine ⟨k.start ++ ds, d, by rw [placeholder, hds, List.append_assoc], ?_⟩
    have hmem : d ∈ (PythonFloats.padded 3 n).toList := by
      rw [hds]
      simp
    exact U.isWord_of_isHexDigit (isHexDigit_of_isDigit (isDigit_of_mem_padded hmem))

/-- The characters of an IPv6 match. -/
theorem chars_of_lang_reIpv6 (hw : (reIpv6 U).Lang w) :
    ∀ c ∈ w, isHexDigit c = true ∨ c = ':' := by
  intro c hc
  simpa using (reIpv6_within U).mem_lang hw c hc

/-- Within ASCII an IPv4 match has digits and points. -/
theorem chars_of_lang_reIpv4 (hw : (reIpv4 U).Lang w) {c : Char} (hascii : c.toNat < 128)
    (hmem : c ∈ w) : c.isDigit = true ∨ c = '.' := by
  rcases (points_of_lang_reIpv4 hw).2 c hmem with h | h
  · exact Or.inl (by rwa [U.isDigit_ascii c hascii] at h)
  · exact Or.inr h

/-- The `x` of the placeholders of MAC addresses is in no later match. -/
theorem x_notMem_of_lang (k : Kind) (hk : k ≠ .mac) (hw : (k.pattern U).Lang w) : 'x' ∉ w := by
  have hhex : ∀ (n : Nat) (g : Text), IsHex n g → 'x' ∉ g :=
    fun _ _ hg => notMem_of_hex hg.2 rfl
  cases k with
  | mac => exact absurd rfl hk
  | bdf =>
      obtain ⟨domain, bus, device, function, hdomain, hbus, hdevice, hfunction, rfl⟩ :=
        lang_reBdf.mp hw
      simp [hhex _ _ hdomain, hhex _ _ hbus, hhex _ _ hdevice, hhex _ _ hfunction]
  | uuid =>
      obtain ⟨a, b, c, d, e, ha, hb, hc, hd, he, rfl⟩ := lang_reUuid.mp hw
      simp [hhex _ _ ha, hhex _ _ hb, hhex _ _ hc, hhex _ _ hd, hhex _ _ he]
  | ipv6 =>
      intro hmem
      rcases chars_of_lang_reIpv6 hw 'x' hmem with h | h <;> cases h
  | ipv4 =>
      intro hmem
      rcases chars_of_lang_reIpv4 hw (by decide) hmem with h | h <;> cases h

/-- An octet has three digits at most. -/
theorem length_of_lang_octet (ho : (octet U).Lang w) : w.length ≤ 3 := by
  have hone : ∀ {p : Char → Bool} {o : Text}, (Re.one p).Lang o → o.length = 1 := by
    rintro p _ ⟨c, _, rfl⟩
    rfl
  have hopt : ∀ {p : Char → Bool} {o : Text}, (Re.opt (.one p)).Lang o → o.length ≤ 1 := by
    rintro p o (h | h)
    · exact (hone h).le
    · rw [show o = [] from h]
      exact Nat.zero_le _
  rcases ho with ⟨a, b, ha, hb, rfl⟩ | ⟨_, b, ⟨a, c, ha, hc, rfl⟩, hb, rfl⟩ |
    ⟨_, b, ⟨a, c, ha, hc, rfl⟩, hb, rfl⟩
  · rw [lang_lit.mp ha, List.length_append, hone hb]
    rfl
  · rw [lang_lit.mp ha, List.length_append, List.length_append, hone hc, hone hb]
    rfl
  · have h1 := hopt ha
    have h2 := hone hc
    have h3 := hopt hb
    simp only [List.length_append]
    omega

/-- A match between word boundaries of an IP address ends with a separator and a short group. -/
theorem short_end (hk : k = .ipv6 ∨ k = .ipv4) (hw : (k.strict U).Lang w) :
    ∃ front s g, w = front ++ s :: g ∧ (s = ':' ∨ s = '.') ∧ g.length ≤ 4 := by
  rcases hk with rfl | rfl
  · obtain ⟨gs, g, hlen, _, hg, rfl⟩ := lang_reIpv6Full.mp hw
    obtain ⟨gs, h, rfl⟩ := (List.eq_nil_or_concat gs).resolve_left
      (List.ne_nil_of_length_pos (Nat.lt_of_lt_of_le Nat.two_pos hlen.1))
    exact ⟨colons gs ++ h, ':', g, by simp [colons], Or.inl rfl, hg.1.2⟩
  · obtain ⟨ws, o, hlen, hws, ho, rfl⟩ := lang_reIpv4.mp hw
    obtain ⟨ws, p, rfl⟩ := (List.eq_nil_or_concat ws).resolve_left (by rintro rfl; cases hlen)
    rw [List.concat_eq_append] at hws ⊢
    obtain ⟨q, _, rfl⟩ := hws p (by simp)
    have hthree := length_of_lang_octet ho
    exact ⟨ws.flatten ++ q, '.', o, by simp, Or.inr rfl, by omega⟩

/-- A match without a dash gets no further into the placeholder of a UUID than its first eight
zeros. -/
theorem zeros_of_entering (hdash : '-' ∉ b)
    (hplace : b ++ z = placeholder Kind.uuid.start n ++ s) :
    ∃ zs rest, List.replicate 8 '0' = b ++ zs ∧ z = zs ++ '-' :: (rest ++ s) ∧
      placeholder Kind.uuid.start n = b ++ (zs ++ '-' :: rest) := by
  obtain ⟨start, hstart⟩ : ∃ start, Kind.uuid.start = List.replicate 8 '0' ++ '-' :: start :=
    ⟨"0000-0000-0000-".toList, by decide⟩
  have hall : placeholder Kind.uuid.start n =
      List.replicate 8 '0' ++ '-' :: (start ++ (PythonFloats.padded 3 n).toList) := by
    rw [placeholder, hstart, List.append_assoc, List.cons_append]
  rw [hall] at hplace ⊢
  obtain ⟨zs, hzeros, hz⟩ : ∃ zs, List.replicate 8 '0' = b ++ zs ∧
      z = zs ++ '-' :: (start ++ (PythonFloats.padded 3 n).toList ++ s) := by
    rw [List.append_assoc, List.cons_append] at hplace
    rcases List.append_eq_append_iff.mp hplace with ⟨zs, hzeros, hz⟩ | ⟨more, rfl, hmore⟩
    · exact ⟨zs, hzeros, hz⟩
    · cases more with
      | nil => exact ⟨[], by simp, by simpa using hmore.symm⟩
      | cons d more =>
          obtain ⟨rfl, _⟩ := List.cons.inj hmore
          exact absurd (by simp) hdash
  exact ⟨zs, _, hzeros, hz, by rw [hzeros, List.append_assoc]⟩

/-- A match which comes from outside into a placeholder of an earlier pass comes into that of a
UUID and begins with `::`. -/
theorem entering (hrank : j.rank < k.rank) (hj : j ≠ .bdf)
    (h : (k.pattern U).Spans x (a ++ b) z) (hb : b ≠ [])
    (hplace : b ++ z = placeholder j.start n ++ s) :
    j = .uuid ∧ k = .ipv6 ∧ reIpv6Leading.Lang (a ++ b) ∧
      ∃ rest, placeholder j.start n = b ++ rest := by
  have hlang := h.lang
  -- the first character of the placeholder is in the match
  have hhead : ∀ c start, j.start = c :: start → c ∈ a ++ b := by
    intro c start hstart
    obtain ⟨d, b, rfl⟩ := List.exists_cons_of_ne_nil hb
    rw [placeholder, hstart] at hplace
    obtain rfl := (List.cons.inj hplace).1
    simp
  have hlate : ∀ {i : Kind}, i.rank < k.rank → k ≠ i := fun hlt heq => by
    rw [heq] at hlt
    exact Nat.lt_irrefl _ hlt
  cases j with
  | mac => exact absurd (hhead 'x' _ rfl) (x_notMem_of_lang k (hlate hrank) hlang)
  | bdf => exact absurd rfl hj
  | ipv6 =>
      obtain rfl : k = .ipv4 := by cases k <;> simp [Kind.rank] at hrank ⊢
      rcases chars_of_lang_reIpv4 hlang (by decide) (hhead 'f' _ rfl) with h | h <;> cases h
  | ipv4 => cases k <;> simp [Kind.rank] at hrank
  | uuid =>
      have hk : k = .ipv6 ∨ k = .ipv4 := by cases k <;> simp [Kind.rank] at hrank ⊢
      have hdash : '-' ∉ a ++ b := by
        intro hmem
        rcases hk with rfl | rfl
        · rcases chars_of_lang_reIpv6 hlang '-' hmem with h | h <;> cases h
        · rcases chars_of_lang_reIpv4 hlang (by decide) hmem with h | h <;> cases h
      obtain ⟨zs, rest, hzeros, hz, hrest⟩ :=
        zeros_of_entering (fun hmem => hdash (List.mem_append_right _ hmem)) hplace
      have hzero : ∀ c ∈ b, c = '0' := by
        intro c hc
        exact List.eq_of_mem_replicate (n := 8) (by rw [hzeros]; exact List.mem_append_left _ hc)
      refine ⟨rfl, ?_⟩
      rcases spans_iff.mp h with ⟨hstrict, _, hstops⟩ | ⟨rfl, hleading | htrailing⟩
      · -- the match ends with a short group, the zeros with the end of a word
        exfalso
        have hnil : zs = [] := by
          cases zs with
          | nil => rfl
          | cons d zs =>
              obtain rfl : d = '0' := List.eq_of_mem_replicate (n := 8) (by rw [hzeros]; simp)
              rw [hz, List.cons_append, stops_cons, U.isWord_of_isHexDigit rfl] at hstops
              cases hstops
        rw [hnil, List.append_nil] at hzeros
        obtain ⟨front, c, g, hsplit, hc, hshort⟩ := short_end hk hstrict
        have hlen : b.length = 8 := by rw [← hzeros, List.length_replicate]
        rcases List.append_eq_append_iff.mp hsplit with ⟨e, _, he⟩ | ⟨e, _, he⟩
        · have hmem : c ∈ b := by
            rw [he]
            simp
          rcases hc with rfl | rfl <;> cases hzero _ hmem
        · have hle := congrArg List.length he
          rw [List.length_cons, List.length_append] at hle
          omega
      · exact ⟨rfl, hleading, _, hrest⟩
      · exfalso
        obtain ⟨gs, _, _, hsplit⟩ := lang_reIpv6Trailing.mp htrailing
        obtain ⟨b, c, rfl⟩ := (List.eq_nil_or_concat b).resolve_left hb
        rw [List.concat_eq_append, ← List.append_assoc] at hsplit
        obtain ⟨_, hc⟩ := List.append_inj' hsplit rfl
        cases (hzero c (by simp)).symm.trans (by simpa using hc)

/-- The start of an earlier placeholder has no two colons in a row. -/
theorem colons_not_infix_start (hj : j.rank < Kind.ipv6.rank) : ¬ [':', ':'] <:+: j.start := by
  intro hcolons
  cases j with
  | mac => revert hcolons; decide
  | bdf => revert hcolons; decide
  | uuid =>
      have hno : ':' ∉ Kind.uuid.start := by decide
      exact hno (hcolons.subset List.mem_cons_self)
  | ipv6 => exact absurd hj (by decide)
  | ipv4 => exact absurd hj (by decide)

/-- No such match begins within a placeholder. -/
theorem not_leading_within {p₁ p₂ : Text} (hj : j.rank < Kind.ipv6.rank) (hp : p₂ ≠ [])
    (hplace : placeholder j.start n = p₁ ++ p₂) : ¬ reIpv6Leading.Lang (p₂ ++ w) := by
  intro hlang
  obtain ⟨gs, g, _, _, _, hsplit⟩ := lang_reIpv6Leading.mp hlang
  have hdigits : ∀ c ∈ (PythonFloats.padded 3 n).toList, c ≠ ':' := by
    rintro c hc rfl
    have hcolon := isDigit_of_mem_padded hc
    cases hcolon
  have hcolon : ∀ c p, p₂ = c :: p → c = ':' := by
    rintro c p rfl
    exact (List.cons.inj hsplit).1
  rcases List.append_eq_append_iff.mp hplace with ⟨q, _, hq⟩ | ⟨q, hstart, rfl⟩
  · obtain ⟨c, p, rfl⟩ := List.exists_cons_of_ne_nil hp
    exact hdigits c (by rw [hq]; simp) (hcolon c p rfl)
  · -- the start of the placeholder has no two colons in a row, and a digit comes behind it
    obtain ⟨d, ds, hds⟩ := List.exists_cons_of_ne_nil (padded_ne_nil 3 n)
    have hd : d ≠ ':' := hdigits d (by rw [hds]; exact List.mem_cons_self)
    rw [hds] at hsplit
    cases q with
    | nil => exact hd (List.cons.inj hsplit).1
    | cons c q =>
        obtain ⟨rfl, hmore⟩ := List.cons.inj hsplit
        cases q with
        | nil => exact hd (List.cons.inj hmore).1
        | cons e q =>
            obtain ⟨rfl, _⟩ := List.cons.inj hmore
            have hcolons : [':', ':'] <:+: j.start :=
              ⟨p₁, q, by rw [hstart, List.append_assoc]; rfl⟩
            exact colons_not_infix_start hj hcolons

end Entering

end FaultOracle.Anonymize
