import FaultOracle.LogAnonymizer

/-!
# Addresses as tokens of a text

What an address of each kind is, by its parts and the characters which join them, and when
it stands in a text as a token, with no part of a word next to it.  Nothing here refers to the
patterns of the anonymizer; the second half of the file says which of these texts the patterns
can match.
-/

namespace FaultOracle.Anonymize

open BacktrackingRegex
open FaultOracle.Trace (Text isHexDigit)

/-- `n` hexadecimal digits. -/
def IsHex (n : Nat) (g : Text) : Prop := g.length = n ∧ ∀ c ∈ g, isHexDigit c = true

/-- A group of an IPv6 address. -/
def IsHexGroup (g : Text) : Prop :=
  (1 ≤ g.length ∧ g.length ≤ 4) ∧ ∀ c ∈ g, isHexDigit c = true

/-- A part of an IPv4 address. -/
def IsOctet (o : Text) : Prop :=
  (1 ≤ o.length ∧ o.length ≤ 3) ∧ (∀ c ∈ o, c.isDigit = true) ∧ Nat.ofDigitChars 10 o 0 ≤ 255

instance (n : Nat) (g : Text) : Decidable (IsHex n g) :=
  decidable_of_iff (g.length = n ∧ g.all isHexDigit = true) (and_congr_right' List.all_eq_true)

instance (g : Text) : Decidable (IsHexGroup g) :=
  decidable_of_iff ((1 ≤ g.length ∧ g.length ≤ 4) ∧ g.all isHexDigit = true)
    (and_congr_right' List.all_eq_true)

instance (o : Text) : Decidable (IsOctet o) :=
  decidable_of_iff ((1 ≤ o.length ∧ o.length ≤ 3) ∧ o.all Char.isDigit = true ∧
      Nat.ofDigitChars 10 o 0 ≤ 255)
    (and_congr_right' (and_congr_left' List.all_eq_true))

/-- An IPv6 address of eight groups. -/
def IsFullIpv6 (t : Text) : Prop :=
  ∃ gs : List Text, gs.length = 8 ∧ (∀ g ∈ gs, IsHexGroup g) ∧ t = [':'].intercalate gs

/-- Groups with `::` between them. -/
def compressed (gs hs : List Text) : Text :=
  [':'].intercalate gs ++ "::".toList ++ [':'].intercalate hs

/-- A compressed IPv6 address, the groups before and behind the `::`. -/
structure IsCompressed (gs hs : List Text) : Prop where
  few : gs.length + hs.length ≤ 7
  before : ∀ g ∈ gs, IsHexGroup g
  behind : ∀ h ∈ hs, IsHexGroup h

/-- The addresses of a kind. -/
def IsAddress : Kind → Text → Prop
  | .mac, t => ∃ (s : Char) (gs : List Text), (s = ':' ∨ s = '-') ∧ gs.length = 6 ∧
      (∀ g ∈ gs, IsHex 2 g) ∧ t = [s].intercalate gs
  | .bdf, t => ∃ domain bus device function, IsHex 4 domain ∧ IsHex 2 bus ∧ IsHex 2 device ∧
      IsHex 1 function ∧ t = domain ++ ':' :: bus ++ ':' :: device ++ '.' :: function
  | .uuid, t => ∃ a b c d e, IsHex 8 a ∧ IsHex 4 b ∧ IsHex 4 c ∧ IsHex 4 d ∧ IsHex 12 e ∧
      t = a ++ '-' :: b ++ '-' :: c ++ '-' :: d ++ '-' :: e
  | .ipv6, t => IsFullIpv6 t ∨ ∃ gs hs, IsCompressed gs hs ∧ t = compressed gs hs
  | .ipv4, t => ∃ os : List Text, os.length = 4 ∧ (∀ o ∈ os, IsOctet o) ∧
      t = ['.'].intercalate os

/-- The kinds in the order of their passes. -/
def Kind.order : List Kind := [mac, bdf, uuid, ipv6, ipv4]

/-- The place of a kind in that order. -/
def Kind.rank : Kind → Nat
  | mac => 0
  | bdf => 1
  | uuid => 2
  | ipv6 => 3
  | ipv4 => 4

/-- The characters with which an address goes on: those of words, and in an IPv6 address the
colon. -/
def Kind.goesOn (U : WordTables) (k : Kind) (c : Char) : Bool :=
  U.isWord c || (k == ipv6 && c == ':')

/-- An address between two texts which neither begins nor ends within a word. -/
structure Stands (U : WordTables) (k : Kind) (u t v : Text) : Prop where
  address : IsAddress k t
  begins : Stops (k.goesOn U) u.reverse
  ends : Stops (k.goesOn U) v

/-! ## Groups and separators -/

section Groups

variable {s : Char} {gs : List Text} {g t w : Text} {p : Char → Bool}

/-- Groups with a colon behind each. -/
def colons (gs : List Text) : Text := gs.flatMap fun g => g ++ [':']

@[simp] theorem colons_nil : colons [] = [] := rfl

/-- The first group comes with its colon, then the others. -/
@[simp] theorem colons_cons : colons (g :: gs) = g ++ ':' :: colons gs := by
  simp [colons]

/-- Joining by a separator puts it after every text but the last. -/
theorem intercalate_concat (s : Char) (gs : List Text) (g : Text) :
    [s].intercalate (gs ++ [g]) = (gs.flatMap fun h => h ++ [s]) ++ g := by
  induction gs with
  | nil => simp
  | cons h gs ih =>
      rw [List.cons_append, List.intercalate_cons_of_ne_nil (by simp), ih]
      simp

/-- Characters which do not stand in the groups are counted at the separators. -/
theorem countP_intercalate (hgs : ∀ g ∈ gs, ∀ c ∈ g, p c = false) :
    ([s].intercalate gs).countP p = if p s then gs.length - 1 else 0 := by
  induction gs with
  | nil => simp
  | cons g gs ih =>
      rw [List.forall_mem_cons] at hgs
      have hg : g.countP p = 0 := by
        rw [List.countP_eq_zero]
        simpa using hgs.1
      cases gs with
      | nil => simp [hg]
      | cons h gs =>
          rw [List.intercalate_cons_cons, List.countP_append, List.countP_append, ih hgs.2, hg,
            List.countP_singleton]
          cases p s <;> simp [Nat.add_comm]

/-- A text of `n` hexadecimal digits has only such digits. -/
theorem IsHex.all {n : Nat} (h : IsHex n g) : ∀ c ∈ g, isHexDigit c = true := h.2

/-- A group has only hexadecimal digits. -/
theorem IsHexGroup.all (h : IsHexGroup g) : ∀ c ∈ g, isHexDigit c = true := h.2

theorem IsHexGroup.ne_nil (h : IsHexGroup g) : g ≠ [] := List.ne_nil_of_length_pos h.1.1

theorem notMem_of_hex {x : Char} (hg : ∀ c ∈ g, isHexDigit c = true)
    (hx : isHexDigit x = false) : x ∉ g := by
  intro hmem
  rw [hg x hmem] at hx
  cases hx

/-- No hexadecimal digit is counted where none is looked for. -/
theorem countP_hex (hg : ∀ c ∈ g, isHexDigit c = true)
    (hp : ∀ c, p c = true → isHexDigit c = false) : g.countP p = 0 := by
  rw [List.countP_eq_zero]
  intro c hc hpc
  have hno := hp c hpc
  rw [hg c hc] at hno
  cases hno

end Groups

/-! ## The words of the IPv6 pattern -/

section Ipv6

variable {U : WordTables} {gs hs : List Text} {g h t w z rest : Text}

/-- The pattern of a group matches the groups. -/
theorem lang_hexGroup : hexGroup.Lang g ↔ IsHexGroup g := lang_between_one (by decide)

/-- The pattern of a group with its colon matches these. -/
theorem lang_hexColon : hexColon.Lang w ↔ ∃ g, IsHexGroup g ∧ w = g ++ [':'] := by
  rw [hexColon, lang_append]
  constructor
  · rintro ⟨g, v, hg, hv, rfl⟩
    rw [lang_lit.mp hv]
    exact ⟨g, lang_hexGroup.mp hg, rfl⟩
  · rintro ⟨g, hg, rfl⟩
    exact ⟨g, [':'], lang_hexGroup.mpr hg, lang_lit.mpr rfl, rfl⟩

/-- A bounded repetition of groups with colons matches the texts of as many groups. -/
theorem lang_hexColons {m n : Nat} (hmn : m ≤ n) :
    (Re.between m n hexColon).Lang w ↔
      ∃ gs : List Text, (m ≤ gs.length ∧ gs.length ≤ n) ∧ (∀ g ∈ gs, IsHexGroup g) ∧
        w = colons gs := by
  rw [lang_between hmn]
  constructor
  · rintro ⟨ws, hm, hn, hws, rfl⟩
    have hgroups : ∃ gs : List Text, gs.length = ws.length ∧ (∀ g ∈ gs, IsHexGroup g) ∧
        ws.flatten = colons gs := by
      clear hm hn
      induction ws with
      | nil => exact ⟨[], rfl, by simp, rfl⟩
      | cons u ws ih =>
          rw [List.forall_mem_cons] at hws
          obtain ⟨g, hg, rfl⟩ := lang_hexColon.mp hws.1
          obtain ⟨gs, hlen, hgs, hflat⟩ := ih hws.2
          exact ⟨g :: gs, by simp [hlen], by simpa using ⟨hg, hgs⟩, by simp [hflat]⟩
    obtain ⟨gs, hlen, hgs, hflat⟩ := hgroups
    exact ⟨gs, by omega, hgs, hflat⟩
  · rintro ⟨gs, hlen, hgs, rfl⟩
    refine ⟨gs.map fun g => g ++ [':'], by simpa using hlen.1, by simpa using hlen.2, ?_, rfl⟩
    intro u hu
    obtain ⟨g, hg, rfl⟩ := List.mem_map.mp hu
    exact lang_hexColon.mpr ⟨g, hgs g hg, rfl⟩

/-- The first alternative: two to seven groups with colons, then a last group. -/
theorem lang_reIpv6Full : (reIpv6Full U).Lang w ↔
    ∃ (gs : List Text) (g : Text), (2 ≤ gs.length ∧ gs.length ≤ 7) ∧
      (∀ h ∈ gs, IsHexGroup h) ∧ IsHexGroup g ∧ w = colons gs ++ g := by
  rw [reIpv6Full, lang_bounded, lang_append]
  constructor
  · rintro ⟨u, g, hu, hg, rfl⟩
    obtain ⟨gs, hlen, hgs, rfl⟩ := (lang_hexColons (by decide)).mp hu
    exact ⟨gs, g, hlen, hgs, lang_hexGroup.mp hg, rfl⟩
  · rintro ⟨gs, g, hlen, hgs, hg, rfl⟩
    exact ⟨colons gs, g, (lang_hexColons (by decide)).mpr ⟨gs, hlen, hgs, rfl⟩,
      lang_hexGroup.mpr hg, rfl⟩

/-- The second alternative: two colons, at most six groups with colons, a last group. -/
theorem lang_reIpv6Leading : reIpv6Leading.Lang w ↔
    ∃ (gs : List Text) (g : Text), gs.length ≤ 6 ∧ (∀ h ∈ gs, IsHexGroup h) ∧ IsHexGroup g ∧
      w = ':' :: ':' :: (colons gs ++ g) := by
  rw [reIpv6Leading, lang_append]
  constructor
  · rintro ⟨_, g, ⟨_, u, hlit, hu, rfl⟩, hg, rfl⟩
    obtain ⟨gs, hlen, hgs, rfl⟩ := (lang_hexColons (by decide)).mp hu
    rw [lang_lit.mp hlit]
    exact ⟨gs, g, hlen.2, hgs, lang_hexGroup.mp hg, rfl⟩
  · rintro ⟨gs, g, hlen, hgs, hg, rfl⟩
    refine ⟨':' :: ':' :: colons gs, g, ⟨"::".toList, colons gs, lang_lit.mpr rfl, ?_, rfl⟩,
      lang_hexGroup.mpr hg, rfl⟩
    exact (lang_hexColons (by decide)).mpr ⟨gs, ⟨Nat.zero_le _, hlen⟩, hgs, rfl⟩

/-- The third alternative: one to seven groups with colons, then one more colon. -/
theorem lang_reIpv6Trailing : reIpv6Trailing.Lang w ↔
    ∃ gs : List Text, (1 ≤ gs.length ∧ gs.length ≤ 7) ∧ (∀ g ∈ gs, IsHexGroup g) ∧
      w = colons gs ++ [':'] := by
  rw [reIpv6Trailing, lang_append]
  constructor
  · rintro ⟨u, v, hu, hv, rfl⟩
    obtain ⟨gs, hlen, hgs, rfl⟩ := (lang_hexColons (by decide)).mp hu
    rw [lang_lit.mp hv]
    exact ⟨gs, hlen, hgs, rfl⟩
  · rintro ⟨gs, hlen, hgs, rfl⟩
    exact ⟨colons gs, [':'], (lang_hexColons (by decide)).mpr ⟨gs, hlen, hgs, rfl⟩,
      lang_lit.mpr rfl, rfl⟩

/-- A group has no colon. -/
theorem IsHexGroup.colon_notMem (hg : IsHexGroup g) : ':' ∉ g := notMem_of_hex hg.all (by decide)

/-- No group begins with a colon. -/
theorem IsHexGroup.append_ne (hg : IsHexGroup g) : g ++ z ≠ ':' :: rest := by
  obtain ⟨c, g, rfl⟩ := List.exists_cons_of_ne_nil hg.ne_nil
  rintro heq
  obtain ⟨rfl, _⟩ := List.cons.inj heq
  exact hg.colon_notMem List.mem_cons_self

/-- A text which begins with a group does not begin with a colon. -/
theorem colons_ne (hgs : ∀ g ∈ gs, IsHexGroup g) (hne : gs ≠ []) :
    colons gs ++ z ≠ ':' :: rest := by
  obtain ⟨g, gs, rfl⟩ := List.exists_cons_of_ne_nil hne
  rw [colons_cons, List.append_assoc]
  exact (hgs g List.mem_cons_self).append_ne

/-- Up to a colon there is only one group. -/
theorem IsHexGroup.cancel_colon (hg : IsHexGroup g) (hh : IsHexGroup h)
    (heq : g ++ ':' :: z = h ++ ':' :: rest) : g = h ∧ z = rest := by
  obtain ⟨u, rfl, hu⟩ | ⟨u, rfl, hu⟩ := List.append_eq_append_iff.mp heq
  · cases u with
    | nil => simpa using hu
    | cons c u =>
        obtain ⟨rfl, _⟩ := List.cons.inj hu
        exact absurd (by simp) hh.colon_notMem
  · cases u with
    | nil => simpa using hu.symm
    | cons c u =>
        obtain ⟨rfl, _⟩ := List.cons.inj hu
        exact absurd (by simp) hg.colon_notMem

/-- Groups at the start of groups before a second colon are among them, and others follow. -/
theorem colons_align (hgs : ∀ g ∈ gs, IsHexGroup g) (hhs : ∀ h ∈ hs, IsHexGroup h)
    (hg : IsHexGroup g) (heq : colons hs ++ (g ++ z) = colons gs ++ ':' :: rest) :
    ∃ h more, gs = hs ++ h :: more ∧ g ++ z = h ++ ':' :: (colons more ++ ':' :: rest) := by
  induction hs generalizing gs with
  | nil =>
      cases gs with
      | nil => exact absurd heq hg.append_ne
      | cons h more => exact ⟨h, more, rfl, by simpa using heq⟩
  | cons h' hs ih =>
      rw [List.forall_mem_cons] at hhs
      rw [colons_cons, List.append_assoc, List.cons_append] at heq
      cases gs with
      | nil => exact absurd heq hhs.1.append_ne
      | cons h gs =>
          rw [List.forall_mem_cons] at hgs
          rw [colons_cons, List.append_assoc, List.cons_append] at heq
          obtain ⟨rfl, hrest⟩ := hhs.1.cancel_colon hgs.1 heq
          obtain ⟨x, more, rfl, hx⟩ := ih hgs.2 hhs.2 hrest
          exact ⟨x, more, rfl, hx⟩

end Ipv6

/-! ## The words of the other patterns -/

section Words

variable {U : WordTables} {t w : Text}

/-- What separates the pairs of a MAC address. -/
def isSeparator (c : Char) : Bool := c == ':' || c == '-'

/-- The pattern of PCI addresses matches these addresses and nothing else. -/
theorem lang_reBdf : (reBdf U).Lang w ↔ IsAddress .bdf w := by
  rw [reBdf, lang_bounded]
  simp only [lang_append, lang_times, lang_one, lang_lit]
  constructor
  · rintro ⟨_, _, ⟨_, _, ⟨_, device, ⟨_, _, ⟨_, bus, ⟨domain, _, hdomain, rfl, rfl⟩, hbus, rfl⟩,
      rfl, rfl⟩, hdevice, rfl⟩, rfl, rfl⟩, ⟨c, hc, rfl⟩, rfl⟩
    exact ⟨domain, bus, device, [c], hdomain, hbus, hdevice, ⟨rfl, by simpa using hc⟩, by simp⟩
  · rintro ⟨domain, bus, device, function, hdomain, hbus, hdevice, hfunction, rfl⟩
    obtain ⟨c, rfl⟩ := List.length_eq_one_iff.mp hfunction.1
    exact ⟨_, [c], ⟨_, ['.'], ⟨_, device, ⟨_, [':'], ⟨_, bus, ⟨domain, [':'], hdomain, rfl, rfl⟩,
      hbus, rfl⟩, rfl, rfl⟩, hdevice, rfl⟩, rfl, rfl⟩, ⟨c, hfunction.2 c (by simp), rfl⟩, by simp⟩

/-- The pattern of UUIDs matches these and nothing else. -/
theorem lang_reUuid : (reUuid U).Lang w ↔ IsAddress .uuid w := by
  rw [reUuid, lang_bounded]
  simp only [lang_append, lang_times, lang_lit]
  constructor
  · rintro ⟨_, e, ⟨_, _, ⟨_, d, ⟨_, _, ⟨_, c, ⟨_, _, ⟨_, b, ⟨a, _, ha, rfl, rfl⟩, hb, rfl⟩, rfl,
      rfl⟩, hc, rfl⟩, rfl, rfl⟩, hd, rfl⟩, rfl, rfl⟩, he, rfl⟩
    exact ⟨a, b, c, d, e, ha, hb, hc, hd, he, by simp⟩
  · rintro ⟨a, b, c, d, e, ha, hb, hc, hd, he, rfl⟩
    exact ⟨_, e, ⟨_, ['-'], ⟨_, d, ⟨_, ['-'], ⟨_, c, ⟨_, ['-'], ⟨_, b, ⟨a, ['-'], ha, rfl, rfl⟩,
      hb, rfl⟩, rfl, rfl⟩, hc, rfl⟩, rfl, rfl⟩, hd, rfl⟩, rfl, rfl⟩, he, by simp⟩

/-- A match of the MAC pattern: pairs with separators behind them, and a last pair. -/
theorem lang_reMac : (reMac U).Lang w ↔ ∃ (ws : List Text) (g : Text), ws.length = 5 ∧
    (∀ u ∈ ws, ∃ h s, IsHex 2 h ∧ isSeparator s = true ∧ u = h ++ [s]) ∧ IsHex 2 g ∧
      w = ws.flatten ++ g := by
  rw [reMac, lang_bounded, lang_append]
  constructor
  · rintro ⟨_, g, hu, hg, rfl⟩
    obtain ⟨ws, hlen, hws, rfl⟩ := lang_times_flatten.mp hu
    refine ⟨ws, g, hlen, ?_, lang_times.mp hg, rfl⟩
    intro u hu
    obtain ⟨h, _, hh, ⟨s, hs, rfl⟩, rfl⟩ := lang_append.mp (hws u hu)
    exact ⟨h, s, lang_times.mp hh, hs, rfl⟩
  · rintro ⟨ws, g, hlen, hws, hg, rfl⟩
    refine ⟨ws.flatten, g, lang_times_flatten.mpr ⟨ws, hlen, ?_, rfl⟩, lang_times.mpr hg, rfl⟩
    intro u hu
    obtain ⟨h, s, hh, hs, rfl⟩ := hws u hu
    exact lang_append.mpr ⟨h, [s], lang_times.mpr hh, ⟨s, hs, rfl⟩, rfl⟩

/-- The pattern of MAC addresses matches every such address. -/
theorem lang_reMac_of_address (ht : IsAddress .mac t) : (reMac U).Lang t := by
  obtain ⟨s, gs, hs, hlen, hgs, rfl⟩ := ht
  obtain ⟨front, g, rfl⟩ := (List.eq_nil_or_concat gs).resolve_left (by rintro rfl; cases hlen)
  rw [List.concat_eq_append] at hlen hgs ⊢
  rw [List.forall_mem_append] at hgs
  refine lang_reMac.mpr ⟨front.map fun h => h ++ [s], g, by simpa using hlen, ?_,
    hgs.2 g (by simp), by rw [intercalate_concat, List.flatMap_def]⟩
  intro u hu
  obtain ⟨h, hh, rfl⟩ := List.mem_map.mp hu
  exact ⟨h, s, hgs.1 h hh, by rcases hs with rfl | rfl <;> rfl, rfl⟩

theorem IsHex.ne_nil {n : Nat} {g : Text} (hg : IsHex (n + 1) g) : g ≠ [] :=
  List.ne_nil_of_length_eq_add_one hg.1

/-- A text of hexadecimal digits has no separator. -/
theorem countP_separator {g : Text} (hg : ∀ c ∈ g, isHexDigit c = true) :
    g.countP isSeparator = 0 := by
  apply countP_hex hg
  intro c hc
  rcases Bool.or_eq_true_iff.mp hc with h | h <;> rw [beq_iff_eq.mp h] <;> rfl

/-- The size of a match of the MAC pattern. -/
theorem size_of_lang_reMac (hw : (reMac U).Lang w) :
    w.length = 17 ∧ w.countP isSeparator = 5 := by
  obtain ⟨ws, g, hlen, hws, hg, rfl⟩ := lang_reMac.mp hw
  have hflat : ws.flatten.length = 3 * ws.length ∧
      ws.flatten.countP isSeparator = ws.length := by
    clear hlen hw
    induction ws with
    | nil => exact ⟨rfl, rfl⟩
    | cons u ws ih =>
        rw [List.forall_mem_cons] at hws
        obtain ⟨⟨h, s, hh, hs, rfl⟩, hrest⟩ := hws
        obtain ⟨hlen, hcount⟩ := ih hrest
        have hhex : h.countP isSeparator = 0 := countP_separator hh.2
        constructor
        · simp only [List.flatten_cons, List.length_append, hlen, hh.1, List.length_cons,
            List.length_nil]
          omega
        · simp only [List.flatten_cons, List.countP_append, hcount, hhex, List.countP_singleton, hs,
            if_true, List.length_cons]
          omega
  have hhex : g.countP isSeparator = 0 := countP_separator hg.2
  rw [List.length_append, List.countP_append, hflat.1, hflat.2, hlen, hg.1, hhex]
  exact ⟨rfl, rfl⟩

end Words

/-! ## The words of the IPv4 pattern -/

section Ipv4

variable {U : WordTables} {o t w : Text}

/-- What the octet's pattern matches is not empty and has only digits. -/
theorem octet_digits (ho : (octet U).Lang o) : o ≠ [] ∧ ∀ c ∈ o, U.isDigit c = true := by
  refine ⟨?_, (octet_within U).mem_lang ho⟩
  rintro rfl
  exact not_lang_octet_nil U ho

/-- The octet's pattern matches every octet. -/
theorem lang_octet_of_isOctet (ho : IsOctet o) : (octet U).Lang o := by
  obtain ⟨⟨hmin, hmax⟩, hdigits, hvalue⟩ := ho
  have hone : ∀ c ∈ o, (Re.one U.isDigit).Lang [c] :=
    fun c hc => ⟨c, U.isDigit_of_ascii (hdigits c hc), rfl⟩
  have hempty : ∀ p : Char → Bool, (Re.opt (.one p)).Lang [] := fun _ => Or.inr rfl
  match o, hmin, hmax with
  | [a], _, _ =>
      exact Or.inr (Or.inr ⟨[a], [], ⟨[], [a], hempty _, hone a (by simp), rfl⟩, hempty _, rfl⟩)
  | [a, b], _, _ =>
      exact Or.inr (Or.inr ⟨[a], [b], ⟨[], [a], hempty _, hone a (by simp), rfl⟩,
        Or.inl (hone b (by simp)), rfl⟩)
  | [a, b, c], _, _ =>
      have hrange : ∀ d ∈ [a, b, c], 48 ≤ d.toNat ∧ d.toNat ≤ 57 := by
        intro d hd
        have := hdigits d hd
        simp only [Char.isDigit, Bool.and_eq_true, decide_eq_true_eq, ge_iff_le,
          UInt32.le_iff_toNat_le] at this
        exact this
      have ha := hrange a (by simp)
      have hb := hrange b (by simp)
      have hc := hrange c (by simp)
      have hsum : 10 * (10 * (a.toNat - 48) + (b.toNat - 48)) + (c.toNat - 48) ≤ 255 := by
        simpa [Nat.ofDigitChars_cons] using hvalue
      have hle : ∀ (d last : Char), d.toNat ≤ last.toNat → d ≤ last := by
        intro d last h
        rw [Char.le_def, UInt32.le_iff_toNat_le]
        exact h
      have hlow : ∀ (d last : Char), 48 ≤ d.toNat → d.toNat ≤ last.toNat →
          (decide ('0' ≤ d) && decide (d ≤ last)) = true := by
        intro d last h0 h
        rw [Bool.and_eq_true, decide_eq_true_eq, decide_eq_true_eq]
        exact ⟨hle '0' d h0, hle d last h⟩
      have hchar : ∀ (d e : Char), d.toNat = e.toNat → d = e := fun d e h => Char.toNat_inj.mp h
      rcases Nat.lt_or_ge a.toNat 50 with hsmall | hbig
      · have hfirst : (Re.opt (.one fun c => c == '0' || c == '1')).Lang [a] := by
          refine Or.inl ⟨a, ?_, rfl⟩
          rcases Nat.lt_or_ge a.toNat 49 with h | h
          · rw [hchar a '0' (show a.toNat = 48 by omega)]
            rfl
          · rw [hchar a '1' (show a.toNat = 49 by omega)]
            rfl
        exact Or.inr (Or.inr ⟨[a, b], [c], ⟨[a], [b], hfirst, hone b (by simp), rfl⟩,
          Or.inl (hone c (by simp)), rfl⟩)
      · obtain rfl : a = '2' := hchar a '2' (show a.toNat = 50 by omega)
        rcases Nat.lt_or_ge b.toNat 53 with hsmall | hbig
        · exact Or.inr (Or.inl ⟨['2', b], [c], ⟨['2'], [b], lang_lit.mpr rfl,
            ⟨b, hlow b '4' hb.1 (show b.toNat ≤ 52 by omega), rfl⟩, rfl⟩, hone c (by simp), rfl⟩)
        · have h2 : ('2' : Char).toNat = 50 := rfl
          obtain rfl : b = '5' := hchar b '5' (show b.toNat = 53 by omega)
          have h5 : ('5' : Char).toNat = 53 := rfl
          exact Or.inl ⟨['2', '5'], [c], lang_lit.mpr rfl,
            ⟨c, hlow c '5' hc.1 (show c.toNat ≤ 53 by omega), rfl⟩, rfl⟩

/-- A match of the IPv4 pattern: octets with a point behind them, and a last octet. -/
theorem lang_reIpv4 : (reIpv4 U).Lang w ↔ ∃ (ws : List Text) (o : Text), ws.length = 3 ∧
    (∀ u ∈ ws, ∃ p, (octet U).Lang p ∧ u = p ++ ['.']) ∧ (octet U).Lang o ∧
      w = ws.flatten ++ o := by
  rw [reIpv4, lang_bounded, lang_append]
  constructor
  · rintro ⟨_, o, hu, ho, rfl⟩
    obtain ⟨ws, hlen, hws, rfl⟩ := lang_times_flatten.mp hu
    refine ⟨ws, o, hlen, ?_, ho, rfl⟩
    intro u hu
    obtain ⟨p, v, hp, hv, rfl⟩ := lang_append.mp (hws u hu)
    exact ⟨p, hp, by rw [lang_lit.mp hv]; rfl⟩
  · rintro ⟨ws, o, hlen, hws, ho, rfl⟩
    refine ⟨ws.flatten, o, lang_times_flatten.mpr ⟨ws, hlen, ?_, rfl⟩, ho, rfl⟩
    intro u hu
    obtain ⟨p, hp, rfl⟩ := hws u hu
    exact lang_append.mpr ⟨p, ['.'], hp, lang_lit.mpr rfl, rfl⟩

/-- The pattern of IPv4 addresses matches every such address. -/
theorem lang_reIpv4_of_address (ht : IsAddress .ipv4 t) : (reIpv4 U).Lang t := by
  obtain ⟨os, hlen, hos, rfl⟩ := ht
  obtain ⟨front, o, rfl⟩ := (List.eq_nil_or_concat os).resolve_left (by rintro rfl; cases hlen)
  rw [List.concat_eq_append] at hlen hos ⊢
  rw [List.forall_mem_append] at hos
  refine lang_reIpv4.mpr ⟨front.map fun h => h ++ ['.'], o, by simpa using hlen, ?_,
    lang_octet_of_isOctet (hos.2 o (by simp)), by rw [intercalate_concat, List.flatMap_def]⟩
  intro u hu
  obtain ⟨p, hp, rfl⟩ := List.mem_map.mp hu
  exact ⟨p, lang_octet_of_isOctet (hos.1 p hp), rfl⟩

/-- A dot is no digit, whatever the tables say beyond ASCII. -/
theorem WordTables.dot_not_digit (U : WordTables) : U.isDigit '.' = false :=
  U.isDigit_ascii '.' (by decide)

/-- A character which is no digit is counted zero times in a text of digits. -/
theorem count_digits {g : Text} {x : Char} (hg : ∀ c ∈ g, U.isDigit c = true)
    (hx : U.isDigit x = false) : g.count x = 0 := by
  rw [List.count_eq_zero]
  intro hmem
  rw [hg x hmem] at hx
  cases hx

/-- The points of a match of the IPv4 pattern, and its other characters. -/
theorem points_of_lang_reIpv4 (hw : (reIpv4 U).Lang w) :
    w.count '.' = 3 ∧ ∀ c ∈ w, U.isDigit c = true ∨ c = '.' := by
  obtain ⟨ws, o, hlen, hws, ho, rfl⟩ := lang_reIpv4.mp hw
  have hflat : ws.flatten.count '.' = ws.length ∧
      ∀ c ∈ ws.flatten, U.isDigit c = true ∨ c = '.' := by
    clear hlen hw
    induction ws with
    | nil => simp
    | cons u ws ih =>
        rw [List.forall_mem_cons] at hws
        obtain ⟨⟨p, hp, rfl⟩, hrest⟩ := hws
        obtain ⟨hcount, hall⟩ := ih hrest
        constructor
        · rw [List.flatten_cons, List.count_append, List.count_append, hcount,
            count_digits (octet_digits hp).2 U.dot_not_digit, List.count_singleton_self,
            List.length_cons]
          omega
        · intro c hc
          rw [List.flatten_cons, List.mem_append, List.mem_append, List.mem_singleton] at hc
          rcases hc with (hc | hc) | hc
          · exact Or.inl ((octet_digits hp).2 c hc)
          · exact Or.inr hc
          · exact hall c hc
  constructor
  · rw [List.count_append, hflat.1, hlen, count_digits (octet_digits ho).2 U.dot_not_digit]
  · intro c hc
    exact (List.mem_append.mp hc).elim (hflat.2 c) fun hc => Or.inl ((octet_digits ho).2 c hc)

end Ipv4

end FaultOracle.Anonymize
