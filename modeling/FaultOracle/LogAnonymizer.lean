import FaultOracle.InsertionDict
import FaultOracle.PythonFloats
import FaultOracle.RegexSubstitution
import FaultOracle.TraceParser

/-!
# The log anonymizer

`tools/anonymize_log.py` replaces host names, MAC addresses, PCI addresses, UUIDs, IPv6 and
IPv4 addresses by numbered placeholders, one pass over the text after the other.

A delimiter is a character which neither belongs to a word nor can stand in an address.  No
pattern of the five address passes sees past one, so each pass works on every run between
delimiters by itself and only hands the numbering on (`pass_runs`).
-/

namespace FaultOracle.Anonymize

open BacktrackingRegex InsertionDict
open PythonFloats (padded)
open FaultOracle.Remediation (isPySpace isPySpace_of_graphic)
open FaultOracle.Trace (CharTables Text isHexDigit isHexDigit_iff asciiTables)

/-- The character tables, with `str.lower`. -/
structure WordTables extends CharTables where
  lower : Text → Text
  isWord_of_isDigit : ∀ c, isDigit c = true → isWord c = true
  isWord_of_isPySpace : ∀ c, isPySpace c = true → isWord c = false
  lower_ascii : ∀ t : Text, (∀ c ∈ t, c.toNat < 128) → lower t = t.map Char.toLower

section Patterns

open Re

variable (U : WordTables)

/-- `25[0-5]|2[0-4]\d|[01]?\d\d?`. -/
def octet : Re :=
  alt (lit "25".toList ++ one (fun c => '0' ≤ c && c ≤ '5'))
    (alt (lit "2".toList ++ one (fun c => '0' ≤ c && c ≤ '4') ++ one U.isDigit)
      (opt (one fun c => c == '0' || c == '1') ++ one U.isDigit ++ opt (one U.isDigit)))

/-- `_RE_IPV4`. -/
def reIpv4 : Re := bounded U.isWord (times 3 (octet U ++ lit ".".toList) ++ octet U)

/-- `[0-9a-fA-F]{1,4}`. -/
def hexGroup : Re := between 1 4 (one isHexDigit)

/-- `[0-9a-fA-F]{1,4}:`. -/
def hexColon : Re := hexGroup ++ lit ":".toList

/-- The full form in `_RE_IPV6`, the first of its alternatives. -/
def reIpv6Full : Re := bounded U.isWord (between 2 7 hexColon ++ hexGroup)

/-- The second alternative of `_RE_IPV6`. -/
def reIpv6Leading : Re := lit "::".toList ++ between 0 6 hexColon ++ hexGroup

/-- The third alternative of `_RE_IPV6`. -/
def reIpv6Trailing : Re := between 1 7 hexColon ++ lit ":".toList

/-- `_RE_IPV6`. -/
def reIpv6 : Re := alt (reIpv6Full U) (alt reIpv6Leading reIpv6Trailing)

/-- `_RE_MAC`. -/
def reMac : Re :=
  bounded U.isWord (times 5 (times 2 (one isHexDigit) ++ one (fun c => c == ':' || c == '-')) ++
    times 2 (one isHexDigit))

/-- `_RE_BDF`. -/
def reBdf : Re :=
  bounded U.isWord (times 4 (one isHexDigit) ++ lit ":".toList ++ times 2 (one isHexDigit) ++
    lit ":".toList ++ times 2 (one isHexDigit) ++ lit ".".toList ++ one isHexDigit)

/-- `_RE_UUID`. -/
def reUuid : Re :=
  bounded U.isWord (times 8 (one isHexDigit) ++ lit "-".toList ++ times 4 (one isHexDigit) ++
    lit "-".toList ++ times 4 (one isHexDigit) ++ lit "-".toList ++ times 4 (one isHexDigit) ++
    lit "-".toList ++ times 12 (one isHexDigit))

/-- `^` under `re.MULTILINE` before a character which ends no line. -/
def lineStart : Re := boundary (fun c => c != '\n')

/-- `_RE_SYSLOG_HOST`. -/
def reSyslogHost : Re :=
  lineStart ++ group 1 (times 3 (one U.isWord) ++ plus isPySpace ++ between 1 2 (one U.isDigit) ++
      plus isPySpace ++ times 2 (one U.isDigit) ++ lit ":".toList ++ times 2 (one U.isDigit) ++
      lit ":".toList ++ times 2 (one U.isDigit)) ++
    plus isPySpace ++ group 2 (plus fun c => !isPySpace c) ++ plus isPySpace ++
    group 3 (lit "kernel:".toList)

end Patterns

/-- The kinds of addresses, in the order of their passes. -/
inductive Kind
  | mac
  | bdf
  | uuid
  | ipv6
  | ipv4
deriving DecidableEq, Repr

/-- What `anonymize` looks for in the pass of a kind. -/
def Kind.pattern (U : WordTables) : Kind → Re
  | mac => reMac U
  | bdf => reBdf U
  | uuid => reUuid U
  | ipv6 => reIpv6 U
  | ipv4 => reIpv4 U

/-- What the placeholders of a kind begin with, the `prefix` of its replacer. -/
def Kind.start : Kind → Text
  | mac => "xx:xx:xx:xx:xx:".toList
  | bdf => "0000:aa:bb.".toList
  | uuid => "00000000-0000-0000-0000-".toList
  | ipv6 => "fd00::".toList
  | ipv4 => "192.0.2.".toList

/-- `f"{prefix}{n:03d}"`. -/
def placeholder (start : Text) (n : Nat) : Text := start ++ (padded 3 n).toList

/-- The state which `_make_replacer` closes over. -/
structure Replacer where
  counter : Nat
  memo : List (Text × Text)
deriving DecidableEq, Repr

/-- The `replacer` of `_make_replacer`. -/
def Replacer.replace (lower : Text → Text) (start : Text) (r : Replacer) (w : Text) (_ : Groups) :
    Replacer × Text :=
  let key := lower w
  match r.memo.lookup key with
  | some made => (r, made)
  | none =>
    let counter := r.counter + 1
    let made := placeholder start counter
    (⟨counter, setItem key made r.memo⟩, made)

/-- `replace_syslog_host`, on the `hostname` part of the substitutions. -/
def replaceSyslogHost (lower : Text → Text) (hosts : List (Text × Text)) (_ : Text)
    (groups : Groups) : List (Text × Text) × Text :=
  let host := (groups 2).getD []
  let key := lower host
  let made := placeholder "arm64-node-".toList (hosts.length + 1)
  let hosts' := if (hosts.lookup key).isSome then hosts else setItem key made hosts
  (hosts', (groups 1).getD [] ++ " ".toList ++ (hosts'.lookup key).getD [] ++ " ".toList ++
    (groups 3).getD [])

/-- What `anonymize` records, the substitutions of each category. -/
structure Subs where
  hostname : List (Text × Text)
  ipv4 : List (Text × Text)
  ipv6 : List (Text × Text)
  mac : List (Text × Text)
  bdf : List (Text × Text)
  uuid : List (Text × Text)
deriving DecidableEq, Repr

/-- The substitutions of a kind. -/
def Subs.of (subs : Subs) : Kind → List (Text × Text)
  | .mac => subs.mac
  | .bdf => subs.bdf
  | .uuid => subs.uuid
  | .ipv6 => subs.ipv6
  | .ipv4 => subs.ipv4

section Passes

variable (U : WordTables)

/-- The first pass, over the host names. -/
def hostPass (text : Text) : List (Text × Text) × Text :=
  (reSyslogHost U).sub (replaceSyslogHost U.lower) [] text

/-- The pass over the addresses of a kind. -/
def pass (k : Kind) (text : Text) : Replacer × Text :=
  (k.pattern U).sub (Replacer.replace U.lower k.start) ⟨0, []⟩ text

/-- `anonymize`. -/
def anonymize (text : Text) : Text × Subs :=
  let host := hostPass U text
  let mac := pass U .mac host.2
  let bdf := pass U .bdf mac.2
  let uuid := pass U .uuid bdf.2
  let ipv6 := pass U .ipv6 uuid.2
  let ipv4 := pass U .ipv4 ipv6.2
  (ipv4.2, ⟨host.1, ipv4.1.memo, ipv6.1.memo, mac.1.memo, bdf.1.memo, uuid.1.memo⟩)

end Passes

/-- The ASCII letters and digits by their code points. -/
theorem isAlphanum_iff {c : Char} : c.isAlphanum = true ↔
    ((65 ≤ c.toNat ∧ c.toNat ≤ 90) ∨ (97 ≤ c.toNat ∧ c.toNat ≤ 122)) ∨
      (48 ≤ c.toNat ∧ c.toNat ≤ 57) := by
  change ((decide (65 ≤ c.val ∧ c.val ≤ 90) ||
    decide (97 ≤ c.val) && decide (c.val ≤ 122)) ||
      decide (48 ≤ c.val) && decide (c.val ≤ 57)) = true ↔ _
  simp only [Bool.or_eq_true, Bool.and_eq_true, decide_eq_true_eq, UInt32.le_iff_toNat_le]
  exact Iff.rfl

/-- The tables as far as ASCII goes. -/
def asciiWords : WordTables where
  toCharTables := asciiTables
  lower := fun t => t.map Char.toLower
  isWord_of_isDigit := by
    intro c hc
    simp [asciiTables, Char.isAlphanum, show c.isDigit = true from hc]
  isWord_of_isPySpace := by
    intro c hc
    cases hword : asciiTables.isWord c with
    | false => rfl
    | true =>
        have hrange : 0x20 < c.toNat ∧ c.toNat < 0x80 := by
          rcases Bool.or_eq_true_iff.mp hword with h | h
          · have hcode := isAlphanum_iff.mp h
            omega
          · rw [beq_iff_eq.mp h]
            decide
        rw [isPySpace_of_graphic hrange.1 hrange.2] at hc
        cases hc
  lower_ascii := fun _ _ => rfl

/-! ## Placeholders -/

/-- A padded number is its zeros followed by its decimal digits. -/
theorem padded_toList (digits n : Nat) :
    (padded digits n).toList =
      List.replicate (digits - (toString n).length) '0' ++ Nat.toDigits 10 n := by
  simp [padded, Nat.toList_repr]

/-- A padded number has only digits. -/
theorem isDigit_of_mem_padded {digits n : Nat} {c : Char} (hc : c ∈ (padded digits n).toList) :
    c.isDigit = true := by
  rw [padded_toList] at hc
  rcases List.mem_append.mp hc with hc | hc
  · rw [List.eq_of_mem_replicate hc]
    rfl
  · exact Nat.isDigit_of_mem_toDigits (b := 10) (by decide) le_rfl hc

theorem padded_ne_nil (digits n : Nat) : (padded digits n).toList ≠ [] := by
  rw [padded_toList]
  exact List.append_ne_nil_of_right_ne_nil _ Nat.toDigits_ne_nil

/-- Different numbers are written differently. -/
theorem padded_injective {digits m n : Nat} (h : padded digits m = padded digits n) : m = n := by
  have hvalue : ∀ k, Nat.ofDigitChars 10 (padded digits k).toList 0 = k := by
    intro k
    rw [padded_toList, Nat.ofDigitChars_append, Nat.ofDigitChars_replicate_zero, Nat.mul_zero,
      Nat.ofDigitChars_ten_toDigits]
  rw [← hvalue m, h, hvalue n]

/-- Placeholders of one kind with the same text have the same number. -/
theorem placeholder_injective {start : Text} {m n : Nat}
    (h : placeholder start m = placeholder start n) : m = n :=
  padded_injective (String.toList_injective (List.append_cancel_left h))

/-! ## The memo of a replacer -/

/-- A character of a word, or one which stands between the parts of an address. -/
def WordTables.joins (U : WordTables) (c : Char) : Bool :=
  U.isWord c || c == ':' || c == '.' || c == '-'

/-- A delimiter. -/
def WordTables.delimits (U : WordTables) (c : Char) : Bool := !U.joins c

/-- What the memo of a kind holds: numbered placeholders, under the lower-case texts. -/
structure Replacer.Made (U : WordTables) (k : Kind) (r : Replacer) : Prop where
  placeholders :
    r.memo.map Prod.snd = (List.range' 1 r.counter).map (placeholder k.start)
  keys : ∀ key ∈ r.memo.map Prod.fst, ∃ w, (k.pattern U).Lang w ∧ key = U.lower w

/-- Nothing which is in the one memo changes in the other. -/
def Replacer.Extends (r r' : Replacer) : Prop :=
  ∀ key made, r.memo.lookup key = some made → r'.memo.lookup key = some made

section Memo

variable {U : WordTables} {k : Kind} {r r' : Replacer} {w key made : Text}

/-- The empty memo is well made. -/
theorem Replacer.made_new : Replacer.Made U k ⟨0, []⟩ := ⟨rfl, by simp⟩

/-- What a lookup finds is in the list. -/
theorem mem_of_lookup {d : List (Text × Text)} (h : d.lookup key = some made) :
    (key, made) ∈ d := by
  obtain ⟨before, after, rfl, _⟩ := List.lookup_eq_some_iff.mp h
  simp

/-- A memo either knows the text or takes it in with the next number. -/
theorem Replacer.replace_cases (lower : Text → Text) (start : Text) (r : Replacer) (w : Text)
    (g : Groups) :
    (∃ made, r.memo.lookup (lower w) = some made ∧ r.replace lower start w g = (r, made)) ∨
    (r.memo.lookup (lower w) = none ∧ r.replace lower start w g =
      (⟨r.counter + 1, r.memo ++ [(lower w, placeholder start (r.counter + 1))]⟩,
        placeholder start (r.counter + 1))) := by
  cases h : r.memo.lookup (lower w) with
  | some made => exact Or.inl ⟨made, rfl, by simp only [Replacer.replace, h]⟩
  | none =>
      have hnew : lower w ∉ r.memo.map Prod.fst := by
        intro hmem
        obtain ⟨item, hitem, hkey⟩ := List.mem_map.mp hmem
        have hne := List.lookup_eq_none_iff.mp h item hitem
        simp [hkey] at hne
      exact Or.inr ⟨rfl, by simp only [Replacer.replace, h, setItem_of_not_mem hnew]⟩

/-- Replacing a match keeps the memo well made. -/
theorem Replacer.Made.replace (hr : r.Made U k) (hw : (k.pattern U).Lang w) (g : Groups) :
    (r.replace U.lower k.start w g).1.Made U k := by
  rcases r.replace_cases U.lower k.start w g with ⟨made, _, h⟩ | ⟨_, h⟩
  · rw [h]
    exact hr
  · rw [h]
    constructor
    · rw [List.map_append, hr.placeholders, List.range'_1_concat, List.map_append]
      simp [Nat.add_comm]
    · intro key hkey
      rw [List.map_append, List.mem_append] at hkey
      rcases hkey with hkey | hkey
      · exact hr.keys key hkey
      · exact ⟨w, hw, by simpa using hkey⟩

/-- Replacing a match forgets nothing. -/
theorem Replacer.extends_replace (start : Text) (g : Groups) :
    r.Extends (r.replace U.lower start w g).1 := by
  intro key made hmade
  rcases r.replace_cases U.lower start w g with ⟨_, _, h⟩ | ⟨_, h⟩
  · rw [h]
    exact hmade
  · rw [h, List.lookup_append, hmade]
    rfl

/-- The memo knows what was put in. -/
theorem Replacer.lookup_replace (start : Text) (g : Groups) :
    (r.replace U.lower start w g).1.memo.lookup (U.lower w) =
      some (r.replace U.lower start w g).2 := by
  rcases r.replace_cases U.lower start w g with ⟨made, hmade, h⟩ | ⟨hnone, h⟩
  · rw [h, hmade]
  · rw [h, List.lookup_append, hnone]
    simp

/-- What the memo holds are placeholders of its kind. -/
theorem Replacer.Made.exists_placeholder (hr : r.Made U k) (h : r.memo.lookup key = some made) :
    ∃ n, made = placeholder k.start n := by
  have hmem : made ∈ r.memo.map Prod.snd := List.mem_map_of_mem (mem_of_lookup h)
  rw [hr.placeholders] at hmem
  obtain ⟨n, _, hn⟩ := List.mem_map.mp hmem
  exact ⟨n, hn.symm⟩

/-- A match is replaced by a placeholder. -/
theorem Replacer.Made.replace_eq (hr : r.Made U k) (w : Text) (g : Groups) :
    ∃ n, (r.replace U.lower k.start w g).2 = placeholder k.start n := by
  rcases r.replace_cases U.lower k.start w g with ⟨made, hmade, h⟩ | ⟨_, h⟩
  · rw [h]
    exact hr.exists_placeholder hmade
  · exact ⟨r.counter + 1, by rw [h]⟩

/-- Different texts have different placeholders. -/
theorem Replacer.Made.lookup_injective (hr : r.Made U k) {key' : Text}
    (h : r.memo.lookup key = some made) (h' : r.memo.lookup key' = some made) : key = key' := by
  have hnodup : (r.memo.map Prod.snd).Nodup := by
    rw [hr.placeholders]
    exact List.Nodup.map (fun _ _ heq => placeholder_injective heq) List.nodup_range'
  exact congrArg Prod.fst
    (List.inj_on_of_nodup_map hnodup (mem_of_lookup h) (mem_of_lookup h') rfl)

end Memo

/-! ## A pass, run by run -/

section Runs

variable {U : WordTables} {k : Kind}

/-- The hexadecimal digits are ASCII. -/
theorem toNat_lt_of_isHexDigit {c : Char} (h : isHexDigit c = true) : c.toNat < 128 := by
  have hcode := isHexDigit_iff.mp h
  omega

/-- The hexadecimal digits are word characters. -/
theorem WordTables.isWord_of_isHexDigit (U : WordTables) {c : Char} (h : isHexDigit c = true) :
    U.isWord c = true := by
  rw [U.isWord_ascii c (toNat_lt_of_isHexDigit h)]
  have hcode := isHexDigit_iff.mp h
  rw [Bool.or_eq_true, isAlphanum_iff]
  omega

/-- The decimal digits are hexadecimal ones. -/
theorem isHexDigit_of_isDigit {c : Char} (h : c.isDigit = true) : isHexDigit c = true := by
  simp [isHexDigit, h]

/-- The hexadecimal digits may stand inside an address. -/
theorem WordTables.joins_of_isHexDigit (U : WordTables) {c : Char} (h : isHexDigit c = true) :
    U.joins c = true := by
  simp [joins, U.isWord_of_isHexDigit h]

/-- The digits of the tables may stand inside an address. -/
theorem WordTables.joins_of_isDigit (U : WordTables) {c : Char} (h : U.isDigit c = true) :
    U.joins c = true := by
  simp [joins, U.isWord_of_isDigit c h]

/-- The ASCII digits are digits of the tables. -/
theorem WordTables.isDigit_of_ascii (U : WordTables) {c : Char} (h : c.isDigit = true) :
    U.isDigit c = true := by
  rw [U.isDigit_ascii c (toNat_lt_of_isHexDigit (isHexDigit_of_isDigit h)), h]

/-- An octet is made of digits. -/
theorem octet_within (U : WordTables) : (octet U).Within U.isDigit U.isWord := by
  have hlow : ∀ last, last ≤ '9' →
      (Re.one fun c => '0' ≤ c && c ≤ last).Within U.isDigit U.isWord := by
    intro last hlast c hc
    rw [Bool.and_eq_true, decide_eq_true_eq, decide_eq_true_eq] at hc
    apply U.isDigit_of_ascii
    rw [Char.isDigit, Bool.and_eq_true, decide_eq_true_eq, decide_eq_true_eq]
    exact ⟨hc.1, le_trans hc.2 hlast⟩
  have hlit : ∀ w : Text, (∀ c ∈ w, c.isDigit = true) →
      (Re.lit w).Within U.isDigit U.isWord :=
    fun w hw => within_lit fun c hc => U.isDigit_of_ascii (hw c hc)
  have hdigit : (Re.one U.isDigit).Within U.isDigit U.isWord := fun _ h => h
  have hbinary : (Re.one fun c => c == '0' || c == '1').Within U.isDigit U.isWord := by
    intro c hc
    rcases Bool.or_eq_true_iff.mp hc with h | h <;> rw [beq_iff_eq.mp h] <;>
      exact U.isDigit_of_ascii rfl
  exact ⟨⟨hlit _ (by simp), hlow '5' (by decide)⟩,
    ⟨⟨hlit _ (by simp), hlow '4' (by decide)⟩, hdigit⟩, ⟨hbinary, hdigit⟩, hdigit⟩

/-- No pattern of an address sees past a delimiter. -/
theorem pattern_within (U : WordTables) (k : Kind) : (k.pattern U).Within U.joins U.isWord := by
  have hhex : (Re.one isHexDigit).Within U.joins U.isWord := fun _ => U.joins_of_isHexDigit
  have hdigit : (Re.one U.isDigit).Within U.joins U.isWord := fun _ => U.joins_of_isDigit
  have hcolon : (Re.lit ":".toList).Within U.joins U.isWord :=
    within_lit (by simp [WordTables.joins])
  have hdash : (Re.lit "-".toList).Within U.joins U.isWord :=
    within_lit (by simp [WordTables.joins])
  have hdot : (Re.lit ".".toList).Within U.joins U.isWord :=
    within_lit (by simp [WordTables.joins])
  have hgroup : hexColon.Within U.joins U.isWord := ⟨within_between hhex, hcolon⟩
  cases k with
  | mac =>
      refine within_bounded.mpr ⟨within_times ⟨within_times hhex, ?_⟩, within_times hhex⟩
      intro c hc
      rcases Bool.or_eq_true_iff.mp hc with h | h <;> simp [WordTables.joins, beq_iff_eq.mp h]
  | bdf =>
      exact within_bounded.mpr ⟨⟨⟨⟨⟨⟨within_times hhex, hcolon⟩, within_times hhex⟩, hcolon⟩,
        within_times hhex⟩, hdot⟩, hhex⟩
  | uuid =>
      exact within_bounded.mpr ⟨⟨⟨⟨⟨⟨⟨⟨within_times hhex, hdash⟩, within_times hhex⟩, hdash⟩,
        within_times hhex⟩, hdash⟩, within_times hhex⟩, hdash⟩, within_times hhex⟩
  | ipv6 =>
      refine ⟨within_bounded.mpr ⟨within_between hgroup, within_between hhex⟩,
        ⟨⟨within_lit ?_, within_between hgroup⟩, within_between hhex⟩,
        ⟨within_between hgroup, hcolon⟩⟩
      simp [WordTables.joins]
  | ipv4 =>
      have hoctet : (octet U).Within U.joins U.isWord :=
        (octet_within U).mono fun _ => U.joins_of_isDigit
      exact within_bounded.mpr ⟨within_times ⟨hoctet, hdot⟩, hoctet⟩

end Runs

section Runs

variable {U : WordTables} {k : Kind}

theorem not_lang_one_nil {p : Char → Bool} : ¬ (Re.one p).Lang [] := by
  rintro ⟨c, _, h⟩
  cases h

theorem not_lang_times_nil {p : Char → Bool} {n : Nat} : ¬ (Re.times (n + 1) (.one p)).Lang [] :=
  fun h => not_lang_one_nil (lang_append_nil.mp h).1

theorem not_lang_hexGroup_nil : ¬ hexGroup.Lang [] :=
  fun h => not_lang_times_nil (lang_append_nil.mp h).1

theorem not_lang_octet_nil (U : WordTables) : ¬ (octet U).Lang [] := by
  rintro (h | h | h)
  · exact not_lang_one_nil (lang_append_nil.mp h).2
  · exact not_lang_one_nil (lang_append_nil.mp h).2
  · exact not_lang_one_nil (lang_append_nil.mp (lang_append_nil.mp h).1).2

/-- No pattern of a pass matches the empty text. -/
theorem pattern_nonempty (U : WordTables) (k : Kind) : ¬ (k.pattern U).Lang [] := by
  intro h
  cases k with
  | mac => exact not_lang_times_nil (lang_append_nil.mp (lang_bounded.mp h)).2
  | bdf => exact not_lang_one_nil (lang_append_nil.mp (lang_bounded.mp h)).2
  | uuid => exact not_lang_times_nil (lang_append_nil.mp (lang_bounded.mp h)).2
  | ipv6 =>
      rcases h with h | h | h
      · exact not_lang_hexGroup_nil (lang_append_nil.mp (lang_bounded.mp h)).2
      · exact not_lang_hexGroup_nil (lang_append_nil.mp h).2
      · exact List.cons_ne_nil _ _ (lang_lit.mp (lang_append_nil.mp h).2).symm
  | ipv4 => exact not_lang_octet_nil U (lang_append_nil.mp (lang_bounded.mp h)).2

/-- A placeholder has only characters which may stand inside an address. -/
theorem joins_placeholder (U : WordTables) (k : Kind) (n : Nat) :
    ∀ c ∈ placeholder k.start n, U.joins c = true := by
  intro c hc
  rcases List.mem_append.mp hc with hc | hc
  · have hstart : k.start.all (fun c => isHexDigit c || c == 'x' || c == ':' || c == '.' ||
        c == '-') = true := by
      cases k <;> decide
    have hx : U.joins 'x' = true := by
      simp [WordTables.joins, U.isWord_ascii 'x' (by decide)]
    have hall := List.all_eq_true.mp hstart c hc
    simp only [Bool.or_eq_true, beq_iff_eq] at hall
    rcases hall with (((h | rfl) | rfl) | rfl) | rfl
    · exact U.joins_of_isHexDigit h
    · exact hx
    all_goals simp [WordTables.joins]
  · exact U.joins_of_isHexDigit (isHexDigit_of_isDigit (isDigit_of_mem_padded hc))

/-- What a replacer keeps. -/
theorem replacer_keeps (U : WordTables) (k : Kind) :
    (k.pattern U).Keeps (Replacer.replace U.lower k.start) U.delimits (Replacer.Made U k)
      Replacer.Extends where
  refl := fun _ _ _ h => h
  trans := fun hrs hst key made h => hst key made (hrs key made h)
  good := fun g hw hr => hr.replace hw g
  step := fun g _ => Replacer.extends_replace _ g
  plain := by
    intro r w g hr c hc
    obtain ⟨n, hn⟩ := hr.replace_eq w g
    rw [hn] at hc
    simp [WordTables.delimits, joins_placeholder U k n c hc]

/-- What the pass of a kind makes of a run, the memo being `last` in the end. -/
def Passed (U : WordTables) (k : Kind) (last : Replacer) (run out : Text) : Prop :=
  ∃ r, r.Made U k ∧ ((k.pattern U).sub (Replacer.replace U.lower k.start) r run).2 = out ∧
    ((k.pattern U).sub (Replacer.replace U.lower k.start) r run).1.Extends last

/-- The runs of a text between its delimiters. -/
def runs (U : WordTables) (text : Text) : List Text := text.splitOnP U.delimits

/-- The memo of a pass is well made. -/
theorem pass_made (U : WordTables) (k : Kind) (text : Text) : (pass U k text).1.Made U k :=
  ((replacer_keeps U k).sub_good (pattern_nonempty U k) Replacer.made_new text).1

/-- A pass works on every run by itself. -/
theorem pass_runs (U : WordTables) (k : Kind) (text : Text) :
    List.Forall₂ (Passed U k (pass U k text).1) (runs U text) (runs U (pass U k text).2) := by
  have hdelimiter : ∀ d, U.delimits d = true → U.joins d = false ∧ U.isWord d = false := by
    intro d hd
    have hjoins : U.joins d = false := by simpa [WordTables.delimits] using hd
    refine ⟨hjoins, ?_⟩
    simp only [WordTables.joins, Bool.or_eq_false_iff] at hjoins
    exact hjoins.1.1.1
  exact (replacer_keeps U k).sub_splitOnP (pattern_within U k) (pattern_nonempty U k) hdelimiter
    Replacer.made_new

/-- A run in which nothing matches stays. -/
theorem Passed.eq_self {last : Replacer} {run out : Text} (h : Passed U k last run out)
    (hnone : ¬ (k.pattern U).Occurs run) : out = run := by
  obtain ⟨r, _, rfl, _⟩ := h
  rw [sub_of_not_occurs hnone]

end Runs

end FaultOracle.Anonymize
