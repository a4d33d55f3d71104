import FaultOracle.EdacLogLines
import FaultOracle.TraceAttribution

/-!
# The log generator

`tools/generate_edac_log.py` writes syslog lines as input for the trace parser.  It spells
the location `csrow0 channel1`, without the colons which `RE_EDAC_LOCATION` asks for, so no
generated line gives an event with its csrow (`generated_never_recovered`).
-/

namespace FaultOracle.Trace

open BacktrackingRegex
open CheckedLoops (bind_eq_ok)
open FaultOracle.Remediation (isPySpace)

/-! ## Generated lines -/

/-- A date and time of day, to the second. -/
structure DateTime where
  month : Fin 12
  day : Fin 32
  hour : Fin 24
  minute : Fin 60
  second : Fin 60
  day_pos : 0 < day

/-- `%b`. -/
def monthName (month : Fin 12) : Text :=
  ([['J', 'a', 'n'], ['F', 'e', 'b'], ['M', 'a', 'r'], ['A', 'p', 'r'], ['M', 'a', 'y'],
    ['J', 'u', 'n'], ['J', 'u', 'l'], ['A', 'u', 'g'], ['S', 'e', 'p'], ['O', 'c', 't'],
    ['N', 'o', 'v'], ['D', 'e', 'c']]).getD month []

/-- `%d`, `%H`, `%M` and `%S`: two digits. -/
def twoDigits (n : Nat) : Text := [Nat.digitChar (n / 10), Nat.digitChar (n % 10)]

/-- `dt.strftime("%b %d %H:%M:%S")`. -/
def DateTime.strftime (dt : DateTime) : Text :=
  monthName dt.month ++ [' '] ++ twoDigits dt.day ++ [' '] ++ twoDigits dt.hour ++ [':'] ++
    twoDigits dt.minute ++ [':'] ++ twoDigits dt.second

/-- `s.replace(" 0", "  ")`. -/
def replaceBlankZero : Text → Text
  | ' ' :: '0' :: rest => ' ' :: ' ' :: replaceBlankZero rest
  | c :: rest => c :: replaceBlankZero rest
  | [] => []

/-- `_syslog_ts`. -/
def syslogTs (dt : DateTime) : Text := replaceBlankZero dt.strftime

/-- `str(n)`. -/
def decimalText (n : Nat) : Text := Nat.toDigits 10 n

/-- `format(n, "x")`. -/
def hexText (n : Nat) : Text := Nat.toDigits 16 n

/-- The detail templates, with the rank and the DIMM of a csrow filled in. -/
def detailTexts (kind : EdacKind) (csrow : Nat) : List Text :=
  match kind with
  | .ce =>
      ["memory read error".toList, "ECC scrub corrected error".toList,
        "CE on rank ".toList ++ decimalText csrow,
        "single-bit ECC error on DIMM A".toList ++ decimalText csrow]
  | .ue => ["multi-bit ECC error".toList, "double-bit error detected on DIMM 0".toList]

/-- What one turn of the loop of `generate_events` draws; the time, which moves on by a
drawn gap, is given as a whole. -/
structure Draw where
  time : DateTime
  kind : EdacKind
  mc : Nat
  csrow : Nat
  ch : Nat
  page : Nat
  off : Nat
  grain : Nat
  count : Nat
  detail : Text
  detail_mem : detail ∈ detailTexts kind csrow

/-- A name without white space. -/
structure Hostname where
  name : Text
  dark : ∀ c ∈ name, isPySpace c = false

/-- The channel, which only `_CE_TEMPLATE` has. -/
def Draw.channelText (d : Draw) : Text :=
  match d.kind with
  | .ce => " channel".toList ++ decimalText d.ch
  | .ue => []

/-- The templates behind the host, up to the csrow. -/
def Draw.report (d : Draw) : Text :=
  [[' '], "kernel: EDAC MC".toList, decimalText d.mc, ": ".toList, decimalText d.count, [' '],
    d.kind.word, [' '], d.detail, " on MC".toList, decimalText d.mc, " csrow".toList,
    decimalText d.csrow].flatten

/-- The end of the templates. -/
def Draw.address (d : Draw) : Text :=
  [[' '], "(mc#".toList, decimalText d.mc, " page 0x".toList, hexText d.page, " offset 0x".toList,
    hexText d.off, " grain ".toList, decimalText d.grain, [')']].flatten

/-- `_CE_TEMPLATE` and `_UE_TEMPLATE` behind the host. -/
def Draw.message (d : Draw) : Text := d.report ++ (d.channelText ++ d.address)

/-- The line which one turn of the loop of `generate_events` appends. -/
def generateEvent (host : Hostname) (d : Draw) : Text :=
  (syslogTs d.time ++ [' ']) ++ (host.name ++ d.message)

/-- The event says what was drawn. -/
structure Recovers (d : Draw) (e : HardwareEvent) : Prop where
  eventType : e.eventType = d.kind.type
  controller : e.controller = "MC".toList ++ decimalText d.mc
  count : e.count = d.count
  csrow : e.csrow = some d.csrow
  channel : d.kind = .ce → e.channel = some d.ch
  page : e.page = some d.page
  offset : e.offset = some d.off
  grain : e.grain = some d.grain
  timestampStr : e.timestampStr ≠ []

/-! ## No location -/

theorem notMem_toDigits {b n : Nat} {c : Char} (hb : 1 < b)
    (hc : ∀ d < b, Nat.digitChar d ≠ c) : c ∉ Nat.toDigits b n := by
  induction n using Nat.strong_induction_on with
  | _ n ih =>
      rw [Nat.toDigits_eq_if hb]
      split
      · rename_i hlt
        simpa using (hc n hlt).symm
      · rename_i hge
        have hdiv : n / b < n := Nat.div_lt_self (by omega) hb
        have hmod : Nat.digitChar (n % b) ≠ c := hc _ (Nat.mod_lt n (by omega))
        simpa using ⟨ih _ hdiv, hmod.symm⟩

/-- Blanking the padding adds no character but the blank. -/
theorem mem_of_mem_replaceBlankZero {c : Char} {text : Text} (hc : c ≠ ' ')
    (h : c ∈ replaceBlankZero text) : c ∈ text := by
  induction text using replaceBlankZero.induct with
  | case1 rest ih =>
      simp only [replaceBlankZero, List.mem_cons, hc, false_or] at h
      simp [ih h]
  | case2 d rest hne ih =>
      rw [replaceBlankZero] at h
      · rcases List.mem_cons.mp h with rfl | h
        · exact List.mem_cons_self
        · exact List.mem_cons_of_mem d (ih h)
      · exact hne
  | case3 => exact h

/-- What no hexadecimal digit is no decimal digit is. -/
theorem digitChar_ne_of_lt {c : Char} (hc : ∀ d < 16, Nat.digitChar d ≠ c) :
    ∀ d < 10, Nat.digitChar d ≠ c := fun d hd => hc d (by omega)

theorem notMem_decimalText {c : Char} (hc : ∀ d < 16, Nat.digitChar d ≠ c) (n : Nat) :
    c ∉ decimalText n := notMem_toDigits (by omega) (digitChar_ne_of_lt hc)

theorem notMem_hexText {c : Char} (hc : ∀ d < 16, Nat.digitChar d ≠ c) (n : Nat) :
    c ∉ hexText n := notMem_toDigits (by omega) hc

theorem notMem_twoDigits {n : Nat} (hn : n < 100) {c : Char}
    (hc : ∀ d < 16, Nat.digitChar d ≠ c) : c ∉ twoDigits n := by
  have hhigh := hc (n / 10) (by omega)
  have hlow := hc (n % 10) (by omega)
  simp [twoDigits, hhigh.symm, hlow.symm]

theorem notMem_syslogTs {c : Char} (dt : DateTime) (hc : ∀ d < 16, Nat.digitChar d ≠ c)
    (hmonth : ∀ m, c ∉ monthName m) (hlit : c ∉ [' ', ':']) : c ∉ syslogTs dt := by
  simp only [List.mem_cons, List.not_mem_nil, not_or, or_false] at hlit
  intro hmem
  have hplain := mem_of_mem_replaceBlankZero hlit.1 hmem
  simp [DateTime.strftime, hmonth, hlit, notMem_twoDigits (show dt.day.val < 100 by omega) hc,
    notMem_twoDigits (show dt.hour.val < 100 by omega) hc,
    notMem_twoDigits (show dt.minute.val < 100 by omega) hc,
    notMem_twoDigits (show dt.second.val < 100 by omega) hc] at hplain

theorem notMem_detail {c : Char} (d : Draw) (hc : ∀ k < 16, Nat.digitChar k ≠ c)
    (hlit : ∀ t ∈ ["memory read error".toList, "ECC scrub corrected error".toList,
      "CE on rank ".toList, "single-bit ECC error on DIMM A".toList,
      "multi-bit ECC error".toList, "double-bit error detected on DIMM 0".toList], c ∉ t) :
    c ∉ d.detail := by
  have hnum := notMem_decimalText hc d.csrow
  simp only [List.forall_mem_cons] at hlit
  obtain ⟨hread, hscrub, hrank, hdimm, hmulti, hdouble, _⟩ := hlit
  have hmem := d.detail_mem
  unfold detailTexts at hmem
  split at hmem
  · simp only [List.mem_cons, List.not_mem_nil, or_false] at hmem
    rcases hmem with h | h | h | h
    · exact h ▸ hread
    · exact h ▸ hscrub
    · rw [h, List.mem_append, not_or]
      exact ⟨hrank, hnum⟩
    · rw [h, List.mem_append, not_or]
      exact ⟨hdimm, hnum⟩
  · simp only [List.mem_cons, List.not_mem_nil, or_false] at hmem
    rcases hmem with h | h
    · exact h ▸ hmulti
    · exact h ▸ hdouble

theorem notMem_report {c : Char} (d : Draw) (hc : ∀ k < 16, Nat.digitChar k ≠ c)
    (hdetail : c ∉ d.detail) (hlit : c ∉ " kernel:EDACMU on csrow".toList) : c ∉ d.report := by
  simp only [String.reduceToList, List.mem_cons, List.not_mem_nil, not_or, or_false] at hlit
  cases hkind : d.kind <;>
    simp [Draw.report, hkind, EdacKind.word, notMem_decimalText hc, hdetail, hlit]

/-- The report has no letter h. -/
theorem h_notMem_report (d : Draw) : 'h' ∉ d.report := by
  apply notMem_report d (by decide) _ (by decide)
  exact notMem_detail d (by decide) (by decide)

theorem notMem_address {c : Char} (d : Draw) (hc : ∀ k < 16, Nat.digitChar k ≠ c)
    (hlit : c ∉ " (mc# page 0x offset 0x grain )".toList) : c ∉ d.address := by
  simp only [String.reduceToList, List.mem_cons, List.not_mem_nil, not_or, or_false] at hlit
  simp [Draw.address, notMem_decimalText hc, notMem_hexText hc, hlit]

/-- Behind the host, no word begins with `channel:`. -/
theorem not_channel_in_message (d : Draw) : ¬ "channel:".toList <:+: d.message := by
  intro hin
  rw [Draw.message, Draw.channelText] at hin
  cases hkind : d.kind with
  | ce =>
      have hcolon : ∀ k < 16, Nat.digitChar k ≠ ':' := by decide
      have hsplit : d.report ++ (" channel".toList ++ decimalText d.ch ++ d.address) =
          d.report ++ ' ' :: ("channel".toList ++ decimalText d.ch ++ d.address) := by simp
      simp only [hkind] at hin
      rw [hsplit] at hin
      rcases infix_append_cons hin (by decide) with hin | hin
      · exact h_notMem_report d (hin.subset (by decide))
      · have hmem : ':' ∈ "channel".toList ++ decimalText d.ch ++ d.address :=
          hin.subset (by decide)
        simp [notMem_decimalText hcolon, notMem_address d hcolon (by decide)] at hmem
  | ue =>
      have hh : ∀ k < 16, Nat.digitChar k ≠ 'h' := by decide
      simp only [hkind] at hin
      have hmem : 'h' ∈ d.report ++ ([] ++ d.address) := hin.subset (by decide)
      simp [h_notMem_report, notMem_address d hh (by decide)] at hmem

/-- No generated line has a location. -/
theorem not_occurs_generated {U : CharTables} (host : Hostname) (d : Draw) :
    ¬ (reEdacLocation U).Occurs (generateEvent host d) := by
  intro ⟨u, v, hline, w, hw, rest, hrest⟩
  obtain ⟨row, gap, channel, hloc, rfl⟩ := lang_reEdacLocation.mp hw
  obtain ⟨gap, x, rfl⟩ := (List.eq_nil_or_concat gap).resolve_left hloc.gap.1
  have hx : isPySpace x = true := hloc.gap.2 x (by simp)
  have hsplit : (syslogTs d.time ++ [' ']) ++ (host.name ++ d.message) =
      (u ++ ("csrow:".toList ++ row ++ gap)) ++ x :: ("channel:".toList ++ (channel ++ rest)) := by
    have h := hline
    rw [← hrest, locationText_eq] at h
    simpa [generateEvent] using h
  -- the blank before `channel:` comes after a `w`, so it is behind the time
  rcases List.append_eq_append_iff.mp hsplit with ⟨front, hfront, hmore⟩ | ⟨front, hfront, _⟩
  · rcases List.append_eq_append_iff.mp hmore with ⟨tail, _, htail⟩ | ⟨tail, hname, htail⟩
    · exact not_channel_in_message d ⟨tail ++ [x], channel ++ rest, by simp [htail]⟩
    · cases tail with
      | nil => exact not_channel_in_message d ⟨[x], channel ++ rest, by simpa using htail⟩
      | cons y tail =>
          obtain ⟨rfl, _⟩ := List.cons.inj htail
          have hdark := host.dark x (by simp [hname])
          rw [hx] at hdark
          cases hdark
  · have hw : 'w' ∈ syslogTs d.time ++ [' '] := by simp [hfront]
    rcases List.mem_append.mp hw with hw | hw
    · exact notMem_syslogTs d.time (by decide) (by decide) (by decide) hw
    · simp at hw

theorem newline_notMem_generated (host : Hostname) (d : Draw) :
    '\n' ∉ generateEvent host d := by
  have hn : ∀ k < 16, Nat.digitChar k ≠ '\n' := by decide
  have hhost : '\n' ∉ host.name := by
    intro hmem
    have hdark := host.dark '\n' hmem
    cases hdark
  have htime : '\n' ∉ syslogTs d.time := notMem_syslogTs d.time hn (by decide) (by decide)
  have hreport : '\n' ∉ d.report := by
    apply notMem_report d hn _ (by decide)
    exact notMem_detail d hn (by decide)
  have haddress : '\n' ∉ d.address := notMem_address d hn (by decide)
  have hchannel : '\n' ∉ d.channelText := by
    unfold Draw.channelText
    split <;> simp [notMem_decimalText hn]
  simp [generateEvent, Draw.message, htime, hhost, hreport, hchannel, haddress]

/-! ## What the parser makes of it -/

/-- Cleaning a line drops only a front of it. -/
theorem cleanLine_suffix (U : CharTables) (line : Text) : cleanLine U line <:+ line :=
  (removeStart_suffix _ _).trans (removeStart_suffix _ _)

/-- An event of a line without a location, with no line after it, has no csrow. -/
theorem csrow_of_no_location {U : CharTables} {n : Nat} {line : Text} {r : Report}
    {e : HardwareEvent} (hline : ¬ (reEdacLocation U).Occurs (rstripNewline line))
    (he : reportEvent U n (rstripNewline line) [] r = .ok e) : e.csrow = none := by
  cases r with
  | edac type m =>
      have hplace := (place_of_edac (b := ⟨line, [], e⟩) he).1
      have hnone : ¬ ((reEdacLocation U).search (Built.clean U ⟨line, [], e⟩)).isSome := by
        rw [reEdacLocation_plain.search_isSome_iff]
        intro hocc
        obtain ⟨front, hfront⟩ := cleanLine_suffix U (rstripNewline line)
        apply hline
        rw [← hfront]
        exact hocc.append_left front
      have hempty : lookAheadEdacLocation U [] = [] := rfl
      rw [hempty, placeIn_append_nil hnone] at hplace
      exact congrArg Prod.fst hplace
  | aer type device => exact congrArg Prod.fst (errorType_of_aer (b := ⟨line, [], e⟩) he).2
  | mce => exact congrArg Prod.fst (fields_of_mce (b := ⟨line, [], e⟩) he).2

/-- **No generated line** gives one event with what was drawn: its csrow is lost. -/
theorem generated_never_recovered (U : CharTables) (host : Hostname) (d : Draw) :
    ¬ ∃ e, (TraceParser.new none).parseFile U (generateEvent host d ++ ['\n']) = .ok [e] ∧
      Recovers d e := by
  intro ⟨e, hrun, hrecovers⟩
  have hplain := newline_notMem_generated host d
  rw [parseFile_new_none, readlines_append_newline hplain, readlines] at hrun
  cases hr : lineReport U (generateEvent host d ++ ['\n']) with
  | none =>
      rw [allEvents_of_silent hr] at hrun
      cases hrun
  | some r =>
      rw [allEvents_of_report hr] at hrun
      obtain ⟨e', he, hrest⟩ := bind_eq_ok.mp hrun
      obtain ⟨events, _, hsame⟩ := bind_eq_ok.mp hrest
      obtain ⟨rfl, _⟩ := List.cons.inj (Except.ok.inj hsame)
      have hnone : e'.csrow = none := by
        apply csrow_of_no_location _ he
        rw [rstripNewline_append_newline hplain]
        exact not_occurs_generated host d
      rw [hrecovers.csrow] at hnone
      cases hnone

/-- The default of `--hostname`. -/
def defaultHost : Hostname where
  name := "arm64-node-01".toList
  dark := by
    have hall : "arm64-node-01".toList.all (fun c => !isPySpace c) = true := by decide
    intro c hc
    simpa using List.all_eq_true.mp hall c hc

/-- A corrected error at eight in the morning. -/
def morningDraw : Draw where
  time := ⟨0, 15, 8, 0, 5, by decide⟩
  kind := .ce
  mc := 0
  csrow := 1
  ch := 0
  page := 0x12345
  off := 0x40
  grain := 64
  count := 1
  detail := "memory read error".toList
  detail_mem := List.mem_cons_self

/-- Its line gives an event without csrow, channel, details and timestamp. -/
theorem morning_not_recovered :
    ¬ ∃ e, (TraceParser.new none).parseFile asciiTables
          (generateEvent defaultHost morningDraw ++ ['\n']) = .ok [e] ∧
        Recovers morningDraw e := by
  intro ⟨e, hrun, hrecovers⟩
  have hfields : ((TraceParser.new none).parseFile asciiTables
      (generateEvent defaultHost morningDraw ++ ['\n'])).map
        (List.map fun e => (e.csrow, e.page, e.timestampStr)) = .ok [(none, none, [])] := by
    decide +kernel
  rw [hrun] at hfields
  have hrow : some morningDraw.csrow = none := by
    rw [← hrecovers.csrow]
    exact congrArg Prod.fst (List.cons.inj (Except.ok.inj hfields)).1
  cases hrow

end FaultOracle.Trace
