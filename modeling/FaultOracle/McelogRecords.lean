import FaultOracle.HardwareCollectors
import FaultOracle.RegexSubstitution

/-!
# Records of mcelog

The text of mcelog is a sequence of records, which `scrapeMcelog` reads as a sequence of lines:
it counts a line in which its pattern finds a status, under the bank which a line has named
last.  Where a record has its two lines that is the bank of the record.

Any other line in which a status is read is a stray: the STATUS line of a record without a BANK
line, or a line with a field whose name ends in `STATUS`.  Strays are only ever counted too
much, so the counts are right exactly when none stands behind a bank (`counts_records_iff`).
-/

namespace FaultOracle.Exporter

open BacktrackingRegex GoStrings InsertionDict

/-! ## Records -/

/-- A field stands in a line: its name is not the end of another one, and its value begins with
a character of the class. -/
def HasField (mark : Text) (p : Char → Bool) (line : Text) : Prop :=
  ∃ u c v, line = u ++ (mark ++ c :: v) ∧ p c = true ∧ ∀ x ∈ u.getLast?, isWord x = false

/-- `CPU 0 BANK 0 TSC <value>`. -/
structure BankLine where
  cpu : Text
  bank : Text
  tsc : Text
  cpu_digits : ∀ c ∈ cpu, c.isDigit = true
  bank_ne : bank ≠ []
  bank_digits : ∀ c ∈ bank, c.isDigit = true
  tsc_dark : ∀ c ∈ tsc, isSpace c = false

/-- `STATUS 0x<hex> MCGSTATUS 0x<hex>`, with a status of 64 bits. -/
structure StatusLine where
  status : Text
  mcgstatus : Text
  status_ne : status ≠ []
  status_hex : ∀ c ∈ status, isHex c = true
  mcgstatus_hex : ∀ c ∈ mcgstatus, isHex c = true
  value : Nat
  value_eq : parseHex status = some value

def BankLine.text (l : BankLine) : Text :=
  "CPU ".toList ++ l.cpu ++ " ".toList ++ ("BANK ".toList ++ l.bank ++ " TSC ".toList) ++ l.tsc

def StatusLine.text (l : StatusLine) : Text :=
  "STATUS 0x".toList ++ l.status ++ " MCGSTATUS 0x".toList ++ l.mcgstatus

/-- A record in the documented format, any of whose two lines may be missing; the lines below
them have neither field. -/
structure McelogRecord where
  mce : Text
  bankLine : Option BankLine
  statusLine : Option StatusLine
  more : List Text
  mce_digits : ∀ c ∈ mce, c.isDigit = true
  more_plain : ∀ line ∈ more, '\n' ∉ line
  more_bank : ∀ line ∈ more, ¬ HasField "BANK ".toList Char.isDigit line
  more_status : ∀ line ∈ more, ¬ HasField "STATUS 0x".toList isHex line

def hardwareEvent : Text := "Hardware event. This is not a software error.".toList

/-- What is to be counted of a record: nothing unless it has both lines. -/
def McelogRecord.event (r : McelogRecord) : Option (Text × Text) := do
  let bankLine ← r.bankLine
  let statusLine ← r.statusLine
  return (bankLine.bank, decodeMCESeverity statusLine.value)

/-- A line, and whether it is the STATUS line of a record with a BANK line. -/
structure RecordLine where
  own : Bool
  text : Text

def McelogRecord.lines (r : McelogRecord) : List RecordLine :=
  ⟨false, hardwareEvent⟩ :: ⟨false, "MCE ".toList ++ r.mce⟩ ::
    (r.bankLine.toList.map fun l => ⟨false, l.text⟩) ++
    (r.statusLine.toList.map fun l => ⟨r.bankLine.isSome, l.text⟩) ++
    r.more.map fun line => ⟨false, line⟩

def recordLines (rs : List McelogRecord) : List RecordLine := rs.flatMap McelogRecord.lines

def mcelogText (rs : List McelogRecord) : Text :=
  (recordLines rs).flatMap fun l => l.text ++ ['\n']

/-- The number which the events of a bank and a severity add up to. -/
def countOf (events : List MceEvent) (k : Text × Text) : Nat :=
  ((events.filter fun ev => ev.bank = k.1 ∧ ev.severity = k.2).map MceEvent.count).sum

/-- Whatever else the host has, the log is scraped, each record with both lines is counted once,
and nothing else is. -/
def CountsRecords (rs : List McelogRecord) : Prop :=
  ∀ fs : FileSystem, fs.readFile (below [] ["dev", "mcelog"]) = some (mcelogText rs) →
    ∃ events, scrapeMcelog fs = some events ∧
      (∀ k, countOf events k = (rs.filterMap McelogRecord.event).count k) ∧
      (events.map MceEvent.count).sum = (rs.filterMap McelogRecord.event).length

/-! ## Strays -/

/-- A status is read in the line as it is scanned. -/
def ReadsStatus (line : Text) : Prop :=
  ∃ m, reStatus.search (dropCR line) = some m ∧ (parseHex (captured m 1)).isSome

def NamesBank (line : Text) : Prop := (reBank.search (dropCR line)).isSome

/-- No status is read in a line which is not the STATUS line of a record with a bank, once that
line or one before it has named a bank. -/
def NoStray (lines : List RecordLine) : Prop :=
  ∀ u l v, lines = u ++ l :: v → l.own = false → ReadsStatus l.text →
    ∀ x ∈ u ++ [l], ¬ NamesBank x.text

/-- What a line is counted under, when `bank` has been named last. -/
def lineKey (bank line : Text) : Option (Text × Text) := do
  let m ← reStatus.search line
  if bank = [] then none
  else
    let status ← parseHex (captured m 1)
    return (bank, decodeMCESeverity status)

/-- A line counts its key, where it has one. -/
theorem countStatus_eq (bank line : Text) (counts : List ((Text × Text) × Nat)) :
    countStatus bank line counts = (lineKey bank line).toList.foldl bump counts := by
  unfold countStatus lineKey
  cases reStatus.search line with
  | none => rfl
  | some m =>
      simp only [bind, Option.bind, pure]
      split
      · rfl
      · cases parseHex (captured m 1) <;> rfl

/-- What the lines for which `p` holds are counted under. -/
def keysWhere (p : Bool → Bool) : Text → List RecordLine → List (Text × Text)
  | _, [] => []
  | bank, l :: lines =>
      let bank' := bankAfter bank (dropCR l.text)
      (if p l.own then (lineKey bank' (dropCR l.text)).toList else []) ++ keysWhere p bank' lines

/-- The bank after some lines. -/
def lastBank (bank : Text) (lines : List RecordLine) : Text :=
  lines.foldl (fun bank l => bankAfter bank (dropCR l.text)) bank

theorem keysWhere_append (p : Bool → Bool) (bank : Text) (a b : List RecordLine) :
    keysWhere p bank (a ++ b) = keysWhere p bank a ++ keysWhere p (lastBank bank a) b := by
  induction a generalizing bank with
  | nil => rfl
  | cons l a ih => rw [List.cons_append, keysWhere, keysWhere, ih, List.append_assoc]; rfl

/-- The counts are those of the keys of all lines. -/
theorem counts_foldl (lines : List RecordLine) (s : McelogScan) :
    ((lines.map fun l => dropCR l.text).foldl mcelogLine s).counts =
      (keysWhere (fun _ => true) s.currentBank lines).foldl bump s.counts := by
  induction lines generalizing s with
  | nil => rfl
  | cons l lines ih =>
      rw [List.map_cons, List.foldl_cons, ih, keysWhere, if_pos rfl, List.foldl_append,
        ← countStatus_eq]
      rfl

/-- Every key is that of an own line or of a stray. -/
theorem perm_keysWhere (bank : Text) (lines : List RecordLine) :
    (keysWhere (fun _ => true) bank lines).Perm
      (keysWhere id bank lines ++ keysWhere not bank lines) := by
  induction lines generalizing bank with
  | nil => exact .refl _
  | cons l lines ih =>
      have hrest := ih (bankAfter bank (dropCR l.text))
      cases hown : l.own with
      | true => simpa [keysWhere, hown] using hrest.append_left _
      | false =>
          simp only [keysWhere, hown, if_true, id_eq, Bool.false_eq_true, if_false, Bool.not_false,
            List.nil_append]
          exact (hrest.append_left _).trans (List.perm_append_comm_assoc _ _ _)

/-- There is no bank yet exactly when no line has named one. -/
theorem bankAfter_eq_nil_iff {bank line : Text} :
    bankAfter bank line = [] ↔ bank = [] ∧ ¬ (reBank.search line).isSome := by
  unfold bankAfter
  cases hm : reBank.search line with
  | none => simp
  | some m =>
      obtain ⟨value, hvalue, hne, _⟩ := value_of_search_marked hm
      simp [captured, hvalue, hne]

/-- A line has no key exactly when it reads no status or no bank was named. -/
theorem lineKey_eq_none_iff {bank line : Text} :
    lineKey bank (dropCR line) = none ↔ (ReadsStatus line → bank = []) := by
  unfold lineKey ReadsStatus
  cases reStatus.search (dropCR line) with
  | none => simp
  | some m =>
      by_cases hbank : bank = [] <;> cases hvalue : parseHex (captured m 1) <;>
        simp [hbank, hvalue]

/-- **Strays** are counted exactly if one stands behind a bank. -/
theorem keysWhere_not_eq_nil_iff {bank : Text} {lines : List RecordLine} :
    keysWhere not bank lines = [] ↔ ∀ u l v, lines = u ++ l :: v → l.own = false →
      ReadsStatus l.text → bank = [] ∧ ∀ x ∈ u ++ [l], ¬ NamesBank x.text := by
  induction lines generalizing bank with
  | nil => simp [keysWhere]
  | cons l lines ih =>
      have hfirst : (if !l.own then (lineKey (bankAfter bank (dropCR l.text))
          (dropCR l.text)).toList else []) = [] ↔
            (l.own = false → ReadsStatus l.text → bank = [] ∧ ¬ NamesBank l.text) := by
        cases hown : l.own with
        | true => simp
        | false => simp [lineKey_eq_none_iff, bankAfter_eq_nil_iff, NamesBank]
      rw [keysWhere, List.append_eq_nil_iff, hfirst, ih]
      constructor
      · intro ⟨hl, hlines⟩ u k v hsplit hk hreads
        cases u with
        | nil =>
            obtain ⟨rfl, rfl⟩ := List.cons.inj hsplit
            obtain ⟨hbank, hnames⟩ := hl hk hreads
            exact ⟨hbank, by simpa using hnames⟩
        | cons x u =>
            obtain ⟨rfl, rfl⟩ := List.cons.inj hsplit
            obtain ⟨hbank, hnames⟩ := hlines u k v rfl hk hreads
            obtain ⟨hbank, hname⟩ := bankAfter_eq_nil_iff.mp hbank
            exact ⟨hbank, List.forall_mem_cons.mpr ⟨hname, hnames⟩⟩
      · intro h
        constructor
        · intro hown hreads
          obtain ⟨hbank, hnames⟩ := h [] l lines rfl hown hreads
          exact ⟨hbank, hnames l (by simp)⟩
        · intro u k v hsplit hk hreads
          obtain ⟨hbank, hnames⟩ := h (l :: u) k v (by rw [hsplit]; rfl) hk hreads
          obtain ⟨hname, hnames⟩ := List.forall_mem_cons.mp hnames
          exact ⟨bankAfter_eq_nil_iff.mpr ⟨hbank, hname⟩, hnames⟩

/-! ## The lines of a record -/

theorem not_mem_digits {digits : Text} (h : ∀ c ∈ digits, c.isDigit = true) {c : Char}
    (hc : c.isDigit = false) : c ∉ digits := by
  intro hmem
  rw [h c hmem] at hc
  cases hc

theorem not_mem_hex {digits : Text} (h : ∀ c ∈ digits, isHex c = true) {c : Char}
    (hc : isHex c = false) : c ∉ digits := by
  intro hmem
  rw [h c hmem] at hc
  cases hc

/-- A mark is not found in a text without one of its characters. -/
theorem search_eq_none_of_not_mem {mark text : Text} {p : Char → Bool} {c : Char} (hc : c ∈ mark)
    (htext : c ∉ text) : (Re.marked mark p).search text = none :=
  search_marked_eq_none fun hpart => htext (hpart.subset hc)

/-- Without a carriage return there is none to drop. -/
theorem dropCR_of_not_mem {line : Text} (h : '\r' ∉ line) : dropCR line = line := by
  rw [dropCR, if_neg]
  intro hlast
  exact h (List.mem_of_getLast? hlast)

namespace BankLine

variable (l : BankLine)

theorem cr_not_mem : '\r' ∉ l.text := by
  have htsc : '\r' ∉ l.tsc := fun h => absurd (l.tsc_dark _ h) (by decide)
  have hcpu := not_mem_digits l.cpu_digits (c := '\r') (by decide)
  have hbank := not_mem_digits l.bank_digits (c := '\r') (by decide)
  unfold text
  simp [htsc, hcpu, hbank]

theorem newline_not_mem : '\n' ∉ l.text := by
  have htsc : '\n' ∉ l.tsc := fun h => absurd (l.tsc_dark _ h) (by decide)
  have hcpu := not_mem_digits l.cpu_digits (c := '\n') (by decide)
  have hbank := not_mem_digits l.bank_digits (c := '\n') (by decide)
  unfold text
  simp [htsc, hcpu, hbank]

/-- The line names its bank. -/
theorem bankAfter_text (bank : Text) : bankAfter bank l.text = l.bank := by
  have hsplit : l.text = ("CPU ".toList ++ l.cpu ++ " ".toList) ++
      ("BANK ".toList ++ l.bank ++ (" TSC ".toList ++ l.tsc)) := by
    unfold text
    simp only [List.append_assoc]
  have hfront : 'B' ∉ "CPU ".toList ++ l.cpu ++ " ".toList := by
    have hcpu := not_mem_digits l.cpu_digits (c := 'B') (by decide)
    simp [hcpu]
  have hrest : Stops Char.isDigit (" TSC ".toList ++ l.tsc) := by simp
  have hfound := search_marked (rfl : "BANK ".toList.head? = some 'B') hfront l.bank_ne
    l.bank_digits hrest
  rw [bankAfter, hsplit, show reBank = Re.marked "BANK ".toList Char.isDigit from rfl, hfound]
  rfl

end BankLine

namespace StatusLine

variable (l : StatusLine)

theorem cr_not_mem : '\r' ∉ l.text := by
  have hstatus := not_mem_hex l.status_hex (c := '\r') (by decide)
  have hmcg := not_mem_hex l.mcgstatus_hex (c := '\r') (by decide)
  unfold text
  simp only [List.mem_append, not_or]
  exact ⟨⟨⟨by decide, hstatus⟩, by decide⟩, hmcg⟩

theorem newline_not_mem : '\n' ∉ l.text := by
  have hstatus := not_mem_hex l.status_hex (c := '\n') (by decide)
  have hmcg := not_mem_hex l.mcgstatus_hex (c := '\n') (by decide)
  unfold text
  simp only [List.mem_append, not_or]
  exact ⟨⟨⟨by decide, hstatus⟩, by decide⟩, hmcg⟩

/-- The line names no bank. -/
theorem search_bank : reBank.search l.text = none := by
  have hstatus := not_mem_hex l.status_hex (c := 'K') (by decide)
  have hmcg := not_mem_hex l.mcgstatus_hex (c := 'K') (by decide)
  have hline : 'K' ∉ l.text := by
    unfold text
    simp only [List.mem_append, not_or]
    exact ⟨⟨⟨by decide, hstatus⟩, by decide⟩, hmcg⟩
  exact search_eq_none_of_not_mem (show 'K' ∈ "BANK ".toList by decide) hline

/-- Its own status is read, not the one behind it. -/
theorem lineKey_text {bank : Text} (hbank : bank ≠ []) :
    lineKey bank l.text = some (bank, decodeMCESeverity l.value) := by
  have hsplit : l.text = [] ++ ("STATUS 0x".toList ++ l.status ++
      (" MCGSTATUS 0x".toList ++ l.mcgstatus)) := by
    unfold text
    simp only [List.nil_append, List.append_assoc]
  have hrest : Stops isHex (" MCGSTATUS 0x".toList ++ l.mcgstatus) := by
    simp [show isHex ' ' = false from rfl]
  have hfound := search_marked (rfl : "STATUS 0x".toList.head? = some 'S') List.not_mem_nil
    l.status_ne l.status_hex hrest
  have hvalue : captured ⟨[], " MCGSTATUS 0x".toList ++ l.mcgstatus,
      Function.update (fun _ => none) 1 (some l.status)⟩ 1 = l.status := rfl
  rw [lineKey, hsplit, show reStatus = Re.marked "STATUS 0x".toList isHex from rfl, hfound]
  simp only [bind, Option.bind, hvalue, if_neg hbank, l.value_eq, pure]

end StatusLine

/-- Lines for which `p` does not hold have no keys. -/
theorem keysWhere_eq_nil {p : Bool → Bool} {lines : List RecordLine}
    (h : ∀ l ∈ lines, p l.own = false) (bank : Text) : keysWhere p bank lines = [] := by
  induction lines generalizing bank with
  | nil => rfl
  | cons l lines ih =>
      obtain ⟨hl, hlines⟩ := List.forall_mem_cons.mp h
      rw [keysWhere, hl, ih hlines]
      rfl

namespace McelogRecord

/-- The lines of a record. -/
theorem mem_lines {r : McelogRecord} {l : RecordLine} : l ∈ r.lines ↔
    l = ⟨false, hardwareEvent⟩ ∨ l = ⟨false, "MCE ".toList ++ r.mce⟩ ∨
      (∃ b, r.bankLine = some b ∧ l = ⟨false, b.text⟩) ∨
      (∃ s, r.statusLine = some s ∧ l = ⟨r.bankLine.isSome, s.text⟩) ∨
      ∃ line ∈ r.more, l = ⟨false, line⟩ := by
  simp only [lines, List.mem_append, List.mem_cons, List.mem_map, Option.mem_toList, or_assoc,
    List.cons_append, eq_comm]

/-- Unless a record has both lines, none of its lines is its own. -/
theorem own_eq_false {r : McelogRecord} (h : r.bankLine = none ∨ r.statusLine = none) :
    ∀ l ∈ r.lines, id l.own = false := by
  intro l hl
  rcases mem_lines.mp hl with rfl | rfl | ⟨b, _, rfl⟩ | ⟨s, hs, rfl⟩ | ⟨line, _, rfl⟩
  · rfl
  · rfl
  · rfl
  · rcases h with hbank | hstatus
    · simp [hbank]
    · rw [hstatus] at hs
      cases hs
  · rfl

/-- The own line of a record is counted under its own bank. -/
theorem keysWhere_lines (r : McelogRecord) (bank : Text) :
    keysWhere id bank r.lines = r.event.toList := by
  cases hb : r.bankLine with
  | none => rw [keysWhere_eq_nil (own_eq_false (.inl hb)), event, hb]; rfl
  | some b =>
      cases hs : r.statusLine with
      | none => rw [keysWhere_eq_nil (own_eq_false (.inr hs)), event, hb, hs]; rfl
      | some l =>
          have hmore : ∀ x ∈ r.more.map (RecordLine.mk false), id x.own = false := by simp
          have hbank := b.bankAfter_text
          have hkeep : bankAfter b.bank l.text = b.bank := by rw [bankAfter, l.search_bank]
          rw [lines, event, hb, hs]
          simp only [Option.toList_some, List.map_cons, List.map_nil, List.cons_append,
            List.nil_append, keysWhere, id_eq, Bool.false_eq_true, if_false, Option.isSome_some,
            if_true, dropCR_of_not_mem b.cr_not_mem, dropCR_of_not_mem l.cr_not_mem, hbank, hkeep,
            l.lineKey_text b.bank_ne, keysWhere_eq_nil hmore]
          rfl

theorem newline_not_mem (r : McelogRecord) : ∀ l ∈ r.lines, '\n' ∉ l.text := by
  have hmce := not_mem_digits r.mce_digits (c := '\n') (by decide)
  intro l hl
  rcases mem_lines.mp hl with rfl | rfl | ⟨b, _, rfl⟩ | ⟨s, _, rfl⟩ | ⟨line, hline, rfl⟩
  · decide
  · simp [hmce]
  · exact b.newline_not_mem
  · exact s.newline_not_mem
  · exact r.more_plain line hline

end McelogRecord

/-- The own lines are counted as the records say. -/
theorem keysWhere_recordLines (rs : List McelogRecord) (bank : Text) :
    keysWhere id bank (recordLines rs) = rs.filterMap McelogRecord.event := by
  induction rs generalizing bank with
  | nil => rfl
  | cons r rs ih =>
      have hrest : ∀ bank, keysWhere id bank (rs.flatMap McelogRecord.lines) =
          rs.filterMap McelogRecord.event := ih
      rw [recordLines, List.flatMap_cons, keysWhere_append, r.keysWhere_lines, hrest,
        List.filterMap_cons]
      cases r.event with
      | none => rfl
      | some k => rfl

/-! ## The whole log -/

/-- The lines of the text are those of the records. -/
theorem rawLines_mcelogText (rs : List McelogRecord) :
    rawLines (mcelogText rs) = (recordLines rs).map RecordLine.text := by
  have hlines : ∀ line ∈ (recordLines rs).map RecordLine.text, '\n' ∉ line := by
    intro line hline
    obtain ⟨l, hl, rfl⟩ := List.mem_map.mp hline
    obtain ⟨r, _, hr⟩ := List.mem_flatMap.mp hl
    exact r.newline_not_mem l hr
  rw [← rawLines_flatMap hlines, List.flatMap_map]
  rfl

/-- The events of the keys. -/
def mcelogEvents (keys : List (Text × Text)) : List MceEvent :=
  (keys.foldl bump []).map fun item => ⟨item.1.2, item.1.1, "mcelog", item.2⟩

variable {fs : FileSystem} {rs : List McelogRecord}

/-- What the scrape of a log of whole records gives. -/
theorem scrapeMcelog_eq (hfile : fs.readFile (below [] ["dev", "mcelog"]) = some (mcelogText rs))
    (hfits : ∀ l ∈ recordLines rs, fitsBuffer l.text = true) :
    scrapeMcelog fs = some (mcelogEvents (keysWhere (fun _ => true) [] (recordLines rs))) := by
  have hraw : ∀ line ∈ (recordLines rs).map RecordLine.text, fitsBuffer line = true := by
    simpa using hfits
  have hscan : scanLines (mcelogText rs) =
      ⟨(recordLines rs).map fun l => dropCR l.text, false⟩ := by
    have hnone : ((recordLines rs).map RecordLine.text).any (fun line => !fitsBuffer line) =
        false := List.any_eq_false.mpr fun line hline => by rw [hraw line hline]; decide
    rw [scanLines, rawLines_mcelogText, List.takeWhile_eq_self_iff.mpr hraw, hnone, List.map_map]
    rfl
  rw [scrapeMcelog, hfile, Option.map_some, hscan]
  simp only [Bool.false_eq_true, if_false, counts_foldl]
  rfl

/-- A line which is too long for the scanner spoils the whole log. -/
theorem fits_of_scrapeMcelog {events : List MceEvent}
    (hfile : fs.readFile (below [] ["dev", "mcelog"]) = some (mcelogText rs))
    (h : scrapeMcelog fs = some events) : ∀ l ∈ recordLines rs, fitsBuffer l.text = true := by
  rw [scrapeMcelog, hfile, Option.map_some] at h
  dsimp only at h
  split at h
  · cases h
  · rename_i hlong
    intro l hl
    rw [scanLines, rawLines_mcelogText] at hlong
    by_contra hfit
    exact hlong (List.any_eq_true.mpr ⟨l.text, List.mem_map_of_mem hl, by simp [hfit]⟩)

/-- An event's count is how often its key occurs. -/
theorem countOf_mcelogEvents (keys : List (Text × Text)) (k : Text × Text) :
    countOf (mcelogEvents keys) k = keys.count k := by
  have hnodup : ((keys.foldl bump []).map Prod.fst).Nodup := nodup_keys_foldl_bump List.nodup_nil
  have hcount := count_foldl_bump keys [] k
  rw [List.lookup_nil, Option.getD_none, Nat.zero_add] at hcount
  have hpick : (fun item : (Text × Text) × Nat => decide (item.1.1 = k.1 ∧ item.1.2 = k.2)) =
      fun item => k == item.1 := by
    funext item
    rw [Bool.eq_iff_iff, decide_eq_true_iff, beq_iff_eq, Prod.ext_iff, eq_comm,
      eq_comm (a := item.1.2)]
  have hvalues : countOf (mcelogEvents keys) k =
      (((keys.foldl bump []).filter fun item => k == item.1).map Prod.snd).sum := by
    rw [countOf, mcelogEvents, List.filter_map, List.map_map, ← hpick]
    rfl
  rw [hvalues, filter_key hnodup, ← hcount]
  cases (keys.foldl bump []).lookup k with
  | none => rfl
  | some n => simp

/-- The counts add up to the number of keys. -/
theorem sum_mcelogEvents (keys : List (Text × Text)) :
    ((mcelogEvents keys).map MceEvent.count).sum = keys.length := by
  have hsum : ∀ d : List ((Text × Text) × Nat),
      ((keys.foldl bump d).map Prod.snd).sum = (d.map Prod.snd).sum + keys.length := by
    induction keys with
    | nil => simp
    | cons k keys ih =>
        intro d
        rw [List.foldl_cons, ih, sum_bump, List.length_cons]
        omega
  have hall := hsum []
  rw [List.map_nil, List.sum_nil, Nat.zero_add] at hall
  rw [mcelogEvents, List.map_map, ← hall]
  rfl

/-- A host with this log and nothing else. -/
def mcelogOnly (text : Text) : FileSystem where
  readDir := fun _ => none
  readFile := fun path => if path = below [] ["dev", "mcelog"] then some text else none
  stat := fun _ => .notExist
  nodup_names := fun _ _ h => by cases h

/-- The tree holds the log and nothing else. -/
theorem readFile_mcelogOnly (text : Text) :
    (mcelogOnly text).readFile (below [] ["dev", "mcelog"]) = some text := by
  simp only [mcelogOnly, if_true]

/-- **The counts are those of the records** exactly when the scanner holds every line and no
status is read behind a bank but that of a record with both lines. -/
theorem counts_records_iff (rs : List McelogRecord) : CountsRecords rs ↔
    (∀ l ∈ recordLines rs, fitsBuffer l.text = true) ∧ NoStray (recordLines rs) := by
  have hperm := perm_keysWhere [] (recordLines rs)
  rw [keysWhere_recordLines] at hperm
  have hstray : keysWhere not [] (recordLines rs) = [] ↔ NoStray (recordLines rs) := by
    simp [keysWhere_not_eq_nil_iff, NoStray]
  constructor
  · intro h
    have hfile := readFile_mcelogOnly (mcelogText rs)
    obtain ⟨events, hscrape, _, hsum⟩ := h _ hfile
    have hfits := fits_of_scrapeMcelog hfile hscrape
    refine ⟨hfits, hstray.mp ?_⟩
    -- every stray adds to the sum
    rw [scrapeMcelog_eq hfile hfits] at hscrape
    obtain rfl := Option.some.inj hscrape
    have hlength := hperm.length_eq
    rw [sum_mcelogEvents] at hsum
    rw [List.length_append] at hlength
    apply List.eq_nil_of_length_eq_zero
    omega
  · intro ⟨hfits, hnone⟩ fs hfile
    rw [hstray.mpr hnone, List.append_nil] at hperm
    refine ⟨_, scrapeMcelog_eq hfile hfits, fun k => ?_, ?_⟩
    · rw [countOf_mcelogEvents, hperm.count_eq]
    · rw [sum_mcelogEvents, hperm.length_eq]

/-- A STATUS line with a corrected error. -/
def correctedStatus : StatusLine where
  status := "8".toList
  mcgstatus := "0".toList
  status_ne := by decide
  status_hex := List.all_eq_true.mp (by decide)
  mcgstatus_hex := List.all_eq_true.mp (by decide)
  value := 8
  value_eq := rfl

/-- A record of bank 3, and one without a BANK line. -/
def bankOfOneRecord : List McelogRecord :=
  [⟨"0".toList, some ⟨"0".toList, "3".toList, "1".toList, List.all_eq_true.mp (by decide),
      by decide, List.all_eq_true.mp (by decide), by simp [isSpace]⟩, some correctedStatus, [],
      List.all_eq_true.mp (by decide), by simp, by simp, by simp⟩,
    ⟨"1".toList, none, some correctedStatus, [], List.all_eq_true.mp (by decide), by simp,
      by simp, by simp⟩]

/-- The record without a BANK line is counted under the bank of the one before it. -/
theorem status_under_earlier_bank : ¬ CountsRecords bankOfOneRecord := by
  intro h
  obtain ⟨events, hscrape, _, hsum⟩ := h _ (readFile_mcelogOnly _)
  have htwo : (scrapeMcelog (mcelogOnly (mcelogText bankOfOneRecord))).map
      (fun events => (events.map MceEvent.count).sum) = some 2 := by decide +kernel
  rw [hscrape, Option.map_some, hsum] at htwo
  exact absurd htwo (by decide)

end FaultOracle.Exporter
