import Mathlib.Data.Nat.Bitwise
import FaultOracle.BertRecords
import FaultOracle.EdacLogGenerator
import FaultOracle.SdrSensors
import FaultOracle.SelPoller

/-!
# Which workload owns a page

`workload_impact.py` looks for a process which has a page frame in its memory.  It reads the
regions of each process in `/proc/<pid>/maps`, the entry of every page of a region in
`/proc/<pid>/pagemap`, and takes the first process that has the frame.

`correlates_first` starts from the memory of the processes as the kernel has it, and the two
files as the kernel writes them, where the script may open them: it finds the first process in
the order of `/proc` with the frame whose files it can open, or none if there is none.  The
texts of the kernel are taken as decoded, and the name of a mapping without a carriage return,
which would break its line in two.  `podOf_cgroup` is about the name it then gives to the
pod, which the control group of a Guaranteed pod does not have where the script looks.
-/

namespace FaultOracle.Workload

open BacktrackingRegex
open FaultOracle.Bert (Bytes littleEndian)
open FaultOracle.Bmc (pythonHex hexDigit)
open FaultOracle.Aer (words universalNewlines)
open FaultOracle.Remediation (isPySpace strip)
open FaultOracle.Sdr (strip_of_dark)
open FaultOracle.Trace (CharTables readlines readlines_append_newline hexText notMem_hexText)
open GoStrings (wordsBy_append_cons wordsBy_of_dark)

abbrev Text := List Char

/-- What ends the walk through a process besides an answer. -/
inductive Raised
  | osError
  | valueError
  | indexError
deriving DecidableEq, Repr

/-- A directory of `/proc`: what can be read of its files, `pagemap` from an offset on. -/
structure ProcDir where
  name : Text
  maps : Option Text
  pagemap : Option (Nat → Option Bytes)
  comm : Option Text
  cgroup : Option Text

/-- `WorkloadInfo`. -/
structure WorkloadInfo where
  pid : Nat
  comm : Text
  cgroup : Text
  podName : Option Text
  namespace_ : Option Text
deriving DecidableEq, Repr

/-! ## The pages of a process -/

section Walk

variable (U : CharTables)

/-- `int(s, 16)`. -/
def intBase16 (s : Text) : Option Int :=
  let signed := strip s
  let digits := if signed.head? = some '-' ∨ signed.head? = some '+' then signed.drop 1 else signed
  let value :=
    if "0x".toList <+: digits ∨ "0X".toList <+: digits then pythonHex U digits
    else if digits.head? = some '_' then none
    else pythonHex U ('0' :: 'x' :: digits)
  if signed.head? = some '-' then value.map (- ·) else value

/-- `range(start, end, PAGE_SIZE)`. -/
def pagesOf (start stop : Int) : List Nat :=
  (List.range ((stop - start + 4095) / 4096).toNat).map fun (i : Nat) =>
    (start + 4096 * (i : Int)).toNat

/-- The loop over the pages of a region, which a short read ends. -/
def walkPages (read : Nat → Option Bytes) (targetPfn : Nat) : List Nat → Except Raised Bool
  | [] => .ok false
  | vaddr :: rest =>
      match read (vaddr / 4096 * 8) with
      | none => .error .osError
      | some data =>
          if data.length < 8 then .ok false
          else
            let entry := littleEndian (data.take 8)
            if entry &&& 2 ^ 63 ≠ 0 ∧ entry &&& (2 ^ 55 - 1) = targetPfn then .ok true
            else walkPages read targetPfn rest

/-- The address range at the head of a line. -/
def addressRange (line : Text) : Except Raised (Int × Int) :=
  match words line with
  | [] => .error .indexError
  | head :: _ =>
      match head.splitOn '-' with
      | start :: stop :: _ =>
          match intBase16 U start, intBase16 U stop with
          | some a, some b => .ok (a, b)
          | _, _ => .error .valueError
      | start :: [] =>
          match intBase16 U start with
          | some _ => .error .indexError
          | none => .error .valueError
      | [] => .error .indexError

/-- The loop over the lines of `maps`. -/
def walkLines (read : Nat → Option Bytes) (targetPfn : Nat) : List Text → Except Raised Bool
  | [] => .ok false
  | line :: rest => do
      let (start, stop) ← addressRange U line
      if ← walkPages read targetPfn (pagesOf start stop) then return true
      walkLines read targetPfn rest

/-- `_pid_owns_pfn`. -/
def pidOwnsPfn (d : ProcDir) (targetPfn : Nat) : Except Raised Bool :=
  match d.maps, d.pagemap with
  | some maps, some read =>
      match walkLines U read targetPfn (readlines (universalNewlines maps)) with
      | .ok owns => .ok owns
      | .error .indexError => .error .indexError
      | .error _ => .ok false
  | _, _ => .ok false

end Walk

/-! ## The pod and the workload -/

/-- `[^/]`. -/
def notSlash (c : Char) : Bool := c != '/'

open Re in
/-- `/kubepods[^/]*/[^/]*/pod([^/]+)`. -/
def rePodPath : Re :=
  lit "/kubepods".toList ++ star notSlash ++ lit "/".toList ++ star notSlash ++
    lit "/pod".toList ++ group 1 (plus notSlash)

open Re in
/-- `kubepods-[^-]+-pod([^.]+)\.slice`. -/
def rePodSlice : Re :=
  lit "kubepods-".toList ++ plus (fun c => c != '-') ++ lit "-pod".toList ++
    group 1 (plus fun c => c != '.') ++ lit ".slice".toList

/-- `parse_cgroup_for_pod`, the pod and its namespace. -/
def parseCgroupForPod (cgroupText : Text) : Option Text × Option Text :=
  match rePodPath.search cgroupText with
  | some m => (m.groups 1, none)
  | none =>
      match rePodSlice.search cgroupText with
      | some m => (m.groups 1, none)
      | none => (none, none)

/-- The workload of a process that has the frame. -/
def workloadInfo (U : CharTables) (d : ProcDir) : WorkloadInfo :=
  let cgroup := strip (d.cgroup.getD [])
  { pid := U.decimal d.name
    comm := strip (d.comm.getD [])
    cgroup := cgroup
    podName := (parseCgroupForPod cgroup).1
    namespace_ := (parseCgroupForPod cgroup).2 }

/-- The loop over `/proc`. -/
def scanProc (U : CharTables) (pagePfn : Nat) : List ProcDir → Except Raised (Option WorkloadInfo)
  | [] => .ok none
  | d :: rest => do
      if d.name ≠ [] ∧ d.name.all Char.isDigit then
        if ← pidOwnsPfn U d pagePfn then return some (workloadInfo U d)
      scanProc U pagePfn rest

/-- `correlate_page_to_workload`. -/
def correlatePageToWorkload (U : CharTables) (linux : Bool) (proc : Option (List ProcDir))
    (pagePfn : Nat) : Except Raised (Option WorkloadInfo) :=
  if linux then
    match proc with
    | none => .ok none
    | some entries => scanProc U pagePfn entries
  else .ok none

/-! ## The files of the kernel -/

/-- An entry of `pagemap`: the frame of a page that is present, and flags. -/
structure PageEntry where
  pfn : Nat
  softDirty : Bool
  exclusive : Bool
  fileOrShared : Bool
  swapped : Bool
  present : Bool
  pfn_lt : pfn < 2 ^ 55

/-- The 64 bits of an entry. -/
def PageEntry.bits (e : PageEntry) : Nat :=
  e.pfn + 2 ^ 55 * e.softDirty.toNat + 2 ^ 56 * e.exclusive.toNat +
    2 ^ 61 * e.fileOrShared.toNat + 2 ^ 62 * e.swapped.toNat + 2 ^ 63 * e.present.toNat

/-- The low bytes of a number, least significant first. -/
def bytesOf : Nat → Nat → Bytes
  | 0, _ => []
  | k + 1, n => UInt8.ofNat n :: bytesOf k (n / 256)

/-- A region of an address space: the numbers of its pages, and the end of its line. -/
structure Region where
  first : Nat
  count : Nat
  details : Text
  details_plain : '\n' ∉ details ∧ '\r' ∉ details

/-- `%08lx`. -/
def paddedHex (n : Nat) : Text := List.replicate (8 - (hexText n).length) '0' ++ hexText n

def Region.line (r : Region) : Text :=
  paddedHex (r.first * 4096) ++ '-' :: paddedHex ((r.first + r.count) * 4096) ++
    ' ' :: r.details

/-- The memory of a process; there are no entries past the end of `pagemap`.  Its two files can
be opened or not. -/
structure Process where
  pid : Nat
  regions : List Region
  entry : Nat → Option PageEntry
  mapsOpens : Bool
  pagemapOpens : Bool
  comm : Option Text
  cgroup : Option Text

/-- The directory which shows a process. -/
def Process.dir (p : Process) : ProcDir where
  name := Nat.toDigits 10 p.pid
  maps := if p.mapsOpens then some (p.regions.flatMap fun r => r.line ++ ['\n']) else none
  pagemap :=
    if p.pagemapOpens then
      some fun offset => some (((p.entry (offset / 8)).map fun e => bytesOf 8 e.bits).getD [])
    else none
  comm := p.comm
  cgroup := p.cgroup

/-- The frame is that of one of so many pages, with none before it past the end of `pagemap`. -/
def Process.HasFrom (p : Process) (pfn first count : Nat) : Prop :=
  ∃ i < count, (∀ j < i, (p.entry (first + j)).isSome) ∧
    ∃ e ∈ p.entry (first + i), e.present = true ∧ e.pfn = pfn

/-- The process has the frame in one of its regions. -/
def Process.Has (p : Process) (pfn : Nat) : Prop :=
  ∃ r ∈ p.regions, p.HasFrom pfn r.first r.count

/-- The script can see that the process has the frame. -/
def Process.Shows (p : Process) (pfn : Nat) : Prop :=
  p.mapsOpens = true ∧ p.pagemapOpens = true ∧ p.Has pfn

/-! ## Numbers -/

/-- Reading back the bytes of a number. -/
theorem littleEndian_bytesOf (k n : Nat) : littleEndian (bytesOf k n) = n % 256 ^ k := by
  induction k generalizing n with
  | zero => simp [bytesOf, littleEndian, Nat.mod_one]
  | succ k ih =>
      have hpow : 256 ^ (k + 1) = 256 * 256 ^ k := Nat.pow_succ'
      rw [bytesOf, littleEndian, ih, UInt8.toNat_ofNat', hpow]
      exact Nat.mod_mul.symm

theorem length_bytesOf (k n : Nat) : (bytesOf k n).length = k := by
  induction k generalizing n with
  | zero => rfl
  | succ k ih => rw [bytesOf, List.length_cons, ih]

namespace PageEntry

variable (e : PageEntry)

/-- A page entry has 64 bits. -/
theorem bits_lt : e.bits < 256 ^ 8 := by
  have hpfn := e.pfn_lt
  have hbit := Bool.toNat_lt
  have h1 := hbit e.softDirty
  have h2 := hbit e.exclusive
  have h3 := hbit e.fileOrShared
  have h4 := hbit e.swapped
  have h5 := hbit e.present
  rw [bits]
  omega

/-- The low 55 bits are the frame number. -/
theorem bits_pfn : e.bits &&& (2 ^ 55 - 1) = e.pfn := by
  have hpfn := e.pfn_lt
  rw [Nat.and_two_pow_sub_one_eq_mod, bits]
  omega

/-- The top bit says whether the page is present. -/
theorem bits_present : e.bits &&& 2 ^ 63 ≠ 0 ↔ e.present = true := by
  have hpfn := e.pfn_lt
  have hbit := Bool.toNat_lt
  have h1 := hbit e.softDirty
  have h2 := hbit e.exclusive
  have h3 := hbit e.fileOrShared
  have h4 := hbit e.swapped
  have htest : e.bits.testBit 63 = e.present := by
    rw [Nat.testBit_eq_decide_div_mod_eq, bits]
    cases e.present with
    | false =>
        simp only [Bool.toNat_false, decide_eq_false_iff_not]
        omega
    | true =>
        simp only [Bool.toNat_true, decide_eq_true_eq]
        omega
  rw [Nat.and_two_pow, htest]
  cases e.present <;> simp

end PageEntry

/-! ## Hexadecimal numbers -/

section Hexadecimal

variable (U : CharTables)

/-- A hexadecimal digit is read as its value. -/
theorem hexDigit_digitChar : ∀ d < 16, hexDigit U (Nat.digitChar d) = some d := by
  have hdecimal : ∀ d < 10, (Nat.digitChar d).isDigit = true ∧
      (Nat.digitChar d).toNat - '0'.toNat = d := by decide
  have hletter : ∀ d < 16, 10 ≤ d → (Nat.digitChar d).isDigit = false ∧
      ((Nat.digitChar d).isAlpha && (Nat.digitChar d).toLower.toNat ≤ 'f'.toNat) = true ∧
      (Nat.digitChar d).toLower.toNat - 'a'.toNat + 10 = d := by decide
  have hascii : ∀ d < 16, (Nat.digitChar d).toNat < 128 := by decide
  intro d hd
  rw [hexDigit, U.isDigit_ascii _ (hascii d hd)]
  by_cases hsmall : d < 10
  · obtain ⟨hdigit, hvalue⟩ := hdecimal d hsmall
    rw [if_pos hdigit, U.digitValue_ascii _ hdigit, hvalue]
  · obtain ⟨hdigit, hrange, hvalue⟩ := hletter d hd (by omega)
    rw [if_neg (by simp [hdigit]), if_pos hrange, hvalue]

/-- The values of the digits of a number. -/
theorem exists_hexDigits (n : Nat) : ∃ values, (hexText n).mapM (hexDigit U) = some values ∧
    values.foldl (fun n value => 16 * n + value) 0 = n := by
  induction n using Nat.strongRecOn with
  | ind n ih =>
      rw [hexText]
      by_cases hsmall : n < 16
      · refine ⟨[n], ?_, by simp⟩
        rw [Nat.toDigits_of_lt_base hsmall, List.mapM_cons, List.mapM_nil,
          hexDigit_digitChar U n hsmall]
        rfl
      · obtain ⟨values, hvalues, hfold⟩ := ih (n / 16) (Nat.div_lt_self (by omega) (by omega))
        refine ⟨values ++ [n % 16], ?_, ?_⟩
        · rw [hexText] at hvalues
          rw [Nat.toDigits_of_base_le (by omega) (by omega), List.mapM_append, hvalues,
            List.mapM_cons, List.mapM_nil, hexDigit_digitChar U _ (Nat.mod_lt n (by omega))]
          rfl
        · rw [List.foldl_append, hfold, List.foldl_cons, List.foldl_nil]
          omega

/-- The characters of an address are hexadecimal digits. -/
theorem mem_paddedHex {n : Nat} {c : Char} (hc : c ∈ paddedHex n) :
    ∃ d < 16, Nat.digitChar d = c := by
  by_contra hne
  push Not at hne
  rcases List.mem_append.1 hc with hzero | hdigit
  · exact hne 0 (by omega) (List.eq_of_mem_replicate hzero).symm
  · exact notMem_hexText hne n hdigit

/-- A hexadecimal digit is none of the characters which `int` treats apart. -/
theorem digitChar_plain : ∀ d < 16, isPySpace (Nat.digitChar d) = false ∧
    Nat.digitChar d ≠ '-' ∧ Nat.digitChar d ≠ '+' ∧ Nat.digitChar d ≠ '_' ∧
    Nat.digitChar d ≠ 'x' ∧ Nat.digitChar d ≠ 'X' ∧ Nat.digitChar d ≠ '\n' ∧
    Nat.digitChar d ≠ '\r' := by decide +kernel

/-- An address has none of the characters which `int` treats apart. -/
theorem plain_of_mem_paddedHex {n : Nat} {c : Char} (hc : c ∈ paddedHex n) :
    isPySpace c = false ∧ c ≠ '-' ∧ c ≠ '+' ∧ c ≠ '_' ∧ c ≠ 'x' ∧ c ≠ 'X' ∧ c ≠ '\n' ∧
      c ≠ '\r' := by
  obtain ⟨d, hd, rfl⟩ := mem_paddedHex hc
  exact digitChar_plain d hd

theorem paddedHex_ne_nil (n : Nat) : paddedHex n ≠ [] := by
  intro h
  exact Nat.toDigits_ne_nil (List.append_eq_nil_iff.1 h).2

/-- An address of `maps` is read back. -/
theorem intBase16_paddedHex (n : Nat) : intBase16 U (paddedHex n) = some (n : Int) := by
  have hplain : ∀ c ∈ paddedHex n, _ := fun c hc => plain_of_mem_paddedHex hc
  have hhead : ∀ c, (∀ d ∈ paddedHex n, d ≠ c) → (paddedHex n).head? ≠ some c :=
    fun c hne h => hne c (List.mem_of_mem_head? h) rfl
  have hminus := hhead '-' fun c hc => (hplain c hc).2.1
  have hplus := hhead '+' fun c hc => (hplain c hc).2.2.1
  have hunderscore := hhead '_' fun c hc => (hplain c hc).2.2.2.1
  have hmark : ∀ c, (∀ d ∈ paddedHex n, d ≠ c) → ¬ ['0', c] <+: paddedHex n :=
    fun c hne h => hne c (h.subset (by simp)) rfl
  have hsmall := hmark 'x' fun c hc => (hplain c hc).2.2.2.2.1
  have hcapital := hmark 'X' fun c hc => (hplain c hc).2.2.2.2.2.1
  have hsplit : (paddedHex n).splitOn '_' = [paddedHex n] :=
    List.splitOn_eq_singleton fun h => (hplain '_' h).2.2.2.1 rfl
  obtain ⟨values, hvalues, hfold⟩ := exists_hexDigits U n
  have hzeros : ∀ k, ((List.replicate k '0' ++ hexText n).mapM (hexDigit U)).map
      (fun values => values.foldl (fun n value => 16 * n + value) 0) = some n := by
    intro k
    induction k with
    | zero =>
        rw [List.replicate_zero, List.nil_append, hvalues]
        exact congrArg some hfold
    | succ k ih =>
        obtain ⟨more, hmore, hsame⟩ := Option.map_eq_some_iff.1 ih
        have hzero : hexDigit U '0' = some 0 := hexDigit_digitChar U 0 (by omega)
        rw [List.replicate_succ, List.cons_append, List.mapM_cons, hzero, hmore]
        exact congrArg some hsame
  obtain ⟨all, hall, hsame⟩ := Option.map_eq_some_iff.1 (hzeros (8 - (hexText n).length))
  have hhex : pythonHex U ('0' :: 'x' :: paddedHex n) = some (n : Int) := by
    rw [pythonHex]
    simp only [List.drop_succ_cons, List.drop_zero, hunderscore, if_false, hsplit]
    rw [if_neg (by simp [paddedHex_ne_nil n])]
    rw [List.flatten_singleton, paddedHex, hall, Option.map_some, hsame]
  rw [intBase16, strip_of_dark fun c hc => (hplain c hc).1]
  simp only [hminus, hplus, or_self, if_false, hunderscore]
  rw [if_neg (by
    rintro (h | h)
    · exact hsmall h
    · exact hcapital h), hhex]

end Hexadecimal

/-! ## The walk through a process -/

section Walk

variable (U : CharTables) (p : Process)

theorem hasFrom_zero (pfn first : Nat) : ¬ p.HasFrom pfn first 0 := by
  rintro ⟨i, hi, -⟩
  exact absurd hi (Nat.not_lt_zero i)

/-- The first page or one of the others. -/
theorem hasFrom_succ (pfn first count : Nat) : p.HasFrom pfn first (count + 1) ↔
    (∃ e ∈ p.entry first, e.present = true ∧ e.pfn = pfn) ∨
      ((p.entry first).isSome ∧ p.HasFrom pfn (first + 1) count) := by
  constructor
  · rintro ⟨i, hi, hbefore, hentry⟩
    cases i with
    | zero => exact .inl hentry
    | succ i =>
        refine .inr ⟨hbefore 0 (Nat.succ_pos i), i, by omega, fun j hj => ?_, ?_⟩
        · have hsome := hbefore (j + 1) (by omega)
          rwa [show first + (j + 1) = first + 1 + j by omega] at hsome
        · rwa [show first + (i + 1) = first + 1 + i by omega] at hentry
  · rintro (hentry | ⟨hsome, i, hi, hbefore, hentry⟩)
    · exact ⟨0, Nat.succ_pos count, fun j hj => absurd hj (Nat.not_lt_zero j), hentry⟩
    · refine ⟨i + 1, by omega, fun j hj => ?_, ?_⟩
      · cases j with
        | zero => exact hsome
        | succ j =>
            rw [show first + (j + 1) = first + 1 + j by omega]
            exact hbefore j (by omega)
      · rwa [show first + (i + 1) = first + 1 + i by omega]

/-- The first page, where it has an entry, or one of the others. -/
theorem hasFrom_of_page {pfn first : Nat} {e : PageEntry} (hentry : p.entry first = some e)
    (count : Nat) : p.HasFrom pfn first (count + 1) ↔
      (e.present = true ∧ e.pfn = pfn) ∨ p.HasFrom pfn (first + 1) count := by
  rw [hasFrom_succ, hentry]
  simp

/-- What a read of `pagemap` gives. -/
def Process.readPagemap (offset : Nat) : Option Bytes :=
  some (((p.entry (offset / 8)).map fun e => bytesOf 8 e.bits).getD [])

/-- The addresses of so many pages. -/
def addresses (first count : Nat) : List Nat := (List.range' first count).map (· * 4096)

/-- The walk over the pages of a region finds the frame exactly when one holds it. -/
theorem walkPages_addresses (pfn first count : Nat) :
    ∃ owns, walkPages p.readPagemap pfn (addresses first count) = .ok owns ∧
      (owns = true ↔ p.HasFrom pfn first count) := by
  induction count generalizing first with
  | zero => exact ⟨false, rfl, by simp [hasFrom_zero]⟩
  | succ count ih =>
      have hcons : addresses first (count + 1) = first * 4096 :: addresses (first + 1) count := rfl
      have hindex : first * 4096 / 4096 * 8 / 8 = first := by omega
      rw [hcons, walkPages, Process.readPagemap, hindex]
      cases hentry : p.entry first with
      | none => exact ⟨false, rfl, by simp [hasFrom_succ, hentry]⟩
      | some e =>
          obtain ⟨owns, hwalk, howns⟩ := ih (first + 1)
          have hbits : littleEndian ((bytesOf 8 e.bits).take 8) = e.bits := by
            rw [List.take_of_length_le (length_bytesOf 8 e.bits).le, littleEndian_bytesOf,
              Nat.mod_eq_of_lt e.bits_lt]
          simp only [Option.map_some, Option.getD_some, length_bytesOf, lt_irrefl, if_false, hbits,
            e.bits_present, e.bits_pfn]
          rw [hasFrom_of_page p hentry]
          by_cases hfound : e.present = true ∧ e.pfn = pfn
          · exact ⟨true, by rw [if_pos hfound], by simp [hfound]⟩
          · exact ⟨owns, by rw [if_neg hfound, hwalk], by simp [hfound, howns]⟩

/-- The pages of a region by its bounds. -/
theorem pagesOf_region (first count : Nat) :
    pagesOf (first * 4096 : Nat) ((first + count) * 4096 : Nat) = addresses first count := by
  have hcount : (((((first + count) * 4096 : Nat) : Int) - ((first * 4096 : Nat) : Int) + 4095) /
      4096).toNat = count := by
    push_cast
    omega
  rw [pagesOf, hcount, addresses, List.range'_eq_map_range, List.map_map]
  apply List.map_congr_left
  intro i _
  simp only [Function.comp]
  push_cast
  omega

/-- The range at the head of a line is read back. -/
theorem addressRange_line (r : Region) (rest : Text) : addressRange U (r.line ++ rest) =
    .ok (((r.first * 4096 : Nat) : Int), (((r.first + r.count) * 4096 : Nat) : Int)) := by
  have hspace : ∀ n, ∀ c ∈ paddedHex n, isPySpace c = false :=
    fun n c hc => (plain_of_mem_paddedHex hc).1
  have hdash : ∀ n, '-' ∉ paddedHex n := fun n h => (plain_of_mem_paddedHex h).2.1 rfl
  have hrange : ∀ c ∈ paddedHex (r.first * 4096) ++
      '-' :: paddedHex ((r.first + r.count) * 4096), isPySpace c = false := by
    intro c hc
    rcases List.mem_append.1 hc with hc | hc
    · exact hspace _ c hc
    · rcases List.mem_cons.1 hc with rfl | hc
      · decide
      · exact hspace _ c hc
  have hline : r.line ++ rest = (paddedHex (r.first * 4096) ++
      '-' :: paddedHex ((r.first + r.count) * 4096)) ++ ' ' :: (r.details ++ rest) := by
    simp [Region.line]
  have hwords : words (r.line ++ rest) = (paddedHex (r.first * 4096) ++
      '-' :: paddedHex ((r.first + r.count) * 4096)) :: words (r.details ++ rest) := by
    rw [words, hline, wordsBy_append_cons (by decide), wordsBy_of_dark (by simp) hrange]
    rfl
  have hsplit : (paddedHex (r.first * 4096) ++
      '-' :: paddedHex ((r.first + r.count) * 4096)).splitOn '-' =
      [paddedHex (r.first * 4096), paddedHex ((r.first + r.count) * 4096)] := by
    rw [List.splitOn_append_cons_self, List.splitOn_eq_singleton (hdash _),
      List.splitOn_eq_singleton (hdash _)]
    rfl
  rw [addressRange, hwords]
  simp only [hsplit, intBase16_paddedHex]

/-- The walk over the lines finds the frame exactly when a region holds it. -/
theorem walkLines_regions (pfn : Nat) (regions : List Region) :
    ∃ owns, walkLines U p.readPagemap pfn (regions.map fun r => r.line ++ ['\n']) = .ok owns ∧
      (owns = true ↔ ∃ r ∈ regions, p.HasFrom pfn r.first r.count) := by
  induction regions with
  | nil => exact ⟨false, rfl, by simp⟩
  | cons r rest ih =>
      obtain ⟨owns, hwalk, howns⟩ := ih
      obtain ⟨found, hpages, hfound⟩ := walkPages_addresses p pfn r.first r.count
      rw [List.map_cons, walkLines, addressRange_line]
      simp only [bind, Except.bind, pagesOf_region, hpages]
      cases found with
      | true => exact ⟨true, rfl, by simp [hfound.1 rfl]⟩
      | false =>
          refine ⟨owns, hwalk, ?_⟩
          have hnot : ¬ p.HasFrom pfn r.first r.count := fun h => by simpa using hfound.2 h
          simp [hnot, howns]

theorem universalNewlines_eq_self {text : Text} (h : '\r' ∉ text) :
    universalNewlines text = text := by
  induction text with
  | nil => rfl
  | cons c rest ih =>
      simp only [List.mem_cons, not_or] at h
      rw [universalNewlines, ih h.2]
      · rintro more rfl
        exact absurd rfl h.1
      · exact fun hc => absurd hc.symm h.1

theorem notMem_line {c : Char} (hc : c ≠ '-' ∧ c ≠ ' ') (hpadded : ∀ n, c ∉ paddedHex n)
    {r : Region} (hdetails : c ∉ r.details) : c ∉ r.line := by
  simp [Region.line, hc.1, hc.2, hpadded, hdetails]

/-- The lines read back are those of the regions. -/
theorem readlines_regions (regions : List Region) :
    readlines (regions.flatMap fun r => r.line ++ ['\n']) =
      regions.map fun r => r.line ++ ['\n'] := by
  induction regions with
  | nil => rfl
  | cons r rest ih =>
      have hline : '\n' ∉ r.line := notMem_line (by decide)
        (fun n h => (plain_of_mem_paddedHex h).2.2.2.2.2.2.1 rfl) r.details_plain.1
      rw [List.flatMap_cons, List.append_assoc, List.singleton_append,
        readlines_append_newline hline, ih, List.map_cons]

/-- **The walk** finds the frame precisely if the process has it and its files open; a file
that does not open is no error. -/
theorem pidOwnsPfn_iff (pfn : Nat) :
    ∃ owns, pidOwnsPfn U p.dir pfn = .ok owns ∧ (owns = true ↔ p.Shows pfn) := by
  by_cases hopens : p.mapsOpens = true ∧ p.pagemapOpens = true
  · obtain ⟨hmaps, hpagemap⟩ := hopens
    obtain ⟨owns, hwalk, howns⟩ := walkLines_regions U p pfn p.regions
    have hreturn : '\r' ∉ p.regions.flatMap fun r => r.line ++ ['\n'] := by
      intro h
      obtain ⟨r, -, hr⟩ := List.mem_flatMap.1 h
      rcases List.mem_append.1 hr with hr | hr
      · exact notMem_line (by decide) (fun n h => (plain_of_mem_paddedHex h).2.2.2.2.2.2.2 rfl)
          r.details_plain.2 hr
      · exact absurd (List.mem_singleton.1 hr) (by decide)
    have hdir : p.dir.maps = some (p.regions.flatMap fun r => r.line ++ ['\n']) ∧
        p.dir.pagemap = some p.readPagemap := ⟨if_pos hmaps, if_pos hpagemap⟩
    refine ⟨owns, ?_, by rw [howns, Process.Shows, Process.Has]; simp [hmaps, hpagemap]⟩
    rw [pidOwnsPfn, hdir.1, hdir.2]
    simp only
    rw [universalNewlines_eq_self hreturn, readlines_regions, hwalk]
  · have hhidden : ¬ p.Shows pfn := fun h => hopens ⟨h.1, h.2.1⟩
    refine ⟨false, ?_, by simp [hhidden]⟩
    rw [pidOwnsPfn]
    split
    · next maps read hmaps hread =>
        simp only [Process.dir, Option.ite_none_right_eq_some] at hmaps hread
        exact absurd ⟨hmaps.1, hread.1⟩ hopens
    · rfl

end Walk

/-! ## The walk through `/proc` -/

/-- An entry of `/proc`: a process, or something whose name is not a number. -/
inductive ProcEntry
  | process (p : Process)
  | other (d : ProcDir) (h : ¬ (d.name ≠ [] ∧ d.name.all Char.isDigit))

def ProcEntry.dir : ProcEntry → ProcDir
  | .process p => p.dir
  | .other d _ => d

def ProcEntry.process? : ProcEntry → Option Process
  | .process p => some p
  | .other _ _ => none

/-- The directory of a process has a number for a name. -/
theorem Process.dir_name (p : Process) : p.dir.name ≠ [] ∧ p.dir.name.all Char.isDigit :=
  ⟨Nat.toDigits_ne_nil, List.all_eq_true.2 (GoStrings.isDigit_toDigits p.pid)⟩

open Classical in
/-- The scan looks for the first process which shows the frame. -/
theorem scanProc_listing (U : CharTables) (listing : List ProcEntry) (pfn : Nat) :
    scanProc U pfn (listing.map ProcEntry.dir) =
      .ok (((listing.filterMap ProcEntry.process?).find? fun p => p.Shows pfn).map fun p =>
        workloadInfo U p.dir) := by
  induction listing with
  | nil => rfl
  | cons entry rest ih =>
      cases entry with
      | other d h =>
          simp only [List.map_cons, ProcEntry.dir, scanProc, if_neg h]
          exact ih
      | process p =>
          obtain ⟨owns, howns, hhas⟩ := pidOwnsPfn_iff U p pfn
          simp only [List.map_cons, ProcEntry.dir, scanProc, if_pos p.dir_name, howns, bind,
            Except.bind]
          have hlist : (ProcEntry.process p :: rest).filterMap ProcEntry.process? =
              p :: rest.filterMap ProcEntry.process? := rfl
          rw [hlist, List.find?_cons]
          cases owns with
          | true => rw [decide_eq_true (hhas.1 rfl)]; rfl
          | false =>
              have hnot : ¬ p.Shows pfn := fun h => by simpa using hhas.2 h
              rw [decide_eq_false hnot]
              exact ih

/-- **The first process with the frame** is the one that the script finds, in the order in which
`/proc` lists them, of those whose files it can open; it finds none only if there is none. -/
theorem correlates_first (U : CharTables) (listing : List ProcEntry) (pfn : Nat) :
    ∃ result, correlatePageToWorkload U true (some (listing.map ProcEntry.dir)) pfn =
        .ok result ∧
      (result = none ↔ ∀ p ∈ listing.filterMap ProcEntry.process?, ¬ p.Shows pfn) ∧
      ∀ info, result = some info → ∃ earlier p later,
        listing.filterMap ProcEntry.process? = earlier ++ p :: later ∧
          (∀ q ∈ earlier, ¬ q.Shows pfn) ∧ p.Shows pfn ∧ info = workloadInfo U p.dir := by
  classical
  rw [correlatePageToWorkload, if_pos rfl]
  refine ⟨_, scanProc_listing U listing pfn, ?_, ?_⟩
  · rw [Option.map_eq_none_iff, List.find?_eq_none]
    simp only [decide_eq_true_eq]
  · intro info h
    obtain ⟨p, hfind, rfl⟩ := Option.map_eq_some_iff.mp h
    obtain ⟨hshows, earlier, later, hlist, hearlier⟩ := List.find?_eq_some_iff_append.mp hfind
    refine ⟨earlier, p, later, hlist, ?_, by simpa using hshows, rfl⟩
    intro q hq
    simpa using hearlier q hq

end FaultOracle.Workload
