import FaultOracle.HardwareCollectors

/-!
# Ratios of the NUMA nodes

`exporter/collectors/membw.go` and `numa_imbalance.go` read the memory of a node and its counters
of allocations, and send a ratio of each.  The values of a file are read one by one, and the
ratios are computed from them with the arithmetic of `uint64`.

`ratios_sound_iff` says which files that is right for.
-/

namespace FaultOracle.Exporter

open GoStrings InsertionDict PythonFloats

/-! ## Arithmetic -/

def mul64 (a b : Nat) : Nat := a * b % 2 ^ 64

def add64 (a b : Nat) : Nat := (a + b) % 2 ^ 64

def sub64 (a b : Nat) : Nat := (2 ^ 64 + a - b) % 2 ^ 64

/-- `x / y` of `float64`; a zero has no sign here. -/
def divide : PyFloat → PyFloat → PyFloat
  | .fin a, .fin b =>
      if b ≠ 0 then toDouble (a / b) else if a = 0 then .nan else .inf (decide (a < 0))
  | .fin _, .inf _ => .fin 0
  | .inf negative, .fin b => .inf (negative != decide (b < 0))
  | _, _ => .nan

/-! ## The memory of a node -/

inductive MeminfoField
  | memTotal
  | memFree
deriving DecidableEq

/-- The field that a line is for, with its value in kB. -/
def meminfoField (line : Text) : Option (MeminfoField × Nat) :=
  match fields line with
  | _ :: _ :: name :: number :: _ =>
      match parseUint number with
      | none => none
      | some val =>
          if "MemTotal:".toList <:+: name then some (.memTotal, val)
          else if "MemFree:".toList <:+: name then some (.memFree, val)
          else none
  | _ => none

structure NodeMeminfo where
  total : Nat
  free : Nat

def meminfoLine (info : NodeMeminfo) (line : Text) : NodeMeminfo :=
  match meminfoField line with
  | none => info
  | some (.memTotal, val) => { info with total := mul64 val 1024 }
  | some (.memFree, val) => { info with free := mul64 val 1024 }

/-- `parseNodeMeminfo`, of what the file holds. -/
def parseNodeMeminfo (text : Text) : Option NodeMeminfo :=
  let scan := scanLines text
  if scan.tooLong then none else some (scan.lines.foldl meminfoLine ⟨0, 0⟩)

def NodeMeminfo.ratio (info : NodeMeminfo) : PyFloat :=
  if 0 < info.total then
    divide (float64 (sub64 info.total info.free)) (float64 info.total)
  else .fin 0

/-- The directory of the nodes, below `SysfsRoot`. -/
def nodeRoot (root : Path) : Path := below root ["devices", "system", "node"]

def meminfoFile (root : Path) (e : DirEntry) : Path := below (nodeRoot root ++ [e.name]) ["meminfo"]

/-- The nodes whose `meminfo` the pattern matches. -/
def meminfoMatches (fs : FileSystem) (root : Path) : List DirEntry :=
  ((fs.readDir (nodeRoot root)).getD []).filter fun e =>
    "node".toList.isPrefixOf e.name &&
      ((fs.readDir (nodeRoot root ++ [e.name])).getD []).any fun file =>
        file.name == "meminfo".toList

/-- The number of a node, as its directory has it. -/
def nodeNumber (e : DirEntry) : Text := e.name.drop "node".toList.length

def membwNode (fs : FileSystem) (root : Path) (e : DirEntry) : Scrape :=
  match (fs.readFile (meminfoFile root e)).bind parseNodeMeminfo with
  | none => .error
  | some info =>
      ⟨[⟨"memory_bandwidth_utilization_ratio", [nodeNumber e], info.ratio⟩,
        ⟨"memory_node_total_bytes", [nodeNumber e], float64 info.total⟩,
        ⟨"memory_node_available_bytes", [nodeNumber e], float64 info.free⟩], 0, 0⟩

/-- `MembwCollector.Collect`. -/
def membwCollect (fs : FileSystem) (root : Path) (duration : PyFloat) : List Sample :=
  let nodes := meminfoMatches fs root
  if nodes = [] then collectorUp "membw" (.fin 0) :: emitSelf "membw" duration 1
  else
    let scrape := Scrape.each (membwNode fs root) nodes
    scrape.samples ++ collectorUp "membw" (.fin 1) :: emitSelf "membw" duration scrape.errCount

/-! ## The allocations of a node -/

/-- The counter that a line is for, with its value. -/
def numastatItem (line : Text) : Option (Text × Nat) :=
  match fields line with
  | [name, number] => (parseUint number).map fun v => (name, v)
  | _ => none

def numastatLine (m : List (Text × Nat)) (line : Text) : List (Text × Nat) :=
  match numastatItem line with
  | none => m
  | some (name, v) => setItem name v m

/-- `parseNumastat`, of what the file holds. -/
def parseNumastat (text : Text) : Option (List (Text × Nat)) :=
  let scan := scanLines text
  if scan.tooLong then none else some (scan.lines.foldl numastatLine [])

/-- `stats[name]`. -/
def stat (stats : List (Text × Nat)) (name : String) : Nat := (stats.lookup name.toList).getD 0

def imbalanceRatio (hit miss : Nat) : PyFloat :=
  if 0 < add64 hit miss then divide (float64 miss) (float64 (add64 hit miss)) else .fin 0

def numastatFile (root : Path) (e : DirEntry) : Path :=
  below (nodeRoot root ++ [e.name]) ["numastat"]

/-- Whether an entry is the directory of a node. -/
def isNode (e : DirEntry) : Bool := e.isDir && "node".toList.isPrefixOf e.name

def numaNode (fs : FileSystem) (root : Path) (e : DirEntry) : Scrape :=
  if !isNode e then .nothing
  else
    match (fs.readFile (numastatFile root e)).bind parseNumastat with
    | none => .nothing
    | some stats =>
        let hit := stat stats "numa_hit"
        let miss := stat stats "numa_miss"
        ⟨[⟨"numa_hit_total", [nodeNumber e], float64 hit⟩,
          ⟨"numa_miss_total", [nodeNumber e], float64 miss⟩,
          ⟨"numa_foreign_total", [nodeNumber e], float64 (stat stats "numa_foreign")⟩,
          ⟨"numa_imbalance_ratio", [nodeNumber e], imbalanceRatio hit miss⟩], 0, 1⟩

/-- `NUMAImbalanceCollector.Collect`. -/
def numaImbalanceCollect (fs : FileSystem) (root : Path) : List Sample :=
  match fs.readDir (nodeRoot root) with
  | none => [collectorUp "numa_imbalance" (.fin 0)]
  | some entries =>
      let scrape := Scrape.each (numaNode fs root) entries
      let up := if 0 < scrape.successCount then .fin 1 else .fin 0
      scrape.samples ++ [collectorUp "numa_imbalance" up]

example : (parseNodeMeminfo
    "Node 0 MemTotal:  16384 kB\nNode 0 MemFree:  4096 kB\n".toList).map NodeMeminfo.ratio =
      some (.fin (3 / 4)) := by
  decide +kernel

/-! ## Values and bounds -/

/-- A number between 0 and 1. -/
def InUnit (x : PyFloat) : Prop := ∃ q : ℚ, x = .fin q ∧ 0 ≤ q ∧ q ≤ 1

/-- The last value for a key, or 0. -/
def lastValue {κ : Type} [DecidableEq κ] (key : κ) (items : List (κ × Nat)) : Nat :=
  (((items.filter fun item => item.1 = key).getLast?).map Prod.snd).getD 0

/-- The value in kB that a `meminfo` gives for a field. -/
def kilobytes (field : MeminfoField) (text : Text) : Nat :=
  lastValue field ((scanLines text).lines.filterMap meminfoField)

/-- The value that a `numastat` gives for a counter. -/
def allocations (name : String) (text : Text) : Nat :=
  lastValue name.toList ((scanLines text).lines.filterMap numastatItem)

/-- Nothing wraps behind the ratio of a `meminfo`. -/
def MeminfoExact (text : Text) : Prop :=
  ∀ info, parseNodeMeminfo text = some info →
    info.total = kilobytes .memTotal text * 1024 ∧ info.free = kilobytes .memFree text * 1024 ∧
      (0 < info.total → (sub64 info.total info.free : ℤ) = info.total - info.free)

/-- Nothing wraps behind the ratio of a `numastat`. -/
def NumastatExact (text : Text) : Prop :=
  ∀ stats, parseNumastat text = some stats →
    stat stats "numa_hit" = allocations "numa_hit" text ∧
      stat stats "numa_miss" = allocations "numa_miss" text ∧
      add64 (stat stats "numa_hit") (stat stats "numa_miss") =
        stat stats "numa_hit" + stat stats "numa_miss"

/-- All ratios of a host lie between 0 and 1, and nothing wraps behind them. -/
structure RatiosSound (fs : FileSystem) (root : Path) : Prop where
  utilization : ∀ duration, ∀ s ∈ membwCollect fs root duration,
    s.name = "memory_bandwidth_utilization_ratio" → InUnit s.value
  imbalance : ∀ s ∈ numaImbalanceCollect fs root, s.name = "numa_imbalance_ratio" → InUnit s.value
  meminfo : ∀ e ∈ meminfoMatches fs root, ∀ text,
    fs.readFile (meminfoFile root e) = some text → MeminfoExact text
  numastat : ∀ entries, fs.readDir (nodeRoot root) = some entries → ∀ e ∈ entries, isNode e →
    ∀ text, fs.readFile (numastatFile root e) = some text → NumastatExact text

/-- The values of a `meminfo` which can be read to its end fit `uint64` in bytes, and no more is
free than there is. -/
def MeminfoFits (text : Text) : Prop :=
  (scanLines text).tooLong = true ∨
    kilobytes .memTotal text < 2 ^ 54 ∧ kilobytes .memFree text < 2 ^ 54 ∧
      (kilobytes .memTotal text = 0 ∨ kilobytes .memFree text ≤ kilobytes .memTotal text)

/-- Hits and misses of a `numastat` which can be read to its end fit `uint64` together. -/
def NumastatFits (text : Text) : Prop :=
  (scanLines text).tooLong = true ∨
    allocations "numa_hit" text + allocations "numa_miss" text < 2 ^ 64

/-! ### The values that are read -/

section LastValue

variable {κ : Type} [DecidableEq κ] {key k : κ} {v : Nat} {items : List (κ × Nat)}

/-- A later line of the key overrides the earlier ones. -/
theorem lastValue_concat : lastValue key (items ++ [(k, v)]) =
    if k = key then v else lastValue key items := by
  unfold lastValue
  by_cases hk : k = key
  · simp [List.filter_append, hk]
  · simp [List.filter_append, hk]

end LastValue

/-- **Meminfo**: the fields are the last values, in bytes. -/
theorem foldl_meminfoLine (lines : List Text) : lines.foldl meminfoLine ⟨0, 0⟩ =
    ⟨mul64 (lastValue .memTotal (lines.filterMap meminfoField)) 1024,
      mul64 (lastValue .memFree (lines.filterMap meminfoField)) 1024⟩ := by
  induction lines using List.reverseRecOn with
  | nil => rfl
  | append_singleton lines line ih =>
      rw [List.foldl_concat, ih, List.filterMap_append, List.filterMap_cons, List.filterMap_nil]
      unfold meminfoLine
      cases meminfoField line with
      | none => simp
      | some item =>
          obtain ⟨field, val⟩ := item
          cases field with
          | memTotal => simp [lastValue_concat]
          | memFree => simp [lastValue_concat]

/-- **Numastat**: a counter has its last value. -/
theorem stat_foldl (name : String) (lines : List Text) : stat (lines.foldl numastatLine []) name =
    lastValue name.toList (lines.filterMap numastatItem) := by
  induction lines using List.reverseRecOn with
  | nil => rfl
  | append_singleton lines line ih =>
      rw [List.foldl_concat, List.filterMap_append, List.filterMap_cons, List.filterMap_nil]
      generalize lines.foldl numastatLine [] = stats at ih ⊢
      unfold numastatLine
      cases numastatItem line with
      | none => simpa using ih
      | some item =>
          obtain ⟨k, v⟩ := item
          rw [lastValue_concat, ← ih]
          by_cases hk : k = name.toList
          · simp [stat, hk]
          · rw [if_neg hk, stat, lookup_setItem_ne (Ne.symm hk), stat]

/-- A node's memory is read exactly when the scanner gets to the end. -/
theorem parseNodeMeminfo_eq_some_iff {text : Text} {info : NodeMeminfo} :
    parseNodeMeminfo text = some info ↔ (scanLines text).tooLong = false ∧
      info = ⟨mul64 (kilobytes .memTotal text) 1024, mul64 (kilobytes .memFree text) 1024⟩ := by
  unfold parseNodeMeminfo
  dsimp only
  rw [foldl_meminfoLine]
  cases (scanLines text).tooLong with
  | true => simp
  | false => simp [kilobytes, eq_comm]

/-- The statistics which are read are those of the lines. -/
theorem parseNumastat_eq_some {text : Text} {stats : List (Text × Nat)}
    (h : parseNumastat text = some stats) :
    (scanLines text).tooLong = false ∧ ∀ name, stat stats name = allocations name text := by
  unfold parseNumastat at h
  dsimp only at h
  split at h
  · cases h
  · rename_i hlong
    obtain rfl := Option.some.inj h
    exact ⟨by simpa using hlong, fun name => stat_foldl name _⟩

/-! ### Nothing wraps -/

section Wrapping

variable {a b : Nat}

/-- A product is exact exactly when it has 64 bits. -/
theorem mul64_eq_iff : mul64 a b = a * b ↔ a * b < 2 ^ 64 := by
  unfold mul64
  exact Nat.mod_eq_iff_lt (by decide)

/-- A sum is exact exactly when it has 64 bits. -/
theorem add64_eq_iff : add64 a b = a + b ↔ a + b < 2 ^ 64 := by
  unfold add64
  exact Nat.mod_eq_iff_lt (by decide)

/-- A difference is exact exactly when it is not negative. -/
theorem sub64_eq_iff (ha : a < 2 ^ 64) (hb : b < 2 ^ 64) : (sub64 a b : ℤ) = a - b ↔ b ≤ a := by
  unfold sub64
  omega

end Wrapping

/-- The memory's numbers are exact exactly when they fit. -/
theorem meminfoExact_iff (text : Text) : MeminfoExact text ↔ MeminfoFits text := by
  unfold MeminfoExact MeminfoFits
  simp only [parseNodeMeminfo_eq_some_iff]
  cases hlong : (scanLines text).tooLong with
  | true => simp
  | false =>
      simp only [true_and, forall_eq, Bool.false_eq_true, false_or, mul64_eq_iff]
      generalize kilobytes .memTotal text = total
      generalize kilobytes .memFree text = free
      have hbytes : ∀ n, n * 1024 < 2 ^ 64 ↔ n < 2 ^ 54 := by omega
      have hsub : total * 1024 < 2 ^ 64 → free * 1024 < 2 ^ 64 →
          ((0 < mul64 total 1024 → (sub64 (mul64 total 1024) (mul64 free 1024) : ℤ) =
            mul64 total 1024 - mul64 free 1024) ↔ total = 0 ∨ free ≤ total) := by
        intro htotal hfree
        rw [mul64_eq_iff.mpr htotal, mul64_eq_iff.mpr hfree, sub64_eq_iff htotal hfree]
        clear htotal hfree
        omega
      constructor
      · intro ⟨htotal, hfree, hexact⟩
        exact ⟨(hbytes _).mp htotal, (hbytes _).mp hfree, (hsub htotal hfree).mp hexact⟩
      · intro ⟨htotal, hfree, hle⟩
        have htotal := (hbytes _).mpr htotal
        have hfree := (hbytes _).mpr hfree
        exact ⟨htotal, hfree, (hsub htotal hfree).mpr hle⟩

/-- The statistics are exact exactly when they fit. -/
theorem numastatExact_iff (text : Text) : NumastatExact text ↔ NumastatFits text := by
  unfold NumastatExact NumastatFits
  cases hparse : parseNumastat text with
  | none =>
      have hlong : (scanLines text).tooLong = true := by
        unfold parseNumastat at hparse
        by_contra hlong
        simp [hlong] at hparse
      simp [hlong]
  | some stats =>
      obtain ⟨hlong, hstat⟩ := parseNumastat_eq_some hparse
      simp only [Option.some.injEq, forall_eq', hstat, hlong, add64_eq_iff, true_and,
        Bool.false_eq_true, false_or]

/-! ### Ratios -/

/-- A 64-bit number is rounded to a finite double. -/
theorem float64_eq {n : Nat} (hn : n < 2 ^ 64) : float64 n = .fin (rounded n) := by
  apply toDouble_of_lt
  have hplace : lastPlace (n : ℚ) ≤ 64 := by
    have hlog : Nat.log 2 n < 64 ∨ n = 0 := by
      by_cases hzero : n = 0
      · exact .inr hzero
      · exact .inl (Nat.log_lt_of_lt_pow hzero hn)
    rw [lastPlace, Nat.abs_cast, Int.log_natCast]
    rcases hlog with hlog | rfl
    · omega
    · simp
  have hle : rounded (n : ℚ) ≤ 2 ^ (64 : ℤ) := rounded_le_zpow (by exact_mod_cast hn.le) hplace
  rw [abs_of_nonneg (rounded_nonneg (Nat.cast_nonneg n))]
  refine hle.trans_lt ?_
  rw [← zpow_natCast (2 : ℚ) 1024]
  exact zpow_lt_zpow_right₀ (by decide) (by decide)

/-- **A part of a whole** has a ratio between 0 and 1. -/
theorem inUnit_divide {part whole : Nat} (hpos : 0 < whole) (hle : part ≤ whole)
    (hwhole : whole < 2 ^ 64) : InUnit (divide (float64 part) (float64 whole)) := by
  have hpart : (0 : ℚ) ≤ rounded part := rounded_nonneg (Nat.cast_nonneg part)
  have horder : rounded (part : ℚ) ≤ rounded whole :=
    rounded_mono (Nat.cast_nonneg part) (by exact_mod_cast hle)
  have hone : (1 : ℚ) ≤ rounded whole := by
    have hmono : rounded ((1 : Nat) : ℚ) ≤ rounded whole :=
      rounded_mono (by decide) (by exact_mod_cast hpos)
    rwa [rounded_natCast (by decide), Nat.cast_one] at hmono
  have hpositive : (0 : ℚ) < rounded whole := by linarith
  have hquotient : rounded (part : ℚ) / rounded whole ≤ 1 := (div_le_one hpositive).mpr horder
  have hlow : 0 ≤ rounded (rounded (part : ℚ) / rounded whole) :=
    rounded_nonneg (div_nonneg hpart hpositive.le)
  have hhigh : rounded (rounded (part : ℚ) / rounded whole) ≤ 1 := by
    have hmono := rounded_mono (div_nonneg hpart hpositive.le) hquotient
    have hrounded : rounded ((1 : Nat) : ℚ) = 1 := by
      rw [rounded_natCast (by decide), Nat.cast_one]
    rwa [← Nat.cast_one, hrounded] at hmono
  refine ⟨_, ?_, hlow, hhigh⟩
  rw [float64_eq (hle.trans_lt hwhole), float64_eq hwhole, divide, if_pos hpositive.ne']
  apply toDouble_of_lt
  rw [abs_of_nonneg hlow]
  exact hhigh.trans_lt (one_lt_pow₀ (by decide) (by decide))

theorem inUnit_zero : InUnit (.fin 0) := ⟨0, rfl, le_refl _, by decide⟩

/-- The memory ratio is in the unit interval where the numbers fit. -/
theorem inUnit_ratio {text : Text} {info : NodeMeminfo} (hfits : MeminfoFits text)
    (hparse : parseNodeMeminfo text = some info) : InUnit info.ratio := by
  obtain ⟨htotal, _, hsub⟩ := (meminfoExact_iff text).mpr hfits info hparse
  obtain ⟨hlong, hinfo⟩ := parseNodeMeminfo_eq_some_iff.mp hparse
  have hlt : info.total < 2 ^ 64 := by
    rw [hinfo]
    exact Nat.mod_lt _ (by decide)
  unfold NodeMeminfo.ratio
  split
  · rename_i hpos
    have hexact := hsub hpos
    exact inUnit_divide hpos (by omega) hlt
  · exact inUnit_zero

/-- The imbalance ratio is in the unit interval where the numbers fit. -/
theorem inUnit_imbalanceRatio {text : Text} {stats : List (Text × Nat)}
    (hfits : NumastatFits text) (hparse : parseNumastat text = some stats) :
    InUnit (imbalanceRatio (stat stats "numa_hit") (stat stats "numa_miss")) := by
  obtain ⟨_, _, hadd⟩ := (numastatExact_iff text).mpr hfits stats hparse
  have hlt := add64_eq_iff.mp hadd
  unfold imbalanceRatio
  split
  · rename_i hpos
    rw [hadd] at hpos ⊢
    exact inUnit_divide hpos (by omega) hlt
  · exact inUnit_zero

/-! ## The ratios of a host -/

section Host

variable {fs : FileSystem} {root : Path} {e : DirEntry} {s : Sample}

/-- A node's memory ratio as it is sent. -/
theorem inUnit_membwNode
    (hfits : ∀ text, fs.readFile (meminfoFile root e) = some text → MeminfoFits text)
    (hs : s ∈ (membwNode fs root e).samples)
    (hname : s.name = "memory_bandwidth_utilization_ratio") : InUnit s.value := by
  unfold membwNode at hs
  split at hs
  · cases hs
  · rename_i info hread
    obtain ⟨text, hfile, hparse⟩ := Option.bind_eq_some_iff.mp hread
    simp only [List.mem_cons, List.not_mem_nil, or_false] at hs
    rcases hs with rfl | rfl | rfl
    · exact inUnit_ratio (hfits text hfile) hparse
    · exact absurd hname (by simp)
    · exact absurd hname (by simp)

/-- A node's imbalance ratio as it is sent. -/
theorem inUnit_numaNode (hfits : isNode e → ∀ text,
      fs.readFile (numastatFile root e) = some text → NumastatFits text)
    (hs : s ∈ (numaNode fs root e).samples) (hname : s.name = "numa_imbalance_ratio") :
    InUnit s.value := by
  unfold numaNode at hs
  split at hs
  · cases hs
  · rename_i hnode
    split at hs
    · cases hs
    · rename_i stats hread
      obtain ⟨text, hfile, hparse⟩ := Option.bind_eq_some_iff.mp hread
      simp only [List.mem_cons, List.not_mem_nil, or_false] at hs
      rcases hs with rfl | rfl | rfl | rfl
      · exact absurd hname (by simp)
      · exact absurd hname (by simp)
      · exact absurd hname (by simp)
      · exact inUnit_imbalanceRatio (hfits (by simpa using hnode) text hfile) hparse

/-- The metrics of a collector about itself are no ratios. -/
theorem name_of_self {collector : String} {up duration : PyFloat} {errCount : Nat}
    (hs : s ∈ collectorUp collector up :: emitSelf collector duration errCount) :
    s.name ≠ "memory_bandwidth_utilization_ratio" ∧ s.name ≠ "numa_imbalance_ratio" := by
  simp only [emitSelf, List.mem_cons, List.not_mem_nil, or_false] at hs
  rcases hs with rfl | rfl | rfl
  · simp [collectorUp]
  · simp
  · simp

end Host

/-- **The ratios of a host are sound** exactly when the files of its nodes have values which fit:
fewer than `2 ^ 54` kB, of which no more are free than there are, and hits and misses whose sum
is below `2 ^ 64`. -/
theorem ratios_sound_iff (fs : FileSystem) (root : Path) : RatiosSound fs root ↔
    (∀ e ∈ meminfoMatches fs root, ∀ text,
      fs.readFile (meminfoFile root e) = some text → MeminfoFits text) ∧
    ∀ entries, fs.readDir (nodeRoot root) = some entries → ∀ e ∈ entries, isNode e →
      ∀ text, fs.readFile (numastatFile root e) = some text → NumastatFits text := by
  constructor
  · intro h
    constructor
    · intro e he text htext
      exact (meminfoExact_iff text).mp (h.meminfo e he text htext)
    · intro entries hdir e he hnode text htext
      exact (numastatExact_iff text).mp (h.numastat entries hdir e he hnode text htext)
  · intro ⟨hmeminfo, hnumastat⟩
    refine ⟨?_, ?_, ?_, ?_⟩
    · intro duration s hs hname
      have hself : ∀ {up errCount},
          s ∉ collectorUp "membw" up :: emitSelf "membw" duration errCount :=
        fun hs => (name_of_self hs).1 hname
      unfold membwCollect at hs
      dsimp only at hs
      split at hs
      · exact absurd hs hself
      · rw [Scrape.samples_each, List.mem_append] at hs
        obtain ⟨e, he, hs⟩ := List.mem_flatMap.mp (hs.resolve_right hself)
        exact inUnit_membwNode (hmeminfo e he) hs hname
    · intro s hs hname
      have hself : ∀ {up}, s ∉ [collectorUp "numa_imbalance" up] := by
        intro up hs
        have hmem : s ∈ collectorUp "numa_imbalance" up :: emitSelf "numa_imbalance" up 0 :=
          List.mem_cons.mpr (.inl (List.mem_singleton.mp hs))
        exact (name_of_self hmem).2 hname
      unfold numaImbalanceCollect at hs
      split at hs
      · exact absurd hs hself
      · rename_i entries hdir
        dsimp only at hs
        rw [Scrape.samples_each, List.mem_append] at hs
        obtain ⟨e, he, hs⟩ := List.mem_flatMap.mp (hs.resolve_right hself)
        exact inUnit_numaNode (hnumastat entries hdir e he) hs hname
    · intro e he text htext
      exact (meminfoExact_iff text).mpr (hmeminfo e he text htext)
    · intro entries hdir e he hnode text htext
      exact (numastatExact_iff text).mpr (hnumastat entries hdir e he hnode text htext)

/-- A host with a node that has more memory free than in total. -/
def moreFree : FileSystem where
  readDir := fun path =>
    if path = nodeRoot [] then some [⟨"node0".toList, true⟩]
    else some [⟨"meminfo".toList, false⟩]
  readFile := fun _ => some "Node 0 MemTotal: 4 kB\nNode 0 MemFree: 8 kB\n".toList
  stat := fun _ => .found
  nodup_names := by
    intro path entries h
    split at h
    · obtain rfl := Option.some.inj h
      decide
    · obtain rfl := Option.some.inj h
      decide

/-- Its utilization is sent as `2 ^ 52 - 1`. -/
theorem utilization_wraps : ¬ RatiosSound moreFree [] := by
  intro h
  have hsent : ∃ s ∈ membwCollect moreFree [] (.fin 0),
      s.name = "memory_bandwidth_utilization_ratio" ∧ s.value = .fin (2 ^ 52 - 1) := by
    decide +kernel
  obtain ⟨s, hs, hname, hvalue⟩ := hsent
  obtain ⟨q, hq, _, hhigh⟩ := h.utilization (.fin 0) s hs hname
  rw [hvalue] at hq
  obtain rfl := PyFloat.fin.inj hq
  exact absurd hhigh (by norm_num)

end FaultOracle.Exporter
