import FaultOracle.EdacTrace

/-!
# The collector of `exporter/collectors/ebpf_edac.go`

`handleEvent` is given the bytes of one record of the ring buffer.  For a memory
controller event it lays the Go structure `mcEvent` over them, and first returns when
they are fewer than the size of that structure.

The two structures agree on their first six fields.  Behind them the C compiler needs no
padding, but the Go structure has four bytes of its own, which push `Address` to the next
multiple of its alignment: `mcEvent` is longer than `struct mc_event_t` on every port,
and no submitted event is counted (`submitted_mc_event_lost`).  The size is all that is
wrong: with enough bytes behind it the event is counted under its key
(`padded_mc_event_counted`).

`handleEvents_counts` is about the three tracepoints together: over any run of hits, the
PCIe and machine check counters are those of the submitted hits.
-/

namespace FaultOracle.Ebpf

open StructLayout

def ebpfEventTypeMC : UInt32 := 1
def ebpfEventTypeAER : UInt32 := 2
def ebpfEventTypeMCE : UInt32 := 3

def ebpfSeverityCE : UInt32 := 0
def ebpfSeverityUE : UInt32 := 1
def ebpfSeverityFatal : UInt32 := 2

/-- The ports of the Go compiler, by the size of a machine word. -/
inductive Port
  | bits32
  | bits64
deriving DecidableEq, Repr

/-- A `uint64` field is aligned to the machine word. -/
def goUint64 : Port → FieldType
  | .bits32 => { u32 with size := 8 }
  | .bits64 => u64

/-- The Go structure `mcEvent`. -/
def mcEvent (port : Port) : Layout McField :=
  [(.type, u32), (.severity, u32), (.mc, u32), (.topLayer, u32), (.midLayer, u32),
    (.lowerLayer, u32), (.pad, chars 4), (.address, goUint64 port),
    (.timestampNs, goUint64 port), (.errorType, chars 16)]

structure McKey where
  mc : UInt32
  topLayer : UInt32
  midLayer : UInt32
deriving DecidableEq, Repr

/-- The counters of `eBPFEDACCollector`. -/
structure Collector where
  mcCE : List (McKey × UInt64)
  mcUE : List (McKey × UInt64)
  aerCE : UInt64
  aerUE : UInt64
  aerFatal : UInt64
  mceTotal : UInt64
deriving DecidableEq, Repr

def newCollector : Collector := ⟨[], [], 0, 0, 0, 0⟩

/-! ## Slices -/

/-- A Go slice of bytes: its elements, and those between its length and its capacity. -/
structure GoSlice where
  bytes : List UInt8
  spare : List UInt8

inductive GoPanic
  | sliceBounds
  | indexOutOfRange
deriving DecidableEq, Repr

/-- `s[low:high]`, which may reach into the spare capacity. -/
def GoSlice.slice (s : GoSlice) (low high : Nat) : Except GoPanic GoSlice :=
  if low ≤ high ∧ high ≤ s.bytes.length + s.spare.length then
    .ok ⟨((s.bytes ++ s.spare).drop low).take (high - low), (s.bytes ++ s.spare).drop high⟩
  else .error .sliceBounds

/-- `binary.LittleEndian.Uint32`. -/
def littleEndianUint32 (s : GoSlice) : Except GoPanic UInt32 :=
  if s.bytes.length < 4 then .error .indexOutOfRange
  else .ok (UInt32.ofNat (leNat (s.bytes.take 4)))

/-! ## The handler -/

/-- `m[key]++`. -/
def incrementKey (key : McKey) (m : List (McKey × UInt64)) : List (McKey × UInt64) :=
  InsertionDict.setItem key ((m.lookup key).getD 0 + 1) m

/-- The branch of a memory controller event after its size check. -/
def countMC {port : Port} (ev : Image (mcEvent port)) (c : Collector) : Collector :=
  let key : McKey := ⟨UInt32.ofNat (ev.readNat .mc), UInt32.ofNat (ev.readNat .topLayer),
    UInt32.ofNat (ev.readNat .midLayer)⟩
  if UInt32.ofNat (ev.readNat .severity) = ebpfSeverityUE then
    { c with mcUE := incrementKey key c.mcUE }
  else { c with mcCE := incrementKey key c.mcCE }

def countAER (sev : UInt32) (c : Collector) : Collector :=
  if sev = ebpfSeverityCE then { c with aerCE := c.aerCE + 1 }
  else if sev = ebpfSeverityFatal then { c with aerFatal := c.aerFatal + 1 }
  else { c with aerUE := c.aerUE + 1 }

def handleEvent (port : Port) (raw : GoSlice) (c : Collector) : Except GoPanic Collector :=
  if raw.bytes.length < 4 then .ok c
  else do
    let evType ← littleEndianUint32 (← raw.slice 0 4)
    if evType = ebpfEventTypeMC then
      if raw.bytes.length < sizeof (mcEvent port) then
        return c
      else
        let ev := (Image.zero (mcEvent port)).copyFrom raw.bytes
        return countMC ev c
    else if evType = ebpfEventTypeAER then
      let sev ← littleEndianUint32 (← raw.slice 4 8)
      return countAER sev c
    else if evType = ebpfEventTypeMCE then
      return { c with mceTotal := c.mceTotal + 1 }
    else
      return c

/-! ## Counters -/

/-- The counters which the collector exports. -/
inductive Counter
  | mcCE (key : McKey)
  | mcUE (key : McKey)
  | aerCE | aerUE | aerFatal | mceTotal
deriving DecidableEq, Repr

def Counter.IsMC : Counter → Prop
  | .mcCE _ | .mcUE _ => True
  | _ => False

instance : DecidablePred Counter.IsMC
  | .mcCE _ | .mcUE _ => isTrue trivial
  | .aerCE | .aerUE | .aerFatal | .mceTotal => isFalse id

def Collector.get (c : Collector) : Counter → UInt64
  | .mcCE key => (c.mcCE.lookup key).getD 0
  | .mcUE key => (c.mcUE.lookup key).getD 0
  | .aerCE => c.aerCE
  | .aerUE => c.aerUE
  | .aerFatal => c.aerFatal
  | .mceTotal => c.mceTotal

/-- The counter `n` went up by one, and no other counter changed. -/
def Counts (c c' : Collector) (n : Counter) : Prop :=
  c'.get n = c.get n + 1 ∧ ∀ m, m ≠ n → c'.get m = c.get m

/-- A count after one of the keys was counted. -/
theorem lookup_incrementKey (key other : McKey) (m : List (McKey × UInt64)) :
    ((incrementKey key m).lookup other).getD 0 =
      if other = key then (m.lookup key).getD 0 + 1 else (m.lookup other).getD 0 := by
  by_cases h : other = key
  · rw [if_pos h, h, incrementKey, InsertionDict.lookup_setItem_self, Option.getD_some]
  · rw [if_neg h, incrementKey, InsertionDict.lookup_setItem_ne h]

/-- The counter of a memory controller event with the severity and the key of `ev`. -/
def mcCounter (severity : UInt32) (key : McKey) : Counter :=
  if severity = ebpfSeverityUE then .mcUE key else .mcCE key

/-- A change of one counter by one counts it. -/
theorem Counts.of_get {c c' : Collector} {n : Counter}
    (h : ∀ m, c'.get m = if m = n then c.get m + 1 else c.get m) : Counts c c' n := by
  constructor
  · rw [h, if_pos rfl]
  · intro m hm
    rw [h, if_neg hm]

/-- The counters after one was counted. -/
theorem Counts.get {c c' : Collector} {n : Counter} (h : Counts c c' n) (m : Counter) :
    c'.get m = if n = m then c.get m + 1 else c.get m := by
  by_cases hm : n = m
  · rw [if_pos hm, ← hm, h.1]
  · rw [if_neg hm, h.2 m (fun heq => hm heq.symm)]

/-- A memory controller's event counts its counter. -/
theorem counts_countMC {port : Port} (ev : Image (mcEvent port)) (c : Collector) :
    Counts c (countMC ev c) (mcCounter (UInt32.ofNat (ev.readNat .severity))
      ⟨UInt32.ofNat (ev.readNat .mc), UInt32.ofNat (ev.readNat .topLayer),
        UInt32.ofNat (ev.readNat .midLayer)⟩) := by
  apply Counts.of_get
  intro m
  by_cases hue : UInt32.ofNat (ev.readNat .severity) = ebpfSeverityUE
  · rw [countMC, mcCounter, if_pos hue, if_pos hue]
    cases m <;> simp [Collector.get, lookup_incrementKey]
    split <;> simp_all
  · rw [countMC, mcCounter, if_neg hue, if_neg hue]
    cases m <;> simp [Collector.get, lookup_incrementKey]
    split <;> simp_all

def aerCounter (sev : UInt32) : Counter :=
  if sev = ebpfSeverityCE then .aerCE
  else if sev = ebpfSeverityFatal then .aerFatal
  else .aerUE

/-- A PCIe event counts its counter. -/
theorem counts_countAER (sev : UInt32) (c : Collector) :
    Counts c (countAER sev c) (aerCounter sev) := by
  apply Counts.of_get
  intro m
  by_cases hce : sev = ebpfSeverityCE
  · rw [countAER, aerCounter, if_pos hce, if_pos hce]
    cases m <;> rfl
  · by_cases hfatal : sev = ebpfSeverityFatal
    · rw [countAER, aerCounter, if_neg hce, if_neg hce, if_pos hfatal, if_pos hfatal]
      cases m <;> rfl
    · rw [countAER, aerCounter, if_neg hce, if_neg hce, if_neg hfatal, if_neg hfatal]
      cases m <;> rfl

/-- A machine check counts its total. -/
theorem counts_mceTotal (c : Collector) :
    Counts c { c with mceTotal := c.mceTotal + 1 } .mceTotal := by
  apply Counts.of_get
  intro m
  cases m <;> rfl

/-! ## The handler on a record -/

/-- Four bytes of the slice, read as an integer. -/
theorem uint32_of_slice {raw : GoSlice} {low : Nat} (h : low + 4 ≤ raw.bytes.length) :
    (raw.slice low (low + 4) >>= littleEndianUint32) =
      .ok (UInt32.ofNat (leNat (peek raw.bytes ⟨low, 4⟩))) := by
  have hbounds : low ≤ low + 4 ∧ low + 4 ≤ raw.bytes.length + raw.spare.length := by omega
  have hword : ((raw.bytes ++ raw.spare).drop low).take (low + 4 - low) =
      peek raw.bytes ⟨low, 4⟩ := by
    rw [Nat.add_sub_cancel_left]
    exact peek_append (s := ⟨low, 4⟩) h raw.spare
  have hlength : (peek raw.bytes ⟨low, 4⟩).length = 4 := by
    simp only [peek, List.length_take, List.length_drop]
    omega
  rw [GoSlice.slice, if_pos hbounds, hword]
  show littleEndianUint32 _ = _
  rw [littleEndianUint32, if_neg (by rw [hlength]; omega)]
  rw [List.take_of_length_le (le_of_eq hlength)]

variable {F : Type*} [DecidableEq F] {fields : Layout F}

/-- What the handler does with a value of any structure that begins with the type and the
severity, and the bytes `rest` behind it: it reads no further for an AER or MCE event. -/
theorem handleEvent_record (port : Port) (m : Image fields) {type severity : F}
    (htype : span fields type = ⟨0, 4⟩) (hseverity : span fields severity = ⟨4, 4⟩)
    (rest spare : List UInt8) (c : Collector) :
    handleEvent port ⟨m.bytes ++ rest, spare⟩ c = .ok
      (if UInt32.ofNat (m.readNat type) = ebpfEventTypeMC then
        if (m.bytes ++ rest).length < sizeof (mcEvent port) then c
        else countMC ((Image.zero (mcEvent port)).copyFrom (m.bytes ++ rest)) c
      else if UInt32.ofNat (m.readNat type) = ebpfEventTypeAER then
        countAER (UInt32.ofNat (m.readNat severity)) c
      else if UInt32.ofNat (m.readNat type) = ebpfEventTypeMCE then
        { c with mceTotal := c.mceTotal + 1 }
      else c) := by
  have hstop := m.stop_le severity
  have hlength : 8 ≤ (m.bytes ++ rest).length := by
    have hheader : 8 ≤ m.bytes.length := by simpa [hseverity, Span.stop] using hstop
    rw [List.length_append]
    exact Nat.le_add_right_of_le hheader
  have htypeWord : ((⟨m.bytes ++ rest, spare⟩ : GoSlice).slice 0 4 >>= littleEndianUint32) =
      .ok (UInt32.ofNat (m.readNat type)) := by
    have hlow : 0 + 4 ≤ (⟨m.bytes ++ rest, spare⟩ : GoSlice).bytes.length :=
      le_trans (by decide) hlength
    rw [uint32_of_slice hlow, ← htype, peek_append (m.stop_le type)]
    rfl
  have hseverityWord : ((⟨m.bytes ++ rest, spare⟩ : GoSlice).slice 4 8 >>= littleEndianUint32) =
      .ok (UInt32.ofNat (m.readNat severity)) := by
    have hlow : 4 + 4 ≤ (⟨m.bytes ++ rest, spare⟩ : GoSlice).bytes.length := hlength
    rw [uint32_of_slice hlow, ← hseverity, peek_append hstop]
    rfl
  have hlong : ¬ (m.bytes ++ rest).length < 4 := by omega
  rw [handleEvent, if_neg hlong]
  simp only [← bind_assoc, htypeWord, hseverityWord]
  rw [apply_ite Except.ok, apply_ite Except.ok, apply_ite Except.ok, apply_ite Except.ok]
  rfl

/-! ## Memory controller events -/

/-- The key under which a memory controller event belongs. -/
def McContext.key (ctx : McContext) : McKey := ⟨ctx.mcIndex, ctx.topLayer, ctx.midLayer⟩

/-- The counter to which a memory controller event belongs. -/
def McContext.counter (ctx : McContext) : Counter :=
  if ctx.errType = 2 then .mcUE ctx.key else .mcCE ctx.key

/-- The record that `trace_mc_event` submits from the reserved `memory` makes `handleEvent`
count it once, under its own counter. -/
def SubmittedCounted (port : Port) (ctx : McContext) (now : UInt64) (memory : Image mcEventT)
    (counters : Counters) (spare : List UInt8) (c : Collector) : Prop :=
  ∃ raw, (traceMcEvent ctx now (some memory) counters).1 = some raw ∧
    ∃ c', handleEvent port ⟨raw, spare⟩ c = .ok c' ∧ Counts c c' ctx.counter

/-- The fields with which both structures begin. -/
def mcHeader : Layout McField :=
  [(.type, u32), (.severity, u32), (.mc, u32), (.topLayer, u32), (.midLayer, u32),
    (.lowerLayer, u32)]

/-- The two structures place their first six fields alike. -/
theorem span_mcEvent (port : Port) {f : McField} (hf : f ∈ mcHeader.map Prod.fst) :
    span mcEventT f = span (mcEvent port) f := by
  cases port <;> exact span_of_prefix mcHeader hf _ _

/-- **The Go structure is longer**, on every port. -/
theorem sizeof_mcEvent (port : Port) : sizeof mcEventT < sizeof (mcEvent port) := by
  cases port <;> decide

example : sizeof mcEventT = 56 ∧ sizeof (mcEvent .bits32) = 60 ∧
    sizeof (mcEvent .bits64) = 64 := by decide

/-- The Go struct is at most eight bytes longer than the kernel's. -/
theorem sizeof_mcEvent_le (port : Port) : sizeof (mcEvent port) ≤ sizeof mcEventT + 8 := by
  cases port <;> decide

/-- The type word of a submitted memory controller event. -/
theorem type_fillMcEvent (ctx : McContext) (now : UInt64) (memory : Image mcEventT) :
    UInt32.ofNat ((fillMcEvent ctx now memory).readNat .type) = ebpfEventTypeMC := by
  rw [(fillMcEvent_fields ctx now memory).1]
  rfl

/-- **The silent return.**  A submitted memory controller event changes nothing. -/
theorem handleEvent_submitted_mc (port : Port) (ctx : McContext) (now : UInt64)
    (memory : Image mcEventT) (spare : List UInt8) (c : Collector) :
    handleEvent port ⟨(fillMcEvent ctx now memory).bytes, spare⟩ c = .ok c := by
  have hrecord := handleEvent_record port (fillMcEvent ctx now memory)
    span_mcEventT_type span_mcEventT_severity [] spare c
  have hshort : (fillMcEvent ctx now memory).bytes.length < sizeof (mcEvent port) := by
    rw [(fillMcEvent ctx now memory).length_eq]
    exact sizeof_mcEvent port
  rw [List.append_nil, type_fillMcEvent, if_pos rfl, if_pos hshort] at hrecord
  exact hrecord

/-- The severity word of a submitted event is that of an uncorrected error exactly for
`err_type` 2. -/
theorem severity_fillMcEvent (ctx : McContext) (now : UInt64) (memory : Image mcEventT) :
    UInt32.ofNat ((fillMcEvent ctx now memory).readNat .severity) = ebpfSeverityUE ↔
      ctx.errType = 2 := by
  rw [(fillMcEvent_fields ctx now memory).2.1]
  by_cases h : ctx.errType = 2
  · rw [if_pos h]
    exact ⟨fun _ => h, fun _ => rfl⟩
  · rw [if_neg h]
    exact ⟨fun hce => absurd hce (by decide), fun hue => absurd hue h⟩

/-- **Only the size is wrong.**  With eight bytes behind it the record is counted once,
under the key and the severity of its event. -/
theorem padded_mc_event_counted (port : Port) (ctx : McContext) (now : UInt64)
    (memory : Image mcEventT) {rest : List UInt8} (hrest : 8 ≤ rest.length)
    (spare : List UInt8) (c : Collector) :
    ∃ c', handleEvent port ⟨(fillMcEvent ctx now memory).bytes ++ rest, spare⟩ c = .ok c' ∧
      Counts c c' ctx.counter := by
  have hrecord := handleEvent_record port (fillMcEvent ctx now memory)
    span_mcEventT_type span_mcEventT_severity rest spare c
  have hfits : sizeof (mcEvent port) ≤
      ((fillMcEvent ctx now memory).bytes ++ rest).length := by
    have hle := sizeof_mcEvent_le port
    rw [List.length_append, (fillMcEvent ctx now memory).length_eq]
    omega
  rw [type_fillMcEvent, if_pos rfl, if_neg (by omega)] at hrecord
  refine ⟨_, hrecord, ?_⟩
  have hread : ∀ f ∈ mcHeader.map Prod.fst,
      ((Image.zero (mcEvent port)).copyFrom
        ((fillMcEvent ctx now memory).bytes ++ rest)).readNat f =
      (fillMcEvent ctx now memory).readNat f := fun f hf =>
    Image.readNat_copyFrom _ _ (span_mcEvent port hf) rest hfits
  have hcounts := counts_countMC ((Image.zero (mcEvent port)).copyFrom
    ((fillMcEvent ctx now memory).bytes ++ rest)) c
  obtain ⟨-, -, hmc, htop, hmid⟩ := fillMcEvent_fields ctx now memory
  rw [hread .severity (by decide), hread .mc (by decide), hread .topLayer (by decide),
    hread .midLayer (by decide), hmc, htop, hmid] at hcounts
  simpa only [mcCounter, severity_fillMcEvent, UInt32.ofNat_toNat, McContext.counter,
    McContext.key] using hcounts

/-- A change of a counter is a change. -/
theorem not_counts_self (c : Collector) (n : Counter) : ¬ Counts c c n := by
  intro h
  have hnat : (c.get n).toNat = ((c.get n).toNat + 1) % 2 ^ 64 := by
    conv_lhs => rw [h.1, UInt64.toNat_add]
    rfl
  have hlt := (c.get n).toNat_lt
  omega

/-! ## Runs of the tracepoints -/

/-- A hit of a tracepoint, with the clock and the memory reserved for it, if any. -/
inductive Hit
  | mc (ctx : McContext) (now : UInt64) (reserved : Option (Image mcEventT))
  | aer (ctx : AerContext) (now : UInt64) (reserved : Option (Image aerEventT))
  | mce (ctx : MceContext) (now : UInt64) (reserved : Option (Image mceEventT))

/-- The program of the tracepoint. -/
def Hit.trace : Hit → Counters → Option (List UInt8) × Counters
  | .mc ctx now reserved => traceMcEvent ctx now reserved
  | .aer ctx now reserved => traceAerEvent ctx now reserved
  | .mce ctx now reserved => traceMceRecord ctx now reserved

/-- The records of a run of hits, in their order, and the counters of the kernel. -/
def traceAll : List Hit → Counters → List (List UInt8) × Counters
  | [], counters => ([], counters)
  | hit :: hits, counters =>
      let (record, counters) := hit.trace counters
      let (records, counters) := traceAll hits counters
      (record.toList ++ records, counters)

/-- The slices of a run, handled one after the other. -/
def handleEvents (port : Port) (raws : List GoSlice) (c : Collector) :
    Except GoPanic Collector :=
  raws.foldlM (fun c raw => handleEvent port raw c) c

/-- The counter to which a hit belongs. -/
def Hit.counter : Hit → Counter
  | .mc ctx _ _ => ctx.counter
  | .aer ctx _ _ => aerCounter (UInt32.ofNat (aerSeverity (probeReadStr 16 ctx.errorSeverity)))
  | .mce _ _ _ => .mceTotal

/-- The ring buffer had room for the record of a hit. -/
def Hit.submitted : Hit → Bool
  | .mc _ _ reserved => reserved.isSome
  | .aer _ _ reserved => reserved.isSome
  | .mce _ _ reserved => reserved.isSome

/-- The number of submitted hits that belong to the counter `n`. -/
def submittedTo (n : Counter) (hits : List Hit) : Nat :=
  hits.countP fun hit => hit.submitted && hit.counter = n

/-- The submitted records of a counter, with one more hit. -/
theorem submittedTo_cons (n : Counter) (hit : Hit) (hits : List Hit) :
    submittedTo n (hit :: hits) =
      submittedTo n hits + if hit.submitted = true ∧ hit.counter = n then 1 else 0 := by
  rw [submittedTo, submittedTo, List.countP_cons]
  congr 1
  simp

/-- A memory controller's hit is counted as one. -/
theorem isMC_counter (ctx : McContext) : ctx.counter.IsMC := by
  unfold McContext.counter
  split <;> exact trivial

/-- A PCIe counter is none of a memory controller. -/
theorem not_isMC_aerCounter (sev : UInt32) : ¬ (aerCounter sev).IsMC := by
  unfold aerCounter
  split
  · exact id
  · split <;> exact id

/-- What the record of a hit does: one more of its counter, if that is not the counter of
a memory controller event. -/
theorem handleEvent_hit (port : Port) {hit : Hit} {counters : Counters} {raw : GoSlice}
    (hraw : (hit.trace counters).1 = some raw.bytes) (c : Collector) :
    ∃ c', handleEvent port raw c = .ok c' ∧
      ∀ n, c'.get n = if hit.counter = n ∧ ¬ n.IsMC then c.get n + 1 else c.get n := by
  obtain ⟨bytes, spare⟩ := raw
  have hcounted : ∀ {c' : Collector}, Counts c c' hit.counter → ¬ hit.counter.IsMC →
      ∀ n, c'.get n = if hit.counter = n ∧ ¬ n.IsMC then c.get n + 1 else c.get n := by
    intro c' hcounts hmc n
    rw [hcounts.get n]
    by_cases hn : hit.counter = n
    · rw [if_pos hn, if_pos ⟨hn, hn ▸ hmc⟩]
    · rw [if_neg hn, if_neg (fun h => hn h.1)]
  rcases hit with ⟨ctx, now, _ | memory⟩ | ⟨ctx, now, _ | memory⟩ | ⟨ctx, now, _ | memory⟩
  · cases hraw
  · have hbytes : (fillMcEvent ctx now memory).bytes = bytes := Option.some.inj hraw
    have hdropped := handleEvent_submitted_mc port ctx now memory spare c
    rw [hbytes] at hdropped
    refine ⟨c, hdropped, ?_⟩
    intro n
    have hmc : ¬ (ctx.counter = n ∧ ¬ n.IsMC) := fun h => h.2 (h.1 ▸ isMC_counter ctx)
    exact (if_neg hmc).symm
  · cases hraw
  · have hbytes : (fillAerEvent ctx now memory).bytes = bytes := Option.some.inj hraw
    have hrecord := handleEvent_record port (fillAerEvent ctx now memory)
      span_aerEventT_type span_aerEventT_severity [] spare c
    obtain ⟨htype, hsev⟩ := fillAerEvent_fields ctx now memory
    rw [List.append_nil, hbytes, htype, hsev, if_neg (by decide), if_pos (by decide)] at hrecord
    exact ⟨_, hrecord, hcounted (counts_countAER _ c) (not_isMC_aerCounter _)⟩
  · cases hraw
  · have hbytes : (fillMceEvent ctx now memory).bytes = bytes := Option.some.inj hraw
    have hrecord := handleEvent_record port (fillMceEvent ctx now memory)
      span_mceEventT_type span_mceEventT_severity [] spare c
    rw [List.append_nil, hbytes, fillMceEvent_type, if_neg (by decide), if_neg (by decide),
      if_pos (by decide)] at hrecord
    exact ⟨_, hrecord, hcounted (counts_mceTotal c) id⟩

/-- Without room for its record a program leaves everything as it is. -/
theorem Hit.trace_not_submitted {hit : Hit} (h : hit.submitted = false) (counters : Counters) :
    hit.trace counters = (none, counters) := by
  rcases hit with ⟨ctx, now, _ | memory⟩ | ⟨ctx, now, _ | memory⟩ | ⟨ctx, now, _ | memory⟩ <;>
    first | rfl | cases h

/-- A submitted hit has a record. -/
theorem Hit.trace_submitted {hit : Hit} (h : hit.submitted = true) (counters : Counters) :
    ∃ record, (hit.trace counters).1 = some record := by
  rcases hit with ⟨ctx, now, _ | memory⟩ | ⟨ctx, now, _ | memory⟩ | ⟨ctx, now, _ | memory⟩ <;>
    first | exact ⟨_, rfl⟩ | cases h

/-- **Runs.**  Whatever the hits and whenever the ring buffer is full, the handler panics on
no record; every submitted PCIe or machine check event is counted once, modulo the width
of the counters, and no memory controller event is. -/
theorem handleEvents_counts (port : Port) (hits : List Hit) (counters : Counters)
    (raws : List GoSlice) (hraws : raws.map GoSlice.bytes = (traceAll hits counters).1)
    (c : Collector) :
    ∃ c', handleEvents port raws c = .ok c' ∧ (∀ n, n.IsMC → c'.get n = c.get n) ∧
      ∀ n, ¬ n.IsMC → c'.get n = c.get n + UInt64.ofNat (submittedTo n hits) := by
  induction hits generalizing counters raws c with
  | nil =>
      obtain rfl := List.map_eq_nil_iff.mp hraws
      exact ⟨c, rfl, fun _ _ => rfl, fun n _ => (UInt64.add_zero _).symm⟩
  | cons hit hits ih =>
      cases hroom : hit.submitted with
      | false =>
          have hnone := Hit.trace_not_submitted hroom counters
          have hlater : raws.map GoSlice.bytes = (traceAll hits counters).1 := by
            rw [hraws, traceAll, hnone]
            rfl
          have hcount : ∀ n, submittedTo n (hit :: hits) = submittedTo n hits := by
            intro n
            rw [submittedTo_cons, if_neg (by simp [hroom]), Nat.add_zero]
          simpa only [hcount] using ih counters raws hlater c
      | true =>
          obtain ⟨record, hrecord⟩ := Hit.trace_submitted hroom counters
          obtain ⟨raw, later, rfl, hraw, hlater⟩ : ∃ raw later, raws = raw :: later ∧
              raw.bytes = record ∧
              later.map GoSlice.bytes = (traceAll hits (hit.trace counters).2).1 := by
            have hcons : (traceAll (hit :: hits) counters).1 =
                record :: (traceAll hits (hit.trace counters).2).1 := by
              simp only [traceAll, hrecord]
              rfl
            rw [hcons] at hraws
            exact List.map_eq_cons_iff.mp hraws
          obtain ⟨c₁, hone, hget⟩ :=
            handleEvent_hit port (hrecord.trans (congrArg some hraw.symm)) c
          obtain ⟨c', hrun, hmc, hother⟩ := ih _ later hlater c₁
          refine ⟨c', ?_, ?_, ?_⟩
          · rw [handleEvents, List.foldlM_cons, hone]
            exact hrun
          · intro n hn
            rw [hmc n hn, hget n, if_neg (fun h => h.2 hn)]
          · intro n hn
            rw [hother n hn, hget n, submittedTo_cons]
            by_cases hhit : hit.counter = n
            · rw [if_pos ⟨hhit, hn⟩, if_pos ⟨hroom, hhit⟩, UInt64.ofNat_add, UInt64.add_assoc,
                UInt64.add_comm 1]
              rfl
            · rw [if_neg (fun h => hhit h.1), if_neg (fun h => hhit h.2), Nat.add_zero]

/-- **No submitted memory controller event is counted**, whatever its fields, the memory it
was written to and the state of the collector. -/
theorem submitted_mc_event_lost (port : Port) (ctx : McContext) (now : UInt64)
    (memory : Image mcEventT) (counters : Counters) (spare : List UInt8) (c : Collector) :
    ¬ SubmittedCounted port ctx now memory counters spare c := by
  rintro ⟨raw, hraw, c', hc', hcounts⟩
  have hbytes : (fillMcEvent ctx now memory).bytes = raw := Option.some.inj hraw
  rw [← hbytes, handleEvent_submitted_mc] at hc'
  rw [← Except.ok.inj hc'] at hcounts
  exact not_counts_self c ctx.counter hcounts

/-- An uncorrected error of memory controller 0. -/
def uncorrectedError : McContext where
  errType := 2
  msg := some [85, 69, 0]
  mcIndex := 0
  topLayer := 0
  midLayer := 0
  lowerLayer := 0
  address := 4096

/-- The record of an uncorrected error is dropped by the reader. -/
theorem uncorrected_error_not_counted :
    ∃ raw, (traceMcEvent uncorrectedError 1 (some (Image.zero mcEventT)) []).1 = some raw ∧
      raw.length = 56 ∧ handleEvent .bits64 ⟨raw, []⟩ newCollector = .ok newCollector ∧
      ¬ SubmittedCounted .bits64 uncorrectedError 1 (Image.zero mcEventT) [] []
        newCollector := by
  have hsame := handleEvent_submitted_mc .bits64 uncorrectedError 1 (Image.zero mcEventT) []
    newCollector
  refine ⟨_, rfl, (fillMcEvent uncorrectedError 1 (Image.zero mcEventT)).length_eq, hsame, ?_⟩
  rintro ⟨raw, hraw, c', hc', hcounts⟩
  rw [← Option.some.inj hraw, hsame] at hc'
  rw [← Except.ok.inj hc'] at hcounts
  exact not_counts_self _ _ hcounts

end FaultOracle.Ebpf
