import FaultOracle.InsertionDict
import FaultOracle.StructLayout

/-!
# The tracepoint programs of `ebpf/edac_trace.bpf.c`

Each program reserves a record in the ring buffer, fills it and submits its bytes.  The
memory of a reserved record is whatever it was before, and a full ring buffer reserves
nothing: both come from the environment, as do the fields of the tracepoint and the
clock.
-/

namespace FaultOracle.Ebpf

open StructLayout

def eventTypeMc : Nat := 1
def eventTypeAer : Nat := 2
def eventTypeMce : Nat := 3

def severityCe : Nat := 0
def severityUe : Nat := 1
def severityFatal : Nat := 2

/-! ## Event structures sent to userspace -/

def u32 : FieldType := ⟨4, 4, Nat.succ_pos 3⟩
def u64 : FieldType := ⟨8, 8, Nat.succ_pos 7⟩
def chars (n : Nat) : FieldType := ⟨n, 1, Nat.one_pos⟩

/-- The fields of a memory controller event; `pad` is in the Go structure only. -/
inductive McField
  | type | severity | mc | topLayer | midLayer | lowerLayer | pad | address | timestampNs
  | errorType
deriving DecidableEq, Repr

/-- `struct mc_event_t`. -/
def mcEventT : Layout McField :=
  [(.type, u32), (.severity, u32), (.mc, u32), (.topLayer, u32), (.midLayer, u32),
    (.lowerLayer, u32), (.address, u64), (.timestampNs, u64), (.errorType, chars 16)]

inductive AerField
  | type | severity | devName | errorType | timestampNs
deriving DecidableEq, Repr

/-- `struct aer_event_t`. -/
def aerEventT : Layout AerField :=
  [(.type, u32), (.severity, u32), (.devName, chars 16), (.errorType, chars 32),
    (.timestampNs, u64)]

inductive MceField
  | type | severity | status | addr | timestampNs
deriving DecidableEq, Repr

/-- `struct mce_event_t`. -/
def mceEventT : Layout MceField :=
  [(.type, u32), (.severity, u32), (.status, u64), (.addr, u64), (.timestampNs, u64)]

/-- The place of the type in a memory controller's record. -/
theorem span_mcEventT_type : span mcEventT .type = ⟨0, 4⟩ := by decide
/-- The place of the severity in a memory controller's record. -/
theorem span_mcEventT_severity : span mcEventT .severity = ⟨4, 4⟩ := by decide
/-- The place of the type in a PCIe record. -/
theorem span_aerEventT_type : span aerEventT .type = ⟨0, 4⟩ := by decide
/-- The place of the severity in a PCIe record. -/
theorem span_aerEventT_severity : span aerEventT .severity = ⟨4, 4⟩ := by decide
/-- The place of the type in a machine check's record. -/
theorem span_mceEventT_type : span mceEventT .type = ⟨0, 4⟩ := by decide
/-- The place of the severity in a machine check's record. -/
theorem span_mceEventT_severity : span mceEventT .severity = ⟨4, 4⟩ := by decide

/-! ## Helpers of the kernel -/

/-- What `bpf_probe_read_str` writes to a buffer of `size` bytes: the string up to its
NUL, cut to fit, or zeros when the address faults. -/
def probeReadStr (size : Nat) : Option (List UInt8) → List UInt8
  | none => List.replicate size 0
  | some memory => (memory.take (size - 1)).takeWhile (· ≠ 0) ++ [0]

structure CounterKey where
  type : Nat
  severity : Nat
  mc : Nat
deriving DecidableEq, Repr

/-- The hash map `counters`. -/
abbrev Counters := List (CounterKey × UInt64)

def countersMaxEntries : Nat := 256

/-- `increment_counter`, by one program at a time.  A full map takes no new key. -/
def incrementCounter (type severity mc : Nat) (counters : Counters) : Counters :=
  let k : CounterKey := ⟨type, severity, mc⟩
  match counters.lookup k with
  | some val => InsertionDict.setItem k (val + 1) counters
  | none => if counters.length < countersMaxEntries then counters ++ [(k, 1)] else counters

/-! ## `ras:mc_event` -/

/-- The fields of `struct trace_event_raw_ras_mc_event` that the program reads; `msg` is
the memory it points to. -/
structure McContext where
  errType : UInt32
  msg : Option (List UInt8)
  mcIndex : UInt32
  topLayer : UInt32
  midLayer : UInt32
  lowerLayer : UInt32
  address : UInt64

/-- The assignments to `evt`. -/
def fillMcEvent (ctx : McContext) (now : UInt64) (evt : Image mcEventT) : Image mcEventT :=
  let evt := evt.writeNat .type eventTypeMc
  let evt := evt.writeNat .mc ctx.mcIndex.toNat
  let evt := evt.writeNat .topLayer ctx.topLayer.toNat
  let evt := evt.writeNat .midLayer ctx.midLayer.toNat
  let evt := evt.writeNat .lowerLayer ctx.lowerLayer.toNat
  let evt := evt.writeNat .address ctx.address.toNat
  let evt := evt.writeNat .timestampNs now.toNat
  -- err_type: 1=CE, 2=UE
  let evt := evt.writeNat .severity (if ctx.errType = 2 then severityUe else severityCe)
  evt.write .errorType (probeReadStr 16 ctx.msg)

/-- `trace_mc_event`: the bytes it submits, if any, and the counters. -/
def traceMcEvent (ctx : McContext) (now : UInt64) (reserved : Option (Image mcEventT))
    (counters : Counters) : Option (List UInt8) × Counters :=
  match reserved with
  | none => (none, counters)
  | some memory =>
      let evt := fillMcEvent ctx now memory
      (some evt.bytes,
        incrementCounter eventTypeMc (evt.readNat .severity) (evt.readNat .mc) counters)

/-! ## `ras:aer_event` -/

structure AerContext where
  devName : Option (List UInt8)
  errorType : Option (List UInt8)
  errorSeverity : Option (List UInt8)

/-- The severity by the first letter: "Correctable", "Fatal", anything else. -/
def aerSeverity (sev : List UInt8) : Nat :=
  if sev.head? = some 67 then severityCe
  else if sev.head? = some 70 then severityFatal
  else severityUe

def fillAerEvent (ctx : AerContext) (now : UInt64) (evt : Image aerEventT) : Image aerEventT :=
  let evt := evt.writeNat .type eventTypeAer
  let evt := evt.writeNat .timestampNs now.toNat
  let evt := evt.write .devName (probeReadStr 16 ctx.devName)
  let evt := evt.write .errorType (probeReadStr 32 ctx.errorType)
  evt.writeNat .severity (aerSeverity (probeReadStr 16 ctx.errorSeverity))

/-- `trace_aer_event`. -/
def traceAerEvent (ctx : AerContext) (now : UInt64) (reserved : Option (Image aerEventT))
    (counters : Counters) : Option (List UInt8) × Counters :=
  match reserved with
  | none => (none, counters)
  | some memory =>
      let evt := fillAerEvent ctx now memory
      (some evt.bytes, incrementCounter eventTypeAer (evt.readNat .severity) 0 counters)

/-! ## `ras:mce_record` -/

structure MceContext where
  status : UInt64
  addr : UInt64

def fillMceEvent (ctx : MceContext) (now : UInt64) (evt : Image mceEventT) : Image mceEventT :=
  let evt := evt.writeNat .type eventTypeMce
  let evt := evt.writeNat .status ctx.status.toNat
  let evt := evt.writeNat .addr ctx.addr.toNat
  let evt := evt.writeNat .timestampNs now.toNat
  evt.writeNat .severity severityUe

/-- `trace_mce_record`. -/
def traceMceRecord (ctx : MceContext) (now : UInt64) (reserved : Option (Image mceEventT))
    (counters : Counters) : Option (List UInt8) × Counters :=
  match reserved with
  | none => (none, counters)
  | some memory =>
      let evt := fillMceEvent ctx now memory
      (some evt.bytes, incrementCounter eventTypeMce severityUe 0 counters)

/-! ## What a filled record holds -/

section Records

open Image

/-- A word fits its field of four bytes. -/
theorem word_mod (n : UInt32) : n.toNat % 256 ^ 4 = n.toNat :=
  Nat.mod_eq_of_lt n.toNat_lt

/-- The fields of a submitted memory controller event are those of the tracepoint,
whatever was in its memory. -/
theorem fillMcEvent_fields (ctx : McContext) (now : UInt64) (memory : Image mcEventT) :
    (fillMcEvent ctx now memory).readNat .type = eventTypeMc ∧
      (fillMcEvent ctx now memory).readNat .severity =
        (if ctx.errType = 2 then severityUe else severityCe) ∧
      (fillMcEvent ctx now memory).readNat .mc = ctx.mcIndex.toNat ∧
      (fillMcEvent ctx now memory).readNat .topLayer = ctx.topLayer.toNat ∧
      (fillMcEvent ctx now memory).readNat .midLayer = ctx.midLayer.toNat := by
  have hsize : ∀ f ∈ [McField.type, .severity, .mc, .topLayer, .midLayer],
      (span mcEventT f).size = 4 := by decide
  have hseverity : (if ctx.errType = 2 then severityUe else severityCe) % 256 ^ 4 =
      if ctx.errType = 2 then severityUe else severityCe := by
    split <;> rfl
  simp only [List.forall_mem_cons] at hsize
  obtain ⟨htype, hsev, hmc, htop, hmid, -⟩ := hsize
  simp only [fillMcEvent]
  -- each field keeps what the last write to it put there
  refine ⟨?_, ?_, ?_, ?_, ?_⟩ <;>
    simp only [ne_eq, reduceCtorEq, not_false_eq_true, readNat_write_ne, readNat_writeNat_ne,
      readNat_writeNat_same, htype, hsev, hmc, htop, hmid, word_mod, hseverity]
  rfl

/-- A PCIe severity has 32 bits. -/
theorem aerSeverity_lt (sev : List UInt8) : aerSeverity sev < 256 ^ 4 := by
  unfold aerSeverity
  split
  · decide
  · split <;> decide

/-- What the probe writes into a PCIe record. -/
theorem fillAerEvent_fields (ctx : AerContext) (now : UInt64) (memory : Image aerEventT) :
    (fillAerEvent ctx now memory).readNat .type = eventTypeAer ∧
      (fillAerEvent ctx now memory).readNat .severity =
        aerSeverity (probeReadStr 16 ctx.errorSeverity) := by
  have htype : (span aerEventT .type).size = 4 := by decide
  have hsev : (span aerEventT .severity).size = 4 := by decide
  have hmod := Nat.mod_eq_of_lt (aerSeverity_lt (probeReadStr 16 ctx.errorSeverity))
  simp only [fillAerEvent]
  constructor
  · simp only [ne_eq, reduceCtorEq, not_false_eq_true, readNat_write_ne, readNat_writeNat_ne,
      readNat_writeNat_same, htype]
    rfl
  · rw [readNat_writeNat_same, hsev, hmod]

/-- The probe writes the type of a machine check. -/
theorem fillMceEvent_type (ctx : MceContext) (now : UInt64) (memory : Image mceEventT) :
    (fillMceEvent ctx now memory).readNat .type = eventTypeMce := by
  have htype : (span mceEventT .type).size = 4 := by decide
  simp only [fillMceEvent, ne_eq, reduceCtorEq, not_false_eq_true, readNat_writeNat_ne,
    readNat_writeNat_same, htype]
  rfl

end Records

end FaultOracle.Ebpf
