import FaultOracle.EbpfEdac

/-!
# Records of any length

What `handleEvent` makes of an arbitrary slice of bytes.  The branch of a memory controller
event checks that the record is long enough for what it reads, and that of a machine check
event reads nothing.  The branch of a PCIe event slices `raw[4:8]` without a check of its
own.  On a shorter record that is a panic, unless the capacity of the slice reaches so far;
then bytes that are not part of the record decide which counter goes up.
-/

namespace FaultOracle.Ebpf

open StructLayout

/-- The first four bytes of a record. -/
def typeWord (raw : GoSlice) : UInt32 := UInt32.ofNat (leNat (peek raw.bytes ⟨0, 4⟩))

/-- The bytes which the branch of an event type reads, with the type itself. -/
def extent (port : Port) (evType : UInt32) : Option Nat :=
  if evType = ebpfEventTypeMC then some (sizeof (mcEvent port))
  else if evType = ebpfEventTypeAER then some 8
  else if evType = ebpfEventTypeMCE then some 4
  else none

/-- A record of an unknown type, or too short for what its type makes the handler read. -/
def Malformed (port : Port) (raw : GoSlice) : Prop :=
  raw.bytes.length < 4 ∨ ∀ n ∈ extent port (typeWord raw), raw.bytes.length < n

/-- The handler returns, and a malformed record changes no counter. -/
def HandledSafely (port : Port) (raw : GoSlice) (c : Collector) : Prop :=
  ∃ c', handleEvent port raw c = .ok c' ∧ (Malformed port raw → ∀ n, c'.get n = c.get n)

/-- A PCIe event that ends before its severity does. -/
def CutBeforeSeverity (raw : GoSlice) : Prop :=
  4 ≤ raw.bytes.length ∧ raw.bytes.length < 8 ∧ typeWord raw = ebpfEventTypeAER

instance (raw : GoSlice) : Decidable (CutBeforeSeverity raw) :=
  inferInstanceAs (Decidable (_ ∧ _))

variable {port : Port} {raw : GoSlice} {c : Collector}

/-- The handler on a record that has a type. -/
theorem handleEvent_typed (port : Port) (c : Collector) (h : 4 ≤ raw.bytes.length) :
    handleEvent port raw c =
      if typeWord raw = ebpfEventTypeMC then
        .ok (if raw.bytes.length < sizeof (mcEvent port) then c
          else countMC ((Image.zero (mcEvent port)).copyFrom raw.bytes) c)
      else if typeWord raw = ebpfEventTypeAER then
        (raw.slice 4 8 >>= littleEndianUint32) >>= fun sev => .ok (countAER sev c)
      else .ok (if typeWord raw = ebpfEventTypeMCE then { c with mceTotal := c.mceTotal + 1 }
        else c) := by
  have htype : (raw.slice 0 4 >>= littleEndianUint32) = .ok (typeWord raw) :=
    uint32_of_slice h
  have hlong : ¬ raw.bytes.length < 4 := Nat.not_lt.mpr h
  rw [handleEvent, if_neg hlong]
  simp only [← bind_assoc, htype]
  show (if typeWord raw = ebpfEventTypeMC then _ else _) = _
  rw [apply_ite Except.ok, apply_ite Except.ok]
  rfl

/-- The severity is read where the record reaches so far. -/
theorem handleEvent_aer (port : Port) (c : Collector) (htype : typeWord raw = ebpfEventTypeAER)
    (h : 8 ≤ raw.bytes.length) :
    ∃ sev, handleEvent port raw c = .ok (countAER sev c) := by
  have hsev : (raw.slice 4 8 >>= littleEndianUint32) =
      .ok (UInt32.ofNat (leNat (peek raw.bytes ⟨4, 4⟩))) := uint32_of_slice h
  refine ⟨UInt32.ofNat (leNat (peek raw.bytes ⟨4, 4⟩)), ?_⟩
  rw [handleEvent_typed port c (le_trans (by decide) h), htype, if_neg (by decide), if_pos rfl,
    hsev]
  rfl

/-- Of a record that is cut before its severity, the handler panics or counts something. -/
theorem handleEvent_cut (port : Port) (c : Collector) (hcut : CutBeforeSeverity raw) :
    (∃ sev, handleEvent port raw c = .ok (countAER sev c)) ∨
      ∃ panic, handleEvent port raw c = .error panic := by
  obtain ⟨hfour, -, htype⟩ := hcut
  have haer : handleEvent port raw c =
      (raw.slice 4 8 >>= littleEndianUint32) >>= fun sev => .ok (countAER sev c) := by
    rw [handleEvent_typed port c hfour, htype, if_neg (by decide), if_pos rfl]
  cases hsev : raw.slice 4 8 >>= littleEndianUint32 with
  | error panic => exact Or.inr ⟨panic, by rw [haer, hsev]; rfl⟩
  | ok sev => exact Or.inl ⟨sev, by rw [haer, hsev]; rfl⟩

/-- Without room behind it, such a record stops the exporter. -/
theorem handleEvent_panics (hcut : CutBeforeSeverity raw)
    (hcap : raw.bytes.length + raw.spare.length < 8) :
    handleEvent port raw c = .error .sliceBounds := by
  have hbounds : ¬ (4 ≤ 8 ∧ 8 ≤ raw.bytes.length + raw.spare.length) := by omega
  rw [handleEvent_typed port c hcut.1, hcut.2.2, if_neg (by decide), if_pos rfl, GoSlice.slice,
    if_neg hbounds]
  rfl

/-- A counter that went up did change. -/
theorem Counts.ne {c c' : Collector} {n : Counter} (h : Counts c c' n) : c'.get n ≠ c.get n := by
  intro hsame
  have hnat := congrArg UInt64.toNat (hsame.symm.trans h.1)
  rw [UInt64.toNat_add] at hnat
  have hlt := (c.get n).toNat_lt
  have hone : (1 : UInt64).toNat = 1 := rfl
  omega

theorem handled_of_unchanged (h : handleEvent port raw c = .ok c) : HandledSafely port raw c :=
  ⟨c, h, fun _ _ => rfl⟩

theorem handled_of_whole {c' : Collector} (h : handleEvent port raw c = .ok c')
    (hwhole : ¬ Malformed port raw) : HandledSafely port raw c :=
  ⟨c', h, fun hmalformed => absurd hmalformed hwhole⟩

/-- A record that is long enough for what its type makes the handler read. -/
theorem not_malformed {n : Nat} (hextent : extent port (typeWord raw) = some n)
    (hfour : 4 ≤ raw.bytes.length) (hn : n ≤ raw.bytes.length) : ¬ Malformed port raw := by
  intro h
  rcases h with hshort | hshort
  · omega
  · have hlt := hshort n hextent
    omega

/-- **Records of any length.**  The handler returns and leaves the counters alone on
malformed records, if and only if the record is not a PCIe event that ends before its
severity does. -/
theorem handled_safely_iff (port : Port) (raw : GoSlice) (c : Collector) :
    HandledSafely port raw c ↔ ¬ CutBeforeSeverity raw := by
  constructor
  · intro ⟨c', hc', hquiet⟩ hcut
    have hmalformed : Malformed port raw := by
      right
      rw [hcut.2.2]
      intro n hn
      obtain rfl : 8 = n := Option.some.inj hn
      exact hcut.2.1
    rcases handleEvent_cut port c hcut with ⟨sev, hsev⟩ | ⟨panic, hpanic⟩
    · obtain rfl : countAER sev c = c' := Except.ok.inj (hsev.symm.trans hc')
      exact (counts_countAER sev c).ne (hquiet hmalformed _)
    · rw [hpanic] at hc'
      cases hc'
  · intro hcut
    by_cases hfour : 4 ≤ raw.bytes.length
    · have htyped := handleEvent_typed port c hfour
      by_cases hmc : typeWord raw = ebpfEventTypeMC
      · rw [if_pos hmc] at htyped
        by_cases hshort : raw.bytes.length < sizeof (mcEvent port)
        · rw [if_pos hshort] at htyped
          exact handled_of_unchanged htyped
        · refine handled_of_whole htyped (not_malformed ?_ hfour (Nat.not_lt.mp hshort))
          rw [hmc, extent, if_pos rfl]
      · rw [if_neg hmc] at htyped
        by_cases haer : typeWord raw = ebpfEventTypeAER
        · have height : 8 ≤ raw.bytes.length := by
            by_contra hlt
            exact hcut ⟨hfour, Nat.not_le.mp hlt, haer⟩
          obtain ⟨sev, hsev⟩ := handleEvent_aer port c haer height
          refine handled_of_whole hsev (not_malformed ?_ hfour height)
          rw [haer]
          rfl
        · rw [if_neg haer] at htyped
          by_cases hmce : typeWord raw = ebpfEventTypeMCE
          · refine handled_of_whole htyped (not_malformed ?_ hfour hfour)
            rw [hmce]
            rfl
          · rw [if_neg hmce] at htyped
            exact handled_of_unchanged htyped
    · apply handled_of_unchanged
      rw [handleEvent, if_pos (Nat.not_le.mp hfour)]

/-- A PCIe event that was cut behind its type. -/
def cutRecord : GoSlice := ⟨[2, 0, 0, 0], []⟩

theorem cut_record_panics :
    handleEvent .bits64 cutRecord newCollector = .error .sliceBounds ∧
      ¬ HandledSafely .bits64 cutRecord newCollector := by
  have hpanic : handleEvent .bits64 cutRecord newCollector = .error .sliceBounds := rfl
  refine ⟨hpanic, ?_⟩
  intro ⟨c', hc', _⟩
  rw [hpanic] at hc'
  cases hc'

end FaultOracle.Ebpf
