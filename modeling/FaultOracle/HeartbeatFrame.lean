import FaultOracle.CyclicRedundancy
import Mathlib.Algebra.Order.Ring.Int
import Mathlib.Tactic.Positivity

/-!
# Heartbeat frames

`crc8` and `build_frame` of `network-resilience/oob-heartbeat.py`.  The loop over the bits
of a byte is eight shifts of a register of eight bits under the generator
`x ^ 8 + 0x31` (`crc8_eq_residue`), so what the check finds is what the cyclic redundancy
check finds: the lowest bit of `0x31` is set, and it has an odd number of bits.
-/

namespace FaultOracle.Heartbeat

/-! ## The check -/

/-- One turn of the loop over the bits of a byte. -/
def crcBit (crc : Nat) : Nat :=
  (if crc &&& 0x80 ≠ 0 then (crc <<< 1) ^^^ 0x31 else crc <<< 1) &&& 0xFF

def crcByte (crc : Nat) (byte : UInt8) : Nat := crcBit^[8] (crc ^^^ byte.toNat)

def crc8 (data : List UInt8) : Nat := data.foldl crcByte 0x00

example : crc8 [0xAA, 0x55, 0x00, 0x00, 0x0F, 0x00, 0xFF] = 0x7B := by decide +kernel

/-- The last byte is the check of those before it. -/
def Accepted (word : List UInt8) : Prop :=
  word.getLast?.map UInt8.toNat = some (crc8 word.dropLast)

instance (word : List UInt8) : Decidable (Accepted word) :=
  inferInstanceAs (Decidable (_ = _))

/-! ## Frames -/

/-- `n & (2 ** k - 1)`. -/
def lowBits (n : Int) (k : Nat) : Int := n % 2 ^ k

/-- `bytes(values)`; a value outside `range(256)` is a `ValueError`. -/
def toBytes (values : List Int) : Option (List UInt8) :=
  values.mapM fun v => if 0 ≤ v ∧ v < 256 then some (UInt8.ofNat v.toNat) else none

def buildFrame (seq statusFlags cpuLoad : Int) : Option (List UInt8) := do
  let seq := lowBits seq 16
  let cpuLoad := max 0 (min 100 cpuLoad)
  let payload ← toBytes
    [0xAA, 0x55, lowBits (seq >>> (8 : Nat)) 8, lowBits seq 8, lowBits statusFlags 8, cpuLoad, 0xFF]
  let checksum ← toBytes [crc8 payload]
  return payload ++ checksum

example : buildFrame (-1) 0x10F 250 =
    some [0xAA, 0x55, 0xFF, 0xFF, 0x0F, 100, 0xFF, 0xE9] := by decide +kernel

/-! ## The check as a remainder -/

/-- The generator, without `x ^ 8`. -/
def generator : BitVec 8 := 0x31#8

/-- The bits of a byte string, each byte from its most significant bit. -/
def messageBits (bytes : List UInt8) : List Bool := bytes.flatMap fun b => Crc.bitsOf b.toBitVec

/-- One bit of the check byte is one shift of the register. -/
theorem crcBit_toNat (c : BitVec 8) : crcBit c.toNat = (Crc.shift generator c).toNat := by
  revert c
  decide

/-- One byte of the check byte is eight bits fed to the register. -/
theorem crcByte_toNat (c : BitVec 8) (byte : UInt8) :
    crcByte c.toNat byte = ((Crc.bitsOf byte.toBitVec).foldl (Crc.feed generator) c).toNat := by
  have hiterate : ∀ (n : Nat) (d : BitVec 8),
      crcBit^[n] d.toNat = ((Crc.shift generator)^[n] d).toNat := by
    intro n
    induction n with
    | zero => exact fun _ => rfl
    | succ n ih =>
        intro d
        rw [Function.iterate_succ_apply, Function.iterate_succ_apply, crcBit_toNat, ih]
  rw [Crc.foldl_feed_bitsOf, crcByte, ← hiterate, BitVec.toNat_xor]
  rfl

/-- The check byte is the residue of the message's bits. -/
theorem crc8_eq_residue (data : List UInt8) :
    crc8 data = (Crc.residue generator (messageBits data)).toNat := by
  have hfold : ∀ c : BitVec 8, data.foldl crcByte c.toNat =
      ((messageBits data).foldl (Crc.feed generator) c).toNat := by
    induction data with
    | nil => exact fun _ => rfl
    | cons byte data ih =>
        intro c
        rw [List.foldl_cons, crcByte_toNat, ih, messageBits, messageBits, List.flatMap_cons,
          List.foldl_append]
  exact hfold 0#8

/-- The check byte is a byte. -/
theorem crc8_lt (data : List UInt8) : crc8 data < 256 := by
  rw [crc8_eq_residue]
  exact BitVec.isLt _

/-- The byte `crc8(data)`. -/
def checkByte (data : List UInt8) : UInt8 := UInt8.ofNat (crc8 data)

/-- The check byte as it is sent. -/
theorem toNat_checkByte (data : List UInt8) : (checkByte data).toNat = crc8 data :=
  UInt8.toNat_ofNat_of_lt' (crc8_lt data)

theorem messageBits_append (a b : List UInt8) :
    messageBits (a ++ b) = messageBits a ++ messageBits b := List.flatMap_append

@[simp] theorem messageBits_nil : messageBits [] = [] := rfl

/-- The bits of the first byte, then the others. -/
theorem messageBits_cons (b : UInt8) (bytes : List UInt8) :
    messageBits (b :: bytes) = Crc.bitsOf b.toBitVec ++ messageBits bytes := List.flatMap_cons

/-- **The check is the remainder**: a byte string is accepted when its bits leave nothing. -/
theorem accepted_iff (data : List UInt8) (check : UInt8) :
    Accepted (data ++ [check]) ↔
      Crc.residue generator (messageBits (data ++ [check])) = 0#8 := by
  rw [messageBits_append, messageBits_cons, messageBits_nil, List.append_nil,
    Crc.residue_append_bitsOf_eq_zero_iff (by decide), Accepted, List.getLast?_concat,
    List.dropLast_concat, crc8_eq_residue, Option.map_some, Option.some.injEq,
    ← BitVec.toNat_inj]
  rfl

/-- The byte string with its bits flipped where `errors` has a bit. -/
def corrupt (word errors : List UInt8) : List UInt8 := List.zipWith (· ^^^ ·) word errors

theorem length_messageBits (bytes : List UInt8) :
    (messageBits bytes).length = 8 * bytes.length := by
  induction bytes with
  | nil => rfl
  | cons b bytes ih =>
      rw [messageBits_cons, List.length_append, Crc.length_bitsOf, ih, List.length_cons]
      omega

/-- The bits of a byte altered by another. -/
theorem bitsOf_xor (x y : BitVec 8) :
    Crc.bitsOf (x ^^^ y) = Crc.altered (Crc.bitsOf x) (Crc.bitsOf y) := by
  rw [Crc.altered, Crc.bitsOf, Crc.bitsOf, Crc.bitsOf, List.zipWith_map, List.zipWith_self]
  refine List.map_congr_left fun i _ => ?_
  exact BitVec.getMsbD_xor

/-- A corrupted word has the bits of the word altered by those of the errors. -/
theorem messageBits_corrupt {word errors : List UInt8} (h : word.length = errors.length) :
    messageBits (corrupt word errors) =
      Crc.altered (messageBits word) (messageBits errors) := by
  induction word generalizing errors with
  | nil => rfl
  | cons a word ih =>
      cases errors with
      | nil => cases h
      | cons b errors =>
          have hlength : (Crc.bitsOf a.toBitVec).length = (Crc.bitsOf b.toBitVec).length := by
            rw [Crc.length_bitsOf, Crc.length_bitsOf]
          have hrest := ih (Nat.succ.inj h)
          rw [corrupt, List.zipWith_cons_cons, ← corrupt, messageBits_cons, hrest,
            UInt8.toBitVec_xor, bitsOf_xor, messageBits_cons, messageBits_cons, Crc.altered,
            Crc.altered, Crc.altered, List.zipWith_append hlength]

/-! ## What is found -/

theorem exists_bit_of_ne_zero {b : UInt8} (h : b ≠ 0) : true ∈ Crc.bitsOf b.toBitVec := by
  by_contra hnone
  apply h
  apply UInt8.toBitVec_inj.mp
  apply BitVec.eq_of_getMsbD_eq
  intro i hi
  have hbit : b.toBitVec.getMsbD i ≠ true := by
    intro hset
    exact hnone (List.mem_map.mpr ⟨i, List.mem_range.mpr hi, hset⟩)
  rw [Bool.eq_false_of_not_eq_true hbit]
  simp

/-- Errors which are not all zero have a bit set. -/
theorem exists_bit {errors : List UInt8} (h : ∃ b ∈ errors, b ≠ 0) :
    true ∈ messageBits errors := by
  obtain ⟨b, hb, hne⟩ := h
  exact List.mem_flatMap.mpr ⟨b, hb, exists_bit_of_ne_zero hne⟩

/-- A byte string with its check, corrupted: what is left is what the errors leave. -/
theorem accepted_corrupt_iff (data : List UInt8) {errors : List UInt8}
    (hlength : errors.length = data.length + 1) :
    Accepted (corrupt (data ++ [checkByte data]) errors) ↔
      Crc.residue generator (messageBits errors) = 0#8 := by
  have hwhole : (data ++ [checkByte data]).length = errors.length := by
    rw [List.length_append, List.length_singleton, hlength]
  have haccepted : Accepted (data ++ [checkByte data]) := by
    rw [Accepted, List.getLast?_concat, List.dropLast_concat, Option.map_some, toNat_checkByte]
  have hbits : (messageBits (data ++ [checkByte data])).length = (messageBits errors).length := by
    rw [length_messageBits, length_messageBits, hwhole]
  obtain ⟨front, check, hfront⟩ : ∃ front check,
      corrupt (data ++ [checkByte data]) errors = front ++ [check] := by
    have hne : corrupt (data ++ [checkByte data]) errors ≠ [] := by
      apply List.ne_nil_of_length_pos
      rw [corrupt, List.length_zipWith, hwhole, Nat.min_self, hlength]
      exact Nat.succ_pos _
    exact ⟨_, _, (List.dropLast_append_getLast hne).symm⟩
  rw [hfront, accepted_iff, ← hfront, messageBits_corrupt hwhole,
    Crc.residue_altered_eq_zero_iff hbits ((accepted_iff _ _).mp haccepted)]

/-- **Bursts are found.** -/
theorem not_accepted_of_burst (data : List UInt8) {errors : List UInt8}
    (hlength : errors.length = data.length + 1) (hne : ∃ b ∈ errors, b ≠ 0)
    (hwithin : Crc.Within 8 (messageBits errors)) :
    ¬ Accepted (corrupt (data ++ [checkByte data]) errors) := by
  rw [accepted_corrupt_iff data hlength]
  exact Crc.residue_burst_ne_zero (by decide) (exists_bit hne) hwithin

/-- **Odd numbers of errors are found.** -/
theorem not_accepted_of_odd (data : List UInt8) {errors : List UInt8}
    (hlength : errors.length = data.length + 1)
    (hodd : Odd ((messageBits errors).count true)) :
    ¬ Accepted (corrupt (data ++ [checkByte data]) errors) := by
  rw [accepted_corrupt_iff data hlength]
  exact Crc.residue_odd_ne_zero (by decide) (by decide) hodd

/-! ## What a frame carries -/

/-- Values from 0 to 255 are packed into bytes. -/
theorem toBytes_eq_some {values : List Int} (h : ∀ v ∈ values, 0 ≤ v ∧ v < 256) :
    toBytes values = some (values.map fun v => UInt8.ofNat v.toNat) := by
  induction values with
  | nil => rfl
  | cons v values ih =>
      have hrest := ih fun u hu => h u (List.mem_cons_of_mem v hu)
      rw [toBytes] at hrest
      rw [toBytes, List.mapM_cons, if_pos (h v List.mem_cons_self), hrest]
      rfl

/-- The low bits of a number are within their width. -/
theorem lowBits_bounds (n : Int) (k : Nat) : 0 ≤ lowBits n k ∧ lowBits n k < 2 ^ k :=
  ⟨Int.emod_nonneg n (by positivity), Int.emod_lt_of_pos n (by positivity)⟩

/-- A value from 0 to 255 is read back from its byte. -/
theorem toNat_ofNat_toNat {v : Int} (h : 0 ≤ v ∧ v < 256) :
    ((UInt8.ofNat v.toNat).toNat : Int) = v := by
  rw [UInt8.toNat_ofNat_of_lt' (by show v.toNat < 256; omega)]
  omega

/-- The bytes that are checked. -/
def payload (seq statusFlags cpuLoad : Int) : List Int :=
  [0xAA, 0x55, lowBits (lowBits seq 16 >>> (8 : Nat)) 8, lowBits (lowBits seq 16) 8,
    lowBits statusFlags 8, max 0 (min 100 cpuLoad), 0xFF]

/-- The values of a payload are bytes. -/
theorem payload_bounds (seq statusFlags cpuLoad : Int) :
    ∀ v ∈ payload seq statusFlags cpuLoad, 0 ≤ v ∧ v < 256 := by
  have hhigh := lowBits_bounds (lowBits seq 16 >>> (8 : Nat)) 8
  have hlow := lowBits_bounds (lowBits seq 16) 8
  have hflags := lowBits_bounds statusFlags 8
  intro v hv
  simp only [payload, List.mem_cons, List.not_mem_nil, or_false] at hv
  rcases hv with rfl | rfl | rfl | rfl | rfl | rfl | rfl <;> omega

/-- **A frame is always built**: its bytes and their check. -/
theorem buildFrame_eq (seq statusFlags cpuLoad : Int) :
    buildFrame seq statusFlags cpuLoad =
      let bytes := (payload seq statusFlags cpuLoad).map fun v => UInt8.ofNat v.toNat
      some (bytes ++ [checkByte bytes]) := by
  have hpayload := toBytes_eq_some (payload_bounds seq statusFlags cpuLoad)
  have hcheck : ∀ bytes : List UInt8, toBytes [(crc8 bytes : Int)] = some [checkByte bytes] := by
    intro bytes
    have hlt := crc8_lt bytes
    rw [toBytes_eq_some (by simp; omega)]
    rfl
  rw [buildFrame, ← payload, hpayload]
  simp only [Option.bind_eq_bind, Option.bind_some, hcheck]
  rfl

/-- The two bytes of the sequence number. -/
theorem sequence_bytes (seq : Int) :
    256 * lowBits (lowBits seq 16 >>> (8 : Nat)) 8 + lowBits (lowBits seq 16) 8 = seq % 65536 := by
  have hrange := lowBits_bounds seq 16
  have hshift : lowBits seq 16 >>> (8 : Nat) = lowBits seq 16 / 256 := by
    rw [Int.shiftRight_eq_div_pow]
    rfl
  rw [hshift]
  unfold lowBits at hrange ⊢
  omega

/-- **Heartbeat frames.**  A byte string with its check that has been altered within eight
consecutive bits, or in an odd number of bits, is not accepted.  Every frame is accepted,
and carries the sequence number modulo 65536, the flags modulo 256 and the load clamped to
a percentage. -/
theorem frames_checked_and_read :
    (∀ data errors : List UInt8, errors.length = data.length + 1 → (∃ b ∈ errors, b ≠ 0) →
      (Crc.Within 8 (messageBits errors) ∨ Odd ((messageBits errors).count true)) →
      ¬ Accepted (corrupt (data ++ [checkByte data]) errors)) ∧
    ∀ seq statusFlags cpuLoad : Int, ∃ frame,
      buildFrame seq statusFlags cpuLoad = some frame ∧ frame.length = 8 ∧ Accepted frame ∧
      ∃ high low flags load : UInt8, (frame.drop 2).take 4 = [high, low, flags, load] ∧
        256 * (high.toNat : Int) + low.toNat = seq % 65536 ∧
        (flags.toNat : Int) = statusFlags % 256 ∧
        (load.toNat : Int) = max 0 (min 100 cpuLoad) := by
  constructor
  · intro data errors hlength hne herrors
    rcases herrors with hwithin | hodd
    · exact not_accepted_of_burst data hlength hne hwithin
    · exact not_accepted_of_odd data hlength hodd
  · intro seq statusFlags cpuLoad
    have hbounds := payload_bounds seq statusFlags cpuLoad
    refine ⟨_, buildFrame_eq seq statusFlags cpuLoad, rfl, ?_, _, _, _, _, rfl, ?_, ?_, ?_⟩
    · rw [Accepted, List.getLast?_concat, List.dropLast_concat, Option.map_some, toNat_checkByte]
    · rw [toNat_ofNat_toNat (hbounds _ (by simp [payload])),
        toNat_ofNat_toNat (hbounds _ (by simp [payload])), sequence_bytes]
    · rw [toNat_ofNat_toNat (hbounds _ (by simp [payload]))]
      rfl
    · rw [toNat_ofNat_toNat (hbounds _ (by simp [payload]))]

/-- Three bits across the end of the data. -/
theorem crossing_burst_found :
    ¬ Accepted (corrupt ([0xAA, 0x55] ++ [checkByte [0xAA, 0x55]]) [0x00, 0x03, 0x80]) :=
  frames_checked_and_read.1 [0xAA, 0x55] [0x00, 0x03, 0x80] rfl ⟨0x03, by decide, by decide⟩
    (Or.inr (by decide))

end FaultOracle.Heartbeat
