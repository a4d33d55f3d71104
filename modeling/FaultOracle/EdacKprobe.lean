import FaultOracle.EdacTrace
import FaultOracle.LossyQueues
import FaultOracle.PythonFloats

/-!
# The kprobe of `kernel-hardening/ebpf` and its reader

`trace_edac_mc_handle_error` of `edac_trace.bpf.c` submits a record for each hit for which the
ring buffer has room, and counts it in `edac_totals`.  `handle_event` of `edac_trace_user.c` is
given the records, prints them, and adds them to `total_ce` and `total_ue`.

Both lay out `struct edac_event` alike, a hit without room counts on neither side, and nothing is
lost between them.  But the kernel adds one for an event and the reader the errors of the event,
under the same name: `drained_totals_agree_iff` says for which runs the two come to the same.
-/

namespace FaultOracle.Kprobe

open LossyQueues PythonFloats StructLayout
open FaultOracle.Ebpf (u32 u64)

/-! ## The record -/

inductive EdacField
  | timestampNs | mcIdx | errorCount | errorType | topLayer | midLayer | lowLayer
deriving DecidableEq, Repr

/-- `struct edac_event` of `edac_trace.bpf.c`. -/
def edacEvent : Layout EdacField :=
  [(.timestampNs, u64), (.mcIdx, u32), (.errorCount, u32), (.errorType, u32), (.topLayer, u32),
    (.midLayer, u32), (.lowLayer, u32)]

/-- `struct edac_event` of `edac_trace_user.c`. -/
def userEdacEvent : Layout EdacField :=
  [(.timestampNs, u64), (.mcIdx, u32), (.errorCount, u32), (.errorType, u32), (.topLayer, u32),
    (.midLayer, u32), (.lowLayer, u32)]

/-- The two totals, of corrected and of uncorrected errors. -/
structure Totals where
  ce : UInt64
  ue : UInt64
deriving DecidableEq, Repr

def Totals.zero : Totals := ⟨0, 0⟩

/-! ## The kprobe -/

/-- A call of `edac_mc_handle_error`: the arguments which are read, with the clock and the memory
which `bpf_ringbuf_reserve` gives, if there is room. -/
structure Hit where
  type : Int32
  mcIdx : UInt32
  errorCount : UInt16
  topLayer : Int32
  midLayer : Int32
  lowLayer : Int32
  now : UInt64
  reserved : Option (Image edacEvent)

/-- The assignments to `ev`. -/
def fillEdacEvent (hit : Hit) (ev : Image edacEvent) : Image edacEvent :=
  let ev := ev.writeNat .timestampNs hit.now.toNat
  let ev := ev.writeNat .mcIdx hit.mcIdx.toNat
  let ev := ev.writeNat .errorCount hit.errorCount.toNat
  let ev := ev.writeNat .errorType (if hit.type = 0 then 0 else 1)
  let ev := ev.writeNat .topLayer hit.topLayer.toUInt32.toNat
  let ev := ev.writeNat .midLayer hit.midLayer.toUInt32.toNat
  ev.writeNat .lowLayer hit.lowLayer.toUInt32.toNat

/-- The increment of `edac_totals`; the array has two elements. -/
def incrementTotal (typeKey : Nat) (edacTotals : Totals) : Totals :=
  match typeKey with
  | 0 => { edacTotals with ce := edacTotals.ce + 1 }
  | 1 => { edacTotals with ue := edacTotals.ue + 1 }
  | _ => edacTotals

/-- `trace_edac_mc_handle_error`: the bytes it submits, if any, and the totals. -/
def traceEdacMcHandleError (hit : Hit) (edacTotals : Totals) : Option (List UInt8) × Totals :=
  match hit.reserved with
  | none => (none, edacTotals)
  | some memory =>
      let ev := fillEdacEvent hit memory
      (some ev.bytes, incrementTotal (ev.readNat .errorType) edacTotals)

/-! ## The reader -/

/-- What `edac_trace_user` has added up and printed. -/
structure Reader where
  totals : Totals
  out : List String

/-- `%14.6f`. -/
def width14 (x : PyFloat) : String :=
  let digits := x.fixed 6
  String.ofList (List.replicate (14 - digits.length) ' ') ++ digits

/-- `(double)ev->timestamp_ns / 1e9`. -/
def seconds (timestampNs : Nat) : PyFloat := (toDouble timestampNs).mulPos (1 / 10 ^ 9)

/-- `%d` of a field. -/
def signedField (ev : Image userEdacEvent) (f : EdacField) : String :=
  toString (UInt32.ofNat (ev.readNat f)).toInt32

/-- The line which is printed for an event. -/
def eventLine (ev : Image userEdacEvent) : String :=
  let typeStr := if ev.readNat .errorType = 0 then "CE" else "UE"
  s!"[{width14 (seconds (ev.readNat .timestampNs))}] EDAC mc{ev.readNat .mcIdx} {typeStr} " ++
    s!"count={ev.readNat .errorCount} csrow={signedField ev .topLayer} " ++
    s!"ch={signedField ev .midLayer} chip={signedField ev .lowLayer}"

/-- `handle_event`. -/
def handleEvent (r : Reader) (data : List UInt8) : Reader :=
  if data.length < sizeof userEdacEvent then r
  else
    let ev := (Image.zero userEdacEvent).copyFrom data
    let count := UInt64.ofNat (ev.readNat .errorCount)
    let totals :=
      if ev.readNat .errorType = 0 then { r.totals with ce := r.totals.ce + count }
      else { r.totals with ue := r.totals.ue + count }
    { totals, out := r.out ++ [eventLine ev] }

/-! ## Runs -/

/-- A hit of the kprobe, or the reader takes some records out of the ring buffer. -/
inductive Action
  | hit (h : Hit)
  | drain (n : Nat)

/-- The ring buffer with its reader, and the totals of the kernel. -/
structure System where
  ring : Link (List UInt8) Reader
  edacTotals : Totals

def System.start : System := ⟨⟨[], ⟨Totals.zero, []⟩⟩, Totals.zero⟩

def System.step (s : System) : Action → System
  | .hit h =>
      let (record, edacTotals) := traceEdacMcHandleError h s.edacTotals
      ⟨s.ring.step handleEvent (.offer record), edacTotals⟩
  | .drain n => { s with ring := s.ring.step handleEvent (.take n) }

def System.run (s : System) (actions : List Action) : System := actions.foldl System.step s

/-! ## What a record says -/

/-- The two kinds of events. -/
inductive Kind
  | ce
  | ue
deriving DecidableEq, Repr

def Hit.kind (h : Hit) : Kind := if h.type = 0 then .ce else .ue

def Totals.get (t : Totals) : Kind → UInt64
  | .ce => t.ce
  | .ue => t.ue

/-- The total of one kind goes up by `n`. -/
def Totals.add (t : Totals) (n : UInt64) : Kind → Totals
  | .ce => { t with ce := t.ce + n }
  | .ue => { t with ue := t.ue + n }

/-- The two declarations match. -/
theorem userEdacEvent_eq : userEdacEvent = edacEvent := rfl

/-- The fields of a submitted record are those of the hit, whatever was in its memory. -/
theorem fillEdacEvent_fields (h : Hit) (memory : Image edacEvent) :
    (fillEdacEvent h memory).readNat .timestampNs = h.now.toNat ∧
      (fillEdacEvent h memory).readNat .mcIdx = h.mcIdx.toNat ∧
      (fillEdacEvent h memory).readNat .errorCount = h.errorCount.toNat ∧
      (fillEdacEvent h memory).readNat .errorType = (if h.type = 0 then 0 else 1) ∧
      (fillEdacEvent h memory).readNat .topLayer = h.topLayer.toUInt32.toNat ∧
      (fillEdacEvent h memory).readNat .midLayer = h.midLayer.toUInt32.toNat ∧
      (fillEdacEvent h memory).readNat .lowLayer = h.lowLayer.toUInt32.toNat := by
  have htime : (span edacEvent .timestampNs).size = 8 := by decide
  have hsize : ∀ f ∈ [EdacField.mcIdx, .errorCount, .errorType, .topLayer, .midLayer, .lowLayer],
      (span edacEvent f).size = 4 := by decide
  simp only [List.forall_mem_cons] at hsize
  obtain ⟨hmc, hcount, htype, htop, hmid, hlow, -⟩ := hsize
  have hnow : h.now.toNat % 256 ^ 8 = h.now.toNat := Nat.mod_eq_of_lt h.now.toNat_lt
  -- the count of 16 bits is widened
  have herrors : h.errorCount.toNat % 256 ^ 4 = h.errorCount.toNat :=
    Nat.mod_eq_of_lt (h.errorCount.toNat_lt.trans (by decide))
  have hkind : (if h.type = 0 then 0 else 1) % 256 ^ 4 = if h.type = 0 then 0 else 1 := by
    split <;> rfl
  refine ⟨?_, ?_, ?_, ?_, ?_, ?_, ?_⟩ <;>
    simp only [fillEdacEvent, ne_eq, reduceCtorEq, not_false_eq_true, Image.readNat_writeNat_ne,
      Image.readNat_writeNat_same, htime, hmc, hcount, htype, htop, hmid, hlow, hnow, herrors,
      hkind, Ebpf.word_mod]

/-- The record of a hit as the reader sees it. -/
theorem readNat_copyFrom_record (ev : Image edacEvent) (f : EdacField) :
    ((Image.zero userEdacEvent).copyFrom ev.bytes).readNat f = ev.readNat f := by
  have hfits : sizeof userEdacEvent ≤ (ev.bytes ++ []).length := by
    rw [List.append_nil, ev.length_eq, userEdacEvent_eq]
  have hspan : span edacEvent f = span userEdacEvent f := by rw [userEdacEvent_eq]
  have hread := Image.readNat_copyFrom ev (Image.zero userEdacEvent) hspan [] hfits
  rwa [List.append_nil] at hread

/-- **One event in the kernel.**  A total goes up by one, if there is room for the record. -/
theorem traceEdacMcHandleError_totals (h : Hit) (t : Totals) :
    (traceEdacMcHandleError h t).2 = if h.reserved.isSome then t.add 1 h.kind else t := by
  rw [traceEdacMcHandleError]
  cases h.reserved with
  | none => rfl
  | some memory =>
      obtain ⟨-, -, -, htype, -⟩ := fillEdacEvent_fields h memory
      simp only [htype, Option.isSome_some, if_true, Hit.kind]
      by_cases hce : h.type = 0
      · rw [if_pos hce, if_pos hce]
        rfl
      · rw [if_neg hce, if_neg hce]
        rfl

/-- **One event in the reader.**  The same total goes up by the errors of the event. -/
theorem handleEvent_totals {h : Hit} {t : Totals} {record : List UInt8}
    (hrecord : (traceEdacMcHandleError h t).1 = some record) (r : Reader) :
    (handleEvent r record).totals = r.totals.add (UInt64.ofNat h.errorCount.toNat) h.kind := by
  rw [traceEdacMcHandleError] at hrecord
  cases hroom : h.reserved with
  | none =>
      rw [hroom] at hrecord
      cases hrecord
  | some memory =>
      rw [hroom] at hrecord
      have hbytes : (fillEdacEvent h memory).bytes = record := Option.some.inj hrecord
      obtain ⟨-, -, hcount, htype, -⟩ := fillEdacEvent_fields h memory
      have hlong : ¬ (fillEdacEvent h memory).bytes.length < sizeof userEdacEvent := by
        rw [(fillEdacEvent h memory).length_eq, userEdacEvent_eq]
        exact lt_irrefl _
      rw [← hbytes, handleEvent, if_neg hlong]
      simp only [readNat_copyFrom_record, hcount, htype, Hit.kind]
      by_cases hce : h.type = 0
      · rw [if_pos hce, if_pos rfl, if_pos hce]
        rfl
      · rw [if_neg hce, if_neg Nat.one_ne_zero, if_neg hce]
        rfl

/-! ## What a run adds up -/

/-- The hits for which there was room, in order. -/
def submitted : List Action → List Hit
  | [] => []
  | .hit h :: actions => if h.reserved.isSome then h :: submitted actions else submitted actions
  | .drain _ :: actions => submitted actions

/-- The events of one kind. -/
def eventCount (k : Kind) (hits : List Hit) : Nat := (hits.filter (·.kind = k)).length

/-- The errors of the events of one kind. -/
def errorSum (k : Kind) (hits : List Hit) : Nat :=
  ((hits.filter (·.kind = k)).map (·.errorCount.toNat)).sum

/-- Each hit adds its amount to the total of its kind. -/
def addAll (amount : Hit → Nat) (hits : List Hit) (t : Totals) : Totals :=
  hits.foldl (fun t h => t.add (UInt64.ofNat (amount h)) h.kind) t

/-- A total after errors of one kind were added. -/
theorem get_add (t : Totals) (n : UInt64) (k k' : Kind) :
    (t.add n k).get k' = if k = k' then t.get k' + n else t.get k' := by
  cases k <;> cases k' <;> rfl

/-- A total after all the hits were added. -/
theorem get_addAll (amount : Hit → Nat) (hits : List Hit) (t : Totals) (k : Kind) :
    (addAll amount hits t).get k =
      t.get k + UInt64.ofNat ((hits.filter (·.kind = k)).map amount).sum := by
  induction hits generalizing t with
  | nil => exact (UInt64.add_zero _).symm
  | cons h hits ih =>
      have hcons : addAll amount (h :: hits) t =
          addAll amount hits (t.add (UInt64.ofNat (amount h)) h.kind) := rfl
      rw [hcons, ih, get_add]
      by_cases hk : h.kind = k
      · rw [if_pos hk, List.filter_cons_of_pos (by simp [hk]), List.map_cons, List.sum_cons,
          UInt64.ofNat_add, UInt64.add_assoc]
      · rw [if_neg hk, List.filter_cons_of_neg (by simp [hk])]

/-- The bytes which a hit submits do not depend on the totals. -/
def Hit.record (h : Hit) : Option (List UInt8) :=
  h.reserved.map fun memory => (fillEdacEvent h memory).bytes

/-- The record of a hit. -/
theorem traceEdacMcHandleError_record (h : Hit) (t : Totals) :
    (traceEdacMcHandleError h t).1 = h.record := by
  rw [traceEdacMcHandleError, Hit.record]
  cases h.reserved <;> rfl

/-- What an action does to the ring buffer. -/
def Action.event : Action → Event (List UInt8)
  | .hit h => .offer h.record
  | .drain n => .take n

variable {s : System} {actions : List Action}

/-- **The kernel** counts the submitted hits. -/
theorem edacTotals_run :
    (s.run actions).edacTotals = addAll (fun _ => 1) (submitted actions) s.edacTotals := by
  induction actions generalizing s with
  | nil => rfl
  | cons action actions ih =>
      have hcons : s.run (action :: actions) = (s.step action).run actions := rfl
      rw [hcons, ih]
      cases action with
      | drain n => rfl
      | hit h =>
          have hstep : (s.step (.hit h)).edacTotals =
              if h.reserved.isSome then s.edacTotals.add 1 h.kind else s.edacTotals :=
            traceEdacMcHandleError_totals h s.edacTotals
          rw [hstep, submitted]
          split <;> rfl

/-- The ring buffer goes through the events of the actions. -/
theorem ring_run :
    (s.run actions).ring = s.ring.run handleEvent (actions.map Action.event) := by
  induction actions generalizing s with
  | nil => rfl
  | cons action actions ih =>
      have hcons : s.run (action :: actions) = (s.step action).run actions := rfl
      rw [hcons, ih]
      cases action with
      | drain n => rfl
      | hit h =>
          have hstep : (s.step (.hit h)).ring = s.ring.step handleEvent (.offer h.record) := by
            rw [← traceEdacMcHandleError_record h s.edacTotals]
            rfl
          rw [hstep]
          rfl

/-- **The reader** adds up the errors of the submitted hits. -/
theorem totals_accepted (r : Reader) :
    ((accepted (actions.map Action.event)).foldl handleEvent r).totals =
      addAll (·.errorCount.toNat) (submitted actions) r.totals := by
  induction actions generalizing r with
  | nil => rfl
  | cons action actions ih =>
      rw [List.map_cons]
      cases action with
      | drain n => exact ih r
      | hit h =>
          rw [Action.event, submitted]
          cases hrecord : h.record with
          | none =>
              have hroom : h.reserved.isSome = false := by simpa [Hit.record] using hrecord
              rw [accepted, if_neg (by simp [hroom])]
              exact ih r
          | some record =>
              have hroom : h.reserved.isSome = true := by
                rw [← Option.isSome_map (f := fun memory => (fillEdacEvent h memory).bytes)]
                exact Option.isSome_iff_exists.mpr ⟨record, hrecord⟩
              have hone := handleEvent_totals
                ((traceEdacMcHandleError_record h r.totals).trans hrecord) r
              rw [accepted, if_pos hroom, List.foldl_cons, ih, hone]
              rfl

/-- Both totals over a run, once the ring buffer is empty. -/
theorem totals_run (h : (s.run actions).ring.queue = []) :
    (s.run actions).ring.sink.totals =
      addAll (·.errorCount.toNat) (submitted actions) (s.ring.flush handleEvent).totals := by
  rw [ring_run] at h ⊢
  rw [sink_run h, totals_accepted]

/-- Two numbers are the same 64-bit word exactly when they agree modulo its size. -/
theorem ofNat_eq_ofNat_iff {a b : Nat} : UInt64.ofNat a = UInt64.ofNat b ↔ a ≡ b [MOD 2 ^ 64] := by
  rw [← UInt64.toNat_inj, UInt64.toNat_ofNat', UInt64.toNat_ofNat']
  rfl

/-- Totals are equal when all their kinds are. -/
theorem totals_ext {t t' : Totals} : t = t' ↔ ∀ k, t.get k = t'.get k := by
  constructor
  · rintro rfl k
    rfl
  · intro h
    have hce : t.ce = t'.ce := h .ce
    have hue : t.ue = t'.ue := h .ue
    cases t
    cases t'
    simp_all

def System.Drained (s : System) : Prop := s.ring.queue = []

/-- `edac_totals` has what the reader prints. -/
def System.Agree (s : System) : Prop := s.edacTotals = s.ring.sink.totals

theorem get_zero (k : Kind) (n : UInt64) : Totals.zero.get k + n = n := by
  cases k <;> exact UInt64.zero_add n

/-- The readers agree exactly when the sums do, modulo the word's size. -/
theorem agree_iff (h : (System.start.run actions).Drained) :
    (System.start.run actions).Agree ↔
      ∀ k, errorSum k (submitted actions) ≡ eventCount k (submitted actions) [MOD 2 ^ 64] := by
  have hones : ∀ k, (((submitted actions).filter (·.kind = k)).map fun _ => 1).sum =
      eventCount k (submitted actions) := by
    intro k
    simp [eventCount]
  rw [System.Agree, edacTotals_run, totals_run h, totals_ext]
  refine forall_congr' fun k => ?_
  have hstart : (System.start.ring.flush handleEvent).totals = Totals.zero := rfl
  rw [hstart, show System.start.edacTotals = Totals.zero from rfl, get_addAll, get_addAll,
    get_zero, get_zero, ofNat_eq_ofNat_iff, hones, errorSum]
  exact ⟨Nat.ModEq.symm, Nat.ModEq.symm⟩

/-- **The two totals.**  Once the ring buffer is drained they agree exactly where, for each kind,
the submitted events have as many errors as there are events; they do where each has one. -/
theorem drained_totals_agree_iff (actions : List Action)
    (hdrained : (System.start.run actions).Drained) :
    ((System.start.run actions).Agree ↔
      ∀ k, errorSum k (submitted actions) ≡ eventCount k (submitted actions) [MOD 2 ^ 64]) ∧
    ((∀ h ∈ submitted actions, h.errorCount = 1) → (System.start.run actions).Agree) := by
  refine ⟨agree_iff hdrained, fun hone => (agree_iff hdrained).mpr fun k => ?_⟩
  have hsum : errorSum k (submitted actions) = eventCount k (submitted actions) := by
    have hcounts : ((submitted actions).filter (·.kind = k)).map (·.errorCount.toNat) =
        ((submitted actions).filter (·.kind = k)).map fun _ => 1 := by
      apply List.map_congr_left
      intro h hh
      rw [hone h (List.mem_of_mem_filter hh)]
      rfl
    rw [errorSum, hcounts]
    simp [eventCount]
  rw [hsum]

theorem submitted_append (actions more : List Action) :
    submitted (actions ++ more) = submitted actions ++ submitted more := by
  induction actions with
  | nil => rfl
  | cons action actions ih =>
      rw [List.cons_append]
      cases action with
      | drain n => exact ih
      | hit h =>
          rw [submitted, submitted, ih]
          split <;> rfl

theorem errorSum_append (k : Kind) (hits more : List Hit) :
    errorSum k (hits ++ more) = errorSum k hits + errorSum k more := by
  simp [errorSum]

theorem eventCount_append (k : Kind) (hits more : List Hit) :
    eventCount k (hits ++ more) = eventCount k hits + eventCount k more := by
  simp [eventCount]

/-- One event has as many errors as events only if it has one. -/
theorem modEq_singleton_iff (h : Hit) (k : Kind) :
    errorSum k [h] ≡ eventCount k [h] [MOD 2 ^ 64] ↔ (h.kind = k → h.errorCount = 1) := by
  by_cases hk : h.kind = k
  · have hsum : errorSum k [h] = h.errorCount.toNat := by simp [errorSum, hk]
    have hcount : eventCount k [h] = 1 := by simp [eventCount, hk]
    -- a count of 16 bits does not wrap
    have hlt : h.errorCount.toNat < 2 ^ 64 := h.errorCount.toNat_lt.trans (by decide)
    rw [hsum, hcount, Nat.ModEq, Nat.mod_eq_of_lt hlt, imp_iff_right hk, ← UInt16.toNat_inj]
    exact Iff.rfl
  · have hsum : errorSum k [h] = 0 := by simp [errorSum, hk]
    have hcount : eventCount k [h] = 0 := by simp [eventCount, hk]
    rw [hsum, hcount]
    exact iff_of_true (Nat.ModEq.refl 0) (fun h => absurd h hk)

/-- **The step which drives them apart.**  From totals which agree, one more event keeps them so
exactly if it is refused or has one error. -/
theorem agree_after_hit_iff {h : Hit} {n : Nat} (hdrained : (System.start.run actions).Drained)
    (hagree : (System.start.run actions).Agree)
    (hlater : (System.start.run (actions ++ [.hit h, .drain n])).Drained) :
    (System.start.run (actions ++ [.hit h, .drain n])).Agree ↔
      (h.reserved.isSome → h.errorCount = 1) := by
  have hbefore := (agree_iff hdrained).mp hagree
  have hcancel : ∀ more k, errorSum k (submitted actions ++ more) ≡
      eventCount k (submitted actions ++ more) [MOD 2 ^ 64] ↔
        errorSum k more ≡ eventCount k more [MOD 2 ^ 64] := by
    intro more k
    rw [errorSum_append, eventCount_append]
    exact ⟨(hbefore k).add_left_cancel, (hbefore k).add⟩
  rw [agree_iff hlater, submitted_append]
  simp only [hcancel]
  by_cases hroom : h.reserved.isSome = true
  · have hone : submitted [.hit h, .drain n] = [h] := if_pos hroom
    simp only [hone, modEq_singleton_iff, forall_eq', hroom, forall_const]
  · have hnone : submitted [.hit h, .drain n] = [] := if_neg hroom
    rw [hnone]
    exact iff_of_true (fun k => Nat.ModEq.refl 0) (fun h => absurd h hroom)

/-- A corrected error on memory controller 0, reported `errorCount` times at once. -/
def correctedErrors (errorCount : UInt16) : Hit where
  type := 0
  mcIdx := 0
  errorCount := errorCount
  topLayer := 0
  midLayer := 0
  lowLayer := 0
  now := 0
  reserved := some (Image.zero edacEvent)

/-- After one single error and a drain the readers agree. -/
theorem single_error_agrees :
    (System.start.run [.hit (correctedErrors 1), .drain 1]).Agree :=
  (drained_totals_agree_iff [.hit (correctedErrors 1), .drain 1] rfl).2 (by
    intro h hh
    rw [List.mem_singleton.mp hh]
    rfl)

/-- One event of two errors: the kernel has counted one, and the reader prints two. -/
theorem two_errors_at_once_disagree :
    (System.start.run [.hit (correctedErrors 2), .drain 1]).Drained ∧
      (System.start.run [.hit (correctedErrors 2), .drain 1]).edacTotals = ⟨1, 0⟩ ∧
      (System.start.run [.hit (correctedErrors 2), .drain 1]).ring.sink.totals = ⟨2, 0⟩ ∧
      ¬ (System.start.run [.hit (correctedErrors 2), .drain 1]).Agree := by
  have hkernel : (System.start.run [.hit (correctedErrors 2), .drain 1]).edacTotals = ⟨1, 0⟩ := by
    decide
  have hreader :
      (System.start.run [.hit (correctedErrors 2), .drain 1]).ring.sink.totals = ⟨2, 0⟩ := by
    decide
  refine ⟨rfl, hkernel, hreader, ?_⟩
  rw [System.Agree, hkernel, hreader]
  decide

end FaultOracle.Kprobe
