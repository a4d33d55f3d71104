import FaultOracle.GuardedRuns
import FaultOracle.HeartbeatFrame

/-!
# The heartbeat loop

`main` of `network-resilience/oob-heartbeat.py`.  Every turn reads the counters of
correctable errors and sends a frame whose flags say, in bit 1, that fewer than 100 errors
came since the last turn.  `prev_ce` is what the last turn could read, and 0 before the
first.

A run is told with the counters as they truly are: `Truthful` compares the bit of the frame
that was sent last with the errors that truly came since the frame before it.  What
`prev_ce` lacks (`LoopState.lacking`: the errors from before start-up, then those in files
that could not be read) is counted as new once it is read, and what cannot be read now is
taken off.  `frames_truthful_iff` names the runs in which that never carries the rise across
the threshold; `frames_truthful_of_read` are those in which nothing is ever lacking.
-/

namespace FaultOracle.Heartbeat

open GuardedRuns

/-! ## One turn -/

/-- A memory controller: its count of correctable errors, whether `glob` lists its
`ce_count`, and whether that can be read as a number. -/
structure Controller where
  ceCount : Nat
  listed : Bool
  readable : Bool
deriving DecidableEq, Repr

/-- What one turn of the loop finds. -/
structure Turn where
  controllers : List Controller
  cpuLoad : Int
  kernelOk : Bool
  memOk : Bool
  wdtOk : Bool
deriving DecidableEq, Repr

/-- `glob.glob("/sys/devices/system/edac/mc*/ce_count")`. -/
def paths (controllers : List Controller) : List Controller := controllers.filter Controller.listed

/-- The sum over the files; a file that cannot be read is passed over. -/
def readTotal (paths : List Controller) : Int :=
  paths.foldl (fun total path => if path.readable then total + path.ceCount else total) 0

def checkEdacHealth (controllers : List Controller) (prevCe : Int) : Bool × Int :=
  if paths controllers = [] then (true, prevCe)
  else
    let total := readTotal (paths controllers)
    let delta := total - prevCe
    (decide (delta < 100), total)

def statusFlags (kernelOk edacOk memOk wdtOk : Bool) : Nat :=
  (if kernelOk then 0x01 else 0x00) ||| (if edacOk then 0x02 else 0x00) |||
    (if memOk then 0x04 else 0x00) ||| (if wdtOk then 0x08 else 0x00)

/-- A turn of the loop: the frame it writes, and the next `seq` and `prev_ce`. -/
def heartbeat (turn : Turn) (seq prevCe : Int) : Option (List UInt8) × Int × Int :=
  let (edacOk, prevCe) := checkEdacHealth turn.controllers prevCe
  let flags := statusFlags turn.kernelOk edacOk turn.memOk turn.wdtOk
  (buildFrame seq flags turn.cpuLoad, lowBits (seq + 1) 16, prevCe)

/-- Bit 1 of the status flags. -/
def edacBit (frame : List UInt8) : Bool := (frame.getD 4 0).toNat.testBit 1

/-! ## Runs -/

/-- The errors that the controllers have counted. -/
def trueTotal (controllers : List Controller) : Nat := (controllers.map Controller.ceCount).sum

/-- A frame, and by how much the true total rose since the frame before it. -/
structure Sent where
  frame : Option (List UInt8)
  rise : Int

/-- The variables of the loop, and beside them the true total at the last frame and the
frame itself. -/
structure LoopState where
  seq : Int
  prevCe : Int
  total : Nat
  sent : Option Sent

/-- The start of `main`, where the controllers have counted `total` errors. -/
def started (total : Nat) : LoopState := ⟨0, 0, total, none⟩

def turnStep (s : LoopState) (turn : Turn) : LoopState :=
  let (frame, seq, prevCe) := heartbeat turn s.seq s.prevCe
  ⟨seq, prevCe, trueTotal turn.controllers,
    some ⟨frame, (trueTotal turn.controllers : Int) - s.total⟩⟩

/-- A frame was written, and its bit is cleared exactly when at least 100 errors came since
the frame before it. -/
def Sent.Truthful (sent : Sent) : Prop :=
  ∃ frame, sent.frame = some frame ∧ (edacBit frame = false ↔ 100 ≤ sent.rise)

def Truthful (s : LoopState) : Prop := ∀ sent ∈ s.sent, sent.Truthful

/-! ## The bit of a frame -/

theorem statusFlags_lt (kernelOk edacOk memOk wdtOk : Bool) :
    statusFlags kernelOk edacOk memOk wdtOk < 256 := by
  revert kernelOk edacOk memOk wdtOk
  decide

theorem testBit_statusFlags (kernelOk edacOk memOk wdtOk : Bool) :
    (statusFlags kernelOk edacOk memOk wdtOk).testBit 1 = edacOk := by
  revert kernelOk edacOk memOk wdtOk
  decide

/-- The bit of a frame is what the health check returned. -/
theorem edacBit_buildFrame (seq cpuLoad : Int) (kernelOk edacOk memOk wdtOk : Bool) :
    ∃ frame, buildFrame seq (statusFlags kernelOk edacOk memOk wdtOk) cpuLoad = some frame ∧
      edacBit frame = edacOk := by
  have hlt := statusFlags_lt kernelOk edacOk memOk wdtOk
  refine ⟨_, buildFrame_eq seq _ cpuLoad, ?_⟩
  show (UInt8.ofNat (lowBits _ 8).toNat).toNat.testBit 1 = edacOk
  have hsame : (lowBits (statusFlags kernelOk edacOk memOk wdtOk : Int) 8).toNat =
      statusFlags kernelOk edacOk memOk wdtOk := by
    rw [lowBits]
    omega
  rw [hsame, UInt8.toNat_ofNat_of_lt' hlt, testBit_statusFlags]

/-! ## What is lacking -/

/-- The errors in the files that are passed over. -/
def missed (controllers : List Controller) : Nat :=
  trueTotal (controllers.filter fun c => !(c.listed && c.readable))

/-- The true errors that `prev_ce` lacks. -/
def LoopState.lacking (s : LoopState) : Int := s.total - s.prevCe

/-- By how much the true total rises in a turn. -/
def rise (s : LoopState) (turn : Turn) : Int := (trueTotal turn.controllers : Int) - s.total

/-- What was lacking before and what is missed now do not carry the rise across 100; where
no controller is listed at all, the rise is below 100. -/
def Undistorted (s : LoopState) (turn : Turn) : Prop :=
  if turn.controllers.any Controller.listed then
    100 ≤ rise s turn ↔ 100 ≤ rise s turn + s.lacking - missed turn.controllers
  else rise s turn < 100

instance (s : LoopState) (turn : Turn) : Decidable (Undistorted s turn) := by
  unfold Undistorted
  infer_instance

theorem readTotal_add_missed (controllers : List Controller) :
    readTotal (paths controllers) + missed controllers = trueTotal controllers := by
  have hfold : ∀ (ps : List Controller) (n : Int),
      ps.foldl (fun total path => if path.readable then total + path.ceCount else total) n =
        n + trueTotal (ps.filter Controller.readable) := by
    intro ps
    induction ps with
    | nil => exact fun n => (Int.add_zero n).symm
    | cons p ps ih =>
        intro n
        rw [List.foldl_cons, ih]
        cases hp : p.readable <;> simp [hp, trueTotal, Int.add_assoc]
  rw [readTotal, hfold, Int.zero_add, paths, missed]
  induction controllers with
  | nil => rfl
  | cons c controllers ih =>
      simp only [trueTotal] at ih ⊢
      cases hl : c.listed <;> cases hr : c.readable <;> simp [hl, hr] at ih ⊢ <;> omega

theorem paths_eq_nil_iff (controllers : List Controller) :
    paths controllers = [] ↔ controllers.any Controller.listed = false := by
  rw [paths, List.filter_eq_nil_iff, List.any_eq_false]

/-- What a turn sends: a frame with the bit of the health check. -/
theorem sent_turnStep (s : LoopState) (turn : Turn) :
    ∃ frame, (turnStep s turn).sent = some ⟨some frame, rise s turn⟩ ∧
      edacBit frame = (checkEdacHealth turn.controllers s.prevCe).1 := by
  obtain ⟨frame, hframe, hbit⟩ := edacBit_buildFrame s.seq turn.cpuLoad turn.kernelOk
    (checkEdacHealth turn.controllers s.prevCe).1 turn.memOk turn.wdtOk
  refine ⟨frame, ?_, hbit⟩
  rw [← hframe]
  rfl

/-- The health check, in the true counts. -/
theorem checkEdacHealth_fst_iff (controllers : List Controller) (prevCe : Int) :
    (checkEdacHealth controllers prevCe).1 = false ↔
      controllers.any Controller.listed = true ∧
        100 ≤ trueTotal controllers - missed controllers - prevCe := by
  have hread := readTotal_add_missed controllers
  rw [checkEdacHealth]
  by_cases hpaths : paths controllers = []
  · rw [if_pos hpaths, (paths_eq_nil_iff controllers).mp hpaths]
    simp
  · have hlisted : controllers.any Controller.listed = true := by
      rw [paths_eq_nil_iff] at hpaths
      exact Bool.eq_true_of_not_eq_false hpaths
    have hdelta : (¬ readTotal (paths controllers) - prevCe < 100) ↔
        100 ≤ (trueTotal controllers : Int) - missed controllers - prevCe := by omega
    rw [if_neg hpaths, decide_eq_false_iff_not, hdelta, hlisted]
    simp

/-- **One turn.**  The frame it sends tells the truth exactly when nothing distorts it. -/
theorem truthful_turnStep_iff (s : LoopState) (turn : Turn) :
    Truthful (turnStep s turn) ↔ Undistorted s turn := by
  obtain ⟨frame, hsent, hbit⟩ := sent_turnStep s turn
  have htold : Truthful (turnStep s turn) ↔ (edacBit frame = false ↔ 100 ≤ rise s turn) := by
    rw [Truthful, hsent]
    constructor
    · intro h
      obtain ⟨_, hframe, htrue⟩ := h _ rfl
      cases hframe
      exact htrue
    · intro h sent hmem
      cases hmem
      exact ⟨frame, rfl, h⟩
  rw [htold, hbit, checkEdacHealth_fst_iff, Undistorted, LoopState.lacking]
  split
  · rename_i hlisted
    have hrise : (trueTotal turn.controllers : Int) - missed turn.controllers - s.prevCe =
        rise s turn + (s.total - s.prevCe) - missed turn.controllers := by
      rw [rise]
      omega
    rw [hlisted, hrise, rise]
    simp only [true_and]
    exact Iff.comm
  · rename_i hlisted
    simp only [hlisted, Bool.false_eq_true, false_and, false_iff]
    omega

/-- **The heartbeat loop.**  Every frame of a run clears its bit exactly when the true total
rose by at least 100 since the frame before it, if and only if no turn of the run is
distorted by errors that were lacking before it or are missed in it. -/
theorem frames_truthful_iff (total : Nat) (run : List Turn) :
    Throughout turnStep Truthful (started total) run ↔
      Meets turnStep Undistorted (started total) run :=
  throughout_iff_meets (fun _ => True) (fun _ _ _ _ _ => trivial)
    (fun s turn _ _ => truthful_turnStep_iff s turn) trivial
    (fun _ hsent => absurd hsent (by simp [started])) run

/-- What is lacking is what was missed when a controller was listed last. -/
theorem lacking_turnStep (s : LoopState) (turn : Turn) :
    (turnStep s turn).lacking =
      if turn.controllers.any Controller.listed then (missed turn.controllers : Int)
      else s.lacking + rise s turn := by
  have hread := readTotal_add_missed turn.controllers
  have hpaths := paths_eq_nil_iff turn.controllers
  show (trueTotal turn.controllers : Int) - (checkEdacHealth turn.controllers s.prevCe).2 = _
  rw [checkEdacHealth, LoopState.lacking, rise]
  by_cases hlisted : turn.controllers.any Controller.listed = true
  · rw [if_neg (by rw [hpaths, hlisted]; exact Bool.noConfusion), if_pos hlisted]
    show (trueTotal turn.controllers : Int) - readTotal (paths turn.controllers) = _
    omega
  · rw [if_pos (hpaths.mpr (Bool.eq_false_of_not_eq_true hlisted)), if_neg hlisted]
    omega

theorem missed_of_read {controllers : List Controller}
    (hread : ∀ c ∈ controllers, c.listed = true ∧ c.readable = true) :
    missed controllers = 0 := by
  have hnone : controllers.filter (fun c => !(c.listed && c.readable)) = [] := by
    rw [List.filter_eq_nil_iff]
    intro c hc
    simp [hread c hc]
  rw [missed, hnone]
  rfl

theorem listed_of_read {controllers : List Controller} (hne : controllers ≠ [])
    (hread : ∀ c ∈ controllers, c.listed = true ∧ c.readable = true) :
    controllers.any Controller.listed = true := by
  obtain ⟨first, hfirst⟩ := List.exists_mem_of_ne_nil _ hne
  exact List.any_eq_true.mpr ⟨first, hfirst, (hread first hfirst).1⟩

/-- **Nothing lacking.**  If no error was counted before start-up and every file is listed
and read in every turn, all frames tell the truth. -/
theorem frames_truthful_of_read {run : List Turn} (hne : ∀ turn ∈ run, turn.controllers ≠ [])
    (hread : ∀ turn ∈ run, ∀ c ∈ turn.controllers, c.listed = true ∧ c.readable = true) :
    Throughout turnStep Truthful (started 0) run := by
  have hmeets : ∀ s : LoopState, s.lacking = 0 → Meets turnStep Undistorted s run := by
    induction run with
    | nil => exact fun _ _ => trivial
    | cons turn run ih =>
        intro s hs
        have hall := hread turn List.mem_cons_self
        have hlisted := listed_of_read (hne turn List.mem_cons_self) hall
        have hmissed := missed_of_read hall
        have hnext : (turnStep s turn).lacking = 0 := by
          rw [lacking_turnStep, if_pos hlisted, hmissed]
          rfl
        have hrest := ih (fun t ht => hne t (List.mem_cons_of_mem _ ht))
          (fun t ht => hread t (List.mem_cons_of_mem _ ht)) (turnStep s turn) hnext
        refine ⟨?_, hrest⟩
        rw [Undistorted, if_pos hlisted, hs, hmissed]
        omega
  exact throughout_of_meets (fun s turn _ hturn => (truthful_turnStep_iff s turn).mpr hturn)
    (fun _ hsent => absurd hsent (by simp [started])) (hmeets _ rfl)

/-- One controller that can be read. -/
def quietTurn (ceCount : Nat) : Turn := ⟨[⟨ceCount, true, true⟩], 0, true, true, true⟩

/-- The first frame after a start with 500 old errors reports a burst. -/
theorem old_errors_reported :
    ¬ Throughout turnStep Truthful (started 500) [quietTurn 500] := by
  intro h
  obtain ⟨frame, hsent, hbit⟩ := sent_turnStep (started 500) (quietTurn 500)
  obtain ⟨_, hframe, htrue⟩ := h.2 _ hsent
  cases hframe
  rw [hbit] at htrue
  have hburst : 100 ≤ rise (started 500) (quietTurn 500) := htrue.mp (by decide)
  exact absurd hburst (by decide)

end FaultOracle.Heartbeat
