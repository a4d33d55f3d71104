import FaultOracle.BootConfirmation
import FaultOracle.RaucPostInstall

/-!
# Before an update: the pre-install hook and its checkpoint

RAUC runs `rauc-pre-install.sh` before it writes a slot, and the hook aborts the update when
correctable memory errors come in too fast.  It sums every `ce_count` below the EDAC directory
and compares the sum with the one in its checkpoint file, which it rewrites whenever the
comparison passes.

The file holds text, and `preInstall_proceeds_iff` reduces a run of the hook to marks, which
are pairs of numbers: an update is aborted until the mean rate since the mark is low enough, and
the mark moves also when the battery then stops the update.  Every located error is in
two of the files the hook sums, so that updates which do go ahead bound the rate of these by
half of what the hook says (`updates_limited`).

There are two such files, one in the file system that is mounted on `/data` and one which shows
when none is.  A write of either can fail, and what a write that was cut short has left in it
aborts every later update.
-/

namespace FaultOracle.Boot

/-! ## The counters below the EDAC directory -/

/-- What `find` meets; a file without a content cannot be read. -/
inductive SysfsNode
  | file (name : String) (content : Option String)
  | dir (name : String) (entries : List SysfsNode)

mutual

/-- `find -name ce_count -type f`, with the contents of the files. -/
def SysfsNode.ceFiles : SysfsNode → List (Option String)
  | .file name content => if name = "ce_count" then [content] else []
  | .dir _ entries => ceFilesIn entries

def ceFilesIn : List SysfsNode → List (Option String)
  | [] => []
  | node :: rest => node.ceFiles ++ ceFilesIn rest

end

/-- `intmax_t` arithmetic. -/
def wrap (n : Int) : Int := Int.bmod n (2 ^ 64)

/-- `$(...)` drops the newlines at the end. -/
def substituted (output : String) : String :=
  String.ofList (output.toList.reverse.dropWhile (· = '\n')).reverse

/-- The value of a variable in `$(( ))`. -/
def arithmeticValue (text : String) : Option Int :=
  match text.toList with
  | '-' :: digit :: digits =>
      (testInteger (String.ofList (digit :: digits))).map fun n => wrap (-n)
  | _ => testInteger text

/-- The loop which sums the counters; nothing if bash cannot read one of them. -/
def currentCe (files : List (Option String)) : Option Int :=
  files.foldlM (fun total content => do
    let count ← arithmeticValue (substituted (content.getD "0\n"))
    return wrap (total + count)) 0

/-! ## The hook -/

/-- A battery which has a status and a capacity. -/
structure Battery where
  name : String
  status : String
  capacity : Int

/-- What becomes of the checkpoint: it is written, it cannot be opened for writing, or the disk
is full after so many characters. -/
inductive CheckpointWrite
  | written
  | refused
  | cut (length : Nat)
deriving DecidableEq

/-- What the hook finds: the space on `/data` if it is mounted, the size of the slot if its
device is there, the keepalive process if there is a PID file, the EDAC directory, the clock at
the comparison and when the checkpoint is written, what becomes of it, and the batteries. -/
structure PreMachine extends RaucEnv where
  dataFreeMib : Option Int
  slotSize : Option String
  keepalivePid : Option (String × Bool)
  edac : Option (List SysfsNode)
  now : Nat
  stamp : Nat
  write : CheckpointWrite
  batteries : Option (List Battery)

structure PreResult where
  checkpoint : Option String
  lines : List HookLine
  status : Nat

def checkSpace (m : PreMachine) : List HookLine × Bool :=
  match m.dataFreeMib with
  | none => ([.warn "/data is not mounted; skipping free-space check"], true)
  | some free =>
      if free < 200 then
        ([.die ("/data has only " ++ toString free ++ " MiB free; need 200 MiB.  " ++
          "Clear logs or application data before updating.")], false)
      else ([.log ("/data free space OK: " ++ toString free ++ " MiB available")], true)

/-- The line about the size of the slot. -/
def slotLines (m : PreMachine) : List HookLine :=
  match m.slotSize with
  | none => []
  | some size =>
      [.log ("Target slot device " ++ m.slotDevice.getD "" ++ " size: " ++ size ++ " bytes")]

def checkKeepalive (m : PreMachine) : List HookLine × Bool :=
  match m.keepalivePid with
  | none =>
      ([.warn ("WDT keepalive PID file not found at /run/wdt-keepalive.pid.  " ++
        "Ensure wdt-setup.sh is running. Continuing (non-fatal on this board).")], true)
  | some (pid, true) => ([.log ("WDT keepalive running (PID " ++ pid ++ ") — OK")], true)
  | some (pid, false) =>
      ([.die ("WDT keepalive PID file exists (/run/wdt-keepalive.pid) but process " ++ pid ++
        " is dead.  The hardware watchdog may fire mid-update. " ++
        "Start wdt-keepalive before updating.")], false)

/-- Blanks of `IFS` within a line. -/
def isIfsBlank (c : Char) : Bool := c = ' ' || c = '\t'

/-- `read -r first second`, which fails when there is no whole line. -/
def readPair (text : List Char) : Option (List Char × List Char) :=
  if '\n' ∈ text then
    let line := (text.takeWhile (· ≠ '\n')).dropWhile isIfsBlank
    let rest := (line.dropWhile (!isIfsBlank ·)).dropWhile isIfsBlank
    some (line.takeWhile (!isIfsBlank ·), (rest.reverse.dropWhile isIfsBlank).reverse)
  else none

/-- The two numbers of the checkpoint file. -/
def readCheckpoint (text : String) : Option (Int × Int) := do
  let (time, ce) ← readPair text.toList
  return (← arithmeticValue (String.ofList time), ← arithmeticValue (String.ofList ce))

/-- `echo "$(date +%s) ${CURRENT_CE}"`. -/
def checkpointText (stamp : Nat) (ce : Int) : String :=
  toString stamp ++ " " ++ toString ce ++ "\n"

/-- `CE_PER_HOUR`. -/
def cePerHour (delta elapsed : Int) : Int :=
  if 0 < elapsed then (wrap (delta * 3600)).tdiv elapsed else delta

/-- The comparison with the checkpoint: its lines, and whether the hook goes on. -/
def compareCheckpoint (m : PreMachine) (ce : Int) (checkpoint : Option String) :
    List HookLine × Bool :=
  match checkpoint with
  | none =>
      ([.warn ("No EDAC checkpoint file at /data/edac-ce-checkpoint; " ++
        "cannot compute rate.  Writing checkpoint now for future runs.")], true)
  | some text =>
      match readCheckpoint text with
      | none => ([], false)
      | some (time, old) =>
          let elapsed := wrap (m.now - time)
          let delta := wrap (ce - old)
          let rate := cePerHour delta elapsed
          let measured := HookLine.log ("EDAC CE delta: " ++ toString delta ++
            " over " ++ toString elapsed ++ "s (" ++ toString rate ++ "/hr)")
          if 50 < rate then
            ([measured, .die ("EDAC correctable error rate " ++ toString rate ++
              "/hr exceeds limit 50/hr.  Possible DRAM degradation. " ++
              "Update aborted to protect data integrity.")], false)
          else ([measured], true)

/-- What a write leaves which was cut short; the newline at the end is always missing. -/
def cutShort (text : String) (length : Nat) : String :=
  String.ofList (text.toList.dropLast.take length)

/-- The write of the checkpoint: the file it leaves, and whether it succeeds. -/
def writeCheckpoint (m : PreMachine) (ce : Int) (checkpoint : Option String) :
    Option String × Bool :=
  match m.write with
  | .written => (some (checkpointText m.stamp ce), true)
  | .refused => (checkpoint, false)
  | .cut length => (some (cutShort (checkpointText m.stamp ce) length), false)

/-- The part about memory errors: the checkpoint file it leaves, its lines, and whether the
hook goes on; `set -e` ends it where the write fails. -/
def checkEdac (m : PreMachine) (checkpoint : Option String) :
    Option String × List HookLine × Bool :=
  match m.edac with
  | none =>
      (checkpoint,
        [.log "EDAC sysfs not present — skipping memory error check (non-ECC board?)"], true)
  | some entries =>
      match currentCe (ceFilesIn entries) with
      | none => (checkpoint, [], false)
      | some ce =>
          let counted := HookLine.log
            ("EDAC cumulative correctable error count: " ++ toString ce)
          let (compared, passed) := compareCheckpoint m ce checkpoint
          if passed then
            let (left, written) := writeCheckpoint m ce checkpoint
            (left, counted :: compared ++
              (if written then [.log "EDAC check passed"] else []), written)
          else (checkpoint, counted :: compared, false)

/-- A battery stops the update. -/
def Battery.Low (b : Battery) : Prop := b.status = "Discharging" ∧ b.capacity < 30

instance (b : Battery) : Decidable b.Low :=
  inferInstanceAs (Decidable (b.status = "Discharging" ∧ b.capacity < 30))

def checkBatteries : List Battery → List HookLine × Bool
  | [] => ([.log "Power check passed"], true)
  | b :: rest =>
      let seen := HookLine.log ("Battery " ++ b.name ++ ": status=" ++ b.status ++
        ", capacity=" ++ toString b.capacity ++ "%")
      if b.Low then
        ([seen, .die ("Battery is discharging at " ++ toString b.capacity ++
          "% (minimum 30%).  Connect AC power before updating to prevent mid-write power loss.")],
          false)
      else (seen :: (checkBatteries rest).1, (checkBatteries rest).2)

def checkPower (m : PreMachine) : List HookLine × Bool :=
  match m.batteries with
  | none =>
      ([.log "No battery sysfs found — assuming AC/PoE powered board, skipping power check"], true)
  | some batteries => checkBatteries batteries

/-- `rauc-pre-install.sh`, from the checkpoint file that it finds. -/
def preInstall (m : PreMachine) (checkpoint : Option String) : PreResult :=
  let head := [HookLine.log
      ("Starting pre-install checks for bundle version " ++ m.bundleVersion.getD "unknown"),
    .log ("Target slot: " ++ m.slotName.getD "unknown" ++
      " (" ++ m.slotDevice.getD "unknown" ++ ")")]
  let (space, enough) := checkSpace m
  if !enough then ⟨checkpoint, head ++ space, 1⟩
  else
    let (watchdog, kept) := checkKeepalive m
    let started := head ++ space ++ slotLines m ++ watchdog
    if !kept then ⟨checkpoint, started, 1⟩
    else
      let (left, memory, quiet) := checkEdac m checkpoint
      if !quiet then ⟨left, started ++ memory, 1⟩
      else
        let (power, charged) := checkPower m
        if !charged then ⟨left, started ++ memory ++ power, 1⟩
        else
          ⟨left, started ++ memory ++ power ++
            [.log ("All pre-install checks passed. Proceeding with update to slot " ++
              m.slotBootname.getD "?" ++ ".")], 0⟩

/-! ## Marks -/

/-- What the checkpoint file says. -/
structure Mark where
  time : Nat
  ce : Nat

def Mark.text (k : Mark) : String := checkpointText k.time k.ce

/-- A digit is no blank and no sign. -/
theorem ne_of_mem_toDigits {n : Nat} {c : Char} (hc : c ∈ Nat.toDigits 10 n) :
    c ≠ '\n' ∧ isIfsBlank c = false ∧ c ≠ '-' := by
  have hdigit := GoStrings.isDigit_toDigits n c hc
  refine ⟨?_, ?_, ?_⟩
  · rintro rfl
    exact absurd hdigit (by decide)
  · rw [isIfsBlank, Bool.or_eq_false_iff]
    constructor
    · refine decide_eq_false ?_
      rintro rfl
      exact absurd hdigit (by decide)
    · refine decide_eq_false ?_
      rintro rfl
      exact absurd hdigit (by decide)
  · rintro rfl
    exact absurd hdigit (by decide)

/-- What a checkpoint looks like in the file. -/
theorem Mark.toList_text (k : Mark) : k.text.toList =
    Nat.toDigits 10 k.time ++ ' ' :: (Nat.toDigits 10 k.ce ++ ['\n']) := by
  rw [Mark.text, checkpointText, String.toList_append, String.toList_append,
    String.toList_append, Nat.toString_eq_repr, Nat.toList_repr]
  simp [toString, Int.repr, Nat.toList_repr]

/-- The newline is the last character of a checkpoint, and the only one. -/
theorem Mark.newline_not_mem_cutShort (k : Mark) (length : Nat) :
    '\n' ∉ (cutShort k.text length).toList := by
  have hfront : k.text.toList.dropLast =
      Nat.toDigits 10 k.time ++ ' ' :: Nat.toDigits 10 k.ce := by
    rw [k.toList_text, ← List.cons_append, ← List.append_assoc, List.dropLast_concat]
  intro hmem
  rw [cutShort, String.toList_ofList, hfront] at hmem
  rcases List.mem_append.1 (List.mem_of_mem_take hmem) with hmem | hmem
  · exact (ne_of_mem_toDigits hmem).1 rfl
  · rcases List.mem_cons.1 hmem with hmem | hmem
    · exact absurd hmem (by decide)
    · exact (ne_of_mem_toDigits hmem).1 rfl

/-- A checkpoint file: it is absent, or has a mark, or what a write has left in it which was cut
short. -/
inductive Checkpoint
  | absent
  | mark (k : Mark)
  | cut (text : String) (hcut : '\n' ∉ text.toList)

def Checkpoint.text : Checkpoint → Option String
  | absent => none
  | mark k => some k.text
  | cut text _ => some text

/-- The errors since the mark are few enough. -/
def Mark.Allows (k : Mark) (now ce : Nat) : Prop :=
  if k.time < now then 3600 * ((ce : Int) - k.ce) < 51 * ((now : Int) - k.time)
  else (ce : Int) - k.ce ≤ 50

instance (k : Mark) (now ce : Nat) : Decidable (k.Allows now ce) :=
  inferInstanceAs (Decidable (if k.time < now then
    3600 * ((ce : Int) - k.ce) < 51 * ((now : Int) - k.time) else (ce : Int) - k.ce ≤ 50))

/-- With no file there is nothing to compare with, and one that was cut short cannot be read. -/
def Checkpoint.Allows (c : Checkpoint) (now ce : Nat) : Prop :=
  match c with
  | absent => True
  | mark k => k.Allows now ce
  | cut _ _ => False

instance (c : Checkpoint) (now ce : Nat) : Decidable (c.Allows now ce) :=
  match c with
  | .absent => isTrue trivial
  | .mark k => inferInstanceAs (Decidable (k.Allows now ce))
  | .cut _ _ => isFalse id

/-- The counters of a csrow in the EDAC core, by its channels. -/
structure Csrow where
  name : String
  channels : List (String × Nat)

def Csrow.ceCount (r : Csrow) : Nat := (r.channels.map Prod.snd).sum

/-- A memory controller in the EDAC core: the errors which it could not locate, and those of
its csrows. -/
structure Controller where
  name : String
  ceNoinfo : Nat
  csrows : List Csrow

/-- The errors of which the csrow is known. -/
def Controller.located (c : Controller) : Nat := (c.csrows.map Csrow.ceCount).sum

def counterNode (name : String) (n : Nat) : SysfsNode := .file name (some (toString n ++ "\n"))

def Csrow.node (r : Csrow) : SysfsNode :=
  .dir r.name (counterNode "ce_count" r.ceCount ::
    r.channels.map fun c => counterNode ("ch" ++ c.1 ++ "_ce_count") c.2)

def Controller.node (c : Controller) : SysfsNode :=
  .dir c.name (counterNode "ce_count" (c.ceNoinfo + c.located) ::
    counterNode "ce_noinfo_count" c.ceNoinfo :: c.csrows.map Csrow.node)

/-- The EDAC directory. -/
def edacEntries (controllers : List Controller) : List SysfsNode :=
  [.dir "mc" (controllers.map Controller.node)]

/-- What the hook counts of a controller. -/
def Controller.counted (c : Controller) : Nat := c.ceNoinfo + 2 * c.located

def counted (controllers : List Controller) : Nat := (controllers.map Controller.counted).sum

/-- A run of the hook on a machine whose EDAC directory shows its controllers. -/
structure Attempt extends PreMachine where
  controllers : Option (List Controller)
  shown : edac = controllers.map edacEntries

/-- The numbers are far from the limits of `intmax_t`. -/
structure Attempt.Fits (a : Attempt) : Prop where
  now : a.now < 2 ^ 50
  stamp : a.stamp < 2 ^ 50
  count : ∀ cs ∈ a.controllers, counted cs < 2 ^ 50

/-- A file system is mounted on `/data`. -/
def Attempt.mounted (a : Attempt) : Bool := a.dataFreeMib.isSome

/-- The checkpoint allows the errors that the machine shows. -/
def Attempt.quiet (c : Checkpoint) (a : Attempt) : Bool :=
  match a.controllers with
  | none => true
  | some cs => c.Allows a.now (counted cs)

/-- The checkpoint that a write of a mark leaves. -/
def Checkpoint.rewritten (c : Checkpoint) (k : Mark) (write : CheckpointWrite) : Checkpoint :=
  match write with
  | .written => .mark k
  | .refused => c
  | .cut length => .cut (cutShort k.text length) (k.newline_not_mem_cutShort length)

/-- The checkpoint after an attempt; it moves also when the batteries stop the update. -/
def Attempt.next (c : Checkpoint) (a : Attempt) : Checkpoint :=
  match a.controllers with
  | none => c
  | some cs =>
      if (checkSpace a.toPreMachine).2 && (checkKeepalive a.toPreMachine).2 && a.quiet c then
        c.rewritten ⟨a.stamp, counted cs⟩ a.write
      else c

/-- What has to hold for an update to go ahead. -/
structure Attempt.Proceeds (c : Checkpoint) (a : Attempt) : Prop where
  space : ∀ free ∈ a.dataFreeMib, 200 ≤ free
  keepalive : ∀ p ∈ a.keepalivePid, p.2 = true
  errors : ∀ cs ∈ a.controllers, c.Allows a.now (counted cs) ∧ a.write = .written
  power : ∀ batteries ∈ a.batteries, ∀ b ∈ batteries, ¬ b.Low

/-! ## What the hook counts -/

/-- So they are those of each entry. -/
theorem ceFilesIn_eq_flatMap (nodes : List SysfsNode) :
    ceFilesIn nodes = nodes.flatMap SysfsNode.ceFiles := by
  induction nodes with
  | nil => rfl
  | cons node rest ih => rw [ceFilesIn, ih, List.flatMap_cons]

/-- The content of a counter. -/
def counterText (n : Nat) : Option String := some (toString n ++ "\n")

/-- A channel's counter is not among them. -/
theorem ceFiles_channel (channel : String) (n : Nat) :
    (counterNode ("ch" ++ channel ++ "_ce_count") n).ceFiles = [] := by
  have hname : "ch" ++ channel ++ "_ce_count" ≠ "ce_count" := by
    intro h
    have hlist := congrArg String.toList h
    simp [String.toList_append] at hlist
  simp [counterNode, SysfsNode.ceFiles, hname]

/-- A csrow has one. -/
theorem Csrow.ceFiles_node (r : Csrow) : r.node.ceFiles = [counterText r.ceCount] := by
  have hchannels : (r.channels.map fun c => counterNode ("ch" ++ c.1 ++ "_ce_count") c.2).flatMap
      SysfsNode.ceFiles = [] := by
    rw [List.flatMap_map]
    exact List.flatMap_eq_nil_iff.2 fun c _ => ceFiles_channel c.1 c.2
  rw [Csrow.node, SysfsNode.ceFiles, ceFilesIn, ceFilesIn_eq_flatMap, hchannels]
  rfl

/-- A controller has one, and those of its csrows. -/
theorem Controller.ceFiles_node (c : Controller) :
    c.node.ceFiles = ((c.ceNoinfo + c.located) :: c.csrows.map Csrow.ceCount).map counterText := by
  have hcsrows : (c.csrows.map Csrow.node).flatMap SysfsNode.ceFiles =
      (c.csrows.map Csrow.ceCount).map counterText := by
    rw [List.flatMap_map, List.map_map]
    induction c.csrows with
    | nil => rfl
    | cons r rest ih =>
        rw [List.flatMap_cons, ih, Csrow.ceFiles_node]
        rfl
  rw [Controller.node, SysfsNode.ceFiles, ceFilesIn, ceFilesIn, ceFilesIn_eq_flatMap, hcsrows]
  rfl

/-- The counters whose files the hook reads. -/
def readCounts (controllers : List Controller) : List Nat :=
  controllers.flatMap fun c => (c.ceNoinfo + c.located) :: c.csrows.map Csrow.ceCount

/-- The files that are found have the counts which the driver shows. -/
theorem ceFilesIn_edacEntries (controllers : List Controller) :
    ceFilesIn (edacEntries controllers) = (readCounts controllers).map counterText := by
  rw [edacEntries, ceFilesIn, ceFilesIn, List.append_nil, SysfsNode.ceFiles, ceFilesIn_eq_flatMap,
    readCounts]
  induction controllers with
  | nil => rfl
  | cons c rest ih =>
      rw [List.map_cons, List.flatMap_cons, ih, Controller.ceFiles_node, List.flatMap_cons,
        List.map_append]

/-- Every located error is counted for its csrow and for its controller. -/
theorem sum_readCounts (controllers : List Controller) :
    (readCounts controllers).sum = counted controllers := by
  induction controllers with
  | nil => rfl
  | cons c rest ih =>
      rw [readCounts] at ih
      have hcounted : counted (c :: rest) = c.counted + counted rest := by
        rw [counted, List.map_cons, List.sum_cons, counted]
      rw [readCounts, List.flatMap_cons, List.sum_append, ih, List.sum_cons, hcounted,
        Controller.counted, Controller.located]
      omega

/-! ## Texts and numbers -/

/-- A number of 64 bits stays as it is. -/
theorem wrap_eq {n : Int} (hlow : -2 ^ 63 ≤ n) (hhigh : n < 2 ^ 63) : wrap n = n := by
  rw [wrap]
  apply Int.bmod_eq_of_le <;> omega

/-- The newline of a counter is stripped. -/
theorem substituted_counter (n : Nat) : substituted (toString n ++ "\n") = toString n := by
  have hlist : (toString n ++ "\n").toList.reverse = '\n' :: (Nat.toDigits 10 n).reverse := by
    rw [String.toList_append, Nat.toString_eq_repr, Nat.toList_repr, List.reverse_append]
    rfl
  have hkept : (Nat.toDigits 10 n).reverse.dropWhile (· = '\n') = (Nat.toDigits 10 n).reverse := by
    cases hdigits : (Nat.toDigits 10 n).reverse with
    | nil => rfl
    | cons c rest =>
        have hc : c ∈ Nat.toDigits 10 n := by
          rw [← List.mem_reverse, hdigits]
          exact List.mem_cons_self
        rw [List.dropWhile_cons_of_neg (by simpa using (ne_of_mem_toDigits hc).1)]
  rw [substituted, hlist, List.dropWhile_cons_of_pos (by rfl), hkept, List.reverse_reverse,
    Nat.toString_eq_repr, ← Nat.toList_repr, String.ofList_toList]

/-- The shell reads a counter back. -/
theorem arithmeticValue_toString {n : Nat} (hn : n < 2 ^ 63) :
    arithmeticValue (toString n) = some (n : Int) := by
  have htest : testInteger (toString n) = some (n : Int) := by
    rw [testInteger, if_neg (toString_ne_empty n), if_pos (isDigit_toString n),
      bashInteger_toString hn]
  rw [arithmeticValue]
  split
  · next digit digits heq =>
      have hmem : '-' ∈ Nat.toDigits 10 n := by
        rw [Nat.toString_eq_repr, Nat.toList_repr] at heq
        rw [heq]
        exact List.mem_cons_self
      exact absurd rfl (ne_of_mem_toDigits hmem).2.2
  · exact htest

/-- The hook sums the counters it finds. -/
theorem currentCe_counters {ns : List Nat} (hns : ns.sum < 2 ^ 63) :
    currentCe (ns.map counterText) = some (ns.sum : Int) := by
  have hfold : ∀ (ns : List Nat) (total : Nat), total + ns.sum < 2 ^ 63 →
      (ns.map counterText).foldlM (fun total content => do
        let count ← arithmeticValue (substituted (content.getD "0\n"))
        return wrap (total + count)) (total : Int) = some ((total + ns.sum : Nat) : Int) := by
    intro ns
    induction ns with
    | nil => exact fun total _ => rfl
    | cons n rest ih =>
        intro total hsum
        rw [List.sum_cons] at hsum
        have hvalue : arithmeticValue (substituted ((counterText n).getD "0\n")) =
            some (n : Int) := by
          rw [counterText, Option.getD_some, substituted_counter,
            arithmeticValue_toString (by omega)]
        have hwrap : wrap ((total : Int) + n) = ((total + n : Nat) : Int) := by
          rw [wrap_eq (by omega) (by omega), Nat.cast_add]
        rw [List.map_cons, List.foldlM_cons, hvalue, List.sum_cons, ← Nat.add_assoc,
          ← ih (total + n) (by omega), ← hwrap]
        rfl
  have hall := hfold ns 0 (by omega)
  rwa [Nat.zero_add] at hall

/-- And the two numbers of a checkpoint. -/
theorem readPair_digits (n m : Nat) :
    readPair (Nat.toDigits 10 n ++ ' ' :: (Nat.toDigits 10 m ++ ['\n'])) =
      some (Nat.toDigits 10 n, Nat.toDigits 10 m) := by
  have hline : ∀ c ∈ Nat.toDigits 10 n ++ ' ' :: Nat.toDigits 10 m, c ≠ '\n' := by
    intro c hc
    rcases List.mem_append.1 hc with hc | hc
    · exact (ne_of_mem_toDigits hc).1
    · rcases List.mem_cons.1 hc with rfl | hc
      · decide
      · exact (ne_of_mem_toDigits hc).1
  have hdrop : ∀ (digits rest : List Char), digits ≠ [] →
      (∀ c ∈ digits, isIfsBlank c = false) →
      (digits ++ rest).dropWhile isIfsBlank = digits ++ rest := by
    intro digits rest hne hdigits
    obtain ⟨c, more, rfl⟩ := List.exists_cons_of_ne_nil hne
    rw [List.cons_append,
      List.dropWhile_cons_of_neg (by simpa using hdigits c List.mem_cons_self)]
  have hblank : ∀ k, ∀ c ∈ Nat.toDigits 10 k, isIfsBlank c = false :=
    fun k c hc => (ne_of_mem_toDigits hc).2.1
  have hne : ∀ k, Nat.toDigits 10 k ≠ [] := fun k => Nat.toDigits_ne_nil
  have htext : Nat.toDigits 10 n ++ ' ' :: (Nat.toDigits 10 m ++ ['\n']) =
      (Nat.toDigits 10 n ++ ' ' :: Nat.toDigits 10 m) ++ ['\n'] := by
    simp
  have hfirst : (Nat.toDigits 10 n ++ ' ' :: Nat.toDigits 10 m).takeWhile (!isIfsBlank ·) =
      Nat.toDigits 10 n := by
    rw [List.takeWhile_append_of_pos fun c hc => by simpa using hblank n c hc]
    simp [isIfsBlank]
  have hrest : ((Nat.toDigits 10 n ++ ' ' :: Nat.toDigits 10 m).dropWhile
      (!isIfsBlank ·)).dropWhile isIfsBlank = Nat.toDigits 10 m := by
    rw [List.dropWhile_append_of_pos fun c hc => by simpa using hblank n c hc,
      List.dropWhile_cons_of_neg (by decide), List.dropWhile_cons_of_pos (by decide)]
    simpa using hdrop (Nat.toDigits 10 m) [] (hne m) (hblank m)
  have htrim : ((Nat.toDigits 10 m).reverse.dropWhile isIfsBlank).reverse =
      Nat.toDigits 10 m := by
    have hrev := hdrop (Nat.toDigits 10 m).reverse [] (by simp)
      fun c hc => hblank m c (List.mem_reverse.1 hc)
    rw [List.append_nil] at hrev
    rw [hrev, List.reverse_reverse]
  rw [htext, readPair, if_pos (by simp), List.takeWhile_append_of_pos
    fun c hc => by simpa using hline c hc, List.takeWhile_cons_of_neg (by decide),
    List.append_nil, hdrop _ _ (hne n) (hblank n)]
  simp only [hfirst, hrest, htrim]

/-- The hook reads what it wrote. -/
theorem readCheckpoint_text {k : Mark} (htime : k.time < 2 ^ 63) (hce : k.ce < 2 ^ 63) :
    readCheckpoint k.text = some ((k.time : Int), (k.ce : Int)) := by
  have hvalue : ∀ n < 2 ^ 63, arithmeticValue (String.ofList (Nat.toDigits 10 n)) =
      some (n : Int) := by
    intro n hn
    rw [← Nat.toList_repr, String.ofList_toList, ← Nat.toString_eq_repr,
      arithmeticValue_toString hn]
  rw [readCheckpoint, k.toList_text, readPair_digits]
  simp only [bind, Option.bind, hvalue _ htime, hvalue _ hce, pure]

/-- The rate which the hook computes is at most its limit. -/
theorem cePerHour_le_iff {delta elapsed : Int} (hlow : -2 ^ 50 < delta) (hhigh : delta < 2 ^ 50) :
    ¬ 50 < cePerHour delta elapsed ↔
      if 0 < elapsed then 3600 * delta < 51 * elapsed else delta ≤ 50 := by
  have hwrap : wrap (delta * 3600) = delta * 3600 := wrap_eq (by omega) (by omega)
  rw [cePerHour, hwrap]
  by_cases hpos : 0 < elapsed
  · rw [if_pos hpos, if_pos hpos]
    by_cases hdelta : 0 ≤ delta * 3600
    · rw [Int.tdiv_eq_ediv_of_nonneg hdelta, not_lt, ← Int.lt_add_one_iff,
        Int.ediv_lt_iff_lt_mul hpos]
      constructor <;> intro h <;> linarith
    · have hneg : (delta * 3600).tdiv elapsed ≤ 0 := by
        have hopposite := Int.tdiv_nonneg (a := -(delta * 3600)) (b := elapsed) (by omega) hpos.le
        rw [Int.neg_tdiv] at hopposite
        omega
      constructor
      · intro _
        nlinarith
      · intro _
        omega
  · rw [if_neg hpos, if_neg hpos]
    omega

/-- In the range of 64 bits the shell's rate is the rate. -/
theorem Mark.allows_iff {k : Mark} {now ce : Nat} (hce : ce < 2 ^ 50) (hk : k.ce < 2 ^ 50) :
    ¬ 50 < cePerHour ((ce : Int) - k.ce) ((now : Int) - k.time) ↔ k.Allows now ce := by
  rw [cePerHour_le_iff (by omega) (by omega), Mark.Allows]
  by_cases hlater : k.time < now
  · rw [if_pos (by omega), if_pos hlater]
  · rw [if_neg (by omega), if_neg hlater]

/-! ## The hook and the mark -/

/-- The numbers of a mark are far from the limits of `intmax_t`. -/
def Mark.Fits (k : Mark) : Prop := k.time < 2 ^ 50 ∧ k.ce < 2 ^ 50

def Checkpoint.Fits (c : Checkpoint) : Prop := ∀ k, c = .mark k → k.Fits

/-- What is left of a write that was cut short is no line. -/
theorem readCheckpoint_cut {text : String} (hcut : '\n' ∉ text.toList) :
    readCheckpoint text = none := by
  rw [readCheckpoint, readPair, if_neg hcut]
  rfl

/-- The comparison is with what the checkpoint says. -/
theorem compareCheckpoint_iff {m : PreMachine} {ce : Nat} {c : Checkpoint} (hnow : m.now < 2 ^ 50)
    (hce : ce < 2 ^ 50) (hc : c.Fits) :
    (compareCheckpoint m ce c.text).2 = true ↔ c.Allows m.now ce := by
  cases c with
  | absent => exact iff_of_true rfl trivial
  | cut text hcut => simp [compareCheckpoint, Checkpoint.text, readCheckpoint_cut hcut,
      Checkpoint.Allows]
  | mark k =>
      obtain ⟨htime, hold⟩ := hc k rfl
      have hread := readCheckpoint_text (k := k) (by omega) (by omega)
      have helapsed : wrap ((m.now : Int) - k.time) = (m.now : Int) - k.time :=
        wrap_eq (by omega) (by omega)
      have hdelta : wrap ((ce : Int) - k.ce) = (ce : Int) - k.ce := wrap_eq (by omega) (by omega)
      have hallows : ¬ 50 < cePerHour ((ce : Int) - k.ce) ((m.now : Int) - k.time) ↔
          k.Allows m.now ce := Mark.allows_iff hce hold
      simp only [compareCheckpoint, Checkpoint.text, hread, helapsed, hdelta, Checkpoint.Allows,
        ← hallows]
      split
      · next hmany => simp [hmany]
      · next hfew => simp [hfew]

/-- A write of the checkpoint leaves what it leaves of the mark. -/
theorem writeCheckpoint_eq (m : PreMachine) (ce : Nat) (c : Checkpoint) :
    writeCheckpoint m ce c.text =
      ((c.rewritten ⟨m.stamp, ce⟩ m.write).text, decide (m.write = .written)) := by
  unfold writeCheckpoint Checkpoint.rewritten
  cases m.write with
  | written => rfl
  | refused => rfl
  | cut length => rfl

/-- The part about memory errors compares with the checkpoint and moves it. -/
theorem checkEdac_spec {a : Attempt} {c : Checkpoint} (ha : a.Fits) (hc : c.Fits) :
    (checkEdac a.toPreMachine c.text).1 =
        (match a.controllers with
          | none => c
          | some cs =>
              if a.quiet c then c.rewritten ⟨a.stamp, counted cs⟩ a.write else c).text ∧
      ((checkEdac a.toPreMachine c.text).2.2 = true ↔
        a.quiet c = true ∧ (a.controllers ≠ none → a.write = .written)) := by
  have hshown := a.shown
  unfold checkEdac Attempt.quiet
  rw [hshown]
  cases hcs : a.controllers with
  | none => exact ⟨rfl, by simp⟩
  | some cs =>
      have hcount := ha.count cs hcs
      have hsum : currentCe (ceFilesIn (edacEntries cs)) = some ((counted cs : Nat) : Int) := by
        rw [ceFilesIn_edacEntries, currentCe_counters (by rw [sum_readCounts]; omega),
          sum_readCounts]
      have hcompare := compareCheckpoint_iff (m := a.toPreMachine) ha.now hcount hc
      have hwrite := writeCheckpoint_eq a.toPreMachine (counted cs) c
      by_cases hallows : c.Allows a.now (counted cs)
      · simp [hsum, hcompare.2 hallows, hwrite, hallows]
      · have hstops : (compareCheckpoint a.toPreMachine (counted cs) c.text).2 = false :=
          Bool.eq_false_iff.2 (mt hcompare.1 hallows)
        simp [hsum, hstops, hallows]

/-- There is space enough, where it can be told. -/
theorem checkSpace_iff (m : PreMachine) :
    (checkSpace m).2 = true ↔ ∀ free ∈ m.dataFreeMib, 200 ≤ free := by
  rw [checkSpace]
  cases m.dataFreeMib with
  | none => simp
  | some free =>
      by_cases hfree : free < 200
      · simp [hfree]
      · simp only [hfree, if_false, Option.mem_some_iff, forall_eq', true_iff]
        omega

/-- The heartbeat is alive, where it has written its process number. -/
theorem checkKeepalive_iff (m : PreMachine) :
    (checkKeepalive m).2 = true ↔ ∀ p ∈ m.keepalivePid, p.2 = true := by
  rw [checkKeepalive]
  cases m.keepalivePid with
  | none => simp
  | some p =>
      obtain ⟨pid, alive⟩ := p
      cases alive <;> simp

/-- No battery is low. -/
theorem checkBatteries_iff (batteries : List Battery) :
    (checkBatteries batteries).2 = true ↔ ∀ b ∈ batteries, ¬ b.Low := by
  induction batteries with
  | nil => simp [checkBatteries]
  | cons b rest ih =>
      rw [checkBatteries, List.forall_mem_cons]
      by_cases hlow : b.Low
      · simp [hlow]
      · simp [hlow, ih]

/-- The same where there are batteries. -/
theorem checkPower_iff (m : PreMachine) :
    (checkPower m).2 = true ↔ ∀ batteries ∈ m.batteries, ∀ b ∈ batteries, ¬ b.Low := by
  rw [checkPower]
  cases m.batteries with
  | none => simp
  | some batteries => simpa using checkBatteries_iff batteries

/-- The memory is quiet, where it can be told. -/
theorem Attempt.quiet_iff (c : Checkpoint) (a : Attempt) :
    a.quiet c = true ↔ ∀ cs ∈ a.controllers, c.Allows a.now (counted cs) := by
  unfold Attempt.quiet
  cases a.controllers with
  | none => simp
  | some cs => simp

/-- The conditions of an update, one for each check. -/
theorem Attempt.proceeds_iff (c : Checkpoint) (a : Attempt) :
    a.Proceeds c ↔ (checkSpace a.toPreMachine).2 = true ∧
      (checkKeepalive a.toPreMachine).2 = true ∧
        (a.quiet c = true ∧ (a.controllers ≠ none → a.write = .written)) ∧
          (checkPower a.toPreMachine).2 = true := by
  rw [checkSpace_iff, checkKeepalive_iff, Attempt.quiet_iff, checkPower_iff]
  constructor
  · intro h
    refine ⟨h.space, h.keepalive, ⟨fun cs hcs => (h.errors cs hcs).1, fun hne => ?_⟩, h.power⟩
    obtain ⟨cs, hcs⟩ := Option.ne_none_iff_exists'.1 hne
    exact (h.errors cs hcs).2
  · rintro ⟨hspace, hkept, ⟨hallows, hwrite⟩, hpower⟩
    exact ⟨hspace, hkept, fun cs hcs => ⟨hallows cs hcs, hwrite (hcs ▸ Option.some_ne_none cs)⟩,
      hpower⟩

/-- One run of the hook, in terms of the checkpoint. -/
theorem preInstall_spec {a : Attempt} {c : Checkpoint} (ha : a.Fits) (hc : c.Fits) :
    (preInstall a.toPreMachine c.text).checkpoint = (a.next c).text ∧
      ((preInstall a.toPreMachine c.text).status = 0 ↔ a.Proceeds c) := by
  obtain ⟨hleft, hpassed⟩ := checkEdac_spec ha hc
  rw [Attempt.proceeds_iff, ← hpassed, preInstall, Attempt.next]
  cases hspace : (checkSpace a.toPreMachine).2 with
  | false =>
      simp only [hspace, Bool.not_false, if_true, Bool.false_and]
      cases a.controllers <;> simp
  | true =>
      cases hkept : (checkKeepalive a.toPreMachine).2 with
      | false =>
          simp only [hspace, hkept]
          cases a.controllers <;> simp
      | true =>
          simp only [hspace, hkept, Bool.true_and]
          cases hquiet : (checkEdac a.toPreMachine c.text).2.2 with
          | false => simp [hleft]
          | true =>
              cases hpower : (checkPower a.toPreMachine).2 <;> simp [hleft]

/-! ## Runs -/

/-- The checkpoint files after runs of the hook, by whether a file system is mounted. -/
def filesAfter (files : Bool → Option String) (run : List Attempt) : Bool → Option String :=
  run.foldl (fun files a => Function.update files a.mounted
    (preInstall a.toPreMachine (files a.mounted)).checkpoint) files

/-- What the checkpoints say after runs of the hook. -/
def checkpointsAfter (cs : Bool → Checkpoint) (run : List Attempt) : Bool → Checkpoint :=
  run.foldl (fun cs a => Function.update cs a.mounted (a.next (cs a.mounted))) cs

/-- The next checkpoint is within the range too. -/
theorem Attempt.Fits.next {a : Attempt} (ha : a.Fits) {c : Checkpoint} (hc : c.Fits) :
    (a.next c).Fits := by
  rw [Attempt.next]
  cases hcs : a.controllers with
  | none => exact hc
  | some cs =>
      simp only
      split
      · unfold Checkpoint.rewritten
        cases a.write with
        | written =>
            intro k hk
            obtain rfl := Checkpoint.mark.inj hk
            exact ⟨ha.stamp, ha.count cs hcs⟩
        | refused => exact hc
        | cut length => exact fun k hk => nomatch hk
      · exact hc

/-- After any runs of the hook the files say what the checkpoints say. -/
theorem filesAfter_eq {cs : Bool → Checkpoint} (hcs : ∀ mounted, (cs mounted).Fits)
    {run : List Attempt} (hrun : ∀ a ∈ run, a.Fits) :
    filesAfter (fun mounted => (cs mounted).text) run =
        (fun mounted => (checkpointsAfter cs run mounted).text) ∧
      ∀ mounted, (checkpointsAfter cs run mounted).Fits := by
  induction run generalizing cs with
  | nil => exact ⟨rfl, hcs⟩
  | cons a run ih =>
      have ha := hrun a List.mem_cons_self
      have hnext : ∀ mounted,
          (Function.update cs a.mounted (a.next (cs a.mounted)) mounted).Fits := by
        intro mounted
        by_cases hhere : mounted = a.mounted
        · rw [hhere, Function.update_self]
          exact ha.next (hcs a.mounted)
        · rw [Function.update_of_ne hhere]
          exact hcs mounted
      obtain ⟨hfiles, hfits⟩ := ih hnext fun b hb => hrun b (List.mem_cons_of_mem _ hb)
      refine ⟨?_, hfits⟩
      rw [filesAfter, List.foldl_cons, (preInstall_spec ha (hcs a.mounted)).1]
      refine Eq.trans ?_ hfiles
      congr 1
      funext mounted
      by_cases hhere : mounted = a.mounted
      · rw [hhere, Function.update_self, Function.update_self]
      · rw [Function.update_of_ne hhere, Function.update_of_ne hhere]

/-- A machine which could not locate two of its errors, and located the others. -/
def attemptAt (now located : Nat) (capacity : Int) : Attempt where
  slotBootname := some "B"
  bundleVersion := none
  slotVersion := none
  slotName := none
  slotDevice := none
  dataFreeMib := some 512
  slotSize := none
  keepalivePid := none
  edac := some (edacEntries [⟨"mc0", 2, [⟨"csrow0", [("0", located)]⟩]⟩])
  now := now
  stamp := now
  write := .written
  batteries := some [⟨"BAT0", "Discharging", capacity⟩]
  controllers := some [⟨"mc0", 2, [⟨"csrow0", [("0", located)]⟩]⟩]
  shown := rfl

/-- The attempts of the witness are within the range. -/
theorem fits_attemptAt {now located : Nat} {capacity : Int} (hnow : now < 2 ^ 50)
    (hlocated : located < 2 ^ 40) : (attemptAt now located capacity).Fits := by
  refine ⟨hnow, hnow, fun cs hcs => ?_⟩
  obtain rfl := Option.some.inj hcs
  simp only [counted, Controller.counted, Controller.located, Csrow.ceCount, List.map_cons,
    List.map_nil, List.sum_cons, List.sum_nil]
  omega

/-- With nothing mounted an attempt goes by the other file, whose write fails here. -/
def unmountedAt (now located : Nat) : Attempt :=
  { attemptAt now located 80 with dataFreeMib := none, write := .cut 7 }

/-- So are those without the mount. -/
theorem fits_unmountedAt {now located : Nat} (hnow : now < 2 ^ 50) (hlocated : located < 2 ^ 40) :
    (unmountedAt now located).Fits := by
  obtain ⟨hnow, hstamp, hcount⟩ : (attemptAt now located 80).Fits := fits_attemptAt hnow hlocated
  exact ⟨hnow, hstamp, hcount⟩

/-- The clock goes on: every attempt compares later than the one before could write. -/
def Clocked : Nat → List Attempt → Prop
  | _, [] => True
  | t, a :: run => t < a.now ∧ a.now ≤ a.stamp ∧ Clocked a.stamp run

/-- The mark has moved at less than 51 errors an hour, and lies in the past. -/
structure Mark.Since (first : Mark) (t : Nat) (k : Mark) : Prop where
  slow : 3600 * ((k.ce : Int) - first.ce) ≤ 51 * ((k.time : Int) - first.time)
  past : k.time ≤ t

/-- An attempt that is let through is within the rate from the first one on. -/
theorem Mark.Since.allows {first k : Mark} {t now ce : Nat} (h : first.Since t k) (ht : t < now)
    (hallows : k.Allows now ce) :
    3600 * ((ce : Int) - first.ce) < 51 * ((now : Int) - first.time) := by
  have hpast := h.past
  rw [Mark.Allows, if_pos (by omega)] at hallows
  have hslow := h.slow
  omega

/-- Every mark that the checkpoint can have is one since the first. -/
def Checkpoint.Since (first : Mark) (t : Nat) : Checkpoint → Prop
  | absent => False
  | mark k => first.Since t k
  | cut _ _ => True

/-- Time that passes changes nothing about it. -/
theorem Checkpoint.Since.later {first : Mark} {t t' : Nat} {c : Checkpoint} (h : c.Since first t)
    (ht : t ≤ t') : c.Since first t' := by
  cases c with
  | absent => exact h
  | mark k => exact ⟨h.slow, h.past.trans ht⟩
  | cut text hcut => trivial

/-- One attempt keeps to the marks since the first. -/
theorem Checkpoint.Since.next {first : Mark} {t : Nat} {c : Checkpoint} (h : c.Since first t)
    {a : Attempt} (ht : t < a.now) (hstamp : a.now ≤ a.stamp) :
    (a.next c).Since first a.stamp := by
  have hkept : c.Since first a.stamp := h.later (by omega)
  rw [Attempt.next.eq_def]
  cases hcs : a.controllers with
  | none => exact hkept
  | some cs =>
      simp only
      split
      · next hmoves =>
          rw [Bool.and_eq_true, Attempt.quiet_iff] at hmoves
          have hallows := hmoves.2 cs hcs
          unfold Checkpoint.rewritten
          cases a.write with
          | refused => exact hkept
          | cut length => trivial
          | written =>
              cases c with
              | absent => exact h.elim
              | cut text hcut => exact hallows.elim
              | mark k =>
                  have hslow := Mark.Since.allows h ht hallows
                  exact ⟨by simp only; omega, le_rfl⟩
      · exact hkept

/-- Through any run the checkpoint keeps to the rate. -/
theorem Checkpoint.Since.run {first : Mark} {t : Nat} {cs : Bool → Checkpoint} {mounted : Bool}
    (h : (cs mounted).Since first t) {run : List Attempt} (hclock : Clocked t run) :
    ∃ last, (checkpointsAfter cs run mounted).Since first last ∧
      ∀ rest, Clocked t (run ++ rest) → Clocked last rest := by
  induction run generalizing t cs with
  | nil => exact ⟨t, h, fun rest hrest => hrest⟩
  | cons a run ih =>
      obtain ⟨ht, hstamp, hrest⟩ := hclock
      have hnext : (Function.update cs a.mounted (a.next (cs a.mounted)) mounted).Since first
          a.stamp := by
        by_cases hhere : mounted = a.mounted
        · subst hhere
          rw [Function.update_self]
          exact h.next ht hstamp
        · rw [Function.update_of_ne hhere]
          exact h.later (by omega)
      obtain ⟨last, hsince, hclocked⟩ := ih hnext hrest
      exact ⟨last, hsince, fun more hmore => hclocked more hmore.2.2⟩

/-- The clock of a run is that of its beginning. -/
theorem clocked_front {t : Nat} {run rest : List Attempt} (h : Clocked t (run ++ rest)) :
    Clocked t run := by
  induction run generalizing t with
  | nil => trivial
  | cons a run ih => exact ⟨h.1, h.2.1, ih h.2.2⟩

/-- Every located error is counted twice, one without a location once. -/
theorem counted_eq (cs : List Controller) :
    counted cs = (cs.map Controller.ceNoinfo).sum + 2 * (cs.map Controller.located).sum := by
  induction cs with
  | nil => rfl
  | cons c rest ih =>
      rw [counted] at ih
      rw [counted, List.map_cons, List.sum_cons, ih, List.map_cons, List.sum_cons,
        List.map_cons, List.sum_cons, Controller.counted]
      omega

end FaultOracle.Boot
