import FaultOracle.BashNumbers

/-!
# Confirming a boot

`uboot-bootcount-reset.sh` clears the counter which U-Boot increments, once a boot has been a
success.  A run is any sequence of boots and of calls of the script.

`bootslot_run` gives the slot and the counter after a run in closed form.  The confirmations cut
the run into stretches of boots, and a stretch of `n` boots changes the slot `n / bootlimit`
times: the scheme forgets at every confirmation, and a slot which is confirmed every so often is
never given up.
-/

namespace FaultOracle.Boot

/-! ## The script -/

/-- What a call of `uboot-bootcount-reset.sh` finds, and its options. -/
structure ResetCall where
  fwPrintenv : Bool
  fwSetenv : Bool
  check : Bool
  dryRun : Bool
deriving DecidableEq

/-- `fw_printenv -n name || echo default`. -/
def printenv (env : Env) (name default : String) : String := (env name).getD default

/-- The number that `[[ ]]` reads; an empty text is zero. -/
def testInteger (text : String) : Option Int :=
  if text = "" then some 0
  else if text.toList.all Char.isDigit then bashInteger text.toList
  else none

/-- `[[ text -eq 0 ]]`. -/
def isZero (text : String) : Bool := testInteger text = some 0

/-- `[[ text -ge limit ]]`. -/
def reaches (text limit : String) : Bool :=
  match testInteger text, testInteger limit with
  | some n, some m => m ≤ n
  | _, _ => false

/-- `main` of `uboot-bootcount-reset.sh`: the environment it leaves and its exit status. -/
def bootcountReset (c : ResetCall) (env : Env) : Env × Nat :=
  if !c.fwPrintenv || !c.fwSetenv then (env, 2)
  else
    let bootcount := printenv env "bootcount" "0"
    if c.check then (env, if reaches bootcount (printenv env "bootlimit" "3") then 1 else 0)
    else if isZero bootcount then (env, 0)
    else if c.dryRun then (env, 0)
    else
      let cleared := setenv env "bootcount" "0"
      if printenv env "upgrade_available" "0" = "1" then
        (setenv cleared "upgrade_available" "0", 0)
      else (cleared, 0)

/-- The call confirms the boot. -/
def ResetCall.confirms (c : ResetCall) : Bool := c.fwPrintenv && c.fwSetenv && !c.check && !c.dryRun

/-- A boot, or a call of the script. -/
inductive Turn
  | boot
  | reset (c : ResetCall)
deriving DecidableEq

/-- The stored environment after a turn. -/
def turn (env : Env) : Turn → Env
  | .boot => (bootAttempt env).saved
  | .reset c => (bootcountReset c env).1

def Turn.confirms : Turn → Bool
  | .boot => false
  | .reset c => c.confirms

/-! ## One turn -/

/-- The environment selects the slot and has counted so far towards the limit. -/
structure Counting (limit : Nat) (env : Env) (slot : Slot) (count : Nat) : Prop where
  selects : Selects env slot
  count : expand env "bootcount" = toString count
  limit : expand env "bootlimit" = toString limit

section Turns

variable {limit count : Nat} {env : Env} {slot : Slot}

theorem printenv_eq {name default value : String} (h : expand env name = value)
    (hne : value ≠ "") : printenv env name default = value := by
  rw [printenv]
  rw [expand] at h
  cases hname : env name with
  | none =>
      rw [hname] at h
      exact absurd h.symm hne
  | some v =>
      rw [hname] at h
      exact h

theorem isZero_toString {n : Nat} (hn : n < 2 ^ 63) : isZero (toString n) = true ↔ n = 0 := by
  rw [isZero, testInteger, if_neg (toString_ne_empty n), if_pos (isDigit_toString n),
    bashInteger_toString hn]
  simp

/-- A variable of its own does not matter. -/
theorem Counting.setenv_of_ne (h : Counting limit env slot count) {name : String} (value : String)
    (hname : name ∉ ["bootslot", "bootcount", "bootlimit"]) :
    Counting limit (setenv env name value) slot count := by
  simp only [List.mem_cons, List.not_mem_nil, or_false, not_or] at hname
  obtain ⟨hslot, hcount, hlimit⟩ := hname
  refine ⟨?_, ?_, ?_⟩
  · rw [Selects, expand_setenv, if_neg (Ne.symm hslot)]
    exact h.selects
  · rw [expand_setenv, if_neg (Ne.symm hcount)]
    exact h.count
  · rw [expand_setenv, if_neg (Ne.symm hlimit)]
    exact h.limit

theorem Counting.setCount (h : Counting limit env slot count) (n : Nat) :
    Counting limit (setenv env "bootcount" (toString n)) slot n := by
  refine ⟨?_, ?_, ?_⟩
  · rw [Selects, expand_setenv, if_neg (by decide)]
    exact h.selects
  · rw [expand_setenv, if_pos rfl]
  · rw [expand_setenv, if_neg (by decide)]
    exact h.limit

/-- `ab_fallback` turns to the other slot, with a fresh count. -/
theorem Counting.fallback (h : Counting limit env slot count) :
    Counting limit (abFallback env) slot.other 0 := by
  refine ⟨(abFallback_spec h.selects).1, ?_, ?_⟩
  · rw [abFallback, expand_setenv, if_pos rfl]
    rfl
  · have hlimit := h.limit
    rw [abFallback, expand_setenv, if_neg (by decide)]
    split <;> simpa [expand_setenv] using hlimit

/-- **A boot** counts; the one that reaches the limit changes the slot. -/
theorem Counting.boot (h : Counting limit env slot count) (hcount : count < limit)
    (hlimit : limit < 2 ^ 63) :
    if count + 1 < limit then Counting limit (turn env .boot) slot (count + 1)
    else Counting limit (turn env .boot) slot.other 0 := by
  have hcounted : Counting limit (countBoot env) slot (count + 1) := by
    rw [countBoot, envUlong, h.count, parseUlong_toString (by omega)]
    exact h.setCount _
  have halt : UsesAltbootcmd env ↔ limit ≤ count + 1 := by
    rw [UsesAltbootcmd, envUlong, envUlong, hcounted.count, hcounted.limit,
      parseUlong_toString (by omega), parseUlong_toString (by omega)]
  rw [turn, bootAttempt]
  split
  · next hbelow =>
      rw [if_neg (by rw [halt]; omega)]
      exact hcounted
  · next hreached =>
      rw [if_pos (by rw [halt]; omega)]
      exact hcounted.fallback

/-- **A confirmation** starts the count again, and any other call changes nothing. -/
theorem Counting.reset (h : Counting limit env slot count) (hcount : count < 2 ^ 63)
    (c : ResetCall) :
    Counting limit (turn env (.reset c)) slot (if c.confirms then 0 else count) := by
  have hprint : printenv env "bootcount" "0" = toString count :=
    printenv_eq h.count (toString_ne_empty count)
  have hzero := isZero_toString hcount
  obtain ⟨printenv', setenv', check, dryRun⟩ := c
  simp only [turn, bootcountReset, hprint]
  cases printenv' with
  | false => exact h
  | true =>
      cases setenv' with
      | false => exact h
      | true =>
          cases check with
          | true => exact h
          | false =>
              cases dryRun with
              | true =>
                  rw [if_neg (by simp), if_neg (by simp)]
                  split <;> exact h
              | false =>
                  have hcleared := h.setCount 0
                  rw [if_neg (by simp), if_neg (by simp)]
                  split
                  · next hnone => exact hzero.mp hnone ▸ h
                  · split
                    · next hdry => cases hdry
                    · split
                      · exact hcleared.setenv_of_ne _ (by decide)
                      · exact hcleared

/-! ## Runs -/

/-- Changing the slot again and again. -/
theorem iterate_other (n : Nat) (slot : Slot) :
    Slot.other^[n] slot = if Even n then slot else slot.other := by
  induction n with
  | zero => simp
  | succ n ih =>
      rw [Function.iterate_succ_apply', ih]
      split
      · next heven => rw [if_neg (by rwa [Nat.even_add_one, not_not])]
      · next hodd =>
          rw [if_pos (by rwa [Nat.even_add_one])]
          cases slot <;> rfl

/-- The numbers of boots between the confirmations of a run. -/
def stretches (run : List Turn) : List Nat :=
  (run.splitOnP Turn.confirms).map (·.countP (· = .boot))

theorem stretches_ne_nil (run : List Turn) : stretches run ≠ [] := by
  simp [stretches, List.splitOnP_ne_nil]

theorem stretches_cons (t : Turn) (run : List Turn) :
    stretches (t :: run) =
      if t.confirms then 0 :: stretches run
      else (stretches run).modifyHead ((if t = .boot then 1 else 0) + ·) := by
  obtain ⟨first, rest, hfirst⟩ := List.exists_cons_of_ne_nil
    (List.splitOnP_ne_nil Turn.confirms run)
  rw [stretches, List.splitOnP_cons_eq_if_modifyHead, stretches, hfirst]
  split
  · rfl
  · simp [List.countP_cons, Nat.add_comm]

/-- How often the slot changes in stretches of these lengths. -/
def fallbacks (limit : Nat) (lengths : List Nat) : Nat := (lengths.map (· / limit)).sum

/-- **From any count.** -/
theorem Counting.foldl_turn (h : Counting limit env slot count) (hcount : count < limit)
    (hlimit : limit < 2 ^ 63) (run : List Turn) :
    let lengths := (stretches run).modifyHead (count + ·)
    Counting limit (run.foldl turn env) (Slot.other^[fallbacks limit lengths] slot)
      (lengths.getLastD 0 % limit) := by
  induction run generalizing env slot count with
  | nil =>
      have hnone : count / limit = 0 := Nat.div_eq_of_lt hcount
      simpa [stretches, fallbacks, hnone, Nat.mod_eq_of_lt hcount] using h
  | cons t run ih =>
      obtain ⟨first, rest, hfirst⟩ := List.exists_cons_of_ne_nil (stretches_ne_nil run)
      rw [stretches_cons, List.foldl_cons]
      cases t with
      | boot =>
          have hboot := h.boot hcount hlimit
          rw [if_neg (by simp [Turn.confirms]), if_pos rfl]
          split at hboot
          · next hbelow =>
              have hrun := ih hboot hbelow
              simp only [hfirst, List.modifyHead_cons, Nat.add_assoc] at hrun ⊢
              exact hrun
          · next hreached =>
              obtain rfl : limit = count + 1 := by omega
              have hrun := ih hboot (by omega)
              have hchanges : (count + (1 + first)) / (count + 1) = first / (count + 1) + 1 := by
                rw [← Nat.add_assoc, Nat.add_comm (count + 1), Nat.add_div_right _ (by omega)]
              have hleft : (count + (1 + first)) % (count + 1) = first % (count + 1) := by
                rw [← Nat.add_assoc, Nat.add_mod_left]
              simp only [hfirst, List.modifyHead_cons, Nat.zero_add, fallbacks, List.map_cons,
                List.sum_cons, hchanges] at hrun ⊢
              rw [Nat.add_right_comm, Function.iterate_succ_apply]
              cases rest with
              | nil => simpa [hleft] using hrun
              | cons second rest => simpa using hrun
      | reset c =>
          have hreset := h.reset (by omega) c
          cases hconfirms : c.confirms with
          | true =>
              have hrun := ih (by simpa [hconfirms] using hreset) (by omega)
              have hnone : count / limit = 0 := Nat.div_eq_of_lt hcount
              rw [if_pos (show (Turn.reset c).confirms = true from hconfirms)]
              simp only [hfirst, List.modifyHead_cons, Nat.zero_add, Nat.add_zero, fallbacks,
                List.map_cons, List.sum_cons, hnone] at hrun ⊢
              simpa using hrun
          | false =>
              have hrun := ih (by simpa [hconfirms] using hreset) hcount
              rw [if_neg (by simp [Turn.confirms, hconfirms]), if_neg (by simp)]
              simpa [hfirst] using hrun

end Turns

/-- **The slot after any run of boots and confirmations.**  Started on a slot with nothing
counted, the scheme changes the slot once for every `bootlimit` boots of a stretch without a
confirmation, and the counter holds what is left over of the last stretch. -/
theorem bootslot_run {limit : Nat} {env : Env} {slot : Slot} (h : Counting limit env slot 0)
    (hpos : 0 < limit) (hlimit : limit < 2 ^ 63) (run : List Turn) :
    let env' := run.foldl turn env
    Selects env' (if Even (fallbacks limit (stretches run)) then slot else slot.other) ∧
      expand env' "bootcount" = toString ((stretches run).getLastD 0 % limit) := by
  have hrun := h.foldl_turn hpos hlimit run
  obtain ⟨first, rest, hfirst⟩ := List.exists_cons_of_ne_nil (stretches_ne_nil run)
  simp only [hfirst, List.modifyHead_cons, Nat.zero_add] at hrun ⊢
  refine ⟨?_, hrun.count⟩
  rw [← iterate_other]
  exact hrun.selects

theorem counting_shipped : Counting 3 shippedEnv .A 0 := ⟨rfl, rfl, rfl⟩

theorem bootslot_run_shipped :
    let confirm := Turn.reset ⟨true, true, false, false⟩
    let env' := [Turn.boot, .boot, confirm, .boot, .boot, .boot, .boot].foldl turn shippedEnv
    Selects env' .B ∧ expand env' "bootcount" = "1" :=
  bootslot_run counting_shipped (by decide) (by decide)
    [.boot, .boot, .reset ⟨true, true, false, false⟩, .boot, .boot, .boot, .boot]

end FaultOracle.Boot
