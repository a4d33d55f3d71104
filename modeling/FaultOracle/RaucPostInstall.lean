import FaultOracle.UBootEnv

/-!
# After an update: the post-install hook and the next boot

RAUC runs `rauc-post-install.sh` when it has written a slot.  The hook resets `bootcount`,
sets `bootlimit`, and writes `BOOT_ORDER` "to make the new slot the primary boot target";
its last message says that the system will reboot into that slot.

The scripts of `uboot-bootcount.env` never read `BOOT_ORDER`.  They look at `bootslot`,
which the hook leaves as it was, so the next boot is that of the new slot only if
`bootslot` pointed there before (`postInstall_boots_iff`).
-/

namespace FaultOracle.Boot

/-- The variables RAUC passes to the hook. -/
structure RaucEnv where
  slotBootname : Option String
  bundleVersion : Option String
  slotVersion : Option String
  slotName : Option String
  slotDevice : Option String

/-- The keepalive daemon of the watchdog, as its PID file shows it. -/
inductive Keepalive
  | noPidFile
  | unreadable
  | alive (pid : String) (signalOk : Bool)
  | dead (pid : String) (restartOk : Bool)

/-- How the commands of the hook end. -/
structure Machine where
  syncOk : Bool
  dropCachesOk : Bool
  fwSetenv : Bool
  setBootcountOk : Bool
  setBootlimitOk : Bool
  setBootOrderOk : Bool
  fwPrintenv : Bool
  mkdirOk : Bool
  auditOk : Bool
  timestamp : String
  keepalive : Keepalive

/-- A line on stderr. -/
inductive HookLine
  | log (text : String)
  | warn (text : String)
  | die (text : String)
deriving DecidableEq, Repr

structure HookResult where
  env : Env
  lines : List HookLine
  audit : List String
  status : Nat

/-- The value the hook gives `BOOT_ORDER`. -/
def bootOrder (bootname : String) : String :=
  if bootname = "A" then "A B"
  else if bootname = "B" then "B A"
  else bootname ++ " A B"

/-- `fw_printenv -n`, with the hook's default. -/
def verified (machine : Machine) (env : Env) (name : String) : String :=
  if machine.fwPrintenv then (env name).getD "unknown" else "unknown"

/-- The part of the hook that changes the environment: what it leaves, its lines, and
whether the hook goes on. -/
def updateEnv (machine : Machine) (bootname : String) (env : Env) :
    Env × List HookLine × Bool :=
  if machine.fwSetenv = false then
    (env,
      [.warn "fw_setenv not found — skipping U-Boot environment update.",
        .warn "Install u-boot-tools package or ensure fw_setenv is in PATH.",
        .warn "The bootloader may not switch to the new slot without this step!"], true)
  else if machine.setBootcountOk = false then
    (env, [.log "Setting U-Boot bootcount=0", .die "Failed to set bootcount via fw_setenv"], false)
  else
    let counted := setenv env "bootcount" "0"
    let head := [HookLine.log "Setting U-Boot bootcount=0", .log "Setting U-Boot bootlimit=3"]
    if machine.setBootlimitOk = false then
      (counted, head ++ [.die "Failed to set bootlimit via fw_setenv"], false)
    else
      let limited := setenv counted "bootlimit" "3"
      let verify (env : Env) : HookLine :=
        .log ("U-Boot env after update: bootcount=" ++ verified machine env "bootcount" ++
          ", bootlimit=" ++ verified machine env "bootlimit" ++
          ", BOOT_ORDER=" ++ verified machine env "BOOT_ORDER")
      if bootname = "" then
        (limited,
          head ++ [.warn "RAUC_SLOT_BOOTNAME is empty; skipping BOOT_ORDER update",
            verify limited], true)
      else
        let order := bootOrder bootname
        let said := head ++ [.log ("Setting U-Boot BOOT_ORDER=\"" ++ order ++ "\"")]
        if machine.setBootOrderOk = false then
          (limited, said ++ [.die "Failed to set BOOT_ORDER via fw_setenv"], false)
        else
          let ordered := setenv limited "BOOT_ORDER" order
          (ordered, said ++ [verify ordered], true)

/-- The record for the audit log; `BOOT_ORDER` is a shell variable by then. -/
def auditRecord (machine : Machine) (rauc : RaucEnv) : List String :=
  let bootname := rauc.slotBootname.getD ""
  ["---", "timestamp: " ++ machine.timestamp, "event: post-install-complete",
    "new_version: " ++ rauc.bundleVersion.getD "unknown",
    "old_slot_version: " ++ rauc.slotVersion.getD "unknown",
    "target_slot: " ++ rauc.slotName.getD "unknown",
    "target_device: " ++ rauc.slotDevice.getD "",
    "target_bootname: " ++ bootname,
    "boot_order: " ++
      (if machine.fwSetenv = true ∧ bootname ≠ "" then bootOrder bootname else "not-set"),
    "bootlimit: 3"]

/-- The last part, which signals or restarts the keepalive daemon; nothing if `set -e`
ends the hook there. -/
def keepaliveLines : Keepalive → Option (List HookLine)
  | .noPidFile => some [.log "No WDT keepalive PID file; skipping restart signal"]
  | .unreadable => none
  | .alive pid signalOk =>
      some [if signalOk then .log ("Sent SIGUSR1 to WDT keepalive (PID " ++ pid ++ ")")
        else .warn ("Could not signal WDT keepalive PID " ++ pid)]
  | .dead pid restartOk =>
      some (.warn ("WDT keepalive (PID " ++ pid ++
          ") appears dead. Attempting restart via systemd...") ::
        if restartOk then []
        else [.warn ("Could not restart wdt-keepalive.service " ++
          "(non-fatal if not using systemd unit)")])

/-- `rauc-post-install.sh`. -/
def postInstall (machine : Machine) (rauc : RaucEnv) (env : Env) : HookResult :=
  let bootname := rauc.slotBootname.getD ""
  let version := rauc.bundleVersion.getD "unknown"
  let opening :=
    [HookLine.log ("Post-install: wrote version " ++ version ++ " to slot " ++
        rauc.slotName.getD "?" ++ " (" ++ rauc.slotDevice.getD "" ++ ")"),
      .log ("Replaced previous slot version: " ++ rauc.slotVersion.getD "unknown"),
      .log "Flushing kernel write buffers..."]
  if machine.syncOk = false then { env := env, lines := opening, audit := [], status := 1 }
  else
    let flushed := opening ++
      [if machine.dropCachesOk then .log "Page cache dropped"
        else .warn "Could not drop page cache (non-fatal)", .log "Write flush complete"]
    match updateEnv machine bootname env with
    | (env', said, false) => { env := env', lines := flushed ++ said, audit := [], status := 1 }
    | (env', said, true) =>
        if machine.mkdirOk = false then
          { env := env', lines := flushed ++ said, audit := [], status := 1 }
        else
          let audit := if machine.auditOk then auditRecord machine rauc else []
          let written := flushed ++ said ++
            (if machine.auditOk then []
              else [.warn "Could not write to audit log /data/ota-audit.log"]) ++
            [.log "Audit record written to /data/ota-audit.log"]
          match keepaliveLines machine.keepalive with
          | none => { env := env', lines := written, audit := audit, status := 1 }
          | some kept =>
              { env := env', audit := audit, status := 0
                lines := written ++ kept ++
                  [.log ("Post-install complete. System will reboot into slot " ++ bootname ++
                    " (version " ++ version ++ ").")] }

/-! ## What the hook writes -/

/-- The hook that ends well has reset the count, set the limit and ordered the slots, and
written nothing else. -/
theorem env_postInstall {machine : Machine} {rauc : RaucEnv} {env : Env} {slot : Slot}
    (hfw : machine.fwSetenv = true) (hname : rauc.slotBootname = some slot.name)
    (hok : (postInstall machine rauc env).status = 0) :
    (postInstall machine rauc env).env =
      setenv (setenv (setenv env "bootcount" "0") "bootlimit" "3") "BOOT_ORDER"
        (bootOrder slot.name) := by
  have hne : slot.name ≠ "" := by cases slot <;> decide
  unfold postInstall at hok ⊢
  cases hsync : machine.syncOk with
  | false => simp [hsync] at hok
  | true =>
      simp only [hname, hsync, Option.getD_some, Bool.true_eq_false, if_false] at hok ⊢
      unfold updateEnv at hok ⊢
      cases hcount : machine.setBootcountOk with
      | false => simp [hfw, hcount] at hok
      | true =>
          cases hlimit : machine.setBootlimitOk with
          | false => simp [hfw, hcount, hlimit] at hok
          | true =>
              cases horder : machine.setBootOrderOk with
              | false => simp [hfw, hcount, hlimit, hne, horder] at hok
              | true =>
                  simp only [hfw, hne, Bool.true_eq_false, if_false]
                  split
                  · rfl
                  · split <;> rfl

/-- The slot whose branch `select_slot` takes. -/
def bootedSlot (env : Env) : Slot := if expand env "bootslot" = "A" then .A else .B

theorem selectSlot_eq (env : Env) : selectSlot env = setSlot env (bootedSlot env) := by
  unfold selectSlot bootedSlot
  split <;> rfl

/-- The environment in memory holds image, arguments and partition of a slot of `env`. -/
structure Boots (slot : Slot) (env ram : Env) : Prop where
  image : expand ram "fitimage" = unquoted (expand env slot.fitimageVar)
  arguments : expand ram "bootargs" = unquoted (expand env slot.bootargsVar)
  partition : expand ram "root_part" = unquoted (expand env slot.partVar)

/-- Both slots have the same image, arguments and partition. -/
structure SameImages (env : Env) : Prop where
  image : unquoted (expand env "fitimage_a") = unquoted (expand env "fitimage_b")
  arguments : unquoted (expand env "bootargs_a") = unquoted (expand env "bootargs_b")
  partition : unquoted (expand env "part_a") = unquoted (expand env "part_b")

theorem boots_setSlot (env : Env) (slot : Slot) : Boots slot env (setSlot env slot) := by
  cases slot with
  | A =>
      constructor <;>
        simp [setSlot, expand_setenv, Slot.fitimageVar, Slot.bootargsVar, Slot.partVar]
  | B =>
      constructor <;>
        simp [setSlot, expand_setenv, Slot.fitimageVar, Slot.bootargsVar, Slot.partVar]

/-- What `select_slot` sets is that of a slot when it takes the slot's branch, or when the
branches make no difference. -/
theorem boots_selectSlot_iff (env : Env) (slot : Slot) :
    Boots slot env (selectSlot env) ↔ bootedSlot env = slot ∨ SameImages env := by
  rw [selectSlot_eq]
  have hbooted := boots_setSlot env (bootedSlot env)
  rcases Slot.eq_or_eq_other slot (bootedSlot env) with heq | heq
  · rw [heq] at hbooted
    rw [heq]
    exact ⟨fun _ => .inl rfl, fun _ => hbooted⟩
  · rw [heq] at hbooted ⊢
    constructor
    · intro h
      right
      cases slot with
      | A => exact ⟨h.image.symm.trans hbooted.image, h.arguments.symm.trans hbooted.arguments,
          h.partition.symm.trans hbooted.partition⟩
      | B => exact ⟨hbooted.image.symm.trans h.image, hbooted.arguments.symm.trans h.arguments,
          hbooted.partition.symm.trans h.partition⟩
    · rintro (h | h)
      · exact absurd h (Slot.other_ne slot)
      · cases slot with
        | A => exact ⟨hbooted.image.trans h.image.symm, hbooted.arguments.trans h.arguments.symm,
            hbooted.partition.trans h.partition.symm⟩
        | B => exact ⟨hbooted.image.trans h.image, hbooted.arguments.trans h.arguments,
            hbooted.partition.trans h.partition⟩

/-! ## The next boot -/

/-- The environments differ at most in the counters and in `BOOT_ORDER`. -/
def SameSelection (env env' : Env) : Prop :=
  ∀ name, name ≠ "bootcount" → name ≠ "bootlimit" → name ≠ "BOOT_ORDER" →
    expand env' name = expand env name

theorem SameSelection.bootedSlot {env env' : Env} (h : SameSelection env env') :
    bootedSlot env' = bootedSlot env := by
  rw [Boot.bootedSlot, Boot.bootedSlot, h "bootslot" (by decide) (by decide) (by decide)]

theorem SameSelection.boots {env env' : Env} (h : SameSelection env env') (slot : Slot)
    (ram : Env) : Boots slot env' ram ↔ Boots slot env ram := by
  have himage : expand env' slot.fitimageVar = expand env slot.fitimageVar :=
    h _ (by cases slot <;> decide) (by cases slot <;> decide) (by cases slot <;> decide)
  have harguments : expand env' slot.bootargsVar = expand env slot.bootargsVar :=
    h _ (by cases slot <;> decide) (by cases slot <;> decide) (by cases slot <;> decide)
  have hpartition : expand env' slot.partVar = expand env slot.partVar :=
    h _ (by cases slot <;> decide) (by cases slot <;> decide) (by cases slot <;> decide)
  constructor
  · rintro ⟨h1, h2, h3⟩
    exact ⟨himage ▸ h1, harguments ▸ h2, hpartition ▸ h3⟩
  · rintro ⟨h1, h2, h3⟩
    exact ⟨himage ▸ h1, harguments ▸ h2, hpartition ▸ h3⟩

theorem SameSelection.sameImages {env env' : Env} (h : SameSelection env env') :
    SameImages env' ↔ SameImages env := by
  have hvar : ∀ name ∈ ["fitimage_a", "fitimage_b", "bootargs_a", "bootargs_b", "part_a",
      "part_b"], expand env' name = expand env name := by
    intro name hname
    refine h name ?_ ?_ ?_
    all_goals
      rintro rfl
      revert hname
      decide
  simp only [List.forall_mem_cons] at hvar
  obtain ⟨h1, h2, h3, h4, h5, h6, -⟩ := hvar
  constructor
  · rintro ⟨ha, hb, hc⟩
    exact ⟨h1 ▸ h2 ▸ ha, h3 ▸ h4 ▸ hb, h5 ▸ h6 ▸ hc⟩
  · rintro ⟨ha, hb, hc⟩
    exact ⟨h1 ▸ h2 ▸ ha, h3 ▸ h4 ▸ hb, h5 ▸ h6 ▸ hc⟩

/-- After the hook the first boot attempt is below the limit. -/
theorem bootAttempt_after_hook (env : Env) (order : String) :
    bootAttempt (setenv (setenv (setenv env "bootcount" "0") "bootlimit" "3")
        "BOOT_ORDER" order) =
      bootcmd (countBoot (setenv (setenv (setenv env "bootcount" "0") "bootlimit" "3")
        "BOOT_ORDER" order)) := by
  generalize hhook : setenv (setenv (setenv env "bootcount" "0") "bootlimit" "3")
    "BOOT_ORDER" order = hook
  have hcount : expand hook "bootcount" = "0" := by
    simp [← hhook, expand_setenv]
  have hlimit : expand hook "bootlimit" = "3" := by
    simp [← hhook, expand_setenv]
  have hbelow : ¬ UsesAltbootcmd hook := by
    simp only [UsesAltbootcmd, countBoot, envUlong, expand_setenv, hcount, hlimit]
    decide +kernel
  simp [bootAttempt, hbelow]

/-- **After an update of a slot** that ends well, the next boot attempt takes the image, the
arguments and the partition of that slot exactly when `bootslot` already pointed to it, or
the two slots do not differ in them. -/
theorem postInstall_boots_iff {machine : Machine} {rauc : RaucEnv} {env : Env} {slot : Slot}
    (hfw : machine.fwSetenv = true) (hname : rauc.slotBootname = some slot.name)
    (hok : (postInstall machine rauc env).status = 0) :
    Boots slot (postInstall machine rauc env).env
        (bootAttempt (postInstall machine rauc env).env).ram ↔
      bootedSlot env = slot ∨ SameImages env := by
  rw [env_postInstall hfw hname hok, bootAttempt_after_hook]
  generalize hwritten : setenv (setenv (setenv env "bootcount" "0") "bootlimit" "3")
    "BOOT_ORDER" (bootOrder slot.name) = written
  have hsame : SameSelection env written := by
    intro name hcount hlimit horder
    rw [← hwritten]
    simp [expand_setenv, hcount, hlimit, horder]
  have hcounted : SameSelection written (countBoot written) := by
    intro name hcount _ _
    simp [countBoot, expand_setenv, hcount]
  calc Boots slot written (bootcmd (countBoot written)).ram
      ↔ Boots slot (countBoot written) (selectSlot (countBoot written)) :=
        (hcounted.boots slot _).symm
    _ ↔ bootedSlot (countBoot written) = slot ∨ SameImages (countBoot written) :=
        boots_selectSlot_iff _ slot
    _ ↔ bootedSlot env = slot ∨ SameImages env := by
        rw [hcounted.bootedSlot, hsame.bootedSlot, hcounted.sameImages, hsame.sameImages]

/-- A machine on which every command of the hook succeeds. -/
def healthyMachine : Machine where
  syncOk := true
  dropCachesOk := true
  fwSetenv := true
  setBootcountOk := true
  setBootlimitOk := true
  setBootOrderOk := true
  fwPrintenv := true
  mkdirOk := true
  auditOk := true
  timestamp := "2026-01-01T00:00:00+00:00"
  keepalive := .noPidFile

/-- The hook's variables after the installation of a slot. -/
def installed (slot : Slot) : RaucEnv where
  slotBootname := some slot.name
  bundleVersion := some "2"
  slotVersion := some "1"
  slotName := some "rootfs.1"
  slotDevice := some "/dev/mmcblk0p3"

theorem boots_shipped_after_update_of_a :
    Boots .A (postInstall healthyMachine (installed .A) shippedEnv).env
      (bootAttempt (postInstall healthyMachine (installed .A) shippedEnv).env).ram :=
  (postInstall_boots_iff rfl rfl rfl).mpr (.inl rfl)

/-- On a machine as shipped, the boot after an update of slot B is one of slot A. -/
theorem old_image_boots_after_update_of_b :
    (postInstall healthyMachine (installed .B) shippedEnv).status = 0 ∧
      ¬ Boots .B (postInstall healthyMachine (installed .B) shippedEnv).env
        (bootAttempt (postInstall healthyMachine (installed .B) shippedEnv).env).ram := by
  refine ⟨rfl, fun h => ?_⟩
  have himage := h.image
  rw [env_postInstall rfl rfl rfl, bootAttempt_after_hook] at himage
  revert himage
  decide +kernel

end FaultOracle.Boot
