import FaultOracle.GuardedRuns
import FaultOracle.RemediationController
import FaultOracle.Sha256

/-!
# Loading a model

`forecast_next_24h` of `ml/probability_exporter.py` compares the SHA-256 of a pickled model with
the sidecar which `save_model` of `ml/ce_forecaster.py` wrote, and then opens the model again to
load it.  Other processes write both files whenever they like.

`loaded_digest_iff` says in which runs all that is loaded has the digest of its sidecar.
-/

namespace FaultOracle.Models

open GuardedRuns Sha256
open FaultOracle.Remediation (isPySpace strip)

abbrev Text := List Char

/-! ## The files -/

/-- `s.replace(old, new)`; the number counts what is left of a match. -/
def replaceFrom (old new : Text) : Nat → Text → Text
  | _, [] => []
  | 0, c :: s =>
      if old <+: c :: s then new ++ replaceFrom old new (old.length - 1) s
      else c :: replaceFrom old new 0 s
  | n + 1, _ :: s => replaceFrom old new n s

/-- The path of the sidecar. -/
def shaPath (modelPath : Text) : Text := replaceFrom ".pkl".toList ".sha256".toList 0 modelPath

/-- What `save_model` writes into the sidecar. -/
def sidecar (digest : Text) : Bytes := (digest ++ ['\n']).map fun c => UInt8.ofNat c.toNat

/-- How far a call of `forecast_next_24h` has come.  Beside the expected digest, the bytes which
were hashed are kept in mind. -/
inductive Phase
  | idle
  | called
  | found
  | expecting (expected : Text)
  | verified (expected : Text) (hashed : Bytes)
  | loaded (expected : Text) (bytes : Bytes)
  | refused
deriving DecidableEq

/-- The files, the call in progress and its model, and the digest in a `save_model` in progress. -/
structure World where
  files : Text → Option Bytes
  modelPath : Text
  phase : Phase
  digest : Option Text

/-- The steps of `save_model`. -/
inductive SaveStep
  | openModel
  | dump (bytes : Bytes)
  | hashModel
  | openSidecar
  | writeSidecar
deriving DecidableEq

/-- What happens: `emit_metrics` calls `forecast_next_24h` for the next model, the call takes its
next step, `save_model` takes one, or some process writes or removes a file. -/
inductive Action
  | call (modelPath : Text)
  | forecast
  | save (modelPath : Text) (step : SaveStep)
  | write (path : Text) (content : Option Bytes)
deriving DecidableEq

def World.write (s : World) (path : Text) (content : Option Bytes) : World :=
  { s with files := Function.update s.files path content }

/-- A step of `save_model`. -/
def saveStep (s : World) (modelPath : Text) : SaveStep → World
  | .openModel => s.write modelPath (some [])
  | .dump bytes => s.write modelPath (some bytes)
  | .hashModel => { s with digest := (s.files modelPath).map hexdigest }
  | .openSidecar => s.write (shaPath modelPath) (some [])
  | .writeSidecar =>
      match s.digest with
      | none => s
      | some digest => s.write (shaPath modelPath) (some (sidecar digest))

section Step

-- how text files are decoded, which may fail
variable (decode : Bytes → Option Text)

/-- The next step of `forecast_next_24h`; an exception ends it as a refusal does. -/
def forecastStep (s : World) : Phase :=
  match s.phase with
  | .called => if (s.files (shaPath s.modelPath)).isSome then .found else .refused
  | .found =>
      match (s.files (shaPath s.modelPath)).bind decode with
      | none => .refused
      | some text => .expecting (strip text)
  | .expecting expected =>
      match s.files s.modelPath with
      | none => .refused
      | some bytes => if hexdigest bytes ≠ expected then .refused else .verified expected bytes
  | .verified expected _ =>
      match s.files s.modelPath with
      | none => .refused
      | some bytes => .loaded expected bytes
  | other => other

/-- The call is over, or there was none. -/
def Phase.over : Phase → Bool
  | .idle | .loaded _ _ | .refused => true
  | _ => false

def step (s : World) : Action → World
  | .call modelPath =>
      if s.phase.over then { s with modelPath := modelPath, phase := .called } else s
  | .forecast => { s with phase := forecastStep decode s }
  | .save modelPath saving => saveStep s modelPath saving
  | .write path content => s.write path content

end Step

/-- `save_model`, with nothing in between. -/
def saved (modelPath : Text) (bytes : Bytes) : List Action :=
  [.save modelPath .openModel, .save modelPath (.dump bytes), .save modelPath .hashModel,
    .save modelPath .openSidecar, .save modelPath .writeSidecar]

/-- `forecast_next_24h`, with nothing in between, as far as the loading. -/
def forecasted (modelPath : Text) : List Action :=
  [.call modelPath, .forecast, .forecast, .forecast, .forecast]

/-- No call, and some files. -/
def start (files : Text → Option Bytes) : World where
  files := files
  modelPath := []
  phase := .idle
  digest := none

/-- What is loaded has the digest which was read from the sidecar. -/
def Verified (s : World) : Prop :=
  ∀ expected bytes, s.phase = .loaded expected bytes → hexdigest bytes = expected

/-- When the model is opened again, it has the digest of what was hashed. -/
def SameDigest (s : World) (a : Action) : Prop :=
  a = .forecast → ∀ expected hashed, s.phase = .verified expected hashed →
    ∀ bytes, s.files s.modelPath = some bytes → hexdigest bytes = hexdigest hashed

/-- The model is between hashing and loading. -/
def Phase.isVerified : Phase → Bool
  | .verified _ _ => true
  | _ => false

/-- Between hashing and loading the model file stays as it is. -/
def Quiet (decode : Bytes → Option Text) (s : World) (a : Action) : Prop :=
  s.phase.isVerified = true → (step decode s a).files s.modelPath = s.files s.modelPath

instance (decode : Bytes → Option Text) (s : World) (a : Action) : Decidable (Quiet decode s a) :=
  inferInstanceAs (Decidable (_ → _))

section Proofs

variable {decode : Bytes → Option Text} {s : World} {a : Action} {expected : Text}
  {hashed bytes : Bytes}

/-- What was verified had the expected digest. -/
def HashedExpected (s : World) : Prop :=
  ∀ expected hashed, s.phase = .verified expected hashed → hexdigest hashed = expected

/-- A file is verified by the hash of what was read. -/
theorem forecastStep_verified (h : forecastStep decode s = .verified expected hashed) :
    s.files s.modelPath = some hashed ∧ hexdigest hashed = expected := by
  unfold forecastStep at h
  split at h
  · split at h <;> cases h
  · split at h <;> cases h
  · split at h
    · cases h
    · rename_i hfile
      split at h
      · cases h
      · rename_i hdigest
        obtain ⟨rfl, rfl⟩ := Phase.verified.inj h
        exact ⟨hfile, not_not.mp hdigest⟩
  · split at h <;> cases h
  · rename_i hother
    exact absurd h (hother _ _)

/-- A file is loaded by a second read after the verification. -/
theorem forecastStep_loaded (h : forecastStep decode s = .loaded expected bytes) :
    s.phase = .loaded expected bytes ∨
      ∃ hashed, s.phase = .verified expected hashed ∧ s.files s.modelPath = some bytes := by
  unfold forecastStep at h
  split at h
  · split at h <;> cases h
  · split at h <;> cases h
  · split at h
    · cases h
    · split at h <;> cases h
  · rename_i hphase
    split at h
    · cases h
    · rename_i hfile
      obtain ⟨rfl, rfl⟩ := Phase.loaded.inj h
      exact Or.inr ⟨_, hphase, hfile⟩
  · exact Or.inl h

/-- A write does not change where the loading stands. -/
@[simp] theorem phase_write (s : World) (path : Text) (content : Option Bytes) :
    (s.write path content).phase = s.phase := rfl

/-- A write does not change which model is loaded. -/
@[simp] theorem modelPath_write (s : World) (path : Text) (content : Option Bytes) :
    (s.write path content).modelPath = s.modelPath := rfl

/-- A step of saving does not change where the loading stands. -/
theorem saveStep_spec (s : World) (modelPath : Text) (saving : SaveStep) :
    (saveStep s modelPath saving).phase = s.phase ∧
      (saveStep s modelPath saving).modelPath = s.modelPath := by
  cases saving with
  | openModel => exact ⟨rfl, rfl⟩
  | dump bytes => exact ⟨rfl, rfl⟩
  | hashModel => exact ⟨rfl, rfl⟩
  | openSidecar => exact ⟨rfl, rfl⟩
  | writeSidecar => cases hdigest : s.digest <;> simp [saveStep, hdigest]

/-- **What a step does to the call**: it begins one, takes it further, or leaves it alone. -/
theorem step_cases (decode : Bytes → Option Text) (s : World) (a : Action) :
    (step decode s a).phase = .called ∨
    (a = .forecast ∧ (step decode s a).phase = forecastStep decode s ∧
      (step decode s a).modelPath = s.modelPath ∧ (step decode s a).files = s.files) ∨
    (a ≠ .forecast ∧ (step decode s a).phase = s.phase ∧
      (step decode s a).modelPath = s.modelPath) := by
  cases a with
  | call modelPath =>
      by_cases hover : s.phase.over = true
      · exact Or.inl (by rw [step, if_pos hover])
      · exact Or.inr (Or.inr (by rw [step, if_neg hover]; exact ⟨nofun, rfl, rfl⟩))
  | forecast => exact Or.inr (Or.inl ⟨rfl, rfl, rfl, rfl⟩)
  | save modelPath saving =>
      obtain ⟨hphase, hpath⟩ := saveStep_spec s modelPath saving
      exact Or.inr (Or.inr ⟨nofun, hphase, hpath⟩)
  | write path content => exact Or.inr (Or.inr ⟨nofun, rfl, rfl⟩)

/-- A step keeps that the expected hash is that of what was hashed. -/
theorem hashedExpected_step (h : HashedExpected s) : HashedExpected (step decode s a) := by
  intro expected hashed hphase
  rcases step_cases decode s a with hcalled | ⟨_, hforecast, _, _⟩ | ⟨_, hsame, _⟩
  · cases hcalled.symm.trans hphase
  · exact (forecastStep_verified (hforecast.symm.trans hphase)).2
  · exact h expected hashed (hsame.symm.trans hphase)

/-- A step loads what has the expected digest when the model still has the digest. -/
theorem verified_step_iff (hinv : HashedExpected s) (hs : Verified s) :
    Verified (step decode s a) ↔ SameDigest s a := by
  constructor
  · intro h hforecast expected hashed hphase bytes hfile
    subst hforecast
    have hloaded : (step decode s .forecast).phase = .loaded expected bytes := by
      simp [step, forecastStep, hphase, hfile]
    exact (h expected bytes hloaded).trans (hinv expected hashed hphase).symm
  · intro h expected bytes hphase
    rcases step_cases decode s a with hcalled | ⟨hforecast, hstep, _, _⟩ | ⟨_, hsame, _⟩
    · cases hcalled.symm.trans hphase
    · rcases forecastStep_loaded (hstep.symm.trans hphase) with hbefore | ⟨hashed, hbefore, hfile⟩
      · exact hs expected bytes hbefore
      · exact (h hforecast expected hashed hbefore bytes hfile).trans
          (hinv expected hashed hbefore)
    · exact hs expected bytes (hsame.symm.trans hphase)

/-- Before a model is opened again it is what was hashed, and that had the expected digest. -/
structure Undisturbed (s : World) : Prop where
  verified : Verified s
  model : ∀ expected hashed, s.phase = .verified expected hashed →
    s.files s.modelPath = some hashed ∧ hexdigest hashed = expected

/-- A quiet step keeps the loading undisturbed. -/
theorem undisturbed_step (h : Undisturbed s) (hquiet : Quiet decode s a) :
    Undisturbed (step decode s a) := by
  have hinv : HashedExpected s := fun expected hashed hphase => (h.model expected hashed hphase).2
  have hsame : SameDigest s a := by
    intro _ expected hashed hphase bytes hfile
    obtain rfl := Option.some.inj ((h.model expected hashed hphase).1.symm.trans hfile)
    rfl
  refine ⟨(verified_step_iff hinv h.verified).mpr hsame, fun expected hashed hphase => ?_⟩
  rcases step_cases decode s a with hcalled | ⟨_, hstep, hpath, hfiles⟩ | ⟨_, hstep, hpath⟩
  · cases hcalled.symm.trans hphase
  · rw [hpath, hfiles]
    exact forecastStep_verified (hstep.symm.trans hphase)
  · have hbefore := hstep.symm.trans hphase
    rw [hpath, hquiet (by rw [hbefore]; rfl)]
    exact h.model expected hashed hbefore

/-! ### Without interference -/

theorem length_le_replaceFrom {old new : Text} (hold : 0 < old.length)
    (hnew : old.length ≤ new.length) (n : Nat) (s : Text) :
    s.length ≤ (replaceFrom old new n s).length + n := by
  induction s generalizing n with
  | nil => exact Nat.zero_le _
  | cons c s ih =>
      cases n with
      | zero =>
          rw [replaceFrom]
          split
          · have hrest := ih (old.length - 1)
            rw [List.length_cons, List.length_append]
            omega
          · have hrest := ih 0
            rw [List.length_cons, List.length_cons]
            omega
      | succ n =>
          have hrest := ih n
          rw [replaceFrom, List.length_cons]
          omega

/-- A longer text in the place of a part makes a text longer. -/
theorem length_lt_replaceFrom {old new : Text} (hold : 0 < old.length)
    (hnew : old.length < new.length) {s : Text} (h : old <:+: s) :
    s.length < (replaceFrom old new 0 s).length := by
  induction s with
  | nil =>
      rw [List.eq_nil_of_infix_nil h] at hold
      exact absurd hold (lt_irrefl 0)
  | cons c s ih =>
      rw [replaceFrom]
      split
      · have hrest := length_le_replaceFrom hold hnew.le (old.length - 1) s
        rw [List.length_cons, List.length_append]
        omega
      · rename_i hhead
        have hrest := ih ((List.infix_cons_iff.mp h).resolve_left hhead)
        rw [List.length_cons, List.length_cons]
        omega

/-- The sidecar of a `.pkl` file is another file. -/
theorem shaPath_ne {modelPath : Text} (h : ".pkl".toList <:+: modelPath) :
    shaPath modelPath ≠ modelPath := by
  intro heq
  have hlt : modelPath.length < (shaPath modelPath).length :=
    length_lt_replaceFrom (by decide) (by decide) h
  rw [heq] at hlt
  exact lt_irrefl _ hlt

/-- Stripping a line without white space drops its newline. -/
theorem strip_line {s : Text} (hs : s ≠ []) (h : ∀ c ∈ s, isPySpace c = false) :
    strip (s ++ ['\n']) = s := by
  have hbegin : ∀ t : Text, t ≠ [] → (∀ c ∈ t, isPySpace c = false) → ∀ u : Text,
      (t ++ u).dropWhile isPySpace = t ++ u := by
    intro t ht hplain u
    cases t with
    | nil => exact absurd rfl ht
    | cons c t => exact List.dropWhile_cons_of_neg (by simp [hplain c (.head _)])
  have hreverse : s.reverse.dropWhile isPySpace = s.reverse := by
    simpa using hbegin s.reverse (by simpa using hs) (by simpa using h) []
  rw [strip, hbegin s hs h, List.reverse_append, List.reverse_singleton, List.singleton_append,
    List.dropWhile_cons_of_pos (by decide), hreverse, List.reverse_reverse]

/-- A digest is read back from its line. -/
theorem strip_hexdigest (bytes : Bytes) : strip (hexdigest bytes ++ ['\n']) = hexdigest bytes := by
  have hdigits : hexDigits.all (fun c => !isPySpace c) = true := by decide
  have hplain : ∀ c ∈ hexdigest bytes, isPySpace c = false := fun c hc => by
    simpa using List.all_eq_true.mp hdigits c (mem_hexDigits hc)
  refine strip_line (fun hnil => ?_) hplain
  have hlength := length_hexdigest bytes
  rw [hnil] at hlength
  cases hlength

/-- What saving a model writes. -/
theorem files_saved (decode : Bytes → Option Text) (s : World) (modelPath : Text) (bytes : Bytes) :
    ((saved modelPath bytes).foldl (step decode) s).phase = s.phase ∧
      ((saved modelPath bytes).foldl (step decode) s).files =
        Function.update (Function.update s.files modelPath (some bytes)) (shaPath modelPath)
          (some (sidecar (hexdigest bytes))) := by
  simp [saved, step, saveStep, World.write]

/-- **A saved model is loaded** when nothing happens in between. -/
theorem loaded_of_saved {modelPath : Text} (hover : s.phase.over = true)
    (hpkl : ".pkl".toList <:+: modelPath)
    (hdecode : decode (sidecar (hexdigest bytes)) = some (hexdigest bytes ++ ['\n'])) :
    ((saved modelPath bytes ++ forecasted modelPath).foldl (step decode) s).phase =
      .loaded (hexdigest bytes) bytes := by
  obtain ⟨hphase, hfiles⟩ := files_saved decode s modelPath bytes
  rw [List.foldl_append]
  generalize (saved modelPath bytes).foldl (step decode) s = s' at hphase hfiles
  have hmodel : s'.files modelPath = some bytes := by
    rw [hfiles, Function.update_of_ne (shaPath_ne hpkl).symm, Function.update_self]
  have hsidecar : s'.files (shaPath modelPath) = some (sidecar (hexdigest bytes)) := by
    rw [hfiles, Function.update_self]
  have hover : s'.phase.over = true := hphase ▸ hover
  simp [forecasted, step, forecastStep, hover, hmodel, hsidecar, hdecode, strip_hexdigest]

end Proofs

/-- **Checked is not loaded.**  Whatever other processes do between the steps of the calls, all
that is loaded has the digest of its sidecar just when each model which is opened again has the
digest of what was hashed; so it is when no model changes in between. -/
theorem loaded_digest_iff (decode : Bytes → Option Text) (files : Text → Option Bytes)
    (run : List Action) :
    (Throughout (step decode) Verified (start files) run ↔
      Meets (step decode) SameDigest (start files) run) ∧
    (Meets (step decode) (Quiet decode) (start files) run →
      Throughout (step decode) Verified (start files) run) := by
  have hverified : Verified (start files) := fun _ _ h => nomatch h
  have hhashed : HashedExpected (start files) := fun _ _ h => nomatch h
  constructor
  · exact throughout_iff_meets HashedExpected (fun s a hinv _ _ => hashedExpected_step hinv)
      (fun s a => verified_step_iff) hhashed hverified run
  · intro hquiet
    have hundisturbed : Undisturbed (start files) := ⟨hverified, fun _ _ h => nomatch h⟩
    exact (throughout_of_meets (fun s a => undisturbed_step) hundisturbed hquiet).mono
      fun s h => h.verified

section Examples

/-- The decoding of ASCII. -/
def asciiDecode (bytes : Bytes) : Option Text := some (bytes.map fun b => Char.ofNat b.toNat)

def modelPath : Text := "/models/instance-n1_mc-0_csrow-0.pkl".toList

/-- A model is saved and loaded. -/
def savedAndLoaded : List Action :=
  saved modelPath [1, 2, 3] ++
    [.call modelPath, .forecast, .forecast, .forecast, .write "/models/other.pkl".toList none,
      .forecast]

/-- A model saved and then loaded is verified. -/
theorem savedAndLoaded_verified :
    Throughout (step asciiDecode) Verified (start fun _ => none) savedAndLoaded :=
  (loaded_digest_iff asciiDecode (fun _ => none) savedAndLoaded).2 (by decide +kernel)

/-- The next training run writes the model again, behind the check of the old one. -/
def retrainedBetween : List Action :=
  saved modelPath [1, 2, 3] ++ [.call modelPath, .forecast, .forecast, .forecast] ++
    (saved modelPath [4, 5, 6]).take 2 ++ [.forecast]

/-- What is loaded is the new model, which has not the digest that was read. -/
theorem retrained_model_unverified :
    ¬ Throughout (step asciiDecode) Verified (start fun _ => none) retrainedBetween := by
  intro h
  have hloaded : (retrainedBetween.foldl (step asciiDecode) (start fun _ => none)).phase =
      .loaded (hexdigest [1, 2, 3]) [4, 5, 6] := by
    decide +kernel
  have hdigest : hexdigest [4, 5, 6] = hexdigest [1, 2, 3] := h.at_end _ _ hloaded
  revert hdigest
  decide +kernel

end Examples

end FaultOracle.Models
