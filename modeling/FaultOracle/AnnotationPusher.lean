import FaultOracle.GuardedRuns
import FaultOracle.JsonValues
import FaultOracle.Sha256
import Mathlib.Data.Finset.Insert
import Mathlib.Data.List.Perm.Basic

/-!
# The annotation pusher

The loop of `annotations/annotation_pusher.py` polls Alertmanager and pushes an annotation to
Grafana for the firing alerts.  An alert gets into `seen` before its push, whatever becomes
of that, and it never gets out.  So an alert is pushed when it is listed for the first time
(`mem_pushesAt`) and never again, and `pushes_due_iff` says on which runs that is right.
-/

namespace FaultOracle.Annotations

open GuardedRuns JsonValues

abbrev Text := List Char

/-! ## Alerts -/

/-- A dictionary of strings, in the order of its items. -/
structure StringDict where
  items : List (String × String)
  distinct : (items.map Prod.fst).Nodup
deriving Repr

def StringDict.empty : StringDict := ⟨[], List.nodup_nil⟩

def StringDict.get (d : StringDict) (name default : String) : String :=
  (d.items.lookup name).getD default

/-- What the pusher reads of an alert, where it is there. -/
structure Alert where
  labels : Option StringDict
  annotations : Option StringDict
deriving Repr

/-- `alert.get("labels", {})`. -/
def Alert.labelSet (alert : Alert) : StringDict := alert.labels.getD .empty

/-- One alert is the same as another if it has the same labels, in any order. -/
def SameLabels (a b : Alert) : Prop := a.labelSet.items.Perm b.labelSet.items

instance (a b : Alert) : Decidable (SameLabels a b) :=
  inferInstanceAs (Decidable (a.labelSet.items.Perm b.labelSet.items))

/-! ## Fingerprints -/

def hexEscape (n : Nat) : Text :=
  ['\\', 'u'] ++ [12, 8, 4, 0].map fun shift => Sha256.hexDigits.getD (n >>> shift % 16) '0'

/-- What `json.dumps` writes for a character of a string. -/
def escapeChar (c : Char) : Text :=
  if c = '"' then ['\\', '"']
  else if c = '\\' then ['\\', '\\']
  else if c = '\n' then ['\\', 'n']
  else if c = '\r' then ['\\', 'r']
  else if c = '\t' then ['\\', 't']
  else if c = '\x08' then ['\\', 'b']
  else if c = '\x0c' then ['\\', 'f']
  else if ' ' ≤ c ∧ c ≤ '~' then [c]
  else if c.toNat < 0x10000 then hexEscape c.toNat
  else
    let n := c.toNat - 0x10000
    hexEscape (0xd800 + n / 0x400) ++ hexEscape (0xdc00 + n % 0x400)

def quoted (s : String) : Text := '"' :: s.toList.flatMap escapeChar ++ ['"']

/-- `json.dumps(d, sort_keys=True)`. -/
def dumps (d : StringDict) : Text :=
  let items := d.items.mergeSort fun a b => decide (a.1 ≤ b.1)
  let members := items.map fun i => quoted i.1 ++ [':', ' '] ++ quoted i.2
  ['\x7b'] ++ List.intercalate [',', ' '] members ++ ['\x7d']

/-- `alert_fingerprint`; the text that is hashed has ASCII characters only. -/
def alertFingerprint (alert : Alert) : Text :=
  (Sha256.hexdigest ((dumps alert.labelSet).map fun c => UInt8.ofNat c.toNat)).take 16

/-- The order of the labels does not matter. -/
theorem alertFingerprint_congr {a b : Alert} (h : SameLabels a b) :
    alertFingerprint a = alertFingerprint b := by
  rw [alertFingerprint, alertFingerprint, dumps, dumps,
    InsertionDict.mergeSort_key_eq_of_perm h a.labelSet.distinct]

/-! ## Annotations -/

def tagPrefix : String := "hw-fault"

/-- What `build_annotation` returns. -/
structure Annotation where
  time : Int
  tags : List String
  text : String
  panelId : Option Int
  dashboardUID : Option String
deriving DecidableEq, Repr

/-- `build_annotation`, at a time in milliseconds. -/
def buildAnnotation (alert : Alert) (now : Int) : Annotation :=
  let labels := alert.labelSet
  let annotations := alert.annotations.getD .empty
  let severity := labels.get "severity" "info"
  let name := labels.get "alertname" "UnknownAlert"
  let instanceName := labels.get "instance" ""
  let summary := annotations.get "summary" name
  { time := now
    tags := [tagPrefix, name, severity] ++
      if instanceName ≠ "" then ["instance:" ++ instanceName] else []
    text := s!"<b>{name}</b> ({severity})<br>{summary}"
    panelId := none
    dashboardUID := none }

/-- `"id" in result`; a value that takes no `in` raises, and that is caught. -/
def containsId : Json → Bool
  | .obj fields => fields.any fun field => field.1 == "id"
  | .arr elems => elems.any fun
      | .str s => s == "id"
      | _ => false
  | .str s => decide ("id".toList <:+: s.toList)
  | _ => false

/-- `push_annotation`, with the value that Grafana replies, unless something is raised on the
way to it. -/
def pushAnnotation (dryRun : Bool) (reply : Option Json) : Bool :=
  dryRun ||
    match reply with
    | some result => containsId result
    | none => false

/-! ## The loop -/

/-- An alert in an answer of Alertmanager, with the time and the reply that a push of it
would meet. -/
structure Listed where
  alert : Alert
  now : Int
  reply : Option Json

/-- What a poll meets: a list of alerts, or an error. -/
abbrev Poll := Option (List Listed)

def listed (poll : Poll) : List Listed := poll.getD []

/-- A call of `push_annotation`, and what it returned. -/
structure Push where
  alert : Alert
  annotation : Annotation
  ok : Bool

def pushOf (dryRun : Bool) (l : Listed) : Push :=
  ⟨l.alert, buildAnnotation l.alert l.now, pushAnnotation dryRun l.reply⟩

/-- One turn of the loop over the alerts, with `seen` and the calls so far. -/
def visit (dryRun : Bool) (s : Finset Text × List Push) (l : Listed) : Finset Text × List Push :=
  let fp := alertFingerprint l.alert
  if fp ∈ s.1 then s else (insert fp s.1, s.2 ++ [pushOf dryRun l])

/-- `run_once`: the fingerprints and the calls that it leaves. -/
def runOnce (dryRun : Bool) (seen : Finset Text) (poll : Poll) : Finset Text × List Push :=
  (listed poll).foldl (visit dryRun) (seen, [])

/-- `seen` after some polls. -/
def seenAfter (dryRun : Bool) (run : List Poll) : Finset Text :=
  run.foldl (fun seen poll => (runOnce dryRun seen poll).1) ∅

/-- The calls of a poll behind others. -/
def pushesAt (dryRun : Bool) (before : List Poll) (poll : Poll) : List Push :=
  (runOnce dryRun (seenAfter dryRun before) poll).2

/-! ## What is due -/

/-- The answer of a poll, if there is one, lists the alert. -/
def StillFiring (alert : Alert) (poll : Poll) : Prop :=
  ∀ alerts ∈ poll, ∃ l ∈ alerts, SameLabels l.alert alert

/-- The alert was pushed with success, and has not been resolved since. -/
def Done (dryRun : Bool) (before : List Poll) (alert : Alert) : Prop :=
  ∃ m ∈ moments before,
    (∃ push ∈ pushesAt dryRun m.1 m.2.1, push.ok = true ∧ SameLabels push.alert alert) ∧
      ∀ poll ∈ m.2.2, StillFiring alert poll

/-- A poll pushes what is due: every firing alert that is not done, none that is, and none
again that it has pushed with success. -/
structure PushesDue (dryRun : Bool) (before : List Poll) (poll : Poll) : Prop where
  due : ∀ l ∈ listed poll, ¬ Done dryRun before l.alert →
    ∃ push ∈ pushesAt dryRun before poll, SameLabels push.alert l.alert
  quiet : ∀ push ∈ pushesAt dryRun before poll, ¬ Done dryRun before push.alert
  once : (pushesAt dryRun before poll).Pairwise fun x y =>
    x.ok = true → ¬ SameLabels x.alert y.alert

/-! ## The calls of one poll -/

/-- The listed alerts that `seen` lets through. -/
def fresh (seen : Finset Text) : List Listed → List Listed
  | [] => []
  | l :: ls =>
      if alertFingerprint l.alert ∈ seen then fresh seen ls
      else l :: fresh (insert (alertFingerprint l.alert) seen) ls

theorem calls_foldl_visit (dryRun : Bool) (ls : List Listed) (seen : Finset Text)
    (pushes : List Push) :
    (ls.foldl (visit dryRun) (seen, pushes)).2 =
      pushes ++ (fresh seen ls).map (pushOf dryRun) := by
  induction ls generalizing seen pushes with
  | nil => simp [fresh]
  | cons l ls ih =>
      by_cases hseen : alertFingerprint l.alert ∈ seen
      · simp [fresh, visit, hseen, ih]
      · simp [fresh, visit, hseen, ih]

theorem mem_seen_foldl_visit (dryRun : Bool) (fp : Text) (ls : List Listed) (seen : Finset Text)
    (pushes : List Push) :
    fp ∈ (ls.foldl (visit dryRun) (seen, pushes)).1 ↔
      fp ∈ seen ∨ ∃ l ∈ ls, alertFingerprint l.alert = fp := by
  induction ls generalizing seen pushes with
  | nil => simp
  | cons l ls ih =>
      by_cases hseen : alertFingerprint l.alert ∈ seen
      · have hadded : alertFingerprint l.alert = fp → fp ∈ seen := fun heq => heq ▸ hseen
        simp only [List.foldl_cons, visit, hseen, if_true, ih, List.exists_mem_cons_iff]
        tauto
      · simp only [List.foldl_cons, visit, hseen, if_false, ih, List.exists_mem_cons_iff,
          Finset.mem_insert, eq_comm (a := fp)]
        tauto

/-- An alert is let through if it is the first in the list with its fingerprint. -/
theorem mem_fresh {l : Listed} {ls : List Listed} {seen : Finset Text} :
    l ∈ fresh seen ls ↔ alertFingerprint l.alert ∉ seen ∧
      ls.find? (fun x => alertFingerprint x.alert = alertFingerprint l.alert) = some l := by
  induction ls generalizing seen with
  | nil => simp [fresh]
  | cons x ls ih =>
      by_cases hsame : alertFingerprint x.alert = alertFingerprint l.alert
      · by_cases hseen : alertFingerprint x.alert ∈ seen
        · have hseen' : alertFingerprint l.alert ∈ seen := hsame ▸ hseen
          simp [fresh, hseen, ih, hseen']
        · have hseen' : alertFingerprint l.alert ∉ seen := hsame ▸ hseen
          simp [fresh, ih, hsame, hseen', eq_comm]
      · have hne : l ≠ x := fun heq => hsame (heq ▸ rfl)
        by_cases hseen : alertFingerprint x.alert ∈ seen
        · simp [fresh, hseen, ih, hsame]
        · simp [fresh, hseen, ih, hsame, hne, Ne.symm hsame]

theorem pairwise_fresh (ls : List Listed) (seen : Finset Text) :
    (fresh seen ls).Pairwise fun x y => alertFingerprint x.alert ≠ alertFingerprint y.alert := by
  induction ls generalizing seen with
  | nil => exact List.Pairwise.nil
  | cons l ls ih =>
      by_cases hseen : alertFingerprint l.alert ∈ seen
      · rw [fresh, if_pos hseen]
        exact ih seen
      · rw [fresh, if_neg hseen]
        refine List.pairwise_cons.mpr ⟨?_, ih _⟩
        intro y hy hsame
        have habsent := (mem_fresh.mp hy).1
        exact habsent (hsame ▸ Finset.mem_insert_self _ _)

/-! ## First listings -/

/-- The first alert with a fingerprint in the answers of a run, and the polls behind. -/
def firstListing (fp : Text) : List Poll → Option (Listed × List Poll)
  | [] => none
  | poll :: run =>
      match (listed poll).find? fun l => alertFingerprint l.alert = fp with
      | some l => some (l, run)
      | none => firstListing fp run

theorem firstListing_append (fp : Text) (run rest : List Poll) :
    firstListing fp (run ++ rest) =
      match firstListing fp run with
      | some (l, since) => some (l, since ++ rest)
      | none => firstListing fp rest := by
  induction run with
  | nil => rfl
  | cons poll run ih =>
      rw [List.cons_append, firstListing, firstListing]
      cases (listed poll).find? fun l => alertFingerprint l.alert = fp with
      | some l => rfl
      | none => exact ih

theorem firstListing_eq_some_iff {fp : Text} {run since : List Poll} {l : Listed} :
    firstListing fp run = some (l, since) ↔
      ∃ m ∈ moments run, m.2.2 = since ∧ firstListing fp m.1 = none ∧
        (listed m.2.1).find? (fun l => alertFingerprint l.alert = fp) = some l := by
  induction run with
  | nil => simp [firstListing, moments]
  | cons poll run ih =>
      rw [firstListing, moments]
      cases hfind : (listed poll).find? fun l => alertFingerprint l.alert = fp with
      | some first =>
          constructor
          · intro heq
            cases heq
            exact ⟨_, List.mem_cons_self, rfl, rfl, hfind⟩
          · intro h
            obtain ⟨m, hm, hsince, hbefore, hfirst⟩ := h
            rcases List.mem_cons.mp hm with rfl | hm
            · rw [hfind] at hfirst
              rw [Option.some.inj hfirst, ← hsince]
            · obtain ⟨m', _, rfl⟩ := List.mem_map.mp hm
              rw [firstListing, hfind] at hbefore
              cases hbefore
      | none => simp [firstListing, hfind, ih]

/-- `seen` has the fingerprints of all alerts that were ever listed. -/
theorem mem_seenAfter {dryRun : Bool} {fp : Text} {run : List Poll} :
    fp ∈ seenAfter dryRun run ↔ firstListing fp run ≠ none := by
  have hrun : ∀ (run : List Poll) (seen : Finset Text),
      fp ∈ run.foldl (fun seen poll => (runOnce dryRun seen poll).1) seen ↔
        fp ∈ seen ∨ firstListing fp run ≠ none := by
    intro run
    induction run with
    | nil => simp [firstListing]
    | cons poll run ih =>
        intro seen
        rw [List.foldl_cons, ih, runOnce, mem_seen_foldl_visit, firstListing]
        cases hfind : (listed poll).find? fun l => alertFingerprint l.alert = fp with
        | some l =>
            have hmem := List.mem_of_find?_eq_some hfind
            have heq : alertFingerprint l.alert = fp := by simpa using List.find?_some hfind
            simp only [ne_eq, reduceCtorEq, not_false_eq_true, or_true, iff_true]
            exact Or.inl (Or.inr ⟨l, hmem, heq⟩)
        | none =>
            have hno : ¬ ∃ l ∈ listed poll, alertFingerprint l.alert = fp := by
              simpa using hfind
            simp [hno]
  rw [seenAfter, hrun]
  simp

/-- **Calls.**  A poll pushes the alerts that no answer has listed before it, one for each
fingerprint. -/
theorem mem_pushesAt {dryRun : Bool} {before : List Poll} {poll : Poll} {push : Push} :
    push ∈ pushesAt dryRun before poll ↔
      ∃ l, pushOf dryRun l = push ∧ firstListing (alertFingerprint l.alert) before = none ∧
        (listed poll).find? (fun x => alertFingerprint x.alert = alertFingerprint l.alert) =
          some l := by
  rw [pushesAt, runOnce, calls_foldl_visit, List.nil_append, List.mem_map]
  constructor
  · intro ⟨l, hl, hpush⟩
    obtain ⟨hseen, hfind⟩ := mem_fresh.mp hl
    exact ⟨l, hpush, not_not.mp (mt mem_seenAfter.mpr hseen), hfind⟩
  · intro ⟨l, hpush, hbefore, hfind⟩
    exact ⟨l, mem_fresh.mpr ⟨fun hseen => mem_seenAfter.mp hseen hbefore, hfind⟩, hpush⟩

/-! ## When it is enough -/

/-- Of all alerts with its fingerprint, the first that was listed is the alert itself; and if
that was in an earlier poll, its push succeeded and no answer since lists it no more. -/
def Settled (dryRun : Bool) (run : List Poll) (alert : Alert) : Prop :=
  ∃ first since, firstListing (alertFingerprint alert) run = some (first, since) ∧
    SameLabels first.alert alert ∧
      (since = [] ∨ pushAnnotation dryRun first.reply = true ∧
        ∀ poll ∈ since, StillFiring alert poll)

theorem alertFingerprint_of_find? {fp : Text} {ls : List Listed} {l : Listed}
    (h : ls.find? (fun x => alertFingerprint x.alert = fp) = some l) :
    alertFingerprint l.alert = fp := by simpa using List.find?_some h

/-- An alert is done if the first with its fingerprint was the alert itself, pushed with
success and listed ever since. -/
theorem done_iff {dryRun : Bool} {before : List Poll} {alert : Alert} :
    Done dryRun before alert ↔
      ∃ first since, firstListing (alertFingerprint alert) before = some (first, since) ∧
        SameLabels first.alert alert ∧ pushAnnotation dryRun first.reply = true ∧
          ∀ poll ∈ since, StillFiring alert poll := by
  constructor
  · intro ⟨m, hm, ⟨push, hpush, hok, hsame⟩, hfires⟩
    obtain ⟨first, rfl, hbefore, hfind⟩ := mem_pushesAt.mp hpush
    have hfp : alertFingerprint first.alert = alertFingerprint alert := alertFingerprint_congr hsame
    rw [hfp] at hbefore hfind
    have hfirst := firstListing_eq_some_iff.mpr ⟨m, hm, rfl, hbefore, hfind⟩
    exact ⟨first, m.2.2, hfirst, hsame, hok, hfires⟩
  · intro ⟨first, since, hfirst, hsame, hok, hfires⟩
    obtain ⟨m, hm, rfl, hbefore, hfind⟩ := firstListing_eq_some_iff.mp hfirst
    have hfp := alertFingerprint_of_find? hfind
    rw [← hfp] at hbefore hfind
    exact ⟨m, hm, ⟨_, mem_pushesAt.mpr ⟨first, rfl, hbefore, hfind⟩, hok, hsame⟩, hfires⟩

/-- What is pushed was not listed before, so it is not done. -/
theorem pushes_quiet (dryRun : Bool) (before : List Poll) (poll : Poll) :
    ∀ push ∈ pushesAt dryRun before poll, ¬ Done dryRun before push.alert := by
  intro push hpush hdone
  obtain ⟨l, rfl, hbefore, _⟩ := mem_pushesAt.mp hpush
  obtain ⟨first, since, hfirst, _⟩ := done_iff.mp hdone
  have hboth := hbefore.symm.trans hfirst
  cases hboth

theorem pushes_once (dryRun : Bool) (before : List Poll) (poll : Poll) :
    (pushesAt dryRun before poll).Pairwise fun x y =>
      x.ok = true → ¬ SameLabels x.alert y.alert := by
  rw [pushesAt, runOnce, calls_foldl_visit, List.nil_append]
  refine List.pairwise_map.mpr ((pairwise_fresh _ _).imp ?_)
  intro x y hdiffers _ hsame
  exact hdiffers (alertFingerprint_congr hsame)

section Due

variable {dryRun : Bool} {before : List Poll} {poll : Poll} {l : Listed}

/-- Nothing is pushed for a fingerprint in `seen`, and the alert has to be done. -/
theorem due_seen_iff (hl : l ∈ listed poll) {p : Listed × List Poll}
    (hbefore : firstListing (alertFingerprint l.alert) before = some p) :
    (¬ Done dryRun before l.alert →
        ∃ push ∈ pushesAt dryRun before poll, SameLabels push.alert l.alert) ↔
      Settled dryRun (before ++ [poll]) l.alert := by
  have hsilent : ¬ ∃ push ∈ pushesAt dryRun before poll, SameLabels push.alert l.alert := by
    intro ⟨push, hpush, hsame⟩
    obtain ⟨x, rfl, hfresh, _⟩ := mem_pushesAt.mp hpush
    have hfp : alertFingerprint x.alert = alertFingerprint l.alert := alertFingerprint_congr hsame
    rw [hfp, hbefore] at hfresh
    cases hfresh
  have hlists : StillFiring l.alert poll := by
    intro alerts halerts
    obtain rfl : poll = some alerts := halerts
    exact ⟨l, hl, List.Perm.refl _⟩
  have happend := firstListing_append (alertFingerprint l.alert) before [poll]
  obtain ⟨first, since⟩ := p
  rw [hbefore] at happend
  simp only [hsilent, imp_false, not_not, done_iff, Settled, happend, hbefore,
    Option.some.injEq, Prod.mk.injEq]
  constructor
  · intro ⟨x, rest, ⟨hx, hrest⟩, hsame, hok, hfires⟩
    refine ⟨x, rest ++ [poll], ⟨hx, by rw [hrest]⟩, hsame, Or.inr ⟨hok, ?_⟩⟩
    intro p hp
    rcases List.mem_append.mp hp with hp | hp
    · exact hfires p hp
    · rw [List.mem_singleton.mp hp]
      exact hlists
  · intro ⟨x, rest, ⟨hx, hrest⟩, hsame, hkept⟩
    rcases hkept with hnil | ⟨hok, hfires⟩
    · rw [hnil] at hrest
      exact absurd hrest (by simp)
    · refine ⟨x, since, ⟨hx, rfl⟩, hsame, hok, ?_⟩
      intro p hp
      exact hfires p (hrest ▸ List.mem_append_left _ hp)

/-- For a new fingerprint, the first alert in the list with it is pushed. -/
theorem due_fresh_iff (hbefore : firstListing (alertFingerprint l.alert) before = none) :
    (¬ Done dryRun before l.alert →
        ∃ push ∈ pushesAt dryRun before poll, SameLabels push.alert l.alert) ↔
      Settled dryRun (before ++ [poll]) l.alert := by
  have hnever : ¬ Done dryRun before l.alert := by
    intro hdone
    obtain ⟨first, since, hfirst, _⟩ := done_iff.mp hdone
    rw [hbefore] at hfirst
    cases hfirst
  have hhere : firstListing (alertFingerprint l.alert) [poll] =
      ((listed poll).find? fun x => alertFingerprint x.alert = alertFingerprint l.alert).map
        fun first => (first, []) := by
    rw [firstListing]
    cases (listed poll).find? fun x => alertFingerprint x.alert = alertFingerprint l.alert <;>
      rfl
  have happend := firstListing_append (alertFingerprint l.alert) before [poll]
  rw [hbefore] at happend
  simp only [hnever, not_false_eq_true, true_imp_iff, Settled, happend, hhere,
    Option.map_eq_some_iff, Prod.mk.injEq]
  constructor
  · intro ⟨push, hpush, hsame⟩
    obtain ⟨x, rfl, _, hfind⟩ := mem_pushesAt.mp hpush
    have hfp : alertFingerprint x.alert = alertFingerprint l.alert := alertFingerprint_congr hsame
    rw [hfp] at hfind
    exact ⟨x, [], ⟨x, hfind, rfl, rfl⟩, hsame, Or.inl rfl⟩
  · intro ⟨first, since, ⟨x, hfind, hx, _⟩, hsame, _⟩
    have hfp := alertFingerprint_of_find? hfind
    rw [← hfp] at hfind
    refine ⟨pushOf dryRun x, mem_pushesAt.mpr ⟨x, rfl, ?_, hfind⟩, hx ▸ hsame⟩
    rw [hfp]
    exact hbefore

/-- An alert of a poll is done before it or pushed in it, if and only if it is settled. -/
theorem due_iff (hl : l ∈ listed poll) :
    (¬ Done dryRun before l.alert →
        ∃ push ∈ pushesAt dryRun before poll, SameLabels push.alert l.alert) ↔
      Settled dryRun (before ++ [poll]) l.alert := by
  cases hbefore : firstListing (alertFingerprint l.alert) before with
  | some p => exact due_seen_iff hl hbefore
  | none => exact due_fresh_iff hbefore

end Due

/-- **What is due.**  Every poll of a run pushes what is due, if and only if every alert of
every poll is settled. -/
theorem pushes_due_iff (dryRun : Bool) (run : List Poll) :
    (∀ m ∈ moments run, PushesDue dryRun m.1 m.2.1) ↔
      ∀ m ∈ moments run, ∀ l ∈ listed m.2.1, Settled dryRun (m.1 ++ [m.2.1]) l.alert := by
  refine forall₂_congr fun m hm => ?_
  constructor
  · intro h l hl
    exact (due_iff hl).mp (h.due l hl)
  · intro h
    exact ⟨fun l hl => (due_iff hl).mpr (h l hl), pushes_quiet _ _ _, pushes_once _ _ _⟩

def storm : Alert where
  labels := some ⟨[("alertname", "EDACCorrectableStorm")], by decide⟩
  annotations := none

/-- One failure loses the annotation: the second poll would have been answered. -/
theorem failed_push_lost :
    let run : List Poll := [some [⟨storm, 0, none⟩],
      some [⟨storm, 60000, some (.obj [("id", .num (.fin 1))])⟩]]
    ¬ ∀ m ∈ moments run, PushesDue false m.1 m.2.1 := by
  intro run h
  have hsecond := h ([some [⟨storm, 0, none⟩]],
    some [⟨storm, 60000, some (.obj [("id", .num (.fin 1))])⟩], []) (mem_moments.mpr rfl)
  obtain ⟨first, since, hfirst, _, hkept⟩ :=
    (due_iff List.mem_cons_self).mp (hsecond.due _ List.mem_cons_self)
  simp only [firstListing, listed, List.cons_append, List.nil_append, Option.getD_some,
    List.find?_cons, decide_true, Option.some.injEq, Prod.mk.injEq] at hfirst
  obtain ⟨rfl, rfl⟩ := hfirst
  rcases hkept with hnil | ⟨hok, _⟩
  · cases hnil
  · cases hok

end FaultOracle.Annotations
