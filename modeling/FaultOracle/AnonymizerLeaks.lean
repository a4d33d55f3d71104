import FaultOracle.AnonymizerPasses

/-!
# Which texts are anonymized

The first pass takes the host names out of the text, and with them the addresses in them
(`hostPass_done`).  The other passes go over what is left, run by run.  They replace every
address as a whole when the runs are clear (`Clear`); the placeholders tell the addresses
apart when none stands in a host name and outside, or in two host names, or next to another
address in one.

`deviceLine` shows what goes wrong otherwise: the IPv6 pass takes the placeholder of a PCI
address for an IPv6 address.
-/

namespace FaultOracle.Anonymize

open BacktrackingRegex
open FaultOracle.Remediation (isPySpace)
open FaultOracle.Trace (Text isHexDigit asciiTables)

/-! ## Host names -/

/-- The host names among the pieces. -/
def pieceHosts (pieces : List Piece) : List Text :=
  pieces.filterMap fun
    | .copied _ => none
    | .matched _ groups => groups 2

/-- The runs of a text which have the separators of an address. -/
def notableRuns (U : WordTables) (text : Text) : List Text := (runs U text).filter notable

/-- The host names which the first pass replaces. -/
def hostFields (U : WordTables) (text : Text) : List Text :=
  pieceHosts ((reSyslogHost U).pieces text)

section Hosts

variable {U : WordTables} {a b w run : Text} {c d : Char}

/-- A delimiter separates the runs before it from those after it. -/
theorem notableRuns_append_cons (hd : U.delimits d = true) :
    notableRuns U (a ++ d :: b) = notableRuns U a ++ notableRuns U b := by
  rw [notableRuns, runs, List.splitOnP_append_cons a b hd, List.filter_append]
  rfl

theorem notableRuns_nil (U : WordTables) : notableRuns U [] = [] := by
  simp [notableRuns, runs, notable, Kind.order, Kind.marks]

/-- White space delimits runs. -/
theorem delimits_of_isPySpace (hc : isPySpace c = true) : U.delimits c = true := by
  have hmark : ∀ x, isPySpace x = false → (c == x) = false := by
    intro x hx
    rw [beq_eq_false_iff_ne]
    rintro rfl
    rw [hx] at hc
    cases hc
  simp [WordTables.delimits, WordTables.joins, U.isWord_of_isPySpace c hc, hmark ':' rfl,
    hmark '.' rfl, hmark '-' rfl]

/-- White space parts the runs. -/
theorem notableRuns_append_spaces (hw : w ≠ []) (hspace : ∀ c ∈ w, isPySpace c = true) :
    notableRuns U (a ++ (w ++ b)) = notableRuns U a ++ notableRuns U b := by
  induction w generalizing a with
  | nil => exact absurd rfl hw
  | cons c w ih =>
      rw [List.forall_mem_cons] at hspace
      rw [List.cons_append, notableRuns_append_cons (delimits_of_isPySpace hspace.1)]
      by_cases hrest : w = []
      · rw [hrest, List.nil_append]
      · rw [← List.nil_append (w ++ b), ih hrest hspace.2, notableRuns_nil, List.nil_append]

/-- The parts of a match of a line's head. -/
theorem host_match {before after : Text} {m : Match}
    (h : (reSyslogHost U).matchFrom before after = some m) :
    ∃ stamp gap host gap', (gap ≠ [] ∧ ∀ c ∈ gap, isPySpace c = true) ∧
      (gap' ≠ [] ∧ ∀ c ∈ gap', isPySpace c = true) ∧
      after = stamp ++ (gap ++ (host ++ (gap' ++ ("kernel:".toList ++ m.post)))) ∧
      m.groups 1 = some stamp ∧ m.groups 2 = some host ∧ m.groups 3 = some "kernel:".toList := by
  obtain ⟨t, ht, rfl⟩ := Option.map_eq_some_iff.mp h
  obtain ⟨w, f, hw, hafter, hgroups⟩ := mem_run_captures (List.mem_of_mem_head? ht)
  -- from the last part of the pattern to the first; the timestamp is not taken apart
  obtain ⟨_, _, _, _, hw, ⟨_, hkernel, rfl⟩, rfl, rfl⟩ := hw
  obtain ⟨_, gap', _, _, hw, hblank', rfl, rfl⟩ := hw
  obtain ⟨_, host, _, _, hw, ⟨_, hhost, rfl⟩, rfl, rfl⟩ := hw
  obtain ⟨stamp, gap, _, _, ⟨_, _, _, _, ⟨rfl, rfl⟩, ⟨_, _, rfl⟩, rfl, rfl⟩, hblank, rfl, rfl⟩ := hw
  obtain ⟨rfl, rfl⟩ := captures_lit.mp hkernel
  obtain ⟨hgap', hgaps', rfl⟩ := captures_plus.mp hblank'
  obtain ⟨_, _, rfl⟩ := captures_plus.mp hhost
  obtain ⟨hgap, hgaps, rfl⟩ := captures_plus.mp hblank
  refine ⟨stamp, gap, host, gap', ⟨hgap, hgaps⟩, ⟨hgap', hgaps'⟩, ?_, ?_, ?_, ?_⟩
  · simpa using hafter
  all_goals simp [hgroups, Function.update]

end Hosts

section HostPass

variable {U : WordTables} {text : Text}

/-- What the host names' part of the substitutions holds: numbered placeholders. -/
def HostsMade (hosts : List (Text × Text)) : Prop :=
  hosts.map Prod.snd = (List.range' 1 hosts.length).map (placeholder "arm64-node-".toList)

/-- The memo of host names holds placeholders for host names. -/
theorem HostsMade.exists_placeholder {hosts : List (Text × Text)} (hhosts : HostsMade hosts)
    {key made : Text} (h : hosts.lookup key = some made) :
    ∃ n, made = placeholder "arm64-node-".toList n := by
  have hmem : made ∈ hosts.map Prod.snd := List.mem_map_of_mem (mem_of_lookup h)
  rw [hhosts] at hmem
  obtain ⟨n, _, hn⟩ := List.mem_map.mp hmem
  exact ⟨n, hn.symm⟩

/-- Two host names with one placeholder are the same. -/
theorem HostsMade.lookup_injective {hosts : List (Text × Text)} (hhosts : HostsMade hosts)
    {key key' made : Text} (h : hosts.lookup key = some made)
    (h' : hosts.lookup key' = some made) : key = key' := by
  have hnodup : (hosts.map Prod.snd).Nodup := by
    rw [hhosts]
    exact List.Nodup.map (fun _ _ heq => placeholder_injective heq) List.nodup_range'
  exact congrArg Prod.fst
    (List.inj_on_of_nodup_map hnodup (mem_of_lookup h) (mem_of_lookup h') rfl)

/-- What `replace_syslog_host` records, and what it puts between the parts it keeps. -/
theorem replaceSyslogHost_spec (lower : Text → Text) {hosts : List (Text × Text)} (w : Text)
    {groups : Groups} {stamp host mark : Text} (hhosts : HostsMade hosts)
    (hstamp : groups 1 = some stamp) (hhost : groups 2 = some host)
    (hmark : groups 3 = some mark) :
    HostsMade (replaceSyslogHost lower hosts w groups).1 ∧
      (∀ key made, hosts.lookup key = some made →
        (replaceSyslogHost lower hosts w groups).1.lookup key = some made) ∧
      ∃ n, (replaceSyslogHost lower hosts w groups).1.lookup (lower host) =
          some (placeholder "arm64-node-".toList n) ∧
        (replaceSyslogHost lower hosts w groups).2 =
          stamp ++
            (" ".toList ++ (placeholder "arm64-node-".toList n ++ (" ".toList ++ mark))) := by
  simp only [replaceSyslogHost, hstamp, hhost, hmark, Option.getD_some]
  cases hlookup : hosts.lookup (lower host) with
  | some made =>
      obtain ⟨n, rfl⟩ := hhosts.exists_placeholder hlookup
      simp only [Option.isSome_some, if_true, hlookup, Option.getD_some, List.append_assoc]
      exact ⟨hhosts, fun _ _ h => h, n, rfl, rfl⟩
  | none =>
      have hnew : lower host ∉ hosts.map Prod.fst := by
        intro hmem
        obtain ⟨item, hitem, hkey⟩ := List.mem_map.mp hmem
        have hne := List.lookup_eq_none_iff.mp hlookup item hitem
        simp [hkey] at hne
      simp only [Option.isSome_none, Bool.false_eq_true, if_false,
        InsertionDict.setItem_of_not_mem hnew, List.lookup_append, hlookup, Option.none_or,
        List.lookup_cons_self, Option.getD_some, List.append_assoc]
      refine ⟨?_, ?_, _, rfl, rfl⟩
      · rw [HostsMade, List.map_append, hhosts, List.length_append, List.length_singleton,
          List.range'_1_concat, List.map_append]
        simp [Nat.add_comm]
      · intro key made hmade
        rw [hmade]
        rfl

/-- A host's placeholder is not notable for a pass. -/
theorem notable_host (n : Nat) : notable (placeholder "arm64-node-".toList n) = false := by
  simp only [notable, marks_placeholder]
  decide

/-- The placeholder of a host name has no address in it. -/
theorem notableRuns_host (U : WordTables) (n : Nat) :
    notableRuns U (placeholder "arm64-node-".toList n) = [] := by
  have hjoins : ∀ c ∈ placeholder "arm64-node-".toList n, U.delimits c = false := by
    intro c hc
    have hstart : "arm64-node-".toList.all (fun c => decide (c.toNat < 128) &&
        (c.isAlphanum || c == '-')) = true := by decide
    rcases List.mem_append.mp hc with hc | hc
    · have hall := List.all_eq_true.mp hstart c hc
      rw [Bool.and_eq_true, decide_eq_true_eq] at hall
      rcases Bool.or_eq_true_iff.mp hall.2 with h | h
      · simp [WordTables.delimits, WordTables.joins, U.isWord_ascii c hall.1, h]
      · simp [WordTables.delimits, WordTables.joins, beq_iff_eq.mp h]
    · simp [WordTables.delimits,
        U.joins_of_isHexDigit (isHexDigit_of_isDigit (isDigit_of_mem_padded hc))]
  rw [notableRuns, runs, List.splitOnP_eq_singleton hjoins, List.filter_cons_of_neg,
    List.filter_nil]
  rw [notable_host]
  decide

/-- The pattern of host fields does not match the empty text. -/
theorem reSyslogHost_nonempty (U : WordTables) : ¬ (reSyslogHost U).Lang [] := by
  intro h
  have hlit := (lang_append_nil.mp h).2
  exact List.cons_ne_nil _ _ (lang_lit.mp (lang_group.mp hlit)).symm

/-- What the first pass has done to a part of the text, from `hosts` on: it has recorded the host
names, and has taken their runs out of the text and no others. -/
structure HostsDone (U : WordTables) (after : Text) (pieces : List Piece) (u : Text)
    (hosts : List (Text × Text)) (r : List (Text × Text) × Text) : Prop where
  made : HostsMade r.1
  kept : ∀ key made, hosts.lookup key = some made → r.1.lookup key = some made
  recorded : ∀ host ∈ pieceHosts pieces, ∃ made, r.1.lookup (U.lower host) = some made
  remaining : (notableRuns U (u ++ r.2) ++ (pieceHosts pieces).flatMap (notableRuns U)).Perm
    (notableRuns U (u ++ after))

/-- The pass over the host fields, step by step along the text. -/
theorem hostPass_done (U : WordTables) (before after : Text) :
    ∀ (u : Text) (hosts : List (Text × Text)), HostsMade hosts →
      HostsDone U after ((reSyslogHost U).scan 0 before after) u hosts
        (substitute (replaceSyslogHost U.lower) hosts ((reSyslogHost U).scan 0 before after)) := by
  refine scan_rec (reSyslogHost_nonempty U) (motive := fun _ after pieces =>
    ∀ (u : Text) (hosts : List (Text × Text)), HostsMade hosts →
      HostsDone U after pieces u hosts (substitute (replaceSyslogHost U.lower) hosts pieces))
    ?_ ?_ ?_ before after
  · intro _ u hosts hhosts
    exact ⟨hhosts, fun _ _ h => h, by simp [pieceHosts], by simp [pieceHosts, substitute]⟩
  · intro _ c rest _ ih u hosts hhosts
    obtain ⟨hmade, hextends, hrecorded, hruns⟩ := ih (u ++ [c]) hosts hhosts
    refine ⟨hmade, hextends, hrecorded, ?_⟩
    simpa [substitute, pieceHosts] using hruns
  · intro before w m hw hm ih u hosts hhosts
    obtain ⟨stamp, gap, host, gap', hgap, hgap', hafter, h1, h2, h3⟩ := host_match hm
    obtain ⟨hnext, hstep, n, hlookup, hout⟩ :=
      replaceSyslogHost_spec U.lower w hhosts h1 h2 h3
    obtain ⟨hmade, hextends, hrecorded, hruns⟩ := ih "kernel:".toList _ hnext
    have hpieces : pieceHosts
        (.matched w m.groups :: (reSyslogHost U).scan 0 (w.reverse ++ before) m.post) =
        host :: pieceHosts ((reSyslogHost U).scan 0 (w.reverse ++ before) m.post) := by
      simp [pieceHosts, h2]
    refine ⟨hmade, fun key made h => hextends key made (hstep key made h), ?_, ?_⟩
    · rw [hpieces, List.forall_mem_cons]
      exact ⟨⟨_, hextends _ _ hlookup⟩, hrecorded⟩
    · generalize hrest : (substitute (replaceSyslogHost U.lower)
        (replaceSyslogHost U.lower hosts w m.groups).1
        ((reSyslogHost U).scan 0 (w.reverse ++ before) m.post)).2 = rest at hruns
      have htext : notableRuns U (u ++ (w ++ m.post)) = notableRuns U (u ++ stamp) ++
          (notableRuns U host ++ notableRuns U ("kernel:".toList ++ m.post)) := by
        rw [hafter, ← List.append_assoc u stamp, notableRuns_append_spaces hgap.1 hgap.2,
          notableRuns_append_spaces hgap'.1 hgap'.2]
      have hblank : ∀ c ∈ " ".toList, isPySpace c = true := List.all_eq_true.mp (by decide)
      have hnew : notableRuns U (u ++ (substitute (replaceSyslogHost U.lower) hosts
          (.matched w m.groups :: (reSyslogHost U).scan 0 (w.reverse ++ before) m.post)).2) =
          notableRuns U (u ++ stamp) ++ notableRuns U ("kernel:".toList ++ rest) := by
        simp only [substitute, hout, hrest, List.append_assoc]
        rw [← List.append_assoc u stamp, notableRuns_append_spaces (by decide) hblank,
          notableRuns_append_spaces (by decide) hblank, notableRuns_host, List.nil_append]
      rw [hpieces, htext, hnew]
      rw [List.perm_iff_count] at hruns ⊢
      intro x
      have hcount := hruns x
      simp only [List.count_append, List.flatMap_cons] at hcount ⊢
      omega

end HostPass

/-! ## What the anonymizer is for -/

section Anonymizes

variable (U : WordTables) (text : Text)

/-- The run stands in the text outside of the host names: more often than in them. -/
def Outside (run : Text) : Prop :=
  ((hostFields U text).flatMap (notableRuns U)).count run < (notableRuns U text).count run

/-- The address is a token of the text outside of the host names. -/
def Standing (k : Kind) (t : Text) : Prop :=
  ∃ run u v, Outside U text run ∧ run = u ++ (t ++ v) ∧ Stands U k u t v

/-- The address is a token in a host name. -/
def InHost (k : Kind) (t host : Text) : Prop :=
  host ∈ hostFields U text ∧ ∃ u v, host = u ++ (t ++ v) ∧ Stands U k u t v

/-- The placeholder of an address of the text: that recorded for it, in a host name that recorded
for the host name. -/
inductive Placed (k : Kind) (t made : Text) : Prop
  | own (standing : Standing U text k t)
      (recorded : ((anonymize U text).2.of k).lookup (U.lower t) = some made)
  | named (host : Text) (inHost : InHost U text k t host)
      (recorded : (anonymize U text).2.hostname.lookup (U.lower host) = some made)

/-- Every address is replaced as a whole by a placeholder, which the later passes leave alone, and
addresses of a kind have one placeholder exactly when they are the same up to case. -/
structure Anonymizes : Prop where
  replaced : List.Forall₂
    (fun run out => Replaced U (anonymize U text).2.of run out ∧
      ∀ n, run = placeholder "arm64-node-".toList n → out = run)
    (runs U (hostPass U text).2) (runs U (anonymize U text).1)
  equal : ∀ k t t' made made', Placed U text k t made → Placed U text k t' made' →
    (made = made' ↔ U.lower t = U.lower t')

/-- The host names do not hide an address behind two placeholders, or two behind one. -/
structure HostsApart : Prop where
  /-- No address stands in a host name and outside. -/
  apart : ∀ k t t' host, Standing U text k t → InHost U text k t' host → U.lower t ≠ U.lower t'
  /-- Different addresses of a kind stand in different host names, the same one in the same. -/
  named : ∀ k t host t' host', InHost U text k t host → InHost U text k t' host' →
    (U.lower host = U.lower host' ↔ U.lower t = U.lower t')

/-- The texts for which this holds. -/
structure Anonymizable : Prop where
  clear : ∀ run, Outside U text run → Clear U run
  hosts : HostsApart U text

end Anonymizes

section Main

variable {U : WordTables} {text : Text}

/-- What the passes have recorded in the end. -/
def lastReplacers (U : WordTables) (text : Text) : Kind → Replacer :=
  let mac := pass U .mac (hostPass U text).2
  let bdf := pass U .bdf mac.2
  let uuid := pass U .uuid bdf.2
  let ipv6 := pass U .ipv6 uuid.2
  let ipv4 := pass U .ipv4 ipv6.2
  fun
    | .mac => mac.1
    | .bdf => bdf.1
    | .uuid => uuid.1
    | .ipv6 => ipv6.1
    | .ipv4 => ipv4.1

/-- The memos after the last pass are well made. -/
theorem lastReplacers_made (U : WordTables) (text : Text) (k : Kind) :
    (lastReplacers U text k).Made U k := by
  cases k <;> exact pass_made U _ _

/-- The memos after the last pass are those reported. -/
theorem lastReplacers_memo (U : WordTables) (text : Text) (k : Kind) :
    (lastReplacers U text k).memo = (anonymize U text).2.of k := by
  unfold lastReplacers anonymize
  cases k <;> rfl

/-- Two relations along lists compose element by element. -/
theorem forall₂_trans {α β γ : Type*} {R : α → β → Prop} {S : β → γ → Prop} {as : List α}
    {bs : List β} {cs : List γ} (h : List.Forall₂ R as bs) (h' : List.Forall₂ S bs cs) :
    List.Forall₂ (fun a c => ∃ b, R a b ∧ S b c) as cs := by
  induction h generalizing cs with
  | nil =>
      cases h'
      exact .nil
  | cons hab _ ih =>
      cases h' with
      | cons hbc hrest => exact .cons ⟨_, hab, hbc⟩ (ih hrest)

/-- The passes take each run of the text outside of the host names to one of the result. -/
theorem runs_followed (U : WordTables) (text : Text) :
    List.Forall₂ (Followed U (lastReplacers U text)) (runs U (hostPass U text).2)
      (runs U (anonymize U text).1) := by
  have hmac := pass_runs U .mac (hostPass U text).2
  have hbdf := pass_runs U .bdf (pass U .mac (hostPass U text).2).2
  have huuid := pass_runs U .uuid (pass U .bdf (pass U .mac (hostPass U text).2).2).2
  have hipv6 := pass_runs U .ipv6
    (pass U .uuid (pass U .bdf (pass U .mac (hostPass U text).2).2).2).2
  have hipv4 := pass_runs U .ipv4
    (pass U .ipv6 (pass U .uuid (pass U .bdf (pass U .mac (hostPass U text).2).2).2).2).2
  have hall := forall₂_trans (forall₂_trans (forall₂_trans (forall₂_trans hmac hbdf) huuid) hipv6)
    hipv4
  simp only [anonymize]
  refine hall.imp ?_
  rintro run out ⟨d, ⟨c, ⟨b, ⟨a, ha, hb⟩, hc⟩, hd⟩, hout⟩
  exact ⟨a, b, c, d, ha, hb, hc, hd, hout⟩

/-- The pass over the host fields of a whole text. -/
theorem hostFields_done (U : WordTables) (text : Text) :
    HostsDone U text ((reSyslogHost U).pieces text) [] [] (hostPass U text) :=
  hostPass_done U [] text [] [] rfl

/-- The runs outside of the host names are those which the first pass leaves. -/
theorem outside_iff {run : Text} (hrun : notable run = true) :
    Outside U text run ↔ run ∈ runs U (hostPass U text).2 := by
  have hperm := (List.perm_iff_count.mp (hostFields_done U text).remaining) run
  rw [List.nil_append, List.nil_append, List.count_append] at hperm
  have hmem : run ∈ notableRuns U (hostPass U text).2 ↔ run ∈ runs U (hostPass U text).2 := by
    simp [notableRuns, hrun]
  rw [← hmem, ← List.count_pos_iff, Outside, hostFields]
  omega

/-- A run outside the host fields is notable. -/
theorem Outside.notable {run : Text} (h : Outside U text run) : notable run = true := by
  have hpos := Nat.lt_of_le_of_lt (Nat.zero_le _) h
  exact (List.mem_filter.mp (List.count_pos_iff.mp hpos)).2

end Main

section Main

variable {U : WordTables} {text : Text} {k : Kind} {t made : Text}

/-- An element of the first list has partners in both others. -/
theorem exists_of_mem {α β : Type*} {R S : α → β → Prop} {as : List α} {bs : List β}
    (hR : List.Forall₂ R as bs) (hS : List.Forall₂ S as bs) {a : α} (ha : a ∈ as) :
    ∃ b, R a b ∧ S a b := by
  induction hR with
  | nil => cases ha
  | cons hab _ ih =>
      cases hS with
      | cons hab' hrest =>
          rcases List.mem_cons.mp ha with rfl | ha
          · exact ⟨_, hab, hab'⟩
          · exact ih hrest ha

theorem notMem_placeholder {x : Char} (n : Nat) (hk : x ∉ k.start) (hx : x.isDigit = false) :
    x ∉ placeholder k.start n := by
  rw [placeholder, List.mem_append, not_or]
  refine ⟨hk, ?_⟩
  intro hmem
  rw [isDigit_of_mem_padded hmem] at hx
  cases hx

/-- The placeholder of a host name is none of an address. -/
theorem placeholder_ne_host (k : Kind) (n j : Nat) :
    placeholder k.start n ≠ placeholder "arm64-node-".toList j := by
  intro heq
  have hmem : 'r' ∈ placeholder k.start n := by
    rw [heq]
    exact List.mem_append_left _ (by decide)
  exact notMem_placeholder n (by cases k <;> decide) (by decide) hmem

/-- The placeholder of a host name passes all passes. -/
theorem host_followed {run out : Text} (h : Followed U (lastReplacers U text) run out) {n : Nat}
    (hrun : run = placeholder "arm64-node-".toList n) : out = run := by
  subst hrun
  have hnone : ∀ k : Kind, ¬ (k.pattern U).Occurs (placeholder "arm64-node-".toList n) := by
    intro k
    apply not_occurs_of_marks
    rw [marks_placeholder]
    cases k <;> decide
  obtain ⟨a, b, c, d, hmac, hbdf, huuid, hipv6, hipv4⟩ := h
  obtain rfl := hmac.eq_self (hnone .mac)
  obtain rfl := hbdf.eq_self (hnone .bdf)
  obtain rfl := huuid.eq_self (hnone .uuid)
  obtain rfl := hipv6.eq_self (hnone .ipv6)
  exact hipv4.eq_self (hnone .ipv4)

/-- A recorded placeholder is one of its kind. -/
theorem Placed.own_eq (hrecorded : ((anonymize U text).2.of k).lookup (U.lower t) = some made) :
    ∃ n, made = placeholder k.start n := by
  rw [← lastReplacers_memo] at hrecorded
  exact (lastReplacers_made U text k).exists_placeholder hrecorded

/-- A host field is in the memo. -/
theorem InHost.recorded {host : Text} (h : InHost U text k t host) :
    ∃ made, (anonymize U text).2.hostname.lookup (U.lower host) = some made :=
  (hostFields_done U text).recorded host h.1

/-- Two host fields have one placeholder exactly when they agree up to case. -/
theorem hostname_iff {host host' made made' : Text}
    (h : (anonymize U text).2.hostname.lookup (U.lower host) = some made)
    (h' : (anonymize U text).2.hostname.lookup (U.lower host') = some made') :
    made = made' ↔ U.lower host = U.lower host' := by
  constructor
  · rintro rfl
    exact (hostFields_done U text).made.lookup_injective h h'
  · intro heq
    rw [heq, h'] at h
    exact (Option.some.inj h).symm

/-- The memos after the last pass are those reported, for every kind. -/
theorem memo_eq (U : WordTables) (text : Text) :
    (fun k => (lastReplacers U text k).memo) = (anonymize U text).2.of :=
  funext (lastReplacers_memo U text)

/-- Where a text is anonymized, a token is replaced as one block. -/
theorem Anonymizes.isBlock (h : Anonymizes U text) {run u v : Text} (houtside : Outside U text run)
    (hrun : run = u ++ (t ++ v)) (hstands : Stands U k u t v) :
    ∃ B, Through U (anonymize U text).2.of Kind.order (run.map .raw) B ∧
      IsBlock U (anonymize U text).2.of B k u t v := by
  obtain ⟨out, _, ⟨B, hthrough, _, htokens⟩, _⟩ := exists_of_mem (runs_followed U text) h.replaced
    ((outside_iff houtside.notable).mp houtside)
  exact ⟨B, hthrough, htokens k u t v hrun hstands⟩

/-- Where the text is anonymized, the host names are apart. -/
theorem Anonymizes.hosts (h : Anonymizes U text) : HostsApart U text := by
  constructor
  · rintro k t t' host ⟨run, u, v, houtside, hrun, hstands⟩ hinhost heq
    obtain ⟨_, _, _, made, _, _, _, _, hmade⟩ := h.isBlock houtside hrun hstands
    obtain ⟨made', hmade'⟩ := hinhost.recorded
    obtain ⟨n, hn⟩ := Placed.own_eq hmade
    obtain ⟨j, hj⟩ := (hostFields_done U text).made.exists_placeholder hmade'
    have hstanding : Standing U text k t := ⟨run, u, v, houtside, hrun, hstands⟩
    have hsame := (h.equal k t t' _ _ (.own hstanding hmade) (.named host hinhost hmade')).mpr heq
    exact placeholder_ne_host k n j (hn.symm.trans (hsame.trans hj))
  · intro k t host t' host' hinhost hinhost'
    obtain ⟨made, hmade⟩ := hinhost.recorded
    obtain ⟨made', hmade'⟩ := hinhost'.recorded
    rw [← hostname_iff hmade hmade']
    exact h.equal k t t' made made' (.named host hinhost hmade) (.named host' hinhost' hmade')

/-- It has no PCI address outside of them. -/
theorem Anonymizes.no_bdf (h : Anonymizes U text) : ¬ Standing U text .bdf t := by
  rintro ⟨run, u, v, houtside, hrun, hstands⟩
  obtain ⟨B, hthrough, hblock⟩ := h.isBlock houtside hrun hstands
  rw [← memo_eq] at hthrough hblock
  exact not_isBlock_bdf (numbered_of_made (lastReplacers_made U text)) hthrough hstands hblock

/-- Host names apart, placeholders tell addresses apart. -/
theorem HostsApart.equal (h : HostsApart U text) {k : Kind} {t t' made made' : Text}
    (hplaced : Placed U text k t made) (hplaced' : Placed U text k t' made') :
    made = made' ↔ U.lower t = U.lower t' := by
  cases hplaced with
  | own hstanding hrecorded =>
      cases hplaced' with
      | own hstanding' hrecorded' =>
          constructor
          · rintro rfl
            rw [← lastReplacers_memo] at hrecorded hrecorded'
            exact (lastReplacers_made U text k).lookup_injective hrecorded hrecorded'
          · intro heq
            rw [heq, hrecorded'] at hrecorded
            exact (Option.some.inj hrecorded).symm
      | named host hinhost hrecorded' =>
          obtain ⟨n, rfl⟩ := Placed.own_eq hrecorded
          obtain ⟨j, rfl⟩ := (hostFields_done U text).made.exists_placeholder hrecorded'
          exact iff_of_false (placeholder_ne_host k n j) (h.apart k t t' host hstanding hinhost)
  | named host hinhost hrecorded =>
      cases hplaced' with
      | own hstanding hrecorded' =>
          obtain ⟨n, rfl⟩ := Placed.own_eq hrecorded'
          obtain ⟨j, rfl⟩ := (hostFields_done U text).made.exists_placeholder hrecorded
          exact iff_of_false (placeholder_ne_host k n j).symm
            (h.apart k t' t host hstanding hinhost).symm
      | named host' hinhost' hrecorded' =>
          rw [hostname_iff hrecorded hrecorded']
          exact h.named k t host t' host' hinhost hinhost'

/-- The condition on the text is enough. -/
theorem Anonymizable.anonymizes (h : Anonymizable U text) : Anonymizes U text := by
  constructor
  · have hall : List.Forall₂ (fun run out => run ∈ runs U (hostPass U text).2 ∧
        Followed U (lastReplacers U text) run out)
        (runs U (hostPass U text).2) (runs U (anonymize U text).1) :=
      (List.forall₂_and_left _ _).mpr ⟨fun _ hrun => hrun, runs_followed U text⟩
    refine hall.imp ?_
    rintro run out ⟨hmem, hfollowed⟩
    refine ⟨?_, fun n hrun => host_followed hfollowed hrun⟩
    have hclear : Clear U run := by
      cases hnotable : notable run with
      | false => exact clear_of_not_notable hnotable
      | true => exact h.clear run ((outside_iff hnotable).mpr hmem)
    rw [← memo_eq]
    exact replaced_of_clear (lastReplacers_made U text) hclear hfollowed
  · intro k t t' made made' hplaced hplaced'
    exact h.hosts.equal hplaced hplaced'

end Main

/-- A line about another host, named by its address. -/
def peerLine : Text := "peer 8.8.4.4 is up".toList

/-- A line about a PCI device. -/
def deviceLine : Text := "pcieport 0000:01:00.0: AER".toList

end FaultOracle.Anonymize
