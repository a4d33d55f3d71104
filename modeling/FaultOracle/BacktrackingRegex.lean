import Mathlib.Data.List.Basic
import Mathlib.Data.List.Infix
import Mathlib.Logic.Function.Basic

/-!
# Regular expressions with backtracking

A pattern is run at a position of a text and gives all the ways it can match there, in
the order in which a backtracking matcher tries them; the first of them is the match.
Repetition is greedy and of single characters, as `\d+` or `.*` are.

Two notions carry proofs about patterns.  `Re.Lang` is the language of a pattern:
whatever matches is in it (`mem_run_lang`), and where anchors play no part a text of it
is matched (`Plain.exists_run`).  `Reads` says that the first match is a given text, and
is put together along the pattern (`Reads.append`).
-/

namespace BacktrackingRegex

/-- A pattern. -/
inductive Re
  | empty
  | one (p : Char → Bool)
  | star (p : Char → Bool)
  | seq (a b : Re)
  | alt (a b : Re)
  | opt (a : Re)
  | group (n : Nat) (a : Re)
  | atStart
  | boundary (isWord : Char → Bool)

instance : Append Re := ⟨Re.seq⟩

namespace Re

/-- One or more characters of a class. -/
def plus (p : Char → Bool) : Re := one p ++ star p

/-- A fixed text. -/
def lit : List Char → Re
  | [] => empty
  | c :: w => one (fun d => d == c) ++ lit w

/-- The same pattern so many times. -/
def times : Nat → Re → Re
  | 0, _ => empty
  | n + 1, a => a ++ times n a

end Re

/-- What each group captured. -/
abbrev Groups := Nat → Option (List Char)

/-- A position in a text, the characters before it in reverse order. -/
structure State where
  before : List Char
  after : List Char
  groups : Groups

/-- Group `n` captures what was read from `s` on. -/
def State.capture (n : Nat) (s t : State) : State :=
  { t with
    groups := Function.update t.groups n
      (some (s.after.take (s.after.length - t.after.length))) }

/-- Whether a word begins or ends here. -/
def State.atBoundary (isWord : Char → Bool) (s : State) : Bool :=
  s.before.head?.any isWord != s.after.head?.any isWord

/-- The ways to read characters of a class, the longest first. -/
def starFrom (p : Char → Bool) (g : Groups) : List Char → List Char → List State
  | before, [] => [⟨before, [], g⟩]
  | before, c :: rest =>
      if p c then starFrom p g (c :: before) rest ++ [⟨before, c :: rest, g⟩]
      else [⟨before, c :: rest, g⟩]

/-- All matches at a position, in the order in which they are tried. -/
def Re.run : Re → State → List State
  | .empty, s => [s]
  | .one p, s =>
      match s.after with
      | [] => []
      | c :: rest => if p c then [⟨c :: s.before, rest, s.groups⟩] else []
  | .star p, s => starFrom p s.groups s.before s.after
  | .seq a b, s => (a.run s).flatMap b.run
  | .alt a b, s => a.run s ++ b.run s
  | .opt a, s => a.run s ++ [s]
  | .group n a, s => (a.run s).map (s.capture n)
  | .atStart, s => if s.before = [] then [s] else []
  | .boundary isWord, s => if s.atBoundary isWord then [s] else []

/-- The match at a position. -/
def Re.first (re : Re) (s : State) : Option State := (re.run s).head?

/-- A match found in a text. -/
structure Match where
  pre : List Char
  post : List Char
  groups : Groups

/-- The match at the position between `before` (reversed) and `after`. -/
def Re.matchFrom (re : Re) (before after : List Char) : Option Match :=
  (re.first ⟨before, after, fun _ => none⟩).map fun t => ⟨before.reverse, t.after, t.groups⟩

/-- `re.match`: the match at the start of the text. -/
def Re.matchStart (re : Re) (text : List Char) : Option Match := re.matchFrom [] text

/-- The leftmost match from a position on. -/
def Re.searchFrom (re : Re) : List Char → List Char → Option Match
  | before, [] => re.matchFrom before []
  | before, c :: rest =>
      match re.matchFrom before (c :: rest) with
      | some m => some m
      | none => re.searchFrom (c :: before) rest

/-- `re.search`: the leftmost match. -/
def Re.search (re : Re) (text : List Char) : Option Match := re.searchFrom [] text

/-- `re.sub` with nothing put in its place, for a pattern which matches at the start of
the text only. -/
def Re.removeStart (re : Re) (text : List Char) : List Char :=
  match re.matchStart text with
  | some m => m.post
  | none => text

/-! ## The language of a pattern -/

/-- The texts a pattern can match, anchors aside. -/
def Re.Lang : Re → List Char → Prop
  | .empty, w => w = []
  | .one p, w => ∃ c, p c = true ∧ w = [c]
  | .star p, w => ∀ c ∈ w, p c = true
  | .seq a b, w => ∃ u v, a.Lang u ∧ b.Lang v ∧ w = u ++ v
  | .alt a b, w => a.Lang w ∨ b.Lang w
  | .opt a, w => a.Lang w ∨ w = []
  | .group _ a, w => a.Lang w
  | .atStart, w => w = []
  | .boundary _, w => w = []

section Lang

variable {p : Char → Bool} {a b re : Re} {s t : State} {w : List Char}

/-- A sequence matches what its parts match one after the other. -/
@[simp] theorem lang_append : (a ++ b).Lang w ↔ ∃ u v, a.Lang u ∧ b.Lang v ∧ w = u ++ v :=
  Iff.rfl

/-- A group matches what its pattern matches. -/
@[simp] theorem lang_group {n : Nat} : (Re.group n a).Lang w ↔ a.Lang w := Iff.rfl

/-- A boundary takes no character. -/
@[simp] theorem lang_boundary {isWord : Char → Bool} :
    (Re.boundary isWord).Lang w ↔ w = [] := Iff.rfl

/-- A repetition takes any number of characters of its class. -/
@[simp] theorem lang_star : (Re.star p).Lang w ↔ ∀ c ∈ w, p c = true := Iff.rfl

/-- A literal matches itself only. -/
@[simp] theorem lang_lit {u : List Char} : (Re.lit u).Lang w ↔ w = u := by
  induction u generalizing w with
  | nil => exact Iff.rfl
  | cons c u ih =>
      rw [Re.lit, lang_append]
      constructor
      · rintro ⟨_, v, ⟨d, hd, rfl⟩, hv, rfl⟩
        rw [ih.mp hv, beq_iff_eq.mp hd]
        rfl
      · intro h
        exact ⟨[c], u, ⟨c, by simp, rfl⟩, ih.mpr rfl, h⟩

/-- At least one character of the class, and no other. -/
@[simp] theorem lang_plus : (Re.plus p).Lang w ↔ w ≠ [] ∧ ∀ c ∈ w, p c = true := by
  rw [Re.plus, lang_append]
  constructor
  · rintro ⟨_, v, ⟨c, hc, rfl⟩, hv, rfl⟩
    refine ⟨by simp, ?_⟩
    intro d hd
    rcases List.mem_cons.mp hd with rfl | hd
    · exact hc
    · exact hv d hd
  · rintro ⟨hne, hall⟩
    obtain ⟨c, v, rfl⟩ := List.exists_cons_of_ne_nil hne
    refine ⟨[c], v, ⟨c, hall c (by simp), rfl⟩, ?_, rfl⟩
    intro d hd
    exact hall d (List.mem_cons_of_mem c hd)

/-- So many characters of the class. -/
@[simp] theorem lang_times {n : Nat} :
    (Re.times n (.one p)).Lang w ↔ w.length = n ∧ ∀ c ∈ w, p c = true := by
  induction n generalizing w with
  | zero =>
      rw [Re.times, List.length_eq_zero_iff]
      constructor
      · intro h
        obtain rfl : w = [] := h
        simp
      · intro h
        exact h.1
  | succ n ih =>
      rw [Re.times, lang_append]
      constructor
      · intro ⟨_, v, ⟨c, hc, rfl⟩, hv, hw⟩
        obtain ⟨hlen, hall⟩ := ih.mp hv
        subst hw
        refine ⟨by simp [hlen], ?_⟩
        intro d hd
        rcases List.mem_cons.mp hd with rfl | hd
        · exact hc
        · exact hall d hd
      · intro ⟨hlen, hall⟩
        obtain ⟨c, v, rfl⟩ := List.exists_cons_of_length_eq_add_one hlen
        refine ⟨[c], v, ⟨c, hall c (by simp), rfl⟩, ih.mpr ⟨by simpa using hlen, ?_⟩, rfl⟩
        intro d hd
        exact hall d (List.mem_cons_of_mem c hd)

/-- A state is known by its three parts. -/
theorem State.eq_mk_iff {before after : List Char} {g : Groups} :
    t = ⟨before, after, g⟩ ↔ after = t.after ∧ t.before = before ∧ t.groups = g := by
  cases t
  simp only [State.mk.injEq]
  constructor
  · rintro ⟨rfl, rfl, rfl⟩
    exact ⟨rfl, rfl, rfl⟩
  · rintro ⟨h, rfl, rfl⟩
    exact ⟨rfl, h.symm, rfl⟩

/-- What a repetition can reach: any stretch of characters of its class. -/
theorem mem_starFrom {g : Groups} {before after : List Char} :
    t ∈ starFrom p g before after ↔
      ∃ u, (∀ c ∈ u, p c = true) ∧ after = u ++ t.after ∧ t.before = u.reverse ++ before ∧
        t.groups = g := by
  induction after generalizing before with
  | nil =>
      rw [starFrom, List.mem_singleton, State.eq_mk_iff]
      constructor
      · rintro ⟨hafter, hbefore, hg⟩
        exact ⟨[], by simp, hafter, hbefore, hg⟩
      · rintro ⟨u, _, hafter, hbefore, hg⟩
        obtain ⟨rfl, hnil⟩ := List.append_eq_nil_iff.mp hafter.symm
        exact ⟨hnil.symm, hbefore, hg⟩
  | cons c rest ih =>
      rw [starFrom]
      split
      · rename_i hc
        rw [List.mem_append, ih, List.mem_singleton, State.eq_mk_iff]
        constructor
        · rintro (⟨u, hu, rfl, hbefore, hg⟩ | ⟨hafter, hbefore, hg⟩)
          · refine ⟨c :: u, ?_, rfl, by simp [hbefore], hg⟩
            intro d hd
            rcases List.mem_cons.mp hd with rfl | hd
            · exact hc
            · exact hu d hd
          · exact ⟨[], by simp, hafter, hbefore, hg⟩
        · rintro ⟨u, hu, hafter, hbefore, hg⟩
          cases u with
          | nil => exact Or.inr ⟨hafter, hbefore, hg⟩
          | cons d u =>
              obtain ⟨rfl, rfl⟩ := List.cons.inj hafter
              exact Or.inl ⟨u, fun e he => hu e (List.mem_cons_of_mem c he), rfl,
                by simp [hbefore], hg⟩
      · rename_i hc
        rw [List.mem_singleton, State.eq_mk_iff]
        constructor
        · rintro ⟨hafter, hbefore, hg⟩
          exact ⟨[], by simp, hafter, hbefore, hg⟩
        · rintro ⟨u, hu, hafter, hbefore, hg⟩
          cases u with
          | nil => exact ⟨hafter, hbefore, hg⟩
          | cons d u =>
              obtain ⟨rfl, rfl⟩ := List.cons.inj hafter
              exact absurd (hu c (by simp)) hc

end Lang

/-- Whatever a pattern matches is in its language. -/
theorem mem_run_lang {re : Re} {s t : State} (h : t ∈ re.run s) :
    ∃ w, re.Lang w ∧ s.after = w ++ t.after ∧ t.before = w.reverse ++ s.before := by
  induction re generalizing s t with
  | empty =>
      obtain rfl := List.mem_singleton.mp h
      exact ⟨[], rfl, rfl, rfl⟩
  | one p =>
      rw [Re.run] at h
      split at h
      · cases h
      · rename_i c rest hafter
        split at h
        · rename_i hc
          obtain rfl := List.mem_singleton.mp h
          exact ⟨[c], ⟨c, hc, rfl⟩, hafter, rfl⟩
        · cases h
  | star p =>
      obtain ⟨u, hu, hafter, hbefore, _⟩ := mem_starFrom.mp h
      exact ⟨u, hu, hafter, hbefore⟩
  | seq a b iha ihb =>
      obtain ⟨m, hm, ht⟩ := List.mem_flatMap.mp h
      obtain ⟨u, hu, hu1, hu2⟩ := iha hm
      obtain ⟨v, hv, hv1, hv2⟩ := ihb ht
      refine ⟨u ++ v, ⟨u, v, hu, hv, rfl⟩, ?_, ?_⟩
      · rw [hu1, hv1, List.append_assoc]
      · rw [hv2, hu2, List.reverse_append, List.append_assoc]
  | alt a b iha ihb =>
      rcases List.mem_append.mp h with h | h
      · obtain ⟨w, hw, h1, h2⟩ := iha h
        exact ⟨w, Or.inl hw, h1, h2⟩
      · obtain ⟨w, hw, h1, h2⟩ := ihb h
        exact ⟨w, Or.inr hw, h1, h2⟩
  | opt a ih =>
      rcases List.mem_append.mp h with h | h
      · obtain ⟨w, hw, h1, h2⟩ := ih h
        exact ⟨w, Or.inl hw, h1, h2⟩
      · obtain rfl := List.mem_singleton.mp h
        exact ⟨[], Or.inr rfl, rfl, rfl⟩
  | group n a ih =>
      obtain ⟨m, hm, rfl⟩ := List.mem_map.mp h
      obtain ⟨w, hw, h1, h2⟩ := ih hm
      exact ⟨w, hw, h1, h2⟩
  | atStart =>
      rw [Re.run] at h
      split at h
      · obtain rfl := List.mem_singleton.mp h
        exact ⟨[], rfl, rfl, rfl⟩
      · cases h
  | boundary isWord =>
      rw [Re.run] at h
      split at h
      · obtain rfl := List.mem_singleton.mp h
        exact ⟨[], rfl, rfl, rfl⟩
      · cases h

/-- No anchors. -/
def Re.Plain : Re → Prop
  | .seq a b => a.Plain ∧ b.Plain
  | .alt a b => a.Plain ∧ b.Plain
  | .opt a => a.Plain
  | .group _ a => a.Plain
  | .atStart => False
  | .boundary _ => False
  | _ => True

section Plain

variable {p : Char → Bool} {a b : Re}

/-- A sequence is without anchors when its parts are. -/
@[simp] theorem plain_append : (a ++ b).Plain ↔ a.Plain ∧ b.Plain := Iff.rfl

/-- A group is without anchors when its pattern is. -/
@[simp] theorem plain_group {n : Nat} : (Re.group n a).Plain ↔ a.Plain := Iff.rfl

/-- A repetition is no anchor. -/
@[simp] theorem plain_star : (Re.star p).Plain := trivial

/-- Nor is one that takes a character at least. -/
@[simp] theorem plain_plus : (Re.plus p).Plain := ⟨trivial, trivial⟩

/-- A literal has no anchor in it. -/
@[simp] theorem plain_lit (w : List Char) : (Re.lit w).Plain := by
  induction w with
  | nil => exact trivial
  | cons c w ih => exact ⟨trivial, ih⟩

end Plain

/-- Without anchors, a text of the language is matched wherever it stands. -/
theorem Re.Plain.exists_run {re : Re} (hre : re.Plain) {w : List Char} (hw : re.Lang w)
    (before rest : List Char) (g : Groups) :
    ∃ t ∈ re.run ⟨before, w ++ rest, g⟩, t.before = w.reverse ++ before ∧ t.after = rest := by
  induction re generalizing w before rest g with
  | empty =>
      subst hw
      exact ⟨_, List.mem_singleton.mpr rfl, rfl, rfl⟩
  | one p =>
      obtain ⟨c, hc, rfl⟩ := hw
      refine ⟨⟨c :: before, rest, g⟩, ?_, rfl, rfl⟩
      simp [Re.run, hc]
  | star p => exact ⟨⟨_, rest, g⟩, mem_starFrom.mpr ⟨w, hw, rfl, rfl, rfl⟩, rfl, rfl⟩
  | seq a b iha ihb =>
      obtain ⟨u, v, hu, hv, rfl⟩ := hw
      obtain ⟨⟨_, _, g'⟩, hm, rfl, rfl⟩ := iha hre.1 hu before (v ++ rest) g
      obtain ⟨t, ht, htb, hta⟩ := ihb hre.2 hv (u.reverse ++ before) rest g'
      refine ⟨t, ?_, by simp [htb], hta⟩
      rw [List.append_assoc]
      exact List.mem_flatMap.mpr ⟨_, hm, ht⟩
  | alt a b iha ihb =>
      rcases hw with hw | hw
      · obtain ⟨t, ht, h⟩ := iha hre.1 hw before rest g
        exact ⟨t, List.mem_append_left _ ht, h⟩
      · obtain ⟨t, ht, h⟩ := ihb hre.2 hw before rest g
        exact ⟨t, List.mem_append_right _ ht, h⟩
  | opt a ih =>
      rcases hw with hw | rfl
      · obtain ⟨t, ht, h⟩ := ih hre hw before rest g
        exact ⟨t, List.mem_append_left _ ht, h⟩
      · exact ⟨_, List.mem_append_right _ (List.mem_singleton.mpr rfl), rfl, rfl⟩
  | group n a ih =>
      obtain ⟨t, ht, h⟩ := ih hre hw before rest g
      exact ⟨_, List.mem_map.mpr ⟨t, ht, rfl⟩, h⟩
  | atStart => exact hre.elim
  | boundary isWord => exact hre.elim

/-- A text of the language begins here. -/
def Re.At (re : Re) (text : List Char) : Prop := ∃ w, re.Lang w ∧ w <+: text

/-- What begins a text begins every longer one. -/
theorem Re.At.append {re : Re} {text : List Char} (h : re.At text) (rest : List Char) :
    re.At (text ++ rest) := by
  obtain ⟨w, hw, hpre⟩ := h
  exact ⟨w, hw, hpre.trans (List.prefix_append text rest)⟩

/-- A match of a sequence begins with one of its first part. -/
theorem Re.At.left {a b : Re} {text : List Char} (h : (a ++ b).At text) : a.At text := by
  obtain ⟨w, hw, hpre⟩ := h
  obtain ⟨u, v, hu, _, rfl⟩ := lang_append.mp hw
  exact ⟨u, hu, (List.prefix_append u v).trans hpre⟩

/-- A literal can stand where the text begins with it. -/
theorem at_lit {w text : List Char} : (Re.lit w).At text ↔ w <+: text := by
  constructor
  · intro ⟨u, hu, hpre⟩
    rwa [lang_lit.mp hu] at hpre
  · intro h
    exact ⟨w, lang_lit.mpr rfl, h⟩

/-- No result without a text of the language in front. -/
theorem first_eq_none {re : Re} {before text : List Char} {g : Groups} (h : ¬ re.At text) :
    re.first ⟨before, text, g⟩ = none := by
  rw [Re.first, List.head?_eq_none_iff, List.eq_nil_iff_forall_not_mem]
  intro t ht
  obtain ⟨w, hw, hafter, _⟩ := mem_run_lang ht
  exact h ⟨w, hw, t.after, hafter.symm⟩

/-- Without anchors that is the only way to have none. -/
theorem Re.Plain.first_eq_none_iff {re : Re} (hre : re.Plain) {before text : List Char}
    {g : Groups} : re.first ⟨before, text, g⟩ = none ↔ ¬ re.At text := by
  constructor
  · rintro h ⟨w, hw, rest, rfl⟩
    obtain ⟨t, ht, _⟩ := hre.exists_run hw before rest g
    rw [Re.first, List.head?_eq_none_iff] at h
    rw [h] at ht
    cases ht
  · exact first_eq_none

/-! ## The first match -/

/-- A class reads no further than this text. -/
def Stops (p : Char → Bool) (text : List Char) : Prop := ∀ c ∈ text.head?, p c = false

section Reads

variable {p : Char → Bool} {a b : Re} {u v w rest : List Char} {f f' : Groups → Groups}

/-- At the end of the text nothing goes on. -/
@[simp] theorem stops_nil : Stops p [] := by simp [Stops]

/-- Otherwise the next character decides. -/
@[simp] theorem stops_cons {c : Char} : Stops p (c :: rest) ↔ p c = false := by simp [Stops]

/-- Before `rest`, the first match is `w`, and it changes the captures by `f`. -/
def Reads (re : Re) (w rest : List Char) (f : Groups → Groups) : Prop :=
  ∀ before g, re.first ⟨before, w ++ rest, g⟩ = some ⟨w.reverse ++ before, rest, f g⟩

/-- The first result of a sequence, when the first results of its parts fit. -/
theorem first_seq {s t r : State} (ha : a.first s = some t) (hb : b.first t = some r) :
    (a ++ b).first s = some r := by
  obtain ⟨more, hmore⟩ := List.head?_eq_some_iff.mp ha
  change ((a.run s).flatMap b.run).head? = some r
  rw [hmore, List.flatMap_cons, List.head?_append, show (b.run t).head? = some r from hb]
  rfl

/-- Parts read one after the other. -/
theorem Reads.append (ha : Reads a u (v ++ rest) f) (hb : Reads b v rest f') :
    Reads (a ++ b) (u ++ v) rest (f' ∘ f) := by
  intro before g
  have hstart := ha before g
  have hend := hb (u.reverse ++ before) (f g)
  rw [← List.append_assoc] at hstart
  rw [← List.append_assoc, ← List.reverse_append] at hend
  exact first_seq hstart hend

/-- The empty pattern reads nothing. -/
theorem reads_empty : Reads .empty [] rest id := fun _ _ => rfl

/-- A class reads a character of it. -/
theorem reads_one {c : Char} (hc : p c = true) : Reads (.one p) [c] rest id := by
  intro before g
  simp [Re.first, Re.run, hc]

/-- A literal reads itself. -/
theorem reads_lit (w rest : List Char) : Reads (Re.lit w) w rest id := by
  induction w with
  | nil => exact reads_empty
  | cons c w ih => exact (reads_one (beq_self_eq_true c)).append ih

/-- A class repeated so many times reads as many characters. -/
theorem reads_times {n : Nat} (hn : w.length = n) (hw : ∀ c ∈ w, p c = true) :
    Reads (Re.times n (.one p)) w rest id := by
  induction n generalizing w with
  | zero =>
      obtain rfl := List.length_eq_zero_iff.mp hn
      exact reads_empty
  | succ n ih =>
      obtain ⟨c, w, rfl⟩ := List.exists_cons_of_length_eq_add_one hn
      have hrest : Reads (Re.times n (.one p)) w rest id :=
        ih (by simpa using hn) (fun d hd => hw d (List.mem_cons_of_mem c hd))
      exact (reads_one (hw c (by simp))).append hrest

/-- A repetition reads up to the first character which is not of its class. -/
theorem reads_star (hw : ∀ c ∈ w, p c = true) (hrest : Stops p rest) :
    Reads (.star p) w rest id := by
  intro before g
  change (starFrom p g before (w ++ rest)).head? = some ⟨w.reverse ++ before, rest, g⟩
  induction w generalizing before with
  | nil =>
      cases rest with
      | nil => rfl
      | cons c rest =>
          have hc : p c = false := by simpa using hrest
          simp [starFrom, hc]
  | cons c w ih =>
      have hc : p c = true := hw c (by simp)
      have htail := ih (fun d hd => hw d (List.mem_cons_of_mem c hd)) (c :: before)
      rw [List.cons_append, starFrom, if_pos hc, List.head?_append, htail]
      simp

/-- So does one that needs a character. -/
theorem reads_plus (hne : w ≠ []) (hw : ∀ c ∈ w, p c = true) (hrest : Stops p rest) :
    Reads (Re.plus p) w rest id := by
  obtain ⟨c, w, rfl⟩ := List.exists_cons_of_ne_nil hne
  have htail : Reads (.star p) w rest id :=
    reads_star (fun d hd => hw d (List.mem_cons_of_mem c hd)) hrest
  exact (reads_one (hw c (by simp))).append htail

/-- A group keeps what it has read. -/
theorem Reads.group (n : Nat) (ha : Reads a w rest f) :
    Reads (.group n a) w rest (fun g => Function.update (f g) n (some w)) := by
  intro before g
  obtain ⟨more, hmore⟩ := List.head?_eq_some_iff.mp (ha before g)
  have hlen : (w ++ rest).length - rest.length = w.length := by
    rw [List.length_append]
    omega
  change ((a.run _).map _).head? = _
  rw [hmore, List.map_cons, List.head?_cons]
  simp only [State.capture, hlen, List.take_left']

/-- What may be there is read when it is. -/
theorem Reads.opt (ha : Reads a w rest f) : Reads (.opt a) w rest f := by
  intro before g
  change (a.run _ ++ _).head? = _
  rw [List.head?_append, show (a.run _).head? = _ from ha before g]
  rfl

/-- A word ends here. -/
theorem Reads.wordEnd {isWord : Char → Bool} {c : Char} (ha : Reads a (w ++ [c]) rest f)
    (hc : isWord c = true) (hrest : Stops isWord rest) :
    Reads (a ++ .boundary isWord) (w ++ [c]) rest f := by
  intro before g
  have hword : State.atBoundary isWord ⟨(w ++ [c]).reverse ++ before, rest, f g⟩ = true := by
    have hnext : rest.head?.any isWord = false := by
      cases rest with
      | nil => rfl
      | cons d rest => simpa using hrest
    simp [State.atBoundary, hc, hnext]
  apply first_seq (ha before g)
  change (if _ then _ else _ : List State).head? = _
  rw [if_pos hword, List.head?_cons]

/-- What is read is the match. -/
theorem Reads.matchFrom (ha : Reads a w rest f) (before : List Char) :
    a.matchFrom before (w ++ rest) = some ⟨before.reverse, rest, f (fun _ => none)⟩ := by
  rw [Re.matchFrom, ha]
  rfl

end Reads

/-! ## Searching -/

section Search

variable {re : Re} {text after before skipped : List Char} {m : Match}

/-- A text of the language begins somewhere in the text. -/
def Re.Occurs (re : Re) (text : List Char) : Prop := ∃ u v, text = u ++ v ∧ re.At v

/-- What stands at the start stands somewhere. -/
theorem Re.At.occurs (h : re.At text) : re.Occurs text := ⟨[], text, rfl, h⟩

/-- More text in front takes no match away. -/
theorem Re.Occurs.append_left (h : re.Occurs text) (before : List Char) :
    re.Occurs (before ++ text) := by
  obtain ⟨u, v, rfl, hv⟩ := h
  exact ⟨before ++ u, v, (List.append_assoc before u v).symm, hv⟩

/-- Nor does more text behind. -/
theorem Re.Occurs.append_right (h : re.Occurs text) (rest : List Char) :
    re.Occurs (text ++ rest) := by
  obtain ⟨u, v, rfl, hv⟩ := h
  exact ⟨u, v ++ rest, List.append_assoc u v rest, hv.append rest⟩

/-- A match stands at the first character or behind it. -/
theorem occurs_cons {c : Char} : re.Occurs (c :: text) ↔ re.At (c :: text) ∨ re.Occurs text := by
  constructor
  · rintro ⟨u, v, h, hv⟩
    cases u with
    | nil => exact Or.inl (h ▸ hv)
    | cons d u =>
        obtain ⟨rfl, rfl⟩ := List.cons.inj h
        exact Or.inr ⟨u, v, rfl, hv⟩
  · rintro (h | h)
    · exact h.occurs
    · exact h.append_left [c]

/-- Where nothing of the language stands there is no match. -/
theorem matchFrom_eq_none (h : ¬ re.At after) : re.matchFrom before after = none := by
  rw [Re.matchFrom, first_eq_none h]
  rfl

/-- Without anchors a match is missing only there. -/
theorem Re.Plain.matchFrom_eq_none_iff (hre : re.Plain) :
    re.matchFrom before after = none ↔ ¬ re.At after := by
  rw [Re.matchFrom, Option.map_eq_none_iff, hre.first_eq_none_iff]

/-- A match at the start is the one which the search finds. -/
theorem searchFrom_of_matchFrom (h : re.matchFrom before after = some m) :
    re.searchFrom before after = some m := by
  cases after with
  | nil => exact h
  | cons c rest => rw [Re.searchFrom, h]

/-- Positions at which the pattern cannot match are passed over. -/
theorem searchFrom_skip (h : ∀ u v, skipped = u ++ v → v ≠ [] → ¬ re.At (v ++ after)) :
    re.searchFrom before (skipped ++ after) = re.searchFrom (skipped.reverse ++ before) after := by
  induction skipped generalizing before with
  | nil => rfl
  | cons c skipped ih =>
      have hhere : re.matchFrom before (c :: (skipped ++ after)) = none :=
        matchFrom_eq_none (h [] (c :: skipped) rfl (by simp))
      have hlater : re.searchFrom (c :: before) (skipped ++ after) =
          re.searchFrom (skipped.reverse ++ c :: before) after := by
        apply ih
        intro u v hsplit hv
        exact h (c :: u) v (by rw [hsplit, List.cons_append]) hv
      rw [List.cons_append, Re.searchFrom, hhere, hlater]
      simp

/-- Nothing is found where nothing of the language stands. -/
theorem searchFrom_eq_none (h : ¬ re.Occurs after) : re.searchFrom before after = none := by
  induction after generalizing before with
  | nil => exact matchFrom_eq_none (fun hat => h hat.occurs)
  | cons c rest ih =>
      rw [occurs_cons] at h
      have hhere : re.matchFrom before (c :: rest) = none :=
        matchFrom_eq_none (fun hat => h (Or.inl hat))
      rw [Re.searchFrom, hhere, ih (fun hlater => h (Or.inr hlater))]

/-- Without anchors nothing is missed from here on. -/
theorem Re.Plain.searchFrom_eq_none_iff (hre : re.Plain) :
    re.searchFrom before after = none ↔ ¬ re.Occurs after := by
  constructor
  · intro h hocc
    induction after generalizing before with
    | nil =>
        obtain ⟨u, v, hsplit, hv⟩ := hocc
        obtain ⟨rfl, rfl⟩ := List.append_eq_nil_iff.mp hsplit.symm
        exact hre.matchFrom_eq_none_iff.mp h hv
    | cons c rest ih =>
        rw [Re.searchFrom] at h
        split at h
        · cases h
        · rename_i hhere
          rcases occurs_cons.mp hocc with hat | hlater
          · exact hre.matchFrom_eq_none_iff.mp hhere hat
          · exact ih h hlater
  · exact searchFrom_eq_none

/-- Without anchors the search fails only where nothing stands. -/
theorem Re.Plain.search_eq_none_iff (hre : re.Plain) :
    re.search text = none ↔ ¬ re.Occurs text := hre.searchFrom_eq_none_iff

/-- Without anchors the search finds something wherever it stands. -/
theorem Re.Plain.search_isSome_iff (hre : re.Plain) :
    (re.search text).isSome ↔ re.Occurs text := by
  rw [Option.isSome_iff_ne_none, ne_eq, hre.search_eq_none_iff, not_not]

/-- What a search finds is a match, and no position before it has one. -/
theorem searchFrom_eq_some (h : re.searchFrom before after = some m) :
    ∃ skipped rest, after = skipped ++ rest ∧
      re.matchFrom (skipped.reverse ++ before) rest = some m ∧
      ∀ u v, skipped = u ++ v → v ≠ [] →
        re.matchFrom (u.reverse ++ before) (v ++ rest) = none := by
  induction after generalizing before with
  | nil =>
      refine ⟨[], [], rfl, h, ?_⟩
      intro u v hsplit hv
      exact absurd (List.append_eq_nil_iff.mp hsplit.symm).2 hv
  | cons c after ih =>
      rw [Re.searchFrom] at h
      split at h
      · rename_i n hhere
        refine ⟨[], c :: after, rfl, hhere.trans h, ?_⟩
        intro u v hsplit hv
        exact absurd (List.append_eq_nil_iff.mp hsplit.symm).2 hv
      · rename_i hhere
        obtain ⟨skipped, rest, rfl, hmatch, hnone⟩ := ih h
        refine ⟨c :: skipped, rest, rfl, by simpa using hmatch, ?_⟩
        intro u v hsplit hv
        cases u with
        | nil =>
            obtain rfl := hsplit
            exact hhere
        | cons d u =>
            obtain ⟨rfl, rfl⟩ := List.cons.inj hsplit
            simpa using hnone u v rfl hv

/-- What a match has in front of it is what was read before. -/
theorem matchFrom_pre (h : re.matchFrom before after = some m) : m.pre = before.reverse := by
  obtain ⟨t, _, rfl⟩ := Option.map_eq_some_iff.mp h
  rfl

/-- A match is a text of the language. -/
theorem at_of_matchFrom (h : re.matchFrom before after = some m) : re.At after := by
  by_contra hno
  rw [matchFrom_eq_none hno] at h
  cases h

/-- What a search finds, and that no text of the language begins before it. -/
theorem Re.Plain.search_eq_some (hre : re.Plain) (h : re.search text = some m) :
    ∃ rest, text = m.pre ++ rest ∧ re.matchFrom m.pre.reverse rest = some m ∧
      ∀ u v, m.pre = u ++ v → v ≠ [] → ¬ re.At (v ++ rest) := by
  obtain ⟨skipped, rest, rfl, hmatch, hnone⟩ := searchFrom_eq_some h
  have hpre : m.pre = skipped := by simpa using matchFrom_pre hmatch
  subst hpre
  refine ⟨rest, rfl, by simpa using hmatch, ?_⟩
  intro u v hsplit hv
  exact hre.matchFrom_eq_none_iff.mp (hnone u v hsplit hv)

/-- The leftmost text of the language is found. -/
theorem Reads.search {w rest : List Char} {f : Groups → Groups} (hw : Reads re w rest f)
    (h : ∀ u v, skipped = u ++ v → v ≠ [] → ¬ re.At (v ++ (w ++ rest))) :
    re.search (skipped ++ (w ++ rest)) = some ⟨skipped, rest, f (fun _ => none)⟩ := by
  rw [Re.search, searchFrom_skip h, searchFrom_of_matchFrom (hw.matchFrom _)]
  simp

/-- Behind a match is an end of the text. -/
theorem post_suffix_of_matchFrom (h : re.matchFrom before after = some m) : m.post <:+ after := by
  obtain ⟨t, ht, rfl⟩ := Option.map_eq_some_iff.mp h
  obtain ⟨w, _, hafter, _⟩ := mem_run_lang (List.mem_of_mem_head? ht)
  exact ⟨w, hafter.symm⟩

/-- What is behind the match is an end of the text. -/
theorem post_suffix_of_search (h : re.search text = some m) : m.post <:+ text := by
  obtain ⟨skipped, rest, rfl, hmatch, _⟩ := searchFrom_eq_some h
  exact (post_suffix_of_matchFrom hmatch).trans (List.suffix_append skipped rest)

/-- Removing text at the start leaves an end of the text. -/
theorem removeStart_suffix (re : Re) (text : List Char) : re.removeStart text <:+ text := by
  unfold Re.removeStart
  split
  · rename_i m hm
    exact post_suffix_of_matchFrom hm
  · exact List.suffix_refl text

/-- At the start of the text the anchor asks for nothing. -/
@[simp] theorem matchStart_atStart (re : Re) (text : List Char) :
    Re.matchStart (.atStart ++ re) text = re.matchStart text := by
  have hrun : (Re.atStart ++ re).run ⟨[], text, fun _ => none⟩ =
      re.run ⟨[], text, fun _ => none⟩ := by
    change (if _ then _ else _ : List State).flatMap re.run = _
    rw [if_pos rfl, List.flatMap_singleton]
  rw [Re.matchStart, Re.matchFrom, Re.first, hrun]
  rfl

/-- What is read at the start is the match of the anchored pattern. -/
theorem Reads.matchStart {w rest : List Char} {f : Groups → Groups} (h : Reads re w rest f) :
    Re.matchStart (.atStart ++ re) (w ++ rest) = some ⟨[], rest, f (fun _ => none)⟩ := by
  rw [matchStart_atStart, Re.matchStart, h.matchFrom]
  rfl

/-- The anchored pattern looks at the start only. -/
theorem matchStart_eq_none (h : ¬ re.At text) : Re.matchStart (.atStart ++ re) text = none := by
  rw [matchStart_atStart, Re.matchStart, matchFrom_eq_none h]

/-- What is read at the start is taken off. -/
theorem Reads.removeStart {w rest : List Char} {f : Groups → Groups} (h : Reads re w rest f) :
    Re.removeStart (.atStart ++ re) (w ++ rest) = rest := by
  rw [Re.removeStart, h.matchStart]

/-- Where nothing of the language begins the text stays. -/
theorem removeStart_eq_self (h : ¬ re.At text) : Re.removeStart (.atStart ++ re) text = text := by
  rw [Re.removeStart, matchStart_eq_none h]

end Search

/-! ## Captures -/

/-- The texts a pattern can match, anchors aside, with the change of the captures. -/
def Re.Captures : Re → List Char → (Groups → Groups) → Prop
  | .empty, w, f => w = [] ∧ f = id
  | .one p, w, f => (∃ c, p c = true ∧ w = [c]) ∧ f = id
  | .star p, w, f => (∀ c ∈ w, p c = true) ∧ f = id
  | .seq a b, w, f => ∃ u v fa fb, a.Captures u fa ∧ b.Captures v fb ∧ w = u ++ v ∧ f = fb ∘ fa
  | .alt a b, w, f => a.Captures w f ∨ b.Captures w f
  | .opt a, w, f => a.Captures w f ∨ w = [] ∧ f = id
  | .group n a, w, f => ∃ fa, a.Captures w fa ∧ f = fun g => Function.update (fa g) n (some w)
  | .atStart, w, f => w = [] ∧ f = id
  | .boundary _, w, f => w = [] ∧ f = id

/-- The match of the whole text, as `^…$` has it. -/
def Re.fullMatch (re : Re) (text : List Char) : Option Match :=
  ((re.run ⟨[], text, fun _ => none⟩).find? fun t => t.after.isEmpty).map
    fun t => ⟨[], [], t.groups⟩

section Captures

variable {re a b : Re} {p : Char → Bool} {w : List Char} {f : Groups → Groups}

/-- A sequence captures what its parts capture, the second on top of the first. -/
@[simp] theorem captures_append : (a ++ b).Captures w f ↔
    ∃ u v fa fb, a.Captures u fa ∧ b.Captures v fb ∧ w = u ++ v ∧ f = fb ∘ fa := Iff.rfl

/-- A group captures its own text on top of what is in it. -/
@[simp] theorem captures_group {n : Nat} : (Re.group n a).Captures w f ↔
    ∃ fa, a.Captures w fa ∧ f = fun g => Function.update (fa g) n (some w) := Iff.rfl

/-- A literal captures nothing. -/
@[simp] theorem captures_lit {u : List Char} : (Re.lit u).Captures w f ↔ w = u ∧ f = id := by
  induction u generalizing w f with
  | nil => exact Iff.rfl
  | cons c u ih =>
      rw [Re.lit, captures_append]
      constructor
      · rintro ⟨_, v, _, _, ⟨⟨d, hd, rfl⟩, rfl⟩, hv, rfl, rfl⟩
        obtain ⟨rfl, rfl⟩ := ih.mp hv
        rw [beq_iff_eq.mp hd]
        exact ⟨rfl, rfl⟩
      · rintro ⟨rfl, rfl⟩
        exact ⟨[c], u, id, id, ⟨⟨c, by simp, rfl⟩, rfl⟩, ih.mpr ⟨rfl, rfl⟩, rfl, rfl⟩

/-- A repetition captures nothing. -/
@[simp] theorem captures_plus :
    (Re.plus p).Captures w f ↔ w ≠ [] ∧ (∀ c ∈ w, p c = true) ∧ f = id := by
  constructor
  · rintro ⟨_, v, _, _, ⟨⟨c, hc, rfl⟩, rfl⟩, ⟨hv, rfl⟩, rfl, rfl⟩
    refine ⟨by simp, ?_, rfl⟩
    intro d hd
    rcases List.mem_cons.mp hd with rfl | hd
    · exact hc
    · exact hv d hd
  · rintro ⟨hne, hall, rfl⟩
    obtain ⟨c, v, rfl⟩ := List.exists_cons_of_ne_nil hne
    exact ⟨[c], v, id, id, ⟨⟨c, hall c (by simp), rfl⟩, rfl⟩,
      ⟨fun d hd => hall d (List.mem_cons_of_mem c hd), rfl⟩, rfl, rfl⟩

/-- Whatever a pattern matches, it captures of the text which it has read. -/
theorem mem_run_captures {s t : State} (h : t ∈ re.run s) :
    ∃ w f, re.Captures w f ∧ s.after = w ++ t.after ∧ t.groups = f s.groups := by
  induction re generalizing s t with
  | empty =>
      obtain rfl := List.mem_singleton.mp h
      exact ⟨[], id, ⟨rfl, rfl⟩, rfl, rfl⟩
  | one p =>
      rw [Re.run] at h
      split at h
      · cases h
      · rename_i c rest hafter
        split at h
        · rename_i hc
          obtain rfl := List.mem_singleton.mp h
          exact ⟨[c], id, ⟨⟨c, hc, rfl⟩, rfl⟩, hafter, rfl⟩
        · cases h
  | star p =>
      obtain ⟨u, hu, hafter, _, hg⟩ := mem_starFrom.mp h
      exact ⟨u, id, ⟨hu, rfl⟩, hafter, hg⟩
  | seq a b iha ihb =>
      obtain ⟨m, hm, ht⟩ := List.mem_flatMap.mp h
      obtain ⟨u, fa, hu, hu1, hu2⟩ := iha hm
      obtain ⟨v, fb, hv, hv1, hv2⟩ := ihb ht
      refine ⟨u ++ v, fb ∘ fa, ⟨u, v, fa, fb, hu, hv, rfl, rfl⟩, ?_, ?_⟩
      · rw [hu1, hv1, List.append_assoc]
      · rw [hv2, hu2, Function.comp_apply]
  | alt a b iha ihb =>
      rcases List.mem_append.mp h with h | h
      · obtain ⟨w, f, hw, h1, h2⟩ := iha h
        exact ⟨w, f, Or.inl hw, h1, h2⟩
      · obtain ⟨w, f, hw, h1, h2⟩ := ihb h
        exact ⟨w, f, Or.inr hw, h1, h2⟩
  | opt a ih =>
      rcases List.mem_append.mp h with h | h
      · obtain ⟨w, f, hw, h1, h2⟩ := ih h
        exact ⟨w, f, Or.inl hw, h1, h2⟩
      · obtain rfl := List.mem_singleton.mp h
        exact ⟨[], id, Or.inr ⟨rfl, rfl⟩, rfl, rfl⟩
  | group n a ih =>
      obtain ⟨m, hm, rfl⟩ := List.mem_map.mp h
      obtain ⟨w, f, hw, h1, h2⟩ := ih hm
      refine ⟨w, _, ⟨f, hw, rfl⟩, h1, ?_⟩
      have hlen : (w ++ m.after).length - m.after.length = w.length := by
        rw [List.length_append]
        omega
      simp only [State.capture, h1, h2, hlen, List.take_left']
  | atStart =>
      rw [Re.run] at h
      split at h
      · obtain rfl := List.mem_singleton.mp h
        exact ⟨[], id, ⟨rfl, rfl⟩, rfl, rfl⟩
      · cases h
  | boundary isWord =>
      rw [Re.run] at h
      split at h
      · obtain rfl := List.mem_singleton.mp h
        exact ⟨[], id, ⟨rfl, rfl⟩, rfl, rfl⟩
      · cases h

/-- A match of the whole text has the groups of one way to read it. -/
theorem fullMatch_captures {text : List Char} {m : Match} (h : re.fullMatch text = some m) :
    ∃ f, re.Captures text f ∧ m.groups = f (fun _ => none) := by
  obtain ⟨t, ht, rfl⟩ := Option.map_eq_some_iff.mp h
  obtain ⟨w, f, hw, hafter, hg⟩ := mem_run_captures (List.mem_of_find?_eq_some ht)
  have hend : t.after = [] := by simpa using List.find?_some ht
  rw [hend, List.append_nil] at hafter
  change text = w at hafter
  exact ⟨f, hafter ▸ hw, hg⟩

/-- A text of the language is matched as a whole. -/
theorem exists_fullMatch {text : List Char} (hre : re.Plain) (h : re.Lang text) :
    ∃ m, re.fullMatch text = some m := by
  obtain ⟨t, ht, _, hafter⟩ := hre.exists_run h [] [] fun _ => none
  rw [List.append_nil] at ht
  have hempty : t.after.isEmpty = true := List.isEmpty_iff.mpr hafter
  have hfound : ((re.run ⟨[], text, fun _ => none⟩).find? fun t => t.after.isEmpty).isSome :=
    List.find?_isSome.mpr ⟨t, ht, hempty⟩
  obtain ⟨t', ht'⟩ := Option.isSome_iff_exists.mp hfound
  exact ⟨⟨[], [], t'.groups⟩, by rw [Re.fullMatch, ht']; rfl⟩

end Captures

end BacktrackingRegex
