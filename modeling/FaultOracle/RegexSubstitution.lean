import Mathlib.Data.List.Forall2
import Mathlib.Data.List.TakeWhile
import FaultOracle.BacktrackingRegex

/-!
# Replacing the matches of a pattern

`re.sub` reads a text from its start: where the pattern matches, the match is replaced and
reading goes on behind it, elsewhere one character is copied.  `Re.pieces` cuts a text into
these matches and characters, and `substitute` puts a text together from them.

A pattern whose classes leave a character out, and for whose boundaries it is no part of a
word, cannot see past it.  Substitution is then done run by run between such characters
(`sub_splitOnP`).  The patterns here do not match the empty text.
-/

namespace BacktrackingRegex

namespace Re

/-- `{0,n}`. -/
def upTo : Nat → Re → Re
  | 0, _ => empty
  | n + 1, a => opt (a ++ upTo n a)

/-- `{m,n}`. -/
def between (m n : Nat) (a : Re) : Re := times m a ++ upTo (n - m) a

end Re

/-- A match, or a character outside of the matches. -/
inductive Piece
  | copied (c : Char)
  | matched (w : List Char) (groups : Groups)

/-- The pieces from a position on, when a match still covers `n` characters. -/
def Re.scan (re : Re) : Nat → List Char → List Char → List Piece
  | _, _, [] => []
  | n + 1, before, c :: rest => re.scan n (c :: before) rest
  | 0, before, c :: rest =>
      match re.matchFrom before (c :: rest) with
      | none => .copied c :: re.scan 0 (c :: before) rest
      | some m =>
          .matched ((c :: rest).take ((c :: rest).length - m.post.length)) m.groups ::
            re.scan (rest.length - m.post.length) (c :: before) rest

/-- The pieces of a text. -/
def Re.pieces (re : Re) (text : List Char) : List Piece := re.scan 0 [] text

section Substitute

variable {σ : Type*}

/-- The text which the pieces become when every match is replaced; replacing has a state. -/
def substitute (replace : σ → List Char → Groups → σ × List Char) :
    σ → List Piece → σ × List Char
  | s, [] => (s, [])
  | s, .copied c :: rest =>
      let after := substitute replace s rest
      (after.1, c :: after.2)
  | s, .matched w groups :: rest =>
      let here := replace s w groups
      let after := substitute replace here.1 rest
      (after.1, here.2 ++ after.2)

/-- `re.sub`. -/
def Re.sub (re : Re) (replace : σ → List Char → Groups → σ × List Char) (s : σ)
    (text : List Char) : σ × List Char :=
  substitute replace s (re.pieces text)

end Substitute

/-! ## Bounded repetition -/

/-- A sequence matches the empty text when both parts do. -/
@[simp] theorem lang_append_nil {a b : Re} :
    (a ++ b).Lang [] ↔ a.Lang [] ∧ b.Lang [] := by
  rw [lang_append]
  constructor
  · rintro ⟨u, v, hu, hv, h⟩
    obtain ⟨rfl, rfl⟩ := List.append_eq_nil_iff.mp h.symm
    exact ⟨hu, hv⟩
  · rintro ⟨ha, hb⟩
    exact ⟨[], [], ha, hb, rfl⟩

/-- A class matches one character. -/
@[simp] theorem lang_one {p : Char → Bool} {w : List Char} :
    (Re.one p).Lang w ↔ ∃ c, p c = true ∧ w = [c] := Iff.rfl

/-- An alternative matches what one of its patterns matches. -/
@[simp] theorem lang_alt {a b : Re} {w : List Char} :
    (Re.alt a b).Lang w ↔ a.Lang w ∨ b.Lang w := Iff.rfl

/-- An option matches what its pattern matches, or nothing. -/
@[simp] theorem lang_opt {a : Re} {w : List Char} :
    (Re.opt a).Lang w ↔ a.Lang w ∨ w = [] := Iff.rfl

section Bounded

variable {a : Re} {w : List Char} {n : Nat}

/-- So many texts of the language in a row. -/
theorem lang_times_flatten :
    (Re.times n a).Lang w ↔ ∃ ws : List (List Char), ws.length = n ∧ (∀ u ∈ ws, a.Lang u) ∧
      w = ws.flatten := by
  induction n generalizing w with
  | zero =>
      constructor
      · intro h
        exact ⟨[], rfl, by simp, h⟩
      · rintro ⟨ws, hlen, _, rfl⟩
        rw [List.length_eq_zero_iff.mp hlen]
        rfl
  | succ n ih =>
      rw [Re.times, lang_append]
      constructor
      · rintro ⟨u, v, hu, hv, rfl⟩
        obtain ⟨ws, hlen, hall, rfl⟩ := ih.mp hv
        exact ⟨u :: ws, by simp [hlen], by simpa using ⟨hu, hall⟩, by simp⟩
      · rintro ⟨ws, hlen, hall, rfl⟩
        obtain ⟨u, ws, rfl⟩ := List.exists_cons_of_length_eq_add_one hlen
        rw [List.forall_mem_cons] at hall
        exact ⟨u, ws.flatten, hall.1, ih.mpr ⟨ws, by simpa using hlen, hall.2, rfl⟩, by simp⟩

/-- At most so many texts of the language in a row. -/
@[simp] theorem lang_upTo :
    (Re.upTo n a).Lang w ↔ ∃ ws : List (List Char), ws.length ≤ n ∧ (∀ u ∈ ws, a.Lang u) ∧
      w = ws.flatten := by
  induction n generalizing w with
  | zero =>
      constructor
      · intro h
        exact ⟨[], le_rfl, by simp, h⟩
      · rintro ⟨ws, hlen, _, rfl⟩
        rw [List.length_eq_zero_iff.mp (Nat.le_zero.mp hlen)]
        rfl
  | succ n ih =>
      change ((a ++ Re.upTo n a).Lang w ∨ w = []) ↔ _
      rw [lang_append]
      constructor
      · rintro (⟨u, v, hu, hv, rfl⟩ | rfl)
        · obtain ⟨ws, hlen, hall, rfl⟩ := ih.mp hv
          exact ⟨u :: ws, by simpa using hlen, by simpa using ⟨hu, hall⟩, by simp⟩
        · exact ⟨[], Nat.zero_le _, by simp, rfl⟩
      · rintro ⟨ws, hlen, hall, rfl⟩
        cases ws with
        | nil => exact Or.inr rfl
        | cons u ws =>
            rw [List.forall_mem_cons] at hall
            exact Or.inl ⟨u, ws.flatten, hall.1,
              ih.mpr ⟨ws, by simpa using hlen, hall.2, rfl⟩, by simp⟩

/-- A number of texts of the language in a row, within the bounds. -/
theorem lang_between {m : Nat} (hmn : m ≤ n) :
    (Re.between m n a).Lang w ↔ ∃ ws : List (List Char), m ≤ ws.length ∧ ws.length ≤ n ∧
      (∀ u ∈ ws, a.Lang u) ∧ w = ws.flatten := by
  rw [Re.between, lang_append]
  constructor
  · rintro ⟨u, v, hu, hv, rfl⟩
    obtain ⟨us, hlen, hus, rfl⟩ := lang_times_flatten.mp hu
    obtain ⟨vs, hle, hvs, rfl⟩ := lang_upTo.mp hv
    refine ⟨us ++ vs, by simp; omega, by simp; omega, ?_, by simp⟩
    intro x hx
    exact (List.mem_append.mp hx).elim (hus x) (hvs x)
  · rintro ⟨ws, hm, hn, hall, rfl⟩
    refine ⟨(ws.take m).flatten, (ws.drop m).flatten,
      lang_times_flatten.mpr ⟨ws.take m, ?_, ?_, rfl⟩, lang_upTo.mpr ⟨ws.drop m, ?_, ?_, rfl⟩, ?_⟩
    · simp; omega
    · intro x hx
      exact hall x (List.mem_of_mem_take hx)
    · simp; omega
    · intro x hx
      exact hall x (List.mem_of_mem_drop hx)
    · rw [← List.flatten_append, List.take_append_drop]

/-- A number of characters of the class, within the bounds. -/
theorem lang_between_one {m : Nat} {p : Char → Bool} (hmn : m ≤ n) :
    (Re.between m n (.one p)).Lang w ↔
      (m ≤ w.length ∧ w.length ≤ n) ∧ ∀ c ∈ w, p c = true := by
  rw [Re.between, lang_append]
  constructor
  · rintro ⟨u, v, hu, hv, rfl⟩
    obtain ⟨hlen, hall⟩ := lang_times.mp hu
    obtain ⟨ws, hle, hws, rfl⟩ := lang_upTo.mp hv
    have hflat : ws.flatten.length = ws.length ∧ ∀ c ∈ ws.flatten, p c = true := by
      clear hle hv
      induction ws with
      | nil => simp
      | cons x ws ih =>
          rw [List.forall_mem_cons] at hws
          obtain ⟨⟨c, hc, rfl⟩, hrest⟩ := hws
          obtain ⟨hlen, hall⟩ := ih hrest
          refine ⟨by simp [hlen], ?_⟩
          intro d hd
          rcases List.mem_cons.mp hd with rfl | hd
          · exact hc
          · exact hall d hd
    refine ⟨by rw [List.length_append]; omega, ?_⟩
    intro c hc
    exact (List.mem_append.mp hc).elim (hall c) (hflat.2 c)
  · rintro ⟨⟨hm, hn⟩, hall⟩
    refine ⟨w.take m, w.drop m, lang_times.mpr ⟨by simp [hm], ?_⟩,
      lang_upTo.mpr ⟨(w.drop m).map fun c => [c], by simp; omega, ?_, ?_⟩, by simp⟩
    · intro c hc
      exact hall c (List.mem_of_mem_take hc)
    · intro u hu
      obtain ⟨c, hc, rfl⟩ := List.mem_map.mp hu
      exact ⟨c, hall c (List.mem_of_mem_drop hc), rfl⟩
    · rw [← List.flatMap_def, List.flatMap_singleton']

/-- A class is no anchor. -/
@[simp] theorem plain_one {p : Char → Bool} : (Re.one p).Plain := trivial

/-- Repeating a pattern puts no anchor in. -/
@[simp] theorem plain_times (ha : a.Plain) : (Re.times n a).Plain := by
  induction n with
  | zero => exact trivial
  | succ n ih => exact ⟨ha, ih⟩

/-- Nor does repeating it at most so many times. -/
@[simp] theorem plain_upTo (ha : a.Plain) : (Re.upTo n a).Plain := by
  induction n with
  | zero => exact trivial
  | succ n ih => exact ⟨ha, ih⟩

/-- Nor does a bounded repetition. -/
@[simp] theorem plain_between {m : Nat} (ha : a.Plain) : (Re.between m n a).Plain :=
  ⟨plain_times ha, plain_upTo ha⟩

end Bounded

/-! ## Cutting a text -/

section Scan

variable {re : Re} {before after w rest : List Char} {m : Match}

/-- A match takes a text of the language. -/
theorem matchFrom_eq_some (h : re.matchFrom before after = some m) :
    ∃ w, re.Lang w ∧ after = w ++ m.post := by
  obtain ⟨t, ht, rfl⟩ := Option.map_eq_some_iff.mp h
  obtain ⟨w, hw, hafter, _⟩ := mem_run_lang (List.mem_of_mem_head? ht)
  exact ⟨w, hw, hafter⟩

/-- The scan of nothing has no pieces. -/
@[simp] theorem scan_nil (n : Nat) : re.scan n before [] = [] := by
  cases n <;> rfl

/-- A character at which no match begins is copied. -/
theorem scan_copied {c : Char} (h : re.matchFrom before (c :: rest) = none) :
    re.scan 0 before (c :: rest) = .copied c :: re.scan 0 (c :: before) rest := by
  rw [Re.scan, h]

/-- Behind a match reading goes on. -/
theorem scan_behind :
    re.scan w.length before (w ++ rest) = re.scan 0 (w.reverse ++ before) rest := by
  induction w generalizing before with
  | nil => rfl
  | cons c w ih =>
      rw [List.length_cons, List.cons_append, Re.scan, ih, List.reverse_cons, List.append_assoc,
        List.singleton_append]

/-- A match is a piece, and the scan goes on behind it. -/
theorem scan_matched (hw : w ≠ []) (h : re.matchFrom before (w ++ rest) = some m)
    (hpost : m.post = rest) :
    re.scan 0 before (w ++ rest) =
      .matched w m.groups :: re.scan 0 (w.reverse ++ before) rest := by
  obtain ⟨c, w, rfl⟩ := List.exists_cons_of_ne_nil hw
  rw [List.cons_append] at h ⊢
  have hlen : (c :: (w ++ rest)).length - rest.length = (c :: w).length := by
    simp only [List.length_cons, List.length_append]
    omega
  have hskip : (w ++ rest).length - rest.length = w.length := by
    rw [List.length_append]
    omega
  rw [Re.scan, h]
  simp only [hpost, hlen, hskip]
  rw [← List.cons_append, List.take_left', scan_behind]
  · simp
  · rfl

/-- What holds of the empty text, and passes over a character which is copied and over a match,
holds of every text. -/
theorem scan_rec (hne : ¬ re.Lang []) {motive : List Char → List Char → List Piece → Prop}
    (nil : ∀ before, motive before [] [])
    (copied : ∀ before c rest, re.matchFrom before (c :: rest) = none →
      motive (c :: before) rest (re.scan 0 (c :: before) rest) →
      motive before (c :: rest) (.copied c :: re.scan 0 (c :: before) rest))
    (matched : ∀ before w m, re.Lang w → re.matchFrom before (w ++ m.post) = some m →
      motive (w.reverse ++ before) m.post (re.scan 0 (w.reverse ++ before) m.post) →
      motive before (w ++ m.post) (.matched w m.groups :: re.scan 0 (w.reverse ++ before) m.post))
    (before after : List Char) : motive before after (re.scan 0 before after) := by
  induction hn : after.length using Nat.strong_induction_on generalizing before after with
  | _ n ih =>
      cases after with
      | nil =>
          rw [scan_nil]
          exact nil before
      | cons c rest =>
          cases hm : re.matchFrom before (c :: rest) with
          | none =>
              rw [scan_copied hm]
              exact copied before c rest hm (ih rest.length (by simp [← hn]) _ _ rfl)
          | some m =>
              obtain ⟨w, hw, hafter⟩ := matchFrom_eq_some hm
              have hwne : w ≠ [] := by
                rintro rfl
                exact hne hw
              rw [hafter] at hm ⊢
              rw [scan_matched hwne hm rfl]
              refine matched before w m hw hm (ih m.post.length ?_ _ _ rfl)
              rw [← hn, hafter, List.length_append]
              have := List.length_pos_of_ne_nil hwne
              omega

end Scan

/-! ## Patterns which see no further than a character -/

/-- The classes are within `A`, the boundaries those of `isWord`; nothing is captured. -/
def Re.Within (A isWord : Char → Bool) : Re → Prop
  | .empty => True
  | .one p => ∀ c, p c = true → A c = true
  | .star p => ∀ c, p c = true → A c = true
  | .seq a b => a.Within A isWord ∧ b.Within A isWord
  | .alt a b => a.Within A isWord ∧ b.Within A isWord
  | .opt a => a.Within A isWord
  | .group _ _ => False
  | .atStart => False
  | .boundary W => W = isWord

/-- One position stands in a text which goes on behind that of the other. -/
structure Local (isWord : Char → Bool) (ext : List Char) (s s' : State) : Prop where
  after : s.after = s'.after ++ ext
  before : s.before.head?.any isWord = s'.before.head?.any isWord
  groups : s.groups = s'.groups

/-- A text which such a pattern cannot see into. -/
def Hidden (A isWord : Char → Bool) (ext : List Char) : Prop :=
  ∀ d ∈ ext.head?, A d = false ∧ isWord d = false

section Within

variable {A isWord : Char → Bool} {a b re : Re} {ext before before' after rest : List Char}
  {s s' : State}

/-- A sequence sees as far as its parts. -/
@[simp] theorem within_append :
    (a ++ b).Within A isWord ↔ a.Within A isWord ∧ b.Within A isWord := Iff.rfl

/-- A repetition sees as far as its pattern. -/
theorem within_times {n : Nat} (ha : a.Within A isWord) : (Re.times n a).Within A isWord := by
  induction n with
  | zero => exact trivial
  | succ n ih => exact ⟨ha, ih⟩

/-- So does one with an upper bound. -/
theorem within_upTo {n : Nat} (ha : a.Within A isWord) : (Re.upTo n a).Within A isWord := by
  induction n with
  | zero => exact trivial
  | succ n ih => exact ⟨ha, ih⟩

/-- And one with both bounds. -/
theorem within_between {m n : Nat} (ha : a.Within A isWord) :
    (Re.between m n a).Within A isWord := ⟨within_times ha, within_upTo ha⟩

/-- A literal sees its own characters. -/
theorem within_lit {w : List Char} (hw : ∀ c ∈ w, A c = true) : (Re.lit w).Within A isWord := by
  induction w with
  | nil => exact trivial
  | cons c w ih =>
      refine ⟨?_, ih fun d hd => hw d (List.mem_cons_of_mem c hd)⟩
      intro d hd
      rw [beq_iff_eq.mp hd]
      exact hw c (by simp)

/-- What is within a class is within a larger one. -/
theorem Re.Within.mono {B : Char → Bool} (hre : re.Within A isWord)
    (hAB : ∀ c, A c = true → B c = true) : re.Within B isWord := by
  induction re with
  | empty => exact trivial
  | one p => exact fun c hc => hAB c (hre c hc)
  | star p => exact fun c hc => hAB c (hre c hc)
  | seq a b iha ihb => exact ⟨iha hre.1, ihb hre.2⟩
  | alt a b iha ihb => exact ⟨iha hre.1, ihb hre.2⟩
  | opt a ih => exact ih hre
  | group n a => exact hre
  | atStart => exact hre
  | boundary W => exact hre

/-- A text of the language is made of the characters of the classes. -/
theorem Re.Within.mem_lang (hre : re.Within A isWord) {w : List Char} (hw : re.Lang w) :
    ∀ c ∈ w, A c = true := by
  induction re generalizing w with
  | empty => simp [show w = [] from hw]
  | one p =>
      obtain ⟨c, hc, rfl⟩ := hw
      simpa using hre c hc
  | star p =>
      intro c hc
      exact hre c (hw c hc)
  | seq a b iha ihb =>
      obtain ⟨u, v, hu, hv, rfl⟩ := hw
      intro c hc
      exact (List.mem_append.mp hc).elim (iha hre.1 hu c) (ihb hre.2 hv c)
  | alt a b iha ihb => exact hw.elim (iha hre.1) (ihb hre.2)
  | opt a ih =>
      rcases hw with hw | rfl
      · exact ih hre hw
      · simp
  | group n a => exact hre.elim
  | atStart => exact hre.elim
  | boundary W => simp [show w = [] from hw]

/-- A repetition finds the same whether the hidden text is there or not. -/
theorem starFrom_local {p : Char → Bool} (hp : ∀ c, p c = true → A c = true)
    (hext : Hidden A isWord ext) {g : Groups}
    (hbefore : before.head?.any isWord = before'.head?.any isWord) :
    List.Forall₂ (Local isWord ext) (starFrom p g before (after ++ ext))
      (starFrom p g before' after) := by
  induction after generalizing before before' with
  | nil =>
      cases ext with
      | nil => exact .cons ⟨rfl, hbefore, rfl⟩ .nil
      | cons d ext =>
          have hd : p d ≠ true := by
            intro h
            simpa [(hext d rfl).1] using hp d h
          simp only [List.nil_append, starFrom, if_neg hd]
          exact .cons ⟨rfl, hbefore, rfl⟩ .nil
  | cons c after ih =>
      have hhere : Local isWord ext ⟨before, c :: (after ++ ext), g⟩ ⟨before', c :: after, g⟩ :=
        ⟨rfl, hbefore, rfl⟩
      have hlater : List.Forall₂ (Local isWord ext) (starFrom p g (c :: before) (after ++ ext))
          (starFrom p g (c :: before') after) := ih rfl
      rw [List.cons_append, starFrom, starFrom]
      split
      · exact List.rel_append hlater (.cons hhere .nil)
      · exact .cons hhere .nil

/-- From such positions a pattern matches in the same ways. -/
theorem Re.Within.run_local (hre : re.Within A isWord) (hext : Hidden A isWord ext)
    (h : Local isWord ext s s') : List.Forall₂ (Local isWord ext) (re.run s) (re.run s') := by
  induction re generalizing s s' with
  | empty => exact .cons h .nil
  | one p =>
      obtain ⟨before, after, groups⟩ := s
      obtain ⟨before', after', groups'⟩ := s'
      obtain ⟨hafter, hbefore, hgroups⟩ := h
      simp only at hafter hbefore hgroups
      subst hafter hgroups
      cases after' with
      | nil =>
          cases ext with
          | nil => exact .nil
          | cons d ext =>
              have hd : p d ≠ true := by
                intro hp
                simpa [(hext d rfl).1] using hre d hp
              simp [Re.run, hd]
      | cons c after' =>
          simp only [Re.run, List.cons_append]
          split
          · exact .cons ⟨rfl, rfl, rfl⟩ .nil
          · exact .nil
  | star p =>
      rw [Re.run, Re.run, h.after, h.groups]
      exact starFrom_local hre hext h.before
  | seq a b iha ihb => exact List.rel_flatMap (iha hre.1 h) (fun _ _ ht => ihb hre.2 ht)
  | alt a b iha ihb => exact List.rel_append (iha hre.1 h) (ihb hre.2 h)
  | opt a ih => exact List.rel_append (ih hre h) (.cons h .nil)
  | group n a => exact hre.elim
  | atStart => exact hre.elim
  | boundary W =>
      obtain rfl : W = isWord := hre
      have hnext : s.after.head?.any W = s'.after.head?.any W := by
        rw [h.after]
        cases hs : s'.after with
        | nil =>
            cases ext with
            | nil => rfl
            | cons d ext => simpa using (hext d rfl).2
        | cons c rest => rfl
      have hword : s.atBoundary W = s'.atBoundary W := by
        rw [State.atBoundary, State.atBoundary, h.before, hnext]
      rw [Re.run, Re.run, hword]
      split
      · exact .cons h .nil
      · exact .nil

end Within

section Within

variable {A isWord : Char → Bool} {re : Re} {ext before before' after rest : List Char}

/-- Whether two matches are at the same place, but for what follows. -/
def LocalMatch (ext : List Char) (m m' : Match) : Prop :=
  m.post = m'.post ++ ext ∧ m.groups = m'.groups

/-- The match is the same whether the hidden text is there or not. -/
theorem Re.Within.matchFrom_local (hre : re.Within A isWord) (hext : Hidden A isWord ext)
    (hbefore : before.head?.any isWord = before'.head?.any isWord) (after : List Char) :
    Option.Rel (LocalMatch ext) (re.matchFrom before (after ++ ext))
      (re.matchFrom before' after) := by
  have hstart : Local isWord ext ⟨before, after ++ ext, fun _ => none⟩
      ⟨before', after, fun _ => none⟩ := ⟨rfl, hbefore, rfl⟩
  have hrun := hre.run_local hext hstart
  rw [Re.matchFrom, Re.matchFrom, Re.first, Re.first]
  generalize re.run ⟨before, after ++ ext, fun _ => none⟩ = ts at hrun ⊢
  generalize re.run ⟨before', after, fun _ => none⟩ = ts' at hrun ⊢
  cases hrun with
  | nil => exact .none
  | cons hhead _ => exact .some ⟨hhead.after, hhead.groups⟩

/-- The pieces of a text do not depend on what such a pattern cannot see. -/
theorem Re.Within.scan_append (hre : re.Within A isWord) (hne : ¬ re.Lang [])
    (hext : Hidden A isWord ext)
    (hbefore : before.head?.any isWord = before'.head?.any isWord) (after : List Char) :
    re.scan 0 before (after ++ ext) =
      re.scan 0 before' after ++ re.scan 0 (after.reverse ++ before) ext := by
  refine scan_rec hne (motive := fun before' after pieces => ∀ before,
    before.head?.any isWord = before'.head?.any isWord →
      re.scan 0 before (after ++ ext) = pieces ++ re.scan 0 (after.reverse ++ before) ext)
    ?_ ?_ ?_ before' after before hbefore
  · intro before' before _
    rfl
  · intro before' c rest hnone ih before hbefore
    have hmatch : re.matchFrom before (c :: (rest ++ ext)) = none := by
      have hrel := hre.matchFrom_local hext hbefore (c :: rest)
      rw [hnone, List.cons_append] at hrel
      generalize re.matchFrom before (c :: (rest ++ ext)) = found at hrel ⊢
      cases hrel
      rfl
    rw [List.cons_append, scan_copied hmatch, ih (c :: before) rfl, List.reverse_cons]
    simp
  · intro before' w m hw hsome ih before hbefore
    have hrel := hre.matchFrom_local hext hbefore (w ++ m.post)
    rw [hsome, List.append_assoc] at hrel
    obtain ⟨n, hn, hpost, hgroups⟩ : ∃ n, re.matchFrom before (w ++ (m.post ++ ext)) = some n ∧
        LocalMatch ext n m := by
      generalize re.matchFrom before (w ++ (m.post ++ ext)) = found at hrel ⊢
      cases hrel with
      | some h => exact ⟨_, rfl, h⟩
    have hwne : w ≠ [] := by
      rintro rfl
      exact hne hw
    have hheads : (w.reverse ++ before).head?.any isWord =
        (w.reverse ++ before').head?.any isWord := by
      obtain ⟨u, c, rfl⟩ := List.eq_nil_or_concat w |>.resolve_left hwne
      simp
    rw [List.append_assoc, scan_matched hwne hn hpost, ih _ hheads, hgroups]
    simp

end Within

/-! ## Substitution -/

section Sub

variable {σ : Type*} {re : Re} {replace : σ → List Char → Groups → σ × List Char} {s : σ}
  {before after text w rest : List Char}

/-- Pieces are replaced in order, the state handed on. -/
theorem substitute_append (p q : List Piece) :
    substitute replace s (p ++ q) =
      ((substitute replace (substitute replace s p).1 q).1,
        (substitute replace s p).2 ++ (substitute replace (substitute replace s p).1 q).2) := by
  induction p generalizing s with
  | nil => rfl
  | cons piece p ih =>
      cases piece with
      | copied c => simp only [List.cons_append, substitute, ih]
      | matched w g => simp only [List.cons_append, substitute, ih, List.append_assoc]

/-- A text without a match is copied. -/
theorem scan_of_not_occurs (h : ¬ re.Occurs after) :
    re.scan 0 before after = after.map .copied := by
  induction after generalizing before with
  | nil => rfl
  | cons c rest ih =>
      rw [occurs_cons, not_or] at h
      rw [scan_copied (matchFrom_eq_none h.1), ih h.2, List.map_cons]

/-- Copied characters leave the state as it is. -/
theorem substitute_copied : substitute replace s (text.map .copied) = (s, text) := by
  induction text with
  | nil => rfl
  | cons c text ih => simp only [List.map_cons, substitute, ih]

/-- A text in which no match can stand stays. -/
theorem sub_of_not_occurs (h : ¬ re.Occurs text) : re.sub replace s text = (s, text) := by
  rw [Re.sub, Re.pieces, scan_of_not_occurs h, substitute_copied]

/-- What the replacements keep: a condition on the state, an order along which it moves, and
that no character of `D` is put in. -/
structure Re.Keeps (re : Re) (replace : σ → List Char → Groups → σ × List Char)
    (D : Char → Bool) (Good : σ → Prop) (le : σ → σ → Prop) : Prop where
  refl : ∀ s, le s s
  trans : ∀ {s t u}, le s t → le t u → le s u
  good : ∀ {s w} g, re.Lang w → Good s → Good (replace s w g).1
  step : ∀ {s w} g, Good s → le s (replace s w g).1
  plain : ∀ {s w} g, Good s → ∀ c ∈ (replace s w g).2, D c = false

variable {D : Char → Bool} {Good : σ → Prop} {le : σ → σ → Prop}

/-- What every replacement keeps is kept by all of them. -/
theorem Re.Keeps.substitute_good (h : re.Keeps replace D Good le) (hne : ¬ re.Lang [])
    (hs : Good s) (before after : List Char) :
    Good (substitute replace s (re.scan 0 before after)).1 ∧
      le s (substitute replace s (re.scan 0 before after)).1 := by
  refine scan_rec hne (motive := fun _ _ pieces => ∀ s, Good s →
    Good (substitute replace s pieces).1 ∧ le s (substitute replace s pieces).1)
    ?_ ?_ ?_ before after s hs
  · intro _ s hs
    exact ⟨hs, h.refl s⟩
  · intro _ _ _ _ ih s hs
    exact ih s hs
  · intro _ w m hw _ ih s hs
    have hlater := ih _ (h.good m.groups hw hs)
    exact ⟨hlater.1, h.trans (h.step m.groups hs) hlater.2⟩

/-- And so by the substitution in a whole text. -/
theorem Re.Keeps.sub_good (h : re.Keeps replace D Good le) (hne : ¬ re.Lang []) (hs : Good s)
    (text : List Char) :
    Good (re.sub replace s text).1 ∧ le s (re.sub replace s text).1 :=
  h.substitute_good hne hs [] text

/-- No character is put in which no replacement puts in. -/
theorem Re.Keeps.sub_plain (h : re.Keeps replace D Good le) (hne : ¬ re.Lang []) (hs : Good s)
    (htext : ∀ c ∈ text, D c = false) : ∀ c ∈ (re.sub replace s text).2, D c = false := by
  refine scan_rec hne (motive := fun _ after pieces => ∀ s, Good s →
    (∀ c ∈ after, D c = false) → ∀ c ∈ (substitute replace s pieces).2, D c = false)
    ?_ ?_ ?_ [] text s hs htext
  · intro _ s _ _ c hc
    cases hc
  · intro _ c rest _ ih s hs hall d hd
    rw [List.forall_mem_cons] at hall
    rcases List.mem_cons.mp hd with rfl | hd
    · exact hall.1
    · exact ih s hs hall.2 d hd
  · intro _ w m hw _ ih s hs hall d hd
    rcases List.mem_append.mp hd with hd | hd
    · exact h.plain m.groups hs d hd
    · exact ih _ (h.good m.groups hw hs)
        (fun c hc => hall c (List.mem_append_right w hc)) d hd

end Sub

/-! ## Run by run -/

/-- What holds of a text without delimiters, and of one run before a delimiter when it holds of
what follows, holds of every text. -/
theorem runs_rec {D : Char → Bool} {motive : List Char → Prop}
    (last : ∀ run, (∀ c ∈ run, D c = false) → motive run)
    (more : ∀ run d rest, (∀ c ∈ run, D c = false) → D d = true → motive rest →
      motive (run ++ d :: rest)) (text : List Char) : motive text := by
  induction hn : text.length using Nat.strong_induction_on generalizing text with
  | _ n ih =>
      have hrun : ∀ c ∈ text.takeWhile (fun c => !D c), D c = false := by
        intro c hc
        simpa using List.mem_takeWhile_imp hc
      cases hrest : text.dropWhile (fun c => !D c) with
      | nil =>
          have htext := List.takeWhile_append_dropWhile (p := fun c => !D c) (l := text)
          rw [hrest, List.append_nil] at htext
          rw [← htext]
          exact last _ hrun
      | cons d rest =>
          have htext := List.takeWhile_append_dropWhile (p := fun c => !D c) (l := text)
          rw [hrest] at htext
          have hd : D d = true := by
            have hhead := List.head?_dropWhile_not (fun c => !D c) text
            rw [hrest] at hhead
            simpa using hhead
          have hlen : rest.length < n := by
            rw [← hn, ← htext, List.length_append, List.length_cons]
            omega
          rw [← htext]
          exact more _ d rest hrun hd (ih rest.length hlen rest rfl)

section Runs

variable {σ : Type*} {re : Re} {replace : σ → List Char → Groups → σ × List Char} {s : σ}
  {A isWord D : Char → Bool} {Good : σ → Prop} {le : σ → σ → Prop}
  {before run text rest : List Char} {d : Char}

/-- All that such a pattern sees before a position is whether a word stands there. -/
theorem Re.Within.scan_head {before' after : List Char} (hre : re.Within A isWord)
    (hne : ¬ re.Lang []) (hbefore : before.head?.any isWord = before'.head?.any isWord) :
    re.scan 0 before after = re.scan 0 before' after := by
  have hnil : Hidden A isWord [] := by simp [Hidden]
  have happend := hre.scan_append hne hnil hbefore after
  rwa [List.append_nil, scan_nil, List.append_nil] at happend

/-- A delimiter is copied, and the scan begins anew behind it. -/
theorem Re.Within.scan_delimiter (hre : re.Within A isWord) (hne : ¬ re.Lang [])
    (hd : A d = false ∧ isWord d = false) :
    re.scan 0 before (d :: rest) = .copied d :: re.scan 0 [] rest := by
  have hnone : re.matchFrom before (d :: rest) = none := by
    apply matchFrom_eq_none
    rintro ⟨w, hw, hpre⟩
    cases w with
    | nil => exact hne hw
    | cons c w =>
        obtain ⟨rfl, _⟩ := List.cons_prefix_cons.mp hpre
        have hc := hre.mem_lang hw c (by simp)
        rw [hd.1] at hc
        cases hc
  have hhead : (d :: before).head?.any isWord = ([] : List Char).head?.any isWord := by
    simp [hd.2]
  rw [scan_copied hnone, hre.scan_head hne hhead]

/-- The text on both sides of a delimiter is replaced by itself. -/
theorem Re.Within.sub_append_cons (hre : re.Within A isWord) (hne : ¬ re.Lang [])
    (hd : A d = false ∧ isWord d = false) :
    re.sub replace s (run ++ d :: rest) =
      ((re.sub replace (re.sub replace s run).1 rest).1,
        (re.sub replace s run).2 ++ d :: (re.sub replace (re.sub replace s run).1 rest).2) := by
  have hhidden : Hidden A isWord (d :: rest) := by simpa [Hidden] using hd
  rw [Re.sub, Re.pieces, hre.scan_append hne hhidden rfl run,
    hre.scan_delimiter hne hd, substitute_append]
  rfl

/-- Substitution in a text is substitution in each of its runs between delimiters. -/
theorem Re.Keeps.sub_splitOnP (h : re.Keeps replace D Good le) (hre : re.Within A isWord)
    (hne : ¬ re.Lang []) (hD : ∀ d, D d = true → A d = false ∧ isWord d = false)
    (hs : Good s) :
    List.Forall₂ (fun run out => ∃ t, Good t ∧ (re.sub replace t run).2 = out ∧
        le (re.sub replace t run).1 (re.sub replace s text).1)
      (text.splitOnP D) ((re.sub replace s text).2.splitOnP D) := by
  have hgeneral : ∀ s last, Good s → le (re.sub replace s text).1 last →
      List.Forall₂ (fun run out => ∃ t, Good t ∧ (re.sub replace t run).2 = out ∧
        le (re.sub replace t run).1 last)
      (text.splitOnP D) ((re.sub replace s text).2.splitOnP D) := by
    induction text using runs_rec (D := D) with
    | last run hrun =>
        intro s last hs hle
        rw [List.splitOnP_eq_singleton hrun,
          List.splitOnP_eq_singleton (h.sub_plain hne hs hrun)]
        exact .cons ⟨s, hs, rfl, hle⟩ .nil
    | more run d rest hrun hd ih =>
        intro s last hs hle
        rw [hre.sub_append_cons hne (hD d hd)] at hle ⊢
        have hgood := h.sub_good hne hs run
        have hlater := h.sub_good hne hgood.1 rest
        rw [List.splitOnP_append_cons _ _ hd, List.splitOnP_append_cons _ _ hd,
          List.splitOnP_eq_singleton hrun, List.splitOnP_eq_singleton (h.sub_plain hne hs hrun)]
        exact .cons ⟨s, hs, rfl, h.trans hlater.2 hle⟩ (ih _ last hgood.1 hle)
  exact hgeneral s _ hs (h.refl _)

end Runs

/-! ## Finding the match -/

/-- Whether a word begins or ends between two texts, the first reversed. -/
def wordEdge (isWord : Char → Bool) (before after : List Char) : Bool :=
  before.head?.any isWord != after.head?.any isWord

/-- `\b…\b`. -/
def Re.bounded (isWord : Char → Bool) (a : Re) : Re := .boundary isWord ++ a ++ .boundary isWord

section Finding

variable {isWord p : Char → Bool} {a b : Re} {before after u w rest : List Char} {m : Match}

/-- Boundaries change nothing about the texts of a pattern. -/
@[simp] theorem lang_bounded : (Re.bounded isWord a).Lang w ↔ a.Lang w := by
  simp only [Re.bounded, lang_append, lang_boundary]
  constructor
  · rintro ⟨_, _, ⟨_, u, rfl, hu, rfl⟩, rfl, rfl⟩
    simpa using hu
  · intro hw
    exact ⟨w, [], ⟨[], w, rfl, hw, rfl⟩, rfl, by simp⟩

/-- They see no further than the pattern between them. -/
@[simp] theorem within_bounded {A : Char → Bool} :
    (Re.bounded isWord a).Within A isWord ↔ a.Within A isWord := by
  rw [Re.bounded, within_append, within_append]
  exact ⟨fun h => h.1.2, fun h => ⟨⟨rfl, h⟩, rfl⟩⟩

/-- The first alternative wins where it matches. -/
theorem matchFrom_alt_left (h : a.matchFrom before after = some m) :
    (Re.alt a b).matchFrom before after = some m := by
  obtain ⟨t, ht, rfl⟩ := Option.map_eq_some_iff.mp h
  have hfirst : (Re.alt a b).first ⟨before, after, fun _ => none⟩ = some t := by
    rw [Re.first, Re.run, List.head?_append, show (a.run _).head? = some t from ht]
    rfl
  rw [Re.matchFrom, hfirst]
  rfl

/-- The second has its turn where the first does not match. -/
theorem matchFrom_alt_right (h : a.matchFrom before after = none) :
    (Re.alt a b).matchFrom before after = b.matchFrom before after := by
  have hnone : (a.run ⟨before, after, fun _ => none⟩).head? = none := by
    simpa [Re.matchFrom, Re.first] using h
  have hfirst : (Re.alt a b).first ⟨before, after, fun _ => none⟩ =
      b.first ⟨before, after, fun _ => none⟩ := by
    rw [Re.first, Re.run, List.head?_append, hnone]
    rfl
  rw [Re.matchFrom, hfirst, Re.matchFrom]

/-- A boundary in front lets a pattern run where a word begins or ends. -/
theorem run_boundary_append (s : State) :
    (Re.boundary isWord ++ a).run s =
      if wordEdge isWord s.before s.after then a.run s else [] := by
  change (if wordEdge isWord s.before s.after then [s] else []).flatMap a.run = _
  split
  · exact List.flatMap_singleton _ _
  · rfl

/-- At the edge of a word a boundary asks for nothing. -/
theorem matchFrom_boundary (h : wordEdge isWord before after = true) :
    (Re.boundary isWord ++ a).matchFrom before after = a.matchFrom before after := by
  rw [Re.matchFrom, Re.first, run_boundary_append, if_pos h, ← Re.first, ← Re.matchFrom]

/-- Elsewhere it lets nothing through. -/
theorem matchFrom_boundary_eq_none (h : wordEdge isWord before after = false) :
    (Re.boundary isWord ++ a).matchFrom before after = none := by
  rw [Re.matchFrom, Re.first, run_boundary_append, if_neg (by simp [h])]
  rfl

/-- How a sequence is put together does not matter. -/
theorem run_append_assoc {c : Re} (s : State) : (a ++ b ++ c).run s = (a ++ (b ++ c)).run s :=
  List.flatMap_assoc

/-- At the edge of a word the first boundary can be left out. -/
theorem matchFrom_bounded_start (h : wordEdge isWord before after = true) :
    (Re.bounded isWord a).matchFrom before after =
      (a ++ Re.boundary isWord).matchFrom before after := by
  rw [Re.matchFrom, Re.first, Re.bounded, run_append_assoc, ← Re.first, ← Re.matchFrom,
    matchFrom_boundary h]

/-- Off the edge of a word nothing is matched between boundaries. -/
theorem matchFrom_bounded_eq_none (h : wordEdge isWord before after = false) :
    (Re.bounded isWord a).matchFrom before after = none := by
  rw [Re.matchFrom, Re.first, Re.bounded, run_append_assoc, ← Re.first, ← Re.matchFrom,
    matchFrom_boundary_eq_none h]

/-- A boundary behind a pattern keeps the results which end at an edge of a word. -/
theorem mem_run_boundary {s t : State} :
    t ∈ (a ++ Re.boundary isWord).run s ↔
      t ∈ a.run s ∧ wordEdge isWord t.before t.after = true := by
  change t ∈ (a.run s).flatMap (fun s => if s.atBoundary isWord then [s] else []) ↔ _
  rw [List.mem_flatMap]
  constructor
  · rintro ⟨r, hr, ht⟩
    split at ht
    · rename_i hedge
      obtain rfl := List.mem_singleton.mp ht
      exact ⟨hr, hedge⟩
    · cases ht
  · rintro ⟨ht, hedge⟩
    exact ⟨t, ht, by rw [if_pos (show t.atBoundary isWord = true from hedge)]; simp⟩

/-- Where a text of the language stands as a word, a match is found, which need not be it. -/
theorem matchFrom_bounded (ha : a.Plain) (hw : a.Lang w)
    (hstart : wordEdge isWord before (w ++ rest) = true)
    (hend : wordEdge isWord (w.reverse ++ before) rest = true) :
    ∃ u m, (Re.bounded isWord a).matchFrom before (w ++ rest) = some m ∧ a.Lang u ∧
      w ++ rest = u ++ m.post ∧ wordEdge isWord (u.reverse ++ before) m.post = true := by
  obtain ⟨t, ht, hbefore, hafter⟩ := ha.exists_run hw before rest (fun _ => none)
  have hmem : t ∈ (a ++ Re.boundary isWord).run ⟨before, w ++ rest, fun _ => none⟩ := by
    rw [mem_run_boundary, hbefore, hafter]
    exact ⟨ht, hend⟩
  obtain ⟨r, more, hrun⟩ := List.exists_cons_of_ne_nil (List.ne_nil_of_mem hmem)
  have hr : r ∈ (a ++ Re.boundary isWord).run ⟨before, w ++ rest, fun _ => none⟩ := by
    rw [hrun]
    exact List.mem_cons_self
  rw [mem_run_boundary] at hr
  obtain ⟨u, hu, hsplit, hbefore⟩ := mem_run_lang hr.1
  refine ⟨u, ⟨before.reverse, r.after, r.groups⟩, ?_, hu, hsplit, hbefore ▸ hr.2⟩
  rw [matchFrom_bounded_start hstart, Re.matchFrom, Re.first, hrun]
  rfl

/-- A text which alone can stand as a word there is the match. -/
theorem matchFrom_bounded_unique (ha : a.Plain) (hw : a.Lang w)
    (hstart : wordEdge isWord before (w ++ rest) = true)
    (hend : wordEdge isWord (w.reverse ++ before) rest = true)
    (hunique : ∀ u v, a.Lang u → w ++ rest = u ++ v →
      wordEdge isWord (u.reverse ++ before) v = true → u = w) :
    ∃ m, (Re.bounded isWord a).matchFrom before (w ++ rest) = some m ∧ m.post = rest := by
  obtain ⟨u, m, hm, hu, hsplit, hedge⟩ := matchFrom_bounded ha hw hstart hend
  obtain rfl := hunique u m.post hu hsplit hedge
  exact ⟨m, hm, (List.append_cancel_left hsplit).symm⟩

/-- A repeated pattern reads what it reads piece by piece. -/
theorem reads_times_flatten {ws : List (List Char)} {n : Nat} (hn : ws.length = n)
    (hws : ∀ u ∈ ws, ∀ rest, Reads a u rest id) : Reads (Re.times n a) ws.flatten rest id := by
  induction n generalizing ws with
  | zero =>
      rw [List.length_eq_zero_iff.mp hn]
      exact reads_empty
  | succ n ih =>
      obtain ⟨u, ws, rfl⟩ := List.exists_cons_of_length_eq_add_one hn
      rw [List.forall_mem_cons] at hws
      exact (hws.1 _).append (ih (by simpa using hn) hws.2)

/-- What may be there is left out where it is not. -/
theorem reads_opt_none (h : ¬ a.At rest) : Reads (.opt a) [] rest id := by
  intro before g
  have hnone : a.run ⟨before, rest, g⟩ = [] := by
    have hfirst : a.first ⟨before, rest, g⟩ = none := first_eq_none h
    simpa [Re.first] using hfirst
  change (a.run ⟨before, rest, g⟩ ++ _).head? = _
  rw [hnone]
  rfl

/-- Repetition reads on as long as it can. -/
theorem reads_upTo {ws : List (List Char)} {n : Nat} (hn : ws.length ≤ n)
    (hws : ∀ u ∈ ws, ∀ rest, Reads a u rest id) (hrest : ws.length = n ∨ ¬ a.At rest) :
    Reads (Re.upTo n a) ws.flatten rest id := by
  induction n generalizing ws with
  | zero =>
      rw [List.length_eq_zero_iff.mp (Nat.le_zero.mp hn)]
      exact reads_empty
  | succ n ih =>
      cases ws with
      | nil =>
          apply reads_opt_none
          intro hat
          exact hrest.elim (by simp) (fun h => h hat.left)
      | cons u ws =>
          rw [List.forall_mem_cons] at hws
          have htail : Reads (Re.upTo n a) ws.flatten rest id :=
            ih (by simpa using hn) hws.2 (by simpa using hrest)
          exact ((hws.1 _).append htail).opt

/-- A bounded repetition reads on until its bound, or until nothing more fits. -/
theorem reads_between {ws : List (List Char)} {m n : Nat} (hm : m ≤ ws.length)
    (hn : ws.length ≤ n) (hws : ∀ u ∈ ws, ∀ rest, Reads a u rest id)
    (hrest : ws.length = n ∨ ¬ a.At rest) : Reads (Re.between m n a) ws.flatten rest id := by
  have hfew : Reads (Re.times m a) (ws.take m).flatten ((ws.drop m).flatten ++ rest) id :=
    reads_times_flatten (by simp [hm]) (fun u hu => hws u (List.mem_of_mem_take hu))
  have hmore : Reads (Re.upTo (n - m) a) (ws.drop m).flatten rest id := by
    apply reads_upTo (by rw [List.length_drop]; omega)
      (fun u hu => hws u (List.mem_of_mem_drop hu))
    rw [List.length_drop]
    exact hrest.imp_left (by omega)
  have hboth := hfew.append hmore
  rw [← List.flatten_append, List.take_append_drop] at hboth
  exact hboth

/-- With a class it reads until a character does not fit. -/
theorem reads_between_one {m n : Nat} (hm : m ≤ w.length) (hn : w.length ≤ n)
    (hw : ∀ c ∈ w, p c = true) (hrest : Stops p rest) :
    Reads (Re.between m n (.one p)) w rest id := by
  have hflatten : (w.map fun c => [c]).flatten = w := by
    rw [← List.flatMap_def, List.flatMap_singleton']
  rw [← hflatten]
  refine reads_between (by simpa using hm) (by simpa using hn) ?_ (Or.inr ?_)
  · intro u hu rest
    obtain ⟨c, hc, rfl⟩ := List.mem_map.mp hu
    exact reads_one (hw c hc)
  · rintro ⟨_, ⟨c, hc, rfl⟩, hpre⟩
    obtain ⟨rest, rfl⟩ := hpre
    rw [stops_cons.mp hrest] at hc
    cases hc

end Finding

/-! ## Texts without a match -/

section NotOccurs

variable {re : Re} {text before after : List Char} {x : Char}

/-- What occurs is a part of the text. -/
theorem Re.Occurs.exists_infix (h : re.Occurs text) : ∃ w, re.Lang w ∧ w <:+: text := by
  obtain ⟨u, v, rfl, w, hw, hpre⟩ := h
  exact ⟨w, hw, hpre.isInfix.trans (List.suffix_append u v).isInfix⟩

/-- A text whose first character is not in the front lies behind the front. -/
theorem infix_skip {c : Char} {w u v : List Char} (h : c :: w <:+: u ++ v) (hc : c ∉ u) :
    c :: w <:+: v := by
  obtain ⟨a, b, hsplit⟩ := h
  rw [List.append_assoc] at hsplit
  rcases List.append_eq_append_iff.mp hsplit with ⟨x, hu, hrest⟩ | ⟨x, _, hv⟩
  · cases x with
    | nil => exact ⟨[], b, by simpa using hrest⟩
    | cons d x =>
        obtain ⟨rfl, _⟩ := List.cons.inj hrest
        exact absurd (by simp [hu]) hc
  · exact ⟨x, b, by rw [hv, List.append_assoc]⟩

/-- A text with too few of the characters which every match needs has none. -/
theorem not_occurs_of_countP {p : Char → Bool} {n : Nat}
    (hmany : ∀ w, re.Lang w → n ≤ w.countP p) (hfew : text.countP p < n) : ¬ re.Occurs text := by
  intro h
  obtain ⟨w, hw, hinfix⟩ := h.exists_infix
  have hle := hinfix.sublist.countP_le (p := p)
  have := hmany w hw
  omega

end NotOccurs

/-! ## Marked values -/

/-- A fixed text with characters of a class behind it, which are captured. -/
def Re.marked (mark : List Char) (p : Char → Bool) : Re := Re.lit mark ++ .group 1 (Re.plus p)

section Marked

variable {mark value rest skipped text : List Char} {p : Char → Bool}

/-- Behind the mark the value is read and kept. -/
theorem reads_marked (hne : value ≠ []) (hvalue : ∀ c ∈ value, p c = true) (hrest : Stops p rest) :
    Reads (Re.marked mark p) (mark ++ value) rest fun g => Function.update g 1 (some value) :=
  (reads_lit mark (value ++ rest)).append ((reads_plus hne hvalue hrest).group 1)

/-- The value of a mark is found behind a text without the first character of the mark. -/
theorem search_marked {c : Char} (hmark : mark.head? = some c) (hskipped : c ∉ skipped)
    (hne : value ≠ []) (hvalue : ∀ c ∈ value, p c = true) (hrest : Stops p rest) :
    (Re.marked mark p).search (skipped ++ (mark ++ value ++ rest)) =
      some ⟨skipped, rest, Function.update (fun _ => none) 1 (some value)⟩ := by
  refine (reads_marked hne hvalue hrest).search fun u v hsplit hv hat => ?_
  obtain ⟨w, hw, hpre⟩ := hat.left
  obtain ⟨d, v, rfl⟩ := List.exists_cons_of_ne_nil hv
  obtain ⟨m, rfl⟩ : ∃ m, mark = c :: m := by
    cases mark with
    | nil => cases hmark
    | cons e m => exact ⟨m, by rw [Option.some.inj hmark]⟩
  rw [lang_lit.mp hw, List.cons_append] at hpre
  obtain ⟨rfl, _⟩ := List.cons_prefix_cons.mp hpre
  exact hskipped (hsplit ▸ List.mem_append_right u List.mem_cons_self)

/-- What is found has a value. -/
theorem value_of_search_marked {m : Match} (h : (Re.marked mark p).search text = some m) :
    ∃ value, m.groups 1 = some value ∧ value ≠ [] ∧ ∀ c ∈ value, p c = true := by
  obtain ⟨_, _, _, hmatch, _⟩ := searchFrom_eq_some h
  obtain ⟨t, ht, rfl⟩ := Option.map_eq_some_iff.mp hmatch
  obtain ⟨w, f, hw, _, hg⟩ := mem_run_captures (List.mem_of_mem_head? ht)
  simp only [Re.marked, captures_append, captures_lit, captures_group, captures_plus] at hw
  obtain ⟨_, value, _, _, ⟨rfl, rfl⟩, ⟨_, ⟨hne, hvalue, rfl⟩, rfl⟩, _, rfl⟩ := hw
  exact ⟨value, by rw [hg]; rfl, hne, hvalue⟩

/-- Without the mark nothing is found. -/
theorem search_marked_eq_none (h : ¬ mark <:+: text) : (Re.marked mark p).search text = none := by
  refine searchFrom_eq_none fun hoccurs => ?_
  obtain ⟨w, hw, hpart⟩ := hoccurs.exists_infix
  obtain ⟨u, v, hu, _, rfl⟩ := lang_append.mp hw
  obtain rfl := lang_lit.mp hu
  exact h (List.IsInfix.trans ⟨[], v, rfl⟩ hpart)

end Marked

/-! ## Leftmost matches -/

section Leftmost

variable {re a : Re} {isWord : Char → Bool} {before after text u v : List Char} {c : Char}
  {m : Match}

/-- The search succeeds when a match begins somewhere. -/
theorem searchFrom_isSome_iff : (re.searchFrom before after).isSome ↔
    ∃ u v, after = u ++ v ∧ (re.matchFrom (u.reverse ++ before) v).isSome := by
  constructor
  · intro h
    obtain ⟨m, hm⟩ := Option.isSome_iff_exists.mp h
    obtain ⟨skipped, rest, hsplit, hmatch, _⟩ := searchFrom_eq_some hm
    exact ⟨skipped, rest, hsplit, Option.isSome_iff_exists.mpr ⟨m, hmatch⟩⟩
  · intro ⟨u, v, hsplit, hmatch⟩
    induction u generalizing before after with
    | nil =>
        obtain rfl : after = v := hsplit
        obtain ⟨m, hm⟩ := Option.isSome_iff_exists.mp hmatch
        exact Option.isSome_iff_exists.mpr ⟨m, searchFrom_of_matchFrom hm⟩
    | cons c u ih =>
        obtain rfl : after = c :: (u ++ v) := hsplit
        rw [Re.searchFrom]
        cases re.matchFrom before (c :: (u ++ v)) with
        | some m => rfl
        | none => exact ih rfl (by simpa using hmatch)

/-- A search finds something, if there is a match somewhere. -/
theorem search_isSome_iff : (re.search text).isSome ↔
    ∃ u v, text = u ++ v ∧ (re.matchFrom u.reverse v).isSome := by
  simp only [Re.search, searchFrom_isSome_iff, List.append_nil]

/-- What a search finds stands before every other match. -/
theorem search_leftmost (h : re.search text = some m) (hsplit : text = u ++ v)
    (hmatch : (re.matchFrom u.reverse v).isSome) : m.pre <+: u := by
  obtain ⟨skipped, rest, hskipped, hfound, hnone⟩ := searchFrom_eq_some h
  have hpre : m.pre = skipped := by simpa using matchFrom_pre hfound
  rw [hpre]
  have hwhole : skipped ++ rest = u ++ v := hskipped.symm.trans hsplit
  rcases List.append_eq_append_iff.mp hwhole with ⟨w, hu, _⟩ | ⟨w, hskip, hv⟩
  · exact ⟨w, hu.symm⟩
  · cases w with
    | nil => exact ⟨[], by simpa using hskip⟩
    | cons x w =>
        have hnothing := hnone u (x :: w) hskip (List.cons_ne_nil _ _)
        rw [← hv, List.append_nil] at hnothing
        rw [hnothing] at hmatch
        cases hmatch

/-- A pattern that has to end at the edge of a word. -/
theorem matchFrom_boundary_isSome_iff (ha : a.Plain) :
    ((a ++ Re.boundary isWord).matchFrom before after).isSome ↔
      ∃ w rest, after = w ++ rest ∧ a.Lang w ∧ wordEdge isWord (w.reverse ++ before) rest = true := by
  rw [Re.matchFrom, Option.isSome_map, Re.first, List.isSome_head?]
  constructor
  · intro h
    obtain ⟨t, ht⟩ := List.exists_mem_of_ne_nil _ (by simpa using h)
    obtain ⟨ht, hedge⟩ := mem_run_boundary.mp ht
    obtain ⟨w, hw, hafter, hbefore⟩ := mem_run_lang ht
    exact ⟨w, t.after, hafter, hw, hbefore ▸ hedge⟩
  · intro h
    obtain ⟨w, rest, hafter, hw, hedge⟩ := h
    obtain ⟨t, ht, hbefore, hrest⟩ := ha.exists_run hw before rest (fun _ => none)
    have hmem : t ∈ (a ++ Re.boundary isWord).run ⟨before, after, fun _ => none⟩ := by
      rw [hafter]
      exact mem_run_boundary.mpr ⟨ht, by rw [hbefore, hrest]; exact hedge⟩
    simpa using List.ne_nil_of_mem hmem

/-- Behind a character of a word, the word ends where no such character follows. -/
theorem wordEdge_of_wordEnd (hc : isWord c = true) (before after : List Char) :
    wordEdge isWord (c :: before) after = true ↔ Stops isWord after := by
  cases after with
  | nil => simp [wordEdge, hc]
  | cons d after => simp [wordEdge, hc]

/-- A text of the language which is a word of its own is found. -/
theorem search_bounded_isSome {w : List Char} (ha : a.Plain) (hw : a.Lang w)
    (hfirst : w.head?.any isWord = true) (hlast : w.getLast?.any isWord = true) :
    ((Re.bounded isWord a).search w).isSome := by
  have hstart : wordEdge isWord [] (w ++ []) = true := by simp [wordEdge, hfirst]
  have hend : wordEdge isWord (w.reverse ++ []) [] = true := by simp [wordEdge, hlast]
  obtain ⟨_, m, hm, _⟩ := matchFrom_bounded ha hw hstart hend
  rw [List.append_nil] at hm
  exact search_isSome_iff.mpr ⟨[], w, rfl, Option.isSome_of_eq_some hm⟩

end Leftmost

end BacktrackingRegex
