import Mathlib.Data.List.Basic
import FaultOracle.RegexSubstitution

/-!
# One substitution after the other

When several patterns replace their matches one after the other, a text consists of characters
which are still there and of stretches which have been replaced.  A list of blocks keeps both:
what a stretch was (`source`) and what stands for it (`shown`).

A pass keeps to the characters when no match of its pattern reaches into what has been put in
(`StaysRaw`).  Then it turns blocks into blocks (`exists_pass`): what is there stays, and each
match becomes a block of its own.  What a pattern finds as a whole is such a match
(`Pass.found`).
-/

namespace BacktrackingRegex

/-- The pattern can match `w` between the two texts. -/
def Re.Spans (re : Re) (before w after : List Char) : Prop :=
  ∃ t ∈ re.run ⟨before.reverse, w ++ after, fun _ => none⟩, t.after = after

section Spans

variable {re : Re} {before after w rest : List Char} {m : Match}

/-- What a pattern spans somewhere is in its language. -/
theorem Re.Spans.lang (h : re.Spans before w after) : re.Lang w := by
  obtain ⟨t, ht, rfl⟩ := h
  obtain ⟨u, hu, hafter, _⟩ := mem_run_lang ht
  obtain rfl := List.append_cancel_right hafter
  exact hu

/-- A match is one of the texts which the pattern can match there. -/
theorem spans_of_matchFrom (h : re.matchFrom before rest = some m) :
    ∃ w, rest = w ++ m.post ∧ re.Spans before.reverse w m.post := by
  obtain ⟨t, ht, rfl⟩ := Option.map_eq_some_iff.mp h
  obtain ⟨w, _, hafter, _⟩ := mem_run_lang (List.mem_of_mem_head? ht)
  refine ⟨w, hafter, t, ?_, rfl⟩
  rw [List.reverse_reverse, ← hafter]
  exact List.mem_of_mem_head? ht

/-- A match of a pattern which needs a character is one of at least a character. -/
theorem spans_of_matchFrom_nonempty (hlang : ¬ re.Lang [])
    (h : re.matchFrom before rest = some m) :
    ∃ w, rest = w ++ m.post ∧ w ≠ [] ∧ re.Spans before.reverse w m.post := by
  obtain ⟨w, hw, hspans⟩ := spans_of_matchFrom h
  refine ⟨w, hw, ?_, hspans⟩
  rintro rfl
  exact hlang hspans.lang

/-- Where a pattern spans a text the matcher finds a match. -/
theorem Re.Spans.exists_matchFrom (h : re.Spans before w after) :
    ∃ m, re.matchFrom before.reverse (w ++ after) = some m := by
  obtain ⟨t, ht, _⟩ := h
  obtain ⟨first, more, hrun⟩ := List.exists_cons_of_ne_nil (List.ne_nil_of_mem ht)
  refine ⟨⟨before.reverse.reverse, first.after, first.groups⟩, ?_⟩
  rw [Re.matchFrom, Re.first, hrun]
  rfl

/-- An alternative spans what one of its sides spans. -/
theorem spans_alt {a b : Re} :
    (Re.alt a b).Spans before w after ↔ a.Spans before w after ∨ b.Spans before w after := by
  simp only [Re.Spans, Re.run, List.mem_append, or_and_right, exists_or]

/-- Without anchors, a pattern can match its texts everywhere. -/
theorem Re.Plain.spans_iff (hre : re.Plain) : re.Spans before w after ↔ re.Lang w := by
  constructor
  · exact Re.Spans.lang
  · intro hw
    obtain ⟨t, ht, _, hafter⟩ := hre.exists_run hw before.reverse after fun _ => none
    exact ⟨t, ht, hafter⟩

/-- Between boundaries, it can match them where a word begins and ends. -/
theorem spans_bounded {isWord : Char → Bool} (hre : re.Plain) :
    (Re.bounded isWord re).Spans before w after ↔ re.Lang w ∧
      wordEdge isWord before.reverse (w ++ after) = true ∧
        wordEdge isWord (w.reverse ++ before.reverse) after = true := by
  have hrun : ∀ t, t ∈ (Re.bounded isWord re).run ⟨before.reverse, w ++ after, fun _ => none⟩ ↔
      wordEdge isWord before.reverse (w ++ after) = true ∧
        t ∈ re.run ⟨before.reverse, w ++ after, fun _ => none⟩ ∧
          wordEdge isWord t.before t.after = true := by
    intro t
    rw [Re.bounded, run_append_assoc, run_boundary_append, ← mem_run_boundary]
    split
    · rename_i hstart
      rw [and_iff_right hstart]
    · rename_i hstart
      exact iff_of_false List.not_mem_nil fun h => hstart h.1
  constructor
  · rintro ⟨t, ht, rfl⟩
    obtain ⟨hstart, hmem, hfinish⟩ := (hrun t).mp ht
    obtain ⟨u, hu, hafter, hbefore⟩ := mem_run_lang hmem
    obtain rfl := List.append_cancel_right hafter
    exact ⟨hu, hstart, hbefore ▸ hfinish⟩
  · rintro ⟨hw, hstart, hfinish⟩
    obtain ⟨t, ht, hbefore, rfl⟩ := hre.exists_run hw before.reverse after fun _ => none
    exact ⟨t, (hrun t).mpr ⟨hstart, ht, by rwa [hbefore]⟩, rfl⟩

end Spans

/-- A character of the text, or a stretch of it with what has been put in its place. -/
inductive Block (κ : Type*)
  | raw (c : Char)
  | made (k : κ) (w placeholder : List Char)

section Blocks

variable {κ : Type*}

/-- The text that the blocks stand for. -/
def source : List (Block κ) → List Char
  | [] => []
  | .raw c :: B => c :: source B
  | .made _ w _ :: B => w ++ source B

/-- The text that the blocks have become. -/
def shown : List (Block κ) → List Char
  | [] => []
  | .raw c :: B => c :: shown B
  | .made _ _ p :: B => p ++ shown B

variable {B X Y Z : List (Block κ)} {u v w p x y z t : List Char} {c : Char} {k : κ}

@[simp] theorem source_append : source (X ++ Y) = source X ++ source Y := by
  induction X with
  | nil => rfl
  | cons b X ih => cases b <;> simp [source, ih]

@[simp] theorem shown_append : shown (X ++ Y) = shown X ++ shown Y := by
  induction X with
  | nil => rfl
  | cons b X ih => cases b <;> simp [shown, ih]

/-- Characters of their own are their own source. -/
@[simp] theorem source_raw : source (w.map (Block.raw : Char → Block κ)) = w := by
  induction w with
  | nil => rfl
  | cons c w ih => simp [source, ih]

/-- Characters of their own show themselves. -/
@[simp] theorem shown_raw : shown (w.map (Block.raw : Char → Block κ)) = w := by
  induction w with
  | nil => rfl
  | cons c w ih => simp [shown, ih]

/-- Nothing has been replaced by nothing, and nothing was nothing. -/
def Solid (B : List (Block κ)) : Prop :=
  ∀ k w p, .made k w p ∈ B → w ≠ [] ∧ p ≠ []

theorem Solid.of_append (h : Solid (X ++ Y)) : Solid X ∧ Solid Y :=
  ⟨fun j w p hmem => h j w p (List.mem_append_left _ hmem),
    fun j w p hmem => h j w p (List.mem_append_right _ hmem)⟩

/-- The rest of a solid stretch is solid. -/
theorem Solid.of_cons {b : Block κ} (h : Solid (b :: X)) : Solid X :=
  fun j w p hmem => h j w p (List.mem_cons_of_mem _ hmem)

theorem Solid.eq_nil (h : Solid X) (hshown : shown X = []) : X = [] := by
  cases X with
  | nil => rfl
  | cons b X =>
      cases b with
      | raw c => cases hshown
      | made j w p =>
          exact absurd (List.append_eq_nil_iff.mp hshown).1 (h j w p List.mem_cons_self).2

/-- A place in the text is one between two blocks or one within what has been put in. -/
theorem shown_split (h : shown B = x ++ z) :
    (∃ X Y, B = X ++ Y ∧ shown X = x ∧ shown Y = z) ∨
      ∃ X k w p₁ p₂ Y, B = X ++ .made k w (p₁ ++ p₂) :: Y ∧ p₁ ≠ [] ∧ p₂ ≠ [] ∧
        x = shown X ++ p₁ ∧ z = p₂ ++ shown Y := by
  induction B generalizing x with
  | nil =>
      obtain ⟨rfl, rfl⟩ := List.append_eq_nil_iff.mp h.symm
      exact .inl ⟨[], [], rfl, rfl, rfl⟩
  | cons b B ih =>
      cases x with
      | nil => exact .inl ⟨[], b :: B, rfl, rfl, h⟩
      | cons d x =>
          cases b with
          | raw c =>
              obtain ⟨rfl, hrest⟩ := List.cons.inj h
              rcases ih hrest with ⟨X, Y, rfl, rfl, rfl⟩ |
                ⟨X, k, w, p₁, p₂, Y, rfl, h₁, h₂, rfl, rfl⟩
              · exact .inl ⟨.raw c :: X, Y, rfl, rfl, rfl⟩
              · exact .inr ⟨.raw c :: X, k, w, p₁, p₂, Y, rfl, h₁, h₂, rfl, rfl⟩
          | made k w p =>
              rcases List.append_eq_append_iff.mp (show p ++ shown B = d :: x ++ z from h) with
                ⟨rest, hx, hrest⟩ | ⟨rest, rfl, rfl⟩
              · rw [hx]
                rcases ih hrest with ⟨X, Y, rfl, rfl, rfl⟩ |
                  ⟨X, k', w', p₁, p₂, Y, rfl, h₁, h₂, rfl, rfl⟩
                · exact .inl ⟨.made k w p :: X, Y, rfl, rfl, rfl⟩
                · exact .inr ⟨.made k w p :: X, k', w', p₁, p₂, Y, rfl, h₁, h₂,
                    by simp [shown], rfl⟩
              · by_cases hnil : rest = []
                · subst hnil
                  exact .inl ⟨[.made k w (d :: x ++ [])], B, rfl, by simp [shown], rfl⟩
                · exact .inr ⟨[], k, w, d :: x, rest, B, rfl, List.cons_ne_nil _ _, hnil, rfl,
                    rfl⟩

/-- A stretch from a place between two blocks consists of characters, or reaches into what has
been put in. -/
theorem shown_walk (hsolid : Solid B) (h : shown B = y ++ z) :
    (∃ Y, B = y.map .raw ++ Y ∧ shown Y = z) ∨
      ∃ y₁ y₂ k w p Y, B = y₁.map .raw ++ .made k w p :: Y ∧ y = y₁ ++ y₂ ∧ y₂ ≠ [] ∧
        y₂ ++ z = p ++ shown Y := by
  induction B generalizing y with
  | nil =>
      obtain ⟨rfl, rfl⟩ := List.append_eq_nil_iff.mp h.symm
      exact .inl ⟨[], rfl, rfl⟩
  | cons b B ih =>
      cases y with
      | nil => exact .inl ⟨b :: B, rfl, h⟩
      | cons d y =>
          cases b with
          | raw c =>
              obtain ⟨rfl, hrest⟩ := List.cons.inj h
              rcases ih hsolid.of_cons hrest with
                ⟨Y, rfl, rfl⟩ | ⟨y₁, y₂, k, w, p, Y, rfl, rfl, hne, heq⟩
              · exact .inl ⟨Y, rfl, rfl⟩
              · exact .inr ⟨c :: y₁, y₂, k, w, p, Y, rfl, rfl, hne, heq⟩
          | made k w p =>
              exact .inr ⟨[], d :: y, k, w, p, B, rfl, rfl, List.cons_ne_nil _ _, h.symm⟩

/-- A stretch at the start which no replaced one touches consists of characters. -/
theorem exists_raw_start (h : source B = t ++ v)
    (hfar : ∀ X k w p Y, B = X ++ .made k w p :: Y → t.length < (source X).length) :
    ∃ Y, B = t.map .raw ++ Y ∧ source Y = v := by
  induction t generalizing B with
  | nil => exact ⟨B, rfl, h⟩
  | cons c t ih =>
      cases B with
      | nil => cases h
      | cons b B =>
          cases b with
          | made k w p => exact absurd (hfar [] k w p B rfl) (by simp [source])
          | raw d =>
              obtain ⟨rfl, hrest⟩ := List.cons.inj h
              obtain ⟨Y, rfl, rfl⟩ := ih hrest fun X k w p Y hX => by
                have hthere := hfar (.raw d :: X) k w p Y (by rw [hX]; rfl)
                simp only [source, List.length_cons] at hthere
                omega
              exact ⟨Y, rfl, rfl⟩

/-- A stretch of the text which no replaced one touches consists of characters. -/
theorem exists_raw (hsolid : Solid B) (h : source B = u ++ (t ++ v))
    (hne : t ≠ [])
    (hapart : ∀ X k w p Y, B = X ++ .made k w p :: Y →
      (source X).length + w.length < u.length ∨ u.length + t.length < (source X).length) :
    ∃ X Y, B = X ++ (t.map .raw ++ Y) ∧ source X = u ∧ source Y = v := by
  induction B generalizing u with
  | nil =>
      obtain ⟨rfl, htv⟩ := List.append_eq_nil_iff.mp h.symm
      exact absurd (List.append_eq_nil_iff.mp htv).1 hne
  | cons b B ih =>
      cases b with
      | made k w p =>
          have hshort : w.length < u.length := by
            have hhere := hapart [] k w p B rfl
            simp only [source, List.length_nil] at hhere
            omega
          obtain ⟨rest, rfl, hrest⟩ : ∃ rest, u = w ++ rest ∧ source B = rest ++ (t ++ v) := by
            rcases List.append_eq_append_iff.mp (show w ++ source B = u ++ (t ++ v) from h) with
              ⟨rest, rfl, hrest⟩ | ⟨rest, rfl, _⟩
            · exact ⟨rest, rfl, hrest⟩
            · rw [List.length_append] at hshort
              omega
          obtain ⟨X, Y, rfl, rfl, rfl⟩ := ih hsolid.of_cons hrest fun X k' w' p' Y hB => by
            have hthere := hapart (.made k w p :: X) k' w' p' Y (by rw [hB]; rfl)
            simp only [source, List.length_append] at hthere
            omega
          exact ⟨.made k w p :: X, Y, rfl, rfl, rfl⟩
      | raw c =>
          cases u with
          | cons d u =>
              obtain ⟨rfl, hrest⟩ := List.cons.inj h
              obtain ⟨X, Y, rfl, rfl, rfl⟩ := ih hsolid.of_cons hrest fun X k' w' p' Y hB => by
                have hthere := hapart (.raw c :: X) k' w' p' Y (by rw [hB]; rfl)
                simp only [source, List.length_cons] at hthere
                omega
              exact ⟨.raw c :: X, Y, rfl, rfl, rfl⟩
          | nil =>
              have hstart : source (.raw c :: B) = t ++ v := h
              obtain ⟨Y, hY, rfl⟩ := exists_raw_start hstart fun X k w p Y hX => by
                have hthere := hapart X k w p Y hX
                simp only [List.length_nil] at hthere
                omega
              exact ⟨[], Y, hY, rfl, rfl⟩

/-- What has been put in is no character. -/
theorem made_notMem_raw : Block.made k w p ∉ t.map (Block.raw : Char → Block κ) := by simp

/-- Characters which are still there have nothing in common with what has been replaced. -/
theorem raw_apart (h : X ++ (w.map .raw ++ Y) = Z ++ .made k t p :: B) :
    (source X).length + w.length ≤ (source Z).length ∨
      (source Z).length + t.length ≤ (source X).length := by
  rcases List.append_eq_append_iff.mp h with ⟨a, rfl, hrest⟩ | ⟨a, rfl, hrest⟩
  · left
    rcases List.append_eq_append_iff.mp hrest with ⟨b, rfl, _⟩ | ⟨b, hw, hmore⟩
    · simp only [source_append, source_raw, List.length_append]
      omega
    · cases b with
      | nil =>
          rw [List.append_nil] at hw
          rw [source_append, ← hw, source_raw, List.length_append]
      | cons b rest =>
          obtain ⟨rfl, _⟩ := List.cons.inj hmore
          exact absurd (hw ▸ List.mem_append_right _ List.mem_cons_self) made_notMem_raw
  · cases a with
    | cons b rest =>
        obtain ⟨rfl, _⟩ := List.cons.inj hrest
        right
        simp only [source_append, source, List.length_append]
        omega
    | nil =>
        cases w with
        | nil =>
            left
            simp
        | cons c w => cases hrest

/-- Next to characters which no replaced stretch touches stand others of the text. -/
theorem head_of_apart (hB : B = X ++ (t.map .raw ++ Y))
    (hapart : ∀ X' k w p Y', B = X' ++ .made k w p :: Y' →
      (source X').length + w.length < (source X).length ∨
        (source X).length + t.length < (source X').length) :
    (shown X).reverse.head? = (source X).reverse.head? ∧ (shown Y).head? = (source Y).head? := by
  constructor
  · rcases List.eq_nil_or_concat X with rfl | ⟨X, b, rfl⟩
    · rfl
    · cases b with
      | raw c => simp [shown, source]
      | made k w p =>
          have hhere := hapart X k w p (t.map .raw ++ Y) (by rw [hB]; simp)
          simp only [List.concat_eq_append, source_append, source, List.length_append,
            List.length_nil] at hhere
          omega
  · cases Y with
    | nil => rfl
    | cons b Y =>
        cases b with
        | raw c => rfl
        | made k w p =>
            have hhere := hapart (X ++ t.map .raw) k w p Y (by rw [hB]; simp)
            simp only [source_append, source_raw, List.length_append] at hhere
            omega

end Blocks

/-! ## Passes -/

/-- What a pass makes of blocks when its matches keep to the characters; `R` says what is put in
the place of a match. -/
inductive Pass {κ : Type*} (k : κ) (R : List Char → List Char → Prop) :
    List Piece → List (Block κ) → List (Block κ) → Prop
  | nil : Pass k R [] [] []
  | copied {P : List Piece} {B B' : List (Block κ)} (c : Char) (rest : Pass k R P B B') :
      Pass k R (.copied c :: P) (.raw c :: B) (.raw c :: B')
  | kept {P : List Piece} {B B' : List (Block κ)} (j : κ) (w p : List Char)
      (rest : Pass k R P B B') :
      Pass k R (p.map .copied ++ P) (.made j w p :: B) (.made j w p :: B')
  | matched {P : List Piece} {B B' : List (Block κ)} (w p : List Char) (g : Groups)
      (replaced : R w p) (rest : Pass k R P B B') :
      Pass k R (.matched w g :: P) (w.map .raw ++ B) (.made k w p :: B')

section Passes

variable {κ : Type*} {re : Re} {B B' X Y Z : List (Block κ)} {P Q : List Piece}
  {u v w p x y z t : List Char} {c : Char} {k j : κ} {R : List Char → List Char → Prop}

/-- Whatever the pattern can match in the text consists of characters which are still there. -/
def StaysRaw (re : Re) (B : List (Block κ)) : Prop :=
  ∀ x y z, shown B = x ++ (y ++ z) → re.Spans x y z →
    ∃ X Y, B = X ++ (y.map .raw ++ Y) ∧ shown X = x ∧ shown Y = z

/-- The text which pieces become. -/
def fill (f : List Char → List Char) : List Piece → List Char
  | [] => []
  | .copied c :: P => c :: fill f P
  | .matched w _ :: P => f w ++ fill f P

/-- What is copied is filled in as it is. -/
theorem fill_copied (f : List Char → List Char) : fill f (p.map .copied ++ P) = p ++ fill f P := by
  induction p with
  | nil => rfl
  | cons c p ih => simp [fill, ih]

/-- A pass keeps the source. -/
theorem Pass.source_eq (h : Pass k R P B B') : source B' = source B := by
  induction h with
  | nil => rfl
  | copied c _ ih => simp [source, ih]
  | kept j w p _ ih => simp [source, ih]
  | matched w p g _ _ ih => simp [source, ih]

/-- A pass shows what the substitution gives. -/
theorem Pass.shown_eq {f : List Char → List Char} (h : Pass k R P B B')
    (hR : ∀ w p, R w p → f w = p) : shown B' = fill f P := by
  induction h with
  | nil => rfl
  | copied c _ ih => simp [shown, fill, ih]
  | kept j w p _ ih => simp [shown, fill_copied, ih]
  | matched w p g hrp _ ih => simp [shown, fill, ih, hR w p hrp]

/-- What has been put in stays. -/
theorem Pass.keeps (h : Pass k R P (X ++ .made j w p :: Y) B') :
    ∃ X' Y', B' = X' ++ .made j w p :: Y' ∧ source X' = source X ∧ source Y' = source Y := by
  generalize hB : X ++ .made j w p :: Y = B at h
  induction h generalizing X with
  | nil => simp at hB
  | copied c _ ih =>
      cases X with
      | nil => cases hB
      | cons b X =>
          obtain ⟨rfl, hmore⟩ := List.cons.inj hB
          obtain ⟨X', Y', rfl, hX, hY⟩ := ih hmore
          exact ⟨.raw c :: X', Y', rfl, by simp [source, hX], hY⟩
  | kept i u q hrest ih =>
      cases X with
      | nil =>
          obtain ⟨heq, rfl⟩ := List.cons.inj hB
          obtain ⟨rfl, rfl, rfl⟩ := Block.made.inj heq
          exact ⟨[], _, rfl, rfl, hrest.source_eq⟩
      | cons b X =>
          obtain ⟨rfl, hmore⟩ := List.cons.inj hB
          obtain ⟨X', Y', rfl, hX, hY⟩ := ih hmore
          exact ⟨.made i u q :: X', Y', rfl, by simp [source, hX], hY⟩
  | matched u q g _ _ ih =>
      rcases List.append_eq_append_iff.mp hB with ⟨front, hfront, hrest⟩ | ⟨front, rfl, hrest⟩
      · cases front with
        | nil =>
            obtain ⟨X', Y', rfl, hX, hY⟩ := ih (X := []) (by simpa using hrest)
            rw [List.append_nil] at hfront
            refine ⟨.made k u q :: X', Y', rfl, ?_, hY⟩
            rw [source, hX, ← hfront, source_raw]
            simp [source]
        | cons b front =>
            obtain ⟨rfl, _⟩ := List.cons.inj hrest
            exact absurd (hfront ▸ List.mem_append_right _ List.mem_cons_self) made_notMem_raw
      · obtain ⟨X', Y', rfl, hX, hY⟩ := ih hrest.symm
        refine ⟨.made k u q :: X', Y', rfl, ?_, hY⟩
        rw [source, hX, source_append, source_raw]

/-- Where the match begins, and what follows it. -/
theorem scan_kept {before rest : List Char}
    (h : re.scan 0 before (p ++ rest) = p.map .copied ++ P) :
    P = re.scan 0 (p.reverse ++ before) rest := by
  induction p generalizing before with
  | nil => exact h.symm
  | cons c p ih =>
      rw [List.cons_append, Re.scan] at h
      split at h
      · rw [ih (List.cons.inj h).2, List.reverse_cons, List.append_assoc, List.singleton_append]
      · cases h

/-- A stretch in which no match begins is copied. -/
theorem scan_copy {before rest : List Char}
    (h : ∀ p₁ p₂, p = p₁ ++ p₂ → p₂ ≠ [] →
      re.matchFrom (p₁.reverse ++ before) (p₂ ++ rest) = none) :
    re.scan 0 before (p ++ rest) = p.map .copied ++ re.scan 0 (p.reverse ++ before) rest := by
  induction p generalizing before with
  | nil => rfl
  | cons c p ih =>
      have hhere : re.matchFrom before (c :: (p ++ rest)) = none :=
        h [] (c :: p) rfl (List.cons_ne_nil c p)
      rw [List.cons_append, scan_copied hhere, ih fun p₁ p₂ hp hne => ?_, List.reverse_cons,
        List.append_assoc, List.singleton_append]
      · rfl
      · have hthere := h (c :: p₁) p₂ (by rw [hp]; rfl) hne
        rwa [List.reverse_cons, List.append_assoc, List.singleton_append] at hthere

/-- A piece that is a match was found where it begins. -/
theorem scan_found {before rest : List Char} {g : Groups} (hlang : ¬ re.Lang [])
    (h : re.scan 0 before (w ++ rest) = .matched w g :: P) :
    w ≠ [] ∧ (∃ m, re.matchFrom before (w ++ rest) = some m ∧ m.post = rest) ∧
      P = re.scan 0 (w.reverse ++ before) rest := by
  generalize htext : w ++ rest = text at h
  cases text with
  | nil =>
      rw [scan_nil] at h
      cases h
  | cons c text =>
      cases hm : re.matchFrom before (c :: text) with
      | none =>
          rw [scan_copied hm] at h
          cases h
      | some m =>
          obtain ⟨u, hu, hne, _⟩ := spans_of_matchFrom_nonempty hlang hm
          rw [hu] at hm h
          rw [scan_matched hne hm rfl] at h
          obtain ⟨hpiece, hrest⟩ := List.cons.inj h
          obtain rfl := (Piece.matched.inj hpiece).1
          rw [hu, List.append_cancel_left_eq] at htext
          rw [htext]
          exact ⟨hne, ⟨m, rfl, rfl⟩, hrest.symm⟩

/-- A place between two blocks is known by the text before it. -/
theorem Solid.eq_of_shown (hsolid : Solid (X ++ Y)) {X' Y' : List (Block κ)}
    (h : X ++ Y = X' ++ Y') (hshown : shown X = shown X') : X = X' ∧ Y = Y' := by
  rcases List.append_eq_append_iff.mp h with ⟨a, rfl, rfl⟩ | ⟨a, rfl, rfl⟩
  · rw [shown_append, List.self_eq_append_right] at hshown
    rw [hsolid.of_append.2.of_append.1.eq_nil hshown]
    simp
  · rw [shown_append, List.append_right_eq_self] at hshown
    rw [hsolid.of_append.1.of_append.2.eq_nil hshown]
    simp

/-- A place within what has been put in is not one between two blocks. -/
theorem Solid.not_within {p₁ p₂ : List Char} (hsolid : Solid (Z ++ .made j w (p₁ ++ p₂) :: B))
    (hne : p₂ ≠ []) (hy : y ≠ [])
    (h : Z ++ .made j w (p₁ ++ p₂) :: B = X ++ (y.map .raw ++ Y)) : shown X ≠ shown Z ++ p₁ := by
  intro hshown
  rcases List.append_eq_append_iff.mp h with ⟨a, rfl, hrest⟩ | ⟨a, rfl, hrest⟩
  · cases a with
    | nil =>
        obtain ⟨c, y, rfl⟩ := List.exists_cons_of_ne_nil hy
        cases hrest
    | cons b a =>
        obtain ⟨rfl, _⟩ := List.cons.inj hrest
        rw [shown_append, shown, List.append_assoc, List.append_cancel_left_eq] at hshown
        exact hne (List.append_eq_nil_iff.mp (List.append_right_eq_self.mp hshown)).1
  · rw [shown_append, List.append_assoc, List.self_eq_append_right,
      List.append_eq_nil_iff] at hshown
    rw [hsolid.of_append.1.of_append.2.eq_nil hshown.1] at hrest
    obtain ⟨c, y, rfl⟩ := List.exists_cons_of_ne_nil hy
    cases hrest

/-- The scan goes on behind a character which it copied. -/
theorem scan_after_raw
    (h : re.scan 0 (shown Z).reverse (shown (.raw c :: B)) = .copied c :: P) :
    re.scan 0 (shown (Z ++ [.raw c])).reverse (shown B) = P := by
  have hnext := scan_kept (p := [c]) h
  rw [hnext, shown_append, List.reverse_append]
  rfl

/-- The scan goes on behind what has been put in before, where it copied that. -/
theorem scan_after_made
    (h : re.scan 0 (shown Z).reverse (shown (.made j w p :: B)) = p.map .copied ++ P) :
    re.scan 0 (shown (Z ++ [.made j w p])).reverse (shown B) = P := by
  have hnext := scan_kept h
  rw [hnext, shown_append, List.reverse_append, shown, shown, List.append_nil]

/-- The scan goes on behind a match. -/
theorem scan_after_match {g : Groups} (hlang : ¬ re.Lang [])
    (h : re.scan 0 (shown Z).reverse (shown (w.map .raw ++ B)) = .matched w g :: P) :
    re.scan 0 (shown (Z ++ w.map .raw)).reverse (shown B) = P := by
  rw [shown_append, shown_raw] at h
  rw [(scan_found hlang h).2.2, shown_append, shown_raw, List.reverse_append]

/-- **A pass** which keeps to the characters turns blocks into blocks. -/
theorem exists_pass_from (k : κ) (hlang : ¬ re.Lang []) (hsolid : Solid (Z ++ B))
    (hstay : StaysRaw re (Z ++ B))
    (hR : ∀ w g, .matched w g ∈ re.scan 0 (shown Z).reverse (shown B) → ∃ p, R w p) :
    ∃ B', Pass k R (re.scan 0 (shown Z).reverse (shown B)) B B' := by
  induction hn : B.length using Nat.strong_induction_on generalizing Z B with
  | _ n ih =>
      cases B with
      | nil => exact ⟨[], by rw [shown, scan_nil]; exact .nil⟩
      | cons b B =>
          cases b with
          | raw c =>
              have hmore : Z ++ Block.raw c :: B = (Z ++ [.raw c]) ++ B := by simp
              cases hm : re.matchFrom (shown Z).reverse (c :: shown B) with
              | none =>
                  rw [shown, scan_copied hm] at hR ⊢
                  have hnext : c :: (shown Z).reverse = (shown (Z ++ [.raw c])).reverse := by
                    simp [shown]
                  rw [hnext] at hR ⊢
                  obtain ⟨B', hB'⟩ := ih B.length (by simp [← hn]) (by rwa [← hmore])
                    (by rwa [← hmore]) (fun w g hmem => hR w g (List.mem_cons_of_mem _ hmem)) rfl
                  exact ⟨_, .copied c hB'⟩
              | some m =>
                  obtain ⟨w, hw, hne, hspans⟩ := spans_of_matchFrom_nonempty hlang hm
                  rw [List.reverse_reverse] at hspans
                  obtain ⟨X, Y, hX, hshownX, hshownY⟩ :=
                    hstay (shown Z) w m.post (by rw [shown_append, shown, hw]) hspans
                  obtain ⟨rfl, hB⟩ := hsolid.eq_of_shown hX hshownX.symm
                  rw [hB] at hsolid hstay hn ⊢
                  rw [shown, hw] at hR
                  rw [hw] at hm
                  rw [shown_append, shown_raw, hshownY]
                  rw [scan_matched hne hm rfl] at hR ⊢
                  have hnext : w.reverse ++ (shown Z).reverse =
                      (shown (Z ++ w.map .raw)).reverse := by simp
                  rw [hnext, ← hshownY] at hR ⊢
                  rw [← List.append_assoc] at hsolid hstay
                  have hlen : Y.length < n := by
                    rw [← hn, List.length_append, List.length_map]
                    have := List.length_pos_of_ne_nil hne
                    omega
                  obtain ⟨p, hp⟩ := hR w m.groups List.mem_cons_self
                  obtain ⟨B', hB'⟩ := ih Y.length hlen hsolid hstay
                    (fun w g hmem => hR w g (List.mem_cons_of_mem _ hmem)) rfl
                  exact ⟨_, .matched w p m.groups hp hB'⟩
          | made j w p =>
              have hmore : Z ++ Block.made j w p :: B = (Z ++ [.made j w p]) ++ B := by simp
              have hcopy : re.scan 0 (shown Z).reverse (p ++ shown B) =
                  p.map .copied ++ re.scan 0 (p.reverse ++ (shown Z).reverse) (shown B) := by
                apply scan_copy
                rintro p₁ p₂ rfl hne
                rw [Option.eq_none_iff_forall_ne_some]
                intro m hm
                obtain ⟨y, hy, hyne, hspans⟩ := spans_of_matchFrom_nonempty hlang hm
                rw [List.reverse_append, List.reverse_reverse, List.reverse_reverse] at hspans
                obtain ⟨X, Y, hX, hshownX, _⟩ := hstay (shown Z ++ p₁) y m.post
                  (by rw [← hy, shown_append, shown]; simp) hspans
                exact hsolid.not_within hne hyne hX hshownX
              rw [shown, hcopy] at hR ⊢
              have hnext : p.reverse ++ (shown Z).reverse =
                  (shown (Z ++ [.made j w p])).reverse := by simp [shown]
              rw [hnext] at hR ⊢
              obtain ⟨B', hB'⟩ := ih B.length (by simp [← hn]) (by rwa [← hmore])
                (by rwa [← hmore]) (fun w g hmem => hR w g (List.mem_append_right _ hmem)) rfl
              exact ⟨_, .kept j w p hB'⟩

/-- Where no match cuts through a block, the substitution is a pass over the blocks. -/
theorem exists_pass (k : κ) (hlang : ¬ re.Lang []) (hsolid : Solid B) (hstay : StaysRaw re B)
    (hR : ∀ w g, .matched w g ∈ re.pieces (shown B) → ∃ p, R w p) :
    ∃ B', Pass k R (re.pieces (shown B)) B B' :=
  exists_pass_from (Z := []) k hlang hsolid hstay hR

/-- The match of a piece is one of the texts which the pattern can match there. -/
theorem scan_found_spans {g : Groups} (hlang : ¬ re.Lang [])
    (h : re.scan 0 (shown Z).reverse (w ++ y) = .matched w g :: P) :
    re.Spans (shown Z) w y := by
  obtain ⟨_, ⟨m, hm, rfl⟩, _⟩ := scan_found hlang h
  obtain ⟨u, hu, hspans⟩ := spans_of_matchFrom hm
  rw [List.reverse_reverse] at hspans
  rwa [List.append_cancel_right hu]

/-- What has been put in after a pass was there before, or stands for a match. -/
theorem Pass.block_cases (hlang : ¬ re.Lang []) (h : Pass k R P B B')
    (hP : re.scan 0 (shown Z).reverse (shown B) = P) (hB' : B' = X ++ .made j w p :: Y) :
    (∃ X₁ Y₁, B = X₁ ++ .made j w p :: Y₁ ∧ source X₁ = source X ∧ source Y₁ = source Y) ∨
      (j = k ∧ R w p ∧ ∃ X₁ Y₁, B = X₁ ++ (w.map .raw ++ Y₁) ∧ source X₁ = source X ∧
        source Y₁ = source Y ∧ re.Spans (shown (Z ++ X₁)) w (shown Y₁)) := by
  induction h generalizing Z X with
  | nil => simp at hB'
  | copied c rest ih =>
      cases X with
      | nil => cases hB'
      | cons b X =>
          obtain ⟨rfl, hmore⟩ := List.cons.inj hB'
          have hnext := scan_after_raw hP
          rcases ih hnext hmore with ⟨X₁, Y₁, rfl, hX, hY⟩ | ⟨hj, hr, X₁, Y₁, rfl, hX, hY, hspans⟩
          · exact .inl ⟨.raw c :: X₁, Y₁, rfl, by simp [source, hX], hY⟩
          · refine .inr ⟨hj, hr, .raw c :: X₁, Y₁, rfl, by simp [source, hX], hY, ?_⟩
            simpa using hspans
  | kept i u q rest ih =>
      cases X with
      | nil =>
          obtain ⟨heq, rfl⟩ := List.cons.inj hB'
          obtain ⟨rfl, rfl, rfl⟩ := Block.made.inj heq
          exact .inl ⟨[], _, rfl, rfl, rest.source_eq.symm⟩
      | cons b X =>
          obtain ⟨rfl, hmore⟩ := List.cons.inj hB'
          have hnext := scan_after_made hP
          rcases ih hnext hmore with ⟨X₁, Y₁, rfl, hX, hY⟩ | ⟨hj, hr, X₁, Y₁, rfl, hX, hY, hspans⟩
          · exact .inl ⟨.made i u q :: X₁, Y₁, rfl, by simp [source, hX], hY⟩
          · refine .inr ⟨hj, hr, .made i u q :: X₁, Y₁, rfl, by simp [source, hX], hY, ?_⟩
            simpa using hspans
  | matched u q g hr rest ih =>
      have hnext := scan_after_match hlang hP
      rw [shown_append, shown_raw] at hP
      cases X with
      | nil =>
          obtain ⟨heq, rfl⟩ := List.cons.inj hB'
          obtain ⟨rfl, rfl, rfl⟩ := Block.made.inj heq
          refine .inr ⟨rfl, hr, [], _, rfl, rfl, rest.source_eq.symm, ?_⟩
          rw [List.append_nil]
          exact scan_found_spans hlang hP
      | cons b X =>
          obtain ⟨rfl, hmore⟩ := List.cons.inj hB'
          rcases ih hnext hmore with ⟨X₁, Y₁, rfl, hX, hY⟩ | ⟨hj, hr', X₁, Y₁, rfl, hX, hY, hspans⟩
          · exact .inl ⟨u.map .raw ++ X₁, Y₁, by simp, by simp [source, hX], hY⟩
          · refine .inr ⟨hj, hr', u.map .raw ++ X₁, Y₁, by simp, by simp [source, hX], hY, ?_⟩
            simpa using hspans

/-- **A match is found** where no other reaches over its start, and becomes a block. -/
theorem Pass.found (hlang : ¬ re.Lang []) (h : Pass k R P B B')
    (hP : re.scan 0 (shown Z).reverse (shown B) = P) (hB : B = X ++ (t.map .raw ++ Y))
    (ht : t ≠ [])
    (hbefore : ∀ X₂ y Y₂, Z ++ B = X₂ ++ (y.map .raw ++ Y₂) →
      re.Spans (shown X₂) y (shown Y₂) → X₂.length < (Z ++ X).length →
        X₂.length + y.length ≤ (Z ++ X).length)
    (hmatch : ∃ m, re.matchFrom (shown (Z ++ X)).reverse (t ++ shown Y) = some m ∧
      m.post = shown Y) :
    ∃ X' p Y', B' = X' ++ .made k t p :: Y' ∧ R t p ∧ source X' = source X ∧
      source Y' = source Y := by
  induction h generalizing Z X with
  | nil =>
      obtain ⟨c, t, rfl⟩ := List.exists_cons_of_ne_nil ht
      simp at hB
  | copied c rest ih =>
      cases X with
      | nil =>
          obtain ⟨d, t, rfl⟩ := List.exists_cons_of_ne_nil ht
          obtain ⟨m, hm, hpost⟩ := hmatch
          rw [hB, shown_append, shown_append, shown_raw, shown, List.nil_append] at hP
          rw [List.append_nil] at hm
          rw [scan_matched ht hm hpost] at hP
          cases hP
      | cons b X =>
          obtain ⟨rfl, hmore⟩ := List.cons.inj hB
          have hnext := scan_after_raw hP
          obtain ⟨X', p, Y', rfl, hr, hX, hY⟩ := ih hnext hmore (by simpa using hbefore)
            (by simpa using hmatch)
          exact ⟨.raw c :: X', p, Y', rfl, hr, by simp [source, hX], hY⟩
  | kept i u q rest ih =>
      cases X with
      | nil =>
          obtain ⟨d, t, rfl⟩ := List.exists_cons_of_ne_nil ht
          cases hB
      | cons b X =>
          obtain ⟨rfl, hmore⟩ := List.cons.inj hB
          have hnext := scan_after_made hP
          obtain ⟨X', p, Y', rfl, hr, hX, hY⟩ := ih hnext hmore (by simpa using hbefore)
            (by simpa using hmatch)
          exact ⟨.made i u q :: X', p, Y', rfl, hr, by simp [source, hX], hY⟩
  | @matched P B B' u q g hr rest ih =>
      have hnext := scan_after_match hlang hP
      rw [shown_append, shown_raw] at hP
      obtain ⟨hne, ⟨m, hm, hpost⟩, _⟩ := scan_found hlang hP
      have hspans := scan_found_spans hlang hP
      -- the match is another one, before the one we look for
      have hlater : ∀ X₁, X = u.map .raw ++ X₁ → B = X₁ ++ (t.map .raw ++ Y) →
          ∃ X' p Y', .made k u q :: B' = X' ++ .made k t p :: Y' ∧ R t p ∧
            source X' = source X ∧ source Y' = source Y := by
        rintro X₁ rfl hmore
        obtain ⟨X', p, Y', rfl, hr, hX, hY⟩ := ih hnext hmore (by simpa using hbefore)
          (by simpa using hmatch)
        exact ⟨.made k u q :: X', p, Y', rfl, hr, by simp [source, hX], hY⟩
      rcases List.append_eq_append_iff.mp hB with ⟨a, hX, hmore⟩ | ⟨a, hu, hmore⟩
      · exact hlater a hX hmore
      · cases X with
        | nil =>
            obtain ⟨m', hm', hpost'⟩ := hmatch
            rw [List.append_nil] at hm'
            have htext : u ++ shown B = t ++ shown Y := by
              have hall := congrArg shown hB
              simpa using hall
            rw [htext, hm'] at hm
            obtain rfl := Option.some.inj hm
            have hsame : shown B = shown Y := hpost.symm.trans hpost'
            rw [hsame] at htext
            obtain rfl := List.append_cancel_right htext
            have hY : B = Y := List.append_cancel_left hB
            exact ⟨[], q, B', rfl, hr, rfl, by rw [rest.source_eq, hY]⟩
        | cons b X =>
            have hle := hbefore Z u B rfl hspans (by simp)
            have hlen := congrArg List.length hu
            simp only [List.length_map, List.length_append, List.length_cons] at hle hlen
            have hnil : a = [] := List.length_eq_zero_iff.mp (by omega)
            subst hnil
            exact hlater [] (by simpa using hu.symm) (by simpa using hmore.symm)

/-- Where a pass keeps what has been put in, it finds no match at its start. -/
theorem Pass.not_found (h : Pass k R P B B')
    (hP : re.scan 0 (shown Z).reverse (shown B) = P) (hB : B = X ++ .made j w p :: Y)
    (hp : p ≠ []) (hlang : ¬ re.Lang []) :
    re.matchFrom (shown (Z ++ X)).reverse (p ++ shown Y) = none := by
  induction h generalizing Z X with
  | nil => simp at hB
  | copied c rest ih =>
      cases X with
      | nil => cases hB
      | cons b X =>
          obtain ⟨rfl, hmore⟩ := List.cons.inj hB
          have hnext := scan_after_raw hP
          simpa using ih hnext hmore
  | kept i u q rest ih =>
      cases X with
      | nil =>
          obtain ⟨heq, rfl⟩ := List.cons.inj hB
          obtain ⟨rfl, rfl, rfl⟩ := Block.made.inj heq
          obtain ⟨c, q, rfl⟩ := List.exists_cons_of_ne_nil hp
          rw [List.append_nil, Option.eq_none_iff_forall_ne_some]
          intro m hm
          obtain ⟨y, hy, hne, _⟩ := spans_of_matchFrom_nonempty hlang hm
          rw [hy] at hm
          rw [shown, hy, scan_matched hne hm rfl] at hP
          cases hP
      | cons b X =>
          obtain ⟨rfl, hmore⟩ := List.cons.inj hB
          have hnext := scan_after_made hP
          simpa using ih hnext hmore
  | matched u q g hr rest ih =>
      have hnext := scan_after_match hlang hP
      rcases List.append_eq_append_iff.mp hB with ⟨a, rfl, hmore⟩ | ⟨a, hu, hmore⟩
      · simpa using ih hnext hmore
      · cases a with
        | nil =>
            rw [List.append_nil] at hu
            subst hu
            simpa using ih (X := []) hnext (by simpa using hmore.symm)
        | cons b a =>
            obtain ⟨rfl, _⟩ := List.cons.inj hmore
            exact absurd (hu ▸ List.mem_append_right _ List.mem_cons_self) made_notMem_raw

end Passes

end BacktrackingRegex
