import FaultOracle.AnonymizedTokens

/-!
# A run through the passes

Each pass works on what the earlier ones have made of a run.  `Clear` says of a run, as it
stands in the text, when they do not get in each other's way: no earlier pattern can match at a
token, and no later one at a placeholder.  Then every pass keeps to characters which are still
those of the text, and puts a placeholder in the place of each token of its kind
(`replaced_of_clear`).
-/

namespace FaultOracle.Anonymize

open BacktrackingRegex
open FaultOracle.Trace (Text isHexDigit)

/-! ## When the passes keep apart -/

/-- The stretch `w` behind `u` and the stretch `w'` behind `u'` have no character in common. -/
def Apart (u w u' w' : Text) : Prop :=
  u.length + w.length ≤ u'.length ∨ u'.length + w'.length ≤ u.length

/-- They do not even touch. -/
def WellApart (u w u' w' : Text) : Prop :=
  u.length + w.length < u'.length ∨ u'.length + w'.length < u.length

section Clear

variable (U : WordTables) (k : Kind) (u t w v run : Text)

/-- The pattern of the kind can match `w`, in which no token of an earlier kind has a part. -/
structure Free : Prop where
  spans : (k.pattern U).Spans u w v
  free : ∀ (j : Kind) (u' t v' : Text), j.rank < k.rank → u' ++ (t ++ v') = u ++ (w ++ v) →
    Stands U j u' t v' → Apart u' t u w

/-- Between the texts, no later pattern can match in a placeholder of the kind, whatever its
number. -/
def Undisturbed : Prop :=
  ∀ (n : Nat) (j : Kind) (x y z : Text), k.rank < j.rank →
    u ++ (placeholder k.start n ++ v) = x ++ (y ++ z) → (j.pattern U).Spans x y z →
      Apart x y u (placeholder k.start n)

/-- The token is left to its own pattern, which finds it whole. -/
structure Sole : Prop where
  /-- No earlier pattern can match next to it or in it. -/
  earlier : ∀ (j : Kind) (u' w v' : Text), j.rank < k.rank → u' ++ (w ++ v') = u ++ (t ++ v) →
    Free U j u' w v' → WellApart u' w u t
  /-- Its own pattern can match nothing that begins before it and goes on in it. -/
  first : ∀ u' w v' : Text, u' ++ (w ++ v') = u ++ (t ++ v) → Free U k u' w v' →
    u'.length < u.length → u'.length + w.length ≤ u.length
  /-- An IPv6 address has a form of which the pattern finds all. -/
  whole : k = .ipv6 → WholeIpv6 t

/-- The passes do not get in each other's way in the run. -/
structure Clear : Prop where
  sole : ∀ k u t v, run = u ++ (t ++ v) → Stands U k u t v → Sole U k u t v
  undisturbed : ∀ k u w v, run = u ++ (w ++ v) → Free U k u w v → Undisturbed U k u v

end Clear

/-! ## What the passes make of a run -/

/-- The memo has the placeholder for the text. -/
def Recorded (U : WordTables) (memo : List (Text × Text)) (w p : Text) : Prop :=
  memo.lookup (U.lower w) = some p

/-- One pass after the other turns blocks into blocks, none of them reaching into what an earlier
one has put in. -/
inductive Through (U : WordTables) (memo : Kind → List (Text × Text)) :
    List Kind → List (Block Kind) → List (Block Kind) → Prop
  | done (B : List (Block Kind)) : Through U memo [] B B
  | next {k : Kind} {ks : List Kind} {B B' B'' : List (Block Kind)}
      (pass : Pass k (Recorded U (memo k)) ((k.pattern U).pieces (shown B)) B B')
      (rest : Through U memo ks B' B'') : Through U memo (k :: ks) B B''

/-- The token has become a block, with the placeholder recorded for it. -/
def IsBlock (U : WordTables) (memo : Kind → List (Text × Text)) (B : List (Block Kind)) (k : Kind)
    (u t v : Text) : Prop :=
  ∃ X p Y, B = X ++ .made k t p :: Y ∧ source X = u ∧ source Y = v ∧ Recorded U (memo k) t p

/-- The passes take the run to `out` so that every token in it has a placeholder in the end, which
is all that is left of it. -/
def Replaced (U : WordTables) (memo : Kind → List (Text × Text)) (run out : Text) : Prop :=
  ∃ B, Through U memo Kind.order (run.map .raw) B ∧ shown B = out ∧
    ∀ k u t v, run = u ++ (t ++ v) → Stands U k u t v → IsBlock U memo B k u t v

/-- What holds of the blocks after the first `r` passes. -/
structure Reached (U : WordTables) (memo : Kind → List (Text × Text)) (run : Text) (r : Nat)
    (B : List (Block Kind)) : Prop where
  source_eq : source B = run
  made : ∀ X k w p Y, B = X ++ .made k w p :: Y →
    k.rank < r ∧ Recorded U (memo k) w p ∧ Free U k (source X) w (source Y)
  tokens : ∀ k u t v, k.rank < r → run = u ++ (t ++ v) → Stands U k u t v → IsBlock U memo B k u t v

/-- Only numbered placeholders are recorded. -/
def Numbered (memo : Kind → List (Text × Text)) : Prop :=
  ∀ k key p, (memo k).lookup key = some p → ∃ n, p = placeholder k.start n

section Blocks

variable {U : WordTables} {memo : Kind → List (Text × Text)} {run t u v w p : Text} {k j : Kind}
  {n r : Nat} {B B' X Y : List (Block Kind)}

theorem Free.ne_nil (h : Free U k u w v) : w ≠ [] := by
  rintro rfl
  exact pattern_nonempty U k h.spans.lang

theorem Stands.ne_nil (h : Stands U k u t v) : t ≠ [] := by
  rintro rfl
  have hmarks := marks_of_address k h.address
  cases k <;> cases hmarks

/-- The placeholder of a PCI address begins with what the IPv6 pattern can match. -/
theorem bdf_spans (n : Nat) (v : Text) (hbefore : Stops U.isWord u.reverse) :
    ∃ rest, placeholder Kind.bdf.start n ++ v = "0000:aa:bb".toList ++ rest ∧
      (reIpv6 U).Spans u "0000:aa:bb".toList rest := by
  have hgroups : ∀ g ∈ ["0000".toList, "aa".toList], IsHexGroup g :=
    List.forall_mem_cons.mpr ⟨by decide, List.forall_mem_singleton.mpr (by decide)⟩
  have hlang : (reIpv6Full U).Lang "0000:aa:bb".toList :=
    lang_reIpv6Full.mpr ⟨_, "bb".toList, by decide, hgroups, by decide, rfl⟩
  have hstart : Kind.bdf.start = "0000:aa:bb".toList ++ ['.'] := by decide
  refine ⟨'.' :: ((PythonFloats.padded 3 n).toList ++ v), by rw [placeholder, hstart]; simp, ?_⟩
  exact (spans_iff (k := .ipv6)).mpr
    (Or.inl ⟨hlang, hbefore, stops_cons.mpr (not_word_dot U)⟩)

/-- The placeholder of a PCI address is always disturbed by a later pass. -/
theorem bdf_disturbed (h : (reBdf U).Spans u w v) : ¬ Undisturbed U .bdf u v := by
  intro hundisturbed
  have hbefore : Stops U.isWord u.reverse := by
    rcases (spans_iff (k := .bdf)).mp h with ⟨_, hbefore, _⟩ | ⟨heq, _⟩
    · exact hbefore
    · cases heq
  obtain ⟨rest, hrest, hspans⟩ := bdf_spans 0 v hbefore
  rcases hundisturbed 0 .ipv6 u "0000:aa:bb".toList rest (by decide) (by rw [hrest]) hspans
    with hle | hle
  · exact absurd hle (by simp)
  · have hlen := List.length_pos_of_ne_nil (bordered_placeholder U .bdf 0).ne_nil
    omega

/-- Where the shown text does not go on, neither does the source. -/
theorem stops_source (hB : ∀ k w p, .made k w p ∈ B → Bordered U p)
    (h : Stops U.isWord (shown B)) : Stops U.isWord (source B) := by
  cases B with
  | nil => exact stops_nil
  | cons b B =>
      cases b with
      | raw c => exact stops_cons.mpr (stops_cons.mp h)
      | made k w p =>
          obtain ⟨c, p, rfl, hc⟩ := (hB k w p List.mem_cons_self).1
          rw [shown, List.cons_append, stops_cons, hc] at h
          cases h

/-- The same towards the front. -/
theorem stops_source_reverse (hB : ∀ k w p, .made k w p ∈ B → Bordered U p)
    (h : Stops U.isWord (shown B).reverse) : Stops U.isWord (source B).reverse := by
  rcases List.eq_nil_or_concat B with rfl | ⟨B, b, rfl⟩
  · exact stops_nil
  · rw [List.concat_eq_append] at hB h ⊢
    cases b with
    | raw c => simpa [shown, source] using h
    | made k w p =>
        obtain ⟨p, c, rfl, hc⟩ := (hB k w p (by simp)).2
        simp [shown, hc] at h

end Blocks

section Reached

variable {U : WordTables} {memo : Kind → List (Text × Text)} {run t u v w p : Text} {k j : Kind}
  {n r : Nat} {B B' X Y : List (Block Kind)}

/-- Before the first pass every character is its own. -/
theorem reached_raw (U : WordTables) (memo : Kind → List (Text × Text)) (run : Text) :
    Reached U memo run 0 (run.map .raw) where
  source_eq := source_raw
  made := by
    intro X k w p Y hB
    have hmem : Block.made k w p ∈ run.map (Block.raw : Char → Block Kind) := by
      rw [hB]
      simp
    simp at hmem
  tokens := fun _ _ _ _ hrank => absurd hrank (Nat.not_lt_zero _)

/-- A block replaced so far comes from a match, and its placeholder has word borders. -/
theorem Reached.block (hmemo : Numbered memo) (h : Reached U memo run r B) {k : Kind}
    (hmem : .made k w p ∈ B) : w ≠ [] ∧ Bordered U p := by
  obtain ⟨X, Y, hB⟩ := List.append_of_mem hmem
  obtain ⟨_, hp, hfree⟩ := h.made X k w p Y hB
  obtain ⟨n, rfl⟩ := hmemo k _ _ hp
  exact ⟨hfree.ne_nil, bordered_placeholder U k n⟩

/-- No block replaced so far is empty. -/
theorem Reached.solid (hmemo : Numbered memo) (h : Reached U memo run r B) : Solid B :=
  fun _ _ _ hmem => ⟨(h.block hmemo hmem).1, (h.block hmemo hmem).2.ne_nil⟩

/-- In a clear run, what has been put in is undisturbed, and not for a PCI address. -/
theorem Reached.undisturbed (hmemo : Numbered memo) (hclear : Clear U run)
    (h : Reached U memo run r B) (hB : B = X ++ .made j w p :: Y) :
    j.rank < r ∧ j ≠ .bdf ∧ ∃ n, p = placeholder j.start n ∧
      Undisturbed U j (source X) (source Y) := by
  obtain ⟨hrank, hp, hfree⟩ := h.made X j w p Y hB
  have hrun : run = source X ++ (w ++ source Y) := by
    rw [← h.source_eq, hB, source_append]
    rfl
  have hundisturbed := hclear.undisturbed j _ _ _ hrun hfree
  refine ⟨hrank, ?_, (hmemo j _ _ hp).imp fun n hn => ⟨hn, hundisturbed⟩⟩
  rintro rfl
  exact bdf_disturbed hfree.spans hundisturbed

/-- What can match among the blocks can match in the text. -/
theorem Reached.free (hmemo : Numbered memo) (h : Reached U memo run k.rank B)
    (hB : B = X ++ (w.map .raw ++ Y)) (hspans : (k.pattern U).Spans (shown X) w (shown Y)) :
    Free U k (source X) w (source Y) := by
  constructor
  · refine spans_transfer hspans (stops_source_reverse ?_) (stops_source ?_)
    · intro k w p hmem
      exact (h.block hmemo (by rw [hB]; exact List.mem_append_left _ hmem)).2
    · intro k w p hmem
      exact (h.block hmemo
        (by rw [hB]; exact List.mem_append_right _ (List.mem_append_right _ hmem))).2
  · intro j u' t v' hrank hsplit hstands
    have hrun : run = u' ++ (t ++ v') := by
      rw [hsplit, ← h.source_eq, hB]
      simp
    obtain ⟨X', p, Y', hB', rfl, _⟩ := h.tokens j u' t v' hrank hrun hstands
    exact (raw_apart (hB.symm.trans hB')).symm

/-- No match begins within a placeholder. -/
theorem Reached.none_within {p₁ p₂ y z : Text} {Z : List (Block Kind)}
    (hmemo : Numbered memo) (hclear : Clear U run)
    (h : Reached U memo run k.rank (X ++ .made j w (p₁ ++ p₂) :: Z)) (hp₁ : p₁ ≠ [])
    (hp₂ : p₂ ≠ []) (hz : y ++ z = p₂ ++ shown Z) :
    ¬ (k.pattern U).Spans (shown X ++ p₁) y z := by
  intro hspans
  have hsolid := h.solid hmemo
  obtain ⟨hrank, hj, n, hplace, hundisturbed⟩ := h.undisturbed hmemo hclear rfl
  have hbordered : ∀ {k w p}, .made k w p ∈ Z → Bordered U p :=
    fun hmem => (h.block hmemo (List.mem_append_right _ (List.mem_cons_of_mem _ hmem))).2
  have hbefore : Stops U.isWord (shown X ++ p₁).reverse →
      Stops U.isWord (source X ++ p₁).reverse := by
    obtain ⟨q, c, rfl⟩ := (List.eq_nil_or_concat p₁).resolve_left hp₁
    simp
  have hy : y ≠ [] := by
    rintro rfl
    exact pattern_nonempty U k hspans.lang
  -- a match in the text with the placeholder put in begins at its second part
  have hwithin : ∀ s, y ++ s = p₂ ++ source Z →
      ¬ (k.pattern U).Spans (source X ++ p₁) y s := by
    intro s hs hspans'
    have hp := List.length_pos_of_ne_nil hp₂
    have hlen := List.length_pos_of_ne_nil hy
    rcases hundisturbed n k (source X ++ p₁) y s hrank
      (by rw [← hplace, hs]; simp) hspans' with hle | hle
    · simp only [List.length_append] at hle
      omega
    · rw [← hplace] at hle
      simp only [List.length_append] at hle
      omega
  rcases List.append_eq_append_iff.mp hz with ⟨rest, rfl, rfl⟩ | ⟨more, rfl, hmore⟩
  · refine hwithin (rest ++ source Z) (by simp) (spans_transfer hspans hbefore ?_)
    intro hstops
    cases rest with
    | nil => exact stops_source (fun _ _ _ => hbordered) hstops
    | cons c rest => exact stops_cons.mpr (stops_cons.mp hstops)
  · rcases shown_walk hsolid.of_append.2.of_cons hmore with
      ⟨Y, rfl, rfl⟩ | ⟨a, b, j', w', p', Y, rfl, rfl, hb, hp⟩
    · refine hwithin (source Y) (by simp) (spans_transfer hspans hbefore ?_)
      exact stops_source fun _ _ _ hmem => hbordered (List.mem_append_right _ hmem)
    · -- it goes on into the next one
      have hnext : X ++ .made j w (p₁ ++ p₂) :: (a.map .raw ++ .made j' w' p' :: Y) =
          (X ++ .made j w (p₁ ++ p₂) :: a.map .raw) ++ .made j' w' p' :: Y := by simp
      obtain ⟨hrank', hj', n', rfl, _⟩ := h.undisturbed hmemo hclear hnext
      rw [← List.append_assoc] at hspans
      obtain ⟨_, rfl, hleading, _⟩ := entering hrank' hj' hspans hb hp
      rw [List.append_assoc] at hleading
      exact not_leading_within hrank hp₂ hplace.symm hleading

/-- **No match reaches into a placeholder** in a clear run. -/
theorem Reached.staysRaw (hmemo : Numbered memo) (hclear : Clear U run)
    (h : Reached U memo run k.rank B) : StaysRaw (k.pattern U) B := by
  intro x y z hshown hspans
  have hsolid := h.solid hmemo
  rcases shown_split hshown with ⟨X, Z, rfl, rfl, hZ⟩ | ⟨X, j, w, p₁, p₂, Z, hB, hp₁, hp₂, rfl, hz⟩
  · rcases shown_walk hsolid.of_append.2 hZ with
      ⟨Y, rfl, rfl⟩ | ⟨a, b, j, w, p, Y, rfl, rfl, hb, hp⟩
    · exact ⟨X, Y, rfl, rfl, rfl⟩
    · -- it comes into the placeholder from outside
      exfalso
      obtain ⟨hrank, hj, n, rfl, hundisturbed⟩ :=
        h.undisturbed hmemo hclear (List.append_assoc X (a.map .raw) (.made j w p :: Y)).symm
      obtain ⟨rfl, rfl, hleading, rest, hrest⟩ := entering hrank hj hspans hb hp
      have hlen := List.length_pos_of_ne_nil hb
      rcases hundisturbed n .ipv6 (source X) (a ++ b) (rest ++ source Y) hrank
        (by rw [hrest]; simp) (spans_iff.mpr (Or.inr ⟨rfl, Or.inl hleading⟩)) with hle | hle
      · simp only [source_append, source_raw, List.length_append] at hle
        omega
      · rw [hrest] at hle
        simp only [source_append, source_raw, List.length_append] at hle
        omega
  · subst hB
    exact absurd hspans (h.none_within hmemo hclear hp₁ hp₂ hz)

end Reached

/-! ## One pass and all passes -/

section Steps

variable {U : WordTables} {memo : Kind → List (Text × Text)} {run t u v w p out : Text}
  {k j : Kind} {n r : Nat} {B B' X Y : List (Block Kind)}

/-- Each pass has its own place in the order. -/
theorem rank_injective (h : j.rank = k.rank) : j = k := by
  cases j <;> cases k <;> first | rfl | cases h

/-- A token comes to its pass as it is, and becomes a block there. -/
theorem Reached.found (hmemo : Numbered memo) (hclear : Clear U run)
    (h : Reached U memo run k.rank B)
    (hpass : Pass k (Recorded U (memo k)) ((k.pattern U).pieces (shown B)) B B')
    (hrun : run = u ++ (t ++ v)) (hstands : Stands U k u t v) : IsBlock U memo B' k u t v := by
  have hsole := hclear.sole k u t v hrun hstands
  have hsource : source B = u ++ (t ++ v) := by rw [h.source_eq, hrun]
  have hapart : ∀ X j w p Y, B = X ++ .made j w p :: Y →
      (source X).length + w.length < u.length ∨ u.length + t.length < (source X).length := by
    intro X j w p Y hB
    obtain ⟨hrank, _, hfree⟩ := h.made X j w p Y hB
    refine hsole.earlier j (source X) w (source Y) hrank ?_ hfree
    rw [← hsource, hB, source_append]
    rfl
  obtain ⟨X, Y, hB, rfl, rfl⟩ := exists_raw (h.solid hmemo) hsource hstands.ne_nil hapart
  obtain ⟨hleft, hright⟩ := head_of_apart hB hapart
  have hthere : Stands U k (shown X) t (shown Y) :=
    ⟨hstands.address, by rw [Stops, hleft]; exact hstands.begins,
      by rw [Stops, hright]; exact hstands.ends⟩
  have hbefore : ∀ X₂ y Y₂, [] ++ B = X₂ ++ (y.map .raw ++ Y₂) →
      (k.pattern U).Spans (shown X₂) y (shown Y₂) → X₂.length < ([] ++ X).length →
        X₂.length + y.length ≤ ([] ++ X).length := by
    intro X₂ y Y₂ hB₂ hspans hlt
    rw [List.nil_append] at hB₂ hlt ⊢
    have hfree := h.free hmemo hB₂ hspans
    have hrun₂ : source X₂ ++ (y ++ source Y₂) = source X ++ (t ++ source Y) := by
      rw [← hsource, hB₂]
      simp
    rcases List.append_eq_append_iff.mp (hB.symm.trans hB₂) with ⟨a, rfl, _⟩ | ⟨a, rfl, hmore⟩
    · simp only [List.length_append] at hlt
      omega
    · rcases List.append_eq_append_iff.mp hmore with ⟨b, rfl, _⟩ | ⟨b, hy, _⟩
      · simp
      · -- what is left of the match would be a part of the token
        obtain ⟨y₁, y₂, rfl, rfl, rfl⟩ := List.map_eq_append_iff.mp hy
        have hle := hsole.first (source X₂) (y₁ ++ y₂) (source Y₂) hrun₂ hfree
        simp only [source_append, source_raw, List.length_append, List.length_map] at hle hlt ⊢
        omega
  obtain ⟨X', p, Y', hB', hp, hX, hY⟩ := hpass.found (Z := []) (pattern_nonempty U k) rfl hB
    hstands.ne_nil hbefore (match_token hthere hsole.whole)
  exact ⟨X', p, Y', hB', hX, hY, hp⟩

/-- **A pass over a clear run.** -/
theorem Reached.step (hmemo : Numbered memo) (hclear : Clear U run)
    (h : Reached U memo run k.rank B)
    (hrecorded : ∀ w g, .matched w g ∈ (k.pattern U).pieces (shown B) →
      ∃ p, Recorded U (memo k) w p) :
    ∃ B', Pass k (Recorded U (memo k)) ((k.pattern U).pieces (shown B)) B B' ∧
      Reached U memo run (k.rank + 1) B' := by
  obtain ⟨B', hpass⟩ := exists_pass k (pattern_nonempty U k) (h.solid hmemo)
    (h.staysRaw hmemo hclear) hrecorded
  refine ⟨B', hpass, hpass.source_eq.trans h.source_eq, ?_, ?_⟩
  · intro X j w p Y hB'
    rcases hpass.block_cases (Z := []) (pattern_nonempty U k) rfl hB' with
      ⟨X₁, Y₁, hB, hX, hY⟩ | ⟨rfl, hp, X₁, Y₁, hB, hX, hY, hspans⟩
    · obtain ⟨hrank, hp, hfree⟩ := h.made X₁ j w p Y₁ hB
      rw [← hX, ← hY]
      exact ⟨Nat.lt_succ_of_lt hrank, hp, hfree⟩
    · rw [← hX, ← hY]
      exact ⟨Nat.lt_succ_self _, hp, h.free hmemo hB hspans⟩
  · intro j u t v hrank hrun hstands
    rcases Nat.lt_succ_iff_lt_or_eq.mp hrank with hlt | heq
    · obtain ⟨X, p, Y, rfl, rfl, rfl, hp⟩ := h.tokens j u t v hlt hrun hstands
      obtain ⟨X', Y', hB', hX, hY⟩ := hpass.keeps
      exact ⟨X', p, Y', hB', hX, hY, hp⟩
    · obtain rfl := rank_injective heq
      exact h.found hmemo hclear hpass hrun hstands

end Steps

section Following

variable {U : WordTables} {k : Kind} {last : Kind → Replacer} {run out : Text}
  {B : List (Block Kind)}

/-- What is looked up for a match. -/
def lookedUp (U : WordTables) (memo : List (Text × Text)) (w : Text) : Text :=
  (memo.lookup (U.lower w)).getD []

/-- A pass forgets nothing of its memo. -/
theorem Replacer.extends_substitute (U : WordTables) (k : Kind) (P : List Piece) (r : Replacer) :
    r.Extends (substitute (Replacer.replace U.lower k.start) r P).1 := by
  induction P generalizing r with
  | nil => exact fun _ _ h => h
  | cons piece P ih =>
      cases piece with
      | copied c => exact ih r
      | matched w g =>
          intro key made hmade
          exact ih _ key made (Replacer.extends_replace k.start g key made hmade)

/-- What a replacer puts in is what the memo has in the end. -/
theorem substitute_eq_fill {memo : List (Text × Text)} (P : List Piece) (r : Replacer)
    (hmemo : ∀ key made, (substitute (Replacer.replace U.lower k.start) r P).1.memo.lookup key =
      some made → memo.lookup key = some made) :
    (substitute (Replacer.replace U.lower k.start) r P).2 = fill (lookedUp U memo) P ∧
      ∀ w g, .matched w g ∈ P → ∃ p, Recorded U memo w p := by
  induction P generalizing r with
  | nil => exact ⟨rfl, by simp⟩
  | cons piece P ih =>
      cases piece with
      | copied c =>
          obtain ⟨hfill, hrecorded⟩ := ih r hmemo
          refine ⟨by rw [substitute, fill, hfill], ?_⟩
          intro w g hmem
          exact hrecorded w g (by simpa using hmem)
      | matched w g =>
          obtain ⟨hfill, hrecorded⟩ := ih (r.replace U.lower k.start w g).1 hmemo
          have hw : memo.lookup (U.lower w) = some (r.replace U.lower k.start w g).2 :=
            hmemo _ _ (Replacer.extends_substitute U k P _ _ _
              (Replacer.lookup_replace k.start g))
          refine ⟨by simp only [substitute, fill, hfill, lookedUp, hw, Option.getD_some], ?_⟩
          intro w' g' hmem
          rcases List.mem_cons.mp hmem with heq | hmem
          · obtain ⟨rfl, _⟩ := Piece.matched.inj heq
            exact ⟨_, hw⟩
          · exact hrecorded w' g' hmem

/-- What the five passes make of a run. -/
def Followed (U : WordTables) (last : Kind → Replacer) (run out : Text) : Prop :=
  ∃ a b c d, Passed U .mac (last .mac) run a ∧ Passed U .bdf (last .bdf) a b ∧
    Passed U .uuid (last .uuid) b c ∧ Passed U .ipv6 (last .ipv6) c d ∧
    Passed U .ipv4 (last .ipv4) d out

/-- The memos of the run hold numbered placeholders. -/
theorem numbered_of_made (hlast : ∀ k, (last k).Made U k) : Numbered fun k => (last k).memo :=
  fun k _ _ h => (hlast k).exists_placeholder h

/-- A pass over a clear run brings the blocks one rank further. -/
theorem Reached.passed (hlast : ∀ k, (last k).Made U k) (hclear : Clear U run)
    (h : Reached U (fun k => (last k).memo) run k.rank B)
    (hpassed : Passed U k (last k) (shown B) out) :
    ∃ B', Pass k (Recorded U (last k).memo) ((k.pattern U).pieces (shown B)) B B' ∧
      Reached U (fun k => (last k).memo) run (k.rank + 1) B' ∧ shown B' = out := by
  obtain ⟨r, _, rfl, hextends⟩ := hpassed
  obtain ⟨hfill, hrecorded⟩ := substitute_eq_fill ((k.pattern U).pieces (shown B)) r hextends
  obtain ⟨B', hpass, hreached⟩ := h.step (numbered_of_made hlast) hclear hrecorded
  refine ⟨B', hpass, hreached, ?_⟩
  rw [Re.sub, hfill]
  exact hpass.shown_eq fun w p hp => by rw [lookedUp, show _ = some p from hp, Option.getD_some]

/-- **A clear run** is replaced token by token. -/
theorem replaced_of_clear (hlast : ∀ k, (last k).Made U k) (hclear : Clear U run)
    (h : Followed U last run out) : Replaced U (fun k => (last k).memo) run out := by
  obtain ⟨a, b, c, d, hmac, hbdf, huuid, hipv6, hipv4⟩ := h
  rw [← shown_raw (κ := Kind) (w := run)] at hmac
  obtain ⟨_, p₁, h₁, rfl⟩ :=
    (reached_raw U (fun k => (last k).memo) run).passed (k := .mac) hlast hclear hmac
  obtain ⟨_, p₂, h₂, rfl⟩ := h₁.passed (k := .bdf) hlast hclear hbdf
  obtain ⟨_, p₃, h₃, rfl⟩ := h₂.passed (k := .uuid) hlast hclear huuid
  obtain ⟨_, p₄, h₄, rfl⟩ := h₃.passed (k := .ipv6) hlast hclear hipv6
  obtain ⟨B, p₅, h₅, rfl⟩ := h₄.passed (k := .ipv4) hlast hclear hipv4
  refine ⟨B, .next p₁ (.next p₂ (.next p₃ (.next p₄ (.next p₅ (.done B))))), rfl, ?_⟩
  intro k u t v
  exact h₅.tokens k u t v (by cases k <;> decide)

end Following

/-! ## PCI addresses -/

section Bdf

variable {U : WordTables} {memo : Kind → List (Text × Text)} {R : Text → Text → Prop}
  {run t u v : Text} {k : Kind} {r : Nat} {B B' X : List (Block Kind)}

/-- What has been replaced was matched, in one of the first `r` passes. -/
def MadeOfMatches (U : WordTables) (r : Nat) (B : List (Block Kind)) : Prop :=
  ∀ j w p, .made j w p ∈ B → j.rank < r ∧ (j.pattern U).Lang w

/-- Before the first pass nothing is made. -/
theorem madeOfMatches_raw (U : WordTables) (run : Text) : MadeOfMatches U 0 (run.map .raw) := by
  intro j w p hmem
  simp at hmem

/-- A pass makes its blocks from matches of its pattern. -/
theorem MadeOfMatches.pass (h : MadeOfMatches U k.rank B)
    (hpass : Pass k R ((k.pattern U).pieces (shown B)) B B') :
    MadeOfMatches U (k.rank + 1) B' := by
  intro j w p hmem
  obtain ⟨X, Y, hB'⟩ := List.append_of_mem hmem
  rcases hpass.block_cases (Z := []) (pattern_nonempty U k) rfl hB' with
    ⟨X₁, Y₁, rfl, _⟩ | ⟨rfl, _, _, _, _, _, _, hspans⟩
  · obtain ⟨hrank, hlang⟩ := h j w p (by simp)
    exact ⟨Nat.lt_succ_of_lt hrank, hlang⟩
  · exact ⟨Nat.lt_succ_self _, hspans.lang⟩

/-- Where the source does not go on towards the front, neither does the shown text. -/
theorem stops_shown_reverse (hX : ∀ k w p, .made k w p ∈ X → Bordered U w)
    (h : Stops U.isWord (source X).reverse) : Stops U.isWord (shown X).reverse := by
  rcases List.eq_nil_or_concat X with rfl | ⟨X, b, rfl⟩
  · exact stops_nil
  · rw [List.concat_eq_append] at hX h ⊢
    cases b with
    | raw c => simpa [shown, source] using h
    | made k w p =>
        obtain ⟨w, c, rfl, hc⟩ := (hX k w p (by simp)).2
        simp [source, hc] at h

/-- **No PCI address** keeps its placeholder. -/
theorem not_isBlock_bdf (hmemo : Numbered memo)
    (h : Through U memo Kind.order (run.map .raw) B) (hstands : Stands U .bdf u t v) :
    ¬ IsBlock U memo B .bdf u t v := by
  rintro ⟨X, p, Y, hB, hX, _, hp⟩
  obtain _ | ⟨h₁, _ | ⟨h₂, _ | ⟨h₃, _ | ⟨h₄, _ | ⟨h₅, _ | _⟩⟩⟩⟩⟩ := h
  obtain ⟨n, rfl⟩ := hmemo .bdf _ _ hp
  -- the placeholder was there before the IPv4 pass and before the IPv6 pass
  rcases h₅.block_cases (Z := []) (pattern_nonempty U .ipv4) rfl hB with
    ⟨X₄, Y₄, hB₄, hX₄, _⟩ | ⟨hkind, _⟩
  swap
  · cases hkind
  rcases h₄.block_cases (Z := []) (pattern_nonempty U .ipv6) rfl hB₄ with
    ⟨X₃, Y₃, hB₃, hX₃, _⟩ | ⟨hkind, _⟩
  swap
  · cases hkind
  have hmade : MadeOfMatches U 3 _ :=
    (((madeOfMatches_raw U run).pass (k := .mac) h₁).pass (k := .bdf) h₂).pass (k := .uuid) h₃
  have hbefore : Stops U.isWord (shown X₃).reverse := by
    refine stops_shown_reverse ?_ ?_
    · intro k w q hmem
      obtain ⟨hrank, hlang⟩ := hmade k w q (by rw [hB₃]; exact List.mem_append_left _ hmem)
      have hk : k ≠ .ipv6 := by
        rintro rfl
        cases Nat.lt_irrefl _ hrank
      rw [← strict_eq hk] at hlang
      exact bordered_of_strict k hlang
    · rw [hX₃, hX₄, hX]
      exact stops_word_of_goesOn hstands.begins
  have hnone := h₄.not_found (Z := []) rfl hB₃ (bordered_placeholder U .bdf n).ne_nil
    (pattern_nonempty U .ipv6)
  obtain ⟨rest, hrest, hspans⟩ := bdf_spans n (shown Y₃) hbefore
  obtain ⟨m, hm⟩ := hspans.exists_matchFrom
  rw [List.nil_append, hrest] at hnone
  exact absurd (hnone.symm.trans hm) (by simp)

end Bdf

/-! ## Runs without an address -/

section Plain

variable {U : WordTables} {run out : Text}

/-- A run has at least the marks of its part. -/
theorem marks_le_of_part {k : Kind} {u w v : Text} (hrun : run = u ++ (w ++ v))
    (h : k.marks ≤ w.countP k.mark) : k.marks ≤ run.countP k.mark := by
  rw [hrun, List.countP_append, List.countP_append]
  omega

/-- A run with too few separators is clear. -/
theorem clear_of_not_notable (h : notable run = false) : Clear U run := by
  have hnone : ∀ (k : Kind) (u w v : Text), run = u ++ (w ++ v) →
      ¬ k.marks ≤ w.countP k.mark := by
    intro k u w v hrun hmarks
    rw [notable_of_marks k (marks_le_of_part hrun hmarks)] at h
    cases h
  constructor
  · intro k u t v hrun hstands
    exact absurd (marks_of_address k hstands.address) (hnone k u t v hrun)
  · intro k u w v hrun hfree
    exact absurd (marks_of_lang k hfree.spans.lang) (hnone k u w v hrun)

/-- An IPv4 address has no mark of another kind. -/
theorem marks_ipv4 {k : Kind} {t : Text} (hk : k ≠ .ipv4) (ht : IsAddress .ipv4 t) :
    t.countP k.mark = 0 := by
  obtain ⟨os, _, hos, rfl⟩ := ht
  rw [countP_intercalate]
  · have hdot : k.mark '.' = false := by cases k <;> first | rfl | exact absurd rfl hk
    simp [hdot]
  · intro o ho c hc
    have hhex : isHexDigit c = true := isHexDigit_of_isDigit ((hos o ho).2.1 c hc)
    cases hmark : k.mark c with
    | false => rfl
    | true =>
        rw [isHexDigit_of_mark k hmark] at hhex
        cases hhex

/-- An IPv4 address by itself is a clear run. -/
theorem clear_of_ipv4 (ht : IsAddress .ipv4 run) : Clear U run := by
  obtain ⟨hpoints, hchars⟩ := points_of_lang_reIpv4 (U := U) (lang_reIpv4_of_address ht)
  have hkind : ∀ (k : Kind) (u w v : Text), run = u ++ (w ++ v) → k.marks ≤ w.countP k.mark →
      k = .ipv4 := by
    intro k u w v hrun hmarks
    by_contra hk
    have hle := marks_le_of_part hrun hmarks
    rw [marks_ipv4 hk ht] at hle
    cases k <;> cases hle
  constructor
  · intro k u t v hrun hstands
    have hmarks := marks_of_address k hstands.address
    obtain rfl := hkind k u t v hrun hmarks
    -- all points are in the token, and a digit before it would be a part of its word
    have hstart : u = [] := by
      by_contra hne
      obtain ⟨front, c, rfl⟩ := (List.eq_nil_or_concat u).resolve_left hne
      rw [List.concat_eq_append] at hrun hstands
      have hnone : c ≠ '.' := by
        rintro rfl
        rw [hrun] at hpoints
        have hthree : 3 ≤ t.count '.' := hmarks
        simp only [List.count_append, List.count_singleton_self] at hpoints
        omega
      have hdigit := (hchars c (by rw [hrun]; simp)).resolve_right hnone
      have hstops := stops_word_of_goesOn hstands.begins
      rw [List.reverse_append, List.reverse_singleton, List.singleton_append, stops_cons,
        U.isWord_of_isDigit c hdigit] at hstops
      cases hstops
    subst hstart
    refine ⟨?_, fun _ _ _ _ _ hlt => absurd hlt (Nat.not_lt_zero _), fun heq => by cases heq⟩
    intro j u' w v' hrank hsplit hfree
    obtain rfl := hkind j u' w v' (hrun.trans hsplit.symm) (marks_of_lang j hfree.spans.lang)
    exact absurd hrank (Nat.lt_irrefl _)
  · intro k u w v hrun hfree
    obtain rfl := hkind k u w v hrun (marks_of_lang k hfree.spans.lang)
    intro n j _ _ _ hrank
    exact absurd hrank (by cases j <;> decide)

end Plain

end FaultOracle.Anonymize
