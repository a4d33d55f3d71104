import Mathlib.Data.Finset.Card
import Mathlib.Logic.Function.Basic
import FaultOracle.InsertionDict

/-!
# Races for the first entry of a key

Any number of parties count in one map.  A party looks its key up; in a second step it adds to
the value it has found, or inserts a new one, unless another party has been faster or the map is
full.  Each step is atomic, what an insertion returns is not looked at, and no entry is removed.

`present_lt`: a key which has an entry has lost fewer counts than there are parties which count
it.  `absent_full`: a key which has none has lost counts only because the map is full.
-/

namespace InsertRaces

open InsertionDict

variable {κ ι : Type*} [DecidableEq κ] [DecidableEq ι]

/-- Where a party is: at rest, before the lookup of a key, and behind it with a value or
without. -/
inductive Phase (κ : Type*)
  | idle
  | lookup (k : κ)
  | add (k : κ)
  | insert (k : κ)
deriving DecidableEq

/-- A party begins to count a key, or makes its next step. -/
inductive Action (κ ι : Type*)
  | call (i : ι) (k : κ)
  | next (i : ι)

/-- The map and the parties; the last three fields record the calls made, those which have
counted, and those which are lost. -/
structure Racers (κ ι : Type*) where
  entries : List (κ × UInt64)
  phase : ι → Phase κ
  calls : List κ
  counted : List κ
  lost : List κ

/-- An empty map, and everyone at rest. -/
def Racers.start (κ ι : Type*) : Racers κ ι := ⟨[], fun _ => .idle, [], [], []⟩

/-- The value of a key. -/
def Racers.value (m : Racers κ ι) (k : κ) : UInt64 := (m.entries.lookup k).getD 0

/-- The key has an entry. -/
def Racers.Present (m : Racers κ ι) (k : κ) : Prop := (m.entries.lookup k).isSome

/-- One step. -/
def step (capacity : Nat) (m : Racers κ ι) : Action κ ι → Racers κ ι
  | .call i k =>
      match m.phase i with
      | .idle => { m with phase := Function.update m.phase i (.lookup k), calls := k :: m.calls }
      | _ => m
  | .next i =>
      match m.phase i with
      | .idle => m
      | .lookup k =>
          match m.entries.lookup k with
          | some _ => { m with phase := Function.update m.phase i (.add k) }
          | none => { m with phase := Function.update m.phase i (.insert k) }
      | .add k =>
          { m with
            entries := setItem k ((m.entries.lookup k).getD 0 + 1) m.entries
            phase := Function.update m.phase i .idle
            counted := k :: m.counted }
      | .insert k =>
          match m.entries.lookup k with
          | some _ =>
              { m with phase := Function.update m.phase i .idle, lost := k :: m.lost }
          | none =>
              if m.entries.length < capacity then
                { m with
                  entries := m.entries ++ [(k, 1)]
                  phase := Function.update m.phase i .idle
                  counted := k :: m.counted }
              else { m with phase := Function.update m.phase i .idle, lost := k :: m.lost }

/-- The other parties stay where they are. -/
theorem step_phase_of_ne {capacity : Nat} {m : Racers κ ι} {i j : ι} (h : j ≠ i) :
    (step capacity m (.next i)).phase j = m.phase j := by
  simp only [step]
  split
  · rfl
  · split <;> exact Function.update_of_ne h _ _
  · exact Function.update_of_ne h _ _
  · split
    · exact Function.update_of_ne h _ _
    · split <;> exact Function.update_of_ne h _ _

theorem step_next_calls {capacity : Nat} {m : Racers κ ι} {i : ι} :
    (step capacity m (.next i)).calls = m.calls := by
  simp only [step]
  split
  · rfl
  · split <;> rfl
  · rfl
  · split
    · rfl
    · split <;> rfl

/-! ## Parties in a phase -/

/-- The phase belongs to a count of the key. -/
def Phase.about (k : κ) : Phase κ → Bool
  | .idle => false
  | .lookup k' | .add k' | .insert k' => k' = k

/-- The phase is that of an insertion of the key. -/
def Phase.inserts (k : κ) : Phase κ → Bool
  | .insert k' => k' = k
  | _ => false

/-- How many parties among `S` are in such a state. -/
def among {α : Type*} (S : Finset ι) (f : ι → α) (P : α → Bool) : Nat :=
  (S.filter (fun i => P (f i) = true)).card

section Parties

variable {α : Type*} {f : ι → α} {i : ι} {p : α} {S : Finset ι}

/-- One party moves on, which is of `S` if it counts at all. -/
theorem among_update (P : α → Bool) (hi : P (f i) = true → i ∈ S) (hp : P p = true → i ∈ S) :
    among S (Function.update f i p) P + (P (f i)).toNat = among S f P + (P p).toNat := by
  have hrest : ∀ j, j ≠ i → Function.update f i p j = f j := fun j hj =>
    Function.update_of_ne hj p f
  by_cases hmem : i ∈ S
  · have hsplit : ∀ g : ι → α, among S g P =
        ((S.erase i).filter (fun j => P (g j) = true)).card + (P (g i)).toNat := by
      intro g
      have hnot : i ∉ (S.erase i).filter (fun j => P (g j) = true) := by simp
      rw [among]
      nth_rewrite 1 [← Finset.insert_erase hmem]
      rw [Finset.filter_insert]
      cases hP : P (g i) with
      | true => simp
      | false => simp
    have hsame : (S.erase i).filter (fun j => P (Function.update f i p j) = true) =
        (S.erase i).filter (fun j => P (f j) = true) :=
      Finset.filter_congr fun j hj => by rw [hrest j (Finset.ne_of_mem_erase hj)]
    rw [hsplit f, hsplit (Function.update f i p), hsame, Function.update_self]
    omega
  · have hsame : among S (Function.update f i p) P = among S f P := by
      rw [among, among]
      congr 1
      exact Finset.filter_congr fun j hj => by rw [hrest j (ne_of_mem_of_not_mem hj hmem)]
    rw [hsame, Bool.eq_false_iff.mpr fun h => hmem (hi h), Bool.eq_false_iff.mpr fun h => hmem (hp h)]

omit [DecidableEq ι] in
theorem among_le (P : α → Bool) : among S f P ≤ S.card := Finset.card_filter_le _ _

theorem about_of_inserts {k : κ} {p : Phase κ} (h : p.inserts k = true) : p.about k = true := by
  cases p <;> first
    | exact h
    | cases h

end Parties

/-! ## What is lost of a key -/

/-- The account of a key which only the parties of `S` count. -/
structure Bounded (capacity : Nat) (S : Finset ι) (k : κ) (m : Racers κ ι) : Prop where
  inside : ∀ i, (m.phase i).about k = true → i ∈ S
  entry : ∀ i, m.phase i = .add k → m.Present k
  value : m.value k = UInt64.ofNat (m.counted.count k)
  calls : m.calls.count k =
    m.counted.count k + m.lost.count k + among S m.phase (Phase.about k)
  present : m.Present k → m.lost.count k + among S m.phase (Phase.inserts k) < S.card
  absent : ¬ m.Present k →
    m.counted.count k = 0 ∧ (m.lost.count k = 0 ∨ capacity ≤ m.entries.length)

section Steps

variable {capacity : Nat} {S : Finset ι} {k : κ} {m m' : Racers κ ι} {i : ι} {p : Phase κ}

theorem Bounded.inside_update (h : Bounded capacity S k m) (hp : p.about k = true → i ∈ S) :
    ∀ j, (Function.update m.phase i p j).about k = true → j ∈ S := by
  intro j hj
  by_cases hji : j = i
  · rw [hji, Function.update_self] at hj
    exact hji ▸ hp hj
  · rw [Function.update_of_ne hji] at hj
    exact h.inside j hj

theorem Bounded.entry_update {P : Prop} (h : Bounded capacity S k m) (hkept : m.Present k → P)
    (hp : p = .add k → P) : ∀ j, Function.update m.phase i p j = .add k → P := by
  intro j hj
  by_cases hji : j = i
  · rw [hji, Function.update_self] at hj
    exact hp hj
  · rw [Function.update_of_ne hji] at hj
    exact hkept (h.entry j hj)

/-- A party which is not counting the key moves on, to something which is not about it. -/
theorem Bounded.other (h : Bounded capacity S k m) (hi : (m.phase i).about k = false)
    (hp : p.about k = false) (hphase : m'.phase = Function.update m.phase i p)
    (hlookup : m'.entries.lookup k = m.entries.lookup k)
    (hlength : m.entries.length ≤ m'.entries.length)
    (hcalls : m'.calls.count k = m.calls.count k)
    (hcounted : m'.counted.count k = m.counted.count k)
    (hlost : m'.lost.count k = m.lost.count k) : Bounded capacity S k m' := by
  have hpresent : m'.Present k ↔ m.Present k := by rw [Racers.Present, hlookup, Racers.Present]
  have habout : among S m'.phase (Phase.about k) = among S m.phase (Phase.about k) := by
    have hmoves := among_update (S := S) (f := m.phase) (i := i) (p := p) (Phase.about k)
      (by simp [hi]) (by simp [hp])
    rw [hphase]
    simpa [hi, hp] using hmoves
  have hinserts : among S m'.phase (Phase.inserts k) = among S m.phase (Phase.inserts k) := by
    have hi' : (m.phase i).inserts k = false :=
      Bool.eq_false_iff.mpr fun h => by simp [about_of_inserts h] at hi
    have hp' : p.inserts k = false :=
      Bool.eq_false_iff.mpr fun h => by simp [about_of_inserts h] at hp
    have hmoves := among_update (S := S) (f := m.phase) (i := i) (p := p) (Phase.inserts k)
      (by simp [hi']) (by simp [hp'])
    rw [hphase]
    simpa [hi', hp'] using hmoves
  refine ⟨?_, ?_, ?_, ?_, ?_, ?_⟩
  · rw [hphase]
    exact h.inside_update (by simp [hp])
  · rw [hphase]
    simp only [hpresent]
    refine h.entry_update id fun hadd => ?_
    simp [hadd, Phase.about] at hp
  · rw [Racers.value, hlookup, hcounted]
    exact h.value
  · rw [hcalls, hcounted, hlost, habout]
    exact h.calls
  · rw [hpresent, hlost, hinserts]
    exact h.present
  · rw [hpresent, hcounted, hlost]
    intro habsent
    obtain ⟨hzero, hfull⟩ := h.absent habsent
    exact ⟨hzero, hfull.imp_right fun hle => hle.trans hlength⟩

/-- A party begins to count the key. -/
theorem Bounded.call (h : Bounded capacity S k m) (hidle : m.phase i = .idle) (hi : i ∈ S) :
    Bounded capacity S k
      { m with phase := Function.update m.phase i (.lookup k), calls := k :: m.calls } := by
  have habout := among_update (S := S) (f := m.phase) (i := i) (p := .lookup k) (Phase.about k)
    (fun _ => hi) (fun _ => hi)
  have hinserts := among_update (S := S) (f := m.phase) (i := i) (p := .lookup k) (Phase.inserts k)
    (fun _ => hi) (fun _ => hi)
  simp only [hidle, Phase.about, Phase.inserts, decide_true, Bool.toNat_true, Bool.toNat_false]
    at habout hinserts
  refine ⟨h.inside_update fun _ => hi, h.entry_update id (by simp), h.value, ?_, ?_, h.absent⟩
  · have hcalls := h.calls
    simp only [List.count_cons_self]
    omega
  · intro hpresent
    have hlt := h.present hpresent
    simp only
    omega

/-- The lookup finds the entry, or finds none. -/
theorem Bounded.lookup (h : Bounded capacity S k m) (hlookup : m.phase i = .lookup k)
    (hp : m.Present k ∧ p = .add k ∨ ¬ m.Present k ∧ p = .insert k) :
    Bounded capacity S k { m with phase := Function.update m.phase i p } := by
  have hi : i ∈ S := h.inside i (by simp [hlookup, Phase.about])
  have habout := among_update (S := S) (f := m.phase) (i := i) (p := p) (Phase.about k)
    (fun _ => hi) (fun _ => hi)
  have hinserts := among_update (S := S) (f := m.phase) (i := i) (p := p) (Phase.inserts k)
    (fun _ => hi) (fun _ => hi)
  refine ⟨h.inside_update fun _ => hi, ?_, h.value, ?_, ?_, h.absent⟩
  · refine h.entry_update id fun hadd => ?_
    rcases hp with ⟨hpresent, -⟩ | ⟨-, hinsert⟩
    · exact hpresent
    · rw [hadd] at hinsert
      cases hinsert
  · have hcalls := h.calls
    rcases hp with ⟨-, rfl⟩ | ⟨-, rfl⟩ <;>
      simp only [hlookup, Phase.about, decide_true, Bool.toNat_true] at habout <;> simp only <;>
      omega
  · intro hpresent
    have hlt := h.present hpresent
    rcases hp with ⟨-, rfl⟩ | ⟨habsent, -⟩
    · simp only [hlookup, Phase.inserts, Bool.toNat_false] at hinserts
      simp only
      omega
    · exact absurd hpresent habsent

/-- A count is added to the entry. -/
theorem Bounded.add (h : Bounded capacity S k m) (hadd : m.phase i = .add k) :
    Bounded capacity S k
      { m with
        entries := setItem k ((m.entries.lookup k).getD 0 + 1) m.entries
        phase := Function.update m.phase i .idle
        counted := k :: m.counted } := by
  have hi : i ∈ S := h.inside i (by simp [hadd, Phase.about])
  have hpresent : m.Present k := h.entry i hadd
  have habout := among_update (S := S) (f := m.phase) (i := i) (p := .idle) (Phase.about k)
    (fun _ => hi) (fun _ => hi)
  have hinserts := among_update (S := S) (f := m.phase) (i := i) (p := .idle) (Phase.inserts k)
    (fun _ => hi) (fun _ => hi)
  simp only [hadd, Phase.about, Phase.inserts, decide_true, Bool.toNat_true, Bool.toNat_false]
    at habout hinserts
  have hnow : Racers.Present { m with
      entries := setItem k ((m.entries.lookup k).getD 0 + 1) m.entries
      phase := Function.update m.phase i .idle
      counted := k :: m.counted } k := by
    simp [Racers.Present]
  refine ⟨h.inside_update (by simp [Phase.about]), h.entry_update (fun _ => hnow) (by simp), ?_, ?_,
    fun _ => ?_, fun habsent => absurd hnow habsent⟩
  · have hvalue := h.value
    rw [Racers.value] at hvalue ⊢
    simp only [lookup_setItem_self, Option.getD_some, hvalue, List.count_cons_self]
    rw [UInt64.ofNat_add]
    rfl
  · have hcalls := h.calls
    simp only [List.count_cons_self]
    omega
  · have hlt := h.present hpresent
    simp only
    omega

/-- An insertion comes too late. -/
theorem Bounded.lose (h : Bounded capacity S k m) (hinsert : m.phase i = .insert k)
    (hfull : m.Present k ∨ capacity ≤ m.entries.length) :
    Bounded capacity S k
      { m with phase := Function.update m.phase i .idle, lost := k :: m.lost } := by
  have hi : i ∈ S := h.inside i (by simp [hinsert, Phase.about])
  have habout := among_update (S := S) (f := m.phase) (i := i) (p := .idle) (Phase.about k)
    (fun _ => hi) (fun _ => hi)
  have hinserts := among_update (S := S) (f := m.phase) (i := i) (p := .idle) (Phase.inserts k)
    (fun _ => hi) (fun _ => hi)
  simp only [hinsert, Phase.about, Phase.inserts, decide_true, Bool.toNat_true,
    Bool.toNat_false] at habout hinserts
  refine ⟨h.inside_update (by simp [Phase.about]), h.entry_update id (by simp), h.value, ?_, ?_, ?_⟩
  · have hcalls := h.calls
    simp only [List.count_cons_self]
    omega
  · intro hpresent
    have hlt := h.present hpresent
    simp only [List.count_cons_self]
    omega
  · intro habsent
    exact ⟨(h.absent habsent).1, .inr (hfull.resolve_left habsent)⟩

/-- The first insertion of the key: nothing has been lost so far, and the party which inserts
is not among those which will lose. -/
theorem Bounded.insert (h : Bounded capacity S k m) (hinsert : m.phase i = .insert k)
    (habsent : m.entries.lookup k = none) (hroom : m.entries.length < capacity) :
    Bounded capacity S k
      { m with
        entries := m.entries ++ [(k, 1)]
        phase := Function.update m.phase i .idle
        counted := k :: m.counted } := by
  have hi : i ∈ S := h.inside i (by simp [hinsert, Phase.about])
  have habout := among_update (S := S) (f := m.phase) (i := i) (p := .idle) (Phase.about k)
    (fun _ => hi) (fun _ => hi)
  have hinserts := among_update (S := S) (f := m.phase) (i := i) (p := .idle) (Phase.inserts k)
    (fun _ => hi) (fun _ => hi)
  simp only [hinsert, Phase.about, Phase.inserts, decide_true, Bool.toNat_true,
    Bool.toNat_false] at habout hinserts
  obtain ⟨hzero, hlost⟩ := h.absent (by simp [Racers.Present, habsent])
  have hnone : m.lost.count k = 0 := hlost.resolve_right (by omega)
  have hlookup : (m.entries ++ [(k, 1)]).lookup k = some 1 := by
    rw [List.lookup_append, habsent]
    simp
  have hnow : Racers.Present { m with
      entries := m.entries ++ [(k, 1)]
      phase := Function.update m.phase i .idle
      counted := k :: m.counted } k := by
    simp [Racers.Present, hlookup]
  refine ⟨h.inside_update (by simp [Phase.about]), h.entry_update (fun _ => hnow) (by simp), ?_, ?_,
    fun _ => ?_, fun habsent' => absurd hnow habsent'⟩
  · simp only [Racers.value, hlookup, Option.getD_some, List.count_cons_self, hzero]
    rfl
  · have hcalls := h.calls
    simp only [List.count_cons_self]
    omega
  · have hle : among S m.phase (Phase.inserts k) ≤ S.card := among_le _
    simp only
    omega

/-- **Step lemma.** -/
theorem Bounded.step (h : Bounded capacity S k m) {a : Action κ ι}
    (ha : ∀ i, a = .call i k → i ∈ S) : Bounded capacity S k (step capacity m a) := by
  have hother : ∀ k', k' ≠ k → ∀ l : List κ, (k' :: l).count k = l.count k := fun k' hk l =>
    List.count_cons_of_ne hk
  cases a with
  | call i k' =>
      rw [InsertRaces.step]
      cases hphase : m.phase i with
      | idle =>
          by_cases hk : k' = k
          · subst hk
            exact h.call hphase (ha i rfl)
          · exact h.other (by rw [hphase]; rfl) (by simp [Phase.about, hk]) rfl rfl le_rfl
              (hother k' hk _) rfl rfl
      | lookup | add | insert => exact h
  | next i =>
      rw [InsertRaces.step]
      cases hphase : m.phase i with
      | idle => exact h
      | lookup k' =>
          by_cases hk : k' = k
          · subst hk
            simp only
            cases hlookup : m.entries.lookup k' with
            | none => exact h.lookup hphase (.inr ⟨by simp [Racers.Present, hlookup], rfl⟩)
            | some val => exact h.lookup hphase (.inl ⟨by simp [Racers.Present, hlookup], rfl⟩)
          · have hfrom : (m.phase i).about k = false := by simp [hphase, Phase.about, hk]
            simp only
            cases m.entries.lookup k' <;>
              exact h.other hfrom (by simp [Phase.about, hk]) rfl rfl le_rfl rfl rfl rfl
      | add k' =>
          by_cases hk : k' = k
          · subst hk
            exact h.add hphase
          · exact h.other (by simp [hphase, Phase.about, hk]) rfl rfl
              (lookup_setItem_ne (Ne.symm hk) _ _) length_le_length_setItem rfl (hother k' hk _) rfl
      | insert k' =>
          simp only
          by_cases hk : k' = k
          · subst hk
            cases hlookup : m.entries.lookup k' with
            | some val => exact h.lose hphase (.inl (by simp [Racers.Present, hlookup]))
            | none =>
                simp only
                split
                · next hroom => exact h.insert hphase hlookup hroom
                · next hfull => exact h.lose hphase (.inr (by omega))
          · have hfrom : (m.phase i).about k = false := by simp [hphase, Phase.about, hk]
            cases m.entries.lookup k' with
            | some val => exact h.other hfrom rfl rfl rfl le_rfl rfl rfl (hother k' hk _)
            | none =>
                simp only
                split
                · have hnew : ([(k', (1 : UInt64))] : List (κ × UInt64)).lookup k = none := by
                    simp [List.lookup_cons, beq_false_of_ne (Ne.symm hk)]
                  exact h.other hfrom rfl rfl (by rw [List.lookup_append, hnew, Option.or_none])
                    (by simp) rfl (hother k' hk _) rfl
                · exact h.other hfrom rfl rfl rfl le_rfl rfl rfl (hother k' hk _)

end Steps

omit [DecidableEq ι] in
theorem bounded_start (capacity : Nat) (S : Finset ι) (k : κ) :
    Bounded capacity S k (Racers.start κ ι) := by
  refine ⟨?_, ?_, rfl, ?_, ?_, ?_⟩ <;> simp [Racers.start, Phase.about, Racers.Present, among]

/-- **Run lemma.** -/
theorem bounded_run {capacity : Nat} {S : Finset ι} {k : κ} (run : List (Action κ ι))
    (hrun : ∀ i, .call i k ∈ run → i ∈ S) :
    Bounded capacity S k (run.foldl (step capacity) (Racers.start κ ι)) :=
  List.foldlRecOn (motive := Bounded capacity S k) run (step capacity) (bounded_start capacity S k)
    fun _ h _ ha => h.step fun i hcall => hrun i (hcall ▸ ha)

/-! ## The bound is attained -/

section Attained

variable {capacity : Nat} {k : κ} {m : Racers κ ι} {parties : List ι}

/-- Each of the parties is in a new phase. -/
def Racers.moved (m : Racers κ ι) (parties : List ι) (p : Phase κ) : Racers κ ι :=
  { m with phase := fun i => if i ∈ parties then p else m.phase i }

omit [DecidableEq κ] in
theorem moved_cons (i : ι) (p : Phase κ) (hi : i ∉ parties) :
    ({ m with phase := Function.update m.phase i p } : Racers κ ι).moved parties p =
      m.moved (i :: parties) p := by
  simp only [Racers.moved, Racers.mk.injEq, and_self, and_true, true_and]
  funext j
  by_cases hji : j = i
  · subst hji
    simp [hi]
  · simp [hji]

/-- All begin to count the key. -/
theorem foldl_call (hnodup : parties.Nodup) (hidle : ∀ i ∈ parties, m.phase i = .idle) :
    (parties.map (.call · k)).foldl (step capacity) m =
      { m.moved parties (.lookup k) with
        calls := List.replicate parties.length k ++ m.calls } := by
  induction parties generalizing m with
  | nil => simp [Racers.moved]
  | cons i parties ih =>
      obtain ⟨hi, hrest⟩ := List.nodup_cons.mp hnodup
      have hstep : step capacity m (.call i k) =
          { m with phase := Function.update m.phase i (.lookup k), calls := k :: m.calls } := by
        simp only [step, hidle i (by simp)]
      have hidle' : ∀ j ∈ parties, Function.update m.phase i (.lookup k) j = .idle := by
        intro j hj
        rw [Function.update_of_ne (ne_of_mem_of_not_mem hj hi)]
        exact hidle j (by simp [hj])
      rw [List.map_cons, List.foldl_cons, hstep, ih hrest hidle', ← moved_cons i _ hi]
      simp only [Racers.moved, List.length_cons, List.replicate_succ', List.append_assoc,
        List.singleton_append]

/-- None of them finds an entry. -/
theorem foldl_lookup (hnodup : parties.Nodup) (hphase : ∀ i ∈ parties, m.phase i = .lookup k)
    (habsent : m.entries.lookup k = none) :
    (parties.map .next).foldl (step capacity) m = m.moved parties (.insert k) := by
  induction parties generalizing m with
  | nil => simp [Racers.moved]
  | cons i parties ih =>
      obtain ⟨hi, hrest⟩ := List.nodup_cons.mp hnodup
      have hstep : step capacity m (.next i) =
          { m with phase := Function.update m.phase i (.insert k) } := by
        simp only [step, hphase i (by simp), habsent]
      have hphase' : ∀ j ∈ parties, Function.update m.phase i (.insert k) j = .lookup k := by
        intro j hj
        rw [Function.update_of_ne (ne_of_mem_of_not_mem hj hi)]
        exact hphase j (by simp [hj])
      rw [List.map_cons, List.foldl_cons, hstep,
        ih (m := { m with phase := Function.update m.phase i (.insert k) }) hrest hphase' habsent,
        ← moved_cons i _ hi]

/-- Once the key has an entry, all of them lose. -/
theorem foldl_lose (hnodup : parties.Nodup) (hphase : ∀ i ∈ parties, m.phase i = .insert k)
    (hpresent : m.Present k) :
    (parties.map .next).foldl (step capacity) m =
      { m.moved parties .idle with
        lost := List.replicate parties.length k ++ m.lost } := by
  induction parties generalizing m with
  | nil => simp [Racers.moved]
  | cons i parties ih =>
      obtain ⟨hi, hrest⟩ := List.nodup_cons.mp hnodup
      obtain ⟨val, hval⟩ := Option.isSome_iff_exists.mp hpresent
      have hstep : step capacity m (.next i) =
          { m with phase := Function.update m.phase i .idle, lost := k :: m.lost } := by
        simp only [step, hphase i (by simp), hval]
      have hphase' : ∀ j ∈ parties, Function.update m.phase i .idle j = .insert k := by
        intro j hj
        rw [Function.update_of_ne (ne_of_mem_of_not_mem hj hi)]
        exact hphase j (by simp [hj])
      rw [List.map_cons, List.foldl_cons, hstep,
        ih (m := { m with phase := Function.update m.phase i .idle, lost := k :: m.lost }) hrest
          hphase' hpresent, ← moved_cons i _ hi]
      simp only [Racers.moved, List.length_cons, List.replicate_succ', List.append_assoc,
        List.singleton_append]

/-- All call, all look the key up, all insert it. -/
def raced (parties : List ι) (k : κ) : List (Action κ ι) :=
  parties.map (.call · k) ++ (parties.map .next ++ parties.map .next)

/-- **All but one lose.** -/
theorem foldl_raced (hnodup : parties.Nodup) (hne : parties ≠ []) (hroom : 0 < capacity) :
    let m := (raced parties k).foldl (step capacity) (Racers.start κ ι)
    (∀ i, m.phase i = .idle) ∧ m.entries.lookup k = some 1 ∧
      m.calls.count k = parties.length ∧ m.lost.count k + 1 = parties.length := by
  obtain ⟨i, parties, rfl⟩ := List.exists_cons_of_ne_nil hne
  obtain ⟨hi, hrest⟩ := List.nodup_cons.mp hnodup
  -- all have called and looked the key up
  obtain ⟨m, hm, hphase, hentries, hcalls, hlost⟩ : ∃ m,
      ((i :: parties).map .next).foldl (step capacity) (((i :: parties).map (.call · k)).foldl
        (step capacity) (Racers.start κ ι)) = m ∧
      (∀ j, m.phase j = if j ∈ i :: parties then .insert k else .idle) ∧ m.entries = [] ∧
      m.calls.count k = parties.length + 1 ∧ m.lost = [] := by
    refine ⟨_, rfl, ?_⟩
    rw [foldl_call hnodup (fun _ _ => rfl)]
    rw [foldl_lookup (k := k) hnodup (fun j hj => if_pos hj) rfl]
    refine ⟨fun j => ?_, rfl, ?_, rfl⟩
    · simp only [Racers.moved, Racers.start]
      split <;> rfl
    · simp [Racers.moved, Racers.start]
  rw [raced, List.foldl_append, List.foldl_append, hm, List.map_cons, List.foldl_cons]
  -- the first to insert succeeds
  have hstep : step capacity m (.next i) =
      { m with
        entries := m.entries ++ [(k, 1)]
        phase := Function.update m.phase i .idle
        counted := k :: m.counted } := by
    simp [step, hphase, hentries, hroom]
  rw [hstep, foldl_lose (k := k) hrest]
  · refine ⟨fun j => ?_, ?_, hcalls, ?_⟩
    · simp only [Racers.moved]
      by_cases hji : j = i
      · simp [hji]
      · simp [hphase, hji]
    · simp [Racers.moved, hentries]
    · simp [hlost]
  · intro j hj
    have hji : j ≠ i := ne_of_mem_of_not_mem hj hi
    simp [Function.update_of_ne hji, hphase, hj]
  · simp [Racers.Present, hentries]

end Attained

end InsertRaces
