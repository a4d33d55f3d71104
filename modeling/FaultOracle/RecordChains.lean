import Mathlib.Data.List.Basic
import Mathlib.Data.List.Perm.Basic

/-!
# Chains of records

Records of variable length follow one another in a region.  Each begins with a mark, names its
own length and has a header of a fixed size.  A reader goes from record to record as long as a
header fits into what is left and carries the mark, and stops behind a record which is shorter
than its header (`chain`).

Readers which take the header to be of different sizes read the same records exactly on the
regions which are `Clear`: where the smaller header lets a reader go on, the larger one does.
-/

namespace RecordChains

/-- How a record begins, read off a region which starts with it. -/
structure Format (β : Type*) where
  mark : List β → Bool
  recordLength : List β → Nat

variable {β : Type*} (f : Format β)

/-- A header of the given size fits into the region and carries the mark. -/
def Format.Begins (header : Nat) (region : List β) : Prop :=
  header ≤ region.length ∧ f.mark region = true

instance (header : Nat) (region : List β) : Decidable (f.Begins header region) := by
  unfold Format.Begins
  infer_instance

theorem drop_recordLength_lt {header : Nat} (hheader : 0 < header) {region : List β}
    (hbegins : f.Begins header region) (hlength : ¬ f.recordLength region < header) :
    (region.drop (f.recordLength region)).length < region.length := by
  have hfits := hbegins.1
  rw [List.length_drop]
  omega

/-- The records of a region, each as what is left of the region where it begins. -/
def Format.chain (f : Format β) (header : Nat) (hheader : 0 < header) (region : List β) :
    List (List β) :=
  if _ : f.Begins header region then
    if _ : f.recordLength region < header then [region]
    else region :: f.chain header hheader (region.drop (f.recordLength region))
  else []
termination_by region.length
decreasing_by exact drop_recordLength_lt f hheader ‹_› ‹_›

/-- Nothing is read under the smaller header which is not read under the larger one. -/
def Format.Clear (f : Format β) (small large : Nat) (hlarge : 0 < large) (region : List β) : Prop :=
  if _ : f.Begins large region then
    if _ : f.recordLength region < large then
      f.recordLength region < small ∨
        ¬ f.Begins small (region.drop (f.recordLength region))
    else f.Clear small large hlarge (region.drop (f.recordLength region))
  else ¬ f.Begins small region
termination_by region.length
decreasing_by exact drop_recordLength_lt f hlarge ‹_› ‹_›

variable {f} {header small large : Nat}

theorem chain_of_not_begins {hheader : 0 < header} {region : List β}
    (h : ¬ f.Begins header region) : f.chain header hheader region = [] := by
  rw [Format.chain, dif_neg h]

theorem chain_eq_nil_iff {hheader : 0 < header} {region : List β} :
    f.chain header hheader region = [] ↔ ¬ f.Begins header region := by
  rw [Format.chain]
  by_cases hbegins : f.Begins header region
  · rw [dif_pos hbegins]
    split <;> simp [hbegins]
  · simp [hbegins]

theorem chain_last {hheader : 0 < header} {region : List β} (hbegins : f.Begins header region)
    (hlength : f.recordLength region < header) : f.chain header hheader region = [region] := by
  rw [Format.chain, dif_pos hbegins, dif_pos hlength]

theorem chain_next {hheader : 0 < header} {region : List β} (hbegins : f.Begins header region)
    (hlength : ¬ f.recordLength region < header) :
    f.chain header hheader region =
      region :: f.chain header hheader (region.drop (f.recordLength region)) := by
  rw [Format.chain, dif_pos hbegins, dif_neg hlength]

theorem Format.Begins.mono {region : List β} (h : f.Begins large region) (hle : small ≤ large) :
    f.Begins small region := ⟨Nat.le_trans hle h.1, h.2⟩

/-- What is read under the larger header is read first under the smaller one. -/
theorem chain_isPrefix (hsmall : 0 < small) (hlarge : 0 < large) (hle : small ≤ large)
    (region : List β) : f.chain large hlarge region <+: f.chain small hsmall region := by
  fun_induction f.chain large hlarge region with
  | case1 region hbegins hlength =>
      by_cases hshort : f.recordLength region < small
      · have hlast : f.chain small hsmall region = [region] :=
          chain_last (hbegins.mono hle) hshort
        simp [hlast]
      · rw [chain_next (hbegins.mono hle) hshort]
        exact List.cons_prefix_cons.mpr ⟨rfl, List.nil_prefix⟩
  | case2 region hbegins hlength ih =>
      have hlong : ¬ f.recordLength region < small := by omega
      rw [chain_next (hbegins.mono hle) hlong]
      exact List.cons_prefix_cons.mpr ⟨rfl, ih⟩
  | case3 region hbegins => exact List.nil_prefix

/-- **Readers agree** on the clear regions, and on no others. -/
theorem chain_eq_iff_clear (hsmall : 0 < small) (hlarge : 0 < large) (hle : small ≤ large)
    (region : List β) :
    f.chain large hlarge region = f.chain small hsmall region ↔
      f.Clear small large hlarge region := by
  fun_induction f.chain large hlarge region with
  | case1 region hbegins hlength =>
      rw [Format.Clear, dif_pos hbegins, dif_pos hlength]
      by_cases hshort : f.recordLength region < small
      · rw [chain_last (hbegins.mono hle) hshort]
        exact iff_of_true rfl (Or.inl hshort)
      · rw [chain_next (hbegins.mono hle) hshort, List.cons.injEq, eq_comm (a := ([] : List _)),
          chain_eq_nil_iff]
        simp [hshort]
  | case2 region hbegins hlength ih =>
      have hlong : ¬ f.recordLength region < small := by omega
      rw [Format.Clear, dif_pos hbegins, dif_neg hlength, chain_next (hbegins.mono hle) hlong,
        List.cons.injEq, ih]
      exact and_iff_right rfl
  | case3 region hbegins =>
      rw [Format.Clear, dif_neg hbegins, eq_comm, chain_eq_nil_iff]

/-- Chains under two headers have permuted images only when they are equal. -/
theorem perm_map_chain_iff {γ : Type*} (g : List β → γ) (hsmall : 0 < small) (hlarge : 0 < large)
    (hle : small ≤ large) (region : List β) :
    ((f.chain large hlarge region).map g).Perm ((f.chain small hsmall region).map g) ↔
      f.Clear small large hlarge region := by
  rw [← chain_eq_iff_clear hsmall hlarge hle]
  constructor
  · intro h
    have hlength : (f.chain large hlarge region).length = (f.chain small hsmall region).length := by
      simpa using h.length_eq
    exact (chain_isPrefix hsmall hlarge hle region).eq_of_length hlength
  · intro h
    rw [h]

end RecordChains
