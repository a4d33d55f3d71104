import Mathlib.Algebra.GroupWithZero.Nat
import Mathlib.Data.List.Basic
import Mathlib.Data.List.Nodup
import Mathlib.Data.List.Perm.Subperm
import Mathlib.Order.Lattice

/-!
# Dictionaries in insertion order

A Python `dict` as the list of its items, oldest key first.  Reading is
`List.lookup`; `setItem` replaces the value of a key in its place and appends a
new one, `delItem` removes a key.  Keys are compared with `==`, which need not be
a lawful equality: a float NaN is a key that equals no other.
-/

namespace InsertionDict

variable {κ ν : Type*} [BEq κ]

/-- `d[k] = v`. -/
def setItem (k : κ) (v : ν) : List (κ × ν) → List (κ × ν)
  | [] => [(k, v)]
  | item :: rest => if k == item.1 then (item.1, v) :: rest else item :: setItem k v rest

/-- `del d[k]`. -/
def delItem (k : κ) (d : List (κ × ν)) : List (κ × ν) := d.filter (fun item => !(k == item.1))

variable [LawfulBEq κ]

@[simp] theorem lookup_setItem_self (k : κ) (v : ν) (d : List (κ × ν)) :
    (setItem k v d).lookup k = some v := by
  induction d with
  | nil => simp [setItem]
  | cons item rest ih =>
      obtain ⟨name, value⟩ := item
      cases h : k == name with
      | true => simp [setItem, List.lookup_cons, h]
      | false => simp [setItem, List.lookup_cons, h, ih]

/-- The other keys keep their values. -/
theorem lookup_setItem_ne {k other : κ} (hne : other ≠ k) (v : ν) (d : List (κ × ν)) :
    (setItem k v d).lookup other = d.lookup other := by
  have hbeq : (other == k) = false := beq_eq_false_iff_ne.mpr hne
  induction d with
  | nil => simp [setItem, hne]
  | cons item rest ih =>
      obtain ⟨name, value⟩ := item
      cases h : k == name with
      | true =>
          have hk : k = name := LawfulBEq.eq_of_beq h
          simp [setItem, List.lookup_cons, ← hk, hbeq]
      | false =>
          cases hother : other == name with
          | true => simp [setItem, List.lookup_cons, h, hother]
          | false => simp [setItem, List.lookup_cons, h, hother, ih]

/-- The keys after one was set. -/
theorem mem_keys_setItem {k other : κ} {v : ν} {d : List (κ × ν)} :
    other ∈ (setItem k v d).map Prod.fst ↔ other = k ∨ other ∈ d.map Prod.fst := by
  induction d with
  | nil => simp [setItem]
  | cons item rest ih =>
      obtain ⟨name, value⟩ := item
      cases h : k == name with
      | true =>
          have hk : k = name := LawfulBEq.eq_of_beq h
          simp [setItem, hk]
      | false =>
          rw [setItem, if_neg (by simp [h]), List.map_cons, List.mem_cons, ih, List.map_cons,
            List.mem_cons]
          exact or_left_comm

/-- A new key is appended. -/
theorem setItem_of_not_mem {k : κ} {v : ν} {d : List (κ × ν)} (hk : k ∉ d.map Prod.fst) :
    setItem k v d = d ++ [(k, v)] := by
  induction d with
  | nil => rfl
  | cons item rest ih =>
      rw [List.map_cons, List.mem_cons, not_or] at hk
      rw [setItem, if_neg (by simpa using hk.1), ih hk.2, List.cons_append]

omit [LawfulBEq κ] in
theorem length_le_length_setItem {k : κ} {v : ν} {d : List (κ × ν)} :
    d.length ≤ (setItem k v d).length := by
  induction d with
  | nil => exact Nat.zero_le _
  | cons item rest ih =>
      rw [setItem]
      split
      · exact le_rfl
      · exact Nat.succ_le_succ ih

/-- No key is there twice. -/
theorem nodup_keys_setItem {k : κ} {v : ν} {d : List (κ × ν)} (hd : (d.map Prod.fst).Nodup) :
    ((setItem k v d).map Prod.fst).Nodup := by
  induction d with
  | nil => simp [setItem]
  | cons item rest ih =>
      obtain ⟨name, value⟩ := item
      obtain ⟨hname, hrest⟩ := List.nodup_cons.mp (List.map_cons ▸ hd)
      cases h : k == name with
      | true => simpa [setItem, h] using ⟨by simpa using hname, hrest⟩
      | false =>
          have hne : name ≠ k := (beq_eq_false_iff_ne.mp h).symm
          rw [setItem, if_neg (by simp [h]), List.map_cons, List.nodup_cons]
          refine ⟨?_, ih hrest⟩
          rw [mem_keys_setItem]
          exact not_or.mpr ⟨hne, hname⟩

/-- Distinct new keys are appended, in their order. -/
theorem foldl_setItem_of_nodup {items d : List (κ × ν)} (h : ((d ++ items).map Prod.fst).Nodup) :
    items.foldl (fun d item => setItem item.1 item.2 d) d = d ++ items := by
  induction items generalizing d with
  | nil => exact (List.append_nil d).symm
  | cons item items ih =>
      have hnew : item.1 ∉ d.map Prod.fst := by
        rw [List.map_append, List.map_cons] at h
        exact fun hmem => (List.nodup_append.mp h).2.2 _ hmem _ (.head _) rfl
      have hassoc : d ++ item :: items = d ++ [item] ++ items := by simp
      rw [List.foldl_cons, setItem_of_not_mem hnew, ih (hassoc ▸ h), ← hassoc]

/-- Whatever is assigned, the keys are those of the items, each once. -/
theorem keys_foldl_setItem {items d : List (κ × ν)} (hd : (d.map Prod.fst).Nodup) :
    ((items.foldl (fun d item => setItem item.1 item.2 d) d).map Prod.fst).Nodup ∧
      ∀ k, k ∈ (items.foldl (fun d item => setItem item.1 item.2 d) d).map Prod.fst ↔
        k ∈ d.map Prod.fst ∨ k ∈ items.map Prod.fst := by
  induction items generalizing d with
  | nil => exact ⟨hd, fun k => by simp⟩
  | cons item items ih =>
      obtain ⟨hnodup, hkeys⟩ := ih (nodup_keys_setItem (k := item.1) (v := item.2) hd)
      refine ⟨hnodup, fun k => ?_⟩
      rw [List.foldl_cons, hkeys, mem_keys_setItem, List.map_cons, List.mem_cons, ← or_assoc,
        or_comm (a := k = item.1)]

/-- When as many keys are left as items were assigned, no key was assigned twice. -/
theorem nodup_keys_of_length_le {items : List (κ × ν)}
    (h : items.length ≤
      (items.foldl (fun d item => setItem item.1 item.2 d) ([] : List (κ × ν))).length) :
    (items.map Prod.fst).Nodup := by
  have hnil : (([] : List (κ × ν)).map Prod.fst).Nodup := List.nodup_nil
  obtain ⟨hnodup, hkeys⟩ : _ ∧ ∀ k, k ∈ _ ↔ _ ∨ k ∈ items.map Prod.fst :=
    keys_foldl_setItem hnil
  have hsub := List.subperm_of_subset hnodup fun k hk =>
    ((hkeys k).mp hk).resolve_left List.not_mem_nil
  exact (hsub.perm_of_length_le (by simpa using h)).nodup_iff.mp hnodup

omit [LawfulBEq κ] in
/-- A lookup among mapped values. -/
theorem lookup_map_snd {μ : Type*} (f : ν → μ) (k : κ) (d : List (κ × ν)) :
    (d.map fun item => (item.1, f item.2)).lookup k = (d.lookup k).map f := by
  induction d with
  | nil => rfl
  | cons item d ih =>
      rw [List.map_cons, List.lookup_cons, List.lookup_cons, ih]
      cases k == item.1 <;> rfl

/-- Of keys which are not there twice, at most one item has a given one. -/
theorem filter_key {k : κ} {d : List (κ × ν)} (hd : (d.map Prod.fst).Nodup) :
    (d.filter fun item => k == item.1).map Prod.snd = (d.lookup k).toList := by
  induction d with
  | nil => rfl
  | cons item d ih =>
      obtain ⟨hname, hrest⟩ := List.nodup_cons.mp (List.map_cons ▸ hd)
      rw [List.lookup_cons]
      cases h : k == item.1 with
      | true =>
          have hnone : d.filter (fun other => k == other.1) = [] := by
            refine List.filter_eq_nil_iff.mpr fun other hother hkey => hname ?_
            rw [← LawfulBEq.eq_of_beq h, LawfulBEq.eq_of_beq hkey]
            exact List.mem_map_of_mem hother
          simp only [List.filter_cons, h, if_true, hnone, List.map_cons, List.map_nil,
            Option.toList_some]
      | false =>
          simp only [List.filter_cons, h, Bool.false_eq_true, if_false, ih hrest]

/-! ## Counting -/

omit [LawfulBEq κ] in
/-- `d[k] = d.get(k, 0) + 1`. -/
def bump (d : List (κ × Nat)) (k : κ) : List (κ × Nat) :=
  setItem k ((d.lookup k).getD 0 + 1) d

omit [LawfulBEq κ] in
/-- Writing an item takes the number that was there out of the sum, and its own in. -/
theorem sum_setItem (k : κ) (n : Nat) (d : List (κ × Nat)) :
    ((setItem k n d).map Prod.snd).sum + (d.lookup k).getD 0 = (d.map Prod.snd).sum + n := by
  induction d with
  | nil => simp [setItem]
  | cons item rest ih =>
      obtain ⟨name, value⟩ := item
      cases h : k == name with
      | true =>
          simp only [setItem, List.lookup_cons, h, if_true, List.map_cons, List.sum_cons,
            Option.getD_some]
          omega
      | false =>
          simp only [setItem, List.lookup_cons, h, Bool.false_eq_true, if_false, List.map_cons,
            List.sum_cons]
          omega

omit [LawfulBEq κ] in
/-- Items that are written one after the other add no more than their numbers. -/
theorem sum_foldl_setItem_le (items d : List (κ × Nat)) :
    ((items.foldl (fun d item => setItem item.1 item.2 d) d).map Prod.snd).sum ≤
      (d.map Prod.snd).sum + (items.map Prod.snd).sum := by
  induction items generalizing d with
  | nil => exact Nat.le_add_right _ _
  | cons item items ih =>
      have hrest := ih (setItem item.1 item.2 d)
      have hfirst := sum_setItem item.1 item.2 d
      rw [List.foldl_cons, List.map_cons, List.sum_cons]
      omega

omit [LawfulBEq κ] in
/-- Counting a key adds one to the sum. -/
theorem sum_bump (d : List (κ × Nat)) (k : κ) :
    ((bump d k).map Prod.snd).sum = (d.map Prod.snd).sum + 1 := by
  have hsum := sum_setItem k ((d.lookup k).getD 0 + 1) d
  rw [bump]
  omega

/-- The counts after a key was counted. -/
theorem count_bump (d : List (κ × Nat)) (k other : κ) :
    ((bump d k).lookup other).getD 0 = (d.lookup other).getD 0 + if k == other then 1 else 0 := by
  by_cases h : other = k
  · simp [bump, h]
  · have hne : (k == other) = false := beq_eq_false_iff_ne.mpr (Ne.symm h)
    rw [bump, lookup_setItem_ne h, hne]
    rfl

/-- Counting a list adds, for each key, how often it is there. -/
theorem count_foldl_bump (ks : List κ) (d : List (κ × Nat)) (k : κ) :
    ((ks.foldl bump d).lookup k).getD 0 = (d.lookup k).getD 0 + ks.count k := by
  induction ks generalizing d with
  | nil => simp
  | cons first ks ih =>
      rw [List.foldl_cons, ih, count_bump, List.count_cons]
      omega

/-- The keys after some were counted. -/
theorem mem_keys_foldl_bump {ks : List κ} {d : List (κ × Nat)} {k : κ} :
    k ∈ (ks.foldl bump d).map Prod.fst ↔ k ∈ d.map Prod.fst ∨ k ∈ ks := by
  induction ks generalizing d with
  | nil => simp
  | cons first ks ih =>
      rw [List.foldl_cons, ih, bump, mem_keys_setItem, List.mem_cons, or_assoc]
      exact or_left_comm

/-- Counting keeps the keys distinct. -/
theorem nodup_keys_foldl_bump {ks : List κ} {d : List (κ × Nat)} (hd : (d.map Prod.fst).Nodup) :
    ((ks.foldl bump d).map Prod.fst).Nodup := by
  induction ks generalizing d with
  | nil => exact hd
  | cons first ks ih => exact ih (nodup_keys_setItem hd)

/-- Of keys which are not there twice, an item is what reading its key gives. -/
theorem mem_iff_lookup {ν : Type*} {d : List (κ × ν)} (hd : (d.map Prod.fst).Nodup) {k : κ}
    {v : ν} : (k, v) ∈ d ↔ d.lookup k = some v := by
  induction d with
  | nil => simp
  | cons item rest ih =>
      obtain ⟨name, value⟩ := item
      obtain ⟨hname, hrest⟩ := List.nodup_cons.mp (List.map_cons ▸ hd)
      rw [List.mem_cons, ih hrest, List.lookup_cons]
      cases h : k == name with
      | true =>
          have hk : k = name := LawfulBEq.eq_of_beq h
          have habsent : rest.lookup k ≠ some v := by
            intro hsome
            have hmem : (k, v) ∈ rest := (ih hrest).mpr hsome
            exact hname (hk ▸ List.mem_map.mpr ⟨(k, v), hmem, rfl⟩)
          simp [hk, hk ▸ habsent, eq_comm]
      | false =>
          have hk : k ≠ name := beq_eq_false_iff_ne.mp h
          simp [hk]

/-- What counting a list leaves: each key which is there, with its number. -/
theorem mem_foldl_bump {ks : List κ} {k : κ} {n : Nat} :
    (k, n) ∈ ks.foldl bump [] ↔ 0 < n ∧ n = ks.count k := by
  have hnodup : ((ks.foldl bump []).map Prod.fst).Nodup := nodup_keys_foldl_bump List.nodup_nil
  have hcount := count_foldl_bump ks [] k
  rw [List.lookup_nil, Option.getD_none, Nat.zero_add] at hcount
  rw [mem_iff_lookup hnodup]
  constructor
  · intro h
    rw [h, Option.getD_some] at hcount
    have hmem : k ∈ (ks.foldl bump []).map Prod.fst :=
      List.mem_map.mpr ⟨(k, n), (mem_iff_lookup hnodup).mpr h, rfl⟩
    have hks : k ∈ ks := by simpa using mem_keys_foldl_bump.mp hmem
    exact ⟨hcount ▸ List.count_pos_iff.mpr hks, hcount⟩
  · intro ⟨hpos, hn⟩
    cases h : (ks.foldl bump []).lookup k with
    | none =>
        rw [h, Option.getD_none] at hcount
        omega
    | some m =>
        rw [h, Option.getD_some] at hcount
        rw [hn, hcount]

/-! ## Sorted items -/

section Sorted

variable {κ ν : Type*} [LinearOrder κ]

/-- The sorted entries are in the order of their keys. -/
theorem pairwise_mergeSort_key (d : List (κ × ν)) :
    (d.mergeSort fun a b => decide (a.1 ≤ b.1)).Pairwise fun a b => a.1 ≤ b.1 := by
  have hle := @List.pairwise_mergeSort (κ × ν) (fun a b => decide (a.1 ≤ b.1))
    (fun a b c hab hbc => by
      simp only [decide_eq_true_eq] at hab hbc ⊢
      exact le_trans hab hbc)
    (fun a b => by
      simp only [Bool.or_eq_true, decide_eq_true_eq]
      exact le_total a.1 b.1) d
  exact hle.imp fun h => by simpa using h

/-- Of distinct keys, the order of the items does not matter when they are sorted. -/
theorem mergeSort_key_eq_of_perm {d other : List (κ × ν)} (hperm : d.Perm other)
    (hkeys : (d.map Prod.fst).Nodup) :
    (d.mergeSort fun a b => decide (a.1 ≤ b.1)) =
      other.mergeSort fun a b => decide (a.1 ≤ b.1) := by
  have hsorts (items : List (κ × ν)) :
      (items.mergeSort fun a b => decide (a.1 ≤ b.1)).Perm items := List.mergeSort_perm items _
  have hsame := ((hsorts d).trans hperm).trans (hsorts other).symm
  apply hsame.eq_of_pairwise _ (pairwise_mergeSort_key d) (pairwise_mergeSort_key other)
  intro a b ha hb hab hba
  have hkey : a.1 = b.1 := le_antisymm hab hba
  have ha' : a ∈ d := (hsorts d).mem_iff.mp ha
  have hb' : b ∈ d := hperm.mem_iff.mpr ((hsorts other).mem_iff.mp hb)
  exact List.inj_on_of_nodup_map hkeys ha' hb' hkey

end Sorted

end InsertionDict
