import Mathlib.Data.List.Induction
import FaultOracle.InsertionDict

/-!
# Dictionaries that a loop fills

A loop over a list which, for each element, reads the item of the element's key and writes it
anew leaves one item for each key, in the order in which the keys came first; the item depends
on the elements with its key and on no others (`accumulate_eq`).

Counting (`foldl_bump_eq`) and collecting into lists (`collect_eq`) are instances.
-/

namespace InsertionDict

variable {α κ ν β : Type*} [BEq κ] [LawfulBEq κ]

/-! ## Keys in the order of their first occurrence -/

/-- A key seen before adds nothing. -/
theorem eraseDups_concat_of_mem {ks : List κ} {k : κ} (h : k ∈ ks) :
    (ks ++ [k]).eraseDups = ks.eraseDups := by
  simp [List.eraseDups_append, List.removeAll, h]

/-- A new key comes last. -/
theorem eraseDups_concat_of_not_mem {ks : List κ} {k : κ} (h : k ∉ ks) :
    (ks ++ [k]).eraseDups = ks.eraseDups ++ [k] := by
  simp [List.eraseDups_append, List.removeAll, h, List.eraseDups_cons]

/-- Each key is there once. -/
theorem nodup_eraseDups (ks : List κ) : ks.eraseDups.Nodup := by
  induction ks using List.reverseRecOn with
  | nil => exact List.nodup_nil
  | append_singleton ks k ih =>
      by_cases hk : k ∈ ks
      · rw [eraseDups_concat_of_mem hk]
        exact ih
      · rw [eraseDups_concat_of_not_mem hk, ← List.concat_eq_append, List.nodup_concat,
          List.mem_eraseDups]
        exact ⟨hk, ih⟩

/-- Which keys there are does not depend on their order. -/
theorem perm_eraseDups {ks other : List κ} (h : ∀ k, k ∈ ks ↔ k ∈ other) :
    ks.eraseDups.Perm other.eraseDups := by
  rw [List.perm_ext_iff_of_nodup (nodup_eraseDups ks) (nodup_eraseDups other)]
  intro k
  rw [List.mem_eraseDups, List.mem_eraseDups, h]

/-! ## Items made of keys -/

/-- A key's value is found. -/
theorem lookup_map_key_of_mem {ks : List κ} (value : κ → ν) {k : κ} (hk : k ∈ ks) :
    (ks.map fun j => (j, value j)).lookup k = some (value k) := by
  induction ks with
  | nil => cases hk
  | cons j ks ih =>
      rw [List.map_cons, List.lookup_cons]
      cases h : k == j with
      | true => rw [LawfulBEq.eq_of_beq h]
      | false =>
          have hne : k ≠ j := beq_eq_false_iff_ne.mp h
          exact ih ((List.mem_cons.mp hk).resolve_left hne)

/-- A missing key is not found. -/
theorem lookup_map_key_of_not_mem {ks : List κ} (value : κ → ν) {k : κ} (hk : k ∉ ks) :
    (ks.map fun j => (j, value j)).lookup k = none := by
  induction ks with
  | nil => rfl
  | cons j ks ih =>
      obtain ⟨hj, hrest⟩ := not_or.mp (mt List.mem_cons.mpr hk)
      rw [List.map_cons, List.lookup_cons, beq_eq_false_iff_ne.mpr hj]
      exact ih hrest

/-- Setting a present key changes its value only. -/
theorem setItem_map_key {ks : List κ} (value : κ → ν) {k : κ} (v : ν) (hnodup : ks.Nodup)
    (hk : k ∈ ks) : setItem k v (ks.map fun j => (j, value j)) =
      ks.map fun j => (j, if j == k then v else value j) := by
  induction ks with
  | nil => cases hk
  | cons j ks ih =>
      obtain ⟨hj, hrest⟩ := List.nodup_cons.mp hnodup
      rw [List.map_cons, List.map_cons, setItem]
      by_cases h : k = j
      · subst h
        have hsame : ks.map (fun i => (i, if i == k then v else value i)) =
            ks.map fun i => (i, value i) := by
          refine List.map_congr_left fun i hi => ?_
          have hne : i ≠ k := fun heq => hj (heq ▸ hi)
          rw [beq_eq_false_iff_ne.mpr hne]
          rfl
        simp [hsame]
      · have hin : k ∈ ks := (List.mem_cons.mp hk).resolve_left h
        have hbeq : (j == k) = false := beq_eq_false_iff_ne.mpr (Ne.symm h)
        rw [if_neg (by simp [h]), ih hrest hin, hbeq]
        rfl

/-! ## The loop -/

/-- `d[key(x)] = add(d.get(key(x)), x)` for every element. -/
def accumulate (key : α → κ) (add : Option ν → α → ν) (xs : List α) : List (κ × ν) :=
  xs.foldl (fun d x => setItem (key x) (add (d.lookup (key x)) x) d) []

omit [LawfulBEq κ] in
/-- The last element is added to what its key has. -/
theorem accumulate_concat (key : α → κ) (add : Option ν → α → ν) (xs : List α) (x : α) :
    accumulate key add (xs ++ [x]) =
      setItem (key x) (add ((accumulate key add xs).lookup (key x)) x)
        (accumulate key add xs) := by
  rw [accumulate, List.foldl_concat]
  rfl

/-- **The loop** leaves, for each key, what the elements with the key make. -/
theorem accumulate_eq {key : α → κ} {add : Option ν → α → ν} (value : List α → ν)
    (hfirst : ∀ x, add none x = value [x])
    (hnext : ∀ xs x, xs ≠ [] → add (some (value xs)) x = value (xs ++ [x])) (xs : List α) :
    accumulate key add xs =
      (xs.map key).eraseDups.map fun k => (k, value (xs.filter fun x => key x == k)) := by
  induction xs using List.reverseRecOn with
  | nil => rfl
  | append_singleton xs x ih =>
      have hother : ∀ k, k ≠ key x →
          (xs ++ [x]).filter (fun x => key x == k) = xs.filter fun x => key x == k := by
        intro k hk
        have hbeq : (key x == k) = false := beq_eq_false_iff_ne.mpr (Ne.symm hk)
        simp [List.filter_append, hbeq]
      have hsame : (xs ++ [x]).filter (fun y => key y == key x) =
          (xs.filter fun y => key y == key x) ++ [x] := by
        simp [List.filter_append]
      rw [accumulate_concat, ih, List.map_append, List.map_singleton]
      by_cases hx : key x ∈ xs.map key
      · have hfound : xs.filter (fun y => key y == key x) ≠ [] := by
          obtain ⟨y, hy, hkey⟩ := List.mem_map.mp hx
          exact List.ne_nil_of_mem (List.mem_filter.mpr ⟨hy, by simp [hkey]⟩)
        have hmem := List.mem_eraseDups.mpr hx
        rw [lookup_map_key_of_mem _ hmem, hnext _ _ hfound,
          setItem_map_key _ _ (nodup_eraseDups _) hmem, eraseDups_concat_of_mem hx]
        refine List.map_congr_left fun k _ => ?_
        by_cases hk : k = key x
        · rw [hk, hsame, beq_self_eq_true]
          rfl
        · rw [beq_eq_false_iff_ne.mpr hk, hother k hk]
          rfl
      · have hnone : xs.filter (fun y => key y == key x) = [] := by
          refine List.filter_eq_nil_iff.mpr fun y hy hkey => hx ?_
          exact List.mem_map.mpr ⟨y, hy, LawfulBEq.eq_of_beq hkey⟩
        have hnew : key x ∉ (xs.map key).eraseDups := mt List.mem_eraseDups.mp hx
        have hkeys : key x ∉ ((xs.map key).eraseDups.map fun k =>
            (k, value (xs.filter fun x => key x == k))).map Prod.fst := by
          rw [List.map_map]
          simpa [Function.comp_def] using hx
        rw [lookup_map_key_of_not_mem _ hnew, hfirst, setItem_of_not_mem hkeys,
          eraseDups_concat_of_not_mem hx, List.map_append, List.map_singleton, hsame, hnone,
          List.nil_append]
        congr 1
        refine List.map_congr_left fun k hk => ?_
        rw [hother k fun heq => hnew (heq ▸ hk)]

/-! ## Counting and collecting -/

/-- The counter of a list. -/
theorem foldl_bump_eq (ks : List κ) :
    ks.foldl bump [] = ks.eraseDups.map fun k => (k, ks.count k) := by
  have hcount : accumulate id (fun n (_ : κ) => n.getD 0 + 1) ks =
      (ks.map id).eraseDups.map fun k => (k, (ks.filter fun x => id x == k).length) :=
    accumulate_eq List.length (fun _ => rfl) (fun xs x _ => by simp) ks
  have hbump : ks.foldl bump [] = accumulate id (fun n (_ : κ) => n.getD 0 + 1) ks := rfl
  rw [hbump, hcount, List.map_id]
  refine List.map_congr_left fun k _ => ?_
  rw [List.count, List.countP_eq_length_filter]
  rfl

/-- `d[key(x)].extend(f(x))` for every element, in a `defaultdict(list)`. -/
def collect (key : α → κ) (f : α → List β) (xs : List α) : List (κ × List β) :=
  accumulate key (fun held x => held.getD [] ++ f x) xs

/-- Collecting gives each key once with all its results. -/
theorem collect_eq (key : α → κ) (f : α → List β) (xs : List α) :
    collect key f xs =
      (xs.map key).eraseDups.map fun k => (k, (xs.filter fun x => key x == k).flatMap f) := by
  refine accumulate_eq (fun xs => xs.flatMap f) (fun x => ?_) (fun xs x _ => ?_) xs
  · simp
  · simp [List.flatMap_append]

end InsertionDict
