import Mathlib.Data.List.Basic

/-!
# POSIX paths as `pathlib` has them

A path is its root and its components: the text is split at `/`, and empty components
and `.` are dropped, but `..` is kept.  Joining a relative text appends its components;
joining an absolute one replaces the path.

`isChild_join_iff` is the use of it: joining the name of a file gives the file of
that name in the directory exactly when the name has no `/`.
-/

namespace PosixPaths

/-- What a path starts with; two slashes are a root of their own, three are one. -/
inductive Root
  | relative
  | slash
  | doubleSlash
deriving DecidableEq, Repr

/-- A component survives the split of a text. -/
def IsComponent (part : List Char) : Prop := part ≠ [] ∧ part ≠ ['.'] ∧ '/' ∉ part

structure PosixPath where
  root : Root
  parts : List (List Char)
  components : ∀ part ∈ parts, IsComponent part

def rootOf : List Char → Root
  | '/' :: '/' :: '/' :: _ => .slash
  | '/' :: '/' :: _ => .doubleSlash
  | '/' :: _ => .slash
  | _ => .relative

/-- The components of a text. -/
def split (s : List Char) : List (List Char) :=
  (s.splitOn '/').filter (fun part => part ≠ [] ∧ part ≠ ['.'])

/-- No part of a split holds the separator. -/
theorem not_mem_of_mem_splitOn {α : Type*} [BEq α] [LawfulBEq α] (a : α) (xs : List α) :
    ∀ part ∈ xs.splitOn a, a ∉ part := by
  induction xs with
  | nil => simp
  | cons x xs ih =>
      rw [List.splitOn_cons_eq_if_modifyHead]
      cases hx : x == a with
      | true =>
          intro part hpart
          rcases List.mem_cons.mp hpart with rfl | hpart
          · exact List.not_mem_nil
          · exact ih part hpart
      | false =>
          obtain ⟨head, rest, hsplit⟩ := List.exists_cons_of_ne_nil (List.splitOn_ne_nil a xs)
          have hne : a ≠ x := fun h => by simp [h] at hx
          rw [hsplit] at ih ⊢
          intro part hpart
          rcases List.mem_cons.mp hpart with rfl | hpart
          · have hhead : a ∉ head := ih head List.mem_cons_self
            simp [hne, hhead]
          · exact ih part (List.mem_cons_of_mem _ hpart)

theorem isComponent_of_mem_split {s part : List Char} (h : part ∈ split s) :
    IsComponent part := by
  obtain ⟨hmem, hkept⟩ := List.mem_filter.mp h
  simp only [decide_eq_true_eq] at hkept
  exact ⟨hkept.1, hkept.2, not_mem_of_mem_splitOn '/' s part hmem⟩

/-- `Path(s)`. -/
def parse (s : List Char) : PosixPath where
  root := rootOf s
  parts := split s
  components := fun _ h => isComponent_of_mem_split h

/-- `dir / s`. -/
def PosixPath.join (dir : PosixPath) (s : List Char) : PosixPath :=
  match rootOf s with
  | .relative =>
      { root := dir.root
        parts := dir.parts ++ split s
        components := fun part h => (List.mem_append.mp h).elim (dir.components part)
          isComponent_of_mem_split }
  | _ => parse s

/-- The file `name` in the directory `dir` itself. -/
def IsChild (dir : PosixPath) (name : List Char) (path : PosixPath) : Prop :=
  path.root = dir.root ∧ path.parts = dir.parts ++ [name]

/-- A name without a separator is its own only component. -/
theorem split_name {name : List Char} (hname : IsComponent name) : split name = [name] := by
  unfold split
  rw [List.splitOn_eq_singleton hname.2.2]
  simp [hname.1, hname.2.1]

theorem rootOf_name {name : List Char} (hslash : '/' ∉ name) : rootOf name = .relative := by
  unfold rootOf
  split <;> simp_all

/-- A path never has a component which is no component. -/
theorem isComponent_of_isChild {dir path : PosixPath} {name : List Char}
    (h : IsChild dir name path) : IsComponent name := by
  apply path.components
  rw [h.2]
  simp

/-- **Joining a name.**  For a text which is neither empty nor `.`, `dir / name` is the
file `name` of the directory if and only if there is no `/` in it. -/
theorem isChild_join_iff (dir : PosixPath) {name : List Char} (hempty : name ≠ [])
    (hdot : name ≠ ['.']) : IsChild dir name (dir.join name) ↔ '/' ∉ name := by
  constructor
  · intro h
    exact (isComponent_of_isChild h).2.2
  · intro hslash
    unfold PosixPath.join
    rw [rootOf_name hslash]
    exact ⟨rfl, congrArg (dir.parts ++ ·) (split_name ⟨hempty, hdot, hslash⟩)⟩

/-! ## Texts -/

def Root.text : Root → List Char
  | .relative => []
  | .slash => ['/']
  | .doubleSlash => ['/', '/']

/-- `str(path)`. -/
def PosixPath.str (path : PosixPath) : List Char :=
  if path.root = .relative ∧ path.parts = [] then ['.']
  else path.root.text ++ ['/'].intercalate path.parts

theorem str_of_ne_nil {path : PosixPath} (h : path.parts ≠ []) :
    path.str = path.root.text ++ ['/'].intercalate path.parts := if_neg fun hnil => h hnil.2

/-- The components are told apart by the separator. -/
theorem intercalate_injective {parts other : List (List Char)} (hne : parts ≠ [])
    (hother : other ≠ []) (hslash : ∀ part ∈ parts, '/' ∉ part)
    (hslash' : ∀ part ∈ other, '/' ∉ part)
    (h : ['/'].intercalate parts = ['/'].intercalate other) : parts = other := by
  rw [← List.splitOn_intercalate '/' hslash hne, h, List.splitOn_intercalate '/' hslash' hother]

/-- What is appended goes to the last part. -/
theorem exists_splitOn_append (s : List Char) :
    ∃ front last, ∀ ext, '/' ∉ ext → (s ++ ext).splitOn '/' = front ++ [last ++ ext] := by
  induction s with
  | nil => exact ⟨[], [], fun ext hext => List.splitOn_eq_singleton hext⟩
  | cons c s ih =>
      obtain ⟨front, last, hsplit⟩ := ih
      by_cases hc : c = '/'
      · refine ⟨[] :: front, last, fun ext hext => ?_⟩
        rw [List.cons_append, List.splitOn_cons_eq_if_modifyHead, hsplit ext hext]
        simp [hc]
      · cases front with
        | nil =>
            refine ⟨[], c :: last, fun ext hext => ?_⟩
            rw [List.cons_append, List.splitOn_cons_eq_if_modifyHead, hsplit ext hext]
            simp [hc]
        | cons part front =>
            refine ⟨(c :: part) :: front, last, fun ext hext => ?_⟩
            rw [List.cons_append, List.splitOn_cons_eq_if_modifyHead, hsplit ext hext]
            simp [hc]

/-- A file with an extension: the directories on the way, and the name. -/
theorem exists_split_append (s : List Char) :
    ∃ front last, ∀ ext, '/' ∉ ext → 2 ≤ ext.length →
      split (s ++ ext) = front ++ [last ++ ext] := by
  obtain ⟨front, last, hsplit⟩ := exists_splitOn_append s
  refine ⟨front.filter (fun part => part ≠ [] ∧ part ≠ ['.']), last, fun ext hext hlength => ?_⟩
  have hlong : 2 ≤ (last ++ ext).length := by
    rw [List.length_append]
    omega
  have hne : last ++ ext ≠ [] := fun h => by simp [h] at hlong
  have hdot : last ++ ext ≠ ['.'] := fun h => by simp [h] at hlong
  rw [split, hsplit ext hext, List.filter_append]
  simp [hne, hdot]

theorem intercalate_append (front : List (List Char)) {back : List (List Char)} (h : back ≠ []) :
    ['/'].intercalate (front ++ back) =
      (front.flatMap fun part => part ++ ['/']) ++ ['/'].intercalate back := by
  induction front with
  | nil => rfl
  | cons part front ih =>
      have hne : front ++ back ≠ [] := fun hnil => h (List.append_eq_nil_iff.mp hnil).2
      rw [List.cons_append, List.intercalate_cons_of_ne_nil hne, ih, List.flatMap_cons]
      simp only [List.append_assoc]

/-- What stands before the components of a text which is joined. -/
def PosixPath.front (dir : PosixPath) : List Char :=
  dir.root.text ++ dir.parts.flatMap fun part => part ++ ['/']

theorem front_eq (dir : PosixPath) : dir.front = [] ∨ ∃ s, dir.front = s ++ ['/'] := by
  rcases List.eq_nil_or_concat dir.parts with hnil | ⟨parts, last, hparts⟩
  · unfold PosixPath.front
    rw [hnil]
    cases dir.root with
    | relative => exact .inl rfl
    | slash => exact .inr ⟨[], rfl⟩
    | doubleSlash => exact .inr ⟨['/'], rfl⟩
  · refine .inr ⟨dir.root.text ++ (parts.flatMap fun part => part ++ ['/']) ++ last, ?_⟩
    unfold PosixPath.front
    rw [hparts, List.concat_eq_append, List.flatMap_append]
    simp

theorem str_join (dir : PosixPath) {s : List Char} (hroot : rootOf s = .relative)
    (hsplit : split s ≠ []) : (dir.join s).str = dir.front ++ ['/'].intercalate (split s) := by
  have hjoin : dir.join s =
      { root := dir.root
        parts := dir.parts ++ split s
        components := fun part h => (List.mem_append.mp h).elim (dir.components part)
          isComponent_of_mem_split } := by
    unfold PosixPath.join
    rw [hroot]
  have hparts : (dir.join s).parts = dir.parts ++ split s := by rw [hjoin]
  have hroots : (dir.join s).root = dir.root := by rw [hjoin]
  rw [str_of_ne_nil (by rw [hparts]; simp [hsplit]), hparts, hroots,
    intercalate_append _ hsplit, PosixPath.front, List.append_assoc]

/-- Characters which are changed, but not to or from the separator or the dot, leave the
components where they are. -/
theorem split_map {f : Char → Char} (hslash : ∀ c, f c = '/' ↔ c = '/')
    (hdot : ∀ c, f c = '.' ↔ c = '.') (s : List Char) :
    split (s.map f) = (split s).map (List.map f) := by
  have hsplitOn : (s.map f).splitOn '/' = (s.splitOn '/').map (List.map f) := by
    induction s with
    | nil => rfl
    | cons c s ih =>
        rw [List.map_cons, List.splitOn_cons_eq_if_modifyHead,
          List.splitOn_cons_eq_if_modifyHead, ih]
        by_cases hc : c = '/'
        · simp [hc, (hslash '/').mpr rfl]
        · obtain ⟨head, rest, hparts⟩ :=
            List.exists_cons_of_ne_nil (List.splitOn_ne_nil '/' s)
          rw [hparts]
          simp [hc, mt (hslash c).mp hc]
  have hkept : ∀ part : List Char,
      decide (part.map f ≠ [] ∧ part.map f ≠ ['.']) = decide (part ≠ [] ∧ part ≠ ['.']) := by
    intro part
    rw [decide_eq_decide, ne_eq, ne_eq, List.map_eq_nil_iff]
    cases part with
    | nil => simp
    | cons c part => simp [hdot]
  rw [split, hsplitOn, List.filter_map, split]
  congr 1
  exact List.filter_congr fun part _ => hkept part

example : ((parse "/srv/handlers".toList).join "../../tmp/evil.sh".toList).parts =
    ["srv", "handlers", "..", "..", "tmp", "evil.sh"].map String.toList := by
  decide +kernel

end PosixPaths
