import FaultOracle.CeForecaster
import FaultOracle.ModelLoading
import FaultOracle.PosixPaths

/-!
# The files of a model

`save_model` of `ml/ce_forecaster.py` makes the names of its three files from the key of the
series: quotes are left out, `,` and `=` are replaced, and the name of the sidecar is that of the
model with each `.pkl` in its path replaced.

Different keys may be made into one name.  `filesApart_iff` says which: those that are alike but
for what is left out or replaced.
-/

namespace FaultOracle.Forecaster

open PosixPaths
open FaultOracle.Exporter (Text)
open FaultOracle.Models (shaPath replaceFrom)

/-! ## `save_model` -/

/-- `safe_key`. -/
def safeKey (labelKey : Text) : Text :=
  ((labelKey.filter fun c => c ≠ '"').map fun c => if c = ',' then '_' else c).map
    fun c => if c = '=' then '-' else c

/-- `str(model_path)`. -/
def modelPath (modelDir : PosixPath) (labelKey : Text) : Text :=
  (modelDir.join (safeKey labelKey ++ ".pkl".toList)).str

def metaPath (modelDir : PosixPath) (labelKey : Text) : Text :=
  (modelDir.join (safeKey labelKey ++ ".json".toList)).str

/-- The files which are written. -/
def savedFiles (modelDir : PosixPath) (labelKey : Text) : List Text :=
  [modelPath modelDir labelKey, shaPath (modelPath modelDir labelKey),
    metaPath modelDir labelKey]

/-- No file of the one key is a file of the other. -/
def FilesApart (modelDir : PosixPath) (key key' : Text) : Prop :=
  (savedFiles modelDir key).Disjoint (savedFiles modelDir key')

/-- Characters which are made one. -/
def SameChar (c d : Char) : Prop :=
  c = d ∨ (c ∈ [',', '_'] ∧ d ∈ [',', '_']) ∨ (c ∈ ['=', '-'] ∧ d ∈ ['=', '-'])

/-- Texts which are alike but for the characters that are replaced, and for `.pkl` in the one
where the other has `.sha256`. -/
inductive Alike : Text → Text → Prop
  | nil : Alike [] []
  | char {c d : Char} {u v : Text} (hchar : SameChar c d) (h : Alike u v) : Alike (c :: u) (d :: v)
  | extension {u v : Text} (h : Alike u v) : Alike (".pkl".toList ++ u) (".sha256".toList ++ v)
  | extension' {u v : Text} (h : Alike u v) : Alike (".sha256".toList ++ u) (".pkl".toList ++ v)

/-- The components of the model's path, with the characters of the key but for the quotes. -/
def nameParts (labelKey : Text) : List Text :=
  split ((labelKey.filter fun c => c ≠ '"') ++ ".pkl".toList)

/-! ## Replacing -/

section Replacing

variable {c d : Char} {s t u v : Text}

/-- A leading `.pkl` is replaced. -/
theorem shaPath_pkl (s : Text) : shaPath (".pkl".toList ++ s) = ".sha256".toList ++ shaPath s := by
  have hpkl : ".pkl".toList = ['.', 'p', 'k', 'l'] := rfl
  rw [shaPath, shaPath, hpkl]
  simp [replaceFrom]

/-- A character which begins no `.pkl` is kept. -/
theorem shaPath_cons (h : ¬ ".pkl".toList <+: c :: s) : shaPath (c :: s) = c :: shaPath s := by
  rw [shaPath, shaPath, replaceFrom, if_neg h]

/-- A character other than the dot is kept. -/
theorem shaPath_cons_of_ne (h : c ≠ '.') : shaPath (c :: s) = c :: shaPath s := by
  refine shaPath_cons fun hpre => h ?_
  exact (List.cons_prefix_cons.mp hpre).1.symm

/-- A text is empty, or begins with `.pkl`, or with a character that is kept. -/
theorem shaPath_cases (s : Text) : s = [] ∨ (∃ t, s = ".pkl".toList ++ t) ∨
    ∃ c t, s = c :: t ∧ shaPath s = c :: shaPath t := by
  cases s with
  | nil => exact .inl rfl
  | cons c t =>
      by_cases h : ".pkl".toList <+: c :: t
      · obtain ⟨u, hu⟩ := h
        exact .inr (.inl ⟨u, hu.symm⟩)
      · exact .inr (.inr ⟨c, t, rfl, shaPath_cons h⟩)

/-- A character which is not a dot has not been put in. -/
theorem shaPath_eq_cons (h : shaPath s = c :: v) (hc : c ≠ '.') :
    ∃ t, s = c :: t ∧ shaPath t = v := by
  rcases shaPath_cases s with rfl | ⟨t, rfl⟩ | ⟨d, t, rfl, hsha⟩
  · cases h
  · rw [shaPath_pkl] at h
    exact absurd (List.cons.inj h).1.symm hc
  · obtain ⟨rfl, hrest⟩ := List.cons.inj (hsha.symm.trans h)
    exact ⟨t, rfl, hrest⟩

/-- Neither has a text without one. -/
theorem shaPath_eq_append {w : Text} (h : shaPath s = w ++ v) (hw : '.' ∉ w) :
    ∃ t, s = w ++ t ∧ shaPath t = v := by
  induction w generalizing s with
  | nil => exact ⟨s, rfl, h⟩
  | cons c w ih =>
      obtain ⟨hc, hrest⟩ := not_or.mp (mt List.mem_cons.mpr hw)
      obtain ⟨t, rfl, ht⟩ := shaPath_eq_cons h (Ne.symm hc)
      obtain ⟨u, rfl, hu⟩ := ih ht hrest
      exact ⟨u, rfl, hu⟩

/-- A text without a dot is kept before any text. -/
theorem shaPath_append_plain {w : Text} (hw : '.' ∉ w) (s : Text) :
    shaPath (w ++ s) = w ++ shaPath s := by
  induction w with
  | nil => rfl
  | cons c w ih =>
      obtain ⟨hc, hw⟩ := not_or.mp (mt List.mem_cons.mpr hw)
      rw [List.cons_append, shaPath_cons_of_ne (Ne.symm hc), ih hw]
      rfl

/-- Equal texts are still equal behind one more character. -/
theorem shaPath_cons_congr (c : Char) (h : shaPath u = shaPath v) :
    shaPath (c :: u) = shaPath (c :: v) := by
  have hfree : '.' ∉ "pkl".toList := by decide
  have hhead : ∀ {s t : Text}, shaPath s = shaPath t → ".pkl".toList <+: c :: s →
      shaPath (c :: s) = shaPath (c :: t) := by
    intro s t hst hpre
    obtain ⟨rest, hrest⟩ := hpre
    obtain ⟨hdot, htail⟩ : '.' = c ∧ "pkl".toList ++ rest = s := List.cons.inj hrest
    have hs : shaPath s = "pkl".toList ++ shaPath rest := by
      rw [← htail, shaPath_append_plain hfree]
    obtain ⟨rest', rfl, hrest'⟩ := shaPath_eq_append (hst.symm.trans hs) hfree
    have hleft := shaPath_pkl rest
    have hright := shaPath_pkl rest'
    rw [hrest', ← hleft] at hright
    rw [← htail, ← hdot]
    exact hright.symm
  by_cases hu : ".pkl".toList <+: c :: u
  · exact hhead h hu
  · by_cases hv : ".pkl".toList <+: c :: v
    · exact (hhead h.symm hv).symm
    · rw [shaPath_cons hu, shaPath_cons hv, h]

/-- A leading `.sha256` is kept, since it holds no `.pkl`. -/
theorem shaPath_sha256 (s : Text) :
    shaPath (".sha256".toList ++ s) = ".sha256".toList ++ shaPath s := by
  have hsha : ".sha256".toList = ['.', 's', 'h', 'a', '2', '5', '6'] := rfl
  have hpkl : ".pkl".toList = ['.', 'p', 'k', 'l'] := rfl
  have hfirst : ¬ ".pkl".toList <+: '.' :: ("sha256".toList ++ s) := by
    rw [hpkl]
    simp
  rw [hsha, List.cons_append]
  exact (shaPath_cons hfirst).trans (congrArg _ (shaPath_append_plain (by decide) s))

/-- Texts with the same sidecar have the same sidecar after any common prefix. -/
theorem shaPath_append_congr (w : Text) (h : shaPath u = shaPath v) :
    shaPath (w ++ u) = shaPath (w ++ v) := by
  induction w with
  | nil => exact h
  | cons c w ih => exact shaPath_cons_congr c ih

/-- A part that begins with no letter of the extension is replaced by itself. -/
theorem shaPath_append (u : Text) (hv : ∀ c ∈ v.head?, c ∉ "pkl".toList) :
    shaPath (u ++ v) = shaPath u ++ shaPath v := by
  obtain ⟨n, hn⟩ : ∃ n, u.length ≤ n := ⟨_, le_rfl⟩
  induction n generalizing u with
  | zero =>
      obtain rfl := List.eq_nil_of_length_eq_zero (by omega : u.length = 0)
      rfl
  | succ n ih =>
      cases u with
      | nil => rfl
      | cons c s =>
          rw [List.length_cons] at hn
          by_cases hpre : ".pkl".toList <+: c :: s
          · obtain ⟨rest, hrest⟩ := hpre
            have hlength : rest.length ≤ n := by
              have hsum := congrArg List.length hrest
              have hpkl : ".pkl".toList.length = 4 := rfl
              rw [List.length_append, hpkl, List.length_cons] at hsum
              omega
            rw [← hrest, List.append_assoc, shaPath_pkl, shaPath_pkl, ih rest hlength,
              List.append_assoc]
          · have hlong : ¬ ".pkl".toList <+: c :: (s ++ v) := by
              intro hlong
              obtain ⟨rest, hrest⟩ : c :: s <+: ".pkl".toList :=
                (List.prefix_or_prefix_of_prefix hlong (List.prefix_append (c :: s) v)).resolve_left
                  hpre
              obtain ⟨_, hs⟩ : c = '.' ∧ s ++ rest = "pkl".toList := List.cons.inj hrest
              rw [← hrest] at hlong
              have htail : rest <+: v := (List.prefix_append_right_inj (c :: s)).mp hlong
              cases rest with
              | nil => exact hpre (by rw [← hrest, List.append_nil])
              | cons a rest =>
                  obtain ⟨v', rfl⟩ := htail
                  exact hv a rfl (hs ▸ List.mem_append_right s List.mem_cons_self)
            rw [List.cons_append, shaPath_cons hlong, shaPath_cons hpre, ih s (by omega)]
            rfl

theorem not_mem_shaPath (h : '/' ∉ s) : '/' ∉ shaPath s := by
  obtain ⟨n, hn⟩ : ∃ n, s.length ≤ n := ⟨_, le_rfl⟩
  induction n generalizing s with
  | zero =>
      obtain rfl := List.eq_nil_of_length_eq_zero (by omega : s.length = 0)
      exact List.not_mem_nil
  | succ n ih =>
      rcases shaPath_cases s with rfl | ⟨t, rfl⟩ | ⟨c, t, rfl, hsha⟩
      · exact List.not_mem_nil
      · have hpkl : ".pkl".toList.length = 4 := rfl
        have hfree : '/' ∉ ".sha256".toList := by decide
        rw [List.length_append, hpkl] at hn
        rw [shaPath_pkl, List.mem_append, not_or]
        exact ⟨hfree, ih (fun ht => h (List.mem_append_right _ ht)) (by omega)⟩
      · rw [List.length_cons] at hn
        rw [hsha, List.mem_cons, not_or]
        rw [List.mem_cons, not_or] at h
        exact ⟨h.1, ih h.2 (by omega)⟩

/-- A character outside `pkl` at the front does not complete a `.pkl`. -/
theorem head_not_mem (hc : c ∉ "pkl".toList) (s : Text) :
    ∀ d ∈ (c :: s).head?, d ∉ "pkl".toList := by
  intro d hd
  rw [List.head?_cons, Option.mem_some] at hd
  rwa [← hd]

/-- The separator stays where it is. -/
theorem shaPath_intercalate {parts : List Text} :
    shaPath (['/'].intercalate parts) = ['/'].intercalate (parts.map shaPath) := by
  have hslash := head_not_mem (c := '/') (by decide)
  induction parts with
  | nil => rfl
  | cons part parts ih =>
      cases parts with
      | nil => simp
      | cons next parts =>
          rw [List.intercalate_cons_cons, List.map_cons, List.map_cons,
            List.intercalate_cons_cons, ← List.map_cons, ← ih, List.append_assoc, List.append_assoc,
            List.singleton_append, List.singleton_append, shaPath_append part (hslash _),
            shaPath_cons_of_ne (by decide)]

end Replacing

/-! ## Alike texts -/

section Alike

variable {c d : Char} {s t u v : Text}

/-- The character of the name. -/
def nameChar (c : Char) : Char :=
  if (if c = ',' then '_' else c) = '=' then '-' else if c = ',' then '_' else c

/-- The file's key drops the quotes and maps the other characters one by one. -/
theorem safeKey_eq (labelKey : Text) :
    safeKey labelKey = (labelKey.filter fun c => c ≠ '"').map nameChar := by
  rw [safeKey, List.map_map]
  rfl

/-- A character which the map does not touch has only itself as its source. -/
theorem nameChar_eq_iff (hc : c ∉ [',', '_', '=', '-']) {x : Char} : nameChar x = c ↔ x = c := by
  simp only [List.mem_cons, List.not_mem_nil, or_false, not_or] at hc
  unfold nameChar
  by_cases hcomma : x = ','
  · subst hcomma
    simp [Ne.symm hc.1, Ne.symm hc.2.1]
  · by_cases hequal : x = '='
    · subst hequal
      simp [Ne.symm hc.2.2.1, Ne.symm hc.2.2.2]
    · simp [hcomma, hequal]

/-- The map keeps every other character. -/
theorem nameChar_of_plain (hc : c ∉ [',', '_', '=', '-']) : nameChar c = c :=
  (nameChar_eq_iff hc).mpr rfl

/-- Two characters are mapped to one exactly when they are the same for the file's name. -/
theorem sameChar_iff : nameChar c = nameChar d ↔ SameChar c d := by
  have hclass : ∀ x : Char, (x ∈ [',', '_'] ∧ nameChar x = '_') ∨
      (x ∈ ['=', '-'] ∧ nameChar x = '-') ∨ (x ∉ [',', '_', '=', '-'] ∧ nameChar x = x) := by
    intro x
    by_cases hx : x ∈ [',', '_', '=', '-']
    · simp only [List.mem_cons, List.not_mem_nil, or_false] at hx
      rcases hx with rfl | rfl | rfl | rfl
      · exact .inl (by decide)
      · exact .inl (by decide)
      · exact .inr (.inl (by decide))
      · exact .inr (.inl (by decide))
    · exact .inr (.inr ⟨hx, nameChar_of_plain hx⟩)
  unfold SameChar
  rcases hclass c with ⟨hc, hname⟩ | ⟨hc, hname⟩ | ⟨hc, hname⟩ <;>
    rcases hclass d with ⟨hd, hname'⟩ | ⟨hd, hname'⟩ | ⟨hd, hname'⟩ <;>
    rw [hname, hname'] <;> simp at hc hd ⊢ <;> grind

/-- The name begins with plain characters just if the text does. -/
theorem map_nameChar_eq_append {w : Text} (hw : ∀ c ∈ w, c ∉ [',', '_', '=', '-'])
    (h : u.map nameChar = w ++ t) : ∃ rest, u = w ++ rest ∧ rest.map nameChar = t := by
  induction w generalizing u with
  | nil => exact ⟨u, rfl, h⟩
  | cons c w ih =>
      cases u with
      | nil => cases h
      | cons x u =>
          obtain ⟨hx, hrest⟩ := List.cons.inj h
          obtain ⟨hc, hw⟩ := List.forall_mem_cons.mp hw
          obtain ⟨rest, rfl, hmap⟩ := ih hw hrest
          exact ⟨rest, by rw [(nameChar_eq_iff hc).mp hx]; rfl, hmap⟩

theorem map_nameChar_append {w : Text} (hw : ∀ c ∈ w, c ∉ [',', '_', '=', '-']) (u : Text) :
    (w ++ u).map nameChar = w ++ u.map nameChar := by
  rw [List.map_append, List.map_congr_left fun c hc => nameChar_of_plain (hw c hc), List.map_id']

/-- The extension `.pkl` has no mapped character. -/
theorem plain_pkl : ∀ c ∈ ".pkl".toList, c ∉ [',', '_', '=', '-'] := by
  have hall : ".pkl".toList.all (fun c => c ∉ [',', '_', '=', '-']) = true := by decide
  exact fun c hc => of_decide_eq_true (List.all_eq_true.mp hall c hc)

/-- The extension `.sha256` has no mapped character. -/
theorem plain_sha256 : ∀ c ∈ ".sha256".toList, c ∉ [',', '_', '=', '-'] := by
  have hall : ".sha256".toList.all (fun c => c ∉ [',', '_', '=', '-']) = true := by decide
  exact fun c hc => of_decide_eq_true (List.all_eq_true.mp hall c hc)

/-- Texts alike are alike after any common prefix. -/
theorem Alike.append_left (h : Alike u v) (w : Text) : Alike (w ++ u) (w ++ v) := by
  induction w with
  | nil => exact h
  | cons c w ih => exact .char (.inl rfl) ih

/-- Texts alike have the same sidecar once mapped. -/
theorem shaPath_of_alike (h : Alike u v) :
    shaPath (u.map nameChar) = shaPath (v.map nameChar) := by
  induction h with
  | nil => rfl
  | char hchar _ ih =>
      rw [List.map_cons, List.map_cons, sameChar_iff.mpr hchar]
      exact shaPath_cons_congr _ ih
  | extension _ ih =>
      rw [map_nameChar_append plain_pkl, map_nameChar_append plain_sha256, shaPath_pkl, ih]
      exact (shaPath_sha256 _).symm
  | extension' _ ih =>
      rw [map_nameChar_append plain_pkl, map_nameChar_append plain_sha256, shaPath_pkl, ← ih]
      exact shaPath_sha256 _

/-- A text with the new extension where the other has the old one. -/
theorem shaPath_eq_sha256 (h : shaPath (c :: s) = ".sha256".toList ++ t)
    (hkept : shaPath (c :: s) = c :: shaPath s) :
    ∃ rest, c :: s = ".sha256".toList ++ rest ∧ shaPath rest = t := by
  have hfree : '.' ∉ "sha256".toList := by decide
  obtain ⟨hdot, hrest⟩ : c = '.' ∧ shaPath s = "sha256".toList ++ t :=
    List.cons.inj (hkept.symm.trans h)
  obtain ⟨rest, rfl, htail⟩ := shaPath_eq_append hrest hfree
  exact ⟨rest, by rw [hdot]; rfl, htail⟩

/-- Mapped texts with the same sidecar come from texts alike. -/
theorem alike_of_shaPath (h : shaPath (u.map nameChar) = shaPath (v.map nameChar)) :
    Alike u v := by
  obtain ⟨n, hn⟩ : ∃ n, u.length + v.length ≤ n := ⟨_, le_rfl⟩
  induction n generalizing u v with
  | zero =>
      obtain rfl := List.eq_nil_of_length_eq_zero (by omega : u.length = 0)
      obtain rfl := List.eq_nil_of_length_eq_zero (by omega : v.length = 0)
      exact .nil
  | succ n ih =>
      have hlength : ".pkl".toList.length = 4 := rfl
      have hlength' : ".sha256".toList.length = 7 := rfl
      rcases shaPath_cases (u.map nameChar) with hu | ⟨t, hu⟩ | ⟨c, t, hu, hsha⟩
      · rcases shaPath_cases (v.map nameChar) with hv | ⟨t', hv⟩ | ⟨d, t', hv, hsha'⟩
        · rw [List.map_eq_nil_iff.mp hu, List.map_eq_nil_iff.mp hv]
          exact .nil
        · rw [hu, hv, shaPath_pkl] at h
          cases h
        · rw [hu, hsha'] at h
          cases h
      · obtain ⟨rest, rfl, rfl⟩ := map_nameChar_eq_append plain_pkl hu
        rw [hu, shaPath_pkl] at h
        rw [List.length_append, hlength] at hn
        rcases shaPath_cases (v.map nameChar) with hv | ⟨t', hv⟩ | ⟨d, t', hv, hsha'⟩
        · rw [hv] at h
          cases h
        · obtain ⟨rest', rfl, rfl⟩ := map_nameChar_eq_append plain_pkl hv
          rw [hv, shaPath_pkl, List.append_cancel_left_eq] at h
          rw [List.length_append] at hn
          exact (ih h (by omega)).append_left _
        · rw [hv] at h
          obtain ⟨t'', hend, hrest⟩ := shaPath_eq_sha256 h.symm (hv ▸ hsha')
          obtain ⟨rest', rfl, rfl⟩ := map_nameChar_eq_append plain_sha256 (hv.trans hend)
          rw [List.length_append] at hn
          exact .extension (ih hrest.symm (by omega))
      · rcases shaPath_cases (v.map nameChar) with hv | ⟨t', hv⟩ | ⟨d, t', hv, hsha'⟩
        · rw [hv, hsha] at h
          cases h
        · obtain ⟨rest', rfl, rfl⟩ := map_nameChar_eq_append plain_pkl hv
          rw [hv, shaPath_pkl, hu] at h
          obtain ⟨t'', hend, hrest⟩ := shaPath_eq_sha256 h (hu ▸ hsha)
          obtain ⟨rest, rfl, rfl⟩ := map_nameChar_eq_append plain_sha256 (hu.trans hend)
          rw [List.length_append, List.length_append, hlength, hlength'] at hn
          exact .extension' (ih hrest (by omega))
        · rw [hsha, hsha'] at h
          obtain ⟨hchar, hrest⟩ := List.cons.inj h
          obtain ⟨x, u, rfl, hx, rfl⟩ := List.map_eq_cons_iff.mp hu
          obtain ⟨y, v, rfl, hy, rfl⟩ := List.map_eq_cons_iff.mp hv
          rw [List.length_cons, List.length_cons] at hn
          exact .char (sameChar_iff.mp ((hx.trans hchar).trans hy.symm)) (ih hrest (by omega))

end Alike

/-! ## Names -/

section Names

variable (modelDir : PosixPath) {key key' : Text}

/-- Every key begins alike. -/
theorem labelKey_eq (metric : List (Text × Text)) :
    ∃ rest, labelKey metric = "instance".toList ++ rest := by
  have hbegin : "instance=\"".toList = "instance".toList ++ "=\"".toList := by decide
  unfold labelKey
  simp only [hbegin, List.append_assoc]
  exact ⟨_, rfl⟩

/-- A key which names a file below the directory. -/
def Relative (key : Text) : Prop := ∃ c rest, safeKey key = c :: rest ∧ c ≠ '/'

/-- The key of a metric never begins with a slash. -/
theorem relative_labelKey (metric : List (Text × Text)) : Relative (labelKey metric) := by
  obtain ⟨rest, hrest⟩ := labelKey_eq metric
  have hbegin : "instance".toList = 'i' :: "nstance".toList := by decide
  have hkept : nameChar 'i' = 'i' := by decide
  rw [Relative, safeKey_eq, hrest, hbegin, List.cons_append, List.filter_cons_of_pos (by decide),
    List.map_cons, hkept]
  exact ⟨'i', _, rfl, by decide⟩

theorem split_safeKey_ne_nil (key : Text) {ext : Text} (hslash : '/' ∉ ext)
    (hlength : 2 ≤ ext.length) : split (safeKey key ++ ext) ≠ [] := by
  obtain ⟨front, last, hsplit⟩ := exists_split_append (safeKey key)
  rw [hsplit ext hslash hlength]
  simp

/-- The path of a model file is the directory's text, then the parts of the name. -/
theorem str_join_safeKey (hkey : Relative key) {ext : Text} (hslash : '/' ∉ ext)
    (hlength : 2 ≤ ext.length) : (modelDir.join (safeKey key ++ ext)).str =
      modelDir.front ++ ['/'].intercalate (split (safeKey key ++ ext)) := by
  obtain ⟨c, rest, hsafe, hc⟩ := hkey
  have hroot : rootOf (safeKey key ++ ext) = .relative := by
    rw [hsafe, List.cons_append]
    unfold rootOf
    split <;> simp_all
  exact str_join modelDir hroot (split_safeKey_ne_nil key hslash hlength)

/-- The three names differ in what stands behind a common stem. -/
theorem exists_stem (hkey : Relative key) : ∃ stem, ∀ ext, '/' ∉ ext → 2 ≤ ext.length →
    (modelDir.join (safeKey key ++ ext)).str = stem ++ ext := by
  obtain ⟨front, last, hsplit⟩ := exists_split_append (safeKey key)
  refine ⟨modelDir.front ++ ((front.flatMap fun part => part ++ ['/']) ++ last),
    fun ext hslash hlength => ?_⟩
  rw [str_join_safeKey modelDir hkey hslash hlength, hsplit ext hslash hlength,
    intercalate_append front (List.cons_ne_nil _ _), List.intercalate_singleton]
  simp only [List.append_assoc]

/-- The sidecar of a `.pkl` file replaces its extension. -/
theorem shaPath_stem (stem : Text) :
    shaPath (stem ++ ".pkl".toList) = shaPath stem ++ ".sha256".toList := by
  have hlast : shaPath ".pkl".toList = ".sha256".toList := by decide
  have hdot : ∀ c ∈ ".pkl".toList.head?, c ∉ "pkl".toList := head_not_mem (by decide) "pkl".toList
  rw [shaPath_append stem hdot, hlast]

/-- The names have a file in common just if they have the sidecar in common. -/
theorem filesApart_iff_sidecar (hkey : Relative key) (hkey' : Relative key') :
    FilesApart modelDir key key' ↔
      shaPath (modelPath modelDir key) ≠ shaPath (modelPath modelDir key') := by
  obtain ⟨stem, hstem⟩ := exists_stem modelDir hkey
  obtain ⟨stem', hstem'⟩ := exists_stem modelDir hkey'
  have hlast : ∀ {u v : Text} {c d : Char}, u ++ [c] = v ++ [d] → c = d := by
    intro u v c d h
    exact List.singleton_inj.mp (List.append_inj' h rfl).2
  have hcross : ∀ u v : Text, u ++ ".pkl".toList ≠ v ++ ".sha256".toList ∧
      u ++ ".pkl".toList ≠ v ++ ".json".toList ∧ u ++ ".sha256".toList ≠ v ++ ".json".toList := by
    have hpkl : ".pkl".toList = ".pk".toList ++ ['l'] := by decide
    have hsha : ".sha256".toList = ".sha25".toList ++ ['6'] := by decide
    have hjson : ".json".toList = ".jso".toList ++ ['n'] := by decide
    intro u v
    rw [hpkl, hsha, hjson]
    simp only [← List.append_assoc]
    exact ⟨fun h => absurd (hlast h) (by decide), fun h => absurd (hlast h) (by decide),
      fun h => absurd (hlast h) (by decide)⟩
  have hpkl := hstem ".pkl".toList (by decide) (by decide)
  have hpkl' := hstem' ".pkl".toList (by decide) (by decide)
  have hjson := hstem ".json".toList (by decide) (by decide)
  have hjson' := hstem' ".json".toList (by decide) (by decide)
  have hsidecar : stem = stem' → shaPath stem = shaPath stem' := congrArg shaPath
  unfold FilesApart savedFiles modelPath metaPath
  rw [hpkl, hpkl', hjson, hjson', shaPath_stem, shaPath_stem]
  simp only [List.disjoint_cons_left, List.disjoint_nil_left, List.mem_cons, List.not_mem_nil,
    or_false, not_or, and_true, List.append_cancel_right_eq, ne_eq]
  constructor
  · intro h
    exact h.2.1.2.1
  · intro h
    have hne : stem ≠ stem' := mt hsidecar h
    exact ⟨⟨hne, (hcross _ _).1, (hcross _ _).2.1⟩,
      ⟨fun heq => (hcross _ _).1 heq.symm, h, (hcross _ _).2.2⟩,
      fun heq => (hcross _ _).2.1 heq.symm, fun heq => (hcross _ _).2.2 heq.symm, hne⟩

/-- The parts of the file's name are the mapped parts of the key. -/
theorem split_safeKey (key : Text) :
    split (safeKey key ++ ".pkl".toList) = (nameParts key).map (List.map nameChar) := by
  have hpkl : ".pkl".toList = ".pkl".toList.map nameChar := by decide
  have hslash : ∀ c, nameChar c = '/' ↔ c = '/' := fun _ => nameChar_eq_iff (by decide)
  have hdot : ∀ c, nameChar c = '.' ↔ c = '.' := fun _ => nameChar_eq_iff (by decide)
  rw [safeKey_eq, hpkl, ← List.map_append, split_map hslash hdot, nameParts]

/-- The replacement does not reach over a separator. -/
theorem shaPath_front (s t : Text) : shaPath (modelDir.front ++ s) =
    shaPath (modelDir.front ++ t) ↔ shaPath s = shaPath t := by
  constructor
  · intro h
    rcases front_eq modelDir with hfront | ⟨front, hfront⟩
    · rwa [hfront] at h
    · have hslash : ∀ u : Text, shaPath (modelDir.front ++ u) =
          shaPath front ++ '/' :: shaPath u := by
        intro u
        rw [hfront, List.append_assoc, List.singleton_append,
          shaPath_append front (head_not_mem (by decide) u), shaPath_cons_of_ne (by decide)]
      rw [hslash, hslash] at h
      exact (List.cons.inj (List.append_cancel_left h)).2
  · exact shaPath_append_congr _

/-- Two keys share a sidecar exactly when the parts of their names are alike. -/
theorem sidecar_eq_iff (hkey : Relative key) (hkey' : Relative key') :
    shaPath (modelPath modelDir key) = shaPath (modelPath modelDir key') ↔
      List.Forall₂ Alike (nameParts key) (nameParts key') := by
  have hslash : '/' ∉ ".pkl".toList := by decide
  have hlength : 2 ≤ ".pkl".toList.length := by decide
  have hparts : ∀ k : Text, ∀ part ∈ (split (safeKey k ++ ".pkl".toList)).map shaPath,
      '/' ∉ part := by
    intro k part hpart
    obtain ⟨s, hs, rfl⟩ := List.mem_map.mp hpart
    exact not_mem_shaPath (isComponent_of_mem_split hs).2.2
  have hne : ∀ k : Text, (split (safeKey k ++ ".pkl".toList)).map shaPath ≠ [] := fun k h =>
    split_safeKey_ne_nil k hslash hlength (List.map_eq_nil_iff.mp h)
  rw [modelPath, modelPath, str_join_safeKey modelDir hkey hslash hlength,
    str_join_safeKey modelDir hkey' hslash hlength, shaPath_front, shaPath_intercalate,
    shaPath_intercalate]
  have hcancel : ['/'].intercalate ((split (safeKey key ++ ".pkl".toList)).map shaPath) =
      ['/'].intercalate ((split (safeKey key' ++ ".pkl".toList)).map shaPath) ↔
      (split (safeKey key ++ ".pkl".toList)).map shaPath =
        (split (safeKey key' ++ ".pkl".toList)).map shaPath :=
    ⟨intercalate_injective (hne key) (hne key') (hparts key) (hparts key'), congrArg _⟩
  rw [hcancel, split_safeKey, split_safeKey, List.map_map, List.map_map, ← List.forall₂_eq_eq_eq,
    List.forall₂_map_left_iff, List.forall₂_map_right_iff]
  refine ⟨fun h => h.imp fun u v => alike_of_shaPath, fun h => h.imp fun u v => shaPath_of_alike⟩

/-- **The files of two series.**  No file of the one is a file of the other just if their names
are not alike, component by component: whether or not the keys are different. -/
theorem filesApart_iff (metric metric' : List (Text × Text)) :
    FilesApart modelDir (labelKey metric) (labelKey metric') ↔
      ¬ List.Forall₂ Alike (nameParts (labelKey metric)) (nameParts (labelKey metric')) := by
  have hkey := relative_labelKey metric
  have hkey' := relative_labelKey metric'
  rw [filesApart_iff_sidecar modelDir hkey hkey', ne_eq, sidecar_eq_iff modelDir hkey hkey']

/-- The name of an instance holds a comma where that of the other has an underscore. -/
theorem instances_share_files : ¬ (∀ (modelDir : PosixPath) (metric metric' : List (Text × Text)),
    labelKey metric ≠ labelKey metric' →
      FilesApart modelDir (labelKey metric) (labelKey metric')) := by
  intro h
  have hkeys : labelKey [("instance".toList, "rack_1".toList)] ≠
      labelKey [("instance".toList, "rack,1".toList)] := by decide
  have hsafe : safeKey (labelKey [("instance".toList, "rack_1".toList)]) =
      safeKey (labelKey [("instance".toList, "rack,1".toList)]) := by decide
  have hpath : modelPath (parse "/models".toList)
      (labelKey [("instance".toList, "rack_1".toList)]) ∈ savedFiles (parse "/models".toList)
        (labelKey [("instance".toList, "rack,1".toList)]) := by
    rw [modelPath, hsafe]
    exact List.mem_cons_self
  exact h (parse "/models".toList) _ _ hkeys List.mem_cons_self hpath

end Names

end FaultOracle.Forecaster
