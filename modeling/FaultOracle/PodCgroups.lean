import FaultOracle.WorkloadImpact

/-!
# The control groups of pods

`parse_cgroup_for_pod` looks for the pod in the path of a control group, first between slashes
and then in the name of a slice.  Both patterns want a part of the path for the class of the pod
before it.  Kubernetes makes such a part for the classes Burstable and BestEffort; the groups of
a Guaranteed pod lie one level higher.

`podOf_cgroup` follows the patterns through the paths of either driver: the first two classes
give the uid, with underscores for its dashes in a slice, and a Guaranteed pod is never found.
-/

namespace FaultOracle.Workload

open BacktrackingRegex

/-! ## The paths which Kubernetes makes -/

/-- The class of service of a pod. -/
inductive Qos
  | guaranteed
  | burstable
  | bestEffort
deriving DecidableEq, Repr

def Qos.name : Qos → Text
  | .guaranteed => []
  | .burstable => "burstable".toList
  | .bestEffort => "besteffort".toList

/-- A digit of a uid, apart from its dashes. -/
def isUidDigit (c : Char) : Bool := c.isDigit || ('a' ≤ c && c ≤ 'f')

/-- A pod and one of its containers. -/
structure Pod where
  qos : Qos
  uid : Text
  container : Text
  uid_ne_nil : uid ≠ []
  uid_digits : ∀ c ∈ uid, isUidDigit c = true ∨ c = '-'
  container_digits : ∀ c ∈ container, isUidDigit c = true

/-- The uid in the name of a slice. -/
def Pod.sliceUid (pod : Pod) : Text := pod.uid.map fun c => if c = '-' then '_' else c

/-- Parts with a separator before each. -/
def joined (separator : Char) (parts : List Text) : Text := parts.flatMap (separator :: ·)

/-- A path with a slash before each part. -/
def path (parts : List Text) : Text := joined '/' parts

/-- The group which the `cgroupfs` driver makes. -/
def Pod.cgroupfs (pod : Pod) : List Text :=
  match pod.qos with
  | .guaranteed => ["kubepods".toList, "pod".toList ++ pod.uid, pod.container]
  | qos => ["kubepods".toList, qos.name, "pod".toList ++ pod.uid, pod.container]

/-- The scope of a container. -/
def Pod.scope (pod : Pod) : Text :=
  "cri-containerd-".toList ++ pod.container ++ ".scope".toList

/-- The group which the `systemd` driver makes. -/
def Pod.systemd (pod : Pod) : List Text :=
  match pod.qos with
  | .guaranteed =>
      ["kubepods.slice".toList, "kubepods-pod".toList ++ pod.sliceUid ++ ".slice".toList, pod.scope]
  | qos =>
      ["kubepods.slice".toList, "kubepods-".toList ++ qos.name ++ ".slice".toList,
        "kubepods-".toList ++ qos.name ++ "-pod".toList ++ pod.sliceUid ++ ".slice".toList,
        pod.scope]

/-! ## Cutting a text at a character -/

/-- A text is cut at its first separator in one way. -/
theorem cut_unique {c : Char} {s s' t t' : Text} (hs : c ∉ s) (hs' : c ∉ s')
    (h : s ++ c :: t = s' ++ c :: t') : s = s' ∧ t = t' := by
  have hstops : ∀ {s t : Text}, c ∉ s → (s ++ c :: t).takeWhile (· != c) = s := by
    intro s t hs
    rw [List.takeWhile_append_of_pos, List.takeWhile_cons_of_neg (by simp), List.append_nil]
    intro d hd
    simp only [bne_iff_ne, ne_eq]
    rintro rfl
    exact hs hd
  have heq : s = s' := by rw [← hstops (t := t) hs, h, hstops hs']
  subst heq
  exact ⟨rfl, (List.cons.inj (List.append_cancel_left h)).2⟩

/-- A word which does not reach past the separator lies before it. -/
theorem isPrefix_of_notMem {c : Char} {w s t : Text} (hw : c ∉ w) (h : w <+: s ++ c :: t) :
    w <+: s := by
  rcases List.prefix_or_prefix_of_prefix h (List.prefix_append s (c :: t)) with h | ⟨w', rfl⟩
  · exact h
  · cases w' with
    | nil => simp
    | cons d w' =>
        obtain ⟨rfl, -⟩ := List.cons_prefix_cons.1 ((List.prefix_append_right_inj s).1 h)
        exact absurd (by simp) hw

/-! ## The pattern between slashes -/

/-- What the path pattern matches has three components. -/
theorem split_of_at_rePodPath {text : Text} (h : rePodPath.At text) :
    ∃ a b rest, '/' ∉ a ∧ '/' ∉ b ∧ text = '/' ::
      (("kubepods".toList ++ a) ++ '/' :: (b ++ '/' :: ("pod".toList ++ rest))) := by
  obtain ⟨w, hw, more, rfl⟩ := h
  simp only [rePodPath, lang_append, lang_lit, lang_star, lang_group, lang_plus] at hw
  obtain ⟨_, u, ⟨_, _, ⟨_, b, ⟨_, _, ⟨_, a, rfl, ha, rfl⟩, rfl, rfl⟩, hb, rfl⟩, rfl, rfl⟩, -,
    rfl⟩ := hw
  have hslash : ∀ {s : Text}, (∀ c ∈ s, notSlash c = true) → '/' ∉ s :=
    fun hs hmem => absurd (hs '/' hmem) (by decide)
  refine ⟨a, b, u ++ more, hslash ha, hslash hb, ?_⟩
  simp

/-- No pod is between the slashes. -/
def PathFree : List Text → Prop
  | c :: b :: d :: rest =>
      ¬ ("kubepods".toList <+: c ∧ "pod".toList <+: d) ∧ PathFree (b :: d :: rest)
  | _ => True

/-- The first component, and the others behind it. -/
theorem joined_cons (separator : Char) (c : Text) (rest : List Text) :
    joined separator (c :: rest) = separator :: (c ++ joined separator rest) := rfl

/-- The same of a path. -/
theorem path_cons (c : Text) (rest : List Text) : path (c :: rest) = '/' :: (c ++ path rest) :=
  rfl

/-- The path pattern does not begin at a path without a pod. -/
theorem not_at_path {c : Text} {rest : List Text} (hc : '/' ∉ c) (hrest : ∀ d ∈ rest, '/' ∉ d)
    (hfree : PathFree (c :: rest)) : ¬ rePodPath.At (path (c :: rest)) := by
  intro hat
  obtain ⟨a, b, more, ha, hb, htext⟩ := split_of_at_rePodPath hat
  rw [path_cons] at htext
  have hpart := (List.cons.inj htext).2
  have hfirst : '/' ∉ "kubepods".toList ++ a := by
    rw [List.mem_append, not_or]
    exact ⟨by decide, ha⟩
  cases rest with
  | nil =>
      have hmem : '/' ∈ c ++ path [] := by
        rw [hpart]
        simp
      exact hc (by simpa [path, joined] using hmem)
  | cons d rest =>
      rw [path_cons] at hpart
      obtain ⟨hhead, hnext⟩ := cut_unique hc hfirst hpart
      have hd := hrest d List.mem_cons_self
      cases rest with
      | nil =>
          have hmem : '/' ∈ d ++ path [] := by
            rw [hnext]
            simp
          exact hd (by simpa [path, joined] using hmem)
      | cons e rest =>
          rw [path_cons] at hnext
          obtain ⟨-, hlast⟩ := cut_unique hd hb hnext
          refine hfree.1 ⟨hhead ▸ List.prefix_append _ _, ?_⟩
          have hpod : "pod".toList <+: e ++ path rest := hlast ▸ List.prefix_append _ _
          cases rest with
          | nil => simpa [path, joined] using hpod
          | cons f rest => exact isPrefix_of_notMem (by decide) hpod

/-- A match begins at a slash. -/
theorem at_rePodPath_append {s text : Text} (hs : '/' ∉ s) (hne : s ≠ []) :
    ¬ rePodPath.At (s ++ text) := by
  intro hat
  obtain ⟨a, b, rest, -, -, htext⟩ := split_of_at_rePodPath hat
  obtain ⟨c, s, rfl⟩ := List.exists_cons_of_ne_nil hne
  obtain ⟨rfl, -⟩ := List.cons.inj htext
  exact hs List.mem_cons_self

/-- A match stands in neither part, nor across them. -/
theorem not_occurs_append {re : Re} {s text : Text}
    (hs : ∀ u v, s = u ++ v → v ≠ [] → ¬ re.At (v ++ text)) (htext : ¬ re.Occurs text) :
    ¬ re.Occurs (s ++ text) := by
  rintro ⟨u, v, hsplit, hat⟩
  rcases List.append_eq_append_iff.1 hsplit with ⟨u', rfl, rfl⟩ | ⟨v', rfl, rfl⟩
  · exact htext ⟨u', v, rfl, hat⟩
  · by_cases hv : v' = []
    · subst hv
      exact htext ⟨[], text, rfl, hat⟩
    · exact hs u v' rfl hv hat

/-- Nor does it stand anywhere in such a path. -/
theorem not_occurs_path {front : Text} {parts : List Text} (hfront : '/' ∉ front)
    (hparts : ∀ c ∈ parts, '/' ∉ c) (hfree : PathFree parts) :
    ¬ rePodPath.Occurs (front ++ path parts) := by
  have hskip : ∀ {s text : Text}, '/' ∉ s → ∀ u v, s = u ++ v → v ≠ [] →
      ¬ rePodPath.At (v ++ text) := by
    rintro s text hs u v rfl hv
    exact at_rePodPath_append (fun h => hs (List.mem_append_right u h)) hv
  induction parts generalizing front with
  | nil =>
      refine not_occurs_append (hskip hfront) ?_
      rintro ⟨u, v, hsplit, hat⟩
      obtain ⟨-, rfl⟩ := List.append_eq_nil_iff.1 hsplit.symm
      obtain ⟨a, b, rest, -, -, htext⟩ := split_of_at_rePodPath hat
      cases htext
  | cons c rest ih =>
      have hc := hparts c List.mem_cons_self
      have hrest : ∀ d ∈ rest, '/' ∉ d := fun d hd => hparts d (List.mem_cons_of_mem c hd)
      have hlater : PathFree rest := by
        cases rest with
        | nil => trivial
        | cons b rest =>
            cases rest with
            | nil => trivial
            | cons d rest => exact hfree.2
      refine not_occurs_append (hskip hfront) ?_
      rw [path_cons, occurs_cons, not_or]
      exact ⟨not_at_path hc hrest hfree, ih hc hrest hlater⟩

/-! ## The pattern of a slice -/

/-- What the slice pattern matches has three parts. -/
theorem split_of_at_rePodSlice {text : Text} (h : rePodSlice.At text) :
    ∃ x rest, '-' ∉ x ∧
      text = "kubepods".toList ++ '-' :: (x ++ '-' :: ("pod".toList ++ rest)) := by
  obtain ⟨w, hw, more, rfl⟩ := h
  simp only [rePodSlice, lang_append, lang_lit, lang_group, lang_plus] at hw
  obtain ⟨_, _, ⟨_, u, ⟨_, _, ⟨_, x, rfl, hx, rfl⟩, rfl, rfl⟩, -, rfl⟩, rfl, rfl⟩ := hw
  refine ⟨x, u ++ ".slice".toList ++ more, fun h => by simpa using hx.2 '-' h, ?_⟩
  simp

/-- No pod is between the dashes. -/
def SliceFree : List Text → Prop
  | s :: d :: e :: rest =>
      ¬ ("kubepods".toList <:+ s ∧ "pod".toList <+: e) ∧ SliceFree (d :: e :: rest)
  | _ => True

/-- The slice pattern does not begin within a slice without a pod. -/
theorem not_at_slice {s u v : Text} {rest : List Text} (hs : '-' ∉ s)
    (hrest : ∀ d ∈ rest, '-' ∉ d) (hfree : SliceFree (s :: rest)) (hsplit : s = u ++ v) :
    ¬ rePodSlice.At (v ++ joined '-' rest) := by
  subst hsplit
  intro hat
  obtain ⟨x, more, hx, htext⟩ := split_of_at_rePodSlice hat
  have hv : '-' ∉ v := fun h => hs (List.mem_append_right u h)
  cases rest with
  | nil =>
      have hmem : '-' ∈ v ++ joined '-' [] := by
        rw [htext]
        simp
      exact hv (by simpa [joined] using hmem)
  | cons d rest =>
      rw [joined_cons] at htext
      obtain ⟨rfl, hpart⟩ := cut_unique hv (by decide) htext
      have hd := hrest d List.mem_cons_self
      cases rest with
      | nil =>
          have hmem : '-' ∈ d ++ joined '-' [] := by
            rw [hpart]
            simp
          exact hd (by simpa [joined] using hmem)
      | cons e rest =>
          rw [joined_cons] at hpart
          obtain ⟨-, hlast⟩ := cut_unique hd hx hpart
          refine hfree.1 ⟨List.suffix_append u _, ?_⟩
          have hpod : "pod".toList <+: e ++ joined '-' rest := hlast ▸ List.prefix_append _ _
          cases rest with
          | nil => simpa [joined] using hpod
          | cons f rest => exact isPrefix_of_notMem (by decide) hpod

/-- It begins with its first letter. -/
theorem head_of_at_rePodSlice {c : Char} {text : Text} (h : rePodSlice.At (c :: text)) :
    c = 'k' := by
  obtain ⟨x, rest, -, htext⟩ := split_of_at_rePodSlice h
  exact (List.cons.inj htext).1

/-- Nor does it stand anywhere in such a slice. -/
theorem not_occurs_slice {s : Text} {rest : List Text} (hs : '-' ∉ s)
    (hrest : ∀ d ∈ rest, '-' ∉ d) (hfree : SliceFree (s :: rest)) :
    ¬ rePodSlice.Occurs (s ++ joined '-' rest) := by
  induction rest generalizing s with
  | nil =>
      refine not_occurs_append (fun u v hsplit _ => not_at_slice hs hrest hfree hsplit) ?_
      rintro ⟨u, v, hsplit, hat⟩
      obtain ⟨-, rfl⟩ := List.append_eq_nil_iff.1 hsplit.symm
      obtain ⟨x, more, -, htext⟩ := split_of_at_rePodSlice hat
      cases htext
  | cons d rest ih =>
      have hd := hrest d List.mem_cons_self
      have hlater : SliceFree (d :: rest) := by
        cases rest with
        | nil => trivial
        | cons e rest => exact hfree.2
      refine not_occurs_append (fun u v hsplit _ => not_at_slice hs hrest hfree hsplit) ?_
      rw [joined_cons, occurs_cons, not_or]
      refine ⟨fun hat => absurd (head_of_at_rePodSlice hat) (by decide), ?_⟩
      exact ih hd (fun e he => hrest e (List.mem_cons_of_mem d he)) hlater

/-! ## The paths of a pod -/

section Paths

variable (pod : Pod) {front : Text}

/-- A digit of a uid is none of the characters that join the parts. -/
theorem ne_of_isUidDigit {c : Char} (hc : isUidDigit c = true) :
    c ≠ '/' ∧ c ≠ '-' ∧ c ≠ '.' ∧ c ≠ 'p' ∧ c ≠ 'k' := by
  refine ⟨?_, ?_, ?_, ?_, ?_⟩ <;> rintro rfl <;> exact absurd hc (by decide)

/-- A uid has no slash and no letter of the pattern. -/
theorem uid_plain {c : Char} (hc : c ∈ pod.uid) : c ≠ '/' ∧ c ≠ 'k' := by
  rcases pod.uid_digits c hc with h | rfl
  · exact ⟨(ne_of_isUidDigit h).1, (ne_of_isUidDigit h).2.2.2.2⟩
  · decide

/-- As a part of a slice it has no dash either. -/
theorem sliceUid_plain {c : Char} (hc : c ∈ pod.sliceUid) : c ≠ '/' ∧ c ≠ '-' ∧ c ≠ '.' := by
  obtain ⟨d, hd, rfl⟩ := List.mem_map.1 hc
  rcases pod.uid_digits d hd with h | rfl
  · obtain ⟨hslash, hdash, hdot, -⟩ := ne_of_isUidDigit h
    rw [if_neg hdash]
    exact ⟨hslash, hdash, hdot⟩
  · decide

/-- It is not empty. -/
theorem sliceUid_ne_nil : pod.sliceUid ≠ [] := by
  rw [Pod.sliceUid, ne_eq, List.map_eq_nil_iff]
  exact pod.uid_ne_nil

/-- A container's name does not begin like a pod. -/
theorem not_pod_container (rest : Text) (hrest : ¬ "pod".toList <+: rest) :
    ¬ "pod".toList <+: pod.container ++ rest := by
  intro h
  cases hcontainer : pod.container with
  | nil => exact hrest (by simpa [hcontainer] using h)
  | cons c more =>
      have hc := (ne_of_isUidDigit (pod.container_digits c (by simp [hcontainer]))).2.2.2.1
      rw [hcontainer] at h
      exact hc (List.cons_prefix_cons.1 h).1.symm

/-- Nor does the name of a class. -/
theorem qos_name_plain (qos : Qos) : '/' ∉ qos.name ∧ '-' ∉ qos.name ∧
    ¬ "pod".toList <+: qos.name := by
  cases qos <;> decide

/-- What the second pattern reads is behind the class. -/
theorem rePodSlice_reads {name u : Text} (rest : Text) (hname : name ≠ [] ∧ '-' ∉ name)
    (hu : u ≠ []) (hdot : ∀ c ∈ u, c ≠ '.') : ∃ f, Reads rePodSlice
      ("kubepods-".toList ++ name ++ "-pod".toList ++ u ++ ".slice".toList) rest f ∧
        f (fun _ => none) 1 = some u := by
  have hplus : ∀ {c : Char} {w more : Text}, w ≠ [] → (∀ d ∈ w, d ≠ c) → more.head? = some c →
      Reads (Re.plus fun d => d != c) w more id := by
    intro c w more hne hw hmore
    refine reads_plus hne (fun d hd => by simpa using hw d hd) ?_
    intro d hd
    rw [hmore] at hd
    obtain rfl := Option.mem_some_iff.1 hd
    simp
  have h4 : Reads (Re.group 1 (Re.plus fun d => d != '.')) u (".slice".toList ++ rest) _ :=
    (hplus hu hdot rfl).group 1
  have h5 : Reads (Re.lit ".slice".toList) ".slice".toList rest id := reads_lit _ _
  have h2 : Reads (Re.plus fun d => d != '-') name
      ("-pod".toList ++ (u ++ (".slice".toList ++ rest))) id :=
    hplus hname.1 (fun d hd h => hname.2 (h ▸ hd)) rfl
  have h3 : Reads (Re.lit "-pod".toList) "-pod".toList (u ++ (".slice".toList ++ rest)) id :=
    reads_lit _ _
  have h1 : Reads (Re.lit "kubepods-".toList) "kubepods-".toList
      (name ++ ("-pod".toList ++ (u ++ (".slice".toList ++ rest)))) id := reads_lit _ _
  exact ⟨_, (((h1.append h2).append h3).append h4).append h5, by simp⟩

/-- What the first pattern reads is behind the class. -/
theorem rePodPath_reads {name u : Text} (rest : Text) (hname : '/' ∉ name) (hu : u ≠ [])
    (hslash : '/' ∉ u) : ∃ f, Reads rePodPath
      ("/kubepods".toList ++ [] ++ "/".toList ++ name ++ "/pod".toList ++ u) ('/' :: rest) f ∧
        f (fun _ => none) 1 = some u := by
  have hplain : ∀ {w : Text}, '/' ∉ w → ∀ c ∈ w, notSlash c = true := by
    intro w hw c hc
    simp only [notSlash, bne_iff_ne, ne_eq]
    rintro rfl
    exact hw hc
  have hstops : ∀ {w : Text}, Stops notSlash ('/' :: w) := fun {w} => stops_cons.2 (by decide)
  have h6 : Reads (Re.group 1 (Re.plus notSlash)) u ('/' :: rest) _ :=
    (reads_plus hu (hplain hslash) hstops).group 1
  have h5 : Reads (Re.lit "/pod".toList) "/pod".toList (u ++ '/' :: rest) id := reads_lit _ _
  have h4 : Reads (Re.star notSlash) name ("/pod".toList ++ (u ++ '/' :: rest)) id :=
    reads_star (hplain hname) hstops
  have h3 : Reads (Re.lit "/".toList) "/".toList
      (name ++ ("/pod".toList ++ (u ++ '/' :: rest))) id := reads_lit _ _
  have h2 : Reads (Re.star notSlash) []
      ("/".toList ++ (name ++ ("/pod".toList ++ (u ++ '/' :: rest)))) id :=
    reads_star (by simp) hstops
  have h1 : Reads (Re.lit "/kubepods".toList) "/kubepods".toList
      ([] ++ ("/".toList ++ (name ++ ("/pod".toList ++ (u ++ '/' :: rest))))) id := reads_lit _ _
  exact ⟨_, ((((h1.append h2).append h3).append h4).append h5).append h6, by simp⟩

/-- A cgroupfs path with a class gives the uid. -/
theorem parse_of_path {name : Text} (hfront : '/' ∉ front) (hname : '/' ∉ name) :
    parseCgroupForPod (front ++ path ["kubepods".toList, name, "pod".toList ++ pod.uid,
      pod.container]) = (some pod.uid, none) := by
  obtain ⟨f, hreads, hgroup⟩ := rePodPath_reads pod.container hname pod.uid_ne_nil
    fun h => (uid_plain pod h).1 rfl
  have hsearch := hreads.search fun u v (hsplit : front = u ++ v) hv =>
    at_rePodPath_append (fun h => hfront (hsplit ▸ List.mem_append_right u h)) hv
  have htext : front ++ path ["kubepods".toList, name, "pod".toList ++ pod.uid, pod.container] =
      front ++ (("/kubepods".toList ++ [] ++ "/".toList ++ name ++ "/pod".toList ++ pod.uid) ++
        '/' :: pod.container) := by
    simp [path, joined]
  rw [parseCgroupForPod, htext, hsearch]
  exact congrArg (fun g => (g, none)) hgroup

/-- One without a class gives none. -/
theorem parse_of_no_class (hfront : '/' ∉ front ∧ '-' ∉ front) :
    parseCgroupForPod (front ++ path ["kubepods".toList, "pod".toList ++ pod.uid,
      pod.container]) = (none, none) := by
  have hcontainer : ∀ c ∈ pod.container, c ≠ '/' ∧ c ≠ 'k' := fun c hc =>
    ⟨(ne_of_isUidDigit (pod.container_digits c hc)).1,
      (ne_of_isUidDigit (pod.container_digits c hc)).2.2.2.2⟩
  have hparts : ∀ c ∈ ["kubepods".toList, "pod".toList ++ pod.uid, pod.container], '/' ∉ c := by
    intro c hc
    rcases List.mem_cons.1 hc with rfl | hc
    · decide
    rcases List.mem_cons.1 hc with rfl | hc
    · rw [List.mem_append, not_or]
      exact ⟨by decide, fun h => (uid_plain pod h).1 rfl⟩
    · obtain rfl := List.mem_singleton.1 hc
      exact fun h => (hcontainer _ h).1 rfl
  have hfree : PathFree ["kubepods".toList, "pod".toList ++ pod.uid, pod.container] := by
    refine ⟨fun h => not_pod_container pod [] (by decide) ?_, trivial⟩
    rw [List.append_nil]
    exact h.2
  have hpath : rePodPath.search (front ++ path ["kubepods".toList, "pod".toList ++ pod.uid,
      pod.container]) = none := searchFrom_eq_none (not_occurs_path hfront.1 hparts hfree)
  have htext : front ++ path ["kubepods".toList, "pod".toList ++ pod.uid, pod.container] =
      (front ++ "/kubepods".toList) ++ ("/pod".toList ++ pod.uid ++ '/' :: pod.container) := by
    simp [path, joined]
  have hslice : ¬ rePodSlice.Occurs (front ++ path ["kubepods".toList, "pod".toList ++ pod.uid,
      pod.container]) := by
    rw [htext]
    refine not_occurs_append ?_ ?_
    · intro u v hsplit _ hat
      obtain ⟨x, rest, -, htail⟩ := split_of_at_rePodSlice hat
      -- the slash comes before the dash which the pattern wants
      have hword : "kubepods-".toList <+: v ++ '/' :: ("pod".toList ++ pod.uid ++
          '/' :: pod.container) := by
        have hsame : v ++ '/' :: ("pod".toList ++ pod.uid ++ '/' :: pod.container) =
            "kubepods-".toList ++ (x ++ '-' :: ("pod".toList ++ rest)) := by
          simpa using htail
        exact hsame ▸ List.prefix_append _ _
      have hdash : '-' ∈ v := (isPrefix_of_notMem (by decide) hword).subset (by decide)
      have hmem : '-' ∈ front ++ "/kubepods".toList := hsplit ▸ List.mem_append_right u hdash
      rcases List.mem_append.1 hmem with h | h
      · exact hfront.2 h
      · exact absurd h (by decide)
    · rintro ⟨u, v, hsplit, hat⟩
      cases v with
      | nil =>
          obtain ⟨x, rest, -, htail⟩ := split_of_at_rePodSlice hat
          cases htail
      | cons c v =>
          obtain rfl := head_of_at_rePodSlice hat
          have hmem : 'k' ∈ "/pod".toList ++ pod.uid ++ '/' :: pod.container := by
            rw [hsplit]
            simp
          rcases List.mem_append.1 hmem with h | h
          · rcases List.mem_append.1 h with h | h
            · exact absurd h (by decide)
            · exact (uid_plain pod h).2 rfl
          · rcases List.mem_cons.1 h with h | h
            · exact absurd h (by decide)
            · exact (hcontainer _ h).2 rfl
  rw [parseCgroupForPod, hpath]
  simp only
  rw [show rePodSlice.search _ = none from searchFrom_eq_none hslice]

/-- The scope of containerd, spelled out. -/
theorem scope_eq : pod.scope =
    "cri-containerd-".toList ++ pod.container ++ ".scope".toList := rfl

/-- It has no slash. -/
theorem scope_plain : '/' ∉ pod.scope := by
  simp only [scope_eq, String.reduceToList, List.mem_append, not_or]
  exact ⟨⟨by decide, fun h => (ne_of_isUidDigit (pod.container_digits _ h)).1 rfl⟩, by decide⟩

/-- It does not begin like a pod. -/
theorem not_pod_scope : ¬ "pod".toList <+: pod.scope := by
  intro h
  simp only [scope_eq, String.reduceToList, List.cons_append, List.cons_prefix_cons] at h
  exact absurd h.1 (by decide)

/-- A slice has no slash. -/
theorem slice_plain {w : Text} (hw : '/' ∉ w) :
    '/' ∉ w ++ pod.sliceUid ++ ".slice".toList := by
  simp only [List.mem_append, not_or]
  exact ⟨⟨hw, fun h => (sliceUid_plain pod h).1 rfl⟩, by decide⟩

/-- Before the part of the pod the pattern of slices matches nowhere. -/
theorem not_at_before_pod {name more u v : Text} (hfront : '-' ∉ front)
    (hname : '-' ∉ name ∧ ¬ "pod".toList <+: name) (hv : v ≠ [])
    (hsplit : (front ++ "/kubepods.slice/kubepods".toList) ++ '-' :: (name ++ ".slice/".toList) =
      u ++ v) :
    ¬ rePodSlice.At (v ++ ("kubepods".toList ++ '-' :: (name ++ '-' :: more))) := by
  intro hat
  obtain ⟨x, rest, hx, hmatch⟩ := split_of_at_rePodSlice hat
  have hinner : '-' ∉ (name ++ ".slice/".toList) ++ "kubepods".toList := by
    simp [hname.1]
  rcases List.append_eq_append_iff.1 hsplit with ⟨u', rfl, hdash⟩ | ⟨v', hs, rfl⟩
  · cases u' with
    | nil =>
        obtain rfl := hdash.symm
        exact absurd (List.cons.inj hmatch).1 (by decide)
    | cons c u' =>
        -- a match in the class, or behind it, would begin with `kubepods` before the dash
        have hafter : name ++ ".slice/".toList = u' ++ v := (List.cons.inj hdash).2
        have hlong : (v ++ "kubepods".toList) ++ '-' :: (name ++ '-' :: more) =
            "kubepods".toList ++ '-' :: (x ++ '-' :: ("pod".toList ++ rest)) := by
          rw [← hmatch, List.append_assoc]
        have hnodash : '-' ∉ v ++ "kubepods".toList := by
          rw [hafter, List.append_assoc] at hinner
          exact fun h => hinner (List.mem_append_right u' h)
        have heq := (cut_unique hnodash (by decide) hlong).1
        exact hv (List.append_left_eq_self.1 heq)
  · -- a match from the front on takes the class for the pod
    have hv' : '-' ∉ v' := by
      intro h
      have hmem : '-' ∈ front ++ "/kubepods.slice/kubepods".toList :=
        hs ▸ List.mem_append_right u h
      rcases List.mem_append.1 hmem with h | h
      · exact hfront h
      · exact absurd h (by decide +kernel)
    have hlong : v' ++ '-' :: (((name ++ ".slice/".toList) ++ "kubepods".toList) ++
        '-' :: (name ++ '-' :: more)) =
        "kubepods".toList ++ '-' :: (x ++ '-' :: ("pod".toList ++ rest)) := by
      rw [← hmatch]
      simp
    obtain ⟨-, hnext⟩ := cut_unique hv' (by decide) hlong
    obtain ⟨-, hlast⟩ := cut_unique hinner hx hnext
    have hpod : "pod".toList <+: name ++ '-' :: more := hlast ▸ List.prefix_append _ _
    exact hname.2 (isPrefix_of_notMem (by decide) hpod)

/-- A systemd path with a class gives the uid of the slice. -/
theorem parse_of_slice {name : Text} (hfront : '/' ∉ front ∧ '-' ∉ front) (hne : name ≠ [])
    (hname : '/' ∉ name ∧ '-' ∉ name ∧ ¬ "pod".toList <+: name) :
    parseCgroupForPod (front ++ path ["kubepods.slice".toList,
      "kubepods-".toList ++ name ++ ".slice".toList,
      "kubepods-".toList ++ name ++ "-pod".toList ++ pod.sliceUid ++ ".slice".toList,
      pod.scope]) = (some pod.sliceUid, none) := by
  have hparts : ∀ c ∈ ["kubepods.slice".toList, "kubepods-".toList ++ name ++ ".slice".toList,
      "kubepods-".toList ++ name ++ "-pod".toList ++ pod.sliceUid ++ ".slice".toList,
      pod.scope], '/' ∉ c := by
    intro c hc
    rcases List.mem_cons.1 hc with rfl | hc
    · decide
    rcases List.mem_cons.1 hc with rfl | hc
    · simp [hname.1]
    rcases List.mem_cons.1 hc with rfl | hc
    · exact slice_plain pod (by simp [hname.1])
    · obtain rfl := List.mem_singleton.1 hc
      exact scope_plain pod
  have hfree : PathFree ["kubepods.slice".toList, "kubepods-".toList ++ name ++ ".slice".toList,
      "kubepods-".toList ++ name ++ "-pod".toList ++ pod.sliceUid ++ ".slice".toList,
      pod.scope] := by
    refine ⟨fun h => ?_, fun h => not_pod_scope pod h.2, trivial⟩
    simp only [String.reduceToList, List.cons_append, List.append_assoc,
      List.cons_prefix_cons] at h
    exact absurd h.2.1 (by decide)
  have hpath : rePodPath.search (front ++ path ["kubepods.slice".toList,
      "kubepods-".toList ++ name ++ ".slice".toList,
      "kubepods-".toList ++ name ++ "-pod".toList ++ pod.sliceUid ++ ".slice".toList,
      pod.scope]) = none := searchFrom_eq_none (not_occurs_path hfront.1 hparts hfree)
  obtain ⟨f, hreads, hgroup⟩ := rePodSlice_reads ('/' :: pod.scope) ⟨hne, hname.2.1⟩
    (sliceUid_ne_nil pod) fun c hc => (sliceUid_plain pod hc).2.2
  have htext : front ++ path ["kubepods.slice".toList,
      "kubepods-".toList ++ name ++ ".slice".toList,
      "kubepods-".toList ++ name ++ "-pod".toList ++ pod.sliceUid ++ ".slice".toList,
      pod.scope] =
      ((front ++ "/kubepods.slice/kubepods".toList) ++ '-' :: (name ++ ".slice/".toList)) ++
        (("kubepods-".toList ++ name ++ "-pod".toList ++ pod.sliceUid ++ ".slice".toList) ++
          '/' :: pod.scope) := by
    simp [path, joined]
  have hbehind : ∃ more, ("kubepods-".toList ++ name ++ "-pod".toList ++ pod.sliceUid ++
      ".slice".toList) ++ '/' :: pod.scope =
      "kubepods".toList ++ '-' :: (name ++ '-' :: more) := ⟨"pod".toList ++ pod.sliceUid ++
        ".slice".toList ++ '/' :: pod.scope, by simp⟩
  obtain ⟨more, hmore⟩ := hbehind
  have hskip : ∀ u v, (front ++ "/kubepods.slice/kubepods".toList) ++
      '-' :: (name ++ ".slice/".toList) = u ++ v → v ≠ [] → ¬ rePodSlice.At (v ++
        (("kubepods-".toList ++ name ++ "-pod".toList ++ pod.sliceUid ++ ".slice".toList) ++
          '/' :: pod.scope)) := by
    intro u v hsplit hv
    rw [hmore]
    exact not_at_before_pod hfront.2 hname.2 hv hsplit
  have hsearch := hreads.search hskip
  rw [parseCgroupForPod, hpath]
  simp only
  rw [htext, hsearch]
  exact congrArg (fun g => (g, none)) hgroup

/-- One without a class gives none. -/
theorem parse_of_slice_no_class (hfront : '/' ∉ front ∧ '-' ∉ front) :
    parseCgroupForPod (front ++ path ["kubepods.slice".toList,
      "kubepods-pod".toList ++ pod.sliceUid ++ ".slice".toList, pod.scope]) = (none, none) := by
  have hparts : ∀ c ∈ ["kubepods.slice".toList,
      "kubepods-pod".toList ++ pod.sliceUid ++ ".slice".toList, pod.scope], '/' ∉ c := by
    intro c hc
    rcases List.mem_cons.1 hc with rfl | hc
    · decide
    rcases List.mem_cons.1 hc with rfl | hc
    · exact slice_plain pod (by decide)
    · obtain rfl := List.mem_singleton.1 hc
      exact scope_plain pod
  have hfree : PathFree ["kubepods.slice".toList,
      "kubepods-pod".toList ++ pod.sliceUid ++ ".slice".toList, pod.scope] :=
    ⟨fun h => not_pod_scope pod h.2, trivial⟩
  have htext : front ++ path ["kubepods.slice".toList,
      "kubepods-pod".toList ++ pod.sliceUid ++ ".slice".toList, pod.scope] =
      (front ++ "/kubepods.slice/kubepods".toList) ++
        joined '-' ["pod".toList ++ pod.sliceUid ++ ".slice/cri".toList, "containerd".toList,
          pod.container ++ ".scope".toList] := by
    simp [path, joined, scope_eq]
  have hs : '-' ∉ front ++ "/kubepods.slice/kubepods".toList := by
    simp [hfront.2]
  have hrest : ∀ d ∈ ["pod".toList ++ pod.sliceUid ++ ".slice/cri".toList, "containerd".toList,
      pod.container ++ ".scope".toList], '-' ∉ d := by
    intro d hd
    rcases List.mem_cons.1 hd with rfl | hd
    · simp only [List.mem_append, not_or]
      exact ⟨⟨by decide, fun h => (sliceUid_plain pod h).2.1 rfl⟩, by decide⟩
    rcases List.mem_cons.1 hd with rfl | hd
    · decide
    · obtain rfl := List.mem_singleton.1 hd
      rw [List.mem_append, not_or]
      exact ⟨fun h => (ne_of_isUidDigit (pod.container_digits _ h)).2.1 rfl, by decide⟩
  have hslice : SliceFree ((front ++ "/kubepods.slice/kubepods".toList) ::
      ["pod".toList ++ pod.sliceUid ++ ".slice/cri".toList, "containerd".toList,
        pod.container ++ ".scope".toList]) :=
    ⟨fun h => absurd h.2 (by decide),
      fun h => not_pod_container pod ".scope".toList (by decide) h.2, trivial⟩
  have hnone := not_occurs_slice hs hrest hslice
  rw [← htext] at hnone
  rw [parseCgroupForPod,
    show rePodPath.search _ = none from searchFrom_eq_none (not_occurs_path hfront.1 hparts hfree)]
  simp only
  rw [show rePodSlice.search _ = none from searchFrom_eq_none hnone]

end Paths

/-- **The pod of a control group.**  Whichever driver made the group, the uid of the pod comes
out of it, unless the pod is Guaranteed: then nothing does. -/
theorem podOf_cgroup (pod : Pod) {front : Text} (hfront : '/' ∉ front ∧ '-' ∉ front) :
    parseCgroupForPod (front ++ path pod.cgroupfs) =
        (if pod.qos = .guaranteed then none else some pod.uid, none) ∧
      parseCgroupForPod (front ++ path pod.systemd) =
        (if pod.qos = .guaranteed then none else some pod.sliceUid, none) := by
  rw [Pod.cgroupfs.eq_def, Pod.systemd.eq_def]
  cases pod.qos with
  | guaranteed => exact ⟨parse_of_no_class pod hfront, parse_of_slice_no_class pod hfront⟩
  | burstable =>
      exact ⟨parse_of_path pod hfront.1 (qos_name_plain .burstable).1,
        parse_of_slice pod hfront (by decide) (qos_name_plain .burstable)⟩
  | bestEffort =>
      exact ⟨parse_of_path pod hfront.1 (qos_name_plain .bestEffort).1,
        parse_of_slice pod hfront (by decide) (qos_name_plain .bestEffort)⟩

/-- The uid of the pod is not empty. -/
theorem webUid_ne_nil : "1a-2b".toList ≠ [] := by decide

/-- It consists of digits and dashes. -/
theorem webUid_digits : ∀ c ∈ "1a-2b".toList, isUidDigit c = true ∨ c = '-' := by
  have hall : "1a-2b".toList.all (fun c => isUidDigit c || c == '-') = true := by decide
  intro c hc
  simpa using List.all_eq_true.mp hall c hc

/-- So does the name of its container, without dashes. -/
theorem webContainer_digits : ∀ c ∈ "c0ffee".toList, isUidDigit c = true := by
  have hall : "c0ffee".toList.all isUidDigit = true := by decide
  exact List.all_eq_true.mp hall

def webPod (qos : Qos) : Pod :=
  ⟨qos, "1a-2b".toList, "c0ffee".toList, webUid_ne_nil, webUid_digits, webContainer_digits⟩

/-- The same pod with a class and without one. -/
theorem podOf_cgroup_web :
    parseCgroupForPod ("0::".toList ++ path (webPod .burstable).systemd) =
        (some "1a_2b".toList, none) ∧
      parseCgroupForPod ("0::".toList ++ path (webPod .guaranteed).systemd) = (none, none) := by
  have hfront : '/' ∉ "0::".toList ∧ '-' ∉ "0::".toList := by decide
  exact ⟨(podOf_cgroup (webPod .burstable) hfront).2, (podOf_cgroup (webPod .guaranteed) hfront).2⟩

end FaultOracle.Workload
