import FaultOracle.RemediationController

/-!
# The node object after a remediation

`remediate_node` sends two merge patches for a node, one which makes it
unschedulable and one whose `spec.taints` is an array of the controller's own
taint.  Under merge-patch rules an array is replaced whole, so the second patch
leaves the node with that one taint, whatever taints it had.

`remediated_iff` says for which nodes this is harmless: those which had no taint of
another key.
-/

namespace FaultOracle.Remediation

open JsonValues

/-- The `spec` of a node object. -/
def nodeSpec (node : Json) : Json := (node.get? "spec").getD .null

/-- The taints of a node object. -/
def nodeTaints (node : Json) : List Json :=
  match (nodeSpec node).get? "taints" with
  | some (.arr taints) => taints
  | _ => []

/-- The taint has this key. -/
def hasTaintKey (key : String) (taint : Json) : Bool :=
  match taint.get? "key" with
  | some (.str k) => k = key
  | _ => false

/-- What a successful remediation should leave of a node object. -/
structure Remediated (threshold : ℚ) (before after : Json) : Prop where
  unschedulable : (nodeSpec after).get? "unschedulable" = some (.bool true)
  tainted : (nodeTaints after).filter (hasTaintKey taintKey) = [predictedFailureTaint threshold]
  kept : ∀ taint ∈ nodeTaints before, hasTaintKey taintKey taint = false →
    taint ∈ nodeTaints after

/-- The node object once both patches are merged. -/
def patchedNode (threshold : ℚ) (node : Json) : Json :=
  mergePatch (buildTaintPatch threshold) (mergePatch buildCordonPatch node)

theorem hasTaintKey_predictedFailureTaint (threshold : ℚ) :
    hasTaintKey taintKey (predictedFailureTaint threshold) = true := by
  simp [hasTaintKey, predictedFailureTaint, Json.get?]

/-- A merge patch of `spec` alone merges into the `spec`. -/
theorem nodeSpec_mergePatch {patch : Json} (hpatch : patch.isNull = false) (node : Json) :
    nodeSpec (mergePatch (.obj [("spec", patch)]) node) = mergePatch patch (nodeSpec node) := by
  rw [nodeSpec, mergePatch_member_self "spec" hpatch, Option.getD_some, nodeSpec]

theorem nodeSpec_patchedNode (threshold : ℚ) (node : Json) :
    nodeSpec (patchedNode threshold node) =
      mergePatch (.obj [("taints", .arr [predictedFailureTaint threshold])])
        (mergePatch (.obj [("unschedulable", .bool true)]) (nodeSpec node)) := by
  rw [patchedNode, buildTaintPatch, nodeSpec_mergePatch rfl, buildCordonPatch,
    nodeSpec_mergePatch rfl]

/-- The second patch does not undo the first. -/
theorem unschedulable_patchedNode (threshold : ℚ) (node : Json) :
    (nodeSpec (patchedNode threshold node)).get? "unschedulable" = some (.bool true) := by
  rw [nodeSpec_patchedNode, mergePatch_member_ne (by decide) rfl,
    mergePatch_member_self "unschedulable" rfl, mergePatch_bool]

/-- The patched node has the controller's taint and no other. -/
theorem nodeTaints_patchedNode (threshold : ℚ) (node : Json) :
    nodeTaints (patchedNode threshold node) = [predictedFailureTaint threshold] := by
  rw [nodeTaints, nodeSpec_patchedNode, mergePatch_member_self "taints" rfl, mergePatch_arr]

/-- The patched node is as it should be exactly when there was no other taint. -/
theorem remediated_patchedNode_iff (threshold : ℚ) (node : Json) :
    Remediated threshold node (patchedNode threshold node) ↔
      ∀ taint ∈ nodeTaints node, hasTaintKey taintKey taint = true := by
  have hkey := hasTaintKey_predictedFailureTaint threshold
  constructor
  · intro h taint hmem
    by_contra hother
    have hlost : taint ∈ nodeTaints (patchedNode threshold node) :=
      h.kept taint hmem (by simpa using hother)
    rw [nodeTaints_patchedNode, List.mem_singleton] at hlost
    exact hother (hlost ▸ hkey)
  · intro h
    refine ⟨unschedulable_patchedNode threshold node, ?_, ?_⟩
    · rw [nodeTaints_patchedNode]
      simp [hkey]
    · intro taint hmem hother
      rw [h taint hmem] at hother
      cases hother

/-- A live call which raises nothing has merged both patches into the node. -/
theorem nodes_of_remediateNode {cfg : Config} (hdry : cfg.dryRun = false) {ans : Answers}
    {node : String} {probability : PythonFloats.PyFloat} {w : World}
    (hdone : (remediateNode cfg ans node probability w).2 = none) :
    (remediateNode cfg ans node probability w).1.nodes node =
      patchedNode cfg.cordonThreshold (w.nodes node) := by
  by_cases hpatch : ans.cordon = .ok ∧ ans.taint = .ok
  · obtain ⟨events, lines, h⟩ :=
      remediateNode_patched hdry hpatch.1 hpatch.2 node probability w
    rw [h]
    cases lokiAccepts cfg <;> simp [recordAction, updateStateEntry, patchedWorld, patchedNode]
  · obtain ⟨nodes, err, h⟩ := remediateNode_failed hdry hpatch node probability w
    rw [h] at hdone
    cases hdone

/-- **Remediation of a node.**  After a live `remediate_node` that raises nothing,
the node is unschedulable, has the controller's taint once and has kept its other
taints if and only if it had no taint of another key. -/
theorem remediated_iff (cfg : Config) (ans : Answers) (node : String)
    (probability : PythonFloats.PyFloat) (w : World) (hdry : cfg.dryRun = false)
    (hdone : (remediateNode cfg ans node probability w).2 = none) :
    Remediated cfg.cordonThreshold (w.nodes node)
        ((remediateNode cfg ans node probability w).1.nodes node) ↔
      ∀ taint ∈ nodeTaints (w.nodes node), hasTaintKey taintKey taint = true := by
  rw [nodes_of_remediateNode hdry hdone]
  exact remediated_patchedNode_iff cfg.cordonThreshold (w.nodes node)

/-- A taint some other controller has put on the node. -/
def gpuTaint : Json :=
  .obj [("key", .str "nvidia.com/gpu"), ("value", .str "present"), ("effect", .str "NoSchedule")]

def taintedNode (taints : List Json) : Json := .obj [("spec", .obj [("taints", .arr taints)])]

theorem remediated_untainted_node :
    Remediated (4 / 5) (taintedNode [])
      ((remediateNode defaultConfig (allWell 0) "node-1" (.fin (9 / 10))
        (startWorld .missing (fun _ => taintedNode []))).1.nodes "node-1") :=
  (remediated_iff defaultConfig (allWell 0) "node-1" (.fin (9 / 10))
    (startWorld .missing (fun _ => taintedNode [])) rfl rfl).mpr
      (fun _ h => absurd h (by simp [startWorld, taintedNode, nodeTaints, nodeSpec, Json.get?]))

/-- The taint of another controller is gone after the remediation. -/
theorem gpu_taint_lost :
    (remediateNode defaultConfig (allWell 0) "node-1" (.fin (9 / 10))
        (startWorld .missing (fun _ => taintedNode [gpuTaint]))).2 = none ∧
      ¬ Remediated (4 / 5) (taintedNode [gpuTaint])
        ((remediateNode defaultConfig (allWell 0) "node-1" (.fin (9 / 10))
          (startWorld .missing (fun _ => taintedNode [gpuTaint]))).1.nodes "node-1") := by
  refine ⟨rfl, fun h => ?_⟩
  have hkept := h.kept gpuTaint (by simp [taintedNode, nodeTaints, nodeSpec, Json.get?])
    (by simp [gpuTaint, hasTaintKey, Json.get?, taintKey])
  rw [nodes_of_remediateNode rfl rfl, nodeTaints_patchedNode, List.mem_singleton] at hkept
  simp [gpuTaint, predictedFailureTaint, taintKey] at hkept

end FaultOracle.Remediation
