import Attest.Executor.Schedule
import Attest.Executor.SortTables
import Attest.Library.Layers

/-! The analysis of a graph, as `pipeline/dag.rs` makes it.

It gives every step the length of the longest row of needs that leads to it, and groups the steps
that could run side by side by taking off, round by round, those that need none of what is left.
Both follow from a sort, each from its own. `analyze_layers` says that they agree. Whether a
pipeline is linear is asked of the steps one by one; `linear_agrees_iff` is when this says the same
as the groups. -/
namespace Attest.Executor
open Library Library.Fallible Library.TopologicalSort Library.Kahn Library.Layers Relation

structure DAGAnalysis where
  totalNodes : Nat
  rootNodes : List String
  leafNodes : List String
  maxDepth : Nat
  nodeDepths : String → Option Nat
  isLinear : Bool
  parallelizableGroups : List (List String)

/-- The orders in which an analysis goes over its hash maps: that of the edges, those of the
degrees in the two sorts, and those of what each round of the grouping has left. -/
structure AnalysisOrders (nodes : List String) where
  edges : List String
  forDepths : List String
  forGroups : List String
  rounds : Nat → List String → List String
  edges_perm : edges.Perm nodes
  forDepths_perm : forDepths.Perm nodes
  forGroups_perm : forGroups.Perm nodes
  rounds_perm : ∀ round left, (rounds round left).Perm left

namespace AnalysisOrders
variable {nodes : List String} (orders : AnalysisOrders nodes)

def sortForDepths : Iteration nodes :=
  ⟨orders.edges, orders.forDepths, orders.edges_perm, orders.forDepths_perm⟩

def sortForGroups : Iteration nodes :=
  ⟨orders.edges, orders.forGroups, orders.edges_perm, orders.forGroups_perm⟩

end AnalysisOrders

namespace ExecutionDAG
variable (dag : ExecutionDAG) (order : List String)

def findRootNodes : List String :=
  dag.nodes.filter fun node => node ∉ order.flatMap dag.edges

def findLeafNodes : List String := dag.nodes.filter fun node => dag.edges node = []

/-- The steps with an edge to a node, each once. -/
def getDependencies (node : String) : List String := order.filter fun source => node ∈ dag.edges source

def isLinearPipeline : Bool :=
  order.all fun node =>
    (dag.edges node).length ≤ 1 && (dag.getDependencies order node).length ≤ 1

variable (orders : AnalysisOrders dag.nodes)

def findParallelizableGroups : Except Fault (List (List String)) := do
  match ← dag.sortByTables orders.sortForGroups with
  | .error _ => return []
  | .ok sorted =>
    peel (dag.getDependencies orders.edges) orders.rounds sorted.length 0 sorted []

def analyze : Except Fault DAGAnalysis := do
  let measured : (String → Option Nat) × Nat :=
    match ← dag.sortByTables orders.sortForDepths with
    | .error _ => (fun _ => none, 0)
    | .ok sorted => depths (dag.getDependencies orders.edges) sorted
  let groups ← dag.findParallelizableGroups orders
  return {
    totalNodes := dag.nodes.length
    rootNodes := dag.findRootNodes orders.edges
    leafNodes := dag.findLeafNodes
    maxDepth := measured.2
    nodeDepths := measured.1
    isLinear := dag.isLinearPipeline orders.edges
    parallelizableGroups := groups }

end ExecutionDAG

/-! ### Depths and groups -/

section Layers
variable {pipeline : Pipeline} {dag : ExecutionDAG} {order sorted : List String}
  {orders : AnalysisOrders dag.nodes}

theorem mem_getDependencies (hbuild : ExecutionDAG.build pipeline = .ok dag)
    (horder : order.Perm dag.nodes) {d n : String} :
    d ∈ dag.getDependencies order n ↔ d ∈ pipeline.needs n := by
  obtain ⟨hnodes, hknown, _⟩ := build_eq_ok hbuild
  rw [ExecutionDAG.getDependencies, List.mem_filter, decide_eq_true_iff, horder.mem_iff,
    edges_of_build hbuild]
  constructor
  · intro h
    exact h.2.2
  · intro h
    refine ⟨hnodes ▸ hknown n d h, ?_, h⟩
    by_contra hn
    rw [needs_eq_nil (hnodes ▸ hn)] at h
    cases h

/-- A sort for the analysis. -/
theorem sort_of_build (hbuild : ExecutionDAG.build pipeline = .ok dag)
    (iteration : Iteration dag.nodes) (horder : order.Perm dag.nodes) :
    ∃ sorted, dag.sortByTables iteration = .ok (.ok sorted) ∧ sorted.Perm dag.nodes ∧
      Ordered (dag.getDependencies order) sorted := by
  obtain ⟨sorted, hsorted⟩ := topologicalSort_ok hbuild (acyclic_of_build hbuild) iteration
  obtain ⟨hperm, hordered⟩ := topologicalSort_eq_ok hbuild hsorted
  refine ⟨sorted, by rw [sortByTables_eq hbuild, hsorted], ?_, ?_⟩
  · rw [(build_eq_ok hbuild).1]
    exact hperm
  · simp only [Ordered, mem_getDependencies hbuild horder]
    exact hordered

/-- What the analysis computes: a depth for each step, and the layers of these depths. -/
theorem analyze_eq (hbuild : ExecutionDAG.build pipeline = .ok dag)
    (orders : AnalysisOrders dag.nodes) :
    ∃ analysis, ∃ depth : String → Nat, dag.analyze orders = .ok analysis ∧
      analysis.nodeDepths = tabulate dag.nodes depth ∧
      analysis.isLinear = dag.isLinearPipeline orders.edges ∧
      Depths dag.nodes pipeline.needs depth ∧
      Layered dag.nodes depth analysis.parallelizableGroups ∧
      (∀ n ∈ dag.nodes, depth n ≤ analysis.maxDepth) ∧
      (analysis.maxDepth = 0 ∨ ∃ n ∈ dag.nodes, depth n = analysis.maxDepth) := by
  obtain ⟨sorted, hsorted, hperm, hordered⟩ :=
    sort_of_build hbuild orders.sortForDepths orders.edges_perm
  obtain ⟨sorted', hsorted', hperm', _⟩ :=
    sort_of_build hbuild orders.sortForGroups orders.edges_perm
  have hnodup := nodup_nodes hbuild
  obtain ⟨depth, htable, hdepths, hle, hgreatest⟩ :=
    depths_spec hordered (hperm.nodup_iff.mpr hnodup)
  have hsame : ∀ n, n ∈ sorted ↔ n ∈ dag.nodes := fun n => hperm.mem_iff
  have hinner : Depths dag.nodes (dag.getDependencies orders.edges) depth :=
    hdepths.congr (fun n => (hsame n).symm) fun _ _ => Iff.rfl
  obtain ⟨groups, hpeel, hlayered⟩ := peel_layered hinner hnodup orders.rounds_perm
    (le_refl sorted'.length) (peeled_start hperm')
  have hgroups : dag.findParallelizableGroups orders = .ok groups := by
    rw [ExecutionDAG.findParallelizableGroups, hsorted']
    exact hpeel
  let measured := depths (dag.getDependencies orders.edges) sorted
  refine ⟨⟨dag.nodes.length, dag.findRootNodes orders.edges, dag.findLeafNodes, measured.2,
    measured.1, dag.isLinearPipeline orders.edges, groups⟩, depth, ?_, ?_, rfl, ?_, hlayered, ?_, ?_⟩
  · rw [ExecutionDAG.analyze, hsorted, hgroups]
    rfl
  · rw [← tabulate_congr hsame]
    exact htable
  · exact hinner.congr (fun _ => Iff.rfl) fun n d => (mem_getDependencies hbuild orders.edges_perm).symm
  · intro n hn
    exact hle n ((hsame n).mpr hn)
  · refine hgreatest.imp_right ?_
    intro hfound
    obtain ⟨n, hn, hdepth⟩ := hfound
    exact ⟨n, (hsame n).mp hn, hdepth⟩

end Layers

/-- The depths are those of the needs, and the groups are their layers. -/
structure ConsistentAnalysis (pipeline : Pipeline) (nodes : List String) (analysis : DAGAnalysis)
    (depth : String → Nat) : Prop where
  depths : ∀ n, analysis.nodeDepths n = if n ∈ nodes then some (depth n) else none
  longest : ∀ n ∈ nodes, IsGreatest {k | ChainTo pipeline.needs n k} (depth n)
  bounded : ∀ n ∈ nodes, depth n ≤ analysis.maxDepth
  attained : analysis.maxDepth = 0 ∨ ∃ n ∈ nodes, depth n = analysis.maxDepth
  partition : analysis.parallelizableGroups.flatten.Perm nodes
  filled : ∀ group ∈ analysis.parallelizableGroups, group ≠ []
  layer : ∀ k n, n ∈ analysis.parallelizableGroups.getD k [] ↔ n ∈ nodes ∧ depth n = k

/-- **Depths and groups agree.** The analysis of a graph that was built comes to its end, for each
order of its hash maps. Every step has the length of a longest row of needs that ends at it, the
greatest of these lengths is the depth of the pipeline, and the groups are the steps, the k-th one
those of depth k. -/
theorem analyze_layers {pipeline : Pipeline} {dag : ExecutionDAG}
    (hbuild : ExecutionDAG.build pipeline = .ok dag) (orders : AnalysisOrders dag.nodes) :
    ∃ analysis, ∃ depth : String → Nat, dag.analyze orders = .ok analysis ∧
      ConsistentAnalysis pipeline dag.nodes analysis depth := by
  obtain ⟨analysis, depth, hanalysis, htable, _, hdepths, hlayered, hle, hgreatest⟩ :=
    analyze_eq hbuild orders
  refine ⟨analysis, depth, hanalysis, ?_, fun n hn => hdepths.isGreatest hn, hle, hgreatest,
    hlayered.perm, hlayered.filled, hlayered.layer⟩
  intro n
  rw [htable]
  rfl

theorem analyze_layers_fetchBuild : ∃ dag, ExecutionDAG.build fetchBuild = .ok dag ∧
    ∀ orders : AnalysisOrders dag.nodes, ∃ analysis, ∃ depth : String → Nat,
      dag.analyze orders = .ok analysis ∧
        ConsistentAnalysis fetchBuild dag.nodes analysis depth := by
  obtain ⟨dag, hbuild⟩ := build_ok knownNeeds_fetchBuild acyclic_fetchBuild
  exact ⟨dag, hbuild, analyze_layers hbuild⟩

/-! ### Linear pipelines -/

section Linear
variable (pipeline : Pipeline)

/-- No step needs two steps, and none is needed twice. -/
structure Narrow : Prop where
  needsOne : ∀ n ∈ pipeline.steps.keys, ∀ d ∈ pipeline.needs n, ∀ d' ∈ pipeline.needs n, d = d'
  neededOnce : ∀ d ∈ pipeline.steps.keys,
    (pipeline.steps.keys.map fun n => (pipeline.needs n).count d).sum ≤ 1

/-- Of any two steps one comes before the other. -/
def OneLine : Prop := ∀ n ∈ pipeline.steps.keys, ∀ m ∈ pipeline.steps.keys, n ≠ m →
  pipeline.Before n m ∨ pipeline.Before m n

/-- No more than one step needs nothing. -/
def OneStart : Prop := ∀ n ∈ pipeline.steps.keys, ∀ m ∈ pipeline.steps.keys,
  pipeline.needs n = [] → pipeline.needs m = [] → n = m

/-- A step names a step twice, or one that comes before another of its needs anyway. -/
def RedundantNeed : Prop := ∃ n ∈ pipeline.steps.keys, ∃ d ∈ pipeline.needs n,
  1 < (pipeline.needs n).count d ∨ ∃ d' ∈ pipeline.needs n, pipeline.Before d d'

end Linear

section Sums
variable {f : String → Nat} {list : List String}

theorem add_le_sum {n m : String} (hn : n ∈ list) (hm : m ∈ list) (hne : n ≠ m) :
    f n + f m ≤ (list.map f).sum := by
  have hrest : m ∈ list.erase n := (List.mem_erase_of_ne (Ne.symm hne)).mpr hm
  have hperm : list.Perm (n :: m :: (list.erase n).erase m) :=
    (List.perm_cons_erase hn).trans ((List.perm_cons_erase hrest).cons n)
  rw [(hperm.map f).sum_eq, List.map_cons, List.map_cons, List.sum_cons, List.sum_cons]
  omega

theorem le_sum {n : String} (hn : n ∈ list) : f n ≤ (list.map f).sum := by
  rw [((List.perm_cons_erase hn).map f).sum_eq, List.map_cons, List.sum_cons]
  omega

/-- A sum with one summand that is not zero, and this one no more than one. -/
theorem sum_le_one (hnodup : list.Nodup) (hone : ∀ n ∈ list, f n ≤ 1)
    (hunique : ∀ n ∈ list, ∀ m ∈ list, 0 < f n → 0 < f m → n = m) : (list.map f).sum ≤ 1 := by
  induction list with
  | nil => exact Nat.zero_le _
  | cons n list ih =>
    obtain ⟨hn, hnodup⟩ := List.nodup_cons.mp hnodup
    rw [List.map_cons, List.sum_cons]
    by_cases hzero : f n = 0
    · rw [hzero, Nat.zero_add]
      exact ih hnodup (fun m hm => hone m (List.mem_cons_of_mem n hm)) fun m hm k hk =>
        hunique m (List.mem_cons_of_mem n hm) k (List.mem_cons_of_mem n hk)
    · have hrest : (list.map f).sum = 0 := by
        apply List.sum_eq_zero
        intro k hk
        obtain ⟨m, hm, rfl⟩ := List.mem_map.mp hk
        by_contra hpos
        have heq := hunique n List.mem_cons_self m (List.mem_cons_of_mem n hm) (by omega) (by omega)
        exact hn (heq ▸ hm)
      have hle := hone n List.mem_cons_self
      omega

theorem length_le_one_iff (hnodup : list.Nodup) :
    list.length ≤ 1 ↔ ∀ n ∈ list, ∀ m ∈ list, n = m := by
  constructor
  · intro hlength n hn m hm
    cases list with
    | nil => cases hn
    | cons first rest =>
      have hrest : rest = [] := List.length_eq_zero_iff.mp (Nat.le_zero.mp (Nat.le_of_succ_le_succ hlength))
      rw [hrest, List.mem_singleton] at hn hm
      rw [hn, hm]
  · intro hsame
    cases list with
    | nil => exact Nat.zero_le _
    | cons first rest =>
      cases rest with
      | nil => exact le_rfl
      | cons second rest =>
        have heq := hsame first (by simp) second (by simp)
        exact absurd (heq ▸ List.mem_cons_self) (List.nodup_cons.mp hnodup).1

end Sums

section Agreement
variable {pipeline : Pipeline} {dag : ExecutionDAG}

theorem mem_keys_of_needs {d n : String} (h : d ∈ pipeline.needs n) : n ∈ pipeline.steps.keys := by
  by_contra hn
  rw [needs_eq_nil hn] at h
  cases h

/-- No step is needed by two others. -/
theorem Narrow.unique (h : Narrow pipeline) (hknown : KnownNeeds pipeline) {d n m : String}
    (hn : d ∈ pipeline.needs n) (hm : d ∈ pipeline.needs m) : n = m := by
  by_contra hne
  have hsum := h.neededOnce d (hknown n d hn)
  have hle := @add_le_sum (fun n => (pipeline.needs n).count d) _ _ _ (mem_keys_of_needs hn)
    (mem_keys_of_needs hm) hne
  have hn' := List.count_pos_iff.mpr hn
  have hm' := List.count_pos_iff.mpr hm
  omega

theorem OneLine.oneStart (h : OneLine pipeline) : OneStart pipeline := by
  intro n hn m hm hnone hnone'
  by_contra hne
  have hstart : ∀ a b, pipeline.needs b = [] → ¬ pipeline.Before a b := by
    intro a b hb hbefore
    obtain ⟨d, _, hd⟩ := TransGen.tail'_iff.mp hbefore
    rw [hb] at hd
    cases hd
  rcases h n hn m hm hne with hbefore | hbefore
  · exact hstart n m hnone' hbefore
  · exact hstart m n hnone hbefore

/-- Separate lines with one start are one line. -/
theorem Narrow.oneLine (h : Narrow pipeline) (hknown : KnownNeeds pipeline)
    (hacyclic : Acyclic pipeline.needs) (hstart : OneStart pipeline) : OneLine pipeline := by
  intro n hn m hm hne
  have hneeded : ∀ n ∈ pipeline.steps.keys, ∀ d ∈ pipeline.needs n, d ∈ pipeline.steps.keys :=
    fun n _ => hknown n
  obtain ⟨root, hroot, hnone, hreach⟩ := exists_root hacyclic hneeded hn
  obtain ⟨root', hroot', hnone', hreach'⟩ := exists_root hacyclic hneeded hm
  rw [hstart root hroot root' hroot' hnone hnone'] at hreach
  have hunique : Relator.RightUnique fun d n => d ∈ pipeline.needs n := fun _ _ _ hn hm =>
    h.unique hknown hn hm
  rcases ReflTransGen.total_of_right_unique hunique hreach hreach' with hnm | hmn
  · exact .inl ((reflTransGen_iff_eq_or_transGen.mp hnm).resolve_left (Ne.symm hne))
  · exact .inr ((reflTransGen_iff_eq_or_transGen.mp hmn).resolve_left hne)

theorem Narrow.not_redundant (h : Narrow pipeline) (hknown : KnownNeeds pipeline)
    (hacyclic : Acyclic pipeline.needs) : ¬ RedundantNeed pipeline := by
  intro hredundant
  obtain ⟨n, hn, d, hd, htwice | hbefore⟩ := hredundant
  · have hsum := h.neededOnce d (hknown n d hd)
    have hle := @le_sum (fun n => (pipeline.needs n).count d) _ _ hn
    omega
  · obtain ⟨d', hd', hbefore⟩ := hbefore
    rw [h.needsOne n hn d hd d' hd'] at hbefore
    exact hacyclic d' hbefore

/-- One line without a redundant need: a step needs just the one before it. -/
theorem OneLine.narrow (h : OneLine pipeline) (hknown : KnownNeeds pipeline)
    (hneeds : ¬ RedundantNeed pipeline) : Narrow pipeline := by
  -- A step that is needed by one step is not needed by a later one as well.
  have hlater : ∀ n m d, d ∈ pipeline.needs n → d ∈ pipeline.needs m → ¬ pipeline.Before n m := by
    intro n m d hn hm hbefore
    obtain ⟨last, hreach, hlast⟩ := TransGen.tail'_iff.mp hbefore
    exact hneeds ⟨m, mem_keys_of_needs hm, d, hm, .inr ⟨last, hlast, .head' hn hreach⟩⟩
  refine ⟨?_, ?_⟩
  · intro n hn d hd d' hd'
    by_contra hne
    rcases h d (hknown n d hd) d' (hknown n d' hd') hne with hbefore | hbefore
    · exact hneeds ⟨n, hn, d, hd, .inr ⟨d', hd', hbefore⟩⟩
    · exact hneeds ⟨n, hn, d', hd', .inr ⟨d, hd, hbefore⟩⟩
  · intro d hd
    refine sum_le_one pipeline.steps.nodup_keys ?_ ?_
    · intro n hn
      by_contra htwice
      have hmem : d ∈ pipeline.needs n := List.count_pos_iff.mp (by omega)
      exact hneeds ⟨n, hn, d, hmem, .inl (by omega)⟩
    · intro n hn m hm hpos hpos'
      by_contra hne
      have hdn := List.count_pos_iff.mp hpos
      have hdm := List.count_pos_iff.mp hpos'
      rcases h n hn m hm hne with hbefore | hbefore
      · exact hlater n m d hdn hdm hbefore
      · exact hlater m n d hdm hdn hbefore

theorem length_edges (hbuild : ExecutionDAG.build pipeline = .ok dag) {d : String}
    (hd : d ∈ pipeline.steps.keys) : (dag.edges d).length =
      (pipeline.steps.keys.map fun n => (pipeline.needs n).count d).sum := by
  obtain ⟨_, _, hinverse⟩ := build_eq_ok hbuild
  rw [← sum_count pipeline.steps.nodup_keys (hinverse.known d)]
  exact congrArg List.sum (List.map_congr_left fun n hn => hinverse.count d hd n hn)

/-- What is asked of the steps one by one. -/
theorem isLinear_iff (hbuild : ExecutionDAG.build pipeline = .ok dag) {order : List String}
    (horder : order.Perm dag.nodes) : dag.isLinearPipeline order = true ↔ Narrow pipeline := by
  have hnodes := (build_eq_ok hbuild).1
  have hnodup : order.Nodup := horder.nodup_iff.mpr (nodup_nodes hbuild)
  have hone : ∀ n, (dag.getDependencies order n).length ≤ 1 ↔
      ∀ d ∈ pipeline.needs n, ∀ d' ∈ pipeline.needs n, d = d' := by
    intro n
    have hdependencies : (dag.getDependencies order n).Nodup := hnodup.filter _
    rw [length_le_one_iff hdependencies]
    simp only [mem_getDependencies hbuild horder]
  rw [ExecutionDAG.isLinearPipeline, List.all_eq_true]
  simp only [Bool.and_eq_true, decide_eq_true_eq, horder.mem_iff, hnodes, hone]
  constructor
  · intro h
    refine ⟨fun n hn => (h n hn).2, ?_⟩
    intro d hd
    rw [← length_edges hbuild hd]
    exact (h d hd).1
  · intro h n hn
    rw [length_edges hbuild hn]
    exact ⟨h.neededOnce n hn, h.needsOne n hn⟩

end Agreement

/-- **When a linear pipeline is one without parallel steps.** The two agree when separate lines
have one start, and when no need is redundant in what is one line. -/
theorem linear_agrees_iff {pipeline : Pipeline} {dag : ExecutionDAG}
    (hbuild : ExecutionDAG.build pipeline = .ok dag) (orders : AnalysisOrders dag.nodes) :
    ∃ analysis, dag.analyze orders = .ok analysis ∧
      ((analysis.isLinear = true ↔ ∀ group ∈ analysis.parallelizableGroups, group.length = 1) ↔
        (Narrow pipeline → OneStart pipeline) ∧ (OneLine pipeline → ¬ RedundantNeed pipeline)) := by
  obtain ⟨analysis, depth, hanalysis, _, hlinear, hdepths, hlayered, _, _⟩ := analyze_eq hbuild orders
  obtain ⟨hnodes, hknown, _⟩ := build_eq_ok hbuild
  have hacyclic := acyclic_of_build hbuild
  have hsingle : (∀ group ∈ analysis.parallelizableGroups, group.length = 1) ↔ OneLine pipeline := by
    rw [hlayered.single_iff (nodup_nodes hbuild), hdepths.line_iff, hnodes]
    rfl
  refine ⟨analysis, hanalysis, ?_⟩
  rw [hlinear, isLinear_iff hbuild orders.edges_perm, hsingle]
  constructor
  · intro h
    exact ⟨fun hnarrow => (h.mp hnarrow).oneStart,
      fun hline => (h.mpr hline).not_redundant hknown hacyclic⟩
  · intro h
    exact ⟨fun hnarrow => hnarrow.oneLine hknown hacyclic (h.1 hnarrow),
      fun hline => hline.narrow hknown (h.2 hline)⟩

theorem linear_agrees_fetchBuild : ∃ dag, ExecutionDAG.build fetchBuild = .ok dag ∧
    ∀ orders : AnalysisOrders dag.nodes, ∃ analysis, dag.analyze orders = .ok analysis ∧
      ((analysis.isLinear = true ↔ ∀ group ∈ analysis.parallelizableGroups, group.length = 1) ↔
        (Narrow fetchBuild → OneStart fetchBuild) ∧
          (OneLine fetchBuild → ¬ RedundantNeed fetchBuild)) := by
  obtain ⟨dag, hbuild⟩ := build_ok knownNeeds_fetchBuild acyclic_fetchBuild
  exact ⟨dag, hbuild, linear_agrees_iff hbuild⟩

/-- Two steps, with what the first of them needs. -/
def twoSteps (needs : List String) : Pipeline where
  schemaVersion := some 1
  version := "1.0"
  name := none
  steps := ⟨[("build", commandStep "true" needs), ("fetch", commandStep "true" [])],
    List.pairwise_pair.mpr (by decide : "build" < "fetch")⟩
  env := []

def ordersOfTwo : AnalysisOrders ["build", "fetch"] where
  edges := ["build", "fetch"]
  forDepths := ["build", "fetch"]
  forGroups := ["build", "fetch"]
  rounds _ left := left
  edges_perm := List.Perm.refl _
  forDepths_perm := List.Perm.refl _
  forGroups_perm := List.Perm.refl _
  rounds_perm _ left := List.Perm.refl left

/-- What the analysis of two steps says of their being linear and of their groups. -/
def linearAndGroups (edges : String → List String) : Except Fault (Bool × List (List String)) :=
  (ExecutionDAG.analyze ⟨["build", "fetch"], edges⟩ ordersOfTwo).map fun analysis =>
    (analysis.isLinear, analysis.parallelizableGroups)

/-- Two steps without needs are called linear and can run side by side. Two steps of which one
names the other twice are not called linear and run one after the other. -/
theorem linear_disagrees :
    (∃ edges, ExecutionDAG.build (twoSteps []) = .ok ⟨["build", "fetch"], edges⟩ ∧
      linearAndGroups edges = .ok (true, [["build", "fetch"]])) ∧
    ∃ edges, ExecutionDAG.build (twoSteps ["fetch", "fetch"]) = .ok ⟨["build", "fetch"], edges⟩ ∧
      linearAndGroups edges = .ok (false, [["fetch"], ["build"]]) := by
  refine ⟨⟨_, rfl, ?_⟩, ⟨_, rfl, ?_⟩⟩
  · decide +kernel
  · decide +kernel

end Attest.Executor
