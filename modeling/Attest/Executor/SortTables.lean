import Attest.Executor.Pipeline
import Attest.Library.Kahn

/-! The loops of `pipeline/dag.rs`, with what can stop them.

`ExecutionDAG.build` and `topologicalSort` are functions that always return. Their source has
loops that could go on and tables in which a node is expected to be. Here they are with both:
`buildInLoops_eq` and `sortByTables_eq` say that neither is ever stopped, whatever the pipeline and
whatever the order of its hash maps. -/
namespace Attest.Executor
open Library Library.Fallible Library.TopologicalSort Library.Kahn

/-! ### The path of a cycle -/

section CyclePath
variable (edges : String → List String) (stack : List String) (cycleNode : String) (total : Nat)

/-- The loop of `build_cycle_path`. It has no bound but the length of the path. -/
def cyclePathLoop : Nat → List String → String → Except Fault (List String)
  | rounds, path, current =>
    let path := path ++ [current]
    match (edges current).find? (· ∈ stack) with
    | none => .ok path
    | some next =>
      if next = cycleNode then .ok (path ++ [cycleNode])
      -- Another node of the cycle, unless the path is longer than the graph already.
      else if total < path.length then .ok path
      else
        match rounds with
        | 0 => .error .endless
        | rounds + 1 => cyclePathLoop rounds path next

/-- The loop goes no further than the length allows, and gives the path. -/
theorem cyclePathLoop_eq {left rounds : Nat} {path : List String} {current : String}
    (hlength : path.length + left = total) (hrounds : left ≤ rounds) :
    cyclePathLoop edges stack cycleNode total rounds path current =
      .ok (path ++ buildCyclePath edges stack cycleNode left current) := by
  induction left generalizing rounds path current with
  | zero =>
    unfold cyclePathLoop buildCyclePath
    cases (edges current).find? (· ∈ stack) with
    | none => rfl
    | some next =>
      by_cases hcycle : next = cycleNode
      · simp [hcycle]
      · have hlong : total < (path ++ [current]).length := by simp; omega
        simp only [if_neg hcycle, if_pos hlong]
  | succ left ih =>
    unfold cyclePathLoop buildCyclePath
    cases (edges current).find? (· ∈ stack) with
    | none => rfl
    | some next =>
      by_cases hcycle : next = cycleNode
      · simp [hcycle]
      · have hshort : ¬ total < (path ++ [current]).length := by simp; omega
        obtain ⟨more, rfl⟩ := Nat.exists_eq_add_of_le' (Nat.zero_lt_of_lt hrounds)
        simp only [if_neg hcycle, if_neg hshort]
        rw [ih (by simp; omega) (by omega), List.append_assoc]
        rfl

end CyclePath

def checkCyclesInLoops (nodes : List String) (edges : String → List String) :
    Except Fault (Except String Unit) :=
  match searchAll edges nodes with
  | .ok _ => .ok (.ok ())
  | .error (.cycle node stack) => do
    let path ← cyclePathLoop edges stack node nodes.length nodes.length [] node
    return .error ("Cycle detected in pipeline dependencies: " ++ " -> ".intercalate path)
  | .error .exhausted => .error .endless

def ExecutionDAG.buildInLoops (pipeline : Pipeline) : Except Fault (Except String ExecutionDAG) :=
  let nodes := pipeline.steps.keys
  match pipeline.steps.entries.foldlM (addEdges nodes) fun _ => [] with
  | .error message => .ok (.error message)
  | .ok edges => do
    let checked ← checkCyclesInLoops nodes edges
    return checked.map fun _ => ⟨nodes, edges⟩

/-- The search for a cycle ends on every graph, and so does the loop that reports one. -/
theorem checkCyclesInLoops_eq {nodes : List String} {edges : String → List String}
    (hknown : ∀ d, ∀ n ∈ edges d, n ∈ nodes) :
    checkCyclesInLoops nodes edges = .ok (checkCycles nodes edges) := by
  have hconcludes := searchAll_concludes hknown
  unfold checkCyclesInLoops checkCycles
  cases hsearch : searchAll edges nodes with
  | ok visited => rfl
  | error blocked =>
    cases blocked with
    | exhausted => exact absurd hsearch hconcludes
    | cycle node stack =>
      have hlength : ([] : List String).length + nodes.length = nodes.length := Nat.zero_add _
      simp only [cyclePathLoop_eq edges stack node nodes.length hlength le_rfl]
      rfl

/-- Building a graph comes to its end, also where it ends in an error. -/
theorem buildInLoops_eq (pipeline : Pipeline) :
    ExecutionDAG.buildInLoops pipeline = .ok (ExecutionDAG.build pipeline) := by
  simp only [ExecutionDAG.buildInLoops, ExecutionDAG.build]
  cases hedges : pipeline.steps.entries.foldlM (addEdges pipeline.steps.keys) fun _ => [] with
  | error message => rfl
  | ok edges =>
    have hknown : ∀ d, ∀ n ∈ edges d, n ∈ pipeline.steps.keys := by
      intro d n hn
      exact ((mem_edges hedges).mp hn).1
    simp only [checkCyclesInLoops_eq hknown]
    show Except.ok ((checkCycles _ _).map _) = Except.ok (checkCycles _ _ >>= _)
    cases checkCycles pipeline.steps.keys edges with
    | error message => rfl
    | ok done => rfl

/-! ### The tables of the sort -/

section Tables
variable (dag : ExecutionDAG)

def connectSteps (tables : Tables String) (edge : String × String) : Except Fault (Tables String) := do
  let degree ← modify "`to` is always a pipeline node inserted above" (· + 1) tables.degree edge.2
  let edges ← modify "`from` is always a pipeline node inserted above" (· ++ [edge.2])
    tables.edges edge.1
  return ⟨degree, edges⟩

/-- `topological_sort`, over its tables. -/
def ExecutionDAG.sortByTables (order : Iteration dag.nodes) :
    Except Fault (Except String (List String)) := do
  let tables ← (edgesOf dag.edges order.edges).foldlM connectSteps (emptyTables dag.nodes)
  let queue := readyNodes tables.degree order.degrees
  let result ←
    run "`neighbor` is always a pipeline node inserted above" popFront tables.edges
      dag.nodes.length [] ⟨queue, tables.degree⟩
  return if result.length ≠ dag.nodes.length then .error "Pipeline contains cycles" else .ok result

end Tables

section Sorted
variable {pipeline : Pipeline} {dag : ExecutionDAG} {order : Iteration dag.nodes}

/-- The graph of a pipeline has edges between its steps only. -/
theorem edges_of_build (h : ExecutionDAG.build pipeline = .ok dag) {d n : String} :
    n ∈ dag.edges d ↔ n ∈ dag.nodes ∧ d ∈ pipeline.needs n := by
  obtain ⟨edges, hedges, h⟩ := except_bind_eq_ok.mp h
  obtain ⟨_, _, h⟩ := except_bind_eq_ok.mp h
  cases h
  exact mem_edges hedges

theorem inside_of_build (h : ExecutionDAG.build pipeline = .ok dag) (order : List String) :
    ∀ edge ∈ edgesOf dag.edges order, edge.1 ∈ dag.nodes ∧ edge.2 ∈ dag.nodes := by
  intro edge hedge
  obtain ⟨source, target⟩ := edge
  obtain ⟨hnodes, hknown, _⟩ := build_eq_ok h
  obtain ⟨htarget, hneeds⟩ := (edges_of_build h).mp (mem_edgesOf.mp hedge).2
  exact ⟨hnodes ▸ hknown target source hneeds, htarget⟩

theorem nodup_nodes (h : ExecutionDAG.build pipeline = .ok dag) : dag.nodes.Nodup := by
  rw [(build_eq_ok h).1]
  exact pipeline.steps.nodup_keys

/-- What the table of edges holds are the edges of the graph. -/
theorem targets_of_build (h : ExecutionDAG.build pipeline = .ok dag) :
    targets (edgesOf dag.edges order.edges) = dag.edges := by
  funext d
  rw [targets_edgesOf (order.edges_perm.nodup_iff.mpr (nodup_nodes h))]
  split
  next => rfl
  next hd =>
    -- Nothing needs what is no step.
    symm
    apply List.eq_nil_iff_forall_not_mem.mpr
    intro n hn
    obtain ⟨hnodes, hknown, _⟩ := build_eq_ok h
    exact hd (order.edges_perm.mem_iff.mpr (hnodes ▸ hknown n d ((edges_of_build h).mp hn).2))

/-- The sort over tables meets none of its `expect`s, comes to its end, and does what the sort over
functions does. -/
theorem sortByTables_eq (h : ExecutionDAG.build pipeline = .ok dag) :
    dag.sortByTables order = .ok (dag.topologicalSort order) := by
  have hinside := inside_of_build h order.edges
  have hdegree : (fun n => (sources (edgesOf dag.edges order.edges) n).length) =
      inDegree dag.edges order.edges := by
    funext n
    rw [length_sources_edgesOf, inDegree_eq_sum]
  have htables : (edgesOf dag.edges order.edges).foldlM connectSteps (emptyTables dag.nodes) =
      .ok ⟨tabulate dag.nodes (inDegree dag.edges order.edges), tabulate dag.nodes dag.edges⟩ := by
    have hconnect : ∀ degree edges, ∀ a ∈ dag.nodes, ∀ b ∈ dag.nodes,
        connectSteps ⟨tabulate dag.nodes degree, tabulate dag.nodes edges⟩ (a, b) =
          .ok ⟨tabulate dag.nodes (Function.update degree b (degree b + 1)),
            tabulate dag.nodes (Function.update edges a (edges a ++ [b]))⟩ := by
      intro degree edges a ha b hb
      rw [connectSteps, modify_tabulate hb, modify_tabulate ha]
      rfl
    rw [foldlM_connect hconnect hinside, hdegree, targets_of_build h]
  have hready : readyNodes (tabulate dag.nodes (inDegree dag.edges order.edges)) order.degrees =
      order.degrees.filter (inDegree dag.edges order.edges · = 0) := by
    refine List.filter_congr ?_
    intro n hn
    simp only [tabulate_of_mem (order.degrees_perm.mem_iff.mp hn), Option.some.injEq]
  have horder : order.degrees.Perm dag.nodes.dedup := by
    rw [(nodup_nodes h).dedup]
    exact order.degrees_perm
  obtain ⟨_, final, degree, hdrain, hrun, _⟩ :=
    @run_edges _ _ _ _ "`neighbor` is always a pipeline node inserted above" _ _ _ pops_front hinside
      horder (le_refl dag.nodes.length)
  rw [drainBy_popFront, targets_of_build h] at hdrain
  rw [targets_of_build h] at hrun
  simp only [hdegree, hready] at hdrain hrun
  simp only [ExecutionDAG.sortByTables, htables]
  show (run _ popFront _ dag.nodes.length [] ⟨readyNodes _ _, _⟩ >>= _) = _
  rw [hready, hrun]
  unfold ExecutionDAG.topologicalSort
  simp only [hdrain]
  rfl

end Sorted

/-- **Building and sorting a graph.** A build comes to its end on every pipeline, cycles included,
and gives a graph exactly where each need is a step and the needs go round in no circle. Every
graph that is built is sorted, for each order of the hash maps and without meeting an `expect`:
each step once, after those it needs. -/
theorem dag_build_and_sort (pipeline : Pipeline) :
    ExecutionDAG.buildInLoops pipeline = .ok (ExecutionDAG.build pipeline) ∧
    ((∃ dag, ExecutionDAG.build pipeline = .ok dag) ↔
      KnownNeeds pipeline ∧ Acyclic pipeline.needs) ∧
    ∀ dag, ExecutionDAG.build pipeline = .ok dag → ∀ order : Iteration dag.nodes,
      ∃ sorted, dag.sortByTables order = .ok (.ok sorted) ∧
        sorted.Perm pipeline.steps.keys ∧ Ordered pipeline.needs sorted := by
  refine ⟨buildInLoops_eq pipeline, ⟨?_, ?_⟩, ?_⟩
  · intro h
    obtain ⟨dag, hbuild⟩ := h
    exact ⟨(build_eq_ok hbuild).2.1, acyclic_of_build hbuild⟩
  · intro h
    exact build_ok h.1 h.2
  · intro dag hbuild order
    obtain ⟨sorted, hsorted⟩ := topologicalSort_ok hbuild (acyclic_of_build hbuild) order
    refine ⟨sorted, ?_, topologicalSort_eq_ok hbuild hsorted⟩
    rw [sortByTables_eq hbuild, hsorted]

end Attest.Executor
