import Attest.Library.Fallible
import Attest.Library.SortedMap
import Attest.Library.TopologicalSort
import Attest.Trust.Judgement
import Mathlib.Algebra.BigOperators.Group.List.Basic

/-! Pipelines and the order their steps run in, as `pipeline/parser.rs` and
`pipeline/dag.rs` have them.

A pipeline maps names to steps, and a step names the steps it needs. The graph of a
pipeline has an edge from a step to each one that needs it, as often as it is needed. The
sort iterates two hash maps, whose orders differ from process to process: they are a
parameter, and `topologicalSort_ordered` holds for all of them. -/
namespace Attest.Executor
open Library Library.Fallible Library.TopologicalSort
open Trust (isWhiteSpace)

def pipelineSchemaVersion : UInt32 := 1

structure StepAttestation where
  attestationType : String
  reproducible : Bool
  generateSlsa : Bool
  verifyChain : Bool
deriving DecidableEq

structure Step where
  run : String
  inputs : List String
  outputs : List String
  needs : Option (List String)
  env : Option (List (String × String))
  workingDir : Option String
  image : Option String
  capsule : Option String
  cache : Bool
  timeoutSecs : Option UInt64
  attestation : Option StepAttestation := none
deriving DecidableEq

structure Pipeline where
  schemaVersion : Option UInt32
  version : String
  name : Option String
  steps : SortedMap String Step
  env : List (String × String)

/-- The steps a step needs; none where it is not declared. -/
def Pipeline.needs (pipeline : Pipeline) (name : String) : List String :=
  (pipeline.steps.lookup name).elim [] fun step => step.needs.getD []

/-! ### The graph -/

structure ExecutionDAG where
  nodes : List String
  edges : String → List String

/-- An edge to a step from one that it needs. -/
def addEdge (nodes : List String) (name : String) (edges : String → List String) (dep : String) :
    Except String (String → List String) :=
  if dep ∈ nodes then .ok (Function.update edges dep (edges dep ++ [name]))
  else .error s!"Step '{name}' depends on unknown step '{dep}'"

def addEdges (nodes : List String) (edges : String → List String) (entry : String × Step) :
    Except String (String → List String) :=
  (entry.2.needs.getD []).foldlM (addEdge nodes entry.1) edges

/-- The steps from one in the stack on, as far as they are in the stack. -/
def buildCyclePath (edges : String → List String) (stack : List String) (cycleNode : String) :
    Nat → String → List String
  | rounds, current =>
    current :: match (edges current).find? (· ∈ stack) with
      | none => []
      | some next =>
        if next = cycleNode then [cycleNode]
        else match rounds with
          | 0 => []
          | rounds + 1 => buildCyclePath edges stack cycleNode rounds next

/-- The search is never deeper than there are nodes, so it is not exhausted. -/
def checkCycles (nodes : List String) (edges : String → List String) : Except String Unit :=
  match searchAll edges nodes with
  | .ok _ => .ok ()
  | .error (.cycle node stack) =>
    .error ("Cycle detected in pipeline dependencies: " ++
      " -> ".intercalate (buildCyclePath edges stack node nodes.length node))
  | .error .exhausted => .error "Cycle detected in pipeline dependencies: "

def ExecutionDAG.build (pipeline : Pipeline) : Except String ExecutionDAG := do
  let nodes := pipeline.steps.keys
  let edges ← pipeline.steps.entries.foldlM (addEdges nodes) fun _ => []
  checkCycles nodes edges
  return ⟨nodes, edges⟩

/-! ### Validation -/

def Step.validate (name : String) (step : Step) : Except String Unit :=
  if step.run.toList.all isWhiteSpace then .error s!"Step '{name}' has empty run command"
  else
    match step.inputs.find? fun path => path.toList.head? == some '/' with
    | some path => .error s!"Step '{name}' has absolute input path: {path}"
    | none =>
      match step.outputs.find? fun path => path.toList.head? == some '/' with
      | some path => .error s!"Step '{name}' has absolute output path: {path}"
      | none => .ok ()

def validateStep (nodes : List String) (entry : String × Step) : Except String Unit := do
  Step.validate entry.1 entry.2
  match (entry.2.needs.getD []).find? (· ∉ nodes) with
  | some dep => .error s!"Step '{entry.1}' depends on unknown step '{dep}'"
  | none => .ok ()

def checkSchemaVersion : Option UInt32 → Except String Unit
  | some v => refuseIf (v > pipelineSchemaVersion)
      s!"attest.yaml declares schema_version {v} but this attest supports up to {pipelineSchemaVersion}; upgrade attest to use this file"
  | none => .ok ()

def Pipeline.validate (pipeline : Pipeline) : Except String Unit := do
  checkSchemaVersion pipeline.schemaVersion
  refuseIf (pipeline.version.isEmpty = true) "Pipeline version is required"
  refuseIf (pipeline.steps.entries = []) "Pipeline must contain at least one step"
  let _ ← ExecutionDAG.build pipeline
  pipeline.steps.entries.forM (validateStep pipeline.steps.keys)

/-! ### The order -/

/-- The orders in which the hash maps of the sort are iterated. -/
structure Iteration (nodes : List String) where
  edges : List String
  degrees : List String
  edges_perm : edges.Perm nodes
  degrees_perm : degrees.Perm nodes

/-- How many edges lead to each node. -/
def inDegree (edges : String → List String) (order : List String) : String → Nat :=
  order.foldl (fun degree source => (edges source).foldl (fun degree target =>
    Function.update degree target (degree target + 1)) degree) fun _ => 0

/-- The copy of the edges that the source sorts by is the edges themselves. -/
def ExecutionDAG.topologicalSort (dag : ExecutionDAG) (order : Iteration dag.nodes) :
    Except String (List String) :=
  let degree := inDegree dag.edges order.edges
  match drain dag.edges dag.nodes.length [] ⟨order.degrees.filter (degree · = 0), degree⟩ with
  | some result =>
    if result.length ≠ dag.nodes.length then .error "Pipeline contains cycles" else .ok result
  | none => .error "Pipeline contains cycles"

/-! ### The edges are the needs -/

section Edges
variable {nodes : List String} {edges edges' : String → List String}

/-- The edges from the steps of a list to one that needs them. -/
theorem foldlM_addEdge {name : String} {deps : List String}
    (h : deps.foldlM (addEdge nodes name) edges = .ok edges') :
    (∀ dep ∈ deps, dep ∈ nodes) ∧
      ∀ d, edges' d = edges d ++ List.replicate (deps.count d) name := by
  induction deps generalizing edges with
  | nil =>
    cases h
    exact ⟨by simp, by simp⟩
  | cons dep rest ih =>
    rw [List.foldlM_cons, addEdge] at h
    by_cases hdep : dep ∈ nodes
    · rw [if_pos hdep] at h
      obtain ⟨hknown, hedges⟩ := ih h
      refine ⟨?_, ?_⟩
      · intro d hd
        rcases List.mem_cons.mp hd with rfl | hd
        · exact hdep
        · exact hknown d hd
      · intro d
        rw [hedges, List.count_cons]
        by_cases hd : d = dep
        · subst hd
          rw [Function.update_self, beq_self_eq_true, if_pos rfl, List.append_assoc,
            ← List.replicate_one, List.replicate_append_replicate, Nat.add_comm]
        · have hne : (dep == d) = false := beq_eq_false_iff_ne.mpr (Ne.symm hd)
          rw [Function.update_of_ne hd, hne]
          rfl
    · rw [if_neg hdep] at h
      cases h

theorem foldlM_addEdge_ok (name : String) (edges : String → List String) {deps : List String}
    (h : ∀ dep ∈ deps, dep ∈ nodes) :
    ∃ edges', deps.foldlM (addEdge nodes name) edges = .ok edges' := by
  induction deps generalizing edges with
  | nil => exact ⟨edges, rfl⟩
  | cons dep rest ih =>
    rw [List.foldlM_cons, addEdge, if_pos (h dep (List.mem_cons_self ..))]
    exact ih _ fun d hd => h d (List.mem_cons_of_mem dep hd)

/-- The edges of a list of steps: from `d` to each of them, as often as it needs `d`. -/
theorem foldlM_addEdges {entries : List (String × Step)}
    (h : entries.foldlM (addEdges nodes) edges = .ok edges') :
    (∀ entry ∈ entries, ∀ dep ∈ entry.2.needs.getD [], dep ∈ nodes) ∧
      ∀ d, edges' d = edges d ++
        entries.flatMap fun entry => List.replicate ((entry.2.needs.getD []).count d) entry.1 := by
  induction entries generalizing edges with
  | nil =>
    cases h
    exact ⟨by simp, by simp⟩
  | cons entry rest ih =>
    rw [List.foldlM_cons] at h
    cases hentry : addEdges nodes edges entry with
    | error e =>
      rw [hentry] at h
      cases h
    | ok next =>
      rw [hentry] at h
      obtain ⟨hknown, hnext⟩ := foldlM_addEdge hentry
      obtain ⟨hrest, hedges⟩ := ih h
      refine ⟨?_, ?_⟩
      · intro e he
        rcases List.mem_cons.mp he with rfl | he
        · exact hknown
        · exact hrest e he
      · intro d
        rw [hedges, hnext, List.append_assoc, List.flatMap_cons]

theorem foldlM_addEdges_ok {entries : List (String × Step)}
    (h : ∀ entry ∈ entries, ∀ dep ∈ entry.2.needs.getD [], dep ∈ nodes) :
    ∃ edges', entries.foldlM (addEdges nodes) edges = .ok edges' := by
  induction entries generalizing edges with
  | nil => exact ⟨edges, rfl⟩
  | cons entry rest ih =>
    obtain ⟨next, hnext⟩ := foldlM_addEdge_ok entry.1 edges (h entry (List.mem_cons_self ..))
    rw [List.foldlM_cons, addEdges, hnext]
    exact ih fun e he => h e (List.mem_cons_of_mem entry he)

end Edges

/-- Every need of a step is a step. -/
def KnownNeeds (pipeline : Pipeline) : Prop :=
  ∀ name, ∀ dep ∈ pipeline.needs name, dep ∈ pipeline.steps.keys

section Build
variable {pipeline : Pipeline} {dag : ExecutionDAG}

theorem needs_of_mem {entry : String × Step} (h : entry ∈ pipeline.steps.entries) :
    pipeline.needs entry.1 = entry.2.needs.getD [] := by
  rw [Pipeline.needs, SortedMap.lookup_eq_some.mpr h]
  rfl

theorem needs_eq_nil {name : String} (h : name ∉ pipeline.steps.keys) : pipeline.needs name = [] := by
  cases hlookup : pipeline.steps.lookup name with
  | none => rw [Pipeline.needs, hlookup]; rfl
  | some step => exact absurd (SortedMap.mem_keys.mpr ⟨step, hlookup⟩) h

/-- A name among keys without repetition is counted at its own entry only. -/
theorem count_flatMap_replicate {entries : List (String × Step)} {entry : String × Step}
    (hnodup : (entries.map Prod.fst).Nodup) (hentry : entry ∈ entries) (f : Step → Nat) :
    (entries.flatMap fun e => List.replicate (f e.2) e.1).count entry.1 = f entry.2 := by
  induction entries with
  | nil => cases hentry
  | cons first rest ih =>
    rw [List.map_cons, List.nodup_cons] at hnodup
    rw [List.flatMap_cons, List.count_append, List.count_replicate]
    rcases List.mem_cons.mp hentry with rfl | hmem
    · have hnot : entry.1 ∉ rest.flatMap fun e => List.replicate (f e.2) e.1 := by
        intro h
        obtain ⟨e, he, hin⟩ := List.mem_flatMap.mp h
        exact hnodup.1 (List.mem_map.mpr ⟨e, he, (List.eq_of_mem_replicate hin).symm⟩)
      rw [beq_self_eq_true, if_pos rfl, List.count_eq_zero.mpr hnot, Nat.add_zero]
    · have hne : (first.1 == entry.1) = false := by
        refine beq_eq_false_iff_ne.mpr fun h => hnodup.1 ?_
        rw [h]
        exact List.mem_map_of_mem hmem
      rw [hne, ih hnodup.2 hmem]
      simp

/-- What a graph that was built is. -/
theorem build_eq_ok (h : ExecutionDAG.build pipeline = .ok dag) :
    dag.nodes = pipeline.steps.keys ∧ KnownNeeds pipeline ∧
      Inverse pipeline.steps.keys pipeline.needs dag.edges := by
  obtain ⟨edges, hedges, h⟩ := except_bind_eq_ok.mp h
  obtain ⟨_, _, h⟩ := except_bind_eq_ok.mp h
  cases h
  obtain ⟨hknown, hdef⟩ := foldlM_addEdges hedges
  have hneeds : KnownNeeds pipeline := by
    intro name dep hdep
    by_cases hname : name ∈ pipeline.steps.keys
    · obtain ⟨entry, hentry, rfl⟩ := List.mem_map.mp hname
      rw [needs_of_mem hentry] at hdep
      exact hknown entry hentry dep hdep
    · rw [needs_eq_nil hname] at hdep
      cases hdep
  refine ⟨rfl, hneeds, ?_, ?_, fun n _ => hneeds n⟩
  · intro d _ n hn
    obtain ⟨entry, hentry, rfl⟩ := List.mem_map.mp hn
    show (edges d).count entry.1 = _
    rw [hdef, List.nil_append, needs_of_mem hentry]
    exact count_flatMap_replicate pipeline.steps.nodup_keys hentry
      fun step => (step.needs.getD []).count d
  · intro d n hn
    have hn' : n ∈ edges d := hn
    rw [hdef, List.nil_append] at hn'
    obtain ⟨entry, hentry, hin⟩ := List.mem_flatMap.mp hn'
    rw [List.eq_of_mem_replicate hin]
    exact List.mem_map_of_mem hentry

theorem mem_edges {edges : String → List String} {d n : String}
    (h : pipeline.steps.entries.foldlM (addEdges pipeline.steps.keys) (fun _ => []) = .ok edges) :
    n ∈ edges d ↔ n ∈ pipeline.steps.keys ∧ d ∈ pipeline.needs n := by
  rw [(foldlM_addEdges h).2, List.nil_append]
  constructor
  · intro hn
    obtain ⟨entry, hentry, hin⟩ := List.mem_flatMap.mp hn
    obtain ⟨hcount, rfl⟩ := List.mem_replicate.mp hin
    refine ⟨List.mem_map_of_mem hentry, ?_⟩
    rw [needs_of_mem hentry]
    exact List.count_pos_iff.mp (Nat.pos_of_ne_zero hcount)
  · intro hn
    obtain ⟨entry, hentry, rfl⟩ := List.mem_map.mp hn.1
    refine List.mem_flatMap.mpr ⟨entry, hentry, List.mem_replicate.mpr ⟨?_, rfl⟩⟩
    rw [← needs_of_mem hentry]
    exact (List.count_pos_iff.mpr hn.2).ne'

/-- A graph is built only where the needs go round in no circle. -/
theorem acyclic_of_build (h : ExecutionDAG.build pipeline = .ok dag) : Acyclic pipeline.needs := by
  obtain ⟨edges, hedges, h⟩ := except_bind_eq_ok.mp h
  obtain ⟨_, hcycles, _⟩ := except_bind_eq_ok.mp h
  cases hsearch : searchAll edges pipeline.steps.keys with
  | error blocked =>
    rw [checkCycles, hsearch] at hcycles
    cases blocked <;> cases hcycles
  | ok visited =>
    have hnone := acyclic_of_searchAll (fun d n hn => ((mem_edges hedges).mp hn).1) hsearch
    intro n hcycle
    refine hnone n (Relation.TransGen.mono ?_ n n hcycle)
    intro d m hm
    have hknown : m ∈ pipeline.steps.keys := by
      by_contra hunknown
      rw [needs_eq_nil hunknown] at hm
      cases hm
    exact (mem_edges hedges).mpr ⟨hknown, hm⟩

/-- A pipeline whose needs are known and go round in no circle has a graph. -/
theorem build_ok (hknown : KnownNeeds pipeline) (hacyclic : Acyclic pipeline.needs) :
    ∃ dag, ExecutionDAG.build pipeline = .ok dag := by
  have hentries : ∀ entry ∈ pipeline.steps.entries, ∀ dep ∈ entry.2.needs.getD [],
      dep ∈ pipeline.steps.keys := by
    intro entry hentry dep hdep
    rw [← needs_of_mem hentry] at hdep
    exact hknown entry.1 dep hdep
  obtain ⟨edges, hedges⟩ := @foldlM_addEdges_ok _ (fun _ => []) _ hentries
  have hedge : ∀ d, ∀ n ∈ edges d, n ∈ pipeline.steps.keys ∧ d ∈ pipeline.needs n := by
    intro d n hn
    exact (mem_edges hedges).mp hn
  obtain ⟨visited, hvisited⟩ := searchAll_ok (fun d n hn => (hedge d n hn).1) fun n hcycle =>
    hacyclic n (Relation.TransGen.mono (fun d m hm => (hedge d m hm).2) n n hcycle)
  refine ⟨⟨pipeline.steps.keys, edges⟩, ?_⟩
  rw [ExecutionDAG.build, hedges]
  show (checkCycles pipeline.steps.keys edges >>= _) = _
  rw [checkCycles, hvisited]
  rfl

end Build

/-! ### What the sort returns -/

theorem foldl_degree (targets : List String) (degree : String → Nat) (n : String) :
    targets.foldl (fun degree target => Function.update degree target (degree target + 1)) degree n =
      degree n + targets.count n := by
  induction targets generalizing degree with
  | nil => rfl
  | cons target rest ih =>
    rw [List.foldl_cons, ih, List.count_cons]
    by_cases hn : n = target
    · subst hn
      rw [Function.update_self, beq_self_eq_true, if_pos rfl]
      omega
    · have hne : (target == n) = false := beq_eq_false_iff_ne.mpr (Ne.symm hn)
      rw [Function.update_of_ne hn, hne]
      rfl

theorem inDegree_eq_sum (edges : String → List String) (order : List String) (n : String) :
    inDegree edges order n = (order.map fun source => (edges source).count n).sum := by
  have hfold : ∀ degree : String → Nat, order.foldl (fun degree source =>
      (edges source).foldl (fun degree target =>
        Function.update degree target (degree target + 1)) degree) degree n =
      degree n + (order.map fun source => (edges source).count n).sum := by
    induction order with
    | nil => intro degree; rfl
    | cons source rest ih =>
      intro degree
      rw [List.foldl_cons, ih, foldl_degree, List.map_cons, List.sum_cons]
      omega
  rw [inDegree, hfold, Nat.zero_add]

theorem sum_indicator (nodes : List String) (n : String) :
    (nodes.map fun d => if n == d then 1 else 0).sum = nodes.count n := by
  induction nodes with
  | nil => rfl
  | cons node rest ih => rw [List.map_cons, List.sum_cons, ih, List.count_cons, BEq.comm, Nat.add_comm]

/-- Nodes without repetition count every element of a list of nodes once. -/
theorem sum_count {nodes list : List String} (hnodup : nodes.Nodup) (h : ∀ d ∈ list, d ∈ nodes) :
    (nodes.map fun d => list.count d).sum = list.length := by
  induction list with
  | nil => simp
  | cons first rest ih =>
    simp only [List.count_cons, List.sum_map_add, List.length_cons]
    rw [ih fun d hd => h d (List.mem_cons_of_mem first hd), sum_indicator,
      List.count_eq_one_of_mem hnodup (h first (List.mem_cons_self ..))]

section Order
variable {pipeline : Pipeline} {dag : ExecutionDAG} {order : Iteration dag.nodes}
  {result : List String}

theorem inDegree_eq_length (hbuild : ExecutionDAG.build pipeline = .ok dag)
    (order : Iteration dag.nodes) : ∀ n ∈ pipeline.steps.keys,
      inDegree dag.edges order.edges n = (pipeline.needs n).length := by
  intro n hn
  obtain ⟨hnodes, hknown, hinverse⟩ := build_eq_ok hbuild
  have hperm : order.edges.Perm pipeline.steps.keys := hnodes ▸ order.edges_perm
  rw [inDegree_eq_sum, (hperm.map _).sum_eq]
  rw [List.map_congr_left fun d hd => hinverse.count d hd n hn]
  exact sum_count pipeline.steps.nodup_keys (hknown n)

theorem drained_start (hbuild : ExecutionDAG.build pipeline = .ok dag) (order : Iteration dag.nodes) :
    Drained pipeline.steps.keys pipeline.needs []
      ⟨order.degrees.filter (inDegree dag.edges order.edges · = 0),
        inDegree dag.edges order.edges⟩ := by
  have hnodes := (build_eq_ok hbuild).1
  have hperm : order.degrees.Perm pipeline.steps.keys := hnodes ▸ order.degrees_perm
  refine drained_initial ?_ (inDegree_eq_length hbuild order) ?_
  · exact (hperm.nodup_iff.mpr pipeline.steps.nodup_keys).filter _
  · intro n
    rw [List.mem_filter, decide_eq_true_iff, hperm.mem_iff]

/-- What the rounds of the sort come to. -/
theorem drain_sort (hbuild : ExecutionDAG.build pipeline = .ok dag) (order : Iteration dag.nodes) :
    ∃ final degree, drain dag.edges dag.nodes.length []
        ⟨order.degrees.filter (inDegree dag.edges order.edges · = 0),
          inDegree dag.edges order.edges⟩ = some final ∧
      Drained pipeline.steps.keys pipeline.needs final ⟨[], degree⟩ := by
  obtain ⟨hnodes, _, hinverse⟩ := build_eq_ok hbuild
  refine drain_eq_some hinverse (drained_start hbuild order) ?_
  rw [hnodes, List.length_nil, Nat.add_zero]

/-- An order that is returned lists every step once, after those it needs. -/
theorem topologicalSort_eq_ok (hbuild : ExecutionDAG.build pipeline = .ok dag)
    (h : dag.topologicalSort order = .ok result) :
    result.Perm pipeline.steps.keys ∧ Ordered pipeline.needs result := by
  obtain ⟨final, degree, hdrain, hdrained⟩ := drain_sort hbuild order
  have hnodes := (build_eq_ok hbuild).1
  unfold ExecutionDAG.topologicalSort at h
  simp only [hdrain, ne_eq, ite_not] at h
  split at h
  next hlength =>
    cases h
    have hnodup : result.Nodup := by simpa using hdrained.nodup
    have hknown : ∀ n ∈ result, n ∈ pipeline.steps.keys := by simpa using hdrained.known
    refine ⟨?_, hdrained.ordered⟩
    exact (List.subperm_of_subset hnodup hknown).perm_of_length_le (by rw [hlength, hnodes])
  next => cases h

/-- Where the needs go round in no circle, an order is returned. -/
theorem topologicalSort_ok (hbuild : ExecutionDAG.build pipeline = .ok dag)
    (hacyclic : Acyclic pipeline.needs) (order : Iteration dag.nodes) :
    ∃ result, dag.topologicalSort order = .ok result := by
  obtain ⟨final, degree, hdrain, hdrained⟩ := drain_sort hbuild order
  obtain ⟨hnodes, _, hinverse⟩ := build_eq_ok hbuild
  have hperm := hdrained.perm pipeline.steps.nodup_keys (hdrained.complete hinverse hacyclic)
  refine ⟨final, ?_⟩
  unfold ExecutionDAG.topologicalSort
  simp only [hdrain, ne_eq, ite_not]
  rw [if_pos (by rw [hnodes, hperm.length_eq])]

end Order

end Attest.Executor
