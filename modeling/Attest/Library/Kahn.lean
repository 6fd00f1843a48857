import Attest.Library.Fallible
import Attest.Library.TopologicalSort
import Mathlib.Algebra.GroupWithZero.Nat

/-! Topological sorting over tables, whichever end of the queue a node is taken from.

A program keeps the degrees and the edges in tables, and it is stopped (`Fault`) where a table
does not have a node or a degree is zero already. `drainBy` is the same loop over functions.
What the loop keeps does not depend on the node that is taken next, so `drainBy_eq_some` holds
of a queue and of a stack, and `run_eq_drainBy` says that the program over tables does what the
loop over functions does and is not stopped. A graph is given by the list of its edges, with
repetitions (`run_edges`). The last section is on stacks alone. -/
namespace Attest.Library.Kahn
open TopologicalSort Fallible

variable {α β : Type}

/-! ### Tables -/

/-- Why a loop is stopped before its end. -/
inductive Fault where
  | expected (message : String)
  | underflow
  | endless
deriving DecidableEq

section Tables
variable [DecidableEq α]

/-- The table of a function on the nodes of a list. -/
def tabulate (nodes : List α) (f : α → β) : α → Option β :=
  fun n => if n ∈ nodes then some (f n) else none

/-- The nodes of a list, each put into an empty table with the same entry. -/
def insertAll (nodes : List α) (b : β) : α → Option β :=
  nodes.foldl (fun table n => Function.update table n (some b)) fun _ => none

/-- A change of an entry that is expected to be there. -/
def modify (message : String) (f : β → β) (table : α → Option β) (n : α) :
    Except Fault (α → Option β) :=
  match table n with
  | none => .error (.expected message)
  | some b => .ok (Function.update table n (some (f b)))

/-- One less, for a node that is expected to be there; with what is left. -/
def lower (message : String) (table : α → Option Nat) (n : α) :
    Except Fault (Nat × (α → Option Nat)) :=
  match table n with
  | none => .error (.expected message)
  | some 0 => .error .underflow
  | some (left + 1) => .ok (left, Function.update table n (some left))

variable {nodes : List α} {n : α} {f : α → β}

theorem tabulate_of_mem (h : n ∈ nodes) : tabulate nodes f n = some (f n) := if_pos h

theorem tabulate_congr {nodes' : List α} (h : ∀ n, n ∈ nodes' ↔ n ∈ nodes) :
    tabulate nodes' f = tabulate nodes f := by
  funext n
  simp only [tabulate, h n]

theorem update_tabulate (h : n ∈ nodes) (b : β) :
    Function.update (tabulate nodes f) n (some b) = tabulate nodes (Function.update f n b) := by
  funext m
  by_cases hm : m = n
  · subst hm
    rw [Function.update_self, tabulate_of_mem h, Function.update_self]
  · rw [Function.update_of_ne hm, tabulate, tabulate, Function.update_of_ne hm]

theorem insertAll_eq (nodes : List α) (b : β) : insertAll nodes b = tabulate nodes fun _ => b := by
  have hfold : ∀ table : α → Option β, ∀ m,
      nodes.foldl (fun table n => Function.update table n (some b)) table m =
        if m ∈ nodes then some b else table m := by
    induction nodes with
    | nil => intro table m; simp
    | cons node rest ih =>
      intro table m
      rw [List.foldl_cons, ih]
      by_cases hrest : m ∈ rest
      · simp [hrest]
      · by_cases hnode : m = node
        · subst hnode
          simp [hrest]
        · simp [hrest, hnode]
  funext m
  rw [insertAll, hfold]
  rfl

theorem modify_tabulate {message : String} (h : n ∈ nodes) (change : β → β) :
    modify message change (tabulate nodes f) n =
      .ok (tabulate nodes (Function.update f n (change (f n)))) := by
  rw [modify, tabulate_of_mem h]
  exact congrArg Except.ok (update_tabulate h _)

theorem lower_tabulate {message : String} {degree : α → Nat} (h : n ∈ nodes) (hpos : 0 < degree n) :
    lower message (tabulate nodes degree) n =
      .ok (degree n - 1, tabulate nodes (Function.update degree n (degree n - 1))) := by
  obtain ⟨left, hleft⟩ := Nat.exists_eq_succ_of_ne_zero hpos.ne'
  rw [lower, tabulate_of_mem h, hleft, Nat.succ_sub_one]
  exact congrArg Except.ok (congrArg (Prod.mk left) (update_tabulate h left))

end Tables

/-! ### The loop -/

/-- Taking a node off a queue, from wherever. -/
structure Pops (pop : List α → Option (α × List α)) : Prop where
  empty : ∀ {queue}, pop queue = none ↔ queue = []
  perm : ∀ {queue n rest}, pop queue = some (n, rest) → queue.Perm (n :: rest)

def popFront : List α → Option (α × List α)
  | [] => none
  | n :: rest => some (n, rest)

def popBack (queue : List α) : Option (α × List α) :=
  queue.getLast?.map fun n => (n, queue.dropLast)

theorem popBack_eq_some {queue rest : List α} {n : α} :
    popBack queue = some (n, rest) ↔ queue = rest ++ [n] := by
  constructor
  · intro h
    obtain ⟨last, hlast, heq⟩ := Option.map_eq_some_iff.mp h
    obtain ⟨rfl, rfl⟩ := Prod.mk.inj heq
    exact (List.dropLast_append_getLast? last hlast).symm
  · rintro rfl
    simp [popBack]

theorem pops_front : Pops (popFront (α := α)) where
  empty := by
    intro queue
    cases queue with
    | nil => simp [popFront]
    | cons n rest => simp [popFront]
  perm := by
    intro queue n rest h
    cases queue with
    | nil => cases h
    | cons first queue =>
      cases h
      exact List.Perm.refl _

theorem pops_back : Pops (popBack (α := α)) where
  empty := by
    intro queue
    rw [popBack, Option.map_eq_none_iff, List.getLast?_eq_none_iff]
  perm := by
    intro queue n rest h
    rw [popBack_eq_some.mp h]
    exact List.perm_append_singleton n rest

/-- The nodes that are next, and the table of the degrees. -/
structure Waiting (α : Type) where
  queue : List α
  degree : α → Option Nat

section Loop
variable [DecidableEq α]

def relaxIn (message : String) (waiting : Waiting α) (neighbor : α) : Except Fault (Waiting α) := do
  let (left, degree) ← lower message waiting.degree neighbor
  return ⟨if left = 0 then waiting.queue ++ [neighbor] else waiting.queue, degree⟩

/-- The loop over tables. The rounds that it is given are more than it needs. -/
def run (message : String) (pop : List α → Option (α × List α)) (edges : α → Option (List α)) :
    Nat → List α → Waiting α → Except Fault (List α)
  | rounds, result, waiting =>
    match pop waiting.queue with
    | none => .ok result
    | some (current, queue) =>
      match rounds with
      | 0 => .error .endless
      | rounds + 1 => do
        let waiting ← ((edges current).getD []).foldlM (relaxIn message) ⟨queue, waiting.degree⟩
        run message pop edges rounds (result ++ [current]) waiting

/-- The loop over functions. -/
def drainBy (pop : List α → Option (α × List α)) (successors : α → List α) :
    Nat → List α → Pending α → Option (List α)
  | rounds, result, pending =>
    match pop pending.queue with
    | none => some result
    | some (current, queue) =>
      match rounds with
      | 0 => none
      | rounds + 1 => drainBy pop successors rounds (result ++ [current])
          ((successors current).foldl relax ⟨queue, pending.degree⟩)

variable {pop : List α → Option (α × List α)} {successors needs : α → List α} {nodes : List α}
  {result queue rest : List α} {degree : α → Nat} {pending : Pending α} {current : α} {rounds : Nat}

theorem drainBy_of_none (h : pop pending.queue = none) :
    drainBy pop successors rounds result pending = some result := by
  unfold drainBy
  rw [h]

theorem drainBy_succ (h : pop pending.queue = some (current, rest)) :
    drainBy pop successors (rounds + 1) result pending =
      drainBy pop successors rounds (result ++ [current])
        ((successors current).foldl relax ⟨rest, pending.degree⟩) := by
  rw [drainBy, h]

/-- From the front of the queue it is the loop of `TopologicalSort`. -/
theorem drainBy_popFront (successors : α → List α) (rounds : Nat) (result : List α)
    (pending : Pending α) :
    drainBy popFront successors rounds result pending = drain successors rounds result pending := by
  induction rounds generalizing result pending with
  | zero =>
    obtain ⟨queue, degree⟩ := pending
    cases queue with
    | nil => rfl
    | cons n queue => rfl
  | succ rounds ih =>
    obtain ⟨queue, degree⟩ := pending
    cases queue with
    | nil => rfl
    | cons n queue => exact ih _ _

/-- What the loop keeps says nothing of the order of the queue. -/
theorem drained_of_perm (h : Drained nodes needs result ⟨queue, degree⟩) (hperm : queue.Perm rest) :
    Drained nodes needs result ⟨rest, degree⟩ := by
  have happend : (result ++ queue).Perm (result ++ rest) := hperm.append_left result
  refine ⟨happend.nodup_iff.mp h.nodup, ?_, h.degree, ?_, h.ordered⟩
  · intro n hn
    exact h.known n (happend.mem_iff.mpr hn)
  · intro n hn
    rw [← happend.mem_iff]
    exact h.ready n hn

theorem drained_stepBy (hpops : Pops pop) (hinverse : Inverse nodes needs successors)
    (h : Drained nodes needs result pending) (hpop : pop pending.queue = some (current, rest)) :
    Drained nodes needs (result ++ [current])
      ((successors current).foldl relax ⟨rest, pending.degree⟩) :=
  (drained_of_perm h (hpops.perm hpop)).step hinverse

/-- The loop comes to its end, with an empty queue, whichever node is taken next. -/
theorem drainBy_eq_some (hpops : Pops pop) (hinverse : Inverse nodes needs successors)
    (h : Drained nodes needs result pending) (hrounds : nodes.length ≤ rounds + result.length) :
    ∃ final degree, drainBy pop successors rounds result pending = some final ∧
      Drained nodes needs final ⟨[], degree⟩ := by
  induction rounds generalizing result pending with
  | zero =>
    have hle := h.length_le
    have hempty : pending.queue = [] := List.length_eq_zero_iff.mp (by omega)
    refine ⟨result, pending.degree, drainBy_of_none (hpops.empty.mpr hempty), ?_⟩
    rw [← hempty]
    exact h
  | succ rounds ih =>
    cases hpop : pop pending.queue with
    | none =>
      refine ⟨result, pending.degree, drainBy_of_none hpop, ?_⟩
      rw [← hpops.empty.mp hpop]
      exact h
    | some taken =>
      obtain ⟨current, rest⟩ := taken
      rw [drainBy_succ hpop]
      refine ih (drained_stepBy hpops hinverse h hpop) ?_
      rw [List.length_append, List.length_singleton]
      omega

/-- What is in the result stays there. -/
theorem drainBy_prefix {final : List α} (h : drainBy pop successors rounds result pending = some final) :
    result <+: final := by
  induction rounds generalizing result pending with
  | zero =>
    unfold drainBy at h
    split at h
    next =>
      cases h
      exact List.prefix_refl _
    next => cases h
  | succ rounds ih =>
    cases hpop : pop pending.queue with
    | none =>
      rw [drainBy_of_none hpop] at h
      cases h
      exact List.prefix_refl _
    | some taken =>
      rw [drainBy_succ hpop] at h
      exact (List.prefix_append _ _).trans (ih h)

/-- Every state the loop comes through satisfies what each round keeps; here the one in which
a node of the result is taken. -/
theorem drainBy_visits {Inv : List α → Pending α → Prop}
    (hkeep : ∀ result pending current rest, Inv result pending →
      pop pending.queue = some (current, rest) →
      Inv (result ++ [current]) ((successors current).foldl relax ⟨rest, pending.degree⟩))
    {final before after : List α} {n : α} (hinv : Inv result pending)
    (hdrain : drainBy pop successors rounds result pending = some final)
    (hfinal : final = before ++ n :: after) (hlength : result.length ≤ before.length) :
    ∃ pending rest, Inv before pending ∧ pop pending.queue = some (n, rest) := by
  induction rounds generalizing result pending with
  | zero =>
    unfold drainBy at hdrain
    split at hdrain
    next =>
      cases hdrain
      rw [hfinal, List.length_append, List.length_cons] at hlength
      omega
    next => cases hdrain
  | succ rounds ih =>
    cases hpop : pop pending.queue with
    | none =>
      rw [drainBy_of_none hpop] at hdrain
      cases hdrain
      rw [hfinal, List.length_append, List.length_cons] at hlength
      omega
    | some taken =>
      obtain ⟨current, rest⟩ := taken
      rw [drainBy_succ hpop] at hdrain
      by_cases hnext : result.length = before.length
      · -- The node that is taken here is the one behind `before`.
        obtain ⟨behind, hbehind⟩ := drainBy_prefix hdrain
        rw [hfinal, List.append_assoc, List.singleton_append] at hbehind
        obtain ⟨rfl, htail⟩ := List.append_inj hbehind hnext
        obtain ⟨rfl, _⟩ := List.cons.inj htail
        exact ⟨pending, rest, hinv, hpop⟩
      · refine ih (hkeep _ _ _ _ hinv hpop) hdrain ?_
        rw [List.length_append, List.length_singleton]
        omega

/-! ### The loop over tables -/

/-- Lowering the degrees of a list of nodes, in the table. -/
theorem foldlM_relaxIn {message : String} {list : List α} (hknown : ∀ n ∈ list, n ∈ nodes)
    (hcount : ∀ n, list.count n ≤ degree n) :
    list.foldlM (relaxIn message) ⟨queue, tabulate nodes degree⟩ =
      .ok ⟨(list.foldl relax ⟨queue, degree⟩).queue,
        tabulate nodes (list.foldl relax ⟨queue, degree⟩).degree⟩ := by
  induction list generalizing queue degree with
  | nil => rfl
  | cons n list ih =>
    have hself := hcount n
    rw [List.count_cons_self] at hself
    rw [List.foldlM_cons, relaxIn, lower_tabulate (hknown n List.mem_cons_self) (by omega)]
    refine ih (fun m hm => hknown m (List.mem_cons_of_mem n hm)) ?_
    intro m
    show _ ≤ Function.update degree n (degree n - 1) m
    by_cases hm : m = n
    · subst hm
      rw [Function.update_self]
      omega
    · have hle := hcount m
      rw [List.count_cons_of_ne (Ne.symm hm)] at hle
      rw [Function.update_of_ne hm]
      exact hle

/-- A node that is taken lowers only degrees that count it. -/
theorem count_le_degree (hinverse : Inverse nodes needs successors)
    (h : Drained nodes needs result ⟨queue, degree⟩) (hcurrent : current ∈ queue) (n : α) :
    (successors current).count n ≤ degree n := by
  by_cases hn : n ∈ nodes
  · have hnot : current ∉ result := by
      intro hmem
      exact (List.nodup_append.mp h.nodup).2.2 current hmem current hcurrent rfl
    have hdegree : degree n = (needs n).countP (· ∉ result) := h.degree n hn
    have hknown : current ∈ nodes := h.known current (List.mem_append_right _ hcurrent)
    rw [hinverse.count current hknown n hn, hdegree, countP_notMem_snoc hnot]
    exact Nat.le_add_left _ _
  · rw [List.count_eq_zero.mpr fun hmem => hn (hinverse.known current n hmem)]
    exact Nat.zero_le _

/-- The loop over tables is not stopped, and does what the loop over functions does. -/
theorem run_eq_drainBy {message : String} (hpops : Pops pop)
    (hinverse : Inverse nodes needs successors) (h : Drained nodes needs result ⟨queue, degree⟩) :
    run message pop (tabulate nodes successors) rounds result ⟨queue, tabulate nodes degree⟩ =
      match drainBy pop successors rounds result ⟨queue, degree⟩ with
      | some final => .ok final
      | none => .error .endless := by
  induction rounds generalizing result queue degree with
  | zero =>
    unfold run drainBy
    cases pop queue with
    | none => rfl
    | some taken => rfl
  | succ rounds ih =>
    unfold run drainBy
    cases hpop : pop queue with
    | none => rfl
    | some taken =>
      obtain ⟨current, rest⟩ := taken
      have hcurrent : current ∈ queue := (hpops.perm hpop).mem_iff.mpr List.mem_cons_self
      have hknown : current ∈ nodes := h.known current (List.mem_append_right _ hcurrent)
      have hfold := @foldlM_relaxIn _ _ nodes rest degree message (successors current)
        (hinverse.known current) (count_le_degree hinverse h hcurrent)
      simp only [tabulate_of_mem hknown, Option.getD_some, hfold]
      exact ih (drained_stepBy hpops hinverse h hpop)

end Loop

/-! ### Graphs as lists of edges -/

section Edges
variable [DecidableEq α] {pairs : List (α × α)} {nodes : List α}

/-- The nodes a node has edges to, as often as it has them. -/
def targets (pairs : List (α × α)) (source : α) : List α :=
  (pairs.filter fun edge => edge.1 = source).map Prod.snd

/-- The nodes a node has edges from. -/
def sources (pairs : List (α × α)) (target : α) : List α :=
  (pairs.filter fun edge => edge.2 = target).map Prod.fst

theorem mem_targets {source n : α} : n ∈ targets pairs source ↔ (source, n) ∈ pairs := by
  simp [targets]

theorem mem_sources {target n : α} : n ∈ sources pairs target ↔ (n, target) ∈ pairs := by
  simp [sources]

theorem count_targets (source n : α) : (targets pairs source).count n = pairs.count (source, n) := by
  induction pairs with
  | nil => rfl
  | cons edge pairs ih =>
    obtain ⟨a, b⟩ := edge
    rw [targets] at ih ⊢
    by_cases ha : a = source
    · subst ha
      simp [List.count_cons, ih]
    · simp [ih, ha]

theorem count_sources (target n : α) : (sources pairs target).count n = pairs.count (n, target) := by
  induction pairs with
  | nil => rfl
  | cons edge pairs ih =>
    obtain ⟨a, b⟩ := edge
    rw [sources] at ih ⊢
    by_cases hb : b = target
    · subst hb
      simp [List.count_cons, ih]
    · simp [ih, hb]

theorem inverse_edges (h : ∀ edge ∈ pairs, edge.1 ∈ nodes ∧ edge.2 ∈ nodes) :
    Inverse nodes (sources pairs) (targets pairs) where
  count := by
    intro d _ n _
    rw [count_targets, count_sources]
  known := by
    intro d n hn
    exact (h _ (mem_targets.mp hn)).2
  needed := by
    intro n _ d hd
    exact (h _ (mem_sources.mp hd)).1

/-- The edges of a graph that gives the successors of each node, node by node. -/
def edgesOf (successors : α → List α) (order : List α) : List (α × α) :=
  order.flatMap fun source => (successors source).map fun target => (source, target)

omit [DecidableEq α] in
theorem mem_edgesOf {successors : α → List α} {order : List α} {source target : α} :
    (source, target) ∈ edgesOf successors order ↔ source ∈ order ∧ target ∈ successors source := by
  simp [edgesOf]

theorem targets_edgesOf {successors : α → List α} {order : List α} (hnodup : order.Nodup) (n : α) :
    targets (edgesOf successors order) n = if n ∈ order then successors n else [] := by
  induction order with
  | nil => rfl
  | cons source order ih =>
    obtain ⟨hsource, hnodup⟩ := List.nodup_cons.mp hnodup
    have hsplit : targets (edgesOf successors (source :: order)) n =
        targets ((successors source).map fun target => (source, target)) n ++
          targets (edgesOf successors order) n := by
      rw [edgesOf, List.flatMap_cons, targets, List.filter_append, List.map_append]
      rfl
    rw [hsplit, ih hnodup]
    by_cases hn : n = source
    · subst hn
      simp [targets, List.filter_map, Function.comp_def, hsource]
    · simp [targets, List.filter_map, Function.comp_def, hn, Ne.symm hn]

theorem length_sources_edgesOf (successors : α → List α) (order : List α) (n : α) :
    (sources (edgesOf successors order) n).length =
      (order.map fun source => (successors source).count n).sum := by
  rw [sources, List.length_map, ← List.countP_eq_length_filter, edgesOf, List.countP_flatMap]
  congr 1
  refine List.map_congr_left ?_
  intro source _
  rw [Function.comp_apply, List.countP_map, List.count_eq_countP]
  refine List.countP_congr ?_
  intro target _
  simp

/-- The two tables of a sort. -/
structure Tables (α : Type) where
  degree : α → Option Nat
  edges : α → Option (List α)

/-- Before any edge is put in. -/
def emptyTables (nodes : List α) : Tables α := ⟨insertAll nodes 0, insertAll nodes []⟩

/-- Putting in one edge after the other gives the tables of the graph, whatever a step does
first, if a step between nodes puts its edge in. -/
theorem foldlM_connect {connect : Tables α → α × α → Except Fault (Tables α)}
    (hconnect : ∀ degree edges, ∀ a ∈ nodes, ∀ b ∈ nodes,
      connect ⟨tabulate nodes degree, tabulate nodes edges⟩ (a, b) =
        .ok ⟨tabulate nodes (Function.update degree b (degree b + 1)),
          tabulate nodes (Function.update edges a (edges a ++ [b]))⟩)
    (h : ∀ edge ∈ pairs, edge.1 ∈ nodes ∧ edge.2 ∈ nodes) :
    pairs.foldlM connect (emptyTables nodes) =
      .ok ⟨tabulate nodes fun n => (sources pairs n).length, tabulate nodes (targets pairs)⟩ := by
  have hfold : ∀ degree edges,
      pairs.foldlM connect ⟨tabulate nodes degree, tabulate nodes edges⟩ =
        .ok ⟨tabulate nodes fun n => degree n + (sources pairs n).length,
          tabulate nodes fun n => edges n ++ targets pairs n⟩ := by
    induction pairs with
    | nil =>
      intro degree edges
      simp [sources, targets, pure, Except.pure]
    | cons edge pairs ih =>
      intro degree edges
      obtain ⟨a, b⟩ := edge
      obtain ⟨ha, hb⟩ := h (a, b) List.mem_cons_self
      rw [List.foldlM_cons, hconnect degree edges a ha b hb]
      show pairs.foldlM connect _ = _
      rw [ih fun edge hedge => h edge (List.mem_cons_of_mem _ hedge)]
      have hdegree : (fun n => Function.update degree b (degree b + 1) n + (sources pairs n).length) =
          fun n => degree n + (sources ((a, b) :: pairs) n).length := by
        funext n
        by_cases hn : n = b
        · subst hn
          simp [sources]
          omega
        · simp [sources, hn, Ne.symm hn]
      have hedges : (fun n => Function.update edges a (edges a ++ [b]) n ++ targets pairs n) =
          fun n => edges n ++ targets ((a, b) :: pairs) n := by
        funext n
        by_cases hn : n = a
        · subst hn
          simp [targets]
        · simp [targets, hn, Ne.symm hn]
      rw [hdegree, hedges]
  rw [emptyTables, insertAll_eq, insertAll_eq, hfold]
  simp

/-- An order in which a table with these keys is gone over. -/
structure Listing (nodes : List α) where
  order : List α
  perm : order.Perm nodes.dedup

theorem perm_dedup {order : List α} (hnodup : nodes.Nodup) (h : order.Perm nodes) :
    order.Perm nodes.dedup := by
  rwa [hnodup.dedup]

/-- The nodes with a degree of zero, in the order a table is gone over. -/
def readyNodes (degree : α → Option Nat) (order : List α) : List α :=
  order.filter fun n => degree n = some 0

/-- What a program leaves that puts the edges of a graph into tables and then takes nodes from a
queue: every node that waits for none, after those it waited for. -/
theorem run_edges {message : String} {pop : List α → Option (α × List α)} {order : List α}
    {rounds : Nat} (hpops : Pops pop) (h : ∀ edge ∈ pairs, edge.1 ∈ nodes ∧ edge.2 ∈ nodes)
    (horder : order.Perm nodes.dedup) (hrounds : nodes.length ≤ rounds) :
    Drained nodes (sources pairs) []
        ⟨readyNodes (tabulate nodes fun n => (sources pairs n).length) order,
          fun n => (sources pairs n).length⟩ ∧
    ∃ final degree,
      drainBy pop (targets pairs) rounds []
        ⟨readyNodes (tabulate nodes fun n => (sources pairs n).length) order,
          fun n => (sources pairs n).length⟩ = some final ∧
      run message pop (tabulate nodes (targets pairs)) rounds []
        ⟨readyNodes (tabulate nodes fun n => (sources pairs n).length) order,
          tabulate nodes fun n => (sources pairs n).length⟩ = .ok final ∧
      Drained nodes (sources pairs) final ⟨[], degree⟩ := by
  have hinverse := inverse_edges h
  have hstart : Drained nodes (sources pairs) []
      ⟨readyNodes (tabulate nodes fun n => (sources pairs n).length) order,
        fun n => (sources pairs n).length⟩ := by
    refine drained_initial ?_ (fun n _ => rfl) ?_
    · exact (horder.nodup_iff.mpr (List.nodup_dedup nodes)).filter _
    · intro n
      rw [readyNodes, List.mem_filter, horder.mem_iff, List.mem_dedup]
      constructor
      · intro hn
        refine ⟨hn.1, ?_⟩
        simpa [tabulate_of_mem hn.1] using hn.2
      · intro hn
        refine ⟨hn.1, ?_⟩
        simpa [tabulate_of_mem hn.1] using hn.2
  have hlength : nodes.length ≤ rounds + ([] : List α).length := hrounds
  obtain ⟨final, degree, hfinal, hdrained⟩ := drainBy_eq_some hpops hinverse hstart hlength
  refine ⟨hstart, final, degree, hfinal, ?_, hdrained⟩
  rw [run_eq_drainBy hpops hinverse hstart, hfinal]

end Edges

/-! ### Stacks -/

section Stacks
variable [DecidableEq α] {nodes result rest list : List α} {successors needs : α → List α}
  {pending : Pending α} {current top bottom : α}

theorem prefix_foldl_relax (list : List α) (pending : Pending α) :
    pending.queue <+: (list.foldl relax pending).queue := by
  induction list generalizing pending with
  | nil => exact List.prefix_refl _
  | cons n list ih =>
    refine List.IsPrefix.trans ?_ (ih (relax pending n))
    rw [relax]
    split
    next => exact List.prefix_append _ _
    next => exact List.prefix_refl _

theorem mem_foldl_relax {n : α} (h : n ∈ (list.foldl relax pending).queue) :
    n ∈ pending.queue ∨ n ∈ list := by
  induction list generalizing pending with
  | nil => exact .inl h
  | cons m list ih =>
    rcases ih h with hmem | hmem
    · rw [relax] at hmem
      split at hmem
      next =>
        rcases List.mem_append.mp hmem with hmem | hmem
        · exact .inl hmem
        · exact .inr (List.mem_cons.mpr (.inl (List.mem_singleton.mp hmem)))
      next => exact .inl hmem
    · exact .inr (List.mem_cons_of_mem m hmem)

/-- A node that lies at the bottom of the stack, until it is taken. -/
def AtBottom (bottom : α) (result : List α) (pending : Pending α) : Prop :=
  bottom ∈ result ∨ pending.queue.head? = some bottom

theorem atBottom_step (h : AtBottom bottom result pending)
    (hpop : popBack pending.queue = some (current, rest)) :
    AtBottom bottom (result ++ [current]) (list.foldl relax ⟨rest, pending.degree⟩) := by
  rcases h with hmem | hhead
  · exact .inl (List.mem_append_left _ hmem)
  · rw [popBack_eq_some.mp hpop] at hhead
    cases rest with
    | nil =>
      rw [List.nil_append, List.head?_cons, Option.some.injEq] at hhead
      rw [hhead]
      exact .inl (List.mem_append_right _ (List.mem_singleton_self _))
    | cons first rest =>
      obtain ⟨behind, hbehind⟩ := prefix_foldl_relax list ⟨first :: rest, pending.degree⟩
      rw [List.cons_append, List.head?_cons] at hhead
      refine .inr ?_
      rw [← hbehind, List.cons_append, List.head?_cons, hhead]

/-- A node that is on the stack lies on top of it. -/
def OnTop (top : α) (pending : Pending α) : Prop :=
  top ∈ pending.queue → pending.queue.getLast? = some top

/-- A node that every list of successors has at its end comes to lie on top. -/
theorem onTop_foldl_relax {times : Nat} (h : top ∉ pending.queue) (hlist : top ∉ list) :
    OnTop top ((list ++ List.replicate times top).foldl relax pending) := by
  rw [List.foldl_append]
  have hbefore : OnTop top (list.foldl relax pending) := by
    intro hmem
    rcases mem_foldl_relax hmem with hmem | hmem
    · exact absurd hmem h
    · exact absurd hmem hlist
  generalize list.foldl relax pending = before at hbefore
  induction times generalizing before with
  | zero => exact hbefore
  | succ times ih =>
    rw [List.replicate_succ, List.foldl_cons]
    refine ih (relax before top) ?_
    rw [relax]
    split
    next => exact fun _ => List.getLast?_concat
    next => exact hbefore

/-- The two ends of a stack, beside what every loop keeps. -/
structure Stacked (nodes : List α) (needs : α → List α) (bottom top : α) (result : List α)
    (pending : Pending α) : Prop where
  drained : Drained nodes needs result pending
  bottom : AtBottom bottom result pending
  top : OnTop top pending

/-- The successors of a node, with one of them at the end. -/
def EndsWith (top : α) (list : List α) : Prop :=
  ∃ before times, list = before ++ List.replicate times top ∧ top ∉ before

theorem stacked_step (hinverse : Inverse nodes needs successors)
    (hlast : ∀ n, EndsWith top (successors n))
    (h : Stacked nodes needs bottom top result pending)
    (hpop : popBack pending.queue = some (current, rest)) :
    Stacked nodes needs bottom top (result ++ [current])
      ((successors current).foldl relax ⟨rest, pending.degree⟩) := by
  have hdrained := drained_stepBy pops_back hinverse h.drained hpop
  refine ⟨hdrained, atBottom_step h.bottom hpop, ?_⟩
  by_cases hcurrent : current = top
  · -- It is in the result now, so it is not on the stack any more.
    intro hmem
    have hresult : top ∈ result ++ [current] := by simp [hcurrent]
    exact absurd rfl ((List.nodup_append.mp hdrained.nodup).2.2 top hresult top hmem)
  · have hqueue := popBack_eq_some.mp hpop
    have hrest : top ∉ rest := by
      intro hmem
      have htop := h.top (by rw [hqueue]; exact List.mem_append_left _ hmem)
      rw [hqueue, List.getLast?_concat, Option.some.injEq] at htop
      exact hcurrent htop
    obtain ⟨before, times, hlist, hbefore⟩ := hlast current
    rw [hlist]
    exact onTop_foldl_relax hrest hbefore

/-- Where a node without needs lies at the bottom of the stack, every other one comes before it. -/
theorem roots_before {final before after : List α} {rounds : Nat}
    (hinverse : Inverse nodes needs successors) (hlast : ∀ n, EndsWith top (successors n))
    (h : Stacked nodes needs bottom top [] pending)
    (hdrain : drainBy popBack successors rounds [] pending = some final)
    (hfinal : final = before ++ bottom :: after) :
    ∀ n ∈ nodes, needs n = [] → n ≠ bottom → n ∈ before := by
  obtain ⟨state, rest, hstate, hpop⟩ := drainBy_visits
    (fun result pending current rest hinv hpop => stacked_step hinverse hlast hinv hpop)
    h hdrain hfinal (Nat.zero_le _)
  have hqueue := popBack_eq_some.mp hpop
  have hnodup := hstate.drained.nodup
  -- The bottom is taken, so nothing else is left.
  have hempty : rest = [] := by
    rcases hstate.bottom with hmem | hhead
    · rw [hqueue] at hnodup
      exact absurd rfl ((List.nodup_append.mp hnodup).2.2 bottom hmem bottom (by simp))
    · cases rest with
      | nil => rfl
      | cons first rest =>
        rw [hqueue, List.cons_append, List.head?_cons, Option.some.injEq] at hhead
        rw [hqueue, hhead] at hnodup
        exact absurd (List.nodup_append.mp hnodup).2.1 (by simp)
  intro n hn hneeds hne
  have hdegree : state.degree n = 0 := by
    rw [hstate.drained.degree n hn, hneeds]
    rfl
  have hmem := (hstate.drained.ready n hn).mpr hdegree
  rw [hqueue, hempty] at hmem
  rcases List.mem_append.mp hmem with hmem | hmem
  · exact hmem
  · exact absurd (List.mem_singleton.mp hmem) hne

/-- A node on top of the stack is taken before any that comes once its needs are met. -/
theorem top_before {final before after : List α} {rounds : Nat} {n : α}
    (hinverse : Inverse nodes needs successors) (hlast : ∀ n, EndsWith top (successors n))
    (h : Stacked nodes needs bottom top [] pending)
    (hdrain : drainBy popBack successors rounds [] pending = some final)
    (hfinal : final = before ++ n :: after) (hne : n ≠ top) (htop : top ∈ nodes)
    (hneeds : ∀ d ∈ needs top, d ∈ before) : top ∈ before := by
  obtain ⟨state, rest, hstate, hpop⟩ := drainBy_visits
    (fun result pending current rest hinv hpop => stacked_step hinverse hlast hinv hpop)
    h hdrain hfinal (Nat.zero_le _)
  have hdegree : state.degree top = 0 := by
    rw [hstate.drained.degree top htop, List.countP_eq_zero]
    intro d hd
    simpa using hneeds d hd
  rcases List.mem_append.mp ((hstate.drained.ready top htop).mpr hdegree) with hmem | hmem
  · exact hmem
  · have hlast := hstate.top hmem
    rw [popBack_eq_some.mp hpop, List.getLast?_concat, Option.some.injEq] at hlast
    exact absurd hlast hne

end Stacks

end Attest.Library.Kahn
