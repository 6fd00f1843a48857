import Mathlib.Data.Fintype.Card
import Mathlib.Data.Set.Finite.List
import Mathlib.Data.List.Nodup
import Mathlib.Logic.Relation
import Mathlib.Order.WellFounded

/-! Topological sorting by in-degrees, and the search for a cycle.

The graph is given by the successors of a node; a node may be listed several times. The
sort takes nodes without open predecessors from a queue and lowers the degree of their
successors, and a node is queued when its degree reaches zero. `Drained` is what the loop
keeps: the degree of a node counts the predecessors that are not yet in the result. So the
result lists every node after its predecessors, and on a graph without a cycle it lists
all of them. The search for a cycle is depth first, with the path in a stack. -/
namespace Attest.Library.TopologicalSort
open Relation

variable {α : Type*} [DecidableEq α]

/-! ### The sort -/

/-- The nodes that are next, and how many predecessors each node waits for. -/
structure Pending (α : Type*) where
  queue : List α
  degree : α → Nat

/-- One successor: one predecessor less, and queued with the last of them. -/
def relax (pending : Pending α) (node : α) : Pending α where
  queue := if pending.degree node - 1 = 0 then pending.queue ++ [node] else pending.queue
  degree := Function.update pending.degree node (pending.degree node - 1)

/-- The nodes in the order they leave the queue. Each leaves it once, so as many rounds as
there are nodes are enough. -/
def drain (successors : α → List α) : Nat → List α → Pending α → Option (List α)
  | _, result, ⟨[], _⟩ => some result
  | 0, _, ⟨_ :: _, _⟩ => none
  | rounds + 1, result, ⟨current :: queue, degree⟩ =>
    drain successors rounds (result ++ [current]) ((successors current).foldl relax ⟨queue, degree⟩)

/-- What lowering the degrees of a list of nodes does: each loses what it is listed, and
those that reach zero are queued, once. -/
theorem foldl_relax (nodes : List α) (pending : Pending α)
    (h : ∀ n, nodes.count n ≤ pending.degree n) :
    ∃ added, (nodes.foldl relax pending).queue = pending.queue ++ added ∧ added.Nodup ∧
      (∀ n, n ∈ added ↔ n ∈ nodes ∧ pending.degree n = nodes.count n) ∧
      ∀ n, (nodes.foldl relax pending).degree n = pending.degree n - nodes.count n := by
  induction nodes generalizing pending with
  | nil => exact ⟨[], by simp, List.nodup_nil, by simp, by simp⟩
  | cons node rest ih =>
    have hdegree : ∀ n, (relax pending node).degree n =
        pending.degree n - if n = node then 1 else 0 := by
      intro n
      by_cases hn : n = node
      · subst hn
        simp [relax]
      · simp [relax, hn]
    have hcount : ∀ n, (node :: rest).count n = rest.count n + if n = node then 1 else 0 := by
      intro n
      rw [List.count_cons]
      by_cases hn : n = node
      · simp [hn]
      · simp [hn, Ne.symm hn]
    have hrest : ∀ n, rest.count n ≤ (relax pending node).degree n := by
      intro n
      have := h n
      rw [hcount] at this
      rw [hdegree]
      omega
    obtain ⟨added, hqueue, hnodup, hadded, hfinal⟩ := ih (relax pending node) hrest
    have hnode := h node
    rw [hcount, if_pos rfl] at hnode
    rw [List.foldl_cons]
    by_cases hzero : pending.degree node - 1 = 0
    · -- The last predecessor: the node is not listed again.
      have hlast : rest.count node = 0 := by omega
      have hnot : node ∉ rest := List.count_eq_zero.mp hlast
      refine ⟨node :: added, ?_, ?_, ?_, ?_⟩
      · rw [hqueue, relax, if_pos hzero, List.append_assoc, List.singleton_append]
      · refine List.nodup_cons.mpr ⟨?_, hnodup⟩
        intro hmem
        exact hnot ((hadded node).mp hmem).1
      · intro n
        rw [List.mem_cons, List.mem_cons, hadded, hdegree, hcount]
        by_cases hn : n = node
        · subst hn
          simp only [if_true, true_or, true_and, true_iff]
          omega
        · simp [hn]
      · intro n
        rw [hfinal, hdegree, hcount]
        omega
    · refine ⟨added, ?_, hnodup, ?_, ?_⟩
      · rw [hqueue, relax, if_neg hzero]
      · intro n
        rw [List.mem_cons, hadded, hdegree, hcount]
        by_cases hn : n = node
        · subst hn
          simp only [if_true, true_or, true_and]
          constructor
          · intro hmem
            omega
          · intro hdeg
            refine ⟨?_, by omega⟩
            rw [← List.count_pos_iff]
            omega
        · simp [hn]
      · intro n
        rw [hfinal, hdegree, hcount]
        omega

/-! ### What the loop keeps -/

section Loop
variable {nodes : List α} {needs successors : α → List α}

/-- The successors are the needs, read from the other end. -/
structure Inverse (nodes : List α) (needs successors : α → List α) : Prop where
  count : ∀ d ∈ nodes, ∀ n ∈ nodes, (successors d).count n = (needs n).count d
  known : ∀ d, ∀ n ∈ successors d, n ∈ nodes
  needed : ∀ n ∈ nodes, ∀ d ∈ needs n, d ∈ nodes

/-- Every node after what it needs. -/
def Ordered (needs : α → List α) (result : List α) : Prop :=
  ∀ before n after, result = before ++ n :: after → ∀ d ∈ needs n, d ∈ before

structure Drained (nodes : List α) (needs : α → List α) (result : List α) (pending : Pending α) :
    Prop where
  nodup : (result ++ pending.queue).Nodup
  known : ∀ n ∈ result ++ pending.queue, n ∈ nodes
  degree : ∀ n ∈ nodes, pending.degree n = (needs n).countP (· ∉ result)
  ready : ∀ n ∈ nodes, n ∈ result ++ pending.queue ↔ pending.degree n = 0
  ordered : Ordered needs result

omit [DecidableEq α] in
theorem ordered_snoc {result : List α} {n : α} (h : Ordered needs result)
    (hn : ∀ d ∈ needs n, d ∈ result) : Ordered needs (result ++ [n]) := by
  intro before m after hsplit d hd
  rcases List.eq_nil_or_concat after with rfl | ⟨init, last, rfl⟩
  · obtain ⟨rfl, hlast⟩ := List.append_inj' hsplit rfl
    cases hlast
    exact hn d hd
  · rw [List.concat_eq_append, ← List.cons_append, ← List.append_assoc] at hsplit
    obtain ⟨hinit, _⟩ := List.append_inj' hsplit rfl
    exact h before m init hinit d hd

/-- One predecessor more in the result. -/
theorem countP_notMem_snoc {result : List α} {current : α} (h : current ∉ result) (l : List α) :
    l.countP (· ∉ result) = l.countP (· ∉ result ++ [current]) + l.count current := by
  induction l with
  | nil => rfl
  | cons d l ih =>
    rw [List.countP_cons, List.countP_cons, List.count_cons, ih]
    by_cases hd : d = current
    · subst hd
      simp [h]
      omega
    · simp [hd]
      omega

/-- One round keeps it. -/
theorem Drained.step {result queue : List α} {degree : α → Nat} {current : α}
    (hinverse : Inverse nodes needs successors)
    (h : Drained nodes needs result ⟨current :: queue, degree⟩) :
    Drained nodes needs (result ++ [current])
      ((successors current).foldl relax ⟨queue, degree⟩) := by
  have hcurrent : current ∈ nodes := h.known current (by simp)
  have hopen : ∀ n ∈ nodes, degree n = (needs n).countP (· ∉ result) := h.degree
  have hnotMem : current ∉ result := by
    intro hmem
    exact (List.nodup_append.mp h.nodup).2.2 current hmem current (List.mem_cons_self ..) rfl
  -- Each open predecessor of a node is counted in its degree.
  have hcount : ∀ n, (successors current).count n ≤ degree n := by
    intro n
    by_cases hn : n ∈ nodes
    · rw [hinverse.count current hcurrent n hn, hopen n hn, countP_notMem_snoc hnotMem]
      omega
    · rw [List.count_eq_zero.mpr fun hmem => hn (hinverse.known current n hmem)]
      exact Nat.zero_le _
  obtain ⟨added, hqueue, hnodup, hadded, hdegree⟩ :=
    foldl_relax (successors current) ⟨queue, degree⟩ hcount
  have hassoc : ∀ l : List α, (result ++ [current]) ++ (queue ++ l) =
      (result ++ current :: queue) ++ l := by simp
  have hfresh : ∀ n ∈ added, n ∉ result ++ current :: queue := by
    intro n hn hmem
    obtain ⟨hsucc, hdeg⟩ := (hadded n).mp hn
    have hzero := (h.ready n (hinverse.known current n hsucc)).mp hmem
    have := List.count_pos_iff.mpr hsucc
    simp only at hzero hdeg
    omega
  refine ⟨?_, ?_, ?_, ?_, ?_⟩
  · rw [hqueue, hassoc, List.nodup_append]
    refine ⟨h.nodup, hnodup, ?_⟩
    intro a ha b hb hab
    exact hfresh b hb (hab ▸ ha)
  · rw [hqueue, hassoc]
    intro n hn
    rcases List.mem_append.mp hn with hn | hn
    · exact h.known n hn
    · exact hinverse.known current n ((hadded n).mp hn).1
  · intro n hn
    rw [hdegree, hinverse.count current hcurrent n hn]
    show degree n - _ = _
    rw [hopen n hn, countP_notMem_snoc hnotMem]
    omega
  · intro n hn
    rw [hqueue, hassoc, List.mem_append, h.ready n hn, hdegree, hadded]
    show degree n = 0 ∨ _ ↔ degree n - _ = 0
    have hle := hcount n
    have hpos : n ∈ successors current ↔ 0 < (successors current).count n := List.count_pos_iff.symm
    constructor
    · rintro (hzero | ⟨_, hzero⟩)
      · omega
      · simp only at hzero
        omega
    · intro hzero
      by_cases hmem : n ∈ successors current
      · exact .inr ⟨hmem, by simp only; omega⟩
      · rw [hpos] at hmem
        exact .inl (by omega)
  · refine ordered_snoc h.ordered ?_
    intro d hd
    have hzero := (h.ready current hcurrent).mp (by simp)
    have hall := hopen current hcurrent
    rw [show degree current = 0 from hzero, eq_comm, List.countP_eq_zero] at hall
    simpa using hall d hd

theorem Drained.length_le {result : List α} {pending : Pending α}
    (h : Drained nodes needs result pending) :
    result.length + pending.queue.length ≤ nodes.length := by
  rw [← List.length_append]
  exact (List.subperm_of_subset h.nodup h.known).length_le

/-- The loop comes to its end, with an empty queue. -/
theorem drain_eq_some (hinverse : Inverse nodes needs successors) {rounds : Nat} {result : List α}
    {pending : Pending α} (h : Drained nodes needs result pending)
    (hrounds : nodes.length ≤ rounds + result.length) :
    ∃ final degree, drain successors rounds result pending = some final ∧
      Drained nodes needs final ⟨[], degree⟩ := by
  induction rounds generalizing result pending with
  | zero =>
    obtain ⟨queue, degree⟩ := pending
    have hle := h.length_le
    have hempty : queue = [] := List.length_eq_zero_iff.mp (by simp only at hle; omega)
    subst hempty
    exact ⟨result, degree, rfl, h⟩
  | succ rounds ih =>
    obtain ⟨queue, degree⟩ := pending
    cases queue with
    | nil => exact ⟨result, degree, rfl, h⟩
    | cons current queue =>
      refine ih (h.step hinverse) ?_
      rw [List.length_append, List.length_singleton]
      omega

/-- At the start nothing is in the result and the nodes without needs are queued. -/
theorem drained_initial {queue : List α} {degree : α → Nat} (hnodup : queue.Nodup)
    (hdegree : ∀ n ∈ nodes, degree n = (needs n).length)
    (hqueue : ∀ n, n ∈ queue ↔ n ∈ nodes ∧ degree n = 0) :
    Drained nodes needs [] ⟨queue, degree⟩ := by
  refine ⟨hnodup, ?_, ?_, ?_, ?_⟩
  · intro n hn
    exact ((hqueue n).mp hn).1
  · intro n hn
    simpa using hdegree n hn
  · intro n hn
    simp [hqueue, hn]
  · intro before n after h
    simp at h

/-! ### Without a cycle every node is listed -/

/-- No node needs itself, directly or through others. -/
def Acyclic (needs : α → List α) : Prop := ∀ n, ¬ TransGen (fun d n => d ∈ needs n) n n

omit [DecidableEq α] in
/-- Needs that lower a rank go round in no circle. -/
theorem acyclic_of_rank (rank : α → Nat) (h : ∀ n, ∀ d ∈ needs n, rank d < rank n) :
    Acyclic needs := by
  have hrank : ∀ d n, TransGen (fun d n => d ∈ needs n) d n → rank d < rank n := by
    intro d n hdn
    induction hdn with
    | single hneed => exact h _ _ hneed
    | tail _ hneed ih => exact ih.trans (h _ _ hneed)
  exact fun n hcycle => lt_irrefl _ (hrank n n hcycle)

/-- Where every node that needs others is listed after them there is no cycle. -/
theorem acyclic_of_ordered {result : List α} (h : Ordered needs result)
    (hall : ∀ n, needs n ≠ [] → n ∈ result) : Acyclic needs := by
  apply acyclic_of_rank fun n => result.idxOf n
  intro n d hd
  have hn : n ∈ result := hall n (List.ne_nil_of_mem hd)
  obtain ⟨before, after, hsplit, hnot⟩ := List.eq_append_cons_of_mem hn
  have hbefore : d ∈ before := h before n after hsplit d hd
  rw [hsplit, List.idxOf_append_of_mem hbefore, List.idxOf_append_of_notMem hnot,
    List.idxOf_cons_self, Nat.add_zero]
  exact List.idxOf_lt_length_of_mem hbefore

omit [DecidableEq α] in
/-- What is needed through others comes before as well. -/
theorem before_of_transGen {result before after : List α} {d n : α} (h : Ordered needs result)
    (hneeds : TransGen (fun d n => d ∈ needs n) d n) (hsplit : result = before ++ n :: after) :
    d ∈ before := by
  induction hneeds generalizing before after with
  | single hd => exact h _ _ _ hsplit d hd
  | tail _ hm ih =>
    obtain ⟨first, second, hfirst⟩ := List.append_of_mem (h _ _ _ hsplit _ hm)
    rw [hfirst, List.append_assoc, List.cons_append] at hsplit
    rw [hfirst]
    exact List.mem_append_left _ (ih hsplit)

omit [DecidableEq α] in
/-- Nothing is needed by what comes before it. -/
theorem pairwise_of_ordered {result : List α} (h : Ordered needs result) (hnodup : result.Nodup) :
    result.Pairwise fun x y => y ∉ needs x := by
  induction result using List.reverseRecOn with
  | nil => exact List.Pairwise.nil
  | append_singleton init last ih =>
    have hinit : Ordered needs init := by
      intro before n after hsplit
      exact h before n (after ++ [last]) (by rw [hsplit, List.append_assoc, List.cons_append])
    obtain ⟨hnodupInit, _, hfresh⟩ := List.nodup_append.mp hnodup
    refine List.pairwise_append.mpr ⟨ih hinit hnodupInit, List.pairwise_singleton _ _, ?_⟩
    intro x hx y hy hneed
    rw [List.mem_singleton.mp hy] at hneed
    obtain ⟨before, after, hsplit⟩ := List.append_of_mem hx
    have hbefore := hinit before x after hsplit last
    have hmem : last ∈ before := by
      refine h before x (after ++ [last]) ?_ last hneed
      rw [hsplit, List.append_assoc, List.cons_append]
    exact hfresh last (by rw [hsplit]; exact List.mem_append_left _ hmem) last
      (List.mem_singleton_self _) rfl

omit [DecidableEq α] in
/-- Everything in a line but its first node needs another node of the line. -/
theorem exists_need_of_isChain {first : α} {rest : List α}
    (hchain : (first :: rest).IsChain fun d n => d ∈ needs n) (hnodup : (first :: rest).Nodup)
    {n : α} (hn : n ∈ rest) : ∃ d ∈ first :: rest, d ≠ n ∧ d ∈ needs n := by
  induction rest generalizing first with
  | nil => cases hn
  | cons second rest ih =>
    rw [List.isChain_cons_cons] at hchain
    rw [List.nodup_cons] at hnodup
    rcases List.mem_cons.mp hn with rfl | hn
    · refine ⟨first, List.mem_cons_self, ?_, hchain.1⟩
      intro heq
      exact hnodup.1 (heq ▸ List.mem_cons_self)
    · obtain ⟨d, hd, hne, hneed⟩ := ih hchain.2 hnodup.2 hn
      exact ⟨d, List.mem_cons_of_mem first hd, hne, hneed⟩

omit [DecidableEq α] in
/-- Nodes in a line, each needing the one before it, can be listed in one order only. -/
theorem eq_of_isChain {line list : List α} (hchain : line.IsChain fun d n => d ∈ needs n)
    (hnodup : line.Nodup) (hperm : list.Perm line) (h : list.Pairwise fun x y => y ∉ needs x) :
    list = line := by
  induction line generalizing list with
  | nil => exact List.perm_nil.mp hperm
  | cons first rest ih =>
    cases list with
    | nil => exact absurd hperm.symm (List.not_perm_nil_cons _ _ ∘ List.Perm.symm)
    | cons head tail =>
      obtain ⟨hhead, htail⟩ := List.pairwise_cons.mp h
      -- The head needs nothing that comes after it, so it is the first of the line.
      have hfirst : head = first := by
        rcases List.mem_cons.mp (hperm.mem_iff.mp List.mem_cons_self) with heq | hmem
        · exact heq
        · obtain ⟨d, hd, hne, hneed⟩ := exists_need_of_isChain hchain hnodup hmem
          have hlater := (List.mem_cons.mp (hperm.mem_iff.mpr hd)).resolve_left hne
          exact absurd hneed (hhead d hlater)
      subst hfirst
      rw [ih hchain.of_cons (List.nodup_cons.mp hnodup).2 hperm.cons_inv htail]

omit [DecidableEq α] in
/-- The needs of finitely many nodes without a cycle can be followed only so far. -/
theorem wellFounded_of_acyclic (hacyclic : Acyclic needs) :
    WellFounded fun a b : { n // n ∈ nodes } => TransGen (fun d n => d ∈ needs n) a.1 b.1 := by
  have htrans : IsTrans { n // n ∈ nodes }
      fun a b => TransGen (fun d n => d ∈ needs n) a.1 b.1 := ⟨fun _ _ _ => TransGen.trans⟩
  have hirrefl : Std.Irrefl
      fun a b : { n // n ∈ nodes } => TransGen (fun d n => d ∈ needs n) a.1 b.1 :=
    ⟨fun a => hacyclic a.1⟩
  have hfinite : Finite { n // n ∈ nodes } := (List.finite_toSet nodes).to_subtype
  exact Finite.wellFounded_of_trans_of_irrefl _

omit [DecidableEq α] in
/-- Behind every node there is one without needs. -/
theorem exists_root (hacyclic : Acyclic needs) (hneeded : ∀ n ∈ nodes, ∀ d ∈ needs n, d ∈ nodes)
    {n : α} (hn : n ∈ nodes) :
    ∃ root ∈ nodes, needs root = [] ∧ ReflTransGen (fun d n => d ∈ needs n) root n := by
  refine (wellFounded_of_acyclic hacyclic).induction
    (C := fun node : { n // n ∈ nodes } =>
      ∃ root ∈ nodes, needs root = [] ∧ ReflTransGen (fun d n => d ∈ needs n) root node.1) ⟨n, hn⟩ ?_
  intro ⟨m, hm⟩ ih
  cases hneeds : needs m with
  | nil => exact ⟨m, hm, hneeds, .refl⟩
  | cons d rest =>
    have hd : d ∈ needs m := by rw [hneeds]; exact List.mem_cons_self
    obtain ⟨root, hroot, hnone, hreach⟩ := ih ⟨d, hneeded m hm d hd⟩ (.single hd)
    exact ⟨root, hroot, hnone, hreach.tail hd⟩

theorem Drained.complete {final : List α} {degree : α → Nat}
    (hinverse : Inverse nodes needs successors) (hacyclic : Acyclic needs)
    (h : Drained nodes needs final ⟨[], degree⟩) : ∀ n ∈ nodes, n ∈ final := by
  intro n hn
  -- By what a node needs: a node that is left waits for another one that is left.
  refine (wellFounded_of_acyclic hacyclic).induction
    (C := fun node : { n // n ∈ nodes } => node.1 ∈ final) ⟨n, hn⟩ ?_
  intro ⟨m, hm⟩ ih
  have hmem := h.ready m hm
  rw [List.append_nil] at hmem
  rw [hmem, h.degree m hm, List.countP_eq_zero]
  intro d hd
  simpa using ih ⟨d, hinverse.needed m hm d hd⟩ (.single hd)

theorem Drained.perm {final : List α} {degree : α → Nat} (hnodes : nodes.Nodup)
    (h : Drained nodes needs final ⟨[], degree⟩) (hall : ∀ n ∈ nodes, n ∈ final) :
    final.Perm nodes := by
  have hnodup : final.Nodup := by simpa using h.nodup
  have hknown : ∀ n ∈ final, n ∈ nodes := by simpa using h.known
  exact (List.perm_ext_iff_of_nodup hnodup hnodes).mpr fun n => ⟨hknown n, hall n⟩

end Loop

/-! ### The search for a cycle -/

/-- Why a search ends early. -/
inductive Blocked (α : Type*)
  | cycle (node : α) (stack : List α)
  | exhausted

/-- Everything that can be reached from a node, marked. The stack is the path to it. -/
def visit (successors : α → List α) : Nat → List α → List α → α → Except (Blocked α) (List α)
  | depth, stack, visited, node =>
    if node ∈ stack then .error (.cycle node stack)
    else if node ∈ visited then .ok visited
    else
      match depth with
      | 0 => .error .exhausted
      | depth + 1 =>
        (successors node).foldlM (visit successors depth (node :: stack)) (node :: visited)

/-- A search from every node that no other search has reached. -/
def searchAll (successors : α → List α) (nodes : List α) : Except (Blocked α) (List α) :=
  nodes.foldlM (fun visited node =>
    if node ∈ visited then .ok visited else visit successors nodes.length [] visited node) []

section Search
variable {nodes : List α} {successors : α → List α}

/-- What a search may have marked. -/
structure Marked (nodes visited : List α) : Prop where
  nodup : visited.Nodup
  known : ∀ n ∈ visited, n ∈ nodes

omit [DecidableEq α] in
theorem Marked.cons {visited : List α} {node : α} (h : Marked nodes visited) (hnode : node ∈ nodes)
    (hnot : node ∉ visited) : Marked nodes (node :: visited) := by
  refine ⟨List.nodup_cons.mpr ⟨hnot, h.nodup⟩, ?_⟩
  intro n hn
  rcases List.mem_cons.mp hn with rfl | hn
  · exact hnode
  · exact h.known n hn

omit [DecidableEq α] in
theorem Marked.length_le {visited : List α} (h : Marked nodes visited) :
    visited.length ≤ nodes.length :=
  (List.subperm_of_subset h.nodup h.known).length_le

omit [DecidableEq α] in
/-- A search of a list of nodes goes through if each does and none unmarks. -/
theorem foldlM_marked {ε : Type*} (bound : Nat) {search : List α → α → Except ε (List α)}
    {list visited : List α}
    (hstep : ∀ visited, Marked nodes visited → bound ≤ visited.length → ∀ n ∈ list,
      ∃ after, search visited n = .ok after ∧ Marked nodes after ∧ visited.length ≤ after.length)
    (hmarked : Marked nodes visited) (hbound : bound ≤ visited.length) :
    ∃ after, list.foldlM search visited = .ok after ∧ Marked nodes after ∧
      visited.length ≤ after.length := by
  induction list generalizing visited with
  | nil => exact ⟨visited, rfl, hmarked, le_rfl⟩
  | cons node rest ih =>
    obtain ⟨next, hnext, hmarked', hle⟩ := hstep visited hmarked hbound node (List.mem_cons_self ..)
    obtain ⟨after, hafter, hmarked'', hle'⟩ := ih
      (fun v hv hb n hn => hstep v hv hb n (List.mem_cons_of_mem node hn)) hmarked' (hbound.trans hle)
    refine ⟨after, ?_, hmarked'', hle.trans hle'⟩
    rw [List.foldlM_cons, hnext]
    exact hafter

/-- A search that is deep enough ends with nodes marked, or at a cycle. -/
def Concludes (nodes visited : List α) : Except (Blocked α) (List α) → Prop
  | .ok after => Marked nodes after ∧ visited.length ≤ after.length
  | .error blocked => blocked ≠ .exhausted

omit [DecidableEq α] in
theorem foldlM_concludes (bound : Nat) {search : List α → α → Except (Blocked α) (List α)}
    {list visited : List α}
    (hstep : ∀ visited, Marked nodes visited → bound ≤ visited.length → ∀ n ∈ list,
      Concludes nodes visited (search visited n))
    (hmarked : Marked nodes visited) (hbound : bound ≤ visited.length) :
    Concludes nodes visited (list.foldlM search visited) := by
  induction list generalizing visited with
  | nil => exact ⟨hmarked, le_rfl⟩
  | cons node rest ih =>
    have hfirst := hstep visited hmarked hbound node List.mem_cons_self
    rw [List.foldlM_cons]
    cases hnode : search visited node with
    | error blocked =>
      rw [hnode] at hfirst
      exact hfirst
    | ok next =>
      rw [hnode] at hfirst
      obtain ⟨hmarked', hle⟩ := hfirst
      have hrest := ih (fun v hv hb n hn => hstep v hv hb n (List.mem_cons_of_mem node hn)) hmarked'
        (hbound.trans hle)
      show Concludes nodes visited (rest.foldlM search next)
      cases hafter : rest.foldlM search next with
      | error blocked =>
        rw [hafter] at hrest
        exact hrest
      | ok after =>
        rw [hafter] at hrest
        exact ⟨hrest.1, hle.trans hrest.2⟩

/-- A search is never deeper than there are nodes left to mark, on whatever graph. -/
theorem visit_concludes (hknown : ∀ d, ∀ n ∈ successors d, n ∈ nodes) {depth : Nat}
    {stack visited : List α} {node : α} (hnode : node ∈ nodes) (hmarked : Marked nodes visited)
    (hdepth : nodes.length ≤ depth + visited.length) :
    Concludes nodes visited (visit successors depth stack visited node) := by
  induction depth generalizing stack visited node with
  | zero =>
    unfold visit
    split
    next => simp [Concludes]
    next =>
      split
      next => exact ⟨hmarked, le_rfl⟩
      next hmem =>
        have hle := (hmarked.cons hnode hmem).length_le
        rw [List.length_cons] at hle
        omega
  | succ depth ih =>
    unfold visit
    split
    next => simp [Concludes]
    next =>
      split
      next => exact ⟨hmarked, le_rfl⟩
      next hmem =>
        have hstep : ∀ v, Marked nodes v → visited.length + 1 ≤ v.length → ∀ n ∈ successors node,
            Concludes nodes v (visit successors depth (node :: stack) v n) := by
          intro v hv hlength n hn
          exact ih (hknown node n hn) hv (by omega)
        have hrest := foldlM_concludes (visited.length + 1) hstep (hmarked.cons hnode hmem) (by simp)
        show Concludes nodes visited ((successors node).foldlM _ (node :: visited))
        cases hafter : (successors node).foldlM (visit successors depth (node :: stack))
            (node :: visited) with
        | error blocked =>
          rw [hafter] at hrest
          exact hrest
        | ok after =>
          rw [hafter] at hrest
          obtain ⟨hmarked', hle⟩ := hrest
          rw [List.length_cons] at hle
          exact ⟨hmarked', by omega⟩

/-- The search of a graph is never exhausted. -/
theorem searchAll_concludes (hknown : ∀ d, ∀ n ∈ successors d, n ∈ nodes) :
    searchAll successors nodes ≠ .error .exhausted := by
  have hempty : Marked nodes ([] : List α) := ⟨List.nodup_nil, by simp⟩
  have hstep : ∀ v, Marked nodes v → 0 ≤ v.length → ∀ n ∈ nodes, Concludes nodes v
      (if n ∈ v then .ok v else visit successors nodes.length [] v n) := by
    intro v hv _ n hn
    split
    next => exact ⟨hv, le_rfl⟩
    next => exact visit_concludes hknown hn hv (by omega)
  have hall := foldlM_concludes 0 hstep hempty (Nat.zero_le _)
  intro h
  rw [searchAll] at h
  rw [h] at hall
  exact hall rfl

omit [DecidableEq α] in
/-- An error of a search of a list is that of the search of a node. -/
theorem foldlM_error {ε : Type*} {search : List α → α → Except ε (List α)} {list visited : List α}
    {e : ε} (h : list.foldlM search visited = .error e) :
    ∃ n ∈ list, ∃ visited, search visited n = .error e := by
  induction list generalizing visited with
  | nil => cases h
  | cons node rest ih =>
    rw [List.foldlM_cons] at h
    cases hnode : search visited node with
    | error e' =>
      rw [hnode] at h
      cases h
      exact ⟨node, List.mem_cons_self, visited, hnode⟩
    | ok next =>
      rw [hnode] at h
      obtain ⟨n, hn, hfailed⟩ := ih h
      exact ⟨n, List.mem_cons_of_mem node hn, hfailed⟩

/-- Where no node leads back to itself a search meets no cycle. -/
theorem visit_error (hacyclic : ∀ n, ¬ TransGen (fun d n => n ∈ successors d) n n) {depth : Nat}
    {stack visited : List α} {node : α} {blocked : Blocked α}
    (hstack : ∀ s ∈ stack, TransGen (fun d n => n ∈ successors d) s node)
    (h : visit successors depth stack visited node = .error blocked) : blocked = .exhausted := by
  induction depth generalizing stack visited node with
  | zero =>
    unfold visit at h
    split at h
    next hmem => exact absurd (hstack node hmem) (hacyclic node)
    next =>
      split at h
      next => cases h
      next =>
        cases h
        rfl
  | succ depth ih =>
    unfold visit at h
    split at h
    next hmem => exact absurd (hstack node hmem) (hacyclic node)
    next =>
      split at h
      next => cases h
      next =>
        obtain ⟨n, hn, visited, hfailed⟩ := foldlM_error h
        refine ih ?_ hfailed
        intro s hs
        rcases List.mem_cons.mp hs with rfl | hs
        · exact .single hn
        · exact (hstack s hs).tail hn

theorem searchAll_ok (hknown : ∀ d, ∀ n ∈ successors d, n ∈ nodes)
    (hacyclic : ∀ n, ¬ TransGen (fun d n => n ∈ successors d) n n) :
    ∃ visited, searchAll successors nodes = .ok visited := by
  cases hsearch : searchAll successors nodes with
  | ok visited => exact ⟨visited, rfl⟩
  | error blocked =>
    obtain ⟨n, _, visited, hfailed⟩ := foldlM_error hsearch
    split at hfailed
    next => cases hfailed
    next =>
      rw [visit_error hacyclic (by simp) hfailed] at hsearch
      exact absurd hsearch (searchAll_concludes hknown)

/-- Whatever follows from a node ends. -/
def Ends (successors : α → List α) (node : α) : Prop :=
  Acc (fun after before => after ∈ successors before) node

/-- Outside the stack, what is marked has been searched to its end. -/
def Searched (successors : α → List α) (stack visited : List α) : Prop :=
  ∀ n ∈ visited, n ∉ stack → Ends successors n

omit [DecidableEq α] in
/-- A search of a list that goes through has searched each of its nodes. -/
theorem foldlM_searched {search : List α → α → Except (Blocked α) (List α)} {stack : List α}
    {list visited after : List α}
    (hstep : ∀ visited n after, Searched successors stack visited → search visited n = .ok after →
      Ends successors n ∧ Searched successors stack after)
    (hvisited : Searched successors stack visited) (h : list.foldlM search visited = .ok after) :
    (∀ n ∈ list, Ends successors n) ∧ Searched successors stack after := by
  induction list generalizing visited with
  | nil =>
    cases h
    exact ⟨by simp, hvisited⟩
  | cons node rest ih =>
    rw [List.foldlM_cons] at h
    cases hnode : search visited node with
    | error e =>
      rw [hnode] at h
      cases h
    | ok next =>
      rw [hnode] at h
      obtain ⟨hends, hnext⟩ := hstep visited node next hvisited hnode
      obtain ⟨hrest, hafter⟩ := ih hnext h
      exact ⟨List.forall_mem_cons.mpr ⟨hends, hrest⟩, hafter⟩

/-- A search that goes through found the end of everything that follows from its node. -/
theorem visit_ends {depth : Nat} {stack visited after : List α} {node : α}
    (hvisited : Searched successors stack visited)
    (h : visit successors depth stack visited node = .ok after) :
    Ends successors node ∧ Searched successors stack after := by
  induction depth generalizing stack visited node after with
  | zero =>
    unfold visit at h
    split at h
    next => cases h
    next hstack =>
      split at h
      next hmem =>
        cases h
        exact ⟨hvisited node hmem hstack, hvisited⟩
      next => cases h
  | succ depth ih =>
    unfold visit at h
    split at h
    next => cases h
    next hstack =>
      split at h
      next hmem =>
        cases h
        exact ⟨hvisited node hmem hstack, hvisited⟩
      next =>
        have hdeeper : Searched successors (node :: stack) (node :: visited) := by
          intro n hn hnot
          rw [List.mem_cons, not_or] at hnot
          exact hvisited n ((List.mem_cons.mp hn).resolve_left hnot.1) hnot.2
        obtain ⟨hends, hafter⟩ := foldlM_searched (fun v n a hv hn => ih hv hn) hdeeper h
        have hnode : Ends successors node := Acc.intro node hends
        refine ⟨hnode, ?_⟩
        intro n hn hnot
        by_cases heq : n = node
        · rw [heq]
          exact hnode
        · exact hafter n hn (by simp [heq, hnot])

/-- A search of all the nodes that goes through has found no cycle, for there is none. -/
theorem acyclic_of_searchAll {visited : List α}
    (hknown : ∀ d, ∀ n ∈ successors d, n ∈ nodes)
    (h : searchAll successors nodes = .ok visited) :
    ∀ n, ¬ TransGen (fun d n => n ∈ successors d) n n := by
  have hempty : Searched successors [] ([] : List α) := by simp [Searched]
  have hstep : ∀ visited n after, Searched successors [] visited →
      (if n ∈ visited then .ok visited else visit successors nodes.length [] visited n) = .ok after →
      Ends successors n ∧ Searched successors [] after := by
    intro visited n after hvisited hsearch
    split at hsearch
    next hmem =>
      cases hsearch
      exact ⟨hvisited n hmem List.not_mem_nil, hvisited⟩
    next => exact visit_ends hvisited hsearch
  have hends := (foldlM_searched hstep hempty h).1
  intro n hcycle
  have hmem : n ∈ nodes := by
    obtain ⟨d, _, hd⟩ := TransGen.tail'_iff.mp hcycle
    exact hknown d n hd
  have hirrefl : ∀ m, Acc (TransGen fun after before => after ∈ successors before) m →
      ¬ TransGen (fun after before => after ∈ successors before) m m := by
    intro m hacc
    induction hacc with
    | intro m _ ih => exact fun hloop => ih m hloop hloop
  exact hirrefl n (hends n hmem).transGen (Relation.transGen_swap.mpr hcycle)

end Search

end Attest.Library.TopologicalSort
