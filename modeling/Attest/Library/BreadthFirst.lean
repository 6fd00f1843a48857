import Mathlib.Data.Finset.Card
import Mathlib.Data.List.Chain
import Mathlib.Logic.Function.Basic
import Mathlib.Logic.Relation

/-! Breadth-first search for a path, with the path to each node kept beside it.

A round takes the first node of the queue and puts what it leads to and has not been seen at
the end. The nodes of the queue are then in the order of their paths' lengths, these lengths
differ by one at most, and what a node taken off the queue leads to has been seen
(`Layered`). So the first path to arrive is a shortest one (`path_of_search`), and a search that
runs dry has seen everything that can be reached (`unreachable_of_search`). Where the nodes are
among finitely many the search ends (`search_terminates`). -/
namespace Attest.Library.BreadthFirst

variable {α : Type*}

structure Search (α : Type*) where
  queue : List α
  visited : List α
  paths : α → Option (List α)

section Algorithm
variable [DecidableEq α]

def start (source : α) : Search α :=
  ⟨[source], [source], Function.update (fun _ => none) source (some [source])⟩

/-- One node the current one leads to. -/
def discover (current : α) (s : Search α) (node : α) : Search α :=
  if node ∈ s.visited then s
  else
    { queue := s.queue ++ [node]
      visited := s.visited ++ [node]
      paths := Function.update s.paths node (some ((s.paths current).getD [] ++ [node])) }

def expand (next : α → List α) (s : Search α) (current : α) : Search α :=
  (next current).foldl (discover current) s

/-- A search of so many rounds; without a result when they are not enough. -/
def search (next : α → List α) (target : α) : Nat → Search α → Option (Option (List α))
  | 0, _ => none
  | rounds + 1, s =>
    match s.queue with
    | [] => some none
    | current :: rest =>
      match if current = target then s.paths target else none with
      | some path => some (some path)
      | none => search next target rounds (expand next { s with queue := rest } current)

end Algorithm

/-! ### Paths -/

/-- A path from one node to another, each node leading to the one after it. -/
structure IsPath (next : α → List α) (source target : α) (path : List α) : Prop where
  chain : path.IsChain fun a b => b ∈ next a
  head : path.head? = some source
  last : path.getLast? = some target

section Paths
variable {next : α → List α} {source target : α} {path : List α}

theorem isPath_single : IsPath next source source [source] :=
  ⟨List.isChain_singleton _, rfl, rfl⟩

theorem IsPath.snoc (h : IsPath next source target path) {node : α} (hnode : node ∈ next target) :
    IsPath next source node (path ++ [node]) := by
  refine ⟨?_, ?_, List.getLast?_concat⟩
  · rw [List.isChain_append]
    refine ⟨h.chain, List.isChain_singleton _, ?_⟩
    intro a ha b hb
    rw [h.last, Option.mem_some_iff] at ha
    rw [List.head?_cons, Option.mem_some_iff] at hb
    rw [← ha, ← hb]
    exact hnode
  · rw [List.head?_append, h.head]
    rfl

theorem IsPath.reachable (h : IsPath next source target path) :
    Relation.ReflTransGen (fun a b => b ∈ next a) source target := by
  obtain ⟨hchain, hhead, hlast⟩ := h
  induction path generalizing source with
  | nil => cases hhead
  | cons node rest ih =>
    cases hhead
    cases rest with
    | nil =>
      cases hlast
      exact .refl
    | cons after rest =>
      rw [List.isChain_cons_cons] at hchain
      exact .head hchain.1 (ih hchain.2 rfl (by rwa [List.getLast?_cons_cons] at hlast))

theorem exists_isPath (h : Relation.ReflTransGen (fun a b => b ∈ next a) source target) :
    ∃ path, IsPath next source target path := by
  induction h with
  | refl => exact ⟨[source], isPath_single⟩
  | tail _ hstep ih =>
    obtain ⟨path, hpath⟩ := ih
    exact ⟨_, hpath.snoc hstep⟩

end Paths

/-! ### One round -/

variable [DecidableEq α]

/-- What of a list has not been seen, each node once. -/
def fresh (seen : List α) : List α → List α
  | [] => []
  | node :: rest =>
    if node ∈ seen then fresh seen rest else node :: fresh (seen ++ [node]) rest

theorem mem_fresh {seen nodes : List α} {node : α} :
    node ∈ fresh seen nodes ↔ node ∈ nodes ∧ node ∉ seen := by
  induction nodes generalizing seen with
  | nil => simp [fresh]
  | cons first rest ih =>
    unfold fresh
    by_cases h : first ∈ seen
    · rw [if_pos h, ih, List.mem_cons]
      constructor
      · intro hnode
        exact ⟨.inr hnode.1, hnode.2⟩
      · intro hnode
        refine ⟨hnode.1.resolve_left ?_, hnode.2⟩
        intro heq
        exact hnode.2 (heq ▸ h)
    · rw [if_neg h, List.mem_cons, ih, List.mem_cons, List.mem_append, List.mem_singleton]
      by_cases heq : node = first
      · simp [heq, h]
      · simp [heq]

theorem nodup_append_fresh {seen : List α} (h : seen.Nodup) (nodes : List α) :
    (seen ++ fresh seen nodes).Nodup := by
  induction nodes generalizing seen with
  | nil =>
    rw [fresh, List.append_nil]
    exact h
  | cons first rest ih =>
    unfold fresh
    split
    next => exact ih h
    next hfirst =>
      have hsnoc : (seen ++ [first]).Nodup :=
        List.nodup_append.mpr ⟨h, List.nodup_singleton _, by
          intro a ha b hb hab
          rw [List.mem_singleton] at hb
          exact hfirst (hb ▸ hab ▸ ha)⟩
      have hrest := ih hsnoc
      rwa [List.append_assoc, List.singleton_append] at hrest

section Round
variable {next : α → List α} {s : Search α} {current : α}

/-- A node that has been seen keeps its path, and the others get that of the current one. -/
theorem foldl_discover (hcurrent : current ∈ s.visited) (nodes : List α) :
    nodes.foldl (discover current) s =
      { queue := s.queue ++ fresh s.visited nodes
        visited := s.visited ++ fresh s.visited nodes
        paths := fun node =>
          if node ∈ fresh s.visited nodes then some ((s.paths current).getD [] ++ [node])
          else s.paths node } := by
  induction nodes generalizing s with
  | nil => simp [fresh]
  | cons first rest ih =>
    rw [List.foldl_cons]
    by_cases h : first ∈ s.visited
    · rw [discover, if_pos h, ih hcurrent, fresh, if_pos h]
    · have hne : current ≠ first := fun heq => h (heq ▸ hcurrent)
      rw [discover, if_neg h, ih (List.mem_append_left _ hcurrent)]
      simp only [fresh, if_neg h, List.append_assoc, List.singleton_append,
        Function.update_of_ne hne, List.mem_cons, Search.mk.injEq, true_and]
      funext node
      by_cases hfirst : node = first
      · subst hfirst
        have hseen : node ∉ fresh (s.visited ++ [node]) rest := by simp [mem_fresh]
        rw [if_neg hseen, if_pos (.inl rfl), Function.update_self]
      · simp only [hfirst, false_or, Function.update_of_ne hfirst]

theorem expand_eq {rest : List α} (hcurrent : current ∈ s.visited) :
    expand next { s with queue := rest } current =
      { queue := rest ++ fresh s.visited (next current)
        visited := s.visited ++ fresh s.visited (next current)
        paths := fun node =>
          if node ∈ fresh s.visited (next current) then some ((s.paths current).getD [] ++ [node])
          else s.paths node } := by
  have hcurrent' : current ∈ ({ s with queue := rest } : Search α).visited := hcurrent
  rw [expand, foldl_discover hcurrent']

end Round

/-! ### What holds between rounds -/

/-- The length of the path kept for a node. -/
def Search.depth (s : Search α) (node : α) : Nat := ((s.paths node).getD []).length

structure Layered (next : α → List α) (source target : α) (s : Search α) : Prop where
  started : source ∈ s.visited
  shortest : s.depth source = 1
  queued : ∀ node ∈ s.queue, node ∈ s.visited
  walked : ∀ node ∈ s.visited, ∃ path, s.paths node = some path ∧ IsPath next source node path
  ordered : s.queue.Pairwise fun a b => s.depth a ≤ s.depth b
  near : ∀ first ∈ s.queue.head?, ∀ node ∈ s.visited, s.depth node ≤ s.depth first + 1
  done : ∀ node ∈ s.visited, node ∉ s.queue →
    node ≠ target ∧ ∀ after ∈ next node, after ∈ s.visited ∧ s.depth after ≤ s.depth node + 1

section Layers
variable {next : α → List α} {source target : α} {s : Search α}

theorem layered_start : Layered next source target (start source) where
  started := List.mem_singleton_self _
  shortest := by simp [Search.depth, start]
  queued := fun _ h => h
  walked := by
    intro node hnode
    rw [start, List.mem_singleton] at hnode
    subst hnode
    exact ⟨[node], by simp [start], isPath_single⟩
  ordered := List.pairwise_singleton _ _
  near := by
    intro first hfirst node hnode
    rw [start, List.mem_singleton] at hnode
    rw [start, List.head?_cons, Option.mem_some_iff] at hfirst
    rw [hnode, hfirst]
    exact Nat.le_succ _
  done := by
    intro node hnode hqueue
    exact absurd hnode hqueue

/-- What a round makes of the lengths. -/
theorem depth_expand {current : α} (rest : List α) (hcurrent : current ∈ s.visited) :
    (∀ node ∈ s.visited, (expand next { s with queue := rest } current).depth node = s.depth node) ∧
      ∀ node ∈ fresh s.visited (next current),
        (expand next { s with queue := rest } current).depth node = s.depth current + 1 := by
  rw [expand_eq hcurrent]
  constructor
  · intro node hnode
    have hold : node ∉ fresh s.visited (next current) := fun hfresh => (mem_fresh.mp hfresh).2 hnode
    simp only [Search.depth, if_neg hold]
  · intro node hnode
    simp only [Search.depth, if_pos hnode, Option.getD_some, List.length_append, List.length_singleton]

/-- A round off the target keeps the layers. -/
theorem Layered.expand {current : α} {rest : List α} (h : Layered next source target s)
    (hqueue : s.queue = current :: rest) (htarget : current ≠ target) :
    Layered next source target (expand next { s with queue := rest } current) := by
  have hcurrent : current ∈ s.visited := h.queued current (hqueue ▸ List.mem_cons_self ..)
  obtain ⟨hold, hnew⟩ := @depth_expand _ _ next s _ rest hcurrent
  have hordered := h.ordered
  rw [hqueue, List.pairwise_cons] at hordered
  have hnear : ∀ node ∈ s.visited, s.depth node ≤ s.depth current + 1 :=
    h.near current (by rw [hqueue]; rfl)
  have hrest : ∀ node ∈ rest, node ∈ s.visited := fun node hnode =>
    h.queued node (hqueue ▸ List.mem_cons_of_mem _ hnode)
  obtain ⟨path, hpath, hwalk⟩ := h.walked current hcurrent
  -- Every node seen now is one seen before, or a fresh one behind the current.
  have hsplit : ∀ node ∈ (BreadthFirst.expand next { s with queue := rest } current).visited,
      node ∈ s.visited ∨ node ∈ fresh s.visited (next current) := by
    intro node hnode
    rw [expand_eq hcurrent] at hnode
    exact List.mem_append.mp hnode
  have hdepth : ∀ node ∈ (BreadthFirst.expand next { s with queue := rest } current).visited,
      (BreadthFirst.expand next { s with queue := rest } current).depth node ≤ s.depth current + 1 := by
    intro node hnode
    rcases hsplit node hnode with hseen | hfresh
    · rw [hold node hseen]
      exact hnear node hseen
    · exact (hnew node hfresh).le
  have hqueue' : (BreadthFirst.expand next { s with queue := rest } current).queue =
      rest ++ fresh s.visited (next current) := by
    rw [expand_eq hcurrent]
  have hvisited' : (BreadthFirst.expand next { s with queue := rest } current).visited =
      s.visited ++ fresh s.visited (next current) := by
    rw [expand_eq hcurrent]
  constructor
  case started =>
    rw [hvisited']
    exact List.mem_append_left _ h.started
  case shortest =>
    rw [hold source h.started]
    exact h.shortest
  case queued =>
    intro node hnode
    rw [hqueue', List.mem_append] at hnode
    rw [hvisited']
    exact List.mem_append.mpr (hnode.imp_left (hrest node))
  case walked =>
    intro node hnode
    rcases hsplit node hnode with hseen | hfresh
    · obtain ⟨p, hp, hw⟩ := h.walked node hseen
      refine ⟨p, ?_, hw⟩
      have hold : node ∉ fresh s.visited (next current) := fun hf => (mem_fresh.mp hf).2 hseen
      rw [expand_eq hcurrent]
      simp only [if_neg hold, hp]
    · refine ⟨path ++ [node], ?_, hwalk.snoc (mem_fresh.mp hfresh).1⟩
      rw [expand_eq hcurrent]
      simp only [if_pos hfresh, hpath, Option.getD_some]
  case ordered =>
    rw [hqueue', List.pairwise_append]
    refine ⟨?_, ?_, ?_⟩
    · apply hordered.2.imp_of_mem
      intro a b ha hb hab
      rw [hold a (hrest a ha), hold b (hrest b hb)]
      exact hab
    · apply List.pairwise_of_forall_mem_list
      intro a ha b hb
      rw [hnew a ha, hnew b hb]
    · intro a ha b hb
      rw [hold a (hrest a ha), hnew b hb]
      exact hnear a (hrest a ha)
  case near =>
    intro first hfirst node hnode
    apply (hdepth node hnode).trans
    have hmem : first ∈ rest ++ fresh s.visited (next current) :=
      hqueue' ▸ List.mem_of_mem_head? hfirst
    rcases List.mem_append.mp hmem with hmem | hmem
    · rw [hold first (hrest first hmem)]
      exact Nat.succ_le_succ (hordered.1 first hmem)
    · rw [hnew first hmem]
      exact Nat.succ_le_succ (Nat.le_succ _)
  case done =>
    intro node hnode hgone
    rw [hqueue', List.mem_append, not_or] at hgone
    have hseen : node ∈ s.visited := (hsplit node hnode).resolve_right hgone.2
    by_cases heq : node = current
    · subst heq
      refine ⟨htarget, ?_⟩
      intro after hafter
      have hmem : after ∈ s.visited ++ fresh s.visited (next node) := by
        by_cases hbefore : after ∈ s.visited
        · exact List.mem_append_left _ hbefore
        · exact List.mem_append_right _ (mem_fresh.mpr ⟨hafter, hbefore⟩)
      rw [← hvisited'] at hmem
      refine ⟨hmem, ?_⟩
      rw [hold node hseen]
      exact hdepth after hmem
    · have hbefore : node ∉ s.queue := by
        rw [hqueue, List.mem_cons, not_or]
        exact ⟨heq, hgone.1⟩
      obtain ⟨hne, hnext⟩ := h.done node hseen hbefore
      refine ⟨hne, ?_⟩
      intro after hafter
      obtain ⟨hmem, hle⟩ := hnext after hafter
      rw [hvisited', hold after hmem, hold node hseen]
      exact ⟨List.mem_append_left _ hmem, hle⟩

omit [DecidableEq α] in
/-- Off the queue, a node on a path is no deeper than its place on the path. -/
theorem Layered.depth_le {bound : Nat} (h : Layered next source target s)
    (hbound : ∀ node ∈ s.queue, bound < s.depth node) {node : α} {path : List α}
    (hpath : IsPath next source node path) (hlength : path.length ≤ bound + 1) :
    node ∈ s.visited ∧ s.depth node ≤ path.length := by
  obtain ⟨hchain, hhead, hlast⟩ := hpath
  induction path using List.reverseRecOn generalizing node with
  | nil => cases hhead
  | append_singleton before last ih =>
    rw [List.getLast?_concat, Option.some.injEq] at hlast
    subst hlast
    cases hbefore : before.getLast? with
    | none =>
      rw [List.getLast?_eq_none_iff] at hbefore
      subst hbefore
      rw [List.nil_append, List.head?_cons, Option.some.injEq] at hhead
      rw [hhead]
      exact ⟨h.started, h.shortest.le⟩
    | some previous =>
      rw [List.length_append, List.length_singleton] at hlength
      rw [List.isChain_append] at hchain
      have hhead' : before.head? = some source := by
        cases before with
        | nil => cases hbefore
        | cons _ _ => exact hhead
      obtain ⟨hseen, hdepth⟩ := ih (by omega) hchain.1 hhead' hbefore
      have hgone : previous ∉ s.queue := by
        intro hmem
        have := hbound previous hmem
        omega
      have hstep : last ∈ next previous :=
        hchain.2.2 previous (by rw [hbefore]; rfl) last rfl
      obtain ⟨hmem, hle⟩ := (h.done previous hseen hgone).2 last hstep
      refine ⟨hmem, ?_⟩
      rw [List.length_append, List.length_singleton]
      omega

end Layers

/-! ### Whole searches -/

section Whole
variable {next : α → List α} {source target : α} {s : Search α} {rounds : Nat}

/-- The invariant carries over a whole search: what a search ends on is a state with the
target at the head of its queue, or one with an empty queue. -/
theorem search_ends {result : Option (List α)} (h : Layered next source target s)
    (hsearch : search next target rounds s = some result) :
    ∃ s', Layered next source target s' ∧
      ((s'.queue.head? = some target ∧ s'.paths target = result ∧ result.isSome = true) ∨
        (s'.queue = [] ∧ result = none)) := by
  induction rounds generalizing s with
  | zero => cases hsearch
  | succ rounds ih =>
    unfold search at hsearch
    cases hqueue : s.queue with
    | nil =>
      rw [hqueue] at hsearch
      exact ⟨s, h, .inr ⟨hqueue, (Option.some.inj hsearch).symm⟩⟩
    | cons current rest =>
      rw [hqueue] at hsearch
      have hcurrent : current ∈ s.visited := h.queued current (hqueue ▸ List.mem_cons_self ..)
      by_cases htarget : current = target
      · subst htarget
        obtain ⟨path, hpath, _⟩ := h.walked current hcurrent
        simp only [if_true, hpath, Option.some.injEq] at hsearch
        refine ⟨s, h, .inl ⟨by rw [hqueue]; rfl, ?_, ?_⟩⟩
        · rw [hpath, hsearch]
        · rw [← hsearch]
          rfl
      · simp only [if_neg htarget] at hsearch
        exact ih (h.expand hqueue htarget) hsearch

/-- A path that is found leads to the target, and no path there is shorter. -/
theorem path_of_search {path : List α}
    (hsearch : search next target rounds (start source) = some (some path)) :
    IsPath next source target path ∧
      ∀ other, IsPath next source target other → path.length ≤ other.length := by
  obtain ⟨s, h, hend⟩ := search_ends layered_start hsearch
  rcases hend with ⟨hhead, hpath, _⟩ | ⟨_, hnone⟩
  · have hqueued : target ∈ s.queue := List.mem_of_mem_head? (by rw [hhead]; rfl)
    obtain ⟨found, hfound, hwalk⟩ := h.walked target (h.queued target hqueued)
    have hdepth : s.depth target = path.length := by rw [Search.depth, hpath, Option.getD_some]
    cases hfound.symm.trans hpath
    refine ⟨hwalk, ?_⟩
    intro other hother
    by_contra hshorter
    -- Were there a shorter one, its last node would have been seen at a smaller depth.
    have hbound : ∀ node ∈ s.queue, path.length - 1 < s.depth node := by
      intro node hnode
      have hfirst : s.depth target ≤ s.depth node := by
        cases hqueue : s.queue with
        | nil =>
          rw [hqueue] at hhead
          cases hhead
        | cons first rest =>
          have hordered := h.ordered
          rw [hqueue, List.pairwise_cons] at hordered
          rw [hqueue, List.head?_cons, Option.some.injEq] at hhead
          rw [hqueue, List.mem_cons] at hnode
          rcases hnode with rfl | hnode
          · rw [hhead]
          · rw [← hhead]
            exact hordered.1 node hnode
      omega
    have hle := (h.depth_le hbound hother (by omega)).2
    omega
  · cases hnone

/-- A search that runs dry has no path to find. -/
theorem unreachable_of_search
    (hsearch : search next target rounds (start source) = some none) :
    ¬ Relation.ReflTransGen (fun a b => b ∈ next a) source target := by
  obtain ⟨s, h, hend⟩ := search_ends layered_start hsearch
  rcases hend with ⟨_, _, hsome⟩ | ⟨hempty, _⟩
  · cases hsome
  · intro hreach
    have hgone : ∀ node, node ∉ s.queue := by
      intro node
      rw [hempty]
      exact List.not_mem_nil
    have hseen : ∀ node, Relation.ReflTransGen (fun a b => b ∈ next a) source node →
        node ∈ s.visited := by
      intro node hnode
      induction hnode with
      | refl => exact h.started
      | tail _ hstep ih => exact ((h.done _ ih (hgone _)).2 _ hstep).1
    exact (h.done target (hseen target hreach) (hgone target)).1 rfl

/-- More rounds than it takes change nothing. -/
theorem search_stable {result : Option (List α)} (more : Nat)
    (h : search next target rounds s = some result) :
    search next target (rounds + more) s = some result := by
  induction rounds generalizing s with
  | zero => cases h
  | succ rounds ih =>
    rw [Nat.succ_add]
    unfold search at h ⊢
    cases hqueue : s.queue with
    | nil =>
      rw [hqueue] at h
      exact h
    | cons current rest =>
      rw [hqueue] at h
      simp only at h ⊢
      split at h
      next => exact h
      next => exact ih h

/-- Every round takes one node off the queue, and no node comes onto it twice. -/
theorem search_ne_none {nodes : Finset α} (hnodes : ∀ a, ∀ b ∈ next a, b ∈ nodes)
    (hvisited : ∀ node ∈ s.visited, node ∈ nodes) (hnodup : s.visited.Nodup)
    (hqueued : ∀ node ∈ s.queue, node ∈ s.visited)
    (hrounds : s.queue.length + nodes.card < rounds + s.visited.length) :
    search next target rounds s ≠ none := by
  induction rounds generalizing s with
  | zero =>
    have hcard : s.visited.length ≤ nodes.card := by
      rw [← List.toFinset_card_of_nodup hnodup]
      apply Finset.card_le_card
      intro node hnode
      exact hvisited node (List.mem_toFinset.mp hnode)
    omega
  | succ rounds ih =>
    unfold search
    cases hqueue : s.queue with
    | nil => simp
    | cons current rest =>
      simp only
      split
      next => simp
      next =>
        have hcurrent : current ∈ s.visited := hqueued current (hqueue ▸ List.mem_cons_self ..)
        have hqueue' : (expand next { s with queue := rest } current).queue =
            rest ++ fresh s.visited (next current) := by
          rw [expand_eq hcurrent]
        have hvisited' : (expand next { s with queue := rest } current).visited =
            s.visited ++ fresh s.visited (next current) := by
          rw [expand_eq hcurrent]
        apply ih
        · intro node hnode
          rw [hvisited', List.mem_append] at hnode
          rcases hnode with hnode | hnode
          · exact hvisited node hnode
          · exact hnodes current node (mem_fresh.mp hnode).1
        · rw [hvisited']
          exact nodup_append_fresh hnodup _
        · intro node hnode
          rw [hqueue', List.mem_append] at hnode
          rw [hvisited']
          refine List.mem_append.mpr (hnode.imp_left ?_)
          intro hrest
          exact hqueued node (hqueue ▸ List.mem_cons_of_mem _ hrest)
        · rw [hqueue, List.length_cons] at hrounds
          rw [hqueue', hvisited', List.length_append, List.length_append]
          omega

/-- Where all the nodes are among finitely many, as many rounds as there are nodes and one
more are enough. -/
theorem search_terminates {nodes : Finset α} (hsource : source ∈ nodes)
    (hnodes : ∀ a, ∀ b ∈ next a, b ∈ nodes) (hrounds : nodes.card < rounds) :
    search next target rounds (start source) ≠ none := by
  apply search_ne_none hnodes
  · intro node hnode
    rw [start, List.mem_singleton] at hnode
    rw [hnode]
    exact hsource
  · exact List.nodup_singleton _
  · intro node hnode
    exact hnode
  · show 1 + nodes.card < rounds + 1
    omega

end Whole

end Attest.Library.BreadthFirst
