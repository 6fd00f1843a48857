import Attest.Library.Kahn
import Mathlib.SetTheory.Cardinal.Finite

/-! Marking depth first, and how often it has to start.

`mark` marks what can be reached from a node along the edges, and `sweep` starts one from each
node that no other has reached. `starts` says which nodes these are. There are at least as many
as the graph has components; `length_starts_iff` says when there are just as many, for one order
of the nodes, and `leads_iff` when there are for each order. -/
namespace Attest.Library.DepthFirst
open Relation TopologicalSort Kahn

variable {α : Type}

/-- Along the edges, from one node to another. -/
def Reach (edges : α → List α) : α → α → Prop := ReflTransGen fun a b => b ∈ edges a

section Marking
variable [DecidableEq α]

/-- What can be reached from a node is marked. The depth is how far a recursion may go. -/
def mark (edges : α → List α) : Nat → List α → α → Except Fault (List α)
  | depth, marked, node =>
    if node ∈ marked then .ok marked
    else
      match depth with
      | 0 => .error .endless
      | depth + 1 => (edges node).foldlM (mark edges depth) (node :: marked)

/-- One more node of a sweep: it is counted where no node before it has reached it. -/
def sweepNode (edges : α → List α) (depth : Nat) (state : List α × Nat) (node : α) :
    Except Fault (List α × Nat) :=
  if node ∈ state.1 then .ok state
  else (mark edges depth state.1 node).map fun marked => (marked, state.2 + 1)

/-- What is marked at the end, and how often a marking was started. -/
def sweep (edges : α → List α) (depth : Nat) (order : List α) : Except Fault (List α × Nat) :=
  order.foldlM (sweepNode edges depth) ([], 0)

variable {edges : α → List α} {marked after : List α} {depth : Nat}

/-- What markings from some nodes add to what is marked. -/
structure Extends (edges : α → List α) (sources marked after : List α) : Prop where
  keeps : ∀ n ∈ marked, n ∈ after
  reached : ∀ n ∈ sources, n ∈ after
  sound : ∀ n ∈ after, n ∈ marked ∨ ∃ source ∈ sources, Reach edges source n
  closed : ∀ n ∈ after, n ∉ marked → ∀ m ∈ edges n, m ∈ after

omit [DecidableEq α] in
/-- Markings from one node after the other. -/
theorem foldlM_extends {search : List α → α → Except Fault (List α)} {list : List α}
    (hstep : ∀ marked n after, search marked n = .ok after → Extends edges [n] marked after)
    (h : list.foldlM search marked = .ok after) : Extends edges list marked after := by
  induction list generalizing marked with
  | nil =>
    cases h
    exact ⟨fun _ hn => hn, by simp, fun _ hn => .inl hn, fun _ hn hnot => absurd hn hnot⟩
  | cons node rest ih =>
    rw [List.foldlM_cons] at h
    cases hnode : search marked node with
    | error fault =>
      rw [hnode] at h
      cases h
    | ok next =>
      rw [hnode] at h
      have hfirst := hstep marked node next hnode
      have hrest := ih h
      refine ⟨fun n hn => hrest.keeps n (hfirst.keeps n hn), ?_, ?_, ?_⟩
      · intro n hn
        rcases List.mem_cons.mp hn with heq | hn
        · exact heq ▸ hrest.keeps node (hfirst.reached node List.mem_cons_self)
        · exact hrest.reached n hn
      · intro n hn
        rcases hrest.sound n hn with hnext | hsource
        · rcases hfirst.sound n hnext with hmarked | hsource
          · exact .inl hmarked
          · obtain ⟨source, hsource, hreach⟩ := hsource
            rw [List.mem_singleton] at hsource
            exact .inr ⟨node, List.mem_cons_self, hsource ▸ hreach⟩
        · obtain ⟨source, hsource, hreach⟩ := hsource
          exact .inr ⟨source, List.mem_cons_of_mem node hsource, hreach⟩
      · intro n hn hnot m hm
        by_cases hnext : n ∈ next
        · exact hrest.keeps m (hfirst.closed n hnext hnot m hm)
        · exact hrest.closed n hn hnext m hm

omit [DecidableEq α] in
theorem extends_of_mem {node : α} (h : node ∈ marked) : Extends edges [node] marked marked := by
  refine ⟨fun _ hn => hn, ?_, fun _ hn => .inl hn, fun _ hn hnot => absurd hn hnot⟩
  intro n hn
  rw [List.mem_singleton.mp hn]
  exact h

theorem mark_extends {node : α} (h : mark edges depth marked node = .ok after) :
    Extends edges [node] marked after := by
  induction depth generalizing marked node after with
  | zero =>
    unfold mark at h
    split at h
    next hnode =>
      cases h
      exact extends_of_mem hnode
    next => cases h
  | succ depth ih =>
    unfold mark at h
    split at h
    next hnode =>
      cases h
      exact extends_of_mem hnode
    next =>
      have hfold : Extends edges (edges node) (node :: marked) after :=
        foldlM_extends (fun marked n after hn => ih hn) h
      refine ⟨fun n hn => hfold.keeps n (List.mem_cons_of_mem node hn), ?_, ?_, ?_⟩
      · intro n hn
        rw [List.mem_singleton.mp hn]
        exact hfold.keeps node List.mem_cons_self
      · intro n hn
        rcases hfold.sound n hn with hmem | hsource
        · rcases List.mem_cons.mp hmem with heq | hmem
          · exact .inr ⟨node, List.mem_singleton_self node, heq ▸ .refl⟩
          · exact .inl hmem
        · obtain ⟨source, hsource, hreach⟩ := hsource
          exact .inr ⟨node, List.mem_singleton_self node, ReflTransGen.head hsource hreach⟩
      · intro n hn hnot m hm
        by_cases heq : n = node
        · rw [heq] at hm
          exact hfold.reached m hm
        · exact hfold.closed n hn (by simp [heq, hnot]) m hm

/-- A marking is never deeper than there are nodes left to mark. -/
theorem mark_ok {nodes : List α} {node : α} (hedges : ∀ n, ∀ m ∈ edges n, m ∈ nodes)
    (hnode : node ∈ nodes) (hmarked : Marked nodes marked)
    (hdepth : nodes.length ≤ depth + marked.length) :
    ∃ after, mark edges depth marked node = .ok after ∧ Marked nodes after ∧
      marked.length ≤ after.length := by
  induction depth generalizing marked node with
  | zero =>
    unfold mark
    by_cases hmem : node ∈ marked
    · rw [if_pos hmem]
      exact ⟨marked, rfl, hmarked, le_rfl⟩
    · have hle := (hmarked.cons hnode hmem).length_le
      rw [List.length_cons] at hle
      omega
  | succ depth ih =>
    unfold mark
    by_cases hmem : node ∈ marked
    · rw [if_pos hmem]
      exact ⟨marked, rfl, hmarked, le_rfl⟩
    · rw [if_neg hmem]
      have hstep : ∀ v, Marked nodes v → marked.length + 1 ≤ v.length → ∀ n ∈ edges node,
          ∃ after, mark edges depth v n = .ok after ∧ Marked nodes after ∧
            v.length ≤ after.length := by
        intro v hv hlength n hn
        exact ih (hedges node n hn) hv (by omega)
      obtain ⟨after, hafter, hmarked', hle⟩ :=
        foldlM_marked (marked.length + 1) hstep (hmarked.cons hnode hmem) (by simp)
      refine ⟨after, hafter, hmarked', ?_⟩
      rw [List.length_cons] at hle
      omega

end Marking

/-! ### Where markings start -/

section Starts
open Classical

/-- The nodes that no earlier one of them reaches. -/
noncomputable def starts (edges : α → List α) (order : List α) : List α :=
  order.foldl (fun found n => if ∃ s ∈ found, Reach edges s n then found else found ++ [n]) []

variable {edges : α → List α} {order before after : List α} {n : α}

theorem starts_snoc (order : List α) (n : α) : starts edges (order ++ [n]) =
    if ∃ s ∈ starts edges order, Reach edges s n then starts edges order
    else starts edges order ++ [n] := by
  rw [starts, List.foldl_append]
  rfl

theorem starts_extend (before after : List α) :
    starts edges before <+: starts edges (before ++ after) := by
  induction after using List.reverseRecOn with
  | nil =>
    rw [List.append_nil]
  | append_singleton after n ih =>
    rw [← List.append_assoc, starts_snoc]
    split
    next => exact ih
    next => exact ih.trans (List.prefix_append _ _)

theorem starts_sublist (order : List α) : (starts edges order).Sublist order := by
  induction order using List.reverseRecOn with
  | nil => exact List.Sublist.refl _
  | append_singleton order n ih =>
    rw [starts_snoc]
    split
    next => exact ih.trans (List.sublist_append_left _ _)
    next => exact ih.append (List.Sublist.refl _)

/-- Every node is reached by a start that is not behind it. -/
theorem exists_start (h : n ∈ order) : ∃ s ∈ starts edges order, Reach edges s n := by
  induction order using List.reverseRecOn with
  | nil => cases h
  | append_singleton order last ih =>
    have hprefix := @starts_extend _ edges order [last]
    rcases List.mem_append.mp h with hmem | hmem
    · obtain ⟨s, hs, hreach⟩ := ih hmem
      exact ⟨s, hprefix.subset hs, hreach⟩
    · rw [List.mem_singleton.mp hmem, starts_snoc]
      split
      next hfound => exact hfound
      next => exact ⟨last, by simp, .refl⟩

theorem mem_starts_of_append (h : n ∈ starts edges (before ++ after)) (hafter : n ∉ after) :
    n ∈ starts edges before := by
  induction after using List.reverseRecOn with
  | nil => rwa [List.append_nil] at h
  | append_singleton after last ih =>
    rw [List.mem_append, List.mem_singleton, not_or] at hafter
    rw [← List.append_assoc, starts_snoc] at h
    split at h
    next => exact ih h hafter.1
    next =>
      rcases List.mem_append.mp h with hmem | hmem
      · exact ih hmem hafter.1
      · exact absurd (List.mem_singleton.mp hmem) hafter.2

/-- A node is a start unless one before it reaches it. -/
theorem mem_starts_iff (hnodup : order.Nodup) (h : order = before ++ n :: after) :
    n ∈ starts edges order ↔ ∀ s ∈ starts edges before, ¬ Reach edges s n := by
  rw [h, List.nodup_append] at hnodup
  obtain ⟨_, hrest, hdisjoint⟩ := hnodup
  have hbefore : n ∉ before := fun hmem => hdisjoint n hmem n List.mem_cons_self rfl
  have hafter : n ∉ after := (List.nodup_cons.mp hrest).1
  have hhere : n ∈ starts edges order ↔ n ∈ starts edges (before ++ [n]) := by
    rw [h, List.append_cons]
    exact ⟨fun hmem => mem_starts_of_append hmem hafter, fun hmem => (starts_extend _ _).subset hmem⟩
  rw [hhere, starts_snoc]
  split
  next hfound =>
    obtain ⟨s, hs, hreach⟩ := hfound
    constructor
    · intro hmem
      exact absurd ((starts_sublist before).subset hmem) hbefore
    · intro hnone
      exact absurd hreach (hnone s hs)
  next hnone =>
    constructor
    · intro _ s hs hreach
      exact hnone ⟨s, hs, hreach⟩
    · intro _
      exact List.mem_append_right _ (List.mem_singleton_self n)

end Starts

section Sweep
variable [DecidableEq α] {edges : α → List α} {order nodes marked after : List α} {depth : Nat}
  {node : α}

omit [DecidableEq α] in
/-- What is marked by one more start. -/
theorem reached_of_extends {found : List α} (hextends : Extends edges [node] marked after)
    (hreached : ∀ n, n ∈ marked ↔ ∃ s ∈ found, Reach edges s n) :
    ∀ n, n ∈ after ↔ ∃ s ∈ found ++ [node], Reach edges s n := by
  intro n
  constructor
  · intro hn
    rcases hextends.sound n hn with hmarked | hsource
    · obtain ⟨s, hs, hreach⟩ := (hreached n).mp hmarked
      exact ⟨s, List.mem_append_left _ hs, hreach⟩
    · obtain ⟨s, hs, hreach⟩ := hsource
      exact ⟨s, List.mem_append_right _ hs, hreach⟩
  · intro h
    obtain ⟨s, hs, hreach⟩ := h
    have hstart : s ∈ after := by
      rcases List.mem_append.mp hs with hmem | hmem
      · exact hextends.keeps s ((hreached s).mpr ⟨s, hmem, .refl⟩)
      · exact hextends.reached s hmem
    -- What is marked is closed: old nodes lead to old ones, new ones to what was marked with them.
    induction hreach with
    | refl => exact hstart
    | tail _ hedge ih =>
      rename_i m k _
      by_cases hold : m ∈ marked
      · obtain ⟨s', hs', hreach'⟩ := (hreached m).mp hold
        exact hextends.keeps k ((hreached k).mpr ⟨s', hs', hreach'.tail hedge⟩)
      · exact hextends.closed m ih hold k hedge

/-- A sweep comes to its end. It starts as often as there are starts, and marks what they reach. -/
theorem sweep_eq (hedges : ∀ n, ∀ m ∈ edges n, m ∈ nodes) (horder : ∀ n ∈ order, n ∈ nodes)
    (hdepth : nodes.length ≤ depth) :
    ∃ marked, sweep edges depth order = .ok (marked, (starts edges order).length) ∧
      Marked nodes marked ∧ ∀ n, n ∈ marked ↔ ∃ s ∈ starts edges order, Reach edges s n := by
  induction order using List.reverseRecOn with
  | nil => exact ⟨[], rfl, ⟨List.nodup_nil, by simp⟩, by simp [starts]⟩
  | append_singleton order last ih =>
    obtain ⟨marked, hsweep, hmarked, hreached⟩ :=
      ih fun n hn => horder n (List.mem_append_left _ hn)
    have hlast : last ∈ nodes := horder last (by simp)
    have hnext : sweep edges depth (order ++ [last]) =
        sweepNode edges depth (marked, (starts edges order).length) last := by
      rw [sweep, List.foldlM_append, ← sweep, hsweep]
      exact bind_pure (sweepNode edges depth _ last)
    rw [hnext, starts_snoc, sweepNode]
    by_cases hmem : last ∈ marked
    · rw [if_pos hmem, if_pos ((hreached last).mp hmem)]
      exact ⟨marked, rfl, hmarked, hreached⟩
    · rw [if_neg hmem, if_neg fun hfound => hmem ((hreached last).mpr hfound)]
      have hleft : nodes.length ≤ depth + marked.length := by omega
      obtain ⟨after, hafter, hmarked', _⟩ := mark_ok hedges hlast hmarked hleft
      rw [hafter, List.length_append]
      exact ⟨after, rfl, hmarked', reached_of_extends (mark_extends hafter) hreached⟩

end Sweep

/-! ### Components -/

section Components
variable {nodes order : List α} {edges : α → List α}

/-- The components of a graph, whichever way its edges go. -/
def Component (nodes : List α) (edges : α → List α) : Type :=
  Quot fun a b : { n // n ∈ nodes } => b.1 ∈ edges a.1

def componentOf (edges : α → List α) (n : { n // n ∈ nodes }) : Component nodes edges :=
  Quot.mk _ n

/-- A node with no other one of its component before it in an order. -/
def Foremost (edges : α → List α) (order : List α) (n : { n // n ∈ nodes }) : Prop :=
  ∃ before after, order = before ++ n.1 :: after ∧
    ∀ s : { n // n ∈ nodes }, componentOf edges s = componentOf edges n → s.1 ∉ before

/-- The foremost node of each component leads to all of it. -/
def Leads (nodes : List α) (edges : α → List α) (order : List α) : Prop :=
  ∀ n m : { n // n ∈ nodes }, Foremost edges order n →
    componentOf edges m = componentOf edges n → Reach edges n.1 m.1

/-- What leads from one node to another does not leave the component, when nothing leads on from
what is no node. -/
theorem componentOf_of_reach (hinner : ∀ n, n ∉ nodes → edges n = []) {a b : { n // n ∈ nodes }}
    (h : Reach edges a.1 b.1) : componentOf edges a = componentOf edges b := by
  obtain ⟨a, ha⟩ := a
  obtain ⟨b, hb⟩ := b
  replace h : Reach edges a b := h
  induction h using ReflTransGen.head_induction_on with
  | refl => rfl
  | head hedge hrest ih =>
    rename_i a c
    by_cases hc : c ∈ nodes
    · have hnext : componentOf edges ⟨a, ha⟩ = componentOf edges ⟨c, hc⟩ := Quot.sound hedge
      exact hnext.trans (ih hc)
    · rcases hrest.cases_head with heq | hnext
      · exact absurd (heq ▸ hb) hc
      · obtain ⟨d, hd, _⟩ := hnext
        rw [hinner c hc] at hd
        cases hd

theorem exists_foremost (horder : order.Perm nodes) (n : { n // n ∈ nodes }) :
    ∃ first : { n // n ∈ nodes }, Foremost edges order first ∧
      componentOf edges first = componentOf edges n := by
  classical
  let same : α → Bool := fun a => ∃ ha : a ∈ nodes, componentOf edges ⟨a, ha⟩ = componentOf edges n
  have hmem : n.1 ∈ order.filter same := by
    rw [List.mem_filter]
    exact ⟨horder.mem_iff.mpr n.2, decide_eq_true ⟨n.2, rfl⟩⟩
  obtain ⟨first, rest, hfilter⟩ := List.exists_cons_of_ne_nil (List.ne_nil_of_mem hmem)
  obtain ⟨before, after, hsplit, hbefore, hfirst, _⟩ := List.filter_eq_cons_iff.mp hfilter
  obtain ⟨hfirst, hsame⟩ := of_decide_eq_true hfirst
  refine ⟨⟨first, hfirst⟩, ⟨before, after, hsplit, ?_⟩, hsame⟩
  intro s hs hmem
  exact hbefore s.1 hmem (decide_eq_true ⟨s.2, hs.trans hsame⟩)

/-- The foremost node of a component is a start. -/
theorem start_of_foremost (hinner : ∀ n, n ∉ nodes → edges n = []) (horder : order.Perm nodes)
    (hnodup : order.Nodup) {n : { n // n ∈ nodes }} (h : Foremost edges order n) :
    n.1 ∈ starts edges order := by
  obtain ⟨before, after, hsplit, hbefore⟩ := h
  rw [mem_starts_iff hnodup hsplit]
  intro s hs hreach
  have hmem : s ∈ before := (starts_sublist before).subset hs
  have hnode : s ∈ nodes := by
    rw [← horder.mem_iff, hsplit]
    exact List.mem_append_left _ hmem
  exact hbefore ⟨s, hnode⟩ (componentOf_of_reach hinner hreach) hmem

/-- Where the foremost nodes lead to all of their components, they are the only starts. -/
theorem foremost_of_start (hinner : ∀ n, n ∉ nodes → edges n = []) (horder : order.Perm nodes)
    (hnodup : order.Nodup) (hleads : Leads nodes edges order) {n first : { n // n ∈ nodes }}
    (hn : n.1 ∈ starts edges order) (hfirst : Foremost edges order first)
    (hsame : componentOf edges first = componentOf edges n) : n = first := by
  by_contra hne
  have hstart := start_of_foremost hinner horder hnodup hfirst
  obtain ⟨before, after, hsplit, hbefore⟩ := hfirst
  have hafter : n.1 ∈ after := by
    have hmem : n.1 ∈ order := horder.mem_iff.mpr n.2
    rw [hsplit] at hmem
    rcases List.mem_append.mp hmem with hmem | hmem
    · exact absurd hmem (hbefore n hsame.symm)
    · exact (List.mem_cons.mp hmem).resolve_left fun heq => hne (Subtype.ext heq)
  obtain ⟨between, behind, rfl⟩ := List.append_of_mem hafter
  have hsplit' : order = (before ++ first.1 :: between) ++ n.1 :: behind := by
    rw [hsplit, List.append_assoc, List.cons_append]
  have hbehind : first.1 ∉ n.1 :: behind := by
    rw [hsplit'] at hnodup
    intro hmem
    exact (List.nodup_append.mp hnodup).2.2 first.1 (by simp) first.1 hmem rfl
  rw [hsplit'] at hstart
  have hearlier := mem_starts_of_append hstart hbehind
  refine (mem_starts_iff hnodup hsplit').mp hn first.1 hearlier ?_
  exact hleads first n ⟨before, _, hsplit, hbefore⟩ hsame.symm

/-- There are just as many starts as components when the foremost nodes lead to all of theirs. -/
theorem length_starts_iff (hinner : ∀ n, n ∉ nodes → edges n = []) (horder : order.Perm nodes)
    (hnodup : nodes.Nodup) :
    (starts edges order).length = Nat.card (Component nodes edges) ↔ Leads nodes edges order := by
  have horder' : order.Nodup := horder.nodup_iff.mpr hnodup
  have hnode : ∀ s ∈ starts edges order, s ∈ nodes := fun s hs =>
    horder.mem_iff.mp ((starts_sublist order).subset hs)
  let component : { s // s ∈ starts edges order } → Component nodes edges :=
    fun s => componentOf edges ⟨s.1, hnode s.1 s.2⟩
  have hsurjective : Function.Surjective component := by
    intro q
    obtain ⟨n, rfl⟩ := Quot.exists_rep q
    obtain ⟨s, hs, hreach⟩ := @exists_start _ edges _ _ (horder.mem_iff.mpr n.2)
    exact ⟨⟨s, hs⟩, componentOf_of_reach (a := ⟨s, hnode s hs⟩) hinner hreach⟩
  have hcard : Nat.card { s // s ∈ starts edges order } = (starts edges order).length := by
    classical
    have hstarts : (starts edges order).Nodup := (starts_sublist order).nodup horder'
    rw [← Nat.card_congr (List.Nodup.getEquiv _ hstarts), Nat.card_fin]
  constructor
  · intro hlength n m hforemost hsame
    have hfinite : Finite { s // s ∈ starts edges order } := List.finite_toSet _
    have hbijective : Function.Bijective component :=
      hsurjective.bijective_of_nat_card_le (hcard.trans hlength).le
    obtain ⟨s, hs, hreach⟩ := @exists_start _ edges _ _ (horder.mem_iff.mpr m.2)
    have hstart := start_of_foremost hinner horder horder' hforemost
    have hcomponent : component ⟨s, hs⟩ = component ⟨n.1, hstart⟩ :=
      (componentOf_of_reach (a := ⟨s, hnode s hs⟩) hinner hreach).trans hsame
    rw [← Subtype.mk.inj (hbijective.injective hcomponent)]
    exact hreach
  · intro hleads
    have hinjective : Function.Injective component := by
      intro s s' hsame
      obtain ⟨first, hfirst, hfirstSame⟩ :=
        @exists_foremost _ _ _ edges horder ⟨s.1, hnode s.1 s.2⟩
      have hs := foremost_of_start hinner horder horder' hleads s.2 hfirst hfirstSame
      have hs' := foremost_of_start (n := ⟨s'.1, hnode s'.1 s'.2⟩) hinner horder horder' hleads s'.2
        hfirst (hfirstSame.trans hsame)
      exact Subtype.ext (Subtype.mk.inj (hs.trans hs'.symm))
    rw [← hcard]
    exact Nat.card_eq_of_bijective component ⟨hinjective, hsurjective⟩

/-- The foremost nodes lead to all of their components in each order when every edge can be
gone back. -/
theorem leads_iff :
    (∀ order : List α, order.Perm nodes → Leads nodes edges order) ↔
      ∀ n ∈ nodes, ∀ m ∈ edges n, m ∈ nodes → Reach edges m n := by
  classical
  constructor
  · intro h n hn m hedge hm
    have hforemost : Foremost edges (m :: nodes.erase m) (⟨m, hm⟩ : { n // n ∈ nodes }) :=
      ⟨[], nodes.erase m, rfl, fun s _ => List.not_mem_nil⟩
    exact h _ (List.perm_cons_erase hm).symm ⟨m, hm⟩ ⟨n, hn⟩ hforemost (Quot.sound hedge)
  · intro h order _ n m _ hsame
    have hback : ∀ a b : { n // n ∈ nodes },
        Relation.EqvGen (fun a b : { n // n ∈ nodes } => b.1 ∈ edges a.1) a b →
        Reach edges a.1 b.1 ∧ Reach edges b.1 a.1 := by
      intro a b hab
      induction hab with
      | rel a b hedge => exact ⟨.single hedge, h a.1 a.2 b.1 hedge b.2⟩
      | refl a => exact ⟨.refl, .refl⟩
      | symm a b _ ih => exact ⟨ih.2, ih.1⟩
      | trans a b c _ _ ihab ihbc => exact ⟨ihab.1.trans ihbc.1, ihbc.2.trans ihab.2⟩
    exact (hback m n (Quot.eqvGen_exact hsame)).2

end Components

end Attest.Library.DepthFirst
