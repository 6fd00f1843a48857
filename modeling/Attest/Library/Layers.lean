import Attest.Library.Kahn
import Mathlib.Data.List.GetD
import Mathlib.Order.Bounds.Basic

/-! The layers of a graph without cycles.

The depth of a node is the greatest number of needs in a row that lead to it. `depths` gives it
along an order in which needs come first. `peel` takes off, round by round, the nodes that need
none of what is left, and does so in whatever order each round goes over them.
`Depths.isGreatest` and `peel_layered` say that both find the same layers. -/
namespace Attest.Library.Layers
open Relation TopologicalSort Kahn

variable {α : Type}

/-- Needs in a row, so many of them, the last one of a given node. -/
def ChainTo (needs : α → List α) (n : α) (length : Nat) : Prop :=
  ∃ line : List α, line.length = length ∧ (line ++ [n]).IsChain fun d n => d ∈ needs n

/-- A node is deeper than what it needs, and just one deeper than some of it. -/
structure Depths (nodes : List α) (needs : α → List α) (depth : α → Nat) : Prop where
  below : ∀ n ∈ nodes, ∀ d ∈ needs n, depth d < depth n
  next : ∀ n ∈ nodes, depth n = 0 ∨ ∃ d ∈ needs n, depth d + 1 = depth n
  needed : ∀ n ∈ nodes, ∀ d ∈ needs n, d ∈ nodes

/-- The groups are the layers: all the nodes, each at the place of its depth. -/
structure Layered (nodes : List α) (depth : α → Nat) (groups : List (List α)) : Prop where
  layer : ∀ k n, n ∈ groups.getD k [] ↔ n ∈ nodes ∧ depth n = k
  filled : ∀ group ∈ groups, group ≠ []
  perm : groups.flatten.Perm nodes

section Meaning
variable {nodes : List α} {needs : α → List α} {depth : α → Nat} {n d : α} {k : Nat}

/-- Depths ask no more of the nodes and of the needs than which there are. -/
theorem Depths.congr {nodes' : List α} {needs' : α → List α} (h : Depths nodes needs depth)
    (hnodes : ∀ n, n ∈ nodes' ↔ n ∈ nodes) (hneeds : ∀ n d, d ∈ needs' n ↔ d ∈ needs n) :
    Depths nodes' needs' depth := by
  refine ⟨?_, ?_, ?_⟩
  · intro n hn d hd
    exact h.below n ((hnodes n).mp hn) d ((hneeds n d).mp hd)
  · intro n hn
    refine (h.next n ((hnodes n).mp hn)).imp_right ?_
    intro hnext
    obtain ⟨d, hd, hdepth⟩ := hnext
    exact ⟨d, (hneeds n d).mpr hd, hdepth⟩
  · intro n hn d hd
    exact (hnodes d).mpr (h.needed n ((hnodes n).mp hn) d ((hneeds n d).mp hd))

theorem chainTo_zero : ChainTo needs n 0 := ⟨[], rfl, List.isChain_singleton n⟩

theorem ChainTo.snoc (h : ChainTo needs d k) (hd : d ∈ needs n) : ChainTo needs n (k + 1) := by
  obtain ⟨line, rfl, hchain⟩ := h
  refine ⟨line ++ [d], by rw [List.length_append]; rfl, ?_⟩
  rw [List.isChain_append]
  refine ⟨hchain, List.isChain_singleton n, ?_⟩
  intro x hx y hy
  rw [List.getLast?_concat, Option.mem_some_iff] at hx
  rw [List.head?_cons, Option.mem_some_iff] at hy
  rw [← hx, ← hy]
  exact hd

/-- The depth of a node is the length of a longest row of needs that ends at it. -/
theorem Depths.isGreatest (h : Depths nodes needs depth) (hn : n ∈ nodes) :
    IsGreatest {k | ChainTo needs n k} (depth n) := by
  constructor
  · -- A row as long as the depth, by the depth.
    show ChainTo needs n (depth n)
    generalize hk : depth n = k
    induction k generalizing n with
    | zero => exact chainTo_zero
    | succ k ih =>
      rcases h.next n hn with hzero | hnext
      · omega
      · obtain ⟨d, hd, hdepth⟩ := hnext
        exact (ih (h.needed n hn d hd) (by omega)).snoc hd
  · -- No row is longer, by the row.
    intro k hk
    obtain ⟨line, rfl, hchain⟩ := hk
    induction line using List.reverseRecOn generalizing n with
    | nil => exact Nat.zero_le _
    | append_singleton line d ih =>
      rw [List.isChain_append] at hchain
      obtain ⟨hline, _, hlast⟩ := hchain
      have hd : d ∈ needs n := hlast d List.getLast?_concat n rfl
      have hle := ih (h.needed n hn d hd) hline
      have hlt := h.below n hn d hd
      rw [List.length_append, List.length_singleton]
      omega

theorem Depths.lt_of_transGen (h : Depths nodes needs depth) (hn : n ∈ nodes)
    (hbefore : TransGen (fun d n => d ∈ needs n) d n) : depth d < depth n := by
  have hall : d ∈ nodes ∧ depth d < depth n := by
    induction hbefore using TransGen.head_induction_on with
    | single hd => exact ⟨h.needed _ hn _ hd, h.below _ hn _ hd⟩
    | head hd _ ih =>
      obtain ⟨hmem, hlt⟩ := ih
      exact ⟨h.needed _ hmem _ hd, (h.below _ hmem _ hd).trans hlt⟩
  exact hall.2

/-- On the way to a node there is one of each smaller depth. -/
theorem Depths.exists_at (h : Depths nodes needs depth) (hn : n ∈ nodes) (hk : k ≤ depth n) :
    ∃ m ∈ nodes, depth m = k ∧ ReflTransGen (fun d n => d ∈ needs n) m n := by
  generalize hleft : depth n - k = left
  induction left generalizing n with
  | zero => exact ⟨n, hn, by omega, .refl⟩
  | succ left ih =>
    rcases h.next n hn with hzero | hnext
    · omega
    · obtain ⟨d, hd, hdepth⟩ := hnext
      obtain ⟨m, hm, hmk, hreach⟩ := ih (h.needed n hn d hd) (by omega) (by omega)
      exact ⟨m, hm, hmk, hreach.tail hd⟩

/-- No two nodes are equally deep when of any two one comes before the other. -/
theorem Depths.line_iff (h : Depths nodes needs depth) :
    (∀ n ∈ nodes, ∀ m ∈ nodes, depth n = depth m → n = m) ↔
      ∀ n ∈ nodes, ∀ m ∈ nodes, n ≠ m →
        TransGen (fun d n => d ∈ needs n) n m ∨ TransGen (fun d n => d ∈ needs n) m n := by
  constructor
  · intro hinjective
    have hless : ∀ n ∈ nodes, ∀ m ∈ nodes, depth n < depth m →
        TransGen (fun d n => d ∈ needs n) n m := by
      intro n hn m hm hlt
      obtain ⟨first, hfirst, hdepth, hreach⟩ := h.exists_at hm hlt.le
      rw [hinjective first hfirst n hn hdepth] at hreach
      rcases reflTransGen_iff_eq_or_transGen.mp hreach with heq | hbefore
      · exact absurd (heq ▸ hlt) (lt_irrefl _)
      · exact hbefore
    intro n hn m hm hne
    rcases Nat.lt_trichotomy (depth n) (depth m) with hlt | heq | hlt
    · exact .inl (hless n hn m hm hlt)
    · exact absurd (hinjective n hn m hm heq) hne
    · exact .inr (hless m hm n hn hlt)
  · intro hline n hn m hm heq
    by_contra hne
    rcases hline n hn m hm hne with hbefore | hbefore
    · exact absurd heq (h.lt_of_transGen hm hbefore).ne
    · exact absurd heq.symm (h.lt_of_transGen hn hbefore).ne

/-- Every layer is a single node when no two nodes are equally deep. -/
theorem Layered.single_iff {groups : List (List α)} (h : Layered nodes depth groups)
    (hnodup : nodes.Nodup) : (∀ group ∈ groups, group.length = 1) ↔
      ∀ n ∈ nodes, ∀ m ∈ nodes, depth n = depth m → n = m := by
  constructor
  · intro hsingle n hn m hm heq
    have hn' := (h.layer (depth m) n).mpr ⟨hn, heq⟩
    have hm' := (h.layer (depth m) m).mpr ⟨hm, rfl⟩
    by_cases hlength : depth m < groups.length
    · rw [List.getD_eq_getElem _ _ hlength] at hn' hm'
      obtain ⟨only, honly⟩ := List.length_eq_one_iff.mp (hsingle _ (List.getElem_mem hlength))
      rw [honly, List.mem_singleton] at hn' hm'
      rw [hn', hm']
    · rw [List.getD_eq_default _ _ (by omega)] at hm'
      cases hm'
  · intro hinjective group hgroup
    have hgroupNodup : group.Nodup :=
      (List.nodup_flatten.mp (h.perm.nodup_iff.mpr hnodup)).1 group hgroup
    obtain ⟨k, hk, rfl⟩ := List.getElem_of_mem hgroup
    have hlayer : ∀ n ∈ groups[k], n ∈ nodes ∧ depth n = k := by
      intro n hn
      rw [← List.getD_eq_getElem _ [] hk] at hn
      exact (h.layer k n).mp hn
    obtain ⟨first, rest, hcons⟩ := List.exists_cons_of_ne_nil (h.filled _ hgroup)
    cases rest with
    | nil => rw [hcons, List.length_singleton]
    | cons second rest =>
      rw [hcons] at hlayer hgroupNodup
      obtain ⟨hfirst, hdepth⟩ := hlayer first (by simp)
      obtain ⟨hsecond, hdepth'⟩ := hlayer second (by simp)
      have heq := hinjective first hfirst second hsecond (hdepth.trans hdepth'.symm)
      exact absurd (heq ▸ List.mem_cons_self) (List.nodup_cons.mp hgroupNodup).1

end Meaning

/-! ### Depths along an order -/

section Along
variable [DecidableEq α]

/-- One more node: one deeper than the deepest it needs. -/
def deepen (needs : α → List α) (state : (α → Option Nat) × Nat) (n : α) : (α → Option Nat) × Nat :=
  let depth :=
    if needs n = [] then 0 else ((needs n).map fun d => (state.1 d).getD 0).max?.getD 0 + 1
  (Function.update state.1 n (some depth), max state.2 depth)

/-- The depths of the nodes of an order, and the greatest. -/
def depths (needs : α → List α) (sorted : List α) : (α → Option Nat) × Nat :=
  sorted.foldl (deepen needs) (fun _ => none, 0)

variable {needs : α → List α} {sorted : List α} {depth : α → Nat} {n : α}

/-- A new node changes nothing of the others. -/
theorem update_of_mem {k : Nat} (hn : n ∉ sorted) :
    ∀ m ∈ sorted, Function.update depth n k m = depth m := by
  intro m hm
  have hne : m ≠ n := fun heq => hn (heq ▸ hm)
  exact Function.update_of_ne hne _ _

/-- What the next node gets, when those it needs have their depths. -/
theorem deepen_eq (hneeds : ∀ d ∈ needs n, d ∈ sorted) (deepest : Nat) :
    ∃ k, deepen needs (tabulate sorted depth, deepest) n =
        (Function.update (tabulate sorted depth) n (some k), max deepest k) ∧
      (∀ d ∈ needs n, depth d < k) ∧ (k = 0 ∨ ∃ d ∈ needs n, depth d + 1 = k) := by
  by_cases hnone : needs n = []
  · refine ⟨0, by simp [deepen, hnone], ?_, .inl rfl⟩
    intro d hd
    rw [hnone] at hd
    cases hd
  · have hvalues : ((needs n).map fun d => (tabulate sorted depth d).getD 0) =
        (needs n).map depth := by
      refine List.map_congr_left ?_
      intro d hd
      rw [tabulate_of_mem (hneeds d hd), Option.getD_some]
    have hsome : ((needs n).map depth).max? ≠ none := by
      rw [ne_eq, List.max?_eq_none_iff, List.map_eq_nil_iff]
      exact hnone
    obtain ⟨k, hk⟩ := Option.ne_none_iff_exists'.mp hsome
    obtain ⟨hmem, hle⟩ := List.max?_eq_some_iff.mp hk
    refine ⟨k + 1, by simp [deepen, hnone, hvalues, hk], ?_, .inr ?_⟩
    · intro d hd
      exact Nat.lt_succ_of_le (hle _ (List.mem_map_of_mem hd))
    · obtain ⟨d, hd, hdepth⟩ := List.mem_map.mp hmem
      exact ⟨d, hd, congrArg (· + 1) hdepth⟩

omit [DecidableEq α] in
theorem ordered_of_append {result after : List α} (h : Ordered needs (result ++ after)) :
    Ordered needs result := by
  intro before n rest hsplit d hd
  exact h before n (rest ++ after) (by rw [hsplit, List.append_assoc]; rfl) d hd

/-- The depths with one more node, which none of the others needs. -/
theorem Depths.snoc {k : Nat} (h : Depths sorted needs depth) (hn : n ∉ sorted)
    (hneeds : ∀ d ∈ needs n, d ∈ sorted) (hbelow : ∀ d ∈ needs n, depth d < k)
    (hnext : k = 0 ∨ ∃ d ∈ needs n, depth d + 1 = k) :
    Depths (sorted ++ [n]) needs (Function.update depth n k) := by
  have hold := @update_of_mem _ _ sorted depth n k hn
  refine ⟨?_, ?_, ?_⟩
  · intro m hm d hd
    rcases List.mem_append.mp hm with hmem | hmem
    · rw [hold m hmem, hold d (h.needed m hmem d hd)]
      exact h.below m hmem d hd
    · rw [List.mem_singleton.mp hmem] at hd ⊢
      rw [Function.update_self, hold d (hneeds d hd)]
      exact hbelow d hd
  · intro m hm
    rcases List.mem_append.mp hm with hmem | hmem
    · rw [hold m hmem]
      refine (h.next m hmem).imp_right ?_
      intro hfound
      obtain ⟨d, hd, hdepth⟩ := hfound
      exact ⟨d, hd, by rw [hold d (h.needed m hmem d hd), hdepth]⟩
    · rw [List.mem_singleton.mp hmem, Function.update_self]
      refine hnext.imp_right ?_
      intro hfound
      obtain ⟨d, hd, hdepth⟩ := hfound
      exact ⟨d, hd, by rw [hold d (hneeds d hd), hdepth]⟩
  · intro m hm d hd
    rcases List.mem_append.mp hm with hmem | hmem
    · exact List.mem_append_left _ (h.needed m hmem d hd)
    · rw [List.mem_singleton.mp hmem] at hd
      exact List.mem_append_left _ (hneeds d hd)

/-- Along an order in which needs come first, every node gets its depth. -/
theorem depths_spec (hordered : Ordered needs sorted) (hnodup : sorted.Nodup) :
    ∃ depth, (depths needs sorted).1 = tabulate sorted depth ∧ Depths sorted needs depth ∧
      (∀ n ∈ sorted, depth n ≤ (depths needs sorted).2) ∧
      ((depths needs sorted).2 = 0 ∨ ∃ n ∈ sorted, depth n = (depths needs sorted).2) := by
  induction sorted using List.reverseRecOn with
  | nil =>
    refine ⟨fun _ => 0, rfl, ⟨?_, ?_, ?_⟩, ?_, .inl rfl⟩
    all_goals simp
  | append_singleton sorted n ih =>
    obtain ⟨hsorted, _, hdisjoint⟩ := List.nodup_append.mp hnodup
    have hn : n ∉ sorted := fun hmem => hdisjoint n hmem n (List.mem_singleton_self n) rfl
    obtain ⟨depth, htable, hdepths, hle, hgreatest⟩ := ih (ordered_of_append hordered) hsorted
    have hneeds : ∀ d ∈ needs n, d ∈ sorted := hordered sorted n [] rfl
    obtain ⟨k, hdeepen, hbelow, hnext⟩ := @deepen_eq _ _ _ _ depth _ hneeds (depths needs sorted).2
    have hstep : depths needs (sorted ++ [n]) =
        (Function.update (tabulate sorted depth) n (some k), max (depths needs sorted).2 k) := by
      rw [depths, List.foldl_append, ← hdeepen, ← htable]
      rfl
    have hold := @update_of_mem _ _ sorted depth n k hn
    rw [hstep]
    refine ⟨Function.update depth n k, ?_, hdepths.snoc hn hneeds hbelow hnext, ?_, ?_⟩
    · funext m
      by_cases hm : m = n
      · subst hm
        rw [tabulate_of_mem (by simp), Function.update_self]
        exact Function.update_self ..
      · simp only [Function.update_of_ne hm, tabulate, List.mem_append, List.mem_singleton, hm, or_false]
    · intro m hm
      rcases List.mem_append.mp hm with hmem | hmem
      · rw [hold m hmem]
        exact (hle m hmem).trans (le_max_left _ _)
      · rw [List.mem_singleton.mp hmem, Function.update_self]
        exact le_max_right _ _
    · rcases le_total k (depths needs sorted).2 with hsmall | hlarge
      · rw [max_eq_left hsmall]
        refine hgreatest.imp_right ?_
        intro hfound
        obtain ⟨m, hm, hdepth⟩ := hfound
        exact ⟨m, List.mem_append_left _ hm, by rw [hold m hm, hdepth]⟩
      · rw [max_eq_right hlarge]
        exact .inr ⟨n, by simp, Function.update_self ..⟩

end Along

/-! ### Peeling -/

section Peeling
variable [DecidableEq α]

/-- A loop that takes off what needs nothing that is left. `shuffle` is the order in which each
round goes over what is left. -/
def peel (needs : α → List α) (shuffle : Nat → List α → List α) :
    Nat → Nat → List α → List (List α) → Except Fault (List (List α))
  | rounds, round, remaining, groups =>
    if remaining = [] then .ok groups
    else
      match rounds with
      | 0 => .error .endless
      | rounds + 1 =>
        let group := (shuffle round remaining).filter fun n => (needs n).all (· ∉ remaining)
        peel needs shuffle rounds (round + 1) (remaining.filter (· ∉ group))
          (if group = [] then groups else groups ++ [group])

variable {nodes remaining : List α} {needs : α → List α} {depth : α → Nat}
  {shuffle : Nat → List α → List α} {groups : List (List α)} {round rounds : Nat}

/-- What a round takes off is the next layer. -/
theorem mem_group (hdepths : Depths nodes needs depth)
    (hremaining : ∀ n, n ∈ remaining ↔ n ∈ nodes ∧ round ≤ depth n) {shuffled : List α}
    (hshuffled : shuffled.Perm remaining) {n : α} :
    n ∈ shuffled.filter (fun n => (needs n).all (· ∉ remaining)) ↔ n ∈ nodes ∧ depth n = round := by
  rw [List.mem_filter, hshuffled.mem_iff, hremaining, List.all_eq_true]
  constructor
  · intro h
    obtain ⟨⟨hn, hround⟩, hall⟩ := h
    refine ⟨hn, ?_⟩
    rcases hdepths.next n hn with hzero | hnext
    · omega
    · -- A need that is one less deep is gone, so it was in an earlier layer.
      obtain ⟨d, hd, hdepth⟩ := hnext
      have hgone : d ∉ remaining := of_decide_eq_true (hall d hd)
      have hless : ¬ round ≤ depth d := fun hle =>
        hgone ((hremaining d).mpr ⟨hdepths.needed n hn d hd, hle⟩)
      omega
  · intro h
    obtain ⟨hn, hround⟩ := h
    refine ⟨⟨hn, hround.ge⟩, ?_⟩
    intro d hd
    have hless := hdepths.below n hn d hd
    refine decide_eq_true fun hmem => ?_
    have hle := ((hremaining d).mp hmem).2
    omega

/-- The groups that are made before a round, and what is left. -/
structure Peeled (nodes : List α) (depth : α → Nat) (round : Nat) (remaining : List α)
    (groups : List (List α)) : Prop where
  left : ∀ n, n ∈ remaining ↔ n ∈ nodes ∧ round ≤ depth n
  length : groups.length = round
  layer : ∀ k < round, ∀ n, n ∈ groups.getD k [] ↔ n ∈ nodes ∧ depth n = k
  filled : ∀ group ∈ groups, group ≠ []
  perm : (groups.flatten ++ remaining).Perm nodes

omit [DecidableEq α] in
theorem peeled_start (h : remaining.Perm nodes) : Peeled nodes depth 0 remaining [] := by
  refine ⟨?_, rfl, fun k hk => absurd hk (Nat.not_lt_zero k), by simp, by simpa using h⟩
  intro n
  rw [h.mem_iff]
  exact ⟨fun hn => ⟨hn, Nat.zero_le _⟩, And.left⟩

omit [DecidableEq α] in
/-- Where nothing is left, the groups are the layers. -/
theorem Peeled.layered (h : Peeled nodes depth round [] groups) : Layered nodes depth groups := by
  refine ⟨?_, h.filled, by simpa using h.perm⟩
  intro k n
  by_cases hk : k < round
  · exact h.layer k hk n
  · rw [List.getD_eq_default _ _ (by rw [h.length]; omega)]
    constructor
    · intro hn
      cases hn
    · intro hn
      have hleft := (h.left n).mpr ⟨hn.1, by omega⟩
      cases hleft

/-- One round: the next layer, which is not empty while something is left. -/
theorem Peeled.step (hdepths : Depths nodes needs depth) (hnodes : nodes.Nodup)
    (h : Peeled nodes depth round remaining groups) (hne : remaining ≠ []) {group : List α}
    (hgroup : ∀ n, n ∈ group ↔ n ∈ nodes ∧ depth n = round) (hnodup : group.Nodup) :
    group ≠ [] ∧
      Peeled nodes depth (round + 1) (remaining.filter (· ∉ group)) (groups ++ [group]) ∧
      (remaining.filter (· ∉ group)).length < remaining.length := by
  obtain ⟨n, hn⟩ := List.exists_mem_of_ne_nil _ hne
  obtain ⟨hnode, hround⟩ := (h.left n).mp hn
  obtain ⟨m, hm, hdepth, _⟩ := hdepths.exists_at hnode hround
  have hmgroup : m ∈ group := (hgroup m).mpr ⟨hm, hdepth⟩
  have hgone : ∀ n ∈ group, n ∈ remaining := by
    intro n hn
    obtain ⟨hnode, hdepth⟩ := (hgroup n).mp hn
    exact (h.left n).mpr ⟨hnode, hdepth.ge⟩
  have hremaining : remaining.Nodup := (List.nodup_append.mp (h.perm.nodup_iff.mpr hnodes)).2.1
  have htaken : group.Perm (remaining.filter (· ∈ group)) := by
    refine (List.perm_ext_iff_of_nodup hnodup (hremaining.filter _)).mpr ?_
    intro n
    rw [List.mem_filter, decide_eq_true_iff]
    exact ⟨fun hn => ⟨hgone n hn, hn⟩, And.right⟩
  refine ⟨List.ne_nil_of_mem hmgroup, ⟨?_, ?_, ?_, ?_, ?_⟩, ?_⟩
  · intro n
    rw [List.mem_filter, decide_eq_true_iff, hgroup, h.left]
    constructor
    · intro hn
      refine ⟨hn.1.1, Nat.lt_of_le_of_ne hn.1.2 fun heq => hn.2 ⟨hn.1.1, heq.symm⟩⟩
    · intro hn
      exact ⟨⟨hn.1, Nat.le_of_succ_le hn.2⟩, fun hlayer => by omega⟩
  · rw [List.length_append, h.length, List.length_singleton]
  · intro k hk n
    by_cases hlast : k = round
    · subst hlast
      rw [List.getD_append_right _ _ _ _ h.length.le, h.length, Nat.sub_self]
      exact hgroup n
    · have hk' : k < round := by omega
      rw [List.getD_append _ _ _ _ (by rw [h.length]; exact hk')]
      exact h.layer k hk' n
  · intro taken htaken
    rcases List.mem_append.mp htaken with hmem | hmem
    · exact h.filled taken hmem
    · rw [List.mem_singleton.mp hmem]
      exact List.ne_nil_of_mem hmgroup
  · rw [List.flatten_append, List.flatten_singleton, List.append_assoc]
    refine List.Perm.trans (List.Perm.append_left _ ?_) h.perm
    refine (htaken.append_right _).trans ?_
    have hsplit := List.filter_append_perm (fun n => decide (n ∈ group)) remaining
    simpa only [decide_not] using hsplit
  · rw [List.length_filter_lt_length_iff_exists]
    exact ⟨m, hgone m hmgroup, by simpa using hmgroup⟩

/-- The loop ends, and what it gives are the layers. -/
theorem peel_layered (hdepths : Depths nodes needs depth) (hnodes : nodes.Nodup)
    (hshuffle : ∀ k l, (shuffle k l).Perm l) (hrounds : remaining.length ≤ rounds)
    (h : Peeled nodes depth round remaining groups) :
    ∃ result, peel needs shuffle rounds round remaining groups = .ok result ∧
      Layered nodes depth result := by
  induction rounds generalizing round remaining groups with
  | zero =>
    have hempty : remaining = [] := List.length_eq_zero_iff.mp (by omega)
    subst hempty
    exact ⟨groups, rfl, h.layered⟩
  | succ rounds ih =>
    by_cases hempty : remaining = []
    · subst hempty
      exact ⟨groups, rfl, h.layered⟩
    · have hremaining : remaining.Nodup := (List.nodup_append.mp (h.perm.nodup_iff.mpr hnodes)).2.1
      have hgroup := fun n => @mem_group _ _ _ _ needs _ _ hdepths h.left _ (hshuffle round remaining) n
      have hnodup : ((shuffle round remaining).filter fun n => (needs n).all (· ∉ remaining)).Nodup :=
        ((hshuffle round remaining).nodup_iff.mpr hremaining).filter _
      obtain ⟨hfilled, hpeeled, hless⟩ := h.step hdepths hnodes hempty hgroup hnodup
      unfold peel
      simp only [if_neg hempty, if_neg hfilled]
      exact ih (by omega) hpeeled

end Peeling

end Attest.Library.Layers
