import Attest.Library.Split

/-! Hash trees over a list, split at the largest power of two.

The tree hash of a list, the path that proves one entry and the path that proves
a prefix, over any entry type, any digest type and any hash of a `Query`. The
definitions are the recursive ones: a left side of `below n` entries, a right
side with the rest. Paths list the deepest node first.

A finite digest cannot be injective on all queries, so no result assumes that.
`CollisionFree` is stated over a list of queries: the ones that were really
hashed, by whoever built the tree (`treeQueries`) or checked a path. -/
namespace Attest.Library.HashTree

variable {ε δ : Type*}

/-- What is hashed: the empty tree, an entry, or the two sides of a node. -/
inductive Query (ε δ : Type*) where
  | empty
  | leaf (entry : ε)
  | node (left right : δ)
deriving DecidableEq

/-- No two of the listed arguments share a value. -/
def CollisionFree {α β : Type*} (f : α → β) (l : List α) : Prop :=
  ∀ x ∈ l, ∀ y ∈ l, f x = f y → x = y

instance {α β : Type*} [DecidableEq α] [DecidableEq β] (f : α → β) (l : List α) :
    Decidable (CollisionFree f l) :=
  inferInstanceAs (Decidable (∀ x ∈ l, ∀ y ∈ l, f x = f y → x = y))

theorem CollisionFree.mono {α β : Type*} {f : α → β} {l l' : List α} (h : CollisionFree f l)
    (hl : ∀ x ∈ l', x ∈ l) : CollisionFree f l' :=
  fun x hx y hy => h x (hl x hx) y (hl y hy)

/-- Freedom from collisions through an injective encoding of the arguments. -/
theorem CollisionFree.of_map {α β γ : Type*} {f : β → γ} {g : α → β} {l : List α}
    (h : CollisionFree f (l.map g)) (hg : Function.Injective g) : CollisionFree (f ∘ g) l :=
  fun _ hx _ hy he => hg (h _ (List.mem_map_of_mem hx) _ (List.mem_map_of_mem hy) he)

/-! ### The tree hash -/

def root (h : Query ε δ → δ) : List ε → δ
  | [] => h .empty
  | [e] => h (.leaf e)
  | a :: b :: rest =>
    h (.node (root h ((a :: b :: rest).take (below (a :: b :: rest).length)))
      (root h ((a :: b :: rest).drop (below (a :: b :: rest).length))))
termination_by l => l.length
decreasing_by
  · rw [length_take_below (by simp)]
    exact below_lt (by simp)
  · rw [List.length_drop]
    exact sub_below_lt (by simp)

@[simp] theorem root_nil (h : Query ε δ → δ) : root h [] = h .empty := by
  rw [root]

@[simp] theorem root_singleton (h : Query ε δ → δ) (e : ε) : root h [e] = h (.leaf e) := by
  rw [root]

theorem root_split (h : Query ε δ → δ) {l : List ε} (hl : 2 ≤ l.length) :
    root h l = h (.node (root h (l.take (below l.length))) (root h (l.drop (below l.length)))) := by
  match l with
  | a :: b :: rest => rw [root]

/-- What computing the tree hash hashes. -/
def treeQueries (h : Query ε δ → δ) : List ε → List (Query ε δ)
  | [] => [.empty]
  | [e] => [.leaf e]
  | a :: b :: rest =>
    .node (root h ((a :: b :: rest).take (below (a :: b :: rest).length)))
      (root h ((a :: b :: rest).drop (below (a :: b :: rest).length))) ::
    (treeQueries h ((a :: b :: rest).take (below (a :: b :: rest).length)) ++
      treeQueries h ((a :: b :: rest).drop (below (a :: b :: rest).length)))
termination_by l => l.length
decreasing_by
  · rw [length_take_below (by simp)]
    exact below_lt (by simp)
  · rw [List.length_drop]
    exact sub_below_lt (by simp)

theorem treeQueries_singleton (h : Query ε δ → δ) (e : ε) : treeQueries h [e] = [.leaf e] := by
  rw [treeQueries]

theorem treeQueries_split (h : Query ε δ → δ) {l : List ε} (hl : 2 ≤ l.length) :
    treeQueries h l =
      .node (root h (l.take (below l.length))) (root h (l.drop (below l.length))) ::
        (treeQueries h (l.take (below l.length)) ++ treeQueries h (l.drop (below l.length))) := by
  match l with
  | a :: b :: rest => rw [treeQueries]

section Membership
variable (h : Query ε δ → δ) {l : List ε} (hl : 2 ≤ l.length)
include hl

theorem node_mem_treeQueries :
    .node (root h (l.take (below l.length))) (root h (l.drop (below l.length))) ∈
      treeQueries h l := by
  rw [treeQueries_split h hl]
  exact List.mem_cons_self

theorem treeQueries_take_subset : ∀ q ∈ treeQueries h (l.take (below l.length)),
    q ∈ treeQueries h l := by
  intro q hq
  rw [treeQueries_split h hl]
  exact List.mem_cons_of_mem _ (List.mem_append_left _ hq)

theorem treeQueries_drop_subset : ∀ q ∈ treeQueries h (l.drop (below l.length)),
    q ∈ treeQueries h l := by
  intro q hq
  rw [treeQueries_split h hl]
  exact List.mem_cons_of_mem _ (List.mem_append_right _ hq)

end Membership

/-- Lists of one length with one tree hash are equal, unless two of their queries
collide. -/
theorem root_injective (h : Query ε δ → δ) {l l' : List ε} (hlen : l.length = l'.length)
    (hcf : CollisionFree h (treeQueries h l ++ treeQueries h l')) (hroot : root h l = root h l') :
    l = l' := by
  induction l using split_induction generalizing l' with
  | nil => exact (List.eq_nil_of_length_eq_zero hlen.symm).symm
  | singleton a =>
    obtain ⟨b, rfl⟩ := List.length_eq_one_iff.mp hlen.symm
    rw [treeQueries_singleton, treeQueries_singleton] at hcf
    rw [root_singleton, root_singleton] at hroot
    have := hcf (.leaf a) (by simp) (.leaf b) (by simp) hroot
    simpa using this
  | split l h2 ihl ihr =>
    have h2' : 2 ≤ l'.length := hlen ▸ h2
    rw [root_split h h2, root_split h h2'] at hroot
    have hnode := hcf _ (List.mem_append_left _ (node_mem_treeQueries h h2)) _
      (List.mem_append_right _ (node_mem_treeQueries h h2')) hroot
    obtain ⟨hleft, hright⟩ := Query.node.inj hnode
    have htake := ihl (by simp [hlen]) (hcf.mono (by
      intro q hq
      rcases List.mem_append.mp hq with hq | hq
      · exact List.mem_append_left _ (treeQueries_take_subset h h2 q hq)
      · exact List.mem_append_right _ (treeQueries_take_subset h h2' q hq))) hleft
    have hdrop := ihr (by simp [hlen]) (hcf.mono (by
      intro q hq
      rcases List.mem_append.mp hq with hq | hq
      · exact List.mem_append_left _ (treeQueries_drop_subset h h2 q hq)
      · exact List.mem_append_right _ (treeQueries_drop_subset h h2' q hq))) hright
    calc l = l.take (below l.length) ++ l.drop (below l.length) := (List.take_append_drop _ _).symm
      _ = l'.take (below l'.length) ++ l'.drop (below l'.length) := by rw [htake, hdrop]
      _ = l' := List.take_append_drop _ _

/-- Past the split, a prefix splits where the whole does. -/
theorem root_take (h : Query ε δ → δ) {l : List ε} {m : Nat} (hlo : below l.length < m)
    (hhi : m ≤ l.length) :
    root h (l.take m) =
      h (.node (root h (l.take (below l.length)))
        (root h ((l.drop (below l.length)).take (m - below l.length)))) := by
  have hpos := below_pos l.length
  have hlen : (l.take m).length = m := by simp [hhi]
  rw [root_split h (by omega), hlen, below_stable hlo hhi, List.take_take, List.drop_take,
    Nat.min_eq_left (by omega)]

theorem treeQueries_take (h : Query ε δ → δ) {l : List ε} {m : Nat} (hlo : below l.length < m)
    (hhi : m ≤ l.length) :
    treeQueries h (l.take m) =
      .node (root h (l.take (below l.length)))
          (root h ((l.drop (below l.length)).take (m - below l.length))) ::
        (treeQueries h (l.take (below l.length)) ++
          treeQueries h ((l.drop (below l.length)).take (m - below l.length))) := by
  have hpos := below_pos l.length
  have hlen : (l.take m).length = m := by simp [hhi]
  rw [treeQueries_split h (by omega), hlen, below_stable hlo hhi, List.take_take, List.drop_take,
    Nat.min_eq_left (by omega)]

/-! ### Paths -/

/-- The siblings on the way from entry `i` to the root, deepest first. -/
def auditPath (h : Query ε δ → δ) (l : List ε) (i : Nat) : List δ :=
  if _ : 2 ≤ l.length then
    if i < below l.length then
      auditPath h (l.take (below l.length)) i ++ [root h (l.drop (below l.length))]
    else
      auditPath h (l.drop (below l.length)) (i - below l.length) ++
        [root h (l.take (below l.length))]
  else []
termination_by l.length
decreasing_by
  · rw [length_take_below (by assumption)]
    exact below_lt (by assumption)
  · rw [List.length_drop]
    exact sub_below_lt (by assumption)

theorem auditPath_of_length (h : Query ε δ → δ) {l : List ε} (hl : l.length = 1) (i : Nat) :
    auditPath h l i = [] := by
  rw [auditPath, dif_neg (by omega)]

theorem auditPath_left (h : Query ε δ → δ) {l : List ε} (hl : 2 ≤ l.length) {i : Nat}
    (hi : i < below l.length) :
    auditPath h l i =
      auditPath h (l.take (below l.length)) i ++ [root h (l.drop (below l.length))] := by
  conv_lhs => rw [auditPath, dif_pos hl, if_pos hi]

theorem auditPath_right (h : Query ε δ → δ) {l : List ε} (hl : 2 ≤ l.length) {i : Nat}
    (hi : ¬ i < below l.length) :
    auditPath h l i =
      auditPath h (l.drop (below l.length)) (i - below l.length) ++
        [root h (l.take (below l.length))] := by
  conv_lhs => rw [auditPath, dif_pos hl, if_neg hi]

/-- The nodes that prove the first `m` entries a prefix, deepest first. `complete`
says that the reader already has the hash of those entries as one subtree. -/
def subproof (h : Query ε δ → δ) (m : Nat) (l : List ε) (complete : Bool) : List δ :=
  if _ : m < l.length ∧ 2 ≤ l.length then
    if m ≤ below l.length then
      subproof h m (l.take (below l.length)) complete ++ [root h (l.drop (below l.length))]
    else
      subproof h (m - below l.length) (l.drop (below l.length)) false ++
        [root h (l.take (below l.length))]
  else if complete then [] else [root h l]
termination_by l.length
decreasing_by
  · have h2 : 2 ≤ l.length := by omega
    rw [length_take_below h2]
    exact below_lt h2
  · rw [List.length_drop]
    exact sub_below_lt (by omega)

theorem subproof_all (h : Query ε δ → δ) (l : List ε) (complete : Bool) :
    subproof h l.length l complete = if complete then [] else [root h l] := by
  rw [subproof, dif_neg (by omega)]

theorem subproof_left (h : Query ε δ → δ) {l : List ε} {m : Nat} (hl : 2 ≤ l.length)
    (hm : m ≤ below l.length) (complete : Bool) :
    subproof h m l complete =
      subproof h m (l.take (below l.length)) complete ++ [root h (l.drop (below l.length))] := by
  have := below_lt hl
  conv_lhs => rw [subproof, dif_pos ⟨by omega, hl⟩, if_pos hm]

theorem subproof_right (h : Query ε δ → δ) {l : List ε} {m : Nat} (hlt : m < l.length)
    (hm : ¬ m ≤ below l.length) (complete : Bool) :
    subproof h m l complete =
      subproof h (m - below l.length) (l.drop (below l.length)) false ++
        [root h (l.take (below l.length))] := by
  have := below_pos l.length
  conv_lhs => rw [subproof, dif_pos ⟨hlt, by omega⟩, if_neg hm]

/-- The proof that the first `m` entries are a prefix. The empty prefix needs none. -/
def consistencyProof (h : Query ε δ → δ) (m : Nat) (l : List ε) : List δ :=
  if m = 0 then [] else subproof h m l true

/-- A path is no longer than the tree is high. -/
theorem length_auditPath_le (h : Query ε δ → δ) {l : List ε} (height : Nat)
    (hl : l.length ≤ 2 ^ height) (i : Nat) : (auditPath h l i).length ≤ height := by
  induction l using split_induction generalizing height i with
  | nil => rw [auditPath, dif_neg (by simp)]; simp
  | singleton a => rw [auditPath_of_length h rfl]; simp
  | split l h2 ihl ihr =>
    obtain ⟨k, rfl⟩ := height_pos h2 hl
    by_cases hi : i < below l.length
    · rw [auditPath_left h h2 hi, List.length_append]
      have := ihl k (by rw [length_take_below h2]; exact below_le_two_pow h2 hl) i
      simpa using this
    · rw [auditPath_right h h2 hi, List.length_append]
      have := ihr k (by rw [List.length_drop]; exact sub_below_le_two_pow h2 hl)
        (i - below l.length)
      simpa using this

theorem length_subproof_le (h : Query ε δ → δ) {l : List ε} (height : Nat) {m : Nat} (hpos : 0 < m)
    (hm : m ≤ l.length) (hl : l.length ≤ 2 ^ height) (complete : Bool) :
    (subproof h m l complete).length ≤ height + 1 := by
  induction l using split_induction generalizing height m complete with
  | nil => simp at hm; omega
  | singleton a =>
    have : m = [a].length := by simp at hm ⊢; omega
    rw [this, subproof_all]
    split <;> simp
  | split l h2 ihl ihr =>
    by_cases heq : m = l.length
    · rw [heq, subproof_all]
      split <;> simp
    · obtain ⟨k, rfl⟩ := height_pos h2 hl
      have hlt : m < l.length := by omega
      by_cases hle : m ≤ below l.length
      · rw [subproof_left h h2 hle, List.length_append]
        have := ihl k hpos (by rw [length_take_below h2]; exact hle)
          (by rw [length_take_below h2]; exact below_le_two_pow h2 hl) complete
        simpa using this
      · rw [subproof_right h hlt hle, List.length_append]
        have := ihr k (m := m - below l.length) (by omega)
          (by rw [List.length_drop]; omega)
          (by rw [List.length_drop]; exact sub_below_le_two_pow h2 hl) false
        simpa using this

end Attest.Library.HashTree
