import Attest.Publication.Inclusion

/-! What an accepted consistency proof says.

`verify_consistency` rebuilds two roots from one path. While the walk stays on
left sides the old tree is one complete subtree of the new one, and its hash is
the caller's own old root, not a path node; the first step to the right ends
that. Accepted against the roots of two lists, the path says that the first is a
prefix of the second, and it is the one path that says so
(`verify_consistency_iff`). -/
namespace Attest.Publication.Merkle
open Library Library.HashTree

section
variable (sha256 : Bytes → Hash)

/-- What `consistencyRoots` hashes: the new node of each level, and the old one
where the old tree reaches past the split. -/
def consistencyQueries (oldSize newSize : Nat) (hold : 0 < oldSize) (hle : oldSize ≤ newSize)
    (knownOldRoot : Hash) (complete : Bool) (path : List Hash) : List (Query Bytes Hash) :=
  if _ : oldSize = newSize then
    []
  else if hleft : oldSize ≤ split newSize then
    consistencyQueries oldSize (split newSize) hold hleft knownOldRoot complete path ++
      match consistencyRoots sha256 oldSize (split newSize) hold hleft knownOldRoot complete path with
      | .ok ((_, left), right :: _) => [.node left right]
      | _ => []
  else
    consistencyQueries (oldSize - split newSize) (newSize - split newSize)
        (Nat.sub_pos_of_lt (Nat.lt_of_not_le hleft)) (Nat.sub_le_sub_right hle _) knownOldRoot false
        path ++
      match consistencyRoots sha256 (oldSize - split newSize) (newSize - split newSize)
        (Nat.sub_pos_of_lt (Nat.lt_of_not_le hleft)) (Nat.sub_le_sub_right hle _) knownOldRoot false
        path with
      | .ok ((oldRight, newRight), left :: _) => [.node left oldRight, .node left newRight]
      | _ => []
termination_by newSize
decreasing_by
  · exact split_lt (by omega)
  · have := split_pos newSize
    omega

/-- Every preimage hashed by `verifyConsistency` and by the two trees it relates. -/
def consistencyPreimages (old new : List Bytes) (path : List Hash) : List Bytes :=
  (treeQueries (query sha256) old ++ treeQueries (query sha256) new ++
    if h : 0 < old.length ∧ old.length ≤ new.length then
      consistencyQueries sha256 old.length new.length h.1 h.2 (mth sha256 old) true path
    else []).map preimage

end

variable {sha256 : Bytes → Hash}

/-! ### One level of the walk -/

section Level
variable {oldSize newSize : Nat} {hold : 0 < oldSize} {hle : oldSize ≤ newSize}
  {knownOldRoot : Hash} {path : List Hash}

theorem consistencyRoots_complete (heq : oldSize = newSize) :
    consistencyRoots sha256 oldSize newSize hold hle knownOldRoot true path =
      .ok ((knownOldRoot, knownOldRoot), path) := by
  rw [consistencyRoots, dif_pos heq]
  rfl

theorem consistencyRoots_equal (heq : oldSize = newSize) {roots : Hash × Hash}
    {rest : List Hash} :
    consistencyRoots sha256 oldSize newSize hold hle knownOldRoot false path =
        .ok (roots, rest) ↔
      ∃ r, path = r :: rest ∧ roots = (r, r) := by
  rw [consistencyRoots, dif_pos heq]
  cases path with
  | nil => simp [next, bind, Except.bind]
  | cons r tail =>
    simp only [next, bind, Except.bind, Bool.false_eq_true, if_false, Except.ok.injEq,
      Prod.mk.injEq, List.cons.injEq]
    constructor
    · rintro ⟨hroots, hrest⟩
      exact ⟨r, ⟨rfl, hrest⟩, hroots.symm⟩
    · rintro ⟨r', ⟨hr, hrest⟩, hroots⟩
      exact ⟨by rw [hroots, hr], hrest⟩

theorem consistencyRoots_left {complete : Bool} (hne : oldSize ≠ newSize)
    (hleft : oldSize ≤ split newSize) {roots : Hash × Hash} {rest : List Hash} :
    consistencyRoots sha256 oldSize newSize hold hle knownOldRoot complete path =
        .ok (roots, rest) ↔
      ∃ sub right, consistencyRoots sha256 oldSize (split newSize) hold hleft knownOldRoot complete
        path = .ok (sub, right :: rest) ∧ roots = (sub.1, nodeHash sha256 sub.2 right) := by
  rw [consistencyRoots, dif_neg hne, dif_pos hleft]
  exact bind_next_ok (f := fun (sub : Hash × Hash) right => (sub.1, nodeHash sha256 sub.2 right))

theorem consistencyRoots_right {complete : Bool} (hne : oldSize ≠ newSize)
    (hright : ¬ oldSize ≤ split newSize) {roots : Hash × Hash} {rest : List Hash} :
    consistencyRoots sha256 oldSize newSize hold hle knownOldRoot complete path =
        .ok (roots, rest) ↔
      ∃ sub left, consistencyRoots sha256 (oldSize - split newSize) (newSize - split newSize)
        (Nat.sub_pos_of_lt (Nat.lt_of_not_le hright)) (Nat.sub_le_sub_right hle _) knownOldRoot
        false path = .ok (sub, left :: rest) ∧
        roots = (nodeHash sha256 left sub.1, nodeHash sha256 left sub.2) := by
  rw [consistencyRoots, dif_neg hne, dif_neg hright]
  exact bind_next_ok (f := fun (sub : Hash × Hash) left =>
    (nodeHash sha256 left sub.1, nodeHash sha256 left sub.2))

theorem consistencyQueries_left (complete : Bool) (hle : oldSize ≤ newSize)
    (hne : oldSize ≠ newSize) (hleft : oldSize ≤ split newSize) {sub : Hash × Hash} {right : Hash} {rest : List Hash}
    (h : consistencyRoots sha256 oldSize (split newSize) hold hleft knownOldRoot complete path =
      .ok (sub, right :: rest)) :
    consistencyQueries sha256 oldSize newSize hold hle knownOldRoot complete path =
      consistencyQueries sha256 oldSize (split newSize) hold hleft knownOldRoot complete path ++
        [.node sub.2 right] := by
  rw [consistencyQueries, dif_neg hne, dif_pos hleft, h]

theorem consistencyQueries_right (complete : Bool) (hold : 0 < oldSize) (hle : oldSize ≤ newSize)
    (hne : oldSize ≠ newSize) (hright : ¬ oldSize ≤ split newSize) {sub : Hash × Hash} {left : Hash} {rest : List Hash}
    (h : consistencyRoots sha256 (oldSize - split newSize) (newSize - split newSize)
      (Nat.sub_pos_of_lt (Nat.lt_of_not_le hright)) (Nat.sub_le_sub_right hle _) knownOldRoot
      false path = .ok (sub, left :: rest)) :
    consistencyQueries sha256 oldSize newSize hold hle knownOldRoot complete path =
      consistencyQueries sha256 (oldSize - split newSize) (newSize - split newSize)
        (Nat.sub_pos_of_lt (Nat.lt_of_not_le hright)) (Nat.sub_le_sub_right hle _) knownOldRoot
        false path ++ [.node left sub.1, .node left sub.2] := by
  rw [consistencyQueries, dif_neg hne, dif_neg hright, h]

end Level

/-! ### The whole walk -/

/-- The consistency proof of a prefix rebuilds both roots, whatever follows it. -/
theorem consistencyRoots_subproof (entries : List Bytes) (n : Nat) (hlen : entries.length = n)
    (h64 : n < 2 ^ 64) (m : Nat) (hm : 0 < m) (hmn : m ≤ n) (known : Hash) (complete : Bool)
    (hknown : complete = true → known = mth sha256 (entries.take m)) (rest : List Hash) :
    consistencyRoots sha256 m n hm hmn known complete
        (subproof (query sha256) m entries complete ++ rest) =
      .ok ((mth sha256 (entries.take m), mth sha256 entries), rest) := by
  induction entries using split_induction generalizing n m complete rest with
  | nil => simp at hlen; omega
  | singleton a =>
    obtain rfl : 1 = n := hlen
    obtain rfl : m = 1 := by omega
    have hsub := subproof_all (query sha256) [a] complete
    cases complete with
    | true =>
      rw [consistencyRoots_complete rfl, hknown rfl]
      exact congrArg _ (by rw [show ([a] : List Bytes).length = 1 from rfl] at hsub; rw [hsub]; rfl)
    | false =>
      rw [consistencyRoots_equal rfl]
      rw [show ([a] : List Bytes).length = 1 from rfl] at hsub
      exact ⟨_, by rw [hsub]; rfl, rfl⟩
  | split l h2 ihl ihr =>
    subst hlen
    by_cases heq : m = l.length
    · subst heq
      have hsub := subproof_all (query sha256) l complete
      rw [List.take_length] at hknown ⊢
      cases complete with
      | true => rw [consistencyRoots_complete rfl, hknown rfl, hsub]; rfl
      | false =>
        rw [consistencyRoots_equal rfl]
        exact ⟨_, by rw [hsub]; rfl, rfl⟩
    · have hsplit := split_eq_below h2 h64
      have hlt := below_lt h2
      have hpos := below_pos l.length
      by_cases hle : m ≤ below l.length
      · rw [subproof_left _ h2 hle, List.append_assoc, consistencyRoots_left heq (hsplit ▸ hle)]
        have htake : (l.take (below l.length)).take m = l.take m := by
          rw [List.take_take, Nat.min_eq_left hle]
        refine ⟨_, _, ihl _ (by rw [hsplit, length_take_below h2]) (by omega) m hm _ complete
          (by rw [htake]; exact hknown) _, ?_⟩
        rw [htake, mth, mth, root_split _ h2]
        rfl
      · rw [subproof_right _ (by omega) hle, List.append_assoc,
          consistencyRoots_right heq (hsplit ▸ hle)]
        have hidx : m - split l.length = m - below l.length := by rw [hsplit]
        have hbelow := ihr (l.length - split l.length) (by rw [hsplit, List.length_drop]) (by omega)
          (m - split l.length) (by omega) (by omega) false (by intro h; cases h)
          ([mth sha256 (l.take (below l.length))] ++ rest)
        rw [← hidx]
        refine ⟨_, _, hbelow, ?_⟩
        rw [mth, mth, root_take _ (by omega) (by omega), root_split _ h2, hidx]
        rfl

/-- What a walk that ends at the root of `entries` has established: its nodes are
the subproof, the old root it rebuilt is the root of the prefix, and the prefix's
own tree was hashed on the way. -/
structure Rebuilt (sha256 : Bytes → Hash) (entries : List Bytes) (m : Nat) (complete : Bool)
    (queries : List (Query Bytes Hash)) (path rest : List Hash) (old : Hash) : Prop where
  path_eq : path = subproof (query sha256) m entries complete ++ rest
  old_eq : old = mth sha256 (entries.take m)
  hashed : ∀ q ∈ treeQueries (query sha256) (entries.take m),
    q ∈ treeQueries (query sha256) entries ++ queries

/-- Equal sizes: one node or the known root stands for the whole list. -/
theorem rebuilt_equal (entries : List Bytes) (n : Nat) (hlen : entries.length = n) (hn : 0 < n)
    (known : Hash) (complete : Bool) (path rest : List Hash) (old : Hash)
    (queries : List (Query Bytes Hash))
    (hok : consistencyRoots sha256 n n hn (Nat.le_refl n) known complete path =
      .ok ((old, mth sha256 entries), rest)) :
    Rebuilt sha256 entries n complete queries path rest old := by
  subst hlen
  have hsub := subproof_all (query sha256) entries complete
  have hall : entries.take entries.length = entries := List.take_length
  cases complete with
  | true =>
    rw [consistencyRoots_complete rfl] at hok
    obtain ⟨hroots, rfl⟩ := Prod.mk.inj (Except.ok.inj hok)
    obtain ⟨rfl, hnew⟩ := Prod.mk.inj hroots
    exact ⟨by rw [hsub]; rfl, by rw [hall]; exact hnew,
      fun q hq => List.mem_append_left _ (by rwa [hall] at hq)⟩
  | false =>
    obtain ⟨r, rfl, hroots⟩ := (consistencyRoots_equal rfl).mp hok
    obtain ⟨rfl, hnew⟩ := Prod.mk.inj hroots
    exact ⟨by rw [hsub, ← hnew]; rfl, by rw [hall]; exact hnew.symm,
      fun q hq => List.mem_append_left _ (by rwa [hall] at hq)⟩

theorem consistencyRoots_sound (entries : List Bytes) (n : Nat) (hlen : entries.length = n)
    (h64 : n < 2 ^ 64) (m : Nat) (hm : 0 < m) (hmn : m ≤ n) (known : Hash) (complete : Bool)
    (path rest : List Hash) (old : Hash)
    (hcf : CollisionFree (query sha256) (treeQueries (query sha256) entries ++
      consistencyQueries sha256 m n hm hmn known complete path))
    (hok : consistencyRoots sha256 m n hm hmn known complete path =
      .ok ((old, mth sha256 entries), rest)) :
    Rebuilt sha256 entries m complete (consistencyQueries sha256 m n hm hmn known complete path)
      path rest old := by
  induction entries using split_induction generalizing n m complete rest old with
  | nil => simp at hlen; omega
  | singleton a =>
    obtain rfl : 1 = n := hlen
    obtain rfl : m = 1 := by omega
    exact rebuilt_equal [a] 1 rfl hm known complete path rest old _ hok
  | split l h2 ihl ihr =>
    subst hlen
    by_cases heq : m = l.length
    · subst heq
      exact rebuilt_equal l _ rfl hm known complete path rest old _ hok
    · have hsplit := split_eq_below h2 h64
      have hlt := below_lt h2
      have hpos := below_pos l.length
      have hnode := List.mem_append_left
        (consistencyQueries sha256 m l.length hm hmn known complete path)
        (node_mem_treeQueries (query sha256) h2)
      by_cases hle : m ≤ below l.length
      · have hle' : m ≤ split l.length := hsplit ▸ hle
        obtain ⟨⟨subOld, subNew⟩, right, hbelow, hroots⟩ := (consistencyRoots_left heq hle').mp hok
        obtain ⟨rfl, hnew⟩ := Prod.mk.inj hroots
        have hqueries := consistencyQueries_left complete hmn heq hle' hbelow
        rw [mth, root_split _ h2] at hnew
        obtain ⟨rfl, rfl⟩ := Query.node.inj (hcf _ hnode (.node subNew right)
          (by rw [hqueries]; simp) hnew)
        have htake : (l.take (below l.length)).take m = l.take m := by
          rw [List.take_take, Nat.min_eq_left hle]
        have ih := ihl _ (by rw [hsplit, length_take_below h2]) (by omega) m hm hle' complete _ _
          (hcf.mono (by
            intro q hq
            rw [hqueries]
            rcases List.mem_append.mp hq with hq | hq
            · exact List.mem_append_left _ (treeQueries_take_subset _ h2 q hq)
            · exact List.mem_append_right _ (List.mem_append_left _ hq))) hbelow
        refine ⟨?_, ?_, ?_⟩
        · rw [ih.path_eq, subproof_left _ h2 hle, List.append_assoc]
          rfl
        · rw [ih.old_eq, htake]
        · intro q hq
          rw [hqueries]
          rcases List.mem_append.mp (ih.hashed q (by rwa [htake])) with hq | hq
          · exact List.mem_append_left _ (treeQueries_take_subset _ h2 q hq)
          · exact List.mem_append_right _ (List.mem_append_left _ hq)
      · have hgt : ¬ m ≤ split l.length := hsplit ▸ hle
        obtain ⟨⟨subOld, subNew⟩, left, hbelow, hroots⟩ := (consistencyRoots_right heq hgt).mp hok
        obtain ⟨hold, hnew⟩ := Prod.mk.inj hroots
        have hqueries := consistencyQueries_right complete hm hmn heq hgt hbelow
        rw [mth, root_split _ h2] at hnew
        obtain ⟨rfl, rfl⟩ := Query.node.inj (hcf _ hnode (.node left subNew)
          (by rw [hqueries]; simp) hnew)
        have ih := ihr (l.length - split l.length) (by rw [hsplit, List.length_drop]) (by omega)
          (m - split l.length) (by omega) (by omega) false _ _ (hcf.mono (by
            intro q hq
            rw [hqueries]
            rcases List.mem_append.mp hq with hq | hq
            · exact List.mem_append_left _ (treeQueries_drop_subset _ h2 q hq)
            · exact List.mem_append_right _ (List.mem_append_left _ hq))) hbelow
        have hidx : m - split l.length = m - below l.length := by rw [hsplit]
        have hold' : subOld = root (query sha256) ((l.drop (below l.length)).take
            (m - below l.length)) := by rw [ih.old_eq, hidx]; rfl
        refine ⟨?_, ?_, ?_⟩
        · rw [ih.path_eq, subproof_right _ (by omega) hle, List.append_assoc, hidx]
          rfl
        · have hroot := root_take (query sha256) (Nat.lt_of_not_le hle) hmn
          rw [← hold'] at hroot
          rw [hold, mth, hroot]
          rfl
        · intro q hq
          rw [treeQueries_take _ (Nat.lt_of_not_le hle) hmn, ← hold'] at hq
          rw [hqueries]
          rcases List.mem_cons.mp hq with rfl | hq
          · simp
          · rcases List.mem_append.mp hq with hq | hq
            · exact List.mem_append_left _ (treeQueries_take_subset _ h2 q hq)
            · rcases List.mem_append.mp (ih.hashed q (by rw [hidx]; exact hq)) with hq | hq
              · exact List.mem_append_left _ (treeQueries_drop_subset _ h2 q hq)
              · exact List.mem_append_right _ (List.mem_append_left _ hq)

/-! ### The verifier -/

theorem size_le_of_verifyConsistency {oldSize newSize : Nat} {oldRoot newRoot : Hash}
    {path : List Hash}
    (h : verifyConsistency sha256 oldSize newSize oldRoot newRoot path = .ok ()) :
    oldSize ≤ newSize := by
  by_contra hgt
  rw [verifyConsistency, dif_neg hgt] at h
  cases h

/-- Sizes that differ, both positive: the walk decides. -/
theorem verifyConsistency_ok {oldSize newSize : Nat} {oldRoot newRoot : Hash} {path : List Hash}
    (hold : 0 < oldSize) (hlt : oldSize < newSize) :
    verifyConsistency sha256 oldSize newSize oldRoot newRoot path = .ok () ↔
      path.length ≤ maxProofNodes ∧
        consistencyRoots sha256 oldSize newSize hold (Nat.le_of_lt hlt) oldRoot true path =
          .ok ((oldRoot, newRoot), []) := by
  unfold verifyConsistency
  rw [dif_pos (Nat.le_of_lt hlt)]
  by_cases hlen : path.length ≤ maxProofNodes
  · rw [if_pos hlen, if_neg (by omega), dif_neg (by omega)]
    cases hr : consistencyRoots sha256 oldSize newSize hold (Nat.le_of_lt hlt) oldRoot true path with
    | error e => simp [bind, Except.bind]
    | ok r =>
      obtain ⟨⟨calculatedOld, calculatedNew⟩, remaining⟩ := r
      by_cases hrem : remaining = [] <;> by_cases hroots : calculatedOld = oldRoot ∧
        calculatedNew = newRoot <;> simp [bind, Except.bind, hlen, hrem, hroots]
  · simp [hlen]

/-- An empty old tree is connected to any new one by the empty path alone. -/
theorem verifyConsistency_zero {newSize : Nat} {newRoot : Hash} {path : List Hash}
    (hpos : 0 < newSize) :
    verifyConsistency sha256 0 newSize (emptyRoot sha256) newRoot path = .ok () ↔ path = [] := by
  unfold verifyConsistency
  rw [dif_pos (Nat.zero_le _)]
  by_cases hpath : path = []
  · simp [hpath, show ¬ 0 = newSize by omega]
  · by_cases hlen : path.length ≤ maxProofNodes <;>
      simp [hpath, hlen, show ¬ 0 = newSize by omega]

/-- Checkpoints of one size agree by their roots alone. -/
theorem verifyConsistency_equal {size : Nat} {oldRoot newRoot : Hash} {path : List Hash}
    (hempty : size = 0 → oldRoot = emptyRoot sha256) :
    verifyConsistency sha256 size size oldRoot newRoot path = .ok () ↔
      path = [] ∧ oldRoot = newRoot := by
  unfold verifyConsistency
  rw [dif_pos (Nat.le_refl _)]
  by_cases hpath : path = []
  · by_cases hroot : oldRoot = newRoot
    · by_cases hsize : size = 0
      · simp [hpath, hroot, hsize, ← hempty hsize]
      · simp [hpath, hroot, hsize]
    · simp [hpath, hroot]
  · by_cases hlen : path.length ≤ maxProofNodes <;> simp [hpath, hlen]

/-- One size needs no nodes: its proof is empty. -/
theorem consistencyProof_length (h : Query Bytes Hash → Hash) (entries : List Bytes) :
    consistencyProof h entries.length entries = [] := by
  unfold consistencyProof
  split
  · rfl
  · rw [subproof_all]
    rfl

/-- The empty prefix has the empty tree's root. -/
theorem mth_of_length_zero {entries : List Bytes} (h0 : entries.length = 0) :
    mth sha256 entries = emptyRoot sha256 := by
  rw [List.eq_nil_of_length_eq_zero h0, mth, root_nil]
  rfl

/-- The consistency proof of a prefix is accepted, without any assumption on the
hash. -/
theorem verifyConsistency_consistencyProof (sha256 : Bytes → Hash) {old new : List Bytes}
    (h64 : new.length < 2 ^ 64) (hpre : old <+: new) :
    verifyConsistency sha256 old.length new.length (mth sha256 old) (mth sha256 new)
      (consistencyProof (query sha256) old.length new) = .ok () := by
  have hle := hpre.length_le
  rcases Nat.eq_or_lt_of_le hle with heq | hlt
  · obtain rfl := hpre.eq_of_length heq
    exact (verifyConsistency_equal mth_of_length_zero).mpr ⟨consistencyProof_length _ _, rfl⟩
  · by_cases h0 : old.length = 0
    · rw [h0, mth_of_length_zero h0, verifyConsistency_zero (by omega)]
      rfl
    · have hpos : 0 < old.length := Nat.pos_of_ne_zero h0
      have hold : new.take old.length = old := (List.prefix_iff_eq_take.mp hpre).symm
      unfold consistencyProof
      rw [if_neg h0, verifyConsistency_ok hpos hlt]
      refine ⟨length_subproof_le _ 64 hpos hle (Nat.le_of_lt h64) true, ?_⟩
      have := @consistencyRoots_subproof sha256 new _ rfl h64 old.length hpos hle
        (mth sha256 old) true (fun _ => by rw [hold]) []
      rwa [List.append_nil, hold] at this

/-- An accepted path connects a prefix, and it is that prefix's proof. -/
theorem verifyConsistency_sound {old new : List Bytes} (hle : old.length ≤ new.length)
    (h64 : new.length < 2 ^ 64) {path : List Hash}
    (hcf : CollisionFree (query sha256) (treeQueries (query sha256) old ++
      treeQueries (query sha256) new ++
      if h : 0 < old.length ∧ old.length ≤ new.length then
        consistencyQueries sha256 old.length new.length h.1 h.2 (mth sha256 old) true path
      else []))
    (hok : verifyConsistency sha256 old.length new.length (mth sha256 old) (mth sha256 new) path =
      .ok ()) :
    old <+: new ∧ path = consistencyProof (query sha256) old.length new := by
  rcases Nat.eq_or_lt_of_le hle with heq | hlt
  · -- one size: the roots agree exactly when the lists do
    rw [← heq, verifyConsistency_equal mth_of_length_zero] at hok
    obtain ⟨rfl, hroot⟩ := hok
    obtain rfl := root_injective (query sha256) heq
      (hcf.mono (fun q hq => List.mem_append_left _ hq)) hroot
    exact ⟨List.prefix_rfl, (consistencyProof_length _ _).symm⟩
  · by_cases h0 : old.length = 0
    · rw [h0, mth_of_length_zero h0, verifyConsistency_zero (by omega)] at hok
      rw [h0, List.eq_nil_of_length_eq_zero h0]
      exact ⟨List.nil_prefix, hok⟩
    · have hpos : 0 < old.length := Nat.pos_of_ne_zero h0
      obtain ⟨_, hroots⟩ := (verifyConsistency_ok hpos hlt).mp hok
      rw [dif_pos ⟨hpos, hle⟩, List.append_assoc] at hcf
      have hbuilt := consistencyRoots_sound new _ rfl h64 old.length hpos hle _ true path [] _
        (hcf.mono (fun q hq => List.mem_append_right _ hq)) hroots
      have hold : old = new.take old.length := by
        refine root_injective (query sha256) (by simp [hle]) (hcf.mono ?_) hbuilt.old_eq
        intro q hq
        rcases List.mem_append.mp hq with hq | hq
        · exact List.mem_append_left _ hq
        · exact List.mem_append_right _ (hbuilt.hashed q hq)
      refine ⟨?_, ?_⟩
      · rw [hold]
        exact List.take_prefix _ _
      · unfold consistencyProof
        rw [if_neg h0, hbuilt.path_eq, List.append_nil]

/-- **A consistency proof is accepted for a prefix and one path only.** This is
append-only growth: nothing that was under the old root has changed under the
new one. -/
theorem verify_consistency_iff (old new : List Bytes) (hle : old.length ≤ new.length)
    (h64 : new.length < 2 ^ 64) (path : List Hash)
    (hcf : CollisionFree sha256 (consistencyPreimages sha256 old new path)) :
    verifyConsistency sha256 old.length new.length (mth sha256 old) (mth sha256 new) path = .ok () ↔
      old <+: new ∧ path = consistencyProof (query sha256) old.length new := by
  constructor
  · exact verifyConsistency_sound hle h64 (hcf.of_map preimage_injective)
  · rintro ⟨hpre, rfl⟩
    exact verifyConsistency_consistencyProof sha256 h64 hpre

/-- Two entries, then three: the first two are one complete subtree, so the path
is the third alone. -/
theorem verify_consistency_sample :
    verifyConsistency sampleSha256 2 3 (mth sampleSha256 (sampleEntries.take 2))
      (mth sampleSha256 sampleEntries) [nextDigest] = .ok () :=
  (verify_consistency_iff (sampleEntries.take 2) sampleEntries (by decide) (by decide) [nextDigest]
    (by decide +kernel)).mpr (by decide +kernel)

end Attest.Publication.Merkle
