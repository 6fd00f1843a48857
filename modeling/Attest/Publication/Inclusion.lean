import Attest.Publication.Merkle

/-! What an accepted inclusion proof says.

`verify_inclusion` walks down by index and size and consumes one path node per
level on the way back. Against the tree hash of a list it accepts exactly one
entry and one path for each index (`verify_inclusion_iff`): the entry at that
index and its audit path. Soundness peels one node per level, so it needs the
hashes of this tree and of this verification to be free of collisions, and
nothing about any other input. -/
namespace Attest.Publication.Merkle
open Library Library.HashTree

/-- The bytes hashed for a query: one domain byte, then the content. -/
def preimage : Query Bytes Hash → Bytes
  | .empty => []
  | .leaf entry => 0 :: entry
  | .node left right => 1 :: (left.toList ++ right.toList)

theorem preimage_injective : Function.Injective preimage := by
  intro p q h
  cases p <;> cases q <;> simp only [preimage, List.cons.injEq, reduceCtorEq] at h
  case empty.empty => rfl
  case leaf.leaf => rw [h.2]
  case leaf.node => exact absurd h.1 (by decide)
  case node.leaf => exact absurd h.1 (by decide)
  case node.node l r l' r' =>
    obtain ⟨hl, hr⟩ := List.append_inj h.2 (by simp)
    rw [Vector.toList_inj.mp hl, Vector.toList_inj.mp hr]

section
variable (sha256 : Bytes → Hash)

/-- The three hashes of the code as one. -/
def query (q : Query Bytes Hash) : Hash := sha256 (preimage q)

/-- The RFC 6962 root of a list of entries. -/
def mth (entries : List Bytes) : Hash := root (query sha256) entries

/-- What `inclusionRoot` hashes: one node per level, deepest first. -/
def inclusionQueries (index size : Nat) (hsize : 0 < size) (leaf : Hash) (path : List Hash) :
    List (Query Bytes Hash) :=
  if _ : size = 1 then
    []
  else if index < split size then
    inclusionQueries index (split size) (split_pos size) leaf path ++
      match inclusionRoot sha256 index (split size) (split_pos size) leaf path with
      | .ok (left, right :: _) => [.node left right]
      | _ => []
  else
    inclusionQueries (index - split size) (size - split size)
        (Nat.sub_pos_of_lt (split_lt (by omega))) leaf path ++
      match inclusionRoot sha256 (index - split size) (size - split size)
        (Nat.sub_pos_of_lt (split_lt (by omega))) leaf path with
      | .ok (right, left :: _) => [.node left right]
      | _ => []
termination_by size
decreasing_by
  · exact split_lt (by omega)
  · have := split_pos size
    omega

/-- Every preimage hashed by `verifyInclusion` and by the tree it is checked against. -/
def inclusionPreimages (entries : List Bytes) (entry : Bytes) (index : Nat) (path : List Hash) :
    List Bytes :=
  (treeQueries (query sha256) entries ++
    if h : 0 < entries.length then
      .leaf entry :: inclusionQueries sha256 index entries.length h (leafHash sha256 entry) path
    else []).map preimage

end

variable {sha256 : Bytes → Hash}

/-! ### One level of the walk -/

/-- A step that consumes one node succeeds when the walk below it left one. -/
theorem bind_next_ok {α β : Type} {x : Except String (α × List Hash)} {message : String}
    {f : α → Hash → β} {b : β} {rest : List Hash} :
    (do
      let (a, path) ← x
      let (node, path) ← next path message
      .ok (f a node, path)) = .ok (b, rest) ↔
    ∃ a node, x = .ok (a, node :: rest) ∧ b = f a node := by
  constructor
  · intro h
    match x, h with
    | .ok (a, node :: path), h =>
      obtain ⟨rfl, rfl⟩ := Prod.mk.inj (Except.ok.inj h)
      exact ⟨a, node, rfl, rfl⟩
  · rintro ⟨a, node, rfl, rfl⟩
    rfl

theorem inclusionRoot_one {index : Nat} {leaf : Hash} {path : List Hash} (h1 : 0 < 1) :
    inclusionRoot sha256 index 1 h1 leaf path = .ok (leaf, path) := by
  rw [inclusionRoot, dif_pos rfl]

theorem inclusionRoot_left {index size : Nat} {hsize : 0 < size} {leaf : Hash} {path : List Hash}
    (h2 : 2 ≤ size) (hi : index < split size) {r : Hash} {rest : List Hash} :
    inclusionRoot sha256 index size hsize leaf path = .ok (r, rest) ↔
      ∃ left right, inclusionRoot sha256 index (split size) (split_pos size) leaf path =
        .ok (left, right :: rest) ∧ r = nodeHash sha256 left right := by
  rw [inclusionRoot, dif_neg (by omega), if_pos hi]
  exact bind_next_ok

theorem inclusionRoot_right {index size : Nat} {hsize : 0 < size} {leaf : Hash}
    {path : List Hash} (h2 : 2 ≤ size) (hi : ¬ index < split size) {r : Hash} {rest : List Hash} :
    inclusionRoot sha256 index size hsize leaf path = .ok (r, rest) ↔
      ∃ right left, inclusionRoot sha256 (index - split size) (size - split size)
        (Nat.sub_pos_of_lt (split_lt h2)) leaf path =
        .ok (right, left :: rest) ∧ r = nodeHash sha256 left right := by
  rw [inclusionRoot, dif_neg (by omega), if_neg hi]
  exact bind_next_ok (f := fun right left => nodeHash sha256 left right)

theorem inclusionQueries_left {index size : Nat} (hsize : 0 < size) {leaf : Hash}
    {path : List Hash} (h2 : 2 ≤ size) (hi : index < split size) {left right : Hash}
    {rest : List Hash} (h : inclusionRoot sha256 index (split size) (split_pos size) leaf path =
      .ok (left, right :: rest)) :
    inclusionQueries sha256 index size hsize leaf path =
      inclusionQueries sha256 index (split size) (split_pos size) leaf path ++
        [.node left right] := by
  rw [inclusionQueries, dif_neg (by omega), if_pos hi, h]

theorem inclusionQueries_right {index size : Nat} (hsize : 0 < size) {leaf : Hash}
    {path : List Hash} (h2 : 2 ≤ size) (hi : ¬ index < split size) {left right : Hash}
    {rest : List Hash} (h : inclusionRoot sha256 (index - split size) (size - split size)
      (Nat.sub_pos_of_lt (split_lt h2)) leaf path = .ok (right, left :: rest)) :
    inclusionQueries sha256 index size hsize leaf path =
      inclusionQueries sha256 (index - split size) (size - split size)
        (Nat.sub_pos_of_lt (split_lt h2)) leaf path ++ [.node left right] := by
  rw [inclusionQueries, dif_neg (by omega), if_neg hi, h]

/-! ### The whole walk -/

/-- An audit path rebuilds the root, whatever follows it. -/
theorem inclusionRoot_auditPath (entries : List Bytes) (n : Nat) (hn : 0 < n)
    (hlen : entries.length = n) (h64 : n < 2 ^ 64) (index : Nat) (entry : Bytes)
    (he : entries[index]? = some entry) (rest : List Hash) :
    inclusionRoot sha256 index n hn (leafHash sha256 entry)
      (auditPath (query sha256) entries index ++ rest) = .ok (mth sha256 entries, rest) := by
  induction entries using split_induction generalizing n index rest with
  | nil => simp at he
  | singleton a =>
    obtain rfl : 1 = n := hlen
    have hi : index < 1 := (List.getElem?_eq_some_iff.mp he).1
    obtain rfl : index = 0 := by omega
    obtain rfl : a = entry := by simpa using he
    rw [inclusionRoot_one, auditPath_of_length _ rfl, mth, root_singleton]
    rfl
  | split l h2 ihl ihr =>
    subst hlen
    have hsplit := split_eq_below h2 h64
    have hlt := below_lt h2
    have hpos := below_pos l.length
    rw [mth, root_split _ h2]
    by_cases hi : index < below l.length
    · rw [auditPath_left _ h2 hi, List.append_assoc, inclusionRoot_left h2 (hsplit ▸ hi)]
      refine ⟨mth sha256 (l.take (below l.length)), mth sha256 (l.drop (below l.length)), ?_, rfl⟩
      exact ihl _ _ (by rw [hsplit, length_take_below h2]) (by omega) index
        (by rw [List.getElem?_take_of_lt hi]; exact he) _
    · rw [auditPath_right _ h2 hi, List.append_assoc, inclusionRoot_right h2 (hsplit ▸ hi)]
      refine ⟨mth sha256 (l.drop (below l.length)), mth sha256 (l.take (below l.length)), ?_, rfl⟩
      rw [show index - split l.length = index - below l.length by rw [hsplit]]
      refine ihr _ _ (by rw [hsplit, List.length_drop]) (by omega) _ ?_ _
      rw [List.getElem?_drop, Nat.add_sub_cancel' (by omega)]
      exact he

/-- A walk that ends at the root of a list started at its entry and consumed its
audit path: each level's node is the tree's own node there. -/
theorem inclusionRoot_sound (entries : List Bytes) (n : Nat) (hn : 0 < n)
    (hlen : entries.length = n) (h64 : n < 2 ^ 64) (index : Nat) (hi : index < n)
    (entry : Bytes) (path rest : List Hash)
    (hcf : CollisionFree (query sha256) (treeQueries (query sha256) entries ++
      .leaf entry :: inclusionQueries sha256 index n hn (leafHash sha256 entry) path))
    (hok : inclusionRoot sha256 index n hn (leafHash sha256 entry) path =
      .ok (mth sha256 entries, rest)) :
    entries[index]? = some entry ∧ path = auditPath (query sha256) entries index ++ rest := by
  induction entries using split_induction generalizing n index rest with
  | nil => simp at hlen; omega
  | singleton a =>
    obtain rfl : 1 = n := hlen
    obtain rfl : index = 0 := by omega
    rw [inclusionRoot_one] at hok
    obtain ⟨hleaf, rfl⟩ := Prod.mk.inj (Except.ok.inj hok)
    rw [mth, root_singleton] at hleaf
    have hentry := hcf (.leaf entry) (by simp) (.leaf a) (by simp [treeQueries_singleton]) hleaf
    rw [Query.leaf.inj hentry, auditPath_of_length _ rfl]
    exact ⟨rfl, rfl⟩
  | split l h2 ihl ihr =>
    subst hlen
    have hsplit := split_eq_below h2 h64
    have hlt := below_lt h2
    have hpos := below_pos l.length
    have hnode := List.mem_append_left
      (.leaf entry :: inclusionQueries sha256 index l.length hn (leafHash sha256 entry) path)
      (node_mem_treeQueries (query sha256) h2)
    by_cases hil : index < below l.length
    · obtain ⟨left, right, hbelow, hroot⟩ := (inclusionRoot_left h2 (hsplit ▸ hil)).mp hok
      have hqueries := inclusionQueries_left hn h2 (hsplit ▸ hil) hbelow
      rw [mth, root_split _ h2] at hroot
      -- the top node of the walk is the top node of the tree, so both sides agree
      obtain ⟨rfl, rfl⟩ := Query.node.inj (hcf _ hnode (.node left right)
        (by rw [hqueries]; simp) hroot)
      obtain ⟨hget, hpath⟩ := ihl _ _ (by rw [hsplit, length_take_below h2]) (by omega) index
        (by omega) _ (hcf.mono (by
          intro q hq
          rw [hqueries]
          rcases List.mem_append.mp hq with hq | hq
          · exact List.mem_append_left _ (treeQueries_take_subset _ h2 q hq)
          · rw [← List.cons_append]
            exact List.mem_append_right _ (List.mem_append_left _ hq))) hbelow
      refine ⟨?_, ?_⟩
      · rw [← List.getElem?_take_of_lt hil]
        exact hget
      · rw [hpath, auditPath_left _ h2 hil, List.append_assoc]
        rfl
    · obtain ⟨right, left, hbelow, hroot⟩ := (inclusionRoot_right h2 (hsplit ▸ hil)).mp hok
      have hqueries := inclusionQueries_right hn h2 (hsplit ▸ hil) hbelow
      rw [mth, root_split _ h2] at hroot
      obtain ⟨rfl, rfl⟩ := Query.node.inj (hcf _ hnode (.node left right)
        (by rw [hqueries]; simp) hroot)
      obtain ⟨hget, hpath⟩ := ihr _ _ (by rw [hsplit, List.length_drop]) (by omega)
        (index - split l.length) (by omega) _ (hcf.mono (by
          intro q hq
          rw [hqueries]
          rcases List.mem_append.mp hq with hq | hq
          · exact List.mem_append_left _ (treeQueries_drop_subset _ h2 q hq)
          · rw [← List.cons_append]
            exact List.mem_append_right _ (List.mem_append_left _ hq))) hbelow
      rw [hsplit] at hget hpath
      refine ⟨?_, ?_⟩
      · rw [List.getElem?_drop, Nat.add_sub_cancel' (by omega)] at hget
        exact hget
      · rw [hpath, auditPath_right _ h2 hil, List.append_assoc]
        rfl

/-! ### The verifier -/

theorem verifyInclusion_ok {entry : Bytes} {index size : Nat} {path : List Hash} {root : Hash}
    (hsize : 0 < size) :
    verifyInclusion sha256 entry index size path root = .ok () ↔
      index < size ∧ path.length ≤ maxInclusionNodes ∧
        inclusionRoot sha256 index size hsize (leafHash sha256 entry) path = .ok (root, []) := by
  unfold verifyInclusion
  by_cases hi : index < size
  · by_cases hlen : path.length ≤ maxInclusionNodes
    · rw [dif_pos ⟨hsize, hi⟩, if_pos hlen]
      cases hr : inclusionRoot sha256 index size hsize (leafHash sha256 entry) path with
      | error e => simp [bind, Except.bind]
      | ok r =>
        obtain ⟨calculated, remaining⟩ := r
        by_cases hrem : remaining = [] <;> by_cases hroot : calculated = root <;>
          simp [bind, Except.bind, hi, hlen, hrem, hroot]
    · simp [hi, hsize, hlen]
  · simp [hi]

theorem index_lt_of_verifyInclusion {entry : Bytes} {index size : Nat} {path : List Hash}
    {root : Hash} (h : verifyInclusion sha256 entry index size path root = .ok ()) :
    index < size := by
  by_contra hge
  rw [verifyInclusion, dif_neg fun hsize => hge hsize.2] at h
  cases h

/-- The audit path of an entry is accepted, without any assumption on the hash. -/
theorem verifyInclusion_auditPath (sha256 : Bytes → Hash) (entries : List Bytes)
    (h64 : entries.length < 2 ^ 64) {entry : Bytes} {index : Nat}
    (hget : entries[index]? = some entry) :
    verifyInclusion sha256 entry index entries.length (auditPath (query sha256) entries index)
      (mth sha256 entries) = .ok () := by
  have hi : index < entries.length := (List.getElem?_eq_some_iff.mp hget).1
  have hpos : 0 < entries.length := by omega
  rw [verifyInclusion_ok hpos]
  refine ⟨hi, length_auditPath_le _ 64 (Nat.le_of_lt h64) index, ?_⟩
  have := @inclusionRoot_auditPath sha256 entries _ hpos rfl h64 index entry hget []
  rwa [List.append_nil] at this

/-- An accepted path shows the entry at the index, and it is that entry's path. -/
theorem verifyInclusion_sound {entries : List Bytes} (hpos : 0 < entries.length)
    (h64 : entries.length < 2 ^ 64) {entry : Bytes} {index : Nat} {path : List Hash}
    (hcf : CollisionFree sha256 (inclusionPreimages sha256 entries entry index path))
    (hok : verifyInclusion sha256 entry index entries.length path (mth sha256 entries) = .ok ()) :
    index < entries.length ∧ entries[index]? = some entry ∧
      path = auditPath (query sha256) entries index := by
  obtain ⟨hi, _, hroot⟩ := (verifyInclusion_ok hpos).mp hok
  unfold inclusionPreimages at hcf
  rw [dif_pos hpos] at hcf
  obtain ⟨hget, hpath⟩ := inclusionRoot_sound entries _ hpos rfl h64 index hi entry path []
    (hcf.of_map preimage_injective) hroot
  exact ⟨hi, hget, by rw [hpath, List.append_nil]⟩

/-- **An inclusion proof is accepted for one entry and one path only**: against
the root of a list, the entry at that index with its audit path, whatever else
was offered. -/
theorem verify_inclusion_iff (entries : List Bytes) (hne : entries ≠ [])
    (h64 : entries.length < 2 ^ 64) (entry : Bytes) (index : Nat) (path : List Hash)
    (hcf : CollisionFree sha256 (inclusionPreimages sha256 entries entry index path)) :
    verifyInclusion sha256 entry index entries.length path (mth sha256 entries) = .ok () ↔
      index < entries.length ∧ entries[index]? = some entry ∧
        path = auditPath (query sha256) entries index := by
  constructor
  · exact verifyInclusion_sound (List.length_pos_iff.mpr hne) h64 hcf
  · rintro ⟨_, hget, rfl⟩
    exact verifyInclusion_auditPath sha256 entries h64 hget

/-! ### Three real entries -/

/-- The digest a hexadecimal number spells. -/
def digest (n : Nat) : Hash := Vector.ofFn fun i => UInt8.ofNat (n / 256 ^ (31 - i.val) % 256)

/-- `left`, `right` and `next`, in ASCII. -/
def sampleEntries : List Bytes :=
  [[108, 101, 102, 116], [114, 105, 103, 104, 116], [110, 101, 120, 116]]

def leftDigest : Hash := digest 0x01962b1487de45a9d576221730d16b71a9ca4f415d0dc09f17c82924169d5699
def rightDigest : Hash := digest 0x30aba2b15f763876e973e07e7d72188891250bae86ae3d9ec56d48733dee335d
def nextDigest : Hash := digest 0x3b3f4326f1571ec26617c6123f9100a3569c95da0e42c308efef12d7f998b583
def pairDigest : Hash := digest 0x1874cd299c46a25f29b011c268dc6d4c73a9d70e601d68d3e1eee359a50ae6dc
def tripleDigest : Hash :=
  digest 0xfd41734b23e91bf71c637448728526f578b59b13546b46cd8e6b60f60964b0d7

/-- SHA-256 on the preimages of the three entries' trees. -/
def sampleSha256 (preimage : Bytes) : Hash :=
  (List.lookup preimage
    [([], digest 0xe3b0c44298fc1c149afbf4c8996fb92427ae41e4649b934ca495991b7852b855),
      ([0, 108, 101, 102, 116], leftDigest),
      ([0, 114, 105, 103, 104, 116], rightDigest),
      ([0, 110, 101, 120, 116], nextDigest),
      (1 :: (leftDigest.toList ++ rightDigest.toList), pairDigest),
      (1 :: (pairDigest.toList ++ nextDigest.toList), tripleDigest)]).getD (digest 0)

/-- The third of three entries, by the hash of the other two. -/
theorem verify_inclusion_sample :
    verifyInclusion sampleSha256 [110, 101, 120, 116] 2 3 [pairDigest]
      (mth sampleSha256 sampleEntries) = .ok () :=
  (verify_inclusion_iff sampleEntries (by decide) (by decide) [110, 101, 120, 116] 2 [pairDigest]
    (by decide +kernel)).mpr (by decide +kernel)

end Attest.Publication.Merkle
