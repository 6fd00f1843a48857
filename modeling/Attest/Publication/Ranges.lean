import Attest.Publication.TileProofs

/-! The ranges of proofs, in words of 64 bits.

The two walks and the two verifiers compute on `u64`. Here they are written again with arithmetic
that stops where a word overflows and with a bound on the depth of calls, and they stop nowhere
(`inclusionWords_eq` and the three after it). The ranges are what RFC 6962 asks for: with the leaf,
or with the old tree where its hash is left out, they cut the tree into nodes of its own, in the
order in which a verifier takes their hashes. -/
namespace Attest.Publication.Tiles
open Library Library.HashTree Merkle

/-! ### Arithmetic on words -/

def checkedAdd (a b : Nat) : Option Nat := if a + b < 2 ^ 64 then some (a + b) else none

def checkedSub (a b : Nat) : Option Nat := if b ≤ a then some (a - b) else none

/-- A shift by the width or more is refused; bits that leave the word are lost. -/
def checkedShl (a n : Nat) : Option Nat := if n < 64 then some (a <<< n % 2 ^ 64) else none

def splitWord (size : Nat) : Option Nat := do
  let last ← checkedSub size 1
  let bit ← checkedSub 63 (leadingZeros last)
  checkedShl 1 bit

/-- `walk` of `inclusion_ranges`, with so many calls below each other. -/
def inclusionWords : Nat → Nat → Nat → Nat → Option (List (Nat × Nat))
  | 0, _, _, _ => none
  | depth + 1, index, start, size =>
    if size = 1 then some []
    else do
      let k ← splitWord size
      let middle ← checkedAdd start k
      let rest ← checkedSub size k
      if index < k then
        let out ← inclusionWords depth index start k
        return out ++ [(middle, rest)]
      else
        let inner ← checkedSub index k
        let out ← inclusionWords depth inner middle rest
        return out ++ [(start, k)]

/-- `walk` of `consistency_ranges`. -/
def consistencyWords : Nat → Nat → Nat → Nat → Bool → Option (List (Nat × Nat))
  | 0, _, _, _, _ => none
  | depth + 1, old, start, size, complete =>
    if old = size then some (if complete then [] else [(start, size)])
    else do
      let k ← splitWord size
      let middle ← checkedAdd start k
      let rest ← checkedSub size k
      if old ≤ k then
        let out ← consistencyWords depth old start k complete
        return out ++ [(middle, rest)]
      else
        let inner ← checkedSub old k
        let out ← consistencyWords depth inner middle rest false
        return out ++ [(start, k)]

section Verifiers
variable (sha256 : Bytes → Hash)

/-- `inclusion_root`. -/
def inclusionRootWords : Nat → Nat → Nat → Hash → List Hash →
    Option (Except String (Hash × List Hash))
  | 0, _, _, _, _ => none
  | depth + 1, index, size, leaf, path =>
    if size = 1 then some (.ok (leaf, path))
    else do
      let k ← splitWord size
      if index < k then
        let below ← inclusionRootWords depth index k leaf path
        return do
          let (left, path) ← below
          let (right, path) ← next path "inclusion path is too short"
          .ok (nodeHash sha256 left right, path)
      else
        let inner ← checkedSub index k
        let rest ← checkedSub size k
        let below ← inclusionRootWords depth inner rest leaf path
        return do
          let (right, path) ← below
          let (left, path) ← next path "inclusion path is too short"
          .ok (nodeHash sha256 left right, path)

/-- `consistency_roots`. -/
def consistencyRootsWords (known : Hash) : Nat → Nat → Nat → Bool → List Hash →
    Option (Except String ((Hash × Hash) × List Hash))
  | 0, _, _, _, _ => none
  | depth + 1, old, size, complete, path =>
    if old = size then
      some (if complete then .ok ((known, known), path)
        else do
          let (root, path) ← next path "consistency path is too short"
          .ok ((root, root), path))
    else do
      let k ← splitWord size
      if old ≤ k then
        let below ← consistencyRootsWords known depth old k complete path
        return do
          let ((old, left), path) ← below
          let (right, path) ← next path "consistency path is too short"
          .ok ((old, nodeHash sha256 left right), path)
      else
        let inner ← checkedSub old k
        let rest ← checkedSub size k
        let below ← consistencyRootsWords known depth inner rest false path
        return do
          let ((oldRight, newRight), path) ← below
          let (left, path) ← next path "consistency path is too short"
          .ok ((nodeHash sha256 left oldRight, nodeHash sha256 left newRight), path)

end Verifiers

/-! ### No word overflows -/

section Words
variable {size start index old depth : Nat}

theorem checkedAdd_eq {a b : Nat} (h : a + b < 2 ^ 64) : checkedAdd a b = some (a + b) := if_pos h

theorem checkedSub_eq {a b : Nat} (h : b ≤ a) : checkedSub a b = some (a - b) := if_pos h

theorem splitWord_eq (h2 : 2 ≤ size) (h64 : size < 2 ^ 64) : splitWord size = some (split size) := by
  have hlog : Nat.log2 (size - 1) < 64 := (Nat.log2_lt (by omega)).mpr (by omega)
  have hzeros : leadingZeros (size - 1) = 63 - Nat.log2 (size - 1) := if_neg (by omega)
  have hfits : 1 <<< (63 - leadingZeros (size - 1)) % 2 ^ 64 = split size := by
    refine Nat.mod_eq_of_lt ?_
    show split size < 2 ^ 64
    exact (split_lt h2).trans h64
  rw [splitWord, checkedSub_eq (by omega)]
  show (checkedSub 63 (leadingZeros (size - 1)) >>= checkedShl 1) = _
  rw [checkedSub_eq (by omega)]
  show checkedShl 1 (63 - leadingZeros (size - 1)) = _
  rw [checkedShl, if_pos (by omega), hfits]

theorem inclusionWords_eq (hsize : 0 < size) (hend : start + size < 2 ^ 64) (hindex : index < size)
    (hdepth : size ≤ 2 ^ depth) :
    inclusionWords (depth + 1) index start size = some (inclusionWalk index start size hsize) := by
  induction size, hsize using size_induction generalizing index start depth with
  | one => rw [inclusionWords, if_pos rfl, inclusionWalk_one]
  | split size _ h2 ihl ihr =>
    have h64 : size < 2 ^ 64 := by omega
    have hlt := below_lt h2
    have hpos := below_pos size
    obtain ⟨depth, rfl⟩ := height_pos h2 hdepth
    have hleft := below_le_two_pow h2 hdepth
    have hright := sub_below_le_two_pow h2 hdepth
    rw [inclusionWords, if_neg (by omega), splitWord_eq h2 h64, split_eq_below h2 h64]
    simp only [Option.bind_eq_bind, Option.bind_some, checkedAdd_eq (show start + below size < 2 ^ 64 by
      omega), checkedSub_eq hlt.le]
    by_cases hi : index < below size
    · rw [if_pos hi, ihl (by omega) hi hleft, inclusionWalk_left h2 h64 hi]
      rfl
    · rw [if_neg hi, checkedSub_eq (Nat.not_lt.mp hi), inclusionWalk_right h2 h64 hi]
      simp only [Option.bind_some]
      rw [ihr (by omega) (by omega) hright]
      rfl

theorem consistencyWords_eq (hsize : 0 < size) (hend : start + size < 2 ^ 64) (hold : 0 < old)
    (hle : old ≤ size) (complete : Bool) (hdepth : size ≤ 2 ^ depth) :
    consistencyWords (depth + 1) old start size complete =
      some (consistencyWalk old start size hold hle complete) := by
  induction size, hsize using size_induction generalizing old start depth complete with
  | one =>
    obtain rfl : old = 1 := by omega
    rw [consistencyWords, if_pos rfl, consistencyWalk_equal rfl]
  | split size _ h2 ihl ihr =>
    have h64 : size < 2 ^ 64 := by omega
    have hlt := below_lt h2
    have hpos := below_pos size
    obtain ⟨depth, rfl⟩ := height_pos h2 hdepth
    have hleft := below_le_two_pow h2 hdepth
    have hright := sub_below_le_two_pow h2 hdepth
    by_cases heq : old = size
    · rw [consistencyWords, if_pos heq, consistencyWalk_equal heq]
    rw [consistencyWords, if_neg heq, splitWord_eq h2 h64, split_eq_below h2 h64]
    simp only [Option.bind_eq_bind, Option.bind_some, checkedAdd_eq (show start + below size < 2 ^ 64 by
      omega), checkedSub_eq hlt.le]
    by_cases hi : old ≤ below size
    · rw [if_pos hi, ihl (by omega) hold hi complete hleft, consistencyWalk_left h2 h64 heq hi]
      rfl
    · rw [if_neg hi, checkedSub_eq (Nat.not_le.mp hi).le, consistencyWalk_right h2 h64 heq hi]
      simp only [Option.bind_some]
      rw [ihr (by omega) (by omega) (by omega) false hright]
      rfl

end Words

section VerifierWords
variable {sha256 : Bytes → Hash} {size index old depth : Nat}

theorem inclusionRootWords_eq (hsize : 0 < size) (h64 : size < 2 ^ 64) (hindex : index < size)
    (hdepth : size ≤ 2 ^ depth) (leaf : Hash) (path : List Hash) :
    inclusionRootWords sha256 (depth + 1) index size leaf path =
      some (inclusionRoot sha256 index size hsize leaf path) := by
  induction size, hsize using size_induction generalizing index depth with
  | one => rw [inclusionRootWords, if_pos rfl, inclusionRoot, dif_pos rfl]
  | split size _ h2 ihl ihr =>
    have hlt := below_lt h2
    have hpos := below_pos size
    have hsplit := split_eq_below h2 h64
    obtain ⟨depth, rfl⟩ := height_pos h2 hdepth
    rw [inclusionRootWords, if_neg (by omega), splitWord_eq h2 h64, inclusionRoot,
      dif_neg (by omega)]
    simp only [hsplit, Option.bind_eq_bind, Option.bind_some]
    by_cases hi : index < below size
    · rw [if_pos hi, if_pos hi, ihl (by omega) hi (below_le_two_pow h2 hdepth)]
      rfl
    · rw [if_neg hi, if_neg hi, checkedSub_eq (Nat.not_lt.mp hi), checkedSub_eq hlt.le]
      simp only [Option.bind_some]
      rw [ihr (by omega) (by omega) (sub_below_le_two_pow h2 hdepth)]
      rfl

theorem consistencyRootsWords_eq (hsize : 0 < size) (h64 : size < 2 ^ 64) (hold : 0 < old)
    (hle : old ≤ size) (hdepth : size ≤ 2 ^ depth) (known : Hash) (complete : Bool)
    (path : List Hash) :
    consistencyRootsWords sha256 known (depth + 1) old size complete path =
      some (consistencyRoots sha256 old size hold hle known complete path) := by
  induction size, hsize using size_induction generalizing old depth complete with
  | one =>
    obtain rfl : old = 1 := by omega
    rw [consistencyRootsWords, if_pos rfl, consistencyRoots, dif_pos rfl]
  | split size _ h2 ihl ihr =>
    have hlt := below_lt h2
    have hpos := below_pos size
    have hsplit := split_eq_below h2 h64
    obtain ⟨depth, rfl⟩ := height_pos h2 hdepth
    by_cases heq : old = size
    · rw [consistencyRootsWords, if_pos heq, consistencyRoots, dif_pos heq]
    rw [consistencyRootsWords, if_neg heq, splitWord_eq h2 h64, consistencyRoots, dif_neg heq]
    simp only [hsplit, Option.bind_eq_bind, Option.bind_some]
    by_cases hi : old ≤ below size
    · rw [if_pos hi, dif_pos hi, ihl (by omega) hold hi (below_le_two_pow h2 hdepth)]
      rfl
    · rw [if_neg hi, dif_neg hi, checkedSub_eq (Nat.not_le.mp hi).le, checkedSub_eq hlt.le]
      simp only [Option.bind_some]
      rw [ihr (by omega) (by omega) (by omega) (sub_below_le_two_pow h2 hdepth)]
      rfl

end VerifierWords

/-! ### The ranges cut the tree -/

/-- The positions of these ranges, each once, are those of a tree. -/
def Partition (ranges : List (Nat × Nat)) (start size : Nat) : Prop :=
  (ranges.flatMap fun range => List.range' range.1 range.2).Perm (List.range' start size)

/-- A node of the tree over these positions: RFC 6962 splits a tree at the largest power of two
below its size. -/
inductive Node : Nat → Nat → Nat × Nat → Prop
  | whole {start size : Nat} : Node start size (start, size)
  | left {start size : Nat} {range : Nat × Nat} (h2 : 2 ≤ size)
      (h : Node start (below size) range) : Node start size range
  | right {start size : Nat} {range : Nat × Nat} (h2 : 2 ≤ size)
      (h : Node (start + below size) (size - below size) range) : Node start size range

section Cut
variable {ranges : List (Nat × Nat)} {start size index old : Nat}

theorem partition_single (start size : Nat) : Partition [(start, size)] start size := by
  rw [Partition, List.flatMap_singleton]

/-- A partition of the left side and the right side. -/
theorem Partition.append_right (h2 : 2 ≤ size) (h : Partition ranges start (below size)) :
    Partition (ranges ++ [(start + below size, size - below size)]) start size := by
  have hlt := below_lt h2
  have hall : List.range' start (below size) ++
      List.range' (start + below size) (size - below size) = List.range' start size := by
    rw [List.range'_append_1, Nat.add_sub_cancel' hlt.le]
  rw [Partition, List.flatMap_append, List.flatMap_singleton, ← hall]
  exact List.Perm.append_right _ h

/-- A partition of the right side and the left side. -/
theorem Partition.append_left (h2 : 2 ≤ size)
    (h : Partition ranges (start + below size) (size - below size)) :
    Partition (ranges ++ [(start, below size)]) start size := by
  have hlt := below_lt h2
  have hall : List.range' start (below size) ++
      List.range' (start + below size) (size - below size) = List.range' start size := by
    rw [List.range'_append_1, Nat.add_sub_cancel' hlt.le]
  rw [Partition, List.flatMap_append, List.flatMap_singleton, ← hall]
  exact (List.Perm.append_right _ h).trans List.perm_append_comm

theorem inclusionWalk_partition (hsize : 0 < size) (h64 : size < 2 ^ 64) (hindex : index < size) :
    Partition ((start + index, 1) :: inclusionWalk index start size hsize) start size := by
  induction size, hsize using size_induction generalizing index start with
  | one =>
    obtain rfl : index = 0 := by omega
    rw [inclusionWalk_one]
    exact partition_single start 1
  | split size _ h2 ihl ihr =>
    have hlt := below_lt h2
    by_cases hi : index < below size
    · rw [inclusionWalk_left h2 h64 hi]
      exact (ihl (by omega) hi).append_right h2
    · rw [inclusionWalk_right h2 h64 hi]
      have hleaf : start + below size + (index - below size) = start + index := by omega
      have hright := @ihr (start + below size) (index - below size) (by omega) (by omega)
      rw [hleaf] at hright
      exact hright.append_left h2

theorem inclusionWalk_length (hsize : 0 < size) (h64 : size < 2 ^ 64) {height : Nat}
    (hheight : size ≤ 2 ^ height) : (inclusionWalk index start size hsize).length ≤ height := by
  induction size, hsize using size_induction generalizing index start height with
  | one =>
    rw [inclusionWalk_one]
    exact Nat.zero_le _
  | split size _ h2 ihl ihr =>
    have hlt := below_lt h2
    have hpos := below_pos size
    obtain ⟨height, rfl⟩ := height_pos h2 hheight
    by_cases hi : index < below size
    · rw [inclusionWalk_left h2 h64 hi, List.length_append]
      exact Nat.succ_le_succ (ihl (by omega) (below_le_two_pow h2 hheight))
    · rw [inclusionWalk_right h2 h64 hi, List.length_append]
      exact Nat.succ_le_succ (ihr (by omega) (sub_below_le_two_pow h2 hheight))

theorem node_of_inclusionWalk (hsize : 0 < size) (h64 : size < 2 ^ 64) :
    ∀ range ∈ inclusionWalk index start size hsize, Node start size range := by
  induction size, hsize using size_induction generalizing index start with
  | one =>
    rw [inclusionWalk_one]
    exact nofun
  | split size _ h2 ihl ihr =>
    have hlt := below_lt h2
    have hpos := below_pos size
    intro range hrange
    by_cases hi : index < below size
    · rw [inclusionWalk_left h2 h64 hi] at hrange
      rcases List.mem_append.mp hrange with hrange | hrange
      · exact .left h2 (ihl (by omega) range hrange)
      · cases List.mem_singleton.mp hrange
        exact .right h2 .whole
    · rw [inclusionWalk_right h2 h64 hi] at hrange
      rcases List.mem_append.mp hrange with hrange | hrange
      · exact .right h2 (ihr (by omega) range hrange)
      · cases List.mem_singleton.mp hrange
        exact .left h2 .whole

/-- The old tree is a node of the new one, so its hash is not in the proof. -/
def HashOmitted (old size : Nat) : Prop := old = size ∨ ∃ height, old = 2 ^ height

theorem hashOmitted_left (hne : old ≠ size) : HashOmitted old (below size) ↔ HashOmitted old size := by
  constructor
  · intro h
    rcases h with h | h
    · exact .inr ⟨_, h⟩
    · exact .inr h
  · intro h
    exact .inr (h.resolve_left hne)

/-- Between the split and the size there is no power of two. -/
theorem not_hashOmitted_right (h2 : 2 ≤ size) (hne : old ≠ size) (hle : old ≤ size)
    (hright : ¬ old ≤ below size) : ¬ HashOmitted old size := by
  intro h
  obtain ⟨height, rfl⟩ := h.resolve_left hne
  have hlo : Nat.log2 (size - 1) < height :=
    (Nat.pow_lt_pow_iff_right (by decide)).mp (Nat.not_le.mp hright)
  have hdouble : 2 ^ (Nat.log2 (size - 1) + 1) ≤ 2 ^ height :=
    Nat.pow_le_pow_right (by decide) hlo
  have hsize : size ≤ 2 * 2 ^ Nat.log2 (size - 1) := le_two_mul_below h2
  rw [Nat.pow_succ] at hdouble
  omega

theorem consistencyWalk_partition_false (hsize : 0 < size) (h64 : size < 2 ^ 64) (hold : 0 < old)
    (hle : old ≤ size) :
    Partition (consistencyWalk old start size hold hle false) start size := by
  induction size, hsize using size_induction generalizing old start with
  | one =>
    rw [consistencyWalk_equal (by omega)]
    exact partition_single start 1
  | split size _ h2 ihl ihr =>
    have hlt := below_lt h2
    have hpos := below_pos size
    by_cases heq : old = size
    · rw [consistencyWalk_equal heq]
      exact partition_single start size
    by_cases hi : old ≤ below size
    · rw [consistencyWalk_left h2 h64 heq hi]
      exact (ihl (by omega) hold hi).append_right h2
    · rw [consistencyWalk_right h2 h64 heq hi]
      exact (ihr (by omega) (by omega) (by omega)).append_left h2

/-- The ranges partition the new tree, with the old one where its hash is omitted. -/
theorem consistencyWalk_partition (hsize : 0 < size) (h64 : size < 2 ^ 64) (hold : 0 < old)
    (hle : old ≤ size) :
    (HashOmitted old size →
      Partition ((start, old) :: consistencyWalk old start size hold hle true) start size) ∧
    (¬ HashOmitted old size →
      Partition (consistencyWalk old start size hold hle true) start size) := by
  induction size, hsize using size_induction generalizing old start with
  | one =>
    obtain rfl : old = 1 := by omega
    rw [consistencyWalk_equal rfl]
    exact ⟨fun _ => partition_single start 1, fun h => absurd (.inl rfl) h⟩
  | split size _ h2 ihl ihr =>
    have hlt := below_lt h2
    have hpos := below_pos size
    by_cases heq : old = size
    · subst heq
      rw [consistencyWalk_equal rfl]
      exact ⟨fun _ => partition_single start old, fun h => absurd (.inl rfl) h⟩
    by_cases hi : old ≤ below size
    · rw [consistencyWalk_left h2 h64 heq hi, ← hashOmitted_left heq]
      obtain ⟨homitted, hkept⟩ := @ihl start old (by omega) hold hi
      exact ⟨fun h => (homitted h).append_right h2, fun h => (hkept h).append_right h2⟩
    · rw [consistencyWalk_right h2 h64 heq hi]
      have hnot := not_hashOmitted_right h2 heq hle hi
      refine ⟨fun h => absurd h hnot, fun _ => ?_⟩
      exact (consistencyWalk_partition_false (sub_below_pos h2) (by omega) _ _).append_left h2

theorem consistencyWalk_length (hsize : 0 < size) (h64 : size < 2 ^ 64) (hold : 0 < old)
    (hle : old ≤ size) (complete : Bool) {height : Nat} (hheight : size ≤ 2 ^ height) :
    (consistencyWalk old start size hold hle complete).length ≤ height + 1 := by
  have hwhole (complete : Bool) (start size height : Nat) :
      (if complete then [] else [(start, size)] : List (Nat × Nat)).length ≤ height + 1 := by
    cases complete
    · exact Nat.succ_le_succ (Nat.zero_le _)
    · exact Nat.zero_le _
  induction size, hsize using size_induction generalizing old start complete height with
  | one =>
    rw [consistencyWalk_equal (by omega)]
    exact hwhole complete start 1 height
  | split size _ h2 ihl ihr =>
    have hlt := below_lt h2
    have hpos := below_pos size
    by_cases heq : old = size
    · rw [consistencyWalk_equal heq]
      exact hwhole complete start size height
    obtain ⟨height, rfl⟩ := height_pos h2 hheight
    by_cases hi : old ≤ below size
    · rw [consistencyWalk_left h2 h64 heq hi, List.length_append]
      exact Nat.succ_le_succ (ihl (by omega) hold hi complete (below_le_two_pow h2 hheight))
    · rw [consistencyWalk_right h2 h64 heq hi, List.length_append]
      exact Nat.succ_le_succ (ihr (by omega) _ _ false (sub_below_le_two_pow h2 hheight))

theorem node_of_consistencyWalk (hsize : 0 < size) (h64 : size < 2 ^ 64) (hold : 0 < old)
    (hle : old ≤ size) (complete : Bool) :
    ∀ range ∈ consistencyWalk old start size hold hle complete, Node start size range := by
  have hwhole (complete : Bool) (start size : Nat) :
      ∀ range ∈ (if complete then [] else [(start, size)] : List (Nat × Nat)),
        Node start size range := by
    intro range hrange
    cases complete with
    | true => cases hrange
    | false =>
      cases List.mem_singleton.mp hrange
      exact .whole
  induction size, hsize using size_induction generalizing old start complete with
  | one =>
    rw [consistencyWalk_equal (by omega)]
    exact hwhole complete start 1
  | split size _ h2 ihl ihr =>
    have hlt := below_lt h2
    have hpos := below_pos size
    by_cases heq : old = size
    · rw [consistencyWalk_equal heq]
      exact hwhole complete start size
    intro range hrange
    by_cases hi : old ≤ below size
    · rw [consistencyWalk_left h2 h64 heq hi] at hrange
      rcases List.mem_append.mp hrange with hrange | hrange
      · exact .left h2 (ihl (by omega) hold hi complete range hrange)
      · cases List.mem_singleton.mp hrange
        exact .right h2 .whole
    · rw [consistencyWalk_right h2 h64 heq hi] at hrange
      rcases List.mem_append.mp hrange with hrange | hrange
      · exact .right h2 (ihr (by omega) _ _ false range hrange)
      · cases List.mem_singleton.mp hrange
        exact .left h2 .whole

end Cut

/-! ### The ranges of the proofs -/

/-- The ranges of an inclusion proof: 65 calls deep at most, no word overflows, there or in the
verifier; with the leaf they cut the tree into nodes, in the order in which their hashes are taken. -/
structure DescribesInclusion (index size : Nat) (ranges : List (Nat × Nat)) : Prop where
  words : ∀ depth, 65 ≤ depth → inclusionWords depth index 0 size = some ranges
  verifierWords : ∀ sha256 depth, 65 ≤ depth → ∀ (hsize : 0 < size) leaf path,
    inclusionRootWords sha256 depth index size leaf path =
      some (inclusionRoot sha256 index size hsize leaf path)
  count : ranges.length ≤ maxInclusionNodes
  cut : Partition ((index, 1) :: ranges) 0 size
  nodes : ∀ range ∈ ranges, Node 0 size range
  order : ∀ (sha256 : Bytes → Hash) (entries : List Bytes) (entry : Bytes) (hsize : 0 < size),
    entries.length = size → entries[index]? = some entry →
      inclusionRoot sha256 index size hsize (leafHash sha256 entry)
        (ranges.map fun range => sliceHash sha256 entries range.1 range.2) =
          .ok (mth sha256 entries, [])

/-- The ranges of a consistency proof. -/
structure DescribesConsistency (old new : Nat) (ranges : List (Nat × Nat)) : Prop where
  words : ∀ depth, 65 ≤ depth → consistencyWords depth old 0 new true = some ranges
  verifierWords : ∀ sha256 depth, 65 ≤ depth → ∀ (hold : 0 < old) (hle : old ≤ new) known path,
    consistencyRootsWords sha256 known depth old new true path =
      some (consistencyRoots sha256 old new hold hle known true path)
  count : ranges.length ≤ maxProofNodes
  cut_omitted : HashOmitted old new → Partition ((0, old) :: ranges) 0 new
  cut : ¬ HashOmitted old new → Partition ranges 0 new
  nodes : ∀ range ∈ ranges, Node 0 new range
  order : ∀ (sha256 : Bytes → Hash) (entries : List Bytes) (hold : 0 < old) (hle : old ≤ new),
    entries.length = new →
      consistencyRoots sha256 old new hold hle (mth sha256 (entries.take old)) true
        (ranges.map fun range => sliceHash sha256 entries range.1 range.2) =
          .ok ((mth sha256 (entries.take old), mth sha256 entries), [])

theorem slice_all {entries : List Bytes} {size : Nat} (h : entries.length = size) :
    slice entries 0 size = entries := by
  rw [slice_zero, List.take_of_length_le h.le]

/-- **The ranges are those of the proofs of RFC 6962.** -/
theorem ranges_describe :
    (∀ index size, index < size → size < 2 ^ 64 →
      ∃ ranges, inclusionRanges index size = .ok ranges ∧ DescribesInclusion index size ranges) ∧
    ∀ old new, 0 < old → old ≤ new → new < 2 ^ 64 →
      ∃ ranges, consistencyRanges old new = .ok ranges ∧ DescribesConsistency old new ranges := by
  refine ⟨?_, ?_⟩
  · intro index size hindex h64
    have hsize : 0 < size := by omega
    refine ⟨inclusionWalk index 0 size hsize, dif_pos ⟨hsize, hindex⟩, ?_⟩
    have hdepth {depth : Nat} (h : 65 ≤ depth) : ∃ more, depth = more + 1 ∧ size ≤ 2 ^ more :=
      ⟨depth - 1, by omega, h64.le.trans (Nat.pow_le_pow_right (by decide) (by omega))⟩
    refine ⟨?_, ?_, inclusionWalk_length hsize h64 h64.le, ?_, node_of_inclusionWalk hsize h64, ?_⟩
    · intro depth h
      obtain ⟨more, rfl, hmore⟩ := hdepth h
      exact inclusionWords_eq hsize (by omega) hindex hmore
    · intro sha256 depth h _ leaf path
      obtain ⟨more, rfl, hmore⟩ := hdepth h
      exact inclusionRootWords_eq hsize h64 hindex hmore leaf path
    · have hcut := @inclusionWalk_partition 0 size index hsize h64 hindex
      rw [Nat.zero_add] at hcut
      exact hcut
    · intro sha256 entries entry _ hlength hentry
      rw [inclusionWalk_auditPath sha256 entries size hsize h64 index 0 (by omega),
        slice_all hlength]
      have hroot := @inclusionRoot_auditPath sha256 entries size hsize hlength h64 index entry hentry []
      rw [List.append_nil] at hroot
      exact hroot
  · intro old new hold hle h64
    have hnew : 0 < new := by omega
    refine ⟨consistencyWalk old 0 new hold hle true, ?_, ?_⟩
    · rw [consistencyRanges, dif_pos hle, dif_neg hold.ne']
    have hdepth {depth : Nat} (h : 65 ≤ depth) : ∃ more, depth = more + 1 ∧ new ≤ 2 ^ more :=
      ⟨depth - 1, by omega, h64.le.trans (Nat.pow_le_pow_right (by decide) (by omega))⟩
    obtain ⟨homitted, hkept⟩ := @consistencyWalk_partition 0 new old hnew h64 hold hle
    refine ⟨?_, ?_, consistencyWalk_length hnew h64 hold hle true h64.le, homitted, hkept,
      node_of_consistencyWalk hnew h64 hold hle true, ?_⟩
    · intro depth h
      obtain ⟨more, rfl, hmore⟩ := hdepth h
      exact consistencyWords_eq hnew (by omega) hold hle true hmore
    · intro sha256 depth h _ _ known path
      obtain ⟨more, rfl, hmore⟩ := hdepth h
      exact consistencyRootsWords_eq hnew h64 hold hle hmore known true path
    · intro sha256 entries _ _ hlength
      rw [consistencyWalk_subproof sha256 entries new hnew h64 old 0 hold hle true (by omega),
        slice_all hlength]
      have hroots := @consistencyRoots_subproof sha256 entries new hlength h64 old hold hle
        (mth sha256 (entries.take old)) true (fun _ => rfl) []
      rw [List.append_nil] at hroots
      exact hroots

theorem ranges_describe_sample :
    (∃ ranges, inclusionRanges 4 7 = .ok ranges ∧ DescribesInclusion 4 7 ranges) ∧
      ∃ ranges, consistencyRanges 3 7 = .ok ranges ∧ DescribesConsistency 3 7 ranges :=
  ⟨ranges_describe.1 4 7 (by decide) (by decide),
    ranges_describe.2 3 7 (by decide) (by decide) (by decide)⟩

end Attest.Publication.Tiles
