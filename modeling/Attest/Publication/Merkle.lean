import Attest.Library.HashTree
import Mathlib.Data.Vector.Defs

/-! RFC 6962 trees, as `publication/merkle.rs` has them.

The verifiers rebuild a root from sizes, an index and a list of path nodes that
anybody may have written; the two `ranges` functions say which subtrees an honest
path is made of. `sha256` is the digest the code takes from its crypto library,
a parameter here. Sizes and indices are `u64` in the code: every subtraction is
guarded by the comparison above it, so they are `Nat` here, and results that rest
on the width carry a `2 ^ 64`. A path is consumed from the front, as the iterator
is, and what is left is returned. -/
namespace Attest.Publication.Merkle
open Library

abbrev Bytes := List UInt8

/-- A SHA-256 digest. -/
abbrev Hash := Vector UInt8 32

def maxProofNodes : Nat := 65
def maxInclusionNodes : Nat := 64

section Hashes
variable (sha256 : Bytes → Hash)

def emptyRoot : Hash := sha256 []

def leafHash (entry : Bytes) : Hash := sha256 (0 :: entry)

def nodeHash (left right : Hash) : Hash := sha256 (1 :: (left.toList ++ right.toList))

end Hashes

/-! ### The split -/

/-- `u64::leading_zeros`. -/
def leadingZeros (x : Nat) : Nat := if x = 0 then 64 else 63 - Nat.log2 x

/-- Called only for subtrees with at least two leaves. -/
def split (size : Nat) : Nat := 1 <<< (63 - leadingZeros (size - 1))

theorem split_pos (size : Nat) : 0 < split size := by
  unfold split
  rw [Nat.one_shiftLeft]
  exact Nat.two_pow_pos _

theorem split_lt {size : Nat} (h : 2 ≤ size) : split size < size := by
  have hle := Nat.log2_self_le (n := size - 1) (by omega)
  have hpow : 2 ^ (63 - (63 - Nat.log2 (size - 1))) ≤ 2 ^ Nat.log2 (size - 1) :=
    Nat.pow_le_pow_right (by decide) (by omega)
  unfold split leadingZeros
  rw [Nat.one_shiftLeft, if_neg (by omega)]
  omega

/-- In the range of a `u64` the shift is the split of the tree. -/
theorem split_eq_below {size : Nat} (h : 2 ≤ size) (h64 : size < 2 ^ 64) :
    split size = below size := by
  have hlog : Nat.log2 (size - 1) < 64 := (Nat.log2_lt (by omega)).mpr (by omega)
  unfold split leadingZeros below
  rw [Nat.one_shiftLeft, if_neg (by omega)]
  congr 1
  omega

/-! ### Inclusion -/

/-- `path.next().context(message)`. -/
def next (path : List Hash) (message : String) : Except String (Hash × List Hash) :=
  match path with
  | [] => .error message
  | node :: rest => .ok (node, rest)

section Verify
variable (sha256 : Bytes → Hash)

def inclusionRoot (index size : Nat) (hsize : 0 < size) (leaf : Hash) (path : List Hash) :
    Except String (Hash × List Hash) :=
  if _ : size = 1 then
    .ok (leaf, path)
  else if index < split size then do
    let (left, path) ← inclusionRoot index (split size) (split_pos size) leaf path
    let (right, path) ← next path "inclusion path is too short"
    .ok (nodeHash sha256 left right, path)
  else do
    let (right, path) ← inclusionRoot (index - split size) (size - split size)
      (Nat.sub_pos_of_lt (split_lt (by omega))) leaf path
    let (left, path) ← next path "inclusion path is too short"
    .ok (nodeHash sha256 left right, path)
termination_by size
decreasing_by
  · exact split_lt (by omega)
  · have := split_pos size
    omega

def verifyInclusion (entry : Bytes) (index size : Nat) (path : List Hash) (root : Hash) :
    Except String Unit :=
  if h : 0 < size ∧ index < size then
    if path.length ≤ maxInclusionNodes then do
      let (calculated, remaining) ← inclusionRoot sha256 index size h.1 (leafHash sha256 entry) path
      if remaining = [] then
        if calculated = root then .ok ()
        else .error "inclusion proof does not bind this entry to the checkpoint"
      else .error "inclusion path has extra nodes"
    else .error "inclusion path is too long"
  else .error "inclusion index is outside the tree"

/-! ### Consistency -/

/-- Both roots at once, from one path: the old one and the new one. The left child
of an incomplete old tree is in both. -/
def consistencyRoots (oldSize newSize : Nat) (hold : 0 < oldSize) (hle : oldSize ≤ newSize)
    (knownOldRoot : Hash) (complete : Bool) (path : List Hash) :
    Except String ((Hash × Hash) × List Hash) :=
  if _ : oldSize = newSize then
    if complete then
      .ok ((knownOldRoot, knownOldRoot), path)
    else do
      let (root, path) ← next path "consistency path is too short"
      .ok ((root, root), path)
  else if hleft : oldSize ≤ split newSize then do
    let ((old, left), path) ←
      consistencyRoots oldSize (split newSize) hold hleft knownOldRoot complete path
    let (right, path) ← next path "consistency path is too short"
    .ok ((old, nodeHash sha256 left right), path)
  else do
    let ((oldRight, newRight), path) ←
      consistencyRoots (oldSize - split newSize) (newSize - split newSize)
        (Nat.sub_pos_of_lt (Nat.lt_of_not_le hleft)) (Nat.sub_le_sub_right hle _) knownOldRoot false
        path
    let (left, path) ← next path "consistency path is too short"
    .ok ((nodeHash sha256 left oldRight, nodeHash sha256 left newRight), path)
termination_by newSize
decreasing_by
  · exact split_lt (by omega)
  · have := split_pos newSize
    omega

def verifyConsistency (oldSize newSize : Nat) (oldRoot newRoot : Hash) (path : List Hash) :
    Except String Unit :=
  if hle : oldSize ≤ newSize then
    if path.length ≤ maxProofNodes then
      if oldSize = newSize then
        if path = [] then
          if oldRoot = newRoot then
            if oldSize = 0 then
              if oldRoot = emptyRoot sha256 then .ok () else .error "invalid empty-tree root"
            else .ok ()
          else .error "conflicting roots at the same tree size"
        else .error "equal-size checkpoints need no proof nodes"
      else if h0 : oldSize = 0 then
        if oldRoot = emptyRoot sha256 then
          if path = [] then .ok () else .error "an empty prefix needs no proof nodes"
        else .error "invalid empty-tree root"
      else do
        let ((calculatedOld, calculatedNew), remaining) ←
          consistencyRoots sha256 oldSize newSize (Nat.pos_of_ne_zero h0) hle oldRoot true path
        if remaining = [] then
          if calculatedOld = oldRoot ∧ calculatedNew = newRoot then .ok ()
          else .error "checkpoints are not connected by this consistency proof"
        else .error "consistency path has extra nodes"
    else .error "consistency path is too long"
  else .error "consistency sizes are reversed"

end Verify

/-! ### Ranges -/

/-- The inner `walk` of `inclusion_ranges`: the ranges in the order it pushes them. -/
def inclusionWalk (index start size : Nat) (hsize : 0 < size) : List (Nat × Nat) :=
  if _ : size = 1 then
    []
  else if index < split size then
    inclusionWalk index start (split size) (split_pos size) ++
      [(start + split size, size - split size)]
  else
    inclusionWalk (index - split size) (start + split size) (size - split size)
      (Nat.sub_pos_of_lt (split_lt (by omega))) ++ [(start, split size)]
termination_by size
decreasing_by
  · exact split_lt (by omega)
  · have := split_pos size
    omega

/-- Ordered subtree ranges whose hashes form a leaf's inclusion path. -/
def inclusionRanges (index size : Nat) : Except String (List (Nat × Nat)) :=
  if h : 0 < size ∧ index < size then
    .ok (inclusionWalk index 0 size h.1)
  else .error "inclusion index is outside the tree"

/-- The inner `walk` of `consistency_ranges`. -/
def consistencyWalk (old start size : Nat) (hold : 0 < old) (hle : old ≤ size) (complete : Bool) :
    List (Nat × Nat) :=
  if _ : old = size then
    if complete then [] else [(start, size)]
  else if hleft : old ≤ split size then
    consistencyWalk old start (split size) hold hleft complete ++
      [(start + split size, size - split size)]
  else
    consistencyWalk (old - split size) (start + split size) (size - split size)
      (Nat.sub_pos_of_lt (Nat.lt_of_not_le hleft)) (Nat.sub_le_sub_right hle _) false ++
      [(start, split size)]
termination_by size
decreasing_by
  · exact split_lt (by omega)
  · have := split_pos size
    omega

/-- Ordered subtree ranges for the RFC 6962 consistency proof. -/
def consistencyRanges (oldSize newSize : Nat) : Except String (List (Nat × Nat)) :=
  if hle : oldSize ≤ newSize then
    if h0 : oldSize = 0 then .ok []
    else .ok (consistencyWalk oldSize 0 newSize (Nat.pos_of_ne_zero h0) hle true)
  else .error "consistency sizes are reversed"

end Attest.Publication.Merkle
