import Attest.Publication.Merkle
import Mathlib.Data.List.AList

/-! C2SP tlog-tiles hash reads, as `publication/tiles.rs` has them.

A `TileReader` answers for subtrees of an authenticated tree size by fetching
tiles: 256 neighbouring nodes of a level that is a multiple of eight. It keeps
what it fetched, folds a slice of one tile into the root of a perfect subtree,
and assembles any other range with an explicit stack. The source is a parameter:
for each resource name it gives bytes, says that there is none, or fails. A slice
out of range is a panic in the code; here it is an error like the others, so that
a result that is `ok` also says it cannot happen. -/
namespace Attest.Publication.Tiles
open Merkle

def tileBytes : Nat := 256 * 32

/-- `None` means the resource does not exist. -/
abbrev TileSource := String → Except String (Option Bytes)

/-! ### Names -/

/-- `format!("{:03}", n)`. -/
def threeDigits (n : Nat) : String := String.ofList ((Nat.toDigits 10 n).leftpad 3 '0')

/-- The groups above the last one, in the order the loop pushes them. -/
def upperGroups (index : Nat) : List String :=
  if index = 0 then [] else ("x" ++ threeDigits (index % 1000)) :: upperGroups (index / 1000)
termination_by index
decreasing_by exact Nat.div_lt_self (by omega) (by decide)

def tilePath (level index width : Nat) : Except String String :=
  if level ≤ 63 ∧ 1 ≤ width ∧ width ≤ 256 then
    let groups := threeDigits (index % 1000) :: upperGroups (index / 1000)
    let suffix := if width = 256 then "" else ".p/" ++ toString width
    .ok ("tile/" ++ toString level ++ "/" ++ String.intercalate "/" groups.reverse ++ suffix)
  else .error "invalid tile coordinates"

/-! ### Tiles -/

/-- `bytes.as_chunks::<32>().0`. -/
def chunks (bytes : Bytes) : List Hash :=
  if h : 32 ≤ bytes.length then
    ⟨(bytes.take 32).toArray, by simp [h]⟩ :: chunks (bytes.drop 32)
  else []
termination_by bytes.length
decreasing_by
  rw [List.length_drop]
  omega

/-- One tile from the source: the partial one, or the full one in its place. -/
def fetchTile (source : TileSource) (level tileIndex width : Nat) : Except String (List Hash) := do
  let (bytes, receivedWidth) ←
    match ← source (← tilePath level tileIndex width) with
    | some bytes => .ok (bytes, width)
    | none =>
      if width < 256 then
        match ← source (← tilePath level tileIndex 256) with
        | some bytes => .ok (bytes, 256)
        | none => .error "log has neither the partial nor the full hash tile"
      else .error "log hash tile is unavailable"
  if bytes.length = receivedWidth * 32 ∧ bytes.length ≤ tileBytes then
    .ok (chunks bytes)
  else .error "invalid hash tile length"

section Fold
variable (sha256 : Bytes → Hash)

/-- One pass of the folding loop; a last node without a partner is dropped. -/
def pairUp : List Hash → List Hash
  | left :: right :: rest => nodeHash sha256 left right :: pairUp rest
  | _ => []

theorem length_pairUp (l : List Hash) : (pairUp sha256 l).length = l.length / 2 := by
  induction l using pairUp.induct with
  | case1 left right rest ih =>
    simp only [pairUp, List.length_cons, ih]
    omega
  | case2 l h =>
    match l, h with
    | [], _ => rfl
    | [a], _ => simp [pairUp]
    | a :: b :: rest, h => exact absurd rfl (h a b rest)

def foldLevel (level : List Hash) : List Hash :=
  if 1 < level.length then foldLevel (pairUp sha256 level) else level
termination_by level.length
decreasing_by
  rw [length_pairUp]
  omega

end Fold

/-! ### The reader -/

/-- Tiles by level and index. -/
abbrev Cache := AList (fun _ : Nat × Nat => List Hash)

/-- A read with the reader's cache. -/
abbrev Read := StateT Cache (Except String)

/-- `u64::is_power_of_two`. -/
def isPowerOfTwo (n : Nat) : Bool := n == 2 ^ Nat.log2 n

/-- `u64::trailing_zeros` of a positive number. -/
def trailingZeros (n : Nat) (hn : 0 < n) : Nat :=
  if _ : n % 2 = 1 then 0 else trailingZeros (n / 2) (by omega) + 1
termination_by n

/-- `start.checked_add(size).is_some_and(|end| end <= tree_size)`. -/
def endsWithin (start size treeSize : Nat) : Bool :=
  decide (start + size < 2 ^ 64) && decide (start + size ≤ treeSize)

section Reader
variable (sha256 : Bytes → Hash) (source : TileSource) (treeSize : Nat)

/-- The tile from the cache, fetched first when it is not there. -/
def cachedTile (level tileIndex width : Nat) : Read (List Hash) := do
  if (level, tileIndex) ∉ (← get) then
    if (← get).entries.length < 512 then
      let hashes ← fetchTile source level tileIndex width
      modify (AList.insert (level, tileIndex) hashes)
    else throw "publication needs too many hash tiles"
  match (← get).lookup (level, tileIndex) with
  | some tile => return tile
  | none => throw "hash tile was not cached"

/-- The root of the nodes `offset .. offset + count` of a tile. -/
def sliceRoot (tile : List Hash) (offset count : Nat) : Except String Hash :=
  if offset + count ≤ tile.length then
    match foldLevel sha256 ((tile.drop offset).take count) with
    | root :: _ => .ok root
    | [] => .error "empty subtree"
  else .error "range end index out of range for slice"

def perfectRoot (start size : Nat) (hsize : 0 < size) : Read Hash := do
  if isPowerOfTwo size && start % size == 0 && endsWithin start size treeSize then
    let height := trailingZeros size hsize
    let level := height / 8
    let nodeIndex := start >>> (8 * level)
    let tileIndex := nodeIndex / 256
    let offset := nodeIndex % 256
    let count := 1 <<< (height % 8)
    let width := min ((treeSize >>> (8 * level)) - tileIndex * 256) 256
    if offset + count ≤ width then
      let tile ← cachedTile source level tileIndex width
      sliceRoot sha256 tile offset count
    else throw "subtree exceeds the authenticated tile width"
  else throw "subtree is outside the authenticated tree"

/-- What is left to do: the subtree at `start`, or the join of its two halves. -/
structure Task where
  start : Nat
  size : Nat
  join : Bool
  pos : 0 < size

/-- How many steps a task can still cost. -/
def Task.weight (t : Task) : Nat := if t.join then 1 else 3 * t.size - 2

theorem isPowerOfTwo_two_pow (h : Nat) : isPowerOfTwo (2 ^ h) = true := by
  unfold isPowerOfTwo
  rw [Nat.log2_two_pow]
  exact beq_self_eq_true _

/-- Anything positive that is not a power of two is at least three. -/
theorem three_le_of_not_isPowerOfTwo {n : Nat} (hn : 0 < n) (h : isPowerOfTwo n = false) :
    3 ≤ n := by
  match n, hn, h with
  | 1, _, h => exact absurd (isPowerOfTwo_two_pow 0) (by rw [Nat.pow_zero, h]; decide)
  | 2, _, h => exact absurd (isPowerOfTwo_two_pow 1) (by rw [Nat.pow_one, h]; decide)
  | n + 3, _, _ => omega

/-- The loop of `range_root`. The top of each stack is the head of its list. -/
def rangeLoop : List Task → List Hash → Read (List Hash)
  | [], roots => return roots
  | task :: pending, roots =>
    if task.join then
      match roots with
      | right :: left :: roots => rangeLoop pending (nodeHash sha256 left right :: roots)
      | [_] => throw "missing left subtree"
      | [] => throw "missing right subtree"
    else if hp : isPowerOfTwo task.size then do
      let root ← perfectRoot sha256 source treeSize task.start task.size task.pos
      rangeLoop pending (root :: roots)
    else
      have h3 : 3 ≤ task.size := three_le_of_not_isPowerOfTwo task.pos (by simpa using hp)
      rangeLoop
        (⟨task.start, split task.size, false, split_pos _⟩ ::
          ⟨task.start + split task.size, task.size - split task.size, false,
            Nat.sub_pos_of_lt (split_lt (by omega))⟩ ::
          ⟨task.start, task.size, true, task.pos⟩ :: pending) roots
termination_by pending => (pending.map Task.weight).sum
decreasing_by
  · simp only [List.map_cons, List.sum_cons, Task.weight]
    split <;> omega
  · have := task.pos
    simp only [List.map_cons, List.sum_cons, Task.weight]
    split <;> omega
  · have hlt : split task.size < task.size := split_lt (by omega)
    have := split_pos task.size
    simp only [List.map_cons, List.sum_cons, Task.weight, Bool.false_eq_true, if_false, if_true]
    split
    · contradiction
    · omega

/-- The root of any range of the authenticated tree. -/
def rangeRoot (start size : Nat) : Read Hash := do
  if h : 0 < size ∧ endsWithin start size treeSize then
    match ← rangeLoop sha256 source treeSize [⟨start, size, false, h.1⟩] [] with
    | [root] => return root
    | _ => throw "invalid subtree assembly"
  else throw "range is outside the authenticated tree"

def inclusion (index : Nat) : Read (List Hash) := do
  let ranges ← inclusionRanges index treeSize
  ranges.mapM fun range => rangeRoot sha256 source treeSize range.1 range.2

def consistency (oldSize newSize : Nat) : Read (List Hash) := do
  if newSize ≤ treeSize then
    let ranges ← consistencyRanges oldSize newSize
    ranges.mapM fun range => rangeRoot sha256 source treeSize range.1 range.2
  else throw "comparison exceeds the authenticated tree"

end Reader

end Attest.Publication.Tiles
