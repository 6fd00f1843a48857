import Attest.Publication.Consistency
import Attest.Publication.Tiles

/-! Reading proofs through tiles gives the tree's own proofs.

Against a source that serves the tiles of a prefix, or full tiles where partial
ones are gone, every stage stays where it should: a range of the proof is a node
of the tree (`Aligned`), the stack takes it apart into perfect subtrees, each of
those is a slice of one tile, and the slice folds to its root. What the cache
holds at any moment is the tree's (`GoodCache`), and a whole proof needs far
fewer than 512 tiles (`pieces`). -/
namespace Attest.Publication.Tiles
open Library Library.HashTree Merkle

/-! ### Slices of the log -/

/-- The entries `start .. start + size`. -/
def slice (entries : List Bytes) (start size : Nat) : List Bytes := (entries.drop start).take size

theorem length_slice {entries : List Bytes} {start size : Nat} (h : start + size ≤ entries.length) :
    (slice entries start size).length = size := by
  rw [slice, List.length_take, List.length_drop]
  omega

theorem take_slice (entries : List Bytes) (start size k : Nat) (hk : k ≤ size) :
    (slice entries start size).take k = slice entries start k := by
  rw [slice, List.take_take, Nat.min_eq_left hk, slice]

theorem drop_slice (entries : List Bytes) (start size k : Nat) :
    (slice entries start size).drop k = slice entries (start + k) (size - k) := by
  rw [slice, List.drop_take, List.drop_drop, slice]

section
variable (sha256 : Bytes → Hash) (entries : List Bytes)

/-- The root of the subtree over a slice. -/
def sliceHash (start size : Nat) : Hash := mth sha256 (slice entries start size)

theorem sliceHash_split (start size : Nat) (h2 : 2 ≤ size) (hend : start + size ≤ entries.length) :
    sliceHash sha256 entries start size =
      nodeHash sha256 (sliceHash sha256 entries start (below size))
        (sliceHash sha256 entries (start + below size) (size - below size)) := by
  have hlen := length_slice hend
  unfold sliceHash mth
  rw [root_split _ (by omega), hlen, take_slice _ _ _ _ (Nat.le_of_lt (below_lt h2)), drop_slice]
  rfl

/-! ### Neighbouring subtrees of one height -/

/-- The roots of `count` neighbouring subtrees of `2 ^ height` entries. -/
def blocks (height : Nat) : Nat → Nat → List Hash
  | _, 0 => []
  | start, count + 1 =>
    sliceHash sha256 entries start (2 ^ height) :: blocks height (start + 2 ^ height) count

@[simp] theorem length_blocks (height start count : Nat) :
    (blocks sha256 entries height start count).length = count := by
  induction count generalizing start with
  | zero => rfl
  | succ count ih => rw [blocks, List.length_cons, ih]

theorem take_blocks (height start count k : Nat) (hk : k ≤ count) :
    (blocks sha256 entries height start count).take k = blocks sha256 entries height start k := by
  induction k generalizing start count with
  | zero => simp [blocks]
  | succ k ih =>
    obtain ⟨c, rfl⟩ : ∃ c, count = c + 1 := ⟨count - 1, by omega⟩
    rw [blocks, List.take_succ_cons, ih _ _ (by omega), blocks]

theorem drop_blocks (height start count k : Nat) (hk : k ≤ count) :
    (blocks sha256 entries height start count).drop k =
      blocks sha256 entries height (start + k * 2 ^ height) (count - k) := by
  induction k generalizing start count with
  | zero => simp
  | succ k ih =>
    obtain ⟨c, rfl⟩ : ∃ c, count = c + 1 := ⟨count - 1, by omega⟩
    rw [blocks, List.drop_succ_cons, ih _ _ (by omega), Nat.succ_mul]
    congr 1 <;> omega

/-- One pass of the fold pairs subtrees of one height into the next. -/
theorem pairUp_blocks (height start count : Nat)
    (hend : start + count * 2 ^ (height + 1) ≤ entries.length) :
    pairUp sha256 (blocks sha256 entries height start (2 * count)) =
      blocks sha256 entries (height + 1) start count := by
  induction count generalizing start with
  | zero => rfl
  | succ count ih =>
    have hpow : 2 ^ (height + 1) = 2 * 2 ^ height := by rw [Nat.pow_succ, Nat.mul_comm]
    have hpos := Nat.two_pow_pos height
    rw [Nat.succ_mul] at hend
    have htop := sliceHash_split sha256 entries start (2 ^ (height + 1)) (by omega) (by omega)
    rw [below_two_pow, show 2 ^ (height + 1) - 2 ^ height = 2 ^ height by omega] at htop
    rw [show 2 * (count + 1) = 2 * count + 1 + 1 by omega]
    simp only [blocks, pairUp]
    rw [← htop, show start + 2 ^ height + 2 ^ height = start + 2 ^ (height + 1) by omega,
      ih _ (by omega)]

/-- Folding `2 ^ r` neighbouring subtrees leaves the root of the subtree over them. -/
theorem foldLevel_blocks (height r start : Nat)
    (hend : start + 2 ^ (height + r) ≤ entries.length) :
    foldLevel sha256 (blocks sha256 entries height start (2 ^ r)) =
      [sliceHash sha256 entries start (2 ^ (height + r))] := by
  induction r generalizing height with
  | zero =>
    rw [foldLevel]
    simp [blocks]
  | succ r ih =>
    have hone : 1 < 2 ^ (r + 1) := Nat.one_lt_two_pow (by omega)
    have hpow : 2 ^ r * 2 ^ (height + 1) = 2 ^ (height + (r + 1)) := by
      rw [← Nat.pow_add]
      congr 1
      omega
    rw [foldLevel, if_pos (by rw [length_blocks]; exact hone), Nat.pow_succ, Nat.mul_comm,
      pairUp_blocks _ _ _ _ _ (by rw [hpow]; exact hend), ih _ (by
        rw [show height + 1 + r = height + (r + 1) by omega]; exact hend),
      show height + 1 + r = height + (r + 1) by omega]

/-! ### Tiles -/

/-- Where tile `index` of `level` starts in the log. -/
def tileStart (level index : Nat) : Nat := index * 256 * 2 ^ (8 * level)

/-- The bytes of a tile: its nodes, one after the other. -/
def tileContent (level index width : Nat) : Bytes :=
  (blocks sha256 entries (8 * level) (tileStart level index) width).flatMap Vector.toList

end

/-- How many nodes of a tile are inside a tree of `n` entries. -/
def tileWidth (n level index : Nat) : Nat := min ((n >>> (8 * level)) - index * 256) 256

theorem length_flatMap_toList (hashes : List Hash) :
    (hashes.flatMap Vector.toList).length = hashes.length * 32 := by
  induction hashes with
  | nil => rfl
  | cons a rest ih =>
    rw [List.flatMap_cons, List.length_append, ih, Vector.length_toList, List.length_cons]
    omega

theorem chunks_flatMap (hashes : List Hash) : chunks (hashes.flatMap Vector.toList) = hashes := by
  induction hashes with
  | nil => rw [chunks]; simp
  | cons a rest ih =>
    have hlen : a.toList.length = 32 := Vector.length_toList
    rw [chunks, dif_pos (by rw [length_flatMap_toList, List.length_cons]; omega)]
    congr 1
    · apply Vector.toArray_inj.mp
      show ((List.flatMap Vector.toList (a :: rest)).take 32).toArray = a.toArray
      rw [List.flatMap_cons, List.take_left' hlen]
      exact Array.toArray_toList
    · rw [List.flatMap_cons, List.drop_left' hlen, ih]

/-- A log that serves each tile of its first `n` entries as it was at that size, or,
where a partial tile is gone, the full tile of a larger prefix in its place. -/
def Serves (sha256 : Bytes → Hash) (source : TileSource) (entries : List Bytes) (n : Nat) : Prop :=
  ∀ level index, 0 < tileWidth n level index → ∀ name,
    tilePath level index (tileWidth n level index) = .ok name →
      source name = .ok (some (tileContent sha256 entries level index (tileWidth n level index))) ∨
      (tileWidth n level index < 256 ∧ source name = .ok none ∧
        tileStart level (index + 1) ≤ entries.length ∧
        ∀ full, tilePath level index 256 = .ok full →
          source full = .ok (some (tileContent sha256 entries level index 256)))

section Reads
variable {sha256 : Bytes → Hash} {source : TileSource} {entries : List Bytes} {n : Nat}

/-- What a tile has to hold for the reader: the nodes inside the authenticated tree. -/
def GoodTile (sha256 : Bytes → Hash) (entries : List Bytes) (n level index : Nat)
    (tile : List Hash) : Prop :=
  tile.take (tileWidth n level index) =
    blocks sha256 entries (8 * level) (tileStart level index) (tileWidth n level index)

theorem GoodTile.width_le {level index : Nat} {tile : List Hash}
    (h : GoodTile sha256 entries n level index tile) : tileWidth n level index ≤ tile.length := by
  have := congrArg List.length h
  rw [List.length_take, length_blocks] at this
  omega

/-- Coordinates inside the tree have a name. -/
theorem tilePath_ok {level width : Nat} (index : Nat) (hlevel : level ≤ 63) (hpos : 1 ≤ width)
    (hwidth : width ≤ 256) : ∃ name, tilePath level index width = .ok name := by
  unfold tilePath
  rw [if_pos ⟨hlevel, hpos, hwidth⟩]
  exact ⟨_, rfl⟩

/-- Nothing of a tree below `2 ^ 64` is on a level above seven. -/
theorem level_le_of_tileWidth_pos {level index : Nat} (h64 : n < 2 ^ 64)
    (hpos : 0 < tileWidth n level index) : level ≤ 63 := by
  by_contra hlevel
  have hzero : n >>> (8 * level) = 0 := by
    rw [Nat.shiftRight_eq_div_pow]
    exact Nat.div_eq_of_lt (Nat.lt_of_lt_of_le h64 (Nat.pow_le_pow_right (by decide) (by omega)))
  unfold tileWidth at hpos
  omega

/-- A served tile is fetched, whichever of the two forms the log still has. -/
theorem fetchTile_serves (hs : Serves sha256 source entries n) (h64 : n < 2 ^ 64)
    {level index : Nat} (hpos : 0 < tileWidth n level index) :
    ∃ tile, fetchTile source level index (tileWidth n level index) = .ok tile ∧
      GoodTile sha256 entries n level index tile := by
  have hlevel := level_le_of_tileWidth_pos h64 hpos
  have hwidth : tileWidth n level index ≤ 256 := Nat.min_le_right _ _
  obtain ⟨name, hname⟩ := tilePath_ok index hlevel hpos hwidth
  obtain ⟨full, hfull⟩ := tilePath_ok index hlevel (by decide : 1 ≤ 256) (Nat.le_refl _)
  have hlen : ∀ width, (tileContent sha256 entries level index width).length = width * 32 := by
    intro width
    rw [tileContent, length_flatMap_toList, length_blocks]
  unfold fetchTile
  rcases hs level index hpos name hname with hsome | ⟨hlt, hnone, _, hserved⟩
  · refine ⟨blocks sha256 entries (8 * level) (tileStart level index) (tileWidth n level index), ?_, ?_⟩
    · simp only [hname, hsome, bind, Except.bind]
      rw [if_pos ⟨hlen _, by rw [hlen, tileBytes]; omega⟩]
      exact congrArg Except.ok (chunks_flatMap _)
    · exact take_blocks _ _ _ _ _ _ (Nat.le_refl _)
  · refine ⟨blocks sha256 entries (8 * level) (tileStart level index) 256, ?_, ?_⟩
    · simp only [hname, hnone, hfull, hserved full hfull, hlt, bind, Except.bind, if_true]
      rw [if_pos ⟨hlen _, by rw [hlen, tileBytes]⟩]
      exact congrArg Except.ok (chunks_flatMap _)
    · exact take_blocks _ _ _ _ _ _ hwidth

/-! ### The cache -/

/-- Every cached tile is good. -/
def GoodCache (sha256 : Bytes → Hash) (entries : List Bytes) (n : Nat) (cache : Cache) : Prop :=
  ∀ level index tile, cache.lookup (level, index) = some tile →
    GoodTile sha256 entries n level index tile

theorem goodCache_empty : GoodCache sha256 entries n ∅ := by
  intro level index tile h
  cases h

/-- A read that succeeds with `value`, keeps the cache good and adds at most `cost`
tiles to it. -/
structure Reads (sha256 : Bytes → Hash) (entries : List Bytes) (n : Nat) {α : Type} (read : Read α)
    (cache : Cache) (value : α) (cost : Nat) (after : Cache) : Prop where
  ok : read cache = .ok (value, after)
  good : GoodCache sha256 entries n after
  size : after.entries.length ≤ cache.entries.length + cost

theorem stateT_pure_apply {ε σ α : Type} (a : α) (s : σ) :
    (StateT.pure a : StateT σ (Except ε) α) s = .ok (a, s) := rfl

theorem cachedTile_reads (hs : Serves sha256 source entries n) (h64 : n < 2 ^ 64)
    {level index : Nat} (hpos : 0 < tileWidth n level index) (cache : Cache)
    (hgood : GoodCache sha256 entries n cache) (hroom : cache.entries.length < 512) :
    ∃ tile after, GoodTile sha256 entries n level index tile ∧
      Reads sha256 entries n (cachedTile source level index (tileWidth n level index)) cache tile 1
        after := by
  by_cases hmem : (level, index) ∈ cache
  · obtain ⟨tile, htile⟩ := Option.isSome_iff_exists.mp (AList.lookup_isSome.mpr hmem)
    refine ⟨tile, cache, hgood _ _ _ htile, ⟨?_, hgood, Nat.le_succ _⟩⟩
    simp [cachedTile, bind, StateT.bind, get, getThe, MonadStateOf.get, StateT.get, pure,
      stateT_pure_apply, Except.bind, Except.pure, hmem, htile]
  · obtain ⟨tile, hfetch, htile⟩ := fetchTile_serves hs h64 hpos
    refine ⟨tile, cache.insert (level, index) tile, htile, ⟨?_, ?_, ?_⟩⟩
    · simp [cachedTile, bind, StateT.bind, get, getThe, MonadStateOf.get, StateT.get, pure,
        stateT_pure_apply, Except.bind, Except.pure, hmem, hroom, hfetch, liftM, monadLift, MonadLift.monadLift,
        StateT.lift, modify, modifyGet, MonadStateOf.modifyGet, StateT.modifyGet]
    · intro level' index' tile' h
      by_cases heq : (level', index') = (level, index)
      · obtain ⟨rfl, rfl⟩ := Prod.mk.inj heq
        rw [AList.lookup_insert] at h
        obtain rfl := Option.some.inj h
        exact htile
      · rw [AList.lookup_insert_ne heq] at h
        exact hgood _ _ _ h
    · rw [AList.entries_insert_of_notMem hmem]
      exact Nat.le_refl _

/-! ### Perfect subtrees -/

theorem trailingZeros_two_pow (h : Nat) (hpos : 0 < 2 ^ h) : trailingZeros (2 ^ h) hpos = h := by
  induction h with
  | zero => rw [trailingZeros]; simp
  | succ h ih =>
    rw [trailingZeros, dif_neg (by rw [Nat.pow_succ]; omega)]
    have hhalf : 2 ^ (h + 1) / 2 = 2 ^ h := by
      rw [Nat.pow_succ]
      omega
    simp only [hhalf, ih]

/-- Where a perfect subtree lies: the tile, the first node in it, and that all its
nodes are inside the authenticated part of that tile. -/
theorem perfect_place {start height : Nat} (haligned : 2 ^ height ∣ start)
    (hend : start + 2 ^ height ≤ n) :
    (start >>> (8 * (height / 8))) % 256 + 1 <<< (height % 8) ≤
        tileWidth n (height / 8) ((start >>> (8 * (height / 8))) / 256) ∧
      tileStart (height / 8) ((start >>> (8 * (height / 8))) / 256) +
        (start >>> (8 * (height / 8))) % 256 * 2 ^ (8 * (height / 8)) = start := by
  have hheight : height = 8 * (height / 8) + height % 8 := (Nat.div_add_mod height 8).symm
  generalize height / 8 = level at *
  generalize hr : height % 8 = r at *
  have hr8 : r < 8 := by omega
  subst hheight
  rw [Nat.pow_add] at haligned hend
  have hunit : 0 < 2 ^ (8 * level) := Nat.two_pow_pos _
  obtain ⟨k, rfl⟩ := haligned
  have hindex : (2 ^ (8 * level) * 2 ^ r * k) >>> (8 * level) = 2 ^ r * k := by
    rw [Nat.shiftRight_eq_div_pow, Nat.mul_assoc, Nat.mul_div_cancel_left _ hunit]
  have hnodes : 2 ^ r * k + 2 ^ r ≤ n >>> (8 * level) := by
    rw [Nat.shiftRight_eq_div_pow, Nat.le_div_iff_mul_le hunit]
    calc (2 ^ r * k + 2 ^ r) * 2 ^ (8 * level)
        = 2 ^ (8 * level) * 2 ^ r * k + 2 ^ (8 * level) * 2 ^ r := by ring
      _ ≤ n := hend
  -- 2 ^ r divides 256, so the nodes of the subtree do not cross the tile's end
  obtain ⟨c, hc⟩ : 2 ^ r ∣ 256 := Nat.pow_dvd_pow 2 (by omega : r ≤ 8)
  have hfit : 2 ^ r * k % 256 + 2 ^ r ≤ 256 := by
    have hpos : 0 < c := by
      rcases Nat.eq_zero_or_pos c with rfl | h
      · omega
      · exact h
    rw [hc, Nat.mul_mod_mul_left]
    have := Nat.mod_lt k hpos
    calc 2 ^ r * (k % c) + 2 ^ r = 2 ^ r * (k % c + 1) := by ring
      _ ≤ 2 ^ r * c := Nat.mul_le_mul_left _ this
  rw [hindex, Nat.one_shiftLeft, tileWidth, tileStart]
  refine ⟨?_, ?_⟩
  · have := Nat.div_add_mod (2 ^ r * k) 256
    omega
  · calc 2 ^ r * k / 256 * 256 * 2 ^ (8 * level) + 2 ^ r * k % 256 * 2 ^ (8 * level)
        = (256 * (2 ^ r * k / 256) + 2 ^ r * k % 256) * 2 ^ (8 * level) := by ring
      _ = 2 ^ r * k * 2 ^ (8 * level) := by rw [Nat.div_add_mod]
      _ = 2 ^ (8 * level) * 2 ^ r * k := by ring

/-- A slice of a good tile folds to the root of the subtree it covers. -/
theorem sliceRoot_good {level index offset r : Nat} {tile : List Hash}
    (htile : GoodTile sha256 entries n level index tile)
    (hfit : offset + 2 ^ r ≤ tileWidth n level index)
    (hend : tileStart level index + offset * 2 ^ (8 * level) + 2 ^ (8 * level + r) ≤
      entries.length) :
    sliceRoot sha256 tile offset (2 ^ r) =
      .ok (sliceHash sha256 entries (tileStart level index + offset * 2 ^ (8 * level))
        (2 ^ (8 * level + r))) := by
  have hwidth := htile.width_le
  have hpow := Nat.two_pow_pos r
  have hslice : (tile.drop offset).take (2 ^ r) =
      blocks sha256 entries (8 * level) (tileStart level index + offset * 2 ^ (8 * level))
        (2 ^ r) := by
    have hin : (tile.drop offset).take (2 ^ r) =
        ((tile.take (tileWidth n level index)).drop offset).take (2 ^ r) := by
      rw [List.drop_take, List.take_take, Nat.min_eq_left (by omega)]
    rw [hin, htile, drop_blocks _ _ _ _ _ _ (by omega), take_blocks _ _ _ _ _ _ (by omega)]
  unfold sliceRoot
  rw [if_pos (by omega), hslice, foldLevel_blocks _ _ _ _ _ hend]

/-- **A perfect subtree of the authenticated tree is read as its root.** -/
theorem perfectRoot_reads (hs : Serves sha256 source entries n) (h64 : n < 2 ^ 64)
    (hn : n ≤ entries.length) {start height : Nat} (haligned : 2 ^ height ∣ start)
    (hend : start + 2 ^ height ≤ n) (hpos : 0 < 2 ^ height) (cache : Cache)
    (hgood : GoodCache sha256 entries n cache) (hroom : cache.entries.length < 512) :
    ∃ after, Reads sha256 entries n (perfectRoot sha256 source n start (2 ^ height) hpos) cache
      (sliceHash sha256 entries start (2 ^ height)) 1 after := by
  obtain ⟨hfit, hplace⟩ := perfect_place haligned hend
  have hcount : 0 < 1 <<< (height % 8) := by
    rw [Nat.one_shiftLeft]
    exact Nat.two_pow_pos _
  obtain ⟨tile, after, htile, hok, hgood', hsize⟩ :=
    cachedTile_reads hs h64 (Nat.lt_of_lt_of_le (by omega) hfit) cache hgood hroom
  have hguard : (isPowerOfTwo (2 ^ height) && start % 2 ^ height == 0 &&
      endsWithin start (2 ^ height) n) = true := by
    rw [isPowerOfTwo_two_pow, Nat.mod_eq_zero_of_dvd haligned]
    simp only [endsWithin, Bool.true_and, beq_self_eq_true, Bool.and_eq_true, decide_eq_true_eq]
    exact ⟨by omega, hend⟩
  have hroot := sliceRoot_good htile (r := height % 8) (by
    rw [← Nat.one_shiftLeft]; exact hfit) (by
    rw [hplace, Nat.div_add_mod]; omega)
  rw [hplace, Nat.div_add_mod, ← Nat.one_shiftLeft] at hroot
  refine ⟨after, ⟨?_, hgood', hsize⟩⟩
  unfold perfectRoot
  rw [hguard]
  simp only [trailingZeros_two_pow, if_true]
  rw [if_pos (show _ ≤ min _ _ from hfit)]
  show (cachedTile source (height / 8) _ (tileWidth n (height / 8) _) >>= _) cache = _
  simp only [bind, StateT.bind, hok, Except.bind]
  rw [hroot]
  rfl

end Reads

end Attest.Publication.Tiles
