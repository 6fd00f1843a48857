import Attest.Publication.TileReads

/-! The paths a `TileReader` returns are the tree's.

A range of a proof is assembled with a stack of tasks. One lemma says what a task
on top of the stack does, whatever is below it (`rangeLoop_task`): it is replaced
by the root of its subtree. The rest is counting, so that the cache never fills,
and that the ranges of a proof are the subtrees the RFC's recursion names. -/
namespace Attest.Publication.Tiles
open Library Library.HashTree Merkle

/-! ### Ranges that are nodes of the tree -/

/-- A range that starts at a multiple of a power of two no smaller than it. -/
def Aligned (start size : Nat) : Prop := ∃ height, size ≤ 2 ^ height ∧ 2 ^ height ∣ start

theorem aligned_zero {size : Nat} (height : Nat) (h : size ≤ 2 ^ height) : Aligned 0 size :=
  ⟨height, h, Nat.dvd_zero _⟩

theorem Aligned.left {start size : Nat} (h : Aligned start size) (h2 : 2 ≤ size) :
    Aligned start (below size) := by
  obtain ⟨height, hle, hdvd⟩ := h
  exact ⟨height, Nat.le_trans (Nat.le_of_lt (below_lt h2)) hle, hdvd⟩

/-- A power of two below an aligned size divides its start. -/
theorem Aligned.dvd {start size k : Nat} (h : Aligned start size) (hk : 2 ^ k ≤ size) :
    2 ^ k ∣ start := by
  obtain ⟨height, hle, hdvd⟩ := h
  have : k ≤ height := (Nat.pow_le_pow_iff_right (by decide)).mp (Nat.le_trans hk hle)
  exact Nat.dvd_trans (Nat.pow_dvd_pow 2 this) hdvd

theorem Aligned.right {start size : Nat} (h : Aligned start size) (h2 : 2 ≤ size) :
    Aligned (start + below size) (size - below size) := by
  have hle := le_two_mul_below h2
  have hlt := below_lt h2
  unfold below at hle hlt ⊢
  exact ⟨_, by omega, Nat.dvd_add (h.dvd (Nat.le_of_lt hlt)) (Nat.dvd_refl _)⟩

theorem isPowerOfTwo_iff {size : Nat} : isPowerOfTwo size = true ↔ ∃ height, size = 2 ^ height := by
  constructor
  · intro h
    exact ⟨_, eq_of_beq h⟩
  · rintro ⟨height, rfl⟩
    exact isPowerOfTwo_two_pow height

/-! ### How many tiles a range costs -/

/-- The number of perfect subtrees a range is taken apart into. -/
def pieces (size : Nat) : Nat :=
  if isPowerOfTwo size || decide (size < 2) then 1 else pieces (size - below size) + 1
termination_by size
decreasing_by
  rename_i h
  simp only [Bool.or_eq_true, decide_eq_true_eq, not_or] at h
  exact sub_below_lt (by omega)

theorem pieces_two_pow (height : Nat) : pieces (2 ^ height) = 1 := by
  rw [pieces, isPowerOfTwo_two_pow]
  rfl

theorem pieces_split {size : Nat} (h2 : 2 ≤ size) (hp : isPowerOfTwo size = false) :
    pieces size = pieces (size - below size) + 1 := by
  rw [pieces, hp]
  simp only [Bool.false_or, decide_eq_true_eq]
  rw [if_neg (by omega)]

theorem pieces_le {size : Nat} (height : Nat) (h : size ≤ 2 ^ height) (hpos : 0 < size) :
    pieces size ≤ height + 1 := by
  induction height generalizing size with
  | zero =>
    obtain rfl : size = 2 ^ 0 := by omega
    rw [pieces_two_pow]
  | succ height ih =>
    cases hp : isPowerOfTwo size with
    | true =>
      obtain ⟨k, rfl⟩ := isPowerOfTwo_iff.mp hp
      rw [pieces_two_pow]
      omega
    | false =>
      have h3 := three_le_of_not_isPowerOfTwo hpos hp
      rw [pieces_split (by omega) hp]
      have := ih (sub_below_le_two_pow (by omega) h) (sub_below_pos (by omega))
      omega

/-! ### The stack -/

section Stack
variable {sha256 : Bytes → Hash} {source : TileSource} {entries : List Bytes} {n : Nat}

theorem rangeLoop_perfect {start size : Nat} {hpos : 0 < size} {pending : List Task}
    {roots : List Hash} {cache after : Cache} {root : Hash} (hp : isPowerOfTwo size = true)
    (hroot : perfectRoot sha256 source n start size hpos cache = .ok (root, after)) :
    rangeLoop sha256 source n (⟨start, size, false, hpos⟩ :: pending) roots cache =
      rangeLoop sha256 source n pending (root :: roots) after := by
  rw [rangeLoop.eq_def]
  simp only [Bool.false_eq_true, if_false, hp, dite_true, bind, StateT.bind, hroot, Except.bind]

theorem rangeLoop_split {start size : Nat} {hpos : 0 < size} {pending : List Task}
    {roots : List Hash} {cache : Cache} (h2 : 2 ≤ size) (hp : isPowerOfTwo size = false) :
    rangeLoop sha256 source n (⟨start, size, false, hpos⟩ :: pending) roots cache =
      rangeLoop sha256 source n
        (⟨start, split size, false, split_pos _⟩ ::
          ⟨start + split size, size - split size, false, Nat.sub_pos_of_lt (split_lt h2)⟩ ::
          ⟨start, size, true, hpos⟩ :: pending) roots cache := by
  rw [rangeLoop.eq_def]
  simp only [Bool.false_eq_true, if_false, hp, dite_false]

theorem rangeLoop_join {start size : Nat} {hpos : 0 < size} {pending : List Task}
    {left right : Hash} {roots : List Hash} {cache : Cache} :
    rangeLoop sha256 source n (⟨start, size, true, hpos⟩ :: pending) (right :: left :: roots) cache =
      rangeLoop sha256 source n pending (nodeHash sha256 left right :: roots) cache := by
  rw [rangeLoop]
  simp only [if_true]

/-- A task on top of the stack becomes the root of its subtree. -/
theorem rangeLoop_task (hs : Serves sha256 source entries n) (h64 : n < 2 ^ 64)
    (hn : n ≤ entries.length) (size : Nat) (hpos : 0 < size) (start : Nat)
    (haligned : Aligned start size) (hend : start + size ≤ n) (pending : List Task)
    (roots : List Hash) (cache : Cache) (hgood : GoodCache sha256 entries n cache)
    (hroom : cache.entries.length + pieces size ≤ 512) :
    ∃ after, GoodCache sha256 entries n after ∧
      after.entries.length ≤ cache.entries.length + pieces size ∧
      rangeLoop sha256 source n (⟨start, size, false, hpos⟩ :: pending) roots cache =
        rangeLoop sha256 source n pending (sliceHash sha256 entries start size :: roots) after := by
  induction size using Nat.strongRecOn generalizing start pending roots cache with
  | ind size ih =>
    cases hp : isPowerOfTwo size with
    | true =>
      obtain ⟨height, rfl⟩ := isPowerOfTwo_iff.mp hp
      rw [pieces_two_pow] at hroom ⊢
      obtain ⟨after, hread⟩ := perfectRoot_reads hs h64 hn (haligned.dvd (Nat.le_refl _)) hend hpos
        cache hgood (by omega)
      exact ⟨after, hread.good, hread.size, rangeLoop_perfect hp hread.ok⟩
    | false =>
      have h3 := three_le_of_not_isPowerOfTwo hpos hp
      have h2 : 2 ≤ size := by omega
      have hsplit := split_eq_below h2 (by omega)
      have hlt := below_lt h2
      have hbelow : pieces (below size) = 1 := pieces_two_pow _
      have hpieces := pieces_split h2 hp
      obtain ⟨mid, hmid, hmidSize, hleft⟩ := ih (split size) (split_lt h2) (split_pos size) start
        (by rw [hsplit]; exact haligned.left h2) (by omega)
        (⟨start + split size, size - split size, false, Nat.sub_pos_of_lt (split_lt h2)⟩ ::
          ⟨start, size, true, hpos⟩ :: pending) roots cache hgood
        (by rw [hsplit, hbelow]; omega)
      rw [hsplit, hbelow] at hmidSize
      obtain ⟨after, hafter, hafterSize, hright⟩ := ih (size - split size)
        (Nat.sub_lt hpos (split_pos size)) (Nat.sub_pos_of_lt (split_lt h2)) (start + split size)
        (by rw [hsplit]; exact haligned.right h2) (by omega)
        (⟨start, size, true, hpos⟩ :: pending) (sliceHash sha256 entries start (split size) :: roots)
        mid hmid (by rw [hsplit]; omega)
      rw [hsplit] at hafterSize
      refine ⟨after, hafter, by omega, ?_⟩
      rw [rangeLoop_split h2 hp, hleft, hright, rangeLoop_join,
        sliceHash_split sha256 entries start size h2 (by omega), hsplit]

/-- **Any node of the authenticated tree is read as its root.** -/
theorem rangeRoot_reads (hs : Serves sha256 source entries n) (h64 : n < 2 ^ 64)
    (hn : n ≤ entries.length) {start size : Nat} (hpos : 0 < size) (haligned : Aligned start size)
    (hend : start + size ≤ n) (cache : Cache) (hgood : GoodCache sha256 entries n cache)
    (hroom : cache.entries.length + pieces size ≤ 512) :
    ∃ after, Reads sha256 entries n (rangeRoot sha256 source n start size) cache
      (sliceHash sha256 entries start size) (pieces size) after := by
  obtain ⟨after, hafter, hsize, hloop⟩ := rangeLoop_task hs h64 hn size hpos start haligned hend []
    [] cache hgood hroom
  refine ⟨after, ⟨?_, hafter, hsize⟩⟩
  have hguard : 0 < size ∧ endsWithin start size n = true := by
    refine ⟨hpos, ?_⟩
    simp only [endsWithin, Bool.and_eq_true, decide_eq_true_eq]
    exact ⟨by omega, hend⟩
  unfold rangeRoot
  rw [dif_pos hguard]
  simp only [bind, StateT.bind, hloop, rangeLoop]
  rfl

/-- The ranges of a proof, one after the other. -/
theorem mapM_reads (hs : Serves sha256 source entries n) (h64 : n < 2 ^ 64)
    (hn : n ≤ entries.length) (ranges : List (Nat × Nat))
    (hranges : ∀ range ∈ ranges, 0 < range.2 ∧ Aligned range.1 range.2 ∧ range.1 + range.2 ≤ n)
    (cache : Cache) (hgood : GoodCache sha256 entries n cache)
    (hroom : cache.entries.length + (ranges.map fun range => pieces range.2).sum ≤ 512) :
    ∃ after, Reads sha256 entries n
      (ranges.mapM fun range => rangeRoot sha256 source n range.1 range.2) cache
      (ranges.map fun range => sliceHash sha256 entries range.1 range.2)
      (ranges.map fun range => pieces range.2).sum after := by
  induction ranges generalizing cache with
  | nil => exact ⟨cache, ⟨rfl, hgood, Nat.le_refl _⟩⟩
  | cons range rest ih =>
    simp only [List.map_cons, List.sum_cons] at hroom ⊢
    obtain ⟨hpos, haligned, hend⟩ := hranges range List.mem_cons_self
    obtain ⟨mid, hread⟩ := rangeRoot_reads hs h64 hn hpos haligned hend cache hgood (by omega)
    have hsize := hread.size
    obtain ⟨after, hrest⟩ := ih (fun r hr => hranges r (List.mem_cons_of_mem _ hr)) mid hread.good
      (by omega)
    have hsize' := hrest.size
    refine ⟨after, ⟨?_, hrest.good, by omega⟩⟩
    rw [List.mapM_cons]
    simp only [bind, StateT.bind, hread.ok, Except.bind, hrest.ok]
    rfl

end Stack

/-! ### The ranges of an inclusion proof -/

theorem inclusionWalk_left {index start size : Nat} {hsize : 0 < size} (h2 : 2 ≤ size)
    (h64 : size < 2 ^ 64) (hi : index < below size) :
    inclusionWalk index start size hsize =
      inclusionWalk index start (below size) (below_pos size) ++
        [(start + below size, size - below size)] := by
  have hsplit := split_eq_below h2 h64
  rw [inclusionWalk, dif_neg (by omega), if_pos (hsplit ▸ hi)]
  simp only [hsplit]

theorem inclusionWalk_right {index start size : Nat} {hsize : 0 < size} (h2 : 2 ≤ size)
    (h64 : size < 2 ^ 64) (hi : ¬ index < below size) :
    inclusionWalk index start size hsize =
      inclusionWalk (index - below size) (start + below size) (size - below size)
        (sub_below_pos h2) ++ [(start, below size)] := by
  have hsplit := split_eq_below h2 h64
  rw [inclusionWalk, dif_neg (by omega), if_neg (hsplit ▸ hi)]
  simp only [hsplit]

theorem inclusionWalk_one {index start : Nat} (h1 : 0 < 1) :
    inclusionWalk index start 1 h1 = [] := by
  rw [inclusionWalk, dif_pos rfl]

/-- Every range of the walk is a node of the tree it walks. -/
theorem inclusionWalk_nodes (size : Nat) (hsize : 0 < size) (h64 : size < 2 ^ 64)
    (index start : Nat) (haligned : Aligned start size) :
    ∀ range ∈ inclusionWalk index start size hsize,
      0 < range.2 ∧ Aligned range.1 range.2 ∧ range.1 + range.2 ≤ start + size := by
  induction size, hsize using size_induction generalizing index start with
  | one => rw [inclusionWalk_one]; simp
  | split size _ h2 ihl ihr =>
    have hlt := below_lt h2
    have hpos := below_pos size
    intro range hrange
    by_cases hi : index < below size
    · rw [inclusionWalk_left h2 h64 hi] at hrange
      rcases List.mem_append.mp hrange with hrange | hrange
      · obtain ⟨h0, hal, hle⟩ := ihl (by omega) index start (haligned.left h2) range hrange
        exact ⟨h0, hal, by omega⟩
      · obtain rfl := List.mem_singleton.mp hrange
        exact ⟨sub_below_pos h2, haligned.right h2, by omega⟩
    · rw [inclusionWalk_right h2 h64 hi] at hrange
      rcases List.mem_append.mp hrange with hrange | hrange
      · obtain ⟨h0, hal, hle⟩ := ihr (by omega) _ _ (haligned.right h2) range hrange
        exact ⟨h0, hal, by omega⟩
      · obtain rfl := List.mem_singleton.mp hrange
        exact ⟨hpos, haligned.left h2, by omega⟩

/-- The hashes of the walk's ranges are the audit path. -/
theorem inclusionWalk_auditPath (sha256 : Bytes → Hash) (entries : List Bytes) (size : Nat)
    (hsize : 0 < size) (h64 : size < 2 ^ 64) (index start : Nat)
    (hend : start + size ≤ entries.length) :
    (inclusionWalk index start size hsize).map
        (fun range => sliceHash sha256 entries range.1 range.2) =
      auditPath (query sha256) (slice entries start size) index := by
  induction size, hsize using size_induction generalizing index start with
  | one => rw [inclusionWalk_one, auditPath_of_length _ (length_slice hend)]; rfl
  | split size _ h2 ihl ihr =>
    have hlt := below_lt h2
    have hpos := below_pos size
    have hlen := length_slice hend
    by_cases hi : index < below size
    · rw [inclusionWalk_left h2 h64 hi, auditPath_left _ (by omega) (by rw [hlen]; exact hi), hlen,
        take_slice _ _ _ _ (by omega), drop_slice, List.map_append,
        ihl (by omega) index start (by omega)]
      rfl
    · rw [inclusionWalk_right h2 h64 hi, auditPath_right _ (by omega) (by rw [hlen]; exact hi), hlen,
        take_slice _ _ _ _ (by omega), drop_slice, List.map_append,
        ihr (by omega) (index - below size) (start + below size) (by omega)]
      rfl

/-- The tiles a list of ranges can cost. -/
def cost (ranges : List (Nat × Nat)) : Nat := (ranges.map fun range => pieces range.2).sum

theorem cost_append_singleton (ranges : List (Nat × Nat)) (range : Nat × Nat) :
    cost (ranges ++ [range]) = cost ranges + pieces range.2 := by
  simp [cost]

/-- Inside a perfect subtree every sibling is perfect. -/
theorem inclusionWalk_cost_two_pow (height : Nat) (h64 : 2 ^ height < 2 ^ 64) (index start : Nat)
    (hpos : 0 < 2 ^ height) : cost (inclusionWalk index start (2 ^ height) hpos) ≤ height := by
  induction height generalizing index start with
  | zero =>
    show cost (inclusionWalk index start 1 _) ≤ 0
    rw [inclusionWalk_one]
    rfl
  | succ height ih =>
    have hpow : 2 ^ (height + 1) = 2 * 2 ^ height := by rw [Nat.pow_succ, Nat.mul_comm]
    have h2 : 2 ≤ 2 ^ (height + 1) := by
      have := Nat.two_pow_pos height
      omega
    have hrest : 2 ^ (height + 1) - 2 ^ height = 2 ^ height := by omega
    by_cases hi : index < below (2 ^ (height + 1))
    · rw [inclusionWalk_left h2 h64 hi, cost_append_singleton]
      simp only [hrest, below_two_pow, pieces_two_pow]
      exact Nat.succ_le_succ (ih (by omega) _ _ _)
    · rw [inclusionWalk_right h2 h64 hi, cost_append_singleton]
      simp only [hrest, below_two_pow, pieces_two_pow]
      exact Nat.succ_le_succ (ih (by omega) _ _ _)

theorem inclusionWalk_cost (size : Nat) (hsize : 0 < size) (h64 : size < 2 ^ 64)
    (index start height : Nat) (hheight : size ≤ 2 ^ height) :
    cost (inclusionWalk index start size hsize) ≤ 2 * height := by
  induction size, hsize using size_induction generalizing index start height with
  | one => rw [inclusionWalk_one]; exact Nat.zero_le _
  | split size _ h2 ihl ihr =>
    have hlt := below_lt h2
    obtain ⟨k, rfl⟩ := height_pos h2 hheight
    have hleft := below_le_two_pow h2 hheight
    have hright := sub_below_le_two_pow h2 hheight
    by_cases hi : index < below size
    · -- from here down the tree is perfect; only this sibling need not be
      have hlog : Nat.log2 (size - 1) ≤ k := (Nat.pow_le_pow_iff_right (by decide)).mp hleft
      have hperfect := inclusionWalk_cost_two_pow (Nat.log2 (size - 1))
        (show below size < 2 ^ 64 by omega) index start (below_pos size)
      have hsibling := pieces_le k hright (sub_below_pos h2)
      rw [inclusionWalk_left h2 h64 hi, cost_append_singleton]
      show cost (inclusionWalk index start (2 ^ Nat.log2 (size - 1)) _) +
        pieces (size - below size) ≤ _
      omega
    · have hrest := ihr (by omega) (index - below size) (start + below size) k hright
      have hleftCost : pieces (below size) = 1 := pieces_two_pow _
      rw [inclusionWalk_right h2 h64 hi, cost_append_singleton, hleftCost]
      omega

/-! ### The ranges of a consistency proof -/

theorem consistencyWalk_equal {old start size : Nat} {hold : 0 < old} {hle : old ≤ size}
    {complete : Bool} (heq : old = size) :
    consistencyWalk old start size hold hle complete = if complete then [] else [(start, size)] := by
  rw [consistencyWalk, dif_pos heq]

theorem consistencyWalk_left {old start size : Nat} {hold : 0 < old} {hle : old ≤ size}
    {complete : Bool} (h2 : 2 ≤ size) (h64 : size < 2 ^ 64) (hne : old ≠ size)
    (hleft : old ≤ below size) :
    consistencyWalk old start size hold hle complete =
      consistencyWalk old start (below size) hold hleft complete ++
        [(start + below size, size - below size)] := by
  have hsplit := split_eq_below h2 h64
  rw [consistencyWalk, dif_neg hne, dif_pos (hsplit ▸ hleft)]
  simp only [hsplit]

theorem consistencyWalk_right {old start size : Nat} {hold : 0 < old} {hle : old ≤ size}
    {complete : Bool} (h2 : 2 ≤ size) (h64 : size < 2 ^ 64) (hne : old ≠ size)
    (hright : ¬ old ≤ below size) :
    consistencyWalk old start size hold hle complete =
      consistencyWalk (old - below size) (start + below size) (size - below size)
        (Nat.sub_pos_of_lt (Nat.lt_of_not_le hright)) (Nat.sub_le_sub_right hle _) false ++
        [(start, below size)] := by
  have hsplit := split_eq_below h2 h64
  rw [consistencyWalk, dif_neg hne, dif_neg (hsplit ▸ hright)]
  simp only [hsplit]

theorem consistencyWalk_nodes (size : Nat) (hsize : 0 < size) (h64 : size < 2 ^ 64)
    (old start : Nat) (hold : 0 < old) (hle : old ≤ size) (complete : Bool)
    (haligned : Aligned start size) :
    ∀ range ∈ consistencyWalk old start size hold hle complete,
      0 < range.2 ∧ Aligned range.1 range.2 ∧ range.1 + range.2 ≤ start + size := by
  induction size, hsize using size_induction generalizing old start complete with
  | one =>
    rw [consistencyWalk_equal (by omega)]
    intro range hrange
    split at hrange
    · cases hrange
    · obtain rfl := List.mem_singleton.mp hrange
      exact ⟨Nat.one_pos, haligned, Nat.le_refl _⟩
  | split size hsize h2 ihl ihr =>
    have hlt := below_lt h2
    have hpos := below_pos size
    intro range hrange
    by_cases heq : old = size
    · rw [consistencyWalk_equal heq] at hrange
      split at hrange
      · cases hrange
      · obtain rfl := List.mem_singleton.mp hrange
        exact ⟨hsize, haligned, Nat.le_refl _⟩
    · by_cases hleft : old ≤ below size
      · rw [consistencyWalk_left h2 h64 heq hleft] at hrange
        rcases List.mem_append.mp hrange with hrange | hrange
        · obtain ⟨h0, hal, hend⟩ := ihl (by omega) old start hold hleft complete (haligned.left h2)
            range hrange
          exact ⟨h0, hal, by omega⟩
        · obtain rfl := List.mem_singleton.mp hrange
          exact ⟨sub_below_pos h2, haligned.right h2, by omega⟩
      · rw [consistencyWalk_right h2 h64 heq hleft] at hrange
        rcases List.mem_append.mp hrange with hrange | hrange
        · obtain ⟨h0, hal, hend⟩ := ihr (by omega) _ _ (by omega) (by omega) false
            (haligned.right h2) range hrange
          exact ⟨h0, hal, by omega⟩
        · obtain rfl := List.mem_singleton.mp hrange
          exact ⟨hpos, haligned.left h2, by omega⟩

/-- One range for the whole list, or none where its hash is known. -/
theorem wholeRange_subproof (sha256 : Bytes → Hash) (entries : List Bytes) (start size : Nat)
    (complete : Bool) (hend : start + size ≤ entries.length) :
    (if complete then [] else [(start, size)]).map
        (fun range => sliceHash sha256 entries range.1 range.2) =
      subproof (query sha256) size (slice entries start size) complete := by
  have hall := subproof_all (query sha256) (slice entries start size) complete
  rw [length_slice hend] at hall
  rw [hall]
  cases complete <;> rfl

/-- The hashes of the walk's ranges are the subproof. -/
theorem consistencyWalk_subproof (sha256 : Bytes → Hash) (entries : List Bytes) (size : Nat)
    (hsize : 0 < size) (h64 : size < 2 ^ 64) (old start : Nat) (hold : 0 < old) (hle : old ≤ size)
    (complete : Bool) (hend : start + size ≤ entries.length) :
    (consistencyWalk old start size hold hle complete).map
        (fun range => sliceHash sha256 entries range.1 range.2) =
      subproof (query sha256) old (slice entries start size) complete := by
  induction size, hsize using size_induction generalizing old start complete with
  | one =>
    obtain rfl : old = 1 := by omega
    rw [consistencyWalk_equal rfl]
    exact wholeRange_subproof sha256 entries start 1 complete hend
  | split size _ h2 ihl ihr =>
    have hlt := below_lt h2
    have hpos := below_pos size
    have hlen := length_slice hend
    by_cases heq : old = size
    · subst heq
      rw [consistencyWalk_equal rfl]
      exact wholeRange_subproof sha256 entries start old complete hend
    · by_cases hleft : old ≤ below size
      · rw [consistencyWalk_left h2 h64 heq hleft,
          subproof_left _ (by omega) (by rw [hlen]; exact hleft), hlen,
          take_slice _ _ _ _ (by omega), drop_slice, List.map_append,
          ihl (by omega) old start hold hleft complete (by omega)]
        rfl
      · rw [consistencyWalk_right h2 h64 heq hleft,
          subproof_right _ (by omega) (by rw [hlen]; exact hleft), hlen,
          take_slice _ _ _ _ (by omega), drop_slice, List.map_append,
          ihr (by omega) (old - below size) (start + below size) (by omega) (by omega) false
            (by omega)]
        rfl

theorem wholeRange_cost (start size : Nat) (complete : Bool) (hpos : 0 < size) (height : Nat)
    (h : size ≤ 2 ^ height) : cost (if complete then [] else [(start, size)]) ≤ height + 1 := by
  cases complete with
  | true => exact Nat.zero_le _
  | false =>
    have := pieces_le height h hpos
    simpa [cost] using this

theorem consistencyWalk_cost_two_pow (height : Nat) (h64 : 2 ^ height < 2 ^ 64) (old start : Nat)
    (hold : 0 < old) (hle : old ≤ 2 ^ height) (complete : Bool) :
    cost (consistencyWalk old start (2 ^ height) hold hle complete) ≤ height + 1 := by
  induction height generalizing old start complete with
  | zero =>
    rw [consistencyWalk_equal (by omega)]
    exact wholeRange_cost start _ complete (by omega) 0 (Nat.le_refl _)
  | succ height ih =>
    have hpow : 2 ^ (height + 1) = 2 * 2 ^ height := by rw [Nat.pow_succ, Nat.mul_comm]
    have hhalf := Nat.two_pow_pos height
    have h2 : 2 ≤ 2 ^ (height + 1) := by omega
    have hrest : 2 ^ (height + 1) - 2 ^ height = 2 ^ height := by omega
    by_cases heq : old = 2 ^ (height + 1)
    · rw [consistencyWalk_equal heq]
      exact wholeRange_cost start _ complete (by omega) _ (Nat.le_refl _)
    · by_cases hleft : old ≤ below (2 ^ (height + 1))
      · rw [consistencyWalk_left h2 h64 heq hleft, cost_append_singleton]
        simp only [hrest, below_two_pow, pieces_two_pow]
        exact Nat.succ_le_succ (ih (by omega) _ _ _ _ _)
      · rw [consistencyWalk_right h2 h64 heq hleft, cost_append_singleton]
        simp only [hrest, below_two_pow, pieces_two_pow]
        exact Nat.succ_le_succ (ih (by omega) _ _ _ _ _)

theorem consistencyWalk_cost (size : Nat) (hsize : 0 < size) (h64 : size < 2 ^ 64)
    (old start : Nat) (hold : 0 < old) (hle : old ≤ size) (complete : Bool) (height : Nat)
    (hheight : size ≤ 2 ^ height) :
    cost (consistencyWalk old start size hold hle complete) ≤ 2 * height + 1 := by
  induction size, hsize using size_induction generalizing old start complete height with
  | one =>
    rw [consistencyWalk_equal (by omega)]
    have := wholeRange_cost start 1 complete Nat.one_pos 0 (Nat.le_refl _)
    omega
  | split size hsize h2 ihl ihr =>
    have hlt := below_lt h2
    obtain ⟨k, rfl⟩ := height_pos h2 hheight
    have hleftPow := below_le_two_pow h2 hheight
    have hright := sub_below_le_two_pow h2 hheight
    by_cases heq : old = size
    · rw [consistencyWalk_equal heq]
      have := wholeRange_cost start size complete hsize _ hheight
      omega
    · by_cases hleft : old ≤ below size
      · have hlog : Nat.log2 (size - 1) ≤ k := (Nat.pow_le_pow_iff_right (by decide)).mp hleftPow
        have hperfect := consistencyWalk_cost_two_pow (Nat.log2 (size - 1))
          (show below size < 2 ^ 64 by omega) old start hold hleft complete
        have hsibling := pieces_le k hright (sub_below_pos h2)
        rw [consistencyWalk_left h2 h64 heq hleft, cost_append_singleton]
        show cost (consistencyWalk old start (2 ^ Nat.log2 (size - 1)) _ _ complete) +
          pieces (size - below size) ≤ _
        omega
      · have hrest := ihr (by omega) (old - below size) (start + below size) (by omega) (by omega)
          false k hright
        have hleftCost : pieces (below size) = 1 := pieces_two_pow _
        rw [consistencyWalk_right h2 h64 heq hleft, cost_append_singleton, hleftCost]
        omega

/-! ### The paths -/

section Paths
variable {sha256 : Bytes → Hash} {source : TileSource} {entries : List Bytes} {n : Nat}

theorem slice_zero (entries : List Bytes) (n : Nat) : slice entries 0 n = entries.take n := by
  rw [slice, List.drop_zero]

theorem inclusion_reads (hs : Serves sha256 source entries n) (h64 : n < 2 ^ 64)
    (hn : n ≤ entries.length) {index : Nat} (hi : index < n) (cache : Cache)
    (hgood : GoodCache sha256 entries n cache) (hroom : cache.entries.length ≤ 256) :
    ∃ after, Reads sha256 entries n (inclusion sha256 source n index) cache
      (auditPath (query sha256) (entries.take n) index) 128 after := by
  have hpos : 0 < n := by omega
  have hcost := inclusionWalk_cost n hpos h64 index 0 64 (Nat.le_of_lt h64)
  have hnodes := inclusionWalk_nodes n hpos h64 index 0 (aligned_zero 64 (Nat.le_of_lt h64))
  simp only [Nat.zero_add] at hnodes
  obtain ⟨after, hok, hafter, hsize⟩ := mapM_reads hs h64 hn _ hnodes cache hgood
    (show _ + cost (inclusionWalk index 0 n hpos) ≤ 512 by omega)
  rw [inclusionWalk_auditPath sha256 entries n hpos h64 index 0 (by omega), slice_zero] at hok
  refine ⟨after, ⟨?_, hafter, Nat.le_trans hsize (Nat.add_le_add_left hcost _)⟩⟩
  unfold inclusion inclusionRanges
  rw [dif_pos ⟨hpos, hi⟩]
  exact hok

theorem consistency_reads (hs : Serves sha256 source entries n) (h64 : n < 2 ^ 64)
    (hn : n ≤ entries.length) {old : Nat} (hold : old ≤ n) (hpos : 0 < n) (cache : Cache)
    (hgood : GoodCache sha256 entries n cache) (hroom : cache.entries.length ≤ 256) :
    ∃ after, Reads sha256 entries n (consistency sha256 source n old n) cache
      (consistencyProof (query sha256) old (entries.take n)) 129 after := by
  unfold consistency consistencyRanges consistencyProof
  rw [if_pos (Nat.le_refl n), dif_pos hold]
  by_cases h0 : old = 0
  · refine ⟨cache, ⟨?_, hgood, Nat.le_add_right _ _⟩⟩
    rw [dif_pos h0, if_pos h0]
    rfl
  · have hpos' : 0 < old := Nat.pos_of_ne_zero h0
    have hcost := consistencyWalk_cost n hpos h64 old 0 hpos' hold true 64 (Nat.le_of_lt h64)
    have hnodes := consistencyWalk_nodes n hpos h64 old 0 hpos' hold true
      (aligned_zero 64 (Nat.le_of_lt h64))
    simp only [Nat.zero_add] at hnodes
    obtain ⟨after, hok, hafter, hsize⟩ := mapM_reads hs h64 hn _ hnodes cache hgood
      (show _ + cost (consistencyWalk old 0 n hpos' hold true) ≤ 512 by omega)
    rw [consistencyWalk_subproof sha256 entries n hpos h64 old 0 hpos' hold true (by omega),
      slice_zero] at hok
    refine ⟨after, ⟨?_, hafter, Nat.le_trans hsize (Nat.add_le_add_left hcost _)⟩⟩
    rw [dif_neg h0, if_neg h0]
    exact hok

end Paths

/-- **A fresh reader returns the tree's own proofs**: against a log that serves the
tiles of a prefix, both calls succeed, what they return is the audit path and the
consistency proof of that prefix, and the verifiers accept it. -/
theorem tile_reader_agrees (sha256 : Bytes → Hash) (source : TileSource) (entries : List Bytes)
    (h64 : entries.length < 2 ^ 64) (n : Nat) (hpos : 0 < n) (hn : n ≤ entries.length)
    (hs : Serves sha256 source entries n) (index : Nat) (hi : index < n) (old : Nat)
    (hold : old ≤ n) :
    (inclusion sha256 source n index).run' ∅ =
        .ok (auditPath (query sha256) (entries.take n) index) ∧
      (consistency sha256 source n old n).run' ∅ =
        .ok (consistencyProof (query sha256) old (entries.take n)) ∧
      (∀ entry, entries[index]? = some entry →
        verifyInclusion sha256 entry index n (auditPath (query sha256) (entries.take n) index)
          (mth sha256 (entries.take n)) = .ok ()) ∧
      verifyConsistency sha256 old n (mth sha256 (entries.take old)) (mth sha256 (entries.take n))
        (consistencyProof (query sha256) old (entries.take n)) = .ok () := by
  have hlen : (entries.take n).length = n := by simp [hn]
  have hlenOld : (entries.take old).length = old := by
    rw [List.length_take]
    omega
  have hn64 : n < 2 ^ 64 := by omega
  obtain ⟨after, hinc, _, _⟩ := inclusion_reads hs hn64 hn hi ∅ goodCache_empty (by decide)
  obtain ⟨after', hcon, _, _⟩ := consistency_reads hs hn64 hn hold hpos ∅ goodCache_empty (by decide)
  refine ⟨?_, ?_, ?_, ?_⟩
  · simp [StateT.run', hinc, Functor.map, Except.map]
  · simp [StateT.run', hcon, Functor.map, Except.map]
  · intro entry hget
    rw [← List.getElem?_take_of_lt hi] at hget
    have hok := verifyInclusion_auditPath sha256 (entries.take n) (by omega) hget
    rwa [hlen] at hok
  · have hpre : entries.take old <+: entries.take n := List.take_prefix_take_left hold
    have hok := verifyConsistency_consistencyProof sha256 (by omega) hpre
    rwa [hlen, hlenOld] at hok

/-- A log of the three sample entries: one partial tile. -/
def sampleSource : TileSource := fun name =>
  .ok (if name = "tile/0/000.p/3" then
    some (leftDigest.toList ++ rightDigest.toList ++ nextDigest.toList) else none)

theorem sampleSource_serves : Serves sampleSha256 sampleSource sampleEntries 3 := by
  intro level index hpos name hname
  have hlevel : level = 0 := by
    by_contra h
    have hzero : 3 >>> (8 * level) = 0 := by
      rw [Nat.shiftRight_eq_div_pow]
      exact Nat.div_eq_of_lt (Nat.lt_of_lt_of_le (by decide : 3 < 2 ^ 8)
        (Nat.pow_le_pow_right (by decide) (by omega)))
    unfold tileWidth at hpos
    omega
  subst hlevel
  have hindex : index = 0 := by
    unfold tileWidth at hpos
    simp only [Nat.mul_zero, Nat.shiftRight_zero] at hpos
    omega
  subst hindex
  have hpath : tilePath 0 0 (tileWidth 3 0 0) = .ok "tile/0/000.p/3" := by decide +kernel
  rw [hpath] at hname
  obtain rfl := Except.ok.inj hname
  left
  decide +kernel

/-- The third entry of three, and the first two as a prefix, through the one tile. -/
theorem tile_reader_agrees_sample :
    (inclusion sampleSha256 sampleSource 3 2).run' ∅ =
        .ok (auditPath (query sampleSha256) (sampleEntries.take 3) 2) ∧
      (consistency sampleSha256 sampleSource 3 2 3).run' ∅ =
        .ok (consistencyProof (query sampleSha256) 2 (sampleEntries.take 3)) :=
  have h := tile_reader_agrees sampleSha256 sampleSource sampleEntries (by decide) 3 (by decide)
    (by decide) sampleSource_serves 2 (by decide) 2 (by decide)
  ⟨h.1, h.2.1⟩

end Attest.Publication.Tiles
