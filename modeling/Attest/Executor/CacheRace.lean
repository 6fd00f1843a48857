import Attest.Executor.CacheFiles

/-! Two processes that keep an entry at the same time.

Each writes the file of its entry, reads the index, asks for the size of the file and
writes the index back with its own entry added. Whoever writes the index last puts there
what it read with its own entry, so the other's entry is in the end there exactly if it
was there when the index was read. `index_keeps_both_iff` says when that is, for every
order of the calls. -/
namespace Attest.Executor.CacheDir
open Library Library.Process
open Trust (Bytes DateTime utf8)

/-- The index on disk has an entry for this hash. -/
def Holds (codec : CacheCodec) (dir : CacheDir) (hash : String) : Prop :=
  ∃ content index, dir indexFile = some content ∧ codec.readIndex content = .ok index ∧
    hash ∈ index.entries.keys

/-- In this order of turns a process has written the index before the other writes it. -/
def WritesFirst (p : Bool) (order : List Bool) : Prop :=
  ∃ before, before <+: order ∧ 4 ≤ before.count p ∧ before.count (!p) ≤ 3

/-- In this order of turns a process has written the index before the other reads it. -/
def WritesBeforeRead (p : Bool) (order : List Bool) : Prop :=
  ∃ before, before <+: order ∧ 4 ≤ before.count p ∧ before.count (!p) ≤ 1

/-! ### Orders -/

section Orders
variable {p q : Bool} {order : List Bool}

theorem count_concat_self : (order ++ [q]).count q = order.count q + 1 := by
  rw [List.count_append, List.count_singleton_self]

theorem count_concat_other : (order ++ [q]).count (!q) = order.count (!q) := by
  cases q <;> simp

theorem writesBeforeRead_concat_iff (h : 2 ≤ (order ++ [q]).count (!p)) :
    WritesBeforeRead p (order ++ [q]) ↔ WritesBeforeRead p order := by
  constructor
  · intro ⟨before, hinit, hwrites, hread⟩
    rcases List.prefix_concat_iff.mp hinit with rfl | hinit
    · omega
    · exact ⟨before, hinit, hwrites, hread⟩
  · intro ⟨before, hinit, hcounts⟩
    exact ⟨before, List.prefix_concat_iff.mpr (.inr hinit), hcounts⟩

theorem writesFirst_concat_iff (h : 4 ≤ (order ++ [q]).count (!p)) :
    WritesFirst p (order ++ [q]) ↔ WritesFirst p order := by
  constructor
  · intro ⟨before, hinit, hwrites, hother⟩
    rcases List.prefix_concat_iff.mp hinit with rfl | hinit
    · omega
    · exact ⟨before, hinit, hwrites, hother⟩
  · intro ⟨before, hinit, hcounts⟩
    exact ⟨before, List.prefix_concat_iff.mpr (.inr hinit), hcounts⟩

theorem four_le_of_writesFirst (h : WritesFirst p order) : 4 ≤ order.count p := by
  obtain ⟨before, hinit, hwrites, _⟩ := h
  exact hwrites.trans (hinit.sublist.count_le p)

theorem writesFirst_of_writesBeforeRead (h : WritesBeforeRead p order) : WritesFirst p order := by
  obtain ⟨before, hinit, hwrites, hread⟩ := h
  exact ⟨before, hinit, hwrites, by omega⟩

end Orders

/-! ### Where a process stands -/

/-- A process after so many turns of its own: what it has read, and the size it has seen. -/
def stage (codec : CacheCodec) (record : CacheRecord) (stamps : Stamps) (loaded : CacheIndex)
    (size : Nat) : Nat → CacheProcess (Except String Unit)
  | 0 => cacheEntry codec record stamps
  | 1 => updateCacheIndex codec record.contentHash record.stepName stamps
  | 2 => do
    let size ← sizeOfFile (fileOf record.contentHash)
    writeFile indexFile
      (codec.indexText (indexed loaded record.contentHash record.stepName size stamps))
    return .ok ()
  | 3 => do
    writeFile indexFile
      (codec.indexText (indexed loaded record.contentHash record.stepName size stamps))
    return .ok ()
  | _ => return .ok ()

variable {codec : CacheCodec} {records : Bool → CacheRecord} {stamps : Bool → Stamps}
  {dir : CacheDir}

abbrev Pair := Pool Bool CacheCall CacheCall.Reply CacheDir (Except String Unit)

/-- Two processes at the start of `cache_entry`. -/
def callers (codec : CacheCodec) (records : Bool → CacheRecord) (stamps : Bool → Stamps)
    (dir : CacheDir) : Pair :=
  ⟨fun p => cacheEntry codec (records p) (stamps p), dir⟩

/-- What is known after these turns, while nobody has failed. -/
structure Standing (codec : CacheCodec) (records : Bool → CacheRecord) (stamps : Bool → Stamps)
    (dir : CacheDir) (order : List Bool) (pool : Pair) (loaded : Bool → CacheIndex)
    (sizes : Bool → Nat) : Prop where
  stages : ∀ p, pool.parties p =
    stage codec (records p) (stamps p) (loaded p) (sizes p) (order.count p)
  /-- What a process has read of the other. -/
  seen : ∀ p, 2 ≤ order.count p → ((records (!p)).contentHash ∈ (loaded p).entries.keys ↔
    WritesBeforeRead (!p) order ∨ Holds codec dir (records (!p)).contentHash)
  /-- Until somebody writes the index, it is what it was. -/
  untouched : (∀ p, order.count p ≤ 3) → pool.world indexFile = dir indexFile
  written : ∀ p, 4 ≤ order.count p → order.count (!p) ≤ 3 →
    Holds codec pool.world (records p).contentHash
  both : (∀ p, 4 ≤ order.count p) → ((∀ p, Holds codec pool.world (records p).contentHash) ↔
    ∃ p, WritesFirst p order ∧
      (WritesBeforeRead p order ∨ Holds codec dir (records p).contentHash))

/-! ### Turns -/

theorem holds_congr {dir' : CacheDir} {hash : String} (h : dir' indexFile = dir indexFile) :
    Holds codec dir' hash ↔ Holds codec dir hash := by
  unfold Holds
  rw [h]

/-- What is read is what stands there. -/
theorem run_readFile_bind {α : Type} {name : String} (next : Option Bytes → CacheProcess α) :
    (readFile name >>= next).run perform dir = (next (dir name)).run perform dir := rfl

theorem holds_iff_of_read {now : DateTime} {index : CacheIndex} {hash : String}
    (h : readIndexFile codec now (dir indexFile) = .ok index) :
    hash ∈ index.entries.keys ↔ Holds codec dir hash := by
  unfold Holds
  cases hfile : dir indexFile with
  | none =>
    rw [hfile] at h
    cases h
    simp [SortedMap.keys]
  | some content =>
    rw [hfile] at h
    constructor
    · intro hmem
      exact ⟨content, index, rfl, h, hmem⟩
    · intro hholds
      obtain ⟨_, found, hcontent, hread, hmem⟩ := hholds
      cases hcontent
      cases (show codec.readIndex content = .ok index from h).symm.trans hread
      exact hmem

theorem holds_write (hcodec : codec.Lawful) {index : CacheIndex} {hash : String} :
    Holds codec (Function.update dir indexFile (some (codec.indexText index))) hash ↔
      hash ∈ index.entries.keys := by
  constructor
  · intro ⟨_, found, hcontent, hread, hmem⟩
    rw [Function.update_self] at hcontent
    cases hcontent
    cases (hcodec.index index).symm.trans hread
    exact hmem
  · intro hmem
    exact ⟨_, index, Function.update_self .., hcodec.index index, hmem⟩

theorem mem_keys_indexed {index : CacheIndex} {hash other name : String} {size : Nat} {times : Stamps} :
    other ∈ (indexed index hash name size times).entries.keys ↔
      other = hash ∨ other ∈ index.entries.keys := by
  simp only [SortedMap.mem_keys]
  show (∃ value, (SortedMap.insert index.entries hash _).lookup other = some value) ↔ _
  simp only [SortedMap.lookup_insert]
  by_cases h : other = hash
  · simp [h]
  · simp [h]

section Turns
variable {order : List Bool} {pool : Pair} {loaded : Bool → CacheIndex} {sizes : Bool → Nat} {q : Bool}

/-- A turn that neither reads nor writes the index. -/
theorem Standing.keep (h : Standing codec records stamps dir order pool loaded sizes) {pool' : Pair}
    {sizes' : Bool → Nat} (hread : order.count q ≠ 1) (hwrite : order.count q ≠ 3)
    (hindex : pool'.world indexFile = pool.world indexFile)
    (hstages : ∀ p, pool'.parties p =
      stage codec (records p) (stamps p) (loaded p) (sizes' p) ((order ++ [q]).count p)) :
    Standing codec records stamps dir (order ++ [q]) pool' loaded sizes' := by
  have hself : (order ++ [q]).count q = order.count q + 1 := count_concat_self
  have hother : (order ++ [q]).count (!q) = order.count (!q) := count_concat_other
  have hle : ∀ p, order.count p ≤ (order ++ [q]).count p := by
    intro p
    rw [List.count_append]
    omega
  constructor
  · exact hstages
  · intro p hp
    have hpast : 2 ≤ order.count p := by
      rcases Bool.eq_or_eq_not p q with rfl | rfl
      · omega
      · omega
    rw [writesBeforeRead_concat_iff (by rw [Bool.not_not]; exact hp)]
    exact h.seen p hpast
  · intro hall
    rw [hindex]
    exact h.untouched fun p => (hle p).trans (hall p)
  · intro p hp hnot
    rw [holds_congr hindex]
    apply h.written p _ ((hle (!p)).trans hnot)
    rcases Bool.eq_or_eq_not p q with rfl | rfl
    · omega
    · omega
  · intro hall
    have hpast : ∀ p, 4 ≤ order.count p := by
      intro p
      have hp := hall p
      rcases Bool.eq_or_eq_not p q with rfl | rfl
      · omega
      · omega
    have hfirst : ∀ p, WritesFirst p (order ++ [q]) ↔ WritesFirst p order :=
      fun p => writesFirst_concat_iff (hall (!p))
    have hbefore : ∀ p, WritesBeforeRead p (order ++ [q]) ↔ WritesBeforeRead p order := by
      intro p
      apply writesBeforeRead_concat_iff
      have := hall (!p)
      omega
    simp only [holds_congr hindex, hfirst, hbefore]
    exact h.both hpast

/-- The turn that reads the index. -/
theorem Standing.read (h : Standing codec records stamps dir order pool loaded sizes)
    (hcount : order.count q = 1) {now : DateTime} {index : CacheIndex} {pool' : Pair}
    (hread : readIndexFile codec now (pool.world indexFile) = .ok index)
    (hworld : pool'.world = pool.world)
    (hstages : ∀ p, pool'.parties p = stage codec (records p) (stamps p)
      (Function.update loaded q index p) (sizes p) ((order ++ [q]).count p)) :
    Standing codec records stamps dir (order ++ [q]) pool' (Function.update loaded q index) sizes := by
  have hself : (order ++ [q]).count q = 2 := by rw [count_concat_self, hcount]
  have hother : (order ++ [q]).count (!q) = order.count (!q) := count_concat_other
  have hsmall : ¬ ∀ p, 4 ≤ (order ++ [q]).count p := by
    intro hall
    have := hall q
    omega
  constructor
  · exact hstages
  · intro p hp
    rw [writesBeforeRead_concat_iff (by rw [Bool.not_not]; exact hp)]
    rcases Bool.eq_or_eq_not p q with rfl | rfl
    · rw [Function.update_self, holds_iff_of_read hread]
      by_cases hwritten : 4 ≤ order.count (!p)
      · -- The other is done with the index, and its entry is there.
        apply iff_of_true
        · apply h.written (!p) hwritten
          rw [Bool.not_not, hcount]
          decide
        · exact .inl ⟨order, List.prefix_rfl, hwritten, by rw [Bool.not_not, hcount]⟩
      · -- Nobody has written the index yet.
        have hsame : pool.world indexFile = dir indexFile := by
          apply h.untouched
          intro r
          rcases Bool.eq_or_eq_not r p with rfl | rfl
          · omega
          · omega
        rw [holds_congr hsame]
        constructor
        · exact .inr
        · intro hor
          apply hor.resolve_left
          intro hbefore
          exact hwritten (four_le_of_writesFirst (writesFirst_of_writesBeforeRead hbefore))
    · rw [Function.update_of_ne (Bool.not_ne_self q)]
      exact h.seen (!q) (by omega)
  · intro hall
    rw [hworld]
    apply h.untouched
    intro p
    rcases Bool.eq_or_eq_not p q with rfl | rfl
    · omega
    · exact hother ▸ hall (!q)
  · intro p hp hnot
    rw [hworld]
    rcases Bool.eq_or_eq_not p q with rfl | rfl
    · omega
    · apply h.written (!q) (hother ▸ hp)
      rw [Bool.not_not, hcount]
      decide
  · intro hall
    exact absurd hall hsmall

/-- The turn that writes the index. -/
theorem Standing.write (hcodec : codec.Lawful)
    (hdistinct : (records true).contentHash ≠ (records false).contentHash)
    (h : Standing codec records stamps dir order pool loaded sizes) (hcount : order.count q = 3)
    {size : Nat} {pool' : Pair}
    (hworld : pool'.world = Function.update pool.world indexFile (some (codec.indexText
      (indexed (loaded q) (records q).contentHash (records q).stepName size (stamps q)))))
    (hstages : ∀ p, pool'.parties p =
      stage codec (records p) (stamps p) (loaded p) (sizes p) ((order ++ [q]).count p)) :
    Standing codec records stamps dir (order ++ [q]) pool' loaded sizes := by
  have hself : (order ++ [q]).count q = 4 := by rw [count_concat_self, hcount]
  have hother : (order ++ [q]).count (!q) = order.count (!q) := count_concat_other
  have hne : (records (!q)).contentHash ≠ (records q).contentHash := by
    cases q
    · exact hdistinct
    · exact hdistinct.symm
  have hholds : ∀ hash, Holds codec pool'.world hash ↔
      hash = (records q).contentHash ∨ hash ∈ (loaded q).entries.keys := by
    intro hash
    rw [hworld, holds_write hcodec, mem_keys_indexed]
  constructor
  · exact hstages
  · intro p hp
    rw [writesBeforeRead_concat_iff (by rw [Bool.not_not]; exact hp)]
    apply h.seen p
    rcases Bool.eq_or_eq_not p q with rfl | rfl
    · omega
    · omega
  · intro hall
    have := hall q
    omega
  · intro p hp hnot
    rcases Bool.eq_or_eq_not p q with rfl | rfl
    · exact (hholds _).mpr (.inl rfl)
    · rw [Bool.not_not] at hnot
      omega
  · intro hall
    have hlast : 4 ≤ order.count (!q) := hother ▸ hall (!q)
    have hfirst : WritesFirst (!q) (order ++ [q]) := by
      refine ⟨order, List.prefix_append .., hlast, ?_⟩
      rw [Bool.not_not, hcount]
    have hlate : ¬ WritesFirst q (order ++ [q]) := by
      rw [writesFirst_concat_iff (hall (!q))]
      intro hq
      have := four_le_of_writesFirst hq
      omega
    have hsame : WritesBeforeRead (!q) (order ++ [q]) ↔ WritesBeforeRead (!q) order :=
      writesBeforeRead_concat_iff (by rw [Bool.not_not]; omega)
    have hseen := h.seen q (by omega)
    constructor
    · intro hboth
      refine ⟨!q, hfirst, ?_⟩
      rw [hsame]
      exact hseen.mp (((hholds _).mp (hboth (!q))).resolve_left hne)
    · intro ⟨p, hp, hcase⟩
      rcases Bool.eq_or_eq_not p q with rfl | rfl
      · exact absurd hp hlate
      · rw [hsame] at hcase
        intro r
        rw [hholds]
        rcases Bool.eq_or_eq_not r q with rfl | rfl
        · exact .inl rfl
        · exact .inr (hseen.mpr hcase)

theorem stages_update {parties : Bool → CacheProcess (Except String Unit)}
    {loaded' : Bool → CacheIndex} {sizes' : Bool → Nat} {p' : CacheProcess (Except String Unit)}
    (h : parties (!q) = stage codec (records (!q)) (stamps (!q)) (loaded' (!q)) (sizes' (!q))
      (order.count (!q)))
    (hq : p' = stage codec (records q) (stamps q) (loaded' q) (sizes' q) (order.count q + 1)) :
    ∀ p, Function.update parties q p' p =
      stage codec (records p) (stamps p) (loaded' p) (sizes' p) ((order ++ [q]).count p) := by
  intro p
  rcases Bool.eq_or_eq_not p q with rfl | rfl
  · rw [Function.update_self, count_concat_self]
    exact hq
  · rw [Function.update_of_ne (Bool.not_ne_self q), count_concat_other]
    exact h

/-- Somebody has stopped with an error. -/
def Failed (pool : Pair) : Prop := ∃ p e, pool.parties p = .done (.error e)

theorem standing_turn (hcodec : codec.Lawful) (hkeys : ∀ p, (records p).contentHash ≠ "index")
    (hdistinct : (records true).contentHash ≠ (records false).contentHash)
    (h : Standing codec records stamps dir order pool loaded sizes) (q : Bool) :
    (Failed (pool.turn perform q) ∧ ¬ Usable codec pool.world) ∨
      ∃ loaded' sizes', Standing codec records stamps dir (order ++ [q]) (pool.turn perform q)
        loaded' sizes' := by
  have hq := h.stages q
  have hrest := h.stages (!q)
  -- Which turn of its own this is.
  match hcount : order.count q with
  | 0 =>
    rw [hcount] at hq
    rw [Pool.turn_of_call perform hq]
    refine .inr ⟨loaded, sizes, h.keep (by omega) (by omega) ?_ (stages_update hrest ?_)⟩
    · exact Function.update_of_ne (fileOf_ne_indexFile (hkeys q)).symm _ _
    · rw [hcount]
      rfl
  | 1 =>
    rw [hcount] at hq
    rw [Pool.turn_of_call perform hq]
    cases hread : readIndexFile codec (stamps q).lastUpdated (pool.world indexFile) with
    | error e =>
      refine .inl ⟨⟨q, e, (Function.update_self ..).trans ?_⟩, ?_⟩
      · have hreply : readIndexFile codec (stamps q).lastUpdated
            (pool.world.perform (CacheCall.read indexFile)).1 = .error e := hread
        simp only [Process.bind, hreply]
        rfl
      · intro husable
        obtain ⟨index, hindex⟩ := readIndexFile_of_usable husable (stamps q).lastUpdated
        rw [hread] at hindex
        cases hindex
    | ok index =>
      refine .inr ⟨Function.update loaded q index, sizes, h.read hcount hread rfl
        (stages_update ?_ ?_)⟩
      · rw [Function.update_of_ne (Bool.not_ne_self q)]
        exact hrest
      · rw [Function.update_self, hcount]
        have hreply : readIndexFile codec (stamps q).lastUpdated
            (pool.world.perform (CacheCall.read indexFile)).1 = .ok index := hread
        simp only [Process.bind, hreply]
        rfl
  | 2 =>
    rw [hcount] at hq
    rw [Pool.turn_of_call perform hq]
    let size := (pool.world (fileOf (records q).contentHash)).elim 0 List.length
    refine .inr ⟨loaded, Function.update sizes q size, h.keep (by omega) (by omega) rfl
      (stages_update ?_ ?_)⟩
    · rw [Function.update_of_ne (Bool.not_ne_self q)]
      exact hrest
    · rw [Function.update_self, hcount]
      rfl
  | 3 =>
    rw [hcount] at hq
    rw [Pool.turn_of_call perform hq]
    refine .inr ⟨loaded, sizes, h.write hcodec hdistinct hcount rfl (stages_update hrest ?_)⟩
    rw [hcount]
    rfl
  | n + 4 =>
    rw [hcount] at hq
    have hturn : pool.turn perform q = pool := Pool.turn_of_done perform hq
    rw [hturn]
    refine .inr ⟨loaded, sizes, h.keep (by omega) (by omega) rfl ?_⟩
    intro p
    rcases Bool.eq_or_eq_not p q with rfl | rfl
    · rw [count_concat_self, hcount]
      exact hq
    · rw [count_concat_other]
      exact hrest

theorem failed_turn (h : Failed pool) (q : Bool) : Failed (pool.turn perform q) := by
  obtain ⟨p, e, hp⟩ := h
  refine ⟨p, e, ?_⟩
  by_cases hpq : p = q
  · rw [← hpq, Pool.turn_of_done perform hp]
    exact hp
  · unfold Pool.turn
    split
    next => exact hp
    next => exact (Function.update_of_ne hpq _ _).trans hp

theorem standing_start : Standing codec records stamps dir [] (callers codec records stamps dir)
    (fun _ => ⟨.empty, ⊥⟩) (fun _ => 0) where
  stages := fun _ => rfl
  seen := fun _ h => absurd h (by simp)
  untouched := fun _ => rfl
  written := fun _ h => absurd h (by simp)
  both := fun h => absurd (h true) (by simp)

theorem turns_concat (order : List Bool) (q : Bool) :
    pool.turns perform (order ++ [q]) = (pool.turns perform order).turn perform q :=
  List.foldl_concat ..

/-- After any turns, somebody has failed or it is known where both stand. -/
theorem standing_turns (hcodec : codec.Lawful) (hkeys : ∀ p, (records p).contentHash ≠ "index")
    (hdistinct : (records true).contentHash ≠ (records false).contentHash) (order : List Bool) :
    Failed ((callers codec records stamps dir).turns perform order) ∨
      ∃ loaded sizes, Standing codec records stamps dir order
        ((callers codec records stamps dir).turns perform order) loaded sizes := by
  induction order using List.reverseRecOn with
  | nil => exact .inr ⟨_, _, standing_start⟩
  | append_singleton order q ih =>
    rw [turns_concat]
    rcases ih with hfailed | ⟨loaded, sizes, hstanding⟩
    · exact .inl (failed_turn hfailed q)
    · exact (standing_turn hcodec hkeys hdistinct hstanding q).imp_left And.left

/-- In a directory where every file can be parsed nobody fails. -/
theorem standing_of_usable (hcodec : codec.Lawful) (hkeys : ∀ p, (records p).contentHash ≠ "index")
    (hdistinct : (records true).contentHash ≠ (records false).contentHash)
    (hdir : Usable codec dir) (order : List Bool) :
    ∃ loaded sizes, Standing codec records stamps dir order
      ((callers codec records stamps dir).turns perform order) loaded sizes := by
  induction order using List.reverseRecOn with
  | nil => exact ⟨_, _, standing_start⟩
  | append_singleton order q ih =>
    rw [turns_concat]
    obtain ⟨loaded, sizes, hstanding⟩ := ih
    apply (standing_turn hcodec hkeys hdistinct hstanding q).resolve_left
    intro hfailed
    apply hfailed.2
    apply Pool.turns_keep order
    · intro dir call hcall h
      exact usable_perform call hcall h
    · intro p
      exact calls_cacheEntry hcodec _ _ (hkeys p)
    · exact hdir

end Turns

/-! ### What the index is for -/

section Eviction
variable {hash : String} {listing : Listing} {maxSize : Nat} {cutoff now : DateTime}

/-- Two hashes in the index are counted. -/
theorem stats_of_holds (hdistinct : (records true).contentHash ≠ (records false).contentHash)
    (h : ∀ p, Holds codec dir (records p).contentHash) :
    ∃ stats, ((getCacheStats codec).run perform dir).1 = .ok stats ∧ 2 ≤ stats.totalEntries := by
  obtain ⟨content, index, hfile, hread, htrue⟩ := h true
  obtain ⟨content', index', hfile', hread', hfalse⟩ := h false
  cases hfile.symm.trans hfile'
  cases hread.symm.trans hread'
  refine ⟨statsOf index, ?_, ?_⟩
  · rw [getCacheStats, run_readFile_bind, hfile]
    show (codec.readIndex content).map statsOf = _
    rw [hread]
    rfl
  · have hlength : index.entries.keys.length = index.entries.entries.length := List.length_map ..
    show 2 ≤ index.entries.entries.length
    rw [← hlength]
    have hsub : [(records true).contentHash, (records false).contentHash] ⊆ index.entries.keys := by
      simp [htrue, hfalse]
    exact (List.subperm_of_subset (by simp [hdistinct]) hsub).length_le

theorem run_removeFiles (hashes : List String) :
    ((removeFiles hashes).run perform dir).2 =
      fun name => if name ∈ hashes.map fileOf then none else dir name := by
  induction hashes generalizing dir with
  | nil => rfl
  | cons first rest ih =>
    show ((removeFiles rest).run perform (Function.update dir (fileOf first) none)).2 = _
    rw [ih]
    funext name
    simp only [List.map_cons, List.mem_cons]
    by_cases hname : name = fileOf first
    · simp [hname]
    · simp [hname]

theorem entriesToRemove_sublist (entries : List (String × CacheIndexEntry)) (remaining : Nat) :
    (entriesToRemove cutoff maxSize entries remaining).Sublist entries := by
  induction entries generalizing remaining with
  | nil => exact .slnil
  | cons entry rest ih =>
    unfold entriesToRemove
    split
    next => exact (ih _).cons_cons entry
    next => exact (ih _).cons entry

/-- What is old enough is removed, whatever the sizes are. -/
theorem mem_entriesToRemove {entries : List (String × CacheIndexEntry)} {remaining : Nat}
    {entry : String × CacheIndexEntry} (hmem : entry ∈ entries) (hold : entry.2.cachedAt < cutoff) :
    entry ∈ entriesToRemove cutoff maxSize entries remaining := by
  induction entries generalizing remaining with
  | nil => cases hmem
  | cons first rest ih =>
    unfold entriesToRemove
    rcases List.mem_cons.mp hmem with rfl | hrest
    · rw [if_pos (.inl hold)]
      exact List.mem_cons_self ..
    · split
      next => exact List.mem_cons_of_mem _ (ih hrest)
      next => exact ih hrest

/-- A cleanup removes the files of entries of the index, those that are old enough among them,
and no others. -/
theorem run_cleanupCache {content : Bytes} {index : CacheIndex} (hfile : dir indexFile = some content)
    (hread : codec.readIndex content = .ok index) :
    ∃ removed : List String, removed ⊆ index.entries.keys ∧
      (∀ entry ∈ index.entries.entries, entry.2.cachedAt < cutoff → entry.1 ∈ removed) ∧
      ∀ hash, hash ≠ "index" →
        ((cleanupCache codec listing maxSize cutoff now).run perform dir).2 (fileOf hash) =
          if hash ∈ removed then none else dir (fileOf hash) := by
  let byAccess := StableSort.sortByKey (fun entry => entry.2.lastAccessed) (listing.list index)
  let total := (index.entries.entries.map fun entry => entry.2.fileSize).sum
  let removed := (entriesToRemove cutoff maxSize byAccess total).map Prod.fst
  have hperm : byAccess.Perm index.entries.entries :=
    (List.mergeSort_perm ..).trans (listing.perm index)
  refine ⟨removed, ?_, ?_, ?_⟩
  · intro hash hhash
    obtain ⟨entry, hentry, rfl⟩ := List.mem_map.mp hhash
    exact List.mem_map_of_mem (hperm.mem_iff.mp ((entriesToRemove_sublist _ _).subset hentry))
  · intro entry hentry hold
    exact List.mem_map_of_mem (mem_entriesToRemove (hperm.mem_iff.mpr hentry) hold)
  · intro hash hhash
    have hrun : ((cleanupCache codec listing maxSize cutoff now).run perform dir).2 =
        Function.update ((removeFiles removed).run perform dir).2 indexFile
          (some (codec.indexText ⟨index.entries.erase removed, now⟩)) := by
      rw [cleanupCache, run_readFile_bind, hfile]
      dsimp only
      rw [hread]
      show (Process.run perform (removeFiles removed >>= _) dir).2 = _
      rw [run_bind]
      rfl
    rw [hrun, Function.update_of_ne (fileOf_ne_indexFile hhash), run_removeFiles]
    simp only [List.mem_map_of_injective fileOf_injective]

/-- Both entries are in the index: they are counted, and their files go once they are old
enough. -/
structure Kept (codec : CacheCodec) (records : Bool → CacheRecord) (dir : CacheDir) : Prop where
  indexed : ∀ p, Holds codec dir (records p).contentHash
  counted : ∃ stats, ((getCacheStats codec).run perform dir).1 = .ok stats ∧ 2 ≤ stats.totalEntries
  evictable : ∀ p, ∃ cachedAt, ∀ listing maxSize cutoff now, cachedAt < cutoff →
    ((cleanupCache codec listing maxSize cutoff now).run perform dir).2
      (fileOf (records p).contentHash) = none

theorem kept_iff (hkeys : ∀ p, (records p).contentHash ≠ "index")
    (hdistinct : (records true).contentHash ≠ (records false).contentHash) :
    Kept codec records dir ↔ ∀ p, Holds codec dir (records p).contentHash := by
  constructor
  · exact Kept.indexed
  · intro h
    refine ⟨h, stats_of_holds hdistinct h, ?_⟩
    intro p
    obtain ⟨content, index, hfile, hread, hmem⟩ := h p
    obtain ⟨entry, hentry, hhash⟩ := List.mem_map.mp hmem
    refine ⟨entry.2.cachedAt, ?_⟩
    intro listing maxSize cutoff now hold
    obtain ⟨removed, _, hold', hrun⟩ := run_cleanupCache hfile hread
    rw [hrun _ (hkeys p), if_pos]
    rw [← hhash]
    exact hold' entry hentry hold

end Eviction

theorem four_le_of_done {record : CacheRecord} {times : Stamps} {loaded : CacheIndex} {size n : Nat}
    (h : stage codec record times loaded size n = .done (.ok ())) : 4 ≤ n := by
  match n with
  | 0 => cases h
  | 1 => cases h
  | 2 => cases h
  | 3 => cases h
  | n + 4 => omega

theorem done_of_four_le {record : CacheRecord} {times : Stamps} {loaded : CacheIndex} {size n : Nat}
    (h : 4 ≤ n) : stage codec record times loaded size n = .done (.ok ()) := by
  obtain ⟨m, rfl⟩ := Nat.exists_eq_add_of_le' h
  rfl

/-- With four turns each, both return without an error. -/
theorem done_of_usable (hcodec : codec.Lawful) (hkeys : ∀ p, (records p).contentHash ≠ "index")
    (hdistinct : (records true).contentHash ≠ (records false).contentHash)
    (hdir : Usable codec dir) {order : List Bool} (horder : ∀ p, 4 ≤ order.count p) (p : Bool) :
    ((callers codec records stamps dir).turns perform order).parties p = .done (.ok ()) := by
  obtain ⟨_, _, hstanding⟩ := standing_of_usable hcodec hkeys hdistinct hdir order
  rw [hstanding.stages p, done_of_four_le (horder p)]

/-- **Both entries are kept in the index exactly where the one that writes it first
has done so before the other reads it, or was in the index before.** -/
theorem index_keeps_both_iff (hcodec : codec.Lawful)
    (hkeys : ∀ p, (records p).contentHash ≠ "index")
    (hdistinct : (records true).contentHash ≠ (records false).contentHash) (order : List Bool)
    (hdone : ∀ p, ((callers codec records stamps dir).turns perform order).parties p =
      .done (.ok ())) :
    Kept codec records ((callers codec records stamps dir).turns perform order).world ↔
      ∃ p, WritesFirst p order ∧
        (WritesBeforeRead p order ∨ Holds codec dir (records p).contentHash) := by
  rw [kept_iff hkeys hdistinct]
  rcases standing_turns hcodec hkeys hdistinct order with ⟨p, e, hfailed⟩ | ⟨_, _, hstanding⟩
  · rw [hdone p] at hfailed
    cases hfailed
  · apply hstanding.both
    intro p
    exact four_le_of_done ((hstanding.stages p).symm.trans (hdone p))

/-! ### Two steps -/

def keyOfCheck : String := "b8acc901bab587dcf02156f0588edcaa42c444679db4127ffb3248d8edf67e32"

/-- The same step under another name. -/
def keptCheck : CacheRecord :=
  { keptBuild with
    contentHash := keyOfCheck
    stepName := "check"
    result := { resultOfA with name := "check" }
    environmentHash := "a205501387483afc47519479ac78e60272df277a0358eb1a2114024622c76ce9" }

def checkYaml : Bytes := utf8
  "content_hash: b8acc901bab587dcf02156f0588edcaa42c444679db4127ffb3248d8edf67e32
step_name: check
input_paths: []
output_paths:
- a
command: 'true'
environment_hash: a205501387483afc47519479ac78e60272df277a0358eb1a2114024622c76ce9
result:
  name: check
  input_hash: 5da7d8e2f345944662807c3160ae954d6a6ffb2564f22242004f68fde1532f7f
  output_hash: 040bc95d792186d9183cc33b67f5cf6c5347c91d8477bbc9315bab208fe959d3
  duration_secs: 0
  exit_code: 0
  cache_hit: false
  stdout: ''
  stderr: ''
cached_at: 2024-01-01T00:00:00Z
dependencies: []
metadata: \x7b\x7d
"

def checkIndex : CacheIndex :=
  indexed ⟨.empty, newYear⟩ keyOfCheck "check" checkYaml.length newYearStamps

def checkIndexYaml : Bytes := utf8
  "entries:
  b8acc901bab587dcf02156f0588edcaa42c444679db4127ffb3248d8edf67e32:
    content_hash: b8acc901bab587dcf02156f0588edcaa42c444679db4127ffb3248d8edf67e32
    step_name: check
    cached_at: 2024-01-01T00:00:00Z
    file_size: 551
    access_count: 1
    last_accessed: 2024-01-01T00:00:00Z
last_updated: 2024-01-01T00:00:00Z
"

def bothIndex : CacheIndex :=
  indexed buildIndex keyOfCheck "check" checkYaml.length newYearStamps

def bothIndexYaml : Bytes := utf8
  "entries:
  6b3a2d1d1cd90a5044ba24d80a8811ba6f631dd67034341c8502421faa2bde49:
    content_hash: 6b3a2d1d1cd90a5044ba24d80a8811ba6f631dd67034341c8502421faa2bde49
    step_name: build
    cached_at: 2024-01-01T00:00:00Z
    file_size: 551
    access_count: 1
    last_accessed: 2024-01-01T00:00:00Z
  b8acc901bab587dcf02156f0588edcaa42c444679db4127ffb3248d8edf67e32:
    content_hash: b8acc901bab587dcf02156f0588edcaa42c444679db4127ffb3248d8edf67e32
    step_name: check
    cached_at: 2024-01-01T00:00:00Z
    file_size: 551
    access_count: 1
    last_accessed: 2024-01-01T00:00:00Z
last_updated: 2024-01-01T00:00:00Z
"

def pairRecords : List (CacheRecord × Bytes) := [(keptBuild, buildYaml), (keptCheck, checkYaml)]

def pairIndexes : List (CacheIndex × Bytes) :=
  [(buildIndex, buildIndexYaml), (checkIndex, checkIndexYaml), (bothIndex, bothIndexYaml)]

noncomputable def pairCodec : CacheCodec := codecOf pairRecords pairIndexes

theorem pair_texts :
    (pairRecords.map Prod.snd).Nodup ∧ (pairIndexes.map Prod.snd).Nodup ∧
      (∀ text ∈ pairRecords.map Prod.snd, text.head? ≠ some 0x7b) ∧
      ∀ text ∈ pairIndexes.map Prod.snd, text.head? ≠ some 0x7b := by
  simp only [pairRecords, pairIndexes, List.map_cons, List.map_nil, buildYaml, checkYaml,
    buildIndexYaml, checkIndexYaml, bothIndexYaml]
  rw [Trust.utf8_ofList, Trust.utf8_ofList, Trust.utf8_ofList, Trust.utf8_ofList, Trust.utf8_ofList]
  decide +kernel

theorem lawful_pairCodec : pairCodec.Lawful := by
  obtain ⟨hrecords, hindexes, hrecord, hindex⟩ := pair_texts
  apply lawful_codecOf hrecords hindexes
  · intro entry hentry
    exact hrecord _ (List.mem_map_of_mem hentry)
  · intro entry hentry
    exact hindex _ (List.mem_map_of_mem hentry)

def keptSteps (p : Bool) : CacheRecord := if p then keptBuild else keptCheck

theorem keptSteps_ne_index (p : Bool) : (keptSteps p).contentHash ≠ "index" := by
  cases p <;> decide

theorem keptSteps_distinct : (keptSteps true).contentHash ≠ (keptSteps false).contentHash := by
  decide

theorem usable_none : Usable pairCodec fun _ => none where
  entries := fun _ _ _ h => absurd h (Option.some_ne_none _).symm
  index := fun _ h => absurd h (Option.some_ne_none _).symm

theorem done_keptSteps (order : List Bool) (horder : ∀ p, 4 ≤ order.count p) (p : Bool) :
    ((callers pairCodec keptSteps (fun _ => newYearStamps) fun _ => none).turns perform
      order).parties p = .done (.ok ()) :=
  done_of_usable lawful_pairCodec keptSteps_ne_index keptSteps_distinct usable_none horder p

def oneAfterTheOther : List Bool := [true, true, true, true, false, false, false, false]

/-- One process after the other. -/
theorem index_keeps_both_sequential :
    pairCodec.Lawful ∧
      (∀ p, ((callers pairCodec keptSteps (fun _ => newYearStamps) fun _ => none).turns perform
        oneAfterTheOther).parties p = .done (.ok ())) ∧
      Kept pairCodec keptSteps ((callers pairCodec keptSteps (fun _ => newYearStamps)
        fun _ => none).turns perform oneAfterTheOther).world := by
  have hdone := done_keptSteps oneAfterTheOther (by decide)
  refine ⟨lawful_pairCodec, hdone, ?_⟩
  apply (index_keeps_both_iff lawful_pairCodec keptSteps_ne_index keptSteps_distinct _ hdone).mpr
  refine ⟨true, ⟨[true, true, true, true], ?_, ?_, ?_⟩, 
    .inl ⟨[true, true, true, true], ?_, ?_, ?_⟩⟩ <;> decide

def turnByTurn : List Bool := [true, false, true, false, true, false, true, false]

/-- Turn by turn: both return without an error, and the entry of the one that wrote the index
first is lost. -/
theorem index_loses_first :
    pairCodec.Lawful ∧
      (∀ p, ((callers pairCodec keptSteps (fun _ => newYearStamps) fun _ => none).turns perform
        turnByTurn).parties p = .done (.ok ())) ∧
      ¬ Kept pairCodec keptSteps ((callers pairCodec keptSteps (fun _ => newYearStamps)
        fun _ => none).turns perform turnByTurn).world := by
  have hcounts : ∀ p, 4 ≤ turnByTurn.count p := by decide
  refine ⟨lawful_pairCodec, done_keptSteps turnByTurn hcounts, ?_⟩
  rw [kept_iff keptSteps_ne_index keptSteps_distinct]
  obtain ⟨_, _, hstanding⟩ := @standing_of_usable _ _ (fun _ => newYearStamps) _ lawful_pairCodec
    keptSteps_ne_index keptSteps_distinct usable_none turnByTurn
  rw [hstanding.both hcounts]
  intro ⟨p, _, hcase⟩
  rcases hcase with ⟨before, hinit, hwrites, hread⟩ | ⟨_, _, hfile, _⟩
  · have hnone : ∀ before ∈ turnByTurn.inits, ∀ p, 4 ≤ before.count p → ¬ before.count (!p) ≤ 1 := by
      decide
    exact hnone before ((List.mem_inits ..).mpr hinit) p hwrites hread
  · exact absurd hfile (Option.some_ne_none _).symm

end Attest.Executor.CacheDir
