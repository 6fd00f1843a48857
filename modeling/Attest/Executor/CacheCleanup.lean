import Attest.Executor.CacheRace

/-! What a cleanup of the cache evicts, as `cleanup_cache` computes it.

The age is an unsigned count of days that is cast to a signed one and taken from the clock:
a large count stops the program, and one from 2^63 on counts into the future. The sizes are
added in 64 bits, which stops a build that checks overflow and wraps in one that does not.
While the sizes fit, the pass over the entries does what is asked of it, for any limit on
the size (`onlyMust_of_fits`). `cleanup_evicts_iff` says which limits on the age it reads
right. -/
namespace Attest.Executor.CacheDir
open Library
open Trust (DateTime minSecs maxSecs)

/-! ### The age -/

/-- A reading of the clock, which is never within a leap second. -/
structure ClockTime where
  time : DateTime
  whole : time.nanos < 1000000000

/-- `max_age_days as i64`. -/
def signedDays (maxAgeDays : UInt64) : Int :=
  if maxAgeDays.toNat < 2 ^ 63 then maxAgeDays.toNat else maxAgeDays.toNat - 2 ^ 64

/-- `chrono::Duration::days`, in seconds: it stops the program outside the milliseconds of 64
bits. -/
def durationDays (days : Int) : Option Int :=
  if -9223372036854775 ≤ days * 86400 ∧ days * 86400 ≤ 9223372036854775 then some (days * 86400)
  else none

/-- `Utc::now() - max_age`, which stops the program outside the years of the calendar. -/
def cutoffTime (now : ClockTime) (maxAgeDays : UInt64) : Option DateTime := do
  let maxAge ← durationDays (signedDays maxAgeDays)
  if h : minSecs ≤ now.time.secs - maxAge ∧ now.time.secs - maxAge ≤ maxSecs then
    return ⟨now.time.secs - maxAge, now.time.nanos, h, now.time.nanos_lt⟩
  else none

/-! ### The sizes -/

/-- Addition of 64 bits, by whether the build checks overflow. -/
def addSize (checks : Bool) (a b : Nat) : Option Nat :=
  if a + b < 2 ^ 64 then some (a + b) else if checks then none else some ((a + b) % 2 ^ 64)

def subSize (checks : Bool) (a b : Nat) : Option Nat :=
  if b ≤ a then some (a - b) else if checks then none else some ((a + 2 ^ 64 - b) % 2 ^ 64)

def sumSizes (checks : Bool) (sizes : List Nat) : Option Nat := sizes.foldlM (addSize checks) 0

abbrev Entries := List (String × CacheIndexEntry)

def totalSize (entries : Entries) : Nat := (entries.map fun entry => entry.2.fileSize).sum

/-! ### The pass -/

structure CacheCleanupResult where
  removedEntries : Nat
  removedSizeBytes : Nat
  remainingEntries : Nat
  remainingSizeBytes : Nat

/-- What is known in the middle of the pass. -/
structure Sweep where
  entriesToRemove : List String
  removedEntries : Nat
  removedSize : Nat
  remainingSize : Nat

def consider (checks : Bool) (cutoff : DateTime) (maxSize : Nat) (sweep : Sweep)
    (entry : String × CacheIndexEntry) : Option Sweep :=
  if entry.2.cachedAt < cutoff ∨ maxSize < sweep.remainingSize then do
    let removedSize ← addSize checks sweep.removedSize entry.2.fileSize
    let remainingSize ← subSize checks sweep.remainingSize entry.2.fileSize
    return ⟨sweep.entriesToRemove ++ [entry.1], sweep.removedEntries + 1, removedSize, remainingSize⟩
  else return sweep

/-- The entries from the one that was read least recently on. -/
def byAccess (listing : Listing) (index : CacheIndex) : Entries :=
  StableSort.sortByKey (fun entry => entry.2.lastAccessed) (listing.list index)

/-- What a cleanup has done. -/
structure Cleanup where
  removed : List String
  index : CacheIndex
  result : CacheCleanupResult

/-- `cleanup_cache` on an index that can be read; nothing where it stops the program. -/
def cleanup (checks : Bool) (listing : Listing) (now later : ClockTime)
    (maxSizeBytes maxAgeDays : UInt64) (index : CacheIndex) : Option Cleanup := do
  let cutoff ← cutoffTime now maxAgeDays
  let currentSize ← sumSizes checks ((listing.list index).map fun entry => entry.2.fileSize)
  let sweep ← (byAccess listing index).foldlM (consider checks cutoff maxSizeBytes.toNat)
    ⟨[], 0, 0, currentSize⟩
  let entries := index.entries.erase sweep.entriesToRemove
  return ⟨sweep.entriesToRemove, ⟨entries, later.time⟩,
    ⟨sweep.removedEntries, sweep.removedSize, entries.entries.length, sweep.remainingSize⟩⟩

/-! ### What is asked of it -/

/-- Cached more than so many days before now. -/
def OlderThan (now : ClockTime) (maxAgeDays : UInt64) (t : DateTime) : Prop :=
  t.ticks < now.time.ticks - maxAgeDays.toNat * 86400 * 2000000000

/-- It has evicted what it must, and says so. -/
structure OnlyMust (listing : Listing) (now : ClockTime) (maxSizeBytes maxAgeDays : UInt64)
    (index : CacheIndex) (out : Cleanup) : Prop where
  within : out.result.remainingSizeBytes ≤ maxSizeBytes.toNat
  exact : out.result.remainingSizeBytes = totalSize out.index.entries.entries
  must : ∀ before entry after, byAccess listing index = before ++ entry :: after →
    entry.1 ∈ out.removed → OlderThan now maxAgeDays entry.2.cachedAt ∨
      maxSizeBytes.toNat <
        totalSize (before.filter fun e => decide (e.1 ∉ out.removed)) + totalSize (entry :: after)
  entries : out.result.removedEntries + out.result.remainingEntries = index.entries.entries.length
  sizes : out.result.removedSizeBytes + out.result.remainingSizeBytes =
    totalSize index.entries.entries

/-- The age is read as it is meant. From 2^63 days on it is not: then everything cached before a
moment in the future goes, which is right only where the entries from it on are too large. -/
def AgeRead (listing : Listing) (now : ClockTime) (maxSizeBytes maxAgeDays : UInt64)
    (index : CacheIndex) : Prop :=
  if maxAgeDays.toNat < 2 ^ 63 then minSecs ≤ now.time.secs - maxAgeDays.toNat * 86400
  else
    now.time.secs + (2 ^ 64 - maxAgeDays.toNat) * 86400 ≤ maxSecs ∧
      ∀ before entry after, byAccess listing index = before ++ entry :: after →
        entry.2.cachedAt.ticks <
          now.time.ticks + (2 ^ 64 - maxAgeDays.toNat) * 86400 * 2000000000 →
        maxSizeBytes.toNat < totalSize (entry :: after)

/-! ### The clock -/

section Age
variable {now : ClockTime} {maxAgeDays : UInt64} {cutoff t : DateTime}

theorem cutoffTime_eq_some (h : cutoffTime now maxAgeDays = some cutoff) :
    (minSecs ≤ now.time.secs - signedDays maxAgeDays * 86400 ∧
      now.time.secs - signedDays maxAgeDays * 86400 ≤ maxSecs) ∧
      cutoff.ticks = now.time.ticks - signedDays maxAgeDays * 86400 * 2000000000 := by
  obtain ⟨maxAge, hage, h⟩ := Option.bind_eq_some_iff.mp h
  unfold durationDays at hage
  split at hage
  next =>
    cases hage
    split at h
    next hrange =>
      cases h
      refine ⟨hrange, ?_⟩
      simp only [DateTime.ticks]
      omega
    next => cases h
  next => cases hage

/-- The calendar ends long before a duration does. -/
theorem exists_cutoffTime (h : minSecs ≤ now.time.secs - signedDays maxAgeDays * 86400 ∧
    now.time.secs - signedDays maxAgeDays * 86400 ≤ maxSecs) :
    ∃ cutoff, cutoffTime now maxAgeDays = some cutoff := by
  have hnow := now.time.inRange
  have hage : durationDays (signedDays maxAgeDays) = some (signedDays maxAgeDays * 86400) := by
    apply if_pos
    unfold minSecs maxSecs at h hnow
    omega
  refine ⟨⟨now.time.secs - signedDays maxAgeDays * 86400, now.time.nanos, h, now.time.nanos_lt⟩, ?_⟩
  unfold cutoffTime
  rw [hage]
  exact dif_pos h

theorem lt_cutoff_iff (h : cutoffTime now maxAgeDays = some cutoff) :
    t < cutoff ↔ t.ticks < now.time.ticks - signedDays maxAgeDays * 86400 * 2000000000 := by
  show t.ticks < cutoff.ticks ↔ _
  rw [(cutoffTime_eq_some h).2]

/-- A count of days that keeps its sign is taken from the clock. -/
theorem olderThan_iff_of_lt (hdays : maxAgeDays.toNat < 2 ^ 63)
    (h : cutoffTime now maxAgeDays = some cutoff) : t < cutoff ↔ OlderThan now maxAgeDays t := by
  rw [lt_cutoff_iff h, signedDays, if_pos hdays]
  rfl

/-- Nothing is as old as 2^63 days. -/
theorem not_olderThan_of_le (hdays : 2 ^ 63 ≤ maxAgeDays.toNat) : ¬ OlderThan now maxAgeDays t := by
  have hnow := now.time.inRange
  have ht := t.inRange
  have hnanos := now.time.nanos_lt
  unfold OlderThan
  simp only [DateTime.ticks]
  unfold minSecs maxSecs at hnow ht
  omega

theorem signedDays_of_le (hdays : 2 ^ 63 ≤ maxAgeDays.toNat) :
    signedDays maxAgeDays = maxAgeDays.toNat - 2 ^ 64 := if_neg (not_lt.mpr hdays)

end Age

/-! ### The sums -/

section Sizes
variable {checks : Bool} {sizes : List Nat} {sum : Nat}

theorem foldlM_addSize (h : sum + sizes.sum < 2 ^ 64) :
    sizes.foldlM (addSize checks) sum = some (sum + sizes.sum) := by
  induction sizes generalizing sum with
  | nil => rfl
  | cons size rest ih =>
    rw [List.sum_cons, ← Nat.add_assoc] at h ⊢
    rw [List.foldlM_cons, addSize, if_pos (Nat.lt_of_le_of_lt (Nat.le_add_right _ _) h)]
    exact ih h

/-- A build that checks overflow stops at a sum that does not fit. -/
theorem foldlM_addSize_of_le (hsum : sum < 2 ^ 64) (h : 2 ^ 64 ≤ sum + sizes.sum) :
    sizes.foldlM (addSize true) sum = none := by
  induction sizes generalizing sum with
  | nil => exact absurd h (not_le.mpr hsum)
  | cons size rest ih =>
    rw [List.sum_cons, ← Nat.add_assoc] at h
    rw [List.foldlM_cons, addSize]
    split
    next hfits => exact ih hfits h
    next => rfl

end Sizes

/-! ### The pass over the entries -/

section Pass
variable {checks : Bool} {cutoff : DateTime} {maxSize : Nat} {entries before after : Entries}
  {entry : String × CacheIndexEntry} {remaining kept : Nat}

theorem totalSize_cons : totalSize (entry :: entries) = entry.2.fileSize + totalSize entries :=
  List.sum_cons

theorem totalSize_append : totalSize (before ++ after) = totalSize before + totalSize after := by
  unfold totalSize
  rw [List.map_append, List.sum_append]

theorem totalSize_sublist (h : before.Sublist after) : totalSize before ≤ totalSize after := by
  induction h with
  | slnil => exact le_rfl
  | cons entry _ ih => exact ih.trans (by rw [totalSize_cons]; exact Nat.le_add_left _ _)
  | cons_cons entry _ ih =>
    rw [totalSize_cons, totalSize_cons]
    exact Nat.add_le_add_left ih _

theorem totalSize_perm (h : before.Perm after) : totalSize before = totalSize after :=
  (h.map _).sum_eq

/-- While the sizes fit, the pass adds them up and removes what the plain pass does. -/
theorem foldlM_consider {sweep : Sweep} (hrest : totalSize entries ≤ sweep.remainingSize)
    (hfits : sweep.removedSize + sweep.remainingSize < 2 ^ 64) :
    entries.foldlM (consider checks cutoff maxSize) sweep =
      some ⟨sweep.entriesToRemove ++
          (entriesToRemove cutoff maxSize entries sweep.remainingSize).map Prod.fst,
        sweep.removedEntries + (entriesToRemove cutoff maxSize entries sweep.remainingSize).length,
        sweep.removedSize + totalSize (entriesToRemove cutoff maxSize entries sweep.remainingSize),
        sweep.remainingSize -
          totalSize (entriesToRemove cutoff maxSize entries sweep.remainingSize)⟩ := by
  induction entries generalizing sweep with
  | nil =>
    simp [entriesToRemove, totalSize]
  | cons entry rest ih =>
    rw [totalSize_cons] at hrest
    rw [List.foldlM_cons]
    unfold consider entriesToRemove
    split
    next =>
      rw [addSize, if_pos (by omega), subSize, if_pos (by omega)]
      show List.foldlM (consider checks cutoff maxSize) _ rest = _
      rw [ih (by dsimp only; omega) (by dsimp only; omega)]
      simp only [List.map_cons, List.length_cons, totalSize_cons, List.append_assoc,
        List.singleton_append, Option.some_inj, Sweep.mk.injEq, true_and]
      omega
    next => exact ih (by omega) hfits

/-- The pass ends within the limit, with what was kept before it within the limit. -/
theorem remaining_le (hkept : kept ≤ maxSize) : kept + totalSize entries ≤
    maxSize + totalSize (entriesToRemove cutoff maxSize entries (kept + totalSize entries)) := by
  induction entries with
  | nil => exact Nat.le_add_right_of_le hkept
  | cons entry rest ih =>
    rw [totalSize_cons]
    unfold entriesToRemove
    split
    next =>
      rw [totalSize_cons, show kept + (entry.2.fileSize + totalSize rest) - entry.2.fileSize =
        kept + totalSize rest by omega]
      omega
    next hkeep =>
      have hle : ¬ maxSize < kept + (entry.2.fileSize + totalSize rest) := fun h => hkeep (.inr h)
      omega

theorem entriesToRemove_append : entriesToRemove cutoff maxSize (before ++ after) remaining =
    entriesToRemove cutoff maxSize before remaining ++ entriesToRemove cutoff maxSize after
      (remaining - totalSize (entriesToRemove cutoff maxSize before remaining)) := by
  induction before generalizing remaining with
  | nil => rfl
  | cons entry rest ih =>
    rw [List.cons_append, entriesToRemove, entriesToRemove]
    split
    next => rw [ih, totalSize_cons, List.cons_append, Nat.sub_sub]
    next => exact ih

/-- While what remains is too large, everything goes. -/
theorem removed_of_lt (hrest : totalSize before ≤ remaining)
    (h : maxSize < remaining - totalSize (entriesToRemove cutoff maxSize before remaining)) :
    entriesToRemove cutoff maxSize before remaining = before := by
  induction before generalizing remaining with
  | nil => rfl
  | cons entry rest ih =>
    rw [totalSize_cons] at hrest
    unfold entriesToRemove at h ⊢
    split at h
    next hremove =>
      rw [if_pos hremove]
      rw [totalSize_cons, ← Nat.sub_sub] at h
      rw [ih (by omega) h]
    next hkeep =>
      have hle : ¬ maxSize < remaining := fun h => hkeep (.inr h)
      omega

end Pass

/-! ### One entry of the pass -/

section Turn
variable {cutoff : DateTime} {maxSize remaining : Nat} {entries removed before after : Entries}
  {entry : String × CacheIndexEntry}

def hashes (entries : Entries) : List String := entries.map Prod.fst

/-- What is removed and what is kept, each entry once. -/
theorem removed_append_kept (h : removed.Sublist entries) (hnodup : (hashes entries).Nodup) :
    (removed ++ entries.filter fun e => decide (e.1 ∉ hashes removed)).Perm entries := by
  induction h with
  | slnil => exact .nil
  | cons entry hsub ih =>
    obtain ⟨hnotMem, hnodup⟩ := List.nodup_cons.mp hnodup
    have hkept : entry.1 ∉ hashes _ := fun hmem => hnotMem ((hsub.map Prod.fst).subset hmem)
    rw [List.filter_cons, if_pos (by simpa using hkept)]
    exact List.perm_middle.trans ((ih hnodup).cons entry)
  | @cons_cons removed rest entry hsub ih =>
    obtain ⟨hnotMem, hnodup⟩ := List.nodup_cons.mp hnodup
    have hremoved : entry.1 ∈ hashes (entry :: removed) := List.mem_cons_self ..
    rw [List.filter_cons, if_neg (by simpa using hremoved)]
    have hrest : (rest.filter fun e => decide (e.1 ∉ hashes (entry :: removed))) =
        rest.filter fun e => decide (e.1 ∉ hashes removed) := by
      apply List.filter_congr
      intro e he
      have hne : e.1 ≠ entry.1 := fun heq => hnotMem (heq ▸ List.mem_map_of_mem he)
      exact decide_eq_decide.mpr (not_congr (List.mem_cons.trans (or_iff_right hne)))
    rw [hrest]
    exact (ih hnodup).cons entry

theorem hash_notMem_of_nodup (hnodup : (hashes (before ++ after)).Nodup)
    {e : String × CacheIndexEntry} (he : e ∈ before) (hsub : removed.Sublist after) :
    e.1 ∉ hashes removed := by
  unfold hashes at hnodup
  rw [List.map_append] at hnodup
  intro hmem
  exact (List.nodup_append.mp hnodup).2.2 _ (List.mem_map_of_mem he) _
    ((hsub.map Prod.fst).subset hmem) rfl

/-- Before an entry is considered, what has been kept and what is still to come is what the
pass takes to remain. -/
theorem total_before (hnodup : (hashes (before ++ entry :: after)).Nodup) :
    totalSize (before.filter fun e => decide (e.1 ∉ hashes (entriesToRemove cutoff maxSize
        (before ++ entry :: after) (totalSize (before ++ entry :: after))))) +
      totalSize (entry :: after) =
    totalSize (before ++ entry :: after) -
      totalSize (entriesToRemove cutoff maxSize before (totalSize (before ++ entry :: after))) := by
  generalize htotal : totalSize (before ++ entry :: after) = total
  have hfilter : (before.filter fun e => decide (e.1 ∉ hashes (entriesToRemove cutoff maxSize
      (before ++ entry :: after) total))) =
      before.filter fun e => decide (e.1 ∉ hashes (entriesToRemove cutoff maxSize before total)) := by
    apply List.filter_congr
    intro e he
    rw [entriesToRemove_append]
    have hsub : (entriesToRemove cutoff maxSize (entry :: after)
        (total - totalSize (entriesToRemove cutoff maxSize before total))).Sublist (entry :: after) :=
      entriesToRemove_sublist _ _
    have hafter := hash_notMem_of_nodup hnodup he hsub
    apply decide_eq_decide.mpr
    unfold hashes at hafter ⊢
    rw [List.map_append, List.mem_append, or_iff_left hafter]
  have hbefore : (hashes before).Nodup := by
    unfold hashes at hnodup ⊢
    rw [List.map_append] at hnodup
    exact (List.nodup_append.mp hnodup).1
  have hsub : (entriesToRemove cutoff maxSize before total).Sublist before :=
    entriesToRemove_sublist _ _
  have hperm := totalSize_perm (removed_append_kept hsub hbefore)
  rw [totalSize_append] at hperm htotal
  rw [hfilter]
  omega

/-- An entry goes exactly where it is old or too much remains when its turn comes. -/
theorem hash_mem_removed_iff (hnodup : (hashes (before ++ entry :: after)).Nodup) :
    entry.1 ∈ hashes (entriesToRemove cutoff maxSize (before ++ entry :: after) remaining) ↔
      entry.2.cachedAt < cutoff ∨
        maxSize < remaining - totalSize (entriesToRemove cutoff maxSize before remaining) := by
  have hbefore : entry.1 ∉ hashes (entriesToRemove cutoff maxSize before remaining) := by
    intro hmem
    obtain ⟨e, he, heq⟩ := List.mem_map.mp hmem
    have hnot := hash_notMem_of_nodup hnodup ((entriesToRemove_sublist before remaining).subset he)
      (List.Sublist.refl (entry :: after))
    exact hnot (heq ▸ List.mem_map_of_mem (List.mem_cons_self ..))
  have hafter : (hashes (entry :: after)).Nodup := by
    unfold hashes at hnodup ⊢
    rw [List.map_append] at hnodup
    exact (List.nodup_append.mp hnodup).2.1
  rw [entriesToRemove_append]
  unfold hashes at hbefore hafter ⊢
  rw [List.map_append, List.mem_append, or_iff_right hbefore]
  generalize remaining - totalSize (entriesToRemove cutoff maxSize before remaining) = left
  unfold entriesToRemove
  split
  next hremove =>
    rw [List.map_cons]
    exact iff_of_true (List.mem_cons_self ..) hremove
  next hkeep =>
    refine iff_of_false ?_ hkeep
    intro hmem
    exact (List.nodup_cons.mp hafter).1 (((entriesToRemove_sublist after left).map Prod.fst).subset hmem)

end Turn

/-! ### The whole pass -/

section Whole
variable (listing : Listing) (now later : ClockTime) (maxSizeBytes maxAgeDays : UInt64)
  (index : CacheIndex)

/-- What a cleanup does while the sizes fit. -/
def swept (cutoff : DateTime) : Cleanup :=
  let removed := entriesToRemove cutoff maxSizeBytes.toNat (byAccess listing index)
    (totalSize index.entries.entries)
  let entries := index.entries.erase (hashes removed)
  ⟨hashes removed, ⟨entries, later.time⟩,
    ⟨removed.length, totalSize removed, entries.entries.length,
      totalSize index.entries.entries - totalSize removed⟩⟩

/-- The cleanup does not stop, and evicts what it must. -/
def Evicts (checks : Bool) : Prop :=
  ∃ out, cleanup checks listing now later maxSizeBytes maxAgeDays index = some out ∧
    OnlyMust listing now maxSizeBytes maxAgeDays index out

variable {listing now later maxSizeBytes maxAgeDays index} {cutoff : DateTime} {checks : Bool}

theorem byAccess_perm : (byAccess listing index).Perm index.entries.entries :=
  (List.mergeSort_perm ..).trans (listing.perm index)

theorem nodup_byAccess : (hashes (byAccess listing index)).Nodup :=
  (byAccess_perm.map Prod.fst).nodup_iff.mpr index.entries.nodup_keys

theorem cleanup_eq (hsizes : totalSize index.entries.entries < 2 ^ 64) :
    cleanup checks listing now later maxSizeBytes maxAgeDays index =
      (cutoffTime now maxAgeDays).map (swept listing later maxSizeBytes index) := by
  have htotal : ((listing.list index).map fun entry => entry.2.fileSize).sum =
      totalSize index.entries.entries := ((listing.perm index).map _).sum_eq
  have hsum : sumSizes checks ((listing.list index).map fun entry => entry.2.fileSize) =
      some (totalSize index.entries.entries) := by
    unfold sumSizes
    rw [foldlM_addSize (by rw [htotal]; omega), htotal, Nat.zero_add]
  have hpass : ∀ cutoff, (byAccess listing index).foldlM
      (consider checks cutoff maxSizeBytes.toNat) ⟨[], 0, 0, totalSize index.entries.entries⟩ =
      some ⟨(swept listing later maxSizeBytes index cutoff).removed,
        (swept listing later maxSizeBytes index cutoff).result.removedEntries,
        (swept listing later maxSizeBytes index cutoff).result.removedSizeBytes,
        (swept listing later maxSizeBytes index cutoff).result.remainingSizeBytes⟩ := by
    intro cutoff
    rw [foldlM_consider (totalSize_perm byAccess_perm).le (by dsimp only; omega)]
    simp only [List.nil_append, Nat.zero_add]
    rfl
  unfold cleanup
  cases cutoffTime now maxAgeDays with
  | none => rfl
  | some cutoff =>
    simp only [Option.bind_eq_bind, Option.bind_some, hsum, hpass]
    rfl

/-- The index that is written in the end is the one that the pass leaves. -/
theorem cleanupCache_writes {codec : CacheCodec} {dir : CacheDir} {content : Trust.Bytes}
    (hfile : dir indexFile = some content) (hread : codec.readIndex content = .ok index) :
    ((cleanupCache codec listing maxSizeBytes.toNat cutoff later.time).run perform dir).2 indexFile =
      some (codec.indexText (swept listing later maxSizeBytes index cutoff).index) := by
  have hrun : ((cleanupCache codec listing maxSizeBytes.toNat cutoff later.time).run perform dir).2 =
      Function.update ((removeFiles (swept listing later maxSizeBytes index cutoff).removed).run
        perform dir).2 indexFile
        (some (codec.indexText (swept listing later maxSizeBytes index cutoff).index)) := by
    rw [cleanupCache, run_readFile_bind, hfile]
    dsimp only
    rw [hread]
    show (Process.run perform (removeFiles _ >>= _) dir).2 = _
    rw [Process.run_bind]
    rfl
  rw [hrun, Function.update_self]

/-- What remains when the entries before one have been considered. -/
def remainingAfter (maxSize : Nat) (index : CacheIndex) (cutoff : DateTime) (before : Entries) : Nat :=
  totalSize index.entries.entries -
    totalSize (entriesToRemove cutoff maxSize before (totalSize index.entries.entries))

section Split
variable {before after : Entries} {entry : String × CacheIndexEntry}

theorem mem_removed_iff (h : byAccess listing index = before ++ entry :: after) :
    entry.1 ∈ (swept listing later maxSizeBytes index cutoff).removed ↔
      entry.2.cachedAt < cutoff ∨
        maxSizeBytes.toNat < remainingAfter maxSizeBytes.toNat index cutoff before := by
  have hnodup : (hashes (byAccess listing index)).Nodup := nodup_byAccess
  rw [h] at hnodup
  unfold swept
  dsimp only
  rw [h]
  exact hash_mem_removed_iff hnodup

theorem total_kept_before (h : byAccess listing index = before ++ entry :: after) :
    totalSize (before.filter fun e =>
        decide (e.1 ∉ (swept listing later maxSizeBytes index cutoff).removed)) +
      totalSize (entry :: after) = remainingAfter maxSizeBytes.toNat index cutoff before := by
  have hnodup : (hashes (byAccess listing index)).Nodup := nodup_byAccess
  have htotal : totalSize (byAccess listing index) = totalSize index.entries.entries :=
    totalSize_perm byAccess_perm
  rw [h] at hnodup htotal
  unfold swept remainingAfter
  dsimp only
  rw [h, ← htotal]
  exact total_before hnodup

theorem total_le_remainingAfter (h : byAccess listing index = before ++ entry :: after) :
    totalSize (entry :: after) ≤ remainingAfter maxSizeBytes.toNat index cutoff before := by
  have htotal : totalSize (byAccess listing index) = totalSize index.entries.entries :=
    totalSize_perm byAccess_perm
  have hremoved : totalSize (entriesToRemove cutoff maxSizeBytes.toNat before
      (totalSize index.entries.entries)) ≤ totalSize before :=
    totalSize_sublist (entriesToRemove_sublist _ _)
  rw [h, totalSize_append] at htotal
  unfold remainingAfter
  omega

/-- Too much remains only where everything before has gone. -/
theorem remainingAfter_of_lt (h : byAccess listing index = before ++ entry :: after)
    (hlt : maxSizeBytes.toNat < remainingAfter maxSizeBytes.toNat index cutoff before) :
    remainingAfter maxSizeBytes.toNat index cutoff before = totalSize (entry :: after) := by
  have htotal : totalSize (byAccess listing index) = totalSize index.entries.entries :=
    totalSize_perm byAccess_perm
  rw [h, totalSize_append] at htotal
  unfold remainingAfter at hlt ⊢
  rw [removed_of_lt (by omega) hlt]
  omega

end Split

/-- All but the reason for each eviction is right whatever the cutoff is. -/
theorem onlyMust_swept_iff : OnlyMust listing now maxSizeBytes maxAgeDays index
      (swept listing later maxSizeBytes index cutoff) ↔
    ∀ before entry after, byAccess listing index = before ++ entry :: after →
      entry.2.cachedAt < cutoff → OlderThan now maxAgeDays entry.2.cachedAt ∨
        maxSizeBytes.toNat < remainingAfter maxSizeBytes.toNat index cutoff before := by
  constructor
  · intro h before entry after horder hold
    rw [← total_kept_before horder]
    exact h.must before entry after horder ((mem_removed_iff horder).mpr (.inl hold))
  · intro h
    have hsub : (entriesToRemove cutoff maxSizeBytes.toNat (byAccess listing index)
        (totalSize index.entries.entries)).Sublist (byAccess listing index) :=
      entriesToRemove_sublist _ _
    have hperm := (removed_append_kept hsub nodup_byAccess).trans byAccess_perm
    have herase : (index.entries.erase (hashes (entriesToRemove cutoff maxSizeBytes.toNat
        (byAccess listing index) (totalSize index.entries.entries)))).entries.Perm
        ((byAccess listing index).filter fun e => decide (e.1 ∉ hashes (entriesToRemove cutoff
          maxSizeBytes.toNat (byAccess listing index) (totalSize index.entries.entries)))) :=
      (byAccess_perm.filter _).symm
    have htotal := totalSize_perm hperm
    have hlength := hperm.length_eq
    rw [totalSize_append, ← totalSize_perm herase] at htotal
    rw [List.length_append, ← herase.length_eq] at hlength
    have hwithin : 0 + totalSize (byAccess listing index) ≤ maxSizeBytes.toNat +
        totalSize (entriesToRemove cutoff maxSizeBytes.toNat (byAccess listing index)
          (0 + totalSize (byAccess listing index))) := remaining_le (Nat.zero_le _)
    rw [Nat.zero_add, totalSize_perm byAccess_perm] at hwithin
    constructor
    · show totalSize index.entries.entries - totalSize _ ≤ _
      omega
    · show totalSize index.entries.entries - totalSize _ = totalSize (index.entries.erase _).entries
      omega
    · intro before entry after horder hmem
      rw [total_kept_before horder]
      rcases (mem_removed_iff horder).mp hmem with hold | hlarge
      · exact h before entry after horder hold
      · exact .inr hlarge
    · exact hlength
    · show totalSize _ + (totalSize index.entries.entries - totalSize _) = _
      omega

/-- While the sizes fit, the reading of the age decides, in any build. -/
theorem evicts_iff_of_fits (hsizes : totalSize index.entries.entries < 2 ^ 64) :
    Evicts listing now later maxSizeBytes maxAgeDays index checks ↔
      AgeRead listing now maxSizeBytes maxAgeDays index := by
  have hout : Evicts listing now later maxSizeBytes maxAgeDays index checks ↔
      ∃ cutoff, cutoffTime now maxAgeDays = some cutoff ∧
        OnlyMust listing now maxSizeBytes maxAgeDays index
          (swept listing later maxSizeBytes index cutoff) := by
    unfold Evicts
    rw [cleanup_eq hsizes]
    simp only [Option.map_eq_some_iff, exists_exists_and_eq_and]
  have hnow := now.time.inRange
  have hlt := maxAgeDays.toNat_lt
  rw [hout]
  unfold AgeRead
  split
  next hdays =>
    have hsigned : signedDays maxAgeDays = maxAgeDays.toNat := if_pos hdays
    constructor
    · intro ⟨cutoff, hcutoff, _⟩
      have hrange := (cutoffTime_eq_some hcutoff).1.1
      rwa [hsigned] at hrange
    · intro hmin
      have hrange : minSecs ≤ now.time.secs - signedDays maxAgeDays * 86400 ∧
          now.time.secs - signedDays maxAgeDays * 86400 ≤ maxSecs := by omega
      obtain ⟨cutoff, hcutoff⟩ := exists_cutoffTime hrange
      refine ⟨cutoff, hcutoff, onlyMust_swept_iff.mpr ?_⟩
      intro before entry after _ hold
      exact .inl ((olderThan_iff_of_lt hdays hcutoff).mp hold)
  next hdays =>
    have hdays := not_lt.mp hdays
    have hsigned := signedDays_of_le hdays
    constructor
    · intro ⟨cutoff, hcutoff, hmust⟩
      have hrange := (cutoffTime_eq_some hcutoff).1.2
      refine ⟨by omega, ?_⟩
      intro before entry after horder hold
      have hcut : entry.2.cachedAt < cutoff := (lt_cutoff_iff hcutoff).mpr (by omega)
      rcases onlyMust_swept_iff.mp hmust before entry after horder hcut with holder | hlarge
      · exact absurd holder (not_olderThan_of_le hdays)
      · rwa [remainingAfter_of_lt horder hlarge] at hlarge
    · intro ⟨hmax, hfuture⟩
      have hrange : minSecs ≤ now.time.secs - signedDays maxAgeDays * 86400 ∧
          now.time.secs - signedDays maxAgeDays * 86400 ≤ maxSecs := by omega
      obtain ⟨cutoff, hcutoff⟩ := exists_cutoffTime hrange
      refine ⟨cutoff, hcutoff, onlyMust_swept_iff.mpr ?_⟩
      intro before entry after horder hold
      have hold := (lt_cutoff_iff hcutoff).mp hold
      exact .inr ((hfuture before entry after horder (by omega)).trans_le
        (total_le_remainingAfter horder))

theorem not_evicts_of_overflow (h : 2 ^ 64 ≤ totalSize index.entries.entries) :
    ¬ Evicts listing now later maxSizeBytes maxAgeDays index true := by
  have htotal : ((listing.list index).map fun entry => entry.2.fileSize).sum =
      totalSize index.entries.entries := ((listing.perm index).map _).sum_eq
  have hsum : sumSizes true ((listing.list index).map fun entry => entry.2.fileSize) = none :=
    foldlM_addSize_of_le (by decide) (by rw [htotal]; omega)
  intro ⟨out, hout, _⟩
  unfold cleanup at hout
  rw [hsum] at hout
  cases hcutoff : cutoffTime now maxAgeDays with
  | none => rw [hcutoff] at hout; cases hout
  | some cutoff => rw [hcutoff] at hout; cases hout

/-- A cleanup evicts what it must, and nothing else, exactly where its age is read as it is
meant and, in a build that checks overflow, the sizes fit in 64 bits; where they do, any
build will do. -/
theorem cleanup_evicts_iff (listing : Listing) (now later : ClockTime)
    (maxSizeBytes maxAgeDays : UInt64) (index : CacheIndex) :
    (Evicts listing now later maxSizeBytes maxAgeDays index true ↔
        totalSize index.entries.entries < 2 ^ 64 ∧
          AgeRead listing now maxSizeBytes maxAgeDays index) ∧
      (totalSize index.entries.entries < 2 ^ 64 →
        (Evicts listing now later maxSizeBytes maxAgeDays index false ↔
          AgeRead listing now maxSizeBytes maxAgeDays index)) := by
  constructor
  · by_cases hsizes : totalSize index.entries.entries < 2 ^ 64
    · rw [evicts_iff_of_fits hsizes]
      exact (and_iff_right hsizes).symm
    · refine iff_of_false (not_evicts_of_overflow (not_lt.mp hsizes)) ?_
      exact fun h => hsizes h.1
  · exact evicts_iff_of_fits

/-! ### A limit that means never -/

def sampleNow : ClockTime := ⟨⟨1760000000, 0, by decide, DateTime.zero_nanos_lt⟩, by decide⟩

/-- One entry, cached a second ago. -/
def sampleEntry : String × CacheIndexEntry :=
  ("6b3a2d1d", ⟨"6b3a2d1d", "build", ⟨1759999999, 0, by decide, DateTime.zero_nanos_lt⟩, 100, 1,
    ⟨1759999999, 0, by decide, DateTime.zero_nanos_lt⟩⟩)

def sampleIndex : CacheIndex :=
  ⟨SortedMap.empty.insert sampleEntry.1 sampleEntry.2, ⟨1759999999, 0, by decide, DateTime.zero_nanos_lt⟩⟩

def sampleListing : Listing := ⟨fun index => index.entries.entries, fun _ => .refl _⟩

theorem not_evicts_sample (checks : Bool) : ¬ Evicts sampleListing sampleNow sampleNow
    18446744073709551615 18446744073709551615 sampleIndex checks := by
  intro h
  have hread := (evicts_iff_of_fits (by decide)).mp h
  have horder : byAccess sampleListing sampleIndex = [] ++ sampleEntry :: [] :=
    List.mergeSort_singleton _
  have hlarge := hread.2 [] sampleEntry [] horder (by decide)
  exact absurd hlarge (by decide)

/-- With the largest limits there are, an entry that is a second old is evicted. -/
theorem evicts_the_fresh :
    ¬ Evicts sampleListing sampleNow sampleNow 18446744073709551615 18446744073709551615
        sampleIndex true ∧
      ¬ Evicts sampleListing sampleNow sampleNow 18446744073709551615 18446744073709551615
        sampleIndex false := by
  exact ⟨not_evicts_sample true, not_evicts_sample false⟩

end Whole

end Attest.Executor.CacheDir
