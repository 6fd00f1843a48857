import Mathlib.Data.List.Induction
import Mathlib.Data.List.Sort
import Mathlib.Order.Lattice

/-! Maps kept in the order of their keys.

A map is the list of its entries with the keys strictly increasing, so each key has one
value and two maps with the same entries are the same list. An insertion walks to the
place of its key and replaces what stands there. -/
namespace Attest.Library

variable {κ α : Type*} [LinearOrder κ]

structure SortedMap (κ α : Type*) [LinearOrder κ] where
  entries : List (κ × α)
  sorted : entries.Pairwise fun a b => a.1 < b.1

namespace SortedMap

theorem ext_entries {m m' : SortedMap κ α} (h : m.entries = m'.entries) : m = m' := by
  cases m
  cases m'
  cases h
  rfl

instance [DecidableEq α] : DecidableEq (SortedMap κ α) := fun m m' =>
  decidable_of_iff (m.entries = m'.entries) ⟨ext_entries, congrArg entries⟩

def empty : SortedMap κ α := ⟨[], List.Pairwise.nil⟩

@[simp] theorem entries_empty : (empty : SortedMap κ α).entries = [] := rfl

/-- The entries with this one in its place. -/
def insertEntry (key : κ) (value : α) : List (κ × α) → List (κ × α)
  | [] => [(key, value)]
  | (other, old) :: rest =>
    if key < other then (key, value) :: (other, old) :: rest
    else if key = other then (key, value) :: rest
    else (other, old) :: insertEntry key value rest

theorem mem_insertEntry_of_sorted {key : κ} {value : α} {entries : List (κ × α)}
    (hsorted : entries.Pairwise fun a b => a.1 < b.1) (entry : κ × α) :
    entry ∈ insertEntry key value entries ↔
      entry = (key, value) ∨ entry ∈ entries ∧ entry.1 ≠ key := by
  induction entries with
  | nil => simp [insertEntry]
  | cons first rest ih =>
    obtain ⟨other, old⟩ := first
    have hrest := List.pairwise_cons.mp hsorted
    unfold insertEntry
    split
    next hlt =>
      -- Every key after this place is greater, so none is replaced.
      have hkeep : ∀ e ∈ (other, old) :: rest, e.1 ≠ key := by
        intro e he
        cases List.mem_cons.mp he with
        | inl h => rw [h]; exact hlt.ne'
        | inr h => exact (hlt.trans (hrest.1 e h)).ne'
      rw [List.mem_cons]
      constructor
      · intro h
        exact h.imp_right fun hmem => ⟨hmem, hkeep entry hmem⟩
      · intro h
        exact h.imp_right And.left
    next hlt =>
      split
      next heq =>
        subst heq
        have hkeep : ∀ e ∈ rest, e.1 ≠ key := fun e he => (hrest.1 e he).ne'
        rw [List.mem_cons, List.mem_cons]
        constructor
        · intro h
          exact h.imp_right fun hmem => ⟨.inr hmem, hkeep entry hmem⟩
        · intro h
          refine h.imp_right fun hmem => hmem.1.resolve_left ?_
          intro hfirst
          exact hmem.2 (by rw [hfirst])
      next hne =>
        rw [List.mem_cons, ih hrest.2, List.mem_cons]
        constructor
        · intro h
          obtain h | h | h := h
          · refine .inr ⟨.inl h, ?_⟩
            rw [h]
            exact fun hkey => hne hkey.symm
          · exact .inl h
          · exact .inr ⟨.inr h.1, h.2⟩
        · intro h
          obtain h | ⟨h | h, hkey⟩ := h
          · exact .inr (.inl h)
          · exact .inl h
          · exact .inr (.inr ⟨h, hkey⟩)

theorem sorted_insertEntry (key : κ) (value : α) {entries : List (κ × α)}
    (hsorted : entries.Pairwise fun a b => a.1 < b.1) :
    (insertEntry key value entries).Pairwise fun a b => a.1 < b.1 := by
  induction entries with
  | nil => simp [insertEntry]
  | cons first rest ih =>
    obtain ⟨other, old⟩ := first
    have hrest := List.pairwise_cons.mp hsorted
    unfold insertEntry
    split
    next hlt =>
      refine List.pairwise_cons.mpr ⟨?_, hsorted⟩
      intro e he
      cases List.mem_cons.mp he with
      | inl h => rw [h]; exact hlt
      | inr h => exact hlt.trans (hrest.1 e h)
    next hlt =>
      split
      next heq =>
        subst heq
        exact List.pairwise_cons.mpr ⟨hrest.1, hrest.2⟩
      next hne =>
        refine List.pairwise_cons.mpr ⟨?_, ih hrest.2⟩
        intro e he
        cases (mem_insertEntry_of_sorted hrest.2 e).mp he with
        | inl h => rw [h]; exact lt_of_le_of_ne (not_lt.mp hlt) fun h => hne h.symm
        | inr h => exact hrest.1 e h.1

/-- The map with this value at this key. -/
def insert (m : SortedMap κ α) (key : κ) (value : α) : SortedMap κ α :=
  ⟨insertEntry key value m.entries, sorted_insertEntry key value m.sorted⟩

theorem mem_insert {m : SortedMap κ α} {key : κ} {value : α} {entry : κ × α} :
    entry ∈ (m.insert key value).entries ↔
      entry = (key, value) ∨ entry ∈ m.entries ∧ entry.1 ≠ key :=
  mem_insertEntry_of_sorted m.sorted entry

/-- A key has one value. -/
theorem value_unique {m : SortedMap κ α} {key : κ} {a b : α} (ha : (key, a) ∈ m.entries)
    (hb : (key, b) ∈ m.entries) : a = b := by
  have hkeys : ∀ entries : List (κ × α), entries.Pairwise (fun a b => a.1 < b.1) →
      (key, a) ∈ entries → (key, b) ∈ entries → a = b := by
    intro entries hsorted ha hb
    induction entries with
    | nil => cases ha
    | cons first rest ih =>
      have hrest := List.pairwise_cons.mp hsorted
      rcases List.mem_cons.mp ha with ha | ha
      · rcases List.mem_cons.mp hb with hb | hb
        · exact congrArg Prod.snd (ha.trans hb.symm)
        · exact absurd (hrest.1 _ hb) (by rw [← ha]; exact lt_irrefl _)
      · rcases List.mem_cons.mp hb with hb | hb
        · exact absurd (hrest.1 _ ha) (by rw [← hb]; exact lt_irrefl _)
        · exact ih hrest.2 ha hb
  exact hkeys m.entries m.sorted ha hb

/-- The map with the entries of a list put into it, one after the other. -/
def insertAll (m : SortedMap κ α) (entries : List (κ × α)) : SortedMap κ α :=
  entries.foldl (fun m entry => m.insert entry.1 entry.2) m

theorem insertEntry_of_lt {key : κ} (value : α) {entries : List (κ × α)}
    (h : ∀ entry ∈ entries, entry.1 < key) :
    insertEntry key value entries = entries ++ [(key, value)] := by
  induction entries with
  | nil => rfl
  | cons first rest ih =>
    obtain ⟨other, old⟩ := first
    have hother : other < key := h _ (List.mem_cons_self ..)
    rw [insertEntry, if_neg hother.not_gt, if_neg hother.ne',
      ih fun entry hentry => h entry (List.mem_cons_of_mem _ hentry), List.cons_append]

/-- Entries that come in the order of their keys are put behind what is there. -/
theorem entries_insertAll {m : SortedMap κ α} {entries : List (κ × α)}
    (h : (m.entries ++ entries).Pairwise fun a b => a.1 < b.1) :
    (m.insertAll entries).entries = m.entries ++ entries := by
  induction entries generalizing m with
  | nil =>
    rw [List.append_nil]
    rfl
  | cons entry rest ih =>
    have hlast : ∀ other ∈ m.entries, other.1 < entry.1 := by
      intro other hother
      exact (List.pairwise_append.mp h).2.2 other hother entry (List.mem_cons_self ..)
    have hinsert : (m.insert entry.1 entry.2).entries = m.entries ++ [entry] :=
      insertEntry_of_lt entry.2 hlast
    have hsplit : m.entries ++ entry :: rest = (m.insert entry.1 entry.2).entries ++ rest := by
      rw [hinsert, List.append_assoc, List.singleton_append]
    rw [hsplit] at h ⊢
    exact ih h

/-- The map without these keys. -/
def erase (m : SortedMap κ α) (keys : List κ) : SortedMap κ α :=
  ⟨m.entries.filter fun entry => decide (entry.1 ∉ keys), m.sorted.filter _⟩

/-! ### Reading -/

def keys (m : SortedMap κ α) : List κ := m.entries.map Prod.fst

def lookup (m : SortedMap κ α) (key : κ) : Option α :=
  (m.entries.find? fun entry => decide (entry.1 = key)).map Prod.snd

theorem nodup_keys (m : SortedMap κ α) : m.keys.Nodup :=
  (List.pairwise_map.mpr (m.sorted.imp fun h => h.ne))

theorem lookup_eq_some {m : SortedMap κ α} {key : κ} {value : α} :
    m.lookup key = some value ↔ (key, value) ∈ m.entries := by
  unfold lookup
  constructor
  · intro h
    obtain ⟨entry, hfind, rfl⟩ := Option.map_eq_some_iff.mp h
    have hkey : entry.1 = key := by simpa using List.find?_some hfind
    rw [← hkey]
    exact List.mem_of_find?_eq_some hfind
  · intro h
    cases hfind : m.entries.find? fun entry => decide (entry.1 = key) with
    | none => exact absurd (List.find?_eq_none.mp hfind (key, value) h) (by simp)
    | some entry =>
      have hkey : entry.1 = key := by simpa using List.find?_some hfind
      have hmem : (key, entry.2) ∈ m.entries := by
        rw [← hkey]
        exact List.mem_of_find?_eq_some hfind
      exact congrArg some (value_unique hmem h)

theorem lookup_insert {m : SortedMap κ α} {key other : κ} {value : α} :
    (m.insert key value).lookup other = if other = key then some value else m.lookup other := by
  by_cases h : other = key
  · rw [if_pos h, lookup_eq_some, mem_insert, h]
    exact .inl rfl
  · rw [if_neg h]
    apply Option.ext
    intro found
    rw [lookup_eq_some, lookup_eq_some, mem_insert]
    constructor
    · intro hfound
      rcases hfound with hfound | hfound
      · exact absurd (congrArg Prod.fst hfound) h
      · exact hfound.1
    · intro hfound
      exact .inr ⟨hfound, h⟩

theorem lookup_empty {key : κ} : (empty : SortedMap κ α).lookup key = none := rfl

theorem mem_keys {m : SortedMap κ α} {key : κ} : key ∈ m.keys ↔ ∃ value, m.lookup key = some value := by
  simp only [keys, List.mem_map, Prod.exists, exists_and_right, exists_eq_right, lookup_eq_some]

theorem mem_keys_insertAll {m : SortedMap κ α} {entries : List (κ × α)} {key : κ} :
    key ∈ (m.insertAll entries).keys ↔ key ∈ m.keys ∨ key ∈ entries.map Prod.fst := by
  induction entries generalizing m with
  | nil =>
    rw [List.map_nil, List.mem_nil_iff, or_false]
    rfl
  | cons entry rest ih =>
    have hinsert : key ∈ (m.insert entry.1 entry.2).keys ↔ key = entry.1 ∨ key ∈ m.keys := by
      simp only [keys, List.mem_map, mem_insert]
      constructor
      · intro h
        obtain ⟨other, rfl | ⟨hother, _⟩, rfl⟩ := h
        · exact .inl rfl
        · exact .inr ⟨other, hother, rfl⟩
      · intro h
        by_cases hkey : key = entry.1
        · exact ⟨entry, .inl rfl, hkey.symm⟩
        · obtain ⟨other, hother, rfl⟩ := h.resolve_left hkey
          exact ⟨other, .inr ⟨hother, hkey⟩, rfl⟩
    show key ∈ ((m.insert entry.1 entry.2).insertAll rest).keys ↔ _
    rw [ih, hinsert, List.map_cons, List.mem_cons, or_assoc, or_left_comm]

/-- What is put in later stands in front of what was there. -/
theorem lookup_insertAll (m : SortedMap κ α) (entries : List (κ × α)) (key : κ) :
    (m.insertAll entries).lookup key = ((empty.insertAll entries).lookup key).or (m.lookup key) := by
  induction entries using List.reverseRecOn with
  | nil => rfl
  | append_singleton before entry ih =>
    have hlast : ∀ m : SortedMap κ α,
        m.insertAll (before ++ [entry]) = (m.insertAll before).insert entry.1 entry.2 := by
      intro m
      rw [insertAll, List.foldl_append]
      rfl
    rw [hlast, hlast, lookup_insert, lookup_insert, ih]
    split <;> rfl

theorem insertAll_entries (m : SortedMap κ α) : empty.insertAll m.entries = m :=
  ext_entries (entries_insertAll m.sorted)

/-- An entry more at most. -/
theorem length_insertEntry_le (key : κ) (value : α) (entries : List (κ × α)) :
    (insertEntry key value entries).length ≤ entries.length + 1 := by
  induction entries with
  | nil => exact le_rfl
  | cons first rest ih =>
    obtain ⟨other, old⟩ := first
    unfold insertEntry
    split
    next => exact le_rfl
    next =>
      split
      next => exact Nat.le_succ _
      next => exact Nat.succ_le_succ ih

/-- Two maps with the same entries are one. -/
theorem ext_mem {m m' : SortedMap κ α} (h : ∀ entry, entry ∈ m.entries ↔ entry ∈ m'.entries) :
    m = m' := by
  apply ext_entries
  have hnodup : ∀ m : SortedMap κ α, m.entries.Nodup := fun m =>
    m.sorted.imp fun hlt heq => absurd (congrArg Prod.fst heq) hlt.ne
  refine ((List.perm_ext_iff_of_nodup (hnodup m) (hnodup m')).mpr h).eq_of_pairwise ?_ m.sorted
    m'.sorted
  intro a b _ _ hab hba
  exact absurd hba hab.not_gt

/-- Two maps that give the same for every key are one. -/
theorem ext_lookup {m m' : SortedMap κ α} (h : ∀ key, m.lookup key = m'.lookup key) : m = m' := by
  apply ext_mem
  intro entry
  rw [← lookup_eq_some, ← lookup_eq_some, h entry.1]

end SortedMap

end Attest.Library
