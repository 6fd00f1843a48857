import Mathlib.Data.List.Destutter
import Mathlib.Data.List.Sort
import Mathlib.Data.String.Basic

/-! Stable sorting by a key.

A stable sort moves items past each other and never past one with their own key. So
two lists sort to the same list exactly when, key by key, they hold the same items
in the same order. -/
namespace Attest.Library.StableSort

variable {α κ : Type} [LinearOrder κ]

/-- The order of a sort by a key. -/
def keyLe (key : α → κ) (a b : α) : Bool := decide (key a ≤ key b)

/-- `slice::sort_by_key`. -/
def sortByKey (key : α → κ) (items : List α) : List α := items.mergeSort (keyLe key)

theorem mem_sortByKey {key : α → κ} {items : List α} {a : α} : a ∈ sortByKey key items ↔ a ∈ items :=
  (List.mergeSort_perm items (keyLe key)).mem_iff

/-- The items of one key, in their order. -/
def ofKey (key : α → κ) (k : κ) (items : List α) : List α := items.filter fun a => decide (key a = k)

theorem keyLe_trans (key : α → κ) (a b c : α) (hab : keyLe key a b = true)
    (hbc : keyLe key b c = true) : keyLe key a c = true := by
  unfold keyLe at hab hbc ⊢
  exact decide_eq_true ((of_decide_eq_true hab).trans (of_decide_eq_true hbc))

theorem keyLe_total (key : α → κ) (a b : α) : (keyLe key a b || keyLe key b a) = true := by
  simpa [keyLe] using le_total (key a) (key b)

theorem pairwise_sortByKey (key : α → κ) (items : List α) :
    (sortByKey key items).Pairwise (fun a b => key a ≤ key b) := by
  refine (List.pairwise_mergeSort (keyLe_trans key) (keyLe_total key) items).imp ?_
  intro a b hab
  exact of_decide_eq_true hab

/-- A sort leaves the items of each key as they are. -/
theorem ofKey_sortByKey (key : α → κ) (k : κ) (items : List α) :
    ofKey key k (sortByKey key items) = ofKey key k items := by
  have hperm : (ofKey key k (sortByKey key items)).Perm (ofKey key k items) :=
    (List.mergeSort_perm items (keyLe key)).filter _
  -- Items of one key are in order as they stand, so the sort keeps them as a sublist.
  have hsorted : (ofKey key k items).Pairwise (fun a b => keyLe key a b = true) := by
    refine List.pairwise_of_forall_mem_list ?_
    intro a ha b hb
    have ha' : key a = k := by simpa using List.of_mem_filter ha
    have hb' : key b = k := by simpa using List.of_mem_filter hb
    exact decide_eq_true (le_of_eq (ha'.trans hb'.symm))
  have hsub : (ofKey key k items).Sublist (sortByKey key items) :=
    List.sublist_mergeSort (keyLe_trans key) (keyLe_total key) hsorted List.filter_sublist
  have hkeep : ofKey key k (ofKey key k items) = ofKey key k items := by
    unfold ofKey
    rw [List.filter_filter]
    simp
  have hsub' := hsub.filter (fun a => decide (key a = k))
  change (ofKey key k (ofKey key k items)).Sublist _ at hsub'
  rw [hkeep] at hsub'
  exact (hsub'.eq_of_length hperm.length_eq.symm).symm

/-- An item of a sorted list with the same items key by key is not before its first item. -/
theorem head_le {key : α → κ} {a b : α} {s t : List α}
    (hs : (a :: s).Pairwise (fun a b => key a ≤ key b))
    (h : ∀ k, ofKey key k (a :: s) = ofKey key k (b :: t)) : key a ≤ key b := by
  have hmem : b ∈ ofKey key (key b) (a :: s) := by
    rw [h]
    simp [ofKey]
  rcases List.mem_cons.mp (List.mem_of_mem_filter hmem) with rfl | hb
  · exact le_rfl
  · exact List.rel_of_pairwise_cons hs hb

theorem eq_of_ofKey_eq {key : α → κ} {s t : List α} (hs : s.Pairwise (fun a b => key a ≤ key b))
    (ht : t.Pairwise (fun a b => key a ≤ key b)) (h : ∀ k, ofKey key k s = ofKey key k t) :
    s = t := by
  induction s generalizing t with
  | nil =>
    cases t with
    | nil => rfl
    | cons b t =>
      have := h (key b)
      simp [ofKey] at this
  | cons a s ih =>
    cases t with
    | nil =>
      have := h (key a)
      simp [ofKey] at this
    | cons b t =>
      have hkey : key a = key b := le_antisymm (head_le hs h) (head_le ht fun k => (h k).symm)
      have hfirst : a = b ∧ ofKey key (key a) s = ofKey key (key a) t := by
        have := h (key a)
        simpa [ofKey, hkey] using this
      obtain ⟨rfl, _⟩ := hfirst
      rw [ih hs.of_cons ht.of_cons]
      intro k
      have hk := h k
      unfold ofKey at hk ⊢
      rw [List.filter_cons, List.filter_cons] at hk
      split at hk
      · exact List.tail_eq_of_cons_eq hk
      · exact hk

/-- **Two lists sort alike exactly when they agree key by key.** -/
theorem sortByKey_eq_iff {key : α → κ} {xs ys : List α} :
    sortByKey key xs = sortByKey key ys ↔ ∀ k, ofKey key k xs = ofKey key k ys := by
  constructor
  · intro h k
    rw [← ofKey_sortByKey key k xs, h, ofKey_sortByKey]
  · intro h
    refine eq_of_ofKey_eq (pairwise_sortByKey key xs) (pairwise_sortByKey key ys) fun k => ?_
    rw [ofKey_sortByKey, ofKey_sortByKey, h]

/-- A reordering that never moves an item past one with its own key. -/
structure Reordered (key : α → κ) (xs ys : List α) : Prop where
  perm : xs.Perm ys
  keeps : ∀ k, ofKey key k xs = ofKey key k ys

theorem reordered_iff {key : α → κ} {xs ys : List α} :
    Reordered key xs ys ↔ sortByKey key xs = sortByKey key ys := by
  constructor
  · intro h
    exact sortByKey_eq_iff.mpr h.keeps
  · intro h
    have hperm : xs.Perm ys := (List.mergeSort_perm xs (keyLe key)).symm.trans
      ((List.Perm.of_eq h).trans (List.mergeSort_perm ys (keyLe key)))
    exact ⟨hperm, sortByKey_eq_iff.mp h⟩

/-- Sorted by the items themselves, two lists agree exactly when one permutes the other. -/
theorem sortByKey_id_eq_iff {xs ys : List κ} :
    sortByKey id xs = sortByKey id ys ↔ xs.Perm ys := by
  constructor
  · intro h
    exact (reordered_iff.mpr h).perm
  · intro h
    have hperm : (sortByKey id xs).Perm (sortByKey id ys) :=
      (List.mergeSort_perm xs (keyLe id)).trans (h.trans (List.mergeSort_perm ys (keyLe id)).symm)
    exact hperm.eq_of_pairwise (fun a b _ _ hab hba => le_antisymm hab hba)
      (pairwise_sortByKey id xs) (pairwise_sortByKey id ys)

/-- Two items out of order. -/
theorem sortByKey_swap {key : α → κ} {a b : α} (h : key b < key a) :
    sortByKey key [a, b] = [b, a] := by
  have hsorted : [b, a].Pairwise (fun a b => keyLe key a b = true) := by
    simp [keyLe, h.le]
  have hkeeps : sortByKey key [a, b] = sortByKey key [b, a] := by
    refine sortByKey_eq_iff.mpr fun k => ?_
    simp only [ofKey, List.filter_cons, List.filter_nil]
    by_cases ha : key a = k
    · have hb : key b ≠ k := fun hb => absurd (ha.trans hb.symm) h.ne'
      simp [ha, hb]
    · simp [ha]
  rw [hkeeps]
  exact List.mergeSort_of_pairwise hsorted

/-- `Vec::dedup` after a sort leaves each item once, where no two items have one key. -/
theorem destutter_sortByKey [DecidableEq α] {key : α → κ} (h : Function.Injective key)
    (items : List α) : (sortByKey key items).destutter (· ≠ ·) = (sortByKey key items).dedup := by
  have : Std.Antisymm fun a b : α => key a ≤ key b := ⟨fun _ _ hab hba => h (hab.antisymm hba)⟩
  exact (pairwise_sortByKey key items).destutter_eq_dedup

end Attest.Library.StableSort
