import Attest.Library.SortedMap
import Attest.Library.Fallible
import Mathlib.Data.Set.Lattice

/-! Entries gathered from several places.

Where each key has one value among all that is known, it does not matter in which order the places
are gone through, nor how often (`Gathers.foldlM`): what is gathered is the union of what they have,
and it succeeds where each place alone does. -/
namespace Attest.Library.SortedMap
open Fallible

variable {κ α ε π : Type} [LinearOrder κ] {known source : Set (κ × α)} {fine : Prop}
  {add : SortedMap κ α → Except ε (SortedMap κ α)} {m m' : SortedMap κ α}

/-- Each key has one value. -/
def OneEach (known : Set (κ × α)) : Prop :=
  ∀ entry ∈ known, ∀ other ∈ known, entry.1 = other.1 → entry = other

/-- All entries are known ones. -/
def Within (known : Set (κ × α)) (m : SortedMap κ α) : Prop := ∀ entry ∈ m.entries, entry ∈ known

/-- An addition that succeeds exactly under a condition, and adds the entries of a source. -/
structure Gathers (known : Set (κ × α)) (add : SortedMap κ α → Except ε (SortedMap κ α)) (fine : Prop)
    (source : Set (κ × α)) : Prop where
  sourced : source ⊆ known
  fine : ∀ m, Within known m → ((∃ m', add m = .ok m') ↔ fine)
  added : ∀ m m', Within known m → add m = .ok m' →
    ∀ entry, entry ∈ m'.entries ↔ entry ∈ m.entries ∨ entry ∈ source

theorem within_empty (known : Set (κ × α)) : Within known empty := by
  intro entry hentry
  simp at hentry

theorem Gathers.within (h : Gathers known add fine source) (hm : Within known m)
    (hadd : add m = .ok m') : Within known m' := by
  intro entry hentry
  rcases (h.added m m' hm hadd entry).mp hentry with hold | hnew
  · exact hm entry hold
  · exact h.sourced hnew

/-- What is gathered is what the source says, whatever was there before. -/
theorem Gathers.congr {fine' : Prop} {source' : Set (κ × α)} (h : Gathers known add fine source)
    (hfine : fine ↔ fine') (hsource : source = source') : Gathers known add fine' source' := by
  subst hsource
  exact ⟨h.sourced, fun m hm => (h.fine m hm).trans hfine, h.added⟩

/-- One entry, where there is one. -/
theorem gathers_insert {record : Except ε (κ × α)} (hone : OneEach known)
    (hknown : ∀ entry, record = .ok entry → entry ∈ known) :
    Gathers known (fun m => record >>= fun entry => .ok (m.insert entry.1 entry.2))
      (∃ entry, record = .ok entry) {entry | record = .ok entry} := by
  constructor
  · exact hknown
  · intro m _
    simp only [except_bind_eq_ok, Except.ok.injEq]
    constructor
    · intro h
      obtain ⟨_, entry, hentry, _⟩ := h
      exact ⟨entry, hentry⟩
    · intro h
      obtain ⟨entry, hentry⟩ := h
      exact ⟨_, entry, hentry, rfl⟩
  · intro m m' hm hadd entry
    obtain ⟨recorded, hrecorded, hinserted⟩ := except_bind_eq_ok.mp hadd
    obtain rfl := Except.ok.inj hinserted
    have hsource : record = .ok entry ↔ entry = recorded := by
      rw [hrecorded, Except.ok.injEq, eq_comm]
    rw [mem_insert, Set.mem_ofPred_eq, hsource]
    constructor
    · intro h
      rcases h with rfl | ⟨hold, _⟩
      · exact .inr rfl
      · exact .inl hold
    · intro h
      rcases h with hold | rfl
      · by_cases hkey : entry.1 = recorded.1
        · exact .inl (hone entry (hm entry hold) recorded (hknown recorded hrecorded) hkey)
        · exact .inr ⟨hold, hkey⟩
      · exact .inl rfl

/-- From several places, one after the other. -/
theorem Gathers.foldlM {places : List π} {add : SortedMap κ α → π → Except ε (SortedMap κ α)}
    {fine : π → Prop} {source : π → Set (κ × α)}
    (h : ∀ place ∈ places, Gathers known (add · place) (fine place) (source place)) :
    Gathers known (fun m => places.foldlM add m) (∀ place ∈ places, fine place)
      {entry | ∃ place ∈ places, entry ∈ source place} := by
  induction places with
  | nil =>
    constructor
    · intro entry hentry
      simp at hentry
    · intro m _
      simp [pure, Except.pure]
    · intro m m' _ hadd entry
      obtain rfl := Except.ok.inj hadd
      simp
  | cons place rest ih =>
    have hplace := h place (List.mem_cons_self ..)
    have hrest := ih fun other hother => h other (List.mem_cons_of_mem _ hother)
    constructor
    · intro entry hentry
      obtain ⟨other, hother, hentry⟩ := hentry
      exact (h other hother).sourced hentry
    · intro m hm
      simp only [List.foldlM_cons, except_bind_eq_ok, List.forall_mem_cons]
      constructor
      · intro hok
        obtain ⟨m', after, hafter, hok⟩ := hok
        exact ⟨(hplace.fine m hm).mp ⟨after, hafter⟩,
          (hrest.fine after (hplace.within hm hafter)).mp ⟨m', hok⟩⟩
      · intro hall
        obtain ⟨after, hafter⟩ := (hplace.fine m hm).mpr hall.1
        obtain ⟨m', hok⟩ := (hrest.fine after (hplace.within hm hafter)).mpr hall.2
        exact ⟨m', after, hafter, hok⟩
    · intro m m' hm hadd entry
      rw [List.foldlM_cons] at hadd
      obtain ⟨after, hafter, hok⟩ := except_bind_eq_ok.mp hadd
      rw [hrest.added after m' (hplace.within hm hafter) hok, hplace.added m after hm hafter]
      simp only [Set.mem_ofPred_eq, List.exists_mem_cons_iff, or_assoc]

end Attest.Library.SortedMap
