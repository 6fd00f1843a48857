import Mathlib.Data.List.Basic

/-! Codes that end by themselves.

A code is self-delimiting when what follows a codeword cannot be taken for part of it: a word is
read off the front of any continuation in one way only. Words of such a code in a row determine
their sequence. A text up to a separator that is not in it is such a code, and so is a text of
known length. -/
namespace Attest.Library
variable {α β γ : Type}

/-- A codeword is read off the front of whatever follows it. -/
def SelfDelimiting (code : α → List β) : Prop :=
  ∀ a a' rest rest', code a ++ rest = code a' ++ rest' → a = a' ∧ rest = rest'

theorem SelfDelimiting.injective {code : α → List β} (h : SelfDelimiting code) :
    Function.Injective code := by
  intro a a' heq
  exact (h a a' [] [] (by rw [heq])).1

/-- Words in a row determine their sequence. -/
theorem SelfDelimiting.flatMap_injective {code : α → List β} (h : SelfDelimiting code)
    (hne : ∀ a, code a ≠ []) : Function.Injective fun words : List α => words.flatMap code := by
  intro words
  induction words with
  | nil =>
    intro words' heq
    cases words' with
    | nil => rfl
    | cons a rest =>
      simp only [List.flatMap_nil, List.flatMap_cons] at heq
      exact absurd (List.append_eq_nil_iff.mp heq.symm).1 (hne a)
  | cons a rest ih =>
    intro words' heq
    cases words' with
    | nil =>
      simp only [List.flatMap_nil, List.flatMap_cons] at heq
      exact absurd (List.append_eq_nil_iff.mp heq).1 (hne a)
    | cons a' rest' =>
      simp only [List.flatMap_cons] at heq
      obtain ⟨rfl, hrest⟩ := h a a' _ _ heq
      rw [ih hrest]

/-- A text up to the first separator and what follows it. -/
theorem append_cons_inj {sep : β} {a a' rest rest' : List β} (ha : sep ∉ a) (ha' : sep ∉ a')
    (h : a ++ sep :: rest = a' ++ sep :: rest') : a = a' ∧ rest = rest' := by
  induction a generalizing a' with
  | nil =>
    cases a' with
    | nil => exact ⟨rfl, (List.cons.inj h).2⟩
    | cons first tail => exact absurd ((List.cons.inj h).1 ▸ List.mem_cons_self) ha'
  | cons first tail ih =>
    cases a' with
    | nil => exact absurd ((List.cons.inj h).1 ▸ List.mem_cons_self) ha
    | cons first' tail' =>
      obtain ⟨rfl, htail⟩ := List.cons.inj h
      obtain ⟨rfl, hrest⟩ := ih (fun hm => ha (List.mem_cons_of_mem _ hm))
        (fun hm => ha' (List.mem_cons_of_mem _ hm)) htail
      exact ⟨rfl, hrest⟩

/-- A text behind its length. -/
def counted (number : Nat → List β) (sep : β) (text : List β) : List β :=
  number text.length ++ sep :: text

/-- A length that ends by itself tells where the text ends. -/
theorem selfDelimiting_counted {number : Nat → List β} {sep : β} (hsep : ∀ n, sep ∉ number n)
    (hnumber : Function.Injective number) : SelfDelimiting (counted number sep) := by
  intro a a' rest rest' h
  rw [counted, counted, List.append_assoc, List.append_assoc] at h
  obtain ⟨hlength, htext⟩ := append_cons_inj (hsep _) (hsep _) h
  exact List.append_inj htext (hnumber hlength)

end Attest.Library
