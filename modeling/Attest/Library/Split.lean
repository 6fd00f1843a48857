import Mathlib.Data.Nat.Log
import Mathlib.Data.List.Basic
import Mathlib.Tactic.Ring

/-! The largest power of two below a size.

A left-complete binary tree over `n` leaves puts `below n` of them on the left.
Everything such a tree needs of that number is here: it is a power of two, both
sides are strictly smaller than the whole, it does not move while the size stays
between it and the size it was taken at (`below_stable`), and an induction that
follows the split (`split_induction`). -/
namespace Attest.Library

/-- The largest power of two strictly below `n`, for `n ≥ 2`. -/
def below (n : Nat) : Nat := 2 ^ Nat.log2 (n - 1)

theorem below_pos (n : Nat) : 0 < below n := Nat.two_pow_pos _

theorem below_lt {n : Nat} (h : 2 ≤ n) : below n < n := by
  have := Nat.log2_self_le (n := n - 1) (by omega)
  unfold below
  omega

theorem le_two_mul_below {n : Nat} (h : 2 ≤ n) : n ≤ 2 * below n := by
  have : n - 1 < 2 ^ (Nat.log2 (n - 1) + 1) := Nat.lt_log2_self
  rw [Nat.pow_succ] at this
  unfold below
  omega

theorem sub_below_pos {n : Nat} (h : 2 ≤ n) : 0 < n - below n := by
  have := below_lt h
  omega

theorem sub_below_lt {n : Nat} (h : 2 ≤ n) : n - below n < n := by
  have := below_pos n
  omega

/-- A power of two with the size between it and its double is the split. -/
theorem below_eq {n k : Nat} (hlo : 2 ^ k < n) (hhi : n ≤ 2 ^ (k + 1)) : below n = 2 ^ k := by
  unfold below
  congr 1
  have hk := Nat.two_pow_pos k
  rw [Nat.log2_eq_log_two]
  exact Nat.log_eq_of_pow_le_of_lt_pow (by omega) (by omega)

/-- Between the split and the size it was taken at, the split does not move. -/
theorem below_stable {m n : Nat} (hlo : below n < m) (hhi : m ≤ n) : below m = below n := by
  have h2 : 2 ≤ n := by
    have := below_pos n
    omega
  have hn := le_two_mul_below h2
  unfold below at hlo hn ⊢
  exact below_eq hlo (by rw [Nat.pow_succ]; omega)

theorem below_two_pow (k : Nat) : below (2 ^ (k + 1)) = 2 ^ k :=
  below_eq (Nat.pow_lt_pow_right (by decide) (by omega)) (Nat.le_refl _)

/-- The height of the left side is one less than any bound on the whole. -/
theorem below_le_two_pow {n h : Nat} (h2 : 2 ≤ n) (hn : n ≤ 2 ^ (h + 1)) : below n ≤ 2 ^ h := by
  have hlt : below n < 2 ^ (h + 1) := Nat.lt_of_lt_of_le (below_lt h2) hn
  unfold below at hlt ⊢
  have := (Nat.pow_lt_pow_iff_right (a := 2) (by decide)).mp hlt
  exact Nat.pow_le_pow_right (by decide) (by omega)

theorem sub_below_le_two_pow {n h : Nat} (h2 : 2 ≤ n) (hn : n ≤ 2 ^ (h + 1)) :
    n - below n ≤ 2 ^ h := by
  have := le_two_mul_below h2
  have := below_le_two_pow h2 hn
  omega

/-- A size of at least two has a positive height. -/
theorem height_pos {n h : Nat} (h2 : 2 ≤ n) (hn : n ≤ 2 ^ h) : ∃ k, h = k + 1 := by
  cases h with
  | zero => omega
  | succ k => exact ⟨k, rfl⟩

/-! ### Induction along the split -/

/-- Induction on positive sizes: a property of one leaf, and of a size from its
two sides, holds of every size. -/
theorem size_induction {motive : (n : Nat) → 0 < n → Prop} (one : motive 1 Nat.one_pos)
    (split : ∀ n (hn : 0 < n) (h2 : 2 ≤ n), motive (below n) (below_pos n) →
      motive (n - below n) (sub_below_pos h2) → motive n hn) :
    ∀ n hn, motive n hn := by
  intro n
  induction n using Nat.strongRecOn with
  | ind n ih =>
    intro hn
    by_cases h1 : n = 1
    · subst h1
      exact one
    · have h2 : 2 ≤ n := by omega
      exact split n hn h2 (ih _ (below_lt h2) (below_pos n))
        (ih _ (sub_below_lt h2) (sub_below_pos h2))

section Lists
variable {α : Type*}

theorem length_take_below {l : List α} (h : 2 ≤ l.length) :
    (l.take (below l.length)).length = below l.length := by
  rw [List.length_take]
  exact Nat.min_eq_left (Nat.le_of_lt (below_lt h))

/-- Induction on lists along the split of their length. -/
theorem split_induction {motive : List α → Prop} (nil : motive []) (singleton : ∀ a, motive [a])
    (split : ∀ l : List α, 2 ≤ l.length → motive (l.take (below l.length)) →
      motive (l.drop (below l.length)) → motive l) :
    ∀ l, motive l := by
  intro l
  induction hn : l.length using Nat.strongRecOn generalizing l with
  | ind n ih =>
    match l with
    | [] => exact nil
    | [a] => exact singleton a
    | a :: b :: rest =>
      have h2 : 2 ≤ (a :: b :: rest).length := by simp
      refine split _ h2 (ih _ ?_ _ rfl) (ih _ ?_ _ rfl)
      · rw [length_take_below h2, ← hn]
        exact below_lt h2
      · rw [List.length_drop, ← hn]
        exact sub_below_lt h2

end Lists

end Attest.Library
