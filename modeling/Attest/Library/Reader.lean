import Mathlib.Data.List.Infix
import Attest.Library.Fallible

/-! Reading a list from its front.

A reader takes something off the front of a list and leaves the rest. Reading on until a reader
fails, or until nothing is left, ends because every reading leaves less: the loops are bounded by
the length of the list, and `readAll_eq` and `readEach_cons` say that the bound is never met. -/
namespace Attest.Library.Reader
open Fallible

variable {α β ε : Type} {read : List α → Except ε (β × List α)} {l : List α}

/-- Each reading leaves a shorter list. -/
def Consumes (read : List α → Except ε (β × List α)) : Prop :=
  ∀ ⦃l b rest⦄, read l = .ok (b, rest) → rest.length < l.length

/-! ### Until a reading fails -/

def readUpTo (read : List α → Except ε (β × List α)) : Nat → List α → List β
  | 0, _ => []
  | fuel + 1, l =>
    match read l with
    | .error _ => []
    | .ok (b, rest) => b :: readUpTo read fuel rest

/-- What a loop collects that goes on for as long as the reader succeeds. -/
def readAll (read : List α → Except ε (β × List α)) (l : List α) : List β :=
  readUpTo read l.length l

theorem readUpTo_stable (h : Consumes read) {m n : Nat} (hm : l.length ≤ m) (hn : l.length ≤ n) :
    readUpTo read m l = readUpTo read n l := by
  induction m generalizing l n with
  | zero =>
    cases n with
    | zero => rfl
    | succ n =>
      rw [readUpTo, readUpTo]
      cases hread : read l with
      | error e => rfl
      | ok found => exact absurd (Nat.lt_of_lt_of_le (h hread) hm) (Nat.not_lt_zero _)
  | succ m ih =>
    cases n with
    | zero =>
      rw [readUpTo, readUpTo]
      cases hread : read l with
      | error e => rfl
      | ok found => exact absurd (Nat.lt_of_lt_of_le (h hread) hn) (Nat.not_lt_zero _)
    | succ n =>
      rw [readUpTo, readUpTo]
      cases hread : read l with
      | error e => rfl
      | ok found =>
        have hless := h hread
        exact congrArg (found.1 :: ·) (ih (by omega) (by omega))

/-- The loop, without its bound. -/
theorem readAll_eq (h : Consumes read) (l : List α) :
    readAll read l =
      match read l with
      | .error _ => []
      | .ok (b, rest) => b :: readAll read rest := by
  rw [readAll, readUpTo_stable h (Nat.le_refl _) (Nat.le_succ _), readUpTo]
  cases hread : read l with
  | error e => rfl
  | ok found => exact congrArg (found.1 :: ·) (readUpTo_stable h (Nat.le_of_lt (h hread)) (Nat.le_refl _))

theorem readUpTo_takeWhile {read' : List α → Except ε (β × List α)} {p : β → Bool}
    (h : ∀ l b rest, read l = .ok (b, rest) ↔ read' l = .ok (b, rest) ∧ p b = true) (fuel : Nat) :
    readUpTo read fuel l = (readUpTo read' fuel l).takeWhile p := by
  induction fuel generalizing l with
  | zero => rfl
  | succ fuel ih =>
    rw [readUpTo, readUpTo]
    cases hread' : read' l with
    | error e =>
      cases hread : read l with
      | error e' => rfl
      | ok found =>
        have hfound := ((h l found.1 found.2).mp hread).1
        cases hread'.symm.trans hfound
    | ok found =>
      cases hp : p found.1 with
      | true =>
        rw [(h l found.1 found.2).mpr ⟨hread', hp⟩]
        exact (congrArg (found.1 :: ·) ih).trans (List.takeWhile_cons_of_pos hp).symm
      | false =>
        cases hread : read l with
        | error e => exact (List.takeWhile_cons_of_neg (by simp [hp])).symm
        | ok found' =>
          obtain ⟨hsame, hp'⟩ := (h l found'.1 found'.2).mp hread
          cases hread'.symm.trans hsame
          cases hp.symm.trans hp'

/-- A reader that takes less stops earlier. -/
theorem readAll_takeWhile {read' : List α → Except ε (β × List α)} {p : β → Bool}
    (h : ∀ l b rest, read l = .ok (b, rest) ↔ read' l = .ok (b, rest) ∧ p b = true) :
    readAll read l = (readAll read' l).takeWhile p :=
  readUpTo_takeWhile h l.length

/-! ### Until nothing is left -/

def readEachUpTo (read : List α → Except ε (β × List α)) : Nat → List α → Except ε (List β)
  | _, [] => .ok []
  | 0, _ :: _ => .ok []
  | fuel + 1, a :: l => do
    let (b, rest) ← read (a :: l)
    return b :: (← readEachUpTo read fuel rest)

/-- What a loop collects that ends with the list, or with the first failure. -/
def readEach (read : List α → Except ε (β × List α)) (l : List α) : Except ε (List β) :=
  readEachUpTo read l.length l

theorem readEachUpTo_stable (h : Consumes read) {m n : Nat} (hm : l.length ≤ m) (hn : l.length ≤ n) :
    readEachUpTo read m l = readEachUpTo read n l := by
  induction m generalizing l n with
  | zero => rw [List.length_eq_zero_iff.mp (Nat.le_zero.mp hm), readEachUpTo, readEachUpTo]
  | succ m ih =>
    cases l with
    | nil => rw [readEachUpTo, readEachUpTo]
    | cons a l =>
      cases n with
      | zero => exact absurd hn (Nat.not_succ_le_zero _)
      | succ n =>
        rw [readEachUpTo, readEachUpTo]
        cases hread : read (a :: l) with
        | error e => rfl
        | ok found =>
          have hless := h hread
          show (readEachUpTo read m found.2 >>= _) = (readEachUpTo read n found.2 >>= _)
          rw [@ih _ n (by omega) (by omega)]

theorem readEach_nil : readEach read [] = .ok [] := rfl

/-- The loop, without its bound. -/
theorem readEach_cons (h : Consumes read) (a : α) (l : List α) :
    readEach read (a :: l) = (do
      let (b, rest) ← read (a :: l)
      return b :: (← readEach read rest)) := by
  rw [readEach, List.length_cons, readEachUpTo]
  cases hread : read (a :: l) with
  | error e => rfl
  | ok found =>
    have hless := h hread
    show (readEachUpTo read l.length found.2 >>= _) = (readEach read found.2 >>= _)
    rw [readEach, readEachUpTo_stable h (Nat.lt_succ_iff.mp hless) (Nat.le_refl _)]

def readRestUpTo (read : List α → Except ε (β × List α)) : Nat → List α → List α
  | 0, l => l
  | fuel + 1, l =>
    match read l with
    | .error _ => l
    | .ok (_, rest) => readRestUpTo read fuel rest

/-- What is left when the loop ends. -/
def readRest (read : List α → Except ε (β × List α)) (l : List α) : List α :=
  readRestUpTo read l.length l

theorem read_nil (h : Consumes read) : ∃ e, read [] = .error e := by
  cases hread : read [] with
  | error e => exact ⟨e, rfl⟩
  | ok found => exact absurd (h hread) (Nat.not_lt_zero _)

theorem readEachUpTo_eq_ok (h : Consumes read) {parts : List β} {fuel : Nat} (hfuel : l.length ≤ fuel) :
    readEachUpTo read fuel l = .ok parts ↔
      readUpTo read fuel l = parts ∧ readRestUpTo read fuel l = [] := by
  induction fuel generalizing l parts with
  | zero =>
    obtain rfl := List.length_eq_zero_iff.mp (Nat.le_zero.mp hfuel)
    simp [readEachUpTo, readUpTo, readRestUpTo]
  | succ fuel ih =>
    cases l with
    | nil =>
      obtain ⟨e, hread⟩ := read_nil h
      simp [readEachUpTo, readUpTo, readRestUpTo, hread]
    | cons a l =>
      rw [readEachUpTo, readUpTo, readRestUpTo]
      cases hread : read (a :: l) with
      | error e => simp [bind, Except.bind]
      | ok found =>
        obtain ⟨b, rest⟩ := found
        have hless := h hread
        have ih := fun parts => @ih rest parts (by rw [List.length_cons] at hless hfuel; omega)
        constructor
        · intro heach
          obtain ⟨_, ⟨⟩, heach⟩ := except_bind_eq_ok.mp heach
          obtain ⟨parts, hparts, heach⟩ := except_bind_eq_ok.mp heach
          cases heach
          obtain ⟨hall, hdone⟩ := (ih parts).mp hparts
          exact ⟨congrArg (b :: ·) hall, hdone⟩
        · intro hall
          obtain ⟨rfl, hdone⟩ := hall
          exact except_bind_eq_ok.mpr ⟨_, rfl, except_bind_eq_ok.mpr ⟨_, (ih _).mpr ⟨rfl, hdone⟩, rfl⟩⟩

/-- A list is read to its end when nothing is left. -/
theorem readEach_eq_ok (h : Consumes read) {parts : List β} :
    readEach read l = .ok parts ↔ readAll read l = parts ∧ readRest read l = [] :=
  readEachUpTo_eq_ok h (Nat.le_refl _)

theorem readEach_eq_ok_singleton (h : Consumes read) {b : β} :
    readEach read l = .ok [b] ↔ read l = .ok (b, []) := by
  cases l with
  | nil =>
    obtain ⟨e, hread⟩ := read_nil h
    simp [readEach_nil, hread]
  | cons a l =>
    rw [readEach_cons h]
    constructor
    · intro heach
      obtain ⟨⟨b', rest⟩, hread, heach⟩ := except_bind_eq_ok.mp heach
      obtain ⟨parts, hparts, heach⟩ := except_bind_eq_ok.mp heach
      cases heach
      cases rest with
      | nil => exact hread
      | cons a' rest =>
        rw [readEach_cons h] at hparts
        obtain ⟨_, _, hparts⟩ := except_bind_eq_ok.mp hparts
        obtain ⟨_, _, hparts⟩ := except_bind_eq_ok.mp hparts
        cases hparts
    · intro hread
      exact except_bind_eq_ok.mpr ⟨_, hread, rfl⟩

/-! ### With a state -/

section Fold
variable {σ : Type} {step : σ → List α → Except ε (σ × List α)}

def foldEachUpTo (step : σ → List α → Except ε (σ × List α)) : Nat → σ → List α → Except ε σ
  | _, s, [] => .ok s
  | 0, s, _ => .ok s
  | fuel + 1, s, a :: l => do
    let (s, rest) ← step s (a :: l)
    foldEachUpTo step fuel s rest

/-- What a loop is left with that ends with the list, or with the first failure. -/
def foldEach (step : σ → List α → Except ε (σ × List α)) (s : σ) (l : List α) : Except ε σ :=
  foldEachUpTo step l.length s l

theorem foldEachUpTo_stable (h : ∀ s, Consumes (step s)) {s : σ} {m n : Nat} (hm : l.length ≤ m)
    (hn : l.length ≤ n) : foldEachUpTo step m s l = foldEachUpTo step n s l := by
  induction m generalizing l n s with
  | zero => rw [List.length_eq_zero_iff.mp (Nat.le_zero.mp hm), foldEachUpTo, foldEachUpTo]
  | succ m ih =>
    cases l with
    | nil => rw [foldEachUpTo, foldEachUpTo]
    | cons a l =>
      cases n with
      | zero => exact absurd hn (Nat.not_succ_le_zero _)
      | succ n =>
        rw [foldEachUpTo, foldEachUpTo]
        cases hstep : step s (a :: l) with
        | error e => rfl
        | ok found =>
          have hless := h s hstep
          exact ih (by omega) (by omega)

theorem foldEach_nil {s : σ} : foldEach step s [] = .ok s := rfl

/-- The loop, without its bound. -/
theorem foldEach_of_ne_nil (h : ∀ s, Consumes (step s)) (s : σ) (hne : l ≠ []) :
    foldEach step s l = (do
      let (s, rest) ← step s l
      foldEach step s rest) := by
  obtain ⟨a, l, rfl⟩ := List.exists_cons_of_ne_nil hne
  rw [foldEach, List.length_cons, foldEachUpTo]
  cases hstep : step s (a :: l) with
  | error e => rfl
  | ok found =>
    have hless := h s hstep
    exact foldEachUpTo_stable h (Nat.lt_succ_iff.mp hless) (Nat.le_refl _)

end Fold

/-! ### Past what is not wanted -/

def skipWhileUpTo (p : α → Bool) (read : List α → Except ε (β × List α)) :
    Nat → List α → Except ε (List α)
  | _, [] => .ok []
  | 0, l => .ok l
  | fuel + 1, a :: l =>
    if p a then do
      let (_, rest) ← read (a :: l)
      skipWhileUpTo p read fuel rest
    else .ok (a :: l)

/-- What is left when the loop has read on for as long as the next symbol satisfies `p`. -/
def skipWhile (p : α → Bool) (read : List α → Except ε (β × List α)) (l : List α) :
    Except ε (List α) :=
  skipWhileUpTo p read l.length l

theorem skipWhileUpTo_stable {p : α → Bool} (h : Consumes read) {m n : Nat} (hm : l.length ≤ m)
    (hn : l.length ≤ n) : skipWhileUpTo p read m l = skipWhileUpTo p read n l := by
  induction m generalizing l n with
  | zero => rw [List.length_eq_zero_iff.mp (Nat.le_zero.mp hm), skipWhileUpTo, skipWhileUpTo]
  | succ m ih =>
    cases l with
    | nil => rw [skipWhileUpTo, skipWhileUpTo]
    | cons a l =>
      cases n with
      | zero => exact absurd hn (Nat.not_succ_le_zero _)
      | succ n =>
        rw [skipWhileUpTo, skipWhileUpTo]
        cases hread : read (a :: l) with
        | error e => rfl
        | ok found =>
          have hless := h hread
          show (if p a then skipWhileUpTo p read m found.2 else _) =
            if p a then skipWhileUpTo p read n found.2 else _
          rw [@ih _ n (by omega) (by omega)]

/-- The loop, without its bound. -/
theorem skipWhile_cons {p : α → Bool} (h : Consumes read) (a : α) (l : List α) :
    skipWhile p read (a :: l) =
      if p a then do
        let (_, rest) ← read (a :: l)
        skipWhile p read rest
      else .ok (a :: l) := by
  rw [skipWhile, List.length_cons, skipWhileUpTo]
  cases hread : read (a :: l) with
  | error e => rfl
  | ok found =>
    have hless := h hread
    show (if p a then skipWhileUpTo p read l.length found.2 else _) =
      if p a then skipWhile p read found.2 else _
    rw [skipWhile, skipWhileUpTo_stable h (Nat.lt_succ_iff.mp hless) (Nat.le_refl _)]

/-! ### Readers of parts -/

/-- What is read is a part of the list, and what is left is its end. -/
def Slices (read : List α → Except ε (List α × List α)) : Prop :=
  ∀ ⦃l part rest⦄, read l = .ok (part, rest) → part <:+: l ∧ rest <:+ l

theorem infix_of_mem_readUpTo {read : List α → Except ε (List α × List α)} (h : Slices read)
    {part : List α} {fuel : Nat} (hpart : part ∈ readUpTo read fuel l) : part <:+: l := by
  induction fuel generalizing l with
  | zero => cases hpart
  | succ fuel ih =>
    rw [readUpTo] at hpart
    cases hread : read l with
    | error e =>
      rw [hread] at hpart
      cases hpart
    | ok found =>
      rw [hread] at hpart
      obtain ⟨hfirst, hrest⟩ := h hread
      rcases List.mem_cons.mp hpart with rfl | hpart
      · exact hfirst
      · exact (ih hpart).trans hrest.isInfix

theorem infix_of_mem_readAll {read : List α → Except ε (List α × List α)} (h : Slices read)
    {part : List α} (hpart : part ∈ readAll read l) : part <:+: l :=
  infix_of_mem_readUpTo h hpart

end Attest.Library.Reader
