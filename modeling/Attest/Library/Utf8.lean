import Mathlib.Data.List.Infix
import Mathlib.Data.String.Basic

/-! Splitting a text and splitting its bytes.

A byte below 128 is in the encoding of its own character only, so cutting a text at such a
character and cutting its bytes at the byte give the same parts. -/
namespace Attest.Library.Utf8

variable {chars : List Char} {c : Char}

def encode (chars : List Char) : List UInt8 := chars.flatMap String.utf8EncodeChar

/-- The only byte below 128 in an encoding is that of an ASCII character. -/
theorem toNat_of_mem_utf8EncodeChar {b : UInt8} (hb : b.toNat < 128)
    (h : b ∈ String.utf8EncodeChar c) : c.toNat = b.toNat := by
  have hbyte : ∀ n k, n < 64 → 128 ≤ k → k + n < 256 → b ≠ UInt8.ofNat (n + k) := by
    intro n k hn hk hlt heq
    rw [heq, UInt8.toNat_ofNat_of_lt' (by rw [Nat.add_comm]; exact hlt)] at hb
    omega
  simp only [String.utf8EncodeChar] at h
  split at h
  next hle =>
    rw [List.mem_singleton.mp h, UInt8.toNat_ofNat_of_lt' (Nat.lt_of_le_of_lt hle (by decide))]
    rfl
  next =>
    split at h
    next =>
      rw [List.mem_pair] at h
      rcases h with h | h
      · exact absurd h (hbyte _ _ (by omega) (by decide) (by omega))
      · exact absurd h (hbyte _ _ (by omega) (by decide) (by omega))
    next =>
      split at h
      next =>
        rw [List.mem_cons, List.mem_pair] at h
        rcases h with h | h | h
        · exact absurd h (hbyte _ _ (by omega) (by decide) (by omega))
        · exact absurd h (hbyte _ _ (by omega) (by decide) (by omega))
        · exact absurd h (hbyte _ _ (by omega) (by decide) (by omega))
      next =>
        rw [List.mem_cons, List.mem_cons, List.mem_pair] at h
        rcases h with h | h | h | h
        · exact absurd h (hbyte _ _ (by omega) (by decide) (by omega))
        · exact absurd h (hbyte _ _ (by omega) (by decide) (by omega))
        · exact absurd h (hbyte _ _ (by omega) (by decide) (by omega))
        · exact absurd h (hbyte _ _ (by omega) (by decide) (by omega))

theorem splitOn_append_of_notMem {α : Type*} [BEq α] [LawfulBEq α] {a : α} {xs : List α}
    (h : a ∉ xs) (ys : List α) : (xs ++ ys).splitOn a = (ys.splitOn a).modifyHead (xs ++ ·) := by
  induction xs with
  | nil =>
    rw [List.nil_append]
    cases ys.splitOn a <;> rfl
  | cons x xs ih =>
    rw [List.mem_cons, not_or] at h
    have hx : (x == a) = false := beq_eq_false_iff_ne.mpr (Ne.symm h.1)
    rw [List.cons_append, List.splitOn_cons_eq_if_modifyHead, hx, if_neg Bool.false_ne_true, ih h.2]
    cases ys.splitOn a <;> rfl

/-- The parts of the bytes are the bytes of the parts. -/
theorem splitOn_encode {sep : Char} {b : UInt8} (hb : b.toNat < 128)
    (hsep : String.utf8EncodeChar sep = [b]) (chars : List Char) :
    (encode chars).splitOn b = (chars.splitOn sep).map encode := by
  have hnat : sep.toNat = b.toNat :=
    toNat_of_mem_utf8EncodeChar hb (by rw [hsep]; exact List.mem_singleton_self b)
  induction chars with
  | nil => rfl
  | cons c chars ih =>
    have hcons : encode (c :: chars) = String.utf8EncodeChar c ++ encode chars := rfl
    rw [hcons, List.splitOn_cons_eq_if_modifyHead]
    by_cases hc : c = sep
    · subst hc
      rw [hsep, List.singleton_append, List.splitOn_cons_eq_if_modifyHead, if_pos BEq.rfl,
        if_pos BEq.rfl, ih]
      rfl
    · have hnot : b ∉ String.utf8EncodeChar c := fun hmem =>
        hc (Char.toNat_inj.mp ((toNat_of_mem_utf8EncodeChar hb hmem).trans hnat.symm))
      rw [splitOn_append_of_notMem hnot, ih, beq_eq_false_iff_ne.mpr hc,
        if_neg Bool.false_ne_true]
      cases chars.splitOn sep <;> rfl

/-- The first part goes up to the first separator. -/
theorem exists_first_part {α : Type*} [BEq α] [LawfulBEq α] (a : α) (xs : List α) :
    ∃ first parts, xs.splitOn a = first :: parts ∧ a ∉ first ∧
      (xs = first ∨ ∃ rest, xs = first ++ a :: rest) := by
  by_cases hmem : a ∈ xs
  · obtain ⟨first, rest, hxs, hfirst⟩ := List.eq_append_cons_of_mem hmem
    refine ⟨first, rest.splitOn a, ?_, hfirst, .inr ⟨rest, hxs⟩⟩
    rw [hxs]
    exact List.splitOn_append_cons_self_of_not_mem hfirst rest
  · exact ⟨xs, [], List.splitOn_eq_singleton hmem, hmem, .inl rfl⟩

/-- A start without the separator is a start of the first part. -/
theorem exists_first_part_of_prefix {α : Type*} [BEq α] [LawfulBEq α] {a : α} {start xs : List α}
    (h : start <+: xs) (hstart : a ∉ start) :
    ∃ more parts, xs.splitOn a = (start ++ more) :: parts ∧ a ∉ start ++ more ∧
      (xs = start ++ more ∨ ∃ rest, xs = start ++ more ++ a :: rest) := by
  obtain ⟨first, parts, hsplit, hfirst, hxs⟩ := exists_first_part a xs
  have hle : start <+: first := by
    rcases hxs with rfl | ⟨rest, rfl⟩
    · exact h
    · rcases List.prefix_or_prefix_of_prefix h (List.prefix_append first (a :: rest)) with hle | ⟨more, rfl⟩
      · exact hle
      · rw [List.prefix_append_right_inj] at h
        cases more with
        | nil => exact ⟨[], by simp⟩
        | cons b more =>
          rw [List.cons_prefix_cons] at h
          rw [h.1] at hstart
          exact absurd (List.mem_append_right _ List.mem_cons_self) hstart
  obtain ⟨more, rfl⟩ := hle
  exact ⟨more, parts, hsplit, hfirst, hxs⟩

/-- A part after the first stands behind the character it was cut at. -/
theorem cons_infix_of_mem_splitOn {α : Type*} [BEq α] [LawfulBEq α] {a : α} {xs part : List α}
    (h : part ∈ xs.splitOn a) : a :: part <:+: a :: xs := by
  have hparts : ∀ parts : List (List α), part ∈ parts → a :: part <:+: a :: [a].intercalate parts := by
    intro parts hmem
    induction parts with
    | nil => cases hmem
    | cons first rest ih =>
      cases rest with
      | nil =>
        rw [List.mem_singleton.mp hmem, List.intercalate_singleton]
      | cons next rest =>
        rw [List.intercalate_cons_cons]
        rcases List.mem_cons.mp hmem with rfl | hmem
        · exact ⟨[], [a] ++ [a].intercalate (next :: rest), by simp⟩
        · refine (ih hmem).trans ⟨a :: first, [], ?_⟩
          simp
  have hpart := hparts _ h
  rwa [List.intercalate_splitOn] at hpart

end Attest.Library.Utf8
