import Mathlib.Data.List.Basic

/-! Numbers in base 128.

A number is written seven bits at a time, the most significant first; in a byte that another one
follows the high bit is set. `decode` reads a row of numbers of any size. What it reads of a row
that was written is that row, and nothing is begun behind it (`decode_flatMap`). -/
namespace Attest.Library.Base128

/-- The bytes of a number that others follow. -/
def continued (n : Nat) : List UInt8 :=
  if n = 0 then [] else continued (n / 128) ++ [UInt8.ofNat (128 + n % 128)]
termination_by n

/-- The shortest way to write a number. -/
def encode (n : Nat) : List UInt8 := continued (n / 128) ++ [UInt8.ofNat (n % 128)]

/-- The numbers in a row when one has begun in front of it, and what has begun at its end. -/
def decode : Nat → List UInt8 → List Nat × Nat
  | n, [] => ([], n)
  | n, b :: rest =>
    if b < 128 then ((n * 128 + b.toNat % 128) :: (decode 0 rest).1, (decode 0 rest).2)
    else decode (n * 128 + b.toNat % 128) rest

variable {n n' : Nat} {b : UInt8} {bytes rest : List UInt8} {numbers : List Nat}

theorem decode_of_lt (h : b < 128) :
    decode n (b :: rest) = ((n * 128 + b.toNat % 128) :: (decode 0 rest).1, (decode 0 rest).2) :=
  if_pos h

theorem decode_of_ge (h : ¬ b < 128) : decode n (b :: rest) = decode (n * 128 + b.toNat % 128) rest :=
  if_neg h

/-! ### Reading what was written -/

theorem byte_of_lt (h : n < 128) : UInt8.ofNat n < 128 ∧ (UInt8.ofNat n).toNat % 128 = n := by
  have hnat : (UInt8.ofNat n).toNat = n := UInt8.toNat_ofNat_of_lt' (Nat.lt_trans h (by decide))
  exact ⟨UInt8.lt_iff_toNat_lt.mpr (by rw [hnat]; exact h), by rw [hnat, Nat.mod_eq_of_lt h]⟩

theorem byte_of_high (h : n < 128) :
    ¬ UInt8.ofNat (128 + n) < 128 ∧ (UInt8.ofNat (128 + n)).toNat % 128 = n := by
  have hnat : (UInt8.ofNat (128 + n)).toNat = 128 + n :=
    UInt8.toNat_ofNat_of_lt' (by show _ < 256; omega)
  refine ⟨?_, by rw [hnat]; omega⟩
  rw [UInt8.lt_iff_toNat_lt, hnat]
  exact Nat.not_lt.mpr (Nat.le_add_right 128 n)

theorem decode_continued : decode 0 (continued n ++ rest) = decode n rest := by
  induction n using Nat.strongRecOn generalizing rest with
  | ind n ih =>
    rw [continued]
    split
    next hzero => rw [hzero, List.nil_append]
    next hpos =>
      obtain ⟨hhigh, hdigit⟩ := byte_of_high (Nat.mod_lt n (by decide : 0 < 128))
      rw [List.append_assoc, List.singleton_append, ih (n / 128) (by omega), decode_of_ge hhigh, hdigit,
        Nat.div_add_mod']

/-- A number is read back, whatever is behind it. -/
theorem decode_encode :
    decode 0 (encode n ++ rest) = (n :: (decode 0 rest).1, (decode 0 rest).2) := by
  obtain ⟨hlow, hdigit⟩ := byte_of_lt (Nat.mod_lt n (by decide : 0 < 128))
  rw [encode, List.append_assoc, decode_continued, List.singleton_append, decode_of_lt hlow, hdigit,
    Nat.div_add_mod']

theorem decode_flatMap : decode 0 (numbers.flatMap encode) = (numbers, 0) := by
  induction numbers with
  | nil => rfl
  | cons n numbers ih => rw [List.flatMap_cons, decode_encode, ih]

theorem encode_of_lt (h : n < 128) : encode n = [UInt8.ofNat n] := by
  rw [encode, Nat.div_eq_of_lt h, Nat.mod_eq_of_lt h, continued, if_pos rfl, List.nil_append]

/-! ### How large the numbers are -/

/-- What has begun goes into a number that is read, or into what has begun at the end. -/
theorem le_decode : (∃ m ∈ (decode n bytes).1, n ≤ m) ∨ n ≤ (decode n bytes).2 := by
  induction bytes generalizing n with
  | nil => exact .inr (Nat.le_refl _)
  | cons b rest ih =>
    have hle : n ≤ n * 128 + b.toNat % 128 := by omega
    by_cases hb : b < 128
    · rw [decode_of_lt hb]
      exact .inl ⟨_, List.mem_cons_self, hle⟩
    · rw [decode_of_ge hb]
      obtain ⟨m, hm, hlarge⟩ | hlarge := @ih (n * 128 + b.toNat % 128)
      · exact .inl ⟨m, hm, Nat.le_trans hle hlarge⟩
      · exact .inr (Nat.le_trans hle hlarge)

/-- The more has begun, the larger the numbers. -/
theorem decode_mono (h : n ≤ n') :
    (∀ m ∈ (decode n bytes).1, ∃ m' ∈ (decode n' bytes).1, m ≤ m') ∧
      (decode n bytes).2 ≤ (decode n' bytes).2 := by
  induction bytes generalizing n n' with
  | nil => exact ⟨fun m hm => absurd hm List.not_mem_nil, h⟩
  | cons b rest ih =>
    have hle : n * 128 + b.toNat % 128 ≤ n' * 128 + b.toNat % 128 := by omega
    by_cases hb : b < 128
    · rw [decode_of_lt hb, decode_of_lt hb]
      refine ⟨?_, Nat.le_refl _⟩
      intro m hm
      rcases List.mem_cons.mp hm with rfl | hm
      · exact ⟨_, List.mem_cons_self, hle⟩
      · exact ⟨m, List.mem_cons_of_mem _ hm, Nat.le_refl _⟩
    · rw [decode_of_ge hb, decode_of_ge hb]
      exact ih hle

end Attest.Library.Base128
