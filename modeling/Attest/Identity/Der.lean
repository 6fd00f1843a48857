import Attest.Timestamp.Der

/-! The DER of a workflow certificate, as `identity.rs` reads it.

It has a reader of its own, beside the one for timestamp tokens. Both read one element: a tag, a
length, the contents. `identity_take_iff` says that this one accepts just what is encoded as it is
written, with the shortest length; the other one accepts longer lengths too, and
`take_sameStrict_iff` says on which bytes the two are the same. -/
namespace Attest.Identity
open Library.Fallible
open Trust (Bytes)
open Timestamp (TimestampError bigEndian bigEndian_snoc bigEndian_lt bigEndian_dropWhile
  bigEndian_toBeBytes toBeBytes derLength der length_trimmed)

/-! ### One element -/

/-- `usize::checked_add` and `checked_mul`, of a result. -/
def checked (n : Nat) : Option Nat := if n < 2 ^ 64 then some n else none

/-- One more byte of a length. -/
def checkedByte (n : Nat) (b : UInt8) : Option Nat := do
  let shifted ← checked (n * 256)
  checked (shifted + b.toNat)

theorem checked_eq_some {n m : Nat} : checked n = some m ↔ n = m ∧ n < 2 ^ 64 := by
  unfold checked
  split
  next h => simpa using fun hsame => hsame ▸ h
  next h =>
    constructor
    · intro hsome
      cases hsome
    · intro hsame
      exact absurd hsame.2 h

/-- `slice::get` of a range. -/
def slice (bytes : Bytes) (start stop : Nat) : Option Bytes :=
  if start ≤ stop ∧ stop ≤ bytes.length then some ((bytes.take stop).drop start) else none

/-- `Context::context`. -/
def context {α : Type} (message : String) : Option α → Except String α
  | none => .error message
  | some a => .ok a

/-- The length that begins at the second byte, and how many bytes are in front of the contents. -/
def takeHeader (bytes : Bytes) (first : UInt8) : Except String (Nat × Nat) :=
  if first < 128 then .ok (first.toNat, 2)
  else do
    let count := (first &&& 0x7f).toNat
    refuseIf (count = 0 ∨ 4 < count) "unsupported certificate DER length"
    let raw ← context "truncated certificate DER length" (slice bytes 2 (2 + count))
    refuseIf (raw.head? = some 0) "noncanonical certificate DER length"
    let len ← context "certificate DER length overflow" (raw.foldlM checkedByte 0)
    refuseIf (len < 128) "noncanonical certificate DER length"
    return (len, 2 + count)

/-- `Der::take`. -/
def take (tag : UInt8) (bytes : Bytes) : Except String (Bytes × Bytes) := do
  refuseIf (bytes.head? ≠ some tag) "unexpected certificate DER tag"
  let first ← context "truncated certificate DER length" bytes[1]?
  let (len, header) ← takeHeader bytes first
  let stop ← context "certificate DER length overflow" (checked (header + len))
  let contents ← context "truncated certificate DER value" (slice bytes header stop)
  return (contents, bytes.drop stop)

section Slices
variable {α : Type} {bytes part : Bytes} {start stop : Nat}

theorem context_eq_ok {message : String} {x : Option α} {a : α} :
    context message x = .ok a ↔ x = some a := by
  cases x with
  | none => simp [context]
  | some b => simp [context]

/-- A range that lies within the bytes, by what is around it. -/
theorem slice_eq_some : slice bytes start stop = some part ↔
    ∃ front rest, bytes = front ++ part ++ rest ∧ front.length = start ∧
      stop = start + part.length := by
  unfold slice
  constructor
  · intro h
    split at h
    next hrange =>
      cases h
      refine ⟨bytes.take start, bytes.drop stop, ?_, ?_, ?_⟩
      · have hfront : (bytes.take stop).take start = bytes.take start := by
          rw [List.take_take, Nat.min_eq_left hrange.1]
        rw [← hfront, List.take_append_drop, List.take_append_drop]
      · rw [List.length_take]
        omega
      · rw [List.length_drop, List.length_take]
        omega
    next => cases h
  · intro h
    obtain ⟨front, rest, rfl, rfl, rfl⟩ := h
    have hfront : front.length + part.length = (front ++ part).length := List.length_append.symm
    rw [if_pos (by simp), hfront, List.take_left, List.drop_left]

end Slices

/-! ### Lengths -/

/-- A length in one byte. -/
def ShortForm (header : Bytes) (len : Nat) : Prop := len < 128 ∧ header = [UInt8.ofNat len]

/-- A length in one to four bytes behind their number. -/
def LongForm (raw header : Bytes) (len : Nat) : Prop :=
  header = (0x80 ||| UInt8.ofNat raw.length) :: raw ∧ 1 ≤ raw.length ∧ raw.length ≤ 4 ∧
    bigEndian raw = len

/-- A long form that no shorter one could replace. -/
def Minimal (raw : Bytes) (len : Nat) : Prop := raw.head? ≠ some 0 ∧ 128 ≤ len

section Lengths
variable {raw raw' header : Bytes} {first : UInt8} {len : Nat}

/-- The first byte of a long form, by how many follow. -/
theorem longForm_first {n : Nat} (h : 1 ≤ n) (h' : n ≤ 4) :
    ¬ (0x80 ||| UInt8.ofNat n) < 128 ∧ ((0x80 ||| UInt8.ofNat n) &&& 0x7f).toNat = n := by
  have hall : ∀ n ∈ [1, 2, 3, 4], ¬ (0x80 ||| UInt8.ofNat n) < 128 ∧
      ((0x80 ||| UInt8.ofNat n) &&& 0x7f).toNat = n := by decide
  have hn : n = 1 ∨ n = 2 ∨ n = 3 ∨ n = 4 := by omega
  exact hall n (by simpa using hn)

/-- A byte that is none of the short form is the number of those that follow. -/
theorem first_of_long (h : ¬ first < 128) : first = 0x80 ||| UInt8.ofNat (first &&& 0x7f).toNat := by
  have hall : ∀ n < 256, ¬ UInt8.ofNat n < 128 →
      UInt8.ofNat n = 0x80 ||| UInt8.ofNat (UInt8.ofNat n &&& 0x7f).toNat := by decide +kernel
  have hfirst := hall first.toNat first.toNat_lt
  rw [UInt8.ofNat_toNat] at hfirst
  exact hfirst h

theorem ofNat_of_lt (h : len < 128) : UInt8.ofNat len < 128 ∧ (UInt8.ofNat len).toNat = len := by
  have hnat : (UInt8.ofNat len).toNat = len := UInt8.toNat_ofNat_of_lt' (h.trans (by decide))
  exact ⟨UInt8.lt_iff_toNat_lt.mpr (by rw [hnat]; exact h), hnat⟩

/-- Bytes of one number are the same, when they are equally many. -/
theorem bigEndian_inj (hlength : raw.length = raw'.length) (h : bigEndian raw = bigEndian raw') :
    raw = raw' := by
  induction raw using List.reverseRecOn generalizing raw' with
  | nil => exact (List.length_eq_zero_iff.mp hlength.symm).symm
  | append_singleton raw b ih =>
    rcases List.eq_nil_or_concat raw' with rfl | hconcat
    · simp at hlength
    · obtain ⟨init, b', rfl⟩ := hconcat
      rw [List.concat_eq_append] at hlength h ⊢
      rw [bigEndian_snoc, bigEndian_snoc] at h
      have hb := b.toNat_lt
      have hb' := b'.toNat_lt
      have hvalue : bigEndian raw = bigEndian init := by omega
      have hbyte : b = b' := UInt8.toNat_inj.mp (by omega)
      rw [ih (by simpa using hlength) hvalue, hbyte]

theorem bigEndian_cons (b : UInt8) (raw : Bytes) :
    bigEndian (b :: raw) = b.toNat * 256 ^ raw.length + bigEndian raw := by
  induction raw using List.reverseRecOn with
  | nil => simp [bigEndian]
  | append_singleton raw last ih =>
    rw [← List.cons_append, bigEndian_snoc, bigEndian_snoc, ih, List.length_append,
      List.length_singleton, Nat.pow_succ, Nat.add_mul, Nat.mul_assoc, Nat.add_assoc]

/-- A number without leading zeros has as many bytes as it needs. -/
theorem length_le_of_bigEndian (hhead : raw.head? ≠ some 0) (h : bigEndian raw = bigEndian raw') :
    raw.length ≤ raw'.length := by
  cases raw with
  | nil => exact Nat.zero_le _
  | cons b raw =>
    have hb : 1 ≤ b.toNat := by
      have hne : b.toNat ≠ 0 := fun hzero => hhead (congrArg some (UInt8.toNat_inj.mp hzero))
      omega
    have hle : 256 ^ raw.length ≤ bigEndian (b :: raw) := by
      rw [bigEndian_cons]
      exact (Nat.le_mul_of_pos_left _ hb).trans (Nat.le_add_right _ _)
    have hlt := @bigEndian_lt raw'
    rw [← h] at hlt
    have hpow := (Nat.pow_lt_pow_iff_right (by decide : 1 < 256)).mp (hle.trans_lt hlt)
    exact hpow

theorem head_dropWhile_zero : (raw.dropWhile (· == 0)).head? ≠ some 0 := by
  intro h
  have hnot := List.head?_dropWhile_not (· == (0 : UInt8)) raw
  rw [h] at hnot
  exact absurd hnot (by decide)

/-- The length that is written is the minimal one. -/
theorem derLength_iff : header = derLength len ∧ len < 2 ^ 32 ↔
    ShortForm header len ∨ ∃ raw, LongForm raw header len ∧ Minimal raw len := by
  have hvalue : len < 2 ^ 32 → bigEndian ((toBeBytes len).dropWhile (· == 0)) = len := by
    intro h
    rw [bigEndian_dropWhile, bigEndian_toBeBytes h]
  constructor
  · intro h
    obtain ⟨rfl, hlt⟩ := h
    by_cases hshort : len < 128
    · exact .inl ⟨hshort, if_pos hshort⟩
    · have hlength := length_trimmed (Nat.not_lt.mp hshort) hlt
      refine .inr ⟨(toBeBytes len).dropWhile (· == 0), ⟨if_neg hshort, ?_, ?_, hvalue hlt⟩, ?_⟩
      · omega
      · omega
      · exact ⟨head_dropWhile_zero, Nat.not_lt.mp hshort⟩
  · intro h
    rcases h with hshort | hlong
    · obtain ⟨hshort, rfl⟩ := hshort
      exact ⟨(if_pos hshort).symm, hshort.trans (by decide)⟩
    · obtain ⟨raw, ⟨rfl, _, hmost, hraw⟩, hhead, hleast⟩ := hlong
      have hlt : len < 2 ^ 32 := by
        rw [← hraw]
        exact bigEndian_lt.trans_le ((Nat.pow_le_pow_right (by decide) hmost).trans (by decide))
      have hsame := (hvalue hlt).trans hraw.symm
      have htrimmed : (toBeBytes len).dropWhile (· == 0) = raw :=
        bigEndian_inj ((length_le_of_bigEndian head_dropWhile_zero hsame).antisymm
          (length_le_of_bigEndian hhead hsame.symm)) hsame
      refine ⟨?_, hlt⟩
      rw [derLength, if_neg (Nat.not_lt.mpr hleast), htrimmed]

/-- Up to four bytes overflow nothing. -/
theorem foldlM_checkedByte (h : raw.length ≤ 4) :
    raw.foldlM checkedByte 0 = some (bigEndian raw) := by
  induction raw using List.reverseRecOn with
  | nil => rfl
  | append_singleton raw b ih =>
    rw [List.length_append, List.length_singleton] at h
    have hb := b.toNat_lt
    have hlt : bigEndian raw < 2 ^ 32 := by
      refine bigEndian_lt.trans_le ?_
      exact (Nat.pow_le_pow_right (by decide) (by omega : raw.length ≤ 4)).trans (by decide)
    rw [List.foldlM_append, ih (by omega), bigEndian_snoc]
    show (checkedByte (bigEndian raw) b >>= pure) = _
    rw [checkedByte, checked, if_pos (by omega)]
    show (checked (bigEndian raw * 256 + b.toNat) >>= pure) = _
    rw [checked, if_pos (by omega)]
    rfl

end Lengths

/-! ### What the two readers take -/

section Readers
variable {tag first : UInt8} {bytes contents rest : Bytes} {len : Nat}

/-- The length as the reader of tokens takes it: short or long, as it comes. -/
theorem takeLength_iff : Timestamp.takeLength first bytes = .ok (len, rest) ↔
    ∃ header, first :: bytes = header ++ rest ∧
      (ShortForm header len ∨ ∃ raw, LongForm raw header len) := by
  unfold Timestamp.takeLength
  constructor
  · intro h
    by_cases hfirst : first < 128
    · rw [if_pos hfirst] at h
      cases h
      exact ⟨[first], rfl, .inl ⟨UInt8.lt_iff_toNat_lt.mp hfirst, by rw [UInt8.ofNat_toNat]⟩⟩
    · rw [if_neg hfirst] at h
      dsimp only at h
      split at h
      next => cases h
      next hcount =>
        split at h
        next => cases h
        next hlength =>
          cases h
          have hraw : (bytes.take (first &&& 0x7f).toNat).length = (first &&& 0x7f).toNat := by
            rw [List.length_take]
            omega
          refine ⟨first :: bytes.take (first &&& 0x7f).toNat, ?_, .inr ⟨_, ?_, ?_, ?_, rfl⟩⟩
          · rw [List.cons_append, List.take_append_drop]
          · rw [hraw, ← first_of_long hfirst]
          · omega
          · omega
  · intro h
    obtain ⟨header, hsplit, hshort | hlong⟩ := h
    · obtain ⟨hlt, rfl⟩ := hshort
      obtain ⟨hfirst, hnat⟩ := ofNat_of_lt hlt
      obtain ⟨rfl, rfl⟩ := List.cons.inj hsplit
      rw [if_pos hfirst, hnat]
    · obtain ⟨raw, rfl, hleast, hmost, rfl⟩ := hlong
      obtain ⟨hfirst, hcount⟩ := longForm_first hleast hmost
      rw [List.cons_append] at hsplit
      obtain ⟨rfl, rfl⟩ := List.cons.inj hsplit
      dsimp only
      rw [if_neg hfirst, hcount, if_neg (by omega), if_neg (by simp), List.take_left, List.drop_left]

/-- One byte, and at most four behind it. -/
theorem header_cons {header : Bytes} (h : ShortForm header len ∨ ∃ raw, LongForm raw header len) :
    ∃ b tail, header = b :: tail ∧ tail.length ≤ 4 := by
  obtain ⟨_, rfl⟩ | ⟨raw, rfl, _, hmost, _⟩ := h
  · exact ⟨_, _, rfl, Nat.zero_le _⟩
  · exact ⟨_, _, rfl, hmost⟩

/-- The reader of tokens takes the contents behind any length of the two forms. -/
theorem timestamp_take_iff : Timestamp.take tag bytes = .ok (contents, rest) ↔
    ∃ header, bytes = tag :: header ++ contents ++ rest ∧
      (ShortForm header contents.length ∨ ∃ raw, LongForm raw header contents.length) := by
  constructor
  · intro h
    unfold Timestamp.take at h
    split at h
    next => cases h
    next first behind =>
      split at h
      next => cases h
      next htag =>
        split at h
        next => cases h
        next first behind =>
          obtain ⟨⟨len, after⟩, hlength, h⟩ := except_bind_eq_ok.mp h
          dsimp only at h
          split at h
          next => cases h
          next henough =>
            cases h
            obtain ⟨header, hsplit, hform⟩ := takeLength_iff.mp hlength
            have hlen : (after.take len).length = len := by
              rw [List.length_take]
              omega
            refine ⟨header, ?_, by rwa [hlen]⟩
            rw [not_not.mp htag, hsplit, List.append_assoc, List.take_append_drop, List.cons_append]
  · intro h
    obtain ⟨header, rfl, hform⟩ := h
    obtain ⟨first, tail, rfl, _⟩ := header_cons hform
    have hlength : Timestamp.takeLength first (tail ++ (contents ++ rest)) =
        .ok (contents.length, contents ++ rest) := takeLength_iff.mpr ⟨first :: tail, rfl, hform⟩
    simp only [List.cons_append, List.append_assoc, Timestamp.take, ne_eq, not_true_eq_false,
      if_false, hlength]
    show (if (contents ++ rest).length < contents.length then _ else _) = _
    rw [if_neg (by simp), List.take_left, List.drop_left]

/-- The length as the reader of certificates takes it: the minimal one. -/
theorem takeHeader_iff {behind : Bytes} {header : Nat} :
    takeHeader (tag :: first :: behind) first = .ok (len, header) ↔
      ∃ front rest, first :: behind = front ++ rest ∧ header = front.length + 1 ∧
        (ShortForm front len ∨ ∃ raw, LongForm raw front len ∧ Minimal raw len) := by
  unfold takeHeader
  constructor
  · intro h
    by_cases hfirst : first < 128
    · rw [if_pos hfirst] at h
      cases h
      exact ⟨[first], behind, rfl, rfl,
        .inl ⟨UInt8.lt_iff_toNat_lt.mp hfirst, by rw [UInt8.ofNat_toNat]⟩⟩
    · rw [if_neg hfirst] at h
      obtain ⟨_, hcount, h⟩ := except_bind_eq_ok.mp h
      obtain ⟨raw, hslice, h⟩ := except_bind_eq_ok.mp h
      obtain ⟨_, hhead, h⟩ := except_bind_eq_ok.mp h
      obtain ⟨value, hvalue, h⟩ := except_bind_eq_ok.mp h
      obtain ⟨_, hleast, h⟩ := except_bind_eq_ok.mp h
      cases h
      obtain ⟨front, rest, hsplit, htwo, hlength⟩ := slice_eq_some.mp (context_eq_ok.mp hslice)
      obtain ⟨t, f, rfl⟩ := List.length_eq_two.mp htwo
      obtain ⟨rfl, rfl, rfl⟩ : tag = t ∧ first = f ∧ behind = raw ++ rest := by
        simpa using hsplit
      have hcount := refuseIf_eq_ok.mp hcount
      have hraw : raw.length = (first &&& 0x7f).toNat := by omega
      have hvalue := context_eq_ok.mp hvalue
      rw [foldlM_checkedByte (by omega)] at hvalue
      refine ⟨first :: raw, rest, rfl, by rw [List.length_cons]; omega, .inr ⟨raw, ?_, ?_⟩⟩
      · refine ⟨?_, by omega, by omega, Option.some.inj hvalue⟩
        rw [hraw, ← first_of_long hfirst]
      · exact ⟨refuseIf_eq_ok.mp hhead, Nat.not_lt.mp (refuseIf_eq_ok.mp hleast)⟩
  · intro h
    obtain ⟨front, rest, hsplit, rfl, hshort | hlong⟩ := h
    · obtain ⟨hlt, rfl⟩ := hshort
      obtain ⟨hfirst, hnat⟩ := ofNat_of_lt hlt
      obtain ⟨rfl, rfl⟩ := List.cons.inj hsplit
      rw [if_pos hfirst, hnat]
      rfl
    · obtain ⟨raw, ⟨rfl, hleast, hmost, rfl⟩, hhead, hminimal⟩ := hlong
      obtain ⟨hfirst, hcount⟩ := longForm_first hleast hmost
      rw [List.cons_append] at hsplit
      obtain ⟨rfl, rfl⟩ := List.cons.inj hsplit
      have hslice : slice (tag :: (0x80 ||| UInt8.ofNat raw.length) :: (raw ++ rest)) 2
          (2 + raw.length) = some raw := slice_eq_some.mpr ⟨[_, _], rest, rfl, rfl, rfl⟩
      have hvalue := foldlM_checkedByte hmost
      rw [if_neg hfirst, hcount]
      refine except_bind_eq_ok.mpr ⟨(), refuseIf_eq_ok.mpr (by omega), ?_⟩
      refine except_bind_eq_ok.mpr ⟨raw, context_eq_ok.mpr hslice, ?_⟩
      refine except_bind_eq_ok.mpr ⟨(), refuseIf_eq_ok.mpr hhead, ?_⟩
      refine except_bind_eq_ok.mpr ⟨_, context_eq_ok.mpr hvalue, ?_⟩
      refine except_bind_eq_ok.mpr ⟨(), refuseIf_eq_ok.mpr (Nat.not_lt.mpr hminimal), ?_⟩
      rw [List.length_cons, Nat.add_right_comm, Nat.add_comm 2]
      rfl

/-- The reader of certificates takes what is encoded the one way it can be. -/
theorem identity_take_iff : take tag bytes = .ok (contents, rest) ↔
    bytes = der tag contents ++ rest ∧ contents.length < 2 ^ 32 := by
  constructor
  · intro h
    obtain ⟨_, htag, h⟩ := except_bind_eq_ok.mp h
    obtain ⟨first, hfirst, h⟩ := except_bind_eq_ok.mp h
    obtain ⟨⟨len, header⟩, hheader, h⟩ := except_bind_eq_ok.mp h
    obtain ⟨stop, hstop, h⟩ := except_bind_eq_ok.mp h
    obtain ⟨part, hslice, h⟩ := except_bind_eq_ok.mp h
    cases h
    have htag := not_not.mp (refuseIf_eq_ok.mp htag)
    have hfirst := context_eq_ok.mp hfirst
    have hstop := checked_eq_some.mp (context_eq_ok.mp hstop)
    obtain ⟨behind, rfl⟩ : ∃ behind, bytes = tag :: first :: behind := by
      cases bytes with
      | nil => cases htag
      | cons t bytes =>
        cases bytes with
        | nil => cases hfirst
        | cons f behind =>
          cases htag
          cases hfirst
          exact ⟨behind, rfl⟩
    obtain ⟨front, after, hsplit, rfl, hform⟩ := takeHeader_iff.mp hheader
    obtain ⟨around, last, hbytes, hlength, hcontents⟩ :=
      slice_eq_some.mp (context_eq_ok.mp hslice)
    have hlen : contents.length = len := by omega
    obtain ⟨rfl, hlt⟩ := derLength_iff.mpr hform
    have haround : around = tag :: derLength len ∧ contents ++ last = after := by
      refine List.append_inj ?_ hlength
      rw [← List.append_assoc, ← hbytes, hsplit, List.cons_append]
    obtain ⟨rfl, rfl⟩ := haround
    refine ⟨?_, hlen ▸ hlt⟩
    have hdrop : stop = (tag :: derLength len ++ contents).length := by
      rw [List.length_append, hlength, hcontents]
    rw [hbytes, hdrop, List.drop_left, der, hlen]
  · intro h
    obtain ⟨rfl, hlt⟩ := h
    have hform := derLength_iff.mp ⟨rfl, hlt⟩
    obtain ⟨first, tail, hfront, hmost⟩ :=
      header_cons (hform.imp_right fun hraw => ⟨hraw.choose, hraw.choose_spec.1⟩)
    have hheader : takeHeader (der tag contents ++ rest) first =
        .ok (contents.length, (derLength contents.length).length + 1) := by
      rw [hfront] at hform ⊢
      rw [der, hfront, List.append_assoc]
      exact takeHeader_iff.mpr ⟨first :: tail, contents ++ rest, rfl, rfl, hform⟩
    have hslice : slice (der tag contents ++ rest) ((derLength contents.length).length + 1)
        ((derLength contents.length).length + 1 + contents.length) = some contents :=
      slice_eq_some.mpr ⟨tag :: derLength contents.length, rest, rfl, rfl, rfl⟩
    have hstop : (derLength contents.length).length + 1 + contents.length < 2 ^ 64 := by
      rw [hfront, List.length_cons]
      omega
    have hend : (derLength contents.length).length + 1 + contents.length =
        (der tag contents).length := by
      rw [der, List.length_append, List.length_cons]
    have hsecond : (der tag contents ++ rest)[1]? = some first := by
      rw [der, hfront]
      rfl
    refine except_bind_eq_ok.mpr ⟨(), refuseIf_eq_ok.mpr (not_not.mpr rfl), ?_⟩
    refine except_bind_eq_ok.mpr ⟨first, context_eq_ok.mpr hsecond, ?_⟩
    refine except_bind_eq_ok.mpr ⟨_, hheader, ?_⟩
    refine except_bind_eq_ok.mpr ⟨_, context_eq_ok.mpr (checked_eq_some.mpr ⟨rfl, hstop⟩), ?_⟩
    refine except_bind_eq_ok.mpr ⟨contents, context_eq_ok.mpr hslice, ?_⟩
    rw [hend, List.drop_left]
    rfl

/-- The bytes begin with the element of these contents, its length definite, minimal and in at
most four bytes. -/
def Encodes (tag : UInt8) (bytes contents rest : Bytes) : Prop :=
  ∃ header, bytes = tag :: header ++ contents ++ rest ∧
    (ShortForm header contents.length ∨
      ∃ raw, LongForm raw header contents.length ∧ Minimal raw contents.length)

/-- The same as what is written. -/
theorem encodes_iff : Encodes tag bytes contents rest ↔
    bytes = der tag contents ++ rest ∧ contents.length < 2 ^ 32 := by
  constructor
  · intro h
    obtain ⟨header, rfl, hform⟩ := h
    obtain ⟨rfl, hlt⟩ := derLength_iff.mpr hform
    exact ⟨rfl, hlt⟩
  · intro h
    obtain ⟨rfl, hlt⟩ := h
    exact ⟨derLength contents.length, rfl, derLength_iff.mp ⟨rfl, hlt⟩⟩

/-- The bytes begin with an element whose length is longer than it has to be. -/
def NonMinimal (tag : UInt8) (bytes : Bytes) : Prop :=
  ∃ raw header contents rest, bytes = tag :: header ++ contents ++ rest ∧
    LongForm raw header contents.length ∧ ¬ Minimal raw contents.length

/-- Both readers take the same, and it is the one encoding. -/
structure SameStrict (tag : UInt8) (bytes : Bytes) : Prop where
  same : (Timestamp.take tag bytes).toOption = (take tag bytes).toOption
  timestamp : ∀ contents rest,
    Timestamp.take tag bytes = .ok (contents, rest) ↔ Encodes tag bytes contents rest
  identity : ∀ contents rest, take tag bytes = .ok (contents, rest) ↔ Encodes tag bytes contents rest

/-- An encoding has one header only. -/
theorem not_encodes_of_long {raw header : Bytes} (hlong : LongForm raw header contents.length)
    (hminimal : ¬ Minimal raw contents.length) :
    ¬ Encodes tag (tag :: header ++ contents ++ rest) contents rest := by
  intro h
  obtain ⟨header', hsplit, hform⟩ := h
  have hsame : header = header' := by simpa using hsplit
  obtain ⟨rfl, hleast, _, _⟩ := hlong
  obtain ⟨_, rfl⟩ | ⟨raw', ⟨rfl, _⟩, hminimal'⟩ := hform
  · obtain ⟨_, rfl⟩ := List.cons.inj hsame
    exact absurd hleast (by simp)
  · obtain ⟨_, rfl⟩ := List.cons.inj hsame
    exact hminimal hminimal'

/-- The two readers are one on every input that does not begin with a length in too many bytes. -/
theorem take_sameStrict_iff : SameStrict tag bytes ↔ ¬ NonMinimal tag bytes := by
  constructor
  · intro h hlonger
    obtain ⟨raw, header, contents, rest, rfl, hlong, hminimal⟩ := hlonger
    have htake : Timestamp.take tag (tag :: header ++ contents ++ rest) = .ok (contents, rest) :=
      timestamp_take_iff.mpr ⟨header, rfl, .inr ⟨raw, hlong⟩⟩
    exact not_encodes_of_long hlong hminimal ((h.timestamp contents rest).mp htake)
  · intro h
    have hidentity (contents rest : Bytes) :
        take tag bytes = .ok (contents, rest) ↔ Encodes tag bytes contents rest :=
      identity_take_iff.trans encodes_iff.symm
    have htimestamp (contents rest : Bytes) :
        Timestamp.take tag bytes = .ok (contents, rest) ↔ Encodes tag bytes contents rest := by
      rw [timestamp_take_iff]
      constructor
      · intro htake
        obtain ⟨header, hsplit, hshort | ⟨raw, hlong⟩⟩ := htake
        · exact ⟨header, hsplit, .inl hshort⟩
        · have hminimal : Minimal raw contents.length := by
            by_contra hminimal
            exact h ⟨raw, header, contents, rest, hsplit, hlong, hminimal⟩
          exact ⟨header, hsplit, .inr ⟨raw, hlong, hminimal⟩⟩
      · intro hencodes
        obtain ⟨header, hsplit, hform⟩ := hencodes
        exact ⟨header, hsplit, hform.imp_right fun ⟨raw, hlong, _⟩ => ⟨raw, hlong⟩⟩
    refine ⟨Option.ext fun element => ?_, htimestamp, hidentity⟩
    rw [toOption_eq_some, toOption_eq_some, htimestamp element.1 element.2,
      ← hidentity element.1 element.2]

/-- An empty element, its length in one byte more than it needs: the reader of tokens takes it,
the reader of certificates does not. -/
theorem take_differs_on_long_length : ¬ SameStrict 0x30 [0x30, 0x81, 0] := by
  intro h
  have htimestamp : Timestamp.take 0x30 [0x30, 0x81, 0] = .ok ([], []) := rfl
  have hidentity : (take 0x30 [0x30, 0x81, 0]).toOption = none := rfl
  have hsame := h.same
  rw [htimestamp, hidentity] at hsame
  cases hsame

end Readers

end Attest.Identity
