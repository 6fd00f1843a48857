import Attest.Library.Base128
import Attest.Timestamp.Token

/-! Object identifiers as text, as `oid_to_dotted` renders them.

The first two numbers of an identifier share the first number of its encoding, which may take
several bytes; `oidToDotted` takes the first byte for the two, and an identifier is cut short for it
only when something other than zero has begun. `rendered_iff` says for which contents the text is
that of what was encoded, and an error where nothing was. -/
namespace Attest.Timestamp
open Library Library.Fallible
open Trust (Bytes)

/-! ### Identifiers -/

/-- What X.660 allows, with numbers of 64 bits. -/
structure ObjectIdentifier where
  root : Nat
  second : Nat
  arcs : List Nat
  root_le : root ≤ 2
  second_lt : root < 2 → second < 40
  first_lt : 40 * root + second < 2 ^ 64
  arcs_lt : ∀ arc ∈ arcs, arc < 2 ^ 64

def dotted (numbers : List Nat) : String := ".".intercalate (numbers.map toString)

def ObjectIdentifier.text (o : ObjectIdentifier) : String := dotted (o.root :: o.second :: o.arcs)

/-- X.690: the first two in one number, each number in as few bytes as it takes. -/
def ObjectIdentifier.encoding (o : ObjectIdentifier) : Bytes :=
  Base128.encode (40 * o.root + o.second) ++ o.arcs.flatMap Base128.encode

section Identifiers
variable {o o' : ObjectIdentifier} {numbers numbers' : List Nat}

theorem ObjectIdentifier.decode_encoding :
    Base128.decode 0 o.encoding = ((40 * o.root + o.second) :: o.arcs, 0) := by
  rw [encoding, Base128.decode_encode, Base128.decode_flatMap]

/-- The number that the first two share tells them apart. -/
theorem ObjectIdentifier.text_of_encoding (h : o.encoding = o'.encoding) : o.text = o'.text := by
  have hdecoded := o.decode_encoding.symm.trans ((congrArg (Base128.decode 0) h).trans o'.decode_encoding)
  obtain ⟨hfirst, harcs⟩ := List.cons.inj (Prod.mk.inj hdecoded).1
  have hroot := o.root_le
  have hroot' := o'.root_le
  have hsecond := o.second_lt
  have hsecond' := o'.second_lt
  have hsame : o.root = o'.root ∧ o.second = o'.second := by omega
  rw [text, text, hsame.1, hsame.2, harcs]

theorem digits_injective : Function.Injective fun n : Nat => (toString n).toList := by
  intro n n' h
  have hdigits : Nat.toDigits 10 n = Nat.toDigits 10 n' :=
    Nat.toList_repr.symm.trans (Eq.trans h Nat.toList_repr)
  rw [← @Nat.ofDigitChars_toDigits 10 n (by decide) (by decide), hdigits,
    Nat.ofDigitChars_toDigits (by decide) (by decide)]

/-- Numbers are read off their text, up to each dot. -/
theorem dotted_injective (hne : numbers ≠ []) (hne' : numbers' ≠ [])
    (h : dotted numbers = dotted numbers') : numbers = numbers' := by
  have hsplit {numbers : List Nat} (hne : numbers ≠ []) :
      (dotted numbers).toList.splitOn '.' = numbers.map fun n => (toString n).toList := by
    rw [dotted, String.toList_intercalate, List.map_map]
    refine List.splitOn_intercalate '.' ?_ (by simpa using hne)
    intro digits hdigits hdot
    obtain ⟨n, _, rfl⟩ := List.mem_map.mp hdigits
    have hdot : '.' ∈ (Nat.repr n).toList := hdot
    rw [Nat.toList_repr] at hdot
    exact absurd (Nat.isDigit_of_mem_toDigits (by decide) (by decide) hdot) (by decide)
  have hmaps := (hsplit hne).symm.trans ((congrArg (fun text => text.toList.splitOn '.') h).trans
    (hsplit hne'))
  exact List.map_injective_iff.mpr digits_injective hmaps

end Identifiers

/-! ### Rendering -/

/-- Behind the first byte, no number is too large, and none but zero has begun at the end. -/
def Complete (rest : Bytes) : Prop :=
  (∀ arc ∈ (Base128.decode 0 rest).1, arc < 2 ^ 64) ∧ (Base128.decode 0 rest).2 = 0

section Rendering
variable {first : UInt8} {rest : Bytes} {parts : List String} {n : Nat} {text : String}

/-- One byte at a time: the numbers are those of the row, unless one is too large. -/
theorem foldlM_oidByte (hn : n < 2 ^ 64) : rest.foldlM oidByte (parts, n) =
    if (∀ arc ∈ (Base128.decode n rest).1, arc < 2 ^ 64) ∧ (Base128.decode n rest).2 < 2 ^ 64 then
      .ok (parts ++ (Base128.decode n rest).1.map toString, (Base128.decode n rest).2)
    else .error (.malformed "OID arc overflows") := by
  induction rest generalizing parts n with
  | nil =>
    rw [Base128.decode, if_pos ⟨by simp, hn⟩]
    simp [pure, Except.pure]
  | cons b rest ih =>
    rw [List.foldlM_cons, oidByte]
    by_cases hlarge : 2 ^ 57 ≤ n
    · -- What has begun is too large with one byte more, wherever it ends.
      rw [if_pos hlarge, if_neg]
      · rfl
      · intro hall
        have hnext : 2 ^ 64 ≤ n * 128 + b.toNat % 128 := by omega
        by_cases hb : b < 128
        · rw [Base128.decode_of_lt hb] at hall
          have hfirst := hall.1 _ List.mem_cons_self
          omega
        · rw [Base128.decode_of_ge hb] at hall
          obtain ⟨arc, harc, hle⟩ | hle := @Base128.le_decode (n * 128 + b.toNat % 128) rest
          · have hlt := hall.1 arc harc
            omega
          · omega
    · have hnext : n * 128 + b.toNat % 128 < 2 ^ 64 := by omega
      rw [if_neg hlarge]
      by_cases hb : b < 128
      · rw [Base128.decode_of_lt hb]
        dsimp only
        rw [if_pos hb]
        show rest.foldlM oidByte (_, 0) = _
        rw [ih (by decide)]
        simp only [List.forall_mem_cons, hnext, true_and, List.map_cons, List.append_assoc,
          List.singleton_append]
      · rw [Base128.decode_of_ge hb]
        dsimp only
        rw [if_neg hb]
        exact ih hnext

theorem oidToDotted_eq_ok : oidToDotted (first :: rest) = .ok text ↔
    Complete rest ∧
      text = dotted (first.toNat / 40 :: first.toNat % 40 :: (Base128.decode 0 rest).1) := by
  have hparts : [toString (first / 40), toString (first % 40)] =
      [first.toNat / 40, first.toNat % 40].map toString := rfl
  rw [oidToDotted, foldlM_oidByte (by decide), hparts, ← List.map_append]
  constructor
  · intro h
    obtain ⟨⟨parts, value⟩, hfold, h⟩ := except_bind_eq_ok.mp h
    split at hfold
    next hall =>
      cases hfold
      obtain ⟨_, hvalue, h⟩ := except_bind_eq_ok.mp h
      cases h
      exact ⟨⟨hall.1, not_not.mp (refuseIf_eq_ok.mp hvalue)⟩, rfl⟩
    next => cases hfold
  · intro h
    obtain ⟨⟨hall, hzero⟩, rfl⟩ := h
    rw [if_pos ⟨hall, by rw [hzero]; decide⟩]
    exact except_bind_eq_ok.mpr ⟨_, rfl, except_bind_eq_ok.mpr
      ⟨(), refuseIf_eq_ok.mpr (not_not.mpr hzero), rfl⟩⟩

end Rendering

/-! ### What is rendered as it should be -/

/-- An identifier has its text, nothing else has one, and no other identifier has the same. -/
structure Renders (raw : Bytes) : Prop where
  decoded : ∀ o : ObjectIdentifier, raw = o.encoding → oidToDotted raw = .ok o.text
  refused : (∀ o : ObjectIdentifier, raw ≠ o.encoding) → ∃ e, oidToDotted raw = .error e
  distinct : ∀ o o' : ObjectIdentifier, raw = o.encoding → o'.encoding ≠ raw →
    oidToDotted o'.encoding ≠ oidToDotted raw

/-- Refused for what is behind the first byte, or one byte for the first two numbers and each of
the others in as few as it takes. -/
def Plain (raw : Bytes) : Prop :=
  raw = [] ∨ ∃ first rest, raw = first :: rest ∧
    (¬ Complete rest ∨ first < 120 ∧ ∃ arcs : List Nat, rest = arcs.flatMap Base128.encode)

section Contents
variable {raw rest : Bytes} {first : UInt8} {o o' : ObjectIdentifier} {arcs : List Nat}

theorem ObjectIdentifier.encoding_ne_nil : o.encoding ≠ [] := by
  simp [encoding, Base128.encode]

/-- When the first byte ends a number, it is what the first two share. -/
theorem of_encoding_of_lt (hfirst : first < 128) (h : o.encoding = first :: rest) :
    40 * o.root + o.second = first.toNat ∧ Base128.decode 0 rest = (o.arcs, 0) := by
  have hdecoded := o.decode_encoding
  have hlt : first.toNat < 128 := UInt8.lt_iff_toNat_lt.mp hfirst
  rw [h, Base128.decode_of_lt hfirst] at hdecoded
  obtain ⟨hcons, hzero⟩ := Prod.mk.inj hdecoded
  obtain ⟨hshared, harcs⟩ := List.cons.inj hcons
  exact ⟨by omega, Prod.ext harcs hzero⟩

theorem complete_of_encoding (h : o.encoding = first :: rest) : Complete rest := by
  by_cases hfirst : first < 128
  · rw [Complete, (of_encoding_of_lt hfirst h).2]
    exact ⟨o.arcs_lt, rfl⟩
  · -- What follows begins inside the first number; read on its own it comes to less.
    have hdecoded := o.decode_encoding
    rw [h, Base128.decode_of_ge hfirst] at hdecoded
    obtain ⟨hsmaller, hbegun⟩ := @Base128.decode_mono 0 (0 * 128 + first.toNat % 128) rest
      (Nat.zero_le _)
    rw [hdecoded] at hsmaller hbegun
    refine ⟨?_, Nat.le_zero.mp hbegun⟩
    intro arc harc
    obtain ⟨larger, hlarger, hle⟩ := hsmaller arc harc
    rcases List.mem_cons.mp hlarger with rfl | hlarger
    · exact hle.trans_lt o.first_lt
    · exact hle.trans_lt (o.arcs_lt larger hlarger)

/-- One byte for the first two numbers, and the others behind it. -/
theorem encoding_of_shared (h : 40 * o.root + o.second = first.toNat) (hfirst : first < 128) :
    o.encoding = first :: o.arcs.flatMap Base128.encode := by
  rw [ObjectIdentifier.encoding, h, Base128.encode_of_lt (UInt8.lt_iff_toNat_lt.mp hfirst),
    UInt8.ofNat_toNat]
  rfl

/-- The text of an identifier is its own. -/
theorem encoding_of_text (h : oidToDotted o'.encoding = .ok o.text) : o'.encoding = o.encoding := by
  cases hraw : o'.encoding with
  | nil => exact absurd hraw o'.encoding_ne_nil
  | cons first rest =>
    rw [hraw, oidToDotted_eq_ok] at h
    have hnumbers := dotted_injective (List.cons_ne_nil _ _) (List.cons_ne_nil _ _) h.2
    obtain ⟨hroot, hnumbers⟩ := List.cons.inj hnumbers
    obtain ⟨hsecond, harcs⟩ := List.cons.inj hnumbers
    have hle := o.root_le
    have hlt : first < 128 := UInt8.lt_iff_toNat_lt.mpr (by show _ < 128; omega)
    obtain ⟨hshared, hdecoded⟩ := of_encoding_of_lt hlt hraw
    rw [hdecoded] at harcs
    have hsame : 40 * o.root + o.second = first.toNat := by omega
    rw [← hraw, encoding_of_shared hshared hlt, encoding_of_shared hsame hlt, harcs]

/-- The identifier of plain contents. -/
theorem exists_of_plain (hfirst : first < 120) (hcomplete : Complete (arcs.flatMap Base128.encode)) :
    ∃ o : ObjectIdentifier, o.encoding = first :: arcs.flatMap Base128.encode ∧
      oidToDotted o.encoding = .ok o.text := by
  have hlt : first.toNat < 120 := UInt8.lt_iff_toNat_lt.mp hfirst
  have harcs : ∀ arc ∈ arcs, arc < 2 ^ 64 := by
    intro arc harc
    refine hcomplete.1 arc ?_
    rw [Base128.decode_flatMap]
    exact harc
  let o : ObjectIdentifier :=
    { root := first.toNat / 40
      second := first.toNat % 40
      arcs := arcs
      root_le := by omega
      second_lt := fun _ => Nat.mod_lt _ (by decide)
      first_lt := by omega
      arcs_lt := harcs }
  have hencoding : o.encoding = first :: arcs.flatMap Base128.encode :=
    encoding_of_shared (Nat.div_add_mod _ _) (UInt8.lt_iff_toNat_lt.mpr (by show _ < 128; omega))
  refine ⟨o, hencoding, ?_⟩
  rw [hencoding, oidToDotted_eq_ok]
  refine ⟨hcomplete, ?_⟩
  rw [Base128.decode_flatMap]
  rfl

/-- The text is right for plain contents, and for no others. -/
theorem rendered_iff : Renders raw ↔ Plain raw := by
  constructor
  · intro h
    cases raw with
    | nil => exact .inl rfl
    | cons first rest =>
      refine .inr ⟨first, rest, rfl, ?_⟩
      by_cases hcomplete : Complete rest
      · have hok := (@oidToDotted_eq_ok first rest _).mpr ⟨hcomplete, rfl⟩
        have hencodes : ∃ o : ObjectIdentifier, first :: rest = o.encoding := by
          by_contra hnone
          obtain ⟨e, herror⟩ := h.refused fun o ho => hnone ⟨o, ho⟩
          cases herror.symm.trans hok
        obtain ⟨o, ho⟩ := hencodes
        have htext := Except.ok.inj ((h.decoded o ho).symm.trans hok)
        have hnumbers := dotted_injective (List.cons_ne_nil _ _) (List.cons_ne_nil _ _) htext
        have hroot := (List.cons.inj hnumbers).1
        have hsecond := (List.cons.inj (List.cons.inj hnumbers).2).1
        have hle := o.root_le
        have hfirst : first.toNat < 120 := by omega
        have hencoding := @encoding_of_shared first o (by omega)
          (UInt8.lt_iff_toNat_lt.mpr (by show _ < 128; omega))
        rw [← ho] at hencoding
        exact .inr ⟨UInt8.lt_iff_toNat_lt.mpr hfirst, o.arcs, (List.cons.inj hencoding).2⟩
      · exact .inl hcomplete
  · intro h
    obtain rfl | ⟨first, rest, rfl, hplain⟩ := h
    · have hnone : ∀ o : ObjectIdentifier, [] ≠ o.encoding := fun o ho => o.encoding_ne_nil ho.symm
      exact ⟨fun o ho => absurd ho (hnone o), fun _ => ⟨_, rfl⟩, fun o _ ho => absurd ho (hnone o)⟩
    · by_cases hcomplete : Complete rest
      · obtain ⟨hfirst, arcs, rfl⟩ := hplain.resolve_left (not_not.mpr hcomplete)
        obtain ⟨o, hencoding, htext⟩ := exists_of_plain hfirst hcomplete
        rw [hencoding] at htext
        refine ⟨?_, fun hnone => absurd hencoding.symm (hnone o), ?_⟩
        · intro o' ho'
          rw [htext, ObjectIdentifier.text_of_encoding (hencoding.trans ho')]
        · intro _ o' _ hother hsame
          rw [htext] at hsame
          exact hother ((encoding_of_text hsame).trans hencoding)
      · -- Nothing that is encoded is incomplete.
        have hnone : ∀ o : ObjectIdentifier, first :: rest ≠ o.encoding := fun o ho =>
          hcomplete (complete_of_encoding ho.symm)
        refine ⟨fun o ho => absurd ho (hnone o), fun _ => ?_, fun o _ ho => absurd ho (hnone o)⟩
        cases herror : oidToDotted (first :: rest) with
        | error e => exact ⟨e, rfl⟩
        | ok text => exact absurd (oidToDotted_eq_ok.mp herror).1 hcomplete

/-- The first two numbers of 2.999 take two bytes. -/
def example999 : ObjectIdentifier where
  root := 2
  second := 999
  arcs := []
  root_le := by decide
  second_lt := by decide
  first_lt := by decide
  arcs_lt := by simp

/-- 2.999 is rendered as 3.16.55, and 1.2 with a third number that is cut short as 1.2. -/
theorem rendered_otherwise : ¬ Renders [0x88, 0x37] ∧ ¬ Renders [0x2a, 0x80] := by
  constructor
  · intro h
    have hencoding : [0x88, 0x37] = example999.encoding := by
      simp [ObjectIdentifier.encoding, example999, Base128.encode, Base128.continued]
    have hother : oidToDotted [0x88, 0x37] = .ok "3.16.55" := by decide +kernel
    have htext : example999.text = "2.999" := by decide +kernel
    have hsame := Except.ok.inj (hother.symm.trans (h.decoded example999 hencoding))
    rw [htext] at hsame
    exact absurd hsame (by decide)
  · intro h
    have hok : oidToDotted [0x2a, 0x80] = .ok "1.2" := by decide +kernel
    have hnone : ∀ o : ObjectIdentifier, [0x2a, 0x80] ≠ o.encoding := by
      intro o ho
      obtain ⟨hshared, hdecoded⟩ := of_encoding_of_lt (by decide) ho.symm
      have harcs : o.arcs = [] := (Prod.mk.inj hdecoded).1.symm
      have hencoding := encoding_of_shared hshared (by decide)
      rw [← ho, harcs] at hencoding
      cases hencoding
    obtain ⟨e, herror⟩ := h.refused hnone
    cases herror.symm.trans hok

end Contents

end Attest.Timestamp
