import Mathlib.Data.List.Induction
import Mathlib.Data.String.Basic

/-! Texts made of lines and fields.

A text is a list of characters. `lines` takes it apart where the standard library of
the code does, `unlines` puts lines together again, and each undoes the other where
no carriage return is in the way. `splitBlank` cuts at the last empty line and
`splitOnce` at the first separator. A number is written in decimal without leading
zeros, and read only so. -/
namespace Attest.Library.Text

/-! ### Lines -/

/-- `str::lines`: the end of a line is a newline or a carriage return and a newline,
and the last line need not have one. -/
def lines : List Char → List (List Char)
  | [] => []
  | '\n' :: rest => [] :: lines rest
  | '\r' :: '\n' :: rest => [] :: lines rest
  | c :: rest =>
    match lines rest with
    | [] => [[c]]
    | line :: more => (c :: line) :: more

/-- Every line with its newline. -/
def unlines : List (List Char) → List Char
  | [] => []
  | line :: rest => line ++ '\n' :: unlines rest

@[simp] theorem unlines_nil : unlines [] = [] := rfl

@[simp] theorem unlines_cons (line : List Char) (rest : List (List Char)) :
    unlines (line :: rest) = line ++ '\n' :: unlines rest := rfl

theorem unlines_append (a b : List (List Char)) : unlines (a ++ b) = unlines a ++ unlines b := by
  induction a with
  | nil => rfl
  | cons line rest ih => simp [ih]

theorem lines_newline (rest : List Char) : lines ('\n' :: rest) = [] :: lines rest := by
  rw [lines]

theorem lines_cons {c : Char} (hn : c ≠ '\n') (hr : c ≠ '\r') (rest : List Char) :
    lines (c :: rest) = match lines rest with
      | [] => [[c]]
      | line :: more => (c :: line) :: more := by
  rw [lines]
  · exact fun h => hn h
  · intro r h
    exact absurd h hr

/-- A character that neither ends a line nor could be part of such an end. -/
def Inline (c : Char) : Prop := c ≠ '\n' ∧ c ≠ '\r'

theorem lines_line_append {line : List Char} (h : ∀ c ∈ line, Inline c) (rest : List Char) :
    lines (line ++ '\n' :: rest) = line :: lines rest := by
  induction line with
  | nil => exact lines_newline rest
  | cons c line ih =>
    have hc := h c (List.mem_cons_self ..)
    have hline := ih fun d hd => h d (List.mem_cons_of_mem c hd)
    rw [List.cons_append, lines_cons hc.1 hc.2, hline]

theorem lines_unlines {ls : List (List Char)} (h : ∀ line ∈ ls, ∀ c ∈ line, Inline c) :
    lines (unlines ls) = ls := by
  induction ls with
  | nil => rfl
  | cons line rest ih =>
    have hrest := ih fun l hl => h l (List.mem_cons_of_mem line hl)
    rw [unlines_cons, lines_line_append (h line (List.mem_cons_self ..)), hrest]

/-- A text that ends its last line is its lines. -/
theorem unlines_lines {text : List Char} (hr : '\r' ∉ text) (hend : text.getLast? ≠ none →
    text.getLast? = some '\n') : unlines (lines text) = text := by
  induction text with
  | nil => rfl
  | cons c rest ih =>
    have hrest : '\r' ∉ rest := fun hmem => hr (List.mem_cons_of_mem c hmem)
    have hc : c ≠ '\r' := fun h => hr (h ▸ List.mem_cons_self ..)
    have hlast : rest.getLast? ≠ none → rest.getLast? = some '\n' := by
      intro hne
      cases rest with
      | nil => exact absurd rfl hne
      | cons d more => simpa [List.getLast?_cons_cons] using hend (by simp)
    have htail := ih hrest hlast
    by_cases hn : c = '\n'
    · rw [hn, lines_newline, unlines_cons, htail]
      rfl
    · rw [lines_cons hn hc]
      cases hlines : lines rest with
      | nil =>
        -- Nothing after the character: then it is the last one, and no newline.
        rw [hlines, unlines_nil] at htail
        rw [← htail] at hend
        simp [hn] at hend
      | cons line more =>
        rw [hlines, unlines_cons] at htail
        show c :: line ++ '\n' :: unlines more = c :: rest
        rw [List.cons_append, htail]

theorem inline_of_mem_lines {text : List Char} (hr : '\r' ∉ text) {line : List Char}
    (hline : line ∈ lines text) {c : Char} (hc : c ∈ line) : Inline c ∧ c ∈ text := by
  induction text generalizing line c with
  | nil => simp [lines] at hline
  | cons d rest ih =>
    have hrest : '\r' ∉ rest := fun hmem => hr (List.mem_cons_of_mem d hmem)
    have hd : d ≠ '\r' := fun h => hr (h ▸ List.mem_cons_self ..)
    have htail : ∀ l ∈ lines rest, ∀ e ∈ l, Inline e ∧ e ∈ d :: rest := by
      intro l hl e he
      have := ih hrest hl he
      exact ⟨this.1, List.mem_cons_of_mem d this.2⟩
    by_cases hn : d = '\n'
    · rw [hn, lines_newline] at hline
      cases List.mem_cons.mp hline with
      | inl h => simp [h] at hc
      | inr h => exact htail line h c hc
    · have hhead : Inline d ∧ d ∈ d :: rest := ⟨⟨hn, hd⟩, List.mem_cons_self ..⟩
      rw [lines_cons hn hd] at hline
      cases hlines : lines rest with
      | nil =>
        simp only [hlines, List.mem_singleton] at hline
        subst hline
        rw [List.mem_singleton.mp hc]
        exact hhead
      | cons first more =>
        rw [hlines] at hline htail
        cases List.mem_cons.mp hline with
        | inl h =>
          subst h
          cases List.mem_cons.mp hc with
          | inl h => rw [h]; exact hhead
          | inr h => exact htail first (List.mem_cons_self ..) c h
        | inr h => exact htail line (List.mem_cons_of_mem first h) c hc

/-! ### The last empty line -/

/-- What stands before the last empty line, with its newline, and what stands after it:
the two sides of `rfind` of two newlines. -/
def splitBlank : List Char → Option (List Char × List Char)
  | [] => none
  | c :: rest =>
    match splitBlank rest with
    | some (before, after) => some (c :: before, after)
    | none =>
      match rest with
      | d :: after => if c = '\n' ∧ d = '\n' then some (['\n'], after) else none
      | [] => none

/-- No empty line in it. -/
def NoBlank (text : List Char) : Prop := ¬ ['\n', '\n'] <:+: text

theorem splitBlank_eq_none {text : List Char} : splitBlank text = none ↔ NoBlank text := by
  induction text with
  | nil => simp [splitBlank, NoBlank]
  | cons c rest ih =>
    unfold splitBlank NoBlank
    rw [List.infix_cons_iff]
    cases hrest : splitBlank rest with
    | some p =>
      have hblank : ['\n', '\n'] <:+: rest := by
        by_contra hno
        rw [ih.mpr hno] at hrest
        cases hrest
      simp [hblank]
    | none =>
      have hno : ¬ ['\n', '\n'] <:+: rest := ih.mp hrest
      cases rest with
      | nil => simp
      | cons d after =>
        simp only [hno, or_false, ite_eq_right_iff, List.cons_prefix_cons, List.nil_prefix,
          and_true]
        constructor
        · intro h hcd
          exact absurd (h ⟨hcd.1.symm, hcd.2.symm⟩) (by simp)
        · intro h hcd
          exact absurd ⟨hcd.1.symm, hcd.2.symm⟩ h

/-- The cut is at the last empty line: none is found in what follows it. -/
theorem splitBlank_append (body : List Char) {after : List Char} (h : NoBlank ('\n' :: after)) :
    splitBlank (body ++ '\n' :: '\n' :: after) = some (body ++ ['\n'], after) := by
  induction body with
  | nil =>
    rw [List.nil_append, splitBlank, splitBlank_eq_none.mpr h]
    simp
  | cons c body ih => simp [splitBlank, ih]

theorem of_splitBlank {text before after : List Char} (h : splitBlank text = some (before, after)) :
    (∃ body, before = body ++ ['\n']) ∧ text = before ++ '\n' :: after ∧
      NoBlank ('\n' :: after) := by
  induction text generalizing before with
  | nil => cases h
  | cons c rest ih =>
    unfold splitBlank at h
    cases hrest : splitBlank rest with
    | some p =>
      obtain ⟨inner, following⟩ := p
      simp only [hrest, Option.some.injEq, Prod.mk.injEq] at h
      obtain ⟨rfl, rfl⟩ := h
      obtain ⟨⟨body, hbody⟩, htext, hno⟩ := ih hrest
      refine ⟨⟨c :: body, ?_⟩, ?_, hno⟩
      · rw [hbody]
        rfl
      · rw [htext]
        rfl
    | none =>
      rw [hrest] at h
      cases rest with
      | nil => cases h
      | cons d more =>
        simp only [Option.ite_none_right_eq_some, Option.some.injEq, Prod.mk.injEq] at h
        obtain ⟨⟨rfl, rfl⟩, rfl, rfl⟩ := h
        exact ⟨⟨[], rfl⟩, rfl, splitBlank_eq_none.mp hrest⟩

/-- Lines that are not empty hide no empty line, also after the newline before them. -/
theorem noBlank_unlines {ls : List (List Char)} (hinline : ∀ line ∈ ls, '\n' ∉ line)
    (hne : ∀ line ∈ ls, line ≠ []) : NoBlank ('\n' :: unlines ls) := by
  induction ls with
  | nil =>
    rintro ⟨a, b, hab⟩
    have := congrArg List.length hab
    simp at this
    omega
  | cons line rest ih =>
    have htail := ih (fun l hl => hinline l (List.mem_cons_of_mem line hl))
      fun l hl => hne l (List.mem_cons_of_mem line hl)
    have hline := hinline line (List.mem_cons_self ..)
    have hno : NoBlank (line ++ '\n' :: unlines rest) := by
      clear ih hinline hne
      induction line with
      | nil => exact htail
      | cons c line ih =>
        have hc : '\n' ≠ c := fun h => hline (h ▸ List.mem_cons_self ..)
        have hinner := ih fun hmem => hline (List.mem_cons_of_mem c hmem)
        rw [NoBlank, List.cons_append, List.infix_cons_iff, List.cons_prefix_cons]
        rintro (⟨h, _⟩ | h)
        · exact hc h
        · exact hinner h
    cases hcases : line with
    | nil => exact absurd hcases (hne line (List.mem_cons_self ..))
    | cons c more =>
      have hc : '\n' ≠ c := fun h => hline (hcases ▸ h ▸ List.mem_cons_self ..)
      rw [hcases] at hno
      rw [NoBlank, unlines_cons, List.infix_cons_iff, List.cons_append, List.cons_prefix_cons,
        List.cons_prefix_cons]
      rintro (⟨_, h, _⟩ | h)
      · exact hc h
      · exact hno h

/-! ### Fields -/

/-- `str::split_once` at a character. -/
def splitOnce (sep : Char) : List Char → Option (List Char × List Char)
  | [] => none
  | c :: rest =>
    if c = sep then some ([], rest)
    else (splitOnce sep rest).map fun (before, after) => (c :: before, after)

theorem splitOnce_append {sep : Char} {before : List Char} (h : sep ∉ before) (after : List Char) :
    splitOnce sep (before ++ sep :: after) = some (before, after) := by
  induction before with
  | nil => simp [splitOnce]
  | cons c before ih =>
    have hc : c ≠ sep := fun hc => h (hc ▸ List.mem_cons_self ..)
    have hbefore := ih fun hmem => h (List.mem_cons_of_mem c hmem)
    simp [splitOnce, hc, hbefore]

theorem splitOnce_eq_none {sep : Char} {text : List Char} : splitOnce sep text = none ↔ sep ∉ text := by
  induction text with
  | nil => simp [splitOnce]
  | cons c rest ih =>
    rw [splitOnce, List.mem_cons, not_or, ← ih]
    by_cases hc : c = sep
    · simp [hc]
    · simp [hc, Ne.symm hc]

theorem of_splitOnce {sep : Char} {text before after : List Char}
    (h : splitOnce sep text = some (before, after)) : text = before ++ sep :: after := by
  induction text generalizing before with
  | nil => cases h
  | cons c rest ih =>
    unfold splitOnce at h
    split at h
    next hc =>
      simp only [Option.some.injEq, Prod.mk.injEq] at h
      obtain ⟨rfl, rfl⟩ := h
      rw [hc]
      rfl
    next hc =>
      simp only [Option.map_eq_some_iff, Prod.exists, Prod.mk.injEq] at h
      obtain ⟨inner, following, hrest, rfl, rfl⟩ := h
      rw [ih hrest]
      rfl

theorem notMem_of_splitOnce {sep : Char} {text before after : List Char}
    (h : splitOnce sep text = some (before, after)) : sep ∉ before := by
  induction text generalizing before with
  | nil => cases h
  | cons c rest ih =>
    rw [splitOnce] at h
    by_cases hc : c = sep
    · rw [if_pos hc] at h
      cases h
      exact List.not_mem_nil
    · rw [if_neg hc, Option.map_eq_some_iff] at h
      obtain ⟨⟨inner, following⟩, hrest, hsplit⟩ := h
      cases hsplit
      exact List.not_mem_cons_of_ne_of_not_mem (Ne.symm hc) (ih hrest)

/-! ### Numbers -/

/-- Digits only, at least one, and no zero before others. -/
def Canonical (digits : List Char) : Prop :=
  digits ≠ [] ∧ (∀ c ∈ digits, c.isDigit = true) ∧ (digits = ['0'] ∨ digits.head? ≠ some '0')

/-- What is asked of every character of a text is asked along the text. -/
instance (priority := 2000) decidableForallChar {p : Char → Prop} [DecidablePred p]
    (text : List Char) : Decidable (∀ c ∈ text, p c) :=
  List.decidableBAll p text

instance (digits : List Char) : Decidable (Canonical digits) :=
  inferInstanceAs (Decidable (_ ∧ _ ∧ _))

theorem head?_toDigits_ne_zero {n : Nat} (h : 0 < n) : (Nat.toDigits 10 n).head? ≠ some '0' := by
  induction n using Nat.strongRecOn with
  | ind n ih =>
    rw [Nat.toDigits_eq_if (by decide)]
    split
    next hlt =>
      intro hzero
      have hdigit := congrArg Char.toNat (Option.some.inj hzero)
      rw [Nat.toNat_digitChar_of_lt_ten hlt] at hdigit
      have : (48 : Nat) + n = 48 := hdigit
      omega
    next hge =>
      have hpos : 0 < n / 10 := by omega
      rw [List.head?_append_of_ne_nil _ Nat.toDigits_ne_nil]
      exact ih (n / 10) (by omega) hpos

theorem canonical_toDigits (n : Nat) : Canonical (Nat.toDigits 10 n) := by
  refine ⟨Nat.toDigits_ne_nil, ?_, ?_⟩
  · exact fun c hc => Nat.isDigit_of_mem_toDigits (by decide) (by decide) hc
  · by_cases h : n = 0
    · subst h
      exact .inl rfl
    · exact .inr (head?_toDigits_ne_zero (by omega))

theorem digitChar_of_isDigit {c : Char} (h : c.isDigit = true) :
    c.toNat - 48 < 10 ∧ Nat.digitChar (c.toNat - 48) = c := by
  have hbounds : 48 ≤ c.toNat ∧ c.toNat ≤ 57 := by
    simpa [Char.isDigit, UInt32.le_iff_toNat_le] using h
  refine ⟨by omega, ?_⟩
  apply Char.toNat_inj.mp
  rw [Nat.toNat_digitChar_of_lt_ten (by omega)]
  omega

/-- By the last digit: what stands before it is canonical too, or nothing. -/
theorem toDigits_ofDigitChars_pos {digits : List Char} (hne : digits ≠ [])
    (hdigit : ∀ c ∈ digits, c.isDigit = true) (hhead : digits.head? ≠ some '0') :
    0 < Nat.ofDigitChars 10 digits 0 ∧ Nat.toDigits 10 (Nat.ofDigitChars 10 digits 0) = digits := by
  induction digits using List.reverseRecOn with
  | nil => exact absurd rfl hne
  | append_singleton init c ih =>
    have hc := digitChar_of_isDigit (hdigit c (by simp))
    have hvalue : Nat.ofDigitChars 10 (init ++ [c]) 0 =
        10 * Nat.ofDigitChars 10 init 0 + (c.toNat - 48) := by
      rw [Nat.ofDigitChars_append, Nat.ofDigitChars_cons, Nat.ofDigitChars_nil]
      rfl
    rw [hvalue]
    by_cases hinit : init = []
    · subst hinit
      rw [Nat.ofDigitChars_nil, Nat.mul_zero, Nat.zero_add, Nat.toDigits_of_lt_base hc.1, hc.2]
      refine ⟨?_, rfl⟩
      by_contra hzero
      apply hhead
      have hval : c.toNat - 48 = 0 := by omega
      rw [hval] at hc
      rw [← hc.2]
      rfl
    · rw [List.head?_append_of_ne_nil _ hinit] at hhead
      obtain ⟨hpos, hdigits⟩ := ih hinit (fun d hd => hdigit d (by simp [hd])) hhead
      refine ⟨by omega, ?_⟩
      rw [← Nat.toDigits_append_toDigits (by decide) hpos hc.1, hdigits,
        Nat.toDigits_of_lt_base hc.1, hc.2]

/-- A canonical text is what its number is written as. -/
theorem toDigits_ofDigitChars {digits : List Char} (h : Canonical digits) :
    Nat.toDigits 10 (Nat.ofDigitChars 10 digits 0) = digits := by
  obtain ⟨hne, hdigit, hzero | hhead⟩ := h
  · subst hzero
    rfl
  · exact (toDigits_ofDigitChars_pos hne hdigit hhead).2

/-- No two numbers are written alike. -/
theorem toString_nat_inj {m n : Nat} (h : toString m = toString n) : m = n := by
  have hdigits : Nat.toDigits 10 m = Nat.toDigits 10 n := String.ofList_injective h
  have hread := congrArg (Nat.ofDigitChars 10 · 0) hdigits
  simpa [Nat.ofDigitChars_toDigits] using hread

/-- A number is written with the bytes of digits. -/
theorem utf8Encode_digit {c : Char} (h : c.isDigit = true) :
    ∃ k < 10, String.utf8EncodeChar c = String.utf8EncodeChar (Nat.digitChar k) := by
  obtain ⟨hlt, hchar⟩ := digitChar_of_isDigit h
  exact ⟨_, hlt, congrArg String.utf8EncodeChar hchar.symm⟩

end Attest.Library.Text
