import Attest.Library.Json
import Attest.Library.SelfDelimiting

/-! The compact text of a JSON value tells the value.

A text is read off the front of whatever follows it, save that a digit may not follow a number. So
two values with one text are one value (`compact_injective`). -/
namespace Attest.Library.Json

/-! ### The text, character by character -/

def quoted (s : String) : List Char := '"' :: (s.toList.flatMap escapeChar ++ ['"'])

mutual
def chars : Json → List Char
  | .null => ['n', 'u', 'l', 'l']
  | .text s => quoted s
  | .number n => Nat.toDigits 10 n
  | .array [] => ['[', ']']
  | .array (v :: rest) => '[' :: (chars v ++ moreItems rest)
  | .object [] => ['\x7b', '\x7d']
  | .object ((name, v) :: rest) => '\x7b' :: (quoted name ++ ':' :: (chars v ++ moreFields rest))

/-- What follows an item. -/
def moreItems : List Json → List Char
  | [] => [']']
  | v :: rest => ',' :: (chars v ++ moreItems rest)

/-- What follows a field. -/
def moreFields : List (String × Json) → List Char
  | [] => ['\x7d']
  | (name, v) :: rest => ',' :: (quoted name ++ ':' :: (chars v ++ moreFields rest))
end

theorem toList_quote (s : String) : (quote s).toList = quoted s := by
  simp [quote, escape, quoted]

theorem newline_compact (depth : Nat) : compactLayout.newline depth = "" := rfl

theorem colon_compact : compactLayout.colon = ":" := rfl

mutual
theorem toList_render (depth : Nat) :
    (v : Json) → (render compactLayout depth v).toList = chars v
  | .null => by simp [render, chars]
  | .text s => toList_quote s
  | .number n => Nat.toList_repr
  | .array [] => by simp [render, renderItems, chars]
  | .array (v :: rest) => by
    have hv := toList_render (depth + 1) v
    have hrest := toList_renderItems (depth + 1) rest
    simp [render, renderItems, chars, newline_compact, hv, ← hrest]
  | .object [] => by simp [render, renderFields, chars]
  | .object ((name, v) :: rest) => by
    have hv := toList_render (depth + 1) v
    have hrest := toList_renderFields (depth + 1) rest
    simp [render, renderFields, chars, newline_compact, colon_compact, toList_quote, hv, ← hrest]

theorem toList_renderItems (depth : Nat) : (items : List Json) →
    (renderItems compactLayout depth "," items).toList ++ [']'] = moreItems items
  | [] => rfl
  | v :: rest => by
    have hv := toList_render depth v
    have hrest := toList_renderItems depth rest
    simp [renderItems, moreItems, newline_compact, hv, ← hrest]

theorem toList_renderFields (depth : Nat) : (fields : List (String × Json)) →
    (renderFields compactLayout depth "," fields).toList ++ ['\x7d'] = moreFields fields
  | [] => rfl
  | (name, v) :: rest => by
    have hv := toList_render depth v
    have hrest := toList_renderFields depth rest
    simp [renderFields, moreFields, newline_compact, colon_compact, toList_quote, hv, ← hrest]
end

theorem toList_compact (v : Json) : (compact v).toList = chars v := toList_render 0 v

/-! ### Escapes -/

def hexValue (c : Char) : Nat := if c.isDigit then c.toNat - 48 else c.toNat - 87

/-- The character that an escape of two stands for. -/
def unescapeShort : Char → Char
  | 'b' => Char.ofNat 8
  | 't' => Char.ofNat 9
  | 'n' => Char.ofNat 10
  | 'f' => Char.ofNat 12
  | 'r' => Char.ofNat 13
  | c => c

/-- The first character of an escaped text, and what follows it. -/
def unescape : List Char → Option (Char × List Char)
  | '\\' :: 'u' :: _ :: _ :: high :: low :: rest =>
    some (Char.ofNat (16 * hexValue high + hexValue low), rest)
  | '\\' :: c :: rest => some (unescapeShort c, rest)
  | c :: rest => some (c, rest)
  | [] => none

theorem hexValue_digitChar : ∀ n < 32,
    16 * hexValue (Nat.digitChar (n / 16)) + hexValue (Nat.digitChar (n % 16)) = n := by decide

theorem unescape_plain {c : Char} (h : c ≠ '\\') (rest : List Char) :
    unescape (c :: rest) = some (c, rest) := by
  unfold unescape
  split
  next heq => exact absurd (List.cons.inj heq).1 h
  next heq => exact absurd (List.cons.inj heq).1 h
  next heq =>
    obtain ⟨rfl, rfl⟩ := List.cons.inj heq
    rfl
  next heq => cases heq

theorem unescape_escapeChar (c : Char) (rest : List Char) :
    unescape (escapeChar c ++ rest) = some (c, rest) := by
  have hback : ∀ n, c.toNat = n → Char.ofNat n = c := fun n hn => hn ▸ Char.ofNat_toNat c
  unfold escapeChar
  split_ifs with hquote hslash h8 h9 h10 h12 h13 hlow
  · rw [hquote]
    rfl
  · rw [hslash]
    rfl
  · exact congrArg (fun d => some (d, rest)) (hback 8 h8)
  · exact congrArg (fun d => some (d, rest)) (hback 9 h9)
  · exact congrArg (fun d => some (d, rest)) (hback 10 h10)
  · exact congrArg (fun d => some (d, rest)) (hback 12 h12)
  · exact congrArg (fun d => some (d, rest)) (hback 13 h13)
  · exact congrArg (fun d => some (d, rest)) (hback _ (hexValue_digitChar c.toNat hlow).symm)
  · exact unescape_plain hslash rest

/-- An escape says which character it stands for, and where it ends. -/
theorem selfDelimiting_escapeChar : SelfDelimiting escapeChar := by
  intro c c' rest rest' h
  have hsame := congrArg unescape h
  rw [unescape_escapeChar, unescape_escapeChar] at hsame
  exact Prod.mk.inj (Option.some.inj hsame)

theorem escapeChar_ne_quote (c : Char) (rest rest' : List Char) :
    escapeChar c ++ rest ≠ '"' :: rest' := by
  intro h
  have hsame := congrArg unescape h
  rw [unescape_escapeChar, unescape_plain (by decide)] at hsame
  obtain ⟨rfl, rfl⟩ := Prod.mk.inj (Option.some.inj hsame)
  have hslash := (List.cons.inj h).1
  exact absurd hslash (by decide)

/-- A text between quotes ends where it ends. -/
theorem selfDelimiting_quoted : SelfDelimiting quoted := by
  have hchars : ∀ chars chars' rest rest' : List Char,
      chars.flatMap escapeChar ++ '"' :: rest = chars'.flatMap escapeChar ++ '"' :: rest' →
        chars = chars' ∧ rest = rest' := by
    intro chars
    induction chars with
    | nil =>
      intro chars' rest rest' h
      cases chars' with
      | nil => exact ⟨rfl, (List.cons.inj h).2⟩
      | cons c tail =>
        rw [List.flatMap_cons, List.append_assoc] at h
        exact absurd h.symm (escapeChar_ne_quote c _ _)
    | cons c tail ih =>
      intro chars' rest rest' h
      rw [List.flatMap_cons, List.append_assoc] at h
      cases chars' with
      | nil => exact absurd h (escapeChar_ne_quote c _ _)
      | cons c' tail' =>
        rw [List.flatMap_cons, List.append_assoc] at h
        obtain ⟨rfl, htail⟩ := selfDelimiting_escapeChar c c' _ _ h
        obtain ⟨rfl, hrest⟩ := ih tail' rest rest' htail
        exact ⟨rfl, hrest⟩
  intro s s' rest rest' h
  simp only [quoted, List.cons_append, List.append_assoc, List.nil_append, List.cons.injEq,
    true_and] at h
  obtain ⟨hs, hrest⟩ := hchars _ _ _ _ h
  exact ⟨String.toList_inj.mp hs, hrest⟩

/-! ### One text, one value -/

/-- What may follow a number. -/
def Ends (rest : List Char) : Prop := ∀ c ∈ rest.head?, c.isDigit = false

theorem ends_nil : Ends [] := by
  intro c h
  cases h

theorem ends_cons {c : Char} (h : c.isDigit = false) (rest : List Char) : Ends (c :: rest) := by
  intro other hother
  rw [List.head?_cons, Option.mem_some_iff] at hother
  exact hother ▸ h

theorem ends_moreItems (items : List Json) (rest : List Char) : Ends (moreItems items ++ rest) := by
  cases items with
  | nil => exact ends_cons (by decide) _
  | cons v items => exact ends_cons (by decide) _

theorem ends_moreFields (fields : List (String × Json)) (rest : List Char) :
    Ends (moreFields fields ++ rest) := by
  cases fields with
  | nil => exact ends_cons (by decide) _
  | cons field fields =>
    obtain ⟨name, v⟩ := field
    exact ends_cons (by decide) _

/-- A number is read up to what is no digit. -/
theorem takeWhile_toDigits {n : Nat} {rest : List Char} (h : Ends rest) :
    (Nat.toDigits 10 n ++ rest).takeWhile Char.isDigit = Nat.toDigits 10 n := by
  have hdigits : ∀ c ∈ Nat.toDigits 10 n, c.isDigit = true := fun c hc =>
    Nat.isDigit_of_mem_toDigits (by decide) (by decide) hc
  rw [List.takeWhile_append_of_pos hdigits]
  have hnone : rest.takeWhile Char.isDigit = [] := by
    cases rest with
    | nil => rfl
    | cons c tail =>
      have hc : c.isDigit = false := h c rfl
      rw [List.takeWhile_cons, hc]
      rfl
  rw [hnone, List.append_nil]

theorem toDigits_inj {n n' : Nat} {rest rest' : List Char} (hends : Ends rest) (hends' : Ends rest')
    (h : Nat.toDigits 10 n ++ rest = Nat.toDigits 10 n' ++ rest') : n = n' ∧ rest = rest' := by
  have hdigits : Nat.toDigits 10 n = Nat.toDigits 10 n' := by
    rw [← takeWhile_toDigits hends, h, takeWhile_toDigits hends']
  rw [hdigits] at h
  refine ⟨?_, List.append_cancel_left h⟩
  rw [← @Nat.ofDigitChars_ten_toDigits n, hdigits, Nat.ofDigitChars_ten_toDigits]

/-- How a value begins. -/
inductive Shape
  | word
  | text
  | number
  | array
  | object
deriving DecidableEq

def shape : Json → Shape
  | .null => .word
  | .text _ => .text
  | .number _ => .number
  | .array _ => .array
  | .object _ => .object

def shapeOf (c : Char) : Option Shape :=
  if c = 'n' then some .word
  else if c = '"' then some .text
  else if c.isDigit then some .number
  else if c = '[' then some .array
  else if c = '{' then some .object
  else none

/-- The first character tells the shape. -/
theorem chars_eq_cons (v : Json) : ∃ c rest, chars v = c :: rest ∧ shapeOf c = some (shape v) := by
  cases v with
  | null => exact ⟨_, _, rfl, rfl⟩
  | text s => exact ⟨_, _, rfl, rfl⟩
  | number n =>
    obtain ⟨c, rest, hcons⟩ := List.exists_cons_of_ne_nil (Nat.toDigits_ne_nil : Nat.toDigits 10 n ≠ [])
    have hdigit : c.isDigit = true := Nat.isDigit_of_mem_toDigits (by decide) (by decide)
      (show c ∈ Nat.toDigits 10 n from hcons ▸ List.mem_cons_self)
    refine ⟨c, rest, hcons, ?_⟩
    have hn : c ≠ 'n' := by
      intro h
      rw [h] at hdigit
      exact absurd hdigit (by decide)
    have hquote : c ≠ '"' := by
      intro h
      rw [h] at hdigit
      exact absurd hdigit (by decide)
    rw [shapeOf, if_neg hn, if_neg hquote, if_pos hdigit]
    rfl
  | array items =>
    cases items with
    | nil => exact ⟨_, _, rfl, rfl⟩
    | cons v rest => exact ⟨_, _, rfl, rfl⟩
  | object fields =>
    cases fields with
    | nil => exact ⟨_, _, rfl, rfl⟩
    | cons field rest =>
      obtain ⟨name, v⟩ := field
      exact ⟨_, _, rfl, rfl⟩

theorem shape_eq {v v' : Json} {rest rest' : List Char} (h : chars v ++ rest = chars v' ++ rest') :
    shape v = shape v' := by
  obtain ⟨c, tail, hchars, hshape⟩ := chars_eq_cons v
  obtain ⟨c', tail', hchars', hshape'⟩ := chars_eq_cons v'
  rw [hchars, hchars'] at h
  have hc : c = c' := (List.cons.inj h).1
  rw [hc, hshape'] at hshape
  exact (Option.some.inj hshape).symm

theorem chars_ne {v : Json} {c : Char} {rest rest' : List Char} (h : shapeOf c = none) :
    chars v ++ rest ≠ c :: rest' := by
  intro hsame
  obtain ⟨c', tail, hchars, hshape⟩ := chars_eq_cons v
  rw [hchars] at hsame
  have hc : c' = c := (List.cons.inj hsame).1
  rw [hc, h] at hshape
  cases hshape

mutual
/-- A value is read off the front of what follows it. -/
theorem chars_inj : (v v' : Json) → ∀ rest rest' : List Char, Ends rest → Ends rest' →
    chars v ++ rest = chars v' ++ rest' → v = v' ∧ rest = rest'
  | .null, v', rest, rest', _, _, h => by
    have hshape := shape_eq h
    cases v' with
    | null => exact ⟨rfl, List.append_cancel_left h⟩
    | text s => cases hshape
    | number n => cases hshape
    | array items => cases hshape
    | object fields => cases hshape
  | .text s, v', rest, rest', _, _, h => by
    have hshape := shape_eq h
    cases v' with
    | text s' =>
      obtain ⟨rfl, hrest⟩ := selfDelimiting_quoted s s' _ _ h
      exact ⟨rfl, hrest⟩
    | null => cases hshape
    | number n => cases hshape
    | array items => cases hshape
    | object fields => cases hshape
  | .number n, v', rest, rest', hends, hends', h => by
    have hshape := shape_eq h
    cases v' with
    | number n' =>
      obtain ⟨rfl, hrest⟩ := toDigits_inj hends hends' h
      exact ⟨rfl, hrest⟩
    | null => cases hshape
    | text s => cases hshape
    | array items => cases hshape
    | object fields => cases hshape
  | .array items, v', rest, rest', _, _, h => by
    have hshape := shape_eq h
    cases v' with
    | array items' =>
      obtain ⟨rfl, hrest⟩ := items_inj items items' rest rest' h
      exact ⟨rfl, hrest⟩
    | null => cases hshape
    | text s => cases hshape
    | number n => cases hshape
    | object fields => cases hshape
  | .object fields, v', rest, rest', _, _, h => by
    have hshape := shape_eq h
    cases v' with
    | object fields' =>
      obtain ⟨rfl, hrest⟩ := fields_inj fields fields' rest rest' h
      exact ⟨rfl, hrest⟩
    | null => cases hshape
    | text s => cases hshape
    | number n => cases hshape
    | array items => cases hshape

theorem items_inj : (items items' : List Json) → ∀ rest rest' : List Char,
    chars (.array items) ++ rest = chars (.array items') ++ rest' → items = items' ∧ rest = rest'
  | [], items', rest, rest', h => by
    cases items' with
    | nil => exact ⟨rfl, List.append_cancel_left h⟩
    | cons v' items' =>
      simp only [chars, List.cons_append, List.nil_append, List.cons.injEq, true_and,
        List.append_assoc] at h
      exact absurd h.symm (chars_ne rfl)
  | v :: items, items', rest, rest', h => by
    cases items' with
    | nil =>
      simp only [chars, List.cons_append, List.nil_append, List.cons.injEq, true_and,
        List.append_assoc] at h
      exact absurd h (chars_ne rfl)
    | cons v' items' =>
      simp only [chars, List.cons_append, List.cons.injEq, true_and, List.append_assoc] at h
      obtain ⟨rfl, hmore⟩ := chars_inj v v' _ _ (ends_moreItems _ _) (ends_moreItems _ _) h
      obtain ⟨rfl, hrest⟩ := moreItems_inj items items' rest rest' hmore
      exact ⟨rfl, hrest⟩

theorem moreItems_inj : (items items' : List Json) → ∀ rest rest' : List Char,
    moreItems items ++ rest = moreItems items' ++ rest' → items = items' ∧ rest = rest'
  | [], items', rest, rest', h => by
    cases items' with
    | nil => exact ⟨rfl, List.append_cancel_left h⟩
    | cons v' items' => exact absurd (List.cons.inj h).1 (by decide)
  | v :: items, items', rest, rest', h => by
    cases items' with
    | nil => exact absurd (List.cons.inj h).1 (by decide)
    | cons v' items' =>
      simp only [moreItems, List.cons_append, List.cons.injEq, true_and, List.append_assoc] at h
      obtain ⟨rfl, hmore⟩ := chars_inj v v' _ _ (ends_moreItems _ _) (ends_moreItems _ _) h
      obtain ⟨rfl, hrest⟩ := moreItems_inj items items' rest rest' hmore
      exact ⟨rfl, hrest⟩

theorem fields_inj : (fields fields' : List (String × Json)) → ∀ rest rest' : List Char,
    chars (.object fields) ++ rest = chars (.object fields') ++ rest' →
      fields = fields' ∧ rest = rest'
  | [], fields', rest, rest', h => by
    cases fields' with
    | nil => exact ⟨rfl, List.append_cancel_left h⟩
    | cons field' fields' =>
      obtain ⟨name', v'⟩ := field'
      simp only [chars, quoted, List.cons_append, List.nil_append, List.cons.injEq, true_and] at h
      exact absurd h.1 (by decide)
  | (name, v) :: fields, fields', rest, rest', h => by
    cases fields' with
    | nil =>
      simp only [chars, quoted, List.cons_append, List.nil_append, List.cons.injEq, true_and] at h
      exact absurd h.1 (by decide)
    | cons field' fields' =>
      obtain ⟨name', v'⟩ := field'
      simp only [chars, List.cons_append, List.cons.injEq, true_and, List.append_assoc] at h
      obtain ⟨rfl, hvalue⟩ := selfDelimiting_quoted name name' _ _ h
      obtain ⟨rfl, hmore⟩ := chars_inj v v' _ _ (ends_moreFields _ _) (ends_moreFields _ _)
        (List.cons.inj hvalue).2
      obtain ⟨rfl, hrest⟩ := moreFields_inj fields fields' rest rest' hmore
      exact ⟨rfl, hrest⟩

theorem moreFields_inj : (fields fields' : List (String × Json)) → ∀ rest rest' : List Char,
    moreFields fields ++ rest = moreFields fields' ++ rest' → fields = fields' ∧ rest = rest'
  | [], fields', rest, rest', h => by
    cases fields' with
    | nil => exact ⟨rfl, List.append_cancel_left h⟩
    | cons field' fields' =>
      obtain ⟨name', v'⟩ := field'
      exact absurd (List.cons.inj h).1 (by decide)
  | (name, v) :: fields, fields', rest, rest', h => by
    cases fields' with
    | nil => exact absurd (List.cons.inj h).1 (by decide)
    | cons field' fields' =>
      obtain ⟨name', v'⟩ := field'
      simp only [moreFields, List.cons_append, List.cons.injEq, true_and, List.append_assoc] at h
      obtain ⟨rfl, hvalue⟩ := selfDelimiting_quoted name name' _ _ h
      obtain ⟨rfl, hmore⟩ := chars_inj v v' _ _ (ends_moreFields _ _) (ends_moreFields _ _)
        (List.cons.inj hvalue).2
      obtain ⟨rfl, hrest⟩ := moreFields_inj fields fields' rest rest' hmore
      exact ⟨rfl, hrest⟩
end

/-- **Two values with one compact text are one value.** -/
theorem compact_injective : Function.Injective compact := by
  intro v v' h
  have hchars : chars v ++ [] = chars v' ++ [] := by
    rw [← toList_compact, ← toList_compact, h]
  exact (chars_inj v v' [] [] ends_nil ends_nil hchars).1

end Attest.Library.Json
