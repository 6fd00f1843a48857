import Mathlib.Data.List.Basic
import Mathlib.Data.String.Basic

/-! Base64 of the standard alphabet, with padding.

Three bytes are four symbols of six bits; one or two bytes left over are padded with
`=` to four. The reader takes only text the writer could have written: padding is
where it must be and the bits under it are zero. -/
namespace Attest.Library.Base64

/-! ### Symbols -/

/-- The symbol of six bits. -/
def symbol (n : Nat) : Char :=
  if n < 26 then Char.ofNat (n + 65)
  else if n < 52 then Char.ofNat (n + 71)
  else if n < 62 then Char.ofNat (n - 4)
  else if n = 62 then '+'
  else '/'

def value (c : Char) : Option Nat :=
  if 'A' ≤ c ∧ c ≤ 'Z' then some (c.toNat - 65)
  else if 'a' ≤ c ∧ c ≤ 'z' then some (c.toNat - 71)
  else if '0' ≤ c ∧ c ≤ '9' then some (c.toNat + 4)
  else if c = '+' then some 62
  else if c = '/' then some 63
  else none

theorem value_symbol {n : Nat} (h : n < 64) : value (symbol n) = some n := by
  revert n
  decide

theorem symbol_ne_pad {n : Nat} (h : n < 64) : symbol n ≠ '=' := by
  revert n
  decide

/-! ### Writing and reading -/

def encodeChars : List UInt8 → List Char
  | [] => []
  | [a] => [symbol (a.toNat / 4), symbol (a.toNat % 4 * 16), '=', '=']
  | [a, b] =>
    [symbol (a.toNat / 4), symbol (a.toNat % 4 * 16 + b.toNat / 16), symbol (b.toNat % 16 * 4), '=']
  | a :: b :: c :: rest =>
    symbol (a.toNat / 4) :: symbol (a.toNat % 4 * 16 + b.toNat / 16) ::
      symbol (b.toNat % 16 * 4 + c.toNat / 64) :: symbol (c.toNat % 64) :: encodeChars rest

/-- The last four characters when they are padded. -/
def decodePadded (a b c : Char) : Option (List UInt8) := do
  let a ← value a
  let b ← value b
  if c = '=' then
    if b % 16 = 0 then some [UInt8.ofNat (a * 4 + b / 16)] else none
  else
    let c ← value c
    if c % 4 = 0 then some [UInt8.ofNat (a * 4 + b / 16), UInt8.ofNat (b % 16 * 16 + c / 4)]
    else none

def decodeGroup (a b c d : Char) : Option (List UInt8) := do
  let a ← value a
  let b ← value b
  let c ← value c
  let d ← value d
  return [UInt8.ofNat (a * 4 + b / 16), UInt8.ofNat (b % 16 * 16 + c / 4),
    UInt8.ofNat (c % 4 * 64 + d)]

def decodeChars : List Char → Option (List UInt8)
  | [] => some []
  | a :: b :: c :: d :: rest =>
    if d = '=' then if rest = [] then decodePadded a b c else none
    else do
      let bytes ← decodeGroup a b c d
      let more ← decodeChars rest
      return bytes ++ more
  | _ => none

/-- `STANDARD.encode`. -/
def encode (bytes : List UInt8) : String := String.ofList (encodeChars bytes)

/-- `STANDARD.decode`. -/
def decode (text : String) : Option (List UInt8) := decodeChars text.toList

/-! ### Round trip -/

theorem decodeChars_encodeChars (bytes : List UInt8) :
    decodeChars (encodeChars bytes) = some bytes := by
  induction bytes using encodeChars.induct with
  | case1 => rfl
  | case2 a =>
    have ha := a.toNat_lt
    rw [encodeChars, decodeChars, if_pos rfl, if_pos rfl, decodePadded,
      value_symbol (by omega), value_symbol (by omega)]
    have hbits : a.toNat % 4 * 16 % 16 = 0 := by omega
    have hbyte : a.toNat / 4 * 4 + a.toNat % 4 * 16 / 16 = a.toNat := by omega
    simp only [Option.bind_eq_bind, Option.bind_some, hbits, hbyte, if_true, UInt8.ofNat_toNat]
  | case3 a b =>
    have ha := a.toNat_lt
    have hb := b.toNat_lt
    rw [encodeChars, decodeChars, if_pos rfl, if_pos rfl, decodePadded,
      value_symbol (by omega), value_symbol (by omega)]
    have hfirst : a.toNat / 4 * 4 + (a.toNat % 4 * 16 + b.toNat / 16) / 16 = a.toNat := by omega
    have hsecond :
        (a.toNat % 4 * 16 + b.toNat / 16) % 16 * 16 + b.toNat % 16 * 4 / 4 = b.toNat := by omega
    have hbits : b.toNat % 16 * 4 % 4 = 0 := by omega
    have hpad : symbol (b.toNat % 16 * 4) ≠ '=' := symbol_ne_pad (by omega)
    simp only [Option.bind_eq_bind, Option.bind_some, if_neg hpad,
      value_symbol (show b.toNat % 16 * 4 < 64 by omega), hbits, if_true, hfirst, hsecond,
      UInt8.ofNat_toNat]
  | case4 a b c rest ih =>
    have ha := a.toNat_lt
    have hb := b.toNat_lt
    have hc := c.toNat_lt
    have hfirst : a.toNat / 4 * 4 + (a.toNat % 4 * 16 + b.toNat / 16) / 16 = a.toNat := by omega
    have hsecond : (a.toNat % 4 * 16 + b.toNat / 16) % 16 * 16 +
        (b.toNat % 16 * 4 + c.toNat / 64) / 4 = b.toNat := by omega
    have hthird : (b.toNat % 16 * 4 + c.toNat / 64) % 4 * 64 + c.toNat % 64 = c.toNat := by omega
    rw [encodeChars, decodeChars, if_neg (symbol_ne_pad (by omega)), decodeGroup,
      value_symbol (by omega), value_symbol (by omega), value_symbol (by omega),
      value_symbol (by omega), ih]
    simp only [Option.bind_eq_bind, Option.bind_some, Option.pure_def, hfirst, hsecond, hthird,
      UInt8.ofNat_toNat, List.cons_append, List.nil_append]

theorem decode_encode (bytes : List UInt8) : decode (encode bytes) = some bytes := by
  rw [decode, encode, String.toList_ofList, decodeChars_encodeChars]

/-! ### The text -/

/-- The characters the writer uses. -/
def isBase64Char (c : Char) : Bool :=
  decide ('A' ≤ c ∧ c ≤ 'Z' ∨ 'a' ≤ c ∧ c ≤ 'z' ∨ '0' ≤ c ∧ c ≤ '9' ∨ c = '+' ∨ c = '/' ∨ c = '=')

theorem isBase64Char_symbol {n : Nat} (h : n < 64) : isBase64Char (symbol n) = true := by
  revert n
  decide

theorem encodeChars_all (bytes : List UInt8) : (encodeChars bytes).all isBase64Char = true := by
  have hpad : isBase64Char '=' = true := by decide
  induction bytes using encodeChars.induct with
  | case1 => rfl
  | case2 a =>
    have ha := a.toNat_lt
    simp [encodeChars, hpad, isBase64Char_symbol (show a.toNat / 4 < 64 by omega),
      isBase64Char_symbol (show a.toNat % 4 * 16 < 64 by omega)]
  | case3 a b =>
    have ha := a.toNat_lt
    have hb := b.toNat_lt
    simp [encodeChars, hpad, isBase64Char_symbol (show a.toNat / 4 < 64 by omega),
      isBase64Char_symbol (show a.toNat % 4 * 16 + b.toNat / 16 < 64 by omega),
      isBase64Char_symbol (show b.toNat % 16 * 4 < 64 by omega)]
  | case4 a b c rest ih =>
    have ha := a.toNat_lt
    have hb := b.toNat_lt
    have hc := c.toNat_lt
    simp [encodeChars, isBase64Char_symbol (show a.toNat / 4 < 64 by omega),
      isBase64Char_symbol (show a.toNat % 4 * 16 + b.toNat / 16 < 64 by omega),
      isBase64Char_symbol (show b.toNat % 16 * 4 + c.toNat / 64 < 64 by omega),
      isBase64Char_symbol (show c.toNat % 64 < 64 by omega), ih]

theorem length_encodeChars (bytes : List UInt8) :
    (encodeChars bytes).length = 4 * ((bytes.length + 2) / 3) := by
  induction bytes using encodeChars.induct with
  | case1 => rfl
  | case2 a => simp [encodeChars]
  | case3 a b => simp [encodeChars]
  | case4 a b c rest ih =>
    simp only [encodeChars, List.length_cons, ih]
    omega

theorem encodeChars_ne_nil {bytes : List UInt8} (h : bytes ≠ []) : encodeChars bytes ≠ [] := by
  cases bytes using encodeChars.fun_cases_unfolding with
  | case1 => exact absurd rfl h
  | case2 a => simp
  | case3 a b => simp
  | case4 a b c rest => simp

example : encode [0x66, 0x6f, 0x6f, 0x62] = "Zm9vYg==" := by decide

end Attest.Library.Base64
