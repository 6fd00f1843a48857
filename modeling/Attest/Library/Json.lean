import Mathlib.Data.List.Basic
import Mathlib.Algebra.BigOperators.Group.List.Basic
import Mathlib.Algebra.GroupWithZero.Nat
import Mathlib.Data.String.Basic

/-! JSON text, as `serde_json` writes it.

One writer with a layout: the compact one puts nothing between the parts of a
value, the pretty one breaks the line before every item and every closing bracket
and indents by two spaces. How long the text gets is the sum over its parts. -/
namespace Attest.Library

inductive Json
  | null
  | text (s : String)
  | number (n : Nat)
  | array (items : List Json)
  | object (fields : List (String × Json))

namespace Json

/-! ### Strings -/

/-- `\u00xx`, for the control characters without a short escape. -/
def unicodeEscape (n : Nat) : List Char :=
  ['\\', 'u', '0', '0', Nat.digitChar (n / 16), Nat.digitChar (n % 16)]

def escapeChar (c : Char) : List Char :=
  if c = '"' then ['\\', '"']
  else if c = '\\' then ['\\', '\\']
  else if c.toNat = 8 then ['\\', 'b']
  else if c.toNat = 9 then ['\\', 't']
  else if c.toNat = 10 then ['\\', 'n']
  else if c.toNat = 12 then ['\\', 'f']
  else if c.toNat = 13 then ['\\', 'r']
  else if c.toNat < 32 then unicodeEscape c.toNat
  else [c]

def escape (s : String) : String := String.ofList (s.toList.flatMap escapeChar)

def quote (s : String) : String := "\"" ++ escape s ++ "\""

/-! ### Values -/

/-- What goes before an item at a depth, and between a name and its value. -/
structure Layout where
  newline : Nat → String
  colon : String

def compactLayout : Layout := ⟨fun _ => "", ":"⟩

def prettyLayout : Layout := ⟨fun depth => "\n" ++ String.ofList (List.replicate (2 * depth) ' '), ": "⟩

mutual
def render (l : Layout) (depth : Nat) : Json → String
  | .null => "null"
  | .text s => quote s
  | .number n => toString n
  | .array items =>
    "[" ++ renderItems l (depth + 1) "" items ++
      (if items.isEmpty then "" else l.newline depth) ++ "]"
  | .object fields =>
    "\x7b" ++ renderFields l (depth + 1) "" fields ++
      (if fields.isEmpty then "" else l.newline depth) ++ "\x7d"

/-- The separator is empty before the first item. -/
def renderItems (l : Layout) (depth : Nat) (separator : String) : List Json → String
  | [] => ""
  | v :: rest =>
    separator ++ l.newline depth ++ render l depth v ++ renderItems l depth "," rest

def renderFields (l : Layout) (depth : Nat) (separator : String) : List (String × Json) → String
  | [] => ""
  | (name, v) :: rest =>
    separator ++ l.newline depth ++ quote name ++ l.colon ++ render l depth v ++
      renderFields l depth "," rest
end

/-- `serde_json::to_string`. -/
def compact (v : Json) : String := render compactLayout 0 v

/-- `serde_json::to_string_pretty`. -/
def pretty (v : Json) : String := render prettyLayout 0 v

/-! ### Sizes -/

/-- The bytes of a string between its quotes. -/
def escapedSize (s : String) : Nat := (escape s).utf8ByteSize

theorem utf8Len_unicodeEscape {n : Nat} (h : n < 32) : String.utf8Len (unicodeEscape n) = 6 := by
  have hdigit : ∀ d < 16, (Nat.digitChar d).utf8Size = 1 := by decide
  simp only [unicodeEscape, String.utf8Len_cons, String.utf8Len_nil, hdigit (n / 16) (by omega),
    hdigit (n % 16) (by omega)]
  rfl

theorem utf8Len_escapeChar_le (c : Char) : String.utf8Len (escapeChar c) ≤ 6 * c.utf8Size := by
  have hpos := Char.utf8Size_pos c
  have hshort : ∀ d : Char, d.utf8Size = 1 → String.utf8Len ['\\', d] ≤ 6 * c.utf8Size := by
    intro d hd
    have hslash : '\\'.utf8Size = 1 := by decide
    rw [String.utf8Len_cons, String.utf8Len_cons, String.utf8Len_nil, hd, hslash]
    omega
  unfold escapeChar
  split_ifs with _ _ _ _ _ _ _ hlow
  iterate 7 exact hshort _ (by decide)
  · rw [utf8Len_unicodeEscape hlow]
    omega
  · rw [String.utf8Len_cons, String.utf8Len_nil]
    omega

/-- A text becomes at most as many times longer as each of its characters does. -/
theorem escapedSize_le_of {s : String} {times : Nat}
    (h : ∀ c ∈ s.toList, String.utf8Len (escapeChar c) ≤ times * c.utf8Size) :
    escapedSize s ≤ times * s.utf8ByteSize := by
  have hchars : ∀ chars : List Char,
      (∀ c ∈ chars, String.utf8Len (escapeChar c) ≤ times * c.utf8Size) →
      String.utf8Len (chars.flatMap escapeChar) ≤ times * String.utf8Len chars := by
    intro chars hall
    induction chars with
    | nil => exact Nat.zero_le _
    | cons c rest ih =>
      rw [List.forall_mem_cons] at hall
      rw [List.flatMap_cons, String.utf8Len_append, String.utf8Len_cons, Nat.mul_add]
      have hc := hall.1
      have hrest := ih hall.2
      omega
  have hall := hchars s.toList h
  rw [← String.utf8ByteSize_ofList s.toList, String.ofList_toList] at hall
  rw [escapedSize, escape, String.utf8ByteSize_ofList]
  exact hall

/-- Escaping makes a text at most six times as long. -/
theorem escapedSize_le (s : String) : escapedSize s ≤ 6 * s.utf8ByteSize :=
  escapedSize_le_of fun c _ => utf8Len_escapeChar_le c

/-- Without control characters other than the line feed, at most twice. -/
theorem escapedSize_le_double {s : String} (h : ∀ c ∈ s.toList, c = '\n' ∨ 32 ≤ c.toNat) :
    escapedSize s ≤ 2 * s.utf8ByteSize := by
  refine escapedSize_le_of ?_
  intro c hmem
  have hpos := Char.utf8Size_pos c
  have hpair : ∀ d : Char, d.utf8Size = 1 → String.utf8Len ['\\', d] ≤ 2 * c.utf8Size := by
    intro d hd
    have hslash : '\\'.utf8Size = 1 := by decide
    rw [String.utf8Len_cons, String.utf8Len_cons, String.utf8Len_nil, hd, hslash]
    omega
  unfold escapeChar
  split_ifs with _ _ _ _ hline _ _ hlow
  iterate 7 exact hpair _ (by decide)
  · rcases h c hmem with rfl | hc
    · exact absurd rfl hline
    · omega
  · rw [String.utf8Len_cons, String.utf8Len_nil]
    omega

theorem sum_escapedSize_le (texts : List String) :
    (texts.map escapedSize).sum ≤ 6 * (texts.map String.utf8ByteSize).sum := by
  induction texts with
  | nil => exact Nat.le_refl 0
  | cons text rest ih =>
    have := escapedSize_le text
    rw [List.map_cons, List.map_cons, List.sum_cons, List.sum_cons]
    omega

/-- How many bytes a layout puts before an item at a depth, and between a name and its value. -/
structure Spacing where
  newline : Nat → Nat
  colon : Nat

def Layout.spacing (l : Layout) : Spacing :=
  ⟨fun depth => (l.newline depth).utf8ByteSize, l.colon.utf8ByteSize⟩

mutual
/-- The size of a value's text, without its text. -/
def renderSize (l : Spacing) (depth : Nat) : Json → Nat
  | .null => 4
  | .text s => escapedSize s + 2
  | .number n => (toString n).utf8ByteSize
  | .array items =>
    itemsSize l (depth + 1) items + (if items.isEmpty then 0 else l.newline depth) + 2
  | .object fields =>
    fieldsSize l (depth + 1) fields + (if fields.isEmpty then 0 else l.newline depth) + 2

/-- Every item but the first has a comma before it. -/
def itemsSize (l : Spacing) (depth : Nat) : List Json → Nat
  | [] => 0
  | v :: rest =>
    l.newline depth + renderSize l depth v + itemsSize l depth rest +
      (if rest.isEmpty then 0 else 1)

def fieldsSize (l : Spacing) (depth : Nat) : List (String × Json) → Nat
  | [] => 0
  | (name, v) :: rest =>
    l.newline depth + (escapedSize name + 2) + l.colon + renderSize l depth v +
      fieldsSize l depth rest + (if rest.isEmpty then 0 else 1)
end

theorem utf8ByteSize_quote (s : String) : (quote s).utf8ByteSize = escapedSize s + 2 := by
  simp only [quote, escapedSize, String.utf8ByteSize_append]
  show 1 + (escape s).utf8ByteSize + 1 = _
  omega

mutual
theorem utf8ByteSize_render (l : Layout) (depth : Nat) :
    (v : Json) → (render l depth v).utf8ByteSize = renderSize l.spacing depth v
  | .null => rfl
  | .text s => utf8ByteSize_quote s
  | .number n => rfl
  | .array items => by
    have hitems := utf8ByteSize_renderItems l (depth + 1) "" items
    simp only [render, renderSize, String.utf8ByteSize_append, hitems]
    cases items with
    | nil => rfl
    | cons v rest =>
      show 1 + (itemsSize l.spacing (depth + 1) (v :: rest) + 0) + (l.newline depth).utf8ByteSize + 1 =
        itemsSize l.spacing (depth + 1) (v :: rest) + (l.newline depth).utf8ByteSize + 2
      omega
  | .object fields => by
    have hfields := utf8ByteSize_renderFields l (depth + 1) "" fields
    simp only [render, renderSize, String.utf8ByteSize_append, hfields]
    cases fields with
    | nil => rfl
    | cons field rest =>
      show 1 + (fieldsSize l.spacing (depth + 1) (field :: rest) + 0) +
          (l.newline depth).utf8ByteSize + 1 =
        fieldsSize l.spacing (depth + 1) (field :: rest) + (l.newline depth).utf8ByteSize + 2
      omega

theorem utf8ByteSize_renderItems (l : Layout) (depth : Nat) (separator : String) :
    (items : List Json) → (renderItems l depth separator items).utf8ByteSize =
      itemsSize l.spacing depth items + (if items.isEmpty then 0 else separator.utf8ByteSize)
  | [] => rfl
  | v :: rest => by
    have hv := utf8ByteSize_render l depth v
    have hrest := utf8ByteSize_renderItems l depth "," rest
    simp only [renderItems, itemsSize, String.utf8ByteSize_append, hv, hrest]
    show separator.utf8ByteSize + (l.newline depth).utf8ByteSize + _ + (_ + ite _ 0 1) =
      (l.newline depth).utf8ByteSize + _ + _ + ite _ 0 1 + separator.utf8ByteSize
    omega

theorem utf8ByteSize_renderFields (l : Layout) (depth : Nat) (separator : String) :
    (fields : List (String × Json)) → (renderFields l depth separator fields).utf8ByteSize =
      fieldsSize l.spacing depth fields + (if fields.isEmpty then 0 else separator.utf8ByteSize)
  | [] => rfl
  | (name, v) :: rest => by
    have hv := utf8ByteSize_render l depth v
    have hrest := utf8ByteSize_renderFields l depth "," rest
    simp only [renderFields, fieldsSize, String.utf8ByteSize_append, hv, hrest,
      utf8ByteSize_quote]
    show separator.utf8ByteSize + (l.newline depth).utf8ByteSize + _ + l.colon.utf8ByteSize + _ +
        (_ + ite _ 0 1) =
      (l.newline depth).utf8ByteSize + _ + l.colon.utf8ByteSize + _ + _ + ite _ 0 1 +
        separator.utf8ByteSize
    omega
end

/-- The items of an array one by one. -/
theorem itemsSize_map {α : Type} (l : Spacing) (depth : Nat) (f : α → Json) (items : List α) :
    itemsSize l depth (items.map f) =
      (items.map fun a => l.newline depth + renderSize l depth (f a)).sum + (items.length - 1) := by
  induction items with
  | nil => rfl
  | cons a rest ih =>
    rw [List.map_cons, itemsSize, ih]
    simp only [List.map_cons, List.sum_cons, List.length_cons]
    cases rest with
    | nil => simp
    | cons b rest =>
      simp only [List.map_cons, List.sum_cons, List.length_cons, List.isEmpty_cons,
        Bool.false_eq_true, if_false]
      omega

def compactSpacing : Spacing := ⟨fun _ => 0, 1⟩

def prettySpacing : Spacing := ⟨fun depth => 2 * depth + 1, 2⟩

theorem utf8ByteSize_compact (v : Json) :
    (compact v).utf8ByteSize = renderSize compactSpacing 0 v :=
  utf8ByteSize_render compactLayout 0 v

theorem utf8Len_replicate_space (n : Nat) : String.utf8Len (List.replicate n ' ') = n := by
  induction n with
  | zero => rfl
  | succ n ih =>
    rw [List.replicate_succ, String.utf8Len_cons, ih]
    rfl

theorem spacing_prettyLayout : prettyLayout.spacing = prettySpacing := by
  unfold Layout.spacing prettyLayout prettySpacing
  congr 1
  funext depth
  have hspaces : (String.ofList (List.replicate (2 * depth) ' ')).utf8ByteSize = 2 * depth := by
    rw [String.utf8ByteSize_ofList, utf8Len_replicate_space]
  rw [String.utf8ByteSize_append, hspaces]
  exact Nat.add_comm 1 (2 * depth)

theorem utf8ByteSize_pretty (v : Json) : (pretty v).utf8ByteSize = renderSize prettySpacing 0 v := by
  rw [← spacing_prettyLayout]
  exact utf8ByteSize_render prettyLayout 0 v

example : compact (.object [("a", .array [.number 1, .text "x\n"]), ("b", .array [])]) =
    "\x7b\"a\":[1,\"x\\n\"],\"b\":[]\x7d" := by decide +kernel

example : pretty (.object [("a", .array [.number 1, .text "x"]), ("b", .array [])]) =
    "\x7b\n  \"a\": [\n    1,\n    \"x\"\n  ],\n  \"b\": []\n\x7d" := by decide +kernel

end Json

end Attest.Library
