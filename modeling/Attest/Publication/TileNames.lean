import Attest.Library.Text
import Attest.Publication.Tiles
import Mathlib.Data.Nat.Digits.Lemmas
import Mathlib.Data.Option.Basic

/-! The names of tiles.

A name is a level, the index in groups of three digits, and a width where the tile is partial.
`readTileName` reads it back: all groups but the last follow an `x`, no number has a zero too many,
and a full tile names no width. `tile_names` says that the names that are read are the ones that are
written, so two tiles have two names. -/
namespace Attest.Publication.Tiles
open Library

/-! ### Reading a name -/

/-- Three digits. -/
def readGroup (text : List Char) : Option Nat :=
  if text.length = 3 ∧ ∀ c ∈ text, c.isDigit = true then some (Nat.ofDigitChars 10 text 0) else none

def readUpperGroup : List Char → Option Nat
  | 'x' :: group => readGroup group
  | _ => none

def readNumber (digits : List Char) : Option Nat :=
  if Text.Canonical digits then some (Nat.ofDigitChars 10 digits 0) else none

/-- The index of these groups, the last one first. -/
def readIndex : List (List Char) → Option Nat
  | [] => none
  | last :: upper => do
    let low ← readGroup last
    let high ← upper.mapM readUpperGroup
    guard (high.getLast? ≠ some 0)
    let index := low + 1000 * Nat.ofDigits 1000 high
    guard (index < 2 ^ 64)
    return index

/-- A group before its `.p`. -/
def partialGroup (group : List Char) : Option (List Char) :=
  match group.reverse with
  | 'p' :: '.' :: digits => some digits.reverse
  | _ => none

/-- The index and the width, from the parts of a name behind its level, the last one first. -/
def readTile : List (List Char) → Option (Nat × Nat)
  | [] => none
  | [group] => (readIndex [group]).map fun index => (index, 256)
  | last :: next :: upper =>
    match partialGroup next with
    | none => (readIndex (last :: next :: upper)).map fun index => (index, 256)
    | some group => do
      let index ← readIndex (group :: upper)
      let width ← readNumber last
      guard (1 ≤ width ∧ width < 256)
      return (index, width)

def readTileName (name : String) : Option (Nat × Nat × Nat) :=
  match name.toList.splitOn '/' with
  | tile :: level :: parts => do
    guard (tile = ['t', 'i', 'l', 'e'])
    let level ← readNumber level
    guard (level ≤ 63)
    let (index, width) ← readTile parts.reverse
    return (level, index, width)
  | _ => none

/-! ### Groups -/

section Groups
variable {text : List Char} {n index width level : Nat}

def groupChars (n : Nat) : List Char := (Nat.toDigits 10 n).leftpad 3 '0'

theorem groupChars_eq (h : n < 1000) : groupChars n =
    [Nat.digitChar (n / 100), Nat.digitChar (n / 10 % 10), Nat.digitChar (n % 10)] := by
  have hten : n / 10 / 10 = n / 100 := Nat.div_div_eq_div_mul n 10 10
  unfold groupChars
  rw [Nat.toDigits_eq_if (by decide)]
  split
  next hone =>
    have hhundreds : n / 100 = 0 := by omega
    have htens : n / 10 % 10 = 0 := by omega
    rw [hhundreds, htens, Nat.mod_eq_of_lt hone]
    rfl
  next =>
    rw [Nat.toDigits_eq_if (by decide)]
    split
    next htwo =>
      have hhundreds : n / 100 = 0 := by omega
      rw [hhundreds, Nat.mod_eq_of_lt htwo]
      rfl
    next =>
      rw [Nat.toDigits_of_lt_base (by omega), hten]
      rfl

/-- The groups that are read are the ones that are written. -/
theorem readGroup_eq_some : readGroup text = some n ↔ n < 1000 ∧ text = groupChars n := by
  unfold readGroup
  constructor
  · intro h
    split at h
    next hgroup =>
      obtain ⟨hlength, hdigits⟩ := hgroup
      obtain ⟨a, b, c, rfl⟩ := List.length_eq_three.mp hlength
      simp only [List.forall_mem_cons] at hdigits
      obtain ⟨ha, hachar⟩ := Text.digitChar_of_isDigit hdigits.1
      obtain ⟨hb, hbchar⟩ := Text.digitChar_of_isDigit hdigits.2.1
      obtain ⟨hc, hcchar⟩ := Text.digitChar_of_isDigit hdigits.2.2.1
      have hvalue : n = 100 * (a.toNat - 48) + 10 * (b.toNat - 48) + (c.toNat - 48) := by
        rw [← Option.some.inj h]
        simp only [Nat.ofDigitChars_cons, Nat.ofDigitChars_nil]
        show 10 * (10 * (10 * 0 + (a.toNat - 48)) + (b.toNat - 48)) + (c.toNat - 48) = _
        omega
      have hlt : n < 1000 := by omega
      have hhundreds : n / 100 = a.toNat - 48 := by omega
      have htens : n / 10 % 10 = b.toNat - 48 := by omega
      have hones : n % 10 = c.toNat - 48 := by omega
      rw [groupChars_eq hlt, hhundreds, htens, hones, hachar, hbchar, hcchar]
      exact ⟨hlt, rfl⟩
    next => cases h
  · intro h
    obtain ⟨hlt, rfl⟩ := h
    have hdigit : ∀ k < 10, (Nat.digitChar k).isDigit = true ∧ (Nat.digitChar k).toNat - 48 = k := by
      decide
    have hhundreds := hdigit (n / 100) (by omega)
    have htens := hdigit (n / 10 % 10) (by omega)
    have hones := hdigit (n % 10) (by omega)
    rw [groupChars_eq hlt, if_pos ⟨rfl, by simp [hhundreds.1, htens.1, hones.1]⟩]
    simp only [Nat.ofDigitChars_cons, Nat.ofDigitChars_nil]
    show some (10 * (10 * (10 * 0 + ((Nat.digitChar (n / 100)).toNat - 48)) +
      ((Nat.digitChar (n / 10 % 10)).toNat - 48)) + ((Nat.digitChar (n % 10)).toNat - 48)) = _
    rw [hhundreds.2, htens.2, hones.2]
    congr 1
    omega

theorem readUpperGroup_eq_some : readUpperGroup text = some n ↔ n < 1000 ∧ text = 'x' :: groupChars n := by
  unfold readUpperGroup
  split
  next group =>
    rw [readGroup_eq_some, List.cons.injEq]
    simp
  next hother =>
    constructor
    · intro h
      cases h
    · intro h
      exact absurd h.2 (hother _)

theorem mapM_readUpperGroup {parts : List (List Char)} {high : List Nat} :
    parts.mapM readUpperGroup = some high ↔
      (∀ n ∈ high, n < 1000) ∧ parts = high.map fun n => 'x' :: groupChars n := by
  induction parts generalizing high with
  | nil =>
    rw [List.mapM_nil]
    constructor
    · intro h
      cases h
      exact ⟨nofun, rfl⟩
    · intro h
      rw [List.map_eq_nil_iff.mp h.2.symm]
      rfl
  | cons part rest ih =>
    rw [List.mapM_cons]
    constructor
    · intro h
      obtain ⟨n, hn, h⟩ := Option.bind_eq_some_iff.mp h
      obtain ⟨more, hmore, h⟩ := Option.bind_eq_some_iff.mp h
      cases h
      obtain ⟨hlt, rfl⟩ := readUpperGroup_eq_some.mp hn
      obtain ⟨hall, rfl⟩ := ih.mp hmore
      exact ⟨List.forall_mem_cons.mpr ⟨hlt, hall⟩, rfl⟩
    · intro h
      cases high with
      | nil => cases h.2
      | cons n more =>
        rw [List.forall_mem_cons, List.map_cons, List.cons.injEq] at h
        obtain ⟨⟨hlt, hall⟩, hpart, hrest⟩ := h
        refine Option.bind_eq_some_iff.mpr ⟨n, readUpperGroup_eq_some.mpr ⟨hlt, hpart⟩, ?_⟩
        exact Option.bind_eq_some_iff.mpr ⟨more, ih.mpr ⟨hall, hrest⟩, rfl⟩

theorem readNumber_eq_some : readNumber text = some n ↔ text = Nat.toDigits 10 n := by
  unfold readNumber
  constructor
  · intro h
    split at h
    next hcanonical =>
      rw [← Option.some.inj h, Text.toDigits_ofDigitChars hcanonical]
    next => cases h
  · intro h
    subst h
    rw [if_pos (Text.canonical_toDigits n), Nat.ofDigitChars_toDigits (by decide) (by decide)]

/-- The loop pushes the digits of the index to the base of a thousand. -/
theorem upperGroups_eq (index : Nat) : (upperGroups index).map String.toList =
    (Nat.digits 1000 index).map fun n => 'x' :: groupChars n := by
  induction index using upperGroups.induct with
  | case1 =>
    rw [upperGroups, Nat.digits_zero]
    rfl
  | case2 index hne ih =>
    rw [upperGroups, if_neg hne, Nat.digits_def' (by decide) (Nat.pos_of_ne_zero hne),
      List.map_cons, List.map_cons, ih]
    congr 1
    rw [String.toList_append, threeDigits, String.toList_ofList, String.toList_ofList]
    rfl

/-- The groups of an index, the last one first. -/
def indexGroups (index : Nat) : List (List Char) :=
  groupChars (index % 1000) :: (Nat.digits 1000 (index / 1000)).map fun n => 'x' :: groupChars n

theorem readIndex_eq_some {parts : List (List Char)} :
    readIndex parts = some index ↔ index < 2 ^ 64 ∧ parts = indexGroups index := by
  unfold readIndex
  split
  next =>
    constructor
    · intro h
      cases h
    · intro h
      cases h.2
  next last upper =>
    constructor
    · intro h
      obtain ⟨low, hlow, h⟩ := Option.bind_eq_some_iff.mp h
      obtain ⟨high, hhigh, h⟩ := Option.bind_eq_some_iff.mp h
      obtain ⟨_, hlast, h⟩ := Option.bind_eq_some_iff.mp h
      obtain ⟨_, hbound, h⟩ := Option.bind_eq_some_iff.mp h
      cases h
      obtain ⟨hlt, rfl⟩ := readGroup_eq_some.mp hlow
      obtain ⟨hall, rfl⟩ := mapM_readUpperGroup.mp hhigh
      have hmod : (low + 1000 * Nat.ofDigits 1000 high) % 1000 = low := by omega
      have hdiv : (low + 1000 * Nat.ofDigits 1000 high) / 1000 = Nat.ofDigits 1000 high := by omega
      have hdigits : Nat.digits 1000 (Nat.ofDigits 1000 high) = high := by
        refine Nat.digits_ofDigits 1000 (by decide) high hall ?_
        intro hne hzero
        have hguard := ((Option.guard_eq_some' ()).mp hlast)
        exact hguard ((List.getLast?_eq_some_getLast hne).trans (congrArg some hzero))
      refine ⟨(Option.guard_eq_some' ()).mp hbound, ?_⟩
      rw [indexGroups, hmod, hdiv, hdigits]
    · intro h
      obtain ⟨hbound, h⟩ := h
      obtain ⟨rfl, rfl⟩ := List.cons.inj h
      have hvalue : index % 1000 + 1000 * Nat.ofDigits 1000 (Nat.digits 1000 (index / 1000)) =
          index := by
        rw [Nat.ofDigits_digits]
        omega
      refine Option.bind_eq_some_iff.mpr ⟨index % 1000, ?_, ?_⟩
      · exact readGroup_eq_some.mpr ⟨Nat.mod_lt _ (by decide), rfl⟩
      refine Option.bind_eq_some_iff.mpr ⟨Nat.digits 1000 (index / 1000), ?_, ?_⟩
      · exact mapM_readUpperGroup.mpr ⟨fun n hn => Nat.digits_lt_base (by decide) hn, rfl⟩
      refine Option.bind_eq_some_iff.mpr ⟨(), (Option.guard_eq_some' ()).mpr ?_, ?_⟩
      · intro hzero
        have hne : Nat.digits 1000 (index / 1000) ≠ [] := by
          intro hnil
          rw [hnil] at hzero
          cases hzero
        rw [List.getLast?_eq_some_getLast hne] at hzero
        exact Nat.getLast_digit_ne_zero 1000 (Nat.digits_ne_nil_iff_ne_zero.mp hne)
          (Option.some.inj hzero)
      show (guard (index % 1000 + 1000 * Nat.ofDigits 1000 (Nat.digits 1000 (index / 1000)) < 2 ^ 64)
        >>= fun _ => some (index % 1000 + 1000 * Nat.ofDigits 1000 (Nat.digits 1000 (index / 1000))))
        = some index
      rw [hvalue]
      exact Option.bind_eq_some_iff.mpr ⟨(), (Option.guard_eq_some' ()).mpr hbound, rfl⟩

end Groups

/-! ### Names -/

section Names
variable {text : List Char} {index width level : Nat}

theorem isDigit_groupChars {n : Nat} (h : n < 1000) {c : Char} (hc : c ∈ groupChars n) :
    c.isDigit = true := by
  have hread : readGroup (groupChars n) = some n := readGroup_eq_some.mpr ⟨h, rfl⟩
  unfold readGroup at hread
  split at hread
  next hgroup => exact hgroup.2 c hc
  next => cases hread

theorem partialGroup_eq_some {digits : List Char} :
    partialGroup text = some digits ↔ text = digits ++ ['.', 'p'] := by
  unfold partialGroup
  constructor
  · intro h
    split at h
    next rest hreverse =>
      cases h
      rw [← List.reverse_reverse text, hreverse, List.reverse_cons, List.reverse_cons,
        List.append_assoc]
      rfl
    next => cases h
  · intro h
    rw [h, List.reverse_append]
    show some digits.reverse.reverse = _
    rw [List.reverse_reverse]

/-- The group of a full tile is not taken for one of a partial tile. -/
theorem partialGroup_upper {n : Nat} (h : n < 1000) : partialGroup ('x' :: groupChars n) = none := by
  cases hpartial : partialGroup ('x' :: groupChars n) with
  | none => rfl
  | some digits =>
    have hlast : 'p' ∈ 'x' :: groupChars n := by
      rw [partialGroup_eq_some.mp hpartial]
      simp
    rcases List.mem_cons.mp hlast with hx | hdigit
    · exact absurd hx (by decide)
    · exact absurd (isDigit_groupChars h hdigit) (by decide)

/-- The parts of a name behind its level, the last one first. -/
def tileGroups (index width : Nat) : List (List Char) :=
  if width = 256 then indexGroups index
  else
    Nat.toDigits 10 width :: (groupChars (index % 1000) ++ ['.', 'p']) ::
      (Nat.digits 1000 (index / 1000)).map fun n => 'x' :: groupChars n

theorem readTile_eq_some {parts : List (List Char)} : readTile parts = some (index, width) ↔
    index < 2 ^ 64 ∧ (1 ≤ width ∧ width ≤ 256) ∧ parts = tileGroups index width := by
  have hfull {parts : List (List Char)} :
      (readIndex parts).map (fun index => (index, 256)) = some (index, width) ↔
        index < 2 ^ 64 ∧ width = 256 ∧ parts = indexGroups index := by
    rw [Option.map_eq_some_iff]
    constructor
    · intro h
      obtain ⟨index, hindex, hpair⟩ := h
      cases hpair
      obtain ⟨hbound, hparts⟩ := readIndex_eq_some.mp hindex
      exact ⟨hbound, rfl, hparts⟩
    · intro h
      obtain ⟨hbound, rfl, hparts⟩ := h
      exact ⟨index, readIndex_eq_some.mpr ⟨hbound, hparts⟩, rfl⟩
  constructor
  · intro h
    unfold readTile at h
    split at h
    next => cases h
    next =>
      obtain ⟨hbound, rfl, hparts⟩ := hfull.mp h
      exact ⟨hbound, by decide, hparts⟩
    next last next upper =>
      split at h
      next =>
        obtain ⟨hbound, rfl, hparts⟩ := hfull.mp h
        exact ⟨hbound, by decide, hparts⟩
      next group hgroup =>
        obtain ⟨index, hindex, h⟩ := Option.bind_eq_some_iff.mp h
        obtain ⟨width, hwidth, h⟩ := Option.bind_eq_some_iff.mp h
        obtain ⟨_, hguard, h⟩ := Option.bind_eq_some_iff.mp h
        cases h
        obtain ⟨hbound, hparts⟩ := readIndex_eq_some.mp hindex
        obtain ⟨rfl, rfl⟩ := List.cons.inj hparts
        have hrange := (Option.guard_eq_some' ()).mp hguard
        refine ⟨hbound, ⟨hrange.1, hrange.2.le⟩, ?_⟩
        rw [tileGroups, if_neg hrange.2.ne, ← readNumber_eq_some.mp hwidth,
          ← partialGroup_eq_some.mp hgroup]
  · intro h
    obtain ⟨hbound, hrange, rfl⟩ := h
    by_cases hwidth : width = 256
    · have hread := hfull.mpr ⟨hbound, hwidth, rfl⟩
      rw [tileGroups, if_pos hwidth]
      unfold indexGroups at hread ⊢
      cases hupper : Nat.digits 1000 (index / 1000) with
      | nil =>
        rw [hupper] at hread
        exact hread
      | cons n more =>
        rw [hupper] at hread
        have hlt : n < 1000 := Nat.digits_lt_base (by decide) (hupper ▸ List.mem_cons_self)
        rw [List.map_cons] at hread ⊢
        rw [readTile, partialGroup_upper hlt]
        exact hread
    · rw [tileGroups, if_neg hwidth, readTile, partialGroup_eq_some.mpr rfl]
      refine Option.bind_eq_some_iff.mpr ⟨index, readIndex_eq_some.mpr ⟨hbound, rfl⟩, ?_⟩
      refine Option.bind_eq_some_iff.mpr ⟨width, readNumber_eq_some.mpr rfl, ?_⟩
      exact Option.bind_eq_some_iff.mpr
        ⟨(), (Option.guard_eq_some' ()).mpr ⟨hrange.1, by omega⟩, rfl⟩

/-- The parts of a name. -/
def tileParts (level index width : Nat) : List (List Char) :=
  ['t', 'i', 'l', 'e'] :: Nat.toDigits 10 level :: (tileGroups index width).reverse

theorem tileGroups_ne_nil : tileGroups index width ≠ [] := by
  unfold tileGroups
  split
  · exact List.cons_ne_nil _ _
  · exact List.cons_ne_nil _ _

theorem slash_notMem_tileParts {part : List Char} (h : part ∈ tileParts level index width) :
    '/' ∉ part := by
  have hdigits {n : Nat} : '/' ∉ Nat.toDigits 10 n := fun hmem =>
    absurd (Nat.isDigit_of_mem_toDigits (by decide) (by decide) hmem) (by decide)
  have hgroup {n : Nat} (hlt : n < 1000) : '/' ∉ groupChars n := fun hmem =>
    absurd (isDigit_groupChars hlt hmem) (by decide)
  have hupper {part : List Char}
      (h : part ∈ (Nat.digits 1000 (index / 1000)).map fun n => 'x' :: groupChars n) :
      '/' ∉ part := by
    obtain ⟨n, hn, rfl⟩ := List.mem_map.mp h
    have hlt : n < 1000 := Nat.digits_lt_base (by decide) hn
    exact List.not_mem_cons_of_ne_of_not_mem (by decide) (hgroup hlt)
  have hlow : '/' ∉ groupChars (index % 1000) := hgroup (Nat.mod_lt _ (by decide))
  rw [tileParts, List.mem_cons, List.mem_cons, List.mem_reverse] at h
  rcases h with rfl | rfl | h
  · decide
  · exact hdigits
  · unfold tileGroups at h
    split at h
    · rcases List.mem_cons.mp h with rfl | h
      · exact hlow
      · exact hupper h
    · rcases List.mem_cons.mp h with rfl | h
      · exact hdigits
      rcases List.mem_cons.mp h with rfl | h
      · rw [List.mem_append, not_or]
        exact ⟨hlow, by decide⟩
      · exact hupper h

/-- The width of a partial tile is one more part, and its mark is on the one before. -/
theorem intercalate_partial (front : List (List Char)) (group mark width : List Char) :
    ['/'].intercalate (front ++ [group ++ mark] ++ [width]) =
      ['/'].intercalate (front ++ [group]) ++ (mark ++ '/' :: width) := by
  induction front with
  | nil =>
    rw [List.nil_append, List.nil_append, List.singleton_append, List.intercalate_cons_cons,
      List.intercalate_singleton, List.intercalate_singleton]
    simp
  | cons part rest ih =>
    rw [List.cons_append, List.cons_append, List.cons_append, List.intercalate_cons_of_ne_nil (by simp),
      List.intercalate_cons_of_ne_nil (by simp), ih]
    simp

theorem tilePath_eq_ok {name : String} : tilePath level index width = .ok name ↔
    level ≤ 63 ∧ (1 ≤ width ∧ width ≤ 256) ∧
      name.toList = ['/'].intercalate (tileParts level index width) := by
  have hgroups : (threeDigits (index % 1000) :: upperGroups (index / 1000)).map String.toList =
      indexGroups index := by
    rw [List.map_cons, upperGroups_eq, threeDigits, String.toList_ofList]
    rfl
  have hlevel : (toString level).toList = Nat.toDigits 10 level := String.toList_ofList
  have hwidth : (toString width).toList = Nat.toDigits 10 width := String.toList_ofList
  have htile : "tile/".toList = ['t', 'i', 'l', 'e', '/'] := by decide
  have hslash : "/".toList = ['/'] := by decide
  have hmark : ".p/".toList = ['.', 'p', '/'] := by decide
  have htext : ("tile/" ++ toString level ++ "/" ++ String.intercalate "/"
      (threeDigits (index % 1000) :: upperGroups (index / 1000)).reverse ++
        (if width = 256 then "" else ".p/" ++ toString width)).toList =
      ['/'].intercalate (tileParts level index width) := by
    rw [tileParts, List.intercalate_cons_cons, List.intercalate_cons_of_ne_nil
      (List.reverse_ne_nil_iff.mpr tileGroups_ne_nil)]
    simp only [String.toList_append, String.toList_intercalate, List.map_reverse, hgroups, hlevel,
      htile, hslash]
    by_cases hfull : width = 256
    · rw [if_pos hfull, tileGroups, if_pos hfull]
      simp
    · rw [if_neg hfull, tileGroups, if_neg hfull, String.toList_append, hmark, hwidth,
        List.reverse_cons, List.reverse_cons, indexGroups, List.reverse_cons, intercalate_partial]
      simp
  unfold tilePath
  constructor
  · intro h
    split at h
    next hrange =>
      rw [← Except.ok.inj h]
      exact ⟨hrange.1, hrange.2, htext⟩
    next => cases h
  · intro h
    obtain ⟨hle, hrange, hname⟩ := h
    rw [if_pos ⟨hle, hrange⟩]
    exact congrArg Except.ok (String.toList_inj.mp (htext.trans hname.symm))

/-- **The names that are read are the names that are written.** -/
theorem tile_names :
    (∀ level index width, (∃ name, tilePath level index width = .ok name) ↔
      level ≤ 63 ∧ 1 ≤ width ∧ width ≤ 256) ∧
    ∀ name level index width, readTileName name = some (level, index, width) ↔
      tilePath level index width = .ok name ∧ index < 2 ^ 64 := by
  refine ⟨?_, ?_⟩
  · intro level index width
    constructor
    · intro h
      obtain ⟨name, hname⟩ := h
      obtain ⟨hle, hrange, -⟩ := tilePath_eq_ok.mp hname
      exact ⟨hle, hrange⟩
    · intro h
      unfold tilePath
      rw [if_pos h]
      exact ⟨_, rfl⟩
  · intro name level index width
    rw [tilePath_eq_ok]
    constructor
    · intro h
      unfold readTileName at h
      split at h
      next tile levelText parts hsplit =>
        obtain ⟨_, htile, h⟩ := Option.bind_eq_some_iff.mp h
        obtain ⟨n, hn, h⟩ := Option.bind_eq_some_iff.mp h
        obtain ⟨_, hle, h⟩ := Option.bind_eq_some_iff.mp h
        obtain ⟨⟨i, w⟩, htileRead, h⟩ := Option.bind_eq_some_iff.mp h
        cases h
        obtain ⟨hbound, hrange, hparts⟩ := readTile_eq_some.mp htileRead
        have hname : name.toList = ['/'].intercalate (name.toList.splitOn '/') :=
          (List.intercalate_splitOn '/').symm
        refine ⟨⟨(Option.guard_eq_some' ()).mp hle, hrange, ?_⟩, hbound⟩
        rw [hname, hsplit, tileParts, ← hparts, List.reverse_reverse,
          (Option.guard_eq_some' ()).mp htile, readNumber_eq_some.mp hn]
      next => cases h
    · intro h
      obtain ⟨⟨hle, hrange, hname⟩, hbound⟩ := h
      have hsplit : name.toList.splitOn '/' = tileParts level index width := by
        rw [hname]
        exact List.splitOn_intercalate '/' (fun _ hpart => slash_notMem_tileParts hpart)
          (List.cons_ne_nil _ _)
      rw [readTileName, hsplit]
      refine Option.bind_eq_some_iff.mpr ⟨(), (Option.guard_eq_some' ()).mpr rfl, ?_⟩
      refine Option.bind_eq_some_iff.mpr ⟨level, readNumber_eq_some.mpr rfl, ?_⟩
      refine Option.bind_eq_some_iff.mpr ⟨(), (Option.guard_eq_some' ()).mpr hle, ?_⟩
      refine Option.bind_eq_some_iff.mpr ⟨(index, width), ?_, rfl⟩
      rw [List.reverse_reverse]
      exact readTile_eq_some.mpr ⟨hbound, hrange, rfl⟩

end Names

end Attest.Publication.Tiles
