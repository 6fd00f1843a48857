import Mathlib.Data.String.Basic

/-! Bytes read as a text, where they are one.

Bytes fall into pieces: a character, or as much of one as is there before a byte that
cannot go on with it. A piece that is no character is shown as the replacement character.
A byte of ASCII is always a piece of its own, so a text is cut at one where its bytes are
(`shownBytes_append`), and what is shown in ASCII alone is what was there
(`eq_of_ascii`). A text is shown as it is (`text_bytesOf`). -/
namespace Attest.Library.Lossy

/-- The bytes that go on with a first byte, by their bounds; with ASCII and with a byte that
starts no character none do. -/
def following (b : UInt8) : List (UInt8 × UInt8) :=
  if 0xC2 ≤ b ∧ b ≤ 0xDF then [(0x80, 0xBF)]
  else if b = 0xE0 then [(0xA0, 0xBF), (0x80, 0xBF)]
  else if b = 0xED then [(0x80, 0x9F), (0x80, 0xBF)]
  else if 0xE1 ≤ b ∧ b ≤ 0xEF then [(0x80, 0xBF), (0x80, 0xBF)]
  else if b = 0xF0 then [(0x90, 0xBF), (0x80, 0xBF), (0x80, 0xBF)]
  else if 0xF1 ≤ b ∧ b ≤ 0xF3 then [(0x80, 0xBF), (0x80, 0xBF), (0x80, 0xBF)]
  else if b = 0xF4 then [(0x80, 0x8F), (0x80, 0xBF), (0x80, 0xBF)]
  else []

/-- The pieces, with what has been read of the first one and what can go on with it. -/
def piecesFrom (read : List UInt8) : List (UInt8 × UInt8) → List UInt8 → List (List UInt8)
  | _, [] => if read = [] then [] else [read]
  | bounds :: more, b :: rest =>
    if bounds.1 ≤ b ∧ b ≤ bounds.2 then
      if more = [] then (read ++ [b]) :: piecesFrom [] [] rest
      else piecesFrom (read ++ [b]) more rest
    else
      read :: if following b = [] then [b] :: piecesFrom [] [] rest
        else piecesFrom [b] (following b) rest
  | [], b :: rest =>
    if following b = [] then [b] :: piecesFrom [] [] rest
    else piecesFrom [b] (following b) rest

/-- `Utf8Chunks`, character by character. -/
def pieces (bytes : List UInt8) : List (List UInt8) := piecesFrom [] [] bytes

/-- A piece as it is shown. -/
def shown (piece : List UInt8) : String := (String.fromUTF8? ⟨piece.toArray⟩).getD "\uFFFD"

/-- `String::from_utf8_lossy`. -/
def text (bytes : List UInt8) : String := String.join ((pieces bytes).map shown)

/-- The bytes of a text. -/
def bytesOf (s : String) : List UInt8 := s.toUTF8.data.toList

/-- The bytes of the text that is shown. -/
def shownBytes (bytes : List UInt8) : List UInt8 := (pieces bytes).flatMap fun p => bytesOf (shown p)

/-! ### Pieces -/

section Pieces
variable {read a b piece : List UInt8} {expected : List (UInt8 × UInt8)} {c : UInt8}

/-- What goes on with a character is no ASCII. -/
theorem low_of_mem_following (first : UInt8) : ∀ bounds ∈ following first, 0x80 ≤ bounds.1 := by
  unfold following
  split_ifs <;> simp

theorem following_of_ascii (hc : c < 0x80) : following c = [] := by
  have hlt : c.toNat < 128 := UInt8.lt_iff_toNat_lt.mp hc
  have hlow : ∀ low : UInt8, 128 ≤ low.toNat → ¬ low ≤ c := by
    intro low hlow hle
    have := UInt8.le_iff_toNat_le.mp hle
    omega
  have hne : ∀ first : UInt8, 128 ≤ first.toNat → c ≠ first := by
    intro first hfirst heq
    rw [heq] at hlt
    omega
  unfold following
  rw [if_neg fun h => hlow 0xC2 (by decide) h.1, if_neg (hne 0xE0 (by decide)),
    if_neg (hne 0xED (by decide)), if_neg fun h => hlow 0xE1 (by decide) h.1,
    if_neg (hne 0xF0 (by decide)), if_neg fun h => hlow 0xF1 (by decide) h.1,
    if_neg (hne 0xF4 (by decide))]

theorem not_within_of_ascii (hc : c < 0x80) {bounds : UInt8 × UInt8} (h : 0x80 ≤ bounds.1) :
    ¬ (bounds.1 ≤ c ∧ c ≤ bounds.2) := by
  intro hwithin
  have hlt := UInt8.lt_iff_toNat_lt.mp hc
  have hlow := UInt8.le_iff_toNat_le.mp h
  have hle := UInt8.le_iff_toNat_le.mp hwithin.1
  omega

/-- In the middle of a character something has been read and more is expected, none of it
ASCII; between characters nothing. -/
def Underway (read : List UInt8) (expected : List (UInt8 × UInt8)) : Prop :=
  (read = [] ↔ expected = []) ∧ ∀ bounds ∈ expected, 0x80 ≤ bounds.1

theorem underway_nil : Underway [] [] := by
  simp [Underway]

theorem underway_following {first : UInt8} (h : following first ≠ []) :
    Underway [first] (following first) := by
  refine ⟨?_, low_of_mem_following first⟩
  simp [h]

theorem underway_tail {bounds : UInt8 × UInt8} {more : List (UInt8 × UInt8)} {next : UInt8}
    (h : Underway read (bounds :: more)) (hmore : more ≠ []) : Underway (read ++ [next]) more := by
  refine ⟨?_, ?_⟩
  · simp [hmore]
  · intro other hother
    exact h.2 other (List.mem_cons_of_mem _ hother)

theorem piecesFrom_ascii (hc : c < 0x80) (b : List UInt8) :
    piecesFrom [] [] (c :: b) = [c] :: pieces b := by
  unfold piecesFrom
  rw [if_pos (following_of_ascii hc)]
  rfl

/-- The pieces are cut at a byte of ASCII. -/
theorem piecesFrom_append (hc : c < 0x80) (h : Underway read expected) :
    piecesFrom read expected (a ++ c :: b) = piecesFrom read expected a ++ [c] :: pieces b := by
  induction a generalizing read expected with
  | nil =>
    rw [List.nil_append]
    cases expected with
    | nil =>
      rw [h.1.mpr rfl, piecesFrom_ascii hc]
      rfl
    | cons bounds more =>
      have hread : read ≠ [] := fun hnil => absurd (h.1.mp hnil) (List.cons_ne_nil _ _)
      unfold piecesFrom
      rw [if_neg (not_within_of_ascii hc (h.2 bounds (List.mem_cons_self ..))),
        if_pos (following_of_ascii hc), if_neg hread]
      rfl
  | cons first rest ih =>
    have hstart : (if following first = [] then [first] :: piecesFrom [] [] (rest ++ c :: b)
          else piecesFrom [first] (following first) (rest ++ c :: b)) =
        (if following first = [] then [first] :: piecesFrom [] [] rest
          else piecesFrom [first] (following first) rest) ++ [c] :: pieces b := by
      split
      next => rw [ih underway_nil, List.cons_append]
      next hfollowing => exact ih (underway_following hfollowing)
    rw [List.cons_append]
    cases expected with
    | nil =>
      unfold piecesFrom
      exact hstart
    | cons bounds more =>
      unfold piecesFrom
      split
      next =>
        split
        next => rw [ih underway_nil, List.cons_append]
        next hmore => exact ih (underway_tail h hmore)
      next => rw [hstart, List.cons_append]

/-- A piece is a byte of ASCII or has none in it. -/
def Clean (piece : List UInt8) : Prop :=
  (∃ c, c < 0x80 ∧ piece = [c]) ∨ piece ≠ [] ∧ ∀ c ∈ piece, 0x80 ≤ c

theorem high_of_following {first : UInt8} (h : following first ≠ []) : 0x80 ≤ first := by
  by_contra hlt
  apply h
  apply following_of_ascii
  rw [UInt8.le_iff_toNat_le, not_le] at hlt
  exact UInt8.lt_iff_toNat_lt.mpr hlt

theorem clean_single (first : UInt8) : Clean [first] := by
  by_cases hlow : first < 0x80
  · exact .inl ⟨first, hlow, rfl⟩
  · refine .inr ⟨List.cons_ne_nil _ _, ?_⟩
    intro c hc
    rw [List.mem_singleton.mp hc]
    rw [UInt8.lt_iff_toNat_lt, not_lt] at hlow
    exact UInt8.le_iff_toNat_le.mpr hlow

theorem clean_of_mem (h : Underway read expected) (hread : ∀ c ∈ read, 0x80 ≤ c)
    (hpiece : piece ∈ piecesFrom read expected a) : Clean piece := by
  induction a generalizing read expected piece with
  | nil =>
    unfold piecesFrom at hpiece
    split at hpiece
    next => cases hpiece
    next hne =>
      rw [List.mem_singleton.mp hpiece]
      exact .inr ⟨hne, hread⟩
  | cons first rest ih =>
    have hempty : piece ∈ piecesFrom [] [] rest → Clean piece := by
      intro hpiece
      exact ih underway_nil (fun c hc => absurd hc List.not_mem_nil) hpiece
    have hstart : piece ∈ (if following first = [] then [first] :: piecesFrom [] [] rest
          else piecesFrom [first] (following first) rest) → Clean piece := by
      intro hpiece
      split at hpiece
      next =>
        rcases List.mem_cons.mp hpiece with hfirst | hrest
        · rw [hfirst]
          exact clean_single first
        · exact hempty hrest
      next hfollowing =>
        refine ih (underway_following hfollowing) ?_ hpiece
        intro c hc
        rw [List.mem_singleton.mp hc]
        exact high_of_following hfollowing
    cases expected with
    | nil =>
      unfold piecesFrom at hpiece
      exact hstart hpiece
    | cons bounds more =>
      have hlow := h.2 bounds (List.mem_cons_self ..)
      unfold piecesFrom at hpiece
      split at hpiece
      next hwithin =>
        have hmore : ∀ c ∈ read ++ [first], 0x80 ≤ c := by
          intro c hc
          rcases List.mem_append.mp hc with hc | hc
          · exact hread c hc
          · rw [List.mem_singleton.mp hc]
            exact UInt8.le_trans hlow hwithin.1
        split at hpiece
        next =>
          rcases List.mem_cons.mp hpiece with hfirst | hrest
          · rw [hfirst]
            exact .inr ⟨by simp, hmore⟩
          · exact hempty hrest
        next hne => exact ih (underway_tail h hne) hmore hpiece
      next =>
        rcases List.mem_cons.mp hpiece with hfirst | hrest
        · rw [hfirst]
          exact .inr ⟨fun hnil => absurd (h.1.mp hnil) (List.cons_ne_nil _ _), hread⟩
        · exact hstart hrest

/-- The pieces are all of the bytes. -/
theorem flatten_piecesFrom (h : Underway read expected) :
    (piecesFrom read expected a).flatten = read ++ a := by
  induction a generalizing read expected with
  | nil =>
    unfold piecesFrom
    split
    next hnil => rw [hnil]; rfl
    next => rw [List.flatten_singleton, List.append_nil]
  | cons first rest ih =>
    have hstart : (if following first = [] then [first] :: piecesFrom [] [] rest
        else piecesFrom [first] (following first) rest).flatten = first :: rest := by
      split
      next => rw [List.flatten_cons, ih underway_nil]; rfl
      next hfollowing => rw [ih (underway_following hfollowing)]; rfl
    cases expected with
    | nil =>
      unfold piecesFrom
      rw [hstart, h.1.mpr rfl, List.nil_append]
    | cons bounds more =>
      unfold piecesFrom
      split
      next =>
        split
        next =>
          rw [List.flatten_cons, ih underway_nil, List.nil_append, List.append_assoc]
          rfl
        next hne =>
          rw [ih (underway_tail h hne), List.append_assoc]
          rfl
      next => rw [List.flatten_cons, hstart]

theorem flatten_pieces : (pieces a).flatten = a := flatten_piecesFrom underway_nil

theorem clean_of_mem_pieces (h : piece ∈ pieces a) : Clean piece :=
  clean_of_mem underway_nil (fun _ hc => absurd hc List.not_mem_nil) h

end Pieces

/-! ### What is shown -/

section Shown
variable {a b piece bytes : List UInt8} {c : UInt8}

theorem bytesOf_of_fromUTF8? {s : String} (h : String.fromUTF8? ⟨bytes.toArray⟩ = some s) :
    bytesOf s = bytes := by
  unfold String.fromUTF8? at h
  split at h
  next =>
    cases h
    rfl
  next => cases h

theorem fromUTF8?_bytesOf (s : String) : String.fromUTF8? ⟨(bytesOf s).toArray⟩ = some s := by
  have hbytes : (⟨(bytesOf s).toArray⟩ : ByteArray) = s.toUTF8 := by simp [bytesOf]
  simp [hbytes, String.fromUTF8?, String.fromUTF8, s.isValidUTF8]

theorem shown_ascii (hc : c < 0x80) : bytesOf (shown [c]) = [c] := by
  have hlt : c.toNat < 128 := UInt8.lt_iff_toNat_lt.mp hc
  have hencode : ∀ n < 128, String.utf8EncodeChar (Char.ofNat n) = [UInt8.ofNat n] := by decide
  have hchar : bytesOf (String.ofList [Char.ofNat c.toNat]) = [c] := by
    simp [bytesOf, List.utf8Encode_singleton, hencode c.toNat hlt]
  unfold shown
  rw [← hchar, fromUTF8?_bytesOf]
  rfl

/-- What is shown for a piece without ASCII has none. -/
theorem shown_high (hne : piece ≠ []) (h : ∀ c ∈ piece, 0x80 ≤ c) :
    bytesOf (shown piece) ≠ [] ∧ ∀ c ∈ bytesOf (shown piece), 0x80 ≤ c := by
  unfold shown
  cases hread : String.fromUTF8? ⟨piece.toArray⟩ with
  | none =>
    have hbytes : bytesOf "\uFFFD" = [0xef, 0xbf, 0xbd] := by decide
    rw [Option.getD_none, hbytes]
    simp
  | some s =>
    rw [Option.getD_some, bytesOf_of_fromUTF8? hread]
    exact ⟨hne, h⟩

theorem bytesOf_text : bytesOf (text bytes) = shownBytes bytes := by
  have hjoin : ∀ parts : List String, bytesOf (String.join parts) = parts.flatMap bytesOf := by
    intro parts
    induction parts with
    | nil => rfl
    | cons first rest ih =>
      rw [String.join_cons, List.flatMap_cons, ← ih]
      simp [bytesOf]
  unfold text shownBytes
  rw [hjoin, List.flatMap_map]

theorem shownBytes_append (hc : c < 0x80) :
    shownBytes (a ++ c :: b) = shownBytes a ++ c :: shownBytes b := by
  unfold shownBytes pieces
  rw [piecesFrom_append hc underway_nil, List.flatMap_append, List.flatMap_cons, shown_ascii hc]
  rfl

theorem mem_of_mem_shownBytes (hc : c < 0x80) (h : c ∈ shownBytes bytes) : c ∈ bytes := by
  obtain ⟨piece, hpiece, hmem⟩ := List.mem_flatMap.mp h
  rcases clean_of_mem_pieces hpiece with ⟨d, hd, rfl⟩ | ⟨hne, hhigh⟩
  · rw [shown_ascii hd] at hmem
    rw [← flatten_pieces (a := bytes)]
    exact List.mem_flatten_of_mem hpiece hmem
  · have hle := UInt8.le_iff_toNat_le.mp ((shown_high hne hhigh).2 c hmem)
    have hlt := UInt8.lt_iff_toNat_lt.mp hc
    omega

/-- Where only ASCII is shown, it is what was there. -/
theorem eq_of_ascii (h : ∀ c ∈ shownBytes bytes, c < 0x80) : shownBytes bytes = bytes := by
  have hsame : ∀ piece ∈ pieces bytes, bytesOf (shown piece) = piece := by
    intro piece hpiece
    rcases clean_of_mem_pieces hpiece with ⟨d, hd, rfl⟩ | ⟨hne, hhigh⟩
    · exact shown_ascii hd
    · obtain ⟨hshown, hle⟩ := shown_high hne hhigh
      obtain ⟨c, hc⟩ := List.exists_mem_of_ne_nil _ hshown
      have hlt := UInt8.lt_iff_toNat_lt.mp (h c (List.mem_flatMap.mpr ⟨piece, hpiece, hc⟩))
      have hle := UInt8.le_iff_toNat_le.mp (hle c hc)
      omega
  calc shownBytes bytes = (pieces bytes).flatMap id := List.flatMap_congr hsame
    _ = (pieces bytes).flatten := List.flatMap_id
    _ = bytes := flatten_pieces

theorem shownBytes_ne_nil (h : bytes ≠ []) : shownBytes bytes ≠ [] := by
  have hpieces : pieces bytes ≠ [] := by
    intro hnil
    apply h
    rw [← flatten_pieces (a := bytes), hnil]
    rfl
  obtain ⟨piece, hpiece⟩ := List.exists_mem_of_ne_nil _ hpieces
  have hshown : bytesOf (shown piece) ≠ [] := by
    rcases clean_of_mem_pieces hpiece with ⟨d, hd, rfl⟩ | ⟨hne, hhigh⟩
    · rw [shown_ascii hd]
      exact List.cons_ne_nil _ _
    · exact (shown_high hne hhigh).1
  obtain ⟨c, hc⟩ := List.exists_mem_of_ne_nil _ hshown
  exact List.ne_nil_of_mem (List.mem_flatMap.mpr ⟨piece, hpiece, hc⟩)

/-- A text is taken apart at a character of ASCII as its bytes are. -/
theorem splitOn_shownBytes (hc : c < 0x80) :
    (shownBytes bytes).splitOn c = (bytes.splitOn c).map shownBytes := by
  induction hlength : bytes.length using Nat.strong_induction_on generalizing bytes with
  | _ n ih =>
    subst hlength
    by_cases hmem : c ∈ bytes
    · obtain ⟨before, after, hsplit, _⟩ := List.eq_append_cons_of_mem hmem
      subst hsplit
      have hbefore : before.length < (before ++ c :: after).length := by simp
      have hafter : after.length < (before ++ c :: after).length := by
        simp only [List.length_append, List.length_cons]
        omega
      rw [shownBytes_append hc, List.splitOn_append_cons_self, List.splitOn_append_cons_self,
        List.map_append, ih _ hbefore rfl, ih _ hafter rfl]
    · have hshown : c ∉ shownBytes bytes := fun h => hmem (mem_of_mem_shownBytes hc h)
      rw [List.splitOn_eq_singleton hshown, List.splitOn_eq_singleton hmem]
      rfl

/-- A text starts with a character of ASCII only where its bytes do. -/
theorem head?_of_shownBytes (hc : c < 0x80) (h : (shownBytes bytes).head? = some c) :
    bytes.head? = some c := by
  obtain ⟨before, after, hsplit, hnot⟩ :=
    List.eq_append_cons_of_mem (mem_of_mem_shownBytes hc (List.mem_of_head? h))
  cases before with
  | nil =>
    rw [hsplit]
    rfl
  | cons first rest =>
    have hne : shownBytes (first :: rest) ≠ [] := shownBytes_ne_nil (List.cons_ne_nil _ _)
    rw [hsplit, shownBytes_append hc, List.head?_append_of_ne_nil _ hne] at h
    exact absurd (mem_of_mem_shownBytes hc (List.mem_of_head? h)) hnot

end Shown

/-! ### A text -/

section Text
variable {read tail rest : List UInt8} {expected : List (UInt8 × UInt8)}

/-- What goes on with a character up to its end. -/
def Completes (expected : List (UInt8 × UInt8)) (tail : List UInt8) : Prop :=
  List.Forall₂ (fun bounds b => bounds.1 ≤ b ∧ b ≤ bounds.2) expected tail

theorem piecesFrom_completes (h : Completes expected tail) (hmore : expected ≠ []) :
    piecesFrom read expected (tail ++ rest) = (read ++ tail) :: piecesFrom [] [] rest := by
  induction h generalizing read with
  | nil => exact absurd rfl hmore
  | @cons bounds b more tail hwithin hcompletes ih =>
    rw [List.cons_append, piecesFrom, if_pos hwithin]
    split
    next hlast =>
      subst hlast
      cases hcompletes
      rfl
    next hgoes => rw [ih hgoes, List.append_assoc, List.singleton_append]

theorem piecesFrom_character {first : UInt8} (h : Completes (following first) tail) :
    piecesFrom [] [] (first :: tail ++ rest) = (first :: tail) :: piecesFrom [] [] rest := by
  rw [List.cons_append, piecesFrom]
  split
  next hlone =>
    rw [hlone] at h
    cases h
    rfl
  next hgoes => exact piecesFrom_completes h hgoes

/-- `following`, by the number of the byte. -/
theorem following_ofNat {n : Nat} (h : n < 256) : following (UInt8.ofNat n) =
    if 0xC2 ≤ n ∧ n ≤ 0xDF then [(0x80, 0xBF)]
    else if n = 0xE0 then [(0xA0, 0xBF), (0x80, 0xBF)]
    else if n = 0xED then [(0x80, 0x9F), (0x80, 0xBF)]
    else if 0xE1 ≤ n ∧ n ≤ 0xEF then [(0x80, 0xBF), (0x80, 0xBF)]
    else if n = 0xF0 then [(0x90, 0xBF), (0x80, 0xBF), (0x80, 0xBF)]
    else if 0xF1 ≤ n ∧ n ≤ 0xF3 then [(0x80, 0xBF), (0x80, 0xBF), (0x80, 0xBF)]
    else if n = 0xF4 then [(0x80, 0x8F), (0x80, 0xBF), (0x80, 0xBF)]
    else [] := by
  have hn : (UInt8.ofNat n).toNat = n := UInt8.toNat_ofNat_of_lt' h
  simp only [following, UInt8.le_iff_toNat_le, ← UInt8.toNat_inj, hn]
  rfl

/-- A byte within its bounds, by its number. -/
theorem within_ofNat {low high : UInt8} {n : Nat} (h : n < 256) (hlow : low.toNat ≤ n)
    (hhigh : n ≤ high.toNat) : low ≤ UInt8.ofNat n ∧ UInt8.ofNat n ≤ high := by
  simp only [UInt8.le_iff_toNat_le, UInt8.toNat_ofNat_of_lt' (show n < UInt8.size from h)]
  exact ⟨hlow, hhigh⟩

/-- The bytes of a character are a first one and what goes on with it. -/
theorem completes_utf8EncodeChar (c : Char) : ∃ first tail,
    String.utf8EncodeChar c = first :: tail ∧ Completes (following first) tail := by
  have hvalid : c.toNat < 0xd800 ∨ (0xdfff < c.toNat ∧ c.toNat < 0x110000) := c.valid
  have hval : c.val.toNat = c.toNat := rfl
  simp only [String.utf8EncodeChar, hval]
  generalize c.toNat = n at hvalid
  have hnil : Completes [] [] := .nil
  have hlast : ∀ k, (0x80 : UInt8) ≤ UInt8.ofNat (k % 64 + 128) ∧ UInt8.ofNat (k % 64 + 128) ≤ 0xBF :=
    fun k => within_ofNat (by omega) (Nat.le_add_left 128 _) (show _ ≤ 191 by omega)
  -- Only the byte after the first can have narrower bounds: it is where a number is too small
  -- for its length, a surrogate, or too large.
  split
  next hone =>
    refine ⟨_, _, rfl, ?_⟩
    rw [following_ofNat (by omega)]
    simp (disch := omega) only [if_neg]
    exact hnil
  next hone =>
    split
    next htwo =>
      refine ⟨_, _, rfl, ?_⟩
      rw [following_ofNat (by omega), if_pos (by omega)]
      exact .cons (hlast _) hnil
    next htwo =>
      split
      next hthree =>
        refine ⟨_, _, rfl, ?_⟩
        rw [following_ofNat (by omega), if_neg (by omega)]
        split
        next =>
          refine .cons (within_ofNat (by omega) ?_ ?_) (.cons (hlast _) hnil)
          · show 160 ≤ _
            omega
          · show _ ≤ 191
            omega
        next =>
          split
          next =>
            refine .cons (within_ofNat (by omega) ?_ ?_) (.cons (hlast _) hnil)
            · show 128 ≤ _
              omega
            · show _ ≤ 159
              omega
          next =>
            rw [if_pos (by omega)]
            exact .cons (hlast _) (.cons (hlast _) hnil)
      next hthree =>
        refine ⟨_, _, rfl, ?_⟩
        rw [following_ofNat (by omega), if_neg (by omega), if_neg (by omega), if_neg (by omega),
          if_neg (by omega)]
        split
        next =>
          refine .cons (within_ofNat (by omega) ?_ ?_) (.cons (hlast _) (.cons (hlast _) hnil))
          · show 144 ≤ _
            omega
          · show _ ≤ 191
            omega
        next =>
          split
          next => exact .cons (hlast _) (.cons (hlast _) (.cons (hlast _) hnil))
          next =>
            rw [if_pos (by omega)]
            refine .cons (within_ofNat (by omega) ?_ ?_) (.cons (hlast _) (.cons (hlast _) hnil))
            · show 128 ≤ _
              omega
            · show _ ≤ 143
              omega

theorem pieces_flatMap (chars : List Char) :
    pieces (chars.flatMap String.utf8EncodeChar) = chars.map String.utf8EncodeChar := by
  induction chars with
  | nil => rfl
  | cons c chars ih =>
    obtain ⟨first, tail, hencode, hcompletes⟩ := completes_utf8EncodeChar c
    rw [List.flatMap_cons, List.map_cons, ← ih, hencode]
    exact piecesFrom_character hcompletes

/-- **A text is read as it is.** -/
theorem text_bytesOf (s : String) : text (bytesOf s) = s := by
  have hbytes : ∀ chars : List Char,
      bytesOf (String.ofList chars) = chars.flatMap String.utf8EncodeChar := by
    intro chars
    simp [bytesOf, List.utf8Encode]
  have hshown : ∀ c : Char, bytesOf (shown (String.utf8EncodeChar c)) = String.utf8EncodeChar c := by
    intro c
    have hchar := hbytes [c]
    rw [List.flatMap_singleton] at hchar
    rw [← hchar, shown, fromUTF8?_bytesOf, Option.getD_some]
  have hs : bytesOf s = s.toList.flatMap String.utf8EncodeChar := by
    rw [← hbytes, String.ofList_toList]
  have htext : bytesOf (text (bytesOf s)) = bytesOf s := by
    rw [bytesOf_text, shownBytes, hs, pieces_flatMap, List.flatMap_map]
    simp only [hshown]
  apply Option.some.inj
  rw [← fromUTF8?_bytesOf, htext, fromUTF8?_bytesOf]

end Text
end Attest.Library.Lossy
