import Mathlib.Data.List.Infix

/-! Texts put together around a word.

Where a text is cut at the first place a word stands, it can be put together again in one way
only. A word whose first symbol does not come back in it stands for the first time behind every
text that does not hold it, so parts that do not hold the word are told from each other when it is
put in front of them. -/
namespace Attest.Library.Words
variable {α : Type} {word a a' rest rest' : List α} {parts parts' : List (List α)}

/-- Behind this text the word stands for the first time. -/
def EndsAt (word a : List α) : Prop := ∀ b, b ++ word <+: a ++ word → b = a

theorem cut_unique (h : EndsAt word a) (h' : EndsAt word a')
    (hsame : a ++ word ++ rest = a' ++ word ++ rest') : a = a' ∧ rest = rest' := by
  have hprefix : a ++ word <+: a' ++ word ++ rest' := ⟨rest, hsame⟩
  have hprefix' : a' ++ word <+: a' ++ word ++ rest' := ⟨rest', rfl⟩
  have heq : a = a' := by
    rcases List.prefix_or_prefix_of_prefix hprefix hprefix' with hle | hle
    · exact h' a hle
    · exact (h a' hle).symm
  subst heq
  exact ⟨rfl, List.append_cancel_left hsame⟩

/-- Such a word stands first behind whatever does not hold it. -/
theorem endsAt_of_not_in {x : α} {tail : List α} (hx : x ∉ tail) (h : ¬ (x :: tail) <:+: a) :
    EndsAt (x :: tail) a := by
  intro b hb
  have hlength : b.length ≤ a.length := by simpa using hb.length_le
  have hprefix : b <+: a := by
    refine List.prefix_of_prefix_length_le ?_ (List.prefix_append a (x :: tail)) hlength
    exact (List.prefix_append b _).trans hb
  obtain ⟨c, rfl⟩ := hprefix
  cases c with
  | nil => exact (List.append_nil b).symm
  | cons y c =>
    rw [List.append_assoc, List.prefix_append_right_inj, List.cons_append,
      List.cons_prefix_cons] at hb
    obtain ⟨rfl, htail⟩ := hb
    -- The rest of the word lies in what is left of the text, or the word begins again within it.
    rcases Nat.lt_or_ge c.length tail.length with hlt | hge
    · have hagain : c ++ [x] <+: tail := by
        refine List.prefix_of_prefix_length_le ?_ htail ?_
        · exact ⟨tail, by simp⟩
        · rw [List.length_append, List.length_singleton]
          exact hlt
      exact absurd (hagain.subset (by simp)) hx
    · have hin : tail <+: c := List.prefix_of_prefix_length_le htail (List.prefix_append c _) hge
      exact absurd ((List.cons_prefix_cons.mpr ⟨rfl, hin⟩).isInfix.trans
        (List.suffix_append b _).isInfix) h

/-- A word that is in neither part is over where they meet, and then the second part begins within
it. -/
theorem not_infix_append {x c : α} {tail b : List α} (hc : c ∉ tail) (ha : ¬ (x :: tail) <:+: a)
    (hb : ¬ (x :: tail) <:+: c :: b) : ¬ (x :: tail) <:+: a ++ c :: b := by
  intro h
  rcases List.infix_append_iff_ne_nil.mp h with h | h | h
  · exact ha h
  · exact hb h
  · obtain ⟨front, back, hfront, hback, hword, -, hprefix⟩ := h
    cases front with
    | nil => exact hfront rfl
    | cons y front =>
      cases back with
      | nil => exact hback rfl
      | cons z back =>
        obtain ⟨rfl, -⟩ := List.cons_prefix_cons.mp hprefix
        obtain ⟨rfl, rfl⟩ := List.cons.inj hword
        exact hc (by simp)

/-- Where neither side holds the word, it stands once. -/
theorem cut_unique_of_not_in {x : α} {tail : List α} (hx : x ∉ tail) (ha : ¬ (x :: tail) <:+: a)
    (hrest : ¬ (x :: tail) <:+: rest) (hsame : a' ++ (x :: tail) ++ rest' = a ++ (x :: tail) ++ rest) :
    a' = a ∧ rest' = rest := by
  have hprefix : a' ++ (x :: tail) <+: a ++ (x :: tail) ++ rest := ⟨rest', hsame⟩
  rcases Nat.lt_or_ge a.length a'.length with hlt | hge
  · -- The other cut lies behind this one, so that the word begins again in what follows.
    have hfront : a <+: a' := by
      refine List.prefix_of_prefix_length_le ?_ ((List.prefix_append a' _).trans hprefix) hlt.le
      exact ⟨(x :: tail) ++ rest, (List.append_assoc _ _ _).symm⟩
    obtain ⟨c, rfl⟩ := hfront
    cases c with
    | nil => simp at hlt
    | cons y c =>
      rw [List.append_assoc, List.append_assoc, List.append_assoc] at hsame
      have hbehind := (List.cons.inj (List.append_cancel_left hsame)).2
      have hagain : (x :: tail) <:+: tail ++ rest :=
        ⟨c, rest', (List.append_assoc c _ _).trans hbehind⟩
      rcases List.infix_append_iff_ne_nil.mp hagain with h | h | h
      · exact absurd (h.subset List.mem_cons_self) hx
      · exact absurd h hrest
      · obtain ⟨front, back, hne, -, hword, hsuffix, -⟩ := h
        cases front with
        | nil => exact absurd rfl hne
        | cons z front =>
          obtain ⟨rfl, -⟩ := List.cons.inj hword
          exact absurd (hsuffix.subset List.mem_cons_self) hx
  · have hback : a' ++ (x :: tail) <+: a ++ (x :: tail) := by
      refine List.prefix_of_prefix_length_le hprefix (List.prefix_append _ _) ?_
      rw [List.length_append, List.length_append]
      exact Nat.add_le_add_right hge _
    have heq : a' = a := endsAt_of_not_in hx ha a' hback
    subst heq
    exact ⟨rfl, List.append_cancel_left hsame⟩

/-- The parts, with the word in front of each but the first. -/
def join (word a : List α) (parts : List (List α)) : List α := a ++ parts.flatMap (word ++ ·)

theorem join_cons {part : List α} : join word a (part :: parts) = a ++ word ++ join word part parts := by
  simp only [join, List.flatMap_cons, List.append_assoc]

theorem join_nil_ne {part : List α} (hword : word ≠ []) (h : EndsAt word a) :
    join word a [] ≠ join word a' (part :: parts') := by
  intro hsame
  rw [join_cons, join, List.flatMap_nil, List.append_nil] at hsame
  have heq : a' = a := h a' (hsame ▸ ⟨join word part parts' ++ word, by simp⟩)
  have hlength := congrArg List.length hsame
  rw [heq, List.length_append, List.length_append] at hlength
  have hpos := List.length_pos_iff.mpr hword
  omega

theorem join_inj (hword : word ≠ []) (h : ∀ part ∈ a :: parts, EndsAt word part)
    (h' : ∀ part ∈ a' :: parts', EndsAt word part)
    (hsame : join word a parts = join word a' parts') : a = a' ∧ parts = parts' := by
  induction parts generalizing a a' parts' with
  | nil =>
    cases parts' with
    | nil => exact ⟨by simpa [join] using hsame, rfl⟩
    | cons part' parts' => exact absurd hsame (join_nil_ne hword (h a List.mem_cons_self))
  | cons part parts ih =>
    cases parts' with
    | nil => exact absurd hsame.symm (join_nil_ne hword (h' a' List.mem_cons_self))
    | cons part' parts' =>
      rw [List.forall_mem_cons] at h h'
      rw [join_cons, join_cons] at hsame
      obtain ⟨rfl, hrest⟩ := cut_unique h.1 h'.1 hsame
      obtain ⟨rfl, rfl⟩ := ih h.2 h'.2 hrest
      exact ⟨rfl, rfl⟩

end Attest.Library.Words
