import Attest.Library.SelfDelimiting
import Attest.Trust.Time
import Mathlib.Tactic.IntervalCases

/-! What a moment's text says of it.

The numbers of a date and of a time of day are written with a fixed count of digits, apart from
the year and the fraction, so a text is taken apart from its two ends. The calendar gives every
day a date of its own. Two moments with one text are the same moment, if a leap second is one
only at the end of its minute: a clock and a text give no other. -/
namespace Attest.Trust.DateTime
open Library (append_cons_inj)

/-! ### Padded numbers -/

theorem toList_padded (width n : Nat) :
    (padded width n).toList = List.replicate (width - (Nat.toDigits 10 n).length) '0' ++
      Nat.toDigits 10 n := by
  rw [padded, String.toList_ofList, List.leftpad]

theorem padded_injective (width : Nat) : Function.Injective (padded width) := by
  intro m n h
  have hread : ∀ k, Nat.ofDigitChars 10 (padded width k).toList 0 = k := by
    intro k
    rw [toList_padded, Nat.ofDigitChars_append, Nat.ofDigitChars_replicate_zero, Nat.mul_zero,
      Nat.ofDigitChars_ten_toDigits]
  rw [← hread m, ← hread n, h]

theorem length_padded {width n : Nat} (hwidth : 0 < width) (h : n < 10 ^ width) :
    (padded width n).toList.length = width := by
  have hdigits := (Nat.length_toDigits_le_iff (by decide : 1 < 10) hwidth).mpr h
  rw [toList_padded, List.length_append, List.length_replicate]
  omega

theorem isDigit_of_mem_padded {width n : Nat} {c : Char} (h : c ∈ (padded width n).toList) :
    c.isDigit = true := by
  rw [toList_padded, List.mem_append] at h
  rcases h with h | h
  · rw [(List.mem_replicate.mp h).2]
    decide
  · exact Nat.isDigit_of_mem_toDigits (by decide) (by decide) h

/-! ### The calendar -/

/-- The year that is counted off an era leaves a day within a year. -/
theorem dayOfYear_bounds {doe yoe : Nat} (h : doe < 146097)
    (hy : yoe = (doe - doe / 1460 + doe / 36524 - doe / 146096) / 365) :
    365 * yoe + yoe / 4 - yoe / 100 ≤ doe ∧ doe - (365 * yoe + yoe / 4 - yoe / 100) ≤ 365 := by
  by_cases hlast : doe = 146096
  · subst hlast hy
    decide
  · have hlast : doe / 146096 = 0 := by omega
    rw [hlast, Nat.sub_zero] at hy
    -- The centuries agree; `omega` finds this for each of the four.
    have hcentury : yoe / 100 = doe / 36524 := by
      have hfour : doe / 36524 < 4 := by omega
      generalize he : doe / 36524 = century at *
      interval_cases century <;> omega
    have hleap : yoe / 4 ≤ doe / 1460 := by omega
    have hleap' : doe / 1460 ≤ yoe / 4 + 1 := by omega
    omega

/-- The month and the day of a day of the year give it back. -/
theorem monthDay_bounds {doy mp : Nat} (h : doy ≤ 365) (hm : mp = (5 * doy + 2) / 153) :
    mp ≤ 11 ∧ (153 * mp + 2) / 5 ≤ doy ∧ doy - (153 * mp + 2) / 5 ≤ 30 := by
  omega

theorem month_day_civil (day : Int) :
    1 ≤ (civil day).2.1 ∧ (civil day).2.1 ≤ 12 ∧ (civil day).2.2 ≤ 31 := by
  unfold civil
  dsimp only
  generalize hdoe : ((day + 719468) % 146097).toNat = doe
  have hdoe : doe < 146097 := by omega
  generalize hy : (doe - doe / 1460 + doe / 36524 - doe / 146096) / 365 = yoe
  obtain ⟨_, hdoy⟩ := dayOfYear_bounds hdoe hy.symm
  generalize doe - (365 * yoe + yoe / 4 - yoe / 100) = doy at *
  generalize hm : (5 * doy + 2) / 153 = mp
  obtain ⟨hmp, _, _⟩ := monthDay_bounds hdoy hm.symm
  split
  next => omega
  next => omega

theorem civil_injective : Function.Injective civil := by
  intro day day' h
  unfold civil at h
  dsimp only at h
  have hdoe : ((day + 719468) % 146097).toNat < 146097 := by omega
  have hdoe' : ((day' + 719468) % 146097).toNat < 146097 := by omega
  have hday : day + 719468 = (day + 719468) / 146097 * 146097 +
    (((day + 719468) % 146097).toNat : Int) := by omega
  have hday' : day' + 719468 = (day' + 719468) / 146097 * 146097 +
    (((day' + 719468) % 146097).toNat : Int) := by omega
  generalize (day + 719468) / 146097 = era at *
  generalize (day' + 719468) / 146097 = era' at *
  generalize ((day + 719468) % 146097).toNat = doe at *
  generalize ((day' + 719468) % 146097).toNat = doe' at *
  have hyoe : (doe - doe / 1460 + doe / 36524 - doe / 146096) / 365 ≤ 399 := by omega
  have hyoe' : (doe' - doe' / 1460 + doe' / 36524 - doe' / 146096) / 365 ≤ 399 := by omega
  generalize hy : (doe - doe / 1460 + doe / 36524 - doe / 146096) / 365 = yoe at *
  generalize hy' : (doe' - doe' / 1460 + doe' / 36524 - doe' / 146096) / 365 = yoe' at *
  obtain ⟨hle, hdoy⟩ := dayOfYear_bounds hdoe hy.symm
  obtain ⟨hle', hdoy'⟩ := dayOfYear_bounds hdoe' hy'.symm
  generalize hstart : 365 * yoe + yoe / 4 - yoe / 100 = start at *
  generalize hstart' : 365 * yoe' + yoe' / 4 - yoe' / 100 = start' at *
  generalize hd : doe - start = doy at *
  generalize hd' : doe' - start' = doy' at *
  generalize hm : (5 * doy + 2) / 153 = mp at *
  generalize hm' : (5 * doy' + 2) / 153 = mp' at *
  obtain ⟨hmp, hsub, hdom⟩ := monthDay_bounds hdoy hm.symm
  obtain ⟨hmp', hsub', hdom'⟩ := monthDay_bounds hdoy' hm'.symm
  obtain ⟨hyear, hmonthDay⟩ := Prod.mk.inj h
  obtain ⟨hmonth, hdayOfMonth⟩ := Prod.mk.inj hmonthDay
  have hmpEq : mp = mp' := by
    split at hmonth <;> split at hmonth <;> omega
  subst hmpEq
  have hdoyEq : doy = doy' := by omega
  have hyears : era * 400 + yoe = era' * 400 + yoe' := by
    split at hyear <;> split at hyear <;> omega
  have hera : era = era' := by omega
  have hyoeEq : yoe = yoe' := by omega
  subst hera hyoeEq
  omega

/-! ### Texts of dates and times -/

theorem toList_inj_of_append_left {a a' b b' : String} (h : a ++ b = a' ++ b')
    (hlength : a.toList.length = a'.toList.length) : a = a' ∧ b = b' := by
  have hlist : a.toList ++ b.toList = a'.toList ++ b'.toList := by
    rw [← String.toList_append, ← String.toList_append, h]
  obtain ⟨ha, hb⟩ := List.append_inj hlist hlength
  exact ⟨String.toList_inj.mp ha, String.toList_inj.mp hb⟩

theorem toList_inj_of_append_right {a a' b b' : String} (h : a ++ b = a' ++ b')
    (hlength : b.toList.length = b'.toList.length) : a = a' ∧ b = b' := by
  have hlist : a.toList ++ b.toList = a'.toList ++ b'.toList := by
    rw [← String.toList_append, ← String.toList_append, h]
  obtain ⟨ha, hb⟩ := List.append_inj' hlist hlength
  exact ⟨String.toList_inj.mp ha, String.toList_inj.mp hb⟩

theorem head_padded {width n : Nat} {c : Char} {rest : List Char}
    (h : (padded width n).toList = c :: rest) : c.isDigit = true :=
  isDigit_of_mem_padded (h ▸ List.mem_cons_self)

/-- A year without a sign starts with a digit. -/
theorem padded_ne_signed {sign : Char} (hsign : sign.isDigit = false) (width n width' n' : Nat) :
    padded width n ≠ String.ofList [sign] ++ padded width' n' := by
  intro h
  have hlist : (padded width n).toList = sign :: (padded width' n').toList := by
    rw [h, String.toList_append, String.toList_ofList]
    rfl
  rw [head_padded hlist] at hsign
  cases hsign

/-- The three ways to write a year. -/
theorem yearText_cases (y : Int) :
    0 ≤ y ∧ yearText y = padded 4 y.toNat ∨
    y < 0 ∧ yearText y = String.ofList ['-'] ++ padded 4 y.natAbs ∨
    0 ≤ y ∧ yearText y = String.ofList ['+'] ++ padded 4 y.natAbs := by
  unfold yearText
  split
  next h => exact .inl ⟨h.1, rfl⟩
  next =>
    split
    next h => exact .inr (.inl ⟨h, rfl⟩)
    next h => exact .inr (.inr ⟨Int.not_lt.mp h, rfl⟩)

theorem yearText_injective : Function.Injective yearText := by
  have hsigned : ∀ {sign sign' : Char} {n n' : Nat},
      String.ofList [sign] ++ padded 4 n = String.ofList [sign'] ++ padded 4 n' →
        sign = sign' ∧ n = n' := by
    intro sign sign' n n' h
    obtain ⟨hsign, hn⟩ := toList_inj_of_append_left h (by simp)
    exact ⟨(List.cons.inj (String.ofList_injective hsign)).1, padded_injective 4 hn⟩
  have hminus : Char.isDigit '-' = false := by decide
  have hplus : Char.isDigit '+' = false := by decide
  intro y y' h
  rcases yearText_cases y with ⟨hy, ht⟩ | ⟨hy, ht⟩ | ⟨hy, ht⟩
  · rcases yearText_cases y' with ⟨hy', ht'⟩ | ⟨hy', ht'⟩ | ⟨hy', ht'⟩
    · rw [ht, ht'] at h
      have := padded_injective 4 h
      omega
    · rw [ht, ht'] at h
      exact absurd h (padded_ne_signed hminus 4 _ 4 _)
    · rw [ht, ht'] at h
      exact absurd h (padded_ne_signed hplus 4 _ 4 _)
  · rcases yearText_cases y' with ⟨hy', ht'⟩ | ⟨hy', ht'⟩ | ⟨hy', ht'⟩
    · rw [ht, ht'] at h
      exact absurd h.symm (padded_ne_signed hminus 4 _ 4 _)
    · rw [ht, ht'] at h
      have := (hsigned h).2
      omega
    · rw [ht, ht'] at h
      exact absurd (hsigned h).1 (by decide)
  · rcases yearText_cases y' with ⟨hy', ht'⟩ | ⟨hy', ht'⟩ | ⟨hy', ht'⟩
    · rw [ht, ht'] at h
      exact absurd h.symm (padded_ne_signed hplus 4 _ 4 _)
    · rw [ht, ht'] at h
      exact absurd (hsigned h).1 (by decide)
    · rw [ht, ht'] at h
      have := (hsigned h).2
      omega

theorem length_month_day (day : Int) :
    (padded 2 (civil day).2.1).toList.length = 2 ∧ (padded 2 (civil day).2.2).toList.length = 2 := by
  obtain ⟨_, hmonth, hday⟩ := month_day_civil day
  exact ⟨length_padded (by decide) (by omega), length_padded (by decide) (by omega)⟩

theorem day_of_dateText {t t' : DateTime} (h : t.dateText = t'.dateText) :
    t.secs / 86400 = t'.secs / 86400 := by
  apply civil_injective
  obtain ⟨hmonth, hday⟩ := length_month_day (t.secs / 86400)
  obtain ⟨hmonth', hday'⟩ := length_month_day (t'.secs / 86400)
  unfold dateText at h
  dsimp only at h
  obtain ⟨h, hdays⟩ := toList_inj_of_append_right h (hday.trans hday'.symm)
  obtain ⟨h, _⟩ := toList_inj_of_append_right h rfl
  obtain ⟨h, hmonths⟩ := toList_inj_of_append_right h (hmonth.trans hmonth'.symm)
  obtain ⟨hyears, _⟩ := toList_inj_of_append_right h rfl
  exact Prod.ext (yearText_injective hyears)
    (Prod.ext (padded_injective 2 hmonths) (padded_injective 2 hdays))

/-- The digits of a fraction, and how many. -/
theorem fractionText_cases {n : Nat} (hn : n < 1000000000) :
    n = 0 ∧ fractionText n = "" ∨
      ∃ width m, 0 < width ∧ m < 10 ^ width ∧ n = m * 10 ^ (9 - width) ∧
        fractionText n = "." ++ padded width m := by
  unfold fractionText
  split
  next h => exact .inl ⟨h, rfl⟩
  next =>
    right
    split
    next h => exact ⟨3, n / 1000000, by decide, by omega, by omega, rfl⟩
    next =>
      split
      next h => exact ⟨6, n / 1000, by decide, by omega, by omega, rfl⟩
      next => exact ⟨9, n, by decide, by omega, by omega, rfl⟩

/-- The fraction of a second has a text of its own. -/
theorem fractionText_inj {n n' : Nat} (hn : n < 1000000000) (hn' : n' < 1000000000)
    (h : fractionText n = fractionText n') : n = n' := by
  have hdot : ∀ width m, 0 < width → m < 10 ^ width →
      ("." ++ padded width m).toList.length = 1 + width := by
    intro width m hwidth hm
    rw [String.toList_append, List.length_append, length_padded hwidth hm]
    rfl
  have hempty : ("" : String).toList.length = 0 := rfl
  rcases fractionText_cases hn with ⟨h0, ht⟩ | ⟨width, m, hwidth, hm, hvalue, ht⟩
  · rcases fractionText_cases hn' with ⟨h0', ht'⟩ | ⟨width', m', hwidth', hm', _, ht'⟩
    · rw [h0, h0']
    · have hlength := congrArg (fun text => text.toList.length) (ht.symm.trans (h.trans ht'))
      simp only [hempty, hdot width' m' hwidth' hm'] at hlength
      omega
  · rcases fractionText_cases hn' with ⟨h0', ht'⟩ | ⟨width', m', hwidth', hm', hvalue', ht'⟩
    · have hlength := congrArg (fun text => text.toList.length) (ht.symm.trans (h.trans ht'))
      simp only [hempty, hdot width m hwidth hm] at hlength
      omega
    · have htexts := ht.symm.trans (h.trans ht')
      have hlength := congrArg (fun text => text.toList.length) htexts
      simp only [hdot width m hwidth hm, hdot width' m' hwidth' hm'] at hlength
      obtain rfl : width = width' := by omega
      rw [hvalue, hvalue', padded_injective width (toList_inj_of_append_left htexts rfl).2]

/-- A moment as a clock or a text gives it: a leap second ends its minute. -/
def Proper (t : DateTime) : Prop := t.nanos < 1000000000 ∨ t.secs % 60 = 59

instance (t : DateTime) : Decidable t.Proper := inferInstanceAs (Decidable (_ ∨ _))

theorem time_of_timeText {t t' : DateTime} (ht : t.Proper) (ht' : t'.Proper)
    (h : t.timeText = t'.timeText) :
    t.secs % 86400 = t'.secs % 86400 ∧ t.nanos = t'.nanos := by
  have hnanos := t.nanos_lt
  have hnanos' := t'.nanos_lt
  have htwo : ∀ k < 100, (padded 2 k).toList.length = 2 := by
    intro k hk
    exact length_padded (by decide) hk
  unfold timeText at h
  dsimp only at h
  rw [String.append_assoc, String.append_assoc, String.append_assoc, String.append_assoc,
    String.append_assoc, String.append_assoc, String.append_assoc, String.append_assoc] at h
  obtain ⟨hhour, h⟩ := toList_inj_of_append_left h
    ((htwo _ (by omega)).trans (htwo _ (by omega)).symm)
  obtain ⟨_, h⟩ := toList_inj_of_append_left h rfl
  obtain ⟨hminute, h⟩ := toList_inj_of_append_left h
    ((htwo _ (by omega)).trans (htwo _ (by omega)).symm)
  obtain ⟨_, h⟩ := toList_inj_of_append_left h rfl
  obtain ⟨hsecond, hfraction⟩ := toList_inj_of_append_left h
    ((htwo _ (by omega)).trans (htwo _ (by omega)).symm)
  have hhour := padded_injective 2 hhour
  have hminute := padded_injective 2 hminute
  have hsecond := padded_injective 2 hsecond
  have hfraction := fractionText_inj (Nat.mod_lt _ (by decide)) (Nat.mod_lt _ (by decide)) hfraction
  unfold Proper at ht ht'
  -- Second 60 is a leap second, and no other second is.
  have hleap : t.nanos / 1000000000 = t'.nanos / 1000000000 := by omega
  constructor
  · omega
  · omega

theorem capital_notMem_dateText (t : DateTime) : 'T' ∉ t.dateText.toList := by
  have hdigits : ∀ width n, 'T' ∉ (padded width n).toList := by
    intro width n h
    exact absurd (isDigit_of_mem_padded h) (by decide)
  have hyear : 'T' ∉ (yearText (civil (t.secs / 86400)).1).toList := by
    rcases yearText_cases (civil (t.secs / 86400)).1 with ⟨_, h⟩ | ⟨_, h⟩ | ⟨_, h⟩
    · rw [h]
      exact hdigits _ _
    · rw [h, String.toList_append, List.mem_append, not_or]
      exact ⟨by decide, hdigits _ _⟩
    · rw [h, String.toList_append, List.mem_append, not_or]
      exact ⟨by decide, hdigits _ _⟩
  unfold dateText
  simp [hyear, hdigits]

/-- Two moments with one text are one. -/
theorem toRfc3339_inj {t t' : DateTime} (ht : t.Proper) (ht' : t'.Proper)
    (h : t.toRfc3339 = t'.toRfc3339) : t = t' := by
  unfold toRfc3339 at h
  obtain ⟨h, _⟩ := toList_inj_of_append_right h rfl
  have hlist : t.dateText.toList ++ 'T' :: t.timeText.toList =
      t'.dateText.toList ++ 'T' :: t'.timeText.toList := by
    have hchars := congrArg String.toList h
    simpa [List.append_assoc] using hchars
  obtain ⟨hdate, htime⟩ := append_cons_inj (capital_notMem_dateText t)
    (capital_notMem_dateText t') hlist
  have hday := day_of_dateText (String.toList_inj.mp hdate)
  obtain ⟨hsecond, hnanos⟩ := time_of_timeText ht ht' (String.toList_inj.mp htime)
  apply ticks_injective
  unfold ticks
  omega

end Attest.Trust.DateTime
