-- SUMMARY: Decimal numerals and the numbers they stand for, in both directions.
import Phrasebook.Text.Numeral

/-!
# Numerals and numbers

Writing a number gives a numeral of that value (`value_toDigits`), and writing the value of a
numeral gives the numeral without its leading zeros (`toString_value`).
-/
namespace Phrasebook.Text.Numeral

theorem value_eq_ofDigitChars (ds : List Char) : value ds = Nat.ofDigitChars 10 ds 0 :=
  Nat.ofDigitChars_eq_foldl.symm

@[simp] theorem value_toDigits (n : Nat) : value (Nat.toDigits 10 n) = n := by
  rw [value_eq_ofDigitChars, Nat.ofDigitChars_ten_toDigits]

@[simp] theorem isNumeral_toDigits (n : Nat) : isNumeral (Nat.toDigits 10 n) = true := by
  have hdigits : ∀ c ∈ Nat.toDigits 10 n, c.isDigit = true := fun c hc =>
    Nat.isDigit_of_mem_toDigits (by decide) (by decide) hc
  simpa [isNumeral, Nat.toDigits_ne_nil] using hdigits

theorem isNumeral_iff {ds : List Char} :
    isNumeral ds = true ↔ ds ≠ [] ∧ ∀ d ∈ ds, d.isDigit = true := by
  simp [isNumeral]

private theorem digit_bounds {d : Char} (hd : d.isDigit = true) : 48 ≤ d.toNat ∧ d.toNat ≤ 57 :=
  Char.isDigit_iff_toNat.1 hd

theorem digit_lt_ten {d : Char} (hd : d.isDigit = true) : digit d < 10 := by
  have := digit_bounds hd
  simp only [digit, show '0'.toNat = 48 from rfl]
  omega

theorem digitChar_digit {d : Char} (hd : d.isDigit = true) : (digit d).digitChar = d := by
  have := digit_bounds hd
  apply Char.toNat_inj.1
  rw [Nat.toNat_digitChar_of_lt_ten (digit_lt_ten hd)]
  simp only [digit, show '0'.toNat = 48 from rfl]
  omega

/-- Digits read behind a number that is not zero are written behind it. -/
theorem toDigits_valueFrom {n : Nat} {ds : List Char} (hn : 0 < n)
    (hds : ∀ d ∈ ds, d.isDigit = true) :
    Nat.toDigits 10 (valueFrom n ds) = Nat.toDigits 10 n ++ ds := by
  induction ds generalizing n with
  | nil => simp [valueFrom]
  | cons d ds ih =>
    obtain ⟨hd, hrest⟩ := List.forall_mem_cons.1 hds
    have hlt : digit d < 10 := digit_lt_ten hd
    calc Nat.toDigits 10 (valueFrom n (d :: ds))
        = Nat.toDigits 10 (10 * n + digit d) ++ ds :=
          ih (n := 10 * n + digit d) (by omega) hrest
      _ = Nat.toDigits 10 n ++ Nat.toDigits 10 (digit d) ++ ds := by
          rw [Nat.toDigits_append_toDigits (by decide) hn hlt]
      _ = Nat.toDigits 10 n ++ d :: ds := by
          simp [Nat.toDigits_of_lt_base hlt, digitChar_digit hd]

/-- A number is written as any numeral of it, without the leading zeros. -/
theorem toString_value {ds : List Char} (hds : ∀ d ∈ ds, d.isDigit = true) (hne : value ds ≠ 0) :
    (toString (value ds)).toList = ds.dropWhile (· == '0') := by
  induction ds with
  | nil => exact absurd rfl hne
  | cons d ds ih =>
    obtain ⟨hd, hrest⟩ := List.forall_mem_cons.1 hds
    by_cases hzero : d = '0'
    · subst hzero
      have hvalue : value ('0' :: ds) = value ds := rfl
      rw [hvalue] at hne ⊢
      simpa using ih hrest hne
    · have hpos : 0 < digit d := by
        refine Nat.pos_of_ne_zero fun h => hzero ?_
        rw [← digitChar_digit hd, h, Nat.digitChar_eq_zero.2 rfl]
      have hvalue : value (d :: ds) = valueFrom (digit d) ds := by simp [value, valueFrom]
      rw [hvalue, Nat.toString_eq_ofList_toDigits, String.toList_ofList,
        toDigits_valueFrom hpos hrest, Nat.toDigits_of_lt_base (digit_lt_ten hd), digitChar_digit hd]
      simp [hzero]

/-- The digits of a number start with a zero only if the zero stands alone. -/
theorem toDigits_ne_zero_cons (n : Nat) (d : Char) (ds : List Char) :
    Nat.toDigits 10 n ≠ '0' :: d :: ds := by
  intro h
  have hdigits : ∀ d ∈ Nat.toDigits 10 n, d.isDigit = true :=
    (isNumeral_iff.1 (isNumeral_toDigits n)).2
  have hne : value (Nat.toDigits 10 n) ≠ 0 := by
    rw [value_toDigits]
    rintro rfl
    simp [Nat.toDigits_zero] at h
  have hdrop := toString_value hdigits hne
  rw [value_toDigits, Nat.toString_eq_ofList_toDigits, String.toList_ofList, h,
    List.dropWhile_cons_of_pos rfl] at hdrop
  have hlength : ('0' :: d :: ds).length ≤ (d :: ds).length := by
    calc ('0' :: d :: ds).length = ((d :: ds).dropWhile (· == '0')).length := congrArg _ hdrop
      _ ≤ (d :: ds).length := (List.dropWhile_suffix _).length_le
  exact absurd hlength (Nat.not_succ_le_self _)

/-- A number does not shrink by the digits behind it. -/
theorem le_valueFrom (n : Nat) (ds : List Char) : n ≤ valueFrom n ds := by
  induction ds generalizing n with
  | nil => exact Nat.le_refl n
  | cons d ds ih =>
    have := ih (10 * n + digit d)
    simp only [valueFrom, List.foldl_cons] at this ⊢
    omega

end Phrasebook.Text.Numeral
