-- SUMMARY: The text of an integer of 64 bits is a JSON numeral that is read as the integer.
import Phrasebook.Proofs.Json.Lexing
import Phrasebook.Proofs.Json.Nesting
import Phrasebook.Proofs.Text.Numeral

/-!
# Numbers

An integer that fits into 64 bits, with or without a sign, is written in decimal and read back
(`Number.scalar?_text`). No digit is left over when its digits are read, as the number of the first
ones is never greater than the number of all of them (`Numeral.significant_eq`).
-/
namespace Phrasebook.Json

open Text.Numeral (value valueFrom digit nat64Max le_valueFrom)

/-! ## Numerals without fraction and exponent -/

/-- The digits that a number is written with: there are some, and a zero in front stands alone. -/
structure Numeral.Digits (ds : List Char) : Prop where
  ne_nil   : ds ≠ []
  isDigit  : ∀ d ∈ ds, d.isDigit = true
  unpadded : ∀ d es, ds ≠ '0' :: d :: es

namespace Numeral

variable {ds : List Char}

theorem Digits.toDigits (n : Nat) : Digits (Nat.toDigits 10 n) where
  ne_nil   := Nat.toDigits_ne_nil
  isDigit  := (Text.Numeral.isNumeral_iff.1 (Text.Numeral.isNumeral_toDigits n)).2
  unpadded := Text.Numeral.toDigits_ne_zero_cons n

theorem whole?_digits (h : Digits ds) : whole? ds = some (ds, []) := by
  have htake : ds.takeWhile Char.isDigit = ds := by
    have htake := @List.takeWhile_append_of_pos _ Char.isDigit ds [] h.isDigit
    simpa using htake
  have hdrop : ds.dropWhile Char.isDigit = [] := by
    have hdrop := @List.dropWhile_append_of_pos _ Char.isDigit ds [] h.isDigit
    simpa using hdrop
  have hdigits : digits? ds = some (ds, []) := by
    unfold digits?
    rw [htake, hdrop]
    split
    case h_1 => exact absurd rfl h.ne_nil
    case h_2 => rfl
  unfold whole?
  simp only [hdigits, Option.bind_eq_bind, Option.bind_some]
  split
  case h_1 => exact absurd rfl (h.unpadded _ _)
  case h_2 => rfl

theorem ofChars?_digits (h : Digits ds) : ofChars? ds = some ⟨false, ds, none, none⟩ := by
  unfold ofChars?
  split
  case h_1 negative cs hsign =>
    split at hsign
    case h_1 => exact absurd (h.isDigit '-' (List.mem_cons_self ..)) (by decide)
    case h_2 =>
      cases hsign
      rw [whole?_digits h]
      rfl

theorem ofChars?_minus (h : Digits ds) : ofChars? ('-' :: ds) = some ⟨true, ds, none, none⟩ := by
  unfold ofChars?
  change (whole? ds).bind _ = _
  rw [whole?_digits h]
  rfl

/-- While the number of all digits fits into 64 bits, every digit counts. -/
theorem significant_eq {n : Nat} (h : valueFrom n ds ≤ nat64Max) :
    significant n ds = (valueFrom n ds, []) := by
  induction ds generalizing n with
  | nil => rfl
  | cons d ds ih =>
    have hnext : 10 * n + digit d ≤ nat64Max := Nat.le_trans (le_valueFrom _ ds) h
    exact (if_pos hnext).trans (ih h)

theorem number?_digits (h : value ds ≤ nat64Max) :
    number? ⟨false, ds, none, none⟩ = some (.int (value ds)) := by
  have hdigits : significant 0 ds = (value ds, []) := significant_eq h
  simp [number?, hdigits]

theorem number?_minus (hpos : 0 < value ds) (h : value ds ≤ Nat.pow 2 63) :
    number? ⟨true, ds, none, none⟩ = some (.int (-value ds)) := by
  have hmax : value ds ≤ nat64Max := Nat.le_trans h (by decide)
  have hdigits : significant 0 ds = (value ds, []) := significant_eq hmax
  have hbounds : 0 < value ds ∧ value ds ≤ Nat.pow 2 63 := ⟨hpos, h⟩
  simp only [number?, hdigits, List.isEmpty_nil, Bool.not_true, Bool.false_eq_true, if_false,
    if_pos hbounds]

end Numeral

/-! ## Scalars -/

theorem scalar?_of_numeral {cs : List Char} {numeral : Numeral} {n : Number}
    (h : Numeral.ofChars? cs = some numeral) (hn : numeral.number? = some n) :
    scalar? cs = some (.number n) := by
  have hnull : cs ≠ ['n', 'u', 'l', 'l'] := by rintro rfl; cases h
  have htrue : cs ≠ ['t', 'r', 'u', 'e'] := by rintro rfl; cases h
  have hfalse : cs ≠ ['f', 'a', 'l', 's', 'e'] := by rintro rfl; cases h
  simp [scalar?, hnull, htrue, hfalse, h, hn]

theorem isDelimiter_of_isDigit {c : Char} (h : c.isDigit = true) : isDelimiter c = false := by
  refine Bool.eq_false_iff.2 fun hc => ?_
  unfold isDelimiter isSeparator punctuation? at hc
  split at hc
  case h_7 =>
    simp only [Option.isSome_none, Bool.or_false, Bool.or_eq_true, beq_iff_eq] at hc
    obtain (((rfl | rfl) | rfl) | rfl) | rfl := hc <;> exact absurd h (by decide)
  all_goals exact absurd h (by decide)

theorem scalar?_toDigits {n : Nat} (h : n ≤ nat64Max) :
    scalar? (Nat.toDigits 10 n) = some (.number (.int n)) := by
  have hmax : value (Nat.toDigits 10 n) ≤ nat64Max := by simpa using h
  refine scalar?_of_numeral (Numeral.ofChars?_digits (.toDigits n)) ?_
  simpa using Numeral.number?_digits hmax

theorem scalar?_minus_toDigits {n : Nat} (hpos : 0 < n) (h : n ≤ Nat.pow 2 63) :
    scalar? ('-' :: Nat.toDigits 10 n) = some (.number (.int (-n))) := by
  have hvalue : 0 < value (Nat.toDigits 10 n) ∧ value (Nat.toDigits 10 n) ≤ Nat.pow 2 63 := by
    simpa using And.intro hpos h
  refine scalar?_of_numeral (Numeral.ofChars?_minus (.toDigits n)) ?_
  simpa using Numeral.number?_minus hvalue.1 hvalue.2

/-! ## Integers of 64 bits -/

namespace Number

theorem text_ofNat (n : Nat) : (Number.int n).text.toList = Nat.toDigits 10 n :=
  Nat.toList_repr

theorem text_negSucc (n : Nat) :
    (Number.int (.negSucc n)).text.toList = '-' :: Nat.toDigits 10 (n + 1) := by
  have htext : (Number.int (.negSucc n)).text = "-" ++ (n + 1).repr := rfl
  rw [htext, String.toList_append, Nat.toList_repr]
  rfl

/-- The text of an integer of 64 bits denotes the integer. -/
theorem scalar?_text {n : Number} (h : n.Fits) : scalar? n.text.toList = some (.number n) := by
  match n, h with
  | .int (.ofNat n), ⟨_, hmax⟩ =>
    have hn : n ≤ nat64Max := Int.ofNat_le.1 hmax
    exact (congrArg scalar? (text_ofNat n)).trans (scalar?_toDigits hn)
  | .int (.negSucc n), ⟨hmin, _⟩ =>
    have hn : n + 1 ≤ 9223372036854775808 := by
      simp only [Text.Numeral.int64Min] at hmin
      omega
    exact (congrArg scalar? (text_negSucc n)).trans (scalar?_minus_toDigits n.succ_pos hn)

/-- The text of an integer has no delimiter in it. -/
theorem isDelimiter_text {n : Number} (h : n.Fits) : ∀ c ∈ n.text.toList, isDelimiter c = false := by
  match n, h with
  | .int (.ofNat n), _ =>
    have htext : (Number.int (.ofNat n)).text.toList = Nat.toDigits 10 n := text_ofNat n
    rw [htext]
    exact fun c hc => isDelimiter_of_isDigit ((Numeral.Digits.toDigits n).isDigit c hc)
  | .int (.negSucc n), _ =>
    rw [text_negSucc]
    refine List.forall_mem_cons.2 ⟨by decide, ?_⟩
    exact fun c hc => isDelimiter_of_isDigit ((Numeral.Digits.toDigits (n + 1)).isDigit c hc)

end Number

end Phrasebook.Json
