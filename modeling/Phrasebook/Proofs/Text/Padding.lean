-- SUMMARY: Numerals of one width: their value, and that their order is that of their values.
import Mathlib.Tactic.Ring
import Phrasebook.Proofs.Text.Numeral

/-!
# Numerals of a fixed width

A number that fits is written in exactly the width asked for (`length_padded`) and keeps its value
(`value_padded`). Of numerals of one width, those of greater numbers come later as texts
(`padded_lt_padded`), which is how texts with such numerals in them can be compared part by part
(`append_lt_append`).
-/
namespace Phrasebook.Text

/-- Texts that start with parts of one length are ordered as these parts. -/
theorem append_lt_append {cs ds : List Char} (hlength : cs.length = ds.length) (hlt : cs < ds)
    (rest rest' : List Char) : cs ++ rest < ds ++ rest' := by
  induction cs generalizing ds with
  | nil =>
    obtain rfl := List.eq_nil_of_length_eq_zero hlength.symm
    exact absurd hlt (List.lt_irrefl [])
  | cons c cs ih =>
    cases ds with
    | nil => cases hlength
    | cons d ds =>
      rw [List.cons_append, List.cons_append, List.cons_lt_cons_iff]
      rcases List.cons_lt_cons_iff.1 hlt with hhead | ⟨rfl, htail⟩
      · exact .inl hhead
      · exact .inr ⟨rfl, ih (Nat.succ.inj hlength) htail⟩

namespace Numeral

theorem valueFrom_eq (n : Nat) (ds : List Char) :
    valueFrom n ds = n * 10 ^ ds.length + value ds := by
  induction ds generalizing n with
  | nil => simp [valueFrom, value]
  | cons d ds ih =>
    have hhead := ih (10 * n + digit d)
    have htail := ih (digit d)
    simp only [value, valueFrom, List.foldl_cons, Nat.mul_zero, Nat.zero_add] at hhead htail ⊢
    rw [hhead, htail, List.length_cons, Nat.pow_succ]
    ring

theorem value_cons (d : Char) (ds : List Char) :
    value (d :: ds) = digit d * 10 ^ ds.length + value ds := by
  rw [← valueFrom_eq]
  simp [value, valueFrom]

theorem value_lt_pow {ds : List Char} (h : ∀ d ∈ ds, d.isDigit = true) :
    value ds < 10 ^ ds.length := by
  induction ds with
  | nil => decide
  | cons d ds ih =>
    obtain ⟨hd, hds⟩ := List.forall_mem_cons.1 h
    calc value (d :: ds) = digit d * 10 ^ ds.length + value ds := value_cons d ds
      _ < digit d * 10 ^ ds.length + 10 ^ ds.length := Nat.add_lt_add_left (ih hds) _
      _ = (digit d + 1) * 10 ^ ds.length := (Nat.succ_mul _ _).symm
      _ ≤ 10 * 10 ^ ds.length := Nat.mul_le_mul_right _ (digit_lt_ten hd)
      _ = 10 ^ (d :: ds).length := by rw [List.length_cons, Nat.pow_succ, Nat.mul_comm]

/-- Of two digits the one with the greater value comes later. -/
theorem lt_of_digit_lt {d e : Char} (hd : d.isDigit = true) (hlt : digit d < digit e) : d < e := by
  have hlow := (Char.isDigit_iff_toNat.1 hd).1
  simp only [digit, show '0'.toNat = 48 from rfl] at hlt
  rw [Char.lt_def, UInt32.lt_iff_toNat_lt]
  change d.toNat < e.toNat
  omega

theorem eq_of_digit_eq {d e : Char} (hd : d.isDigit = true) (he : e.isDigit = true)
    (h : digit d = digit e) : d = e := by
  rw [← digitChar_digit hd, h, digitChar_digit he]

/-- Of two numerals of one width the one with the greater value comes later as a text. -/
theorem lt_of_value_lt {ds es : List Char} (hlength : ds.length = es.length)
    (hds : ∀ d ∈ ds, d.isDigit = true) (hes : ∀ e ∈ es, e.isDigit = true)
    (hlt : value ds < value es) : ds < es := by
  induction ds generalizing es with
  | nil =>
    obtain rfl := List.eq_nil_of_length_eq_zero hlength.symm
    exact absurd hlt (Nat.lt_irrefl _)
  | cons d ds ih =>
    cases es with
    | nil => cases hlength
    | cons e es =>
      obtain ⟨hd, hds⟩ := List.forall_mem_cons.1 hds
      obtain ⟨he, hes⟩ := List.forall_mem_cons.1 hes
      have hlength := Nat.succ.inj hlength
      rw [value_cons, value_cons, hlength] at hlt
      rw [List.cons_lt_cons_iff]
      -- the first digits decide unless they are equal, as the rest is less than one of their units
      rcases Nat.lt_trichotomy (digit d) (digit e) with hhead | hhead | hhead
      · exact .inl (lt_of_digit_lt hd hhead)
      · rw [hhead, Nat.add_lt_add_iff_left] at hlt
        exact .inr ⟨eq_of_digit_eq hd he hhead, ih hlength hds hes hlt⟩
      · have hunits : (digit e + 1) * 10 ^ es.length ≤ digit d * 10 ^ es.length :=
          Nat.mul_le_mul_right _ hhead
        have hrest := value_lt_pow hes
        rw [Nat.succ_mul] at hunits
        omega

/-! ## Padding -/

section
variable {width n : Nat}

theorem toList_padded (width n : Nat) :
    (padded width n).toList =
      List.replicate (width - (Nat.toDigits 10 n).length) '0' ++ Nat.toDigits 10 n := by
  rw [padded, padLeft, Nat.toString_eq_ofList_toDigits, String.length_ofList]
  simp

theorem isDigit_of_mem_padded {c : Char} (h : c ∈ (padded width n).toList) : c.isDigit = true := by
  rw [toList_padded, List.mem_append] at h
  rcases h with h | h
  · rw [List.eq_of_mem_replicate h]
    rfl
  · exact Nat.isDigit_of_mem_toDigits (by decide) (by decide) h

theorem length_padded (hwidth : 0 < width) (h : n < 10 ^ width) :
    (padded width n).toList.length = width := by
  have hfits := (Nat.length_toDigits_le_iff (by decide) hwidth).2 h
  rw [toList_padded, List.length_append, List.length_replicate]
  omega

theorem value_replicate_zero (width : Nat) : value (List.replicate width '0') = 0 := by
  induction width with
  | zero => rfl
  | succ width ih => simpa [List.replicate_succ, value_cons, digit] using ih

@[simp] theorem value_padded (width n : Nat) : value (padded width n).toList = n := by
  rw [toList_padded, value, valueFrom_append, ← value, value_replicate_zero]
  exact value_toDigits n

theorem padded_lt_padded {m : Nat} (hwidth : 0 < width) (hlt : m < n) (h : n < 10 ^ width) :
    (padded width m).toList < (padded width n).toList := by
  have hlength : (padded width m).toList.length = (padded width n).toList.length := by
    rw [length_padded hwidth (hlt.trans h), length_padded hwidth h]
  refine lt_of_value_lt hlength (fun _ => isDigit_of_mem_padded) (fun _ => isDigit_of_mem_padded) ?_
  rwa [value_padded, value_padded]

end

end Numeral

end Phrasebook.Text
