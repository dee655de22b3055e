import SecurityScan.Decimal.Reading
import Mathlib.Data.List.Induction

namespace SecurityScan.Decimal

/-!
# Numerals

A natural number and the digits that it is written with.

* `value_toDigits` — the digits of a number stand for it;
* `IsNumeral` — digits without a leading zero;
* `isNumeral_toDigits` and `toDigits_value` — these are the digits that numbers are written with;
* `isNumeral_and_value_iff` — so a numeral of a number is its digits, and there is no other one;
* `isNumeral_iff` and `eq_toString_iff` — how texts are checked for being a numeral.
-/

/-! ### Digits -/

theorem digitValue_lt {d : Char} (hd : d.isDigit = true) : digitValue d < 10 := by
  have hrange := Char.isDigit_iff_toNat.mp hd
  have hzero : '0'.toNat = 48 := rfl
  have hnine : '9'.toNat = 57 := rfl
  rw [digitValue, if_pos hd]
  omega

theorem digitValue_digitChar {n : Nat} (hn : n < 10) : digitValue n.digitChar = n := by
  have hdigit : n.digitChar.isDigit = true := by rw [Nat.isDigit_digitChar, decide_eq_true hn]
  have hzero : '0'.toNat = 48 := rfl
  rw [digitValue, if_pos hdigit, Nat.toNat_digitChar_of_lt_ten hn]
  omega

theorem digitChar_digitValue {d : Char} (hd : d.isDigit = true) : (digitValue d).digitChar = d := by
  have hrange := Char.isDigit_iff_toNat.mp hd
  have hzero : '0'.toNat = 48 := rfl
  have hvalue : digitValue d = d.toNat - 48 := by rw [digitValue, if_pos hd, hzero]
  refine Char.toNat_inj.mp ?_
  rw [Nat.toNat_digitChar_of_lt_ten (digitValue_lt hd)]
  omega

/-! ### The number of a list of digits -/

theorem value_singleton (d : Char) : value [d] = digitValue d := by
  simp [value, valueIn]

theorem value_append_singleton (ds : List Char) (d : Char) :
    value (ds ++ [d]) = 10 * value ds + digitValue d := by
  have h : value (ds ++ [d]) = value ds * 10 + digitValue d := by
    simp [value, valueIn, List.foldl_append]
  omega

/-- The digits of a number stand for it. -/
theorem value_toDigits (n : Nat) : value (Nat.toDigits 10 n) = n := by
  induction n using Nat.strongRecOn with
  | ind n ih =>
    by_cases hn : n < 10
    · rw [Nat.toDigits_of_lt_base hn, value_singleton, digitValue_digitChar hn]
    · -- the last digit stands behind the digits of the tenth part
      have hlast : n % 10 < 10 := Nat.mod_lt n (by decide)
      have hfront : n / 10 < n := by omega
      rw [Nat.toDigits_eq_if (by decide), if_neg hn, value_append_singleton, ih _ hfront,
        digitValue_digitChar hlast]
      omega

/-! ### Numerals -/

/-- At least one digit and no other character, and no zero before another digit. -/
def IsNumeral (ds : List Char) : Prop :=
  ds ≠ [] ∧ (∀ d ∈ ds, d.isDigit = true) ∧ (ds.length = 1 ∨ ds.head? ≠ some '0')

/-- The digits of a number do not start with a zero, except those of zero. -/
theorem head?_toDigits_ne {n : Nat} (hn : 0 < n) : (Nat.toDigits 10 n).head? ≠ some '0' := by
  induction n using Nat.strongRecOn with
  | ind n ih =>
    by_cases hlt : n < 10
    · rw [Nat.toDigits_of_lt_base hlt]
      have hne : n.digitChar ≠ '0' := fun h => absurd (Nat.digitChar_eq_zero.mp h) (by omega)
      simpa using hne
    · rw [Nat.toDigits_eq_if (by decide), if_neg hlt,
        List.head?_append,
        Option.or_of_isSome (List.isSome_head?.mpr Nat.toDigits_ne_nil)]
      exact ih (n / 10) (by omega) (by omega)

theorem isNumeral_toDigits (n : Nat) : IsNumeral (Nat.toDigits 10 n) := by
  refine ⟨Nat.toDigits_ne_nil, fun d hd => ?_, ?_⟩
  · exact Nat.isDigit_of_mem_toDigits (by decide) (by decide) hd
  · rcases Nat.eq_zero_or_pos n with rfl | hn
    · exact .inl rfl
    · exact .inr (head?_toDigits_ne hn)

/-- A numeral is the digits of the number that it stands for. -/
theorem toDigits_value {ds : List Char} (h : IsNumeral ds) : Nat.toDigits 10 (value ds) = ds := by
  induction ds using List.reverseRecOn with
  | nil => exact absurd rfl h.1
  | append_singleton ds d ih =>
    obtain ⟨_, hdigits, hhead⟩ := h
    have hd : d.isDigit = true := hdigits d (by simp)
    have hlt : digitValue d < 10 := digitValue_lt hd
    have hlast : Nat.toDigits 10 (digitValue d) = [d] := by
      rw [Nat.toDigits_of_lt_base hlt, digitChar_digitValue hd]
    by_cases hnil : ds = []
    · rw [hnil, List.nil_append, value_singleton, hlast]
    · -- with a digit before the last one the numeral does not start with a zero
      have hfront : ds.head? ≠ some '0' := by
        rw [List.head?_append, Option.or_of_isSome (List.isSome_head?.mpr hnil)] at hhead
        rcases hhead with hlength | hhead
        · simp [hnil] at hlength
        · exact hhead
      have hds : Nat.toDigits 10 (value ds) = ds :=
        ih ⟨hnil, fun c hc => hdigits c (by simp [hc]), .inr hfront⟩
      have hpos : 0 < value ds := by
        refine Nat.pos_of_ne_zero fun hzero => hfront ?_
        rw [← hds, hzero]
        rfl
      rw [value_append_singleton, ← Nat.toDigits_append_toDigits (by decide) hpos hlt, hds, hlast]

/-- **Numerals.** A number has one numeral, its digits. -/
theorem isNumeral_and_value_iff {ds : List Char} {n : Nat} :
    IsNumeral ds ∧ value ds = n ↔ ds = Nat.toDigits 10 n := by
  constructor
  · rintro ⟨h, rfl⟩
    exact (toDigits_value h).symm
  · rintro rfl
    exact ⟨isNumeral_toDigits n, value_toDigits n⟩

/-- The check for a numeral. -/
theorem isNumeral_iff {ds : List Char} :
    (!ds.isEmpty && ds.all Char.isDigit && (ds.length == 1 || ds.head? != some '0')) = true ↔
      IsNumeral ds := by
  simp [IsNumeral, and_assoc]

/-- The text of a number is its numeral. -/
theorem eq_toString_iff {s : String} {n : Nat} :
    s = toString n ↔ IsNumeral s.toList ∧ value s.toList = n := by
  have hdigits : (toString n).toList = Nat.toDigits 10 n := by
    rw [Nat.toString_eq_repr, Nat.toList_repr]
  rw [← String.toList_inj, hdigits, isNumeral_and_value_iff]

end SecurityScan.Decimal
