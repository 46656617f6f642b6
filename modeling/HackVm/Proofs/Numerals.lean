import HackVm.Text.Numeral
import Mathlib.Algebra.Ring.Nat

/-!
# Decimal text and its value

* `isDigit_of_mem_text`, `length_text_le` : a number without a sign is written in digits, and within the
  limit if it fits;
* `ofDigitChars_text` : its digits are read back, so that no two integers are written alike
  (`text_injective`);
* `fits_ofDigitChars` : a run of digits within the limit stands for a number that fits.
-/

namespace HackVm.Numeral

theorem isDigit_eq (c : Char) : isDigit c = c.isDigit := by
  unfold isDigit Char.isDigit
  simp only [Char.le_def]

/-! ## Written numbers -/

theorem toList_text_natCast (n : Nat) : (text n).toList = Nat.toDigits 10 n := by
  show (Nat.repr n).toList = _
  exact Nat.toList_repr

theorem text_negSucc (n : Nat) : text (Int.negSucc n) = "-" ++ text (n + 1 : Nat) := rfl

theorem isDigit_of_mem_text {n : Nat} {c : Char} (h : c ∈ (text n).toList) : isDigit c = true := by
  rw [toList_text_natCast] at h
  rw [isDigit_eq]
  exact Nat.isDigit_of_mem_toDigits (by omega) (by omega) h

theorem isDigit_or_minus_of_mem_text {i : Int} {c : Char} (h : c ∈ (text i).toList) :
    isDigit c = true ∨ c = '-' := by
  cases i with
  | ofNat n => exact .inl (isDigit_of_mem_text h)
  | negSucc n =>
    rw [text_negSucc, String.toList_append] at h
    rcases List.mem_append.1 h with h | h
    · exact .inr (List.mem_singleton.1 h)
    · exact .inl (isDigit_of_mem_text h)

theorem not_mem_text {c : Char} (hd : isDigit c = false) (hminus : c ≠ '-') (i : Int) :
    c ∉ (text i).toList := by
  intro h
  rcases isDigit_or_minus_of_mem_text h with hdigit | hc
  · rw [hd] at hdigit
    cases hdigit
  · exact hminus hc

theorem ofDigitChars_text (n : Nat) : Nat.ofDigitChars 10 (text n).toList 0 = n := by
  rw [toList_text_natCast]
  exact Nat.ofDigitChars_ten_toDigits

theorem text_natCast_injective {m n : Nat} (h : text m = text n) : m = n := by
  rw [← ofDigitChars_text m, h, ofDigitChars_text]

theorem text_natCast_ne_minus (m : Nat) (s : String) : text m ≠ "-" ++ s := by
  intro h
  have hmem : '-' ∈ (text m).toList := by simp [h]
  exact absurd (isDigit_of_mem_text hmem) (by decide)

theorem text_injective {i j : Int} (h : text i = text j) : i = j := by
  cases i with
  | ofNat m =>
    cases j with
    | ofNat n => exact congrArg Int.ofNat (text_natCast_injective h)
    | negSucc n => exact absurd h (text_natCast_ne_minus m _)
  | negSucc m =>
    cases j with
    | ofNat n => exact absurd h.symm (text_natCast_ne_minus n _)
    | negSucc n =>
      rw [text_negSucc, text_negSucc, String.append_right_inj] at h
      have hmn := text_natCast_injective h
      rw [Nat.succ.inj hmn]

/-! ## The limit -/

theorem fits_natCast {n : Nat} : Fits n ↔ n < 10 ^ limit := by
  unfold Fits
  rw [Nat.pow_eq, Int.natAbs_natCast]

theorem length_text_le {n : Nat} (h : Fits n) : (text n).toList.length ≤ limit := by
  rw [toList_text_natCast, Nat.length_toDigits_le_iff (by decide) (by decide)]
  exact fits_natCast.1 h

theorem ofDigitChars_lt {ds : List Char} (h : ∀ c ∈ ds, isDigit c = true) :
    Nat.ofDigitChars 10 ds 0 < 10 ^ ds.length := by
  induction ds with
  | nil => simp
  | cons d ds ih =>
    rw [List.forall_mem_cons, isDigit_eq] at h
    have hd : d.toNat - '0'.toNat ≤ 9 := by
      have h9 : d.toNat ≤ '9'.toNat := (Char.isDigit_iff_toNat.1 h.1).2
      exact Nat.sub_le_sub_right h9 _
    have hds := ih h.2
    rw [Nat.ofDigitChars_cons, Nat.ofDigitChars_eq_ofDigitChars_zero, List.length_cons, Nat.pow_succ,
      Nat.mul_zero, Nat.zero_add]
    calc 10 ^ ds.length * (d.toNat - '0'.toNat) + Nat.ofDigitChars 10 ds 0
        < 10 ^ ds.length * (d.toNat - '0'.toNat) + 10 ^ ds.length := by omega
      _ = 10 ^ ds.length * (d.toNat - '0'.toNat + 1) := by rw [Nat.mul_add, Nat.mul_one]
      _ ≤ 10 ^ ds.length * 10 := Nat.mul_le_mul_left _ (by omega)

theorem fits_ofDigitChars {ds : List Char} (h : ∀ c ∈ ds, isDigit c = true)
    (hlen : ds.length ≤ limit) : Fits (Nat.ofDigitChars 10 ds 0 : Nat) := by
  rw [fits_natCast]
  exact Nat.lt_of_lt_of_le (ofDigitChars_lt h) (Nat.pow_le_pow_right (by omega) hlen)

end HackVm.Numeral
