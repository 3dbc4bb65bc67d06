import Mathlib.Algebra.Ring.Nat
import Mathlib.Data.List.TakeDrop
import Mathlib.Tactic.Common

/-!
# Decimal numbers in a field of fixed width

Zeros fill a number that is too short. Of one that is too long only the first
digits are left, so two numbers look alike when their first digits do.
-/

namespace Numeric

/-- `LPAD`: what is longer than the field loses its end. -/
def lpad {α : Type} (width : Nat) (fill : α) (l : List α) : List α :=
  (l.leftpad width fill).take width

@[simp] theorem length_lpad {α : Type} (width : Nat) (fill : α) (l : List α) :
    (lpad width fill l).length = width := by
  unfold lpad
  rw [List.length_take, List.length_leftpad]
  omega

/-- The number that the first `width` digits make. It is all of a number that fits. -/
def leading (width n : Nat) : Nat :=
  if n < 10 ^ width then n else leading width (n / 10)
termination_by n
decreasing_by
  have : 0 < 10 ^ width := Nat.pow_pos (by omega)
  omega

section

variable {width m n : Nat}

theorem leading_of_lt (h : n < 10 ^ width) : leading width n = n := by
  unfold leading
  exact if_pos h

theorem leading_of_le (h : 10 ^ width ≤ n) : leading width n = leading width (n / 10) := by
  rw [leading]
  exact if_neg (Nat.not_lt.mpr h)

theorem leading_lt (width n : Nat) : leading width n < 10 ^ width := by
  induction n using leading.induct width with
  | case1 n h => rwa [leading_of_lt h]
  | case2 n h ih => rwa [leading_of_le (Nat.not_lt.mp h)]

theorem length_toDigits_le (hwidth : 0 < width) (h : n < 10 ^ width) :
    (Nat.toDigits 10 n).length ≤ width :=
  (Nat.length_toDigits_le_iff (by decide) hwidth).mpr h

/-- The last digit of a number that does not fit is not in the field. -/
theorem lpad_toDigits_div (hwidth : 0 < width) (h : 10 ^ width ≤ n) :
    lpad width '0' (Nat.toDigits 10 n) = lpad width '0' (Nat.toDigits 10 (n / 10)) := by
  have hpow : 10 ^ width = 10 ^ (width - 1) * 10 := by
    rw [← Nat.pow_succ, Nat.succ_eq_add_one, Nat.sub_add_cancel hwidth]
  have hone : 0 < 10 ^ (width - 1) := Nat.pow_pos (by decide)
  have hlength : width ≤ (Nat.toDigits 10 (n / 10)).length := by
    rcases Nat.eq_zero_or_pos (width - 1) with hzero | hpos
    · have := Nat.length_toDigits_pos (b := 10) (n := n / 10)
      omega
    · have hnot : ¬(Nat.toDigits 10 (n / 10)).length ≤ width - 1 := by
        rw [Nat.length_toDigits_le_iff (by decide) hpos]
        omega
      omega
  unfold lpad List.leftpad
  rw [Nat.toDigits_of_base_le (by decide) (by omega), List.length_append,
    Nat.sub_eq_zero_of_le hlength, Nat.sub_eq_zero_of_le (Nat.le_add_right_of_le hlength)]
  exact List.take_append_of_le_length hlength

theorem lpad_toDigits_leading (hwidth : 0 < width) (n : Nat) :
    lpad width '0' (Nat.toDigits 10 n) = lpad width '0' (Nat.toDigits 10 (leading width n)) := by
  induction n using leading.induct width with
  | case1 n h => rw [leading_of_lt h]
  | case2 n h ih =>
    rw [lpad_toDigits_div hwidth (Nat.not_lt.mp h), ih, leading_of_le (Nat.not_lt.mp h)]

theorem lpad_toDigits_of_lt (hwidth : 0 < width) (h : n < 10 ^ width) :
    lpad width '0' (Nat.toDigits 10 n) = (Nat.toDigits 10 n).leftpad width '0' := by
  unfold lpad
  apply List.take_of_length_le
  rw [List.length_leftpad]
  exact Nat.max_le.mpr ⟨Nat.le_refl width, length_toDigits_le hwidth h⟩

theorem ofDigitChars_leftpad :
    Nat.ofDigitChars 10 ((Nat.toDigits 10 n).leftpad width '0') 0 = n := by
  unfold List.leftpad
  rw [Nat.ofDigitChars_append, Nat.ofDigitChars_replicate_zero, Nat.mul_zero,
    Nat.ofDigitChars_ten_toDigits]

theorem leftpad_toDigits_inj :
    (Nat.toDigits 10 m).leftpad width '0' = (Nat.toDigits 10 n).leftpad width '0' ↔ m = n := by
  constructor
  · intro h
    have hvalue := congrArg (Nat.ofDigitChars 10 · 0) h
    simpa only [ofDigitChars_leftpad] using hvalue
  · rintro rfl
    rfl

/-- Fields look alike when the first digits do. -/
theorem lpad_toDigits_inj (hwidth : 0 < width) :
    lpad width '0' (Nat.toDigits 10 m) = lpad width '0' (Nat.toDigits 10 n) ↔
      leading width m = leading width n := by
  constructor
  · intro h
    rw [lpad_toDigits_leading hwidth m, lpad_toDigits_leading hwidth n,
      lpad_toDigits_of_lt hwidth (leading_lt width m),
      lpad_toDigits_of_lt hwidth (leading_lt width n)] at h
    exact leftpad_toDigits_inj.mp h
  · intro h
    rw [lpad_toDigits_leading hwidth m, lpad_toDigits_leading hwidth n, h]

theorem isDigit_of_mem_leftpad {ch : Char} (h : ch ∈ (Nat.toDigits 10 n).leftpad width '0') :
    ch.isDigit = true := by
  unfold List.leftpad at h
  rcases List.mem_append.mp h with h | h
  · rw [List.eq_of_mem_replicate h]
    rfl
  · exact Nat.isDigit_of_mem_toDigits (by decide) (by decide) h

theorem isDigit_of_mem_lpad {ch : Char} (h : ch ∈ lpad width '0' (Nat.toDigits 10 n)) :
    ch.isDigit = true :=
  isDigit_of_mem_leftpad (List.mem_of_mem_take h)

end

end Numeric
