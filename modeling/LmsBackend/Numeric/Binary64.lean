import LmsBackend.Numeric.Rounding
import Mathlib.Data.Int.Log
import Mathlib.Tactic.NormNum

/-!
# Rounding to binary64

What a number operation of double precision makes of its exact result, as long
as that does not overflow.
-/

namespace Numeric

/-! ## Ties to even -/

def roundHalfEven (x : Rat) : Int :=
  if x - ⌊x⌋ < 1 / 2 then ⌊x⌋ else if 1 / 2 < x - ⌊x⌋ then ⌊x⌋ + 1 else ⌊x⌋ + ⌊x⌋ % 2

theorem floor_le_roundHalfEven (x : Rat) : ⌊x⌋ ≤ roundHalfEven x := by
  unfold roundHalfEven
  split_ifs <;> omega

theorem roundHalfEven_le_floor (x : Rat) : roundHalfEven x ≤ ⌊x⌋ + 1 := by
  unfold roundHalfEven
  split_ifs <;> omega

theorem le_roundHalfEven {k : Int} {x : Rat} (h : (k : Rat) ≤ x) : k ≤ roundHalfEven x :=
  (Int.le_floor.mpr h).trans (floor_le_roundHalfEven x)

theorem roundHalfEven_intCast (k : Int) : roundHalfEven k = k := by
  simp [roundHalfEven]

theorem roundHalfEven_le {k : Int} {x : Rat} (h : x ≤ k) : roundHalfEven x ≤ k := by
  rcases h.lt_or_eq with hlt | rfl
  · have hfloor : ⌊x⌋ < k := Int.floor_lt.mpr hlt
    have hround := roundHalfEven_le_floor x
    omega
  · exact (roundHalfEven_intCast k).le

theorem roundHalfEven_mono {x y : Rat} (h : x ≤ y) : roundHalfEven x ≤ roundHalfEven y := by
  rcases (Int.floor_le_floor h).lt_or_eq with hlt | heq
  · have hx := roundHalfEven_le_floor x
    have hy := floor_le_roundHalfEven y
    omega
  · -- Between the same two integers, only the distance to them counts.
    have hdist : x - ⌊y⌋ ≤ y - ⌊y⌋ := sub_le_sub_right h _
    unfold roundHalfEven
    rw [heq]
    split_ifs <;> first | omega | (exfalso; linarith)

theorem roundHalfEven_eq {k : Int} {x : Rat} (hlow : k - 1 / 2 < x) (hhigh : x < k + 1 / 2) :
    roundHalfEven x = k := by
  have hfloor : ⌊x⌋ = k ∨ ⌊x⌋ = k - 1 := by
    have h₁ : k - 1 ≤ ⌊x⌋ := by
      apply Int.le_floor.mpr
      push_cast
      linarith
    have h₂ : ⌊x⌋ < k + 1 := by
      apply Int.floor_lt.mpr
      push_cast
      linarith
    omega
  unfold roundHalfEven
  rcases hfloor with h | h
  · rw [h, if_pos (by linarith)]
  · rw [h, if_neg (by push_cast; linarith), if_pos (by push_cast; linarith)]
    omega

theorem roundHalfEven_half {k : Int} (hk : k % 2 = 0) : roundHalfEven (k + 1 / 2) = k := by
  have hfloor : ⌊(k : Rat) + 1 / 2⌋ = k := by
    apply Int.floor_eq_iff.mpr
    exact ⟨by linarith, by linarith⟩
  have hdist : (k : Rat) + 1 / 2 - ⌊(k : Rat) + 1 / 2⌋ = 1 / 2 := by
    rw [hfloor]
    ring
  unfold roundHalfEven
  rw [hdist, if_neg (lt_irrefl _), if_neg (lt_irrefl _), hfloor]
  omega

theorem lt_roundHalfEven {k : Int} {x : Rat} (h : k + 1 / 2 < x) : k < roundHalfEven x := by
  have hfloor : k ≤ ⌊x⌋ := Int.le_floor.mpr (by linarith)
  rcases hfloor.lt_or_eq with hlt | heq
  · exact hlt.trans_le (floor_le_roundHalfEven x)
  · unfold roundHalfEven
    rw [← heq, if_neg (by linarith), if_pos (by linarith)]
    exact Int.lt_succ k

theorem roundHalfEven_neg (x : Rat) : roundHalfEven (-x) = -roundHalfEven x := by
  by_cases hx : x = ⌊x⌋
  · rw [hx, ← Int.cast_neg, roundHalfEven_intCast, roundHalfEven_intCast]
  · have hlow : (⌊x⌋ : Rat) < x := lt_of_le_of_ne (Int.floor_le x) (Ne.symm hx)
    have hhigh : x < ⌊x⌋ + 1 := Int.lt_floor_add_one x
    have hfloor : ⌊-x⌋ = -⌊x⌋ - 1 := by
      apply Int.floor_eq_iff.mpr
      push_cast
      exact ⟨by linarith, by linarith⟩
    -- The distances to the two neighbours are swapped.
    have hdist : -x - (⌊-x⌋ : Rat) = 1 - (x - ⌊x⌋) := by
      rw [hfloor]
      push_cast
      ring
    unfold roundHalfEven
    rw [hdist, hfloor]
    split_ifs <;> first | omega | (exfalso; linarith)

theorem roundHalfEven_sub_le (x : Rat) : |(roundHalfEven x : Rat) - x| ≤ 1 / 2 := by
  have hlow : (⌊x⌋ : Rat) ≤ x := Int.floor_le x
  have hhigh : x < ⌊x⌋ + 1 := Int.lt_floor_add_one x
  rw [abs_le]
  unfold roundHalfEven
  split_ifs with hdown hup
  · exact ⟨by linarith, by linarith⟩
  · push_cast
    exact ⟨by linarith, by linarith⟩
  · rcases Int.emod_two_eq_zero_or_one ⌊x⌋ with h | h
    · rw [h]
      push_cast
      exact ⟨by linarith, by linarith⟩
    · rw [h]
      push_cast
      exact ⟨by linarith, by linarith⟩

/-! ## 53 significant bits -/

/-- The exponent of the last place of `x`. None is below `2 ^ -1074`. -/
def lastPlace (x : Rat) : Int := max (Int.log 2 |x| - 52) (-1074)

/-- The distance between neighbours at `x`. -/
def ulp (x : Rat) : Rat := 2 ^ lastPlace x

/-- The nearest number with a significand of 53 bits, of two the one that is even. -/
def binary64 (x : Rat) : Rat := roundHalfEven (x / ulp x) * ulp x

theorem ulp_pos (x : Rat) : 0 < ulp x := zpow_pos (by norm_num) _

theorem lastPlace_neg (x : Rat) : lastPlace (-x) = lastPlace x := by
  rw [lastPlace, lastPlace, abs_neg]

theorem ulp_neg (x : Rat) : ulp (-x) = ulp x := by
  rw [ulp, ulp, lastPlace_neg]

theorem binary64_neg (x : Rat) : binary64 (-x) = -binary64 x := by
  unfold binary64
  rw [ulp_neg, neg_div, roundHalfEven_neg]
  push_cast
  ring

@[simp] theorem binary64_zero : binary64 0 = 0 := by
  simp [binary64, roundHalfEven]

/-- A power of two that is no less than the last place is a multiple of it. -/
theorem two_zpow_eq_mul_ulp {x : Rat} {e : Int} (h : lastPlace x ≤ e) :
    (2 : Rat) ^ e = ((2 ^ (e - lastPlace x).toNat : Int) : Rat) * ulp x := by
  have hexp : e = ((e - lastPlace x).toNat : Int) + lastPlace x := by omega
  unfold ulp
  push_cast
  rw [← zpow_natCast, ← zpow_add₀ (by norm_num), ← hexp]

theorem abs_lt_two_zpow (x : Rat) : |x| < 2 ^ (Int.log 2 |x| + 1) := by
  simpa using Int.lt_zpow_succ_log_self (R := Rat) (b := 2) (by norm_num) |x|

theorem two_zpow_le_abs {x : Rat} (hx : x ≠ 0) : 2 ^ Int.log 2 |x| ≤ |x| := by
  simpa using Int.zpow_log_le_self (R := Rat) (b := 2) (by norm_num) (abs_pos.mpr hx)

/-- A multiple of the last place that bounds `x` bounds what it is rounded to. -/
theorem binary64_le_mul {x : Rat} {k : Int} (h : x ≤ k * ulp x) : binary64 x ≤ k * ulp x := by
  have hround : roundHalfEven (x / ulp x) ≤ k :=
    roundHalfEven_le ((div_le_iff₀ (ulp_pos x)).mpr h)
  unfold binary64
  apply mul_le_mul_of_nonneg_right _ (ulp_pos x).le
  exact_mod_cast hround

theorem mul_le_binary64 {x : Rat} {k : Int} (h : k * ulp x ≤ x) : k * ulp x ≤ binary64 x := by
  have hround : k ≤ roundHalfEven (x / ulp x) :=
    le_roundHalfEven ((le_div_iff₀ (ulp_pos x)).mpr h)
  unfold binary64
  apply mul_le_mul_of_nonneg_right _ (ulp_pos x).le
  exact_mod_cast hround

theorem binary64_nonneg {x : Rat} (hx : 0 ≤ x) : 0 ≤ binary64 x := by
  have h := mul_le_binary64 (x := x) (k := 0) (by simpa using hx)
  simpa using h

theorem binary64_mono_nonneg {x y : Rat} (hx : 0 ≤ x) (h : x ≤ y) : binary64 x ≤ binary64 y := by
  rcases hx.eq_or_lt with rfl | hpos
  · rw [binary64_zero]
    exact binary64_nonneg h
  · have hy : 0 < y := hpos.trans_le h
    have hlog : Int.log 2 |x| ≤ Int.log 2 |y| := by
      rw [abs_of_pos hpos, abs_of_pos hy]
      exact Int.log_mono_right hpos h
    by_cases hplace : lastPlace x = lastPlace y
    · have hulp : ulp x = ulp y := by rw [ulp, ulp, hplace]
      have hround := roundHalfEven_mono (div_le_div_of_nonneg_right h (ulp_pos y).le)
      unfold binary64
      rw [hulp]
      apply mul_le_mul_of_nonneg_right _ (ulp_pos y).le
      exact_mod_cast hround
    · -- A power of two lies between them, and is a multiple of the last place of either.
      have hbelow : lastPlace x ≤ Int.log 2 |y| ∧ lastPlace y ≤ Int.log 2 |y| ∧
          Int.log 2 |x| + 1 ≤ Int.log 2 |y| := by
        unfold lastPlace at *
        omega
      have hx' : x ≤ 2 ^ Int.log 2 |y| := by
        calc x ≤ |x| := le_abs_self x
          _ ≤ 2 ^ (Int.log 2 |x| + 1) := (abs_lt_two_zpow x).le
          _ ≤ 2 ^ Int.log 2 |y| := zpow_le_zpow_right₀ (by norm_num) hbelow.2.2
      have hy' : 2 ^ Int.log 2 |y| ≤ y := by
        simpa only [abs_of_pos hy] using two_zpow_le_abs hy.ne'
      have hright := two_zpow_eq_mul_ulp hbelow.2.1
      have hleft := two_zpow_eq_mul_ulp hbelow.1
      calc binary64 x ≤ 2 ^ Int.log 2 |y| := by
            rw [hleft] at hx' ⊢
            exact binary64_le_mul hx'
        _ ≤ binary64 y := by
            rw [hright] at hy' ⊢
            exact mul_le_binary64 hy'

theorem binary64_mono : Monotone binary64 := by
  intro x y h
  rcases le_total 0 x with hx | hx
  · exact binary64_mono_nonneg hx h
  · rcases le_total 0 y with hy | hy
    · have hneg := binary64_nonneg (neg_nonneg.mpr hx)
      rw [binary64_neg] at hneg
      linarith [binary64_nonneg hy]
    · have hneg := binary64_mono_nonneg (neg_nonneg.mpr hy) (neg_le_neg h)
      rw [binary64_neg, binary64_neg] at hneg
      linarith

theorem ulp_eq {x : Rat} {e : Int} (he : -1022 ≤ e) (hlow : 2 ^ e ≤ x) (hhigh : x < 2 ^ (e + 1)) :
    ulp x = 2 ^ (e - 52) := by
  have hx : 0 < x := (zpow_pos (by norm_num) e).trans_le hlow
  have hlog : Int.log 2 x = e := by
    have h₁ : e ≤ Int.log 2 x := by
      apply (Int.zpow_le_iff_le_log (by norm_num) hx).mp
      simpa using hlow
    have h₂ : Int.log 2 x < e + 1 := by
      apply (Int.lt_zpow_iff_log_lt (by norm_num) hx).mp
      simpa using hhigh
    omega
  unfold ulp lastPlace
  rw [abs_of_pos hx, hlog, max_eq_left (by omega)]

/-- How to evaluate it, once the exponent and the significand are known. -/
theorem binary64_eq {x : Rat} (e k : Int) (he : -1022 ≤ e) (hlow : 2 ^ e ≤ x) (hhigh : x < 2 ^ (e + 1))
    (hbelow : k - 1 / 2 < x * 2 ^ (52 - e)) (habove : x * 2 ^ (52 - e) < k + 1 / 2) :
    binary64 x = k * 2 ^ (e - 52) := by
  have hulp := ulp_eq he hlow hhigh
  have hdiv : x / ulp x = x * 2 ^ (52 - e) := by
    rw [hulp, div_eq_mul_inv, ← zpow_neg, neg_sub]
  unfold binary64
  rw [hdiv, roundHalfEven_eq hbelow habove, hulp]

/-! ## Numbers that are not rounded -/

/-- A significand of 53 bits at most, and an exponent that is not too small. -/
def IsDouble (x : Rat) : Prop := ∃ k e : Int, |k| ≤ 2 ^ 53 ∧ -1074 ≤ e ∧ x = k * 2 ^ e

/-- A multiple of the last place stays as it is. -/
theorem binary64_of_mul {x : Rat} {k : Int} (h : x = k * ulp x) : binary64 x = x := by
  unfold binary64
  rw [(div_eq_iff (ulp_pos x).ne').mpr h, roundHalfEven_intCast, ← h]

theorem lastPlace_le {x : Rat} {k e : Int} (hx : x ≠ 0) (hk : |k| < 2 ^ 53) (he : -1074 ≤ e)
    (h : x = k * 2 ^ e) : lastPlace x ≤ e := by
  have hpow : (0 : Rat) < 2 ^ e := zpow_pos (by norm_num) e
  have hk' : ((|k| : Int) : Rat) < 2 ^ 53 := by exact_mod_cast hk
  have hbound : |x| < ((2 : Nat) : Rat) ^ (53 + e) := by
    rw [h, abs_mul, abs_of_pos hpow, ← Int.cast_abs, Nat.cast_ofNat, zpow_add₀ (by norm_num)]
    exact mul_lt_mul_of_pos_right hk' hpow
  have hlog := (Int.lt_zpow_iff_log_lt (by norm_num) (abs_pos.mpr hx)).mp hbound
  unfold lastPlace
  omega

theorem IsDouble.binary64_eq_self {x : Rat} (hx : IsDouble x) : binary64 x = x := by
  rcases eq_or_ne x 0 with rfl | hne
  · exact binary64_zero
  obtain ⟨k, e, hk, he, h⟩ := hx
  -- With a significand of 54 bits it is a power of two.
  obtain ⟨k', e', hk', he', h'⟩ : ∃ k' e' : Int, |k'| < 2 ^ 53 ∧ -1074 ≤ e' ∧ x = k' * 2 ^ e' := by
    rcases hk.lt_or_eq with hlt | heq
    · exact ⟨k, e, hlt, he, h⟩
    · have hpow : (2 : Rat) ^ (e + 1) = 2 ^ e * 2 := zpow_add_one₀ (by norm_num) e
      rcases abs_eq (by norm_num) |>.mp heq with rfl | rfl
      · exact ⟨2 ^ 52, e + 1, by norm_num, by omega, by rw [h, hpow]; push_cast; ring⟩
      · exact ⟨-2 ^ 52, e + 1, by norm_num, by omega, by rw [h, hpow]; push_cast; ring⟩
  have hmul := two_zpow_eq_mul_ulp (lastPlace_le hne hk' he' h')
  apply binary64_of_mul (k := k' * 2 ^ (e' - lastPlace x).toNat)
  push_cast at hmul ⊢
  rw [mul_assoc, ← hmul]
  exact h'

theorem isDouble_binary64 (x : Rat) : IsDouble (binary64 x) := by
  refine ⟨roundHalfEven (x / ulp x), lastPlace x, ?_, le_max_right _ _, rfl⟩
  have hbound : |x| ≤ ((2 ^ 53 : Int) : Rat) * ulp x := by
    have hle : Int.log 2 |x| + 1 ≤ lastPlace x + 53 := by
      unfold lastPlace
      omega
    calc |x| ≤ 2 ^ (Int.log 2 |x| + 1) := (abs_lt_two_zpow x).le
      _ ≤ 2 ^ (lastPlace x + 53) := zpow_le_zpow_right₀ (by norm_num) hle
      _ = ((2 ^ 53 : Int) : Rat) * ulp x := by
          rw [zpow_add₀ (by norm_num), mul_comm]
          push_cast
          norm_cast
  obtain ⟨hlow, hhigh⟩ := abs_le.mp hbound
  rw [abs_le]
  constructor
  · apply le_roundHalfEven
    rw [le_div_iff₀ (ulp_pos x)]
    push_cast at hlow ⊢
    linarith
  · apply roundHalfEven_le
    rw [div_le_iff₀ (ulp_pos x)]
    push_cast at hhigh ⊢
    linarith

@[simp] theorem binary64_binary64 (x : Rat) : binary64 (binary64 x) = binary64 x :=
  (isDouble_binary64 x).binary64_eq_self

theorem binary64_intCast {k : Int} (hk : |k| ≤ 2 ^ 53) : binary64 k = k := by
  have hdouble : IsDouble k := ⟨k, 0, hk, by norm_num, by simp⟩
  exact hdouble.binary64_eq_self

/-! ## Half way between neighbours -/

section

variable {x : Rat} {k e : Int}

theorem two_zpow_eq (e : Int) : (2 : Rat) ^ e = 2 ^ 52 * 2 ^ (e - 52) := by
  have hexp : e = 52 + (e - 52) := by ring
  conv_lhs => rw [hexp, zpow_add₀ (by norm_num)]
  rfl

/-- Up to the middle it is rounded down to an even significand. -/
theorem binary64_le_of_le_half (he : -1022 ≤ e) (heven : k % 2 = 0) (hlow : 2 ^ 52 ≤ k)
    (hhigh : k < 2 ^ 53) (h : x ≤ (k + 1 / 2) * 2 ^ (e - 52)) : binary64 x ≤ k * 2 ^ (e - 52) := by
  have hpow : (0 : Rat) < 2 ^ (e - 52) := zpow_pos (by norm_num) _
  have hlow' : (2 : Rat) ^ 52 ≤ k := by exact_mod_cast hlow
  have hhigh' : (k : Rat) + 1 ≤ 2 ^ 53 := by exact_mod_cast hhigh
  have hulp : ulp ((k + 1 / 2) * 2 ^ (e - 52)) = 2 ^ (e - 52) := by
    apply ulp_eq he
    · rw [two_zpow_eq e]
      exact mul_le_mul_of_nonneg_right (by linarith) hpow.le
    · rw [zpow_add_one₀ (by norm_num), two_zpow_eq e, mul_right_comm]
      exact mul_lt_mul_of_pos_right (by linarith) hpow
  calc binary64 x ≤ binary64 ((k + 1 / 2) * 2 ^ (e - 52)) := binary64_mono h
    _ = k * 2 ^ (e - 52) := by
        unfold binary64
        rw [hulp, mul_div_cancel_right₀ _ hpow.ne', roundHalfEven_half heven]

/-- Past the middle it is rounded up. -/
theorem le_binary64_of_half_lt (he : -1022 ≤ e) (hlow : 2 ^ 52 ≤ k) (hhigh : k < 2 ^ 53)
    (h : (k + 1 / 2) * 2 ^ (e - 52) < x) : (k + 1) * 2 ^ (e - 52) ≤ binary64 x := by
  have hpow : (0 : Rat) < 2 ^ (e - 52) := zpow_pos (by norm_num) _
  have hlow' : (2 : Rat) ^ 52 ≤ k := by exact_mod_cast hlow
  have hhigh' : (k : Rat) + 1 ≤ 2 ^ 53 := by exact_mod_cast hhigh
  rcases lt_or_ge x ((k + 1) * 2 ^ (e - 52)) with hx | hx
  · have hulp : ulp x = 2 ^ (e - 52) := by
      apply ulp_eq he
      · rw [two_zpow_eq e]
        exact (mul_le_mul_of_nonneg_right (by linarith) hpow.le).trans h.le
      · rw [zpow_add_one₀ (by norm_num), two_zpow_eq e, mul_right_comm]
        exact hx.trans_le (mul_le_mul_of_nonneg_right (by linarith) hpow.le)
    have hround : k + 1 ≤ roundHalfEven (x / 2 ^ (e - 52)) :=
      lt_roundHalfEven ((lt_div_iff₀ hpow).mpr h)
    have hround' : (k : Rat) + 1 ≤ roundHalfEven (x / 2 ^ (e - 52)) := by exact_mod_cast hround
    unfold binary64
    rw [hulp]
    exact mul_le_mul_of_nonneg_right hround' hpow.le
  · have hdouble : IsDouble ((k + 1) * 2 ^ (e - 52)) := by
      refine ⟨k + 1, e - 52, ?_, by omega, by push_cast; rfl⟩
      rw [abs_of_pos (by omega)]
      omega
    rw [← hdouble.binary64_eq_self]
    exact binary64_mono hx

end

/-! ## How far a number is rounded -/

theorem binary64_sub_le (x : Rat) : |binary64 x - x| ≤ ulp x / 2 := by
  have hround := roundHalfEven_sub_le (x / ulp x)
  have hsplit : binary64 x - x = (roundHalfEven (x / ulp x) - x / ulp x) * ulp x := by
    rw [sub_mul, div_mul_cancel₀ _ (ulp_pos x).ne']
    rfl
  rw [hsplit, abs_mul, abs_of_pos (ulp_pos x)]
  calc |(roundHalfEven (x / ulp x) : Rat) - x / ulp x| * ulp x ≤ 1 / 2 * ulp x :=
        mul_le_mul_of_nonneg_right hround (ulp_pos x).le
    _ = ulp x / 2 := by ring

/-- Half a unit in 53 bits, unless the number is subnormal. -/
theorem binary64_sub_le_mul {x : Rat} (hx : 2 ^ (-1022 : Int) ≤ |x|) :
    |binary64 x - x| ≤ |x| * 2 ^ (-53 : Int) := by
  have hne : x ≠ 0 := abs_pos.mp ((zpow_pos (by norm_num) _).trans_le hx)
  have hlog : -1022 ≤ Int.log 2 |x| := by
    apply (Int.zpow_le_iff_le_log (by norm_num) (abs_pos.mpr hne)).mp
    simpa using hx
  have hulp : ulp x / 2 = 2 ^ Int.log 2 |x| * 2 ^ (-53 : Int) := by
    unfold ulp lastPlace
    rw [max_eq_left (by omega), sub_eq_add_neg, zpow_add₀ (by norm_num)]
    norm_num
    ring
  apply (binary64_sub_le x).trans
  rw [hulp]
  exact mul_le_mul_of_nonneg_right (two_zpow_le_abs hne) (zpow_pos (by norm_num) _).le

end Numeric
