import LmsBackend.Exams.Scores

/-!
# Which scores are stored, and which pass

The percentage is a quotient and a product of doubles, rounded to two decimals. Rounding is monotone:
only the doubles next to a threshold have to be looked at.
-/

open Numeric

namespace LmsBackend.Exams

/-- `totalMarks` after the loop. -/
def Exam.total (exam : Exam) : Rat := addUp binary64 0 exam.questions

/-- `earnedMarks` after the loop. -/
def Exam.earned (exam : Exam) (answers : Answers) : Rat := addUp binary64 0 (exam.correct answers)

theorem scoreOf_some (exam : Exam) (answers : Answers) :
    scoreOf (some exam) answers =
      let score := scored binary64 (exam.earned answers) exam.total
      ⟨score, exam.questions ≠ [] ∧ exam.passingScore.getD passingScore ≤ binary64 score,
        (exam.correct answers).length, exam.questions.length⟩ :=
  scoreWith_some exam answers

/-- The loop does not round where the marks are small enough. -/
theorem sums_exact {exam : Exam} (h : (exam.questions.map (|·.weight|)).sum ≤ 2 ^ 53)
    (answers : Answers) :
    exam.total = marks exam.questions ∧ exam.earned answers = marks (exam.correct answers) := by
  have hsub : ((exam.correct answers).map (|·.weight|)).sum ≤
      (exam.questions.map (|·.weight|)).sum := by
    have hcorrect : (exam.correct answers).Sublist exam.questions := List.filter_sublist
    apply (hcorrect.map _).sum_le_sum
    intro n hn
    obtain ⟨q, -, rfl⟩ := List.mem_map.mp hn
    exact abs_nonneg _
  exact ⟨addUp_eq exactUpTo_binary64 h, addUp_eq exactUpTo_binary64 (hsub.trans h)⟩

/-! ## The column of the score -/

/-- What `exam_attempts.score` takes as it is: `NUMERIC(5,2)`, between 0 and 100. -/
def Storable (score : Rat) : Prop := (∃ k : Int, score = k / 100) ∧ 0 ≤ score ∧ score ≤ 100

theorem storable_hundredth {k : Int} : Storable ((k : Rat) / 100) ↔ 0 ≤ k ∧ k ≤ 10000 := by
  unfold Storable
  constructor
  · rintro ⟨-, hlow, hhigh⟩
    have hlow' : (0 : Rat) ≤ k := by linarith
    have hhigh' : (k : Rat) ≤ 10000 := by linarith
    exact ⟨by exact_mod_cast hlow', by exact_mod_cast hhigh'⟩
  · rintro ⟨hlow, hhigh⟩
    have hlow' : (0 : Rat) ≤ k := by exact_mod_cast hlow
    have hhigh' : (k : Rat) ≤ 10000 := by exact_mod_cast hhigh
    exact ⟨⟨k, rfl⟩, by linarith, by linarith⟩

theorem storable_toFixed2 {x : Rat} : Storable (toFixed2 x) ↔ -(1 / 200) < x ∧ x < 20001 / 200 := by
  unfold toFixed2
  split
  · rename_i hneg
    have hnonneg : 0 ≤ roundHalfUp (-x * 100) := roundHalfUp_nonneg (by linarith)
    have hone : roundHalfUp (-x * 100) < 1 ↔ -(1 / 200) < x := by
      rw [← not_le, le_roundHalfUp, not_le]
      constructor
      · intro h
        push_cast at h
        linarith
      · intro h
        push_cast
        linarith
    rw [← Int.cast_neg, storable_hundredth, ← hone]
    constructor
    · rintro ⟨hlow, -⟩
      exact ⟨by omega, by linarith⟩
    · rintro ⟨hlow, -⟩
      exact ⟨by omega, by omega⟩
  · rename_i hneg
    have hnonneg : 0 ≤ roundHalfUp (x * 100) := roundHalfUp_nonneg (by linarith)
    have hover : roundHalfUp (x * 100) < 10001 ↔ x < 20001 / 200 := by
      rw [← not_le, le_roundHalfUp, not_le]
      constructor
      · intro h
        push_cast at h
        linarith
      · intro h
        push_cast
        linarith
    rw [storable_hundredth, ← hover]
    constructor
    · rintro ⟨-, hhigh⟩
      exact ⟨by linarith, by omega⟩
    · rintro ⟨-, hhigh⟩
      exact ⟨hnonneg, by omega⟩

/-- `k` is the last significand whose hundredfold is rounded to less than the bound. -/
theorem hundredfold_lt_iff {x bound : Rat} {k e : Int} (he : -1022 ≤ e) (heven : k % 2 = 0)
    (hlow : 2 ^ 52 ≤ k) (hhigh : k < 2 ^ 53) (hbelow : binary64 (k * 2 ^ (e - 52) * 100) < bound)
    (habove : bound ≤ binary64 ((k + 1) * 2 ^ (e - 52) * 100)) :
    binary64 (binary64 x * 100) < bound ↔ x ≤ (k + 1 / 2) * 2 ^ (e - 52) := by
  constructor
  · intro h
    by_contra hx
    have hup := le_binary64_of_half_lt he hlow hhigh (not_le.mp hx)
    have hmono := binary64_mono (mul_le_mul_of_nonneg_right hup (by norm_num : (0 : Rat) ≤ 100))
    linarith
  · intro hx
    have hdown := binary64_le_of_le_half he heven hlow hhigh hx
    have hmono := binary64_mono (mul_le_mul_of_nonneg_right hdown (by norm_num : (0 : Rat) ≤ 100))
    linarith

theorem hundredfold_lt_over {x : Rat} :
    binary64 (binary64 x * 100) < 20001 / 200 ↔ 2 ^ 53 * x ≤ 9007649614703729 := by
  have hbelow : binary64 ((4503824807351864 : Int) * 2 ^ ((0 : Int) - 52) * 100) < 20001 / 200 := by
    have hdouble : IsDouble (7037226261487288 * 2 ^ (-46 : Int)) :=
      ⟨7037226261487288, -46, by norm_num, by norm_num, by norm_num⟩
    have hmono : binary64 ((4503824807351864 : Int) * 2 ^ ((0 : Int) - 52) * 100) ≤
        binary64 (7037226261487288 * 2 ^ (-46 : Int)) := binary64_mono (by norm_num)
    rw [hdouble.binary64_eq_self] at hmono
    apply hmono.trans_lt
    norm_num
  have habove : 20001 / 200 ≤
      binary64 (((4503824807351864 : Int) + 1) * 2 ^ ((0 : Int) - 52) * 100) := by
    rw [binary64_eq 6 7037226261487289 (by norm_num) (by norm_num) (by norm_num) (by norm_num)
      (by norm_num)]
    norm_num
  rw [hundredfold_lt_iff (by norm_num) (by norm_num) (by norm_num) (by norm_num) hbelow habove]
  norm_num
  constructor
  · intro h
    linarith
  · intro h
    linarith

theorem hundredfold_lt_half {x : Rat} :
    binary64 (binary64 x * 100) < 1 / 200 ↔ 2 ^ 68 * x ≤ 14757395258967641 := by
  have hbelow : binary64 ((7378697629483820 : Int) * 2 ^ ((-15 : Int) - 52) * 100) < 1 / 200 := by
    rw [binary64_eq (-8) 5764607523034234 (by norm_num) (by norm_num) (by norm_num) (by norm_num)
      (by norm_num)]
    norm_num
  have habove : 1 / 200 ≤
      binary64 (((7378697629483820 : Int) + 1) * 2 ^ ((-15 : Int) - 52) * 100) := by
    rw [binary64_eq (-8) 5764607523034235 (by norm_num) (by norm_num) (by norm_num) (by norm_num)
      (by norm_num)]
    norm_num
  rw [hundredfold_lt_iff (by norm_num) (by norm_num) (by norm_num) (by norm_num) hbelow habove]
  norm_num
  constructor
  · intro h
    linarith
  · intro h
    linarith

theorem storable_scored {earned total : Rat} :
    Storable (scored binary64 earned total) ↔
      (0 < total → -14757395258967641 * total ≤ 2 ^ 68 * earned ∧
        2 ^ 53 * earned ≤ 9007649614703729 * total) := by
  unfold scored
  split
  · rename_i ht
    have hneg : -(1 / 200) < percentage binary64 earned total ↔
        binary64 (binary64 (-earned / total) * 100) < 1 / 200 := by
      unfold percentage
      rw [neg_div, binary64_neg, neg_mul, binary64_neg, neg_lt]
    have hlow : 2 ^ 68 * (-earned / total) ≤ 14757395258967641 ↔
        -14757395258967641 * total ≤ 2 ^ 68 * earned := by
      rw [← mul_div_assoc, div_le_iff₀ ht]
      constructor
      · intro h
        linarith
      · intro h
        linarith
    have hhigh : 2 ^ 53 * (earned / total) ≤ 9007649614703729 ↔
        2 ^ 53 * earned ≤ 9007649614703729 * total := by
      rw [← mul_div_assoc, div_le_iff₀ ht]
    rw [storable_toFixed2, hneg, hundredfold_lt_half, hlow, percentage, hundredfold_lt_over, hhigh]
    exact ⟨fun h _ => h, fun h => h ht⟩
  · rename_i ht
    have hstorable : Storable 0 := ⟨⟨0, by simp⟩, le_rfl, by norm_num⟩
    exact iff_of_true hstorable fun h => absurd h ht

theorem score_storable_iff (exam : Exam) (answers : Answers) :
    Storable (scoreOf (some exam) answers).score ↔
      (0 < exam.total → -14757395258967641 * exam.total ≤ 2 ^ 68 * exam.earned answers ∧
        2 ^ 53 * exam.earned answers ≤ 9007649614703729 * exam.total) := by
  rw [scoreOf_some]
  exact storable_scored

/-- No score is out of range where no marks are negative. -/
theorem storable_of_nonneg {exam : Exam} (h : ∀ q ∈ exam.questions, 0 ≤ q.weight)
    (answers : Answers) : Storable (scoreOf (some exam) answers).score := by
  rw [scoreOf_some]
  refine storable_scored.mpr fun ht => ?_
  have hsub : (exam.correct answers).Sublist exam.questions := List.filter_sublist
  have hle : exam.earned answers ≤ exam.total :=
    addUp_le rounding_binary64 hsub h le_rfl binary64_zero
  have hnonneg : 0 ≤ exam.earned answers :=
    addUp_nonneg rounding_binary64 fun q hq => h q (hsub.subset hq)
  exact ⟨by linarith, by linarith⟩

/-- The marks are 2 and -1, and only the first question is answered: the score is 200. -/
theorem score_not_storable : ¬Storable (scoreOf (some (twoQuestions 2 (-1))) [("q", "q1")]).score := by
  have hsum : ((twoQuestions 2 (-1)).questions.map (|·.weight|)).sum ≤ 2 ^ 53 := by decide
  obtain ⟨htotal, hearned⟩ := sums_exact hsum [("q", "q1")]
  have htotal' : marks (twoQuestions 2 (-1)).questions = 1 := by decide
  have hearned' : marks ((twoQuestions 2 (-1)).correct [("q", "q1")]) = 2 := by decide
  rw [scoreOf_some]
  simp only
  rw [storable_scored, htotal, hearned, htotal', hearned']
  norm_num

/-- Less than 100.005 percent, but not in double precision. -/
example : ¬Storable (scored binary64 9080291951899 9079837960001) ∧
    (9080291951899 : Rat) / 9079837960001 * 100 < 100005 / 1000 := by
  rw [storable_scored]
  norm_num

/-! ## The threshold -/

theorem le_toFixed2 {threshold : Int} {x : Rat} (hx : 0 ≤ x) :
    (threshold : Rat) ≤ toFixed2 x ↔ (200 * threshold - 1 : Rat) / 200 ≤ x := by
  have hround : (threshold : Rat) * 100 ≤ roundHalfUp (x * 100) ↔
      threshold * 100 ≤ roundHalfUp (x * 100) := by
    exact_mod_cast Iff.rfl
  unfold toFixed2
  rw [if_neg (not_lt.mpr hx), le_div_iff₀ (by norm_num), hround, le_roundHalfUp]
  push_cast
  constructor
  · intro h
    linarith
  · intro h
    linarith

/-- The relative error of a rounding, from 0.005 on. -/
theorem binary64_error {x : Rat} (hx : 1 / 200 ≤ x) :
    x * (1 - 1 / 2 ^ 53) ≤ binary64 x ∧ binary64 x ≤ x * (1 + 1 / 2 ^ 53) := by
  have hpos : 0 < x := by linarith
  have hnormal : 2 ^ (-1022 : Int) ≤ |x| := by
    rw [abs_of_pos hpos]
    exact (zpow_le_zpow_right₀ (by norm_num) (by norm_num : (-1022 : Int) ≤ -8)).trans
      (le_trans (by norm_num) hx)
  have hunit : (2 : Rat) ^ (-53 : Int) = 1 / 2 ^ 53 := by norm_num
  have herror := binary64_sub_le_mul hnormal
  rw [abs_of_pos hpos, hunit] at herror
  obtain ⟨hlow, hhigh⟩ := abs_le.mp herror
  exact ⟨by linarith, by linarith⟩

/-- What is a little more than `c` is not rounded below it. -/
theorem le_hundredfold {c x : Rat} (hc : 99 / 100 ≤ c) (h : c * (1 + 1 / 2 ^ 50) ≤ x * 100) :
    c ≤ binary64 (binary64 x * 100) := by
  have hratio := (binary64_error (x := c * (1 + 1 / 2 ^ 50) / 100) (by linarith)).1
  have hmono := binary64_mono (show c * (1 + 1 / 2 ^ 50) / 100 ≤ x by linarith)
  have hscaled : c * (1 + 1 / 2 ^ 50) * (1 - 1 / 2 ^ 53) ≤ binary64 x * 100 := by linarith
  have hproduct := (binary64_error (x := c * (1 + 1 / 2 ^ 50) * (1 - 1 / 2 ^ 53)) (by linarith)).1
  have hmono' := binary64_mono hscaled
  linarith

/-- What is a little less than `c` stays below it. -/
theorem hundredfold_lt {c x : Rat} (hc : 99 / 100 ≤ c) (h : x * 100 * (1 + 1 / 2 ^ 50) < c) :
    binary64 (binary64 x * 100) < c := by
  have hratio := (binary64_error (x := c * (1 - 1 / 2 ^ 51) / 100) (by linarith)).2
  have hmono := binary64_mono (show x ≤ c * (1 - 1 / 2 ^ 51) / 100 by linarith)
  have hscaled : binary64 x * 100 ≤ c * (1 - 1 / 2 ^ 51) * (1 + 1 / 2 ^ 53) := by linarith
  have hproduct := (binary64_error (x := c * (1 - 1 / 2 ^ 51) * (1 + 1 / 2 ^ 53)) (by linarith)).2
  have hmono' := binary64_mono hscaled
  linarith

/-- `parseFloat` reaches an integer when the decimal does. -/
theorem le_binary64_hundredth {threshold k : Int} (hlow : 1 ≤ threshold) (hhigh : threshold ≤ 100) :
    (threshold : Rat) ≤ binary64 ((k : Rat) / 100) ↔ (threshold : Rat) ≤ (k : Rat) / 100 := by
  constructor
  · intro h
    by_contra hless
    have hlow' : (1 : Rat) ≤ threshold := by exact_mod_cast hlow
    have hhigh' : (threshold : Rat) ≤ 100 := by exact_mod_cast hhigh
    have hk : k ≤ 100 * threshold - 1 := by
      have hk' : (k : Rat) < 100 * threshold := by linarith
      have hk'' : k < 100 * threshold := by exact_mod_cast hk'
      omega
    have hk' : (k : Rat) ≤ 100 * threshold - 1 := by exact_mod_cast hk
    have hmono := binary64_mono (show (k : Rat) / 100 ≤ threshold - 1 / 100 by linarith)
    have herror := (binary64_error (x := (threshold : Rat) - 1 / 100) (by linarith)).2
    linarith
  · intro h
    rw [← binary64_intCast (k := threshold) (by rw [abs_of_pos (by omega)]; omega)]
    exact binary64_mono h

theorem le_binary64_toFixed2 {threshold : Int} {x : Rat} (hlow : 1 ≤ threshold)
    (hhigh : threshold ≤ 100) (hx : 0 ≤ x) :
    (threshold : Rat) ≤ binary64 (toFixed2 x) ↔ (200 * threshold - 1 : Rat) / 200 ≤ x := by
  rw [← le_toFixed2 hx]
  unfold toFixed2
  rw [if_neg (not_lt.mpr hx)]
  exact le_binary64_hundredth hlow hhigh

theorem le_addUp {sum : Rat} (hsum : binary64 sum = sum) {questions : List ExamQuestion}
    (h : ∀ q ∈ questions, 0 ≤ q.weight) : sum ≤ addUp binary64 sum questions :=
  addUp_le rounding_binary64 (List.nil_sublist questions) h le_rfl hsum

theorem total_pos {exam : Exam} (hne : exam.questions ≠ [])
    (hmarks : ∀ q ∈ exam.questions, 0 < q.weight) : 0 < exam.total := by
  obtain ⟨q, rest, heq⟩ := List.exists_cons_of_ne_nil hne
  unfold Exam.total
  rw [heq] at hmarks ⊢
  have hq : (1 : Rat) ≤ 0 + q.weight := by
    rw [zero_add]
    exact_mod_cast hmarks q (by simp)
  have hone : binary64 1 = 1 := by simpa using binary64_intCast (k := 1) (by norm_num)
  have hfirst := binary64_mono hq
  have hrest := le_addUp (binary64_binary64 (0 + q.weight))
    fun q' hq' => (hmarks q' (List.mem_cons_of_mem _ hq')).le
  rw [addUp_cons]
  linarith

/-- The percentage passes once it rounds to the threshold. No pass is lost by that, and one that is
won is less than 0.005 percent away. Below 200 marks none is won. -/
theorem passed_iff {exam : Exam} (answers : Answers) (hne : exam.questions ≠ [])
    (hmarks : ∀ q ∈ exam.questions, 0 < q.weight) {threshold : Int}
    (hthreshold : exam.passingScore.getD passingScore = threshold) (hlow : 1 ≤ threshold)
    (hhigh : threshold ≤ 100) :
    ((scoreOf (some exam) answers).passed = true ↔
        (threshold - 5 / 1000 : Rat) ≤ percentage binary64 (exam.earned answers) exam.total) ∧
      (threshold * exam.total ≤ 100 * exam.earned answers →
        (scoreOf (some exam) answers).passed = true) ∧
      ((scoreOf (some exam) answers).passed = true →
        (threshold - 5 / 1000) * exam.total ≤ 100 * exam.earned answers * (1 + 1 / 2 ^ 50)) ∧
      (marks exam.questions ≤ 2 ^ 53 →
        exam.total = marks exam.questions ∧ exam.earned answers = marks (exam.correct answers)) ∧
      (marks exam.questions < 200 → ((scoreOf (some exam) answers).passed = true ↔
        threshold * marks exam.questions ≤ 100 * marks (exam.correct answers))) := by
  have ht := total_pos hne hmarks
  have hlow' : (1 : Rat) ≤ threshold := by exact_mod_cast hlow
  have hhigh' : (threshold : Rat) ≤ 100 := by exact_mod_cast hhigh
  have he : 0 ≤ exam.earned answers :=
    addUp_nonneg rounding_binary64 fun q hq => (hmarks q (List.mem_of_mem_filter hq)).le
  have hratio : 0 ≤ exam.earned answers / exam.total := div_nonneg he ht.le
  have hpercent : 0 ≤ percentage binary64 (exam.earned answers) exam.total :=
    binary64_nonneg (mul_nonneg (binary64_nonneg hratio) (by norm_num))
  have hpassed : (scoreOf (some exam) answers).passed = true ↔
      (threshold - 5 / 1000 : Rat) ≤ percentage binary64 (exam.earned answers) exam.total := by
    have hbound : (threshold - 5 / 1000 : Rat) = (200 * threshold - 1) / 200 := by ring
    rw [scoreOf_some, hthreshold, hbound, ← le_binary64_toFixed2 hlow hhigh hpercent]
    simp only [scored, if_pos ht, decide_eq_true_eq]
    exact and_iff_right hne
  have hlost : threshold * exam.total ≤ 100 * exam.earned answers →
      (scoreOf (some exam) answers).passed = true := by
    intro h
    rw [hpassed]
    apply le_hundredfold (by linarith)
    have hexact : (threshold : Rat) ≤ exam.earned answers / exam.total * 100 := by
      rw [div_mul_eq_mul_div, le_div_iff₀ ht]
      linarith
    linarith
  have hwon : (scoreOf (some exam) answers).passed = true →
      (threshold - 5 / 1000) * exam.total ≤ 100 * exam.earned answers * (1 + 1 / 2 ^ 50) := by
    intro h
    by_contra hless
    have hratio' : exam.earned answers / exam.total * 100 * (1 + 1 / 2 ^ 50) <
        threshold - 5 / 1000 := by
      rw [div_mul_eq_mul_div, div_mul_eq_mul_div, div_lt_iff₀ ht]
      linarith
    exact absurd (hpassed.mp h) (not_le.mpr (hundredfold_lt (by linarith) hratio'))
  have hsums : marks exam.questions ≤ 2 ^ 53 →
      exam.total = marks exam.questions ∧ exam.earned answers = marks (exam.correct answers) := by
    intro h
    have habs : exam.questions.map (|·.weight|) = exam.questions.map ExamQuestion.weight :=
      List.map_congr_left fun q hq => abs_of_pos (hmarks q hq)
    exact sums_exact (habs ▸ h) answers
  refine ⟨hpassed, hlost, hwon, hsums, fun hfew => ?_⟩
  obtain ⟨htotal, hearned⟩ := hsums (by omega)
  rw [htotal, hearned] at hlost hwon
  constructor
  · intro h
    by_contra hless
    have hless' : 100 * marks (exam.correct answers) + 1 ≤ threshold * marks exam.questions := by
      omega
    have hless'' : (100 * marks (exam.correct answers) + 1 : Rat) ≤
        threshold * marks exam.questions := by exact_mod_cast hless'
    have hfew' : (marks exam.questions : Rat) ≤ 199 := by exact_mod_cast Int.le_of_lt_add_one hfew
    have hbound := hwon h
    have hproduct : (threshold : Rat) * marks exam.questions ≤ 100 * 199 := by
      calc (threshold : Rat) * marks exam.questions ≤ 100 * marks exam.questions :=
            mul_le_mul_of_nonneg_right hhigh' (htotal ▸ ht.le)
        _ ≤ 100 * 199 := by linarith
    linarith
  · intro h
    apply hlost
    exact_mod_cast h

theorem passed_iff_two :
    (scoreOf (some (twoQuestions 4 1)) [("q", "q1")]).passed = true ∧
      (scoreOf (some (twoQuestions 3 1)) [("q", "q1")]).passed ≠ true := by
  have hmarks : ∀ q ∈ (twoQuestions 4 1).questions, 0 < q.weight := by decide
  have hmarks' : ∀ q ∈ (twoQuestions 3 1).questions, 0 < q.weight := by decide
  constructor
  · exact (passed_iff [("q", "q1")] (by decide) hmarks rfl (by decide) (by decide)).2.2.2.2
      (by decide) |>.mpr (by decide)
  · intro hpassed
    have hexact := ((passed_iff [("q", "q1")] (by decide) hmarks' rfl (by decide)
      (by decide)).2.2.2.2 (by decide)).mp hpassed
    exact absurd hexact (by decide)

/-- 3203 of 4004 marks are less than 80 percent. -/
theorem passed_by_rounding :
    (scoreOf (some (twoQuestions 3203 801)) [("q", "q1")]).passed = true ∧
      ¬80 * marks (twoQuestions 3203 801).questions ≤
        100 * marks ((twoQuestions 3203 801).correct [("q", "q1")]) := by
  refine ⟨?_, by decide⟩
  have hsum : ((twoQuestions 3203 801).questions.map (|·.weight|)).sum ≤ 2 ^ 53 := by decide
  obtain ⟨htotal, hearned⟩ := sums_exact hsum [("q", "q1")]
  have htotal' : marks (twoQuestions 3203 801).questions = 4004 := by decide
  have hearned' : marks ((twoQuestions 3203 801).correct [("q", "q1")]) = 3203 := by decide
  have hpercent : (200 * (80 : Int) - 1 : Rat) / 200 ≤ percentage binary64 3203 4004 :=
    le_hundredfold (by norm_num) (by norm_num)
  have hnonneg : (0 : Rat) ≤ percentage binary64 3203 4004 := le_trans (by norm_num) hpercent
  have hpassed := (le_binary64_toFixed2 (by norm_num) (by norm_num) hnonneg).mpr hpercent
  rw [scoreOf_some, htotal, hearned, htotal', hearned']
  simp only [decide_eq_true_eq]
  refine ⟨by decide, ?_⟩
  norm_num [scored]
  exact hpassed

end LmsBackend.Exams
