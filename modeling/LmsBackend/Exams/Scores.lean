import LmsBackend.Exams.Scoring
import LmsBackend.Numeric.Rounding
import Mathlib.Algebra.Order.BigOperators.Group.List
import Mathlib.Data.List.Pairwise

/-!
# What scores are

The loop of `scoreAnswers` adds up the marks of the questions that are answered
correctly. All that is said of scores is said of these sums, for any rounding.
-/

open Numeric

namespace LmsBackend.Exams

/-! ## Roundings -/

/-- What is needed of a rounding. -/
structure Rounding (fl : Rat → Rat) : Prop where
  mono : Monotone fl
  zero : fl 0 = 0
  idem : ∀ x, fl (fl x) = fl x

theorem rounding_id : Rounding id := ⟨monotone_id, rfl, fun _ => rfl⟩

theorem rounding_binary64 : Rounding binary64 := ⟨binary64_mono, binary64_zero, binary64_binary64⟩

/-- Integers up to `bound` are not rounded. -/
def ExactUpTo (fl : Rat → Rat) (bound : Int) : Prop := ∀ n : Int, |n| ≤ bound → fl n = n

theorem exactUpTo_id (bound : Int) : ExactUpTo id bound := fun _ _ => rfl

theorem exactUpTo_binary64 : ExactUpTo binary64 (2 ^ 53) := fun _ hn => binary64_intCast hn

variable {fl : Rat → Rat}

theorem Rounding.nonneg (hfl : Rounding fl) {x : Rat} (hx : 0 ≤ x) : 0 ≤ fl x :=
  hfl.zero ▸ hfl.mono hx

/-! ## The loop -/

/-- The questions that are answered correctly. -/
def Exam.correct (exam : Exam) (answers : Answers) : List ExamQuestion :=
  exam.questions.filter (·.answeredCorrectly answers)

def marks (questions : List ExamQuestion) : Int := (questions.map ExamQuestion.weight).sum

/-- The sum as the loop adds it up. -/
def addUp (fl : Rat → Rat) (sum : Rat) (questions : List ExamQuestion) : Rat :=
  questions.foldl (fun sum q => fl (sum + q.weight)) sum

@[simp] theorem marks_nil : marks [] = 0 := rfl

@[simp] theorem marks_cons (q : ExamQuestion) (questions : List ExamQuestion) :
    marks (q :: questions) = q.weight + marks questions := List.sum_cons

@[simp] theorem addUp_nil (sum : Rat) : addUp fl sum [] = sum := rfl

@[simp] theorem addUp_cons (sum : Rat) (q : ExamQuestion) (questions : List ExamQuestion) :
    addUp fl sum (q :: questions) = addUp fl (fl (sum + q.weight)) questions := rfl

theorem tally_eq (exam : Exam) (answers : Answers) :
    exam.tally fl answers =
      ⟨(exam.correct answers).length, addUp fl 0 (exam.correct answers),
        addUp fl 0 exam.questions⟩ := by
  have hfold : ∀ (questions : List ExamQuestion) (t : Tally),
      questions.foldl (Tally.add fl answers) t =
        ⟨t.correctCount + (questions.filter (·.answeredCorrectly answers)).length,
          addUp fl t.earnedMarks (questions.filter (·.answeredCorrectly answers)),
          addUp fl t.totalMarks questions⟩ := by
    intro questions
    induction questions with
    | nil => intro t; rfl
    | cons q questions ih =>
      intro t
      rw [List.foldl_cons, ih, List.filter_cons]
      unfold Tally.add
      split
      · simp only [List.length_cons, addUp_cons, Tally.mk.injEq, and_true]
        omega
      · simp only [addUp_cons]
  unfold Exam.tally Exam.correct
  rw [hfold]
  simp

/-- The percentage of the marks that is earned, to two decimals. -/
def scored (fl : Rat → Rat) (earned total : Rat) : Rat :=
  if 0 < total then toFixed2 (percentage fl earned total) else 0

theorem scoreWith_some (exam : Exam) (answers : Answers) :
    scoreWith fl (some exam) answers =
      let score := scored fl (addUp fl 0 (exam.correct answers)) (addUp fl 0 exam.questions)
      ⟨score, exam.questions ≠ [] ∧ exam.passingScore.getD passingScore ≤ fl score,
        (exam.correct answers).length, exam.questions.length⟩ := by
  unfold scoreWith
  simp only
  split
  · rename_i h
    simp [Exam.correct, scored, h]
  · rename_i h
    simp [tally_eq, Tally.score, scored, h]

/-! ## Sums -/

theorem marks_nonneg {questions : List ExamQuestion} (h : ∀ q ∈ questions, 0 ≤ q.weight) :
    0 ≤ marks questions := by
  unfold marks
  apply List.sum_nonneg
  intro n hn
  obtain ⟨q, hq, rfl⟩ := List.mem_map.mp hn
  exact h q hq

theorem marks_le {l l' : List ExamQuestion} (h : l.Sublist l') (hw : ∀ q ∈ l', 0 ≤ q.weight) :
    marks l ≤ marks l' := by
  unfold marks
  apply (h.map ExamQuestion.weight).sum_le_sum
  intro n hn
  obtain ⟨q, hq, rfl⟩ := List.mem_map.mp hn
  exact hw q hq

/-- Marks of more questions add up to no less. -/
theorem addUp_le (hfl : Rounding fl) {l l' : List ExamQuestion} (h : l.Sublist l')
    (hw : ∀ q ∈ l', 0 ≤ q.weight) {sum sum' : Rat} (hle : sum ≤ sum') (hsum : fl sum' = sum') :
    addUp fl sum l ≤ addUp fl sum' l' := by
  induction h generalizing sum sum' with
  | slnil => exact hle
  | @cons l l' q _ ih =>
    have hweight : (0 : Rat) ≤ q.weight := by exact_mod_cast hw q (by simp)
    have hstep : sum' ≤ fl (sum' + q.weight) := by
      have hup : fl sum' ≤ fl (sum' + q.weight) := hfl.mono (by linarith)
      rwa [hsum] at hup
    exact ih (fun q hq => hw q (by simp [hq])) (hle.trans hstep) (hfl.idem _)
  | @cons_cons l l' q _ ih =>
    have hstep : fl (sum + q.weight) ≤ fl (sum' + q.weight) := hfl.mono (by linarith)
    exact ih (fun q hq => hw q (by simp [hq])) hstep (hfl.idem _)

theorem addUp_nonneg (hfl : Rounding fl) {questions : List ExamQuestion}
    (hw : ∀ q ∈ questions, 0 ≤ q.weight) : 0 ≤ addUp fl 0 questions :=
  addUp_le hfl (List.nil_sublist questions) hw le_rfl hfl.zero

/-- The sums are those of the marks where no integer as large is rounded. -/
theorem addUp_eq {bound : Int} (hfl : ExactUpTo fl bound) {questions : List ExamQuestion}
    (hbound : (questions.map (|·.weight|)).sum ≤ bound) :
    addUp fl 0 questions = marks questions := by
  have hsum : ∀ (questions : List ExamQuestion) (n : Int),
      |n| + (questions.map (|·.weight|)).sum ≤ bound →
        addUp fl n questions = ((n + marks questions : Int) : Rat) := by
    intro questions
    induction questions with
    | nil => intro n _; simp
    | cons q questions ih =>
      intro n hn
      rw [List.map_cons, List.sum_cons] at hn
      have hrest : 0 ≤ (questions.map (|·.weight|)).sum := by
        apply List.sum_nonneg
        intro m hm
        obtain ⟨q, -, rfl⟩ := List.mem_map.mp hm
        exact abs_nonneg _
      have habs := abs_add_le n q.weight
      have hstep : fl (n + q.weight) = ((n + q.weight : Int) : Rat) := by
        rw [← Int.cast_add]
        exact hfl _ (by omega)
      rw [addUp_cons, hstep, ih _ (by omega), marks_cons]
      push_cast
      ring
  have h := hsum questions 0 (by simpa using hbound)
  simpa using h

theorem addUp_eq_of_nonneg {bound : Int} (hfl : ExactUpTo fl bound) {questions : List ExamQuestion}
    (hw : ∀ q ∈ questions, 0 ≤ q.weight) (hbound : marks questions ≤ bound) :
    addUp fl 0 questions = marks questions := by
  apply addUp_eq hfl
  have habs : questions.map (|·.weight|) = questions.map ExamQuestion.weight :=
    List.map_congr_left fun q hq => abs_of_nonneg (hw q hq)
  rw [habs]
  exact hbound

/-! ## Two decimals -/

theorem toFixed2_mono : Monotone toFixed2 := by
  intro x y h
  have hround : ∀ {x y : Rat}, x ≤ y → (roundHalfUp (x * 100) : Rat) ≤ roundHalfUp (y * 100) := by
    intro x y h
    exact_mod_cast roundHalfUp_mono (mul_le_mul_of_nonneg_right h (by norm_num : (0 : Rat) ≤ 100))
  have hnonneg : ∀ {x : Rat}, 0 ≤ x → (0 : Rat) ≤ roundHalfUp (x * 100) := by
    intro x hx
    have h := hround hx
    rwa [zero_mul, ← Int.cast_zero, roundHalfUp_intCast] at h
  unfold toFixed2
  split_ifs with hx hy hy
  · have h' := hround (neg_le_neg h)
    linarith
  · have hx' := hnonneg (neg_nonneg.mpr hx.le)
    have hy' := hnonneg (not_lt.mp hy)
    linarith
  · linarith
  · have h' := hround h
    linarith

theorem percentage_mono (hfl : Rounding fl) {earned earned' total : Rat} (ht : 0 ≤ total)
    (h : earned ≤ earned') : percentage fl earned total ≤ percentage fl earned' total := by
  have hratio := hfl.mono (div_le_div_of_nonneg_right h ht)
  exact hfl.mono (mul_le_mul_of_nonneg_right hratio (by norm_num))

theorem scored_mono (hfl : Rounding fl) {earned earned' total : Rat} (h : earned ≤ earned') :
    scored fl earned total ≤ scored fl earned' total := by
  unfold scored
  split
  · rename_i ht
    exact toFixed2_mono (percentage_mono hfl ht.le h)
  · exact le_rfl

/-! ## Pairs of answers -/

/-- The ids of an exam are distinct, and no marks are negative. -/
structure Exam.Proper (exam : Exam) : Prop where
  questionIds : (exam.questions.map (·.id)).Nodup
  optionIds : (exam.questions.flatMap fun q => q.options.map (·.id)).Nodup
  uuids : ∀ q ∈ exam.questions, ∀ o ∈ q.options, o.id ≠ ""
  marks : ∀ q ∈ exam.questions, 0 ≤ q.weight

/-- A correct option of the question is selected. -/
def SelectsCorrect (answers : Answers) (q : ExamQuestion) : Prop :=
  ∃ o ∈ q.options, answers.lookup q.id = some o.id ∧ o.isCorrect

/-- The same exam with its questions, and the options of each, in another order. -/
structure Exam.Shuffled (exam exam' : Exam) : Prop where
  passingScore : exam'.passingScore = exam.passingScore
  questions : ∃ qs, exam.questions.Perm qs ∧ List.Forall₂ (fun q q' => q'.id = q.id ∧
    q'.marks = q.marks ∧ q.options.Perm q'.options) qs exam'.questions

section

variable {exam exam' : Exam} {a b answers : Answers} {q : ExamQuestion}

theorem answeredCorrectly_congr (h : a.lookup q.id = b.lookup q.id) :
    q.answeredCorrectly a = q.answeredCorrectly b := by
  unfold ExamQuestion.answeredCorrectly
  rw [h]

theorem answeredCorrectly_of_foreign {id : Id} (h : answers.lookup q.id = some id)
    (hid : id ∉ q.options.map (·.id)) : q.answeredCorrectly answers = false := by
  unfold ExamQuestion.answeredCorrectly
  rw [h]
  simp only
  split
  · rfl
  · split
    · rename_i o ho
      have hmem := List.mem_of_find?_eq_some ho
      have heq := List.find?_some ho
      simp only [decide_eq_true_eq] at heq
      exact absurd (heq ▸ List.mem_map_of_mem hmem) hid
    · rfl

theorem answeredCorrectly_iff (hids : (q.options.map (·.id)).Nodup)
    (huuids : ∀ o ∈ q.options, o.id ≠ "") :
    q.answeredCorrectly answers = true ↔ SelectsCorrect answers q := by
  constructor
  · intro h
    unfold ExamQuestion.answeredCorrectly at h
    split at h
    · simp at h
    · rename_i selected hselected
      split at h
      · simp at h
      · split at h
        · rename_i o ho
          have heq := List.find?_some ho
          simp only [decide_eq_true_eq] at heq
          exact ⟨o, List.mem_of_find?_eq_some ho, by rw [hselected, heq], h⟩
        · simp at h
  · rintro ⟨o, ho, hselected, hcorrect⟩
    have hfind : q.options.find? (·.id = o.id) = some o := by
      obtain ⟨o', ho'⟩ := Option.isSome_iff_exists.mp
        (List.find?_isSome (p := (·.id = o.id)).mpr ⟨o, ho, by simp⟩)
      have heq := List.find?_some ho'
      simp only [decide_eq_true_eq] at heq
      rw [ho', List.inj_on_of_nodup_map hids (List.mem_of_find?_eq_some ho') ho heq]
    unfold ExamQuestion.answeredCorrectly
    rw [hselected]
    simp only [huuids o ho, if_false, hfind]
    exact hcorrect

theorem Exam.Proper.optionIds_nodup (h : exam.Proper) (hq : q ∈ exam.questions) :
    (q.options.map (·.id)).Nodup :=
  (List.nodup_flatMap.mp h.optionIds).1 q hq

theorem Exam.Proper.correct_iff (h : exam.Proper) (hq : q ∈ exam.questions) :
    q.answeredCorrectly answers = true ↔ SelectsCorrect answers q :=
  answeredCorrectly_iff (h.optionIds_nodup hq) (h.uuids q hq)

/-- No two questions share an option. -/
theorem Exam.Proper.foreign (h : exam.Proper) {q' : ExamQuestion} {o : ExamQuestionOption}
    (hq : q ∈ exam.questions) (hq' : q' ∈ exam.questions) (hne : q' ≠ q) (ho : o ∈ q'.options) :
    o.id ∉ q.options.map (·.id) := by
  intro hmem
  have hpairwise := (List.nodup_flatMap.mp h.optionIds).2
  have hsymm : Std.Symm (Function.onFun List.Disjoint fun q : ExamQuestion =>
      q.options.map (·.id)) := ⟨fun _ _ h _ hid hid' => h hid' hid⟩
  exact hpairwise.forall hq hq' hne.symm hmem (List.mem_map_of_mem ho)

theorem scoreWith_congr (h : ∀ q ∈ exam.questions, a.lookup q.id = b.lookup q.id) :
    scoreWith fl (some exam) a = scoreWith fl (some exam) b := by
  have hcorrect : exam.correct a = exam.correct b := by
    unfold Exam.correct
    apply List.filter_congr
    intro q hq
    exact answeredCorrectly_congr (h q hq)
  rw [scoreWith_some, scoreWith_some, hcorrect]

theorem lookup_without (id id' : Id) :
    (answers.filter (·.1 ≠ id)).lookup id' = if id' = id then none else answers.lookup id' := by
  simp only [ne_eq, decide_not]
  induction answers with
  | nil => simp
  | cons e answers ih =>
    obtain ⟨key, value⟩ := e
    rw [List.filter_cons]
    by_cases hkey : key = id
    · by_cases hid : id' = id
      · simp only [hkey, hid, if_true] at ih ⊢
        simpa using ih
      · have hne : (id' == id) = false := by simpa using hid
        simp only [if_neg hid] at ih
        simp [hkey, hid, ih, List.lookup_cons, hne]
    · by_cases hid : id' = key
      · simp [hkey, hid]
      · have hne : (id' == key) = false := by simpa using hid
        simp only [hkey, decide_false, Bool.not_false, if_true, List.lookup_cons, hne, ih]

/-- A selection that is no option of the question counts as no answer. -/
theorem scoreWith_foreign (hids : (exam.questions.map (·.id)).Nodup) (hq : q ∈ exam.questions)
    {id : Id} (h : answers.lookup q.id = some id) (hid : id ∉ q.options.map (·.id)) :
    scoreWith fl (some exam) answers = scoreWith fl (some exam) (answers.filter (·.1 ≠ q.id)) := by
  have hcorrect : exam.correct answers = exam.correct (answers.filter (·.1 ≠ q.id)) := by
    unfold Exam.correct
    apply List.filter_congr
    intro q' hq'
    by_cases heq : q'.id = q.id
    · obtain rfl := List.inj_on_of_nodup_map hids hq' hq heq
      have hnone : (answers.filter (·.1 ≠ q'.id)).lookup q'.id = none := by
        rw [lookup_without, if_pos rfl]
      rw [answeredCorrectly_of_foreign h hid]
      unfold ExamQuestion.answeredCorrectly
      rw [hnone]
    · apply answeredCorrectly_congr
      rw [lookup_without, if_neg heq]
  rw [scoreWith_some, scoreWith_some, hcorrect]

theorem scoreWith_mono (hfl : Rounding fl) (hexam : exam.Proper)
    (h : ∀ q ∈ exam.questions, SelectsCorrect a q → SelectsCorrect b q) :
    (scoreWith fl (some exam) a).score ≤ (scoreWith fl (some exam) b).score ∧
      (scoreWith fl (some exam) a).correctCount ≤ (scoreWith fl (some exam) b).correctCount ∧
      ((scoreWith fl (some exam) a).passed = true → (scoreWith fl (some exam) b).passed = true) := by
  have himp : ∀ q ∈ exam.questions, q.answeredCorrectly a = true → q.answeredCorrectly b = true :=
    fun q hq hqa => (hexam.correct_iff hq).mpr (h q hq ((hexam.correct_iff hq).mp hqa))
  have hsublist : (exam.correct a).Sublist (exam.correct b) := by
    have hfilter : exam.correct a = (exam.correct b).filter (·.answeredCorrectly a) := by
      unfold Exam.correct
      rw [List.filter_filter]
      apply List.filter_congr
      intro q hq
      cases hqa : q.answeredCorrectly a with
      | false => rfl
      | true => simp [himp q hq hqa]
    rw [hfilter]
    exact List.filter_sublist
  have hmarks : ∀ q ∈ exam.correct b, 0 ≤ q.weight :=
    fun q hq => hexam.marks q (List.mem_of_mem_filter hq)
  have hearned : addUp fl 0 (exam.correct a) ≤ addUp fl 0 (exam.correct b) :=
    addUp_le hfl hsublist hmarks le_rfl hfl.zero
  have hscore : scored fl (addUp fl 0 (exam.correct a)) (addUp fl 0 exam.questions) ≤ _ :=
    scored_mono hfl hearned
  rw [scoreWith_some, scoreWith_some]
  simp only [decide_eq_true_eq]
  exact ⟨hscore, hsublist.length_le, fun hpassed => ⟨hpassed.1, hpassed.2.trans (hfl.mono hscore)⟩⟩

theorem scoreWith_shuffled (hexact : ExactUpTo fl (marks exam.questions)) (hexam : exam.Proper)
    (h : exam.Shuffled exam') :
    scoreWith fl (some exam') answers = scoreWith fl (some exam) answers := by
  obtain ⟨qs, hperm, hquestions⟩ := h.questions
  have hproper : ∀ q ∈ qs, (q.options.map (·.id)).Nodup ∧ (∀ o ∈ q.options, o.id ≠ "") ∧
      0 ≤ q.weight := by
    intro q hq
    have hmem := hperm.mem_iff.mpr hq
    exact ⟨hexam.optionIds_nodup hmem, hexam.uuids q hmem, hexam.marks q hmem⟩
  have hsame : marks exam'.questions = marks qs ∧ exam'.questions.length = qs.length ∧
      marks (exam'.correct answers) = marks (qs.filter (·.answeredCorrectly answers)) ∧
      (exam'.correct answers).length = (qs.filter (·.answeredCorrectly answers)).length ∧
      ∀ q ∈ exam'.questions, 0 ≤ q.weight := by
    unfold Exam.correct
    generalize exam'.questions = qs' at hquestions
    clear hperm
    induction hquestions with
    | nil => simp
    | @cons q q' qs qs' hq _ ih =>
      obtain ⟨hid, hweight, hoptions⟩ := hq
      obtain ⟨hnodup, huuids, hnonneg⟩ := hproper q (by simp)
      obtain ⟨hmarks, hlength, hearned, hcount, hrest⟩ := ih fun q hq => hproper q (by simp [hq])
      have hanswered : q'.answeredCorrectly answers = q.answeredCorrectly answers := by
        rw [Bool.eq_iff_iff, answeredCorrectly_iff hnodup huuids, answeredCorrectly_iff
          ((hoptions.map _).nodup_iff.mp hnodup) fun o ho => huuids o (hoptions.mem_iff.mpr ho)]
        unfold SelectsCorrect
        rw [hid]
        simp only [hoptions.mem_iff]
      have hweight : q'.weight = q.weight := by
        unfold ExamQuestion.weight
        rw [hweight]
      have hall : ∀ p ∈ q' :: qs', 0 ≤ p.weight := by
        rintro p hp
        rcases List.mem_cons.mp hp with rfl | hp
        · rw [hweight]
          exact hnonneg
        · exact hrest p hp
      rw [List.filter_cons, List.filter_cons, hanswered]
      split
      · exact ⟨by simp [hweight, hmarks], by simp [hlength], by simp [hweight, hearned],
          by simp [hcount], hall⟩
      · exact ⟨by simp [hweight, hmarks], by simp [hlength], hearned, hcount, hall⟩
  obtain ⟨hmarks, hlength, hearned, hcount, hmarks'⟩ := hsame
  have hsum : ∀ {l l' : List ExamQuestion}, l.Perm l' → marks l = marks l' :=
    fun h => (h.map _).sum_eq
  have hempty : exam'.questions = [] ↔ exam.questions = [] := by
    rw [← List.length_eq_zero_iff, ← List.length_eq_zero_iff, hlength, hperm.length_eq]
  have hcorrect : (exam.correct answers).Perm (qs.filter (·.answeredCorrectly answers)) :=
    hperm.filter _
  have hearned' : marks (exam'.correct answers) = marks (exam.correct answers) :=
    hearned.trans (hsum hcorrect.symm)
  have htotal : marks exam'.questions = marks exam.questions := hmarks.trans (hsum hperm.symm)
  -- No sum is rounded, in whichever order it is added up.
  have hsums : addUp fl 0 exam'.questions = addUp fl 0 exam.questions ∧
      addUp fl 0 (exam'.correct answers) = addUp fl 0 (exam.correct answers) := by
    have hle := marks_le (l := exam.correct answers) List.filter_sublist hexam.marks
    have hown : ∀ q ∈ exam.correct answers, 0 ≤ q.weight :=
      fun q hq => hexam.marks q (List.mem_of_mem_filter hq)
    have hown' : ∀ q ∈ exam'.correct answers, 0 ≤ q.weight :=
      fun q hq => hmarks' q (List.mem_of_mem_filter hq)
    rw [addUp_eq_of_nonneg hexact hexam.marks le_rfl, addUp_eq_of_nonneg hexact hown hle,
      addUp_eq_of_nonneg hexact hmarks' htotal.le,
      addUp_eq_of_nonneg hexact hown' (hearned'.trans_le hle), htotal, hearned']
    exact ⟨rfl, rfl⟩
  rw [scoreWith_some, scoreWith_some, h.passingScore, hsums.1, hsums.2, hcount, hlength,
    hcorrect.length_eq, hperm.length_eq]
  simp only [ne_eq, hempty]

/-- Better answers never score less, only selections of the exam's own options count, and the order
of questions and options does not matter. -/
structure Compares (fl : Rat → Rat) (exam : Exam) : Prop where
  better : ∀ a b, (∀ q ∈ exam.questions, SelectsCorrect a q → SelectsCorrect b q) →
    (scoreWith fl (some exam) a).score ≤ (scoreWith fl (some exam) b).score ∧
      (scoreWith fl (some exam) a).correctCount ≤ (scoreWith fl (some exam) b).correctCount ∧
      ((scoreWith fl (some exam) a).passed = true → (scoreWith fl (some exam) b).passed = true)
  own : ∀ a b : Answers, (∀ q ∈ exam.questions, a.lookup q.id = b.lookup q.id) →
    scoreWith fl (some exam) a = scoreWith fl (some exam) b
  noOption : ∀ a : Answers, ∀ q ∈ exam.questions, ∀ id, id ∉ q.options.map (·.id) →
    a.lookup q.id = some id →
      scoreWith fl (some exam) a = scoreWith fl (some exam) (a.filter (·.1 ≠ q.id))
  otherOption : ∀ a : Answers, ∀ q ∈ exam.questions, ∀ q' ∈ exam.questions, q' ≠ q →
    ∀ o ∈ q'.options, a.lookup q.id = some o.id →
      scoreWith fl (some exam) a = scoreWith fl (some exam) (a.filter (·.1 ≠ q.id))
  order : ∀ exam' a, exam.Shuffled exam' →
    scoreWith fl (some exam') a = scoreWith fl (some exam) a

theorem compares (hfl : Rounding fl) (hexact : ExactUpTo fl (marks exam.questions))
    (hexam : exam.Proper) : Compares fl exam where
  better _ _ h := scoreWith_mono hfl hexam h
  own _ _ h := scoreWith_congr h
  noOption _ _ hq _ hid hselected := scoreWith_foreign hexam.questionIds hq hselected hid
  otherOption _ _ hq _ hq' hne _ ho hselected :=
    scoreWith_foreign hexam.questionIds hq hselected (hexam.foreign hq hq' hne ho)
  order _ _ h := scoreWith_shuffled hexact hexam h

/-- Over exact rationals, and in double precision where no sum is rounded. -/
theorem scores_compare (hexam : exam.Proper) :
    Compares id exam ∧ (marks exam.questions ≤ 2 ^ 53 → Compares binary64 exam) := by
  refine ⟨compares rounding_id (exactUpTo_id _) hexam, fun hmarks => ?_⟩
  exact compares rounding_binary64 (fun n hn => exactUpTo_binary64 n (hn.trans hmarks)) hexam

end

/-- Two questions with these marks. The first option of each is the correct one. -/
def twoQuestions (first second : Int) : Exam :=
  ⟨"e", "psm", "Exam 1", 1, .published, some 80, 60,
    [⟨"q", "First?", .mcq, 0, some first, [⟨"q1", "Yes", true⟩, ⟨"q2", "No", false⟩]⟩,
      ⟨"r", "Second?", .mcq, 1, some second, [⟨"r1", "Yes", true⟩, ⟨"r2", "No", false⟩]⟩]⟩

theorem scores_compare_two :
    (scoreOf (some (twoQuestions 3 1)) [("q", "q1"), ("r", "q1")]).score ≤
        (scoreOf (some (twoQuestions 3 1)) [("q", "q1"), ("r", "r1")]).score ∧
      scoreWith id (some (twoQuestions 3 1)) [("q", "q1"), ("r", "q1")] =
        scoreWith id (some (twoQuestions 3 1)) [("q", "q1")] := by
  have hproper : (twoQuestions 3 1).Proper := ⟨by decide, by decide, by decide, by decide⟩
  obtain ⟨hexact, hdouble⟩ := scores_compare hproper
  constructor
  · refine ((hdouble (by decide)).better _ _ ?_).1
    unfold SelectsCorrect
    decide
  · have hfilter : ([("q", "q1")] : Answers) = [("q", "q1"), ("r", "q1")].filter (·.1 ≠ "r") := by
      decide
    have hforeign := hexact.noOption [("q", "q1"), ("r", "q1")] _
      (List.mem_cons_of_mem _ List.mem_cons_self) "q1" (by decide) rfl
    rw [hfilter]
    exact hforeign

end LmsBackend.Exams
