import LmsBackend.Exams.Entities
import LmsBackend.Numeric.Binary64

/-! # Scoring (`ExamService.scoreAnswers`)

A number operation gives its exact result, rounded: `fl` says how. The source computes with doubles. -/

open Numeric

namespace LmsBackend.Exams

/-- Passing score threshold in percent. -/
def passingScore : Int := 80

/-- What `x.toFixed(2)` writes: the nearest two-decimal number, halves away from zero. -/
def toFixed2 (x : Rat) : Rat :=
  if x < 0 then -(roundHalfUp (-x * 100) : Rat) / 100 else (roundHalfUp (x * 100) : Rat) / 100

structure Tally where
  correctCount : Nat
  earnedMarks : Rat
  totalMarks : Rat
  deriving DecidableEq, Repr

def ExamQuestion.weight (q : ExamQuestion) : Int := q.marks.getD 1

/-- The answer to the question is one of its options, and a correct one. An empty answer is none. -/
def ExamQuestion.answeredCorrectly (q : ExamQuestion) (answers : Answers) : Bool :=
  match answers.lookup q.id with
  | none => false
  | some selected =>
    if selected = "" then false
    else match q.options.find? (·.id = selected) with
      | some option => option.isCorrect
      | none => false

section

variable (fl : Rat → Rat)

/-- One turn of the loop over the questions. -/
def Tally.add (answers : Answers) (t : Tally) (q : ExamQuestion) : Tally :=
  let totalMarks := fl (t.totalMarks + q.weight)
  if q.answeredCorrectly answers then
    ⟨t.correctCount + 1, fl (t.earnedMarks + q.weight), totalMarks⟩
  else ⟨t.correctCount, t.earnedMarks, totalMarks⟩

def Exam.tally (exam : Exam) (answers : Answers) : Tally :=
  exam.questions.foldl (Tally.add fl answers) ⟨0, 0, 0⟩

/-- `(earnedMarks / totalMarks) * 100` -/
def percentage (earned total : Rat) : Rat := fl (fl (earned / total) * 100)

def Tally.score (t : Tally) : Rat :=
  if 0 < t.totalMarks then toFixed2 (percentage fl t.earnedMarks t.totalMarks) else 0

/-- What `scoreAnswers` returns for the row that it loads. The score is kept as it is written, with
two decimals. `parseFloat` makes a number of it, which is compared. -/
def scoreWith (exam? : Option Exam) (answers : Answers) : ScoreResult :=
  match exam? with
  | none => ⟨0, false, 0, 0⟩
  | some exam =>
    if exam.questions = [] then ⟨0, false, 0, 0⟩
    else
      let t := exam.tally fl answers
      ⟨t.score fl, exam.passingScore.getD passingScore ≤ fl (t.score fl), t.correctCount,
        exam.questions.length⟩

end

def scoreOf : Option Exam → Answers → ScoreResult := scoreWith binary64

end LmsBackend.Exams
