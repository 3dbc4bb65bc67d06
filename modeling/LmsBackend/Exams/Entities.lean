import Mathlib.Data.List.Sort

/-!
# The tables of an exam

Times are milliseconds. Foreign rows, titles of other tables and the `updated_at`
columns are left out: nothing here reads them.
-/

namespace LmsBackend

/-- A UUID as the database spells it, in lower case. -/
abbrev Id := String

/-- What a `uuid` column or parameter makes of the text of one. -/
def uuidOf (text : String) : Id := String.ofList (text.toList.map Char.toLower)

abbrev Time := Int

/-- `Record<string, string>`: question id to option id, in the order of the object. -/
abbrev Answers := List (Id × Id)

namespace Exams

inductive ExamStatus where
  | draft
  | published
  deriving DecidableEq, Repr

inductive QuestionType where
  | mcq
  | trueFalse
  deriving DecidableEq, Repr

structure ExamQuestionOption where
  id : Id
  optionText : String
  isCorrect : Bool
  deriving DecidableEq, Repr

structure ExamQuestion where
  id : Id
  questionText : String
  questionType : QuestionType
  position : Int
  marks : Option Int
  options : List ExamQuestionOption
  deriving DecidableEq, Repr

structure Exam where
  id : Id
  certId : Id
  title : String
  examOrder : Int
  status : ExamStatus
  passingScore : Option Int
  durationMinutes : Int
  questions : List ExamQuestion
  deriving DecidableEq, Repr

/-- The exam as it is read without its relations. -/
def Exam.row (e : Exam) : Exam := { e with questions := [] }

def Exam.byPosition (e : Exam) : Exam :=
  { e with questions := e.questions.insertionSort (·.position ≤ ·.position) }

/-- `usedAt` is NULL until the code is used. -/
structure ExamAccessCode where
  id : Id
  userId : Id
  examId : Id
  certId : Id
  tokenHash : String
  expiresAt : Time
  usedAt : Option Time
  createdAt : Time
  deriving DecidableEq, Repr

inductive TestSessionStatus where
  | active
  | submitted
  | expired
  | autoSubmitted
  deriving DecidableEq, Repr

/-- The value of the status in the database and in messages. -/
def TestSessionStatus.text : TestSessionStatus → String
  | .active => "active"
  | .submitted => "submitted"
  | .expired => "expired"
  | .autoSubmitted => "auto_submitted"

/-- `sessionToken` is the id of the access code that the session was started with. -/
structure TestSession where
  id : Id
  userId : Id
  examId : Id
  certId : Option Id
  sessionToken : Id
  startedAt : Time
  durationSeconds : Int
  expiresAt : Time
  status : TestSessionStatus
  submittedAt : Option Time
  snapshot : Option Answers
  deriving DecidableEq, Repr

inductive AttemptStatus where
  | submitted
  | autoSubmitted
  deriving DecidableEq, Repr

structure ExamAttempt where
  userId : Id
  examId : Id
  certId : Id
  score : Rat
  passed : Bool
  answers : Answers
  durationSeconds : Int
  startedAt : Time
  submittedAt : Time
  status : AttemptStatus
  lateFlag : Bool
  deriving DecidableEq, Repr

/-- The JSON at `exam:session:{sessionId}`, without the answers. -/
structure ExamSessionInfo where
  sessionId : Id
  userId : Id
  examId : Id
  certId : Id
  startedAt : Time
  deriving DecidableEq, Repr

structure ExamSessionData extends ExamSessionInfo where
  answers : Answers
  deriving DecidableEq, Repr

structure ScoreResult where
  score : Rat
  passed : Bool
  correctCount : Nat
  totalCount : Nat
  deriving DecidableEq, Repr

/-- The statuses that a submitter may move a session out of. -/
def TestSessionStatus.isOpen (s : TestSessionStatus) : Bool := s = .active ∨ s = .expired

def TestSession.isOpen (s : TestSession) : Bool := s.status.isOpen

/-- The row after its submitting UPDATE. -/
def TestSession.moved (s : TestSession) (status : TestSessionStatus) (submittedAt : Time)
    (snapshot : Answers) : TestSession :=
  { s with status := status, submittedAt := some submittedAt, snapshot := some snapshot }

/-- The columns that no statement changes once the row is written. -/
def TestSession.fixed (s : TestSession) : TestSession :=
  { s with status := .active, submittedAt := none, snapshot := none }

theorem TestSession.fixed_eq_iff {s t : TestSession} :
    s.fixed = t.fixed ↔ s.id = t.id ∧ s.userId = t.userId ∧ s.examId = t.examId ∧
      s.certId = t.certId ∧ s.sessionToken = t.sessionToken ∧ s.startedAt = t.startedAt ∧
      s.durationSeconds = t.durationSeconds ∧ s.expiresAt = t.expiresAt := by
  simp [TestSession.fixed]

theorem TestSession.sessionToken_of_fixed {s t : TestSession} (h : s.fixed = t.fixed) :
    s.sessionToken = t.sessionToken :=
  (fixed_eq_iff.mp h).2.2.2.2.1

/-- The terminal status of a session with this attempt. -/
def AttemptStatus.session : AttemptStatus → TestSessionStatus
  | .autoSubmitted => .autoSubmitted
  | .submitted => .submitted

end Exams

end LmsBackend
