import LmsBackend.Auth.AccessToken
import LmsBackend.Exams.ExamService

/-!
# `ExamController`

The student endpoints. `@CurrentUser('id')` is the `id` of the user, which an
admin does not have. The validation pipe has let the bodies pass.
-/

open Async Store

namespace LmsBackend.Exams

/-- The body of `validate-access` and of `start`. -/
structure StartExamDto where
  code : String
  examId : Id
  deriving DecidableEq, Repr

structure ExamPayload where
  id : Id
  title : String
  durationMinutes : Int
  passingScore : Option Int
  deriving DecidableEq, Repr

structure AccessPayload where
  valid : Bool
  accessCodeId : Id
  exam : ExamPayload
  deriving DecidableEq, Repr

structure OptionPayload where
  id : Id
  optionText : String
  deriving DecidableEq, Repr

structure QuestionPayload where
  id : Id
  questionText : String
  questionType : QuestionType
  position : Int
  options : List OptionPayload
  deriving DecidableEq, Repr

structure StartPayload where
  sessionId : Id
  durationSeconds : Int
  expiresAt : Time
  questions : List QuestionPayload
  deriving DecidableEq, Repr

namespace ExamController

def accessPayload (exam : Exam) (accessCodeId : Id) : AccessPayload :=
  ⟨true, accessCodeId, exam.id, exam.title, exam.durationMinutes, exam.passingScore⟩

/-- Strips `isCorrect` from the options. -/
def questionPayload (q : ExamQuestion) : QuestionPayload where
  id := q.id
  questionText := q.questionText
  questionType := q.questionType
  position := q.position
  options := q.options.map fun o => ⟨o.id, o.optionText⟩

def startPayload (s : ExamService.Started) : StartPayload :=
  ⟨s.sessionId, s.durationSeconds, s.expiresAt, s.questions.map questionPayload⟩

def validateAccess (user : Auth.AuthenticatedUser) (dto : StartExamDto) :
    Promise AccessPayload := do
  let (exam, accessCodeId) ← ExamService.validateAccess user.id dto.code dto.examId
  pure (accessPayload exam accessCodeId)

def startExam (user : Auth.AuthenticatedUser) (dto : StartExamDto) : Promise StartPayload := do
  let result ← ExamService.startExam user.id dto.code dto.examId
  pure (startPayload result)

end ExamController

end LmsBackend.Exams
