import LmsBackend.Async.Interpret
import LmsBackend.Exams.ExamService
import LmsBackend.Rls.World

/-!
# `RlsInterceptor` and the runners of `ExamService`

A handler is any program of statements on the request's runner, statements of
repositories and calls of the two functions that open runners of their own.
-/

open Async Store

namespace LmsBackend.Rls

open Exams (AttemptStatus ExamAttempt ScoreResult TestSession)

/-- `RlsRequest` -/
structure Request where
  ip : Option String
  remoteAddress : Option String
  user : Option AuthenticatedUser
  deriving DecidableEq, Repr

variable {D H : Type} {R : H → Type} {E X V α : Type}

abbrev Promise (H : Type) (R : H → Type) (E : Type) := Prog (Call H) (Resp R) E

def await (c : Call H) : Promise H R E (Resp R c) := Prog.await c

/-- What the three functions below have in common: the body runs in a transaction of a new runner,
which is released at the end. -/
def inTransaction (purpose : Purpose) (body : QueryRunner → Promise H R E α) :
    Promise H R E α := do
  let runner ← await (.connect purpose)
  await (.startTransaction runner.val)
  Prog.ensure
    (tryCatch
      (do
        let result ← body runner.val
        await (.commitTransaction runner.val)
        pure result)
      fun err => do
        let isTransactionActive ← await (.isTransactionActive runner.val)
        if isTransactionActive then await (.rollbackTransaction runner.val)
        throw err)
    (do
      let isReleased ← await (.isReleased runner.val)
      if !isReleased then await (.release runner.val))

/-! ## `ExamService` -/

/-- Exam IDs the student has already attempted for a certificate. -/
def getAttemptedExamIds (userId certId : String) : Promise H R E (List Id) :=
  inTransaction (.attemptedExams userId) fun runner => do
    await (.setConfig runner currentUserId userId)
    let rows : List ExamAttempt ← await (.query runner (.select .examAttempts fun row =>
      row.userId = uuidOf userId ∧ row.certId = uuidOf certId))
    pure (rows.map (·.examId)).dedup

/-- The body of the transaction of `scoreAndPersist`. -/
def persist (B : Backend D H R E X V) (session : TestSession) (answers : Answers)
    (attempt : ExamAttempt) (runner : QueryRunner) : Promise H R E Unit := do
  await (.setConfig runner currentUserId session.userId)
  let affected : Nat ← await (.query runner (.updateTestSession session.id [.active, .expired]
    attempt.status.session attempt.submittedAt answers))
  if affected ≠ 1 then throw (B.conflict "Session has already been submitted")
  let _ ← await (.query runner (.insert .examAttempts attempt))

def scoreAndPersist (B : Backend D H R E X V) (session : TestSession) (answers : Answers)
    (status : AttemptStatus) (lateFlag : Bool) : Promise H R E ScoreResult := do
  let exam? ← await (.repository (.findExam session.examId))
  let result := Exams.scoreOf exam? answers
  let submittedAt ← await .now
  let attempt :=
    Exams.ExamService.attemptOf session answers status lateFlag result submittedAt
  inTransaction (.scoring session.userId) (persist B session answers attempt)
  await (.deleteSession session.id)
  pure result

/-! ## Handlers -/

inductive HandlerCall (H : Type) where
  /-- On `req.rlsRunner`, or on the repository of the table if the request has none. -/
  | rls (s : Statement H)
  | repository (s : Statement H)
  | getAttemptedExamIds (userId certId : Id)
  | scoreAndPersist (session : TestSession) (answers : Answers) (status : AttemptStatus)
      (lateFlag : Bool)
  | outside (h : H)

@[reducible] def HandlerResp (R : H → Type) : HandlerCall H → Type
  | .rls s => s.Resp R
  | .repository s => s.Resp R
  | .getAttemptedExamIds _ _ => List Id
  | .scoreAndPersist _ _ _ _ => ScoreResult
  | .outside h => R h

abbrev Handler (H : Type) (R : H → Type) (E A : Type) := Prog (HandlerCall H) (HandlerResp R) E A

def HandlerCall.prog (B : Backend D H R E X V) (rlsRunner : Option QueryRunner) :
    (c : HandlerCall H) → Promise H R E (HandlerResp R c)
  | .rls s =>
    match rlsRunner with
    | some runner => await (.query runner s)
    | none => await (.repository s)
  | .repository s => await (.repository s)
  | .getAttemptedExamIds userId certId => Rls.getAttemptedExamIds userId certId
  | .scoreAndPersist session answers status lateFlag =>
    Rls.scoreAndPersist B session answers status lateFlag
  | .outside h => await (.outside h)

/-- `next.handle()` -/
def handle (B : Backend D H R E X V) (rlsRunner : Option QueryRunner) (next : Handler H R E α) :
    Promise H R E α :=
  next.interpret (HandlerCall.prog B rlsRunner)

/-! ## `RlsInterceptor` -/

/-- Sets the id that the user has. -/
def setId (runner : QueryRunner) (name : String) : Option Id → Promise H R E Unit
  | some id => await (.setConfig runner name id)
  | none => pure ()

/-- The settings of the request's transaction, and then the handler. -/
def handleWithContext (B : Backend D H R E X V) (ip : String) (user : AuthenticatedUser)
    (next : Handler H R E α) (runner : QueryRunner) : Promise H R E α := do
  setId runner currentUserId user.student?
  setId runner currentAdminId user.admin?
  await (.setConfig runner currentIp ip)
  handle B (some runner) next

def runWithRlsContext (B : Backend D H R E X V) (req : Request) (user : AuthenticatedUser)
    (next : Handler H R E α) : Promise H R E α :=
  let ip := (req.ip.or req.remoteAddress).getD "127.0.0.1"
  inTransaction (.request user) (handleWithContext B ip user next)

/-- The user of a request that gets a runner. -/
def Request.rlsUser? (req : Request) : Option AuthenticatedUser :=
  req.user.filter fun user => user.student?.isSome || user.admin?.isSome

def intercept (B : Backend D H R E X V) (req : Request) (next : Handler H R E α) :
    Promise H R E α :=
  match req.rlsUser? with
  | none => handle B none next
  | some user => runWithRlsContext B req user next

/-! ## The backend -/

/-- A request, or a job that comes from elsewhere and has no request. -/
inductive Task (H : Type) (R : H → Type) (E A : Type) where
  | request (req : Request) (next : Handler H R E A)
  | job (body : Handler H R E A)

variable {A : Type}

def Task.prog (B : Backend D H R E X V) : Task H R E A → Promise H R E A
  | .request req next => intercept B req next
  | .job body => handle B none body

/-- The user whose request has a runner. -/
def Task.user? : Task H R E A → Option AuthenticatedUser
  | .request req _ => req.rlsUser?
  | .job _ => none

def Task.handler : Task H R E A → Handler H R E A
  | .request _ next => next
  | .job body => body

def rlsSystem (B : Backend D H R E X V) (A : Type) :
    System (World D) (Call H) (Resp R) E A (Task H R E A) (Choice X) V where
  prog := Task.prog B
  client _ := true
  exec := exec B
  reject := reject B
  env v w := some ({ w with data := B.env v w.data }, [])

theorem rlsSystem_exec (B : Backend D H R E X V) : (rlsSystem B A).exec = exec B := rfl

theorem rlsSystem_reject (B : Backend D H R E X V) : (rlsSystem B A).reject = reject B := rfl

abbrev Pool (D H : Type) (R : H → Type) (E A : Type) :=
  Config (World D) (Call H) (Resp R) E A (Task H R E A)

/-- Any data, and no connection yet. -/
structure Initial (w : World D) : Prop where
  connections : w.connections = Table.empty
  runners : w.runners = 0
  active : w.active = []

/-- Stands in for the other tables in runs: there are none. -/
def plainBackend : Backend Unit Empty (fun _ => Unit) String Unit Unit where
  run _ h := nomatch h
  infra := "query failed"
  conflict message := message
  env _ d := d

def plainWorld (purchases : List Content.StudentPurchase) : World Unit :=
  ⟨Table.empty, 0, [], ⟨0, purchases, [], Table.empty, [], ()⟩⟩

theorem plainWorld_initial (purchases : List Content.StudentPurchase) :
    Initial (plainWorld purchases) :=
  ⟨rfl, rfl, rfl⟩

/-- The request of a student with this id. -/
def studentRequest (id : Id) : Request := ⟨none, none, some ⟨some id, none⟩⟩

/-- Carries out the next call of process `i` on connection `slot`. -/
def go (i slot : Nat) : Label (Task Empty (fun _ => Unit) String A) (Choice Unit) Unit :=
  .run i ⟨slot, .done, ()⟩

end LmsBackend.Rls
