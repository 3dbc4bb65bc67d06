import LmsBackend.Exams.TestSessionService

/-! # `ExamService`

Every `await` of the source is a call here, in its order. -/

open Async Store

namespace LmsBackend.Exams

/-- Access codes expire 24 hours after assignment. -/
def accessCodeTtlMs : Int := 24 * 60 * 60 * 1000

/-- TypeORM's `dataSource.transaction(body)`: an error rolls back and is thrown again, whatever
the ROLLBACK itself does. -/
def transaction {α : Type} (body : Promise α) : Promise α :=
  tryCatch
    (do
      await .startTransaction
      let result ← body
      await .commitTransaction
      pure result)
    fun err => do
      tryCatch (await .rollbackTransaction) fun _ => pure ()
      throw err

namespace ExamService

/-! ## Admin: assign exam -/

/-- Generate + persist a one-time access code for a published exam. -/
def issueAccessCode (userId : String) (exam : Exam) : Promise (String × Time × Id) := do
  let plainCode ← await .randomBytes
  let tokenHash ← await (.bcryptHash plainCode)
  let now ← await .now
  let expiresAt := now + accessCodeTtlMs
  await (.accessCodeSave (uuidOf userId) exam.id exam.certId tokenHash expiresAt)
  pure (plainCode, expiresAt, exam.id)

def assignExam (userId examId certId : String) : Promise (String × Time × Id) := do
  let exam? ← await (.examFindOne (uuidOf examId))
  match exam? with
  | none => throw (.notFound "Exam not found")
  | some exam =>
    if exam.certId ≠ certId then
      throw (.badRequest "Exam does not belong to the given certificate")
    else if exam.status ≠ .published then
      throw (.unprocessable "Exam is not published")
    else issueAccessCode userId exam

/-- Exam IDs the student has already attempted for a certificate. The setting is the text as it
came, for the policy to compare; the two parameters of the query are read as uuids. -/
def getAttemptedExamIds (userId certId : String) : Promise (List Id) := do
  await .connect
  await .startTransaction
  Prog.ensure
    (tryCatch
      (do
        await (.setCurrentUser userId)
        let rows ← await (.selectAttemptedExams (uuidOf userId) (uuidOf certId))
        await .commitTransaction
        pure rows)
      -- The transaction is active whenever the body has thrown.
      fun err => do
        await .rollbackTransaction
        throw err)
    (await .release)

/-- Pick the student's next exam for a certificate, and issue a code for it. -/
def assignNextExam (userId certId : String) : Promise ((String × Time × Id) × Int × String) := do
  let pool ← await (.examFindPublished (uuidOf certId))
  if pool = [] then throw (.notFound "No published exams exist for this certificate")
  else
    let attempted ← getAttemptedExamIds userId certId
    match pool.find? (·.id ∉ attempted) with
    | none =>
      throw (.forbidden
        "Exam pool exhausted: the student has attempted every published exam for this certificate")
    | some next =>
      let outstanding ← await (.accessCodeFindOne (uuidOf userId) next.id)
      let now ← await .now
      if outstanding.any (now < ·.expiresAt) then
        throw (.conflict "Student already has an unused access code for their next exam")
      else
        let issued ← issueAccessCode userId next
        pure (issued, next.examOrder, next.title)

/-! ## Student: validate access code -/

/-- The loop over the candidates: the first unexpired one that the code matches. -/
def firstMatch (code : String) : List ExamAccessCode → Promise (Option ExamAccessCode)
  | [] => pure none
  | candidate :: rest => do
    let now ← await .now
    if candidate.expiresAt < now then firstMatch code rest
    else
      let matched ← await (.bcryptCompare code candidate.tokenHash)
      if matched then pure (some candidate) else firstMatch code rest

/-- Find + bcrypt-verify an unused, non-expired access code. `userId` is `undefined` when the
caller has no student id. -/
def findAndVerifyCode (userId : Option Id) (code : String) (examId : Id) :
    Promise (ExamAccessCode × Exam) := do
  let exam? ← await (.examFindOne examId)
  match exam? with
  | none => throw (.notFound "Exam not found")
  | some exam =>
    if exam.status ≠ .published then throw (.forbidden "Invalid or expired access code")
    else
      let candidates ← await (.accessCodeFind userId examId)
      let candidate? ← firstMatch code candidates
      match candidate? with
      | some candidate => pure (candidate, exam)
      | none => throw (.forbidden "Invalid or expired access code")

def validateAccess (userId : Option Id) (code : String) (examId : Id) : Promise (Exam × Id) := do
  let (accessCode, exam) ← findAndVerifyCode userId code examId
  pure (exam, accessCode.id)

/-! ## Student: start exam -/

/-- Consumes the code and creates the session row. -/
def createSession (userId : Option Id) (accessCode : ExamAccessCode) (row : TestSession) :
    Promise TestSession := do
  let now ← await .now
  let affected ← await (.txUpdateAccessCode accessCode.id true (some now))
  if affected = 0 then throw (.conflict "Access code has already been used")
  else await (.txSaveTestSession userId row)

/-- Removes the session row and frees the code. -/
def compensate (session : TestSession) (accessCode : ExamAccessCode) : Promise Unit := do
  await (.txDeleteTestSession session.id)
  let _ ← await (.txUpdateAccessCode accessCode.id false none)
  pure ()

structure Started where
  sessionId : Id
  durationSeconds : Int
  expiresAt : Time
  questions : List ExamQuestion
  deriving DecidableEq, Repr

def startExam (userId : Option Id) (code : String) (examId : Id) : Promise Started := do
  let (accessCode, exam) ← findAndVerifyCode userId code examId
  let existing ← await (.testSessionFindActive userId examId)
  if existing.isSome then throw (.conflict "An active session already exists for this exam")
  else
    let durationSeconds := exam.durationMinutes * 60
    let startedAt ← await .now
    let expiresAt := startedAt + durationSeconds * 1000
    let session ← transaction (createSession userId accessCode
      { id := "", userId := userId.getD "", examId := examId, certId := some accessCode.certId,
        sessionToken := accessCode.id, startedAt := startedAt, durationSeconds := durationSeconds,
        expiresAt := expiresAt, status := .active, submittedAt := none, snapshot := none })
    tryCatch
      (TestSessionService.start
        ⟨session.id, userId.getD "", examId, accessCode.certId, startedAt⟩ durationSeconds)
      fun err => do
        transaction (compensate session accessCode)
        throw err
    let examWithQuestions ← await (.examFindWithQuestions examId true)
    pure ⟨session.id, durationSeconds, expiresAt, (examWithQuestions.map (·.questions)).getD []⟩

/-! ## Sessions of a student -/

def allStatuses : List TestSessionStatus := [.active, .submitted, .expired, .autoSubmitted]

/-- Load a session, verify ownership, and require a specific set of statuses. -/
def getOwnedSession (sessionId userId : Id) (allowedStatuses : List TestSessionStatus) :
    Promise TestSession := do
  let session? ← await (.testSessionFindOne sessionId)
  match session? with
  | none => throw (.notFound "Session not found")
  | some session =>
    if session.userId ≠ userId then throw (.forbidden "Session does not belong to this user")
    else if session.status ∉ allowedStatuses then
      throw (.unprocessable ("Session is in status '" ++ session.status.text ++
        "' which is not allowed for this operation"))
    else pure session

/-- Convenience wrapper: requires ACTIVE status. -/
def getOwnedActiveSession (sessionId userId : Id) : Promise TestSession :=
  getOwnedSession sessionId userId [.active]

/-- Persist the latest answers to Redis and the DB snapshot (no TTL reset). -/
def autosave (sessionId userId : Id) (answers : Answers) : Promise Unit := do
  let session ← getOwnedActiveSession sessionId userId
  let saved ← TestSessionService.autosave sessionId answers
  if !saved then throw (.unprocessable "Session has expired; autosave rejected")
  else await (.testSessionUpdateSnapshot session.id answers)

structure SessionStatus where
  sessionId : Id
  remainingSeconds : Int
  answers : Answers
  status : TestSessionStatus
  deriving DecidableEq, Repr

def getSessionStatus (sessionId userId : Id) : Promise SessionStatus := do
  let session ← getOwnedSession sessionId userId allStatuses
  let (data, pttlMs) ← TestSessionService.getSession sessionId
  let remainingSeconds := if 0 < pttlMs then ⌈(pttlMs : Rat) / 1000⌉ else 0
  let answers := match data with
    | some data => data.answers
    | none => session.snapshot.getD []
  pure ⟨sessionId, remainingSeconds, answers, session.status⟩

/-! ## Submitting -/

def scoreAnswers (examId : Id) (answers : Answers) : Promise ScoreResult := do
  let exam? ← await (.examFindWithQuestions examId false)
  pure (scoreOf exam? answers)

/-- Falls back to the exam id for rows that have no certificate. -/
def resolveCertId (session : TestSession) : Id := session.certId.getD session.examId

/-- The attempt that `scoreAndPersist` makes of a session. `Math.round` of the seconds. -/
def attemptOf (session : TestSession) (answers : Answers) (status : AttemptStatus)
    (lateFlag : Bool) (result : ScoreResult) (submittedAt : Time) : ExamAttempt where
  userId := session.userId
  examId := session.examId
  certId := resolveCertId session
  score := result.score
  passed := result.passed
  answers := answers
  durationSeconds := (submittedAt - session.startedAt + 500) / 1000
  startedAt := session.startedAt
  submittedAt := submittedAt
  status := status
  lateFlag := lateFlag

/-- The body of the transaction of `scoreAndPersist`. -/
def persist (session : TestSession) (answers : Answers) (attempt : ExamAttempt) : Promise Unit := do
  await (.setCurrentUser session.userId)
  let newStatus := if attempt.status = .autoSubmitted then .autoSubmitted else .submitted
  let affected ← await (.txUpdateTestSession session.id [.active, .expired] newStatus
    attempt.submittedAt answers)
  if affected ≠ 1 then throw (.conflict "Session has already been submitted")
  else
    await (.txSaveExamAttempt session attempt)
    await .commitTransaction

def scoreAndPersist (session : TestSession) (answers : Answers) (status : AttemptStatus)
    (lateFlag : Bool) : Promise ScoreResult := do
  let result ← scoreAnswers session.examId answers
  let submittedAt ← await .now
  let attempt := attemptOf session answers status lateFlag result submittedAt
  await .connect
  await .startTransaction
  Prog.ensure
    (tryCatch (persist session answers attempt)
      -- The transaction is active whenever the body has thrown.
      fun err => do
        await .rollbackTransaction
        throw err)
    (await .release)
  TestSessionService.deleteSession session.id
  pure result

def submitExam (sessionId userId : Id) (answers : Answers) : Promise ScoreResult := do
  let session ← getOwnedActiveSession sessionId userId
  scoreAndPersist session answers .submitted false

def lateSubmitExam (sessionId userId : Id) (answers : Answers) : Promise ScoreResult := do
  let session ← getOwnedSession sessionId userId [.expired]
  let graceSnapshot? ← TestSessionService.consumeGrace sessionId
  match graceSnapshot? with
  | none => throw (.forbidden "Grace window has closed; late submission is no longer accepted")
  | some graceSnapshot =>
    let finalAnswers := if answers ≠ [] then answers else graceSnapshot
    scoreAndPersist session finalAnswers .submitted true

/-- Auto-submit a session from its last DB snapshot after the grace window expires. Both `catch`
branches only log, so the error ends here. -/
def autoSubmitFromSnapshot (sessionId : Id) : Promise Unit := do
  let session? ← await (.testSessionFindOne sessionId)
  match session? with
  | none => pure ()
  | some session =>
    if session.status ≠ .expired ∧ session.status ≠ .active then pure ()
    else
      let answers := session.snapshot.getD []
      tryCatch
        (do
          let _ ← scoreAndPersist session answers .autoSubmitted false
          pure ())
        fun _ => pure ()

end ExamService

end LmsBackend.Exams
