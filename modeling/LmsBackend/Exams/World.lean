import LmsBackend.Async.Monitor
import LmsBackend.Store.Ttl
import LmsBackend.Exams.Scoring

/-!
# What an exam runs against

Postgres, Redis and the clock, and every call that the exam code awaits.

A statement of a query runner goes into the transaction of its process. Its
writes stay there until COMMIT, and lock their rows: a statement on a row that
another transaction has written waits. A call that rejects has done nothing, and
a COMMIT that rejects has not committed.
-/

open Async Store

namespace LmsBackend

/-- The `bcrypt` package. -/
class Bcrypt where
  hash : String → String → String
  compare : String → String → Bool

namespace Exams

/-- Stands in for the package in runs: a hash that the code it is made of matches. -/
@[reducible] def plainBcrypt : Bcrypt where
  hash _ plain := plain
  compare plain hash := plain = hash

inductive Err where
  | notFound (message : String)
  | badRequest (message : String)
  | conflict (message : String)
  | forbidden (message : String)
  | unprocessable (message : String)
  /-- `WsException` -/
  | ws (message : String)
  /-- What the database or Redis rejects with. -/
  | infra (message : String)
  deriving DecidableEq, Repr

/-! ## Redis -/

def examSessionPrefix : String := "exam:session:"
def examGracePrefix : String := "exam:grace:"

/-- Seconds the student has to submit after the session clock hits zero. -/
def graceWindowSeconds : Int := 120

def sessionKey (sessionId : Id) : String := examSessionPrefix ++ sessionId
def graceKey (sessionId : Id) : String := examGracePrefix ++ sessionId

/-- The JSON values of the two kinds of keys. -/
inductive Json where
  | session (data : ExamSessionData)
  | grace (snapshot : Answers)
  deriving DecidableEq, Repr

def Json.session? : Json → Option ExamSessionData
  | .session data => some data
  | .grace _ => none

def Json.grace? : Json → Option Answers
  | .grace snapshot => some snapshot
  | .session _ => none

abbrev Redis := TtlStore String Json

/-! ## Postgres -/

instance : Keyed ExamAccessCode Id := ⟨ExamAccessCode.id⟩
instance : Keyed TestSession Id := ⟨TestSession.id⟩

/-- A row of `exam_attempts`. The table has no session column: `session`, the session that the
attempt was made from, and `proc`, the process that committed it, are for statements only. -/
structure AttemptRow where
  session : TestSession
  proc : Nat
  attempt : ExamAttempt
  deriving DecidableEq, Repr

/-- A row write of an open transaction. -/
inductive Write where
  | code (row : ExamAccessCode)
  | newSession (row : TestSession)
  | session (row : TestSession)
  | dropSession (id : Id)
  | attempt (row : AttemptRow)
  deriving DecidableEq, Repr

/-- What a write keeps other transactions from. A new row is there for no one else, but its id is
taken. -/
inductive Lock where
  | session (id : Id)
  | newSession (id : Id)
  | code (id : Id)
  deriving DecidableEq, Repr

def Write.lock : Write → Option Lock
  | .code row => some (.code row.id)
  | .newSession row => some (.newSession row.id)
  | .session row => some (.session row.id)
  | .dropSession id => some (.session id)
  | .attempt _ => none

/-- The open transaction of a process. `user` is `app.current_user_id`, local to it: a text. -/
structure OpenTxn where
  proc : Nat
  user : Option String
  writes : List Write
  deriving DecidableEq, Repr

def OpenTxn.holds (t : OpenTxn) (l : Lock) : Bool := t.writes.any fun wr => wr.lock = some l

instance : Keyed OpenTxn Nat := ⟨OpenTxn.proc⟩

/-- `issued` has the id of every session row ever committed. `undelivered` and `delivered` have the
keys of the `expired` messages that Redis published. -/
structure World where
  now : Time
  exams : List Exam
  codes : Table ExamAccessCode
  sessions : Table TestSession
  attempts : List AttemptRow
  txns : Table OpenTxn
  issued : List Id
  redis : Redis
  undelivered : List String
  delivered : List String

/-! ## Calls -/

inductive Call where
  | now
  | randomBytes
  | bcryptHash (plain : String)
  | bcryptCompare (plain hash : String)
  /-- The row of the exam, without its questions. -/
  | examFindOne (id : Id)
  /-- With the relations `questions` and `questions.options`, and the questions in order when
  `byPosition`. -/
  | examFindWithQuestions (id : Id) (byPosition : Bool)
  /-- The published exams of a certificate by `exam_order`. -/
  | examFindPublished (certId : Id)
  /-- The unused codes of a student for an exam, newest first. A user id that is `undefined` is no
  condition: TypeORM drops the key. -/
  | accessCodeFind (userId : Option Id) (examId : Id)
  /-- Any one of them. -/
  | accessCodeFindOne (userId examId : Id)
  | accessCodeSave (userId examId certId : Id) (tokenHash : String) (expiresAt : Time)
  | testSessionFindOne (id : Id)
  | testSessionFindActive (userId : Option Id) (examId : Id)
  | testSessionUpdateSnapshot (id : Id) (snapshot : Answers)
  | testSessionUpdateStatus (id : Id) (status : TestSessionStatus)
  | connect
  | startTransaction
  | commitTransaction
  | rollbackTransaction
  | release
  /-- `set_config('app.current_user_id', $1, true)` -/
  | setCurrentUser (userId : String)
  | selectAttemptedExams (userId certId : Id)
  /-- `SET used_at WHERE id`, and `used_at IS NULL` when `unused`. The answer is `affected`. -/
  | txUpdateAccessCode (id : Id) (unused : Bool) (usedAt : Option Time)
  /-- The database makes the id, and refuses a row that has no user. -/
  | txSaveTestSession (userId : Option Id) (row : TestSession)
  | txDeleteTestSession (id : Id)
  /-- `SET status, submitted_at, snapshot WHERE id AND status IN (..)`. The answer is `affected`. -/
  | txUpdateTestSession (id : Id) (allowed : List TestSessionStatus) (status : TestSessionStatus)
      (submittedAt : Time) (snapshot : Answers)
  /-- `session` is for `AttemptRow.session`. -/
  | txSaveExamAttempt (session : TestSession) (attempt : ExamAttempt)
  | redisSet (key : String) (value : Json) (ttlSeconds : Int)
  | redisSetKeepTtlXx (key : String) (value : Json)
  | redisGet (key : String)
  | redisGetdel (key : String)
  | redisPttl (key : String)
  | redisDel (key : String)
  deriving DecidableEq, Repr

/-- The answer to a call. -/
@[reducible] def Resp : Call → Type
  | .now => Time
  | .randomBytes | .bcryptHash _ => String
  | .bcryptCompare _ _ | .redisSetKeepTtlXx _ _ => Bool
  | .examFindOne _ | .examFindWithQuestions _ _ => Option Exam
  | .examFindPublished _ => List Exam
  | .accessCodeFind _ _ => List ExamAccessCode
  | .accessCodeFindOne _ _ => Option ExamAccessCode
  | .testSessionFindOne _ | .testSessionFindActive _ _ => Option TestSession
  | .selectAttemptedExams _ _ => List Id
  | .txUpdateAccessCode _ _ _ | .txUpdateTestSession _ _ _ _ _ => Nat
  | .txSaveTestSession _ _ => TestSession
  | .redisGet _ | .redisGetdel _ => Option Json
  | .redisPttl _ => Int
  | _ => Unit

/-- Ids, salts and random bytes come from outside. -/
abbrev Choice := String

/-! ## Carrying out a call -/

namespace World

variable (w : World)

/-- Another transaction has the lock. -/
def locked (i : Nat) (l : Lock) : Bool := w.txns.rows.any fun t => t.proc ≠ i && t.holds l

def apply (w : World) : Write → World
  | .code row => { w with codes := w.codes.put row }
  | .newSession row => { w with sessions := w.sessions.put row, issued := row.id :: w.issued }
  | .session row => { w with sessions := w.sessions.put row }
  | .dropSession id => { w with sessions := w.sessions.erase id }
  | .attempt row => { w with attempts := w.attempts ++ [row] }

def closeTxn (i : Nat) : World := { w with txns := w.txns.erase i }

def commit (t : OpenTxn) : World := (t.writes.foldl apply w).closeTxn t.proc

def addWrite (t : OpenTxn) (wr : Write) : World :=
  { w with txns := w.txns.put { t with writes := t.writes ++ [wr] } }

def unusedCodes (userId : Option Id) (examId : Id) : List ExamAccessCode :=
  w.codes.rows.filter fun c => userId.all (c.userId = ·) ∧ c.examId = examId ∧ c.usedAt = none

def activeSessions (userId : Option Id) (examId : Id) : List TestSession :=
  w.sessions.rows.filter fun s =>
    userId.all (s.userId = ·) ∧ s.examId = examId ∧ s.status = .active

def examWithQuestions (id : Id) (byPosition : Bool) : Option Exam :=
  (w.exams.find? (·.id = id)).map fun e =>
    if byPosition then e.byPosition else e

def publishedExams (certId : Id) : List Exam :=
  ((w.exams.filter fun e => e.certId = certId ∧ e.status = .published).map Exam.row).insertionSort
    (·.examOrder ≤ ·.examOrder)

/-- The id is of no session row, committed or not. -/
def freshSession (id : Id) : Bool :=
  id ∉ w.issued ∧ !(w.txns.rows.any (·.holds (.newSession id)))

/-- The rows that the policy of `exam_attempts` shows to the transaction: it compares texts. -/
def visibleAttempts (t : OpenTxn) : List AttemptRow :=
  w.attempts.filter fun a => t.user = some a.attempt.userId

end World

/-- An attempt that the constraints and the policy of `exam_attempts` let in. -/
def OpenTxn.admits (t : OpenTxn) (a : ExamAttempt) : Bool :=
  t.user = some a.userId ∧ 0 ≤ a.score ∧ a.score ≤ 100

/-- The statement of a query runner. Without a transaction there is none to run it in. -/
def inTxn {ρ : Type} (i : Nat) (w : World) (f : OpenTxn → Option (World × Except Err ρ)) :
    Option (World × Except Err ρ) :=
  match w.txns.get i with
  | some t => f t
  | none => some (w, .error (.infra "no transaction"))

def exec [Bcrypt] (i : Nat) (c : Call) (x : Choice) (w : World) :
    Option (World × Except Err (Resp c)) :=
  match c with
  | .now => some (w, .ok w.now)
  | .randomBytes => some (w, .ok x)
  | .bcryptHash plain => some (w, .ok (Bcrypt.hash x plain))
  | .bcryptCompare plain hash => some (w, .ok (Bcrypt.compare plain hash))
  | .examFindOne id => some (w, .ok ((w.exams.find? (·.id = id)).map Exam.row))
  | .examFindWithQuestions id byPosition => some (w, .ok (w.examWithQuestions id byPosition))
  | .examFindPublished certId => some (w, .ok (w.publishedExams certId))
  | .accessCodeFind userId examId =>
    some (w, .ok ((w.unusedCodes userId examId).insertionSort (·.createdAt ≥ ·.createdAt)))
  | .accessCodeFindOne userId examId =>
    -- Postgres may return any of the rows: the choice names one.
    match w.unusedCodes (some userId) examId with
    | [] => some (w, .ok none)
    | codes => (codes.find? (·.id = x)).map fun code => (w, .ok (some code))
  | .accessCodeSave userId examId certId tokenHash expiresAt =>
    if (w.codes.get x).isSome then none
    else
      let row : ExamAccessCode := ⟨x, userId, examId, certId, tokenHash, expiresAt, none, w.now⟩
      some ({ w with codes := w.codes.put row }, .ok ())
  | .testSessionFindOne id => some (w, .ok (w.sessions.get id))
  | .testSessionFindActive userId examId =>
    match w.activeSessions userId examId with
    | [] => some (w, .ok none)
    | rows => (rows.find? (·.id = x)).map fun row => (w, .ok (some row))
  | .testSessionUpdateSnapshot id snapshot =>
    if w.locked i (.session id) then none
    else
      let sessions := w.sessions.update id fun s => { s with snapshot := some snapshot }
      some ({ w with sessions := sessions }, .ok ())
  | .testSessionUpdateStatus id status =>
    if w.locked i (.session id) then none
    else
      let sessions := w.sessions.update id fun s => { s with status := status }
      some ({ w with sessions := sessions }, .ok ())
  | .connect => some (w, .ok ())
  | .startTransaction =>
    if (w.txns.get i).isSome then some (w, .error (.infra "transaction already started"))
    else some ({ w with txns := w.txns.put ⟨i, none, []⟩ }, .ok ())
  | .commitTransaction => inTxn i w fun t => some (w.commit t, .ok ())
  | .rollbackTransaction => some (w.closeTxn i, .ok ())
  | .release => some (w, .ok ())
  | .setCurrentUser userId =>
    inTxn i w fun t => some ({ w with txns := w.txns.put { t with user := some userId } }, .ok ())
  | .selectAttemptedExams userId certId => inTxn i w fun t =>
    some (w, .ok (((w.visibleAttempts t).filter fun a =>
      a.attempt.userId = userId ∧ a.attempt.certId = certId).map (·.attempt.examId)).dedup)
  | .txUpdateAccessCode id unused usedAt => inTxn i w fun t =>
    if w.locked i (.code id) then none
    else match w.codes.get id with
      | none => some (w, .ok 0)
      | some row =>
        if unused ∧ row.usedAt ≠ none then some (w, .ok 0)
        else some (w.addWrite t (.code { row with usedAt := usedAt }), .ok 1)
  | .txSaveTestSession userId row => inTxn i w fun t =>
    match userId with
    | none => some (w, .error (.infra "null value in column user_id"))
    | some userId =>
      let row := { row with id := x, userId := userId }
      if w.freshSession x then some (w.addWrite t (.newSession row), .ok row) else none
  | .txDeleteTestSession id => inTxn i w fun t =>
    if w.locked i (.session id) then none
    else some (w.addWrite t (.dropSession id), .ok ())
  | .txUpdateTestSession id allowed status submittedAt snapshot => inTxn i w fun t =>
    if w.locked i (.session id) then none
    else match w.sessions.get id with
      | none => some (w, .ok 0)
      | some row =>
        if row.status ∉ allowed then some (w, .ok 0)
        else some (w.addWrite t (.session (row.moved status submittedAt snapshot)), .ok 1)
  | .txSaveExamAttempt session attempt => inTxn i w fun t =>
    if t.admits attempt then some (w.addWrite t (.attempt ⟨session, i, attempt⟩), .ok ())
    else some (w, .error (.infra "exam_attempts rejects the row"))
  | .redisSet key value ttlSeconds =>
    if ttlSeconds ≤ 0 then some (w, .error (.infra "invalid expire time"))
    else some ({ w with redis := w.redis.set key value (w.now + ttlSeconds * 1000) }, .ok ())
  | .redisSetKeepTtlXx key value =>
    some ({ w with redis := w.redis.setKeepTtlXx key value }, .ok (w.redis.get key).isSome)
  | .redisGet key => some (w, .ok ((w.redis.get key).map (·.value)))
  | .redisGetdel key => some ({ w with redis := w.redis.erase key }, .ok ((w.redis.get key).map (·.value)))
  | .redisPttl key => some (w, .ok (w.redis.pttl w.now key))
  | .redisDel key => some ({ w with redis := w.redis.erase key }, .ok ())

/-- The calls that only read. -/
def Call.reads : Call → Bool
  | .now | .randomBytes | .bcryptHash _ | .bcryptCompare _ _ | .examFindOne _
  | .examFindWithQuestions _ _ | .examFindPublished _ | .accessCodeFind _ _ | .accessCodeFindOne _ _ | .testSessionFindOne _
  | .testSessionFindActive _ _ | .connect | .release | .selectAttemptedExams _ _ | .redisGet _
  | .redisPttl _ => true
  | _ => false

def Call.deletes : Call → Bool
  | .redisDel _ => true
  | _ => false

/-- The calls of a database or of Redis can reject. `release` only hands the connection back. -/
def Call.rejects : Call → Bool
  | .now | .randomBytes | .bcryptHash _ | .bcryptCompare _ _ | .release => false
  | _ => true

/-- After a COMMIT or a ROLLBACK that rejects, the server has rolled the transaction back. -/
def reject (i : Nat) (c : Call) (w : World) : Option (World × Err) :=
  if c.rejects then
    some (match c with
      | .commitTransaction | .rollbackTransaction => w.closeTxn i
      | _ => w, .infra "connection lost")
  else none

end Exams

end LmsBackend
