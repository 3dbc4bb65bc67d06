import LmsBackend.Exams.ExamService

/-!
# The running backend

The keyspace bridge and its handler, and the pool in which every request and
every expiry event runs. Several application instances are one pool: each of
them may get each `expired` message, so a message can be delivered again.
-/

open Async Store

namespace LmsBackend.Exams

/-! ## `ExamKeyspaceHandler` -/

inductive ExpiryType where
  | session
  | grace
  deriving DecidableEq, Repr

namespace ExamKeyspaceHandler

open ExamService

/-- Marks the session EXPIRED and opens the grace window. The `session_expired` message to the
student is not awaited and left out. -/
def handleSessionExpiry (sessionId : Id) : Promise Unit := do
  let session? ← await (.testSessionFindOne sessionId)
  match session? with
  | none => pure ()
  | some session =>
    if session.status ≠ .active then pure ()
    else
      await (.testSessionUpdateStatus sessionId .expired)
      let snapshot := session.snapshot.getD []
      TestSessionService.startGrace sessionId snapshot

def handleGraceExpiry (sessionId : Id) : Promise Unit := autoSubmitFromSnapshot sessionId

def handleExpiry (type : ExpiryType) (sessionId : Id) : Promise Unit :=
  match type with
  | .session => handleSessionExpiry sessionId
  | .grace => handleGraceExpiry sessionId

end ExamKeyspaceHandler

/-! ## `ExamGateway` -/

namespace ExamGateway

/-- `join_session`. The room and the timer of the session are left out. -/
def handleJoinSession (sessionId userId : Id) : Promise Int := do
  let (data, pttlMs) ← TestSessionService.getSession sessionId
  match data with
  | none => throw (.ws "Session not found or does not belong to this user")
  | some data =>
    if data.userId ≠ userId then
      throw (.ws "Session not found or does not belong to this user")
    else pure (if 0 < pttlMs then ⌈(pttlMs : Rat) / 1000⌉ else 0)

end ExamGateway

/-! ## The pool -/

inductive Task where
  | assignExam (userId examId certId : String)
  | assignNextExam (userId certId : String)
  | validateAccess (userId : Id) (code : String) (examId : Id)
  | startExam (userId : Id) (code : String) (examId : Id)
  | autosave (sessionId userId : Id) (answers : Answers)
  | getSessionStatus (sessionId userId : Id)
  | submitExam (sessionId userId : Id) (answers : Answers)
  | lateSubmitExam (sessionId userId : Id) (answers : Answers)
  | joinSession (sessionId userId : Id)
  | handleExpiry (type : ExpiryType) (sessionId : Id)
  deriving DecidableEq, Repr

inductive Reply where
  | issued (code : String × Time × Id)
  | issuedNext (code : String × Time × Id) (examOrder : Int) (examTitle : String)
  | access (exam : Exam) (accessCodeId : Id)
  | started (s : ExamService.Started)
  | saved
  | status (s : ExamService.SessionStatus)
  | scored (r : ScoreResult)
  | joined (remainingSeconds : Int)
  | handled
  deriving DecidableEq, Repr

def Task.prog : Task → Promise Reply
  | .assignExam userId examId certId => do
    let code ← ExamService.assignExam userId examId certId
    pure (.issued code)
  | .assignNextExam userId certId => do
    let (code, examOrder, examTitle) ← ExamService.assignNextExam userId certId
    pure (.issuedNext code examOrder examTitle)
  | .validateAccess userId code examId => do
    let (exam, accessCodeId) ← ExamService.validateAccess (some userId) code examId
    pure (.access exam accessCodeId)
  | .startExam userId code examId => do
    let s ← ExamService.startExam (some userId) code examId
    pure (.started s)
  | .autosave sessionId userId answers => do
    ExamService.autosave sessionId userId answers
    pure .saved
  | .getSessionStatus sessionId userId => do
    let s ← ExamService.getSessionStatus sessionId userId
    pure (.status s)
  | .submitExam sessionId userId answers => do
    let r ← ExamService.submitExam sessionId userId answers
    pure (.scored r)
  | .lateSubmitExam sessionId userId answers => do
    let r ← ExamService.lateSubmitExam sessionId userId answers
    pure (.scored r)
  | .joinSession sessionId userId => do
    let remainingSeconds ← ExamGateway.handleJoinSession sessionId userId
    pure (.joined remainingSeconds)
  | .handleExpiry type sessionId => do
    ExamKeyspaceHandler.handleExpiry type sessionId
    pure .handled

/-- Only the keyspace bridge starts the handler. -/
def Task.ofClient : Task → Bool
  | .handleExpiry _ _ => false
  | _ => true

/-- `key.startsWith(prefix)` and `key.slice(prefix.length)`. -/
def stripPrefix (p key : String) : Option String :=
  if p.toList.isPrefixOf key.toList then some (String.ofList (key.toList.drop p.toList.length)) else none

/-- The subscriber's `on('message')`. -/
def onMessage (key : String) : List Task :=
  match stripPrefix examSessionPrefix key with
  | some sessionId => [.handleExpiry .session sessionId]
  | none =>
    match stripPrefix examGracePrefix key with
    | some sessionId => [.handleExpiry .grace sessionId]
    | none => []

inductive EnvEvent where
  /-- Time passes. Redis drops the keys that are due and publishes an `expired` message for each. -/
  | tick (ms : Nat)
  | deliver (key : String)
  /-- A message that was delivered arrives again: a duplicate, or another instance. -/
  | redeliver (key : String)
  | lose (key : String)
  deriving DecidableEq, Repr

def World.tick (w : World) (ms : Nat) : World :=
  let now := w.now + ms
  { w with
    now := now
    redis := w.redis.sweep now
    undelivered := w.undelivered ++ w.redis.dueKeys now }

def envStep (v : EnvEvent) (w : World) : Option (World × List Task) :=
  match v with
  | .tick ms => some (w.tick ms, [])
  | .deliver key =>
    if key ∈ w.undelivered then
      some ({ w with undelivered := w.undelivered.erase key, delivered := key :: w.delivered },
        onMessage key)
    else none
  | .redeliver key => if key ∈ w.delivered then some (w, onMessage key) else none
  | .lose key =>
    if key ∈ w.undelivered then some ({ w with undelivered := w.undelivered.erase key }, []) else none

def examSystem [Bcrypt] : System World Call Resp Err Reply Task Choice EnvEvent where
  prog := Task.prog
  client := Task.ofClient
  exec := exec
  reject := reject
  env := envStep

abbrev Pool := Config World Call Resp Err Reply Task

abbrev PoolLabel := Label Task Choice EnvEvent

/-- Any exams and any unused access codes. No session has been started. -/
structure Initial (w : World) : Prop where
  codes : ∀ c ∈ w.codes.rows, c.usedAt = none
  sessions : w.sessions.rows = []
  attempts : w.attempts = []
  txns : w.txns.rows = []
  redis : w.redis.rows = []
  undelivered : w.undelivered = []
  delivered : w.delivered = []

/-- The states that the backend reaches by steps within `P`. -/
abbrev Reachable [Bcrypt] (P : Pool → PoolLabel → Prop) (c : Pool) : Prop :=
  Reach examSystem Initial P c

end LmsBackend.Exams
