import LmsBackend.Exams.System

/-!
# The phases of an execution

A phase is the place that an execution has reached, with what it still carries.
The proofs about the pool know a program only through its phases.
-/

open Async Store

namespace LmsBackend.Exams

/-- What `scoreAndPersist` was called with. -/
structure Submission where
  session : TestSession
  answers : Answers
  status : AttemptStatus
  lateFlag : Bool
  deriving DecidableEq

/-- The attempt has the columns of the submission. Score, result and duration are open. -/
def Submission.makes (d : Submission) (submittedAt : Time) (a : ExamAttempt) : Prop :=
  a.userId = d.session.userId ∧ a.examId = d.session.examId ∧
    a.certId = ExamService.resolveCertId d.session ∧ a.answers = d.answers ∧
    a.startedAt = d.session.startedAt ∧ a.submittedAt = submittedAt ∧ a.status = d.status ∧
    a.lateFlag = d.lateFlag

instance (d : Submission) (submittedAt : Time) (a : ExamAttempt) :
    Decidable (d.makes submittedAt a) := inferInstanceAs (Decidable (_ ∧ _))

inductive Phase where
  /-- No transaction is open, and nothing is left to write but an access code. -/
  | quiet
  | readTx
  /-- The transaction can only be rolled back. -/
  | dropping
  -- `startExam`
  | looking (userId examId : Id)
  /-- `seen` is the time at which the last of the codes was looked at. -/
  | candidates (userId examId : Id) (codes : List ExamAccessCode) (seen : Option Time)
  /-- No session is ACTIVE, and one of the codes is the one to use. -/
  | guarded (userId examId : Id) (codes : List ExamAccessCode)
  | consuming (userId examId : Id) (codes : List ExamAccessCode)
  | consumed (userId examId : Id) (codes : List ExamAccessCode) (code : Id)
  | inserted (code : Id) (session : TestSession)
  | created (code : Id) (session : TestSession)
  | undoing (code : Id) (session : TestSession)
  | undoBegun (code : Id) (session : TestSession)
  | undoDeleted (code : Id) (session : TestSession)
  | undoRestored (code : Id) (session : TestSession)
  -- `autosave`
  | saveGuard (sessionId userId : Id) (answers : Answers)
  | saveGet (sessionId : Id) (session : TestSession) (answers : Answers)
  | saveSet (sessionId : Id) (session : TestSession) (answers : Answers) (data : ExamSessionData)
  | saveMirror (sessionId : Id) (session : TestSession) (answers : Answers)
  | saved
  -- the three submitters
  | submitGuard (sessionId userId : Id) (answers : Answers)
  | lateGuard (sessionId userId : Id) (answers : Answers)
  | lateGate (sessionId : Id) (session : TestSession) (answers : Answers)
  | autoGuard (sessionId : Id)
  | scoring (d : Submission)
  | begun (d : Submission)
  | moved (d : Submission) (submittedAt : Time)
  | stored (d : Submission) (attempt : ExamAttempt)
  | closed (d : Submission)
  -- `handleSessionExpiry`
  | expiryGuard (sessionId : Id)
  | expiryMark (sessionId : Id) (session : TestSession)
  | expiryGrace (sessionId : Id) (snapshot : Answers)

namespace Phase

def start : Task → Phase
  | .startExam userId _ examId => .looking userId examId
  | .autosave sessionId userId answers => .saveGuard sessionId userId answers
  | .submitExam sessionId userId answers => .submitGuard sessionId userId answers
  | .lateSubmitExam sessionId userId answers => .lateGuard sessionId userId answers
  | .handleExpiry .session sessionId => .expiryGuard sessionId
  | .handleExpiry .grace sessionId => .autoGuard sessionId
  | _ => .quiet

/-- The codes that were not expired when they were looked at. -/
def usable (codes : List ExamAccessCode) (seen : Option Time) : List ExamAccessCode :=
  codes.filter fun code => seen.any (· ≤ code.expiresAt)

/-- The row that `startExam` saves for a code of `codes`. -/
def startsFrom (userId examId : Id) (codes : List ExamAccessCode) (code : Id) (row : TestSession) :
    Prop :=
  row.userId = userId ∧ row.examId = examId ∧ row.sessionToken = code ∧ row.status = .active ∧
    row.snapshot = none ∧ ∃ c ∈ codes, c.id = code ∧ row.certId = some c.certId

instance (userId examId : Id) (codes : List ExamAccessCode) (code : Id) (row : TestSession) :
    Decidable (startsFrom userId examId codes code row) := inferInstanceAs (Decidable (_ ∧ _))

/-- After the row of a session is read. -/
def read (id : Id) (row? : Option TestSession) : Phase → Option Phase
  | .saveGuard sessionId userId answers =>
    if id = sessionId then
      match row? with
      | some row =>
        if row.userId = userId ∧ row.status = .active then some (.saveGet sessionId row answers)
        else some .quiet
      | none => some .quiet
    else none
  | .submitGuard sessionId userId answers =>
    if id = sessionId then
      match row? with
      | some row =>
        if row.userId = userId ∧ row.status = .active then
          some (.scoring ⟨row, answers, .submitted, false⟩)
        else some .quiet
      | none => some .quiet
    else none
  | .lateGuard sessionId userId answers =>
    if id = sessionId then
      match row? with
      | some row =>
        if row.userId = userId ∧ row.status = .expired then some (.lateGate sessionId row answers)
        else some .quiet
      | none => some .quiet
    else none
  | .autoGuard sessionId =>
    if id = sessionId then
      match row? with
      | some row =>
        if row.isOpen then some (.scoring ⟨row, row.snapshot.getD [], .autoSubmitted, false⟩)
        else some .quiet
      | none => some .quiet
    else none
  | .expiryGuard sessionId =>
    if id = sessionId then
      match row? with
      | some row => if row.status = .active then some (.expiryMark sessionId row) else some .quiet
      | none => some .quiet
    else none
  | .quiet => some .quiet
  | _ => none

/-- The reading calls that leave a program where it is. -/
def allows : Phase → Call → Bool
  | .quiet, c => c.reads
  | .readTx, .selectAttemptedExams _ _ => true
  | .looking _ _, .examFindOne _ => true
  | .candidates _ _ _ _, .bcryptCompare _ _ => true
  | .guarded _ _ _, .now => true
  | .consuming _ _ _, .now => true
  | .scoring _, .examFindWithQuestions _ _ => true
  | .scoring _, .now => true
  | .scoring _, .connect => true
  | .closed _, .release => true
  | _, _ => false

/-- The phase after the call has answered. -/
def nextOk (g : Phase) : (c : Call) → Resp c → Option Phase
  | .accessCodeSave _ _ _ _ _, _ =>
    match g with
    | .quiet => some .quiet
    | _ => none
  | .now, now =>
    match g with
    | .candidates userId examId codes _ => some (.candidates userId examId codes (some now))
    | g => if g.allows .now then some g else none
  | .accessCodeFind userId? examId', codes =>
    match g with
    | .looking userId examId =>
      if userId? = some userId ∧ examId' = examId then some (.candidates userId examId codes none)
      else none
    | .quiet => some .quiet
    | _ => none
  | .testSessionFindActive userId? examId', existing =>
    match g with
    | .candidates userId examId codes seen =>
      if userId? = some userId ∧ examId' = examId then
        match existing with
        | none => some (.guarded userId examId (usable codes seen))
        | some _ => some .quiet
      else none
    | .quiet => some .quiet
    | _ => none
  | .testSessionFindOne id, row? => g.read id row?
  | .testSessionUpdateSnapshot id snapshot, _ =>
    match g with
    | .saveMirror _ session answers =>
      if id = session.id ∧ snapshot = answers then some .saved else none
    | _ => none
  | .testSessionUpdateStatus id status, _ =>
    match g with
    | .expiryMark sessionId session =>
      if id = sessionId ∧ status = .expired then
        some (.expiryGrace sessionId (session.snapshot.getD []))
      else none
    | _ => none
  | .startTransaction, _ =>
    match g with
    | .quiet => some .readTx
    | .guarded userId examId codes => some (.consuming userId examId codes)
    | .undoing code session => some (.undoBegun code session)
    | .scoring d => some (.begun d)
    | _ => none
  | .commitTransaction, _ =>
    match g with
    | .readTx => some .quiet
    | .inserted code session => some (.created code session)
    | .undoRestored _ _ => some .quiet
    | .stored d _ => some (.closed d)
    | _ => none
  | .rollbackTransaction, _ =>
    match g with
    | .dropping => some .quiet
    | _ => none
  | .setCurrentUser _, _ =>
    match g with
    | .readTx => some .readTx
    | .begun d => some (.begun d)
    | _ => none
  | .txUpdateAccessCode id unused usedAt, affected =>
    match g with
    | .consuming userId examId codes =>
      if unused ∧ usedAt ≠ none then
        some (if affected = 0 then .dropping else .consumed userId examId codes id)
      else none
    | .undoDeleted code session =>
      if id = code ∧ !unused ∧ usedAt = none then some (.undoRestored code session) else none
    | _ => none
  | .txSaveTestSession userId? row, session =>
    match g with
    | .consumed userId examId codes code =>
      if userId? = some userId ∧ startsFrom userId examId codes code row then some (.inserted code session) else none
    | _ => none
  | .txDeleteTestSession id, _ =>
    match g with
    | .undoBegun code session => if id = session.id then some (.undoDeleted code session) else none
    | _ => none
  | .txUpdateTestSession id allowed status submittedAt snapshot, affected =>
    match g with
    | .begun d =>
      if id = d.session.id ∧ allowed = [.active, .expired] ∧ status = d.status.session ∧
          snapshot = d.answers then
        some (if affected = 1 then .moved d submittedAt else .dropping)
      else none
    | _ => none
  | .txSaveExamAttempt session attempt, _ =>
    match g with
    | .moved d submittedAt =>
      if session = d.session ∧ d.makes submittedAt attempt then some (.stored d attempt) else none
    | _ => none
  | .redisSet key value ttlSeconds, _ =>
    match g with
    | .created _ session =>
      if key = sessionKey session.id ∧ value.session?.map (·.answers) = some [] then some .quiet
      else none
    | .expiryGrace sessionId snapshot =>
      if key = graceKey sessionId ∧ value = .grace snapshot ∧ ttlSeconds = graceWindowSeconds then
        some .quiet
      else none
    | _ => none
  | .redisSetKeepTtlXx key value, present =>
    match g with
    | .saveSet sessionId session answers data =>
      if key = sessionKey sessionId ∧ value = .session { data with answers := answers } then
        some (if present then .saveMirror sessionId session answers else .quiet)
      else none
    | _ => none
  | .redisGet key, value? =>
    match g with
    | .saveGet sessionId session answers =>
      if key = sessionKey sessionId then
        match value?.bind Json.session? with
        | some data => some (.saveSet sessionId session answers data)
        | none => some .quiet
      else none
    | .quiet => some .quiet
    | _ => none
  | .redisGetdel key, value? =>
    match g with
    | .lateGate sessionId session answers =>
      if key = graceKey sessionId then
        match value?.bind Json.grace? with
        | some snapshot =>
          some (.scoring ⟨session, if answers ≠ [] then answers else snapshot, .submitted, true⟩)
        | none => some .quiet
      else none
    | _ => none
  | .redisDel key, _ =>
    match g with
    | .closed d => if key = sessionKey d.session.id then some .quiet else none
    | _ => none
  | c, _ => if g.allows c then some g else none

/-- The phase holds a transaction that is still of use. -/
def holdsTxn : Phase → Bool
  | .readTx | .consuming _ _ _ | .consumed _ _ _ _ | .inserted _ _ | .undoBegun _ _
  | .undoDeleted _ _ | .undoRestored _ _ | .begun _ | .moved _ _ | .stored _ _ => true
  | _ => false

/-- The phase after the call has rejected. -/
def failed : Phase → Call → Phase
  | .dropping, .rollbackTransaction => .quiet
  | .dropping, _ => .dropping
  | .created code session, .redisSet _ _ _ => .undoing code session
  | g, c => if g.holdsTxn ∨ c = .startTransaction then .dropping else .quiet

/-- An execution does not end here, not even with an error of its own. -/
def busy : Phase → Bool
  | .created _ _ | .undoing _ _ | .saveSet _ _ _ _ | .saveMirror _ _ _ | .saved | .lateGate _ _ _
  | .autoGuard _ | .scoring _ | .closed _ | .expiryGuard _ | .expiryMark _ _
  | .expiryGrace _ _ => true
  | g => g.holdsTxn

/-- An autosave that is acknowledged ends in `saved`, and nothing else does. -/
def final (r : Except Err Reply) (g : Phase) : Prop :=
  if r = .ok .saved then g = .saved else g.busy = false

end Phase

namespace Phase

/-- The phase in which a task begins, before it has read the row of its session. -/
def isGuard : Phase → Bool
  | .saveGuard _ _ _ | .submitGuard _ _ _ | .lateGuard _ _ _ | .autoGuard _ | .expiryGuard _ => true
  | _ => false

attribute [local simp] nextOk

/-- No call leads to a guard. -/
theorem guard_next {g g' : Phase} {c : Call} {a : Resp c} (hn : g.nextOk c a = some g')
    (hg : g'.isGuard = true) : g = g' := by
  cases c with
  | _ =>
    simp only [nextOk, read] at hn
    repeat' split at hn
    all_goals first | (cases hn; cases hg) | (cases hn; rfl) | cases hn

theorem guard_failed (g : Phase) (c : Call) : (g.failed c).isGuard = false := by
  unfold failed
  split
  · rfl
  · rfl
  · rfl
  · split <;> rfl

/-- What the phase is about to submit, or has submitted. -/
def submission : Phase → Option Submission
  | .scoring d | .begun d | .moved d _ | .stored d _ | .closed d => some d
  | _ => none

theorem start_submission (t : Task) : (start t).submission = none := by
  cases t with
  | handleExpiry type sessionId => cases type <;> rfl
  | _ => rfl

/-- The call that gives a submitter its submission. -/
inductive Gains : Phase → (c : Call) → Resp c → Submission → Prop where
  | submit {sessionId userId : Id} {answers : Answers} {row : TestSession}
      (hu : row.userId = userId) (hs : row.status = .active) :
      Gains (.submitGuard sessionId userId answers) (.testSessionFindOne sessionId) (some row)
        ⟨row, answers, .submitted, false⟩
  | late {sessionId : Id} {row : TestSession} {answers snapshot : Answers} {value? : Option Json}
      (hsnap : value?.bind Json.grace? = some snapshot) :
      Gains (.lateGate sessionId row answers) (.redisGetdel (graceKey sessionId)) value?
        ⟨row, if answers ≠ [] then answers else snapshot, .submitted, true⟩
  | auto {sessionId : Id} {row : TestSession} (ho : row.isOpen) :
      Gains (.autoGuard sessionId) (.testSessionFindOne sessionId) (some row)
        ⟨row, row.snapshot.getD [], .autoSubmitted, false⟩

theorem submission_read {g g' : Phase} {id : Id} {row? : Option TestSession} {d : Submission}
    (hn : g.read id row? = some g') (hd : g'.submission = some d) :
    g.submission = some d ∨ Gains g (.testSessionFindOne id) row? d := by
  cases row? with
  | none =>
    cases g <;> simp only [read] at hn
    all_goals first
      | (cases hn; done)
      | (cases hn; exact .inl hd)
      | (split at hn <;> cases hn; cases hd)
  | some row =>
    cases g with
    | submitGuard sessionId userId answers =>
      simp only [read] at hn
      split at hn
      · rename_i hid
        subst hid
        split at hn <;> cases hn
        · rename_i h
          cases hd
          exact .inr (.submit h.1 h.2)
        · cases hd
      · cases hn
    | autoGuard sessionId =>
      simp only [read] at hn
      split at hn
      · rename_i hid
        subst hid
        split at hn <;> cases hn
        · cases hd
          exact .inr (.auto ‹_›)
        · cases hd
      · cases hn
    | saveGuard | lateGuard | expiryGuard =>
      simp only [read] at hn
      split at hn
      · split at hn <;> cases hn <;> cases hd
      · cases hn
    | quiet => cases hn; exact .inl hd
    | _ => cases hn

/-- A phase has the submission that it had, or the call has just given it one. -/
theorem submission_next {g g' : Phase} {c : Call} {a : Resp c} {d : Submission}
    (hn : g.nextOk c a = some g') (hd : g'.submission = some d) :
    g.submission = some d ∨ Gains g c a d := by
  cases c with
  | testSessionFindOne id => exact submission_read hn hd
  | redisGetdel key =>
    cases g with
    | lateGate sessionId row answers =>
      simp only [nextOk] at hn
      split at hn
      · rename_i hkey
        subst hkey
        split at hn <;> cases hn
        · cases hd
          exact .inr (.late ‹_›)
        · cases hd
      · cases hn
    | _ => cases hn
  | _ =>
    simp only [nextOk] at hn
    repeat' split at hn
    all_goals first | (cases hn; exact .inl hd) | (cases hn; cases hd) | cases hn

theorem submission_failed (g : Phase) (c : Call) : (g.failed c).submission = none := by
  unfold failed
  split
  · rfl
  · rfl
  · rfl
  · split <;> rfl

end Phase

/-- The phases of the exam pool. -/
def monitor : Monitor Call Resp Err Reply Task Phase where
  start := Phase.start
  next := Phase.nextOk
  failed := Phase.failed
  final := Phase.final

@[simp] theorem monitor_start : monitor.start = Phase.start := rfl

@[simp] theorem monitor_next : monitor.next = Phase.nextOk := rfl

@[simp] theorem monitor_failed : monitor.failed = Phase.failed := rfl

@[simp] theorem monitor_final : monitor.final = Phase.final := rfl

end LmsBackend.Exams
