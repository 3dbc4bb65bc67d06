import LmsBackend.Async.Raises
import LmsBackend.Exams.OwnStep

/-!
# The errors of the exam code

Each task throws the errors of a list of its own. Anything else that it ends with is what the
database or Redis has rejected one of its calls with.
-/

open Async Store

namespace LmsBackend.Exams

namespace ExamService

def assignErrors : List Err := [
  .notFound "Exam not found",
  .badRequest "Exam does not belong to the given certificate",
  .unprocessable "Exam is not published"]

def assignNextErrors : List Err := [
  .notFound "No published exams exist for this certificate",
  .forbidden
    "Exam pool exhausted: the student has attempted every published exam for this certificate",
  .conflict "Student already has an unused access code for their next exam"]

def accessErrors : List Err := [
  .notFound "Exam not found",
  .forbidden "Invalid or expired access code"]

def startErrors : List Err := accessErrors ++ [
  .conflict "An active session already exists for this exam",
  .conflict "Access code has already been used"]

/-- Of an operation that is allowed in some statuses of the session. -/
def ownedErrors (allowed : List TestSessionStatus) : List Err := [
  .notFound "Session not found",
  .forbidden "Session does not belong to this user"] ++
  (allStatuses.filter (· ∉ allowed)).map fun status => .unprocessable
    ("Session is in status '" ++ status.text ++ "' which is not allowed for this operation")

def autosaveErrors : List Err :=
  ownedErrors [.active] ++ [.unprocessable "Session has expired; autosave rejected"]

def submitErrors : List Err :=
  ownedErrors [.active] ++ [.conflict "Session has already been submitted"]

def lateSubmitErrors : List Err := ownedErrors [.expired] ++ [
  .forbidden "Grace window has closed; late submission is no longer accepted",
  .conflict "Session has already been submitted"]

end ExamService

open ExamService

/-- The errors that the task throws itself. -/
def Task.errors : Task → List Err
  | .assignExam _ _ _ => assignErrors
  | .assignNextExam _ _ => assignNextErrors
  | .validateAccess _ _ _ => accessErrors
  | .startExam _ _ _ => startErrors
  | .autosave _ _ _ => autosaveErrors
  | .getSessionStatus _ _ => ownedErrors allStatuses
  | .submitExam _ _ _ => submitErrors
  | .lateSubmitExam _ _ _ => lateSubmitErrors
  | .joinSession _ _ => [.ws "Session not found or does not belong to this user"]
  | .handleExpiry _ _ => []

/-! ## Programs -/

section

variable {Q : Err → Prop} {α : Type}

theorem raises_call {c : Call} {f : Resp c → Promise α} (hf : ∀ a, Raises Q (f a)) :
    Raises Q ((await c).bind f) :=
  Raises.call hf

theorem raises_await (c : Call) : Raises Q (await c) := Raises.await c

theorem issueAccessCode_raises (userId : Id) (exam : Exam) :
    Raises Q (issueAccessCode userId exam) := by
  unfold issueAccessCode
  refine raises_call fun _ => raises_call fun _ => raises_call fun _ => raises_call fun _ => ?_
  trivial

theorem assignExam_raises (hQ : ∀ e ∈ assignErrors, Q e) (userId examId certId : Id) :
    Raises Q (assignExam userId examId certId) := by
  unfold assignExam
  refine raises_call fun exam? => ?_
  cases exam? with
  | none => exact hQ _ (by simp [assignErrors])
  | some exam =>
    simp only
    split
    · exact hQ _ (by simp [assignErrors])
    · split
      · exact hQ _ (by simp [assignErrors])
      · exact issueAccessCode_raises userId exam

theorem getAttemptedExamIds_raises (userId certId : Id) :
    Raises Q (getAttemptedExamIds userId certId) := by
  unfold getAttemptedExamIds
  refine raises_call fun _ => raises_call fun _ => ?_
  refine (Raises.handle ?_ fun e => ?_).ensure (raises_await .release)
  · exact raises_call fun _ => raises_call fun _ => raises_call fun _ => trivial
  · exact raises_call fun _ => .inr rfl

theorem assignNextExam_raises (hQ : ∀ e ∈ assignNextErrors, Q e) (userId certId : Id) :
    Raises Q (assignNextExam userId certId) := by
  unfold assignNextExam
  refine raises_call fun pool => ?_
  split
  · exact hQ _ (by simp [assignNextErrors])
  · refine (getAttemptedExamIds_raises userId certId).bind fun attempted => ?_
    split
    · exact hQ _ (by simp [assignNextErrors])
    · refine raises_call fun outstanding => raises_call fun now => ?_
      split
      · exact hQ _ (by simp [assignNextErrors])
      · exact (issueAccessCode_raises userId _).bind fun _ => trivial

theorem firstMatch_raises (code : String) (codes : List ExamAccessCode) :
    Raises Q (firstMatch code codes) := by
  induction codes with
  | nil => trivial
  | cons candidate rest ih =>
    unfold firstMatch
    refine raises_call fun now => ?_
    split
    · exact ih
    · refine raises_call fun matched => ?_
      split
      · trivial
      · exact ih

theorem findAndVerifyCode_raises (hQ : ∀ e ∈ accessErrors, Q e) (userId : Option Id) (code : String)
    (examId : Id) : Raises Q (findAndVerifyCode userId code examId) := by
  unfold findAndVerifyCode
  refine raises_call fun exam? => ?_
  cases exam? with
  | none => exact hQ _ (by simp [accessErrors])
  | some exam =>
    simp only
    split
    · exact hQ _ (by simp [accessErrors])
    · refine raises_call fun codes => (firstMatch_raises code codes).bind fun found => ?_
      cases found with
      | none => exact hQ _ (by simp [accessErrors])
      | some candidate => trivial

/-- A transaction throws what its body does. -/
theorem transaction_raises {body : Promise α} (h : Raises Q body) : Raises Q (transaction body) := by
  unfold transaction
  refine Raises.handle ?_ fun e => ?_
  · exact raises_call fun _ => h.bind fun _ => raises_call fun _ => trivial
  · refine Raises.bind (Raises.caught fun _ => ?_) fun _ => .inr rfl
    trivial

theorem startExam_raises (hQ : ∀ e ∈ startErrors, Q e) (userId : Option Id) (code : String)
    (examId : Id) : Raises Q (startExam userId code examId) := by
  unfold startExam
  refine (findAndVerifyCode_raises (fun e he => hQ e (List.mem_append_left _ he)) userId code
    examId).bind fun ⟨accessCode, exam⟩ => raises_call fun existing => ?_
  simp only
  split
  · exact hQ _ (by simp [startErrors])
  · refine raises_call fun startedAt => (transaction_raises ?_).bind fun session => ?_
    · unfold createSession
      refine raises_call fun now => raises_call fun affected => ?_
      split
      · exact hQ _ (by simp [startErrors])
      · exact raises_await (.txSaveTestSession _ _)
    · refine (Raises.handle ?_ fun e => ?_).bind fun _ => raises_call fun _ => trivial
      · exact raises_await (.redisSet _ _ _)
      · refine (transaction_raises ?_).bind fun _ => .inr rfl
        exact raises_call fun _ => raises_call fun _ => trivial

theorem getOwnedSession_raises {allowed : List TestSessionStatus}
    (hQ : ∀ e ∈ ownedErrors allowed, Q e) (sessionId userId : Id) :
    Raises Q (getOwnedSession sessionId userId allowed) := by
  unfold getOwnedSession
  refine raises_call fun session? => ?_
  cases session? with
  | none => exact hQ _ (by simp [ownedErrors])
  | some session =>
    simp only
    split
    · exact hQ _ (by simp [ownedErrors])
    · split
      · rename_i hstatus
        refine hQ _ (List.mem_append_right _ (List.mem_map.mpr ⟨session.status, ?_, rfl⟩))
        refine List.mem_filter.mpr ⟨?_, decide_eq_true hstatus⟩
        cases session.status <;> decide
      · trivial

theorem autosave_raises (hQ : ∀ e ∈ autosaveErrors, Q e) (sessionId userId : Id)
    (answers : Answers) : Raises Q (ExamService.autosave sessionId userId answers) := by
  unfold ExamService.autosave TestSessionService.autosave
  refine (getOwnedSession_raises (fun e he => hQ e (List.mem_append_left _ he)) _ _).bind
    fun session => Raises.bind ?_ fun saved => ?_
  · refine raises_call fun existing => ?_
    split
    · trivial
    · exact raises_await (.redisSetKeepTtlXx _ _)
  · split
    · exact hQ _ (by simp [autosaveErrors])
    · exact raises_await (.testSessionUpdateSnapshot _ _)

theorem getSession_raises (sessionId : Id) : Raises Q (TestSessionService.getSession sessionId) :=
  raises_call fun _ => raises_call fun _ => trivial

theorem scoreAndPersist_raises (hQ : Q (.conflict "Session has already been submitted"))
    (session : TestSession) (answers : Answers) (status : AttemptStatus) (lateFlag : Bool) :
    Raises Q (scoreAndPersist session answers status lateFlag) := by
  unfold scoreAndPersist
  refine Raises.bind (raises_call fun _ => trivial) fun result => ?_
  refine raises_call fun _ => raises_call fun _ => raises_call fun _ => ?_
  refine ((Raises.handle ?_ fun e => ?_).ensure (raises_await .release)).bind fun _ =>
    raises_call fun _ => trivial
  · unfold persist
    refine raises_call fun _ => raises_call fun affected => ?_
    split
    · exact hQ
    · exact raises_call fun _ => raises_await .commitTransaction
  · exact raises_call fun _ => .inr rfl

theorem submitExam_raises (hQ : ∀ e ∈ submitErrors, Q e) (sessionId userId : Id) (answers : Answers) :
    Raises Q (submitExam sessionId userId answers) :=
  (getOwnedSession_raises (fun e he => hQ e (List.mem_append_left _ he)) _ _).bind fun _ =>
    scoreAndPersist_raises (hQ _ (by simp [submitErrors])) _ _ _ _

theorem lateSubmitExam_raises (hQ : ∀ e ∈ lateSubmitErrors, Q e) (sessionId userId : Id)
    (answers : Answers) : Raises Q (lateSubmitExam sessionId userId answers) := by
  unfold lateSubmitExam
  refine (getOwnedSession_raises (fun e he => hQ e (List.mem_append_left _ he)) _ _).bind
    fun session => Raises.bind (raises_call fun _ => trivial) fun snapshot? => ?_
  cases snapshot? with
  | none => exact hQ _ (by simp [lateSubmitErrors])
  | some snapshot => exact scoreAndPersist_raises (hQ _ (by simp [lateSubmitErrors])) _ _ _ _

theorem handleJoinSession_raises
    (hQ : Q (.ws "Session not found or does not belong to this user")) (sessionId userId : Id) :
    Raises Q (ExamGateway.handleJoinSession sessionId userId) := by
  unfold ExamGateway.handleJoinSession
  refine (getSession_raises sessionId).bind fun ⟨data, _⟩ => ?_
  cases data with
  | none => exact hQ
  | some data =>
    simp only
    split
    · exact hQ
    · trivial

theorem handleExpiry_raises (type : ExpiryType) (sessionId : Id) :
    Raises Q (ExamKeyspaceHandler.handleExpiry type sessionId) := by
  cases type with
  | session =>
    refine raises_call fun session? => ?_
    cases session? with
    | none => trivial
    | some session =>
      simp only
      split
      · trivial
      · exact raises_call fun _ => raises_await (.redisSet _ _ _)
  | grace =>
    refine raises_call fun session? => ?_
    cases session? with
    | none => trivial
    | some session =>
      simp only
      split
      · trivial
      · exact Raises.caught fun _ => trivial

end

theorem Task.prog_raises (t : Task) : Raises (· ∈ t.errors) t.prog := by
  cases t with
  | assignExam => exact (assignExam_raises (fun _ => id) _ _ _).bind fun _ => trivial
  | assignNextExam => exact (assignNextExam_raises (fun _ => id) _ _).bind fun _ => trivial
  | validateAccess =>
    refine Raises.bind ?_ fun _ => trivial
    exact (findAndVerifyCode_raises (fun _ => id) _ _ _).bind fun _ => trivial
  | startExam => exact (startExam_raises (fun _ => id) _ _ _).bind fun _ => trivial
  | autosave => exact (autosave_raises (fun _ => id) _ _ _).bind fun _ => trivial
  | getSessionStatus =>
    refine Raises.bind ?_ fun _ => trivial
    exact (getOwnedSession_raises (fun _ => id) _ _).bind fun _ =>
      (getSession_raises _).bind fun _ => trivial
  | submitExam => exact (submitExam_raises (fun _ => id) _ _ _).bind fun _ => trivial
  | lateSubmitExam => exact (lateSubmitExam_raises (fun _ => id) _ _ _).bind fun _ => trivial
  | joinSession =>
    exact (handleJoinSession_raises (List.mem_singleton.mpr rfl) _ _).bind fun _ => trivial
  | handleExpiry type => exact (handleExpiry_raises type _).bind fun _ => trivial

/-! ## Runs -/

section

variable [Bcrypt] {i : Nat} {call : Call} {w w' : World} {e : Err}

omit [Bcrypt] in
theorem inTxn_error {ρ : Type} {f : OpenTxn → Option (World × Except Err ρ)}
    (h : inTxn i w f = some (w', .error e)) :
    (∃ message, e = .infra message) ∨ ∃ t, f t = some (w', .error e) := by
  unfold inTxn at h
  split at h
  · exact .inr ⟨_, h⟩
  · cases h
    exact .inl ⟨_, rfl⟩

/-- What a call rejects with is of the database or of Redis. -/
theorem answered_infra (h : Answered examSystem i call w (.error e) w') :
    ∃ message, e = .infra message := by
  cases h with
  | exec hx =>
    cases call with
    | commitTransaction | setCurrentUser | selectAttemptedExams | txUpdateAccessCode
    | txSaveTestSession | txDeleteTestSession | txUpdateTestSession | txSaveExamAttempt =>
      rcases inTxn_error hx with he | ⟨t, hx⟩
      · exact he
      · repeat' split at hx
        all_goals first | (cases hx; exact ⟨_, rfl⟩) | cases hx
    | accessCodeFindOne | testSessionFindActive =>
      simp only [examSystem, exec] at hx
      split at hx
      · cases hx
      · obtain ⟨_, _, he⟩ := Option.map_eq_some_iff.mp hx
        cases he
    | _ =>
      simp only [examSystem, exec] at hx
      repeat' split at hx
      all_goals first | (cases hx; exact ⟨_, rfl⟩) | cases hx
  | reject hx =>
    have hx : reject i call w = some (w', e) := hx
    unfold reject at hx
    split at hx
    · cases hx
      exact ⟨_, rfl⟩
    · cases hx

end

end LmsBackend.Exams
