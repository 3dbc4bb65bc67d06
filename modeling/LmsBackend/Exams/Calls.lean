import LmsBackend.Async.Interpret
import LmsBackend.Exams.System

/-!
# The calls of the tasks

The exam code stores two kinds of rows that it makes up itself: access codes and
attempts. A contract that lets every other call pass is met by all tasks as soon
as it lets these two pass.
-/

open Async Store

namespace LmsBackend.Exams

/-- The student who makes the request. -/
def Task.student? : Task → Option Id
  | .validateAccess userId _ _ | .startExam userId _ _ | .autosave _ userId _
  | .getSessionStatus _ userId | .submitExam _ userId _ | .lateSubmitExam _ userId _
  | .joinSession _ userId => some userId
  | .assignExam _ _ _ | .assignNextExam _ _ | .handleExpiry _ _ => none

def Call.issuesCode : Call → Bool
  | .accessCodeSave _ _ _ _ _ => true
  | _ => false

def Call.storesAttempt : Call → Bool
  | .txSaveExamAttempt _ _ => true
  | _ => false

/-- The contract lets the task issue codes, and store what it has scored. -/
structure Lets (K : Contract Call Resp) (t : Task) : Prop where
  other : ∀ c : Call, c.issuesCode = false → c.storesAttempt = false → K.may c
  code : t.student? = none → ∀ c : Call, c.issuesCode = true → K.may c
  attempt : ∀ (session : TestSession) answers status lateFlag exam? now,
    K.gets (.examFindWithQuestions session.examId false) exam? → K.gets .now now →
    K.may (.txSaveExamAttempt session
      (ExamService.attemptOf session answers status lateFlag (scoreOf exam? answers) now))

namespace Lets

open ExamService Contract

/-- The program meets the contract, whatever it ends with. -/
abbrev Free (K : Contract Call Resp) {α : Type} (p : Promise α) : Prop := K.Meets p fun _ => True

variable {K : Contract Call Resp} {α : Type}

theorem call {c : Call} (hc : K.may c) {f : Resp c → Promise α}
    (h : ∀ a, K.gets c a → Free K (f a)) : Free K ((Exams.await c).bind f) := by
  rw [Exams.await, Free, meets_bind, meets_await]
  exact ⟨hc, h⟩

theorem await {c : Call} (hc : K.may c) : Free K (Exams.await c) := by
  rw [Exams.await, Free, meets_await]
  exact ⟨hc, fun _ _ => trivial⟩

theorem bind {β : Type} {p : Promise β} {f : β → Promise α} (hp : Free K p)
    (h : ∀ a, Free K (f a)) : Free K (p.bind f) := by
  rw [Free, meets_bind]
  exact Meets.mono hp fun a _ => h a

theorem transaction {body : Promise α} (h : Free K body) (hstart : K.may .startTransaction)
    (hcommit : K.may .commitTransaction) (hrollback : K.may .rollbackTransaction) :
    Free K (transaction body) := by
  unfold Exams.transaction
  refine Meets.handle ?_ fun err => ?_
  · exact call hstart fun _ _ => bind h fun _ => call hcommit fun _ _ => trivial
  · refine bind (Meets.handle ?_ fun _ => trivial) fun _ => trivial
    exact await hrollback

variable {t : Task} (hK : Lets K t)

include hK

theorem issueAccessCode (ht : t.student? = none) (userId : Id) (exam : Exam) :
    Free K (issueAccessCode userId exam) := by
  unfold ExamService.issueAccessCode
  refine call (hK.other .randomBytes rfl rfl) fun plainCode _ => ?_
  refine call (hK.other (.bcryptHash plainCode) rfl rfl) fun tokenHash _ => ?_
  refine call (hK.other .now rfl rfl) fun now _ => ?_
  exact call (hK.code ht (.accessCodeSave _ _ _ _ _) rfl) fun _ _ => trivial

theorem assignExam (ht : t.student? = none) (userId examId certId : Id) :
    Free K (assignExam userId examId certId) := by
  unfold ExamService.assignExam
  refine call (hK.other (.examFindOne _) rfl rfl) fun exam? _ => ?_
  cases exam? with
  | none => trivial
  | some exam =>
    simp only
    split
    · trivial
    · split
      · trivial
      · exact hK.issueAccessCode ht userId exam

theorem getAttemptedExamIds (userId certId : Id) : Free K (getAttemptedExamIds userId certId) := by
  unfold ExamService.getAttemptedExamIds
  refine call (hK.other .connect rfl rfl) fun _ _ => ?_
  refine call (hK.other .startTransaction rfl rfl) fun _ _ => ?_
  refine Meets.ensure (Meets.handle ?_ fun err => ?_) (await (hK.other .release rfl rfl))
  · refine call (hK.other (.setCurrentUser userId) rfl rfl) fun _ _ => ?_
    refine call (hK.other (.selectAttemptedExams _ _) rfl rfl) fun rows _ => ?_
    exact call (hK.other .commitTransaction rfl rfl) fun _ _ => trivial
  · exact call (hK.other .rollbackTransaction rfl rfl) fun _ _ => trivial

theorem assignNextExam (ht : t.student? = none) (userId certId : Id) :
    Free K (assignNextExam userId certId) := by
  unfold ExamService.assignNextExam
  refine call (hK.other (.examFindPublished _) rfl rfl) fun pool _ => ?_
  split
  · trivial
  · refine bind (hK.getAttemptedExamIds userId certId) fun attempted => ?_
    split
    · trivial
    · rename_i next _
      refine call (hK.other (.accessCodeFindOne _ next.id) rfl rfl) fun outstanding _ => ?_
      refine call (hK.other .now rfl rfl) fun now _ => ?_
      split
      · trivial
      · exact bind (hK.issueAccessCode ht userId next) fun _ => trivial

theorem firstMatch (code : String) (codes : List ExamAccessCode) : Free K (firstMatch code codes) := by
  induction codes with
  | nil => trivial
  | cons candidate rest ih =>
    unfold ExamService.firstMatch
    refine call (hK.other .now rfl rfl) fun now _ => ?_
    split
    · exact ih
    · refine call (hK.other (.bcryptCompare code candidate.tokenHash) rfl rfl) fun matched _ => ?_
      split
      · trivial
      · exact ih

theorem findAndVerifyCode (userId : Option Id) (code : String) (examId : Id) :
    Free K (findAndVerifyCode userId code examId) := by
  unfold ExamService.findAndVerifyCode
  refine call (hK.other (.examFindOne _) rfl rfl) fun exam? _ => ?_
  cases exam? with
  | none => trivial
  | some exam =>
    simp only
    split
    · trivial
    · refine call (hK.other (.accessCodeFind userId examId) rfl rfl) fun codes _ => ?_
      refine bind (hK.firstMatch code codes) fun found => ?_
      cases found <;> trivial

theorem startExam (userId : Option Id) (code : String) (examId : Id) :
    Free K (startExam userId code examId) := by
  have htransaction : ∀ {β : Type} {body : Promise β}, Free K body → Free K (Exams.transaction body) :=
    fun h => transaction h (hK.other _ rfl rfl) (hK.other _ rfl rfl) (hK.other _ rfl rfl)
  unfold ExamService.startExam
  refine bind (hK.findAndVerifyCode userId code examId) fun ⟨accessCode, exam⟩ => ?_
  refine call (hK.other (.testSessionFindActive userId examId) rfl rfl) fun existing _ => ?_
  simp only
  split
  · trivial
  · refine call (hK.other .now rfl rfl) fun startedAt _ => bind (htransaction ?_) fun session => ?_
    · unfold createSession
      refine call (hK.other .now rfl rfl) fun now _ => ?_
      refine call (hK.other (.txUpdateAccessCode _ _ _) rfl rfl) fun affected _ => ?_
      split
      · trivial
      · exact await (hK.other (.txSaveTestSession _ _) rfl rfl)
    · refine bind (Meets.handle ?_ fun err => ?_) fun _ =>
        call (hK.other (.examFindWithQuestions _ _) rfl rfl) fun _ _ => trivial
      · exact await (hK.other (.redisSet _ _ _) rfl rfl)
      · refine bind (htransaction ?_) fun _ => trivial
        unfold compensate
        refine call (hK.other (.txDeleteTestSession _) rfl rfl) fun _ _ => ?_
        exact call (hK.other (.txUpdateAccessCode _ _ _) rfl rfl) fun _ _ => trivial

theorem getOwnedSession (sessionId userId : Id) (allowed : List TestSessionStatus) :
    Free K (getOwnedSession sessionId userId allowed) := by
  unfold ExamService.getOwnedSession
  refine call (hK.other (.testSessionFindOne sessionId) rfl rfl) fun session? _ => ?_
  cases session? with
  | none => trivial
  | some session =>
    simp only
    split
    · trivial
    · split <;> trivial

theorem autosave (sessionId userId : Id) (answers : Answers) :
    Free K (autosave sessionId userId answers) := by
  unfold ExamService.autosave getOwnedActiveSession TestSessionService.autosave
  refine bind (hK.getOwnedSession _ _ _) fun session => bind ?_ fun saved => ?_
  · refine call (hK.other (.redisGet _) rfl rfl) fun existing _ => ?_
    split
    · trivial
    · exact await (hK.other (.redisSetKeepTtlXx _ _) rfl rfl)
  · split
    · trivial
    · exact await (hK.other (.testSessionUpdateSnapshot _ _) rfl rfl)

theorem getSession (sessionId : Id) : Free K (TestSessionService.getSession sessionId) := by
  unfold TestSessionService.getSession
  refine call (hK.other (.redisGet _) rfl rfl) fun _ _ => ?_
  exact call (hK.other (.redisPttl _) rfl rfl) fun _ _ => trivial

theorem persist (session : TestSession) (answers : Answers) {attempt : ExamAttempt}
    (hattempt : K.may (.txSaveExamAttempt session attempt)) :
    Free K (persist session answers attempt) := by
  unfold ExamService.persist
  refine call (hK.other (.setCurrentUser _) rfl rfl) fun _ _ => ?_
  refine call (hK.other (.txUpdateTestSession _ _ _ _ _) rfl rfl) fun affected _ => ?_
  split
  · trivial
  · exact call hattempt fun _ _ => await (hK.other .commitTransaction rfl rfl)

theorem scoreAndPersist (session : TestSession) (answers : Answers) (status : AttemptStatus)
    (lateFlag : Bool) : Free K (scoreAndPersist session answers status lateFlag) := by
  unfold ExamService.scoreAndPersist
  -- The result is the score of the exam that was loaded.
  have hscore : K.Meets (scoreAnswers session.examId answers) fun result =>
      ∃ exam?, K.gets (.examFindWithQuestions session.examId false) exam? ∧
        result = scoreOf exam? answers := by
    unfold scoreAnswers
    refine (meets_bind _).mpr ((meets_await _).mpr ⟨hK.other _ rfl rfl, fun exam? hexam => ?_⟩)
    exact ⟨exam?, hexam, rfl⟩
  refine (meets_bind _).mpr (hscore.mono ?_)
  rintro _ ⟨exam?, hexam, rfl⟩
  refine call (hK.other .now rfl rfl) fun now hnow => ?_
  refine call (hK.other .connect rfl rfl) fun _ _ => ?_
  refine call (hK.other .startTransaction rfl rfl) fun _ _ => ?_
  refine bind (Meets.ensure (Meets.handle ?_ fun err => ?_) (await (hK.other .release rfl rfl)))
    fun _ => call (hK.other (.redisDel _) rfl rfl) fun _ _ => trivial
  · exact hK.persist session answers (hK.attempt _ _ _ _ _ _ hexam hnow)
  · exact call (hK.other .rollbackTransaction rfl rfl) fun _ _ => trivial

theorem submitExam (sessionId userId : Id) (answers : Answers) :
    Free K (submitExam sessionId userId answers) := by
  unfold ExamService.submitExam
  exact bind (hK.getOwnedSession _ _ _) fun _ => hK.scoreAndPersist _ _ _ _

theorem lateSubmitExam (sessionId userId : Id) (answers : Answers) :
    Free K (lateSubmitExam sessionId userId answers) := by
  unfold ExamService.lateSubmitExam TestSessionService.consumeGrace
  refine bind (hK.getOwnedSession _ _ _) fun session => ?_
  refine bind (call (hK.other (.redisGetdel _) rfl rfl) fun _ _ => trivial) fun snapshot? => ?_
  cases snapshot? with
  | none => trivial
  | some snapshot => exact hK.scoreAndPersist _ _ _ _

theorem handleJoinSession (sessionId userId : Id) :
    Free K (ExamGateway.handleJoinSession sessionId userId) := by
  unfold ExamGateway.handleJoinSession
  refine bind (hK.getSession sessionId) fun ⟨data, _⟩ => ?_
  cases data with
  | none => trivial
  | some data =>
    simp only
    split <;> trivial

theorem handleSessionExpiry (sessionId : Id) :
    Free K (ExamKeyspaceHandler.handleSessionExpiry sessionId) := by
  unfold ExamKeyspaceHandler.handleSessionExpiry
  refine call (hK.other (.testSessionFindOne sessionId) rfl rfl) fun session? _ => ?_
  cases session? with
  | none => trivial
  | some session =>
    simp only
    split
    · trivial
    · refine call (hK.other (.testSessionUpdateStatus _ _) rfl rfl) fun _ _ => ?_
      exact await (hK.other (.redisSet _ _ _) rfl rfl)

theorem autoSubmitFromSnapshot (sessionId : Id) :
    Free K (ExamService.autoSubmitFromSnapshot sessionId) := by
  unfold ExamService.autoSubmitFromSnapshot
  refine call (hK.other (.testSessionFindOne sessionId) rfl rfl) fun session? _ => ?_
  cases session? with
  | none => trivial
  | some session =>
    simp only
    split
    · trivial
    · exact Meets.handle (bind (hK.scoreAndPersist _ _ _ _) fun _ => trivial) fun _ => trivial

theorem prog : Free K t.prog := by
  cases t with
  | assignExam => exact bind (hK.assignExam rfl _ _ _) fun _ => trivial
  | assignNextExam => exact bind (hK.assignNextExam rfl _ _) fun _ => trivial
  | validateAccess =>
    exact bind (bind (hK.findAndVerifyCode _ _ _) fun _ => trivial) fun _ => trivial
  | startExam => exact bind (hK.startExam _ _ _) fun _ => trivial
  | autosave => exact bind (hK.autosave _ _ _) fun _ => trivial
  | getSessionStatus =>
    refine bind (bind (hK.getOwnedSession _ _ _) fun _ => ?_) fun _ => trivial
    exact bind (hK.getSession _) fun _ => trivial
  | submitExam => exact bind (hK.submitExam _ _ _) fun _ => trivial
  | lateSubmitExam => exact bind (hK.lateSubmitExam _ _ _) fun _ => trivial
  | joinSession => exact bind (hK.handleJoinSession _ _) fun _ => trivial
  | handleExpiry type =>
    cases type with
    | session => exact bind (hK.handleSessionExpiry _) fun _ => trivial
    | grace => exact bind (hK.autoSubmitFromSnapshot _) fun _ => trivial

end Lets

end LmsBackend.Exams
