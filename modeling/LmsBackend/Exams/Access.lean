import LmsBackend.Exams.AllOrNothing
import LmsBackend.Exams.ExamController

/-!
# Whose access code

The codes are looked up by the student id of the caller. An admin has none, and
the lookup then goes without it.
-/

open Async Store

namespace LmsBackend.Exams

section

variable [Bcrypt] {i : Nat} {w w' : World} {f : Option ExamFault}

/-- The code is an unused and unexpired one of the exam, the plain text is its own, and the exam is
published. -/
def World.Accepts (w : World) (code : String) (examId : Id) (c : ExamAccessCode) : Prop :=
  c ∈ w.codes.rows ∧ c.examId = examId ∧ c.usedAt = none ∧ accepts w.now code c = true ∧
    ∃ exam, w.exams.find? (·.id = examId) = some exam ∧ exam.status = .published

theorem verify_ok {userId : Option Id} {code : String} {examId : Id} {c : ExamAccessCode}
    {exam : Exam} (h : w.verify userId code examId = .ok (c, exam)) :
    w.Accepts code examId c ∧ ∀ id, userId = some id → c.userId = id := by
  unfold World.verify at h
  split at h
  · cases h
  · rename_i found hfound
    split at h
    · cases h
    · rename_i hstatus
      split at h
      · rename_i hfind
        cases h
        obtain ⟨published, hpublished, rfl⟩ := Option.map_eq_some_iff.mp hfound
        have hmem := List.mem_of_find?_eq_some hfind
        rw [World.candidates, List.mem_insertionSort] at hmem
        obtain ⟨hcode, hwhere⟩ := List.mem_filter.mp hmem
        obtain ⟨huser, hexam, hunused⟩ := of_decide_eq_true hwhere
        refine ⟨⟨hcode, hexam, hunused, List.find?_some hfind, published, hpublished, ?_⟩, ?_⟩
        · exact not_not.mp hstatus
        · rintro id rfl
          simpa using huser
      · cases h

/-- Without a user, any code of the exam will do. -/
theorem verify_none {code : String} {examId : Id} {c : ExamAccessCode}
    (h : w.Accepts code examId c) : ∃ found, w.verify none code examId = .ok found := by
  obtain ⟨hcode, hexam, hunused, haccepts, exam, hfind, hpublished⟩ := h
  have hmem : c ∈ w.candidates none examId := by
    rw [World.candidates, List.mem_insertionSort]
    exact List.mem_filter.mpr ⟨hcode, by simp [hexam, hunused]⟩
  have hstatus : exam.row.status = .published := hpublished
  cases hc : (w.candidates none examId).find? (accepts w.now code) with
  | none => exact absurd haccepts (List.find?_eq_none.mp hc c hmem)
  | some candidate =>
    exact ⟨(candidate, exam.row), by simp [World.verify, hfind, hstatus, hc]⟩

theorem await_runs {call : Call} {a : Resp call} (h : exec i call "" w = some (w, .ok a)) :
    Ends examSystem i none w (await call) w (.ok a) :=
  Ends.await h

theorem firstMatch_runs (code : String) (candidates : List ExamAccessCode) :
    Ends examSystem i none w (ExamService.firstMatch code candidates) w
      (.ok (candidates.find? (accepts w.now code))) := by
  induction candidates with
  | nil => exact .ret
  | cons candidate rest ih =>
    rw [ExamService.firstMatch, Prog.bind_eq]
    refine (await_runs rfl).bind ?_
    by_cases hlive : candidate.expiresAt < w.now
    · rw [if_pos hlive, List.find?_cons_of_neg (by simp [accepts, hlive])]
      exact ih
    · rw [if_neg hlive, Prog.bind_eq]
      refine (await_runs rfl).bind ?_
      by_cases hmatch : Bcrypt.compare code candidate.tokenHash = true
      · rw [if_pos hmatch, List.find?_cons_of_pos (by simp [accepts, hlive, hmatch])]
        exact .ret
      · rw [if_neg hmatch, List.find?_cons_of_neg (by simp [accepts, hmatch])]
        exact ih

/-- A caller who is let in is let in: nothing makes the call wait. -/
theorem validateAccess_runs {userId : Option Id} {code : String} {examId : Id}
    {c : ExamAccessCode} {exam : Exam} (h : w.verify userId code examId = .ok (c, exam)) :
    Ends examSystem i none w (ExamService.validateAccess userId code examId) w (.ok (exam, c.id)) := by
  have hverify : Ends examSystem i none w (ExamService.findAndVerifyCode userId code examId) w
      (.ok (c, exam)) := by
    rw [ExamService.findAndVerifyCode, Prog.bind_eq]
    refine (await_runs rfl).bind ?_
    unfold World.verify at h
    split at h
    · cases h
    · rename_i found hfound
      rw [hfound]
      split at h
      · cases h
      · rename_i hstatus
        simp only [if_neg hstatus]
        split at h
        · rename_i hfind
          cases h
          refine (await_runs rfl).bind ((firstMatch_runs code _).bind ?_)
          rw [World.candidates] at hfind
          rw [hfind]
          exact .ret
        · cases h
  rw [ExamService.validateAccess, Prog.bind_eq]
  exact hverify.bind .ret

/-! ## The endpoints -/

/-- `validate-access` and `start` let the caller in by a code of its own only. -/
def OwnCodeOnly (user : Auth.AuthenticatedUser) (dto : StartExamDto) (w : World) : Prop :=
  (∀ i f w' payload, Ends examSystem i f w (ExamController.validateAccess user dto) w'
      (.ok payload) →
    ∃ c, w.Accepts dto.code dto.examId c ∧ user.id = some c.userId ∧ payload.accessCodeId = c.id) ∧
  ∀ i f w' payload, w.txns.get i = none →
    Ends examSystem i f w (ExamController.startExam user dto) w' (.ok payload) →
    ∃ c, w.Accepts dto.code dto.examId c ∧ user.id = some c.userId ∧
      ∃ session ∈ w'.sessions.rows, session.id = payload.sessionId ∧ session.sessionToken = c.id

theorem validateAccess_own {user : Auth.AuthenticatedUser} {dto : StartExamDto}
    {payload : AccessPayload}
    (h : Ends examSystem i f w (ExamController.validateAccess user dto) w' (.ok payload)) :
    ∃ c, w.Accepts dto.code dto.examId c ∧ (∀ id, user.id = some id → c.userId = id) ∧
      payload.accessCodeId = c.id := by
  have hends : ends none i (ExamController.validateAccess user dto) w fun _ r _ =>
      Outcome (fun payload => ∃ c, w.Accepts dto.code dto.examId c ∧
        (∀ id, user.id = some id → c.userId = id) ∧ payload.accessCodeId = c.id)
        (fun _ => True) r := by
    rw [ExamController.validateAccess, ExamService.validateAccess]
    simp only [Prog.bind_eq, ends, wlp_bind]
    refine wlp_mono (findAndVerifyCode_ends user.id dto.code dto.examId) ?_
    rintro f r w' (⟨-, -, rfl⟩ | ⟨⟨e, rfl⟩, -⟩)
    · cases hverify : w.verify user.id dto.code dto.examId with
      | error e => trivial
      | ok found =>
        obtain ⟨haccepts, hown⟩ := verify_ok hverify
        exact ⟨found.1, haccepts, hown, rfl⟩
    · trivial
  exact h.wlp hends

theorem startExam_own (hi : w.txns.get i = none) {user : Auth.AuthenticatedUser}
    {dto : StartExamDto} {payload : StartPayload}
    (h : Ends examSystem i f w (ExamController.startExam user dto) w' (.ok payload)) :
    ∃ c, w.Accepts dto.code dto.examId c ∧ user.id = some c.userId ∧
      ∃ session ∈ w'.sessions.rows, session.id = payload.sessionId ∧
        session.sessionToken = c.id := by
  have hends : ends none i (ExamController.startExam user dto) w fun _ r w' =>
      Outcome (fun payload => ∃ c, w.Accepts dto.code dto.examId c ∧ user.id = some c.userId ∧
        ∃ session ∈ w'.sessions.rows, session.id = payload.sessionId ∧
          session.sessionToken = c.id) (fun _ => True) r := by
    rw [ExamController.startExam, Prog.bind_eq, ends, wlp_bind]
    refine wlp_mono (startExam_ends hi user.id dto.code dto.examId) ?_
    rintro f (e | started) w' hr
    · trivial
    · obtain ⟨accessCode, exam, hverify, huser, session, hmem, hid, htoken⟩ := hr
      obtain ⟨haccepts, hown⟩ := verify_ok hverify
      obtain ⟨id, hid'⟩ := Option.ne_none_iff_exists'.mp huser
      exact ⟨accessCode, haccepts, by rw [hid', hown id hid'], session, hmem, hid, htoken⟩
  exact h.wlp hends

/-- For every token that is let in, every body and every state of the database: the endpoints let
the caller in by a code of its own only, if and only if the token is a student's or no code of the
exam fits the plain text. -/
theorem code_of_caller {payload : Auth.AccessTokenPayload} {user : Auth.AuthenticatedUser}
    (h : Auth.JwtStrategy.validate payload = .ok user) (dto : StartExamDto) (w : World) :
    OwnCodeOnly user dto w ↔
      payload.type = some .student ∨ ∀ c, ¬w.Accepts dto.code dto.examId c := by
  constructor
  · rintro ⟨hvalidate, -⟩
    rcases Auth.JwtStrategy.validate_ok h with ⟨-, hstudent⟩ | ⟨hnone, -⟩
    · exact .inl hstudent
    · right
      intro c haccepts
      obtain ⟨found, hverify⟩ := verify_none haccepts
      rw [← hnone] at hverify
      obtain ⟨c', -, huser, -⟩ :=
        hvalidate 0 none w _ ((validateAccess_runs hverify).bind .ret)
      rw [hnone] at huser
      cases huser
  · intro hcond
    constructor
    · intro i f w' payload' hends
      obtain ⟨c, haccepts, hown, hid⟩ := validateAccess_own hends
      rcases Auth.JwtStrategy.validate_ok h with ⟨⟨id, hid'⟩, -⟩ | ⟨-, hadmin⟩
      · exact ⟨c, haccepts, by rw [hid', hown id hid'], hid⟩
      · rcases hcond with hstudent | hnone
        · cases hadmin.symm.trans hstudent
        · exact absurd haccepts (hnone c)
    · intro i f w' payload' hi hends
      exact startExam_own hi hends

end

/-! ## The school -/

/-- The claims of an admin of the school. -/
def adminToken : Auth.AccessTokenPayload :=
  ⟨some "A", some .admin, some "admin", some "en", some "super_admin"⟩

def studentToken : Auth.AccessTokenPayload :=
  ⟨some "u", some .student, some "student", some "en", none⟩

def schoolDto : StartExamDto := ⟨"key", "e"⟩

theorem code_of_caller_student :
    ∃ user, Auth.JwtStrategy.validate studentToken = .ok user ∧
      @OwnCodeOnly plainBcrypt user schoolDto school :=
  ⟨_, rfl, (@code_of_caller plainBcrypt studentToken _ rfl schoolDto school).mpr (.inl rfl)⟩

/-- The code of the student lets the admin in. -/
theorem code_of_another :
    ¬∀ payload user, Auth.JwtStrategy.validate payload = .ok user →
      ∀ dto w, @OwnCodeOnly plainBcrypt user dto w := by
  intro hall
  have hown := hall adminToken _ rfl schoolDto school
  have hverify : @World.verify plainBcrypt school none "key" "e" = .ok
      (⟨"K", "u", "e", "c", "key", 1000, none, 0⟩, ⟨"e", "c", "Exam", 1, .published, none, 1, []⟩) := by
    decide
  obtain ⟨c, -, huser, -⟩ :=
    hown.1 0 none school _ ((@validateAccess_runs plainBcrypt _ _ _ _ _ _ _ hverify).bind .ret)
  cases huser

end LmsBackend.Exams
