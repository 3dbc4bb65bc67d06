import LmsBackend.Exams.Errors
import LmsBackend.Exams.Students
import LmsBackend.Http.ExceptionFilter

/-!
# The problem documents of the exam endpoints

An exam request that fails is answered with what its own code has thrown, word for word. What the
database or Redis has thrown reaches the log, and nothing of it the client.
-/

open Async Store

namespace LmsBackend.Exams

open Http

/-- The `HttpException` of the message. -/
def httpException (status : Nat) (message : String) : Exception :=
  .http status (.object (some (.text message)) none) message

/-- What the filter catches. -/
def Err.exception : Err → Exception
  | .notFound message => httpException 404 message
  | .badRequest message => .badRequest (.object (some (.text message)) none) message
  | .conflict message => httpException 409 message
  | .forbidden message => httpException 403 message
  | .unprocessable message => httpException 422 message
  | .ws message => .other message
  | .infra message => .other message

/-- The task is a request, and not of the gateway or of an expired key. -/
def Task.isRequest : Task → Bool
  | .joinSession _ _ | .handleExpiry _ _ => false
  | _ => true

def Err.message : Err → String
  | .notFound message | .badRequest message | .conflict message | .forbidden message
  | .unprocessable message | .ws message | .infra message => message

/-- The error is one of the client's. -/
def Err.status? : Err → Option Nat
  | .notFound _ => some 404
  | .badRequest _ => some 400
  | .conflict _ => some 409
  | .forbidden _ => some 403
  | .unprocessable _ => some 422
  | .ws _ | .infra _ => none

end LmsBackend.Exams

namespace LmsBackend.Http

open Exams

theorem ownedErrors_status {allowed : List TestSessionStatus} :
    ∀ e ∈ ExamService.ownedErrors allowed, e.status?.isSome = true := by
  intro e he
  simp only [ExamService.ownedErrors, List.mem_append, List.mem_cons, List.mem_map,
    List.not_mem_nil, or_false] at he
  rcases he with (rfl | rfl) | ⟨status, -, rfl⟩ <;> rfl

theorem errors_status {t : Task} (hreq : t.isRequest = true) :
    ∀ e ∈ t.errors, e.status?.isSome = true := by
  cases t with
  | joinSession | handleExpiry => cases hreq
  | autosave | submitExam | lateSubmitExam =>
    exact List.forall_mem_append.mpr ⟨ownedErrors_status, by decide⟩
  | getSessionStatus => exact ownedErrors_status
  | assignExam => exact (by decide : ∀ e ∈ ExamService.assignErrors, e.status?.isSome = true)
  | assignNextExam =>
    exact (by decide : ∀ e ∈ ExamService.assignNextErrors, e.status?.isSome = true)
  | validateAccess => exact (by decide : ∀ e ∈ ExamService.accessErrors, e.status?.isSome = true)
  | startExam => exact (by decide : ∀ e ∈ ExamService.startErrors, e.status?.isSome = true)

/-! ## Responses -/

section

variable [I18nService] {e : Err} {i : Nat} {t : Task} {c : Pool}

open GlobalExceptionFilter

/-- The response gives the client the status and the words of the error, and the log has no line
of level `error` for it. -/
def Told (e : Err) (ctx : FilterContext) : Prop :=
  e.status? = some (catchException e.exception ctx).status ∧
    (catchException e.exception ctx).status < 500 ∧
    (catchException e.exception ctx).body.detail = e.message ∧
    (log (resolve e.exception) ctx e.exception).level ≠ .error

/-- The response is the one of any other unknown error, and the log has a line with the error. -/
def Kept (e : Err) (ctx : FilterContext) : Prop :=
  (catchException e.exception ctx).status = 500 ∧
    (∀ text, catchException e.exception ctx = catchException (.other text) ctx) ∧
    (log (resolve e.exception) ctx e.exception).level = .error ∧
    (log (resolve e.exception) ctx e.exception).cause = some (.other e.message)

theorem told_of_status (h : e.status?.isSome = true) (ctx : FilterContext) : Told e ctx := by
  cases e with
  | ws | infra => cases h
  | notFound | badRequest | conflict | forbidden | unprocessable =>
    exact ⟨rfl, Nat.lt_of_sub_eq_succ rfl, rfl, nofun⟩

theorem kept_infra (message : String) (ctx : FilterContext) : Kept (.infra message) ctx :=
  ⟨rfl, fun _ => rfl, rfl, rfl⟩

variable [Bcrypt]

/-- In every run, a request that ends with an error has either thrown it itself, which the client is
told in full, or one of its calls has rejected with it, of which the client is told nothing. -/
theorem exam_problems (h : Reachable anyStep c) (ht : c.task? i = some t)
    (hreq : t.isRequest = true) (he : c.error? i = some e) (ctx : FilterContext) :
    (e ∈ t.errors ∧ Told e ctx) ∨
      (∃ ev ∈ c.log, ev.proc = i ∧ ev.res = .error e) ∧ Kept e ctx := by
  rcases h.raises Task.prog_raises ht he with hown | ⟨ev, hev, hproc, hres⟩
  · exact .inl ⟨hown, told_of_status (errors_status hreq e hown) ctx⟩
  · have hanswered := h.told.answered ev hev
    rw [hres] at hanswered
    obtain ⟨message, rfl⟩ := answered_infra hanswered
    exact .inr ⟨⟨ev, hev, hproc, hres⟩, kept_infra message ctx⟩

end

/-- `I18nService` without translations. -/
abbrev keysOnly : I18nService := ⟨fun key _ _ => key⟩

set_option maxRecDepth 100000 in
/-- Student "V" submits the session of "u". -/
theorem exam_problems_submit : ∃ c, @Reachable plainBcrypt anyStep c ∧
    c.error? 1 = some (.forbidden "Session does not belong to this user") ∧
    ∀ ctx, (Err.forbidden "Session does not belong to this user" ∈ ExamService.submitErrors ∧
        @Told keysOnly (.forbidden "Session does not belong to this user") ctx) ∨
      (∃ ev ∈ c.log, ev.proc = 1 ∧
        ev.res = .error (.forbidden "Session does not belong to this user")) ∧
      @Kept keysOnly (.forbidden "Session does not belong to this user") ctx := by
  obtain ⟨_, c, hr, hs, htask, herror⟩ := exists_runs (Q := anyStep)
    (p := fun _ c => c.task? 1 = some (.submitExam "S" "V" []) ∧
      c.error? 1 = some (.forbidden "Session does not belong to this user"))
    starts (.spawn (.submitExam "S" "V" []) :: calls 1 1) (by decide)
  have hc := hr.steps hs
  exact ⟨c, hc, herror, @exam_problems keysOnly _ 1 _ c plainBcrypt hc htask rfl herror⟩

end LmsBackend.Http
