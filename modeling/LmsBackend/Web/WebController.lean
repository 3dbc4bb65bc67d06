import LmsBackend.Async.Shells
import LmsBackend.Auth.Dtos
import LmsBackend.Auth.OneTime
import Mathlib.Data.List.DropRight

/-!
# `WebController`

The pages that the links of the emails lead to. A page makes the call of the service that the endpoint
of the API makes, and shows how it ended. It has no DTO.
-/

open Async Store

namespace LmsBackend.Auth

def Err.message : Err → String
  | .badRequest message | .conflict message | .unauthorized message | .infra message => message

end LmsBackend.Auth

namespace LmsBackend.Web

open Auth

/-- The files in `pages/`. -/
inductive Page where
  | verifyError
  | verifySuccess
  | resetError
  | resetForm
  | resetSuccess
  deriving DecidableEq, Repr

/-- `sendHtml(res, status, template, vars)` -/
structure HtmlReply where
  status : Nat
  page : Page
  vars : List (String × String)
  deriving DecidableEq, Repr

class WebConfig where
  /-- `APP_BASE_URL` -/
  appBaseUrl : String

/-- `url.replace(/\/+$/, '')` -/
def withoutSlashes (url : String) : String := String.ofList (url.toList.rdropWhile (· = '/'))

/-- What is missing or empty is falsy. -/
def present (value : Option String) : Option String := value.filter (· ≠ "")

section

variable [Jwt] [JsString] [AuthConfig] [WebConfig]

namespace WebController

def loginUrl : String × String := ("loginUrl", withoutSlashes WebConfig.appBaseUrl ++ "/api/docs")

def verified : HtmlReply := ⟨200, .verifySuccess, [loginUrl]⟩

/-- One page for all errors: which of them it was is not told. -/
def notVerified : HtmlReply := ⟨400, .verifyError, [
  ("title", "Link is no longer valid"),
  ("message", "This verification link is invalid, expired, or has already been used. " ++
    "If your account is still unverified, request a new link."),
  loginUrl]⟩

def verifyEmail (token : Option String) : Promise HtmlReply :=
  match present token with
  | none => pure ⟨400, .verifyError, [
      ("title", "Missing token"),
      ("message", "This verification link is incomplete. " ++
        "Use the link from the email exactly as it was sent."),
      loginUrl]⟩
  | some token =>
    tryCatch (do
      let _ ← AuthService.verifyEmail token
      pure verified) fun _ => pure notVerified

def resetPasswordForm (token : Option String) : HtmlReply :=
  match present token with
  | none => ⟨400, .resetError, [
      ("title", "Missing token"),
      ("message", "This reset link is incomplete. " ++
        "Use the link from the email exactly as it was sent."),
      loginUrl]⟩
  | some token => ⟨200, .resetForm, [("token", token)]⟩

def reset : HtmlReply := ⟨200, .resetSuccess, [loginUrl]⟩

/-- The form again, with the message of any error. -/
def notReset (token : String) (err : Err) : HtmlReply := ⟨400, .resetForm, [
  ("token", token),
  ("error", if err.message ≠ "" then err.message else "This reset link is invalid or expired.")]⟩

def resetPasswordSubmit (token newPassword confirmPassword : Option String) : Promise HtmlReply :=
  match present token, present newPassword with
  | some token, some newPassword =>
    if ∃ confirm ∈ confirmPassword, confirm ≠ newPassword then
      pure ⟨400, .resetForm, [("token", token), ("error", "Passwords do not match.")]⟩
    else
      tryCatch (do
        let _ ← AuthService.resetPassword token newPassword
        pure reset) fun err => pure (notReset token err)
  | _, _ => pure ⟨400, .resetError, [
      ("title", "Missing fields"),
      ("message", "Both the token and a new password are required."),
      loginUrl]⟩

end WebController

/-! ## Requests -/

/-- A request to the API, by the call of the service that its controller makes, or for a page. -/
inductive Request where
  | api (t : Task)
  | verifyEmail (token : Option String)
  | resetPasswordForm (token : Option String)
  | resetPasswordSubmit (token newPassword confirmPassword : Option String)
  deriving DecidableEq, Repr

inductive Response where
  | json (reply : Reply)
  | html (reply : HtmlReply)
  deriving DecidableEq, Repr

namespace Request

def prog : Request → Promise Response
  | api t => do
    let reply ← t.prog
    pure (.json reply)
  | verifyEmail token => do
    let reply ← WebController.verifyEmail token
    pure (.html reply)
  | resetPasswordForm token => pure (.html (WebController.resetPasswordForm token))
  | resetPasswordSubmit token newPassword confirmPassword => do
    let reply ← WebController.resetPasswordSubmit token newPassword confirmPassword
    pure (.html reply)

/-- The request comes to the service. The others are answered at once. -/
def awaits : Request → Bool
  | api _ => true
  | verifyEmail token => (present token).isSome
  | resetPasswordForm _ => false
  | resetPasswordSubmit token newPassword confirmPassword =>
    (present token).isSome && (present newPassword).isSome &&
      confirmPassword.all (some · = present newPassword)

/-- The call of the service that the request comes to. -/
def inner : Request → Task
  | api t => t
  | verifyEmail token | resetPasswordForm token => .verifyEmail (token.getD "")
  | resetPasswordSubmit token newPassword _ =>
    .resetPassword (token.getD "") (newPassword.getD "")

open WebController in
/-- What becomes of the outcome of that call. -/
def ends : Request → Except Err Reply → Except Err Response
  | api _, r => r.map .json
  | verifyEmail _, r | resetPasswordForm _, r =>
    .ok (.html (Prog.settled (fun _ => verified) (fun _ => notVerified) r))
  | resetPasswordSubmit token _ _, r =>
    .ok (.html (Prog.settled (fun _ => reset) (notReset (token.getD "")) r))

omit [Jwt] [JsString] [AuthConfig] [WebConfig] in
theorem present_eq_some {value : Option String} {s : String} (h : present value = some s) :
    value = some s := (Option.filter_eq_some_iff.mp h).1

omit [WebConfig] in
/-- A page for a task of the service that only tells. -/
theorem page_finish {p : Promise String} {t : Task} {g : HtmlReply} {h : Err → HtmlReply}
    (ht : t.prog = p.bind fun message => .ret (.message message)) :
    (((p.bind fun _ => .ret g).handle fun err => .ret (h err)).bind fun reply =>
      .ret (Response.html reply)) =
      t.prog.finish fun r => .ok (.html (Prog.settled (fun _ => g) h r)) := by
  rw [ht, Prog.handle_eq_finish, Prog.bind_ret_eq_finish, Prog.bind_ret_eq_finish,
    Prog.finish_finish, Prog.finish_finish]
  congr 1
  funext r
  cases r <;> rfl

theorem prog_of_awaits {request : Request} (h : request.awaits = true) :
    request.prog = request.inner.prog.finish request.ends := by
  cases request with
  | api t => exact Prog.bind_ret_eq_finish
  | resetPasswordForm token => cases h
  | verifyEmail token =>
    obtain ⟨s, hs⟩ := Option.isSome_iff_exists.mp h
    obtain rfl := present_eq_some hs
    have hpage : WebController.verifyEmail (some s) =
        ((AuthService.verifyEmail s).bind fun _ => .ret WebController.verified).handle
          fun _ => .ret WebController.notVerified := by
      unfold WebController.verifyEmail
      rw [hs]
      rfl
    show (WebController.verifyEmail (some s)).bind (fun reply => .ret (Response.html reply)) = _
    rw [hpage]
    exact page_finish rfl
  | resetPasswordSubmit token newPassword confirmPassword =>
    obtain ⟨hvalues, hconfirm⟩ := (Bool.and_eq_true _ _).mp h
    obtain ⟨htoken, hnew⟩ := (Bool.and_eq_true _ _).mp hvalues
    obtain ⟨s, hs⟩ := Option.isSome_iff_exists.mp htoken
    obtain ⟨new, hn⟩ := Option.isSome_iff_exists.mp hnew
    obtain rfl := present_eq_some hs
    obtain rfl := present_eq_some hn
    have hsame : ¬∃ confirm ∈ confirmPassword, confirm ≠ new := by
      rintro ⟨confirm, rfl, hne⟩
      rw [hn, Option.all_some, decide_eq_true_eq] at hconfirm
      exact hne (Option.some.inj hconfirm)
    have hpage : WebController.resetPasswordSubmit (some s) (some new) confirmPassword =
        ((AuthService.resetPassword s new).bind fun _ => .ret WebController.reset).handle
          fun err => .ret (WebController.notReset s err) := by
      unfold WebController.resetPasswordSubmit
      rw [hs, hn]
      exact if_neg hsame
    show (WebController.resetPasswordSubmit (some s) (some new) confirmPassword).bind
      (fun reply => .ret (Response.html reply)) = _
    rw [hpage]
    exact page_finish rfl

theorem prog_of_not_awaits {request : Request} (h : request.awaits = false) :
    ∃ reply, request.prog = .ret (.html reply) := by
  cases request with
  | api t => cases h
  | resetPasswordForm token => exact ⟨_, rfl⟩
  | verifyEmail token =>
    have hs : present token = none := by simpa [awaits] using h
    have hpage : ∃ reply, WebController.verifyEmail token = .ret reply := by
      unfold WebController.verifyEmail
      rw [hs]
      exact ⟨_, rfl⟩
    obtain ⟨reply, hreply⟩ := hpage
    refine ⟨reply, ?_⟩
    show (WebController.verifyEmail token).bind (fun reply => .ret (Response.html reply)) = _
    rw [hreply]
    rfl
  | resetPasswordSubmit token newPassword confirmPassword =>
    have hpage : ∃ reply,
        WebController.resetPasswordSubmit token newPassword confirmPassword = .ret reply := by
      unfold WebController.resetPasswordSubmit
      split
      · rename_i s new hs hn
        refine ⟨_, if_pos ?_⟩
        simp only [awaits, hs, hn, Option.isSome_some, Bool.and_self, Bool.true_and] at h
        rcases confirmPassword with _ | confirm
        · cases h
        · exact ⟨confirm, rfl, fun heq => of_decide_eq_false h (congrArg some heq)⟩
      · exact ⟨_, rfl⟩
    obtain ⟨reply, hreply⟩ := hpage
    refine ⟨reply, ?_⟩
    show (WebController.resetPasswordSubmit token newPassword confirmPassword).bind
      (fun reply => .ret (Response.html reply)) = _
    rw [hreply]
    rfl

end Request

/-- An endpoint of the API passes the call on: its DTO accepts the fields. What the endpoints without
a page check is `other`. -/
def Admitted (other : Task → Prop) : Task → Prop
  | .verifyEmail token => (VerifyEmailDto.validateToken (.string token)).isSome
  | .resetPassword token newPassword =>
    (ResetPasswordDto.validateToken (.string token)).isSome ∧
      (ResetPasswordDto.validateNewPassword (.string newPassword)).isSome
  | t => other t

/-! ## Runs -/

variable [Bcrypt]

def webSystem : System World Call Resp Err Response Request Choice Tick where
  prog := Request.prog
  client := Request.awaits
  exec := exec
  reject := reject
  env t w := some (w.tick t, [])

abbrev WebPool := Config World Call Resp Err Response Request

def overApi : Shell authSystem webSystem where
  inner := Request.inner
  ends := Request.ends
  exec := rfl
  reject := rfl
  client _ h := ⟨rfl, Request.prog_of_awaits h⟩
  env _ _ _ _ h := by
    cases h
    exact ⟨rfl, fun _ ht => absurd ht List.not_mem_nil⟩

/-- For every run with requests for pages there is one with calls of the service alone that answers
the same, to the same database. Each page is what becomes of the outcome of its call. When the DTOs
accept what was requested, those are requests to the API. A request that does not come to the service
awaits nothing. -/
theorem pages_over_api {init : World → Prop} {P : Guard World Call Resp Err Response Request Choice Tick}
    {c' : WebPool} (h : Reach webSystem init P c') (other : Task → Prop) :
    (∃ c, Reach authSystem init anyStep c ∧ c.world = c'.world ∧ c.log = c'.log ∧
      (∀ i request, c'.task? i = some request → c.task? i = some request.inner ∧
        ∀ r', c'.Ended i r' ↔ ∃ r, c.Ended i r ∧ request.ends r = r') ∧
      ((∀ i request, c'.task? i = some request → Admitted other request.inner) →
        Reach authSystem init (begins (Admitted other)) c)) ∧
    ∀ request : Request, request.awaits = false → ∃ reply, request.prog = .ret (.html reply) := by
  obtain ⟨c, hc, haround⟩ := overApi.reach h
  refine ⟨⟨c, hc, haround.world, haround.log, fun i request ht => haround.ends ht, fun hall => ?_⟩, ?_⟩
  · refine hc.begins fun i t ht => ?_
    obtain ⟨request, hrequest, rfl⟩ := haround.task ht
    exact hall i request hrequest
  · exact fun request hrequest => Request.prog_of_not_awaits hrequest

end

@[reducible] def localWeb : WebConfig := ⟨"http://localhost:3000/"⟩

set_option maxRecDepth 100000 in
/-- A link that nobody got shows the page that the error of the API becomes. -/
theorem pages_over_api_verify : ∃ c' c,
    Reach (@webSystem plainJwt plainString development localWeb Exams.plainBcrypt) (· = bureau)
      anyStep c' ∧
    Reach (@authSystem Exams.plainBcrypt plainJwt plainString development) (· = bureau)
      (begins (Admitted fun _ => False)) c ∧
    c'.reply? 0 = some (.html (@WebController.notVerified localWeb)) ∧
    c.task? 0 = some (.verifyEmail hexToken) ∧ ∃ err, c.error? 0 = some err := by
  let system := @webSystem plainJwt plainString development localWeb Exams.plainBcrypt
  obtain ⟨c', hc, hp⟩ := (Option.any_eq_true _ _).mp (show
    (runIf system anyStep [.spawn (.verifyEmail (some hexToken)), .run 0 ""] (.initial bureau)).any
      (fun c => c.procs.map (·.task) = [.verifyEmail (some hexToken)] ∧
        c.reply? 0 = some (.html (@WebController.notVerified localWeb))) = true by decide +kernel)
  obtain ⟨htasks, hreply⟩ := of_decide_eq_true hp
  have htask : ∀ i request, c'.task? i = some request ↔
      i = 0 ∧ request = .verifyEmail (some hexToken) := by
    intro i request
    rw [Config.task?, ← List.getElem?_map, htasks, List.getElem?_singleton]
    split <;> simp_all [eq_comm]
  have hr : Reach system (· = bureau) anyStep c' := runIf_reach (.init rfl) hc
  obtain ⟨⟨c, -, -, -, hall, hadmitted⟩, -⟩ := @pages_over_api plainJwt plainString development
    localWeb Exams.plainBcrypt _ _ c' hr fun _ => False
  obtain ⟨hinner, hends⟩ := hall 0 _ ((htask 0 _).mpr ⟨rfl, rfl⟩)
  obtain ⟨r, hended, hr'⟩ := (hends _).mp (Config.ended_of_reply hreply)
  have hreach := hadmitted fun i request ht => by
    obtain ⟨-, rfl⟩ := (htask i request).mp ht
    show (VerifyEmailDto.validateToken (.string hexToken)).isSome
    decide +kernel
  cases r with
  | ok reply => cases hr'
  | error err =>
    exact ⟨c', c, hr, hreach, hreply, hinner, err, Config.error_of_ended hended⟩

end LmsBackend.Web
