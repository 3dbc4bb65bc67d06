import LmsBackend.Auth.Strategies

/-!
# Routes and guards

The handlers of the controllers with their decorators, and what the guards make of a request:
first `JwtAuthGuard`, which is global, then those of the controller and of the handler. Paths are
after the global prefix, by segments. Throttling, pipes and interceptors are left out.
-/

namespace LmsBackend.Http

open Auth

/-! ## Decorators -/

inductive Guard where
  | roles
  | jwtRefresh
  deriving DecidableEq, Repr

/-- `@Public()`, `@Roles(...)` and `@UseGuards(...)`. One that is not there is `none`. -/
structure Decorators where
  isPublic : Option Bool := none
  roles : Option (List AdminRole) := none
  guards : List Guard := []
  deriving DecidableEq, Repr

inductive Verb where
  | get
  | post
  | patch
  | delete
  deriving DecidableEq, Repr

inductive Segment where
  | is (text : String)
  | param
  deriving DecidableEq, Repr

structure Handler where
  name : String
  verb : Verb
  path : List Segment
  decorators : Decorators := {}
  deriving DecidableEq, Repr

structure Controller where
  name : String
  path : List Segment
  decorators : Decorators := {}
  handlers : List Handler

/-- A handler with the metadata that `Reflector` finds: its own, else that of its controller. -/
structure Route where
  controller : String
  handler : String
  verb : Verb
  path : List Segment
  isPublic : Bool
  roles : List AdminRole
  guards : List Guard
  deriving DecidableEq, Repr

def Controller.routes (c : Controller) : List Route :=
  c.handlers.map fun h =>
    { controller := c.name
      handler := h.name
      verb := h.verb
      path := c.path ++ h.path
      isPublic := (h.decorators.isPublic.or c.decorators.isPublic).getD false
      roles := (h.decorators.roles.or c.decorators.roles).getD []
      guards := c.decorators.guards ++ h.decorators.guards }

/-! ## Controllers -/

def anyone : Decorators := { isPublic := some true }

/-- `@Public()` with `@UseGuards(JwtRefreshGuard)`. -/
def refreshing : Decorators := { isPublic := some true, guards := [.jwtRefresh] }

def allows (roles : List AdminRole) : Decorators := { roles := some roles }

def healthController : Controller where
  name := "HealthController"
  path := [.is "health"]
  handlers := [
    { name := "check", verb := .get, path := [], decorators := anyone },
    { name := "checkFull", verb := .get, path := [.is "full"],
      decorators := { roles := some [.superAdmin], guards := [.roles] } }]

def authController : Controller where
  name := "AuthController"
  path := [.is "auth"]
  handlers := [
    { name := "register", verb := .post, path := [.is "register"], decorators := anyone },
    { name := "verifyEmail", verb := .post, path := [.is "verify-email"], decorators := anyone },
    { name := "login", verb := .post, path := [.is "login"], decorators := anyone },
    { name := "refresh", verb := .post, path := [.is "refresh"], decorators := refreshing },
    { name := "logout", verb := .post, path := [.is "logout"], decorators := refreshing },
    { name := "forgotPassword", verb := .post, path := [.is "forgot-password"], decorators := anyone },
    { name := "resetPassword", verb := .post, path := [.is "reset-password"], decorators := anyone }]

def authAdminController : Controller where
  name := "AuthAdminController"
  path := [.is "auth", .is "admin"]
  handlers := [
    { name := "login", verb := .post, path := [.is "login"], decorators := anyone },
    { name := "refresh", verb := .post, path := [.is "refresh"], decorators := refreshing },
    { name := "logout", verb := .post, path := [.is "logout"], decorators := refreshing }]

def profileController : Controller where
  name := "ProfileController"
  path := [.is "me"]
  handlers := [
    { name := "getMe", verb := .get, path := [] },
    { name := "updateMe", verb := .patch, path := [] },
    { name := "updatePassword", verb := .patch, path := [.is "password"] }]

def catalogController : Controller where
  name := "CatalogController"
  path := [.is "catalog"]
  handlers := [
    { name := "list", verb := .get, path := [], decorators := anyone },
    { name := "getOne", verb := .get, path := [.param], decorators := anyone }]

def catalogAdminController : Controller where
  name := "CatalogAdminController"
  path := [.is "admin", .is "catalog"]
  decorators := { guards := [.roles] }
  handlers := [
    { name := "list", verb := .get, path := [],
      decorators := allows [.contentCreator, .learningAdmin] },
    { name := "getOne", verb := .get, path := [.param],
      decorators := allows [.contentCreator, .learningAdmin] },
    { name := "create", verb := .post, path := [],
      decorators := allows [.contentCreator, .learningAdmin] },
    { name := "update", verb := .patch, path := [.param],
      decorators := allows [.contentCreator, .learningAdmin] },
    { name := "updateTranslations", verb := .patch, path := [.param, .is "translations"],
      decorators := allows [.contentCreator, .learningAdmin] },
    { name := "softDelete", verb := .delete, path := [.param], decorators := allows [.learningAdmin] }]

def learningController : Controller where
  name := "LearningController"
  path := [.is "learning"]
  handlers := [
    { name := "getCurriculum", verb := .get, path := [.is "certs", .param, .is "curriculum"] },
    { name := "getLesson", verb := .get, path := [.is "lessons", .param] },
    { name := "markComplete", verb := .post, path := [.is "lessons", .param, .is "complete"] },
    { name := "progress", verb := .get, path := [.is "progress"] }]

def learningAdminController : Controller where
  name := "LearningAdminController"
  path := [.is "admin"]
  decorators := { guards := [.roles] }
  handlers := [
    { name := "createModule", verb := .post, path := [.is "modules"],
      decorators := allows [.contentCreator, .learningAdmin] },
    { name := "updateModule", verb := .patch, path := [.is "modules", .param],
      decorators := allows [.contentCreator, .learningAdmin] },
    { name := "softDeleteModule", verb := .delete, path := [.is "modules", .param],
      decorators := allows [.learningAdmin] },
    { name := "createLesson", verb := .post, path := [.is "lessons"],
      decorators := allows [.contentCreator, .learningAdmin] },
    { name := "updateLesson", verb := .patch, path := [.is "lessons", .param],
      decorators := allows [.contentCreator, .learningAdmin] },
    { name := "softDeleteLesson", verb := .delete, path := [.is "lessons", .param],
      decorators := allows [.learningAdmin] }]

def examController : Controller where
  name := "ExamController"
  path := [.is "exam"]
  handlers := [
    { name := "validateAccess", verb := .post, path := [.is "validate-access"] },
    { name := "startExam", verb := .post, path := [.is "start"] },
    { name := "getSessionStatus", verb := .get, path := [.is "sessions", .param] },
    { name := "autosave", verb := .post, path := [.is "sessions", .param, .is "autosave"] },
    { name := "submit", verb := .post, path := [.is "sessions", .param, .is "submit"] },
    { name := "lateSubmit", verb := .post, path := [.is "sessions", .param, .is "late-submit"] }]

def examAdminController : Controller where
  name := "ExamAdminController"
  path := [.is "admin", .is "exam"]
  decorators := { guards := [.roles] }
  handlers := [
    { name := "assignExam", verb := .post, path := [.is "assign"],
      decorators := allows [.learningAdmin] }]

/-- All of its handlers are public by the decorator of the class. -/
def webController : Controller where
  name := "WebController"
  path := []
  decorators := anyone
  handlers := [
    { name := "verifyEmail", verb := .get, path := [.is "verify-email"] },
    { name := "resetPasswordForm", verb := .get, path := [.is "reset-password"] },
    { name := "resetPasswordSubmit", verb := .post, path := [.is "reset-password"] }]

/-- In the order of the modules. -/
def controllers : List Controller := [
  healthController, authController, authAdminController, profileController, catalogController,
  catalogAdminController, learningController, learningAdminController, examController,
  examAdminController, webController]

def routes : List Route := controllers.flatMap Controller.routes

/-! ## Matching -/

/-- A parameter matches any text that is not empty. -/
def Segment.accepts : Segment → String → Bool
  | is text, s => text = s
  | param, s => s ≠ ""

def accepts : List Segment → List String → Bool
  | [], [] => true
  | segment :: path, s :: rest => segment.accepts s && accepts path rest
  | _, _ => false

/-- The first route that matches takes the request. -/
def dispatch (verb : Verb) (path : List String) : Option Route :=
  routes.find? fun r => r.verb = verb && accepts r.path path

/-- Whether there may be a path that both match. -/
def overlaps : List Segment → List Segment → Bool
  | [], [] => true
  | .is text :: p, .is text' :: q => text = text' && overlaps p q
  | _ :: p, _ :: q => overlaps p q
  | _, _ => false

theorem overlaps_of_accepts {p q : List Segment} {path : List String} (hp : accepts p path = true)
    (hq : accepts q path = true) : overlaps p q = true := by
  induction p generalizing q path with
  | nil =>
    cases path with
    | nil =>
      cases q with
      | nil => rfl
      | cons b q => cases hq
    | cons s path => cases hp
  | cons a p ih =>
    cases path with
    | nil => cases hp
    | cons s path =>
      cases q with
      | nil => cases hq
      | cons b q =>
        simp only [accepts, Bool.and_eq_true] at hp hq
        have hrest := ih hp.2 hq.2
        cases a with
        | param => exact hrest
        | is text =>
          cases b with
          | param => exact hrest
          | is text' =>
            have htext : text = s := of_decide_eq_true hp.1
            have htext' : text' = s := of_decide_eq_true hq.1
            simp [overlaps, htext, htext', hrest]

theorem routes_apart : ∀ r ∈ routes, ∀ r' ∈ routes, r.verb = r'.verb →
    overlaps r.path r'.path = true → r = r' := by
  decide +kernel

/-- No request matches two routes, so their order does not matter. -/
theorem dispatch_eq_some_iff {verb : Verb} {path : List String} {r : Route} :
    dispatch verb path = some r ↔ r ∈ routes ∧ r.verb = verb ∧ accepts r.path path = true := by
  constructor
  · intro h
    have hmatch := List.find?_some h
    simp only [Bool.and_eq_true, decide_eq_true_eq] at hmatch
    exact ⟨List.mem_of_find?_eq_some h, hmatch⟩
  · rintro ⟨hr, hverb, hpath⟩
    obtain ⟨r', hr'⟩ : ∃ r', dispatch verb path = some r' :=
      Option.isSome_iff_exists.mp (List.find?_isSome.mpr ⟨r, hr, by simp [hverb, hpath]⟩)
    have hmatch := List.find?_some hr'
    simp only [Bool.and_eq_true, decide_eq_true_eq] at hmatch
    obtain rfl : r = r' := routes_apart r hr r' (List.mem_of_find?_eq_some hr')
      (hverb.trans hmatch.1.symm) (overlaps_of_accepts hpath hmatch.2)
    exact hr'

/-! ## Guards -/

structure Request where
  /-- The token of the `Authorization` header. -/
  bearer : Option String
  /-- The `refreshToken` cookie. -/
  cookie : Option String
  now : Time
  deriving DecidableEq, Repr

/-- `req.user`, as one of the two strategies has set it. -/
inductive Principal where
  | user (user : AuthenticatedUser)
  | refresh (context : RefreshContext)
  deriving DecidableEq, Repr

inductive Denied where
  | unauthorized (message : String)
  | forbidden (message : String)
  deriving DecidableEq, Repr

/-- `user?.role` -/
def Principal.role : Principal → Option String
  | .user account => account.role
  | .refresh _ => none

variable [JwtVerify] [AuthConfig]

def JwtAuthGuard.canActivate (r : Route) (req : Request) : Except Denied (Option Principal) :=
  if r.isPublic then .ok none
  else
    match req.bearer with
    | none => .error (.unauthorized "Unauthorized")
    | some token =>
      match JwtStrategy.authenticate token req.now with
      | .error message => .error (.unauthorized message)
      | .ok user => .ok (some (.user user))

def JwtRefreshGuard.canActivate (req : Request) : Except Denied (Option Principal) :=
  match req.cookie with
  | none => .error (.unauthorized "Unauthorized")
  | some rawToken =>
    match JwtRefreshStrategy.authenticate rawToken req.now with
    | .error message => .error (.unauthorized message)
    | .ok context => .ok (some (.refresh context))

/-- Exact matches, except that a super admin passes every check. -/
def RolesGuard.canActivate (r : Route) (user : Option Principal) : Except Denied (Option Principal) :=
  if r.roles = [] then .ok user
  else
    match (user.bind (·.role)).filter (· ≠ "") with
    | none => .error (.forbidden "Insufficient permissions")
    | some role =>
      if role = AdminRole.superAdmin.text ∨ role ∈ r.roles.map AdminRole.text then .ok user
      else .error (.forbidden "Insufficient permissions")

def Guard.canActivate (r : Route) (req : Request) (user : Option Principal) :
    Guard → Except Denied (Option Principal)
  | .roles => RolesGuard.canActivate r user
  | .jwtRefresh => JwtRefreshGuard.canActivate req

/-- What the handler finds in `req.user`, when all guards let the request pass. -/
def activate (r : Route) (req : Request) : Except Denied (Option Principal) := do
  let user ← JwtAuthGuard.canActivate r req
  r.guards.foldlM (fun user g => g.canActivate r req user) user

end LmsBackend.Http
