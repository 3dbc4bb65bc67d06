import LmsBackend.Async.Monitor
import LmsBackend.Auth.System

/-!
# The errands of the account service

The place that a call of `AuthService` has reached, with what it knows there: the
row that it has read, the account that it acts for, the hash that it has made.
A phase allows the writes of its place only, for its own account.
-/

open Async Store

namespace LmsBackend.Auth

/-- What a session is made for. -/
inductive Origin where
  | login
  | refresh (payload : RefreshTokenPayload)
  deriving DecidableEq

/-- What a one-time token is presented for. -/
inductive Use where
  | verify
  | reset (newPassword : String)
  deriving DecidableEq

def Use.purpose : Use → AuthTokenPurpose
  | verify => .emailVerification
  | reset _ => .passwordReset

/-- The account that the columns of a refresh token name. -/
def RefreshToken.owner (t : RefreshToken) : Option (Id × AccountType) :=
  match t.userId, t.adminId with
  | some id, none => some (id, .student)
  | none, some id => some (id, .admin)
  | _, _ => none

/-- The plain token of an email. -/
def Mail.token : Mail → String
  | verification _ _ token | passwordReset _ _ token => token

inductive Errand where
  /-- It writes nothing any more. -/
  | idle
  -- Sessions.
  | loggingIn (email password : String)
  | loggingInAdmin (email password : String)
  | knows (user : User) (password : String)
  | knowsAdmin (admin : AdminUser) (password : String)
  | refreshing (payload : RefreshTokenPayload) (rawToken : String)
  | stored (payload : RefreshTokenPayload) (rawToken : String) (row : RefreshToken)
  /-- The row is neither expired nor revoked. -/
  | fresh (payload : RefreshTokenPayload) (rawToken : String) (row : RefreshToken)
  | matched (payload : RefreshTokenPayload) (row : RefreshToken)
  /-- It has flipped `revokedAt` of the row. -/
  | exchanged (payload : RefreshTokenPayload)
  | entitled (origin : Origin) (subjectId : Id) (type : AccountType)
  | minted (origin : Origin) (subjectId : Id) (type : AccountType) (id : Nat)
  | signedIn (origin : Origin) (subjectId : Id) (type : AccountType)
  /-- Only the UPDATE of all refresh tokens is left to do. -/
  | due (subjectId : Id) (type : AccountType)
  | leaving (payload : RefreshTokenPayload)
  -- One-time tokens.
  | registering (dto : RegisterDto)
  | unregistered (dto : RegisterDto)
  | enrolling (dto : RegisterDto) (passwordHash : String)
  | forgetting (email : String)
  | issuing (userId : Id) (purpose : AuthTokenPurpose)
  | drawing (userId : Id) (purpose : AuthTokenPurpose)
  | drawn (userId : Id) (purpose : AuthTokenPurpose) (plainToken : String)
  | hashed (userId : Id) (purpose : AuthTokenPurpose) (plainToken tokenHash : String)
  | mailing (plainToken : String)
  | presenting (plainToken : String) (use : Use)
  | scanning (plainToken : String) (use : Use) (rows : List AuthToken)
  /-- The row has not expired. -/
  | examining (plainToken : String) (use : Use) (row : AuthToken) (rows : List AuthToken)
  | taking (plainToken : String) (use : Use) (row : AuthToken)
  /-- It has flipped `usedAt` of the row. -/
  | taken (plainToken : String) (use : Use) (row : AuthToken)
  -- Passwords.
  | changing (userId : Id) (currentPassword newPassword : String)
  | confirming (userId : Id) (currentPassword newPassword : String) (user : User)
  | confirmed (userId : Id) (newPassword : String)
  | rewriting (userId : Id) (newPassword passwordHash : String)

namespace Errand

variable [JsString]

def start : Task → Errand
  | .register dto => .registering dto
  | .verifyEmail plainToken => .presenting plainToken .verify
  | .loginStudent email password => .loggingIn (normalise email) password
  | .loginAdmin email password => .loggingInAdmin (normalise email) password
  | .refresh payload rawToken => .refreshing payload rawToken
  | .logout payload => .leaving payload
  | .forgotPassword email => .forgetting (normalise email)
  | .resetPassword plainToken newPassword => .presenting plainToken (.reset newPassword)
  | .changePassword userId currentPassword newPassword =>
    .changing userId currentPassword newPassword

/-- Allowed for these arguments only. -/
def only (p : Prop) [Decidable p] (g : Errand) : Option Errand := if p then some g else none

/-- The phase of a place, after it has looked at the clock. -/
def seen (now : Time) : Errand → Option Errand
  | stored payload rawToken row =>
    some (if row.expiresAt < now then .idle
      else if row.revokedAt ≠ none then .due payload.sub payload.type else .fresh payload rawToken row)
  | scanning plainToken use (row :: rows) =>
    some (if row.expiresAt < now then .scanning plainToken use rows
      else .examining plainToken use row rows)
  | idle => some .idle
  | matched payload row => some (.matched payload row)
  | entitled origin subjectId type => some (.entitled origin subjectId type)
  | minted origin subjectId type id => some (.minted origin subjectId type id)
  | due subjectId type => some (.due subjectId type)
  | leaving payload => some (.leaving payload)
  | issuing userId purpose => some (.issuing userId purpose)
  | hashed userId purpose plainToken tokenHash => some (.hashed userId purpose plainToken tokenHash)
  | taking plainToken use row => some (.taking plainToken use row)
  | taken plainToken use row => some (.taken plainToken use row)
  | _ => none

/-- The phase after a bcrypt hash has been made. -/
def hash (plain made : String) : Errand → Option Errand
  | unregistered dto => only (plain = dto.password) (.enrolling dto made)
  | drawn userId purpose plainToken =>
    only (plain = plainToken) (.hashed userId purpose plainToken made)
  | minted origin subjectId type id => some (.minted origin subjectId type id)
  | taken _ (.reset newPassword) row =>
    only (plain = newPassword) (.rewriting row.userId newPassword made)
  | confirmed userId newPassword => only (plain = newPassword) (.rewriting userId newPassword made)
  | _ => none

/-- The phase after a bcrypt comparison. -/
def compare (plain hash : String) (ok : Bool) : Errand → Option Errand
  | idle => some .idle
  | knows user password => only (plain = password ∧ hash = user.passwordHash)
      (if ok = true ∧ user.emailVerified = true then .entitled .login user.id .student else .idle)
  | knowsAdmin admin password => only (plain = password ∧ hash = admin.passwordHash)
      (if ok = true then .entitled .login admin.id .admin else .idle)
  | fresh payload rawToken row => only (plain = rawToken ∧ hash = row.tokenHash)
      (if ok = true then .matched payload row else .idle)
  | examining plainToken use row rows => only (plain = plainToken ∧ hash = row.tokenHash)
      (if ok = true then .taking plainToken use row else .scanning plainToken use rows)
  | confirming userId currentPassword newPassword user =>
    only (plain = currentPassword ∧ hash = user.passwordHash)
      (if ok = true then .confirmed userId newPassword else .idle)
  | _ => none

def nextOk (g : Errand) : (c : Call) → Resp c → Option Errand
  | .now, now => g.seen now
  | .randomBytes, plain =>
    match g with
    | drawing userId purpose => some (.drawn userId purpose plain)
    | _ => none
  | .bcryptHash plain, made => g.hash plain made
  | .bcryptCompare plain hash, ok => g.compare plain hash ok
  | .usersFindByEmail email, user? =>
    match g with
    | loggingIn email' password => only (email = email')
        (match user?.filter (·.active) with
          | some user => .knows user password
          | none => .idle)
    | registering dto => only (email = normalise dto.email)
        (if user?.isSome then .idle else .unregistered dto)
    | forgetting email' => only (email = email')
        (match user?.filter (·.active) with
          | some user => .issuing user.id .passwordReset
          | none => .idle)
    | _ => none
  | .usersFindById id, user? =>
    match g with
    | exchanged payload => only (id = payload.sub ∧ payload.type = .student)
        (match user?.filter (·.active) with
          | some user => .entitled (.refresh payload) user.id .student
          | none => .idle)
    | changing userId currentPassword newPassword => only (id = userId)
        (match user?.filter (·.active) with
          | some user => .confirming userId currentPassword newPassword user
          | none => .idle)
    | _ => none
  | .usersSave row, user =>
    match g with
    | enrolling dto passwordHash =>
      only (row.passwordHash = passwordHash ∧ row.email = normalise dto.email ∧
          row.emailVerified = false)
        (.issuing user.id .emailVerification)
    | _ => none
  | .usersUpdatePassword id passwordHash, _ =>
    match g with
    | rewriting userId _ passwordHash' =>
      only (id = userId ∧ passwordHash = passwordHash') (.due userId .student)
    | _ => none
  | .usersUpdateVerified id _, _ =>
    match g with
    | taken _ .verify row => only (id = row.userId) .idle
    | _ => none
  | .adminsFindByEmail email, admin? =>
    match g with
    | loggingInAdmin email' password => only (email = email')
        (match admin?.filter (·.active) with
          | some admin => .knowsAdmin admin password
          | none => .idle)
    | _ => none
  | .adminsFindById id, admin? =>
    match g with
    | exchanged payload => only (id = payload.sub ∧ payload.type = .admin)
        (match admin?.filter (·.active) with
          | some admin => .entitled (.refresh payload) admin.id .admin
          | none => .idle)
    | _ => none
  | .refreshTokensFindOne id, row? =>
    match g with
    | refreshing payload rawToken => only (id = payload.jti)
        (match row? with
          | some row => .stored payload rawToken row
          | none => .idle)
    | _ => none
  | .refreshTokensSave row, inserted =>
    match g with
    | entitled origin subjectId type =>
      only (row.owner = some (subjectId, type) ∧ row.revokedAt = none)
        (.minted origin subjectId type inserted.id)
    | _ => none
  | .refreshTokensUpdateHash id _, _ =>
    match g with
    | minted origin subjectId type id' => only (id = id') (.signedIn origin subjectId type)
    | _ => none
  | .refreshTokensRevoke id _, affected =>
    match g with
    | matched payload row => only (id = row.id)
        (if affected = 1 then .exchanged payload else .due payload.sub payload.type)
    | leaving payload => only (id = payload.jti) .idle
    | _ => none
  | .refreshTokensRevokeAll subjectId type _, _ =>
    match g with
    | due subjectId' type' => only (subjectId = subjectId' ∧ type = type') .idle
    | _ => none
  | .authTokensFind purpose, rows =>
    match g with
    | presenting plainToken use => only (purpose = use.purpose) (.scanning plainToken use rows)
    | _ => none
  | .authTokensUse id _, affected =>
    match g with
    | taking plainToken use row => only (id = row.id)
        (if affected = 0 then .idle else .taken plainToken use row)
    | _ => none
  | .authTokensUseAll userId purpose _, _ =>
    match g with
    | issuing userId' purpose' =>
      only (userId = userId' ∧ purpose = purpose') (.drawing userId purpose)
    | _ => none
  | .authTokensSave row, _ =>
    match g with
    | hashed userId purpose plainToken tokenHash =>
      only (row.userId = userId ∧ row.purpose = purpose ∧ row.tokenHash = tokenHash ∧
          row.usedAt = none)
        (.mailing plainToken)
    | _ => none
  | .sgMailSend mail, _ =>
    match g with
    | mailing plainToken => only (mail.token = plainToken) .idle
    | _ => none

/-- A session is returned by a call that has minted its token. -/
def final (r : Except Err Reply) (g : Errand) : Prop :=
  ∀ login refreshToken, r = .ok (.session login refreshToken) →
    ∃ origin subjectId type, g = .signedIn origin subjectId type

end Errand

/-- A call that has rejected leaves nothing to write. -/
def errand [JsString] : Monitor Call Resp Err Reply Task Errand where
  start := Errand.start
  next := Errand.nextOk
  failed _ _ := .idle
  final := Errand.final

@[simp] theorem errand_start [JsString] : errand.start = Errand.start := rfl

@[simp] theorem errand_next [JsString] : errand.next = Errand.nextOk := rfl

@[simp] theorem errand_failed [JsString] (g : Errand) (c : Call) : errand.failed g c = .idle := rfl

/-! ## Every call keeps to its phases -/

section

open AuthService Errand

variable [JsString]

/-- The program ends in a phase of `Q`, unless it throws. -/
abbrev Runs {α : Type} (p : Promise α) (g : Errand) (Q : α → Errand → Prop) : Prop :=
  errand.wp p g Q fun _ _ => True

theorem runs_bind {α β : Type} {p : Promise α} {f : α → Promise β} {g : Errand}
    {Q : β → Errand → Prop} (Q₀ : α → Errand → Prop) (hp : Runs p g Q₀)
    (hf : ∀ a g, Q₀ a g → Runs (f a) g Q) : Runs (p >>= f) g Q :=
  (errand.wp_bind _).mpr (errand.wp_mono hp hf fun _ _ _ => trivial)

/-- One call, and what comes after it. -/
theorem runs_call {β : Type} {c : Call} {f : Resp c → Promise β} {g : Errand}
    {Q : β → Errand → Prop} (h : ∀ a, ∃ g', g.nextOk c a = some g' ∧ Runs (f a) g' Q) :
    Runs (await c >>= f) g Q :=
  (errand.wp_bind _).mpr ((errand.wp_await c).mpr ⟨h, fun _ => trivial⟩)

theorem runs_await {c : Call} {g : Errand} {Q : Resp c → Errand → Prop}
    (h : ∀ a, ∃ g', g.nextOk c a = some g' ∧ Q a g') : Runs (await c) g Q :=
  (errand.wp_await c).mpr ⟨h, fun _ => trivial⟩

omit [JsString] in
theorem only_self {p : Prop} [Decidable p] (g : Errand) (hp : p) : only p g = some g :=
  if_pos hp

theorem signAccess_runs [Jwt] [AuthConfig] {origin : Origin} {subjectId : Id} {type : AccountType}
    (payload : AccessTokenPayload) : Runs (signAccess payload) (.entitled origin subjectId type)
      fun _ g => g = .entitled origin subjectId type := by
  apply runs_call
  exact fun iat => ⟨_, rfl, rfl⟩

theorem issueRefreshToken_runs [Jwt] [AuthConfig] {origin : Origin} (subjectId : Id)
    (type : AccountType) : Runs (issueRefreshToken subjectId type) (.entitled origin subjectId type)
      fun _ g => g = .signedIn origin subjectId type := by
  apply runs_call
  refine fun now => ⟨_, rfl, ?_⟩
  apply runs_call
  refine fun inserted => ⟨_, only_self _ ?_, ?_⟩
  · cases type <;> exact ⟨rfl, rfl⟩
  · apply runs_call
    refine fun iat => ⟨_, rfl, ?_⟩
    apply runs_call
    refine fun tokenHash => ⟨_, rfl, ?_⟩
    apply runs_call
    exact fun _ => ⟨_, only_self _ rfl, rfl⟩

theorem issueStudentSession_runs [Jwt] [AuthConfig] {origin : Origin} (user : User) :
    Runs (issueStudentSession user) (.entitled origin user.id .student)
      fun _ g => g = .signedIn origin user.id .student := by
  apply runs_bind _ (signAccess_runs _)
  rintro accessToken _ rfl
  apply runs_bind _ (issueRefreshToken_runs user.id .student)
  rintro refreshToken _ rfl
  rfl

theorem issueAdminSession_runs [Jwt] [AuthConfig] {origin : Origin} (admin : AdminUser) :
    Runs (issueAdminSession admin) (.entitled origin admin.id .admin)
      fun _ g => g = .signedIn origin admin.id .admin := by
  apply runs_bind _ (signAccess_runs _)
  rintro accessToken _ rfl
  apply runs_bind _ (issueRefreshToken_runs admin.id .admin)
  rintro refreshToken _ rfl
  rfl

theorem revokeAllRefreshTokens_runs (subjectId : Id) (type : AccountType) :
    Runs (revokeAllRefreshTokens subjectId type) (.due subjectId type) fun _ g => g = .idle := by
  apply runs_call
  refine fun now => ⟨_, rfl, ?_⟩
  apply runs_await
  exact fun _ => ⟨_, only_self _ ⟨rfl, rfl⟩, rfl⟩

/-- A session belongs to a call that has minted its token. -/
abbrev SignsIn (p : Promise (LoginResponse × String)) (g : Errand) : Prop :=
  Runs p g fun _ g => ∃ origin subjectId type, g = .signedIn origin subjectId type

theorem loginStudent_runs [Jwt] [AuthConfig] (email password : String) :
    SignsIn (loginStudent email password) (.loggingIn (normalise email) password) := by
  apply runs_call
  refine fun user? => ⟨_, only_self _ rfl, ?_⟩
  cases user?.filter (·.active) with
  | none =>
    apply runs_call
    exact fun _ => ⟨_, rfl, trivial⟩
  | some user =>
    apply runs_call
    refine fun ok => ⟨_, only_self _ ⟨rfl, rfl⟩, ?_⟩
    cases ok with
    | false => trivial
    | true =>
      cases user.emailVerified with
      | false => trivial
      | true =>
        exact errand.wp_mono (issueStudentSession_runs user)
          (by rintro _ _ rfl; exact ⟨_, _, _, rfl⟩) fun _ _ h => h

theorem loginAdmin_runs [Jwt] [AuthConfig] (email password : String) :
    SignsIn (loginAdmin email password) (.loggingInAdmin (normalise email) password) := by
  apply runs_call
  refine fun admin? => ⟨_, only_self _ rfl, ?_⟩
  cases admin?.filter (·.active) with
  | none =>
    apply runs_call
    exact fun _ => ⟨_, rfl, trivial⟩
  | some admin =>
    apply runs_call
    refine fun ok => ⟨_, only_self _ ⟨rfl, rfl⟩, ?_⟩
    cases ok with
    | false => trivial
    | true =>
      exact errand.wp_mono (issueAdminSession_runs admin)
        (by rintro _ _ rfl; exact ⟨_, _, _, rfl⟩) fun _ _ h => h

theorem endSessions_runs {α : Type} {Q : α → Errand → Prop} (payload : RefreshTokenPayload) :
    Runs (endSessions payload) (.due payload.sub payload.type) Q := by
  apply runs_bind _ (revokeAllRefreshTokens_runs _ _)
  intro _ _ _
  trivial

theorem refresh_runs [Jwt] [AuthConfig] (payload : RefreshTokenPayload) (rawToken : String) :
    SignsIn (refresh payload rawToken) (.refreshing payload rawToken) := by
  apply runs_call
  refine fun stored? => ⟨_, only_self _ rfl, ?_⟩
  cases stored? with
  | none => trivial
  | some stored =>
    apply runs_call
    refine fun now => ⟨_, rfl, ?_⟩
    by_cases hexpired : stored.expiresAt < now
    · simp only [hexpired, if_true]
      trivial
    · by_cases hrevoked : stored.revokedAt ≠ none
      · simp only [hexpired, if_false, if_pos hrevoked]
        exact endSessions_runs payload
      · simp only [hexpired, if_false, if_neg hrevoked]
        apply runs_call
        refine fun ok => ⟨_, only_self _ ⟨rfl, rfl⟩, ?_⟩
        cases ok with
        | false => trivial
        | true =>
          apply runs_call
          refine fun revokedAt => ⟨_, rfl, ?_⟩
          apply runs_call
          refine fun affected => ⟨_, only_self _ rfl, ?_⟩
          by_cases hone : affected = 1
          · subst hone
            simp only [ne_eq, not_true, if_false, if_true]
            cases htype : payload.type with
            | admin =>
              apply runs_call
              refine fun admin? => ⟨_, only_self _ ⟨rfl, htype⟩, ?_⟩
              cases admin?.filter (·.active) with
              | none => trivial
              | some admin =>
                exact errand.wp_mono (issueAdminSession_runs admin)
                  (by rintro _ _ rfl; exact ⟨_, _, _, rfl⟩) fun _ _ h => h
            | student =>
              apply runs_call
              refine fun user? => ⟨_, only_self _ ⟨rfl, htype⟩, ?_⟩
              cases user?.filter (·.active) with
              | none => trivial
              | some user =>
                exact errand.wp_mono (issueStudentSession_runs user)
                  (by rintro _ _ rfl; exact ⟨_, _, _, rfl⟩) fun _ _ h => h
          · simp only [ne_eq, hone, not_false_eq_true, if_true, if_false]
            exact endSessions_runs payload

/-- A call that returns something other than a session. -/
abbrev Completes {α : Type} (p : Promise α) (g : Errand) : Prop := Runs p g fun _ _ => True

theorem logout_runs (payload : RefreshTokenPayload) : Completes (logout payload) (.leaving payload) := by
  apply runs_call
  refine fun revokedAt => ⟨_, rfl, ?_⟩
  apply runs_call
  exact fun affected => ⟨_, only_self _ rfl, trivial⟩

theorem issueAuthToken_runs (userId : Id) (purpose : AuthTokenPurpose) (ttlHours : Int) :
    Runs (issueAuthToken userId purpose ttlHours) (.issuing userId purpose)
      fun plainToken g => g = .mailing plainToken := by
  apply runs_call
  refine fun usedAt => ⟨_, rfl, ?_⟩
  apply runs_call
  refine fun _ => ⟨_, only_self _ ⟨rfl, rfl⟩, ?_⟩
  apply runs_call
  refine fun plainToken => ⟨_, rfl, ?_⟩
  apply runs_call
  refine fun tokenHash => ⟨_, only_self _ rfl, ?_⟩
  apply runs_call
  refine fun now => ⟨_, rfl, ?_⟩
  apply runs_call
  exact fun _ => ⟨_, only_self _ ⟨rfl, rfl, rfl, rfl⟩, rfl⟩

theorem send_runs [AuthConfig] (mail : Mail) :
    Completes (MailService.send mail) (.mailing mail.token) := by
  unfold MailService.send
  split
  · refine (errand.wp_handle _).mpr ((errand.wp_await _).mpr ⟨fun _ => ?_, fun _ => trivial⟩)
    exact ⟨_, only_self _ rfl, trivial⟩
  · trivial

theorem register_runs [AuthConfig] (dto : RegisterDto) : Completes (register dto) (.registering dto) := by
  apply runs_call
  refine fun existing => ⟨_, only_self _ rfl, ?_⟩
  cases existing with
  | some user => trivial
  | none =>
    apply runs_call
    refine fun passwordHash => ⟨_, only_self _ rfl, ?_⟩
    apply runs_call
    refine fun user => ⟨_, only_self _ ⟨rfl, rfl, rfl⟩, ?_⟩
    apply runs_bind (fun _ _ => True)
    · apply runs_bind _ (issueAuthToken_runs user.id .emailVerification _)
      rintro plainToken _ rfl
      exact send_runs (.verification _ _ plainToken)
    · intros
      trivial

theorem forgotPassword_runs [AuthConfig] (email : String) :
    Completes (forgotPassword email) (.forgetting (normalise email)) := by
  apply runs_call
  refine fun user? => ⟨_, only_self _ rfl, ?_⟩
  cases user?.filter (·.active) with
  | none => trivial
  | some user =>
    apply runs_bind _ (issueAuthToken_runs user.id .passwordReset _)
    rintro plainToken _ rfl
    apply runs_bind _ (send_runs (.passwordReset _ _ plainToken))
    intros
    trivial

/-- The loop over the candidates, and the row that it takes. -/
theorem consumeFirst_runs (plainToken : String) (use : Use) (rows : List AuthToken) :
    Runs (consumeFirst plainToken rows) (.scanning plainToken use rows)
      fun userId g => ∃ row, g = .taken plainToken use row ∧ row.userId = userId := by
  induction rows with
  | nil => trivial
  | cons row rows ih =>
    apply runs_call
    refine fun now => ⟨_, rfl, ?_⟩
    by_cases hexpired : row.expiresAt < now
    · simp only [hexpired, if_true]
      exact ih
    · simp only [hexpired, if_false]
      apply runs_call
      refine fun ok => ⟨_, only_self _ ⟨rfl, rfl⟩, ?_⟩
      cases ok with
      | false => exact ih
      | true =>
        apply runs_call
        refine fun usedAt => ⟨_, rfl, ?_⟩
        apply runs_call
        refine fun affected => ⟨_, only_self _ rfl, ?_⟩
        by_cases hzero : affected = 0
        · simp only [hzero, if_true]
          trivial
        · simp only [hzero, if_false]
          exact ⟨row, rfl, rfl⟩

theorem consumeAuthToken_runs (plainToken : String) (use : Use) :
    Runs (consumeAuthToken plainToken use.purpose) (.presenting plainToken use)
      fun userId g => ∃ row, g = .taken plainToken use row ∧ row.userId = userId := by
  apply runs_call
  exact fun rows => ⟨_, only_self _ rfl, consumeFirst_runs plainToken use rows⟩

theorem verifyEmail_runs (plainToken : String) :
    Completes (verifyEmail plainToken) (.presenting plainToken .verify) := by
  apply runs_bind _ (consumeAuthToken_runs plainToken .verify)
  rintro _ _ ⟨row, rfl, rfl⟩
  apply runs_call
  refine fun now => ⟨_, rfl, ?_⟩
  apply runs_call
  exact fun _ => ⟨_, only_self _ rfl, trivial⟩

theorem resetPassword_runs (plainToken newPassword : String) :
    Completes (resetPassword plainToken newPassword) (.presenting plainToken (.reset newPassword)) := by
  apply runs_bind _ (consumeAuthToken_runs plainToken (.reset newPassword))
  rintro _ _ ⟨row, rfl, rfl⟩
  apply runs_call
  refine fun passwordHash => ⟨_, only_self _ rfl, ?_⟩
  apply runs_call
  refine fun _ => ⟨_, only_self _ ⟨rfl, rfl⟩, ?_⟩
  apply runs_bind _ (revokeAllRefreshTokens_runs _ _)
  intros
  trivial

theorem changePassword_runs (userId : Id) (currentPassword newPassword : String) :
    Completes (changePassword userId currentPassword newPassword)
      (.changing userId currentPassword newPassword) := by
  unfold changePassword
  split
  · trivial
  · apply runs_call
    refine fun user? => ⟨_, only_self _ rfl, ?_⟩
    cases user?.filter (·.active) with
    | none => trivial
    | some user =>
      apply runs_call
      refine fun ok => ⟨_, only_self _ ⟨rfl, rfl⟩, ?_⟩
      cases ok with
      | false => trivial
      | true =>
        apply runs_call
        refine fun passwordHash => ⟨_, only_self _ rfl, ?_⟩
        apply runs_call
        refine fun _ => ⟨_, only_self _ ⟨rfl, rfl⟩, ?_⟩
        apply runs_bind _ (revokeAllRefreshTokens_runs _ _)
        intros
        trivial

theorem errand_sound [Bcrypt] [Jwt] [AuthConfig] : errand.Sound authSystem := by
  intro t
  change errand.Keeps t.prog (Errand.start t)
  -- A call that returns no session ends in any phase.
  have hother : ∀ {α : Type} {p : Promise α} {g : Errand} (f : α → Reply),
      (∀ a login refreshToken, f a ≠ .session login refreshToken) → Completes p g →
      errand.Keeps (p >>= fun a => pure (f a)) g := by
    intro α p g f hf hp
    refine errand.wp_mono (runs_bind (Q := fun r g => errand.final (.ok r) g) _ hp ?_)
      (fun _ _ h => h) ?_
    · intro a g' _ login refreshToken heq
      exact absurd (Except.ok.inj heq) (hf a login refreshToken)
    · intro e g' _ login refreshToken heq
      cases heq
  have hsession : ∀ {p : Promise (LoginResponse × String)} {g : Errand}, SignsIn p g →
      errand.Keeps (p >>= fun a => pure (.session a.1 a.2)) g := by
    intro p g hp
    refine errand.wp_mono (runs_bind (Q := fun r g => errand.final (.ok r) g) _ hp ?_)
      (fun _ _ h => h) ?_
    · intro a g' hsigned login refreshToken _
      exact hsigned
    · intro e g' _ login refreshToken heq
      cases heq
  cases t with
  | register dto =>
    exact hother (fun r : Id × String => .registered r.1 r.2) (by simp) (register_runs dto)
  | verifyEmail plainToken => exact hother .message (by simp) (verifyEmail_runs plainToken)
  | loginStudent email password => exact hsession (loginStudent_runs email password)
  | loginAdmin email password => exact hsession (loginAdmin_runs email password)
  | refresh payload rawToken => exact hsession (refresh_runs payload rawToken)
  | logout payload => exact hother .message (by simp) (logout_runs payload)
  | forgotPassword email => exact hother .message (by simp) (forgotPassword_runs email)
  | resetPassword plainToken newPassword =>
    exact hother .message (by simp) (resetPassword_runs plainToken newPassword)
  | changePassword userId currentPassword newPassword =>
    exact hother .message (by simp) (changePassword_runs userId currentPassword newPassword)

end

end LmsBackend.Auth
