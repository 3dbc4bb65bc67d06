import LmsBackend.Auth.World

/-! # `AuthService` and `MailService`

Every `await` of the source is a call here, in its order, and so is every look
at the clock. Log lines are left out.
-/

open Async Store

namespace LmsBackend.Auth

/-- An async function of the account code. -/
abbrev Promise := Prog Call Resp Err

def await (c : Call) : Promise (Resp c) := Prog.await c

/-- `email.trim().toLowerCase()` -/
def normalise [JsString] (email : String) : String := JsString.toLowerCase (JsString.trim email)

/-! ## `MailService` -/

/-- Outside of production the email is only logged. A send that fails is logged as well. -/
def MailService.send [AuthConfig] (mail : Mail) : Promise Unit :=
  if AuthConfig.isProd then tryCatch (await (.sgMailSend mail)) fun _ => pure () else pure ()

/-! ## `AuthService` -/

structure AuthUserResponse where
  id : Id
  email : String
  firstName : String
  lastName : String
  fullName : String
  locale : String
  emailVerified : Bool
  type : AccountType
  role : Option AdminRole
  deriving DecidableEq, Repr

structure LoginResponse where
  accessToken : String
  expiresIn : Int
  user : AuthUserResponse
  deriving DecidableEq, Repr

structure RegisterDto where
  email : String
  password : String
  firstName : String
  lastName : String
  contact : Contact
  locale : Option String
  deriving DecidableEq, Repr

namespace AuthService

def emailVerificationTtlHours : Int := 24
def passwordResetTtlHours : Int := 1

/-! ### Tokens -/

def signAccess [Jwt] [AuthConfig] (payload : AccessTokenPayload) : Promise String := do
  let iat ← await .now
  pure (Jwt.sign (.access payload) AuthConfig.jwtSecret AuthConfig.accessTtlSec iat)

/-- Issues a refresh token. The row gets its hash in a statement of its own. -/
def issueRefreshToken [Jwt] [AuthConfig] (subjectId : Id) (type : AccountType) : Promise String := do
  let now ← await .now
  let expiresAt := now + AuthConfig.refreshTtlSec * 1000
  let inserted ← await (.refreshTokensSave
    { id := 0, ownerType := if type = .admin then .admin else .user,
      userId := if type = .student then some subjectId else none,
      adminId := if type = .admin then some subjectId else none,
      tokenHash := "pending", expiresAt := expiresAt, revokedAt := none })
  let iat ← await .now
  let jwtToken := Jwt.sign (.refresh ⟨subjectId, type, inserted.id⟩) AuthConfig.jwtRefreshSecret
    AuthConfig.refreshTtlSec iat
  let tokenHash ← await (.bcryptHash jwtToken)
  await (.refreshTokensUpdateHash inserted.id tokenHash)
  pure jwtToken

def revokeAllRefreshTokens (subjectId : Id) (type : AccountType) : Promise Unit := do
  let now ← await .now
  await (.refreshTokensRevokeAll subjectId type now)

def issueAuthToken (userId : Id) (purpose : AuthTokenPurpose) (ttlHours : Int) : Promise String := do
  let usedAt ← await .now
  await (.authTokensUseAll userId purpose usedAt)
  let plainToken ← await .randomBytes
  let tokenHash ← await (.bcryptHash plainToken)
  let now ← await .now
  let expiresAt := now + ttlHours * 60 * 60 * 1000
  let _ ← await (.authTokensSave ⟨0, userId, purpose, tokenHash, expiresAt, none⟩)
  pure plainToken

/-- The loop over the candidates. -/
def consumeFirst (plainToken : String) : List AuthToken → Promise Id
  | [] => throw (.badRequest "Token invalid or expired")
  | row :: rest => do
    let now ← await .now
    if row.expiresAt < now then consumeFirst plainToken rest
    else
      let matched ← await (.bcryptCompare plainToken row.tokenHash)
      if matched then
        let usedAt ← await .now
        let affected ← await (.authTokensUse row.id usedAt)
        if affected = 0 then throw (.badRequest "Token invalid or already used")
        else pure row.userId
      else consumeFirst plainToken rest

/-- Validates a plain token against the unused tokens of the purpose and marks its row used. -/
def consumeAuthToken (plainToken : String) (purpose : AuthTokenPurpose) : Promise Id := do
  let candidates ← await (.authTokensFind purpose)
  consumeFirst plainToken candidates

/-! ### Sessions -/

def issueStudentSession [Jwt] [JsString] [AuthConfig] (user : User) :
    Promise (LoginResponse × String) := do
  let accessToken ← signAccess
    ⟨some user.id, some .student, some user.email, some user.locale, none⟩
  let refreshToken ← issueRefreshToken user.id .student
  pure (⟨accessToken, AuthConfig.accessTtlSec,
    ⟨user.id, user.email, user.firstName, user.lastName, fullName user.firstName user.lastName,
      user.locale, user.emailVerified, .student, none⟩⟩, refreshToken)

def issueAdminSession [Jwt] [JsString] [AuthConfig] (admin : AdminUser) :
    Promise (LoginResponse × String) := do
  let accessToken ← signAccess
    ⟨some admin.id, some .admin, some admin.email, some "en", some admin.role.text⟩
  let refreshToken ← issueRefreshToken admin.id .admin
  pure (⟨accessToken, AuthConfig.accessTtlSec,
    ⟨admin.id, admin.email, admin.firstName, admin.lastName,
      fullName admin.firstName admin.lastName, "en", true, .admin, some admin.role⟩⟩, refreshToken)

/-- What is compared when there is no account. -/
def dummyHash : String := "$2b$12$dummyhashtoslowdownbruteforceattempts"

def invalidCredentials : Err := .unauthorized "Invalid credentials"

def loginStudent [Jwt] [JsString] [AuthConfig] (email password : String) :
    Promise (LoginResponse × String) := do
  let user? ← await (.usersFindByEmail (normalise email))
  match user?.filter (·.active) with
  | none =>
    let _ ← await (.bcryptCompare password dummyHash)
    throw invalidCredentials
  | some user =>
    let ok ← await (.bcryptCompare password user.passwordHash)
    if !ok then throw invalidCredentials
    else if !user.emailVerified then
      throw (.unauthorized "Email not verified. Check your inbox.")
    else issueStudentSession user

def loginAdmin [Jwt] [JsString] [AuthConfig] (email password : String) :
    Promise (LoginResponse × String) := do
  let admin? ← await (.adminsFindByEmail (normalise email))
  match admin?.filter (·.active) with
  | none =>
    let _ ← await (.bcryptCompare password dummyHash)
    throw invalidCredentials
  | some admin =>
    let ok ← await (.bcryptCompare password admin.passwordHash)
    if !ok then throw invalidCredentials
    else issueAdminSession admin

/-! ### Refresh rotation -/

/-- The refresh token was used before: all sessions of the account end. -/
def endSessions {α : Type} (payload : RefreshTokenPayload) : Promise α := do
  revokeAllRefreshTokens payload.sub payload.type
  throw (.unauthorized "Session invalidated. Please log in again.")

def refresh [Jwt] [JsString] [AuthConfig] (payload : RefreshTokenPayload) (rawToken : String) :
    Promise (LoginResponse × String) := do
  let stored? ← await (.refreshTokensFindOne payload.jti)
  match stored? with
  | none => throw (.unauthorized "Refresh token invalid or expired")
  | some stored =>
    let now ← await .now
    if stored.expiresAt < now then throw (.unauthorized "Refresh token invalid or expired")
    else if stored.revokedAt ≠ none then endSessions payload
    else
      let matchesHash ← await (.bcryptCompare rawToken stored.tokenHash)
      if !matchesHash then throw (.unauthorized "Refresh token invalid")
      else
        -- First writer wins: only the request that flips `revokedAt` may mint new tokens.
        let revokedAt ← await .now
        let affected ← await (.refreshTokensRevoke stored.id revokedAt)
        if affected ≠ 1 then endSessions payload
        else if payload.type = .admin then
          let admin? ← await (.adminsFindById payload.sub)
          match admin?.filter (·.active) with
          | none => throw (.unauthorized "Account is inactive")
          | some admin => issueAdminSession admin
        else
          let user? ← await (.usersFindById payload.sub)
          match user?.filter (·.active) with
          | none => throw (.unauthorized "Account is inactive")
          | some user => issueStudentSession user

def logout (payload : RefreshTokenPayload) : Promise String := do
  let revokedAt ← await .now
  let _ ← await (.refreshTokensRevoke payload.jti revokedAt)
  pure "Logged out"

/-! ### Registration and emails -/

def dispatchVerificationEmail [JsString] [AuthConfig] (user : User) : Promise Unit := do
  let plainToken ← issueAuthToken user.id .emailVerification emailVerificationTtlHours
  MailService.send
    (.verification user.email (fullName user.firstName user.lastName) plainToken)

def register [JsString] [AuthConfig] (dto : RegisterDto) : Promise (Id × String) := do
  let normalisedEmail := normalise dto.email
  let existing ← await (.usersFindByEmail normalisedEmail)
  if existing.isSome then throw (.conflict "Email is unavailable")
  else
    let passwordHash ← await (.bcryptHash dto.password)
    let user ← await (.usersSave
      { id := "", email := normalisedEmail, passwordHash := passwordHash,
        firstName := dto.firstName, lastName := dto.lastName, contact := dto.contact,
        locale := dto.locale.getD "en", emailVerified := false, emailVerifiedAt := none,
        active := true })
    dispatchVerificationEmail user
    pure (user.id, "Registration successful. Check your email to verify your account.")

def verifyEmail (plainToken : String) : Promise String := do
  let userId ← consumeAuthToken plainToken .emailVerification
  let now ← await .now
  await (.usersUpdateVerified userId now)
  pure "Email verified. You can now log in."

def forgotPassword [JsString] [AuthConfig] (email : String) : Promise String := do
  let user? ← await (.usersFindByEmail (normalise email))
  match user?.filter (·.active) with
  | none => pure ()
  | some user =>
    let plainToken ← issueAuthToken user.id .passwordReset passwordResetTtlHours
    MailService.send
      (.passwordReset user.email (fullName user.firstName user.lastName) plainToken)
  pure "If an account exists for that email, a reset link has been sent."

/-! ### Passwords -/

def resetPassword (plainToken newPassword : String) : Promise String := do
  let userId ← consumeAuthToken plainToken .passwordReset
  let passwordHash ← await (.bcryptHash newPassword)
  await (.usersUpdatePassword userId passwordHash)
  revokeAllRefreshTokens userId .student
  pure "Password reset successful. Please log in."

/-- Like `resetPassword`, but the gate is the current password. -/
def changePassword (userId : Id) (currentPassword newPassword : String) : Promise String := do
  if currentPassword = newPassword then
    throw (.badRequest "New password must be different from current password")
  else
    let user? ← await (.usersFindById userId)
    match user?.filter (·.active) with
    | none => throw invalidCredentials
    | some user =>
      let ok ← await (.bcryptCompare currentPassword user.passwordHash)
      if !ok then throw invalidCredentials
      else
        let passwordHash ← await (.bcryptHash newPassword)
        await (.usersUpdatePassword userId passwordHash)
        revokeAllRefreshTokens userId .student
        pure ("Password changed. All active sessions have been signed out " ++
          "— please log in again.")

end AuthService

end LmsBackend.Auth
