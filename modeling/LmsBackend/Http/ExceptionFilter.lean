import Mathlib.Data.List.Basic

/-!
# `GlobalExceptionFilter`

Every exception that a request throws becomes a problem document (RFC 7807).
-/

namespace LmsBackend.Http

/-! ## Codes -/

/-- The registry of every error code that the API can emit. -/
inductive ErrorCode where
  | validationFailed
  | invalidLocale
  | invalidCredentials
  | jwtExpired
  | jwtInvalid
  | refreshTokenReused
  | refreshTokenInvalid
  | emailNotVerified
  | accountDisabled
  | insufficientRole
  | ownershipViolation
  | resourceNotFound
  | resourceAlreadyExists
  | emailAlreadyRegistered
  | rateLimited
  | internal
  deriving DecidableEq, Repr

def ErrorCode.text : ErrorCode → String
  | validationFailed => "VALIDATION_FAILED"
  | invalidLocale => "INVALID_LOCALE"
  | invalidCredentials => "INVALID_CREDENTIALS"
  | jwtExpired => "JWT_EXPIRED"
  | jwtInvalid => "JWT_INVALID"
  | refreshTokenReused => "REFRESH_TOKEN_REUSED"
  | refreshTokenInvalid => "REFRESH_TOKEN_INVALID"
  | emailNotVerified => "EMAIL_NOT_VERIFIED"
  | accountDisabled => "ACCOUNT_DISABLED"
  | insufficientRole => "INSUFFICIENT_ROLE"
  | ownershipViolation => "OWNERSHIP_VIOLATION"
  | resourceNotFound => "RESOURCE_NOT_FOUND"
  | resourceAlreadyExists => "RESOURCE_ALREADY_EXISTS"
  | emailAlreadyRegistered => "EMAIL_ALREADY_REGISTERED"
  | rateLimited => "RATE_LIMITED"
  | internal => "INTERNAL"

/-- `code.toLowerCase().replace(/_/g, '-')`. The codes are ASCII. -/
def codeToSlug (code : String) : String :=
  String.ofList (code.toList.map fun ch => if ch = '_' then '-' else ch.toLower)

/-! ## Exceptions -/

structure ValidationErrorItem where
  field : String
  code : String
  message : String
  constraints : Option (List (String × String))
  deriving DecidableEq, Repr

/-- An interpolation value. -/
inductive Arg where
  | text (s : String)
  | number (n : Int)
  deriving DecidableEq, Repr

/-- The classes of `common/errors/codes`. -/
inductive AppException where
  | invalidCredentials
  | jwtExpired
  | jwtInvalid
  | refreshTokenReused
  | refreshTokenInvalid
  | emailNotVerified
  | accountDisabled
  | insufficientRole (required : List String)
  | ownershipViolation (resource : String)
  | resourceNotFound (resource : String) (identifier : Option Arg)
  | resourceAlreadyExists (resource : String)
  | emailAlreadyRegistered
  | rateLimited (retryAfterSeconds : Int)
  | internalServer
  | validationFailed (errors : List ValidationErrorItem)
  | invalidLocale (requested : String)
  deriving DecidableEq, Repr

namespace AppException

def status : AppException → Nat
  | invalidCredentials | jwtExpired | jwtInvalid | refreshTokenReused | refreshTokenInvalid
  | emailNotVerified | accountDisabled => 401
  | insufficientRole _ | ownershipViolation _ => 403
  | resourceNotFound _ _ => 404
  | resourceAlreadyExists _ | emailAlreadyRegistered => 409
  | rateLimited _ => 429
  | internalServer => 500
  | validationFailed _ | invalidLocale _ => 400

def code : AppException → ErrorCode
  | invalidCredentials => .invalidCredentials
  | jwtExpired => .jwtExpired
  | jwtInvalid => .jwtInvalid
  | refreshTokenReused => .refreshTokenReused
  | refreshTokenInvalid => .refreshTokenInvalid
  | emailNotVerified => .emailNotVerified
  | accountDisabled => .accountDisabled
  | insufficientRole _ => .insufficientRole
  | ownershipViolation _ => .ownershipViolation
  | resourceNotFound _ _ => .resourceNotFound
  | resourceAlreadyExists _ => .resourceAlreadyExists
  | emailAlreadyRegistered => .emailAlreadyRegistered
  | rateLimited _ => .rateLimited
  | internalServer => .internal
  | validationFailed _ => .validationFailed
  | invalidLocale _ => .invalidLocale

def i18nKey : AppException → String
  | invalidCredentials => "errors.auth.invalid_credentials"
  | jwtExpired => "errors.auth.jwt_expired"
  | jwtInvalid => "errors.auth.jwt_invalid"
  | refreshTokenReused => "errors.auth.refresh_token_reused"
  | refreshTokenInvalid => "errors.auth.refresh_token_invalid"
  | emailNotVerified => "errors.auth.email_not_verified"
  | accountDisabled => "errors.auth.account_disabled"
  | insufficientRole _ => "errors.auth.insufficient_role"
  | ownershipViolation _ => "errors.auth.ownership_violation"
  | resourceNotFound _ _ => "errors.domain.resource_not_found"
  | resourceAlreadyExists _ => "errors.domain.resource_already_exists"
  | emailAlreadyRegistered => "errors.domain.email_already_registered"
  | rateLimited _ => "errors.infrastructure.rate_limited"
  | internalServer => "errors.infrastructure.internal"
  | validationFailed _ => "errors.validation.failed"
  | invalidLocale _ => "errors.validation.invalid_locale"

def i18nArgs : AppException → List (String × Arg)
  | insufficientRole required => [("required", .text (", ".intercalate required))]
  | ownershipViolation resource | resourceAlreadyExists resource => [("resource", .text resource)]
  | resourceNotFound resource identifier =>
    [("resource", .text resource), ("identifier", identifier.getD (.text ""))]
  | rateLimited retryAfterSeconds => [("retryAfterSeconds", .number retryAfterSeconds)]
  | invalidLocale requested => [("requested", .text requested)]
  | _ => []

def errors? : AppException → Option (List ValidationErrorItem)
  | validationFailed errors => some errors
  | _ => none

end AppException

/-- An entry of a message that is an array: a text, or a `ValidationError`. -/
inductive MessageEntry where
  | text (s : String)
  | failure (property : Option String) (constraints : Option (List (String × String)))
  deriving DecidableEq, Repr

inductive Message where
  | text (s : String)
  | list (entries : List MessageEntry)
  deriving DecidableEq, Repr

/-- `getResponse()` of an `HttpException`, with the fields that the filter reads. -/
inductive ResponseBody where
  | text (s : String)
  | object (message errors : Option Message)
  deriving DecidableEq, Repr

/-- What a handler throws. `message` is the one of the `Error`. -/
inductive Exception where
  | app (e : AppException)
  | badRequest (response : ResponseBody) (message : String)
  | http (status : Nat) (response : ResponseBody) (message : String)
  /-- Anything else, with its text for the log. -/
  | other (error : String)
  deriving DecidableEq, Repr

/-! ## The filter -/

structure Resolved where
  status : Nat
  code : ErrorCode
  i18nKey : String
  i18nArgs : List (String × Arg)
  rawDetail : Option String
  errors : Option (List ValidationErrorItem)
  deriving DecidableEq, Repr

/-- How `Array.prototype.join` writes an entry. -/
def MessageEntry.joined : MessageEntry → String
  | .text s => s
  | .failure _ _ => "[object Object]"

/-- The names of constraints are ASCII. -/
def MessageEntry.item : MessageEntry → ValidationErrorItem
  | .text entry => ⟨"_root", "INVALID", entry, none⟩
  | .failure property constraints =>
    let firstConstraint := constraints.bind (·.head?)
    ⟨property.getD "_root", (firstConstraint.map (·.1.toUpper)).getD "INVALID",
      (firstConstraint.map (·.2)).getD "Invalid", constraints⟩

namespace GlobalExceptionFilter

def extractRawMessage (response : ResponseBody) (fallback : String) : String :=
  match response with
  | .text s => s
  | .object (some (.text s)) _ => s
  | .object (some (.list entries)) _ => "; ".intercalate (entries.map MessageEntry.joined)
  | .object none _ => fallback

def flattenValidatorMessages : ResponseBody → List ValidationErrorItem
  | .text body => [⟨"_root", "INVALID", body, none⟩]
  | .object message errors =>
    match message.or errors with
    | some (.text raw) => [⟨"_root", "INVALID", raw, none⟩]
    | some (.list entries) => entries.map MessageEntry.item
    | none => [⟨"_root", "INVALID", "Validation failed", none⟩]

def statusToCode (status : Nat) : ErrorCode :=
  match status with
  | 401 => .jwtInvalid
  | 403 => .insufficientRole
  | 404 => .resourceNotFound
  | 409 => .resourceAlreadyExists
  | 429 => .rateLimited
  | 422 | 400 => .validationFailed
  | _ => .internal

def statusToI18nKey (status : Nat) : String :=
  match status with
  | 401 => "errors.auth.jwt_invalid"
  | 403 => "errors.auth.insufficient_role"
  | 404 => "errors.domain.resource_not_found"
  | 409 => "errors.domain.resource_already_exists"
  | 429 => "errors.infrastructure.rate_limited"
  | 422 | 400 => "errors.validation.failed"
  | _ => "errors.infrastructure.internal"

def isValidatorOutput : ResponseBody → Bool
  | .object (some (.list _)) _ => true
  | _ => false

def resolve : Exception → Resolved
  | .app e => ⟨e.status, e.code, e.i18nKey, e.i18nArgs, none, e.errors?⟩
  | .badRequest response message =>
    if isValidatorOutput response then
      ⟨400, .validationFailed, "errors.validation.failed", [], none,
        some (flattenValidatorMessages response)⟩
    else
      ⟨400, .validationFailed, "errors.validation.failed", [],
        some (extractRawMessage response message), none⟩
  | .http status response message =>
    ⟨status, statusToCode status, statusToI18nKey status, [],
      some (extractRawMessage response message), none⟩
  -- Unknown: never leak.
  | .other _ => ⟨500, .internal, "errors.infrastructure.internal", [], none, none⟩

end GlobalExceptionFilter

/-! ## The response -/

/-- `nestjs-i18n` -/
class I18nService where
  t : (key lang : String) → (args : List (String × Arg)) → String

/-- The request and what the filter takes from its surroundings. -/
structure FilterContext where
  method : String
  originalUrl : Option String
  url : String
  /-- The header `x-request-id`. -/
  requestId : Option String
  /-- `randomUUID()` -/
  uuid : String
  /-- `I18nContext.current(host)?.lang` -/
  lang : Option String
  /-- `process.env.DEFAULT_LOCALE` -/
  defaultLocale : Option String
  /-- `new Date().toISOString()` -/
  timestamp : String
  deriving DecidableEq, Repr

structure ProblemDetails where
  type : String
  title : String
  status : Nat
  detail : String
  instanceUrl : String
  code : String
  requestId : String
  errors : Option (List ValidationErrorItem)
  timestamp : String
  deriving DecidableEq, Repr

structure ErrorResponse where
  status : Nat
  contentType : String
  /-- The header `X-Request-Id`. -/
  requestId : String
  body : ProblemDetails
  deriving DecidableEq, Repr

inductive LogLevel where
  | error
  | warn
  | debug
  deriving DecidableEq, Repr

/-- `cause` is the exception whose stack the line carries. -/
structure LogLine where
  level : LogLevel
  text : String
  cause : Option Exception
  deriving DecidableEq, Repr

namespace GlobalExceptionFilter

def path (ctx : FilterContext) : String := ctx.originalUrl.getD ctx.url

def requestId (ctx : FilterContext) : String := ctx.requestId.getD ctx.uuid

/-- `catch(exception, host)` -/
def catchException [I18nService] (exception : Exception) (ctx : FilterContext) : ErrorResponse :=
  let lang := (ctx.lang.or ctx.defaultLocale).getD "en"
  let resolved := resolve exception
  let title := I18nService.t (resolved.i18nKey ++ ".title") lang resolved.i18nArgs
  let detail := resolved.rawDetail.getD
    (I18nService.t (resolved.i18nKey ++ ".detail") lang resolved.i18nArgs)
  ⟨resolved.status, "application/problem+json", requestId ctx,
    ⟨"https://ios-lms.com/errors/" ++ codeToSlug resolved.code.text, title, resolved.status, detail,
      path ctx, resolved.code.text, requestId ctx, resolved.errors, ctx.timestamp⟩⟩

def log (resolved : Resolved) (ctx : FilterContext) (exception : Exception) : LogLine :=
  let code := "[" ++ resolved.code.text ++ "] "
  if 500 ≤ resolved.status then
    ⟨.error, code ++ ctx.method ++ " " ++ path ctx ++ " (req " ++ requestId ctx ++ ")", some exception⟩
  else if resolved.code = .refreshTokenReused then
    ⟨.warn, code ++ "suspicious refresh on " ++ path ctx ++ " (req " ++ requestId ctx ++ ")", none⟩
  else if 400 ≤ resolved.status ∧ resolved.code ≠ .validationFailed then
    ⟨.warn, code ++ ctx.method ++ " " ++ path ctx, none⟩
  else ⟨.debug, code ++ ctx.method ++ " " ++ path ctx, none⟩

end GlobalExceptionFilter

end LmsBackend.Http
