import LmsBackend.Auth.System
import LmsBackend.Text.JsText

/-!
# The bodies of the password routes

Three DTOs check a new password, after `ValidationPipe` has converted the body
(`enableImplicitConversion`). The form of the server-rendered page has no DTO.
The checks of the other fields, which only refuse more, are left out.
-/

namespace LmsBackend.Auth

open Text

/-- A value in a parsed body. Nothing looks into arrays and objects. -/
inductive JsValue where
  | undefined
  | null
  | bool (b : Bool)
  | number (n : JsNumber)
  | string (s : String)
  | lone (t : LoneText)
  | array
  | object

namespace JsValue

def truthy : JsValue → Bool
  | undefined | null => false
  | bool b => b
  | number n => n.text ≠ "0"
  | string s => s ≠ ""
  | lone _ | array | object => true

/-- `isWellFormed()`, of a string. -/
def isWellFormed : JsValue → Bool
  | lone _ => false
  | _ => true

/-- `===` of two values at different places of a body. Arrays and objects are never the same. -/
def same : JsValue → JsValue → Bool
  | undefined, undefined | null, null => true
  | bool a, bool b => a = b
  | number a, number b => a.text = b.text
  | string a, string b => a = b
  | lone a, lone b => a.units = b.units
  | _, _ => false

/-- A value that is a string, in UTF-8. -/
def string? : JsValue → Option String
  | string s => some s
  | lone t => some t.text
  | _ => none

/-- The implicit conversion to `string`, in UTF-8. An array stays one, and is no string. -/
def toText : JsValue → Option String
  | bool b => some (if b then "true" else "false")
  | number n => some n.text
  | string s => some s
  | lone t => some t.text
  | object => some "[object Object]"
  | undefined | null | array => none

end JsValue

/-! ## The checks of `class-validator` -/

def isVariationSelector (ch : Char) : Bool := ch = '\uFE0E' ∨ ch = '\uFE0F'

def presentationSequences : List Char → Nat
  | a :: b :: rest =>
    (if isVariationSelector b ∧ ¬isVariationSelector a then 1 else 0) + presentationSequences (b :: rest)
  | _ => 0

/-- The length that `MinLength` and `MaxLength` compare: a surrogate pair counts once, and so does
a character with its variation selector. -/
def validatorLength (s : String) : Nat := s.length - presentationSequences s.toList

def isLineTerminator (ch : Char) : Bool := ch = '\n' ∨ ch = '\r' ∨ ch = '\u2028' ∨ ch = '\u2029'

/-- `/^(?=.*[a-z])(?=.*[A-Z])(?=.*\d)(?=.*[^A-Za-z0-9]).{8,}$/` -/
def isComplex (s : String) : Bool :=
  s.toList.all (fun ch => !isLineTerminator ch) ∧ s.toList.any Char.isLower ∧
    s.toList.any Char.isUpper ∧ s.toList.any Char.isDigit ∧ s.toList.any (fun ch => !ch.isAlphanum) ∧
    8 ≤ utf16Length s

/-- `@IsString() @MinLength(min) @MaxLength(max)`, for the value after its conversion. -/
def isText (min max : Nat) (v : JsValue) : Option String :=
  v.toText.filter fun s => min ≤ validatorLength s ∧ validatorLength s ≤ max

/-- The rules of a new password. -/
def isNewPassword (v : JsValue) : Option String := (isText 8 128 v).filter isComplex

/-! ## The DTOs -/

def RegisterDto.validatePassword (v : JsValue) : Option String := isNewPassword v

def LoginDto.validatePassword (v : JsValue) : Option String := isText 1 128 v

def VerifyEmailDto.validateToken (v : JsValue) : Option String := isText 32 128 v

namespace ResetPasswordDto

def validateToken (v : JsValue) : Option String := isText 32 128 v

def validateNewPassword (v : JsValue) : Option String := isNewPassword v

end ResetPasswordDto

namespace UpdatePasswordDto

def validateCurrentPassword (v : JsValue) : Option String := isText 1 128 v

def validateNewPassword (v : JsValue) : Option String := isNewPassword v

end UpdatePasswordDto

/-! ## The form -/

structure ResetForm where
  token : JsValue
  newPassword : JsValue
  confirmPassword : JsValue

inductive FormAnswer where
  /-- The page `reset-error`. -/
  | resetError (title message : String)
  /-- The page `reset-form`, again. -/
  | resetForm (token : JsValue) (error : String)
  /-- The call of `AuthService.resetPassword`. -/
  | resetPassword (token newPassword : JsValue)

/-- What the handler does with the body, which no pipe has checked. -/
def WebController.resetPasswordSubmit (body : ResetForm) : FormAnswer :=
  if !body.token.truthy || !body.newPassword.truthy then
    .resetError "Missing fields" "Both the token and a new password are required."
  else if !body.confirmPassword.same .undefined && !body.confirmPassword.same body.newPassword then
    .resetForm body.token "Passwords do not match."
  else .resetPassword body.token body.newPassword

/-! ## Requests -/

/-- The routes that set a password. -/
inductive Request where
  /-- `POST auth/register` -/
  | register (password : JsValue) (dto : RegisterDto)
  /-- `POST auth/reset-password` -/
  | resetPassword (token newPassword : JsValue)
  /-- `POST reset-password` -/
  | resetPasswordSubmit (body : ResetForm)
  /-- `PATCH me/password` -/
  | updatePassword (userId : Id) (currentPassword newPassword : JsValue)

/-- The call of `AuthService` that the request comes to. bcrypt rejects what is no string. -/
def Request.task? : Request → Option Task
  | register password dto => do
    let password ← RegisterDto.validatePassword password
    pure (.register { dto with password := password })
  | resetPassword token newPassword => do
    let token ← ResetPasswordDto.validateToken token
    let newPassword ← ResetPasswordDto.validateNewPassword newPassword
    pure (.resetPassword token newPassword)
  | resetPasswordSubmit body =>
    match WebController.resetPasswordSubmit body with
    | .resetPassword token newPassword => do
      let token ← token.string?
      let newPassword ← newPassword.string?
      pure (.resetPassword token newPassword)
    | _ => none
  | updatePassword userId currentPassword newPassword => do
    let currentPassword ← UpdatePasswordDto.validateCurrentPassword currentPassword
    let newPassword ← UpdatePasswordDto.validateNewPassword newPassword
    pure (.changePassword userId currentPassword newPassword)

end LmsBackend.Auth
