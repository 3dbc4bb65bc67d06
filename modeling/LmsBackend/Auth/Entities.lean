import LmsBackend.Auth.AccessToken
import LmsBackend.Store.Table
import Mathlib.Algebra.Ring.Nat

/-!
# The tables of accounts

Students and administrators have a table each. Refresh tokens and the tokens in
emails have serial ids. Left out are the `created_at` and `updated_at` columns,
and those that nothing here reads or writes.
-/

open Store

namespace LmsBackend.Auth

/-- What `register` takes over from the body as it is. -/
structure Contact where
  phone : Option String
  company : Option String
  occupation : Option String
  position : Option String
  country : Option String
  city : Option String
  street : Option String
  address : Option String
  postalCode : Option String
  deriving DecidableEq, Repr

structure User where
  id : Id
  email : String
  passwordHash : String
  firstName : String
  lastName : String
  contact : Contact
  locale : String
  emailVerified : Bool
  emailVerifiedAt : Option Time
  active : Bool
  deriving DecidableEq, Repr

inductive AdminRole where
  | superAdmin
  | learningAdmin
  | contentCreator
  | financeAdmin
  | supportAdmin
  deriving DecidableEq, Repr

def AdminRole.text : AdminRole → String
  | superAdmin => "super_admin"
  | learningAdmin => "learning_admin"
  | contentCreator => "content_creator"
  | financeAdmin => "finance_admin"
  | supportAdmin => "support_admin"

structure AdminUser where
  id : Id
  email : String
  passwordHash : String
  firstName : String
  lastName : String
  role : AdminRole
  locale : String
  active : Bool
  deriving DecidableEq, Repr

inductive TokenOwnerType where
  | user
  | admin
  deriving DecidableEq, Repr

structure RefreshToken where
  id : Nat
  userId : Option Id
  adminId : Option Id
  ownerType : TokenOwnerType
  tokenHash : String
  expiresAt : Time
  revokedAt : Option Time
  deriving DecidableEq, Repr

/-- The column that `revokeAllRefreshTokens` looks in. -/
def RefreshToken.belongsTo (t : RefreshToken) (subjectId : Id) : AccountType → Bool
  | .student => t.userId = some subjectId
  | .admin => t.adminId = some subjectId

def RefreshToken.live (t : RefreshToken) (now : Time) : Bool :=
  t.revokedAt = none ∧ ¬t.expiresAt < now

inductive AuthTokenPurpose where
  | emailVerification
  | passwordReset
  deriving DecidableEq, Repr

structure AuthToken where
  id : Nat
  userId : Id
  purpose : AuthTokenPurpose
  tokenHash : String
  expiresAt : Time
  usedAt : Option Time
  deriving DecidableEq, Repr

instance : Keyed User Id := ⟨User.id⟩
instance : Keyed AdminUser Id := ⟨AdminUser.id⟩
instance : Keyed RefreshToken Nat := ⟨RefreshToken.id⟩
instance : Keyed AuthToken Nat := ⟨AuthToken.id⟩

/-- `jti` is the id of the row of `refresh_tokens`. -/
structure RefreshTokenPayload where
  sub : Id
  type : AccountType
  jti : Nat
  deriving DecidableEq, Repr

/-- The two emails, with the arguments of their builders. -/
inductive Mail where
  | verification (toEmail fullName token : String)
  | passwordReset (toEmail fullName token : String)
  deriving DecidableEq, Repr

/-! ## What stays open -/

inductive JwtPayload where
  | access (payload : AccessTokenPayload)
  | refresh (payload : RefreshTokenPayload)
  deriving DecidableEq, Repr

/-- The `jsonwebtoken` package. A token depends on the time at which it is signed. -/
class Jwt where
  sign : JwtPayload → (secret : String) → (expiresIn : Int) → (iat : Time) → String

/-- `String.prototype.trim` and `String.prototype.toLowerCase`, with the tables of Unicode. -/
class JsString where
  trim : String → String
  toLowerCase : String → String

/-- The settings that `AuthService` and `MailService` read. -/
class AuthConfig where
  jwtSecret : String
  jwtRefreshSecret : String
  accessTtlSec : Int
  refreshTtlSec : Int
  /-- Emails are only sent in staging and production. -/
  isProd : Bool

/-- `length` of a JavaScript string: its UTF-16 code units. -/
def utf16Length (s : String) : Nat := (s.toList.map fun c => if c.toNat < 0x10000 then 1 else 2).sum

def fullName [JsString] (firstName lastName : String) : String :=
  JsString.trim (firstName ++ " " ++ lastName)

end LmsBackend.Auth
