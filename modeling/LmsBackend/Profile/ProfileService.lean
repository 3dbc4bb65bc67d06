import LmsBackend.Auth.AuthService
import LmsBackend.Content.Fallback
import LmsBackend.Profile.UpdateProfileDto
import LmsBackend.Store.Columns

/-!
# `ProfileService`

The rows of `users`, and the two methods of the service. TypeORM leaves out what is
`undefined` in an update, and always sets `updated_at`.
-/

open Store

namespace LmsBackend.Profile

open Auth (JsString fullName)
open Content (TextDirection directionFor)

/-! ## Rows -/

/-- A row of `users`, with its fields of text by name. NULL is `none`. -/
structure User where
  id : Id
  email : String
  passwordHash : String
  field : Field → Option String
  emailVerified : Bool
  emailVerifiedAt : Option Time
  active : Bool
  createdAt : Time
  updatedAt : Time

def optionalColumn (limit : Nat) : TextColumn := ⟨false, some limit, fun _ => true⟩

def requiredColumn (limit : Nat) : TextColumn := ⟨true, some limit, fun _ => true⟩

/-- The columns of the fields, with `chk_users_locale_supported`. -/
def Field.column : Field → TextColumn
  | .firstName => requiredColumn 100
  | .lastName => requiredColumn 100
  | .phone => optionalColumn 50
  | .locale => ⟨true, some 10, fun s => s ∈ ["en", "tr", "fr", "es", "ar", "de"]⟩
  | .country => optionalColumn 100
  | .city => optionalColumn 100
  | .street => optionalColumn 255
  | .address => optionalColumn 255
  | .postalCode => optionalColumn 20
  | .occupation => optionalColumn 255
  | .position => optionalColumn 255
  | .company => optionalColumn 255
  | .avatarUrl => optionalColumn 500

abbrev Users := Id → Option User

inductive Err where
  | notFound (message : String)
  /-- What the database rejects with. -/
  | database
  deriving DecidableEq, Repr

/-! ## The update -/

/-- The value of a column after `UPDATE .. SET column = value`. -/
def User.stored (user : User) (patch : Field → Option Given) (f : Field) :
    Option (Option String) :=
  match patch f with
  | none | some .undefined => some (user.field f)
  | some .null => f.column.store none
  | some (.text s) => f.column.store (some s)

/-- `this.users.update({ id }, patch)` for a row. `none` is an error of the database. -/
def User.update (now : Time) (patch : Field → Option Given) (user : User) : Option User :=
  if fields.all fun f => (user.stored patch f).isSome then
    some { user with field := fun f => (user.stored patch f).getD none, updatedAt := now }
  else none

structure ProfileResponseDto where
  id : Id
  email : String
  /-- The fields but the locale. -/
  field : Field → Option String
  fullName : String
  locale : Content.Locale
  direction : TextDirection
  emailVerified : Bool
  createdAt : Time
  updatedAt : Time

/-- The locale of a row, or English. -/
def User.responseLocale (user : User) : Content.Locale :=
  (Content.supportedLocales.find? fun l => user.field .locale = some l.code).getD .en

def toResponseDto [JsString] (user : User) : ProfileResponseDto where
  id := user.id
  email := user.email
  field f := if f = .locale then none else user.field f
  fullName := fullName ((user.field .firstName).getD "") ((user.field .lastName).getD "")
  locale := user.responseLocale
  direction := directionFor user.responseLocale
  emailVerified := user.emailVerified
  createdAt := user.createdAt
  updatedAt := user.updatedAt

/-! ## The service -/

namespace ProfileService

variable [JsString]

def getProfile (userId : Id) (users : Users) : Except Err ProfileResponseDto :=
  match users userId with
  | none => .error (.notFound "Profile not found")
  | some user => .ok (toResponseDto user)

def updatableFields : List Field := [.firstName, .lastName, .phone, .locale, .country, .city,
  .street, .address, .postalCode, .occupation, .position, .company, .avatarUrl]

/-- The object `patch`: what the DTO owns of the allow-listed fields. -/
def patch (dto : UpdateProfileDto) (f : Field) : Option Given :=
  if f ∈ updatableFields then dto.own f else none

/-- At the time `now`. -/
def updateProfile (now : Time) (userId : Id) (dto : UpdateProfileDto) (users : Users) :
    Users × Except Err ProfileResponseDto :=
  match users userId with
  | none => (users, .error (.notFound "Profile not found"))
  | some user =>
    if updatableFields.all fun f => (patch dto f).isNone then (users, .ok (toResponseDto user))
    else
      match user.update now (patch dto) with
      | none => (users, .error .database)
      | some refreshed =>
        (Function.update users userId (some refreshed), .ok (toResponseDto refreshed))

end ProfileService

end LmsBackend.Profile
