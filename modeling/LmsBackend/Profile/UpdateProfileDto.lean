import LmsBackend.Auth.Dtos
import LmsBackend.Content.Translations

/-!
# The body of `PATCH me`

`UpdateProfileDto`, and what `ValidationPipe` makes of a body.
-/

namespace LmsBackend.Profile

open Auth (JsValue isText)

inductive Field where
  | firstName
  | lastName
  | phone
  | locale
  | country
  | city
  | street
  | address
  | postalCode
  | occupation
  | position
  | company
  | avatarUrl
  deriving DecidableEq, Repr

/-- What a property of the DTO has after validation. -/
inductive Given where
  | undefined
  | null
  | text (s : String)
  deriving DecidableEq, Repr

/-- `@IsOptional()` -/
def isOptional (check : JsValue → Option String) : JsValue → Option Given
  | .undefined => some .undefined
  | .null => some .null
  | v => (check v).map .text

/-- `@IsIn(SUPPORTED_LOCALES)` -/
def isSupportedLocale (v : JsValue) : Option String := v.toText.filter Content.isLocale

/-- The decorators of a property. -/
def UpdateProfileDto.validate : Field → JsValue → Option Given
  | .firstName => isOptional (isText 1 100)
  | .lastName => isOptional (isText 1 100)
  | .phone => isOptional (isText 0 50)
  | .locale => isOptional isSupportedLocale
  | .country => isOptional (isText 0 100)
  | .city => isOptional (isText 0 100)
  | .street => isOptional (isText 0 255)
  | .address => isOptional (isText 0 255)
  | .postalCode => isOptional (isText 0 20)
  | .occupation => isOptional (isText 0 255)
  | .position => isOptional (isText 0 255)
  | .company => isOptional (isText 0 255)
  | .avatarUrl => isOptional (isText 0 500)

/-- The own properties of an object. -/
structure UpdateProfileDto where
  own : Field → Option Given

def fields : List Field := [.firstName, .lastName, .phone, .locale, .country, .city, .street,
  .address, .postalCode, .occupation, .position, .company, .avatarUrl]

/-- The pipe's instance for a body, which is `undefined` at each field that it does not have. The
instance owns every property that the class declares. -/
def UpdateProfileDto.transform (body : Field → JsValue) : Option UpdateProfileDto :=
  if fields.all fun f => (validate f (body f)).isSome then
    some ⟨fun f => validate f (body f)⟩
  else none

namespace UpdateProfileDto

variable {body : Field → JsValue} {dto : UpdateProfileDto}

end UpdateProfileDto

end LmsBackend.Profile
