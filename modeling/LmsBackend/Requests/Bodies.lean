import LmsBackend.Auth.Dtos
import LmsBackend.Content.Entities
import LmsBackend.Profile.UpdateProfileDto

/-!
# The bodies of the admin requests and of `auth/register`

What `ValidationPipe` makes of them. The DTOs are those of the services.
-/

namespace LmsBackend.Requests

open Auth (JsValue isText)
open Content

/-- `Number`, for a value that is there. `none` is NaN or an infinity, and the others are what
`toString` shows. -/
class JsNumbers where
  number : JsValue → Option Rat

/-- The package `validator`. -/
class Validator where
  isEmail : String → Bool
  isUuid : String → Bool

/-! ## Checks -/

/-- `@IsOptional()` -/
def optional {α : Type} (check : JsValue → Option α) : JsValue → Option (Content.Field α)
  | .undefined => some .undefined
  | .null => some .null
  | v => (check v).map .value

/-- An object, with its keys and texts in UTF-8. Before, they may not have been well formed. -/
structure JsObject where
  translations : Translations
  wellFormed : Bool

/-- `none` is anything that is no object and not `null`. -/
abbrev Document := Content.Field (Option JsObject)

/-- `@IsObject()` -/
def isObject : Document → Option Translations
  | .value d => d.map (·.translations)
  | _ => none

/-- `@IsOptional() @IsObject()` -/
def optionalObject : Document → Option (Content.Field Translations)
  | .undefined => some .undefined
  | .null => some .null
  | .value d => d.map fun d => .value d.translations

/-- `@IsBoolean()`, after the conversion to `boolean`. An array stays one. -/
def isBoolean : JsValue → Option Bool
  | .undefined | .null | .array => none
  | v => some v.truthy

section

variable [JsNumbers]

/-- `@Type(() => Number)` -/
def toNumber : JsValue → Option Rat
  | .undefined | .null | .array => none
  | v => JsNumbers.number v

/-- `@IsNumber({ maxDecimalPlaces: 2 }) @Min(0)` -/
def isPrice (v : JsValue) : Option Rat := (toNumber v).filter fun q => (q * 100).isInt ∧ 0 ≤ q

/-- `@IsInt() @Min(0)` -/
def isCount (v : JsValue) : Option Int := ((toNumber v).filter fun q => q.isInt ∧ 0 ≤ q).map Rat.num

end

/-! ## Certificates -/

structure CertificateBody where
  title : JsValue
  programCode : JsValue
  price : JsValue
  currency : JsValue
  description : JsValue
  thumbnailUrl : JsValue
  active : JsValue
  translations : Document

def CreateCertificateDto.transform [JsNumbers] (body : CertificateBody) :
    Option CreateCertificateDto := do
  some
    { title := ← isText 1 255 body.title
      programCode := ← isText 1 50 body.programCode
      price := ← isPrice body.price
      currency := ← optional (isText 3 3) body.currency
      description := ← optional (isText 0 5000) body.description
      thumbnailUrl := ← optional (isText 0 500) body.thumbnailUrl
      active := ← optional isBoolean body.active
      translations := ← optionalObject body.translations }

def UpdateCertificateDto.transform [JsNumbers] (body : CertificateBody) :
    Option UpdateCertificateDto := do
  some
    { title := ← optional (isText 1 255) body.title
      programCode := ← optional (isText 1 50) body.programCode
      price := ← optional isPrice body.price
      currency := ← optional (isText 3 3) body.currency
      description := ← optional (isText 0 5000) body.description
      thumbnailUrl := ← optional (isText 0 500) body.thumbnailUrl
      active := ← optional isBoolean body.active
      translations := ← optionalObject body.translations }

/-- The body has nothing but the document. -/
def UpdateTranslationsDto.transform (body : Document) : Option Translations := isObject body

/-! ## Modules and lessons -/

structure ModuleBody where
  certId : JsValue
  title : JsValue
  description : JsValue
  position : JsValue
  active : JsValue
  translations : Document

def CreateModuleDto.transform [JsNumbers] [Validator] (body : ModuleBody) :
    Option CreateModuleDto := do
  some
    { certId := ← body.certId.toText.filter Validator.isUuid
      title := ← isText 1 255 body.title
      description := ← optional (isText 0 5000) body.description
      position := ← optional isCount body.position
      active := ← optional isBoolean body.active
      translations := ← optionalObject body.translations }

/-- Without a `certId`. -/
def UpdateModuleDto.transform [JsNumbers] (body : ModuleBody) : Option UpdateModuleDto := do
  some
    { title := ← optional (isText 1 255) body.title
      description := ← optional (isText 0 5000) body.description
      position := ← optional isCount body.position
      active := ← optional isBoolean body.active
      translations := ← optionalObject body.translations }

structure LessonBody where
  moduleId : JsValue
  title : JsValue
  contentText : JsValue
  videoUrl : JsValue
  position : JsValue
  durationSeconds : JsValue
  active : JsValue
  translations : Document

def CreateLessonDto.transform [JsNumbers] [Validator] (body : LessonBody) :
    Option CreateLessonDto := do
  some
    { moduleId := ← body.moduleId.toText.filter Validator.isUuid
      title := ← isText 1 255 body.title
      contentText := ← optional (isText 0 50000) body.contentText
      videoUrl := ← optional (isText 0 500) body.videoUrl
      position := ← optional isCount body.position
      durationSeconds := ← optional isCount body.durationSeconds
      active := ← optional isBoolean body.active
      translations := ← optionalObject body.translations }

/-- Without a `moduleId`. -/
def UpdateLessonDto.transform [JsNumbers] (body : LessonBody) : Option UpdateLessonDto := do
  some
    { title := ← optional (isText 1 255) body.title
      contentText := ← optional (isText 0 50000) body.contentText
      videoUrl := ← optional (isText 0 500) body.videoUrl
      position := ← optional isCount body.position
      durationSeconds := ← optional isCount body.durationSeconds
      active := ← optional isBoolean body.active
      translations := ← optionalObject body.translations }

/-! ## `auth/register` -/

/-- The fields have the names of the profile's, without `avatarUrl`. -/
structure RegisterBody where
  email : JsValue
  password : JsValue
  field : Profile.Field → JsValue

structure RegisterDto where
  email : String
  password : String
  field : Profile.Field → Profile.Given

namespace RegisterDto

def required (check : JsValue → Option String) (v : JsValue) : Option Profile.Given :=
  (check v).map .text

def validate : Profile.Field → JsValue → Option Profile.Given
  | .firstName => required (isText 1 100)
  | .lastName => required (isText 1 100)
  | .phone => Profile.isOptional (isText 0 50)
  | .locale => Profile.isOptional (isText 0 10)
  | .country => Profile.isOptional (isText 0 100)
  | .city => Profile.isOptional (isText 0 100)
  | .street => Profile.isOptional (isText 0 255)
  | .address => Profile.isOptional (isText 0 255)
  | .postalCode => Profile.isOptional (isText 0 20)
  | .occupation => Profile.isOptional (isText 0 255)
  | .position => Profile.isOptional (isText 0 255)
  | .company => Profile.isOptional (isText 0 255)
  -- The DTO has no such property, and the pipe refuses what it does not know.
  | .avatarUrl => fun v => if v matches .undefined then some .undefined else none

def validateEmail [Validator] (v : JsValue) : Option String :=
  (isText 0 255 v).filter Validator.isEmail

def transform [Validator] (body : RegisterBody) : Option RegisterDto := do
  let email ← validateEmail body.email
  let password ← Auth.RegisterDto.validatePassword body.password
  if Profile.fields.all fun f => (validate f (body.field f)).isSome then
    some ⟨email, password, fun f => (validate f (body.field f)).getD .undefined⟩
  else none

end RegisterDto

end LmsBackend.Requests
