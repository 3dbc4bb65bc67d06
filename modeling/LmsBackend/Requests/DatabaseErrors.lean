import LmsBackend.Profile.Changes
import LmsBackend.Requests.Constraints

/-!
# When a request does not end in a database error

All the requests together, and what `auth/register` and `PATCH me` need.
-/

open Store

namespace LmsBackend.Requests

open Content.CatalogService (certificateOf)
open Content.LearningService (moduleOf lessonOf)
open Profile (Given)

/-! ## `users` -/

section

variable [Auth.JsString]

end

/-! ## `PATCH me` -/

/-- What `bcrypt.hash` answers with. -/
abbrev Hash := { hash : String // hash.length = 60 ∧ noNul hash = true }

theorem Hash.fits (hash : Hash) : Fits (some 255) hash.val := by
  obtain ⟨hash, hlength, hnul⟩ := hash
  refine ⟨of_decide_eq_true hnul, fun n hn => ?_⟩
  cases hn
  have hdrop : hash.toList.drop 255 = [] := by
    rw [List.drop_eq_nil_iff, String.length_toList]
    omega
  rw [hdrop]
  rfl

section

variable [JsNumbers] [Validator] [Jsonb] [Auth.JsString]

/-- A body, with the row that an update is of. -/
inductive Request [Jsonb] where
  /-- `POST auth/register` -/
  | register (hash : Hash) (body : RegisterBody)
  /-- `PATCH me` -/
  | updateProfile (now : Time) (user : Profile.User) (body : Profile.Field → Auth.JsValue)
  /-- `POST admin/catalog` -/
  | createCertificate (body : CertificateBody)
  /-- `PATCH admin/catalog/:id` -/
  | updateCertificate (row : { cert : Content.Certificate // Certificates.inserts cert = true })
    (body : CertificateBody)
  /-- `PATCH admin/catalog/:id/translations` -/
  | updateTranslations (row : { cert : Content.Certificate // Certificates.inserts cert = true })
    (body : Document)
  /-- `POST admin/modules` -/
  | createModule (body : ModuleBody)
  /-- `PATCH admin/modules/:id` -/
  | updateModule (row : { mod : Content.LearningModule // LearningModules.inserts mod = true })
    (body : ModuleBody)
  /-- `POST admin/lessons` -/
  | createLesson (body : LessonBody)
  /-- `PATCH admin/lessons/:id` -/
  | updateLesson (row : { lesson : Content.Lesson // Lessons.inserts lesson = true })
    (body : LessonBody)

namespace Request

/-- The document that the statement sends, if any, is well formed. -/
def WellFormed : Request → Prop
  | register _ _ | updateProfile _ _ _ => True
  | createCertificate body | updateCertificate _ body =>
    body.translations.sendsWellFormed body.title body.description = true
  | updateTranslations _ body => body.sendsWellFormed .undefined .undefined = true
  | createModule body | updateModule _ body =>
    body.translations.sendsWellFormed body.title body.description = true
  | createLesson body | updateLesson _ body =>
    body.translations.sendsWellFormed body.title body.contentText = true

end Request

end

section

@[reducible] def flagNumbers : JsNumbers where
  number v := if v matches .bool _ then some (if v.truthy then 1 else 0) else none

@[reducible] def plainValidator : Validator where
  isEmail s := '@' ∈ s.toList
  isUuid s := s.length = 36

@[reducible] def plainJsonb : Jsonb where
  stores := noNul

attribute [local instance] flagNumbers plainValidator plainJsonb Auth.plainString

end

end LmsBackend.Requests
