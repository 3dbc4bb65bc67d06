import LmsBackend.Content.Translations
import LmsBackend.Exams.Entities
import LmsBackend.Store.Columns

/-!
# Certificates, modules and lessons

The rows, the bodies of the admin requests and what an UPDATE sets. Left out are
the `updated_at` columns, and those that nothing here reads or writes.
-/

open Store

namespace LmsBackend.Content

/-! ## Rows -/

structure Certificate where
  id : Id
  title : String
  programCode : String
  description : Option String
  translations : Translations
  price : Rat
  currency : String
  active : Bool
  thumbnailUrl : Option String

structure LearningModule where
  id : Id
  certId : Id
  title : String
  description : Option String
  translations : Translations
  position : Int
  active : Bool
  createdAt : Time

structure Lesson where
  id : Id
  moduleId : Id
  title : String
  videoUrl : Option String
  contentText : Option String
  translations : Translations
  position : Int
  durationSeconds : Option Int
  active : Bool
  createdAt : Time

structure StudentPurchase where
  userId : Id
  certId : Id
  deriving DecidableEq, Repr

structure StudentProgress where
  userId : Id
  lessonId : Id
  completedAt : Time
  deriving DecidableEq, Repr

instance : Keyed Certificate Id := ⟨Certificate.id⟩
instance : Keyed LearningModule Id := ⟨LearningModule.id⟩
instance : Keyed Lesson Id := ⟨Lesson.id⟩

/-- UNIQUE (user_id, lesson_id) -/
instance : Keyed StudentProgress (Id × Id) := ⟨fun p => (p.userId, p.lessonId)⟩

@[simp] theorem Certificate.keyed (c : Certificate) : Keyed.key c = c.id := rfl
@[simp] theorem LearningModule.keyed (m : LearningModule) : Keyed.key m = m.id := rfl
@[simp] theorem Lesson.keyed (l : Lesson) : Keyed.key l = l.id := rfl

/-! ## Bodies -/

/-- A field of a body. `@IsOptional()` lets `null` pass as well. -/
inductive Field (α : Type) where
  | undefined
  | null
  | value (a : α)
  deriving DecidableEq, Repr

namespace Field

variable {α : Type}

/-- `f !== undefined` -/
def defined : Field α → Bool
  | undefined => false
  | _ => true

/-- `f ?? null` -/
def toOption : Field α → Option α
  | value a => some a
  | _ => none

/-- `f !== undefined ? f : old`, for a column that can be NULL. -/
def orKeep : Field α → Option α → Option α
  | undefined, old => old
  | null, _ => none
  | value a, _ => some a

/-- What a NOT NULL column is after the UPDATE. `none` if the database refuses it. -/
def setNotNull : Field α → α → Option α
  | undefined, old => some old
  | null, _ => none
  | value a, _ => some a

/-- Like `setNotNull`, for a VARCHAR(limit). -/
def setText (limit : Nat) : Field String → String → Option String
  | undefined, old => some old
  | null, _ => none
  | value s, _ => storeText (some limit) s

/-- What a column of texts that can be NULL is after the UPDATE. -/
def setNullable (limit : Option Nat) : Field String → Option String → Option (Option String)
  | undefined, old => some old
  | null, _ => some none
  | value s, _ => storeNullable limit (some s)

theorem orKeep_of_setNullable {f : Field String} {old new : Option String}
    (h : f.setNullable none old = some new) : new = f.orKeep old := by
  cases f with
  | undefined => exact (Option.some.inj h).symm
  | null => exact (Option.some.inj h).symm
  | value s => exact eq_of_storeNullable h

theorem defined_eq_false {f : Field α} : f.defined = false ↔ f = undefined := by
  cases f <;> simp [defined]

end Field

structure CreateCertificateDto where
  title : String
  programCode : String
  price : Rat
  currency : Field String
  description : Field String
  thumbnailUrl : Field String
  active : Field Bool
  translations : Field Translations

/-- Also what `certificates.update` sets: each column whose field is not `undefined`. -/
structure UpdateCertificateDto where
  title : Field String
  programCode : Field String
  price : Field Rat
  currency : Field String
  description : Field String
  thumbnailUrl : Field String
  active : Field Bool
  translations : Field Translations

structure CreateModuleDto where
  certId : Id
  title : String
  description : Field String
  position : Field Int
  active : Field Bool
  translations : Field Translations

structure UpdateModuleDto where
  title : Field String
  description : Field String
  position : Field Int
  active : Field Bool
  translations : Field Translations

structure CreateLessonDto where
  moduleId : Id
  title : String
  contentText : Field String
  videoUrl : Field String
  position : Field Int
  durationSeconds : Field Int
  active : Field Bool
  translations : Field Translations

structure UpdateLessonDto where
  title : Field String
  contentText : Field String
  videoUrl : Field String
  position : Field Int
  durationSeconds : Field Int
  active : Field Bool
  translations : Field Translations

/-! ## Inserts -/

/-- The new row of `certificates`, as its columns keep it. -/
def Certificate.stored (c : Certificate) : Option Certificate := do
  let title ← storeText (some 255) c.title
  let programCode ← storeText (some 50) c.programCode
  let description ← storeNullable none c.description
  let currency ← storeText (some 3) c.currency
  let thumbnailUrl ← storeNullable (some 500) c.thumbnailUrl
  some { c with
    title := title, programCode := programCode, description := description, currency := currency,
    thumbnailUrl := thumbnailUrl }

def LearningModule.stored (m : LearningModule) : Option LearningModule := do
  let title ← storeText (some 255) m.title
  let description ← storeNullable none m.description
  some { m with title := title, description := description }

def Lesson.stored (l : Lesson) : Option Lesson := do
  let title ← storeText (some 255) l.title
  let videoUrl ← storeNullable (some 500) l.videoUrl
  let contentText ← storeNullable none l.contentText
  some { l with title := title, videoUrl := videoUrl, contentText := contentText }

theorem Certificate.stored_spec {c c' : Certificate} (h : c.stored = some c') :
    storeText (some 50) c.programCode = some c'.programCode ∧ c'.translations = c.translations := by
  simp only [Certificate.stored, Option.bind_eq_bind, Option.bind_eq_some_iff] at h
  obtain ⟨title, -, programCode, hprogramCode, description, -, currency, -, thumbnailUrl, -, h⟩ := h
  cases h
  exact ⟨hprogramCode, rfl⟩

theorem LearningModule.stored_translations {m m' : LearningModule} (h : m.stored = some m') :
    m'.translations = m.translations := by
  simp only [LearningModule.stored, Option.bind_eq_bind, Option.bind_eq_some_iff] at h
  obtain ⟨title, -, description, -, h⟩ := h
  cases h
  rfl

theorem Lesson.stored_translations {l l' : Lesson} (h : l.stored = some l') :
    l'.translations = l.translations := by
  simp only [Lesson.stored, Option.bind_eq_bind, Option.bind_eq_some_iff] at h
  obtain ⟨title, -, videoUrl, -, contentText, -, h⟩ := h
  cases h
  rfl

/-! ## Updates -/

/-- `UPDATE certificates SET` -/
def Certificate.patched (c : Certificate) (patch : UpdateCertificateDto) : Option Certificate := do
  let title ← patch.title.setText 255 c.title
  let programCode ← patch.programCode.setText 50 c.programCode
  let description ← patch.description.setNullable none c.description
  let price ← patch.price.setNotNull c.price
  let currency ← patch.currency.setText 3 c.currency
  let active ← patch.active.setNotNull c.active
  let thumbnailUrl ← patch.thumbnailUrl.setNullable (some 500) c.thumbnailUrl
  let translations ← patch.translations.setNotNull c.translations
  some { c with
    title := title, programCode := programCode, description := description, price := price,
    currency := currency, active := active, thumbnailUrl := thumbnailUrl,
    translations := translations }

def LearningModule.patched (m : LearningModule) (patch : UpdateModuleDto) :
    Option LearningModule := do
  let title ← patch.title.setText 255 m.title
  let description ← patch.description.setNullable none m.description
  let position ← patch.position.setNotNull m.position
  let active ← patch.active.setNotNull m.active
  let translations ← patch.translations.setNotNull m.translations
  some { m with
    title := title, description := description, position := position, active := active,
    translations := translations }

def Lesson.patched (l : Lesson) (patch : UpdateLessonDto) : Option Lesson := do
  let title ← patch.title.setText 255 l.title
  let videoUrl ← patch.videoUrl.setNullable (some 500) l.videoUrl
  let contentText ← patch.contentText.setNullable none l.contentText
  let position ← patch.position.setNotNull l.position
  let active ← patch.active.setNotNull l.active
  let translations ← patch.translations.setNotNull l.translations
  some { l with
    title := title, videoUrl := videoUrl, contentText := contentText, position := position,
    active := active, translations := translations,
    durationSeconds := patch.durationSeconds.orKeep l.durationSeconds }

/-! ## What an UPDATE leaves -/

/-- What the new row has of the old one and the patch. -/
structure Certificate.Patched (c : Certificate) (patch : UpdateCertificateDto) (c' : Certificate) :
    Prop where
  id : c'.id = c.id
  title : patch.title.setText 255 c.title = some c'.title
  programCode : patch.programCode.setText 50 c.programCode = some c'.programCode
  description : c'.description = patch.description.orKeep c.description
  translations : patch.translations.setNotNull c.translations = some c'.translations
  price : patch.price.setNotNull c.price = some c'.price
  currency : patch.currency.setText 3 c.currency = some c'.currency
  active : patch.active.setNotNull c.active = some c'.active
  thumbnailUrl : patch.thumbnailUrl.setNullable (some 500) c.thumbnailUrl = some c'.thumbnailUrl

theorem Certificate.patched_spec {c c' : Certificate} {patch : UpdateCertificateDto}
    (h : c.patched patch = some c') : c.Patched patch c' := by
  simp only [Certificate.patched, Option.bind_eq_bind, Option.bind_eq_some_iff] at h
  obtain ⟨title, htitle, programCode, hprogramCode, description, hdescription, price, hprice,
    currency, hcurrency, active, hactive, thumbnailUrl, hthumbnailUrl, translations, htranslations,
    h⟩ := h
  cases h
  exact ⟨rfl, htitle, hprogramCode, Field.orKeep_of_setNullable hdescription, htranslations, hprice,
    hcurrency, hactive, hthumbnailUrl⟩

structure LearningModule.Patched (m : LearningModule) (patch : UpdateModuleDto)
    (m' : LearningModule) : Prop where
  id : m'.id = m.id
  title : patch.title.setText 255 m.title = some m'.title
  description : m'.description = patch.description.orKeep m.description
  translations : patch.translations.setNotNull m.translations = some m'.translations
  position : patch.position.setNotNull m.position = some m'.position
  active : patch.active.setNotNull m.active = some m'.active
  certId : m'.certId = m.certId
  createdAt : m'.createdAt = m.createdAt

theorem LearningModule.patched_spec {m m' : LearningModule} {patch : UpdateModuleDto}
    (h : m.patched patch = some m') : m.Patched patch m' := by
  simp only [LearningModule.patched, Option.bind_eq_bind, Option.bind_eq_some_iff] at h
  obtain ⟨title, htitle, description, hdescription, position, hposition, active, hactive,
    translations, htranslations, h⟩ := h
  cases h
  exact ⟨rfl, htitle, Field.orKeep_of_setNullable hdescription, htranslations, hposition, hactive,
    rfl, rfl⟩

structure Lesson.Patched (l : Lesson) (patch : UpdateLessonDto) (l' : Lesson) : Prop where
  id : l'.id = l.id
  title : patch.title.setText 255 l.title = some l'.title
  contentText : l'.contentText = patch.contentText.orKeep l.contentText
  translations : patch.translations.setNotNull l.translations = some l'.translations
  videoUrl : patch.videoUrl.setNullable (some 500) l.videoUrl = some l'.videoUrl
  position : patch.position.setNotNull l.position = some l'.position
  durationSeconds : l'.durationSeconds = patch.durationSeconds.orKeep l.durationSeconds
  active : patch.active.setNotNull l.active = some l'.active
  moduleId : l'.moduleId = l.moduleId
  createdAt : l'.createdAt = l.createdAt

theorem Lesson.patched_spec {l l' : Lesson} {patch : UpdateLessonDto}
    (h : l.patched patch = some l') : l.Patched patch l' := by
  simp only [Lesson.patched, Option.bind_eq_bind, Option.bind_eq_some_iff] at h
  obtain ⟨title, htitle, videoUrl, hvideoUrl, contentText, hcontentText, position, hposition,
    active, hactive, translations, htranslations, h⟩ := h
  cases h
  exact ⟨rfl, htitle, Field.orKeep_of_setNullable hcontentText, htranslations, hvideoUrl, hposition,
    rfl, hactive, rfl, rfl⟩

end LmsBackend.Content
