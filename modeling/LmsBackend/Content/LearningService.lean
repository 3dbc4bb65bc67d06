import LmsBackend.Content.CatalogService
import LmsBackend.Numeric.Binary64

/-!
# `LearningService`

Modules and lessons, and what a student gets of them. `meta` is left out but for
`fallbackUsed`. `locale` is the one that the request resolves to.
-/

open Async Store Numeric

namespace LmsBackend.Content

/-! ## What a student gets -/

/-- `resolveTranslation(translations, field, locale).value ?? canonical` -/
def served (translations : Translations) (field : String) (locale : Locale)
    (canonical : Option String) : Option Json :=
  (resolveTranslation translations field locale).value.or (canonical.map Json.str)

structure CurriculumLesson where
  id : Id
  title : Option Json
  position : Int
  durationSeconds : Option Int
  hasVideo : Bool
  completed : Bool
  deriving DecidableEq, Repr

structure CurriculumModule where
  id : Id
  title : Option Json
  position : Int
  lessons : List CurriculumLesson
  deriving DecidableEq, Repr

structure Curriculum where
  certId : Id
  programCode : String
  title : Option Json
  modules : List CurriculumModule
  deriving DecidableEq, Repr

structure ServedLesson where
  id : Id
  moduleId : Id
  title : Option Json
  contentHtml : Option Json
  videoUrl : Option String
  durationSeconds : Option Int
  position : Int
  completedAt : Option Time
  fallbackUsed : Bool
  deriving DecidableEq, Repr

/-- One certificate of `GET /me/progress`. -/
structure CertificateProgress where
  certId : Id
  programCode : String
  title : Option Json
  totalLessons : Nat
  completedLessons : Nat
  percentComplete : Int
  deriving DecidableEq, Repr

structure Completion where
  lessonId : Id
  completedAt : Time
  alreadyCompleted : Bool
  deriving DecidableEq, Repr

namespace LearningService

def videoSignedUrlTtlSec : Nat := 60 * 60

def buildTranslations (bodyKey : String) (existing : Translations)
    (dtoTranslations : Field Translations) (canonicalTitle : String)
    (canonicalBody : Option String) : Translations :=
  mergeTranslations bodyKey existing dtoTranslations canonicalTitle canonicalBody

/-! ## Modules -/

/-- What `createModule` saves. -/
def moduleOf (dto : CreateModuleDto) : LearningModule where
  id := ""
  certId := dto.certId
  title := dto.title
  description := dto.description.toOption
  position := dto.position.toOption.getD 0
  active := dto.active.toOption.getD true
  translations := buildTranslations "description" Table.empty dto.translations dto.title
    dto.description.toOption
  createdAt := 0

def createModule (dto : CreateModuleDto) : Promise LearningModule := do
  let cert ← await (.certificateFindOne dto.certId)
  if cert.isNone then throw (.notFound "Parent certificate not found")
  await (.moduleSave (moduleOf dto))

def modulePatch (dto : UpdateModuleDto) (mod : LearningModule) : UpdateModuleDto :=
  let canonicalChanged := dto.title.defined || dto.description.defined
  if canonicalChanged || dto.translations.defined then
    { dto with
      translations := .value (buildTranslations "description" mod.translations dto.translations
        (dto.title.toOption.getD mod.title) (dto.description.orKeep mod.description)) }
  else dto

section

variable {dto : UpdateModuleDto} {mod : LearningModule}

theorem modulePatch_title : (modulePatch dto mod).title = dto.title := by
  unfold modulePatch
  simp only
  split <;> rfl

theorem modulePatch_description : (modulePatch dto mod).description = dto.description := by
  unfold modulePatch
  simp only
  split <;> rfl

theorem modulePatch_translations : (modulePatch dto mod).translations =
    if dto.title.defined || dto.description.defined || dto.translations.defined then
      .value (buildTranslations "description" mod.translations dto.translations
        (dto.title.toOption.getD mod.title) (dto.description.orKeep mod.description))
    else dto.translations := by
  unfold modulePatch
  simp only
  split <;> rfl

end

/-- `Object.keys(patch).length === 0` -/
def emptyModulePatch (patch : UpdateModuleDto) : Bool :=
  !(patch.title.defined || patch.description.defined || patch.position.defined ||
    patch.active.defined || patch.translations.defined)

def updateModule (id : Id) (dto : UpdateModuleDto) : Promise LearningModule := do
  let mod? ← await (.moduleFindOne id)
  match mod? with
  | none => throw (.notFound "Module not found")
  | some mod =>
    let patch := modulePatch dto mod
    if !emptyModulePatch patch then
      await (.moduleUpdate id patch)
    await (.moduleFindOneOrFail id)

def softDeleteModule (id : Id) : Promise Unit := do
  let mod? ← await (.moduleFindOne id)
  if mod?.isNone then throw (.notFound "Module not found")
  await (.moduleUpdate id ⟨.undefined, .undefined, .undefined, .value false, .undefined⟩)

/-! ## Lessons -/

/-- What `createLesson` saves. -/
def lessonOf (dto : CreateLessonDto) : Lesson where
  id := ""
  moduleId := dto.moduleId
  title := dto.title
  contentText := dto.contentText.toOption
  videoUrl := dto.videoUrl.toOption
  position := dto.position.toOption.getD 0
  durationSeconds := dto.durationSeconds.toOption
  active := dto.active.toOption.getD true
  translations := buildTranslations "content_html" Table.empty dto.translations dto.title
    dto.contentText.toOption
  createdAt := 0

def createLesson (dto : CreateLessonDto) : Promise Lesson := do
  let mod? ← await (.moduleFindOne dto.moduleId)
  if mod?.isNone then throw (.notFound "Parent module not found")
  await (.lessonSave (lessonOf dto))

def lessonPatch (dto : UpdateLessonDto) (lesson : Lesson) : UpdateLessonDto :=
  let canonicalChanged := dto.title.defined || dto.contentText.defined
  if canonicalChanged || dto.translations.defined then
    { dto with
      translations := .value (buildTranslations "content_html" lesson.translations dto.translations
        (dto.title.toOption.getD lesson.title) (dto.contentText.orKeep lesson.contentText)) }
  else dto

section

variable {dto : UpdateLessonDto} {lesson : Lesson}

theorem lessonPatch_title : (lessonPatch dto lesson).title = dto.title := by
  unfold lessonPatch
  simp only
  split <;> rfl

theorem lessonPatch_contentText : (lessonPatch dto lesson).contentText = dto.contentText := by
  unfold lessonPatch
  simp only
  split <;> rfl

theorem lessonPatch_translations : (lessonPatch dto lesson).translations =
    if dto.title.defined || dto.contentText.defined || dto.translations.defined then
      .value (buildTranslations "content_html" lesson.translations dto.translations
        (dto.title.toOption.getD lesson.title) (dto.contentText.orKeep lesson.contentText))
    else dto.translations := by
  unfold lessonPatch
  simp only
  split <;> rfl

end

/-- `Object.keys(patch).length === 0` -/
def emptyLessonPatch (patch : UpdateLessonDto) : Bool :=
  !(patch.title.defined || patch.contentText.defined || patch.videoUrl.defined ||
    patch.position.defined || patch.durationSeconds.defined || patch.active.defined ||
    patch.translations.defined)

def updateLesson (id : Id) (dto : UpdateLessonDto) : Promise Lesson := do
  let lesson? ← await (.lessonFindOne id)
  match lesson? with
  | none => throw (.notFound "Lesson not found")
  | some lesson =>
    let patch := lessonPatch dto lesson
    if !emptyLessonPatch patch then
      await (.lessonUpdate id patch)
    await (.lessonFindOneOrFail id)

def softDeleteLesson (id : Id) : Promise Unit := do
  let lesson? ← await (.lessonFindOne id)
  if lesson?.isNone then throw (.notFound "Lesson not found")
  await (.lessonUpdate id
    ⟨.undefined, .undefined, .undefined, .undefined, .undefined, .value false, .undefined⟩)

/-! ## Students -/

/-- Throws if the student has no purchase of the certificate. -/
def assertPurchased (userId certId : Id) (rlsRunner : Option Id) : Promise Unit := do
  let rows ← await (.purchaseFind rlsRunner userId certId)
  if rows.isEmpty then throw (.forbidden "You have not enrolled in this certificate")

def curriculumLesson (locale : Locale) (completedIds : List Id) (l : Lesson) : CurriculumLesson where
  id := l.id
  title := served l.translations "title" locale l.title
  position := l.position
  durationSeconds := l.durationSeconds
  hasVideo := l.videoUrl.any (· ≠ "")
  completed := completedIds.contains l.id

def curriculumModule (locale : Locale) (completedIds : List Id) (lessons : List Lesson)
    (m : LearningModule) : CurriculumModule where
  id := m.id
  title := served m.translations "title" locale m.title
  position := m.position
  lessons := (lessons.filter (·.moduleId = m.id)).map (curriculumLesson locale completedIds)

def getCurriculum (userId certId : Id) (rlsRunner : Option Id) (locale : Locale) :
    Promise Curriculum := do
  let cert? ← await (.certificateFindOne certId)
  match cert?.filter (·.active) with
  | none => throw (.notFound "Certificate not found")
  | some cert =>
    assertPurchased userId certId rlsRunner
    let modules ← await (.moduleFindActive certId)
    let moduleIds := modules.map (·.id)
    let lessons ← if moduleIds.isEmpty then pure [] else await (.lessonFindActive moduleIds)
    let progress ← await (.progressFind userId)
    let completedIds := progress.map (·.lessonId)
    pure
      { certId := cert.id
        programCode := cert.programCode
        title := served cert.translations "title" locale cert.title
        modules := modules.map (curriculumModule locale completedIds lessons) }

def serveLesson (userId lessonId : Id) (rlsRunner : Option Id) (locale : Locale) :
    Promise ServedLesson := do
  let lesson? ← await (.lessonFindOne lessonId)
  match lesson?.filter (·.active) with
  | none => throw (.notFound "Lesson not found")
  | some lesson =>
    let mod? ← await (.moduleFindOne lesson.moduleId)
    match mod? with
    | none => throw (.notFound "Lesson not found")
    | some mod =>
      assertPurchased userId mod.certId rlsRunner
      let completed ← await (.progressFindOne userId lessonId)
      let titleRes := resolveTranslation lesson.translations "title" locale
      let bodyRes := resolveTranslation lesson.translations "content_html" locale
      let signedVideoUrl ← match lesson.videoUrl.filter (· ≠ "") with
        | none => pure none
        | some videoUrl => do
          let url ← await (.getSignedUrl videoUrl videoSignedUrlTtlSec)
          pure (some url)
      pure
        { id := lesson.id
          moduleId := lesson.moduleId
          title := titleRes.value.or (some (.str lesson.title))
          contentHtml := bodyRes.value.or (lesson.contentText.map Json.str)
          videoUrl := signedVideoUrl
          durationSeconds := lesson.durationSeconds
          position := lesson.position
          completedAt := completed.map (·.completedAt)
          fallbackUsed := titleRes.fallbackUsed || bodyRes.fallbackUsed }

def markComplete (userId lessonId : Id) (rlsRunner : Option Id) : Promise Completion := do
  let lesson? ← await (.lessonFindOne lessonId)
  match lesson?.filter (·.active) with
  | none => throw (.notFound "Lesson not found")
  | some lesson =>
    let mod? ← await (.moduleFindOne lesson.moduleId)
    match mod? with
    | none => throw (.notFound "Lesson not found")
    | some mod =>
      assertPurchased userId mod.certId rlsRunner
      -- Re-marking complete is a no-op.
      let existing ← await (.progressFindOne userId lessonId)
      match existing with
      | some existing => pure ⟨lessonId, existing.completedAt, true⟩
      | none =>
        let now ← await .now
        let saved ← await (.progressSave ⟨userId, lessonId, now⟩)
        pure ⟨lessonId, saved.completedAt, false⟩

def findPurchases (userId : Id) (rlsRunner : Option Id) : Promise (List StudentPurchase) :=
  await (.purchaseFindAll rlsRunner userId)

/-- `Math.round((completed / total) * 100)`, in double precision. -/
def percentComplete (completed total : Nat) : Int :=
  if total = 0 then 0
  else roundHalfUp (binary64 (binary64 ((completed : Rat) / total) * 100))

def certificateProgress (locale : Locale) (modules : List LearningModule) (lessons : List Lesson)
    (completedIds : List Id) (cert : Certificate) : CertificateProgress :=
  let certModuleIds := (modules.filter (·.certId = cert.id)).map (·.id)
  let certLessons := lessons.filter fun l => certModuleIds.contains l.moduleId
  let completedCount := (certLessons.filter fun l => completedIds.contains l.id).length
  { certId := cert.id
    programCode := cert.programCode
    title := served cert.translations "title" locale cert.title
    totalLessons := certLessons.length
    completedLessons := completedCount
    percentComplete := percentComplete completedCount certLessons.length }

/-- No order of the rows is asked for, and none is used. -/
def getProgressSummary (userId : Id) (rlsRunner : Option Id) (locale : Locale) :
    Promise (List CertificateProgress) := do
  let purchases ← findPurchases userId rlsRunner
  if purchases.isEmpty then pure []
  else
    let certIds := purchases.map (·.certId)
    let certs ← await (.certificateFindAll certIds)
    let modules ← await (.moduleFindAllActive certIds)
    let moduleIds := modules.map (·.id)
    let lessons ← if moduleIds.isEmpty then pure [] else await (.lessonFindActive moduleIds)
    let completed ← await (.progressFind userId)
    let completedIds := completed.map (·.lessonId)
    pure (certs.map (certificateProgress locale modules lessons completedIds))

end LearningService

end LmsBackend.Content
