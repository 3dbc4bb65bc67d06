import LmsBackend.Content.World

/-! # The write side of `CatalogService` -/

open Async Store

namespace LmsBackend.Content

/-- An async function of the services. -/
abbrev Promise := Prog Call Resp Err

def await (c : Call) : Promise (Resp c) := Prog.await c

/-- The block of canonical texts. A body that is missing has no field. -/
def enBlock (bodyKey canonicalTitle : String) (canonicalBody : Option String) : Block :=
  .fields (("title", .str canonicalTitle) ::
    (canonicalBody.map fun body => (bodyKey, Json.str body)).toList)

/-- Both services merge like this: each given block replaces that of its locale, and `en` is made
of the canonical texts unless it is given. -/
def mergeTranslations (bodyKey : String) (existing : Translations)
    (dtoTranslations : Field Translations) (canonicalTitle : String)
    (canonicalBody : Option String) : Translations :=
  let dtoT := dtoTranslations.toOption.getD Table.empty
  let explicitEn := (dtoT.get "en").isSome
  let merged := existing.spread dtoT
  if explicitEn then merged
  else merged.put ⟨"en", enBlock bodyKey canonicalTitle canonicalBody⟩

/-! ## `CatalogService` -/

namespace CatalogService

def buildTranslations (existing : Translations) (dtoTranslations : Field Translations)
    (canonicalTitle : String) (canonicalDescription : Option String) : Translations :=
  mergeTranslations "description" existing dtoTranslations canonicalTitle canonicalDescription

/-- What `create` saves. -/
def certificateOf (dto : CreateCertificateDto) : Certificate where
  id := ""
  title := dto.title
  programCode := dto.programCode
  price := dto.price
  currency := dto.currency.toOption.getD "USD"
  description := dto.description.toOption
  thumbnailUrl := dto.thumbnailUrl.toOption
  active := dto.active.toOption.getD true
  translations := buildTranslations Table.empty dto.translations dto.title dto.description.toOption

/-- A row stands for its DTO in what these functions return. -/
def create (dto : CreateCertificateDto) : Promise Certificate := do
  let existing ← await (.certificateFindByProgramCode dto.programCode)
  if existing.isSome then
    throw (.conflict s!"A certificate with program code '{dto.programCode}' already exists")
  await (.certificateSave (certificateOf dto))

/-- `dto.programCode && dto.programCode !== cert.programCode` -/
def newProgramCode? (dto : UpdateCertificateDto) (cert : Certificate) : Option String :=
  dto.programCode.toOption.filter fun programCode =>
    programCode ≠ "" ∧ programCode ≠ cert.programCode

def updatePatch (dto : UpdateCertificateDto) (cert : Certificate) : UpdateCertificateDto :=
  let canonicalChanged := dto.title.defined || dto.description.defined
  if canonicalChanged || dto.translations.defined then
    { dto with
      translations := .value (buildTranslations cert.translations dto.translations
        (dto.title.toOption.getD cert.title) (dto.description.orKeep cert.description)) }
  else dto

section

variable {dto : UpdateCertificateDto} {cert : Certificate}

theorem updatePatch_title : (updatePatch dto cert).title = dto.title := by
  unfold updatePatch
  simp only
  split <;> rfl

theorem updatePatch_programCode : (updatePatch dto cert).programCode = dto.programCode := by
  unfold updatePatch
  simp only
  split <;> rfl

theorem updatePatch_description : (updatePatch dto cert).description = dto.description := by
  unfold updatePatch
  simp only
  split <;> rfl

theorem updatePatch_translations : (updatePatch dto cert).translations =
    if dto.title.defined || dto.description.defined || dto.translations.defined then
      .value (buildTranslations cert.translations dto.translations
        (dto.title.toOption.getD cert.title) (dto.description.orKeep cert.description))
    else dto.translations := by
  unfold updatePatch
  simp only
  split <;> rfl

end

/-- `Object.keys(patch).length === 0` -/
def emptyPatch (patch : UpdateCertificateDto) : Bool :=
  !(patch.title.defined || patch.programCode.defined || patch.price.defined ||
    patch.currency.defined || patch.description.defined || patch.thumbnailUrl.defined ||
    patch.active.defined || patch.translations.defined)

def update (id : Id) (dto : UpdateCertificateDto) : Promise Certificate := do
  let cert? ← await (.certificateFindOne id)
  match cert? with
  | none => throw (.notFound "Certificate not found")
  | some cert =>
    match newProgramCode? dto cert with
    | none => pure ()
    | some programCode =>
      let clash ← await (.certificateFindByProgramCode programCode)
      if clash.any (· ≠ id) then
        throw (.conflict s!"A certificate with program code '{programCode}' already exists")
    let patch := updatePatch dto cert
    if !emptyPatch patch then
      await (.certificateUpdate id patch)
    await (.certificateFindOneOrFail id)

/-- A patch that sets nothing. -/
def noPatch : UpdateCertificateDto :=
  ⟨.undefined, .undefined, .undefined, .undefined, .undefined, .undefined, .undefined, .undefined⟩

/-- `merged.en?.title && merged.en.title !== cert.title`: the title that the row gets. -/
def newTitle? (merged : Translations) (cert : Certificate) : Option Json :=
  (merged.field? "en" "title").filter fun title => title.truthy ∧ title ≠ .str cert.title

def translationsPatch (incoming : Translations) (cert : Certificate) : UpdateCertificateDto :=
  let merged := cert.translations.spread incoming
  match newTitle? merged cert with
  | some title => { noPatch with title := .value title.text, translations := .value merged }
  | none => { noPatch with translations := .value merged }

section

variable {incoming : Translations} {cert : Certificate}

theorem translationsPatch_translations : (translationsPatch incoming cert).translations =
    .value (cert.translations.spread incoming) := by
  unfold translationsPatch
  simp only
  split <;> rfl

theorem translationsPatch_description :
    (translationsPatch incoming cert).description = .undefined := by
  unfold translationsPatch
  simp only
  split <;> rfl

theorem translationsPatch_programCode :
    (translationsPatch incoming cert).programCode = .undefined := by
  unfold translationsPatch
  simp only
  split <;> rfl

end

def updateTranslations (id : Id) (incoming : Translations) : Promise Certificate := do
  let cert? ← await (.certificateFindOne id)
  match cert? with
  | none => throw (.notFound "Certificate not found")
  | some cert =>
    match incoming.rows.find? fun b => !isLocale b.locale with
    | some b => throw (.badRequest s!"Unsupported locale: '{b.locale}'")
    | none =>
      await (.certificateUpdate id (translationsPatch incoming cert))
      await (.certificateFindOneOrFail id)

def softDelete (id : Id) : Promise Unit := do
  let cert? ← await (.certificateFindOne id)
  match cert? with
  | none => throw (.notFound "Certificate not found")
  | some _ => await (.certificateUpdate id { noPatch with active := .value false })

end CatalogService

end LmsBackend.Content
