import LmsBackend.Async.Contract
import LmsBackend.Content.System

/-!
# What each task may write

A contract covers a task once it allows every read and the few writes that the
task makes of what it has read.
-/

open Async Store

namespace LmsBackend.Content

/-- The calls that change certificates, modules or lessons. -/
def Call.writes : Call → Bool
  | .certificateSave _ | .certificateUpdate _ _ => true
  | .moduleSave _ | .moduleUpdate _ _ => true
  | .lessonSave _ | .lessonUpdate _ _ => true
  | _ => false

/-- What `softDeleteModule` sets. -/
def hideModule : UpdateModuleDto := ⟨.undefined, .undefined, .undefined, .value false, .undefined⟩

/-- What `softDeleteLesson` sets. -/
def hideLesson : UpdateLessonDto :=
  ⟨.undefined, .undefined, .undefined, .undefined, .undefined, .value false, .undefined⟩

/-- The writes of a task. A patch is made of a row that the task has read. -/
inductive Task.Writes (gets : (c : Call) → Resp c → Prop) : Task → Call → Prop where
  | create {dto row} (hcode : row.programCode = dto.programCode)
      (hdocument : row.translations = CatalogService.buildTranslations Table.empty dto.translations
        dto.title dto.description.toOption) :
      Writes gets (.create dto) (.certificateSave row)
  | update {id dto cert} (hcert : gets (.certificateFindOne id) (some cert)) :
      Writes gets (.update id dto) (.certificateUpdate id (CatalogService.updatePatch dto cert))
  | updateTranslations {id incoming cert} (hcert : gets (.certificateFindOne id) (some cert))
      (hincoming : incoming.Supported) :
      Writes gets (.updateTranslations id incoming)
        (.certificateUpdate id (CatalogService.translationsPatch incoming cert))
  | softDelete {id} :
      Writes gets (.softDelete id)
        (.certificateUpdate id { CatalogService.noPatch with active := .value false })
  | createModule {dto row}
      (hdocument : row.translations = LearningService.buildTranslations "description" Table.empty
        dto.translations dto.title dto.description.toOption) :
      Writes gets (.createModule dto) (.moduleSave row)
  | updateModule {id dto mod} (hmod : gets (.moduleFindOne id) (some mod)) :
      Writes gets (.updateModule id dto) (.moduleUpdate id (LearningService.modulePatch dto mod))
  | softDeleteModule {id} : Writes gets (.softDeleteModule id) (.moduleUpdate id hideModule)
  | createLesson {dto row}
      (hdocument : row.translations = LearningService.buildTranslations "content_html" Table.empty
        dto.translations dto.title dto.contentText.toOption) :
      Writes gets (.createLesson dto) (.lessonSave row)
  | updateLesson {id dto lesson} (hlesson : gets (.lessonFindOne id) (some lesson)) :
      Writes gets (.updateLesson id dto) (.lessonUpdate id (LearningService.lessonPatch dto lesson))
  | softDeleteLesson {id} : Writes gets (.softDeleteLesson id) (.lessonUpdate id hideLesson)

/-- The contract allows what the task does. -/
structure Permits (K : Contract Call Resp) (t : Task) : Prop where
  reads : ∀ c : Call, c.writes = false → K.may c
  writes : ∀ c, t.Writes K.gets c → K.may c

section

variable {K : Contract Call Resp}

theorem await_meets {c : Call} {Q : Resp c → Prop} (hmay : K.may c)
    (hQ : ∀ a, K.gets c a → Q a) : K.Meets (await c) Q :=
  (Contract.meets_await c).mpr ⟨hmay, hQ⟩

theorem bind_meets {α β : Type} {p : Promise α} {f : α → Promise β} {Q : β → Prop}
    (h : K.Meets p fun a => K.Meets (f a) Q) : K.Meets (p >>= f) Q :=
  (Contract.meets_bind f).mpr h

/-- Goes on after a call, whatever it answers. -/
theorem then_meets {c : Call} {β : Type} {f : Resp c → Promise β} {Q : β → Prop} (hmay : K.may c)
    (hf : ∀ a, K.gets c a → K.Meets (f a) Q) : K.Meets (await c >>= f) Q :=
  bind_meets (await_meets hmay hf)

theorem create_meets {dto : CreateCertificateDto} (h : Permits K (.create dto)) :
    K.Meets (CatalogService.create dto) fun _ => True := by
  unfold CatalogService.create
  refine then_meets (h.reads _ rfl) fun existing _ => ?_
  split
  · trivial
  · exact await_meets (h.writes _ (.create rfl rfl)) fun _ _ => trivial

theorem update_meets {id : Id} {dto : UpdateCertificateDto} (h : Permits K (.update id dto)) :
    K.Meets (CatalogService.update id dto) fun _ => True := by
  unfold CatalogService.update
  refine then_meets (h.reads _ rfl) fun cert? hcert => ?_
  cases cert? with
  | none => trivial
  | some cert =>
    have hread : K.Meets (await (.certificateFindOneOrFail id)) fun _ => True :=
      await_meets (h.reads _ rfl) fun _ _ => trivial
    have hwrite : K.Meets (do
        let patch := CatalogService.updatePatch dto cert
        if !CatalogService.emptyPatch patch then
          await (.certificateUpdate id patch)
        await (.certificateFindOneOrFail id)) fun _ => True := by
      simp only
      split
      · exact then_meets (h.writes _ (.update hcert)) fun _ _ => hread
      · exact hread
    simp only
    split
    · exact hwrite
    · refine then_meets (h.reads _ rfl) fun clash _ => ?_
      split
      · trivial
      · exact hwrite

theorem updateTranslations_meets {id : Id} {incoming : Translations}
    (h : Permits K (.updateTranslations id incoming)) :
    K.Meets (CatalogService.updateTranslations id incoming) fun _ => True := by
  unfold CatalogService.updateTranslations
  refine then_meets (h.reads _ rfl) fun cert? hcert => ?_
  cases cert? with
  | none => trivial
  | some cert =>
    cases hfind : incoming.rows.find? fun b => !isLocale b.locale with
    | some b => trivial
    | none =>
      have hincoming : incoming.Supported := by
        intro b hb
        simpa using List.find?_eq_none.mp hfind b hb
      refine then_meets (h.writes _ (.updateTranslations hcert hincoming)) fun _ _ => ?_
      exact await_meets (h.reads _ rfl) fun _ _ => trivial

theorem softDelete_meets {id : Id} (h : Permits K (.softDelete id)) :
    K.Meets (CatalogService.softDelete id) fun _ => True := by
  unfold CatalogService.softDelete
  refine then_meets (h.reads _ rfl) fun cert? _ => ?_
  cases cert? with
  | none => trivial
  | some cert => exact await_meets (h.writes _ .softDelete) fun _ _ => trivial

theorem createModule_meets {dto : CreateModuleDto} (h : Permits K (.createModule dto)) :
    K.Meets (LearningService.createModule dto) fun _ => True := by
  unfold LearningService.createModule
  refine then_meets (h.reads _ rfl) fun cert _ => ?_
  split
  · trivial
  · exact await_meets (h.writes _ (.createModule rfl)) fun _ _ => trivial

theorem updateModule_meets {id : Id} {dto : UpdateModuleDto} (h : Permits K (.updateModule id dto)) :
    K.Meets (LearningService.updateModule id dto) fun _ => True := by
  unfold LearningService.updateModule
  refine then_meets (h.reads _ rfl) fun mod? hmod => ?_
  cases mod? with
  | none => trivial
  | some mod =>
    have hread : K.Meets (await (.moduleFindOneOrFail id)) fun _ => True :=
      await_meets (h.reads _ rfl) fun _ _ => trivial
    simp only
    split
    · exact then_meets (h.writes _ (.updateModule hmod)) fun _ _ => hread
    · exact hread

theorem softDeleteModule_meets {id : Id} (h : Permits K (.softDeleteModule id)) :
    K.Meets (LearningService.softDeleteModule id) fun _ => True := by
  unfold LearningService.softDeleteModule
  refine then_meets (h.reads _ rfl) fun mod? _ => ?_
  split
  · trivial
  · exact await_meets (h.writes _ .softDeleteModule) fun _ _ => trivial

theorem createLesson_meets {dto : CreateLessonDto} (h : Permits K (.createLesson dto)) :
    K.Meets (LearningService.createLesson dto) fun _ => True := by
  unfold LearningService.createLesson
  refine then_meets (h.reads _ rfl) fun mod? _ => ?_
  split
  · trivial
  · exact await_meets (h.writes _ (.createLesson rfl)) fun _ _ => trivial

theorem updateLesson_meets {id : Id} {dto : UpdateLessonDto} (h : Permits K (.updateLesson id dto)) :
    K.Meets (LearningService.updateLesson id dto) fun _ => True := by
  unfold LearningService.updateLesson
  refine then_meets (h.reads _ rfl) fun lesson? hlesson => ?_
  cases lesson? with
  | none => trivial
  | some lesson =>
    have hread : K.Meets (await (.lessonFindOneOrFail id)) fun _ => True :=
      await_meets (h.reads _ rfl) fun _ _ => trivial
    simp only
    split
    · exact then_meets (h.writes _ (.updateLesson hlesson)) fun _ _ => hread
    · exact hread

theorem softDeleteLesson_meets {id : Id} (h : Permits K (.softDeleteLesson id)) :
    K.Meets (LearningService.softDeleteLesson id) fun _ => True := by
  unfold LearningService.softDeleteLesson
  refine then_meets (h.reads _ rfl) fun lesson? _ => ?_
  split
  · trivial
  · exact await_meets (h.writes _ .softDeleteLesson) fun _ _ => trivial

variable {userId : Id} {rlsRunner : Option Id} {locale : Locale}

theorem assertPurchased_meets {certId : Id} {Q : Unit → Prop}
    (hreads : ∀ c : Call, c.writes = false → K.may c) (hQ : Q ()) :
    K.Meets (LearningService.assertPurchased userId certId rlsRunner) Q := by
  unfold LearningService.assertPurchased
  refine then_meets (hreads _ rfl) fun rows _ => ?_
  split
  · trivial
  · exact hQ

theorem getCurriculum_meets {certId : Id} (hreads : ∀ c : Call, c.writes = false → K.may c) :
    K.Meets (LearningService.getCurriculum userId certId rlsRunner locale) fun _ => True := by
  unfold LearningService.getCurriculum
  refine then_meets (hreads _ rfl) fun cert? _ => ?_
  cases cert?.filter (·.active) with
  | none => trivial
  | some cert =>
    refine bind_meets (assertPurchased_meets hreads ?_)
    refine then_meets (hreads _ rfl) fun modules _ => ?_
    have hrest : ∀ f : List StudentProgress → Curriculum,
        K.Meets (await (.progressFind userId) >>= fun progress => pure (f progress)) fun _ => True :=
      fun _ => then_meets (hreads _ rfl) fun _ _ => trivial
    simp only
    split
    · exact hrest _
    · exact then_meets (hreads _ rfl) fun lessons _ => hrest _

theorem serveLesson_meets {lessonId : Id} (hreads : ∀ c : Call, c.writes = false → K.may c) :
    K.Meets (LearningService.serveLesson userId lessonId rlsRunner locale) fun _ => True := by
  unfold LearningService.serveLesson
  refine then_meets (hreads _ rfl) fun lesson? _ => ?_
  cases lesson?.filter (·.active) with
  | none => trivial
  | some lesson =>
    refine then_meets (hreads _ rfl) fun mod? _ => ?_
    cases mod? with
    | none => trivial
    | some mod =>
      refine bind_meets (assertPurchased_meets hreads ?_)
      refine then_meets (hreads _ rfl) fun completed _ => ?_
      simp only
      split
      · trivial
      · exact then_meets (hreads _ rfl) fun _ _ => trivial

theorem markComplete_meets {lessonId : Id} (hreads : ∀ c : Call, c.writes = false → K.may c) :
    K.Meets (LearningService.markComplete userId lessonId rlsRunner) fun _ => True := by
  unfold LearningService.markComplete
  refine then_meets (hreads _ rfl) fun lesson? _ => ?_
  cases lesson?.filter (·.active) with
  | none => trivial
  | some lesson =>
    refine then_meets (hreads _ rfl) fun mod? _ => ?_
    cases mod? with
    | none => trivial
    | some mod =>
      refine bind_meets (assertPurchased_meets hreads ?_)
      refine then_meets (hreads _ rfl) fun existing _ => ?_
      cases existing with
      | some existing => trivial
      | none =>
        refine then_meets (hreads _ rfl) fun now _ => ?_
        exact then_meets (hreads _ rfl) fun _ _ => trivial

theorem getProgressSummary_meets (hreads : ∀ c : Call, c.writes = false → K.may c) :
    K.Meets (LearningService.getProgressSummary userId rlsRunner locale) fun _ => True := by
  unfold LearningService.getProgressSummary LearningService.findPurchases
  refine then_meets (hreads _ rfl) fun purchases _ => ?_
  split
  · trivial
  · refine then_meets (hreads _ rfl) fun certs _ => ?_
    refine then_meets (hreads _ rfl) fun modules _ => ?_
    have hrest : ∀ f : List StudentProgress → List CertificateProgress,
        K.Meets (await (.progressFind userId) >>= fun completed => pure (f completed)) fun _ => True :=
      fun _ => then_meets (hreads _ rfl) fun _ _ => trivial
    simp only
    split
    · exact hrest _
    · exact then_meets (hreads _ rfl) fun lessons _ => hrest _

/-- Every task keeps to a contract that permits it. -/
theorem task_meets {t : Task} (h : Permits K t) : K.Meets (contentSystem.prog t) fun _ => True := by
  have hreply : ∀ {α : Type} {p : Promise α} {f : α → Reply}, (K.Meets p fun _ => True) →
      K.Meets (p >>= fun a => pure (f a)) fun _ => True :=
    fun hp => bind_meets (hp.mono fun _ _ => trivial)
  cases t with
  | create dto => exact hreply (create_meets h)
  | update id dto => exact hreply (update_meets h)
  | updateTranslations id incoming => exact hreply (updateTranslations_meets h)
  | softDelete id => exact hreply (softDelete_meets h)
  | createModule dto => exact hreply (createModule_meets h)
  | updateModule id dto => exact hreply (updateModule_meets h)
  | softDeleteModule id => exact hreply (softDeleteModule_meets h)
  | createLesson dto => exact hreply (createLesson_meets h)
  | updateLesson id dto => exact hreply (updateLesson_meets h)
  | softDeleteLesson id => exact hreply (softDeleteLesson_meets h)
  | getCurriculum userId certId locale => exact hreply (getCurriculum_meets h.reads)
  | serveLesson userId lessonId locale => exact hreply (serveLesson_meets h.reads)
  | markComplete userId lessonId => exact hreply (markComplete_meets h.reads)
  | getProgressSummary userId locale => exact hreply (getProgressSummary_meets h.reads)

end

end LmsBackend.Content
