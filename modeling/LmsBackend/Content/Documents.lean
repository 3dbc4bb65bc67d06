import LmsBackend.Content.OneCall
import LmsBackend.Content.Writes

/-!
# Stored documents

Which calls put which translations into a row, for the keys of what is stored.
-/

open Async Store

namespace LmsBackend.Content

/-! ## Supported documents -/

@[mk_iff]
structure World.Supported (w : World) : Prop where
  certificates : ∀ c ∈ w.certificates.rows, c.translations.Supported
  modules : ∀ m ∈ w.modules.rows, m.translations.Supported
  lessons : ∀ l ∈ w.lessons.rows, l.translations.Supported

/-- The document of a body has supported locales only, if there is one. -/
def Field.Supported (translations : Field Translations) : Prop :=
  (translations.toOption.getD Table.empty).Supported

/-- No check of the code stands for this one. -/
def Task.BodySupported : Task → Prop
  | .create dto => dto.translations.Supported
  | .update _ dto => dto.translations.Supported
  | .createModule dto => dto.translations.Supported
  | .updateModule _ dto => dto.translations.Supported
  | .createLesson dto => dto.translations.Supported
  | .updateLesson _ dto => dto.translations.Supported
  | _ => True

theorem supported_empty : Translations.Supported Table.empty := nofun

/-- A merge keeps the keys of the row and takes over those of the body. -/
theorem supported_merge_iff {bodyKey canonicalTitle : String} {existing : Translations}
    {dtoTranslations : Field Translations} {canonicalBody : Option String} :
    (mergeTranslations bodyKey existing dtoTranslations canonicalTitle canonicalBody).Supported ↔
      existing.Supported ∧ dtoTranslations.Supported := by
  unfold mergeTranslations
  simp only
  split
  · exact Translations.supported_spread_iff
  · rw [Translations.supported_put_iff rfl]
    exact Translations.supported_spread_iff

/-- What is set, when translations are set at all: the old document with that of the body. -/
def Merges (patch dto : Field Translations) (old : Translations) : Prop :=
  patch = dto ∧ dto.defined = false ∨
    ∃ t, patch = .value t ∧ (t.Supported ↔ old.Supported ∧ dto.Supported)

theorem merges_iff {old patched : Translations} {dto patch : Field Translations}
    (hpatch : Merges patch dto old) (h : patch.setNotNull old = some patched) :
    patched.Supported ↔ old.Supported ∧ dto.Supported := by
  rcases hpatch with ⟨rfl, hdto⟩ | ⟨t, rfl, ht⟩
  · cases patch with
    | undefined =>
      cases h
      exact (and_iff_left supported_empty).symm
    | _ => cases hdto
  · cases h
    exact ht

theorem updatePatch_merges {dto : UpdateCertificateDto} {cert : Certificate} :
    Merges (CatalogService.updatePatch dto cert).translations dto.translations cert.translations := by
  rw [CatalogService.updatePatch_translations]
  split
  · exact .inr ⟨_, rfl, supported_merge_iff⟩
  · rename_i h
    simp only [Bool.or_eq_true, not_or, Bool.not_eq_true] at h
    exact .inl ⟨rfl, h.2⟩

theorem modulePatch_merges {dto : UpdateModuleDto} {mod : LearningModule} :
    Merges (LearningService.modulePatch dto mod).translations dto.translations mod.translations := by
  rw [LearningService.modulePatch_translations]
  split
  · exact .inr ⟨_, rfl, supported_merge_iff⟩
  · rename_i h
    simp only [Bool.or_eq_true, not_or, Bool.not_eq_true] at h
    exact .inl ⟨rfl, h.2⟩

theorem lessonPatch_merges {dto : UpdateLessonDto} {lesson : Lesson} :
    Merges (LearningService.lessonPatch dto lesson).translations dto.translations
      lesson.translations := by
  rw [LearningService.lessonPatch_translations]
  split
  · exact .inr ⟨_, rfl, supported_merge_iff⟩
  · rename_i h
    simp only [Bool.or_eq_true, not_or, Bool.not_eq_true] at h
    exact .inl ⟨rfl, h.2⟩

theorem translationsPatch_merges {incoming : Translations} {cert : Certificate} :
    Merges (CatalogService.translationsPatch incoming cert).translations (.value incoming)
      cert.translations := by
  rw [CatalogService.translationsPatch_translations]
  exact .inr ⟨_, rfl, Translations.supported_spread_iff⟩

/-- What an update sets, if it sets translations at all. -/
def Field.SetsSupported (translations : Field Translations) : Prop :=
  ∀ t, translations = .value t → t.Supported

theorem Merges.setsSupported {patch dto : Field Translations} {old : Translations}
    (h : Merges patch dto old) (hold : old.Supported) (hdto : dto.Supported) :
    patch.SetsSupported := by
  rintro t rfl
  rcases h with ⟨rfl, hundefined⟩ | ⟨t', ht', hsupported⟩
  · cases hundefined
  · cases ht'
    exact hsupported.mpr ⟨hold, hdto⟩

theorem setNotNull_supported {patched old : Translations} {f : Field Translations}
    (h : f.setNotNull old = some patched) (hf : f.SetsSupported) (hold : old.Supported) :
    patched.Supported := by
  cases f with
  | undefined => cases h; exact hold
  | null => cases h
  | value t => cases h; exact hf _ rfl

/-! ## Calls that set no document -/

def quietContract : Contract Call Resp where
  may
    | .certificateSave _ | .moduleSave _ | .lessonSave _ => False
    | .certificateUpdate _ patch => patch.translations = .undefined
    | .moduleUpdate _ patch => patch.translations = .undefined
    | .lessonUpdate _ patch => patch.translations = .undefined
    | _ => True
  gets _ _ := True

/-- The tasks that set none. -/
def Task.Quiet : Task → Prop
  | .softDelete _ | .softDeleteModule _ | .softDeleteLesson _ => True
  | .getCurriculum _ _ _ | .serveLesson _ _ _ | .markComplete _ _ | .getProgressSummary _ _ => True
  | _ => False

theorem quiet_permits {t : Task} (ht : t.Quiet) : Permits quietContract t where
  reads := by
    intro c hc
    cases c with
    | certificateSave row => cases hc
    | certificateUpdate id patch => cases hc
    | moduleSave row => cases hc
    | moduleUpdate id patch => cases hc
    | lessonSave row => cases hc
    | lessonUpdate id patch => cases hc
    | _ => trivial
  writes := by
    intro c hc
    cases hc with
    | softDelete => rfl
    | softDeleteModule => rfl
    | softDeleteLesson => rfl
    | _ => cases ht

/-! ## Rows that come and rows that change -/

/-- What the tables give and keep. -/
theorem get_forall {R : Type} [Keyed R Id] {t : Table R} {id : Id} {p : R → Prop}
    (hall : ∀ r ∈ t.rows, p r) : ∀ r, t.get id = some r → p r :=
  fun r hr => hall r (Table.get_some_iff.mp hr).1

theorem put_forall {R : Type} [Keyed R Id] {t : Table R} {row : R} {p : R → Prop}
    (hall : ∀ r ∈ t.rows, p r) (hrow : p row) : ∀ r ∈ (t.put row).rows, p r := by
  intro r hr
  rcases Table.mem_put.mp hr with rfl | ⟨hr, -⟩
  · exact hrow
  · exact hall r hr

section

variable {w : World}

theorem insert_iff {R : Type} [Keyed R Id] {t : Table R} {row : R} {p : R → Prop}
    (hnew : t.get (Keyed.key row) = none) :
    (∀ r ∈ (t.put row).rows, p r) ↔ (∀ r ∈ t.rows, p r) ∧ p row :=
  Table.forall_put_iff fun r hr => by rw [hnew] at hr; cases hr

/-- A row that stays as bad as it was. -/
theorem replace_iff {R : Type} [Keyed R Id] {t : Table R} {row row' : R} {p : R → Prop} {b : Prop}
    (hrow : t.get (Keyed.key row') = some row) (hp : p row' ↔ p row ∧ b) :
    (∀ r ∈ (t.put row').rows, p r) ↔ (∀ r ∈ t.rows, p r) ∧ b := by
  rw [Table.forall_put_iff fun r hr hr' => ?_, hp]
  · exact ⟨fun h => ⟨h.1, h.2.2⟩, fun h => ⟨h.1, get_forall h.1 row hrow, h.2⟩⟩
  · cases hrow.symm.trans hr
    exact (hp.mp hr').1

theorem insert_certificate_iff {row : Certificate} (hnew : w.certificates.get row.id = none) :
    ({ w with certificates := w.certificates.put row } : World).Supported ↔
      w.Supported ∧ row.translations.Supported := by
  rw [World.supported_iff, World.supported_iff, insert_iff hnew]
  tauto

theorem insert_module_iff {row : LearningModule} (hnew : w.modules.get row.id = none) :
    ({ w with modules := w.modules.put row } : World).Supported ↔
      w.Supported ∧ row.translations.Supported := by
  rw [World.supported_iff, World.supported_iff, insert_iff hnew]
  tauto

theorem insert_lesson_iff {row : Lesson} (hnew : w.lessons.get row.id = none) :
    ({ w with lessons := w.lessons.put row } : World).Supported ↔
      w.Supported ∧ row.translations.Supported := by
  rw [World.supported_iff, World.supported_iff, insert_iff hnew]
  tauto

theorem replace_certificate_iff {row row' : Certificate} {patch : UpdateCertificateDto}
    {dto : Field Translations} (hrow : w.certificates.get row.id = some row)
    (h : row.Patched patch row') (hpatch : Merges patch.translations dto row.translations) :
    ({ w with certificates := w.certificates.put row' } : World).Supported ↔
      w.Supported ∧ dto.Supported := by
  have hreplace := merges_iff hpatch h.translations
  have hkey : w.certificates.get (Keyed.key row') = some row := by
    rw [Certificate.keyed, h.id]
    exact hrow
  have hrows := replace_iff (p := fun c : Certificate => c.translations.Supported) hkey hreplace
  rw [World.supported_iff, World.supported_iff, hrows]
  tauto

theorem replace_module_iff {row row' : LearningModule} {patch : UpdateModuleDto}
    {dto : Field Translations} (hrow : w.modules.get row.id = some row)
    (h : row.Patched patch row') (hpatch : Merges patch.translations dto row.translations) :
    ({ w with modules := w.modules.put row' } : World).Supported ↔
      w.Supported ∧ dto.Supported := by
  have hreplace := merges_iff hpatch h.translations
  have hkey : w.modules.get (Keyed.key row') = some row := by
    rw [LearningModule.keyed, h.id]
    exact hrow
  have hrows := replace_iff (p := fun m : LearningModule => m.translations.Supported) hkey hreplace
  rw [World.supported_iff, World.supported_iff, hrows]
  tauto

theorem replace_lesson_iff {row row' : Lesson} {patch : UpdateLessonDto}
    {dto : Field Translations} (hrow : w.lessons.get row.id = some row)
    (h : row.Patched patch row') (hpatch : Merges patch.translations dto row.translations) :
    ({ w with lessons := w.lessons.put row' } : World).Supported ↔
      w.Supported ∧ dto.Supported := by
  have hreplace := merges_iff hpatch h.translations
  have hkey : w.lessons.get (Keyed.key row') = some row := by
    rw [Lesson.keyed, h.id]
    exact hrow
  have hrows := replace_iff (p := fun l : Lesson => l.translations.Supported) hkey hreplace
  rw [World.supported_iff, World.supported_iff, hrows]
  tauto

end

end LmsBackend.Content
