import LmsBackend.Content.LearningService

/-!
# The content requests

The admin and student requests that the pool runs. A student's request has a
runner that carries the student's id.
-/

open Async Store

namespace LmsBackend.Content

inductive Task where
  | create (dto : CreateCertificateDto)
  | update (id : Id) (dto : UpdateCertificateDto)
  | updateTranslations (id : Id) (incoming : Translations)
  | softDelete (id : Id)
  | createModule (dto : CreateModuleDto)
  | updateModule (id : Id) (dto : UpdateModuleDto)
  | softDeleteModule (id : Id)
  | createLesson (dto : CreateLessonDto)
  | updateLesson (id : Id) (dto : UpdateLessonDto)
  | softDeleteLesson (id : Id)
  | getCurriculum (userId certId : Id) (locale : Locale)
  | serveLesson (userId lessonId : Id) (locale : Locale)
  | markComplete (userId lessonId : Id)
  | getProgressSummary (userId : Id) (locale : Locale)

inductive Reply where
  | certificate (row : Certificate)
  | learningModule (row : LearningModule)
  | lesson (row : Lesson)
  | deleted
  | curriculum (c : Curriculum)
  | served (l : ServedLesson)
  | completed (c : Completion)
  | progress (rows : List CertificateProgress)

def Task.prog : Task → Promise Reply
  | .create dto => do
    let row ← CatalogService.create dto
    pure (.certificate row)
  | .update id dto => do
    let row ← CatalogService.update id dto
    pure (.certificate row)
  | .updateTranslations id incoming => do
    let row ← CatalogService.updateTranslations id incoming
    pure (.certificate row)
  | .softDelete id => do
    CatalogService.softDelete id
    pure .deleted
  | .createModule dto => do
    let row ← LearningService.createModule dto
    pure (.learningModule row)
  | .updateModule id dto => do
    let row ← LearningService.updateModule id dto
    pure (.learningModule row)
  | .softDeleteModule id => do
    LearningService.softDeleteModule id
    pure .deleted
  | .createLesson dto => do
    let row ← LearningService.createLesson dto
    pure (.lesson row)
  | .updateLesson id dto => do
    let row ← LearningService.updateLesson id dto
    pure (.lesson row)
  | .softDeleteLesson id => do
    LearningService.softDeleteLesson id
    pure .deleted
  | .getCurriculum userId certId locale => do
    let c ← LearningService.getCurriculum userId certId (some userId) locale
    pure (.curriculum c)
  | .serveLesson userId lessonId locale => do
    let l ← LearningService.serveLesson userId lessonId (some userId) locale
    pure (.served l)
  | .markComplete userId lessonId => do
    let c ← LearningService.markComplete userId lessonId (some userId)
    pure (.completed c)
  | .getProgressSummary userId locale => do
    let rows ← LearningService.getProgressSummary userId (some userId) locale
    pure (.progress rows)

/-- Only time passes by itself. -/
def envStep (ms : Nat) (w : World) : Option (World × List Task) := some ({ w with now := w.now + ms }, [])

def contentSystem : System World Call Resp Err Reply Task Choice Nat where
  prog := Task.prog
  client _ := true
  exec := exec
  reject := reject
  env := envStep

abbrev Pool := Config World Call Resp Err Reply Task

abbrev PoolLabel := Label Task Choice Nat

/-! ## What a call changes -/

variable {i : Nat} {c : Call} {x : Choice} {w w' : World} {r : Except Err (Resp c)} {e : Err}

theorem reject_world (h : contentSystem.reject i c w = some (w', e)) : w' = w := by
  change reject i c w = some (w', e) at h
  unfold reject at h
  split at h
  · cases h
  · cases h
    rfl

theorem updated_cases {R : Type} [Keyed R Id] {t t' : Table R} {id : Id} {patched : R → Option R}
    (h : updated t id patched = .ok t') :
    t.get id = none ∧ t' = t ∨
      ∃ row row', t.get id = some row ∧ patched row = some row' ∧ t' = t.put row' := by
  unfold updated at h
  split at h
  · cases h
    exact .inl ⟨‹_›, rfl⟩
  · split at h
    · cases h
      exact .inr ⟨_, _, ‹_›, ‹_›, rfl⟩
    · cases h

/-- A call that has changed a table, with its answer. -/
inductive Wrote (w : World) : (c : Call) → Except Err (Resp c) → World → Prop where
  | certificateSave {row stored x} (hnew : w.certificates.get x = none)
      (hstored : row.stored = some stored) :
      Wrote w (.certificateSave row) (.ok { row with id := x })
        { w with certificates := w.certificates.put { stored with id := x } }
  | certificateUpdate {id patch row row'} (hrow : w.certificates.get id = some row)
      (hpatched : row.patched patch = some row') :
      Wrote w (.certificateUpdate id patch) (.ok ()) { w with certificates := w.certificates.put row' }
  | moduleSave {row stored x} (hnew : w.modules.get x = none) (hstored : row.stored = some stored) :
      Wrote w (.moduleSave row) (.ok { row with id := x, createdAt := w.now })
        { w with modules := w.modules.put { stored with id := x, createdAt := w.now } }
  | moduleUpdate {id patch row row'} (hrow : w.modules.get id = some row)
      (hpatched : row.patched patch = some row') :
      Wrote w (.moduleUpdate id patch) (.ok ()) { w with modules := w.modules.put row' }
  | lessonSave {row stored x} (hnew : w.lessons.get x = none) (hstored : row.stored = some stored) :
      Wrote w (.lessonSave row) (.ok { row with id := x, createdAt := w.now })
        { w with lessons := w.lessons.put { stored with id := x, createdAt := w.now } }
  | lessonUpdate {id patch row row'} (hrow : w.lessons.get id = some row)
      (hpatched : row.patched patch = some row') :
      Wrote w (.lessonUpdate id patch) (.ok ()) { w with lessons := w.lessons.put row' }
  | progressSave {row} :
      Wrote w (.progressSave row) (.ok row) { w with progress := w.progress.put row }

theorem exec_cases (h : contentSystem.exec i c x w = some (w', r)) : w' = w ∨ Wrote w c r w' := by
  change exec i c x w = some (w', r) at h
  cases c with
  | certificateSave row =>
    simp only [exec] at h
    split at h
    · cases h
    · have hnew := Option.not_isSome_iff_eq_none.mp ‹_›
      split at h
      · cases h
        exact .inl rfl
      · cases h
        exact .inr (.certificateSave hnew ‹_›)
  | certificateUpdate id patch =>
    simp only [exec] at h
    split at h
    · cases h
      rcases updated_cases ‹_› with ⟨-, rfl⟩ | ⟨row, row', hrow, hpatched, rfl⟩
      · exact .inl rfl
      · exact .inr (.certificateUpdate hrow hpatched)
    · cases h
      exact .inl rfl
  | moduleSave row =>
    simp only [exec] at h
    split at h
    · cases h
    · split at h
      · cases h
        exact .inl rfl
      · have hnew := Option.not_isSome_iff_eq_none.mp ‹_›
        split at h
        · cases h
          exact .inl rfl
        · cases h
          exact .inr (.moduleSave hnew ‹_›)
  | moduleUpdate id patch =>
    simp only [exec] at h
    split at h
    · cases h
      rcases updated_cases ‹_› with ⟨-, rfl⟩ | ⟨row, row', hrow, hpatched, rfl⟩
      · exact .inl rfl
      · exact .inr (.moduleUpdate hrow hpatched)
    · cases h
      exact .inl rfl
  | lessonSave row =>
    simp only [exec] at h
    split at h
    · cases h
    · split at h
      · cases h
        exact .inl rfl
      · have hnew := Option.not_isSome_iff_eq_none.mp ‹_›
        split at h
        · cases h
          exact .inl rfl
        · cases h
          exact .inr (.lessonSave hnew ‹_›)
  | lessonUpdate id patch =>
    simp only [exec] at h
    split at h
    · cases h
      rcases updated_cases ‹_› with ⟨-, rfl⟩ | ⟨row, row', hrow, hpatched, rfl⟩
      · exact .inl rfl
      · exact .inr (.lessonUpdate hrow hpatched)
    · cases h
      exact .inl rfl
  | progressSave row =>
    simp only [exec] at h
    split at h
    · cases h
      exact .inl rfl
    · cases h
      exact .inr .progressSave
  | certificateFindByProgramCode programCode =>
    simp only [exec] at h
    split at h
    · cases h
      exact .inl rfl
    · obtain ⟨row, -, h⟩ := Option.map_eq_some_iff.mp h
      cases h
      exact .inl rfl
  | _ =>
    simp only [exec] at h
    cases h
    exact .inl rfl

theorem answered_cases (h : Answered contentSystem i c w r w') : w' = w ∨ Wrote w c r w' := by
  cases h with
  | exec hx => exact exec_cases hx
  | reject hx => exact .inl (reject_world hx)

end LmsBackend.Content
