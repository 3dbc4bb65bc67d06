import LmsBackend.Async.Pool
import LmsBackend.Content.Entities

/-!
# What the content runs against

The tables, the clock and object storage, and every call that `CatalogService`
and `LearningService` await. Each statement is a transaction of its own.
-/

open Async Store

namespace LmsBackend.Content

inductive Err where
  | notFound (message : String)
  | badRequest (message : String)
  | conflict (message : String)
  | forbidden (message : String)
  /-- What the database or the storage rejects with. -/
  | infra (message : String)
  deriving DecidableEq, Repr

structure World where
  now : Time
  certificates : Table Certificate
  modules : Table LearningModule
  lessons : Table Lesson
  purchases : List StudentPurchase
  progress : Table StudentProgress

/-- In each `save` the database makes the id. The answer has the texts that were sent. -/
inductive Call where
  | now
  | certificateFindOne (id : Id)
  /-- The id of any one of them. -/
  | certificateFindByProgramCode (programCode : String)
  | certificateSave (row : Certificate)
  | certificateUpdate (id : Id) (patch : UpdateCertificateDto)
  | certificateFindOneOrFail (id : Id)
  | certificateFindAll (ids : List Id)
  | moduleFindOne (id : Id)
  /-- The active ones of the certificate, by `position`, then `created_at`. -/
  | moduleFindActive (certId : Id)
  /-- The active ones of the certificates. -/
  | moduleFindAllActive (certIds : List Id)
  | moduleSave (row : LearningModule)
  | moduleUpdate (id : Id) (patch : UpdateModuleDto)
  | moduleFindOneOrFail (id : Id)
  | lessonFindOne (id : Id)
  /-- The active ones of the modules, by `position`, then `created_at`. -/
  | lessonFindActive (moduleIds : List Id)
  | lessonSave (row : Lesson)
  | lessonUpdate (id : Id) (patch : UpdateLessonDto)
  | lessonFindOneOrFail (id : Id)
  /-- On the runner with `app.current_user_id`, or on a connection without one. At most one row. -/
  | purchaseFind (rlsRunner : Option Id) (userId certId : Id)
  /-- All that the student has. -/
  | purchaseFindAll (rlsRunner : Option Id) (userId : Id)
  | progressFind (userId : Id)
  | progressFindOne (userId lessonId : Id)
  | progressSave (row : StudentProgress)
  /-- In the bucket of videos. -/
  | getSignedUrl (key : String) (expiresInSeconds : Nat)

@[reducible] def Resp : Call → Type
  | .now => Time
  | .certificateFindOne _ => Option Certificate
  | .certificateFindByProgramCode _ => Option Id
  | .certificateSave _ | .certificateFindOneOrFail _ => Certificate
  | .certificateFindAll _ => List Certificate
  | .moduleFindOne _ => Option LearningModule
  | .moduleFindActive _ | .moduleFindAllActive _ => List LearningModule
  | .moduleSave _ | .moduleFindOneOrFail _ => LearningModule
  | .lessonFindOne _ => Option Lesson
  | .lessonFindActive _ => List Lesson
  | .lessonSave _ | .lessonFindOneOrFail _ => Lesson
  | .purchaseFind _ _ _ | .purchaseFindAll _ _ => List StudentPurchase
  | .progressFind _ => List StudentProgress
  | .progressFindOne _ _ => Option StudentProgress
  | .progressSave _ => StudentProgress
  | .getSignedUrl _ _ => String
  | .certificateUpdate _ _ | .moduleUpdate _ _ | .lessonUpdate _ _ => Unit

/-- Ids and signed URLs come from outside. -/
abbrev Choice := String

namespace World

variable (w : World)

def activeModules (certId : Id) : List LearningModule :=
  (w.modules.rows.filter fun m => m.certId = certId ∧ m.active).insertionSort fun a b =>
    a.position < b.position ∨ a.position = b.position ∧ a.createdAt ≤ b.createdAt

def activeLessons (moduleIds : List Id) : List Lesson :=
  (w.lessons.rows.filter fun l => l.moduleId ∈ moduleIds ∧ l.active).insertionSort fun a b =>
    a.position < b.position ∨ a.position = b.position ∧ a.createdAt ≤ b.createdAt

/-- The rows that the policy of `student_purchases` shows. -/
def visiblePurchases (rlsRunner : Option Id) : List StudentPurchase :=
  w.purchases.filter fun p => rlsRunner = some p.userId

end World

/-- `UPDATE ... WHERE id`: `patched` is the new row, unless a constraint refuses it. -/
def updated {R : Type} [Keyed R Id] (t : Table R) (id : Id) (patched : R → Option R) :
    Except Err (Table R) :=
  match t.get id with
  | none => .ok t
  | some row =>
    match patched row with
    | some row => .ok (t.put row)
    | none => .error (.infra "constraint violation")

/-- Also for a text with a NUL. -/
def tooLong : Err := .infra "value too long"

def orFail {ρ : Type} : Option ρ → Except Err ρ
  | some row => .ok row
  | none => .error (.infra "EntityNotFoundError")

def exec (_ : Nat) (c : Call) (x : Choice) (w : World) : Option (World × Except Err (Resp c)) :=
  match c with
  | .now => some (w, .ok w.now)
  | .certificateFindOne id => some (w, .ok (w.certificates.get id))
  | .certificateFindByProgramCode programCode =>
    -- Postgres may return any of the rows: the choice names one.
    match w.certificates.rows.filter (·.programCode = programCode) with
    | [] => some (w, .ok none)
    | rows => (rows.find? (·.id = x)).map fun row => (w, .ok (some row.id))
  | .certificateSave row =>
    if (w.certificates.get x).isSome then none
    else
      match row.stored with
      | none => some (w, .error tooLong)
      | some stored =>
        some ({ w with certificates := w.certificates.put { stored with id := x } },
          .ok { row with id := x })
  | .certificateUpdate id patch =>
    match updated w.certificates id (·.patched patch) with
    | .ok certificates => some ({ w with certificates := certificates }, .ok ())
    | .error e => some (w, .error e)
  | .certificateFindOneOrFail id => some (w, orFail (w.certificates.get id))
  | .certificateFindAll ids => some (w, .ok (w.certificates.rows.filter (·.id ∈ ids)))
  | .moduleFindOne id => some (w, .ok (w.modules.get id))
  | .moduleFindActive certId => some (w, .ok (w.activeModules certId))
  | .moduleFindAllActive certIds =>
    some (w, .ok (w.modules.rows.filter fun m => m.certId ∈ certIds ∧ m.active))
  | .moduleSave row =>
    if (w.modules.get x).isSome then none
    else if (w.certificates.get row.certId).isNone then
      some (w, .error (.infra "foreign key violation"))
    else
      match row.stored with
      | none => some (w, .error tooLong)
      | some stored =>
        some ({ w with modules := w.modules.put { stored with id := x, createdAt := w.now } },
          .ok { row with id := x, createdAt := w.now })
  | .moduleUpdate id patch =>
    match updated w.modules id (·.patched patch) with
    | .ok modules => some ({ w with modules := modules }, .ok ())
    | .error e => some (w, .error e)
  | .moduleFindOneOrFail id => some (w, orFail (w.modules.get id))
  | .lessonFindOne id => some (w, .ok (w.lessons.get id))
  | .lessonFindActive moduleIds => some (w, .ok (w.activeLessons moduleIds))
  | .lessonSave row =>
    if (w.lessons.get x).isSome then none
    else if (w.modules.get row.moduleId).isNone then
      some (w, .error (.infra "foreign key violation"))
    else
      match row.stored with
      | none => some (w, .error tooLong)
      | some stored =>
        some ({ w with lessons := w.lessons.put { stored with id := x, createdAt := w.now } },
          .ok { row with id := x, createdAt := w.now })
  | .lessonUpdate id patch =>
    match updated w.lessons id (·.patched patch) with
    | .ok lessons => some ({ w with lessons := lessons }, .ok ())
    | .error e => some (w, .error e)
  | .lessonFindOneOrFail id => some (w, orFail (w.lessons.get id))
  | .purchaseFind rlsRunner userId certId =>
    let rows := (w.visiblePurchases rlsRunner).filter fun p => p.userId = userId ∧ p.certId = certId
    some (w, .ok (rows.take 1))
  | .purchaseFindAll rlsRunner userId =>
    some (w, .ok ((w.visiblePurchases rlsRunner).filter (·.userId = userId)))
  | .progressFind userId => some (w, .ok (w.progress.rows.filter (·.userId = userId)))
  | .progressFindOne userId lessonId => some (w, .ok (w.progress.get (userId, lessonId)))
  | .progressSave row =>
    if (w.progress.get (row.userId, row.lessonId)).isSome then
      some (w, .error (.infra "duplicate key value"))
    else some ({ w with progress := w.progress.put row }, .ok row)
  | .getSignedUrl _ _ => some (w, .ok x)

/-- The calls of the database and the storage can reject. They have done nothing then. -/
def reject (_ : Nat) (c : Call) (w : World) : Option (World × Err) :=
  match c with
  | .now => none
  | _ => some (w, .infra "connection lost")

end LmsBackend.Content
