import LmsBackend.Content.LearningService
import LmsBackend.Profile.ProfileService
import LmsBackend.Requests.Bodies

/-!
# The statements of the services, and the columns of their tables

Of an INSERT or an UPDATE there is what it assigns, which a column takes or refuses. A unique index
or a foreign key is no matter of the body, and is left out.
-/

open Store

namespace LmsBackend.Requests

open Auth (JsValue)
open Content
open Content.CatalogService (certificateOf)
open Content.LearningService (moduleOf lessonOf)
open Profile (requiredColumn optionalColumn)

/-! ## Documents -/

/-- The document that is sent has no lone surrogate, of which `JSON.stringify` makes an escape that
JSONB refuses. Its blocks are those of the body, and `en` is made of the new canonical texts unless
the body has it. -/
def Document.sendsWellFormed (given : Document) (title body : JsValue) : Bool :=
  match given with
  | .value (some d) =>
    d.wellFormed && ((d.translations.get "en").isSome || title.isWellFormed && body.isWellFormed)
  | _ => title.isWellFormed && body.isWellFormed

/-- Whether Postgres stores an array or an object that is inside a document, by its text. -/
class Jsonb where
  stores : String → Bool

def noNul (s : String) : Bool := '\x00' ∉ s.toList

section

variable [Jsonb]

def storesJson : Content.Json → Bool
  | .str s => noNul s
  | .nested text _ => Jsonb.stores text
  | .null | .bool _ | .num _ => true

def storesBlock : Block → Bool
  | .fields fs => fs.all fun f => noNul f.1 ∧ storesJson f.2
  | .value j => storesJson j

def storesLocale (b : LocaleBlock) : Bool := noNul b.locale ∧ storesBlock b.block

/-- JSONB NOT NULL -/
def documentColumn : Column Translations := ⟨true, fun t => t.rows.all storesLocale⟩

end

/-- An UPDATE of a column leaves out what is `undefined`. -/
def assigns {α : Type} (c : Column α) : Content.Field α → Bool
  | .undefined => true
  | .null => !c.notNull
  | .value a => c.takes a

/-- VARCHAR(limit) -/
def varchar (limit : Nat) (notNull : Bool) : Column String :=
  (if notNull then requiredColumn limit else optionalColumn limit).toColumn

/-- TEXT -/
def textColumn : Column String := TextColumn.toColumn ⟨false, none, fun _ => true⟩

/-! ## `certificates` -/

namespace Certificates

def title : Column String := varchar 255 true
def programCode : Column String := varchar 50 true
def description : Column String := textColumn
def price : Column Rat := numericColumn true 10 2
def currency : Column String := varchar 3 true
def active : Column Bool := booleanColumn true
def thumbnailUrl : Column String := varchar 500 false

variable [Jsonb]

def inserts (c : Certificate) : Bool :=
  title.takes c.title ∧ programCode.takes c.programCode ∧ price.takes c.price ∧
    currency.takes c.currency ∧ description.inserts c.description ∧
    thumbnailUrl.inserts c.thumbnailUrl ∧ active.takes c.active ∧ documentColumn.takes c.translations

def updates (patch : UpdateCertificateDto) : Bool :=
  assigns title patch.title ∧ assigns programCode patch.programCode ∧ assigns price patch.price ∧
    assigns currency patch.currency ∧ assigns description patch.description ∧
    assigns thumbnailUrl patch.thumbnailUrl ∧ assigns active patch.active ∧
    assigns documentColumn patch.translations

end Certificates

/-! ## `learning_modules` -/

namespace LearningModules

def title : Column String := varchar 255 true
def description : Column String := textColumn
def position : Column Int := integerColumn true
def active : Column Bool := booleanColumn true

variable [Jsonb]

def inserts (m : LearningModule) : Bool :=
  title.takes m.title ∧ description.inserts m.description ∧ position.takes m.position ∧
    active.takes m.active ∧ documentColumn.takes m.translations

def updates (patch : UpdateModuleDto) : Bool :=
  assigns title patch.title ∧ assigns description patch.description ∧
    assigns position patch.position ∧ assigns active patch.active ∧
    assigns documentColumn patch.translations

end LearningModules

/-! ## `lessons` -/

namespace Lessons

def title : Column String := varchar 255 true
def videoUrl : Column String := varchar 500 false
def contentText : Column String := textColumn
def position : Column Int := integerColumn true
def durationSeconds : Column Int := integerColumn false
def active : Column Bool := booleanColumn true

variable [Jsonb]

def inserts (l : Lesson) : Bool :=
  title.takes l.title ∧ contentText.inserts l.contentText ∧ videoUrl.inserts l.videoUrl ∧
    position.takes l.position ∧ durationSeconds.inserts l.durationSeconds ∧
    active.takes l.active ∧ documentColumn.takes l.translations

def updates (patch : UpdateLessonDto) : Bool :=
  assigns title patch.title ∧ assigns contentText patch.contentText ∧
    assigns videoUrl patch.videoUrl ∧ assigns position patch.position ∧
    assigns durationSeconds patch.durationSeconds ∧ assigns active patch.active ∧
    assigns documentColumn patch.translations

end Lessons

/-! ## `users` -/

namespace Users

def email : Column String := varchar 255 true
def passwordHash : Column String := varchar 255 true

end Users

end LmsBackend.Requests
