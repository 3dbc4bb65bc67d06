import LmsBackend.Content.OneCall

/-!
# The English text

An update that says nothing of a field can still change what is served of it in
English: another field, or another locale, makes the services build the `en`
block anew from the canonical columns.
-/

open Async Store

namespace LmsBackend.Content

/-! ## What is served of a row -/

/-- The texts of a certificate, a module or a lesson. -/
structure Texts where
  bodyKey : String
  title : String
  body : Option String
  translations : Translations

def Certificate.texts (c : Certificate) : Texts := ⟨"description", c.title, c.description, c.translations⟩

def LearningModule.texts (m : LearningModule) : Texts :=
  ⟨"description", m.title, m.description, m.translations⟩

def Lesson.texts (l : Lesson) : Texts := ⟨"content_html", l.title, l.contentText, l.translations⟩

/-- The body is the description of a certificate or module, and the content of a lesson. -/
inductive TextField where
  | title
  | body
  deriving DecidableEq, Repr

namespace Texts

def canonical (t : Texts) : TextField → Option Json
  | .title => some (.str t.title)
  | .body => t.body.map .str

def key (t : Texts) : TextField → String
  | .title => "title"
  | .body => t.bodyKey

def english (t : Texts) (field : TextField) : Option Json :=
  (resolveTranslation t.translations (t.key field) .en).value.or (t.canonical field)

/-- Not the key of the title. -/
def WellKeyed (t : Texts) : Prop := t.bodyKey ≠ "title"

end Texts

theorem Certificate.texts_keyed (c : Certificate) : c.texts.WellKeyed :=
  show "description" ≠ "title" by decide

theorem LearningModule.texts_keyed (m : LearningModule) : m.texts.WellKeyed :=
  show "description" ≠ "title" by decide

theorem Lesson.texts_keyed (l : Lesson) : l.texts.WellKeyed :=
  show "content_html" ≠ "title" by decide

/-! ## The updates -/

/-- The texts of the row that an update is for. -/
def Task.texts? (w : World) : Task → Option Texts
  | .update id _ | .updateTranslations id _ => (w.certificates.get id).map Certificate.texts
  | .updateModule id _ => (w.modules.get id).map LearningModule.texts
  | .updateLesson id _ => (w.lessons.get id).map Lesson.texts
  | _ => none

def Field.givesEnglish (translations : Field Translations) : Bool :=
  ((translations.toOption.getD Table.empty).get "en").isSome

/-- Neither the canonical column of the field nor an `en` block is given. -/
def Omits (title body : Field String) (translations : Field Translations) (field : TextField) :
    Prop :=
  (match field with
    | .title => title
    | .body => body) = .undefined ∧ translations.givesEnglish = false

def Task.Omits (field : TextField) : Task → Prop
  | .update _ dto => Content.Omits dto.title dto.description dto.translations field
  | .updateTranslations _ incoming =>
    Content.Omits .undefined .undefined (.value incoming) field
  | .updateModule _ dto => Content.Omits dto.title dto.description dto.translations field
  | .updateLesson _ dto => Content.Omits dto.title dto.contentText dto.translations field
  | _ => False

/-- The update makes an `en` block of the canonical columns, unless it is given one. -/
def Task.rebuilds : Task → Bool
  | .update _ dto => dto.title.defined || dto.description.defined || dto.translations.defined
  | .updateModule _ dto => dto.title.defined || dto.description.defined || dto.translations.defined
  | .updateLesson _ dto => dto.title.defined || dto.contentText.defined || dto.translations.defined
  | _ => false

/-! ## Lemmas -/

section

variable {t t' : Texts} {field : TextField}

theorem english_value (translations : Translations) (name : String) :
    (resolveTranslation translations name .en).value = present (translations.field? "en" name) := by
  unfold resolveTranslation
  cases h : present (translations.field? "en" name) with
  | some direct => simp [Locale.code, h]
  | none => simp [Locale.code, defaultLocale, h]

theorem present_str (s : String) : (present (some (.str s))).or (some (.str s)) = some (.str s) := by
  unfold present
  cases hs : (some (Json.str s)).filter fun j => j ≠ .null ∧ j ≠ .str "" with
  | none => rfl
  | some j =>
    cases (Option.filter_eq_some_iff.mp hs).1
    rfl

theorem field?_put_en (translations : Translations) (block : Block) (name : String) :
    Translations.field? (translations.put ⟨"en", block⟩) "en" name = block.field? name := by
  rw [Translations.field?, Translations.block?_put, if_pos rfl]
  rfl

theorem field?_spread {translations incoming : Translations} (h : incoming.get "en" = none)
    (name : String) :
    (translations.spread incoming).field? "en" name = translations.field? "en" name := by
  rw [Translations.field?, Translations.field?, Translations.block?_spread, Translations.block?, h]
  rfl

/-- What is served is what the `en` block has, or else the canonical text. -/
theorem english_congr (hkey : t'.bodyKey = t.bodyKey)
    (hcanonical : t'.canonical field = t.canonical field)
    (hfield : ∀ name, t'.translations.field? "en" name = t.translations.field? "en" name) :
    t'.english field = t.english field := by
  have hname : t'.key field = t.key field := by
    cases field with
    | title => rfl
    | body => exact hkey
  unfold Texts.english
  rw [english_value, english_value, hfield, hname, hcanonical]

/-- A block that is made of the canonical texts serves them. -/
theorem english_rebuilt (hkeyed : t.WellKeyed) {existing : Translations}
    {translations : Field Translations} (hnone : translations.givesEnglish = false)
    (ht : t.translations = mergeTranslations t.bodyKey existing translations t.title t.body) :
    t.english field = t.canonical field := by
  unfold Field.givesEnglish at hnone
  have hfield : ∀ name, t.translations.field? "en" name =
      (enBlock t.bodyKey t.title t.body).field? name := by
    intro name
    rw [ht, mergeTranslations]
    simp only [hnone, Bool.false_eq_true, if_false]
    exact field?_put_en _ _ name
  unfold Texts.english
  rw [english_value, hfield]
  cases field with
  | title => exact present_str t.title
  | body =>
    have hlookup : (enBlock t.bodyKey t.title t.body).field? t.bodyKey = t.body.map Json.str := by
      rw [enBlock, Block.field?, List.lookup_cons, beq_eq_false_iff_ne.mpr hkeyed]
      cases t.body with
      | none => rfl
      | some body => simp
    rw [Texts.key, hlookup, Texts.canonical]
    cases t.body with
    | none => rfl
    | some body => exact present_str body

/-- The row after an update of both services, but for `updateTranslations`. -/
structure Texts.Updated (t : Texts) (title body : Field String) (translations : Field Translations)
    (t' : Texts) : Prop where
  sameKey : t'.bodyKey = t.bodyKey
  newTitle : title.setText 255 t.title = some t'.title
  newBody : t'.body = body.orKeep t.body
  document :
    (if title.defined || body.defined || translations.defined then
      .value (mergeTranslations t.bodyKey t.translations translations (title.toOption.getD t.title)
        (body.orKeep t.body))
    else translations).setNotNull t.translations = some t'.translations

variable {title body : Field String} {translations : Field Translations}

theorem Texts.Updated.canonical_eq (h : t.Updated title body translations t')
    (homits : Omits title body translations field) : t'.canonical field = t.canonical field := by
  cases field with
  | title =>
    have htitle := h.newTitle
    rw [show title = .undefined from homits.1] at htitle
    rw [Texts.canonical, Texts.canonical, ← Option.some.inj htitle]
  | body =>
    have hbody := h.newBody
    rw [show body = .undefined from homits.1] at hbody
    rw [Texts.canonical, Texts.canonical, hbody]
    rfl

/-- The row, with the title that was sent. -/
def Texts.sent (t t' : Texts) (title : Field String) : Texts :=
  { t' with title := title.toOption.getD t.title }

theorem Texts.Updated.sent_canonical (h : t.Updated title body translations t')
    (homits : Omits title body translations field) :
    (t.sent t' title).canonical field = t'.canonical field := by
  cases field with
  | title =>
    rw [h.canonical_eq homits, Texts.sent, show title = .undefined from homits.1]
    rfl
  | body => rfl

theorem Texts.Updated.english_iff (h : t.Updated title body translations t')
    (hkeyed : t.WellKeyed) (homits : Omits title body translations field) :
    t'.english field = t.english field ↔
      (title.defined || body.defined || translations.defined) = false ∨
        t.english field = t.canonical field := by
  have hcanonical := h.canonical_eq homits
  have hdocument := h.document
  cases hdefined : title.defined || body.defined || translations.defined with
  | false =>
    rw [hdefined, if_neg Bool.false_ne_true] at hdocument
    simp only [Bool.or_eq_false_iff, Field.defined_eq_false] at hdefined
    rw [hdefined.2] at hdocument
    refine iff_of_true (english_congr h.sameKey hcanonical fun name => ?_) (.inl rfl)
    rw [← Option.some.inj hdocument]
  | true =>
    rw [hdefined, if_pos rfl, ← h.newBody, ← h.sameKey] at hdocument
    have hkeyed' : (t.sent t' title).WellKeyed := by
      rw [Texts.WellKeyed, Texts.sent, h.sameKey]
      exact hkeyed
    have hrebuilt : t'.english field = t.canonical field := by
      have hsent := h.sent_canonical homits
      have hserved : (t.sent t' title).english field = (t.sent t' title).canonical field :=
        english_rebuilt hkeyed' homits.2 (Option.some.inj hdocument).symm
      rw [← hcanonical, ← hsent, ← hserved]
      exact english_congr rfl hsent.symm fun _ => rfl
    rw [hrebuilt]
    simp [eq_comm]

theorem certificate_updated {cert row' : Certificate} {dto : UpdateCertificateDto}
    (h : cert.Patched (CatalogService.updatePatch dto cert) row') :
    cert.texts.Updated dto.title dto.description dto.translations row'.texts := by
  obtain ⟨-, htitle, -, hdescription, htranslations⟩ := h
  rw [CatalogService.updatePatch_title] at htitle
  rw [CatalogService.updatePatch_description] at hdescription
  rw [CatalogService.updatePatch_translations] at htranslations
  exact ⟨rfl, htitle, hdescription, htranslations⟩

theorem module_updated {mod row' : LearningModule} {dto : UpdateModuleDto}
    (h : mod.Patched (LearningService.modulePatch dto mod) row') :
    mod.texts.Updated dto.title dto.description dto.translations row'.texts := by
  obtain ⟨-, htitle, hdescription, htranslations⟩ := h
  rw [LearningService.modulePatch_title] at htitle
  rw [LearningService.modulePatch_description] at hdescription
  rw [LearningService.modulePatch_translations] at htranslations
  exact ⟨rfl, htitle, hdescription, htranslations⟩

theorem lesson_updated {lesson row' : Lesson} {dto : UpdateLessonDto}
    (h : lesson.Patched (LearningService.lessonPatch dto lesson) row') :
    lesson.texts.Updated dto.title dto.contentText dto.translations row'.texts := by
  obtain ⟨-, htitle, hcontentText, htranslations⟩ := h
  rw [LearningService.lessonPatch_title] at htitle
  rw [LearningService.lessonPatch_contentText] at hcontentText
  rw [LearningService.lessonPatch_translations] at htranslations
  exact ⟨rfl, htitle, hcontentText, htranslations⟩

theorem present_of_truthy {j : Json} (h : j.truthy = true) : present (some j) = some j := by
  refine Option.filter_eq_some_iff.mpr ⟨rfl, ?_⟩
  rw [decide_eq_true_eq]
  constructor
  · rintro rfl
    cases h
  · rintro rfl
    cases h

/-- `updateTranslations` can set the title, but only to the title that the `en` block serves. -/
theorem translationsPatch_english {cert row' : Certificate} {incoming : Translations}
    (h : cert.Patched (CatalogService.translationsPatch incoming cert) row')
    (hnone : incoming.get "en" = none) : row'.texts.english field = cert.texts.english field := by
  obtain ⟨-, htitle, -, hdescription, htranslations⟩ := h
  rw [CatalogService.translationsPatch_translations] at htranslations
  rw [CatalogService.translationsPatch_description] at hdescription
  have hfield : ∀ name, row'.texts.translations.field? "en" name =
      cert.texts.translations.field? "en" name := by
    intro name
    rw [Certificate.texts, ← Option.some.inj htranslations]
    exact field?_spread hnone name
  cases field with
  | body =>
    refine english_congr rfl ?_ hfield
    rw [Texts.canonical, Texts.canonical, Certificate.texts, hdescription]
    rfl
  | title =>
    unfold CatalogService.translationsPatch at htitle
    simp only at htitle
    split at htitle
    · rename_i title htitle?
      obtain ⟨hget, hkeep⟩ := Option.filter_eq_some_iff.mp htitle?
      have htruthy : title.truthy = true := (of_decide_eq_true hkeep).1
      have hen : cert.texts.translations.field? "en" "title" = some title := by
        rw [← hget, field?_spread hnone]
        rfl
      unfold Texts.english Texts.key
      rw [english_value, english_value, hfield, hen, present_of_truthy htruthy]
      rfl
    · refine english_congr rfl ?_ hfield
      rw [Texts.canonical, Texts.canonical, Certificate.texts, ← Option.some.inj htitle]
      rfl

end

/-! ## When an update keeps the text -/

/-- What is served of a field that the update omits stays as it was if and only if the `en` block
is not rebuilt, or the canonical text was what it served. -/
theorem english_kept_iff {w w' : World} {t : Task} {field : TextField} {before : Texts} {reply : Reply}
    (hrow : t.texts? w = some before) (homits : t.Omits field)
    (h : Ends contentSystem 0 none w (contentSystem.prog t) w' (.ok reply)) :
    (t.texts? w').map (·.english field) = some (before.english field) ↔
      t.rebuilds = false ∨ before.english field = before.canonical field := by
  have hf := some_ne_none w
  cases t with
  | update id dto =>
    obtain ⟨cert, hcert, rfl⟩ := Option.map_eq_some_iff.mp hrow
    obtain rfl : cert.id = id := Table.key_of_get hcert
    obtain ⟨row', hrow', rfl⟩ := wlp_of_reply h (update_spec hf hcert dto)
    have hget : (w.certificates.put row').get cert.id = some row' :=
      Table.get_put_of_eq _ hrow'.id
    rw [Task.texts?, hget, Option.map_some, Option.map_some, Option.some.injEq]
    exact (certificate_updated hrow').english_iff cert.texts_keyed homits
  | updateTranslations id incoming =>
    obtain ⟨cert, hcert, rfl⟩ := Option.map_eq_some_iff.mp hrow
    obtain rfl : cert.id = id := Table.key_of_get hcert
    obtain ⟨-, row', hrow', rfl⟩ := wlp_of_reply h (updateTranslations_spec hf hcert incoming)
    have hget : (w.certificates.put row').get cert.id = some row' :=
      Table.get_put_of_eq _ hrow'.id
    rw [Task.texts?, hget, Option.map_some, Option.map_some, Option.some.injEq]
    have hnone : incoming.get "en" = none := by simpa [Field.givesEnglish, Field.toOption] using homits.2
    exact iff_of_true (translationsPatch_english hrow' hnone) (.inl rfl)
  | updateModule id dto =>
    obtain ⟨mod, hmod, rfl⟩ := Option.map_eq_some_iff.mp hrow
    obtain rfl : mod.id = id := Table.key_of_get hmod
    obtain ⟨row', hrow', rfl⟩ := wlp_of_reply h (updateModule_spec hf hmod dto)
    have hget : (w.modules.put row').get mod.id = some row' := Table.get_put_of_eq _ hrow'.id
    rw [Task.texts?, hget, Option.map_some, Option.map_some, Option.some.injEq]
    exact (module_updated hrow').english_iff mod.texts_keyed homits
  | updateLesson id dto =>
    obtain ⟨lesson, hlesson, rfl⟩ := Option.map_eq_some_iff.mp hrow
    obtain rfl : lesson.id = id := Table.key_of_get hlesson
    obtain ⟨row', hrow', rfl⟩ := wlp_of_reply h (updateLesson_spec hf hlesson dto)
    have hget : (w.lessons.put row').get lesson.id = some row' := Table.get_put_of_eq _ hrow'.id
    rw [Task.texts?, hget, Option.map_some, Option.map_some, Option.some.injEq]
    exact (lesson_updated hrow').english_iff lesson.texts_keyed homits
  | _ => cases hrow

/-! ## A description that is lost -/

def createScrum : CreateCertificateDto where
  title := "Scrum"
  programCode := "PSM"
  price := 100
  currency := .undefined
  description := .value "Old"
  thumbnailUrl := .undefined
  active := .undefined
  translations := .undefined

def newDescription : Translations :=
  Table.empty.put ⟨"en", .fields [("title", .str "Scrum"), ("description", .str "New")]⟩

def newTitle : UpdateCertificateDto := { CatalogService.noPatch with title := .value "Scrum Master" }

/-- The certificate with its old description, then with a new one in English. -/
def history : List (Task × List (Option Choice)) :=
  [(.create createScrum, [some "", some "psm"]),
    (.updateTranslations "psm" newDescription, [some "", some "", some ""])]

def newPrice : UpdateCertificateDto := { CatalogService.noPatch with price := .value 90 }

theorem new_description_kept :
    ∃ w w' reply before, Calls emptyWorld (history.map Prod.fst) w ∧
      (Task.update "psm" newPrice).texts? w = some before ∧
      (Task.update "psm" newPrice).Omits .body ∧
      Ends contentSystem 0 none w (contentSystem.prog (.update "psm" newPrice)) w' (.ok reply) ∧
      ((Task.update "psm" newPrice).texts? w').map (·.english .body) =
        some (before.english .body) := by
  obtain ⟨w, hw⟩ : ∃ w, followCalls history emptyWorld = some w := ⟨_, rfl⟩
  have hcalls := calls_of_follow hw
  have hfollow : ∃ w' reply before,
      (Task.update "psm" newPrice).texts? w = some before ∧
      follow contentSystem 0 [some "", some "", some ""] w
        (contentSystem.prog (.update "psm" newPrice)) = some (none, w', .ok reply) := by
    cases hw
    exact ⟨_, _, _, rfl, rfl⟩
  obtain ⟨w', reply, before, hbefore, hends⟩ := hfollow
  have homits : (Task.update "psm" newPrice).Omits .body := ⟨rfl, rfl⟩
  refine ⟨w, w', reply, before, hcalls, hbefore, homits, ends_of_follow hends, ?_⟩
  exact (english_kept_iff hbefore homits (ends_of_follow hends)).mpr (.inl rfl)

/-- An update of the title brings the old description back. -/
theorem new_description_lost :
    ∃ w w' reply before, Calls emptyWorld (history.map Prod.fst) w ∧
      (Task.update "psm" newTitle).texts? w = some before ∧
      (Task.update "psm" newTitle).Omits .body ∧
      Ends contentSystem 0 none w (contentSystem.prog (.update "psm" newTitle)) w' (.ok reply) ∧
      before.english .body = some (.str "New") ∧
      ((Task.update "psm" newTitle).texts? w').map (·.english .body) = some (some (.str "Old")) := by
  obtain ⟨w, hw⟩ : ∃ w, followCalls history emptyWorld = some w := ⟨_, rfl⟩
  have hcalls := calls_of_follow hw
  have hfollow : ∃ w' reply before,
      (Task.update "psm" newTitle).texts? w = some before ∧
      follow contentSystem 0 [some "", some "", some ""] w
        (contentSystem.prog (.update "psm" newTitle)) = some (none, w', .ok reply) ∧
      before.english .body = some (.str "New") ∧
      ((Task.update "psm" newTitle).texts? w').map (·.english .body) = some (some (.str "Old")) := by
    cases hw
    exact ⟨_, _, _, rfl, rfl, by decide, by decide⟩
  obtain ⟨w', reply, before, hbefore, hends, hnew, hold⟩ := hfollow
  exact ⟨w, w', reply, before, hcalls, hbefore, ⟨rfl, rfl⟩, ends_of_follow hends, hnew, hold⟩

end LmsBackend.Content
