import LmsBackend.Content.EnglishText
import LmsBackend.Content.LessonAccess

/-!
# `fallbackUsed`

A text comes from the block of the locale, from the English block or from the
canonical column. The flag tells of the English block only.
-/

open Async Store

namespace LmsBackend.Content

/-! ## What the catalog serves -/

inductive TextDirection where
  | ltr
  | rtl
  deriving DecidableEq, Repr

def rtlLocales : List Locale := [.ar]

def directionFor (locale : Locale) : TextDirection :=
  if locale ∈ rtlLocales then .rtl else .ltr

/-- The price is a number here, which `formatPrice` writes with two decimals. -/
structure CatalogItem where
  id : Id
  programCode : String
  title : Option Json
  description : Option Json
  price : Rat
  currency : String
  thumbnailUrl : Option String
  active : Bool
  locale : Locale
  direction : TextDirection
  fallbackUsed : Bool
  deriving DecidableEq, Repr

def CatalogService.toItemDto (c : Certificate) (locale : Locale) : CatalogItem :=
  let titleRes := resolveTranslation c.translations "title" locale
  let descRes := resolveTranslation c.translations "description" locale
  { id := c.id
    programCode := c.programCode
    title := titleRes.value.or (some (.str c.title))
    description := descRes.value.or (c.description.map Json.str)
    price := c.price
    currency := c.currency
    thumbnailUrl := c.thumbnailUrl
    active := c.active
    locale := locale
    direction := directionFor locale
    fallbackUsed := titleRes.fallbackUsed || descRes.fallbackUsed }

def CatalogItem.shown (item : CatalogItem) : TextField → Option Json
  | .title => item.title
  | .body => item.description

def ServedLesson.shown (l : ServedLesson) : TextField → Option Json
  | .title => l.title
  | .body => l.contentHtml

/-! ## Where a text comes from -/

namespace Texts

/-- The text that the block of a locale has. -/
def inBlock (t : Texts) (locale : Locale) (field : TextField) : Option Json :=
  present (t.translations.field? locale.code (t.key field))

/-- The flag is set if and only if some text that is shown is not that of the locale's block. -/
def Truthful (t : Texts) (locale : Locale) (shown : TextField → Option Json) (fallbackUsed : Bool) :
    Prop :=
  fallbackUsed = true ↔ ∃ field, shown field ≠ none ∧ t.inBlock locale field = none

/-- The text is missing in the block of the locale, and the English block has it. -/
def FromEnglish (t : Texts) (locale : Locale) (field : TextField) : Prop :=
  t.inBlock locale field = none ∧ t.inBlock .en field ≠ none

/-- The text is missing in both blocks, and the canonical column has it. -/
def FromColumn (t : Texts) (locale : Locale) (field : TextField) : Prop :=
  t.inBlock locale field = none ∧ t.inBlock .en field = none ∧ t.canonical field ≠ none

variable {t : Texts} {locale : Locale} {field : TextField}

theorem resolve_value : (resolveTranslation t.translations (t.key field) locale).value =
    (t.inBlock locale field).or (t.inBlock .en field) := by
  unfold resolveTranslation inBlock
  cases present (t.translations.field? locale.code (t.key field)) with
  | some direct => rfl
  | none =>
    simp only [defaultLocale]
    cases present (t.translations.field? Locale.en.code (t.key field)) <;> rfl

theorem resolve_fallback :
    (resolveTranslation t.translations (t.key field) locale).fallbackUsed = true ↔
      t.FromEnglish locale field := by
  unfold resolveTranslation FromEnglish inBlock
  cases present (t.translations.field? locale.code (t.key field)) with
  | some direct => simp
  | none =>
    simp only [defaultLocale]
    cases present (t.translations.field? Locale.en.code (t.key field)) <;> simp

/-- What is shown of a field: the first of the three that there is. -/
theorem shown_elsewhere {shown : Option Json} (h : shown =
      (resolveTranslation t.translations (t.key field) locale).value.or (t.canonical field)) :
    shown ≠ none ∧ t.inBlock locale field = none ↔
      t.FromEnglish locale field ∨ t.FromColumn locale field := by
  rw [h, resolve_value]
  unfold FromEnglish FromColumn
  cases t.inBlock locale field with
  | some direct => simp
  | none =>
    cases t.inBlock .en field with
    | some fallback => simp
    | none => simp

theorem truthful_iff {shown : TextField → Option Json}
    (h : ∀ field, shown field =
      (resolveTranslation t.translations (t.key field) locale).value.or (t.canonical field)) :
    t.Truthful locale shown
        ((resolveTranslation t.translations (t.key .title) locale).fallbackUsed ||
          (resolveTranslation t.translations (t.key .body) locale).fallbackUsed) ↔
      ((∃ field, t.FromColumn locale field) → ∃ field, t.FromEnglish locale field) := by
  have hflag : ((resolveTranslation t.translations (t.key .title) locale).fallbackUsed ||
      (resolveTranslation t.translations (t.key .body) locale).fallbackUsed) = true ↔
        ∃ field, t.FromEnglish locale field := by
    rw [Bool.or_eq_true, resolve_fallback, resolve_fallback]
    constructor
    · rintro (h | h)
      · exact ⟨_, h⟩
      · exact ⟨_, h⟩
    · rintro ⟨field, h⟩
      cases field with
      | title => exact .inl h
      | body => exact .inr h
  have helsewhere : (∃ field, shown field ≠ none ∧ t.inBlock locale field = none) ↔
      (∃ field, t.FromEnglish locale field) ∨ ∃ field, t.FromColumn locale field := by
    rw [← exists_or]
    exact exists_congr fun field => shown_elsewhere (h field)
  unfold Truthful
  rw [hflag, helsewhere]
  tauto

end Texts

/-! ## The endpoints -/

theorem toItemDto_truthful_iff (c : Certificate) (locale : Locale) :
    c.texts.Truthful locale (CatalogService.toItemDto c locale).shown
        (CatalogService.toItemDto c locale).fallbackUsed ↔
      ((∃ field, c.texts.FromColumn locale field) → ∃ field, c.texts.FromEnglish locale field) := by
  apply Texts.truthful_iff
  intro field
  cases field with
  | title => rfl
  | body => rfl

/-- The texts and the flag in what `serveLesson` answers. -/
structure ServedLesson.Shows (served : ServedLesson) (lesson : Lesson) (locale : Locale) :
    Prop where
  shown : ∀ field, served.shown field =
    (resolveTranslation lesson.texts.translations (lesson.texts.key field) locale).value.or
      (lesson.texts.canonical field)
  flag : served.fallbackUsed =
    ((resolveTranslation lesson.texts.translations (lesson.texts.key .title) locale).fallbackUsed ||
      (resolveTranslation lesson.texts.translations (lesson.texts.key .body) locale).fallbackUsed)

theorem serveLesson_shows {w : World} {userId lessonId : Id} {locale : Locale}
    {served : ServedLesson}
    (h : Answers w (LearningService.serveLesson userId lessonId (some userId) locale)
      (.ok served)) :
    ∃ lesson, w.lessons.get lessonId = some lesson ∧ served.Shows lesson locale := by
  have hf := some_ne_none w
  have hwlp : wlp contentSystem 0 (some ⟨w, .now⟩)
      (LearningService.serveLesson userId lessonId (some userId) locale) w fun _ r _ =>
        ∀ served, r = .ok served →
          ∃ lesson, w.lessons.get lessonId = some lesson ∧ served.Shows lesson locale := by
    unfold LearningService.serveLesson
    refine wlp_answer hf (fun _ => rfl) ?_
    cases hfilter : (w.lessons.get lessonId).filter (·.active) with
    | none =>
      intro served hserved
      cases hserved
    | some lesson =>
      obtain ⟨hlesson, -⟩ := Option.filter_eq_some_iff.mp hfilter
      have hshows : ∀ served : ServedLesson, served.Shows lesson locale →
          ∃ lesson, w.lessons.get lessonId = some lesson ∧ served.Shows lesson locale :=
        fun _ hserved => ⟨lesson, hlesson, hserved⟩
      refine wlp_answer hf (fun _ => rfl) ?_
      cases w.modules.get lesson.moduleId with
      | none =>
        intro served hserved
        cases hserved
      | some mod =>
        refine assertPurchased_wlp hf (fun _ => ?_) fun _ served hserved => by cases hserved
        refine wlp_answer hf (fun _ => rfl) ?_
        cases lesson.videoUrl.filter (· ≠ "") with
        | none =>
          rintro served ⟨⟩
          exact hshows _ ⟨fun field => by cases field <;> rfl, rfl⟩
        | some videoUrl =>
          simp only [await, Prog.bind_eq, wlp_bind, wlp_await]
          refine ⟨?_, fun hnone => absurd hnone hf⟩
          rintro x _ _ ⟨⟩ served ⟨⟩
          exact hshows _ ⟨fun field => by cases field <;> rfl, rfl⟩
  exact h.choose_spec.wlp_none hwlp served rfl

/-- The flag tells the truth of a row if and only if no text of it comes from a canonical column, or
some text comes from the English block. -/
theorem fallbackUsed_truthful_iff (c : Certificate) (w : World) (userId lessonId : Id)
    (locale : Locale) :
    (c.texts.Truthful locale (CatalogService.toItemDto c locale).shown
        (CatalogService.toItemDto c locale).fallbackUsed ↔
      ((∃ field, c.texts.FromColumn locale field) →
        ∃ field, c.texts.FromEnglish locale field)) ∧
    ∀ served : ServedLesson,
      Answers w (LearningService.serveLesson userId lessonId (some userId) locale) (.ok served) →
        ∃ lesson, w.lessons.get lessonId = some lesson ∧
          (lesson.texts.Truthful locale served.shown served.fallbackUsed ↔
            ((∃ field, lesson.texts.FromColumn locale field) →
              ∃ field, lesson.texts.FromEnglish locale field)) := by
  refine ⟨toItemDto_truthful_iff c locale, fun served h => ?_⟩
  obtain ⟨lesson, hlesson, hshows⟩ := serveLesson_shows h
  refine ⟨lesson, hlesson, ?_⟩
  rw [hshows.flag]
  exact Texts.truthful_iff hshows.shown

/-! ## An English description for a German reader -/

/-- A German title without a description. The English block has none either. -/
def createGerman : CreateCertificateDto where
  title := "Scrum"
  programCode := "PSM"
  price := 100
  currency := .undefined
  description := .value "A framework"
  thumbnailUrl := .undefined
  active := .undefined
  translations := .value
    ((Table.empty.put ⟨"en", .fields [("title", .str "Scrum")]⟩).put
      ⟨"de", .fields [("title", .str "Scrum auf Deutsch")]⟩)

theorem fallback_not_told : ∃ w c, Calls emptyWorld [.create createGerman] w ∧
    w.certificates.get "psm" = some c ∧
    (CatalogService.toItemDto c .de).description = some (.str "A framework") ∧
    (CatalogService.toItemDto c .de).fallbackUsed = false ∧
    ¬c.texts.Truthful .de (CatalogService.toItemDto c .de).shown
      (CatalogService.toItemDto c .de).fallbackUsed := by
  have hrun : ∃ w c,
      followCalls [(.create createGerman, [some "", some "psm"])] emptyWorld = some w ∧
      w.certificates.get "psm" = some c ∧
      (CatalogService.toItemDto c .de).description = some (.str "A framework") ∧
      (CatalogService.toItemDto c .de).fallbackUsed = false ∧ c.texts.inBlock .de .body = none :=
    ⟨_, _, rfl, rfl, by decide, by decide, by decide⟩
  obtain ⟨w, c, hw, hc, hdescription, hflag, hmissing⟩ := hrun
  refine ⟨w, c, calls_of_follow hw, hc, hdescription, hflag, fun htruthful => ?_⟩
  have hset := htruthful.mpr ⟨.body, by simp [CatalogItem.shown, hdescription], hmissing⟩
  rw [hflag] at hset
  cases hset

end LmsBackend.Content
