import LmsBackend.Auth.Dtos
import LmsBackend.Content.EnglishText

/-!
# What an admin update leaves

The columns that the body does not supply stay, and the blocks of `translations`
are layered: those of the body over those of the row, and `en` over both. The
same update once more changes nothing. But `en` is made of the title that was
sent, of which the column may have kept less.
-/

open Async Store

namespace LmsBackend.Content

/-! ## Columns -/

/-- A column that is not supplied stays. -/
structure Certificate.Keeps (c : Certificate) (dto : UpdateCertificateDto) (c' : Certificate) :
    Prop where
  id : c'.id = c.id
  title : dto.title = .undefined → c'.title = c.title
  programCode : dto.programCode = .undefined → c'.programCode = c.programCode
  price : dto.price = .undefined → c'.price = c.price
  currency : dto.currency = .undefined → c'.currency = c.currency
  description : dto.description = .undefined → c'.description = c.description
  thumbnailUrl : dto.thumbnailUrl = .undefined → c'.thumbnailUrl = c.thumbnailUrl
  active : dto.active = .undefined → c'.active = c.active

structure LearningModule.Keeps (m : LearningModule) (dto : UpdateModuleDto) (m' : LearningModule) :
    Prop where
  id : m'.id = m.id
  certId : m'.certId = m.certId
  title : dto.title = .undefined → m'.title = m.title
  description : dto.description = .undefined → m'.description = m.description
  position : dto.position = .undefined → m'.position = m.position
  active : dto.active = .undefined → m'.active = m.active
  createdAt : m'.createdAt = m.createdAt

structure Lesson.Keeps (l : Lesson) (dto : UpdateLessonDto) (l' : Lesson) : Prop where
  id : l'.id = l.id
  moduleId : l'.moduleId = l.moduleId
  title : dto.title = .undefined → l'.title = l.title
  contentText : dto.contentText = .undefined → l'.contentText = l.contentText
  videoUrl : dto.videoUrl = .undefined → l'.videoUrl = l.videoUrl
  position : dto.position = .undefined → l'.position = l.position
  durationSeconds : dto.durationSeconds = .undefined → l'.durationSeconds = l.durationSeconds
  active : dto.active = .undefined → l'.active = l.active
  createdAt : l'.createdAt = l.createdAt

/-! ## Blocks -/

/-- The block that the body has for a locale. -/
def Field.block? (translations : Field Translations) (locale : String) : Option Block :=
  Translations.block? (translations.toOption.getD Table.empty) locale

/-- The blocks of the row, below those of the body and a block made of the new canonical columns. -/
structure Texts.Layered (t : Texts) (title body : Field String) (translations : Field Translations)
    (t' : Texts) : Prop where
  given : ∀ locale block, translations.block? locale = some block →
    t'.translations.block? locale = some block
  kept : ∀ locale, locale ≠ "en" → translations.block? locale = none →
    t'.translations.block? locale = t.translations.block? locale
  english : translations.block? "en" = none → t'.translations.block? "en" =
    if title.defined || body.defined || translations.defined then
      some (enBlock t.bodyKey t'.title t'.body)
    else t.translations.block? "en"

/-- The column keeps the title as it was sent, or no block is made of it. -/
def TitleFits (title : Field String) (translations : Field Translations) : Prop :=
  (translations.block? "en").isSome = true ∨ ∀ s, title = .value s → s.length ≤ 255

/-- An update of a row that there is. No other row changes. -/
inductive Follows : Task → World → World → Prop where
  | update {w id dto} (cert cert' : Certificate) (hcert : w.certificates.get id = some cert)
      (hkept : cert.Keeps dto cert')
      (hlayered : cert.texts.Layered dto.title dto.description dto.translations cert'.texts) :
      Follows (.update id dto) w { w with certificates := w.certificates.put cert' }
  | updateModule {w id dto} (mod mod' : LearningModule) (hmod : w.modules.get id = some mod)
      (hkept : mod.Keeps dto mod')
      (hlayered : mod.texts.Layered dto.title dto.description dto.translations mod'.texts) :
      Follows (.updateModule id dto) w { w with modules := w.modules.put mod' }
  | updateLesson {w id dto} (lesson lesson' : Lesson) (hlesson : w.lessons.get id = some lesson)
      (hkept : lesson.Keeps dto lesson')
      (hlayered : lesson.texts.Layered dto.title dto.contentText dto.translations lesson'.texts) :
      Follows (.updateLesson id dto) w { w with lessons := w.lessons.put lesson' }

/-- `update`, `updateModule` and `updateLesson` -/
def Task.updates : Task → Bool
  | .update _ _ | .updateModule _ _ | .updateLesson _ _ => true
  | _ => false

/-- Of the body of an update. -/
def Task.TitleFits : Task → Prop
  | .update _ dto => Content.TitleFits dto.title dto.translations
  | .updateModule _ dto => Content.TitleFits dto.title dto.translations
  | .updateLesson _ dto => Content.TitleFits dto.title dto.translations
  | _ => True

/-! ## Once more -/

section

variable {α : Type} {f : Field α}

theorem setNotNull_again {old new : α} (h : f.setNotNull old = some new) :
    f.setNotNull new = some new := by
  cases f with
  | undefined => rfl
  | null => cases h
  | value a => exact h

theorem orKeep_again {old new : Option α} (h : new = f.orKeep old) : new = f.orKeep new := by
  cases f with
  | undefined => rfl
  | null => exact h
  | value a => exact h

theorem setNotNull_undefined {old new : α} (h : f.setNotNull old = some new)
    (hf : f = .undefined) : new = old := by
  rw [hf] at h
  exact (Option.some.inj h).symm

theorem orKeep_undefined {old new : Option α} (h : new = f.orKeep old) (hf : f = .undefined) :
    new = old := by
  rw [hf] at h
  exact h

end

section

variable {f : Field String}

theorem setText_again {limit : Nat} {old new : String} (h : f.setText limit old = some new) :
    f.setText limit new = some new := by
  cases f with
  | undefined => rfl
  | null => cases h
  | value a => exact h

theorem setText_undefined {limit : Nat} {old new : String} (h : f.setText limit old = some new)
    (hf : f = .undefined) : new = old := by
  rw [hf] at h
  exact (Option.some.inj h).symm

theorem setNullable_again {limit : Option Nat} {old new : Option String}
    (h : f.setNullable limit old = some new) : f.setNullable limit new = some new := by
  cases f with
  | undefined => rfl
  | null => exact h
  | value a => exact h

theorem setNullable_undefined {limit : Option Nat} {old new : Option String}
    (h : f.setNullable limit old = some new) (hf : f = .undefined) : new = old := by
  rw [hf] at h
  exact (Option.some.inj h).symm

/-- The same title is sent once more. -/
theorem sent_again {limit : Nat} {old new : String} (h : f.setText limit old = some new) :
    f.toOption.getD new = f.toOption.getD old := by
  cases f with
  | undefined => exact (Option.some.inj h).symm
  | null => cases h
  | value a => rfl

/-- What is sent is what the column keeps, unless it is too long. -/
theorem sent_eq_iff {limit : Nat} {old new : String} (h : f.setText limit old = some new) :
    f.toOption.getD old = new ↔ ∀ s, f = .value s → s.length ≤ limit := by
  cases f with
  | undefined => exact iff_of_true (Option.some.inj h) nofun
  | null => cases h
  | value s =>
    have hstored : storeText (some limit) s = some new := h
    obtain ⟨-, ⟨rfl, hfits⟩ | ⟨hcut, n, hn, hlong⟩⟩ := storeText_cases hstored
    · refine iff_of_true rfl fun t ht => ?_
      cases ht
      exact hfits _ rfl
    · cases hn
      refine iff_of_false (fun hsame => hcut hsame.symm) fun hshort => ?_
      exact absurd (hshort s rfl) (Nat.not_le_of_lt hlong)

end

namespace Translations

variable {t incoming : Translations}

theorem spread_of_get (h : ∀ b ∈ incoming.rows, t.get b.locale = some b) :
    t.spread incoming = t := by
  unfold spread
  generalize incoming.rows = bs at h
  induction bs with
  | nil => rfl
  | cons b bs ih =>
    rw [List.foldl_cons, Table.put_of_get (h b List.mem_cons_self)]
    exact ih fun b' hb' => h b' (List.mem_cons_of_mem b hb')

theorem get_spread_of_mem {b : LocaleBlock} (hb : b ∈ incoming.rows) :
    (t.spread incoming).get b.locale = some b := by
  rw [get_spread, show incoming.get b.locale = some b from Table.mem_rows_iff.mp hb]
  rfl

end Translations

section

variable {bodyKey title : String} {existing : Translations} {translations : Field Translations}
  {body : Option String}

theorem block?_merge (locale : String) :
    (mergeTranslations bodyKey existing translations title body).block? locale =
      (translations.block? locale).or
        (if locale = "en" then some (enBlock bodyKey title body) else existing.block? locale) := by
  unfold mergeTranslations Field.block?
  generalize translations.toOption.getD Table.empty = given
  simp only
  split
  · rw [Translations.block?_spread]
    by_cases hlocale : locale = "en"
    · have hsome : (given.block? locale).isSome = true := by
        rw [hlocale, Translations.block?, Option.isSome_map]
        assumption
      obtain ⟨block, hblock⟩ := Option.isSome_iff_exists.mp hsome
      rw [hblock]
      rfl
    · rw [if_neg hlocale]
  · rw [Translations.block?_put, Translations.block?_spread]
    by_cases hlocale : locale = "en"
    · have hnone : given.block? locale = none := by
        rw [hlocale, Translations.block?, Option.map_eq_none_iff]
        exact Option.not_isSome_iff_eq_none.mp ‹_›
      rw [hnone, hlocale]
      rfl
    · rw [if_neg (Ne.symm hlocale), if_neg hlocale]

theorem merge_again :
    mergeTranslations bodyKey (mergeTranslations bodyKey existing translations title body)
      translations title body = mergeTranslations bodyKey existing translations title body := by
  unfold mergeTranslations
  generalize translations.toOption.getD Table.empty = given
  simp only
  split
  · exact Translations.spread_of_get fun b hb => Translations.get_spread_of_mem hb
  · rename_i hnone
    -- The `en` block comes last, and the body has none.
    have hspread : Translations.spread
        ((existing.spread given).put ⟨"en", enBlock bodyKey title body⟩) given =
          (existing.spread given).put ⟨"en", enBlock bodyKey title body⟩ := by
      apply Translations.spread_of_get
      intro b hb
      have hne : "en" ≠ b.locale := by
        intro hlocale
        have hget : given.get "en" = some b := by
          rw [hlocale]
          exact Table.mem_rows_iff.mp hb
        exact hnone (by rw [hget]; rfl)
      rw [Table.get_put, LocaleBlock.keyed, if_neg hne]
      exact Translations.get_spread_of_mem hb
    rw [hspread, Table.put_of_get]
    exact Table.get_put_of_eq _ rfl

end

section

variable {t t' : Texts} {title body : Field String} {translations : Field Translations}

/-- The document after an update, as a merge with the title that was sent. -/
theorem Texts.Updated.merged (h : t.Updated title body translations t')
    (hdefined : (title.defined || body.defined || translations.defined) = true) :
    t'.translations = mergeTranslations t.bodyKey t.translations translations
      (title.toOption.getD t.title) t'.body := by
  have hdocument := h.document
  rw [if_pos hdefined, ← h.newBody] at hdocument
  exact (Option.some.inj hdocument).symm

theorem Texts.Updated.untouched (h : t.Updated title body translations t')
    (hdefined : (title.defined || body.defined || translations.defined) = false) :
    translations = .undefined ∧ t'.translations = t.translations := by
  have hnone : translations = .undefined := by
    simp only [Bool.or_eq_false_iff, Field.defined_eq_false] at hdefined
    exact hdefined.2
  refine ⟨hnone, setNotNull_undefined h.document ?_⟩
  rw [if_neg (ne_true_of_eq_false hdefined), hnone]

theorem enBlock_inj {bodyKey title' sent : String} {b : Option String} :
    enBlock bodyKey sent b = enBlock bodyKey title' b ↔ sent = title' := by
  simp [enBlock]

/-- The `en` block mirrors the columns if and only if the title fits its own. -/
theorem Texts.Updated.layered_iff (h : t.Updated title body translations t') :
    t.Layered title body translations t' ↔ TitleFits title translations := by
  have hsent := sent_eq_iff h.newTitle
  cases hdefined : title.defined || body.defined || translations.defined with
  | true =>
    have hblock : ∀ locale, t'.translations.block? locale = _ := fun locale => by
      rw [h.merged hdefined, block?_merge]
    have hgiven : ∀ locale block, translations.block? locale = some block →
        t'.translations.block? locale = some block := fun locale block hgiven => by
      rw [hblock, hgiven]
      rfl
    have hkept : ∀ locale, locale ≠ "en" → translations.block? locale = none →
        t'.translations.block? locale = t.translations.block? locale := fun locale hne hgiven => by
      rw [hblock, hgiven, if_neg hne]
      rfl
    unfold TitleFits
    cases hen : translations.block? "en" with
    | some block =>
      refine iff_of_true ⟨hgiven, hkept, fun hnone => ?_⟩ (.inl rfl)
      rw [hen] at hnone
      cases hnone
    | none =>
      have henglish : t'.translations.block? "en" =
          some (enBlock t.bodyKey (title.toOption.getD t.title) t'.body) := by
        rw [hblock, hen]
        rfl
      constructor
      · intro hlayered
        have hmirrored := hlayered.english hen
        rw [henglish, hdefined, if_pos rfl, Option.some.injEq, enBlock_inj] at hmirrored
        exact .inr (hsent.mp hmirrored)
      · rintro (hsome | hfits)
        · cases hsome
        · refine ⟨hgiven, hkept, fun _ => ?_⟩
          rw [henglish, hdefined, if_pos rfl, hsent.mpr hfits]
  | false =>
    obtain ⟨hnone, hsame⟩ := h.untouched hdefined
    have hfits : TitleFits title translations := by
      simp only [Bool.or_eq_false_iff, Field.defined_eq_false] at hdefined
      rw [hdefined.1.1]
      exact .inr nofun
    refine iff_of_true ⟨fun locale block hgiven => ?_, fun _ _ _ => by rw [hsame], fun _ => ?_⟩ hfits
    · rw [hnone] at hgiven
      cases hgiven
    · rw [hsame, hdefined]
      rfl

theorem Texts.Updated.again (h : t.Updated title body translations t') :
    t'.Updated title body translations t' where
  sameKey := rfl
  newTitle := setText_again h.newTitle
  newBody := orKeep_again h.newBody
  document := by
    cases hdefined : title.defined || body.defined || translations.defined with
    | true =>
      rw [if_pos rfl, sent_again h.newTitle, ← orKeep_again h.newBody, h.sameKey]
      have hmerged := h.merged hdefined
      rw [hmerged, merge_again]
      rfl
    | false =>
      rw [if_neg Bool.false_ne_true, (h.untouched hdefined).1]
      rfl

end

/-! ## The rows -/

theorem updatePatch_eq (dto : UpdateCertificateDto) (cert : Certificate) :
    CatalogService.updatePatch dto cert =
      { dto with translations := (CatalogService.updatePatch dto cert).translations } := by
  unfold CatalogService.updatePatch
  simp only
  split <;> rfl

theorem modulePatch_eq (dto : UpdateModuleDto) (mod : LearningModule) :
    LearningService.modulePatch dto mod =
      { dto with translations := (LearningService.modulePatch dto mod).translations } := by
  unfold LearningService.modulePatch
  simp only
  split <;> rfl

theorem lessonPatch_eq (dto : UpdateLessonDto) (lesson : Lesson) :
    LearningService.lessonPatch dto lesson =
      { dto with translations := (LearningService.lessonPatch dto lesson).translations } := by
  unfold LearningService.lessonPatch
  simp only
  split <;> rfl

theorem Certificate.Patched.unique {c c₁ c₂ : Certificate} {patch : UpdateCertificateDto}
    (h₁ : c.Patched patch c₁) (h₂ : c.Patched patch c₂) : c₁ = c₂ := by
  cases c₁
  cases c₂
  simp only [Certificate.mk.injEq]
  exact ⟨h₁.id.trans h₂.id.symm, Option.some.inj (h₁.title.symm.trans h₂.title),
    Option.some.inj (h₁.programCode.symm.trans h₂.programCode),
    h₁.description.trans h₂.description.symm,
    Option.some.inj (h₁.translations.symm.trans h₂.translations),
    Option.some.inj (h₁.price.symm.trans h₂.price),
    Option.some.inj (h₁.currency.symm.trans h₂.currency),
    Option.some.inj (h₁.active.symm.trans h₂.active),
    Option.some.inj (h₁.thumbnailUrl.symm.trans h₂.thumbnailUrl)⟩

theorem LearningModule.Patched.unique {m m₁ m₂ : LearningModule} {patch : UpdateModuleDto}
    (h₁ : m.Patched patch m₁) (h₂ : m.Patched patch m₂) : m₁ = m₂ := by
  cases m₁
  cases m₂
  simp only [LearningModule.mk.injEq]
  exact ⟨h₁.id.trans h₂.id.symm, h₁.certId.trans h₂.certId.symm,
    Option.some.inj (h₁.title.symm.trans h₂.title), h₁.description.trans h₂.description.symm,
    Option.some.inj (h₁.translations.symm.trans h₂.translations),
    Option.some.inj (h₁.position.symm.trans h₂.position),
    Option.some.inj (h₁.active.symm.trans h₂.active), h₁.createdAt.trans h₂.createdAt.symm⟩

theorem Lesson.Patched.unique {l l₁ l₂ : Lesson} {patch : UpdateLessonDto}
    (h₁ : l.Patched patch l₁) (h₂ : l.Patched patch l₂) : l₁ = l₂ := by
  cases l₁
  cases l₂
  simp only [Lesson.mk.injEq]
  exact ⟨h₁.id.trans h₂.id.symm, h₁.moduleId.trans h₂.moduleId.symm,
    Option.some.inj (h₁.title.symm.trans h₂.title),
    Option.some.inj (h₁.videoUrl.symm.trans h₂.videoUrl),
    h₁.contentText.trans h₂.contentText.symm,
    Option.some.inj (h₁.translations.symm.trans h₂.translations),
    Option.some.inj (h₁.position.symm.trans h₂.position),
    h₁.durationSeconds.trans h₂.durationSeconds.symm,
    Option.some.inj (h₁.active.symm.trans h₂.active), h₁.createdAt.trans h₂.createdAt.symm⟩

section

variable {cert cert' : Certificate} {dto : UpdateCertificateDto}

theorem certificate_keeps (h : cert.Patched (CatalogService.updatePatch dto cert) cert') :
    cert.Keeps dto cert' := by
  rw [updatePatch_eq] at h
  exact ⟨h.id, setText_undefined h.title, setText_undefined h.programCode,
    setNotNull_undefined h.price, setText_undefined h.currency, orKeep_undefined h.description,
    setNullable_undefined h.thumbnailUrl, setNotNull_undefined h.active⟩

theorem certificate_again (h : cert.Patched (CatalogService.updatePatch dto cert) cert') :
    cert'.Patched (CatalogService.updatePatch dto cert') cert' := by
  have hdocument := (certificate_updated h).again.document
  rw [updatePatch_eq] at h
  rw [updatePatch_eq]
  refine ⟨rfl, setText_again h.title, setText_again h.programCode, orKeep_again h.description, ?_,
    setNotNull_again h.price, setText_again h.currency, setNotNull_again h.active,
    setNullable_again h.thumbnailUrl⟩
  rw [CatalogService.updatePatch_translations]
  exact hdocument

end

section

variable {mod mod' : LearningModule} {dto : UpdateModuleDto}

theorem module_keeps (h : mod.Patched (LearningService.modulePatch dto mod) mod') :
    mod.Keeps dto mod' := by
  rw [modulePatch_eq] at h
  exact ⟨h.id, h.certId, setText_undefined h.title, orKeep_undefined h.description,
    setNotNull_undefined h.position, setNotNull_undefined h.active, h.createdAt⟩

theorem module_again (h : mod.Patched (LearningService.modulePatch dto mod) mod') :
    mod'.Patched (LearningService.modulePatch dto mod') mod' := by
  have hdocument := (module_updated h).again.document
  rw [modulePatch_eq] at h
  rw [modulePatch_eq]
  refine ⟨rfl, setText_again h.title, orKeep_again h.description, ?_,
    setNotNull_again h.position, setNotNull_again h.active, rfl, rfl⟩
  rw [LearningService.modulePatch_translations]
  exact hdocument

end

section

variable {lesson lesson' : Lesson} {dto : UpdateLessonDto}

theorem lesson_keeps (h : lesson.Patched (LearningService.lessonPatch dto lesson) lesson') :
    lesson.Keeps dto lesson' := by
  rw [lessonPatch_eq] at h
  exact ⟨h.id, h.moduleId, setText_undefined h.title, orKeep_undefined h.contentText,
    setNullable_undefined h.videoUrl, setNotNull_undefined h.position,
    orKeep_undefined h.durationSeconds, setNotNull_undefined h.active, h.createdAt⟩

theorem lesson_again (h : lesson.Patched (LearningService.lessonPatch dto lesson) lesson') :
    lesson'.Patched (LearningService.lessonPatch dto lesson') lesson' := by
  have hdocument := (lesson_updated h).again.document
  rw [lessonPatch_eq] at h
  rw [lessonPatch_eq]
  refine ⟨rfl, setText_again h.title, orKeep_again h.contentText, ?_, setNullable_again h.videoUrl,
    setNotNull_again h.position, orKeep_again h.durationSeconds, setNotNull_again h.active, rfl,
    rfl⟩
  rw [LearningService.lessonPatch_translations]
  exact hdocument

end

/-! ## The updates -/

/-- What a function leaves, however it ends. -/
theorem wlp_of_end {α : Type} {w w' : World} {p : Promise α} {g : α → Reply} {r : Except Err Reply}
    {P : World → Prop} (h : Ends contentSystem 0 none w (p.bind fun a => .ret (g a)) w' r)
    (hp : wlp contentSystem 0 (some ⟨w, .now⟩) p w fun _ _ w' => P w') : P w' := by
  have hbind : wlp contentSystem 0 (some ⟨w, .now⟩) (p.bind fun a => .ret (g a)) w fun _ _ w' =>
      P w' := by
    rw [wlp_bind]
    refine wlp_mono hp fun f r w' hr => ?_
    cases r with
    | error e => exact hr
    | ok a => exact hr
  exact h.wlp_none hbind

section

variable {w w' w'' : World} {r : Except Err Reply} {reply : Reply}

theorem update_follows {id : Id} {dto : UpdateCertificateDto}
    (h : Ends contentSystem 0 none w (contentSystem.prog (.update id dto)) w' (.ok reply)) :
    ∃ cert cert', w.certificates.get id = some cert ∧
      cert.Patched (CatalogService.updatePatch dto cert) cert' ∧
      w' = { w with certificates := w.certificates.put cert' } := by
  have hf := some_ne_none w
  cases hcert : w.certificates.get id with
  | none =>
    refine (wlp_of_reply (P := fun _ => False) h ?_).elim
    unfold CatalogService.update
    refine wlp_answer hf (fun _ => rfl) ?_
    rw [hcert]
    intro a ha
    cases ha
  | some cert =>
    obtain rfl : cert.id = id := Table.key_of_get hcert
    obtain ⟨cert', hcert', rfl⟩ := wlp_of_reply h (update_spec hf hcert dto)
    exact ⟨cert, cert', rfl, hcert', rfl⟩

theorem updateModule_follows {id : Id} {dto : UpdateModuleDto}
    (h : Ends contentSystem 0 none w (contentSystem.prog (.updateModule id dto)) w' (.ok reply)) :
    ∃ mod mod', w.modules.get id = some mod ∧
      mod.Patched (LearningService.modulePatch dto mod) mod' ∧
      w' = { w with modules := w.modules.put mod' } := by
  have hf := some_ne_none w
  cases hmod : w.modules.get id with
  | none =>
    refine (wlp_of_reply (P := fun _ => False) h ?_).elim
    unfold LearningService.updateModule
    refine wlp_answer hf (fun _ => rfl) ?_
    rw [hmod]
    intro a ha
    cases ha
  | some mod =>
    obtain rfl : mod.id = id := Table.key_of_get hmod
    obtain ⟨mod', hmod', rfl⟩ := wlp_of_reply h (updateModule_spec hf hmod dto)
    exact ⟨mod, mod', rfl, hmod', rfl⟩

theorem updateLesson_follows {id : Id} {dto : UpdateLessonDto}
    (h : Ends contentSystem 0 none w (contentSystem.prog (.updateLesson id dto)) w' (.ok reply)) :
    ∃ lesson lesson', w.lessons.get id = some lesson ∧
      lesson.Patched (LearningService.lessonPatch dto lesson) lesson' ∧
      w' = { w with lessons := w.lessons.put lesson' } := by
  have hf := some_ne_none w
  cases hlesson : w.lessons.get id with
  | none =>
    refine (wlp_of_reply (P := fun _ => False) h ?_).elim
    unfold LearningService.updateLesson
    refine wlp_answer hf (fun _ => rfl) ?_
    rw [hlesson]
    intro a ha
    cases ha
  | some lesson =>
    obtain rfl : lesson.id = id := Table.key_of_get hlesson
    obtain ⟨lesson', hlesson', rfl⟩ := wlp_of_reply h (updateLesson_spec hf hlesson dto)
    exact ⟨lesson, lesson', rfl, hlesson', rfl⟩

/-- An update whose row is already patched leaves the world as it is. -/
theorem update_settled {cert : Certificate} {dto : UpdateCertificateDto}
    (hcert : w.certificates.get cert.id = some cert)
    (hsettled : cert.Patched (CatalogService.updatePatch dto cert) cert)
    (h : Ends contentSystem 0 none w (contentSystem.prog (.update cert.id dto)) w' r) : w' = w := by
  refine wlp_of_end (P := (· = w)) h
    (wlp_mono (update_ends (some_ne_none w) hcert dto) fun _ _ w'' hr => ?_)
  rcases hr with ⟨cert', hcert', rfl⟩ | ⟨rfl, -⟩
  · cases hcert'.unique hsettled
    rw [Table.put_of_get hcert]
  · rfl

theorem updateModule_settled {mod : LearningModule} {dto : UpdateModuleDto}
    (hmod : w.modules.get mod.id = some mod)
    (hsettled : mod.Patched (LearningService.modulePatch dto mod) mod)
    (h : Ends contentSystem 0 none w (contentSystem.prog (.updateModule mod.id dto)) w' r) :
    w' = w := by
  refine wlp_of_end (P := (· = w)) h
    (wlp_mono (updateModule_ends (some_ne_none w) hmod dto) fun _ _ w'' hr => ?_)
  rcases hr with ⟨mod', hmod', rfl⟩ | ⟨rfl, -⟩
  · cases hmod'.unique hsettled
    rw [Table.put_of_get hmod]
  · rfl

theorem updateLesson_settled {lesson : Lesson} {dto : UpdateLessonDto}
    (hlesson : w.lessons.get lesson.id = some lesson)
    (hsettled : lesson.Patched (LearningService.lessonPatch dto lesson) lesson)
    (h : Ends contentSystem 0 none w (contentSystem.prog (.updateLesson lesson.id dto)) w' r) :
    w' = w := by
  refine wlp_of_end (P := (· = w)) h
    (wlp_mono (updateLesson_ends (some_ne_none w) hlesson dto) fun _ _ w'' hr => ?_)
  rcases hr with ⟨lesson', hlesson', rfl⟩ | ⟨rfl, -⟩
  · cases hlesson'.unique hsettled
    rw [Table.put_of_get hlesson]
  · rfl

/-- The same update at any later time changes nothing more. -/
theorem updates_settle {t : Task} (ht : t.updates = true)
    (h : Ends contentSystem 0 none w (contentSystem.prog t) w' (.ok reply)) {now : Time}
    (h' : Ends contentSystem 0 none { w' with now := now } (contentSystem.prog t) w'' r) :
    w'' = { w' with now := now } := by
  cases t with
  | update id dto =>
    obtain ⟨cert, cert', hcert, hpatched, rfl⟩ := update_follows h
    obtain rfl : cert'.id = id := hpatched.id.trans (Table.key_of_get hcert)
    exact update_settled (Table.get_put_of_eq _ rfl) (certificate_again hpatched) h'
  | updateModule id dto =>
    obtain ⟨mod, mod', hmod, hpatched, rfl⟩ := updateModule_follows h
    obtain rfl : mod'.id = id := hpatched.id.trans (Table.key_of_get hmod)
    exact updateModule_settled (Table.get_put_of_eq _ rfl) (module_again hpatched) h'
  | updateLesson id dto =>
    obtain ⟨lesson, lesson', hlesson, hpatched, rfl⟩ := updateLesson_follows h
    obtain rfl : lesson'.id = id := hpatched.id.trans (Table.key_of_get hlesson)
    exact updateLesson_settled (Table.get_put_of_eq _ rfl) (lesson_again hpatched) h'
  | _ => cases ht

/-! The layers of the row that an update has left. -/

theorem Follows.certificate {id : Id} {dto : UpdateCertificateDto} {cert cert' : Certificate}
    (h : Follows (.update id dto) w w') (hcert : w.certificates.get id = some cert)
    (hcert' : w'.certificates.get id = some cert') :
    cert.texts.Layered dto.title dto.description dto.translations cert'.texts := by
  obtain ⟨old, new, hold, hkept, hlayered⟩ := h
  cases hcert.symm.trans hold
  have hkey : new.id = id := hkept.id.trans (Table.key_of_get hcert)
  cases (Table.get_put_of_eq _ hkey).symm.trans hcert'
  exact hlayered

theorem Follows.learningModule {id : Id} {dto : UpdateModuleDto} {mod mod' : LearningModule}
    (h : Follows (.updateModule id dto) w w') (hmod : w.modules.get id = some mod)
    (hmod' : w'.modules.get id = some mod') :
    mod.texts.Layered dto.title dto.description dto.translations mod'.texts := by
  obtain ⟨_, _⟩ | ⟨old, new, hold, hkept, hlayered⟩ := h
  cases hmod.symm.trans hold
  have hkey : new.id = id := hkept.id.trans (Table.key_of_get hmod)
  cases (Table.get_put_of_eq _ hkey).symm.trans hmod'
  exact hlayered

theorem Follows.lesson {id : Id} {dto : UpdateLessonDto} {lesson lesson' : Lesson}
    (h : Follows (.updateLesson id dto) w w') (hlesson : w.lessons.get id = some lesson)
    (hlesson' : w'.lessons.get id = some lesson') :
    lesson.texts.Layered dto.title dto.contentText dto.translations lesson'.texts := by
  obtain ⟨_, _⟩ | ⟨_, _⟩ | ⟨old, new, hold, hkept, hlayered⟩ := h
  cases hlesson.symm.trans hold
  have hkey : new.id = id := hkept.id.trans (Table.key_of_get hlesson)
  cases (Table.get_put_of_eq _ hkey).symm.trans hlesson'
  exact hlayered

theorem follows_iff {t : Task} (ht : t.updates = true)
    (h : Ends contentSystem 0 none w (contentSystem.prog t) w' (.ok reply)) :
    Follows t w w' ↔ t.TitleFits := by
  cases t with
  | update id dto =>
    obtain ⟨cert, cert', hcert, hpatched, rfl⟩ := update_follows h
    have hkey : cert'.id = id := hpatched.id.trans (Table.key_of_get hcert)
    have hlayers := (certificate_updated hpatched).layered_iff
    refine Iff.trans ⟨fun hf => hf.certificate hcert (Table.get_put_of_eq _ hkey), fun hlayered => ?_⟩
      hlayers
    exact .update cert cert' hcert (certificate_keeps hpatched) hlayered
  | updateModule id dto =>
    obtain ⟨mod, mod', hmod, hpatched, rfl⟩ := updateModule_follows h
    have hkey : mod'.id = id := hpatched.id.trans (Table.key_of_get hmod)
    have hlayers := (module_updated hpatched).layered_iff
    refine Iff.trans ⟨fun hf => hf.learningModule hmod (Table.get_put_of_eq _ hkey),
      fun hlayered => ?_⟩ hlayers
    exact .updateModule mod mod' hmod (module_keeps hpatched) hlayered
  | updateLesson id dto =>
    obtain ⟨lesson, lesson', hlesson, hpatched, rfl⟩ := updateLesson_follows h
    have hkey : lesson'.id = id := hpatched.id.trans (Table.key_of_get hlesson)
    have hlayers := (lesson_updated hpatched).layered_iff
    refine Iff.trans ⟨fun hf => hf.lesson hlesson (Table.get_put_of_eq _ hkey),
      fun hlayered => ?_⟩ hlayers
    exact .updateLesson lesson lesson' hlesson (lesson_keeps hpatched) hlayered
  | _ => cases ht

/-- An update that replies follows the merge, once and for all, if and only if its title fits the
column or no block is made of it. -/
theorem updates_follow_iff {t : Task} (ht : t.updates = true)
    (h : Ends contentSystem 0 none w (contentSystem.prog t) w' (.ok reply)) :
    (Follows t w w' ∧ ∀ now w'' r,
      Ends contentSystem 0 none { w' with now := now } (contentSystem.prog t) w'' r →
        w'' = { w' with now := now }) ↔ t.TitleFits := by
  rw [follows_iff ht h]
  exact and_iff_left fun now w'' r h' => updates_settle ht h h'

end

theorem updates_follow_title : ∃ w w' reply, Calls emptyWorld (history.map Prod.fst) w ∧
    Ends contentSystem 0 none w (contentSystem.prog (.update "psm" newTitle)) w' (.ok reply) ∧
    Follows (.update "psm" newTitle) w w' := by
  obtain ⟨w, hw⟩ : ∃ w, followCalls history emptyWorld = some w := ⟨_, rfl⟩
  have hcalls := calls_of_follow hw
  have hfollow : ∃ w' reply, follow contentSystem 0 [some "", some "", some ""] w
      (contentSystem.prog (.update "psm" newTitle)) = some (none, w', .ok reply) := by
    cases hw
    exact ⟨_, _, rfl⟩
  obtain ⟨w', reply, hends⟩ := hfollow
  have h := ends_of_follow hends
  have hfits : (Task.update "psm" newTitle).TitleFits := by
    right
    intro s hs
    cases hs
    decide
  exact ⟨w, w', reply, hcalls, h, ((updates_follow_iff rfl h).mpr hfits).1⟩

/-! ## A title that is too long -/

theorem exec_certificateUpdate {w : World} {id : Id} {patch : UpdateCertificateDto}
    {row row' : Certificate} (hrow : w.certificates.get id = some row)
    (hpatched : row.patched patch = some row') :
    contentSystem.exec 0 (.certificateUpdate id patch) "" w =
      some ({ w with certificates := w.certificates.put row' }, .ok ()) := by
  simp only [contentSystem, exec, updated, hrow, hpatched]

/-- An update that has no new code to look for, and that sets something. -/
theorem update_patches {w : World} {cert cert' : Certificate} {dto : UpdateCertificateDto}
    (hcert : w.certificates.get cert.id = some cert)
    (hcode : CatalogService.newProgramCode? dto cert = none)
    (hset : CatalogService.emptyPatch (CatalogService.updatePatch dto cert) = false)
    (h : cert.patched (CatalogService.updatePatch dto cert) = some cert') :
    Ends contentSystem 0 none w (contentSystem.prog (.update cert.id dto))
      { w with certificates := w.certificates.put cert' } (.ok (.certificate cert')) := by
  have hfind : contentSystem.exec 0 (.certificateFindOne cert.id) "" w =
      some (w, .ok (some cert)) := by
    simp only [contentSystem, exec, hcert]
  have hread : contentSystem.exec 0 (.certificateFindOneOrFail cert.id) ""
      { w with certificates := w.certificates.put cert' } =
        some ({ w with certificates := w.certificates.put cert' }, .ok cert') := by
    have hget : (w.certificates.put cert').get cert.id = some cert' :=
      Table.get_put_of_eq _ (Certificate.patched_spec h).id
    simp only [contentSystem, exec, hget, orFail]
  refine .answer hfind ?_
  dsimp only [Prog.answer, Prog.bind]
  rw [hcode]
  dsimp only
  rw [hset]
  exact .answer (exec_certificateUpdate hcert h) (.answer hread .ret)

/-- The length check does not count the variation selector. -/
def longTitle : String := String.ofList (List.replicate 254 'a' ++ ['\ufe0f', ' '])

theorem longTitle_length : longTitle.length = 256 := by
  unfold longTitle
  rw [String.length_ofList, List.length_append, List.length_replicate]
  rfl

theorem presentationSequences_padded (n : Nat) :
    Auth.presentationSequences (List.replicate (n + 1) 'a' ++ ['\ufe0f', ' ']) = 1 := by
  induction n with
  | zero => decide
  | succ n ih =>
    have hplain : ¬(Auth.isVariationSelector 'a' ∧ ¬Auth.isVariationSelector 'a') := by decide
    rw [List.replicate_succ, List.cons_append] at ih ⊢
    rw [List.replicate_succ, List.cons_append, Auth.presentationSequences, if_neg hplain, ih]

theorem longTitle_accepted : Auth.validatorLength longTitle = 255 := by
  have hchars : longTitle.toList = List.replicate (253 + 1) 'a' ++ ['\ufe0f', ' '] :=
    String.toList_ofList
  rw [Auth.validatorLength, longTitle_length, hchars, presentationSequences_padded]

theorem longTitle_stored : storeText (some 255) longTitle =
    some (String.ofList (List.replicate 254 'a' ++ ['\ufe0f'])) := by
  have hnul : '\x00' ∉ List.replicate 254 'a' ++ ['\ufe0f'] := by
    rw [List.mem_append, List.mem_replicate]
    decide
  have h := storeText_spaces hnul (fun _ => List.mem_singleton.mp) (by decide)
  rw [List.length_append, List.length_replicate, List.append_assoc] at h
  exact h

def retitle : UpdateCertificateDto := { CatalogService.noPatch with title := .value longTitle }

/-- The column drops the space, and `en` keeps it. -/
theorem updates_follow_not : ∃ w w' reply, Calls emptyWorld [.create createScrum] w ∧
    Auth.validatorLength longTitle ≤ 255 ∧
    Ends contentSystem 0 none w (contentSystem.prog (.update "psm" retitle)) w' (.ok reply) ∧
    ¬Follows (.update "psm" retitle) w w' := by
  obtain ⟨w, cert, hw, hcert, hid⟩ : ∃ w cert,
      followCalls [(.create createScrum, [some "", some "psm"])] emptyWorld = some w ∧
        w.certificates.get "psm" = some cert ∧ cert.id = "psm" := ⟨_, _, rfl, rfl, rfl⟩
  have hcalls := calls_of_follow hw
  obtain ⟨cert', hpatched⟩ : ∃ cert',
      cert.patched (CatalogService.updatePatch retitle cert) = some cert' := by
    rw [updatePatch_eq]
    simp only [Certificate.patched, retitle, CatalogService.noPatch, Field.setText, longTitle_stored]
    exact ⟨_, rfl⟩
  rw [← hid] at hcert
  have hends := update_patches hcert rfl rfl hpatched
  rw [hid] at hends
  refine ⟨w, _, _, hcalls, longTitle_accepted.le, hends, fun hfollows => ?_⟩
  rcases (follows_iff rfl hends).mp hfollows with hen | hfits
  · cases hen
  · have hshort := hfits longTitle rfl
    rw [longTitle_length] at hshort
    omega

end LmsBackend.Content
