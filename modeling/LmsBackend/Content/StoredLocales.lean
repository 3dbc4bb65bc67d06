import LmsBackend.Content.Documents

/-!
# Which locales are stored

`updateTranslations` refuses a document with a locale that is not supported. The
other calls store whatever keys the body has.
-/

open Async Store

namespace LmsBackend.Content

/-! ## Overlapping calls -/

def localeContract : Contract Call Resp where
  may
    | .certificateSave row => row.translations.Supported
    | .certificateUpdate _ patch => patch.translations.SetsSupported
    | .moduleSave row => row.translations.Supported
    | .moduleUpdate _ patch => patch.translations.SetsSupported
    | .lessonSave row => row.translations.Supported
    | .lessonUpdate _ patch => patch.translations.SetsSupported
    | _ => True
  gets
    | .certificateFindOne _, row? => ∀ row, row? = some row → row.translations.Supported
    | .moduleFindOne _, row? => ∀ row, row? = some row → row.translations.Supported
    | .lessonFindOne _, row? => ∀ row, row? = some row → row.translations.Supported
    | _, _ => True

theorem Wrote.supported {call : Call} {w w' : World} {r : Except Err (Resp call)}
    (h : Wrote w call r w') (hw : w.Supported) (hmay : localeContract.may call) : w'.Supported := by
  obtain ⟨hcertificates, hmodules, hlessons⟩ := hw
  cases h with
  | @certificateSave row stored x hnew hstored =>
    have hdocument : stored.translations.Supported := by
      rw [(Certificate.stored_spec hstored).2]
      exact hmay
    exact ⟨put_forall hcertificates hdocument, hmodules, hlessons⟩
  | certificateUpdate hrow hpatched =>
    have hrow := get_forall hcertificates _ hrow
    have hset := (Certificate.patched_spec hpatched).translations
    exact ⟨put_forall hcertificates (setNotNull_supported hset hmay hrow), hmodules, hlessons⟩
  | @moduleSave row stored x hnew hstored =>
    have hdocument : stored.translations.Supported := by
      rw [LearningModule.stored_translations hstored]
      exact hmay
    exact ⟨hcertificates, put_forall hmodules hdocument, hlessons⟩
  | moduleUpdate hrow hpatched =>
    have hrow := get_forall hmodules _ hrow
    have hset := (LearningModule.patched_spec hpatched).translations
    exact ⟨hcertificates, put_forall hmodules (setNotNull_supported hset hmay hrow), hlessons⟩
  | @lessonSave row stored x hnew hstored =>
    have hdocument : stored.translations.Supported := by
      rw [Lesson.stored_translations hstored]
      exact hmay
    exact ⟨hcertificates, hmodules, put_forall hlessons hdocument⟩
  | lessonUpdate hrow hpatched =>
    have hrow := get_forall hlessons _ hrow
    have hset := (Lesson.patched_spec hpatched).translations
    exact ⟨hcertificates, hmodules, put_forall hlessons (setNotNull_supported hset hmay hrow)⟩
  | progressSave => exact ⟨hcertificates, hmodules, hlessons⟩

theorem exec_gets {i : Nat} {call : Call} {x : Choice} {w w' : World} {r : Except Err (Resp call)}
    (hw : w.Supported) (hx : contentSystem.exec i call x w = some (w', r)) :
    ∀ a, r = .ok a → localeContract.gets call a := by
  rintro a rfl
  cases call with
  | certificateFindOne id => cases hx; exact get_forall hw.certificates
  | moduleFindOne id => cases hx; exact get_forall hw.modules
  | lessonFindOne id => cases hx; exact get_forall hw.lessons
  | _ => trivial

theorem upholds_supported : localeContract.Upholds contentSystem World.Supported where
  exec := by
    intro i call x w w' r hw hmay hx
    refine ⟨?_, exec_gets hw hx⟩
    rcases exec_cases hx with rfl | h
    · exact hw
    · exact h.supported hw hmay
  reject := by
    intro i call w w' e hw hmay hx
    rw [reject_world hx]
    exact hw
  env := by
    intro v w w' ts hw hx
    cases hx
    exact ⟨⟨hw.certificates, hw.modules, hw.lessons⟩, fun t ht => absurd ht List.not_mem_nil⟩

theorem supported_permits {t : Task} (ht : t.BodySupported) : Permits localeContract t where
  reads := by
    intro c hc
    cases c with
    | certificateSave row => cases hc
    | certificateUpdate id patch => cases hc
    | moduleSave row => cases hc
    | moduleUpdate id patch => cases hc
    | lessonSave row => cases hc
    | lessonUpdate id patch => cases hc
    | _ => trivial
  writes := by
    have hcreate : ∀ {bodyKey title : String} {body : Option String} {dto : Field Translations},
        dto.Supported → (mergeTranslations bodyKey Table.empty dto title body).Supported :=
      fun h => supported_merge_iff.mpr ⟨supported_empty, h⟩
    intro c hc
    cases hc with
    | @create dto row _ hdocument =>
      change row.translations.Supported
      rw [hdocument]
      exact hcreate ht
    | update hcert => exact updatePatch_merges.setsSupported (hcert _ rfl) ht
    | updateTranslations hcert hincoming =>
      exact translationsPatch_merges.setsSupported (hcert _ rfl) hincoming
    | softDelete => nofun
    | @createModule dto row hdocument =>
      change row.translations.Supported
      rw [hdocument]
      exact hcreate ht
    | updateModule hmod => exact modulePatch_merges.setsSupported (hmod _ rfl) ht
    | softDeleteModule => nofun
    | @createLesson dto row hdocument =>
      change row.translations.Supported
      rw [hdocument]
      exact hcreate ht
    | updateLesson hlesson => exact lessonPatch_merges.setsSupported (hlesson _ rfl) ht
    | softDeleteLesson => nofun

/-! ## One call after the other -/

section

variable {w : World} {f : Option (Fault World Call)}

theorem create_wlp (hf : f ≠ none) (dto : CreateCertificateDto) :
    wlp contentSystem 0 f (CatalogService.create dto) w fun _ r w' =>
      ∀ a, r = .ok a → (w'.Supported ↔ w.Supported ∧ dto.translations.Supported) := by
  unfold CatalogService.create
  refine read_wlp hf (fun _ _ _ => certificateFindByProgramCode_world) (fun existing => ?_) nofun
  split
  · nofun
  · refine certificateSave_wlp hf (fun x stored hnew hstored a ha =>
      (insert_certificate_iff hnew).trans ?_) ?_
    · rw [(Certificate.stored_spec hstored).2]
      exact and_congr_right fun _ => supported_merge_iff.trans (and_iff_right supported_empty)
    · intro e a ha
      cases ha

theorem update_wlp (hf : f ≠ none) (id : Id) (dto : UpdateCertificateDto) :
    wlp contentSystem 0 f (CatalogService.update id dto) w fun _ r w' =>
      ∀ a, r = .ok a → (w'.Supported ↔ w.Supported ∧ dto.translations.Supported) := by
  cases hcert : w.certificates.get id with
  | none =>
    refine wlp_answer hf (fun _ => rfl) ?_
    rw [hcert]
    nofun
  | some cert =>
    obtain rfl : cert.id = id := Table.key_of_get hcert
    refine wlp_mono (update_spec hf hcert dto) fun f r w' h a ha => ?_
    obtain ⟨row', hrow', rfl⟩ := h a ha
    exact replace_certificate_iff hcert hrow' updatePatch_merges

theorem updateTranslations_wlp (hf : f ≠ none) (id : Id) (incoming : Translations) :
    wlp contentSystem 0 f (CatalogService.updateTranslations id incoming) w fun _ r w' =>
      ∀ a, r = .ok a → (w'.Supported ↔ w.Supported ∧ True) := by
  cases hcert : w.certificates.get id with
  | none =>
    refine wlp_answer hf (fun _ => rfl) ?_
    rw [hcert]
    nofun
  | some cert =>
    obtain rfl : cert.id = id := Table.key_of_get hcert
    refine wlp_mono (updateTranslations_spec hf hcert incoming) fun f r w' h a ha => ?_
    obtain ⟨hincoming, row', hrow', rfl⟩ := h a ha
    refine (replace_certificate_iff hcert hrow' translationsPatch_merges).trans ?_
    exact and_congr_right fun _ => iff_of_true hincoming trivial

theorem createModule_wlp (hf : f ≠ none) (dto : CreateModuleDto) :
    wlp contentSystem 0 f (LearningService.createModule dto) w fun _ r w' =>
      ∀ a, r = .ok a → (w'.Supported ↔ w.Supported ∧ dto.translations.Supported) := by
  unfold LearningService.createModule
  refine wlp_answer hf (fun _ => rfl) ?_
  split
  · intro a ha
    cases ha
  · refine moduleSave_wlp hf (fun x stored hnew hstored a ha => (insert_module_iff hnew).trans ?_) ?_
    · rw [LearningModule.stored_translations hstored]
      exact and_congr_right fun _ => supported_merge_iff.trans (and_iff_right supported_empty)
    · intro e a ha
      cases ha

theorem updateModule_wlp (hf : f ≠ none) (id : Id) (dto : UpdateModuleDto) :
    wlp contentSystem 0 f (LearningService.updateModule id dto) w fun _ r w' =>
      ∀ a, r = .ok a → (w'.Supported ↔ w.Supported ∧ dto.translations.Supported) := by
  cases hmod : w.modules.get id with
  | none =>
    refine wlp_answer hf (fun _ => rfl) ?_
    rw [hmod]
    nofun
  | some mod =>
    obtain rfl : mod.id = id := Table.key_of_get hmod
    refine wlp_mono (updateModule_spec hf hmod dto) fun f r w' h a ha => ?_
    obtain ⟨row', hrow', rfl⟩ := h a ha
    exact replace_module_iff hmod hrow' modulePatch_merges

theorem createLesson_wlp (hf : f ≠ none) (dto : CreateLessonDto) :
    wlp contentSystem 0 f (LearningService.createLesson dto) w fun _ r w' =>
      ∀ a, r = .ok a → (w'.Supported ↔ w.Supported ∧ dto.translations.Supported) := by
  unfold LearningService.createLesson
  refine wlp_answer hf (fun _ => rfl) ?_
  split
  · intro a ha
    cases ha
  · refine lessonSave_wlp hf (fun x stored hnew hstored a ha => (insert_lesson_iff hnew).trans ?_) ?_
    · rw [Lesson.stored_translations hstored]
      exact and_congr_right fun _ => supported_merge_iff.trans (and_iff_right supported_empty)
    · intro e a ha
      cases ha

theorem updateLesson_wlp (hf : f ≠ none) (id : Id) (dto : UpdateLessonDto) :
    wlp contentSystem 0 f (LearningService.updateLesson id dto) w fun _ r w' =>
      ∀ a, r = .ok a → (w'.Supported ↔ w.Supported ∧ dto.translations.Supported) := by
  cases hlesson : w.lessons.get id with
  | none =>
    refine wlp_answer hf (fun _ => rfl) ?_
    rw [hlesson]
    nofun
  | some lesson =>
    obtain rfl : lesson.id = id := Table.key_of_get hlesson
    refine wlp_mono (updateLesson_spec hf hlesson dto) fun f r w' h a ha => ?_
    obtain ⟨row', hrow', rfl⟩ := h a ha
    exact replace_lesson_iff hlesson hrow' lessonPatch_merges

/-- A document that is not set keeps its keys. -/
theorem Wrote.quiet_iff {call : Call} {w' : World} {r : Except Err (Resp call)}
    (h : Wrote w call r w') (hmay : quietContract.may call) : w'.Supported ↔ w.Supported := by
  have hmerges : ∀ {patch : Field Translations} {old : Translations}, patch = .undefined →
      Merges patch .undefined old := by
    rintro patch old rfl
    exact .inl ⟨rfl, rfl⟩
  have hempty : Field.Supported .undefined := supported_empty
  cases h with
  | certificateSave => cases hmay
  | moduleSave => cases hmay
  | lessonSave => cases hmay
  | certificateUpdate hrow hpatched =>
    cases Table.key_of_get hrow
    have h := replace_certificate_iff hrow (Certificate.patched_spec hpatched) (hmerges hmay)
    exact h.trans (and_iff_left hempty)
  | moduleUpdate hrow hpatched =>
    cases Table.key_of_get hrow
    have h := replace_module_iff hrow (LearningModule.patched_spec hpatched) (hmerges hmay)
    exact h.trans (and_iff_left hempty)
  | lessonUpdate hrow hpatched =>
    cases Table.key_of_get hrow
    have h := replace_lesson_iff hrow (Lesson.patched_spec hpatched) (hmerges hmay)
    exact h.trans (and_iff_left hempty)
  | progressSave => rw [World.supported_iff, World.supported_iff]

theorem upholds_quiet :
    quietContract.Upholds contentSystem fun w' => w'.Supported ↔ w.Supported where
  exec := by
    intro i call x w₁ w₂ r hw hmay hx
    refine ⟨?_, fun _ _ => trivial⟩
    rcases exec_cases hx with rfl | h
    · exact hw
    · exact (h.quiet_iff hmay).trans hw
  reject := by
    intro i call w₁ w₂ e hw hmay hx
    rw [reject_world hx]
    exact hw
  env := by
    intro v w₁ w₂ ts hw hx
    cases hx
    refine ⟨Iff.trans ?_ hw, fun t ht => absurd ht List.not_mem_nil⟩
    rw [World.supported_iff, World.supported_iff]

/-- A reply comes with the documents of the body, and with all that were there. -/
theorem task_supported_iff {t : Task} {w' : World} {reply : Reply}
    (h : Ends contentSystem 0 none w (contentSystem.prog t) w' (.ok reply)) :
    w'.Supported ↔ w.Supported ∧ t.BodySupported := by
  have hf := some_ne_none w
  have hquiet : t.Quiet → t.BodySupported → (w'.Supported ↔ w.Supported ∧ t.BodySupported) := by
    intro ht hbody
    have hkept := upholds_quiet.ends h (task_meets (quiet_permits ht)) (.rfl : w.Supported ↔ w.Supported)
    exact hkept.trans (and_iff_left hbody).symm
  cases t with
  | create dto => exact wlp_of_reply h (create_wlp hf dto)
  | update id dto => exact wlp_of_reply h (update_wlp hf id dto)
  | updateTranslations id incoming => exact wlp_of_reply h (updateTranslations_wlp hf id incoming)
  | createModule dto => exact wlp_of_reply h (createModule_wlp hf dto)
  | updateModule id dto => exact wlp_of_reply h (updateModule_wlp hf id dto)
  | createLesson dto => exact wlp_of_reply h (createLesson_wlp hf dto)
  | updateLesson id dto => exact wlp_of_reply h (updateLesson_wlp hf id dto)
  | _ => exact hquiet trivial trivial

end

/-- Unsupported keys are stored by the bodies that have them, and stay for good. -/
theorem calls_supported_iff {w w' : World} {ts : List Task} (h : Calls w ts w') :
    w'.Supported ↔ w.Supported ∧ ∀ t ∈ ts, t.BodySupported := by
  induction h with
  | nil => exact (and_iff_left fun t ht => absurd ht List.not_mem_nil).symm
  | wait _ ih =>
    rw [ih, World.supported_iff, World.supported_iff]
  | call h _ ih =>
    rw [ih, task_supported_iff h, List.forall_mem_cons, and_assoc]

/-- A guard: only bodies with supported locales. -/
def supportedBodies : Guard World Call Resp Err Reply Task Choice Nat := fun _ l =>
  ∀ t, l = .spawn t → t.BodySupported

/-- All stored locales are supported after calls one after the other if and only if those of all
bodies were, and after overlapping and failing calls if those of all bodies were. -/
theorem stored_locales_supported {w : World} (hw : w.Supported) :
    (∀ ts w', Calls w ts w' → (w'.Supported ↔ ∀ t ∈ ts, t.BodySupported)) ∧
      ∀ c : Pool, Reach contentSystem (· = w) supportedBodies c → c.world.Supported := by
  refine ⟨fun ts w' h => ?_, fun c hc => ?_⟩
  · rw [calls_supported_iff h]
    exact and_iff_right hw
  · refine (upholds_supported.reach ?_ ?_ hc).world
    · rintro _ rfl
      exact hw
    · exact fun c t ht => task_meets (supported_permits (ht t rfl))

/-! ## A locale that is not supported -/

def createIn (locale : String) : CreateCertificateDto where
  title := "Scrum"
  programCode := "PSM"
  price := 100
  currency := .undefined
  description := .undefined
  thumbnailUrl := .undefined
  active := .undefined
  translations := .value (Table.empty.put ⟨locale, .fields [("title", .str "Scrum")]⟩)

theorem emptyWorld_supported : emptyWorld.Supported := ⟨nofun, nofun, nofun⟩

theorem create_follows {locale : String} (h : locale = "de" ∨ locale = "xx") :
    ∃ w' reply, follow contentSystem 0 [some "", some "psm"] emptyWorld
      (contentSystem.prog (.create (createIn locale))) = some (none, w', .ok reply) := by
  rcases h with rfl | rfl
  · exact ⟨_, _, rfl⟩
  · exact ⟨_, _, rfl⟩

theorem createIn_supported_iff (locale : String) :
    (Task.create (createIn locale)).BodySupported ↔ isLocale locale = true := by
  change Translations.Supported (Table.empty.put _) ↔ _
  constructor
  · intro h
    exact h ⟨locale, .fields [("title", .str "Scrum")]⟩ (Table.mem_put.mpr (.inl rfl))
  · rintro h b hb
    rcases Table.mem_put.mp hb with rfl | ⟨hb, -⟩
    · exact h
    · cases hb

theorem stored_locales_supported_german :
    emptyWorld.Supported ∧
      ∃ w', Calls emptyWorld [.create (createIn "de")] w' ∧ w'.Supported := by
  obtain ⟨w', reply, h⟩ := create_follows (.inl rfl)
  have hcalls : Calls emptyWorld [.create (createIn "de")] w' := .call (ends_of_follow h) .nil
  refine ⟨emptyWorld_supported, w', hcalls, ?_⟩
  refine ((stored_locales_supported emptyWorld_supported).1 _ _ hcalls).mpr fun t ht => ?_
  rw [List.mem_singleton.mp ht]
  exact (createIn_supported_iff "de").mpr rfl

/-- `create` does not look at the keys. -/
theorem unsupported_locale_stored :
    emptyWorld.Supported ∧
      ∃ w', Calls emptyWorld [.create (createIn "xx")] w' ∧ ¬w'.Supported := by
  obtain ⟨w', reply, h⟩ := create_follows (.inr rfl)
  refine ⟨emptyWorld_supported, w', .call (ends_of_follow h) .nil, fun hw' => ?_⟩
  have hbody := ((task_supported_iff (ends_of_follow h)).mp hw').2
  cases (createIn_supported_iff "xx").mp hbody

end LmsBackend.Content
