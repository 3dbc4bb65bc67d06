import LmsBackend.Async.Alone
import LmsBackend.Content.System

/-!
# Calls that run by themselves

How a request ends when nothing else runs and no call is made to reject, and
what its writes leave.
-/

open Async Store

namespace LmsBackend.Content

/-- The answers of a program that runs by itself, while the database and the storage work. -/
abbrev Answers {α : Type} (w : World) (p : Promise α) (r : Except Err α) : Prop :=
  ∃ w', Ends contentSystem 0 none w p w' r

/-- Successful calls, one after the other. Time passes between them. -/
inductive Calls : World → List Task → World → Prop where
  | nil {w} : Calls w [] w
  | wait {w ms ts w'} (h : Calls { w with now := w.now + ms } ts w') : Calls w ts w'
  | call {w t w₁ ts w' reply}
      (h : Ends contentSystem 0 none w (contentSystem.prog t) w₁ (.ok reply))
      (hs : Calls w₁ ts w') : Calls w (t :: ts) w'

/-- Carries out the calls, each with the choices that its answers depend on. -/
def followCalls : List (Task × List (Option Choice)) → World → Option World
  | [], w => some w
  | (t, xs) :: ts, w =>
    match follow contentSystem 0 xs w (contentSystem.prog t) with
    | some (none, w', .ok _) => followCalls ts w'
    | _ => none

theorem calls_of_follow {ts : List (Task × List (Option Choice))} {w w' : World}
    (h : followCalls ts w = some w') : Calls w (ts.map Prod.fst) w' := by
  induction ts generalizing w with
  | nil =>
    cases h
    exact .nil
  | cons call ts ih =>
    obtain ⟨t, xs⟩ := call
    rw [followCalls] at h
    split at h
    · exact .call (ends_of_follow ‹_›) (ih h)
    · cases h

def emptyWorld : World where
  now := 0
  certificates := Table.empty
  modules := Table.empty
  lessons := Table.empty
  purchases := []
  progress := Table.empty

/-! ## Every call is answered -/

theorem exec_answers (call : Call) (w : World) : ∃ x w' r, exec 0 call x w = some (w', r) := by
  cases call with
  | certificateFindByProgramCode programCode =>
    simp only [exec]
    cases hrows : w.certificates.rows.filter (·.programCode = programCode) with
    | nil => exact ⟨"", _, _, rfl⟩
    | cons row rows => exact ⟨row.id, w, .ok (some row.id), by simp⟩
  | certificateSave row =>
    obtain ⟨x, hx⟩ := w.certificates.exists_new
    refine ⟨x, ?_⟩
    simp only [exec, hx]
    split
    · contradiction
    · split <;> exact ⟨_, _, rfl⟩
  | moduleSave row =>
    obtain ⟨x, hx⟩ := w.modules.exists_new
    refine ⟨x, ?_⟩
    simp only [exec, hx]
    split
    · contradiction
    · split
      · exact ⟨_, _, rfl⟩
      · split <;> exact ⟨_, _, rfl⟩
  | lessonSave row =>
    obtain ⟨x, hx⟩ := w.lessons.exists_new
    refine ⟨x, ?_⟩
    simp only [exec, hx]
    split
    · contradiction
    · split
      · exact ⟨_, _, rfl⟩
      · split <;> exact ⟨_, _, rfl⟩
  | _ =>
    refine ⟨"", ?_⟩
    simp only [exec]
    repeat' split
    all_goals exact ⟨_, _, rfl⟩

theorem exists_answer {α : Type} (w : World) (p : Promise α) : ∃ r, Answers w p r := by
  obtain ⟨w', r, h⟩ := exists_ends (S := contentSystem) (i := 0) exec_answers p w
  exact ⟨r, w', h⟩

/-! ## The calls -/

theorem some_ne_none (w : World) : (some ⟨w, .now⟩ : Option (Fault World Call)) ≠ none := nofun

/-- What a function leaves when it returns holds after a reply. -/
theorem wlp_of_reply {α : Type} {w w' : World} {p : Promise α} {g : α → Reply} {reply : Reply}
    {P : World → Prop}
    (h : Ends contentSystem 0 none w (p.bind fun a => .ret (g a)) w' (.ok reply))
    (hp : wlp contentSystem 0 (some ⟨w, .now⟩) p w fun _ r w' => ∀ a, r = .ok a → P w') : P w' := by
  have hbind : wlp contentSystem 0 (some ⟨w, .now⟩) (p.bind fun a => .ret (g a)) w fun _ r w' =>
      r = .ok reply → P w' := by
    rw [wlp_bind]
    refine wlp_mono hp fun f r w' hr => ?_
    cases r with
    | error e => nofun
    | ok a => exact fun _ => hr a rfl
  exact h.wlp_none hbind rfl

section

variable {α : Type} {w : World} {f : Option (Fault World Call)}
  {Q : Option (Fault World Call) → Except Err α → World → Prop}

/-- A call that leaves the world as it is. -/
theorem read_wlp {c : Call} {q : Resp c → Promise α} (hf : f ≠ none)
    (hread : ∀ x w' r, contentSystem.exec 0 c x w = some (w', r) → w' = w)
    (h : ∀ a, wlp contentSystem 0 f (q a) w Q) (herror : ∀ e, Q f (.error e) w) :
    wlp contentSystem 0 f ((await c).bind q) w Q := by
  rw [wlp_bind, await, wlp_await]
  refine ⟨fun x w' r hx => ?_, fun hnone => absurd hnone hf⟩
  cases hread x w' r hx
  cases r with
  | error e => exact herror e
  | ok a => exact h a

theorem lastRead_wlp {c : Call} {Q : Option (Fault World Call) → Except Err (Resp c) → World → Prop}
    (hf : f ≠ none) (hread : ∀ x w' r, contentSystem.exec 0 c x w = some (w', r) → w' = w)
    (h : ∀ r, Q f r w) : wlp contentSystem 0 f (await c) w Q := by
  rw [await, wlp_await]
  refine ⟨fun x w' r hx => ?_, fun hnone => absurd hnone hf⟩
  cases hread x w' r hx
  exact h r

theorem certificateFindByProgramCode_world {programCode : String} {i : Nat} {x : Choice} {w' : World}
    {r : Except Err (Option Id)}
    (h : contentSystem.exec i (.certificateFindByProgramCode programCode) x w = some (w', r)) :
    w' = w := by
  rcases exec_cases h with h | h
  · exact h
  · cases h

theorem certificateFindOneOrFail_world {id : Id} {i : Nat} {x : Choice} {w' : World}
    {r : Except Err Certificate}
    (h : contentSystem.exec i (.certificateFindOneOrFail id) x w = some (w', r)) : w' = w := by
  cases h
  rfl

theorem moduleFindOneOrFail_world {id : Id} {i : Nat} {x : Choice} {w' : World}
    {r : Except Err LearningModule}
    (h : contentSystem.exec i (.moduleFindOneOrFail id) x w = some (w', r)) : w' = w := by
  cases h
  rfl

theorem lessonFindOneOrFail_world {id : Id} {i : Nat} {x : Choice} {w' : World}
    {r : Except Err Lesson}
    (h : contentSystem.exec i (.lessonFindOneOrFail id) x w = some (w', r)) : w' = w := by
  cases h
  rfl

theorem certificateSave_wlp {row : Certificate} (hf : f ≠ none)
    {Q : Option (Fault World Call) → Except Err Certificate → World → Prop}
    (h : ∀ x stored, w.certificates.get x = none → row.stored = some stored →
      Q f (.ok { row with id := x })
        { w with certificates := w.certificates.put { stored with id := x } })
    (herror : ∀ e, Q f (.error e) w) :
    wlp contentSystem 0 f (await (.certificateSave row)) w Q := by
  rw [await, wlp_await]
  refine ⟨fun x w' r hx => ?_, fun hnone => absurd hnone hf⟩
  simp only [contentSystem, exec] at hx
  split at hx
  · cases hx
  · have hnew := Option.not_isSome_iff_eq_none.mp ‹_›
    split at hx
    · cases hx
      exact herror _
    · cases hx
      exact h x _ hnew ‹_›

theorem moduleSave_wlp {row : LearningModule} (hf : f ≠ none)
    {Q : Option (Fault World Call) → Except Err LearningModule → World → Prop}
    (h : ∀ x stored, w.modules.get x = none → row.stored = some stored →
      Q f (.ok { row with id := x, createdAt := w.now })
        { w with modules := w.modules.put { stored with id := x, createdAt := w.now } })
    (herror : ∀ e, Q f (.error e) w) :
    wlp contentSystem 0 f (await (.moduleSave row)) w Q := by
  rw [await, wlp_await]
  refine ⟨fun x w' r hx => ?_, fun hnone => absurd hnone hf⟩
  simp only [contentSystem, exec] at hx
  split at hx
  · cases hx
  · split at hx
    · cases hx
      exact herror _
    · have hnew := Option.not_isSome_iff_eq_none.mp ‹_›
      split at hx
      · cases hx
        exact herror _
      · cases hx
        exact h x _ hnew ‹_›

theorem lessonSave_wlp {row : Lesson} (hf : f ≠ none)
    {Q : Option (Fault World Call) → Except Err Lesson → World → Prop}
    (h : ∀ x stored, w.lessons.get x = none → row.stored = some stored →
      Q f (.ok { row with id := x, createdAt := w.now })
        { w with lessons := w.lessons.put { stored with id := x, createdAt := w.now } })
    (herror : ∀ e, Q f (.error e) w) :
    wlp contentSystem 0 f (await (.lessonSave row)) w Q := by
  rw [await, wlp_await]
  refine ⟨fun x w' r hx => ?_, fun hnone => absurd hnone hf⟩
  simp only [contentSystem, exec] at hx
  split at hx
  · cases hx
  · split at hx
    · cases hx
      exact herror _
    · have hnew := Option.not_isSome_iff_eq_none.mp ‹_›
      split at hx
      · cases hx
        exact herror _
      · cases hx
        exact h x _ hnew ‹_›

theorem certificateUpdate_wlp {id : Id} {patch : UpdateCertificateDto} {row : Certificate}
    {q : Unit → Promise α} (hf : f ≠ none) (hrow : w.certificates.get id = some row)
    (h : ∀ row', row.Patched patch row' →
      wlp contentSystem 0 f (q ()) { w with certificates := w.certificates.put row' } Q)
    (herror : ∀ e, Q f (.error e) w) :
    wlp contentSystem 0 f ((await (.certificateUpdate id patch)).bind q) w Q := by
  rw [wlp_bind, await, wlp_await]
  refine ⟨fun x w' r hx => ?_, fun hnone => absurd hnone hf⟩
  simp only [contentSystem, exec, updated, hrow] at hx
  cases hpatched : row.patched patch with
  | none =>
    rw [hpatched] at hx
    cases hx
    exact herror _
  | some row' =>
    rw [hpatched] at hx
    cases hx
    exact h row' (Certificate.patched_spec hpatched)

theorem moduleUpdate_wlp {id : Id} {patch : UpdateModuleDto} {row : LearningModule}
    {q : Unit → Promise α} (hf : f ≠ none) (hrow : w.modules.get id = some row)
    (h : ∀ row', row.Patched patch row' →
      wlp contentSystem 0 f (q ()) { w with modules := w.modules.put row' } Q)
    (herror : ∀ e, Q f (.error e) w) :
    wlp contentSystem 0 f ((await (.moduleUpdate id patch)).bind q) w Q := by
  rw [wlp_bind, await, wlp_await]
  refine ⟨fun x w' r hx => ?_, fun hnone => absurd hnone hf⟩
  simp only [contentSystem, exec, updated, hrow] at hx
  cases hpatched : row.patched patch with
  | none =>
    rw [hpatched] at hx
    cases hx
    exact herror _
  | some row' =>
    rw [hpatched] at hx
    cases hx
    exact h row' (LearningModule.patched_spec hpatched)

theorem lessonUpdate_wlp {id : Id} {patch : UpdateLessonDto} {row : Lesson}
    {q : Unit → Promise α} (hf : f ≠ none) (hrow : w.lessons.get id = some row)
    (h : ∀ row', row.Patched patch row' →
      wlp contentSystem 0 f (q ()) { w with lessons := w.lessons.put row' } Q)
    (herror : ∀ e, Q f (.error e) w) :
    wlp contentSystem 0 f ((await (.lessonUpdate id patch)).bind q) w Q := by
  rw [wlp_bind, await, wlp_await]
  refine ⟨fun x w' r hx => ?_, fun hnone => absurd hnone hf⟩
  simp only [contentSystem, exec, updated, hrow] at hx
  cases hpatched : row.patched patch with
  | none =>
    rw [hpatched] at hx
    cases hx
    exact herror _
  | some row' =>
    rw [hpatched] at hx
    cases hx
    exact h row' (Lesson.patched_spec hpatched)

end

/-! ## The updates -/

section

variable {w : World} {f : Option (Fault World Call)}

theorem patched_of_empty {cert : Certificate} {patch : UpdateCertificateDto}
    (h : CatalogService.emptyPatch patch = true) : cert.Patched patch cert := by
  simp only [CatalogService.emptyPatch, Bool.not_eq_true', Bool.or_eq_false_iff,
    Field.defined_eq_false] at h
  obtain ⟨⟨⟨⟨⟨⟨⟨htitle, hprogramCode⟩, hprice⟩, hcurrency⟩, hdescription⟩, hthumbnailUrl⟩, hactive⟩,
    htranslations⟩ := h
  constructor <;> simp [Field.setNotNull, Field.setText, Field.setNullable, Field.orKeep, *]

theorem module_patched_of_empty {mod : LearningModule} {patch : UpdateModuleDto}
    (h : LearningService.emptyModulePatch patch = true) : mod.Patched patch mod := by
  simp only [LearningService.emptyModulePatch, Bool.not_eq_true', Bool.or_eq_false_iff,
    Field.defined_eq_false] at h
  obtain ⟨⟨⟨⟨htitle, hdescription⟩, hposition⟩, hactive⟩, htranslations⟩ := h
  constructor <;> simp [Field.setNotNull, Field.setText, Field.orKeep, *]

theorem lesson_patched_of_empty {lesson : Lesson} {patch : UpdateLessonDto}
    (h : LearningService.emptyLessonPatch patch = true) : lesson.Patched patch lesson := by
  simp only [LearningService.emptyLessonPatch, Bool.not_eq_true', Bool.or_eq_false_iff,
    Field.defined_eq_false] at h
  obtain ⟨⟨⟨⟨⟨⟨htitle, hcontentText⟩, hvideoUrl⟩, hposition⟩, hdurationSeconds⟩, hactive⟩,
    htranslations⟩ := h
  constructor <;> simp [Field.setNotNull, Field.setText, Field.setNullable, Field.orKeep, *]

theorem patched_of_ends {α : Type} {w' : World} {r : Except Err α} {a : α} {P : Prop}
    (h : P ∨ w' = w ∧ ∃ e, r = .error e) (hr : r = .ok a) : P := by
  rcases h with h | ⟨-, e, he⟩
  · exact h
  · rw [hr] at he
    cases he

/-- An update of a row by itself patches it, or it fails and does nothing. -/
theorem update_ends {cert : Certificate} (hf : f ≠ none)
    (hcert : w.certificates.get cert.id = some cert) (dto : UpdateCertificateDto) :
    wlp contentSystem 0 f (CatalogService.update cert.id dto) w fun _ r w' =>
      (∃ row', cert.Patched (CatalogService.updatePatch dto cert) row' ∧
        w' = { w with certificates := w.certificates.put row' }) ∨
      w' = w ∧ ∃ e, r = .error e := by
  unfold CatalogService.update
  refine wlp_answer hf (fun _ => rfl) ?_
  rw [hcert]
  have hwrite : wlp contentSystem 0 f (do
      let patch := CatalogService.updatePatch dto cert
      if !CatalogService.emptyPatch patch then
        await (.certificateUpdate cert.id patch)
      await (.certificateFindOneOrFail cert.id)) w fun _ r w' =>
        (∃ row', cert.Patched (CatalogService.updatePatch dto cert) row' ∧
          w' = { w with certificates := w.certificates.put row' }) ∨
        w' = w ∧ ∃ e, r = .error e := by
    simp only
    split
    · refine certificateUpdate_wlp hf hcert (fun row' hrow' => ?_) fun e => .inr ⟨rfl, e, rfl⟩
      exact lastRead_wlp hf (fun _ _ _ => certificateFindOneOrFail_world) fun _ =>
        .inl ⟨row', hrow', rfl⟩
    · rename_i hempty
      refine lastRead_wlp hf (fun _ _ _ => certificateFindOneOrFail_world) fun _ =>
        .inl ⟨cert, patched_of_empty (by simpa using hempty), ?_⟩
      rw [Table.put_of_get hcert]
  simp only
  split
  · exact hwrite
  · refine read_wlp hf (fun _ _ _ => certificateFindByProgramCode_world) (fun clash => ?_)
      fun e => .inr ⟨rfl, e, rfl⟩
    split
    · exact .inr ⟨rfl, _, rfl⟩
    · exact hwrite

/-- A reply to an update of a row means that it has been patched. -/
theorem update_spec {cert : Certificate} (hf : f ≠ none)
    (hcert : w.certificates.get cert.id = some cert) (dto : UpdateCertificateDto) :
    wlp contentSystem 0 f (CatalogService.update cert.id dto) w fun _ r w' => ∀ a, r = .ok a →
      ∃ row', cert.Patched (CatalogService.updatePatch dto cert) row' ∧
        w' = { w with certificates := w.certificates.put row' } :=
  wlp_mono (update_ends hf hcert dto) fun _ _ _ h _ hr => patched_of_ends h hr

theorem updateTranslations_spec {cert : Certificate} (hf : f ≠ none)
    (hcert : w.certificates.get cert.id = some cert) (incoming : Translations) :
    wlp contentSystem 0 f (CatalogService.updateTranslations cert.id incoming) w fun _ r w' =>
      ∀ a, r = .ok a → incoming.Supported ∧
        ∃ row', cert.Patched (CatalogService.translationsPatch incoming cert) row' ∧
          w' = { w with certificates := w.certificates.put row' } := by
  unfold CatalogService.updateTranslations
  refine wlp_answer hf (fun _ => rfl) ?_
  rw [hcert]
  cases hfind : incoming.rows.find? fun b => !isLocale b.locale with
  | some b => nofun
  | none =>
    have hincoming : incoming.Supported := by
      intro b hb
      simpa using List.find?_eq_none.mp hfind b hb
    refine certificateUpdate_wlp hf hcert (fun row' hrow' => ?_) nofun
    exact lastRead_wlp hf (fun _ _ _ => certificateFindOneOrFail_world) fun _ _ _ =>
      ⟨hincoming, row', hrow', rfl⟩

theorem updateModule_ends {mod : LearningModule} (hf : f ≠ none)
    (hmod : w.modules.get mod.id = some mod) (dto : UpdateModuleDto) :
    wlp contentSystem 0 f (LearningService.updateModule mod.id dto) w fun _ r w' =>
      (∃ row', mod.Patched (LearningService.modulePatch dto mod) row' ∧
        w' = { w with modules := w.modules.put row' }) ∨
      w' = w ∧ ∃ e, r = .error e := by
  unfold LearningService.updateModule
  refine wlp_answer hf (fun _ => rfl) ?_
  rw [hmod]
  simp only
  split
  · refine moduleUpdate_wlp hf hmod (fun row' hrow' => ?_) fun e => .inr ⟨rfl, e, rfl⟩
    exact lastRead_wlp hf (fun _ _ _ => moduleFindOneOrFail_world) fun _ => .inl ⟨row', hrow', rfl⟩
  · rename_i hempty
    refine lastRead_wlp hf (fun _ _ _ => moduleFindOneOrFail_world) fun _ =>
      .inl ⟨mod, module_patched_of_empty (by simpa using hempty), ?_⟩
    rw [Table.put_of_get hmod]

theorem updateModule_spec {mod : LearningModule} (hf : f ≠ none)
    (hmod : w.modules.get mod.id = some mod) (dto : UpdateModuleDto) :
    wlp contentSystem 0 f (LearningService.updateModule mod.id dto) w fun _ r w' => ∀ a, r = .ok a →
      ∃ row', mod.Patched (LearningService.modulePatch dto mod) row' ∧
        w' = { w with modules := w.modules.put row' } :=
  wlp_mono (updateModule_ends hf hmod dto) fun _ _ _ h _ hr => patched_of_ends h hr

theorem updateLesson_ends {lesson : Lesson} (hf : f ≠ none)
    (hlesson : w.lessons.get lesson.id = some lesson) (dto : UpdateLessonDto) :
    wlp contentSystem 0 f (LearningService.updateLesson lesson.id dto) w fun _ r w' =>
      (∃ row', lesson.Patched (LearningService.lessonPatch dto lesson) row' ∧
        w' = { w with lessons := w.lessons.put row' }) ∨
      w' = w ∧ ∃ e, r = .error e := by
  unfold LearningService.updateLesson
  refine wlp_answer hf (fun _ => rfl) ?_
  rw [hlesson]
  simp only
  split
  · refine lessonUpdate_wlp hf hlesson (fun row' hrow' => ?_) fun e => .inr ⟨rfl, e, rfl⟩
    exact lastRead_wlp hf (fun _ _ _ => lessonFindOneOrFail_world) fun _ => .inl ⟨row', hrow', rfl⟩
  · rename_i hempty
    refine lastRead_wlp hf (fun _ _ _ => lessonFindOneOrFail_world) fun _ =>
      .inl ⟨lesson, lesson_patched_of_empty (by simpa using hempty), ?_⟩
    rw [Table.put_of_get hlesson]

theorem updateLesson_spec {lesson : Lesson} (hf : f ≠ none)
    (hlesson : w.lessons.get lesson.id = some lesson) (dto : UpdateLessonDto) :
    wlp contentSystem 0 f (LearningService.updateLesson lesson.id dto) w fun _ r w' =>
      ∀ a, r = .ok a → ∃ row', lesson.Patched (LearningService.lessonPatch dto lesson) row' ∧
        w' = { w with lessons := w.lessons.put row' } :=
  wlp_mono (updateLesson_ends hf hlesson dto) fun _ _ _ h _ hr => patched_of_ends h hr

end

end LmsBackend.Content
