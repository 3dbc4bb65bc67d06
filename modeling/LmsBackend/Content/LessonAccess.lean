import LmsBackend.Content.OneCall

/-!
# Who gets a lesson

`serveLesson` and `markComplete` look at the lesson and at the purchase of its
certificate. The curriculum also asks that the module and the certificate be
active.
-/

open Async Store

namespace LmsBackend.Content

/-! ## Admission -/

def Err.denies : Err → Bool
  | .notFound _ | .forbidden _ => true
  | _ => false

/-- The program answers, and with neither 403 nor 404. -/
def Admits {α : Type} (w : World) (p : Promise α) : Prop :=
  (∃ r, Answers w p r) ∧ ∀ e, Answers w p (.error e) → e.denies = false

def Purchased (w : World) (userId certId : Id) : Prop := ⟨userId, certId⟩ ∈ w.purchases

instance (w : World) (userId certId : Id) : Decidable (Purchased w userId certId) :=
  inferInstanceAs (Decidable (_ ∈ _))

def Curriculum.lists (c : Curriculum) (lessonId : Id) : Bool :=
  c.modules.any fun m => m.lessons.any (·.id = lessonId)

/-- The student gets the curriculum of the lesson's certificate, and the lesson is in it. -/
def Listed (w : World) (userId : Id) (lesson : Lesson) (locale : Locale) : Prop :=
  ∃ m, w.modules.get lesson.moduleId = some m ∧ ∃ c,
    Answers w (LearningService.getCurriculum userId m.certId (some userId) locale) (.ok c) ∧
      c.lists lesson.id = true

/-- The student would be admitted to the lesson, but its module or certificate is inactive. -/
def Hidden (w : World) (userId : Id) (lesson : Lesson) : Prop :=
  lesson.active = true ∧ ∃ m, w.modules.get lesson.moduleId = some m ∧ Purchased w userId m.certId ∧
    ¬(m.active = true ∧ ∃ cert, w.certificates.get m.certId = some cert ∧ cert.active = true)

/-! ## What the functions answer -/

section

variable {w : World} {userId certId lessonId : Id} {locale : Locale} {lesson : Lesson}
  {f : Option (Fault World Call)}

theorem purchases_isEmpty :
    (((w.visiblePurchases (some userId)).filter fun p =>
      p.userId = userId ∧ p.certId = certId).take 1).isEmpty = true ↔ ¬Purchased w userId certId := by
  rw [List.isEmpty_iff, List.take_eq_nil_iff, List.filter_eq_nil_iff]
  simp only [Nat.one_ne_zero, false_or, decide_eq_true_eq, World.visiblePurchases, List.mem_filter,
    Option.some.injEq]
  constructor
  · intro h hpurchased
    exact h _ ⟨hpurchased, rfl⟩ ⟨rfl, rfl⟩
  · rintro h ⟨u, cert⟩ ⟨hmem, -⟩ ⟨rfl, rfl⟩
    exact h hmem

/-- The gate lets a student with a purchase through, and answers 403 otherwise. -/
theorem assertPurchased_wlp {β : Type} {q : Unit → Promise β}
    {Q : Option (Fault World Call) → Except Err β → World → Prop} (hf : f ≠ none)
    (hpass : Purchased w userId certId → wlp contentSystem 0 f (q ()) w Q)
    (hstop : ¬Purchased w userId certId →
      Q f (.error (.forbidden "You have not enrolled in this certificate")) w) :
    wlp contentSystem 0 f ((LearningService.assertPurchased userId certId (some userId)).bind q) w Q := by
  rw [wlp_bind]
  unfold LearningService.assertPurchased
  refine wlp_answer hf (fun _ => rfl) ?_
  by_cases hpurchased : Purchased w userId certId
  · rw [if_neg (by rw [purchases_isEmpty]; exact not_not_intro hpurchased)]
    exact hpass hpurchased
  · rw [if_pos (purchases_isEmpty.mpr hpurchased)]
    exact hstop hpurchased

/-- The certificate is active. -/
def Offered (w : World) (certId : Id) : Prop :=
  ∃ cert, w.certificates.get certId = some cert ∧ cert.active = true

/-- The lesson and its module, which is of the certificate, are active. -/
def InTree (w : World) (certId : Id) (lesson : Lesson) : Prop :=
  lesson.active = true ∧
    ∃ m, w.modules.get lesson.moduleId = some m ∧ m.certId = certId ∧ m.active = true

/-- The ids of the lessons that the student has completed. -/
def World.completedIds (w : World) (userId : Id) : List Id :=
  (w.progress.rows.filter (·.userId = userId)).map (·.lessonId)

def World.tree (w : World) (userId certId : Id) (locale : Locale) : List CurriculumModule :=
  (w.activeModules certId).map (LearningService.curriculumModule locale (w.completedIds userId)
    (w.activeLessons ((w.activeModules certId).map (·.id))))

theorem lists_tree {c : Curriculum} (hc : c.modules = w.tree userId certId locale) :
    c.lists lessonId = true ↔ ∃ l ∈ w.lessons.rows, l.id = lessonId ∧ InTree w certId l := by
  have hmodule : ∀ m, m ∈ w.activeModules certId ↔
      m ∈ w.modules.rows ∧ m.certId = certId ∧ m.active = true := by
    intro m
    simp [World.activeModules, List.mem_insertionSort]
  have hlesson : ∀ ids l, l ∈ w.activeLessons ids ↔
      l ∈ w.lessons.rows ∧ l.moduleId ∈ ids ∧ l.active = true := by
    intro ids l
    simp [World.activeLessons, List.mem_insertionSort]
  simp only [Curriculum.lists, hc, World.tree, List.any_map, List.any_eq_true, Function.comp_apply,
    LearningService.curriculumModule, LearningService.curriculumLesson, decide_eq_true_eq,
    List.mem_filter, hmodule, hlesson, InTree, List.any_eq_true]
  constructor
  · rintro ⟨m, ⟨hm, hcert, hactive⟩, l, ⟨⟨hl, -, hlactive⟩, hof⟩, hid⟩
    refine ⟨l, hl, of_decide_eq_true hid, hlactive, m, ?_, hcert, hactive⟩
    rw [hof]
    exact Table.mem_rows_iff.mp hm
  · rintro ⟨l, hl, rfl, hlactive, m, hm, hcert, hactive⟩
    obtain ⟨hmem, hid⟩ := Table.get_some_iff.mp hm
    refine ⟨m, ⟨hmem, hcert, hactive⟩, l, ⟨⟨hl, ?_, hlactive⟩, hid.symm⟩, decide_eq_true rfl⟩
    exact List.mem_map.mpr ⟨m, (hmodule m).mpr ⟨hmem, hcert, hactive⟩, hid⟩

theorem getCurriculum_wlp (hf : f ≠ none) :
    wlp contentSystem 0 f (LearningService.getCurriculum userId certId (some userId) locale) w
      fun _ r _ =>
        (Offered w certId ∧ Purchased w userId certId ∧ ∃ c, r = .ok c ∧
          c.modules = w.tree userId certId locale) ∨
        (¬(Offered w certId ∧ Purchased w userId certId) ∧ ∃ e, r = .error e) := by
  unfold LearningService.getCurriculum
  refine wlp_answer hf (fun _ => rfl) ?_
  cases hcert : (w.certificates.get certId).filter (·.active) with
  | none =>
    refine .inr ⟨?_, _, rfl⟩
    rintro ⟨⟨cert, hget, hactive⟩, -⟩
    rw [hget] at hcert
    simp [Option.filter, hactive] at hcert
  | some cert =>
    obtain ⟨hget, hactive⟩ := Option.filter_eq_some_iff.mp hcert
    have hoffered : Offered w certId := ⟨cert, hget, hactive⟩
    refine assertPurchased_wlp hf ?_ fun hpurchased => .inr ⟨fun h => hpurchased h.2, _, rfl⟩
    intro hpurchased
    refine wlp_answer hf (fun _ => rfl) ?_
    by_cases hempty : ((w.activeModules certId).map (·.id)).isEmpty = true
    · rw [if_pos hempty]
      refine wlp_answer hf (fun _ => rfl) (.inl ⟨hoffered, hpurchased, _, rfl, ?_⟩)
      have hmodules : w.activeModules certId = [] := by simpa using hempty
      simp [World.tree, hmodules]
    · rw [if_neg hempty]
      refine wlp_answer hf (fun _ => rfl) ?_
      exact wlp_answer hf (fun _ => rfl) (.inl ⟨hoffered, hpurchased, _, rfl, rfl⟩)

/-- The lesson is active, and its module is of a certificate that the student has purchased. -/
def Open (w : World) (userId : Id) (lesson : Lesson) : Prop :=
  lesson.active = true ∧ ∃ m, w.modules.get lesson.moduleId = some m ∧ Purchased w userId m.certId

/-- Both functions pass the same gate before they do anything else. -/
theorem gate_wlp {α : Type} {q : Lesson → Promise α} (hf : f ≠ none)
    (hlesson : w.lessons.get lesson.id = some lesson)
    (hq : wlp contentSystem 0 f (q lesson) w fun _ r _ => r.isOk = true) :
    wlp contentSystem 0 f
      ((await (.lessonFindOne lesson.id)).bind fun lesson? =>
        match lesson?.filter (·.active) with
        | none => Prog.throw (.notFound "Lesson not found")
        | some lesson =>
          (await (.moduleFindOne lesson.moduleId)).bind fun mod? =>
            match mod? with
            | none => Prog.throw (.notFound "Lesson not found")
            | some mod =>
              (LearningService.assertPurchased userId mod.certId (some userId)).bind fun _ => q lesson)
      w fun _ r _ => Open w userId lesson ∧ r.isOk = true ∨
        ¬Open w userId lesson ∧ ∃ e, r = .error e ∧ e.denies = true := by
  refine wlp_answer hf (fun _ => rfl) ?_
  rw [hlesson]
  cases hactive : lesson.active with
  | false =>
    simp only [Option.filter, hactive, Bool.false_eq_true, if_false]
    refine .inr ⟨fun h => ?_, _, rfl, rfl⟩
    rw [h.1] at hactive
    cases hactive
  | true =>
    simp only [Option.filter, hactive, if_true]
    refine wlp_answer hf (fun _ => rfl) ?_
    cases hmodule : w.modules.get lesson.moduleId with
    | none =>
      refine .inr ⟨?_, _, rfl, rfl⟩
      rintro ⟨-, m, hm, -⟩
      cases hmodule.symm.trans hm
    | some mod =>
      refine assertPurchased_wlp hf (fun hpurchased => ?_) fun hpurchased => .inr ⟨?_, _, rfl, rfl⟩
      · exact wlp_mono hq fun _ _ _ h => .inl ⟨⟨hactive, mod, hmodule, hpurchased⟩, h⟩
      · rintro ⟨-, m, hm, h⟩
        cases hmodule.symm.trans hm
        exact hpurchased h

theorem serveLesson_wlp (hf : f ≠ none) (hlesson : w.lessons.get lesson.id = some lesson) :
    wlp contentSystem 0 f (LearningService.serveLesson userId lesson.id (some userId) locale) w
      fun _ r _ => Open w userId lesson ∧ r.isOk = true ∨
        ¬Open w userId lesson ∧ ∃ e, r = .error e ∧ e.denies = true := by
  refine gate_wlp hf hlesson ?_
  refine wlp_answer hf (fun _ => rfl) ?_
  cases lesson.videoUrl.filter (· ≠ "") with
  | none => rfl
  | some videoUrl =>
    simp only [await, Prog.bind_eq, wlp_bind, wlp_await]
    refine ⟨?_, fun h => absurd h hf⟩
    rintro x _ _ ⟨⟩
    rfl

theorem markComplete_wlp (hf : f ≠ none) (hlesson : w.lessons.get lesson.id = some lesson) :
    wlp contentSystem 0 f (LearningService.markComplete userId lesson.id (some userId)) w
      fun _ r _ => Open w userId lesson ∧ r.isOk = true ∨
        ¬Open w userId lesson ∧ ∃ e, r = .error e ∧ e.denies = true := by
  refine gate_wlp hf hlesson ?_
  refine wlp_answer hf (fun _ => rfl) ?_
  cases hexisting : w.progress.get (userId, lesson.id) with
  | some existing => rfl
  | none =>
    refine wlp_answer hf (fun _ => rfl) ?_
    have hsave : ∀ x, contentSystem.exec 0 (.progressSave ⟨userId, lesson.id, w.now⟩) x w =
        some ({ w with progress := w.progress.put ⟨userId, lesson.id, w.now⟩ },
          .ok ⟨userId, lesson.id, w.now⟩) := by
      intro x
      simp only [contentSystem, exec, hexisting, Option.isSome_none, Bool.false_eq_true, if_false]
    exact wlp_answer hf hsave rfl

end

/-! ## The three admission predicates -/

section

variable {w : World} {userId : Id} {lesson : Lesson} {locale : Locale}

theorem admits_iff {α : Type} {p : Promise α}
    (hp : ∀ f : Option (Fault World Call), f ≠ none → wlp contentSystem 0 f p w fun _ r _ =>
      Open w userId lesson ∧ r.isOk = true ∨
        ¬Open w userId lesson ∧ ∃ e, r = .error e ∧ e.denies = true) :
    Admits w p ↔ Open w userId lesson := by
  have hends : ∀ r, Answers w p r → Open w userId lesson ∧ r.isOk = true ∨
      ¬Open w userId lesson ∧ ∃ e, r = .error e ∧ e.denies = true := by
    rintro r ⟨w', h⟩
    exact h.wlp_none (hp _ (some_ne_none w))
  obtain ⟨r, hr⟩ := exists_answer w p
  constructor
  · rintro ⟨-, hnone⟩
    rcases hends r hr with ⟨hopen, -⟩ | ⟨-, e, rfl, hdenies⟩
    · exact hopen
    · rw [hnone e hr] at hdenies
      cases hdenies
  · intro hopen
    refine ⟨⟨r, hr⟩, fun e he => ?_⟩
    rcases hends _ he with ⟨-, hok⟩ | ⟨hnot, -⟩
    · cases hok
    · exact absurd hopen hnot

theorem listed_iff (hlesson : lesson ∈ w.lessons.rows) :
    Listed w userId lesson locale ↔ Open w userId lesson ∧ ¬Hidden w userId lesson := by
  have hunique : ∀ l ∈ w.lessons.rows, l.id = lesson.id → l = lesson := by
    intro l hl hid
    have hget : w.lessons.get l.id = some l := Table.mem_rows_iff.mp hl
    rw [hid, show w.lessons.get lesson.id = some lesson from Table.mem_rows_iff.mp hlesson] at hget
    exact (Option.some.inj hget).symm
  have hcurriculum : ∀ m : LearningModule, (∃ c, Answers w (LearningService.getCurriculum userId m.certId
        (some userId) locale) (.ok c) ∧ c.lists lesson.id = true) ↔
      Offered w m.certId ∧ Purchased w userId m.certId ∧ InTree w m.certId lesson := by
    intro m
    have hends : ∀ r, Answers w (LearningService.getCurriculum userId m.certId (some userId) locale) r →
        _ := fun r ⟨w', h⟩ => h.wlp_none (getCurriculum_wlp (some_ne_none w))
    constructor
    · rintro ⟨c, hc, hlists⟩
      rcases hends _ hc with ⟨hoffered, hpurchased, c', hok, htree⟩ | ⟨-, e, he⟩
      · cases hok
        obtain ⟨l, hl, hid, hin⟩ := (lists_tree htree).mp hlists
        rw [hunique l hl hid] at hin
        exact ⟨hoffered, hpurchased, hin⟩
      · cases he
    · rintro ⟨hoffered, hpurchased, hin⟩
      obtain ⟨r, hr⟩ := exists_answer w
        (LearningService.getCurriculum userId m.certId (some userId) locale)
      rcases hends r hr with ⟨-, -, c, rfl, htree⟩ | ⟨hnot, -⟩
      · exact ⟨c, hr, (lists_tree htree).mpr ⟨lesson, hlesson, rfl, hin⟩⟩
      · exact absurd ⟨hoffered, hpurchased⟩ hnot
  unfold Listed
  simp only [hcurriculum]
  constructor
  · rintro ⟨m, hm, hoffered, hpurchased, hactive, m', hm', -, hmactive⟩
    cases hm.symm.trans hm'
    refine ⟨⟨hactive, m, hm, hpurchased⟩, ?_⟩
    rintro ⟨-, m', hm', -, hnot⟩
    cases hm.symm.trans hm'
    exact hnot ⟨hmactive, hoffered⟩
  · rintro ⟨⟨hactive, m, hm, hpurchased⟩, hnot⟩
    have hshown : m.active = true ∧ ∃ cert, w.certificates.get m.certId = some cert ∧
        cert.active = true := by
      by_contra hhidden
      exact hnot ⟨hactive, m, hm, hpurchased, hhidden⟩
    exact ⟨m, hm, hshown.2, hpurchased, hactive, m, hm, rfl, hshown.1⟩

/-- Both functions admit to what the curriculum lists, if and only if the lesson is not one that an
inactive module or certificate hides. -/
theorem lesson_access_iff (hlesson : lesson ∈ w.lessons.rows) :
    ((Admits w (LearningService.serveLesson userId lesson.id (some userId) locale) ↔
        Listed w userId lesson locale) ∧
      (Admits w (LearningService.markComplete userId lesson.id (some userId)) ↔
        Listed w userId lesson locale)) ↔
    ¬Hidden w userId lesson := by
  have hget : w.lessons.get lesson.id = some lesson := Table.mem_rows_iff.mp hlesson
  rw [listed_iff hlesson, admits_iff fun f hf => serveLesson_wlp hf hget,
    admits_iff fun f hf => markComplete_wlp hf hget, and_self]
  constructor
  · intro h hhidden
    obtain ⟨hactive, m, hm, hpurchased, -⟩ := id hhidden
    exact (h.mp ⟨hactive, m, hm, hpurchased⟩).2 hhidden
  · intro hnot
    exact ⟨fun hopen => ⟨hopen, hnot⟩, And.left⟩

end

/-! ## A module that is deleted softly -/

def scrumCertificate : Certificate where
  id := "scrum"
  title := "Scrum"
  programCode := "PSM"
  description := none
  translations := Table.empty
  price := 100
  currency := "USD"
  active := true
  thumbnailUrl := none

def rolesModule : LearningModule where
  id := "roles"
  certId := "scrum"
  title := "Roles"
  description := none
  translations := Table.empty
  position := 0
  active := true
  createdAt := 0

def ownerLesson : Lesson where
  id := "owner"
  moduleId := "roles"
  title := "The product owner"
  videoUrl := none
  contentText := none
  translations := Table.empty
  position := 0
  durationSeconds := none
  active := true
  createdAt := 0

/-- The student has purchased the certificate. -/
def openWorld : World where
  now := 0
  certificates := Table.empty.put scrumCertificate
  modules := Table.empty.put rolesModule
  lessons := Table.empty.put ownerLesson
  purchases := [⟨"student", "scrum"⟩]
  progress := Table.empty

/-- After `softDeleteModule`. -/
def hiddenWorld : World :=
  { openWorld with modules := Table.empty.put { rolesModule with active := false } }

theorem lesson_access_open :
    ownerLesson ∈ openWorld.lessons.rows ∧ ¬Hidden openWorld "student" ownerLesson ∧
      (Admits openWorld (LearningService.serveLesson "student" "owner" (some "student") .en) ↔
        Listed openWorld "student" ownerLesson .en) := by
  have hlesson : ownerLesson ∈ openWorld.lessons.rows := by
    simp [openWorld, Table.mem_put]
  have hshown : ¬Hidden openWorld "student" ownerLesson := by
    rintro ⟨-, m, hm, -, hnot⟩
    cases hm
    exact hnot ⟨rfl, scrumCertificate, rfl, rfl⟩
  have haccess := (@lesson_access_iff openWorld "student" ownerLesson .en hlesson).mpr hshown
  exact ⟨hlesson, hshown, haccess.1⟩

/-- The student still gets the lesson. The curriculum does not list it any more. -/
theorem hidden_lesson_served :
    Admits hiddenWorld (LearningService.serveLesson "student" "owner" (some "student") .en) ∧
      Admits hiddenWorld (LearningService.markComplete "student" "owner" (some "student")) ∧
      ¬Listed hiddenWorld "student" ownerLesson .en := by
  have hget : hiddenWorld.lessons.get ownerLesson.id = some ownerLesson := rfl
  have hpurchased : Purchased hiddenWorld "student" "scrum" := List.mem_singleton.mpr rfl
  have hopen : Open hiddenWorld "student" ownerLesson :=
    ⟨rfl, { rolesModule with active := false }, rfl, hpurchased⟩
  refine ⟨?_, ?_, fun hlisted => ?_⟩
  · exact (admits_iff fun f hf => serveLesson_wlp hf hget).mpr hopen
  · exact (admits_iff fun f hf => markComplete_wlp hf hget).mpr hopen
  · refine ((listed_iff (Table.mem_rows_iff.mpr hget)).mp hlisted).2 ⟨rfl, _, rfl, hpurchased, ?_⟩
    rintro ⟨hactive, -⟩
    cases hactive

end LmsBackend.Content
