import LmsBackend.Content.LessonAccess

/-!
# The progress of a student

`getProgressSummary` counts over all the certificates of the student at once,
`getCurriculum` lists the lessons of one. They agree.
-/

open Async Store Numeric

namespace LmsBackend.Content

/-! ## Agreement -/

def Curriculum.lessons (c : Curriculum) : List CurriculumLesson := c.modules.flatMap (·.lessons)

/-- What the rows say, against the certificates, the purchases and the curricula. -/
structure Summarises (w : World) (userId : Id) (rows : List CertificateProgress) : Prop where
  once : (rows.map (·.certId)).Nodup
  certs : ∀ certId, certId ∈ rows.map (·.certId) ↔
    (w.certificates.get certId).isSome = true ∧ Purchased w userId certId
  listed : ∀ row ∈ rows, Offered w row.certId → ∀ locale, ∃ c,
    Answers w (LearningService.getCurriculum userId row.certId (some userId) locale) (.ok c)
  counts : ∀ row ∈ rows, ∀ locale c,
    Answers w (LearningService.getCurriculum userId row.certId (some userId) locale) (.ok c) →
      (c.lessons.map (·.id)).Nodup ∧ row.totalLessons = c.lessons.length ∧
        row.completedLessons = c.lessons.countP (·.completed)

/-! ## Lessons, module by module -/

/-- To go through the values of a key is to go through what has one of them. -/
theorem perm_flatMap_filter {α β : Type} [DecidableEq β] (key : α → β) (l : List α) {ks : List β}
    (hks : ks.Nodup) : (ks.flatMap fun k => l.filter (key · = k)).Perm (l.filter (key · ∈ ks)) := by
  induction ks with
  | nil => simp
  | cons k ks ih =>
    obtain ⟨hnew, hrest⟩ := List.nodup_cons.mp hks
    have hsplit : l.filter (fun a => key a ∈ ks) =
        (l.filter (key · ∈ k :: ks)).filter (fun a => !decide (key a = k)) := by
      rw [List.filter_filter]
      apply List.filter_congr
      intro a _
      by_cases ha : key a = k
      · simp [ha, hnew]
      · simp [ha]
    have hfirst : l.filter (key · = k) = (l.filter (key · ∈ k :: ks)).filter (fun a => key a = k) := by
      rw [List.filter_filter]
      apply List.filter_congr
      intro a _
      by_cases ha : key a = k <;> simp [ha]
    have htail := (ih hrest).append_left (l.filter (key · = k))
    rw [List.flatMap_cons]
    apply htail.trans
    rw [hsplit, hfirst]
    exact List.filter_append_perm _ _

section

variable {w : World} {userId certId : Id} {locale : Locale}

theorem perm_activeLessons (moduleIds : List Id) : (w.activeLessons moduleIds).Perm
    (w.lessons.rows.filter fun l => l.moduleId ∈ moduleIds ∧ l.active = true) :=
  List.perm_insertionSort _ _

theorem nodup_activeModules : ((w.activeModules certId).map (·.id)).Nodup := by
  have hperm : (w.activeModules certId).Perm
      (w.modules.rows.filter fun m => m.certId = certId ∧ m.active = true) :=
    List.perm_insertionSort _ _
  rw [(hperm.map _).nodup_iff]
  exact w.modules.nodup.sublist (List.filter_sublist.map _)

theorem nodup_activeLessons (moduleIds : List Id) :
    ((w.activeLessons moduleIds).map (·.id)).Nodup := by
  rw [((perm_activeLessons moduleIds).map _).nodup_iff]
  exact w.lessons.nodup.sublist (List.filter_sublist.map _)

/-- The lessons that count for a certificate. -/
def World.offeredLessons (w : World) (certId : Id) : List Lesson :=
  w.activeLessons ((w.activeModules certId).map (·.id))

theorem perm_tree {c : Curriculum} (hc : c.modules = w.tree userId certId locale) :
    c.lessons.Perm ((w.offeredLessons certId).map
      (LearningService.curriculumLesson locale (w.completedIds userId))) := by
  have hlessons : c.lessons =
      (((w.activeModules certId).map (·.id)).flatMap fun id =>
        (w.offeredLessons certId).filter (·.moduleId = id)).map
          (LearningService.curriculumLesson locale (w.completedIds userId)) := by
    unfold Curriculum.lessons
    rw [hc]
    simp only [World.tree, World.offeredLessons, LearningService.curriculumModule, List.flatMap_map,
      List.map_flatMap]
  have hall : (w.offeredLessons certId).filter
      (fun l => l.moduleId ∈ (w.activeModules certId).map (·.id)) = w.offeredLessons certId := by
    apply List.filter_eq_self.mpr
    intro l hl
    have hmem := (perm_activeLessons _).mem_iff.mp hl
    simp only [List.mem_filter, decide_eq_true_eq] at hmem
    exact decide_eq_true hmem.2.1
  rw [hlessons]
  apply List.Perm.map
  have hperm := perm_flatMap_filter Lesson.moduleId (w.offeredLessons certId)
    (nodup_activeModules : ((w.activeModules certId).map (·.id)).Nodup)
  rwa [hall] at hperm

/-! ## The rows of the summary -/

/-- The rows that the summary is made of. -/
def World.summary (w : World) (userId : Id) (locale : Locale) : List CertificateProgress :=
  let certIds := ((w.visiblePurchases (some userId)).filter (·.userId = userId)).map (·.certId)
  let modules := w.modules.rows.filter fun m => m.certId ∈ certIds ∧ m.active
  (w.certificates.rows.filter (·.id ∈ certIds)).map (LearningService.certificateProgress locale modules
    (w.activeLessons (modules.map (·.id))) (w.completedIds userId))

theorem mem_certIds :
    certId ∈ ((w.visiblePurchases (some userId)).filter (·.userId = userId)).map (·.certId) ↔
      Purchased w userId certId := by
  unfold Purchased World.visiblePurchases
  simp only [List.mem_map, List.mem_filter, decide_eq_true_eq, Option.some.injEq]
  constructor
  · rintro ⟨⟨u, cert⟩, ⟨⟨hmem, -⟩, rfl⟩, rfl⟩
    exact hmem
  · intro hmem
    exact ⟨⟨userId, certId⟩, ⟨⟨hmem, rfl⟩, rfl⟩, rfl⟩

theorem getProgressSummary_wlp {f : Option (Fault World Call)} (hf : f ≠ none) :
    wlp contentSystem 0 f (LearningService.getProgressSummary userId (some userId) locale) w
      fun _ r _ => r = .ok (w.summary userId locale) := by
  unfold LearningService.getProgressSummary LearningService.findPurchases
  refine wlp_answer hf (fun _ => rfl) ?_
  split
  · have hnone : (w.visiblePurchases (some userId)).filter (·.userId = userId) = [] :=
      List.isEmpty_iff.mp ‹_›
    simp [World.summary, hnone]
  · refine wlp_answer hf (fun _ => rfl) ?_
    refine wlp_answer hf (fun _ => rfl) ?_
    simp only
    split
    · have hlessons := congrArg w.activeLessons (List.isEmpty_iff.mp ‹_›)
      have hnone : w.activeLessons [] = [] := by simp [World.activeLessons]
      rw [hnone] at hlessons
      refine wlp_answer hf (fun _ => rfl) ?_
      simp only [World.summary, hlessons]
      rfl
    · refine wlp_answer hf (fun _ => rfl) ?_
      exact wlp_answer hf (fun _ => rfl) rfl

/-- Of the lessons of all the certificates, those of one are its own. -/
theorem perm_certLessons {modules : List LearningModule} (hmodules : ∀ m, m.certId = certId →
      (m ∈ modules ↔ m ∈ w.modules.rows ∧ m.active = true)) :
    ((w.activeLessons (modules.map (·.id))).filter fun l =>
      ((modules.filter (·.certId = certId)).map (·.id)).contains l.moduleId).Perm
        (w.offeredLessons certId) := by
  have hof : ∀ id, id ∈ (modules.filter (·.certId = certId)).map (·.id) ↔
      id ∈ (w.activeModules certId).map (·.id) := by
    intro id
    simp only [List.mem_map, List.mem_filter, decide_eq_true_eq, World.activeModules,
      List.mem_insertionSort]
    apply exists_congr
    intro m
    apply and_congr_left
    intro _
    constructor
    · rintro ⟨hm, hcert⟩
      obtain ⟨hrow, hactive⟩ := (hmodules m hcert).mp hm
      exact ⟨hrow, hcert, hactive⟩
    · rintro ⟨hrow, hcert, hactive⟩
      exact ⟨(hmodules m hcert).mpr ⟨hrow, hactive⟩, hcert⟩
  apply ((perm_activeLessons _).filter _).trans
  apply List.Perm.trans _ (perm_activeLessons _).symm
  rw [List.filter_filter]
  apply List.Perm.of_eq
  apply List.filter_congr
  intro l _
  have hsub : l.moduleId ∈ (modules.filter (·.certId = certId)).map (·.id) →
      l.moduleId ∈ modules.map (·.id) := fun h => (List.filter_sublist.map _).subset h
  rw [Bool.eq_iff_iff]
  simp only [Bool.and_eq_true, List.contains_eq_mem, decide_eq_true_eq]
  rw [← hof]
  constructor
  · rintro ⟨hmem, -, hactive⟩
    exact ⟨hmem, hactive⟩
  · rintro ⟨hmem, hactive⟩
    exact ⟨hmem, hsub hmem, hactive⟩

/-- The counts of a row. -/
theorem counts_of_summary {row : CertificateProgress} (hrow : row ∈ w.summary userId locale) :
    row.totalLessons = (w.offeredLessons row.certId).length ∧
      row.completedLessons = (w.offeredLessons row.certId).countP
        (fun l => (w.completedIds userId).contains l.id) ∧
      row.percentComplete = LearningService.percentComplete row.completedLessons row.totalLessons := by
  unfold World.summary at hrow
  obtain ⟨cert, hcert, rfl⟩ := List.mem_map.mp hrow
  have hpurchased := of_decide_eq_true (List.mem_filter.mp hcert).2
  have hmodules : ∀ m : LearningModule, m.certId = cert.id →
      (m ∈ w.modules.rows.filter (fun m =>
        m.certId ∈ ((w.visiblePurchases (some userId)).filter (·.userId = userId)).map (·.certId) ∧
          m.active) ↔ m ∈ w.modules.rows ∧ m.active = true) := by
    rintro m hm
    rw [List.mem_filter, hm]
    simp [hpurchased]
  have hperm := perm_certLessons hmodules
  exact ⟨hperm.length_eq, List.countP_eq_length_filter.symm.trans (hperm.countP_eq _), rfl⟩

theorem certs_of_summary : certId ∈ (w.summary userId locale).map (·.certId) ↔
    (w.certificates.get certId).isSome = true ∧ Purchased w userId certId := by
  unfold World.summary
  rw [List.map_map, Option.isSome_iff_exists]
  constructor
  · intro h
    obtain ⟨cert, hcert, rfl⟩ := List.mem_map.mp h
    obtain ⟨hrow, hmem⟩ := List.mem_filter.mp hcert
    exact ⟨⟨cert, Table.mem_rows_iff.mp hrow⟩, mem_certIds.mp (of_decide_eq_true hmem)⟩
  · rintro ⟨⟨cert, hcert⟩, hpurchased⟩
    obtain ⟨hrow, rfl⟩ := Table.get_some_iff.mp hcert
    refine List.mem_map.mpr ⟨cert, List.mem_filter.mpr ⟨hrow, ?_⟩, rfl⟩
    exact decide_eq_true (mem_certIds.mpr hpurchased)

/-! ## The summary and the curricula -/

theorem summary_of_answers {r : Except Err (List CertificateProgress)}
    (h : Answers w (LearningService.getProgressSummary userId (some userId) locale) r) :
    r = .ok (w.summary userId locale) :=
  h.choose_spec.wlp_none (getProgressSummary_wlp (some_ne_none w))

theorem answers_summary (w : World) (userId : Id) (locale : Locale) :
    Answers w (LearningService.getProgressSummary userId (some userId) locale)
      (.ok (w.summary userId locale)) := by
  obtain ⟨r, hr⟩ := exists_answer w (LearningService.getProgressSummary userId (some userId) locale)
  rwa [summary_of_answers hr] at hr

theorem tree_of_answers {c : Curriculum}
    (h : Answers w (LearningService.getCurriculum userId certId (some userId) locale) (.ok c)) :
    c.modules = w.tree userId certId locale := by
  rcases h.choose_spec.wlp_none (getCurriculum_wlp (some_ne_none w)) with
    ⟨-, -, c', hok, htree⟩ | ⟨-, e, he⟩
  · cases hok
    exact htree
  · cases he

theorem exists_curriculum (hoffered : Offered w certId) (hpurchased : Purchased w userId certId) :
    ∃ c, Answers w (LearningService.getCurriculum userId certId (some userId) locale) (.ok c) := by
  obtain ⟨r, hr⟩ := exists_answer w
    (LearningService.getCurriculum userId certId (some userId) locale)
  rcases hr.choose_spec.wlp_none (getCurriculum_wlp (some_ne_none w)) with
    ⟨-, -, c, rfl, -⟩ | ⟨hnot, -⟩
  · exact ⟨c, hr⟩
  · exact absurd ⟨hoffered, hpurchased⟩ hnot

/-- In every state the summary is given, and it agrees with what the curricula list. -/
theorem getProgressSummary_agrees (w : World) (userId : Id) (locale : Locale) :
    ∃ rows, Summarises w userId rows ∧ ∀ r,
      Answers w (LearningService.getProgressSummary userId (some userId) locale) r ↔ r = .ok rows := by
  refine ⟨w.summary userId locale, ⟨?_, fun certId => certs_of_summary, ?_, ?_⟩, fun r => ?_⟩
  · unfold World.summary
    rw [List.map_map]
    exact w.certificates.nodup.sublist (List.filter_sublist.map _)
  · intro row hrow hoffered locale'
    exact exists_curriculum hoffered (certs_of_summary.mp (List.mem_map_of_mem hrow)).2
  · intro row hrow locale' c hc
    have hperm := perm_tree (tree_of_answers hc)
    obtain ⟨htotal, hcompleted, -⟩ := counts_of_summary hrow
    refine ⟨?_, ?_, ?_⟩
    · rw [(hperm.map _).nodup_iff, List.map_map]
      exact nodup_activeLessons _
    · rw [hperm.length_eq, List.length_map, htotal]
    · rw [hperm.countP_eq, List.countP_map, hcompleted]
      rfl
  · constructor
    · exact summary_of_answers
    · rintro rfl
      exact answers_summary w userId locale

end

/-! ## Percentages -/

def percentOf (x : Rat) : Int := roundHalfUp (binary64 (binary64 x * 100))

theorem percentOf_mono {x y : Rat} (h : x ≤ y) : percentOf x ≤ percentOf y := by
  have hscaled : binary64 x * 100 ≤ binary64 y * 100 :=
    mul_le_mul_of_nonneg_right (binary64_mono h) (by norm_num)
  exact roundHalfUp_mono (binary64_mono hscaled)

theorem percentOf_nonneg {x : Rat} (hx : 0 ≤ x) : 0 ≤ percentOf x := by
  have hpos := binary64_nonneg (mul_nonneg (binary64_nonneg hx) (by norm_num : (0 : Rat) ≤ 100))
  apply le_roundHalfUp.mpr
  push_cast
  linarith

theorem percentOf_one : percentOf 1 = 100 := by
  have hone : binary64 1 = 1 := by
    rw [binary64_eq 0 (2 ^ 52) (by norm_num) (by norm_num) (by norm_num) (by norm_num)
      (by norm_num)]
    norm_num
  have hhundred : binary64 (1 * 100) = (100 : Int) := by
    rw [binary64_eq 6 (100 * 2 ^ 46) (by norm_num) (by norm_num) (by norm_num) (by norm_num)
      (by norm_num)]
    norm_num
  rw [percentOf, hone, hhundred, roundHalfUp_intCast]

/-- 99.5 is reached, although 0.995 is not a number of double precision. -/
theorem hundred_le_percentOf : 100 ≤ percentOf (199 / 200) := by
  apply le_roundHalfUp.mpr
  have hratio : binary64 (199 / 200) = (8962163258467287 : Int) * 2 ^ ((-1 : Int) - 52) :=
    binary64_eq _ _ (by norm_num) (by norm_num) (by norm_num) (by norm_num) (by norm_num)
  rw [hratio, binary64_eq 6 7001690045677568 (by norm_num) (by norm_num) (by norm_num) (by norm_num)
    (by norm_num)]
  norm_num

theorem one_le_percentOf : 1 ≤ percentOf (1 / 200) := by
  apply le_roundHalfUp.mpr
  have hratio : binary64 (1 / 200) = (5764607523034235 : Int) * 2 ^ ((-8 : Int) - 52) :=
    binary64_eq _ _ (by norm_num) (by norm_num) (by norm_num) (by norm_num) (by norm_num)
  rw [hratio, binary64_eq (-1) 4503599627370496 (by norm_num) (by norm_num) (by norm_num) (by norm_num)
    (by norm_num)]
  norm_num

/-- The largest multiple of `2 ^ -40` that is less than 0.995. -/
theorem percentOf_lt_hundred : percentOf (1094014069637 / 2 ^ 40) < 100 := by
  rw [← not_le]
  intro h
  have hle := le_roundHalfUp.mp h
  have hratio : binary64 (1094014069637 / 2 ^ 40) = (8962163258466304 : Int) * 2 ^ ((-1 : Int) - 52) :=
    binary64_eq _ _ (by norm_num) (by norm_num) (by norm_num) (by norm_num) (by norm_num)
  rw [hratio, binary64_eq 6 7001690045676800 (by norm_num) (by norm_num) (by norm_num) (by norm_num)
    (by norm_num)] at hle
  norm_num at hle

/-- The largest multiple of `2 ^ -40` that is less than 0.005. -/
theorem percentOf_lt_one : percentOf (5497558138 / 2 ^ 40) < 1 := by
  rw [← not_le]
  intro h
  have hle := le_roundHalfUp.mp h
  have hratio : binary64 (5497558138 / 2 ^ 40) = (5764607522111488 : Int) * 2 ^ ((-8 : Int) - 52) :=
    binary64_eq _ _ (by norm_num) (by norm_num) (by norm_num) (by norm_num) (by norm_num)
  rw [hratio, binary64_eq (-2) 9007199253299200 (by norm_num) (by norm_num) (by norm_num) (by norm_num)
    (by norm_num)] at hle
  norm_num at hle

section

variable {completed total : Nat}

theorem percentComplete_eq (ht : 0 < total) :
    LearningService.percentComplete completed total = percentOf ((completed : Rat) / total) := by
  unfold LearningService.percentComplete
  rw [if_neg (by omega)]
  rfl

/-- The ratio is compared with a threshold, or with what is a little less than it. -/
theorem div_le_of_lt (n : Nat) {bound : Rat} (ht : 0 < total) (hmax : total < 2 ^ 32)
    (hlt : 200 * completed < n * total) (hbound : (n : Rat) / 200 - 1 / (200 * 2 ^ 32) ≤ bound) :
    (completed : Rat) / total ≤ bound := by
  have ht' : (0 : Rat) < total := by exact_mod_cast ht
  have hmax' : (total : Rat) ≤ 2 ^ 32 := by exact_mod_cast hmax.le
  have hlt' : 200 * (completed : Rat) + 1 ≤ n * total := by exact_mod_cast hlt
  apply le_trans _ hbound
  rw [div_le_iff₀ ht']
  have hscaled : (total : Rat) / (200 * 2 ^ 32) ≤ 1 / 200 := by
    rw [div_le_iff₀ (by norm_num)]
    linarith
  calc (completed : Rat) ≤ n / 200 * total - 1 / 200 := by linarith
    _ ≤ n / 200 * total - total / (200 * 2 ^ 32) := by linarith
    _ = (n / 200 - 1 / (200 * 2 ^ 32)) * total := by ring

theorem div_nonneg_nat : (0 : Rat) ≤ (completed : Rat) / total := by positivity

/-- An array has fewer than `2 ^ 32` elements. -/
theorem percentComplete_hundred_iff (ht : 0 < total) (hle : completed ≤ total)
    (hmax : total < 2 ^ 32) : LearningService.percentComplete completed total = 100 ↔
      200 * (total - completed) ≤ total := by
  have ht' : (0 : Rat) < total := by exact_mod_cast ht
  rw [percentComplete_eq ht]
  constructor
  · intro h
    by_contra hfew
    have hratio : (completed : Rat) / total ≤ 1094014069637 / 2 ^ 40 :=
      div_le_of_lt 199 ht hmax (by omega) (by norm_num)
    have hlt := percentOf_mono hratio
    have hbelow := percentOf_lt_hundred
    omega
  · intro h
    have hlow : (199 / 200 : Rat) ≤ completed / total := by
      rw [le_div_iff₀ ht']
      have h' : (199 : Rat) * total ≤ 200 * completed := by
        have hnat : 199 * total ≤ 200 * completed := by omega
        exact_mod_cast hnat
      linarith
    have hhigh : (completed : Rat) / total ≤ 1 := by
      rw [div_le_one ht']
      exact_mod_cast hle
    have h₁ := percentOf_mono hlow
    have h₂ := percentOf_mono hhigh
    have h₃ := hundred_le_percentOf
    have h₄ := percentOf_one
    omega

theorem percentComplete_zero_iff (ht : 0 < total) (hmax : total < 2 ^ 32) :
    LearningService.percentComplete completed total = 0 ↔ 200 * completed < total := by
  have ht' : (0 : Rat) < total := by exact_mod_cast ht
  rw [percentComplete_eq ht]
  constructor
  · intro h
    by_contra hmany
    have hlow : (1 / 200 : Rat) ≤ completed / total := by
      rw [le_div_iff₀ ht']
      have h' : (total : Rat) ≤ 200 * completed := by exact_mod_cast Nat.not_lt.mp hmany
      linarith
    have h₁ := percentOf_mono hlow
    have h₂ := one_le_percentOf
    omega
  · intro h
    have hratio : (completed : Rat) / total ≤ 5497558138 / 2 ^ 40 :=
      div_le_of_lt 1 ht hmax (by omega) (by norm_num)
    have h₁ := percentOf_mono hratio
    have h₂ := percentOf_lt_one
    have h₃ : 0 ≤ percentOf ((completed : Rat) / total) := percentOf_nonneg div_nonneg_nat
    omega

theorem percentComplete_mono {completed' : Nat} (h : completed ≤ completed') :
    LearningService.percentComplete completed total ≤
      LearningService.percentComplete completed' total := by
  rcases Nat.eq_zero_or_pos total with rfl | ht
  · rfl
  · rw [percentComplete_eq ht, percentComplete_eq ht]
    apply percentOf_mono
    apply div_le_div_of_nonneg_right _ (Nat.cast_nonneg total)
    exact_mod_cast h

theorem completed_le_total {w : World} {userId : Id} {locale : Locale} {row : CertificateProgress}
    (hrow : row ∈ w.summary userId locale) : row.completedLessons ≤ row.totalLessons := by
  obtain ⟨htotal, hcompleted, -⟩ := counts_of_summary hrow
  rw [htotal, hcompleted]
  exact List.countP_le_length

/-- A percentage is rounded to the nearest: 100 begins at 99.5 percent, and 1 at half a percent. -/
theorem percentComplete_iff {w : World} {userId : Id} {locale : Locale}
    {rows : List CertificateProgress} {row : CertificateProgress}
    (hrows : Answers w (LearningService.getProgressSummary userId (some userId) locale) (.ok rows))
    (hrow : row ∈ rows) (ht : 0 < row.totalLessons) (hmax : row.totalLessons < 2 ^ 32) :
    (row.percentComplete = 100 ↔
        200 * (row.totalLessons - row.completedLessons) ≤ row.totalLessons) ∧
      (row.percentComplete = 0 ↔ 200 * row.completedLessons < row.totalLessons) ∧
      ∀ (w' : World) (userId' : Id) (locale' : Locale) (rows' : List CertificateProgress),
        Answers w' (LearningService.getProgressSummary userId' (some userId') locale') (.ok rows') →
          ∀ row' ∈ rows', row'.totalLessons = row.totalLessons →
            row.completedLessons ≤ row'.completedLessons →
              row.percentComplete ≤ row'.percentComplete := by
  cases summary_of_answers hrows
  obtain ⟨-, -, hpercent⟩ := counts_of_summary hrow
  rw [hpercent]
  refine ⟨percentComplete_hundred_iff ht (completed_le_total hrow) hmax,
    percentComplete_zero_iff ht hmax, ?_⟩
  intro w' userId' locale' rows' hrows' row' hrow' htotal hle
  cases summary_of_answers hrows'
  obtain ⟨-, -, hpercent'⟩ := counts_of_summary hrow'
  rw [hpercent', htotal]
  exact percentComplete_mono hle

end

/-! ## All but one of 200 lessons -/

def nthId (k : Nat) : Id := String.ofList (List.replicate k 'x')

theorem nthId_inj {j k : Nat} (h : nthId j = nthId k) : j = k := by
  simpa [nthId] using congrArg String.length h

def longLesson (k : Nat) : Lesson := { ownerLesson with id := nthId k }

/-- The certificate has 200 lessons. The student has completed all but the last. -/
def longWorld : World where
  now := 0
  certificates := Table.empty.put scrumCertificate
  modules := Table.empty.put rolesModule
  lessons :=
    ⟨(List.range 200).map longLesson, by
      rw [List.map_map]
      exact List.nodup_range.map fun j k h => nthId_inj h⟩
  purchases := [⟨"student", "scrum"⟩]
  progress :=
    ⟨(List.range 199).map fun k => ⟨"student", nthId k, 0⟩, by
      rw [List.map_map]
      exact List.nodup_range.map fun j k h => nthId_inj (Prod.ext_iff.mp h).2⟩

theorem perm_longLessons :
    (longWorld.offeredLessons "scrum").Perm ((List.range 200).map longLesson) := by
  apply (perm_activeLessons _).trans
  apply List.Perm.of_eq
  apply List.filter_eq_self.mpr
  intro l hl
  obtain ⟨k, -, rfl⟩ := List.mem_map.mp hl
  rfl

theorem completed_iff (k : Nat) :
    (longWorld.completedIds "student").contains (longLesson k).id = decide (k < 199) := by
  rw [Bool.eq_iff_iff, List.contains_eq_mem, decide_eq_true_eq, decide_eq_true_eq]
  simp only [World.completedIds, longWorld, longLesson, List.mem_map, List.mem_filter, List.mem_range,
    decide_eq_true_eq]
  constructor
  · rintro ⟨p, ⟨⟨j, hj, rfl⟩, -⟩, hid⟩
    cases nthId_inj hid
    exact hj
  · intro hk
    exact ⟨_, ⟨⟨k, hk, rfl⟩, rfl⟩, rfl⟩

theorem exists_longRow : ∃ row ∈ longWorld.summary "student" .en,
    row.totalLessons = 200 ∧ row.completedLessons = 199 := by
  have hmem : "scrum" ∈ (longWorld.summary "student" .en).map (·.certId) :=
    certs_of_summary.mpr ⟨rfl, List.mem_singleton.mpr rfl⟩
  obtain ⟨row, hrow, hcert⟩ := List.mem_map.mp hmem
  obtain ⟨htotal, hcompleted, -⟩ := counts_of_summary hrow
  refine ⟨row, hrow, ?_, ?_⟩
  · rw [htotal, hcert, perm_longLessons.length_eq]
    simp
  · rw [hcompleted, hcert, perm_longLessons.countP_eq, List.countP_map]
    simp only [Function.comp_def, completed_iff]
    rw [List.range_succ, List.countP_append, List.countP_eq_length.mpr (by simp)]
    simp

/-- 99.5 percent are rounded up. -/
theorem percentComplete_iff_long : ∃ row ∈ longWorld.summary "student" .en,
    row.totalLessons = 200 ∧ row.completedLessons = 199 ∧ row.percentComplete = 100 ∧
      row.percentComplete ≠ 0 := by
  obtain ⟨row, hrow, htotal, hcompleted⟩ := exists_longRow
  obtain ⟨hhundred, hzero, -⟩ := percentComplete_iff (answers_summary longWorld "student" .en) hrow
    (by omega) (by omega)
  exact ⟨row, hrow, htotal, hcompleted, hhundred.mpr (by omega), fun h => by
    have hfew := hzero.mp h
    omega⟩

/-- One lesson is left, and the summary says 100 percent. -/
theorem hundred_percent_incomplete : ∃ rows, ∃ row ∈ rows,
    Answers longWorld (LearningService.getProgressSummary "student" (some "student") .en) (.ok rows) ∧
      row.totalLessons = 200 ∧ row.completedLessons = 199 ∧ row.percentComplete = 100 := by
  obtain ⟨row, hrow, htotal, hcompleted⟩ := exists_longRow
  obtain ⟨-, -, hpercent⟩ := counts_of_summary hrow
  refine ⟨_, row, hrow, answers_summary longWorld "student" .en, htotal, hcompleted, ?_⟩
  rw [hpercent]
  apply (percentComplete_hundred_iff _ _ _).mpr
  all_goals omega

end LmsBackend.Content
