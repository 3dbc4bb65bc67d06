import LmsBackend.Content.LessonAccess
import LmsBackend.Content.Writes

/-!
# One completion of a lesson

`markComplete` looks for the row of the student and the lesson, and inserts it
in another statement. The unique index refuses the second of two inserts, and
that call fails.
-/

open Async Store

namespace LmsBackend.Content

/-! ## The phases of `markComplete` -/

inductive MarkPhase where
  /-- Any other task. -/
  | other
  | start
  | lesson (lesson : Lesson)
  | learningModule (mod : LearningModule)
  | enrolled
  | looked (existing : Option StudentProgress)
  | timed (now : Time)
  | saved (row : StudentProgress)
  | refused

/-- `markComplete` for this student and lesson. -/
def Task.marks (userId lessonId : Id) : Task → Bool
  | .markComplete student id => student = userId ∧ id = lessonId
  | _ => false

section

variable (userId lessonId : Id)

def MarkPhase.next : MarkPhase → (call : Call) → Resp call → Option MarkPhase
  | .other, _, _ => some .other
  | .start, .lessonFindOne id, lesson? =>
    if id = lessonId then some ((lesson?.filter (·.active)).elim .refused .lesson) else none
  | .lesson l, .moduleFindOne id, mod? =>
    if id = l.moduleId then some (mod?.elim .refused .learningModule) else none
  | .learningModule mod, .purchaseFind rlsRunner student certId, rows =>
    if rlsRunner = some userId ∧ student = userId ∧ certId = mod.certId then
      some (if rows.isEmpty then .refused else .enrolled)
    else none
  | .enrolled, .progressFindOne student id, existing =>
    if student = userId ∧ id = lessonId then some (.looked existing) else none
  | .looked none, .now, now => some (.timed now)
  | .timed now, .progressSave row, answer =>
    if row = ⟨userId, lessonId, now⟩ then some (.saved answer) else none
  | _, _, _ => none

def marking : Monitor Call Resp Err Reply Task MarkPhase where
  start t := if t.marks userId lessonId then .start else .other
  next := MarkPhase.next userId lessonId
  failed
    | .other, _ => .other
    | _, _ => .refused
  final
    | .ok a, g => g = .other ∨
        (∃ row, g = .looked (some row) ∧ a = .completed ⟨lessonId, row.completedAt, true⟩) ∨
        ∃ row, g = .saved row ∧ a = .completed ⟨lessonId, row.completedAt, false⟩
    | .error _, g => g = .other ∨ g = .refused

variable {userId lessonId}

@[simp] theorem marking_next :
    (marking userId lessonId).next = MarkPhase.next userId lessonId := rfl

theorem other_keeps_marking (t : Task) :
    (marking userId lessonId).Keeps (contentSystem.prog t) .other := by
  have hstay := (marking userId lessonId).wp_stay (p := contentSystem.prog t) (g := .other)
    (fun _ _ => rfl) fun _ => rfl
  exact Monitor.wp_mono _ hstay (fun _ _ hg => .inl hg) fun _ _ hg => .inl hg

theorem marking_then {g : MarkPhase} {c : Call} {α : Type} {f : Resp c → Promise α}
    {Q : α → MarkPhase → Prop} (hg : g ≠ .other)
    (hf : ∀ a, ∃ g', g.next userId lessonId c a = some g' ∧
      (marking userId lessonId).wp (f a) g' Q fun _ g => g = .other ∨ g = .refused) :
    (marking userId lessonId).wp (await c >>= f) g Q fun _ g => g = .other ∨ g = .refused := by
  refine (Monitor.wp_bind _ f).mpr ((Monitor.wp_await _ c).mpr ⟨hf, fun e => .inr ?_⟩)
  cases g with
  | other => exact absurd rfl hg
  | _ => rfl

theorem markComplete_keeps : (marking userId lessonId).Keeps
    (contentSystem.prog (.markComplete userId lessonId)) .start := by
  refine (Monitor.wp_bind _ _).mpr ?_
  unfold LearningService.markComplete LearningService.assertPurchased
  refine marking_then nofun fun lesson? => ⟨_, if_pos rfl, ?_⟩
  cases lesson?.filter (·.active) with
  | none => exact .inr rfl
  | some lesson =>
    refine marking_then nofun fun mod? => ⟨_, if_pos rfl, ?_⟩
    cases mod? with
    | none => exact .inr rfl
    | some mod =>
      refine (Monitor.wp_bind _ _).mpr ?_
      refine marking_then nofun fun rows => ⟨_, if_pos ⟨rfl, rfl, rfl⟩, ?_⟩
      split
      · exact .inr rfl
      · refine marking_then nofun fun existing => ⟨_, if_pos ⟨rfl, rfl⟩, ?_⟩
        cases existing with
        | some existing => exact .inr (.inl ⟨existing, rfl, rfl⟩)
        | none =>
          refine marking_then nofun fun now => ⟨_, rfl, ?_⟩
          exact marking_then nofun fun saved => ⟨_, if_pos rfl, .inr (.inr ⟨saved, rfl, rfl⟩)⟩

theorem marking_start {t : Task} (ht : t.marks userId lessonId = true) :
    (marking userId lessonId).start t = .start :=
  if_pos ht

theorem marking_sound : (marking userId lessonId).Sound contentSystem := by
  intro t
  change (marking userId lessonId).Keeps _ (if t.marks userId lessonId then .start else .other)
  split
  · rename_i ht
    cases t with
    | markComplete student id =>
      obtain ⟨rfl, rfl⟩ := of_decide_eq_true ht
      exact markComplete_keeps
    | _ => cases ht
  · exact other_keeps_marking t

end

/-- What an answer does to a phase. -/
inductive Marks (userId lessonId : Id) :
    MarkPhase → (call : Call) → Resp call → MarkPhase → Prop where
  | other {call a} : Marks userId lessonId .other call a .other
  | start {lesson?} : Marks userId lessonId .start (.lessonFindOne lessonId) lesson?
      ((lesson?.filter (·.active)).elim .refused .lesson)
  | lesson {l mod?} : Marks userId lessonId (.lesson l) (.moduleFindOne l.moduleId) mod?
      (mod?.elim .refused .learningModule)
  | learningModule {mod rows} : Marks userId lessonId (.learningModule mod)
      (.purchaseFind (some userId) userId mod.certId) rows
      (if rows.isEmpty then .refused else .enrolled)
  | enrolled {existing} : Marks userId lessonId .enrolled (.progressFindOne userId lessonId)
      existing (.looked existing)
  | looked {now} : Marks userId lessonId (.looked none) .now now (.timed now)
  | timed {now row} : Marks userId lessonId (.timed now) (.progressSave ⟨userId, lessonId, now⟩) row
      (.saved row)

theorem marks_of_next {userId lessonId : Id} {g g' : MarkPhase} {call : Call} {a : Resp call}
    (h : g.next userId lessonId call a = some g') : Marks userId lessonId g call a g' := by
  unfold MarkPhase.next at h
  split at h
  · cases h
    exact .other
  · split at h
    · rename_i hid
      cases hid
      cases h
      exact .start
    · cases h
  · split at h
    · rename_i hid
      cases hid
      cases h
      exact .lesson
    · cases h
  · split at h
    · rename_i hpair
      obtain ⟨rfl, rfl, rfl⟩ := hpair
      cases h
      exact .learningModule
    · cases h
  · split at h
    · rename_i hpair
      obtain ⟨rfl, rfl⟩ := hpair
      cases h
      exact .enrolled
    · cases h
  · cases h
    exact .looked
  · split at h
    · rename_i hrow
      cases hrow
      cases h
      exact .timed
    · cases h
  · cases h

theorem resp_nonempty (call : Call) : Nonempty (Resp call) := by
  cases call with
  | certificateSave row => exact ⟨row⟩
  | certificateFindOneOrFail id => exact ⟨scrumCertificate⟩
  | moduleSave row => exact ⟨row⟩
  | moduleFindOneOrFail id => exact ⟨rolesModule⟩
  | lessonSave row => exact ⟨row⟩
  | lessonFindOneOrFail id => exact ⟨ownerLesson⟩
  | progressSave row => exact ⟨row⟩
  | now => exact ⟨(0 : Nat)⟩
  | _ => exact ⟨default⟩

/-! ## Calls that do not overlap -/

def Call.saves : Call → Bool
  | .progressSave _ => true
  | _ => false

/-- After the look a call reads the clock and inserts the row. -/
def Call.completes : Call → Bool
  | .now | .progressSave _ => true
  | _ => false

/-- No other process has inserted a row since the last answer of process `i`. -/
def Unsaved (c : Pool) (i : Nat) : Prop := ∀ e ∈ c.since i, e.call.saves = false

instance (c : Pool) (i : Nat) : Decidable (Unsaved c i) := inferInstanceAs (Decidable (∀ _ ∈ _, _))

/-- Calls for one student and lesson, and nothing fails. -/
def marksOnly (userId lessonId : Id) : Guard World Call Resp Err Reply Task Choice Nat
  | _, .spawn t => t.marks userId lessonId = true
  | _, .fail _ => False
  | _, _ => True

/-- A guard: no other call inserts a row between the look of a call and its own insert. -/
def inTurn (userId lessonId : Id) : Guard World Call Resp Err Reply Task Choice Nat
  | c, .run i _ => ∀ call ∈ c.next? i, call.completes = true → Unsaved c i
  | c, l => marksOnly userId lessonId c l

section

variable (userId lessonId : Id)

/-- The student has purchased the certificate of the lesson, which is active. -/
def Enrolled (w : World) : Prop :=
  ∃ lesson, w.lessons.get lessonId = some lesson ∧ Open w userId lesson

/-- Enrolled, and the lesson is not completed. -/
def Fresh (w : World) : Prop :=
  Enrolled userId lessonId w ∧ w.progress.get (userId, lessonId) = none

/-- No call has failed, all say when the lesson was completed, and one says that it did it. -/
structure Once (c : Pool) : Prop where
  noError : ∀ i, c.error? i = none
  replied : ∀ i a, c.reply? i = some a → ∃ row, c.world.progress.get (userId, lessonId) = some row ∧
    ∃ alreadyCompleted, a = .completed ⟨lessonId, row.completedAt, alreadyCompleted⟩
  first : ∀ row, c.world.progress.get (userId, lessonId) = some row →
    ∃ i, ∀ j, c.reply? j = some (.completed ⟨lessonId, row.completedAt, false⟩) ↔ j = i

/-! ## The invariant -/

/-- What is known of process `i` in its phase. -/
def MarkPhase.Knows (c : Pool) (i : Nat) : MarkPhase → Prop
  | start | enrolled => True
  | lesson l => c.world.lessons.get lessonId = some l ∧ Open c.world userId l
  | learningModule mod => Purchased c.world userId mod.certId
  | looked none | timed _ => Unsaved c i → c.world.progress.get (userId, lessonId) = none
  | looked (some row) | saved row => c.world.progress.get (userId, lessonId) = some row
  | refused | other => False

structure MarksOk (c : Pool) : Prop where
  enrolled : Enrolled userId lessonId c.world
  knows : ∀ i g, (marking userId lessonId).phase c i = some g → g.Knows userId lessonId c i
  saver : ∀ row, c.world.progress.get (userId, lessonId) = some row →
    ∃ i, ∀ j, (marking userId lessonId).phase c j = some (.saved row) ↔ j = i

variable {userId lessonId} {c c' : Pool} {i : Nat} {call : Call} {r : Except Err (Resp call)}
  {g g' : MarkPhase} {w w' : World}

/-- A step that leaves the tables as they are. -/
theorem MarksOk.quiet (hc : MarksOk userId lessonId c)
    (hm : Moved (marking userId lessonId) contentSystem c c' i call r g g')
    (hworld : c'.world = c.world)
    (hg : ∀ row, g ≠ .saved row) (hg' : ∀ row, g' ≠ .saved row)
    (hknows : g'.Knows userId lessonId c' i) : MarksOk userId lessonId c' := by
  refine ⟨hworld ▸ hc.enrolled, fun j gj hj => ?_, fun row hrow => ?_⟩
  · rcases hm.phase_cases hj with ⟨rfl, rfl⟩ | ⟨hne, hj⟩
    · exact hknows
    · have hold := hc.knows j gj hj
      have hunsaved : Unsaved c' j → Unsaved c j := by
        intro h e he
        apply h e
        rw [Config.since_other hm.log hne.symm]
        exact List.mem_cons_of_mem _ he
      unfold MarkPhase.Knows at hold ⊢
      rw [hworld]
      split at hold
      all_goals first
        | exact hold
        | exact fun h => hold (hunsaved h)
  · obtain ⟨n, hn⟩ := hc.saver row (hworld ▸ hrow)
    refine ⟨n, fun j => ?_⟩
    rw [← hn j]
    by_cases hj : j = i
    · subst hj
      rw [hm.after, hm.before]
      simp [hg, hg']
    · rw [hm.other j hj]

/-- The insert of a row that is not there. -/
theorem MarksOk.insert (hc : MarksOk userId lessonId c) {now : Time}
    (hm : Moved (marking userId lessonId) contentSystem c c' i
      (.progressSave ⟨userId, lessonId, now⟩) (.ok ⟨userId, lessonId, now⟩) (.timed now)
      (.saved ⟨userId, lessonId, now⟩))
    (hnone : c.world.progress.get (userId, lessonId) = none)
    (hworld : c'.world =
      { c.world with progress := c.world.progress.put ⟨userId, lessonId, now⟩ }) :
    MarksOk userId lessonId c' := by
  have hget : c'.world.progress.get (userId, lessonId) = some ⟨userId, lessonId, now⟩ := by
    rw [hworld]
    exact Table.get_put_of_eq _ rfl
  refine ⟨?_, fun j gj hj => ?_, fun row hrow => ?_⟩
  · rw [hworld]
    exact hc.enrolled
  · rcases hm.phase_cases hj with ⟨rfl, rfl⟩ | ⟨hne, hj⟩
    · exact hget
    · have hold := hc.knows j gj hj
      have hstale : ¬Unsaved c' j := by
        intro h
        have hsince := Config.since_other hm.log hne.symm
        have hlast := h ⟨i, .progressSave ⟨userId, lessonId, now⟩, .ok ⟨userId, lessonId, now⟩,
          c.world, c'.world⟩ (hsince ▸ List.mem_cons_self)
        cases hlast
      unfold MarkPhase.Knows at hold ⊢
      split at hold
      · trivial
      · trivial
      · rw [hworld]
        exact hold
      · rw [hworld]
        exact hold
      · exact fun h => absurd h hstale
      · exact fun h => absurd h hstale
      · cases hnone.symm.trans hold
      · cases hnone.symm.trans hold
      · exact hold
      · exact hold
  · cases hget.symm.trans hrow
    refine ⟨i, fun j => ?_⟩
    constructor
    · intro hj
      rcases hm.phase_cases hj with ⟨rfl, -⟩ | ⟨-, hj⟩
      · rfl
      · cases hnone.symm.trans (hc.knows j _ hj)
    · rintro rfl
      exact hm.after

theorem MarksOk.move (hc : MarksOk userId lessonId c)
    (hP : Reach.Allowed contentSystem (inTurn userId lessonId) c i call r c'.world)
    (hm : Moved (marking userId lessonId) contentSystem c c' i call r g g') :
    MarksOk userId lessonId c' := by
  obtain ⟨x, hx, hguard⟩ : ∃ x, contentSystem.exec i call x c.world = some (c'.world, r) ∧
      inTurn userId lessonId c (.run i x) := by
    cases hP with
    | run hx hP => exact ⟨_, hx, hP⟩
    | fail hr hx hP => exact hP.elim
  have hknown := hc.knows i g hm.before
  have hturn : call.completes = true → Unsaved c i := hguard call hm.waits
  obtain ⟨a⟩ := resp_nonempty call
  obtain ⟨g₀, hg₀⟩ := hm.allowed a
  have hmarks := marks_of_next hg₀
  have hnext := hm.next
  obtain ⟨lesson, hlesson, hopen⟩ := id hc.enrolled
  cases hmarks with
  | other => exact hknown.elim
  | start =>
    obtain ⟨hworld, rfl⟩ := Prod.mk.inj (Option.some.inj hx)
    obtain rfl := Option.some.inj ((if_pos rfl).symm.trans hnext)
    have hphase : ((c.world.lessons.get lessonId).filter (·.active)).elim .refused
        MarkPhase.lesson = .lesson lesson := by
      rw [hlesson, Option.filter_some_pos hopen.1]
      rfl
    rw [hphase] at hm
    refine hc.quiet hm hworld.symm nofun nofun ?_
    rw [MarkPhase.Knows, ← hworld]
    exact ⟨hlesson, hopen⟩
  | @lesson l mod? =>
    obtain ⟨hworld, rfl⟩ := Prod.mk.inj (Option.some.inj hx)
    obtain rfl := Option.some.inj ((if_pos rfl).symm.trans hnext)
    obtain ⟨-, -, mod, hmod, hpurchased⟩ := hknown
    have hphase : (c.world.modules.get l.moduleId).elim .refused MarkPhase.learningModule =
        .learningModule mod := by
      rw [hmod]
      rfl
    rw [hphase] at hm
    refine hc.quiet hm hworld.symm nofun nofun ?_
    rw [MarkPhase.Knows, ← hworld]
    exact hpurchased
  | @learningModule mod rows =>
    obtain ⟨hworld, rfl⟩ := Prod.mk.inj (Option.some.inj hx)
    obtain rfl := Option.some.inj ((if_pos ⟨rfl, rfl, rfl⟩).symm.trans hnext)
    rw [if_neg fun hempty => purchases_isEmpty.mp hempty hknown] at hm
    exact hc.quiet hm hworld.symm nofun nofun trivial
  | enrolled =>
    obtain ⟨hworld, rfl⟩ := Prod.mk.inj (Option.some.inj hx)
    obtain rfl := Option.some.inj ((if_pos ⟨rfl, rfl⟩).symm.trans hnext)
    refine hc.quiet hm hworld.symm nofun nofun ?_
    unfold MarkPhase.Knows
    rw [← hworld]
    cases hrow : c.world.progress.get (userId, lessonId) with
    | none => exact fun _ => rfl
    | some row => exact rfl
  | looked =>
    obtain ⟨hworld, rfl⟩ := Prod.mk.inj (Option.some.inj hx)
    cases hnext
    exact hc.quiet hm hworld.symm nofun nofun fun _ => hworld ▸ hknown (hturn rfl)
  | @timed now row =>
    have hnone := hknown (hturn rfl)
    simp only [contentSystem, exec, hnone, Option.isSome_none, Bool.false_eq_true, if_false,
      Option.some.injEq, Prod.mk.injEq] at hx
    obtain ⟨hworld, rfl⟩ := hx
    obtain rfl := Option.some.inj ((if_pos rfl).symm.trans hnext)
    exact hc.insert hm hnone hworld.symm

theorem MarksOk.start (hc : MarksOk userId lessonId c) (hlog : c.LogOk) {ts : List Task}
    (hts : ∀ t ∈ ts, t.marks userId lessonId = true) (now : Time) :
    MarksOk userId lessonId (c.start contentSystem ts { c.world with now := now }) := by
  refine ⟨hc.enrolled, fun j gj hj => ?_, fun row hrow => ?_⟩
  · rcases Monitor.phase_start_cases hlog hj with hj | ⟨-, t, ht, rfl⟩
    · have hold := hc.knows j gj hj
      unfold MarkPhase.Knows at hold ⊢
      split at hold
      all_goals exact hold
    · rw [marking_start (hts t ht)]
      trivial
  · obtain ⟨n, hn⟩ := hc.saver row hrow
    refine ⟨n, fun j => ⟨fun hj => ?_, ?_⟩⟩
    · rcases Monitor.phase_start_cases hlog hj with hj | ⟨-, t, ht, hstart⟩
      · exact (hn j).mp hj
      · rw [marking_start (hts t ht)] at hstart
        cases hstart
    · rintro rfl
      have hold := (hn j).mpr rfl
      rw [Monitor.phase_start_of_lt (Monitor.lt_of_phase hold)]
      exact hold

theorem marksOk_once (hc : MarksOk userId lessonId c)
    (hM : (marking userId lessonId).Conforms c) : Once userId lessonId c := by
  refine ⟨fun i => ?_, fun i a ha => ?_, fun row hrow => ?_⟩
  · cases herror : c.error? i with
    | none => rfl
    | some e =>
      obtain ⟨g, hg, rfl | rfl⟩ := hM.ended herror
      · exact (hc.knows i _ hg).elim
      · exact (hc.knows i _ hg).elim
  · obtain ⟨g, hg, rfl | ⟨row, rfl, rfl⟩ | ⟨row, rfl, rfl⟩⟩ := hM.replied ha
    · exact (hc.knows i _ hg).elim
    · exact ⟨row, hc.knows i _ hg, true, rfl⟩
    · exact ⟨row, hc.knows i _ hg, false, rfl⟩
  · obtain ⟨n, hn⟩ := hc.saver row hrow
    refine ⟨n, fun j => ⟨fun hj => ?_, ?_⟩⟩
    · obtain ⟨g, hg, rfl | ⟨row', rfl, hreply⟩ | ⟨row', rfl, -⟩⟩ := hM.replied hj
      · exact (hc.knows j _ hg).elim
      · simp at hreply
      · obtain rfl : row = row' := Option.some.inj (hrow.symm.trans (hc.knows j _ hg))
        exact (hn j).mp hg
    · rintro rfl
      have hcall : ∀ call, ∃ a, (marking userId lessonId).next (.saved row) call a = none := by
        intro call
        obtain ⟨a⟩ := resp_nonempty call
        refine ⟨a, ?_⟩
        rw [marking_next]
        cases hnext : MarkPhase.next userId lessonId (.saved row) call a with
        | none => rfl
        | some g' => cases marks_of_next hnext
      have herror : ∀ e, ¬(marking userId lessonId).final (.error e) (.saved row) := by
        rintro e (he | he)
        · cases he
        · cases he
      obtain ⟨a, ha, hfinal⟩ := hM.replies ((hn j).mpr rfl) hcall herror
      rcases hfinal with hfinal | ⟨row', hfinal, -⟩ | ⟨row', hfinal, rfl⟩
      · cases hfinal
      · cases hfinal
      · cases hfinal
        exact ha

/-- In every run in which no insert comes between the look and the insert of another call, the
lesson is completed once. -/
theorem completed_once
    (h : Reach contentSystem (Fresh userId lessonId) (inTurn userId lessonId) c) :
    Once userId lessonId c := by
  have hsound : (marking userId lessonId).Sound contentSystem := marking_sound
  refine marksOk_once (h.invariant (I := MarksOk userId lessonId) hsound ?_ ?_ ?_ ?_)
    (h.conforms hsound)
  · rintro w ⟨henrolled, hnone⟩
    refine ⟨henrolled, fun i g hg => ?_, fun row hrow => ?_⟩
    · rw [Monitor.phase_none (Nat.zero_le i)] at hg
      cases hg
    · cases hnone.symm.trans hrow
  · intro c t hr hc hP _
    refine hc.start (hr.logOk hsound) (fun t' ht' => ?_) _
    rw [List.mem_singleton.mp ht']
    exact hP
  · intro c v w ts hr hc _ hx
    cases hx
    exact hc.start (hr.logOk hsound) (fun t ht => absurd ht List.not_mem_nil) _
  · intro c c' i call r g g' _ hc hP hm
    exact hc.move hP hm

end

/-! ## Two calls -/

theorem openWorld_fresh : Fresh "student" "owner" openWorld := by
  refine ⟨⟨ownerLesson, rfl, rfl, rolesModule, rfl, ?_⟩, rfl⟩
  exact List.mem_singleton.mpr rfl

/-- Each call looks for the row; the second looks when the first has inserted it. -/
def oneAfterAnother : List PoolLabel :=
  [.spawn (.markComplete "student" "owner"), .spawn (.markComplete "student" "owner"),
    .run 0 "", .run 0 "", .run 0 "", .run 0 "", .run 0 "", .run 0 "",
    .run 1 "", .run 1 "", .run 1 "", .run 1 ""]

instance (userId lessonId : Id) : ∀ c l, Decidable (inTurn userId lessonId c l)
  | c, .run i _ =>
    inferInstanceAs (Decidable (∀ call ∈ c.next? i, call.completes = true → Unsaved c i))
  | _, .spawn t => inferInstanceAs (Decidable (t.marks userId lessonId = true))
  | _, .fail _ => .isFalse id
  | _, .env _ => .isTrue trivial

instance (userId lessonId : Id) : ∀ c l, Decidable (marksOnly userId lessonId c l)
  | _, .spawn t => inferInstanceAs (Decidable (t.marks userId lessonId = true))
  | _, .fail _ => .isFalse id
  | _, .run _ _ => .isTrue trivial
  | _, .env _ => .isTrue trivial

theorem completed_once_two : ∃ c : Pool,
    Reach contentSystem (Fresh "student" "owner") (inTurn "student" "owner") c ∧
      c.reply? 0 = some (.completed ⟨"owner", 0, false⟩) ∧
      c.reply? 1 = some (.completed ⟨"owner", 0, true⟩) ∧ Once "student" "owner" c := by
  have hrun : ∃ c, runIf contentSystem (inTurn "student" "owner") oneAfterAnother
      (.initial openWorld) = some c ∧ c.reply? 0 = some (.completed ⟨"owner", 0, false⟩) ∧
      c.reply? 1 = some (.completed ⟨"owner", 0, true⟩) := ⟨_, rfl, rfl, rfl⟩
  obtain ⟨c, hrun, hfirst, hsecond⟩ := hrun
  have hreach : Reach contentSystem (Fresh "student" "owner") (inTurn "student" "owner") c :=
    runIf_reach (.init openWorld_fresh) hrun
  exact ⟨c, hreach, hfirst, hsecond, completed_once hreach⟩

/-- Both calls look before either inserts. -/
def bothLook : List PoolLabel :=
  [.spawn (.markComplete "student" "owner"), .spawn (.markComplete "student" "owner"),
    .run 0 "", .run 0 "", .run 0 "", .run 0 "", .run 1 "", .run 1 "", .run 1 "", .run 1 "",
    .run 0 "", .run 0 "", .run 1 "", .run 1 ""]

/-- The database refuses the second row, and the call ends with its error. -/
theorem completion_refused : ∃ c : Pool,
    Reach contentSystem (Fresh "student" "owner") (marksOnly "student" "owner") c ∧
      c.error? 1 = some (.infra "duplicate key value") := by
  have hrun : ∃ c, runIf contentSystem (marksOnly "student" "owner") bothLook
      (.initial openWorld) = some c ∧ c.error? 1 = some (.infra "duplicate key value") :=
    ⟨_, rfl, rfl⟩
  obtain ⟨c, hrun, herror⟩ := hrun
  exact ⟨c, runIf_reach (.init openWorld_fresh) hrun, herror⟩

end LmsBackend.Content
