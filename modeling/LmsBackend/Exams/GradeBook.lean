import LmsBackend.Exams.Students

/-!
# The grade book

An attempt is what `scoreAndPersist` makes of a session and of the answers that it stores, by the
exams of the database. Nothing changes it or takes it away.
-/

open Async Store

namespace LmsBackend.Exams

open ExamService Contract

/-- What the submission is worth by the exams. -/
def Submission.graded (d : Submission) (exams : List Exam) (submittedAt : Time) : ExamAttempt :=
  attemptOf d.session d.answers d.status d.lateFlag
    (scoreOf (exams.find? (·.id = d.session.examId)) d.answers) submittedAt

/-- The submission that the row is of. -/
def AttemptRow.submission (a : AttemptRow) : Submission :=
  ⟨a.session, a.attempt.answers, a.attempt.status, a.attempt.lateFlag⟩

/-! ## Only grades are stored -/

/-- Programs store what a submission is worth, as long as they are given the exams. -/
def grading (exams : List Exam) : Contract Call Resp where
  may
    | .txSaveExamAttempt session attempt =>
      ∃ (d : Submission) (submittedAt : Time), d.session = session ∧
        attempt = d.graded exams submittedAt
    | _ => True
  gets
    | .examFindWithQuestions id byPosition, exam? =>
      byPosition = false → exam? = exams.find? (·.id = id)
    | _, _ => True

theorem prog_grades (exams : List Exam) (t : Task) :
    (grading exams).Meets t.prog fun _ => True := by
  refine Lets.prog ⟨fun c _ hc => ?_, fun _ c hc => ?_, ?_⟩
  · cases c <;> trivial
  · cases c <;> trivial
  · intro session answers status lateFlag exam? now hexam _
    rw [hexam rfl]
    exact ⟨⟨session, answers, status, lateFlag⟩, now, rfl, rfl⟩

section

variable [Bcrypt] {i : Nat} {w w' : World} {call : Call}

omit [Bcrypt] in
theorem World.commit_exams (t : OpenTxn) : (w.commit t).exams = w.exams := by
  unfold World.commit World.closeTxn
  refine List.foldlRecOn t.writes World.apply (motive := fun w' : World => w'.exams = w.exams) rfl ?_
  intro w' hw' wr _
  cases wr <;> exact hw'

/-- No call writes an exam. -/
theorem exec_exams {x : Choice} {r : Except Err (Resp call)} (h : exec i call x w = some (w', r)) :
    w'.exams = w.exams := by
  by_cases hreads : call.reads = true
  · rw [exec_reads hreads h]
  cases call with
  | commitTransaction =>
    rcases inTxn_some h with ⟨e, he⟩ | ⟨t, ht, h⟩
    · cases he; rfl
    · cases h
      exact World.commit_exams t
  | setCurrentUser | txUpdateAccessCode | txSaveTestSession | txDeleteTestSession
  | txUpdateTestSession | txSaveExamAttempt =>
    rcases inTxn_some h with ⟨e, he⟩ | ⟨t, ht, h⟩
    · cases he; rfl
    · repeat' split at h
      all_goals first | (cases h; rfl) | cases h
  | _ =>
    simp only [exec] at h
    repeat' split at h
    all_goals first | (cases h; rfl) | cases h | exact absurd rfl hreads

omit [Bcrypt] in
theorem envStep_exams {v : EnvEvent} {ts : List Task} (h : envStep v w = some (w', ts)) :
    w'.exams = w.exams := by
  cases v with
  | tick ms => cases h; rfl
  | _ =>
    simp only [envStep] at h
    split at h <;> cases h
    rfl

theorem grading_upholds (exams : List Exam) :
    (grading exams).Upholds examSystem fun w => w.exams = exams where
  exec i c x w w' r hw _ hx := by
    refine ⟨(exec_exams hx).trans hw, fun a ha => ?_⟩
    subst ha
    cases c with
    | examFindWithQuestions id byPosition =>
      rintro rfl
      cases hx
      simp [World.examWithQuestions, hw]
    | _ => exact trivial
  reject i c w w' e hw _ hx := by
    rcases error_world (.reject hx) with ⟨rfl, -⟩ | rfl
    · exact hw
    · exact hw
  env v w w' ts hw hv := by
    exact ⟨(envStep_exams hv).trans hw, fun t _ => prog_grades exams t⟩

end

/-! ## The rows -/

/-- The row is the grade of a submission that the task of its process has made, of a session of the
student. -/
structure AttemptRow.Graded (a : AttemptRow) (c : Pool) : Prop where
  attempt : ∃ submittedAt, a.attempt = a.submission.graded c.world.exams submittedAt
  score : 0 ≤ a.attempt.score ∧ a.attempt.score ≤ 100
  session : Known a.session c.world.tables
  task : ∃ t, c.task? a.proc = some t ∧ a.submission.of t ∧
    ∀ userId, t.student? = some userId → userId = a.session.userId

/-- The rows are grades, and so is the one that a transaction is about to commit. -/
structure GradeBook (c : Pool) : Prop where
  rows : ∀ a ∈ c.world.attempts, a.Graded c
  stored : ∀ i d attempt, monitor.phase c i = some (.stored d attempt) →
    (∃ submittedAt, attempt = d.graded c.world.exams submittedAt) ∧
      0 ≤ attempt.score ∧ attempt.score ≤ 100

section

variable [Bcrypt] {P : Guard World Call Resp Err Reply Task Choice EnvEvent} {c c' : Pool}
  {i : Nat} {call : Call} {r : Except Err (Resp call)} {g g' : Phase}

/-- What a process of a run stores is a grade. -/
theorem Reachable.stores (h : Reachable P c) {session : TestSession} {attempt : ExamAttempt}
    (hcall : c.next? i = some (.txSaveExamAttempt session attempt)) :
    ∃ (d : Submission) (submittedAt : Time), d.session = session ∧
      attempt = d.graded c.world.exams submittedAt := by
  obtain ⟨w, -, hw⟩ := Reach.exists_init h
  have hkept := (grading_upholds w.exams).reach (by rintro _ rfl; rfl)
    (fun _ t _ => prog_grades w.exams t) hw
  have hexams : c.world.exams = w.exams := hkept.world
  rw [hexams]
  exact hkept.may hcall

/-- Only a transaction that lets the row in gets to store it. -/
theorem saved_admitted {w w' : World} {session : TestSession} {attempt : ExamAttempt}
    (h : Answered examSystem i (.txSaveExamAttempt session attempt) w (.ok ()) w') :
    0 ≤ attempt.score ∧ attempt.score ≤ 100 := by
  obtain ⟨hx⟩ := h
  obtain ⟨t, -, hx⟩ := inTxn_ok hx
  split at hx
  · rename_i hadmits
    simp only [OpenTxn.admits, decide_eq_true_eq] at hadmits
    exact hadmits.2
  · cases hx

omit [Bcrypt] in
/-- A row is stored by the one call for it, with the columns of the submission. -/
theorem stored_next {a : Resp call} {d : Submission} {attempt : ExamAttempt}
    (hn : g.nextOk call a = some (.stored d attempt)) :
    call = .txSaveExamAttempt d.session attempt ∧ ∃ submittedAt, d.makes submittedAt attempt := by
  cases call with
  | txSaveExamAttempt session attempt' =>
    cases g with
    | moved d' submittedAt =>
      simp only [Phase.nextOk] at hn
      split at hn
      · rename_i h
        cases hn
        exact ⟨by rw [h.1], submittedAt, h.2⟩
      · cases hn
    | _ => cases hn
  | _ =>
    simp only [Phase.nextOk, Phase.read] at hn
    repeat' split at hn
    all_goals
      cases hn
      try cases ‹Phase.allows _ _ = true›

theorem answered_exams {w w' : World} (h : Answered examSystem i call w r w') :
    w'.exams = w.exams := by
  cases h with
  | exec hx => exact exec_exams hx
  | reject hx =>
    rcases error_world (.reject hx) with ⟨rfl, -⟩ | rfl
    · rfl
    · rfl

omit [Bcrypt] in
theorem AttemptRow.Graded.mono {a : AttemptRow} (h : a.Graded c)
    (hexams : c'.world.exams = c.world.exams)
    (hknown : Known a.session c.world.tables → Known a.session c'.world.tables)
    (htask : ∀ j t, c.task? j = some t → c'.task? j = some t) : a.Graded c' := by
  obtain ⟨t, ht, htask'⟩ := h.task
  exact ⟨hexams ▸ h.attempt, h.score, hknown h.session, t, htask _ _ ht, htask'⟩

theorem GradeBook.start (h : GradeBook c) (hlog : c.LogOk) {ts : List Task} {w : World}
    (hw : w.tables = c.world.tables) (hexams : w.exams = c.world.exams) :
    GradeBook (c.start examSystem ts w) := by
  have hattempts : w.attempts = c.world.attempts := congrArg Tables.attempts hw
  refine ⟨fun a ha => ?_, fun i d attempt hg => ?_⟩
  · rw [Config.start_world, hattempts] at ha
    refine (h.rows a ha).mono hexams (fun hk => ?_) fun j t ht => ?_
    · rw [Config.start_world, hw]
      exact hk
    · exact c.task?_start examSystem ht
  · rcases Monitor.phase_start_cases hlog hg with hg | ⟨-, t, -, hstart⟩
    · rw [Config.start_world, hexams]
      exact h.stored i d attempt hg
    · have hnone := Phase.start_submission t
      rw [← show monitor.start t = Phase.start t from rfl, ← hstart] at hnone
      cases hnone

theorem GradeBook.move (h : GradeBook c) (hr : Reachable P c)
    (hm : Moved monitor examSystem c c' i call r g g') : GradeBook c' := by
  have hb := Reachable.base hr
  have hdb := hb.db hm
  have hexams : c'.world.exams = c.world.exams := answered_exams hm.answers
  have hold : ∀ a : AttemptRow, a.Graded c → a.Graded c' := fun a ha =>
    ha.mono hexams hdb.known fun j t ht => by rwa [hm.task]
  refine ⟨fun a ha => ?_, fun j d attempt hg => ?_⟩
  · rcases hdb.attempts_cases with hsame | ⟨d, attempt, row, rfl, rfl, -, -, -, -, hnew, -⟩
    · exact hold a (h.rows a (hsame ▸ ha))
    · rw [hnew] at ha
      rcases List.mem_append.mp ha with ha | ha
      · exact hold a (h.rows a ha)
      · -- The commit of a grade, by the task that has it in hand.
        obtain rfl := List.mem_singleton.mp ha
        obtain ⟨⟨submittedAt, rfl⟩, hscore⟩ := h.stored i d attempt hm.before
        obtain ⟨t, ht⟩ := Monitor.task_of_phase hm.before
        refine ⟨⟨submittedAt, by rw [hexams]; rfl⟩, hscore, ?_, t, ?_, ?_, ?_⟩
        · exact hdb.known (hb.holds i _ hm.before).2.2
        · rw [hm.task]
          exact ht
        · exact Reachable.origin hr i t _ ht hm.before
        · intro userId hu
          exact (Reachable.student hr.any i t _ userId _ ht hm.before hu rfl).symm
  · rw [hexams]
    rcases hm.phase_cases hg with ⟨rfl, rfl⟩ | ⟨-, hg⟩
    · have hn := hm.next
      cases r with
      | error e =>
        have hfailed := Phase.submission_failed g call
        rw [show g.failed call = .stored d attempt from Option.some.inj hn] at hfailed
        cases hfailed
      | ok a =>
        obtain ⟨rfl, submittedAt, hmakes⟩ := stored_next hn
        refine ⟨?_, saved_admitted hm.answers⟩
        obtain ⟨d', submittedAt', hsession, rfl⟩ := Reachable.stores hr hm.waits
        obtain ⟨session, answers, status, lateFlag⟩ := d
        obtain ⟨session', answers', status', lateFlag'⟩ := d'
        obtain ⟨-, -, -, rfl, -, -, rfl, rfl⟩ := hmakes
        cases hsession
        exact ⟨submittedAt', rfl⟩
    · exact h.stored j d attempt hg

theorem Reachable.gradeBook (h : Reachable P c) : GradeBook c := by
  refine Reach.invariant monitor_sound ?_ ?_ ?_ ?_ h
  · intro w hw
    refine ⟨fun a ha => ?_, fun i d attempt hg => ?_⟩
    · rw [show (Config.initial w : Pool).world = w from rfl, hw.attempts] at ha
      cases ha
    · rw [Monitor.phase_none (Nat.zero_le _)] at hg
      cases hg
  · intro c t hr hc _ _
    exact hc.start (hr.logOk monitor_sound) rfl rfl
  · intro c v w ts hr hc _ hv
    exact hc.start (hr.logOk monitor_sound) (envStep_db hv).1 (envStep_exams hv)
  · intro c c' i call r g g' hr hc _ hm
    exact hc.move hr hm

/-- A step leaves the exams, and at most adds to the attempts. -/
theorem attempts_step (h : Reachable P c) {l : PoolLabel} (hl : Step examSystem c l c') :
    c'.world.exams = c.world.exams ∧ c.world.attempts <+: c'.world.attempts := by
  refine h.any.after_step monitor_sound (Q := anyStep) trivial hl
    (I := fun c' => c'.world.exams = c.world.exams ∧ c.world.attempts <+: c'.world.attempts) ?_ ?_ ?_
  · intro t _ _
    exact ⟨rfl, List.prefix_refl _⟩
  · intro v w ts _ hv
    have hattempts : w.attempts = c.world.attempts := congrArg Tables.attempts (envStep_db hv).1
    exact ⟨envStep_exams hv, hattempts ▸ List.prefix_refl _⟩
  · intro c' i call r g g' _ hm
    refine ⟨answered_exams hm.answers, ?_⟩
    rcases ((Reachable.base h).db hm).attempts_cases with hsame | ⟨_, _, _, -, -, -, -, -, -, hnew, -⟩
    · exact hsame ▸ List.prefix_refl _
    · exact hnew ▸ List.prefix_append _ _

/-- In every run, whatever interleaves and fails, the attempts only grow, and each of them is the
grade of what its task has submitted. -/
theorem grade_book (h : Reachable anyStep c) (hs : Steps examSystem anyStep c c') :
    c'.world.exams = c.world.exams ∧ c.world.attempts <+: c'.world.attempts ∧
      ∀ a ∈ c'.world.attempts, a.Graded c' := by
  have hgrows : Reachable anyStep c' ∧ c'.world.exams = c.world.exams ∧
      c.world.attempts <+: c'.world.attempts := by
    induction hs with
    | refl => exact ⟨h, rfl, List.prefix_refl _⟩
    | tail _ hl ih =>
      obtain ⟨l, -, hstep⟩ := hl
      obtain ⟨hexams, hprefix⟩ := attempts_step ih.1 hstep
      exact ⟨.step ih.1 trivial hstep, hexams.trans ih.2.1, ih.2.2.trans hprefix⟩
  exact ⟨hgrows.2.1, hgrows.2.2, (Reachable.gradeBook hgrows.1).rows⟩

end

set_option maxRecDepth 100000 in
/-- A session that is submitted twice, by a submit in time and a late one. -/
theorem grade_book_twice : ∃ c c', @Reachable plainBcrypt anyStep c ∧
    Steps (@examSystem plainBcrypt) anyStep c c' ∧ c.world.attempts.length = 1 ∧
    c'.world.attempts.length = 2 ∧ c.world.attempts <+: c'.world.attempts ∧
    ∀ a ∈ c'.world.attempts, a.Graded c' := by
  obtain ⟨c, c', hr, hs, hlength, hlength'⟩ := exists_runs (Q := anyStep)
    (p := fun c c' => c.world.attempts.length = 1 ∧ c'.world.attempts.length = 2)
    (submitsTwice.take 27) (submitsTwice.drop 27) (by decide)
  obtain ⟨-, hprefix, hgraded⟩ := @grade_book plainBcrypt c c' hr hs
  exact ⟨c, c', hr, hs, hlength, hlength', hprefix, hgraded⟩

end LmsBackend.Exams
