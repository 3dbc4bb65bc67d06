import LmsBackend.Exams.KeySteps

/-!
# Where a phase comes from

Each phase belongs to the tasks that can reach it, and the phases between two
writes of one function wait for the second of them.
-/

open Async Store

namespace LmsBackend.Exams

/-- The submissions that the task can make. -/
def Submission.of (t : Task) (d : Submission) : Prop :=
  (d.status = .submitted ∧ d.lateFlag = false ∧
    ∃ userId, t = .submitExam d.session.id userId d.answers) ∨
  (d.status = .submitted ∧ d.lateFlag = true ∧
    ∃ userId answers, t = .lateSubmitExam d.session.id userId answers) ∨
  d.status = .autoSubmitted ∧ d.lateFlag = false ∧ t = .handleExpiry .grace d.session.id

namespace Phase

/-- The phase is one of the task. -/
def of (t : Task) : Phase → Prop
  | .looking _ _ | .candidates _ _ _ _ | .guarded _ _ _ | .consuming _ _ _ | .consumed _ _ _ _
  | .inserted _ _ | .created _ _ => ∃ userId code examId, t = .startExam userId code examId
  | .saveGuard sessionId userId answers => t = .autosave sessionId userId answers
  | .saveGet sessionId _ answers | .saveSet sessionId _ answers _ | .saveMirror sessionId _ answers =>
    ∃ userId, t = .autosave sessionId userId answers
  | .submitGuard sessionId userId answers => t = .submitExam sessionId userId answers
  | .lateGuard sessionId userId answers => t = .lateSubmitExam sessionId userId answers
  | .lateGate sessionId _ answers => ∃ userId, t = .lateSubmitExam sessionId userId answers
  | .autoGuard sessionId => t = .handleExpiry .grace sessionId
  | .expiryGuard sessionId | .expiryMark sessionId _ | .expiryGrace sessionId _ =>
    t = .handleExpiry .session sessionId
  | .scoring d | .begun d | .moved d _ | .stored d _ | .closed d => d.of t
  | _ => True

variable {t : Task} {g g' : Phase} {c : Call}

theorem start_of (t : Task) : (start t).of t := by
  cases t with
  | handleExpiry type => cases type <;> rfl
  | startExam => exact ⟨_, _, _, rfl⟩
  | autosave | submitExam | lateSubmitExam => rfl
  | _ => exact trivial

theorem of_submission {d : Submission} (hd : g.submission = some d) : g.of t ↔ d.of t := by
  cases g <;> cases hd <;> rfl

theorem failed_of : (g.failed c).of t := by
  unfold failed
  split
  · exact trivial
  · exact trivial
  · exact trivial
  · split <;> exact trivial

/-- A phase stays with its task when the submission that the call gives is one of the task. -/
theorem next_of {a : Resp c} (h : g.of t) (hn : g.nextOk c a = some g')
    (hgains : ∀ d, Gains g c a d → d.of t) : g'.of t := by
  cases hsub : g'.submission with
  | some d =>
    rw [of_submission hsub]
    rcases submission_next hn hsub with hd | hd
    · exact (of_submission hd).mp h
    · exact hgains d hd
  | none =>
    cases c with
    | _ =>
      simp only [nextOk, read] at hn
      repeat' split at hn
      all_goals first
        | (cases hn; done)
        | (cases hn; cases hsub; done)
        | (cases hn; exact h)
        | (cases hn; exact trivial)
        | (cases hn; exact ⟨_, h⟩)

/-! ## Opening the grace window -/

/-- The session whose window the execution is about to open. -/
def opens : Phase → Option Id
  | .expiryMark sessionId _ | .expiryGrace sessionId _ => some sessionId
  | _ => none

/-- The two calls that lead there. -/
inductive Opens : Phase → (c : Call) → Resp c → Phase → Prop where
  | read {sessionId : Id} {row : TestSession} (hs : row.status = .active) :
      Opens (.expiryGuard sessionId) (.testSessionFindOne sessionId) (some row)
        (.expiryMark sessionId row)
  | mark {sessionId : Id} {session : TestSession} :
      Opens (.expiryMark sessionId session) (.testSessionUpdateStatus sessionId .expired) ()
        (.expiryGrace sessionId (session.snapshot.getD []))

theorem opens_of_allows {g : Phase} {c : Call} (h : g.allows c = true) : g.opens = none := by
  cases g with
  | expiryMark | expiryGrace => cases c <;> cases h
  | _ => rfl

theorem opens_next {g g' : Phase} {c : Call} {a : Resp c} {id : Id} (hn : g.nextOk c a = some g')
    (hid : g'.opens = some id) : Opens g c a g' := by
  cases c with
  | testSessionFindOne sessionId =>
    cases g with
    | expiryGuard sessionId' =>
      simp only [nextOk, read] at hn
      split at hn
      · rename_i he
        subst he
        cases a with
        | none => cases hn; cases hid
        | some row =>
          simp only at hn
          split at hn <;> cases hn
          · exact .read ‹_›
          · cases hid
      · cases hn
    | _ =>
      simp only [nextOk, read] at hn
      repeat' split at hn
      all_goals first | (cases hn; done) | (cases hn; cases hid)
  | testSessionUpdateStatus sessionId status =>
    cases g with
    | expiryMark sessionId' session =>
      simp only [nextOk] at hn
      split at hn <;> cases hn
      rename_i he
      obtain ⟨rfl, rfl⟩ := he
      exact .mark
    | _ => cases hn
  | _ =>
    simp only [nextOk] at hn
    repeat' split at hn
    all_goals first | (cases hn; done) | (cases hn; cases hid) | skip
    all_goals
      cases hn
      rw [opens_of_allows ‹_›] at hid
      cases hid

theorem opens_failed (g : Phase) (c : Call) : (g.failed c).opens = none := by
  unfold failed
  split
  · rfl
  · rfl
  · rfl
  · split <;> rfl

theorem start_opens (t : Task) : (start t).opens = none := by
  cases t with
  | handleExpiry type sessionId => cases type <;> rfl
  | _ => rfl

end Phase

/-! ## What a phase waits for -/

instance (c : Call) : Nonempty (Resp c) := by
  cases c with
  | txSaveTestSession _ row => exact ⟨row⟩
  | _ => exact ⟨default⟩

theorem not_final {g : Phase} (hb : g.busy = true) (hs : g ≠ .saved) (r : Except Err Reply) :
    ¬monitor.final r g := by
  rw [monitor_final, Phase.final]
  split
  · exact hs
  · simp [hb]

theorem marked_row [Bcrypt] {i : Nat} {w w' : World} {sessionId : Id}
    {status : TestSessionStatus}
    (h : Answered examSystem i (.testSessionUpdateStatus sessionId status) w (.ok ()) w')
    {row : TestSession} (hrow : w'.sessions.get sessionId = some row) : row.status = status := by
  obtain ⟨hx⟩ := h
  simp only [examSystem, exec] at hx
  split at hx <;> cases hx
  rw [Table.get_update w.sessions _ (fun s => { s with status := status }) fun _ => rfl,
    if_pos rfl] at hrow
  obtain ⟨row', -, rfl⟩ := Option.map_eq_some_iff.mp hrow
  rfl

section Reachable

variable [Bcrypt] {P : Guard World Call Resp Err Reply Task Choice EnvEvent} {c c' : Pool}
  {i : Nat} {call : Call} {r : Except Err (Resp call)} {g g' : Phase}

theorem Moved.opens (hm : Moved monitor examSystem c c' i call r g g') {id : Id}
    (hid : g'.opens = some id) : ∃ a, r = .ok a ∧ g.Opens call a g' := by
  have hn := hm.next
  cases r with
  | error e =>
    cases hn
    rw [monitor_failed, Phase.opens_failed] at hid
    cases hid
  | ok a => exact ⟨a, rfl, Phase.opens_next hn hid⟩

theorem Moved.of (hm : Moved monitor examSystem c c' i call r g g') (hb : Base c) {t : Task}
    (h : g.of t) : g'.of t := by
  have hn := hm.next
  cases r with
  | error e => cases hn; exact Phase.failed_of
  | ok a =>
    refine Phase.next_of h hn fun d hd => ?_
    cases hd with
    | @submit sessionId userId answers row hu hs =>
      have hid : row.id = sessionId := Table.key_of_get (findOne_answer hm.answers).symm
      subst hid
      exact .inl ⟨rfl, rfl, userId, h⟩
    | @late sessionId row answers snapshot value? hsnap =>
      obtain ⟨-, rfl, -⟩ := hb.holds _ _ hm.before
      obtain ⟨userId, ht⟩ := h
      exact .inr (.inl ⟨rfl, rfl, userId, answers, ht⟩)
    | @auto sessionId row ho =>
      have hid : row.id = sessionId := Table.key_of_get (findOne_answer hm.answers).symm
      subst hid
      exact .inr (.inr ⟨rfl, rfl, h⟩)

theorem Reachable.origin (h : Reachable P c) :
    ∀ i t g, c.task? i = some t → monitor.phase c i = some g → g.of t := by
  have hstart : ∀ (c : Pool) ts w, c.LogOk →
      (∀ i t g, c.task? i = some t → monitor.phase c i = some g → g.of t) →
      ∀ i t g, (c.start examSystem ts w).task? i = some t →
        monitor.phase (c.start examSystem ts w) i = some g → g.of t := by
    intro c ts w hlog hI i t g ht hg
    rcases Nat.lt_or_ge i c.procs.length with hi | hi
    · rw [Monitor.phase_start_of_lt hi] at hg
      rw [Config.task?, c.start_procs_of_lt _ hi] at ht
      exact hI i t g ht hg
    · obtain ⟨t', -, rfl, ht', -⟩ := Monitor.phase_start_task hlog hi hg
      cases ht'.symm.trans ht
      exact Phase.start_of t
  refine Reach.invariant monitor_sound (I := fun c => ∀ i t g, c.task? i = some t →
    monitor.phase c i = some g → g.of t) ?_ ?_ ?_ ?_ h
  · intro w _ i t g _ hg
    rw [Monitor.phase_none (Nat.zero_le _)] at hg
    cases hg
  · intro c t hr hI _ _
    exact hstart c [t] _ (hr.logOk monitor_sound) hI
  · intro c v w ts hr hI _ _
    exact hstart c ts w (hr.logOk monitor_sound) hI
  · intro c c' i call r g g' hr hI _ hm j t gj ht hg
    rw [hm.task] at ht
    rcases hm.phase_cases hg with ⟨rfl, rfl⟩ | ⟨-, hg⟩
    · exact Moved.of hm (Reachable.base hr) (hI _ t g ht hm.before)
    · exact hI j t gj ht hg

/-- Between the read and the UPDATE of `handleSessionExpiry`. -/
theorem Reachable.waits_expiryMark (h : Reachable P c) {sessionId : Id} {session : TestSession}
    (hg : monitor.phase c i = some (.expiryMark sessionId session)) :
    c.next? i = some (.testSessionUpdateStatus sessionId .expired) := by
  obtain ⟨call, hnext, hallowed⟩ := (h.conforms monitor_sound).waits hg (not_final rfl (by simp))
  obtain ⟨g', hn⟩ := hallowed (Classical.arbitrary _)
  rw [hnext]
  cases call with
  | testSessionUpdateStatus id status =>
    simp only [monitor_next, Phase.nextOk] at hn
    split at hn
    · rename_i he
      rw [he.1, he.2]
    · cases hn
  | _ => cases hn

/-- Between the SET and the UPDATE of `autosave`. -/
theorem Reachable.waits_saveMirror (h : Reachable P c) {sessionId : Id} {session : TestSession}
    {answers : Answers} (hg : monitor.phase c i = some (.saveMirror sessionId session answers)) :
    c.next? i = some (.testSessionUpdateSnapshot sessionId answers) := by
  obtain ⟨-, hid, -⟩ := (Reachable.base h).holds _ _ hg
  obtain ⟨call, hnext, hallowed⟩ := (h.conforms monitor_sound).waits hg (not_final rfl (by simp))
  obtain ⟨g', hn⟩ := hallowed (Classical.arbitrary _)
  rw [hnext]
  cases call with
  | testSessionUpdateSnapshot id snapshot =>
    simp only [monitor_next, Phase.nextOk] at hn
    split at hn
    · rename_i he
      rw [he.1, he.2, hid]
    · cases hn
  | _ => cases hn

end Reachable

/-- Only an acknowledged autosave ends in `saved`. -/
theorem keeps_saved {p : Promise Reply} : monitor.Keeps p .saved ↔ p = .ret .saved := by
  constructor
  · intro hp
    cases p with
    | ret a =>
      by_cases ha : a = .saved
      · rw [ha]
      · exact absurd hp (by simp [Monitor.Keeps, Phase.final, ha, Phase.busy])
    | throw e => exact absurd hp (by simp [Monitor.Keeps, Phase.final, Phase.busy])
    | call call k =>
      obtain ⟨g', hn, -⟩ := hp (.ok (Classical.arbitrary _))
      cases call <;> cases hn
  · rintro rfl
    simp [Monitor.Keeps, Phase.final]

theorem saved_of_keeps {g : Phase} (h : monitor.Keeps (.ret .saved) g) : g = .saved := by
  simpa [Monitor.Keeps, Phase.final] using h

end LmsBackend.Exams
