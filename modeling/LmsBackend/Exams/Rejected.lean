import LmsBackend.Exams.OneAttempt

/-!
# Submissions that reject

A submit ends with an error either before its COMMIT, and then it has written
nothing, or after it, when the session key cannot be deleted.
-/

open Async Store

namespace LmsBackend.Exams

/-- The student's own submissions. -/
def Task.submits : Task → Bool
  | .submitExam _ _ _ | .lateSubmitExam _ _ _ => true
  | _ => false

/-- The calls that can change the tables. The statements of a transaction wait for its COMMIT. -/
def Call.writesTables : Call → Bool
  | .accessCodeSave _ _ _ _ _ | .testSessionUpdateSnapshot _ _ | .testSessionUpdateStatus _ _
  | .commitTransaction => true
  | _ => false

/-- How far a submission is with what it has to do. -/
inductive Delivery where
  | other
  /-- Nothing is committed. `stored` once its transaction has the attempt. -/
  | trying (stored : Bool)
  | committed
  /-- The session key is deleted. -/
  | cleared
  /-- The deletion has rejected. -/
  | stuck

namespace Delivery

def start (t : Task) : Delivery := if t.submits then .trying false else .other

def nextOk (d : Delivery) (c : Call) (_ : Resp c) : Option Delivery :=
  match d, c with
  | .other, _ => some .other
  | .trying true, .commitTransaction => some .committed
  | .trying false, .txSaveExamAttempt _ _ => some (.trying true)
  | .trying false, .redisDel _ => none
  | .trying false, c => if c.writesTables then none else some (.trying false)
  | .committed, .release => some .committed
  | .committed, .redisDel _ => some .cleared
  | _, _ => none

def failed : Delivery → Call → Delivery
  | .trying _, _ => .trying false
  | .committed, _ => .stuck
  | d, _ => d

def final (r : Except Err Reply) : Delivery → Prop
  | .other => True
  | .trying _ | .stuck => ∃ e, r = .error e
  | .committed => False
  | .cleared => ∃ a, r = .ok a

end Delivery

def delivery : Monitor Call Resp Err Reply Task Delivery where
  start := Delivery.start
  next := Delivery.nextOk
  failed := Delivery.failed
  final := Delivery.final

@[simp] theorem delivery_start : delivery.start = Delivery.start := rfl

@[simp] theorem delivery_next : delivery.next = Delivery.nextOk := rfl

@[simp] theorem delivery_failed : delivery.failed = Delivery.failed := rfl

@[simp] theorem delivery_final : delivery.final = Delivery.final := rfl

/-! ## The programs -/

open ExamService

theorem getOwnedSession_delivers (sessionId userId : Id) (allowed : List TestSessionStatus) :
    delivery.wp (getOwnedSession sessionId userId allowed) (.trying false)
      (fun _ d => d = .trying false) fun _ d => d = .trying false := by
  simp only [getOwnedSession, Prog.bind_eq, await, Monitor.wp_bind, Monitor.wp_await]
  refine ⟨fun session? => ⟨.trying false, rfl, ?_⟩, fun e => rfl⟩
  split
  · rfl
  · repeat' split
    all_goals rfl

theorem persist_delivers (session : TestSession) (answers : Answers) (attempt : ExamAttempt) :
    delivery.wp (persist session answers attempt) (.trying false)
      (fun _ d => d = .committed) fun _ d => d = .trying false := by
  simp only [persist, Prog.bind_eq, await, Monitor.wp_bind, Monitor.wp_await]
  refine ⟨fun _ => ⟨.trying false, rfl, ?_⟩, fun e => rfl⟩
  refine ⟨fun affected => ⟨.trying false, rfl, ?_⟩, fun e => rfl⟩
  split
  · rfl
  · simp only [Monitor.wp_bind, Monitor.wp_await]
    refine ⟨fun _ => ⟨.trying true, rfl, ?_⟩, fun e => rfl⟩
    exact ⟨fun _ => ⟨.committed, rfl, rfl⟩, fun e => rfl⟩

theorem scoreAndPersist_delivers (session : TestSession) (answers : Answers)
    (status : AttemptStatus) (lateFlag : Bool) :
    delivery.wp (scoreAndPersist session answers status lateFlag) (.trying false)
      (fun _ d => d = .cleared) fun _ d => d = .trying false ∨ d = .stuck := by
  simp only [scoreAndPersist, scoreAnswers, Prog.bind_eq, Prog.tryCatch_eq, await, Monitor.wp_bind,
    Monitor.wp_await, Monitor.wp_ensure, Monitor.wp_handle]
  refine ⟨fun exam? => ⟨.trying false, rfl, ?_⟩, fun e => .inl rfl⟩
  refine ⟨fun submittedAt => ⟨.trying false, rfl, ?_⟩, fun e => .inl rfl⟩
  refine ⟨fun _ => ⟨.trying false, rfl, ?_⟩, fun e => .inl rfl⟩
  refine ⟨fun _ => ⟨.trying false, rfl, ?_⟩, fun e => .inl rfl⟩
  refine delivery.wp_mono (persist_delivers session answers _) ?_ ?_
  · rintro _ _ rfl
    refine ⟨fun _ => ⟨.committed, rfl, ?_⟩, fun e => ?_⟩
    · simp only [TestSessionService.deleteSession, RedisService.del, await, Prog.pure_eq,
        Monitor.wp_await, Monitor.wp_ret]
      exact ⟨fun _ => ⟨.cleared, rfl, rfl⟩, fun e => .inr rfl⟩
    · exact .inr rfl
  · rintro e _ rfl
    have hrelease : ∀ d, d = .trying false → (∀ a, ∃ d', delivery.next d .release a = some d' ∧
        (d' = .trying false ∨ d' = .stuck)) ∧
        ∀ _ : Err, delivery.failed d .release = .trying false ∨
          delivery.failed d .release = .stuck := by
      rintro _ rfl
      exact ⟨fun _ => ⟨.trying false, rfl, .inl rfl⟩, fun _ => .inl rfl⟩
    exact ⟨fun _ => ⟨.trying false, rfl, hrelease _ rfl⟩, fun _ => hrelease _ rfl⟩

theorem submitExam_delivers (sessionId userId : Id) (answers : Answers) :
    delivery.wp (submitExam sessionId userId answers) (.trying false)
      (fun _ d => d = .cleared) fun _ d => d = .trying false ∨ d = .stuck := by
  refine (delivery.wp_bind _).mpr (delivery.wp_mono (getOwnedSession_delivers _ _ _) ?_ ?_)
  · rintro session _ rfl
    exact scoreAndPersist_delivers session answers .submitted false
  · exact fun e d h => .inl h

theorem lateSubmitExam_delivers (sessionId userId : Id) (answers : Answers) :
    delivery.wp (lateSubmitExam sessionId userId answers) (.trying false)
      (fun _ d => d = .cleared) fun _ d => d = .trying false ∨ d = .stuck := by
  refine (delivery.wp_bind _).mpr (delivery.wp_mono (getOwnedSession_delivers _ _ _) ?_ ?_)
  · rintro session _ rfl
    simp only [TestSessionService.consumeGrace, RedisService.getDelJson, Prog.bind_eq, await,
      Prog.pure_eq, Monitor.wp_bind, Monitor.wp_await, Monitor.wp_ret]
    refine ⟨fun snapshot? => ⟨.trying false, rfl, ?_⟩, fun e => .inl rfl⟩
    split
    · exact .inl rfl
    · exact scoreAndPersist_delivers session _ .submitted true
  · exact fun e d h => .inl h

/-- What is not a submission is not looked at. -/
theorem keeps_other (p : Promise Reply) : delivery.Keeps p .other := by
  induction p with
  | ret a => trivial
  | throw e => trivial
  | call c k ih =>
    rintro (e | a)
    · refine ⟨.other, ?_, ih _⟩
      cases c <;> rfl
    · exact ⟨.other, rfl, ih _⟩

theorem delivery_sound [Bcrypt] : delivery.Sound examSystem := by
  intro t
  change delivery.Keeps t.prog (Delivery.start t)
  cases t with
  | submitExam sessionId userId answers =>
    refine (delivery.wp_bind _).mpr (delivery.wp_mono (submitExam_delivers _ _ _) ?_ ?_)
    · rintro r _ rfl
      exact ⟨_, rfl⟩
    · rintro e _ (rfl | rfl) <;> exact ⟨e, rfl⟩
  | lateSubmitExam sessionId userId answers =>
    refine (delivery.wp_bind _).mpr (delivery.wp_mono (lateSubmitExam_delivers _ _ _) ?_ ?_)
    · rintro r _ rfl
      exact ⟨_, rfl⟩
    · rintro e _ (rfl | rfl) <;> exact ⟨e, rfl⟩
  | _ => exact keeps_other _

/-! ## The pool -/

/-- No step of the process changed the tables. -/
def Untouched (c : Pool) (i : Nat) : Prop :=
  ∀ e ∈ c.log, e.proc = i → e.after.tables = e.before.tables

/-- The process saw no DEL reject. -/
def Deletes (c : Pool) (i : Nat) : Prop :=
  ∀ e ∈ c.log, e.proc = i → e.call.deletes = true → e.res.isOk = true

def Delivery.Holds (c : Pool) (i : Nat) (g : Phase) : Delivery → Prop
  | .other => ∀ t, c.task? i = some t → t.submits = false
  | .trying stored =>
    Untouched c i ∧ Deletes c i ∧ (stored = true → ∃ d attempt, g = .stored d attempt)
  | .committed | .cleared => ¬Untouched c i ∧ Deletes c i
  | .stuck => ¬Untouched c i ∧ ¬Deletes c i

variable {c c' : Pool} {i j : Nat} {w w' : World} {g g' : Phase} {call : Call}
  {r : Except Err (Resp call)}

theorem untouched_append {e : Event World Call Resp Err} (h : c'.log = c.log ++ [e]) :
    Untouched c' i ↔ Untouched c i ∧ (e.proc = i → e.after.tables = e.before.tables) := by
  simp [Untouched, h, or_imp, forall_and]

theorem deletes_append {e : Event World Call Resp Err} (h : c'.log = c.log ++ [e]) :
    Deletes c' i ↔
      Deletes c i ∧ (e.proc = i → e.call.deletes = true → e.res.isOk = true) := by
  simp [Deletes, h, or_imp, forall_and]

theorem DbStep.tables (h : DbStep i w w' g call r) (hc : call.writesTables = false) :
    w'.tables = w.tables := by
  cases h <;> first | assumption | cases hc

/-- A COMMIT of a stored attempt adds it. -/
theorem DbStep.stores {d : Submission} {attempt : ExamAttempt}
    (h : DbStep i w w' (.stored d attempt) .commitTransaction (.ok ())) : w'.tables ≠ w.tables := by
  intro he
  have hlen := congrArg (fun t => t.attempts.length) he
  cases h with
  | same _ hr => obtain ⟨e, he⟩ := hr rfl; cases he
  | submit d attempt row hrow hopen hfixed hmakes hlock h =>
    rw [h] at hlen
    simp [World.tables] at hlen

theorem resp_nonempty (call : Call) : Nonempty (Resp call) := by
  cases call with
  | txSaveTestSession userId row => exact ⟨row⟩
  | _ => exact ⟨default⟩

theorem Delivery.step [Bcrypt] (hm : Moved monitor examSystem c c' i call r g g')
    (hdb : DbStep i c.world c'.world g call r) {d d' : Delivery}
    (hallowed : ∀ a, ∃ d', d.nextOk call a = some d') (hn : delivery.advance d call r = some d')
    (h : d.Holds c i g) : d'.Holds c' i g' := by
  obtain ⟨a₀⟩ := resp_nonempty call
  obtain ⟨d₀, hd₀⟩ := hallowed a₀
  have htouched := untouched_append (i := i) hm.log
  have hdeletes := deletes_append (i := i) hm.log
  simp only [forall_const] at htouched hdeletes
  cases d with
  | other =>
    have hd' : d' = .other := by cases r <;> cases hn <;> rfl
    rw [hd']
    intro t ht
    exact h t (hm.task i ▸ ht)
  | trying stored =>
    obtain ⟨hu, hdel, hstored⟩ := h
    have hkey : call.deletes = false := by
      cases call <;> first | rfl | (cases stored <;> cases hd₀)
    have hdel' : Deletes c' i := hdeletes.mpr ⟨hdel, fun hc => by cases hkey.symm.trans hc⟩
    cases r with
    | error e =>
      cases hn
      exact ⟨htouched.mpr ⟨hu, hdb.error⟩, hdel', by simp⟩
    | ok a =>
      cases stored with
      | true =>
        obtain ⟨s, attempt, rfl⟩ := hstored rfl
        cases call with
        | commitTransaction =>
          cases hn
          exact ⟨fun hu' => hdb.stores (htouched.mp hu').2, hdel'⟩
        | _ => cases hd₀
      | false =>
        cases call with
        | txSaveExamAttempt session attempt =>
          cases hn
          refine ⟨htouched.mpr ⟨hu, hdb.tables rfl⟩, hdel', fun _ => ?_⟩
          have hnext : g.nextOk (.txSaveExamAttempt session attempt) a = some g' := hm.next
          simp only [Phase.nextOk] at hnext
          repeat' split at hnext
          all_goals cases hnext
          exact ⟨_, _, rfl⟩
        | _ =>
          first
          | (cases hd₀; done)
          | (cases hn; exact ⟨htouched.mpr ⟨hu, hdb.tables rfl⟩, hdel', by simp⟩)
  | committed =>
    obtain ⟨hu, hdel⟩ := h
    have hu' : ¬Untouched c' i := fun hu' => hu (htouched.mp hu').1
    cases call with
    | release =>
      cases r with
      | error e =>
        -- The connection is handed back whatever happened.
        cases hm.answers with
        | exec hx =>
          have hx : some (c.world, Except.ok ()) = some (c'.world, .error e) := hx
          simp at hx
        | reject hx => cases hx
      | ok a =>
        cases hn
        exact ⟨hu', hdeletes.mpr ⟨hdel, fun hc => by cases hc⟩⟩
    | redisDel key =>
      cases r with
      | error e =>
        cases hn
        refine ⟨hu', fun hdel' => ?_⟩
        have hok := (hdeletes.mp hdel').2 rfl
        cases hok
      | ok a =>
        cases hn
        exact ⟨hu', hdeletes.mpr ⟨hdel, fun _ => rfl⟩⟩
    | _ => cases hd₀
  | cleared => cases hd₀
  | stuck => cases hd₀

/-- Steps of other processes and new tasks are nothing to a submission. -/
theorem Delivery.Holds.congr {d : Delivery} (h : d.Holds c i g)
    (ht : c'.task? i = c.task? i) (hu : Untouched c' i ↔ Untouched c i) (hd : Deletes c' i ↔ Deletes c i) : d.Holds c' i g := by
  cases d with
  | other => exact fun t ht' => h t (ht ▸ ht')
  | trying stored => exact ⟨hu.mpr h.1, hd.mpr h.2.1, h.2.2⟩
  | committed | cleared => exact ⟨fun hu' => h.1 (hu.mp hu'), hd.mpr h.2⟩
  | stuck => exact ⟨fun hu' => h.1 (hu.mp hu'), fun hd' => h.2 (hd.mp hd')⟩

theorem Delivery.start_holds {t : Task} (ht : c.task? i = some t)
    (hnone : ∀ e ∈ c.log, e.proc ≠ i) : (Delivery.start t).Holds c i g := by
  unfold Delivery.start
  split
  · refine ⟨fun e he hi => absurd hi (hnone e he), fun e he hi => absurd hi (hnone e he), ?_⟩
    simp
  · rename_i hsubmits
    intro t' ht'
    cases ht.symm.trans ht'
    simpa using hsubmits

theorem Reachable.delivers [Bcrypt] {P : Guard World Call Resp Err Reply Task Choice EnvEvent}
    (h : Reachable P c) :
    ∀ i g, (monitor.both delivery).phase c i = some g → g.2.Holds c i g.1 := by
  have hsound := Monitor.both_sound monitor_sound delivery_sound
  have hstart : ∀ c ts w, Reachable P c →
      (∀ i g, (monitor.both delivery).phase c i = some g → g.2.Holds c i g.1) →
      ∀ i g, (monitor.both delivery).phase (c.start examSystem ts w) i = some g →
        g.2.Holds (c.start examSystem ts w) i g.1 := by
    intro c ts w hr hI i g hg
    have hlog := hr.logOk hsound
    rcases Nat.lt_or_ge i c.procs.length with hi | hi
    · rw [Monitor.phase_start_of_lt hi] at hg
      exact (hI i g hg).congr (by rw [Config.task?, c.start_procs_of_lt _ hi]; rfl) .rfl .rfl
    · obtain ⟨t, -, rfl, ht, -⟩ := Monitor.phase_start_task hlog hi hg
      refine Delivery.start_holds ht fun e he hproc => ?_
      have hlt := hlog e he
      omega
  refine Reach.invariant hsound (I := fun c => ∀ i g,
    (monitor.both delivery).phase c i = some g → g.2.Holds c i g.1) ?_ ?_ ?_ ?_ h
  · intro w _ i g hg
    have hlt := Monitor.lt_of_phase hg
    exact absurd hlt (Nat.not_lt_zero i)
  · intro c t hr hI _ _
    exact hstart c [t] _ hr hI
  · intro c v w ts hr hI _ _
    exact hstart c ts w hr hI
  · intro c c' i call r g g' hr hI _ hm j gj hj
    rcases hm.phase_cases hj with ⟨rfl, rfl⟩ | ⟨hji, hj⟩
    · refine Delivery.step hm.fst ((Reachable.base hr).db hm.fst) (fun a => ?_)
        (Monitor.both_advance hm.next).2 (hI j g hm.before)
      obtain ⟨g₁, hg₁⟩ := hm.allowed a
      obtain ⟨g₂, hg₂, hg₁⟩ := Option.bind_eq_some_iff.mp hg₁
      obtain ⟨d, hd, -⟩ := Option.map_eq_some_iff.mp hg₁
      exact ⟨d, hd⟩
    · refine (hI j gj hj).congr (hm.task j) ?_ ?_
      · rw [untouched_append hm.log]
        simp [Ne.symm hji]
      · rw [deletes_append hm.log]
        simp [Ne.symm hji]

/-- In every state that the backend reaches, whatever fails: a submit that has rejected changed
none of the tables, if and only if it was not its DEL of the session key that rejected. -/
theorem rejected_changed_nothing [Bcrypt] (h : Reachable anyStep c) {t : Task}
    (ht : c.task? i = some t) (hsubmits : t.submits = true) {e : Err}
    (hend : c.error? i = some e) : Untouched c i ↔ Deletes c i := by
  have hsound := Monitor.both_sound monitor_sound delivery_sound (S := examSystem)
  obtain ⟨_, hprog, herror⟩ := Option.bind_eq_some_iff.mp hend
  obtain ⟨p, hp, rfl⟩ := Option.map_eq_some_iff.mp hprog
  obtain ⟨g, hg, hkeeps⟩ := h.conforms hsound i p hp
  have hI := Reachable.delivers h i g hg
  rw [Prog.eq_throw herror] at hkeeps
  have hfinal : Delivery.final (.error e) g.2 := hkeeps.2
  cases hd : g.2 with
  | other =>
    rw [hd] at hI
    rw [hI t ht] at hsubmits
    cases hsubmits
  | trying stored =>
    rw [hd] at hI
    exact iff_of_true hI.1 hI.2.1
  | committed =>
    rw [hd] at hfinal
    exact hfinal.elim
  | cleared =>
    rw [hd] at hfinal
    obtain ⟨a, ha⟩ := hfinal
    cases ha
  | stuck =>
    rw [hd] at hI
    exact iff_of_false hI.1 hI.2

/-! ## The school -/

set_option maxRecDepth 100000 in
/-- Two submits have read ACTIVE. The second to commit rejects. -/
theorem rejected_changed_nothing_race :
    ∃ c, @Reachable plainBcrypt anyStep c ∧ (c.error? 2).isSome ∧ c.world.attempts ≠ [] ∧
      Untouched c 2 := by
  obtain ⟨c, hc, ht, he, hattempts, hdel⟩ := exists_reachable (P := anyStep)
    (starts ++ .spawn (.submitExam "S" "u" []) :: .spawn (.submitExam "S" "u" []) ::
      calls 1 1 ++ calls 2 1 ++ calls 1 9 ++ calls 2 8)
    (p := fun c => c.task? 2 = some (.submitExam "S" "u" []) ∧ (c.error? 2).isSome ∧
      c.world.attempts ≠ [] ∧ ∀ e ∈ c.log, e.proc = 2 → e.call.deletes = true → e.res.isOk = true)
    (by decide)
  obtain ⟨e, hend⟩ := Option.isSome_iff_exists.mp he
  exact ⟨c, hc, he, hattempts, (@rejected_changed_nothing c 2 plainBcrypt hc _ ht rfl e hend).mpr hdel⟩

set_option maxRecDepth 100000 in
/-- A submit commits, and the DEL after it rejects. -/
theorem rejected_after_commit :
    ¬∀ c i t, @Reachable plainBcrypt anyStep c → c.task? i = some t → t.submits = true →
      (c.error? i).isSome → Untouched c i := by
  intro hall
  obtain ⟨c, hc, ht, he, e, hmem, hproc, hattempts⟩ := exists_reachable (P := anyStep)
    (starts ++ .spawn (.submitExam "S" "u" []) :: calls 1 10 ++ [.fail 1])
    (p := fun c => c.task? 1 = some (.submitExam "S" "u" []) ∧ (c.error? 1).isSome ∧
      ∃ e ∈ c.log, e.proc = 1 ∧ e.after.attempts ≠ e.before.attempts) (by decide)
  exact hattempts (congrArg Tables.attempts (hall c 1 _ hc ht rfl he e hmem hproc))

end LmsBackend.Exams
