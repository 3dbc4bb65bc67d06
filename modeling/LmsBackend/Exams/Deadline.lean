import LmsBackend.Exams.OneAttempt
import LmsBackend.Exams.RedisSteps

/-!
# Submits and the deadline

The deadline is the TTL of the session key, but `submitExam` asks only whether
the row is ACTIVE. The row stays ACTIVE until a handler has run, so a submit that
begins in between is graded as one in time.
-/

open Async Store

namespace LmsBackend.Exams

/-- A submit begins for a session that there is, and not between the end of its key and the end of
its status. -/
def BeginsInTime (c : Pool) : PoolLabel → Prop
  | .spawn (.submitExam sessionId userId _) =>
    (c.world.redis.get (sessionKey sessionId)).isSome ∨
      sessionId ∈ c.world.issued ∧
        (c.world.sessions.get sessionId).all fun row => row.status ≠ .active ∨ row.userId ≠ userId
  | _ => True

instance : ∀ c l, Decidable (BeginsInTime c l) := fun c l => by
  match l with
  | .spawn t =>
    dsimp only [BeginsInTime]
    casesm Task <;> infer_instance
  | .run _ _ | .fail _ | .env _ => exact .isTrue trivial

/-- Process `i` is a submit of the session that began before the deadline of its key. -/
def BegunLive (c : Pool) (i : Nat) (sessionId : Id) : Prop :=
  ∃ userId answers w it d, c.task? i = some (.submitExam sessionId userId answers) ∧
    c.born? i = some w ∧ w.redis.get (sessionKey sessionId) = some it ∧ it.deadline = some d ∧
    w.now < d

variable {i : Nat} {w w' : World} {g g' : Phase} {call : Call} {r : Except Err (Resp call)}

/-- What a submit in time knows. -/
structure InTime (c : Pool) : Prop where
  guard : ∀ i sessionId userId answers,
    monitor.phase c i = some (.submitGuard sessionId userId answers) →
      BegunLive c i sessionId ∨ Shut c.world.tables sessionId userId
  submission : ∀ i g d, monitor.phase c i = some g → g.submission = some d →
    d.status = .submitted → d.lateFlag = false → BegunLive c i d.session.id
  attempts : ∀ a ∈ c.world.attempts, a.attempt.status = .submitted → a.attempt.lateFlag = false →
    BegunLive c a.proc a.session.id

section

variable [Bcrypt] {P : Guard World Call Resp Err Reply Task Choice EnvEvent} {c c' : Pool}

theorem BegunLive.start {sessionId : Id} (h : BegunLive c i sessionId) (ts : List Task)
    (w : World) : BegunLive (c.start examSystem ts w) i sessionId := by
  obtain ⟨userId, answers, w', it, d, htask, hborn, h⟩ := h
  have hi : i < c.procs.length := by
    by_contra hi
    simp [Config.task?, List.getElem?_eq_none (Nat.le_of_not_lt hi)] at htask
  refine ⟨userId, answers, w', it, d, ?_, ?_, h⟩
  · rw [Config.task?, c.start_procs_of_lt _ hi]; exact htask
  · rw [Config.born?, c.start_procs_of_lt _ hi]; exact hborn

theorem BegunLive.move {j : Nat} {sessionId : Id} (h : BegunLive c j sessionId)
    (hm : Moved monitor examSystem c c' i call r g g') : BegunLive c' j sessionId := by
  obtain ⟨userId, answers, w', it, d, htask, hborn, h⟩ := h
  exact ⟨userId, answers, w', it, d, (hm.task j).trans htask, (hm.born j).trans hborn, h⟩

theorem InTime.move (hI : InTime c) (hb : Base c)
    (hm : Moved monitor examSystem c c' i call r g g') : InTime c' := by
  have hdb := hb.db hm
  refine ⟨fun j sessionId userId answers hj => ?_, fun j gj d hj hd hstatus hlate => ?_,
    fun a ha hstatus hlate => ?_⟩
  · by_cases he : j = i
    · subst he
      have hg := Moved.guard hm (by rw [Option.some.inj (hm.after.symm.trans hj)]; rfl)
      cases hj.symm.trans (hm.after.trans (congrArg some hg.symm))
      exact (hI.guard j _ _ _ hm.before).imp (·.move hm) hdb.shut
    · rw [hm.other j he] at hj
      exact (hI.guard j _ _ _ hj).imp (·.move hm) hdb.shut
  · by_cases he : j = i
    · subst he
      cases hj.symm.trans hm.after
      rcases Moved.gains hm hd with hd | ⟨a, rfl, hgains⟩
      · exact (hI.submission _ _ _ hm.before hd hstatus hlate).move hm
      · cases hgains with
        | submit hu hs =>
          rename_i sessionId userId answers row
          have hrow := (findOne_answer hm.answers).symm
          have hid : row.id = sessionId := Table.key_of_get hrow
          subst hid
          rcases hI.guard j _ _ _ hm.before with h | h
          · exact h.move hm
          · exact absurd (h.2 row hrow) (by simp [hu, hs])
        | late => cases hlate
        | auto => cases hstatus
    · rw [hm.other j he] at hj
      exact (hI.submission j _ _ hj hd hstatus hlate).move hm
  · rcases hdb.attempts_cases with hsame | ⟨d, attempt, row, hg, -, hrow, -, -, hmakes, happ, -⟩
    · exact (hI.attempts a (hsame ▸ ha) hstatus hlate).move hm
    · rcases List.mem_append.mp (happ ▸ ha) with ha | ha
      · exact (hI.attempts a ha hstatus hlate).move hm
      · cases List.mem_singleton.mp ha
        refine (hI.submission i g d hm.before (by rw [hg]; rfl) ?_ ?_).move hm
        · exact hmakes.2.2.2.2.2.2.1.symm.trans hstatus
        · exact hmakes.2.2.2.2.2.2.2.symm.trans hlate

theorem InTime.start (hI : InTime c) (hlog : c.LogOk) {ts : List Task} {w : World}
    (hw : w.tables = c.world.tables)
    (hnew : ∀ i sessionId userId answers, Task.submitExam sessionId userId answers ∈ ts →
      (c.start examSystem ts w).task? i = some (.submitExam sessionId userId answers) →
      (c.start examSystem ts w).born? i = some w →
        BegunLive (c.start examSystem ts w) i sessionId ∨ Shut w.tables sessionId userId) :
    InTime (c.start examSystem ts w) := by
  have hattempts : w.attempts = c.world.attempts := congrArg Tables.attempts hw
  refine ⟨fun j sessionId userId answers hj => ?_, fun j gj d hj hd hstatus hlate => ?_,
    fun a ha hstatus hlate => ?_⟩
  · rcases Nat.lt_or_ge j c.procs.length with hlt | hge
    · rw [Monitor.phase_start_of_lt hlt] at hj
      rw [Config.start_world, hw]
      exact (hI.guard j _ _ _ hj).imp_left (·.start _ _)
    · obtain ⟨t, ht, hg, htask, hborn⟩ := Monitor.phase_start_task hlog hge hj
      cases t with
      | submitExam =>
        cases hg
        exact hnew j _ _ _ ht htask hborn
      | handleExpiry type => cases type <;> cases hg
      | _ => cases hg
  · rcases Monitor.phase_start_cases hlog hj with hj | ⟨-, t, -, rfl⟩
    · exact (hI.submission j _ _ hj hd hstatus hlate).start _ _
    · rw [monitor_start, Phase.start_submission] at hd
      cases hd
  · exact (hI.attempts a (hattempts ▸ ha) hstatus hlate).start _ _

theorem Reachable.inTime (h : Reachable BeginsInTime c) : InTime c := by
  refine Reach.invariant monitor_sound ?_ ?_ ?_ ?_ h
  · intro w hw
    have hphase : ∀ i, monitor.phase (.initial w) i = none := fun i =>
      Monitor.phase_none (Nat.zero_le _)
    refine ⟨fun i _ _ _ hi => ?_, fun i g d hi => ?_, fun a ha => ?_⟩
    · rw [hphase] at hi; cases hi
    · rw [hphase] at hi; cases hi
    · simp [Config.initial, hw.attempts] at ha
  · intro c t hr hI hP _
    refine hI.start (hr.logOk monitor_sound) rfl ?_
    intro j sessionId userId answers ht htask hborn
    cases List.mem_singleton.mp ht
    rcases hP with hlive | ⟨hid, hall⟩
    · obtain ⟨it, hit⟩ := Option.isSome_iff_exists.mp hlive
      obtain ⟨d, hd, hlt⟩ := (Reachable.redisOk hr).live _ _ hit
      exact .inl ⟨userId, answers, c.world, it, d, htask, hborn, hit, hd, hlt⟩
    · refine .inr ⟨hid, fun row hrow => ?_⟩
      simpa [show c.world.sessions.get sessionId = some row from hrow] using hall
  · intro c v w ts hr hI _ hv
    refine hI.start (hr.logOk monitor_sound) (envStep_db hv).1 ?_
    intro j sessionId userId answers ht
    obtain ⟨key, hkey, -⟩ := envStep_tasks hv _ ht
    rcases key_of_onMessage hkey with ⟨id, he, -⟩ | ⟨id, he, -⟩ <;> cases he
  · intro c c' i call r g g' hr hI _ hm
    exact hI.move (Reachable.base hr) hm

/-- While no submit begins after its key is gone and before its row says so, every attempt that
was graded as in time was made by a `submitExam` that began before the deadline of the key. -/
theorem submitted_before_deadline (h : Reachable BeginsInTime c) :
    ∀ a ∈ c.world.attempts, a.attempt.status = .submitted → a.attempt.lateFlag = false →
      ∃ userId answers w it d, c.task? a.proc = some (.submitExam a.session.id userId answers) ∧
        c.born? a.proc = some w ∧ w.redis.get (sessionKey a.session.id) = some it ∧
        it.deadline = some d ∧ w.now < d :=
  (Reachable.inTime h).attempts

end

set_option maxRecDepth 100000 in
theorem submitted_before_deadline_submit :
    ∃ c, @Reachable plainBcrypt BeginsInTime c ∧ ∃ a ∈ c.world.attempts, ∃ w it d,
      c.born? a.proc = some w ∧ w.redis.get (sessionKey a.session.id) = some it ∧
        it.deadline = some d ∧ w.now < d := by
  obtain ⟨c, hc, a, ha, hstatus, hlate⟩ := exists_reachable (P := BeginsInTime)
    (starts ++ .env (.tick 59999) :: .spawn (.submitExam "S" "u" []) :: calls 1 1 ++
      .env (.tick 1) :: calls 1 8)
    (p := fun c => ∃ a ∈ c.world.attempts, a.attempt.status = .submitted ∧
      a.attempt.lateFlag = false) (by decide)
  obtain ⟨_, _, w, it, d, -, hborn, h⟩ :=
    @submitted_before_deadline plainBcrypt c hc a ha hstatus hlate
  exact ⟨c, hc, a, ha, w, it, d, hborn, h⟩

/-- The event of the session is not delivered yet when the submit begins. -/
def submitsPastDeadline : List PoolLabel :=
  starts ++ .env (.tick 90000) :: .spawn (.submitExam "S" "u" []) :: calls 1 9

set_option maxRecDepth 100000 in
theorem submitted_past_deadline :
    ¬∀ c, @Reachable plainBcrypt anyStep c → ∀ a ∈ c.world.attempts,
      a.attempt.status = .submitted → a.attempt.lateFlag = false →
        ∃ w, c.born? a.proc = some w ∧ (w.redis.get (sessionKey a.session.id)).isSome := by
  intro hall
  obtain ⟨c, hc, a, ha, hstatus, hlate, hgone⟩ := exists_reachable (P := anyStep)
    submitsPastDeadline
    (p := fun c => ∃ a ∈ c.world.attempts, a.attempt.status = .submitted ∧
      a.attempt.lateFlag = false ∧
        (c.born? a.proc).all fun w => (w.redis.get (sessionKey a.session.id)).isNone) (by decide)
  obtain ⟨w, hw, hlive⟩ := hall c hc a ha hstatus hlate
  simp_all

end LmsBackend.Exams
