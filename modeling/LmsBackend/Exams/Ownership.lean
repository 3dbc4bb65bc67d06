import LmsBackend.Async.Alone
import LmsBackend.Exams.Attended

/-!
# No session is left to no one

The process that has a session in hand still acts on it: run by itself, it comes
to a call that changes the session or opens its grace window.
-/

open Async Store

namespace LmsBackend.Exams

/-- The call acts on the session: it sets one of its keys, writes its row or stores its attempt. -/
def ActsOn (i : Nat) (sessionId : Id) (w : World) : Call → Prop
  | .redisSet key _ _ => key = sessionKey sessionId ∨ key = graceKey sessionId
  | .testSessionUpdateStatus id _ => id = sessionId
  | .txUpdateTestSession id _ _ _ _ => id = sessionId
  | .txSaveExamAttempt session _ => session.id = sessionId
  | .commitTransaction => w.holds i (.session sessionId)
  | _ => False

/-- The program waits for a call when its phase is one that nothing ends in. -/
theorem keeps_call {p : Promise Reply} {g : Phase}
    (hp : monitor.Keeps p g) (hb : g.busy = true) (hs : g ≠ .saved) :
    ∃ call k, p = .call call k ∧ (∀ a, ∃ g', g.nextOk call a = some g') ∧
      ∀ a g', g.nextOk call a = some g' → monitor.Keeps (k (.ok a)) g' := by
  cases p with
  | ret a => exact absurd hp (not_final hb hs _)
  | throw e => exact absurd hp (not_final hb hs _)
  | call call k =>
    refine ⟨call, k, rfl, fun a => (hp (.ok a)).imp fun _ h => h.1, fun a g' hn => ?_⟩
    obtain ⟨g'', hn', hk⟩ := hp (.ok a)
    cases hn'.symm.trans hn
    exact hk

section

variable [Bcrypt] {sessionId : Id} {i : Nat} {w : World} {p : Promise Reply}

theorem comes_created {code : Id} {session : TestSession}
    (hp : monitor.Keeps p (.created code session)) :
    Comes examSystem i (ActsOn i session.id) w p := by
  obtain ⟨call, k, rfl, hallowed, -⟩ := keeps_call hp rfl (by simp)
  obtain ⟨g', hn⟩ := hallowed (Classical.arbitrary _)
  cases call with
  | redisSet key value ttlSeconds =>
    simp only [Phase.nextOk] at hn
    split at hn
    · rename_i h
      exact .here (.inl h.1)
    · cases hn
  | _ => cases hn

theorem comes_expiryMark {session : TestSession}
    (hp : monitor.Keeps p (.expiryMark sessionId session)) :
    Comes examSystem i (ActsOn i sessionId) w p := by
  obtain ⟨call, k, rfl, hallowed, -⟩ := keeps_call hp rfl (by simp)
  obtain ⟨g', hn⟩ := hallowed (Classical.arbitrary _)
  cases call with
  | testSessionUpdateStatus id status =>
    simp only [Phase.nextOk] at hn
    split at hn
    · rename_i h
      exact .here h.1
    · cases hn
  | _ => cases hn

theorem comes_expiryGrace {snapshot : Answers}
    (hp : monitor.Keeps p (.expiryGrace sessionId snapshot)) :
    Comes examSystem i (ActsOn i sessionId) w p := by
  obtain ⟨call, k, rfl, hallowed, -⟩ := keeps_call hp rfl (by simp)
  obtain ⟨g', hn⟩ := hallowed (Classical.arbitrary _)
  cases call with
  | redisSet key value ttlSeconds =>
    simp only [Phase.nextOk] at hn
    split at hn
    · rename_i h
      exact .here (.inr h.1)
    · cases hn
  | _ => cases hn

/-- A handler reads the row that it finds now. -/
theorem comes_read {k : Except Err (Option TestSession) → Promise Reply}
    {row : TestSession} (hrow : w.sessions.get sessionId = some row)
    (h : Comes examSystem i (ActsOn i sessionId) w (k (.ok (some row)))) :
    Comes examSystem i (ActsOn i sessionId) w (.call (.testSessionFindOne sessionId) k) := by
  refine .later ⟨"", w, some row, ?_⟩ fun x w' a hx => ?_
  · rw [← hrow]
    rfl
  · cases hx
    rw [hrow]
    exact h

theorem comes_expiryGuard {row : TestSession} (hp : monitor.Keeps p (.expiryGuard sessionId))
    (hrow : w.sessions.get sessionId = some row) (hs : row.status = .active) :
    Comes examSystem i (ActsOn i sessionId) w p := by
  obtain ⟨call, k, rfl, hallowed, hk⟩ := keeps_call hp rfl (by simp)
  obtain ⟨g', hn⟩ := hallowed (Classical.arbitrary _)
  cases call with
  | testSessionFindOne id =>
    simp only [Phase.nextOk, Phase.read] at hn
    split at hn
    · rename_i h
      subst h
      have hmark : monitor.next (.expiryGuard id) (.testSessionFindOne id) (some row) =
          some (.expiryMark id row) := by
        simp [Phase.nextOk, Phase.read, hs]
      exact comes_read hrow (comes_expiryMark (hk _ _ hmark))
    · cases hn
  | _ => cases hn

theorem comes_moved {d : Submission} {submittedAt : Time}
    (hp : monitor.Keeps p (.moved d submittedAt)) :
    Comes examSystem i (ActsOn i d.session.id) w p := by
  obtain ⟨call, k, rfl, hallowed, -⟩ := keeps_call hp rfl (by simp)
  obtain ⟨g', hn⟩ := hallowed (Classical.arbitrary _)
  cases call with
  | txSaveExamAttempt session attempt =>
    simp only [Phase.nextOk] at hn
    split at hn
    · rename_i h
      exact .here (by rw [h.1]; rfl)
    · cases hn
  | _ => cases hn

theorem comes_stored {d : Submission} {attempt : ExamAttempt}
    (hp : monitor.Keeps p (.stored d attempt)) (hg : Phase.Holds i w (.stored d attempt)) :
    Comes examSystem i (ActsOn i d.session.id) w p := by
  obtain ⟨call, k, rfl, hallowed, -⟩ := keeps_call hp rfl (by simp)
  obtain ⟨g', hn⟩ := hallowed (Classical.arbitrary _)
  cases call with
  | commitTransaction =>
    obtain ⟨⟨user, row, hrow, -, ht⟩, -⟩ := hg
    have hid : row.id = d.session.id := Table.key_of_get hrow
    exact .here ⟨_, ht, by simp [OpenTxn.holds, Write.lock, TestSession.moved, hid]⟩
  | _ => cases hn

theorem comes_begun {d : Submission} (hp : monitor.Keeps p (.begun d)) {t : OpenTxn}
    (ht : w.txns.get i = some t) : Comes examSystem i (ActsOn i d.session.id) w p := by
  induction p generalizing w t with
  | ret a => exact absurd hp (not_final rfl (by simp) _)
  | throw e => exact absurd hp (not_final rfl (by simp) _)
  | call call k ih =>
    obtain ⟨g', hn, hk⟩ := hp (.ok (Classical.arbitrary _))
    cases call with
    | setCurrentUser userId =>
      refine .later ⟨"", { w with txns := w.txns.put { t with user := some userId } }, (),
        by simp only [examSystem, exec, inTxn, ht]⟩ fun x w' a hx => ?_
      obtain ⟨t', ht', hx⟩ := inTxn_ok hx
      cases hx
      obtain ⟨g', hn, hk⟩ := hp (.ok a)
      cases hn
      have hi' : t'.proc = i := World.proc_of_get ht'
      exact ih _ hk (Table.get_put_of_eq _ hi')
    | txUpdateTestSession id allowed status submittedAt snapshot =>
      simp only [Monitor.advance, monitor_next, Phase.nextOk] at hn
      split at hn
      · rename_i h
        exact .here h.1
      · cases hn
    | _ => cases hn

theorem comes_scoring {d : Submission} (hp : monitor.Keeps p (.scoring d)) (hi : w.idle i) :
    Comes examSystem i (ActsOn i d.session.id) w p := by
  induction p generalizing w with
  | ret a => exact absurd hp (not_final rfl (by simp) _)
  | throw e => exact absurd hp (not_final rfl (by simp) _)
  | call call k ih =>
    have hread : call.reads = true → (∃ a, exec i call "" w = some (w, .ok a)) →
        (∀ a, (Phase.scoring d).nextOk call a = some (.scoring d)) →
        Comes examSystem i (ActsOn i d.session.id) w (.call call k) := by
      rintro hreads ⟨a, ha⟩ hnext
      refine .later ⟨"", w, a, ha⟩ fun x w' a hx => ?_
      obtain rfl : w' = w := exec_reads hreads hx
      obtain ⟨g', hn, hk⟩ := hp (.ok a)
      cases hn.symm.trans (hnext a)
      exact ih _ hk hi
    obtain ⟨g', hn, -⟩ := hp (.ok (Classical.arbitrary _))
    cases call with
    | examFindWithQuestions id byPosition => exact hread rfl ⟨_, rfl⟩ fun _ => rfl
    | now => exact hread rfl ⟨_, rfl⟩ fun _ => rfl
    | connect => exact hread rfl ⟨_, rfl⟩ fun _ => rfl
    | startTransaction =>
      refine .later ⟨"", { w with txns := w.txns.put ⟨i, none, []⟩ }, (), ?_⟩ fun x w' a hx => ?_
      · simp only [examSystem, exec, show w.txns.get i = none from hi, Option.isSome_none,
          Bool.false_eq_true, if_false]
      · obtain ⟨g', hn, hk⟩ := hp (.ok a)
        cases hn
        simp only [examSystem, exec, show w.txns.get i = none from hi, Option.isSome_none,
          Bool.false_eq_true, if_false] at hx
        cases hx
        exact comes_begun hk (Table.get_put_self _ _)
    | _ => cases hn

theorem comes_autoGuard {row : TestSession} (hp : monitor.Keeps p (.autoGuard sessionId))
    (hrow : w.sessions.get sessionId = some row) (hopen : row.isOpen) (hi : w.idle i) :
    Comes examSystem i (ActsOn i sessionId) w p := by
  obtain ⟨call, k, rfl, hallowed, hk⟩ := keeps_call hp rfl (by simp)
  obtain ⟨g', hn⟩ := hallowed (Classical.arbitrary _)
  cases call with
  | testSessionFindOne id =>
    simp only [Phase.nextOk, Phase.read] at hn
    split at hn
    · rename_i h
      subst h
      refine comes_read hrow ?_
      have hkeeps := hk (some row)
        (.scoring ⟨row, row.snapshot.getD [], .autoSubmitted, false⟩)
        (by simp [Phase.nextOk, Phase.read, hopen])
      have hid : row.id = id := Table.key_of_get hrow
      have := comes_scoring hkeeps hi
      rwa [hid] at this
    · cases hn
  | _ => cases hn

end

/-! ## The owners -/

/-- A late submit past its `consumeGrace`, or a task that needs no more than to be in flight. -/
def Owns (c : Pool) (i : Nat) (sessionId : Id) : Task → Prop
  | .startExam _ _ _ => True
  | .handleExpiry _ id => id = sessionId
  | .lateSubmitExam id _ _ => id = sessionId ∧ ∃ e ∈ taken sessionId c.log, e.proc = i
  | _ => False

/-- A late submission was made with a snapshot that was taken. -/
def TakenFirst (c : Pool) : Prop :=
  ∀ i g d, monitor.phase c i = some g → g.submission = some d → d.lateFlag = true →
    ∃ e ∈ taken d.session.id c.log, e.proc = i

section

variable [Bcrypt] {P : Guard World Call Resp Err Reply Task Choice EnvEvent} {c : Pool}
  {sessionId : Id} {i : Nat}

theorem Reachable.takenFirst (h : Reachable P c) : TakenFirst c := by
  have hstart : ∀ (c : Pool) ts w, c.LogOk → TakenFirst c → TakenFirst (c.start examSystem ts w) := by
    intro c ts w hlog hI i g d hi hd hlate
    rcases Monitor.phase_start_cases hlog hi with hi | ⟨-, t, -, rfl⟩
    · exact hI i g d hi hd hlate
    · rw [monitor_start, Phase.start_submission] at hd; cases hd
  refine Reach.invariant monitor_sound (I := TakenFirst) ?_ ?_ ?_ ?_ h
  · intro w _ i g d hi
    rw [Monitor.phase_none (Nat.zero_le _)] at hi; cases hi
  · intro c t hr hI _ _
    exact hstart c [t] _ (hr.logOk monitor_sound) hI
  · intro c v w ts hr hI _ _
    exact hstart c ts w (hr.logOk monitor_sound) hI
  · intro c c' i call r g g' hr hI _ hm j gj d hj hd hlate
    have hmono : ∀ e ∈ taken d.session.id c.log, e ∈ taken d.session.id c'.log := by
      intro e he
      rw [hm.log, taken_append]
      exact List.mem_append_left _ he
    have hold : ∀ {j gj}, monitor.phase c j = some gj → gj.submission = some d →
        ∃ e ∈ taken d.session.id c'.log, e.proc = j := fun hj hd =>
      (hI _ _ d hj hd hlate).imp fun e ⟨he, hp⟩ => ⟨hmono e he, hp⟩
    rcases hm.phase_cases hj with ⟨rfl, rfl⟩ | ⟨-, hj⟩
    · rcases Moved.gains hm hd with hd | ⟨a, rfl, hgains⟩
      · exact hold hm.before hd
      · cases hgains with
        | submit => cases hlate
        | auto => cases hlate
        | @late id row answers snapshot value? hsnap =>
          obtain ⟨-, rfl, -⟩ := (Reachable.base hr).holds _ _ hm.before
          refine ⟨⟨j, .redisGetdel (graceKey row.id), .ok value?, c.world, c'.world⟩, ?_, rfl⟩
          rw [hm.log, taken_append]
          simp [Call.obtainsGrace, hsnap]
    · exact hold hj hd

theorem Reachable.keeps (h : Reachable P c) {g : Phase} (hi : monitor.phase c i = some g) :
    ∃ p, c.prog? i = some p ∧ monitor.Keeps p g := by
  have hp := List.getElem?_eq_getElem (Monitor.lt_of_phase hi)
  obtain ⟨g', hg', hkeeps⟩ := h.conforms monitor_sound i _ hp
  cases hg'.symm.trans hi
  exact ⟨_, by rw [Config.prog?, hp]; rfl, hkeeps⟩

/-- The process that has an ACTIVE session in hand acts on it. -/
theorem hasActive_comes (hr : Reachable P c) {g : Phase} (hi : monitor.phase c i = some g)
    (hg : g.hasActive sessionId = true) {row : TestSession}
    (hrow : c.world.sessions.get sessionId = some row) (hs : row.status = .active) :
    ∃ t p, c.task? i = some t ∧ c.prog? i = some p ∧ Owns c i sessionId t ∧
      Comes examSystem i (ActsOn i sessionId) c.world p := by
  obtain ⟨t, ht⟩ := Monitor.task_of_phase hi
  obtain ⟨p, hp, hkeeps⟩ := Reachable.keeps hr hi
  have hof := Reachable.origin hr i t g ht hi
  refine ⟨t, p, ht, hp, ?_⟩
  cases g with
  | created code session =>
    obtain rfl : session.id = sessionId := of_decide_eq_true hg
    obtain ⟨userId, code, examId, rfl⟩ := hof
    exact ⟨trivial, comes_created hkeeps⟩
  | expiryGuard id =>
    obtain rfl : id = sessionId := of_decide_eq_true hg
    cases hof
    exact ⟨rfl, comes_expiryGuard hkeeps hrow hs⟩
  | expiryMark id session =>
    obtain rfl : id = sessionId := of_decide_eq_true hg
    cases hof
    exact ⟨rfl, comes_expiryMark hkeeps⟩
  | _ => cases hg

theorem owns_of_submission (hr : Reachable P c) {g : Phase} {t : Task} {d : Submission}
    (hi : monitor.phase c i = some g) (hd : g.submission = some d) (hof : d.of t)
    (h : d.lateFlag = true ∨ d.status = .autoSubmitted) : Owns c i d.session.id t := by
  rcases hof with ⟨hs, hl, -⟩ | ⟨-, hl, userId, answers, rfl⟩ | ⟨-, -, rfl⟩
  · rcases h with h | h
    · rw [hl] at h; cases h
    · rw [hs] at h; cases h
  · exact ⟨rfl, Reachable.takenFirst hr i g d hi hd hl⟩
  · rfl

/-- The process that has an EXPIRED session in hand acts on it. -/
theorem hasExpired_comes (hr : Reachable P c) {g : Phase} (hi : monitor.phase c i = some g)
    (hg : g.hasExpired sessionId = true) {row : TestSession}
    (hrow : c.world.sessions.get sessionId = some row) (hs : row.status = .expired) :
    ∃ t p, c.task? i = some t ∧ c.prog? i = some p ∧ Owns c i sessionId t ∧
      Comes examSystem i (ActsOn i sessionId) c.world p := by
  obtain ⟨t, ht⟩ := Monitor.task_of_phase hi
  obtain ⟨p, hp, hkeeps⟩ := Reachable.keeps hr hi
  have hof := Reachable.origin hr i t g ht hi
  have hholds := (Reachable.base hr).holds i g hi
  refine ⟨t, p, ht, hp, ?_⟩
  cases g with
  | expiryGrace id snapshot =>
    obtain rfl : id = sessionId := of_decide_eq_true hg
    cases hof
    exact ⟨rfl, comes_expiryGrace hkeeps⟩
  | autoGuard id =>
    obtain rfl : id = sessionId := of_decide_eq_true hg
    cases hof
    refine ⟨rfl, comes_autoGuard hkeeps hrow ?_ hholds⟩
    simp [TestSession.isOpen, TestSessionStatus.isOpen, hs]
  | scoring d =>
    obtain ⟨rfl, h⟩ := of_decide_eq_true hg
    exact ⟨owns_of_submission hr hi rfl hof h, comes_scoring hkeeps hholds.1⟩
  | begun d =>
    obtain ⟨rfl, h⟩ := of_decide_eq_true hg
    obtain ⟨⟨user, htxn⟩, -⟩ := hholds
    exact ⟨owns_of_submission hr hi rfl hof h, comes_begun hkeeps htxn⟩
  | moved d submittedAt =>
    obtain ⟨rfl, h⟩ := of_decide_eq_true hg
    exact ⟨owns_of_submission hr hi rfl hof h, comes_moved hkeeps⟩
  | stored d attempt =>
    obtain ⟨rfl, h⟩ := of_decide_eq_true hg
    exact ⟨owns_of_submission hr hi rfl hof h, comes_stored hkeeps hholds⟩
  | _ => cases hg

/-- While every call succeeds and every message is delivered, a session that is ACTIVE or EXPIRED
has a live key, an undelivered message, or an execution in flight that still acts on it. -/
theorem session_owned (h : Reachable AllSucceed c) :
    ∀ row ∈ c.world.sessions.rows, row.status = .active ∨ row.status = .expired →
      (c.world.redis.get (sessionKey row.id)).isSome ∨
      sessionKey row.id ∈ c.world.undelivered ∨
      (c.world.redis.get (graceKey row.id)).isSome ∨
      graceKey row.id ∈ c.world.undelivered ∨
      ∃ i t p, c.task? i = some t ∧ c.prog? i = some p ∧ Owns c i row.id t ∧
        Comes examSystem i (ActsOn i row.id) c.world p := by
  intro row hmem hs
  have hrow : c.world.sessions.get row.id = some row := Table.mem_rows_iff.mp hmem
  have hI := Reachable.attended h row.id
  rcases hs with hs | hs
  · rcases hI.active row hrow hs with hlive | htold | ⟨i, g, hi, hg⟩
    · exact .inl hlive
    · exact .inr (.inl htold)
    · exact .inr (.inr (.inr (.inr ⟨i, hasActive_comes h hi hg hrow hs⟩)))
  · rcases hI.expired row hrow hs with hlive | htold | ⟨i, g, hi, hg⟩
    · exact .inr (.inr (.inl hlive))
    · exact .inr (.inr (.inr (.inl htold)))
    · exact .inr (.inr (.inr (.inr ⟨i, hasExpired_comes h hi hg hrow hs⟩)))

end

set_option maxRecDepth 100000 in
/-- The handler has written EXPIRED and not yet opened the grace window. -/
theorem session_owned_expiring :
    ∃ c, @Reachable plainBcrypt (@AllSucceed plainBcrypt) c ∧ ∃ row ∈ c.world.sessions.rows,
      row.status = .expired ∧ ∃ i t p, c.task? i = some t ∧ c.prog? i = some p ∧
        Owns c i row.id t ∧ Comes (@examSystem plainBcrypt) i (ActsOn i row.id) c.world p := by
  obtain ⟨c, hc, row, hrow, hs, h1, h2, h3, h4⟩ := exists_reachable (P := @AllSucceed plainBcrypt)
    (starts ++ expires ++ calls 1 2)
    (p := fun c => ∃ row ∈ c.world.sessions.rows, row.status = .expired ∧
      (c.world.redis.get (sessionKey row.id)).isNone ∧ sessionKey row.id ∉ c.world.undelivered ∧
      (c.world.redis.get (graceKey row.id)).isNone ∧ graceKey row.id ∉ c.world.undelivered)
    (by decide)
  refine ⟨c, hc, row, hrow, hs, ?_⟩
  rcases @session_owned plainBcrypt c hc row hrow (.inr hs) with h | h | h | h | h
  · rw [Option.isNone_iff_eq_none.mp h1] at h; cases h
  · exact absurd h h2
  · rw [Option.isNone_iff_eq_none.mp h3] at h; cases h
  · exact absurd h h4
  · exact h

end LmsBackend.Exams
