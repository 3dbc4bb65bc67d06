import LmsBackend.Exams.OneAttempt
import LmsBackend.Exams.Origin

/-!
# Who has a session

While nothing fails and no message is lost, an ACTIVE session has its key, the
message of it, or a process on the way to its status. An EXPIRED session has its
grace key, the message of that, or a process on the way to its attempt. Each
step hands the session on.
-/

open Async Store

namespace LmsBackend.Exams

/-- Every call is answered, and every message is delivered. -/
def AllSucceed [Bcrypt] (c : Pool) : PoolLabel → Prop
  | .run i x =>
    (c.next? i).all fun call => (exec i call x c.world).all fun answered => answered.2.isOk
  | .fail _ => False
  | .env (.lose _) => False
  | _ => True

instance [Bcrypt] : ∀ c l, Decidable (AllSucceed c l) := fun c l => by
  match l with
  | .run _ _ => exact Bool.decEq _ _
  | .fail _ | .env (.lose _) => exact .isFalse id
  | .spawn _ | .env (.tick _) | .env (.deliver _) | .env (.redeliver _) => exact .isTrue trivial

namespace Phase

/-- The execution has an ACTIVE session in hand. -/
def hasActive (sessionId : Id) : Phase → Bool
  | .created _ session => session.id = sessionId
  | .expiryGuard id | .expiryMark id _ => id = sessionId
  | _ => false

/-- The execution has an EXPIRED session in hand. -/
def hasExpired (sessionId : Id) : Phase → Bool
  | .expiryGrace id _ | .autoGuard id => id = sessionId
  | .scoring d | .begun d | .moved d _ | .stored d _ =>
    d.session.id = sessionId ∧ (d.lateFlag = true ∨ d.status = .autoSubmitted)
  | _ => false

end Phase

structure Attended (sessionId : Id) (c : Pool) : Prop where
  active : ∀ row, c.world.sessions.get sessionId = some row → row.status = .active →
    (c.world.redis.get (sessionKey sessionId)).isSome ∨
      sessionKey sessionId ∈ c.world.undelivered ∨
      ∃ i g, monitor.phase c i = some g ∧ g.hasActive sessionId = true
  expired : ∀ row, c.world.sessions.get sessionId = some row → row.status = .expired →
    (c.world.redis.get (graceKey sessionId)).isSome ∨
      graceKey sessionId ∈ c.world.undelivered ∨
      ∃ i g, monitor.phase c i = some g ∧ g.hasExpired sessionId = true
  /-- A submitter deletes the key of a session that is not ACTIVE any more. -/
  closed : ∀ i d, monitor.phase c i = some (.closed d) → d.session.id = sessionId →
    ∀ userId, Shut c.world.tables sessionId userId

/-- The COMMIT of a submission moves its row. -/
theorem DbStep.submitted {i : Nat} {w w' : World} {d : Submission} {attempt : ExamAttempt}
    {r : Except Err Unit} (h : DbStep i w w' (.stored d attempt) .commitTransaction r)
    (hr : r = .ok ()) :
    ∃ row, w.sessions.get d.session.id = some row ∧ w'.sessions.get d.session.id =
      some (row.moved d.status.session attempt.submittedAt d.answers) := by
  cases h with
  | same _ he => obtain ⟨e, he⟩ := he rfl; rw [hr] at he; cases he
  | submit d attempt row hrow _ _ _ _ h =>
    refine ⟨row, hrow, ?_⟩
    have hid : row.id = d.session.id := Table.key_of_get hrow
    rw [show w'.sessions = _ from congrArg Tables.sessions h]
    exact Table.get_put_of_eq _ hid

theorem AttemptStatus.session_ne (s : AttemptStatus) : s.session ≠ .active ∧ s.session ≠ .expired := by
  cases s <;> simp [AttemptStatus.session]

/-- A step leaves the status of a row, or is one that hands the session on by writing it. -/
theorem RowStep.status_cases {i : Nat} {w w' : World} {g : Phase} {call : Call}
    {row' : TestSession} {r : Except Err (Resp call)}
    (h : RowStep i w w' row' g call r) :
    (∃ row, w.sessions.get row'.id = some row ∧ row.status = row'.status) ∨
    (∃ code, g = .inserted code row' ∧ row'.status = .active ∧ row'.id ∉ w.issued) ∨
    (∃ s : AttemptStatus, row'.status = s.session) ∨
    ∃ session, g = .expiryMark row'.id session ∧ row'.status = .expired := by
  cases h with
  | same h => exact .inl ⟨row', h, rfl⟩
  | start hfresh hactive => exact .inr (.inl ⟨_, rfl, hactive, hfresh⟩)
  | submit d attempt row _ _ _ _ he => exact .inr (.inr (.inl ⟨d.status, by rw [he]; rfl⟩))
  | mark session row _ he => exact .inr (.inr (.inr ⟨session, rfl, by rw [he]⟩))
  | mirror session row answers hrow he => exact .inl ⟨row, hrow, by rw [he]⟩

section

variable [Bcrypt] {P : Guard World Call Resp Err Reply Task Choice EnvEvent} {c c' : Pool}
  {sessionId : Id} {i : Nat} {call : Call} {a : Resp call} {g g' : Phase}

/-- What the calls of the phases do that hold a session until they have written Redis. -/
theorem sets_key (hm : Moved monitor examSystem c c' i call (.ok a) g g') :
    (∀ code session, g = .created code session →
      (c'.world.redis.get (sessionKey session.id)).isSome) ∧
    ∀ id snapshot, g = .expiryGrace id snapshot → (c'.world.redis.get (graceKey id)).isSome := by
  have hn := hm.next
  have hredis := Moved.redis hm
  constructor
  · rintro code session rfl
    cases call with
    | redisSet key value ttlSeconds =>
      generalize hr : (Except.ok a : Except Err (Resp (.redisSet key value ttlSeconds))) = r at hredis
      cases hredis with
      | same _ h => obtain ⟨e, he⟩ := h rfl; rw [he] at hr; cases hr
      | start code session data ttlSeconds _ _ h =>
        rw [h, TtlStore.get_set, if_pos rfl]
        rfl
    | _ => cases hn
  · rintro id snapshot rfl
    cases call with
    | redisSet key value ttlSeconds =>
      generalize hr : (Except.ok a : Except Err (Resp (.redisSet key value ttlSeconds))) = r at hredis
      cases hredis with
      | same _ h => obtain ⟨e, he⟩ := h rfl; rw [he] at hr; cases hr
      | grace id snapshot h =>
        rw [h, TtlStore.get_set, if_pos rfl]
        rfl
    | _ => cases hn

/-- A process that has an ACTIVE session in hand keeps it until the key is set. -/
theorem hasActive_move (hm : Moved monitor examSystem c c' i call (.ok a) g g')
    (hg : g.hasActive sessionId = true) {row row' : TestSession}
    (hrow : c.world.sessions.get sessionId = some row) (hactive : row.status = .active)
    (hrow' : c'.world.sessions.get sessionId = some row') (hactive' : row'.status = .active) :
    (c'.world.redis.get (sessionKey sessionId)).isSome ∨ g'.hasActive sessionId = true := by
  have hn := hm.next
  cases g with
  | created code session =>
    obtain rfl : session.id = sessionId := of_decide_eq_true hg
    exact .inl ((sets_key hm).1 code session rfl)
  | expiryGuard id =>
    obtain rfl : id = sessionId := of_decide_eq_true hg
    cases call with
    | testSessionFindOne id' =>
      simp only [Monitor.advance, monitor_next, Phase.nextOk, Phase.read] at hn
      split at hn
      · rename_i he
        subst he
        rw [findOne_answer hm.answers, hrow] at hn
        simp only [hactive, if_pos] at hn
        cases hn
        exact .inr (decide_eq_true rfl)
      · cases hn
    | _ => cases hn
  | expiryMark id session =>
    obtain rfl : id = sessionId := of_decide_eq_true hg
    cases call with
    | testSessionUpdateStatus id' status =>
      simp only [Monitor.advance, monitor_next, Phase.nextOk] at hn
      split at hn
      · rename_i he
        obtain ⟨rfl, rfl⟩ := he
        rw [marked_row hm.answers hrow'] at hactive'
        cases hactive'
      · cases hn
    | _ => cases hn
  | _ => cases hg

/-- The UPDATE of a submission finds an EXPIRED row. -/
theorem moves_expired {w w' : World} {id : Id} {status : TestSessionStatus} {submittedAt : Time}
    {snapshot : Answers} {affected : Nat}
    (h : Answered examSystem i
      (.txUpdateTestSession id [.active, .expired] status submittedAt snapshot) w (.ok affected) w')
    {row : TestSession} (hrow : w.sessions.get id = some row) (hexpired : row.status = .expired) :
    affected = 1 := by
  obtain ⟨hx⟩ := h
  obtain ⟨t, -, hx⟩ := inTxn_ok hx
  simp only [hrow, hexpired] at hx
  split at hx <;> cases hx
  rfl

/-- A process that has an EXPIRED session in hand keeps it until the grace key is set or the row is
terminal. -/
theorem hasExpired_move (hb : Base c) (hm : Moved monitor examSystem c c' i call (.ok a) g g')
    (hg : g.hasExpired sessionId = true) {row row' : TestSession}
    (hrow : c.world.sessions.get sessionId = some row) (hexpired : row.status = .expired)
    (hrow' : c'.world.sessions.get sessionId = some row') (hexpired' : row'.status = .expired) :
    (c'.world.redis.get (graceKey sessionId)).isSome ∨ g'.hasExpired sessionId = true := by
  have hn := hm.next
  cases g with
  | expiryGrace id snapshot =>
    obtain rfl : id = sessionId := of_decide_eq_true hg
    exact .inl ((sets_key hm).2 id snapshot rfl)
  | autoGuard id =>
    obtain rfl : id = sessionId := of_decide_eq_true hg
    cases call with
    | testSessionFindOne id' =>
      simp only [Monitor.advance, monitor_next, Phase.nextOk, Phase.read] at hn
      split at hn
      · rename_i he
        subst he
        rw [findOne_answer hm.answers, hrow] at hn
        simp only [TestSession.isOpen, TestSessionStatus.isOpen, hexpired, or_true, decide_true,
          if_pos] at hn
        cases hn
        exact .inr (decide_eq_true ⟨Table.key_of_get hrow, .inr rfl⟩)
      · cases hn
    | _ => cases hn
  | scoring d =>
    cases call with
    | startTransaction => cases hn; exact .inr hg
    | examFindWithQuestions | now | connect => cases hn; exact .inr hg
    | _ => cases hn
  | begun d =>
    cases call with
    | setCurrentUser userId => cases hn; exact .inr hg
    | txUpdateTestSession id allowed status submittedAt snapshot =>
      simp only [Monitor.advance, monitor_next, Phase.nextOk] at hn
      split at hn
      · rename_i he
        obtain ⟨rfl, rfl, rfl, rfl⟩ := he
        obtain ⟨rfl, -⟩ := of_decide_eq_true hg
        rw [if_pos (moves_expired hm.answers hrow hexpired)] at hn
        cases hn
        exact .inr hg
      · cases hn
    | _ => cases hn
  | moved d submittedAt =>
    cases call with
    | txSaveExamAttempt session attempt =>
      simp only [Monitor.advance, monitor_next, Phase.nextOk] at hn
      split at hn <;> cases hn
      exact .inr hg
    | _ => cases hn
  | stored d attempt =>
    cases call with
    | commitTransaction =>
      obtain ⟨rfl, -⟩ := of_decide_eq_true hg
      obtain ⟨row, -, hput⟩ := (hb.db hm).submitted rfl
      cases hput.symm.trans hrow'
      exact absurd hexpired' d.status.session_ne.2
    | _ => cases hn
  | _ => cases hg

/-- Who has the session after a step: what had it before, or the process that moved. -/
theorem handed_on {p : Phase → Bool} {key : String}
    (hm : Moved monitor examSystem c c' i call (.ok a) g g')
    (hlive : (c.world.redis.get key).isSome →
      (c'.world.redis.get key).isSome ∨ p g' = true)
    (hown : p g = true → (c'.world.redis.get key).isSome ∨ p g' = true)
    (h : (c.world.redis.get key).isSome ∨ key ∈ c.world.undelivered ∨
      ∃ j gj, monitor.phase c j = some gj ∧ p gj = true) :
    (c'.world.redis.get key).isSome ∨ key ∈ c'.world.undelivered ∨
      ∃ j gj, monitor.phase c' j = some gj ∧ p gj = true := by
  have hmine : (c'.world.redis.get key).isSome ∨ p g' = true →
      (c'.world.redis.get key).isSome ∨ key ∈ c'.world.undelivered ∨
        ∃ j gj, monitor.phase c' j = some gj ∧ p gj = true :=
    Or.imp_right fun hp => .inr ⟨i, g', hm.after, hp⟩
  rcases h with h | h | ⟨j, gj, hj, hp⟩
  · exact hmine (hlive h)
  · exact .inr (.inl ((Moved.outside hm).2.1 ▸ h))
  · by_cases he : j = i
    · subst he
      cases hj.symm.trans hm.before
      exact hmine (hown hp)
    · exact .inr (.inr ⟨j, gj, (hm.other j he).trans hj, hp⟩)

theorem Attended.move (h : Attended sessionId c) (hb : Base c) (hw : RedisOk c.world)
    (hm : Moved monitor examSystem c c' i call (.ok a) g g') : Attended sessionId c' := by
  have hdb := hb.db hm
  have hn := hm.next
  refine ⟨fun row' hrow' hactive' => ?_, fun row' hrow' hexpired' => ?_, fun j d hj hid userId => ?_⟩
  · obtain ⟨rfl, hrow⟩ := hdb.row hrow'
    rcases hrow.status_cases with ⟨row, hold, hs⟩ | ⟨code, rfl, -⟩ | ⟨s, hs⟩ | ⟨_, -, hs⟩
    · have hactive := hs.trans hactive'
      refine handed_on hm (fun hlive => .inl ?_)
        (fun hg => hasActive_move hm hg hold hactive hrow' hactive') (h.active row hold hactive)
      cases Moved.sessionKey hm row'.id with
      | same hkey => rwa [hkey]
      | start _ _ _ _ _ hkey => exact hkey
      | save _ _ _ _ hkey => exact hkey
      | delete d hid =>
        -- The session whose key is deleted is not ACTIVE any more.
        rcases (h.closed i d hm.before hid row.userId).2 row hold with hne | hne
        · exact absurd hactive hne
        · exact absurd rfl hne
    · cases call with
      | commitTransaction => cases hn; exact .inr (.inr ⟨i, _, hm.after, decide_eq_true rfl⟩)
      | _ => cases hn
    · exact absurd (hs.symm.trans hactive') s.session_ne.1
    · rw [hs] at hactive'; cases hactive'
  · obtain ⟨rfl, hrow⟩ := hdb.row hrow'
    rcases hrow.status_cases with ⟨row, hrow, hs⟩ | ⟨code, -, hs, -⟩ | ⟨s, hs⟩ | ⟨session, rfl, -⟩
    · have hexpired := hs.trans hexpired'
      refine handed_on hm (fun hlive => ?_)
        (fun hg => hasExpired_move hb hm hg hrow hexpired hrow' hexpired')
        (h.expired row hrow hexpired)
      generalize hr : (Except.ok a : Except Err (Resp call)) = r at hm
      cases Moved.graceKey hm hw row'.id with
      | same hkey => rw [hkey]; exact .inl hlive
      | opened snapshot hkey => rw [hkey]; exact .inl rfl
      | taken session answers =>
        obtain ⟨-, hid, -⟩ := hb.holds _ _ hm.before
        exact .inr (decide_eq_true ⟨hid, .inl rfl⟩)
    · rw [hs] at hexpired'; cases hexpired'
    · exact absurd (hs.symm.trans hexpired') s.session_ne.2
    · cases call with
      | testSessionUpdateStatus id status =>
        simp only [Monitor.advance, monitor_next, Phase.nextOk] at hn
        split at hn <;> cases hn
        exact .inr (.inr ⟨i, _, hm.after, decide_eq_true rfl⟩)
      | _ => cases hn
  · rcases hm.phase_cases hj with ⟨rfl, rfl⟩ | ⟨-, hj⟩
    · cases call with
      | release =>
        simp only [Monitor.advance, monitor_next, Phase.nextOk] at hn
        split at hn <;> cases hn
        exact hdb.shut (h.closed _ d hm.before hid userId)
      | commitTransaction =>
        obtain ⟨attempt, rfl⟩ : ∃ attempt, g = .stored d attempt := by
          cases g <;> cases hn
          exact ⟨_, rfl⟩
        obtain ⟨row, hrow, hput⟩ := hdb.submitted rfl
        refine ⟨hdb.issued_mono (hid ▸ hb.tables.issued _ _ hrow), fun row' hrow' => .inl ?_⟩
        rw [← hid] at hrow'
        cases hput.symm.trans hrow'
        exact d.status.session_ne.1
      | _ =>
        simp only [Monitor.advance, monitor_next, Phase.nextOk, Phase.read] at hn
        repeat' split at hn
        all_goals first | (cases hn; done) | skip
        all_goals
          cases hn
          rename_i hallows
          cases hallows
    · exact hdb.shut (h.closed j d hj hid userId)

/-- A key that expires leaves its message, and a message that is delivered leaves its handler. -/
theorem Attended.start (h : Attended sessionId c) (hlog : c.LogOk) {ts : List Task} {w : World}
    (hw : w.tables = c.world.tables)
    (hlive : ∀ key, (c.world.redis.get key).isSome →
      (w.redis.get key).isSome ∨ key ∈ w.undelivered)
    (htold : ∀ key, key ∈ c.world.undelivered → key ∈ w.undelivered ∨ ∀ t ∈ onMessage key, t ∈ ts) :
    Attended sessionId (c.start examSystem ts w) := by
  have hsessions : w.sessions = c.world.sessions := congrArg Tables.sessions hw
  have hand : ∀ {p : Phase → Bool} {key : String} {t : Task}, t ∈ onMessage key →
      p (Phase.start t) = true →
      ((c.world.redis.get key).isSome ∨ key ∈ c.world.undelivered ∨
        ∃ i g, monitor.phase c i = some g ∧ p g = true) →
      (w.redis.get key).isSome ∨ key ∈ w.undelivered ∨
        ∃ i g, monitor.phase (c.start examSystem ts w) i = some g ∧ p g = true := by
    intro p key t ht hp h
    rcases h with h | h | ⟨i, g, hi, hg⟩
    · exact (hlive key h).imp_right .inl
    · rcases htold key h with h | h
      · exact .inr (.inl h)
      · obtain ⟨i, hi⟩ := Monitor.phase_start_mem (M := monitor) (S := examSystem) hlog (h t ht) w
        exact .inr (.inr ⟨i, _, hi, hp⟩)
    · refine .inr (.inr ⟨i, g, ?_, hg⟩)
      rw [Monitor.phase_start_of_lt (Monitor.lt_of_phase hi)]
      exact hi
  refine ⟨fun row hrow hs => ?_, fun row hrow hs => ?_, fun i d hi hid => ?_⟩
  · rw [Config.start_world, hsessions] at hrow
    refine hand (t := .handleExpiry .session sessionId) ?_ (decide_eq_true rfl)
      (h.active row hrow hs)
    rw [onMessage_sessionKey]
    exact .head _
  · rw [Config.start_world, hsessions] at hrow
    refine hand (t := .handleExpiry .grace sessionId) ?_ (decide_eq_true rfl)
      (h.expired row hrow hs)
    rw [onMessage_graceKey]
    exact .head _
  · rw [Config.start_world, hw]
    rcases Monitor.phase_start_cases hlog hi with hi | ⟨-, t, -, he⟩
    · exact h.closed i d hi hid
    · cases t with
      | handleExpiry type => cases type <;> cases he
      | _ => cases he

theorem AllSucceed.answered {r : Except Err (Resp call)} {w : World}
    (hP : Reach.Allowed examSystem AllSucceed c i call r w) (hnext : c.next? i = some call) :
    ∃ a, r = .ok a := by
  cases hP with
  | run hx hP =>
    have hx : exec i call _ c.world = some (w, r) := hx
    simp only [AllSucceed, hnext, Option.all_some, hx] at hP
    cases r with
    | error e => cases hP
    | ok a => exact ⟨a, rfl⟩
  | fail _ _ hP => cases hP

theorem Reachable.attended (h : Reachable AllSucceed c) (sessionId : Id) :
    Attended sessionId c := by
  refine Reach.invariant monitor_sound (I := Attended sessionId) ?_ ?_ ?_ ?_ h
  · intro w hw
    refine ⟨fun row hrow => ?_, fun row hrow => ?_, fun i d hi => ?_⟩
    · simp [Config.initial, Table.get, hw.sessions] at hrow
    · simp [Config.initial, Table.get, hw.sessions] at hrow
    · rw [Monitor.phase_none (Nat.zero_le _)] at hi; cases hi
  · intro c t hr hI _ _
    exact hI.start (hr.logOk monitor_sound) rfl (fun _ h => .inl h) fun _ h => .inl h
  · intro c v w ts hr hI hP hv
    obtain ⟨hlive, htold⟩ := envStep_hands hv (by rintro key rfl; exact hP)
    exact hI.start (hr.logOk monitor_sound) (envStep_db hv).1 hlive htold
  · intro c c' i call r g g' hr hI hP hm
    obtain ⟨a, rfl⟩ := AllSucceed.answered hP hm.waits
    exact hI.move (Reachable.base hr) (Reachable.redisOk hr) hm

end

end LmsBackend.Exams
