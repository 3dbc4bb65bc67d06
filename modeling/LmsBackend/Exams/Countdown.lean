import LmsBackend.Exams.KeySteps
import LmsBackend.Exams.RedisSteps

/-!
# The countdown

`TestSessionService` by itself, with any calls of its methods at once. The TTL of
a session key is the countdown of the exam: `start` sets it, and nothing changes it.
-/

open Async Store

namespace LmsBackend.Exams

/-! ## The service -/

inductive SessionTask where
  | start (data : ExamSessionInfo) (ttlSeconds : Int)
  | autosave (sessionId : Id) (answers : Answers)
  | getSession (sessionId : Id)
  | deleteSession (sessionId : Id)
  | startGrace (sessionId : Id) (snapshot : Answers)
  | consumeGrace (sessionId : Id)
  | hasGrace (sessionId : Id)
  deriving DecidableEq, Repr

namespace SessionTask

/-- Nobody looks at what the methods return. -/
def prog : SessionTask → Promise Unit
  | start data ttlSeconds => TestSessionService.start data ttlSeconds
  | autosave sessionId answers => do
    let _ ← TestSessionService.autosave sessionId answers
  | getSession sessionId => do
    let _ ← TestSessionService.getSession sessionId
  | deleteSession sessionId => TestSessionService.deleteSession sessionId
  | startGrace sessionId snapshot => TestSessionService.startGrace sessionId snapshot
  | consumeGrace sessionId => do
    let _ ← TestSessionService.consumeGrace sessionId
  | hasGrace sessionId => do
    let _ ← TestSessionService.hasGrace sessionId

/-- The session whose `exam:session` key the method is for. -/
def session? : SessionTask → Option Id
  | start data _ => some data.sessionId
  | autosave sessionId _ | getSession sessionId | deleteSession sessionId => some sessionId
  | _ => none

/-- The session whose `exam:grace` key the method is for. -/
def grace? : SessionTask → Option Id
  | startGrace sessionId _ | consumeGrace sessionId | hasGrace sessionId => some sessionId
  | _ => none

/-- The session that the method starts. -/
def starts? : SessionTask → Option Id
  | start data _ => some data.sessionId
  | _ => none

end SessionTask

/-- Time passes, and Redis drops the keys that are due. -/
def sessionSystem [Bcrypt] : System World Call Resp Err Unit SessionTask Choice Nat where
  prog := SessionTask.prog
  client _ := true
  exec := exec
  reject := reject
  env ms w := some (w.tick ms, [])

abbrev SessionPool := Config World Call Resp Err Unit SessionTask

abbrev SessionLabel := Label SessionTask Choice Nat

/-- `start` is called once for a session. -/
def StartsOnce (c : SessionPool) : SessionLabel → Prop
  | .spawn (.start data _) => ∀ p ∈ c.procs, p.task.starts? ≠ some data.sessionId
  | _ => True

instance : ∀ c l, Decidable (StartsOnce c l) := fun c l => by
  match l with
  | .spawn t =>
    dsimp only [StartsOnce]
    cases t <;> infer_instance
  | .run _ _ | .fail _ | .env _ => exact .isTrue trivial

/-- No session has been started. -/
def Unstarted (w : World) : Prop := ∀ id, w.redis.get (sessionKey id) = none

/-! ## Phases -/

inductive SessionPhase where
  | setting (data : ExamSessionInfo) (ttlSeconds : Int)
  | loading (sessionId : Id) (answers : Answers)
  | storing (sessionId : Id) (answers : Answers) (existing : ExamSessionData)
  | erasing (sessionId : Id)
  | opening (sessionId : Id) (snapshot : Answers)
  | taking (sessionId : Id)
  | looking
  | ended
  deriving DecidableEq, Repr

namespace SessionPhase

def start : SessionTask → SessionPhase
  | .start data ttlSeconds => setting data ttlSeconds
  | .autosave sessionId answers => loading sessionId answers
  | .deleteSession sessionId => erasing sessionId
  | .startGrace sessionId snapshot => opening sessionId snapshot
  | .consumeGrace sessionId => taking sessionId
  | .getSession _ | .hasGrace _ => looking

def nextOk : SessionPhase → (c : Call) → Resp c → Option SessionPhase
  | setting data ttlSeconds, .redisSet key value ttlSeconds', _ =>
    if key = sessionKey data.sessionId ∧ value = .session { data with answers := [] } ∧
        ttlSeconds' = ttlSeconds then some ended
    else none
  | loading sessionId answers, .redisGet key, value? =>
    if key = sessionKey sessionId then
      some ((value?.bind Json.session?).elim ended (storing sessionId answers))
    else none
  | storing sessionId answers existing, .redisSetKeepTtlXx key value, _ =>
    if key = sessionKey sessionId ∧ value = .session { existing with answers := answers } then
      some ended
    else none
  | erasing sessionId, .redisDel key, _ => if key = sessionKey sessionId then some ended else none
  | opening sessionId snapshot, .redisSet key value _, _ =>
    if key = graceKey sessionId ∧ value = .grace snapshot then some ended else none
  | taking sessionId, .redisGetdel key, _ => if key = graceKey sessionId then some ended else none
  | looking, .redisGet _, _ | looking, .redisPttl _, _ => some looking
  | _, _, _ => none

/-- The method that the phase is of. -/
def Fits (t : SessionTask) : SessionPhase → Prop
  | setting data ttlSeconds => t = .start data ttlSeconds
  | loading sessionId answers | storing sessionId answers _ => t = .autosave sessionId answers
  | erasing sessionId => t = .deleteSession sessionId
  | opening sessionId snapshot => t = .startGrace sessionId snapshot
  | taking sessionId => t = .consumeGrace sessionId
  | looking | ended => True

end SessionPhase

def counting : Monitor Call Resp Err Unit SessionTask SessionPhase where
  start := SessionPhase.start
  next := SessionPhase.nextOk
  failed _ _ := .ended
  final _ _ := True

@[simp] theorem counting_next : counting.next = SessionPhase.nextOk := rfl

theorem counting_sound [Bcrypt] : counting.Sound sessionSystem := by
  have hkeep {c : Call} {g : SessionPhase} (h : ∀ a, ∃ g', g.nextOk c a = some g') :
      counting.wp (await c) g (fun _ _ => True) fun _ _ => True :=
    (counting.wp_await c).mpr ⟨fun a => (h a).imp fun _ hg => ⟨hg, trivial⟩, fun _ => trivial⟩
  intro t
  cases t with
  | start data ttlSeconds => exact hkeep fun _ => ⟨.ended, if_pos ⟨rfl, rfl, rfl⟩⟩
  | deleteSession sessionId => exact hkeep fun _ => ⟨.ended, if_pos rfl⟩
  | startGrace sessionId snapshot => exact hkeep fun _ => ⟨.ended, if_pos ⟨rfl, rfl⟩⟩
  | autosave sessionId answers =>
    refine (counting.wp_bind _).mpr ((counting.wp_bind _).mpr ?_)
    refine (counting.wp_await _).mpr ⟨fun value? => ⟨_, if_pos rfl, ?_⟩, fun _ => trivial⟩
    rcases value?.bind Json.session? with _ | existing
    · trivial
    · exact hkeep fun _ => ⟨.ended, if_pos ⟨rfl, rfl⟩⟩
  | getSession sessionId =>
    refine (counting.wp_bind _).mpr ((counting.wp_bind _).mpr ?_)
    refine (counting.wp_await _).mpr ⟨fun _ => ⟨.looking, rfl, ?_⟩, fun _ => trivial⟩
    refine (counting.wp_bind _).mpr ?_
    exact hkeep fun _ => ⟨.looking, rfl⟩
  | consumeGrace sessionId =>
    refine (counting.wp_bind _).mpr ((counting.wp_bind _).mpr ?_)
    exact hkeep fun _ => ⟨.ended, if_pos rfl⟩
  | hasGrace sessionId =>
    refine (counting.wp_bind _).mpr ((counting.wp_bind _).mpr ?_)
    exact hkeep fun _ => ⟨.looking, rfl⟩

/-! ## Steps -/

variable {i : Nat} {w w' : World} {g g' : SessionPhase} {call : Call} {r : Except Err (Resp call)}

theorem SessionPhase.fits_next {t : SessionTask} (h : g.Fits t)
    (hn : counting.advance g call r = some g') : g'.Fits t := by
  rcases r with e | a
  · cases hn
    trivial
  · simp only [Monitor.advance, counting_next] at hn
    unfold SessionPhase.nextOk at hn
    split at hn
    · obtain ⟨_, ⟨⟩⟩ := Option.ite_none_right_eq_some.mp hn
      trivial
    · rename_i value?
      obtain ⟨_, ⟨⟩⟩ := Option.ite_none_right_eq_some.mp hn
      rcases value?.bind Json.session? with _ | existing
      · trivial
      · exact h
    · obtain ⟨_, ⟨⟩⟩ := Option.ite_none_right_eq_some.mp hn
      trivial
    · obtain ⟨_, ⟨⟩⟩ := Option.ite_none_right_eq_some.mp hn
      trivial
    · obtain ⟨_, ⟨⟩⟩ := Option.ite_none_right_eq_some.mp hn
      trivial
    · obtain ⟨_, ⟨⟩⟩ := Option.ite_none_right_eq_some.mp hn
      trivial
    · cases hn
      trivial
    · cases hn
      trivial
    · cases hn

/-- What a command does to Redis. -/
inductive CommandStep (w w' : World) :
    SessionPhase → SessionPhase → (c : Call) → Except Err (Resp c) → Prop where
  /-- A command that only reads, or has failed. -/
  | same {before after c r} (h : w'.redis = w.redis)
      (hover : ∀ sessionId answers existing, after ≠ .storing sessionId answers existing) :
      CommandStep w w' before after c r
  | load {sessionId answers existing} {c : Call} {r} (h : w'.redis = w.redis)
      (hlive : (w.redis.get (sessionKey sessionId)).map (·.value) = some (.session existing)) :
      CommandStep w w' (.loading sessionId answers) (.storing sessionId answers existing) c r
  | set {data ttlSeconds} (h : w'.redis = w.redis.set (sessionKey data.sessionId)
      (.session { data with answers := [] }) (w.now + ttlSeconds * 1000)) :
      CommandStep w w' (.setting data ttlSeconds) .ended
        (.redisSet (sessionKey data.sessionId) (.session { data with answers := [] }) ttlSeconds)
        (.ok ())
  | store {sessionId answers existing c r} (h : w'.redis =
      w.redis.setKeepTtlXx (sessionKey sessionId) (.session { existing with answers := answers })) :
      CommandStep w w' (.storing sessionId answers existing) .ended c r
  | erase {sessionId c r} (h : w'.redis = w.redis.erase (sessionKey sessionId)) :
      CommandStep w w' (.erasing sessionId) .ended c r
  | opened {sessionId snapshot d c r}
      (h : w'.redis = w.redis.set (graceKey sessionId) (.grace snapshot) d) :
      CommandStep w w' (.opening sessionId snapshot) .ended c r
  | taken {sessionId c r} (h : w'.redis = w.redis.erase (graceKey sessionId)) :
      CommandStep w w' (.taking sessionId) .ended c r

theorem command_step [Bcrypt] (h : Answered sessionSystem i call w r w')
    (hn : counting.advance g call r = some g') :
    w'.now = w.now ∧ CommandStep w w' g g' call r := by
  have hended : ∀ sessionId answers existing,
      SessionPhase.ended ≠ .storing sessionId answers existing := by
    intro sessionId answers existing h
    cases h
  have hlooking : ∀ sessionId answers existing,
      SessionPhase.looking ≠ .storing sessionId answers existing := by
    intro sessionId answers existing h
    cases h
  rcases r with e | a
  · cases hn
    have hanswered : Answered examSystem i call w (.error e) w' := by
      cases h with
      | exec hx => exact .exec hx
      | reject hx => exact .reject hx
    rcases error_world hanswered with ⟨rfl, -⟩ | rfl
    · exact ⟨rfl, .same rfl hended⟩
    · exact ⟨rfl, .same rfl hended⟩
  · simp only [Monitor.advance, counting_next] at hn
    obtain ⟨hx⟩ := h
    replace hx : exec i call _ w = some (w', .ok a) := hx
    unfold SessionPhase.nextOk at hn
    split at hn
    · obtain ⟨⟨rfl, rfl, rfl⟩, ⟨⟩⟩ := Option.ite_none_right_eq_some.mp hn
      simp only [exec] at hx
      split at hx
      · cases hx
      · cases hx
        exact ⟨rfl, .set rfl⟩
    · obtain ⟨rfl, ⟨⟩⟩ := Option.ite_none_right_eq_some.mp hn
      cases hx
      refine ⟨rfl, ?_⟩
      rcases hlive : (w.redis.get (sessionKey _)).map (·.value) with _ | existing | snapshot
      · rw [hlive]
        exact .same rfl hended
      · rw [hlive]
        exact .load rfl hlive
      · rw [hlive]
        exact .same rfl hended
    · obtain ⟨⟨rfl, rfl⟩, ⟨⟩⟩ := Option.ite_none_right_eq_some.mp hn
      cases hx
      exact ⟨rfl, .store rfl⟩
    · obtain ⟨rfl, ⟨⟩⟩ := Option.ite_none_right_eq_some.mp hn
      cases hx
      exact ⟨rfl, .erase rfl⟩
    · obtain ⟨⟨rfl, rfl⟩, ⟨⟩⟩ := Option.ite_none_right_eq_some.mp hn
      simp only [exec] at hx
      split at hx
      · cases hx
      · cases hx
        exact ⟨rfl, .opened rfl⟩
    · obtain ⟨rfl, ⟨⟩⟩ := Option.ite_none_right_eq_some.mp hn
      cases hx
      exact ⟨rfl, .taken rfl⟩
    · cases hx
      cases hn
      exact ⟨rfl, .same rfl hlooking⟩
    · cases hx
      cases hn
      exact ⟨rfl, .same rfl hlooking⟩
    · cases hn

/-! ## What the keys hold -/

/-- What `start` has set for the session, with the answers of an autosave or none. -/
def SetByStart (c : SessionPool) (id : Id) (it : Item String Json) : Prop :=
  ∃ i data ttlSeconds before after, c.task? i = some (.start data ttlSeconds) ∧
    data.sessionId = id ∧
    ⟨i, .redisSet (sessionKey id) (.session { data with answers := [] }) ttlSeconds, .ok (), before,
      after⟩ ∈ c.log ∧
    it.deadline = some (before.now + ttlSeconds * 1000) ∧
    ∃ answers, it.value = .session { data with answers := answers } ∧
      (answers = [] ∨ ∃ j, c.task? j = some (.autosave id answers))

/-- The `start` of the session is over. -/
def HasStarted (c : SessionPool) (id : Id) : Prop :=
  ∃ i data ttlSeconds, c.task? i = some (.start data ttlSeconds) ∧ data.sessionId = id ∧
    counting.phase c i = some .ended

structure Countdown (c : SessionPool) : Prop where
  live : ∀ id it, c.world.redis.get (sessionKey id) = some it → SetByStart c id it ∧ HasStarted c id
  /-- What an autosave has read is of the session. -/
  read : ∀ i id answers existing, counting.phase c i = some (.storing id answers existing) →
    ∃ j ttlSeconds, c.task? j = some (.start existing.toExamSessionInfo ttlSeconds) ∧
      existing.sessionId = id
  once : ∀ i j data ttlSeconds data' ttlSeconds', c.task? i = some (.start data ttlSeconds) →
    c.task? j = some (.start data' ttlSeconds') → data.sessionId = data'.sessionId → i = j

section

variable {c c' : SessionPool} {id : Id} {it : Item String Json}

theorem SetByStart.mono (h : SetByStart c id it)
    (htask : ∀ j t, c.task? j = some t → c'.task? j = some t)
    (hlog : ∀ e ∈ c.log, e ∈ c'.log) : SetByStart c' id it := by
  obtain ⟨i, data, ttlSeconds, before, after, hstart, hid, hmem, hdeadline, answers, hvalue,
    hanswers⟩ := h
  exact ⟨i, data, ttlSeconds, before, after, htask _ _ hstart, hid, hlog _ hmem, hdeadline, answers,
    hvalue, hanswers.imp_right fun ⟨j, hj⟩ => ⟨j, htask _ _ hj⟩⟩

variable [Bcrypt]

theorem fits_of_phase (hm : Moved counting sessionSystem c c' i call r g g') {t : SessionTask}
    (ht : c.task? i = some t) : g.Fits t := by
  refine Monitor.phase_always ht hm.before ?_ fun _ _ _ _ hg hn => SessionPhase.fits_next hg hn
  cases t <;> first | rfl | trivial

theorem exists_task (hm : Moved counting sessionSystem c c' i call r g g') :
    ∃ t, c.task? i = some t ∧ g.Fits t := by
  obtain ⟨t, ht⟩ := Monitor.task_of_phase hm.before
  exact ⟨t, ht, fits_of_phase hm ht⟩

/-- What has ended has ended. -/
theorem HasStarted.move (h : HasStarted c id)
    (hm : Moved counting sessionSystem c c' i call r g g') : HasStarted c' id := by
  obtain ⟨j, data, ttlSeconds, htask, hid, hphase⟩ := h
  refine ⟨j, data, ttlSeconds, (hm.task j).trans htask, hid, ?_⟩
  by_cases hj : j = i
  · subst hj
    cases hphase.symm.trans hm.before
    have hnext := hm.next
    rcases r with e | a
    · cases hnext
      exact hm.after
    · cases hnext
  · rw [hm.other j hj, hphase]

theorem HasStarted.start (h : HasStarted c id) {ts : List SessionTask} {w : World} :
    HasStarted (c.start sessionSystem ts w) id := by
  obtain ⟨j, data, ttlSeconds, htask, hid, hphase⟩ := h
  refine ⟨j, data, ttlSeconds, c.task?_start sessionSystem htask, hid, ?_⟩
  rw [Monitor.phase_start_of_lt (Monitor.lt_of_phase hphase), hphase]

theorem Countdown.move (hI : Countdown c) (hm : Moved counting sessionSystem c c' i call r g g') :
    Countdown c' := by
  have hkeep {id : Id} {it : Item String Json} (h : c.world.redis.get (sessionKey id) = some it) :
      SetByStart c' id it ∧ HasStarted c' id := by
    obtain ⟨hset, hstarted⟩ := hI.live id it h
    refine ⟨hset.mono (fun j t ht => (hm.task j).trans ht) fun e he => ?_, hstarted.move hm⟩
    rw [hm.log]
    exact List.mem_append_left _ he
  obtain ⟨-, hstep⟩ := command_step hm.answers hm.next
  have hread : ∀ j id answers existing, counting.phase c j = some (.storing id answers existing) →
      ∃ j ttlSeconds, c'.task? j = some (.start existing.toExamSessionInfo ttlSeconds) ∧
        existing.sessionId = id := by
    intro j id answers existing hj
    obtain ⟨k, ttlSeconds, hk, hid⟩ := hI.read j id answers existing hj
    exact ⟨k, ttlSeconds, (hm.task k).trans hk, hid⟩
  have honce : ∀ j k data ttlSeconds data' ttlSeconds', c'.task? j = some (.start data ttlSeconds) →
      c'.task? k = some (.start data' ttlSeconds') → data.sessionId = data'.sessionId → j = k := by
    intro j k data ttlSeconds data' ttlSeconds' hj hk
    rw [hm.task] at hj hk
    exact hI.once j k data ttlSeconds data' ttlSeconds' hj hk
  refine ⟨fun id it hit => ?_, fun j id answers existing hj => ?_, honce⟩
  · obtain ⟨t, htask, hfits⟩ := exists_task hm
    cases hstep with
    | same h => exact hkeep (h ▸ hit)
    | load h => exact hkeep (h ▸ hit)
    | @set data ttlSeconds h =>
      obtain rfl : t = .start data ttlSeconds := hfits
      rw [h, TtlStore.get_set] at hit
      split at hit
      · cases hit
        obtain rfl : data.sessionId = id := sessionKey_inj.mp ‹_›
        have htask := (hm.task i).trans htask
        refine ⟨⟨i, data, ttlSeconds, c.world, c'.world, htask, rfl, ?_, rfl, [], rfl, .inl rfl⟩,
          i, data, ttlSeconds, htask, rfl, hm.after⟩
        rw [hm.log]
        exact List.mem_append_right _ List.mem_cons_self
      · exact hkeep hit
    | @store sessionId answers existing _ _ h =>
      obtain rfl : t = .autosave sessionId answers := hfits
      rw [h, TtlStore.get_setKeepTtlXx] at hit
      split at hit
      · obtain rfl : sessionId = id := sessionKey_inj.mp ‹_›
        obtain ⟨it, hold, rfl⟩ := Option.map_eq_some_iff.mp hit
        obtain ⟨hset, hstarted⟩ := hkeep hold
        refine ⟨?_, hstarted⟩
        obtain ⟨j, data, ttlSeconds, before, after, hj, hid, hmem, hdeadline, -⟩ := hset
        obtain ⟨k, ttlSeconds', hk, hid'⟩ := hread i sessionId answers existing hm.before
        -- There is one `start` for the session, so what was read is what it has set.
        obtain rfl : j = k := honce j k _ _ _ _ hj hk (hid.trans hid'.symm)
        cases hj.symm.trans hk
        exact ⟨j, _, ttlSeconds, before, after, hj, hid, hmem, hdeadline, answers, rfl,
          .inr ⟨i, (hm.task i).trans htask⟩⟩
      · exact hkeep hit
    | erase h =>
      rw [h, Table.get_erase] at hit
      split at hit
      · cases hit
      · exact hkeep hit
    | opened h =>
      rw [h, TtlStore.get_set, if_neg (sessionKey_ne_graceKey _ _).symm] at hit
      exact hkeep hit
    | taken h =>
      rw [h, Table.get_erase, if_neg (sessionKey_ne_graceKey _ _).symm] at hit
      exact hkeep hit
  · rcases hm.phase_cases hj with ⟨rfl, hg'⟩ | ⟨-, hj⟩
    · cases hg'
      cases hstep with
      | same _ hover => exact absurd rfl (hover id answers existing)
      | load h hlive =>
        obtain ⟨it, hit, hvalue⟩ := Option.map_eq_some_iff.mp hlive
        obtain ⟨⟨k, data, ttlSeconds, _, _, hk, hid, -, -, answers', hvalue', -⟩, -⟩ := hkeep hit
        cases hvalue.symm.trans hvalue'
        exact ⟨k, ttlSeconds, hk, hid⟩
    · exact hread j id answers existing hj

/-- New tasks, none of which starts a session again. -/
theorem Countdown.start (hI : Countdown c) (hlog : c.LogOk) {ts : List SessionTask} {w : World}
    (hredis : ∀ id it, w.redis.get (sessionKey id) = some it →
      c.world.redis.get (sessionKey id) = some it)
    (hone : ts.length ≤ 1)
    (hnew : ∀ data ttlSeconds, .start data ttlSeconds ∈ ts → ∀ j data' ttlSeconds',
      c.task? j = some (.start data' ttlSeconds') → data'.sessionId ≠ data.sessionId) :
    Countdown (c.start sessionSystem ts w) := by
  have htask : ∀ j t, c.task? j = some t → (c.start sessionSystem ts w).task? j = some t :=
    fun j t => c.task?_start sessionSystem
  have hcases : ∀ j data ttlSeconds,
      (c.start sessionSystem ts w).task? j = some (.start data ttlSeconds) →
      c.task? j = some (.start data ttlSeconds) ∨
        c.procs.length ≤ j ∧ j < c.procs.length + ts.length ∧ .start data ttlSeconds ∈ ts := by
    intro j data ttlSeconds hj
    obtain ⟨p, hp, hstart⟩ := Option.map_eq_some_iff.mp hj
    obtain ⟨hlt, -⟩ := List.getElem?_eq_some_iff.mp hp
    rcases c.start_procs_cases sessionSystem hp with hp | ⟨hge, t, ht, rfl⟩
    · exact .inl (Option.map_eq_some_iff.mpr ⟨p, hp, hstart⟩)
    · cases hstart
      refine .inr ⟨hge, ?_, ht⟩
      simpa [Config.start] using hlt
  refine ⟨fun id it hit => ?_, fun j id answers existing hj => ?_, ?_⟩
  · obtain ⟨hset, hstarted⟩ := hI.live id it (hredis id it hit)
    exact ⟨hset.mono htask fun _ he => he, hstarted.start⟩
  · rcases Monitor.phase_start_cases hlog hj with hj | ⟨-, t, -, hg⟩
    · obtain ⟨k, ttlSeconds, hk, hid⟩ := hI.read j id answers existing hj
      exact ⟨k, ttlSeconds, htask _ _ hk, hid⟩
    · cases t <;> cases hg
  · intro j k data ttlSeconds data' ttlSeconds' hj hk hsame
    rcases hcases j _ _ hj with hj | ⟨hgej, hltj, hmemj⟩
    · rcases hcases k _ _ hk with hk | ⟨-, -, hmemk⟩
      · exact hI.once j k _ _ _ _ hj hk hsame
      · exact absurd hsame (hnew _ _ hmemk j _ _ hj)
    · rcases hcases k _ _ hk with hk | ⟨hgek, hltk, -⟩
      · exact absurd hsame.symm (hnew _ _ hmemj k _ _ hk)
      · omega

theorem counts (h : Reach sessionSystem Unstarted StartsOnce c) : Countdown c := by
  refine Reach.invariant counting_sound ?_ ?_ ?_ ?_ h
  · intro w hw
    refine ⟨fun id it hit => ?_, fun i id answers existing hi => ?_, fun i j _ _ _ _ hi => ?_⟩
    · cases (hw id).symm.trans hit
    · cases (Monitor.phase_none (Nat.zero_le _)).symm.trans hi
    · cases hi
  · intro c t hr hI hP _
    refine hI.start (hr.logOk counting_sound) (fun _ _ h => h) (Nat.le_refl 1) ?_
    intro data ttlSeconds hmem j data' ttlSeconds' hj
    cases List.mem_singleton.mp hmem
    obtain ⟨p, hp, htask⟩ := Option.map_eq_some_iff.mp hj
    have hfirst : p.task.starts? ≠ some data.sessionId := hP p (List.mem_of_getElem? hp)
    rw [htask] at hfirst
    exact fun hsame => hfirst (congrArg some hsame)
  · intro c ms w ts hr hI _ henv
    cases henv
    exact hI.start (hr.logOk counting_sound)
      (fun _ _ h => (TtlStore.get_of_get_sweep h).1) (Nat.zero_le 1) nofun
  · intro c c' i call r g g' _ hI _ hm
    exact hI.move hm

/-! ## A key that is gone -/

/-- The key is not there, and nothing will set it. -/
structure Gone (c : SessionPool) (id : Id) : Prop where
  gone : c.world.redis.get (sessionKey id) = none
  started : HasStarted c id

theorem Gone.move (h : Gone c id) (hI : Countdown c)
    (hm : Moved counting sessionSystem c c' i call r g g') : Gone c' id := by
  refine ⟨?_, h.started.move hm⟩
  obtain ⟨t, htask, hfits⟩ := exists_task hm
  obtain ⟨-, hstep⟩ := command_step hm.answers hm.next
  cases hstep with
  | same hredis => rw [hredis, h.gone]
  | load hredis => rw [hredis, h.gone]
  | @set data ttlSeconds hredis =>
    obtain rfl : t = .start data ttlSeconds := hfits
    rw [hredis, TtlStore.get_set, h.gone]
    refine if_neg fun hkey => ?_
    -- The only `start` of the session is over, and this one is not.
    obtain ⟨j, data', ttlSeconds', hj, hid, hphase⟩ := h.started
    obtain rfl : i = j := hI.once i j _ _ _ _ htask hj ((sessionKey_inj.mp hkey).trans hid.symm)
    cases hphase.symm.trans hm.before
  | store hredis =>
    rw [hredis, TtlStore.get_setKeepTtlXx, h.gone]
    exact ite_self _
  | erase hredis =>
    rw [hredis, Table.get_erase, h.gone]
    exact ite_self _
  | opened hredis =>
    rw [hredis, TtlStore.get_set, if_neg (sessionKey_ne_graceKey _ _).symm, h.gone]
  | taken hredis =>
    rw [hredis, Table.get_erase, h.gone]
    exact ite_self _

theorem Gone.step (h : Gone c id) (hr : Reach sessionSystem Unstarted StartsOnce c)
    {l : SessionLabel} (hl : Step sessionSystem c l c') : Gone c' id := by
  refine Reach.after_step counting_sound hr (Q := anyStep) trivial hl (I := fun c => Gone c id)
    ?_ ?_ ?_
  · intro t _ _
    exact ⟨h.gone, h.started.start⟩
  · intro ms w ts _ henv
    cases henv
    refine ⟨?_, h.started.start⟩
    rw [Config.start_world, World.tick, TtlStore.get_sweep, h.gone]
    rfl
  · intro c' i call r g g' _ hm
    exact h.move (counts hr) hm

theorem HasStarted.step (h : HasStarted c id) (hr : Reach sessionSystem Unstarted StartsOnce c)
    {l : SessionLabel} (hl : Step sessionSystem c l c') : HasStarted c' id :=
  Reach.after_step counting_sound hr (Q := anyStep) trivial hl (I := fun c => HasStarted c id)
    (fun _ _ _ => h.start) (fun _ _ _ _ _ => h.start) fun _ _ _ _ _ _ _ hm => h.move hm

theorem HasStarted.steps (h : HasStarted c id) (hr : Reach sessionSystem Unstarted StartsOnce c)
    (hs : Steps sessionSystem StartsOnce c c') : HasStarted c' id := by
  induction hs with
  | refl => exact h
  | tail hs hl ih =>
    obtain ⟨l, -, hl⟩ := hl
    exact ih.step (hr.steps hs) hl

theorem Gone.steps (h : Gone c id) (hr : Reach sessionSystem Unstarted StartsOnce c)
    (hs : Steps sessionSystem StartsOnce c c') : Gone c' id := by
  induction hs with
  | refl => exact h
  | tail hs hl ih =>
    obtain ⟨l, -, hl⟩ := hl
    exact ih.step (hr.steps hs) hl

/-! ## Keys of others -/

/-- Only the keys of the method's session, of the method's kind, may have changed. -/
structure OwnKeys (t : SessionTask) (before after : Redis) : Prop where
  session : ∀ id, t.session? ≠ some id → after.get (sessionKey id) = before.get (sessionKey id)
  grace : ∀ id, t.grace? ≠ some id → after.get (graceKey id) = before.get (graceKey id)
  other : ∀ key, (∀ id, key ≠ sessionKey id ∧ key ≠ graceKey id) → after.get key = before.get key

omit [Bcrypt] in
theorem OwnKeys.ofSession {t : SessionTask} {before after : Redis} (ht : t.session? = some id)
    (h : ∀ key, sessionKey id ≠ key → after.get key = before.get key) : OwnKeys t before after := by
  refine ⟨fun id' hid' => h _ fun hkey => ?_, fun id' _ => h _ (sessionKey_ne_graceKey id id'),
    fun key hkey => h _ (hkey id).1.symm⟩
  exact hid' (ht.trans (congrArg some (sessionKey_inj.mp hkey)))

omit [Bcrypt] in
theorem OwnKeys.ofGrace {t : SessionTask} {before after : Redis} (ht : t.grace? = some id)
    (h : ∀ key, graceKey id ≠ key → after.get key = before.get key) : OwnKeys t before after := by
  refine ⟨fun id' _ => h _ (sessionKey_ne_graceKey id' id).symm, fun id' hid' => h _ fun hkey => ?_,
    fun key hkey => h _ (hkey id).2.symm⟩
  exact hid' (ht.trans (congrArg some (graceKey_inj.mp hkey)))

omit [Bcrypt] in
theorem ownKeys_step {t : SessionTask} (hfits : g.Fits t) (h : CommandStep w w' g g' call r) :
    OwnKeys t w.redis w'.redis := by
  cases h with
  | same h => exact ⟨fun _ _ => by rw [h], fun _ _ => by rw [h], fun _ _ => by rw [h]⟩
  | load h => exact ⟨fun _ _ => by rw [h], fun _ _ => by rw [h], fun _ _ => by rw [h]⟩
  | @set data ttlSeconds h =>
    obtain rfl : t = .start data ttlSeconds := hfits
    refine .ofSession rfl fun key hkey => ?_
    rw [h, TtlStore.get_set, if_neg hkey]
  | @store sessionId answers existing _ _ h =>
    obtain rfl : t = .autosave sessionId answers := hfits
    refine .ofSession rfl fun key hkey => ?_
    rw [h, TtlStore.get_setKeepTtlXx, if_neg hkey]
  | @erase sessionId _ _ h =>
    obtain rfl : t = .deleteSession sessionId := hfits
    refine .ofSession rfl fun key hkey => ?_
    rw [h, Table.get_erase, if_neg hkey]
  | @opened sessionId snapshot _ _ _ h =>
    obtain rfl : t = .startGrace sessionId snapshot := hfits
    refine .ofGrace rfl fun key hkey => ?_
    rw [h, TtlStore.get_set, if_neg hkey]
  | @taken sessionId _ _ h =>
    obtain rfl : t = .consumeGrace sessionId := hfits
    refine .ofGrace rfl fun key hkey => ?_
    rw [h, Table.get_erase, if_neg hkey]

theorem ownKeys_of_answered {t : SessionTask} {k : Except Err (Resp call) → Prog Call Resp Err Unit}
    {p : Process World Call Resp Err Unit SessionTask}
    (hr : Reach sessionSystem Unstarted StartsOnce c) (ht : c.task? i = some t)
    (hp : c.procs[i]? = some p) (hk : p.prog = .call call k)
    (h : Answered sessionSystem i call c.world r w') : OwnKeys t c.world.redis w'.redis := by
  obtain ⟨g, g', hm, -⟩ := (hr.conforms counting_sound).moved hp hk h
  exact ownKeys_step (fits_of_phase hm ht) (command_step hm.answers hm.next).2

/-- The countdown of a session is what `start` has made it, and no key comes back. -/
theorem countdown_immutable (hr : Reach sessionSystem Unstarted StartsOnce c) :
    (∀ id it, c.world.redis.get (sessionKey id) = some it → SetByStart c id it) ∧
    (∀ id c₁ c₂, (c.world.redis.get (sessionKey id)).isSome = true →
      Steps sessionSystem StartsOnce c c₁ → c₁.world.redis.get (sessionKey id) = none →
      Steps sessionSystem StartsOnce c₁ c₂ → c₂.world.redis.get (sessionKey id) = none) ∧
    ∀ i t l c', c.task? i = some t → (l = .fail i ∨ ∃ x, l = .run i x) →
      Step sessionSystem c l c' → OwnKeys t c.world.redis c'.world.redis := by
  refine ⟨fun id it hit => ((counts hr).live id it hit).1, ?_, ?_⟩
  · intro id c₁ c₂ hlive h₁ hgone h₂
    obtain ⟨it, hit⟩ := Option.isSome_iff_exists.mp hlive
    have hstarted := ((counts hr).live id it hit).2.steps hr h₁
    exact (Gone.steps ⟨hgone, hstarted⟩ (hr.steps h₁) h₂).gone
  · rintro i t l c' ht (rfl | ⟨x, rfl⟩) hl
    · cases hl with
      | fail hp hk h => exact ownKeys_of_answered hr ht hp hk (.reject h)
    · cases hl with
      | run hp hk h => exact ownKeys_of_answered hr ht hp hk (.exec h)

end

/-! ### A session that times out -/

/-- Nothing is there. -/
def midnight : World where
  now := 0
  exams := []
  codes := .empty
  sessions := .empty
  attempts := []
  txns := .empty
  issued := []
  redis := .empty
  undelivered := []
  delivered := []

/-- An exam of a minute, with one autosave. -/
def oneMinute : List SessionLabel := [.spawn (.start ⟨"s", "u", "e", "c", 0⟩ 60), .run 0 "",
  .spawn (.autosave "s" [("q", "o")]), .run 1 "", .run 1 ""]

theorem countdown_immutable_oneMinute : ∃ c c₁ it,
    Reach (@sessionSystem plainBcrypt) Unstarted StartsOnce c ∧
    c.world.redis.get (sessionKey "s") = some it ∧ SetByStart c "s" it ∧
    Steps (@sessionSystem plainBcrypt) StartsOnce c c₁ ∧
    c₁.world.redis.get (sessionKey "s") = none ∧
    ∀ c₂, Steps (@sessionSystem plainBcrypt) StartsOnce c₁ c₂ →
      c₂.world.redis.get (sessionKey "s") = none := by
  have hrun : (runIf (@sessionSystem plainBcrypt) StartsOnce oneMinute (.initial midnight)).any
      (fun c => (c.world.redis.get (sessionKey "s")).isSome &&
        (runIf (@sessionSystem plainBcrypt) StartsOnce [.env 60000] c).any fun c₁ =>
          (c₁.world.redis.get (sessionKey "s")).isNone) = true := by
    decide
  obtain ⟨c, hc, hrest⟩ := (Option.any_eq_true _ _).mp hrun
  obtain ⟨hlive, hrest⟩ := Bool.and_eq_true_iff.mp hrest
  obtain ⟨c₁, hc₁, hgone⟩ := (Option.any_eq_true _ _).mp hrest
  have hr : Reach (@sessionSystem plainBcrypt) Unstarted StartsOnce c :=
    runIf_reach (.init fun _ => rfl) hc
  have hsteps : Steps (@sessionSystem plainBcrypt) StartsOnce c c₁ := runIf_steps hc₁
  have hnone := Option.isNone_iff_eq_none.mp hgone
  obtain ⟨hset, hback, -⟩ := @countdown_immutable c plainBcrypt hr
  obtain ⟨it, hit⟩ := Option.isSome_iff_exists.mp hlive
  exact ⟨c, c₁, it, hr, hit, hset "s" it hit, hsteps, hnone,
    fun c₂ h₂ => hback "s" c₁ c₂ hlive hsteps hnone h₂⟩

end LmsBackend.Exams
