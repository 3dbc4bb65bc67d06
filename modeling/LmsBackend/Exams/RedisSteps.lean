import LmsBackend.Exams.Base

/-!
# What a step does to Redis

The keys of a session, and the five ways in which a step changes them.
-/

open Async Store

namespace LmsBackend.Exams

/-! ## Keys -/

theorem sessionKey_inj {a b : Id} : sessionKey a = sessionKey b ↔ a = b := by
  simp [sessionKey]

theorem graceKey_inj {a b : Id} : graceKey a = graceKey b ↔ a = b := by
  simp [graceKey]

theorem sessionKey_ne_graceKey (a b : Id) : sessionKey a ≠ graceKey b := by
  intro h
  have h := congrArg String.toList h
  simp [sessionKey, graceKey, examSessionPrefix, examGracePrefix] at h

theorem stripPrefix_append (p s : String) : stripPrefix p (p ++ s) = some s := by
  simp [stripPrefix]

/-- The bridge starts the handler of the session that the key is of. -/
theorem onMessage_sessionKey (sessionId : Id) :
    onMessage (sessionKey sessionId) = [.handleExpiry .session sessionId] := by
  simp [onMessage, sessionKey, stripPrefix_append]

theorem onMessage_graceKey (sessionId : Id) :
    onMessage (graceKey sessionId) = [.handleExpiry .grace sessionId] := by
  have hsession : stripPrefix examSessionPrefix (graceKey sessionId) = none := by
    simp [stripPrefix, graceKey, examSessionPrefix, examGracePrefix]
  simp only [onMessage, hsession]
  simp [graceKey, stripPrefix_append]

theorem eq_append_of_stripPrefix {p key s : String} (h : stripPrefix p key = some s) :
    key = p ++ s := by
  unfold stripPrefix at h
  split at h
  · rename_i hp
    obtain ⟨t, ht⟩ := List.isPrefixOf_iff_prefix.mp hp
    cases h
    apply String.toList_injective
    rw [String.toList_append, String.toList_ofList, ← ht, List.drop_left]
  · cases h

/-- The bridge starts a handler only for a key of its session. -/
theorem key_of_onMessage {key : String} {t : Task} (h : t ∈ onMessage key) :
    (∃ id, t = .handleExpiry .session id ∧ key = sessionKey id) ∨
      ∃ id, t = .handleExpiry .grace id ∧ key = graceKey id := by
  unfold onMessage at h
  split at h
  · rename_i id hid
    exact .inl ⟨id, List.mem_singleton.mp h, eq_append_of_stripPrefix hid⟩
  · split at h
    · rename_i id hid
      exact .inr ⟨id, List.mem_singleton.mp h, eq_append_of_stripPrefix hid⟩
    · cases h

/-! ## Steps -/

/-- What no statement of the database touches. -/
def World.outside (w : World) : Time × Redis × List String × List String :=
  (w.now, w.redis, w.undelivered, w.delivered)

/-- Only these four commands write to Redis. -/
def Call.writesRedis : Call → Bool
  | .redisSet _ _ _ | .redisSetKeepTtlXx _ _ | .redisGetdel _ | .redisDel _ => true
  | _ => false

/-- What the move of a process does to Redis. -/
inductive RedisStep (w w' : World) :
    Phase → Phase → (c : Call) → Except Err (Resp c) → Prop where
  | same {g g' c r} (h : w'.redis = w.redis) (hr : c.writesRedis = true → ∃ e, r = .error e) :
      RedisStep w w' g g' c r
  | start (code : Id) (session : TestSession) (data : ExamSessionData) (ttlSeconds : Int)
      (hanswers : data.answers = []) (httl : 0 < ttlSeconds)
      (h : w'.redis =
        w.redis.set (sessionKey session.id) (.session data) (w.now + ttlSeconds * 1000)) :
      RedisStep w w' (.created code session) .quiet
        (.redisSet (sessionKey session.id) (.session data) ttlSeconds) (.ok ())
  | save (sessionId : Id) (session : TestSession) (answers : Answers) (data : ExamSessionData)
      (h : w'.redis = w.redis.setKeepTtlXx (sessionKey sessionId)
        (.session { data with answers := answers })) :
      RedisStep w w' (.saveSet sessionId session answers data)
        (if (w.redis.get (sessionKey sessionId)).isSome then .saveMirror sessionId session answers
          else .quiet)
        (.redisSetKeepTtlXx (sessionKey sessionId) (.session { data with answers := answers }))
        (.ok (w.redis.get (sessionKey sessionId)).isSome)
  | grace (sessionId : Id) (snapshot : Answers)
      (h : w'.redis = w.redis.set (graceKey sessionId) (.grace snapshot)
        (w.now + graceWindowSeconds * 1000)) :
      RedisStep w w' (.expiryGrace sessionId snapshot) .quiet
        (.redisSet (graceKey sessionId) (.grace snapshot) graceWindowSeconds) (.ok ())
  | take {g'} (sessionId : Id) (session : TestSession) (answers : Answers)
      (h : w'.redis = w.redis.erase (graceKey sessionId)) :
      RedisStep w w' (.lateGate sessionId session answers) g' (.redisGetdel (graceKey sessionId))
        (.ok ((w.redis.get (graceKey sessionId)).map (·.value)))
  | delete (d : Submission) (h : w'.redis = w.redis.erase (sessionKey d.session.id)) :
      RedisStep w w' (.closed d) .quiet (.redisDel (sessionKey d.session.id)) (.ok ())

variable {i : Nat} {w w' : World} {g g' : Phase} {call : Call} {r : Except Err (Resp call)}

theorem World.commit_outside (t : OpenTxn) : (w.commit t).outside = w.outside := by
  have : ∀ ws : List Write, (ws.foldl World.apply w).outside = w.outside := by
    intro ws
    induction ws generalizing w with
    | nil => rfl
    | cons wr ws ih =>
      rw [List.foldl_cons, ih]
      cases wr <;> rfl
  exact this t.writes

theorem exec_outside [Bcrypt] {x : Choice} (h : exec i call x w = some (w', r))
    (hc : call.writesRedis = false) : w'.outside = w.outside := by
  cases call with
  | redisSet => cases hc
  | redisSetKeepTtlXx => cases hc
  | redisGetdel => cases hc
  | redisDel => cases hc
  | commitTransaction =>
    rcases inTxn_some h with ⟨e, he⟩ | ⟨t, ht, h⟩
    · cases he; rfl
    · cases h; exact World.commit_outside t
  | accessCodeSave => simp only [exec] at h; split at h <;> cases h; rfl
  | testSessionUpdateSnapshot => simp only [exec] at h; split at h <;> cases h; rfl
  | testSessionUpdateStatus => simp only [exec] at h; split at h <;> cases h; rfl
  | startTransaction => simp only [exec] at h; split at h <;> cases h <;> rfl
  | rollbackTransaction => cases h; rfl
  | setCurrentUser =>
    rcases inTxn_some h with ⟨e, he⟩ | ⟨t, ht, h⟩
    · cases he; rfl
    · cases h; rfl
  | txUpdateAccessCode =>
    rcases inTxn_some h with ⟨e, he⟩ | ⟨t, ht, h⟩
    · cases he; rfl
    · repeat' split at h
      all_goals cases h
      all_goals rfl
  | txSaveTestSession userId? row =>
    rcases inTxn_some h with ⟨e, he⟩ | ⟨t, ht, h⟩
    · cases he; rfl
    · cases userId? with
      | none => cases h; rfl
      | some userId =>
        simp only at h
        split at h <;> cases h
        rfl
  | txDeleteTestSession =>
    rcases inTxn_some h with ⟨e, he⟩ | ⟨t, ht, h⟩
    · cases he; rfl
    · split at h <;> cases h
      rfl
  | txUpdateTestSession =>
    rcases inTxn_some h with ⟨e, he⟩ | ⟨t, ht, h⟩
    · cases he; rfl
    · repeat' split at h
      all_goals cases h
      all_goals rfl
  | txSaveExamAttempt =>
    rcases inTxn_some h with ⟨e, he⟩ | ⟨t, ht, h⟩
    · cases he; rfl
    · split at h <;> cases h <;> rfl
  | _ => rw [exec_reads rfl h]

theorem answered_redis [Bcrypt] (h : Answered examSystem i call w r w')
    (hn : monitor.advance g call r = some g') :
    RedisStep w w' g g' call r ∧
      w'.outside = (w.now, w'.redis, w.undelivered, w.delivered) := by
  cases r with
  | error e =>
    rcases error_world h with ⟨rfl, -⟩ | rfl <;> exact ⟨.same rfl fun _ => ⟨e, rfl⟩, rfl⟩
  | ok a =>
    obtain ⟨hx⟩ := h
    by_cases hc : call.writesRedis = false
    · have ho := exec_outside hx hc
      have hredis : w'.redis = w.redis := congrArg (·.2.1) ho
      exact ⟨.same hredis fun h => by simp [hc] at h, by rw [hredis]; exact ho⟩
    · cases call with
      | redisSet key value ttlSeconds =>
        simp only [examSystem, exec] at hx
        split at hx <;> cases hx
        refine ⟨?_, rfl⟩
        cases g with
        | created code session =>
          simp only [Monitor.advance, monitor_next, Phase.nextOk] at hn
          split at hn <;> cases hn
          rename_i httl h
          obtain ⟨rfl, hvalue⟩ := h
          cases value with
          | grace => cases hvalue
          | session data =>
            exact .start code session data ttlSeconds (by simpa [Json.session?] using hvalue)
              (by omega) rfl
        | expiryGrace sessionId snapshot =>
          simp only [Monitor.advance, monitor_next, Phase.nextOk] at hn
          split at hn <;> cases hn
          rename_i h
          obtain ⟨rfl, rfl, rfl⟩ := h
          exact .grace sessionId snapshot rfl
        | _ => cases hn
      | redisSetKeepTtlXx key value =>
        cases hx
        refine ⟨?_, rfl⟩
        cases g with
        | saveSet sessionId session answers data =>
          simp only [Monitor.advance, monitor_next, Phase.nextOk] at hn
          split at hn <;> cases hn
          rename_i h
          obtain ⟨rfl, rfl⟩ := h
          exact .save sessionId session answers data rfl
        | _ => cases hn
      | redisGetdel key =>
        cases hx
        refine ⟨?_, rfl⟩
        cases g with
        | lateGate sessionId session answers =>
          have hkey : key = graceKey sessionId := by
            simp only [Monitor.advance, monitor_next, Phase.nextOk] at hn
            split at hn
            · assumption
            · cases hn
          subst hkey
          exact .take sessionId session answers rfl
        | _ => cases hn
      | redisDel key =>
        cases hx
        refine ⟨?_, rfl⟩
        cases g with
        | closed d =>
          simp only [Monitor.advance, monitor_next, Phase.nextOk] at hn
          split at hn <;> cases hn
          rename_i h
          subst h
          exact .delete d rfl
        | _ => cases hn
      | _ => exact absurd rfl hc

/-! ## What the keys hold -/

/-- Every key has a deadline that is still to come, and the value of its kind. -/
structure RedisOk (w : World) : Prop where
  live : ∀ key it, w.redis.get key = some it → ∃ d, it.deadline = some d ∧ w.now < d
  session : ∀ id it, w.redis.get (sessionKey id) = some it → ∃ data, it.value = .session data
  grace : ∀ id it, w.redis.get (graceKey id) = some it → ∃ snapshot, it.value = .grace snapshot

theorem RedisOk.set (h : RedisOk w) {key : String} {value : Json} {d : Time}
    (hr : w'.redis = w.redis.set key value d) (hnow : w'.now = w.now) (hd : w.now < d)
    (hs : ∀ id, key = sessionKey id → ∃ data, value = .session data)
    (hg : ∀ id, key = graceKey id → ∃ snapshot, value = .grace snapshot) : RedisOk w' := by
  refine ⟨fun k it hit => ?_, fun id it hit => ?_, fun id it hit => ?_⟩ <;>
    rw [hr, TtlStore.get_set] at hit <;> split at hit
  · cases hit; exact ⟨d, rfl, hnow ▸ hd⟩
  · rw [hnow]; exact h.live k it hit
  · cases hit; exact hs id ‹_›
  · exact h.session id it hit
  · cases hit; exact hg id ‹_›
  · exact h.grace id it hit

theorem RedisOk.erase (h : RedisOk w) {key : String} (hr : w'.redis = w.redis.erase key)
    (hnow : w'.now = w.now) : RedisOk w' := by
  have hsub : ∀ k it, w'.redis.get k = some it → w.redis.get k = some it := by
    intro k it hit
    rw [hr, Table.get_erase] at hit
    split at hit
    · cases hit
    · exact hit
  refine ⟨fun k it hit => ?_, fun id it hit => h.session id it (hsub _ it hit),
    fun id it hit => h.grace id it (hsub _ it hit)⟩
  rw [hnow]
  exact h.live k it (hsub k it hit)

theorem RedisOk.save (h : RedisOk w) {id : Id} {data : ExamSessionData}
    (hr : w'.redis = w.redis.setKeepTtlXx (sessionKey id) (.session data))
    (hnow : w'.now = w.now) : RedisOk w' := by
  refine ⟨fun k it hit => ?_, fun id' it hit => ?_, fun id' it hit => ?_⟩ <;>
    rw [hr, TtlStore.get_setKeepTtlXx] at hit <;> split at hit
  · obtain ⟨it', hit', rfl⟩ := Option.map_eq_some_iff.mp hit
    rw [hnow]
    exact h.live k it' hit'
  · rw [hnow]; exact h.live k it hit
  · obtain ⟨it', hit', rfl⟩ := Option.map_eq_some_iff.mp hit
    exact ⟨data, rfl⟩
  · exact h.session id' it hit
  · exact absurd ‹_› (sessionKey_ne_graceKey _ _)
  · exact h.grace id' it hit

theorem RedisStep.redisOk (h : RedisStep w w' g g' call r) (hnow : w'.now = w.now)
    (hw : RedisOk w) : RedisOk w' := by
  cases h with
  | same h =>
    exact ⟨by rw [h, hnow]; exact hw.live, by rw [h]; exact hw.session, by rw [h]; exact hw.grace⟩
  | start code session data ttlSeconds _ httl h =>
    refine hw.set h hnow (Int.lt_add_of_pos_right _ (by omega)) (fun _ _ => ⟨data, rfl⟩) fun id he => ?_
    exact absurd he (sessionKey_ne_graceKey _ _)
  | save sessionId session answers data h => exact hw.save h hnow
  | grace sessionId snapshot h =>
    refine hw.set h hnow (by simp [graceWindowSeconds]) (fun id he => ?_) fun _ _ => ⟨snapshot, rfl⟩
    exact absurd he.symm (sessionKey_ne_graceKey _ _)
  | take sessionId session answers h => exact hw.erase h hnow
  | delete d h => exact hw.erase h hnow

theorem RedisOk.tick (h : RedisOk w) (ms : Nat) : RedisOk (w.tick ms) := by
  refine ⟨fun k it hit => ?_, fun id it hit => ?_, fun id it hit => ?_⟩ <;>
    obtain ⟨hit, hdue⟩ := TtlStore.get_of_get_sweep hit
  · obtain ⟨d, hd, -⟩ := h.live k it hit
    refine ⟨d, hd, ?_⟩
    simpa [TtlStore.due, hd, World.tick] using hdue
  · exact h.session id it hit
  · exact h.grace id it hit

theorem RedisOk.congr (h : RedisOk w) (hr : w'.redis = w.redis) (hnow : w'.now = w.now) :
    RedisOk w' :=
  RedisStep.redisOk (.same (g := .quiet) (c := .now) (r := .ok 0) hr nofun : RedisStep w w' _ .quiet _ _) hnow h

theorem RedisOk.env (h : RedisOk w) {v : EnvEvent} {ts : List Task}
    (hv : envStep v w = some (w', ts)) : RedisOk w' := by
  cases v with
  | tick ms => cases hv; exact h.tick ms
  | deliver key => simp only [envStep] at hv; split at hv <;> cases hv; exact h.congr rfl rfl
  | redeliver key => simp only [envStep] at hv; split at hv <;> cases hv; exact h
  | lose key => simp only [envStep] at hv; split at hv <;> cases hv; exact h.congr rfl rfl

/-- The environment sets no key. -/
theorem envStep_get {v : EnvEvent} {ts : List Task} (h : envStep v w = some (w', ts))
    {key : String} {it : Item String Json} (hit : w'.redis.get key = some it) :
    w.redis.get key = some it := by
  cases v with
  | tick ms => cases h; exact (TtlStore.get_of_get_sweep hit).1
  | deliver key => simp only [envStep] at h; split at h <;> cases h; exact hit
  | redeliver key => simp only [envStep] at h; split at h <;> cases h; exact hit
  | lose key => simp only [envStep] at h; split at h <;> cases h; exact hit

/-- A message is published when its key expires. -/
theorem envStep_told {v : EnvEvent} {ts : List Task} (h : envStep v w = some (w', ts))
    {key : String} (ht : key ∈ w'.undelivered ∨ key ∈ w'.delivered) :
    (key ∈ w.undelivered ∨ key ∈ w.delivered) ∨
      (w.redis.get key).isSome ∧ w'.redis.get key = none := by
  cases v with
  | tick ms =>
    cases h
    rcases ht with ht | ht
    · rcases List.mem_append.mp ht with ht | hdue
      · exact .inl (.inl ht)
      · obtain ⟨it, hit, -⟩ := TtlStore.mem_dueKeys.mp hdue
        refine .inr ⟨by rw [hit]; rfl, ?_⟩
        exact (Table.get_eraseAll _ _ _).trans (if_pos hdue)
    · exact .inl (.inr ht)
  | deliver key' =>
    simp only [envStep] at h
    split at h <;> cases h
    rename_i hmem
    rcases ht with ht | ht
    · exact .inl (.inl (List.mem_of_mem_erase ht))
    · rcases List.mem_cons.mp ht with rfl | ht
      · exact .inl (.inl hmem)
      · exact .inl (.inr ht)
  | redeliver key' => simp only [envStep] at h; split at h <;> cases h; exact .inl ht
  | lose key' =>
    simp only [envStep] at h
    split at h <;> cases h
    exact .inl (ht.imp_left List.mem_of_mem_erase)

/-- What the environment does while no message is lost. -/
theorem envStep_hands {v : EnvEvent} {ts : List Task}
    (h : envStep v w = some (w', ts)) (hlose : ∀ key, v ≠ .lose key) :
    (∀ key, (w.redis.get key).isSome → (w'.redis.get key).isSome ∨ key ∈ w'.undelivered) ∧
      ∀ key, key ∈ w.undelivered → key ∈ w'.undelivered ∨ ∀ t ∈ onMessage key, t ∈ ts := by
  cases v with
  | tick ms =>
    cases h
    refine ⟨fun key hlive => ?_, fun key hmem => .inl (List.mem_append_left _ hmem)⟩
    obtain ⟨it, hit⟩ := Option.isSome_iff_exists.mp hlive
    cases hsweep : (w.redis.sweep (w.now + ms)).get key with
    | some it => exact .inl (by rw [show (w.tick ms).redis.get key = some it from hsweep]; rfl)
    | none => exact .inr (List.mem_append_right _ (TtlStore.get_sweep_none hit hsweep))
  | deliver key' =>
    simp only [envStep] at h
    split at h <;> cases h
    refine ⟨fun key hlive => .inl hlive, fun key hmem => ?_⟩
    by_cases he : key = key'
    · subst he
      exact .inr fun t ht => ht
    · exact .inl ((List.mem_erase_of_ne he).mpr hmem)
  | redeliver key' =>
    simp only [envStep] at h
    split at h <;> cases h
    exact ⟨fun key hlive => .inl hlive, fun key hmem => .inl hmem⟩
  | lose key' => exact absurd rfl (hlose key')

/-- The environment starts only what the bridge starts for a message that was published. -/
theorem envStep_tasks {v : EnvEvent} {ts : List Task} (h : envStep v w = some (w', ts)) :
    ∀ t ∈ ts, ∃ key, t ∈ onMessage key ∧ (key ∈ w.undelivered ∨ key ∈ w.delivered) := by
  intro t ht
  cases v with
  | tick ms => cases h; cases ht
  | deliver key => simp only [envStep] at h; split at h <;> cases h; exact ⟨key, ht, .inl ‹_›⟩
  | redeliver key => simp only [envStep] at h; split at h <;> cases h; exact ⟨key, ht, .inr ‹_›⟩
  | lose key => simp only [envStep] at h; split at h <;> cases h; cases ht

section Reachable

variable [Bcrypt] {P : Guard World Call Resp Err Reply Task Choice EnvEvent} {c c' : Pool}

theorem Moved.redis (hm : Moved monitor examSystem c c' i call r g g') :
    RedisStep c.world c'.world g g' call r :=
  (answered_redis hm.answers hm.next).1

theorem Moved.outside (hm : Moved monitor examSystem c c' i call r g g') :
    c'.world.now = c.world.now ∧ c'.world.undelivered = c.world.undelivered ∧
      c'.world.delivered = c.world.delivered := by
  have h := (answered_redis hm.answers hm.next).2
  exact ⟨congrArg (·.1) h, congrArg (·.2.2.1) h, congrArg (·.2.2.2) h⟩

theorem findOne_answer {id : Id} {row? : Option TestSession}
    (h : Answered examSystem i (.testSessionFindOne id) w (.ok row?) w') :
    row? = w.sessions.get id := by
  cases h with
  | exec hx => cases hx; rfl

theorem Reachable.redisOk (h : Reachable P c) : RedisOk c.world := by
  refine Reach.invariant monitor_sound (I := fun c => RedisOk c.world) ?_ ?_ ?_ ?_ h
  · intro w hw
    refine ⟨fun k it hit => ?_, fun id it hit => ?_, fun id it hit => ?_⟩ <;>
      simp [Config.initial, Table.get, hw.redis] at hit
  · intro c t _ hI _ _
    exact hI
  · intro c v w ts _ hI _ hv
    exact hI.env hv
  · intro c c' i call r g g' _ hI _ hm
    exact (Moved.redis hm).redisOk (Moved.outside hm).1 hI

end Reachable

end LmsBackend.Exams
