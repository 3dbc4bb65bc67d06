import LmsBackend.Exams.RedisSteps

/-!
# What a step does to the keys of one session

Every proof about a session goes by the step of its session key or of its grace
key. The events that open a grace window, take a grace snapshot and save answers
are read off the log.
-/

open Async Store

namespace LmsBackend.Exams

/-! ## Events -/

/-- An event of the log. -/
abbrev PoolEvent := Event World Call Resp Err

/-- The call was a `startGrace` of the session that went through. -/
def Call.opensGrace (sessionId : Id) : (c : Call) → Except Err (Resp c) → Bool
  | .redisSet key _ _, .ok _ => key = graceKey sessionId
  | _, _ => false

/-- The call was a `consumeGrace` of the session that got a snapshot. -/
def Call.obtainsGrace (sessionId : Id) : (c : Call) → Except Err (Resp c) → Bool
  | .redisGetdel key, .ok value? =>
    key = graceKey sessionId ∧ (value?.bind Json.grace?).isSome = true
  | _, _ => false

/-- The answers that the call has saved at the session key. -/
def Call.saves (sessionId : Id) : (c : Call) → Except Err (Resp c) → Option Answers
  | .redisSetKeepTtlXx key value, .ok true =>
    if key = sessionKey sessionId then value.session?.map (·.answers) else none
  | _, _ => none

def opened (sessionId : Id) (log : List PoolEvent) : List PoolEvent :=
  log.filter fun e => e.call.opensGrace sessionId e.res

def taken (sessionId : Id) (log : List PoolEvent) : List PoolEvent :=
  log.filter fun e => e.call.obtainsGrace sessionId e.res

theorem opened_append (sessionId : Id) (log : List PoolEvent) (e : PoolEvent) :
    opened sessionId (log ++ [e]) =
      opened sessionId log ++ if e.call.opensGrace sessionId e.res then [e] else [] := by
  rw [opened, List.filter_append, List.filter_singleton, Bool.cond_eq_ite]
  rfl

theorem taken_append (sessionId : Id) (log : List PoolEvent) (e : PoolEvent) :
    taken sessionId (log ++ [e]) =
      taken sessionId log ++ if e.call.obtainsGrace sessionId e.res then [e] else [] := by
  rw [taken, List.filter_append, List.filter_singleton, Bool.cond_eq_ite]
  rfl

/-! ## Steps -/

/-- The session key of `id` in a step. -/
inductive SessionKeyStep (id : Id) (w w' : World) :
    Phase → Phase → (c : Call) → Except Err (Resp c) → Prop where
  | same {g g' c r} (h : w'.redis.get (sessionKey id) = w.redis.get (sessionKey id))
      (hs : c.saves id r = none) : SessionKeyStep id w w' g g' c r
  | start (code : Id) (session : TestSession) (data : ExamSessionData) (ttlSeconds : Int)
      (hid : session.id = id) (h : (w'.redis.get (sessionKey id)).isSome) :
      SessionKeyStep id w w' (.created code session) .quiet
        (.redisSet (sessionKey id) (.session data) ttlSeconds) (.ok ())
  | save (session : TestSession) (answers : Answers) (data : ExamSessionData)
      (hlive : (w.redis.get (sessionKey id)).isSome)
      (h : (w'.redis.get (sessionKey id)).isSome) :
      SessionKeyStep id w w' (.saveSet id session answers data) (.saveMirror id session answers)
        (.redisSetKeepTtlXx (sessionKey id) (.session { data with answers := answers })) (.ok true)
  | delete (d : Submission) (hid : d.session.id = id)
      (h : w'.redis.get (sessionKey id) = none) :
      SessionKeyStep id w w' (.closed d) .quiet (.redisDel (sessionKey id)) (.ok ())

/-- The grace key of `id` in a step. -/
inductive GraceKeyStep (id : Id) (w w' : World) :
    Phase → Phase → (c : Call) → Except Err (Resp c) → Prop where
  | same {g g' c r} (h : w'.redis.get (graceKey id) = w.redis.get (graceKey id))
      (ho : c.opensGrace id r = false) (ht : c.obtainsGrace id r = false) :
      GraceKeyStep id w w' g g' c r
  | opened (snapshot : Answers)
      (h : w'.redis.get (graceKey id) =
        some ⟨graceKey id, .grace snapshot, some (w.now + graceWindowSeconds * 1000)⟩) :
      GraceKeyStep id w w' (.expiryGrace id snapshot) .quiet
        (.redisSet (graceKey id) (.grace snapshot) graceWindowSeconds) (.ok ())
  | taken (session : TestSession) (answers snapshot : Answers) (it : Item String Json)
      (hlive : w.redis.get (graceKey id) = some it) (hvalue : it.value = .grace snapshot)
      (h : w'.redis.get (graceKey id) = none) :
      GraceKeyStep id w w' (.lateGate id session answers)
        (.scoring ⟨session, if answers ≠ [] then answers else snapshot, .submitted, true⟩)
        (.redisGetdel (graceKey id)) (.ok (some (.grace snapshot)))

variable {i : Nat} {w w' : World} {g g' : Phase} {call : Call} {r : Except Err (Resp call)}

theorem saves_quiet {id : Id} (h : call.writesRedis = true → ∃ e, r = .error e) :
    call.saves id r = none := by
  cases r with
  | error e => cases call <;> rfl
  | ok a =>
    cases call with
    | redisSetKeepTtlXx => obtain ⟨e, he⟩ := h rfl; cases he
    | _ => rfl

theorem grace_quiet {id : Id} (h : call.writesRedis = true → ∃ e, r = .error e) :
    call.opensGrace id r = false ∧ call.obtainsGrace id r = false := by
  cases r with
  | error e => cases call <;> exact ⟨rfl, rfl⟩
  | ok a =>
    cases call with
    | redisSet => obtain ⟨e, he⟩ := h rfl; cases he
    | redisGetdel => obtain ⟨e, he⟩ := h rfl; cases he
    | _ => exact ⟨rfl, rfl⟩

theorem RedisStep.sessionKey (h : RedisStep w w' g g' call r) (id : Id) :
    SessionKeyStep id w w' g g' call r := by
  cases h with
  | same h hr => exact .same (by rw [h]) (saves_quiet hr)
  | start code session data ttlSeconds _ _ h =>
    by_cases hid : session.id = id
    · subst hid
      exact .start code session data ttlSeconds rfl (by rw [h, TtlStore.get_set, if_pos rfl]; rfl)
    · refine .same ?_ rfl
      rw [h, TtlStore.get_set, if_neg (by rwa [sessionKey_inj])]
  | save sessionId session answers data h =>
    by_cases hid : sessionId = id
    · subst hid
      cases hlive : w.redis.get (Exams.sessionKey sessionId) with
      | none => exact .same (by rw [h, TtlStore.get_setKeepTtlXx, if_pos rfl, hlive]; rfl) rfl
      | some it =>
        exact .save session answers data (by rw [hlive]; rfl)
          (by rw [h, TtlStore.get_setKeepTtlXx, if_pos rfl, hlive]; rfl)
    · have hne : Exams.sessionKey sessionId ≠ Exams.sessionKey id := by rwa [Ne, sessionKey_inj]
      refine .same (by rw [h, TtlStore.get_setKeepTtlXx, if_neg hne]) ?_
      cases (w.redis.get (Exams.sessionKey sessionId)).isSome
      · rfl
      · exact if_neg hne
  | grace sessionId snapshot h =>
    exact .same (by rw [h, TtlStore.get_set, if_neg (sessionKey_ne_graceKey _ _).symm]) rfl
  | take sessionId session answers h =>
    exact .same (by rw [h, Table.get_erase, if_neg (sessionKey_ne_graceKey _ _).symm]) rfl
  | delete d h =>
    by_cases hid : d.session.id = id
    · subst hid
      exact .delete d rfl (by rw [h, Table.get_erase_self])
    · exact .same (by rw [h, Table.get_erase, if_neg (by rwa [sessionKey_inj])]) rfl

theorem RedisStep.graceKey (h : RedisStep w w' g g' call r) (hw : RedisOk w)
    (hn : monitor.advance g call r = some g') (id : Id) : GraceKeyStep id w w' g g' call r := by
  cases h with
  | same h hr => exact .same (by rw [h]) (grace_quiet hr).1 (grace_quiet hr).2
  | start code session data ttlSeconds _ _ h =>
    have hne := sessionKey_ne_graceKey session.id id
    exact .same (by rw [h, TtlStore.get_set, if_neg hne]) (decide_eq_false hne) rfl
  | save sessionId session answers data h =>
    refine .same ?_ rfl rfl
    rw [h, TtlStore.get_setKeepTtlXx, if_neg (sessionKey_ne_graceKey _ _)]
  | grace sessionId snapshot h =>
    by_cases hid : sessionId = id
    · subst hid
      exact .opened snapshot (by rw [h, TtlStore.get_set, if_pos rfl])
    · have hne : Exams.graceKey sessionId ≠ Exams.graceKey id := by rwa [Ne, graceKey_inj]
      exact .same (by rw [h, TtlStore.get_set, if_neg hne]) (decide_eq_false hne) rfl
  | take sessionId session answers h =>
    by_cases hid : sessionId = id
    · subst hid
      cases hlive : w.redis.get (Exams.graceKey sessionId) with
      | none =>
        exact .same (by rw [h, Table.get_erase_self, hlive]) rfl (by simp [Call.obtainsGrace])
      | some it =>
        obtain ⟨snapshot, hvalue⟩ := hw.grace _ _ hlive
        rw [hlive, Option.map_some, hvalue] at hn
        rw [Option.map_some, hvalue]
        simp only [Monitor.advance, monitor_next, Phase.nextOk, if_pos, Option.bind_some,
          Json.grace?, Option.some.injEq] at hn
        subst hn
        exact .taken session answers snapshot it hlive hvalue (by rw [h, Table.get_erase_self])
    · have hne : Exams.graceKey sessionId ≠ Exams.graceKey id := by rwa [Ne, graceKey_inj]
      exact .same (by rw [h, Table.get_erase, if_neg hne]) rfl (by simp [Call.obtainsGrace, hne])
  | delete d h =>
    exact .same (by rw [h, Table.get_erase, if_neg (sessionKey_ne_graceKey _ _)]) rfl rfl

section Reachable

variable [Bcrypt] {c c' : Pool}

theorem Moved.sessionKey (hm : Moved monitor examSystem c c' i call r g g') (id : Id) :
    SessionKeyStep id c.world c'.world g g' call r :=
  (Moved.redis hm).sessionKey id

theorem Moved.graceKey (hm : Moved monitor examSystem c c' i call r g g') (hw : RedisOk c.world)
    (id : Id) : GraceKeyStep id c.world c'.world g g' call r :=
  (Moved.redis hm).graceKey hw hm.next id

end Reachable

end LmsBackend.Exams
