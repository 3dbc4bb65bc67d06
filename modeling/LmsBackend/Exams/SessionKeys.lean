import LmsBackend.Exams.Origin

/-!
# A session key does not come back

Only the `startExam` that created the session sets its key, once. After the key
is gone no autosave can write it, and a handler starts only then.
-/

open Async Store

namespace LmsBackend.Exams

/-- The session was created, and no process is left that could set its key. -/
def Settled (sessionId : Id) (c : Pool) : Prop :=
  sessionId ∈ c.world.issued ∧ ∀ i g, monitor.phase c i = some g → g.creates ≠ some sessionId

def KeyGone (sessionId : Id) (c : Pool) : Prop :=
  Settled sessionId c ∧ c.world.redis.get (sessionKey sessionId) = none

structure KeyOnce (sessionId : Id) (c : Pool) : Prop where
  live : (c.world.redis.get (sessionKey sessionId)).isSome → Settled sessionId c
  told : sessionKey sessionId ∈ c.world.undelivered ∨ sessionKey sessionId ∈ c.world.delivered →
    KeyGone sessionId c
  guard : ∀ i, monitor.phase c i = some (.expiryGuard sessionId) → KeyGone sessionId c

section

variable [Bcrypt] {P : Guard World Call Resp Err Reply Task Choice EnvEvent} {c c' : Pool}
  {sessionId : Id} {i : Nat} {call : Call} {r : Except Err (Resp call)} {g g' : Phase}

theorem Settled.move (h : Settled sessionId c) (hb : Base c)
    (hm : Moved monitor examSystem c c' i call r g g') : Settled sessionId c' := by
  refine ⟨(hb.db hm).issued_mono h.1, fun j gj hj hid => ?_⟩
  rcases hm.phase_cases hj with ⟨rfl, rfl⟩ | ⟨-, hj⟩
  · rcases creates_cases hm.answers hm.next hid with hid | ⟨hfresh, -⟩
    · exact h.2 _ g hm.before hid
    · exact hfresh h.1
  · exact h.2 j gj hj hid

theorem Settled.start (h : Settled sessionId c) (hlog : c.LogOk) (ts : List Task) {w : World}
    (hw : w.tables = c.world.tables) : Settled sessionId (c.start examSystem ts w) := by
  refine ⟨?_, fun i g hg hid => ?_⟩
  · rw [Config.start_world, show w.issued = c.world.issued from congrArg Tables.issued hw]
    exact h.1
  · rcases Monitor.phase_start_cases hlog hg with hg | ⟨-, t, -, rfl⟩
    · exact h.2 i g hg hid
    · rw [monitor_start, start_creates] at hid
      cases hid

theorem KeyGone.move (h : KeyGone sessionId c) (hb : Base c)
    (hm : Moved monitor examSystem c c' i call r g g') : KeyGone sessionId c' := by
  refine ⟨h.1.move hb hm, ?_⟩
  cases Moved.sessionKey hm sessionId with
  | same hkey => exact hkey.trans h.2
  | start code session data ttlSeconds hid =>
    exact absurd (congrArg some hid) (h.1.2 _ _ hm.before)
  | save session answers data hlive => rw [h.2] at hlive; cases hlive
  | delete d hid hkey => exact hkey

theorem KeyGone.start (h : KeyGone sessionId c) (hlog : c.LogOk) (ts : List Task) {w : World}
    (hw : w.tables = c.world.tables) (hkey : w.redis.get (sessionKey sessionId) = none) :
    KeyGone sessionId (c.start examSystem ts w) :=
  ⟨h.1.start hlog ts hw, hkey⟩

/-- The key is there after a step only if it was before, or if its `startExam` has set it. -/
theorem KeyOnce.live_move (h : KeyOnce sessionId c) (hb : Base c)
    (hm : Moved monitor examSystem c c' i call r g g')
    (hlive : (c'.world.redis.get (sessionKey sessionId)).isSome) : Settled sessionId c' := by
  cases Moved.sessionKey hm sessionId with
  | same hkey => exact (h.live (hkey ▸ hlive)).move hb hm
  | save session answers data hlive => exact (h.live hlive).move hb hm
  | delete d hid hkey => rw [hkey] at hlive; cases hlive
  | start code session data ttlSeconds hid =>
    subst hid
    obtain ⟨-, -, row, hrow, -⟩ := hb.holds _ _ hm.before
    refine ⟨(hb.db hm).issued_mono (hb.tables.issued _ _ hrow), fun j gj hj hid => ?_⟩
    rcases hm.phase_cases hj with ⟨-, rfl⟩ | ⟨he, hj⟩
    · cases hid
    · exact he (hb.creates _ _ _ _ _ hj hm.before hid rfl)

theorem KeyOnce.move (h : KeyOnce sessionId c) (hb : Base c)
    (hm : Moved monitor examSystem c c' i call r g g') : KeyOnce sessionId c' := by
  obtain ⟨-, hundelivered, hdelivered⟩ := Moved.outside hm
  refine ⟨h.live_move hb hm, fun ht => ?_, fun j hj => ?_⟩
  · rw [hundelivered, hdelivered] at ht
    exact (h.told ht).move hb hm
  · rcases hm.phase_cases hj with ⟨rfl, rfl⟩ | ⟨-, hj⟩
    · obtain rfl := Moved.guard hm rfl
      exact (h.guard _ hm.before).move hb hm
    · exact (h.guard j hj).move hb hm

theorem KeyOnce.start (h : KeyOnce sessionId c) (hlog : c.LogOk) {ts : List Task} {w : World}
    (hw : w.tables = c.world.tables)
    (hsub : ∀ it, w.redis.get (sessionKey sessionId) = some it →
      c.world.redis.get (sessionKey sessionId) = some it)
    (htold : sessionKey sessionId ∈ w.undelivered ∨ sessionKey sessionId ∈ w.delivered →
      (sessionKey sessionId ∈ c.world.undelivered ∨ sessionKey sessionId ∈ c.world.delivered) ∨
        Settled sessionId c ∧ w.redis.get (sessionKey sessionId) = none)
    (htasks : .handleExpiry .session sessionId ∈ ts →
      sessionKey sessionId ∈ c.world.undelivered ∨ sessionKey sessionId ∈ c.world.delivered) :
    KeyOnce sessionId (c.start examSystem ts w) := by
  have hnone : c.world.redis.get (sessionKey sessionId) = none →
      w.redis.get (sessionKey sessionId) = none := by
    intro hn
    cases hk : w.redis.get (sessionKey sessionId) with
    | none => rfl
    | some it => rw [hsub it hk] at hn; cases hn
  have hgone : KeyGone sessionId c → KeyGone sessionId (c.start examSystem ts w) := fun hg =>
    hg.start hlog ts hw (hnone hg.2)
  refine ⟨fun hlive => ?_, fun ht => ?_, fun i hi => ?_⟩
  · obtain ⟨it, hit⟩ := Option.isSome_iff_exists.mp hlive
    exact (h.live (by rw [hsub it hit]; rfl)).start hlog ts hw
  · rcases htold ht with ht | ⟨hs, hkey⟩
    · exact hgone (h.told ht)
    · exact ⟨hs.start hlog ts hw, hkey⟩
  · rcases Monitor.phase_start_cases hlog hi with hi | ⟨-, t, ht, he⟩
    · exact hgone (h.guard i hi)
    · refine hgone (h.told (htasks ?_))
      cases t with
      | handleExpiry type => cases type <;> cases he; exact ht
      | _ => cases he

theorem Reachable.keyOnce (h : Reachable P c) (sessionId : Id) : KeyOnce sessionId c := by
  refine Reach.invariant monitor_sound (I := KeyOnce sessionId) ?_ ?_ ?_ ?_ h
  · intro w hw
    refine ⟨fun hlive => ?_, fun ht => ?_, fun i hi => ?_⟩
    · simp [Config.initial, Table.get, hw.redis] at hlive
    · simp [Config.initial, hw.undelivered, hw.delivered] at ht
    · rw [Monitor.phase_none (Nat.zero_le _)] at hi; cases hi
  · intro c t hr hI _ ht
    refine hI.start (hr.logOk monitor_sound) rfl (fun _ h => h) .inl fun hts => ?_
    cases List.mem_singleton.mp hts
    cases ht
  · intro c v w ts hr hI _ hv
    have hdb := (envStep_db hv).1
    refine hI.start (hr.logOk monitor_sound) hdb (fun it hit => envStep_get hv hit) (fun ht => ?_)
      fun hts => ?_
    · exact (envStep_told hv ht).imp_right fun h => ⟨hI.live h.1, h.2⟩
    · obtain ⟨key, hkey, hmem⟩ := envStep_tasks hv _ hts
      rcases key_of_onMessage hkey with ⟨id, he, rfl⟩ | ⟨id, he, -⟩ <;> cases he
      exact hmem
  · intro c c' i call r g g' hr hI _ hm
    exact hI.move (Reachable.base hr) hm

end

end LmsBackend.Exams
