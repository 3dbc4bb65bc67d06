import LmsBackend.Exams.OneAttempt
import LmsBackend.Exams.Origin

/-!
# The grace window

`startGrace` sets the grace key anew. Two handlers that have both read ACTIVE
open the window twice, and a late submit can take a snapshot each time. When no
handler reads ACTIVE while another is about to write EXPIRED, the window opens
once.
-/

open Async Store

namespace LmsBackend.Exams

/-- A handler is between its read and its UPDATE. -/
def Marking (c : Pool) (sessionId : Id) : Prop :=
  ∃ p ∈ c.procs, p.prog.next? = some (.testSessionUpdateStatus sessionId .expired)

instance (c : Pool) (sessionId : Id) : Decidable (Marking c sessionId) :=
  inferInstanceAs (Decidable (∃ p ∈ c.procs, _))

/-- No handler reads ACTIVE while another one of the session is about to write EXPIRED. -/
def ReadsAlone (c : Pool) : PoolLabel → Prop
  | .run i _ =>
    match c.task? i, c.next? i with
    | some (.handleExpiry .session sessionId), some (.testSessionFindOne _) =>
      Marking c sessionId → (c.world.sessions.get sessionId).all fun row => row.status ≠ .active
    | _, _ => True
  | _ => True

instance : ∀ c l, Decidable (ReadsAlone c l) := fun c l => by
  match l with
  | .run i _ =>
    dsimp only [ReadsAlone]
    generalize c.task? i = t, c.next? i = call
    casesm* Option _, Task, ExpiryType
    all_goals first | infer_instance | (casesm Call <;> infer_instance)
  | .spawn _ | .fail _ | .env _ => exact .isTrue trivial

/-! ## The window -/

/-- The end of the window that the event has opened. -/
def graceEnd (e : PoolEvent) : Time := e.before.now + graceWindowSeconds * 1000

/-- The window of a session: not yet opened, open, or finished. -/
inductive Window (sessionId : Id) (redis : Redis) (log : List PoolEvent) : Prop where
  | unopened (ho : opened sessionId log = []) (ht : taken sessionId log = [])
      (hkey : redis.get (graceKey sessionId) = none)
  | running (o : PoolEvent) (it : Item String Json) (ho : opened sessionId log = [o])
      (ht : taken sessionId log = []) (hkey : redis.get (graceKey sessionId) = some it)
      (hend : it.deadline = some (graceEnd o))
  | finished (o : PoolEvent) (ho : opened sessionId log = [o]) (ht : (taken sessionId log).length ≤ 1)
      (hkey : redis.get (graceKey sessionId) = none)
      (htime : ∀ e ∈ taken sessionId log, e.before.now < graceEnd o)

/-! ## The invariant -/

/-- What is true of the window of a session when handlers read alone. -/
structure GraceOnce (sessionId : Id) (c : Pool) : Prop where
  window : Window sessionId c.world.redis c.log
  opener : ∀ i g, monitor.phase c i = some g → g.opens = some sessionId →
    opened sessionId c.log = [] ∧ sessionId ∈ c.world.issued
  one : ∀ i j g g', monitor.phase c i = some g → monitor.phase c j = some g' →
    g.opens = some sessionId → g'.opens = some sessionId → i = j
  active : ∀ row, c.world.sessions.get sessionId = some row → row.status = .active →
    opened sessionId c.log = [] ∧
      ∀ i snapshot, monitor.phase c i ≠ some (.expiryGrace sessionId snapshot)
  issued : opened sessionId c.log ≠ [] → sessionId ∈ c.world.issued

variable {sessionId : Id} {log : List PoolEvent} {i : Nat} {w w' : World} {g g' : Phase}
  {call : Call} {r : Except Err (Resp call)}

theorem Window.congr {redis redis' : Redis} (h : Window sessionId redis log)
    (hkey : redis'.get (graceKey sessionId) = redis.get (graceKey sessionId)) :
    Window sessionId redis' log := by
  cases h with
  | unopened ho ht hk => exact .unopened ho ht (hkey.trans hk)
  | running o it ho ht hk hend => exact .running o it ho ht (hkey.trans hk) hend
  | finished o ho ht hk htime => exact .finished o ho ht (hkey.trans hk) htime

/-- The window closes when its key expires. -/
theorem Window.sweep {redis : Redis} (h : Window sessionId redis log) (now : Time) :
    Window sessionId (redis.sweep now) log := by
  cases hk' : (redis.sweep now).get (graceKey sessionId) with
  | some it => exact h.congr (hk'.trans (TtlStore.get_of_get_sweep hk').1.symm)
  | none =>
    cases h with
    | unopened ho ht hk => exact .unopened ho ht hk'
    | running o it ho ht hk hend => exact .finished o ho (by simp [ht]) hk' (by simp [ht])
    | finished o ho ht hk htime => exact .finished o ho ht hk' htime

/-- A window is opened while there was none, and a snapshot is taken before the end. -/
theorem Window.step (h : Window sessionId w.redis log) (hw : RedisOk w)
    (hs : GraceKeyStep sessionId w w' g g' call r)
    (hopener : g.opens = some sessionId → opened sessionId log = []) :
    Window sessionId w'.redis (log ++ [⟨i, call, r, w, w'⟩]) := by
  cases hs with
  | same hkey ho ht =>
    have hopened : opened sessionId (log ++ [⟨i, call, r, w, w'⟩]) = opened sessionId log := by
      simp [opened_append, ho]
    have htaken : taken sessionId (log ++ [⟨i, call, r, w, w'⟩]) = taken sessionId log := by
      simp [taken_append, ht]
    cases h with
    | unopened h1 h2 h3 => exact .unopened (hopened.trans h1) (htaken.trans h2) (hkey.trans h3)
    | running o it h1 h2 h3 h4 =>
      exact .running o it (hopened.trans h1) (htaken.trans h2) (hkey.trans h3) h4
    | finished o h1 h2 h3 h4 =>
      exact .finished o (hopened.trans h1) (htaken ▸ h2) (hkey.trans h3) (htaken ▸ h4)
  | opened snapshot hkey =>
    have hnone := hopener rfl
    have htaken : taken sessionId log = [] := by
      cases h with
      | unopened _ ht => exact ht
      | running o _ ho => rw [hnone] at ho; cases ho
      | finished o ho => rw [hnone] at ho; cases ho
    refine .running ⟨i, .redisSet (graceKey sessionId) (.grace snapshot) graceWindowSeconds, .ok (),
      w, w'⟩ _ ?_ ?_ hkey rfl
    · simp [opened_append, hnone, Call.opensGrace]
    · rw [taken_append, htaken]
      rfl
  | taken session answers snapshot it hlive hvalue hkey =>
    cases h with
    | unopened _ _ hk => rw [hk] at hlive; cases hlive
    | finished _ _ _ hk => rw [hk] at hlive; cases hlive
    | running o it' ho ht hk hend =>
      cases hk.symm.trans hlive
      obtain ⟨d, hd, hlt⟩ := hw.live _ _ hlive
      cases hend.symm.trans hd
      have htaken : taken sessionId (log ++ [⟨i, .redisGetdel (graceKey sessionId),
          .ok (some (Json.grace snapshot)), w, w'⟩]) = [⟨i, .redisGetdel (graceKey sessionId),
            .ok (some (Json.grace snapshot)), w, w'⟩] := by
        simp [taken_append, ht, Call.obtainsGrace, Json.grace?]
      refine .finished o ?_ ?_ hkey ?_
      · rw [opened_append, ho]
        rfl
      · rw [htaken]
        exact le_rfl
      · rw [htaken]
        intro e he
        cases List.mem_singleton.mp he
        exact hlt

/-- The window was opened only if it was before, or if the process was about to. -/
theorem opened_step (hs : GraceKeyStep sessionId w w' g g' call r) (log : List PoolEvent) :
    opened sessionId (log ++ [⟨i, call, r, w, w'⟩]) = opened sessionId log ∨
      ∃ snapshot, g = .expiryGrace sessionId snapshot ∧ g' = .quiet := by
  cases hs with
  | same _ ho => exact .inl (by simp [opened_append, ho])
  | opened snapshot => exact .inr ⟨snapshot, rfl, rfl⟩
  | taken => exact .inl (by simp [opened_append, Call.opensGrace])

section Reachable

variable [Bcrypt] {P : Guard World Call Resp Err Reply Task Choice EnvEvent} {c c' : Pool}

theorem GraceOnce.move (hI : GraceOnce sessionId c) (hb : Base c) (hw : RedisOk c.world)
    (hmark : ∀ session j, monitor.phase c j = some (.expiryMark sessionId session) →
      Marking c sessionId)
    (halone : ∀ a row, r = .ok a → g = .expiryGuard sessionId → call = .testSessionFindOne sessionId →
      c.world.sessions.get sessionId = some row → row.status = .active → ¬Marking c sessionId)
    (hm : Moved monitor examSystem c c' i call r g g') : GraceOnce sessionId c' := by
  have hkey := Moved.graceKey hm hw sessionId
  have hdb := hb.db hm
  have hlog := opened_step (i := i) hkey c.log
  rw [← hm.log] at hlog
  have hopener : g.opens = some sessionId → opened sessionId c.log = [] :=
    fun h => (hI.opener _ _ hm.before h).1
  refine ⟨hm.log ▸ hI.window.step hw hkey hopener, ?_, ?_, ?_, ?_⟩
  · intro j gj hj hid
    rcases hm.phase_cases hj with ⟨rfl, rfl⟩ | ⟨he, hj⟩
    · have hsame : opened sessionId c'.log = opened sessionId c.log := by
        rcases hlog with h | ⟨_, -, rfl⟩
        · exact h
        · cases hid
      rw [hsame]
      obtain ⟨a, rfl, hopens⟩ := Moved.opens hm hid
      cases hopens with
      | read hs =>
        cases hid
        have hrow := (findOne_answer hm.answers).symm
        exact ⟨(hI.active _ hrow hs).1, hdb.issued_mono (hb.tables.issued _ _ hrow)⟩
      | mark =>
        cases hid
        exact (hI.opener _ _ hm.before rfl).imp_right hdb.issued_mono
    · rcases hlog with h | ⟨snapshot, rfl, -⟩
      · rw [h]
        exact (hI.opener j gj hj hid).imp_right hdb.issued_mono
      · exact absurd (hI.one j i _ _ hj hm.before hid rfl) he
  · -- The process that comes to open the window meets no other on its way there.
    have hnew : ∀ j gj, j ≠ i → monitor.phase c j = some gj → gj.opens = some sessionId →
        g'.opens = some sessionId → False := by
      intro j gj he hj hidj hid
      obtain ⟨a, rfl, hopens⟩ := Moved.opens hm hid
      cases hopens with
      | read hs =>
        cases hid
        have hrow := (findOne_answer hm.answers).symm
        cases gj with
        | expiryMark =>
          cases hidj
          exact halone _ _ rfl rfl rfl hrow hs (hmark _ j hj)
        | expiryGrace =>
          cases hidj
          exact (hI.active _ hrow hs).2 j _ hj
        | _ => cases hidj
      | mark =>
        cases hid
        exact he (hI.one j i _ _ hj hm.before hidj rfl)
    intro j k gj gk hj hk hidj hidk
    rcases hm.phase_cases hj with ⟨rfl, rfl⟩ | ⟨hej, hj⟩ <;>
      rcases hm.phase_cases hk with ⟨rfl, rfl⟩ | ⟨hek, hk⟩
    · rfl
    · exact (hnew k gk hek hk hidk hidj).elim
    · exact (hnew j gj hej hj hidj hidk).elim
    · exact hI.one j k gj gk hj hk hidj hidk
  · intro row' hrow' hactive
    obtain ⟨rfl, hrow⟩ := hdb.row hrow'
    -- The window was not opened, and the process does not come from the UPDATE.
    have hkeep : (opened row'.id c.log = [] ∧
        ∀ i snapshot, monitor.phase c i ≠ some (.expiryGrace row'.id snapshot)) →
        opened row'.id c'.log = [] ∧
          ∀ i snapshot, monitor.phase c' i ≠ some (.expiryGrace row'.id snapshot) := by
      rintro ⟨hnone, hphase⟩
      refine ⟨?_, fun j snapshot hj => ?_⟩
      · rcases hlog with h | ⟨snapshot, rfl, -⟩
        · rw [h, hnone]
        · exact absurd hm.before (hphase i snapshot)
      · rcases hm.phase_cases hj with ⟨rfl, rfl⟩ | ⟨-, hj⟩
        · obtain ⟨a, rfl, hopens⟩ := Moved.opens hm rfl
          cases hopens
          rw [marked_row hm.answers hrow'] at hactive
          cases hactive
        · exact hphase j snapshot hj
    cases hrow with
    | same h => exact hkeep (hI.active row' h hactive)
    | start hfresh =>
      refine hkeep ⟨?_, fun j snapshot hj => hfresh (hI.opener j _ hj rfl).2⟩
      by_contra hne
      exact hfresh (hI.issued hne)
    | submit d attempt row _ _ _ _ he =>
      rw [he] at hactive
      cases hs : d.status <;> simp [TestSession.moved, AttemptStatus.session, hs] at hactive
    | mark session row _ he => rw [he] at hactive; cases hactive
    | mirror session row answers hrow he =>
      exact hkeep (hI.active row hrow (by rw [he] at hactive; exact hactive))
  · intro hne
    rcases hlog with h | ⟨snapshot, rfl, -⟩
    · exact hdb.issued_mono (hI.issued (h ▸ hne))
    · exact hdb.issued_mono (hI.opener _ _ hm.before rfl).2

theorem GraceOnce.start (hI : GraceOnce sessionId c) (hlog : c.LogOk) (ts : List Task) {w : World}
    (hw : w.tables = c.world.tables) (hwindow : Window sessionId w.redis c.log) :
    GraceOnce sessionId (c.start examSystem ts w) := by
  have hphase : ∀ i g, monitor.phase (c.start examSystem ts w) i = some g →
      g.opens = some sessionId → monitor.phase c i = some g := by
    intro i g hg hid
    rcases Monitor.phase_start_cases hlog hg with hg | ⟨-, t, -, rfl⟩
    · exact hg
    · rw [monitor_start, Phase.start_opens] at hid
      cases hid
  have hissued : w.issued = c.world.issued := congrArg Tables.issued hw
  have hsessions : w.sessions = c.world.sessions := congrArg Tables.sessions hw
  refine ⟨hwindow, ?_, ?_, ?_, ?_⟩
  · intro i g hg hid
    rw [Config.start_world, hissued]
    exact hI.opener i g (hphase i g hg hid) hid
  · intro i j g g' hg hg' hid hid'
    exact hI.one i j g g' (hphase i g hg hid) (hphase j g' hg' hid') hid hid'
  · intro row hrow hactive
    rw [Config.start_world, hsessions] at hrow
    obtain ⟨hnone, hfree⟩ := hI.active row hrow hactive
    exact ⟨hnone, fun i snapshot hi => hfree i snapshot (hphase i _ hi rfl)⟩
  · intro hne
    rw [Config.start_world, hissued]
    exact hI.issued hne

theorem Reachable.marking (h : Reachable P c) {session : TestSession}
    (hg : monitor.phase c i = some (.expiryMark sessionId session)) : Marking c sessionId := by
  obtain ⟨p, hp, hnext⟩ := Option.bind_eq_some_iff.mp (Reachable.waits_expiryMark h hg)
  exact ⟨p, List.mem_of_getElem? hp, hnext⟩

theorem Reachable.graceOnce (h : Reachable ReadsAlone c) (sessionId : Id) :
    GraceOnce sessionId c := by
  refine Reach.invariant monitor_sound (I := GraceOnce sessionId) ?_ ?_ ?_ ?_ h
  · intro w hw
    have hphase : ∀ i, monitor.phase (.initial w) i = none := fun i =>
      Monitor.phase_none (Nat.zero_le _)
    refine ⟨.unopened rfl rfl (by simp [Config.initial, Table.get, hw.redis]), ?_, ?_, ?_, ?_⟩
    · intro i g hg
      rw [hphase] at hg; cases hg
    · intro i j g g' hg
      rw [hphase] at hg; cases hg
    · intro row _ _
      exact ⟨rfl, fun i _ hi => by rw [hphase] at hi; cases hi⟩
    · intro hne
      exact absurd rfl hne
  · intro c t hr hI _ _
    exact hI.start (hr.logOk monitor_sound) [t] rfl hI.window
  · intro c v w ts hr hI _ hv
    refine hI.start (hr.logOk monitor_sound) ts (envStep_db hv).1 ?_
    cases v with
    | tick ms => cases hv; exact hI.window.sweep _
    | deliver key => simp only [examSystem, envStep] at hv; split at hv <;> cases hv; exact hI.window
    | redeliver key =>
      simp only [examSystem, envStep] at hv; split at hv <;> cases hv; exact hI.window
    | lose key => simp only [examSystem, envStep] at hv; split at hv <;> cases hv; exact hI.window
  · intro c c' i call r g g' hr hI hP hm
    refine hI.move (Reachable.base hr) (Reachable.redisOk hr)
      (fun session j hj => Reachable.marking hr hj) ?_ hm
    rintro a row rfl rfl rfl hrow hactive hmarking
    obtain ⟨x, hguard⟩ := hP.guard
    obtain ⟨t, ht⟩ := Monitor.task_of_phase hm.before
    cases Reachable.origin hr i t _ ht hm.before
    simp only [ReadsAlone, ht, hm.waits] at hguard
    simpa [hrow, hactive] using hguard hmarking

/-- While handlers read alone, at most one late submit of a session takes a snapshot, and it does so
before the end of the window that was opened first. -/
theorem grace_taken_once (h : Reachable ReadsAlone c) (sessionId : Id) :
    (taken sessionId c.log).length ≤ 1 ∧
      ∀ e ∈ taken sessionId c.log, ∃ o, (opened sessionId c.log).head? = some o ∧
        e.before.now < graceEnd o := by
  cases (Reachable.graceOnce h sessionId).window with
  | unopened _ ht => simp [ht]
  | running o _ _ ht => simp [ht]
  | finished o ho ht _ htime => exact ⟨ht, fun e he => ⟨o, by rw [ho]; rfl, htime e he⟩⟩

end Reachable

set_option maxRecDepth 100000 in
/-- A late submit, and a second handler that is told of the same key afterwards. -/
theorem grace_taken_once_redelivered :
    ∃ c, @Reachable plainBcrypt ReadsAlone c ∧ (taken "S" c.log).length = 1 ∧
      ∀ e ∈ taken "S" c.log, ∃ o, (opened "S" c.log).head? = some o ∧
        e.before.now < graceEnd o := by
  obtain ⟨c, hc, hp⟩ := exists_reachable (P := ReadsAlone)
    (starts ++ expires ++ calls 1 3 ++ .env (.tick 100000) :: .spawn (.lateSubmitExam "S" "u" []) ::
      calls 2 2 ++ .env (.redeliver "exam:session:S") :: calls 3 1)
    (p := fun c => (taken "S" c.log).length = 1) (by decide)
  exact ⟨c, hc, hp, (@grace_taken_once plainBcrypt c hc "S").2⟩

/-- Two handlers (processes 1 and 2) read ACTIVE. The second opens the window again when the
snapshot of the first window is taken. -/
def opensTwice : List PoolLabel :=
  starts ++ expires ++ .env (.redeliver "exam:session:S") :: calls 1 1 ++ calls 2 1 ++ calls 1 2 ++
    .spawn (.lateSubmitExam "S" "u" []) :: calls 3 2 ++ .env (.tick 100000) :: calls 2 2 ++
    .env (.tick 50000) :: .spawn (.lateSubmitExam "S" "u" []) :: calls 4 2

set_option maxRecDepth 100000 in
theorem grace_taken_twice :
    ¬∀ c, @Reachable plainBcrypt anyStep c → ∀ sessionId, (taken sessionId c.log).length ≤ 1 ∧
      ∀ e ∈ taken sessionId c.log, ∃ o, (opened sessionId c.log).head? = some o ∧
        e.before.now < graceEnd o := by
  intro hall
  obtain ⟨c, hc, hp⟩ := exists_reachable (P := anyStep) opensTwice
    (p := fun c => (taken "S" c.log).length = 2) (by decide)
  have := (hall c hc "S").1
  omega

end LmsBackend.Exams
