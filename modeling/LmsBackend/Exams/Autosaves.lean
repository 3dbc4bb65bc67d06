import LmsBackend.Exams.LastSaved

/-!
# What is scored when the student does not submit

The answers go from the Redis session to the row, from the row to the grace key,
and from the row or the grace key to the attempt. While autosaves keep their
order, each of these holds the answers of the last acknowledged autosave.
-/

open Async Store

namespace LmsBackend.Exams

/-- The task does not submit answers of its own for the session. -/
def Task.spares (sessionId : Id) : Task → Bool
  | .submitExam id _ _ => id ≠ sessionId
  | .lateSubmitExam id _ answers => id = sessionId → answers = []
  | _ => true

/-- The student never submits the session, and sends late submits without answers only. -/
def NeverSubmits (sessionId : Id) (_ : Pool) : PoolLabel → Prop
  | .spawn t => t.spares sessionId = true
  | _ => True

instance (sessionId : Id) : ∀ c l, Decidable (NeverSubmits sessionId c l) := fun c l => by
  match l with
  | .spawn _ => exact Bool.decEq _ _
  | .run _ _ | .fail _ | .env _ => exact .isTrue trivial

namespace Phase

/-- A handler has found the session ACTIVE, or a submission of it is under way. -/
def late (sessionId : Id) : Phase → Bool
  | .expiryMark id _ | .expiryGrace id _ | .autoGuard id => id = sessionId
  | .scoring d | .begun d | .moved d _ | .stored d _ | .closed d => d.session.id = sessionId
  | _ => false

/-- What the phase carries of the answers of the session is `saved`. -/
def carries (sessionId : Id) (saved : Answers) : Phase → Prop
  | .expiryMark id session => id = sessionId → session.snapshot.getD [] = saved
  | .expiryGrace id snapshot => id = sessionId → snapshot = saved
  | .scoring d | .begun d | .moved d _ | .stored d _ | .closed d =>
    d.session.id = sessionId → d.answers = saved
  | _ => True

variable {g g' : Phase} {c : Call} {sessionId : Id} {saved : Answers}

theorem carries_of_not_late (h : g.late sessionId = false) : g.carries sessionId saved := by
  cases g <;> first | exact trivial | exact fun he => absurd he (of_decide_eq_false h)

theorem carries_submission {d : Submission} (hd : g.submission = some d) :
    g.carries sessionId saved ↔ (d.session.id = sessionId → d.answers = saved) := by
  cases g <;> cases hd <;> rfl

theorem late_submission {d : Submission} (hd : g.submission = some d) :
    g.late sessionId = decide (d.session.id = sessionId) := by
  cases g <;> cases hd <;> rfl

theorem late_opens {id : Id} (hid : g.opens = some id) :
    g.late sessionId = decide (id = sessionId) := by
  cases g <;> cases hid <;> rfl

theorem late_failed : (g.failed c).late sessionId = false := by
  unfold failed
  split
  · rfl
  · rfl
  · rfl
  · split <;> rfl

theorem start_carries (t : Task) : (start t).carries sessionId saved := by
  cases t with
  | handleExpiry type => cases type <;> exact trivial
  | _ => exact trivial

/-- Only a task of the grace key starts late. -/
theorem start_late {t : Task} (h : (start t).late sessionId = true) :
    t = .handleExpiry .grace sessionId := by
  cases t with
  | handleExpiry type id =>
    cases type with
    | session => cases h
    | grace => rw [of_decide_eq_true h]
  | _ => cases h

/-- The three ways in which an execution comes to be late. -/
theorem late_next {a : Resp c} (hn : g.nextOk c a = some g') (hl : g'.late sessionId = true) :
    g.late sessionId = true ∨ Opens g c a g' ∨
      ∃ d, g'.submission = some d ∧ d.session.id = sessionId ∧ Gains g c a d := by
  cases hsub : g'.submission with
  | some d =>
    rw [late_submission hsub] at hl
    rcases submission_next hn hsub with hd | hd
    · left; rw [late_submission hd, hl]
    · exact .inr (.inr ⟨d, rfl, of_decide_eq_true hl, hd⟩)
  | none =>
    cases hopens : g'.opens with
    | some id => exact .inr (.inl (opens_next hn hopens))
    | none =>
      cases g' with
      | autoGuard id => left; rw [guard_next hn rfl]; exact hl
      | _ => first | (cases hsub; done) | (cases hopens; done) | cases hl

/-- Only the UPDATE of the row acknowledges an autosave. -/
theorem saved_next {a : Resp c} (hn : g.nextOk c a = some .saved) :
    ∃ id session answers, g = .saveMirror id session answers ∧
      c = .testSessionUpdateSnapshot session.id answers := by
  cases c with
  | testSessionUpdateSnapshot id snapshot =>
    cases g with
    | saveMirror sessionId session answers =>
      simp only [nextOk] at hn
      split at hn
      · rename_i he
        obtain ⟨rfl, rfl⟩ := he
        exact ⟨_, _, _, rfl, rfl⟩
      · cases hn
    | _ => cases hn
  | _ =>
    simp only [nextOk, read] at hn
    repeat' split at hn
    all_goals first | (cases hn; done) | skip
    all_goals
      cases hn
      rename_i h
      cases h

theorem failed_ne_saved : g.failed c ≠ .saved := by
  unfold failed
  split
  · simp
  · simp
  · simp
  · split <;> simp

theorem next_mirror {a : Resp c} {id : Id} {session : TestSession} {answers : Answers}
    (hn : (saveMirror id session answers).nextOk c a = some g') :
    c = .testSessionUpdateSnapshot session.id answers ∧ g' = .saved := by
  cases c with
  | testSessionUpdateSnapshot id snapshot =>
    simp only [nextOk] at hn
    split at hn <;> cases hn
    rename_i he
    obtain ⟨rfl, rfl⟩ := he
    exact ⟨rfl, rfl⟩
  | _ => cases hn

end Phase

/-! ## The stages of a session -/

/-- Nothing but autosaves has happened to the session since it was started. -/
structure Early (sessionId : Id) (c : Pool) : Prop where
  rows : ∀ row, c.world.sessions.get sessionId = some row → row.status = .active
  phases : ∀ i g, monitor.phase c i = some g → g.late sessionId = false
  grace : c.world.redis.get (graceKey sessionId) = none
  told : ¬(graceKey sessionId ∈ c.world.undelivered ∨ graceKey sessionId ∈ c.world.delivered)
  attempts : ∀ a ∈ c.world.attempts, a.session.id ≠ sessionId

/-- No autosave can write the session any more. -/
structure Quiesced (sessionId : Id) (c : Pool) : Prop where
  gone : KeyGone sessionId c
  mirror : ∀ i session answers,
    monitor.phase c i ≠ some (.saveMirror sessionId session answers)

/-- Everything that holds answers of the session holds `saved`. -/
structure Agrees (sessionId : Id) (saved : Answers) (c : Pool) : Prop where
  rows : ∀ row, c.world.sessions.get sessionId = some row → row.snapshot.getD [] = saved
  grace : ∀ it, c.world.redis.get (graceKey sessionId) = some it → it.value = .grace saved
  phases : ∀ i g, monitor.phase c i = some g → g.carries sessionId saved
  attempts : ∀ a ∈ c.world.attempts, a.session.id = sessionId → a.attempt.answers = saved

structure InOrder (sessionId : Id) (c : Pool) : Prop where
  tasks : ∀ i t, c.task? i = some t → t.spares sessionId = true
  log : SaveLog sessionId c
  agrees : Agrees sessionId (lastSaved sessionId c) c
  stage : Early sessionId c ∨ Quiesced sessionId c

section

variable [Bcrypt] {P : Guard World Call Resp Err Reply Task Choice EnvEvent} {c c' : Pool}
  {sessionId : Id} {i : Nat} {call : Call} {r : Except Err (Resp call)} {g g' : Phase}

theorem Quiesced.move (h : Quiesced sessionId c) (hb : Base c)
    (hm : Moved monitor examSystem c c' i call r g g') : Quiesced sessionId c' := by
  refine ⟨h.gone.move hb hm, fun j session answers hj => ?_⟩
  rcases hm.phase_cases hj with ⟨rfl, rfl⟩ | ⟨-, hj⟩
  · have hn := hm.next
    cases r with
    | error e => exact Phase.mirror_failed (Option.some.inj hn)
    | ok a =>
      have hs : call.saves sessionId (.ok a : Except Err _) = some answers := Phase.mirror_next hn
      cases Moved.sessionKey hm sessionId with
      | same _ hquiet => rw [hquiet] at hs; cases hs
      | save _ _ _ hlive => rw [h.gone.2] at hlive; cases hlive
  · exact h.mirror j session answers hj

/-- The submission that a call gives is late for the session only if it was late before, or if the
grace key was there. -/
theorem Early.gains (h : Early sessionId c) (hb : Base c) (hw : RedisOk c.world)
    (hsubmit : ∀ id userId answers, g = .submitGuard id userId answers → id ≠ sessionId)
    (hm : Moved monitor examSystem c c' i call r g g') {a : Resp call} (hr : r = .ok a)
    {d : Submission} (hid : d.session.id = sessionId) (hd : g.Gains call a d) : False := by
  subst hr
  cases hd with
  | submit =>
    refine hsubmit _ _ _ rfl ?_
    rw [← hid]
    exact (Table.key_of_get (findOne_answer hm.answers).symm).symm
  | @late id row answers snapshot value? hsnap =>
    obtain ⟨-, he, -⟩ := hb.holds _ _ hm.before
    have hid : id = sessionId := he.symm.trans hid
    subst hid
    cases Moved.graceKey hm hw id with
    | same _ _ ht => simp [Call.obtainsGrace, hsnap] at ht
    | taken _ _ _ it hlive => rw [h.grace] at hlive; cases hlive
  | @auto id row =>
    have he : row.id = id := Table.key_of_get (findOne_answer hm.answers).symm
    have := h.phases i _ hm.before
    rw [Phase.late, decide_eq_false_iff_not] at this
    exact this (he.symm.trans hid)

/-- Only the read of a handler ends the early stage, and by then no autosave can write. -/
theorem Early.leave (h : Early sessionId c) (hb : Base c) (hw : RedisOk c.world)
    (hk : KeyOnce sessionId c)
    (hsubmit : ∀ id userId answers, g = .submitGuard id userId answers → id ≠ sessionId)
    (hread : ∀ a row, r = .ok a → g = .expiryGuard sessionId →
      call = .testSessionFindOne sessionId → c.world.sessions.get sessionId = some row →
      row.status = .active → ∀ j session answers,
        monitor.phase c j ≠ some (.saveMirror sessionId session answers))
    (hm : Moved monitor examSystem c c' i call r g g') (hl : g'.late sessionId = true) :
    Quiesced sessionId c' := by
  have hg := h.phases i g hm.before
  have hn := hm.next
  cases r with
  | error e => cases hn; rw [monitor_failed, Phase.late_failed] at hl; cases hl
  | ok a =>
    rcases Phase.late_next hn hl with hl | hopens | ⟨d, -, hid, hgains⟩
    · rw [hl] at hg; cases hg
    · cases hopens with
      | @read id row hs =>
        obtain rfl : id = sessionId := of_decide_eq_true hl
        have hrow := (findOne_answer hm.answers).symm
        exact Quiesced.move ⟨hk.guard i hm.before, hread _ row rfl rfl rfl hrow hs⟩ hb hm
      | mark => rw [Phase.late_opens rfl] at hg hl; rw [hl] at hg; cases hg
    · exact (h.gains hb hw hsubmit hm rfl hid hgains).elim

theorem Early.stay (h : Early sessionId c) (hb : Base c) (hw : RedisOk c.world)
    (hm : Moved monitor examSystem c c' i call r g g') (hl : g'.late sessionId = false) :
    Early sessionId c' := by
  have hg := h.phases i g hm.before
  have hdb := hb.db hm
  obtain ⟨-, hundelivered, hdelivered⟩ := Moved.outside hm
  refine ⟨fun row' hrow' => ?_, fun j gj hj => ?_, ?_, ?_, ?_⟩
  · obtain ⟨rfl, hrow⟩ := hdb.row hrow'
    cases hrow with
    | same hrow => exact h.rows row' hrow
    | start _ hactive => exact hactive
    | submit d attempt row hrow _ hfixed _ he =>
      have hid : row.id = row'.id := Table.key_of_get hrow
      rw [Phase.late_submission rfl, decide_eq_false_iff_not] at hg
      exact absurd ((TestSession.fixed_eq_iff.mp hfixed).1.symm.trans hid) hg
    | mark session row hrow =>
      rw [Phase.late_opens rfl, decide_eq_false_iff_not] at hg
      exact absurd rfl hg
    | mirror session row answers hrow he => rw [he]; exact h.rows row hrow
  · rcases hm.phase_cases hj with ⟨rfl, rfl⟩ | ⟨-, hj⟩
    · exact hl
    · exact h.phases j gj hj
  · cases Moved.graceKey hm hw sessionId with
    | same hkey => exact hkey.trans h.grace
    | opened => rw [Phase.late_opens rfl, decide_eq_false_iff_not] at hg; exact absurd rfl hg
    | taken _ _ _ _ _ _ hkey => exact hkey
  · rw [hundelivered, hdelivered]
    exact h.told
  · intro a ha hid
    rcases hdb.attempts_cases with hsame | ⟨d, attempt, row, rfl, -, -, -, -, -, happ, -⟩
    · exact h.attempts a (hsame ▸ ha) hid
    · rw [happ] at ha
      rcases List.mem_append.mp ha with ha | ha
      · exact h.attempts a ha hid
      · cases List.mem_singleton.mp ha
        rw [Phase.late_submission rfl, decide_eq_false_iff_not] at hg
        exact hg hid

/-- What the process carries of the answers comes from the row or from the grace key. -/
theorem Agrees.carries {saved : Answers} (h : Agrees sessionId saved c) (hb : Base c)
    (hw : RedisOk c.world)
    (hsubmit : ∀ id userId answers, g = .submitGuard id userId answers → id ≠ sessionId)
    (hlate : ∀ session answers, g = .lateGate sessionId session answers → answers = [])
    (hm : Moved monitor examSystem c c' i call r g g') : g'.carries sessionId saved := by
  have hn := hm.next
  have hg := h.phases i g hm.before
  cases r with
  | error e => cases hn; exact Phase.carries_of_not_late Phase.late_failed
  | ok a =>
    cases hsub : g'.submission with
    | some d =>
      rw [Phase.carries_submission hsub]
      rcases Phase.submission_next hn hsub with hd | hgains
      · exact (Phase.carries_submission hd).mp hg
      · intro hid
        cases hgains with
        | submit =>
          refine absurd ?_ (hsubmit _ _ _ rfl)
          rw [← hid]
          exact (Table.key_of_get (findOne_answer hm.answers).symm).symm
        | @late id row answers snapshot value? hsnap =>
          obtain ⟨-, he, -⟩ := hb.holds _ _ hm.before
          obtain rfl : id = sessionId := he.symm.trans hid
          obtain rfl := hlate row answers rfl
          cases Moved.graceKey hm hw id with
          | same _ _ ht => simp [Call.obtainsGrace, hsnap] at ht
          | taken _ _ snapshot' it hlive hvalue =>
            have := hvalue.symm.trans (h.grace it hlive)
            cases this
            cases hsnap
            rfl
        | @auto id row =>
          have hrow := (findOne_answer hm.answers).symm
          obtain rfl : row.id = id := Table.key_of_get hrow
          exact h.rows row (hid ▸ hrow)
    | none =>
      cases hopens : g'.opens with
      | some id =>
        have ho := Phase.opens_next hn hopens
        cases ho with
        | read hs =>
          rintro rfl
          exact h.rows _ (findOne_answer hm.answers).symm
        | mark => exact hg
      | none =>
        cases g' with
        | expiryMark | expiryGrace => cases hopens
        | scoring | begun | moved | stored | closed => cases hsub
        | _ => exact trivial

/-- A step that acknowledges no autosave of the session keeps everything in agreement. -/
theorem Agrees.move {saved : Answers} (h : Agrees sessionId saved c) (hb : Base c)
    (hw : RedisOk c.world) (hfresh : sessionId ∉ c.world.issued → saved = [])
    (hsubmit : ∀ id userId answers, g = .submitGuard id userId answers → id ≠ sessionId)
    (hlate : ∀ session answers, g = .lateGate sessionId session answers → answers = [])
    (hmirror : ∀ session answers a, g = .saveMirror sessionId session answers → r ≠ .ok a)
    (hm : Moved monitor examSystem c c' i call r g g') : Agrees sessionId saved c' := by
  have hdb := hb.db hm
  have hg := h.phases i g hm.before
  refine ⟨fun row' hrow' => ?_, fun it hit => ?_, fun j gj hj => ?_, fun a ha hid => ?_⟩
  · obtain ⟨rfl, hrow⟩ := hdb.row hrow'
    cases hrow with
    | same hrow => exact h.rows row' hrow
    | start hnew _ hsnap => rw [hsnap, hfresh hnew]; rfl
    | submit d attempt row hrow _ hfixed _ he =>
      have hid : row.id = row'.id := Table.key_of_get hrow
      have hanswers : d.session.id = row'.id → d.answers = saved := hg
      rw [he]
      exact hanswers ((TestSession.fixed_eq_iff.mp hfixed).1.symm.trans hid)
    | mark session row hrow he => rw [he]; exact h.rows row hrow
    | mirror session row answers => exact absurd rfl (hmirror session answers () rfl)
  · cases Moved.graceKey hm hw sessionId with
    | same hkey => exact h.grace it (hkey ▸ hit)
    | opened snapshot hkey =>
      have hsnapshot : sessionId = sessionId → snapshot = saved := hg
      cases hkey.symm.trans hit
      rw [hsnapshot rfl]
    | taken _ _ _ _ _ _ hkey => rw [hkey] at hit; cases hit
  · rcases hm.phase_cases hj with ⟨rfl, rfl⟩ | ⟨-, hj⟩
    · exact h.carries hb hw hsubmit hlate hm
    · exact h.phases j gj hj
  · rcases hdb.attempts_cases with hsame | ⟨d, attempt, row, rfl, -, -, -, -, hmakes, happ, -⟩
    · exact h.attempts a (hsame ▸ ha) hid
    · rw [happ] at ha
      rcases List.mem_append.mp ha with ha | ha
      · exact h.attempts a ha hid
      · cases List.mem_singleton.mp ha
        have hanswers : d.session.id = sessionId → d.answers = saved := hg
        exact hmakes.2.2.2.1.trans (hanswers hid)

/-- When an autosave is acknowledged, the row has its answers, and nothing else has any yet. -/
theorem Agrees.mirrored {session : TestSession} {answers : Answers} (hb : Base c) (he : Early sessionId c')
    (hm : Moved monitor examSystem c c' i (.testSessionUpdateSnapshot sessionId answers) (.ok ())
      (.saveMirror sessionId session answers) .saved) : Agrees sessionId answers c' := by
  refine ⟨fun row hrow => ?_, fun it hit => ?_, fun j gj hj => ?_, fun a ha hid => ?_⟩
  · have hdb := hb.db hm
    generalize hw : c'.world = w at hdb hrow
    cases hdb with
    | same _ hr => obtain ⟨e, he⟩ := hr rfl; cases he
    | mirror session answers _ h =>
      rw [show w.sessions = _ from congrArg Tables.sessions h,
        Table.get_update c.world.sessions _ (fun s => { s with snapshot := some answers })
          (fun _ => rfl), if_pos rfl] at hrow
      obtain ⟨row', -, rfl⟩ := Option.map_eq_some_iff.mp hrow
      rfl
  · rw [he.grace] at hit; cases hit
  · exact Phase.carries_of_not_late (he.phases j gj hj)
  · exact absurd hid (he.attempts a ha)

theorem InOrder.move (h : InOrder sessionId c) (hb : Base c) (hw : RedisOk c.world)
    (hk : KeyOnce sessionId c) (horigin : ∀ t, c.task? i = some t → g.of t)
    (hmirroring : ∀ j session answers,
      monitor.phase c j = some (.saveMirror sessionId session answers) → Mirroring c sessionId)
    (hsave : ∀ a, r = .ok a → (call.saves sessionId r).isSome → ¬Mirroring c sessionId)
    (hread : ∀ a row, r = .ok a → g = .expiryGuard sessionId →
      call = .testSessionFindOne sessionId → c.world.sessions.get sessionId = some row →
      row.status = .active → ¬Mirroring c sessionId)
    (hm : Moved monitor examSystem c c' i call r g g') : InOrder sessionId c' := by
  obtain ⟨t, ht⟩ := Monitor.task_of_phase hm.before
  have hof := horigin t ht
  have hspares := h.tasks i t ht
  have hsubmit : ∀ id userId answers, g = .submitGuard id userId answers → id ≠ sessionId := by
    rintro id userId answers rfl
    cases hof
    exact of_decide_eq_true hspares
  have hlate : ∀ session answers, g = .lateGate sessionId session answers → answers = [] := by
    rintro session answers rfl
    obtain ⟨userId, rfl⟩ := hof
    exact of_decide_eq_true hspares rfl
  have hlog := h.log.move hb hk horigin hmirroring hsave hm
  have hstage : Early sessionId c' ∨ Quiesced sessionId c' := by
    rcases h.stage with he | hq
    · cases hl : g'.late sessionId with
      | false => exact .inl (he.stay hb hw hm hl)
      | true =>
        refine .inr (he.leave hb hw hk hsubmit ?_ hm hl)
        intro a row hr hg hcall hrow hs j session answers hj
        exact hread a row hr hg hcall hrow hs (hmirroring j session answers hj)
    · exact .inr (hq.move hb hm)
  refine ⟨fun j t ht => h.tasks j t (hm.task j ▸ ht), hlog, ?_, hstage⟩
  by_cases hack : ∃ session answers a, g = .saveMirror sessionId session answers ∧ r = .ok a
  · obtain ⟨session, answers, a, rfl, rfl⟩ := hack
    obtain ⟨rfl, rfl⟩ := Phase.next_mirror hm.next
    obtain ⟨-, rfl, -⟩ := hb.holds _ _ hm.before
    rw [lastSaved_acknowledged h.log hm rfl rfl rfl]
    rcases h.stage with he | hq
    · exact Agrees.mirrored hb (he.stay hb hw hm rfl) hm
    · exact absurd hm.before (hq.mirror i session answers)
  · have hsame : lastSaved sessionId c' = lastSaved sessionId c := by
      refine lastSaved_same hm ?_
      rintro rfl e he rfl
      have hn := hm.next
      cases r with
      | error e => exact absurd (Option.some.inj hn) Phase.failed_ne_saved
      | ok a =>
        obtain ⟨id, session, answers, rfl, rfl⟩ := Phase.saved_next hn
        obtain ⟨userId, answers', ht'⟩ := hlog.task e he
        obtain ⟨userId', rfl⟩ := hof
        cases ht'.symm.trans ((hm.task _).trans ht)
        exact hack ⟨session, answers, a, rfl, rfl⟩
    rw [hsame]
    refine h.agrees.move hb hw ?_ hsubmit hlate ?_ hm
    · intro hfresh
      rw [lastSaved, h.log.fresh hfresh]
      rfl
    · rintro session answers a hg hr
      exact hack ⟨session, answers, a, hg, hr⟩

/-- New tasks spare the session, and time only takes its keys. -/
theorem InOrder.start (h : InOrder sessionId c) (hlog : c.LogOk) {ts : List Task} {w : World}
    (hw : w.tables = c.world.tables)
    (hspares : ∀ t ∈ ts, t.spares sessionId = true)
    (hget : ∀ key it, w.redis.get key = some it → c.world.redis.get key = some it)
    (htold : graceKey sessionId ∈ w.undelivered ∨ graceKey sessionId ∈ w.delivered →
      (graceKey sessionId ∈ c.world.undelivered ∨ graceKey sessionId ∈ c.world.delivered) ∨
        (c.world.redis.get (graceKey sessionId)).isSome)
    (htasks : .handleExpiry .grace sessionId ∈ ts →
      graceKey sessionId ∈ c.world.undelivered ∨ graceKey sessionId ∈ c.world.delivered) :
    InOrder sessionId (c.start examSystem ts w) := by
  have hnone : ∀ key, c.world.redis.get key = none → w.redis.get key = none := by
    intro key hn
    cases hk : w.redis.get key with
    | none => rfl
    | some it => rw [hget key it hk] at hn; cases hn
  have hsessions : w.sessions = c.world.sessions := congrArg Tables.sessions hw
  have hattempts : w.attempts = c.world.attempts := congrArg Tables.attempts hw
  refine ⟨fun i t ht => ?_, h.log.start hlog ts hw, ?_, ?_⟩
  · obtain ⟨p, hp, rfl⟩ := Option.map_eq_some_iff.mp ht
    rcases c.start_procs_cases _ hp with hp | ⟨-, t, hmem, rfl⟩
    · exact h.tasks i p.task (Option.map_eq_some_iff.mpr ⟨p, hp, rfl⟩)
    · exact hspares t hmem
  · rw [lastSaved_start hlog]
    refine ⟨fun row hrow => h.agrees.rows row ?_, fun it hit => h.agrees.grace it (hget _ _ hit),
      fun i g hg => ?_, fun a ha => h.agrees.attempts a (hattempts ▸ ha)⟩
    · rwa [Config.start_world, hsessions] at hrow
    · rcases Monitor.phase_start_cases hlog hg with hg | ⟨-, t, -, rfl⟩
      · exact h.agrees.phases i g hg
      · exact Phase.start_carries t
  · rcases h.stage with he | hq
    · left
      have hquiet : ¬(graceKey sessionId ∈ w.undelivered ∨ graceKey sessionId ∈ w.delivered) := by
        intro ht
        rcases htold ht with ht | hlive
        · exact he.told ht
        · rw [he.grace] at hlive; cases hlive
      refine ⟨fun row hrow => he.rows row ?_, fun i g hg => ?_, hnone _ he.grace, hquiet,
        fun a ha => he.attempts a (hattempts ▸ ha)⟩
      · rwa [Config.start_world, hsessions] at hrow
      · rcases Monitor.phase_start_cases hlog hg with hg | ⟨-, t, hmem, rfl⟩
        · exact he.phases i g hg
        · cases hl : (Phase.start t).late sessionId with
          | false => rw [monitor_start, hl]
          | true =>
            obtain rfl := Phase.start_late hl
            exact absurd (htasks hmem) he.told
    · right
      refine ⟨hq.gone.start hlog ts hw (hnone _ hq.gone.2), fun i session answers hi => ?_⟩
      rcases Monitor.phase_start_cases hlog hi with hi | ⟨-, t, -, he⟩
      · exact hq.mirror i session answers hi
      · cases t with
        | handleExpiry type => cases type <;> cases he
        | _ => cases he

def Unsubmitted (sessionId : Id) (c : Pool) (l : PoolLabel) : Prop :=
  NeverSubmits sessionId c l ∧ SavesInOrder sessionId c l

instance (sessionId : Id) : ∀ c l, Decidable (Unsubmitted sessionId c l) := fun _ _ =>
  inferInstanceAs (Decidable (_ ∧ _))

theorem Reachable.inOrder (h : Reachable (Unsubmitted sessionId) c) : InOrder sessionId c := by
  refine Reach.invariant monitor_sound (I := InOrder sessionId) ?_ ?_ ?_ ?_ h
  · intro w hw
    have hphase : ∀ i, monitor.phase (.initial w) i = none := fun i =>
      Monitor.phase_none (Nat.zero_le _)
    have hlog : SaveLog sessionId (.initial w) := by
      refine ⟨fun e he => ?_, fun i _ _ hi => ?_, fun _ => rfl⟩
      · cases he
      · rw [hphase] at hi; cases hi
    refine ⟨fun i t ht => ?_, hlog,
      ⟨fun row hrow => ?_, fun it hit => ?_, fun i g hg => ?_, fun a ha => ?_⟩,
      .inl ⟨fun row hrow => ?_, fun i g hg => ?_, ?_, ?_, fun a ha => ?_⟩⟩
    · simp [Config.initial, Config.task?] at ht
    · simp [Config.initial, Table.get, hw.sessions] at hrow
    · simp [Config.initial, Table.get, hw.redis] at hit
    · rw [hphase] at hg; cases hg
    · simp [Config.initial, hw.attempts] at ha
    · simp [Config.initial, Table.get, hw.sessions] at hrow
    · rw [hphase] at hg; cases hg
    · simp [Config.initial, Table.get, hw.redis]
    · simp [Config.initial, hw.undelivered, hw.delivered]
    · simp [Config.initial, hw.attempts] at ha
  · intro c t hr hI hP ht
    refine hI.start (hr.logOk monitor_sound) rfl ?_ (fun _ _ h => h) .inl fun hts => ?_
    · intro t' ht'
      cases List.mem_singleton.mp ht'
      exact hP.1
    · cases List.mem_singleton.mp hts
      cases ht
  · intro c v w ts hr hI _ hv
    refine hI.start (hr.logOk monitor_sound) (envStep_db hv).1 ?_
      (fun _ _ hit => envStep_get hv hit) (fun ht => (envStep_told hv ht).imp_right And.left) ?_
    · intro t ht
      obtain ⟨key, hkey, -⟩ := envStep_tasks hv t ht
      rcases key_of_onMessage hkey with ⟨id, rfl, -⟩ | ⟨id, rfl, -⟩ <;> rfl
    · intro hts
      obtain ⟨key, hkey, hmem⟩ := envStep_tasks hv _ hts
      rcases key_of_onMessage hkey with ⟨id, he, -⟩ | ⟨id, he, rfl⟩ <;> cases he
      exact hmem
  · intro c c' i call r g g' hr hI hP hm
    have horigin : ∀ t, c.task? i = some t → g.of t := fun t ht =>
      Reachable.origin hr i t g ht hm.before
    obtain ⟨t, ht⟩ := Monitor.task_of_phase hm.before
    refine hI.move (Reachable.base hr) (Reachable.redisOk hr) (Reachable.keyOnce hr sessionId) horigin
      (fun j session answers hj => Reachable.mirroring hr hj) ?_ ?_ hm
    · rintro a rfl hsome
      obtain ⟨x, -, hguard⟩ := hP.guard
      cases Moved.sessionKey hm sessionId with
      | same _ hs => rw [hs] at hsome; cases hsome
      | start => cases hsome
      | save =>
        obtain ⟨userId, rfl⟩ := horigin t ht
        simp only [SavesInOrder, ht, hm.waits] at hguard
        exact hguard trivial
      | delete => cases hsome
    · rintro a row rfl rfl rfl hrow hactive hmirroring
      obtain ⟨x, -, hguard⟩ := hP.guard
      cases horigin t ht
      simp only [SavesInOrder, ht, hm.waits] at hguard
      simpa [hrow, hactive] using hguard trivial hmirroring

/-- While autosaves keep their order, an automatic submit and a late submit without answers both
score the answers of the acknowledged autosave whose Redis write came last. -/
theorem scored_last_saved (h : Reachable (Unsubmitted sessionId) c) :
    ∀ a ∈ c.world.attempts, a.session.id = sessionId →
      a.attempt.answers = lastSaved sessionId c :=
  (Reachable.inOrder h).agrees.attempts

end

/-- The time of session "S" is up, its handler (process `i`) opens the grace window, and the event
of the grace key starts an automatic submit (process `i + 1`). -/
def autoSubmits (i : Nat) : List PoolLabel :=
  expires ++ calls i 3 ++ .env (.tick 120000) :: .env (.deliver "exam:grace:S") :: calls (i + 1) 9

set_option maxRecDepth 100000 in
theorem scored_last_saved_auto :
    ∃ c, @Reachable plainBcrypt (Unsubmitted "S") c ∧ lastSaved "S" c = [("Q", "O")] ∧
      ∃ a ∈ c.world.attempts, a.session.id = "S" ∧ a.attempt.answers = lastSaved "S" c := by
  obtain ⟨c, hc, hlast, a, ha, hid⟩ := exists_reachable (P := Unsubmitted "S")
    (starts ++ .spawn (.autosave "S" "u" [("Q", "O")]) :: calls 1 4 ++ autoSubmits 2)
    (p := fun c => lastSaved "S" c = [("Q", "O")] ∧ ∃ a ∈ c.world.attempts, a.session.id = "S")
    (by decide)
  exact ⟨c, hc, hlast, a, ha, hid, @scored_last_saved plainBcrypt c "S" hc a ha hid⟩

/-- The second autosave (process 2) makes both its writes between those of the first. -/
def savesOutOfOrder : List PoolLabel :=
  starts ++ .spawn (.autosave "S" "u" [("Q", "O")]) :: calls 1 3 ++
    .spawn (.autosave "S" "u" [("Q", "P")]) :: calls 2 4 ++ calls 1 1 ++ autoSubmits 3

set_option maxRecDepth 100000 in
theorem scored_earlier_save :
    ¬∀ c, @Reachable plainBcrypt (NeverSubmits "S") c → ∀ a ∈ c.world.attempts,
      a.session.id = "S" → a.attempt.answers = lastSaved "S" c := by
  intro hall
  obtain ⟨c, hc, a, ha, hid, hne⟩ := exists_reachable (P := NeverSubmits "S") savesOutOfOrder
    (p := fun c => ∃ a ∈ c.world.attempts, a.session.id = "S" ∧ a.attempt.answers ≠ lastSaved "S" c)
    (by decide)
  exact hne (hall c hc a ha hid)

end LmsBackend.Exams
