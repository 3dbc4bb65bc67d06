import LmsBackend.Exams.Calls
import LmsBackend.Exams.OneAttempt
import LmsBackend.Exams.Origin

/-!
# Students apart

A request of a student changes no row and no key of another one, whatever
session, code and exam it names.
-/

open Async Store

namespace LmsBackend.Exams

/-! ## Only assignments issue codes -/

/-- The calls of the task. -/
def Task.mayCall (t : Task) (c : Call) : Prop := t.student?.isSome → c.issuesCode = false

theorem Task.prog_mayCall (t : Task) : (Contract.only t.mayCall).Meets t.prog fun _ => True := by
  refine Lets.prog ⟨fun c hc _ _ => hc, fun ht c _ h => ?_, fun _ _ _ _ _ _ _ _ _ => rfl⟩
  rw [ht] at h
  cases h

/-! ## Whose session an execution has in hand -/

namespace Phase

/-- The student whose code or session it is. -/
def student? : Phase → Option Id
  | .looking userId _ | .candidates userId _ _ _ | .guarded userId _ _ | .consuming userId _ _
  | .consumed userId _ _ _ | .saveGuard _ userId _ | .submitGuard _ userId _
  | .lateGuard _ userId _ => some userId
  | .inserted _ session | .created _ session | .undoing _ session | .undoBegun _ session
  | .undoDeleted _ session | .undoRestored _ session | .saveGet _ session _
  | .saveSet _ session _ _ | .saveMirror _ session _ | .lateGate _ session _ => some session.userId
  | .scoring d | .begun d | .moved d _ | .stored d _ | .closed d => some d.session.userId
  | _ => none

/-- A row that is read by a student is a row of the student. -/
theorem student_read {g g' : Phase} {id : Id} {row? : Option TestSession} {v : Id}
    (hn : g.read id row? = some g') (hv : g'.student? = some v) :
    g.student? = some v ∨ ∃ sessionId, g = .autoGuard sessionId := by
  cases g with
  | saveGuard sessionId userId answers | submitGuard sessionId userId answers
  | lateGuard sessionId userId answers =>
    simp only [read] at hn
    repeat' split at hn
    all_goals first | (cases hn; done) | (cases hn; cases hv; done) | skip
    cases hn
    cases hv
    rename_i h
    exact .inl (congrArg some h.1.symm)
  | autoGuard sessionId => exact .inr ⟨sessionId, rfl⟩
  | _ =>
    simp only [read] at hn
    repeat' split at hn
    all_goals first | (cases hn; done) | (cases hn; cases hv)

theorem student_failed {g : Phase} {c : Call} {v : Id} (hv : (g.failed c).student? = some v) :
    g.student? = some v := by
  unfold failed at hv
  split at hv
  · cases hv
  · cases hv
  · exact hv
  · split at hv <;> cases hv

/-- The student of a phase stays the student until the execution has nothing in hand. -/
theorem student_next {g g' : Phase} {c : Call} {a : Resp c} {v : Id}
    (hc : ∀ userId? row, c ≠ .txSaveTestSession userId? row) (hn : g.nextOk c a = some g')
    (hv : g'.student? = some v) :
    g.student? = some v ∨ ∃ sessionId, g = .autoGuard sessionId := by
  cases c with
  | testSessionFindOne id => exact student_read hn hv
  | txSaveTestSession userId? row => exact absurd rfl (hc userId? row)
  | _ =>
    simp only [nextOk] at hn
    repeat' split at hn
    all_goals first
      | (cases hn; done)
      | (cases hn; cases hv; done)
      | (cases hn; exact .inl hv)

end Phase

section

variable [Bcrypt] {P : Guard World Call Resp Err Reply Task Choice EnvEvent} {c c' : Pool}
  {i : Nat} {call : Call} {r : Except Err (Resp call)} {g g' : Phase} {u v : Id}

/-- The row that the database stores is the one of the student who starts. -/
theorem saved_student {w w' : World} {userId? : Option Id} {row session : TestSession}
    (h : Answered examSystem i (.txSaveTestSession userId? row) w (.ok session) w') :
    userId? = some session.userId := by
  obtain ⟨hx⟩ := h
  obtain ⟨t, -, hx⟩ := inTxn_ok hx
  cases userId? with
  | none => cases hx
  | some userId =>
    simp only at hx
    split at hx <;> cases hx
    rfl

theorem Moved.student (hm : Moved monitor examSystem c c' i call r g g')
    (hv : g'.student? = some v) :
    g.student? = some v ∨ ∃ sessionId, g = .autoGuard sessionId := by
  have hn := hm.next
  cases r with
  | error e =>
    cases hn
    exact .inl (Phase.student_failed hv)
  | ok a =>
    by_cases hc : ∀ userId? row, call ≠ .txSaveTestSession userId? row
    · exact Phase.student_next hc hn hv
    · simp only [ne_eq, not_forall, not_not] at hc
      obtain ⟨userId?, row, rfl⟩ := hc
      have hstudent := saved_student hm.answers
      simp only [Monitor.advance, monitor_next, Phase.nextOk] at hn
      split at hn
      · split at hn <;> cases hn
        rename_i h
        cases hv
        exact .inl (by rw [Phase.student?, ← hstudent, h.1])
      · cases hn

/-- What the request of a student has in hand is the student's. -/
theorem Reachable.student (h : Reachable P c) :
    ∀ i t g u v, c.task? i = some t → monitor.phase c i = some g → t.student? = some u →
      g.student? = some v → v = u := by
  have hstart : ∀ (c : Pool) ts w, c.LogOk →
      (∀ i t g u v, c.task? i = some t → monitor.phase c i = some g → t.student? = some u →
        g.student? = some v → v = u) →
      ∀ i t g u v, (c.start examSystem ts w).task? i = some t →
        monitor.phase (c.start examSystem ts w) i = some g → t.student? = some u →
        g.student? = some v → v = u := by
    intro c ts w hlog hI i t g u v ht hg hu hv
    rcases Nat.lt_or_ge i c.procs.length with hi | hi
    · rw [Monitor.phase_start_of_lt hi] at hg
      rw [Config.task?, c.start_procs_of_lt _ hi] at ht
      exact hI i t g u v ht hg hu hv
    · obtain ⟨t', -, rfl, ht', -⟩ := Monitor.phase_start_task hlog hi hg
      cases ht'.symm.trans ht
      cases t <;> cases hu <;> cases hv <;> rfl
  refine Reach.invariant monitor_sound (I := fun c => ∀ i t g u v, c.task? i = some t →
    monitor.phase c i = some g → t.student? = some u → g.student? = some v → v = u) ?_ ?_ ?_ ?_ h
  · intro w _ i t g u v _ hg
    rw [Monitor.phase_none (Nat.zero_le _)] at hg
    cases hg
  · intro c t hr hI _ _
    exact hstart c [t] _ (hr.logOk monitor_sound) hI
  · intro c v w ts hr hI _ _
    exact hstart c ts w (hr.logOk monitor_sound) hI
  · intro c c' i call r g g' hr hI _ hm j t gj u v ht hg hu hv
    rw [hm.task] at ht
    rcases hm.phase_cases hg with ⟨rfl, rfl⟩ | ⟨-, hg⟩
    · rcases Moved.student hm hv with hv | ⟨sessionId, rfl⟩
      · exact hI j t g u v ht hm.before hu hv
      · cases Reachable.origin hr j t _ ht hm.before
        cases hu
    · exact hI j t gj u v ht hg hu hv

end

/-! ## What a student has -/

/-- The codes, sessions, attempts and session keys of the student are the same. -/
structure SameFor (u : Id) (w w' : World) : Prop where
  codes : ∀ row : ExamAccessCode, row.userId = u → (row ∈ w'.codes.rows ↔ row ∈ w.codes.rows)
  sessions : ∀ row : TestSession, row.userId = u → (row ∈ w'.sessions.rows ↔ row ∈ w.sessions.rows)
  attempts : (w'.attempts.filter fun a => a.attempt.userId = u) =
    w.attempts.filter fun a => a.attempt.userId = u
  keys : ∀ row ∈ w.sessions.rows, row.userId = u →
    w'.redis.get (sessionKey row.id) = w.redis.get (sessionKey row.id) ∧
      w'.redis.get (graceKey row.id) = w.redis.get (graceKey row.id)

theorem SameFor.refl (u : Id) (w : World) : SameFor u w w :=
  ⟨fun _ _ => .rfl, fun _ _ => .rfl, rfl, fun _ _ _ => ⟨rfl, rfl⟩⟩

theorem SameFor.trans {u : Id} {w w' w'' : World} (h : SameFor u w w') (h' : SameFor u w' w'') :
    SameFor u w w'' where
  codes row hu := (h'.codes row hu).trans (h.codes row hu)
  sessions row hu := (h'.sessions row hu).trans (h.sessions row hu)
  attempts := h'.attempts.trans h.attempts
  keys row hmem hu := by
    obtain ⟨hsession, hgrace⟩ := h.keys row hmem hu
    obtain ⟨hsession', hgrace'⟩ := h'.keys row ((h.sessions row hu).mpr hmem) hu
    exact ⟨hsession'.trans hsession, hgrace'.trans hgrace⟩

section

variable {i : Nat} {w w' : World} {g g' : Phase} {call : Call} {r : Except Err (Resp call)}
  {t : Task} {u v : Id}

/-- The tables that a student's request leaves the others. -/
theorem DbStep.others (h : DbStep i w w' g call r) (hw : w.tables.Ok) (hg : g.Holds i w)
    (ht : t.student? = some v) (hof : g.of t) (hv : ∀ s, g.student? = some s → s = v) (hu : u ≠ v)
    (hcall : call.issuesCode = false) :
    (∀ row : ExamAccessCode, row.userId = u → (row ∈ w'.codes.rows ↔ row ∈ w.codes.rows)) ∧
    (∀ row : TestSession, row.userId = u → (row ∈ w'.sessions.rows ↔ row ∈ w.sessions.rows)) ∧
    (w'.attempts.filter fun a => a.attempt.userId = u) =
      w.attempts.filter fun a => a.attempt.userId = u := by
  have hne : ∀ {s : Id}, g.student? = some s → s ≠ u := fun hs he => hu (he ▸ hv _ hs)
  have hcodes : w'.codes = w'.tables.codes := rfl
  have hsessions : w'.sessions = w'.tables.sessions := rfl
  have hattempts : w'.attempts = w'.tables.attempts := rfl
  cases h with
  | same h _ =>
    rw [hcodes, hsessions, hattempts, h]
    exact ⟨fun _ _ => .rfl, fun _ _ => .rfl, rfl⟩
  | issue code hnew hunused h => cases hcall
  | start code session usedAt hcode hunused hfresh htoken hmatch hactive hsnap hlock hlock' h =>
    rw [hcodes, hsessions, hattempts, h]
    have hstudent : session.userId ≠ u := hne rfl
    have hcode' : code.userId ≠ u := by rwa [hmatch.1]
    refine ⟨fun row hrow => ?_, fun row hrow => ?_, rfl⟩
    · refine Table.mem_put_outside (p := fun r => r.userId = u) hcode' (fun y hy => ?_) hrow
      cases hcode.symm.trans hy
      exact hcode'
    · refine Table.mem_put_outside (p := fun r => r.userId = u) hstudent (fun y hy => ?_) hrow
      exact absurd (hw.issued _ _ hy) hfresh
  | undo code session row hrow hfixed hcode htoken hlock hlock' h =>
    rw [hcodes, hsessions, hattempts, h]
    have hstudent : session.userId ≠ u := hne rfl
    have hrow' : row.userId ≠ u := by rwa [(TestSession.fixed_eq_iff.mp hfixed).2.1]
    have hcode' : code.userId ≠ u := by
      obtain ⟨code', hget, hmatch⟩ := hw.code _ _ hrow
      rw [TestSession.sessionToken_of_fixed hfixed, htoken] at hget
      cases hcode.symm.trans hget
      rwa [hmatch.1]
    refine ⟨fun x hx => ?_, fun x hx => ?_, rfl⟩
    · refine Table.mem_put_outside (p := fun r => r.userId = u) hcode' (fun y hy => ?_) hx
      cases hcode.symm.trans hy
      exact hcode'
    · refine Table.mem_erase_outside (p := fun r => r.userId = u) (fun y hy => ?_) hx
      cases hrow.symm.trans hy
      exact hrow'
  | submit d attempt row hrow hopen hfixed hmakes hlock h =>
    rw [hcodes, hsessions, hattempts, h]
    have hstudent : d.session.userId ≠ u := hne rfl
    have hrow' : row.userId ≠ u := by rwa [(TestSession.fixed_eq_iff.mp hfixed).2.1]
    have hid : row.id = d.session.id := Table.key_of_get hrow
    refine ⟨fun _ _ => .rfl, fun x hx => ?_, ?_⟩
    · refine Table.mem_put_outside (p := fun r => r.userId = u) hrow' (fun y hy => ?_) hx
      have hy : w.sessions.get row.id = some y := hy
      rw [hid, hrow] at hy
      cases hy
      exact hrow'
    · have hattempt : attempt.userId ≠ u := by rwa [hmakes.1]
      simp [List.filter_append, hattempt]
  | mark session hlock h =>
    cases hof
    cases ht
  | mirror session answers hlock h =>
    rw [hcodes, hsessions, hattempts, h]
    have hstudent : session.userId ≠ u := hne rfl
    refine ⟨fun _ _ => .rfl, fun x hx => ?_, rfl⟩
    refine Table.mem_update_outside (p := fun r => r.userId = u) (fun _ => rfl) (fun y hy => ?_) hx
    have hy' : y.userId ≠ u := by
      rwa [(TestSession.fixed_eq_iff.mp (hg.2.2.fixed y hy)).2.1]
    exact ⟨hy', hy'⟩

/-- The keys that it leaves them. -/
theorem RedisStep.others (h : RedisStep w w' g g' call r) (hg : g.Holds i w)
    (ht : t.student? = some v) (hof : g.of t) (hv : ∀ s, g.student? = some s → s = v) (hu : u ≠ v)
    {row : TestSession} (hrow : row ∈ w.sessions.rows) (hstudent : row.userId = u) :
    w'.redis.get (Exams.sessionKey row.id) = w.redis.get (Exams.sessionKey row.id) ∧
      w'.redis.get (Exams.graceKey row.id) = w.redis.get (Exams.graceKey row.id) := by
  have hget : w.sessions.get row.id = some row := Table.mem_rows_iff.mp hrow
  have hne : ∀ {s : Id}, g.student? = some s → s ≠ u := fun hs he => hu (he ▸ hv _ hs)
  -- A session of the process is none of the student's.
  have hother : ∀ {session row' : TestSession}, g.student? = some session.userId →
      w.sessions.get session.id = some row' → row'.fixed = session.fixed → session.id ≠ row.id := by
    intro session row' hs hget' hfixed hid
    rw [hid, hget] at hget'
    cases hget'
    exact hne hs ((TestSession.fixed_eq_iff.mp hfixed).2.1 ▸ hstudent)
  have hknown : ∀ {session : TestSession}, g.student? = some session.userId →
      Known session w.tables → session.id ≠ row.id := by
    intro session hs hk hid
    have hfixed := hk.fixed row (by rw [hid]; exact hget)
    exact hne hs ((TestSession.fixed_eq_iff.mp hfixed).2.1 ▸ hstudent)
  cases h with
  | same h _ => rw [h]; exact ⟨rfl, rfl⟩
  | start code session data ttlSeconds hanswers httl h =>
    obtain ⟨-, -, row', hget', hfixed⟩ := hg
    have hid := hother rfl hget' hfixed
    rw [h, TtlStore.get_set, TtlStore.get_set, if_neg (by rwa [sessionKey_inj]),
      if_neg (sessionKey_ne_graceKey _ _)]
    exact ⟨rfl, rfl⟩
  | save sessionId session answers data h =>
    obtain ⟨-, rfl, hk⟩ := hg
    have hid := hknown rfl hk
    rw [h, TtlStore.get_setKeepTtlXx, TtlStore.get_setKeepTtlXx, if_neg (by rwa [sessionKey_inj]),
      if_neg (sessionKey_ne_graceKey _ _)]
    exact ⟨rfl, rfl⟩
  | grace sessionId snapshot h =>
    cases hof
    cases ht
  | take sessionId session answers h =>
    obtain ⟨-, rfl, hk⟩ := hg
    have hid := hknown rfl hk
    rw [h, Table.get_erase, Table.get_erase, if_neg (sessionKey_ne_graceKey _ _).symm,
      if_neg (by rwa [graceKey_inj])]
    exact ⟨rfl, rfl⟩
  | delete d h =>
    have hid := hknown rfl hg.2
    rw [h, Table.get_erase, Table.get_erase, if_neg (by rwa [sessionKey_inj]),
      if_neg (sessionKey_ne_graceKey _ _)]
    exact ⟨rfl, rfl⟩

end

/-! ## Runs -/

section

variable [Bcrypt] {c c' : Pool} {u : Id}

/-- The steps that requests of other students than `u` take, and their arrival. -/
def OfOthers (u : Id) (c : Pool) : PoolLabel → Prop
  | .spawn _ => True
  | .run i _ | .fail i => ∃ v, (c.task? i).bind Task.student? = some v ∧ v ≠ u
  | .env _ => False

instance (u : Id) (c : Pool) : ∀ l, Decidable (OfOthers u c l)
  | .spawn _ => .isTrue trivial
  | .run i _ | .fail i =>
    match h : (c.task? i).bind Task.student? with
    | none => .isFalse fun ⟨_, hv, _⟩ => by rw [h] at hv; cases hv
    | some v => if hv : v = u then .isFalse fun ⟨v', hv', hne⟩ => by
        rw [h] at hv'
        cases hv'
        exact hne hv
      else .isTrue ⟨v, h, hv⟩
  | .env _ => .isFalse id

/-- One step of a request of another student. -/
theorem others_step (h : Reachable anyStep c) {l : PoolLabel} (hl : Step examSystem c l c')
    (hv : OfOthers u c l) : SameFor u c.world c'.world := by
  refine h.after_step monitor_sound (Q := OfOthers u) hv hl (I := fun c' => SameFor u c.world c'.world)
    ?_ ?_ ?_
  · intro t _ _
    exact .refl u _
  · intro v w ts hv _
    cases hv
  · intro c' i call r g g' hallowed hm
    have hi : ∃ v, (c.task? i).bind Task.student? = some v ∧ v ≠ u := by
      cases hallowed with
      | run _ hP => exact hP
      | fail _ _ hP => exact hP
    obtain ⟨v, hv, hne⟩ := hi
    obtain ⟨t, ht, hstudent⟩ := Option.bind_eq_some_iff.mp hv
    have hb := Reachable.base h
    have hg := hb.holds i g hm.before
    have hof := Reachable.origin h i t g ht hm.before
    have hown : ∀ s, g.student? = some s → s = v := fun s hs =>
      Reachable.student h i t g v s ht hm.before hstudent hs
    have hcall : call.issuesCode = false :=
      Contract.only_reach Task.prog_mayCall h ht hm.waits (by rw [hstudent]; rfl)
    obtain ⟨hcodes, hsessions, hattempts⟩ :=
      (hb.db hm).others hb.tables hg hstudent hof hown hne.symm hcall
    exact ⟨hcodes, hsessions, hattempts, fun row hrow hu =>
      (Moved.redis hm).others hg hstudent hof hown hne.symm hrow hu⟩

/-- Whatever other students request, with any session ids, codes and exam ids, in any interleaving
and with any failures: a student keeps every code, session, attempt and session key, and gets none. -/
theorem others_leave_student (h : Reachable anyStep c) (hs : Steps examSystem (OfOthers u) c c') :
    SameFor u c.world c'.world := by
  have hall : Reachable anyStep c' ∧ SameFor u c.world c'.world := by
    induction hs with
    | refl => exact ⟨h, .refl u _⟩
    | tail _ hl ih =>
      obtain ⟨l, hl', hstep⟩ := hl
      exact ⟨.step ih.1 trivial hstep, ih.2.trans (others_step ih.1 hstep hl')⟩
  exact hall.2

end

/-- A run of the school and one that goes on from where it ends, with `p`. -/
theorem exists_runs {Q : Pool → PoolLabel → Prop} [∀ c l, Decidable (Q c l)]
    (ls₁ ls₂ : List PoolLabel) {p : Pool → Pool → Prop} [∀ c₁ c₂, Decidable (p c₁ c₂)]
    (h : (runSchool anyStep ls₁).any (fun c₁ =>
      (runIf (@examSystem plainBcrypt) Q ls₂ c₁).any fun c₂ => p c₁ c₂) = true) :
    ∃ c₁ c₂, @Reachable plainBcrypt anyStep c₁ ∧ Steps (@examSystem plainBcrypt) Q c₁ c₂ ∧
      p c₁ c₂ := by
  obtain ⟨c₁, hc₁, h⟩ := (Option.any_eq_true _ _).mp h
  obtain ⟨c₂, hc₂, hp⟩ := (Option.any_eq_true _ _).mp h
  exact ⟨c₁, c₂, runSchool_reachable hc₁, runIf_steps hc₂, by simpa using hp⟩

set_option maxRecDepth 100000 in
/-- Student "V" submits the session of "u", and then submits it late. -/
theorem others_leave_student_submits :
    ∃ c c', @Reachable plainBcrypt anyStep c ∧
      Steps (@examSystem plainBcrypt) (OfOthers "u") c c' ∧
      c'.error? 1 = some (.forbidden "Session does not belong to this user") ∧
      SameFor "u" c.world c'.world := by
  obtain ⟨c, c', hr, hs, herror⟩ := exists_runs (Q := OfOthers "u")
    (p := fun _ c' => c'.error? 1 = some (.forbidden "Session does not belong to this user"))
    starts (.spawn (.submitExam "S" "V" []) :: calls 1 1 ++
      .spawn (.lateSubmitExam "S" "V" []) :: calls 2 1) (by decide)
  exact ⟨c, c', hr, hs, herror, @others_leave_student plainBcrypt c c' "u" hr hs⟩

end LmsBackend.Exams
