import LmsBackend.Exams.OneAttempt

/-!
# Terminal sessions and their attempts

The transaction that moves a session to its end inserts the attempt as well, so
neither is ever there without the other.
-/

open Async Store

namespace LmsBackend.Exams

variable {i : Nat} {w w' : World} {g : Phase} {call : Call} {r : Except Err (Resp call)}

/-! ## Every terminal session has its attempt -/

/-- The attempt that the session was moved with. -/
def AttemptRow.Ends (a : AttemptRow) (row : TestSession) : Prop :=
  a.session.id = row.id ∧ a.attempt.userId = row.userId ∧ a.attempt.examId = row.examId ∧
    row.certId = some a.attempt.certId ∧ a.attempt.startedAt = row.startedAt ∧
    row.submittedAt = some a.attempt.submittedAt ∧ row.status = a.attempt.status.session

/-- A session in a terminal status has an attempt that ended it. -/
def EndsWithAttempt (t : Tables) : Prop :=
  ∀ id row, t.sessions.get id = some row → row.isOpen = false → ∃ a ∈ t.attempts, a.Ends row

theorem AttemptRow.Ends.congr {a : AttemptRow} {s t : TestSession} (h : a.Ends s)
    (hf : t.fixed = s.fixed) (hstatus : t.status = s.status)
    (hat : t.submittedAt = s.submittedAt) : a.Ends t := by
  obtain ⟨hid, hu, he, hc, -, hst, -⟩ := TestSession.fixed_eq_iff.mp hf
  obtain ⟨h1, h2, h3, h4, h5, h6, h7⟩ := h
  exact ⟨h1.trans hid.symm, h2.trans hu.symm, h3.trans he.symm, hc.trans h4, h5.trans hst.symm,
    hat.trans h6, hstatus.trans h7⟩

theorem EndsWithAttempt.step (ht : w.tables.Ok) (hI : EndsWithAttempt w.tables)
    (h : DbStep i w w' g call r) : EndsWithAttempt w'.tables := by
  have hmono : ∀ a ∈ w.attempts, a ∈ w'.attempts := by
    intro a ha
    rcases h.attempts_cases with he | ⟨_, _, _, _, _, _, _, _, _, he, _⟩ <;> rw [he]
    · exact ha
    · exact List.mem_append_left _ ha
  intro id row' hrow' hdone
  obtain ⟨rfl, hrow⟩ := h.row hrow'
  cases hrow with
  | same h =>
    obtain ⟨a, ha, hends⟩ := hI _ row' h hdone
    exact ⟨a, hmono a ha, hends⟩
  | start _ hactive => simp [TestSession.isOpen, TestSessionStatus.isOpen, hactive] at hdone
  | submit d attempt row hrow hopen hfixed hmakes he ha =>
    obtain ⟨code, -, hm⟩ := ht.code _ _ hrow
    obtain ⟨hid, hu, hexam, hcert, -, hst, -⟩ := TestSession.fixed_eq_iff.mp hfixed
    obtain ⟨m1, m2, m3, -, m5, -, m7, -⟩ := hmakes
    refine ⟨⟨d.session, i, attempt⟩, ?_, ?_⟩
    · change _ ∈ w'.attempts
      rw [ha]
      exact List.mem_append_right _ (.head _)
    · rw [he]
      refine ⟨hid.symm, m1.trans hu.symm, m2.trans hexam.symm, ?_, m5.trans hst.symm, rfl, ?_⟩
      · rw [m3, ExamService.resolveCertId, ← hcert]
        change row.certId = _
        rw [hm.2.2]
        rfl
      · rw [m7]
        rfl
  | mark session row hrow he => simp [he, TestSession.isOpen, TestSessionStatus.isOpen] at hdone
  | mirror session row answers hrow he =>
    obtain ⟨a, ha, hends⟩ := hI _ row hrow (by rw [he] at hdone; exact hdone)
    exact ⟨a, hmono a ha, hends.congr (by rw [he]; rfl) (by rw [he]) (by rw [he])⟩

/-! ## Every attempt came with its transition -/

/-- The event is a COMMIT that moved an open session to its end, and stored the attempt. -/
def Commits (a : AttemptRow) (e : Event World Call Resp Err) : Prop :=
  e.proc = a.proc ∧ e.call = .commitTransaction ∧ e.after.attempts = e.before.attempts ++ [a] ∧
    (∃ row, e.before.sessions.get a.session.id = some row ∧ row.isOpen) ∧
    ∃ row, e.after.sessions.get a.session.id = some row ∧ row.status = a.attempt.status.session

/-- The event is the insert or the COMMIT of an attempt of the session, and it failed. -/
def FailsAttempt (sessionId : Id) (e : Event World Call Resp Err) : Prop :=
  (∃ err, e.res = .error err) ∧
    ((∃ s a, e.call = .txSaveExamAttempt s a ∧ s.id = sessionId) ∨
      e.call = .commitTransaction ∧
        ∃ t a, e.before.txns.get e.proc = some t ∧ .attempt a ∈ t.writes ∧
          a.session.id = sessionId)

theorem Base.fails_open [Bcrypt] {c c' : Pool} {g' : Phase} (hb : Base c)
    (hm : Moved monitor examSystem c c' i call r g g') {sessionId : Id}
    (hf : FailsAttempt sessionId ⟨i, call, r, c.world, c'.world⟩) :
    ∃ row, c'.world.sessions.get sessionId = some row ∧ row.isOpen := by
  have hg := hb.holds i g hm.before
  obtain ⟨⟨err, he⟩, hf⟩ := hf
  obtain rfl : r = .error err := he
  have hsessions : c'.world.sessions = c.world.sessions :=
    congrArg Tables.sessions (hb.db hm).error
  rw [hsessions]
  rcases hf with ⟨s, a, hcall, hs⟩ | ⟨hcall, t, a, ht, ha, hs⟩
  · obtain rfl : call = .txSaveExamAttempt s a := hcall
    obtain ⟨g'', hg''⟩ := hm.allowed ()
    cases g with
    | moved d submittedAt =>
      simp only [monitor_next, Phase.nextOk] at hg''
      split at hg'' <;> cases hg''
      rename_i h
      obtain ⟨⟨user, row, hrow, hopen, -⟩, -⟩ := hg
      exact ⟨row, by rw [← hs, h.1]; exact hrow, hopen⟩
    | _ => cases hg''
  · obtain rfl : call = .commitTransaction := hcall
    obtain ⟨g'', hg''⟩ := hm.allowed ()
    cases g with
    | readTx =>
      obtain ⟨user, hg⟩ := hg
      cases ht.symm.trans hg
      cases ha
    | inserted =>
      obtain ⟨⟨row, usedAt, -, -, hg, -⟩, -⟩ := hg
      cases ht.symm.trans hg
      simp at ha
    | undoRestored =>
      obtain ⟨⟨row, -, hg⟩, -⟩ := hg
      cases ht.symm.trans hg
      simp at ha
    | stored d attempt =>
      obtain ⟨⟨user, row, hrow, hopen, hg⟩, -⟩ := hg
      cases ht.symm.trans hg
      simp only [List.mem_cons, reduceCtorEq, Write.attempt.injEq, List.not_mem_nil, or_false,
        false_or] at ha
      subst ha
      exact ⟨row, by rw [← hs]; exact hrow, hopen⟩
    | _ => cases hg''

/-- In every state that the backend reaches, whatever fails: a session in a terminal status has an
attempt with its columns and its status. Every attempt was committed by the COMMIT that moved its
session out of ACTIVE or EXPIRED. When the insert or the COMMIT fails, the session is still open. -/
theorem terminal_iff_attempt [Bcrypt] {c : Pool} (h : Reachable anyStep c) :
    (∀ row ∈ c.world.sessions.rows, ∀ status : AttemptStatus, row.status = status.session →
      ∃ a ∈ c.world.attempts, a.session.id = row.id ∧ a.attempt.userId = row.userId ∧
        a.attempt.examId = row.examId ∧ row.certId = some a.attempt.certId ∧
        a.attempt.startedAt = row.startedAt ∧ row.submittedAt = some a.attempt.submittedAt ∧
        a.attempt.status = status) ∧
    (∀ a ∈ c.world.attempts, ∃ e ∈ c.log, Commits a e) ∧
    ∀ e ∈ c.log, ∀ sessionId, FailsAttempt sessionId e →
      ∃ row, e.after.sessions.get sessionId = some row ∧ row.isOpen := by
  have hI : EndsWithAttempt c.world.tables ∧ (∀ a ∈ c.world.attempts, ∃ e ∈ c.log, Commits a e) ∧
      ∀ e ∈ c.log, ∀ sessionId, FailsAttempt sessionId e →
        ∃ row, e.after.sessions.get sessionId = some row ∧ row.isOpen := by
    refine Reachable.induct (I := fun c => EndsWithAttempt c.world.tables ∧
      (∀ a ∈ c.world.attempts, ∃ e ∈ c.log, Commits a e) ∧ ∀ e ∈ c.log, ∀ sessionId,
        FailsAttempt sessionId e → ∃ row, e.after.sessions.get sessionId = some row ∧ row.isOpen)
      ?_ ?_ ?_ h
    · intro w hw
      refine ⟨fun id row hrow => ?_, fun a ha => ?_, fun e he => by cases he⟩
      · simp [Config.initial, World.tables, Table.get, hw.sessions] at hrow
      · simp [Config.initial, hw.attempts] at ha
    · intro c ts w hI hw
      have ha : w.attempts = c.world.attempts := congrArg Tables.attempts hw
      simpa only [Config.start_world, Config.start_log, hw, ha] using hI
    · intro c c' i call r g g' hb hI _ hm hdb
      obtain ⟨h1, h2, h3⟩ := hI
      rw [hm.log]
      refine ⟨h1.step hb.tables hdb, fun a ha => ?_, fun e he => ?_⟩
      · rcases hdb.attempts_cases with hsame | ⟨d, attempt, row, hg, hcall, hrow, hopen, hfixed,
          hmakes, happ, hrow'⟩
        · obtain ⟨e, he, hc⟩ := h2 a (hsame ▸ ha)
          exact ⟨e, List.mem_append_left _ he, hc⟩
        · rcases List.mem_append.mp (happ ▸ ha) with ha | ha
          · obtain ⟨e, he, hc⟩ := h2 a ha
            exact ⟨e, List.mem_append_left _ he, hc⟩
          · cases List.mem_singleton.mp ha
            refine ⟨_, List.mem_append_right _ (.head _), rfl, hcall, happ, ⟨row, hrow, hopen⟩,
              _, hrow', ?_⟩
            exact congrArg AttemptStatus.session hmakes.2.2.2.2.2.2.1.symm
      · rcases List.mem_append.mp he with he | he
        · exact h3 e he
        · cases List.mem_singleton.mp he
          exact fun sessionId hf => hb.fails_open hm hf
  obtain ⟨h1, h2, h3⟩ := hI
  refine ⟨fun row hrow status hstatus => ?_, h2, h3⟩
  have hdone : row.isOpen = false := by
    rw [TestSession.isOpen, hstatus]
    cases status <;> rfl
  obtain ⟨a, ha, k1, k2, k3, k4, k5, k6, k7⟩ := h1 row.id row (Table.mem_rows_iff.mp hrow) hdone
  refine ⟨a, ha, k1, k2, k3, k4, k5, k6, ?_⟩
  have : a.attempt.status.session = status.session := k7.symm.trans hstatus
  revert this
  cases a.attempt.status <;> cases status <;> simp [AttemptStatus.session]

/-- The call inserts an attempt of the session. -/
def Call.inserts (sessionId : Id) : Call → Bool
  | .txSaveExamAttempt session _ => session.id = sessionId
  | _ => false

theorem failsAttempt_of_inserts {sessionId : Id} {e : Event World Call Resp Err}
    (hcall : e.call.inserts sessionId = true) (hres : e.res.isOk = false) :
    FailsAttempt sessionId e := by
  obtain ⟨i, call, r, before, after⟩ := e
  cases r with
  | ok a => cases hres
  | error err =>
    cases call with
    | txSaveExamAttempt session attempt =>
      exact ⟨⟨err, rfl⟩, .inl ⟨session, attempt, rfl, of_decide_eq_true hcall⟩⟩
    | _ => cases hcall

set_option maxRecDepth 100000 in
/-- A submit whose insert fails, and a second one that ends the session. -/
theorem terminal_iff_attempt_retry :
    ∃ c, @Reachable plainBcrypt anyStep c ∧ (∃ e ∈ c.log, FailsAttempt "S" e) ∧
      ∃ a ∈ c.world.attempts, ∃ e ∈ c.log, Commits a e := by
  obtain ⟨c, hc, hp⟩ := exists_reachable (P := anyStep)
    (starts ++ .spawn (.submitExam "S" "u" []) :: calls 1 7 ++ .fail 1 :: calls 1 2 ++
      .spawn (.submitExam "S" "u" []) :: calls 2 10)
    (p := fun c => c.world.attempts ≠ [] ∧
      ∃ e ∈ c.log, e.call.inserts "S" = true ∧ e.res.isOk = false) (by decide)
  obtain ⟨hne, e, he, hcall, hres⟩ := hp
  obtain ⟨a, ha⟩ := List.exists_mem_of_ne_nil _ hne
  exact ⟨c, hc, ⟨e, he, failsAttempt_of_inserts hcall hres⟩, a, ha,
    (@terminal_iff_attempt plainBcrypt c hc).2.1 a ha⟩

end LmsBackend.Exams
