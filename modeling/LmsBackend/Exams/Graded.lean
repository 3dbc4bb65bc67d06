import LmsBackend.Exams.OneAttempt

/-!
# The snapshot of a graded session

`autosave` checks the status first and writes the snapshot last, without a
condition. A submit that commits in between leaves the graded answers, and the
autosave writes over them.
-/

open Async Store

namespace LmsBackend.Exams

/-- No autosave changes the snapshot of a session that is done. -/
def KeepsGraded (c : Pool) : PoolLabel → Prop
  | .run i _ =>
    match c.next? i with
    | some (.testSessionUpdateSnapshot sessionId answers) =>
      (c.world.sessions.get sessionId).all fun row => row.isOpen ∨ row.snapshot = some answers
    | _ => True
  | _ => True

instance : ∀ c l, Decidable (KeepsGraded c l) := fun c l => by
  match l with
  | .run i _ =>
    dsimp only [KeepsGraded]
    match c.next? i with
    | none => exact .isTrue trivial
    | some call => casesm Call <;> infer_instance
  | .spawn _ | .fail _ | .env _ => exact .isTrue trivial

/-- The last attempt that was made from the session. -/
def lastAttempt (sessionId : Id) (attempts : List AttemptRow) : Option AttemptRow :=
  (attemptsOf sessionId attempts).getLast?

/-- The row has the values that the transition of the attempt wrote. -/
def AttemptRow.Wrote (a : AttemptRow) (row : TestSession) : Prop :=
  row.status = a.attempt.status.session ∧ row.submittedAt = some a.attempt.submittedAt ∧
    row.snapshot = some a.attempt.answers

/-- A session that is done has the values of its last attempt. -/
def SnapshotsGraded (t : Tables) : Prop :=
  ∀ id row, t.sessions.get id = some row → row.isOpen = false →
    ∃ a, lastAttempt id t.attempts = some a ∧ a.Wrote row

theorem lastAttempt_append_self (l : List AttemptRow) (a : AttemptRow) :
    lastAttempt a.session.id (l ++ [a]) = some a := by
  simp [lastAttempt]

theorem lastAttempt_append_of_ne {id : Id} (l : List AttemptRow) {a : AttemptRow}
    (h : a.session.id ≠ id) : lastAttempt id (l ++ [a]) = lastAttempt id l := by
  simp [lastAttempt, h]

variable {i : Nat} {w w' : World} {g : Phase} {call : Call} {r : Except Err (Resp call)}

theorem SnapshotsGraded.step (hI : SnapshotsGraded w.tables)
    (hmirror : ∀ id answers, call = .testSessionUpdateSnapshot id answers →
      ∀ row, w.sessions.get id = some row → row.isOpen ∨ row.snapshot = some answers)
    (h : DbStep i w w' g call r) : SnapshotsGraded w'.tables := by
  intro id row' hrow' hdone
  obtain ⟨rfl, hrow⟩ := h.row hrow'
  change ∃ a, lastAttempt row'.id w'.attempts = some a ∧ _
  cases hrow with
  | same hsame =>
    obtain ⟨a, ha, hwrote⟩ := hI _ row' hsame hdone
    refine ⟨a, ?_, hwrote⟩
    rcases h.attempts_cases with he | ⟨d, attempt, row, -, -, hrow, hopen, -, -, he, -⟩
    · rw [he]; exact ha
    · rw [he, lastAttempt_append_of_ne]
      · exact ha
      · intro hid
        -- The row of a new attempt was open.
        have hrow : w.sessions.get row'.id = some row := hid ▸ hrow
        cases hsame.symm.trans hrow
        rw [hdone] at hopen
        cases hopen
  | start _ hactive => simp [TestSession.isOpen, TestSessionStatus.isOpen, hactive] at hdone
  | submit d attempt row hrow hopen hfixed hmakes he ha =>
    have hid : d.session.id = row'.id := by
      rw [he]
      exact (TestSession.fixed_eq_iff.mp hfixed).1.symm
    obtain ⟨-, -, -, m4, -, -, m7, -⟩ := hmakes
    refine ⟨⟨d.session, i, attempt⟩, ?_, ?_⟩
    · rw [ha, ← hid]
      exact lastAttempt_append_self w.attempts ⟨d.session, i, attempt⟩
    · rw [he]
      exact ⟨congrArg AttemptStatus.session m7.symm, rfl, congrArg some m4.symm⟩
  | mark session row hrow he => simp [he, TestSession.isOpen, TestSessionStatus.isOpen] at hdone
  | mirror session row answers hrow he ha =>
    have hdone' : row.isOpen = false := by rw [he] at hdone; exact hdone
    obtain ⟨a, hlast, hwrote⟩ := hI _ row hrow hdone'
    refine ⟨a, by rw [ha]; exact hlast, ?_⟩
    rcases hmirror _ _ rfl row hrow with hopen | hsnap
    · rw [hdone'] at hopen; cases hopen
    · rw [he]
      exact ⟨hwrote.1, hwrote.2.1, hsnap.symm.trans hwrote.2.2⟩

/-- While no autosave writes over a session that is done, its snapshot is what was graded: the
answers of the attempt that its last transition inserted. -/
theorem snapshot_graded [Bcrypt] {c : Pool} (h : Reachable KeepsGraded c) :
    ∀ row ∈ c.world.sessions.rows, row.status = .submitted ∨ row.status = .autoSubmitted →
      ∃ a, lastAttempt row.id c.world.attempts = some a ∧
        row.status = a.attempt.status.session ∧
        row.submittedAt = some a.attempt.submittedAt ∧ row.snapshot = some a.attempt.answers := by
  have hI : SnapshotsGraded c.world.tables := by
    refine Reachable.induct (I := fun c => SnapshotsGraded c.world.tables) ?_ ?_ ?_ h
    · intro w hw id row hrow
      simp [Config.initial, World.tables, Table.get, hw.sessions] at hrow
    · intro c ts w hI hw
      rw [Config.start_world, hw]
      exact hI
    · intro c c' i call r g g' _ hI hP hm hdb
      cases r with
      | error e => rw [hdb.error]; exact hI
      | ok a =>
        obtain ⟨x, hkeeps⟩ := hP.guard
        refine hI.step ?_ hdb
        rintro id answers rfl row hrow
        simpa [KeepsGraded, hm.waits, hrow] using hkeeps
  intro row hrow hstatus
  refine hI row.id row (Table.mem_rows_iff.mp hrow) ?_
  rcases hstatus with h | h <;> simp [TestSession.isOpen, TestSessionStatus.isOpen, h]

set_option maxRecDepth 100000 in
/-- An autosave, and then the submit. -/
theorem snapshot_graded_submit :
    ∃ c, @Reachable plainBcrypt KeepsGraded c ∧
      ∃ row ∈ c.world.sessions.rows, ∃ a, lastAttempt row.id c.world.attempts = some a ∧
        row.snapshot = some a.attempt.answers := by
  obtain ⟨c, hc, row, hrow, hstatus⟩ := exists_reachable (P := KeepsGraded)
    (starts ++ .spawn (.autosave "S" "u" [("q", "a")]) :: calls 1 4 ++
      .spawn (.submitExam "S" "u" [("q", "b")]) :: calls 2 11)
    (p := fun c => ∃ row ∈ c.world.sessions.rows, row.status = .submitted) (by decide)
  obtain ⟨a, ha, -, -, hsnap⟩ := @snapshot_graded plainBcrypt c hc row hrow (.inl hstatus)
  exact ⟨c, hc, row, hrow, a, ha, hsnap⟩

/-- The autosave (process 1) has written Redis when the submit (process 2) commits. Then it writes
the snapshot. -/
def savesAfterSubmit : List PoolLabel :=
  starts ++ .spawn (.autosave "S" "u" [("q", "a")]) :: calls 1 3 ++
    .spawn (.submitExam "S" "u" [("q", "b")]) :: calls 2 11 ++ calls 1 1

set_option maxRecDepth 100000 in
theorem snapshot_overwritten :
    ¬∀ c, @Reachable plainBcrypt anyStep c → ∀ row ∈ c.world.sessions.rows,
      row.status = .submitted ∨ row.status = .autoSubmitted →
        ∃ a, lastAttempt row.id c.world.attempts = some a ∧
          row.snapshot = some a.attempt.answers := by
  intro hall
  obtain ⟨c, hc, row, hrow, hstatus, hne⟩ := exists_reachable (P := anyStep) savesAfterSubmit
    (p := fun c => ∃ row ∈ c.world.sessions.rows, row.status = .submitted ∧
      (lastAttempt row.id c.world.attempts).map (·.attempt.answers) ≠ row.snapshot) (by decide)
  obtain ⟨a, ha, hsnap⟩ := hall c hc row hrow (.inl hstatus)
  rw [ha, hsnap] at hne
  exact hne rfl

end LmsBackend.Exams
