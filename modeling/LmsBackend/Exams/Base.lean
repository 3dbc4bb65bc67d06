import LmsBackend.Exams.OwnStep

/-! # What a step does to the others, and the invariant of the pool -/

open Async Store

namespace LmsBackend.Exams

variable {i j : Nat} {w w' : World} {g g' : Phase} {call : Call} {r : Except Err (Resp call)}

/-! ## Steps, table by table -/

theorem DbStep.error {e : Err} (h : DbStep i w w' g call (.error e)) : w'.tables = w.tables := by
  cases h with
  | same h => exact h

/-- The codes after a step. -/
theorem DbStep.codes_cases (h : DbStep i w w' g call r) :
    w'.codes = w.codes ∨
    (∃ code, w.codes.get code.id = none ∧ code.usedAt = none ∧ w'.codes = w.codes.put code) ∨
    ∃ code usedAt, w.codes.get code.id = some code ∧ w.holds i (.code code.id) ∧
      w'.codes = w.codes.put { code with usedAt := usedAt } := by
  cases h with
  | issue code hnew hunused h => exact .inr (.inl ⟨code, hnew, hunused, congrArg Tables.codes h⟩)
  | start code session usedAt hcode _ _ _ _ _ _ hlock _ h =>
    exact .inr (.inr ⟨code, some usedAt, hcode, hlock, congrArg Tables.codes h⟩)
  | undo code session row _ _ hcode _ hlock _ h =>
    exact .inr (.inr ⟨code, none, hcode, hlock, congrArg Tables.codes h⟩)
  | same h => exact .inl (congrArg Tables.codes h)
  | submit d attempt row _ _ _ _ _ h => exact .inl (congrArg Tables.codes h)
  | mark session _ h => exact .inl (congrArg Tables.codes h)
  | mirror session answers _ h => exact .inl (congrArg Tables.codes h)

/-- The row after an UPDATE of one session by process `i`. -/
structure Updated (i : Nat) (w w' : World) (id : Id) (f : TestSession → TestSession) : Prop where
  fixed : ∀ s, (f s).fixed = s.fixed
  lock : w.holds i (.session id) ∨ ¬w.locked i (.session id)
  get : ∀ id', w'.sessions.get id' =
    if id = id' then (w.sessions.get id').map f else w.sessions.get id'

/-- A row that `startExam` makes. -/
structure Created (i : Nat) (w w' : World) (g : Phase) (session : TestSession) : Prop where
  fresh : session.id ∉ w.issued
  lock : w.holds i (.newSession session.id)
  creates : g.creates = some session.id
  active : session.status = .active
  snapshot : session.snapshot = none
  code : ∃ code, w.codes.get session.sessionToken = some code ∧ Matches session code
  sessions : w'.sessions = w.sessions.put session
  issued : w'.issued = session.id :: w.issued

/-- The sessions after a step: the same, one row more, one less, or one row with other values in
the columns that are not fixed. -/
theorem DbStep.sessions_cases (h : DbStep i w w' g call r) :
    (∃ session, Created i w w' g session) ∨
    w'.issued = w.issued ∧
      (w'.sessions = w.sessions ∨
      (∃ id, g.creates = some id ∧ w.holds i (.session id) ∧ w'.sessions = w.sessions.erase id) ∨
      ∃ id f, Updated i w w' id f) := by
  cases h with
  | same h => exact .inr ⟨congrArg Tables.issued h, .inl (congrArg Tables.sessions h)⟩
  | issue _ _ _ h => exact .inr ⟨congrArg Tables.issued h, .inl (congrArg Tables.sessions h)⟩
  | start code session usedAt hcode _ hfresh htoken hmatch hactive hsnap _ hlock h =>
    exact .inl ⟨session, hfresh, hlock, rfl, hactive, hsnap, ⟨code, htoken ▸ hcode, hmatch⟩,
      congrArg Tables.sessions h, congrArg Tables.issued h⟩
  | undo code session row _ _ _ _ _ hlock h =>
    exact .inr ⟨congrArg Tables.issued h,
      .inr (.inl ⟨session.id, rfl, hlock, congrArg Tables.sessions h⟩)⟩
  | submit d attempt row hrow _ _ _ hlock h =>
    refine .inr ⟨congrArg Tables.issued h, .inr (.inr ⟨d.session.id,
      fun s => s.moved d.status.session attempt.submittedAt d.answers, fun s => rfl, .inl hlock,
      fun id' => ?_⟩)⟩
    have hid : row.id = d.session.id := Table.key_of_get hrow
    rw [show w'.sessions = _ from congrArg Tables.sessions h, Table.get_put]
    change (if row.id = id' then _ else _) = _
    rw [hid]
    split
    · subst id'
      rw [hrow]
      rfl
    · rfl
  | mark session hlock h =>
    refine .inr ⟨congrArg Tables.issued h, .inr (.inr ⟨session.id,
      fun s => { s with status := .expired }, fun s => rfl, .inr hlock, fun id' => ?_⟩)⟩
    rw [show w'.sessions = _ from congrArg Tables.sessions h]
    exact Table.get_update w.sessions _ (fun s => { s with status := .expired }) (fun _ => rfl) id'
  | mirror session answers hlock h =>
    refine .inr ⟨congrArg Tables.issued h, .inr (.inr ⟨session.id,
      fun s => { s with snapshot := some answers }, fun s => rfl, .inr hlock, fun id' => ?_⟩)⟩
    rw [show w'.sessions = _ from congrArg Tables.sessions h]
    exact Table.get_update w.sessions _ (fun s => { s with snapshot := some answers })
      (fun _ => rfl) id'

theorem DbStep.code_kept (h : DbStep i w w' g call r) {id : Id} {c : ExamAccessCode}
    (hc : w.codes.get id = some c) :
    ∃ c', w'.codes.get id = some c' ∧ ∃ usedAt, c' = { c with usedAt := usedAt } := by
  rcases h.codes_cases with h | ⟨code, hnew, -, h⟩ | ⟨code, usedAt, hcode, -, h⟩ <;> rw [h]
  · exact ⟨c, hc, c.usedAt, rfl⟩
  · refine ⟨c, ?_, c.usedAt, rfl⟩
    rw [Table.get_put_of_ne _ ?_, hc]
    rintro rfl
    rw [show w.codes.get (Keyed.key code) = none from hnew] at hc
    cases hc
  · by_cases he : code.id = id
    · subst he
      cases hcode.symm.trans hc
      exact ⟨_, Table.get_put_self _ _, usedAt, rfl⟩
    · exact ⟨c, (Table.get_put_of_ne _ he).trans hc, c.usedAt, rfl⟩

theorem DbStep.issued_mono (h : DbStep i w w' g call r) {id : Id} (hid : id ∈ w.issued) :
    id ∈ w'.issued := by
  rcases h.sessions_cases with ⟨s, h⟩ | ⟨h, -⟩
  · rw [h.issued]; exact List.mem_cons_of_mem _ hid
  · rw [h]; exact hid

/-- A row is an old one with the fixed columns that it had, or the row of a `startExam`. -/
theorem DbStep.row_cases (h : DbStep i w w' g call r) {id : Id} {row : TestSession}
    (hrow : w'.sessions.get id = some row) :
    (∃ row', w.sessions.get id = some row' ∧ row'.fixed = row.fixed) ∨
      row.id = id ∧ Created i w w' g row := by
  rcases h.sessions_cases with ⟨s, h⟩ | ⟨-, h | ⟨id', -, -, h⟩ | ⟨id', f, h⟩⟩
  · rw [h.sessions, Table.get_put] at hrow
    split at hrow
    · cases hrow
      exact .inr ⟨‹_›, h⟩
    · exact .inl ⟨row, hrow, rfl⟩
  · rw [h] at hrow
    exact .inl ⟨row, hrow, rfl⟩
  · rw [h, Table.get_erase] at hrow
    split at hrow
    · cases hrow
    · exact .inl ⟨row, hrow, rfl⟩
  · rw [h.get] at hrow
    split at hrow
    · obtain ⟨row', hrow', rfl⟩ := Option.map_eq_some_iff.mp hrow
      exact .inl ⟨row', hrow', (h.fixed row').symm⟩
    · exact .inl ⟨row, hrow, rfl⟩

/-- No step changes the fixed columns, and no new row takes an old id. -/
theorem DbStep.fixed_kept (h : DbStep i w w' g call r) {id : Id} (hid : id ∈ w.issued)
    {row : TestSession} (hrow : w'.sessions.get id = some row) :
    ∃ row', w.sessions.get id = some row' ∧ row'.fixed = row.fixed := by
  rcases h.row_cases hrow with h | ⟨rfl, h⟩
  · exact h
  · exact absurd hid h.fresh

theorem DbStep.known (h : DbStep i w w' g call r) {s : TestSession} (hs : Known s w.tables) :
    Known s w'.tables := by
  refine ⟨h.issued_mono hs.issued, fun row hrow => ?_, ?_⟩
  · obtain ⟨row', hrow', he⟩ := h.fixed_kept hs.issued hrow
    rw [← he]
    exact hs.fixed row' hrow'
  · obtain ⟨c, hc, hm⟩ := hs.code
    obtain ⟨c', hc', usedAt, rfl⟩ := h.code_kept hc
    exact ⟨_, hc', hm⟩

theorem DbStep.codeKnown (h : DbStep i w w' g call r) {userId examId : Id} {c : ExamAccessCode}
    (hc : CodeKnown userId examId c w.tables) : CodeKnown userId examId c w'.tables := by
  obtain ⟨row, hrow, hm⟩ := hc
  obtain ⟨row', hrow', usedAt, rfl⟩ := h.code_kept hrow
  exact ⟨_, hrow', hm⟩

/-! ## Steps, row by row -/

/-- Where the row of a session after a step comes from. -/
inductive RowStep (i : Nat) (w w' : World) (row' : TestSession) :
    Phase → (c : Call) → Except Err (Resp c) → Prop where
  | same {g c r} (h : w.sessions.get row'.id = some row') : RowStep i w w' row' g c r
  | start {code} (hfresh : row'.id ∉ w.issued) (hactive : row'.status = .active)
      (hsnap : row'.snapshot = none) (h : w'.attempts = w.attempts) :
      RowStep i w w' row' (.inserted code row') .commitTransaction (.ok ())
  | submit (d : Submission) (attempt : ExamAttempt) (row : TestSession)
      (hrow : w.sessions.get row'.id = some row) (hopen : row.isOpen)
      (hfixed : row.fixed = d.session.fixed) (hmakes : d.makes attempt.submittedAt attempt)
      (he : row' = row.moved d.status.session attempt.submittedAt d.answers)
      (h : w'.attempts = w.attempts ++ [⟨d.session, i, attempt⟩]) :
      RowStep i w w' row' (.stored d attempt) .commitTransaction (.ok ())
  | mark (session row : TestSession) (hrow : w.sessions.get row'.id = some row)
      (he : row' = { row with status := .expired }) (h : w'.attempts = w.attempts) :
      RowStep i w w' row' (.expiryMark row'.id session)
        (.testSessionUpdateStatus row'.id .expired) (.ok ())
  | mirror (session row : TestSession) (answers : Answers)
      (hrow : w.sessions.get row'.id = some row)
      (he : row' = { row with snapshot := some answers }) (h : w'.attempts = w.attempts) :
      RowStep i w w' row' (.saveMirror row'.id session answers)
        (.testSessionUpdateSnapshot row'.id answers) (.ok ())

theorem DbStep.row (h : DbStep i w w' g call r) {id : Id} {row' : TestSession}
    (hrow' : w'.sessions.get id = some row') : row'.id = id ∧ RowStep i w w' row' g call r := by
  have hid : row'.id = id := Table.key_of_get hrow'
  subst hid
  refine ⟨rfl, ?_⟩
  have hsessions : ∀ {t}, w'.tables = t → t.sessions.get row'.id = some row' := fun h => h ▸ hrow'
  have hattempts : ∀ {t}, w'.tables = t → w'.attempts = t.attempts := fun h => h ▸ rfl
  cases h with
  | same h => exact .same (hsessions h)
  | issue code _ _ h => exact .same (hsessions h)
  | start code session usedAt _ _ hfresh _ _ hactive hsnap _ _ h =>
    have hget := hsessions h
    simp only [Table.get_put] at hget
    split at hget
    · cases hget
      exact .start hfresh hactive hsnap (hattempts h)
    · exact .same hget
  | undo code session row _ _ _ _ _ _ h =>
    have hget := hsessions h
    simp only [Table.get_erase] at hget
    split at hget
    · cases hget
    · exact .same hget
  | submit d attempt row hrow hopen hfixed hmakes _ h =>
    have hget := hsessions h
    simp only [Table.get_put] at hget
    split at hget
    · cases hget
      refine .submit d attempt row ?_ hopen hfixed hmakes rfl (hattempts h)
      rw [show (row.moved _ _ _).id = row.id from rfl,
        show row.id = d.session.id from Table.key_of_get hrow]
      exact hrow
    · exact .same hget
  | mark session _ h =>
    have hget := hsessions h
    simp only [Table.get_update w.sessions _ (fun s => { s with status := .expired })
      (fun _ => rfl)] at hget
    split at hget
    · rename_i he
      obtain ⟨row, hrow, he'⟩ := Option.map_eq_some_iff.mp hget
      rw [he]
      exact .mark session row hrow he'.symm (hattempts h)
    · exact .same hget
  | mirror session answers _ h =>
    have hget := hsessions h
    simp only [Table.get_update w.sessions _ (fun s => { s with snapshot := some answers })
      (fun _ => rfl)] at hget
    split at hget
    · rename_i he
      obtain ⟨row, hrow, he'⟩ := Option.map_eq_some_iff.mp hget
      rw [he]
      exact .mirror session row answers hrow he'.symm (hattempts h)
    · exact .same hget

/-- The attempts after a step: the same, or one more, of a session whose row is open. -/
theorem DbStep.attempts_cases (h : DbStep i w w' g call r) :
    w'.attempts = w.attempts ∨ ∃ d attempt row, g = .stored d attempt ∧
      call = .commitTransaction ∧ w.sessions.get d.session.id = some row ∧ row.isOpen ∧
      row.fixed = d.session.fixed ∧ d.makes attempt.submittedAt attempt ∧
      w'.attempts = w.attempts ++ [⟨d.session, i, attempt⟩] ∧
      w'.sessions.get d.session.id =
        some (row.moved d.status.session attempt.submittedAt d.answers) := by
  cases h with
  | submit d attempt row hrow hopen hfixed hmakes _ h =>
    have hid : row.id = d.session.id := Table.key_of_get hrow
    refine .inr ⟨d, attempt, row, rfl, rfl, hrow, hopen, hfixed, hmakes, congrArg Tables.attempts h,
      ?_⟩
    rw [show w'.sessions = _ from congrArg Tables.sessions h]
    exact Table.get_put_of_eq _ hid
  | same h => exact .inl (congrArg Tables.attempts h)
  | issue _ _ _ h => exact .inl (congrArg Tables.attempts h)
  | start _ _ _ _ _ _ _ _ _ _ _ _ h => exact .inl (congrArg Tables.attempts h)
  | undo _ _ _ _ _ _ _ _ _ h => exact .inl (congrArg Tables.attempts h)
  | mark _ _ h => exact .inl (congrArg Tables.attempts h)
  | mirror _ _ _ h => exact .inl (congrArg Tables.attempts h)

/-- No step can still find the session ACTIVE, or not as one of the student. -/
def Shut (t : Tables) (sessionId userId : Id) : Prop :=
  sessionId ∈ t.issued ∧ ∀ row, t.sessions.get sessionId = some row →
    row.status ≠ .active ∨ row.userId ≠ userId

/-- A session does not become ACTIVE again. -/
theorem DbStep.shut (h : DbStep i w w' g call r) {sessionId userId : Id}
    (hs : Shut w.tables sessionId userId) : Shut w'.tables sessionId userId := by
  refine ⟨h.issued_mono hs.1, fun row' hrow' => ?_⟩
  obtain ⟨rfl, hrow⟩ := h.row hrow'
  cases hrow with
  | same h => exact hs.2 row' h
  | start hfresh => exact absurd hs.1 hfresh
  | submit d attempt row hrow hopen hfixed hmakes he ha =>
    left
    rw [he]
    cases d.status <;> simp [TestSession.moved, AttemptStatus.session]
  | mark session row hrow he => exact .inl (by rw [he]; simp)
  | mirror session row answers hrow he => rw [he]; exact hs.2 row hrow

/-! ## Locked rows -/

theorem DbStep.code_locked (h : DbStep i w w' g call r) (hw : w.Exclusive) (hj : j ≠ i) {id : Id}
    (hl : w.holds j (.code id)) {c : ExamAccessCode} (hc : w.codes.get id = some c) :
    w'.codes.get id = some c := by
  rcases h.codes_cases with h | ⟨code, hnew, -, h⟩ | ⟨code, usedAt, hcode, hlock, h⟩ <;> rw [h]
  · exact hc
  · rw [Table.get_put_of_ne _ ?_, hc]
    rintro rfl
    rw [show w.codes.get (Keyed.key code) = none from hnew] at hc
    cases hc
  · refine (Table.get_put_of_ne _ ?_).trans hc
    rintro rfl
    exact hj (hw _ _ _ hl hlock)

theorem DbStep.session_locked (h : DbStep i w w' g call r) (hw : w.Exclusive) (ht : w.tables.Ok)
    (hj : j ≠ i) {id : Id} (hl : w.holds j (.session id)) {row : TestSession}
    (hrow : w.sessions.get id = some row) : w'.sessions.get id = some row := by
  rcases h.sessions_cases with ⟨s, h⟩ | ⟨-, h | ⟨id', -, hl', h⟩ | ⟨id', f, h⟩⟩
  · rw [h.sessions, Table.get_put_of_ne _ ?_, hrow]
    rintro rfl
    exact h.fresh (ht.issued _ _ hrow)
  · rw [h, hrow]
  · rw [h, Table.get_erase_of_ne, hrow]
    rintro rfl
    exact hj (hw _ _ _ hl hl')
  · rw [h.get, if_neg, hrow]
    rintro rfl
    rcases h.lock with hl' | hl'
    · exact hj (hw _ _ _ hl hl')
    · exact World.free_of_not_locked hl' hj hl

theorem DbStep.owned (h : DbStep i w w' g call r) (ht : w.tables.Ok) {code : Id} {s : TestSession}
    (hg : g.creates ≠ some s.id) (hs : Owned code s w.tables) : Owned code s w'.tables := by
  obtain ⟨htoken, row, hrow, hfixed⟩ := hs
  refine ⟨htoken, ?_⟩
  change ∃ row, w'.sessions.get s.id = some row ∧ _
  rcases h.sessions_cases with ⟨s', h⟩ | ⟨-, h | ⟨id', hg', -, h⟩ | ⟨id', f, h⟩⟩
  · refine ⟨row, ?_, hfixed⟩
    rw [h.sessions, Table.get_put_of_ne _ ?_]
    · exact hrow
    · intro he
      have hfresh := h.fresh
      rw [show s'.id = s.id from he] at hfresh
      exact hfresh (ht.issued _ _ hrow)
  · exact ⟨row, h ▸ hrow, hfixed⟩
  · refine ⟨row, ?_, hfixed⟩
    rw [h, Table.get_erase_of_ne]
    · exact hrow
    · rintro rfl; exact hg hg'
  · rw [h.get]
    split
    · exact ⟨f row, by rw [show w.sessions.get s.id = some row from hrow]; rfl,
        (h.fixed row).trans hfixed⟩
    · exact ⟨row, hrow, hfixed⟩

theorem DbStep.not_issued (h : DbStep i w w' g call r) (hw : w.Exclusive) (hj : j ≠ i) {id : Id}
    (hl : w.holds j (.newSession id)) (hid : id ∉ w.issued) : id ∉ w'.issued := by
  rcases h.sessions_cases with ⟨s, h⟩ | ⟨h, -⟩
  · rw [h.issued]
    simp only [List.mem_cons, not_or]
    refine ⟨?_, hid⟩
    rintro rfl
    exact hj (hw _ _ _ hl h.lock)
  · rw [h]; exact hid

/-- What a process knows stays true when another one takes a step. -/
theorem DbStep.holds_other (h : DbStep i w w' g call r) (hw : w.Exclusive) (ht : w.tables.Ok)
    (hj : j ≠ i) (htxn : w'.txns.get j = w.txns.get j)
    (hne : ∀ id, g'.creates = some id → g.creates ≠ some id) (hg : g'.Holds j w) :
    g'.Holds j w' := by
  have hidle : w.idle j → w'.idle j := fun hi => htxn.trans hi
  have hlock : ∀ {t wr l}, w.txns.get j = some t → wr ∈ t.writes → Write.lock wr = some l →
      w.holds j l := fun ht hm hl => ⟨_, ht, List.any_eq_true.mpr ⟨_, hm, by simpa using hl⟩⟩
  cases g' with
  | dropping => exact trivial
  | readTx =>
    obtain ⟨user, hg⟩ := hg
    exact ⟨user, htxn.trans hg⟩
  | candidates => exact ⟨hidle hg.1, fun c hc => h.codeKnown (hg.2 c hc)⟩
  | guarded => exact ⟨hidle hg.1, fun c hc => h.codeKnown (hg.2 c hc)⟩
  | consuming => exact ⟨htxn.trans hg.1, fun c hc => h.codeKnown (hg.2 c hc)⟩
  | consumed userId examId codes code =>
    obtain ⟨⟨row, usedAt, hrow, hunused, hg⟩, hcodes⟩ := hg
    have hid : row.id = code := Table.key_of_get hrow
    refine ⟨⟨row, usedAt, ?_, hunused, htxn.trans hg⟩, fun c hc => h.codeKnown (hcodes c hc)⟩
    exact h.code_locked hw hj (hlock hg (.head _) (by simp [Write.lock, hid])) hrow
  | inserted code session =>
    obtain ⟨⟨row, usedAt, hrow, hunused, hg, hmatch⟩, htoken, hactive, hsnap, hfresh⟩ := hg
    have hid : row.id = code := Table.key_of_get hrow
    refine ⟨⟨row, usedAt, ?_, hunused, htxn.trans hg, hmatch⟩, htoken, hactive, hsnap, ?_⟩
    · exact h.code_locked hw hj (hlock hg (.head _) (by simp [Write.lock, hid])) hrow
    · exact h.not_issued hw hj (hlock hg (.tail _ (.head _)) rfl) hfresh
  | created => exact ⟨hidle hg.1, h.owned ht (hne _ rfl) hg.2⟩
  | undoing => exact ⟨hidle hg.1, h.owned ht (hne _ rfl) hg.2⟩
  | undoBegun => exact ⟨htxn.trans hg.1, h.owned ht (hne _ rfl) hg.2⟩
  | undoDeleted => exact ⟨htxn.trans hg.1, h.owned ht (hne _ rfl) hg.2⟩
  | undoRestored code session =>
    obtain ⟨⟨row, hrow, hg⟩, howned⟩ := hg
    have hid : row.id = code := Table.key_of_get hrow
    refine ⟨⟨row, ?_, htxn.trans hg⟩, h.owned ht (hne _ rfl) howned⟩
    exact h.code_locked hw hj (hlock hg (.tail _ (.head _)) (by simp [Write.lock, hid])) hrow
  | saveGet => exact ⟨hidle hg.1, hg.2.1, h.known hg.2.2⟩
  | saveSet => exact ⟨hidle hg.1, hg.2.1, h.known hg.2.2⟩
  | saveMirror => exact ⟨hidle hg.1, hg.2.1, h.known hg.2.2⟩
  | lateGate => exact ⟨hidle hg.1, hg.2.1, h.known hg.2.2⟩
  | expiryMark => exact ⟨hidle hg.1, hg.2.1, h.known hg.2.2⟩
  | scoring => exact ⟨hidle hg.1, h.known hg.2⟩
  | closed => exact ⟨hidle hg.1, h.known hg.2⟩
  | begun d =>
    obtain ⟨⟨user, hg⟩, hknown⟩ := hg
    exact ⟨⟨user, htxn.trans hg⟩, h.known hknown⟩
  | moved d submittedAt =>
    obtain ⟨⟨user, row, hrow, hopen, hg⟩, hknown⟩ := hg
    have hid : row.id = d.session.id := Table.key_of_get hrow
    refine ⟨⟨user, row, ?_, hopen, htxn.trans hg⟩, h.known hknown⟩
    exact h.session_locked hw ht hj
      (hlock hg (.head _) (by simp [Write.lock, TestSession.moved, hid])) hrow
  | stored d attempt =>
    obtain ⟨⟨user, row, hrow, hopen, hg⟩, hmakes, hknown⟩ := hg
    have hid : row.id = d.session.id := Table.key_of_get hrow
    refine ⟨⟨user, row, ?_, hopen, htxn.trans hg⟩, hmakes, h.known hknown⟩
    exact h.session_locked hw ht hj
      (hlock hg (.head _) (by simp [Write.lock, TestSession.moved, hid])) hrow
  | _ => exact hidle hg

/-! ## The invariant of the pool -/

/-- What is true of every reachable state. -/
structure Base (c : Pool) : Prop where
  tables : c.world.tables.Ok
  exclusive : c.world.Exclusive
  holds : ∀ i g, monitor.phase c i = some g → g.Holds i c.world
  /-- A process that has not begun has no transaction. -/
  fresh : ∀ i, c.procs.length ≤ i → c.world.idle i
  creates : ∀ i j g g' id, monitor.phase c i = some g → monitor.phase c j = some g' →
    g.creates = some id → g'.creates = some id → i = j

theorem TxnStep.exclusive (h : TxnStep i w w') (hw : w.Exclusive) : w'.Exclusive := by
  have hother : ∀ j l, j ≠ i → w'.holds j l → w.holds j l := by
    rintro j l hj ⟨t, ht, hl⟩
    exact ⟨t, by rwa [h.other j hj] at ht, hl⟩
  intro j k l hjl hkl
  by_cases hj : j = i <;> by_cases hk : k = i
  · rw [hj, hk]
  · subst hj
    rcases h.own l hjl with hl | hl
    · exact hw _ _ _ hl (hother k l hk hkl)
    · exact absurd (hother k l hk hkl) (hl k hk)
  · subst hk
    rcases h.own l hkl with hl | hl
    · exact hw _ _ _ (hother j l hj hjl) hl
    · exact absurd (hother j l hj hjl) (hl j hj)
  · exact hw _ _ _ (hother j l hj hjl) (hother k l hk hkl)

theorem answered_txns [Bcrypt] (h : Answered examSystem i call w r w') : TxnStep i w w' := by
  cases h with
  | exec hx => exact exec_txns hx
  | reject hx =>
    rcases error_world (.reject hx) with ⟨rfl, -⟩ | rfl
    · exact .refl rfl
    · exact .close rfl

theorem Matches.congr {s t : TestSession} {c : ExamAccessCode} (h : Matches s c)
    (hf : s.fixed = t.fixed) : Matches t c := by
  obtain ⟨-, hu, he, hc, -⟩ := TestSession.fixed_eq_iff.mp hf
  exact ⟨h.1.trans hu, h.2.1.trans he, hc ▸ h.2.2⟩

theorem DbStep.tables_ok (h : DbStep i w w' g call r) (ht : w.tables.Ok) : w'.tables.Ok := by
  constructor
  · intro id row hrow
    rcases h.row_cases hrow with ⟨row', hrow', -⟩ | ⟨rfl, h⟩
    · exact h.issued_mono (ht.issued _ _ hrow')
    · rw [show w'.tables.issued = _ from h.issued]
      exact .head _
  · intro id row hrow
    have hold : ∃ code, w.codes.get row.sessionToken = some code ∧ Matches row code := by
      rcases h.row_cases hrow with ⟨row', hrow', he⟩ | ⟨-, h⟩
      · obtain ⟨code, hcode, hm⟩ := ht.code _ _ hrow'
        exact ⟨code, TestSession.sessionToken_of_fixed he ▸ hcode, hm.congr he⟩
      · exact h.code
    obtain ⟨code, hcode, hm⟩ := hold
    obtain ⟨code', hcode', usedAt, rfl⟩ := h.code_kept hcode
    exact ⟨_, hcode', hm⟩

/-- Only a saved row gives a process a new session. -/
theorem creates_next {a : Resp call} {id : Id} (hn : g.nextOk call a = some g')
    (hcall : ∀ userId? row, call ≠ .txSaveTestSession userId? row) (hid : g'.creates = some id) :
    g.creates = some id := by
  cases call with
  | txSaveTestSession userId? row => exact absurd rfl (hcall userId? row)
  | _ =>
    simp only [Phase.nextOk, Phase.read] at hn
    repeat' split at hn
    all_goals first | (cases hn; exact hid) | (cases hn; cases hid) | cases hn

theorem creates_failed {id : Id} (hid : (g.failed call).creates = some id) :
    g.creates = some id := by
  unfold Phase.failed at hid
  split at hid
  · cases hid
  · cases hid
  · exact hid
  · split at hid <;> cases hid

/-- A new session of a process is one that it had, or one with an id that no one has. -/
theorem creates_cases [Bcrypt] (h : Answered examSystem i call w r w')
    (hn : monitor.advance g call r = some g') {id : Id} (hid : g'.creates = some id) :
    g.creates = some id ∨ id ∉ w.issued ∧ ∀ j, ¬w.holds j (.newSession id) := by
  cases r with
  | error e =>
    cases hn
    exact .inl (creates_failed hid)
  | ok a =>
    by_cases hcall : ∃ userId? row, call = .txSaveTestSession userId? row
    · obtain ⟨userId?, row, rfl⟩ := hcall
      obtain ⟨hx⟩ := h
      cases g with
      | consumed =>
        simp only [Monitor.advance, monitor_next, Phase.nextOk] at hn
        split at hn <;> cases hn
        rename_i h
        obtain ⟨rfl, -⟩ := h
        obtain ⟨t, ht, hx⟩ := inTxn_ok hx
        simp only at hx
        split at hx <;> cases hx
        cases hid
        exact .inr (World.freshSession_iff.mp ‹_›)
      | _ => cases hn
    · exact .inl (creates_next hn (fun userId? row he => hcall ⟨userId?, row, he⟩) hid)

theorem own_answered [Bcrypt] (hw : w.tables.Ok) (hg : g.Holds i w)
    (h : Answered examSystem i call w r w') (hn : monitor.advance g call r = some g') :
    DbStep i w w' g call r ∧ g'.Holds i w' := by
  cases r with
  | error e => cases hn; exact own_error hg h
  | ok a =>
    obtain ⟨hx⟩ := h
    exact own_ok hw hg hx hn

/-- The new session of a phase is issued, or its id is taken by the transaction. -/
theorem Phase.Holds.created (hg : g.Holds i w) (hw : w.tables.Ok) {id : Id}
    (hid : g.creates = some id) : id ∈ w.issued ∨ w.holds i (.newSession id) := by
  have howned : ∀ {code s}, Owned code s w.tables → s.id ∈ w.issued :=
    fun ⟨_, _, hrow, _⟩ => hw.issued _ _ hrow
  cases g with
  | inserted code s =>
    cases hid
    obtain ⟨⟨row, usedAt, -, -, hg, -⟩, -⟩ := hg
    exact .inr ⟨_, hg, by simp [OpenTxn.holds, Write.lock]⟩
  | created => cases hid; exact .inl (howned hg.2)
  | undoing => cases hid; exact .inl (howned hg.2)
  | undoBegun => cases hid; exact .inl (howned hg.2)
  | undoDeleted => cases hid; exact .inl (howned hg.2)
  | undoRestored => cases hid; exact .inl (howned hg.2)
  | _ => cases hid

/-- New tasks begin without a transaction and know nothing yet. -/
theorem start_holds (t : Task) (h : w.idle i) : (Phase.start t).Holds i w := by
  cases t with
  | handleExpiry type sessionId => cases type <;> exact h
  | _ => exact h

theorem start_creates (t : Task) : (Phase.start t).creates = none := by
  cases t with
  | handleExpiry type sessionId => cases type <;> rfl
  | _ => rfl

theorem envStep_db {v : EnvEvent} {ts : List Task} (h : envStep v w = some (w', ts)) :
    w'.tables = w.tables ∧ w'.txns = w.txns := by
  cases v with
  | tick ms => cases h; exact ⟨rfl, rfl⟩
  | deliver key => simp only [envStep] at h; split at h <;> cases h; exact ⟨rfl, rfl⟩
  | redeliver key => simp only [envStep] at h; split at h <;> cases h; exact ⟨rfl, rfl⟩
  | lose key => simp only [envStep] at h; split at h <;> cases h; exact ⟨rfl, rfl⟩

theorem Initial.base {w : World} (h : Initial w) : Base (.initial w) := by
  have hidle : ∀ i, w.idle i := fun i => by simp [World.idle, Table.get, h.txns]
  have hphase : ∀ i, monitor.phase (.initial w) i = none := fun i =>
    Monitor.phase_none (Nat.zero_le _)
  refine ⟨⟨?_, ?_⟩, ?_, ?_, fun i _ => hidle i, ?_⟩
  · intro id row hrow
    simp [Config.initial, World.tables, Table.get, h.sessions] at hrow
  · intro id row hrow
    simp [Config.initial, World.tables, Table.get, h.sessions] at hrow
  · rintro i j l ⟨t, ht, -⟩
    rw [Config.initial, hidle i] at ht
    cases ht
  · intro i g hg
    rw [hphase] at hg
    cases hg
  · intro i j g g' id hg
    rw [hphase] at hg
    cases hg

section Base

variable [Bcrypt] {c c' : Pool}

theorem Base.db (hc : Base c) (hm : Moved monitor examSystem c c' i call r g g') :
    DbStep i c.world c'.world g call r :=
  (own_answered hc.tables (hc.holds i g hm.before) hm.answers hm.next).1

theorem Base.move (hc : Base c) (hm : Moved monitor examSystem c c' i call r g g') : Base c' := by
  have htxn := answered_txns hm.answers
  obtain ⟨hdb, hown⟩ := own_answered hc.tables (hc.holds i g hm.before) hm.answers hm.next
  have hphase : ∀ j gj, monitor.phase c' j = some gj →
      j = i ∧ gj = g' ∨ j ≠ i ∧ monitor.phase c j = some gj := by
    intro j gj hj
    by_cases he : j = i
    · subst he
      exact .inl ⟨rfl, Option.some.inj (hj.symm.trans hm.after)⟩
    · exact .inr ⟨he, hm.other j he ▸ hj⟩
  -- No other process has the session that process `i` has after the step.
  have hnew : ∀ j gj id, j ≠ i → monitor.phase c j = some gj → gj.creates = some id →
      g'.creates = some id → False := by
    intro j gj id hj hgj hidj hid
    rcases creates_cases hm.answers hm.next hid with h | ⟨hfresh, hfree⟩
    · exact hj (hc.creates _ _ _ _ _ hgj hm.before hidj h)
    · rcases (hc.holds j gj hgj).created hc.tables hidj with h | h
      · exact hfresh h
      · exact hfree _ h
  refine ⟨hdb.tables_ok hc.tables, htxn.exclusive hc.exclusive, ?_, ?_, ?_⟩
  · intro j gj hj
    rcases hphase j gj hj with ⟨rfl, rfl⟩ | ⟨he, hj⟩
    · exact hown
    · refine hdb.holds_other hc.exclusive hc.tables he (htxn.other j he) ?_ (hc.holds j gj hj)
      intro id hid h
      exact he (hc.creates _ _ _ _ _ hj hm.before hid h)
  · intro j hj
    rw [hm.length] at hj
    have hi := Monitor.lt_of_phase hm.before
    exact (htxn.other j (by omega)).trans (hc.fresh j hj)
  · intro j k gj gk id hj hk hidj hidk
    rcases hphase j gj hj with ⟨rfl, rfl⟩ | ⟨hej, hj⟩ <;>
      rcases hphase k gk hk with ⟨rfl, rfl⟩ | ⟨hek, hk⟩
    · rfl
    · exact (hnew k gk id hek hk hidk hidj).elim
    · exact (hnew j gj id hej hj hidj hidk).elim
    · exact hc.creates _ _ _ _ _ hj hk hidj hidk

theorem Base.start (hc : Base c) (hlog : c.LogOk) (ts : List Task) {w : World}
    (hw : w.tables = c.world.tables) (ht : w.txns = c.world.txns) :
    Base (c.start examSystem ts w) := by
  have hholds : ∀ j l, w.holds j l ↔ c.world.holds j l := fun j l => by
    rw [World.holds, World.holds, ht]
  have hfresh : ∀ j, c.procs.length ≤ j → w.idle j := fun j hj => by
    rw [World.idle, ht]; exact hc.fresh j hj
  refine ⟨by rw [Config.start_world, hw]; exact hc.tables, ?_, ?_, ?_, ?_⟩
  · intro j k l hj hk
    exact hc.exclusive j k l ((hholds j l).mp hj) ((hholds k l).mp hk)
  · intro j gj hj
    rcases Monitor.phase_start_cases hlog hj with hj | ⟨hnew, t, -, rfl⟩
    · exact (hc.holds j gj hj).congr hw ht
    · exact start_holds t (hfresh j hnew)
  · intro j hj
    simp only [Config.start, List.length_append] at hj
    exact hfresh j (by omega)
  · intro j k gj gk id hj hk hidj hidk
    rcases Monitor.phase_start_cases hlog hj with hj | ⟨-, t, -, rfl⟩
    · rcases Monitor.phase_start_cases hlog hk with hk | ⟨-, t, -, rfl⟩
      · exact hc.creates _ _ _ _ _ hj hk hidj hidk
      · rw [monitor_start, start_creates] at hidk; cases hidk
    · rw [monitor_start, start_creates] at hidj; cases hidj

theorem Moved.guard (hm : Moved monitor examSystem c c' i call r g g')
    (hg : g'.isGuard = true) : g = g' := by
  have hn := hm.next
  cases r with
  | error e =>
    cases hn
    rw [monitor_failed, Phase.guard_failed] at hg
    cases hg
  | ok a => exact Phase.guard_next hn hg

theorem Moved.gains (hm : Moved monitor examSystem c c' i call r g g') {d : Submission}
    (hd : g'.submission = some d) :
    g.submission = some d ∨ ∃ a, r = .ok a ∧ g.Gains call a d := by
  have hn := hm.next
  cases r with
  | error e =>
    cases hn
    rw [monitor_failed, Phase.submission_failed] at hd
    cases hd
  | ok a => exact (Phase.submission_next hn hd).imp_right fun h => ⟨a, rfl, h⟩

variable {P : Guard World Call Resp Err Reply Task Choice EnvEvent}

theorem Reachable.base (h : Reachable P c) : Base c := by
  refine Reach.invariant monitor_sound (fun w hw => hw.base) ?_ ?_ ?_ h
  · intro c t hr hc _ _
    exact hc.start (hr.logOk monitor_sound) [t] rfl rfl
  · intro c v w ts hr hc _ hv
    obtain ⟨hw, ht⟩ := envStep_db hv
    exact hc.start (hr.logOk monitor_sound) ts hw ht
  · intro c c' i call r g g' _ hc _ hm
    exact hc.move hm

/-- The invariant rule of the pool for what follows from the tables. -/
theorem Reachable.induct {I : Pool → Prop} (hinit : ∀ w, Initial w → I (.initial w))
    (hstart : ∀ c ts w, I c → w.tables = c.world.tables → I (c.start examSystem ts w))
    (hmove : ∀ c c' i call r g g', Base c → I c →
      Reach.Allowed examSystem P c i call r c'.world →
      Moved monitor examSystem c c' i call r g g' → DbStep i c.world c'.world g call r → I c')
    (h : Reachable P c) : I c := by
  refine Reach.invariant monitor_sound hinit ?_ ?_ ?_ h
  · intro c t _ hc _ _
    exact hstart c [t] _ hc rfl
  · intro c v w ts _ hc _ hv
    exact hstart c ts w hc (envStep_db hv).1
  · intro c c' i call r g g' hr hc hP hm
    have hb := Reachable.base hr
    exact hmove c c' i call r g g' hb hc hP hm (hb.db hm)

end Base

end LmsBackend.Exams
