import LmsBackend.Exams.Keeps
import LmsBackend.Exams.Transactions

/-!
# What a step does to the database

`Phase.Holds` says what each phase knows of the database, and `Base` is the
invariant of the pool. `DbStep` lists the seven ways in which a step changes the
tables. Every later proof about the tables goes by these seven cases.
-/

open Async Store

namespace LmsBackend.Exams

/-! ## The tables -/

structure Tables where
  codes : Table ExamAccessCode
  sessions : Table TestSession
  attempts : List AttemptRow
  issued : List Id

def World.tables (w : World) : Tables := ⟨w.codes, w.sessions, w.attempts, w.issued⟩

/-! ## What a phase knows -/

/-- The session carries the triple of the code. -/
def Matches (session : TestSession) (code : ExamAccessCode) : Prop :=
  code.userId = session.userId ∧ code.examId = session.examId ∧ session.certId = some code.certId

/-- The code is in the database with the columns that were read. -/
def CodeKnown (userId examId : Id) (code : ExamAccessCode) (t : Tables) : Prop :=
  ∃ row, t.codes.get code.id = some row ∧ row.userId = userId ∧ row.examId = examId ∧
    row.certId = code.certId

/-- A row that was read once. The session may be gone, but it is no other session. -/
structure Known (session : TestSession) (t : Tables) : Prop where
  issued : session.id ∈ t.issued
  fixed : ∀ row, t.sessions.get session.id = some row → row.fixed = session.fixed
  code : ∃ code, t.codes.get session.sessionToken = some code ∧ Matches session code

/-- The session of a `startExam` that has not come to its end. -/
def Owned (code : Id) (session : TestSession) (t : Tables) : Prop :=
  session.sessionToken = code ∧
    ∃ row, t.sessions.get session.id = some row ∧ row.fixed = session.fixed

def World.idle (w : World) (i : Nat) : Prop := w.txns.get i = none

namespace Phase

def Holds (i : Nat) (w : World) : Phase → Prop
  | .dropping => True
  | .readTx => ∃ user, w.txns.get i = some ⟨i, user, []⟩
  | .candidates userId examId codes _ | .guarded userId examId codes =>
    w.idle i ∧ ∀ c ∈ codes, CodeKnown userId examId c w.tables
  | .consuming userId examId codes =>
    w.txns.get i = some ⟨i, none, []⟩ ∧ ∀ c ∈ codes, CodeKnown userId examId c w.tables
  | .consumed userId examId codes code =>
    (∃ row usedAt, w.codes.get code = some row ∧ row.usedAt = none ∧
      w.txns.get i = some ⟨i, none, [.code { row with usedAt := some usedAt }]⟩) ∧
    ∀ c ∈ codes, CodeKnown userId examId c w.tables
  | .inserted code session =>
    (∃ row usedAt, w.codes.get code = some row ∧ row.usedAt = none ∧
      w.txns.get i = some ⟨i, none,
        [.code { row with usedAt := some usedAt }, .newSession session]⟩ ∧ Matches session row) ∧
    session.sessionToken = code ∧ session.status = .active ∧ session.snapshot = none ∧
    session.id ∉ w.issued
  | .created code session | .undoing code session => w.idle i ∧ Owned code session w.tables
  | .undoBegun code session => w.txns.get i = some ⟨i, none, []⟩ ∧ Owned code session w.tables
  | .undoDeleted code session =>
    w.txns.get i = some ⟨i, none, [.dropSession session.id]⟩ ∧ Owned code session w.tables
  | .undoRestored code session =>
    (∃ row, w.codes.get code = some row ∧ w.txns.get i = some ⟨i, none,
      [.dropSession session.id, .code { row with usedAt := none }]⟩) ∧ Owned code session w.tables
  | .saveGet sessionId session _ | .saveSet sessionId session _ _
  | .saveMirror sessionId session _ | .lateGate sessionId session _
  | .expiryMark sessionId session => w.idle i ∧ session.id = sessionId ∧ Known session w.tables
  | .scoring d | .closed d => w.idle i ∧ Known d.session w.tables
  | .begun d => (∃ user, w.txns.get i = some ⟨i, user, []⟩) ∧ Known d.session w.tables
  | .moved d submittedAt =>
    (∃ user row, w.sessions.get d.session.id = some row ∧ row.isOpen ∧
      w.txns.get i = some ⟨i, user,
        [.session (row.moved d.status.session submittedAt d.answers)]⟩) ∧ Known d.session w.tables
  | .stored d attempt =>
    (∃ user row, w.sessions.get d.session.id = some row ∧ row.isOpen ∧
      w.txns.get i = some ⟨i, user,
        [.session (row.moved d.status.session attempt.submittedAt d.answers),
          .attempt ⟨d.session, i, attempt⟩]⟩) ∧
    d.makes attempt.submittedAt attempt ∧ Known d.session w.tables
  | _ => w.idle i

/-- The new session that the process alone knows of. -/
def creates : Phase → Option Id
  | .inserted _ s | .created _ s | .undoing _ s | .undoBegun _ s | .undoDeleted _ s
  | .undoRestored _ s => some s.id
  | _ => none

end Phase

/-- What holds of the tables by themselves. -/
structure Tables.Ok (t : Tables) : Prop where
  issued : ∀ id row, t.sessions.get id = some row → id ∈ t.issued
  code : ∀ id row, t.sessions.get id = some row →
    ∃ code, t.codes.get row.sessionToken = some code ∧ Matches row code

/-! ## The steps -/

/-- The calls that change the tables when they answer. -/
def Phase.writes (g : Phase) : Call → Bool
  | .accessCodeSave _ _ _ _ _ | .testSessionUpdateSnapshot _ _ | .testSessionUpdateStatus _ _ => true
  | .commitTransaction =>
    match g with
    | .inserted _ _ | .undoRestored _ _ | .stored _ _ => true
    | _ => false
  | _ => false

/-- What process `i` does to the tables when its call has come back. -/
inductive DbStep (i : Nat) (w w' : World) : Phase → (c : Call) → Except Err (Resp c) → Prop where
  | same {g c r} (h : w'.tables = w.tables) (hr : g.writes c = true → ∃ e, r = .error e) :
      DbStep i w w' g c r
  | issue {userId examId certId tokenHash expiresAt} (code : ExamAccessCode)
      (hnew : w.codes.get code.id = none) (hunused : code.usedAt = none)
      (h : w'.tables = { w.tables with codes := w.codes.put code }) :
      DbStep i w w' .quiet (.accessCodeSave userId examId certId tokenHash expiresAt) (.ok ())
  | start (code : ExamAccessCode) (session : TestSession) (usedAt : Time)
      (hcode : w.codes.get code.id = some code) (hunused : code.usedAt = none)
      (hfresh : session.id ∉ w.issued) (htoken : session.sessionToken = code.id)
      (hmatch : Matches session code) (hactive : session.status = .active)
      (hsnap : session.snapshot = none)
      (hlock : w.holds i (.code code.id)) (hlock' : w.holds i (.newSession session.id))
      (h : w'.tables = { w.tables with
        codes := w.codes.put { code with usedAt := some usedAt },
        sessions := w.sessions.put session,
        issued := session.id :: w.issued }) :
      DbStep i w w' (.inserted code.id session) .commitTransaction (.ok ())
  | undo (code : ExamAccessCode) (session row : TestSession)
      (hrow : w.sessions.get session.id = some row) (hfixed : row.fixed = session.fixed)
      (hcode : w.codes.get code.id = some code) (htoken : session.sessionToken = code.id)
      (hlock : w.holds i (.code code.id)) (hlock' : w.holds i (.session session.id))
      (h : w'.tables = { w.tables with
        codes := w.codes.put { code with usedAt := none },
        sessions := w.sessions.erase session.id }) :
      DbStep i w w' (.undoRestored code.id session) .commitTransaction (.ok ())
  | submit (d : Submission) (attempt : ExamAttempt) (row : TestSession)
      (hrow : w.sessions.get d.session.id = some row) (hopen : row.isOpen)
      (hfixed : row.fixed = d.session.fixed) (hmakes : d.makes attempt.submittedAt attempt)
      (hlock : w.holds i (.session d.session.id))
      (h : w'.tables = { w.tables with
        sessions := w.sessions.put (row.moved d.status.session attempt.submittedAt d.answers),
        attempts := w.attempts ++ [⟨d.session, i, attempt⟩] }) :
      DbStep i w w' (.stored d attempt) .commitTransaction (.ok ())
  | mark (session : TestSession) (hlock : ¬w.locked i (.session session.id))
      (h : w'.tables = { w.tables with
        sessions := w.sessions.update session.id fun s => { s with status := .expired } }) :
      DbStep i w w' (.expiryMark session.id session)
        (.testSessionUpdateStatus session.id .expired) (.ok ())
  | mirror (session : TestSession) (answers : Answers)
      (hlock : ¬w.locked i (.session session.id))
      (h : w'.tables = { w.tables with
        sessions := w.sessions.update session.id fun s => { s with snapshot := some answers } }) :
      DbStep i w w' (.saveMirror session.id session answers)
        (.testSessionUpdateSnapshot session.id answers) (.ok ())

theorem DbStep.kept {i : Nat} {w w' : World} {g : Phase} {c : Call} {a : Resp c}
    (h : w'.tables = w.tables) (hw : g.writes c = false) : DbStep i w w' g c (.ok a) :=
  .same h fun hw' => absurd hw' (by simp [hw])

end LmsBackend.Exams
