import LmsBackend.Content.Entities
import LmsBackend.Exams.World
import LmsBackend.Store.Connections

/-!
# Runners, connections and policies

The pool of Postgres connections, the query runners that hold some of them, and
the statements that run on either. Left out is what a ROLLBACK undoes: the tables
can become any others between two calls.
-/

open Async Store

namespace LmsBackend.Rls

open Content (StudentPurchase)
open Exams (Exam ExamAttempt TestSession TestSessionStatus)

/-- What the interceptor reads of `req.user`. -/
structure AuthenticatedUser where
  id : Option Id
  adminId : Option Id
  deriving DecidableEq, Repr

/-- An empty id is falsy. -/
def AuthenticatedUser.student? (user : AuthenticatedUser) : Option Id := user.id.filter (· ≠ "")

def AuthenticatedUser.admin? (user : AuthenticatedUser) : Option Id := user.adminId.filter (· ≠ "")

/-! ## Runners -/

/-- What a runner is made for. No step reads it. -/
inductive Purpose where
  | request (user : AuthenticatedUser)
  | attemptedExams (userId : Id)
  | scoring (userId : Id)
  deriving DecidableEq, Repr

/-- The student that the runner is for. -/
def Purpose.student? : Purpose → Option Id
  | .request user => user.student?
  | .attemptedExams userId | .scoring userId => some userId

/-- `serial` tells runners apart. The process is for statements only, like the purpose. -/
structure Lease where
  serial : Nat
  proc : Nat
  purpose : Purpose
  deriving DecidableEq, Repr

structure QueryRunner extends Lease where
  slot : Nat
  deriving DecidableEq, Repr

/-! ## Tables -/

/-- The tables with a policy. -/
inductive Protected where
  | studentPurchases
  | examAttempts
  deriving DecidableEq, Repr

@[reducible] def Protected.Row : Protected → Type
  | .studentPurchases => StudentPurchase
  | .examAttempts => ExamAttempt

def Protected.userId : (t : Protected) → t.Row → Id
  | .studentPurchases, row => StudentPurchase.userId row
  | .examAttempts, row => ExamAttempt.userId row

def currentUserId : String := "app.current_user_id"
def currentAdminId : String := "app.current_admin_id"
def currentIp : String := "app.current_ip"

/-- `user_id::text = NULLIF(current_setting('app.current_user_id', TRUE), '')` -/
def Protected.admits (t : Protected) (setting : String → Option String) (row : t.Row) : Bool :=
  nullif (setting currentUserId) = some (t.userId row)

structure Data (D : Type) where
  now : Time
  purchases : List StudentPurchase
  attempts : List ExamAttempt
  sessions : Table TestSession
  exams : List Exam
  /-- The tables without a policy that nothing here reads. -/
  rest : D

def Data.rows {D : Type} (d : Data D) : (t : Protected) → List t.Row
  | .studentPurchases => d.purchases
  | .examAttempts => d.attempts

def Data.setRows {D : Type} (d : Data D) : (t : Protected) → List t.Row → Data D
  | .studentPurchases, rows => { d with purchases := rows }
  | .examAttempts, rows => { d with attempts := rows }

@[simp] theorem Data.setRows_rest {D : Type} (d : Data D) (t : Protected) (rows : List t.Row) :
    (d.setRows t rows).rest = d.rest := by
  cases t <;> rfl

/-! ## Statements -/

inductive Statement (H : Type) where
  | select (t : Protected) (cond : t.Row → Bool)
  | insert (t : Protected) (row : t.Row)
  | update (t : Protected) (cond : t.Row → Bool) (set : t.Row → t.Row)
  | delete (t : Protected) (cond : t.Row → Bool)
  | findExam (examId : Id)
  /-- `SET status, submitted_at, snapshot WHERE id AND status IN (..)`. The answer is `affected`. -/
  | updateTestSession (id : Id) (allowed : List TestSessionStatus) (status : TestSessionStatus)
      (submittedAt : Time) (snapshot : Answers)
  | other (h : H)

/-- The answer to a statement: the rows that it finds. -/
@[reducible] def Statement.Resp {H : Type} (R : H → Type) : Statement H → Type
  | .select t _ => List t.Row
  | .insert t _ => List t.Row
  | .update t _ _ => List t.Row
  | .delete t _ => List t.Row
  | .findExam _ => Option Exam
  | .updateTestSession _ _ _ _ _ => Nat
  | .other h => R h

/-- What the model is not about: the other tables, the errors, and what else changes the data. -/
structure Backend (D H : Type) (R : H → Type) (E X V : Type) where
  /-- Runs a statement on a connection with these settings. `none` while it has to wait. -/
  run : (String → Option String) → (h : H) → X → D → Option (D × Except E (R h))
  /-- What the database and the driver reject with. -/
  infra : E
  conflict : String → E
  env : V → Data D → Data D

variable {D H : Type} {R : H → Type} {E X V : Type}

/-- Runs a statement under the policies. An INSERT of a row that is not admitted is an error. So
is an UPDATE that leaves one. -/
def Data.run (B : Backend D H R E X V) (setting : String → Option String) (s : Statement H) (x : X)
    (d : Data D) : Option (Data D × Except E (s.Resp R)) :=
  match s with
  | .select t cond =>
    some (d, .ok ((d.rows t).filter fun row => t.admits setting row && cond row))
  | .insert t row =>
    if t.admits setting row then some (d.setRows t (d.rows t ++ [row]), .ok [row])
    else some (d, .error B.infra)
  | .update t cond set =>
    let found := (d.rows t).filter fun row => t.admits setting row && cond row
    if found.all fun row => t.admits setting (set row) then
      some (d.setRows t ((d.rows t).map fun row =>
        if t.admits setting row && cond row then set row else row), .ok found)
    else some (d, .error B.infra)
  | .delete t cond =>
    some (d.setRows t ((d.rows t).filter fun row => !(t.admits setting row && cond row)),
      .ok ((d.rows t).filter fun row => t.admits setting row && cond row))
  | .findExam examId => some (d, .ok (d.exams.find? (·.id = examId)))
  | .updateTestSession id allowed status submittedAt snapshot =>
    match d.sessions.get id with
    | none => some (d, .ok 0)
    | some row =>
      if row.status ∉ allowed then some (d, .ok 0)
      else
        some ({ d with sessions := d.sessions.put (row.moved status submittedAt snapshot) }, .ok 1)
  | .other h => (B.run setting h x d.rest).map fun (rest, r) => ({ d with rest := rest }, r)

/-! ## Calls -/

inductive Call (H : Type) where
  /-- `createQueryRunner()` and `connect()`. -/
  | connect (purpose : Purpose)
  | startTransaction (r : QueryRunner)
  /-- `set_config(name, value, true)` -/
  | setConfig (r : QueryRunner) (name value : String)
  | query (r : QueryRunner) (s : Statement H)
  | commitTransaction (r : QueryRunner)
  | rollbackTransaction (r : QueryRunner)
  | isTransactionActive (r : QueryRunner)
  | isReleased (r : QueryRunner)
  | release (r : QueryRunner)
  /-- A statement of an injected repository: on a free connection, which it gives back. -/
  | repository (s : Statement H)
  | now
  /-- In Redis. -/
  | deleteSession (id : Id)
  /-- Whatever else is awaited that takes no connection. -/
  | outside (h : H)

@[reducible] def Resp (R : H → Type) : Call H → Type
  | .connect purpose => { r : QueryRunner // r.purpose = purpose }
  | .query _ s => s.Resp R
  | .repository s => s.Resp R
  | .isTransactionActive _ => Bool
  | .isReleased _ => Bool
  | .now => Time
  | .outside h => R h
  | _ => Unit

/-- How a call on a connection comes back. -/
inductive Fate where
  | done
  /-- A COMMIT or a ROLLBACK rejects, but the server has ended the transaction. -/
  | ended
  /-- The connection breaks and the driver drops it. -/
  | lost
  deriving DecidableEq, Repr

structure Choice (X : Type) where
  slot : Nat
  fate : Fate
  x : X
  deriving DecidableEq, Repr

/-- `active` are the runners whose `isTransactionActive` is set. -/
structure World (D : Type) where
  connections : Connections Lease
  runners : Nat
  active : List QueryRunner
  data : Data D

/-- `extra.max` -/
def maxConnections : Nat := 10

namespace World

def put (w : World D) (k : Connection Lease) : World D :=
  { w with connections := w.connections.put k }

def drop (w : World D) (k : Connection Lease) : World D :=
  { w with connections := w.connections.erase k.slot }

/-- The call of a runner. After the runner has lost its connection it is an error. -/
def onRunner (w : World D) (B : Backend D H R E X V) (r : QueryRunner) (fate : Fate) {ρ : Type}
    (f : Connection Lease → Option (World D × Except E ρ)) : Option (World D × Except E ρ) :=
  match w.connections.held? r.slot r.toLease with
  | none => some (w, .error B.infra)
  | some k => if fate = .lost then some (w.drop k, .error B.infra) else f k

/-- COMMIT or ROLLBACK. -/
def finish (w : World D) (B : Backend D H R E X V) (r : QueryRunner) (fate : Fate) :
    Option (World D × Except E Unit) :=
  w.onRunner B r fate fun k =>
    if fate = .ended then some (w.put k.finish, .error B.infra)
    else some ({ w.put k.finish with active := w.active.erase r }, .ok ())

end World

def exec (B : Backend D H R E X V) (i : Nat) (c : Call H) (x : Choice X) (w : World D) :
    Option (World D × Except E (Resp R c)) :=
  match c with
  | .connect purpose => (w.connections.take maxConnections x.slot).map fun k =>
    let r : QueryRunner := ⟨⟨w.runners, i, purpose⟩, k.slot⟩
    ({ w.put (k.lend r.toLease) with runners := w.runners + 1 }, .ok ⟨r, rfl⟩)
  | .startTransaction r => w.onRunner B r x.fate fun k =>
    some ({ w.put k.begin with active := r :: w.active }, .ok ())
  | .setConfig r name value => w.onRunner B r x.fate fun k =>
    some (w.put (k.setLocal name value), .ok ())
  | .query r s => w.onRunner B r x.fate fun k =>
    (w.data.run B k.setting s x.x).map fun (data, a) => ({ w with data := data }, a)
  | .commitTransaction r => w.finish B r x.fate
  | .rollbackTransaction r => w.finish B r x.fate
  | .isTransactionActive r => some (w, .ok (w.active.contains r))
  | .isReleased r => some (w, .ok (w.connections.held? r.slot r.toLease).isNone)
  | .release r =>
    match w.connections.held? r.slot r.toLease with
    | none => some (w, .ok ())
    | some k => some ({ w with connections := w.connections.takeBack k }, .ok ())
  | .repository s => (w.connections.take maxConnections x.slot).bind fun k =>
    if x.fate = .lost then some (w.drop k, .error B.infra)
    else (w.data.run B k.setting s x.x).map fun (data, a) => ({ w.put k with data := data }, a)
  | .now => some (w, .ok w.data.now)
  | .deleteSession _ => some (w, .ok ())
  | .outside h => (B.run (fun _ => none) h x.x w.data.rest).map fun (rest, a) =>
    ({ w with data := { w.data with rest := rest } }, a)

/-- The two flags are read and `release` only hands back: these do not reject. -/
def Call.rejects : Call H → Bool
  | .isTransactionActive _ | .isReleased _ | .release _ | .now => false
  | _ => true

/-- A call that rejects while the connection lives on has done nothing. Of a ROLLBACK the driver
keeps that it has failed. -/
def World.rejected (w : World D) : Call H → World D
  | .rollbackTransaction r =>
    match w.connections.held? r.slot r.toLease with
    | none => w
    | some k => w.put k.fail
  | _ => w

def reject (B : Backend D H R E X V) (_ : Nat) (c : Call H) (w : World D) : Option (World D × E) :=
  if c.rejects then some (w.rejected c, B.infra) else none

end LmsBackend.Rls
