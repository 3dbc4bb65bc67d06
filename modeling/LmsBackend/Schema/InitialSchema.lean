import LmsBackend.Rls.World
import LmsBackend.Schema.CertSequence
import LmsBackend.Store.ForeignKeys

/-!
# The tables after the migrations

A statement of the application role on any table: what the policies let it find, the triggers, the
referential actions, and the constraints. Postgres runs a referential action without the policies
of the table that it changes.
-/

open Store

namespace LmsBackend.InitialSchema

open Rls (currentUserId currentAdminId currentIp)
open Schema (Collation sequenceOf certId)

inductive Table where
  | users
  | adminUsers
  | certificates
  | learningModules
  | lessons
  | lessonQuizzes
  | quizQuestions
  | exams
  | examQuestions
  | examQuestionOptions
  | examAccessCodes
  | examAttempts
  | testSessions
  | studentPurchases
  | studentProgress
  | promoCodes
  | transactions
  | issuedCertificates
  | processedWebhooks
  | adminAuditLogs
  | notificationTemplates
  | notificationQueue
  | refreshTokens
  | rateLimitBlocks
  | blogArticles
  | authTokens
  deriving DecidableEq, Repr

/-- `TG_TABLE_NAME` of the tables that are audited. -/
def Table.audited? : Table → Option String
  | .certificates => some "certificates"
  | .exams => some "exams"
  | .adminUsers => some "admin_users"
  | _ => none

/-! ## Rows -/

inductive Value where
  | null
  | bool (b : Bool)
  | int (n : Int)
  | numeric (q : Rat)
  /-- `VARCHAR`, `TEXT`, `INET` and the enums. -/
  | text (s : String)
  /-- In the form that `::text` gives. -/
  | uuid (s : String)
  | uuids (ss : List String)
  | timestamp (ms : Nat)
  | jsonb (text : String)
  deriving DecidableEq, Repr

/-- The values of a row by column. A column that is not there is NULL. -/
abbrev Row := List (String × Value)

def Row.get (row : Row) (column : String) : Value := (row.lookup column).getD .null

def Row.set (row : Row) (column : String) (value : Value) : Row :=
  (column, value) :: row.filter (·.1 ≠ column)

def Row.id (row : Row) : Value := row.get "id"

/-- What a column refers to: nothing where it is NULL. -/
def Row.ref (column : String) (row : Row) : Option Value :=
  if row.get column = .null then none else some (row.get column)

/-- What the schema leaves to Postgres. -/
class Postgres where
  /-- `::UUID`, which rejects a text that is none. -/
  uuid : String → Option String
  /-- `::INET`, as the text of the address. -/
  inet : String → Option String
  toJsonb : Row → String
  /-- The types of the columns, NOT NULL and CHECK. -/
  takes : Table → Row → Bool

/-! ## Constraints -/

/-- `REFERENCES .. ON DELETE ..`. No column has ON UPDATE, so that a key that a row refers to is
never changed. -/
def foreignKeys : List (ForeignKey Table String) := [
  ⟨.adminUsers, "created_by_id", .adminUsers, .setNull⟩,
  ⟨.learningModules, "cert_id", .certificates, .cascade⟩,
  ⟨.lessons, "module_id", .learningModules, .cascade⟩,
  ⟨.lessonQuizzes, "lesson_id", .lessons, .cascade⟩,
  ⟨.quizQuestions, "quiz_id", .lessonQuizzes, .cascade⟩,
  ⟨.exams, "cert_id", .certificates, .cascade⟩,
  ⟨.examQuestions, "exam_id", .exams, .cascade⟩,
  ⟨.examQuestionOptions, "question_id", .examQuestions, .cascade⟩,
  ⟨.examAccessCodes, "user_id", .users, .cascade⟩,
  ⟨.examAccessCodes, "exam_id", .exams, .cascade⟩,
  ⟨.examAccessCodes, "cert_id", .certificates, .cascade⟩,
  ⟨.examAttempts, "user_id", .users, .cascade⟩,
  ⟨.examAttempts, "exam_id", .exams, .cascade⟩,
  ⟨.examAttempts, "cert_id", .certificates, .cascade⟩,
  ⟨.testSessions, "user_id", .users, .cascade⟩,
  ⟨.testSessions, "exam_id", .exams, .cascade⟩,
  ⟨.studentPurchases, "user_id", .users, .cascade⟩,
  ⟨.studentPurchases, "cert_id", .certificates, .cascade⟩,
  ⟨.studentProgress, "user_id", .users, .cascade⟩,
  ⟨.studentProgress, "lesson_id", .lessons, .cascade⟩,
  ⟨.promoCodes, "created_by_id", .adminUsers, .setNull⟩,
  ⟨.transactions, "user_id", .users, .cascade⟩,
  ⟨.transactions, "cert_id", .certificates, .cascade⟩,
  ⟨.transactions, "promo_code_id", .promoCodes, .setNull⟩,
  ⟨.issuedCertificates, "user_id", .users, .cascade⟩,
  ⟨.issuedCertificates, "certificate_id", .certificates, .cascade⟩,
  ⟨.issuedCertificates, "exam_attempt_id", .examAttempts, .cascade⟩,
  ⟨.adminAuditLogs, "actor_id", .adminUsers, .cascade⟩,
  ⟨.notificationQueue, "user_id", .users, .cascade⟩,
  ⟨.refreshTokens, "user_id", .users, .cascade⟩,
  ⟨.refreshTokens, "admin_id", .adminUsers, .cascade⟩,
  ⟨.blogArticles, "author_id", .adminUsers, .setNull⟩,
  ⟨.authTokens, "user_id", .users, .cascade⟩]

/-- How many cascades lead to a table at most. -/
def Table.depth : Table → Nat
  | .learningModules | .exams | .studentPurchases | .transactions | .adminAuditLogs
  | .notificationQueue | .refreshTokens | .authTokens => 1
  | .lessons | .examQuestions | .examAccessCodes | .examAttempts | .testSessions => 2
  | .lessonQuizzes | .examQuestionOptions | .studentProgress | .issuedCertificates => 3
  | .quizQuestions => 4
  | _ => 0

def tables : List Table := [
  .users, .adminUsers, .certificates, .learningModules, .lessons, .lessonQuizzes, .quizQuestions,
  .exams, .examQuestions, .examQuestionOptions, .examAccessCodes, .examAttempts, .testSessions,
  .studentPurchases, .studentProgress, .promoCodes, .transactions, .issuedCertificates,
  .processedWebhooks, .adminAuditLogs, .notificationTemplates, .notificationQueue, .refreshTokens,
  .rateLimitBlocks, .blogArticles, .authTokens]

def uniqueIndexes : List (Table × List String) :=
  tables.map (·, ["id"]) ++ [
    (.users, ["email"]),
    (.adminUsers, ["email"]),
    (.exams, ["cert_id", "exam_order"]),
    (.studentPurchases, ["user_id", "cert_id"]),
    (.studentProgress, ["user_id", "lesson_id"]),
    (.promoCodes, ["code"]),
    (.transactions, ["stripe_session_id"]),
    (.issuedCertificates, ["cert_id"]),
    (.processedWebhooks, ["event_id"]),
    (.notificationTemplates, ["type", "locale"]),
    (.blogArticles, ["slug"])]

abbrev Tables := Table → List Row

/-- What an index compares. A row with a NULL is not like any other. -/
def indexed (columns : List String) (rows : List Row) : List (List Value) :=
  (rows.map fun row => columns.map row.get).filter fun values => .null ∉ values

section

variable [Postgres]

structure Sound (rows : Tables) : Prop where
  unique : ∀ index ∈ uniqueIndexes, (indexed index.2 (rows index.1)).Nodup
  refers : ∀ fk ∈ foreignKeys, ∀ row ∈ rows fk.child, ∀ id ∈ row.ref fk.column,
    id ∈ (rows fk.parent).map Row.id
  takes : ∀ t ∈ tables, ∀ row ∈ rows t, Postgres.takes t row = true

instance (rows : Tables) : Decidable (Sound rows) :=
  decidable_of_iff
    ((∀ index ∈ uniqueIndexes, (indexed index.2 (rows index.1)).Nodup) ∧
      (∀ fk ∈ foreignKeys, ∀ row ∈ rows fk.child, ∀ id ∈ row.ref fk.column,
        id ∈ (rows fk.parent).map Row.id) ∧
      ∀ t ∈ tables, ∀ row ∈ rows t, Postgres.takes t row = true)
    ⟨fun ⟨h, h', h''⟩ => ⟨h, h', h''⟩, fun h => ⟨h.unique, h.refers, h.takes⟩⟩

structure Database where
  rows : Tables
  sound : Sound rows

/-- The end of a statement: an error where a constraint is violated. -/
def Tables.check (rows : Tables) : Option Database :=
  if h : Sound rows then some ⟨rows, h⟩ else none

end

/-! ## Policies -/

structure Session where
  /-- `current_setting(name, TRUE)` -/
  setting : String → Option String
  /-- `NOW()`, and its year. -/
  now : Nat
  year : Nat
  /-- What a sequence gives for the nth row of a statement. -/
  nextval : String → Nat → Nat

/-- The tables with the policy on `user_id`. It has no command, so it is one for each of them. -/
def isolated : List Table := [.studentPurchases, .examAttempts, .issuedCertificates, .transactions]

/-- `user_id::text = NULLIF(current_setting('app.current_user_id', TRUE), '')` -/
def Session.owns (s : Session) (row : Row) : Bool :=
  match nullif (s.setting currentUserId) with
  | none => false
  | some userId => row.get "user_id" = .uuid userId

/-- The rows that an UPDATE or a DELETE can find. No policy of `admin_audit_logs` is for them. -/
def Session.finds (s : Session) (t : Table) (row : Row) : Bool :=
  if t = .adminAuditLogs then false
  else if t ∈ isolated then s.owns row
  else true

/-- The rows that it can leave, and those of an INSERT. -/
def Session.admits (s : Session) (t : Table) (row : Row) : Bool :=
  if t ∈ isolated then s.owns row else true

/-! ## Triggers -/

/-- What happens to a row. -/
inductive Change where
  | insert (t : Table) (new : Row)
  | update (t : Table) (old new : Row)
  | delete (t : Table) (old : Row)
  deriving DecidableEq, Repr

namespace Change

def table : Change → Table
  | .insert t _ | .update t _ _ | .delete t _ => t

/-- `OLD` -/
def old? : Change → Option Row
  | .insert _ _ => none
  | .update _ old _ | .delete _ old => some old

/-- `NEW` -/
def new? : Change → Option Row
  | .insert _ new | .update _ _ new => some new
  | .delete _ _ => none

/-- `TG_OP` -/
def op : Change → String
  | .insert _ _ => "INSERT"
  | .update _ _ _ => "UPDATE"
  | .delete _ _ => "DELETE"

def id : Change → Value
  | .insert _ new | .update _ _ new => new.id
  | .delete _ old => old.id

end Change

/-- Raises 'super_admin account cannot be modified or deleted'. -/
def protectSuperAdminRole (c : Change) : Bool :=
  c.table = .adminUsers && c.old?.any fun old => old.get "role" = .text "super_admin"

def auditLogsSeq : String := "admin_audit_logs_id_seq"

/-- `::TEXT` of an id. -/
def Value.toText : Value → Value
  | .uuid s => .text s
  | v => v

section

variable [Postgres]

/-- The row that `audit_admin_action()` inserts for the nth change, if there is an actor. `none`
when a cast fails. -/
def auditAdminAction (s : Session) (n : Nat) (c : Change) : Option (Option Row) :=
  match c.table.audited? with
  | none => some none
  | some tableName => do
    let actorId ← (nullif (s.setting currentAdminId)).mapM Postgres.uuid
    let ip ← (nullif (s.setting currentIp)).mapM Postgres.inet
    return actorId.map fun actorId => [
      ("id", .int (s.nextval auditLogsSeq n)),
      ("actor_id", .uuid actorId),
      ("action", .text c.op),
      ("table_name", .text tableName),
      ("record_id", c.id.toText),
      ("old_data", (c.old?.map fun old => .jsonb (Postgres.toJsonb old)).getD .null),
      ("new_data", (c.new?.map fun new => .jsonb (Postgres.toJsonb new)).getD .null),
      ("ip_address", (ip.map .text).getD .null),
      ("created_at", .timestamp s.now),
      ("updated_at", .timestamp s.now)]

def audit (s : Session) : Nat → List Change → Option (List Row)
  | _, [] => some []
  | n, c :: rest => do
    let log ← auditAdminAction s n c
    let logs ← audit s (n + 1) rest
    return log.toList ++ logs

end

/-- `set_cert_sequence()`, for the nth row. `none` when there is no such sequence. -/
def setCertSequence [Collation] (s : Session) (rows : Tables) (n : Nat) (new : Row) : Option Row :=
  match (rows .certificates).find? fun c => c.id = new.get "certificate_id" with
  -- The name of the sequence is NULL, and so is what `nextval` gives.
  | none => some (new.set "cert_id" .null)
  | some c =>
    match c.get "program_code" with
    | .text programCode =>
      (sequenceOf programCode).map fun name =>
        new.set "cert_id" (.text (certId programCode s.year (s.nextval name n)))
    | _ => some (new.set "cert_id" .null)

def beforeInsert [Collation] (s : Session) (rows : Tables) (t : Table) (new : List Row) :
    Option (List Row) :=
  if t = .issuedCertificates then
    new.zipIdx.mapM fun (row, n) => setCertSequence s rows n row
  else some new

def Value.succ : Value → Value
  | .int n => .int (n + 1)
  | v => v

def Tables.modify (rows : Tables) (t : Table) (f : Row → Row) : Tables :=
  Function.update rows t ((rows t).map f)

def Tables.append (rows : Tables) (t : Table) (new : List Row) : Tables :=
  Function.update rows t (rows t ++ new)

/-- `update_promo_usage_count()`, after an INSERT into `transactions`. -/
def updatePromoUsageCount (s : Session) (rows : Tables) (new : Row) : Tables :=
  match new.ref "promo_code_id" with
  | none => rows
  | some promoCodeId => rows.modify .promoCodes fun row =>
    if row.id = promoCodeId then
      (row.set "usage_count" (row.get "usage_count").succ).set "updated_at" (.timestamp s.now)
    else row

def afterInsert (s : Session) (rows : Tables) (changes : List Change) : Tables :=
  changes.foldl (fun rows c =>
    match c with
    | .insert .transactions new => updatePromoUsageCount s rows new
    | _ => rows) rows

/-! ## Statements -/

/-- `ON CONFLICT`: the indexes that it is about, and what DO UPDATE makes of the row that is there
and the one that is not. Nothing for DO NOTHING. -/
structure OnConflict where
  indexes : List (List String)
  set : Row → Row → Option Row

def OnConflict.find (c : OnConflict) (rows : List Row) (new : Row) : Option Row :=
  rows.find? fun row => c.indexes.any fun columns =>
    columns.map row.get = columns.map new.get && .null ∉ columns.map new.get

inductive Statement where
  /-- The rows with the defaults of their columns. -/
  | insert (t : Table) (new : List Row) (onConflict : Option OnConflict)
  | update (t : Table) (cond : Row → Bool) (set : Row → Row)
  | delete (t : Table) (cond : Row → Bool)

namespace Tables

variable (rows : Tables) (t : Table) (found : Row → Bool)

/-- Whether a deletion in `t` reaches a row. -/
def gone (t' : Table) (row : Row) : Bool :=
  reaches Row.id Row.ref foreignKeys rows t found 5 t' row

/-- A row that stays, without what it referred to. -/
def cleared (t' : Table) (row : Row) : Row :=
  (foreignKeys.filter fun fk => fk.child = t' ∧ fk.onDelete = .setNull ∧
    (rows fk.parent).any fun parent =>
      row.ref fk.column = some parent.id && rows.gone t found fk.parent parent).foldl
    (fun row fk => row.set fk.column .null) row

def deleted : Tables := fun t' =>
  ((rows t').filter fun row => !rows.gone t found t' row).map (rows.cleared t found t')

/-- What a deletion changes: for each row that it finds, those that referential actions update and
delete, and then the row. -/
def deletions : List Change :=
  ((rows t).filter found).flatMap fun row =>
    (tables.flatMap fun t' => ((rows t').filter fun row' => !rows.gone t found t' row' &&
        rows.cleared t (· = row) t' row' ≠ row').map fun row' =>
      .update t' row' (rows.cleared t (· = row) t' row')) ++
    (tables.flatMap fun t' => ((rows t').filter fun row' => rows.gone t (· = row) t' row' &&
        ¬(t' = t ∧ row' = row)).map (.delete t')) ++
    [.delete t row]

end Tables

section

variable [Postgres] [Collation]

/-- The triggers and the constraints. -/
def Tables.finish (rows : Tables) (s : Session) (changes : List Change) : Option Database :=
  if changes.any protectSuperAdminRole then none
  else (audit s 0 changes).bind fun logs => (rows.append .adminAuditLogs logs).check

/-- The row of an INSERT. -/
def insertRow (s : Session) (t : Table) (onConflict : Option OnConflict)
    (done : Tables × List Change) (new : Row) : Option (Tables × List Change) :=
  let (rows, changes) := done
  if !s.admits t new then none
  else
    match onConflict.bind fun c => (c.find (rows t) new).map fun old => (old, c.set old new) with
    | none => some (rows.append t [new], changes ++ [.insert t new])
    | some (_, none) => some (rows, changes)
    | some (old, some row) =>
      -- DO UPDATE is under the policies of an UPDATE. Where they do not let it, it is an error.
      if s.finds t old && s.admits t row then
        some (rows.modify t fun r => if r = old then row else r, changes ++ [.update t old row])
      else none

/-- `none` is an error: the statement changes nothing. -/
def exec (s : Session) (db : Database) : Statement → Option Database
  | .insert t new onConflict => do
    let new ← beforeInsert s db.rows t new
    let (rows, changes) ← new.foldlM (insertRow s t onConflict) (db.rows, [])
    (afterInsert s rows changes).finish s changes
  | .update t cond set =>
    let found := fun row => s.finds t row && cond row
    let changes := ((db.rows t).filter found).map fun row => Change.update t row (set row)
    if ¬(changes.all fun c => c.new?.all (s.admits t)) then none
    else (db.rows.modify t fun row => if found row then set row else row).finish s changes
  | .delete t cond =>
    let found := fun row => s.finds t row && cond row
    (db.rows.deleted t found).finish s (db.rows.deletions t found)

/-! ## Transactions -/

inductive Command where
  | statement (s : Session) (q : Statement)
  | commit
  | rollback

structure State where
  committed : Database
  /-- What the transaction sees, until a statement of it fails. -/
  current : Option Database

def State.start (db : Database) : State := ⟨db, some db⟩

/-- After an error a COMMIT is a ROLLBACK. -/
def State.step (st : State) : Command → State
  | .statement s q => { st with current := st.current.bind fun db => exec s db q }
  | .commit => .start (st.current.getD st.committed)
  | .rollback => .start st.committed

def State.run (st : State) (cs : List Command) : State := cs.foldl State.step st

end

end LmsBackend.InitialSchema
