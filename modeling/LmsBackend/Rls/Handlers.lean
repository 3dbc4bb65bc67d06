import LmsBackend.Content.System
import LmsBackend.Rls.Interceptor

/-!
# The content requests on connections

`CatalogService` and `LearningService` run their statements through injected
repositories, but for the purchases. A trigger writes the audit log.
-/

open Async Store

namespace LmsBackend.Rls

open Content (Certificate)

/-- `admin_audit_logs`. The columns that the trigger fills in. -/
structure AdminAuditLog where
  actorId : Id
  action : String
  tableName : String
  recordId : Id
  oldData : Option Certificate
  newData : Option Certificate
  ipAddress : Option String

/-- The tables of the content. Its purchases are those of `Data`. -/
structure ContentTables where
  content : Content.World
  auditLogs : List AdminAuditLog

/-- `audit_admin_action()` for a row of `certificates`: skipped if no actor is in context. -/
def auditAdminAction (setting : String → Option String) (action : String) (recordId : Id)
    (old new : Option Certificate) (logs : List AdminAuditLog) : List AdminAuditLog :=
  match nullif (setting currentAdminId) with
  | none => logs
  | some actorId =>
    logs ++ [⟨actorId, action, "certificates", recordId, old, new, nullif (setting currentIp)⟩]

/-- `trg_audit_certificates`, after a statement that has succeeded. -/
def auditCertificates (setting : String → Option String) (x : String) (before after : Content.World)
    (logs : List AdminAuditLog) : Content.Call → List AdminAuditLog
  | .certificateSave _ =>
    auditAdminAction setting "INSERT" x none (after.certificates.get x) logs
  | .certificateUpdate id _ =>
    match before.certificates.get id with
    | none => logs
    | some old => auditAdminAction setting "UPDATE" id (some old) (after.certificates.get id) logs
  | _ => logs

def runContent (setting : String → Option String) (c : Content.Call) (x : String)
    (d : ContentTables) : Option (ContentTables × Except Content.Err (Content.Resp c)) :=
  (Content.exec 0 c x d.content).map fun (content, r) =>
    match r with
    | .ok a => (⟨content, auditCertificates setting x d.content content d.auditLogs c⟩, .ok a)
    | .error e => (⟨content, d.auditLogs⟩, .error e)

/-- Time passes by itself. -/
def contentBackend :
    Backend ContentTables Content.Call Content.Resp Content.Err String Nat where
  run := runContent
  infra := .infra "query failed"
  conflict := .conflict
  env ms d :=
    { d with
      now := d.now + ms
      rest := { d.rest with content := { d.rest.content with now := d.rest.content.now + ms } } }

abbrev ContentHandler := Handler Content.Call Content.Resp Content.Err

/-- How the services make a call. -/
def contentCall : (c : Content.Call) → ContentHandler (Content.Resp c)
  | .purchaseFind _ userId certId => do
    let rows : List Content.StudentPurchase ← Prog.await (HandlerCall.rls
      (.select .studentPurchases fun row => row.userId = userId ∧ row.certId = certId))
    pure (rows.take 1)
  | .now => Prog.await (HandlerCall.outside Content.Call.now)
  | .getSignedUrl key expiresInSeconds =>
    Prog.await (HandlerCall.outside (Content.Call.getSignedUrl key expiresInSeconds))
  | c => Prog.await (HandlerCall.repository (.other c))

def contentHandler (t : Content.Task) : ContentHandler Content.Reply :=
  t.prog.interpret contentCall

abbrev contentRlsSystem := rlsSystem contentBackend Content.Reply

abbrev ContentPool :=
  Pool ContentTables Content.Call Content.Resp Content.Err Content.Reply

abbrev ContentRlsTask :=
  Task Content.Call Content.Resp Content.Err Content.Reply

end LmsBackend.Rls
