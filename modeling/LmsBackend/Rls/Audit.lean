import LmsBackend.Rls.Handlers
import LmsBackend.Rls.Isolation

/-!
# The audit log

The interceptor puts the admin's id on the connection of its runner. The catalog
writes on others, where the trigger finds no actor and skips the audit.
-/

open Async Store

namespace LmsBackend.Rls

/-- The write endpoints of `CatalogAdminController`. -/
def CatalogWrite : Content.Task → Prop
  | .create _ | .update _ _ | .updateTranslations _ _ | .softDelete _ => True
  | _ => False

/-- The request of an admin to one of them. -/
def AdminWrite (adminId : Id) (t : ContentRlsTask) : Prop :=
  ∃ req user write, t = .request req (contentHandler write) ∧ CatalogWrite write ∧
    req.user = some user ∧ user.admin? = some adminId

/-- There are no other requests. -/
def adminWrites : Guard (World ContentTables) (Call Content.Call) (Resp Content.Resp) Content.Err
    Content.Reply ContentRlsTask (Choice String) Nat :=
  fun _ l => ∀ t, l = .spawn t → ∃ adminId, AdminWrite adminId t

abbrev ContentEvent := RlsEvent ContentTables Content.Call Content.Resp Content.Err

/-- The call has changed the row of the certificate, or made it. -/
def Changes (e : ContentEvent) (id : Id) : Prop :=
  e.after.data.rest.content.certificates.get id ≠ e.before.data.rest.content.certificates.get id

/-- Since the call, a row for the record has come into the log, and its actor is the admin whose
request made the call. -/
def Audited (c : ContentPool) (e : ContentEvent) (id : Id) : Prop :=
  ∃ t adminId rows, c.task? e.proc = some t ∧ AdminWrite adminId t ∧
    c.world.data.rest.auditLogs = e.before.data.rest.auditLogs ++ rows ∧
    ∃ row ∈ rows, row.tableName = "certificates" ∧ row.recordId = id ∧ row.actorId = adminId

/-! ## No write is on a runner -/

/-- Statements on runners leave the tables without a policy alone. -/
def Call.offRunner : Call Content.Call → Prop
  | .query _ (.other _) => False
  | _ => True

def HandlerCall.offRunner : HandlerCall Content.Call → Prop
  | .rls (.other _) => False
  | _ => True

theorem contentHandler_meets (t : Content.Task) :
    (Contract.only HandlerCall.offRunner).Meets (contentHandler t) fun _ => True := by
  refine (Contract.meets_only (Q := fun _ => True) fun _ => trivial).interpret fun c _ => ?_
  cases c <;> exact ⟨trivial, fun _ => trivial, fun _ _ => trivial⟩

section

variable {α : Type}

theorem await_meets {c : Call Content.Call} (hc : c.offRunner := by trivial) :
    (Contract.only Call.offRunner).Meets
      (await c : Promise Content.Call Content.Resp Content.Err (Resp Content.Resp c)) fun _ => True :=
  (Contract.meets_await c).mpr ⟨hc, fun _ _ => trivial⟩

theorem then_meets {c : Call Content.Call}
    {f : Resp Content.Resp c → Promise Content.Call Content.Resp Content.Err α}
    (hf : ∀ a, (Contract.only Call.offRunner).Meets (f a) fun _ => True)
    (hc : c.offRunner := by trivial) :
    (Contract.only Call.offRunner).Meets (await c >>= f) fun _ => True :=
  (Contract.meets_bind f).mpr ((await_meets hc).mono fun a _ => hf a)

theorem inTransaction_meets {purpose : Purpose}
    {body : QueryRunner → Promise Content.Call Content.Resp Content.Err α}
    (hbody : ∀ r, (Contract.only Call.offRunner).Meets (body r) fun _ => True) :
    (Contract.only Call.offRunner).Meets (inTransaction purpose body) fun _ => True := by
  unfold inTransaction
  refine then_meets fun runner => then_meets fun _ => ?_
  refine Contract.Meets.ensure (Contract.Meets.handle ?_ fun err => ?_) ?_
  · exact (Contract.meets_bind _).mpr ((hbody runner.val).mono fun _ _ =>
      then_meets fun _ => trivial)
  · refine then_meets fun isTransactionActive => ?_
    cases isTransactionActive with
    | false => trivial
    | true => exact then_meets fun _ => trivial
  · refine then_meets fun isReleased => ?_
    cases isReleased with
    | false => exact await_meets
    | true => trivial

theorem setId_meets (runner : QueryRunner) (name : String) (id : Option Id) :
    (Contract.only Call.offRunner).Meets
      (setId runner name id : Promise Content.Call Content.Resp Content.Err Unit) fun _ => True := by
  cases id with
  | none => trivial
  | some id => exact await_meets

theorem scoreAndPersist_meets (session : Exams.TestSession) (answers : Answers)
    (status : Exams.AttemptStatus) (lateFlag : Bool) :
    (Contract.only Call.offRunner).Meets (scoreAndPersist contentBackend session answers status
      lateFlag) fun _ => True := by
  unfold scoreAndPersist
  refine then_meets fun exam? => then_meets fun submittedAt => ?_
  refine (Contract.meets_bind _).mpr ((inTransaction_meets fun runner => ?_).mono fun _ _ =>
    then_meets fun _ => trivial)
  unfold persist
  refine then_meets fun _ => then_meets fun affected => ?_
  split
  · trivial
  · exact then_meets fun _ => trivial

theorem handlerCall_meets {rlsRunner : Option QueryRunner} {c : HandlerCall Content.Call}
    (hc : c.offRunner) :
    (Contract.only Call.offRunner).Meets (c.prog contentBackend rlsRunner) fun _ => True := by
  cases c with
  | rls s =>
    cases rlsRunner with
    | none => exact await_meets
    | some r => cases s <;> first | exact hc.elim | exact await_meets
  | repository s => exact await_meets
  | getAttemptedExamIds userId certId =>
    unfold HandlerCall.prog getAttemptedExamIds
    refine inTransaction_meets fun runner => ?_
    exact then_meets fun _ => then_meets fun _ => trivial
  | scoreAndPersist session answers status lateFlag => exact scoreAndPersist_meets ..
  | outside h => exact await_meets

end

theorem contentTask_meets (req : Request) (write : Content.Task) :
    (Contract.only Call.offRunner).Meets (intercept contentBackend req (contentHandler write))
      fun _ => True := by
  have hhandle : ∀ rlsRunner, (Contract.only Call.offRunner).Meets
      (handle contentBackend rlsRunner (contentHandler write)) fun _ => True := fun rlsRunner =>
    (contentHandler_meets write).interpret fun c hc => handlerCall_meets hc
  unfold intercept
  split
  · exact hhandle none
  · refine inTransaction_meets fun runner => ?_
    refine (Contract.meets_bind _).mpr ((setId_meets runner _ _).mono fun _ _ => ?_)
    refine (Contract.meets_bind _).mpr ((setId_meets runner _ _).mono fun _ _ => ?_)
    exact then_meets fun _ => hhandle (some runner)

/-! ## The log never grows -/

section

variable {setting : String → Option String} {x : String}

/-- Without an actor in context the trigger skips the audit. -/
theorem auditCertificates_skips (h : nullif (setting currentAdminId) = none)
    (before after : Content.World) (logs : List AdminAuditLog) (c : Content.Call) :
    auditCertificates setting x before after logs c = logs := by
  have hskip : ∀ action recordId old new,
      auditAdminAction setting action recordId old new logs = logs := fun action recordId old new => by
    rw [auditAdminAction, h]
  cases c with
  | certificateSave row => exact hskip _ _ _ _
  | certificateUpdate id patch =>
    simp only [auditCertificates]
    split
    · rfl
    · exact hskip _ _ _ _
  | _ => rfl

theorem runContent_auditLogs {c : Content.Call} {d d' : ContentTables}
    {r : Except Content.Err (Content.Resp c)} (hadmin : nullif (setting currentAdminId) = none)
    (h : runContent setting c x d = some (d', r)) : d'.auditLogs = d.auditLogs := by
  obtain ⟨⟨content, r⟩, -, h⟩ := Option.map_eq_some_iff.mp h
  cases r with
  | ok a =>
    cases h
    exact auditCertificates_skips hadmin _ _ _ c
  | error e =>
    cases h
    rfl

theorem run_auditLogs {s : Statement Content.Call} {d d' : Data ContentTables}
    {r : Except Content.Err (s.Resp Content.Resp)}
    (hs : nullif (setting currentAdminId) = none ∨ ∀ c, s ≠ .other c)
    (h : d.run contentBackend setting s x = some (d', r)) :
    d'.rest.auditLogs = d.rest.auditLogs := by
  cases s with
  | other c =>
    obtain ⟨⟨rest, r⟩, hrun, h⟩ := Option.map_eq_some_iff.mp h
    cases h
    exact runContent_auditLogs (hs.resolve_right fun hne => hne c rfl) hrun
  | insert t row =>
    simp only [Data.run] at h
    split at h <;> cases h <;> simp
  | update t cond set =>
    simp only [Data.run] at h
    split at h <;> cases h <;> simp
  | updateTestSession id allowed status submittedAt snapshot =>
    simp only [Data.run] at h
    split at h
    · cases h
      rfl
    · split at h <;> cases h <;> rfl
  | _ =>
    cases h
    simp

end

section

variable {w w' : World ContentTables} {i : Nat} {x : Choice String}

/-- A call of a runner that leaves the data alone on its connection does so without one. -/
theorem onRunner_data {ρ : Type} {r : QueryRunner} {fate : Fate}
    {f : Connection Lease → Option (World ContentTables × Except Content.Err ρ)}
    {a : Except Content.Err ρ} (h : w.onRunner contentBackend r fate f = some (w', a))
    (hf : ∀ k, f k = some (w', a) → w'.data.rest.auditLogs = w.data.rest.auditLogs) :
    w'.data.rest.auditLogs = w.data.rest.auditLogs := by
  unfold World.onRunner at h
  split at h
  · cases h
    rfl
  · split at h
    · cases h
      rfl
    · exact hf _ h

theorem finish_data {r : QueryRunner} {fate : Fate} {a : Except Content.Err Unit}
    (h : w.finish contentBackend r fate = some (w', a)) :
    w'.data.rest.auditLogs = w.data.rest.auditLogs := by
  refine onRunner_data h fun k h => ?_
  split at h <;> cases h <;> rfl

theorem exec_auditLogs {c : Call Content.Call} {a : Except Content.Err (Resp Content.Resp c)}
    (hw : Orderly w) (hc : c.offRunner) (h : exec contentBackend i c x w = some (w', a)) :
    w'.data.rest.auditLogs = w.data.rest.auditLogs := by
  cases c with
  | connect purpose =>
    obtain ⟨k, -, h⟩ := Option.map_eq_some_iff.mp h
    cases h
    rfl
  | startTransaction r =>
    refine onRunner_data h fun k h => ?_
    cases h
    rfl
  | setConfig r name value =>
    refine onRunner_data h fun k h => ?_
    cases h
    rfl
  | query r s =>
    refine onRunner_data h fun k h => ?_
    obtain ⟨⟨data, a⟩, hrun, h⟩ := Option.map_eq_some_iff.mp h
    cases h
    refine run_auditLogs (.inr fun c hs => ?_) hrun
    subst hs
    exact hc
  | commitTransaction r => exact finish_data h
  | rollbackTransaction r => exact finish_data h
  | release r =>
    simp only [exec] at h
    split at h <;> cases h <;> rfl
  | repository s =>
    obtain ⟨k, htake, h⟩ := Option.bind_eq_some_iff.mp h
    split at h
    · cases h
      rfl
    · obtain ⟨⟨data, a⟩, hrun, h⟩ := Option.map_eq_some_iff.mp h
      cases h
      -- A free connection has no transaction open, and so no admin.
      have hclosed := Connections.closed_of_take hw.idle htake
      exact run_auditLogs (.inl (Connection.nullif_setting_of_closed hclosed _)) hrun
  | outside c =>
    obtain ⟨⟨rest, a⟩, hrun, h⟩ := Option.map_eq_some_iff.mp h
    cases h
    exact runContent_auditLogs rfl hrun
  | _ =>
    cases h
    rfl

end

theorem offRunner_upholds :
    (Contract.only Call.offRunner).Upholds contentRlsSystem fun _ => True where
  exec i c x w w' r _ _ _ := ⟨trivial, fun _ _ => trivial⟩
  reject i c w w' e _ _ _ := trivial
  env v w w' ts _ h := by
    cases h
    exact ⟨trivial, fun t ht => absurd ht List.not_mem_nil⟩

/-- The log has been the same all along. -/
structure Unlogged (logs : List AdminAuditLog) (c : ContentPool) : Prop where
  world : c.world.data.rest.auditLogs = logs
  before : ∀ e ∈ c.log, e.before.data.rest.auditLogs = logs

/-- No call of a run changes the log, given that no write is on a runner. -/
theorem Unlogged.move {logs : List AdminAuditLog} {c c' : ContentPool} (hc : Unlogged logs c)
    (htransacted : Transacted c) {i : Nat} {call : Call Content.Call}
    {res : Except Content.Err (Resp Content.Resp call)} {g g' : Phase} (hcall : call.offRunner)
    (hm : RunnerMoved contentBackend c c' i call res g g') : Unlogged logs c' where
  world := by
    cases hm.answers with
    | exec h =>
      rw [rlsSystem_exec] at h
      exact (exec_auditLogs htransacted.orderly hcall h).trans hc.world
    | reject h =>
      rw [rlsSystem_reject] at h
      rw [reject_eq h, rejected_data]
      exact hc.world
  before e he := by
    rw [hm.log, List.mem_append, List.mem_singleton] at he
    rcases he with he | rfl
    · exact hc.before e he
    · exact hc.world

theorem unlogged {w₀ : World ContentTables} (hw₀ : Initial w₀) {c : ContentPool}
    (h : Reach contentRlsSystem (· = w₀) adminWrites c) : Unlogged w₀.data.rest.auditLogs c := by
  have hspawn : ∀ (c : ContentPool) t, adminWrites c (.spawn t) →
      (Contract.only Call.offRunner).Meets (contentRlsSystem.prog t) fun _ => True := by
    intro c t hP
    obtain ⟨adminId, req, user, write, rfl, -⟩ := hP t rfl
    exact contentTask_meets req write
  refine Reach.invariant (runnerMonitor_sound contentBackend) ?_ ?_ ?_ ?_ h
  · rintro w rfl
    exact ⟨rfl, fun e he => nomatch he⟩
  · intro c t _ hc _ _
    exact ⟨hc.world, hc.before⟩
  · intro c v w ts _ hc _ hv
    cases hv
    exact ⟨hc.world, hc.before⟩
  · intro c c' i call res g g' hr hc _ hm
    have hcall : call.offRunner :=
      (offRunner_upholds.reach (fun _ _ => trivial) hspawn hr).may hm.waits
    exact hc.move (transacted (hr.of_init fun w hw => hw ▸ hw₀)) hcall hm

theorem never_audited {c : ContentPool} (h : Reach contentRlsSystem Initial adminWrites c) :
    ∀ e ∈ c.log, ∀ id, Changes e id → ¬Audited c e id := by
  obtain ⟨w₀, hw₀, h⟩ := h.exists_init
  have hunlogged := unlogged hw₀ h
  intro e he id _
  rintro ⟨t, adminId, rows, -, -, hrows, row, hrow, -⟩
  rw [hunlogged.before e he, hunlogged.world] at hrows
  rw [List.self_eq_append_right.mp hrows] at hrow
  cases hrow

/-! ## An admin creates a certificate -/

def noContent : World ContentTables where
  connections := Table.empty
  runners := 0
  active := []
  data :=
    { now := 0, purchases := [], attempts := [], sessions := Table.empty, exams := []
      rest := ⟨⟨0, Table.empty, Table.empty, Table.empty, [], Table.empty⟩, []⟩ }

def psmDto : Content.CreateCertificateDto where
  title := "Scrum"
  programCode := "PSM"
  price := 100
  currency := .undefined
  description := .undefined
  thumbnailUrl := .undefined
  active := .undefined
  translations := .undefined

def createRequest : ContentRlsTask :=
  .request ⟨none, none, some ⟨none, some "admin"⟩⟩ (contentHandler (.create psmDto))

theorem createRequest_admin : AdminWrite "admin" createRequest :=
  ⟨_, _, .create psmDto, rfl, trivial, rfl, rfl⟩

/-- The runner is on connection 0, and the catalog writes on connection 1. -/
def creates : List (Label ContentRlsTask (Choice String) Nat) :=
  List.replicate 4 (.run 0 ⟨0, .done, ""⟩) ++ List.replicate 2 (.run 0 ⟨1, .done, "psm"⟩) ++
    List.replicate 3 (.run 0 ⟨0, .done, ""⟩)

theorem exists_created : ∃ c : ContentPool, Reach contentRlsSystem Initial adminWrites c ∧
    c.reply? 0 ≠ none ∧ c.world.data.rest.auditLogs = [] ∧ ∃ e ∈ c.log, Changes e "psm" := by
  have hspawn : Reach contentRlsSystem Initial adminWrites
      (Config.start contentRlsSystem [createRequest] noContent (.initial noContent)) := by
    refine .step (.init ⟨rfl, rfl, rfl⟩) (fun t ht => ?_) (.spawn (t := createRequest) rfl)
    cases ht
    exact ⟨"admin", createRequest_admin⟩
  have hrun : ∃ c, runIf contentRlsSystem noSpawn creates
      (Config.start contentRlsSystem [createRequest] noContent (.initial noContent)) = some c ∧
      (c.reply? 0).isSome = true ∧ c.world.data.rest.auditLogs = [] ∧
      ∃ e, c.log[5]? = some e ∧
        (e.before.data.rest.content.certificates.get "psm").isSome = false ∧
        (e.after.data.rest.content.certificates.get "psm").isSome = true :=
    ⟨_, rfl, rfl, rfl, _, rfl, rfl, rfl⟩
  obtain ⟨c, hc, hreply, hlogs, e, he, hbefore, hafter⟩ := hrun
  have hsteps : Steps contentRlsSystem adminWrites _ c :=
    (runIf_steps hc).mono fun _ _ h t ht => absurd ht (h t)
  refine ⟨c, hspawn.steps hsteps, fun hnone => ?_, hlogs, e, List.mem_of_getElem? he, fun hsame => ?_⟩
  · rw [hnone] at hreply
    cases hreply
  · rw [hsame, hbefore] at hafter
    cases hafter

theorem never_audited_create : ∃ c : ContentPool, Reach contentRlsSystem Initial adminWrites c ∧
    c.reply? 0 ≠ none ∧ ∃ e ∈ c.log, ¬Audited c e "psm" := by
  obtain ⟨c, hc, hreply, -, e, he, hchanges⟩ := exists_created
  exact ⟨c, hc, hreply, e, he, never_audited hc e he "psm" hchanges⟩

/-- The certificate is there and the log is empty. -/
theorem create_not_audited : ∃ c : ContentPool, Reach contentRlsSystem Initial adminWrites c ∧
    ∃ e ∈ c.log, Changes e "psm" ∧ ¬Audited c e "psm" := by
  obtain ⟨c, hc, -, hlogs, e, he, hchanges⟩ := exists_created
  refine ⟨c, hc, e, he, hchanges, ?_⟩
  rintro ⟨t, adminId, rows, -, -, hrows, row, hrow, -⟩
  rw [hlogs] at hrows
  rw [(List.append_eq_nil_iff.mp hrows.symm).2] at hrow
  cases hrow

end LmsBackend.Rls
