import LmsBackend.Rls.Steps

/-!
# The runners of a process

A process opens runners and is done with each of them before it ends. One that it
releases has its transaction over, or its ROLLBACK has failed. A monitor keeps
this, for every program that a request or a job can be.
-/

open Async Store

namespace LmsBackend.Rls

open Exams (AttemptStatus ExamAttempt TestSession)

variable {D H : Type} {R : H → Type} {E X V A α : Type}

/-! ## Calls that wait for a connection -/

/-- The call needs a connection of the pool, and is not the first of an intercepted request. -/
def Call.acquires : Call H → Bool
  | .connect (.attemptedExams _) | .connect (.scoring _) | .repository _ => true
  | _ => false

def HandlerCall.acquires : HandlerCall H → Bool
  | .repository _ | .getAttemptedExamIds _ _ | .scoreAndPersist _ _ _ _ => true
  | _ => false

/-- Next to the runner of its request the handler takes no connection. -/
def Quiet (next : Handler H R E α) : Prop :=
  (Contract.only fun c => c.acquires = false).Meets next fun _ => True

/-! ## Phases -/

structure Phase where
  /-- The user, if the request gets a runner. -/
  user : Option AuthenticatedUser
  /-- The process takes other connections as well. -/
  busy : Prop
  /-- The runner of the request, from its `connect` on. -/
  runner : Option QueryRunner
  /-- The runners that the process has not done with. -/
  opened : List QueryRunner
  /-- The one whose transaction is over, or whose ROLLBACK has failed. It is released next. -/
  settled : Option QueryRunner

namespace Phase

structure Allows (g : Phase) (c : Call H) : Prop where
  runner : ∀ r, c.runner? = some r → r ∈ g.opened
  start : ∀ r, c = .startTransaction r → g.settled = none
  release : ∀ r, c = .release r → g.settled = some r
  proper : c.Proper
  request : ∀ user, c = .connect (.request user) → g.runner = none ∧ g.user = some user
  busy : c.acquires = true → g.busy

def opens (g : Phase) (r : QueryRunner) : Phase :=
  match r.purpose with
  | .request _ => { g with runner := some r, opened := r :: g.opened }
  | _ => { g with opened := r :: g.opened }

def settles (g : Phase) (r : QueryRunner) : Phase := { g with settled := some r }

def closes (g : Phase) (r : QueryRunner) : Phase :=
  { g with opened := g.opened.erase r, settled := none }

def after (g : Phase) : (c : Call H) → Resp R c → Phase
  | .connect _, r => g.opens r.val
  | .commitTransaction r, _ | .rollbackTransaction r, _ => g.settles r
  | .isTransactionActive r, isTransactionActive => if isTransactionActive then g else g.settles r
  | .isReleased r, isReleased => if isReleased then g.closes r else g
  | .release r, _ => g.closes r
  | _, _ => g

/-- A runner whose transaction has not started is never used again. -/
def failed (g : Phase) : Call H → Phase
  | .startTransaction r | .isReleased r | .release r => g.closes r
  | .rollbackTransaction r | .isTransactionActive r => g.settles r
  | _ => g

@[simp] theorem opens_opened (g : Phase) (r : QueryRunner) : (g.opens r).opened = r :: g.opened := by
  unfold opens
  split <;> rfl

@[simp] theorem opens_user (g : Phase) (r : QueryRunner) : (g.opens r).user = g.user := by
  unfold opens
  split <;> rfl

@[simp] theorem opens_busy (g : Phase) (r : QueryRunner) : (g.opens r).busy = g.busy := by
  unfold opens
  split <;> rfl

@[simp] theorem opens_settled (g : Phase) (r : QueryRunner) : (g.opens r).settled = g.settled := by
  unfold opens
  split <;> rfl

@[simp] theorem closes_opens (g : Phase) (r : QueryRunner) :
    ((g.opens r).closes r).opened = g.opened := by
  simp [closes]

/-- The runners of `ExamService` leave nothing behind. -/
theorem closes_opens_eq {g : Phase} {r : QueryRunner} (hg : g.settled = none)
    (hr : ∀ user, r.purpose ≠ .request user) : (g.opens r).closes r = g := by
  unfold opens
  split
  · exact absurd ‹_› (hr _)
  · rcases g with ⟨user, busy, runner, opened, settled⟩
    obtain rfl : settled = none := hg
    simp [closes]

end Phase

def Task.phase (t : Task H R E A) : Phase := ⟨t.user?, t.user? = none ∨ ¬Quiet t.handler, none, [], none⟩

open scoped Classical in
noncomputable def runnerMonitor : Monitor (Call H) (Resp R) E A (Task H R E A) Phase where
  start := Task.phase
  next g c a := if g.Allows c then some (g.after c a) else none
  failed := Phase.failed
  final _ g := g.opened = []

/-! ## The programs keep to it -/

/-- However the program ends, it takes the phase into `J`. -/
def Leads (A : Type) (p : Promise H R E α) (g : Phase) (J : Phase → Prop) : Prop :=
  (runnerMonitor : Monitor (Call H) (Resp R) E A (Task H R E A) Phase).wp p g (fun _ => J)
    fun _ => J

section

variable {β : Type} {g m : Phase} {J J' : Phase → Prop} {p : Promise H R E α}

theorem Leads.mono (h : Leads A p g J) (hJ : ∀ g, J g → J' g) : Leads A p g J' :=
  Monitor.wp_mono _ h (fun _ => hJ) fun _ => hJ

theorem Leads.await {c : Call H} (hc : g.Allows c) (hok : ∀ a : Resp R c, J (g.after c a))
    (hfailed : J (g.failed c)) : Leads (E := E) A (await (R := R) c) g J :=
  (Monitor.wp_await _ c).mpr ⟨fun a => ⟨_, if_pos hc, hok a⟩, fun _ => hfailed⟩

/-- A call of a runner or a repository that opens nothing and ends nothing. -/
theorem Leads.same {c : Call H} (hc : g.Allows c) (hok : ∀ a : Resp R c, g.after c a = g)
    (hfailed : g.failed c = g) : Leads (E := E) A (Rls.await (R := R) c) g (· = g) :=
  .await hc hok hfailed

theorem Leads.bind {q : α → Promise H R E β} (hp : Leads A p g (· = m))
    (hq : ∀ a, Leads A (q a) m J) (herror : J m) : Leads A (p.bind q) g J := by
  refine (Monitor.wp_bind _ q).mpr (Monitor.wp_mono _ hp ?_ ?_)
  · rintro a _ rfl
    exact hq a
  · rintro e _ rfl
    exact herror

theorem Leads.handle {h : E → Promise H R E α} (hp : Leads A p g (· = m))
    (hh : ∀ e, Leads A (h e) m J) (hvalue : J m) : Leads A (p.handle h) g J := by
  refine (Monitor.wp_handle _ h).mpr (Monitor.wp_mono _ hp ?_ ?_)
  · rintro a _ rfl
    exact hvalue
  · rintro e _ rfl
    exact hh e

theorem Leads.ensure {q : Promise H R E Unit} (hp : Leads A p g (· = m))
    (hq : Leads A q m J) : Leads A (p.ensure q) g J := by
  refine (Monitor.wp_ensure _ q).mpr (Monitor.wp_mono _ hp ?_ ?_)
  · rintro a _ rfl
    exact hq
  · rintro e _ rfl
    exact hq

end

section

variable {g : Phase} {r : QueryRunner}

/-- A call of an open runner that has nothing else to keep to. -/
theorem allows_of_mem {c : Call H} (hc : c.runner? = some r) (hr : r ∈ g.opened)
    (hproper : c.Proper) (hstart : c = .startTransaction r → g.settled = none)
    (hrelease : c = .release r → g.settled = some r) : g.Allows c where
  runner r' hr' := by
    cases hc.symm.trans hr'
    exact hr
  start r' h := by
    subst h
    cases hc
    exact hstart rfl
  release r' h := by
    subst h
    cases hc
    exact hrelease rfl
  proper := hproper
  request user h := by
    subst h
    cases hc
  busy h := by
    cases c <;> cases hc <;> cases h

/-- A call that is of no runner. -/
theorem allows_of_none {c : Call H} (hc : c.runner? = none)
    (hrequest : ∀ user, c = .connect (.request user) → g.runner = none ∧ g.user = some user)
    (hbusy : c.acquires = true → g.busy) : g.Allows c where
  runner r hr := nomatch hc.symm.trans hr
  start r h := by
    subst h
    cases hc
  release r h := by
    subst h
    cases hc
  proper := by
    cases c <;> trivial
  request := hrequest
  busy := hbusy

/-- `finally`: the runner is done with. -/
theorem release_leads (hr : r ∈ g.opened) (hsettled : g.settled = some r) :
    Leads (R := R) (E := E) A (do
      let isReleased ← await (.isReleased r)
      if !isReleased then await (.release r) : Promise H R E Unit) g (· = g.closes r) := by
  have hisReleased : g.Allows (.isReleased r : Call H) := allows_of_mem rfl hr trivial nofun nofun
  refine (Monitor.wp_bind _ _).mpr ((Monitor.wp_await _ _).mpr
    ⟨fun isReleased => ⟨_, if_pos hisReleased, ?_⟩, fun _ => rfl⟩)
  cases isReleased with
  | false =>
    exact Leads.await (allows_of_mem rfl hr trivial nofun fun _ => hsettled) (fun _ => rfl) rfl
  | true => rfl

/-- `catch`: the error goes on, and the transaction is settled, whatever the ROLLBACK does. -/
theorem rollback_leads (hr : r ∈ g.opened) (err : E) :
    Leads (R := R) (E := E) A (do
      let isTransactionActive ← await (.isTransactionActive r)
      if isTransactionActive then await (.rollbackTransaction r)
      throw err : Promise H R E α) g (· = g.settles r) := by
  have hisActive : g.Allows (.isTransactionActive r : Call H) :=
    allows_of_mem rfl hr trivial nofun nofun
  refine (Monitor.wp_bind _ _).mpr ((Monitor.wp_await _ _).mpr
    ⟨fun isTransactionActive => ⟨_, if_pos hisActive, ?_⟩, fun _ => rfl⟩)
  cases isTransactionActive with
  | false => rfl
  | true =>
    exact Leads.bind (Leads.await (allows_of_mem rfl hr trivial nofun nofun) (fun _ => rfl) rfl)
      (fun _ => rfl) rfl

/-- With the body done, COMMIT settles the transaction, or `catch` does. -/
theorem commit_leads {body : Promise H R E α} (hr : r ∈ g.opened) (hbody : Leads A body g (· = g)) :
    Leads A (Prog.handle (do
      let result ← body
      await (.commitTransaction r)
      pure result) fun err => do
        let isTransactionActive ← await (.isTransactionActive r)
        if isTransactionActive then await (.rollbackTransaction r)
        throw err) g (· = g.settles r) := by
  refine (Monitor.wp_handle _ _).mpr ((Monitor.wp_bind _ _).mpr (Monitor.wp_mono _ hbody ?_ ?_))
  · rintro result g rfl
    have hcommit : g.Allows (.commitTransaction r : Call H) :=
      allows_of_mem rfl hr trivial nofun nofun
    exact (Monitor.wp_bind _ _).mpr ((Monitor.wp_await _ _).mpr
      ⟨fun _ => ⟨_, if_pos hcommit, rfl⟩, fun err => rollback_leads hr err⟩)
  · rintro err _ rfl
    exact rollback_leads hr err

/-- When a transaction is over, its runner is closed. Without a connection there is none. -/
theorem inTransaction_leads {purpose : Purpose} {body : QueryRunner → Promise H R E α}
    (hg : g.settled = none) (hconnect : g.Allows (.connect purpose : Call H))
    (hbody : ∀ r : QueryRunner, r.purpose = purpose → Leads A (body r) (g.opens r) (· = g.opens r)) :
    Leads A (inTransaction purpose body) g fun g' =>
      g' = g ∨ ∃ r : QueryRunner, r.purpose = purpose ∧ g' = (g.opens r).closes r := by
  refine (Monitor.wp_bind _ _).mpr ((Monitor.wp_await _ _).mpr
    ⟨fun runner => ⟨_, if_pos hconnect, ?_⟩, fun _ => .inl rfl⟩)
  obtain ⟨r, hr⟩ := runner
  have hmem : r ∈ (g.opens r).opened := by simp
  have hstart : (g.opens r).Allows (.startTransaction r : Call H) :=
    allows_of_mem rfl hmem trivial (fun _ => by simp [hg]) nofun
  have hclosed : ∀ g', g' = (g.opens r).closes r →
      g' = g ∨ ∃ r : QueryRunner, r.purpose = purpose ∧ g' = (g.opens r).closes r :=
    fun g' hg' => .inr ⟨r, hr, hg'⟩
  refine (Monitor.wp_bind _ _).mpr ((Monitor.wp_await _ _).mpr
    ⟨fun _ => ⟨_, if_pos hstart, ?_⟩, fun _ => hclosed _ rfl⟩)
  have hrelease : ((g.opens r).settles r).closes r = (g.opens r).closes r := rfl
  refine ((commit_leads hmem (hbody r hr)).ensure (release_leads (r := r) ?_ rfl)).mono ?_
  · exact hmem
  · rw [hrelease]
    exact hclosed

/-- Where the process takes connections, a runner of `ExamService` leaves the phase as it was. -/
theorem dedicated_leads {purpose : Purpose} {body : QueryRunner → Promise H R E α}
    (hg : g.settled = none) (hbusy : g.busy) (hpurpose : ∀ user, purpose ≠ .request user)
    (hbody : ∀ r : QueryRunner, r.purpose = purpose → Leads A (body r) (g.opens r) (· = g.opens r)) :
    Leads A (inTransaction purpose body) g (· = g) := by
  have hconnect : g.Allows (.connect purpose : Call H) :=
    allows_of_none rfl (fun user h => absurd (Call.connect.inj h) (hpurpose user)) fun _ => hbusy
  refine (inTransaction_leads hg hconnect hbody).mono ?_
  rintro g' (rfl | ⟨r, rfl, rfl⟩)
  · rfl
  · exact Phase.closes_opens_eq hg hpurpose

theorem setCurrentUser_leads {userId : Id} (hr : r ∈ g.opened)
    (hstudent : r.purpose.student? = some userId) :
    Leads (H := H) (R := R) (E := E) A (await (.setConfig r currentUserId userId)) g (· = g) :=
  Leads.same (allows_of_mem rfl hr (fun _ => hstudent) nofun nofun) (fun _ => rfl) rfl

theorem query_leads {s : Statement H} (hr : r ∈ g.opened) :
    Leads (R := R) (E := E) A (await (.query r s)) g (· = g) :=
  Leads.same (allows_of_mem rfl hr trivial nofun nofun) (fun _ => rfl) rfl

theorem repository_leads {s : Statement H} (hbusy : g.busy) :
    Leads (R := R) (E := E) A (await (.repository s)) g (· = g) :=
  Leads.same (allows_of_none rfl nofun fun _ => hbusy) (fun _ => rfl) rfl

theorem getAttemptedExamIds_leads (hg : g.settled = none) (hbusy : g.busy) (userId certId : Id) :
    Leads (H := H) (R := R) (E := E) A (getAttemptedExamIds userId certId) g (· = g) := by
  refine dedicated_leads hg hbusy nofun fun r hr => ?_
  have hmem : r ∈ (g.opens r).opened := by simp
  refine (setCurrentUser_leads hmem (by rw [hr]; rfl)).bind (fun _ => ?_) rfl
  exact (query_leads hmem).bind (fun _ => rfl) rfl

theorem persist_leads (B : Backend D H R E X V) (session : TestSession) (answers : Answers)
    (attempt : ExamAttempt) (hr : r ∈ g.opened)
    (hpurpose : r.purpose = .scoring session.userId) :
    Leads A (persist B session answers attempt r) g (· = g) := by
  refine (setCurrentUser_leads hr (by rw [hpurpose]; rfl)).bind (fun _ => ?_) rfl
  refine (query_leads hr).bind (fun affected => ?_) rfl
  split
  · rfl
  · exact (query_leads hr).bind (fun _ => rfl) rfl

theorem scoreAndPersist_leads (B : Backend D H R E X V) (hg : g.settled = none) (hbusy : g.busy)
    (session : TestSession)
    (answers : Answers) (status : AttemptStatus) (lateFlag : Bool) :
    Leads A (scoreAndPersist B session answers status lateFlag) g (· = g) := by
  refine (repository_leads hbusy).bind (fun exam? => ?_) rfl
  refine Leads.bind (m := g) (Leads.same (allows_of_none rfl nofun nofun) (fun _ => rfl) rfl)
    (fun submittedAt => ?_) rfl
  refine Leads.bind (m := g) (dedicated_leads hg hbusy nofun fun r hr => ?_) (fun _ => ?_) rfl
  · exact persist_leads B session answers _ (by simp) hr
  · exact Leads.bind (Leads.same (allows_of_none rfl nofun nofun) (fun _ => rfl) rfl)
      (fun _ => rfl) rfl

/-! ## Handlers and tasks -/

theorem handlerCall_leads (B : Backend D H R E X V) {rlsRunner : Option QueryRunner}
    (hg : g.settled = none) (hrunner : ∀ r, rlsRunner = some r → r ∈ g.opened) (hnone : rlsRunner = none → g.busy)
    {c : HandlerCall H} (hc : c.acquires = true → g.busy) :
    Leads A (c.prog B rlsRunner) g (· = g) := by
  cases c with
  | rls s =>
    cases rlsRunner with
    | none => exact repository_leads (hnone rfl)
    | some r => exact query_leads (hrunner r rfl)
  | repository s => exact repository_leads (hc rfl)
  | getAttemptedExamIds userId certId => exact getAttemptedExamIds_leads hg (hc rfl) userId certId
  | scoreAndPersist session answers status lateFlag =>
    exact scoreAndPersist_leads B hg (hc rfl) session answers status lateFlag
  | outside h => exact Leads.same (allows_of_none rfl nofun nofun) (fun _ => rfl) rfl

theorem handle_leads (B : Backend D H R E X V) {rlsRunner : Option QueryRunner}
    (hg : g.settled = none) (hrunner : ∀ r, rlsRunner = some r → r ∈ g.opened) (hnone : rlsRunner = none → g.busy)
    {next : Handler H R E α} (hbusy : ¬Quiet next → g.busy) :
    Leads A (handle B rlsRunner next) g (· = g) := by
  have hnext : (Contract.only fun c => c.acquires = true → g.busy).Meets next fun _ => True := by
    by_cases hquiet : Quiet next
    · exact hquiet.weaken (fun c hc hacquires => absurd (hc.symm.trans hacquires) nofun)
        fun _ _ _ => trivial
    · exact Contract.meets_only fun _ _ => hbusy hquiet
  refine Monitor.wp_interpret _ (fun c g' hc hg' => ?_) hnext rfl
  subst hg'
  exact handlerCall_leads B hg hrunner hnone hc

theorem setId_leads {name : String} {id : Option Id} (hr : r ∈ g.opened)
    (hproper : name = currentUserId → r.purpose.student? = id) :
    Leads (H := H) (R := R) (E := E) A (setId r name id) g (· = g) := by
  cases id with
  | none => rfl
  | some id => exact Leads.same (allows_of_mem rfl hr hproper nofun nofun) (fun _ => rfl) rfl

theorem handleWithContext_leads (B : Backend D H R E X V) (ip : String) {user : AuthenticatedUser}
    {next : Handler H R E α} (hg : g.settled = none) (hr : r ∈ g.opened) (hpurpose : r.purpose = .request user)
    (hbusy : ¬Quiet next → g.busy) : Leads A (handleWithContext B ip user next r) g (· = g) := by
  have hadmin : currentAdminId ≠ currentUserId := by decide
  have hip : currentIp ≠ currentUserId := by decide
  refine (setId_leads hr fun _ => by rw [hpurpose]; rfl).bind (fun _ => ?_) rfl
  refine (setId_leads hr fun h => absurd h hadmin).bind (fun _ => ?_) rfl
  refine Leads.bind (m := g)
    (Leads.same (allows_of_mem rfl hr (fun h => absurd h hip) nofun nofun) (fun _ => rfl) rfl)
    (fun _ => ?_) rfl
  have hrunner : ∀ r', some r = some r' → r' ∈ g.opened := fun r' hr' => Option.some.inj hr' ▸ hr
  exact handle_leads B hg hrunner nofun hbusy

theorem runnerMonitor_sound (B : Backend D H R E X V) :
    (runnerMonitor : Monitor (Call H) (Resp R) E A (Task H R E A) Phase).Sound
      (rlsSystem B A) := by
  have hjob : ∀ t : Task H R E A, t.user? = none →
      Leads A (handle B none t.handler) t.phase fun g => g.opened = [] := by
    intro t ht
    have hrunner : ∀ r, (none : Option QueryRunner) = some r → r ∈ t.phase.opened := nofun
    refine (handle_leads B rfl hrunner (fun _ => .inl ht) .inr).mono ?_
    rintro g rfl
    rfl
  rintro (⟨req, next⟩ | body)
  · change Leads A (intercept B req next) (Task.request req next).phase fun g => g.opened = []
    unfold intercept
    split
    · exact hjob (.request req next) ‹_›
    · rename_i user huser
      have hconnect : (Task.request req next).phase.Allows (.connect (.request user) : Call H) := by
        refine allows_of_none rfl (fun user' h => ?_) nofun
        cases h
        exact ⟨rfl, huser⟩
      refine (inTransaction_leads rfl hconnect fun r hr => ?_).mono ?_
      · refine handleWithContext_leads B _ (by simp [Task.phase]) (by simp) hr fun h => ?_
        rw [Phase.opens_busy]
        exact .inr h
      · rintro g (rfl | ⟨r, -, rfl⟩)
        · rfl
        · rw [Phase.closes_opens]
          rfl
  · exact hjob (.job body) rfl

end

/-! ## Moves -/

section

variable {g g' : Phase} {call : Call H} {q : QueryRunner}

theorem Phase.failed_opened (hq : q ∈ (g.failed call).opened) : q ∈ g.opened := by
  cases call <;> first | exact hq | exact List.mem_of_mem_erase hq

theorem Phase.failed_user : (g.failed call).user = g.user := by
  cases call <;> rfl

/-- A runner that is new among the open ones comes from `connect`. -/
theorem Phase.after_opened {a : Resp R call} (hq : q ∈ (g.after call a).opened) :
    q ∈ g.opened ∨ call = .connect q.purpose := by
  cases call with
  | connect purpose =>
    obtain ⟨r, rfl⟩ := a
    rw [Phase.after, Phase.opens_opened] at hq
    rcases List.mem_cons.mp hq with rfl | hq
    · exact .inr rfl
    · exact .inl hq
  | isReleased r =>
    cases a with
    | false => exact .inl hq
    | true => exact .inl (List.mem_of_mem_erase hq)
  | isTransactionActive r => cases a <;> exact .inl hq
  | release r => exact .inl (List.mem_of_mem_erase hq)
  | _ => exact .inl hq

theorem Phase.after_user {a : Resp R call} : (g.after call a).user = g.user := by
  cases call with
  | connect purpose => exact g.opens_user a.val
  | isReleased r | isTransactionActive r => cases a <;> rfl
  | _ => rfl

theorem Phase.after_busy {a : Resp R call} : (g.after call a).busy = g.busy := by
  cases call with
  | connect purpose => exact g.opens_busy a.val
  | isReleased r | isTransactionActive r => cases a <;> rfl
  | _ => rfl

theorem advance_ok {a : Resp R call}
    (h : (runnerMonitor : Monitor (Call H) (Resp R) E A (Task H R E A) Phase).advance g call
      (.ok a) = some g') : g.Allows call ∧ g' = g.after call a := by
  by_cases hallows : g.Allows call
  · have hnext := h.symm.trans (if_pos hallows)
    exact ⟨hallows, Option.some.inj hnext⟩
  · cases h.symm.trans (if_neg hallows)

theorem advance_error {e : E}
    (h : (runnerMonitor : Monitor (Call H) (Resp R) E A (Task H R E A) Phase).advance g call
      (.error e) = some g') : g' = g.failed call :=
  (Option.some.inj h).symm

theorem busy_of_advance {res : Except E (Resp R call)}
    (h : (runnerMonitor : Monitor (Call H) (Resp R) E A (Task H R E A) Phase).advance g call res =
      some g') : g'.busy = g.busy := by
  cases res with
  | error e =>
    obtain rfl := advance_error h
    cases call <;> rfl
  | ok a =>
    obtain ⟨-, rfl⟩ := advance_ok h
    exact Phase.after_busy

theorem user_of_advance {res : Except E (Resp R call)}
    (h : (runnerMonitor : Monitor (Call H) (Resp R) E A (Task H R E A) Phase).advance g call res =
      some g') : g'.user = g.user := by
  cases res with
  | error e =>
    obtain rfl := advance_error h
    exact Phase.failed_user
  | ok a =>
    obtain ⟨-, rfl⟩ := advance_ok h
    exact Phase.after_user

end

abbrev RunnerMoved (B : Backend D H R E X V) :=
  Moved (runnerMonitor : Monitor (Call H) (Resp R) E A (Task H R E A) Phase) (rlsSystem B A)

noncomputable abbrev runnerPhase (c : Pool D H R E A) (i : Nat) : Option Phase :=
  (runnerMonitor : Monitor (Call H) (Resp R) E A (Task H R E A) Phase).phase c i

section

variable {B : Backend D H R E X V} {c c' : Pool D H R E A} {i : Nat} {call : Call H}
  {r : Except E (Resp R call)} {g g' : Phase}

theorem change_of_moved (hm : RunnerMoved B c c' i call r g g') :
    Change c.world c'.world call := by
  cases hm.answers with
  | exec h => exact exec_change h
  | reject h =>
    rw [rlsSystem_reject] at h
    rw [reject_eq h]
    exact rejected_change c.world call

/-- The phase allows a call that has some answer. -/
theorem allows_of_answer (hm : RunnerMoved B c c' i call r g g') (a : Resp R call) :
    g.Allows call := by
  obtain ⟨m, h⟩ := hm.allowed a
  exact (advance_ok h).1

theorem proper_of_moved (hm : RunnerMoved B c c' i call r g g') : call.Proper := by
  cases call with
  | setConfig r name value => exact (allows_of_answer hm ()).proper
  | _ => trivial

variable [∀ h, Inhabited (R h)]

theorem nonempty_resp (c : Call H) : Nonempty (Resp R c) := by
  have hstatement : ∀ s : Statement H, Nonempty (s.Resp R) := fun s => by
    cases s with
    | select | insert | update | delete => exact ⟨[]⟩
    | findExam => exact ⟨none⟩
    | updateTestSession => exact ⟨0⟩
    | other h => exact ⟨default⟩
  cases c with
  | connect purpose => exact ⟨⟨⟨0, 0, purpose⟩, 0⟩, rfl⟩
  | query r s => exact hstatement s
  | repository s => exact hstatement s
  | isTransactionActive | isReleased => exact ⟨true⟩
  | now => exact ⟨0⟩
  | outside h => exact ⟨default⟩
  | _ => exact ⟨()⟩

/-- The phase allows the call that a process waits for. -/
theorem allows_of_waits (h : Reach (rlsSystem B A) Initial anyStep c)
    (hg : runnerPhase c i = some g) (hnext : c.next? i = some call) : g.Allows call := by
  obtain ⟨p, hp, hcall⟩ := Option.bind_eq_some_iff.mp hnext
  obtain ⟨g₀, hg₀, hkeeps⟩ := h.conforms (runnerMonitor_sound B) i p hp
  cases hg₀.symm.trans hg
  cases hprog : p.prog with
  | ret a =>
    rw [hprog] at hcall
    cases hcall
  | throw e =>
    rw [hprog] at hcall
    cases hcall
  | call call' k =>
    rw [hprog] at hcall hkeeps
    cases hcall
    obtain ⟨a⟩ := nonempty_resp (R := R) call
    obtain ⟨m, hm, -⟩ := hkeeps (.ok a)
    exact (advance_ok hm).1

theorem allows_of_moved (hm : RunnerMoved B c c' i call r g g') : g.Allows call := by
  obtain ⟨a⟩ := nonempty_resp (R := R) call
  exact allows_of_answer hm a

end

end LmsBackend.Rls
