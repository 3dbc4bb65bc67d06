import LmsBackend.Rls.Audit
import LmsBackend.Rls.Release
import Mathlib.Data.Finset.Card
import Mathlib.Data.Finset.Image

/-!
# The pool can deadlock

A request holds the connection of its runner while its handler waits for
another. Ten of them hold them all, and none can go on before its wait times out.
-/

open Async Store

namespace LmsBackend.Rls

variable {D H : Type} {R : H → Type} {E X V A α : Type}

/-- Every connection is held by the runner of a request whose handler waits for another. -/
structure Deadlocked (c : Pool D H R E A) : Prop where
  full : c.world.connections.rows.length = maxConnections
  waits : ∀ k ∈ c.world.connections.rows, ∃ l user call, k.lease? = some l ∧
    l.purpose = .request user ∧ c.next? l.proc = some call ∧ call.acquires = true

/-- No call that needs a connection can be carried out: it waits until it times out. -/
theorem Deadlocked.stuck {c : Pool D H R E A} (hc : Deadlocked c) (B : Backend D H R E X V)
    {call : Call H} (hcall : call.acquires = true) (i : Nat) (x : Choice X) :
    exec B i call x c.world = none := by
  have htake : c.world.connections.take maxConnections x.slot = none := by
    refine Connections.take_full hc.full.ge fun k hk hlease => ?_
    obtain ⟨l, user, call, hl, -⟩ := hc.waits k hk
    cases hlease.symm.trans hl
  cases call with
  | connect purpose => exact Option.map_eq_none_iff.mpr htake
  | repository s => exact Option.bind_eq_none_iff.mpr fun k hk => nomatch htake.symm.trans hk
  | _ => cases hcall

/-! ## How many requests compete -/

/-- The task is a request with a runner, and its handler takes connections as well. -/
def Task.Greedy (t : Task H R E A) : Prop := t.user? ≠ none ∧ ¬Quiet t.handler

/-- Process `i` is such a request and has not come to its end. -/
def Competes (c : Pool D H R E A) (i : Nat) : Prop :=
  (∃ t, c.task? i = some t ∧ t.Greedy) ∧ finished c i = false

/-- A guard: no such request begins while nine others are under way. -/
def fewRequests : Guard (World D) (Call H) (Resp R) E A (Task H R E A) (Choice X) V :=
  fun c l => ∀ t, l = .spawn t → t.Greedy →
    ∀ s : Finset Nat, (∀ i ∈ s, Competes c i) → s.card + 1 < maxConnections

/-! ## One connection for a request -/

/-- The runner that a request is known by stays the same: it connects only once. -/
theorem runner_of_advance {g g' : Phase} {call : Call H} {res : Except E (Resp R call)}
    {r : QueryRunner}
    (h : (runnerMonitor : Monitor (Call H) (Resp R) E A (Task H R E A) Phase).advance g call res =
      some g') (hr : g.runner = some r) : g'.runner = some r := by
  cases res with
  | error e =>
    obtain rfl := advance_error h
    cases call <;> exact hr
  | ok a =>
    obtain ⟨hallows, rfl⟩ := advance_ok h
    cases call with
    | connect purpose =>
      obtain ⟨q, rfl⟩ := a
      simp only [Phase.after, Phase.opens]
      split
      · rename_i user hpurpose
        have hnone := (hallows.request user (by rw [hpurpose])).1
        cases hnone.symm.trans hr
      · exact hr
    | isReleased q | isTransactionActive q => cases a <;> exact hr
    | _ => exact hr

/-- A connection that is held for a request is that of the one runner of its process. -/
def Requested (c : Pool D H R E A) : Prop :=
  ∀ r, c.world.Holds r → ∀ user, r.purpose = .request user →
    ∃ g, runnerPhase c r.proc = some g ∧ g.runner = some r ∧ g.user = some user

section

variable {B : Backend D H R E X V} {c c' : Pool D H R E A}

theorem Requested.start (hc : Requested c) (ts : List (Task H R E A)) {w : World D}
    (hw : w.connections = c.world.connections) :
    Requested (c.start (rlsSystem B A) ts w) := by
  intro r hr user hpurpose
  rw [Config.start_world, World.Holds, hw] at hr
  obtain ⟨g, hg, hrunner⟩ := hc r hr user hpurpose
  exact ⟨g, (Monitor.phase_start_of_lt (Monitor.lt_of_phase hg)).trans hg, hrunner⟩

theorem Requested.move (hc : Requested c) {i : Nat} {call : Call H} {res : Except E (Resp R call)}
    {g g' : Phase} (hm : RunnerMoved B c c' i call res g g') : Requested c' := by
  intro r hr user hpurpose
  by_cases hold : c.world.Holds r
  · obtain ⟨g₀, hg₀, hrunner, huser⟩ := hc r hold user hpurpose
    by_cases hproc : r.proc = i
    · subst hproc
      cases hg₀.symm.trans hm.before
      exact ⟨g', hm.after, runner_of_advance hm.next hrunner, (user_of_advance hm.next).trans huser⟩
    · exact ⟨g₀, (hm.other _ hproc).trans hg₀, hrunner, huser⟩
  · rcases (change_of_moved hm).holds_of hr with h | ⟨-, purpose, rfl⟩
    · exact absurd h hold
    · cases hm.answers with
      | exec h =>
        rw [rlsSystem_exec] at h
        obtain ⟨rfl, rfl⟩ := exec_lent h hr hold
        obtain ⟨hallows, rfl⟩ := advance_ok hm.next
        have hproc := (exec_connect h).2.1
        simp only at hproc
        subst hproc
        refine ⟨_, hm.after, ?_, ?_⟩
        · simp [Phase.after, Phase.opens, hpurpose]
        · rw [Phase.after_user]
          exact (hallows.request user (by rw [hpurpose])).2
      | reject h =>
        rw [rlsSystem_reject] at h
        rw [reject_eq h] at hr
        exact absurd hr hold

theorem requested (h : Reach (rlsSystem B A) Initial anyStep c) : Requested c := by
  refine Reach.invariant (runnerMonitor_sound B) ?_ ?_ ?_ ?_ h
  · intro w hw r hr
    rw [Config.initial, World.Holds, hw.connections] at hr
    cases hr
  · intro c t _ hc _ _
    exact hc.start [t] rfl
  · intro c v w ts _ hc _ hv
    cases hv
    exact hc.start [] rfl
  · intro c c' i call res g g' _ hc _ hm
    exact hc.move hm

/-! ## Fewer than ten requests -/

theorem finished_of_next {i : Nat} {call : Call H} (h : c.next? i = some call) :
    finished c i = false := by
  obtain ⟨p, hp, hcall⟩ := Option.bind_eq_some_iff.mp h
  simp [finished, Config.prog?, hp, hcall]

section

variable [∀ h, Inhabited (R h)]

/-- A request that holds a connection and waits for another competes. -/
theorem competes_of_waits (h : Reach (rlsSystem B A) Initial anyStep c) {r : QueryRunner}
    (hr : c.world.Holds r) {user : AuthenticatedUser} (hpurpose : r.purpose = .request user)
    {call : Call H} (hnext : c.next? r.proc = some call) (hcall : call.acquires = true) :
    Competes c r.proc := by
  obtain ⟨g, hg, -, huser⟩ := requested h r hr user hpurpose
  obtain ⟨t, ht⟩ := Monitor.task_of_phase hg
  obtain ⟨huser', hbusy⟩ := Monitor.phase_always ht hg
    (p := fun g => g.user = t.user? ∧ g.busy = t.phase.busy) ⟨rfl, rfl⟩
    fun g call res g' ⟨huser, hbusy⟩ hnext =>
      ⟨(user_of_advance hnext).trans huser, (busy_of_advance hnext).trans hbusy⟩
  have hsome : t.user? = some user := huser'.symm.trans huser
  have hgbusy : g.busy := (allows_of_waits h hg hnext).busy hcall
  rw [hbusy] at hgbusy
  refine ⟨⟨t, ht, by simp [hsome], ?_⟩, finished_of_next hnext⟩
  exact hgbusy.resolve_left (by simp [hsome])

/-- In a deadlock ten requests compete, one for each connection. -/
theorem Deadlocked.crowd (hc : Deadlocked c) (h : Reach (rlsSystem B A) Initial anyStep c) :
    ∃ s : Finset Nat, s.card = maxConnections ∧ ∀ i ∈ s, Competes c i := by
  let proc (k : Connection Lease) : Nat := (k.lease?.map (·.proc)).getD 0
  have hproc : ∀ {k : Connection Lease} {l : Lease}, k.lease? = some l → proc k = l.proc :=
    fun hl => by simp [proc, hl]
  have hholds : ∀ k ∈ c.world.connections.rows, ∀ l, k.lease? = some l →
      c.world.Holds ⟨l, k.slot⟩ := fun k hk l hl => Connections.holds_iff.mpr ⟨k, hk, rfl, hl⟩
  have hinj : ∀ k ∈ c.world.connections.rows, ∀ k' ∈ c.world.connections.rows,
      proc k = proc k' → k = k' := by
    intro k hk k' hk' heq
    obtain ⟨l, user, -, hl, hpurpose, -⟩ := hc.waits k hk
    obtain ⟨l', user', -, hl', hpurpose', -⟩ := hc.waits k' hk'
    obtain ⟨g, hg, hrunner, -⟩ := requested h _ (hholds k hk l hl) user hpurpose
    obtain ⟨g', hg', hrunner', -⟩ := requested h _ (hholds k' hk' l' hl') user' hpurpose'
    simp only at hg hg'
    rw [hproc hl, hproc hl'] at heq
    rw [heq] at hg
    cases hg.symm.trans hg'
    have hsame := hrunner.symm.trans hrunner'
    have hslot : k.slot = k'.slot := congrArg (fun r => (r.map QueryRunner.slot).getD 0) hsame
    have hget := Table.mem_rows_iff.mp hk
    have hget' := Table.mem_rows_iff.mp hk'
    rw [Connection.keyed] at hget hget'
    rw [hslot, hget'] at hget
    exact (Option.some.inj hget).symm
  have hnodup : (c.world.connections.rows.map proc).Nodup :=
    (List.Nodup.of_map _ c.world.connections.nodup).map_on hinj
  refine ⟨(c.world.connections.rows.map proc).toFinset, ?_, fun i hi => ?_⟩
  · rw [List.toFinset_card_of_nodup hnodup, List.length_map, hc.full]
  · obtain ⟨k, hk, rfl⟩ := List.mem_map.mp (List.mem_toFinset.mp hi)
    obtain ⟨l, user, call, hl, hpurpose, hnext, hcall⟩ := hc.waits k hk
    rw [hproc hl]
    exact competes_of_waits h (hholds k hk l hl) hpurpose hnext hcall

end

/-- Who competes after a call has done so before. -/
theorem competes_of_moved {i : Nat} {call : Call H} {res : Except E (Resp R call)} {g g' : Phase}
    (hm : RunnerMoved B c c' i call res g g') {j : Nat} (hj : Competes c' j) : Competes c j := by
  obtain ⟨⟨t, ht, hgreedy⟩, hfinished⟩ := hj
  refine ⟨⟨t, (hm.task j).symm.trans ht, hgreedy⟩, ?_⟩
  by_cases hji : j = i
  · subst hji
    exact finished_of_next hm.waits
  · rw [finished, hm.prog j hji] at hfinished
    exact hfinished

theorem task_of_start {ts : List (Task H R E A)} {w : World D} {j : Nat} {t : Task H R E A}
    (ht : (c.start (rlsSystem B A) ts w).task? j = some t) :
    (c.task? j = some t ∧ (c.start (rlsSystem B A) ts w).prog? j = c.prog? j) ∨
      c.procs.length ≤ j ∧ t ∈ ts := by
  obtain ⟨p, hp, rfl⟩ := Option.map_eq_some_iff.mp ht
  rcases c.start_procs_cases _ hp with hold | ⟨hj, t, hmem, rfl⟩
  · refine .inl ⟨by rw [Config.task?, hold, Option.map_some], ?_⟩
    rw [Config.prog?, Config.prog?, hp, hold]
  · exact .inr ⟨hj, hmem⟩

/-- Who competes after the start of a task competed before, or is the new process. -/
theorem competes_of_start {ts : List (Task H R E A)} {w : World D} {j : Nat}
    (hj : Competes (c.start (rlsSystem B A) ts w) j) :
    Competes c j ∨ c.procs.length ≤ j ∧ j < c.procs.length + ts.length ∧ ∃ t ∈ ts, t.Greedy := by
  obtain ⟨⟨t, ht, hgreedy⟩, hfinished⟩ := hj
  rcases task_of_start ht with ⟨hold, hprog⟩ | ⟨hj, hmem⟩
  · rw [finished, hprog] at hfinished
    exact .inl ⟨⟨t, hold, hgreedy⟩, hfinished⟩
  · obtain ⟨p, hp, -⟩ := Option.map_eq_some_iff.mp ht
    have hlt := (List.getElem?_eq_some_iff.mp hp).1
    simp only [Config.start, List.length_append, List.length_map] at hlt
    exact .inr ⟨hj, hlt, t, hmem, hgreedy⟩

theorem few_compete (h : Reach (rlsSystem B A) Initial fewRequests c) :
    ∀ s : Finset Nat, (∀ i ∈ s, Competes c i) → s.card < maxConnections := by
  refine Reach.invariant (runnerMonitor_sound B)
    (I := fun c => ∀ s : Finset Nat, (∀ i ∈ s, Competes c i) → s.card < maxConnections)
    ?_ ?_ ?_ ?_ h
  · intro w _ s hs
    have hempty : s = ∅ := Finset.eq_empty_of_forall_notMem fun i hi => by
      obtain ⟨⟨t, ht, -⟩, -⟩ := hs i hi
      cases ht
    rw [hempty]
    decide
  · intro c t _ hc hP _ s hs
    by_cases hgreedy : t.Greedy
    · have hrest : ∀ i ∈ s.erase c.procs.length, Competes c i := by
        intro i hi
        obtain ⟨hne, hi⟩ := Finset.mem_erase.mp hi
        rcases competes_of_start (hs i hi) with hi | ⟨hge, hlt, -⟩
        · exact hi
        · simp only [List.length_singleton] at hlt
          omega
      have hcard := hP t rfl hgreedy _ hrest
      have hle := Finset.pred_card_le_card_erase (s := s) (a := c.procs.length)
      omega
    · refine hc s fun i hi => ?_
      rcases competes_of_start (hs i hi) with hi | ⟨-, -, t', ht', hgreedy'⟩
      · exact hi
      · rw [List.mem_singleton.mp ht'] at hgreedy'
        exact absurd hgreedy' hgreedy
  · intro c v w ts _ hc _ hv s hs
    cases hv
    refine hc s fun i hi => ?_
    rcases competes_of_start (hs i hi) with hi | ⟨-, -, t, ht, -⟩
    · exact hi
    · cases ht
  · intro c c' i call res g g' _ hc _ hm s hs
    exact hc s fun i hi => competes_of_moved hm (hs i hi)

theorem not_deadlocked [∀ h, Inhabited (R h)] (h : Reach (rlsSystem B A) Initial fewRequests c) :
    ¬Deadlocked c := by
  intro hc
  obtain ⟨s, hcard, hs⟩ := hc.crowd h.any
  exact absurd (few_compete h s hs) (by omega)

end

/-! ## Ten requests -/

/-- The task is a request with a runner, and its handler first takes a connection. -/
def Task.Eager (t : Task H R E A) : Prop :=
  t.user? ≠ none ∧ ∃ c k, t.handler = .call c k ∧ c.acquires = true

section

variable {B : Backend D H R E X V} {w : World D} {i : Nat} {r : QueryRunner}

/-- The first call of such a handler waits for a connection, also inside its request. -/
theorem handle_waits (B : Backend D H R E X V) (rlsRunner : Option QueryRunner)
    {c : HandlerCall H} {k : Except E (HandlerResp R c) → Handler H R E α}
    (hc : c.acquires = true) :
    ∃ call : Call H, (handle B rlsRunner (.call c k)).next? = some call ∧ call.acquires = true := by
  have hprog : ∃ call : Call H, (c.prog B rlsRunner).next? = some call ∧ call.acquires = true := by
    cases c with
    | repository s => exact ⟨.repository s, rfl, rfl⟩
    | getAttemptedExamIds userId certId => exact ⟨.connect (.attemptedExams userId), rfl, rfl⟩
    | scoreAndPersist session answers status lateFlag =>
      exact ⟨.repository (.findExam session.examId), rfl, rfl⟩
    | _ => cases hc
  obtain ⟨call, hnext, hcall⟩ := hprog
  exact ⟨call, Prog.next?_bind (Prog.next?_attempt hnext) _, hcall⟩

/-- A change of the session on the runner's connection. -/
theorem exec_session {k : Connection Lease} (hheld : w.connections.held? r.slot r.toLease = some k)
    {k' : Connection Lease} (hslot : k'.slot = k.slot) (hlease : k'.lease? = k.lease?) :
    (w.put k').Holds r ∧
      (w.put k').connections.lending = w.connections.lending := by
  obtain ⟨hget, hk⟩ := Connections.held?_eq_some_iff.mp hheld
  have hkey : k'.slot = r.slot := hslot.trans (Table.key_of_get hget)
  refine ⟨Connections.holds_put.mpr ?_, Connections.lending_put hget hslot hlease⟩
  rw [if_pos hkey, hlease, hk]

theorem exec_startTransaction (B : Backend D H R E X V) (i : Nat) (x : X) (hr : w.Holds r) :
    ∃ w', exec (R := R) B i (.startTransaction r) ⟨0, .done, x⟩ w = some (w', .ok ()) ∧
      w'.Holds r ∧ w'.connections.lending = w.connections.lending := by
  obtain ⟨k, hheld⟩ := Option.isSome_iff_exists.mp (Connections.held?_isSome_iff.mpr hr)
  refine ⟨{ w.put k.begin with active := r :: w.active }, ?_, ?_⟩
  · simp [exec, World.onRunner, hheld]
  · exact exec_session hheld rfl rfl

theorem exec_setConfig (B : Backend D H R E X V) (i : Nat) (x : X) (hr : w.Holds r)
    (name value : String) :
    ∃ w', exec (R := R) B i (.setConfig r name value) ⟨0, .done, x⟩ w = some (w', .ok ()) ∧
      w'.Holds r ∧ w'.connections.lending = w.connections.lending := by
  obtain ⟨k, hheld⟩ := Option.isSome_iff_exists.mp (Connections.held?_isSome_iff.mpr hr)
  refine ⟨w.put (k.setLocal name value), ?_, ?_⟩
  · simp [exec, World.onRunner, hheld]
  · exact exec_session hheld rfl rfl

variable [Inhabited X]

theorem setId_goes (hr : w.Holds r) (name : String) (id : Option Id)
    (p : Promise H R E A) :
    ∃ w', Goes (rlsSystem B A) i w ((setId r name id).bind fun _ => p) w' p ∧ w'.Holds r ∧
      w'.connections.lending = w.connections.lending := by
  cases id with
  | none => exact ⟨w, .refl, hr, rfl⟩
  | some id =>
    obtain ⟨w', hexec, hr', hlending⟩ := exec_setConfig (R := R) B i default hr name id
    exact ⟨w', .await hexec .refl, hr', hlending⟩

/-- With the settings made the request comes to its handler. -/
theorem handleWithContext_goes (hr : w.Holds r) (ip : String) (user : AuthenticatedUser)
    (next : Handler H R E A) :
    ∃ w', Goes (rlsSystem B A) i w (handleWithContext B ip user next r) w'
        (handle B (some r) next) ∧
      w'.connections.lending = w.connections.lending := by
  obtain ⟨w₁, hgo₁, hr₁, hlending₁⟩ := setId_goes (B := B) (i := i) hr currentUserId user.student?
    (do
      setId r currentAdminId user.admin?
      await (.setConfig r currentIp ip)
      handle B (some r) next)
  obtain ⟨w₂, hgo₂, hr₂, hlending₂⟩ := setId_goes (B := B) (i := i) hr₁ currentAdminId user.admin?
    (do
      await (.setConfig r currentIp ip)
      handle B (some r) next)
  obtain ⟨w₃, hexec, -, hlending₃⟩ := exec_setConfig (R := R) B i default hr₂ currentIp ip
  exact ⟨w₃, hgo₁.trans (hgo₂.trans (.await hexec .refl)),
    hlending₃.trans (hlending₂.trans hlending₁)⟩

/-- While there is a connection to open, an intercepted request comes to its handler, which waits
for another. -/
theorem eager_goes {t : Task H R E A} (ht : t.Eager) {slot : Nat}
    (hnew : w.connections.get slot = none) (hroom : w.connections.rows.length < maxConnections) :
    ∃ w' p' user call, Goes (rlsSystem B A) i w (t.prog B) w' p' ∧
      w'.connections.lending =
        w.connections.lending ++ [(slot, some ⟨w.runners, i, .request user⟩)] ∧
      p'.next? = some call ∧ call.acquires = true := by
  obtain ⟨huser, c, k, hhandler, hacquires⟩ := ht
  cases t with
  | job body => exact absurd rfl huser
  | request req next =>
    obtain ⟨user, huser⟩ := Option.ne_none_iff_exists'.mp huser
    let k₀ : Connection Lease := .fresh slot
    let r : QueryRunner := ⟨⟨w.runners, i, .request user⟩, slot⟩
    let w₁ : World D := { w.put (k₀.lend r.toLease) with runners := w.runners + 1 }
    have htake : w.connections.take maxConnections slot = some k₀ := by
      rw [Connections.take, hnew]
      exact if_pos hroom
    have hconnect : exec (R := R) B i (.connect (.request user)) ⟨slot, .done, default⟩ w =
        some (w₁, .ok ⟨r, rfl⟩) := by
      rw [exec, htake]
      rfl
    have hr₁ : w₁.Holds r := by
      refine Connections.holds_put.mpr ?_
      rw [if_pos (show (k₀.lend r.toLease).slot = r.slot from rfl)]
      rfl
    have hlending₁ : w₁.connections.lending =
        w.connections.lending ++ [(slot, some r.toLease)] := Connections.lending_put_new hnew
    obtain ⟨w₂, hstart, hr₂, hlending₂⟩ := exec_startTransaction (R := R) B i default hr₁
    obtain ⟨w₃, hgo, hlending₃⟩ := handleWithContext_goes (B := B) (i := i) hr₂
      ((req.ip.or req.remoteAddress).getD "127.0.0.1") user next
    cases hhandler
    obtain ⟨call, hnext, hcall⟩ := handle_waits B (some r) (k := k) hacquires
    have hprog : (Task.request req (.call c k)).prog B =
        runWithRlsContext B req user (.call c k) := by
      change intercept B req (.call c k) = _
      rw [intercept, show req.rlsUser? = some user from huser]
    have hpass : ∃ p', Goes (rlsSystem B A) i w (runWithRlsContext B req user (.call c k)) w₃ p' ∧
        p'.next? = some call := by
      unfold runWithRlsContext inTransaction
      exact ⟨_, .await hconnect (.await hstart (((hgo.bind _).handle _).ensure _)),
        Prog.next?_ensure (Prog.next?_handle (Prog.next?_bind hnext _) _) _⟩
    obtain ⟨p', hgo', hnext'⟩ := hpass
    exact ⟨w₃, p', user, call, hprog ▸ hgo', (hlending₃.trans hlending₂).trans hlending₁, hnext',
      hcall⟩

/-- The lease is of a request whose handler waits for a connection. -/
def Waiting (c : Pool D H R E A) (l : Lease) : Prop :=
  ∃ user call, l.purpose = .request user ∧ c.next? l.proc = some call ∧ call.acquires = true

/-- As many such requests as there are connections, or fewer, come to wait, each with one. -/
theorem exists_waiting (B : Backend D H R E X V) {w : World D} (hw : Initial w)
    {ts : List (Task H R E A)} (hts : ∀ t ∈ ts, t.Eager) (hlen : ts.length ≤ maxConnections) :
    ∃ c, Reach (rlsSystem B A) Initial anyStep c ∧ c.procs.map (·.task) = ts ∧
      c.world.connections.lending.length = ts.length ∧
      ∀ e ∈ c.world.connections.lending, e.1 < ts.length ∧ ∃ l, e.2 = some l ∧ Waiting c l := by
  induction ts using List.reverseRecOn with
  | nil =>
    refine ⟨.initial w, .init hw, rfl, ?_, fun e he => ?_⟩
    · rw [Config.initial, hw.connections]
      rfl
    · rw [Config.initial, hw.connections] at he
      cases he
  | append_singleton ts t ih =>
    rw [List.length_append, List.length_singleton] at hlen
    obtain ⟨c, hc, htasks, hcount, hwaiting⟩ :=
      ih (fun t ht => hts t (List.mem_append_left _ ht)) (by omega)
    have hprocs : c.procs.length = ts.length := by rw [← htasks, List.length_map]
    have hrows : c.world.connections.rows.length = ts.length := by
      rw [← hcount, Connections.lending, List.length_map]
    have hnew : c.world.connections.get ts.length = none := by
      refine Table.get_none_iff.mpr fun k hk hslot => ?_
      have hlt := (hwaiting _ (List.mem_map_of_mem hk)).1
      exact absurd hslot hlt.ne
    obtain ⟨w', p', user, call, hgo, hlending, hnext, hcall⟩ := eager_goes (B := B) (A := A)
      (i := ts.length) (hts t (by simp)) hnew (by omega)
    have hspawn : Reach (rlsSystem B A) Initial anyStep (c.start (rlsSystem B A) [t] c.world) :=
      .step hc trivial (.spawn rfl)
    have hproc : (c.start (rlsSystem B A) [t] c.world).procs[ts.length]? =
        some ⟨t, c.world, t.prog B⟩ := by
      rw [Config.start, ← hprocs]
      exact List.getElem?_concat_length ..
    obtain ⟨c', hc', hworld, hprocs'⟩ := hgo.reach hspawn rfl hproc
    have hself : c'.next? ts.length = some call := by
      rw [Config.next?, hprocs', List.getElem?_set_self (List.getElem?_eq_some_iff.mp hproc).1]
      exact hnext
    have hother : ∀ j call, c.next? j = some call → c'.next? j = some call := by
      intro j call hj
      obtain ⟨p, hp, hnext⟩ := Option.bind_eq_some_iff.mp hj
      have hlt := (List.getElem?_eq_some_iff.mp hp).1
      rw [Config.next?, hprocs', List.getElem?_set_ne (by omega), Config.start_procs_of_lt _ _ hlt, hp]
      exact hnext
    refine ⟨c', hc', ?_, ?_, fun e he => ?_⟩
    · rw [hprocs', List.map_set, Config.start, List.map_append, htasks]
      simp
    · rw [hworld, hlending, List.length_append, List.length_append, hcount]
      rfl
    · rw [List.length_append, List.length_singleton]
      rw [hworld, hlending] at he
      rcases List.mem_append.mp he with he | he
      · obtain ⟨hlt, l, hl, user', call', hpurpose, hnext', hcall'⟩ := hwaiting e he
        exact ⟨by omega, l, hl, user', call', hpurpose, hother _ _ hnext', hcall'⟩
      · rw [List.mem_singleton.mp he]
        exact ⟨by omega, _, rfl, user, call, rfl, hself, hcall⟩

theorem exists_deadlock (B : Backend D H R E X V) {w : World D} (hw : Initial w)
    {ts : List (Task H R E A)} (hts : ∀ t ∈ ts, t.Eager) (hlen : ts.length = maxConnections) :
    ∃ c, Reach (rlsSystem B A) Initial anyStep c ∧ c.procs.map (·.task) = ts ∧ Deadlocked c := by
  obtain ⟨c, hc, htasks, hcount, hwaiting⟩ := exists_waiting B hw hts hlen.le
  refine ⟨c, hc, htasks, ?_, fun k hk => ?_⟩
  · rw [← hlen, ← hcount, Connections.lending, List.length_map]
  · obtain ⟨-, l, hl, user, call, hpurpose, hnext, hcall⟩ := hwaiting _ (List.mem_map_of_mem hk)
    exact ⟨l, user, call, hl, hpurpose, hnext, hcall⟩

end

/-- With fewer than ten requests that compete there is no deadlock. Any ten requests whose handlers
first take a connection can come to one, in which no call that needs a connection can be carried
out. -/
theorem pool_deadlocks [∀ h, Inhabited (R h)] [Inhabited X] (B : Backend D H R E X V) :
    (∀ c, Reach (rlsSystem B A) Initial fewRequests c → ¬Deadlocked c) ∧
      ∀ ts : List (Task H R E A), (∀ t ∈ ts, t.Eager) → ts.length = maxConnections →
        ∀ w : World D, Initial w →
          ∃ c, Reach (rlsSystem B A) Initial anyStep c ∧ c.procs.map (·.task) = ts ∧
            Deadlocked c ∧ ∀ call : Call H, call.acquires = true →
              ∀ i x, exec B i call x c.world = none := by
  refine ⟨fun _ h => not_deadlocked h, fun ts hts hlen w hw => ?_⟩
  obtain ⟨c, hc, htasks, hdeadlocked⟩ := exists_deadlock B hw hts hlen
  exact ⟨c, hc, htasks, hdeadlocked, fun call hcall => hdeadlocked.stuck B hcall⟩

/-- The purchases as a repository reads them: on a connection of its own. -/
def repositoryPurchases : Handler Empty (fun _ => Unit) String (List Content.StudentPurchase) :=
  Prog.await (HandlerCall.repository (.select .studentPurchases fun _ => true))

def students : List Id := ["a", "b", "c", "d", "e", "f", "g", "h", "i", "j"]

def purchaseRequests :
    List (Task Empty (fun _ => Unit) String (List Content.StudentPurchase)) :=
  students.map fun id => .request (studentRequest id) repositoryPurchases

theorem student_runner : ∀ id ∈ students, (studentRequest id).rlsUser? ≠ none := by decide

theorem pool_deadlocks_purchases :
    (∀ t ∈ purchaseRequests, ∃ c, Reach (rlsSystem plainBackend _) Initial fewRequests c ∧
      c.procs.map (·.task) = [t] ∧ ¬Deadlocked c) ∧
      ∃ c, Reach (rlsSystem plainBackend _) Initial anyStep c ∧
        c.procs.map (·.task) = purchaseRequests ∧ Deadlocked c ∧
          ∀ call, call.acquires = true → ∀ i x, exec plainBackend i call x c.world = none := by
  constructor
  · intro t _
    have hguard : fewRequests (.initial (plainWorld [])) (.spawn t : Label _ (Choice Unit) Unit) := by
      intro _ _ _ s hs
      have hempty : s = ∅ := Finset.eq_empty_of_forall_notMem fun i hi => by
        obtain ⟨⟨t, ht, -⟩, -⟩ := hs i hi
        cases ht
      rw [hempty]
      decide
    have hreach : Reach (rlsSystem plainBackend _) Initial fewRequests _ :=
      .step (.init (plainWorld_initial [])) hguard (.spawn rfl)
    exact ⟨_, hreach, rfl, (pool_deadlocks plainBackend).1 _ hreach⟩
  · refine (pool_deadlocks plainBackend).2 purchaseRequests ?_ rfl _ (plainWorld_initial [])
    intro t ht
    obtain ⟨id, hid, rfl⟩ := List.mem_map.mp ht
    exact ⟨student_runner id hid, .repository (.select .studentPurchases fun _ => true), _, rfl, rfl⟩

/-! ## Ten students open a course -/

/-- `GET /learning/:certId`, for the students with these ids. -/
def curriculumRequests (ids : List Id) : List ContentRlsTask :=
  ids.map fun id => .request (studentRequest id) (contentHandler (.getCurriculum id "psm" .en))

theorem curriculum_eager : ∀ t ∈ curriculumRequests students, t.Eager := by
  intro t ht
  obtain ⟨id, hid, rfl⟩ := List.mem_map.mp ht
  exact ⟨student_runner id hid, .repository (.other (.certificateFindOne "psm")), _, rfl, rfl⟩

theorem pool_deadlocks_curriculum : ∃ c : ContentPool, Reach contentRlsSystem Initial anyStep c ∧
    c.procs.map (·.task) = curriculumRequests students ∧ Deadlocked c :=
  exists_deadlock contentBackend (w := noContent) ⟨rfl, rfl, rfl⟩ curriculum_eager rfl

end LmsBackend.Rls
