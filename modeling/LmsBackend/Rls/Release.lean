import LmsBackend.Rls.Isolation

/-!
# Runners that are never released

`connect` and `startTransaction` are before the `try`. If the second one rejects
nothing releases the runner. In every other case the runner is released.
-/

open Async Store

namespace LmsBackend.Rls

variable {D H : Type} {R : H → Type} {E X V A : Type}

/-- `startTransaction` has rejected, and the runner still has its connection. -/
def StartFailed (e : RlsEvent D H R E) (r : QueryRunner) : Prop :=
  e.call = .startTransaction r ∧ (∃ err, e.res = .error err) ∧ e.after.Holds r

/-! ## When a runner is done with -/

/-- The calls after which a process has not got the runner any more, with their answers. -/
inductive Closing (q : QueryRunner) : (call : Call H) → Except E (Resp R call) → Prop where
  | release {r} : Closing q (.release q) r
  | isReleased : Closing q (.isReleased q) (.ok true)
  | failed {e} : Closing q (.isReleased q) (.error e)
  | startFailed {e} : Closing q (.startTransaction q) (.error e)

section

variable {g g' : Phase} {call : Call H} {res : Except E (Resp R call)} {q : QueryRunner}

theorem mem_closes_or (hq : q ∈ g.opened) (r : QueryRunner) : q ∈ (g.closes r).opened ∨ q = r := by
  by_cases h : q = r
  · exact .inr h
  · exact .inl ((List.mem_erase_of_ne h).mpr hq)

/-- An open runner stays so, or the call is one that it is closed by. -/
theorem opened_or_closing (hq : q ∈ g.opened)
    (h : (runnerMonitor : Monitor (Call H) (Resp R) E A (Task H R E A) Phase).advance g call res =
      some g') : q ∈ g'.opened ∨ Closing q call res := by
  cases res with
  | error e =>
    obtain rfl := advance_error h
    cases call with
    | startTransaction r =>
      rcases mem_closes_or hq r with hq | rfl
      · exact .inl hq
      · exact .inr .startFailed
    | isReleased r =>
      rcases mem_closes_or hq r with hq | rfl
      · exact .inl hq
      · exact .inr .failed
    | release r =>
      rcases mem_closes_or hq r with hq | rfl
      · exact .inl hq
      · exact .inr .release
    | _ => exact .inl hq
  | ok a =>
    obtain ⟨-, rfl⟩ := advance_ok h
    cases call with
    | connect purpose =>
      refine .inl ?_
      rw [Phase.after, Phase.opens_opened]
      exact List.mem_cons_of_mem _ hq
    | isReleased r =>
      cases a with
      | false => exact .inl hq
      | true =>
        rcases mem_closes_or hq r with hq | rfl
        · exact .inl hq
        · exact .inr .isReleased
    | isTransactionActive r => cases a <;> exact .inl hq
    | release r =>
      rcases mem_closes_or hq r with hq | rfl
      · exact .inl hq
      · exact .inr .release
    | _ => exact .inl hq

/-- A closing call other than `startTransaction` leaves the runner without a connection. -/
theorem holds_of_closing {B : Backend D H R E X V} {w w' : World D} {i : Nat}
    (h : Closing q call res) (ha : Answered (rlsSystem B A) i call w res w') (hholds : w'.Holds q) :
    call = .startTransaction q ∧ ∃ err, res = .error err := by
  cases h with
  | startFailed => exact ⟨rfl, _, rfl⟩
  | release =>
    cases ha with
    | reject h => cases h
    | exec h =>
      rw [rlsSystem_exec] at h
      exact absurd hholds (exec_release h)
  | isReleased =>
    cases ha with
    | exec h =>
      rw [rlsSystem_exec] at h
      exact absurd hholds (exec_isReleased h)
  | failed =>
    cases ha with
    | exec h => cases h
    | reject h => cases h

end

/-! ## Every connection that is held -/

/-- The invariant. -/
structure Tracked (c : Pool D H R E A) : Prop where
  nodup : ∀ i g, runnerPhase c i = some g → g.opened.Nodup
  fresh : ∀ r, c.world.Holds r → r.serial < c.world.runners
  /-- A runner with a connection is open, or has been left behind. -/
  holder : ∀ r, c.world.Holds r → (∃ g, runnerPhase c r.proc = some g ∧ r ∈ g.opened) ∨
    ∃ e ∈ c.log, StartFailed e r
  /-- What has been left behind stays so. -/
  stuck : ∀ e ∈ c.log, ∀ r, StartFailed e r → c.world.Holds r ∧ e.proc = r.proc ∧
    ∀ i g, runnerPhase c i = some g → r ∉ g.opened
  connected : ∀ i purpose a w w',
    (⟨i, .connect purpose, .ok a, w, w'⟩ : RlsEvent D H R E) ∈ c.log → a.val.proc = i

section

variable {B : Backend D H R E X V} {c c' : Pool D H R E A}

theorem Tracked.start (hc : Tracked c) (hlog : c.LogOk) (ts : List (Task H R E A)) {w : World D}
    (hconnections : w.connections = c.world.connections) (hrunners : w.runners = c.world.runners) :
    Tracked (c.start (rlsSystem B A) ts w) := by
  have hphase : ∀ i g, runnerPhase (c.start (rlsSystem B A) ts w) i = some g →
      runnerPhase c i = some g ∨ g.opened = [] := by
    intro i g hg
    rcases Monitor.phase_start_cases hlog hg with hg | ⟨-, t, -, rfl⟩
    · exact .inl hg
    · exact .inr rfl
  have hholds : ∀ r, w.Holds r ↔ c.world.Holds r := fun r => by
    rw [World.Holds, hconnections]
    rfl
  constructor
  · intro i g hg
    rcases hphase i g hg with hg | hg
    · exact hc.nodup i g hg
    · rw [hg]
      exact List.nodup_nil
  · intro r hr
    rw [Config.start_world, hrunners]
    exact hc.fresh r ((hholds r).mp hr)
  · intro r hr
    rcases hc.holder r ((hholds r).mp hr) with ⟨g, hg, hmem⟩ | h
    · exact .inl ⟨g, (Monitor.phase_start_of_lt (Monitor.lt_of_phase hg)).trans hg, hmem⟩
    · exact .inr h
  · intro e he r hfailed
    obtain ⟨hr, hproc, hopened⟩ := hc.stuck e he r hfailed
    refine ⟨(hholds r).mpr hr, hproc, fun i g hg => ?_⟩
    rcases hphase i g hg with hg | hg
    · exact hopened i g hg
    · rw [hg]
      exact List.not_mem_nil
  · exact hc.connected

/-- A runner that gets a connection is open. -/
theorem opened_of_lent {i : Nat} {call : Call H} {res : Except E (Resp R call)} {g g' : Phase}
    (hm : RunnerMoved B c c' i call res g g') {r : QueryRunner} (hr : c'.world.Holds r)
    (hnot : ¬c.world.Holds r) : r ∈ g'.opened := by
  rcases (change_of_moved hm).holds_of hr with h | ⟨-, purpose, rfl⟩
  · exact absurd h hnot
  · cases hm.answers with
    | exec h =>
      rw [rlsSystem_exec] at h
      obtain ⟨hpurpose, rfl⟩ := exec_lent h hr hnot
      obtain ⟨-, rfl⟩ := advance_ok hm.next
      rw [Phase.after, Phase.opens_opened]
      exact List.mem_cons_self
    | reject h =>
      rw [rlsSystem_reject] at h
      rw [reject_eq h] at hr
      exact absurd hr hnot

/-- The open runners of a process are those that it had, less one that is closed, or with one that
is new. -/
theorem nodup_of_moved {i : Nat} {call : Call H} {res : Except E (Resp R call)} {g g' : Phase}
    (hm : RunnerMoved B c c' i call res g g') (hg : g.opened.Nodup)
    (hfresh : ∀ r ∈ g.opened, r.serial < c.world.runners) : g'.opened.Nodup := by
  have hnext := hm.next
  cases res with
  | error e =>
    obtain rfl := advance_error hnext
    cases call <;> first | exact hg | exact hg.erase _
  | ok a =>
    obtain ⟨-, rfl⟩ := advance_ok hnext
    cases call with
    | connect purpose =>
      rw [Phase.after, Phase.opens_opened]
      refine List.nodup_cons.mpr ⟨fun hmem => ?_, hg⟩
      cases hm.answers with
      | exec h =>
        rw [rlsSystem_exec] at h
        have hserial := (exec_connect h).1
        have hlt := hfresh _ hmem
        omega
    | isReleased r =>
      cases a with
      | false => exact hg
      | true => exact hg.erase _
    | isTransactionActive r => cases a <;> exact hg
    | release r => exact hg.erase _
    | _ => exact hg

/-- A runner that cannot start its transaction is closed. -/
theorem closed_of_startFailed {i : Nat} {r : QueryRunner} {e : E} {g g' : Phase}
    (hm : RunnerMoved B c c' i (.startTransaction r) (.error e) g g') (hg : g.opened.Nodup) :
    r ∉ g'.opened := by
  obtain rfl := advance_error hm.next
  exact fun h => (List.Nodup.mem_erase_iff hg).mp h |>.1 rfl

theorem Tracked.move [∀ h, Inhabited (R h)] (hc : Tracked c) (ht : Transacted c) {i : Nat}
    {call : Call H} {res : Except E (Resp R call)} {g g' : Phase}
    (hm : RunnerMoved B c c' i call res g g') : Tracked c' := by
  have hchange := change_of_moved hm
  have hle := runners_le_of_moved hm
  have hlog : ∀ e : RlsEvent D H R E,
      e ∈ c'.log ↔ e ∈ c.log ∨ e = ⟨i, call, res, c.world, c'.world⟩ := fun e => by simp [hm.log]
  have hopened : ∀ j gj, runnerPhase c' j = some gj → ∀ r ∈ gj.opened,
      (∃ gj₀, runnerPhase c j = some gj₀ ∧ r ∈ gj₀.opened) ∨
        r.serial = c.world.runners ∧ r.proc = j ∧ c'.world.runners = c.world.runners + 1 := by
    intro j gj hgj r hr
    rcases hm.phase_cases hgj with ⟨rfl, rfl⟩ | ⟨-, hgj⟩
    · exact (opened_of_moved hm hr).imp_left fun hr => ⟨g, hm.before, hr⟩
    · exact .inl ⟨gj, hgj, hr⟩
  have hopened' := (ht.move hm).opened i g' hm.after
  constructor
  · intro j gj hgj
    rcases hm.phase_cases hgj with ⟨rfl, rfl⟩ | ⟨-, hgj⟩
    · exact nodup_of_moved hm (hc.nodup _ g hm.before) fun r hr => (ht.opened _ g hm.before r hr).1
    · exact hc.nodup j gj hgj
  · intro r hr
    by_cases hold : c.world.Holds r
    · have := hc.fresh r hold
      omega
    · exact (hopened' r (opened_of_lent hm hr hold)).1
  · intro r hr
    by_cases hold : c.world.Holds r
    · rcases hc.holder r hold with ⟨g₀, hg₀, hmem⟩ | ⟨e, he, hfailed⟩
      · by_cases hproc : r.proc = i
        · subst hproc
          cases hg₀.symm.trans hm.before
          rcases opened_or_closing hmem hm.next with hmem | hclosing
          · exact .inl ⟨g', hm.after, hmem⟩
          · obtain ⟨hcall, herr⟩ := holds_of_closing hclosing hm.answers hr
            exact .inr ⟨_, (hlog _).mpr (.inr rfl), hcall, herr, hr⟩
        · exact .inl ⟨g₀, (hm.other _ hproc).trans hg₀, hmem⟩
      · exact .inr ⟨e, (hlog e).mpr (.inl he), hfailed⟩
    · have hmem := opened_of_lent hm hr hold
      obtain ⟨-, rfl⟩ := hopened' r hmem
      exact .inl ⟨g', hm.after, hmem⟩
  · intro e he r hfailed
    rcases (hlog e).mp he with he | rfl
    · obtain ⟨hholds, hproc, hnot⟩ := hc.stuck e he r hfailed
      have hcall : call.runner? ≠ some r := fun h =>
        hnot i g hm.before ((allows_of_moved hm).runner r h)
      refine ⟨hchange.holds hholds hcall, hproc, fun j gj hgj hmem => ?_⟩
      rcases hopened j gj hgj r hmem with ⟨gj₀, hgj₀, hmem⟩ | ⟨hserial, -, -⟩
      · exact hnot j gj₀ hgj₀ hmem
      · exact absurd (hc.fresh r hholds) (by omega)
    · obtain ⟨rfl, ⟨err, herr⟩, hholds⟩ := hfailed
      have herr : res = .error err := herr
      subst herr
      have hmem : r ∈ g.opened := (allows_of_moved hm).runner r rfl
      have hproc : r.proc = i := (ht.opened i g hm.before r hmem).2
      refine ⟨hholds, hproc.symm, fun j gj hgj hr => ?_⟩
      rcases hm.phase_cases hgj with ⟨rfl, rfl⟩ | ⟨hj, hgj⟩
      · exact closed_of_startFailed hm (hc.nodup _ g hm.before) hr
      · exact hj ((ht.opened j gj hgj r hr).2.symm.trans hproc)
  · intro j purpose a w w' he
    rcases (hlog _).mp he with he | he
    · exact hc.connected j purpose a w w' he
    · cases he
      cases hm.answers with
      | exec h =>
        rw [rlsSystem_exec] at h
        exact (exec_connect h).2.1

theorem tracked [∀ h, Inhabited (R h)] (h : Reach (rlsSystem B A) Initial anyStep c) :
    Tracked c := by
  refine Reach.invariant (runnerMonitor_sound B) ?_ ?_ ?_ ?_ h
  · intro w hw
    have hnone : ∀ r, ¬w.Holds r := fun r hr => by
      rw [World.Holds, hw.connections] at hr
      cases hr
    have hphase : ∀ i, runnerPhase (.initial w : Pool D H R E A) i = none := fun i =>
      Monitor.phase_none (Nat.zero_le i)
    constructor
    · intro i g hg
      cases (hphase i).symm.trans hg
    · exact fun r hr => absurd hr (hnone r)
    · exact fun r hr => absurd hr (hnone r)
    · intro e he
      cases he
    · intro i purpose a w w' he
      cases he
  · intro c t hr hc _ _
    exact hc.start (hr.logOk (runnerMonitor_sound B)) [t] rfl rfl
  · intro c v w ts hr hc _ hv
    cases hv
    exact hc.start (hr.logOk (runnerMonitor_sound B)) [] rfl rfl
  · intro c c' i call res g g' hr hc _ hm
    exact hc.move (transacted hr) hm

end

/-! ## What finished requests hold -/

/-- The process has come to its end. -/
def finished (c : Pool D H R E A) (i : Nat) : Bool := (c.prog? i).any (·.next?.isNone)

/-- How many connections finished processes hold. -/
def heldByFinished (c : Pool D H R E A) : Nat :=
  c.world.connections.rows.countP fun k => k.lease?.any fun l => finished c l.proc

section

variable {B : Backend D H R E X V} {c : Pool D H R E A}

theorem opened_of_finished (h : Reach (rlsSystem B A) Initial anyStep c) {i : Nat}
    (hi : finished c i = true) : ∃ g, runnerPhase c i = some g ∧ g.opened = [] := by
  obtain ⟨prog, hprog, hnext⟩ := (Option.any_eq_true _ _).mp hi
  obtain ⟨p, hp, rfl⟩ := Option.map_eq_some_iff.mp hprog
  obtain ⟨g, hg, hkeeps⟩ := h.conforms (runnerMonitor_sound B) i p hp
  refine ⟨g, hg, ?_⟩
  cases hend : p.prog with
  | ret a =>
    rw [hend] at hkeeps
    exact hkeeps
  | throw e =>
    rw [hend] at hkeeps
    exact hkeeps
  | call call k =>
    rw [hend] at hnext
    cases hnext

theorem heldByFinished_eq_zero_iff :
    heldByFinished c = 0 ↔ ∀ r, c.world.Holds r → finished c r.proc = false := by
  simp only [heldByFinished, List.countP_eq_zero, Bool.not_eq_true]
  constructor
  · intro h r hr
    obtain ⟨k, hk, -, hlease⟩ := Connections.holds_iff.mp hr
    have hfinished := h k hk
    rwa [hlease] at hfinished
  · intro h k hk
    cases hlease : k.lease? with
    | none => rfl
    | some l => exact h ⟨l, k.slot⟩ (Connections.holds_iff.mpr ⟨k, hk, rfl, hlease⟩)

variable [∀ h, Inhabited (R h)]

/-- A runner of a finished process is released, unless its transaction has failed to start. -/
theorem released_iff (h : Reach (rlsSystem B A) Initial anyStep c) {r : QueryRunner}
    (hr : finished c r.proc = true) : ¬c.world.Holds r ↔ ∀ e ∈ c.log, ¬StartFailed e r := by
  have hc := tracked h
  constructor
  · exact fun hnot e he hfailed => hnot (hc.stuck e he r hfailed).1
  · intro hnone hholds
    rcases hc.holder r hholds with ⟨g, hg, hmem⟩ | ⟨e, he, hfailed⟩
    · obtain ⟨g', hg', hopened⟩ := opened_of_finished h hr
      cases hg.symm.trans hg'
      rw [hopened] at hmem
      cases hmem
    · exact hnone e he hfailed

theorem runners_released_iff (h : Reach (rlsSystem B A) Initial anyStep c) :
    (∀ i purpose a w w', (⟨i, .connect purpose, .ok a, w, w'⟩ : RlsEvent D H R E) ∈ c.log →
      finished c i = true → (¬c.world.Holds a.val ↔ ∀ e ∈ c.log, ¬StartFailed e a.val)) ∧
    (heldByFinished c = 0 ↔
      ∀ e ∈ c.log, finished c e.proc = true → ∀ r, ¬StartFailed e r) := by
  have hc := tracked h
  refine ⟨fun i purpose a w w' he hi => ?_, ?_⟩
  · rw [← hc.connected i purpose a w w' he] at hi
    exact released_iff h hi
  · rw [heldByFinished_eq_zero_iff]
    constructor
    · intro hnone e he hfinished r hfailed
      obtain ⟨hholds, hproc, -⟩ := hc.stuck e he r hfailed
      rw [hproc, hnone r hholds] at hfinished
      cases hfinished
    · intro hnone r hholds
      by_contra hfinished
      rw [Bool.not_eq_false] at hfinished
      refine (released_iff h hfinished).mpr (fun e he hfailed => ?_) hholds
      have hproc := (hc.stuck e he r hfailed).2.1
      exact hnone e he (hproc ▸ hfinished) r hfailed

end

/-- The settings cannot be made: the transaction is rolled back and the runner released. -/
theorem runners_released_rolled_back :
    ∃ c, Reach (rlsSystem plainBackend Unit) Initial anyStep c ∧ finished c 0 = true ∧
      c.error? 0 = some "query failed" ∧
      ∀ e ∈ c.log, finished c e.proc = true → ∀ r, ¬StartFailed e r := by
  have hrun : ∃ c, runIf (rlsSystem plainBackend Unit) anyStep
      ([.spawn (.request (studentRequest "a") (pure ())), go 0 0, go 0 0, .fail 0] ++
        List.replicate 4 (go 0 0)) (.initial (plainWorld [])) = some c ∧
      finished c 0 = true ∧ c.error? 0 = some "query failed" ∧ heldByFinished c = 0 :=
    ⟨_, rfl, rfl, rfl, rfl⟩
  obtain ⟨c, hc, hfinished, herror, hheld⟩ := hrun
  have hreach := runIf_reach (.init (plainWorld_initial _)) hc
  exact ⟨c, hreach, hfinished, herror, (runners_released_iff hreach).2.mp hheld⟩

/-- START TRANSACTION is rejected. The request has ended and keeps its connection. -/
theorem runner_left_behind :
    ∃ c, Reach (rlsSystem plainBackend Unit) Initial anyStep c ∧ finished c 0 = true ∧
      heldByFinished c = 1 := by
  have hrun : ∃ c, runIf (rlsSystem plainBackend Unit) anyStep
      [.spawn (.request (studentRequest "a") (pure ())), go 0 0, .fail 0]
      (.initial (plainWorld [])) = some c ∧ finished c 0 = true ∧ heldByFinished c = 1 :=
    ⟨_, rfl, rfl, rfl⟩
  obtain ⟨c, hc, hfinished, hheld⟩ := hrun
  exact ⟨c, runIf_reach (.init (plainWorld_initial _)) hc, hfinished, hheld⟩

end LmsBackend.Rls
