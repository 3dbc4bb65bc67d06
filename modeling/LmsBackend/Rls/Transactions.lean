import LmsBackend.Rls.Runners

/-!
# No connection comes back with its transaction open

COMMIT or ROLLBACK has ended the transaction of a runner that is released, or its
ROLLBACK has failed and the connection is discarded. So an idle connection has
none open.
-/

open Async Store

namespace LmsBackend.Rls

variable {D H : Type} {R : H → Type} {E X V A : Type}

/-! ## When a transaction is settled -/

/-- The calls that settle the transaction of a runner, with their answers. -/
inductive Settling (q : QueryRunner) : (call : Call H) → Except E (Resp R call) → Prop where
  | commit {a} : Settling q (.commitTransaction q) (.ok a)
  | rollback {r} : Settling q (.rollbackTransaction q) r
  | inactive : Settling q (.isTransactionActive q) (.ok false)
  | failed {e} : Settling q (.isTransactionActive q) (.error e)

section

variable {g g' : Phase} {call : Call H} {res : Except E (Resp R call)} {q : QueryRunner}

/-- A runner that is settled was so before, and starts no transaction, or is settled by the call. -/
theorem settled_or_settling
    (h : (runnerMonitor : Monitor (Call H) (Resp R) E A (Task H R E A) Phase).advance g call res =
      some g') (hq : g'.settled = some q) :
    (g.settled = some q ∧ call ≠ .startTransaction q) ∨ Settling q call res := by
  cases res with
  | error e =>
    obtain rfl := advance_error h
    cases call with
    | rollbackTransaction r =>
      cases hq
      exact .inr .rollback
    | isTransactionActive r =>
      cases hq
      exact .inr .failed
    | startTransaction | isReleased | release => cases hq
    | _ => exact .inl ⟨hq, by rintro ⟨⟩⟩
  | ok a =>
    obtain ⟨hallows, rfl⟩ := advance_ok h
    cases call with
    | connect purpose =>
      rw [Phase.after, Phase.opens_settled] at hq
      exact .inl ⟨hq, by rintro ⟨⟩⟩
    | startTransaction r =>
      have hnone := hallows.start r rfl
      cases hnone.symm.trans hq
    | commitTransaction r =>
      cases hq
      exact .inr .commit
    | rollbackTransaction r =>
      cases hq
      exact .inr .rollback
    | isTransactionActive r =>
      cases a with
      | true => exact .inl ⟨hq, by rintro ⟨⟩⟩
      | false =>
        cases hq
        exact .inr .inactive
    | isReleased r =>
      cases a with
      | false => exact .inl ⟨hq, by rintro ⟨⟩⟩
      | true => cases hq
    | release r => cases hq
    | _ => exact .inl ⟨hq, by rintro ⟨⟩⟩

/-- A settling call is one of the runner, which has some answer. -/
theorem runner_of_settling (h : Settling q call res) : call.runner? = some q ∧ Nonempty (Resp R call) := by
  cases h with
  | commit | rollback => exact ⟨rfl, ⟨()⟩⟩
  | inactive | failed => exact ⟨rfl, ⟨false⟩⟩

end

section

variable {B : Backend D H R E X V} {w w' : World D} {i : Nat} {q : QueryRunner}

theorem settled_of_put {k : Connection Lease} (hslot : k.slot = q.slot)
    (h : w'.connections = w.connections.put k) (hk : k.Settled) : w'.Settled q := by
  intro k' hheld
  have hget := (Connections.held?_eq_some_iff.mp hheld).1
  rw [h, Table.get_put, Connection.keyed, if_pos hslot] at hget
  cases hget
  exact hk

/-- COMMIT or ROLLBACK, if it comes through to the server. -/
theorem settled_of_finish {fate : Fate} {a : Except E Unit}
    (h : w.finish B q fate = some (w', a)) : w'.Settled q := by
  simp only [World.finish, World.onRunner] at h
  split at h
  · rename_i hnone
    cases h
    intro k hheld
    cases hnone.symm.trans hheld
  · rename_i k hheld
    have hslot : k.slot = q.slot := (mem_of_held hheld).2.1
    split at h
    · cases h
      intro k' hheld'
      have hget := (Connections.held?_eq_some_iff.mp hheld').1
      rw [World.drop, Table.get_erase, if_pos hslot] at hget
      cases hget
    · split at h <;> cases h <;> exact settled_of_put (k := k.finish) hslot rfl (.inl rfl)

theorem settled_of_rejected (w : World D) (q : QueryRunner) :
    (w.rejected (.rollbackTransaction q : Call H)).Settled q := by
  simp only [World.rejected]
  split
  · rename_i hnone
    intro k hheld
    cases hnone.symm.trans hheld
  · rename_i k hheld
    exact settled_of_put (k := k.fail) (mem_of_held hheld).2.1 rfl (.inr rfl)

theorem settled_of_settling {call : Call H} {res : Except E (Resp R call)} (hw : Orderly w)
    (h : Settling q call res) (ha : Answered (rlsSystem B A) i call w res w') : w'.Settled q := by
  cases h with
  | commit =>
    cases ha with
    | exec h => exact settled_of_finish h
  | rollback =>
    cases ha with
    | exec h => exact settled_of_finish h
    | reject h =>
      rw [rlsSystem_reject] at h
      rw [reject_eq h]
      exact settled_of_rejected w q
  | inactive =>
    cases ha with
    | exec h =>
      obtain ⟨rfl, hactive⟩ := Prod.mk.inj (Option.some.inj h)
      intro k hheld
      by_contra hopen
      obtain ⟨hk, hslot, hlease⟩ := mem_of_held hheld
      have hmem := hw.active k hk _ hlease fun hnone => hopen (.inl hnone)
      rw [hslot] at hmem
      have hnot := Except.ok.inj hactive
      simp [hmem] at hnot
  | failed =>
    cases ha with
    | exec h => cases h
    | reject h => cases h

end

/-! ## The invariant -/

structure Transacted (c : Pool D H R E A) : Prop where
  opened : ∀ i g, runnerPhase c i = some g → ∀ r ∈ g.opened,
    r.serial < c.world.runners ∧ r.proc = i
  settled : ∀ i g, runnerPhase c i = some g → ∀ r, g.settled = some r →
    r.serial < c.world.runners ∧ r.proc = i ∧ c.world.Settled r
  orderly : Orderly c.world

section

variable {B : Backend D H R E X V} {c c' : Pool D H R E A}

/-- A runner that is new among the open ones of a process has a new serial. -/
theorem opened_of_moved {i : Nat} {call : Call H} {res : Except E (Resp R call)} {g g' : Phase}
    (hm : RunnerMoved B c c' i call res g g') {r : QueryRunner} (hr : r ∈ g'.opened) :
    r ∈ g.opened ∨ r.serial = c.world.runners ∧ r.proc = i ∧
      c'.world.runners = c.world.runners + 1 := by
  have hnext := hm.next
  cases res with
  | error e =>
    obtain rfl := advance_error hnext
    exact .inl (Phase.failed_opened hr)
  | ok a =>
    obtain ⟨-, rfl⟩ := advance_ok hnext
    rcases Phase.after_opened hr with hr' | hcall
    · exact .inl hr'
    · generalize r.purpose = purpose at hcall
      subst hcall
      rw [Phase.after, Phase.opens_opened] at hr
      rcases List.mem_cons.mp hr with rfl | hr
      · cases hm.answers with
        | exec h =>
          rw [rlsSystem_exec] at h
          exact .inr (exec_connect h)
      · exact .inl hr

theorem runners_le_of_moved {i : Nat} {call : Call H} {res : Except E (Resp R call)} {g g' : Phase}
    (hm : RunnerMoved B c c' i call res g g') : c.world.runners ≤ c'.world.runners := by
  rcases (change_of_moved hm).runners with h | ⟨h, -⟩ <;> omega

theorem Transacted.start (hc : Transacted c) (hlog : c.LogOk) (ts : List (Task H R E A)) {w : World D}
    (hconnections : w.connections = c.world.connections) (hrunners : w.runners = c.world.runners)
    (hactive : w.active = c.world.active) : Transacted (c.start (rlsSystem B A) ts w) := by
  constructor
  · intro i g hg r hr
    rw [Config.start_world, hrunners]
    rcases Monitor.phase_start_cases hlog hg with hg | ⟨-, t, -, rfl⟩
    · exact hc.opened i g hg r hr
    · cases hr
  · intro i g hg r hr
    rw [Config.start_world, World.Settled, hconnections, hrunners]
    rcases Monitor.phase_start_cases hlog hg with hg | ⟨-, t, -, rfl⟩
    · exact hc.settled i g hg r hr
    · cases hr
  · rw [Config.start_world]
    constructor
    · rw [hconnections]
      exact hc.orderly.idle
    · rw [hconnections, hactive]
      exact hc.orderly.active

theorem released_settled (hc : Transacted c) {i : Nat} {call : Call H}
    {res : Except E (Resp R call)} {g g' : Phase} (hm : RunnerMoved B c c' i call res g g') :
    ∀ r, call = .release r → c.world.Settled r := by
  rintro r rfl
  exact (hc.settled i g hm.before r ((allows_of_answer hm ()).release r rfl)).2.2

theorem Transacted.move (hc : Transacted c) {i : Nat} {call : Call H}
    {res : Except E (Resp R call)} {g g' : Phase} (hm : RunnerMoved B c c' i call res g g') :
    Transacted c' where
  opened := by
    have hle := runners_le_of_moved hm
    intro j gj hgj r hr
    rcases hm.phase_cases hgj with ⟨rfl, rfl⟩ | ⟨-, hgj⟩
    · rcases opened_of_moved hm hr with hr | ⟨hserial, hproc, hrunners⟩
      · obtain ⟨hlt, hproc⟩ := hc.opened _ g hm.before r hr
        exact ⟨by omega, hproc⟩
      · exact ⟨by omega, hproc⟩
    · obtain ⟨hlt, hproc⟩ := hc.opened j gj hgj r hr
      exact ⟨by omega, hproc⟩
  settled := by
    have hle := runners_le_of_moved hm
    intro j gj hgj r hr
    rcases hm.phase_cases hgj with ⟨rfl, rfl⟩ | ⟨hne, hgj⟩
    · rcases settled_or_settling hm.next hr with ⟨hold, hstart⟩ | hsettling
      · obtain ⟨hserial, hproc, hsettled⟩ := hc.settled _ g hm.before r hold
        exact ⟨by omega, hproc, (change_of_moved hm).settled hserial hstart hsettled⟩
      · obtain ⟨hrunner, ⟨a⟩⟩ := runner_of_settling hsettling
        have hmem : r ∈ g.opened := (allows_of_answer hm a).runner r hrunner
        obtain ⟨hserial, hproc⟩ := hc.opened _ g hm.before r hmem
        exact ⟨by omega, hproc, settled_of_settling hc.orderly hsettling hm.answers⟩
    · obtain ⟨hserial, hproc, hsettled⟩ := hc.settled j gj hgj r hr
      refine ⟨by omega, hproc, (change_of_moved hm).settled hserial ?_ hsettled⟩
      rintro rfl
      have hmem : r ∈ g.opened := (allows_of_answer hm ()).runner r rfl
      exact hne (hproc.symm.trans (hc.opened i g hm.before r hmem).2)
  orderly := (change_of_moved hm).orderly hc.orderly (released_settled hc hm)

theorem transacted {P : Guard (World D) (Call H) (Resp R) E A (Task H R E A) (Choice X) V}
    (h : Reach (rlsSystem B A) Initial P c) : Transacted c := by
  refine Reach.invariant (runnerMonitor_sound B) ?_ ?_ ?_ ?_ h
  · intro w hw
    have hphase : ∀ i, runnerPhase (.initial w : Pool D H R E A) i = none := fun i =>
      Monitor.phase_none (Nat.zero_le i)
    constructor
    · intro i g hg
      cases (hphase i).symm.trans hg
    · intro i g hg
      cases (hphase i).symm.trans hg
    · constructor <;>
        · intro k hk
          rw [Config.initial, hw.connections] at hk
          cases hk
  · intro c t hr hc _ _
    exact hc.start (hr.logOk (runnerMonitor_sound B)) [t] rfl rfl rfl
  · intro c v w ts hr hc _ hv
    cases hv
    exact hc.start (hr.logOk (runnerMonitor_sound B)) [] rfl rfl rfl
  · intro c c' i call res g g' _ hc _ hm
    exact hc.move hm

end

end LmsBackend.Rls
