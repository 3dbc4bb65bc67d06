import LmsBackend.Rls.Transactions

/-!
# No context leaks

A connection has the student of the runner that holds it, or none, and an idle
one has no transaction open. So a statement finds rows of that student only, and
one of a repository finds none.
-/

open Async Store

namespace LmsBackend.Rls

variable {D H : Type} {R : H → Type} {E X V A : Type}

/-- Whose rows of the protected tables the statement has found. -/
def Statement.owners : (s : Statement H) → s.Resp R → List Id
  | .select t _, rows => List.map t.userId rows
  | .insert t _, rows => List.map t.userId rows
  | .update t _ _, rows => List.map t.userId rows
  | .delete t _, rows => List.map t.userId rows
  | _, _ => []

/-- The policies let a statement find rows of the current user only. -/
theorem run_owners {B : Backend D H R E X V} {setting : String → Option String} {s : Statement H}
    {x : X} {d d' : Data D} {a : s.Resp R} (h : d.run B setting s x = some (d', .ok a)) :
    ∀ userId ∈ s.owners a, nullif (setting currentUserId) = some userId := by
  have hfound : ∀ (t : Protected) (rows : List t.Row) (cond : t.Row → Bool), ∀ userId ∈
      (rows.filter fun row => t.admits setting row && cond row).map t.userId,
      nullif (setting currentUserId) = some userId := by
    intro t rows cond userId hmem
    obtain ⟨row, hrow, rfl⟩ := List.mem_map.mp hmem
    have hadmits := (Bool.and_eq_true _ _ ▸ (List.mem_filter.mp hrow).2).1
    exact of_decide_eq_true hadmits
  cases s with
  | select t cond =>
    cases h
    exact hfound t _ cond
  | insert t row =>
    simp only [Data.run] at h
    split at h
    · cases h
      intro userId hmem
      rw [List.mem_singleton.mp hmem]
      exact of_decide_eq_true ‹_›
    · cases h
  | update t cond set =>
    simp only [Data.run] at h
    split at h
    · cases h
      exact hfound t _ cond
    · cases h
  | delete t cond =>
    cases h
    exact hfound t _ cond
  | _ => exact fun userId hmem => absurd hmem List.not_mem_nil

/-! ## Every statement of a run -/

abbrev RlsEvent (D H : Type) (R : H → Type) (E : Type) := Event (World D) (Call H) (Resp R) E

/-- The statements so far have found what they may. -/
structure Isolated (c : Pool D H R E A) : Prop where
  /-- On a runner: rows of its student. -/
  query : ∀ i r s (a : s.Resp R) w w',
    (⟨i, .query r s, .ok a, w, w'⟩ : RlsEvent D H R E) ∈ c.log →
    ∀ userId ∈ s.owners a, r.purpose.student? = some userId
  /-- The runner of a request is for the user of that request. -/
  request : ∀ i r s (a : s.Resp R) w w',
    (⟨i, .query r s, .ok a, w, w'⟩ : RlsEvent D H R E) ∈ c.log →
    ∀ user, r.purpose = .request user → (c.task? i).bind Task.user? = some user
  repository : ∀ i s (a : s.Resp R) w w',
    (⟨i, .repository s, .ok a, w, w'⟩ : RlsEvent D H R E) ∈ c.log → s.owners a = []

section

variable {B : Backend D H R E X V} {w w' : World D} {i : Nat} {s : Statement H} {x : Choice X}
  {a : s.Resp R}

theorem query_owners {r : QueryRunner} (hw : ∀ k ∈ w.connections.rows, Owned k)
    (h : exec B i (.query r s) x w = some (w', .ok a)) :
    ∀ userId ∈ s.owners a, r.purpose.student? = some userId := by
  intro userId hmem
  simp only [exec, World.onRunner] at h
  split at h
  · cases h
  · rename_i k hheld
    obtain ⟨hget, hlease⟩ := Connections.held?_eq_some_iff.mp hheld
    split at h
    · cases h
    · obtain ⟨⟨data, a⟩, hrun, h⟩ := Option.map_eq_some_iff.mp h
      cases h
      obtain ⟨l, hl, hstudent⟩ :=
        hw k (Table.get_some_iff.mp hget).1 userId (run_owners hrun userId hmem)
      cases hlease.symm.trans hl
      exact hstudent

theorem repository_owners (hw : Orderly w)
    (h : exec B i (.repository s) x w = some (w', .ok a)) : s.owners a = [] := by
  obtain ⟨k, htake, h⟩ := Option.bind_eq_some_iff.mp h
  split at h
  · cases h
  · obtain ⟨⟨data, a⟩, hrun, h⟩ := Option.map_eq_some_iff.mp h
    cases h
    have hclosed := Connections.closed_of_take hw.idle htake
    refine List.eq_nil_iff_forall_not_mem.mpr fun userId hmem => ?_
    have hnone := Connection.nullif_setting_of_closed hclosed currentUserId
    cases hnone.symm.trans (run_owners hrun userId hmem)

end

section

variable {B : Backend D H R E X V} {c : Pool D H R E A}

/-- The runner of a request that a process has open is for the user of its task. -/
theorem request_of_opened {i : Nat} {g : Phase}
    (hg : runnerPhase c i = some g)
    {r : QueryRunner} (hr : r ∈ g.opened) {user : AuthenticatedUser}
    (hpurpose : r.purpose = .request user) : (c.task? i).bind Task.user? = some user := by
  obtain ⟨t, ht⟩ := Monitor.task_of_phase hg
  obtain ⟨huser, hopened⟩ := Monitor.phase_always ht hg
    (p := fun g => g.user = t.user? ∧
      ∀ r ∈ g.opened, ∀ user, r.purpose = .request user → g.user = some user)
    ⟨rfl, fun r hr => absurd hr List.not_mem_nil⟩ fun g call res g' ⟨huser, hopened⟩ h => by
      cases res with
      | error e =>
        obtain rfl := advance_error h
        rw [Phase.failed_user]
        exact ⟨huser, fun r hr => hopened r (Phase.failed_opened hr)⟩
      | ok a =>
        obtain ⟨hallows, rfl⟩ := advance_ok h
        rw [Phase.after_user]
        refine ⟨huser, fun r hr user hpurpose => ?_⟩
        rcases Phase.after_opened hr with hr | rfl
        · exact hopened r hr user hpurpose
        · exact (hallows.request user (by rw [hpurpose])).2
  rw [ht, Option.bind_some, ← huser]
  exact hopened r hr user hpurpose

/-- The invariant. -/
structure Guarded (c : Pool D H R E A) : Prop where
  owned : ∀ k ∈ c.world.connections.rows, Owned k
  isolated : Isolated c

theorem Guarded.start (hc : Guarded c) (ts : List (Task H R E A)) {w : World D}
    (hw : w.connections = c.world.connections) : Guarded (c.start (rlsSystem B A) ts w) where
  owned := by
    rw [Config.start_world, hw]
    exact hc.owned
  isolated :=
    { query := hc.isolated.query
      repository := hc.isolated.repository
      request := fun i r s a w w' he user hpurpose => by
        obtain ⟨t, ht, huser⟩ :=
          Option.bind_eq_some_iff.mp (hc.isolated.request i r s a w w' he user hpurpose)
        rw [Config.task?_start _ _ ht]
        exact huser }

theorem Guarded.move (hc : Guarded c) (htransacted : Transacted c) {c' : Pool D H R E A} {i : Nat}
    {call : Call H} {res : Except E (Resp R call)} {g g' : Phase}
    (hm : RunnerMoved B c c' i call res g g') : Guarded c' where
  owned := (change_of_moved hm).owned (proper_of_moved hm) htransacted.orderly
    (released_settled htransacted hm) hc.owned
  isolated := by
    have hlog : ∀ e : RlsEvent D H R E, e ∈ c'.log → e ∈ c.log ∨ e = ⟨i, call, res, c.world, c'.world⟩ :=
      fun e he => by simpa [hm.log] using he
    refine ⟨fun j r s a w w' he => ?_, fun j r s a w w' he user hpurpose => ?_,
      fun j s a w w' he => ?_⟩
    · rcases hlog _ he with he | he
      · exact hc.isolated.query j r s a w w' he
      · cases he
        cases hm.answers with
        | exec h =>
          rw [rlsSystem_exec] at h
          exact query_owners hc.owned h
    · rw [hm.task]
      rcases hlog _ he with he | he
      · exact hc.isolated.request j r s a w w' he user hpurpose
      · cases he
        exact request_of_opened hm.before ((advance_ok hm.next).1.runner r rfl) hpurpose
    · rcases hlog _ he with he | he
      · exact hc.isolated.repository j s a w w' he
      · cases he
        cases hm.answers with
        | exec h =>
          rw [rlsSystem_exec] at h
          exact repository_owners htransacted.orderly h

theorem guarded (h : Reach (rlsSystem B A) Initial anyStep c) : Guarded c := by
  refine Reach.invariant (runnerMonitor_sound B) ?_ ?_ ?_ ?_ h
  · intro w hw
    refine ⟨fun k hk => ?_, ⟨?_, ?_, ?_⟩⟩
    · rw [Config.initial, hw.connections] at hk
      cases hk
    · intro i r s a w w' he
      cases he
    · intro i r s a w w' he
      cases he
    · intro i s a w w' he
      cases he
  · intro c t _ hc _ _
    exact hc.start [t] rfl
  · intro c v w ts _ hc _ hv
    cases hv
    exact hc.start [] rfl
  · intro c c' i call r g g' hr hc _ hm
    exact hc.move (transacted hr) hm

theorem rls_isolated (h : Reach (rlsSystem B A) Initial anyStep c) : Isolated c :=
  (guarded h).isolated

end

/-- Asks for every purchase that there is. -/
def allPurchases : Handler Empty (fun _ => Unit) String (List Content.StudentPurchase) :=
  Prog.await (HandlerCall.rls (.select .studentPurchases fun _ => true))

/-- Two students, one after the other on one connection. -/
def twoStudents :
    List (Label (Task Empty (fun _ => Unit) String (List Content.StudentPurchase)) (Choice Unit) Unit) :=
  .spawn (.request (studentRequest "a") allPurchases) :: List.replicate 8 (go 0 0) ++
    .spawn (.request (studentRequest "b") allPurchases) :: List.replicate 8 (go 1 0)

theorem rls_isolated_two_students :
    ∃ c, Reach (rlsSystem plainBackend (List Content.StudentPurchase)) Initial anyStep c ∧
      c.reply? 0 = some [⟨"a", "psm"⟩] ∧ c.reply? 1 = some [⟨"b", "psm"⟩] ∧ Isolated c := by
  have hrun : ∃ c, runIf (rlsSystem plainBackend (List Content.StudentPurchase)) anyStep twoStudents
      (.initial (plainWorld [⟨"a", "psm"⟩, ⟨"b", "psm"⟩])) = some c ∧
      c.reply? 0 = some [⟨"a", "psm"⟩] ∧ c.reply? 1 = some [⟨"b", "psm"⟩] := ⟨_, rfl, rfl, rfl⟩
  obtain ⟨c, hc, ha, hb⟩ := hrun
  have hreach := runIf_reach (.init (plainWorld_initial _)) hc
  exact ⟨c, hreach, ha, hb, rls_isolated hreach⟩

end LmsBackend.Rls
