import LmsBackend.Exams.OneAttempt

/-!
# One ACTIVE session

`startExam` looks for an ACTIVE session before its transaction, and the
transaction only locks the code. Two starts with two codes can both look first
and commit afterwards.
-/

open Async Store

namespace LmsBackend.Exams

def Write.newSession? : Write → Option TestSession
  | .newSession row => some row
  | _ => none

/-- A start commits its session only if every ACTIVE session of the student for the exam was there
when it looked for one. -/
def CommitsFirst (c : Pool) : PoolLabel → Prop
  | .run i _ => c.next? i = some .commitTransaction → ∀ t ∈ c.world.txns.get i,
      ∀ session ∈ t.writes.filterMap Write.newSession?,
      ∀ s ∈ c.world.activeSessions (some session.userId) session.examId, ∀ e ∈ c.log, e.proc = i →
        e.call = .testSessionFindActive (some session.userId) session.examId →
        s.id ∈ e.before.issued
  | _ => True

instance : ∀ c l, Decidable (CommitsFirst c l) := fun c l =>
  match l with
  | .run i _ => inferInstanceAs (Decidable (_ → ∀ t ∈ c.world.txns.get i, _))
  | .spawn _ | .fail _ | .env _ => .isTrue trivial

/-- The student and the exam of a start that has looked and not yet committed. -/
def Phase.window : Phase → Option (Id × Id)
  | .guarded userId examId _ | .consuming userId examId _ | .consumed userId examId _ _ =>
    some (userId, examId)
  | .inserted _ session => some (session.userId, session.examId)
  | _ => none

/-- The calls with which a start comes to the student and the exam of its window. -/
inductive Looks : Phase → (c : Call) → Resp c → Id × Id → Prop where
  | look {userId examId : Id} {codes : List ExamAccessCode} {seen : Option Time} :
      Looks (.candidates userId examId codes seen) (.testSessionFindActive (some userId) examId)
        none (userId, examId)
  | save {userId examId : Id} {codes : List ExamAccessCode} {code : Id} {row session : TestSession}
      (hexam : row.examId = examId) :
      Looks (.consumed userId examId codes code) (.txSaveTestSession (some userId) row) session
        (session.userId, session.examId)

structure OneActive (c : Pool) : Prop where
  logged : ∀ e ∈ c.log, ∀ id ∈ e.before.issued, id ∈ c.world.issued
  looked : ∀ i g userId examId, monitor.phase c i = some g → g.window = some (userId, examId) →
    ∃ e ∈ c.log, e.proc = i ∧ e.call = .testSessionFindActive (some userId) examId ∧
      ∀ s ∈ c.world.activeSessions (some userId) examId, s.id ∉ e.before.issued
  once : ∀ userId examId, ∀ s ∈ c.world.activeSessions (some userId) examId,
    ∀ t ∈ c.world.activeSessions (some userId) examId, s = t

variable {c c' : Pool} {i : Nat} {w w' : World} {g g' : Phase} {call : Call}
  {r : Except Err (Resp call)} {userId examId : Id} {s t : TestSession}

theorem mem_activeSessions : s ∈ w.activeSessions (some userId) examId ↔
    w.sessions.get s.id = some s ∧ s.userId = userId ∧ s.examId = examId ∧ s.status = .active := by
  rw [World.activeSessions, List.mem_filter]
  simp only [Option.all_some, decide_eq_true_eq]
  rw [show s ∈ w.sessions.rows ↔ _ from Table.mem_rows_iff]
  rfl

theorem activeSessions_congr (h : w'.tables = w.tables) :
    w'.activeSessions (some userId) examId = w.activeSessions (some userId) examId := by
  have hsessions : w'.sessions = w.sessions := congrArg Tables.sessions h
  rw [World.activeSessions, World.activeSessions, hsessions]

/-- An ACTIVE session was ACTIVE before, or a start has just committed it. -/
theorem DbStep.active (h : DbStep i w w' g call r)
    (hs : s ∈ w'.activeSessions (some userId) examId) :
    (∃ s₀ ∈ w.activeSessions (some userId) examId, s₀.id = s.id) ∨
      call = .commitTransaction ∧ s.id ∉ w.issued ∧ ∃ code, g = .inserted code s := by
  obtain ⟨hget, huser, hexam, hactive⟩ := mem_activeSessions.mp hs
  obtain ⟨-, hrow⟩ := h.row hget
  cases hrow with
  | same h => exact .inl ⟨s, mem_activeSessions.mpr ⟨h, huser, hexam, hactive⟩, rfl⟩
  | start hfresh => exact .inr ⟨rfl, hfresh, _, rfl⟩
  | submit d attempt row _ _ _ _ he =>
    rw [he] at hactive
    exact absurd hactive (by cases d.status <;> simp [TestSession.moved, AttemptStatus.session])
  | mark session row _ he =>
    rw [he] at hactive
    cases hactive
  | mirror session row answers hrow he =>
    have hid : row.id = s.id := Table.key_of_get hrow
    refine .inl ⟨row, mem_activeSessions.mpr ⟨hid ▸ hrow, ?_⟩, hid⟩
    rw [he] at huser hexam hactive
    exact ⟨huser, hexam, hactive⟩

theorem window_next {a : Resp call} {k : Id × Id} (hn : g.nextOk call a = some g')
    (hw : g'.window = some k) : g.window = some k ∨ Looks g call a k := by
  cases call with
  | testSessionFindActive userId? examId' =>
    cases g with
    | candidates userId examId codes seen =>
      simp only [Phase.nextOk] at hn
      split at hn
      · rename_i heq
        obtain ⟨rfl, rfl⟩ := heq
        split at hn
        · cases hn
          cases hw
          exact .inr .look
        · cases hn
          cases hw
      · cases hn
    | quiet => cases hn; cases hw
    | _ => cases hn
  | txSaveTestSession userId? row =>
    cases g with
    | consumed userId examId codes code =>
      simp only [Phase.nextOk] at hn
      split at hn
      · rename_i heq
        obtain ⟨rfl, -, hexam, -⟩ := heq
        cases hn
        cases hw
        exact .inr (.save hexam)
      · cases hn
    | _ => cases hn
  | testSessionFindOne id =>
    left
    simp only [Phase.nextOk, Phase.read] at hn
    repeat' split at hn
    all_goals first | (cases hn; done) | (cases hn; cases hw)
  | _ =>
    left
    simp only [Phase.nextOk] at hn
    repeat' split at hn
    all_goals first | (cases hn; done) | (cases hn; exact hw) | (cases hn; cases hw)

theorem window_failed (g : Phase) (call : Call) : (g.failed call).window = none := by
  unfold Phase.failed
  repeat' split
  all_goals rfl

theorem start_window (t : Task) : (Phase.start t).window = none := by
  cases t with
  | handleExpiry type sessionId => cases type <;> rfl
  | _ => rfl

section

variable [Bcrypt]

theorem Looks.window {a : Resp call} {k : Id × Id} (h : Looks g call a k)
    (ha : Answered examSystem i call w (.ok a) w') :
    g.window = some k ∨ call = .testSessionFindActive (some k.1) k.2 ∧ w' = w ∧
      w.activeSessions (some k.1) k.2 = [] := by
  cases ha with
  | exec hx =>
    cases h with
    | look =>
      have hx : exec i (.testSessionFindActive _ _) _ w = some (w', .ok none) := hx
      refine .inr ⟨rfl, exec_reads rfl hx, ?_⟩
      simp only [exec] at hx
      split at hx
      · assumption
      · obtain ⟨row, -, hrow⟩ := Option.map_eq_some_iff.mp hx
        simp at hrow
    | save hexam =>
      have hx : exec i (.txSaveTestSession _ _) _ w = some (w', .ok _) := hx
      obtain ⟨t, -, hx⟩ := inTxn_ok hx
      simp only at hx
      split at hx <;> cases hx
      left
      rw [Phase.window, hexam]

variable {P : Guard World Call Resp Err Reply Task Choice EnvEvent}

/-- A start that comes to its window has just looked, and found no ACTIVE session. -/
theorem Moved.window (hm : Moved monitor examSystem c c' i call r g g')
    (hw : g'.window = some (userId, examId)) :
    g.window = some (userId, examId) ∨ call = .testSessionFindActive (some userId) examId ∧
      c'.world = c.world ∧ c.world.activeSessions (some userId) examId = [] := by
  have hn := hm.next
  cases r with
  | error e =>
    cases hn
    rw [monitor_failed, window_failed] at hw
    cases hw
  | ok a =>
    rcases window_next hn hw with h | h
    · exact .inl h
    · exact h.window hm.answers

theorem OneActive.move (hb : Base c) (hI : OneActive c)
    (hP : Reach.Allowed examSystem CommitsFirst c i call r c'.world)
    (hm : Moved monitor examSystem c c' i call r g g')
    (hdb : DbStep i c.world c'.world g call r) : OneActive c' := by
  have hlog : ∀ e ∈ c.log, e ∈ c'.log := fun e he => by
    rw [hm.log]
    exact List.mem_append_left _ he
  -- What a start has not seen, it does not see later: new sessions have new ids.
  have hunseen : ∀ e ∈ c.log, ∀ userId examId,
      (∀ s ∈ c.world.activeSessions (some userId) examId, s.id ∉ e.before.issued) →
      ∀ s ∈ c'.world.activeSessions (some userId) examId, s.id ∉ e.before.issued := by
    intro e he userId examId hold s hs
    rcases hdb.active hs with ⟨s₀, hs₀, hid⟩ | ⟨-, hfresh, -⟩
    · rw [← hid]
      exact hold s₀ hs₀
    · exact fun hseen => hfresh (hI.logged e he _ hseen)
  refine ⟨fun e he id hid => ?_, fun j gj userId examId hj hw => ?_, ?_⟩
  · rw [hm.log] at he
    rcases List.mem_append.mp he with he | he
    · exact hdb.issued_mono (hI.logged e he id hid)
    · obtain rfl := List.mem_singleton.mp he
      exact hdb.issued_mono hid
  · have hkept : ∀ g₀, monitor.phase c j = some g₀ → g₀.window = some (userId, examId) →
        ∃ e ∈ c'.log, e.proc = j ∧ e.call = .testSessionFindActive (some userId) examId ∧
          ∀ s ∈ c'.world.activeSessions (some userId) examId, s.id ∉ e.before.issued := by
      intro g₀ hg₀ hw
      obtain ⟨e, he, hproc, hcall, hold⟩ := hI.looked j g₀ userId examId hg₀ hw
      exact ⟨e, hlog e he, hproc, hcall, hunseen e he userId examId hold⟩
    rcases hm.phase_cases hj with ⟨rfl, rfl⟩ | ⟨-, hj⟩
    · rcases Moved.window hm hw with hw | ⟨hcall, hworld, hnone⟩
      · exact hkept g hm.before hw
      · refine ⟨_, by rw [hm.log]; exact List.mem_append_right _ (.head _), rfl, hcall, ?_⟩
        rw [hworld, hnone]
        intro s hs
        cases hs
    · exact hkept gj hj hw
  · cases r with
    | error e =>
      intro userId examId s hs t ht
      rw [activeSessions_congr hdb.error] at hs ht
      exact hI.once userId examId s hs t ht
    | ok a =>
      -- A start that commits next to an ACTIVE session has seen it, by the guard; but it has not.
      have hnew : ∀ userId examId s code,
          s ∈ c'.world.activeSessions (some userId) examId → call = .commitTransaction →
          g = .inserted code s → ∀ t₀ ∈ c.world.activeSessions (some userId) examId, False := by
        rintro userId examId s code hs rfl rfl t₀ ht₀
        obtain ⟨-, rfl, rfl, -⟩ := mem_activeSessions.mp hs
        obtain ⟨e, he, hproc, hcall, hold⟩ := hI.looked i _ _ _ hm.before rfl
        obtain ⟨⟨row, usedAt, -, -, htxn, -⟩, -⟩ := hb.holds i _ hm.before
        obtain ⟨x, hguard⟩ := hP.guard
        exact hold t₀ ht₀ (hguard hm.waits _ htxn s (by simp [Write.newSession?]) t₀ ht₀ e he hproc
          hcall)
      intro userId examId s hs t ht
      rcases hdb.active hs with ⟨s₀, hs₀, hid⟩ | ⟨hcall, -, code, hg⟩ <;>
        rcases hdb.active ht with ⟨t₀, ht₀, hid'⟩ | ⟨hcall', -, code', hg'⟩
      · have hsame := hI.once userId examId s₀ hs₀ t₀ ht₀
        have hget := (mem_activeSessions.mp hs).1
        rw [← hid, hsame, hid', (mem_activeSessions.mp ht).1] at hget
        exact (Option.some.inj hget).symm
      · exact (hnew userId examId t code' ht hcall' hg' s₀ hs₀).elim
      · exact (hnew userId examId s code hs hcall hg t₀ ht₀).elim
      · rw [hg] at hg'
        injection hg'

theorem Reachable.oneActive (h : Reachable CommitsFirst c) : OneActive c := by
  have hstart : ∀ (c : Pool) (ts : List Task) (w : World), c.LogOk → OneActive c →
      w.tables = c.world.tables → OneActive (c.start examSystem ts w) := by
    intro c ts w hlog hI hw
    have hactive : ∀ userId examId, (c.start examSystem ts w).world.activeSessions (some userId) examId
        = c.world.activeSessions (some userId) examId := fun _ _ => activeSessions_congr hw
    refine ⟨fun e he id hid => ?_, fun j g userId examId hj hwin => ?_, fun userId examId => ?_⟩
    · rw [Config.start_world, show w.issued = c.world.issued from congrArg Tables.issued hw]
      exact hI.logged e he id hid
    · rcases Monitor.phase_start_cases hlog hj with hj | ⟨-, t, -, rfl⟩
      · rw [hactive]
        exact hI.looked j g userId examId hj hwin
      · rw [monitor_start, start_window] at hwin
        cases hwin
    · rw [hactive]
      exact hI.once userId examId
  refine Reach.invariant monitor_sound ?_ ?_ ?_ ?_ h
  · intro w hw
    have hnone : ∀ userId examId, w.activeSessions (some userId) examId = [] := fun _ _ => by
      simp [World.activeSessions, hw.sessions]
    refine ⟨fun e he => (by cases he), fun j g _ _ hj => ?_, fun userId examId s hs => ?_⟩
    · exact absurd (Monitor.lt_of_phase hj) (Nat.not_lt_zero j)
    · rw [Config.initial, hnone] at hs
      cases hs
  · intro c t hr hI _ _
    exact hstart c [t] _ (hr.logOk monitor_sound) hI rfl
  · intro c v w ts hr hI _ hv
    exact hstart c ts w (hr.logOk monitor_sound) hI (envStep_db hv).1
  · intro c c' i call r g g' hr hI hP hm
    have hb := Reachable.base hr
    exact hI.move hb hP hm (hb.db hm)

/-- While every start that commits next to an ACTIVE session of the student for the exam had that
session to see when it looked, no student has two ACTIVE sessions for an exam. -/
theorem active_at_most_one (h : Reachable CommitsFirst c) :
    ∀ s ∈ c.world.sessions.rows, ∀ t ∈ c.world.sessions.rows, s.status = .active →
      t.status = .active → s.userId = t.userId → s.examId = t.examId → s = t := by
  intro s hs t ht hsa hta huser hexam
  exact h.oneActive.once t.userId t.examId s
    (mem_activeSessions.mpr ⟨Table.mem_rows_iff.mp hs, huser, hexam, hsa⟩) t
    (mem_activeSessions.mpr ⟨Table.mem_rows_iff.mp ht, rfl, rfl, hta⟩)

end

/-! ### The school -/

/-- Process `i` gives the student a second code, "L". -/
def assignsSecond (i : Nat) : List PoolLabel :=
  .spawn (.assignExam "u" "e" "c") :: List.replicate 5 (.run i "L")

set_option maxRecDepth 100000 in
/-- A second session "T" after the first one has been submitted. -/
theorem active_at_most_one_again :
    ∃ c, @Reachable plainBcrypt CommitsFirst c ∧
      (∃ s ∈ c.world.sessions.rows, s.id = "T" ∧ s.status = .active) ∧
      ∀ s ∈ c.world.sessions.rows, ∀ t ∈ c.world.sessions.rows, s.status = .active →
        t.status = .active → s.userId = t.userId → s.examId = t.examId → s = t := by
  obtain ⟨c, hc, hp⟩ := exists_reachable (P := CommitsFirst)
    (starts ++ .spawn (.submitExam "S" "u" []) :: calls 1 9 ++ assignsSecond 2 ++
      .spawn (.startExam "u" "L" "e") :: List.replicate 13 (.run 3 "T"))
    (p := fun c => ∃ s ∈ c.world.sessions.rows, s.id = "T" ∧ s.status = .active) (by decide)
  exact ⟨c, hc, hp, @active_at_most_one c plainBcrypt hc⟩

set_option maxRecDepth 100000 in
/-- A start with the second code (process 2) has looked when one with the first (process 1) begins,
and commits after it. -/
theorem active_twice :
    ¬∀ c, @Reachable plainBcrypt anyStep c → ∀ s ∈ c.world.sessions.rows,
      ∀ t ∈ c.world.sessions.rows, s.status = .active → t.status = .active →
        s.userId = t.userId → s.examId = t.examId → s = t := by
  intro hall
  obtain ⟨c, hc, s, hs, t, ht, hsa, hta, huser, hexam, hne⟩ := exists_reachable (P := anyStep)
    (assignsSecond 0 ++ .spawn (.startExam "u" "key" "e") :: .spawn (.startExam "u" "L" "e") ::
      List.replicate 7 (.run 2 "T") ++ calls 1 13 ++ List.replicate 8 (.run 2 "T"))
    (p := fun c => ∃ s ∈ c.world.sessions.rows, ∃ t ∈ c.world.sessions.rows, s.status = .active ∧
      t.status = .active ∧ s.userId = t.userId ∧ s.examId = t.examId ∧ s ≠ t) (by decide)
  exact hne (hall c hc s hs t ht hsa hta huser hexam)

end LmsBackend.Exams
