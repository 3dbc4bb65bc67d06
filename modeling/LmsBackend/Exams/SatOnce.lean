import LmsBackend.Exams.Codes
import LmsBackend.Exams.RedisSteps

/-!
# An exam is sat once

`assignNextExam` leaves out the exams with an attempt and those with an unused
code. An exam whose code has been used, and that has no attempt yet, is neither,
so a second code for it can be issued.
-/

open Async Store

namespace LmsBackend.Exams

/-- The codes that the student has been given for the exam. -/
def World.codesOf (w : World) (userId examId : Id) : List ExamAccessCode :=
  w.codes.rows.filter fun code => code.userId = userId ∧ code.examId = examId

/-- The attempts of the student for the exam. -/
def attemptsFor (userId examId : Id) (attempts : List AttemptRow) : List AttemptRow :=
  attempts.filter fun a => a.attempt.userId = userId ∧ a.attempt.examId = examId

def Task.startsFor (userId examId : Id) : Task → Bool
  | .startExam userId' _ examId' => userId' = userId ∧ examId' = examId
  | _ => false

/-- A `startExam` of the student for the exam is in flight. -/
def Starting (c : Pool) (userId examId : Id) : Prop :=
  ∃ i < c.procs.length, c.next? i ≠ none ∧ (c.task? i).any (·.startsFor userId examId) = true

instance (c : Pool) (userId examId : Id) : Decidable (Starting c userId examId) :=
  inferInstanceAs (Decidable (∃ i < c.procs.length, _))

/-- A code is issued only when all earlier ones of the student for the exam have expired unused and
no start with one of them is in flight. No session with an attempt is taken back. -/
def IssuesOnce (c : Pool) (l : PoolLabel) : Prop :=
  KeepsDone c l ∧
    match l with
    | .run i _ =>
      match c.next? i with
      | some (.accessCodeSave userId examId _ _ _) =>
        (∀ code ∈ c.world.codesOf userId examId,
          code.usedAt = none ∧ code.expiresAt < c.world.now) ∧ ¬Starting c userId examId
      | some .commitTransaction => ∀ t ∈ c.world.txns.get i, ∀ a ∈ c.world.attempts,
          .dropSession a.session.id ∉ t.writes
      | _ => True
    | _ => True

instance : ∀ c l, Decidable (IssuesOnce c l) := fun c l => by
  refine @instDecidableAnd _ _ inferInstance ?_
  exact match l with
  | .run i _ => by
    dsimp only
    exact match c.next? i with
    | none => .isTrue trivial
    | some call => by casesm Call <;> infer_instance
  | .spawn _ | .fail _ | .env _ => .isTrue trivial

/-- No code has been issued. -/
structure Unissued (w : World) : Prop where
  initial : Initial w
  codes : w.codes.rows = []

/-! ## The codes that a start may still use -/

/-- The student and the exam of a start that has not committed. -/
def Phase.seat : Phase → Option (Id × Id)
  | .looking userId examId | .candidates userId examId _ _ | .guarded userId examId _
  | .consuming userId examId _ | .consumed userId examId _ _ => some (userId, examId)
  | .inserted _ session => some (session.userId, session.examId)
  | _ => none

def Phase.held : Phase → List Id
  | .candidates _ _ codes seen => (usable codes seen).map (·.id)
  | .guarded _ _ codes | .consuming _ _ codes | .consumed _ _ codes _ => codes.map (·.id)
  | .inserted code _ => [code]
  | _ => []

/-- The codes that a start has read. -/
def Phase.looked : Phase → List ExamAccessCode
  | .candidates _ _ codes _ => codes
  | _ => []

/-- The start sees that the code has not expired. -/
inductive Sees : Phase → (c : Call) → Resp c → ExamAccessCode → Prop where
  | now {userId examId : Id} {codes : List ExamAccessCode} {seen : Option Time} {now : Time}
      {code : ExamAccessCode} (hcode : code ∈ codes) (hnow : now ≤ code.expiresAt) :
      Sees (.candidates userId examId codes seen) .now now code

variable {i : Nat} {w w' : World} {g g' : Phase} {call : Call} {r : Except Err (Resp call)}
  {userId examId id : Id}

theorem held_next {a : Resp call} (hn : g.nextOk call a = some g') (hid : id ∈ g'.held) :
    id ∈ g.held ∨ ∃ code, code.id = id ∧ Sees g call a code := by
  cases call with
  | now =>
    cases g with
    | candidates userId examId codes seen =>
      cases hn
      obtain ⟨code, hcode, rfl⟩ := List.mem_map.mp hid
      obtain ⟨hcode, hseen⟩ := List.mem_filter.mp hcode
      exact .inr ⟨code, rfl, .now hcode (by simpa using hseen)⟩
    | _ => first | (cases hn; done) | (cases hn; exact .inl hid)
  | accessCodeFind userId? examId' =>
    cases g with
    | looking userId examId =>
      simp only [Phase.nextOk] at hn
      split at hn <;> cases hn
      simp [Phase.held, Phase.usable] at hid
    | quiet => cases hn; cases hid
    | _ => cases hn
  | txSaveTestSession userId? row =>
    cases g with
    | consumed userId examId codes code =>
      simp only [Phase.nextOk] at hn
      split at hn <;> cases hn
      rename_i h
      obtain ⟨-, -, -, -, -, -, c, hc, hcode, -⟩ := h
      obtain rfl := List.mem_singleton.mp hid
      exact .inl (List.mem_map.mpr ⟨c, hc, hcode⟩)
    | _ => cases hn
  | _ =>
    left
    simp only [Phase.nextOk, Phase.read] at hn
    repeat' split at hn
    all_goals first | (cases hn; done) | (cases hn; exact hid) | (cases hn; cases hid)

theorem held_failed (g : Phase) (call : Call) : (g.failed call).held = [] := by
  unfold Phase.failed
  repeat' split
  all_goals rfl

theorem start_held (t : Task) : (Phase.start t).held = [] := by
  cases t with
  | handleExpiry type sessionId => cases type <;> rfl
  | _ => rfl

theorem start_looked (t : Task) : (Phase.start t).looked = [] := by
  cases t with
  | handleExpiry type sessionId => cases type <;> rfl
  | _ => rfl

theorem start_seat {t : Task} (h : (Phase.start t).seat = some (userId, examId)) :
    t.startsFor userId examId = true := by
  cases t with
  | handleExpiry type sessionId => cases type <;> cases h
  | startExam => cases h; simp [Task.startsFor]
  | _ => cases h

theorem seat_failed (g : Phase) (call : Call) : (g.failed call).seat = none := by
  unfold Phase.failed
  repeat' split
  all_goals rfl

/-- A start does not change its student and its exam. -/
theorem seat_next [Bcrypt] {a : Resp call} {k : Id × Id} (hn : g.nextOk call a = some g')
    (ha : Answered examSystem i call w (.ok a) w') (hk : g'.seat = some k) : g.seat = some k := by
  cases call with
  | txSaveTestSession userId? row =>
    cases g with
    | consumed userId examId codes code =>
      simp only [Phase.nextOk] at hn
      split at hn <;> cases hn
      rename_i h
      obtain ⟨rfl, -, hexam, -⟩ := h
      cases ha with
      | exec hx =>
        have hx : exec i (.txSaveTestSession _ _) _ w = some (w', .ok _) := hx
        obtain ⟨t, -, hx⟩ := inTxn_ok hx
        simp only at hx
        split at hx <;> cases hx
        rw [← hk, Phase.seat, Phase.seat, hexam]
    | _ => cases hn
  | _ =>
    simp only [Phase.nextOk, Phase.read] at hn
    repeat' split at hn
    all_goals first | (cases hn; done) | (cases hn; exact hk) | (cases hn; cases hk)

/-- A code that a start holds is one of its student for its exam. -/
theorem seat_of_held (hg : g.Holds i w) (hid : id ∈ g.held) {code : ExamAccessCode}
    (hcode : w.codes.get id = some code) : g.seat = some (code.userId, code.examId) := by
  have hknown : ∀ userId examId (codes : List ExamAccessCode),
      (∀ c ∈ codes, CodeKnown userId examId c w.tables) → id ∈ codes.map (·.id) →
      (userId, examId) = (code.userId, code.examId) := by
    rintro userId examId codes hcodes hid
    obtain ⟨c, hc, rfl⟩ := List.mem_map.mp hid
    obtain ⟨row, hrow, rfl, rfl, -⟩ := hcodes c hc
    cases hcode.symm.trans hrow
    rfl
  cases g with
  | candidates userId examId codes seen =>
    refine congrArg some (hknown _ _ codes hg.2 ?_)
    obtain ⟨c, hc, rfl⟩ := List.mem_map.mp hid
    exact List.mem_map_of_mem (List.mem_filter.mp hc).1
  | guarded userId examId codes => exact congrArg some (hknown _ _ codes hg.2 hid)
  | consuming userId examId codes => exact congrArg some (hknown _ _ codes hg.2 hid)
  | consumed userId examId codes code' => exact congrArg some (hknown _ _ codes hg.2 hid)
  | inserted code' session =>
    obtain rfl := List.mem_singleton.mp hid
    obtain ⟨⟨row, usedAt, hrow, -, -, hmatch⟩, -⟩ := hg
    cases hcode.symm.trans hrow
    rw [Phase.seat, hmatch.1, hmatch.2.1]
  | _ => cases hid

/-! ## Open codes -/

/-- The code has been used, or can still be. -/
def Open (c : Pool) (code : ExamAccessCode) : Prop :=
  code.usedAt ≠ none ∨ c.world.now ≤ code.expiresAt ∨
    ∃ i g, c.next? i ≠ none ∧ monitor.phase c i = some g ∧ code.id ∈ g.held

structure OneOpen (c : Pool) : Prop where
  seated : ∀ i g userId examId, monitor.phase c i = some g → g.seat = some (userId, examId) →
    (c.task? i).any (·.startsFor userId examId) = true
  looked : ∀ i g, monitor.phase c i = some g → ∀ code ∈ g.looked,
    ∃ row, c.world.codes.get code.id = some row ∧ row.expiresAt = code.expiresAt
  once : ∀ userId examId, ∀ k ∈ c.world.codesOf userId examId,
    ∀ l ∈ c.world.codesOf userId examId, Open c k → Open c l → k.id = l.id
  rows : ∀ a ∈ c.world.attempts, ∃ row, c.world.sessions.get a.session.id = some row ∧
    a.attempt.userId = row.userId ∧ a.attempt.examId = row.examId

theorem mem_codesOf {code : ExamAccessCode} : code ∈ w.codesOf userId examId ↔
    w.codes.get code.id = some code ∧ code.userId = userId ∧ code.examId = examId := by
  rw [World.codesOf, List.mem_filter]
  simp only [decide_eq_true_eq]
  rw [show code ∈ w.codes.rows ↔ _ from Table.mem_rows_iff]
  rfl

theorem envStep_now {v : EnvEvent} {ts : List Task} (h : envStep v w = some (w', ts)) :
    w.now ≤ w'.now := by
  cases v with
  | tick ms =>
    cases h
    exact Int.le_add_of_nonneg_right (Int.natCast_nonneg ms)
  | deliver key => simp only [envStep] at h; split at h <;> cases h; exact le_refl _
  | redeliver key => simp only [envStep] at h; split at h <;> cases h; exact le_refl _
  | lose key => simp only [envStep] at h; split at h <;> cases h; exact le_refl _

section

variable [Bcrypt] {c c' : Pool} {k l code : ExamAccessCode}

/-- The codes that a start looks at are those of the table. -/
theorem looked_next {a : Resp call} (hn : g.nextOk call a = some g')
    (ha : Answered examSystem i call w (.ok a) w') (hcode : code ∈ g'.looked) :
    code ∈ g.looked ∨ w' = w ∧ w.codes.get code.id = some code := by
  cases call with
  | accessCodeFind userId? examId' =>
    cases g with
    | looking userId examId =>
      simp only [Phase.nextOk] at hn
      split at hn <;> cases hn
      cases ha with
      | @exec x _ _ hx =>
        have hx : exec i (.accessCodeFind userId? examId') x w = some (w', .ok a) := hx
        refine .inr ⟨exec_reads rfl hx, ?_⟩
        simp only [exec, Option.some.injEq, Prod.mk.injEq, Except.ok.injEq] at hx
        rw [← hx.2] at hcode
        have hmem := (List.mem_insertionSort _).mp hcode
        exact Table.mem_rows_iff.mp (List.mem_filter.mp hmem).1
    | quiet => cases hn; cases hcode
    | _ => cases hn
  | _ =>
    left
    simp only [Phase.nextOk, Phase.read] at hn
    repeat' split at hn
    all_goals first | (cases hn; done) | (cases hn; exact hcode) | (cases hn; cases hcode)

omit [Bcrypt] in
theorem looked_failed (g : Phase) (call : Call) : (g.failed call).looked = [] := by
  unfold Phase.failed
  repeat' split
  all_goals rfl

/-- The new code is the one that the call says. -/
theorem issued_code {certId : Id} {tokenHash : String} {expiresAt : Time}
    (h : Answered examSystem i (.accessCodeSave userId examId certId tokenHash expiresAt) w (.ok ())
      w') :
    ∃ code, w.codes.get code.id = none ∧ code.userId = userId ∧ code.examId = examId ∧
      w'.codes = w.codes.put code := by
  cases h with
  | @exec x _ _ hx =>
    have hx : exec i (.accessCodeSave userId examId certId tokenHash expiresAt) x w =
      some (w', .ok ()) := hx
    simp only [exec] at hx
    split at hx
    · cases hx
    · rename_i hnew
      cases hx
      exact ⟨⟨x, userId, examId, certId, tokenHash, expiresAt, none, w.now⟩, by simpa using hnew,
        rfl, rfl, rfl⟩

omit [Bcrypt] in
/-- What a step leaves of a code. Only a start that holds it uses it. -/
theorem DbStep.code_before (h : DbStep i w w' g call r) (hk : w.codes.get id = some k)
    (hl : w'.codes.get id = some l) :
    l.userId = k.userId ∧ l.examId = k.examId ∧ l.expiresAt = k.expiresAt ∧
      (l.usedAt ≠ none → k.usedAt ≠ none ∨ id ∈ g.held) := by
  have hsame : w'.codes = w.codes → l.userId = k.userId ∧ l.examId = k.examId ∧
      l.expiresAt = k.expiresAt ∧ (l.usedAt ≠ none → k.usedAt ≠ none ∨ id ∈ g.held) := by
    intro h
    rw [h, hk] at hl
    cases hl
    exact ⟨rfl, rfl, rfl, .inl⟩
  cases h with
  | same h => exact hsame (congrArg Tables.codes h)
  | issue code hnew _ h =>
    rw [show w'.codes = w.codes.put code from congrArg Tables.codes h, Table.get_put] at hl
    split at hl
    · rename_i hid
      subst hid
      cases hnew.symm.trans hk
    · cases hk.symm.trans hl
      exact ⟨rfl, rfl, rfl, .inl⟩
  | start code session usedAt hcode _ _ _ _ _ _ _ _ h =>
    rw [show w'.codes = w.codes.put { code with usedAt := some usedAt } from
      congrArg Tables.codes h, Table.get_put] at hl
    split at hl
    · rename_i hid
      subst hid
      cases hcode.symm.trans hk
      cases hl
      exact ⟨rfl, rfl, rfl, fun _ => .inr (.head _)⟩
    · cases hk.symm.trans hl
      exact ⟨rfl, rfl, rfl, .inl⟩
  | undo code session row _ _ hcode _ _ _ h =>
    rw [show w'.codes = w.codes.put { code with usedAt := none } from
      congrArg Tables.codes h, Table.get_put] at hl
    split at hl
    · rename_i hid
      subst hid
      cases hcode.symm.trans hk
      cases hl
      exact ⟨rfl, rfl, rfl, fun hused => absurd rfl hused⟩
    · cases hk.symm.trans hl
      exact ⟨rfl, rfl, rfl, .inl⟩
  | submit d attempt row _ _ _ _ _ h => exact hsame (congrArg Tables.codes h)
  | mark _ _ h => exact hsame (congrArg Tables.codes h)
  | mirror _ _ _ h => exact hsame (congrArg Tables.codes h)

omit [Bcrypt] in
theorem DbStep.code_new (h : DbStep i w w' g call r) (hk : w.codes.get id = none)
    (hl : w'.codes.get id = some l) :
    r.isOk = true ∧ ∃ userId examId certId tokenHash expiresAt,
      call = .accessCodeSave userId examId certId tokenHash expiresAt := by
  have hsame : w'.codes = w.codes → False := fun h => by
    rw [h, hk] at hl
    cases hl
  have hput : ∀ {code : ExamAccessCode} {usedAt : Option Time}, w.codes.get code.id = some code →
      w'.codes = w.codes.put { code with usedAt := usedAt } → False := by
    intro code usedAt hcode h
    rw [h, Table.get_put] at hl
    split at hl
    · rename_i he
      rw [← show code.id = id from he] at hk
      cases hk.symm.trans hcode
    · cases hk.symm.trans hl
  cases h with
  | issue => exact ⟨rfl, _, _, _, _, _, rfl⟩
  | same h => exact (hsame (congrArg Tables.codes h)).elim
  | start code session usedAt hcode _ _ _ _ _ _ _ _ h =>
    exact (hput hcode (congrArg Tables.codes h)).elim
  | undo code session row _ _ hcode _ _ _ h =>
    exact (hput hcode (congrArg Tables.codes h)).elim
  | submit d attempt row _ _ _ _ _ h => exact (hsame (congrArg Tables.codes h)).elim
  | mark _ _ h => exact (hsame (congrArg Tables.codes h)).elim
  | mirror _ _ _ h => exact (hsame (congrArg Tables.codes h)).elim

omit [Bcrypt] in
/-- Only a start that is taken back removes its session. -/
theorem DbStep.session_kept (h : DbStep i w w' g call r) (ht : w.tables.Ok) {row : TestSession}
    (hrow : w.sessions.get id = some row)
    (hkeep : ∀ code session, call = .commitTransaction → g = .undoRestored code session →
      session.id ≠ id) :
    ∃ row', w'.sessions.get id = some row' ∧ row'.fixed = row.fixed := by
  have hupdate : ∀ {id' : Id} {f : TestSession → TestSession}, (∀ s, (f s).fixed = s.fixed) →
      w'.sessions = w.sessions.update id' f →
      ∃ row', w'.sessions.get id = some row' ∧ row'.fixed = row.fixed := by
    intro id' f hf h
    rw [h, Table.get_update _ _ _ fun s => (TestSession.fixed_eq_iff.mp (hf s)).1, hrow]
    split
    · exact ⟨f row, rfl, hf row⟩
    · exact ⟨row, rfl, rfl⟩
  cases h with
  | same h => exact ⟨row, by rw [show w'.sessions = w.sessions from congrArg Tables.sessions h, hrow], rfl⟩
  | issue _ _ _ h =>
    exact ⟨row, by rw [show w'.sessions = w.sessions from congrArg Tables.sessions h, hrow], rfl⟩
  | start code session _ _ _ hfresh _ _ _ _ _ _ h =>
    refine ⟨row, ?_, rfl⟩
    rw [show w'.sessions = w.sessions.put session from congrArg Tables.sessions h,
      Table.get_put_of_ne _ ?_, hrow]
    rintro rfl
    exact hfresh (ht.issued _ _ hrow)
  | undo code session _ _ _ _ _ _ _ h =>
    refine ⟨row, ?_, rfl⟩
    rw [show w'.sessions = w.sessions.erase session.id from congrArg Tables.sessions h,
      Table.get_erase_of_ne _ (hkeep _ _ rfl rfl), hrow]
  | submit d attempt srow hsrow _ _ _ _ h =>
    rw [show w'.sessions = w.sessions.put _ from congrArg Tables.sessions h, Table.get_put]
    split
    · rename_i he
      have hid : srow.id = id := he
      rw [← Table.key_of_get hsrow, show Keyed.key srow = srow.id from rfl, hid, hrow] at hsrow
      cases hsrow
      exact ⟨_, rfl, rfl⟩
    · exact ⟨row, hrow, rfl⟩
  | mark session _ h =>
    exact hupdate (f := fun s => { s with status := .expired }) (fun _ => rfl)
      (congrArg Tables.sessions h)
  | mirror session answers _ h =>
    exact hupdate (f := fun s => { s with snapshot := some answers }) (fun _ => rfl)
      (congrArg Tables.sessions h)

/-- A code that is open was open before. -/
theorem Open.before (hI : OneOpen c) (hdb : DbStep i c.world c'.world g call r)
    (hm : Moved monitor examSystem c c' i call r g g')
    (hk : c.world.codes.get id = some k) (hl : c'.world.codes.get id = some l) (h : Open c' l) :
    Open c k := by
  obtain rfl : k.id = id := Table.key_of_get hk
  have hid : l.id = k.id := Table.key_of_get hl
  obtain ⟨-, -, hexpires, hused⟩ := hdb.code_before hk hl
  have hheld : k.id ∈ g.held → Open c k := fun hheld =>
    .inr (.inr ⟨i, g, by simp [hm.waits], hm.before, hheld⟩)
  rcases h with h | h | ⟨j, gj, hnext, hj, hin⟩
  · exact (hused h).elim .inl hheld
  · rw [(Moved.outside hm).1, hexpires] at h
    exact .inr (.inl h)
  · rw [hid] at hin
    rcases hm.phase_cases hj with ⟨rfl, rfl⟩ | ⟨hji, hj⟩
    · have hn := hm.next
      cases r with
      | error e =>
        cases hn
        rw [monitor_failed, held_failed] at hin
        cases hin
      | ok a =>
        rcases held_next hn hin with hin | ⟨code, hcode, hsees⟩
        · exact hheld hin
        · cases hsees with
          | @now _ _ _ _ now _ hmem hnow =>
            obtain ⟨row, hrow, hdate⟩ := hI.looked j _ hm.before code hmem
            rw [hcode, hk] at hrow
            cases hrow
            have hclock : c.world.now = now := by
              cases hm.answers with
              | exec hx =>
                have hx : some (c.world, Except.ok c.world.now) = some (c'.world, .ok now) := hx
                simp only [Option.some.injEq, Prod.mk.injEq, Except.ok.injEq] at hx
                exact hx.2
            exact .inr (.inl (by rw [hclock, hdate]; exact hnow))
    · exact .inr (.inr ⟨j, gj, hm.next_other hji ▸ hnext, hj, hin⟩)

/-! ## Every run -/

theorem OneOpen.start (hI : OneOpen c) (hlog : c.LogOk) (ts : List Task) {w : World}
    (hw : w.tables = c.world.tables) (hnow : c.world.now ≤ w.now) :
    OneOpen (c.start examSystem ts w) := by
  have hcodes : w.codes = c.world.codes := congrArg Tables.codes hw
  have htask : ∀ j, j < c.procs.length → (c.start examSystem ts w).task? j = c.task? j := by
    intro j hj
    rw [Config.task?, c.start_procs_of_lt _ hj]
    rfl
  have hopen : ∀ code, Open (c.start examSystem ts w) code → Open c code := by
    rintro code (h | h | ⟨j, g, hnext, hj, hin⟩)
    · exact .inl h
    · exact .inr (.inl (hnow.trans h))
    · rcases Monitor.phase_start_cases hlog hj with hj | ⟨-, t, -, rfl⟩
      · refine .inr (.inr ⟨j, g, ?_, hj, hin⟩)
        rwa [Config.next?, c.start_procs_of_lt _ (Monitor.lt_of_phase hj)] at hnext
      · rw [monitor_start, start_held] at hin
        cases hin
  refine ⟨fun j g userId examId hj hseat => ?_, fun j g hj code hcode => ?_, ?_, ?_⟩
  · rcases Nat.lt_or_ge j c.procs.length with hlt | hge
    · rw [Monitor.phase_start_of_lt hlt] at hj
      rw [htask j hlt]
      exact hI.seated j g userId examId hj hseat
    · obtain ⟨t, -, rfl, ht, -⟩ := Monitor.phase_start_task hlog hge hj
      rw [ht]
      exact start_seat hseat
  · rcases Monitor.phase_start_cases hlog hj with hj | ⟨-, t, -, rfl⟩
    · rw [Config.start_world, hcodes]
      exact hI.looked j g hj code hcode
    · rw [monitor_start, start_looked] at hcode
      cases hcode
  · intro userId examId k hk l hl hok hol
    have hmem : ∀ code, code ∈ w.codesOf userId examId → code ∈ c.world.codesOf userId examId :=
      fun code h => by rwa [World.codesOf, hcodes] at h
    exact hI.once userId examId k (hmem k hk) l (hmem l hl) (hopen k hok) (hopen l hol)
  · rw [Config.start_world, show w.attempts = c.world.attempts from congrArg Tables.attempts hw,
      show w.sessions = c.world.sessions from congrArg Tables.sessions hw]
    exact hI.rows

omit [Bcrypt] in
/-- No start can come to use a code of a student for whom, by the guard, none is in flight. -/
theorem OneOpen.not_open (hb : Base c) (hI : OneOpen c) (hk : k ∈ c.world.codesOf userId examId)
    (hspent : k.usedAt = none ∧ k.expiresAt < c.world.now) (hidle : ¬Starting c userId examId) :
    ¬Open c k := by
  obtain ⟨hget, rfl, rfl⟩ := mem_codesOf.mp hk
  rintro (h | h | ⟨i, g, hnext, hg, hin⟩)
  · exact h hspent.1
  · exact absurd hspent.2 (not_lt.mpr h)
  · have hseat := seat_of_held (hb.holds i g hg) hin hget
    exact hidle ⟨i, Monitor.lt_of_phase hg, hnext, hI.seated i g _ _ hg hseat⟩

theorem OneOpen.move_once (hb : Base c) (hI : OneOpen c)
    (hP : Reach.Allowed examSystem IssuesOnce c i call r c'.world)
    (hm : Moved monitor examSystem c c' i call r g g')
    (hdb : DbStep i c.world c'.world g call r) :
    ∀ userId examId, ∀ k ∈ c'.world.codesOf userId examId,
      ∀ l ∈ c'.world.codesOf userId examId, Open c' k → Open c' l → k.id = l.id := by
  have hold : ∀ {userId examId k}, k ∈ c'.world.codesOf userId examId → Open c' k →
      ∀ {k₀}, c.world.codes.get k.id = some k₀ →
      k₀ ∈ c.world.codesOf userId examId ∧ k₀.id = k.id ∧ Open c k₀ := by
    intro userId examId k hk hopen k₀ hk₀
    obtain ⟨hget, rfl, rfl⟩ := mem_codesOf.mp hk
    obtain ⟨hu, he, -⟩ := hdb.code_before hk₀ hget
    have hid : k₀.id = k.id := Table.key_of_get hk₀
    exact ⟨mem_codesOf.mpr ⟨hid ▸ hk₀, hu.symm, he.symm⟩, hid, Open.before hI hdb hm hk₀ hget hopen⟩
  -- Where a code is new, it is the only new one, and the guard leaves no other.
  have hnew : ∀ {userId examId k}, k ∈ c'.world.codesOf userId examId →
      c.world.codes.get k.id = none → (∀ l ∈ c.world.codesOf userId examId, ¬Open c l) ∧
      ∀ l, c.world.codes.get l.id = none → c'.world.codes.get l.id = some l → l.id = k.id := by
    intro userId examId k hk hnone
    obtain ⟨hget, rfl, rfl⟩ := mem_codesOf.mp hk
    obtain ⟨hok, userId, examId, certId, tokenHash, expiresAt, rfl⟩ := hdb.code_new hnone hget
    cases r with
    | error e => cases hok
    | ok a =>
      obtain ⟨code, -, hu, he, hput⟩ := issued_code hm.answers
      have hcode : ∀ l, c.world.codes.get l.id = none → c'.world.codes.get l.id = some l →
          l = code := by
        intro l hl hl'
        rw [hput, Table.get_put] at hl'
        split at hl'
        · exact (Option.some.inj hl').symm
        · cases hl.symm.trans hl'
      obtain rfl := hcode k hnone hget
      obtain ⟨x, -, hguard⟩ := hP.guard
      simp only [hm.waits] at hguard
      rw [hu, he]
      exact ⟨fun l hl => hI.not_open hb hl (hguard.1 l hl) hguard.2,
        fun l hl hl' => by rw [hcode l hl hl']⟩
  intro userId examId k hk l hl hok hol
  cases hk₀ : c.world.codes.get k.id with
  | none =>
    obtain ⟨hnone, honly⟩ := hnew hk hk₀
    cases hl₀ : c.world.codes.get l.id with
    | none => exact (honly l hl₀ (mem_codesOf.mp hl).1).symm
    | some l₀ =>
      obtain ⟨hmem, -, hopen⟩ := hold hl hol hl₀
      exact absurd hopen (hnone l₀ hmem)
  | some k₀ =>
    obtain ⟨hmem, hid, hopen⟩ := hold hk hok hk₀
    cases hl₀ : c.world.codes.get l.id with
    | none => exact absurd hopen ((hnew hl hl₀).1 k₀ hmem)
    | some l₀ =>
      obtain ⟨hmem', hid', hopen'⟩ := hold hl hol hl₀
      rw [← hid, ← hid']
      exact hI.once userId examId k₀ hmem l₀ hmem' hopen hopen'

theorem OneOpen.move (hb : Base c) (hI : OneOpen c)
    (hP : Reach.Allowed examSystem IssuesOnce c i call r c'.world)
    (hm : Moved monitor examSystem c c' i call r g g')
    (hdb : DbStep i c.world c'.world g call r) : OneOpen c' := by
  refine ⟨fun j gj userId examId hj hseat => ?_, fun j gj hj code hcode => ?_,
    hI.move_once hb hP hm hdb, ?_⟩
  · rw [hm.task]
    rcases hm.phase_cases hj with ⟨rfl, rfl⟩ | ⟨-, hj⟩
    · have hn := hm.next
      cases r with
      | error e =>
        cases hn
        rw [monitor_failed, seat_failed] at hseat
        cases hseat
      | ok a => exact hI.seated j g userId examId hm.before (seat_next hn hm.answers hseat)
    · exact hI.seated j gj userId examId hj hseat
  · have hkept : ∀ g₀, monitor.phase c j = some g₀ → code ∈ g₀.looked →
        ∃ row, c'.world.codes.get code.id = some row ∧ row.expiresAt = code.expiresAt := by
      intro g₀ hg₀ hcode
      obtain ⟨row, hrow, hdate⟩ := hI.looked j g₀ hg₀ code hcode
      obtain ⟨row', hrow', usedAt, rfl⟩ := hdb.code_kept hrow
      exact ⟨_, hrow', hdate⟩
    rcases hm.phase_cases hj with ⟨rfl, rfl⟩ | ⟨-, hj⟩
    · have hn := hm.next
      cases r with
      | error e =>
        cases hn
        rw [monitor_failed, looked_failed] at hcode
        cases hcode
      | ok a =>
        rcases looked_next hn hm.answers hcode with hcode | ⟨hworld, hget⟩
        · exact hkept g hm.before hcode
        · exact ⟨code, hworld ▸ hget, rfl⟩
    · exact hkept gj hj hcode
  · have hkeep : ∀ a ∈ c.world.attempts, ∀ code session, call = .commitTransaction →
        g = .undoRestored code session → r.isOk = true → session.id ≠ a.session.id := by
      rintro a ha code session rfl rfl hok hid
      cases r with
      | error e => cases hok
      | ok a' =>
        obtain ⟨⟨row, -, htxn⟩, -⟩ := hb.holds i _ hm.before
        obtain ⟨x, -, hguard⟩ := hP.guard
        simp only [hm.waits] at hguard
        exact hguard _ htxn a ha (by rw [← hid]; exact .head _)
    have hold : ∀ a ∈ c.world.attempts, ∃ row, c'.world.sessions.get a.session.id = some row ∧
        a.attempt.userId = row.userId ∧ a.attempt.examId = row.examId := by
      intro a ha
      obtain ⟨row, hrow, hu, he⟩ := hI.rows a ha
      cases r with
      | error e => 
        exact ⟨row, by rw [show c'.world.sessions = _ from congrArg Tables.sessions hdb.error]; exact hrow, hu, he⟩
      | ok a' =>
        obtain ⟨row', hrow', hfixed⟩ := hdb.session_kept hb.tables hrow
          fun code session hcall hg => hkeep a ha code session hcall hg rfl
        obtain ⟨-, hu', he', -⟩ := TestSession.fixed_eq_iff.mp hfixed
        exact ⟨row', hrow', hu.trans hu'.symm, he.trans he'.symm⟩
    intro a ha
    rcases hdb.attempts_cases with hsame | ⟨d, attempt, row, -, -, -, -, hfixed, hmakes, happ, hrow⟩
    · exact hold a (hsame ▸ ha)
    · rcases List.mem_append.mp (happ ▸ ha) with ha | ha
      · exact hold a ha
      · cases List.mem_singleton.mp ha
        obtain ⟨-, hu, he, -⟩ := TestSession.fixed_eq_iff.mp hfixed
        exact ⟨_, hrow, hmakes.1.trans hu.symm, hmakes.2.1.trans he.symm⟩

theorem Unissued.oneOpen (h : Reach examSystem Unissued IssuesOnce c) : OneOpen c := by
  have hbase : ∀ {c : Pool}, Reach examSystem Unissued IssuesOnce c → Base c := fun hr =>
    Reachable.base (hr.of_init fun _ hw => hw.initial)
  refine Reach.invariant monitor_sound ?_ ?_ ?_ ?_ h
  · intro w hw
    have hphase : ∀ i, monitor.phase (.initial w : Pool) i = none := fun i =>
      Monitor.phase_none (Nat.zero_le _)
    refine ⟨fun j g _ _ hj => ?_, fun j g hj => ?_, fun userId examId k hk => ?_, fun a ha => ?_⟩
    · rw [hphase] at hj
      cases hj
    · rw [hphase] at hj
      cases hj
    · simp [Config.initial, World.codesOf, hw.codes] at hk
    · simp [Config.initial, hw.initial.attempts] at ha
  · intro c t hr hI _ _
    exact hI.start (hr.logOk monitor_sound) [t] rfl (le_refl _)
  · intro c v w ts hr hI _ hv
    exact hI.start (hr.logOk monitor_sound) ts (envStep_db hv).1 (envStep_now hv)
  · intro c c' i call r g g' hr hI hP hm
    exact hI.move (hbase hr) hP hm ((hbase hr).db hm)

/-- While every code is issued only when the earlier ones of the student for the exam have expired
unused and none of them is being used, no session with an attempt is taken back, and no handler
overwrites a session that is done: no student has two attempts for an exam. -/
theorem sat_once (h : Reach examSystem Unissued IssuesOnce c) (userId examId : Id) :
    (attemptsFor userId examId c.world.attempts).length ≤ 1 := by
  have hr : Reachable IssuesOnce c := h.of_init fun _ hw => hw.initial
  have hI := Unissued.oneOpen h
  have hb := Reachable.base hr
  have hcodes := Reachable.oneToOne hr
  have honce := Reachable.attemptedOnce (hr.mono fun _ _ h => h.1)
  -- The session of an attempt is there, and its code is used, so it is open.
  have hcode : ∀ a ∈ attemptsFor userId examId c.world.attempts, ∃ k,
      k ∈ c.world.codesOf userId examId ∧ Open c k ∧
        c.world.tables.token a.session.id = some k.id := by
    intro a ha
    obtain ⟨ha, hfor⟩ := List.mem_filter.mp ha
    obtain ⟨row, hrow, hu, he⟩ := hI.rows a ha
    obtain ⟨k, hk, hmu, hme, -⟩ := hb.tables.code _ _ hrow
    have hid : k.id = row.sessionToken := Table.key_of_get hk
    have htoken : c.world.tables.token a.session.id = some k.id :=
      Option.map_eq_some_iff.mpr ⟨row, hrow, hid.symm⟩
    have hfor : a.attempt.userId = userId ∧ a.attempt.examId = examId := by simpa using hfor
    refine ⟨k, mem_codesOf.mpr ⟨hid ▸ hk, ?_, ?_⟩, .inl ?_, htoken⟩
    · rw [hmu, ← hu, hfor.1]
    · rw [hme, ← he, hfor.2]
    · exact (hcodes.used k.id k (hid ▸ hk)).mpr ⟨_, htoken⟩
  cases hl : attemptsFor userId examId c.world.attempts with
  | nil => exact Nat.zero_le 1
  | cons a rest =>
    obtain ⟨k, hk, hopen, htoken⟩ := hcode a (by rw [hl]; exact .head _)
    refine le_trans ?_ (honce.once a.session.id)
    rw [← hl]
    -- All of them were made from the session of the first.
    refine List.Sublist.length_le ?_
    have hsub : attemptsFor userId examId c.world.attempts =
        (attemptsFor userId examId c.world.attempts).filter (·.session.id = a.session.id) := by
      refine (List.filter_eq_self.mpr fun b hb => ?_).symm
      obtain ⟨l, hl, hopen', htoken'⟩ := hcode b hb
      have hsame := hI.once userId examId l hl k hk hopen' hopen
      rw [hsame] at htoken'
      simpa using hcodes.unique _ _ _ htoken' htoken
    rw [hsub]
    exact List.Sublist.filter _ List.filter_sublist

end

/-! ### The school -/

/-- Codes are issued by `assignNextExam` only. -/
def NextOnly (_ : Pool) : PoolLabel → Prop
  | .spawn (.assignExam _ _ _) => False
  | _ => True

instance : ∀ c l, Decidable (NextOnly c l) := fun _ l =>
  match l with
  | .spawn (.assignExam _ _ _) => .isFalse not_false
  | .spawn (.assignNextExam _ _) | .spawn (.validateAccess _ _ _) | .spawn (.startExam _ _ _)
  | .spawn (.autosave _ _ _) | .spawn (.getSessionStatus _ _) | .spawn (.submitExam _ _ _)
  | .spawn (.lateSubmitExam _ _ _) | .spawn (.joinSession _ _) | .spawn (.handleExpiry _ _)
  | .run _ _ | .fail _ | .env _ => .isTrue trivial

/-- The school before it issues a code. -/
def newSchool : World := { school with codes := .empty }

theorem newSchool_unissued : Unissued newSchool := by
  constructor
  · constructor <;> decide
  · rfl

/-- Process `i` gives the student an exam of the category, with the code `code`. -/
def assigns (i : Nat) (code : String) : List PoolLabel :=
  .spawn (.assignNextExam "u" "c") :: List.replicate 13 (.run i code)

set_option maxRecDepth 100000 in
/-- One exam, given, started and submitted. -/
theorem sat_once_submit :
    ∃ c, Reach (@examSystem plainBcrypt) Unissued IssuesOnce c ∧
      attemptsFor "u" "e" c.world.attempts ≠ [] ∧
      (attemptsFor "u" "e" c.world.attempts).length ≤ 1 := by
  have hrun : (runIf (@examSystem plainBcrypt) IssuesOnce
      (assigns 0 "K" ++ .spawn (.startExam "u" "K" "e") :: calls 1 13 ++
        .spawn (.submitExam "S" "u" []) :: calls 2 9) (.initial newSchool)).any
      (fun c => attemptsFor "u" "e" c.world.attempts ≠ []) = true := by
    decide
  obtain ⟨c, hc, hp⟩ := (Option.any_eq_true _ _).mp hrun
  have hreach := runIf_reach (.init newSchool_unissued) hc
  exact ⟨c, hreach, by simpa using hp, @sat_once plainBcrypt c hreach "u" "e"⟩

set_option maxRecDepth 100000 in
/-- The exam is given again while its session "S" is ACTIVE (process 2). Both sessions are then
submitted, one after the other. -/
theorem sat_twice :
    ¬∀ c, Reach (@examSystem plainBcrypt) Unissued NextOnly c → ∀ userId examId,
      (attemptsFor userId examId c.world.attempts).length ≤ 1 := by
  intro hall
  have hrun : (runIf (@examSystem plainBcrypt) NextOnly
      (assigns 0 "K" ++ .spawn (.startExam "u" "K" "e") :: calls 1 13 ++ assigns 2 "L" ++
        .spawn (.submitExam "S" "u" []) :: calls 3 9 ++
        .spawn (.startExam "u" "L" "e") :: List.replicate 13 (.run 4 "T") ++
        .spawn (.submitExam "T" "u" []) :: calls 5 9) (.initial newSchool)).any
      (fun c => (attemptsFor "u" "e" c.world.attempts).length = 2) = true := by
    decide
  obtain ⟨c, hc, hp⟩ := (Option.any_eq_true _ _).mp hrun
  have htwo : (attemptsFor "u" "e" c.world.attempts).length = 2 := by simpa using hp
  have hone := hall c (runIf_reach (.init newSchool_unissued) hc) "u" "e"
  omega

end LmsBackend.Exams
