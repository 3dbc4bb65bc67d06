import LmsBackend.Exams.OneAttempt

/-!
# One outstanding code

`assignNextExam` looks at one unused code of the student, whichever the database
returns. An expired one hides the others.
-/

open Async Store

namespace LmsBackend.Exams

/-! ## Where an assignment is -/

inductive Issuing where
  | other
  | choosing (userId : Id)
  /-- `row?` is the outstanding code that the database has returned. -/
  | found (userId examId : Id) (row? : Option ExamAccessCode)
  /-- No outstanding code keeps it from issuing one. -/
  | cleared (userId examId : Id)
  | done

namespace Issuing

def start : Task → Issuing
  | .assignNextExam userId _ => .choosing (uuidOf userId)
  | _ => .other

def nextOk (g : Issuing) : (c : Call) → Resp c → Option Issuing
  | .accessCodeFindOne userId' examId, row? =>
    match g with
    | .choosing userId => if userId' = userId then some (.found userId examId row?) else none
    | .other => some .other
    | _ => none
  | .now, now =>
    match g with
    | .found userId examId row? =>
      some (if row?.any (now < ·.expiresAt) then .done else .cleared userId examId)
    | .cleared userId examId => some (.cleared userId examId)
    | .choosing userId => some (.choosing userId)
    | .other => some .other
    | .done => none
  | .accessCodeSave userId' examId' _ _ _, _ =>
    match g with
    | .cleared userId examId =>
      if userId' = userId ∧ examId' = examId then some .done else none
    | .other => some .other
    | _ => none
  | c, _ =>
    match g with
    | .other => some .other
    | .choosing userId => some (.choosing userId)
    | .cleared userId examId => if c.reads then some (.cleared userId examId) else none
    | _ => none

def failed : Issuing → Call → Issuing
  | .other, _ => .other
  | .choosing userId, _ => .choosing userId
  | _, _ => .done

def final (_ : Except Err Reply) : Issuing → Prop
  | .found _ _ _ | .cleared _ _ => False
  | _ => True

end Issuing

def issuing : Monitor Call Resp Err Reply Task Issuing where
  start := Issuing.start
  next := Issuing.nextOk
  failed := Issuing.failed
  final := Issuing.final

attribute [local simp] Issuing.nextOk

@[simp] theorem issuing_next : issuing.next = Issuing.nextOk := rfl

@[simp] theorem issuing_failed : issuing.failed = Issuing.failed := rfl

section

open ExamService Issuing

variable {userId certId : String}

theorem getAttemptedExamIds_issues :
    issuing.wp (getAttemptedExamIds userId certId) (.choosing (uuidOf userId))
      (fun _ g => g = .choosing (uuidOf userId)) fun _ g => g = .choosing (uuidOf userId) := by
  simp [getAttemptedExamIds, await, nextOk, failed]

theorem issueAccessCode_issues (exam : Exam) :
    issuing.wp (issueAccessCode userId exam) (.cleared (uuidOf userId) exam.id)
      (fun _ g => g = .done) fun _ g => g = .done := by
  simp [issueAccessCode, await, nextOk, failed, Call.reads]

theorem assignNextExam_issues :
    issuing.wp (assignNextExam userId certId) (.choosing (uuidOf userId))
      (fun _ g => g = .done) fun _ g => g = .done ∨ g = .choosing (uuidOf userId) := by
  simp only [assignNextExam, Prog.bind_eq, await, Monitor.wp_bind, Monitor.wp_await]
  refine ⟨fun pool => ⟨.choosing (uuidOf userId), rfl, ?_⟩, fun e => .inr rfl⟩
  split
  · exact .inr rfl
  · refine (issuing.wp_bind _).mpr (issuing.wp_mono getAttemptedExamIds_issues ?_ fun _ _ h => .inr h)
    rintro attempted _ rfl
    split
    · exact .inr rfl
    · rename_i next _
      simp only [Monitor.wp_bind, Monitor.wp_await]
      refine ⟨fun row? => ⟨.found (uuidOf userId) next.id row?, by simp [nextOk], ?_⟩, fun e => .inr rfl⟩
      refine ⟨fun now => ⟨_, rfl, ?_⟩, fun e => .inl rfl⟩
      split
      · exact .inl rfl
      · refine (issuing.wp_bind _).mpr
          (issuing.wp_mono (issueAccessCode_issues next) ?_ fun _ _ h => .inl h)
        rintro issued _ rfl
        rfl

theorem keeps_otherwise (p : Promise Reply) : issuing.Keeps p .other := by
  induction p with
  | ret a => trivial
  | throw e => trivial
  | call c k ih =>
    rintro (e | a)
    · exact ⟨.other, rfl, ih _⟩
    · refine ⟨.other, ?_, ih _⟩
      cases c <;> rfl

theorem issuing_sound [Bcrypt] : issuing.Sound examSystem := by
  intro t
  change issuing.Keeps t.prog (Issuing.start t)
  cases t with
  | assignNextExam userId certId =>
    refine (issuing.wp_bind _).mpr (issuing.wp_mono assignNextExam_issues ?_ ?_)
    · rintro r _ rfl
      trivial
    · rintro e _ (rfl | rfl) <;> trivial
  | _ => exact keeps_otherwise _

end

/-! ## Calls that do not overlap -/

/-- Every process has ended. -/
def Idle (c : Pool) : Prop := ∀ i < c.procs.length, c.next? i = none

/-- The student has an unused, unexpired code for the exam. -/
def World.Outstanding (w : World) (userId examId : Id) : Prop :=
  ∃ code ∈ w.unusedCodes (some userId) examId, w.now < code.expiresAt

/-- The row that is returned for the outstanding code is an unexpired one, if there is one. -/
def PicksUnexpired (w : World) (userId examId : Id) (x : Choice) : Prop :=
  w.Outstanding userId examId →
    ∃ row ∈ w.unusedCodes (some userId) examId, row.id = x ∧ w.now < row.expiresAt

instance (c : Pool) : Decidable (Idle c) :=
  inferInstanceAs (Decidable (∀ i < c.procs.length, c.next? i = none))

instance (w : World) (userId examId : Id) : Decidable (w.Outstanding userId examId) :=
  inferInstanceAs (Decidable (∃ code ∈ w.unusedCodes (some userId) examId, _))

instance (w : World) (userId examId : Id) (x : Choice) :
    Decidable (PicksUnexpired w userId examId x) :=
  inferInstanceAs (Decidable (_ → _))

/-- Calls begin and time passes only while no call is in flight. -/
def OneAtATime (c : Pool) : PoolLabel → Prop
  | .spawn _ | .env _ => Idle c
  | _ => True

/-- And the database returns an unexpired code for the outstanding one whenever it has one. -/
def ShowsOutstanding (c : Pool) (l : PoolLabel) : Prop :=
  OneAtATime c l ∧
    match l with
    | .run i x =>
      match c.next? i with
      | some (.accessCodeFindOne userId examId) => PicksUnexpired c.world userId examId x
      | _ => True
    | _ => True

instance : ∀ c l, Decidable (OneAtATime c l) := fun c l =>
  match l with
  | .spawn _ | .env _ => inferInstanceAs (Decidable (Idle c))
  | .run _ _ | .fail _ => .isTrue trivial

instance : ∀ c l, Decidable (ShowsOutstanding c l) := fun c l => by
  refine @instDecidableAnd _ _ inferInstance ?_
  exact match l with
  | .run i _ => by
    dsimp only
    exact match c.next? i with
    | none => .isTrue trivial
    | some call => by casesm Call <;> infer_instance
  | .spawn _ | .fail _ | .env _ => .isTrue trivial

/-- At most one process is waiting for a call. -/
def OneBusy (c : Pool) : Prop := ∀ i j, c.next? i ≠ none → c.next? j ≠ none → i = j

/-- What an assignment knows of the codes. -/
def Issuing.Holds (w : World) : Issuing → Prop
  | .found userId examId row? => w.Outstanding userId examId → row?.any (w.now < ·.expiresAt) = true
  | .cleared userId examId => ¬w.Outstanding userId examId
  | _ => True

/-- The event is the INSERT of a code by an assignment. -/
def Issues (c : Pool) (e : Event World Call Resp Err) (userId examId : Id) : Prop :=
  (∃ certId tokenHash expiresAt,
    e.call = .accessCodeSave userId examId certId tokenHash expiresAt) ∧
    ∃ userId certId, c.task? e.proc = some (.assignNextExam userId certId)

structure OneOutstanding (c : Pool) : Prop where
  busy : OneBusy c
  holds : ∀ i g, issuing.phase c i = some g → g.Holds c.world
  other : ∀ i, issuing.phase c i = some .other →
    ∀ userId certId, c.task? i ≠ some (.assignNextExam userId certId)
  issued : ∀ e ∈ c.log, ∀ userId examId, Issues c e userId examId →
    ¬e.before.Outstanding userId examId

section

variable [Bcrypt] {c c' : Pool} {i : Nat} {g g' : Issuing} {call : Call}
  {r : Except Err (Resp call)}

omit [Bcrypt] in
theorem unusedCodes_unique {w : World} {userId : Option Id} {examId : Id} {code row : ExamAccessCode}
    (hcode : code ∈ w.unusedCodes userId examId) (hrow : row ∈ w.unusedCodes userId examId)
    (h : code.id = row.id) : code = row := by
  have hcode := Table.mem_rows_iff.mp (List.mem_filter.mp hcode).1
  have hrow := Table.mem_rows_iff.mp (List.mem_filter.mp hrow).1
  rw [show Keyed.key code = Keyed.key row from h, hrow] at hcode
  exact (Option.some.inj hcode).symm

/-- The row that the database has returned, when it is an unexpired one if there is one. -/
theorem found_holds {w w' : World} {userId examId : Id} {x : Choice} {row? : Option ExamAccessCode}
    (hx : exec i (.accessCodeFindOne userId examId) x w = some (w', .ok row?))
    (hpicks : PicksUnexpired w userId examId x) :
    (Issuing.found userId examId row?).Holds w' := by
  obtain rfl := exec_reads rfl hx
  intro hlive
  obtain ⟨row, hrow, hid, hexpires⟩ := hpicks hlive
  simp only [exec] at hx
  split at hx
  · rename_i hnone
    rw [hnone] at hrow
    cases hrow
  · obtain ⟨code, hfind, hx⟩ := Option.map_eq_some_iff.mp hx
    have hx : some code = row? := by simpa using hx
    have hcode : code.id = x := by simpa using List.find?_some hfind
    have hsame := unusedCodes_unique (List.mem_of_find?_eq_some hfind) hrow (hcode.trans hid.symm)
    rw [← hx, hsame]
    simpa using hexpires

theorem Issuing.step (hP : Reach.Allowed examSystem ShowsOutstanding c i call r c'.world)
    (hm : Moved issuing examSystem c c' i call r g g') (h : g.Holds c.world) :
    g'.Holds c'.world := by
  have hn := hm.next
  cases r with
  | error e =>
    cases hn
    cases g <;> trivial
  | ok a =>
    have hn : g.nextOk call a = some g' := hn
    cases g with
    | other =>
      have hg' : g' = .other := by cases call <;> cases hn <;> rfl
      rw [hg']
      trivial
    | choosing userId =>
      cases call with
      | accessCodeFindOne userId' examId =>
        simp only [nextOk] at hn
        split at hn
        · rename_i huser
          subst huser
          cases hn
          cases hP with
          | run hx hguard =>
            have hpicks := hguard.2
            simp only [hm.waits] at hpicks
            exact found_holds (i := i) hx hpicks
          | fail hr => cases hr
        · cases hn
      | accessCodeSave => cases hn
      | _ => cases hn; trivial
    | found userId examId row? =>
      cases call with
      | now =>
        obtain ⟨hworld, rfl⟩ : c.world = c'.world ∧ c.world.now = a := by
          cases hm.answers with
          | exec hx =>
            have hx : some (c.world, Except.ok c.world.now) = some (c'.world, .ok a) := hx
            simpa using hx
        cases hn
        rw [← hworld]
        split
        · trivial
        · rename_i hexpired
          exact fun hlive => hexpired (h hlive)
      | _ => cases hn
    | cleared userId examId =>
      have hread : call.reads = true → c'.world = c.world := by
        intro hread
        cases hm.answers with
        | exec hx => exact exec_reads hread hx
      cases call with
      | accessCodeSave =>
        simp only [nextOk] at hn
        split at hn <;> cases hn
        trivial
      | now =>
        cases hn
        rw [hread rfl]
        exact h
      | accessCodeFindOne => cases hn
      | _ =>
        simp only [nextOk] at hn
        split at hn
        · rename_i hc
          cases hn
          rw [hread hc]
          exact h
        · cases hn
    | done => cases call <;> cases hn

/-! ### One busy process -/

theorem OneBusy.move (hb : OneBusy c) (hm : Moved issuing examSystem c c' i call r g g') :
    OneBusy c' := by
  have hold : ∀ j, c'.next? j ≠ none → c.next? j ≠ none := by
    intro j hj
    by_cases he : j = i
    · rw [he, hm.waits]
      simp
    · rwa [hm.next_other he] at hj
  exact fun j k hj hk => hb j k (hold j hj) (hold k hk)

theorem OneBusy.start (hidle : Idle c) {ts : List Task} (hts : ts.length ≤ 1) (w : World) :
    OneBusy (c.start examSystem ts w) := by
  have hnew : ∀ j, (c.start examSystem ts w).next? j ≠ none → j = c.procs.length := by
    intro j hj
    rcases Nat.lt_or_ge j c.procs.length with hlt | hge
    · refine absurd ?_ hj
      rw [Config.next?, c.start_procs_of_lt _ hlt]
      exact hidle j hlt
    · have hlen : j < (c.start examSystem ts w).procs.length := by
        by_contra hlen
        exact hj (by simp [Config.next?, List.getElem?_eq_none (Nat.le_of_not_lt hlen)])
      simp only [Config.start, List.length_append, List.length_map] at hlen
      omega
  intro j k hj hk
  rw [hnew j hj, hnew k hk]

omit [Bcrypt] in
theorem onMessage_length (key : String) : (onMessage key).length ≤ 1 := by
  unfold onMessage
  repeat' split
  all_goals simp

omit [Bcrypt] in
theorem envStep_length {w w' : World} {v : EnvEvent} {ts : List Task}
    (h : envStep v w = some (w', ts)) : ts.length ≤ 1 := by
  cases v with
  | tick ms => cases h; simp
  | deliver key => simp only [envStep] at h; split at h <;> cases h; exact onMessage_length key
  | redeliver key => simp only [envStep] at h; split at h <;> cases h; exact onMessage_length key
  | lose key => simp only [envStep] at h; split at h <;> cases h; simp

omit [Bcrypt] in
/-- An assignment that knows something of the codes is in flight. -/
theorem Issuing.holds_of_idle (hc : issuing.Conforms c) {j : Nat} {g : Issuing} (w : World)
    (hg : issuing.phase c j = some g) (hj : c.next? j = none) : g.Holds w := by
  have hfinal : (∃ r, issuing.final r g) → g.Holds w := by
    rintro ⟨r, hr⟩
    cases g with
    | found | cleared => cases hr
    | _ => trivial
  by_contra hnot
  obtain ⟨call, hwaits, -⟩ := hc.waits hg fun r hr => hnot (hfinal ⟨r, hr⟩)
  rw [hj] at hwaits
  cases hwaits

/-! ### Every run -/

theorem OneOutstanding.start (hI : OneOutstanding c) (hc : issuing.Conforms c) (hlog : c.LogOk)
    (hidle : Idle c) {ts : List Task} (hts : ts.length ≤ 1) (w : World) :
    OneOutstanding (c.start examSystem ts w) := by
  have htask : ∀ j, j < c.procs.length → (c.start examSystem ts w).task? j = c.task? j := by
    intro j hj
    rw [Config.task?, c.start_procs_of_lt _ hj]
    rfl
  refine ⟨.start hidle hts w, fun j g hg => ?_, fun j hj userId certId => ?_, ?_⟩
  · rcases Nat.lt_or_ge j c.procs.length with hlt | hge
    · rw [Monitor.phase_start_of_lt hlt] at hg
      exact Issuing.holds_of_idle hc _ hg (hidle j hlt)
    · obtain ⟨t, -, rfl, -⟩ := Monitor.phase_start_task hlog hge hg
      cases t <;> trivial
  · rcases Nat.lt_or_ge j c.procs.length with hlt | hge
    · rw [Monitor.phase_start_of_lt hlt] at hj
      rw [htask j hlt]
      exact hI.other j hj userId certId
    · obtain ⟨t, -, hother, ht, -⟩ := Monitor.phase_start_task hlog hge hj
      rw [ht]
      rintro ⟨⟩
      cases hother
  · rintro e he userId examId ⟨hcall, userId', certId, ht⟩
    refine hI.issued e he userId examId ⟨hcall, userId', certId, ?_⟩
    rwa [htask e.proc (hlog e he)] at ht

omit [Bcrypt] in
theorem Issuing.other_of_next (h : issuing.advance g call r = some .other) : g = .other := by
  cases r with
  | error e =>
    cases g <;> first | rfl | cases h
  | ok a =>
    have h : g.nextOk call a = some .other := h
    cases g with
    | other => rfl
    | _ =>
      cases call <;> simp only [nextOk] at h <;> repeat' split at h
      all_goals simp_all

omit [Bcrypt] in
/-- An assignment issues a code only once it is cleared to. -/
theorem Issuing.cleared_of_save {userId examId certId : Id} {tokenHash : String} {expiresAt : Time}
    {g' : Issuing}
    (h : g.nextOk (.accessCodeSave userId examId certId tokenHash expiresAt) () = some g') :
    g = .other ∨ g = .cleared userId examId := by
  cases g with
  | other => exact .inl rfl
  | cleared userId' examId' =>
    simp only [Issuing.nextOk] at h
    split at h
    · rename_i heq
      rw [heq.1, heq.2]
      exact .inr rfl
    · cases h
  | _ => cases h

theorem OneOutstanding.move (hI : OneOutstanding c)
    (hc : issuing.Conforms c) (hP : Reach.Allowed examSystem ShowsOutstanding c i call r c'.world)
    (hm : Moved issuing examSystem c c' i call r g g') : OneOutstanding c' := by
  refine ⟨hI.busy.move hm, fun j gj hj => ?_, fun j hj userId certId => ?_, ?_⟩
  · rcases hm.phase_cases hj with ⟨rfl, rfl⟩ | ⟨hji, hj⟩
    · exact Issuing.step hP hm (hI.holds j g hm.before)
    · refine Issuing.holds_of_idle hc _ hj ?_
      by_contra hbusy
      exact hji (hI.busy j i hbusy (by simp [hm.waits]))
  · rw [hm.task j]
    rcases hm.phase_cases hj with ⟨rfl, hg'⟩ | ⟨-, hj⟩
    · have hg : g = .other := Issuing.other_of_next (hg' ▸ hm.next)
      exact hI.other j (hg ▸ hm.before) userId certId
    · exact hI.other j hj userId certId
  · rintro e he userId examId ⟨⟨certId, tokenHash, expiresAt, hcall⟩, userId', certId', ht⟩
    rw [hm.task] at ht
    rw [hm.log] at he
    rcases List.mem_append.mp he with he | he
    · exact hI.issued e he userId examId ⟨⟨_, _, _, hcall⟩, _, _, ht⟩
    · obtain rfl := List.mem_singleton.mp he
      obtain rfl : call = .accessCodeSave userId examId certId tokenHash expiresAt := hcall
      obtain ⟨g₁, hg₁⟩ := hm.allowed ()
      have hg₁ : g.nextOk (.accessCodeSave userId examId certId tokenHash expiresAt) () =
        some g₁ := hg₁
      rcases Issuing.cleared_of_save hg₁ with hg | hg
      · exact absurd ht (hI.other i (hg ▸ hm.before) userId' certId')
      · have hcleared := hI.holds i g hm.before
        rw [hg] at hcleared
        exact hcleared

theorem Reachable.oneOutstanding (h : Reachable ShowsOutstanding c) : OneOutstanding c := by
  refine Reach.invariant issuing_sound ?_ ?_ ?_ ?_ h
  · intro w _
    refine ⟨fun j k hj => absurd rfl hj, fun j g hg => ?_, fun j hj => ?_, fun e he => by cases he⟩
    · exact absurd (Monitor.lt_of_phase hg) (Nat.not_lt_zero j)
    · exact absurd (Monitor.lt_of_phase hj) (Nat.not_lt_zero j)
  · intro c t hr hI hP _
    have hone : [t].length ≤ 1 := Nat.le_refl 1
    exact hI.start (hr.conforms issuing_sound) (hr.logOk issuing_sound) hP.1 hone _
  · intro c v w ts hr hI hP hv
    exact hI.start (hr.conforms issuing_sound) (hr.logOk issuing_sound) hP.1 (envStep_length hv) _
  · intro c c' i call r g g' hr hI hP hm
    exact hI.move (hr.conforms issuing_sound) hP hm

/-- While calls do not overlap and the database shows an unexpired code when there is one, no
assignment issues a code to a student who has an unused, unexpired one for the exam. -/
theorem outstanding_respected (h : Reachable ShowsOutstanding c)
    {e : Event World Call Resp Err} (he : e ∈ c.log) {userId examId : Id}
    (hissues : Issues c e userId examId) : ¬e.before.Outstanding userId examId :=
  h.oneOutstanding.issued e he userId examId hissues

end

/-! ### The school -/

/-- The code of the student expires, and an assignment (process 0) issues "L". -/
def reissues : List PoolLabel :=
  .env (.tick 2000) :: .spawn (.assignNextExam "u" "c") :: List.replicate 8 (.run 0 "K") ++
    List.replicate 5 (.run 0 "L")

set_option maxRecDepth 100000 in
theorem outstanding_respected_reissue :
    ∃ c, @Reachable plainBcrypt ShowsOutstanding c ∧ ∃ e ∈ c.log, Issues c e "u" "e" ∧
      ¬e.before.Outstanding "u" "e" := by
  obtain ⟨c, hc, ht, e, he, hproc, hcall⟩ := exists_reachable (P := ShowsOutstanding) reissues
    (p := fun c => c.task? 0 = some (.assignNextExam "u" "c") ∧
      ∃ e ∈ c.log, e.proc = 0 ∧ e.call = .accessCodeSave "u" "e" "c" "L" 86402000) (by decide)
  have hissues : Issues c e "u" "e" := ⟨⟨_, _, _, hcall⟩, "u", "c", hproc ▸ ht⟩
  exact ⟨c, hc, e, he, hissues, @outstanding_respected plainBcrypt c hc e he "u" "e" hissues⟩

set_option maxRecDepth 100000 in
/-- A third assignment (process 1) is shown the expired code, and issues a second unexpired one. -/
theorem outstanding_hidden :
    ¬∀ c, @Reachable plainBcrypt OneAtATime c → ∀ e ∈ c.log, ∀ userId examId,
      Issues c e userId examId → ¬e.before.Outstanding userId examId := by
  intro hall
  obtain ⟨c, hc, ht, e, he, hproc, hcall, hlive⟩ := exists_reachable (P := OneAtATime)
    (reissues ++ .spawn (.assignNextExam "u" "c") :: List.replicate 8 (.run 1 "K") ++
      List.replicate 5 (.run 1 "M"))
    (p := fun c => c.task? 1 = some (.assignNextExam "u" "c") ∧
      ∃ e ∈ c.log, e.proc = 1 ∧ e.call = .accessCodeSave "u" "e" "c" "M" 86402000 ∧
        e.before.Outstanding "u" "e") (by decide)
  have hissues : Issues c e "u" "e" := ⟨⟨_, _, _, hcall⟩, "u", "c", hproc ▸ ht⟩
  exact hall c hc e he "u" "e" hissues hlive

end LmsBackend.Exams
