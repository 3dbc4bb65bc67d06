import LmsBackend.Exams.Executions

/-!
# Starting an exam, all or nothing

The compensation undoes a start whose Redis call fails. The questions are loaded
after it, and nothing undoes a start whose load fails.
-/

open Async Store

namespace LmsBackend.Exams

variable {i : Nat} {w w' : World} {f : Option ExamFault}

/-- The writes of a start. -/
def StartWrites (w : World) (userId : Option Id) (accessCode : ExamAccessCode)
    (row session : TestSession) (writes : List Write) : Prop :=
  ∃ code usedAt user, w.codes.get accessCode.id = some code ∧ code.usedAt = none ∧
    userId = some user ∧ session = { row with id := session.id, userId := user } ∧
    session.id ∉ w.issued ∧
    writes = [.code { code with usedAt := some usedAt }, .newSession session]

theorem createSession_ends [Bcrypt] (userId : Option Id) (accessCode : ExamAccessCode) (row : TestSession)
    {w₀ : World} (h : w.Opened i none [] w₀) :
    ends f i (ExamService.createSession userId accessCode row) w₀ fun f' r w' =>
      Outcome (fun session => f' = f ∧ ∃ writes,
          StartWrites w userId accessCode row session writes ∧ w.Opened i none writes w')
        (fun _ => w.Alike w' ∧ New w (·.ofTxn = true) f f' ∧ (f' = f → True)) r := by
  have hfault : ∀ {w₁ w₂ : World} {call : Call} {e : Err}, w.Alike w₁ → call.ofTxn = true →
      f = none → reject i call w₁ = some (w₂, e) →
      w.Alike w₂ ∧ New w (·.ofTxn = true) f (some ⟨w₁, call⟩) ∧ (some ⟨w₁, call⟩ = f → True) :=
    fun hw hc hf hx => ⟨hw.trans (reject_alike hx), .inr ⟨hf, _, rfl, hw, hc⟩, fun _ => trivial⟩
  simp only [ExamService.createSession, Prog.bind_eq, await, ends, wlp_bind, wlp_await,
    examSystem_exec, examSystem_reject]
  refine ⟨fun x w' r hx => ?_, fun _ w' e hx => absurd hx (reject_none rfl)⟩
  cases hx
  refine ⟨fun x w' r hx => ?_, fun hf w' e hx => hfault h.1 rfl hf hx⟩
  obtain ⟨hw, ht⟩ := h
  have hcodes : w₀.codes = w.codes := congrArg Tables.codes hw.tables
  simp only [exec, inTxn_of_get ht, hcodes] at hx
  split at hx
  · cases hx
  · split at hx
    · cases hx
      exact ⟨hw, .inl rfl, fun _ => trivial⟩
    · rename_i code hcode
      split at hx
      · cases hx
        exact ⟨hw, .inl rfl, fun _ => trivial⟩
      · rename_i hused
        cases hx
        have hunused : code.usedAt = none := by simpa using hused
        have hopen := World.Opened.write (i := i) ⟨hw, ht⟩
          (.code { code with usedAt := some w₀.now })
        refine ⟨fun x w₂ r hx => ?_, fun hf w₂ e hx => hfault hopen.1 rfl hf hx⟩
        have hx : inTxn i _ _ = some (w₂, r) := hx
        rw [inTxn_of_get hopen.2] at hx
        cases userId with
        | none =>
          cases hx
          exact ⟨hopen.1, .inl rfl, fun _ => trivial⟩
        | some user =>
          simp only at hx
          split at hx
          · rename_i hfresh
            cases hx
            have hnew : x ∉ w.issued := by
              have hissued := congrArg Tables.issued hopen.1.tables
              have hfresh := (World.freshSession_iff.mp hfresh).1
              rwa [show World.issued _ = w.issued from hissued] at hfresh
            refine ⟨rfl, _, ⟨code, w₀.now, user, hcode, hunused, rfl, rfl, hnew, rfl⟩, ?_⟩
            exact hopen.write _
          · cases hx

/-- The writes of a compensation. -/
def UndoWrites (session : TestSession) (code : ExamAccessCode) (writes : List Write) : Prop :=
  writes = [.dropSession session.id, .code { code with usedAt := none }]

theorem compensate_ends [Bcrypt] (session : TestSession) (accessCode : ExamAccessCode) {code : ExamAccessCode}
    (hcode : w.codes.get accessCode.id = some code) {w₀ : World} (h : w.Opened i none [] w₀) :
    ends f i (ExamService.compensate session accessCode) w₀ fun f' r w' =>
      Outcome (fun _ => f' = f ∧ ∃ writes, UndoWrites session code writes ∧ w.Opened i none writes w')
        (fun _ => w.Alike w' ∧ New w (·.ofTxn = true) f f' ∧ (f' = f → False)) r := by
  have hfault : ∀ {w₁ w₂ : World} {call : Call} {e : Err}, w.Alike w₁ → call.ofTxn = true →
      f = none → reject i call w₁ = some (w₂, e) →
      w.Alike w₂ ∧ New w (·.ofTxn = true) f (some ⟨w₁, call⟩) ∧ (some ⟨w₁, call⟩ = f → False) := by
    intro w₁ w₂ call e hw hc hf hx
    refine ⟨hw.trans (reject_alike hx), .inr ⟨hf, _, rfl, hw, hc⟩, fun he => ?_⟩
    cases he.trans hf
  simp only [ExamService.compensate, Prog.bind_eq, await, ends, wlp_bind, wlp_await,
    examSystem_exec, examSystem_reject]
  refine ⟨fun x w' r hx => ?_, fun hf w' e hx => hfault h.1 rfl hf hx⟩
  simp only [exec, inTxn_of_get h.2] at hx
  split at hx
  · cases hx
  · cases hx
    have hopen := h.write (.dropSession session.id)
    refine ⟨fun x w₂ r hx => ?_, fun hf w₂ e hx => hfault hopen.1 rfl hf hx⟩
    have hcodes : (w₀.addWrite ⟨i, none, []⟩ (.dropSession session.id)).codes = w.codes :=
      congrArg Tables.codes hopen.1.tables
    simp only [exec, inTxn_of_get hopen.2, hcodes, hcode] at hx
    split at hx
    · cases hx
    · split at hx
      · rename_i hif
        cases hif.1
      · cases hx
        exact ⟨rfl, _, rfl, hopen.write _⟩

/-! ## What a start leaves -/

/-- Every code that is unused in `w` is the same in `w'`, and no session there has it. -/
def Unspent (w w' : World) : Prop :=
  ∀ code ∈ w.codes.rows, code.usedAt = none →
    code ∈ w'.codes.rows ∧ ∀ session ∈ w'.sessions.rows, session.sessionToken ≠ code.id

theorem unspent_congr {w'' : World} (h : w''.tables = w'.tables) :
    Unspent w w'' ↔ Unspent w w' := by
  have hcodes : w''.codes = w'.codes := congrArg Tables.codes h
  have hsessions : w''.sessions = w'.sessions := congrArg Tables.sessions h
  simp only [Unspent, hcodes, hsessions]

/-- No session has an unused code. -/
theorem OneToOne.free (hI : OneToOne w.tables) {code : ExamAccessCode} (hcode : code ∈ w.codes.rows)
    (hunused : code.usedAt = none) : ∀ session ∈ w.sessions.rows, session.sessionToken ≠ code.id := by
  intro session hsession htoken
  have hused := hI.used _ _ (Table.mem_rows_iff.mp hcode)
  have hs : w.tables.token session.id = some session.sessionToken :=
    Option.map_eq_some_iff.mpr ⟨session, Table.mem_rows_iff.mp hsession, rfl⟩
  rw [htoken] at hs
  exact hused.mpr ⟨session.id, hs⟩ hunused

theorem unspent_of_alike (hI : OneToOne w.tables) (h : w.Alike w') : Unspent w w' := by
  refine (unspent_congr h.tables).mpr fun code hcode hunused => ⟨hcode, ?_⟩
  exact hI.free hcode hunused

variable {userId : Option Id} {accessCode : ExamAccessCode} {row session : TestSession}
  {writes undo : List Write}

theorem StartWrites.spent (h : StartWrites w userId accessCode row session writes)
    (hcode : accessCode ∈ w.codes.rows) (hunused : accessCode.usedAt = none)
    (htoken : row.sessionToken = accessCode.id)
    (hw : w'.tables = (writes.foldl World.apply w).tables) : ¬Unspent w w' := by
  obtain ⟨code, usedAt, user, -, -, -, hsession, -, rfl⟩ := h
  rw [unspent_congr hw]
  intro hall
  have hnone := (hall accessCode hcode hunused).2 session (Table.mem_put.mpr (.inl rfl))
  rw [hsession] at hnone
  exact hnone htoken

theorem StartWrites.undone (hI : OneToOne w.tables)
    (h : StartWrites w userId accessCode row session writes)
    (hw : (writes.foldl World.apply w).Alike w') {code : ExamAccessCode}
    (hcode : w'.codes.get accessCode.id = some code) (hundo : UndoWrites session code undo)
    {w'' : World} (hw' : (undo.foldl World.apply w').Alike w'') : Unspent w w'' := by
  obtain ⟨code₀, usedAt, user, hcode₀, hunused₀, -, -, -, rfl⟩ := h
  have hid : code₀.id = accessCode.id := Table.key_of_get hcode₀
  have hcodes : w'.codes = w.codes.put { code₀ with usedAt := some usedAt } :=
    congrArg Tables.codes hw.tables
  have hsessions : w'.sessions = w.sessions.put session := congrArg Tables.sessions hw.tables
  have hfreed : { code with usedAt := none } = code₀ := by
    rw [hcodes, Table.get_put_of_eq _ hid] at hcode
    cases hcode
    rw [← hunused₀]
  rw [UndoWrites, hfreed] at hundo
  subst hundo
  have hcodes' : w''.codes = w'.codes.put code₀ := congrArg Tables.codes hw'.tables
  have hsessions' : w''.sessions = w'.sessions.erase session.id :=
    congrArg Tables.sessions hw'.tables
  intro c hc hunused
  rw [hcodes', hcodes, hsessions', hsessions]
  constructor
  · by_cases hkey : c.id = code₀.id
    · have hget := Table.mem_rows_iff.mp hc
      rw [show Keyed.key c = accessCode.id from hkey.trans hid, hcode₀] at hget
      exact Table.mem_put.mpr (.inl (Option.some.inj hget).symm)
    · exact Table.mem_put.mpr (.inr ⟨Table.mem_put.mpr (.inr ⟨hc, hkey⟩), hkey⟩)
  · intro s hs
    obtain ⟨hs, hkey⟩ := Table.mem_erase.mp hs
    rcases Table.mem_put.mp hs with rfl | ⟨hs, -⟩
    · exact absurd rfl hkey
    · exact hI.free hc hunused s hs

/-! ## `startExam` -/

theorem verify_mem [Bcrypt] {w : World} {userId : Option Id} {code : String} {examId : Id}
    {accessCode : ExamAccessCode} {exam : Exam}
    (h : w.verify userId code examId = .ok (accessCode, exam)) :
    accessCode ∈ w.codes.rows ∧ accessCode.usedAt = none := by
  unfold World.verify at h
  split at h
  · cases h
  · split at h
    · cases h
    · split at h
      · rename_i hfind
        cases h
        have hmem := List.mem_of_find?_eq_some hfind
        rw [World.candidates, List.mem_insertionSort] at hmem
        have hmem := List.mem_filter.mp hmem
        exact ⟨hmem.1, (of_decide_eq_true hmem.2).2.2⟩
      · cases h

/-- The fault is in the transaction that compensates, the only one after the session row of the
start is committed. -/
def InCompensation (w : World) (x : ExamFault) : Prop :=
  x.call.ofTxn = true ∧ x.world.issued ≠ w.issued

/-- What an error of `startExam` from `w` leaves. -/
def StartFailed (w : World) (examId : Id) (f : Option ExamFault) (w' : World) : Prop :=
  OneToOne w.tables → (∀ x ∈ f, ¬InCompensation w x) →
    (Unspent w w' ↔ ∀ x ∈ f, x.call ≠ .examFindWithQuestions examId true)

theorem StartFailed.early {examId : Id} {kind : Call → Prop} (hw : w.Alike w') (hf : New w kind none f)
    (hk : ∀ call, kind call → call ≠ .examFindWithQuestions examId true) :
    StartFailed w examId f w' := by
  refine fun hI _ => iff_of_true (unspent_of_alike hI hw) fun x hx => ?_
  rcases hf with rfl | ⟨-, y, rfl, -, hy⟩
  · cases hx
  · cases hx
    exact hk _ hy

section

variable [Bcrypt]

/-- Once the session is committed: a Redis call that rejects is made up for. -/
theorem start_or_compensate_ends
    (h : StartWrites w userId accessCode row session writes) {w₁ : World}
    (hw : (writes.foldl World.apply w).Alike w₁) (hi : w₁.txns.get i = none) (examId : Id)
    (data : ExamSessionInfo) (ttlSeconds : Int) :
    ends none i (tryCatch (TestSessionService.start data ttlSeconds) fun err => do
        transaction (ExamService.compensate session accessCode)
        throw err) w₁ fun f r w' =>
      Outcome (fun _ => f = none ∧ w'.tables = w₁.tables) (fun _ => StartFailed w examId f w') r := by
  obtain ⟨code, hcode⟩ : ∃ code, w₁.codes.get accessCode.id = some code := by
    obtain ⟨code₀, usedAt, user, hcode₀, -, -, -, -, rfl⟩ := id h
    have hcodes : w₁.codes = w.codes.put { code₀ with usedAt := some usedAt } :=
      congrArg Tables.codes hw.tables
    have hid : code₀.id = accessCode.id := Table.key_of_get hcode₀
    exact ⟨_, by rw [hcodes, Table.get_put_of_eq _ hid]⟩
  have hissued : w₁.issued ≠ w.issued := by
    obtain ⟨code₀, usedAt, user, -, -, -, -, -, rfl⟩ := h
    rw [show w₁.issued = session.id :: w.issued from congrArg Tables.issued hw.tables]
    simp
  -- The compensation, after a fault at the Redis call or without one.
  have hcompensate : ∀ f e, (∀ x ∈ f, x.call ≠ .examFindWithQuestions examId true) →
      ends f i (α := Unit) (do
        transaction (ExamService.compensate session accessCode)
        throw e) w₁ fun f' r w' =>
        Outcome (fun _ => f' = none ∧ w'.tables = w₁.tables)
          (fun _ => StartFailed w examId f' w') r := by
    intro f e hf
    rw [Prog.bind_eq, ends, wlp_bind]
    refine wlp_mono (transaction_ends hi fun w₀ h₀ => compensate_ends session accessCode hcode h₀) ?_
    rintro f' (e' | ⟨⟩) w' hr
    · obtain ⟨-, hnew, hown⟩ := hr
      intro _ hin
      rcases hnew with he | ⟨-, x, rfl, hx, hcall⟩
      · cases hown he
      · have hissued' : x.world.issued = w₁.issued := congrArg Tables.issued hx.tables
        exact absurd ⟨hcall, hissued' ▸ hissued⟩ (hin x rfl)
    · obtain ⟨rfl, undo, hundo, hw', -⟩ := hr
      exact fun hI _ => iff_of_true (h.undone hI hw hcode hundo hw') hf
  rw [Prog.tryCatch_eq, ends, wlp_handle]
  simp only [TestSessionService.start, RedisService.setJson, await, wlp_await, examSystem_exec,
    examSystem_reject]
  constructor
  · intro x w' r hx
    simp only [exec] at hx
    split at hx
    · cases hx
      exact hcompensate none _ (by simp)
    · cases hx
      exact ⟨trivial, rfl⟩
  · intro _ w' e hx
    cases hx
    exact hcompensate _ _ (by simp)

/-- The start has verified the code of a student, and the session that it answers with has it. -/
def StartedWith (w : World) (userId : Option Id) (code : String) (examId : Id) (w' : World)
    (s : ExamService.Started) : Prop :=
  ∃ accessCode exam, w.verify userId code examId = .ok (accessCode, exam) ∧ userId ≠ none ∧
    ∃ session ∈ w'.sessions.rows, session.id = s.sessionId ∧ session.sessionToken = accessCode.id

omit [Bcrypt] in
theorem StartWrites.session_mem (h : StartWrites w userId accessCode row session writes)
    (hw : w'.tables = (writes.foldl World.apply w).tables) :
    session ∈ w'.sessions.rows ∧ session.sessionToken = row.sessionToken ∧ userId ≠ none := by
  obtain ⟨code, usedAt, user, -, -, huser, hsession, -, rfl⟩ := h
  have hsessions : w'.sessions = w.sessions.put session := congrArg Tables.sessions hw
  refine ⟨?_, by rw [hsession], by simp [huser]⟩
  rw [hsessions]
  exact Table.mem_put.mpr (.inl rfl)

theorem startExam_ends (hi : w.txns.get i = none) (userId : Option Id)
    (code : String) (examId : Id) :
    ends none i (ExamService.startExam userId code examId) w fun f r w' =>
      Outcome (StartedWith w userId code examId w') (fun _ => StartFailed w examId f w') r := by
  rw [ExamService.startExam, Prog.bind_eq, ends, wlp_bind]
  refine wlp_mono (findAndVerifyCode_ends userId code examId) ?_
  rintro f r w₁ (⟨rfl, rfl, rfl⟩ | ⟨⟨e, rfl⟩, hw, hf⟩)
  · have hearly : ∀ w', w₁.Alike w' → StartFailed w₁ examId none w' := by
      intro w' hw'
      have hnew : New w₁ (fun _ => False) none none := .inl rfl
      exact .early hw' hnew (by simp)
    cases hverify : w₁.verify userId code examId with
    | error e => exact hearly w₁ (.refl w₁)
    | ok found =>
      obtain ⟨accessCode, exam⟩ := found
      obtain ⟨hcode, hunused⟩ := verify_mem hverify
      simp only [Prog.bind_eq, await, wlp_bind, wlp_await, examSystem_exec, examSystem_reject]
      constructor
      · intro x w' r hx
        obtain rfl := exec_reads rfl hx
        rcases r with e | existing
        · exact hearly w' (.refl w')
        · by_cases hexisting : existing.isSome = true
          · simp only [hexisting, if_true]
            exact hearly w' (.refl w')
          · simp only [hexisting, Bool.false_eq_true, if_false, wlp_bind, wlp_await,
              examSystem_exec, examSystem_reject]
            refine ⟨fun x w'' r hx => ?_, fun _ w'' e hx => absurd hx (reject_none rfl)⟩
            cases hx
            refine wlp_mono (transaction_ends hi fun w₀ h₀ => createSession_ends _ _ _ h₀) ?_
            rintro f' (e | session) w₂ hr
            · obtain ⟨hw, hnew, -⟩ := hr
              exact .early hw hnew (by rintro _ hc rfl; cases hc)
            · obtain ⟨rfl, writes, h, hw, hi'⟩ := hr
              simp only
              refine wlp_mono (start_or_compensate_ends h hw hi' examId _ _) ?_
              rintro f'' (e | ⟨⟩) w₃ hr
              · exact hr
              · obtain ⟨rfl, htables⟩ := hr
                constructor
                · intro x w₄ r hx
                  cases hx
                  obtain ⟨hmem, htoken, huser⟩ := h.session_mem (htables.trans hw.tables)
                  exact ⟨accessCode, exam, hverify, huser, session, hmem, rfl, htoken⟩
                · intro _ w₄ e hx
                  have hw₄ := ((reject_alike hx).tables.trans htables).trans hw.tables
                  refine fun _ _ => iff_of_false (h.spent hcode hunused rfl hw₄) ?_
                  simp
      · intro _ w' e hx
        have hnew : New w₁ (· = .testSessionFindActive userId examId) none
            (some ⟨w₁, .testSessionFindActive userId examId⟩) := .inr ⟨rfl, _, rfl, .refl _, rfl⟩
        refine .early (reject_alike hx) hnew ?_
        rintro _ rfl
        simp
  · refine .early hw hf ?_
    rintro _ (rfl | rfl) <;> simp

/-- A start by itself from any state of the backend, in which at most one call rejects, and none
of the compensation. When it ends with an error, every code is unused as before and no session has
it, if and only if it was not the load of the questions that rejected. -/
theorem start_all_or_nothing {c : Pool} (hc : Reachable anyStep c) (hi : c.procs.length ≤ i)
    {userId : Option Id} {code : String} {examId : Id} {e : Err}
    (h : Ends examSystem i f c.world (ExamService.startExam userId code examId) w' (.error e))
    (hf : ∀ x ∈ f, ¬InCompensation c.world x) :
    Unspent c.world w' ↔ ∀ x ∈ f, x.call ≠ .examFindWithQuestions examId true :=
  h.wlp (startExam_ends (hc.base.fresh i hi) userId code examId) hc.oneToOne hf

end

/-! ## The school -/

instance : Decidable (Unspent w w') :=
  inferInstanceAs (Decidable (∀ code ∈ w.codes.rows, _ → _ ∧ _))

/-- A start of the school by itself. `n` calls answer, and the next rejects. -/
def startSchool (n : Nat) : Option (Option ExamFault × World × Except Err ExamService.Started) :=
  follow (@examSystem plainBcrypt) 0 (List.replicate n (some "S") ++ none :: List.replicate 6 (some "S"))
    school (ExamService.startExam (some "u") "key" "e")

theorem startSchool_ends {n : Nat} {f : Option ExamFault} {w' : World}
    {r : Except Err ExamService.Started} (h : startSchool n = some (f, w', r)) :
    Ends (@examSystem plainBcrypt) 0 f school (ExamService.startExam (some "u") "key" "e") w' r :=
  ends_of_follow h

instance {w : World} {x : ExamFault} : Decidable (InCompensation w x) :=
  inferInstanceAs (Decidable (_ ∧ _))

/-- The fault of a start of the school that ends with an error, and the state it leaves. -/
def startSchoolError (n : Nat) : Option (ExamFault × World × Err) :=
  match startSchool n with
  | some (some x, w', .error e) => some (x, w', e)
  | _ => none

theorem startSchoolError_ends {n : Nat} {x : ExamFault} {w' : World} {e : Err}
    (h : startSchoolError n = some (x, w', e)) :
    Ends (@examSystem plainBcrypt) 0 (some x) school (ExamService.startExam (some "u") "key" "e")
      w' (.error e) := by
  unfold startSchoolError at h
  split at h
  · rename_i hs
    cases h
    exact startSchool_ends hs
  · cases h

set_option maxRecDepth 100000 in
/-- The Redis call of a start rejects. -/
theorem start_all_or_nothing_redis :
    ∃ x w' e, Ends (@examSystem plainBcrypt) 0 (some x) school
      (ExamService.startExam (some "u") "key" "e") w' (.error e) ∧ Unspent school w' := by
  have hstart : (startSchoolError 11).any (fun out => ¬InCompensation school out.1 ∧
      out.1.call ≠ .examFindWithQuestions "e" true) = true := by decide
  obtain ⟨⟨x, w', e⟩, hout, hx⟩ := (Option.any_eq_true _ _).mp hstart
  obtain ⟨hin, hcall⟩ := of_decide_eq_true hx
  have hends := startSchoolError_ends hout
  refine ⟨x, w', e, hends, ?_⟩
  refine (@start_all_or_nothing 0 w' (some x) plainBcrypt (.initial school)
    (.init school_initial) (Nat.zero_le 0) _ _ _ _ hends ?_).mpr ?_ <;> simpa

set_option maxRecDepth 100000 in
/-- The load of the questions rejects. -/
theorem start_spends_code :
    ¬∀ c i f userId code examId w' e, @Reachable plainBcrypt anyStep c → c.procs.length ≤ i →
      Ends (@examSystem plainBcrypt) i f c.world (ExamService.startExam userId code examId) w'
        (.error e) → (∀ x ∈ f, ¬InCompensation c.world x) → Unspent c.world w' := by
  intro hall
  have hstart : (startSchoolError 12).any (fun out => ¬InCompensation school out.1 ∧
      ¬Unspent school out.2.1) = true := by decide
  obtain ⟨⟨x, w', e⟩, hout, hx⟩ := (Option.any_eq_true _ _).mp hstart
  obtain ⟨hin, hspent⟩ := of_decide_eq_true hx
  exact hspent (hall (.initial school) 0 (some x) _ _ _ _ _ (.init school_initial) (Nat.zero_le 0)
    (startSchoolError_ends hout) (by simpa))

end LmsBackend.Exams
