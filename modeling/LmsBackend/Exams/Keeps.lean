import LmsBackend.Exams.Phase

/-! # Every execution keeps to its phases -/

open Async Store

namespace LmsBackend.Exams

open ExamService Phase

@[simp] theorem await_eq (c : Call) : await c = Prog.await c := rfl

attribute [local simp] failed holdsTxn busy allows Call.reads

variable {userId examId certId sessionId : Id}

/-! ## Codes -/

theorem issueAccessCode_keeps (exam : Exam) :
    monitor.wp (issueAccessCode userId exam) .quiet (fun _ g => g = .quiet)
      fun _ g => g = .quiet := by
  simp [issueAccessCode, nextOk, allows, Call.reads, failed, holdsTxn]

theorem assignExam_keeps :
    monitor.wp (assignExam userId examId certId) .quiet (fun _ g => g = .quiet)
      fun _ g => g = .quiet := by
  simp only [assignExam, Prog.bind_eq, await_eq, Monitor.wp_bind, Monitor.wp_await]
  refine ⟨fun exam? => ⟨.quiet, rfl, ?_⟩, fun e => rfl⟩
  split
  · simp
  · split
    · simp
    · split
      · simp
      · exact issueAccessCode_keeps _

theorem getAttemptedExamIds_keeps :
    monitor.wp (getAttemptedExamIds userId certId) .quiet (fun _ g => g = .quiet)
      fun _ g => g = .quiet ∨ g = .dropping := by
  have hrelease (Q : Phase → Prop) (hQ : Q .quiet) :
      (∀ a : Resp .release, ∃ g', monitor.next .quiet .release a = some g' ∧ Q g') ∧
        ∀ _ : Err, monitor.failed .quiet .release = .quiet ∨
          monitor.failed .quiet .release = .dropping :=
    ⟨fun _ => ⟨.quiet, rfl, hQ⟩, fun _ => .inl rfl⟩
  simp only [getAttemptedExamIds, Prog.bind_eq, await_eq, Prog.tryCatch_eq, Prog.throw_eq,
    Prog.pure_eq, Monitor.wp_bind, Monitor.wp_ensure, Monitor.wp_handle, Monitor.wp_await,
    Monitor.wp_ret, Monitor.wp_throw]
  refine ⟨fun _ => ⟨.quiet, rfl, fun _ => ⟨.readTx, rfl, ?_⟩, fun _ => .inr rfl⟩, fun _ => .inl rfl⟩
  refine ⟨fun _ => ⟨.readTx, rfl, fun rows => ⟨.readTx, rfl,
    fun _ => ⟨.quiet, rfl, hrelease _ rfl⟩, fun err => ?_⟩, fun err => ?_⟩, fun err => ?_⟩
  -- Whichever query rejects, the transaction is rolled back.
  all_goals
    exact ⟨fun _ => ⟨.quiet, rfl, hrelease _ (.inl rfl)⟩, fun _ => hrelease _ (.inl rfl)⟩

theorem assignNextExam_keeps :
    monitor.wp (assignNextExam userId certId) .quiet (fun _ g => g = .quiet)
      fun _ g => g = .quiet ∨ g = .dropping := by
  simp only [assignNextExam, Prog.bind_eq, await_eq, Monitor.wp_bind, Monitor.wp_await]
  refine ⟨fun pool => ⟨.quiet, rfl, ?_⟩, fun e => .inl rfl⟩
  split
  · simp
  · rw [Monitor.wp_bind]
    refine monitor.wp_mono getAttemptedExamIds_keeps ?_ fun _ _ h => h
    rintro attempted _ rfl
    split
    · simp
    · simp only [Monitor.wp_bind, Monitor.wp_await]
      refine ⟨fun outstanding => ⟨.quiet, rfl, fun now => ⟨.quiet, rfl, ?_⟩, fun e => .inl rfl⟩,
        fun e => .inl rfl⟩
      split
      · simp
      · rw [Monitor.wp_bind]
        exact monitor.wp_mono (issueAccessCode_keeps _) (fun _ _ h => h) fun _ _ h => .inl h

theorem usable_cons {c code : ExamAccessCode} {codes : List ExamAccessCode} {seen : Option Time}
    (h : c ∈ usable codes seen) : c ∈ usable (code :: codes) seen := by
  obtain ⟨hmem, hseen⟩ := List.mem_filter.mp h
  exact List.mem_filter.mpr ⟨List.mem_cons_of_mem _ hmem, hseen⟩

/-- The loop only reads, and picks a candidate that was not expired when it was looked at. `G` is
the phase after a look at that time. -/
theorem firstMatch_keeps {G : Option Time → Phase}
    (hnow : ∀ seen now, (G seen).nextOk .now now = some (G (some now)))
    (hcompare : ∀ seen p h b, (G seen).nextOk (.bcryptCompare p h) b = some (G seen))
    (hfail : ∀ seen c, (c = .now ∨ ∃ p h, c = .bcryptCompare p h) → (G seen).failed c = .quiet)
    (code : String) (candidates : List ExamAccessCode) (seen : Option Time) :
    monitor.wp (firstMatch code candidates) (G seen)
      (fun c? g => ∃ seen, g = G seen ∧ ∀ c, c? = some c → c ∈ usable candidates seen)
      fun _ g => g = .quiet := by
  induction candidates generalizing seen with
  | nil => exact ⟨seen, rfl, by simp⟩
  | cons candidate rest ih =>
    simp only [firstMatch, Prog.bind_eq, await_eq, Monitor.wp_bind, Monitor.wp_await]
    refine ⟨fun now => ⟨G (some now), hnow _ _, ?_⟩, fun e => hfail _ _ (.inl rfl)⟩
    have hrest : monitor.wp (firstMatch code rest) (G (some now))
        (fun c? g => ∃ seen, g = G seen ∧ ∀ c, c? = some c → c ∈ usable (candidate :: rest) seen)
        fun _ g => g = .quiet := by
      refine monitor.wp_mono (ih _) ?_ fun _ _ h => h
      rintro c? g ⟨seen, hg, hc⟩
      exact ⟨seen, hg, fun c h => usable_cons (hc c h)⟩
    split
    · exact hrest
    · rename_i hlive
      rw [Monitor.wp_bind, Monitor.wp_await]
      refine ⟨fun matched => ⟨G (some now), hcompare _ _ _ matched, ?_⟩,
        fun e => hfail _ _ (.inr ⟨_, _, rfl⟩)⟩
      cases matched with
      | false => exact hrest
      | true =>
        refine ⟨some now, rfl, ?_⟩
        rintro c ⟨⟩
        simpa [usable] using hlive

theorem findAndVerifyCode_keeps (code : String) :
    monitor.wp (findAndVerifyCode (some userId) code examId) (.looking userId examId)
      (fun p g => ∃ codes seen, g = .candidates userId examId codes seen ∧ p.1 ∈ usable codes seen)
      fun _ g => g.busy = false := by
  simp only [findAndVerifyCode, Prog.bind_eq, await_eq, Monitor.wp_bind, Monitor.wp_await]
  refine ⟨fun exam? => ⟨.looking userId examId, rfl, ?_⟩, fun e => rfl⟩
  split
  · exact rfl
  · split
    · exact rfl
    · simp only [Monitor.wp_bind, Monitor.wp_await]
      refine ⟨fun codes => ⟨.candidates userId examId codes none, by simp [nextOk], ?_⟩,
        fun e => rfl⟩
      refine monitor.wp_mono (firstMatch_keeps (G := .candidates userId examId codes)
        (fun _ _ => rfl) (fun _ _ _ _ => rfl)
        (by rintro seen _ (rfl | ⟨p, h, rfl⟩) <;> rfl) code codes none) ?_
        (by rintro _ _ rfl; rfl)
      rintro c? _ ⟨seen, rfl, hc⟩
      split
      · exact ⟨codes, seen, rfl, hc _ rfl⟩
      · exact rfl

theorem findAndVerifyCode_quiet (userId : Option Id) (code : String) :
    monitor.wp (findAndVerifyCode userId code examId) .quiet (fun _ g => g = .quiet)
      fun _ g => g = .quiet := by
  simp only [findAndVerifyCode, Prog.bind_eq, await_eq, Monitor.wp_bind, Monitor.wp_await]
  refine ⟨fun exam? => ⟨.quiet, rfl, ?_⟩, fun e => rfl⟩
  split
  · exact rfl
  · split
    · exact rfl
    · simp only [Monitor.wp_bind, Monitor.wp_await]
      refine ⟨fun codes => ⟨.quiet, rfl, ?_⟩, fun e => rfl⟩
      refine monitor.wp_mono (firstMatch_keeps (G := fun _ => .quiet) (fun _ _ => rfl)
        (fun _ _ _ _ => rfl) (by rintro seen _ (rfl | ⟨p, h, rfl⟩) <;> rfl) code codes none) ?_
        fun _ _ h => h
      rintro c? _ ⟨seen, rfl, -⟩
      split <;> exact rfl

/-! ## Starting -/

theorem createSession_keeps {codes : List ExamAccessCode} {accessCode : ExamAccessCode}
    {row : TestSession}
    (hrow : startsFrom userId examId codes accessCode.id row) :
    monitor.wp (createSession (some userId) accessCode row) (.consuming userId examId codes)
      (fun s g => g = .inserted accessCode.id s) fun _ g => g = .dropping := by
  simp only [createSession, Prog.bind_eq, await_eq, Monitor.wp_bind, Monitor.wp_await]
  refine ⟨fun now => ⟨.consuming userId examId codes, rfl, ?_⟩, fun e => rfl⟩
  refine ⟨fun affected => ⟨if affected = 0 then .dropping else .consumed userId examId codes accessCode.id, by simp [nextOk], ?_⟩, fun e => rfl⟩
  split
  · simp
  · simp [nextOk, failed, holdsTxn, hrow]

theorem compensate_keeps (accessCode : ExamAccessCode) (session : TestSession) :
    monitor.wp (compensate session accessCode) (.undoBegun accessCode.id session)
      (fun _ g => g = .undoRestored accessCode.id session) fun _ g => g = .dropping := by
  simp [compensate, nextOk, failed, holdsTxn]

/-- `transaction` from a phase that may begin one. -/
theorem transaction_keeps {α : Type} {body : Promise α} {g k : Phase} {Q : α → Phase → Prop}
    (hstart : g.nextOk .startTransaction () = some k)
    (hfail : g.failed .startTransaction = .dropping)
    (hbody : monitor.wp body k
      (fun a g' => (∃ g'', g'.nextOk .commitTransaction () = some g'' ∧ Q a g'') ∧
        g'.failed .commitTransaction = .dropping)
      fun _ g' => g' = .dropping) :
    monitor.wp (transaction body) g Q fun _ g' => g' = .quiet := by
  have hdrop : ∀ err : Err, monitor.wp (do
      tryCatch (await .rollbackTransaction) fun _ => pure ()
      throw err : Promise α) .dropping Q fun _ g => g = .quiet := by
    simp [nextOk, failed]
  refine (monitor.wp_handle _).mpr ((monitor.wp_bind _).mpr ((monitor.wp_await _).mpr
    ⟨fun _ => ⟨k, hstart, ?_⟩, fun err => ?_⟩))
  · refine (monitor.wp_bind _).mpr (monitor.wp_mono hbody ?_ (by rintro err _ rfl; exact hdrop err))
    rintro a g' ⟨hcommit, hg'⟩
    refine (monitor.wp_bind _).mpr ((monitor.wp_await _).mpr ⟨fun _ => hcommit, fun err => ?_⟩)
    rw [monitor_failed, hg']
    exact hdrop err
  · rw [monitor_failed, hfail]
    exact hdrop err

theorem startExam_keeps (code : String) :
    monitor.wp (startExam (some userId) code examId) (.looking userId examId)
      (fun _ g => g.busy = false) fun _ g => g.busy = false := by
  simp only [startExam, Prog.bind_eq, Monitor.wp_bind]
  refine monitor.wp_mono (findAndVerifyCode_keeps code) ?_ fun _ _ h => h
  rintro ⟨accessCode, exam⟩ _ ⟨codes, seen, rfl, hcode⟩
  simp only [await_eq, Monitor.wp_await]
  refine ⟨fun existing => ?_, fun e => rfl⟩
  cases existing with
  | some existing => exact ⟨.quiet, by simp [nextOk], rfl⟩
  | none =>
    refine ⟨.guarded userId examId (usable codes seen), by simp [nextOk], ?_⟩
    simp only [Option.isSome_none, Bool.false_eq_true, if_false, Monitor.wp_bind, Monitor.wp_await]
    refine ⟨fun startedAt => ⟨.guarded userId examId (usable codes seen), rfl, ?_⟩, fun e => rfl⟩
    refine monitor.wp_mono (transaction_keeps (k := .consuming userId examId (usable codes seen))
      (Q := fun s g => g = .created accessCode.id s) rfl rfl ?_) ?_ (by rintro _ _ rfl; rfl)
    · have hrow : startsFrom userId examId (usable codes seen) accessCode.id
          ⟨"", userId, examId, some accessCode.certId, accessCode.id, startedAt,
            exam.durationMinutes * 60, startedAt + exam.durationMinutes * 60 * 1000, .active,
            none, none⟩ :=
        ⟨rfl, rfl, rfl, rfl, rfl, accessCode, hcode, rfl, rfl⟩
      refine monitor.wp_mono (createSession_keeps hrow) ?_ fun _ _ h => h
      rintro s _ rfl
      exact ⟨⟨_, rfl, rfl⟩, rfl⟩
    · rintro session _ rfl
      simp only [TestSessionService.start, RedisService.setJson, Prog.tryCatch_eq, await_eq,
        Monitor.wp_handle, Monitor.wp_await]
      refine ⟨fun _ => ⟨.quiet, by simp [nextOk, Json.session?], ?_⟩, fun e => ?_⟩
      · simp [nextOk, allows, Call.reads, failed, busy, holdsTxn]
      · simp only [Monitor.wp_bind]
        refine monitor.wp_mono (transaction_keeps (k := .undoBegun accessCode.id session)
          (Q := fun _ g => g = .quiet) rfl rfl ?_) ?_ (by rintro _ _ rfl; rfl)
        · refine monitor.wp_mono (compensate_keeps accessCode session) ?_ fun _ _ h => h
          rintro _ _ rfl
          exact ⟨⟨_, rfl, rfl⟩, rfl⟩
        · rintro _ _ rfl
          exact rfl

/-! ## Saving -/

theorem getOwnedSession_keeps {g : Phase} {allowed : List TestSessionStatus}
    {Q : TestSession → Phase → Prop}
    (hnone : ∃ g', g.read sessionId none = some g' ∧ g'.busy = false)
    (hsome : ∀ row, ∃ g', g.read sessionId (some row) = some g' ∧
      if row.userId = userId ∧ row.status ∈ allowed then Q row g' else g'.busy = false)
    (hfail : (g.failed (.testSessionFindOne sessionId)).busy = false) :
    monitor.wp (getOwnedSession sessionId userId allowed) g Q fun _ g' => g'.busy = false := by
  simp only [getOwnedSession, Prog.bind_eq, await_eq, Monitor.wp_bind, Monitor.wp_await]
  refine ⟨fun row? => ?_, fun e => hfail⟩
  cases row? with
  | none => exact hnone
  | some row =>
    obtain ⟨g', hg', h⟩ := hsome row
    refine ⟨g', hg', ?_⟩
    by_cases hu : row.userId = userId <;> by_cases hs : row.status ∈ allowed <;>
      simpa [hu, hs] using h

theorem autosave_keeps (answers : Answers) :
    monitor.wp (ExamService.autosave sessionId userId answers) (.saveGuard sessionId userId answers)
      (fun _ g => g = .saved) fun _ g => g.busy = false := by
  simp only [ExamService.autosave, Prog.bind_eq, Monitor.wp_bind]
  refine monitor.wp_mono (getOwnedSession_keeps (Q := fun row g => g = .saveGet sessionId row answers)
    ⟨.quiet, by simp [Phase.read], rfl⟩ (fun row => ?_) rfl) ?_ fun _ _ h => h
  · by_cases h : row.userId = userId ∧ row.status = .active <;> simp [Phase.read, h, busy, holdsTxn]
  · rintro session _ rfl
    simp only [TestSessionService.autosave, RedisService.getJson, RedisService.setJsonKeepTtl, Prog.bind_eq, await_eq, Monitor.wp_bind, Monitor.wp_await]
    refine ⟨fun existing => ?_, fun e => rfl⟩
    cases hdata : existing.bind Json.session? with
    | none => simp [nextOk, hdata, busy, holdsTxn]
    | some data =>
      refine ⟨.saveSet sessionId session answers data, by simp [nextOk, hdata], ?_⟩
      simp only [Monitor.wp_await]
      refine ⟨fun saved => ⟨if saved then .saveMirror sessionId session answers else .quiet, by simp [nextOk], ?_⟩, fun e => rfl⟩
      cases saved with
      | false => exact rfl
      | true => simp [nextOk, failed, busy, holdsTxn]

theorem getSessionStatus_keeps :
    monitor.wp (getSessionStatus sessionId userId) .quiet (fun _ g => g = .quiet)
      fun _ g => g.busy = false := by
  simp only [getSessionStatus, Prog.bind_eq, Monitor.wp_bind]
  refine monitor.wp_mono (getOwnedSession_keeps (Q := fun row g => g = .quiet)
    ⟨.quiet, rfl, rfl⟩ (fun row => ⟨.quiet, rfl, by split <;> rfl⟩) rfl) ?_ fun _ _ h => h
  rintro session _ rfl
  simp [TestSessionService.getSession, RedisService.getJson, RedisService.pttl, nextOk, allows,
    Call.reads, failed, busy, holdsTxn]

theorem handleJoinSession_keeps :
    monitor.wp (ExamGateway.handleJoinSession sessionId userId) .quiet (fun _ g => g = .quiet)
      fun _ g => g = .quiet := by
  simp only [ExamGateway.handleJoinSession, TestSessionService.getSession, RedisService.getJson,
    RedisService.pttl, Prog.bind_eq, Prog.pure_eq, await_eq, Monitor.wp_bind, Monitor.wp_await,
    Monitor.wp_ret]
  refine ⟨fun data => ⟨.quiet, rfl, fun pttlMs => ⟨.quiet, rfl, ?_⟩, fun e => rfl⟩, fun e => rfl⟩
  split
  · exact rfl
  · split <;> exact rfl

/-! ## Submitting -/

theorem persist_keeps (d : Submission) (attempt : ExamAttempt)
    (h : d.makes attempt.submittedAt attempt) :
    monitor.wp (persist d.session d.answers attempt) (.begun d) (fun _ g => g = .closed d)
      fun _ g => g = .dropping := by
  simp only [persist, Prog.bind_eq, await_eq, Monitor.wp_bind, Monitor.wp_await]
  refine ⟨fun _ => ⟨.begun d, rfl, ?_⟩, fun e => rfl⟩
  have hstatus : (if attempt.status = .autoSubmitted then TestSessionStatus.autoSubmitted else .submitted) = d.status.session := by
    rw [h.2.2.2.2.2.2.1]
    cases d.status <;> rfl
  refine ⟨fun affected => ⟨if affected = 1 then .moved d attempt.submittedAt else .dropping, by simp [nextOk, hstatus], ?_⟩, fun e => rfl⟩
  split
  · simp_all
  · simp_all [nextOk, failed, holdsTxn]

theorem scoreAndPersist_keeps (d : Submission) :
    monitor.wp (scoreAndPersist d.session d.answers d.status d.lateFlag) (.scoring d)
      (fun _ g => g = .quiet) fun _ g => g.busy = false := by
  simp only [scoreAndPersist, scoreAnswers, Prog.bind_eq, Prog.pure_eq, Monitor.wp_bind]
  refine (monitor.wp_await _).mpr ⟨fun exam? => ⟨.scoring d, rfl, ?_⟩, fun e => rfl⟩
  refine (monitor.wp_await _).mpr ⟨fun submittedAt => ⟨.scoring d, rfl, ?_⟩, fun e => rfl⟩
  refine (monitor.wp_await _).mpr ⟨fun _ => ⟨.scoring d, rfl, ?_⟩, fun e => rfl⟩
  refine (monitor.wp_await _).mpr ⟨fun _ => ⟨.begun d, rfl, ?_⟩, fun e => rfl⟩
  have hattempt : d.makes submittedAt
      (attemptOf d.session d.answers d.status d.lateFlag (scoreOf exam? d.answers) submittedAt) :=
    ⟨rfl, rfl, rfl, rfl, rfl, rfl, rfl, rfl⟩
  refine (monitor.wp_ensure _).mpr ((monitor.wp_handle _).mpr ?_)
  refine monitor.wp_mono (persist_keeps d _ hattempt) ?_ ?_
  · rintro _ _ rfl
    simp [TestSessionService.deleteSession, RedisService.del, nextOk, allows, failed, busy, holdsTxn]
  · rintro _ _ rfl
    simp [nextOk, allows, Call.reads, failed, busy, holdsTxn]

theorem submitExam_keeps (answers : Answers) :
    monitor.wp (submitExam sessionId userId answers) (.submitGuard sessionId userId answers)
      (fun _ g => g = .quiet) fun _ g => g.busy = false := by
  refine (monitor.wp_bind _).mpr (monitor.wp_mono (getOwnedSession_keeps
    (Q := fun row g => g = .scoring ⟨row, answers, .submitted, false⟩)
    ⟨.quiet, by simp [Phase.read], rfl⟩ (fun row => ?_) rfl) ?_ fun _ _ h => h)
  · by_cases h : row.userId = userId ∧ row.status = .active <;> simp [Phase.read, h, busy, holdsTxn]
  · rintro session _ rfl
    exact scoreAndPersist_keeps ⟨session, answers, .submitted, false⟩

theorem lateSubmitExam_keeps (answers : Answers) :
    monitor.wp (lateSubmitExam sessionId userId answers) (.lateGuard sessionId userId answers)
      (fun _ g => g = .quiet) fun _ g => g.busy = false := by
  refine (monitor.wp_bind _).mpr (monitor.wp_mono (getOwnedSession_keeps
    (Q := fun row g => g = .lateGate sessionId row answers)
    ⟨.quiet, by simp [Phase.read], rfl⟩ (fun row => ?_) rfl) ?_ fun _ _ h => h)
  · by_cases h : row.userId = userId ∧ row.status = .expired <;>
      simp [Phase.read, h, busy, holdsTxn]
  · rintro session _ rfl
    simp only [TestSessionService.consumeGrace, RedisService.getDelJson, Prog.bind_eq, await_eq,
      Prog.pure_eq, Monitor.wp_bind, Monitor.wp_await, Monitor.wp_ret]
    refine ⟨fun value? => ?_, fun e => rfl⟩
    cases hsnap : value?.bind Json.grace? with
    | none => simp [nextOk, hsnap, busy, holdsTxn]
    | some snapshot =>
      refine ⟨.scoring ⟨session, if answers ≠ [] then answers else snapshot, .submitted, true⟩,
        by simp [nextOk, hsnap], ?_⟩
      exact scoreAndPersist_keeps
        ⟨session, if answers ≠ [] then answers else snapshot, .submitted, true⟩

theorem autoSubmitFromSnapshot_keeps :
    monitor.wp (autoSubmitFromSnapshot sessionId) (.autoGuard sessionId)
      (fun _ g => g.busy = false) fun _ g => g.busy = false := by
  refine (monitor.wp_bind _).mpr ((monitor.wp_await _).mpr ⟨fun session? => ?_, fun e => rfl⟩)
  cases session? with
  | none => exact ⟨.quiet, by simp [nextOk, Phase.read], rfl⟩
  | some session =>
    by_cases h : session.status ≠ .expired ∧ session.status ≠ .active
    · refine ⟨.quiet, ?_, by simp [h, busy, holdsTxn]⟩
      simp [nextOk, Phase.read, TestSession.isOpen, TestSessionStatus.isOpen, h]
    · refine ⟨.scoring ⟨session, session.snapshot.getD [], .autoSubmitted, false⟩, ?_, ?_⟩
      · have : session.isOpen = true := by
          simp only [TestSession.isOpen, TestSessionStatus.isOpen, decide_eq_true_eq]
          tauto
        simp [nextOk, Phase.read, this]
      · simp only [if_neg h]
        refine (monitor.wp_handle _).mpr ((monitor.wp_bind _).mpr ?_)
        refine monitor.wp_mono (scoreAndPersist_keeps
          ⟨session, session.snapshot.getD [], .autoSubmitted, false⟩) ?_ fun _ _ h => h
        rintro _ _ rfl
        exact rfl

/-! ## The handler -/

theorem handleSessionExpiry_keeps :
    monitor.wp (ExamKeyspaceHandler.handleSessionExpiry sessionId) (.expiryGuard sessionId)
      (fun _ g => g.busy = false) fun _ g => g.busy = false := by
  refine (monitor.wp_bind _).mpr ((monitor.wp_await _).mpr ⟨fun session? => ?_, fun e => rfl⟩)
  cases session? with
  | none => exact ⟨.quiet, by simp [nextOk, Phase.read], rfl⟩
  | some session =>
    by_cases h : session.status = .active
    · simp [nextOk, Phase.read, h, failed, busy, holdsTxn, TestSessionService.startGrace,
        RedisService.setJson]
    · simp [nextOk, Phase.read, h, busy, holdsTxn]

/-! ## Every task -/

theorem final_ok {r : Reply} (hr : r ≠ .saved) {g : Phase} (h : g.busy = false) :
    monitor.final (.ok r) g := by
  rw [monitor_final, final, if_neg (by simpa using hr)]
  exact h

theorem final_error (e : Err) {g : Phase} (h : g.busy = false) : monitor.final (.error e) g := by
  rw [monitor_final, final, if_neg (by simp)]
  exact h

/-- A task ends well when its function does and its reply is made of the result. -/
theorem keeps_map {α : Type} {p : Promise α} {g : Phase} {f : α → Reply}
    {Q : α → Phase → Prop} (h : monitor.wp p g Q fun _ g => g.busy = false)
    (hQ : ∀ a g, Q a g → monitor.final (.ok (f a)) g) :
    monitor.Keeps (p.bind fun a => .ret (f a)) g :=
  (monitor.wp_bind _).mpr (monitor.wp_mono h hQ fun e _ h => final_error e h)

theorem quiet_free {g : Phase} (h : g = .quiet) : g.busy = false := by
  rw [h]; rfl

theorem Task.prog_keeps (t : Task) : monitor.Keeps t.prog (Phase.start t) := by
  cases t with
  | assignExam userId examId certId =>
    exact keeps_map (monitor.wp_mono assignExam_keeps (fun _ _ h => h) fun _ _ h => quiet_free h)
      fun _ _ h => final_ok (by simp) (quiet_free h)
  | assignNextExam userId certId =>
    exact keeps_map (f := fun p => .issuedNext p.1 p.2.1 p.2.2)
      (monitor.wp_mono assignNextExam_keeps (fun _ _ h => h)
        (by rintro _ _ (rfl | rfl) <;> rfl))
      fun _ _ h => final_ok (by simp) (quiet_free h)
  | validateAccess userId code examId =>
    refine (monitor.wp_bind _).mpr ((monitor.wp_bind _).mpr ?_)
    refine monitor.wp_mono (findAndVerifyCode_quiet _ code) ?_ fun e _ h => final_error e (quiet_free h)
    rintro ⟨accessCode, exam⟩ _ h
    exact final_ok (r := .access exam accessCode.id) (by simp) (quiet_free h)
  | startExam userId code examId =>
    exact keeps_map (startExam_keeps code) fun _ _ h => final_ok (by simp) h
  | autosave sessionId userId answers =>
    exact keeps_map (autosave_keeps answers) fun _ _ h => by rw [monitor_final, final, if_pos rfl]; exact h
  | getSessionStatus sessionId userId =>
    exact keeps_map getSessionStatus_keeps fun _ _ h => final_ok (by simp) (quiet_free h)
  | submitExam sessionId userId answers =>
    exact keeps_map (submitExam_keeps answers) fun _ _ h => final_ok (by simp) (quiet_free h)
  | lateSubmitExam sessionId userId answers =>
    exact keeps_map (lateSubmitExam_keeps answers) fun _ _ h => final_ok (by simp) (quiet_free h)
  | joinSession sessionId userId =>
    exact keeps_map (monitor.wp_mono handleJoinSession_keeps (fun _ _ h => h) fun _ _ h => quiet_free h)
      fun _ _ h => final_ok (by simp) (quiet_free h)
  | handleExpiry type sessionId =>
    cases type with
    | session => exact keeps_map handleSessionExpiry_keeps fun _ _ h => final_ok (by simp) h
    | grace => exact keeps_map autoSubmitFromSnapshot_keeps fun _ _ h => final_ok (by simp) h

theorem monitor_sound [Bcrypt] : monitor.Sound examSystem := Task.prog_keeps

end LmsBackend.Exams
