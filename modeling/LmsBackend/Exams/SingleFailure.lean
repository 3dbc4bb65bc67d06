import LmsBackend.Exams.Executions

/-!
# One call that rejects after a session has expired

The handlers run once for each event, and a late submit takes the grace key
before it writes. What a call that rejects leaves to go on with is what was there
before.
-/

open Async Store

namespace LmsBackend.Exams

variable {i : Nat} {w w' : World} {f : Option ExamFault} {sessionId : Id}

/-- The session is terminal, and its attempt is stored. -/
def World.Submitted (w : World) (sessionId : Id) : Prop :=
  (∃ row, w.sessions.get sessionId = some row ∧ row.isOpen = false) ∧
    ∃ a ∈ w.attempts, a.session.id = sessionId

/-- The attempt of the session is stored, or a later event or a retry can still make it. -/
def World.Recoverable (w : World) (sessionId : Id) : Prop :=
  w.Submitted sessionId ∨ (w.redis.get (sessionKey sessionId)).isSome = true ∨
    (w.redis.get (graceKey sessionId)).isSome = true ∨
    sessionKey sessionId ∈ w.undelivered ∨ graceKey sessionId ∈ w.undelivered

theorem World.Alike.recoverable (h : w.Alike w') :
    w'.Recoverable sessionId ↔ w.Recoverable sessionId := by
  obtain ⟨txns, rfl⟩ := h
  rfl

/-! ## `scoreAndPersist` -/

/-- After the writes of a submission. -/
theorem submitted_of_writes {session moved : TestSession} {attempt : AttemptRow}
    (hid : moved.id = session.id) (hdone : moved.isOpen = false)
    (hattempt : attempt.session = session)
    (h : ([.session moved, .attempt attempt].foldl World.apply w).Alike w') :
    w'.Submitted session.id := by
  have hsessions : w'.sessions = w.sessions.put moved := congrArg Tables.sessions h.tables
  have hattempts : w'.attempts = w.attempts ++ [attempt] := congrArg Tables.attempts h.tables
  refine ⟨⟨moved, ?_, hdone⟩, attempt, ?_, by rw [hattempt]⟩
  · rw [hsessions, Table.get_put_of_eq _ hid]
  · rw [hattempts]
    exact List.mem_append_right _ (List.mem_singleton_self _)

section

variable [Bcrypt]

open ExamService

theorem persist_ends (session : TestSession) (answers : Answers) (attempt : ExamAttempt)
    {w₀ : World} (h : w.Opened i none [] w₀) :
    ends f i (persist session answers attempt) w₀ fun f' r w' =>
      Outcome (fun _ => f' = f ∧ w'.Submitted session.id)
        (fun _ => w.Alike w' ∧ New w (·.ofTxn = true) f f') r := by
  have hfault : ∀ {w₁ w₂ : World} {call : Call} {e : Err}, w.Alike w₁ → call.ofTxn = true →
      f = none → reject i call w₁ = some (w₂, e) →
      w.Alike w₂ ∧ New w (·.ofTxn = true) f (some ⟨w₁, call⟩) :=
    fun hw hc hf hx => ⟨hw.trans (reject_alike hx), .inr ⟨hf, _, rfl, hw, hc⟩⟩
  have hdone : ∀ row : TestSession, (row.moved
      (if attempt.status = .autoSubmitted then .autoSubmitted else .submitted)
      attempt.submittedAt answers).isOpen = false := by
    intro row
    unfold TestSession.moved TestSession.isOpen
    split <;> rfl
  simp only [persist, Prog.bind_eq, await, ends, wlp_bind, wlp_await, examSystem_exec,
    examSystem_reject]
  generalize (if attempt.status = .autoSubmitted then TestSessionStatus.autoSubmitted
    else .submitted) = newStatus at hdone ⊢
  refine ⟨fun x w₁ r hx => ?_, fun hf w' e hx => hfault h.1 rfl hf hx⟩
  simp only [exec, inTxn_of_get h.2, Option.some.injEq, Prod.mk.injEq] at hx
  obtain ⟨hw₁, rfl⟩ := hx
  have hopen : w.Opened i (some session.userId) [] w₁ := by
    rw [← hw₁]
    exact ⟨h.1.trans ⟨_, rfl⟩, Table.get_put_self _ _⟩
  refine ⟨fun x w₂ r hx => ?_, fun hf w' e hx => hfault hopen.1 rfl hf hx⟩
  have hsessions : w₁.sessions = w.sessions := congrArg Tables.sessions hopen.1.tables
  simp only [exec, inTxn_of_get hopen.2] at hx
  split at hx
  · cases hx
  · split at hx
    · cases hx
      exact ⟨hopen.1, .inl rfl⟩
    · rename_i row hrow
      split at hx
      · cases hx
        exact ⟨hopen.1, .inl rfl⟩
      · cases hx
        rw [hsessions] at hrow
        have hid : (row.moved newStatus attempt.submittedAt answers).id = session.id :=
          Table.key_of_get hrow
        have hmoved := hopen.write (.session (row.moved newStatus attempt.submittedAt answers))
        refine ⟨fun x w₃ r hx => ?_, fun hf w' e hx => hfault hmoved.1 rfl hf hx⟩
        have hx : inTxn i _ _ = some (w₃, r) := hx
        rw [inTxn_of_get hmoved.2] at hx
        split at hx
        · cases hx
          have hstored := hmoved.write (.attempt ⟨session, i, attempt⟩)
          refine ⟨fun x w₄ r hx => ?_, fun hf w' e hx => hfault hstored.1 rfl hf hx⟩
          cases (inTxn_of_get hstored.2).symm.trans hx
          have hcommit := (hstored.1.foldl_apply
            [.session (row.moved newStatus attempt.submittedAt answers),
              .attempt ⟨session, i, attempt⟩]).closeTxn i
          exact ⟨rfl, submitted_of_writes hid (hdone row) rfl hcommit⟩
        · cases hx
          exact ⟨hmoved.1, .inl rfl⟩

/-- The calls of `scoreAndPersist` up to its COMMIT. -/
def Persisting (examId : Id) (c : Call) : Prop :=
  c.ofTxn = true ∨ c = .examFindWithQuestions examId false ∨ c = .connect

/-- A submission either has not committed and has left the rest alone, or it is stored. -/
theorem scoreAndPersist_ends (hi : w.txns.get i = none) (session : TestSession)
    (answers : Answers) (status : AttemptStatus) (lateFlag : Bool) :
    ends f i (scoreAndPersist session answers status lateFlag) w fun f' r w' =>
      Outcome (fun _ => f' = f ∧ w'.Submitted session.id)
        (fun _ => w.Alike w' ∧ New w (Persisting session.examId) f f' ∨
          w'.Submitted session.id ∧ f = none ∧ ∃ x, f' = some x ∧ x.call.deletes = true) r := by
  have hfault : ∀ {w₁ w₂ : World} {call : Call} {e : Err}, w.Alike w₁ → Persisting session.examId call →
      f = none → reject i call w₁ = some (w₂, e) →
      w.Alike w₂ ∧ New w (Persisting session.examId) f (some ⟨w₁, call⟩) :=
    fun hw hc hf hx => ⟨hw.trans (reject_alike hx), .inr ⟨hf, _, rfl, hw, hc⟩⟩
  simp only [scoreAndPersist, scoreAnswers, Prog.bind_eq, await, ends, wlp_bind, wlp_await,
    examSystem_exec, examSystem_reject]
  refine ⟨fun x w₁ r hx => ?_, fun hf w' e hx => .inl (hfault (.refl w) (.inr (.inl rfl)) hf hx)⟩
  cases hx
  refine ⟨fun x w₁ r hx => ?_, fun hf w' e hx => by cases hx⟩
  cases hx
  refine ⟨fun x w₁ r hx => ?_, fun hf w' e hx => .inl (hfault (.refl w) (.inr (.inr rfl)) hf hx)⟩
  cases hx
  refine ⟨fun x w₁ r hx => ?_, fun hf w' e hx => .inl (hfault (.refl w) (.inl rfl) hf hx)⟩
  have hx : some ({ w with txns := w.txns.put ⟨i, none, []⟩ }, .ok ()) = some (w₁, r) := by
    simpa only [exec, hi, Option.isSome_none, Bool.false_eq_true, if_false] using hx
  cases hx
  simp only [Prog.tryCatch_eq, wlp_ensure, wlp_handle]
  refine wlp_mono (persist_ends session answers _ ⟨⟨_, rfl⟩, Table.get_put_self _ _⟩) ?_
  rintro f' (e | ⟨⟩) w₁ hr
  · obtain ⟨hw, hnew⟩ := hr
    have hnew : New w (Persisting session.examId) f f' := hnew.mono fun call hc => .inl hc
    refine ⟨fun x w₂ r hx => ?_, fun hf w₂ e hx => ?_⟩
    · cases hx
      refine ⟨fun x w₃ r hx => ?_, fun _ w₃ e hx => by cases hx⟩
      cases hx
      exact .inl ⟨hw.closeTxn i, hnew⟩
    · have hrolled : reject i .rollbackTransaction w₁ = some (w₂, e) := hx
      refine ⟨fun x w₃ r hx => ?_, fun _ w₃ e hx => by cases hx⟩
      cases hx
      exact .inl ⟨hw.trans (reject_alike hrolled), hnew.trans (.inr ⟨hf, _, rfl, hw, .inl rfl⟩)⟩
  · obtain ⟨rfl, hstored⟩ := hr
    refine ⟨fun x w₂ r hx => ?_, fun _ w₂ e hx => by cases hx⟩
    cases hx
    refine ⟨fun x w₂ r hx => ?_, fun hf w₂ e hx => ?_⟩
    · cases hx
      exact ⟨rfl, hstored⟩
    · cases hx
      exact .inr ⟨hstored, hf, _, rfl, rfl⟩

/-! ## The executions -/

theorem getOwnedSession_ends (sessionId userId : Id) (allowed : List TestSessionStatus) :
    ends f i (getOwnedSession sessionId userId allowed) w fun f' r w' =>
      Outcome (fun session => f' = f ∧ w' = w ∧ w.sessions.get sessionId = some session)
        (fun _ => w.Alike w' ∧ New w (· = .testSessionFindOne sessionId) f f') r := by
  simp only [getOwnedSession, Prog.bind_eq, await, ends, wlp_bind, wlp_await, examSystem_exec,
    examSystem_reject]
  refine ⟨fun x w' r hx => ?_, fun hf w' e hx => ?_⟩
  · cases hx
    cases hget : w.sessions.get sessionId with
    | none => exact ⟨.refl w, .inl rfl⟩
    | some session =>
      simp only
      split
      · exact ⟨.refl w, .inl rfl⟩
      · split
        · exact ⟨.refl w, .inl rfl⟩
        · exact ⟨rfl, rfl, rfl⟩
  · exact ⟨reject_alike hx, .inr ⟨hf, _, rfl, .refl w, rfl⟩⟩

end

/-- The session that the task is to bring to its end. -/
def Task.settles : Task → Option Id
  | .handleExpiry _ sessionId | .lateSubmitExam sessionId _ _ => some sessionId
  | _ => none

/-- What the task has left of `w` when a call of it rejects before its COMMIT. A late submit has
taken the grace key, unless one of its first two calls rejects. -/
def Task.leaves (t : Task) (call : Call) (w : World) : World :=
  match t with
  | .lateSubmitExam sessionId _ _ =>
    if call = .testSessionFindOne sessionId ∨ call = .redisGetdel (graceKey sessionId) then w
    else { w with redis := w.redis.erase (graceKey sessionId) }
  | _ => w

/-- When a call of the task rejects from `w` on, the session can go on if and only if it could
without the task, or it is only the deletion of its key that has rejected. -/
def GoesOn (t : Task) (sessionId : Id) (w : World) (f : Option ExamFault) (w' : World) : Prop :=
  ∀ x, f = some x → (w'.Recoverable sessionId ↔
    x.call.deletes = true ∨ (t.leaves x.call w).Recoverable sessionId)

theorem GoesOn.of_none {t : Task} : GoesOn t sessionId w none w' := by
  intro x hx
  cases hx

/-- The task has done nothing but what it leaves. -/
theorem GoesOn.of_alike {t : Task} {w₁ : World} {kind : Call → Prop} (hw : w₁.Alike w')
    (hnew : New w₁ kind none f) (hdel : ∀ call, kind call → call.deletes = false)
    (hleaves : ∀ call, kind call →
      ((t.leaves call w).Recoverable sessionId ↔ w₁.Recoverable sessionId)) :
    GoesOn t sessionId w f w' := by
  rintro x rfl
  rcases hnew with hx | ⟨-, y, hy, -, hkind⟩
  · cases hx
  · cases hy
    rw [hw.recoverable, hleaves _ hkind, hdel _ hkind]
    simp

theorem GoesOn.of_submitted {t : Task} (h : w'.Submitted sessionId)
    (hf : ∀ x, f = some x → x.call.deletes = true) : GoesOn t sessionId w f w' :=
  fun x hx => iff_of_true (.inl h) (.inl (hf x hx))

theorem persisting_deletes {examId : Id} {call : Call} (h : Persisting examId call) :
    call.deletes = false := by
  rcases h with h | rfl | rfl
  · cases call <;> first | rfl | cases h
  · rfl
  · rfl

section

variable [Bcrypt]

open ExamService

theorem lateSubmitExam_ends (hi : w.txns.get i = none) (sessionId userId : Id)
    (answers : Answers) :
    ends none i (lateSubmitExam sessionId userId answers) w fun f _ w' =>
      GoesOn (.lateSubmitExam sessionId userId answers) sessionId w f w' := by
  rw [lateSubmitExam, Prog.bind_eq, ends, wlp_bind]
  refine wlp_mono (getOwnedSession_ends sessionId userId _) ?_
  rintro f (e | session) w₁ hr
  · obtain ⟨hw, hnew⟩ := hr
    exact .of_alike hw hnew (by rintro _ rfl; rfl) (by rintro _ rfl; simp [Task.leaves])
  · obtain ⟨rfl, rfl, hget⟩ := hr
    have hid : session.id = sessionId := Table.key_of_get hget
    simp only [TestSessionService.consumeGrace, RedisService.getDelJson, Prog.bind_eq, Prog.pure_eq,
      await, wlp_bind, wlp_await, wlp_ret, examSystem_exec, examSystem_reject]
    refine ⟨fun x w' r hx => ?_, fun _ w' e hx => ?_⟩
    · cases hx
      simp only
      split
      · exact .of_none
      · have hi : ({ w₁ with redis := w₁.redis.erase (graceKey sessionId) } : World).txns.get i =
            none := hi
        refine wlp_mono (scoreAndPersist_ends hi session _ _ _) ?_
        rintro f (e | result) w' hr
        · rcases hr with ⟨hw, hnew⟩ | ⟨hsubmitted, -, x, rfl, hx⟩
          · refine .of_alike hw hnew (fun _ => persisting_deletes) fun call hc => ?_
            have hlater : ¬(call = .testSessionFindOne sessionId ∨
                call = .redisGetdel (graceKey sessionId)) := by
              rintro (rfl | rfl) <;> rcases hc with hc | hc | hc <;> cases hc
            rw [Task.leaves, if_neg hlater]
          · refine .of_submitted (hid ▸ hsubmitted) ?_
            rintro _ ⟨⟩
            exact hx
        · rw [hr.1]
          exact .of_none
    · cases hx
      rintro x ⟨⟩
      simp [Task.leaves, Call.deletes]

omit [Bcrypt] in
/-- A session that is still open is as recoverable once it is marked EXPIRED. -/
theorem recoverable_marked {session : TestSession} (hget : w.sessions.get sessionId = some session)
    (hactive : session.status = .active) {sessions : Table TestSession}
    (hsessions : sessions = w.sessions.update sessionId fun s => { s with status := .expired }) :
    ({ w with sessions := sessions } : World).Recoverable sessionId ↔ w.Recoverable sessionId := by
  have hbefore : ¬w.Submitted sessionId := by
    rintro ⟨⟨row, hrow, hdone⟩, -⟩
    cases hget.symm.trans hrow
    simp [TestSession.isOpen, TestSessionStatus.isOpen, hactive] at hdone
  have hafter : ¬({ w with sessions := sessions } : World).Submitted sessionId := by
    rintro ⟨⟨row, hrow, hdone⟩, -⟩
    have hmarked : sessions.get sessionId = some { session with status := .expired } := by
      have hupdate := Table.get_update w.sessions sessionId
        (fun s : TestSession => { s with status := .expired }) (fun _ => rfl) sessionId
      rw [hsessions, hupdate, if_pos rfl, hget]
      rfl
    cases hmarked.symm.trans hrow
    cases hdone
  unfold World.Recoverable
  rw [or_iff_right hbefore, or_iff_right hafter]

theorem handleSessionExpiry_ends (sessionId : Id) :
    ends none i (ExamKeyspaceHandler.handleSessionExpiry sessionId) w fun f _ w' =>
      GoesOn (.handleExpiry .session sessionId) sessionId w f w' := by
  have hfault : ∀ {w₀ w₁ : World} {call : Call}, call.deletes = false →
      (w₁.Recoverable sessionId ↔ w.Recoverable sessionId) →
      GoesOn (.handleExpiry .session sessionId) sessionId w (some ⟨w₀, call⟩) w₁ := by
    rintro w₀ w₁ call hdel hw x ⟨⟩
    simp [Task.leaves, hdel, hw]
  simp only [ExamKeyspaceHandler.handleSessionExpiry, Prog.bind_eq, await, ends, wlp_bind,
    wlp_await, examSystem_exec, examSystem_reject]
  refine ⟨fun x w₁ r hx => ?_, fun _ w₁ e hx => ?_⟩
  · cases hx
    cases hget : w.sessions.get sessionId with
    | none => exact .of_none
    | some session =>
      simp only
      split
      · exact .of_none
      · rename_i hactive
        simp only [wlp_bind, wlp_await, examSystem_exec, examSystem_reject]
        refine ⟨fun x w₁ r hx => ?_, fun _ w₁ e hx => ?_⟩
        · simp only [exec] at hx
          split at hx
          · cases hx
          · cases hx
            refine ⟨fun x w₂ r hx => ?_, fun _ w₂ e hx => ?_⟩
            · have hx : some (_, .ok ()) = some (w₂, r) := hx
              cases hx
              exact .of_none
            · cases hx
              exact hfault rfl (recoverable_marked hget (not_ne_iff.mp hactive) rfl)
        · cases hx
          exact hfault rfl .rfl
  · cases hx
    exact hfault rfl .rfl

theorem autoSubmitFromSnapshot_ends (hi : w.txns.get i = none) (sessionId : Id) :
    ends none i (autoSubmitFromSnapshot sessionId) w fun f _ w' =>
      GoesOn (.handleExpiry .grace sessionId) sessionId w f w' := by
  simp only [autoSubmitFromSnapshot, Prog.bind_eq, await, ends, wlp_bind, wlp_await,
    examSystem_exec, examSystem_reject]
  refine ⟨fun x w₁ r hx => ?_, fun _ w₁ e hx => ?_⟩
  · cases hx
    cases hget : w.sessions.get sessionId with
    | none => exact .of_none
    | some session =>
      have hid : session.id = sessionId := Table.key_of_get hget
      simp only
      split
      · exact .of_none
      · simp only [Prog.tryCatch_eq, wlp_handle, wlp_bind]
        refine wlp_mono (scoreAndPersist_ends hi session _ _ _) ?_
        rintro f (e | result) w' hr
        · rcases hr with ⟨hw, hnew⟩ | ⟨hsubmitted, -, x, rfl, hx⟩
          · exact .of_alike hw hnew (fun _ => persisting_deletes) fun _ _ => .rfl
          · refine .of_submitted (hid ▸ hsubmitted) ?_
            rintro _ ⟨⟩
            exact hx
        · obtain ⟨rfl, -⟩ := hr
          exact .of_none
  · cases hx
    rintro x ⟨⟩
    simp [Task.leaves, Call.deletes]

theorem ends_map {α β : Type} {p : Promise α} {g : α → β} {Q : Option ExamFault → World → Prop}
    (h : ends f i p w fun f _ w => Q f w) : ends f i (p.bind fun a => .ret (g a)) w fun f _ w => Q f w := by
  refine (wlp_bind _).mpr (wlp_mono h ?_)
  rintro f' (e | a) w' h <;> exact h

/-- A handler or a late submit that runs by itself from any state, in which one call rejects: the
session can go on if and only if it could without the task, or it is only the
deletion of its key that has rejected. -/
theorem single_failure (hi : w.txns.get i = none) {t : Task} (ht : t.settles = some sessionId)
    {x : ExamFault} {r : Except Err Reply} (h : Ends examSystem i (some x) w t.prog w' r) :
    w'.Recoverable sessionId ↔
      x.call.deletes = true ∨ (t.leaves x.call w).Recoverable sessionId := by
  have hgoes : GoesOn t sessionId w (some x) w' := by
    cases t with
    | handleExpiry type id =>
      cases ht
      cases type with
      | session => exact h.wlp (ends_map (handleSessionExpiry_ends _))
      | grace => exact h.wlp (ends_map (autoSubmitFromSnapshot_ends hi _))
    | lateSubmitExam id userId answers =>
      cases ht
      exact h.wlp (ends_map (lateSubmitExam_ends hi _ _ _))
    | _ => cases ht
  exact hgoes x rfl

end

/-! ## The school -/

instance : Decidable (w.Submitted sessionId) :=
  inferInstanceAs (Decidable ((∃ row, _ = some row ∧ _) ∧ _))

/-- The task ends after `n` answers and a call that rejects. -/
def failsAfter (n : Nat) (i : Nat) (t : Task) (w : World) : Option (ExamFault × World) :=
  match follow (@examSystem plainBcrypt) i
      (List.replicate n (some "S") ++ none :: List.replicate 6 (some "S")) w t.prog with
  | some (some x, w', _) => some (x, w')
  | _ => none

theorem failsAfter_ends {n : Nat} {t : Task} {x : ExamFault}
    (h : failsAfter n i t w = some (x, w')) :
    ∃ r, Ends (@examSystem plainBcrypt) i (some x) w t.prog w' r := by
  unfold failsAfter at h
  split at h
  · rename_i hfollow
    cases h
    exact ⟨_, ends_of_follow hfollow⟩
  · cases h

/-- The state in which the grace window of session "S" has closed, and its event has started the
handler (process 2). -/
def graceCloses : List PoolLabel :=
  starts ++ expires ++ calls 1 3 ++ [.env (.tick 120000), .env (.deliver "exam:grace:S")]

set_option maxRecDepth 100000 in
/-- The auto-submit of a session, whose attempt is stored when the deletion rejects. -/
theorem single_failure_deletion :
    ∃ c x w' r, @Reachable plainBcrypt anyStep c ∧
      Ends (@examSystem plainBcrypt) 2 (some x) c.world (Task.handleExpiry .grace "S").prog w' r ∧
      w'.Recoverable "S" := by
  obtain ⟨c, hc, hidle, hfails⟩ := exists_reachable (P := anyStep) graceCloses
    (p := fun c => c.world.txns.get 2 = none ∧
      (failsAfter 10 2 (.handleExpiry .grace "S") c.world).any (·.1.call.deletes) = true) (by decide)
  obtain ⟨⟨x, w'⟩, hout, hx⟩ := (Option.any_eq_true _ _).mp hfails
  obtain ⟨r, hends⟩ := failsAfter_ends hout
  exact ⟨c, x, w', r, hc, hends, (@single_failure 2 c.world w' "S" plainBcrypt hidle _ rfl x r hends).mpr (.inl hx)⟩

instance : Decidable (w.Recoverable sessionId) := inferInstanceAs (Decidable (_ ∨ _))

set_option maxRecDepth 100000 in
/-- The auto-submit of a session, whose first call rejects. Its event is delivered. -/
theorem single_failure_strands :
    ¬∀ c i (t : Task) sessionId x w' r, @Reachable plainBcrypt anyStep c →
      c.world.txns.get i = none → t.settles = some sessionId →
      (c.world.sessions.get sessionId).isSome → c.world.redis.get (sessionKey sessionId) = none →
      Ends (@examSystem plainBcrypt) i (some x) c.world t.prog w' r → w'.Recoverable sessionId := by
  intro hall
  obtain ⟨c, hc, hidle, hrow, hkey, hfails⟩ := exists_reachable (P := anyStep) graceCloses
    (p := fun c => c.world.txns.get 2 = none ∧ (c.world.sessions.get "S").isSome ∧
      c.world.redis.get (sessionKey "S") = none ∧
      (failsAfter 0 2 (.handleExpiry .grace "S") c.world).any (fun out => ¬out.2.Recoverable "S") =
        true) (by decide)
  obtain ⟨⟨x, w'⟩, hout, hx⟩ := (Option.any_eq_true _ _).mp hfails
  obtain ⟨r, hends⟩ := failsAfter_ends hout
  exact of_decide_eq_true hx (hall c 2 _ "S" x w' r hc hidle rfl hrow hkey hends)

end LmsBackend.Exams
