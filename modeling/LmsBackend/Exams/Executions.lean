import LmsBackend.Async.Alone
import LmsBackend.Exams.Codes

/-!
# Functions by themselves

What the functions of `ExamService` do when nothing else runs and at most one
call is made to reject. Each function is checked once, and its callers go by
its outcome.
-/

open Async Store

namespace LmsBackend.Exams

abbrev ExamFault := Fault World Call

/-! ## The world apart from open transactions -/

/-- The worlds differ in their open transactions only. -/
def World.Alike (w w' : World) : Prop := ∃ txns, w' = { w with txns := txns }

namespace World.Alike

variable {w w' w'' : World}

@[refl] theorem refl (w : World) : w.Alike w := ⟨w.txns, rfl⟩

theorem trans (h : w.Alike w') (h' : w'.Alike w'') : w.Alike w'' := by
  obtain ⟨txns, rfl⟩ := h
  obtain ⟨txns', rfl⟩ := h'
  exact ⟨txns', rfl⟩

theorem tables (h : w.Alike w') : w'.tables = w.tables := by
  obtain ⟨txns, rfl⟩ := h
  rfl

theorem closeTxn (h : w.Alike w') (i : Nat) : w.Alike (w'.closeTxn i) := h.trans ⟨_, rfl⟩

end World.Alike

/-- The statements of a transaction, and those that begin and end one. -/
def Call.ofTxn : Call → Bool
  | .startTransaction | .commitTransaction | .rollbackTransaction | .setCurrentUser _
  | .txUpdateAccessCode _ _ _ | .txSaveTestSession _ _ | .txDeleteTestSession _
  | .txUpdateTestSession _ _ _ _ _ | .txSaveExamAttempt _ _ => true
  | _ => false

variable {i : Nat} {w w' : World} {f f' f'' : Option ExamFault} {kind : Call → Prop}

theorem reject_alike {call : Call} {e : Err} (h : reject i call w = some (w', e)) :
    w.Alike w' := by
  unfold reject at h
  split at h
  · cases call <;> cases h <;> exact ⟨_, rfl⟩
  · cases h

/-- A call that cannot reject. -/
theorem reject_none {call : Call} (hc : call.rejects = false) {e : Err} :
    reject i call w ≠ some (w', e) := by
  simp [reject, hc]

/-! ## Faults -/

/-- The fault is the one before, or a new one in a world like `w`, at a call of the kind. -/
def New (w : World) (kind : Call → Prop) (f f' : Option ExamFault) : Prop :=
  f' = f ∨ f = none ∧ ∃ x, f' = some x ∧ w.Alike x.world ∧ kind x.call

theorem New.trans (h : New w kind f f') (h' : New w kind f' f'') : New w kind f f'' := by
  rcases h with rfl | ⟨rfl, x, rfl, hx⟩
  · exact h'
  · rcases h' with rfl | ⟨hnone, -⟩
    · exact .inr ⟨rfl, x, rfl, hx⟩
    · cases hnone

/-- Nothing new at the end means nothing new on the way. -/
theorem New.eq_of_trans (h : New w kind f f') (h' : New w kind f' f'') (he : f'' = f) :
    f' = f := by
  rcases h with rfl | ⟨rfl, x, rfl, -⟩
  · rfl
  · rcases h' with rfl | ⟨hnone, -⟩
    · exact he
    · cases hnone

theorem New.mono {kind' : Call → Prop} (h : New w kind f f') (hk : ∀ c, kind c → kind' c) :
    New w kind' f f' := by
  rcases h with h | ⟨hf, x, hx, hw, hc⟩
  · exact .inl h
  · exact .inr ⟨hf, x, hx, hw, hk _ hc⟩

/-! ## Access codes -/

section

variable [Bcrypt]

@[simp] theorem examSystem_exec : examSystem.exec = exec := rfl

@[simp] theorem examSystem_reject : examSystem.reject = reject := rfl

/-- Every end of the function from `w` is in `Q`. -/
abbrev ends (f : Option ExamFault) {α : Type} (i : Nat) (p : Promise α) (w : World)
    (Q : Option ExamFault → Except Err α → World → Prop) : Prop :=
  wlp examSystem i f p w Q

/-- The candidate is not expired, and the code is the one that it was made of. -/
def accepts (now : Time) (code : String) (candidate : ExamAccessCode) : Bool :=
  ¬candidate.expiresAt < now ∧ Bcrypt.compare code candidate.tokenHash

theorem firstMatch_ends (code : String) (candidates : List ExamAccessCode) :
    ends f i (ExamService.firstMatch code candidates) w fun f' r w' =>
      f' = f ∧ w' = w ∧ r = .ok (candidates.find? (accepts w.now code)) := by
  induction candidates with
  | nil => simp [ExamService.firstMatch]
  | cons candidate rest ih =>
    simp only [ExamService.firstMatch, Prog.bind_eq, await, ends, wlp_bind, wlp_await,
      examSystem_exec, examSystem_reject]
    refine ⟨fun x w' r hx => ?_, fun _ w' e hx => absurd hx (reject_none rfl)⟩
    cases hx
    by_cases hlive : candidate.expiresAt < w.now
    · simp only [hlive, if_true]
      refine wlp_mono ih ?_
      rintro f' r w' ⟨hf, hw, hr⟩
      refine ⟨hf, hw, ?_⟩
      rw [hr, List.find?_cons_of_neg]
      simp [accepts, hlive]
    · simp only [hlive, if_false, wlp_bind, wlp_await, examSystem_exec, examSystem_reject]
      refine ⟨fun x w' r hx => ?_, fun _ w' e hx => absurd hx (reject_none rfl)⟩
      cases hx
      by_cases hmatch : Bcrypt.compare code candidate.tokenHash = true
      · simp [hmatch, accepts, hlive]
      · simp only [hmatch, Bool.false_eq_true, if_false]
        refine wlp_mono ih ?_
        rintro f' r w' ⟨hf, hw, hr⟩
        refine ⟨hf, hw, ?_⟩
        rw [hr, List.find?_cons_of_neg]
        simp [accepts, hmatch]

/-- The unused codes that `findAndVerifyCode` looks at, in its order. -/
def World.candidates (w : World) (userId : Option Id) (examId : Id) : List ExamAccessCode :=
  (w.unusedCodes userId examId).insertionSort (·.createdAt ≥ ·.createdAt)

/-- What `findAndVerifyCode` comes to. -/
def World.verify (w : World) (userId : Option Id) (code : String) (examId : Id) :
    Except Err (ExamAccessCode × Exam) :=
  match (w.exams.find? (·.id = examId)).map Exam.row with
  | none => .error (.notFound "Exam not found")
  | some exam =>
    if exam.status ≠ .published then .error (.forbidden "Invalid or expired access code")
    else
      match (w.candidates userId examId).find? (accepts w.now code) with
      | some candidate => .ok (candidate, exam)
      | none => .error (.forbidden "Invalid or expired access code")

theorem findAndVerifyCode_ends (userId : Option Id) (code : String) (examId : Id) :
    ends f i (ExamService.findAndVerifyCode userId code examId) w fun f' r w' =>
      (f' = f ∧ w' = w ∧ r = w.verify userId code examId) ∨
        ((∃ e, r = .error e) ∧ w.Alike w' ∧
          New w (fun c => c = .examFindOne examId ∨ c = .accessCodeFind userId examId) f f') := by
  simp only [ExamService.findAndVerifyCode, Prog.bind_eq, await, ends, wlp_bind, wlp_await,
      examSystem_exec, examSystem_reject]
  refine ⟨fun x w' r hx => ?_, fun hf w' e hx => .inr ⟨⟨e, rfl⟩, reject_alike hx,
    .inr ⟨hf, _, rfl, .refl w, by simp⟩⟩⟩
  cases hx
  simp only [World.verify]
  cases (w.exams.find? (·.id = examId)).map Exam.row with
  | none => simp
  | some exam =>
    simp only
    split
    · simp
    · simp only [wlp_bind, wlp_await, examSystem_exec, examSystem_reject]
      refine ⟨fun x w' r hx => ?_, fun hf w' e hx => .inr ⟨⟨e, rfl⟩, reject_alike hx,
        .inr ⟨hf, _, rfl, .refl w, by simp⟩⟩⟩
      cases hx
      refine wlp_mono (firstMatch_ends code _) ?_
      rintro f' _ w' ⟨rfl, rfl, rfl⟩
      rw [World.candidates]
      cases List.find? (accepts w'.now code) _ <;> simp

end

/-! ## Transactions -/

/-- Process `i` has begun a transaction in `w`, and has come this far with it. -/
def World.Opened (w : World) (i : Nat) (user : Option Id) (writes : List Write) (w' : World) :
    Prop :=
  w.Alike w' ∧ w'.txns.get i = some ⟨i, user, writes⟩

theorem World.Opened.write {user : Option Id} {writes : List Write}
    (h : w.Opened i user writes w') (wr : Write) :
    w.Opened i user (writes ++ [wr]) (w'.addWrite ⟨i, user, writes⟩ wr) :=
  ⟨h.1.trans ⟨_, rfl⟩, Table.get_put_self _ _⟩

theorem inTxn_of_get {ρ : Type} {t : OpenTxn} {g : OpenTxn → Option (World × Except Err ρ)}
    (h : w.txns.get i = some t) : inTxn i w g = g t := by
  simp only [inTxn, h]

theorem World.Alike.apply (h : w.Alike w') (wr : Write) : (w.apply wr).Alike (w'.apply wr) := by
  obtain ⟨txns, rfl⟩ := h
  cases wr <;> exact ⟨txns, rfl⟩

theorem World.Alike.foldl_apply (h : w.Alike w') (writes : List Write) :
    (writes.foldl World.apply w).Alike (writes.foldl World.apply w') := by
  induction writes generalizing w w' with
  | nil => exact h
  | cons wr writes ih => exact ih (h.apply wr)

section

variable [Bcrypt]

/-- The `catch` of `transaction`. -/
theorem rollback_ends {α : Type} (h : w.Alike w') (e : Err) :
    ends f i (α := α) (do
      tryCatch (await .rollbackTransaction) fun _ => pure ()
      throw e) w' fun f' r w' =>
      (∃ e, r = .error e) ∧ w.Alike w' ∧ New w (·.ofTxn = true) f f' := by
  simp only [Prog.bind_eq, Prog.tryCatch_eq, await, ends, wlp_bind, wlp_handle, wlp_await,
    examSystem_exec, examSystem_reject]
  refine ⟨fun x w' r hx => ?_, fun hf w' e hx => ?_⟩
  · cases hx
    exact ⟨⟨e, rfl⟩, h.closeTxn i, .inl rfl⟩
  · exact ⟨⟨_, rfl⟩, h.trans (reject_alike hx), .inr ⟨hf, _, rfl, h, rfl⟩⟩

/-- A transaction either commits its writes together or has done nothing. When the body ends with
an error that no fault made, it is by `own`. -/
theorem transaction_ends {α : Type} {body : Promise α} {own : Prop}
    {B : α → List Write → Prop} (hi : w.txns.get i = none)
    (hbody : ∀ w₀, w.Opened i none [] w₀ → ends f i body w₀ fun f' r w' =>
      Outcome (fun a => f' = f ∧ ∃ writes, B a writes ∧ w.Opened i none writes w')
        (fun _ => w.Alike w' ∧ New w (·.ofTxn = true) f f' ∧ (f' = f → own)) r) :
    ends f i (transaction body) w fun f' r w' =>
      Outcome (fun a => f' = f ∧ ∃ writes, B a writes ∧
          (writes.foldl World.apply w).Alike w' ∧ w'.txns.get i = none)
        (fun _ => w.Alike w' ∧ New w (·.ofTxn = true) f f' ∧ (f' = f → own)) r := by
  have hmain : ends f i (do
      await .startTransaction
      let result ← body
      await .commitTransaction
      pure result) w fun f' r w' =>
      Outcome (fun a => f' = f ∧ ∃ writes, B a writes ∧
          (writes.foldl World.apply w).Alike w' ∧ w'.txns.get i = none)
        (fun _ => w.Alike w' ∧ New w (·.ofTxn = true) f f' ∧ (f' = f → own)) r := by
    simp only [Prog.bind_eq, ends, wlp_bind, await, wlp_await, examSystem_exec, examSystem_reject]
    constructor
    · intro x w₀ r hx
      have hx : some ({ w with txns := w.txns.put ⟨i, none, []⟩ }, .ok ()) = some (w₀, r) := by
        simpa only [exec, hi, Option.isSome_none, Bool.false_eq_true, if_false] using hx
      cases hx
      refine wlp_mono (hbody _ ⟨⟨_, rfl⟩, Table.get_put_self _ _⟩) ?_
      rintro f' (e | a) w₁ hr
      · exact hr
      · obtain ⟨rfl, writes, hB, hw, ht⟩ := hr
        constructor
        · intro x w₂ r hx
          have hx : some (w₁.commit ⟨i, none, writes⟩, .ok ()) = some (w₂, r) :=
            (inTxn_of_get ht).symm.trans hx
          cases hx
          refine (wlp_ret a).mpr ⟨rfl, writes, hB, ?_, Table.get_erase_self _ _⟩
          exact (hw.foldl_apply writes).closeTxn i
        · intro hf w₂ e hx
          refine ⟨hw.trans (reject_alike hx), .inr ⟨hf, _, rfl, hw, rfl⟩, fun he => ?_⟩
          cases he.trans hf
    · intro hf w₀ e hx
      refine ⟨reject_alike hx, .inr ⟨hf, _, rfl, .refl w, rfl⟩, fun he => ?_⟩
      cases he.trans hf
  rw [transaction, Prog.tryCatch_eq, ends, wlp_handle]
  refine wlp_mono hmain ?_
  rintro f' (e | a) w' hr
  · obtain ⟨hw, hnew, hown⟩ := hr
    refine wlp_mono (rollback_ends hw e) ?_
    rintro f'' r w'' ⟨⟨e, rfl⟩, hw'', hnew'⟩
    exact ⟨hw'', hnew.trans hnew', fun he => hown (hnew.eq_of_trans hnew' he)⟩
  · exact hr

end

end LmsBackend.Exams
