import LmsBackend.Async.TwoRuns
import LmsBackend.Exams.ExamController
import LmsBackend.Exams.OneAttempt
import LmsBackend.Exams.StoredScores

/-!
# The answer key stays secret

Two databases that agree on everything but `is_correct`, and on everything but
the results of attempts: whatever clients do, in any interleaving and with any
failures, they are answered the same. Only the results of submissions tell the
databases apart.
-/

open Async Store

namespace LmsBackend.Exams

/-! ## What is kept from students -/

def ExamQuestionOption.blind (o : ExamQuestionOption) : ExamQuestionOption :=
  { o with isCorrect := false }

def ExamQuestion.blind (q : ExamQuestion) : ExamQuestion :=
  { q with options := q.options.map ExamQuestionOption.blind }

/-- The exam without its answer key. -/
def Exam.blind (e : Exam) : Exam := { e with questions := e.questions.map ExamQuestion.blind }

/-- The attempt without its result. -/
def ExamAttempt.blind (a : ExamAttempt) : ExamAttempt := { a with score := 0, passed := false }

def AttemptRow.blind (a : AttemptRow) : AttemptRow := { a with attempt := a.attempt.blind }

def Write.blind : Write → Write
  | .attempt row => .attempt row.blind
  | wr => wr

def OpenTxn.blind (t : OpenTxn) : OpenTxn := { t with writes := t.writes.map Write.blind }

section

variable {a a' : ExamAttempt} {t t' : OpenTxn}

theorem ExamAttempt.userId_of_blind (h : a.blind = a'.blind) : a.userId = a'.userId :=
  (ExamAttempt.mk.inj h).1

theorem OpenTxn.proc_of_blind (h : t.blind = t'.blind) : t.proc = t'.proc := (OpenTxn.mk.inj h).1

theorem OpenTxn.user_of_blind (h : t.blind = t'.blind) : t.user = t'.user := (OpenTxn.mk.inj h).2.1

theorem OpenTxn.writes_of_blind (h : t.blind = t'.blind) :
    t.writes.map Write.blind = t'.writes.map Write.blind :=
  (OpenTxn.mk.inj h).2.2

end

/-- No question has negative marks, so that every score is between 0 and 100. -/
def Exam.Weighted (e : Exam) : Prop := ∀ q ∈ e.questions, 0 ≤ q.weight

/-- The databases and Redis are equal but for answer keys and results. -/
structure EqualButKey (w w' : World) : Prop where
  now : w.now = w'.now
  exams : w.exams.map Exam.blind = w'.exams.map Exam.blind
  weighted : ∀ e ∈ w.exams, e.Weighted
  codes : w.codes = w'.codes
  sessions : w.sessions = w'.sessions
  attempts : w.attempts.map AttemptRow.blind = w'.attempts.map AttemptRow.blind
  txns : ∀ i, (w.txns.get i).map OpenTxn.blind = (w'.txns.get i).map OpenTxn.blind
  issued : w.issued = w'.issued
  redis : w.redis = w'.redis
  undelivered : w.undelivered = w'.undelivered
  delivered : w.delivered = w'.delivered

/-! ## Exams without their key -/

theorem Exam.blind_row (e : Exam) : e.blind.row = e.row := rfl

theorem ExamQuestion.blind_weight (q : ExamQuestion) : q.blind.weight = q.weight := rfl

theorem Exam.Weighted.congr {e e' : Exam} (h : e.blind = e'.blind) (hw : e.Weighted) :
    e'.Weighted := by
  intro q hq
  have hmem : q.blind ∈ e.blind.questions := by
    rw [h]
    exact List.mem_map_of_mem hq
  obtain ⟨q', hq', he⟩ := List.mem_map.mp hmem
  rw [← q.blind_weight, ← he]
  exact hw q' hq'

theorem Exam.blind_byPosition (e : Exam) : e.byPosition.blind = e.blind.byPosition := by
  unfold Exam.byPosition Exam.blind
  simp only [Exam.mk.injEq, true_and]
  exact List.map_insertionSort _ _ _ _ fun q _ q' _ => Iff.rfl

theorem Exam.Weighted.byPosition {e : Exam} (h : e.Weighted) : e.byPosition.Weighted :=
  fun q hq => h q ((List.mem_insertionSort _).mp hq)

/-- A student sees the same of both. -/
theorem questionPayload_blind (q : ExamQuestion) :
    ExamController.questionPayload q.blind = ExamController.questionPayload q := by
  unfold ExamController.questionPayload ExamQuestion.blind
  simp [ExamQuestionOption.blind, Function.comp_def]

theorem find?_blind {l l' : List Exam} (h : l.map Exam.blind = l'.map Exam.blind) (id : Id) :
    (l.find? (·.id = id)).map Exam.blind = (l'.find? (·.id = id)).map Exam.blind := by
  have hfind : ∀ l : List Exam, (l.find? (·.id = id)).map Exam.blind =
      (l.map Exam.blind).find? (·.id = id) := by
    intro l
    rw [List.find?_map]
    rfl
  rw [hfind, hfind, h]

theorem scoreOf_bounds {exam? : Option Exam} (h : ∀ e, exam? = some e → e.Weighted)
    (answers : Answers) :
    0 ≤ (scoreOf exam? answers).score ∧ (scoreOf exam? answers).score ≤ 100 := by
  cases exam? with
  | none => simp [scoreOf, scoreWith]
  | some exam =>
    exact (storable_of_nonneg (h exam rfl) answers).2

/-! ## Matching calls -/

def ExamAttempt.InRange (a : ExamAttempt) : Prop := 0 ≤ a.score ∧ a.score ≤ 100

/-- The calls are equal, or they store the results of one submission. -/
inductive SameCall : Call → Call → Prop
  | refl {c} (h : ∀ s a, c ≠ .txSaveExamAttempt s a) : SameCall c c
  | save {s a a'} (h : a.blind = a'.blind) (ha : a.InRange) (ha' : a'.InRange) :
    SameCall (.txSaveExamAttempt s a) (.txSaveExamAttempt s a')

/-- The answers are equal, but for the answer key. -/
inductive SameAnswer : (c c' : Call) → Except Err (Resp c) → Except Err (Resp c') → Prop
  | error {c c'} (e) : SameAnswer c c' (.error e) (.error e)
  | exam {id byPosition} {exam exam' : Option Exam} (h : exam.map Exam.blind = exam'.map Exam.blind)
    (hw : ∀ e, exam = some e → e.Weighted) :
    SameAnswer (.examFindWithQuestions id byPosition) (.examFindWithQuestions id byPosition)
      (.ok exam) (.ok exam')
  | refl {c} (h : ∀ id byPosition, c ≠ .examFindWithQuestions id byPosition) (r) :
    SameAnswer c c r r
  | save {s a a'} (r) : SameAnswer (.txSaveExamAttempt s a) (.txSaveExamAttempt s a') (.ok r) (.ok r)

def sameButKey : Matching Call Resp Err := ⟨SameCall, SameAnswer⟩

/-- Every call but the two that the answer key goes through. -/
def Call.keyless : Call → Bool
  | .examFindWithQuestions _ _ | .txSaveExamAttempt _ _ => false
  | _ => true

theorem plain_of_keyless {c : Call} (h : c.keyless = true) : sameButKey.Plain c := by
  refine ⟨.refl fun s a hc => ?_, fun r r' hr => ?_⟩
  · subst hc
    cases h
  · cases hr with
    | error e => rfl
    | exam _ _ => cases h
    | refl _ r => rfl
    | save r => rfl

theorem Write.blind_lock (wr : Write) : wr.blind.lock = wr.lock := by
  cases wr <;> rfl

theorem Write.blind_cases {wr wr' : Write} (h : wr.blind = wr'.blind) :
    wr = wr' ∨ ∃ row row', wr = .attempt row ∧ wr' = .attempt row' ∧ row.blind = row'.blind := by
  cases wr <;> cases wr' <;> simp_all [Write.blind]

/-! ## Carrying out matching calls -/

section

variable {i : Nat} {w w' v : World}

namespace EqualButKey

theorem txn (h : EqualButKey w w') {t : OpenTxn} (ht : w.txns.get i = some t) :
    ∃ t', w'.txns.get i = some t' ∧ t.blind = t'.blind := by
  have := h.txns i
  rw [ht, Option.map_some] at this
  obtain ⟨t', ht', he⟩ := Option.map_eq_some_iff.mp this.symm
  exact ⟨t', ht', he.symm⟩

theorem symm (h : EqualButKey w w') : EqualButKey w' w where
  now := h.now.symm
  exams := h.exams.symm
  weighted := by
    intro e he
    have hmem : e.blind ∈ w.exams.map Exam.blind := h.exams ▸ List.mem_map_of_mem he
    obtain ⟨e', he', hblind⟩ := List.mem_map.mp hmem
    exact (h.weighted e' he').congr hblind
  codes := h.codes.symm
  sessions := h.sessions.symm
  attempts := h.attempts.symm
  txns i := (h.txns i).symm
  issued := h.issued.symm
  redis := h.redis.symm
  undelivered := h.undelivered.symm
  delivered := h.delivered.symm

theorem holds_blind {t t' : OpenTxn} (h : t.blind = t'.blind) (l : Lock) :
    t.holds l = t'.holds l := by
  have hlock : ∀ t : OpenTxn, t.holds l = t.blind.holds l := by
    intro t
    simp [OpenTxn.holds, OpenTxn.blind, List.any_map, Function.comp_def, Write.blind_lock]
  rw [hlock t, hlock t', h]

theorem holds (h : EqualButKey w w') {l : Lock} (hl : w.holds i l) : w'.holds i l := by
  obtain ⟨t, ht, hl⟩ := hl
  obtain ⟨t', ht', he⟩ := h.txn ht
  exact ⟨t', ht', holds_blind he l ▸ hl⟩

theorem locked (h : EqualButKey w w') (l : Lock) : w.locked i l = w'.locked i l := by
  rw [Bool.eq_iff_iff, World.locked_iff, World.locked_iff]
  exact ⟨fun ⟨j, hj, hl⟩ => ⟨j, hj, h.holds hl⟩, fun ⟨j, hj, hl⟩ => ⟨j, hj, h.symm.holds hl⟩⟩

theorem freshSession (h : EqualButKey w w') (id : Id) : w.freshSession id = w'.freshSession id := by
  rw [Bool.eq_iff_iff, World.freshSession_iff, World.freshSession_iff, h.issued]
  exact and_congr_right fun _ => forall_congr' fun j => not_congr ⟨h.holds, h.symm.holds⟩

theorem putTxn (h : EqualButKey w w') {t t' : OpenTxn} (ht : t.blind = t'.blind) :
    EqualButKey { w with txns := w.txns.put t } { w' with txns := w'.txns.put t' } :=
  { h with
    txns := fun j => by
      simp only [Table.get_put, Keyed.key, OpenTxn.proc_of_blind ht]
      split
      · rw [Option.map_some, Option.map_some, ht]
      · exact h.txns j }

theorem closeTxn (h : EqualButKey w w') (i : Nat) : EqualButKey (w.closeTxn i) (w'.closeTxn i) :=
  { h with
    txns := fun j => by
      simp only [World.closeTxn, Table.get_erase]
      split
      · rfl
      · exact h.txns j }

theorem addWrite (h : EqualButKey w w') {t t' : OpenTxn} {wr wr' : Write} (ht : t.blind = t'.blind)
    (hwr : wr.blind = wr'.blind) : EqualButKey (w.addWrite t wr) (w'.addWrite t' wr') := by
  refine h.putTxn ?_
  obtain ⟨proc, user, writes⟩ := t
  obtain ⟨proc', user', writes'⟩ := t'
  simp only [OpenTxn.blind, OpenTxn.mk.injEq, List.map_append, List.map_cons, List.map_nil] at ht ⊢
  exact ⟨ht.1, ht.2.1, by rw [ht.2.2, hwr]⟩

theorem apply (h : EqualButKey w w') {wr wr' : Write} (hwr : wr.blind = wr'.blind) :
    EqualButKey (w.apply wr) (w'.apply wr') := by
  rcases Write.blind_cases hwr with rfl | ⟨row, row', rfl, rfl, hrow⟩
  · cases wr with
    | code row => exact { h with codes := by rw [World.apply, World.apply, h.codes] }
    | newSession row =>
      exact { h with
        sessions := by rw [World.apply, World.apply, h.sessions]
        issued := by rw [World.apply, World.apply, h.issued] }
    | session row => exact { h with sessions := by rw [World.apply, World.apply, h.sessions] }
    | dropSession id => exact { h with sessions := by rw [World.apply, World.apply, h.sessions] }
    | attempt row => exact { h with attempts := by simp [World.apply, h.attempts] }
  · exact { h with attempts := by simp [World.apply, h.attempts, hrow] }

theorem foldl (h : EqualButKey w w') {writes writes' : List Write}
    (hwr : writes.map Write.blind = writes'.map Write.blind) :
    EqualButKey (writes.foldl World.apply w) (writes'.foldl World.apply w') := by
  induction writes generalizing writes' w w' with
  | nil =>
    obtain rfl := List.map_eq_nil_iff.mp hwr.symm
    exact h
  | cons wr writes ih =>
    obtain ⟨wr', writes', rfl, he, hrest⟩ := List.map_eq_cons_iff.mp hwr.symm
    exact ih (h.apply he.symm) hrest.symm

theorem commit (h : EqualButKey w w') {t t' : OpenTxn} (ht : t.blind = t'.blind) :
    EqualButKey (w.commit t) (w'.commit t') := by
  unfold World.commit
  rw [OpenTxn.proc_of_blind ht]
  exact (h.foldl (OpenTxn.writes_of_blind ht)).closeTxn _

theorem visibleAttempts (h : EqualButKey w w') {t t' : OpenTxn} (ht : t.blind = t'.blind) :
    (w.visibleAttempts t).map AttemptRow.blind = (w'.visibleAttempts t').map AttemptRow.blind := by
  have hfilter : ∀ l : List AttemptRow, (l.filter fun a => t.user = some a.attempt.userId).map
      AttemptRow.blind = (l.map AttemptRow.blind).filter fun a => t.user = some a.attempt.userId := by
    intro l
    rw [List.filter_map]
    rfl
  unfold World.visibleAttempts
  rw [hfilter w.attempts, ← OpenTxn.user_of_blind ht, hfilter w'.attempts, h.attempts]

/-- What `selectAttemptedExams` returns. -/
theorem attemptedExams (h : EqualButKey w w') {t t' : OpenTxn} (ht : t.blind = t'.blind)
    (userId certId : Id) :
    ((w.visibleAttempts t).filter fun a =>
        a.attempt.userId = userId ∧ a.attempt.certId = certId).map (·.attempt.examId) =
      ((w'.visibleAttempts t').filter fun a =>
        a.attempt.userId = userId ∧ a.attempt.certId = certId).map (·.attempt.examId) := by
  have hblind : ∀ l : List AttemptRow, (l.filter fun a =>
      a.attempt.userId = userId ∧ a.attempt.certId = certId).map (·.attempt.examId) =
        ((l.map AttemptRow.blind).filter fun a =>
          a.attempt.userId = userId ∧ a.attempt.certId = certId).map (·.attempt.examId) := by
    intro l
    rw [List.filter_map, List.map_map]
    rfl
  rw [hblind (w.visibleAttempts t), hblind (w'.visibleAttempts t'), h.visibleAttempts ht]

theorem findOne (h : EqualButKey w w') (id : Id) :
    (w.exams.find? (·.id = id)).map Exam.row = (w'.exams.find? (·.id = id)).map Exam.row := by
  have := congrArg (Option.map Exam.row) (find?_blind h.exams id)
  simpa [Function.comp_def, Exam.blind_row] using this

theorem publishedExams (h : EqualButKey w w') (certId : Id) :
    w.publishedExams certId = w'.publishedExams certId := by
  have hblind : ∀ l : List Exam, (l.filter fun e => e.certId = certId ∧ e.status = .published).map
      Exam.row = ((l.map Exam.blind).filter fun e =>
        e.certId = certId ∧ e.status = .published).map Exam.row := by
    intro l
    rw [List.filter_map, List.map_map]
    rfl
  unfold World.publishedExams
  rw [hblind w.exams, hblind w'.exams, h.exams]

theorem examWithQuestions (h : EqualButKey w w') (id : Id) (byPosition : Bool) :
    (w.examWithQuestions id byPosition).map Exam.blind =
      (w'.examWithQuestions id byPosition).map Exam.blind := by
  have hfind := find?_blind h.exams id
  unfold World.examWithQuestions
  cases byPosition with
  | false => simpa using hfind
  | true =>
    have := congrArg (Option.map Exam.byPosition) hfind
    simpa [Function.comp_def, Exam.blind_byPosition] using this

theorem examWithQuestions_weighted (h : EqualButKey w w') {id : Id} {byPosition : Bool} {e : Exam}
    (he : w.examWithQuestions id byPosition = some e) : e.Weighted := by
  obtain ⟨e', he', rfl⟩ := Option.map_eq_some_iff.mp he
  have hw := h.weighted e' (List.mem_of_find?_eq_some he')
  split
  · exact hw.byPosition
  · exact hw

/-- A statement of a query runner. -/
theorem inTxn (h : EqualButKey w w') {ρ : Type} {f g : OpenTxn → Option (World × Except Err ρ)}
    {r : Except Err ρ} (hx : inTxn i w f = some (v, r))
    (hf : ∀ t t', w.txns.get i = some t → t.blind = t'.blind → f t = some (v, r) →
      ∃ v', g t' = some (v', r) ∧ EqualButKey v v') :
    ∃ v', Exams.inTxn i w' g = some (v', r) ∧ EqualButKey v v' := by
  unfold Exams.inTxn at hx ⊢
  cases ht : w.txns.get i with
  | none =>
    have ht' : w'.txns.get i = none := by simpa [ht] using (h.txns i).symm
    rw [ht] at hx
    cases hx
    rw [ht']
    exact ⟨w', rfl, h⟩
  | some t =>
    obtain ⟨t', ht', he⟩ := h.txn ht
    rw [ht] at hx
    rw [ht']
    exact hf t t' ht he hx

/-- A call that the answer key does not go through. -/
theorem exec_keyless [Bcrypt] (h : EqualButKey w w') {c : Call} (hc : c.keyless = true) {x : Choice}
    {r : Except Err (Resp c)} (hx : exec i c x w = some (v, r)) :
    ∃ v', exec i c x w' = some (v', r) ∧ EqualButKey v v' := by
  cases c with
  | now => cases hx; exact ⟨w', by rw [exec, h.now], h⟩
  | randomBytes => cases hx; exact ⟨w', rfl, h⟩
  | bcryptHash plain => cases hx; exact ⟨w', rfl, h⟩
  | bcryptCompare plain hash => cases hx; exact ⟨w', rfl, h⟩
  | examFindOne id => cases hx; exact ⟨w', by rw [exec, h.findOne], h⟩
  | examFindWithQuestions id byPosition => cases hc
  | examFindPublished certId => cases hx; exact ⟨w', by rw [exec, h.publishedExams], h⟩
  | accessCodeFind userId examId =>
    cases hx
    exact ⟨w', by rw [exec, World.unusedCodes, World.unusedCodes, h.codes], h⟩
  | accessCodeFindOne userId examId =>
    obtain rfl := exec_reads rfl hx
    refine ⟨w', ?_, h⟩
    simp only [exec, World.unusedCodes, h.codes] at hx ⊢
    split at hx <;> simp_all
  | accessCodeSave userId examId certId tokenHash expiresAt =>
    simp only [exec, h.codes, h.now] at hx ⊢
    split at hx
    · cases hx
    · cases hx
      exact ⟨_, if_neg ‹_›, { h with now := rfl, codes := rfl }⟩
  | testSessionFindOne id => cases hx; exact ⟨w', by rw [exec, h.sessions], h⟩
  | testSessionFindActive userId examId =>
    obtain rfl := exec_reads rfl hx
    refine ⟨w', ?_, h⟩
    simp only [exec, World.activeSessions, h.sessions] at hx ⊢
    split at hx <;> simp_all
  | testSessionUpdateSnapshot id snapshot =>
    simp only [exec, h.locked, h.sessions] at hx ⊢
    split at hx
    · cases hx
    · cases hx
      exact ⟨_, if_neg ‹_›, { h with sessions := rfl }⟩
  | testSessionUpdateStatus id status =>
    simp only [exec, h.locked, h.sessions] at hx ⊢
    split at hx
    · cases hx
    · cases hx
      exact ⟨_, if_neg ‹_›, { h with sessions := rfl }⟩
  | connect => cases hx; exact ⟨w', rfl, h⟩
  | startTransaction =>
    have hopen : (w.txns.get i).isSome = (w'.txns.get i).isSome := by
      simpa using congrArg Option.isSome (h.txns i)
    simp only [exec, hopen] at hx ⊢
    split at hx <;> cases hx
    · exact ⟨w', if_pos ‹_›, h⟩
    · exact ⟨_, if_neg ‹_›, h.putTxn rfl⟩
  | commitTransaction =>
    refine h.inTxn hx fun t t' _ ht hx => ?_
    cases hx
    exact ⟨_, rfl, h.commit ht⟩
  | rollbackTransaction => cases hx; exact ⟨_, rfl, h.closeTxn i⟩
  | release => cases hx; exact ⟨w', rfl, h⟩
  | setCurrentUser userId =>
    refine h.inTxn hx fun t t' _ ht hx => ?_
    cases hx
    refine ⟨_, rfl, h.putTxn ?_⟩
    have := congrArg (fun t : OpenTxn => { t with user := some userId }) ht
    exact this
  | selectAttemptedExams userId certId =>
    refine h.inTxn hx fun t t' _ ht hx => ?_
    cases hx
    exact ⟨w', by rw [h.attemptedExams ht], h⟩
  | txUpdateAccessCode id unused usedAt =>
    refine h.inTxn hx fun t t' _ ht hx => ?_
    simp only [h.locked, h.codes] at hx ⊢
    split at hx
    · cases hx
    · rw [if_neg ‹_›]
      cases hrow : w'.codes.get id with
      | none =>
        simp only [hrow] at hx
        cases hx
        exact ⟨w', rfl, h⟩
      | some row =>
        simp only [hrow] at hx
        split at hx <;> cases hx
        · exact ⟨w', if_pos ‹_›, h⟩
        · exact ⟨_, if_neg ‹_›, h.addWrite ht rfl⟩
  | txSaveTestSession userId? row =>
    refine h.inTxn hx fun t t' _ ht hx => ?_
    cases userId? with
    | none => cases hx; exact ⟨w', rfl, h⟩
    | some userId =>
      simp only [h.freshSession] at hx ⊢
      split at hx
      · cases hx
        exact ⟨_, if_pos ‹_›, h.addWrite ht rfl⟩
      · cases hx
  | txDeleteTestSession id =>
    refine h.inTxn hx fun t t' _ ht hx => ?_
    simp only [h.locked] at hx ⊢
    split at hx
    · cases hx
    · cases hx
      exact ⟨_, if_neg ‹_›, h.addWrite ht rfl⟩
  | txUpdateTestSession id allowed status submittedAt snapshot =>
    refine h.inTxn hx fun t t' _ ht hx => ?_
    simp only [h.locked, h.sessions] at hx ⊢
    split at hx
    · cases hx
    · rw [if_neg ‹_›]
      cases hrow : w'.sessions.get id with
      | none =>
        simp only [hrow] at hx
        cases hx
        exact ⟨w', rfl, h⟩
      | some row =>
        simp only [hrow] at hx
        split at hx <;> cases hx
        · exact ⟨w', if_pos ‹_›, h⟩
        · exact ⟨_, if_neg ‹_›, h.addWrite ht rfl⟩
  | txSaveExamAttempt session attempt => cases hc
  | redisSet key value ttlSeconds =>
    simp only [exec, h.redis, h.now] at hx ⊢
    split at hx <;> cases hx
    · exact ⟨w', if_pos ‹_›, h⟩
    · exact ⟨_, if_neg ‹_›, { h with now := rfl, redis := rfl }⟩
  | redisSetKeepTtlXx key value =>
    cases hx
    exact ⟨{ w' with redis := w'.redis.setKeepTtlXx key value }, by rw [exec, h.redis],
      { h with redis := by rw [h.redis] }⟩
  | redisGet key => cases hx; exact ⟨w', by rw [exec, h.redis], h⟩
  | redisGetdel key =>
    cases hx
    exact ⟨{ w' with redis := w'.redis.erase key }, by rw [exec, h.redis],
      { h with redis := by rw [h.redis] }⟩
  | redisPttl key => cases hx; exact ⟨w', by rw [exec, h.redis, h.now], h⟩
  | redisDel key => cases hx; exact ⟨_, rfl, { h with redis := by rw [h.redis] }⟩

theorem exec [Bcrypt] (h : EqualButKey w w') {c c' : Call} (hc : SameCall c c') {x : Choice}
    {r : Except Err (Resp c)} (hx : exec i c x w = some (v, r)) :
    ∃ v' r', Exams.exec i c' x w' = some (v', r') ∧ EqualButKey v v' ∧ SameAnswer c c' r r' := by
  cases hc with
  | refl hc =>
    by_cases hkey : c.keyless = true
    · obtain ⟨v', hx', hv⟩ := h.exec_keyless hkey hx
      refine ⟨v', r, hx', hv, .refl (fun id byPosition he => ?_) r⟩
      rw [he] at hkey
      cases hkey
    · cases c with
      | examFindWithQuestions id byPosition =>
        cases hx
        exact ⟨w', _, rfl, h, .exam (h.examWithQuestions id byPosition) fun e he =>
          h.examWithQuestions_weighted he⟩
      | txSaveExamAttempt session attempt => exact absurd rfl (hc session attempt)
      | _ => exact absurd rfl hkey
  | @save session a a' ha hrange hrange' =>
    have huser : a.userId = a'.userId := ExamAttempt.userId_of_blind ha
    obtain ⟨v', hx', hv⟩ := h.inTxn (g := fun t =>
      if t.admits a' then some (w'.addWrite t (.attempt ⟨session, i, a'⟩), .ok ())
      else some (w', .error (.infra "exam_attempts rejects the row"))) hx fun t t' _ ht hx => by
        have htuser : t.user = t'.user := OpenTxn.user_of_blind ht
        have hadmits : t.admits a = t'.admits a' := by
          simp [OpenTxn.admits, htuser, huser, hrange.1, hrange.2, hrange'.1, hrange'.2]
        rw [hadmits] at hx
        split at hx <;> cases hx
        · refine ⟨_, if_pos ‹_›, h.addWrite ht ?_⟩
          exact congrArg (fun a => Write.attempt ⟨session, i, a⟩) ha
        · exact ⟨w', if_neg ‹_›, h⟩
    exact ⟨v', r, hx', hv, by cases r with
      | error e => exact .error e
      | ok u => exact .save u⟩

theorem reject (h : EqualButKey w w') {c c' : Call} (hc : SameCall c c') {e : Err}
    (hx : reject i c w = some (v, e)) :
    ∃ v', Exams.reject i c' w' = some (v', e) ∧ EqualButKey v v' := by
  unfold Exams.reject at hx ⊢
  cases hc with
  | refl hc =>
    split at hx
    · cases hx
      refine ⟨_, if_pos ‹_›, ?_⟩
      split
      · exact h.closeTxn i
      · exact h.closeTxn i
      · exact h
    · cases hx
  | save _ _ _ =>
    cases hx
    exact ⟨w', rfl, h⟩

theorem env (h : EqualButKey w w') {e : EnvEvent} {ts : List Task}
    (hx : envStep e w = some (v, ts)) : ∃ v', envStep e w' = some (v', ts) ∧ EqualButKey v v' := by
  unfold envStep at hx ⊢
  cases e with
  | tick ms =>
    cases hx
    exact ⟨_, rfl, { h with
      now := by simp [World.tick, h.now]
      redis := by simp [World.tick, h.now, h.redis]
      undelivered := by simp [World.tick, h.now, h.redis, h.undelivered] }⟩
  | deliver key =>
    simp only [h.undelivered, h.delivered] at hx ⊢
    split at hx <;> cases hx
    exact ⟨_, if_pos ‹_›, { h with undelivered := rfl, delivered := rfl }⟩
  | redeliver key =>
    simp only [h.delivered] at hx ⊢
    split at hx <;> cases hx
    exact ⟨w', if_pos ‹_›, h⟩
  | lose key =>
    simp only [h.undelivered] at hx ⊢
    split at hx <;> cases hx
    exact ⟨_, if_pos ‹_›, { h with undelivered := rfl }⟩

end EqualButKey

end

/-! ## Programs -/

abbrev Twins {α β : Type} (Q : α → β → Prop) (p : Promise α) (p' : Promise β) : Prop :=
  sameButKey.Twins Q p p'

section

variable {α β : Type} {Q : α → β → Prop}

theorem twins_call {c : Call} (hc : c.keyless = true) {f : Resp c → Promise α} {f' : Resp c → Promise β}
    (h : ∀ a, Twins Q (f a) (f' a)) : Twins Q ((await c).bind f) ((await c).bind f') := by
  refine (Matching.twins_await (plain_of_keyless hc)).bind fun a b hab => ?_
  subst hab
  exact h a

theorem twins_exam {id : Id} {byPosition : Bool} {f : Option Exam → Promise α}
    {f' : Option Exam → Promise β}
    (h : ∀ e? e?', e?.map Exam.blind = e?'.map Exam.blind → (∀ e, e? = some e → e.Weighted) →
      Twins Q (f e?) (f' e?')) :
    Twins Q ((await (.examFindWithQuestions id byPosition)).bind f)
      ((await (.examFindWithQuestions id byPosition)).bind f') := by
  refine .call (.refl fun s a he => by cases he) fun r r' hr => ?_
  cases hr with
  | error e => exact .throw e
  | exam hblind hw => exact h _ _ hblind hw
  | refl hne => exact absurd rfl (hne _ _)

theorem twins_bind {γ : Type} {p : Promise γ} {f : γ → Promise α} {f' : γ → Promise β}
    (hp : Twins Eq p p) (h : ∀ a, Twins Q (f a) (f' a)) : Twins Q (p.bind f) (p.bind f') := by
  refine hp.bind fun a b hab => ?_
  subst hab
  exact h a

end

theorem twins_self (c : Call) (hc : c.keyless = true) : Twins Eq (await c) (await c) :=
  Matching.twins_await (plain_of_keyless hc)

theorem twins_ret {α : Type} (a : α) : Twins Eq (.ret a : Promise α) (.ret a) := .ret rfl

theorem issueAccessCode_twins (userId : Id) (exam : Exam) :
    Twins Eq (ExamService.issueAccessCode userId exam) (ExamService.issueAccessCode userId exam) := by
  unfold ExamService.issueAccessCode
  exact twins_call rfl fun _ => twins_call rfl fun _ => twins_call rfl fun _ => twins_call rfl fun _ =>
    twins_ret _

namespace ExamService

theorem assignExam_twins (userId examId certId : Id) :
    Twins Eq (assignExam userId examId certId) (assignExam userId examId certId) := by
  unfold assignExam
  refine twins_call rfl fun exam? => ?_
  cases exam? with
  | none => exact .throw _
  | some exam =>
    simp only
    split
    · exact .throw _
    · split
      · exact .throw _
      · exact issueAccessCode_twins userId exam

theorem getAttemptedExamIds_twins (userId certId : Id) :
    Twins Eq (getAttemptedExamIds userId certId) (getAttemptedExamIds userId certId) := by
  unfold getAttemptedExamIds
  refine twins_call rfl fun _ => twins_call rfl fun _ => Matching.Twins.ensure ?_ ?_
  · refine Matching.Twins.handle ?_ fun err => twins_call rfl fun _ => .throw err
    exact twins_call rfl fun _ => twins_call rfl fun _ => twins_call rfl fun _ => twins_ret _
  · exact (twins_self .release rfl).mono fun _ _ _ => trivial

theorem assignNextExam_twins (userId certId : Id) :
    Twins Eq (assignNextExam userId certId) (assignNextExam userId certId) := by
  unfold assignNextExam
  refine twins_call rfl fun pool => ?_
  split
  · exact .throw _
  · refine twins_bind (getAttemptedExamIds_twins userId certId) fun attempted => ?_
    split
    · exact .throw _
    · refine twins_call rfl fun outstanding => twins_call rfl fun now => ?_
      split
      · exact .throw _
      · exact twins_bind (issueAccessCode_twins _ _) fun issued => twins_ret _

theorem firstMatch_twins (code : String) (codes : List ExamAccessCode) :
    Twins Eq (firstMatch code codes) (firstMatch code codes) := by
  induction codes with
  | nil => exact twins_ret none
  | cons candidate rest ih =>
    unfold firstMatch
    refine twins_call rfl fun now => ?_
    split
    · exact ih
    · refine twins_call rfl fun matched => ?_
      split
      · exact twins_ret _
      · exact ih

theorem findAndVerifyCode_twins (userId : Option Id) (code : String) (examId : Id) :
    Twins Eq (findAndVerifyCode userId code examId) (findAndVerifyCode userId code examId) := by
  unfold findAndVerifyCode
  refine twins_call rfl fun exam? => ?_
  cases exam? with
  | none => exact .throw _
  | some exam =>
    simp only
    split
    · exact .throw _
    · refine twins_call rfl fun candidates => twins_bind (firstMatch_twins code candidates) ?_
      intro candidate?
      cases candidate? with
      | none => exact .throw _
      | some candidate => exact twins_ret _

theorem validateAccess_twins (userId : Option Id) (code : String) (examId : Id) :
    Twins Eq (validateAccess userId code examId) (validateAccess userId code examId) := by
  unfold validateAccess
  exact twins_bind (findAndVerifyCode_twins userId code examId) fun _ => twins_ret _

theorem transaction_twins {α : Type} {body : Promise α} (h : Twins Eq body body) :
    Twins Eq (transaction body) (transaction body) := by
  unfold transaction
  refine Matching.Twins.handle ?_ fun err => ?_
  · exact twins_call rfl fun _ => twins_bind h fun _ => twins_call rfl fun _ => twins_ret _
  · refine twins_bind (Matching.Twins.handle ?_ fun _ => twins_ret ()) fun _ => .throw err
    exact twins_self .rollbackTransaction rfl

theorem createSession_twins (userId : Option Id) (accessCode : ExamAccessCode) (row : TestSession) :
    Twins Eq (createSession userId accessCode row) (createSession userId accessCode row) := by
  unfold createSession
  refine twins_call rfl fun now => twins_call rfl fun affected => ?_
  split
  · exact .throw _
  · exact twins_self (.txSaveTestSession _ _) rfl

theorem compensate_twins (session : TestSession) (accessCode : ExamAccessCode) :
    Twins Eq (compensate session accessCode) (compensate session accessCode) := by
  unfold compensate
  exact twins_call rfl fun _ => twins_call rfl fun _ => twins_ret ()

/-- What the controller makes of the two is the same. -/
def AlikeStarted (s s' : Started) : Prop :=
  ExamController.startPayload s = ExamController.startPayload s'

theorem startExam_twins (userId : Option Id) (code : String) (examId : Id) :
    Twins AlikeStarted (startExam userId code examId) (startExam userId code examId) := by
  unfold startExam
  refine twins_bind (findAndVerifyCode_twins userId code examId) fun ⟨accessCode, exam⟩ => ?_
  refine twins_call rfl fun existing => ?_
  simp only
  split
  · exact .throw _
  · refine twins_call rfl fun startedAt => ?_
    refine twins_bind (transaction_twins (createSession_twins userId accessCode _)) fun session => ?_
    refine twins_bind (Matching.Twins.handle ?_ fun err => ?_) fun _ => ?_
    · exact twins_self (.redisSet _ _ _) rfl
    · exact (transaction_twins (compensate_twins session accessCode)).bind fun _ _ _ => .throw err
    · refine twins_exam fun e? e?' hblind _ => .ret ?_
      have hquestions : ∀ e? : Option Exam, ((e?.map (·.questions)).getD []).map
          ExamController.questionPayload =
            (((e?.map Exam.blind).map (·.questions)).getD []).map ExamController.questionPayload := by
        intro e?
        cases e? with
        | none => rfl
        | some e => simp [Exam.blind, questionPayload_blind]
      unfold AlikeStarted ExamController.startPayload
      simp only
      rw [hquestions e?, hquestions e?', hblind]

theorem getOwnedSession_twins (sessionId userId : Id) (allowed : List TestSessionStatus) :
    Twins Eq (getOwnedSession sessionId userId allowed) (getOwnedSession sessionId userId allowed) := by
  unfold getOwnedSession
  refine twins_call rfl fun session? => ?_
  cases session? with
  | none => exact .throw _
  | some session =>
    simp only
    split
    · exact .throw _
    · split
      · exact .throw _
      · exact twins_ret _

theorem autosave_twins (sessionId userId : Id) (answers : Answers) :
    Twins Eq (autosave sessionId userId answers) (autosave sessionId userId answers) := by
  unfold autosave getOwnedActiveSession
  refine twins_bind (getOwnedSession_twins _ _ _) fun session => twins_bind ?_ fun saved => ?_
  · unfold TestSessionService.autosave
    refine twins_call rfl fun existing => ?_
    split
    · exact twins_ret _
    · exact twins_self (.redisSetKeepTtlXx _ _) rfl
  · split
    · exact .throw _
    · exact twins_self (.testSessionUpdateSnapshot _ _) rfl

theorem getSession_twins (sessionId : Id) :
    Twins Eq (TestSessionService.getSession sessionId) (TestSessionService.getSession sessionId) := by
  unfold TestSessionService.getSession
  exact twins_call rfl fun _ => twins_call rfl fun _ => twins_ret _

theorem getSessionStatus_twins (sessionId userId : Id) :
    Twins Eq (getSessionStatus sessionId userId) (getSessionStatus sessionId userId) := by
  unfold getSessionStatus
  exact twins_bind (getOwnedSession_twins _ _ _) fun session =>
    twins_bind (getSession_twins sessionId) fun _ => twins_ret _

/-- Attempts that differ in their results. -/
theorem persist_twins (session : TestSession) (answers : Answers) {a a' : ExamAttempt}
    (h : a.blind = a'.blind) (ha : a.InRange) (ha' : a'.InRange) :
    Twins Eq (persist session answers a) (persist session answers a') := by
  have hstatus : a.blind.status = a'.blind.status := by rw [h]
  have hat : a.blind.submittedAt = a'.blind.submittedAt := by rw [h]
  unfold persist
  rw [show a.status = a'.status from hstatus, show a.submittedAt = a'.submittedAt from hat]
  refine twins_call rfl fun _ => twins_call rfl fun affected => ?_
  split
  · exact .throw _
  · refine .call (.save h ha ha') fun r r' hr => ?_
    cases hr with
    | error e => exact .throw e
    | refl _ r =>
      cases r with
      | error e => exact .throw e
      | ok u => exact twins_self .commitTransaction rfl
    | save u => exact twins_self .commitTransaction rfl

/-- All that tells the runs apart is the result. -/
theorem scoreAndPersist_twins (session : TestSession) (answers : Answers) (status : AttemptStatus)
    (lateFlag : Bool) :
    Twins (fun _ _ => True) (scoreAndPersist session answers status lateFlag)
      (scoreAndPersist session answers status lateFlag) := by
  unfold scoreAndPersist scoreAnswers
  refine (twins_exam (Q := fun r r' => (0 ≤ r.score ∧ r.score ≤ 100) ∧ 0 ≤ r'.score ∧ r'.score ≤ 100)
    fun e? e?' hblind hw => .ret ⟨scoreOf_bounds hw answers, scoreOf_bounds ?_ answers⟩).bind ?_
  · intro e' he'
    rw [he', Option.map_some] at hblind
    obtain ⟨e, he, hblind⟩ := Option.map_eq_some_iff.mp hblind
    exact (hw e he).congr hblind
  · intro result result' hrange
    refine twins_call rfl fun submittedAt => twins_call rfl fun _ => twins_call rfl fun _ => ?_
    refine (Matching.Twins.ensure ?_ ?_ : Twins Eq _ _).bind fun _ _ _ => ?_
    · refine Matching.Twins.handle (persist_twins session answers rfl hrange.1 hrange.2) fun err => ?_
      exact twins_call rfl fun _ => .throw err
    · exact (twins_self .release rfl).mono fun _ _ _ => trivial
    · exact twins_call rfl fun _ => .ret trivial

theorem submitExam_twins (sessionId userId : Id) (answers : Answers) :
    Twins (fun _ _ => True) (submitExam sessionId userId answers)
      (submitExam sessionId userId answers) := by
  unfold submitExam getOwnedActiveSession
  exact twins_bind (getOwnedSession_twins _ _ _) fun session => scoreAndPersist_twins _ _ _ _

theorem lateSubmitExam_twins (sessionId userId : Id) (answers : Answers) :
    Twins (fun _ _ => True) (lateSubmitExam sessionId userId answers)
      (lateSubmitExam sessionId userId answers) := by
  unfold lateSubmitExam TestSessionService.consumeGrace
  refine twins_bind (getOwnedSession_twins _ _ _) fun session => ?_
  refine twins_bind (twins_call rfl fun _ => twins_ret _) fun snapshot? => ?_
  cases snapshot? with
  | none => exact .throw _
  | some snapshot => exact scoreAndPersist_twins _ _ _ _

theorem autoSubmitFromSnapshot_twins (sessionId : Id) :
    Twins Eq (autoSubmitFromSnapshot sessionId) (autoSubmitFromSnapshot sessionId) := by
  unfold autoSubmitFromSnapshot
  refine twins_call rfl fun session? => ?_
  cases session? with
  | none => exact twins_ret ()
  | some session =>
    simp only
    split
    · exact twins_ret ()
    · refine Matching.Twins.handle ?_ fun _ => twins_ret ()
      exact (scoreAndPersist_twins _ _ _ _).bind fun _ _ _ => twins_ret ()

end ExamService

theorem handleSessionExpiry_twins (sessionId : Id) :
    Twins Eq (ExamKeyspaceHandler.handleSessionExpiry sessionId)
      (ExamKeyspaceHandler.handleSessionExpiry sessionId) := by
  unfold ExamKeyspaceHandler.handleSessionExpiry
  refine twins_call rfl fun session? => ?_
  cases session? with
  | none => exact twins_ret ()
  | some session =>
    simp only
    split
    · exact twins_ret ()
    · exact twins_call rfl fun _ => twins_self (.redisSet _ _ _) rfl

theorem handleJoinSession_twins (sessionId userId : Id) :
    Twins Eq (ExamGateway.handleJoinSession sessionId userId)
      (ExamGateway.handleJoinSession sessionId userId) := by
  unfold ExamGateway.handleJoinSession
  refine twins_bind (ExamService.getSession_twins sessionId) fun ⟨data, pttlMs⟩ => ?_
  cases data with
  | none => exact .throw _
  | some data =>
    simp only
    split
    · exact .throw _
    · exact twins_ret _

/-! ## Runs -/

/-- The body of a response, or the answer to a message. -/
inductive Response where
  | access (payload : AccessPayload)
  | started (payload : StartPayload)
  | saved
  | status (s : ExamService.SessionStatus)
  | joined (remainingSeconds : Int)
  | issued (code : String × Time × Id)
  | issuedNext (code : String × Time × Id) (examOrder : Int) (examTitle : String)
  | handled
  deriving DecidableEq, Repr

/-- What the controllers and the gateway answer, without the results of submissions. -/
def Reply.shown : Reply → Option Response
  | .access exam accessCodeId => some (.access (ExamController.accessPayload exam accessCodeId))
  | .started s => some (.started (ExamController.startPayload s))
  | .saved => some .saved
  | .status s => some (.status s)
  | .joined remainingSeconds => some (.joined remainingSeconds)
  | .issued code => some (.issued code)
  | .issuedNext code examOrder examTitle => some (.issuedNext code examOrder examTitle)
  | .handled => some .handled
  | .scored _ => none

/-- Only the results of submissions differ. -/
def AlikeReply (r r' : Reply) : Prop := r.shown = r'.shown

theorem Task.prog_twins (t : Task) : Twins AlikeReply t.prog t.prog := by
  have hret : ∀ {α : Type} {p : Promise α} (f : α → Reply), Twins Eq p p →
      Twins AlikeReply (p.bind fun a => .ret (f a)) (p.bind fun a => .ret (f a)) :=
    fun f hp => twins_bind hp fun a => .ret rfl
  cases t with
  | assignExam userId examId certId => exact hret _ (ExamService.assignExam_twins _ _ _)
  | assignNextExam userId certId =>
    exact hret (fun a => .issuedNext a.1 a.2.1 a.2.2) (ExamService.assignNextExam_twins _ _)
  | validateAccess userId code examId =>
    exact hret (fun a => .access a.1 a.2) (ExamService.validateAccess_twins _ _ _)
  | startExam userId code examId =>
    exact (ExamService.startExam_twins _ _ _).bind fun s s' h =>
      .ret (congrArg (fun payload => some (Response.started payload)) h)
  | autosave sessionId userId answers => exact hret _ (ExamService.autosave_twins _ _ _)
  | getSessionStatus sessionId userId => exact hret _ (ExamService.getSessionStatus_twins _ _)
  | submitExam sessionId userId answers =>
    exact (ExamService.submitExam_twins _ _ _).bind fun _ _ _ => .ret rfl
  | lateSubmitExam sessionId userId answers =>
    exact (ExamService.lateSubmitExam_twins _ _ _).bind fun _ _ _ => .ret rfl
  | joinSession sessionId userId => exact hret _ (handleJoinSession_twins _ _)
  | handleExpiry type sessionId =>
    cases type with
    | session => exact hret _ (handleSessionExpiry_twins _)
    | grace => exact hret _ (ExamService.autoSubmitFromSnapshot_twins _)

theorem exam_lockstep [Bcrypt] : sameButKey.Lockstep examSystem EqualButKey AlikeReply where
  prog := Task.prog_twins
  exec h hc hx := h.exec hc hx
  reject h hc hx := (h.reject hc hx).imp fun _ hv => ⟨hv.1, hv.2, .error _⟩
  env h hx := h.env hx

/-- Two databases that differ only in `is_correct` answer every run the same: each request is
served in both or waits in both, and ends with one error or, but for the result of a submission,
with one response. -/
theorem answer_key_secret [Bcrypt] {w w' : World} (h : EqualButKey w w')
    {ls : List PoolLabel} {c : Pool} (hs : Trace examSystem ls (.initial w) c) :
    ∃ c', Trace examSystem ls (.initial w') c' ∧ ∀ i, c'.task? i = c.task? i ∧
      c'.error? i = c.error? i ∧ (c'.reply? i).map Reply.shown = (c.reply? i).map Reply.shown := by
  obtain ⟨c', hs', hc⟩ := (Paired.initial h).trace exam_lockstep hs
  refine ⟨c', hs', fun i => ?_⟩
  obtain ⟨htask, hreply, herror⟩ := hc.ends i
  refine ⟨htask.symm, herror.symm, ?_⟩
  generalize c.reply? i = r at hreply ⊢
  generalize c'.reply? i = r' at hreply ⊢
  cases hreply with
  | some h => exact congrArg some (Eq.symm h)
  | none => rfl

/-- One question. Whether its first or its second option is correct is open. -/
def keyedSchool (first : Bool) : World :=
  { school with
    exams := [⟨"e", "c", "Exam", 1, .published, none, 1,
      [⟨"q", "First?", .mcq, 0, some 1, [⟨"q1", "Yes", first⟩, ⟨"q2", "No", !first⟩]⟩]⟩] }

set_option maxRecDepth 100000 in
/-- The questions come with their keys and are answered without them. -/
theorem answer_key_secret_starts :
    ∃ c c', Trace (@examSystem plainBcrypt) starts (.initial (keyedSchool true)) c ∧
      Trace (@examSystem plainBcrypt) starts (.initial (keyedSchool false)) c' ∧
      (c.reply? 0).isSome ∧ (c'.reply? 0).map Reply.shown = (c.reply? 0).map Reply.shown := by
  have hrun : ((runIf (@examSystem plainBcrypt) anyStep starts (.initial (keyedSchool true))).any
      fun c => (c.reply? 0).isSome) = true := by decide
  obtain ⟨c, hc, hreply⟩ := (Option.any_eq_true _ _).mp hrun
  have hkey : EqualButKey (keyedSchool true) (keyedSchool false) := by
    constructor <;> first | rfl | skip
    · unfold Exam.Weighted
      decide
    · exact fun i => rfl
  have hs := Trace.of_runIf hc
  obtain ⟨c', hs', hsame⟩ := @answer_key_secret plainBcrypt _ _ hkey _ _ hs
  exact ⟨c, c', hs, hs', hreply, (hsame 0).2.2⟩

end LmsBackend.Exams
