import LmsBackend.Exams.Database
import LmsBackend.Exams.Transactions

/-! # What a step does by the process that takes it -/

open Async Store

namespace LmsBackend.Exams

variable {i : Nat} {w w' : World} {g g' : Phase}

theorem Tables.Ok.known {t : Tables} (hw : t.Ok) {id : Id} {row : TestSession}
    (h : t.sessions.get id = some row) : row.id = id ∧ Known row t := by
  have hid : row.id = id := Table.key_of_get h
  subst hid
  refine ⟨rfl, hw.issued _ _ h, fun row' h' => ?_, hw.code _ _ h⟩
  rw [h] at h'
  cases h'
  rfl

theorem read_holds (hw : w.tables.Ok) {id : Id} (hg : g.Holds i w)
    (h : g.read id (w.sessions.get id) = some g') : g'.Holds i w := by
  cases hrow : w.sessions.get id with
  | none =>
    rw [hrow] at h
    cases g <;> simp only [Phase.read] at h <;> first | (cases h; done) | (cases h; exact hg) | skip
    all_goals
      split at h <;> cases h
      exact hg
  | some row =>
    obtain ⟨hid, hknown⟩ := hw.known hrow
    rw [hrow] at h
    cases g <;> simp only [Phase.read] at h <;> first | (cases h; done) | (cases h; exact hg) | skip
    all_goals
      split at h
      · rename_i hs
        cases hs
        split at h <;> cases h
        · first | exact ⟨hg, hid, hknown⟩ | exact ⟨hg, hknown⟩
        · exact hg
      · cases h

theorem mem_insertionSort_unused {userId examId : Id} {c : ExamAccessCode}
    (h : c ∈ (w.unusedCodes (some userId) examId).insertionSort (·.createdAt ≥ ·.createdAt)) :
    CodeKnown userId examId c w.tables := by
  rw [List.mem_insertionSort, World.unusedCodes, List.mem_filter] at h
  obtain ⟨hmem, hc⟩ := h
  simp only [Option.all_some, decide_eq_true_eq] at hc
  exact ⟨c, Table.mem_rows_iff.mp hmem, hc.1, hc.2.1, rfl⟩

theorem reads_holds [Bcrypt] (hw : w.tables.Ok) {call : Call} (hc : call.reads = true) (hg : g.Holds i w)
    {x : Choice} {a : Resp call} (hx : exec i call x w = some (w', .ok a))
    (hn : g.nextOk call a = some g') : g'.Holds i w := by
  cases call with
  | testSessionFindOne id => cases hx; exact read_holds hw hg hn
  | now =>
    cases hx
    cases g with
    | candidates => cases hn; exact hg
    | _ =>
      simp only [Phase.nextOk] at hn
      split at hn <;> cases hn
      exact hg
  | accessCodeFind userId? examId' =>
    cases hx
    cases g <;> simp only [Phase.nextOk] at hn <;> first | (cases hn; done) | (cases hn; exact hg) | skip
    split at hn <;> cases hn
    rename_i h
    obtain ⟨rfl, rfl⟩ := h
    exact ⟨hg, fun c hmem => mem_insertionSort_unused hmem⟩
  | testSessionFindActive userId? examId' =>
    obtain rfl := exec_reads rfl hx
    cases g with
    | candidates =>
      simp only [Phase.nextOk] at hn
      split at hn
      · split at hn <;> cases hn
        · exact ⟨hg.1, fun c hc => hg.2 c (List.mem_filter.mp hc).1⟩
        · exact hg.1
      · cases hn
    | quiet => cases hn; exact hg
    | _ => cases hn
  | redisGet key =>
    cases hx
    cases g <;> simp only [Phase.nextOk] at hn <;> first | (cases hn; done) | (cases hn; exact hg) | skip
    split at hn
    · split at hn <;> cases hn
      · exact hg
      · exact hg.1
    · cases hn
  | _ =>
    first
    | cases hc; done
    | simp only [Phase.nextOk] at hn
      split at hn <;> cases hn
      exact hg

/-- Equal tables and transactions hold equal phases. -/
theorem Phase.Holds.congr (hg : g.Holds i w) (h : w'.tables = w.tables) (ht : w'.txns = w.txns) :
    g.Holds i w' := by
  obtain ⟨now, exams, codes, sessions, attempts, txns, issued, redis, u, d⟩ := w
  obtain ⟨now', exams', codes', sessions', attempts', txns', issued', redis', u', d'⟩ := w'
  cases h
  cases ht
  cases g <;> exact hg

theorem inTxn_ok {ρ : Type} {f : OpenTxn → Option (World × Except Err ρ)} {a : ρ}
    (h : inTxn i w f = some (w', .ok a)) : ∃ t, w.txns.get i = some t ∧ f t = some (w', .ok a) := by
  rcases inTxn_some h with ⟨e, he⟩ | h
  · cases he
  · exact h

theorem own_commit [Bcrypt] (hg : g.Holds i w) {x : Choice}
    (hx : exec i .commitTransaction x w = some (w', .ok ()))
    (hn : g.nextOk .commitTransaction () = some g') :
    DbStep i w w' g .commitTransaction (.ok ()) ∧ g'.Holds i w' := by
  obtain ⟨t, ht, hx⟩ := inTxn_ok hx
  obtain rfl : w.commit t = w' := by cases hx; rfl
  have hidle : (w.commit t).idle i := by
    rw [World.idle, World.commit_txns, World.proc_of_get ht, Table.get_erase_self]
  cases g with
  | readTx =>
    cases hn
    obtain ⟨user, hg⟩ := hg
    cases ht.symm.trans hg
    exact ⟨.kept rfl rfl, hidle⟩
  | inserted code session =>
    cases hn
    obtain ⟨⟨row, usedAt, hrow, hunused, hg, hmatch⟩, htoken, hactive, hsnap, hfresh⟩ := hg
    cases ht.symm.trans hg
    cases Table.key_of_get hrow
    refine ⟨.start row session usedAt hrow hunused hfresh htoken hmatch hactive hsnap
      ⟨_, ht, by simp [OpenTxn.holds, Write.lock]⟩ ⟨_, ht, by simp [OpenTxn.holds, Write.lock]⟩ rfl,
      hidle, htoken, session, ?_, rfl⟩
    exact Table.get_put_self _ _
  | undoRestored code session =>
    cases hn
    obtain ⟨⟨row, hcode, hg⟩, htoken, srow, hrow, hfixed⟩ := hg
    cases ht.symm.trans hg
    cases Table.key_of_get hcode
    exact ⟨.undo row session srow hrow hfixed hcode htoken
      ⟨_, ht, by simp [OpenTxn.holds, Write.lock]⟩ ⟨_, ht, by simp [OpenTxn.holds, Write.lock]⟩ rfl,
      hidle⟩
  | stored d attempt =>
    cases hn
    obtain ⟨⟨user, row, hrow, hopen, hg⟩, hmakes, hknown⟩ := hg
    cases ht.symm.trans hg
    have hid : row.id = d.session.id := Table.key_of_get hrow
    have hfixed := hknown.fixed row hrow
    refine ⟨.submit d attempt row hrow hopen hfixed hmakes
      ⟨_, ht, by simp [OpenTxn.holds, Write.lock, TestSession.moved, hid]⟩ rfl, hidle,
      hknown.issued, fun row' hrow' => ?_, hknown.code⟩
    have hput := Table.get_put_self w.sessions
      (row.moved d.status.session attempt.submittedAt d.answers)
    rw [show Keyed.key (row.moved d.status.session attempt.submittedAt d.answers) = d.session.id
      from hid] at hput
    cases hput.symm.trans hrow'
    exact hfixed
  | _ => cases hn

theorem World.get_addWrite {t : OpenTxn} (ht : w.txns.get i = some t) (wr : Write) :
    (w.addWrite t wr).txns.get i = some { t with writes := t.writes ++ [wr] } := by
  have hi : t.proc = i := World.proc_of_get ht
  exact Table.get_put_of_eq _ hi

theorem own_startTransaction [Bcrypt] (hg : g.Holds i w) {x : Choice}
    (hx : exec i .startTransaction x w = some (w', .ok ()))
    (hn : g.nextOk .startTransaction () = some g') : g'.Holds i w' := by
  simp only [exec] at hx
  split at hx <;> cases hx
  have hput : (w.txns.put ⟨i, none, []⟩).get i = some ⟨i, none, []⟩ := Table.get_put_self _ _
  cases g with
  | quiet => cases hn; exact ⟨none, hput⟩
  | guarded => cases hn; exact ⟨hput, hg.2⟩
  | undoing => cases hn; exact ⟨hput, hg.2⟩
  | scoring => cases hn; exact ⟨⟨none, hput⟩, hg.2⟩
  | _ => cases hn

theorem own_setCurrentUser [Bcrypt] (hg : g.Holds i w) {x : Choice} {userId : Id}
    (hx : exec i (.setCurrentUser userId) x w = some (w', .ok ()))
    (hn : g.nextOk (.setCurrentUser userId) () = some g') : w'.tables = w.tables ∧ g'.Holds i w' := by
  obtain ⟨t, ht, hx⟩ := inTxn_ok hx
  cases hx
  refine ⟨rfl, ?_⟩
  have hi : t.proc = i := World.proc_of_get ht
  have hput : (w.txns.put { t with user := some userId }).get i =
      some { t with user := some userId } := Table.get_put_of_eq _ hi
  cases g with
  | readTx =>
    cases hn
    obtain ⟨user, hg⟩ := hg
    cases ht.symm.trans hg
    exact ⟨some userId, hput⟩
  | begun d =>
    cases hn
    obtain ⟨⟨user, hg⟩, hknown⟩ := hg
    cases ht.symm.trans hg
    exact ⟨⟨some userId, hput⟩, hknown⟩
  | _ => cases hn

theorem own_txUpdateAccessCode [Bcrypt] (hw : w.tables.Ok) (hg : g.Holds i w) {x : Choice} {id : Id} {unused : Bool}
    {usedAt : Option Time} {a : Nat}
    (hx : exec i (.txUpdateAccessCode id unused usedAt) x w = some (w', .ok a))
    (hn : g.nextOk (.txUpdateAccessCode id unused usedAt) a = some g') :
    w'.tables = w.tables ∧ g'.Holds i w' := by
  obtain ⟨t, ht, hx⟩ := inTxn_ok hx
  split at hx
  · cases hx
  cases g with
  | consuming userId examId codes =>
    simp only [Phase.nextOk] at hn
    split at hn <;> cases hn
    rename_i hu
    obtain ⟨hu, hat⟩ := hu
    subst hu
    obtain ⟨at', rfl⟩ := Option.ne_none_iff_exists'.mp hat
    obtain ⟨hg, hcodes⟩ := hg
    cases ht.symm.trans hg
    split at hx
    · cases hx
      exact ⟨rfl, trivial⟩
    · rename_i row hrow
      split at hx <;> cases hx
      · exact ⟨rfl, trivial⟩
      · rename_i hused
        exact ⟨rfl, ⟨row, at', hrow, by simpa using hused, World.get_addWrite ht _⟩, hcodes⟩
  | undoDeleted code session =>
    simp only [Phase.nextOk] at hn
    split at hn <;> cases hn
    rename_i h
    obtain ⟨rfl, hu, rfl⟩ := h
    obtain ⟨hg, htoken, srow, hsrow, hfixed⟩ := hg
    cases ht.symm.trans hg
    obtain ⟨code, hcode, -⟩ := hw.code _ _ hsrow
    rw [TestSession.sessionToken_of_fixed hfixed, htoken] at hcode
    rw [show w.codes.get id = some code from hcode] at hx
    simp only at hx
    split at hx
    · simp_all
    · cases hx
      exact ⟨rfl, ⟨code, hcode, World.get_addWrite ht _⟩, htoken, srow, hsrow, hfixed⟩
  | _ => cases hn

theorem own_txSaveTestSession [Bcrypt] (hg : g.Holds i w) {x : Choice} {userId? : Option Id}
    {row session : TestSession}
    (hx : exec i (.txSaveTestSession userId? row) x w = some (w', .ok session))
    (hn : g.nextOk (.txSaveTestSession userId? row) session = some g') :
    w'.tables = w.tables ∧ g'.Holds i w' := by
  cases g with
  | consumed userId examId codes code =>
    simp only [Phase.nextOk] at hn
    split at hn <;> cases hn
    rename_i h
    obtain ⟨rfl, rfl, rfl, rfl, hactive, hsnap, c, hc, hcid, hcert⟩ := h
    obtain ⟨t, ht, hx⟩ := inTxn_ok hx
    simp only at hx
    split at hx <;> cases hx
    rename_i hfresh
    obtain ⟨⟨crow, usedAt, hcrow, hunused, hg⟩, hcodes⟩ := hg
    cases ht.symm.trans hg
    obtain ⟨crow', hcrow', hu, he, hcert'⟩ := hcodes c hc
    rw [hcid] at hcrow'
    cases hcrow.symm.trans hcrow'
    exact ⟨rfl, ⟨crow, usedAt, hcrow, hunused, World.get_addWrite ht _, hu, he, by simp [hcert, hcert']⟩,
      rfl, hactive, hsnap, (World.freshSession_iff.mp hfresh).1⟩
  | _ => cases hn

theorem own_txDeleteTestSession [Bcrypt] (hg : g.Holds i w) {x : Choice} {id : Id}
    (hx : exec i (.txDeleteTestSession id) x w = some (w', .ok ()))
    (hn : g.nextOk (.txDeleteTestSession id) () = some g') :
    w'.tables = w.tables ∧ g'.Holds i w' := by
  obtain ⟨t, ht, hx⟩ := inTxn_ok hx
  split at hx <;> cases hx
  cases g with
  | undoBegun code session =>
    simp only [Phase.nextOk] at hn
    split at hn <;> cases hn
    rename_i h
    subst h
    obtain ⟨hg, howned⟩ := hg
    cases ht.symm.trans hg
    exact ⟨rfl, World.get_addWrite ht _, howned⟩
  | _ => cases hn

theorem own_txUpdateTestSession [Bcrypt] (hg : g.Holds i w) {x : Choice} {id : Id}
    {allowed : List TestSessionStatus} {status : TestSessionStatus} {submittedAt : Time}
    {snapshot : Answers} {a : Nat}
    (hx : exec i (.txUpdateTestSession id allowed status submittedAt snapshot) x w =
      some (w', .ok a))
    (hn : g.nextOk (.txUpdateTestSession id allowed status submittedAt snapshot) a = some g') :
    w'.tables = w.tables ∧ g'.Holds i w' := by
  obtain ⟨t, ht, hx⟩ := inTxn_ok hx
  split at hx
  · cases hx
  cases g with
  | begun d =>
    simp only [Phase.nextOk] at hn
    split at hn <;> cases hn
    rename_i h
    obtain ⟨rfl, rfl, rfl, rfl⟩ := h
    obtain ⟨⟨user, hg⟩, hknown⟩ := hg
    cases ht.symm.trans hg
    split at hx
    · cases hx
      exact ⟨rfl, trivial⟩
    · rename_i row hrow
      split at hx <;> cases hx
      · exact ⟨rfl, trivial⟩
      · rename_i hopen
        refine ⟨rfl, ⟨user, row, hrow, ?_, World.get_addWrite ht _⟩, hknown⟩
        simpa [TestSession.isOpen, TestSessionStatus.isOpen, or_iff_not_imp_left] using hopen
  | _ => cases hn

theorem own_txSaveExamAttempt [Bcrypt] (hg : g.Holds i w) {x : Choice} {session : TestSession}
    {attempt : ExamAttempt}
    (hx : exec i (.txSaveExamAttempt session attempt) x w = some (w', .ok ()))
    (hn : g.nextOk (.txSaveExamAttempt session attempt) () = some g') :
    w'.tables = w.tables ∧ g'.Holds i w' := by
  obtain ⟨t, ht, hx⟩ := inTxn_ok hx
  split at hx <;> cases hx
  cases g with
  | moved d submittedAt =>
    simp only [Phase.nextOk] at hn
    split at hn <;> cases hn
    rename_i h
    obtain ⟨rfl, hmakes⟩ := h
    obtain ⟨⟨user, row, hrow, hopen, hg⟩, hknown⟩ := hg
    cases ht.symm.trans hg
    have hat : attempt.submittedAt = submittedAt := hmakes.2.2.2.2.2.1
    subst hat
    exact ⟨rfl, ⟨user, row, hrow, hopen, World.get_addWrite ht _⟩, hmakes, hknown⟩
  | _ => cases hn

/-- What a call that has answered does, by the process that made it. -/
theorem own_ok [Bcrypt] (hw : w.tables.Ok) (hg : g.Holds i w) {call : Call} {x : Choice}
    {a : Resp call} (hx : exec i call x w = some (w', .ok a)) (hn : g.nextOk call a = some g') :
    DbStep i w w' g call (.ok a) ∧ g'.Holds i w' := by
  cases call with
  | commitTransaction => exact own_commit hg hx hn
  | startTransaction =>
    have hh := own_startTransaction hg hx hn
    simp only [exec] at hx
    split at hx <;> cases hx
    exact ⟨.kept rfl rfl, hh⟩
  | rollbackTransaction =>
    cases hx
    cases g with
    | dropping => cases hn; exact ⟨.kept rfl rfl, Table.get_erase_self _ _⟩
    | _ => cases hn
  | setCurrentUser userId => exact (own_setCurrentUser hg hx hn).imp_left (.kept · rfl)
  | txUpdateAccessCode => exact (own_txUpdateAccessCode hw hg hx hn).imp_left (.kept · rfl)
  | txSaveTestSession => exact (own_txSaveTestSession hg hx hn).imp_left (.kept · rfl)
  | txDeleteTestSession => exact (own_txDeleteTestSession hg hx hn).imp_left (.kept · rfl)
  | txUpdateTestSession => exact (own_txUpdateTestSession hg hx hn).imp_left (.kept · rfl)
  | txSaveExamAttempt => exact (own_txSaveExamAttempt hg hx hn).imp_left (.kept · rfl)
  | accessCodeSave userId examId certId tokenHash expiresAt =>
    simp only [exec] at hx
    split at hx <;> cases hx
    rename_i hnew
    cases g with
    | quiet =>
      cases hn
      exact ⟨.issue ⟨x, userId, examId, certId, tokenHash, expiresAt, none, w.now⟩
        (by simpa using hnew) rfl rfl, hg⟩
    | _ => cases hn
  | testSessionUpdateSnapshot id snapshot =>
    simp only [exec] at hx
    split at hx <;> cases hx
    rename_i hlock
    cases g with
    | saveMirror sessionId session answers =>
      simp only [Phase.nextOk] at hn
      split at hn <;> cases hn
      rename_i h
      obtain ⟨rfl, rfl⟩ := h
      obtain ⟨hidle, rfl, hknown⟩ := hg
      exact ⟨.mirror session snapshot hlock rfl, hidle⟩
    | _ => cases hn
  | testSessionUpdateStatus id status =>
    simp only [exec] at hx
    split at hx <;> cases hx
    rename_i hlock
    cases g with
    | expiryMark sessionId session =>
      simp only [Phase.nextOk] at hn
      split at hn <;> cases hn
      rename_i h
      obtain ⟨rfl, rfl⟩ := h
      obtain ⟨hidle, rfl, hknown⟩ := hg
      exact ⟨.mark session hlock rfl, hidle⟩
    | _ => cases hn
  | redisSet key value ttlSeconds =>
    simp only [exec] at hx
    split at hx <;> cases hx
    refine ⟨.kept rfl rfl, ?_⟩
    cases g with
    | created => simp only [Phase.nextOk] at hn; split at hn <;> cases hn; exact hg.1
    | expiryGrace => simp only [Phase.nextOk] at hn; split at hn <;> cases hn; exact hg
    | _ => cases hn
  | redisSetKeepTtlXx key value =>
    cases hx
    refine ⟨.kept rfl rfl, ?_⟩
    cases g with
    | saveSet =>
      simp only [Phase.nextOk] at hn
      split at hn <;> cases hn
      split
      · exact hg.congr rfl rfl
      · exact hg.1
    | _ => cases hn
  | redisGetdel key =>
    cases hx
    refine ⟨.kept rfl rfl, ?_⟩
    cases g with
    | lateGate =>
      simp only [Phase.nextOk] at hn
      split at hn
      · split at hn <;> cases hn
        · exact ⟨hg.1, hg.2.2⟩
        · exact hg.1
      · cases hn
    | _ => cases hn
  | redisDel key =>
    cases hx
    refine ⟨.kept rfl rfl, ?_⟩
    cases g with
    | closed => simp only [Phase.nextOk] at hn; split at hn <;> cases hn; exact hg.1
    | _ => cases hn
  | _ =>
    obtain rfl : w' = w := exec_reads rfl hx
    exact ⟨.kept rfl rfl, reads_holds hw rfl hg hx hn⟩

theorem exec_error [Bcrypt] {call : Call} {x : Choice} {e : Err}
    (h : exec i call x w = some (w', .error e)) : w' = w := by
  cases call with
  | startTransaction => simp only [exec] at h; split at h <;> cases h; rfl
  | redisSet key value ttlSeconds => simp only [exec] at h; split at h <;> cases h; rfl
  | accessCodeSave => simp only [exec] at h; split at h <;> cases h
  | testSessionUpdateSnapshot => simp only [exec] at h; split at h <;> cases h
  | testSessionUpdateStatus => simp only [exec] at h; split at h <;> cases h
  | txSaveExamAttempt session attempt =>
    rcases inTxn_some h with ⟨e, he⟩ | ⟨t, ht, h⟩
    · cases he; rfl
    · split at h <;> cases h; rfl
  | txSaveTestSession userId? row =>
    rcases inTxn_some h with ⟨e, he⟩ | ⟨t, ht, h⟩
    · cases he; rfl
    · cases userId? with
      | none => cases h; rfl
      | some userId =>
        simp only at h
        split at h <;> cases h
  | txDeleteTestSession id =>
    rcases inTxn_some h with ⟨e, he⟩ | ⟨t, ht, h⟩
    · cases he; rfl
    · split at h <;> cases h
  | txUpdateAccessCode id unused usedAt =>
    rcases inTxn_some h with ⟨e, he⟩ | ⟨t, ht, h⟩
    · cases he; rfl
    · grind
  | txUpdateTestSession id allowed status submittedAt snapshot =>
    rcases inTxn_some h with ⟨e, he⟩ | ⟨t, ht, h⟩
    · cases he; rfl
    · grind
  | setCurrentUser userId =>
    rcases inTxn_some h with ⟨e, he⟩ | ⟨t, ht, h⟩
    · cases he; rfl
    · cases h
  | commitTransaction =>
    rcases inTxn_some h with ⟨e, he⟩ | ⟨t, ht, h⟩
    · cases he; rfl
    · cases h
  | rollbackTransaction => cases h
  | redisSetKeepTtlXx => cases h
  | redisGetdel => cases h
  | redisDel => cases h
  | _ => exact exec_reads rfl h

/-- A call that rejects leaves the world as it is, but the transaction that it was to end is over. -/
theorem error_world [Bcrypt] {call : Call} {e : Err}
    (h : Answered examSystem i call w (.error e) w') :
    (w' = w ∧ call ≠ .rollbackTransaction) ∨ w' = w.closeTxn i := by
  cases h with
  | exec hx =>
    refine .inl ⟨exec_error hx, ?_⟩
    rintro rfl
    cases hx
  | reject hx =>
    have hx : reject i call w = some (w', e) := hx
    unfold reject at hx
    split at hx
    · cases call <;> cases hx <;> first | exact .inr rfl | exact .inl ⟨rfl, by simp⟩
    · cases hx

theorem Phase.Holds.idle (hg : g.Holds i w) (h : g.holdsTxn = false) (hd : g ≠ .dropping) :
    w.idle i := by
  cases g <;> first | exact absurd rfl hd | exact hg | exact hg.1 | cases h

theorem own_error [Bcrypt] (hg : g.Holds i w) {call : Call} {e : Err}
    (h : Answered examSystem i call w (.error e) w') :
    DbStep i w w' g call (.error e) ∧ (g.failed call).Holds i w' := by
  have htables : w'.tables = w.tables := by
    rcases error_world h with ⟨rfl, -⟩ | rfl <;> rfl
  have hidle : w.idle i → w'.idle i := by
    intro hi
    rcases error_world h with ⟨rfl, -⟩ | rfl
    · exact hi
    · exact Table.get_erase_self _ _
  refine ⟨.same htables fun _ => ⟨e, rfl⟩, ?_⟩
  unfold Phase.failed
  split
  · rcases error_world h with ⟨-, hne⟩ | rfl
    · exact absurd rfl hne
    · exact Table.get_erase_self _ _
  · exact trivial
  · exact ⟨hidle hg.1, htables ▸ hg.2⟩
  · have hd : g ≠ .dropping := by rintro rfl; simp_all
    split
    · exact trivial
    · rename_i hn
      rw [not_or] at hn
      exact hidle (hg.idle (by simpa using hn.1) hd)

end LmsBackend.Exams
