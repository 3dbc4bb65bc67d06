import LmsBackend.Exams.System

/-!
# Transactions and locks

What every call leaves alone, whatever program makes it.
-/

open Async Store

namespace LmsBackend.Exams

/-! ## Locks -/

namespace World

/-- The open transaction of process `i` has the lock. -/
def holds (w : World) (i : Nat) (l : Lock) : Prop := ∃ t, w.txns.get i = some t ∧ t.holds l

theorem locked_iff {w : World} {i : Nat} {l : Lock} :
    w.locked i l = true ↔ ∃ j, j ≠ i ∧ w.holds j l := by
  simp only [locked, List.any_eq_true, Bool.and_eq_true, decide_eq_true_eq]
  constructor
  · rintro ⟨t, ht, hi, hl⟩
    exact ⟨t.proc, hi, t, Table.mem_rows_iff.mp ht, hl⟩
  · rintro ⟨j, hj, t, ht, hl⟩
    obtain ⟨hmem, rfl⟩ := Table.get_some_iff.mp ht
    exact ⟨t, hmem, hj, hl⟩

theorem free_of_not_locked {w : World} {i j : Nat} {l : Lock} (h : ¬w.locked i l = true)
    (hj : j ≠ i) : ¬w.holds j l :=
  fun hl => h (locked_iff.mpr ⟨j, hj, hl⟩)

theorem freshSession_iff {w : World} {id : Id} :
    w.freshSession id = true ↔ id ∉ w.issued ∧ ∀ j, ¬w.holds j (.newSession id) := by
  simp only [freshSession, Bool.not_eq_true', List.any_eq_false, decide_eq_true_eq]
  refine and_congr_right fun _ => ⟨?_, ?_⟩
  · rintro h j ⟨t, ht, hl⟩
    exact h t (Table.get_some_iff.mp ht).1 hl
  · intro h t ht hl
    exact h t.proc ⟨t, Table.mem_rows_iff.mp ht, hl⟩

/-- No two processes have one lock. -/
def Exclusive (w : World) : Prop := ∀ i j l, w.holds i l → w.holds j l → i = j

end World

/-! ## Calls -/

variable {i : Nat} {w w' : World}

theorem inTxn_some {ρ : Type} {f : OpenTxn → Option (World × Except Err ρ)}
    {out : World × Except Err ρ} (h : inTxn i w f = some out) :
    (∃ e, out = (w, .error e)) ∨ ∃ t, w.txns.get i = some t ∧ f t = some out := by
  unfold inTxn at h
  split at h
  · exact .inr ⟨_, ‹_›, h⟩
  · exact .inl ⟨_, (Option.some.inj h).symm⟩

/-- The step leaves the transactions of the others alone, and takes a lock only when it is free. -/
structure TxnStep (i : Nat) (w w' : World) : Prop where
  other : ∀ j, j ≠ i → w'.txns.get j = w.txns.get j
  own : ∀ l, w'.holds i l → w.holds i l ∨ ∀ j, j ≠ i → ¬w.holds j l

theorem TxnStep.refl (h : w'.txns = w.txns) : TxnStep i w w' :=
  ⟨fun j _ => by rw [h], fun l hl => .inl (by rwa [World.holds, h] at hl)⟩

theorem World.proc_of_get {t : OpenTxn} (h : w.txns.get i = some t) : t.proc = i :=
  Table.key_of_get h

theorem TxnStep.put {t : OpenTxn} (h : w'.txns = w.txns.put t) (ht : t.proc = i)
    (hl : ∀ l, t.holds l → w.holds i l ∨ ∀ j, j ≠ i → ¬w.holds j l) : TxnStep i w w' := by
  subst ht
  refine ⟨fun j hj => by rw [h]; exact Table.get_put_of_ne _ (Ne.symm hj), ?_⟩
  rintro l ⟨u, hu, hul⟩
  rw [h] at hu
  cases (Table.get_put_self w.txns t).symm.trans hu
  exact hl l hul

theorem TxnStep.close (h : w'.txns = w.txns.erase i) : TxnStep i w w' := by
  refine ⟨fun j hj => by rw [h]; exact Table.get_erase_of_ne _ (Ne.symm hj), ?_⟩
  rintro l ⟨u, hu, -⟩
  rw [h, Table.get_erase_self] at hu
  cases hu

theorem TxnStep.addWrite {t : OpenTxn} (ht : w.txns.get i = some t) {wr : Write}
    (hl : ∀ l, wr.lock = some l → ∀ j, j ≠ i → ¬w.holds j l) :
    TxnStep i w (w.addWrite t wr) := by
  have hi := World.proc_of_get ht
  refine .put rfl hi fun l h => ?_
  simp only [OpenTxn.holds, List.any_append, List.any_cons, List.any_nil, Bool.or_false,
    Bool.or_eq_true, decide_eq_true_eq] at h
  rcases h with h | h
  · exact .inl ⟨t, ht, h⟩
  · exact .inr (hl l h)

theorem World.commit_txns (t : OpenTxn) : (w.commit t).txns = w.txns.erase t.proc := by
  have : ∀ ws : List Write, (ws.foldl World.apply w).txns = w.txns := by
    intro ws
    induction ws generalizing w with
    | nil => rfl
    | cons wr ws ih =>
      rw [List.foldl_cons, ih]
      cases wr <;> rfl
  rw [World.commit, World.closeTxn, this]

theorem exec_reads [Bcrypt] {call : Call} (hc : call.reads = true) {x : Choice}
    {r : Except Err (Resp call)} (h : exec i call x w = some (w', r)) : w' = w := by
  cases call with
  | accessCodeFindOne userId examId =>
    simp only [exec] at h
    split at h
    · cases h; rfl
    · obtain ⟨_, _, he⟩ := Option.map_eq_some_iff.mp h
      cases he; rfl
  | testSessionFindActive userId examId =>
    simp only [exec] at h
    split at h
    · cases h; rfl
    · obtain ⟨_, _, he⟩ := Option.map_eq_some_iff.mp h
      cases he; rfl
  | selectAttemptedExams userId certId =>
    rcases inTxn_some h with ⟨e, he⟩ | ⟨t, ht, h⟩ <;> cases ‹_ = _› <;> rfl
  | _ => first | (cases h; rfl) | cases hc

theorem exec_txns [Bcrypt] {call : Call} {x : Choice} {r : Except Err (Resp call)}
    (h : exec i call x w = some (w', r)) : TxnStep i w w' := by
  cases call with
  | startTransaction =>
    simp only [exec] at h
    split at h <;> cases h
    · exact .refl rfl
    · exact .put rfl rfl fun l hl => by simp [OpenTxn.holds] at hl
  | commitTransaction =>
    rcases inTxn_some h with ⟨e, he⟩ | ⟨t, ht, h⟩
    · cases he; exact .refl rfl
    · cases h
      refine .close ?_
      rw [World.commit_txns, World.proc_of_get ht]
  | rollbackTransaction => cases h; exact .close rfl
  | setCurrentUser userId =>
    rcases inTxn_some h with ⟨e, he⟩ | ⟨t, ht, h⟩
    · cases he; exact .refl rfl
    · cases h
      have hi := World.proc_of_get ht
      exact .put rfl hi fun l hl => .inl ⟨t, ht, hl⟩
  | selectAttemptedExams userId certId =>
    rcases inTxn_some h with ⟨e, he⟩ | ⟨t, ht, h⟩
    · cases he; exact .refl rfl
    · cases h; exact .refl rfl
  | txUpdateAccessCode id unused usedAt =>
    rcases inTxn_some h with ⟨e, he⟩ | ⟨t, ht, h⟩
    · cases he; exact .refl rfl
    · split at h
      · cases h
      · rename_i hlock
        split at h
        · cases h; exact .refl rfl
        · rename_i row hrow
          split at h
          · cases h; exact .refl rfl
          · cases h
            refine .addWrite ht fun l hl j hj => ?_
            cases hl
            cases Table.key_of_get hrow
            exact World.free_of_not_locked hlock hj
  | txSaveTestSession userId? row =>
    rcases inTxn_some h with ⟨e, he⟩ | ⟨t, ht, h⟩
    · cases he; exact .refl rfl
    · cases userId? with
      | none => cases h; exact .refl rfl
      | some userId =>
        simp only at h
        split at h
        · rename_i hfresh
          cases h
          refine .addWrite ht fun l hl j hj => ?_
          cases hl
          exact (World.freshSession_iff.mp hfresh).2 j
        · cases h
  | txDeleteTestSession id =>
    rcases inTxn_some h with ⟨e, he⟩ | ⟨t, ht, h⟩
    · cases he; exact .refl rfl
    · split at h
      · cases h
      · rename_i hlock
        cases h
        refine .addWrite ht fun l hl j hj => ?_
        cases hl
        exact World.free_of_not_locked hlock hj
  | txUpdateTestSession id allowed status submittedAt snapshot =>
    rcases inTxn_some h with ⟨e, he⟩ | ⟨t, ht, h⟩
    · cases he; exact .refl rfl
    · split at h
      · cases h
      · rename_i hlock
        split at h
        · cases h; exact .refl rfl
        · rename_i row hrow
          split at h
          · cases h; exact .refl rfl
          · cases h
            refine .addWrite ht fun l hl j hj => ?_
            cases hl
            cases Table.key_of_get hrow
            exact World.free_of_not_locked hlock hj
  | txSaveExamAttempt session attempt =>
    rcases inTxn_some h with ⟨e, he⟩ | ⟨t, ht, h⟩
    · cases he; exact .refl rfl
    · split at h
      · cases h
        exact .addWrite ht fun l hl => by cases hl
      · cases h; exact .refl rfl
  | accessCodeSave userId examId certId tokenHash expiresAt =>
    simp only [exec] at h
    split at h <;> cases h
    exact .refl rfl
  | testSessionUpdateSnapshot id snapshot =>
    simp only [exec] at h
    split at h <;> cases h
    exact .refl rfl
  | testSessionUpdateStatus id status =>
    simp only [exec] at h
    split at h <;> cases h
    exact .refl rfl
  | redisSet key value ttlSeconds =>
    simp only [exec] at h
    split at h <;> cases h <;> exact .refl rfl
  | redisSetKeepTtlXx key value => cases h; exact .refl rfl
  | redisGetdel key => cases h; exact .refl rfl
  | redisDel key => cases h; exact .refl rfl
  | _ => exact .refl (by rw [exec_reads rfl h])

end LmsBackend.Exams
