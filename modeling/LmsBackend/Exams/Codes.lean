import LmsBackend.Exams.OneAttempt

/-!
# Used codes and sessions

A code is used exactly while one session has it for its token. Only the two
transactions of `startExam` write either side, and each writes both.
-/

open Async Store

namespace LmsBackend.Exams

/-- The code that the session was started with. -/
def Tables.token (t : Tables) (sessionId : Id) : Option Id :=
  (t.sessions.get sessionId).map (·.sessionToken)

/-- The attempt carries the triple of the code of its session. -/
def AttemptRow.OfCode (a : AttemptRow) (code : ExamAccessCode) : Prop :=
  a.attempt.userId = code.userId ∧ a.attempt.examId = code.examId ∧ a.attempt.certId = code.certId

structure OneToOne (t : Tables) : Prop where
  used : ∀ id code, t.codes.get id = some code →
    (code.usedAt ≠ none ↔ ∃ sessionId, t.token sessionId = some id)
  unique : ∀ a b id, t.token a = some id → t.token b = some id → a = b
  attempts : ∀ a ∈ t.attempts, ∃ code, t.codes.get a.session.sessionToken = some code ∧
    a.OfCode code

variable {i : Nat} {w w' : World} {g : Phase} {call : Call} {r : Except Err (Resp call)}

theorem Tables.token_put (t : Tables) (row : TestSession) (codes : Table ExamAccessCode)
    (attempts : List AttemptRow) (issued : List Id) (id : Id) :
    Tables.token ⟨codes, t.sessions.put row, attempts, issued⟩ id =
      if row.id = id then some row.sessionToken else t.token id := by
  change ((t.sessions.put row).get id).map _ = _
  rw [Table.get_put]
  change Option.map _ (if row.id = id then _ else _) = _
  split <;> rfl

theorem Tables.token_erase (t : Tables) (sid : Id) (codes : Table ExamAccessCode)
    (attempts : List AttemptRow) (issued : List Id) (id : Id) :
    Tables.token ⟨codes, t.sessions.erase sid, attempts, issued⟩ id =
      if sid = id then none else t.token id := by
  change ((t.sessions.erase sid).get id).map _ = _
  rw [Table.get_erase]
  split <;> rfl

theorem Tables.token_update (t : Tables) (sid : Id) (f : TestSession → TestSession)
    (hf : ∀ s, (f s).fixed = s.fixed) (id : Id) :
    Tables.token { t with sessions := t.sessions.update sid f } id = t.token id := by
  change ((t.sessions.update sid f).get id).map _ = _
  rw [Table.get_update _ _ _ fun s => (TestSession.fixed_eq_iff.mp (hf s)).1]
  split
  · rw [Option.map_map]
    exact congrArg (Option.map · (t.sessions.get id))
      (funext fun s => TestSession.sessionToken_of_fixed (hf s))
  · rfl

/-- A step that keeps codes, tokens and attempts keeps the invariant. -/
theorem OneToOne.congr {t t' : Tables} (h : OneToOne t) (hc : t'.codes = t.codes)
    (ht : ∀ id, t'.token id = t.token id) (ha : t'.attempts = t.attempts) : OneToOne t' := by
  refine ⟨?_, ?_, ?_⟩
  · simpa only [hc, ht] using h.used
  · simpa only [ht] using h.unique
  · simpa only [hc, ha] using h.attempts

theorem OneToOne.attempts_step (h : OneToOne w.tables) (hdb : DbStep i w w' g call r) :
    ∀ a ∈ w.attempts, ∃ code, w'.codes.get a.session.sessionToken = some code ∧ a.OfCode code := by
  intro a ha
  obtain ⟨code, hcode, hof⟩ := h.attempts a ha
  obtain ⟨code', hcode', usedAt, rfl⟩ := hdb.code_kept hcode
  exact ⟨_, hcode', hof⟩

theorem OneToOne.issue (ht : w.tables.Ok) (hI : OneToOne w.tables) {code : ExamAccessCode}
    (hnew : w.codes.get code.id = none) (hunused : code.usedAt = none)
    (h : w'.tables = { w.tables with codes := w.codes.put code })
    (hattempts : ∀ a ∈ w'.attempts,
      ∃ code, w'.codes.get a.session.sessionToken = some code ∧ a.OfCode code) :
    OneToOne w'.tables := by
  have htoken : ∀ id, w'.tables.token id = w.tables.token id := fun id => by rw [h]; rfl
  have hfree : ∀ sessionId, w.tables.token sessionId ≠ some code.id := by
    intro sessionId htoken
    obtain ⟨s, hs, htoken⟩ := Option.map_eq_some_iff.mp htoken
    obtain ⟨code', hcode', -⟩ := ht.code _ _ hs
    rw [htoken] at hcode'
    cases hnew.symm.trans hcode'
  refine ⟨fun id code' hcode' => ?_, by simpa only [htoken] using hI.unique, hattempts⟩
  simp only [htoken]
  rw [h, show (Tables.codes _) = w.codes.put code from rfl, Table.get_put] at hcode'
  split at hcode'
  · rename_i he
    cases hcode'
    have he : code.id = id := he
    subst he
    simpa only [hunused, ne_eq, not_true_eq_false, false_iff, not_exists] using hfree
  · exact hI.used id code' hcode'

theorem OneToOne.start (hI : OneToOne w.tables) {code : ExamAccessCode} {session : TestSession}
    {usedAt : Time} (hcode : w.codes.get code.id = some code) (hunused : code.usedAt = none)
    (htoken : session.sessionToken = code.id)
    (h : w'.tables = { w.tables with
      codes := w.codes.put { code with usedAt := some usedAt },
      sessions := w.sessions.put session,
      issued := session.id :: w.issued })
    (hnone : w.tables.token session.id = none)
    (hattempts : ∀ a ∈ w'.attempts,
      ∃ code, w'.codes.get a.session.sessionToken = some code ∧ a.OfCode code) :
    OneToOne w'.tables := by
  have htok : ∀ id, w'.tables.token id =
      if session.id = id then some code.id else w.tables.token id := fun id => by
    rw [h, ← htoken]
    exact Tables.token_put w.tables session _ _ _ id
  -- The code was unused, so no session has it.
  have hfree : ∀ sessionId, w.tables.token sessionId ≠ some code.id := fun sessionId hs =>
    (hI.used _ _ hcode).mpr ⟨sessionId, hs⟩ hunused
  refine ⟨fun id code' hcode' => ?_, fun a b id ha hb => ?_, hattempts⟩
  · rw [h, show (Tables.codes _) = w.codes.put { code with usedAt := some usedAt } from rfl,
      Table.get_put] at hcode'
    split at hcode'
    · rename_i he
      cases hcode'
      have he : code.id = id := he
      subst he
      simp only [ne_eq, reduceCtorEq, not_false_eq_true, true_iff]
      exact ⟨session.id, by rw [htok, if_pos rfl]⟩
    · rename_i he
      have he : code.id ≠ id := he
      rw [hI.used id code' hcode']
      constructor
      · rintro ⟨sessionId, hs⟩
        refine ⟨sessionId, ?_⟩
        rw [htok, if_neg, hs]
        rintro rfl
        rw [hnone] at hs
        cases hs
      · rintro ⟨sessionId, hs⟩
        rw [htok] at hs
        split at hs
        · exact absurd (Option.some.inj hs) he
        · exact ⟨sessionId, hs⟩
  · rw [htok] at ha hb
    split at ha <;> split at hb
    · rename_i h1 h2; rw [← h1, ← h2]
    · cases ha; exact absurd hb (hfree b)
    · cases hb; exact absurd ha (hfree a)
    · exact hI.unique a b id ha hb

theorem OneToOne.undo (hI : OneToOne w.tables) {code : ExamAccessCode} {session : TestSession}
    (hs : w.tables.token session.id = some code.id)
    (h : w'.tables = { w.tables with
      codes := w.codes.put { code with usedAt := none },
      sessions := w.sessions.erase session.id })
    (hattempts : ∀ a ∈ w'.attempts,
      ∃ code, w'.codes.get a.session.sessionToken = some code ∧ a.OfCode code) :
    OneToOne w'.tables := by
  have htok : ∀ id, w'.tables.token id = if session.id = id then none else w.tables.token id :=
    fun id => by
      rw [h]
      exact Tables.token_erase w.tables _ _ _ _ id
  refine ⟨fun id code' hcode' => ?_, fun a b id ha hb => ?_, hattempts⟩
  · rw [h, show (Tables.codes _) = w.codes.put { code with usedAt := none } from rfl,
      Table.get_put] at hcode'
    split at hcode'
    · rename_i he
      cases hcode'
      have he : code.id = id := he
      subst he
      simp only [ne_eq, not_true_eq_false, false_iff, not_exists]
      intro sessionId hs'
      rw [htok] at hs'
      split at hs'
      · cases hs'
      · exact absurd (hI.unique _ _ _ hs hs') ‹_›
    · rename_i he
      have he : code.id ≠ id := he
      rw [hI.used id code' hcode']
      constructor
      · rintro ⟨sessionId, hs'⟩
        refine ⟨sessionId, ?_⟩
        rw [htok, if_neg, hs']
        rintro rfl
        exact he (Option.some.inj (hs.symm.trans hs'))
      · rintro ⟨sessionId, hs'⟩
        rw [htok] at hs'
        split at hs'
        · cases hs'
        · exact ⟨sessionId, hs'⟩
  · rw [htok] at ha hb
    split at ha <;> split at hb
    · cases ha
    · cases ha
    · cases hb
    · exact hI.unique a b id ha hb

/-- The row of a new attempt carries the triple of its session, and so that of its code. -/
theorem ofCode_of_makes {d : Submission} {attempt : ExamAttempt} {submittedAt : Time}
    {code : ExamAccessCode} (hmakes : d.makes submittedAt attempt)
    (hm : Matches d.session code) : AttemptRow.OfCode ⟨d.session, i, attempt⟩ code := by
  refine ⟨hmakes.1.trans hm.1.symm, hmakes.2.1.trans hm.2.1.symm, hmakes.2.2.1.trans ?_⟩
  rw [ExamService.resolveCertId, hm.2.2]
  rfl

theorem OneToOne.step (ht : w.tables.Ok) (hI : OneToOne w.tables)
    (hdb : DbStep i w w' g call r) : OneToOne w'.tables := by
  have hattempts := hI.attempts_step hdb
  cases hdb with
  | same h => exact h ▸ hI
  | issue code hnew hunused h =>
    refine hI.issue ht hnew hunused h ?_
    rwa [show w'.attempts = w.attempts from congrArg Tables.attempts h]
  | start code session usedAt hcode hunused hfresh htoken _ _ _ _ _ h =>
    refine hI.start hcode hunused htoken h ?_ ?_
    · refine Option.map_eq_none_iff.mpr (Option.eq_none_iff_forall_ne_some.mpr ?_)
      intro row hrow
      exact hfresh (ht.issued _ _ hrow)
    · rwa [show w'.attempts = w.attempts from congrArg Tables.attempts h]
  | undo code session row hrow hfixed hcode htoken _ _ h =>
    refine hI.undo ?_ h ?_
    · refine Option.map_eq_some_iff.mpr ⟨row, hrow, ?_⟩
      rw [TestSession.sessionToken_of_fixed hfixed, htoken]
    · rwa [show w'.attempts = w.attempts from congrArg Tables.attempts h]
  | submit d attempt row hrow hopen hfixed hmakes _ h =>
    have hid : row.id = d.session.id := Table.key_of_get hrow
    have htok : ∀ id, w'.tables.token id = w.tables.token id := fun id => by
      rw [h]
      refine (Tables.token_put w.tables _ _ _ _ id).trans ?_
      split
      · rename_i he
        have he : row.id = id := he
        rw [← he, hid]
        exact (congrArg (Option.map TestSession.sessionToken) hrow).symm
      · rfl
    have hcodes : w'.codes = w.codes := congrArg Tables.codes h
    refine ⟨?_, by simpa only [htok] using hI.unique, ?_⟩
    · simp only [htok]
      rw [show w'.tables.codes = w.codes from hcodes]
      exact hI.used
    · rw [show w'.tables.attempts = w.attempts ++ [⟨d.session, i, attempt⟩] from
        congrArg Tables.attempts h]
      intro a ha
      rcases List.mem_append.mp ha with ha | ha
      · exact hattempts a ha
      · cases List.mem_singleton.mp ha
        obtain ⟨code, hcode, hm⟩ := ht.code _ _ hrow
        rw [TestSession.sessionToken_of_fixed hfixed] at hcode
        exact ⟨code, (congrArg (Table.get · _) hcodes).trans hcode,
          ofCode_of_makes hmakes (hm.congr hfixed)⟩
  | mark session _ h =>
    refine hI.congr (by rw [h]) (fun id => ?_) (by rw [h])
    rw [h]
    exact Tables.token_update w.tables _ (fun s => { s with status := .expired }) (fun _ => rfl) _
  | mirror session answers _ h =>
    refine hI.congr (by rw [h]) (fun id => ?_) (by rw [h])
    rw [h]
    exact Tables.token_update w.tables _ (fun s => { s with snapshot := some answers })
      (fun _ => rfl) _

theorem Reachable.oneToOne [Bcrypt] {P : Guard World Call Resp Err Reply Task Choice EnvEvent}
    {c : Pool} (h : Reachable P c) : OneToOne c.world.tables := by
  refine Reachable.induct (I := fun c => OneToOne c.world.tables) ?_ ?_ ?_ h
  · intro w hw
    have hnone : ∀ id, w.tables.token id = none := fun id => by
      simp [Tables.token, World.tables, Table.get, hw.sessions]
    refine ⟨fun id code hcode => ?_, fun a b id ha => ?_, fun a ha => ?_⟩
    · simp [Config.initial, hnone, hw.codes code (Table.get_some_iff.mp hcode).1]
    · simp [Config.initial, hnone] at ha
    · simp [Config.initial, World.tables, hw.attempts] at ha
  · intro c ts w hI hw
    rw [Config.start_world, hw]
    exact hI
  · intro c c' i call r g g' hb hI _ _ hdb
    exact hI.step hb.tables hdb

/-- In every state that the backend reaches, whatever fails: a code is used if and only if exactly
one session has it for its token, no two sessions have one code, and every session and every
attempt carries the triple of its code. -/
theorem codes_one_to_one [Bcrypt] {c : Pool} (h : Reachable anyStep c) :
    (∀ code ∈ c.world.codes.rows, code.usedAt ≠ none ↔
      ∃! session, session ∈ c.world.sessions.rows ∧ session.sessionToken = code.id) ∧
    (∀ s ∈ c.world.sessions.rows, ∀ t ∈ c.world.sessions.rows,
      s.sessionToken = t.sessionToken → s = t) ∧
    (∀ session ∈ c.world.sessions.rows, ∃ code ∈ c.world.codes.rows,
      code.id = session.sessionToken ∧ session.userId = code.userId ∧
        session.examId = code.examId ∧ session.certId = some code.certId) ∧
    ∀ a ∈ c.world.attempts, ∃ code ∈ c.world.codes.rows, code.id = a.session.sessionToken ∧
      a.attempt.userId = code.userId ∧ a.attempt.examId = code.examId ∧
        a.attempt.certId = code.certId := by
  have hI := Reachable.oneToOne h
  have hb := Reachable.base h
  have htoken : ∀ s ∈ c.world.sessions.rows, c.world.tables.token s.id = some s.sessionToken :=
    fun s hs => Option.map_eq_some_iff.mpr ⟨s, Table.mem_rows_iff.mp hs, rfl⟩
  have hunique : ∀ s ∈ c.world.sessions.rows, ∀ t ∈ c.world.sessions.rows,
      s.sessionToken = t.sessionToken → s = t := by
    intro s hs t ht he
    have hid : s.id = t.id := hI.unique _ _ _ (htoken s hs) (he ▸ htoken t ht)
    have hs := Table.mem_rows_iff.mp hs
    rw [show Keyed.key s = Keyed.key t from hid] at hs
    exact Option.some.inj (hs.symm.trans (Table.mem_rows_iff.mp ht))
  refine ⟨fun code hcode => ?_, hunique, fun s hs => ?_, fun a ha => ?_⟩
  · rw [hI.used code.id code (Table.mem_rows_iff.mp hcode)]
    constructor
    · rintro ⟨sessionId, hs⟩
      obtain ⟨s, hs, he⟩ := Option.map_eq_some_iff.mp hs
      have hmem := (Table.get_some_iff.mp hs).1
      exact ⟨s, ⟨hmem, he⟩, fun t ⟨ht, he'⟩ => hunique t ht s hmem (he'.trans he.symm)⟩
    · rintro ⟨s, ⟨hs, he⟩, -⟩
      exact ⟨s.id, he ▸ htoken s hs⟩
  · obtain ⟨code, hcode, hm⟩ := hb.tables.code _ _ (Table.mem_rows_iff.mp hs)
    obtain ⟨hmem, hid⟩ := Table.get_some_iff.mp hcode
    exact ⟨code, hmem, hid, hm.1.symm, hm.2.1.symm, hm.2.2⟩
  · obtain ⟨code, hcode, hof⟩ := hI.attempts a ha
    obtain ⟨hmem, hid⟩ := Table.get_some_iff.mp hcode
    exact ⟨code, hmem, hid, hof⟩

set_option maxRecDepth 100000 in
/-- A start whose Redis call fails, and a second start with the code that it freed. -/
theorem codes_one_to_one_retry :
    ∃ c, @Reachable plainBcrypt anyStep c ∧ c.world.issued = ["T", "S"] ∧
      ∀ code ∈ c.world.codes.rows, code.usedAt ≠ none ↔
        ∃! session, session ∈ c.world.sessions.rows ∧ session.sessionToken = code.id := by
  obtain ⟨c, hc, hp⟩ := exists_reachable (P := anyStep)
    (.spawn (.startExam "u" "key" "e") :: calls 0 11 ++ .fail 0 :: calls 0 4 ++
      .spawn (.startExam "u" "key" "e") :: List.replicate 13 (.run 1 "T"))
    (p := fun c => c.world.issued = ["T", "S"]) (by decide)
  exact ⟨c, hc, hp, (@codes_one_to_one plainBcrypt c hc).1⟩

end LmsBackend.Exams
