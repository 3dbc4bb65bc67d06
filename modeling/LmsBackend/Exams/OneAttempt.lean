import LmsBackend.Exams.Base

/-!
# At most one attempt for a session

`handleSessionExpiry` reads the status and writes EXPIRED in two steps. A submit
that commits between them is overwritten, and the session can be submitted again.
This is the only way to a second attempt.
-/

open Async Store

namespace LmsBackend.Exams

/-- The attempts that were made from the session. -/
def attemptsOf (sessionId : Id) (attempts : List AttemptRow) : List AttemptRow :=
  attempts.filter (·.session.id = sessionId)

@[simp] theorem attemptsOf_append (sessionId : Id) (l : List AttemptRow) (a : AttemptRow) :
    attemptsOf sessionId (l ++ [a]) =
      attemptsOf sessionId l ++ if a.session.id = sessionId then [a] else [] := by
  rw [attemptsOf, List.filter_append]
  congr 1
  by_cases h : a.session.id = sessionId <;> simp [h]

/-- No handler writes EXPIRED over a session that is done. -/
def KeepsDone (c : Pool) : PoolLabel → Prop
  | .run i _ =>
    match c.next? i with
    | some (.testSessionUpdateStatus sessionId .expired) =>
      (c.world.sessions.get sessionId).all (·.isOpen)
    | _ => True
  | _ => True

instance : ∀ c l, Decidable (KeepsDone c l) := fun c l => by
  match l with
  | .run i _ =>
    dsimp only [KeepsDone]
    match c.next? i with
    | none => exact .isTrue trivial
    | some call => casesm* Call, TestSessionStatus <;> infer_instance
  | .spawn _ | .fail _ | .env _ => exact .isTrue trivial

/-- A session with an attempt is done, and has no other. -/
structure AttemptedOnce (t : Tables) : Prop where
  done : ∀ a ∈ t.attempts, a.session.id ∈ t.issued ∧
    ∀ row, t.sessions.get a.session.id = some row → row.isOpen = false
  once : ∀ id, (attemptsOf id t.attempts).length ≤ 1

theorem moved_done (row : TestSession) (s : AttemptStatus) (submittedAt : Time)
    (answers : Answers) : (row.moved s.session submittedAt answers).isOpen = false := by
  cases s <;> rfl

variable {i : Nat} {w w' : World} {g : Phase} {call : Call} {r : Except Err (Resp call)}

/-- A session that is done stays so while no handler writes over it. -/
theorem DbStep.done (h : DbStep i w w' g call r)
    (hmark : ∀ id, call = .testSessionUpdateStatus id .expired →
      ∀ row, w.sessions.get id = some row → row.isOpen)
    {id : Id} (hid : id ∈ w.issued) (hdone : ∀ row, w.sessions.get id = some row → row.isOpen = false) :
    ∀ row, w'.sessions.get id = some row → row.isOpen = false := by
  intro row' hrow'
  obtain ⟨rfl, hrow⟩ := h.row hrow'
  cases hrow with
  | same h => exact hdone row' h
  | start hfresh => exact absurd hid hfresh
  | submit d attempt row _ _ _ _ he => rw [he]; exact moved_done _ _ _ _
  | mark session row hrow =>
    have hopen := hmark _ rfl row hrow
    rw [hdone row hrow] at hopen
    cases hopen
  | mirror session row answers hrow he => rw [he]; exact hdone row hrow

theorem AttemptedOnce.step (ht : w.tables.Ok) (hI : AttemptedOnce w.tables)
    (hmark : ∀ id, call = .testSessionUpdateStatus id .expired →
      ∀ row, w.sessions.get id = some row → row.isOpen)
    (h : DbStep i w w' g call r) : AttemptedOnce w'.tables := by
  have hold : ∀ a ∈ w.attempts, a.session.id ∈ w'.issued ∧
      ∀ row, w'.sessions.get a.session.id = some row → row.isOpen = false := fun a ha =>
    ⟨h.issued_mono (hI.done a ha).1, h.done hmark (hI.done a ha).1 (hI.done a ha).2⟩
  rcases h.attempts_cases with hsame | ⟨d, attempt, row, -, -, hrow, hopen, -, -, happ, hrow'⟩
  · refine ⟨fun a ha => hold a (hsame ▸ ha), fun id => ?_⟩
    rw [show w'.tables.attempts = w.attempts from hsame]
    exact hI.once id
  · refine ⟨fun a ha => ?_, fun id => ?_⟩
    · change a ∈ w'.attempts at ha
      rw [happ] at ha
      rcases List.mem_append.mp ha with ha | ha
      · exact hold a ha
      · cases List.mem_singleton.mp ha
        refine ⟨h.issued_mono (ht.issued _ _ hrow), fun row'' hrow'' => ?_⟩
        cases hrow'.symm.trans hrow''
        exact moved_done _ _ _ _
    · rw [show w'.tables.attempts = _ from happ, attemptsOf_append]
      by_cases he : d.session.id = id
      · -- The row was open, so the session had no attempt.
        have hnone : attemptsOf id w.attempts = [] := by
          rw [attemptsOf, List.filter_eq_nil_iff]
          intro a ha hid
          have hid : a.session.id = id := by simpa using hid
          have := (hI.done a ha).2 row (by rw [hid, ← he]; exact hrow)
          rw [this] at hopen
          cases hopen
        rw [hnone, if_pos he]
        exact le_rfl
      · rw [if_neg he, List.append_nil]
        exact hI.once id

theorem Reachable.attemptedOnce [Bcrypt] {c : Pool} (h : Reachable KeepsDone c) :
    AttemptedOnce c.world.tables := by
  refine Reachable.induct (I := fun c => AttemptedOnce c.world.tables) ?_ ?_ ?_ h
  · intro w hw
    have hnone : (Config.initial w : Pool).world.tables.attempts = [] := hw.attempts
    refine ⟨fun a ha => ?_, fun id => ?_⟩
    · rw [hnone] at ha; cases ha
    · rw [hnone]; exact Nat.zero_le 1
  · intro c ts w hI hw
    rw [Config.start_world, hw]
    exact hI
  · intro c c' i call r g g' hb hI hP hm hdb
    cases r with
    | error e => rw [hdb.error]; exact hI
    | ok a =>
      obtain ⟨x, hkeeps⟩ := hP.guard
      refine hI.step hb.tables ?_ hdb
      rintro id rfl row hrow
      simpa [KeepsDone, hm.waits, hrow] using hkeeps

/-- While no handler overwrites a session that is done, no session has two attempts. -/
theorem attempts_le_one [Bcrypt] {c : Pool} (h : Reachable KeepsDone c) (sessionId : Id) :
    (attemptsOf sessionId c.world.attempts).length ≤ 1 :=
  (Reachable.attemptedOnce h).once sessionId

/-! ## The race -/

/-- One exam of one minute, and a code for it. -/
def school : World where
  now := 0
  exams := [⟨"e", "c", "Exam", 1, .published, none, 1, []⟩]
  codes := Table.empty.put ⟨"K", "u", "e", "c", "key", 1000, none, 0⟩
  sessions := .empty
  attempts := []
  txns := .empty
  issued := []
  redis := Table.empty
  undelivered := []
  delivered := []

theorem school_initial : Initial school := by
  constructor <;> decide

abbrev runSchool (P : Pool → PoolLabel → Prop) [∀ c l, Decidable (P c l)] (ls : List PoolLabel) :
    Option Pool :=
  runIf (@examSystem plainBcrypt) P ls (.initial school)

/-- The next `n` calls of process `i`, with "S" for every new id. -/
def calls (i n : Nat) : List PoolLabel := List.replicate n (.run i "S")

/-- Process 0 starts session "S". -/
def starts : List PoolLabel := .spawn (.startExam "u" "key" "e") :: calls 0 13

/-- The time of session "S" is up, and its event starts a handler. -/
def expires : List PoolLabel := [.env (.tick 60000), .env (.deliver "exam:session:S")]

/-- The handler (process 2) has read ACTIVE when the submit (process 1) commits. It then writes
EXPIRED and opens the grace window for a late submit (process 3). -/
def submitsTwice : List PoolLabel :=
  starts ++ .spawn (.submitExam "S" "u" []) :: calls 1 1 ++ expires ++ calls 2 1 ++ calls 1 8 ++
    calls 2 2 ++ .spawn (.lateSubmitExam "S" "u" []) :: calls 3 10

theorem runSchool_reachable {P : Pool → PoolLabel → Prop} [∀ c l, Decidable (P c l)]
    {ls : List PoolLabel} {c : Pool} (h : runSchool P ls = some c) : @Reachable plainBcrypt P c :=
  runIf_reach (.init school_initial) h

/-- A run of the school that ends in a state with `p`. -/
theorem exists_reachable {P : Pool → PoolLabel → Prop} [∀ c l, Decidable (P c l)]
    (ls : List PoolLabel) {p : Pool → Prop} [DecidablePred p]
    (h : (runSchool P ls).any (fun c => p c) = true) : ∃ c, @Reachable plainBcrypt P c ∧ p c := by
  obtain ⟨c, hc, hp⟩ := (Option.any_eq_true _ _).mp h
  exact ⟨c, runSchool_reachable hc, by simpa using hp⟩

set_option maxRecDepth 100000 in
/-- A submit in time, after which the event of the session finds it done. -/
theorem attempts_le_one_submit :
    ∃ c, @Reachable plainBcrypt KeepsDone c ∧ attemptsOf "S" c.world.attempts ≠ [] ∧
      (attemptsOf "S" c.world.attempts).length ≤ 1 := by
  obtain ⟨c, hc, hp⟩ := exists_reachable (P := KeepsDone)
    (starts ++ .spawn (.submitExam "S" "u" []) :: calls 1 9 ++ expires ++ calls 2 1)
    (p := fun c => attemptsOf "S" c.world.attempts ≠ []) (by decide)
  exact ⟨c, hc, hp, @attempts_le_one plainBcrypt c hc "S"⟩

set_option maxRecDepth 100000 in
theorem attempts_twice :
    ¬∀ c, @Reachable plainBcrypt anyStep c → ∀ id, (attemptsOf id c.world.attempts).length ≤ 1 := by
  intro hall
  obtain ⟨c, hc, hp⟩ := exists_reachable (P := anyStep) submitsTwice
    (p := fun c => (attemptsOf "S" c.world.attempts).length = 2) (by decide)
  have := hall c hc "S"
  omega

end LmsBackend.Exams
