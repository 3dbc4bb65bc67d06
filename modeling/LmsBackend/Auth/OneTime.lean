import LmsBackend.Async.Total
import LmsBackend.Auth.AuthTokens
import LmsBackend.Auth.Revocation

/-!
# A one-time token passes once

A call passes `consumeAuthToken` with the conditional UPDATE that flips `usedAt`
of a row. What is known of that row at this point, and how often a plain token
can come this far.
-/

open Async Store

namespace LmsBackend.Auth

/-- No one-time token has been issued yet. -/
def NoAuthTokens (w : World) : Prop := w.authTokens.rows = []

/-- The row that the call has marked used. -/
def Call.consumes : (c : Call) → Except Err (Resp c) → Option Nat
  | .authTokensUse id _, .ok (affected : Nat) => if affected = 0 then none else some id
  | _, _ => none

/-- What the clock has said. -/
def Call.looks : (c : Call) → Except Err (Resp c) → Option Time
  | .now, .ok time => some time
  | _, _ => none

/-- The plain text and the hash that match. -/
def Call.matched : (c : Call) → Except Err (Resp c) → Option (String × String)
  | .bcryptCompare plain hash, .ok true => some (plain, hash)
  | _, _ => none

/-- The student whose row or sessions the call changes. -/
def Call.account? : Call → Option Id
  | .usersUpdatePassword id _ | .usersUpdateVerified id _ => some id
  | .refreshTokensRevokeAll id .student _ => some id
  | _ => none

/-- Call `i` looked at the clock, the row was not expired, and next the token matched its hash. -/
def Examined (c : Pool) (i : Nat) (plain : String) (row : AuthToken) : Prop :=
  ∃ e₁ e₂, [e₁, e₂] <:+: c.log.filter (·.proc = i) ∧
    (∃ now, e₁.call.looks e₁.res = some now ∧ ¬row.expiresAt < now) ∧
    e₂.call.matched e₂.res = some (plain, row.tokenHash)

/-- What holds when event `e` marks row `id` used, for a call that has presented `plain`. -/
structure Passes (c : Pool) (e : Event World Call Resp Err) (plain : String)
    (purpose : AuthTokenPurpose) (row : AuthToken) : Prop where
  purpose : row.purpose = purpose
  /-- Neither used nor superseded. -/
  unused : row.usedAt = none
  issued : IssuedWith c plain row
  examined : Examined c e.proc plain row
  /-- The call goes on with the user whom the row was issued to. -/
  returned : ∀ e' ∈ c.log, e'.proc = e.proc → ∀ id ∈ e'.call.account?, id = row.userId

/-- A call of the task passes, with the token. -/
def Call.passesWith (plain : String) (t? : Option Task) (c : Call) (r : Except Err (Resp c)) : Bool :=
  (c.consumes r).isSome ∧ ∃ presented ∈ t?.bind Task.presents?, presented.1 = plain

/-- How often a call with the token has passed. -/
def passes (c : Pool) (plain : String) : Nat :=
  c.log.countP fun e => e.call.passesWith plain (c.task? e.proc) e.res

/-- How often the token has been made. -/
def issues (c : Pool) (plain : String) : Nat :=
  c.log.countP fun e => e.call.draws e.res = some plain

/-! ## After the UPDATE -/

/-- What is left to do for the student. -/
def Errand.OfUser (userId : Id) : Errand → Prop
  | idle => True
  | taken _ _ row => row.userId = userId
  | rewriting userId' _ _ => userId' = userId
  | due subjectId type => subjectId = userId ∧ type = .student
  | _ => False

/-- The call has not taken its token yet. -/
def Errand.seeks : Errand → Bool
  | presenting _ _ | scanning _ _ _ | examining _ _ _ _ | taking _ _ _ => true
  | _ => false

variable {userId : Id} {g g' : Errand} {call : Call}

/-- Where a call changes what belongs to a student. -/
theorem account_phase [JsString] (hallowed : ∀ a, ∃ g', g.nextOk call a = some g') {id : Id}
    (hid : call.account? = some id) :
    (∃ plain row, g = .taken plain .verify row ∧ row.userId = id) ∨
      (∃ newPassword made, g = .rewriting id newPassword made) ∨ g = .due id .student := by
  cases call with
  | usersUpdatePassword x passwordHash =>
    obtain ⟨g', hg'⟩ := hallowed ()
    cases hid
    cases Errand.goes_of_next hg' with
    | stop hc => cases hc
    | rewrite => exact .inr (.inl ⟨_, _, rfl⟩)
  | usersUpdateVerified x at' =>
    obtain ⟨g', hg'⟩ := hallowed ()
    cases hid
    cases Errand.goes_of_next hg' with
    | stop hc => cases hc
    | verify => exact .inl ⟨_, _, rfl, rfl⟩
  | refreshTokensRevokeAll x type revokedAt =>
    obtain ⟨g', hg'⟩ := hallowed ()
    cases type with
    | admin => cases hid
    | student =>
      cases hid
      cases Errand.goes_of_next hg' with
      | stop hc => cases hc
      | revokeAll => exact .inr (.inr rfl)
  | _ => cases hid

theorem Errand.OfUser.account [JsString] (h : g.OfUser userId)
    (hallowed : ∀ a, ∃ g', g.nextOk call a = some g') : ∀ id ∈ call.account?, id = userId := by
  intro id hid
  rcases account_phase hallowed hid with ⟨plain, row, rfl, rfl⟩ | ⟨_, _, rfl⟩ | rfl
  · exact h
  · exact h
  · exact h.1

theorem Errand.account_of_seeks [JsString] (h : g.seeks = true)
    (hallowed : ∀ a, ∃ g', g.nextOk call a = some g') : call.account? = none := by
  cases hid : call.account? with
  | none => rfl
  | some id => rcases account_phase hallowed hid with ⟨_, _, rfl, -⟩ | ⟨_, _, rfl⟩ | rfl <;> cases h

theorem Errand.OfUser.goes [JsString] {a : Resp call} (h : g.OfUser userId) (hn : g.Goes call a g') :
    g'.OfUser userId := by
  cases hn with
  | rewrite => exact ⟨h, rfl⟩
  | _ => first | exact h | trivial

/-- A call marks a row used when it takes its token. -/
theorem goes_of_consumes [JsString] {a : Resp call} {id : Nat} (hn : g.Goes call a g')
    (hid : call.consumes (.ok a) = some id) :
    ∃ plain use row usedAt, g = .taking plain use row ∧ g' = .taken plain use row ∧ row.id = id ∧
      call = .authTokensUse id usedAt := by
  cases hn with
  | @take plain use row usedAt affected hne =>
    simp only [Call.consumes, if_neg hne, Option.some.injEq] at hid
    exact ⟨plain, use, row, usedAt, rfl, rfl, hid, by rw [hid]⟩
  | lost => cases hid
  | stop hc => cases call <;> first | cases hid | cases hc
  | look => cases hid
  | _ => cases hid

theorem Errand.seeks_of_goes [JsString] {a : Resp call} (hn : g.Goes call a g') (h : g'.seeks = true) :
    g.seeks = true := by
  cases hn with
  | look => exact h
  | _ => first | rfl | cases h

/-! ## Before the UPDATE -/

/-- The call of event `e` has passed with row `id`, and goes on with its student. -/
def Passed [JsString] (c : Pool) (e : Event World Call Resp Err) (id : Nat) : Prop :=
  ∃ plain use row, (c.task? e.proc).bind Task.presents? = some (plain, use) ∧
    e.before.authTokens.get id = some row ∧ Passes c e plain use.purpose row ∧
    ∃ g, errand.phase c e.proc = some g ∧ g.OfUser row.userId

/-- Where the calls are that have not taken their token, and the one that has. -/
structure Sought [Bcrypt] [JsString] (c : Pool) : Prop where
  examining : ∀ i plain use row rows, errand.phase c i = some (.examining plain use row rows) →
    ∃ e now, c.last? i = some e ∧ e.call.looks e.res = some now ∧ ¬row.expiresAt < now
  taking : ∀ i plain use row, errand.phase c i = some (.taking plain use row) →
    Examined c i plain row ∧ Bcrypt.compare plain row.tokenHash = true
  quiet : ∀ i g, errand.phase c i = some g → g.seeks = true →
    ∀ e ∈ c.log, e.proc = i → e.call.account? = none
  passed : ∀ e ∈ c.log, ∀ id, e.call.consumes e.res = some id → Passed c e id

/-- A row that matches a token was issued with it. -/
theorem AllGenuine.issuedWith [Bcrypt] [JsString] {c : Pool} (hexact : ExactOnTokens)
    (h : AllGenuine c) {t : AuthToken} (ht : t ∈ c.world.authTokens.rows) {plain : String}
    (hmatch : Bcrypt.compare plain t.tokenHash = true) : IssuedWith c plain t.asIssued := by
  obtain ⟨plain', salt, hhex, hhash, hissued⟩ := h.genuine t ht
  rw [hhash, hexact salt plain' hhex, decide_eq_true_eq] at hmatch
  rw [hmatch]
  exact hissued

section

variable [Bcrypt] [Jwt] [JsString] [AuthConfig] {c c' : Pool} {i : Nat} {r : Except Err (Resp call)}

theorem own_log (hm : Moved errand authSystem c c' i call r g g') (j : Nat) :
    c'.log.filter (·.proc = j) =
      c.log.filter (·.proc = j) ++ if i = j then [⟨i, call, r, c.world, c'.world⟩] else [] := by
  rw [hm.log, List.filter_append]
  split
  · rename_i h
    simp [h]
  · rename_i h
    simp [h]

theorem Passed.start {e : Event World Call Resp Err} {id : Nat} (h : Passed c e id)
    (he : e.proc < c.procs.length) (ts : List Task) (w : World) :
    Passed (c.start authSystem ts w) e id := by
  obtain ⟨plain, use, row, htask, hrow, hpasses, g, hg, huser⟩ := h
  refine ⟨plain, use, row, ?_, hrow, ⟨hpasses.purpose, hpasses.unused, hpasses.issued,
    hpasses.examined, hpasses.returned⟩, g, ?_, huser⟩
  · rw [Config.task?, c.start_procs_of_lt authSystem he]
    exact htask
  · rw [Monitor.phase_start_of_lt he]
    exact hg

theorem Examined.mono {j : Nat} {plain : String} {row : AuthToken} (h : Examined c j plain row)
    (hm : Moved errand authSystem c c' i call r g g') : Examined c' j plain row := by
  obtain ⟨e₁, e₂, hpair, h⟩ := h
  refine ⟨e₁, e₂, ?_, h⟩
  rw [own_log hm]
  exact hpair.trans (List.prefix_append _ _).isInfix

theorem Sought.examining_own (hm : Moved errand authSystem c c' i call r g g')
    {plain : String} {use : Use} {row : AuthToken} {rows : List AuthToken}
    (hg' : g' = .examining plain use row rows) :
    ∃ e now, c'.last? i = some e ∧ e.call.looks e.res = some now ∧ ¬row.expiresAt < now := by
  subst hg'
  rcases moved_cases hm with ⟨-, hidle, -⟩ | ⟨a, rfl, hn⟩
  · cases hidle
  · cases hn with
    | look hg => cases hg
    | @examine _ _ _ _ now hexpired =>
      refine ⟨⟨i, .now, .ok now, c.world, c'.world⟩, now, ?_, rfl, hexpired⟩
      rw [Config.last?, own_log hm, if_pos rfl, List.getLast?_append, List.getLast?_singleton]
      rfl

theorem Sought.taking_own (h : Sought c) (hm : Moved errand authSystem c c' i call r g g')
    {plain : String} {use : Use} {row : AuthToken} (hg' : g' = .taking plain use row) :
    Examined c' i plain row ∧ Bcrypt.compare plain row.tokenHash = true := by
  subst hg'
  rcases moved_cases hm with ⟨-, hidle, -⟩ | ⟨a, rfl, hn⟩
  · cases hidle
  · have hbefore := hm.before
    have hanswers := hm.answers
    have hown := own_log hm i
    rw [if_pos rfl] at hown
    cases hn with
    | look =>
      obtain ⟨hexamined, hmatch⟩ := h.taking i plain use row hbefore
      exact ⟨hexamined.mono hm, hmatch⟩
    | found =>
      obtain ⟨e, now, hlast, hlooks, hexpired⟩ := h.examining i _ _ _ _ hbefore
      obtain ⟨before, hbefore⟩ := List.getLast?_eq_some_iff.mp hlast
      have hmatch : true = Bcrypt.compare plain row.tokenHash := says_of_answered hanswers
      refine ⟨⟨e, ⟨i, .bcryptCompare plain row.tokenHash, .ok true, c.world, c'.world⟩,
        ⟨before, [], ?_⟩, ⟨now, hlooks, hexpired⟩, rfl⟩, hmatch.symm⟩
      rw [hown, hbefore]
      simp

/-- The row that the UPDATE has changed is the one that the call has examined. -/
theorem Sought.passed_own (hexact : ExactOnTokens) (hA : AllGenuine c) (h : Sought c)
    (hm : Moved errand authSystem c c' i call r g g') {id : Nat} (hid : call.consumes r = some id) :
    ∃ plain use row, (c'.task? i).bind Task.presents? = some (plain, use) ∧
      c.world.authTokens.get id = some row ∧
      Passes c' ⟨i, call, r, c.world, c'.world⟩ plain use.purpose row ∧ g'.OfUser row.userId := by
  rcases moved_cases hm with ⟨-, -, e, rfl⟩ | ⟨a, rfl, hn⟩
  · cases call <;> cases hid
  · obtain ⟨plain, use, row, usedAt, rfl, rfl, rfl, rfl⟩ := goes_of_consumes hn hid
    obtain ⟨task, htask⟩ := Monitor.task_of_phase hm.before
    obtain ⟨hexamined, hmatch⟩ := h.taking i plain use row hm.before
    obtain ⟨hpurpose, hunused, t, ht, hsame⟩ := hA.read i _ plain use hm.before rfl row (by simp [
      Errand.candidates])
    have hne : a ≠ (0 : Nat) := by
      rintro rfl
      cases hid
    obtain ⟨t', ht', hlive, -⟩ := used_of_ne_zero hm.answers hne
    cases ht'.symm.trans ht
    obtain rfl : t = row := by
      have hfields := AuthToken.same_of_asIssued hsame
      cases t
      cases row
      simp_all
    have hissued := hA.issuedWith hexact (Table.get_some_iff.mp ht).1 hmatch
    have hself : t.asIssued = t := by
      cases t
      simp_all [AuthToken.asIssued]
    rw [hself] at hissued
    refine ⟨plain, use, t, ?_, ht, ⟨hpurpose, hunused, hissued.mono (log_mono hm), hexamined.mono hm, ?_⟩,
      rfl⟩
    · rw [hm.task, htask]
      exact presents_of_phase htask hm.before rfl
    · intro e' he' hproc id' hid'
      rw [hm.log, List.mem_append, List.mem_singleton] at he'
      rcases he' with he' | rfl
      · rw [h.quiet i _ hm.before rfl e' he' hproc] at hid'
        cases hid'
      · cases hid'

theorem Sought.move (hexact : ExactOnTokens) (hA : AllGenuine c) (h : Sought c)
    (hm : Moved errand authSystem c c' i call r g g') : Sought c' where
  examining := by
    intro j plain use row rows hj
    rcases hm.phase_cases hj with ⟨rfl, hg⟩ | ⟨hne, hj⟩
    · exact Sought.examining_own hm hg.symm
    · rw [hm.last_other hne]
      exact h.examining j plain use row rows hj
  taking := by
    intro j plain use row hj
    rcases hm.phase_cases hj with ⟨rfl, hg⟩ | ⟨hne, hj⟩
    · exact h.taking_own hm hg.symm
    · obtain ⟨hexamined, hmatch⟩ := h.taking j plain use row hj
      exact ⟨hexamined.mono hm, hmatch⟩
  quiet := by
    intro j gj hj hseeks e he hproc
    rw [hm.log, List.mem_append, List.mem_singleton] at he
    rcases hm.phase_cases hj with ⟨rfl, rfl⟩ | ⟨hne, hj⟩
    · have hseeks : g.seeks = true := by
        rcases moved_cases hm with ⟨-, rfl, -⟩ | ⟨a, rfl, hn⟩
        · cases hseeks
        · exact Errand.seeks_of_goes hn hseeks
      rcases he with he | rfl
      · exact h.quiet _ g hm.before hseeks e he hproc
      · exact Errand.account_of_seeks hseeks hm.allowed
    · rcases he with he | rfl
      · exact h.quiet j gj hj hseeks e he hproc
      · exact absurd hproc.symm hne
  passed := by
    intro e he id hid
    rw [hm.log, List.mem_append, List.mem_singleton] at he
    rcases he with he | rfl
    · obtain ⟨plain, use, row, htask, hrow, hpasses, ge, hge, huser⟩ := h.passed e he id hid
      have hphase : ∃ g, errand.phase c' e.proc = some g ∧ g.OfUser row.userId := by
        by_cases hproc : e.proc = i
        · rw [hproc] at hge
          cases hm.before.symm.trans hge
          refine ⟨g', hproc ▸ hm.after, ?_⟩
          rcases moved_cases hm with ⟨-, rfl, -⟩ | ⟨a, rfl, hn⟩
          · trivial
          · exact huser.goes hn
        · exact ⟨ge, (hm.other _ hproc).trans hge, huser⟩
      refine ⟨plain, use, row, ?_, hrow, ⟨hpasses.purpose, hpasses.unused,
        hpasses.issued.mono (log_mono hm), hpasses.examined.mono hm, ?_⟩, hphase⟩
      · rw [hm.task]
        exact htask
      · intro e' he' hproc id' hid'
        rw [hm.log, List.mem_append, List.mem_singleton] at he'
        rcases he' with he' | rfl
        · exact hpasses.returned e' he' hproc id' hid'
        · rw [← hproc] at hge
          cases hm.before.symm.trans hge
          exact huser.account hm.allowed id' hid'
    · obtain ⟨plain, use, row, htask, hrow, hpasses, huser⟩ := h.passed_own hexact hA hm hid
      exact ⟨plain, use, row, htask, hrow, hpasses, g', hm.after, huser⟩

theorem sought {init : World → Prop} (hinit : ∀ w, init w → w.authTokens.rows = [])
    (hexact : ExactOnTokens) (hr : Reach authSystem init HexTokens c) : Sought c := by
  refine errand_invariant ?_ ?_ ?_ ?_ hr
  · intro w hw
    refine ⟨?_, ?_, ?_, ?_⟩
    · intro i plain use row rows hg
      cases hg
    · intro i plain use row hg
      cases hg
    · intro i g hg
      cases hg
    · intro e he
      cases he
  · intro c t hr hI _
    have hlog := hr.logOk errand_sound
    refine ⟨?_, ?_, ?_, ?_⟩
    · intro i plain use row rows hg
      rcases begun_cases hr hg with hg | ⟨-, hg⟩
      · exact hI.examining i plain use row rows hg
      · cases t <;> cases hg
    · intro i plain use row hg
      rcases begun_cases hr hg with hg | ⟨-, hg⟩
      · exact hI.taking i plain use row hg
      · cases t <;> cases hg
    · intro i g hg hseeks e he hproc
      rcases begun_cases hr hg with hg | ⟨rfl, -⟩
      · exact hI.quiet i g hg hseeks e he hproc
      · exact absurd hproc (Nat.ne_of_lt (hlog e he))
    · intro e he id hid
      exact (hI.passed e he id hid).start (hlog e he) [t] c.world
  · intro c ms hr hI
    refine ⟨?_, ?_, ?_, ?_⟩
    · intro i plain use row rows hg
      exact hI.examining i plain use row rows (waited_phase hr hg)
    · intro i plain use row hg
      exact hI.taking i plain use row (waited_phase hr hg)
    · intro i g hg
      exact hI.quiet i g (waited_phase hr hg)
    · intro e he id hid
      exact (hI.passed e he id hid).start (hr.logOk errand_sound e he) [] _
  · intro c c' i call r g g' hr hI _ hm
    exact hI.move hexact (allGenuine hinit hr) hm

end

/-! ## How often a token passes -/

/-- The row is unused and matches the token. -/
def AuthToken.opens [Bcrypt] (plain : String) (t : AuthToken) : Bool :=
  t.usedAt = none ∧ Bcrypt.compare plain t.tokenHash = true

def openRows [Bcrypt] (w : World) (plain : String) : Nat := w.authTokens.rows.countP (·.opens plain)

/-- The call may still save a row for the token. -/
def Errand.mayIssue (plain : String) : Errand → Bool
  | drawn _ _ plain' | hashed _ _ plain' _ => plain' = plain
  | _ => false

abbrev Errand.unissued (plain : String) (g : Errand) : Nat := (g.mayIssue plain).toNat

theorem AuthToken.opens_of_used [Bcrypt] {plain : String} {t : AuthToken} (h : t.usedAt ≠ none) :
    t.opens plain = false := by
  simp [opens, h]

section

variable [Bcrypt] [Jwt] [JsString] [AuthConfig] {c c' : Pool} {i : Nat} {w w' : World}
  {r : Except Err (Resp call)} {plain : String}

omit [Jwt] [JsString] [AuthConfig] in
/-- A call adds at most the row that it saves. -/
theorem AuthTokenStep.openRows_le (h : AuthTokenStep w w' call r) :
    openRows w' plain ≤ openRows w plain +
      (call.issues r).elim 0 fun row => (row.opens plain).toNat := by
  unfold openRows
  cases h with
  | same _ _ h _ =>
    rw [h]
    exact Nat.le_add_right _ _
  | saved row _ h _ =>
    have hput := w.authTokens.countP_put { row with id := w.authTokenSeq } (·.opens plain)
    rw [h]
    simp only [Call.issues, Option.elim_some]
    omega
  | used row usedAt _ _ h _ =>
    have hput := w.authTokens.countP_put { row with usedAt := some usedAt } (·.opens plain)
    rw [AuthToken.opens_of_used (t := { row with usedAt := some usedAt }) (by simp),
      Bool.toNat_false] at hput
    rw [h]
    simp only [Call.issues, Option.elim_none]
    omega
  | usedAll userId purpose usedAt h _ =>
    rw [h, Table.map, List.countP_map]
    refine Nat.le_trans (List.countP_mono_left ?_) (Nat.le_add_right _ _)
    intro t _ ht
    simp only [Function.comp_apply, AuthToken.usedFor] at ht
    split at ht
    · rw [AuthToken.opens_of_used (by simp)] at ht
      cases ht
    · exact ht

/-- The conditional UPDATE takes one row away from the token that matches it. -/
theorem openRows_of_used {id affected : Nat} {usedAt : Time} {row : AuthToken}
    (h : Answered authSystem i (.authTokensUse id usedAt) w (.ok affected) w') (hne : affected ≠ 0)
    (hrow : w.authTokens.get id = some row) (hmatch : Bcrypt.compare plain row.tokenHash = true) :
    openRows w' plain + 1 = openRows w plain := by
  obtain ⟨t, ht, hunused, htable⟩ := used_of_ne_zero h hne
  cases ht.symm.trans hrow
  have hput := w.authTokens.countP_put { row with usedAt := some usedAt } (·.opens plain)
  have hkey : w.authTokens.get (Keyed.key { row with usedAt := some usedAt }) = some row := by
    rw [← Table.key_of_get ht] at ht
    exact ht
  have hopens : row.opens plain = true := decide_eq_true ⟨hunused, hmatch⟩
  rw [hkey, Option.elim_some, hopens,
    AuthToken.opens_of_used (t := { row with usedAt := some usedAt }) (by simp), ← htable] at hput
  simpa [openRows] using hput

/-- The token that a call makes pays for its row, and the row for the call that passes. -/
theorem Sought.pays (hexact : ExactOnTokens) (hA : AllGenuine c) (h : Sought c)
    (hm : Moved errand authSystem c c' i call r g g') :
    (call.passesWith plain (c.task? i) r).toNat + openRows c'.world plain + g'.unissued plain ≤
      (decide (call.draws r = some plain)).toNat + openRows c.world plain + g.unissued plain := by
  have hle : openRows c'.world plain ≤ openRows c.world plain +
      (call.issues r).elim 0 fun row => (row.opens plain).toNat :=
    (answered_authTokens hm.answers).openRows_le
  have hquiet : call.consumes r = none → call.issues r = none → g'.unissued plain ≤ g.unissued plain →
      (call.passesWith plain (c.task? i) r).toNat + openRows c'.world plain + g'.unissued plain ≤
        openRows c.world plain + g.unissued plain := by
    intro hconsumes hissues hpays
    have hpasses : call.passesWith plain (c.task? i) r = false := by
      simp [Call.passesWith, hconsumes]
    rw [hissues] at hle
    simp only [Option.elim_none, hpasses, Bool.toNat_false] at hle ⊢
    omega
  rcases moved_cases hm with ⟨hw, rfl, e, rfl⟩ | ⟨a, rfl, hn⟩
  · have := hquiet (by cases call <;> rfl) (by cases call <;> rfl) (Nat.zero_le _)
    omega
  · have hbefore := hm.before
    have hanswers := hm.answers
    cases hn with
    | stop hc =>
      have := hquiet (by cases call <;> first | rfl | cases hc)
        (by cases call <;> first | rfl | cases hc) (Nat.zero_le _)
      omega
    | @draw _ _ plain' =>
      have hw : openRows c'.world plain ≤ openRows c.world plain := hle
      have hpasses : Call.passesWith plain (c.task? i) .randomBytes (.ok plain') = false := rfl
      have hdraws : decide (Call.draws .randomBytes (.ok plain') = some plain) =
          decide (plain' = plain) := by simp [Call.draws]
      rw [hpasses, hdraws]
      simp only [Errand.unissued, Errand.mayIssue, Bool.toNat_false]
      omega
    | @save plain' row inserted hunused =>
      obtain ⟨salt, hhash⟩ := hA.hashed i _ _ _ _ hbefore
      obtain ⟨hhex, -⟩ := hA.drawn i _ plain' hbefore rfl
      have hopens : inserted.opens plain = true → (plain' = plain) := by
        intro hopens
        rw [inserted_of_save hanswers] at hopens
        have hmatch : Bcrypt.compare plain row.tokenHash = true := (of_decide_eq_true hopens).2
        rw [hhash, hexact salt plain' hhex, decide_eq_true_eq] at hmatch
        exact hmatch.symm
      have hpays : (inserted.opens plain).toNat ≤ (decide (plain' = plain)).toNat :=
        Bool.toNat_le_toNat (Bool.le_iff_imp.mpr fun h => decide_eq_true (hopens h))
      have hpasses : Call.passesWith plain (c.task? i) (.authTokensSave row) (.ok inserted) = false := rfl
      simp only [Call.issues, Option.elim_some] at hle
      simp only [hpasses, Errand.unissued, Errand.mayIssue, Bool.toNat_false]
      omega
    | @take plain' use row usedAt affected hne =>
      obtain ⟨task, htask⟩ := Monitor.task_of_phase hbefore
      have hpresents : task.presents? = some (plain', use) := presents_of_phase htask hbefore rfl
      obtain ⟨-, hmatch⟩ := h.taking i plain' use row hbefore
      obtain ⟨-, -, t, ht, hsame⟩ := hA.read i _ plain' use hbefore rfl row (List.mem_singleton_self _)
      have hpasses : Call.passesWith plain (c.task? i) (.authTokensUse row.id usedAt) (.ok affected) =
          decide (plain' = plain) := by
        simp [Call.passesWith, Call.consumes, hne, htask, hpresents]
      simp only [hpasses, Errand.unissued, Errand.mayIssue, Bool.toNat_false, Call.issues,
        Option.elim_none] at hle ⊢
      by_cases hplain : plain' = plain
      · subst hplain
        rw [← (AuthToken.same_of_asIssued hsame).2.2.2.1] at hmatch
        have hone := openRows_of_used hanswers hne ht hmatch
        simp only [decide_true, Bool.toNat_true]
        omega
      · simp only [hplain, decide_false, Bool.toNat_false]
        omega
    | _ =>
      have := hquiet rfl rfl (Nat.le_refl _)
      omega

/-- Passes, rows that can still pass and calls that may still save one come to no more than the
times that the token was made. -/
def Balanced (c : Pool) : Prop :=
  ∀ plain, passes c plain + openRows c.world plain + errand.total (Errand.unissued plain) c ≤
    issues c plain

theorem balanced (hexact : ExactOnTokens) (hr : Reach authSystem NoAuthTokens HexTokens c) :
    Balanced c := by
  refine errand_invariant ?_ ?_ ?_ ?_ hr
  · intro w hw plain
    unfold openRows
    rw [show (Config.initial w : Pool).world.authTokens.rows = [] from hw, Monitor.total_initial]
    exact Nat.zero_le _
  · intro c t hr hI _ plain
    have hbefore := hI plain
    have hlog := hr.logOk errand_sound
    have hpasses : passes (begun c t) plain = passes c plain := by
      apply List.countP_congr
      intro e he
      rw [Config.task?, c.start_procs_of_lt authSystem (hlog e he)]
      rfl
    have hstart : (Errand.start t).unissued plain = 0 := by
      cases t <;> rfl
    rw [Monitor.total_start hlog, hpasses, errand_start, hstart]
    exact hbefore
  · intro c ms hr hI plain
    have hpasses : passes (waited c ms) plain = passes c plain := by
      apply List.countP_congr
      intro e he
      rw [Config.task?, c.start_procs_of_lt authSystem (hr.logOk errand_sound e he)]
      rfl
    rw [Monitor.total_env, hpasses]
    exact hI plain
  · intro c c' i call r g g' hr hI _ hm plain
    have hbefore := hI plain
    have hpays : (call.passesWith plain (c.task? i) r).toNat + openRows c'.world plain +
          g'.unissued plain ≤
        (decide (call.draws r = some plain)).toNat + openRows c.world plain + g.unissued plain :=
      (sought (fun _ h => h) hexact hr).pays hexact (allGenuine (fun _ h => h) hr) hm
    have htotal := Monitor.total_move (f := Errand.unissued plain) hm
    have hpasses : passes c' plain =
        passes c plain + (call.passesWith plain (c.task? i) r).toNat := by
      unfold passes
      simp only [hm.log, hm.task, List.countP_append, List.countP_singleton]
      cases call.passesWith plain (c.task? i) r <;> rfl
    have hissues : issues c' plain =
        issues c plain + (decide (call.draws r = some plain)).toNat := by
      unfold issues
      simp only [hm.log, List.countP_append, List.countP_singleton]
      cases decide (call.draws r = some plain) <;> rfl
    omega

/-- A plain token lets at most one call pass each time that it was issued. Whenever a call passes,
the row was issued with its token for its purpose, was not expired when it was examined and
neither used nor superseded, and the call goes on with the user it was issued to. -/
theorem token_passes_once (hexact : ExactOnTokens) (hr : Reach authSystem NoAuthTokens HexTokens c) :
    (∀ plain, passes c plain ≤ issues c plain) ∧
      ∀ e ∈ c.log, ∀ id, e.call.consumes e.res = some id → ∃ plain use row,
        (c.task? e.proc).bind Task.presents? = some (plain, use) ∧
          e.before.authTokens.get id = some row ∧ Passes c e plain use.purpose row := by
  constructor
  · intro plain
    have := balanced hexact hr plain
    omega
  · intro e he id hid
    obtain ⟨plain, use, row, htask, hrow, hpasses, -⟩ :=
      (sought (fun _ h => h) hexact hr).passed e he id hid
    exact ⟨plain, use, row, htask, hrow, hpasses⟩

end

/-! ### A run -/

instance (c : Pool) (i : Nat) (x : String) : Decidable (HexTokens c (.run i x)) :=
  inferInstanceAs (Decidable (c.next? i = some .randomBytes → Hex64 x))

instance : ∀ c l, Decidable (HexTokens c l)
  | _, .run _ _ => inferInstance
  | _, .spawn _ | _, .fail _ | _, .env _ => .isTrue trivial

theorem plainBcrypt_exact : @ExactOnTokens Exams.plainBcrypt := fun _ _ _ _ => rfl

def hexToken : String := String.ofList (List.replicate 64 'a')

/-- A student has a link sent to them, and uses it in two calls at once. -/
def resetsTwice : List PoolLabel :=
  .spawn (.forgotPassword "u@example.com") :: calls 0 3 ++ .run 0 hexToken :: calls 0 3 ++
    [.spawn (.resetPassword hexToken "new"), .spawn (.resetPassword hexToken "other")] ++
    calls 1 3 ++ calls 2 4 ++ calls 1 2 ++ calls 2 1 ++ calls 1 4

set_option maxRecDepth 100000 in
/-- The first call passes, and the second does not. -/
theorem token_passes_once_reset : ∃ c, Reach bureauSystem NoAuthTokens HexTokens c ∧
    (c.reply? 1).isSome ∧ (c.error? 2).isSome ∧ 1 ≤ passes c hexToken ∧
    passes c hexToken ≤ issues c hexToken ∧ issues c hexToken = 1 := by
  obtain ⟨c, hc, hp⟩ := (Option.any_eq_true _ _).mp (show
    (runIf bureauSystem HexTokens resetsTwice (.initial bureau)).any (fun c =>
      (c.reply? 1).isSome ∧ (c.error? 2).isSome ∧ 1 ≤ passes c hexToken ∧ issues c hexToken = 1) =
        true by decide +kernel)
  have hr : Reach bureauSystem NoAuthTokens HexTokens c :=
    runIf_reach (.init (show NoAuthTokens bureau from rfl)) hc
  obtain ⟨hreply, herror, hpasses, hissues⟩ := of_decide_eq_true hp
  exact ⟨c, hr, hreply, herror, hpasses, (@token_passes_once Exams.plainBcrypt plainJwt plainString
    development c plainBcrypt_exact hr).1 hexToken, hissues⟩

end LmsBackend.Auth
