import LmsBackend.Auth.Errand
import LmsBackend.Auth.Steps

/-!
# Places, step by step

What an answer does to the place of a call (`Errand.Goes`), with one rule for
each. Every invariant of the places is shown by its cases.
-/

open Async Store

namespace LmsBackend.Auth

namespace Errand

/-- The answer takes the call from the first phase to the second. -/
inductive Goes [JsString] : Errand → (c : Call) → Resp c → Errand → Prop where
  /-- The call has nothing left to do but to end. -/
  | stop {g c a} (hc : c.reads = true) : Goes g c a idle
  | look {g now} (hg : g.seen now = some g) : Goes g .now now g
  -- Sessions.
  | findUser {email password user} (hactive : user.active = true) :
      Goes (loggingIn email password) (.usersFindByEmail email) (some user) (knows user password)
  | findAdmin {email password admin} (hactive : admin.active = true) :
      Goes (loggingInAdmin email password) (.adminsFindByEmail email) (some admin)
        (knowsAdmin admin password)
  | letIn {user password} (hverified : user.emailVerified = true) :
      Goes (knows user password) (.bcryptCompare password user.passwordHash) true
        (entitled .login user.id .student)
  | letInAdmin {admin password} :
      Goes (knowsAdmin admin password) (.bcryptCompare password admin.passwordHash) true
        (entitled .login admin.id .admin)
  | read {payload rawToken row} :
      Goes (refreshing payload rawToken) (.refreshTokensFindOne payload.jti) (some row)
        (stored payload rawToken row)
  | reused {payload rawToken row now} (hexpired : ¬row.expiresAt < now)
      (hrevoked : row.revokedAt ≠ none) :
      Goes (stored payload rawToken row) .now now (due payload.sub payload.type)
  | valid {payload rawToken row now} (hexpired : ¬row.expiresAt < now) (hlive : row.revokedAt = none) :
      Goes (stored payload rawToken row) .now now (fresh payload rawToken row)
  | matches {payload rawToken row} :
      Goes (fresh payload rawToken row) (.bcryptCompare rawToken row.tokenHash) true
        (matched payload row)
  | win {payload row revokedAt} :
      Goes (matched payload row) (.refreshTokensRevoke row.id revokedAt) (1 : Nat) (exchanged payload)
  | lose {payload row revokedAt} {affected : Nat} (h : affected ≠ 1) :
      Goes (matched payload row) (.refreshTokensRevoke row.id revokedAt) affected
        (due payload.sub payload.type)
  | renew {payload user} (htype : payload.type = .student) (hactive : user.active = true) :
      Goes (exchanged payload) (.usersFindById payload.sub) (some user)
        (entitled (.refresh payload) user.id .student)
  | renewAdmin {payload admin} (htype : payload.type = .admin) (hactive : admin.active = true) :
      Goes (exchanged payload) (.adminsFindById payload.sub) (some admin)
        (entitled (.refresh payload) admin.id .admin)
  | mint {origin subjectId type row inserted} (howner : row.owner = some (subjectId, type))
      (hlive : row.revokedAt = none) :
      Goes (entitled origin subjectId type) (.refreshTokensSave row) inserted
        (minted origin subjectId type inserted.id)
  | hashJwt {origin subjectId type id plain made} :
      Goes (minted origin subjectId type id) (.bcryptHash plain) made (minted origin subjectId type id)
  | sign {origin subjectId type id tokenHash} :
      Goes (minted origin subjectId type id) (.refreshTokensUpdateHash id tokenHash) ()
        (signedIn origin subjectId type)
  | revokeAll {subjectId type revokedAt} :
      Goes (due subjectId type) (.refreshTokensRevokeAll subjectId type revokedAt) () idle
  | leave {payload revokedAt affected} :
      Goes (leaving payload) (.refreshTokensRevoke payload.jti revokedAt) affected idle
  -- One-time tokens.
  | unknown {dto} :
      Goes (registering dto) (.usersFindByEmail (normalise dto.email)) none (unregistered dto)
  | hashPassword {dto made} :
      Goes (unregistered dto) (.bcryptHash dto.password) made (enrolling dto made)
  | enrol {dto row user} (hemail : row.email = normalise dto.email)
      (hverified : row.emailVerified = false) :
      Goes (enrolling dto row.passwordHash) (.usersSave row) user (issuing user.id .emailVerification)
  | forget {email user} (hactive : user.active = true) :
      Goes (forgetting email) (.usersFindByEmail email) (some user) (issuing user.id .passwordReset)
  | supersede {userId purpose usedAt} :
      Goes (issuing userId purpose) (.authTokensUseAll userId purpose usedAt) ()
        (drawing userId purpose)
  | draw {userId purpose plain} : Goes (drawing userId purpose) .randomBytes plain
      (drawn userId purpose plain)
  | hashToken {userId purpose plain made} :
      Goes (drawn userId purpose plain) (.bcryptHash plain) made (hashed userId purpose plain made)
  | save {plain row inserted} (hunused : row.usedAt = none) :
      Goes (hashed row.userId row.purpose plain row.tokenHash) (.authTokensSave row) inserted
        (mailing plain)
  | mail {mail : Mail} : Goes (mailing mail.token) (.sgMailSend mail) () idle
  | candidates {plain use rows} :
      Goes (presenting plain use) (.authTokensFind use.purpose) rows (scanning plain use rows)
  | pass {plain use row rows now} (hexpired : row.expiresAt < now) :
      Goes (scanning plain use (row :: rows)) .now now (scanning plain use rows)
  | examine {plain use row rows now} (hexpired : ¬row.expiresAt < now) :
      Goes (scanning plain use (row :: rows)) .now now (examining plain use row rows)
  | other {plain use row rows} :
      Goes (examining plain use row rows) (.bcryptCompare plain row.tokenHash) false
        (scanning plain use rows)
  | found {plain use row rows} :
      Goes (examining plain use row rows) (.bcryptCompare plain row.tokenHash) true
        (taking plain use row)
  | lost {plain use row usedAt} : Goes (taking plain use row) (.authTokensUse row.id usedAt) (0 : Nat) idle
  | take {plain use row usedAt} {affected : Nat} (h : affected ≠ 0) :
      Goes (taking plain use row) (.authTokensUse row.id usedAt) affected (taken plain use row)
  | verify {plain row at'} : Goes (taken plain .verify row) (.usersUpdateVerified row.userId at') () idle
  | hashReset {plain newPassword row made} :
      Goes (taken plain (.reset newPassword) row) (.bcryptHash newPassword) made
        (rewriting row.userId newPassword made)
  -- Passwords.
  | findChanging {userId currentPassword newPassword user} (hactive : user.active = true) :
      Goes (changing userId currentPassword newPassword) (.usersFindById userId) (some user)
        (confirming userId currentPassword newPassword user)
  | confirm {userId currentPassword newPassword user} :
      Goes (confirming userId currentPassword newPassword user)
        (.bcryptCompare currentPassword user.passwordHash) true (confirmed userId newPassword)
  | hashChange {userId newPassword made} :
      Goes (confirmed userId newPassword) (.bcryptHash newPassword) made
        (rewriting userId newPassword made)
  | rewrite {userId newPassword made} :
      Goes (rewriting userId newPassword made) (.usersUpdatePassword userId made) ()
        (due userId .student)

variable {g g' : Errand}

theorem only_eq_some {p : Prop} [Decidable p] : only p g = some g' ↔ p ∧ g = g' := by
  unfold only
  split <;> simp [*]

theorem goes_of_next [JsString] {call : Call} {a : Resp call} (hn : g.nextOk call a = some g') :
    Goes g call a g' := by
  cases call with
  | now =>
    simp only [nextOk, seen] at hn
    repeat' split at hn
    all_goals simp only [Option.some.injEq, reduceCtorEq] at hn
    all_goals subst hn
    all_goals first
      | exact .stop rfl
      | exact .look rfl
      | exact .reused ‹_› ‹_›
      | exact .valid ‹_› (not_not.mp ‹_›)
      | exact .pass ‹_›
      | exact .examine ‹_›
  | randomBytes =>
    simp only [nextOk] at hn
    split at hn <;> cases hn
    exact .draw
  | bcryptHash plain =>
    simp only [nextOk, hash] at hn
    split at hn
    all_goals simp only [only_eq_some, Option.some.injEq, reduceCtorEq] at hn
    · obtain ⟨rfl, rfl⟩ := hn
      exact .hashPassword
    · obtain ⟨rfl, rfl⟩ := hn
      exact .hashToken
    · subst hn
      exact .hashJwt
    · obtain ⟨rfl, rfl⟩ := hn
      exact .hashReset
    · obtain ⟨rfl, rfl⟩ := hn
      exact .hashChange
  | bcryptCompare plain hash =>
    simp only [nextOk, compare] at hn
    split at hn
    all_goals simp only [only_eq_some, Option.some.injEq, reduceCtorEq] at hn
    · subst hn
      exact .stop rfl
    all_goals
      obtain ⟨⟨rfl, rfl⟩, hn⟩ := hn
      split at hn <;> subst hn
    · rename_i hok
      obtain ⟨rfl, hverified⟩ := hok
      exact .letIn hverified
    · exact .stop rfl
    · rename_i hok
      cases hok
      exact .letInAdmin
    · exact .stop rfl
    · rename_i hok
      cases hok
      exact .matches
    · exact .stop rfl
    · rename_i hok
      cases hok
      exact .found
    · rename_i hok
      cases Bool.eq_false_of_not_eq_true hok
      exact .other
    · rename_i hok
      cases hok
      exact .confirm
    · exact .stop rfl
  | usersFindByEmail email =>
    simp only [nextOk] at hn
    split at hn
    all_goals simp only [only_eq_some, reduceCtorEq] at hn
    all_goals
      obtain ⟨rfl, hn⟩ := hn
      split at hn <;> subst hn
    · obtain ⟨rfl, hactive⟩ := Option.filter_eq_some_iff.mp ‹_›
      exact .findUser hactive
    · exact .stop rfl
    · exact .stop rfl
    · rename_i hnone
      obtain rfl := Option.not_isSome_iff_eq_none.mp hnone
      exact .unknown
    · obtain ⟨rfl, hactive⟩ := Option.filter_eq_some_iff.mp ‹_›
      exact .forget hactive
    · exact .stop rfl
  | usersFindById id =>
    simp only [nextOk] at hn
    split at hn
    all_goals simp only [only_eq_some, reduceCtorEq] at hn
    · obtain ⟨⟨rfl, htype⟩, hn⟩ := hn
      split at hn <;> subst hn
      · obtain ⟨rfl, hactive⟩ := Option.filter_eq_some_iff.mp ‹_›
        exact .renew htype hactive
      · exact .stop rfl
    · obtain ⟨rfl, hn⟩ := hn
      split at hn <;> subst hn
      · obtain ⟨rfl, hactive⟩ := Option.filter_eq_some_iff.mp ‹_›
        exact .findChanging hactive
      · exact .stop rfl
  | adminsFindByEmail email =>
    simp only [nextOk] at hn
    split at hn
    all_goals simp only [only_eq_some, reduceCtorEq] at hn
    obtain ⟨rfl, hn⟩ := hn
    split at hn <;> subst hn
    · obtain ⟨rfl, hactive⟩ := Option.filter_eq_some_iff.mp ‹_›
      exact .findAdmin hactive
    · exact .stop rfl
  | adminsFindById id =>
    simp only [nextOk] at hn
    split at hn
    all_goals simp only [only_eq_some, reduceCtorEq] at hn
    obtain ⟨⟨rfl, htype⟩, hn⟩ := hn
    split at hn <;> subst hn
    · obtain ⟨rfl, hactive⟩ := Option.filter_eq_some_iff.mp ‹_›
      exact .renewAdmin htype hactive
    · exact .stop rfl
  | refreshTokensFindOne id =>
    simp only [nextOk] at hn
    split at hn
    all_goals simp only [only_eq_some, reduceCtorEq] at hn
    obtain ⟨rfl, hn⟩ := hn
    split at hn <;> subst hn
    · exact .read
    · exact .stop rfl
  | usersSave row =>
    simp only [nextOk] at hn
    split at hn
    all_goals simp only [only_eq_some, reduceCtorEq] at hn
    obtain ⟨⟨rfl, hemail, hverified⟩, rfl⟩ := hn
    exact .enrol hemail hverified
  | refreshTokensSave row =>
    simp only [nextOk] at hn
    split at hn
    all_goals simp only [only_eq_some, reduceCtorEq] at hn
    obtain ⟨⟨howner, hlive⟩, rfl⟩ := hn
    exact .mint howner hlive
  | refreshTokensRevoke id revokedAt =>
    simp only [nextOk] at hn
    split at hn
    all_goals simp only [only_eq_some, reduceCtorEq] at hn
    · obtain ⟨rfl, hn⟩ := hn
      split at hn <;> subst hn
      · rename_i hone
        subst hone
        exact .win
      · exact .lose ‹_›
    · obtain ⟨rfl, rfl⟩ := hn
      exact .leave
  | authTokensUse id usedAt =>
    simp only [nextOk] at hn
    split at hn
    all_goals simp only [only_eq_some, reduceCtorEq] at hn
    obtain ⟨rfl, hn⟩ := hn
    split at hn <;> subst hn
    · rename_i hzero
      subst hzero
      exact .lost
    · exact .take ‹_›
  | authTokensSave row =>
    simp only [nextOk] at hn
    split at hn
    all_goals simp only [only_eq_some, reduceCtorEq] at hn
    obtain ⟨⟨rfl, rfl, rfl, hunused⟩, rfl⟩ := hn
    exact .save hunused
  | usersUpdatePassword id passwordHash =>
    simp only [nextOk] at hn
    split at hn
    all_goals simp only [only_eq_some, reduceCtorEq] at hn
    obtain ⟨⟨rfl, rfl⟩, rfl⟩ := hn
    exact .rewrite
  | usersUpdateVerified id at' =>
    simp only [nextOk] at hn
    split at hn
    all_goals simp only [only_eq_some, reduceCtorEq] at hn
    obtain ⟨rfl, rfl⟩ := hn
    exact .verify
  | refreshTokensUpdateHash id tokenHash =>
    simp only [nextOk] at hn
    split at hn
    all_goals simp only [only_eq_some, reduceCtorEq] at hn
    obtain ⟨rfl, rfl⟩ := hn
    exact .sign
  | refreshTokensRevokeAll subjectId type revokedAt =>
    simp only [nextOk] at hn
    split at hn
    all_goals simp only [only_eq_some, reduceCtorEq] at hn
    obtain ⟨⟨rfl, rfl⟩, rfl⟩ := hn
    exact .revokeAll
  | authTokensFind purpose =>
    simp only [nextOk] at hn
    split at hn
    all_goals simp only [only_eq_some, reduceCtorEq] at hn
    obtain ⟨rfl, rfl⟩ := hn
    exact .candidates
  | authTokensUseAll userId purpose usedAt =>
    simp only [nextOk] at hn
    split at hn
    all_goals simp only [only_eq_some, reduceCtorEq] at hn
    obtain ⟨⟨rfl, rfl⟩, rfl⟩ := hn
    exact .supersede
  | sgMailSend mail =>
    simp only [nextOk] at hn
    split at hn
    all_goals simp only [only_eq_some, reduceCtorEq] at hn
    obtain ⟨rfl, rfl⟩ := hn
    exact .mail

end Errand

/-! ## The task of a place -/

/-- The token that the call presents, and what for. -/
def Task.presents? : Task → Option (String × Use)
  | .verifyEmail plain => some (plain, .verify)
  | .resetPassword plain newPassword => some (plain, .reset newPassword)
  | _ => none

/-- The password that the call sets. -/
def Task.newPassword? : Task → Option String
  | .register dto => some dto.password
  | .resetPassword _ newPassword | .changePassword _ _ newPassword => some newPassword
  | _ => none

/-- The call that the origin stands for. -/
def Origin.Of (t : Task) : Origin → Prop
  | login => (∃ email password, t = .loginStudent email password) ∨
      ∃ email password, t = .loginAdmin email password
  | refresh payload => ∃ rawToken, t = .refresh payload rawToken

theorem Origin.Of.of_refresh {origin : Origin} {payload : RefreshTokenPayload} {rawToken : String}
    (h : origin.Of (.refresh payload rawToken)) : origin = .refresh payload := by
  cases origin with
  | login => rcases h with ⟨_, _, h⟩ | ⟨_, _, h⟩ <;> cases h
  | refresh payload' =>
    obtain ⟨rawToken', h⟩ := h
    cases h
    rfl

/-- What the place shows of the task. -/
def Errand.Fits [JsString] (t : Task) : Errand → Prop
  | loggingIn email password => ∃ email', t = .loginStudent email' password ∧ email = normalise email'
  | loggingInAdmin email password =>
    ∃ email', t = .loginAdmin email' password ∧ email = normalise email'
  | knows _ password => ∃ email, t = .loginStudent email password
  | knowsAdmin _ password => ∃ email, t = .loginAdmin email password
  | refreshing payload rawToken | stored payload rawToken _ | fresh payload rawToken _ =>
    t = .refresh payload rawToken
  | matched payload _ | exchanged payload => ∃ rawToken, t = .refresh payload rawToken
  | entitled origin _ _ | minted origin _ _ _ | signedIn origin _ _ => origin.Of t
  | leaving payload => t = .logout payload
  | registering dto | unregistered dto | enrolling dto _ => t = .register dto
  | forgetting email => ∃ email', t = .forgotPassword email' ∧ email = normalise email'
  | presenting plain use | scanning plain use _ | examining plain use _ _ | taking plain use _
  | taken plain use _ => t.presents? = some (plain, use)
  | changing userId currentPassword newPassword | confirming userId currentPassword newPassword _ =>
    t = .changePassword userId currentPassword newPassword
  | confirmed userId newPassword =>
    ∃ currentPassword, t = .changePassword userId currentPassword newPassword
  | rewriting _ newPassword _ => t.newPassword? = some newPassword
  | _ => True

section

variable [JsString] {t : Task} {g g' : Errand}

theorem Errand.Fits.start : (Errand.start t).Fits t := by
  cases t with
  | loginStudent | loginAdmin | forgotPassword => exact ⟨_, rfl, rfl⟩
  | _ => rfl

theorem Errand.Fits.goes {call : Call} {a : Resp call} (h : g.Fits t) (hn : g.Goes call a g') :
    g'.Fits t := by
  cases hn with
  | findUser | findAdmin =>
    obtain ⟨email', rfl, -⟩ := h
    exact ⟨email', rfl⟩
  | letIn =>
    obtain ⟨email, rfl⟩ := h
    exact .inl ⟨email, _, rfl⟩
  | letInAdmin =>
    obtain ⟨email, rfl⟩ := h
    exact .inr ⟨email, _, rfl⟩
  | «matches» => exact ⟨_, h⟩
  | confirm => exact ⟨_, h⟩
  | hashReset =>
    have h : t.presents? = some _ := h
    cases t <;> cases h
    rfl
  | hashChange =>
    obtain ⟨currentPassword, rfl⟩ := h
    rfl
  | _ => first | exact h | trivial

theorem fits_of_phase {c : Pool} {i : Nat} (ht : c.task? i = some t)
    (hg : errand.phase c i = some g) : g.Fits t := by
  refine Monitor.phase_always ht hg Errand.Fits.start ?_
  intro g call r g' h hn
  cases r with
  | error e =>
    cases hn
    trivial
  | ok a => exact h.goes (Errand.goes_of_next hn)

end

/-! ## Invariants of runs -/

section

variable [Bcrypt] [Jwt] [JsString] [AuthConfig] {init : World → Prop}
  {P : Pool → PoolLabel → Prop} {I : Pool → Prop}

/-- One more call of the service. -/
abbrev begun (c : Pool) (t : Task) : Pool := c.start authSystem [t] c.world

/-- Time passes. -/
abbrev waited (c : Pool) (ms : Tick) : Pool := c.start authSystem [] (c.world.tick ms)

theorem errand_invariant (hinit : ∀ w, init w → I (.initial w))
    (hbegun : ∀ c t, Reach authSystem init P c → I c → P c (.spawn t) → I (begun c t))
    (hwaited : ∀ c ms, Reach authSystem init P c → I c → I (waited c ms))
    (hmove : ∀ (c c' : Pool) (i : Nat) (call : Call) (r : Except Err (Resp call)) (g g' : Errand),
      Reach authSystem init P c → I c → Reach.Allowed authSystem P c i call r c'.world →
      Moved errand authSystem c c' i call r g g' → I c')
    {c : Pool} (h : Reach authSystem init P c) : I c := by
  refine Reach.invariant errand_sound hinit ?_ ?_ ?_ h
  · intro c t hr hI hP _
    exact hbegun c t hr hI hP
  · intro c v w ts hr hI _ hv
    have hv : some (c.world.tick v, ([] : List Task)) = some (w, ts) := hv
    cases hv
    exact hwaited c v hr hI
  · intro c c' i call r g g'
    exact hmove c c' i call r g g'

/-- A step takes a call to a next place, or it rejects, and changes nothing. -/
theorem moved_cases {c c' : Pool} {i : Nat} {call : Call} {r : Except Err (Resp call)} {g g' : Errand}
    (hm : Moved errand authSystem c c' i call r g g') :
    (c'.world = c.world ∧ g' = .idle ∧ ∃ e, r = .error e) ∨ ∃ a, r = .ok a ∧ g.Goes call a g' := by
  cases r with
  | error e =>
    refine .inl ⟨world_of_error hm.answers, ?_, e, rfl⟩
    exact (Option.some.inj hm.next).symm
  | ok a => exact .inr ⟨a, rfl, Errand.goes_of_next hm.next⟩

/-- A phase after a call has begun is an old one, or the first one of the call. -/
theorem begun_cases {c : Pool} (hr : Reach authSystem init P c) {t : Task} {j : Nat} {g : Errand}
    (h : errand.phase (begun c t) j = some g) :
    errand.phase c j = some g ∨ j = c.procs.length ∧ g = Errand.start t := by
  have hlt := Monitor.lt_of_phase h
  rcases Monitor.phase_start_cases (hr.logOk errand_sound) h with h | ⟨hle, t', ht', rfl⟩
  · exact .inl h
  · obtain rfl := List.mem_singleton.mp ht'
    refine .inr ⟨?_, rfl⟩
    simp only [Config.start, List.length_append, List.length_map, List.length_singleton] at hlt
    omega

theorem waited_phase {c : Pool} (hr : Reach authSystem init P c) {ms : Tick} {j : Nat} {g : Errand}
    (h : errand.phase (waited c ms) j = some g) : errand.phase c j = some g := by
  rcases Monitor.phase_start_cases (hr.logOk errand_sound) h with h | ⟨-, t, ht, -⟩
  · exact h
  · cases ht

theorem log_mono {c c' : Pool} {i : Nat} {call : Call} {r : Except Err (Resp call)} {g g' : Errand}
    (hm : Moved errand authSystem c c' i call r g g') : ∀ e ∈ c.log, e ∈ c'.log := by
  intro e he
  rw [hm.log]
  exact List.mem_append_left _ he

/-- What the guard says of each call that begins holds of all calls, when a longer log keeps it. -/
theorem task_of_guard {Q : Pool → Task → Prop} (hQ : ∀ c t, P c (.spawn t) → Q c t)
    (hmono : ∀ c c' t, (∀ e ∈ c.log, e ∈ c'.log) → Q c t → Q c' t) {c : Pool}
    (hr : Reach authSystem init P c) {i : Nat} {t : Task} (ht : c.task? i = some t) : Q c t := by
  have hstart : ∀ (c : Pool) (ts : List Task) (w : World), (∀ i t, c.task? i = some t → Q c t) →
      (∀ t ∈ ts, Q c t) → ∀ i t, (c.start authSystem ts w).task? i = some t →
      Q (c.start authSystem ts w) t := by
    intro c ts w hI hts i t ht
    apply hmono c
    · exact fun e he => he
    · obtain ⟨p, hp, rfl⟩ := Option.map_eq_some_iff.mp ht
      rcases c.start_procs_cases authSystem hp with hp' | ⟨-, t', hmem, rfl⟩
      · exact hI i p.task (by rw [Config.task?, hp']; rfl)
      · exact hts t' hmem
  refine errand_invariant (I := fun c => ∀ i t, c.task? i = some t → Q c t) ?_ ?_ ?_ ?_ hr i t ht
  · intro w _ i t ht
    cases ht
  · intro c t hr hI hP
    apply hstart c [t] c.world hI
    intro t' ht'
    obtain rfl := List.mem_singleton.mp ht'
    exact hQ c t' hP
  · intro c ms hr hI
    apply hstart c [] _ hI
    intro t ht
    cases ht
  · intro c c' i call r g g' hr hI _ hm j t ht
    rw [hm.task] at ht
    exact hmono c c' t (log_mono hm) (hI j t ht)

/-- A call that has returned a session has minted its token. -/
theorem signedIn_of_reply {c : Pool} (hr : Reach authSystem init P c) {j : Nat}
    {login : LoginResponse} {refreshToken : String}
    (h : c.reply? j = some (.session login refreshToken)) :
    ∃ origin subjectId type, errand.phase c j = some (.signedIn origin subjectId type) := by
  obtain ⟨prog, hprog, hvalue⟩ := Option.bind_eq_some_iff.mp h
  obtain ⟨p, hp, rfl⟩ := Option.map_eq_some_iff.mp hprog
  obtain ⟨g, hg, hkeeps⟩ := hr.conforms errand_sound j p hp
  cases hp' : p.prog with
  | ret a =>
    rw [hp'] at hvalue hkeeps
    cases hvalue
    obtain ⟨origin, subjectId, type, rfl⟩ := hkeeps login refreshToken rfl
    exact ⟨origin, subjectId, type, hg⟩
  | throw e =>
    rw [hp'] at hvalue
    cases hvalue
  | call call k =>
    rw [hp'] at hvalue
    cases hvalue

end

end LmsBackend.Auth
