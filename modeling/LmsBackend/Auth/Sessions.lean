import LmsBackend.Async.History
import LmsBackend.Auth.Subjects

/-!
# What a session rests on

A session shows the row of its account as it was when the call read it, and its
tokens name that account. Behind every session is a login: a password was
compared with the hash of the account, and the sessions since then have been
exchanged for one another.
-/

open Async Store

namespace LmsBackend.Auth

/-- The row of an account of either kind. -/
inductive Account where
  | student (row : User)
  | admin (row : AdminUser)
  deriving DecidableEq

namespace Account

def subject : Account → Subject
  | student row => (row.id, .student)
  | admin row => (row.id, .admin)

def email : Account → String
  | student row => row.email
  | admin row => row.email

def passwordHash : Account → String
  | student row => row.passwordHash
  | admin row => row.passwordHash

def active : Account → Bool
  | student row => row.active
  | admin row => row.active

/-- Administrators need not verify their email. -/
def verified : Account → Bool
  | student row => row.emailVerified
  | admin _ => true

/-- What `issueStudentSession` and `issueAdminSession` sign. -/
def claims : Account → AccessTokenPayload
  | student row => ⟨some row.id, some .student, some row.email, some row.locale, none⟩
  | admin row => ⟨some row.id, some .admin, some row.email, some "en", some row.role.text⟩

def response [JsString] : Account → AuthUserResponse
  | student row => ⟨row.id, row.email, row.firstName, row.lastName,
      fullName row.firstName row.lastName, row.locale, row.emailVerified, .student, none⟩
  | admin row => ⟨row.id, row.email, row.firstName, row.lastName,
      fullName row.firstName row.lastName, "en", true, .admin, some row.role⟩

/-- The row is in its table. -/
def In (w : World) : Account → Prop
  | student row => w.users.get row.id = some row
  | admin row => w.admins.get row.id = some row

/-- The call that logs in to the account. -/
def login : Account → (email password : String) → Task
  | student _ => .loginStudent
  | admin _ => .loginAdmin

end Account

/-! ## Behind a session is a login -/

/-- The call is a login that has found the active row by its email. -/
def Finds [JsString] (c : Pool) (j : Nat) (a : Account) (password : String) : Prop :=
  ∃ email, c.task? j = some (a.login email password) ∧ a.email = normalise email ∧
    a.active = true ∧ ∃ e ∈ c.log, e.proc = j ∧ a.In e.before

/-- A login to the account has presented its password. -/
def LoggedIn [Bcrypt] [JsString] (c : Pool) (s : Subject) : Prop :=
  ∃ j a password, a.subject = s ∧ Finds c j a password ∧ a.verified = true ∧
    Bcrypt.compare password a.passwordHash = true

namespace Errand

/-- The row that a login goes on with. -/
def finds? : Errand → Option (Account × String)
  | knows user password => some (.student user, password)
  | knowsAdmin admin password => some (.admin admin, password)
  | _ => none

/-- The account that the call makes a session for. -/
def session? : Errand → Option Subject
  | entitled _ subjectId type | minted _ subjectId type _ | signedIn _ subjectId type =>
    some (subjectId, type)
  | _ => none

end Errand

variable {c c' : Pool} {i j : Nat} {g g' : Errand} {call : Call} {r : Except Err (Resp call)}
  {s : Subject}

section

variable [Bcrypt] [Jwt] [JsString] [AuthConfig] {P : Pool → PoolLabel → Prop}

omit [Bcrypt] [Jwt] [AuthConfig] in
theorem Finds.mono {a : Account} {password : String} (h : Finds c j a password)
    (htask : ∀ t, c.task? j = some t → c'.task? j = some t) (hlog : ∀ e ∈ c.log, e ∈ c'.log) :
    Finds c' j a password := by
  obtain ⟨email, ht, hemail, hactive, e, he, hproc, hin⟩ := h
  exact ⟨email, htask _ ht, hemail, hactive, e, hlog e he, hproc, hin⟩

omit [Jwt] [AuthConfig] in
theorem LoggedIn.mono (h : LoggedIn c s)
    (htask : ∀ j t, c.task? j = some t → c'.task? j = some t) (hlog : ∀ e ∈ c.log, e ∈ c'.log) :
    LoggedIn c' s := by
  obtain ⟨j, a, password, hs, hfinds, hrest⟩ := h
  exact ⟨j, a, password, hs, hfinds.mono (htask j) hlog, hrest⟩

/-- Whatever stands for a session rests on a login. -/
structure Earned (c : Pool) : Prop where
  finds : ∀ j g a password, errand.phase c j = some g → g.finds? = some (a, password) →
    Finds c j a password
  session : ∀ j g s, errand.phase c j = some g → g.session? = some s → LoggedIn c s
  signed : ∀ payload, Signed c payload → LoggedIn c (payload.sub, payload.type)

omit [Jwt] [AuthConfig] in
theorem Earned.mono (h : Earned c) (hphase : ∀ j g, errand.phase c' j = some g →
      errand.phase c j = some g ∨ g.finds? = none ∧ g.session? = none)
    (htask : ∀ j t, c.task? j = some t → c'.task? j = some t) (hlog : c'.log = c.log) :
    Earned c' := by
  have hmem : ∀ e ∈ c.log, e ∈ c'.log := fun e he => hlog ▸ he
  constructor
  · intro j g a password hg hfinds
    rcases hphase j g hg with hg | ⟨hnone, -⟩
    · exact (h.finds j g a password hg hfinds).mono (htask j) hmem
    · rw [hnone] at hfinds
      cases hfinds
  · intro j g s hg hsession
    rcases hphase j g hg with hg | ⟨-, hnone⟩
    · exact (h.session j g s hg hsession).mono htask hmem
    · rw [hnone] at hsession
      cases hsession
  · rintro payload ⟨e, he, hsigned⟩
    exact (h.signed payload ⟨e, hlog ▸ he, hsigned⟩).mono htask hmem

theorem Earned.finds_own (hm : Moved errand authSystem c c' i call r g g') (h : Earned c)
    {a : Account} {password : String} (hfinds : g'.finds? = some (a, password)) :
    Finds c' i a password := by
  obtain ⟨t, ht⟩ := Monitor.task_of_phase hm.before
  have hfits := fits_of_phase ht hm.before
  rw [← hm.task] at ht
  rcases moved_cases hm with ⟨-, rfl, -⟩ | ⟨answer, rfl, hn⟩
  · cases hfinds
  · have hlast : (⟨i, call, .ok answer, c.world, c'.world⟩ : Event World Call Resp Err) ∈ c'.log := by
      rw [hm.log]
      exact List.mem_append_right _ (List.mem_singleton.mpr rfl)
    have hsays := says_of_answered hm.answers
    have hbefore := hm.before
    have hold : g.finds? = some (a, password) → Finds c' i a password := fun hg =>
      (h.finds i g a password hm.before hg).mono (fun t ht => (hm.task i).trans ht) (log_mono hm)
    cases hn with
    | @findUser email _ user hactive =>
      cases hfinds
      obtain ⟨email', rfl, rfl⟩ := hfits
      have hfind : some user = c.world.users.rows.find? (·.email = normalise email') := hsays
      have hemail : user.email = normalise email' := by simpa using List.find?_some hfind.symm
      refine ⟨email', ht, hemail, hactive, _, hlast, rfl, ?_⟩
      exact Table.mem_rows_iff.mp (List.mem_of_find?_eq_some hfind.symm)
    | @findAdmin email _ admin hactive =>
      cases hfinds
      obtain ⟨email', rfl, rfl⟩ := hfits
      have hfind : some admin = c.world.admins.rows.find? (·.email = normalise email') := hsays
      have hemail : admin.email = normalise email' := by simpa using List.find?_some hfind.symm
      refine ⟨email', ht, hemail, hactive, _, hlast, rfl, ?_⟩
      exact Table.mem_rows_iff.mp (List.mem_of_find?_eq_some hfind.symm)
    | _ => first | exact hold hfinds | cases hfinds

theorem Earned.session_own (hm : Moved errand authSystem c c' i call r g g') (h : Earned c)
    (hsigned : ∀ payload, g.payload? = some payload → Signed c payload)
    (hsession : g'.session? = some s) : LoggedIn c s := by
  rcases moved_cases hm with ⟨-, rfl, -⟩ | ⟨answer, rfl, hn⟩
  · cases hsession
  · have hsays := says_of_answered hm.answers
    have hbefore := hm.before
    cases hn with
    | @letIn user password hverified =>
      cases hsession
      exact ⟨i, .student user, password, rfl, h.finds i _ _ _ hbefore rfl, hverified, hsays.symm⟩
    | @letInAdmin admin password =>
      cases hsession
      exact ⟨i, .admin admin, password, rfl, h.finds i _ _ _ hbefore rfl, rfl, hsays.symm⟩
    | @renew payload user htype =>
      cases hsession
      have hget : some user = c.world.users.get payload.sub := hsays
      rw [show user.id = payload.sub from Table.key_of_get hget.symm, ← htype]
      exact h.signed payload (hsigned payload rfl)
    | @renewAdmin payload admin htype =>
      cases hsession
      have hget : some admin = c.world.admins.get payload.sub := hsays
      rw [show admin.id = payload.sub from Table.key_of_get hget.symm, ← htype]
      exact h.signed payload (hsigned payload rfl)
    | _ => first | exact h.session i _ s hbefore hsession | cases hsession

/-- A row of `refresh_tokens` is made for the account of the session. -/
theorem session_of_mints (hm : Moved errand authSystem c c' i call r g g') {row : RefreshToken}
    (hmints : call.mints r = some row) (howner : row.owner = some s) : g.session? = some s := by
  rcases moved_cases hm with ⟨-, -, e, rfl⟩ | ⟨a, rfl, hn⟩
  · cases call <;> cases hmints
  · have hanswers := hm.answers
    cases hn with
    | stop hc => cases call <;> first | (cases hmints; done) | cases hc
    | mint howner' =>
      have hinserted := inserted_of_mint hanswers
      cases hmints
      rw [hinserted] at howner
      exact howner'.symm.trans howner
    | _ => cases hmints

theorem Earned.move (hm : Moved errand authSystem c c' i call r g g') (h : Earned c)
    (hsigned : ∀ payload, g.payload? = some payload → Signed c payload) : Earned c' := by
  have htask : ∀ j t, c.task? j = some t → c'.task? j = some t := fun j t ht => (hm.task j).trans ht
  constructor
  · intro j gj a password hj hfinds
    rcases hm.phase_cases hj with ⟨rfl, rfl⟩ | ⟨-, hj⟩
    · exact h.finds_own hm hfinds
    · exact (h.finds j gj a password hj hfinds).mono (htask j) (log_mono hm)
  · intro j gj s hj hsession
    rcases hm.phase_cases hj with ⟨rfl, rfl⟩ | ⟨-, hj⟩
    · exact (h.session_own hm hsigned hsession).mono htask (log_mono hm)
    · exact (h.session j gj s hj hsession).mono htask (log_mono hm)
  · rintro payload ⟨e, he, row, hmints, hid, howner⟩
    rw [hm.log, List.mem_append, List.mem_singleton] at he
    rcases he with he | rfl
    · exact (h.signed payload ⟨e, he, row, hmints, hid, howner⟩).mono htask (log_mono hm)
    · exact (h.session i g _ hm.before (session_of_mints hm hmints howner)).mono htask (log_mono hm)

theorem earned (hr : Reach authSystem NoTokens Unforged c) : Earned c := by
  refine errand_invariant ?_ ?_ ?_ ?_ hr
  · intro w _
    refine ⟨fun j g a password hg => ?_, fun j g s hg => ?_, ?_⟩
    · cases hg
    · cases hg
    · rintro payload ⟨e, he, -⟩
      cases he
  · intro c t hr hI _
    refine hI.mono (fun j g hg => ?_) (fun j t ht => c.task?_start authSystem ht) rfl
    rcases begun_cases hr hg with hg | ⟨-, rfl⟩
    · exact .inl hg
    · exact .inr (by cases t <;> exact ⟨rfl, rfl⟩)
  · intro c ms hr hI
    refine hI.mono (fun j g hg => .inl (waited_phase hr hg))
      (fun j t ht => c.task?_start authSystem ht) rfl
  · intro c c' i call r g g' hr hI _ hm
    exact hI.move hm fun payload => signed_of_phase hr hm.before

/-- Every row has been inserted by a call, for the account that owns it. -/
theorem signed_of_row (hr : Reach authSystem NoTokens P c) :
    ∀ t ∈ c.world.refreshTokens.rows, ∃ s, t.owner = some s ∧ Signed c ⟨s.1, s.2, t.id⟩ := by
  refine errand_invariant (I := fun c => ∀ t ∈ c.world.refreshTokens.rows, ∃ s, t.owner = some s ∧
    Signed c ⟨s.1, s.2, t.id⟩) ?_ ?_ ?_ ?_ hr
  · intro w hw t ht
    rw [show (Config.initial w : Pool).world.refreshTokens.rows = [] from hw] at ht
    cases ht
  · intro c t hr hI _
    exact hI
  · intro c ms hr hI
    exact hI
  · intro c c' i call r g g' hr hI _ hm t ht
    rcases (answered_tokens hm.answers).origin ht with ⟨t₀, ht₀, hid, howner⟩ | hmints
    · obtain ⟨s, hs, hsigned⟩ := hI t₀ ht₀
      exact ⟨s, howner ▸ hs, hid ▸ hsigned.mono (log_mono hm)⟩
    · obtain ⟨s, hs⟩ := owner_of_mints hm hmints
      refine ⟨s, hs, ⟨i, call, r, c.world, c'.world⟩, ?_, t, hmints, rfl, hs⟩
      rw [hm.log]
      exact List.mem_append_right _ (List.mem_singleton.mpr rfl)

/-- Every refresh token is of an account whose password a login has presented. -/
theorem tokens_earned (hr : Reach authSystem NoTokens Unforged c) {t : RefreshToken}
    (ht : t ∈ c.world.refreshTokens.rows) : ∃ s, t.owner = some s ∧ LoggedIn c s := by
  obtain ⟨s, howner, hsigned⟩ := signed_of_row hr t ht
  exact ⟨s, howner, (earned hr).signed _ hsigned⟩

/-! ## What a session shows -/

/-- The session shows the account, whose row the call has read, and its tokens name it. The call has
read the clock for them. -/
structure Grants (c : Pool) (i : Nat) (login : LoginResponse) (refreshToken : String) (a : Account) :
    Prop where
  active : a.active = true
  read : ∃ e ∈ c.log, e.proc = i ∧ a.In e.before
  login : ∃ e ∈ c.log, e.proc = i ∧ login = ⟨Jwt.sign (.access a.claims) AuthConfig.jwtSecret
    AuthConfig.accessTtlSec e.before.now, AuthConfig.accessTtlSec, a.response⟩
  refreshToken : ∃ jti iat, refreshToken = Jwt.sign (.refresh ⟨a.subject.1, a.subject.2, jti⟩)
      AuthConfig.jwtRefreshSecret AuthConfig.refreshTtlSec iat ∧
    Signed c ⟨a.subject.1, a.subject.2, jti⟩

/-- The row of a refresh token for the account is among what was inserted. -/
def MintedIn (es : List (Event World Call Resp Err)) (subjectId : Id) (type : AccountType) (jti : Nat) :
    Prop :=
  ∃ e ∈ es, ∃ row, e.call.mints e.res = some row ∧ row.id = jti ∧ row.owner = some (subjectId, type)

variable {es : List (Event World Call Resp Err)}

open AuthService

theorem issueRefreshToken_tells {subjectId : Id} {type : AccountType} {token : String}
    (hes : ∀ e ∈ es, Answered authSystem e.proc e.call e.before e.res e.after)
    (h : Tells (issueRefreshToken subjectId type) es (.ok token)) :
    ∃ jti iat, token = Jwt.sign (.refresh ⟨subjectId, type, jti⟩) AuthConfig.jwtRefreshSecret
      AuthConfig.refreshTtlSec iat ∧ MintedIn es subjectId type jti := by
  obtain ⟨_, now, _, _, es₁, rfl, h₁, -, hes₁⟩ := Tells.awaited hes h
  obtain ⟨_, inserted, _, _, es₂, rfl, h₂, hsave, -⟩ := Tells.awaited hes₁ h₁
  have hinserted := inserted_of_mint hsave
  obtain ⟨_, iat, _, _, es₃, rfl, h₃⟩ := Tells.await h₂
  obtain ⟨_, tokenHash, _, _, es₄, rfl, h₄⟩ := Tells.await h₃
  obtain ⟨_, _, _, _, es₅, rfl, h₅⟩ := Tells.await h₄
  cases h₅
  refine ⟨inserted.id, iat, rfl, _, List.mem_cons_of_mem _ List.mem_cons_self, inserted, rfl, rfl, ?_⟩
  rw [hinserted]
  cases type <;> rfl

/-- `issueStudentSession` and `issueAdminSession` differ in the claims and in the response. -/
theorem issueSession_tells {payload : AccessTokenPayload} {subjectId : Id} {type : AccountType}
    {f : String → LoginResponse} {login : LoginResponse} {token : String}
    (hes : ∀ e ∈ es, Answered authSystem e.proc e.call e.before e.res e.after)
    (h : Tells (do
      let accessToken ← signAccess payload
      let refreshToken ← issueRefreshToken subjectId type
      pure (f accessToken, refreshToken)) es (.ok (login, token))) :
    (∃ e ∈ es, login = f (Jwt.sign (.access payload) AuthConfig.jwtSecret AuthConfig.accessTtlSec
        e.before.now)) ∧
      ∃ jti iat, token = Jwt.sign (.refresh ⟨subjectId, type, jti⟩) AuthConfig.jwtRefreshSecret
        AuthConfig.refreshTtlSec iat ∧ MintedIn es subjectId type jti := by
  obtain ⟨es₁, es₂, access, rfl, haccess, h₁⟩ := Tells.bind h
  obtain ⟨_, iat, w, _, es₃, rfl, hret, hclock, -⟩ :=
    Tells.awaited (fun e he => hes e (by simp [he])) haccess
  have hiat : iat = w.now := says_of_answered hclock
  cases hret
  obtain ⟨es₄, es₅, token', rfl, htoken, h₂⟩ := Tells.bind h₁
  cases h₂
  obtain ⟨jti, iat', htoken, e, he, hrow⟩ := issueRefreshToken_tells
    (fun e he => hes e (by simp [he])) htoken
  exact ⟨⟨_, List.mem_cons_self, by rw [hiat]⟩, jti, iat', htoken, e, by simp [he], hrow⟩

/-- The call that issues the session of the account. -/
def Account.issue : Account → Promise (LoginResponse × String)
  | student row => issueStudentSession row
  | admin row => issueAdminSession row

/-- The program has read the active row of the account, and has issued its session after that. -/
def Issues (es : List (Event World Call Resp Err)) (out : LoginResponse × String) (a : Account) :
    Prop :=
  a.active = true ∧ (∃ e ∈ es, a.In e.before) ∧ ∃ es', es' <:+ es ∧ Tells a.issue es' (.ok out)

theorem Issues.grants {a : Account} {login : LoginResponse} {token : String}
    (hr : c.Told authSystem) (h : Issues (c.history i) (login, token) a) :
    Grants c i login token a := by
  obtain ⟨hactive, ⟨e, he, hin⟩, es', hsuffix, htells⟩ := h
  have hmem : ∀ e ∈ es', e ∈ c.log := fun e he => (Config.mem_history.mp (hsuffix.subset he)).1
  have hproc : ∀ e ∈ es', e.proc = i := fun e he => (Config.mem_history.mp (hsuffix.subset he)).2
  have hes : ∀ e ∈ es', Answered authSystem e.proc e.call e.before e.res e.after :=
    fun e he => hr.answered e (hmem e he)
  have hread := Config.mem_history.mp he
  cases a with
  | student row =>
    obtain ⟨⟨e₁, he₁, hlogin⟩, jti, iat, htoken, e₂, he₂, hrow⟩ := issueSession_tells hes htells
    exact ⟨hactive, ⟨e, hread.1, hread.2, hin⟩, ⟨e₁, hmem e₁ he₁, hproc e₁ he₁, hlogin⟩,
      jti, iat, htoken, e₂, hmem e₂ he₂, hrow⟩
  | admin row =>
    obtain ⟨⟨e₁, he₁, hlogin⟩, jti, iat, htoken, e₂, he₂, hrow⟩ := issueSession_tells hes htells
    exact ⟨hactive, ⟨e, hread.1, hread.2, hin⟩, ⟨e₁, hmem e₁ he₁, hproc e₁ he₁, hlogin⟩,
      jti, iat, htoken, e₂, hmem e₂ he₂, hrow⟩

omit [Bcrypt] in
theorem Issues.cons {e : Event World Call Resp Err} {out : LoginResponse × String} {a : Account}
    (h : Issues es out a) : Issues (e :: es) out a := by
  obtain ⟨hactive, ⟨e', he', hin⟩, es', hsuffix, htells⟩ := h
  exact ⟨hactive, ⟨e', List.mem_cons_of_mem _ he', hin⟩, es', hsuffix.trans (List.suffix_cons _ _),
    htells⟩

theorem loginStudent_tells {email password : String} {out : LoginResponse × String}
    (hes : ∀ e ∈ es, Answered authSystem e.proc e.call e.before e.res e.after)
    (h : Tells (loginStudent email password) es (.ok out)) : ∃ a, Issues es out a := by
  obtain ⟨_, user?, w, _, es₁, rfl, h₁, hread, -⟩ := Tells.awaited hes h
  have hfind : user? = w.users.rows.find? (·.email = normalise email) := says_of_answered hread
  cases huser : user?.filter (·.active) with
  | none =>
    rw [huser] at h₁
    obtain ⟨_, _, _, _, es₂, rfl, h₂⟩ := Tells.await h₁
    cases h₂
  | some user =>
    rw [huser] at h₁
    obtain ⟨rfl, hactive⟩ := Option.filter_eq_some_iff.mp huser
    obtain ⟨_, ok, _, _, es₂, rfl, h₂⟩ := Tells.await h₁
    split at h₂
    · cases h₂
    · split at h₂
      · cases h₂
      · refine ⟨.student user, hactive, ⟨_, List.mem_cons_self, ?_⟩, es₂, ?_, h₂⟩
        · exact Table.mem_rows_iff.mp (List.mem_of_find?_eq_some hfind.symm)
        · exact (List.suffix_cons _ _).trans (List.suffix_cons _ _)

theorem loginAdmin_tells {email password : String} {out : LoginResponse × String}
    (hes : ∀ e ∈ es, Answered authSystem e.proc e.call e.before e.res e.after)
    (h : Tells (loginAdmin email password) es (.ok out)) : ∃ a, Issues es out a := by
  obtain ⟨_, admin?, w, _, es₁, rfl, h₁, hread, -⟩ := Tells.awaited hes h
  have hfind : admin? = w.admins.rows.find? (·.email = normalise email) := says_of_answered hread
  cases hadmin : admin?.filter (·.active) with
  | none =>
    rw [hadmin] at h₁
    obtain ⟨_, _, _, _, es₂, rfl, h₂⟩ := Tells.await h₁
    cases h₂
  | some admin =>
    rw [hadmin] at h₁
    obtain ⟨rfl, hactive⟩ := Option.filter_eq_some_iff.mp hadmin
    obtain ⟨_, ok, _, _, es₂, rfl, h₂⟩ := Tells.await h₁
    split at h₂
    · cases h₂
    · refine ⟨.admin admin, hactive, ⟨_, List.mem_cons_self, ?_⟩, es₂, ?_, h₂⟩
      · exact Table.mem_rows_iff.mp (List.mem_of_find?_eq_some hfind.symm)
      · exact (List.suffix_cons _ _).trans (List.suffix_cons _ _)

omit [Bcrypt] [Jwt] [JsString] [AuthConfig] in
theorem endSessions_tells {payload : RefreshTokenPayload} {out : LoginResponse × String} :
    ¬Tells (endSessions payload) es (.ok out) := by
  intro h
  obtain ⟨es₁, es₂, _, rfl, -, h₁⟩ := Tells.bind h
  cases h₁

/-- The end of `refresh`, for a student. -/
theorem renew_tells {id : Id} {out : LoginResponse × String}
    (hes : ∀ e ∈ es, Answered authSystem e.proc e.call e.before e.res e.after)
    (h : Tells (do
      let user? ← await (.usersFindById id)
      match user?.filter (·.active) with
      | none => throw (.unauthorized "Account is inactive")
      | some user => issueStudentSession user) es (.ok out)) : ∃ a, Issues es out a := by
  obtain ⟨_, user?, w, _, es₁, rfl, h₁, hread, -⟩ := Tells.awaited hes h
  have hget : user? = w.users.get id := says_of_answered hread
  cases huser : user?.filter (·.active) with
  | none =>
    rw [huser] at h₁
    cases h₁
  | some user =>
    rw [huser] at h₁
    obtain ⟨rfl, hactive⟩ := Option.filter_eq_some_iff.mp huser
    obtain rfl : user.id = id := Table.key_of_get hget.symm
    exact ⟨.student user, hactive, ⟨_, List.mem_cons_self, hget.symm⟩, es₁, List.suffix_cons _ _, h₁⟩

/-- The end of `refresh`, for an administrator. -/
theorem renewAdmin_tells {id : Id} {out : LoginResponse × String}
    (hes : ∀ e ∈ es, Answered authSystem e.proc e.call e.before e.res e.after)
    (h : Tells (do
      let admin? ← await (.adminsFindById id)
      match admin?.filter (·.active) with
      | none => throw (.unauthorized "Account is inactive")
      | some admin => issueAdminSession admin) es (.ok out)) : ∃ a, Issues es out a := by
  obtain ⟨_, admin?, w, _, es₁, rfl, h₁, hread, -⟩ := Tells.awaited hes h
  have hget : admin? = w.admins.get id := says_of_answered hread
  cases hadmin : admin?.filter (·.active) with
  | none =>
    rw [hadmin] at h₁
    cases h₁
  | some admin =>
    rw [hadmin] at h₁
    obtain ⟨rfl, hactive⟩ := Option.filter_eq_some_iff.mp hadmin
    obtain rfl : admin.id = id := Table.key_of_get hget.symm
    exact ⟨.admin admin, hactive, ⟨_, List.mem_cons_self, hget.symm⟩, es₁, List.suffix_cons _ _, h₁⟩

theorem refresh_tells {payload : RefreshTokenPayload} {rawToken : String}
    {out : LoginResponse × String}
    (hes : ∀ e ∈ es, Answered authSystem e.proc e.call e.before e.res e.after)
    (h : Tells (refresh payload rawToken) es (.ok out)) : ∃ a, Issues es out a := by
  obtain ⟨_, stored?, _, _, es₁, rfl, h₁, -, hes₁⟩ := Tells.awaited hes h
  cases stored? with
  | none => cases h₁
  | some stored =>
    obtain ⟨_, now, _, _, es₂, rfl, h₂, -, hes₂⟩ := Tells.awaited hes₁ h₁
    split at h₂
    · cases h₂
    · split at h₂
      · exact absurd h₂ endSessions_tells
      · obtain ⟨_, ok, _, _, es₃, rfl, h₃, -, hes₃⟩ := Tells.awaited hes₂ h₂
        split at h₃
        · cases h₃
        · obtain ⟨_, revokedAt, _, _, es₄, rfl, h₄, -, hes₄⟩ := Tells.awaited hes₃ h₃
          obtain ⟨_, affected, _, _, es₅, rfl, h₅, -, hes₅⟩ := Tells.awaited hes₄ h₄
          split at h₅
          · exact absurd h₅ endSessions_tells
          · split at h₅
            · obtain ⟨a, ha⟩ := renewAdmin_tells hes₅ h₅
              exact ⟨a, ha.cons.cons.cons.cons.cons⟩
            · obtain ⟨a, ha⟩ := renew_tells hes₅ h₅
              exact ⟨a, ha.cons.cons.cons.cons.cons⟩

/-- Every session is of an active account that a login has presented the password of. -/
theorem session_earned (hr : Reach authSystem NoTokens Unforged c) {login : LoginResponse}
    {refreshToken : String} (hreply : c.reply? i = some (.session login refreshToken)) :
    ∃ a, Grants c i login refreshToken a ∧ LoggedIn c a.subject := by
  have hes : ∀ e ∈ c.history i, Answered authSystem e.proc e.call e.before e.res e.after :=
    fun e he => hr.told.answered e (Config.mem_history.mp he).1
  obtain ⟨t, ht⟩ : ∃ t, c.task? i = some t := by
    obtain ⟨_, _, _, hg⟩ := signedIn_of_reply hr hreply
    exact Monitor.task_of_phase hg
  obtain ⟨a, ha⟩ : ∃ a, Issues (c.history i) (login, refreshToken) a := by
    have htells := hr.tells ht hreply
    cases t with
    | loginStudent email password =>
      obtain ⟨es₁, es₂, out, hes', hlogin, hret⟩ := Tells.bind htells
      cases hret
      rw [hes', List.append_nil] at hes ⊢
      exact loginStudent_tells hes hlogin
    | loginAdmin email password =>
      obtain ⟨es₁, es₂, out, hes', hlogin, hret⟩ := Tells.bind htells
      cases hret
      rw [hes', List.append_nil] at hes ⊢
      exact loginAdmin_tells hes hlogin
    | refresh payload rawToken =>
      obtain ⟨es₁, es₂, out, hes', hrefresh, hret⟩ := Tells.bind htells
      cases hret
      rw [hes', List.append_nil] at hes ⊢
      exact refresh_tells hes hrefresh
    | _ =>
      obtain ⟨es₁, es₂, out, hes', -, hret⟩ := Tells.bind htells
      cases hret
  have hgrants := ha.grants hr.told
  obtain ⟨jti, iat, -, hsigned⟩ := hgrants.refreshToken
  exact ⟨a, hgrants, (earned hr).signed _ hsigned⟩

end

def Reply.isSession : Reply → Bool
  | session _ _ => true
  | _ => false

set_option maxRecDepth 100000 in
/-- A login and two uses of its refresh token: there are two tokens by then. -/
theorem tokens_earned_refresh : ∃ c, Reach bureauSystem NoTokens Unforged c ∧
    c.world.refreshTokens.rows.map (·.id) = [1, 2] ∧
    ∀ t ∈ c.world.refreshTokens.rows, ∃ s, t.owner = some s ∧
      @LoggedIn Exams.plainBcrypt plainString c s := by
  obtain ⟨c, hc, hp⟩ := (Option.any_eq_true _ _).mp (show
    (runIf bureauSystem Unforged refreshesTwice (.initial bureau)).any (fun c =>
      c.world.refreshTokens.rows.map (·.id) = [1, 2]) = true by decide)
  have hr : Reach bureauSystem NoTokens Unforged c := runIf_reach (.init (show NoTokens bureau from rfl)) hc
  refine ⟨c, hr, of_decide_eq_true hp, fun t ht => ?_⟩
  exact @tokens_earned _ Exams.plainBcrypt plainJwt plainString development hr t ht

end LmsBackend.Auth
