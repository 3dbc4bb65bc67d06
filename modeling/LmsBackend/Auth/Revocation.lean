import LmsBackend.Async.Monitor
import LmsBackend.Auth.Tokens

/-!
# Revoking every token of an account

`refresh`, `resetPassword` and `changePassword` revoke the tokens that are there
when their UPDATE runs. A login or a refresh that began earlier can still save
its token afterwards, and nothing else brings a token back.
-/

open Async Store

namespace LmsBackend.Auth

/-! ## Where a call is on its way to the UPDATE -/

inductive Revoking where
  /-- It does not revoke all tokens from here on. -/
  | other
  | refreshing (payload : RefreshTokenPayload)
  /-- It is about to look whether the row has expired. -/
  | found (payload : RefreshTokenPayload) (row : RefreshToken)
  /-- The row is neither expired nor revoked. -/
  | checked (payload : RefreshTokenPayload)
  | leaving
  | resetting
  | changing (userId : Id)
  /-- Only the UPDATE is left to do. -/
  | due (subjectId : Id) (type : AccountType)
  | done
  | failed

namespace Revoking

def start : Task → Revoking
  | .refresh payload _ => .refreshing payload
  | .logout _ => .leaving
  | .resetPassword _ _ => .resetting
  | .changePassword userId _ _ => .changing userId
  | _ => .other

def nextOk (g : Revoking) : (c : Call) → Resp c → Option Revoking
  | .refreshTokensFindOne _, row? =>
    match g with
    | .refreshing payload =>
      some (match row? with
        | some row => .found payload row
        | none => .failed)
    | _ => none
  | .now, now =>
    match g with
    | .found payload row =>
      some (if row.expiresAt < now then .failed
        else if row.revokedAt ≠ none then .due payload.sub payload.type else .checked payload)
    | .refreshing _ | .done | .failed => none
    | g => some g
  | .refreshTokensRevoke _ _, affected =>
    match g with
    | .checked payload =>
      some (if affected ≠ 1 then .due payload.sub payload.type else .other)
    | .leaving => some .other
    | _ => none
  | .usersUpdatePassword id _, _ =>
    match g with
    | .resetting => some (.due id .student)
    | .changing userId => if id = userId then some (.due userId .student) else none
    | _ => none
  | .refreshTokensRevokeAll subjectId type _, _ =>
    match g with
    | .due subjectId' type' => if subjectId = subjectId' ∧ type = type' then some .done else none
    | _ => none
  | _, _ =>
    match g with
    | .other | .checked _ | .resetting | .changing _ => some g
    | _ => none

/-- After a call that has rejected, only an error is left, except where it is caught. -/
def reject : Revoking → Call → Revoking
  | .other, _ => .other
  | _, _ => .failed

def final (r : Except Err Reply) : Revoking → Prop
  | .other | .done => True
  | .refreshing _ | .found _ _ | .leaving | .due _ _ => False
  | .checked _ | .resetting | .changing _ | .failed => ∃ e, r = .error e

end Revoking

def revoking : Monitor Call Resp Err Reply Task Revoking where
  start := Revoking.start
  next := Revoking.nextOk
  failed := Revoking.reject
  final := Revoking.final

attribute [local simp] Revoking.nextOk

@[simp] theorem revoking_next : revoking.next = Revoking.nextOk := rfl

@[simp] theorem revoking_failed : revoking.failed = Revoking.reject := rfl

section

open AuthService Revoking

variable {g : Revoking}

/-- What a call does that revokes nothing. -/
abbrev Others {α : Type} (p : Promise α) : Prop :=
  revoking.wp p .other (fun _ g => g = .other) fun _ g => g = .other

theorem issueAuthToken_others (userId : Id) (purpose : AuthTokenPurpose) (ttlHours : Int) :
    Others (issueAuthToken userId purpose ttlHours) := by
  simp [issueAuthToken, await, nextOk, Revoking.reject]

theorem others_await {c : Call} (h : ∀ a, nextOk .other c a = some .other) : Others (await c) :=
  (revoking.wp_await c).mpr ⟨fun a => ⟨.other, h a, rfl⟩, fun _ => rfl⟩

theorem Others.bind {α β : Type} {p : Promise α} {f : α → Promise β} (hp : Others p)
    (hf : ∀ a, Others (f a)) : Others (p.bind f) := by
  refine (revoking.wp_bind _).mpr (revoking.wp_mono hp ?_ fun _ _ h => h)
  rintro a _ rfl
  exact hf a

/-- The loop stays in its phase, or fails. -/
theorem consumeFirst_keeps (plainToken : String) (rows : List AuthToken)
    (hg : g = .other ∨ g = .resetting) :
    revoking.wp (consumeFirst plainToken rows) g (fun _ g' => g' = g)
      fun e g' => revoking.final (.error e) g' := by
  have hstay : (∀ now, g.nextOk .now now = some g) ∧
      (∀ plain hash ok, g.nextOk (.bcryptCompare plain hash) ok = some g) ∧
      ∀ id usedAt n, g.nextOk (.authTokensUse id usedAt) n = some g := by
    rcases hg with rfl | rfl <;> simp [nextOk]
  have hfail : ∀ e c, revoking.final (.error e) (g.reject c) := by
    rcases hg with rfl | rfl <;> simp [revoking, Revoking.final, Revoking.reject]
  have hself : ∀ e, revoking.final (.error e) g := by
    rcases hg with rfl | rfl <;> simp [revoking, Revoking.final]
  induction rows with
  | nil => exact hself _
  | cons row rows ih =>
    simp only [consumeFirst, Prog.bind_eq, await, Monitor.wp_bind, Monitor.wp_await]
    refine ⟨fun now => ⟨g, hstay.1 now, ?_⟩, fun e => hfail e _⟩
    split
    · exact ih
    · simp only [Monitor.wp_bind, Monitor.wp_await]
      refine ⟨fun ok => ⟨g, hstay.2.1 _ _ ok, ?_⟩, fun e => hfail e _⟩
      split
      · simp only [Monitor.wp_bind, Monitor.wp_await]
        refine ⟨fun usedAt => ⟨g, hstay.1 usedAt, ?_⟩, fun e => hfail e _⟩
        refine ⟨fun n => ⟨g, hstay.2.2 _ _ n, ?_⟩, fun e => hfail e _⟩
        split
        · exact hself _
        · rfl
      · exact ih

theorem consumeAuthToken_keeps (plainToken : String) (purpose : AuthTokenPurpose)
    (hg : g = .other ∨ g = .resetting) :
    revoking.wp (consumeAuthToken plainToken purpose) g (fun _ g' => g' = g)
      fun e g' => revoking.final (.error e) g' := by
  simp only [consumeAuthToken, Prog.bind_eq, await, Monitor.wp_bind, Monitor.wp_await]
  refine ⟨fun rows => ⟨g, ?_, consumeFirst_keeps plainToken rows hg⟩, fun e => ?_⟩
  · rcases hg with rfl | rfl <;> rfl
  · rcases hg with rfl | rfl <;> simp [revoking, Revoking.final, Revoking.reject]

/-- From `due` on, the call revokes all tokens or fails. -/
theorem revokeAllRefreshTokens_due (subjectId : Id) (type : AccountType) :
    revoking.wp (revokeAllRefreshTokens subjectId type) (.due subjectId type)
      (fun _ g => g = .done) fun _ g => g = .failed := by
  simp [revokeAllRefreshTokens, await, nextOk, Revoking.reject]

theorem logout_keeps (payload : RefreshTokenPayload) :
    revoking.wp (logout payload) .leaving (fun _ g => g = .other) fun _ g => g = .failed := by
  simp [logout, await, nextOk, Revoking.reject]

theorem send_others [AuthConfig] (mail : Mail) : Others (MailService.send mail) := by
  unfold MailService.send
  split <;> simp [await, nextOk, Revoking.reject]

variable [Jwt] [JsString] [AuthConfig]

theorem issueStudentSession_others (user : User) : Others (issueStudentSession user) := by
  simp [issueStudentSession, signAccess, issueRefreshToken, await, nextOk, Revoking.reject]

theorem issueAdminSession_others (admin : AdminUser) : Others (issueAdminSession admin) := by
  simp [issueAdminSession, signAccess, issueRefreshToken, await, nextOk, Revoking.reject]

omit [Jwt] in
theorem register_others (dto : RegisterDto) : Others (register dto) := by
  refine .bind (others_await fun _ => rfl) fun existing => ?_
  split
  · rfl
  · refine .bind (others_await fun _ => rfl) fun passwordHash => ?_
    refine .bind (others_await fun _ => rfl) fun user => ?_
    refine .bind (.bind (issueAuthToken_others _ _ _) fun plainToken => send_others _) fun _ => rfl

theorem loginStudent_others (email password : String) : Others (loginStudent email password) := by
  refine .bind (others_await fun _ => rfl) fun user? => ?_
  split
  · exact .bind (others_await fun _ => rfl) fun _ => rfl
  · refine .bind (others_await fun _ => rfl) fun ok => ?_
    split
    · rfl
    · split
      · rfl
      · exact issueStudentSession_others _

theorem loginAdmin_others (email password : String) : Others (loginAdmin email password) := by
  refine .bind (others_await fun _ => rfl) fun admin? => ?_
  split
  · exact .bind (others_await fun _ => rfl) fun _ => rfl
  · refine .bind (others_await fun _ => rfl) fun ok => ?_
    split
    · rfl
    · exact issueAdminSession_others _

omit [Jwt] in
theorem forgotPassword_others (email : String) : Others (forgotPassword email) := by
  refine .bind (others_await fun _ => rfl) fun user? => ?_
  split
  · rfl
  · refine Others.bind (p := issueAuthToken _ _ _) (issueAuthToken_others _ _ _) fun plainToken => ?_
    exact Others.bind (p := MailService.send _) (send_others _) fun _ => rfl

theorem refresh_keeps (payload : RefreshTokenPayload) (rawToken : String) :
    revoking.wp (refresh payload rawToken) (.refreshing payload)
      (fun _ g => g = .other) fun e g => revoking.final (.error e) g := by
  have hfail : ∀ e : Err, revoking.final (.error e) .failed := fun e => ⟨e, rfl⟩
  have hdue : revoking.wp (endSessions (α := LoginResponse × String) payload)
      (.due payload.sub payload.type) (fun _ g => g = .other)
      fun e g => revoking.final (.error e) g := by
    refine (revoking.wp_bind _).mpr
      (revoking.wp_mono (revokeAllRefreshTokens_due payload.sub payload.type) ?_ ?_)
    · rintro _ _ rfl
      trivial
    · rintro e _ rfl
      exact hfail e
  have hother : ∀ {p : Promise (LoginResponse × String)}, Others p →
      revoking.wp p .other (fun _ g => g = .other) fun e g => revoking.final (.error e) g := by
    intro p hp
    refine revoking.wp_mono hp (fun _ _ h => h) ?_
    rintro e _ rfl
    trivial
  simp only [refresh, Prog.bind_eq, await, Monitor.wp_bind, Monitor.wp_await]
  refine ⟨fun stored? => ⟨_, rfl, ?_⟩, fun e => hfail e⟩
  cases stored? with
  | none => exact hfail _
  | some stored =>
    simp only [Monitor.wp_bind, Monitor.wp_await]
    refine ⟨fun now => ⟨_, rfl, ?_⟩, fun e => hfail e⟩
    split
    · exact hfail _
    · split
      · exact hdue
      · simp only [Monitor.wp_bind, Monitor.wp_await]
        refine ⟨fun ok => ⟨.checked payload, rfl, ?_⟩, fun e => hfail e⟩
        split
        · exact ⟨_, rfl⟩
        · simp only [Monitor.wp_bind, Monitor.wp_await]
          refine ⟨fun now => ⟨.checked payload, rfl, ?_⟩, fun e => hfail e⟩
          refine ⟨fun affected => ⟨_, rfl, ?_⟩, fun e => hfail e⟩
          split
          · exact hdue
          · split
            · simp only [Monitor.wp_bind, Monitor.wp_await]
              refine ⟨fun admin? => ⟨.other, rfl, ?_⟩, fun e => trivial⟩
              split
              · trivial
              · exact hother (issueAdminSession_others _)
            · simp only [Monitor.wp_bind, Monitor.wp_await]
              refine ⟨fun user? => ⟨.other, rfl, ?_⟩, fun e => trivial⟩
              split
              · trivial
              · exact hother (issueStudentSession_others _)

theorem revoking_sound [Bcrypt] : revoking.Sound authSystem := by
  intro t
  change revoking.Keeps t.prog (Revoking.start t)
  have hother : ∀ {α : Type} {p : Promise α} (f : α → Reply), Others p →
      revoking.Keeps (p >>= fun a => pure (f a)) .other := by
    intro α p f hp
    refine (revoking.wp_bind _).mpr (revoking.wp_mono hp ?_ ?_)
    · rintro a _ rfl
      trivial
    · rintro e _ rfl
      trivial
  have hfail : ∀ e : Err, revoking.final (.error e) .failed := fun e => ⟨e, rfl⟩
  -- What `resetPassword` and `changePassword` do once the hash is written.
  have hdue : ∀ userId (message : String),
      revoking.wp (revokeAllRefreshTokens userId .student) (.due userId .student)
        (fun _ g => revoking.wp (pure message : Promise String) g (fun _ g => g = .done)
          fun e g => revoking.final (.error e) g) fun e g => revoking.final (.error e) g := by
    intro userId message
    refine revoking.wp_mono (revokeAllRefreshTokens_due userId .student) ?_ ?_
    · rintro _ _ rfl
      rfl
    · rintro e _ rfl
      exact hfail e
  have hmessage : ∀ {p : Promise String} {g : Revoking},
      revoking.wp p g (fun _ g => g = .done) (fun e g => revoking.final (.error e) g) →
      revoking.Keeps (p >>= fun message => pure (.message message)) g := by
    intro p g hp
    refine (revoking.wp_bind _).mpr (revoking.wp_mono hp ?_ fun _ _ h => h)
    rintro _ _ rfl
    trivial
  cases t with
  | register dto => exact hother (fun r : Id × String => .registered r.1 r.2) (register_others dto)
  | verifyEmail plainToken =>
    refine (revoking.wp_bind _).mpr (revoking.wp_mono
      (Q := fun _ g => g = .other) (F := fun e g => revoking.final (.error e) g) ?_ ?_ ?_)
    · refine (revoking.wp_bind _).mpr (revoking.wp_mono
        (consumeAuthToken_keeps plainToken .emailVerification (.inl rfl)) ?_ fun _ _ h => h)
      rintro userId _ rfl
      simp [start, await, nextOk, Revoking.reject, revoking, Revoking.final]
    · rintro _ _ rfl
      trivial
    · exact fun _ _ h => h
  | loginStudent email password =>
    exact hother (fun r : LoginResponse × String => .session r.1 r.2) (loginStudent_others _ _)
  | loginAdmin email password =>
    exact hother (fun r : LoginResponse × String => .session r.1 r.2) (loginAdmin_others _ _)
  | refresh payload rawToken =>
    refine (revoking.wp_bind _).mpr
      (revoking.wp_mono (refresh_keeps payload rawToken) ?_ fun _ _ h => h)
    rintro a _ rfl
    trivial
  | logout payload =>
    refine (revoking.wp_bind _).mpr (revoking.wp_mono (logout_keeps payload) ?_ ?_)
    · rintro _ _ rfl
      trivial
    · rintro e _ rfl
      exact hfail e
  | forgotPassword email => exact hother .message (forgotPassword_others email)
  | resetPassword plainToken newPassword =>
    refine hmessage ((revoking.wp_bind _).mpr (revoking.wp_mono
      (consumeAuthToken_keeps plainToken .passwordReset (.inr rfl)) ?_ fun _ _ h => h))
    rintro userId _ rfl
    simp only [Prog.bind_eq, await, Monitor.wp_bind, Monitor.wp_await]
    refine ⟨fun hash => ⟨.resetting, rfl, ?_⟩, fun e => hfail e⟩
    exact ⟨fun _ => ⟨_, rfl, hdue userId _⟩, fun e => hfail e⟩
  | changePassword userId currentPassword newPassword =>
    have hself : ∀ e : Err, revoking.final (.error e) (.changing userId) := fun e => ⟨e, rfl⟩
    refine hmessage ?_
    unfold changePassword
    split
    · exact hself _
    · simp only [Prog.bind_eq, await, Monitor.wp_bind, Monitor.wp_await]
      refine ⟨fun user? => ⟨.changing userId, rfl, ?_⟩, fun e => hfail e⟩
      split
      · exact hself _
      · simp only [Monitor.wp_bind, Monitor.wp_await]
        refine ⟨fun ok => ⟨.changing userId, rfl, ?_⟩, fun e => hfail e⟩
        split
        · exact hself _
        · simp only [Monitor.wp_bind, Monitor.wp_await]
          refine ⟨fun hash => ⟨.changing userId, rfl, ?_⟩, fun e => hfail e⟩
          exact ⟨fun _ => ⟨_, if_pos rfl, hdue userId _⟩, fun e => hfail e⟩

end

/-! ## Nothing is saved behind the UPDATE -/

/-- The token was saved by a call that is not among the first `n`. -/
def MintedSince (n : Nat) (c : Pool) (t : RefreshToken) : Prop :=
  ∃ e ∈ c.log, n ≤ e.proc ∧ ∃ row, e.call.mints e.res = some row ∧ row.id = t.id

/-- None of the first `n` calls saves a token of the account after call `d` has revoked all. -/
def SavesFirst (d n : Nat) (subjectId : Id) (type : AccountType) (c : Pool) : PoolLabel → Prop
  | .run i _ => i < n → (c.next? i).any (·.savesFor subjectId type) = true →
      ∀ e ∈ c.log, e.proc = d → e.call.revokesAll subjectId type = false
  | _ => True

instance (d n : Nat) (subjectId : Id) (type : AccountType) :
    ∀ c l, Decidable (SavesFirst d n subjectId type c l) := fun c l =>
  match l with
  | .run i _ => inferInstanceAs (Decidable (i < n → _ → ∀ e ∈ c.log, _))
  | .spawn _ | .fail _ | .env _ => .isTrue trivial

/-- How far call `d` has come from `due` on. -/
def Revoking.Cuts (d n : Nat) (subjectId : Id) (type : AccountType) (c : Pool) : Revoking → Prop
  | .due subjectId' type' => subjectId' = subjectId ∧ type' = type
  | .done => (∃ e ∈ c.log, e.proc = d ∧ e.call.revokesAll subjectId type = true) ∧
      ∀ t ∈ c.world.refreshTokens.rows, t.belongsTo subjectId type = true → t.revokedAt = none →
        MintedSince n c t
  | .failed => True
  | _ => False

section

variable [Bcrypt] [Jwt] [JsString] [AuthConfig] {c c' : Pool} {d n i : Nat} {g g' : Revoking}
  {call : Call} {r : Except Err (Resp call)} {subjectId : Id} {type : AccountType}

/-- The UPDATE of call `d` leaves no token of the account. -/
theorem Revoking.Cuts.own (hm : Moved revoking authSystem c c' d call r g g')
    (h : g.Cuts d n subjectId type c) : g'.Cuts d n subjectId type c' := by
  have hn := hm.next
  cases r with
  | error e =>
    cases hn
    cases g <;> trivial
  | ok a =>
    have hn : g.nextOk call a = some g' := hn
    cases g with
    | due subjectId' type' =>
      obtain ⟨rfl, rfl⟩ := h
      cases call with
      | now => cases hn; exact ⟨rfl, rfl⟩
      | refreshTokensRevokeAll subjectId type revokedAt =>
        have hsame : (if subjectId = subjectId' ∧ type = type' then some Revoking.done else none) =
          some g' := hn
        split at hsame
        · rename_i heq
          obtain ⟨rfl, rfl⟩ := heq
          cases hsame
          have hcall : (Call.refreshTokensRevokeAll subjectId type revokedAt).revokesAll subjectId
            type = true := by simp [Call.revokesAll]
          refine ⟨⟨_, by rw [hm.log]; exact List.mem_append_right _ (.head _), rfl, hcall⟩, ?_⟩
          intro t ht hbelongs hlive
          rw [(answered_tokens hm.answers).all_revoked hcall rfl ht hlive] at hbelongs
          cases hbelongs
        · cases hsame
      | _ => cases hn
    | done => cases call <;> cases hn
    | failed => cases call <;> cases hn
    | _ => cases h

/-- The others add no token to it but those of new calls. -/
theorem Revoking.Cuts.other (hP : Reach.Allowed authSystem (SavesFirst d n subjectId type) c i call r
      c'.world)
    (hm : Moved revoking authSystem c c' i call r g g') {gd : Revoking}
    (h : gd.Cuts d n subjectId type c) : gd.Cuts d n subjectId type c' := by
  cases gd with
  | done =>
    obtain ⟨⟨e, he, hproc, hrevoked⟩, hminted⟩ := h
    have hlog : ∀ e ∈ c.log, e ∈ c'.log := fun e he => by
      rw [hm.log]
      exact List.mem_append_left _ he
    refine ⟨⟨e, hlog e he, hproc, hrevoked⟩, fun t ht hbelongs hlive => ?_⟩
    rcases (answered_tokens hm.answers).token ht hlive with
      ⟨t₀, ht₀, hid, hlive₀, hbelongs₀⟩ | ⟨hmints, hsaves⟩
    · obtain ⟨e', he', hsince, row, hrow, hid'⟩ :=
        hminted t₀ ht₀ ((hbelongs₀ _ _).trans hbelongs) hlive₀
      exact ⟨e', hlog e' he', hsince, row, hrow, hid'.trans hid⟩
    · refine ⟨⟨i, call, r, c.world, c'.world⟩, ?_, ?_, t, hmints, rfl⟩
      · rw [hm.log]
        exact List.mem_append_right _ (.head _)
      · -- One of the first `n` would save its token behind the UPDATE.
        by_contra hold
        cases r with
        | error e => cases call <;> cases hmints
        | ok a =>
          obtain ⟨x, hguard⟩ := hP.guard
          have := hguard (Nat.lt_of_not_le hold) (by simp [hm.waits, hsaves, hbelongs]) e he hproc
          rw [hrevoked] at this
          cases this
  | due => exact h
  | failed => trivial
  | _ => cases h

theorem Revoking.Cuts.start (ts : List Task) {w : World}
    (hw : w.refreshTokens = c.world.refreshTokens) {gd : Revoking}
    (h : gd.Cuts d n subjectId type c) : gd.Cuts d n subjectId type (c.start authSystem ts w) := by
  cases gd with
  | done =>
    obtain ⟨hevent, hminted⟩ := h
    refine ⟨hevent, fun t ht => ?_⟩
    rw [Config.start_world, hw] at ht
    exact hminted t ht
  | due => exact h
  | failed => trivial
  | _ => cases h

/-- From where call `d` only has to revoke all tokens of the account, to any later state. -/
theorem revoking_cuts {c₁ c₂ : Pool} (hr : Reachable anyStep c₁)
    (hd : revoking.phase c₁ d = some (.due subjectId type))
    (hs : Steps authSystem (SavesFirst d n subjectId type) c₁ c₂) :
    Reachable anyStep c₂ ∧ ∃ g, revoking.phase c₂ d = some g ∧ g.Cuts d n subjectId type c₂ := by
  refine Reach.later (I := fun c => ∃ g, revoking.phase c d = some g ∧
    g.Cuts d n subjectId type c) revoking_sound ?_ ?_ ?_ hr ⟨_, hd, rfl, rfl⟩ hs
  · rintro c t _ ⟨g, hg, hI⟩ _ _
    exact ⟨g, by rwa [Monitor.phase_start_of_lt (Monitor.lt_of_phase hg)], hI.start [t] rfl⟩
  · rintro c v w ts _ ⟨g, hg, hI⟩ _ hv
    cases hv
    exact ⟨g, by rwa [Monitor.phase_start_of_lt (Monitor.lt_of_phase hg)], hI.start [] rfl⟩
  · rintro c c' i call r g g' _ ⟨gd, hgd, hI⟩ hP hm
    by_cases hi : d = i
    · subst hi
      cases hm.before.symm.trans hgd
      exact ⟨g', hm.after, hI.own hm⟩
    · exact ⟨gd, (hm.other d hi).trans hgd, hI.other hP hm⟩

end

/-! ## Runs -/

/-- Stands in for the package in runs: no two tokens are the same. -/
@[reducible] def plainJwt : Jwt where
  sign payload _ _ _ :=
    match payload with
    | .access _ => "access"
    | .refresh payload => payload.sub ++ String.ofList (List.replicate payload.jti '#')

@[reducible] def plainString : JsString where
  trim s := s
  toLowerCase s := s

@[reducible] def development : AuthConfig where
  jwtSecret := "access secret"
  jwtRefreshSecret := "refresh secret"
  accessTtlSec := 900
  refreshTtlSec := 604800
  isProd := false

/-- One student, who has never logged in. -/
def bureau : World where
  now := 0
  users := Table.empty.put ⟨"U", "u@example.com", "old", "A", "B",
    ⟨none, none, none, none, none, none, none, none, none⟩, "en", true, some 0, true⟩
  admins := .empty
  refreshTokens := .empty
  refreshTokenSeq := 1
  authTokens := .empty
  authTokenSeq := 1
  sent := []

theorem bureau_initial : Initial bureau := by
  constructor
  decide

abbrev bureauSystem : System World Call Resp Err Reply Task Choice Tick :=
  @authSystem Exams.plainBcrypt plainJwt plainString development

/-- The next `n` calls of process `i`. -/
def calls (i n : Nat) : List PoolLabel := List.replicate n (.run i "salt")

/-- A run of the bureau and one that goes on from where it ends, with `p`. -/
theorem exists_runs {Q : Pool → PoolLabel → Prop} [∀ c l, Decidable (Q c l)]
    (ls₁ ls₂ : List PoolLabel) {p : Pool → Pool → Prop} [∀ c₁ c₂, Decidable (p c₁ c₂)]
    (h : (runIf bureauSystem anyStep ls₁ (.initial bureau)).any (fun c₁ =>
      (runIf bureauSystem Q ls₂ c₁).any fun c₂ => p c₁ c₂) = true) :
    ∃ c₁ c₂, Reach bureauSystem Initial anyStep c₁ ∧ Steps bureauSystem Q c₁ c₂ ∧ p c₁ c₂ := by
  obtain ⟨c₁, hc₁, h⟩ := (Option.any_eq_true _ _).mp h
  obtain ⟨c₂, hc₂, hp⟩ := (Option.any_eq_true _ _).mp h
  exact ⟨c₁, c₂, runIf_reach (.init bureau_initial) hc₁, runIf_steps hc₂, by simpa using hp⟩

end LmsBackend.Auth
