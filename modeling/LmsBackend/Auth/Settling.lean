import LmsBackend.Auth.Subjects
import LmsBackend.Auth.PasswordPolicy

/-!
# From the write of a password to the end of its call

What follows the write of a password hash cannot refuse any more: only the
database can make the call fail.
-/

open Async Store

namespace LmsBackend.Auth

inductive Settling where
  /-- No password hash has been written. -/
  | unset
  | set
  /-- A call has rejected after the write. -/
  | lost
  deriving DecidableEq

/-- A mail that cannot be sent does not matter. -/
def Call.mails : Call → Bool
  | .sgMailSend _ => true
  | _ => false

namespace Settling

def nextOk (g : Settling) (c : Call) (_ : Resp c) : Option Settling :=
  match g, c with
  | .unset, .usersSave _ | .unset, .usersUpdatePassword _ _ => some .set
  | g, _ => some g

def reject : Settling → Call → Settling
  | .set, c => if c.mails then .set else .lost
  | g, _ => g

/-- After the write the call returns. -/
def final (r : Except Err Reply) (g : Settling) : Prop := g = .set → r.isOk = true

end Settling

def settling : Monitor Call Resp Err Reply Task Settling where
  start _ := .unset
  next := Settling.nextOk
  failed := Settling.reject
  final := Settling.final

attribute [local simp] Settling.nextOk Call.mails

@[simp] theorem settling_start (t : Task) : settling.start t = .unset := rfl

@[simp] theorem settling_next : settling.next = Settling.nextOk := rfl

@[simp] theorem settling_failed : settling.failed = Settling.reject := rfl

section

open AuthService Settling

/-- What a call does that writes no password hash. -/
abbrev SetsNone {α : Type} (p : Promise α) : Prop :=
  settling.wp p .unset (fun _ g => g = .unset) fun _ g => g = .unset

/-- What a call does after the write. -/
abbrev Settles {α : Type} (p : Promise α) : Prop :=
  settling.wp p .set (fun _ g => g = .set) fun _ g => g = .lost

/-- A call that sets a password writes its hash, or fails. -/
abbrev SetsOne {α : Type} (p : Promise α) : Prop :=
  settling.wp p .unset (fun _ g => g = .set) fun _ g => g ≠ .set

theorem setsNone_await {c : Call} (h : ∀ a, nextOk .unset c a = some .unset) : SetsNone (await c) :=
  (settling.wp_await c).mpr ⟨fun a => ⟨.unset, h a, rfl⟩, fun _ => rfl⟩

theorem SetsNone.bind {α β : Type} {p : Promise α} {f : α → Promise β} (hp : SetsNone p)
    (hf : ∀ a, SetsNone (f a)) : SetsNone (p >>= f) := by
  refine (settling.wp_bind _).mpr (settling.wp_mono hp ?_ fun _ _ h => h)
  rintro a _ rfl
  exact hf a

theorem Settles.bind {α β : Type} {p : Promise α} {f : α → Promise β} (hp : Settles p)
    (hf : ∀ a, Settles (f a)) : Settles (p >>= f) := by
  refine (settling.wp_bind _).mpr (settling.wp_mono hp ?_ fun _ _ h => h)
  rintro a _ rfl
  exact hf a

/-! ### Calls that write none -/

theorem issueAuthToken_setsNone (userId : Id) (purpose : AuthTokenPurpose) (ttlHours : Int) :
    SetsNone (issueAuthToken userId purpose ttlHours) := by
  simp [issueAuthToken, await, nextOk, Settling.reject]

theorem consumeFirst_setsNone (plainToken : String) (rows : List AuthToken) :
    SetsNone (consumeFirst plainToken rows) := by
  induction rows with
  | nil => rfl
  | cons row rows ih =>
    unfold consumeFirst
    refine .bind (setsNone_await fun _ => rfl) fun now => ?_
    split
    · exact ih
    · refine .bind (setsNone_await fun _ => rfl) fun found => ?_
      split
      · refine .bind (setsNone_await fun _ => rfl) fun usedAt => ?_
        refine .bind (setsNone_await fun _ => rfl) fun affected => ?_
        split <;> rfl
      · exact ih

theorem consumeAuthToken_setsNone (plainToken : String) (purpose : AuthTokenPurpose) :
    SetsNone (consumeAuthToken plainToken purpose) :=
  .bind (setsNone_await fun _ => rfl) fun rows => consumeFirst_setsNone plainToken rows

theorem verifyEmail_setsNone (plainToken : String) : SetsNone (verifyEmail plainToken) := by
  refine .bind (consumeAuthToken_setsNone _ _) fun userId => ?_
  refine .bind (setsNone_await fun _ => rfl) fun now => ?_
  exact .bind (setsNone_await fun _ => rfl) fun _ => rfl

theorem revokeAllRefreshTokens_setsNone (subjectId : Id) (type : AccountType) :
    SetsNone (revokeAllRefreshTokens subjectId type) := by
  simp [revokeAllRefreshTokens, await, nextOk, Settling.reject]

theorem logout_setsNone (payload : RefreshTokenPayload) : SetsNone (logout payload) := by
  simp [logout, await, nextOk, Settling.reject]

theorem send_setsNone [AuthConfig] (mail : Mail) : SetsNone (MailService.send mail) := by
  unfold MailService.send
  split <;> simp [await, nextOk, Settling.reject]

theorem forgotPassword_setsNone [JsString] [AuthConfig] (email : String) :
    SetsNone (forgotPassword email) := by
  refine .bind (setsNone_await fun _ => rfl) fun user? => ?_
  split
  · rfl
  · refine .bind (issueAuthToken_setsNone _ _ _) fun plainToken => ?_
    exact .bind (send_setsNone _) fun _ => rfl

section

variable [Jwt] [JsString] [AuthConfig]

theorem issueStudentSession_setsNone (user : User) : SetsNone (issueStudentSession user) := by
  simp [issueStudentSession, signAccess, issueRefreshToken, await, nextOk, Settling.reject]

theorem issueAdminSession_setsNone (admin : AdminUser) : SetsNone (issueAdminSession admin) := by
  simp [issueAdminSession, signAccess, issueRefreshToken, await, nextOk, Settling.reject]

theorem loginStudent_setsNone (email password : String) : SetsNone (loginStudent email password) := by
  refine .bind (setsNone_await fun _ => rfl) fun user? => ?_
  split
  · exact .bind (setsNone_await fun _ => rfl) fun _ => rfl
  · refine .bind (setsNone_await fun _ => rfl) fun ok => ?_
    split
    · rfl
    · split
      · rfl
      · exact issueStudentSession_setsNone _

theorem loginAdmin_setsNone (email password : String) : SetsNone (loginAdmin email password) := by
  refine .bind (setsNone_await fun _ => rfl) fun admin? => ?_
  split
  · exact .bind (setsNone_await fun _ => rfl) fun _ => rfl
  · refine .bind (setsNone_await fun _ => rfl) fun ok => ?_
    split
    · rfl
    · exact issueAdminSession_setsNone _

theorem refresh_setsNone (payload : RefreshTokenPayload) (rawToken : String) :
    SetsNone (refresh payload rawToken) := by
  have hend : SetsNone (endSessions (α := LoginResponse × String) payload) :=
    .bind (revokeAllRefreshTokens_setsNone _ _) fun _ => rfl
  refine .bind (setsNone_await fun _ => rfl) fun stored? => ?_
  split
  · rfl
  · refine .bind (setsNone_await fun _ => rfl) fun now => ?_
    split
    · rfl
    split
    · exact hend
    refine .bind (setsNone_await fun _ => rfl) fun matchesHash => ?_
    split
    · rfl
    refine .bind (setsNone_await fun _ => rfl) fun revokedAt => ?_
    refine .bind (setsNone_await fun _ => rfl) fun affected => ?_
    split
    · exact hend
    split
    · refine .bind (setsNone_await fun _ => rfl) fun admin? => ?_
      split
      · rfl
      · exact issueAdminSession_setsNone _
    · refine .bind (setsNone_await fun _ => rfl) fun user? => ?_
      split
      · rfl
      · exact issueStudentSession_setsNone _

end

/-! ### After the write -/

theorem issueAuthToken_settles (userId : Id) (purpose : AuthTokenPurpose) (ttlHours : Int) :
    Settles (issueAuthToken userId purpose ttlHours) := by
  simp [issueAuthToken, await, nextOk, Settling.reject, Call.mails]

theorem send_settles [AuthConfig] (mail : Mail) : Settles (MailService.send mail) := by
  unfold MailService.send
  split <;> simp [await, nextOk, Settling.reject, Call.mails]

theorem revokeAllRefreshTokens_settles (subjectId : Id) (type : AccountType) :
    Settles (revokeAllRefreshTokens subjectId type) := by
  simp [revokeAllRefreshTokens, await, nextOk, Settling.reject, Call.mails]

/-- The write, and what comes after it. -/
theorem setsOne_write {α : Type} {c : Call} {f : Resp c → Promise α}
    (hc : ∀ a, nextOk .unset c a = some .set) (hf : ∀ a, Settles (f a)) :
    SetsOne (await c >>= f) := by
  refine (settling.wp_bind _).mpr ((settling.wp_await c).mpr ⟨fun a => ⟨.set, hc a, ?_⟩, ?_⟩)
  · refine settling.wp_mono (hf a) (fun _ _ h => h) ?_
    rintro e _ rfl
    simp
  · simp [Settling.reject]

theorem SetsNone.then {α β : Type} {p : Promise α} {f : α → Promise β} (hp : SetsNone p)
    (hf : ∀ a, SetsOne (f a)) : SetsOne (p >>= f) := by
  refine (settling.wp_bind _).mpr (settling.wp_mono hp ?_ ?_)
  · rintro a _ rfl
    exact hf a
  · rintro e _ rfl
    nofun

theorem register_setsOne [JsString] [AuthConfig] (dto : RegisterDto) : SetsOne (register dto) := by
  refine (setsNone_await fun _ => rfl).then fun existing => ?_
  split
  · nofun
  · refine (setsNone_await fun _ => rfl).then fun passwordHash => ?_
    refine setsOne_write (fun _ => rfl) fun user => ?_
    refine .bind (.bind (issueAuthToken_settles _ _ _) fun plainToken => send_settles _) fun _ => rfl

theorem resetPassword_setsOne (plainToken newPassword : String) :
    SetsOne (resetPassword plainToken newPassword) := by
  refine (consumeAuthToken_setsNone _ _).then fun userId => ?_
  refine (setsNone_await fun _ => rfl).then fun passwordHash => ?_
  exact setsOne_write (fun _ => rfl) fun _ => .bind (revokeAllRefreshTokens_settles _ _) fun _ => rfl

theorem changePassword_setsOne (userId : Id) (currentPassword newPassword : String) :
    SetsOne (changePassword userId currentPassword newPassword) := by
  unfold changePassword
  split
  · nofun
  · refine (setsNone_await fun _ => rfl).then fun user? => ?_
    split
    · nofun
    · refine (setsNone_await fun _ => rfl).then fun ok => ?_
      split
      · nofun
      · refine (setsNone_await fun _ => rfl).then fun passwordHash => ?_
        exact setsOne_write (fun _ => rfl) fun _ => .bind (revokeAllRefreshTokens_settles _ _) fun _ => rfl

theorem settling_sound [Bcrypt] [Jwt] [JsString] [AuthConfig] : settling.Sound authSystem := by
  intro t
  change settling.Keeps t.prog .unset
  have hnone : ∀ {α : Type} {p : Promise α} (f : α → Reply), SetsNone p →
      settling.Keeps (p >>= fun a => pure (f a)) .unset := by
    intro α p f hp
    refine (settling.wp_bind _).mpr (settling.wp_mono hp ?_ ?_)
    · intro a g _ _
      rfl
    · rintro e _ rfl h
      cases h
  have hone : ∀ {α : Type} {p : Promise α} (f : α → Reply), SetsOne p →
      settling.Keeps (p >>= fun a => pure (f a)) .unset := by
    intro α p f hp
    refine (settling.wp_bind _).mpr (settling.wp_mono hp ?_ ?_)
    · intro a g _ _
      rfl
    · intro e g hne h
      exact absurd h hne
  cases t with
  | register dto => exact hone (fun r : Id × String => .registered r.1 r.2) (register_setsOne dto)
  | verifyEmail plainToken => exact hnone .message (verifyEmail_setsNone plainToken)
  | loginStudent email password =>
    exact hnone (fun r : LoginResponse × String => .session r.1 r.2) (loginStudent_setsNone _ _)
  | loginAdmin email password =>
    exact hnone (fun r : LoginResponse × String => .session r.1 r.2) (loginAdmin_setsNone _ _)
  | refresh payload rawToken =>
    exact hnone (fun r : LoginResponse × String => .session r.1 r.2) (refresh_setsNone _ _)
  | logout payload => exact hnone .message (logout_setsNone payload)
  | forgotPassword email => exact hnone .message (forgotPassword_setsNone email)
  | resetPassword plainToken newPassword => exact hone .message (resetPassword_setsOne _ _)
  | changePassword userId currentPassword newPassword =>
    exact hone .message (changePassword_setsOne _ _ _)

end

end LmsBackend.Auth
