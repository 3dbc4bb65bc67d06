import LmsBackend.Auth.Entities
import LmsBackend.Exams.World

/-!
# What an account runs against

The four tables, the clock, and every call that `AuthService` awaits. None of
them runs in a transaction: each statement is on its own.
-/

open Async Store

namespace LmsBackend.Auth

inductive Err where
  | badRequest (message : String)
  | conflict (message : String)
  | unauthorized (message : String)
  /-- What the database or SendGrid rejects with. -/
  | infra (message : String)
  deriving DecidableEq, Repr

/-- `refreshTokenSeq` and `authTokenSeq` are the next values of the sequences of the two tables.
`sent` has the emails that SendGrid took. -/
structure World where
  now : Time
  users : Table User
  admins : Table AdminUser
  refreshTokens : Table RefreshToken
  refreshTokenSeq : Nat
  authTokens : Table AuthToken
  authTokenSeq : Nat
  sent : List Mail

inductive Call where
  | now
  | randomBytes
  | bcryptHash (plain : String)
  | bcryptCompare (plain hash : String)
  | usersFindByEmail (email : String)
  | usersFindById (id : Id)
  /-- The database makes the id, and refuses an email that is taken. -/
  | usersSave (row : User)
  | usersUpdatePassword (id : Id) (passwordHash : String)
  | usersUpdateVerified (id : Id) (emailVerifiedAt : Time)
  | adminsFindByEmail (email : String)
  | adminsFindById (id : Id)
  | refreshTokensFindOne (id : Nat)
  /-- The database makes the id, and refuses an owner that does not exist. -/
  | refreshTokensSave (row : RefreshToken)
  | refreshTokensUpdateHash (id : Nat) (tokenHash : String)
  /-- `SET revoked_at WHERE id AND revoked_at IS NULL`. The answer is `affected`. -/
  | refreshTokensRevoke (id : Nat) (revokedAt : Time)
  /-- `SET revoked_at WHERE user_id AND revoked_at IS NULL`, or `admin_id`. -/
  | refreshTokensRevokeAll (subjectId : Id) (type : AccountType) (revokedAt : Time)
  /-- The unused tokens of a purpose, the newest 50. -/
  | authTokensFind (purpose : AuthTokenPurpose)
  /-- `SET used_at WHERE id AND used_at IS NULL`. The answer is `affected`. -/
  | authTokensUse (id : Nat) (usedAt : Time)
  /-- `SET used_at WHERE user_id AND purpose AND used_at IS NULL`. -/
  | authTokensUseAll (userId : Id) (purpose : AuthTokenPurpose) (usedAt : Time)
  /-- The database makes the id, and refuses a user that does not exist. -/
  | authTokensSave (row : AuthToken)
  | sgMailSend (mail : Mail)
  deriving DecidableEq, Repr

@[reducible] def Resp : Call → Type
  | .now => Time
  | .randomBytes | .bcryptHash _ => String
  | .bcryptCompare _ _ => Bool
  | .usersFindByEmail _ | .usersFindById _ => Option User
  | .usersSave _ => User
  | .adminsFindByEmail _ | .adminsFindById _ => Option AdminUser
  | .refreshTokensFindOne _ => Option RefreshToken
  | .refreshTokensSave _ => RefreshToken
  | .refreshTokensRevoke _ _ | .authTokensUse _ _ => Nat
  | .authTokensFind _ => List AuthToken
  | .authTokensSave _ => AuthToken
  | _ => Unit

/-- UUIDs, salts and random bytes come from outside. -/
abbrev Choice := String

namespace World

variable (w : World)

/-- The owner that a row names is there. -/
def hasOwner (t : RefreshToken) : Bool :=
  t.userId.all (fun id => (w.users.get id).isSome) ∧
    t.adminId.all fun id => (w.admins.get id).isSome

def unusedAuthTokens (purpose : AuthTokenPurpose) : List AuthToken :=
  ((w.authTokens.rows.filter fun t => t.purpose = purpose ∧ t.usedAt = none).insertionSort
    (·.id ≥ ·.id)).take 50

end World

/-- Every unrevoked token of the subject is revoked. -/
def RefreshToken.revokedFor (subjectId : Id) (type : AccountType) (revokedAt : Time)
    (t : RefreshToken) : RefreshToken :=
  if t.belongsTo subjectId type ∧ t.revokedAt = none then { t with revokedAt := some revokedAt } else t

def AuthToken.usedFor (userId : Id) (purpose : AuthTokenPurpose) (usedAt : Time) (t : AuthToken) :
    AuthToken :=
  if t.userId = userId ∧ t.purpose = purpose ∧ t.usedAt = none then { t with usedAt := some usedAt }
  else t

theorem RefreshToken.revokedFor_id (subjectId : Id) (type : AccountType) (revokedAt : Time)
    (t : RefreshToken) : (t.revokedFor subjectId type revokedAt).id = t.id := by
  unfold revokedFor
  split <;> rfl

theorem AuthToken.usedFor_id (userId : Id) (purpose : AuthTokenPurpose) (usedAt : Time)
    (t : AuthToken) : (t.usedFor userId purpose usedAt).id = t.id := by
  unfold usedFor
  split <;> rfl

def exec [Bcrypt] (_ : Nat) (c : Call) (x : Choice) (w : World) :
    Option (World × Except Err (Resp c)) :=
  match c with
  | .now => some (w, .ok w.now)
  | .randomBytes => some (w, .ok x)
  | .bcryptHash plain => some (w, .ok (Bcrypt.hash x plain))
  | .bcryptCompare plain hash => some (w, .ok (Bcrypt.compare plain hash))
  | .usersFindByEmail email => some (w, .ok (w.users.rows.find? (·.email = email)))
  | .usersFindById id => some (w, .ok (w.users.get id))
  | .usersSave row =>
    if (w.users.get x).isSome then none
    else if w.users.rows.any (·.email = row.email) then
      some (w, .error (.infra "duplicate key value violates unique constraint idx_users_email"))
    else
      let row := { row with id := x }
      some ({ w with users := w.users.put row }, .ok row)
  | .usersUpdatePassword id passwordHash =>
    let users := w.users.update id fun u => { u with passwordHash := passwordHash }
    some ({ w with users := users }, .ok ())
  | .usersUpdateVerified id emailVerifiedAt =>
    let users := w.users.update id fun u =>
      { u with emailVerified := true, emailVerifiedAt := some emailVerifiedAt }
    some ({ w with users := users }, .ok ())
  | .adminsFindByEmail email => some (w, .ok (w.admins.rows.find? (·.email = email)))
  | .adminsFindById id => some (w, .ok (w.admins.get id))
  | .refreshTokensFindOne id => some (w, .ok (w.refreshTokens.get id))
  | .refreshTokensSave row =>
    if w.hasOwner row then
      let row := { row with id := w.refreshTokenSeq }
      some ({ w with
        refreshTokens := w.refreshTokens.put row, refreshTokenSeq := w.refreshTokenSeq + 1 }, .ok row)
    else some (w, .error (.infra "insert on refresh_tokens violates foreign key constraint"))
  | .refreshTokensUpdateHash id tokenHash =>
    let tokens := w.refreshTokens.update id fun t => { t with tokenHash := tokenHash }
    some ({ w with refreshTokens := tokens }, .ok ())
  | .refreshTokensRevoke id revokedAt =>
    match w.refreshTokens.get id with
    | none => some (w, .ok 0)
    | some row =>
      if row.revokedAt ≠ none then some (w, .ok 0)
      else
        let row := { row with revokedAt := some revokedAt }
        some ({ w with refreshTokens := w.refreshTokens.put row }, .ok 1)
  | .refreshTokensRevokeAll subjectId type revokedAt =>
    let tokens := w.refreshTokens.map (RefreshToken.revokedFor subjectId type revokedAt)
      (RefreshToken.revokedFor_id subjectId type revokedAt)
    some ({ w with refreshTokens := tokens }, .ok ())
  | .authTokensFind purpose => some (w, .ok (w.unusedAuthTokens purpose))
  | .authTokensUse id usedAt =>
    match w.authTokens.get id with
    | none => some (w, .ok 0)
    | some row =>
      if row.usedAt ≠ none then some (w, .ok 0)
      else
        let row := { row with usedAt := some usedAt }
        some ({ w with authTokens := w.authTokens.put row }, .ok 1)
  | .authTokensUseAll userId purpose usedAt =>
    let tokens := w.authTokens.map (AuthToken.usedFor userId purpose usedAt)
      (AuthToken.usedFor_id userId purpose usedAt)
    some ({ w with authTokens := tokens }, .ok ())
  | .authTokensSave row =>
    if (w.users.get row.userId).isSome then
      let row := { row with id := w.authTokenSeq }
      some ({ w with authTokens := w.authTokens.put row, authTokenSeq := w.authTokenSeq + 1 }, .ok row)
    else some (w, .error (.infra "insert on auth_tokens violates foreign key constraint"))
  | .sgMailSend mail => some ({ w with sent := w.sent ++ [mail] }, .ok ())

/-- Every call that is awaited can reject. A call that rejects has done nothing. -/
def Call.rejects : Call → Bool
  | .now | .randomBytes => false
  | _ => true

def reject (_ : Nat) (c : Call) (w : World) : Option (World × Err) :=
  if c.rejects then some (w, .infra "connection lost") else none

end LmsBackend.Auth
