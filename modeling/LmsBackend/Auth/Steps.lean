import LmsBackend.Auth.Errand
import LmsBackend.Auth.Tokens

/-!
# Accounts and one-time tokens, step by step

What each call can do to `users` and `auth_tokens`, and what stays of every row.
-/

open Async Store

namespace LmsBackend.Auth

variable {i : Nat} {w w' : World} {call : Call} {r : Except Err (Resp call)}

/-- The call changes nothing. -/
def Call.reads : Call → Bool
  | .now | .randomBytes | .bcryptHash _ | .bcryptCompare _ _ | .usersFindByEmail _ | .usersFindById _
  | .adminsFindByEmail _ | .adminsFindById _ | .refreshTokensFindOne _ | .authTokensFind _ => true
  | _ => false

/-- The account that the call has made. -/
def Call.enrols : (c : Call) → Except Err (Resp c) → Option User
  | .usersSave _, .ok user => some user
  | _, _ => none

/-- What a call that only reads has answered. -/
def Call.Says [Bcrypt] (w : World) : (c : Call) → Resp c → Prop
  | .now => fun now => now = w.now
  | .bcryptHash plain => fun made => ∃ x, made = Bcrypt.hash x plain
  | .bcryptCompare plain hash => fun ok => ok = Bcrypt.compare plain hash
  | .usersFindByEmail email => fun user? => user? = w.users.rows.find? (·.email = email)
  | .usersFindById id => fun user? => user? = w.users.get id
  | .adminsFindByEmail email => fun admin? => admin? = w.admins.rows.find? (·.email = email)
  | .adminsFindById id => fun admin? => admin? = w.admins.get id
  | .refreshTokensFindOne id => fun row? => row? = w.refreshTokens.get id
  | .authTokensFind purpose => fun rows => rows = w.unusedAuthTokens purpose
  | _ => fun _ => True

/-- What a call does to the users. -/
inductive UserStep (w w' : World) : (c : Call) → Except Err (Resp c) → Prop where
  | same {c r} (h : w'.users = w.users) : UserStep w w' c r
  | saved (row : User) (id : Id) (hnew : w.users.get id = none)
      (hemail : ∀ u ∈ w.users.rows, u.email ≠ row.email)
      (h : w'.users = w.users.put { row with id := id }) :
      UserStep w w' (.usersSave row) (.ok { row with id := id })
  | password (id : Id) (passwordHash : String)
      (h : w'.users = w.users.update id fun u => { u with passwordHash := passwordHash }) :
      UserStep w w' (.usersUpdatePassword id passwordHash) (.ok ())
  | verified (id : Id) (at' : Time)
      (h : w'.users = w.users.update id fun u =>
        { u with emailVerified := true, emailVerifiedAt := some at' }) :
      UserStep w w' (.usersUpdateVerified id at') (.ok ())

/-- What a call does to the one-time tokens. -/
inductive AuthTokenStep (w w' : World) : (c : Call) → Except Err (Resp c) → Prop where
  | same {c r} (hc : ∀ id usedAt, c = .authTokensUse id usedAt → ∀ n, r ≍ (.ok n : Except Err Nat) →
        n = 0)
      (hall : ∀ userId purpose usedAt, c = .authTokensUseAll userId purpose usedAt → r.isOk = false)
      (h : w'.authTokens = w.authTokens) (hseq : w'.authTokenSeq = w.authTokenSeq) :
      AuthTokenStep w w' c r
  | saved (row : AuthToken) (huser : (w.users.get row.userId).isSome)
      (h : w'.authTokens = w.authTokens.put { row with id := w.authTokenSeq })
      (hseq : w'.authTokenSeq = w.authTokenSeq + 1) :
      AuthTokenStep w w' (.authTokensSave row) (.ok { row with id := w.authTokenSeq })
  | used (row : AuthToken) (usedAt : Time) (hrow : w.authTokens.get row.id = some row)
      (hunused : row.usedAt = none)
      (h : w'.authTokens = w.authTokens.put { row with usedAt := some usedAt })
      (hseq : w'.authTokenSeq = w.authTokenSeq) :
      AuthTokenStep w w' (.authTokensUse row.id usedAt) (.ok (1 : Nat))
  | usedAll (userId : Id) (purpose : AuthTokenPurpose) (usedAt : Time)
      (h : w'.authTokens = w.authTokens.map (AuthToken.usedFor userId purpose usedAt)
        (AuthToken.usedFor_id userId purpose usedAt))
      (hseq : w'.authTokenSeq = w.authTokenSeq) :
      AuthTokenStep w w' (.authTokensUseAll userId purpose usedAt) (.ok ())

section

variable [Bcrypt] [Jwt] [JsString] [AuthConfig]

theorem answered_users (h : Answered authSystem i call w r w') : UserStep w w' call r := by
  cases h with
  | reject hx =>
    have hx : reject i call w = some _ := hx
    unfold reject at hx
    split at hx <;> cases hx
    exact .same rfl
  | exec hx =>
    have hx : exec i call _ w = some _ := hx
    cases call with
    | usersSave row =>
      simp only [exec] at hx
      split at hx
      · cases hx
      · rename_i hnew
        split at hx <;> cases hx
        · exact .same rfl
        · rename_i hemail
          refine .saved row _ (by simpa using hnew) ?_ rfl
          simpa using hemail
    | usersUpdatePassword id passwordHash =>
      cases hx
      exact .password id passwordHash rfl
    | usersUpdateVerified id at' =>
      cases hx
      exact .verified id at' rfl
    | _ =>
      refine .same ?_
      simp only [exec] at hx
      repeat' split at hx
      all_goals first | (cases hx; done) | (cases hx; rfl)

theorem answered_authTokens (h : Answered authSystem i call w r w') : AuthTokenStep w w' call r := by
  cases h with
  | reject hx =>
    have hx : reject i call w = some _ := hx
    unfold reject at hx
    split at hx <;> cases hx
    refine .same ?_ ?_ rfl rfl
    · rintro id usedAt rfl n hr
      cases hr
    · intros
      rfl
  | exec hx =>
    have hx : exec i call _ w = some _ := hx
    cases call with
    | authTokensSave row =>
      simp only [exec] at hx
      split at hx <;> cases hx
      · exact .saved row ‹_› rfl rfl
      · exact .same (fun _ _ hc => by cases hc) (fun _ _ _ hc => by cases hc) rfl rfl
    | authTokensUse id usedAt =>
      simp only [exec] at hx
      split at hx
      · cases hx
        refine .same ?_ (fun _ _ _ hc => by cases hc) rfl rfl
        rintro id' usedAt' - n hr
        cases hr
        rfl
      · rename_i row hrow
        split at hx <;> cases hx
        · refine .same ?_ (fun _ _ _ hc => by cases hc) rfl rfl
          rintro id' usedAt' - n hr
          cases hr
          rfl
        · rename_i hunused
          have hid : row.id = id := Table.key_of_get hrow
          subst hid
          exact .used row usedAt hrow (by simpa using hunused) rfl rfl
    | authTokensUseAll userId purpose usedAt =>
      cases hx
      exact .usedAll userId purpose usedAt rfl rfl
    | _ =>
      refine .same (fun _ _ hc => by cases hc) (fun _ _ _ hc => by cases hc) ?_ ?_ <;>
      · simp only [exec] at hx
        repeat' split at hx
        all_goals first | (cases hx; done) | (cases hx; rfl)

/-- No call moves the clock or touches the administrators. -/
theorem answered_rest (h : Answered authSystem i call w r w') :
    w'.now = w.now ∧ w'.admins = w.admins := by
  cases h with
  | reject hx =>
    have hx : reject i call w = some _ := hx
    unfold reject at hx
    split at hx <;> cases hx
    exact ⟨rfl, rfl⟩
  | exec hx =>
    have hx : exec i call _ w = some _ := hx
    unfold exec at hx
    repeat' split at hx
    all_goals first | (cases hx; done) | (cases hx; exact ⟨rfl, rfl⟩)

/-- A call that rejects has changed nothing. -/
theorem world_of_error {e : Err} (h : Answered authSystem i call w (.error e) w') : w' = w := by
  cases h with
  | reject hx =>
    have hx : reject i call w = some _ := hx
    unfold reject at hx
    split at hx <;> cases hx
    rfl
  | exec hx =>
    have hx : exec i call _ w = some _ := hx
    unfold exec at hx
    repeat' split at hx
    all_goals first | (cases hx; done) | (cases hx; rfl)

theorem world_of_reads (hc : call.reads = true) (h : Answered authSystem i call w r w') : w' = w := by
  cases h with
  | reject hx => exact world_of_error (.reject hx)
  | exec hx =>
    have hx : exec i call _ w = some _ := hx
    cases call with
    | now | randomBytes | bcryptHash | bcryptCompare | usersFindByEmail | usersFindById
    | adminsFindByEmail | adminsFindById | refreshTokensFindOne | authTokensFind =>
      cases hx
      rfl
    | _ => cases hc

/-- A call that has succeeded was carried out. -/
theorem exec_of_answered {a : Resp call} (h : Answered authSystem i call w (.ok a) w') :
    ∃ x, exec i call x w = some (w', .ok a) := by
  cases h with
  | exec hx => exact ⟨_, hx⟩

theorem says_of_answered {a : Resp call} (h : Answered authSystem i call w (.ok a) w') :
    call.Says w a := by
  obtain ⟨x, hx⟩ := exec_of_answered h
  cases call with
  | bcryptHash =>
    cases hx
    exact ⟨x, rfl⟩
  | now | bcryptCompare | usersFindByEmail | usersFindById | adminsFindByEmail | adminsFindById
  | refreshTokensFindOne | authTokensFind =>
    simp only [exec, Option.some.injEq, Prod.mk.injEq, Except.ok.injEq] at hx
    exact hx.2.symm
  | _ => exact True.intro

/-- The sequence of the refresh tokens moves on with each row that it gives an id to. -/
theorem answered_tokenSeq (h : Answered authSystem i call w r w') :
    call.mints r = none ∧ w'.refreshTokenSeq = w.refreshTokenSeq ∨
      w'.refreshTokenSeq = w.refreshTokenSeq + 1 ∧
        ∃ row, call = .refreshTokensSave row ∧
          call.mints r = some { row with id := w.refreshTokenSeq } := by
  cases h with
  | reject hx =>
    have hx : reject i call w = some _ := hx
    unfold reject at hx
    split at hx <;> cases hx
    refine .inl ⟨?_, rfl⟩
    cases call <;> rfl
  | exec hx =>
    have hx : exec i call _ w = some _ := hx
    cases call with
    | refreshTokensSave row =>
      simp only [exec] at hx
      split at hx <;> cases hx
      · exact .inr ⟨rfl, row, rfl, rfl⟩
      · exact .inl ⟨rfl, rfl⟩
    | _ =>
      refine .inl ⟨rfl, ?_⟩
      simp only [exec] at hx
      repeat' split at hx
      all_goals first | (cases hx; done) | (cases hx; rfl)

theorem user_of_save {row user : User} (h : Answered authSystem i (.usersSave row) w (.ok user) w') :
    user = { row with id := user.id } ∧ w.users.get user.id = none ∧ w'.users = w.users.put user := by
  obtain ⟨x, hx⟩ := exec_of_answered h
  simp only [exec] at hx
  split at hx
  · simp at hx
  · rename_i hnew
    split at hx
    · simp at hx
    · cases hx
      exact ⟨rfl, by simpa using hnew, rfl⟩

theorem inserted_of_mint {row inserted : RefreshToken}
    (h : Answered authSystem i (.refreshTokensSave row) w (.ok inserted) w') :
    inserted = { row with id := w.refreshTokenSeq } := by
  rcases answered_tokenSeq h with ⟨hnone, -⟩ | ⟨-, _, hcall, hmints⟩
  · cases hnone
  · cases hcall
    exact Option.some.inj hmints

theorem get_of_mints {row : RefreshToken} (h : Answered authSystem i call w r w')
    (hrow : call.mints r = some row) : w'.refreshTokens.get row.id = some row := by
  cases call with
  | refreshTokensSave row₀ =>
    cases r with
    | error e => cases hrow
    | ok a =>
      obtain ⟨x, hx⟩ := exec_of_answered h
      cases hrow
      simp only [exec] at hx
      split at hx <;> cases hx
      exact Table.get_put_of_eq _ rfl
  | _ => cases hrow

/-- The conditional UPDATE has changed a row that was not revoked. -/
theorem revoked_of_one {id : Nat} {revokedAt : Time}
    (h : Answered authSystem i (.refreshTokensRevoke id revokedAt) w (.ok (1 : Nat)) w') :
    ∃ row, w.refreshTokens.get id = some row ∧ row.revokedAt = none ∧
      w'.refreshTokens = w.refreshTokens.put { row with revokedAt := some revokedAt } := by
  obtain ⟨x, hx⟩ := exec_of_answered h
  simp only [exec] at hx
  split at hx
  · simp at hx
  · rename_i row hrow
    split at hx
    · simp at hx
    · rename_i hlive
      cases hx
      exact ⟨row, hrow, by simpa using hlive, rfl⟩

end

/-- The email of an account stays. -/
theorem UserStep.email (h : UserStep w w' call r) {id : Id} {user : User}
    (hu : w.users.get id = some user) :
    ∃ user', w'.users.get id = some user' ∧ user'.email = user.email ∧ user'.active = user.active := by
  cases h with
  | same h => exact ⟨user, by rw [h]; exact hu, rfl, rfl⟩
  | saved row x hnew _ h =>
    refine ⟨user, ?_, rfl, rfl⟩
    rw [h, Table.get_put_of_ne]
    · exact hu
    · rintro rfl
      have hnone : w.users.get x = none := hnew
      rw [show x = Keyed.key ({ row with id := x } : User) from rfl] at hnone
      rw [hnone] at hu
      cases hu
  | password x passwordHash h =>
    rw [h, Table.get_update w.users x (fun u => { u with passwordHash := passwordHash }) fun _ => rfl]
    split
    · exact ⟨{ user with passwordHash := passwordHash }, by rw [hu]; rfl, rfl, rfl⟩
    · exact ⟨user, hu, rfl, rfl⟩
  | verified x at' h =>
    rw [h, Table.get_update w.users x
      (fun u => { u with emailVerified := true, emailVerifiedAt := some at' }) fun _ => rfl]
    split
    · exact ⟨{ user with emailVerified := true, emailVerifiedAt := some at' }, by rw [hu]; rfl, rfl,
        rfl⟩
    · exact ⟨user, hu, rfl, rfl⟩

/-- Every user was there before, with this email, or is new and has an email of their own. -/
theorem UserStep.origin (h : UserStep w w' call r) {u : User} (hu : u ∈ w'.users.rows) :
    (∃ u₀ ∈ w.users.rows, u₀.id = u.id ∧ u₀.email = u.email) ∨
      call.enrols r = some u ∧ ∀ u₀ ∈ w.users.rows, u₀.email ≠ u.email := by
  have hupdate : ∀ (id : Id) (f : User → User), (∀ u, (f u).id = u.id) →
      (∀ u, (f u).email = u.email) → u ∈ (w.users.update id f).rows →
      ∃ u₀ ∈ w.users.rows, u₀.id = u.id ∧ u₀.email = u.email := by
    intro id f hf hemail hu
    have hget := Table.mem_rows_iff.mp hu
    rw [Table.get_update w.users id f hf] at hget
    split at hget
    · obtain ⟨u₀, hu₀, rfl⟩ := Option.map_eq_some_iff.mp hget
      exact ⟨u₀, (Table.get_some_iff.mp hu₀).1, (hf u₀).symm, (hemail u₀).symm⟩
    · exact ⟨u, Table.mem_rows_iff.mpr hget, rfl, rfl⟩
  cases h with
  | same h => exact .inl ⟨u, h ▸ hu, rfl, rfl⟩
  | saved row id _ hemail h =>
    rw [h, Table.mem_put] at hu
    rcases hu with rfl | ⟨hu, -⟩
    · exact .inr ⟨rfl, hemail⟩
    · exact .inl ⟨u, hu, rfl, rfl⟩
  | password id passwordHash h =>
    rw [h] at hu
    exact .inl (hupdate id (fun u => { u with passwordHash := passwordHash }) (fun _ => rfl)
      (fun _ => rfl) hu)
  | verified id at' h =>
    rw [h] at hu
    exact .inl (hupdate id (fun u => { u with emailVerified := true, emailVerifiedAt := some at' })
      (fun _ => rfl) (fun _ => rfl) hu)

/-- A refresh token stays, with its owner, and once it is revoked it stays so. -/
theorem TokenStep.kept (h : TokenStep w w' call r)
    (hid : ∀ t ∈ w.refreshTokens.rows, t.id < w.refreshTokenSeq) {id : Nat} {t : RefreshToken}
    (ht : w.refreshTokens.get id = some t) :
    ∃ t', w'.refreshTokens.get id = some t' ∧ t'.owner = t.owner ∧
      (t.revokedAt ≠ none → t'.revokedAt ≠ none) := by
  cases h with
  | same _ h => exact ⟨t, by rw [h]; exact ht, rfl, fun h => h⟩
  | saved row h =>
    refine ⟨t, ?_, rfl, fun h => h⟩
    rw [h, Table.get_put_of_ne]
    · exact ht
    · rintro rfl
      have hlt := hid t (Table.get_some_iff.mp ht).1
      have hkey : t.id = w.refreshTokenSeq := Table.key_of_get ht
      omega
  | hashed x tokenHash h =>
    rw [h, Table.get_update w.refreshTokens x (fun t => { t with tokenHash := tokenHash }) fun _ => rfl,
      ht]
    split
    · exact ⟨{ t with tokenHash := tokenHash }, rfl, rfl, fun h => h⟩
    · exact ⟨t, rfl, rfl, fun h => h⟩
  | revoked row revokedAt hrow _ h =>
    by_cases hx : row.id = id
    · subst hx
      cases hrow.symm.trans ht
      refine ⟨{ t with revokedAt := some revokedAt }, ?_, rfl, fun _ => by simp⟩
      rw [h]
      exact Table.get_put_of_eq _ rfl
    · refine ⟨t, ?_, rfl, fun h => h⟩
      rw [h, Table.get_put_of_ne]
      · exact ht
      · exact hx
  | revokedAll subjectId type revokedAt h =>
    rw [h, Table.get_map, ht]
    refine ⟨t.revokedFor subjectId type revokedAt, rfl, ?_, ?_⟩
    all_goals
      unfold RefreshToken.revokedFor
      split
    · rfl
    · rfl
    · simp
    · exact fun h => h

/-- Every refresh token was there before, with its owner, or has just been saved. -/
theorem TokenStep.origin (h : TokenStep w w' call r) {t : RefreshToken}
    (ht : t ∈ w'.refreshTokens.rows) :
    (∃ t₀ ∈ w.refreshTokens.rows, t₀.id = t.id ∧ t₀.owner = t.owner) ∨ call.mints r = some t := by
  cases h with
  | same _ h => exact .inl ⟨t, h ▸ ht, rfl, rfl⟩
  | saved row h =>
    rw [h, Table.mem_put] at ht
    rcases ht with rfl | ⟨ht, -⟩
    · exact .inr rfl
    · exact .inl ⟨t, ht, rfl, rfl⟩
  | hashed id tokenHash h =>
    have hget := Table.mem_rows_iff.mp ht
    rw [h, Table.get_update w.refreshTokens id (fun t => { t with tokenHash := tokenHash })
      fun _ => rfl] at hget
    split at hget
    · obtain ⟨t₀, ht₀, rfl⟩ := Option.map_eq_some_iff.mp hget
      exact .inl ⟨t₀, (Table.get_some_iff.mp ht₀).1, rfl, rfl⟩
    · exact .inl ⟨t, Table.mem_rows_iff.mpr hget, rfl, rfl⟩
  | revoked row revokedAt hrow _ h =>
    rw [h, Table.mem_put] at ht
    rcases ht with rfl | ⟨ht, -⟩
    · exact .inl ⟨row, (Table.get_some_iff.mp hrow).1, rfl, rfl⟩
    · exact .inl ⟨t, ht, rfl, rfl⟩
  | revokedAll subjectId type revokedAt h =>
    rw [h, Table.mem_map] at ht
    obtain ⟨t₀, ht₀, rfl⟩ := ht
    refine .inl ⟨t₀, ht₀, ?_, ?_⟩ <;> unfold RefreshToken.revokedFor <;> split <;> rfl

/-! ## One-time tokens -/

/-- The row as it was inserted. -/
def AuthToken.asIssued (t : AuthToken) : AuthToken := { t with usedAt := none }

theorem AuthToken.same_of_asIssued {t t' : AuthToken} (h : t.asIssued = t'.asIssued) :
    t.id = t'.id ∧ t.userId = t'.userId ∧ t.purpose = t'.purpose ∧ t.tokenHash = t'.tokenHash ∧
      t.expiresAt = t'.expiresAt := by
  simpa [asIssued] using h

/-- The row that the call has saved. -/
def Call.issues : (c : Call) → Except Err (Resp c) → Option AuthToken
  | .authTokensSave _, .ok row => some row
  | _, _ => none

/-- A one-time token stays as it was issued. -/
theorem AuthTokenStep.kept (h : AuthTokenStep w w' call r)
    (hid : ∀ t ∈ w.authTokens.rows, t.id < w.authTokenSeq) {id : Nat} {t : AuthToken}
    (ht : w.authTokens.get id = some t) :
    ∃ t', w'.authTokens.get id = some t' ∧ t'.asIssued = t.asIssued := by
  cases h with
  | same _ _ h _ => exact ⟨t, by rw [h]; exact ht, rfl⟩
  | saved row _ h _ =>
    refine ⟨t, ?_, rfl⟩
    rw [h, Table.get_put_of_ne]
    · exact ht
    · rintro rfl
      have hlt := hid t (Table.get_some_iff.mp ht).1
      have hkey : t.id = w.authTokenSeq := Table.key_of_get ht
      omega
  | used row usedAt hrow _ h _ =>
    by_cases hx : row.id = id
    · subst hx
      cases hrow.symm.trans ht
      refine ⟨{ t with usedAt := some usedAt }, ?_, rfl⟩
      rw [h]
      exact Table.get_put_of_eq _ rfl
    · refine ⟨t, ?_, rfl⟩
      rw [h, Table.get_put_of_ne]
      · exact ht
      · exact hx
  | usedAll userId purpose usedAt h _ =>
    rw [h, Table.get_map, ht]
    refine ⟨t.usedFor userId purpose usedAt, rfl, ?_⟩
    unfold AuthToken.usedFor
    split <;> rfl

/-- Every one-time token was there before, or has just been saved. -/
theorem AuthTokenStep.origin (h : AuthTokenStep w w' call r) {t : AuthToken}
    (ht : t ∈ w'.authTokens.rows) :
    (∃ t₀ ∈ w.authTokens.rows, t₀.asIssued = t.asIssued) ∨
      call.issues r = some t ∧ t.id = w.authTokenSeq ∧ w'.authTokenSeq = w.authTokenSeq + 1 := by
  cases h with
  | same _ _ h _ => exact .inl ⟨t, h ▸ ht, rfl⟩
  | saved row _ h hseq =>
    rw [h, Table.mem_put] at ht
    rcases ht with rfl | ⟨ht, -⟩
    · exact .inr ⟨rfl, rfl, hseq⟩
    · exact .inl ⟨t, ht, rfl⟩
  | used row usedAt hrow _ h _ =>
    rw [h, Table.mem_put] at ht
    rcases ht with rfl | ⟨ht, -⟩
    · exact .inl ⟨row, (Table.get_some_iff.mp hrow).1, rfl⟩
    · exact .inl ⟨t, ht, rfl⟩
  | usedAll userId purpose usedAt h _ =>
    rw [h, Table.mem_map] at ht
    obtain ⟨t₀, ht₀, rfl⟩ := ht
    refine .inl ⟨t₀, ht₀, ?_⟩
    unfold AuthToken.usedFor
    split <;> rfl

theorem AuthTokenStep.seq_le (h : AuthTokenStep w w' call r) : w.authTokenSeq ≤ w'.authTokenSeq := by
  cases h <;> omega

theorem inserted_of_save [Bcrypt] [Jwt] [JsString] [AuthConfig] {row inserted : AuthToken}
    (h : Answered authSystem i (.authTokensSave row) w (.ok inserted) w') :
    inserted = { row with id := w.authTokenSeq } := by
  obtain ⟨x, hx⟩ := exec_of_answered h
  simp only [exec] at hx
  split at hx
  · simp only [Option.some.injEq, Prod.mk.injEq, Except.ok.injEq] at hx
    exact hx.2.symm
  · simp at hx

/-- The conditional UPDATE has changed a row that was not used. -/
theorem used_of_ne_zero [Bcrypt] [Jwt] [JsString] [AuthConfig] {id affected : Nat} {usedAt : Time}
    (h : Answered authSystem i (.authTokensUse id usedAt) w (.ok affected) w') (hne : affected ≠ 0) :
    ∃ row, w.authTokens.get id = some row ∧ row.usedAt = none ∧
      w'.authTokens = w.authTokens.put { row with usedAt := some usedAt } := by
  obtain ⟨x, hx⟩ := exec_of_answered h
  simp only [exec] at hx
  split at hx
  · cases hx
    exact absurd rfl hne
  · rename_i row hrow
    split at hx
    · cases hx
      exact absurd rfl hne
    · rename_i hunused
      cases hx
      exact ⟨row, hrow, by simpa using hunused, rfl⟩

end LmsBackend.Auth
