import LmsBackend.Async.Monitor
import LmsBackend.Auth.System

/-!
# Refresh tokens, step by step

What each call can do to `refresh_tokens`. Nothing makes a revoked token valid
again, and only `issueRefreshToken` adds one.
-/

open Async Store

namespace LmsBackend.Auth

/-- The row that the call has saved. -/
def Call.mints : (c : Call) → Except Err (Resp c) → Option RefreshToken
  | .refreshTokensSave _, .ok row => some row
  | _, _ => none

def Call.savesFor (subjectId : Id) (type : AccountType) : Call → Bool
  | .refreshTokensSave row => row.belongsTo subjectId type
  | _ => false

def Call.revokesAll (subjectId : Id) (type : AccountType) : Call → Bool
  | .refreshTokensRevokeAll subjectId' type' _ => subjectId' = subjectId ∧ type' = type
  | _ => false

variable {i : Nat} {w w' : World} {call : Call} {r : Except Err (Resp call)} {t : RefreshToken}
  {subjectId : Id} {type : AccountType}

/-- What a call does to the refresh tokens. -/
inductive TokenStep (w w' : World) : (c : Call) → Except Err (Resp c) → Prop where
  | same {c r} (hc : ∀ subjectId type, c.revokesAll subjectId type = true → r.isOk = false)
      (h : w'.refreshTokens = w.refreshTokens) : TokenStep w w' c r
  | saved (row : RefreshToken)
      (h : w'.refreshTokens = w.refreshTokens.put { row with id := w.refreshTokenSeq }) :
      TokenStep w w' (.refreshTokensSave row) (.ok { row with id := w.refreshTokenSeq })
  | hashed (id : Nat) (tokenHash : String)
      (h : w'.refreshTokens = w.refreshTokens.update id fun t => { t with tokenHash := tokenHash }) :
      TokenStep w w' (.refreshTokensUpdateHash id tokenHash) (.ok ())
  | revoked (row : RefreshToken) (revokedAt : Time) (hrow : w.refreshTokens.get row.id = some row)
      (hlive : row.revokedAt = none)
      (h : w'.refreshTokens = w.refreshTokens.put { row with revokedAt := some revokedAt }) :
      TokenStep w w' (.refreshTokensRevoke row.id revokedAt) (.ok (1 : Nat))
  | revokedAll (subjectId : Id) (type : AccountType) (revokedAt : Time)
      (h : w'.refreshTokens = w.refreshTokens.map (RefreshToken.revokedFor subjectId type revokedAt)
        (RefreshToken.revokedFor_id subjectId type revokedAt)) :
      TokenStep w w' (.refreshTokensRevokeAll subjectId type revokedAt) (.ok ())

theorem answered_tokens [Bcrypt] [Jwt] [JsString] [AuthConfig]
    (h : Answered authSystem i call w r w') : TokenStep w w' call r := by
  cases h with
  | reject hx =>
    have hx : reject i call w = some _ := hx
    unfold reject at hx
    split at hx <;> cases hx
    exact .same (fun _ _ _ => rfl) rfl
  | exec hx =>
    have hx : exec i call _ w = some _ := hx
    cases call with
    | refreshTokensSave row =>
      simp only [exec] at hx
      split at hx <;> cases hx
      · exact .saved row rfl
      · exact .same (fun _ _ _ => rfl) rfl
    | refreshTokensUpdateHash id tokenHash =>
      cases hx
      exact .hashed id tokenHash rfl
    | refreshTokensRevoke id revokedAt =>
      have hnone : ∀ subjectId type,
        (Call.refreshTokensRevoke id revokedAt).revokesAll subjectId type = false := fun _ _ => rfl
      simp only [exec] at hx
      split at hx
      · cases hx
        exact .same (by simp [hnone]) rfl
      · rename_i row hrow
        split at hx <;> cases hx
        · exact .same (by simp [hnone]) rfl
        · rename_i hlive
          have hid : row.id = id := Table.key_of_get hrow
          subst hid
          exact .revoked row revokedAt hrow (by simpa using hlive) rfl
    | refreshTokensRevokeAll subjectId type revokedAt =>
      cases hx
      exact .revokedAll subjectId type revokedAt rfl
    | _ =>
      refine .same (fun _ _ h => by cases h) ?_
      simp only [exec] at hx
      repeat' split at hx
      all_goals first | (cases hx; done) | (cases hx; rfl)

/-- A token that is not revoked was there before, and not revoked, or has just been saved. -/
theorem TokenStep.token (h : TokenStep w w' call r) (ht : t ∈ w'.refreshTokens.rows)
    (hlive : t.revokedAt = none) :
    (∃ t₀ ∈ w.refreshTokens.rows, t₀.id = t.id ∧ t₀.revokedAt = none ∧
      ∀ subjectId type, t₀.belongsTo subjectId type = t.belongsTo subjectId type) ∨
    call.mints r = some t ∧
      ∀ subjectId type, call.savesFor subjectId type = t.belongsTo subjectId type := by
  cases h with
  | same _ h => exact .inl ⟨t, h ▸ ht, rfl, hlive, fun _ _ => rfl⟩
  | saved row h =>
    rw [h, Table.mem_put] at ht
    rcases ht with rfl | ⟨ht, -⟩
    · exact .inr ⟨rfl, fun _ type => by cases type <;> rfl⟩
    · exact .inl ⟨t, ht, rfl, hlive, fun _ _ => rfl⟩
  | hashed id tokenHash h =>
    have hget := Table.mem_rows_iff.mp ht
    rw [h, Table.get_update w.refreshTokens id (fun t => { t with tokenHash := tokenHash }) fun _ => rfl] at hget
    split at hget
    · obtain ⟨t₀, ht₀, rfl⟩ := Option.map_eq_some_iff.mp hget
      exact .inl ⟨t₀, (Table.get_some_iff.mp ht₀).1, rfl, hlive, fun _ type => by cases type <;> rfl⟩
    · exact .inl ⟨t, Table.mem_rows_iff.mpr hget, rfl, hlive, fun _ _ => rfl⟩
  | revoked row revokedAt _ _ h =>
    rw [h, Table.mem_put] at ht
    rcases ht with rfl | ⟨ht, -⟩
    · cases hlive
    · exact .inl ⟨t, ht, rfl, hlive, fun _ _ => rfl⟩
  | revokedAll subjectId type revokedAt h =>
    rw [h, Table.mem_map] at ht
    obtain ⟨t₀, ht₀, rfl⟩ := ht
    unfold RefreshToken.revokedFor at hlive ⊢
    split at hlive
    · cases hlive
    · rename_i hnot
      rw [if_neg hnot]
      exact .inl ⟨t₀, ht₀, rfl, hlive, fun _ _ => rfl⟩

/-- After the UPDATE every token of the account is revoked. -/
theorem TokenStep.all_revoked (h : TokenStep w w' call r)
    (hcall : call.revokesAll subjectId type = true) (hok : r.isOk = true)
    (ht : t ∈ w'.refreshTokens.rows) (hlive : t.revokedAt = none) :
    t.belongsTo subjectId type = false := by
  cases h with
  | same hc =>
    rw [hc _ _ hcall] at hok
    cases hok
  | revokedAll subjectId' type' revokedAt h =>
    obtain ⟨rfl, rfl⟩ : subjectId' = subjectId ∧ type' = type := by simpa [Call.revokesAll] using hcall
    rw [h, Table.mem_map] at ht
    obtain ⟨t₀, ht₀, rfl⟩ := ht
    unfold RefreshToken.revokedFor at hlive ⊢
    split at hlive
    · cases hlive
    · rename_i hnot
      rw [if_neg hnot]
      by_contra hbelongs
      exact hnot ⟨by simpa using hbelongs, hlive⟩
  | _ => cases hcall

end LmsBackend.Auth
