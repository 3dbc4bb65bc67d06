import LmsBackend.Async.Among
import LmsBackend.Auth.Stranded

/-!
# A refresh that fails

`refresh` revokes the row of its token before it looks for the owner and mints the
next token. A call of the database that rejects after that costs the session.
-/

open Async Store

namespace LmsBackend.Auth

/-- The token of the row has not been revoked. -/
def World.Unrevoked (w : World) (jti : Nat) : Prop :=
  ∃ row, w.refreshTokens.get jti = some row ∧ row.revokedAt = none

/-- What others do while none of them touches the row. -/
structure LeavesRow (jti : Nat) (w w' : World) : Prop where
  row : w'.refreshTokens.get jti = w.refreshTokens.get jti
  initial : Initial w → Initial w'

/-- The calls of `refresh` up to the UPDATE that revokes the row of its token. -/
def Call.upToUpdate (jti : Nat) : Call → Bool
  | .refreshTokensFindOne id | .refreshTokensRevoke id _ => id = jti
  | .bcryptCompare _ _ => true
  | _ => false

/-- The row is revoked, and stays so. -/
structure Spent (jti : Nat) (w : World) : Prop where
  initial : Initial w
  row : ∃ row, w.refreshTokens.get jti = some row ∧ row.revokedAt ≠ none

theorem Spent.leavesRow {jti : Nat} {w w' : World} (h : Spent jti w) (hI : LeavesRow jti w w') :
    Spent jti w' := ⟨hI.initial h.initial, by rw [hI.row]; exact h.row⟩

theorem Spent.not_unrevoked {jti : Nat} {w : World} (h : Spent jti w) : ¬w.Unrevoked jti := by
  rintro ⟨row, hrow, hlive⟩
  obtain ⟨row', hrow', hrevoked⟩ := h.row
  obtain rfl := Option.some.inj (hrow.symm.trans hrow')
  exact hrevoked hlive

section

variable [Bcrypt] [Jwt] [JsString] [AuthConfig] {i : Nat} {w w' : World}
  {payload : RefreshTokenPayload} {rawToken : String} {fault : Fault World Call}

open AuthService

/-! ## After the UPDATE -/

theorem Initial.step {call : Call} {r : Except Err (Resp call)}
    (h : Answered authSystem i call w r w') (hw : Initial w) : Initial w' := by
  constructor
  intro t ht
  have hseq := answered_tokenSeq h
  rcases (answered_tokens h).origin ht with ⟨t₀, ht₀, hid, -⟩ | hmints
  · have hlt := hw.refreshTokens t₀ ht₀
    omega
  · rcases hseq with ⟨hnone, -⟩ | ⟨hseq, row, -, hrow⟩
    · rw [hnone] at hmints
      cases hmints
    · obtain rfl := Option.some.inj (hrow.symm.trans hmints)
      simp only [hseq]
      omega

theorem Spent.step {jti : Nat} {call : Call} {r : Except Err (Resp call)}
    (h : Answered authSystem i call w r w') (hw : Spent jti w) : Spent jti w' := by
  obtain ⟨row, hrow, hrevoked⟩ := hw.row
  obtain ⟨row', hrow', -, hkept⟩ := (answered_tokens h).kept hw.initial.refreshTokens hrow
  exact ⟨hw.initial.step h, row', hrow', hkept hrevoked⟩

/-- What is left to do after the UPDATE. -/
def afterRevoke (payload : RefreshTokenPayload) : Promise (LoginResponse × String) :=
  if payload.type = .admin then do
    let admin? ← await (.adminsFindById payload.sub)
    match admin?.filter (·.active) with
    | none => throw (.unauthorized "Account is inactive")
    | some admin => issueAdminSession admin
  else do
    let user? ← await (.usersFindById payload.sub)
    match user?.filter (·.active) with
    | none => throw (.unauthorized "Account is inactive")
    | some user => issueStudentSession user

/-- No call is one of those before. -/
abbrev OffRow {α : Type} (jti : Nat) (p : Promise α) : Prop :=
  (Contract.only fun c => Call.upToUpdate jti c = false).Meets p fun _ => True

omit [Bcrypt] [JsString] in
theorem session_offRow {α : Type} (jti : Nat) (access : AccessTokenPayload) (subjectId : Id)
    (type : AccountType) (f : String → String → α) : OffRow jti (do
      let accessToken ← signAccess access
      let refreshToken ← issueRefreshToken subjectId type
      pure (f accessToken refreshToken)) := by
  simp only [OffRow, signAccess, issueRefreshToken, Prog.bind_eq, Prog.pure_eq, await,
    Contract.meets_bind, Contract.meets_await, Contract.meets_ret]
  exact ⟨rfl, fun _ _ => ⟨rfl, fun _ _ => ⟨rfl, fun _ _ => ⟨rfl, fun _ _ => ⟨rfl, fun _ _ =>
    ⟨rfl, fun _ _ => trivial⟩⟩⟩⟩⟩⟩

omit [Bcrypt] in
theorem afterRevoke_offRow (jti : Nat) : OffRow jti (afterRevoke payload) := by
  unfold afterRevoke
  split
  · simp only [OffRow, Prog.bind_eq, await, Contract.meets_bind, Contract.meets_await]
    refine ⟨rfl, fun admin? _ => ?_⟩
    cases admin?.filter (·.active) with
    | none => trivial
    | some admin => exact session_offRow jti _ _ _ _
  · simp only [OffRow, Prog.bind_eq, await, Contract.meets_bind, Contract.meets_await]
    refine ⟨rfl, fun user? _ => ?_⟩
    cases user?.filter (·.active) with
    | none => trivial
    | some user => exact session_offRow jti _ _ _ _

/-! ## Up to the UPDATE -/

/-- The row is as it was read. -/
structure Untouched (row : RefreshToken) (w : World) : Prop where
  initial : Initial w
  row : w.refreshTokens.get row.id = some row

omit [Bcrypt] [Jwt] [JsString] [AuthConfig] in
theorem Untouched.leavesRow {row : RefreshToken} (h : Untouched row w) (hI : LeavesRow row.id w w') :
    Untouched row w' := ⟨hI.initial h.initial, hI.row.trans h.row⟩

/-- A call that rejects has done nothing. -/
theorem Untouched.rejected {row : RefreshToken} {call : Call} {e : Err} (h : Untouched row w)
    (hlive : row.revokedAt = none) (hreject : authSystem.reject i call w = some (w', e)) :
    w'.Unrevoked row.id := by
  obtain rfl : w' = w := world_of_error (.reject hreject)
  exact ⟨row, h.row, hlive⟩

/-- The UPDATE of a row that nobody has revoked. -/
theorem Untouched.revoked {row : RefreshToken} {revokedAt : Time} {affected : Nat}
    (h : Untouched row w) (hlive : row.revokedAt = none)
    (hanswers : Answered authSystem i (.refreshTokensRevoke row.id revokedAt) w (.ok affected) w') :
    affected = 1 ∧ Spent row.id w' := by
  have hinitial := h.initial.step hanswers
  obtain ⟨x, hx⟩ := exec_of_answered hanswers
  simp only [exec, h.row, hlive, ne_eq, not_true, if_false, Option.some.injEq, Prod.mk.injEq,
    Except.ok.injEq] at hx
  obtain ⟨rfl, rfl⟩ := hx
  exact ⟨rfl, hinitial, _, Table.get_put_of_eq _ rfl, Option.some_ne_none _⟩

/-- What only looks, and cannot reject. -/
theorem Untouched.look {α : Type} {row : RefreshToken} {call : Call} {q : Resp call → Promise α}
    {r : Except Err α} (h : Untouched row w) (hreads : call.reads = true) (hrejects : call.rejects = false)
    (hends : EndsAmong authSystem i (LeavesRow row.id) (some fault) w (await call >>= q) w' r) :
    ∃ a w₁, Untouched row w₁ ∧ EndsAmong authSystem i (LeavesRow row.id) (some fault) w₁ (q a) w' r := by
  rcases hends.await with ⟨a, w₀, w₁, hI, hanswers, hnext⟩ | ⟨rfl, hI, e, -, hreject⟩
  · obtain rfl := world_of_reads hreads hanswers
    exact ⟨a, w₁, h.leavesRow hI, hnext⟩
  · have hreject : reject i fault.call fault.world = some (w', e) := hreject
    rw [reject, hrejects] at hreject
    cases hreject

theorem Untouched.refreshed {row : RefreshToken} {r : Except Err (LoginResponse × String)}
    (h : Untouched row w) (hlive : row.revokedAt = none) (hjti : payload.jti = row.id)
    (hends : EndsAmong authSystem i (LeavesRow row.id) (some fault) w (refresh payload rawToken) w' r) :
    w'.Unrevoked row.id ↔ fault.call.upToUpdate row.id = true := by
  rcases hends.await with ⟨stored?, w₁, _, hI, hstored, h₁⟩ | ⟨hcall, hI, e, -, hreject⟩
  · have hw₁ := h.leavesRow hI
    obtain rfl := says_of_answered hstored
    obtain rfl := world_of_reads rfl hstored
    rw [hjti, hw₁.row] at h₁
    obtain ⟨now, w₂, hw₂, h₂⟩ := hw₁.look rfl rfl h₁
    split at h₂
    · cases h₂
    · rw [if_neg (not_not.mpr hlive)] at h₂
      rcases h₂.await with ⟨ok, w₂', w₃, hI, hcompare, h₃⟩ | ⟨hcall, hI, e, -, hreject⟩
      · have hw₃ := hw₂.leavesRow hI
        obtain rfl := world_of_reads rfl hcompare
        split at h₃
        · cases h₃
        obtain ⟨revokedAt, w₄, hw₄, h₄⟩ := hw₃.look rfl rfl h₃
        rcases h₄.await with ⟨affected, w₅, w₆, hI, hrevoke, h₅⟩ | ⟨hcall, hI, e, -, hreject⟩
        · obtain ⟨hone, hspent⟩ := (hw₄.leavesRow hI).revoked hlive hrevoke
          rw [if_neg (not_not.mpr hone)] at h₅
          refine iff_of_false (h₅.kept ?_ ?_ hspent).not_unrevoked ?_
          · exact fun w w' hI hw => hw.leavesRow hI
          · exact fun c w r w' hc hw => hw.step hc
          · rw [h₅.fault (afterRevoke_offRow row.id) rfl]
            decide
        · refine iff_of_true ((hw₄.leavesRow hI).rejected hlive hreject) ?_
          rw [hcall]
          exact decide_eq_true rfl
      · refine iff_of_true ((hw₂.leavesRow hI).rejected hlive hreject) ?_
        rw [hcall]
        rfl
  · refine iff_of_true ((h.leavesRow hI).rejected hlive hreject) ?_
    rw [hcall, hjti]
    exact decide_eq_true rfl

/-- With one call that rejects, the token is unrevoked afterwards exactly when the call is one of those
up to the UPDATE: of the database, one of the two about its row. -/
theorem unrevoked_iff {row : RefreshToken} (hinitial : Initial w)
    (hrow : w.refreshTokens.get payload.jti = some row) (hlive : row.revokedAt = none)
    {r : Except Err (LoginResponse × String)}
    (h : EndsAmong authSystem i (LeavesRow payload.jti) (some fault) w (refresh payload rawToken) w' r) :
    w'.Unrevoked payload.jti ↔ fault.call.upToUpdate payload.jti = true := by
  obtain hid : row.id = payload.jti := Table.key_of_get hrow
  rw [← hid] at hrow h ⊢
  exact Untouched.refreshed ⟨hinitial, hrow⟩ hlive hid.symm h

end

/-! ### A student's refresh -/

theorem LeavesRow.refl (jti : Nat) (w : World) : LeavesRow jti w w := ⟨rfl, id⟩

instance (w : World) (jti : Nat) : Decidable (w.Unrevoked jti) :=
  decidable_of_iff ((w.refreshTokens.get jti).any (·.revokedAt = none) = true) (by
    simp [World.Unrevoked, Option.any_eq_true])

section

attribute [local instance] Exams.plainBcrypt plainJwt plainString development

def kept : RefreshToken := ⟨1, some "U", none, .user, "U#", 604800000, none⟩

/-- The student of the bureau, signed in with the token "U#", and with another one elsewhere. -/
def signedIn : World :=
  { bureau with
    refreshTokens := (Table.empty.put kept).put { kept with id := 2, tokenHash := "U##" }
    refreshTokenSeq := 3 }

def claims : RefreshTokenPayload := ⟨"U", .student, 1⟩

theorem signedIn_initial : Initial signedIn := by
  constructor
  decide

/-- The refresh of the student, whose call number `n` rejects. -/
def refreshFailing (n : Nat) :
    Option (Option (Fault World Call) × World × Except Err (LoginResponse × String)) :=
  follow bureauSystem 0 (List.replicate n (some "") ++ [none]) signedIn
    (AuthService.refresh claims "U#")

theorem refreshFailing_ends {n : Nat} {out} (h : refreshFailing n = some out) :
    EndsAmong bureauSystem 0 (LeavesRow 1) out.1 signedIn
      (AuthService.refresh claims "U#") out.2.1 out.2.2 :=
  (ends_of_follow h).among (LeavesRow.refl 1)

/-- The UPDATE of the row rejects, and the token stays. -/
theorem unrevoked_iff_update : ∃ fault w' r, EndsAmong bureauSystem 0 (LeavesRow 1) (some fault) signedIn
      (AuthService.refresh claims "U#") w' r ∧ fault.call = .refreshTokensRevoke 1 0 ∧
    (w'.Unrevoked 1 ↔ fault.call.upToUpdate 1 = true) ∧ w'.Unrevoked 1 := by
  obtain ⟨⟨fault?, w', r⟩, hout, hp⟩ := (Option.any_eq_true _ _).mp (show
    (refreshFailing 4).any (fun out => out.1.map (·.call) = some (.refreshTokensRevoke 1 0) ∧
      out.2.1.Unrevoked 1) = true by decide)
  obtain ⟨hcall, hunrevoked⟩ := of_decide_eq_true hp
  obtain ⟨fault, hfault, hmade⟩ := Option.map_eq_some_iff.mp hcall
  obtain rfl : fault? = some fault := hfault
  have hends := refreshFailing_ends hout
  exact ⟨fault, w', r, hends, hmade, @unrevoked_iff Exams.plainBcrypt plainJwt plainString development 0
    signedIn w' claims "U#" fault kept signedIn_initial rfl rfl r hends, hunrevoked⟩

/-- The student presents the token again. -/
def again (w : World) : Option (Option (Fault World Call) × World × Except Err (LoginResponse × String)) :=
  follow bureauSystem 0 (List.replicate 4 (some "")) w (AuthService.refresh claims "U#")

/-- The lookup of the student rejects. The token is revoked, and to present it again is taken for
reuse, which ends the other session too. -/
theorem session_lost : ∃ fault w' r, EndsAmong bureauSystem 0 (LeavesRow 1) (some fault) signedIn
      (AuthService.refresh claims "U#") w' r ∧ r.isOk = false ∧
    fault.call = .usersFindById "U" ∧ ¬w'.Unrevoked 1 ∧ w'.Unrevoked 2 ∧
    ∃ out, again w' = some out ∧ out.2.2.isOk = false ∧ ¬out.2.1.Unrevoked 2 := by
  obtain ⟨⟨fault?, w', r⟩, hout, hp⟩ := (Option.any_eq_true _ _).mp (show
    (refreshFailing 5).any (fun out => out.1.map (·.call) = some (.usersFindById "U") ∧
      out.2.2.isOk = false ∧ ¬out.2.1.Unrevoked 1 ∧ out.2.1.Unrevoked 2 ∧
      (again out.2.1).any (fun out' => out'.2.2.isOk = false ∧ ¬out'.2.1.Unrevoked 2)) = true by decide)
  obtain ⟨hcall, herror, hrevoked, hother, hagain⟩ := of_decide_eq_true hp
  obtain ⟨out, hfollow, hended⟩ := (Option.any_eq_true _ _).mp hagain
  obtain ⟨fault, hfault, hmade⟩ := Option.map_eq_some_iff.mp hcall
  obtain rfl : fault? = some fault := hfault
  exact ⟨fault, w', r, refreshFailing_ends hout, herror, hmade, hrevoked, hother, out, hfollow,
    of_decide_eq_true hended⟩

end

end LmsBackend.Auth
