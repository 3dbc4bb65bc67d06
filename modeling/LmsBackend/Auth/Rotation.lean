import LmsBackend.Async.Total
import LmsBackend.Auth.Revocation
import LmsBackend.Auth.Signed

/-!
# Rotation of refresh tokens

A login adds one refresh token, and a refresh exchanges its token for one other.
Calls that may still add one are counted like tokens (`Errand.mayMint`): a login
from its beginning, a refresh from the UPDATE that has revoked its token.
-/

open Async Store

namespace LmsBackend.Auth

/-- No refresh token has been issued yet. -/
def NoTokens (w : World) : Prop := w.refreshTokens.rows = []

/-- A login with the email of the account. -/
def Task.loginOf [JsString] (w : World) (subjectId : Id) : AccountType → Task → Bool
  | .student, .loginStudent email _ => (w.users.get subjectId).any (·.email = normalise email)
  | .admin, .loginAdmin email _ => (w.admins.get subjectId).any (·.email = normalise email)
  | _, _ => false

/-- The logins that have begun for the account. -/
def logins [JsString] (c : Pool) (subjectId : Id) (type : AccountType) : Nat :=
  c.procs.countP fun p => p.task.loginOf c.world subjectId type

def RefreshToken.unrevokedOf (subjectId : Id) (type : AccountType) (t : RefreshToken) : Bool :=
  t.belongsTo subjectId type ∧ t.revokedAt = none

def unrevoked (w : World) (subjectId : Id) (type : AccountType) : Nat :=
  w.refreshTokens.rows.countP (·.unrevokedOf subjectId type)

/-- Call `i` is a refresh with the token `jti`, and has returned the next token. -/
def Exchanges (c : Pool) (jti i : Nat) : Prop :=
  ∃ payload rawToken login refreshToken, c.task? i = some (.refresh payload rawToken) ∧
    payload.jti = jti ∧ c.reply? i = some (.session login refreshToken)

/-! ## What is counted -/

/-- The call may still add a token of the account. -/
def Errand.mayMint (w : World) (subjectId : Id) (type : AccountType) : Errand → Bool
  | loggingIn email _ => type = .student ∧ (w.users.get subjectId).any (·.email = email)
  | loggingInAdmin email _ => type = .admin ∧ (w.admins.get subjectId).any (·.email = email)
  | knows user _ => user.id = subjectId ∧ .student = type
  | knowsAdmin admin _ => admin.id = subjectId ∧ .admin = type
  | exchanged payload => payload.sub = subjectId ∧ payload.type = type
  | entitled _ subjectId' type' => subjectId' = subjectId ∧ type' = type
  | _ => false

abbrev Errand.credit (w : World) (subjectId : Id) (type : AccountType) (g : Errand) : Nat :=
  (g.mayMint w subjectId type).toNat

attribute [local simp] Errand.mayMint

variable {w w' : World} {subjectId : Id} {type : AccountType}

theorem RefreshToken.belongsTo_of_owner {t : RefreshToken} {id : Id} {type' : AccountType}
    (h : t.owner = some (id, type')) :
    t.belongsTo subjectId type = decide (id = subjectId ∧ type' = type) := by
  obtain ⟨_, userId, adminId, _, _, _, _⟩ := t
  cases userId <;> cases adminId <;> simp only [owner, reduceCtorEq, Option.some.injEq,
    Prod.mk.injEq] at h
  all_goals
    obtain ⟨rfl, rfl⟩ := h
    cases type <;> simp [belongsTo]

theorem RefreshToken.unrevokedOf_of_revoked {t : RefreshToken} (h : t.revokedAt ≠ none) :
    t.unrevokedOf subjectId type = false := by
  simp [unrevokedOf, h]

theorem RefreshToken.unrevokedOf_of_live {t : RefreshToken} (h : t.revokedAt = none) :
    t.unrevokedOf subjectId type = t.belongsTo subjectId type := by
  simp [unrevokedOf, h]

section

variable {i j : Nat} {call : Call} {r : Except Err (Resp call)}

/-- A call adds at most the row that it saves. -/
theorem TokenStep.unrevoked_le (h : TokenStep w w' call r) :
    unrevoked w' subjectId type ≤ unrevoked w subjectId type +
      (call.mints r).elim 0 fun row => (row.unrevokedOf subjectId type).toNat := by
  unfold unrevoked
  cases h with
  | same _ h =>
    rw [h]
    exact Nat.le_add_right _ _
  | saved row h =>
    have hput := w.refreshTokens.countP_put { row with id := w.refreshTokenSeq }
      (·.unrevokedOf subjectId type)
    rw [h]
    simp only [Call.mints, Option.elim_some]
    omega
  | hashed id tokenHash h =>
    rw [h, Table.update]
    split
    · rename_i row hrow
      have hput := w.refreshTokens.countP_put { row with tokenHash := tokenHash }
        (·.unrevokedOf subjectId type)
      have hkey : w.refreshTokens.get (Keyed.key { row with tokenHash := tokenHash }) = some row := by
        rw [← Table.key_of_get hrow] at hrow
        exact hrow
      have hsame : ({ row with tokenHash := tokenHash } : RefreshToken).unrevokedOf subjectId type =
        row.unrevokedOf subjectId type := by cases type <;> rfl
      rw [hkey, Option.elim_some, hsame] at hput
      simp only [Call.mints, Option.elim_none]
      omega
    · exact Nat.le_add_right _ _
  | revoked row revokedAt hrow hlive h =>
    have hput := w.refreshTokens.countP_put { row with revokedAt := some revokedAt }
      (·.unrevokedOf subjectId type)
    rw [RefreshToken.unrevokedOf_of_revoked (t := { row with revokedAt := some revokedAt })
      (by simp)] at hput
    rw [h]
    simp only [Call.mints, Option.elim_none]
    simp only [Bool.toNat_false] at hput
    omega
  | revokedAll subjectId' type' revokedAt h =>
    rw [h, Table.map, List.countP_map]
    refine Nat.le_trans (List.countP_mono_left ?_) (Nat.le_add_right _ _)
    intro t _ ht
    simp only [Function.comp_apply, RefreshToken.revokedFor] at ht
    split at ht
    · simp [RefreshToken.unrevokedOf] at ht
    · exact ht

variable [Bcrypt] [Jwt] [JsString] [AuthConfig] {init : World → Prop}
  {P : Pool → PoolLabel → Prop} {c c' : Pool} {g g' : Errand}

/-- The conditional UPDATE has revoked one token of the owner. -/
theorem unrevoked_of_revoked {id : Nat} {revokedAt : Time} {t : RefreshToken} {id' : Id}
    {type' : AccountType}
    (h : Answered authSystem i (.refreshTokensRevoke id revokedAt) w (.ok (1 : Nat)) w')
    (ht : w.refreshTokens.get id = some t) (howner : t.owner = some (id', type')) :
    unrevoked w' subjectId type + (decide (id' = subjectId ∧ type' = type)).toNat =
      unrevoked w subjectId type := by
  obtain ⟨row, hrow, hlive, htable⟩ := revoked_of_one h
  cases hrow.symm.trans ht
  have hput := w.refreshTokens.countP_put { t with revokedAt := some revokedAt }
    (·.unrevokedOf subjectId type)
  have hkey : w.refreshTokens.get (Keyed.key { t with revokedAt := some revokedAt }) = some t := by
    rw [← Table.key_of_get ht] at ht
    exact ht
  rw [hkey, Option.elim_some, RefreshToken.unrevokedOf_of_live hlive,
    RefreshToken.belongsTo_of_owner howner,
    RefreshToken.unrevokedOf_of_revoked (t := { t with revokedAt := some revokedAt }) (by simp),
    ← htable] at hput
  unfold unrevoked
  simpa using hput

/-- A call pays for the token that it adds, and a refresh with the token that it has revoked. -/
theorem Issued.own (hI : Issued c) (hsigned : ∀ payload, g.payload? = some payload → Signed c payload)
    (hm : Moved errand authSystem c c' i call r g g') :
    unrevoked c'.world subjectId type + g'.credit c.world subjectId type ≤
      unrevoked c.world subjectId type + g.credit c.world subjectId type := by
  have htokens := answered_tokens hm.answers
  have hle : unrevoked c'.world subjectId type ≤ unrevoked c.world subjectId type +
      (call.mints r).elim 0 fun row => (row.unrevokedOf subjectId type).toNat :=
    htokens.unrevoked_le
  rcases moved_cases hm with ⟨hw, rfl, -⟩ | ⟨a, rfl, hn⟩
  · rw [hw]
    exact Nat.add_le_add_left (Nat.zero_le _) _
  · have hbefore := hm.before
    have hanswers := hm.answers
    cases hn with
    | stop hc =>
      rw [world_of_reads hc hanswers]
      exact Nat.add_le_add_left (Nat.zero_le _) _
    | look => exact Nat.add_le_add_right hle _
    | @findUser _ _ user =>
      have hfound : some user = c.world.users.rows.find? _ := says_of_answered hanswers
      refine Nat.add_le_add hle (Bool.toNat_le_toNat (Bool.le_iff_imp.mpr ?_))
      intro h
      obtain ⟨rfl, htype⟩ := of_decide_eq_true h
      have hget : c.world.users.get user.id = some user :=
        Table.mem_rows_iff.mp (List.mem_of_find?_eq_some hfound.symm)
      refine decide_eq_true ⟨htype.symm, ?_⟩
      rw [hget]
      simpa using List.find?_some hfound.symm
    | @findAdmin _ _ admin =>
      have hfound : some admin = c.world.admins.rows.find? _ := says_of_answered hanswers
      refine Nat.add_le_add hle (Bool.toNat_le_toNat (Bool.le_iff_imp.mpr ?_))
      intro h
      obtain ⟨rfl, htype⟩ := of_decide_eq_true h
      have hget : c.world.admins.get admin.id = some admin :=
        Table.mem_rows_iff.mp (List.mem_of_find?_eq_some hfound.symm)
      refine decide_eq_true ⟨htype.symm, ?_⟩
      rw [hget]
      simpa using List.find?_some hfound.symm
    | @win payload row =>
      obtain ⟨t, ht, howner⟩ := hI.signed payload (hsigned payload rfl)
      rw [← hI.read i _ payload row hbefore rfl rfl] at ht
      exact Nat.le_trans (Nat.le_of_eq (unrevoked_of_revoked hanswers ht howner))
        (Nat.le_add_right _ _)
    | @renew payload user htype =>
      have hget : some user = c.world.users.get payload.sub := says_of_answered hanswers
      have hid : user.id = payload.sub := Table.key_of_get hget.symm
      refine Nat.add_le_add hle (Nat.le_of_eq ?_)
      simp only [Errand.credit, Errand.mayMint, hid, htype]
    | @renewAdmin payload admin htype =>
      have hget : some admin = c.world.admins.get payload.sub := says_of_answered hanswers
      have hid : admin.id = payload.sub := Table.key_of_get hget.symm
      refine Nat.add_le_add hle (Nat.le_of_eq ?_)
      simp only [Errand.credit, Errand.mayMint, hid, htype]
    | @mint _ subjectId' type' row inserted howner hlive =>
      have hinserted := inserted_of_mint hanswers
      have hbelongs : inserted.unrevokedOf subjectId type =
          decide (subjectId' = subjectId ∧ type' = type) := by
        rw [RefreshToken.unrevokedOf_of_live (by rw [hinserted]; exact hlive)]
        apply RefreshToken.belongsTo_of_owner
        rw [hinserted]
        exact howner
      simp only [Call.mints, Option.elim_some, hbelongs] at hle
      exact hle
    | _ => exact Nat.add_le_add hle (by simp [Errand.credit, Errand.mayMint])

/-- A login for an account stays one. -/
theorem Task.loginOf_mono (hanswers : Answered authSystem j call w r w') {t : Task}
    (h : t.loginOf w subjectId type = true) : t.loginOf w' subjectId type = true := by
  cases type with
  | student =>
    cases t with
    | loginStudent email password =>
      obtain ⟨user, huser, hemail⟩ := (Option.any_eq_true _ _).mp h
      obtain ⟨user', huser', hsame, -⟩ := (answered_users hanswers).email huser
      refine (Option.any_eq_true _ _).mpr ⟨user', huser', ?_⟩
      rw [hsame]
      exact hemail
    | _ => cases h
  | admin =>
    cases t with
    | loginAdmin email password =>
      unfold loginOf at h ⊢
      rw [(answered_rest hanswers).2]
      exact h
    | _ => cases h

/-- A user who is new may be the one that a login looks for. Then the login counts as theirs. -/
theorem credit_of_users {t : Task} (ht : c.task? i = some t) (hg : errand.phase c i = some g)
    (hanswers : Answered authSystem j call w r w') :
    g.credit w' subjectId type + (t.loginOf w subjectId type).toNat ≤
      g.credit w subjectId type + (t.loginOf w' subjectId type).toNat := by
  cases g with
  | loggingIn email password =>
    obtain ⟨email', rfl, rfl⟩ := fits_of_phase ht hg
    cases type <;> simp [Errand.credit, Errand.mayMint, Task.loginOf, Nat.add_comm]
  | loggingInAdmin email password =>
    obtain ⟨email', rfl, rfl⟩ := fits_of_phase ht hg
    cases type <;> simp [Errand.credit, Errand.mayMint, Task.loginOf, Nat.add_comm]
  | _ =>
    apply Nat.add_le_add_left
    exact Bool.toNat_le_toNat (Bool.le_iff_imp.mpr (Task.loginOf_mono hanswers))

/-! ## The two halves -/

theorem phase_isSome (hr : Reach authSystem init P c) (h : i < c.procs.length) :
    (errand.phase c i).isSome := by
  obtain ⟨g, hg, -⟩ := hr.conforms errand_sound i _ (List.getElem?_eq_getElem h)
  rw [hg]
  rfl

/-- Tokens and calls that may still add one come to no more than the logins. -/
def Paid (c : Pool) : Prop :=
  ∀ subjectId type, unrevoked c.world subjectId type +
    errand.total (Errand.credit c.world subjectId type) c ≤ logins c subjectId type

theorem paid_of_reach (hr : Reach authSystem NoTokens Unforged c) : Paid c := by
  refine errand_invariant ?_ ?_ ?_ ?_ hr
  · intro w hw subjectId type
    unfold unrevoked
    rw [show (Config.initial w : Pool).world.refreshTokens.rows = [] from hw, Monitor.total_initial]
    exact Nat.zero_le _
  · intro c t hr hI _ subjectId type
    have h := hI subjectId type
    rw [Monitor.total_start (hr.logOk errand_sound)]
    have hlogins : logins (begun c t) subjectId type =
        logins c subjectId type + (t.loginOf c.world subjectId type).toNat := by
      unfold logins
      simp only [Config.start, List.countP_append, List.map_cons, List.map_nil, List.countP_cons,
        List.countP_nil]
      cases t.loginOf c.world subjectId type <;> rfl
    have hstart : (Errand.start t).credit c.world subjectId type =
        (t.loginOf c.world subjectId type).toNat := by
      cases t <;> cases type <;>
        simp [Errand.start, Errand.credit, Errand.mayMint, Task.loginOf]
    simp only [Config.start_world]
    rw [hlogins, errand_start, hstart]
    omega
  · intro c ms hr hI subjectId type
    have hlogins : logins (waited c ms) subjectId type = logins c subjectId type := by
      simp only [logins, Config.start, List.map_nil, List.append_nil]
      rfl
    rw [hlogins, Monitor.total_env]
    exact hI subjectId type
  · intro c c' i call r g g' hr hI _ hm subjectId type
    have hbefore := hI subjectId type
    have hown : unrevoked c'.world subjectId type + g'.credit c.world subjectId type ≤
        unrevoked c.world subjectId type + g.credit c.world subjectId type :=
      (issued (fun _ h => h) hr).own (fun payload => signed_of_phase hr hm.before) hm
    have htotal := Monitor.total_move (f := Errand.credit c.world subjectId type) hm
    have hphase : ∀ j < c'.procs.length, (errand.phase c' j).isSome := by
      intro j hj
      by_cases hji : j = i
      · rw [hji, hm.after]
        rfl
      · rw [hm.other j hji]
        exact phase_isSome hr (hm.length ▸ hj)
    have husers : errand.total (Errand.credit c'.world subjectId type) c' +
          c'.procs.countP (fun x => x.task.loginOf c.world subjectId type) ≤
        errand.total (Errand.credit c.world subjectId type) c' +
          c'.procs.countP fun x => x.task.loginOf c'.world subjectId type :=
      Monitor.total_le (fun j g t hg ht => credit_of_users ht hg hm.answers) hphase
    have hlogins := Monitor.countP_move hm (Task.loginOf c.world subjectId type)
    unfold logins at *
    omega

/-- The refresh has revoked its token, and goes on with it. -/
def Errand.won? : Errand → Option RefreshTokenPayload
  | exchanged payload | entitled (.refresh payload) _ _ | minted (.refresh payload) _ _ _
  | signedIn (.refresh payload) _ _ => some payload
  | _ => none

/-- A token that a refresh goes on with is revoked, and no other refresh goes on with it. -/
structure Won (c : Pool) : Prop where
  revoked : ∀ i g payload, errand.phase c i = some g → g.won? = some payload →
    ∃ t, c.world.refreshTokens.get payload.jti = some t ∧ t.revokedAt ≠ none
  once : ∀ i j g g' payload payload', errand.phase c i = some g → errand.phase c j = some g' →
    g.won? = some payload → g'.won? = some payload' → payload.jti = payload'.jti → i = j

/-- A refresh wins its token while nobody else has. -/
theorem won_next {payload : RefreshTokenPayload} (hI : Issued c)
    (hm : Moved errand authSystem c c' i call r g g') (h : g'.won? = some payload) :
    g.won? = some payload ∨
      (∃ t, c.world.refreshTokens.get payload.jti = some t ∧ t.revokedAt = none) ∧
        ∃ t, c'.world.refreshTokens.get payload.jti = some t ∧ t.revokedAt ≠ none := by
  rcases moved_cases hm with ⟨-, rfl, -⟩ | ⟨a, rfl, hn⟩
  · cases h
  · have hbefore := hm.before
    have hanswers := hm.answers
    cases hn with
    | @win _ _ revokedAt =>
      right
      obtain ⟨t, ht, hlive, htable⟩ := revoked_of_one hanswers
      rw [hI.read i _ _ _ hbefore rfl rfl] at ht
      cases h
      refine ⟨⟨t, ht, hlive⟩, { t with revokedAt := some revokedAt }, ?_, by simp⟩
      rw [htable]
      have hkey : t.id = payload.jti := Table.key_of_get ht
      exact Table.get_put_of_eq _ hkey
    | @mint origin => exact .inl (by cases origin <;> exact h)
    | @sign origin => exact .inl (by cases origin <;> exact h)
    | renew | renewAdmin => exact .inl h
    | _ => first | exact .inl h | cases h

theorem won_of_reach (hr : Reach authSystem NoTokens Unforged c) : Won c := by
  refine errand_invariant ?_ ?_ ?_ ?_ hr
  · intro w hw
    refine ⟨fun i g payload hg => ?_, fun i j g g' payload payload' hg => ?_⟩ <;> cases hg
  · intro c t hr hI _
    have hold : ∀ i g payload, errand.phase (begun c t) i = some g → g.won? = some payload →
        errand.phase c i = some g := by
      intro i g payload hg hwon
      rcases begun_cases hr hg with hg | ⟨-, rfl⟩
      · exact hg
      · cases t <;> cases hwon
    exact ⟨fun i g payload hg hwon => hI.revoked i g payload (hold i g payload hg hwon) hwon,
      fun i j g g' payload payload' hg hg' hwon hwon' =>
        hI.once i j g g' payload payload' (hold i g payload hg hwon) (hold j g' payload' hg' hwon')
          hwon hwon'⟩
  · intro c ms hr hI
    exact ⟨fun i g payload hg => hI.revoked i g payload (waited_phase hr hg),
      fun i j g g' payload payload' hg hg' =>
        hI.once i j g g' payload payload' (waited_phase hr hg) (waited_phase hr hg')⟩
  · intro c c' i call r g g' hr hI _ hm
    have hissued := issued (fun _ h => h) hr
    have hkept : ∀ jti, (∃ t, c.world.refreshTokens.get jti = some t ∧ t.revokedAt ≠ none) →
        ∃ t, c'.world.refreshTokens.get jti = some t ∧ t.revokedAt ≠ none := by
      rintro jti ⟨t, ht, hrevoked⟩
      obtain ⟨t', ht', -, hrevoked'⟩ := (answered_tokens hm.answers).kept hissued.ids ht
      exact ⟨t', ht', hrevoked' hrevoked⟩
    -- The token of another call is revoked, so it cannot be the one that is won now.
    have hother : ∀ j gj payload payload', j ≠ i → errand.phase c j = some gj →
        gj.won? = some payload' → g'.won? = some payload → payload.jti ≠ payload'.jti := by
      intro j gj payload payload' hne hj hwon' hwon hjti
      rcases won_next hissued hm hwon with hwon | ⟨⟨t, ht, hlive⟩, -⟩
      · exact hne (hI.once i j g gj payload payload' hm.before hj hwon hwon' hjti).symm
      · obtain ⟨t', ht', hrevoked⟩ := hI.revoked j gj payload' hj hwon'
        rw [hjti, ht'] at ht
        cases ht
        exact hrevoked hlive
    constructor
    · intro j gj payload hj hwon
      rcases hm.phase_cases hj with ⟨rfl, rfl⟩ | ⟨-, hj⟩
      · rcases won_next hissued hm hwon with hwon | ⟨-, hrevoked⟩
        · exact hkept _ (hI.revoked _ g payload hm.before hwon)
        · exact hrevoked
      · exact hkept _ (hI.revoked j gj payload hj hwon)
    · intro j k gj gk payload payload' hj hk hwon hwon' hjti
      rcases hm.phase_cases hj with ⟨rfl, rfl⟩ | ⟨hji, hj⟩ <;>
        rcases hm.phase_cases hk with ⟨rfl, rfl⟩ | ⟨hki, hk⟩
      · rfl
      · exact absurd hjti (hother k gk payload payload' hki hk hwon' hwon)
      · exact absurd hjti.symm (hother j gj payload' payload hji hj hwon hwon')
      · exact hI.once j k gj gk payload payload' hj hk hwon hwon' hjti

/-- Rotation is linear: a refresh token is exchanged at most once, and an account has at most as
many unrevoked tokens as it has begun logins. -/
theorem rotation_linear (hr : Reach authSystem NoTokens Unforged c) :
    (∀ jti i j, Exchanges c jti i → Exchanges c jti j → i = j) ∧
      ∀ subjectId type, unrevoked c.world subjectId type ≤ logins c subjectId type := by
  constructor
  · rintro jti i j ⟨payload, rawToken, login, refreshToken, ht, rfl, hreply⟩
      ⟨payload', rawToken', login', refreshToken', ht', hjti, hreply'⟩
    obtain ⟨origin, subjectId, type, hg⟩ := signedIn_of_reply hr hreply
    obtain ⟨origin', subjectId', type', hg'⟩ := signedIn_of_reply hr hreply'
    obtain rfl : origin = .refresh payload := Origin.Of.of_refresh (fits_of_phase ht hg)
    obtain rfl : origin' = .refresh payload' := Origin.Of.of_refresh (fits_of_phase ht' hg')
    exact (won_of_reach hr).once i j _ _ payload payload' hg hg' rfl rfl hjti.symm
  · intro subjectId type
    exact Nat.le_trans (Nat.le_add_right _ _) (paid_of_reach hr subjectId type)

end

/-! ### A run -/

instance (c : Pool) (payload : RefreshTokenPayload) : Decidable (Signed c payload) :=
  decidable_of_iff (∃ e ∈ c.log, (e.call.mints e.res).any fun row =>
    row.id = payload.jti ∧ row.owner = some (payload.sub, payload.type)) (by
      simp [Signed, Option.any_eq_true])

instance : ∀ c l, Decidable (Unforged c l)
  | c, .spawn t => inferInstanceAs (Decidable (∀ payload ∈ t.payload?, Signed c payload))
  | _, .run _ _ | _, .fail _ | _, .env _ => .isTrue trivial

/-- A student logs in, and uses the refresh token twice, one use after the other. -/
def refreshesTwice : List PoolLabel :=
  .spawn (.loginStudent "u@example.com" "old") :: calls 0 8 ++
    .spawn (.refresh ⟨"U", .student, 1⟩ "U#") :: calls 1 12 ++
    .spawn (.refresh ⟨"U", .student, 1⟩ "U#") :: calls 2 4

set_option maxRecDepth 100000 in
/-- The first refresh has exchanged the token. The second one has revoked all. -/
theorem rotation_linear_twice : ∃ c, Reach bureauSystem NoTokens Unforged c ∧
    c.task? 1 = some (.refresh ⟨"U", .student, 1⟩ "U#") ∧ (c.reply? 1).isSome ∧
    (c.error? 2).isSome ∧ unrevoked c.world "U" .student ≤ @logins plainString c "U" .student := by
  obtain ⟨c, hc, hp⟩ := (Option.any_eq_true _ _).mp (show
    (runIf bureauSystem Unforged refreshesTwice (.initial bureau)).any (fun c =>
      c.task? 1 = some (.refresh ⟨"U", .student, 1⟩ "U#") ∧ (c.reply? 1).isSome ∧
        (c.error? 2).isSome) = true by decide)
  have hr : Reach bureauSystem NoTokens Unforged c := runIf_reach (.init (show NoTokens bureau from rfl)) hc
  obtain ⟨htask, hreply, herror⟩ := of_decide_eq_true hp
  exact ⟨c, hr, htask, hreply, herror,
    (@rotation_linear Exams.plainBcrypt plainJwt plainString development c hr).2 "U" .student⟩

end LmsBackend.Auth
