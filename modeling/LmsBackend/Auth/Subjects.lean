import LmsBackend.Auth.OneTime
import LmsBackend.Auth.Rotation

/-!
# One subject at a time

A subject is an account with its kind. Whatever a call changes belongs to the
subject whose credentials or tokens it was made with.
-/

open Async Store

namespace LmsBackend.Auth

/-- An account of either kind. -/
abbrev Subject := Id × AccountType

/-- Every row that differs between the two worlds is owned by the subject. -/
structure Only (s : Subject) (w w' : World) : Prop where
  users : ∀ u, (u ∈ w'.users.rows ↔ u ∈ w.users.rows) ∨ (u.id, AccountType.student) = s
  refreshTokens : ∀ t, (t ∈ w'.refreshTokens.rows ↔ t ∈ w.refreshTokens.rows) ∨ t.owner = some s
  authTokens : ∀ t, (t ∈ w'.authTokens.rows ↔ t ∈ w.authTokens.rows) ∨
    (t.userId, AccountType.student) = s

/-- The rows of the subject are the same in both worlds. -/
structure Unchanged (s : Subject) (w w' : World) : Prop where
  users : ∀ u, (u.id, AccountType.student) = s → (u ∈ w'.users.rows ↔ u ∈ w.users.rows)
  refreshTokens : ∀ t, t.owner = some s → (t ∈ w'.refreshTokens.rows ↔ t ∈ w.refreshTokens.rows)
  authTokens : ∀ t, (t.userId, AccountType.student) = s →
    (t ∈ w'.authTokens.rows ↔ t ∈ w.authTokens.rows)

theorem Only.unchanged {s s' : Subject} {w w' : World} (h : Only s w w') (hne : s' ≠ s) :
    Unchanged s' w w' where
  users u hu := (h.users u).resolve_right fun heq => hne (hu.symm.trans heq)
  refreshTokens t ht := (h.refreshTokens t).resolve_right fun heq =>
    hne (Option.some.inj (ht.symm.trans heq))
  authTokens t ht := (h.authTokens t).resolve_right fun heq => hne (ht.symm.trans heq)

/-! ## What a call writes -/

/-- The owner of the rows that the call writes. -/
def Call.owner? (w : World) : (c : Call) → Except Err (Resp c) → Option Subject
  | .usersSave _, .ok user => some (user.id, .student)
  | .usersUpdatePassword id _, .ok _ => some (id, .student)
  | .usersUpdateVerified id _, .ok _ => some (id, .student)
  | .refreshTokensSave _, .ok row => row.owner
  | .refreshTokensUpdateHash id _, .ok _ => (w.refreshTokens.get id).bind (·.owner)
  | .refreshTokensRevoke id _, .ok _ => (w.refreshTokens.get id).bind (·.owner)
  | .refreshTokensRevokeAll subjectId type _, .ok _ => some (subjectId, type)
  | .authTokensUse id _, .ok _ => (w.authTokens.get id).map fun t => (t.userId, .student)
  | .authTokensUseAll userId _ _, .ok _ => some (userId, .student)
  | .authTokensSave _, .ok row => some (row.userId, .student)
  | _, _ => none

attribute [local simp] Call.owner?

variable {s : Subject} {w w' : World} {call : Call} {r : Except Err (Resp call)}

theorem UserStep.only (h : UserStep w w' call r) (hs : ∀ s', call.owner? w r = some s' → s' = s)
    (u : User) : (u ∈ w'.users.rows ↔ u ∈ w.users.rows) ∨ (u.id, AccountType.student) = s := by
  have hupdate : ∀ (id : Id) (f : User → User), (∀ u, (f u).id = u.id) → (id, .student) = s →
      (u ∈ (w.users.update id f).rows ↔ u ∈ w.users.rows) ∨ (u.id, AccountType.student) = s := by
    intro id f hf hid
    rcases w.users.mem_update_or id f hf u with h | ⟨u₀, hu₀, h⟩
    · exact .inl h
    · right
      have hkey : u₀.id = id := Table.key_of_get hu₀
      rcases h with rfl | rfl
      · rw [hf, hkey]
        exact hid
      · rw [hkey]
        exact hid
  cases h with
  | same h => exact .inl (by rw [h])
  | saved row id hnew _ h =>
    rw [h]
    rcases w.users.mem_put_or { row with id := id } u with h | rfl | h
    · exact .inl h
    · exact .inr (hs _ rfl)
    · have hnew : w.users.get (Keyed.key ({ row with id := id } : User)) = none := hnew
      rw [hnew] at h
      cases h
  | password id passwordHash h =>
    rw [h]
    exact hupdate id _ (fun _ => rfl) (hs _ rfl)
  | verified id at' h =>
    rw [h]
    exact hupdate id _ (fun _ => rfl) (hs _ rfl)

/-- Every refresh token has an owner, and an id below the next one. -/
structure Owned (w : World) : Prop where
  owner : ∀ t ∈ w.refreshTokens.rows, ∃ s, t.owner = some s
  ids : ∀ t ∈ w.refreshTokens.rows, t.id < w.refreshTokenSeq

theorem TokenStep.only (h : TokenStep w w' call r) (hs : ∀ s', call.owner? w r = some s' → s' = s)
    (howned : Owned w) (hmints : ∀ row, call.mints r = some row → ∃ s, row.owner = some s)
    (t : RefreshToken) :
    (t ∈ w'.refreshTokens.rows ↔ t ∈ w.refreshTokens.rows) ∨ t.owner = some s := by
  -- The row that is updated has an owner, which is the subject.
  have hrow : ∀ {id : Nat} {row : RefreshToken}, w.refreshTokens.get id = some row →
      call.owner? w r = (w.refreshTokens.get id).bind (·.owner) → row.owner = some s := by
    intro id row hget howner
    obtain ⟨s', hs'⟩ := howned.owner row (Table.get_some_iff.mp hget).1
    rw [hget, Option.bind_some, hs'] at howner
    rw [hs', hs s' howner]
  cases h with
  | same _ h => exact .inl (by rw [h])
  | saved row h =>
    rw [h]
    rcases w.refreshTokens.mem_put_or { row with id := w.refreshTokenSeq } t with h | rfl | h
    · exact .inl h
    · obtain ⟨s', hs'⟩ := hmints _ rfl
      right
      rw [hs', hs s' hs']
    · have hlt := howned.ids t (Table.get_some_iff.mp h).1
      have hkey : t.id = w.refreshTokenSeq := Table.key_of_get h
      omega
  | hashed id tokenHash h =>
    rw [h]
    rcases w.refreshTokens.mem_update_or id (fun t => { t with tokenHash := tokenHash })
      (fun _ => rfl) t with h | ⟨t₀, ht₀, h⟩
    · exact .inl h
    · right
      have howner := hrow ht₀ rfl
      rcases h with rfl | rfl <;> exact howner
  | revoked row revokedAt hget _ h =>
    rw [h]
    have howner := hrow hget rfl
    rcases w.refreshTokens.mem_put_or { row with revokedAt := some revokedAt } t with h | rfl | h
    · exact .inl h
    · exact .inr howner
    · have hkey : w.refreshTokens.get row.id = some t := h
      rw [hget] at hkey
      cases hkey
      exact .inr howner
  | revokedAll subjectId type revokedAt h =>
    rw [h]
    rcases w.refreshTokens.mem_map_or (RefreshToken.revokedFor subjectId type revokedAt)
      (RefreshToken.revokedFor_id subjectId type revokedAt) t with h | ⟨t₀, ht₀, hchanged, h⟩
    · exact .inl h
    · right
      obtain ⟨⟨id, type'⟩, hs'⟩ := howned.owner t₀ ht₀
      have hbelongs : t₀.belongsTo subjectId type = true := by
        by_contra hnot
        exact hchanged (if_neg fun h => hnot h.1)
      rw [RefreshToken.belongsTo_of_owner hs', decide_eq_true_eq] at hbelongs
      obtain ⟨rfl, rfl⟩ := hbelongs
      rw [hs _ rfl] at hs'
      rcases h with rfl | rfl
      · unfold RefreshToken.revokedFor
        split <;> exact hs'
      · exact hs'

theorem AuthTokenStep.only (h : AuthTokenStep w w' call r)
    (hs : ∀ s', call.owner? w r = some s' → s' = s)
    (hid : ∀ t ∈ w.authTokens.rows, t.id < w.authTokenSeq) (t : AuthToken) :
    (t ∈ w'.authTokens.rows ↔ t ∈ w.authTokens.rows) ∨ (t.userId, AccountType.student) = s := by
  cases h with
  | same _ _ h _ => exact .inl (by rw [h])
  | saved row _ h _ =>
    rw [h]
    rcases w.authTokens.mem_put_or { row with id := w.authTokenSeq } t with h | rfl | h
    · exact .inl h
    · exact .inr (hs _ rfl)
    · have hlt := hid t (Table.get_some_iff.mp h).1
      have hkey : t.id = w.authTokenSeq := Table.key_of_get h
      omega
  | used row usedAt hrow _ h _ =>
    rw [h]
    have howner := hs (row.userId, .student) (by simp [Call.owner?, hrow])
    rcases w.authTokens.mem_put_or { row with usedAt := some usedAt } t with h | rfl | h
    · exact .inl h
    · exact .inr howner
    · have hkey : w.authTokens.get row.id = some t := h
      rw [hrow] at hkey
      cases hkey
      exact .inr howner
  | usedAll userId purpose usedAt h _ =>
    rw [h]
    rcases w.authTokens.mem_map_or (AuthToken.usedFor userId purpose usedAt)
      (AuthToken.usedFor_id userId purpose usedAt) t with h | ⟨t₀, ht₀, hchanged, h⟩
    · exact .inl h
    · right
      have huser : t₀.userId = userId := by
        by_contra hnot
        exact hchanged (if_neg fun h => hnot h.1)
      have howner := hs (userId, .student) rfl
      rcases h with rfl | rfl
      · unfold AuthToken.usedFor
        split <;> exact huser ▸ howner
      · exact huser ▸ howner

/-! ## Whom a call acts for -/

/-- The account has the email. -/
def HasEmail (w : World) (email : String) : Subject → Prop
  | (id, .student) => ∃ user, w.users.get id = some user ∧ user.email = email
  | (id, .admin) => ∃ admin, w.admins.get id = some admin ∧ admin.email = email

/-- The call was made with credentials or tokens of the subject. A one-time token is theirs when
every row that was issued with it is. -/
def Task.MadeBy [JsString] (c : Pool) (s : Subject) : Task → Prop
  | .register dto => s.2 = .student ∧ HasEmail c.world (normalise dto.email) s
  | .loginStudent email _ | .forgotPassword email =>
    s.2 = .student ∧ HasEmail c.world (normalise email) s
  | .loginAdmin email _ => s.2 = .admin ∧ HasEmail c.world (normalise email) s
  | .refresh payload _ | .logout payload => s = (payload.sub, payload.type)
  | .verifyEmail plain | .resetPassword plain _ =>
    s.2 = .student ∧ ∀ row, IssuedWith c plain row → row.userId = s.1
  | .changePassword userId _ _ => s = (userId, .student)

/-- The subject is one that the call may have come to act for. -/
def Task.ActsFor [JsString] (c : Pool) (s : Subject) : Task → Prop
  | .verifyEmail plain | .resetPassword plain _ =>
    s.2 = .student ∧ ∃ row, IssuedWith c plain row ∧ row.userId = s.1
  | t => t.MadeBy c s

/-- The subject whose rows the call writes next. -/
def Errand.subject? : Errand → Option Subject
  | knows user _ => some (user.id, .student)
  | knowsAdmin admin _ => some (admin.id, .admin)
  | refreshing payload _ | stored payload _ _ | fresh payload _ _ | matched payload _
  | exchanged payload | leaving payload => some (payload.sub, payload.type)
  | entitled _ subjectId type | minted _ subjectId type _ | due subjectId type =>
    some (subjectId, type)
  | issuing userId _ | drawing userId _ | drawn userId _ _ | hashed userId _ _ _ =>
    some (userId, .student)
  | taking _ _ row | taken _ _ row => some (row.userId, .student)
  | changing userId _ _ | confirming userId _ _ _ | confirmed userId _ | rewriting userId _ _ =>
    some (userId, .student)
  | _ => none

/-- No two accounts of a kind have the same email. -/
structure DistinctEmails (w : World) : Prop where
  users : ∀ u ∈ w.users.rows, ∀ u' ∈ w.users.rows, u.email = u'.email → u.id = u'.id
  admins : ∀ a ∈ w.admins.rows, ∀ a' ∈ w.admins.rows, a.email = a'.email → a.id = a'.id

/-- The accounts are there, and no token yet. -/
structure Opened (w : World) : Prop where
  emails : DistinctEmails w
  noTokens : NoTokens w
  noAuthTokens : NoAuthTokens w

/-- JWTs are not forged, and the random bytes are hexadecimal. -/
def Genuinely (c : Pool) (l : PoolLabel) : Prop := Unforged c l ∧ HexTokens c l

theorem HasEmail.unique {email : String} {s s' : Subject} (hw : DistinctEmails w)
    (h : HasEmail w email s) (h' : HasEmail w email s') (htype : s.2 = s'.2) : s = s' := by
  obtain ⟨id, type⟩ := s
  obtain ⟨id', type'⟩ := s'
  obtain rfl : type = type' := htype
  cases type with
  | student =>
    obtain ⟨u, hu, rfl⟩ := h
    obtain ⟨u', hu', hemail⟩ := h'
    have hid := hw.users u (Table.get_some_iff.mp hu).1 u' (Table.get_some_iff.mp hu').1 hemail.symm
    have hkey : u.id = id := Table.key_of_get hu
    have hkey' : u'.id = id' := Table.key_of_get hu'
    rw [← hkey, ← hkey', hid]
  | admin =>
    obtain ⟨a, ha, rfl⟩ := h
    obtain ⟨a', ha', hemail⟩ := h'
    have hid := hw.admins a (Table.get_some_iff.mp ha).1 a' (Table.get_some_iff.mp ha').1 hemail.symm
    have hkey : a.id = id := Table.key_of_get ha
    have hkey' : a'.id = id' := Table.key_of_get ha'
    rw [← hkey, ← hkey', hid]

/-- A call that was made by a subject acts for nobody else. -/
theorem Task.ActsFor.unique [JsString] {c : Pool} {s s' : Subject} {t : Task}
    (hw : DistinctEmails c.world) (h : t.ActsFor c s') (hmade : t.MadeBy c s) : s' = s := by
  cases t with
  | register | loginStudent | loginAdmin | forgotPassword =>
    exact HasEmail.unique hw h.2 hmade.2 (h.1.trans hmade.1.symm)
  | refresh | logout | changePassword => exact h.trans hmade.symm
  | verifyEmail | resetPassword =>
    obtain ⟨htype, row, hissued, hrow⟩ := h
    refine Prod.ext ?_ (htype.trans hmade.1.symm)
    rw [← hrow]
    exact hmade.2 row hissued

section

variable [Bcrypt] [Jwt] [JsString] [AuthConfig] {c c' : Pool} {i : Nat} {g g' : Errand} {t : Task}

theorem HasEmail.mono {i : Nat} (hanswers : Answered authSystem i call w r w') {email : String}
    (h : HasEmail w email s) : HasEmail w' email s := by
  obtain ⟨id, type⟩ := s
  cases type with
  | student =>
    obtain ⟨user, huser, rfl⟩ := h
    obtain ⟨user', huser', hemail, -⟩ := (answered_users hanswers).email huser
    exact ⟨user', huser', hemail⟩
  | admin =>
    obtain ⟨admin, hadmin, rfl⟩ := h
    refine ⟨admin, ?_, rfl⟩
    rw [(answered_rest hanswers).2]
    exact hadmin

theorem Task.ActsFor.mono (hm : Moved errand authSystem c c' i call r g g') (h : t.ActsFor c s) :
    t.ActsFor c' s := by
  cases t with
  | register | loginStudent | loginAdmin | forgotPassword => exact ⟨h.1, h.2.mono hm.answers⟩
  | refresh | logout | changePassword => exact h
  | verifyEmail | resetPassword =>
    obtain ⟨htype, row, hissued, hrow⟩ := h
    exact ⟨htype, row, hissued.mono (log_mono hm), hrow⟩

theorem Task.ActsFor.start (h : t.ActsFor c s) (ts : List Task) {w : World}
    (husers : w.users = c.world.users) (hadmins : w.admins = c.world.admins) :
    t.ActsFor (c.start authSystem ts w) s := by
  have hemail : ∀ email, HasEmail c.world email s → HasEmail w email s := by
    obtain ⟨id, type⟩ := s
    intro email h
    cases type <;> simp only [HasEmail, husers, hadmins] at h ⊢ <;> exact h
  cases t with
  | register | loginStudent | loginAdmin | forgotPassword => exact ⟨h.1, hemail _ h.2⟩
  | refresh | logout | changePassword | verifyEmail | resetPassword => exact h

/-- A call that writes is at a place of the owner, or has just made the account. -/
theorem owner_of_goes {a : Resp call} (hI : Issued c) (hA : AllGenuine c)
    (hsigned : ∀ payload, g.payload? = some payload → Signed c payload)
    (hminted : ∀ origin subjectId type id, g = .minted origin subjectId type id →
      ∃ row, c.world.refreshTokens.get id = some row ∧ row.owner = some (subjectId, type))
    (hm : Moved errand authSystem c c' i call (.ok a) g g') (hn : g.Goes call a g')
    (hs : call.owner? c.world (.ok a) = some s) : g.subject? = some s ∨ g'.subject? = some s := by
  have hbefore := hm.before
  have hanswers := hm.answers
  cases hn with
  | stop hc => cases call <;> first | (cases hs; done) | cases hc
  | look => cases hs
  | enrol => exact .inr hs
  | supersede | verify | rewrite | revokeAll => exact .inl hs
  | save =>
    left
    rw [inserted_of_save hanswers] at hs
    exact hs
  | @take plain use row | @lost plain use row =>
    left
    obtain ⟨-, -, t, ht, hsame⟩ := hA.read i _ plain use hbefore rfl row (List.mem_singleton_self _)
    simp only [Call.owner?, ht, Option.map_some, (AuthToken.same_of_asIssued hsame).2.1] at hs
    exact hs
  | mint howner =>
    left
    rw [inserted_of_mint hanswers] at hs
    exact howner.symm.trans hs
  | @sign origin subjectId type id =>
    left
    obtain ⟨row, hrow, howner⟩ := hminted origin subjectId type id rfl
    simp only [Call.owner?, hrow, Option.bind_some, howner] at hs
    exact hs
  | @win payload row | @lose payload row =>
    left
    obtain ⟨t, ht, howner⟩ := hI.signed payload (hsigned payload rfl)
    rw [← hI.read i _ payload row hbefore rfl rfl] at ht
    simp only [Call.owner?, ht, Option.bind_some, howner] at hs
    exact hs
  | @leave payload =>
    left
    obtain ⟨t, ht, howner⟩ := hI.signed payload (hsigned payload rfl)
    simp only [Call.owner?, ht, Option.bind_some, howner] at hs
    exact hs
  | _ => cases hs

theorem DistinctEmails.step {i : Nat} (h : DistinctEmails w)
    (hanswers : Answered authSystem i call w r w') : DistinctEmails w' where
  users := by
    intro u hu u' hu' hemail
    have husers := answered_users hanswers
    rcases husers.origin hu with ⟨u₀, hu₀, hid, heq⟩ | ⟨henrols, hnew⟩ <;>
      rcases husers.origin hu' with ⟨u₁, hu₁, hid', heq'⟩ | ⟨henrols', hnew'⟩
    · rw [← hid, ← hid']
      exact h.users u₀ hu₀ u₁ hu₁ (heq.trans (hemail.trans heq'.symm))
    · exact absurd (heq.trans hemail) (hnew' u₀ hu₀)
    · exact absurd (heq'.trans hemail.symm) (hnew u₁ hu₁)
    · rw [Option.some.inj (henrols.symm.trans henrols')]
  admins := by
    rw [(answered_rest hanswers).2]
    exact h.admins

/-- What a run keeps apart. -/
structure Separate (c : Pool) : Prop where
  emails : DistinctEmails c.world
  owned : ∀ t ∈ c.world.refreshTokens.rows, ∃ s, t.owner = some s
  minted : ∀ i origin subjectId type id,
    errand.phase c i = some (.minted origin subjectId type id) →
      ∃ row, c.world.refreshTokens.get id = some row ∧ row.owner = some (subjectId, type)
  subject : ∀ i g t s, errand.phase c i = some g → c.task? i = some t → g.subject? = some s →
    t.ActsFor c s
  wrote : ∀ e ∈ c.log, ∃ t, c.task? e.proc = some t ∧
    (∀ s, e.call.owner? e.before e.res = some s → t.ActsFor c s) ∧
      ∀ s, (∀ s', e.call.owner? e.before e.res = some s' → s' = s) → Only s e.before e.after

theorem owner_of_mints {row : RefreshToken} (hm : Moved errand authSystem c c' i call r g g')
    (hmints : call.mints r = some row) : ∃ s, row.owner = some s := by
  rcases moved_cases hm with ⟨-, -, e, rfl⟩ | ⟨a, rfl, hn⟩
  · cases call <;> cases hmints
  · have hanswers := hm.answers
    cases hn with
    | stop hc => cases call <;> first | (cases hmints; done) | cases hc
    | @mint _ subjectId type _ _ howner =>
      have hinserted := inserted_of_mint hanswers
      cases hmints
      refine ⟨(subjectId, type), ?_⟩
      rw [hinserted]
      exact howner
    | _ => cases hmints

theorem Separate.minted_own (hS : Separate c) (hI : Issued c)
    (hm : Moved errand authSystem c c' i call r g g') {origin : Origin} {subjectId : Id}
    {type : AccountType} {id : Nat} (hg : g' = .minted origin subjectId type id) :
    ∃ row, c'.world.refreshTokens.get id = some row ∧ row.owner = some (subjectId, type) := by
  subst hg
  rcases moved_cases hm with ⟨-, hidle, -⟩ | ⟨a, rfl, hn⟩
  · cases hidle
  · have hbefore := hm.before
    have hanswers := hm.answers
    have hold : errand.phase c i = some (.minted origin subjectId type id) →
        ∃ row, c'.world.refreshTokens.get id = some row ∧ row.owner = some (subjectId, type) := by
      intro hg
      obtain ⟨row, hrow, howner⟩ := hS.minted i _ _ _ _ hg
      obtain ⟨row', hrow', howner', -⟩ := (answered_tokens hm.answers).kept hI.ids hrow
      exact ⟨row', hrow', howner'.trans howner⟩
    cases hn with
    | look => exact hold hbefore
    | hashJwt => exact hold hbefore
    | mint howner =>
      refine ⟨_, get_of_mints hanswers rfl, ?_⟩
      rw [inserted_of_mint hanswers]
      exact howner

omit [Bcrypt] [Jwt] [JsString] [AuthConfig] in
theorem hasEmail_of_find {email : String} {user : User}
    (h : w.users.rows.find? (·.email = email) = some user) :
    HasEmail w email (user.id, .student) :=
  ⟨user, Table.mem_rows_iff.mp (List.mem_of_find?_eq_some h), by simpa using List.find?_some h⟩

/-- A call comes to act for the account with its email, the owner of its payload, or the user whom
its token was issued to. -/
theorem Separate.subject_own (hexact : ExactOnTokens) (hS : Separate c) (hA : AllGenuine c)
    (hm : Moved errand authSystem c c' i call r g g') (ht : c.task? i = some t)
    (hs : g'.subject? = some s) : t.ActsFor c' s := by
  have hfits := fits_of_phase ht hm.before
  rcases moved_cases hm with ⟨-, rfl, -⟩ | ⟨a, rfl, hn⟩
  · cases hs
  · have hbefore := hm.before
    have hanswers := hm.answers
    have hold : g.subject? = some s → t.ActsFor c' s := fun hs =>
      (hS.subject i g t s hm.before ht hs).mono hm
    cases hn with
    | @findUser _ _ user =>
      obtain ⟨email, rfl, rfl⟩ := hfits
      cases hs
      have hfound : some user = c.world.users.rows.find? _ := says_of_answered hanswers
      exact ⟨rfl, (hasEmail_of_find hfound.symm).mono hanswers⟩
    | @forget _ user =>
      obtain ⟨email, rfl, rfl⟩ := hfits
      cases hs
      have hfound : some user = c.world.users.rows.find? _ := says_of_answered hanswers
      exact ⟨rfl, (hasEmail_of_find hfound.symm).mono hanswers⟩
    | @findAdmin _ _ admin =>
      obtain ⟨email, rfl, rfl⟩ := hfits
      cases hs
      have hfound : some admin = c.world.admins.rows.find? _ := says_of_answered hanswers
      have hadmin : HasEmail c.world (normalise email) (admin.id, .admin) :=
        ⟨admin, Table.mem_rows_iff.mp (List.mem_of_find?_eq_some hfound.symm), by
          simpa using List.find?_some hfound.symm⟩
      exact ⟨rfl, hadmin.mono hanswers⟩
    | @renew payload user htype =>
      have hget : some user = c.world.users.get payload.sub := says_of_answered hanswers
      have hid : user.id = payload.sub := Table.key_of_get hget.symm
      cases hs
      apply hold
      rw [hid, ← htype]
      rfl
    | @renewAdmin payload admin htype =>
      have hget : some admin = c.world.admins.get payload.sub := says_of_answered hanswers
      have hid : admin.id = payload.sub := Table.key_of_get hget.symm
      cases hs
      apply hold
      rw [hid, ← htype]
      rfl
    | @enrol dto row user hemail =>
      obtain rfl : t = .register dto := hfits
      cases hs
      obtain ⟨huser, -, htable⟩ := user_of_save hanswers
      refine ⟨rfl, user, ?_, ?_⟩
      · rw [htable]
        exact Table.get_put_of_eq _ rfl
      · rw [huser]
        exact hemail
    | @found plain use row =>
      have hmatch : true = Bcrypt.compare plain row.tokenHash := says_of_answered hanswers
      obtain ⟨-, -, t₀, ht₀, hsame⟩ :=
        hA.read i _ plain use hbefore rfl row (List.mem_cons_self ..)
      obtain ⟨-, huser, -, hhash, -⟩ := AuthToken.same_of_asIssued hsame
      have hissued := hA.issuedWith hexact (Table.get_some_iff.mp ht₀).1 (hhash ▸ hmatch.symm)
      have hfits : t.presents? = some (plain, use) := hfits
      have hacts : ∃ row', IssuedWith c' plain row' ∧ row'.userId = row.userId :=
        ⟨_, hissued.mono (log_mono hm), huser⟩
      cases hs
      cases t <;> cases hfits <;> exact ⟨rfl, hacts⟩
    | _ => first | exact hold hs | cases hs

/-- What the call writes is its subject's. -/
theorem Separate.wrote_own (hexact : ExactOnTokens) (hS : Separate c) (hI : Issued c)
    (hA : AllGenuine c) (hsigned : ∀ payload, g.payload? = some payload → Signed c payload)
    (hm : Moved errand authSystem c c' i call r g g') (ht : c.task? i = some t) :
    (∀ s, call.owner? c.world r = some s → t.ActsFor c' s) ∧
      ∀ s, (∀ s', call.owner? c.world r = some s' → s' = s) → Only s c.world c'.world := by
  constructor
  · intro s hs
    rcases moved_cases hm with ⟨hw, rfl, e, rfl⟩ | ⟨a, rfl, hn⟩
    · cases call <;> cases hs
    · have hminted : ∀ origin subjectId type id, g = .minted origin subjectId type id →
          ∃ row, c.world.refreshTokens.get id = some row ∧ row.owner = some (subjectId, type) := by
        rintro origin subjectId type id rfl
        exact hS.minted i origin subjectId type id hm.before
      rcases owner_of_goes hI hA hsigned hminted hm hn hs with hs | hs
      · exact (hS.subject i g t s hm.before ht hs).mono hm
      · exact hS.subject_own hexact hA hm ht hs
  · intro s hs
    exact ⟨(answered_users hm.answers).only hs,
      (answered_tokens hm.answers).only hs ⟨hS.owned, hI.ids⟩ fun row => owner_of_mints hm,
      (answered_authTokens hm.answers).only hs hA.ids⟩

theorem Separate.move (hexact : ExactOnTokens) (hS : Separate c) (hI : Issued c)
    (hA : AllGenuine c) (hsigned : ∀ payload, g.payload? = some payload → Signed c payload)
    (hm : Moved errand authSystem c c' i call r g g') : Separate c' where
  emails := hS.emails.step hm.answers
  owned := by
    intro t ht
    rcases (answered_tokens hm.answers).origin ht with ⟨t₀, ht₀, -, howner⟩ | hmints
    · rw [← howner]
      exact hS.owned t₀ ht₀
    · exact owner_of_mints hm hmints
  minted := by
    intro j origin subjectId type id hj
    rcases hm.phase_cases hj with ⟨rfl, hg⟩ | ⟨-, hj⟩
    · exact hS.minted_own hI hm hg.symm
    · obtain ⟨row, hrow, howner⟩ := hS.minted j origin subjectId type id hj
      obtain ⟨row', hrow', howner', -⟩ := (answered_tokens hm.answers).kept hI.ids hrow
      exact ⟨row', hrow', howner'.trans howner⟩
  subject := by
    intro j gj t s hj ht hs
    rw [hm.task] at ht
    rcases hm.phase_cases hj with ⟨rfl, rfl⟩ | ⟨-, hj⟩
    · exact hS.subject_own hexact hA hm ht hs
    · exact (hS.subject j gj t s hj ht hs).mono hm
  wrote := by
    intro e he
    rw [hm.log, List.mem_append, List.mem_singleton] at he
    rcases he with he | rfl
    · obtain ⟨t, ht, hacts, honly⟩ := hS.wrote e he
      exact ⟨t, (hm.task _).trans ht, fun s hs => (hacts s hs).mono hm, honly⟩
    · obtain ⟨t, ht⟩ := Monitor.task_of_phase hm.before
      exact ⟨t, (hm.task _).trans ht, hS.wrote_own hexact hI hA hsigned hm ht⟩

theorem separate (hexact : ExactOnTokens) (hr : Reach authSystem Opened Genuinely c) : Separate c := by
  refine errand_invariant ?_ ?_ ?_ ?_ hr
  · intro w hw
    refine ⟨hw.emails, ?_, ?_, ?_, ?_⟩
    · have hrows : (Config.initial w : Pool).world.refreshTokens.rows = [] := hw.noTokens
      simp [hrows]
    · intro i origin subjectId type id hg
      cases hg
    · intro i g t s hg
      cases hg
    · intro e he
      cases he
  · intro c t hr hI _
    have hlog := hr.logOk errand_sound
    refine ⟨hI.emails, hI.owned, ?_, ?_, ?_⟩
    · intro i origin subjectId type id hg
      rcases begun_cases hr hg with hg | ⟨-, hg⟩
      · exact hI.minted i origin subjectId type id hg
      · cases t <;> cases hg
    · intro i g t' s hg ht hs
      rcases Nat.lt_or_ge i c.procs.length with hi | hi
      · rw [Monitor.phase_start_of_lt hi] at hg
        rw [Config.task?, c.start_procs_of_lt authSystem hi] at ht
        exact (hI.subject i g t' s hg ht hs).start [t] rfl rfl
      · obtain ⟨t'', hmem, rfl, ht'', -⟩ := Monitor.phase_start_task hlog hi hg
        obtain rfl := List.mem_singleton.mp hmem
        cases ht''.symm.trans ht
        cases t' <;> cases hs <;> rfl
    · intro e he
      obtain ⟨t', ht', hacts, honly⟩ := hI.wrote e he
      refine ⟨t', ?_, fun s hs => (hacts s hs).start [t] rfl rfl, honly⟩
      rw [Config.task?, c.start_procs_of_lt authSystem (hlog e he)]
      exact ht'
  · intro c ms hr hI
    refine ⟨⟨hI.emails.users, hI.emails.admins⟩, hI.owned, ?_, ?_, ?_⟩
    · intro i origin subjectId type id hg
      exact hI.minted i origin subjectId type id (waited_phase hr hg)
    · intro i g t s hg ht hs
      have hg := waited_phase hr hg
      rw [Config.task?, c.start_procs_of_lt authSystem (Monitor.lt_of_phase hg)] at ht
      exact (hI.subject i g t s hg ht hs).start [] rfl rfl
    · intro e he
      obtain ⟨t, ht, hacts, honly⟩ := hI.wrote e he
      refine ⟨t, ?_, fun s hs => (hacts s hs).start [] rfl rfl, honly⟩
      rw [Config.task?, c.start_procs_of_lt authSystem (hr.logOk errand_sound e he)]
      exact ht
  · intro c c' i call r g g' hr hI _ hm
    have hunforged : Reach authSystem Opened Unforged c := hr.mono fun _ _ h => h.1
    have hhex : Reach authSystem Opened HexTokens c := hr.mono fun _ _ h => h.2
    exact hI.move hexact (issued (fun _ h => h.noTokens) hr) (allGenuine (fun _ h => h.noAuthTokens) hhex)
      (fun payload => signed_of_phase hunforged hm.before) hm

/-- Whatever a call changes is owned by the subject whose credentials or tokens it was made with,
and the rows of every other subject stay as they are. -/
theorem one_subject_at_a_time (hexact : ExactOnTokens) (hr : Reach authSystem Opened Genuinely c) :
    ∀ e ∈ c.log, ∀ t s, c.task? e.proc = some t → t.MadeBy c s →
      Only s e.before e.after ∧ ∀ s', s' ≠ s → Unchanged s' e.before e.after := by
  intro e he t s ht hmade
  have hS := separate hexact hr
  obtain ⟨t', ht', hacts, honly⟩ := hS.wrote e he
  cases ht'.symm.trans ht
  have h := honly s fun s' hs' => (hacts s' hs').unique hS.emails hmade
  exact ⟨h, fun s' hne => h.unchanged hne⟩

end

/-! ### A run -/

instance : ∀ c l, Decidable (Genuinely c l) := fun c l =>
  inferInstanceAs (Decidable (Unforged c l ∧ HexTokens c l))

theorem bureau_opened : Opened bureau where
  emails := ⟨by decide, by decide⟩
  noTokens := rfl
  noAuthTokens := rfl

set_option maxRecDepth 100000 in
/-- A student has a link sent to them, and resets their password with it (process 1). -/
theorem one_subject_at_a_time_reset : ∃ c, Reach bureauSystem Opened Genuinely c ∧
    c.task? 1 = some (.resetPassword hexToken "new") ∧ (c.reply? 1).isSome ∧
    ∀ e ∈ c.log, e.proc = 1 → Only ("U", .student) e.before e.after ∧
      ∀ s', s' ≠ ("U", .student) → Unchanged s' e.before e.after := by
  obtain ⟨c, hc, hp⟩ := (Option.any_eq_true _ _).mp (show
    (runIf bureauSystem Genuinely resetsTwice (.initial bureau)).any (fun c =>
      c.task? 1 = some (.resetPassword hexToken "new") ∧ (c.reply? 1).isSome ∧
        ∀ e ∈ c.log, (e.call.issues e.res).all (·.userId = "U") = true) = true by decide +kernel)
  have hr : Reach bureauSystem Opened Genuinely c := runIf_reach (.init bureau_opened) hc
  obtain ⟨htask, hreply, hissues⟩ := of_decide_eq_true hp
  have hmade : @Task.MadeBy plainString c ("U", .student) (.resetPassword hexToken "new") := by
    refine ⟨rfl, ?_⟩
    rintro row ⟨i, -, e, he, -, hrow⟩
    have hall := hissues e he
    rw [hrow] at hall
    simpa using hall
  refine ⟨c, hr, htask, hreply, fun e he hproc => ?_⟩
  exact @one_subject_at_a_time Exams.plainBcrypt plainJwt plainString development c
    plainBcrypt_exact hr e he _ _ (hproc ▸ htask) hmade

end LmsBackend.Auth
