import LmsBackend.Auth.Newest

/-!
# Accounts that cannot be verified any more

Only `register` issues verification tokens, and it refuses an email that is
taken. A user who has lost the token of their registration has no other way to
one: a reset link changes the password and leaves `email_verified` as it is.
-/

open Async Store

namespace LmsBackend.Auth

/-- An email with the token has been sent. -/
def Mailed (c : Pool) (plain : String) : Prop :=
  ∃ e ∈ c.log, ∃ mail : Mail, e.call = .sgMailSend mail ∧ e.res.isOk = true ∧ mail.token = plain

/-- The token matches none of the rows. -/
def Unlike [Bcrypt] (w : World) (plain : String) : Prop :=
  ∀ t ∈ w.authTokens.rows, Bcrypt.compare plain t.tokenHash = false

/-- The user has the tokens of `K`, and those of the emails that are sent now. No new token is like
an old one. -/
def Trying [Bcrypt] (w₀ : World) (K : List String) (c : Pool) : PoolLabel → Prop
  | .spawn t => ∀ presented ∈ t.presents?, presented.1 ∈ K ∨ Mailed c presented.1
  | .run i x => c.next? i = some .randomBytes → Unlike w₀ x
  | _ => True

/-- The user can call the service, beginning with the tables of `w₀`, until a login succeeds. -/
def CanLogIn [Bcrypt] [Jwt] [JsString] [AuthConfig] (w₀ : World) (K : List String)
    (email password : String) : Prop :=
  ∃ c i login refreshToken, Reach authSystem (· = w₀) (Trying w₀ K) c ∧
    c.task? i = some (.loginStudent email password) ∧ c.reply? i = some (.session login refreshToken)

/-! ## The tables -/

/-- What the constraints of the tables say. -/
structure Consistent (w : World) : Prop where
  emails : DistinctEmails w
  ids : ∀ t ∈ w.authTokens.rows, t.id < w.authTokenSeq
  owners : ∀ t ∈ w.authTokens.rows, (w.users.get t.userId).isSome = true

/-- A verification that has not been used. -/
def AuthToken.Pending (t : AuthToken) : Prop := t.purpose = .emailVerification ∧ t.usedAt = none

/-- The id is not that of a pending verification of `w₀`. -/
def Apart (w₀ : World) (id : Nat) : Prop := ∀ t ∈ w₀.authTokens.rows, t.Pending → t.id ≠ id

/-- What stays of `w₀`, where the user `u` has not verified their email. -/
structure Kept (w₀ : World) (u : User) (w : World) : Prop where
  now : w₀.now ≤ w.now
  users : ∀ id, (w₀.users.get id).isSome = true → (w.users.get id).isSome = true
  unverified : ∃ u', w.users.get u.id = some u' ∧ u'.email = u.email ∧ u'.emailVerified = false
  /-- The user gets no new verification token. -/
  own : ∀ t ∈ w.authTokens.rows, t.Pending → t.userId = u.id → t ∈ w₀.authTokens.rows
  pending : ∀ t ∈ w₀.authTokens.rows, t.Pending → t ∈ w.authTokens.rows

/-- The call leaves the user and all pending verifications of `w₀` as they are. -/
structure Call.Spares (w₀ : World) (u : User) (c : Call) : Prop where
  verify : ∀ at', c ≠ .usersUpdateVerified u.id at'
  save : ∀ row, c = .authTokensSave row → row.purpose = .emailVerification → row.userId ≠ u.id
  use : ∀ id usedAt, c = .authTokensUse id usedAt → Apart w₀ id
  useAll : ∀ userId usedAt, c = .authTokensUseAll userId .emailVerification usedAt →
    w₀.users.get userId = none

section

variable {w₀ w w' : World} {u : User} {call : Call} {r : Except Err (Resp call)}

theorem Call.spares_of_reads (hc : call.reads = true) : call.Spares w₀ u := by
  refine ⟨?_, ?_, ?_, ?_⟩
  · rintro at' rfl
    cases hc
  · rintro row rfl
    cases hc
  · rintro id usedAt rfl
    cases hc
  · rintro userId usedAt rfl
    cases hc

theorem UserStep.isSome (h : UserStep w w' call r) {id : Id} (hid : (w.users.get id).isSome = true) :
    (w'.users.get id).isSome = true := by
  obtain ⟨user, huser⟩ := Option.isSome_iff_exists.mp hid
  obtain ⟨user', huser', -⟩ := h.email huser
  rw [huser']
  rfl

/-- A user stays unverified, unless the call verifies them. -/
theorem UserStep.unverified (h : UserStep w w' call r) {id : Id} {user : User}
    (hu : w.users.get id = some user) (hunverified : user.emailVerified = false)
    (hverify : ∀ at', call ≠ .usersUpdateVerified id at') :
    ∃ user', w'.users.get id = some user' ∧ user'.email = user.email ∧ user'.emailVerified = false := by
  cases h with
  | same h => exact ⟨user, by rw [h]; exact hu, rfl, hunverified⟩
  | saved row x hnew _ h =>
    refine ⟨user, ?_, rfl, hunverified⟩
    rw [h, Table.get_put_of_ne]
    · exact hu
    · rintro hkey
      rw [show x = id from hkey, hu] at hnew
      cases hnew
  | password x passwordHash h =>
    rw [h, Table.get_update w.users x (fun u => { u with passwordHash := passwordHash }) fun _ => rfl]
    split
    · exact ⟨{ user with passwordHash := passwordHash }, by rw [hu]; rfl, rfl, hunverified⟩
    · exact ⟨user, hu, rfl, hunverified⟩
  | verified x at' h =>
    rw [h, Table.get_update w.users x
      (fun u => { u with emailVerified := true, emailVerifiedAt := some at' }) fun _ => rfl, if_neg]
    · exact ⟨user, hu, rfl, hunverified⟩
    · rintro rfl
      exact hverify at' rfl

theorem AuthToken.not_pending_of_used {t : AuthToken} (h : t.usedAt ≠ none) : ¬t.Pending :=
  fun hpending => h hpending.2

/-- No pending verification of the user is new. -/
theorem AuthTokenStep.own (h : AuthTokenStep w w' call r) (hspares : call.Spares w₀ u)
    {t : AuthToken} (ht : t ∈ w'.authTokens.rows) (hpending : t.Pending) (huser : t.userId = u.id) :
    t ∈ w.authTokens.rows := by
  cases h with
  | same _ _ h _ => exact h ▸ ht
  | saved row _ h _ =>
    rw [h, Table.mem_put] at ht
    rcases ht with rfl | ⟨ht, -⟩
    · exact absurd huser (hspares.save row rfl hpending.1)
    · exact ht
  | used row usedAt _ _ h _ =>
    rw [h, Table.mem_put] at ht
    rcases ht with rfl | ⟨ht, -⟩
    · exact absurd hpending (AuthToken.not_pending_of_used (by simp))
    · exact ht
  | usedAll userId purpose usedAt h _ =>
    rw [h, Table.mem_map] at ht
    obtain ⟨t₀, ht₀, rfl⟩ := ht
    unfold AuthToken.usedFor at hpending ⊢
    split at hpending
    · exact absurd hpending (AuthToken.not_pending_of_used (by simp))
    · rename_i hother
      rw [if_neg hother]
      exact ht₀

/-- The pending verifications of `w₀` stay. -/
theorem AuthTokenStep.pending (h : AuthTokenStep w w' call r) (hspares : call.Spares w₀ u)
    (hw₀ : Consistent w₀) (hw : Consistent w) {t : AuthToken} (ht₀ : t ∈ w₀.authTokens.rows)
    (hpending : t.Pending) (ht : t ∈ w.authTokens.rows) : t ∈ w'.authTokens.rows := by
  cases h with
  | same _ _ h _ => exact h ▸ ht
  | saved row _ h _ =>
    rw [h, Table.mem_put]
    exact .inr ⟨ht, Nat.ne_of_lt (hw.ids t ht)⟩
  | used row usedAt _ _ h _ =>
    rw [h, Table.mem_put]
    exact .inr ⟨ht, hspares.use row.id usedAt rfl t ht₀ hpending⟩
  | usedAll userId purpose usedAt h _ =>
    rw [h, Table.mem_map]
    refine ⟨t, ht, if_neg ?_⟩
    rintro ⟨rfl, rfl, -⟩
    rw [hpending.1] at hspares
    have howner := hw₀.owners t ht₀
    rw [hspares.useAll t.userId usedAt rfl] at howner
    cases howner

section

variable [Bcrypt] [Jwt] [JsString] [AuthConfig] {i : Nat}

theorem Consistent.step (h : Consistent w) (hanswers : Answered authSystem i call w r w') :
    Consistent w' where
  emails := h.emails.step hanswers
  ids := by
    intro t ht
    have hseq := (answered_authTokens hanswers).seq_le
    rcases (answered_authTokens hanswers).origin ht with ⟨t₀, ht₀, hsame⟩ | ⟨-, hid, hnext⟩
    · have hid := (AuthToken.same_of_asIssued hsame).1
      have := h.ids t₀ ht₀
      omega
    · omega
  owners := by
    intro t ht
    apply (answered_users hanswers).isSome
    have hstep := answered_authTokens hanswers
    rcases hstep.origin ht with ⟨t₀, ht₀, hsame⟩ | ⟨hissues, -, hnext⟩
    · rw [← (AuthToken.same_of_asIssued hsame).2.1]
      exact h.owners t₀ ht₀
    · cases hstep with
      | same _ _ _ hseq => omega
      | saved row huser =>
        cases hissues
        exact huser
      | _ => cases hissues

theorem Kept.step (h : Kept w₀ u w) (hw₀ : Consistent w₀) (hw : Consistent w)
    (hspares : call.Spares w₀ u) (hanswers : Answered authSystem i call w r w') : Kept w₀ u w' where
  now := by
    rw [(answered_rest hanswers).1]
    exact h.now
  users := fun id hid => (answered_users hanswers).isSome (h.users id hid)
  unverified := by
    obtain ⟨u', hu', hemail, hunverified⟩ := h.unverified
    obtain ⟨u'', hu'', hemail', hunverified'⟩ :=
      (answered_users hanswers).unverified hu' hunverified hspares.verify
    exact ⟨u'', hu'', hemail'.trans hemail, hunverified'⟩
  own := fun t ht hpending huser =>
    h.own t ((answered_authTokens hanswers).own hspares ht hpending huser) hpending huser
  pending := fun t ht hpending =>
    (answered_authTokens hanswers).pending hspares hw₀ hw ht hpending (h.pending t ht hpending)

end

end

/-! ## Places -/

section

variable [Bcrypt] (w₀ : World) (u : User) (K : List String)

/-- The user had the token before, or it is a new one. -/
def Presentable (plain : String) : Prop := plain ∈ K ∨ Unlike w₀ plain

/-- What is known of a row that a call has read. -/
def Seen : Use → AuthToken → Prop
  | .verify, row => (row ∈ w₀.authTokens.rows ∧ row.Pending ∧ w₀.newer .emailVerification row < 50) ∨
      Apart w₀ row.id ∧ row.userId ≠ u.id
  | .reset _, row => Apart w₀ row.id

/-- What is known at a place. -/
def Errand.Place : Errand → Prop
  | issuing userId purpose | drawing userId purpose =>
    purpose = .emailVerification → w₀.users.get userId = none
  | drawn userId purpose plain | hashed userId purpose plain _ =>
    (purpose = .emailVerification → w₀.users.get userId = none) ∧ Unlike w₀ plain
  | mailing plain => Unlike w₀ plain
  | presenting plain _ => Presentable w₀ K plain
  | scanning plain use rows => Presentable w₀ K plain ∧ ∀ row ∈ rows, Seen w₀ u use row
  | examining plain use row rows =>
    Presentable w₀ K plain ∧ (∀ row' ∈ row :: rows, Seen w₀ u use row') ∧ ¬row.expiresAt < w₀.now
  | taking plain use row => Presentable w₀ K plain ∧ Seen w₀ u use row ∧ ¬row.expiresAt < w₀.now ∧
      Bcrypt.compare plain row.tokenHash = true
  | taken _ use row => use = .verify → row.userId ≠ u.id
  | knows user _ => user.email = u.email → user.emailVerified = false
  | _ => True

/-- The place of a login with the email of the user. -/
def Errand.Barred : Errand → Prop
  | loggingIn email _ => email = u.email
  | knows user _ => user.email = u.email ∧ user.emailVerified = false
  | idle => True
  | _ => False

end

section

variable [Bcrypt] {w₀ w w' : World} {u : User} {K : List String} {g g' : Errand} {call : Call}

/-- A row that is taken is no pending verification of before. -/
theorem Seen.apart {plain : String} {use : Use} {row : AuthToken}
    (hK : ∀ plain ∈ K, w₀.opener .emailVerification plain = none) (hknown : Presentable w₀ K plain)
    (hseen : Seen w₀ u use row) (hexpires : ¬row.expiresAt < w₀.now)
    (hmatch : Bcrypt.compare plain row.tokenHash = true) :
    Apart w₀ row.id ∧ (use = .verify → row.userId ≠ u.id) := by
  cases use with
  | reset newPassword => exact ⟨hseen, nofun⟩
  | verify =>
    rcases hseen with ⟨hmem, hpending, hnewer⟩ | ⟨hapart, hother⟩
    · exfalso
      rcases hknown with hplain | hunlike
      · have hsome := opener_isSome hmem ⟨hpending.1, hpending.2, hexpires⟩ hmatch hnewer
        rw [hK plain hplain] at hsome
        cases hsome
      · rw [hunlike row hmem] at hmatch
        cases hmatch
    · exact ⟨hapart, fun _ => hother⟩

theorem Errand.Place.spares [JsString] {a : Resp call} (hu : u ∈ w₀.users.rows)
    (hK : ∀ plain ∈ K, w₀.opener .emailVerification plain = none) (h : g.Place w₀ u K)
    (hn : g.Goes call a g') : call.Spares w₀ u := by
  have hhas : (w₀.users.get u.id).isSome = true := by
    rw [show w₀.users.get u.id = some u from Table.mem_rows_iff.mp hu]
    rfl
  cases hn with
  | stop hc => exact Call.spares_of_reads hc
  | supersede =>
    refine ⟨nofun, nofun, nofun, ?_⟩
    rintro userId usedAt heq
    cases heq
    exact h rfl
  | @save plain row =>
    refine ⟨nofun, ?_, nofun, nofun⟩
    rintro row' heq hpurpose huser
    cases heq
    have hnone := h.1 hpurpose
    rw [huser] at hnone
    rw [hnone] at hhas
    cases hhas
  | lost =>
    obtain ⟨hknown, hseen, hexpires, hmatch⟩ := h
    refine ⟨nofun, nofun, ?_, nofun⟩
    rintro id usedAt heq
    cases heq
    exact (hseen.apart hK hknown hexpires hmatch).1
  | take =>
    obtain ⟨hknown, hseen, hexpires, hmatch⟩ := h
    refine ⟨nofun, nofun, ?_, nofun⟩
    rintro id usedAt heq
    cases heq
    exact (hseen.apart hK hknown hexpires hmatch).1
  | verify =>
    refine ⟨?_, nofun, nofun, nofun⟩
    intro at' heq
    injection heq with hid
    exact h rfl hid
  | look => exact ⟨nofun, nofun, nofun, nofun⟩
  | _ => exact ⟨nofun, nofun, nofun, nofun⟩

omit [Bcrypt] in
theorem newer_le (h : Kept w₀ u w) (t : AuthToken) :
    w₀.newer .emailVerification t ≤ w.newer .emailVerification t := by
  unfold World.newer
  rw [List.countP_eq_length_filter, List.countP_eq_length_filter]
  refine (List.Nodup.subperm (w₀.authTokens.nodup.of_map.filter _) ?_).length_le
  intro t' ht'
  rw [List.mem_filter, decide_eq_true_eq] at ht' ⊢
  exact ⟨h.pending t' ht'.1 ⟨ht'.2.1, ht'.2.2.1⟩, ht'.2⟩

omit [Bcrypt] in
theorem eq_of_same_id {t t' : AuthToken} (ht : t ∈ w.authTokens.rows) (ht' : t' ∈ w.authTokens.rows)
    (hid : t.id = t'.id) : t = t' := by
  have hget := Table.mem_rows_iff.mp ht
  rw [show Keyed.key t = Keyed.key t' from hid, Table.mem_rows_iff.mp ht'] at hget
  exact (Option.some.inj hget).symm

omit [Bcrypt] in
theorem Kept.seen (h : Kept w₀ u w) {use : Use} {row : AuthToken}
    (hrow : row ∈ w.unusedAuthTokens use.purpose) : Seen w₀ u use row := by
  obtain ⟨⟨hmem, hpurpose, hunused⟩, hnewer⟩ := mem_unusedAuthTokens_iff.mp hrow
  cases use with
  | reset newPassword =>
    intro t ht hpending hid
    have hsame := eq_of_same_id (h.pending t ht hpending) hmem hid
    rw [← hsame, hpending.1] at hpurpose
    cases hpurpose
  | verify =>
    by_cases hold : row ∈ w₀.authTokens.rows
    · exact .inl ⟨hold, ⟨hpurpose, hunused⟩, Nat.lt_of_le_of_lt (newer_le h row) hnewer⟩
    · right
      constructor
      · intro t ht hpending hid
        rw [eq_of_same_id (h.pending t ht hpending) hmem hid] at ht
        exact hold ht
      · exact fun huser => hold (h.own row hmem ⟨hpurpose, hunused⟩ huser)

omit [Bcrypt] in
/-- Whoever is found under the email of the user is not verified. -/
theorem Kept.unverified_of_find (h : Kept w₀ u w) (hw : Consistent w) {email : String} {user : User}
    (hfind : some user = w.users.rows.find? (·.email = email)) (hemail : user.email = u.email) :
    user.emailVerified = false := by
  obtain ⟨u', hu', hemail', hunverified⟩ := h.unverified
  have hmem := List.mem_of_find?_eq_some hfind.symm
  have hmem' := (Table.get_some_iff.mp hu').1
  have hid := hw.emails.users user hmem u' hmem' (hemail.trans hemail'.symm)
  have hget := Table.mem_rows_iff.mp hmem
  rw [show Keyed.key user = u.id from hid.trans (Table.key_of_get hu'), hu'] at hget
  cases hget
  exact hunverified

section

variable [Jwt] [JsString] [AuthConfig] {i : Nat} {a : Resp call}

theorem Errand.Place.goes (hK : ∀ plain ∈ K, w₀.opener .emailVerification plain = none)
    (hkept : Kept w₀ u w) (hw : Consistent w) (h : g.Place w₀ u K) (hn : g.Goes call a g')
    (hanswers : Answered authSystem i call w (.ok a) w')
    (hdraw : ∀ plain, call.draws (.ok a) = some plain → Unlike w₀ plain) : g'.Place w₀ u K := by
  cases hn with
  | look => exact h
  | findUser =>
    have hfind : some _ = w.users.rows.find? _ := says_of_answered hanswers
    exact fun hemail => hkept.unverified_of_find hw hfind hemail
  | @enrol _ _ user =>
    rintro -
    obtain ⟨-, hnew, -⟩ := user_of_save hanswers
    cases hold : w₀.users.get user.id with
    | none => rfl
    | some user' =>
      have hsome := hkept.users user.id (by rw [hold]; rfl)
      rw [hnew] at hsome
      cases hsome
  | forget => exact nofun
  | supersede => exact h
  | draw => exact ⟨h, hdraw _ rfl⟩
  | hashToken => exact h
  | save => exact h.2
  | candidates =>
    have hrows : _ = w.unusedAuthTokens _ := says_of_answered hanswers
    subst hrows
    exact ⟨h, fun row hrow => hkept.seen hrow⟩
  | pass => exact ⟨h.1, fun row hrow => h.2 row (List.mem_cons_of_mem _ hrow)⟩
  | examine hexpired =>
    have hnow : _ = w.now := says_of_answered hanswers
    subst hnow
    exact ⟨h.1, h.2, fun hlt => hexpired (lt_of_lt_of_le hlt hkept.now)⟩
  | other => exact ⟨h.1, fun row hrow => h.2.1 row (List.mem_cons_of_mem _ hrow)⟩
  | found =>
    have hmatch : true = Bcrypt.compare _ _ := says_of_answered hanswers
    exact ⟨h.1, h.2.1 _ (List.mem_cons_self ..), h.2.2, hmatch.symm⟩
  | take =>
    obtain ⟨hknown, hseen, hexpires, hmatch⟩ := h
    exact (hseen.apart hK hknown hexpires hmatch).2
  | _ => trivial

omit [Bcrypt] in
theorem Errand.Barred.goes [Bcrypt] (hkept : Kept w₀ u w) (hw : Consistent w) (h : g.Barred u)
    (hn : g.Goes call a g') (hanswers : Answered authSystem i call w (.ok a) w') : g'.Barred u := by
  cases hn with
  | stop => trivial
  | look => exact h
  | findUser =>
    have hfind : some _ = w.users.rows.find? _ := says_of_answered hanswers
    have hemail := List.find?_some hfind.symm
    have hemail := (of_decide_eq_true hemail).trans h
    exact ⟨hemail, hkept.unverified_of_find hw hfind hemail⟩
  | letIn hverified =>
    rw [h.2] at hverified
    cases hverified
  | _ => cases h

end

end

/-! ## Runs -/

section

variable [Bcrypt] [Jwt] [JsString] [AuthConfig] {w₀ : World} {u : User} {K : List String} {c c' : Pool}

/-- What holds while the user is trying. -/
structure Stuck (w₀ : World) (u : User) (K : List String) (c : Pool) : Prop where
  consistent : Consistent c.world
  kept : Kept w₀ u c.world
  places : ∀ i g, errand.phase c i = some g → g.Place w₀ u K
  mailed : ∀ plain, Mailed c plain → Unlike w₀ plain
  barred : ∀ i g email password, errand.phase c i = some g →
    c.task? i = some (.loginStudent email password) → normalise email = u.email → g.Barred u

theorem unlike_of_draws {i : Nat} {call : Call} {r : Except Err (Resp call)} {w : World} {plain : String}
    (hP : Reach.Allowed authSystem (Trying w₀ K) c i call r w) (hwaits : c.next? i = some call)
    (hdraws : call.draws r = some plain) : Unlike w₀ plain := by
  cases call with
  | randomBytes =>
    cases hP with
    | run hx hguard =>
      cases hx
      cases hdraws
      exact hguard hwaits
    | fail hr =>
      subst hr
      cases hdraws
  | _ => cases hdraws

theorem Stuck.mailed_own {i : Nat} {call : Call} {r : Except Err (Resp call)} {g g' : Errand}
    (h : Stuck w₀ u K c) (hm : Moved errand authSystem c c' i call r g g') {plain : String}
    (hmailed : Mailed c' plain) : Unlike w₀ plain := by
  obtain ⟨e, he, mail, hmail, hok, rfl⟩ := hmailed
  rw [hm.log, List.mem_append, List.mem_singleton] at he
  rcases he with he | rfl
  · exact h.mailed _ ⟨e, he, mail, hmail, hok, rfl⟩
  · rcases moved_cases hm with ⟨-, -, e, rfl⟩ | ⟨a, rfl, hn⟩
    · cases hok
    · have hplace := h.places i g hm.before
      obtain rfl : call = .sgMailSend mail := hmail
      cases hn with
      | mail => exact hplace
      | stop hc => cases hc

theorem Stuck.move {i : Nat} {call : Call} {r : Except Err (Resp call)} {g g' : Errand}
    (hw₀ : Consistent w₀) (hu : u ∈ w₀.users.rows)
    (hK : ∀ plain ∈ K, w₀.opener .emailVerification plain = none) (h : Stuck w₀ u K c)
    (hP : Reach.Allowed authSystem (Trying w₀ K) c i call r c'.world)
    (hm : Moved errand authSystem c c' i call r g g') : Stuck w₀ u K c' where
  consistent := h.consistent.step hm.answers
  kept := by
    rcases moved_cases hm with ⟨hw, -, -⟩ | ⟨a, rfl, hn⟩
    · rw [hw]
      exact h.kept
    · exact h.kept.step hw₀ h.consistent ((h.places i g hm.before).spares hu hK hn) hm.answers
  places := by
    intro j gj hj
    rcases hm.phase_cases hj with ⟨rfl, rfl⟩ | ⟨-, hj⟩
    · rcases moved_cases hm with ⟨-, rfl, -⟩ | ⟨a, rfl, hn⟩
      · trivial
      · exact (h.places _ g hm.before).goes hK h.kept h.consistent hn hm.answers fun plain hdraws =>
          unlike_of_draws hP hm.waits hdraws
    · exact h.places j gj hj
  mailed := fun plain hmailed => h.mailed_own hm hmailed
  barred := by
    intro j gj email password hj ht hemail
    rw [hm.task] at ht
    rcases hm.phase_cases hj with ⟨rfl, rfl⟩ | ⟨-, hj⟩
    · rcases moved_cases hm with ⟨-, rfl, -⟩ | ⟨a, rfl, hn⟩
      · trivial
      · exact (h.barred _ g email password hm.before ht hemail).goes h.kept h.consistent hn hm.answers
    · exact h.barred j gj email password hj ht hemail

theorem stuck (hw₀ : Consistent w₀) (hu : u ∈ w₀.users.rows) (hunverified : u.emailVerified = false)
    (hK : ∀ plain ∈ K, w₀.opener .emailVerification plain = none)
    (hr : Reach authSystem (· = w₀) (Trying w₀ K) c) : Stuck w₀ u K c := by
  refine errand_invariant ?_ ?_ ?_ ?_ hr
  · rintro w rfl
    refine ⟨hw₀, ⟨Int.le_refl _, fun _ h => h, ⟨u, Table.mem_rows_iff.mp hu, rfl, hunverified⟩,
      fun _ h _ _ => h, fun _ h _ => h⟩, ?_, ?_, ?_⟩
    · intro i g hg
      cases hg
    · rintro plain ⟨e, he, -⟩
      cases he
    · intro i g email password hg
      cases hg
  · intro c t hr hI hP
    refine ⟨hI.consistent, hI.kept, ?_, hI.mailed, ?_⟩
    · intro i g hg
      rcases begun_cases hr hg with hg | ⟨-, rfl⟩
      · exact hI.places i g hg
      · have hpresent : ∀ plain use, t.presents? = some (plain, use) → Presentable w₀ K plain :=
          fun plain use h => (hP (plain, use) h).imp id (hI.mailed plain)
        cases t with
        | verifyEmail plain => exact hpresent plain _ rfl
        | resetPassword plain newPassword => exact hpresent plain _ rfl
        | _ => trivial
    · intro i g email password hg ht hemail
      rcases begun_cases hr hg with hg | ⟨rfl, rfl⟩
      · rw [Config.task?, c.start_procs_of_lt authSystem (Monitor.lt_of_phase hg)] at ht
        exact hI.barred i g email password hg ht hemail
      · have htask : (begun c t).task? c.procs.length = some t := by
          simp [Config.task?, Config.start]
        cases htask.symm.trans ht
        exact hemail
  · intro c ms hr hI
    have hkept := hI.kept
    refine ⟨⟨⟨hI.consistent.emails.users, hI.consistent.emails.admins⟩, hI.consistent.ids,
      hI.consistent.owners⟩, ⟨?_, hkept.users, hkept.unverified, hkept.own, hkept.pending⟩, ?_,
      hI.mailed, ?_⟩
    · exact Int.le_trans hkept.now (Int.le_add_of_nonneg_right (Int.natCast_nonneg _))
    · exact fun i g hg => hI.places i g (waited_phase hr hg)
    · intro i g email password hg ht
      have hg := waited_phase hr hg
      rw [Config.task?, c.start_procs_of_lt authSystem (Monitor.lt_of_phase hg)] at ht
      exact hI.barred i g email password hg ht
  · intro c c' i call r g g' hr hI hP hm
    exact hI.move hw₀ hu hK hP hm

/-- Without a token that still opens, no login succeeds. -/
theorem opener_of_canLogIn (hw₀ : Consistent w₀) (hu : u ∈ w₀.users.rows)
    (hunverified : u.emailVerified = false) {email password : String}
    (hemail : normalise email = u.email) (h : CanLogIn w₀ K email password) :
    ∃ plain ∈ K, (w₀.opener .emailVerification plain).isSome = true := by
  by_contra hnone
  obtain ⟨c, i, login, refreshToken, hr, ht, hreply⟩ := h
  have hK : ∀ plain ∈ K, w₀.opener .emailVerification plain = none := by
    intro plain hplain
    cases hopener : w₀.opener .emailVerification plain with
    | none => rfl
    | some t => exact absurd ⟨plain, hplain, by rw [hopener]; rfl⟩ hnone
  obtain ⟨origin, subjectId, type, hg⟩ := signedIn_of_reply hr hreply
  exact (stuck hw₀ hu hunverified hK hr).barred i _ email password hg ht hemail

/-! ## With a token that opens -/

/-- The call is on no way to a new token. -/
def Errand.Drawless : Errand → Prop
  | issuing _ _ | drawing _ _ | drawn _ _ _ | hashed _ _ _ _ | mailing _ | registering _ | unregistered _
  | enrolling _ _ | forgetting _ => False
  | _ => True

omit [Bcrypt] [Jwt] [AuthConfig] in
theorem Errand.Drawless.goes {g g' : Errand} {call : Call} {a : Resp call} (h : g.Drawless)
    (hn : g.Goes call a g') : g'.Drawless := by
  cases hn with
  | look => exact h
  | _ => trivial

/-- Such a call draws no random bytes. -/
theorem next_ne_randomBytes {init : World → Prop} {P : Pool → PoolLabel → Prop}
    (hr : Reach authSystem init P c) {i : Nat} {t : Task} (ht : c.task? i = some t)
    (hstart : (Errand.start t).Drawless) : c.next? i ≠ some .randomBytes := by
  intro hnext
  obtain ⟨g, hg, hallowed⟩ := (hr.conforms errand_sound).allows hnext
  have hdrawless : g.Drawless := by
    refine Monitor.phase_always ht hg hstart ?_
    intro g call r g' h hn
    cases r with
    | error e =>
      cases hn
      trivial
    | ok a => exact h.goes (Errand.goes_of_next hn)
  obtain ⟨g', hg'⟩ := hallowed ""
  have hg' : g.nextOk .randomBytes "" = some g' := hg'
  cases g <;> first | (cases hg'; done) | cases hdrawless

variable {w : World}

/-- What `verifyEmail` does to the users, for a token that opens. -/
theorem verifyEmail_wlp {i : Nat} {f : Option (Fault World Call)} (hf : f ≠ none) {plain : String}
    {t : AuthToken} (hopener : w.opener .emailVerification plain = some t) :
    wlp authSystem i f (Task.prog (.verifyEmail plain)) w fun _ _ w' =>
      w'.users = w.users.update t.userId fun u =>
        { u with emailVerified := true, emailVerifiedAt := some w.now } := by
  simp only [Task.prog, AuthService.verifyEmail, await, Prog.bind_eq, Prog.pure_eq, wlp_bind, wlp_await,
    wlp_ret]
  refine wlp_mono (wlp_faulty hf (consumeAuthToken_wlp hf)) ?_
  rintro f r w₁ ⟨hf, hconsumed⟩
  rw [hopener] at hconsumed
  obtain ⟨rfl, rfl⟩ := hconsumed
  refine ⟨?_, fun h => absurd h hf⟩
  rintro x _ _ ⟨⟩
  refine ⟨?_, fun h => absurd h hf⟩
  rintro x _ _ ⟨⟩
  rfl

/-- A call on no way to a new token can run to its end while the user is trying. -/
theorem exists_trying (hr : Reach authSystem (· = w) (Trying w K) c) {t : Task}
    (hspawn : ∀ presented ∈ t.presents?, presented.1 ∈ K) (hstart : (Errand.start t).Drawless) :
    ∃ c' r, Reach authSystem (· = w) (Trying w K) c' ∧
      Ends authSystem c.procs.length none c.world t.prog c'.world r ∧
      c'.procs[c.procs.length]? = some ⟨t, c.world, .answer r⟩ := by
  have hP : Trying w K c (.spawn t) := fun presented h => .inl (hspawn presented h)
  have hbegin : Reach authSystem (· = w) (Trying w K) (begun c t) := .step hr hP (.spawn rfl)
  have hproc : (begun c t).procs[c.procs.length]? = some ⟨t, c.world, t.prog⟩ := by
    simp [Config.start, authSystem]
  obtain ⟨w', r, hends⟩ := exists_ends (S := authSystem) (exec_answers (i := c.procs.length)) t.prog c.world
  obtain ⟨c', hr', rfl, hp⟩ := hends.reach (t := t) (fun c x hr ht hnext =>
    absurd hnext (next_ne_randomBytes hr ht hstart)) hbegin rfl hproc
  exact ⟨c', r, hr', hends, hp⟩

/-- A token that opens lets the user in, who knows the password. -/
theorem canLogIn_of_opener (hw : Consistent w) (hu : u ∈ w.users.rows) (hactive : u.active = true)
    {email password : String} (hemail : normalise email = u.email)
    (hpassword : Bcrypt.compare password u.passwordHash = true) {plain : String} (hplain : plain ∈ K)
    {t : AuthToken} (hopener : w.opener .emailVerification plain = some t) (huser : t.userId = u.id) :
    CanLogIn w K email password := by
  -- `verifyEmail` runs first, and then the login.
  have hpresents : ∀ presented ∈ (Task.verifyEmail plain).presents?, presented.1 ∈ K := by
    rintro _ ⟨⟩
    exact hplain
  obtain ⟨c, _, hr, hverify, -⟩ := exists_trying (c := .initial w) (.init rfl) hpresents trivial
  have husers : c.world.users = w.users.update t.userId fun u =>
      { u with emailVerified := true, emailVerifiedAt := some w.now } :=
    hverify.wlp_none (verifyEmail_wlp (f := some ⟨w, .now⟩) nofun hopener)
  obtain ⟨c', r, hr', hlogin, hp⟩ := exists_trying (t := .loginStudent email password) hr nofun trivial
  have hget : c.world.users.get u.id =
      some { u with emailVerified := true, emailVerifiedAt := some w.now } := by
    rw [husers, Table.get_update w.users t.userId
      (fun u => { u with emailVerified := true, emailVerifiedAt := some w.now }) fun _ => rfl, if_pos huser,
      show w.users.get u.id = some u from Table.mem_rows_iff.mp hu]
    rfl
  have hdistinct : DistinctEmails c.world := by
    refine distinctEmails ?_ hr
    rintro _ rfl
    exact hw.emails
  have hfind := find_of_email hdistinct (Table.get_some_iff.mp hget).1 hemail.symm
  have hsession : ∃ login refreshToken, r = .ok (.session login refreshToken) := by
    have hfault : some (⟨w, .now⟩ : Fault World Call) ≠ none := nofun
    refine hlogin.wlp_none (f := some ⟨w, .now⟩)
      (Q := fun _ r _ => ∃ login refreshToken, r = .ok (.session login refreshToken)) ?_
    rw [Task.prog, Prog.bind_eq, wlp_bind]
    refine wlp_mono (loginStudent_wlp hfault hfind hactive rfl) ?_
    intro f r w hok
    cases r with
    | ok a => exact ⟨a.1, a.2, rfl⟩
    | error e => cases hok.mpr hpassword
  obtain ⟨login, refreshToken, rfl⟩ := hsession
  refine ⟨c', c.procs.length, login, refreshToken, hr', ?_, ?_⟩
  · rw [Config.task?, hp]
    rfl
  · rw [Config.reply?, Config.prog?, hp]
    rfl

theorem consistent {P : Pool → PoolLabel → Prop} (hr : Reach authSystem Opened P c) :
    Consistent c.world := by
  refine errand_invariant (I := fun c => Consistent c.world) ?_ ?_ ?_ ?_ hr
  · intro w hw
    have hrows : w.authTokens.rows = [] := hw.noAuthTokens
    refine ⟨hw.emails, ?_, ?_⟩ <;> simp [Config.initial, hrows]
  · intro c t hr hI _
    exact hI
  · intro c ms hr hI
    exact ⟨⟨hI.emails.users, hI.emails.admins⟩, hI.ids, hI.owners⟩
  · intro c c' i call r g g' hr hI _ hm
    exact hI.step hm.answers

/-- With the tokens of new emails alone an active user whose email is not verified never gets in,
from no state. With tokens that were sent to them before they do exactly when `verifyEmail` accepts
one of them. -/
theorem stranded {P : Pool → PoolLabel → Prop} (hr : Reach authSystem Opened P c)
    (hu : u ∈ c.world.users.rows) (hactive : u.active = true) (hunverified : u.emailVerified = false)
    {email password : String} (hemail : normalise email = u.email)
    (hpassword : Bcrypt.compare password u.passwordHash = true) :
    ¬CanLogIn c.world [] email password ∧
      ∀ K, (∀ plain ∈ K, ∀ t ∈ c.world.authTokens.rows, Bcrypt.compare plain t.tokenHash = true →
          t.userId = u.id) →
        (CanLogIn c.world K email password ↔
          ∃ plain ∈ K, (c.world.opener .emailVerification plain).isSome = true) := by
  have hw := consistent hr
  constructor
  · intro h
    obtain ⟨plain, hplain, -⟩ := opener_of_canLogIn hw hu hunverified hemail h
    cases hplain
  · intro K hK
    constructor
    · exact opener_of_canLogIn hw hu hunverified hemail
    · rintro ⟨plain, hplain, hopener⟩
      obtain ⟨t, ht⟩ := Option.isSome_iff_exists.mp hopener
      obtain ⟨hmem, -, hmatch⟩ := opener_spec ht
      exact canLogIn_of_opener hw hu hactive hemail hpassword hplain ht (hK plain hplain t hmem hmatch)

end

/-! ### An email that was not sent -/

@[reducible] def production : AuthConfig where
  jwtSecret := "access secret"
  jwtRefreshSecret := "refresh secret"
  accessTtlSec := 900
  refreshTtlSec := 604800
  isProd := true

abbrev productionSystem : System World Call Resp Err Reply Task Choice Tick :=
  @authSystem Exams.plainBcrypt plainJwt plainString production

/-- SendGrid rejects the verification email, which `register` does not tell. -/
def registersUnsent : List PoolLabel :=
  .spawn (.register ⟨"v@example.com", "password", "A", "B",
    ⟨none, none, none, none, none, none, none, none, none⟩, none⟩) ::
  calls 0 2 ++ .run 0 "V" :: calls 0 2 ++ .run 0 hexToken :: calls 0 3 ++ [.fail 0]

/-- The user of the registration, with its row. -/
def Unsent (c : Pool) (u : User) : Prop :=
  u.email = "v@example.com" ∧ u.active = true ∧ u.emailVerified = false ∧ u.passwordHash = "password" ∧
    (c.reply? 0).isSome = true ∧ (∀ t ∈ c.world.authTokens.rows, t.userId = u.id) ∧
    (@World.opener Exams.plainBcrypt c.world .emailVerification hexToken).isSome = true

instance (c : Pool) (u : User) : Decidable (Unsent c u) := inferInstanceAs (Decidable (_ ∧ _))

set_option maxRecDepth 100000 in
theorem exists_unsent : ∃ c, Reach productionSystem Opened anyStep c ∧
    ∃ u ∈ c.world.users.rows, Unsent c u := by
  obtain ⟨c, hc, hp⟩ := (Option.any_eq_true _ _).mp (show
    (runIf productionSystem anyStep registersUnsent (.initial bureau)).any (fun c =>
      ∃ u ∈ c.world.users.rows, Unsent c u) = true by decide)
  exact ⟨c, runIf_reach (.init bureau_opened) hc, of_decide_eq_true hp⟩

/-- Only the token that was not sent would let the user in. -/
theorem stranded_unsent : ∃ c, Reach productionSystem Opened anyStep c ∧
    (¬@CanLogIn Exams.plainBcrypt plainJwt plainString production c.world [] "v@example.com" "password") ∧
    @CanLogIn Exams.plainBcrypt plainJwt plainString production c.world [hexToken] "v@example.com"
      "password" := by
  obtain ⟨c, hr, u, hu, hemail, hactive, hunverified, hpassword, -, howner, hopener⟩ := exists_unsent
  obtain ⟨hnever, hiff⟩ := @stranded Exams.plainBcrypt plainJwt plainString production u c anyStep hr hu
    hactive hunverified "v@example.com" "password" hemail.symm (by rw [hpassword]; rfl)
  exact ⟨c, hr, hnever, (hiff [hexToken] fun _ _ t ht _ => howner t ht).mpr
    ⟨hexToken, List.mem_singleton_self _, hopener⟩⟩

/-- The user of the registration knows the password, and no calls get them in. -/
theorem unsent_never_logs_in :
    ¬∀ c, Reach productionSystem Opened anyStep c → ∀ u ∈ c.world.users.rows, u.active = true →
      u.emailVerified = false → ∀ email password, @normalise plainString email = u.email →
      Exams.plainBcrypt.compare password u.passwordHash = true →
        @CanLogIn Exams.plainBcrypt plainJwt plainString production c.world [] email password := by
  intro hall
  obtain ⟨c, hr, u, hu, hemail, hactive, hunverified, hpassword, -⟩ := exists_unsent
  have hin := hall c hr u hu hactive hunverified "v@example.com" "password" hemail.symm
    (by rw [hpassword]; rfl)
  obtain ⟨plain, hplain, -⟩ := @opener_of_canLogIn Exams.plainBcrypt plainJwt plainString production
    c.world u [] (@consistent Exams.plainBcrypt plainJwt plainString production c anyStep hr) hu hunverified
    "v@example.com" "password" hemail.symm hin
  cases hplain

end LmsBackend.Auth
