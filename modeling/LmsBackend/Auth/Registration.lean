import LmsBackend.Async.Interpret
import LmsBackend.Auth.OneUnused
import LmsBackend.Auth.Settling

/-!
# All or nothing in a registration

`register` looks for the email, inserts the user, and issues their first token in
statements of their own. What rejects after the INSERT leaves the user behind,
and two registrations that both find the email free do not both get to it.
-/

open Async Store

namespace LmsBackend.Auth

/-- How far a registration has come. -/
inductive Signup where
  /-- It is another call. -/
  | other
  | looking (email : String)
  /-- The email was taken. -/
  | refused (email : String)
  /-- The email was not taken. -/
  | free (email : String)
  | enrolled (email : String)
  /-- The unused tokens of the user are superseded. -/
  | issuing (email : String)
  /-- A call has rejected before the user was inserted. -/
  | lost
  /-- A call has rejected after the user was inserted. -/
  | stranded
  deriving DecidableEq

/-- The first statement of `issueAuthToken`. -/
def Call.usesAll : Call → Bool
  | .authTokensUseAll _ _ _ => true
  | _ => false

/-- What `issueAuthToken` awaits. -/
def Call.ofIssue : Call → Bool
  | .authTokensUseAll _ _ _ | .bcryptHash _ | .authTokensSave _ => true
  | _ => false

/-- What a registration calls once the tokens are superseded. -/
def Call.afterSuperseding : Call → Bool
  | .now | .randomBytes | .bcryptHash _ | .authTokensSave _ | .sgMailSend _ => true
  | _ => false

namespace Signup

def start [JsString] : Task → Signup
  | .register dto => .looking (normalise dto.email)
  | _ => .other

def nextOk (g : Signup) (c : Call) (a : Resp c) : Option Signup :=
  match g, c, a with
  | .other, _, _ => some .other
  | .looking email, .usersFindByEmail email', user? =>
    if email' = email then some (if user?.isSome then .refused email else .free email) else none
  | .free email, .bcryptHash _, _ => some (.free email)
  | .free email, .usersSave row, _ => if row.email = email then some (.enrolled email) else none
  | .enrolled email, .now, _ => some (.enrolled email)
  | .enrolled email, .authTokensUseAll _ _ _, _ => some (.issuing email)
  | .issuing email, c, _ => if c.afterSuperseding then some (.issuing email) else none
  | _, _, _ => none

def reject : Signup → Call → Signup
  | .other, _ => .other
  | .enrolled _, _ => .stranded
  | .issuing email, c => if c.mails then .issuing email else .stranded
  | _, _ => .lost

theorem reject_issuing (email : String) (c : Call) :
    (issuing email).reject c = if c.mails then .issuing email else .stranded := rfl

def final (r : Except Err Reply) : Signup → Prop
  | .other => True
  | .looking _ | .free _ | .enrolled _ => False
  | .refused _ => r = .error (.conflict "Email is unavailable")
  | .issuing _ => r.isOk = true
  | .lost | .stranded => r.isOk = false

end Signup

def signup [JsString] : Monitor Call Resp Err Reply Task Signup where
  start := Signup.start
  next := Signup.nextOk
  failed := Signup.reject
  final := Signup.final

@[simp] theorem signup_start [JsString] : signup.start = Signup.start := rfl

@[simp] theorem signup_next [JsString] : signup.next = Signup.nextOk := rfl

@[simp] theorem signup_failed [JsString] : signup.failed = Signup.reject := rfl

section

open AuthService Signup

variable [JsString]

/-- It takes a registration from the first place to the second, or is where one is left. -/
abbrev Enrols {α : Type} (p : Promise α) (g g' : Signup) : Prop :=
  signup.wp p g (fun _ g => g = g') fun _ g => g = .stranded

theorem Enrols.bind {α β : Type} {p : Promise α} {f : α → Promise β} {g g' g'' : Signup}
    (hp : Enrols p g g') (hf : ∀ a, Enrols (f a) g' g'') : Enrols (p >>= f) g g'' := by
  refine (signup.wp_bind _).mpr (signup.wp_mono hp ?_ fun _ _ h => h)
  rintro a _ rfl
  exact hf a

theorem issues_await {c : Call} {email : String} (hc : c.afterSuperseding = true)
    (hmails : c.mails = false) : Enrols (await c) (.issuing email) (.issuing email) := by
  refine (signup.wp_await c).mpr ⟨fun a => ⟨.issuing email, ?_, rfl⟩, fun _ => ?_⟩
  · exact if_pos hc
  · simp [Signup.reject, hmails]

theorem issueAuthToken_enrols (userId : Id) (purpose : AuthTokenPurpose) (ttlHours : Int)
    (email : String) :
    Enrols (issueAuthToken userId purpose ttlHours) (.enrolled email) (.issuing email) := by
  have hnow : Enrols (await .now) (.enrolled email) (.enrolled email) :=
    (signup.wp_await _).mpr ⟨fun _ => ⟨_, rfl, rfl⟩, fun _ => rfl⟩
  refine hnow.bind fun usedAt => ?_
  have hsuperseded : Enrols (await (.authTokensUseAll userId purpose usedAt)) (.enrolled email)
      (.issuing email) :=
    (signup.wp_await _).mpr ⟨fun _ => ⟨_, rfl, rfl⟩, fun _ => rfl⟩
  refine hsuperseded.bind fun _ => ?_
  refine .bind (issues_await rfl rfl) fun plainToken => ?_
  refine .bind (issues_await rfl rfl) fun tokenHash => ?_
  refine .bind (issues_await rfl rfl) fun now => ?_
  exact .bind (issues_await rfl rfl) fun _ => rfl

theorem send_enrols [AuthConfig] (mail : Mail) (email : String) :
    Enrols (MailService.send mail) (.issuing email) (.issuing email) := by
  unfold MailService.send
  split
  · refine (signup.wp_handle _).mpr ((signup.wp_await _).mpr ⟨fun _ => ?_, fun _ => rfl⟩)
    exact ⟨_, rfl, rfl⟩
  · rfl

theorem dispatchVerificationEmail_enrols [AuthConfig] (user : User) (email : String) :
    Enrols (dispatchVerificationEmail user) (.enrolled email) (.issuing email) :=
  .bind (issueAuthToken_enrols _ _ _ email) fun _ => send_enrols _ email

/-- A registration ends with the value once its token is issued, and with the error of its place. -/
theorem register_signup [AuthConfig] (dto : RegisterDto) :
    signup.wp (register dto) (.looking (normalise dto.email))
      (fun _ g => g = .issuing (normalise dto.email))
      fun e g => g = .lost ∨ g = .stranded ∨
        g = .refused (normalise dto.email) ∧ e = .conflict "Email is unavailable" := by
  refine (signup.wp_bind _).mpr ((signup.wp_await _).mpr ⟨fun existing => ?_, fun _ => .inl rfl⟩)
  refine ⟨_, if_pos rfl, ?_⟩
  cases existing with
  | some user => exact .inr (.inr ⟨rfl, rfl⟩)
  | none =>
    refine (signup.wp_bind _).mpr ((signup.wp_await _).mpr ⟨fun passwordHash => ?_, fun _ => .inl rfl⟩)
    refine ⟨_, rfl, ?_⟩
    refine (signup.wp_bind _).mpr ((signup.wp_await _).mpr ⟨fun user => ?_, fun _ => .inl rfl⟩)
    refine ⟨_, if_pos rfl, ?_⟩
    refine signup.wp_mono (Enrols.bind (dispatchVerificationEmail_enrols user _) fun _ => ?_)
      (fun _ _ h => h) fun _ _ h => .inr (.inl h)
    rfl

theorem signup_sound [Bcrypt] [Jwt] [AuthConfig] : signup.Sound authSystem := by
  intro t
  have hother : ∀ p : Promise Reply, signup.Keeps p .other := by
    intro p
    refine signup.wp_mono (Contract.Meets.wp ?_
      (fun _ _ => trivial) (Contract.meets_only fun _ => trivial) rfl) ?_ ?_
    · rintro _ c r rfl -
      cases r <;> exact ⟨_, rfl, rfl⟩
    · rintro a _ rfl
      trivial
    · rintro e _ rfl
      trivial
  cases t with
  | register dto =>
    refine (signup.wp_bind _).mpr (signup.wp_mono (register_signup dto) ?_ ?_)
    · rintro a _ rfl
      rfl
    · rintro e _ (rfl | rfl | ⟨rfl, rfl⟩) <;> rfl
  | _ => exact hother _

end

/-! ## What the place of a registration shows -/

/-- The answer takes a registration from the first place to the second. -/
inductive Signup.Goes : Signup → (c : Call) → Resp c → Signup → Prop where
  | other {c a} : Goes .other c a .other
  | taken {email user} : Goes (.looking email) (.usersFindByEmail email) (some user) (.refused email)
  | vacant {email} : Goes (.looking email) (.usersFindByEmail email) none (.free email)
  | hash {email plain made} : Goes (.free email) (.bcryptHash plain) made (.free email)
  | enrol {row user} : Goes (.free row.email) (.usersSave row) user (.enrolled row.email)
  | clock {email now} : Goes (.enrolled email) .now now (.enrolled email)
  | supersede {email userId purpose usedAt done} :
    Goes (.enrolled email) (.authTokensUseAll userId purpose usedAt) done (.issuing email)
  | after {email c a} (hc : c.afterSuperseding = true) : Goes (.issuing email) c a (.issuing email)

theorem Signup.goes_of_next {g g' : Signup} {call : Call} {a : Resp call}
    (h : g.nextOk call a = some g') : g.Goes call a g' := by
  unfold Signup.nextOk at h
  split at h
  · cases h
    exact .other
  · rename_i email email' user?
    split at h
    · subst email'
      cases user? <;> cases h
      · exact .vacant
      · exact .taken
    · cases h
  · cases h
    exact .hash
  · split at h
    · subst_vars
      cases h
      exact .enrol
    · cases h
  · cases h
    exact .clock
  · cases h
    exact .supersede
  · split at h
    · cases h
      exact .after ‹_›
    · cases h
  · cases h

section

variable [JsString]

def Registers (c : Pool) (i : Nat) (email : String) : Prop :=
  ∃ dto, c.task? i = some (.register dto) ∧ normalise dto.email = email

end

/-- The call has inserted the user. -/
def Inserted (c : Pool) (i : Nat) (u : User) : Prop :=
  ∃ e ∈ c.log, e.proc = i ∧ e.call.enrols e.res = some u

/-- The call has inserted a user, and their row is there. -/
def LeftUser (c : Pool) (i : Nat) : Prop :=
  ∃ u, Inserted c i u ∧ (c.world.users.get u.id).isSome = true

/-- The call has come to `issueAuthToken`. -/
def BeginsIssue (c : Pool) (i : Nat) : Prop := ∃ e ∈ c.log, e.proc = i ∧ e.call.usesAll = true

/-- A call as `issueAuthToken` awaits them has rejected. -/
def Rejected (c : Pool) (i : Nat) : Prop :=
  ∃ e ∈ c.log, e.proc = i ∧ e.call.ofIssue = true ∧ e.res.isOk = false

/-- A call that `issueAuthToken` awaits has rejected. What comes before it hashes the password. -/
def TokenFailed (c : Pool) (i : Nat) : Prop := BeginsIssue c i ∧ Rejected c i

def World.HasEmail (w : World) (email : String) : Prop := ∃ u ∈ w.users.rows, u.email = email

namespace Signup

/-- What the place of call `i` shows of the log and the table. -/
def Shows (c : Pool) (i : Nat) : Signup → Prop
  | other => True
  | lost => (∀ u, ¬Inserted c i u) ∧ ¬BeginsIssue c i
  | looking _ | free _ => (∀ u, ¬Inserted c i u) ∧ ¬BeginsIssue c i ∧ ¬Rejected c i
  | refused email => (∀ u, ¬Inserted c i u) ∧ ¬BeginsIssue c i ∧ c.world.HasEmail email
  | enrolled email => (∃ u, Inserted c i u ∧ u.email = email) ∧ ¬Rejected c i
  | issuing email => (∃ u, Inserted c i u ∧ u.email = email) ∧ ¬Rejected c i ∧ BeginsIssue c i
  | stranded => (∃ u, Inserted c i u) ∧ TokenFailed c i

end Signup

section

variable [Bcrypt] [Jwt] [JsString] [AuthConfig] {c c' : Pool} {i : Nat} {call : Call}
  {r : Except Err (Resp call)} {g g' : Signup} {init : World → Prop}
  {P : Pool → PoolLabel → Prop}

theorem rejects_of_error {w w' : World} {e : Err} (h : Answered authSystem i call w (.error e) w') :
    call.rejects = true := by
  cases h with
  | reject hx =>
    have hx : reject i call w = some _ := hx
    unfold reject at hx
    split at hx
    · assumption
    · cases hx
  | exec hx => cases call <;> first | rfl | cases hx

omit [Bcrypt] [Jwt] [JsString] [AuthConfig] in
theorem ofIssue_of_after (hafter : call.afterSuperseding = true) (hrejects : call.rejects = true)
    (hmails : call.mails = false) : call.ofIssue = true := by
  cases call <;> first | rfl | (cases hafter; done) | (cases hrejects; done) | cases hmails

omit [Bcrypt] [Jwt] [JsString] [AuthConfig] in
theorem UserStep.hasEmail {w w' : World} {email : String} (h : UserStep w w' call r)
    (hw : w.HasEmail email) : w'.HasEmail email := by
  obtain ⟨u, hu, rfl⟩ := hw
  obtain ⟨u', hu', hemail, -⟩ := h.email (Table.mem_rows_iff.mp hu)
  exact ⟨u', (Table.get_some_iff.mp hu').1, hemail⟩

theorem inserted_moved {G : Type} {M : Monitor Call Resp Err Reply Task G} {g g' : G}
    (hm : Moved M authSystem c c' i call r g g') (j : Nat) (u : User) :
    Inserted c' j u ↔ Inserted c j u ∨ i = j ∧ call.enrols r = some u := by
  unfold Inserted
  simp only [hm.log, List.mem_append, List.mem_singleton, or_and_right, exists_or, exists_eq_left]

theorem issues_moved (hm : Moved signup authSystem c c' i call r g g') (j : Nat) :
    BeginsIssue c' j ↔ BeginsIssue c j ∨ i = j ∧ call.usesAll = true := by
  unfold BeginsIssue
  simp only [hm.log, List.mem_append, List.mem_singleton, or_and_right, exists_or, exists_eq_left]

theorem rejected_moved (hm : Moved signup authSystem c c' i call r g g') (j : Nat) :
    Rejected c' j ↔ Rejected c j ∨ i = j ∧ call.ofIssue = true ∧ r.isOk = false := by
  unfold Rejected
  simp only [hm.log, List.mem_append, List.mem_singleton, or_and_right, exists_or, exists_eq_left]

omit [Bcrypt] [Jwt] [JsString] [AuthConfig] in
theorem resp_nonempty : (call : Call) → Nonempty (Resp call)
  | .usersSave row => ⟨row⟩
  | .refreshTokensSave row => ⟨row⟩
  | .authTokensSave row => ⟨row⟩
  | .now => ⟨(0 : Int)⟩
  | .bcryptCompare _ _ => ⟨false⟩
  | .usersFindByEmail _ | .usersFindById _ | .adminsFindByEmail _ | .adminsFindById _
  | .refreshTokensFindOne _ => ⟨none⟩
  | .authTokensFind _ => ⟨[]⟩
  | .refreshTokensRevoke _ _ | .authTokensUse _ _ => ⟨(0 : Nat)⟩
  | .randomBytes | .bcryptHash _ => ⟨""⟩
  | .usersUpdatePassword _ _ | .usersUpdateVerified _ _ | .refreshTokensUpdateHash _ _
  | .refreshTokensRevokeAll _ _ _ | .authTokensUseAll _ _ _ | .sgMailSend _ => ⟨()⟩

omit [Bcrypt] [Jwt] [JsString] [AuthConfig] in
/-- Where a call that a registration makes can stand. -/
theorem Signup.goes_of_allowed (h : ∀ a, ∃ g', g.nextOk call a = some g') :
    ∃ a g', g.Goes call a g' := by
  obtain ⟨a⟩ := resp_nonempty call
  obtain ⟨g', hg'⟩ := h a
  exact ⟨a, g', goes_of_next hg'⟩

theorem Signup.Shows.rejected {e : Err} (h : g.Shows c i)
    (hm : Moved signup authSystem c c' i call (.error e) g g') : g'.Shows c' i := by
  have hrejects := rejects_of_error hm.answers
  obtain rfl : g.reject call = g' := Option.some.inj hm.next
  have hnone : call.enrols (.error e) = none := by
    cases call <;> rfl
  have hsame : ∀ u, Inserted c' i u ↔ Inserted c i u := by
    intro u
    rw [inserted_moved hm, hnone]
    simp
  have hissues : BeginsIssue c' i ↔ BeginsIssue c i ∨ call.usesAll = true := by
    rw [issues_moved hm]
    simp
  have hfailed : Rejected c' i ↔ Rejected c i ∨ call.ofIssue = true := by
    rw [rejected_moved hm]
    simp [Except.isOk, Except.toBool]
  have hlost : call.usesAll = false → ((∀ u, ¬Inserted c i u) ∧ ¬BeginsIssue c i) →
      Signup.lost.Shows c' i := by
    rintro hcall ⟨hnever, hnot⟩
    refine ⟨fun u hu => hnever u ((hsame u).mp hu), fun hissue => ?_⟩
    rcases hissues.mp hissue with hissue | hissue
    · exact hnot hissue
    · rw [hcall] at hissue
      cases hissue
  obtain ⟨a, g', hgoes⟩ := Signup.goes_of_allowed hm.allowed
  cases hgoes with
  | other => trivial
  | taken => exact hlost rfl ⟨h.1, h.2.1⟩
  | vacant => exact hlost rfl ⟨h.1, h.2.1⟩
  | hash => exact hlost rfl ⟨h.1, h.2.1⟩
  | enrol => exact hlost rfl ⟨h.1, h.2.1⟩
  | clock => cases hrejects
  | supersede =>
    obtain ⟨⟨u, hu, -⟩, -⟩ := h
    exact ⟨⟨u, (hsame u).mpr hu⟩, hissues.mpr (.inr rfl), hfailed.mpr (.inr rfl)⟩
  | after hc =>
    obtain ⟨⟨u, hu, hemail⟩, hunfailed, hissue⟩ := h
    by_cases hmails : call.mails = true
    · rw [Signup.reject_issuing, if_pos hmails]
      refine ⟨⟨u, (hsame u).mpr hu, hemail⟩, fun hf => ?_, hissues.mpr (.inl hissue)⟩
      rcases hfailed.mp hf with hf | hf
      · exact hunfailed hf
      · cases call <;> first | (cases hf; done) | cases hmails
    · rw [Signup.reject_issuing, if_neg hmails]
      exact ⟨⟨u, (hsame u).mpr hu⟩, hissues.mpr (.inl hissue),
        hfailed.mpr (.inr (ofIssue_of_after hc hrejects (by simpa using hmails)))⟩

theorem Signup.Shows.answered {a : Resp call} (h : g.Shows c i)
    (hm : Moved signup authSystem c c' i call (.ok a) g g') : g'.Shows c' i := by
  have hfailed : Rejected c' i ↔ Rejected c i := by
    rw [rejected_moved hm]
    simp [Except.isOk, Except.toBool]
  have hissues : BeginsIssue c' i ↔ BeginsIssue c i ∨ call.usesAll = true := by
    rw [issues_moved hm]
    simp
  have hnot : call.usesAll = false → ¬BeginsIssue c i → ¬BeginsIssue c' i := by
    intro hcall hnot
    rw [hissues, hcall]
    simpa using hnot
  have hold : ∀ u, Inserted c i u → Inserted c' i u := by
    intro u hu
    exact (inserted_moved hm i u).mpr (.inl hu)
  have hnew : call.enrols (.ok a) = none → ∀ u, ¬Inserted c i u → ¬Inserted c' i u := by
    intro hnone u hu hu'
    rcases (inserted_moved hm i u).mp hu' with hu' | ⟨-, henrols⟩
    · exact hu hu'
    · rw [hnone] at henrols
      cases henrols
  cases Signup.goes_of_next hm.next with
  | other => trivial
  | @taken email user =>
    refine ⟨fun u => hnew rfl u (h.1 u), hnot rfl h.2.1, ?_⟩
    have hfind := says_of_answered hm.answers
    rw [world_of_reads rfl hm.answers]
    exact ⟨user, List.mem_of_find?_eq_some hfind.symm, by simpa using List.find?_some hfind.symm⟩
  | vacant => exact ⟨fun u => hnew rfl u (h.1 u), hnot rfl h.2.1, hfailed.not.mpr h.2.2⟩
  | hash => exact ⟨fun u => hnew rfl u (h.1 u), hnot rfl h.2.1, hfailed.not.mpr h.2.2⟩
  | @enrol row user =>
    refine ⟨⟨user, (inserted_moved hm i user).mpr (.inr ⟨rfl, rfl⟩), ?_⟩, hfailed.not.mpr h.2.2⟩
    rw [(user_of_save hm.answers).1]
  | clock =>
    obtain ⟨⟨u, hu, hemail⟩, hunfailed⟩ := h
    exact ⟨⟨u, hold u hu, hemail⟩, hfailed.not.mpr hunfailed⟩
  | supersede =>
    obtain ⟨⟨u, hu, hemail⟩, hunfailed⟩ := h
    exact ⟨⟨u, hold u hu, hemail⟩, hfailed.not.mpr hunfailed, hissues.mpr (.inr rfl)⟩
  | after =>
    obtain ⟨⟨u, hu, hemail⟩, hunfailed, hissue⟩ := h
    exact ⟨⟨u, hold u hu, hemail⟩, hfailed.not.mpr hunfailed, hissues.mpr (.inl hissue)⟩

/-! ## Runs -/

omit [Bcrypt] [Jwt] [JsString] [AuthConfig] in
/-- The place shows nothing of other calls. -/
theorem Signup.Shows.of_log (h : g.Shows c i) (hlog : ∀ e, e.proc = i → (e ∈ c'.log ↔ e ∈ c.log))
    (hemail : ∀ email, c.world.HasEmail email → c'.world.HasEmail email) : g.Shows c' i := by
  have hinserted : ∀ u, Inserted c' i u ↔ Inserted c i u := by
    intro u
    refine exists_congr fun e => ?_
    constructor <;> rintro ⟨he, hproc, henrols⟩
    · exact ⟨(hlog e hproc).mp he, hproc, henrols⟩
    · exact ⟨(hlog e hproc).mpr he, hproc, henrols⟩
  have hfailed : Rejected c' i ↔ Rejected c i := by
    refine exists_congr fun e => ?_
    constructor <;> rintro ⟨he, hproc, hissue⟩
    · exact ⟨(hlog e hproc).mp he, hproc, hissue⟩
    · exact ⟨(hlog e hproc).mpr he, hproc, hissue⟩
  have hissues : BeginsIssue c' i ↔ BeginsIssue c i := by
    refine exists_congr fun e => ?_
    constructor <;> rintro ⟨he, hproc, hissue⟩
    · exact ⟨(hlog e hproc).mp he, hproc, hissue⟩
    · exact ⟨(hlog e hproc).mpr he, hproc, hissue⟩
  cases g with
  | other => trivial
  | looking | free =>
    exact ⟨fun u => (hinserted u).not.mpr (h.1 u), hissues.not.mpr h.2.1, hfailed.not.mpr h.2.2⟩
  | refused email =>
    exact ⟨fun u => (hinserted u).not.mpr (h.1 u), hissues.not.mpr h.2.1, hemail email h.2.2⟩
  | enrolled email =>
    obtain ⟨⟨u, hu, hsame⟩, hunfailed⟩ := h
    exact ⟨⟨u, (hinserted u).mpr hu, hsame⟩, hfailed.not.mpr hunfailed⟩
  | issuing email =>
    obtain ⟨⟨u, hu, hsame⟩, hunfailed, hissue⟩ := h
    exact ⟨⟨u, (hinserted u).mpr hu, hsame⟩, hfailed.not.mpr hunfailed, hissues.mpr hissue⟩
  | lost => exact ⟨fun u => (hinserted u).not.mpr (h.1 u), hissues.not.mpr h.2⟩
  | stranded => exact ⟨h.1.imp fun u => (hinserted u).mpr, hissues.mpr h.2.1, hfailed.mpr h.2.2⟩

omit [Bcrypt] [Jwt] [AuthConfig] in
/-- A call that has just begun has done nothing. -/
theorem shows_start (hlog : c.LogOk) (t : Task) (hi : c.procs.length ≤ i) :
    (Signup.start t).Shows c i := by
  have hnone : ∀ e ∈ c.log, e.proc ≠ i := by
    intro e he hproc
    have := hlog e he
    omega
  cases t with
  | register dto =>
    refine ⟨?_, ?_, ?_⟩
    · rintro u ⟨e, he, hproc, -⟩
      exact hnone e he hproc
    · rintro ⟨e, he, hproc, -⟩
      exact hnone e he hproc
    · rintro ⟨e, he, hproc, -⟩
      exact hnone e he hproc
  | _ => trivial

theorem shows (hr : Reach authSystem init P c) : ∀ i g, signup.phase c i = some g → g.Shows c i := by
  refine Reach.invariant signup_sound (I := fun c => ∀ i g, signup.phase c i = some g → g.Shows c i)
    ?_ ?_ ?_ ?_ hr
  · intro w _ i g hg
    cases hg
  · intro c t hr hI _ _ i g hg
    have hlog := hr.logOk signup_sound
    rcases Monitor.phase_start_cases hlog hg with hg | ⟨hi, t', -, rfl⟩
    · exact (hI i g hg).of_log (fun e _ => .rfl) fun _ h => h
    · exact (shows_start hlog t' hi).of_log (fun e _ => .rfl) fun _ h => h
  · intro c v w ts hr hI _ hv i g hg
    have hv : some (c.world.tick v, ([] : List Task)) = some (w, ts) := hv
    cases hv
    rcases Monitor.phase_start_cases (hr.logOk signup_sound) hg with hg | ⟨-, t, ht, -⟩
    · exact (hI i g hg).of_log (fun e _ => .rfl) fun _ h => h
    · cases ht
  · intro c c' i call r g g' hr hI _ hm j gj hj
    rcases hm.phase_cases hj with ⟨rfl, rfl⟩ | ⟨hne, hj⟩
    · cases r with
      | error e => exact (hI j g hm.before).rejected hm
      | ok a => exact (hI j g hm.before).answered hm
    · refine (hI j gj hj).of_log (fun e hproc => ?_) fun _ => (answered_users hm.answers).hasEmail
      rw [hm.log, List.mem_append, List.mem_singleton, or_iff_left]
      rintro rfl
      exact hne hproc.symm

/-- The users that have been inserted, when nobody had the email at first. -/
structure Enrolment (email : String) (c : Pool) : Prop where
  kept : ∀ i u, Inserted c i u → ∃ u', c.world.users.get u.id = some u' ∧ u'.email = u.email
  one : ∀ i j u u', Inserted c i u → Inserted c j u' → u.email = u'.email → i = j
  owner : ∀ i u, Inserted c i u → Registers c i u.email
  origin : c.world.HasEmail email → ∃ i u, Inserted c i u ∧ u.email = email

/-- What the INSERT of a user has done. -/
theorem enrols_answered {u : User} {w w' : World} (h : Answered authSystem i call w r w')
    (henrols : call.enrols r = some u) : ∃ row, call = .usersSave row ∧ r.isOk = true ∧
      row.email = u.email ∧ w'.users.get u.id = some u ∧ ¬w.HasEmail u.email := by
  unfold Call.enrols at henrols
  split at henrols
  · rename_i row user
    cases henrols
    obtain ⟨hu, -, hput⟩ := user_of_save h
    refine ⟨row, rfl, rfl, by rw [hu], by rw [hput]; exact Table.get_put_of_eq _ rfl, ?_⟩
    rintro ⟨u₀, hu₀, hemail⟩
    obtain ⟨x, hx⟩ := exec_of_answered h
    simp only [exec] at hx
    split at hx
    · cases hx
    · split at hx
      · cases hx
      · rename_i hfree
        apply hfree
        refine List.any_eq_true.mpr ⟨u₀, hu₀, ?_⟩
        rw [hemail, hu]
        simp
  · cases henrols

/-- Who has inserted a user is a registration of their email. -/
theorem registers_of_enrols {u : User} {g g' : Errand} (hm : Moved errand authSystem c c' i call r g g')
    (henrols : call.enrols r = some u) : Registers c i u.email := by
  obtain ⟨row, rfl, hok, hemail, -⟩ := enrols_answered hm.answers henrols
  rcases moved_cases hm with ⟨-, -, e, rfl⟩ | ⟨a, rfl, hgoes⟩
  · cases hok
  · obtain ⟨t, ht⟩ := Monitor.task_of_phase hm.before
    have hfits := fits_of_phase ht hm.before
    cases hgoes with
    | stop hc => cases hc
    | @enrol dto _ _ hrow _ =>
      obtain rfl : t = .register dto := hfits
      exact ⟨dto, ht, by rw [← hemail, hrow]⟩

theorem Enrolment.move {email : String} (h : Enrolment email c) {g g' : Errand}
    (hm : Moved errand authSystem c c' i call r g g') : Enrolment email c' where
  kept := by
    intro j u hu
    rcases (inserted_moved hm j u).mp hu with hu | ⟨-, henrols⟩
    · obtain ⟨u', hu', hemail⟩ := h.kept j u hu
      obtain ⟨u'', hu'', hemail', -⟩ := (answered_users hm.answers).email hu'
      exact ⟨u'', hu'', hemail'.trans hemail⟩
    · obtain ⟨row, -, -, -, hget, -⟩ := enrols_answered hm.answers henrols
      exact ⟨u, hget, rfl⟩
  one := by
    intro j k u u' hu hu' hemail
    have hfresh : ∀ j u₀ u₁, Inserted c j u₀ → call.enrols r = some u₁ → u₀.email ≠ u₁.email := by
      intro j u₀ u₁ hu₀ henrols hsame
      obtain ⟨row, -, -, -, -, hfree⟩ := enrols_answered hm.answers henrols
      obtain ⟨u₂, hu₂, hkept⟩ := h.kept j u₀ hu₀
      exact hfree ⟨u₂, (Table.get_some_iff.mp hu₂).1, hkept.trans hsame⟩
    rcases (inserted_moved hm j u).mp hu with hu | ⟨rfl, henrols⟩
    · rcases (inserted_moved hm k u').mp hu' with hu' | ⟨rfl, henrols'⟩
      · exact h.one j k u u' hu hu' hemail
      · exact absurd hemail (hfresh j u u' hu henrols')
    · rcases (inserted_moved hm k u').mp hu' with hu' | ⟨rfl, -⟩
      · exact absurd hemail.symm (hfresh k u' u hu' henrols)
      · rfl
  owner := by
    intro j u hu
    have hkept : Registers c j u.email → Registers c' j u.email := by
      rintro ⟨dto, ht, hemail⟩
      exact ⟨dto, by rw [hm.task, ht], hemail⟩
    rcases (inserted_moved hm j u).mp hu with hu | ⟨rfl, henrols⟩
    · exact hkept (h.owner j u hu)
    · exact hkept (registers_of_enrols hm henrols)
  origin := by
    rintro ⟨u, hu, hemail⟩
    rcases (answered_users hm.answers).origin hu with ⟨u₀, hu₀, -, hsame⟩ | ⟨henrols, -⟩
    · obtain ⟨j, u', hu', hemail'⟩ := h.origin ⟨u₀, hu₀, hsame.trans hemail⟩
      exact ⟨j, u', (inserted_moved hm j u').mpr (.inl hu'), hemail'⟩
    · exact ⟨i, u, (inserted_moved hm i u).mpr (.inr ⟨rfl, henrols⟩), hemail⟩

/-- Nobody has the email. -/
structure Vacant (email : String) (w : World) : Prop where
  consistent : Consistent w
  vacant : ¬w.HasEmail email

theorem enrolment {email : String} (hr : Reach authSystem (Vacant email) P c) : Enrolment email c := by
  refine errand_invariant (I := Enrolment email) ?_ ?_ ?_ ?_ hr
  · intro w hw
    refine ⟨?_, ?_, ?_, fun h => absurd h hw.vacant⟩
    · rintro i u ⟨e, he, -⟩
      cases he
    · rintro i j u u' ⟨e, he, -⟩
      cases he
    · rintro i u ⟨e, he, -⟩
      cases he
  · intro c t hr hI _
    refine ⟨hI.kept, hI.one, fun i u hu => ?_, hI.origin⟩
    obtain ⟨dto, ht, hemail⟩ := hI.owner i u hu
    exact ⟨dto, Config.task?_start _ _ ht, hemail⟩
  · intro c ms hr hI
    refine ⟨hI.kept, hI.one, fun i u hu => ?_, hI.origin⟩
    obtain ⟨dto, ht, hemail⟩ := hI.owner i u hu
    exact ⟨dto, Config.task?_start _ _ ht, hemail⟩
  · intro c c' i call r g g' hr hI _ hm
    exact hI.move hm

/-! ## Nothing fails, and no INSERT is too late -/

/-- What the place shows of the task. -/
def Signup.Fits (t : Task) : Signup → Prop
  | other => ∀ dto, t ≠ .register dto
  | looking email | refused email | free email | enrolled email | issuing email =>
    ∃ dto, t = .register dto ∧ normalise dto.email = email
  | _ => True

omit [Bcrypt] [Jwt] [AuthConfig] in
theorem signup_fits {t : Task} (ht : c.task? i = some t) (hg : signup.phase c i = some g) :
    g.Fits t := by
  refine Monitor.phase_always ht hg ?_ ?_
  · cases t with
    | register dto => exact ⟨dto, rfl, rfl⟩
    | _ =>
      intro dto h
      cases h
  · intro g call r g' h hn
    cases r with
    | error e =>
      obtain rfl : g.reject call = g' := Option.some.inj hn
      cases g with
      | other => exact h
      | issuing email =>
        rw [Signup.reject_issuing]
        split
        · exact h
        · trivial
      | _ => trivial
    | ok a => cases Signup.goes_of_next hn <;> exact h

omit [Jwt] [JsString] [AuthConfig] in
/-- What the database refuses by itself. -/
theorem error_of_exec {x : Choice} {w w' : World} {e : Err}
    (h : exec i call x w = some (w', .error e)) :
    (∃ row, call = .usersSave row ∧ w.HasEmail row.email) ∨
      (∃ row, call = .authTokensSave row ∧ (w.users.get row.userId).isSome = false) ∨
      ∃ row, call = .refreshTokensSave row := by
  cases call with
  | usersSave row =>
    simp only [exec] at h
    split at h
    · cases h
    · split at h
      · rename_i htaken
        obtain ⟨u, hu, hemail⟩ := List.any_eq_true.mp htaken
        exact .inl ⟨row, rfl, u, hu, by simpa using hemail⟩
      · cases h
  | authTokensSave row =>
    simp only [exec] at h
    split at h
    · cases h
    · rename_i hnone
      exact .inr (.inl ⟨row, rfl, by simpa using hnone⟩)
  | refreshTokensSave row => exact .inr (.inr ⟨row, rfl⟩)
  | _ =>
    simp only [exec] at h
    repeat' split at h
    all_goals cases h

def Call.inserts? : Call → Option User
  | .usersSave row => some row
  | _ => none

/-- No database call of a registration of the email fails, and its INSERT finds the email free. -/
def Unhindered (email : String) (c : Pool) : PoolLabel → Prop
  | .run i _ => ∀ row ∈ (c.next? i).bind Call.inserts?, row.email = email → ¬c.world.HasEmail email
  | .fail i => Registers c i email → ∀ call ∈ c.next? i, call.mails = true
  | _ => True

def Signup.broken : Signup → Bool
  | lost | stranded => true
  | _ => false

/-- A call that issues a token does so for a user who is there. -/
theorem token_owner {email : String} (hr : Reach authSystem (Vacant email) P c) {row : AuthToken}
    (h : c.next? i = some (.authTokensSave row)) : (c.world.users.get row.userId).isSome = true := by
  obtain ⟨g, hg, hallowed⟩ := (hr.conforms errand_sound).allows h
  obtain ⟨g', hg'⟩ := hallowed row
  have hgoes : g.Goes (.authTokensSave row) row g' := Errand.goes_of_next hg'
  exact (superseding (fun _ h => h.consistent) hr).owner i g row.userId row.purpose hg
    (Errand.hashed_of_save hgoes).2.1

theorem unbroken_of_error {email : String} (hr : Reach authSystem (Vacant email) P c)
    (hi : Registers c i email) {e : Err}
    (hP : Reach.Allowed authSystem (Unhindered email) c i call (.error e) c'.world)
    (hm : Moved signup authSystem c c' i call (.error e) g g') : g'.broken = false := by
  obtain rfl : g.reject call = g' := Option.some.inj hm.next
  obtain ⟨a, g₁, hgoes⟩ := Signup.goes_of_allowed hm.allowed
  cases hP with
  | fail _ _ hguard =>
    have hmails := hguard hi call hm.waits
    cases hgoes with
    | other => rfl
    | after =>
      rw [Signup.reject_issuing, if_pos hmails]
      rfl
    | _ => cases hmails
  | @run x hx hguard =>
    have hx : exec i call x c.world = some _ := hx
    rcases error_of_exec hx with ⟨row, rfl, htaken⟩ | ⟨row, rfl, hnone⟩ | ⟨row, rfl⟩
    · cases hgoes with
      | other => rfl
      | after hc => cases hc
      | enrol =>
        obtain ⟨dto, ht, hemail⟩ := hi
        obtain ⟨dto', htask, hsame⟩ := signup_fits ht hm.before
        cases htask
        have heq : row.email = email := hsame.symm.trans hemail
        exact absurd (heq ▸ htaken) (hguard row (by rw [hm.waits]; rfl) heq)
    · rw [token_owner hr hm.waits] at hnone
      cases hnone
    · cases hgoes with
      | other => rfl
      | after hc => cases hc

theorem unbroken {email : String} (hr : Reach authSystem (Vacant email) (Unhindered email) c) :
    ∀ i g, Registers c i email → signup.phase c i = some g → g.broken = false := by
  have hstart : ∀ (c : Pool) (ts : List Task) (w : World) {i : Nat} {g : Signup}, c.LogOk →
      (∀ i g, Registers c i email → signup.phase c i = some g → g.broken = false) →
      Registers (c.start authSystem ts w) i email →
      signup.phase (c.start authSystem ts w) i = some g → g.broken = false := by
    intro c ts w i g hlog hI hi hg
    rcases Monitor.phase_start_cases hlog hg with hg | ⟨-, t, -, rfl⟩
    · obtain ⟨t, ht⟩ := Monitor.task_of_phase hg
      obtain ⟨dto, htask, hemail⟩ := hi
      cases (Config.task?_start _ _ ht).symm.trans htask
      exact hI i g ⟨dto, ht, hemail⟩ hg
    · cases t <;> rfl
  refine Reach.invariant signup_sound
    (I := fun c => ∀ i g, Registers c i email → signup.phase c i = some g → g.broken = false)
    ?_ ?_ ?_ ?_ hr
  · intro w _ i g _ hg
    cases hg
  · intro c t hr hI _ _ i g
    exact hstart c [t] c.world (hr.logOk signup_sound) hI
  · intro c v w ts hr hI _ hv i g
    exact hstart c ts w (hr.logOk signup_sound) hI
  · intro c c' i call r g g' hr hI hP hm j gj hj hgj
    have hj : Registers c j email := by
      obtain ⟨dto, ht, hemail⟩ := hj
      exact ⟨dto, by rw [← hm.task, ht], hemail⟩
    rcases hm.phase_cases hgj with ⟨rfl, rfl⟩ | ⟨-, hgj⟩
    · cases r with
      | error e => exact unbroken_of_error hr hj hP hm
      | ok a => cases Signup.goes_of_next hm.next <;> rfl
    · exact hI j gj hj hgj

/-- One registration of the email has succeeded, and every other one was told that it is taken. -/
def OneRegistered (c : Pool) (email : String) : Prop :=
  ∃ i, Registers c i email ∧ (c.reply? i).isSome = true ∧ ∀ j, j ≠ i → Registers c j email →
    c.error? j = some (.conflict "Email is unavailable")

theorem leftUser_iff {email : String} (hr : Reach authSystem (Vacant email) P c) {dto : RegisterDto}
    {e : Err} (ht : c.task? i = some (.register dto)) (herror : c.error? i = some e) :
    LeftUser c i ↔ TokenFailed c i := by
  obtain ⟨g, hg, hfinal⟩ := (hr.conforms signup_sound).ended herror
  have hshows := shows hr i g hg
  have hnone : (∀ u, ¬Inserted c i u) → ¬LeftUser c i := by
    rintro h ⟨u, hu, -⟩
    exact h u hu
  have hfits := signup_fits ht hg
  cases g with
  | other => exact absurd rfl (hfits dto)
  | refused => exact iff_of_false (hnone hshows.1) fun h => hshows.2.1 h.1
  | lost => exact iff_of_false (hnone hshows.1) fun h => hshows.2 h.1
  | stranded =>
    obtain ⟨⟨u, hu⟩, hfailed⟩ := hshows
    obtain ⟨u', hu', -⟩ := (enrolment hr).kept i u hu
    exact iff_of_true ⟨u, hu, by rw [hu']; rfl⟩ hfailed
  | _ => cases hfinal

/-- A registration that has ended unhindered was refused, or is the one of its email. -/
theorem ended_cases {email : String} (hr : Reach authSystem (Vacant email) (Unhindered email) c)
    (hi : Registers c i email) (hend : c.next? i = none) :
    (∃ u, Inserted c i u ∧ u.email = email) ∧ (c.reply? i).isSome = true ∨
      (∀ u, ¬Inserted c i u) ∧ c.world.HasEmail email ∧
        c.error? i = some (.conflict "Email is unavailable") := by
  obtain ⟨dto, ht, hemail⟩ := id hi
  have hlt : i < c.procs.length := by
    obtain ⟨p, hp, -⟩ := Option.map_eq_some_iff.mp ht
    exact (List.getElem?_eq_some_iff.mp hp).1
  obtain ⟨g, hg, hfinal⟩ := (hr.conforms signup_sound).final hlt hend
  have hshows := shows hr i g hg
  have hfits := signup_fits ht hg
  have hunbroken := unbroken hr i g hi hg
  cases g with
  | other => exact absurd rfl (hfits dto)
  | refused email' =>
    obtain ⟨dto', htask, hsame⟩ := hfits
    cases htask
    obtain rfl : email' = email := hsame.symm.trans hemail
    rcases hfinal with ⟨a, -, hfinal⟩ | ⟨e, herror, hfinal⟩
    · cases hfinal
    · cases hfinal
      exact .inr ⟨hshows.1, hshows.2.2, herror⟩
  | issuing email' =>
    obtain ⟨dto', htask, hsame⟩ := hfits
    cases htask
    obtain rfl : email' = email := hsame.symm.trans hemail
    rcases hfinal with ⟨a, hreply, -⟩ | ⟨e, -, hfinal⟩
    · exact .inl ⟨hshows.1, by rw [hreply]; rfl⟩
    · cases hfinal
  | looking | free | enrolled => rcases hfinal with ⟨_, -, hfinal⟩ | ⟨_, -, hfinal⟩ <;> cases hfinal
  | lost | stranded => cases hunbroken

theorem oneRegistered {email : String} (hr : Reach authSystem (Vacant email) (Unhindered email) c)
    (hsome : ∃ i, Registers c i email) (hend : ∀ i, Registers c i email → c.next? i = none) :
    OneRegistered c email := by
  have henrolment := enrolment hr
  obtain ⟨j, u, hu, hemail⟩ : ∃ j u, Inserted c j u ∧ u.email = email := by
    obtain ⟨i, hi⟩ := hsome
    rcases ended_cases hr hi (hend i hi) with ⟨⟨u, hu, hemail⟩, -⟩ | ⟨-, htaken, -⟩
    · exact ⟨i, u, hu, hemail⟩
    · exact henrolment.origin htaken
  have hj : Registers c j email := hemail ▸ henrolment.owner j u hu
  refine ⟨j, hj, ?_, fun k hne hk => ?_⟩
  · rcases ended_cases hr hj (hend j hj) with ⟨-, hreply⟩ | ⟨hnone, -⟩
    · exact hreply
    · exact absurd hu (hnone u)
  · rcases ended_cases hr hk (hend k hk) with ⟨⟨u', hu', hemail'⟩, -⟩ | ⟨-, -, herror⟩
    · exact absurd (henrolment.one k j u' u hu' hu (hemail'.trans hemail.symm)) hne
    · exact herror

/-- A registration that rejects leaves a user exactly when a call that `issueAuthToken` awaits has
rejected in it. And of the registrations of a new email one succeeds, and the others are told that it
is taken, when none of their database calls fails and no INSERT comes too late. -/
theorem registered {email : String} (hr : Reach authSystem (Vacant email) anyStep c) :
    (∀ i dto e, c.task? i = some (.register dto) → c.error? i = some e →
      (LeftUser c i ↔ TokenFailed c i)) ∧
    (Reach authSystem (Vacant email) (Unhindered email) c → (∃ i, Registers c i email) →
      (∀ i, Registers c i email → c.next? i = none) → OneRegistered c email) :=
  ⟨fun _ _ _ ht herror => leftUser_iff hr ht herror, oneRegistered⟩

end

/-! ### Runs of two registrations -/

section

attribute [local instance] Exams.plainBcrypt plainJwt plainString development

instance (w : World) (email : String) : Decidable (w.HasEmail email) :=
  inferInstanceAs (Decidable (∃ u ∈ w.users.rows, _))

def Task.signsUp? : Task → Option String
  | .register dto => some (normalise dto.email)
  | _ => none

theorem signsUp?_iff {c : Pool} {i : Nat} {email : String} :
    (c.task? i).bind Task.signsUp? = some email ↔ Registers c i email := by
  constructor
  · intro h
    obtain ⟨t, ht, hemail⟩ := Option.bind_eq_some_iff.mp h
    cases t <;> cases hemail
    exact ⟨_, ht, rfl⟩
  · rintro ⟨dto, ht, rfl⟩
    rw [ht]
    rfl

instance (c : Pool) (i : Nat) (email : String) : Decidable (Registers c i email) :=
  decidable_of_iff _ signsUp?_iff

instance (email : String) (c : Pool) (i : Nat) (x : String) :
    Decidable (Unhindered email c (.run i x)) :=
  inferInstanceAs (Decidable (∀ row ∈ (c.next? i).bind Call.inserts?, _))

instance (email : String) (c : Pool) (i : Nat) : Decidable (Unhindered email c (.fail i)) :=
  inferInstanceAs (Decidable (Registers c i email → ∀ call ∈ c.next? i, _))

instance (email : String) : ∀ c l, Decidable (Unhindered email c l)
  | _, .run _ _ | _, .fail _ => inferInstance
  | _, .spawn _ | _, .env _ => .isTrue trivial

theorem bureau_vacant : Vacant "v@example.com" bureau where
  consistent := bureau_orderly.consistent
  vacant := by decide

def newcomer : Task := .register ⟨"v@example.com", "password", "A", "B",
  ⟨none, none, none, none, none, none, none, none, none⟩, none⟩

/-- Process `i` registers the newcomer from the INSERT on. -/
def enrolsNewcomer (i : Nat) : List PoolLabel :=
  .run i "V" :: calls i 2 ++ .run i hexToken :: calls i 3

set_option maxRecDepth 100000 in
/-- The second registration comes after the first one. -/
theorem registered_twice : ∃ c, Reach bureauSystem (Vacant "v@example.com") (Unhindered "v@example.com") c ∧
    (c.error? 1).isSome ∧ (∀ e, c.error? 1 = some e → (LeftUser c 1 ↔ TokenFailed c 1)) ∧
    OneRegistered c "v@example.com" := by
  obtain ⟨c, hc, hp⟩ := (Option.any_eq_true _ _).mp (show
    (runIf bureauSystem (Unhindered "v@example.com")
      (.spawn newcomer :: calls 0 2 ++ enrolsNewcomer 0 ++ .spawn newcomer :: calls 1 1)
      (.initial bureau)).any (fun c => (c.error? 1).isSome ∧ c.task? 1 = some newcomer ∧
        c.procs.length = 2 ∧ ∀ i < 2, c.next? i = none) = true by decide)
  have hr : Reach bureauSystem (Vacant "v@example.com") (Unhindered "v@example.com") c :=
    runIf_reach (.init bureau_vacant) hc
  obtain ⟨herror, htask, hlength, hend⟩ := of_decide_eq_true hp
  obtain ⟨hleft, hone⟩ := registered hr.any
  refine ⟨c, hr, herror, fun e he => hleft 1 _ e htask he, hone hr ⟨1, _, htask, rfl⟩ ?_⟩
  rintro i ⟨dto, ht, -⟩
  obtain ⟨p, hproc, -⟩ := Option.map_eq_some_iff.mp ht
  exact hend i (hlength ▸ (List.getElem?_eq_some_iff.mp hproc).1)

/-- The last INSERT of the registration rejects. -/
def tokenFails : List PoolLabel :=
  .spawn newcomer :: calls 0 2 ++ .run 0 "V" :: calls 0 2 ++ .run 0 hexToken :: calls 0 2 ++ [.fail 0]

/-- The second registration looks for the email before the first one has inserted it. -/
def raced : List PoolLabel :=
  [.spawn newcomer, .spawn newcomer] ++ calls 0 2 ++ calls 1 2 ++ enrolsNewcomer 0 ++ [.run 1 "W"]

/-- The call has inserted a user who is there. -/
def leftUser (c : Pool) (i : Nat) : Bool :=
  c.log.any fun e => e.proc = i ∧ (e.call.enrols e.res).any fun u => (c.world.users.get u.id).isSome

theorem leftUser_of_true {c : Pool} {i : Nat} (h : leftUser c i = true) : LeftUser c i := by
  obtain ⟨e, he, hp⟩ := List.any_eq_true.mp h
  obtain ⟨hproc, hu⟩ := of_decide_eq_true hp
  obtain ⟨u, henrols, hu⟩ := (Option.any_eq_true _ _).mp hu
  exact ⟨u, ⟨e, he, hproc, henrols⟩, hu⟩

set_option maxRecDepth 100000 in
/-- A user is left behind, and a registration that comes too late is told of an internal error. -/
theorem user_left_or_raced :
    (∃ c, Reach bureauSystem (Vacant "v@example.com") anyStep c ∧ c.task? 0 = some newcomer ∧
      (c.error? 0).isSome = true ∧ LeftUser c 0) ∧
    ∃ c, Reach bureauSystem (Vacant "v@example.com") anyStep c ∧ c.task? 1 = some newcomer ∧
      (∀ i < c.procs.length, c.next? i = none) ∧ ¬OneRegistered c "v@example.com" := by
  constructor
  · obtain ⟨c, hc, hp⟩ := (Option.any_eq_true _ _).mp (show
      (runIf bureauSystem anyStep tokenFails (.initial bureau)).any (fun c =>
        c.task? 0 = some newcomer ∧ (c.error? 0).isSome = true ∧ leftUser c 0 = true) = true by decide)
    obtain ⟨htask, herror, hleft⟩ := of_decide_eq_true hp
    exact ⟨c, runIf_reach (.init bureau_vacant) hc, htask, herror, leftUser_of_true hleft⟩
  · obtain ⟨c, hc, hp⟩ := (Option.any_eq_true _ _).mp (show
      (runIf bureauSystem anyStep raced (.initial bureau)).any (fun c => c.task? 1 = some newcomer ∧
        (∀ i < c.procs.length, c.next? i = none) ∧ c.reply? 1 = none ∧ c.error? 1 = some
          (.infra "duplicate key value violates unique constraint idx_users_email")) = true by decide)
    obtain ⟨htask, hend, hreply, herror⟩ := of_decide_eq_true hp
    refine ⟨c, runIf_reach (.init bureau_vacant) hc, htask, hend, ?_⟩
    rintro ⟨i, -, hsome, hother⟩
    by_cases hi : 1 = i
    · rw [← hi, hreply] at hsome
      cases hsome
    · rw [hother 1 hi ⟨_, htask, rfl⟩] at herror
      cases herror

end

end LmsBackend.Auth
