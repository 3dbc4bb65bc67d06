import LmsBackend.Auth.Dtos
import LmsBackend.Auth.OneTime

/-!
# The password policy

The three routes with a DTO pass on only passwords that follow the rules. The
form passes on whatever it has been given.
-/

open Async Store

namespace LmsBackend.Auth

/-- `ResetPasswordDto` accepts the new password. -/
def Policy (v : JsValue) : Prop := (ResetPasswordDto.validateNewPassword v).isSome

instance (v : JsValue) : Decidable (Policy v) := inferInstanceAs (Decidable (_ = true))

/-- The form is sent back, or its new password follows the rules. -/
def ResetForm.Harmless (body : ResetForm) : Prop :=
  body.token.truthy = false ∨ body.newPassword.truthy = false ∨
    body.confirmPassword.same .undefined = false ∧
      body.confirmPassword.same body.newPassword = false ∨
    Policy body.newPassword

instance (body : ResetForm) : Decidable body.Harmless := inferInstanceAs (Decidable (_ ∨ _))

theorem resetPasswordSubmit_iff (body : ResetForm) :
    (∀ token newPassword, WebController.resetPasswordSubmit body = .resetPassword token newPassword →
      Policy newPassword) ↔ body.Harmless := by
  unfold WebController.resetPasswordSubmit ResetForm.Harmless
  constructor
  · intro h
    by_contra hnot
    simp only [not_or, not_and, Bool.not_eq_false] at hnot
    obtain ⟨htoken, hnew, hconfirm, hpolicy⟩ := hnot
    apply hpolicy
    apply h body.token
    rw [if_neg (by simp [htoken, hnew]), if_neg]
    simp only [Bool.and_eq_true, Bool.not_eq_true', not_and, Bool.not_eq_false]
    exact hconfirm
  · intro h token newPassword heq
    split at heq
    · cases heq
    · rename_i hgiven
      split at heq
      · cases heq
      · rename_i hsame
        cases heq
        simp only [Bool.or_eq_true, Bool.not_eq_true', not_or, Bool.not_eq_false] at hgiven
        simp only [Bool.and_eq_true, Bool.not_eq_true', not_and, Bool.not_eq_false] at hsame
        rcases h with h | h | ⟨h, h'⟩ | h
        · rw [hgiven.1] at h
          cases h
        · rw [hgiven.2] at h
          cases h
        · rw [hsame h] at h'
          cases h'
        · exact h

/-! ## Requests that keep to the policy -/

theorem policy_of_accepted {v : JsValue} {s : String} (h : isNewPassword v = some s) :
    Policy (.string s) := by
  unfold isNewPassword isText at h
  obtain ⟨htext, hcomplex⟩ := Option.filter_eq_some_iff.mp h
  obtain ⟨htext, hlength⟩ := Option.filter_eq_some_iff.mp htext
  simp [Policy, ResetPasswordDto.validateNewPassword, isNewPassword, isText, JsValue.toText,
    Option.filter, hcomplex, of_decide_eq_true hlength]

/-- The rules see no more of a string than UTF-8 has of it. -/
theorem policy_string? {v : JsValue} {s : String} (h : v.string? = some s) :
    Policy v ↔ Policy (.string s) := by
  cases v with
  | string t =>
    cases h
    rfl
  | lone t =>
    cases h
    rfl
  | _ => cases h

/-- The form of the request, if it has one, is harmless. -/
def Request.Harmless : Request → Prop
  | resetPasswordSubmit body => body.Harmless
  | _ => True

theorem Request.policy {request : Request} {t : Task} {plain : String}
    (hharmless : request.Harmless) (ht : request.task? = some t)
    (hplain : t.newPassword? = some plain) : Policy (.string plain) := by
  cases request with
  | register password dto =>
    obtain ⟨s, hs, ht⟩ := Option.bind_eq_some_iff.mp ht
    cases ht
    cases hplain
    exact policy_of_accepted hs
  | resetPassword token newPassword =>
    obtain ⟨s, -, ht⟩ := Option.bind_eq_some_iff.mp ht
    obtain ⟨s', hs', ht⟩ := Option.bind_eq_some_iff.mp ht
    cases ht
    cases hplain
    exact policy_of_accepted hs'
  | resetPasswordSubmit body =>
    simp only [task?] at ht
    split at ht
    · rename_i token newPassword hpassed
      obtain ⟨s, -, ht⟩ := Option.bind_eq_some_iff.mp ht
      obtain ⟨s', hs', ht⟩ := Option.bind_eq_some_iff.mp ht
      cases ht
      cases hplain
      exact (policy_string? hs').mp ((resetPasswordSubmit_iff body).mpr hharmless _ _ hpassed)
    · cases ht
  | updatePassword userId currentPassword newPassword =>
    obtain ⟨s, -, ht⟩ := Option.bind_eq_some_iff.mp ht
    obtain ⟨s', hs', ht⟩ := Option.bind_eq_some_iff.mp ht
    cases ht
    cases hplain
    exact policy_of_accepted hs'

/-! ## Passwords in a run -/

/-- The plain text and the hash that the call has made of it. -/
def Call.hashes : (c : Call) → Except Err (Resp c) → Option (String × String)
  | .bcryptHash plain, .ok made => some (plain, made)
  | _, _ => none

/-- The account, and the password hash that the call has written for it. -/
def Call.setsPassword : (c : Call) → Except Err (Resp c) → Option (Id × String)
  | .usersSave _, .ok user => some (user.id, user.passwordHash)
  | .usersUpdatePassword id passwordHash, .ok _ => some (id, passwordHash)
  | _, _ => none

/-- Call `i` has made the hash of the password, and next has written it for the account. -/
def Sets (c : Pool) (i : Nat) (id : Id) (plain made : String) : Prop :=
  ∃ e₁ e₂, [e₁, e₂] <:+: c.log.filter (·.proc = i) ∧
    e₁.call.hashes e₁.res = some (plain, made) ∧ e₂.call.setsPassword e₂.res = some (id, made)

/-- The password hash of the user is as it was in the beginning, or a call has set it. -/
def HashFrom (w₀ : World) (c : Pool) (u : User) : Prop :=
  (∃ u₀ ∈ w₀.users.rows, u₀.id = u.id ∧ u₀.passwordHash = u.passwordHash) ∨
    ∃ i plain, Sets c i u.id plain u.passwordHash

/-- The calls that set a password come from requests. -/
def Requested (_ : Pool) : PoolLabel → Prop
  | .spawn t => t.newPassword?.isSome → ∃ request : Request, request.task? = some t
  | _ => True

/-- They do, and no form has a password against the rules. -/
def RequestedHarmlessly (_ : Pool) : PoolLabel → Prop
  | .spawn t => t.newPassword?.isSome →
    ∃ request : Request, request.task? = some t ∧ request.Harmless
  | _ => True

/-- The password of a place, and the hash that has been made of it. -/
def Errand.made? : Errand → Option (String × String)
  | enrolling dto made => some (dto.password, made)
  | rewriting _ newPassword made => some (newPassword, made)
  | _ => none

/-- Each password that a call has set is the one of its task. -/
structure SetByTask [JsString] (c : Pool) : Prop where
  last : ∀ i g plain made, errand.phase c i = some g → g.made? = some (plain, made) →
    ∃ e, c.last? i = some e ∧ e.call.hashes e.res = some (plain, made)
  sets : ∀ i id plain made, Sets c i id plain made →
    ∃ t, c.task? i = some t ∧ t.newPassword? = some plain

/-- Two neighbours in a longer list were neighbours before, or are the last two. -/
theorem infix_pair_concat {α : Type} {a b x : α} {l : List α} (h : [a, b] <:+: l ++ [x]) :
    [a, b] <:+: l ∨ b = x ∧ l.getLast? = some a := by
  obtain ⟨before, after, heq⟩ := h
  rcases after.eq_nil_or_concat with rfl | ⟨after, y, rfl⟩
  · right
    have heq : (before ++ [a]) ++ [b] = l ++ [x] := by simpa using heq
    obtain ⟨hl, hx⟩ := List.append_inj' heq rfl
    cases hx
    exact ⟨rfl, by rw [← hl, List.getLast?_concat]⟩
  · left
    rw [List.concat_eq_append, ← List.append_assoc] at heq
    exact ⟨before, after, (List.append_inj' heq rfl).1⟩

section

variable [Bcrypt] [Jwt] [JsString] [AuthConfig] {c c' : Pool} {i : Nat} {g g' : Errand} {call : Call}
  {r : Except Err (Resp call)}

theorem SetByTask.last_own (hm : Moved errand authSystem c c' i call r g g')
    {plain made : String} (hmade : g'.made? = some (plain, made)) :
    ∃ e, c'.last? i = some e ∧ e.call.hashes e.res = some (plain, made) := by
  have hlast : c'.last? i = some ⟨i, call, r, c.world, c'.world⟩ := by
    rw [Config.last?, own_log hm, if_pos rfl, List.getLast?_append, List.getLast?_singleton]
    rfl
  refine ⟨_, hlast, ?_⟩
  rcases moved_cases hm with ⟨-, rfl, -⟩ | ⟨a, rfl, hn⟩
  · cases hmade
  · cases hn with
    | look hg => cases g <;> cases hmade <;> cases hg
    | hashPassword => cases hmade; rfl
    | hashReset => cases hmade; rfl
    | hashChange => cases hmade; rfl
    | _ => cases hmade

/-- A call writes the hash of its place. -/
theorem made_of_sets (hm : Moved errand authSystem c c' i call r g g') {id : Id} {made : String}
    (hsets : call.setsPassword r = some (id, made)) : ∃ plain, g.made? = some (plain, made) := by
  rcases moved_cases hm with ⟨-, -, e, rfl⟩ | ⟨a, rfl, hn⟩
  · cases call <;> cases hsets
  · have hanswers := hm.answers
    cases hn with
    | stop hc => cases call <;> first | (cases hsets; done) | cases hc
    | @enrol dto row user =>
      have hhash : user.passwordHash = row.passwordHash := by
        rw [(user_of_save hanswers).1]
      cases hsets
      exact ⟨dto.password, by rw [hhash]; rfl⟩
    | rewrite => cases hsets; exact ⟨_, rfl⟩
    | _ => cases hsets

omit [Bcrypt] [Jwt] [AuthConfig] in
theorem newPassword_of_made {t : Task} (ht : c.task? i = some t) (hg : errand.phase c i = some g)
    {plain made : String} (h : g.made? = some (plain, made)) : t.newPassword? = some plain := by
  have hfits := fits_of_phase ht hg
  cases g with
  | enrolling dto made =>
    cases h
    rw [show t = _ from hfits]
    rfl
  | rewriting => cases h; exact hfits
  | _ => cases h

theorem SetByTask.move (h : SetByTask c) (hm : Moved errand authSystem c c' i call r g g') :
    SetByTask c' where
  last := by
    intro j gj plain made hj hmade
    rcases hm.phase_cases hj with ⟨rfl, rfl⟩ | ⟨hne, hj⟩
    · exact SetByTask.last_own hm hmade
    · rw [hm.last_other hne]
      exact h.last j gj plain made hj hmade
  sets := by
    rintro j id plain made ⟨e₁, e₂, hpair, hhashes, hsets⟩
    rw [hm.task]
    rw [own_log hm] at hpair
    by_cases hij : i = j
    · subst hij
      rw [if_pos rfl] at hpair
      rcases infix_pair_concat hpair with hpair | ⟨rfl, hlast⟩
      · exact h.sets i id plain made ⟨e₁, e₂, hpair, hhashes, hsets⟩
      · obtain ⟨plain', hmade⟩ := made_of_sets hm hsets
        obtain ⟨e, he, hhashes'⟩ := h.last i g plain' made hm.before hmade
        cases hlast.symm.trans he
        cases hhashes.symm.trans hhashes'
        obtain ⟨t, ht⟩ := Monitor.task_of_phase hm.before
        exact ⟨t, ht, newPassword_of_made ht hm.before hmade⟩
    · rw [if_neg hij, List.append_nil] at hpair
      exact h.sets j id plain made ⟨e₁, e₂, hpair, hhashes, hsets⟩

variable {init : World → Prop} {P : Pool → PoolLabel → Prop}

theorem setByTask (hr : Reach authSystem init P c) : SetByTask c := by
  refine errand_invariant ?_ ?_ ?_ ?_ hr
  · intro w _
    refine ⟨?_, ?_⟩
    · intro i g plain made hg
      cases hg
    · rintro i id plain made ⟨e₁, e₂, hpair, -⟩
      cases hpair.subset (List.mem_cons_self ..)
  · intro c t hr hI _
    have hlog := hr.logOk errand_sound
    refine ⟨?_, ?_⟩
    · intro i g plain made hg hmade
      rcases begun_cases hr hg with hg | ⟨-, rfl⟩
      · exact hI.last i g plain made hg hmade
      · cases t <;> cases hmade
    · intro i id plain made hsets
      obtain ⟨t', ht', hplain⟩ := hI.sets i id plain made hsets
      exact ⟨t', Config.task?_start _ _ ht', hplain⟩
  · intro c ms hr hI
    refine ⟨?_, ?_⟩
    · intro i g plain made hg
      exact hI.last i g plain made (waited_phase hr hg)
    · intro i id plain made hsets
      obtain ⟨t', ht', hplain⟩ := hI.sets i id plain made hsets
      exact ⟨t', Config.task?_start _ _ ht', hplain⟩
  · intro c c' i call r g g' hr hI _ hm
    exact hI.move hm

theorem Sets.mono {j : Nat} {id : Id} {plain made : String} (h : Sets c j id plain made)
    (hm : Moved errand authSystem c c' i call r g g') : Sets c' j id plain made := by
  obtain ⟨e₁, e₂, hpair, h⟩ := h
  refine ⟨e₁, e₂, ?_, h⟩
  rw [own_log hm]
  exact hpair.trans (List.prefix_append _ _).isInfix

/-- A call that writes a password hash has made it before. -/
theorem SetByTask.sets_own (h : SetByTask c) (hm : Moved errand authSystem c c' i call r g g') {id : Id}
    {made : String} (hsets : call.setsPassword r = some (id, made)) :
    ∃ plain, Sets c' i id plain made := by
  obtain ⟨plain, hmade⟩ := made_of_sets hm hsets
  obtain ⟨e, he, hhashes⟩ := h.last i g plain made hm.before hmade
  obtain ⟨before, hbefore⟩ := List.getLast?_eq_some_iff.mp he
  refine ⟨plain, e, ⟨i, call, r, c.world, c'.world⟩, ⟨before, [], ?_⟩, hhashes, hsets⟩
  rw [own_log hm, if_pos rfl, hbefore]
  simp

omit [Bcrypt] [Jwt] [JsString] [AuthConfig] in
theorem UserStep.passwordHash {w w' : World} (h : UserStep w w' call r) {u : User}
    (hu : u ∈ w'.users.rows) :
    (∃ u₀ ∈ w.users.rows, u₀.id = u.id ∧ u₀.passwordHash = u.passwordHash) ∨
      call.setsPassword r = some (u.id, u.passwordHash) := by
  cases h with
  | same h => exact .inl ⟨u, h ▸ hu, rfl, rfl⟩
  | saved row id _ _ h =>
    rw [h, Table.mem_put] at hu
    rcases hu with rfl | ⟨hu, -⟩
    · exact .inr rfl
    · exact .inl ⟨u, hu, rfl, rfl⟩
  | password id passwordHash h =>
    rcases w.users.mem_update_or id (fun u => { u with passwordHash := passwordHash }) (fun _ => rfl) u
      with hsame | ⟨u₀, hu₀, rfl | rfl⟩
    · exact .inl ⟨u, hsame.mp (h ▸ hu), rfl, rfl⟩
    · have hid : u₀.id = id := Table.key_of_get hu₀
      subst hid
      exact .inr rfl
    · exact .inl ⟨u, (Table.get_some_iff.mp hu₀).1, rfl, rfl⟩
  | verified id at' h =>
    rcases w.users.mem_update_or id (fun u => { u with emailVerified := true, emailVerifiedAt := some at' })
      (fun _ => rfl) u with hsame | ⟨u₀, hu₀, rfl | rfl⟩
    · exact .inl ⟨u, hsame.mp (h ▸ hu), rfl, rfl⟩
    · exact .inl ⟨u₀, (Table.get_some_iff.mp hu₀).1, rfl, rfl⟩
    · exact .inl ⟨u, (Table.get_some_iff.mp hu₀).1, rfl, rfl⟩

theorem hashFrom {w₀ : World} (hr : Reach authSystem (· = w₀) P c) :
    ∀ u ∈ c.world.users.rows, HashFrom w₀ c u := by
  refine errand_invariant (I := fun c => ∀ u ∈ c.world.users.rows, HashFrom w₀ c u) ?_ ?_ ?_ ?_ hr
  · rintro w rfl u hu
    exact .inl ⟨u, hu, rfl, rfl⟩
  · intro c t hr hI _
    exact hI
  · intro c ms hr hI
    exact hI
  · intro c c' i call r g g' hr hI _ hm u hu
    rcases (answered_users hm.answers).passwordHash hu with ⟨u₀, hu₀, hid, hhash⟩ | hsets
    · rw [HashFrom, ← hid, ← hhash]
      rcases hI u₀ hu₀ with h | ⟨j, plain, h⟩
      · exact .inl h
      · exact .inr ⟨j, plain, h.mono hm⟩
    · obtain ⟨plain, hsets⟩ := (setByTask hr).sets_own hm hsets
      exact .inr ⟨i, plain, hsets⟩

/-- The form passes on only passwords that follow the rules exactly when it is harmless. In a run
with harmless forms every password that is set follows the rules, and no other hash gets into the
table. -/
theorem password_policy :
    (∀ body : ResetForm, (∀ token newPassword,
        WebController.resetPasswordSubmit body = .resetPassword token newPassword →
          Policy newPassword) ↔ body.Harmless) ∧
      ∀ w₀ c, Reach authSystem (· = w₀) RequestedHarmlessly c →
        (∀ i id plain made, Sets c i id plain made → Policy (.string plain)) ∧
          ∀ u ∈ c.world.users.rows, HashFrom w₀ c u := by
  constructor
  · exact resetPasswordSubmit_iff
  · intro w₀ c hr
    refine ⟨?_, hashFrom hr⟩
    intro i id plain made hsets
    obtain ⟨t, ht, hplain⟩ := (setByTask hr).sets i id plain made hsets
    obtain ⟨request, htask, hharmless⟩ := task_of_guard
      (Q := fun _ t => t.newPassword?.isSome →
        ∃ request : Request, request.task? = some t ∧ request.Harmless)
      (fun _ _ h => h) (fun _ _ _ _ h => h) hr ht (by rw [hplain]; rfl)
    exact Request.policy hharmless htask hplain

end

/-! ### The form in a run -/

theorem infix_pair {α : Type} {a b : α} {l : List α} {k : Nat} (ha : l[k]? = some a)
    (hb : l[k + 1]? = some b) : [a, b] <:+: l := by
  obtain ⟨hk, ha⟩ := List.getElem?_eq_some_iff.mp ha
  obtain ⟨hk', hb⟩ := List.getElem?_eq_some_iff.mp hb
  refine ⟨l.take k, l.drop (k + 2), ?_⟩
  calc l.take k ++ [a, b] ++ l.drop (k + 2)
      = l.take k ++ l[k] :: l[k + 1] :: l.drop (k + 2) := by simp [ha, hb]
    _ = l.take k ++ l.drop k := by rw [List.drop_eq_getElem_cons hk, List.drop_eq_getElem_cons hk']
    _ = l := List.take_append_drop k l

/-- Both passwords of the form are the same. -/
def filledIn (newPassword : String) : Request :=
  .resetPasswordSubmit ⟨.string hexToken, .string newPassword, .string newPassword⟩

/-- A link is sent to the student, and the form comes back. -/
def submits (newPassword : String) : List PoolLabel :=
  .spawn (.forgotPassword "u@example.com") :: calls 0 3 ++ .run 0 hexToken :: calls 0 3 ++
    .spawn (.resetPassword hexToken newPassword) :: calls 1 7

/-- Only these two calls begin. -/
def Submits (newPassword : String) (_ : Pool) : PoolLabel → Prop
  | .spawn t => t.newPassword?.isSome → (filledIn newPassword).task? = some t
  | _ => True

instance (newPassword : String) : ∀ c l, Decidable (Submits newPassword c l)
  | _, .spawn _ => inferInstanceAs (Decidable (_ → _))
  | _, .run _ _ | _, .fail _ | _, .env _ => .isTrue trivial

/-- The sixth call of process 1 has made the hash, and the seventh has written it. -/
def Submitted (newPassword : String) (c : Pool) : Prop :=
  (c.log.filter (·.proc = 1))[5]?.any (fun e =>
      e.call.hashes e.res = some (newPassword, newPassword)) = true ∧
    (c.log.filter (·.proc = 1))[6]?.any (fun e =>
      e.call.setsPassword e.res = some ("U", newPassword)) = true

instance (newPassword : String) (c : Pool) : Decidable (Submitted newPassword c) :=
  inferInstanceAs (Decidable (_ ∧ _))

theorem Submitted.sets {newPassword : String} {c : Pool} (h : Submitted newPassword c) :
    Sets c 1 "U" newPassword newPassword := by
  obtain ⟨e₁, he₁, hhashes⟩ := (Option.any_eq_true _ _).mp h.1
  obtain ⟨e₂, he₂, hsets⟩ := (Option.any_eq_true _ _).mp h.2
  exact ⟨e₁, e₂, infix_pair he₁ he₂, of_decide_eq_true hhashes, of_decide_eq_true hsets⟩

theorem exists_submits (newPassword : String)
    (h : (runIf bureauSystem (Submits newPassword) (submits newPassword) (.initial bureau)).any
      (fun c => Submitted newPassword c) = true) :
    ∃ c, Reach bureauSystem (· = bureau) (Submits newPassword) c ∧
      Sets c 1 "U" newPassword newPassword := by
  obtain ⟨c, hc, hp⟩ := (Option.any_eq_true _ _).mp h
  exact ⟨c, runIf_reach (.init rfl) hc, (of_decide_eq_true hp).sets⟩

set_option maxRecDepth 100000 in
/-- The student gets the new password of the form, which follows the rules. -/
theorem password_policy_form : ∃ c, Reach bureauSystem (· = bureau) RequestedHarmlessly c ∧
    Sets c 1 "U" "Str0ng!Pass" "Str0ng!Pass" ∧ Policy (.string "Str0ng!Pass") := by
  obtain ⟨c, hr, hsets⟩ := exists_submits "Str0ng!Pass" (by decide)
  have hr : Reach bureauSystem (· = bureau) RequestedHarmlessly c := by
    refine hr.mono ?_
    intro c l h
    cases l with
    | spawn t => exact fun hnew => ⟨filledIn "Str0ng!Pass", h hnew, .inr (.inr (.inr (by decide)))⟩
    | _ => trivial
  exact ⟨c, hr, hsets, ((@password_policy Exams.plainBcrypt plainJwt plainString development).2
    bureau c hr).1 1 "U" _ _ hsets⟩

set_option maxRecDepth 100000 in
/-- The form gives the student a password of four letters. -/
theorem weak_password_set :
    ¬∀ w₀ c, Reach bureauSystem (· = w₀) Requested c →
      ∀ i id plain made, Sets c i id plain made → Policy (.string plain) := by
  intro hall
  obtain ⟨c, hr, hsets⟩ := exists_submits "weak" (by decide)
  have hr : Reach bureauSystem (· = bureau) Requested c := by
    refine hr.mono ?_
    intro c l h
    cases l with
    | spawn t => exact fun hnew => ⟨filledIn "weak", h hnew⟩
    | _ => trivial
  have hpolicy := hall bureau c hr 1 "U" _ _ hsets
  revert hpolicy
  decide

end LmsBackend.Auth
