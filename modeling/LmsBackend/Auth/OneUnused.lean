import LmsBackend.Auth.Stranded

/-!
# One unused token

`issueAuthToken` marks the unused tokens of its user and purpose as used, and
inserts the next one after a slow hash. A token that another call inserts in
between stays unused beside it.
-/

open Async Store

namespace LmsBackend.Auth

def AuthToken.UnusedFor (userId : Id) (purpose : AuthTokenPurpose) (t : AuthToken) : Prop :=
  t.userId = userId ∧ t.purpose = purpose ∧ t.usedAt = none

instance (userId : Id) (purpose : AuthTokenPurpose) (t : AuthToken) :
    Decidable (t.UnusedFor userId purpose) := inferInstanceAs (Decidable (_ ∧ _))

/-- Each user has at most one unused token of a purpose. -/
def Superseded (w : World) : Prop := ∀ userId purpose, ∀ t ∈ w.authTokens.rows, ∀ t' ∈ w.authTokens.rows,
  t.UnusedFor userId purpose → t'.UnusedFor userId purpose → t = t'

/-- Whose unused tokens the call has marked, and of which purpose. -/
def Call.supersedes : (c : Call) → Except Err (Resp c) → Option (Id × AuthTokenPurpose)
  | .authTokensUseAll userId purpose _, .ok _ => some (userId, purpose)
  | _, _ => none

/-- The row was not inserted after the UPDATE of call `i`. -/
def SavedEarlier (c : Pool) (i : Nat) (t : AuthToken) : Prop :=
  c.log.Pairwise fun e e' => e.proc = i → e.call.supersedes e.res = some (t.userId, t.purpose) →
    e'.call.issues e'.res ≠ some t

def Call.saves? : Call → Option AuthToken
  | .authTokensSave row => some row
  | _ => none

/-- When a call inserts its token, none that others have inserted for the same user and purpose since
its UPDATE is still unused. -/
def InTurn (c : Pool) : PoolLabel → Prop
  | .run i _ => ∀ row ∈ (c.next? i).bind Call.saves?, ∀ t ∈ c.world.authTokens.rows,
      t.UnusedFor row.userId row.purpose → SavedEarlier c i t
  | _ => True

/-- The tables at first. -/
structure Orderly (w : World) : Prop where
  consistent : Consistent w
  superseded : Superseded w

/-- The user that the call has made, or found by their email. -/
def Call.finds : (c : Call) → Except Err (Resp c) → Option User
  | .usersSave _, .ok user => some user
  | .usersFindByEmail _, .ok user? => user?
  | _, _ => none

/-! ## The places of `issueAuthToken` -/

/-- What the call issues a token for. -/
def Errand.issuesFor? : Errand → Option (Id × AuthTokenPurpose)
  | issuing userId purpose | drawing userId purpose | drawn userId purpose _
  | hashed userId purpose _ _ => some (userId, purpose)
  | _ => none

/-- What the call has made the UPDATE for. -/
def Errand.supersedes? : Errand → Option (Id × AuthTokenPurpose)
  | drawing userId purpose | drawn userId purpose _ | hashed userId purpose _ _ =>
    some (userId, purpose)
  | _ => none

section

variable {w w' : World} {g g' : Errand} {call : Call} {r : Except Err (Resp call)} {userId : Id} {purpose : AuthTokenPurpose}

theorem Errand.supersedes_of_goes [JsString] {a : Resp call} (hn : g.Goes call a g')
    (h : g'.supersedes? = some (userId, purpose)) :
    g.supersedes? = some (userId, purpose) ∨ call.supersedes (.ok a) = some (userId, purpose) := by
  cases hn with
  | look => exact .inl h
  | supersede => exact .inr h
  | _ => first | exact .inl h | cases h

theorem Errand.issuesFor_of_goes [JsString] {a : Resp call} (hn : g.Goes call a g')
    (h : g'.issuesFor? = some (userId, purpose)) :
    g.issuesFor? = some (userId, purpose) ∨ ∃ user, call.finds (.ok a) = some user ∧ user.id = userId := by
  cases hn with
  | look => exact .inl h
  | enrol => cases h; exact .inr ⟨_, rfl, rfl⟩
  | forget => cases h; exact .inr ⟨_, rfl, rfl⟩
  | _ => first | exact .inl h | cases h

/-- What a call has saved is what it has hashed, and not used. -/
theorem Errand.hashed_of_save [JsString] {row inserted : AuthToken}
    (hn : g.Goes (.authTokensSave row) inserted g') :
    g.supersedes? = some (row.userId, row.purpose) ∧ g.issuesFor? = some (row.userId, row.purpose) ∧
      row.usedAt = none ∧ g'.supersedes? = none := by
  cases hn with
  | stop hc => cases hc
  | save hunused => exact ⟨rfl, rfl, hunused, rfl⟩

theorem eq_of_supersedes (h : call.supersedes r = some (userId, purpose)) :
    ∃ usedAt, call = .authTokensUseAll userId purpose usedAt ∧ r.isOk = true := by
  unfold Call.supersedes at h
  split at h
  · cases h
    exact ⟨_, rfl, rfl⟩
  · cases h

theorem eq_of_saves? {row : AuthToken} (h : call.saves? = some row) : call = .authTokensSave row := by
  unfold Call.saves? at h
  split at h
  · rw [Option.some.inj h]
  · cases h

theorem save_of_issues {t : AuthToken} (h : call.issues r = some t) :
    ∃ row, call = .authTokensSave row := by
  unfold Call.issues at h
  split at h
  · exact ⟨_, rfl⟩
  · cases h

/-- An unused token was there before, or has just been saved. -/
theorem AuthTokenStep.unused (h : AuthTokenStep w w' call r) {t : AuthToken}
    (ht : t ∈ w'.authTokens.rows) (hunused : t.usedAt = none) :
    t ∈ w.authTokens.rows ∧ call.supersedes r ≠ some (t.userId, t.purpose) ∨
      call.issues r = some t ∧ (w.users.get t.userId).isSome = true := by
  cases h with
  | same hc hall h _ =>
    refine .inl ⟨h ▸ ht, fun hsupersedes => ?_⟩
    obtain ⟨usedAt, hcall, hok⟩ := eq_of_supersedes hsupersedes
    rw [hall _ _ _ hcall] at hok
    cases hok
  | saved row huser h _ =>
    rw [h, Table.mem_put] at ht
    rcases ht with rfl | ⟨ht, -⟩
    · exact .inr ⟨rfl, huser⟩
    · exact .inl ⟨ht, nofun⟩
  | used row usedAt hrow _ h _ =>
    rw [h, Table.mem_put] at ht
    rcases ht with rfl | ⟨ht, -⟩
    · cases hunused
    · exact .inl ⟨ht, nofun⟩
  | usedAll userId purpose usedAt h _ =>
    rw [h, Table.mem_map] at ht
    obtain ⟨t₀, ht₀, rfl⟩ := ht
    unfold AuthToken.usedFor at hunused ⊢
    split at hunused
    · cases hunused
    · rename_i hother
      rw [if_neg hother]
      refine .inl ⟨ht₀, fun hsupersedes => hother ?_⟩
      cases hsupersedes
      exact ⟨rfl, rfl, hunused⟩

end

/-! ## What a call in the middle of its issue knows -/

section

variable [Bcrypt] [Jwt] [JsString] [AuthConfig] {c c' : Pool} {i : Nat} {call : Call}
  {r : Except Err (Resp call)} {g g' : Errand}

/-- The unused tokens that a call finds between its UPDATE and its INSERT came in between. -/
structure Superseding (c : Pool) : Prop where
  consistent : Consistent c.world
  owner : ∀ i g userId purpose, errand.phase c i = some g →
    g.issuesFor? = some (userId, purpose) → (c.world.users.get userId).isSome = true
  marked : ∀ i g userId purpose, errand.phase c i = some g → g.supersedes? = some (userId, purpose) →
    ∃ e ∈ c.log, e.proc = i ∧ e.call.supersedes e.res = some (userId, purpose)
  late : ∀ i g userId purpose, errand.phase c i = some g → g.supersedes? = some (userId, purpose) →
    ∀ t ∈ c.world.authTokens.rows, t.UnusedFor userId purpose → ¬SavedEarlier c i t

omit [Bcrypt] [Jwt] [JsString] [AuthConfig] in
theorem SavedEarlier.of_append {t : AuthToken} {log : List (Event World Call Resp Err)}
    (hlog : c'.log = c.log ++ log) (h : SavedEarlier c' i t) : SavedEarlier c i t := by
  unfold SavedEarlier at h
  rw [hlog] at h
  exact (List.pairwise_append.mp h).1

theorem finds_isSome {w w' : World} {user : User} (h : Answered authSystem i call w r w')
    (hfinds : call.finds r = some user) : (w'.users.get user.id).isSome = true := by
  unfold Call.finds at hfinds
  split at hfinds
  · cases hfinds
    rw [(user_of_save h).2.2]
    exact congrArg Option.isSome (Table.get_put_of_eq w.users rfl)
  · have hfind := says_of_answered h
    rw [hfinds] at hfind
    have hget := Table.get_some_iff.mpr ⟨List.mem_of_find?_eq_some hfind.symm, rfl⟩
    rw [world_of_reads rfl h, show w.users.get user.id = some user from hget]
    rfl
  · cases hfinds

theorem Superseding.move (h : Superseding c) (hm : Moved errand authSystem c c' i call r g g') :
    Superseding c' where
  consistent := h.consistent.step hm.answers
  owner := by
    intro j gj userId purpose hj hissues
    have hkept := fun hid : (c.world.users.get userId).isSome => (answered_users hm.answers).isSome hid
    rcases hm.phase_cases hj with ⟨rfl, rfl⟩ | ⟨hne, hj⟩
    · rcases moved_cases hm with ⟨-, rfl, -⟩ | ⟨a, rfl, hgoes⟩
      · cases hissues
      · rcases Errand.issuesFor_of_goes hgoes hissues with hissues | ⟨user, hfinds, rfl⟩
        · exact hkept (h.owner j g userId purpose hm.before hissues)
        · exact finds_isSome hm.answers hfinds
    · exact hkept (h.owner j gj userId purpose hj hissues)
  marked := by
    intro j gj userId purpose hj hsupersedes
    rcases hm.phase_cases hj with ⟨rfl, rfl⟩ | ⟨hne, hj⟩
    · rcases moved_cases hm with ⟨-, rfl, -⟩ | ⟨a, rfl, hgoes⟩
      · cases hsupersedes
      · rcases Errand.supersedes_of_goes hgoes hsupersedes with hbefore | hnow
        · obtain ⟨e, he, hproc⟩ := h.marked j g userId purpose hm.before hbefore
          exact ⟨e, log_mono hm e he, hproc⟩
        · refine ⟨⟨j, call, .ok a, c.world, c'.world⟩, ?_, rfl, hnow⟩
          rw [hm.log]
          exact List.mem_append_right _ (List.mem_singleton_self _)
    · obtain ⟨e, he, hproc⟩ := h.marked j gj userId purpose hj hsupersedes
      exact ⟨e, log_mono hm e he, hproc⟩
  late := by
    intro j gj userId purpose hj hsupersedes t ht hunused hearlier
    have hbefore := hearlier.of_append hm.log
    rcases (answered_authTokens hm.answers).unused ht hunused.2.2 with ⟨ht₀, hother⟩ | ⟨hissues, -⟩
    · rcases hm.phase_cases hj with ⟨rfl, rfl⟩ | ⟨hne, hj⟩
      · rcases moved_cases hm with ⟨-, rfl, -⟩ | ⟨a, rfl, hgoes⟩
        · cases hsupersedes
        · rcases Errand.supersedes_of_goes hgoes hsupersedes with hmarked | hnow
          · exact h.late j g userId purpose hm.before hmarked t ht₀ hunused hbefore
          · rw [hunused.1, hunused.2.1] at hother
            exact hother hnow
      · exact h.late j gj userId purpose hj hsupersedes t ht₀ hunused hbefore
    · rcases hm.phase_cases hj with ⟨rfl, rfl⟩ | ⟨hne, hj⟩
      · rcases moved_cases hm with ⟨-, rfl, -⟩ | ⟨a, rfl, hgoes⟩
        · cases hsupersedes
        · obtain ⟨row, rfl⟩ := save_of_issues hissues
          rw [(Errand.hashed_of_save hgoes).2.2.2] at hsupersedes
          cases hsupersedes
      · obtain ⟨e, he, hproc, hmarked⟩ := h.marked j gj userId purpose hj hsupersedes
        unfold SavedEarlier at hearlier
        rw [hm.log] at hearlier
        refine (List.pairwise_append.mp hearlier).2.2 e he _ (List.mem_singleton_self _) hproc ?_ hissues
        rw [hmarked, hunused.1, hunused.2.1]

theorem superseding {init : World → Prop} (hinit : ∀ w, init w → Consistent w)
    {P : Pool → PoolLabel → Prop} (hr : Reach authSystem init P c) : Superseding c := by
  refine errand_invariant (I := Superseding) ?_ ?_ ?_ ?_ hr
  · intro w hw
    refine ⟨hinit w hw, ?_, ?_, ?_⟩
    all_goals
      intro j gj userId purpose hj
      cases hj
  · intro c t hr hI _
    refine ⟨hI.consistent, ?_, ?_, ?_⟩
    · intro j gj userId purpose hj hissues
      rcases begun_cases hr hj with hj | ⟨-, rfl⟩
      · exact hI.owner j gj userId purpose hj hissues
      · cases t <;> cases hissues
    · intro j gj userId purpose hj hsupersedes
      rcases begun_cases hr hj with hj | ⟨-, rfl⟩
      · exact hI.marked j gj userId purpose hj hsupersedes
      · cases t <;> cases hsupersedes
    · intro j gj userId purpose hj hsupersedes
      rcases begun_cases hr hj with hj | ⟨-, rfl⟩
      · exact hI.late j gj userId purpose hj hsupersedes
      · cases t <;> cases hsupersedes
  · intro c ms hr hI
    refine ⟨⟨⟨hI.consistent.emails.users, hI.consistent.emails.admins⟩, hI.consistent.ids,
      hI.consistent.owners⟩, ?_, ?_, ?_⟩
    · exact fun j gj userId purpose hj => hI.owner j gj userId purpose (waited_phase hr hj)
    · exact fun j gj userId purpose hj => hI.marked j gj userId purpose (waited_phase hr hj)
    · exact fun j gj userId purpose hj => hI.late j gj userId purpose (waited_phase hr hj)
  · intro c c' i call r g g' hr hI _ hm
    exact hI.move hm

/-- A call that inserts in its turn finds no unused token of its user and purpose. -/
theorem Superseding.none_unused (hI : Superseding c)
    (hP : Reach.Allowed authSystem InTurn c i call r c'.world)
    (hm : Moved errand authSystem c c' i call r g g') {t t' : AuthToken}
    (hissues : call.issues r = some t') (ht : t ∈ c.world.authTokens.rows) :
    ¬t.UnusedFor t'.userId t'.purpose := by
  intro hunused
  obtain ⟨row, rfl⟩ := save_of_issues hissues
  rcases moved_cases hm with ⟨-, -, e, rfl⟩ | ⟨a, rfl, hgoes⟩
  · cases hissues
  · obtain rfl : a = t' := Option.some.inj hissues
    rw [inserted_of_save hm.answers] at hunused
    obtain ⟨x, hturn⟩ := hP.guard
    exact hI.late i g row.userId row.purpose hm.before (Errand.hashed_of_save hgoes).1 t ht hunused
      (hturn row (by rw [hm.waits]; rfl) t ht hunused)

theorem Superseded.move (h : Superseded c.world) (hI : Superseding c)
    (hP : Reach.Allowed authSystem InTurn c i call r c'.world)
    (hm : Moved errand authSystem c c' i call r g g') : Superseded c'.world := by
  intro userId purpose t ht t' ht' hunused hunused'
  have hstep := answered_authTokens hm.answers
  have hthird : ∀ x y, x.UnusedFor userId purpose → y.UnusedFor userId purpose →
      call.issues r = some y → x ∉ c.world.authTokens.rows := by
    intro x y hx hy hissues hmem
    apply hI.none_unused hP hm hissues hmem
    rw [hy.1, hy.2.1]
    exact hx
  rcases hstep.unused ht hunused.2.2 with ⟨ht, -⟩ | ⟨hissues, -⟩
  · rcases hstep.unused ht' hunused'.2.2 with ⟨ht', -⟩ | ⟨hissues', -⟩
    · exact h userId purpose t ht t' ht' hunused hunused'
    · exact absurd ht (hthird t t' hunused hunused' hissues')
  · rcases hstep.unused ht' hunused'.2.2 with ⟨ht', -⟩ | ⟨hissues', -⟩
    · exact absurd ht' (hthird t' t hunused' hunused hissues)
    · exact Option.some.inj (hissues.symm.trans hissues')

theorem superseded (hr : Reach authSystem Orderly InTurn c) : Superseded c.world := by
  refine errand_invariant (I := fun c => Superseded c.world) ?_ ?_ ?_ ?_ hr
  · intro w hw
    exact hw.superseded
  · intro c t hr hI _
    exact hI
  · intro c ms hr hI
    exact hI
  · intro c c' i call r g g' hr hI hP hm
    exact hI.move (superseding (fun _ h => h.consistent) hr) hP hm

/-- A call that inserts out of its turn leaves a second unused token. -/
theorem not_superseded {P : Pool → PoolLabel → Prop} (hr : Reach authSystem Orderly P c) {l : PoolLabel}
    (hl : Step authSystem c l c') (hturn : ¬InTurn c l) : ¬Superseded c'.world := by
  have hI := superseding (fun _ h => h.consistent) hr
  cases hl with
  | run hp hk hx =>
    intro hsuperseded
    apply hturn
    intro row hwaits t ht hunused
    obtain ⟨g, g', hm, -⟩ := (hr.conforms errand_sound).moved hp hk (.exec hx)
    rw [hm.waits] at hwaits
    obtain rfl := eq_of_saves? hwaits
    obtain ⟨g₁, hnext⟩ := hm.allowed row
    have hgoes : g.Goes (.authTokensSave row) row g₁ := Errand.goes_of_next hnext
    obtain ⟨-, hissues, hrow, -⟩ := Errand.hashed_of_save hgoes
    have huser := hI.owner _ g row.userId row.purpose hm.before hissues
    obtain ⟨rfl, -⟩ := Prod.mk.inj (Option.some.inj ((if_pos huser).symm.trans hx))
    have hid := hI.consistent.ids t ht
    have hsame := hsuperseded row.userId row.purpose t
      (Table.mem_put.mpr (.inr ⟨ht, fun hkey => hid.ne hkey⟩)) _ (Table.mem_put.mpr (.inl rfl)) hunused
      ⟨rfl, rfl, hrow⟩
    rw [hsame] at hid
    exact absurd rfl hid.ne
  | _ => exact absurd trivial hturn

/-- While every call inserts in its turn, each user has at most one unused token of a purpose. The
first call that does not leaves two. -/
theorem one_unused (hr : Reach authSystem Orderly InTurn c) : Superseded c.world ∧
    ∀ l c', Step authSystem c l c' → (Superseded c'.world ↔ InTurn c l) := by
  refine ⟨superseded hr, fun l c' hl => ⟨fun h => ?_, fun hturn => superseded (.step hr hturn hl)⟩⟩
  by_contra hturn
  exact not_superseded hr hl hturn h

end

/-! ### Two links at once -/

instance (c : Pool) (i : Nat) (t : AuthToken) : Decidable (SavedEarlier c i t) :=
  inferInstanceAs (Decidable (c.log.Pairwise _))

instance (c : Pool) (i : Nat) (x : String) : Decidable (InTurn c (.run i x)) :=
  inferInstanceAs (Decidable (∀ row ∈ (c.next? i).bind Call.saves?, _))

instance : ∀ c l, Decidable (InTurn c l)
  | _, .run _ _ => inferInstance
  | _, .spawn _ | _, .fail _ | _, .env _ => .isTrue trivial

theorem bureau_orderly : Orderly bureau where
  consistent := ⟨bureau_opened.emails, by decide, by decide⟩
  superseded := by
    intro userId purpose t ht
    cases ht

def otherHexToken : String := String.ofList (List.replicate 64 'b')

/-- A student asks for a link again after the first one has been made. -/
def forgetsAgain : List PoolLabel :=
  .spawn (.forgotPassword "u@example.com") :: calls 0 3 ++ .run 0 hexToken :: calls 0 3 ++
    .spawn (.forgotPassword "u@example.com") :: calls 1 3 ++ .run 1 otherHexToken :: calls 1 3

set_option maxRecDepth 100000 in
/-- The second link has superseded the first one. -/
theorem one_unused_again : ∃ c, Reach bureauSystem Orderly InTurn c ∧ (c.reply? 0).isSome ∧
    (c.reply? 1).isSome ∧ c.world.authTokens.rows.length = 2 ∧ Superseded c.world := by
  obtain ⟨c, hc, hp⟩ := (Option.any_eq_true _ _).mp (show
    (runIf bureauSystem InTurn forgetsAgain (.initial bureau)).any (fun c =>
      (c.reply? 0).isSome ∧ (c.reply? 1).isSome ∧ c.world.authTokens.rows.length = 2) = true by decide)
  have hr : Reach bureauSystem Orderly InTurn c := runIf_reach (.init bureau_orderly) hc
  obtain ⟨hreply, hreply', hrows⟩ := of_decide_eq_true hp
  exact ⟨c, hr, hreply, hreply', hrows, (@one_unused Exams.plainBcrypt plainJwt plainString development
    c hr).1⟩

/-- A student asks for a link again before the first one has been made. -/
def forgetsTwice : List PoolLabel :=
  [.spawn (.forgotPassword "u@example.com"), .spawn (.forgotPassword "u@example.com")] ++
    calls 0 3 ++ calls 1 3 ++ .run 0 hexToken :: calls 0 3 ++ .run 1 otherHexToken :: calls 1 3

/-- Two tokens that both open the account. -/
def BothUnused (w : World) : Prop := ∃ t ∈ w.authTokens.rows, ∃ t' ∈ w.authTokens.rows,
  t.UnusedFor "U" .passwordReset ∧ t'.UnusedFor "U" .passwordReset ∧ t ≠ t'

instance (w : World) : Decidable (BothUnused w) :=
  inferInstanceAs (Decidable (∃ t ∈ w.authTokens.rows, _))

set_option maxRecDepth 100000 in
theorem two_unused : ¬∀ c, Reach bureauSystem Orderly anyStep c →
    (∀ i < c.procs.length, c.next? i = none) → Superseded c.world := by
  intro hall
  obtain ⟨c, hc, hp⟩ := (Option.any_eq_true _ _).mp (show
    (runIf bureauSystem anyStep forgetsTwice (.initial bureau)).any (fun c =>
      (∀ i < c.procs.length, c.next? i = none) ∧ BothUnused c.world) = true by decide)
  obtain ⟨hended, t, ht, t', ht', hunused, hunused', hne⟩ := of_decide_eq_true hp
  exact hne (hall c (runIf_reach (.init bureau_orderly) hc) hended "U" .passwordReset t ht t' ht' hunused
    hunused')

end LmsBackend.Auth
