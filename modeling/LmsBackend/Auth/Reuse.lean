import LmsBackend.Auth.Revocation

/-!
# After a token was used twice

A refresh that finds its token used before revokes all tokens of the account.
Another refresh, with the same token or with another, may be between its own
UPDATE and the INSERT of the next token.
-/

open Async Store

namespace LmsBackend.Auth

/-- The row that the call has read. -/
def Call.found : (c : Call) → Except Err (Resp c) → Option RefreshToken
  | .refreshTokensFindOne _, .ok row? => row?
  | _, _ => none

/-- The answer that shows a refresh that its token was used before. -/
def Call.detects : (c : Call) → Except Err (Resp c) → Bool
  | .refreshTokensFindOne _, .ok (some row) => row.revokedAt ≠ none
  | .refreshTokensRevoke _ _, .ok (affected : Nat) => affected ≠ 1
  | _, _ => false

/-- None of the first `n` calls saves a token behind the UPDATE of call `d`. The row that call `d`
has read is not expired when it looks, and its UPDATE does not reject. -/
def RevokesAll (d n : Nat) (payload : RefreshTokenPayload) (c : Pool) (l : PoolLabel) : Prop :=
  SavesFirst d n payload.sub payload.type c l ∧
    match l with
    | .run i _ => i = d → ∀ e ∈ c.last? d, ∀ row ∈ e.call.found e.res, ¬row.expiresAt < c.world.now
    | .fail i => i ≠ d
    | _ => True

instance (d n : Nat) (payload : RefreshTokenPayload) :
    ∀ c l, Decidable (RevokesAll d n payload c l) := fun c l => by
  refine @instDecidableAnd _ _ inferInstance ?_
  exact match l with
  | .run i _ => inferInstanceAs (Decidable (i = d → ∀ e ∈ c.last? d, _))
  | .fail i => inferInstanceAs (Decidable (i ≠ d))
  | .spawn _ | .env _ => .isTrue trivial

/-- The phases of a refresh with the payload. -/
def Revoking.OfRefresh (payload : RefreshTokenPayload) : Revoking → Prop
  | .refreshing payload' | .found payload' _ | .checked payload' => payload' = payload
  | .due subjectId type => subjectId = payload.sub ∧ type = payload.type
  | .other | .done | .failed => True
  | _ => False

/-- A refresh that has detected reuse, and has not failed. -/
def Revoking.Detected (d n : Nat) (payload : RefreshTokenPayload) (c : Pool) (g : Revoking) : Prop :=
  (∃ row e, g = .found payload row ∧ row.revokedAt ≠ none ∧ c.last? d = some e ∧
    e.call.found e.res = some row) ∨
  g ≠ .failed ∧ g.Cuts d n payload.sub payload.type c

variable {payload : RefreshTokenPayload} {g g' : Revoking} {call : Call}
  {r : Except Err (Resp call)}

theorem Revoking.OfRefresh.next (h : g.OfRefresh payload)
    (hn : revoking.advance g call r = some g') : g'.OfRefresh payload := by
  cases r with
  | error e =>
    cases hn
    cases g <;> trivial
  | ok a =>
    have hn : g.nextOk call a = some g' := hn
    cases call with
    | _ =>
      simp only [nextOk] at hn
      repeat' split at hn
      all_goals simp only [reduceCtorEq, Option.some.injEq] at hn
      all_goals subst hn
      all_goals first
        | trivial
        | exact h
        | (cases h; exact ⟨rfl, rfl⟩)

/-- A call that succeeds fails a refresh only where it looks at its row. -/
theorem Revoking.of_next_failed {a : Resp call} (hn : g.nextOk call a = some .failed) :
    (∃ payload, g = .refreshing payload) ∨ ∃ payload row, g = .found payload row := by
  cases call with
  | _ =>
    simp only [nextOk] at hn
    repeat' split at hn
    all_goals first
      | (cases hn; done)
      | exact .inl ⟨_, rfl⟩
      | exact .inr ⟨_, _, rfl⟩
      | simp_all

section

variable [Bcrypt] [Jwt] [JsString] [AuthConfig] {c c' c₁ c₂ : Pool} {d n i : Nat}
  {e : Event World Call Resp Err} {rawToken : String}

theorem detected_of_detects (h : Reachable anyStep c₁) (hlast : c₁.log.getLast? = some e)
    (hdetects : e.call.detects e.res = true)
    (ht : c₁.task? e.proc = some (.refresh payload rawToken)) :
    ∃ g, revoking.phase c₁ e.proc = some g ∧ g.Detected e.proc n payload c₁ := by
  have hproc : e.proc < c₁.procs.length := h.logOk revoking_sound e (List.mem_of_getLast? hlast)
  obtain ⟨g, hg, -⟩ := h.conforms revoking_sound e.proc _ (List.getElem?_eq_getElem hproc)
  obtain ⟨g₀, hrefresh, hnext⟩ := Monitor.phase_last hlast ht hg (p := Revoking.OfRefresh payload)
    rfl fun _ _ _ _ => Revoking.OfRefresh.next
  refine ⟨g, hg, ?_⟩
  have hlast' := Config.last?_of_getLast? hlast
  obtain ⟨i, call, r, before, after⟩ := e
  cases r with
  | error err => cases call <;> cases hdetects
  | ok a =>
    have hnext : g₀.nextOk call a = some g := hnext
    cases call with
    | refreshTokensFindOne id =>
      cases a with
      | none => cases hdetects
      | some row =>
        cases g₀ with
        | refreshing payload' =>
          cases hrefresh
          cases hnext
          exact .inl ⟨row, _, rfl, by simpa [Call.detects] using hdetects, hlast', rfl⟩
        | _ => cases hnext
    | refreshTokensRevoke id revokedAt =>
      have haffected : a ≠ (1 : Nat) := by simpa [Call.detects] using hdetects
      cases g₀ with
      | checked payload' =>
        cases hrefresh
        simp only [Revoking.nextOk, if_pos haffected, Option.some.injEq] at hnext
        subst hnext
        exact .inr ⟨by simp, rfl, rfl⟩
      | leaving => cases hrefresh
      | _ => cases hnext
    | _ => cases hdetects

/-- Once reuse is detected, no call of the refresh rejects while its UPDATE does not. -/
theorem Revoking.Detected.not_error {err : Err}
    (hP : Reach.Allowed authSystem (RevokesAll d n payload) c d call (.error err) c'.world)
    (hm : Moved revoking authSystem c c' d call (.error err) g g')
    (h : g.Detected d n payload c) : False := by
  cases hP with
  | fail _ _ hguard => exact hguard.2 rfl
  | run hx =>
    have hx : exec d call _ c.world = some (c'.world, .error err) := hx
    have hsaves : ∀ a, g.nextOk call a = none → False := fun a hnone => by
      obtain ⟨g'', hg''⟩ := hm.allowed a
      rw [revoking_next, hnone] at hg''
      cases hg''
    have hphase : (∃ payload row, g = .found payload row) ∨ (∃ s t, g = .due s t) ∨ g = .done := by
      rcases h with ⟨row, e, rfl, -⟩ | ⟨hne, hcuts⟩
      · exact .inl ⟨_, _, rfl⟩
      · cases g with
        | due => exact .inr (.inl ⟨_, _, rfl⟩)
        | done => exact .inr (.inr rfl)
        | failed => exact absurd rfl hne
        | _ => cases hcuts
    cases call with
    | usersSave row => exact hsaves row (by rcases hphase with ⟨_, _, rfl⟩ | ⟨_, _, rfl⟩ | rfl <;> rfl)
    | refreshTokensSave row =>
      exact hsaves row (by rcases hphase with ⟨_, _, rfl⟩ | ⟨_, _, rfl⟩ | rfl <;> rfl)
    | authTokensSave row =>
      exact hsaves row (by rcases hphase with ⟨_, _, rfl⟩ | ⟨_, _, rfl⟩ | rfl <;> rfl)
    | refreshTokensRevoke id revokedAt =>
      simp only [exec] at hx
      repeat' split at hx
      all_goals simp at hx
    | authTokensUse id usedAt =>
      simp only [exec] at hx
      repeat' split at hx
      all_goals simp at hx
    | _ => simp [exec] at hx

theorem Revoking.Detected.own (hP : Reach.Allowed authSystem (RevokesAll d n payload) c d call r
      c'.world)
    (hm : Moved revoking authSystem c c' d call r g g') (h : g.Detected d n payload c) :
    g'.Detected d n payload c' := by
  cases r with
  | error err => exact (h.not_error hP hm).elim
  | ok a =>
    have hn : g.nextOk call a = some g' := hm.next
    obtain ⟨x, hguard⟩ := hP.guard
    rcases h with ⟨row, e, rfl, hrevoked, hlast, hfound⟩ | ⟨hne, hcuts⟩
    · cases call with
      | now =>
        have hnow : c.world.now = a := by
          cases hm.answers with
          | exec hx =>
            have hx : some (c.world, Except.ok c.world.now) = some (c'.world, .ok a) := hx
            simp only [Option.some.injEq, Prod.mk.injEq, Except.ok.injEq] at hx
            exact hx.2
        have hexpired := hguard.2 rfl e hlast row hfound
        rw [hnow] at hexpired
        simp only [nextOk, if_neg hexpired, if_pos hrevoked, Option.some.injEq] at hn
        subst hn
        exact .inr ⟨by simp, rfl, rfl⟩
      | _ => cases hn
    · refine .inr ⟨?_, hcuts.own hm⟩
      rintro rfl
      rcases Revoking.of_next_failed hn with ⟨_, rfl⟩ | ⟨_, _, rfl⟩ <;> cases hcuts

theorem Revoking.Detected.other
    (hP : Reach.Allowed authSystem (RevokesAll d n payload) c i call r c'.world)
    (hm : Moved revoking authSystem c c' i call r g g') (hi : d ≠ i) {gd : Revoking}
    (h : gd.Detected d n payload c) : gd.Detected d n payload c' := by
  rcases h with ⟨row, e, hg, hrevoked, hlast, hfound⟩ | ⟨hne, hcuts⟩
  · exact .inl ⟨row, e, hg, hrevoked, (hm.last_other hi).trans hlast, hfound⟩
  · exact .inr ⟨hne, hcuts.other (hP.mono fun _ _ h => h.1) hm⟩

theorem Revoking.Detected.start (ts : List Task) {w : World}
    (hw : w.refreshTokens = c.world.refreshTokens) {gd : Revoking} (h : gd.Detected d n payload c) :
    gd.Detected d n payload (c.start authSystem ts w) := by
  rcases h with ⟨row, e, h⟩ | ⟨hne, hcuts⟩
  · exact .inl ⟨row, e, h⟩
  · exact .inr ⟨hne, hcuts.start ts hw⟩

/-- While no login or refresh that began before the detection saves its token behind the UPDATE of
the call that detected it, its row was not expired, and its UPDATE does not reject: once that call
has ended, every live token of the account was saved by a call that began after the detection. -/
theorem reuse_revokes (h : Reachable anyStep c₁) (hlast : c₁.log.getLast? = some e)
    (hdetects : e.call.detects e.res = true)
    (ht : c₁.task? e.proc = some (.refresh payload rawToken))
    (hs : Steps authSystem (RevokesAll e.proc c₁.procs.length payload) c₁ c₂)
    (hend : c₂.next? e.proc = none) :
    ∀ t ∈ c₂.world.refreshTokens.rows, t.belongsTo payload.sub payload.type = true →
      t.live c₂.world.now = true → MintedSince c₁.procs.length c₂ t := by
  obtain ⟨h₂, g, hg, hI⟩ : Reachable anyStep c₂ ∧ ∃ g, revoking.phase c₂ e.proc = some g ∧
      g.Detected e.proc c₁.procs.length payload c₂ := by
    refine Reach.later (I := fun c => ∃ g, revoking.phase c e.proc = some g ∧
      g.Detected e.proc c₁.procs.length payload c) revoking_sound ?_ ?_ ?_ h
      (detected_of_detects h hlast hdetects ht) hs
    · rintro c t _ ⟨g, hg, hI⟩ _ _
      exact ⟨g, by rwa [Monitor.phase_start_of_lt (Monitor.lt_of_phase hg)], hI.start [t] rfl⟩
    · rintro c v w ts _ ⟨g, hg, hI⟩ _ hv
      cases hv
      exact ⟨g, by rwa [Monitor.phase_start_of_lt (Monitor.lt_of_phase hg)], hI.start [] rfl⟩
    · rintro c c' i call r g g' _ ⟨gd, hgd, hI⟩ hP hm
      by_cases hi : e.proc = i
      · subst hi
        cases hm.before.symm.trans hgd
        exact ⟨g', hm.after, hI.own hP hm⟩
      · exact ⟨gd, (hm.other _ hi).trans hgd, hI.other hP hm hi⟩
  have hfinal : ∃ r, revoking.final r g := by
    by_contra hnot
    obtain ⟨call, hwaits, -⟩ := (h₂.conforms revoking_sound).waits hg fun r hr => hnot ⟨r, hr⟩
    rw [hend] at hwaits
    cases hwaits
  obtain ⟨r, hfinal⟩ := hfinal
  intro t ht hbelongs hlive
  have hlive : t.revokedAt = none := by
    simp only [RefreshToken.live, decide_eq_true_eq] at hlive
    exact hlive.1
  rcases hI with ⟨row, _, rfl, -⟩ | ⟨hne, hcuts⟩
  · cases hfinal
  · cases g with
    | done => exact hcuts.2 t ht hbelongs hlive
    | due => cases hfinal
    | failed => exact absurd rfl hne
    | _ => cases hcuts

end

/-! ### The bureau -/

/-- The payload of the first token. -/
def firstToken : RefreshTokenPayload := ⟨"U", .student, 1⟩

/-- The student logs in (process 0) and the token is used by process 1, which has made `k` calls.
Process 2 reads the row of the same token. -/
def usesTwice (k : Nat) : List PoolLabel :=
  .spawn (.loginStudent "u@example.com" "old") :: calls 0 8 ++
    .spawn (.refresh firstToken "U#") :: calls 1 k ++ .spawn (.refresh firstToken "U#") :: calls 2 1

/-- Process 2 detects reuse with the event. -/
def Detects (e : Event World Call Resp Err) : Prop := e.proc = 2 ∧ e.call.detects e.res = true

instance (e : Event World Call Resp Err) : Decidable (Detects e) :=
  inferInstanceAs (Decidable (_ ∧ _))

set_option maxRecDepth 100000 in
/-- The first refresh has saved its token, which is revoked. The student logs in again (process
3). -/
theorem reuse_revokes_successor :
    ∃ c₁ c₂, Reach bureauSystem Initial anyStep c₁ ∧
      Steps bureauSystem (RevokesAll 2 3 firstToken) c₁ c₂ ∧
      (∃ t ∈ c₂.world.refreshTokens.rows, t.userId = some "U" ∧ t.live c₂.world.now = true) ∧
      ∀ t ∈ c₂.world.refreshTokens.rows, t.belongsTo "U" .student = true →
        t.live c₂.world.now = true → MintedSince c₁.procs.length c₂ t := by
  obtain ⟨c₁, c₂, h, hs, hn, htask, hlast, hend, hlive⟩ := exists_runs
    (Q := RevokesAll 2 3 firstToken) (usesTwice 12)
    (calls 2 3 ++ .spawn (.loginStudent "u@example.com" "old") :: calls 3 8)
    (p := fun c₁ c₂ => c₁.procs.length = 3 ∧ c₁.task? 2 = some (.refresh firstToken "U#") ∧
      c₁.log.getLast?.any (fun e => Detects e) = true ∧ c₂.next? 2 = none ∧
      ∃ t ∈ c₂.world.refreshTokens.rows, t.userId = some "U" ∧ t.live c₂.world.now = true)
    (by decide)
  obtain ⟨e, hlast, hd⟩ := (Option.any_eq_true _ _).mp hlast
  obtain ⟨hproc, hdetects⟩ : Detects e := by simpa using hd
  refine ⟨c₁, c₂, h, hs, hlive, ?_⟩
  exact @reuse_revokes firstToken Exams.plainBcrypt plainJwt plainString development c₁ c₂ e "U#" h
    hlast hdetects (by rw [hproc]; exact htask) (by rw [hproc, hn]; exact hs)
    (by rw [hproc]; exact hend)

set_option maxRecDepth 100000 in
/-- The first refresh has won the token when the second one detects reuse, and saves the next token
after all have been revoked. -/
theorem successor_survives :
    ¬∀ c₁ c₂ e payload rawToken, Reach bureauSystem Initial anyStep c₁ →
      c₁.log.getLast? = some e → e.call.detects e.res = true →
      c₁.task? e.proc = some (.refresh payload rawToken) → Steps bureauSystem anyStep c₁ c₂ →
      (∀ i < c₂.procs.length, c₂.next? i = none) →
      ∀ t ∈ c₂.world.refreshTokens.rows, t.belongsTo payload.sub payload.type = true →
        t.live c₂.world.now = true → MintedSince c₁.procs.length c₂ t := by
  intro hall
  obtain ⟨c₁, c₂, h, hs, hn, htask, hlast, hend, hold, t, ht, hbelongs, hlive⟩ := exists_runs
    (Q := anyStep) (usesTwice 5) (calls 2 3 ++ calls 1 7)
    (p := fun c₁ c₂ => c₁.procs.length = 3 ∧ c₁.task? 2 = some (.refresh firstToken "U#") ∧
      c₁.log.getLast?.any (fun e => Detects e) = true ∧
      (∀ i < c₂.procs.length, c₂.next? i = none) ∧ (∀ e ∈ c₂.log, e.proc < 3) ∧
      ∃ t ∈ c₂.world.refreshTokens.rows, t.belongsTo "U" .student = true ∧
        t.live c₂.world.now = true) (by decide)
  obtain ⟨e, hlast, hd⟩ := (Option.any_eq_true _ _).mp hlast
  obtain ⟨hproc, hdetects⟩ : Detects e := by simpa using hd
  obtain ⟨e', he', hsince, -⟩ := hall c₁ c₂ e firstToken "U#" h hlast hdetects
    (by rw [hproc]; exact htask) hs hend t ht hbelongs hlive
  have := hold e' he'
  omega

end LmsBackend.Auth
