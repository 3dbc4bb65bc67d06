import LmsBackend.Async.History
import LmsBackend.Auth.Rotation

/-!
# Dead refresh tokens

A refresh token that is revoked or expired stays so. No refresh that begins
later returns a session for it, and once it is revoked none does that had not
revoked it itself.
-/

open Async Store

namespace LmsBackend.Auth

/-- The row that the call has revoked. -/
def Call.flips : (c : Call) → Except Err (Resp c) → Option Nat
  | .refreshTokensRevoke id _, .ok affected => if affected = 1 then some id else none
  | _, _ => none

/-- Process `i` has revoked the token `jti`. -/
def Flips (c : Pool) (jti i : Nat) : Prop :=
  ∃ e ∈ c.log, e.proc = i ∧ e.call.flips e.res = some jti

/-- The refresh has found its token live. -/
def Errand.admitted? : Errand → Option RefreshTokenPayload
  | .fresh payload _ _ | .matched payload _ => some payload
  | g => g.won?

variable {c c' : Pool} {i : Nat} {g g' : Errand} {call : Call} {r : Except Err (Resp call)}
  {payload : RefreshTokenPayload} {w w' : World}

theorem Errand.admitted_of_won (h : g.won? = some payload) : g.admitted? = some payload := by
  cases g <;> first | exact h | cases h

/-- A token keeps its owner and its times. It can only become revoked. -/
theorem TokenStep.lasts (h : TokenStep w w' call r)
    (hid : ∀ t ∈ w.refreshTokens.rows, t.id < w.refreshTokenSeq) {id : Nat} {t : RefreshToken}
    (ht : w.refreshTokens.get id = some t) :
    ∃ t', w'.refreshTokens.get id = some t' ∧ t'.owner = t.owner ∧ t'.expiresAt = t.expiresAt ∧
      (t.revokedAt ≠ none → t'.revokedAt = t.revokedAt) := by
  cases h with
  | same _ h => exact ⟨t, by rw [h]; exact ht, rfl, rfl, fun _ => rfl⟩
  | saved row h =>
    refine ⟨t, ?_, rfl, rfl, fun _ => rfl⟩
    rw [h, Table.get_put_of_ne]
    · exact ht
    · rintro rfl
      have hlt := hid t (Table.get_some_iff.mp ht).1
      have hkey : t.id = w.refreshTokenSeq := Table.key_of_get ht
      omega
  | hashed x tokenHash h =>
    rw [h, Table.get_update w.refreshTokens x (fun t => { t with tokenHash := tokenHash }) fun _ => rfl,
      ht]
    split
    · exact ⟨{ t with tokenHash := tokenHash }, rfl, rfl, rfl, fun _ => rfl⟩
    · exact ⟨t, rfl, rfl, rfl, fun _ => rfl⟩
  | revoked row revokedAt hrow hlive h =>
    by_cases hx : row.id = id
    · subst hx
      cases hrow.symm.trans ht
      refine ⟨{ t with revokedAt := some revokedAt }, ?_, rfl, rfl, fun hrev => absurd hlive hrev⟩
      rw [h]
      exact Table.get_put_of_eq _ rfl
    · refine ⟨t, ?_, rfl, rfl, fun _ => rfl⟩
      rw [h, Table.get_put_of_ne]
      · exact ht
      · exact hx
  | revokedAll subjectId type revokedAt h =>
    rw [h, Table.get_map, ht]
    refine ⟨t.revokedFor subjectId type revokedAt, rfl, ?_⟩
    unfold RefreshToken.revokedFor
    split
    · exact ⟨rfl, rfl, fun hrev => absurd (And.right ‹_›) hrev⟩
    · exact ⟨rfl, rfl, fun _ => rfl⟩

section

variable [Bcrypt] [Jwt] [JsString] [AuthConfig] {P : Pool → PoolLabel → Prop}

/-- What a refresh has read of its token is still what the table says of its end. -/
structure ReadRows (c : Pool) : Prop extends Issued c where
  expires : ∀ i g row, errand.phase c i = some g → g.row? = some row →
    ∃ t, c.world.refreshTokens.get row.id = some t ∧ t.expiresAt = row.expiresAt
  flips : ∀ i g payload, errand.phase c i = some g → g.won? = some payload → Flips c payload.jti i

omit [Bcrypt] [Jwt] [JsString] [AuthConfig] in
theorem Flips.mono {jti : Nat} (h : Flips c jti i) (hlog : ∀ e ∈ c.log, e ∈ c'.log) :
    Flips c' jti i := by
  obtain ⟨e, he, h⟩ := h
  exact ⟨e, hlog e he, h⟩

theorem ReadRows.expires_own (h : ReadRows c) (hm : Moved errand authSystem c c' i call r g g')
    {row : RefreshToken} (hrow : g'.row? = some row) :
    ∃ t, c.world.refreshTokens.get row.id = some t ∧ t.expiresAt = row.expiresAt := by
  rcases moved_cases hm with ⟨-, rfl, -⟩ | ⟨a, rfl, hn⟩
  · cases hrow
  · have hsays := says_of_answered hm.answers
    have hbefore := hm.before
    cases hn with
    | @read payload rawToken row' =>
      obtain rfl : row' = row := Option.some.inj hrow
      have hget : some row' = c.world.refreshTokens.get payload.jti := hsays
      have hid : row'.id = payload.jti := Table.key_of_get hget.symm
      exact ⟨row', hid ▸ hget.symm, rfl⟩
    | _ => first | exact h.expires i _ row hbefore hrow | cases hrow

theorem ReadRows.flips_own (h : ReadRows c) (hm : Moved errand authSystem c c' i call r g g')
    (hwon : g'.won? = some payload) : Flips c' payload.jti i := by
  rcases moved_cases hm with ⟨-, rfl, -⟩ | ⟨a, rfl, hn⟩
  · cases hwon
  · have hbefore := hm.before
    have hlog := hm.log
    have hold : g.won? = some payload → Flips c' payload.jti i := fun hwon =>
      (h.flips i g payload hbefore hwon).mono (log_mono hm)
    cases hn with
    | @win payload' row revokedAt =>
      cases hwon
      refine ⟨⟨i, .refreshTokensRevoke row.id revokedAt, .ok (1 : Nat), c.world, c'.world⟩, ?_, rfl, ?_⟩
      · rw [hlog]
        exact List.mem_append_right _ (List.mem_singleton.mpr rfl)
      · simp [Call.flips, h.read i _ _ _ hbefore rfl rfl]
    | @mint origin => exact hold (by cases origin <;> exact hwon)
    | @sign origin => exact hold (by cases origin <;> exact hwon)
    | renew | renewAdmin => exact hold hwon
    | _ => first | exact hold hwon | cases hwon

theorem readRows (hr : Reachable P c) : ReadRows c := by
  refine errand_invariant ?_ ?_ ?_ ?_ hr
  · intro w hw
    refine ⟨⟨hw.refreshTokens, ?_, ?_⟩, ?_, ?_⟩
    · rintro payload ⟨e, he, -⟩
      cases he
    · intro i g payload row hg
      cases hg
    · intro i g row hg
      cases hg
    · intro i g payload hg
      cases hg
  · intro c t hr hI _
    refine ⟨⟨hI.ids, hI.signed, ?_⟩, ?_, ?_⟩
    · intro j g payload row hg hpayload hrow
      rcases begun_cases hr hg with hg | ⟨-, rfl⟩
      · exact hI.read j g payload row hg hpayload hrow
      · cases t <;> cases hrow
    · intro j g row hg hrow
      rcases begun_cases hr hg with hg | ⟨-, rfl⟩
      · exact hI.expires j g row hg hrow
      · cases t <;> cases hrow
    · intro j g payload hg hwon
      rcases begun_cases hr hg with hg | ⟨-, rfl⟩
      · exact hI.flips j g payload hg hwon
      · cases t <;> cases hwon
  · intro c ms hr hI
    exact ⟨⟨hI.ids, hI.signed, fun j g payload row hg => hI.read j g payload row (waited_phase hr hg)⟩,
      fun j g row hg => hI.expires j g row (waited_phase hr hg),
      fun j g payload hg => hI.flips j g payload (waited_phase hr hg)⟩
  · intro c c' i call r g g' hr hI _ hm
    refine ⟨hI.toIssued.move hm, ?_, ?_⟩
    · intro j gj row hj hrow
      have hold : ∃ t, c.world.refreshTokens.get row.id = some t ∧ t.expiresAt = row.expiresAt := by
        rcases hm.phase_cases hj with ⟨rfl, rfl⟩ | ⟨-, hj⟩
        · exact hI.expires_own hm hrow
        · exact hI.expires j gj row hj hrow
      obtain ⟨t, ht, hexpires⟩ := hold
      obtain ⟨t', ht', -, hexpires', -⟩ := (answered_tokens hm.answers).lasts hI.ids ht
      exact ⟨t', ht', hexpires'.trans hexpires⟩
    · intro j gj payload hj hwon
      rcases hm.phase_cases hj with ⟨rfl, rfl⟩ | ⟨-, hj⟩
      · exact hI.flips_own hm hwon
      · exact (hI.flips j gj payload hj hwon).mono (log_mono hm)

/-! ## Later states -/

/-- What stays true of a dead token. The first process that begins later is `n`. -/
structure Dead (c : Pool) (jti : Nat) (t : RefreshToken) (n : Nat) (c' : Pool) : Prop where
  row : ∃ t', c'.world.refreshTokens.get jti = some t' ∧ t'.owner = t.owner ∧
    t'.expiresAt = t.expiresAt ∧ (t.revokedAt ≠ none → t'.revokedAt = t.revokedAt)
  now : c.world.now ≤ c'.world.now
  won : t.revokedAt ≠ none → ∀ i g payload, errand.phase c' i = some g → g.won? = some payload →
    payload.jti = jti → Flips c jti i
  admitted : t.expiresAt < c.world.now → ∀ i g payload, n ≤ i → errand.phase c' i = some g →
    g.admitted? = some payload → payload.jti ≠ jti

variable {jti n : Nat} {t : RefreshToken} {c₀ : Pool}

theorem Dead.won_own (h : Dead c₀ jti t n c) (hrows : ReadRows c)
    (hm : Moved errand authSystem c c' i call r g g') (hrevoked : t.revokedAt ≠ none)
    (hwon : g'.won? = some payload) (hjti : payload.jti = jti) : Flips c₀ jti i := by
  rcases won_next hrows.toIssued hm hwon with hold | ⟨⟨t₁, ht₁, hlive⟩, -⟩
  · exact h.won hrevoked i g payload hm.before hold hjti
  · obtain ⟨t', ht', -, -, hrev⟩ := h.row
    rw [hjti] at ht₁
    cases ht₁.symm.trans ht'
    exact absurd (hlive ▸ hrev hrevoked).symm hrevoked

theorem Dead.admitted_own (h : Dead c₀ jti t n c) (hrows : ReadRows c)
    (hm : Moved errand authSystem c c' i call r g g') (hexpired : t.expiresAt < c₀.world.now)
    (hn : n ≤ i) (hadmitted : g'.admitted? = some payload) : payload.jti ≠ jti := by
  rcases moved_cases hm with ⟨-, rfl, -⟩ | ⟨a, rfl, hgoes⟩
  · cases hadmitted
  · have hsays := says_of_answered hm.answers
    have hbefore := hm.before
    have hold : ∀ payload, g.admitted? = some payload → payload.jti ≠ jti := fun payload =>
      h.admitted hexpired i g payload hn hbefore
    cases hgoes with
    | @valid payload' rawToken row now hfresh =>
      cases hadmitted
      rintro rfl
      obtain ⟨t₁, ht₁, hexpires⟩ := hrows.expires i _ row hbefore rfl
      obtain ⟨t', ht', -, hexpires', -⟩ := h.row
      rw [hrows.read i _ _ _ hbefore rfl rfl] at ht₁
      cases ht₁.symm.trans ht'
      have hnow : now = c.world.now := hsays
      apply hfresh
      rw [hnow, ← hexpires, hexpires']
      exact lt_of_lt_of_le hexpired h.now
    | look hseen => exact hold payload hadmitted
    | @mint origin => exact hold payload (by cases origin <;> exact hadmitted)
    | @sign origin => exact hold payload (by cases origin <;> exact hadmitted)
    | «matches» | win | renew | renewAdmin => exact hold payload hadmitted
    | _ => first | exact hold payload hadmitted | cases hadmitted

theorem Dead.move (h : Dead c₀ jti t n c) (hrows : ReadRows c)
    (hm : Moved errand authSystem c c' i call r g g') : Dead c₀ jti t n c' where
  row := by
    obtain ⟨t', ht', howner, hexpires, hrevoked⟩ := h.row
    obtain ⟨t₁, ht₁, howner₁, hexpires₁, hrevoked₁⟩ :=
      (answered_tokens hm.answers).lasts hrows.ids ht'
    refine ⟨t₁, ht₁, howner₁.trans howner, hexpires₁.trans hexpires, fun hrev => ?_⟩
    exact (hrevoked₁ (hrevoked hrev ▸ hrev)).trans (hrevoked hrev)
  now := by
    rw [(answered_rest hm.answers).1]
    exact h.now
  won := by
    intro hrev j gj payload hj hwon hjti
    rcases hm.phase_cases hj with ⟨rfl, rfl⟩ | ⟨-, hj⟩
    · exact h.won_own hrows hm hrev hwon hjti
    · exact h.won hrev j gj payload hj hwon hjti
  admitted := by
    intro hexpired j gj payload hn hj hadmitted
    rcases hm.phase_cases hj with ⟨rfl, rfl⟩ | ⟨-, hj⟩
    · exact h.admitted_own hrows hm hexpired hn hadmitted
    · exact h.admitted hexpired j gj payload hn hj hadmitted

theorem dead_later (hr : Reachable anyStep c) (hs : Steps authSystem anyStep c c')
    (ht : c.world.refreshTokens.get jti = some t) :
    Reachable anyStep c' ∧ Dead c jti t c.procs.length c' := by
  refine Reach.later errand_sound ?_ ?_ ?_ hr ?_ hs
  · intro c₁ task hr₁ h _ _
    refine ⟨h.row, h.now, fun hrev j g payload hj hwon => ?_, fun hexpired j g payload hn hj hadm => ?_⟩
    · rcases begun_cases hr₁ hj with hj | ⟨-, rfl⟩
      · exact h.won hrev j g payload hj hwon
      · cases task <;> cases hwon
    · rcases begun_cases hr₁ hj with hj | ⟨-, rfl⟩
      · exact h.admitted hexpired j g payload hn hj hadm
      · cases task <;> cases hadm
  · intro c₁ ms w ts hr₁ h _ henv
    have henv : some (c₁.world.tick ms, ([] : List Task)) = some (w, ts) := henv
    cases henv
    refine ⟨h.row, ?_, fun hrev j g payload hj => h.won hrev j g payload (waited_phase hr₁ hj),
      fun hexpired j g payload hn hj => h.admitted hexpired j g payload hn (waited_phase hr₁ hj)⟩
    exact h.now.trans (Int.le_add_of_nonneg_right (Int.natCast_nonneg ms.ms))
  · intro c₁ c₂ i call r g g' hr₁ h _ hm
    exact h.move (readRows hr₁) hm
  · refine ⟨⟨t, ht, rfl, rfl, fun _ => rfl⟩, le_rfl, ?_, ?_⟩
    · rintro - j g payload hj hwon rfl
      exact (readRows hr).flips j g payload hj hwon
    · intro _ j g payload hn hj
      have := Monitor.lt_of_phase hj
      omega

/-- A token that is dead stays dead. Only refreshes that have begun by then can still return a
session for it, and when it is revoked, only one that has revoked it. -/
theorem dead_for_good (hr : Reachable anyStep c) (hs : Steps authSystem anyStep c c')
    (ht : c.world.refreshTokens.get jti = some t) (hdead : t.live c.world.now = false) :
    (∃ t', c'.world.refreshTokens.get jti = some t' ∧ t'.owner = t.owner ∧
      t'.live c'.world.now = false) ∧
    (∀ i, Exchanges c' jti i → i < c.procs.length) ∧
    (t.revokedAt ≠ none → ∀ i, Exchanges c' jti i → Flips c jti i) := by
  obtain ⟨hr', hlater⟩ := dead_later hr hs ht
  have hdead : t.revokedAt ≠ none ∨ t.expiresAt < c.world.now := by
    rw [RefreshToken.live, decide_eq_false_iff_not, not_and_or, not_not] at hdead
    exact hdead
  have hexchanges : ∀ i, Exchanges c' jti i → ∃ g payload, errand.phase c' i = some g ∧
      g.won? = some payload ∧ payload.jti = jti := by
    rintro i ⟨payload, rawToken, login, refreshToken, htask, hjti, hreply⟩
    obtain ⟨origin, subjectId, type, hg⟩ := signedIn_of_reply hr' hreply
    obtain rfl : origin = .refresh payload := Origin.Of.of_refresh (fits_of_phase htask hg)
    exact ⟨_, payload, hg, rfl, hjti⟩
  have hflips : t.revokedAt ≠ none → ∀ i, Exchanges c' jti i → Flips c jti i := by
    intro hrevoked i hi
    obtain ⟨g, payload, hg, hwon, hjti⟩ := hexchanges i hi
    exact hlater.won hrevoked i g payload hg hwon hjti
  refine ⟨?_, ?_, hflips⟩
  · obtain ⟨t', ht', howner, hexpires, hrevoked⟩ := hlater.row
    refine ⟨t', ht', howner, ?_⟩
    rw [RefreshToken.live, decide_eq_false_iff_not, not_and_or, not_not, hexpires]
    rcases hdead with hrev | hexpired
    · exact .inl (hrevoked hrev ▸ hrev)
    · exact .inr (lt_of_lt_of_le hexpired hlater.now)
  · intro i hi
    rcases hdead with hrevoked | hexpired
    · obtain ⟨e, he, rfl, -⟩ := hflips hrevoked i hi
      exact hr.told.started e he
    · obtain ⟨g, payload, hg, hwon, hjti⟩ := hexchanges i hi
      by_contra hn
      exact hlater.admitted hexpired i g payload (Nat.le_of_not_lt hn) hg
        (Errand.admitted_of_won hwon) hjti

end

/-- A student logs in and logs out. -/
def logsOut : List PoolLabel :=
  .spawn (.loginStudent "u@example.com" "old") :: calls 0 8 ++
    .spawn (.logout ⟨"U", .student, 1⟩) :: calls 1 2

set_option maxRecDepth 100000 in
/-- After the logout the token is revoked, and a refresh with it ends in an error. -/
theorem dead_for_good_logout : ∃ c c', Reach bureauSystem Initial anyStep c ∧
    Steps bureauSystem anyStep c c' ∧ (c.reply? 1).isSome ∧ (c'.error? 2).isSome ∧
    ¬Exchanges c' 1 2 := by
  obtain ⟨c, c', hr, hs, hp⟩ := exists_runs (Q := anyStep)
    (p := fun c c' => (c.reply? 1).isSome ∧ (c'.error? 2).isSome ∧ c.procs.length = 2 ∧
      (c.world.refreshTokens.get 1).any fun t => !t.live c.world.now)
    logsOut (.spawn (.refresh ⟨"U", .student, 1⟩ "U#") :: calls 2 4) (by decide)
  obtain ⟨hreply, herror, hlength, htoken⟩ := hp
  obtain ⟨t, ht, hdead⟩ := (Option.any_eq_true _ _).mp htoken
  have hgood := (@dead_for_good c c' Exams.plainBcrypt plainJwt plainString development 1 t hr hs ht
    (by simpa using hdead)).2.1
  refine ⟨c, c', hr, hs, hreply, herror, fun hx => ?_⟩
  have := hgood 2 hx
  omega

end LmsBackend.Auth
