import LmsBackend.Auth.Moves

/-!
# Refresh JWTs that the service has signed

A refresh or a logout presents the payload of a refresh JWT. When no one can
forge one, the payload names a row of `refresh_tokens` and the owner of that row.
-/

open Async Store

namespace LmsBackend.Auth

/-- `issueRefreshToken` has inserted the row of the payload, for its account. -/
def Signed (c : Pool) (payload : RefreshTokenPayload) : Prop :=
  ∃ e ∈ c.log, ∃ row, e.call.mints e.res = some row ∧ row.id = payload.jti ∧
    row.owner = some (payload.sub, payload.type)

def Task.payload? : Task → Option RefreshTokenPayload
  | .refresh payload _ | .logout payload => some payload
  | _ => none

/-- A call presents a payload that was signed. -/
def Unforged (c : Pool) : PoolLabel → Prop
  | .spawn t => ∀ payload ∈ t.payload?, Signed c payload
  | _ => True

/-! ## The payload of a place -/

namespace Errand

/-- The payload that the call has presented. -/
def payload? : Errand → Option RefreshTokenPayload
  | refreshing payload _ | stored payload _ _ | fresh payload _ _ | matched payload _
  | exchanged payload | leaving payload => some payload
  | entitled (.refresh payload) _ _ | minted (.refresh payload) _ _ _
  | signedIn (.refresh payload) _ _ => some payload
  | _ => none

/-- The row that a refresh has read. -/
def row? : Errand → Option RefreshToken
  | stored _ _ row | fresh _ _ row | matched _ row => some row
  | _ => none

end Errand

/-! ## What a signed payload stands for -/

variable {c c' : Pool} {i : Nat} {g g' : Errand} {payload : RefreshTokenPayload}

theorem payload_of_phase [JsString] {t : Task} (ht : c.task? i = some t) (hg : errand.phase c i = some g)
    (h : g.payload? = some payload) : t.payload? = some payload := by
  have hfits := fits_of_phase ht hg
  cases g with
  | refreshing | stored | fresh | leaving =>
    cases h
    rw [show t = _ from hfits]
    rfl
  | «matched» | exchanged =>
    cases h
    obtain ⟨rawToken, rfl⟩ := hfits
    rfl
  | entitled origin | minted origin | signedIn origin =>
    cases origin with
    | login => cases h
    | refresh =>
      cases h
      obtain ⟨rawToken, rfl⟩ := hfits
      rfl
  | _ => cases h

theorem Signed.mono (hlog : ∀ e ∈ c.log, e ∈ c'.log) (h : Signed c payload) : Signed c' payload := by
  obtain ⟨e, he, h⟩ := h
  exact ⟨e, hlog e he, h⟩

section

variable [Bcrypt] [Jwt] [JsString] [AuthConfig] {init : World → Prop}
  {P : Pool → PoolLabel → Prop}

/-- Whoever presents a payload has been given it. -/
theorem signed_of_task (hr : Reach authSystem init Unforged c) {t : Task}
    (ht : c.task? i = some t) (h : t.payload? = some payload) : Signed c payload :=
  task_of_guard (Q := fun c t => ∀ payload ∈ t.payload?, Signed c payload) (fun _ _ h => h)
    (fun _ _ _ hlog h payload hp => (h payload hp).mono hlog) hr ht payload h

theorem signed_of_phase (hr : Reach authSystem init Unforged c) (hg : errand.phase c i = some g)
    (h : g.payload? = some payload) : Signed c payload := by
  obtain ⟨t, ht⟩ := Monitor.task_of_phase hg
  exact signed_of_task hr ht (payload_of_phase ht hg h)

/-- The rows of the refresh tokens in a run. -/
structure Issued (c : Pool) : Prop where
  ids : ∀ t ∈ c.world.refreshTokens.rows, t.id < c.world.refreshTokenSeq
  signed : ∀ payload, Signed c payload → ∃ t, c.world.refreshTokens.get payload.jti = some t ∧
    t.owner = some (payload.sub, payload.type)
  /-- A refresh has read the row that its payload names. -/
  read : ∀ i g payload row, errand.phase c i = some g → g.payload? = some payload →
    g.row? = some row → row.id = payload.jti

theorem Issued.read_next {call : Call} {a : Resp call} {w' : World} {row : RefreshToken}
    (hx : Answered authSystem i call c.world (.ok a) w') (hn : g.Goes call a g')
    (hread : ∀ row, g.payload? = some payload → g.row? = some row → row.id = payload.jti)
    (hpayload : g'.payload? = some payload) (hrow : g'.row? = some row) : row.id = payload.jti := by
  cases hn with
  | read =>
    have hget : some _ = c.world.refreshTokens.get _ := says_of_answered hx
    cases hpayload
    cases hrow
    exact Table.key_of_get hget.symm
  | _ => first | exact hread row hpayload hrow | cases hrow

theorem Issued.move (h : Issued c) {call : Call} {r : Except Err (Resp call)}
    (hm : Moved errand authSystem c c' i call r g g') : Issued c' where
  ids := by
    intro t ht
    rcases (answered_tokens hm.answers).origin ht with ⟨t₀, ht₀, hid, -⟩ | hmints
    · have := h.ids t₀ ht₀
      rcases answered_tokenSeq hm.answers with ⟨-, hseq⟩ | ⟨hseq, -⟩ <;> omega
    · rcases answered_tokenSeq hm.answers with ⟨hnone, -⟩ | ⟨hseq, row, -, hrow⟩
      · rw [hnone] at hmints
        cases hmints
      · cases hrow.symm.trans hmints
        rw [hseq]
        exact Nat.lt_succ_self _
  signed := by
    rintro payload ⟨e, he, row, hmints, hid, howner⟩
    rw [hm.log, List.mem_append, List.mem_singleton] at he
    rcases he with he | rfl
    · obtain ⟨t, ht, howner⟩ := h.signed payload ⟨e, he, row, hmints, hid, howner⟩
      obtain ⟨t', ht', howner', -⟩ := (answered_tokens hm.answers).kept h.ids ht
      exact ⟨t', ht', howner'.trans howner⟩
    · exact ⟨row, hid ▸ get_of_mints hm.answers hmints, howner⟩
  read := by
    intro j gj payload row hj hpayload hrow
    rcases hm.phase_cases hj with ⟨rfl, rfl⟩ | ⟨hne, hj⟩
    · rcases moved_cases hm with ⟨-, rfl, -⟩ | ⟨a, rfl, hn⟩
      · cases hrow
      · exact Issued.read_next hm.answers hn (fun row => h.read _ g payload row hm.before) hpayload hrow
    · exact h.read j gj payload row hj hpayload hrow

theorem issued (hinit : ∀ w, init w → w.refreshTokens.rows = []) (hr : Reach authSystem init P c) :
    Issued c := by
  refine errand_invariant ?_ ?_ ?_ ?_ hr
  · intro w hw
    refine ⟨?_, ?_, ?_⟩
    · simp [Config.initial, hinit w hw]
    · rintro payload ⟨e, he, -⟩
      cases he
    · intro i g payload row hg
      cases hg
  · intro c t hr hI _
    refine ⟨hI.ids, hI.signed, ?_⟩
    intro j g payload row hg hpayload hrow
    rcases begun_cases hr hg with hg | ⟨-, rfl⟩
    · exact hI.read j g payload row hg hpayload hrow
    · cases t <;> cases hrow
  · intro c ms hr hI
    refine ⟨hI.ids, hI.signed, ?_⟩
    intro j g payload row hg
    exact hI.read j g payload row (waited_phase hr hg)
  · intro c c' i call r g g' hr hI _ hm
    exact hI.move hm

end

end LmsBackend.Auth
