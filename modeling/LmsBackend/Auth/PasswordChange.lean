import LmsBackend.Auth.Revocation

/-!
# After a new password

`resetPassword` and `changePassword` write the hash and then revoke all tokens
of the student. A login that has read the old hash, or a refresh that has already
revoked its token, can save a new one behind both.
-/

open Async Store

namespace LmsBackend.Auth

/-- The event is the write of a new hash for the student. -/
def WritesHash (userId : Id) (e : Event World Call Resp Err) : Prop :=
  (∃ passwordHash, e.call = .usersUpdatePassword userId passwordHash) ∧ e.res.isOk = true

section

variable [Bcrypt] [Jwt] [JsString] [AuthConfig] {c₁ c₂ : Pool} {userId : Id}
  {e : Event World Call Resp Err}

/-- Only the UPDATE of the tokens is left after the write. -/
theorem due_of_writesHash (h : Reachable anyStep c₁) (hlast : c₁.log.getLast? = some e)
    (hw : WritesHash userId e) : revoking.phase c₁ e.proc = some (.due userId .student) := by
  have hproc : e.proc < c₁.procs.length := h.logOk revoking_sound e (List.mem_of_getLast? hlast)
  obtain ⟨g, hg, -⟩ := h.conforms revoking_sound e.proc _ (List.getElem?_eq_getElem hproc)
  obtain ⟨t, ht⟩ := Monitor.task_of_phase hg
  obtain ⟨g₀, -, hnext⟩ := Monitor.phase_last hlast ht hg (p := fun _ => True) trivial
    fun _ _ _ _ _ _ => trivial
  obtain ⟨i, call, r, before, after⟩ := e
  obtain ⟨⟨passwordHash, rfl⟩, hok⟩ := hw
  cases r with
  | error err => cases hok
  | ok a =>
    rw [hg]
    have hnext : g₀.nextOk (.usersUpdatePassword userId passwordHash) a = some g := hnext
    cases g₀ with
    | resetting => cases hnext; rfl
    | changing userId' =>
      have hnext : (if userId = userId' then some (Revoking.due userId' .student) else none) =
        some g := hnext
      split at hnext
      · rename_i heq
        rw [← hnext, heq]
      · cases hnext
    | _ => cases hnext

/-- While no login or refresh that began before the write of the hash saves its token behind the
UPDATE of the call that wrote it: once that call has succeeded, every live token of the student was
saved by a call that began after the write. -/
theorem password_change_revokes (h : Reachable anyStep c₁) (hlast : c₁.log.getLast? = some e)
    (hw : WritesHash userId e)
    (hs : Steps authSystem (SavesFirst e.proc c₁.procs.length userId .student) c₁ c₂) {r : Reply}
    (hr : c₂.reply? e.proc = some r) :
    ∀ t ∈ c₂.world.refreshTokens.rows, t.userId = some userId → t.live c₂.world.now = true →
      MintedSince c₁.procs.length c₂ t := by
  obtain ⟨h₂, g, hg, hcuts⟩ := revoking_cuts h (due_of_writesHash h hlast hw) hs
  have hfinal : revoking.final (.ok r) g := by
    obtain ⟨p, hp⟩ : ∃ p, c₂.procs[e.proc]? = some p :=
      ⟨_, List.getElem?_eq_getElem (Monitor.lt_of_phase hg)⟩
    obtain ⟨g', hg', hkeeps⟩ := h₂.conforms revoking_sound _ _ hp
    cases hg.symm.trans hg'
    simp only [Config.reply?, Config.prog?, hp, Option.map_some, Option.bind_some] at hr
    cases hprog : p.prog with
    | ret a =>
      rw [hprog] at hr hkeeps
      cases hr
      exact hkeeps
    | throw e => rw [hprog] at hr; cases hr
    | call call k => rw [hprog] at hr; cases hr
  intro t ht huser hlive
  have hlive : t.revokedAt = none := by
    simp only [RefreshToken.live, decide_eq_true_eq] at hlive
    exact hlive.1
  cases g with
  | done => exact hcuts.2 t ht (by simpa [RefreshToken.belongsTo] using huser) hlive
  | failed =>
    obtain ⟨_, ⟨⟩⟩ := hfinal
  | due => cases hfinal
  | _ => cases hcuts

end

/-! ### The bureau -/

/-- The event is the write of the hash of "new", by process 1. -/
def Writes (e : Event World Call Resp Err) : Prop :=
  e.proc = 1 ∧ e.call = .usersUpdatePassword "U" "new" ∧ e.res.isOk = true

instance (e : Event World Call Resp Err) : Decidable (Writes e) :=
  inferInstanceAs (Decidable (_ ∧ _ ∧ _))

set_option maxRecDepth 100000 in
/-- The token of the first login (process 0) is revoked, and that of the second one (process 2),
which uses the new password, is live. -/
theorem password_change_revokes_login :
    ∃ c₁ c₂, Reach bureauSystem Initial anyStep c₁ ∧
      Steps bureauSystem (SavesFirst 1 2 "U" .student) c₁ c₂ ∧
      (∃ t ∈ c₂.world.refreshTokens.rows, t.userId = some "U" ∧ t.live c₂.world.now = true) ∧
      ∀ t ∈ c₂.world.refreshTokens.rows, t.userId = some "U" → t.live c₂.world.now = true →
        MintedSince c₁.procs.length c₂ t := by
  obtain ⟨c₁, c₂, h, hs, hn, hlast, hreply, hlive⟩ := exists_runs
    (Q := SavesFirst 1 2 "U" .student)
    (.spawn (.loginStudent "u@example.com" "old") :: calls 0 8 ++
      .spawn (.changePassword "U" "old" "new") :: calls 1 4)
    (calls 1 2 ++ .spawn (.loginStudent "u@example.com" "new") :: calls 2 8)
    (p := fun c₁ c₂ => c₁.procs.length = 2 ∧ c₁.log.getLast?.any (fun e => Writes e) = true ∧
      (c₂.reply? 1).isSome = true ∧
      ∃ t ∈ c₂.world.refreshTokens.rows, t.userId = some "U" ∧ t.live c₂.world.now = true)
    (by decide)
  obtain ⟨e, hlast, hw⟩ := (Option.any_eq_true _ _).mp hlast
  obtain ⟨hproc, hcall, hok⟩ : Writes e := by simpa using hw
  obtain ⟨r, hr⟩ := Option.isSome_iff_exists.mp hreply
  refine ⟨c₁, c₂, h, hs, hlive, ?_⟩
  exact @password_change_revokes Exams.plainBcrypt plainJwt plainString development c₁ c₂ "U" e h
    hlast ⟨⟨_, hcall⟩, hok⟩ (by rw [hproc, hn]; exact hs) r (by rw [hproc]; exact hr)

set_option maxRecDepth 100000 in
/-- A login (process 0) reads the old hash, and saves its token after the change of the password
(process 1) has returned. -/
theorem old_login_survives :
    ¬∀ c₁ c₂ e userId r, Reach bureauSystem Initial anyStep c₁ → c₁.log.getLast? = some e →
      WritesHash userId e → Steps bureauSystem anyStep c₁ c₂ → c₂.reply? e.proc = some r →
      (∀ i < c₂.procs.length, c₂.next? i = none) →
      ∀ t ∈ c₂.world.refreshTokens.rows, t.userId = some userId → t.live c₂.world.now = true →
        MintedSince c₁.procs.length c₂ t := by
  intro hall
  obtain ⟨c₁, c₂, h, hs, hn, hlast, hreply, hend, hold, t, ht, huser, hlive⟩ := exists_runs
    (Q := anyStep)
    (.spawn (.loginStudent "u@example.com" "old") :: calls 0 1 ++
      .spawn (.changePassword "U" "old" "new") :: calls 1 4)
    (calls 1 2 ++ calls 0 7)
    (p := fun c₁ c₂ => c₁.procs.length = 2 ∧ c₁.log.getLast?.any (fun e => Writes e) = true ∧
      (c₂.reply? 1).isSome = true ∧ (∀ i < c₂.procs.length, c₂.next? i = none) ∧
      (∀ e ∈ c₂.log, e.proc < 2) ∧
      ∃ t ∈ c₂.world.refreshTokens.rows, t.userId = some "U" ∧ t.live c₂.world.now = true)
    (by decide)
  obtain ⟨e, hlast, hw⟩ := (Option.any_eq_true _ _).mp hlast
  obtain ⟨hproc, hcall, hok⟩ : Writes e := by simpa using hw
  obtain ⟨r, hr⟩ := Option.isSome_iff_exists.mp hreply
  obtain ⟨e', he', hsince, -⟩ := hall c₁ c₂ e "U" r h hlast ⟨⟨_, hcall⟩, hok⟩ hs
    (by rw [hproc]; exact hr) hend t ht huser hlive
  have := hold e' he'
  omega

end LmsBackend.Auth
