import LmsBackend.Async.Alone
import LmsBackend.Auth.Settling

/-!
# The password that was set last

Calls that do not overlap write the password hash of an account one after the
other, and a login compares with the last of them. bcrypt itself looks at the
first 72 bytes of a password only.
-/

open Async Store

namespace LmsBackend.Auth

def utf8 (s : String) : List UInt8 := s.toList.flatMap String.utf8EncodeChar

/-- What bcrypt looks at. -/
def bcryptWindow (s : String) : List UInt8 := (utf8 s).take 72

/-- The documented behaviour of the package. -/
def ExactOnWindow [Bcrypt] : Prop := ∀ salt plain plain', Bcrypt.compare plain (Bcrypt.hash salt plain') =
  decide (bcryptWindow plain = bcryptWindow plain')

/-- A call begins when all others have ended. -/
def OneAtATime (c : Pool) : PoolLabel → Prop
  | .spawn _ => ∀ i < c.procs.length, c.next? i = none
  | _ => True

/-- The call has written a password hash. -/
def Wrote (c : Pool) (i : Nat) : Prop :=
  ∃ e ∈ c.log, e.proc = i ∧ (e.call.setsPassword e.res).isSome = true

/-- A database call of a call that has written a password hash has rejected. -/
def Broken (c : Pool) (i : Nat) : Prop :=
  Wrote c i ∧ ∃ e ∈ c.log, e.proc = i ∧ e.res.isOk = false ∧ e.call.mails = false

/-- Call `i` has set the password of the account and returned, and no later call has. -/
structure LastSet (c : Pool) (i : Nat) (id : Id) (plain : String) : Prop where
  sets : ∃ made, Sets c i id plain made
  returned : (c.reply? i).isSome = true
  last : ∀ j > i, (c.reply? j).isSome = true → ∀ plain' made, ¬Sets c j id plain' made

/-- `loginStudent` by itself ends, and with a session exactly for the password `q`. -/
def LogsInWith [Bcrypt] [Jwt] [JsString] [AuthConfig] (w : World) (email p q : String) : Prop :=
  (∃ w' r, Ends authSystem 0 none w (AuthService.loginStudent email p) w' r) ∧
    ∀ w' r, Ends authSystem 0 none w (AuthService.loginStudent email p) w' r →
      (r.isOk = true ↔ p = q)

/-! ## A call that has written the hash returns -/

section

variable [Bcrypt] [Jwt] [JsString] [AuthConfig] {c c' : Pool} {i : Nat} {call : Call}
  {r : Except Err (Resp call)} {init : World → Prop} {P : Pool → PoolLabel → Prop}

/-- What the phase of a call knows of the log. -/
structure Known (c : Pool) (i : Nat) (g : Settling) : Prop where
  unset : g = .unset → ¬Wrote c i
  wrote : g ≠ .unset → Wrote c i
  lost : g = .lost → Broken c i

omit [Bcrypt] [Jwt] [JsString] [AuthConfig] in
theorem nextOk_of_ne {g : Settling} (hg : g ≠ .unset) (a : Resp call) :
    Settling.nextOk g call a = some g := by
  cases g with
  | unset => exact absurd rfl hg
  | _ => cases call <;> rfl

omit [Bcrypt] [Jwt] [JsString] [AuthConfig] in
theorem nextOk_unset {a : Resp call} {g' : Settling} (h : Settling.nextOk .unset call a = some g') :
    g' = .unset ∧ call.setsPassword (.ok a) = none ∨
      g' = .set ∧ (call.setsPassword (.ok a)).isSome = true := by
  cases call with
  | usersSave => cases h; exact .inr ⟨rfl, rfl⟩
  | usersUpdatePassword => cases h; exact .inr ⟨rfl, rfl⟩
  | _ => cases h; exact .inl ⟨rfl, rfl⟩

theorem Known.move {g g' : Settling} (h : Known c i g)
    (hm : Moved settling authSystem c c' i call r g g') : Known c' i g' := by
  have hkept : Wrote c i → Wrote c' i := by
    rintro ⟨e, he, hproc, hsets⟩
    exact ⟨e, by rw [hm.log]; exact List.mem_append_left _ he, hproc, hsets⟩
  have hbroken : Broken c i → Broken c' i := by
    rintro ⟨hwrote, e, he, hfailed⟩
    exact ⟨hkept hwrote, e, by rw [hm.log]; exact List.mem_append_left _ he, hfailed⟩
  have hown : Wrote c' i → Wrote c i ∨ (call.setsPassword r).isSome = true := by
    rintro ⟨e, he, hproc, hsets⟩
    rw [hm.log, List.mem_append, List.mem_singleton] at he
    rcases he with he | rfl
    · exact .inl ⟨e, he, hproc, hsets⟩
    · exact .inr hsets
  have hlast : (⟨i, call, r, c.world, c'.world⟩ : Event World Call Resp Err) ∈ c'.log := by
    rw [hm.log]
    exact List.mem_append_right _ (List.mem_singleton_self _)
  have hnext := hm.next
  cases r with
  | error e =>
    obtain rfl : g.reject call = g' := Option.some.inj hnext
    have hnone : call.setsPassword (.error e) = none := by
      cases call <;> rfl
    cases g with
    | unset =>
      refine ⟨fun _ hwrote => ?_, fun h => absurd rfl h, nofun⟩
      rcases hown hwrote with hwrote | hsets
      · exact h.unset rfl hwrote
      · rw [hnone] at hsets
        cases hsets
    | set =>
      have hwrote := hkept (h.wrote nofun)
      by_cases hmails : call.mails = true
      · rw [show Settling.set.reject call = .set from if_pos hmails]
        exact ⟨nofun, fun _ => hwrote, nofun⟩
      · rw [show Settling.set.reject call = .lost from if_neg hmails]
        exact ⟨nofun, fun _ => hwrote, fun _ => ⟨hwrote, _, hlast, rfl, rfl, by simpa using hmails⟩⟩
    | lost => exact ⟨nofun, fun _ => hkept (h.wrote nofun), fun _ => hbroken (h.lost rfl)⟩
  | ok a =>
    have hnext : Settling.nextOk g call a = some g' := hnext
    cases g with
    | unset =>
      rcases nextOk_unset hnext with ⟨rfl, hnone⟩ | ⟨rfl, hsets⟩
      · refine ⟨fun _ hwrote => ?_, fun h => absurd rfl h, nofun⟩
        rcases hown hwrote with hwrote | hsets
        · exact h.unset rfl hwrote
        · rw [hnone] at hsets
          cases hsets
      · exact ⟨nofun, fun _ => ⟨_, hlast, rfl, hsets⟩, nofun⟩
    | set =>
      rw [nextOk_of_ne (by decide)] at hnext
      cases hnext
      exact ⟨nofun, fun _ => hkept (h.wrote nofun), nofun⟩
    | lost =>
      rw [nextOk_of_ne (by decide)] at hnext
      cases hnext
      exact ⟨nofun, fun _ => hkept (h.wrote nofun), fun _ => hbroken (h.lost rfl)⟩

omit [Bcrypt] [Jwt] [JsString] [AuthConfig] in
/-- The phase knows nothing of other calls. -/
theorem Known.of_log {g : Settling} (h : Known c i g)
    (hlog : ∀ e, e.proc = i → (e ∈ c'.log ↔ e ∈ c.log)) : Known c' i g := by
  have hwrote : Wrote c' i ↔ Wrote c i := by
    refine exists_congr fun e => ?_
    constructor <;> rintro ⟨he, hproc, hsets⟩
    · exact ⟨(hlog e hproc).mp he, hproc, hsets⟩
    · exact ⟨(hlog e hproc).mpr he, hproc, hsets⟩
  refine ⟨fun hg => hwrote.not.mpr (h.unset hg), fun hg => hwrote.mpr (h.wrote hg), fun hg => ?_⟩
  obtain ⟨hw, e, he, hproc, hfailed⟩ := h.lost hg
  exact ⟨hwrote.mpr hw, e, (hlog e hproc).mpr he, hproc, hfailed⟩

theorem known (hr : Reach authSystem init P c) :
    ∀ i g, settling.phase c i = some g → Known c i g := by
  refine Reach.invariant settling_sound
    (I := fun c => ∀ i g, settling.phase c i = some g → Known c i g) ?_ ?_ ?_ ?_ hr
  · intro w _ i g hg
    cases hg
  · intro c t hr hI _ _ i g hg
    have hlog := hr.logOk settling_sound
    rcases Nat.lt_or_ge i c.procs.length with hi | hi
    · rw [Monitor.phase_start_of_lt hi] at hg
      exact (hI i g hg).of_log fun e _ => .rfl
    · obtain ⟨_, _, rfl, -⟩ := Monitor.phase_start_task hlog hi hg
      refine ⟨?_, fun h => absurd rfl h, nofun⟩
      rintro - ⟨e, he, hproc, -⟩
      have := hlog e he
      omega
  · intro c v w ts hr hI _ hv i g hg
    have hv : some (c.world.tick v, ([] : List Task)) = some (w, ts) := hv
    cases hv
    rcases Monitor.phase_start_cases (hr.logOk settling_sound) hg with hg | ⟨-, t, ht, -⟩
    · exact (hI i g hg).of_log fun e _ => .rfl
    · cases ht
  · intro c c' i call r g g' hr hI _ hm j gj hj
    rcases hm.phase_cases hj with ⟨rfl, rfl⟩ | ⟨hne, hj⟩
    · exact (hI j g hm.before).move hm
    · refine (hI j gj hj).of_log fun e hproc => ?_
      rw [hm.log, List.mem_append, List.mem_singleton, or_iff_left]
      rintro rfl
      exact hne hproc.symm

/-- A call that has written a password hash and ended has returned, unless it broke. -/
theorem returned_of_wrote (hr : Reach authSystem init P c) (hwrote : Wrote c i)
    (hend : c.next? i = none) (hbroken : ¬Broken c i) : (c.reply? i).isSome = true := by
  obtain ⟨e, he, hproc, -⟩ := id hwrote
  have hlt : i < c.procs.length := hproc ▸ hr.logOk settling_sound e he
  obtain ⟨g, hg, hfinal⟩ := (hr.conforms settling_sound).final hlt hend
  have hknown := known hr i g hg
  obtain rfl : g = .set := by
    cases g with
    | unset => exact absurd hwrote (hknown.unset rfl)
    | set => rfl
    | lost => exact absurd (hknown.lost rfl) hbroken
  rcases hfinal with ⟨a, ha, -⟩ | ⟨e, -, hfinal⟩
  · rw [ha]
    rfl
  · exact absurd (hfinal rfl) (by simp [Except.isOk, Except.toBool])

/-! ## The last write -/

/-- Only the last call is running, and the log has the calls one after the other. -/
structure InOrder (c : Pool) : Prop where
  running : ∀ i call, c.next? i = some call → i + 1 = c.procs.length
  log : c.log.Pairwise (·.proc ≤ ·.proc)

omit [Bcrypt] [Jwt] [JsString] [AuthConfig] in
theorem next?_lt {call : Call} (h : c.next? i = some call) : i < c.procs.length := by
  obtain ⟨p, hp, -⟩ := Option.bind_eq_some_iff.mp h
  exact (List.getElem?_eq_some_iff.mp hp).1

theorem inOrder (hr : Reach authSystem init OneAtATime c) : InOrder c := by
  refine errand_invariant (I := InOrder) ?_ ?_ ?_ ?_ hr
  · intro w _
    exact ⟨fun i call h => (Nat.not_lt_zero _ (next?_lt h)).elim, .nil⟩
  · intro c t hr hI hP
    refine ⟨fun i call h => ?_, hI.log⟩
    have hlt := next?_lt h
    have hlength : (begun c t).procs.length = c.procs.length + 1 := by
      simp [Config.start]
    by_contra hne
    have hi : i < c.procs.length := by omega
    rw [Config.next?, c.start_procs_of_lt authSystem hi] at h
    have hnone : c.procs[i]?.bind (·.prog.next?) = none := hP i hi
    rw [hnone] at h
    cases h
  · intro c ms hr hI
    refine ⟨fun i call h => ?_, hI.log⟩
    have hprocs : (waited c ms).procs = c.procs := by
      simp [Config.start]
    rw [Config.next?, hprocs] at h
    rw [hprocs]
    exact hI.running i call h
  · intro c c' i call r g g' hr hI _ hm
    have hi := hI.running i call hm.waits
    constructor
    · intro j call' h
      rw [hm.length]
      by_cases hij : j = i
      · rw [hij]
        exact hi
      · rw [hm.next_other hij] at h
        exact hI.running j call' h
    · rw [hm.log, List.pairwise_append]
      refine ⟨hI.log, List.pairwise_singleton _ _, ?_⟩
      intro e he e' he'
      obtain rfl := List.mem_singleton.mp he'
      have := hr.logOk errand_sound e he
      change e.proc ≤ i
      omega

omit [Bcrypt] [Jwt] [JsString] [AuthConfig] in
/-- The call and the hash that were written for the account last. -/
def lastWrite (c : Pool) (id : Id) : Option (Nat × String) :=
  (c.log.filterMap fun e => ((e.call.setsPassword e.res).filter (·.1 = id)).map fun set =>
    (e.proc, set.2)).getLast?

theorem lastWrite_move {g g' : Errand} (hm : Moved errand authSystem c c' i call r g g') (id : Id) :
    lastWrite c' id =
      (((call.setsPassword r).filter (·.1 = id)).map fun set => (i, set.2)).or (lastWrite c id) := by
  rw [lastWrite, lastWrite, hm.log, List.filterMap_append, List.getLast?_append]
  congr 1
  cases h : ((call.setsPassword r).filter (·.1 = id)).map fun set => (i, set.2) with
  | none => simp [h]
  | some set => simp [h]

omit [Bcrypt] [Jwt] [JsString] [AuthConfig] in
/-- Every write is the last one, or comes before it. -/
theorem lastWrite_of_sets (ho : InOrder c) {id : Id} {plain made : String}
    (h : Sets c i id plain made) : ∃ j made', lastWrite c id = some (j, made') ∧ i ≤ j := by
  obtain ⟨e₁, e₂, hpair, -, hsets⟩ := h
  have hown : e₂ ∈ c.log.filter (·.proc = i) := hpair.subset (by simp)
  obtain ⟨hmem, hproc⟩ := List.mem_filter.mp hown
  obtain rfl : e₂.proc = i := of_decide_eq_true hproc
  unfold lastWrite
  generalize hwrites : (c.log.filterMap fun e => ((e.call.setsPassword e.res).filter (·.1 = id)).map
    fun set => (e.proc, set.2)) = writes
  have hin : (e₂.proc, made) ∈ writes := by
    rw [← hwrites]
    exact List.mem_filterMap.mpr ⟨e₂, hmem, by simp [hsets, Option.filter]⟩
  have hsorted : writes.Pairwise (·.1 ≤ ·.1) := by
    rw [← hwrites, List.pairwise_filterMap]
    refine ho.log.imp fun {e e'} hle => ?_
    intro x hx x' hx'
    obtain ⟨_, -, rfl⟩ := Option.map_eq_some_iff.mp hx
    obtain ⟨_, -, rfl⟩ := Option.map_eq_some_iff.mp hx'
    exact hle
  rcases writes.eq_nil_or_concat with rfl | ⟨before, ⟨j, made'⟩, rfl⟩
  · cases hin
  · rw [List.concat_eq_append] at hin hsorted ⊢
    refine ⟨j, made', List.getLast?_concat .., ?_⟩
    rcases List.mem_append.mp hin with hin | hin
    · exact (List.pairwise_append.mp hsorted).2.2 _ hin _ (List.mem_singleton_self _)
    · cases List.mem_singleton.mp hin
      exact Nat.le_refl _

/-- Afterwards the row of the account has the hash. -/
theorem hash_of_setsPassword {w w' : World} (h : Answered authSystem i call w r w') {id : Id}
    {made : String} (hsets : call.setsPassword r = some (id, made)) :
    ∀ u ∈ w'.users.rows, u.id = id → u.passwordHash = made := by
  intro u hu hid
  cases call with
  | usersSave row =>
    cases r with
    | error e => cases hsets
    | ok user =>
      cases hsets
      obtain ⟨x, hx⟩ := exec_of_answered h
      simp only [exec] at hx
      split at hx
      · cases hx
      · split at hx <;> cases hx
        rcases Table.mem_put.mp hu with rfl | ⟨-, hne⟩
        · rfl
        · exact absurd hid hne
  | usersUpdatePassword =>
    cases r with
    | error e => cases hsets
    | ok _ =>
      cases hsets
      obtain ⟨x, hx⟩ := exec_of_answered h
      cases hx
      have hget := Table.mem_rows_iff.mp hu
      rw [Table.get_update w.users id (fun u => { u with passwordHash := made }) fun _ => rfl,
        if_pos (show id = Keyed.key u from hid.symm)] at hget
      obtain ⟨u₀, -, rfl⟩ := Option.map_eq_some_iff.mp hget
      rfl
  | _ => cases hsets

/-- The hash in the row of a user is the one that was written last, by a call that had made it. -/
theorem hash_of_lastWrite (hr : Reach authSystem init P c) :
    ∀ u ∈ c.world.users.rows, ∀ i made, lastWrite c u.id = some (i, made) →
      u.passwordHash = made ∧ ∃ plain, Sets c i u.id plain made := by
  refine errand_invariant (I := fun c => ∀ u ∈ c.world.users.rows, ∀ i made,
    lastWrite c u.id = some (i, made) → u.passwordHash = made ∧ ∃ plain, Sets c i u.id plain made)
    ?_ ?_ ?_ ?_ hr
  · intro w _ u _ i made h
    cases h
  · intro c t hr hI _
    exact hI
  · intro c ms hr hI
    exact hI
  · intro c c' i call r g g' hr hI _ hm u hu j made hlast
    rw [lastWrite_move hm, Option.or_eq_some_iff] at hlast
    rcases hlast with hlast | ⟨hnone, hlast⟩
    · obtain ⟨⟨id, made'⟩, hsets, heq⟩ := Option.map_eq_some_iff.mp hlast
      obtain ⟨hsets, hid⟩ := Option.filter_eq_some_iff.mp hsets
      obtain rfl : id = u.id := of_decide_eq_true hid
      cases heq
      exact ⟨hash_of_setsPassword hm.answers hsets u hu rfl, (setByTask hr).sets_own hm hsets⟩
    · rcases (answered_users hm.answers).passwordHash hu with ⟨u₀, hu₀, hid, hhash⟩ | hsets
      · rw [← hid] at hlast
        obtain ⟨hmade, plain, h⟩ := hI u₀ hu₀ j made hlast
        rw [← hhash, ← hid]
        exact ⟨hmade, plain, h.mono hm⟩
      · rw [hsets] at hnone
        simp [Option.filter] at hnone

theorem log_answered (hr : Reach authSystem init P c) :
    ∀ e ∈ c.log, Answered authSystem e.proc e.call e.before e.res e.after := by
  refine errand_invariant (I := fun c => ∀ e ∈ c.log,
    Answered authSystem e.proc e.call e.before e.res e.after) ?_ ?_ ?_ ?_ hr
  · intro w _ e he
    cases he
  · intro c t hr hI _
    exact hI
  · intro c ms hr hI
    exact hI
  · intro c c' i call r g g' hr hI _ hm e he
    rw [hm.log, List.mem_append, List.mem_singleton] at he
    rcases he with he | rfl
    · exact hI e he
    · exact hm.answers

/-- The hash of the user is the one of the password that was set last. -/
theorem hash_of_lastSet (hr : Reach authSystem init OneAtATime c)
    (hended : ∀ i < c.procs.length, c.next? i = none) {u : User} (hu : u ∈ c.world.users.rows)
    {plain : String} (hlast : LastSet c i u.id plain)
    (hbroken : ∀ j > i, ∀ plain made, Sets c j u.id plain made → ¬Broken c j) :
    ∃ salt, u.passwordHash = Bcrypt.hash salt plain := by
  obtain ⟨made, hsets⟩ := hlast.sets
  obtain ⟨j, made', hwrite, hle⟩ := lastWrite_of_sets (inOrder hr) hsets
  obtain ⟨rfl, plain', hsets'⟩ := hash_of_lastWrite hr u hu j made' hwrite
  -- The call that wrote last has returned, so none is later than the one that was given.
  obtain ⟨e₁, e₂, hpair, hhashes, hwrites⟩ := id hsets'
  have hown : ∀ e ∈ [e₁, e₂], e ∈ c.log ∧ e.proc = j := by
    intro e he
    obtain ⟨hmem, hproc⟩ := List.mem_filter.mp (hpair.subset he)
    exact ⟨hmem, of_decide_eq_true hproc⟩
  obtain ⟨hmem, hproc⟩ := hown e₂ (by simp)
  obtain rfl : j = i := by
    by_contra hne
    have hlater : i < j := by omega
    have hreturned := returned_of_wrote hr ⟨e₂, hmem, hproc, by rw [hwrites]; rfl⟩
      (hended j (hproc ▸ hr.logOk errand_sound e₂ hmem)) (hbroken j hlater plain' _ hsets')
    exact hlast.last j hlater hreturned plain' _ hsets'
  -- A call sets no other password than that of its task.
  obtain ⟨t, ht, hplain⟩ := (setByTask hr).sets j _ plain made hsets
  obtain ⟨t', ht', hplain'⟩ := (setByTask hr).sets j _ plain' _ hsets'
  cases ht.symm.trans ht'
  cases hplain.symm.trans hplain'
  obtain ⟨hmem₁, -⟩ := hown e₁ (by simp)
  have hanswered := log_answered hr e₁ hmem₁
  obtain ⟨proc, call, res, before, after⟩ := e₁
  cases call with
  | bcryptHash plain =>
    cases res with
    | error e => cases hhashes
    | ok made =>
      cases hhashes
      obtain ⟨salt, hsalt⟩ := says_of_answered hanswered
      exact ⟨salt, hsalt⟩
  | _ => cases hhashes

/-! ## The login -/

/-- An account that is there gets a refresh token. -/
theorem issueRefreshToken_wlp {f : Option (Fault World Call)} (hf : f ≠ none) {w : World}
    {subjectId : Id} {type : AccountType}
    (huser : type = .student → (w.users.get subjectId).isSome = true)
    (hadmin : type = .admin → (w.admins.get subjectId).isSome = true) :
    wlp authSystem i f (AuthService.issueRefreshToken subjectId type) w fun _ r _ =>
      ∃ token, r = .ok token := by
  have hfault : ∀ {p : Prop}, f = none → p := fun h => absurd h hf
  have howner (expiresAt : Time) : w.hasOwner
      { id := 0, ownerType := if type = .admin then .admin else .user,
        userId := if type = .student then some subjectId else none,
        adminId := if type = .admin then some subjectId else none,
        tokenHash := "pending", expiresAt := expiresAt, revokedAt := none } = true := by
    cases type with
    | student => simp [World.hasOwner, huser]
    | admin => simp [World.hasOwner, hadmin]
  simp only [AuthService.issueRefreshToken, await, Prog.bind_eq, Prog.pure_eq, wlp_bind, wlp_await,
    wlp_ret]
  refine ⟨?_, hfault⟩
  rintro x _ _ ⟨⟩
  refine ⟨?_, hfault⟩
  intro x w' r hx
  cases (if_pos (howner _)).symm.trans hx
  refine ⟨?_, hfault⟩
  rintro x _ _ ⟨⟩
  refine ⟨?_, hfault⟩
  rintro x _ _ ⟨⟩
  refine ⟨?_, hfault⟩
  rintro x _ _ ⟨⟩
  exact ⟨_, rfl⟩

theorem issueStudentSession_wlp {f : Option (Fault World Call)} (hf : f ≠ none) {w : World} (user : User)
    (huser : (w.users.get user.id).isSome = true) :
    wlp authSystem i f (AuthService.issueStudentSession user) w fun _ r _ => r.isOk = true := by
  simp only [AuthService.issueStudentSession, AuthService.signAccess, await, Prog.bind_eq,
    Prog.pure_eq, wlp_bind, wlp_await, wlp_ret]
  refine ⟨?_, fun hnone => absurd hnone hf⟩
  rintro x _ _ ⟨⟩
  refine wlp_mono (issueRefreshToken_wlp hf (fun _ => huser) nofun) ?_
  rintro f' r w' ⟨token, rfl⟩
  rfl

/-- The login ends with a session exactly when bcrypt says that the password is right. -/
theorem loginStudent_wlp {f : Option (Fault World Call)} (hf : f ≠ none) {w : World} {email p : String}
    {u : User} (hfind : w.users.rows.find? (·.email = normalise email) = some u)
    (hactive : u.active = true) (hverified : u.emailVerified = true) :
    wlp authSystem i f (AuthService.loginStudent email p) w fun _ r _ =>
      (r.isOk = true ↔ Bcrypt.compare p u.passwordHash = true) := by
  have hfault : ∀ {p : Prop}, f = none → p := fun h => absurd h hf
  have huser : (w.users.get u.id).isSome = true := by
    rw [show w.users.get u.id = some u from Table.mem_rows_iff.mp (List.mem_of_find?_eq_some hfind)]
    rfl
  simp only [AuthService.loginStudent, await, Prog.bind_eq, wlp_bind, wlp_await]
  refine ⟨?_, hfault⟩
  rintro x _ _ ⟨⟩
  simp only [hfind, Option.filter, hactive, if_true, wlp_bind, wlp_await]
  refine ⟨?_, hfault⟩
  rintro x _ _ ⟨⟩
  cases hok : Bcrypt.compare p u.passwordHash with
  | false => exact iff_of_false Bool.false_ne_true Bool.false_ne_true
  | true =>
    simp only [Bool.not_true, Bool.false_eq_true, if_false, hverified]
    exact wlp_mono (issueStudentSession_wlp hf u huser) fun _ _ _ h => iff_of_true h trivial

omit [Jwt] [JsString] [AuthConfig] in
/-- Every call can be answered. -/
theorem exec_answers (call : Call) (w : World) : ∃ x w' r, exec i call x w = some (w', r) := by
  cases call with
  | usersSave row =>
    obtain ⟨x, hx⟩ := w.users.exists_new
    refine ⟨x, ?_⟩
    simp only [exec, hx]
    split
    · contradiction
    · split <;> exact ⟨_, _, rfl⟩
  | _ =>
    refine ⟨"", ?_⟩
    simp only [exec]
    repeat' split
    all_goals exact ⟨_, _, rfl⟩

omit [Bcrypt] [Jwt] [JsString] [AuthConfig] in
theorem find_of_email {w : World} (hdistinct : DistinctEmails w) {u : User} (hu : u ∈ w.users.rows)
    {email : String} (hemail : u.email = email) : w.users.rows.find? (·.email = email) = some u := by
  cases h : w.users.rows.find? (·.email = email) with
  | none =>
    have := List.find?_eq_none.mp h u hu
    simp [hemail] at this
  | some u' =>
    have hemail' : u'.email = email := by simpa using List.find?_some h
    have hid := hdistinct.users u' (List.mem_of_find?_eq_some h) u hu (hemail'.trans hemail.symm)
    have hget := Table.mem_rows_iff.mp (List.mem_of_find?_eq_some h)
    rw [show Keyed.key u' = Keyed.key u from hid, Table.mem_rows_iff.mp hu] at hget
    exact hget.symm

/-- Login, for the account of the email: it asks bcrypt. -/
theorem logsInWith_iff {w : World} (hdistinct : DistinctEmails w) {u : User} (hu : u ∈ w.users.rows)
    (hactive : u.active = true) (hverified : u.emailVerified = true) {email p q : String}
    (hemail : normalise email = u.email) :
    LogsInWith w email p q ↔ (Bcrypt.compare p u.passwordHash = true ↔ p = q) := by
  have hfind := find_of_email hdistinct hu hemail.symm
  have hresult : ∀ w' r, Ends authSystem 0 none w (AuthService.loginStudent email p) w' r →
      (r.isOk = true ↔ Bcrypt.compare p u.passwordHash = true) := fun w' r h =>
    h.wlp_none (loginStudent_wlp (f := some ⟨w, .now⟩) nofun hfind hactive hverified)
  obtain ⟨w', r, hends⟩ := exists_ends (S := authSystem) (exec_answers (i := 0))
    (AuthService.loginStudent email p) w
  constructor
  · intro h
    rw [← hresult w' r hends]
    exact h.2 w' r hends
  · intro h
    exact ⟨⟨w', r, hends⟩, fun w' r hends => (hresult w' r hends).trans h⟩

theorem distinctEmails (hinit : ∀ w, init w → DistinctEmails w) (hr : Reach authSystem init P c) :
    DistinctEmails c.world := by
  refine errand_invariant (I := fun c => DistinctEmails c.world) ?_ ?_ ?_ ?_ hr
  · exact hinit
  · intro c t hr hI _
    exact hI
  · intro c ms hr hI
    exact ⟨hI.users, hI.admins⟩
  · intro c c' i call r g g' hr hI _ hm
    exact hI.step hm.answers

/-- After calls one after the other, of which none has broken since, the login of an active and
verified student asks for the password that was set last exactly when bcrypt can tell the two
apart. -/
theorem last_password_checked (hexact : ExactOnWindow) (hr : Reach authSystem DistinctEmails OneAtATime c)
    (hended : ∀ i < c.procs.length, c.next? i = none) {u : User} (hu : u ∈ c.world.users.rows)
    (hactive : u.active = true) (hverified : u.emailVerified = true) {q : String}
    (hlast : LastSet c i u.id q)
    (hbroken : ∀ j > i, ∀ plain made, Sets c j u.id plain made → ¬Broken c j) {email : String}
    (hemail : normalise email = u.email) (p : String) :
    LogsInWith c.world email p q ↔ p = q ∨ bcryptWindow p ≠ bcryptWindow q := by
  obtain ⟨salt, hsalt⟩ := hash_of_lastSet hr hended hu hlast hbroken
  rw [logsInWith_iff (distinctEmails (fun _ h => h) hr) hu hactive hverified hemail, hsalt, hexact,
    decide_eq_true_eq]
  constructor
  · intro h
    by_cases hwindow : bcryptWindow p = bcryptWindow q
    · exact .inl (h.mp hwindow)
    · exact .inr hwindow
  · rintro (rfl | hwindow)
    · exact iff_of_true rfl rfl
    · exact iff_of_false hwindow fun h => hwindow (congrArg bcryptWindow h)

end

/-! ### A long password -/

/-- Stands in for the package in runs. -/
@[reducible] def windowBcrypt : Bcrypt where
  hash _ plain := String.ofList ((bcryptWindow plain).map fun b => Char.ofNat b.toNat)
  compare plain hash := hash = String.ofList ((bcryptWindow plain).map fun b => Char.ofNat b.toNat)

theorem windowBcrypt_exact : @ExactOnWindow windowBcrypt := by
  intro salt plain plain'
  have hchar : ∀ n < 256, (Char.ofNat n).toNat = n := by
    intro n hn
    have hvalid : n.isValidChar := .inl (by omega)
    rw [Char.ofNat, dif_pos hvalid]
    rfl
  have hinj : Function.Injective fun b : UInt8 => Char.ofNat b.toNat := by
    intro b b' h
    have htoNat := congrArg Char.toNat h
    simp only [hchar _ (UInt8.toNat_lt b), hchar _ (UInt8.toNat_lt b')] at htoNat
    exact UInt8.toNat_inj.mp htoNat
  have hiff : String.ofList ((bcryptWindow plain').map fun b => Char.ofNat b.toNat) =
      String.ofList ((bcryptWindow plain).map fun b => Char.ofNat b.toNat) ↔
        bcryptWindow plain = bcryptWindow plain' := by
    rw [String.ofList_inj, (List.map_injective_iff.mpr hinj).eq_iff, eq_comm]
  exact decide_eq_decide.mpr hiff

abbrev windowSystem : System World Call Resp Err Reply Task Choice Tick :=
  @authSystem windowBcrypt plainJwt plainString development

/-- One call at a time, with a password that its DTO accepts, and no call of the database rejects. -/
def Smoothly (c : Pool) : PoolLabel → Prop
  | .spawn t => (∀ i < c.procs.length, c.next? i = none) ∧ ∀ q ∈ t.newPassword?, Policy (.string q)
  | .fail _ => False
  | _ => True

instance : ∀ c l, Decidable (Smoothly c l)
  | _, .spawn _ => inferInstanceAs (Decidable (_ ∧ _))
  | _, .fail _ => .isFalse id
  | _, .run _ _ | _, .env _ => .isTrue trivial

/-- 74 characters, of which the last one is given. -/
def longPassword (last : Char) : String :=
  String.ofList ("Aa1!".toList ++ List.replicate 69 'x' ++ [last])

/-- The student changes their password. -/
def changes (newPassword : String) : List PoolLabel :=
  .spawn (.changePassword "U" "old" newPassword) :: calls 0 6

/-- The change has ended, and a login with the password would find this hash to match. -/
def Changed (newPassword password : String) (c : Pool) : Prop :=
  c.procs.length = 1 ∧ c.next? 0 = none ∧ (c.reply? 0).isSome = true ∧
    (c.log.filter (·.proc = 0))[2]?.any (fun e =>
      e.call.hashes e.res = some (newPassword, windowBcrypt.hash "" newPassword)) = true ∧
    (c.log.filter (·.proc = 0))[3]?.any (fun e =>
      e.call.setsPassword e.res = some ("U", windowBcrypt.hash "" newPassword)) = true ∧
    ∃ u ∈ c.world.users.rows, u.id = "U" ∧ u.email = "u@example.com" ∧ u.active = true ∧
      u.emailVerified = true ∧ windowBcrypt.compare password u.passwordHash = true

instance (newPassword password : String) (c : Pool) : Decidable (Changed newPassword password c) :=
  inferInstanceAs (Decidable (_ ∧ _))

theorem exists_changed (newPassword password : String)
    (h : (runIf windowSystem Smoothly (changes newPassword) (.initial bureau)).any
      (fun c => Changed newPassword password c) = true) :
    ∃ c u, Reach windowSystem DistinctEmails Smoothly c ∧ (∀ i < c.procs.length, c.next? i = none) ∧
      u ∈ c.world.users.rows ∧ u.active = true ∧ u.emailVerified = true ∧ u.email = "u@example.com" ∧
      LastSet c 0 u.id newPassword ∧ c.procs.length = 1 ∧
      windowBcrypt.compare password u.passwordHash = true := by
  obtain ⟨c, hc, hp⟩ := (Option.any_eq_true _ _).mp h
  obtain ⟨hlength, hend, hreply, hhashes, hsets, u, hu, hid, hemail, hactive, hverified, hcompare⟩ :=
    of_decide_eq_true hp
  obtain ⟨e₁, he₁, hhashes⟩ := (Option.any_eq_true _ _).mp hhashes
  obtain ⟨e₂, he₂, hsets⟩ := (Option.any_eq_true _ _).mp hsets
  refine ⟨c, u, runIf_reach (.init bureau_opened.emails) hc, ?_, hu, hactive, hverified, hemail, ?_,
    hlength, hcompare⟩
  · intro i hi
    obtain rfl : i = 0 := by omega
    exact hend
  · rw [hid]
    refine ⟨⟨_, e₁, e₂, infix_pair he₁ he₂, of_decide_eq_true hhashes, of_decide_eq_true hsets⟩, hreply, ?_⟩
    intro j hj hreply'
    have hnone : c.reply? j = none := by
      rw [Config.reply?, Config.prog?, List.getElem?_eq_none (by omega)]
      rfl
    rw [hnone] at hreply'
    cases hreply'

set_option maxRecDepth 100000 in
/-- The new password is accepted, and the old one is not. -/
theorem last_password_checked_change :
    ∃ c, Reach windowSystem DistinctEmails OneAtATime c ∧ (∃ u, LastSet c 0 u "New1!pass") ∧
      @LogsInWith windowBcrypt plainJwt plainString development c.world "u@example.com" "New1!pass"
        "New1!pass" ∧
      @LogsInWith windowBcrypt plainJwt plainString development c.world "u@example.com" "old"
        "New1!pass" := by
  obtain ⟨c, u, hr, hended, hu, hactive, hverified, hemail, hlast, hlength, -⟩ :=
    exists_changed "New1!pass" "New1!pass" (by decide)
  have hr : Reach windowSystem DistinctEmails OneAtATime c := by
    refine hr.mono ?_
    intro c l h
    cases l with
    | spawn t => exact h.1
    | _ => trivial
  have hchecked := fun p => (@last_password_checked windowBcrypt plainJwt plainString development c 0
    windowBcrypt_exact hr hended u hu hactive hverified "New1!pass" hlast (by
      rintro j hj plain made ⟨e₁, e₂, hpair, -⟩
      obtain ⟨hmem, hproc⟩ := List.mem_filter.mp (hpair.subset (List.mem_cons_self ..))
      have := hr.logOk (@settling_sound windowBcrypt plainJwt plainString development) e₁ hmem
      have : e₁.proc = j := of_decide_eq_true hproc
      omega) "u@example.com" hemail.symm p).mpr
  exact ⟨c, hr, ⟨u.id, hlast⟩, hchecked _ (.inl rfl), hchecked _ (.inr (by decide))⟩

set_option maxRecDepth 100000 in
/-- A password that differs from the one that was set in its last character only is accepted. -/
theorem long_password_accepted :
    ¬∀ c, Reach windowSystem DistinctEmails Smoothly c → (∀ i < c.procs.length, c.next? i = none) →
      ∀ u ∈ c.world.users.rows, u.active = true → u.emailVerified = true → ∀ i q, LastSet c i u.id q →
      ∀ email, @normalise plainString email = u.email → ∀ p, (LoginDto.validatePassword (.string p)).isSome →
        @LogsInWith windowBcrypt plainJwt plainString development c.world email p q := by
  intro hall
  obtain ⟨c, u, hr, hended, hu, hactive, hverified, hemail, hlast, -, hcompare⟩ :=
    exists_changed (longPassword 'y') (longPassword 'z') (by decide +kernel)
  have hlogin := hall c hr hended u hu hactive hverified 0 _ hlast "u@example.com" hemail.symm
    (longPassword 'z') (by decide +kernel)
  let := windowBcrypt
  let := plainJwt
  let := plainString
  let := development
  have hdistinct := distinctEmails (fun _ h => h) hr
  have hsame := ((logsInWith_iff hdistinct hu hactive hverified hemail.symm).mp hlogin).mp hcompare
  revert hsame
  decide +kernel

end LmsBackend.Auth
