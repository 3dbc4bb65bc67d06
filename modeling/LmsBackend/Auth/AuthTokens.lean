import LmsBackend.Auth.Moves

/-!
# One-time tokens

Where the rows of `auth_tokens` come from: each was saved by a call that had drawn
a plain token and has its hash. A call that presents a token reads such rows.
-/

open Async Store

namespace LmsBackend.Auth

/-- What `randomBytes(32).toString('hex')` gives. -/
def Hex64 (s : String) : Prop := s.length = 64 ∧ s.toList.all ("0123456789abcdef".toList.contains ·)

instance (s : String) : Decidable (Hex64 s) := inferInstanceAs (Decidable (_ ∧ _))

/-- The hash of a plain token matches that token and nothing else. -/
def ExactOnTokens [Bcrypt] : Prop :=
  ∀ salt token, Hex64 token → ∀ plain, Bcrypt.compare plain (Bcrypt.hash salt token) = decide (plain = token)

/-- The random bytes are 32, in hexadecimal digits. -/
def HexTokens (c : Pool) : PoolLabel → Prop
  | .run i x => c.next? i = some .randomBytes → Hex64 x
  | _ => True

/-- The plain token that the call has made. -/
def Call.draws : (c : Call) → Except Err (Resp c) → Option String
  | .randomBytes, .ok plain => some plain
  | _, _ => none

/-- A call has made the plain token, and has saved the row for it. -/
def IssuedWith (c : Pool) (plain : String) (row : AuthToken) : Prop :=
  ∃ i, (∃ e ∈ c.log, e.proc = i ∧ e.call.draws e.res = some plain) ∧
    ∃ e ∈ c.log, e.proc = i ∧ e.call.issues e.res = some row

/-! ## The token of a place -/

namespace Errand

/-- The token that the call presents, and what for. -/
def presents? : Errand → Option (String × Use)
  | presenting plain use | scanning plain use _ | examining plain use _ _ | taking plain use _
  | taken plain use _ => some (plain, use)
  | _ => none

/-- The rows that the call has read and not passed over. -/
def candidates : Errand → List AuthToken
  | scanning _ _ rows => rows
  | examining _ _ row rows => row :: rows
  | taking _ _ row | taken _ _ row => [row]
  | _ => []

/-- The plain token that the call has made. -/
def plain? : Errand → Option String
  | drawn _ _ plain | hashed _ _ plain _ | mailing plain => some plain
  | _ => none

end Errand

theorem presents_of_phase [JsString] {c : Pool} {i : Nat} {t : Task} {g : Errand}
    {presented : String × Use} (ht : c.task? i = some t) (hg : errand.phase c i = some g)
    (h : g.presents? = some presented) : t.presents? = some presented := by
  have hfits := fits_of_phase ht hg
  cases g <;> first | (cases h; exact hfits) | cases h

/-! ## Genuine rows -/

/-- The row was issued with a plain token and has its hash. -/
def Genuine [Bcrypt] (c : Pool) (row : AuthToken) : Prop :=
  ∃ plain salt, Hex64 plain ∧ row.tokenHash = Bcrypt.hash salt plain ∧
    IssuedWith c plain row.asIssued

/-- The rows of the one-time tokens in a run. -/
structure AllGenuine [Bcrypt] [JsString] (c : Pool) : Prop where
  ids : ∀ t ∈ c.world.authTokens.rows, t.id < c.world.authTokenSeq
  genuine : ∀ t ∈ c.world.authTokens.rows, Genuine c t
  drawn : ∀ i g plain, errand.phase c i = some g → g.plain? = some plain →
    Hex64 plain ∧ ∃ e ∈ c.log, e.proc = i ∧ e.call.draws e.res = some plain
  hashed : ∀ i userId purpose plain tokenHash,
    errand.phase c i = some (.hashed userId purpose plain tokenHash) →
      ∃ salt, tokenHash = Bcrypt.hash salt plain
  /-- What a call has read is in the table, and only `usedAt` can differ. -/
  read : ∀ i g plain use, errand.phase c i = some g → g.presents? = some (plain, use) →
    ∀ row ∈ g.candidates, row.purpose = use.purpose ∧ row.usedAt = none ∧
      ∃ t, c.world.authTokens.get row.id = some t ∧ t.asIssued = row.asIssued

theorem IssuedWith.mono {c c' : Pool} {plain : String} {row : AuthToken} (h : IssuedWith c plain row)
    (hlog : ∀ e ∈ c.log, e ∈ c'.log) : IssuedWith c' plain row := by
  obtain ⟨i, ⟨e, he, hdraws⟩, e', he', hissues⟩ := h
  exact ⟨i, ⟨e, hlog e he, hdraws⟩, e', hlog e' he', hissues⟩

theorem mem_unusedAuthTokens {w : World} {purpose : AuthTokenPurpose} {row : AuthToken}
    (h : row ∈ w.unusedAuthTokens purpose) :
    row ∈ w.authTokens.rows ∧ row.purpose = purpose ∧ row.usedAt = none := by
  have hmem := List.mem_of_mem_take h
  rw [List.mem_insertionSort, List.mem_filter] at hmem
  exact ⟨hmem.1, of_decide_eq_true hmem.2⟩

section

variable [Bcrypt] [Jwt] [JsString] [AuthConfig] {c c' : Pool} {i : Nat} {g g' : Errand} {call : Call}
  {r : Except Err (Resp call)}

theorem hex_of_draw {plain : String} {w : World}
    (hP : Reach.Allowed authSystem HexTokens c i .randomBytes (.ok plain) w)
    (hwaits : c.next? i = some .randomBytes) : Hex64 plain := by
  cases hP with
  | run hx hguard =>
    have hx : some (c.world, Except.ok _) = some (w, Except.ok plain) := hx
    cases hx
    exact hguard hwaits
  | fail hr => cases hr

theorem AllGenuine.drawn_own (h : AllGenuine c)
    (hP : Reach.Allowed authSystem HexTokens c i call r c'.world)
    (hm : Moved errand authSystem c c' i call r g g') {plain : String} (hplain : g'.plain? = some plain) :
    Hex64 plain ∧ ∃ e ∈ c'.log, e.proc = i ∧ e.call.draws e.res = some plain := by
  rcases moved_cases hm with ⟨-, rfl, -⟩ | ⟨a, rfl, hn⟩
  · cases hplain
  · have hold : g.plain? = some plain →
        Hex64 plain ∧ ∃ e ∈ c'.log, e.proc = i ∧ e.call.draws e.res = some plain := by
      intro hplain
      obtain ⟨hhex, e, he, hdraws⟩ := h.drawn i g plain hm.before hplain
      exact ⟨hhex, e, log_mono hm e he, hdraws⟩
    cases hn with
    | draw =>
      cases hplain
      refine ⟨hex_of_draw hP hm.waits, ⟨i, .randomBytes, .ok plain, c.world, c'.world⟩, ?_, rfl, rfl⟩
      rw [hm.log]
      exact List.mem_append_right _ (List.mem_singleton_self _)
    | _ => first | exact hold hplain | cases hplain

/-- A row that a call saves has the hash of the token that the call has made. -/
theorem AllGenuine.genuine_own (h : AllGenuine c) (hm : Moved errand authSystem c c' i call r g g')
    {row : AuthToken} (hissues : call.issues r = some row) : Genuine c' row := by
  rcases moved_cases hm with ⟨-, -, e, rfl⟩ | ⟨a, rfl, hn⟩
  · cases call <;> cases hissues
  · cases hn with
    | @save plain row₀ inserted hunused =>
      obtain rfl : inserted = row := Option.some.inj hissues
      obtain ⟨hhex, e, he, hproc, hdraws⟩ := h.drawn i _ plain hm.before rfl
      obtain ⟨salt, hhash⟩ := h.hashed i _ _ _ _ hm.before
      have hinserted := inserted_of_save hm.answers
      refine ⟨plain, salt, hhex, ?_, i, ⟨e, log_mono hm e he, hproc, hdraws⟩,
        ⟨i, .authTokensSave row₀, .ok inserted, c.world, c'.world⟩, ?_, rfl, ?_⟩
      · rw [hinserted]
        exact hhash
      · rw [hm.log]
        exact List.mem_append_right _ (List.mem_singleton_self _)
      · rw [hinserted]
        simp only [Call.issues, AuthToken.asIssued, hunused]
    | stop hc => cases call <;> first | (cases hissues; done) | cases hc
    | _ => cases hissues

/-- A call reads rows of the table, and keeps to them. -/
theorem AllGenuine.read_own (h : AllGenuine c) (hm : Moved errand authSystem c c' i call r g g')
    {plain : String} {use : Use} (hpresents : g'.presents? = some (plain, use)) {row : AuthToken}
    (hrow : row ∈ g'.candidates) :
    row.purpose = use.purpose ∧ row.usedAt = none ∧
      ∃ t, c.world.authTokens.get row.id = some t ∧ t.asIssued = row.asIssued := by
  rcases moved_cases hm with ⟨-, rfl, -⟩ | ⟨a, rfl, hn⟩
  · cases hpresents
  · have hold := h.read i g plain use hm.before
    have hanswers := hm.answers
    cases hn with
    | @candidates _ _ rows =>
      have hrows : rows = c.world.unusedAuthTokens _ := says_of_answered hanswers
      cases hpresents
      rw [show (Errand.scanning plain use rows).candidates = rows from rfl, hrows] at hrow
      obtain ⟨hmem, hpurpose, hunused⟩ := mem_unusedAuthTokens hrow
      exact ⟨hpurpose, hunused, row, Table.mem_rows_iff.mp hmem, rfl⟩
    | look => exact hold hpresents row hrow
    | pass => exact hold hpresents row (List.mem_cons_of_mem _ hrow)
    | examine => exact hold hpresents row hrow
    | other => exact hold hpresents row (List.mem_cons_of_mem _ hrow)
    | found =>
      obtain rfl := List.mem_singleton.mp hrow
      exact hold hpresents row (List.mem_cons_self ..)
    | take => exact hold hpresents row hrow
    | _ => cases hpresents

theorem AllGenuine.move (h : AllGenuine c) (hP : Reach.Allowed authSystem HexTokens c i call r c'.world)
    (hm : Moved errand authSystem c c' i call r g g') : AllGenuine c' where
  ids := by
    intro t ht
    have hseq := (answered_authTokens hm.answers).seq_le
    rcases (answered_authTokens hm.answers).origin ht with ⟨t₀, ht₀, hsame⟩ | ⟨-, hid, hnext⟩
    · have hid := (AuthToken.same_of_asIssued hsame).1
      have := h.ids t₀ ht₀
      omega
    · omega
  genuine := by
    intro t ht
    rcases (answered_authTokens hm.answers).origin ht with ⟨t₀, ht₀, hsame⟩ | ⟨hissues, -⟩
    · obtain ⟨plain, salt, hhex, hhash, hissued⟩ := h.genuine t₀ ht₀
      refine ⟨plain, salt, hhex, ?_, ?_⟩
      · rw [← (AuthToken.same_of_asIssued hsame).2.2.2.1]
        exact hhash
      · rw [← hsame]
        exact hissued.mono (log_mono hm)
    · exact h.genuine_own hm hissues
  drawn := by
    intro j gj plain hj hplain
    rcases hm.phase_cases hj with ⟨rfl, rfl⟩ | ⟨-, hj⟩
    · exact h.drawn_own hP hm hplain
    · obtain ⟨hhex, e, he, hdraws⟩ := h.drawn j gj plain hj hplain
      exact ⟨hhex, e, log_mono hm e he, hdraws⟩
  hashed := by
    intro j userId purpose plain tokenHash hj
    rcases hm.phase_cases hj with ⟨rfl, hg⟩ | ⟨-, hj⟩
    · subst hg
      rcases moved_cases hm with ⟨-, hidle, -⟩ | ⟨a, rfl, hn⟩
      · cases hidle
      · have hbefore := hm.before
        have hanswers := hm.answers
        cases hn with
        | look => exact h.hashed j userId purpose plain tokenHash hbefore
        | hashToken =>
          have hmade : ∃ salt, tokenHash = Bcrypt.hash salt plain := says_of_answered hanswers
          exact hmade
    · exact h.hashed j userId purpose plain tokenHash hj
  read := by
    intro j gj plain use hj hpresents row hrow
    have hbefore : row.purpose = use.purpose ∧ row.usedAt = none ∧
        ∃ t, c.world.authTokens.get row.id = some t ∧ t.asIssued = row.asIssued := by
      rcases hm.phase_cases hj with ⟨rfl, rfl⟩ | ⟨-, hj⟩
      · exact h.read_own hm hpresents hrow
      · exact h.read j gj plain use hj hpresents row hrow
    obtain ⟨hpurpose, hunused, t, ht, hsame⟩ := hbefore
    obtain ⟨t', ht', hsame'⟩ := (answered_authTokens hm.answers).kept h.ids ht
    exact ⟨hpurpose, hunused, t', ht', hsame'.trans hsame⟩

theorem allGenuine {init : World → Prop} (hinit : ∀ w, init w → w.authTokens.rows = [])
    (hr : Reach authSystem init HexTokens c) : AllGenuine c := by
  refine errand_invariant ?_ ?_ ?_ ?_ hr
  · intro w hw
    have hrows : (Config.initial w : Pool).world.authTokens.rows = [] := hinit w hw
    refine ⟨?_, ?_, ?_, ?_, ?_⟩
    · simp [hrows]
    · simp [hrows]
    · intro i g plain hg
      cases hg
    · intro i userId purpose plain tokenHash hg
      cases hg
    · intro i g plain use hg
      cases hg
  · intro c t hr hI _
    refine ⟨hI.ids, hI.genuine, ?_, ?_, ?_⟩
    · intro i g plain hg hplain
      rcases begun_cases hr hg with hg | ⟨-, rfl⟩
      · exact hI.drawn i g plain hg hplain
      · cases t <;> cases hplain
    · intro i userId purpose plain tokenHash hg
      rcases begun_cases hr hg with hg | ⟨-, hg⟩
      · exact hI.hashed i userId purpose plain tokenHash hg
      · cases t <;> cases hg
    · intro i g plain use hg hpresents row hrow
      rcases begun_cases hr hg with hg | ⟨-, rfl⟩
      · exact hI.read i g plain use hg hpresents row hrow
      · cases t <;> cases hrow
  · intro c ms hr hI
    exact ⟨hI.ids, hI.genuine, fun i g plain hg => hI.drawn i g plain (waited_phase hr hg),
      fun i userId purpose plain tokenHash hg =>
        hI.hashed i userId purpose plain tokenHash (waited_phase hr hg),
      fun i g plain use hg => hI.read i g plain use (waited_phase hr hg)⟩
  · intro c c' i call r g g' hr hI hP hm
    exact hI.move hP hm

end

end LmsBackend.Auth
