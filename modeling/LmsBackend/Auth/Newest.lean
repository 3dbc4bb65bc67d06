import LmsBackend.Auth.LastPassword
import LmsBackend.Store.Keyset

/-!
# The newest fifty

`consumeAuthToken` by itself: it compares a plain token with the newest 50 unused
rows of its purpose, those of every user and expired ones among them.
-/

open Async Store

namespace LmsBackend.Auth

/-- The row can be used for the purpose. -/
def AuthToken.valid (purpose : AuthTokenPurpose) (now : Time) (t : AuthToken) : Prop :=
  t.purpose = purpose ∧ t.usedAt = none ∧ ¬t.expiresAt < now

instance (purpose : AuthTokenPurpose) (now : Time) (t : AuthToken) : Decidable (t.valid purpose now) :=
  inferInstanceAs (Decidable (_ ∧ _ ∧ _))

/-- The unused rows of the purpose that are newer. -/
def World.newer (w : World) (purpose : AuthTokenPurpose) (t : AuthToken) : Nat :=
  w.authTokens.rows.countP fun t' => t'.purpose = purpose ∧ t'.usedAt = none ∧ t.id < t'.id

/-- The row that the plain token is accepted for. -/
def World.opener [Bcrypt] (w : World) (purpose : AuthTokenPurpose) (plain : String) : Option AuthToken :=
  (w.unusedAuthTokens purpose).find? fun t =>
    ¬t.expiresAt < w.now ∧ Bcrypt.compare plain t.tokenHash = true

/-- The rows are those of tokens that `issueAuthToken` has made, and no token was made twice. -/
structure Issuances [Bcrypt] (w : World) (plainOf : AuthToken → String) : Prop where
  hex : ∀ t ∈ w.authTokens.rows, Hex64 (plainOf t)
  hash : ∀ t ∈ w.authTokens.rows, ∃ salt, t.tokenHash = Bcrypt.hash salt (plainOf t)
  distinct : ∀ t ∈ w.authTokens.rows, ∀ t' ∈ w.authTokens.rows, plainOf t = plainOf t' → t = t'

/-- `consumeAuthToken` by itself ends. It accepts the token of a valid row, for the user of that row,
and rejects every other string. -/
def AcceptsExactly [Bcrypt] [Jwt] [JsString] [AuthConfig] (w : World) (plainOf : AuthToken → String)
    (purpose : AuthTokenPurpose) (plain : String) : Prop :=
  (∃ w' r, Ends authSystem 0 none w (AuthService.consumeAuthToken plain purpose) w' r) ∧
    ∀ w' r, Ends authSystem 0 none w (AuthService.consumeAuthToken plain purpose) w' r →
      (∀ t ∈ w.authTokens.rows, plainOf t = plain → t.valid purpose w.now → r = .ok t.userId) ∧
        ((∀ t ∈ w.authTokens.rows, plainOf t = plain → ¬t.valid purpose w.now) → r.isOk = false)

/-! ## The list of candidates -/

section

variable {w : World} {purpose : AuthTokenPurpose}

theorem unusedAuthTokens_sorted :
    ((w.authTokens.rows.filter fun t => t.purpose = purpose ∧ t.usedAt = none).insertionSort
      (·.id ≥ ·.id)).Pairwise (·.id > ·.id) := by
  have : Std.Total fun a b : AuthToken => a.id ≥ b.id := ⟨fun a b => Nat.le_total b.id a.id⟩
  have : IsTrans AuthToken fun a b => a.id ≥ b.id := ⟨fun _ _ _ h h' => Nat.le_trans h' h⟩
  have hle := List.pairwise_insertionSort (fun a b : AuthToken => a.id ≥ b.id)
    (w.authTokens.rows.filter fun t => t.purpose = purpose ∧ t.usedAt = none)
  have hnodup : ((w.authTokens.rows.filter fun t =>
      t.purpose = purpose ∧ t.usedAt = none).map AuthToken.id).Nodup :=
    w.authTokens.nodup.sublist (List.filter_sublist.map _)
  have hne := List.pairwise_map.mp (((List.perm_insertionSort (·.id ≥ ·.id) _).map _).nodup_iff.mpr hnodup)
  exact (hle.and hne).imp fun h => Nat.lt_of_le_of_ne h.1 (Ne.symm h.2)

theorem mem_unusedAuthTokens_iff {t : AuthToken} : t ∈ w.unusedAuthTokens purpose ↔
    (t ∈ w.authTokens.rows ∧ t.purpose = purpose ∧ t.usedAt = none) ∧ w.newer purpose t < 50 := by
  have : Std.Irrefl fun a b : AuthToken => a.id > b.id := ⟨fun a => Nat.lt_irrefl a.id⟩
  have : Std.Asymm fun a b : AuthToken => a.id > b.id := ⟨fun _ _ h h' => Nat.lt_asymm h h'⟩
  rw [World.unusedAuthTokens, Keyset.mem_take_iff unusedAuthTokens_sorted, List.mem_insertionSort,
    List.mem_filter, decide_eq_true_eq, (List.perm_insertionSort _ _).countP_eq, List.countP_filter]
  have hnewer : w.authTokens.rows.countP (fun t' => decide (t'.id > t.id) &&
      decide (t'.purpose = purpose ∧ t'.usedAt = none)) = w.newer purpose t := by
    refine List.countP_congr fun t' _ => ?_
    simp only [Bool.and_eq_true, decide_eq_true_eq]
    tauto
  rw [hnewer]

variable [Bcrypt]

theorem opener_spec {plain : String} {t : AuthToken} (h : w.opener purpose plain = some t) :
    t ∈ w.authTokens.rows ∧ t.valid purpose w.now ∧ Bcrypt.compare plain t.tokenHash = true := by
  obtain ⟨⟨hmem, hpurpose, hunused⟩, -⟩ := mem_unusedAuthTokens_iff.mp (List.mem_of_find?_eq_some h)
  have haccepts := List.find?_some h
  simp only [decide_eq_true_eq] at haccepts
  exact ⟨hmem, ⟨hpurpose, hunused, haccepts.1⟩, haccepts.2⟩

/-- Some row opens, if a valid row that matches is among the newest 50. -/
theorem opener_isSome {plain : String} {t : AuthToken} (hmem : t ∈ w.authTokens.rows)
    (hvalid : t.valid purpose w.now) (hmatch : Bcrypt.compare plain t.tokenHash = true)
    (hnewer : w.newer purpose t < 50) : (w.opener purpose plain).isSome = true := by
  obtain ⟨hpurpose, hunused, hexpires⟩ := hvalid
  rw [World.opener, List.find?_isSome]
  exact ⟨t, mem_unusedAuthTokens_iff.mpr ⟨⟨hmem, hpurpose, hunused⟩, hnewer⟩,
    decide_eq_true ⟨hexpires, hmatch⟩⟩

end

/-! ## `consumeAuthToken` by itself -/

section

variable [Bcrypt] [Jwt] [JsString] [AuthConfig] {i : Nat} {w : World} {purpose : AuthTokenPurpose}
  {plain : String} {f : Option (Fault World Call)}

/-- The row has been marked used, or there was none. -/
def Consumed (w : World) (row? : Option AuthToken) (r : Except Err Id) (w' : World) : Prop :=
  match row? with
  | some row => r = .ok row.userId ∧
      w' = { w with authTokens := w.authTokens.put { row with usedAt := some w.now } }
  | none => r = .error (.badRequest "Token invalid or expired") ∧ w' = w

/-- The loop comes to the first row that is not expired and matches. -/
theorem consumeFirst_wlp (hf : f ≠ none) (rows : List AuthToken)
    (hrows : ∀ row ∈ rows, w.authTokens.get row.id = some row ∧ row.usedAt = none) :
    wlp authSystem i f (AuthService.consumeFirst plain rows) w fun _ r w' =>
      Consumed w (rows.find? fun t => ¬t.expiresAt < w.now ∧ Bcrypt.compare plain t.tokenHash = true) r w' := by
  have hfault : ∀ {p : Prop}, f = none → p := fun h => absurd h hf
  induction rows with
  | nil => exact ⟨rfl, rfl⟩
  | cons row rows ih =>
    have ih := ih fun row' h => hrows row' (List.mem_cons_of_mem _ h)
    simp only [AuthService.consumeFirst, await, Prog.bind_eq, wlp_bind, wlp_await]
    refine ⟨?_, hfault⟩
    rintro x _ _ ⟨⟩
    by_cases hexpired : row.expiresAt < w.now
    · simp only [if_pos hexpired]
      rw [List.find?_cons_of_neg (by simp [hexpired])]
      exact ih
    · simp only [if_neg hexpired, wlp_bind, wlp_await]
      refine ⟨?_, hfault⟩
      rintro x _ _ ⟨⟩
      by_cases hmatch : Bcrypt.compare plain row.tokenHash = true
      · obtain ⟨hget, hunused⟩ := hrows row (List.mem_cons_self ..)
        simp only [if_pos hmatch, wlp_bind, wlp_await]
        rw [List.find?_cons_of_pos (by simp [hexpired, hmatch])]
        refine ⟨?_, hfault⟩
        rintro x _ _ ⟨⟩
        refine ⟨?_, hfault⟩
        intro x w' r hx
        have hx : exec i (.authTokensUse row.id w.now) x w = some (w', r) := hx
        simp only [exec, hget, hunused, ne_eq, not_true_eq_false, if_false] at hx
        cases hx
        exact ⟨rfl, rfl⟩
      · simp only [if_neg hmatch]
        rw [List.find?_cons_of_neg (by simp [hmatch])]
        exact ih

theorem consumeAuthToken_wlp (hf : f ≠ none) :
    wlp authSystem i f (AuthService.consumeAuthToken plain purpose) w fun _ r w' =>
      Consumed w (w.opener purpose plain) r w' := by
  simp only [AuthService.consumeAuthToken, await, Prog.bind_eq, wlp_bind, wlp_await]
  refine ⟨?_, fun h => absurd h hf⟩
  rintro x _ _ ⟨⟩
  refine consumeFirst_wlp hf _ fun row hrow => ?_
  obtain ⟨hmem, -, hunused⟩ := mem_unusedAuthTokens hrow
  exact ⟨Table.mem_rows_iff.mp hmem, hunused⟩

omit [Jwt] [JsString] [AuthConfig] in
theorem Issuances.matches_iff (hexact : ExactOnTokens) {plainOf : AuthToken → String}
    (hissued : Issuances w plainOf) {t : AuthToken} (ht : t ∈ w.authTokens.rows) :
    Bcrypt.compare plain t.tokenHash = true ↔ plainOf t = plain := by
  obtain ⟨salt, hhash⟩ := hissued.hash t ht
  rw [hhash, hexact salt _ (hissued.hex t ht), decide_eq_true_eq, eq_comm]

theorem consumed_of_ends {w' : World} {r : Except Err Id}
    (h : Ends authSystem 0 none w (AuthService.consumeAuthToken plain purpose) w' r) :
    Consumed w (w.opener purpose plain) r w' :=
  h.wlp_none (consumeAuthToken_wlp (f := some ⟨w, .now⟩) nofun)

/-- A valid row whose token is accepted is among the newest 50. -/
theorem newer_of_accepts (hexact : ExactOnTokens) {plainOf : AuthToken → String}
    (hissued : Issuances w plainOf) (h : AcceptsExactly w plainOf purpose plain) {t : AuthToken}
    (ht : t ∈ w.authTokens.rows) (hplain : plainOf t = plain) (hvalid : t.valid purpose w.now) :
    w.newer purpose t < 50 := by
  obtain ⟨⟨w', r, hends⟩, hall⟩ := h
  have hok := (hall w' r hends).1 t ht hplain hvalid
  have hconsumed := consumed_of_ends hends
  cases hopener : w.opener purpose plain with
  | none =>
    rw [hopener, hok] at hconsumed
    cases hconsumed.1
  | some t' =>
    obtain ⟨hmem, -, hmatch⟩ := opener_spec hopener
    have hplain' := (hissued.matches_iff hexact hmem).mp hmatch
    obtain rfl := hissued.distinct t ht t' hmem (hplain.trans hplain'.symm)
    exact (mem_unusedAuthTokens_iff.mp (List.mem_of_find?_eq_some hopener)).2

/-- Every valid one-time token is accepted, and everything else is rejected, exactly when the row of
the token, if it is valid, has fewer than 50 unused rows of its purpose after it. -/
theorem token_accepted_iff (hexact : ExactOnTokens) {plainOf : AuthToken → String}
    (hissued : Issuances w plainOf) (purpose : AuthTokenPurpose) (plain : String) :
    AcceptsExactly w plainOf purpose plain ↔
      ∀ t ∈ w.authTokens.rows, plainOf t = plain → t.valid purpose w.now → w.newer purpose t < 50 := by
  constructor
  · exact fun h t ht hplain hvalid => newer_of_accepts hexact hissued h ht hplain hvalid
  · intro hnewer
    refine ⟨exists_ends (exec_answers (i := 0)) _ w, fun w' r hends => ?_⟩
    have hconsumed := consumed_of_ends hends
    cases hopener : w.opener purpose plain with
    | none =>
      rw [hopener] at hconsumed
      obtain ⟨rfl, -⟩ := hconsumed
      refine ⟨fun t ht hplain hvalid => ?_, fun _ => rfl⟩
      have hsome := opener_isSome ht hvalid ((hissued.matches_iff hexact ht).mpr hplain)
        (hnewer t ht hplain hvalid)
      rw [hopener] at hsome
      cases hsome
    | some t' =>
      rw [hopener] at hconsumed
      obtain ⟨rfl, -⟩ := hconsumed
      obtain ⟨hmem, hvalid', hmatch⟩ := opener_spec hopener
      have hplain' := (hissued.matches_iff hexact hmem).mp hmatch
      constructor
      · intro t ht hplain _
        rw [hissued.distinct t ht t' hmem (hplain.trans hplain'.symm)]
      · exact fun hnone => absurd hvalid' (hnone t' hmem hplain')

end

/-! ### A crowd of registrations -/

/-- The token of row `k`: as many digits `b` as `k` says. -/
def crowdToken (k : Nat) : String := String.ofList (List.replicate k 'b' ++ List.replicate (64 - k) 'c')

def crowdRow (k : Nat) : AuthToken :=
  ⟨k, String.ofList (List.replicate k 'u'), .emailVerification, crowdToken k, 1000, none⟩

/-- The bureau after `n` users have been sent a verification email that none has used. -/
def crowd (n : Nat) : World :=
  { bureau with authTokens := ⟨(List.range n).map crowdRow, by
      rw [List.map_map]
      exact List.nodup_range.map fun _ _ h => h⟩ }

theorem crowd_issuances {n : Nat} (hn : n ≤ 64) :
    @Issuances Exams.plainBcrypt (crowd n) AuthToken.tokenHash := by
  refine @Issuances.mk Exams.plainBcrypt _ _ ?_ (fun t _ => ⟨"", rfl⟩) ?_
  · intro t ht
    obtain ⟨k, hk, rfl⟩ := List.mem_map.mp ht
    have hk := List.mem_range.mp hk
    constructor
    · simp only [crowdRow, crowdToken, String.length_ofList, List.length_append, List.length_replicate]
      omega
    · simp [crowdRow, crowdToken]
  · intro t ht t' ht' heq
    obtain ⟨k, -, rfl⟩ := List.mem_map.mp ht
    obtain ⟨k', -, rfl⟩ := List.mem_map.mp ht'
    have hcount : ∀ k, (crowdToken k).toList.count 'b' = k := by
      intro k
      simp [crowdToken, List.count_replicate]
    rw [← hcount k, ← hcount k', show crowdToken k = crowdToken k' from heq]

/-- Of 50 tokens the oldest one is accepted. -/
theorem token_accepted_iff_fifty :
    @AcceptsExactly Exams.plainBcrypt plainJwt plainString development (crowd 50)
      AuthToken.tokenHash .emailVerification (crowdToken 0) := by
  refine (@token_accepted_iff Exams.plainBcrypt plainJwt plainString development (crowd 50)
    plainBcrypt_exact AuthToken.tokenHash (crowd_issuances (by decide)) .emailVerification (crowdToken 0)).mpr ?_
  intro t ht _ _
  have hlength : (crowd 50).authTokens.rows.length = 50 := rfl
  rw [← hlength]
  refine List.countP_lt_length_iff.mpr ⟨t, ht, ?_⟩
  simp

set_option maxRecDepth 100000 in
/-- Of 51 it is not. -/
theorem fiftyfirst_token_rejected :
    ¬∀ w plainOf, @Issuances Exams.plainBcrypt w plainOf → ∀ purpose plain,
      @AcceptsExactly Exams.plainBcrypt plainJwt plainString development w plainOf purpose plain := by
  intro hall
  have hissued := crowd_issuances (n := 51) (by decide)
  have hnewer := @newer_of_accepts Exams.plainBcrypt plainJwt plainString development (crowd 51)
    .emailVerification (crowdToken 0) plainBcrypt_exact AuthToken.tokenHash hissued
    (hall (crowd 51) _ hissued .emailVerification (crowdToken 0)) (crowdRow 0) (by decide) rfl (by decide)
  revert hnewer
  decide

end LmsBackend.Auth
