import LmsBackend.Content.OneCall
import LmsBackend.Content.Writes

/-!
# One certificate for a program code

`create` and `update` look for the code and write it in another statement, and
the index of the column is not unique. Codes stay distinct as long as nobody
else writes a code between the look and the write. What they look for is the
code that was sent, of which the column may keep less.
-/

open Async Store

namespace LmsBackend.Content

/-! ## Codes -/

/-- No two rows have one code. -/
def World.DistinctCodes (w : World) : Prop :=
  ∀ c ∈ w.certificates.rows, ∀ c' ∈ w.certificates.rows, c.programCode = c'.programCode → c = c'

theorem distinctCodes_iff {w : World} :
    w.DistinctCodes ↔ (w.certificates.rows.map (·.programCode)).Nodup := by
  constructor
  · intro h
    exact List.Nodup.map_on h w.certificates.nodup.of_map
  · intro h c hc c' hc' hcode
    exact List.inj_on_of_nodup_map h hc hc' hcode

/-- The code that a write sends. -/
def Call.programCode? : Call → Option String
  | .certificateSave row => some row.programCode
  | .certificateUpdate _ patch => patch.programCode.toOption
  | _ => none

/-- The code that the column gets. -/
def Call.storedCode? (call : Call) : Option String := call.programCode?.bind (storeText (some 50))

/-- The row that a write is for. -/
def Call.row? : Call → Option Id
  | .certificateUpdate id _ => some id
  | _ => none

/-- The row whose code the task may change. `create` makes a new one. -/
def Task.row? : Task → Option Id
  | .update id _ => some id
  | _ => none

/-- No other process has stored the code since the last answer of process `i`. -/
def Unclaimed (c : Pool) (i : Nat) (programCode : String) : Prop :=
  ∀ e ∈ c.since i, e.call.storedCode? = some programCode → e.res.isOk = false

/-- Nobody has stored the code since the look. One that is cut has not been looked for as it is
kept, so no other row is to have it. -/
def InTime (c : Pool) (i : Nat) (call : Call) : Prop :=
  ∀ p ∈ call.programCode?, ∀ stored ∈ storeText (some 50) p,
    if stored = p then Unclaimed c i p
    else ∀ row ∈ c.world.certificates.rows, row.programCode = stored → call.row? = some row.id

/-- A body with an empty code, which `@Length(1, 50)` refuses. -/
def Task.blank : Task → Bool
  | .update _ dto => dto.programCode = .value ""
  | _ => false

/-! ## Phases -/

structure CodePhase where
  task : Task
  /-- The last answer has shown that no row has this code but the task's own. -/
  free? : Option String

namespace CodePhase

/-- After the task has read its own row. -/
def ownRow (t : Task) (id : Id) (cert? : Option Certificate) : Option String :=
  match t, cert? with
  | .update id' dto, some cert =>
    if id' = id ∧ dto.programCode = .value cert.programCode then some cert.programCode else none
  | _, _ => none

def next (g : CodePhase) : (call : Call) → Resp call → Option CodePhase
  | .certificateFindByProgramCode p, id? =>
    some ⟨g.task, if id? = none ∨ id? = g.task.row? then some p else none⟩
  | .certificateFindOne id, cert? => some ⟨g.task, ownRow g.task id cert?⟩
  | .certificateSave row, _ =>
    if g.free? = some row.programCode ∧ g.task.row? = none then some ⟨g.task, none⟩ else none
  | .certificateUpdate id patch, _ =>
    match patch.programCode with
    | .value p =>
      if g.task.row? = some id ∧ (g.free? = some p ∨ g.task.blank) then some ⟨g.task, none⟩ else none
    | _ => some ⟨g.task, none⟩
  | _, _ => some ⟨g.task, none⟩

end CodePhase

def codes : Monitor Call Resp Err Reply Task CodePhase where
  start t := ⟨t, none⟩
  next := CodePhase.next
  failed g _ := ⟨g.task, none⟩
  final _ _ := True

attribute [local simp] CodePhase.next Call.programCode?

@[simp] theorem codes_next : codes.next = CodePhase.next := rfl

@[simp] theorem codes_failed (g : CodePhase) (call : Call) : codes.failed g call = ⟨g.task, none⟩ := rfl

/-- The calls that set no code. -/
def codeless : Contract Call Resp where
  may c := c.programCode? = none
  gets _ _ := True

theorem codeless_next {call : Call} (h : call.programCode? = none) (g : CodePhase)
    (r : Except Err (Resp call)) : ∃ g', codes.advance g call r = some g' := by
  cases r with
  | error e => exact ⟨_, rfl⟩
  | ok a =>
    cases call with
    | certificateSave row => cases h
    | certificateUpdate id patch =>
      simp only [Call.programCode?] at h
      simp only [Monitor.advance, codes_next, CodePhase.next]
      split
      · rename_i p hp
        rw [hp] at h
        cases h
      · exact ⟨_, rfl⟩
    | _ => exact ⟨_, rfl⟩

theorem codeless_keeps {t : Task} (ht : Permits codeless t) : codes.Keeps (contentSystem.prog t) ⟨t, none⟩ := by
  refine codes.wp_mono ((task_meets ht).wp (J := fun _ => True) ?_ (fun _ _ => trivial) trivial)
    (fun _ _ _ => trivial) fun _ _ _ => trivial
  intro g c r _ hc
  obtain ⟨g', hg'⟩ := codeless_next hc g r
  exact ⟨g', hg', trivial⟩

theorem codeless_permits {t : Task} (hcreate : ∀ dto, t ≠ .create dto) (hupdate : ∀ id dto, t ≠ .update id dto) :
    Permits codeless t where
  reads := by
    intro c hc
    cases c with
    | certificateSave row => cases hc
    | certificateUpdate id patch => cases hc
    | _ => rfl
  writes := by
    intro c hc
    cases hc with
    | create => exact absurd rfl (hcreate _)
    | update => exact absurd rfl (hupdate _ _)
    | updateTranslations =>
      change (CatalogService.translationsPatch _ _).programCode.toOption = none
      rw [CatalogService.translationsPatch_programCode]
      rfl
    | _ => rfl

theorem codes_then {g : CodePhase} {c : Call} {α : Type} {f : Resp c → Promise α}
    {Q : α → CodePhase → Prop} {F : Err → CodePhase → Prop}
    (hf : ∀ a, ∃ g', g.next c a = some g' ∧ codes.wp (f a) g' Q F)
    (hF : ∀ e, F e ⟨g.task, none⟩) : codes.wp (await c >>= f) g Q F :=
  (codes.wp_bind f).mpr ((codes.wp_await c).mpr ⟨hf, hF⟩)

theorem create_keeps (dto : CreateCertificateDto) :
    codes.Keeps (contentSystem.prog (.create dto)) ⟨.create dto, none⟩ := by
  refine (codes.wp_bind _).mpr ?_
  unfold CatalogService.create
  refine codes_then (fun existing => ⟨_, rfl, ?_⟩) fun _ => trivial
  split
  · trivial
  · rename_i hnone
    have hfree : existing = none := Option.not_isSome_iff_eq_none.mp hnone
    refine (codes.wp_await _).mpr ⟨fun saved => ⟨_, if_pos ⟨?_, rfl⟩, trivial⟩, fun _ => trivial⟩
    rw [hfree, if_pos (.inl rfl)]
    rfl

theorem update_keeps (id : Id) (dto : UpdateCertificateDto) :
    codes.Keeps (contentSystem.prog (.update id dto)) ⟨.update id dto, none⟩ := by
  refine (codes.wp_bind _).mpr ?_
  unfold CatalogService.update
  refine codes_then (fun cert? => ⟨_, rfl, ?_⟩) fun _ => trivial
  cases cert? with
  | none => trivial
  | some cert =>
    have hwrite : ∀ free? : Option String,
        (∀ p, dto.programCode = .value p → free? = some p ∨ (Task.update id dto).blank) →
        codes.wp (do
          let patch := CatalogService.updatePatch dto cert
          if !CatalogService.emptyPatch patch then
            await (.certificateUpdate id patch)
          await (.certificateFindOneOrFail id)) ⟨.update id dto, free?⟩
          (fun _ _ => True) fun _ _ => True := by
      intro free? hfree
      have hread : ∀ free?, codes.wp (await (.certificateFindOneOrFail id)) ⟨.update id dto, free?⟩
          (fun _ _ => True) fun _ _ => True :=
        fun _ => (codes.wp_await _).mpr ⟨fun _ => ⟨_, rfl, trivial⟩, fun _ => trivial⟩
      simp only
      split
      · refine codes_then (fun _ => ⟨⟨.update id dto, none⟩, ?_, hread none⟩) fun _ => trivial
        simp only [CodePhase.next, CatalogService.updatePatch_programCode]
        split
        · rename_i p hp
          exact if_pos ⟨rfl, hfree p hp⟩
        · rfl
      · exact hread _
    simp only
    split
    · rename_i hsame
      refine codes.wp_mono (hwrite _ fun p hp => ?_) (fun _ _ _ => trivial) fun _ _ _ => trivial
      -- A code that is not blank and not new is that of the row.
      have hkeep := Option.filter_eq_none_iff.mp hsame p (by rw [hp]; rfl)
      simp only [CodePhase.ownRow, hp, decide_eq_true_eq] at hkeep ⊢
      by_cases hblank : p = ""
      · right
        rw [hblank] at hp
        exact decide_eq_true hp
      · have hcode : p = cert.programCode := by
          by_contra hnew
          exact hkeep ⟨hblank, hnew⟩
        exact .inl (by rw [hcode]; exact if_pos ⟨trivial, rfl⟩)
    · rename_i p hnew
      have hvalue : dto.programCode = .value p := by
        have hfilter := (Option.filter_eq_some_iff.mp hnew).1
        cases hdto : dto.programCode with
        | value p' =>
          rw [hdto] at hfilter
          cases hfilter
          rfl
        | _ =>
          rw [hdto] at hfilter
          cases hfilter
      refine codes_then (fun clash => ⟨_, rfl, ?_⟩) fun _ => trivial
      split
      · trivial
      · rename_i hclash
        refine codes.wp_mono (hwrite _ fun p' hp' => ?_) (fun _ _ _ => trivial) fun _ _ _ => trivial
        rw [hvalue] at hp'
        cases hp'
        refine .inl (if_pos ?_)
        cases clash with
        | none => exact .inl rfl
        | some other =>
          right
          simp only [Option.any_some, decide_eq_true_eq, not_not] at hclash
          rw [hclash]
          rfl

theorem codes_sound : codes.Sound contentSystem := by
  intro t
  cases t with
  | create dto => exact create_keeps dto
  | update id dto => exact update_keeps id dto
  | _ =>
    refine codeless_keeps (codeless_permits (fun dto h => ?_) fun id dto h => ?_)
    · cases h
    · cases h

/-! ## What a step does to the codes -/

section

variable {i : Nat} {w w' : World} {call : Call} {r : Except Err (Resp call)} {g g' : CodePhase}

theorem advance_task (h : codes.advance g call r = some g') : g'.task = g.task := by
  cases r with
  | error e =>
    cases h
    rfl
  | ok a =>
    simp only [Monitor.advance, codes_next, CodePhase.next] at h
    split at h
    · cases h
      rfl
    · cases h
      rfl
    · split at h
      · cases h
        rfl
      · cases h
    · split at h
      · split at h
        · cases h
          rfl
        · cases h
      · cases h
        rfl
    · cases h
      rfl

theorem findByProgramCode_cases {p : String} {x : Choice} {r : Except Err (Option Id)}
    (h : contentSystem.exec i (.certificateFindByProgramCode p) x w = some (w', r)) :
    (r = .ok none ∧ ∀ row ∈ w.certificates.rows, row.programCode ≠ p) ∨
      ∃ row ∈ w.certificates.rows, row.programCode = p ∧ r = .ok (some row.id) := by
  simp only [contentSystem, exec] at h
  split at h
  · rename_i hnone
    cases h
    left
    simpa [List.filter_eq_nil_iff] using hnone
  · obtain ⟨row, hrow, h⟩ := Option.map_eq_some_iff.mp h
    cases h
    obtain ⟨hmem, hcode⟩ := List.mem_filter.mp (List.mem_of_find?_eq_some hrow)
    exact .inr ⟨row, hmem, of_decide_eq_true hcode, rfl⟩

/-- A code that an answer shows to be free is of no row but the task's own. -/
theorem free_learned (h : Answered contentSystem i call w r w') (hw : w.DistinctCodes)
    (hnext : codes.advance g call r = some g') {p : String} (hfree : g'.free? = some p) :
    ∀ row ∈ w.certificates.rows, row.programCode = p → g.task.row? = some row.id := by
  cases r with
  | error e =>
    cases hnext
    cases hfree
  | ok a =>
    simp only [Monitor.advance, codes_next] at hnext
    cases call with
    | certificateFindByProgramCode q =>
      cases hnext
      simp only at hfree
      split at hfree
      · rename_i hclear
        cases hfree
        intro row hrow hcode
        cases h with
        | exec hx =>
          rcases findByProgramCode_cases hx with ⟨hr, hnone⟩ | ⟨row', hrow', hcode', hr⟩
          · exact absurd hcode (hnone row hrow)
          · cases hr
            cases hw row hrow row' hrow' (hcode.trans hcode'.symm)
            rcases hclear with hclear | hclear
            · cases hclear
            · exact hclear.symm
      · cases hfree
    | certificateFindOne id =>
      cases hnext
      simp only [CodePhase.ownRow] at hfree
      split at hfree
      · rename_i id' dto cert htask
        split at hfree
        · rename_i hsame
          cases hfree
          intro row hrow hcode
          cases h with
          | exec hx =>
            simp only [contentSystem, exec, Option.some.injEq, Prod.mk.injEq, Except.ok.injEq] at hx
            obtain ⟨hmem, hid⟩ := Table.get_some_iff.mp hx.2
            cases hw row hrow cert hmem hcode
            rw [htask, Task.row?, hsame.1]
            exact congrArg some hid.symm
        · cases hfree
      · cases hfree
    | certificateSave row =>
      simp only [CodePhase.next] at hnext
      split at hnext
      · cases hnext
        cases hfree
      · cases hnext
    | certificateUpdate id patch =>
      simp only [CodePhase.next] at hnext
      split at hnext
      · split at hnext
        · cases hnext
          cases hfree
        · cases hnext
      · cases hnext
        cases hfree
    | _ =>
      cases hnext
      cases hfree

/-! ## The invariant -/

structure CodesOk (c : Pool) : Prop where
  distinct : c.world.DistinctCodes
  notBlank : ∀ i g, codes.phase c i = some g → g.task.blank = false
  free : ∀ i g p, codes.phase c i = some g → g.free? = some p → Unclaimed c i p →
    ∀ row ∈ c.world.certificates.rows, row.programCode = p → g.task.row? = some row.id

/-- A guard: every write of a code is in time. -/
def codesInTime : Guard World Call Resp Err Reply Task Choice Nat
  | _, .spawn t => t.blank = false
  | c, .run i _ => ∀ call ∈ c.next? i, InTime c i call
  | _, _ => True

instance (c : Pool) (i : Nat) (p : String) : Decidable (Unclaimed c i p) :=
  inferInstanceAs (Decidable (∀ _ ∈ _, _))

instance (c : Pool) (i : Nat) (call : Call) : Decidable (InTime c i call) :=
  inferInstanceAs (Decidable (∀ _ ∈ _, ∀ _ ∈ _, _))

instance : ∀ c l, Decidable (codesInTime c l)
  | _, .spawn t => inferInstanceAs (Decidable (t.blank = false))
  | c, .run i _ => inferInstanceAs (Decidable (∀ call ∈ c.next? i, InTime c i call))
  | _, .fail _ => .isTrue trivial
  | _, .env _ => .isTrue trivial

/-- The rows with a code after a write: the row that it is written to, and rows that had it. -/
theorem Wrote.code (h : Wrote w call r w') {row : Certificate} (hrow : row ∈ w'.certificates.rows) :
    row ∈ w.certificates.rows ∨
      call.storedCode? = some row.programCode ∨
      ∃ old ∈ w.certificates.rows, old.id = row.id ∧ old.programCode = row.programCode := by
  cases h with
  | certificateSave hnew hstored =>
    rcases Table.mem_put.mp hrow with rfl | ⟨hrow, -⟩
    · exact .inr (.inl (Certificate.stored_spec hstored).1)
    · exact .inl hrow
  | @certificateUpdate id patch old row' hold hpatched =>
    rcases Table.mem_put.mp hrow with rfl | ⟨hrow, -⟩
    · have hspec := Certificate.patched_spec hpatched
      have hcode := hspec.programCode
      right
      cases hpatch : patch.programCode with
      | undefined =>
        rw [hpatch] at hcode
        exact .inr ⟨old, (Table.get_some_iff.mp hold).1, hspec.id.symm, Option.some.inj hcode⟩
      | null =>
        rw [hpatch] at hcode
        cases hcode
      | value p =>
        rw [hpatch] at hcode
        left
        rw [Call.storedCode?, Call.programCode?, hpatch]
        exact hcode
    · exact .inl hrow
  | _ => exact .inl hrow

/-- A write of a code that only its own row may have keeps the codes distinct. -/
theorem Wrote.distinct (h : Wrote w call r w') (hw : w.DistinctCodes)
    (hfree : ∀ p, call.storedCode? = some p → ∀ row ∈ w.certificates.rows, row.programCode = p →
      call.row? = some row.id) : w'.DistinctCodes := by
  -- The new row and one that stays have different codes.
  have hput : ∀ new : Certificate,
      (∀ row ∈ w.certificates.rows, row.id ≠ new.id → row.programCode ≠ new.programCode) →
      ({ w with certificates := w.certificates.put new } : World).DistinctCodes := by
    intro new hnew c hc c' hc' hcode
    rcases Table.mem_put.mp hc with hnewc | ⟨hc, hkey⟩
    · rcases Table.mem_put.mp hc' with hnewc' | ⟨hc', hkey'⟩
      · rw [hnewc, hnewc']
      · rw [hnewc] at hcode
        exact absurd hcode.symm (hnew c' hc' hkey')
    · rcases Table.mem_put.mp hc' with hnewc' | ⟨hc', -⟩
      · rw [hnewc'] at hcode
        exact absurd hcode (hnew c hc hkey)
      · exact hw c hc c' hc' hcode
  cases h with
  | certificateSave hnew hstored =>
    refine hput _ fun row hrow hid hcode => ?_
    cases hfree _ (Certificate.stored_spec hstored).1 row hrow hcode
  | @certificateUpdate id patch old row' hold hpatched =>
    have hspec := Certificate.patched_spec hpatched
    have hnewCode := hspec.programCode
    obtain ⟨hmem, hkey⟩ := Table.get_some_iff.mp hold
    refine hput _ fun row hrow hid hcode => ?_
    cases hpatch : patch.programCode with
    | undefined =>
      rw [hpatch] at hnewCode
      cases hw row hrow old hmem (hcode.trans (Option.some.inj hnewCode).symm)
      exact hid hspec.id.symm
    | null =>
      rw [hpatch] at hnewCode
      cases hnewCode
    | value p =>
      rw [hpatch] at hnewCode
      have hset : (Call.certificateUpdate id patch).storedCode? = some row'.programCode := by
        rw [Call.storedCode?, Call.programCode?, hpatch]
        exact hnewCode
      have hown := hfree _ hset row hrow hcode
      refine hid ?_
      rw [hspec.id, ← Option.some.inj hown]
      exact hkey.symm
  | _ => exact hw

theorem next_sets {a : Resp call} (h : codes.next g call a = some g') {p : String}
    (hp : call.programCode? = some p) :
    g.task.row? = call.row? ∧ (g.free? = some p ∨ g.task.blank = true) := by
  cases call with
  | certificateSave row =>
    simp only [codes_next, CodePhase.next] at h
    split at h
    · rename_i hsave
      cases hp
      exact ⟨hsave.2, .inl hsave.1⟩
    · cases h
  | certificateUpdate id patch =>
    simp only [codes_next, CodePhase.next] at h
    simp only [Call.programCode?] at hp
    cases hpatch : patch.programCode with
    | value q =>
      rw [hpatch] at h hp
      cases hp
      simp only at h
      split at h
      · exact ‹_ ∧ _›
      · cases h
    | _ =>
      rw [hpatch] at hp
      cases hp
  | _ => cases hp

theorem Wrote.ok (h : Wrote w call r w') : ∃ a, r = .ok a := by
  cases h <;> exact ⟨_, rfl⟩

/-- After a write no code counts as free. -/
theorem Wrote.spent (h : Wrote w call r w') (hnext : codes.advance g call r = some g') :
    g'.free? = none := by
  cases h with
  | certificateSave =>
    simp only [Monitor.advance, codes_next, CodePhase.next] at hnext
    split at hnext
    · cases hnext
      rfl
    · cases hnext
  | certificateUpdate =>
    simp only [Monitor.advance, codes_next, CodePhase.next] at hnext
    split at hnext
    · split at hnext
      · cases hnext
        rfl
      · cases hnext
    · cases hnext
      rfl
  | _ =>
    cases hnext
    rfl

theorem CodesOk.start {c : Pool} (hc : CodesOk c) (hlog : c.LogOk) {ts : List Task}
    (hts : ∀ t ∈ ts, t.blank = false) (hw : w.certificates = c.world.certificates) :
    CodesOk (c.start contentSystem ts w) := by
  constructor
  · change w.DistinctCodes
    rw [World.DistinctCodes, hw]
    exact hc.distinct
  · intro i g hg
    rcases codes.phase_start_cases hlog hg with hg | ⟨-, t, ht, rfl⟩
    · exact hc.notBlank i g hg
    · exact hts t ht
  · intro i g p hg hfree hunclaimed row hrow
    rcases codes.phase_start_cases hlog hg with hg | ⟨-, t, ht, rfl⟩
    · change row ∈ w.certificates.rows at hrow
      rw [hw] at hrow
      exact hc.free i g p hg hfree hunclaimed row hrow
    · cases hfree

theorem CodesOk.move {c c' : Pool} (hc : CodesOk c)
    (hP : Reach.Allowed contentSystem codesInTime c i call r c'.world)
    (hm : Moved codes contentSystem c c' i call r g g') : CodesOk c' := by
  have hother : ∀ j gj, j ≠ i → codes.phase c' j = some gj → codes.phase c j = some gj := by
    intro j gj hj hgj
    rw [← hm.other j hj]
    exact hgj
  have hnotBlank : ∀ j gj, codes.phase c' j = some gj → gj.task.blank = false := by
    intro j gj hgj
    rcases hm.phase_cases hgj with ⟨rfl, rfl⟩ | ⟨-, hgj⟩
    · rw [advance_task hm.next]
      exact hc.notBlank _ g hm.before
    · exact hc.notBlank j gj hgj
  rcases answered_cases hm.answers with hsame | hwrote
  · refine ⟨hsame ▸ hc.distinct, hnotBlank, fun j gj p hgj hfree hunclaimed row hrow hcode => ?_⟩
    rw [hsame] at hrow
    rcases hm.phase_cases hgj with ⟨rfl, rfl⟩ | ⟨hj, hgj⟩
    · rw [advance_task hm.next]
      exact free_learned hm.answers hc.distinct hm.next hfree row hrow hcode
    · refine hc.free j gj p hgj hfree (fun e he => hunclaimed e ?_) row hrow hcode
      rw [Config.since_other hm.log hj.symm]
      exact List.mem_cons_of_mem _ he
  · obtain ⟨a, rfl⟩ := hwrote.ok
    obtain ⟨x, hguard⟩ := hP.guard
    have hintime := hguard call hm.waits
    -- What the column gets is free for its row: it has been looked for, and nobody has stored it
    -- since, or it is cut.
    have hclear : ∀ stored, call.storedCode? = some stored → ∀ row ∈ c.world.certificates.rows,
        row.programCode = stored → call.row? = some row.id := by
      intro stored hset row hrow hcode
      obtain ⟨p, hp, hstored⟩ := Option.bind_eq_some_iff.mp hset
      have hunclaimed := hintime p hp stored hstored
      split at hunclaimed
      · rename_i hsame
        obtain ⟨hown, hfree | hblank⟩ := next_sets hm.next hp
        · rw [← hown]
          exact hc.free i g p hm.before hfree hunclaimed row hrow (hcode.trans hsame)
        · rw [hc.notBlank i g hm.before] at hblank
          cases hblank
      · exact hunclaimed row hrow hcode
    refine ⟨hwrote.distinct hc.distinct hclear, hnotBlank, fun j gj p hgj hfree hunclaimed row hrow hcode => ?_⟩
    rcases hm.phase_cases hgj with ⟨rfl, rfl⟩ | ⟨hj, hgj⟩
    · rw [hwrote.spent hm.next] at hfree
      cases hfree
    · have hsince := Config.since_other hm.log hj.symm
      have hold := hc.free j gj p hgj hfree fun e he => hunclaimed e (hsince ▸ List.mem_cons_of_mem _ he)
      rcases hwrote.code hrow with hrow | hset | ⟨old, hmem, hid, holdCode⟩
      · exact hold row hrow hcode
      · have hlast := hunclaimed ⟨i, call, .ok a, c.world, c'.world⟩ (hsince ▸ List.mem_cons_self)
        rw [hcode] at hset
        cases hlast hset
      · rw [← hid]
        exact hold old hmem (holdCode.trans hcode)

end

/-- Program codes stay distinct in every run in which each write of a code is in time. -/
theorem program_codes_distinct {c : Pool}
    (h : Reach contentSystem World.DistinctCodes codesInTime c) : c.world.DistinctCodes := by
  have hlog : ∀ {c : Pool}, Reach contentSystem World.DistinctCodes codesInTime c → c.LogOk :=
    fun h => h.logOk codes_sound
  refine (h.invariant (I := CodesOk) codes_sound ?_ ?_ ?_ ?_).distinct
  · intro w hw
    refine ⟨hw, fun i g hg => ?_, fun i g p hg => ?_⟩
    · rw [codes.phase_none (Nat.zero_le i)] at hg
      cases hg
    · rw [codes.phase_none (Nat.zero_le i)] at hg
      cases hg
  · intro c t hr hc hP _
    refine hc.start (hlog hr) (fun t' ht' => ?_) rfl
    rw [List.mem_singleton.mp ht']
    exact hP
  · intro c v w ts hr hc _ hx
    cases hx
    exact hc.start (hlog hr) (fun t ht => absurd ht List.not_mem_nil) rfl
  · intro c c' i call r g g' _ hc hP hm
    exact hc.move hP hm

/-! ## Two admins -/

def createWith (programCode : String) : CreateCertificateDto where
  title := "Scrum"
  programCode := programCode
  price := 100
  currency := .undefined
  description := .undefined
  thumbnailUrl := .undefined
  active := .undefined
  translations := .undefined

/-- Two admins create a certificate each. Both look before either writes. -/
def twoCreates (programCode programCode' : String) : List PoolLabel :=
  [.spawn (.create (createWith programCode)), .spawn (.create (createWith programCode')),
    .run 0 "", .run 1 "", .run 0 "first", .run 1 "second"]

theorem emptyWorld_distinct : emptyWorld.DistinctCodes := nofun

theorem program_codes_distinct_two :
    ∃ c : Pool, Reach contentSystem World.DistinctCodes codesInTime c ∧
      c.world.certificates.rows.length = 2 ∧ c.world.DistinctCodes := by
  have hrun : ∃ c, runIf contentSystem codesInTime (twoCreates "PSM" "PSPO") (.initial emptyWorld) =
      some c ∧ c.world.certificates.rows.length = 2 := ⟨_, rfl, rfl⟩
  obtain ⟨c, hrun, hlength⟩ := hrun
  have hreach : Reach contentSystem World.DistinctCodes codesInTime c :=
    runIf_reach (.init emptyWorld_distinct) hrun
  exact ⟨c, hreach, hlength, program_codes_distinct hreach⟩

/-- Both find the code free. -/
theorem program_code_twice :
    ∃ c : Pool, Reach contentSystem World.DistinctCodes anyStep c ∧ ¬c.world.DistinctCodes := by
  have hrun : ∃ c, runIf contentSystem anyStep (twoCreates "PSM" "PSM") (.initial emptyWorld) =
      some c ∧ c.world.certificates.rows.map (·.programCode) = ["PSM", "PSM"] := ⟨_, rfl, rfl⟩
  obtain ⟨c, hrun, hcodes⟩ := hrun
  refine ⟨c, runIf_reach (.init emptyWorld_distinct) hrun, ?_⟩
  rw [distinctCodes_iff, hcodes]
  decide

/-- A code of 50 characters. -/
def fullCode : String := String.ofList (List.replicate 48 'P' ++ ['A', '\ufe0f'])

/-- One after the other: of the second code the column keeps the first. -/
example : (runIf contentSystem anyStep
    [.spawn (.create (createWith fullCode)), .run 0 "", .run 0 "first",
      .spawn (.create (createWith (fullCode ++ " "))), .run 1 "", .run 1 "second"]
    (.initial emptyWorld)).map (·.world.certificates.rows.map (·.programCode)) =
      some [fullCode, fullCode] := rfl

end LmsBackend.Content
