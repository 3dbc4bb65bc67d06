import LmsBackend.Schema.AuditLog

/-!
# What a statement changes

A row that none of the changes of a statement is about is there afterwards. An INSERT or an UPDATE
changes what the policies let it, and adds nothing else.
-/

open Store

namespace LmsBackend.InitialSchema

open Schema (Collation)

/-- The table that the statement names. -/
def Statement.table : Statement → Table
  | .insert t _ _ | .update t _ _ | .delete t _ => t

/-- The change is about the row, as `OLD`. -/
def Change.Hits (c : Change) (t : Table) (row : Row) : Prop := c.table = t ∧ c.old? = some row

/-- The policies let the session make the change. -/
def Session.Lets (s : Session) (c : Change) : Prop :=
  (∀ old, c.old? = some old → s.finds c.table old = true) ∧
    ∀ new, c.new? = some new → s.admits c.table new = true

variable {s : Session} {rows : Tables} {t t' : Table} {found : Row → Bool} {row : Row}

/-! ## The rows of an INSERT and of an UPDATE -/

theorem mem_modify {f : Row → Row} (hrow : row ∈ rows t') (hf : t' = t → f row = row) :
    row ∈ rows.modify t f t' := by
  unfold Tables.modify
  by_cases ht : t' = t
  · subst ht
    rw [Function.update_self]
    exact List.mem_map.mpr ⟨row, hrow, hf rfl⟩
  · rwa [Function.update_of_ne ht]

theorem of_mem_modify {f : Row → Row} (hrow : row ∈ rows.modify t f t') :
    row ∈ rows t' ∨ t' = t ∧ ∃ old ∈ rows t, row = f old := by
  unfold Tables.modify at hrow
  by_cases ht : t' = t
  · subst ht
    rw [Function.update_self] at hrow
    obtain ⟨old, hold, rfl⟩ := List.mem_map.mp hrow
    exact .inr ⟨rfl, old, hold, rfl⟩
  · rw [Function.update_of_ne ht] at hrow
    exact .inl hrow

theorem mem_append {new : List Row} :
    row ∈ rows.append t new t' ↔ row ∈ rows t' ∨ t' = t ∧ row ∈ new := by
  unfold Tables.append
  by_cases ht : t' = t
  · subst ht
    rw [Function.update_self, List.mem_append]
    exact or_congr_right (and_iff_right rfl).symm
  · rw [Function.update_of_ne ht]
    exact (or_iff_left fun h => ht h.1).symm

/-- What a statement has made of the rows by its changes so far. -/
structure Made (s : Session) (t : Table) (rows : Tables) (done : Tables × List Change) : Prop where
  kept : ∀ t', ∀ row ∈ rows t', (∀ c ∈ done.2, ¬c.Hits t' row) → row ∈ done.1 t'
  fresh : ∀ t', ∀ row ∈ done.1 t', row ∈ rows t' ∨ ∃ c ∈ done.2, c.table = t' ∧ c.new? = some row
  lets : ∀ c ∈ done.2, c.table = t ∧ s.Lets c

theorem made_insertRow {done done' : Tables × List Change} {onConflict : Option OnConflict}
    {new : Row} (hmade : Made s t rows done) (h : insertRow s t onConflict done new = some done') :
    Made s t rows done' := by
  unfold insertRow at h
  dsimp only at h
  split at h
  · cases h
  · have hadmits : s.admits t new = true := by simpa using ‹¬(!s.admits t new) = true›
    split at h
    · cases h
      refine ⟨fun t' row hrow hc => ?_, fun t' row hrow => ?_, fun c hc => ?_⟩
      · exact mem_append.mpr (.inl (hmade.kept t' row hrow fun c hmem =>
          hc c (List.mem_append_left _ hmem)))
      · rcases mem_append.mp hrow with hold | ⟨rfl, hnew⟩
        · refine (hmade.fresh t' row hold).imp_right fun ⟨c, hc, h⟩ => ?_
          exact ⟨c, List.mem_append_left _ hc, h⟩
        · obtain rfl := List.mem_singleton.mp hnew
          exact .inr ⟨_, List.mem_append_right _ (List.mem_singleton.mpr rfl), rfl, rfl⟩
      · rcases List.mem_append.mp hc with hc | hc
        · exact hmade.lets c hc
        · obtain rfl := List.mem_singleton.mp hc
          exact ⟨rfl, nofun, fun _ he => Option.some.inj he ▸ hadmits⟩
    · cases h
      exact hmade
    · rename_i old row' _
      split at h
      · cases h
        obtain ⟨hfinds, hadmits'⟩ := (Bool.and_eq_true _ _).mp ‹(_ && _) = true›
        refine ⟨fun t' row hrow hc => ?_, fun t' row hrow => ?_, fun c hc => ?_⟩
        · have hmem := hmade.kept t' row hrow fun c hmem => hc c (List.mem_append_left _ hmem)
          refine mem_modify hmem fun ht => if_neg ?_
          rintro rfl
          exact hc _ (List.mem_append_right _ (List.mem_singleton.mpr rfl)) ⟨ht.symm, rfl⟩
        · rcases of_mem_modify hrow with hrow | ⟨rfl, r, hr, rfl⟩
          · refine (hmade.fresh t' row hrow).imp_right fun ⟨c, hc, h⟩ => ?_
            exact ⟨c, List.mem_append_left _ hc, h⟩
          · split
            · exact .inr ⟨_, List.mem_append_right _ (List.mem_singleton.mpr rfl), rfl, rfl⟩
            · refine (hmade.fresh t' r hr).imp_right fun ⟨c, hc, h⟩ => ?_
              exact ⟨c, List.mem_append_left _ hc, h⟩
        · rcases List.mem_append.mp hc with hc | hc
          · exact hmade.lets c hc
          · obtain rfl := List.mem_singleton.mp hc
            exact ⟨rfl, fun _ he => Option.some.inj he ▸ hfinds,
              fun _ he => Option.some.inj he ▸ hadmits'⟩
      · cases h

theorem made_foldlM {onConflict : Option OnConflict} {new : List Row}
    {done done' : Tables × List Change} (hmade : Made s t rows done)
    (h : new.foldlM (insertRow s t onConflict) done = some done') : Made s t rows done' := by
  induction new generalizing done with
  | nil =>
    cases h
    exact hmade
  | cons r new ih =>
    rw [List.foldlM_cons] at h
    obtain ⟨next, hnext, hrest⟩ := Option.bind_eq_some_iff.mp h
    exact ih (made_insertRow hmade hnext) hrest

theorem afterInsert_of_ne (rows : Tables) (changes : List Change) (ht : t ≠ .promoCodes) :
    afterInsert s rows changes t = rows t := by
  refine List.foldlRecOn changes _ (motive := fun r : Tables => r t = rows t) rfl fun r hr c _ => ?_
  split
  · unfold updatePromoUsageCount
    rcases Row.ref "promo_code_id" _ with _ | promoCodeId
    · exact hr
    · exact (Function.update_of_ne ht _ _).trans hr
  · exact hr

/-! ## The rows of a DELETE -/

/-- What a deletion reaches is reached from one of the rows that it finds. -/
theorem reached_from (h : Reached Row.id Row.ref foreignKeys rows t found t' row) :
    ∃ r ∈ rows t, found r = true ∧
      Reached Row.id Row.ref foreignKeys rows t (fun row => decide (row = r)) t' row := by
  induction h with
  | @matched row hrow hfound => exact ⟨row, hrow, hfound, .matched hrow (decide_eq_true rfl)⟩
  | cascade hfk hdel _ hrow href ih =>
    obtain ⟨r, hr, hfound, hup⟩ := ih
    exact ⟨r, hr, hfound, .cascade hfk hdel hup hrow href⟩

/-- The keys by which a row refers to rows that a deletion takes, and which it clears. -/
theorem cleared_eq_self_of
    (h : ∀ fk ∈ foreignKeys, fk.child = t' → fk.onDelete = .setNull →
      ∀ parent, Reached Row.id Row.ref foreignKeys rows t found fk.parent parent →
        row.ref fk.column ≠ some parent.id) :
    rows.cleared t found t' row = row := by
  have hnone : (foreignKeys.filter fun fk => fk.child = t' ∧ fk.onDelete = .setNull ∧
      (rows fk.parent).any fun parent =>
        row.ref fk.column = some parent.id && rows.gone t found fk.parent parent) = [] := by
    refine List.filter_eq_nil_iff.mpr fun fk hfk hset => ?_
    obtain ⟨hchild, hnull, hany⟩ := of_decide_eq_true hset
    obtain ⟨parent, hparent, hgone⟩ := List.any_eq_true.mp hany
    obtain ⟨href, hgone⟩ := (Bool.and_eq_true _ _).mp hgone
    exact h fk hfk hchild hnull parent ((gone_iff hparent).mp hgone) (of_decide_eq_true href)
  unfold Tables.cleared
  rw [hnone, List.foldl_nil]

theorem Row.get_set_self {column : String} {value : Value} :
    (row.set column value).get column = value := by
  simp [Row.get, Row.set]

theorem Row.get_set_null {column column' : String} (h : row.get column = .null) :
    (row.set column' .null).get column = .null := by
  by_cases hc : column = column'
  · subst hc
    exact Row.get_set_self
  · rwa [Row.get_set_of_ne hc]

theorem cleared_ne {fk : ForeignKey Table String} (hfk : fk ∈ foreignKeys) (hchild : fk.child = t')
    (hnull : fk.onDelete = .setNull) {parent : Row}
    (hreached : Reached Row.id Row.ref foreignKeys rows t found fk.parent parent)
    (href : row.ref fk.column = some parent.id) : rows.cleared t found t' row ≠ row := by
  intro he
  have hmem : fk ∈ foreignKeys.filter fun fk => fk.child = t' ∧ fk.onDelete = .setNull ∧
      (rows fk.parent).any fun parent =>
        row.ref fk.column = some parent.id && rows.gone t found fk.parent parent := by
    refine List.mem_filter.mpr ⟨hfk, decide_eq_true ⟨hchild, hnull, ?_⟩⟩
    refine List.any_eq_true.mpr ⟨parent, hreached.mem, ?_⟩
    rw [(gone_iff hreached.mem).mpr hreached, Bool.and_true]
    exact decide_eq_true href
  -- Once the column is NULL, it stays so.
  have hcleared : ∀ (keys : List (ForeignKey Table String)) (r : Row),
      fk ∈ keys ∨ r.get fk.column = .null →
        (keys.foldl (fun r fk => r.set fk.column .null) r).get fk.column = .null := by
    intro keys
    induction keys with
    | nil => exact fun r h => h.resolve_left (List.not_mem_nil)
    | cons k keys ih =>
      intro r h
      refine ih _ ?_
      rcases h with h | h
      · rcases List.mem_cons.mp h with rfl | h
        · exact .inr Row.get_set_self
        · exact .inl h
      · exact .inr (Row.get_set_null h)
  have hget := hcleared _ row (.inl hmem)
  unfold Tables.cleared at he
  rw [he] at hget
  obtain ⟨hid, hne⟩ := Row.ref_eq_some href
  exact hne (hid.symm.trans hget)

/-- A row that no change of a DELETE is about stays as it is. -/
theorem mem_deleted_of (hrow : row ∈ rows t')
    (hc : ∀ c ∈ rows.deletions t found, ¬c.Hits t' row) : row ∈ rows.deleted t found t' := by
  have hstays : rows.gone t found t' row = false := by
    refine Bool.eq_false_iff.mpr fun hgone => ?_
    obtain ⟨r, hr, hfound, hreached⟩ := reached_from ((gone_iff hrow).mp hgone)
    have hpart : ∀ c ∈ (tables.flatMap fun t' => ((rows t').filter fun row' =>
        rows.gone t (· = r) t' row' && ¬(t' = t ∧ row' = r)).map (.delete t')) ++ [.delete t r],
        c ∈ rows.deletions t found := by
      intro c hmem
      refine List.mem_flatMap.mpr ⟨r, List.mem_filter.mpr ⟨hr, hfound⟩, ?_⟩
      rw [List.append_assoc]
      exact List.mem_append_right _ hmem
    by_cases hself : t' = t ∧ row = r
    · obtain ⟨rfl, rfl⟩ := hself
      exact hc _ (hpart _ (List.mem_append_right _ (List.mem_singleton.mpr rfl))) ⟨rfl, rfl⟩
    · refine hc (.delete t' row) (hpart _ (List.mem_append_left _ ?_)) ⟨rfl, rfl⟩
      refine List.mem_flatMap.mpr ⟨t', by cases t' <;> decide, List.mem_map.mpr ⟨row, ?_, rfl⟩⟩
      refine List.mem_filter.mpr ⟨hrow, ?_⟩
      rw [(gone_iff hrow).mpr hreached, Bool.true_and]
      exact decide_eq_true hself
  have hclear : rows.cleared t found t' row = row := by
    refine cleared_eq_self_of fun fk hfk hchild hnull parent hreached href => ?_
    obtain ⟨r, hr, hfound, hreached⟩ := reached_from hreached
    refine hc (.update t' row (rows.cleared t (· = r) t' row)) ?_ ⟨rfl, rfl⟩
    refine List.mem_flatMap.mpr ⟨r, List.mem_filter.mpr ⟨hr, hfound⟩, ?_⟩
    rw [List.append_assoc]
    refine List.mem_append_left _ ?_
    refine List.mem_flatMap.mpr ⟨t', by cases t' <;> decide, List.mem_map.mpr ⟨row, ?_, rfl⟩⟩
    refine List.mem_filter.mpr ⟨hrow, ?_⟩
    rw [hstays]
    exact decide_eq_true (cleared_ne hfk hchild hnull hreached href)
  unfold Tables.deleted
  refine List.mem_map.mpr ⟨row, List.mem_filter.mpr ⟨hrow, ?_⟩, hclear⟩
  rw [hstays]
  rfl

/-! ## One statement -/

section

variable [Postgres] [Collation] {db db' : Database} {q : Statement}

/-- The changes of a statement that runs. No trigger has refused them, and a row that none of them
is about is there afterwards. The usage counts of the promo codes are apart. -/
theorem exec_changes (h : exec s db q = some db') :
    ∃ changes : List Change, changes.any protectSuperAdminRole = false ∧
      (∀ t', t' ≠ .promoCodes → ∀ row ∈ db.rows t', (∀ c ∈ changes, ¬c.Hits t' row) →
        row ∈ db'.rows t') ∧
      ∀ t', t' ≠ .promoCodes → t' ≠ .adminAuditLogs → (∀ cond, q ≠ .delete q.table cond) →
        (∀ c ∈ changes, c.table = q.table ∧ s.Lets c) ∧
          ∀ row ∈ db'.rows t', row ∈ db.rows t' ∨
            ∃ c ∈ changes, c.table = t' ∧ c.new? = some row := by
  have hfinish : ∀ {rows : Tables} {changes : List Change}, rows.finish s changes = some db' →
      ∀ t', ∀ row ∈ rows t', row ∈ db'.rows t' := by
    intro rows changes hfinish t' row hrow
    obtain ⟨-, logs, hrows⟩ := finish_cases hfinish
    rw [hrows]
    exact mem_append.mpr (.inl hrow)
  cases q with
  | insert t new onConflict =>
    obtain ⟨new', -, h⟩ := Option.bind_eq_some_iff.mp h
    obtain ⟨⟨rows, changes⟩, hrows, h⟩ := Option.bind_eq_some_iff.mp h
    have hmade : Made s t db.rows (rows, changes) :=
      made_foldlM ⟨fun _ _ h _ => h, fun _ _ h => .inl h, fun _ h => (List.not_mem_nil h).elim⟩ hrows
    refine ⟨changes, (finish_cases h).1, fun t' ht row hrow hc => ?_, fun t' ht ht' _ => ?_⟩
    · refine hfinish h t' row ?_
      rw [afterInsert_of_ne _ _ ht]
      exact hmade.kept t' row hrow hc
    · refine ⟨hmade.lets, fun row hrow => hmade.fresh t' row ?_⟩
      rwa [finish_rows h ht', afterInsert_of_ne _ _ ht] at hrow
  | update t cond set =>
    unfold exec at h
    dsimp only at h
    split at h
    · cases h
    · rename_i hadmits
      rw [not_not] at hadmits
      refine ⟨_, (finish_cases h).1, fun t' _ row hrow hc => ?_, fun t' _ ht' _ => ⟨?_, ?_⟩⟩
      · refine hfinish h t' row (mem_modify hrow fun ht => if_neg fun hfound => ?_)
        subst ht
        exact hc _ (List.mem_map.mpr ⟨row, List.mem_filter.mpr ⟨hrow, hfound⟩, rfl⟩) ⟨rfl, rfl⟩
      · intro c hc
        have hnew := List.all_eq_true.mp hadmits c hc
        obtain ⟨row, hrow, rfl⟩ := List.mem_map.mp hc
        have hfinds := ((Bool.and_eq_true _ _).mp (List.mem_filter.mp hrow).2).1
        exact ⟨rfl, fun _ he => Option.some.inj he ▸ hfinds, fun _ he => Option.some.inj he ▸ hnew⟩
      · intro row hrow
        rw [finish_rows h ht'] at hrow
        rcases of_mem_modify hrow with hrow | ⟨rfl, old, hold, rfl⟩
        · exact .inl hrow
        · split
          · exact .inr ⟨_, List.mem_map.mpr ⟨old, List.mem_filter.mpr ⟨hold, ‹_›⟩, rfl⟩, rfl, rfl⟩
          · exact .inl hold
  | delete t cond =>
    refine ⟨_, (finish_cases h).1, fun t' _ row hrow hc => ?_, fun t' _ _ hq => ?_⟩
    · exact hfinish h t' row (mem_deleted_of hrow hc)
    · exact absurd rfl (hq cond)

end

end LmsBackend.InitialSchema
