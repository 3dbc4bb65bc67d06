import LmsBackend.Schema.InitialSchema
import LmsBackend.Schema.ProgramSequences

/-!
# The audit log only grows

No policy lets a statement change or remove a row of the log, and no trigger does. What
reaches the log is the cascade of its actor.
-/

open Store

namespace LmsBackend.InitialSchema

open Schema (Collation cCollation)

def Database.auditLogs [Postgres] (db : Database) : List Row := db.rows .adminAuditLogs

/-! ## Rows -/

theorem Row.get_set_of_ne {row : Row} {column column' : String} {value : Value}
    (h : column' ≠ column) : (row.set column value).get column' = row.get column' := by
  have hne : (column' == column) = false := beq_false_of_ne h
  unfold Row.get Row.set
  rw [List.lookup_cons, hne]
  congr 1
  induction row with
  | nil => rfl
  | cons cell rest ih =>
    obtain ⟨name, v⟩ := cell
    by_cases hname : name = column
    · subst hname
      simpa [List.lookup_cons, hne] using ih
    · by_cases hname' : column' = name
      · simp [hname, hname']
      · have : (column' == name) = false := beq_false_of_ne hname'
        simpa [List.lookup_cons, hname, this] using ih

theorem Row.ref_eq_some {row : Row} {column : String} {id : Value} (h : row.ref column = some id) :
    row.get column = id ∧ id ≠ .null := by
  unfold Row.ref at h
  split at h
  · cases h
  · cases h
    exact ⟨rfl, ‹_›⟩

section

variable [Postgres] {rows : Tables}

/-- Only one row has an id. -/
theorem Sound.eq_of_id_eq (h : Sound rows) {t : Table} {row row' : Row} (hrow : row ∈ rows t)
    (hrow' : row' ∈ rows t) (hid : row.id = row'.id) (hne : row.id ≠ .null) : row = row' := by
  have hindex : (t, ["id"]) ∈ uniqueIndexes :=
    List.mem_append_left _ (List.mem_map.mpr ⟨t, by cases t <;> decide, rfl⟩)
  have hnodup := h.unique _ hindex
  unfold indexed at hnodup
  rw [List.filter_map] at hnodup
  have hkept : ∀ r ∈ rows t, r.id ≠ .null →
      r ∈ (rows t).filter ((fun values => decide (Value.null ∉ values)) ∘
        fun row => ["id"].map row.get) := by
    intro r hr hr'
    refine List.mem_filter.mpr ⟨hr, ?_⟩
    simpa using fun h => hr' h.symm
  exact List.inj_on_of_nodup_map hnodup (hkept row hrow hne) (hkept row' hrow' (hid ▸ hne))
    (congrArg (fun v => [v]) hid)

/-! ## The end of a statement -/

theorem finish_cases {s : Session} {changes : List Change} {db : Database}
    (h : rows.finish s changes = some db) :
    changes.any protectSuperAdminRole = false ∧
      ∃ logs, db.rows = rows.append .adminAuditLogs logs := by
  unfold Tables.finish at h
  split at h
  · cases h
  · obtain ⟨logs, _, hcheck⟩ := Option.bind_eq_some_iff.mp h
    unfold Tables.check at hcheck
    split at hcheck
    · cases hcheck
      exact ⟨Bool.eq_false_iff.mpr ‹_›, logs, rfl⟩
    · cases hcheck

theorem finish_auditLogs {s : Session} {changes : List Change} {db : Database}
    (h : rows.finish s changes = some db) :
    ∃ logs, db.auditLogs = rows .adminAuditLogs ++ logs := by
  obtain ⟨_, logs, hrows⟩ := finish_cases h
  exact ⟨logs, by rw [Database.auditLogs, hrows, Tables.append, Function.update_self]⟩

theorem finish_rows {s : Session} {changes : List Change} {db : Database}
    (h : rows.finish s changes = some db) {t : Table} (ht : t ≠ .adminAuditLogs) :
    db.rows t = rows t := by
  obtain ⟨_, logs, hrows⟩ := finish_cases h
  rw [hrows, Tables.append, Function.update_of_ne ht]

end

/-! ## What a deletion reaches -/

theorem depth_lt : ∀ fk ∈ foreignKeys, fk.onDelete = .cascade →
    fk.parent.depth < fk.child.depth := by
  decide

theorem depth_lt_five (t : Table) : t.depth < 5 := by
  cases t <;> decide

/-- The one key by which the log refers to anything. -/
theorem auditLogs_key : ∀ fk ∈ foreignKeys, fk.child = .adminAuditLogs →
    fk = ⟨.adminAuditLogs, "actor_id", .adminUsers, .cascade⟩ := by
  decide

theorem adminUsers_key : ∀ fk ∈ foreignKeys, fk.child = .adminUsers →
    fk = ⟨.adminUsers, "created_by_id", .adminUsers, .setNull⟩ := by
  decide

section

variable {rows : Tables} {t : Table} {found : Row → Bool} {row : Row}

theorem gone_iff {t' : Table} (hrow : row ∈ rows t') :
    rows.gone t found t' row = true ↔
      Reached Row.id Row.ref foreignKeys rows t found t' row :=
  reaches_iff depth_lt hrow (depth_lt_five t')

theorem reached_adminUsers
    (h : Reached Row.id Row.ref foreignKeys rows t found .adminUsers row) :
    t = .adminUsers ∧ row ∈ rows .adminUsers ∧ found row = true := by
  generalize ht : Table.adminUsers = t' at h
  rcases h with ⟨hrow, hfound⟩ | ⟨hfk, hdel, _, _, _⟩
  · exact ⟨rfl, ht ▸ hrow, hfound⟩
  · rw [adminUsers_key _ hfk ht.symm] at hdel
    cases hdel

theorem reached_auditLogs
    (h : Reached Row.id Row.ref foreignKeys rows t found .adminAuditLogs row) :
    (t = .adminAuditLogs ∧ found row = true) ∨ t = .adminUsers ∧
      ∃ admin ∈ rows .adminUsers, found admin = true ∧ row.ref "actor_id" = some admin.id := by
  generalize ht : Table.adminAuditLogs = t' at h
  rcases h with ⟨_, hfound⟩ | ⟨hfk, _, hup, _, href⟩
  · exact .inl ⟨rfl, hfound⟩
  · rw [auditLogs_key _ hfk ht.symm] at hup href
    obtain ⟨ht, hadmin, hfound⟩ := reached_adminUsers hup
    exact .inr ⟨ht, _, hadmin, hfound, href⟩

theorem cleared_auditLogs : rows.cleared t found .adminAuditLogs row = row := by
  have hnone : (foreignKeys.filter fun fk => fk.child = .adminAuditLogs ∧
      fk.onDelete = .setNull ∧ (rows fk.parent).any fun parent =>
        row.ref fk.column = some parent.id && rows.gone t found fk.parent parent) = [] := by
    refine List.filter_eq_nil_iff.mpr fun fk hfk hset => ?_
    obtain ⟨hchild, hnull, _⟩ := of_decide_eq_true hset
    rw [auditLogs_key fk hfk hchild] at hnull
    cases hnull
  unfold Tables.cleared
  rw [hnone, List.foldl_nil]

theorem cleared_adminUsers_id : (rows.cleared t found .adminUsers row).id = row.id := by
  unfold Tables.cleared
  have hcolumn : ∀ fk ∈ foreignKeys.filter fun fk => fk.child = .adminUsers ∧
      fk.onDelete = .setNull ∧ (rows fk.parent).any fun parent =>
        row.ref fk.column = some parent.id && rows.gone t found fk.parent parent,
      fk.column = "created_by_id" := by
    intro fk hfk
    obtain ⟨hmem, hset⟩ := List.mem_filter.mp hfk
    rw [adminUsers_key fk hmem (of_decide_eq_true hset).1]
  refine List.foldlRecOn _ _ (motive := fun r : Row => r.id = row.id) rfl fun r hr fk hfk => ?_
  rw [hcolumn fk hfk]
  exact (Row.get_set_of_ne (by decide)).trans hr

theorem mem_deleted_auditLogs :
    row ∈ rows.deleted t found .adminAuditLogs ↔
      row ∈ rows .adminAuditLogs ∧ rows.gone t found .adminAuditLogs row = false := by
  unfold Tables.deleted
  rw [List.map_congr_left fun _ _ => cleared_auditLogs, List.map_id', List.mem_filter,
    Bool.not_eq_true']

end

/-! ## One statement -/

section

variable [Postgres]

/-- A DELETE takes no actor of a row of the log with it. One that finds a super_admin is refused. -/
def Database.Spares (db : Database) : Statement → Prop
  | .delete .adminUsers cond =>
    (∃ admin ∈ db.rows .adminUsers, cond admin = true ∧
      admin.get "role" = .text "super_admin") ∨
    ∀ admin ∈ db.rows .adminUsers, cond admin = true →
      ∀ log ∈ db.auditLogs, log.ref "actor_id" ≠ some admin.id
  | _ => True

variable {s : Session} {db db' : Database}

omit [Postgres] in
theorem modify_auditLogs_of_ne {rows : Tables} {t : Table} {f : Row → Row}
    (ht : t ≠ .adminAuditLogs) : rows.modify t f .adminAuditLogs = rows .adminAuditLogs :=
  Function.update_of_ne ht.symm _ _

omit [Postgres] in
theorem afterInsert_auditLogs (rows : Tables) (changes : List Change) :
    afterInsert s rows changes .adminAuditLogs = rows .adminAuditLogs := by
  refine List.foldlRecOn changes _
    (motive := fun r : Tables => r .adminAuditLogs = rows .adminAuditLogs) rfl fun r hr c _ => ?_
  split
  · unfold updatePromoUsageCount
    rcases Row.ref "promo_code_id" _ with _ | promoCodeId
    · exact hr
    · exact (modify_auditLogs_of_ne (by decide)).trans hr
  · exact hr

omit [Postgres] in
/-- An INSERT into the log can only add: no policy lets ON CONFLICT update a row of it. -/
theorem insertRow_keeps {t : Table} {onConflict : Option OnConflict} {new : Row}
    {done done' : Tables × List Change} (h : insertRow s t onConflict done new = some done') :
    ∀ row ∈ done.1 .adminAuditLogs, row ∈ done'.1 .adminAuditLogs := by
  intro row hrow
  unfold insertRow at h
  dsimp only at h
  split at h
  · cases h
  · split at h
    · cases h
      dsimp only [Tables.append]
      by_cases ht : t = .adminAuditLogs
      · subst ht
        rw [Function.update_self]
        exact List.mem_append_left _ hrow
      · rw [Function.update_of_ne (Ne.symm ht)]
        exact hrow
    · cases h
      exact hrow
    · split at h
      · cases h
        have hfinds := ((Bool.and_eq_true _ _).mp ‹(_ && _) = true›).1
        have ht : t ≠ .adminAuditLogs := by
          rintro rfl
          cases hfinds
        dsimp only
        rw [modify_auditLogs_of_ne ht]
        exact hrow
      · cases h

omit [Postgres] in
theorem foldlM_insertRow_keeps {t : Table} {onConflict : Option OnConflict} {new : List Row}
    {done done' : Tables × List Change}
    (h : new.foldlM (insertRow s t onConflict) done = some done') :
    ∀ row ∈ done.1 .adminAuditLogs, row ∈ done'.1 .adminAuditLogs := by
  induction new generalizing done with
  | nil =>
    cases h
    exact fun row hrow => hrow
  | cons r new ih =>
    intro row hrow
    rw [List.foldlM_cons] at h
    obtain ⟨next, hnext, hrest⟩ := Option.bind_eq_some_iff.mp h
    exact ih hrest row (insertRow_keeps hnext row hrow)

theorem insert_keeps [Collation] {t : Table} {new : List Row} {onConflict : Option OnConflict}
    (h : exec s db (.insert t new onConflict) = some db') :
    ∀ row ∈ db.auditLogs, row ∈ db'.auditLogs := by
  intro row hrow
  obtain ⟨new', _, h⟩ := Option.bind_eq_some_iff.mp h
  obtain ⟨⟨rows, changes⟩, hrows, h⟩ := Option.bind_eq_some_iff.mp h
  obtain ⟨logs, hlogs⟩ := finish_auditLogs h
  rw [hlogs, afterInsert_auditLogs]
  exact List.mem_append_left _ (foldlM_insertRow_keeps hrows row hrow)

theorem update_keeps [Collation] {t : Table} {cond : Row → Bool} {set : Row → Row}
    (h : exec s db (.update t cond set) = some db') :
    ∀ row ∈ db.auditLogs, row ∈ db'.auditLogs := by
  intro row hrow
  unfold exec at h
  dsimp only at h
  split at h
  · cases h
  · obtain ⟨logs, hlogs⟩ := finish_auditLogs h
    rw [hlogs]
    refine List.mem_append_left _ ?_
    by_cases ht : t = .adminAuditLogs
    · -- The policies let it find no row.
      subst ht
      rw [Tables.modify, Function.update_self]
      exact List.mem_map.mpr ⟨row, hrow, rfl⟩
    · rw [modify_auditLogs_of_ne ht]
      exact hrow

theorem delete_rows [Collation] {t : Table} {cond : Row → Bool}
    (h : exec s db (.delete t cond) = some db') :
    (db.rows.deletions t fun row => s.finds t row && cond row).any protectSuperAdminRole = false ∧
      (∀ row ∈ db.rows.deleted t (fun row => s.finds t row && cond row) .adminAuditLogs,
        row ∈ db'.auditLogs) ∧
      db'.rows .adminUsers =
        db.rows.deleted t (fun row => s.finds t row && cond row) .adminUsers := by
  obtain ⟨logs, hlogs⟩ := finish_auditLogs h
  refine ⟨(finish_cases h).1, fun row hrow => ?_, finish_rows h (by decide)⟩
  rw [hlogs]
  exact List.mem_append_left _ hrow

/-- The trigger sees every row that a DELETE finds. -/
theorem delete_no_superAdmin [Collation] {cond : Row → Bool}
    (h : exec s db (.delete .adminUsers cond) = some db') :
    ∀ admin ∈ db.rows .adminUsers, cond admin = true →
      admin.get "role" ≠ .text "super_admin" := by
  intro admin hadmin hcond hrole
  have hfound : (s.finds .adminUsers admin && cond admin) = true := by
    rw [hcond]
    rfl
  have hmem : Change.delete .adminUsers admin ∈
      db.rows.deletions .adminUsers fun row => s.finds .adminUsers row && cond row :=
    List.mem_flatMap.mpr ⟨admin, List.mem_filter.mpr ⟨hadmin, hfound⟩,
      List.mem_append_right _ (List.mem_singleton.mpr rfl)⟩
  have hraised : protectSuperAdminRole (.delete .adminUsers admin) = true := by
    simp [protectSuperAdminRole, Change.table, Change.old?, hrole]
  exact List.any_eq_false.mp (delete_rows h).1 _ hmem hraised

theorem delete_keeps [Collation] {t : Table} {cond : Row → Bool}
    (h : exec s db (.delete t cond) = some db') (hspares : db.Spares (.delete t cond)) :
    ∀ row ∈ db.auditLogs, row ∈ db'.auditLogs := by
  intro row hrow
  refine (delete_rows h).2.1 row (mem_deleted_auditLogs.mpr ⟨hrow, ?_⟩)
  refine Bool.eq_false_iff.mpr fun hgone => ?_
  rcases reached_auditLogs ((gone_iff hrow).mp hgone) with
    ⟨rfl, hfound⟩ | ⟨rfl, admin, hadmin, hfound, href⟩
  · cases hfound
  · have hcond : cond admin = true := ((Bool.and_eq_true _ _).mp hfound).2
    rcases hspares with ⟨admin', hadmin', hcond', hrole⟩ | hspares
    · exact delete_no_superAdmin h admin' hadmin' hcond' hrole
    · exact hspares admin hadmin hcond row hrow href

/-- The log loses the rows of an actor that a DELETE takes: the actor of a row has to be there. -/
theorem delete_loses [Collation] {cond : Row → Bool}
    (h : exec s db (.delete .adminUsers cond) = some db') {admin : Row}
    (hadmin : admin ∈ db.rows .adminUsers) (hcond : cond admin = true) {log : Row}
    (hlog : log.ref "actor_id" = some admin.id) : log ∉ db'.auditLogs := by
  intro hmem
  have hkey : (⟨.adminAuditLogs, "actor_id", .adminUsers, .cascade⟩ : ForeignKey Table String) ∈
      foreignKeys := by
    decide
  obtain ⟨actor, hactor, hid⟩ := List.mem_map.mp (db'.sound.refers _ hkey log hmem _ hlog)
  rw [show _ = _ from (delete_rows h).2.2] at hactor
  obtain ⟨old, hold, rfl⟩ := List.mem_map.mp hactor
  obtain ⟨hold, hstays⟩ := List.mem_filter.mp hold
  rw [cleared_adminUsers_id] at hid
  have hsame : old = admin := db.sound.eq_of_id_eq hold hadmin hid (hid ▸ (Row.ref_eq_some hlog).2)
  subst hsame
  rw [(gone_iff hold).mpr (.matched hold (by rw [hcond]; rfl))] at hstays
  cases hstays

theorem exec_keeps_iff [Collation] {q : Statement} (h : exec s db q = some db') :
    (∀ row ∈ db.auditLogs, row ∈ db'.auditLogs) ↔ db.Spares q := by
  rcases q with ⟨t, new, onConflict⟩ | ⟨t, cond, set⟩ | ⟨t, cond⟩
  · exact iff_of_true (insert_keeps h) trivial
  · exact iff_of_true (update_keeps h) trivial
  · refine ⟨fun hkeeps => ?_, delete_keeps h⟩
    by_cases ht : t = .adminUsers
    · subst ht
      exact .inr fun admin hadmin hcond log hlog href =>
        delete_loses h hadmin hcond href (hkeeps log hlog)
    · unfold Database.Spares
      split
      · cases ‹Statement.delete _ _ = Statement.delete _ _›
        exact absurd rfl ht
      · trivial

end

/-! ## Runs -/

section

variable [Postgres]

/-- Whoever sees the transaction sees each row of the log that is committed. -/
def State.Keeps (st : State) : Prop :=
  ∀ db, st.current = some db → ∀ row ∈ st.committed.auditLogs, row ∈ db.auditLogs

/-- A statement that runs spares the log. -/
def State.Spares (st : State) : Command → Prop
  | .statement _ q => ∀ db, st.current = some db → db.Spares q
  | _ => True

variable [Collation]

def AllSpare : State → List Command → Prop
  | _, [] => True
  | st, c :: cs => st.Spares c ∧ AllSpare (st.step c) cs

/-- A row of the log that is committed after some commands is there after any more. -/
def AppendOnly (db : Database) (cs : List Command) : Prop :=
  ∀ before after, before ++ after <+: cs →
    ∀ row ∈ ((State.start db).run before).committed.auditLogs,
      row ∈ ((State.start db).run (before ++ after)).committed.auditLogs

omit [Collation] in
theorem keeps_start (db : Database) : (State.start db).Keeps := by
  intro db' hcurrent row hrow
  cases hcurrent
  exact hrow

theorem step_keeps {st : State} {c : Command} (hspares : st.Spares c) (hkeeps : st.Keeps) :
    (st.step c).Keeps := by
  rcases c with ⟨s, q⟩ | _ | _
  · intro db' hcurrent row hrow
    obtain ⟨db, hdb, hexec⟩ := Option.bind_eq_some_iff.mp hcurrent
    exact (exec_keeps_iff hexec).mpr (hspares db hdb) row (hkeeps db hdb row hrow)
  · exact keeps_start _
  · exact keeps_start _

/-- A COMMIT makes a transaction last that has kept the log. -/
theorem step_committed {st : State} (c : Command) (hkeeps : st.Keeps) :
    ∀ row ∈ st.committed.auditLogs, row ∈ (st.step c).committed.auditLogs := by
  intro row hrow
  rcases c with ⟨s, q⟩ | _ | _
  · exact hrow
  · unfold State.step State.start
    rcases hcurrent : st.current with _ | db
    · exact hrow
    · exact hkeeps db hcurrent row hrow
  · exact hrow

theorem run_committed {st : State} {cs : List Command} (hspare : AllSpare st cs)
    (hkeeps : st.Keeps) :
    ∀ row ∈ st.committed.auditLogs, row ∈ (st.run cs).committed.auditLogs := by
  induction cs generalizing st with
  | nil => exact fun row hrow => hrow
  | cons c cs ih =>
    intro row hrow
    exact ih hspare.2 (step_keeps hspare.1 hkeeps) row (step_committed c hkeeps row hrow)

theorem run_keeps {st : State} {cs : List Command} (hspare : AllSpare st cs)
    (hkeeps : st.Keeps) : (st.run cs).Keeps := by
  induction cs generalizing st with
  | nil => exact hkeeps
  | cons c cs ih => exact ih hspare.2 (step_keeps hspare.1 hkeeps)

theorem allSpare_append {st : State} {cs cs' : List Command} :
    AllSpare st (cs ++ cs') ↔ AllSpare st cs ∧ AllSpare (st.run cs) cs' := by
  induction cs generalizing st with
  | nil => simp [AllSpare, State.run]
  | cons c cs ih =>
    rw [List.cons_append, AllSpare, AllSpare, ih, and_assoc]
    rfl

theorem appendOnly_of_allSpare {db : Database} {cs : List Command}
    (hspare : AllSpare (.start db) cs) : AppendOnly db cs := by
  rintro before after ⟨rest, rfl⟩ row hrow
  obtain ⟨hdone, _⟩ := allSpare_append.mp hspare
  obtain ⟨hbefore, hafter⟩ := allSpare_append.mp hdone
  have hsplit : (State.start db).run (before ++ after) = ((State.start db).run before).run after :=
    List.foldl_append
  rw [hsplit]
  exact run_committed hafter (run_keeps hbefore (keeps_start db)) row hrow

/-- The log is append-only in a run that takes no actor of it, and a statement that succeeds keeps
the log only if it takes none. -/
theorem append_only_iff :
    (∀ db cs, AllSpare (.start db) cs → AppendOnly db cs) ∧
    ∀ s db q db', exec s db q = some db' →
      ((∀ row ∈ db.auditLogs, row ∈ db'.auditLogs) ↔ db.Spares q) :=
  ⟨fun _ _ => appendOnly_of_allSpare, fun _ _ _ _ => exec_keeps_iff⟩

end

/-! ## An actor that is deleted -/

/-- For rows whose values are those that their columns take, without an actor in context. -/
@[reducible] def plainPostgres : Postgres where
  uuid := some
  inet := some
  toJsonb _ := "\x7b\x7d"
  takes _ _ := true

section

attribute [local instance] plainPostgres cCollation

def adminRow (id email role : String) : Row := [
  ("id", .uuid id),
  ("email", .text email),
  ("password_hash", .text "hash"),
  ("first_name", .text "Ada"),
  ("last_name", .text "Byron"),
  ("role", .text role),
  ("active", .bool true),
  ("created_at", .timestamp 0),
  ("updated_at", .timestamp 0),
  ("locale", .text "en")]

def ada : Row := adminRow "a" "ada@ios.test" "content_creator"
def eve : Row := adminRow "e" "eve@ios.test" "support_admin"

/-- What Ada has done. -/
def adasLog : Row := [
  ("id", .int 1),
  ("actor_id", .uuid "a"),
  ("action", .text "UPDATE"),
  ("table_name", .text "certificates"),
  ("record_id", .text "c"),
  ("old_data", .jsonb "\x7b\"id\": \"c\"\x7d"),
  ("new_data", .jsonb "\x7b\"id\": \"c\"\x7d"),
  ("created_at", .timestamp 0),
  ("updated_at", .timestamp 0)]

def withLog : Tables
  | .adminUsers => [ada, eve]
  | .adminAuditLogs => [adasLog]
  | _ => []

theorem withLog_sound : Sound withLog := by
  decide

def logged : Database := ⟨withLog, withLog_sound⟩

def noActor : Session := ⟨fun _ => none, 1, 2026, fun _ n => n + 2⟩

def deleteAdmin (id : String) : List Command :=
  [.statement noActor (.delete .adminUsers fun row => row.id = .uuid id), .commit]

theorem append_only_iff_eve : AppendOnly logged (deleteAdmin "e") :=
  append_only_iff.1 logged _
    ⟨fun _ hdb => by cases hdb; exact .inr (by decide), trivial, trivial⟩

theorem log_lost : ¬AppendOnly logged (deleteAdmin "a") := by
  intro h
  have hkept := h [] _ (List.prefix_refl _) adasLog (by decide)
  exact absurd hkept (by decide)

end

end LmsBackend.InitialSchema
