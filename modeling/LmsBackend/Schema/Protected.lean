import LmsBackend.Schema.Changes

/-!
# Rows that no statement reaches

Whatever the application role runs: a super_admin stays as it is, and the rows that a policy isolates
for one user are the same after the statements of others.
-/

open Store

namespace LmsBackend.InitialSchema

open Rls (currentUserId)
open Schema (Collation cCollation)

/-! ## Runs -/

section

variable [Postgres] [Collation]

/-- What each statement keeps between the databases before and after it, a run keeps between those
that are committed. -/
theorem State.run_keeps {R : Database → Database → Prop} (hrefl : ∀ db, R db db)
    (htrans : ∀ {db₁ db₂ db₃}, R db₁ db₂ → R db₂ db₃ → R db₁ db₃) {k : State} {cs : List Command}
    (hexec : ∀ s q db db', .statement s q ∈ cs → exec s db q = some db' → R db db')
    (hopen : ∀ db, k.current = some db → R k.committed db) :
    R k.committed (k.run cs).committed ∧
      ∀ db, (k.run cs).current = some db → R (k.run cs).committed db := by
  induction cs generalizing k with
  | nil => exact ⟨hrefl _, hopen⟩
  | cons c cs ih =>
    have hstart : ∀ db, (State.start db).current = some db → R (State.start db).committed db :=
      fun db _ => hrefl db
    have hrest : ∀ s q db db', .statement s q ∈ cs → exec s db q = some db' → R db db' :=
      fun s q db db' hmem => hexec s q db db' (List.mem_cons_of_mem _ hmem)
    have hstep : R k.committed (k.step c).committed ∧
        ∀ db, (k.step c).current = some db → R (k.step c).committed db := by
      rcases c with ⟨s, q⟩ | _ | _
      · refine ⟨hrefl _, fun db' hdb' => ?_⟩
        obtain ⟨db, hdb, hq⟩ := Option.bind_eq_some_iff.mp hdb'
        exact htrans (hopen db hdb) (hexec s q db db' List.mem_cons_self hq)
      · refine ⟨?_, fun db hdb => Option.some.inj hdb ▸ hrefl _⟩
        unfold State.step State.start
        rcases hcurrent : k.current with _ | db
        · exact hrefl _
        · exact hopen db hcurrent
      · exact ⟨hrefl _, fun db hdb => Option.some.inj hdb ▸ hrefl _⟩
    obtain ⟨hrun, hcurrent⟩ := ih hrest hstep.2
    exact ⟨htrans hstep.1 hrun, hcurrent⟩

end

/-! ## The super_admin -/

def Row.isSuperAdmin (row : Row) : Bool := row.get "role" = .text "super_admin"

section

variable [Postgres] [Collation] {s : Session} {db db' : Database} {q : Statement}

/-- The trigger refuses every change of the row, also one that a referential action makes. -/
theorem exec_superAdmin (h : exec s db q = some db') :
    ∀ row ∈ db.rows .adminUsers, row.isSuperAdmin = true → row ∈ db'.rows .adminUsers := by
  intro row hrow hsuper
  obtain ⟨changes, hallowed, hkept, -⟩ := exec_changes h
  refine hkept .adminUsers (by decide) row hrow fun c hc hhits => ?_
  have hraised : protectSuperAdminRole c = true := by
    rw [protectSuperAdminRole, hhits.1, hhits.2]
    exact hsuper
  exact List.any_eq_false.mp hallowed c hc hraised

/-- The super_admins of the one are there in the other, with the same columns. -/
def KeepsSuperAdmins (db db' : Database) : Prop :=
  ∀ row ∈ db.rows .adminUsers, row.isSuperAdmin = true → row ∈ db'.rows .adminUsers

theorem run_superAdmins {k : State} {cs : List Command}
    (hopen : ∀ db, k.current = some db → KeepsSuperAdmins k.committed db) :
    KeepsSuperAdmins k.committed (k.run cs).committed ∧
      ∀ db, (k.run cs).current = some db → KeepsSuperAdmins (k.run cs).committed db :=
  State.run_keeps (fun _ _ hrow _ => hrow) (fun h h' row hrow hs => h' row (h row hrow hs) hs)
    (fun _ _ _ _ _ hq => exec_superAdmin hq) hopen

/-- A super_admin that is committed at some time is there ever after, with the same columns. -/
theorem super_admin_kept (db : Database) (before after : List Command) :
    ∀ row ∈ ((State.start db).run before).committed.rows .adminUsers, row.isSuperAdmin = true →
      row ∈ ((State.start db).run (before ++ after)).committed.rows .adminUsers := by
  have hopen : ∀ db', (State.start db).current = some db' →
      KeepsSuperAdmins (State.start db).committed db' :=
    fun db' hdb' => Option.some.inj hdb' ▸ fun _ hrow _ => hrow
  have hbefore : ∀ db', ((State.start db).run before).current = some db' →
      KeepsSuperAdmins ((State.start db).run before).committed db' := (run_superAdmins hopen).2
  have hsplit : (State.start db).run (before ++ after) = ((State.start db).run before).run after :=
    List.foldl_append
  rw [hsplit]
  exact (run_superAdmins hbefore).1

end

/-! ## Rows of one user -/

/-- The tables from which a referential action leads to rows that a policy isolates. -/
def upstream : List Table := [.users, .certificates, .exams, .examAttempts, .promoCodes]

theorem upstream_closed : ∀ fk ∈ foreignKeys,
    fk.child ∈ isolated ∨ fk.onDelete = .cascade ∧ fk.child ∈ upstream → fk.parent ∈ upstream := by
  decide

theorem reached_upstream {rows : Tables} {t t' : Table} {found : Row → Bool} {row : Row}
    (h : Reached Row.id Row.ref foreignKeys rows t found t' row) (ht : t' ∈ upstream) :
    t ∈ upstream := by
  induction h with
  | matched => exact ht
  | cascade hfk hdel _ _ _ ih => exact ih (upstream_closed _ hfk (.inr ⟨hdel, ht⟩))

def Row.ofUser (userId : String) (row : Row) : Prop := row.get "user_id" = .uuid userId

/-- The statement is of another user, and no referential action leads from it to what a policy
isolates. -/
def Command.OfOthers (userId : String) : Command → Prop
  | .statement s q => s.setting currentUserId ≠ some userId ∧
    ∀ t cond, q = .delete t cond → t ∉ upstream
  | _ => True

/-- The isolated rows of the user are the same. -/
def SameFor [Postgres] (userId : String) (db db' : Database) : Prop :=
  ∀ t ∈ isolated, ∀ row : Row, row.ofUser userId → (row ∈ db'.rows t ↔ row ∈ db.rows t)

section

variable {s : Session} {userId : String} {row : Row}

theorem not_ofUser (hs : s.setting currentUserId ≠ some userId) (h : s.owns row = true) :
    ¬row.ofUser userId := by
  intro huser
  unfold Session.owns at h
  split at h
  · cases h
  · rename_i other hother
    obtain ⟨hsetting, -⟩ := Option.filter_eq_some_iff.mp hother
    rw [Row.ofUser, of_decide_eq_true h] at huser
    cases huser
    exact hs hsetting

theorem finds_isolated {t : Table} (ht : t ∈ isolated) : s.finds t row = s.owns row := by
  unfold Session.finds
  rw [if_neg (by rintro rfl; revert ht; decide), if_pos ht]

theorem admits_isolated {t : Table} (ht : t ∈ isolated) : s.admits t row = s.owns row :=
  if_pos ht

theorem isolated_ne {t : Table} (ht : t ∈ isolated) : t ≠ .promoCodes ∧ t ≠ .adminAuditLogs := by
  revert ht
  cases t <;> decide

variable [Postgres] [Collation] {db db' : Database} {q : Statement}

/-- A DELETE takes only rows that the session owns, and clears none. -/
theorem delete_ofUser {t : Table} {cond : Row → Bool} (h : exec s db (.delete t cond) = some db')
    (hs : s.setting currentUserId ≠ some userId) (ht : t ∉ upstream) : SameFor userId db db' := by
  intro t' ht' row huser
  have hclear : ∀ row : Row, db.rows.cleared t (fun row => s.finds t row && cond row) t' row = row := by
    intro row
    refine cleared_eq_self_of fun fk hfk hchild _ parent hreached _ => ht ?_
    exact reached_upstream hreached (upstream_closed fk hfk (.inl (hchild ▸ ht')))
  have hstays : ∀ row ∈ db.rows t', row.ofUser userId →
      db.rows.gone t (fun row => s.finds t row && cond row) t' row = false := by
    intro row hrow huser
    refine Bool.eq_false_iff.mpr fun hgone => ?_
    rcases (gone_iff hrow).mp hgone with ⟨-, hfound⟩ | ⟨hfk, hdel, hup, -, -⟩
    · have hfinds := ((Bool.and_eq_true _ _).mp hfound).1
      rw [finds_isolated ht'] at hfinds
      exact not_ofUser hs hfinds huser
    · exact ht (reached_upstream hup (upstream_closed _ hfk (.inl ht')))
  rw [finish_rows h (isolated_ne ht').2]
  unfold Tables.deleted
  rw [List.map_congr_left fun _ _ => hclear _, List.map_id', List.mem_filter]
  refine ⟨fun hmem => hmem.1, fun hmem => ⟨hmem, ?_⟩⟩
  rw [hstays row hmem huser]
  rfl

theorem exec_ofUser (h : exec s db q = some db') (hq : (Command.statement s q).OfOthers userId) :
    SameFor userId db db' := by
  obtain ⟨hs, hdelete⟩ := hq
  by_cases hkind : ∃ t cond, q = .delete t cond
  · obtain ⟨t, cond, rfl⟩ := hkind
    exact delete_ofUser h hs (hdelete t cond rfl)
  · intro t ht row huser
    obtain ⟨hpromo, hlogs⟩ := isolated_ne ht
    obtain ⟨changes, -, hkept, hfresh⟩ := exec_changes h
    obtain ⟨hlets, hfresh⟩ := hfresh t hpromo hlogs fun cond he => hkind ⟨_, cond, he⟩
    refine ⟨fun hmem => ?_, fun hmem => ?_⟩
    · rcases hfresh row hmem with hold | ⟨c, hc, rfl, hnew⟩
      · exact hold
      · have hadmits := (hlets c hc).2.2 row hnew
        rw [admits_isolated ht] at hadmits
        exact absurd huser (not_ofUser hs hadmits)
    · refine hkept t hpromo row hmem fun c hc hhits => ?_
      have hfinds := (hlets c hc).2.1 row hhits.2
      rw [hhits.1, finds_isolated ht] at hfinds
      exact not_ofUser hs hfinds huser

/-- Whatever statements run for others, in transactions that commit or not: the isolated tables have
the same rows of a user. -/
theorem others_leave_rows (cs : List Command) (hcs : ∀ c ∈ cs, c.OfOthers userId) :
    SameFor userId db ((State.start db).run cs).committed :=
  (State.run_keeps (R := SameFor userId) (fun _ _ _ _ _ => .rfl)
    (fun h h' t ht row hu => (h' t ht row hu).trans (h t ht row hu)) (k := .start db)
    (fun _ _ _ _ hmem hq => exec_ofUser hq (hcs _ hmem))
    fun _ hdb' => Option.some.inj hdb' ▸ fun _ _ _ _ => .rfl).1

end

/-! ## Runs of the application role -/

section

attribute [local instance] plainPostgres cCollation

def root : Row := adminRow "r" "root@ios.test" "super_admin"

def userRow (id email : String) : Row := [
  ("id", .uuid id),
  ("email", .text email),
  ("locale", .text "en")]

def purchaseRow (id userId : String) : Row := [
  ("id", .uuid id),
  ("user_id", .uuid userId),
  ("cert_id", .uuid "c")]

def enrolled : Tables
  | .users => [userRow "u" "u@ios.test", userRow "v" "v@ios.test"]
  | .adminUsers => [eve]
  | .certificates => [[("id", .uuid "c"), ("program_code", .text "PSM")]]
  | .studentPurchases => [purchaseRow "p" "u", purchaseRow "q" "v"]
  | _ => []

theorem enrolled_sound : Sound enrolled := by
  decide

def campus : Database := ⟨enrolled, enrolled_sound⟩

def asStudent (userId : String) : Session where
  setting name := if name = currentUserId then some userId else none
  now := 1
  year := 2026
  nextval _ n := n

/-- A super_admin is hired. Then one statement demotes all administrators, and one deletes them. -/
theorem super_admin_kept_hire :
    root ∈ ((State.start campus).run ([.statement noActor (.insert .adminUsers [root] none), .commit] ++
      [.statement noActor (.update .adminUsers (fun _ => true) (·.set "role" (.text "support_admin"))),
        .commit, .statement noActor (.delete .adminUsers fun _ => true), .commit])).committed.rows
        .adminUsers :=
  super_admin_kept campus _ _ root (by decide) (by decide)

/-- "u" deletes all purchases that there are to find, and buys the certificate for "v". -/
def grab : List Command := [
  .statement (asStudent "u") (.delete .studentPurchases fun _ => true), .commit,
  .statement (asStudent "u") (.insert .studentPurchases [purchaseRow "x" "v"] none), .commit]

theorem others_leave_rows_grab :
    ((State.start campus).run grab).committed.rows .studentPurchases = [purchaseRow "q" "v"] ∧
      SameFor "v" campus ((State.start campus).run grab).committed := by
  refine ⟨by decide, others_leave_rows _ fun c hc => ?_⟩
  simp only [grab, List.mem_cons, List.not_mem_nil, or_false] at hc
  rcases hc with rfl | rfl | rfl | rfl
  · refine ⟨by decide, ?_⟩
    rintro t cond ⟨⟩
    decide
  · trivial
  · exact ⟨by decide, nofun⟩
  · trivial

end

end LmsBackend.InitialSchema
