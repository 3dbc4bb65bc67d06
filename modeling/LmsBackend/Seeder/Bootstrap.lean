import LmsBackend.Auth.LastPassword
import LmsBackend.Seeder.SeederService

/-!
# One super admin for all workers

All workers may count before one of them inserts. The unique index on the email
lets one row in, so there is one super admin, unless another admin has the email
already. The login trims the email and makes it small. The seeder does not, but the
column cuts the spaces beyond its limit.
-/

open Async Store

namespace LmsBackend.Seeder

open Auth (AuthService.loginAdmin AuthService.issueAdminSession authSystem normalise)

/-! ## The phases of a worker -/

inductive Phase where
  | start
  | counted
  | hashed (passwordHash : String)
  | finished
  | refused

section

variable (creds : Credentials)

def Phase.next : Phase → (call : Call) → Resp call → Option Phase
  | .start, .adminsCountSuper, existing => some (if existing > 0 then .finished else .counted)
  | .counted, .bcryptHash plain, passwordHash =>
    if plain = creds.password then some (.hashed passwordHash) else none
  | .hashed passwordHash, .adminsInsertOrIgnore row, _ =>
    if row = creds.row passwordHash then some .finished else none
  | _, _, _ => none

def seeding : Monitor Call Resp Err Unit Unit Phase where
  start _ := .start
  next := Phase.next creds
  failed _ _ := .refused
  final
    | .ok _, g => g = .finished
    | .error _, g => g = .refused

/-- What an answer does to a phase. -/
inductive Seeds : Phase → (call : Call) → Resp call → Phase → Prop where
  | start {existing : Nat} :
      Seeds .start .adminsCountSuper existing (if existing > 0 then .finished else .counted)
  | counted {passwordHash} :
      Seeds .counted (.bcryptHash creds.password) passwordHash (.hashed passwordHash)
  | hashed {passwordHash} {affected : Nat} :
      Seeds (.hashed passwordHash) (.adminsInsertOrIgnore (creds.row passwordHash)) affected .finished

end

variable {creds : Credentials}

theorem seeds_of_next {g g' : Phase} {call : Call} {a : Resp call}
    (h : g.next creds call a = some g') : Seeds creds g call a g' := by
  unfold Phase.next at h
  split at h
  · cases h
    exact .start
  · split at h
    · rename_i hplain
      cases hplain
      cases h
      exact .counted
    · cases h
  · split at h
    · rename_i hrow
      cases hrow
      cases h
      exact .hashed
    · cases h
  · cases h

section

variable [Bcrypt] {env : Env} (hopen : env.gated = false)
  (hcreds : resolveCredentials env = .ok creds)

include hopen hcreds

end

/-! ## The table -/

/-- The credentials as the columns store them. -/
def Credentials.stored (creds : Credentials) : Option Credentials := do
  let email ← storeText (some 255) creds.email
  let firstName ← storeText (some 100) creds.firstName
  let lastName ← storeText (some 100) creds.lastName
  some ⟨email, creds.password, firstName, lastName⟩

theorem storedRow_eq (passwordHash : String) :
    storedRow (creds.row passwordHash) = creds.stored.map (·.row passwordHash) := by
  unfold storedRow Credentials.stored Credentials.row
  rcases storeText (some 255) creds.email with _ | email
  · rfl
  rcases storeText (some 100) creds.firstName with _ | firstName
  · rfl
  rcases storeText (some 100) creds.lastName with _ | lastName
  · rfl
  · rfl

theorem stored_password {stored : Credentials} (h : creds.stored = some stored) :
    stored.password = creds.password := by
  unfold Credentials.stored at h
  simp only [Option.bind_eq_bind, Option.bind_eq_some_iff] at h
  obtain ⟨email, -, firstName, -, lastName, -, hstored⟩ := h
  cases hstored
  rfl

def NoSuperAdmin (w : Auth.World) : Prop := ∀ a ∈ w.admins.rows, a.role ≠ .superAdmin

theorem countSuper_eq_zero {w : Auth.World} : countSuper w = 0 ↔ NoSuperAdmin w := by
  unfold countSuper NoSuperAdmin
  simp only [List.countP_eq_zero, decide_eq_true_eq, ne_eq]

/-- The row, when the database has made its id. -/
def Credentials.superAdmin [Bcrypt] (creds : Credentials) (id : Id) (salt : String) :
    Auth.AdminUser :=
  { creds.row (Bcrypt.hash salt creds.password) with id := id }

/-- No admin has the email that is stored. -/
def Free (creds : Credentials) (w : Auth.World) : Prop :=
  ∀ stored, creds.stored = some stored → ∀ a ∈ w.admins.rows, a.email ≠ stored.email

/-- The table with the row of the super admin. -/
structure Seeded [Bcrypt] (creds : Credentials) (w₀ w : Auth.World) : Prop where
  free : Free creds w₀
  row : ∃ stored, creds.stored = some stored ∧ ∃ id salt, w₀.admins.get id = none ∧
    w = { w₀ with admins := w₀.admins.put (stored.superAdmin id salt) }

section

variable [Bcrypt] {w₀ w w' : Auth.World}

theorem Seeded.mem (h : Seeded creds w₀ w) : ∃ stored, creds.stored = some stored ∧
    ∃ id salt, ∀ a, a ∈ w.admins.rows ↔ a = stored.superAdmin id salt ∨ a ∈ w₀.admins.rows := by
  obtain ⟨stored, hstored, id, salt, hnew, rfl⟩ := h.row
  refine ⟨stored, hstored, id, salt, fun a => ?_⟩
  rw [Table.mem_put]
  refine or_congr_right (and_iff_left_of_imp fun ha => ?_)
  exact Table.get_none_iff.mp hnew a ha

/-- The row is the only one with its email. -/
theorem Seeded.find (h : Seeded creds w₀ w) : ∃ stored, creds.stored = some stored ∧
    ∃ id salt, w.admins.rows.find? (·.email = stored.email) = some (stored.superAdmin id salt) := by
  obtain ⟨stored, hstored, id, salt, hmem⟩ := h.mem
  refine ⟨stored, hstored, id, salt, ?_⟩
  cases hfind : w.admins.rows.find? (·.email = stored.email) with
  | none =>
    have hnot := List.find?_eq_none.mp hfind _ ((hmem _).mpr (.inl rfl))
    exact absurd (decide_eq_true rfl) hnot
  | some a =>
    have hemail : a.email = stored.email := by simpa using List.find?_some hfind
    rcases (hmem a).mp (List.mem_of_find?_eq_some hfind) with rfl | ha
    · rfl
    · exact absurd hemail (h.free stored hstored a ha)

/-- What an INSERT leaves, and what it answers. -/
theorem insert_cases {i : Nat} {x : Choice} {passwordHash : String} {r : Except Err Nat}
    (h : exec i (.adminsInsertOrIgnore (creds.row passwordHash)) x w = some (w', r)) :
    (w' = w ∧ (∃ e, r = .error e) ∧ creds.stored = none) ∨
    (w' = w ∧ r = .ok 0 ∧ ¬Free creds w) ∨
    (r = .ok 1 ∧ Free creds w ∧ w.admins.get x = none ∧ ∃ stored, creds.stored = some stored ∧
      w' = { w with admins := w.admins.put { stored.row passwordHash with id := x } }) := by
  unfold exec at h
  simp only at h
  rw [storedRow_eq] at h
  split at h
  · cases h
  · rename_i hnew
    cases hstored : creds.stored with
    | none =>
      rw [hstored] at h
      cases h
      exact .inl ⟨rfl, ⟨_, rfl⟩, rfl⟩
    | some stored =>
      rw [hstored] at h
      simp only [Option.map_some] at h
      split at h
      · rename_i htaken
        cases h
        obtain ⟨a, ha, hemail⟩ := List.any_eq_true.mp htaken
        exact .inr (.inl ⟨rfl, rfl, fun hfree => hfree stored hstored a ha (of_decide_eq_true hemail)⟩)
      · rename_i htaken
        cases h
        refine .inr (.inr ⟨rfl, ?_, Option.not_isSome_iff_eq_none.mp hnew, stored, rfl, rfl⟩)
        rintro _ hsame a ha hemail
        cases hstored.symm.trans hsame
        exact htaken (List.any_eq_true.mpr ⟨a, ha, decide_eq_true hemail⟩)

/-! ## The invariant -/

/-- Nothing fails. -/
def noFailure : Guard Auth.World Call Resp Err Unit Unit Choice Empty := fun _ l => ∀ i, l ≠ .fail i

/-- What is known of a worker in its phase. -/
def Phase.Knows (creds : Credentials) (w₀ w : Auth.World) : Phase → Prop
  | .start | .counted => True
  | .hashed passwordHash => ∃ salt, passwordHash = Bcrypt.hash salt creds.password
  | .finished => Free creds w₀ → Seeded creds w₀ w
  | .refused => creds.stored = none

structure SeedOk (creds : Credentials) (w₀ : Auth.World) (c : Pool) : Prop where
  world : c.world = w₀ ∨ Seeded creds w₀ c.world
  knows : ∀ i g, (seeding creds).phase c i = some g → g.Knows creds w₀ c.world

theorem Phase.Knows.mono {g : Phase} (h : g.Knows creds w₀ w)
    (hw : Seeded creds w₀ w → Seeded creds w₀ w') : g.Knows creds w₀ w' := by
  unfold Phase.Knows at h ⊢
  split at h
  · trivial
  · trivial
  · exact h
  · exact fun hfree => hw (h hfree)
  · exact h

variable {env : Env} {c c' : Pool} {i : Nat} {call : Call} {r : Except Err (Resp call)}
  {g g' : Phase}

theorem SeedOk.next (hc : SeedOk creds w₀ c)
    (hm : Moved (seeding creds) (seederSystem env) c c' i call r g g')
    (hworld : c'.world = w₀ ∨ Seeded creds w₀ c'.world)
    (hkeep : Seeded creds w₀ c.world → Seeded creds w₀ c'.world)
    (hg : g'.Knows creds w₀ c'.world) : SeedOk creds w₀ c' := by
  refine ⟨hworld, fun j gj hj => ?_⟩
  rcases hm.phase_cases hj with ⟨-, rfl⟩ | ⟨-, hj⟩
  · exact hg
  · exact (hc.knows j gj hj).mono hkeep

theorem SeedOk.move (hnone : NoSuperAdmin w₀) (hc : SeedOk creds w₀ c)
    (hP : Reach.Allowed (seederSystem env) noFailure c i call r c'.world)
    (hm : Moved (seeding creds) (seederSystem env) c c' i call r g g') : SeedOk creds w₀ c' := by
  obtain ⟨x, hx⟩ : ∃ x, exec i call x c.world = some (c'.world, r) := by
    cases hP with
    | run hx => exact ⟨_, hx⟩
    | fail hr hx hP => exact absurd rfl (hP i)
  have hknown := hc.knows i g hm.before
  obtain ⟨a⟩ : Nonempty (Resp call) := by
    cases call with
    | bcryptHash plain => exact ⟨""⟩
    | _ => exact ⟨(0 : Nat)⟩
  obtain ⟨g₀, hg₀⟩ := hm.allowed a
  have hseeds := seeds_of_next hg₀
  have hnext := hm.next
  cases hseeds with
  | start =>
    obtain ⟨hworld, rfl⟩ := Prod.mk.inj (Option.some.inj hx)
    obtain rfl := Option.some.inj hnext
    refine hc.next hm (hworld ▸ hc.world) (fun h => hworld ▸ h) ?_
    by_cases hcount : 0 < countSuper c.world
    · rw [if_pos hcount, ← hworld]
      intro _
      rcases hc.world with hw | hseeded
      · rw [hw, countSuper_eq_zero.mpr hnone] at hcount
        exact absurd hcount (Nat.lt_irrefl 0)
      · exact hseeded
    · rw [if_neg hcount]
      trivial
  | counted =>
    obtain ⟨hworld, rfl⟩ := Prod.mk.inj (Option.some.inj hx)
    obtain rfl := Option.some.inj ((if_pos rfl).symm.trans hnext)
    exact hc.next hm (hworld ▸ hc.world) (fun h => hworld ▸ h) ⟨x, rfl⟩
  | @hashed passwordHash affected =>
    obtain ⟨salt, rfl⟩ := hknown
    rcases insert_cases hx with ⟨hworld, ⟨e, rfl⟩, hlong⟩ | ⟨hworld, rfl, htaken⟩ |
      ⟨rfl, hfree, hnew, stored, hstored, hworld⟩
    · obtain rfl := Option.some.inj hnext
      exact hc.next hm (hworld ▸ hc.world) (fun h => hworld ▸ h) hlong
    · obtain rfl := Option.some.inj ((if_pos rfl).symm.trans hnext)
      refine hc.next hm (hworld ▸ hc.world) (fun h => hworld ▸ h) fun hfree => ?_
      rw [hworld]
      rcases hc.world with hw | hseeded
      · exact absurd (hw ▸ hfree) htaken
      · exact hseeded
    · obtain rfl := Option.some.inj ((if_pos rfl).symm.trans hnext)
      have hstart : ¬Seeded creds w₀ c.world := by
        intro hseeded
        obtain ⟨stored', hstored', id, salt', hmem⟩ := hseeded.mem
        exact hfree stored' hstored' _ ((hmem _).mpr (.inl rfl)) rfl
      have hw := hc.world.resolve_right hstart
      have hseeded : Seeded creds w₀ c'.world := by
        refine ⟨hw ▸ hfree, stored, hstored, x, salt, hw ▸ hnew, ?_⟩
        rw [hworld, hw, Credentials.superAdmin, stored_password hstored]
      exact hc.next hm (.inr hseeded) (fun h => absurd h hstart) fun _ => hseeded

theorem SeedOk.start (hc : SeedOk creds w₀ c) (hlog : c.LogOk) :
    SeedOk creds w₀ (c.start (seederSystem env) [()] c.world) := by
  refine ⟨hc.world, fun j gj hj => ?_⟩
  rcases Monitor.phase_start_cases hlog hj with hj | ⟨-, t, -, rfl⟩
  · exact hc.knows j gj hj
  · trivial

section

variable [Auth.Jwt] [Auth.JsString] [Auth.AuthConfig] {f : Option (Fault Auth.World Auth.Call)}
  {email password : String}

end

end

/-! ## Two workers -/

section

attribute [local instance] Exams.plainBcrypt Auth.plainJwt Auth.development

/-- `toLowerCase` of texts that are ASCII. -/
@[reducible] def asciiString : Auth.JsString where
  trim s := s
  toLowerCase s := String.ofList (s.toList.map Char.toLower)

attribute [local instance] asciiString

instance : ∀ (c : Pool) l, Decidable (noFailure c l)
  | _, .fail i => .isFalse fun h => h i rfl
  | _, .spawn _ | _, .run _ _ | _, .env _ => .isTrue nofun

end

end LmsBackend.Seeder
