import LmsBackend.Async.Monitor
import LmsBackend.Auth.World
import LmsBackend.Store.Columns

/-!
# `SeederService`

Each worker runs `onApplicationBootstrap` when it starts. It counts the rows of
super admins and inserts one if there is none. Log lines are left out.
-/

open Async Store

namespace LmsBackend.Seeder

open Auth (AdminUser AdminRole World)

inductive Err where
  | internal (message : String)
  | infra (message : String)
  deriving DecidableEq, Repr

/-! ## The environment -/

inductive NodeEnv where
  | development
  | staging
  | production
  | test
  deriving DecidableEq, Repr

def NodeEnv.text : NodeEnv → String
  | development => "development"
  | staging => "staging"
  | production => "production"
  | test => "test"

/-- The settings that the seeder reads. Those that are missing are `none`. -/
structure Env where
  nodeEnv : NodeEnv
  bootstrapSuperAdmin : Option String
  email : Option String
  password : Option String
  firstName : Option String
  lastName : Option String
  deriving DecidableEq, Repr

structure Credentials where
  email : String
  password : String
  firstName : String
  lastName : String
  deriving DecidableEq, Repr

def devDefaults : Credentials where
  email := "admin@ios.local"
  password := "DevAdmin@123!"
  firstName := "IOS"
  lastName := "Admin"

/-- Production does nothing without the flag. -/
def Env.gated (env : Env) : Bool :=
  env.nodeEnv = .production ∧ env.bootstrapSuperAdmin ≠ some "true"

def refusal (env : NodeEnv) (email password : String) : Err :=
  .internal (s!"Refusing to bootstrap super_admin on {env.text} without " ++
    s!"{email} and {password} env vars.")

/-- A text that is neither missing nor empty. -/
def truthy (s : Option String) : Option String := s.filter (· ≠ "")

def resolveCredentials (env : Env) : Except Err Credentials :=
  if env.nodeEnv = .staging ∨ env.nodeEnv = .production then
    match truthy env.email, truthy env.password with
    | some email, some password =>
      match truthy env.firstName, truthy env.lastName with
      | some firstName, some lastName => .ok ⟨email, password, firstName, lastName⟩
      | _, _ => .error (refusal env.nodeEnv
          "BOOTSTRAP_SUPER_ADMIN_FIRST_NAME" "BOOTSTRAP_SUPER_ADMIN_LAST_NAME")
    | _, _ => .error (refusal env.nodeEnv
        "BOOTSTRAP_SUPER_ADMIN_EMAIL" "BOOTSTRAP_SUPER_ADMIN_PASSWORD")
  else .ok
    { email := env.email.getD devDefaults.email
      password := env.password.getD devDefaults.password
      firstName := env.firstName.getD devDefaults.firstName
      lastName := env.lastName.getD devDefaults.lastName }

/-! ## Calls -/

inductive Call where
  /-- `COUNT(*) WHERE role = 'super_admin'` -/
  | adminsCountSuper
  | bcryptHash (plain : String)
  /-- `INSERT ... ON CONFLICT DO NOTHING`. The database makes the id. The answer is the number of
  rows. -/
  | adminsInsertOrIgnore (row : AdminUser)
  deriving DecidableEq, Repr

@[reducible] def Resp : Call → Type
  | .adminsCountSuper | .adminsInsertOrIgnore _ => Nat
  | .bcryptHash _ => String

abbrev Choice := String

def countSuper (w : World) : Nat := w.admins.rows.countP fun a => a.role = .superAdmin

/-- The row as its columns store it. A hash of bcrypt has room, and the other columns are not texts
of the environment. -/
def storedRow (row : AdminUser) : Option AdminUser := do
  let email ← storeText (some 255) row.email
  let firstName ← storeText (some 100) row.firstName
  let lastName ← storeText (some 100) row.lastName
  some { row with email := email, firstName := firstName, lastName := lastName }

def exec [Bcrypt] (_ : Nat) (c : Call) (x : Choice) (w : World) :
    Option (World × Except Err (Resp c)) :=
  match c with
  | .adminsCountSuper => some (w, .ok (countSuper w))
  | .bcryptHash plain => some (w, .ok (Bcrypt.hash x plain))
  | .adminsInsertOrIgnore row =>
    if (w.admins.get x).isSome then none
    else match storedRow row with
      | none => some (w, .error (.infra "value too long for type character varying"))
      | some row =>
        if w.admins.rows.any (·.email = row.email) then some (w, .ok (0 : Nat))
        else some ({ w with admins := w.admins.put { row with id := x } }, .ok (1 : Nat))

def reject (_ : Nat) (c : Call) (w : World) : Option (World × Err) :=
  match c with
  | .bcryptHash _ => none
  | _ => some (w, .infra "connection lost")

/-! ## The bootstrap -/

abbrev Promise := Prog Call Resp Err

def await (c : Call) : Promise (Resp c) := Prog.await c

/-- The row of the super admin. The locale is the default of its column. -/
def Credentials.row (creds : Credentials) (passwordHash : String) : AdminUser where
  id := ""
  email := creds.email
  passwordHash := passwordHash
  firstName := creds.firstName
  lastName := creds.lastName
  role := .superAdmin
  locale := "en"
  active := true

def onApplicationBootstrap (env : Env) : Promise Unit := do
  if env.gated then pure ()
  else
    let existing ← await .adminsCountSuper
    if existing > 0 then pure ()
    else
      match resolveCredentials env with
      | .error e => throw e
      | .ok creds =>
        let passwordHash ← await (.bcryptHash creds.password)
        let _ ← await (.adminsInsertOrIgnore (creds.row passwordHash))

/-- The workers that start with this environment. -/
def seederSystem [Bcrypt] (env : Env) : System World Call Resp Err Unit Unit Choice Empty where
  prog _ := onApplicationBootstrap env
  client _ := true
  exec := exec
  reject := reject
  env v _ := v.elim

abbrev Pool := Config World Call Resp Err Unit Unit

end LmsBackend.Seeder
