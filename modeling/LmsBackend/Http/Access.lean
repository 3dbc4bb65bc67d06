import LmsBackend.Auth.Sessions
import LmsBackend.Http.Routes

/-!
# What a session gives access to

The access token of a session takes its holder to the handlers that the roles of the account
allow, for as long as it is valid, and names the account to them.
-/

open Async Store

namespace LmsBackend.Auth

/-- What `JwtStrategy` makes of the claims of the account. -/
def Account.requestUser : Account → AuthenticatedUser
  | student row => ⟨some row.id, none, some .student, none, some row.email, some row.locale⟩
  | admin row => ⟨none, some row.id, some .admin, some row.role.text, some row.email, some "en"⟩

theorem AdminRole.text_inj {role role' : AdminRole} (h : role.text = role'.text) : role = role' := by
  cases role <;> cases role' <;> first | rfl | (exact absurd h (by decide))

theorem AdminRole.text_ne_empty (role : AdminRole) : role.text ≠ "" := by
  cases role <;> decide

theorem JwtStrategy.validate_claims (a : Account) :
    validate a.claims =
      if a.subject.1 = "" then .error "Invalid token payload" else .ok a.requestUser := by
  cases a with
  | student row =>
    by_cases h : row.id = "" <;>
      simp [validate, Account.claims, Account.subject, Account.requestUser, h]
  | admin row =>
    by_cases h : row.id = "" <;>
      simp [validate, Account.claims, Account.subject, Account.requestUser, h]

end LmsBackend.Auth

namespace LmsBackend.Http

open Auth

/-- The roles that a route lists allow the account. Students have no role. -/
def Route.Allows (r : Route) (a : Account) : Prop :=
  r.roles = [] ∨ ∃ row, a = .admin row ∧ (row.role = .superAdmin ∨ row.role ∈ r.roles)

theorem roles_guarded : ∀ r ∈ routes, r.isPublic = false →
    r.guards = [.roles] ∨ r.guards = [] ∧ r.roles = [] := by
  decide

theorem admin_roles : ∀ r ∈ routes, ∀ segment ∈ r.path.head?, segment.accepts "admin" = true →
    r.isPublic = false ∧ r.roles ≠ [] := by
  decide

section

variable [JwtVerify] [AuthConfig]

/-- The guard of the roles decides for every route that is not public: without roles it lets all
users pass, as no guard does. -/
theorem activate_eq {r : Route} (hr : r ∈ routes) (hprivate : r.isPublic = false) (req : Request) :
    activate r req = (JwtAuthGuard.canActivate r req).bind (RolesGuard.canActivate r) := by
  unfold activate
  rcases roles_guarded r hr hprivate with hguards | ⟨hguards, hroles⟩
  · rw [hguards]
    cases JwtAuthGuard.canActivate r req with
    | error e => rfl
    | ok user =>
      simp only [List.foldlM_cons, List.foldlM_nil, bind_pure]
      rfl
  · rw [hguards]
    cases JwtAuthGuard.canActivate r req with
    | error e => rfl
    | ok user =>
      show Except.ok user = RolesGuard.canActivate r user
      rw [RolesGuard.canActivate, if_pos hroles]

omit [JwtVerify] [AuthConfig] in
theorem canActivate_account (r : Route) (a : Account) :
    RolesGuard.canActivate r (some (.user a.requestUser)) = .ok (some (.user a.requestUser)) ∧
        r.Allows a ∨
      RolesGuard.canActivate r (some (.user a.requestUser)) =
        .error (.forbidden "Insufficient permissions") ∧ ¬r.Allows a := by
  unfold RolesGuard.canActivate Route.Allows
  by_cases hroles : r.roles = []
  · exact .inl ⟨if_pos hroles, .inl hroles⟩
  · rw [if_neg hroles]
    cases a with
    | student row => exact .inr ⟨rfl, by simp [hroles]⟩
    | admin row =>
      have hrole : ((some (Principal.user (Account.admin row).requestUser)).bind (·.role)).filter
          (· ≠ "") = some row.role.text :=
        Option.filter_eq_some_iff.mpr ⟨rfl, by simpa using row.role.text_ne_empty⟩
      have hmatch : (row.role.text = AdminRole.superAdmin.text ∨
          row.role.text ∈ r.roles.map AdminRole.text) ↔
          row.role = .superAdmin ∨ row.role ∈ r.roles := by
        constructor
        · rintro (h | h)
          · exact .inl (AdminRole.text_inj h)
          · obtain ⟨role, hmem, heq⟩ := List.mem_map.mp h
            exact .inr (AdminRole.text_inj heq ▸ hmem)
        · rintro (h | h)
          · exact .inl (congrArg AdminRole.text h)
          · exact .inr (List.mem_map_of_mem h)
      rw [hrole]
      by_cases hallowed : row.role = .superAdmin ∨ row.role ∈ r.roles
      · exact .inl ⟨if_pos (hmatch.mpr hallowed), .inr ⟨row, rfl, hallowed⟩⟩
      · refine .inr ⟨if_neg (mt hmatch.mp hallowed), ?_⟩
        rintro (h | ⟨row', heq, h⟩)
        · exact hroles h
        · cases heq
          exact hallowed h

theorem activate_session (hexact : JwtVerify.Exact) {r : Route} (hr : r ∈ routes)
    (hprivate : r.isPublic = false) (a : Account) (iat : Time) {req : Request}
    (hbearer : req.bearer = some (Jwt.sign (.access a.claims) AuthConfig.jwtSecret
      AuthConfig.accessTtlSec iat)) (p : Option Principal) :
    activate r req = .ok p ↔ p = some (.user a.requestUser) ∧
      req.now / 1000 < iat / 1000 + AuthConfig.accessTtlSec ∧ a.subject.1 ≠ "" ∧ r.Allows a := by
  have hauth : JwtAuthGuard.canActivate r req =
      if req.now / 1000 < iat / 1000 + AuthConfig.accessTtlSec then
        if a.subject.1 = "" then .error (.unauthorized "Invalid token payload")
        else .ok (some (.user a.requestUser))
      else .error (.unauthorized "Unauthorized") := by
    unfold JwtAuthGuard.canActivate JwtStrategy.authenticate
    rw [hprivate, hbearer]
    have hkey : SameKey AuthConfig.jwtSecret AuthConfig.jwtSecret := rfl
    simp only [Bool.false_eq_true, if_false, hexact.verify, hkey, true_and]
    by_cases hlive : req.now / 1000 < iat / 1000 + AuthConfig.accessTtlSec
    · rw [if_pos hlive, if_pos hlive]
      have hvalidate := JwtStrategy.validate_claims a
      simp only [JwtPayload.claims] at hvalidate ⊢
      rw [hvalidate]
      by_cases hsub : a.subject.1 = ""
      · rw [if_pos hsub, if_pos hsub]
      · rw [if_neg hsub, if_neg hsub]
    · rw [if_neg hlive, if_neg hlive]
  rw [activate_eq hr hprivate, hauth]
  split
  · rename_i hlive
    split
    · rename_i hempty
      exact iff_of_false (fun h => by cases h) fun h => h.2.2.1 hempty
    · rename_i hsub
      show RolesGuard.canActivate r (some (.user a.requestUser)) = .ok p ↔ _
      rcases canActivate_account r a with ⟨h, hallows⟩ | ⟨h, hdenied⟩
      · rw [h]
        exact ⟨fun h => ⟨(Except.ok.inj h).symm, hlive, hsub, hallows⟩, fun h => congrArg _ h.1.symm⟩
      · rw [h]
        exact iff_of_false (fun h => by cases h) fun h => hdenied h.2.2.2
  · rename_i hexpired
    exact iff_of_false (fun h => by cases h) fun h => hexpired h.2.1

variable [Bcrypt] [JsString] {c : Pool} {i : Nat}

/-- The access token of a session, on every route that is not public: it takes the account there
until it expires, where its role is allowed, and under `admin` that is an administrator. The
account has logged in with its password. -/
theorem session_access (hexact : JwtVerify.Exact) (h : Reach authSystem NoTokens Unforged c)
    {login : LoginResponse} {refreshToken : String}
    (hreply : c.reply? i = some (.session login refreshToken)) :
    ∃ a iat, Grants c i login refreshToken a ∧ LoggedIn c a.subject ∧
      (∃ e ∈ c.log, e.proc = i ∧ iat = e.before.now) ∧
      (∀ verb path r cookie now p, dispatch verb path = some r → r.isPublic = false →
        (activate r ⟨some login.accessToken, cookie, now⟩ = .ok p ↔ p = some (.user a.requestUser) ∧
          now / 1000 < iat / 1000 + AuthConfig.accessTtlSec ∧ a.subject.1 ≠ "" ∧ r.Allows a)) ∧
      ∀ verb path r cookie now p, dispatch verb ("admin" :: path) = some r →
        activate r ⟨some login.accessToken, cookie, now⟩ = .ok p →
        ∃ row, a = .admin row ∧ (row.role = .superAdmin ∨ row.role ∈ r.roles) := by
  obtain ⟨a, hgrants, hlogged⟩ := session_earned h hreply
  obtain ⟨e, he, hproc, hlogin⟩ := hgrants.login
  have hguards : ∀ verb path r cookie now p, dispatch verb path = some r → r.isPublic = false →
      (activate r ⟨some login.accessToken, cookie, now⟩ = .ok p ↔ p = some (.user a.requestUser) ∧
        now / 1000 < e.before.now / 1000 + AuthConfig.accessTtlSec ∧ a.subject.1 ≠ "" ∧
        r.Allows a) := by
    intro verb path r cookie now p hr hprivate
    obtain ⟨hmem, -, -⟩ := dispatch_eq_some_iff.mp hr
    exact activate_session hexact hmem hprivate a e.before.now (by rw [hlogin]) p
  refine ⟨a, e.before.now, hgrants, hlogged, ⟨e, he, hproc, rfl⟩, hguards, ?_⟩
  intro verb path r cookie now p hr hok
  obtain ⟨hmem, -, hpath⟩ := dispatch_eq_some_iff.mp hr
  obtain ⟨hprivate, hroles⟩ : r.isPublic = false ∧ r.roles ≠ [] := by
    cases hsegments : r.path with
    | nil =>
      rw [hsegments] at hpath
      cases hpath
    | cons segment rest =>
      rw [hsegments, accepts, Bool.and_eq_true] at hpath
      exact admin_roles r hmem segment (by rw [hsegments]; rfl) hpath.1
  exact (((hguards _ _ r cookie now p hr hprivate).mp hok).2.2.2).resolve_left hroles

end

/-- One administrator of the learning content. -/
def office : World :=
  { bureau with
    admins := Table.empty.put ⟨"A", "a@example.com", "old", "A", "B", .learningAdmin, "en", true⟩ }

def Reply.user? : Reply → Option AuthUserResponse
  | .session login _ => some login.user
  | _ => none

set_option maxRecDepth 100000 in
/-- The token of a learning admin creates certificates, and does not read `health/full`. -/
theorem session_access_admin : ∃ (c : Pool) (login : LoginResponse) (refreshToken : String)
    (create full : Route), c.reply? 0 = some (.session login refreshToken) ∧
    dispatch .post ["admin", "catalog"] = some create ∧ dispatch .get ["health", "full"] = some full ∧
    (∃ p, @activate countingJwt development create ⟨some login.accessToken, none, 0⟩ = .ok p) ∧
    ∀ p, @activate countingJwt development full ⟨some login.accessToken, none, 0⟩ ≠ .ok p := by
  let system := @authSystem Exams.plainBcrypt countingJwt.toJwt plainString development
  obtain ⟨c, hc, hp⟩ := (Option.any_eq_true _ _).mp (show
    (runIf system Unforged (.spawn (.loginAdmin "a@example.com" "old") :: calls 0 8)
      (.initial office)).any (fun c => (c.reply? 0).any (·.isSession) ∧
        ((c.reply? 0).bind Reply.user?).any (fun u => u.id = "A" ∧ u.role = some .learningAdmin) ∧
        c.log.all fun e => e.before.now = 0) = true by decide +kernel)
  obtain ⟨hreply, huser, hclock⟩ := of_decide_eq_true hp
  have hr : Reach system NoTokens Unforged c := runIf_reach (.init (show NoTokens office from rfl)) hc
  obtain ⟨reply, hreply, hsession⟩ := (Option.any_eq_true _ _).mp hreply
  cases reply with
  | session login refreshToken =>
    obtain ⟨a, iat, hgrants, -, ⟨e, he, -, rfl⟩, haccess, -⟩ :=
      @session_access countingJwt development Exams.plainBcrypt plainString c 0 countingJwt_exact hr
        login refreshToken hreply
    have hiat : e.before.now = 0 := by simpa using List.all_eq_true.mp hclock e he
    obtain ⟨e', -, -, hlogin⟩ :=
      @Grants.login countingJwt.toJwt plainString development c 0 login refreshToken a hgrants
    rw [hreply, hlogin] at huser
    have huser : a.subject.1 = "A" ∧ ∃ row, a = .admin row ∧ row.role = .learningAdmin := by
      cases a with
      | student row => simp [Reply.user?, Account.response] at huser
      | admin row =>
        simp only [Option.bind_some, Reply.user?, Account.response, Option.any_some,
          decide_eq_true_eq, Option.some.injEq] at huser
        exact ⟨huser.1, row, rfl, huser.2⟩
    obtain ⟨hid, row, rfl, hrole⟩ := huser
    obtain ⟨create, hcreate⟩ : ∃ r, dispatch .post ["admin", "catalog"] = some r :=
      Option.isSome_iff_exists.mp (by decide)
    obtain ⟨full, hfull⟩ : ∃ r, dispatch .get ["health", "full"] = some r :=
      Option.isSome_iff_exists.mp (by decide)
    have hcreated : create.isPublic = false ∧ .learningAdmin ∈ create.roles := by
      have h : (dispatch .post ["admin", "catalog"]).all fun r =>
        r.isPublic = false ∧ .learningAdmin ∈ r.roles := by decide
      simpa [hcreate] using h
    have hdenied : full.isPublic = false ∧ full.roles = [.superAdmin] := by
      have h : (dispatch .get ["health", "full"]).all fun r =>
        r.isPublic = false ∧ r.roles = [.superAdmin] := by decide
      simpa [hfull] using h
    refine ⟨c, login, refreshToken, create, full, hreply, hcreate, hfull, ?_, fun p hok => ?_⟩
    · refine ⟨_, (haccess _ _ create none 0 _ hcreate hcreated.1).mpr ⟨rfl, ?_, ?_, ?_⟩⟩
      · rw [hiat]
        decide
      · rw [hid]
        decide
      · exact .inr ⟨row, rfl, .inr (hrole ▸ hcreated.2)⟩
    · rcases ((haccess _ _ full none 0 p hfull hdenied.1).mp hok).2.2.2 with h | ⟨row', h, hallowed⟩
      · rw [hdenied.2] at h
        cases h
      · cases h
        rw [hdenied.2, hrole] at hallowed
        simp at hallowed
  | _ => cases hsession

end LmsBackend.Http
