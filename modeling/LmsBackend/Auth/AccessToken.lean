import LmsBackend.Exams.Entities

/-!
# The access token

The claims of an access JWT whose signature and expiry are in order, and what
`JwtStrategy` makes of them. A claim that is missing is `none`.
-/

namespace LmsBackend.Auth

inductive AccountType where
  | student
  | admin
  deriving DecidableEq, Repr

structure AccessTokenPayload where
  sub : Option Id
  type : Option AccountType
  email : Option String
  locale : Option String
  role : Option String
  deriving DecidableEq, Repr

/-- `req.user`. Students have an `id`, admins an `adminId`. -/
structure AuthenticatedUser where
  id : Option Id
  adminId : Option Id
  type : Option AccountType
  role : Option String
  email : Option String
  locale : Option String
  deriving DecidableEq, Repr

namespace JwtStrategy

/-- The error is the message of the `UnauthorizedException`. An empty `sub` is falsy. -/
def validate (payload : AccessTokenPayload) : Except String AuthenticatedUser :=
  if payload.sub.getD "" = "" ∨ payload.type = none then .error "Invalid token payload"
  else if payload.type = some .admin then
    .ok ⟨none, payload.sub, some .admin, payload.role, payload.email, payload.locale⟩
  else .ok ⟨payload.sub, none, some .student, none, payload.email, payload.locale⟩

/-- A student that is let in has an `id`, and an admin has none. -/
theorem validate_ok {payload : AccessTokenPayload} {user : AuthenticatedUser}
    (h : validate payload = .ok user) :
    (∃ id, user.id = some id) ∧ payload.type = some .student ∨
      user.id = none ∧ payload.type = some .admin := by
  unfold validate at h
  split at h
  · cases h
  · rename_i hpresent
    have hsub : payload.sub ≠ none := fun hnone => hpresent (.inl (by rw [hnone]; rfl))
    split at h
    · cases h
      exact .inr ⟨rfl, ‹_›⟩
    · rename_i hadmin
      cases h
      refine .inl ⟨Option.ne_none_iff_exists'.mp hsub, ?_⟩
      cases htype : payload.type with
      | none => exact absurd (.inr htype) hpresent
      | some type =>
        cases type with
        | student => rfl
        | admin => exact absurd htype hadmin

end JwtStrategy

end LmsBackend.Auth
