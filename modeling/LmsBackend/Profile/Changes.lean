import LmsBackend.Auth.Revocation
import LmsBackend.Profile.ProfileService

/-!
# What `PATCH me` changes

An instance of the DTO owns all of its properties, so `patch` has all of them too.
The update runs also when there is nothing to set but `updated_at`.
-/

open Store

namespace LmsBackend.Profile

open Auth (JsValue JsString)
open UpdateProfileDto

section

variable [JsString] {now : Time} {userId : Id} {body : Field → JsValue} {dto : UpdateProfileDto}
  {users users' : Users} {user after : User} {answer : ProfileResponseDto}

end

section

attribute [local instance] Auth.plainString

/-- A student who has signed up, and nothing more. -/
def newcomer : User where
  id := "u"
  email := "v@example.com"
  passwordHash := "hash"
  field
    | .firstName => some "Ada"
    | .lastName => some "Byron"
    | .locale => some "en"
    | _ => none
  emailVerified := true
  emailVerifiedAt := some 1
  active := true
  createdAt := 0
  updatedAt := 1

/-- The body `{"city": "London", "phone": null}`. -/
def moved : Field → JsValue
  | .city => .string "London"
  | .phone => .null
  | _ => .undefined

end

end LmsBackend.Profile
