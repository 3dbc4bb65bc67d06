import LmsBackend.Auth.AuthService

/-!
# The running account service

The pool in which the calls of `AuthService` run. Anyone may start any of them
with any arguments, also a refresh with a payload that was never signed.
-/

open Async Store

namespace LmsBackend.Auth

inductive Task where
  | register (dto : RegisterDto)
  | verifyEmail (plainToken : String)
  | loginStudent (email password : String)
  | loginAdmin (email password : String)
  | refresh (payload : RefreshTokenPayload) (rawToken : String)
  | logout (payload : RefreshTokenPayload)
  | forgotPassword (email : String)
  | resetPassword (plainToken newPassword : String)
  | changePassword (userId : Id) (currentPassword newPassword : String)
  deriving DecidableEq, Repr

inductive Reply where
  | registered (userId : Id) (message : String)
  | session (login : LoginResponse) (refreshToken : String)
  | message (message : String)
  deriving DecidableEq, Repr

variable [Bcrypt] [Jwt] [JsString] [AuthConfig]

def Task.prog : Task → Promise Reply
  | .register dto => do
    let (userId, message) ← AuthService.register dto
    pure (.registered userId message)
  | .verifyEmail plainToken => do
    let message ← AuthService.verifyEmail plainToken
    pure (.message message)
  | .loginStudent email password => do
    let (login, refreshToken) ← AuthService.loginStudent email password
    pure (.session login refreshToken)
  | .loginAdmin email password => do
    let (login, refreshToken) ← AuthService.loginAdmin email password
    pure (.session login refreshToken)
  | .refresh payload rawToken => do
    let (login, refreshToken) ← AuthService.refresh payload rawToken
    pure (.session login refreshToken)
  | .logout payload => do
    let message ← AuthService.logout payload
    pure (.message message)
  | .forgotPassword email => do
    let message ← AuthService.forgotPassword email
    pure (.message message)
  | .resetPassword plainToken newPassword => do
    let message ← AuthService.resetPassword plainToken newPassword
    pure (.message message)
  | .changePassword userId currentPassword newPassword => do
    let message ← AuthService.changePassword userId currentPassword newPassword
    pure (.message message)

/-- Time passes. -/
structure Tick where
  ms : Nat
  deriving DecidableEq, Repr

def World.tick (w : World) (t : Tick) : World := { w with now := w.now + t.ms }

def authSystem : System World Call Resp Err Reply Task Choice Tick where
  prog := Task.prog
  client _ := true
  exec := exec
  reject := reject
  env t w := some (w.tick t, [])

abbrev Pool := Config World Call Resp Err Reply Task

abbrev PoolLabel := Label Task Choice Tick

/-- Any tables. The sequence of the refresh tokens is past all of their ids. -/
structure Initial (w : World) : Prop where
  refreshTokens : ∀ t ∈ w.refreshTokens.rows, t.id < w.refreshTokenSeq

/-- The states that the service reaches by steps within `P`. -/
abbrev Reachable (P : Pool → PoolLabel → Prop) (c : Pool) : Prop :=
  Reach authSystem Initial P c

end LmsBackend.Auth
