import LmsBackend.Async.Alone
import LmsBackend.Auth.Revocation
import LmsBackend.Text.Unicode
import Mathlib.Data.Rat.Floor
import Mathlib.Logic.Equiv.List
import Mathlib.Tactic.DeriveEncodable

/-!
# The two strategies

An access token and a refresh token are signed with a secret each, and different
secrets may be one key. Their payloads have `sub` and `type` in common, and only a
refresh token has a `jti`.
-/

open Async Store

namespace LmsBackend.Auth

/-! ## The environment -/

inductive NodeEnv where
  | development
  | staging
  | production
  | test
  deriving DecidableEq, Repr

/-- The variables that bear on tokens. A default stands in for one that is not set. -/
structure Env where
  nodeEnv : NodeEnv
  jwtSecret : String
  jwtRefreshSecret : String
  jwtAccessTtl : Rat
  jwtRefreshTtl : Rat
  deriving DecidableEq

def knownDevJwtSecrets : List String := [
  "development-only-jwt-access-secret-min-64-chars-replace-in-production",
  "development-only-jwt-refresh-secret-different-from-access-secret-here",
  "change-me-min-64-chars-random-string-generated-securely-for-production",
  "change-me-separate-refresh-secret-min-64-chars-random-string"]

/-- `Joi.string().min(32).required()`, and not a known secret in production. -/
def acceptsSecret (nodeEnv : NodeEnv) (secret : String) : Bool :=
  32 ≤ utf16Length secret ∧ (nodeEnv = .production → secret ∉ knownDevJwtSecrets)

/-- `Joi.number()`: in the range of the safe integers. -/
def acceptsNumber (n : Rat) : Bool := -9007199254740991 ≤ n ∧ n ≤ 9007199254740991

def validationSchema (env : Env) : Bool :=
  acceptsSecret env.nodeEnv env.jwtSecret ∧ acceptsSecret env.nodeEnv env.jwtRefreshSecret ∧
    acceptsNumber env.jwtAccessTtl ∧ acceptsNumber env.jwtRefreshTtl

/-- The latest time that a `Date` holds. A later one is invalid, and refused by the database. -/
def maxDate : Time := 8640000000000000

/-- The settings of the services. They are used with a whole TTL only, as `sign` throws when
`expiresIn` is not an integer, and as long as the expiry is a date. -/
@[reducible] def Env.config (env : Env) : AuthConfig where
  jwtSecret := env.jwtSecret
  jwtRefreshSecret := env.jwtRefreshSecret
  accessTtlSec := ⌊env.jwtAccessTtl⌋
  refreshTtlSec := ⌊env.jwtRefreshTtl⌋
  isProd := env.nodeEnv = .production ∨ env.nodeEnv = .staging

/-! ## Verifying a token -/

/-- The claims of a verified token. One that is missing is `none`. -/
structure Claims where
  sub : Option Id
  type : Option AccountType
  email : Option String
  locale : Option String
  role : Option String
  jti : Option Nat
  deriving DecidableEq, Repr

def JwtPayload.claims : JwtPayload → Claims
  | .access payload => ⟨payload.sub, payload.type, payload.email, payload.locale, payload.role, none⟩
  | .refresh payload => ⟨some payload.sub, some payload.type, none, none, none, some payload.jti⟩

class JwtVerify extends Jwt where
  verify : (token secret : String) → (now : Time) → Option Claims
  sha256 : List UInt8 → List UInt8

/-- The key that HMAC-SHA256 makes of the bytes of a secret: hashed when they are longer than a block,
and filled up with zeros. -/
def hmacKey (sha256 : List UInt8 → List UInt8) (secret : String) : List UInt8 :=
  let bytes := Text.encodeUtf8 secret.toList
  let short := if 64 < bytes.length then sha256 bytes else bytes
  short ++ List.replicate (64 - short.length) 0

/-- The secrets are one key. -/
def SameKey [JwtVerify] (secret secret' : String) : Prop :=
  hmacKey JwtVerify.sha256 secret = hmacKey JwtVerify.sha256 secret'

instance [JwtVerify] (secret secret' : String) : Decidable (SameKey secret secret') :=
  inferInstanceAs (Decidable (_ = _))

/-- A token verifies with the key that it was signed with, until it expires. Its times are in
whole seconds. -/
structure JwtVerify.Exact [JwtVerify] : Prop where
  verify : ∀ (payload : JwtPayload) (secret : String) (expiresIn : Int) (iat : Time)
    (secret' : String) (now : Time),
    JwtVerify.verify (Jwt.sign payload secret expiresIn iat) secret' now =
      if SameKey secret' secret ∧ now / 1000 < iat / 1000 + expiresIn then some payload.claims
      else none

namespace JwtStrategy

/-- The token of the `Authorization` header. -/
def authenticate [JwtVerify] [AuthConfig] (token : String) (now : Time) :
    Except String AuthenticatedUser :=
  match JwtVerify.verify token AuthConfig.jwtSecret now with
  | none => .error "Unauthorized"
  | some claims => validate ⟨claims.sub, claims.type, claims.email, claims.locale, claims.role⟩

end JwtStrategy

structure RefreshContext where
  payload : RefreshTokenPayload
  rawToken : String
  deriving DecidableEq, Repr

namespace JwtRefreshStrategy

def validate (claims : Claims) (rawToken : String) : Except String RefreshContext :=
  match claims.sub.filter (· ≠ ""), claims.type, claims.jti with
  | some sub, some type, some jti =>
    if rawToken = "" then .error "Missing refresh token" else .ok ⟨⟨sub, type, jti⟩, rawToken⟩
  | _, _, _ => .error "Invalid refresh token payload"

/-- The token of the `refreshToken` cookie. `refresh` and `logout` go on with the context. -/
def authenticate [JwtVerify] [AuthConfig] (rawToken : String) (now : Time) :
    Except String RefreshContext :=
  match JwtVerify.verify rawToken AuthConfig.jwtRefreshSecret now with
  | none => .error "Unauthorized"
  | some claims => validate claims rawToken

theorem validate_access (payload : AccessTokenPayload) (rawToken : String) (context : RefreshContext) :
    validate (JwtPayload.access payload).claims rawToken ≠ .ok context := by
  unfold validate JwtPayload.claims
  split
  · simp_all
  · simp

end JwtRefreshStrategy

/-! ## Minting -/

section

variable [Bcrypt] [JwtVerify] [JsString]

/-- `signAccess` has returned the token by then. -/
def MintsAccess (env : Env) (token : String) (now : Time) : Prop :=
  env.jwtAccessTtl.isInt = true ∧ ∃ i w w' payload,
    Ends (@authSystem _ _ _ env.config) i none w (@AuthService.signAccess _ env.config payload) w'
      (.ok token) ∧ w'.now ≤ now

/-- `issueRefreshToken` has returned the token by then, and was called at `since` or later. -/
def MintsRefresh (env : Env) (since : Time) (token : String) (now : Time) : Prop :=
  env.jwtRefreshTtl.isInt = true ∧ ∃ i w w' subjectId type,
    since ≤ w.now ∧ w.now + ⌊env.jwtRefreshTtl⌋ * 1000 ≤ maxDate ∧ Ends (@authSystem _ _ _ env.config) i none w
      (@AuthService.issueRefreshToken _ env.config subjectId type) w' (.ok token) ∧ w'.now ≤ now

theorem MintsAccess.token {env : Env} {token : String} {now : Time} (h : MintsAccess env token now) :
    ∃ payload iat, token = Jwt.sign (.access payload) env.jwtSecret ⌊env.jwtAccessTtl⌋ iat := by
  obtain ⟨-, i, w, w', payload, hends, -⟩ := h
  refine hends.wlp_none (f := some ⟨w, .now⟩)
    (Q := fun _ r _ => ∀ token', r = .ok token' → ∃ payload iat, token' =
      Jwt.sign (.access payload) env.jwtSecret ⌊env.jwtAccessTtl⌋ iat) ?_ token rfl
  simp only [AuthService.signAccess, await, Prog.bind_eq, Prog.pure_eq, wlp_bind, wlp_await]
  refine ⟨fun x w₁ r _ => ?_, by simp⟩
  cases r with
  | error e => simp
  | ok iat =>
    rintro token' heq
    cases heq
    exact ⟨payload, iat, rfl⟩

theorem MintsRefresh.token {env : Env} {since : Time} {token : String} {now : Time}
    (h : MintsRefresh env since token now) : since + ⌊env.jwtRefreshTtl⌋ * 1000 ≤ maxDate ∧
      ∃ payload iat,
        token = Jwt.sign (.refresh payload) env.jwtRefreshSecret ⌊env.jwtRefreshTtl⌋ iat ∧
          iat ≤ now := by
  obtain ⟨-, i, w, w', subjectId, type, hsince, hdate, hends, hnow⟩ := h
  have hwlp : wlp (@authSystem _ _ _ env.config) i (some ⟨w, .now⟩)
      (@AuthService.issueRefreshToken _ env.config subjectId type) w fun _ r w' =>
        ∀ token', r = .ok token' → ∃ payload iat, token' =
          Jwt.sign (.refresh payload) env.jwtRefreshSecret ⌊env.jwtRefreshTtl⌋ iat ∧ iat ≤ w'.now := by
    simp only [AuthService.issueRefreshToken, await, Prog.bind_eq, Prog.pure_eq, wlp_bind, wlp_await]
    refine ⟨fun _ w₁ r _ => ?_, by simp⟩
    cases r with
    | error e => simp
    | ok now =>
      refine ⟨fun _ w₂ r _ => ?_, by simp⟩
      cases r with
      | error e => simp
      | ok inserted =>
        refine ⟨fun _ w₃ r hiat => ?_, by simp⟩
        cases hiat
        refine ⟨fun _ w₄ r hhash => ?_, by simp⟩
        cases hhash
        refine ⟨fun _ w₅ r hupdate => ?_, by simp⟩
        cases hupdate
        rintro token' heq
        cases heq
        exact ⟨_, _, rfl, le_rfl⟩
  obtain ⟨payload, iat, htoken, hiat⟩ := hends.wlp_none hwlp token rfl
  exact ⟨(Int.add_le_add_right hsince _).trans hdate, payload, iat, htoken, hiat.trans hnow⟩

omit [Bcrypt] [JwtVerify] [JsString] in
/-- A token that is still live after it was signed has a positive TTL. -/
theorem ttl_pos {iat now ttl : Int} (hiat : iat ≤ now) (hlive : now / 1000 < iat / 1000 + ttl) :
    0 < ttl := by
  omega

/-- A refresh token can be valid: the TTL is a positive integer, and the expiry is a date. -/
def Env.RefreshValid (env : Env) (since : Time) : Prop :=
  env.jwtRefreshTtl.isInt = true ∧ 0 < ⌊env.jwtRefreshTtl⌋ ∧
    since + ⌊env.jwtRefreshTtl⌋ * 1000 ≤ maxDate

/-- There is always a student that a refresh token can be minted for. -/
theorem mintsRefresh (env : Env) {since : Time} (hvalid : env.RefreshValid since) :
    MintsRefresh env since
      (Jwt.sign (.refresh ⟨"U", .student, 1⟩) env.jwtRefreshSecret ⌊env.jwtRefreshTtl⌋ since)
      since := by
  have hends := @ends_of_follow _ _ _ _ _ _ _ _ _ (@authSystem _ _ _ env.config) 0
    (@AuthService.issueRefreshToken _ env.config "U" .student) { bureau with now := since }
    [some "", some "", some "", some "", some ""] _ rfl
  exact ⟨hvalid.1, 0, _, _, "U", .student, le_rfl, hvalid.2.2, hends, le_rfl⟩

/-- With one key and a refresh token that is valid at all, it is a bearer token too. -/
theorem refresh_as_access (hexact : JwtVerify.Exact) {env : Env} {since : Time}
    (hsame : SameKey env.jwtSecret env.jwtRefreshSecret) (hvalid : env.RefreshValid since) :
    ∃ token now user, MintsRefresh env since token now ∧
      @JwtStrategy.authenticate _ env.config token now = .ok user := by
  refine ⟨_, since, ⟨some "U", none, some .student, none, none, none⟩, mintsRefresh env hvalid, ?_⟩
  have hlive : since / 1000 < since / 1000 + ⌊env.jwtRefreshTtl⌋ := Int.lt_add_of_pos_right _ hvalid.2.1
  unfold JwtStrategy.authenticate
  rw [hexact.verify, if_pos ⟨hsame, hlive⟩]
  rfl

/-- For all tokens of an environment that are minted from a time on: neither strategy lets in a token
of the other kind, if and only if the secrets are two keys or no refresh token is valid at all. -/
theorem never_interchangeable (hexact : JwtVerify.Exact) (env : Env) (since : Time) :
    ((∀ token now user, MintsRefresh env since token now →
        @JwtStrategy.authenticate _ env.config token now ≠ .ok user) ∧
      ∀ token now context, MintsAccess env token now →
        @JwtRefreshStrategy.authenticate _ env.config token now ≠ .ok context) ↔
    ¬SameKey env.jwtSecret env.jwtRefreshSecret ∨
      ¬(env.jwtRefreshTtl.isInt = true ∧ 0 < ⌊env.jwtRefreshTtl⌋ ∧
        since + ⌊env.jwtRefreshTtl⌋ * 1000 ≤ maxDate) := by
  constructor
  · rintro ⟨hrefresh, -⟩
    by_contra hnot
    simp only [not_or, not_not] at hnot
    obtain ⟨token, now, user, hmints, haccept⟩ := refresh_as_access hexact hnot.1 hnot.2
    exact hrefresh token now user hmints haccept
  · intro hor
    constructor
    · intro token now user hmints haccept
      obtain ⟨hdate, payload, iat, rfl, hiat⟩ := hmints.token
      unfold JwtStrategy.authenticate at haccept
      rw [hexact.verify, if_neg] at haccept
      · cases haccept
      · rintro ⟨hsame, hlive⟩
        rcases hor with hne | hnone
        · exact hne hsame
        · exact hnone ⟨hmints.1, ttl_pos hiat hlive, hdate⟩
    · intro token now context hmints haccept
      obtain ⟨payload, iat, rfl⟩ := hmints.token
      unfold JwtRefreshStrategy.authenticate at haccept
      rw [hexact.verify] at haccept
      split at haccept
      · cases haccept
      · rename_i claims hclaims
        split at hclaims
        · obtain rfl := Option.some.inj hclaims
          exact JwtRefreshStrategy.validate_access payload _ context haccept
        · cases hclaims

end

/-! ### Two environments -/

instance encodableChar : Encodable Char := .ofLeftInverse Char.toNat Char.ofNat Char.ofNat_toNat

instance encodableString : Encodable String := .ofLeftInverse String.toList String.ofList fun s => by simp

deriving instance Encodable for AccountType, AccessTokenPayload, RefreshTokenPayload, JwtPayload

/-- Stands in for the package in runs: the length of a token tells all of its parts. -/
@[reducible] def countingJwt : JwtVerify where
  sign payload secret expiresIn iat :=
    String.ofList (List.replicate (Encodable.encode (payload, secret, expiresIn, iat)) '1')
  verify token secret now :=
    match (Encodable.decode token.length : Option (JwtPayload × String × Int × Int)) with
    | none => none
    | some (payload, secret', expiresIn, iat) =>
      if hmacKey (·.take 32) secret = hmacKey (·.take 32) secret' ∧
          now / 1000 < iat / 1000 + expiresIn then some payload.claims
      else none
  sha256 bytes := bytes.take 32

theorem countingJwt_exact : @JwtVerify.Exact countingJwt := by
  refine @JwtVerify.Exact.mk countingJwt fun payload secret expiresIn iat secret' now => ?_
  simp only [JwtVerify.verify, Jwt.sign, String.length_ofList, List.length_replicate]
  rw [Encodable.encodek]
  rfl

/-- One secret for both kinds of tokens. -/
def oneSecret : Env :=
  ⟨.production, "0123456789abcdef0123456789abcdef", "0123456789abcdef0123456789abcdef", 900, 604800⟩

def twoSecrets : Env := { oneSecret with jwtRefreshSecret := "fedcba9876543210fedcba9876543210" }

theorem never_interchangeable_two :
    validationSchema twoSecrets = true ∧
    (∀ token now user, @MintsRefresh Exams.plainBcrypt countingJwt plainString twoSecrets 0 token now →
        @JwtStrategy.authenticate countingJwt twoSecrets.config token now ≠ .ok user) ∧
      ∀ token now context,
        @MintsAccess Exams.plainBcrypt countingJwt plainString twoSecrets token now →
        @JwtRefreshStrategy.authenticate countingJwt twoSecrets.config token now ≠ .ok context :=
  ⟨by decide, (@never_interchangeable Exams.plainBcrypt countingJwt plainString countingJwt_exact
    twoSecrets 0).mpr (.inl (by decide +kernel))⟩

/-- A NUL at the end does not make another key of a secret. -/
example : @SameKey countingJwt oneSecret.jwtSecret (oneSecret.jwtSecret ++ "\x00") := by
  decide +kernel

/-- In production, with one secret for both, a refresh token is a bearer token. -/
theorem interchangeable_one :
    ¬∀ env, validationSchema env = true →
      (∀ token now user, @MintsRefresh Exams.plainBcrypt countingJwt plainString env 0 token now →
        @JwtStrategy.authenticate countingJwt env.config token now ≠ .ok user) ∧
      ∀ token now context, @MintsAccess Exams.plainBcrypt countingJwt plainString env token now →
        @JwtRefreshStrategy.authenticate countingJwt env.config token now ≠ .ok context := by
  intro hall
  obtain ⟨token, now, user, hmints, haccept⟩ := @refresh_as_access Exams.plainBcrypt countingJwt
    plainString countingJwt_exact oneSecret 0 rfl ⟨by decide, by decide, by decide⟩
  exact (hall oneSecret (by decide)).1 token now user hmints haccept

end LmsBackend.Auth
