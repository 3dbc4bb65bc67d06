import LmsBackend.Auth.HashedTokens
import LmsBackend.Auth.Sessions
import LmsBackend.Http.Access
import LmsBackend.I18n.UserPreferenceResolver
import LmsBackend.Text.JsonWriter

/-!
# The locale of a session

The access token of a session speaks the locale of its student, before the guards have run as well
as after. That of an administrator speaks English, whatever locale their row has.
-/

open Async Store Text

namespace LmsBackend.Auth

/-! ## The access token -/

/-- The object of the payload, without what is `undefined`. The package adds the times. -/
def AccessTokenPayload.record (payload : AccessTokenPayload) (iat exp : Int) : Json.Record :=
  [("sub", payload.sub), ("type", payload.type.map AccountType.text), ("email", payload.email),
    ("locale", payload.locale), ("role", payload.role)].filterMap (fun (name, value) =>
      value.map fun s => (name.toList, Json.Scalar.string s.toList)) ++
  [("iat".toList, .int iat), ("exp".toList, .int exp)]

/-- The documented behaviour of the package. Its times are in seconds, and the signature is in the
alphabet of Base64url. -/
def CompactAccess [Jwt] : Prop := ∀ payload secret expiresIn iat, ∃ signature,
  '.' ∉ signature.toList ∧ Jwt.sign (.access payload) secret expiresIn iat =
    base64url jwtHeader ++ "." ++ base64url (String.ofList
      (payload.record (iat / 1000) (iat / 1000 + expiresIn)).write) ++ "." ++ signature

/-- The locale that `issueStudentSession` and `issueAdminSession` sign. -/
def Account.sessionLocale : Account → String
  | student row => row.locale
  | admin _ => "en"

theorem get_locale (payload : AccessTokenPayload) (iat exp : Int) :
    Json.get "locale" (.object (payload.record iat exp).members) =
      payload.locale.map fun s => .string (encodeUtf16 s.toList) := by
  rw [Json.get_members]
  rcases payload with ⟨sub, type, email, locale, role⟩
  cases sub <;> cases type <;> cases email <;> cases locale <;> cases role <;> rfl

theorem base64url_toList (s : String) : (base64url s).toList = toBase64url (encodeUtf8 s.toList) :=
  String.toList_ofList

end LmsBackend.Auth

namespace LmsBackend.I18n

open Auth Http UserPreferenceResolver

def bearerOf (token : String) : Header := .one ("Bearer " ++ token)

theorem ofToken_access [Jwt] (hcompact : CompactAccess) (payload : AccessTokenPayload)
    (secret : String) (expiresIn : Int) (iat : Time) :
    ofToken (Jwt.sign (.access payload) secret expiresIn iat).toList =
      payload.locale.bind supported := by
  obtain ⟨signature, hsignature, hsign⟩ := hcompact payload secret expiresIn iat
  have hheader : '.' ∉ (base64url jwtHeader).toList := by decide +kernel
  have hdot : ".".toList = ['.'] := rfl
  rw [hsign]
  simp only [String.toList_append, hdot, List.append_assoc, List.cons_append, List.nil_append]
  rw [base64url_toList (String.ofList _), ofToken_compact hheader hsignature, String.toList_ofList,
    Json.parse_write, Option.bind_some, get_locale]
  cases payload.locale with
  | none => rfl
  | some locale =>
    show supported (String.ofList (decodeUtf16 (encodeUtf16 locale.toList))) = supported locale
    rw [decodeUtf16_encodeUtf16, String.ofList_toList]

theorem resolve_bearer (userLocale : Option String) (token : String) :
    resolve .http ⟨userLocale, some (bearerOf token)⟩ =
      (userLocale.bind supported).or (ofToken token.toList) := by
  have hbearer : "Bearer ".toList <+: ("Bearer " ++ token).toList := by
    rw [String.toList_append]
    exact List.prefix_append _ _
  have hdrop : ("Bearer " ++ token).toList.drop 7 = token.toList := by
    rw [String.toList_append]
    rfl
  cases hlocale : userLocale.bind supported with
  | some locale =>
    unfold resolve
    simp [hlocale]
  | none =>
    unfold resolve
    simp only [ne_eq, not_true_eq_false, if_false, hlocale, bearerOf, bearer, if_pos hbearer, hdrop,
      Option.none_or]

section

variable [Bcrypt] [JsString] [JwtVerify] [AuthConfig] {c : Pool} {i : Nat}

/-- For the session that a login or a refresh returns in any run, the access token resolves to the
locale of the student if it is supported, and to none otherwise, or to English for an administrator;
and to the same when a guard has let the request pass and set the user. -/
theorem session_locale (hexact : JwtVerify.Exact) (hcompact : CompactAccess)
    (h : Reach authSystem NoTokens Unforged c) {login : LoginResponse} {refreshToken : String}
    (hreply : c.reply? i = some (.session login refreshToken)) :
    ∃ a, Grants c i login refreshToken a ∧ login.user.locale = a.sessionLocale ∧
      resolve .http ⟨none, some (bearerOf login.accessToken)⟩ = supported a.sessionLocale ∧
      ∀ verb path r cookie now p, dispatch verb path = some r → r.isPublic = false →
        activate r ⟨some login.accessToken, cookie, now⟩ = .ok p →
        ∃ user, p = some (.user user) ∧
          resolve .http ⟨user.locale, some (bearerOf login.accessToken)⟩ =
            supported a.sessionLocale := by
  obtain ⟨a, hgrants, -⟩ := session_earned h hreply
  obtain ⟨e, -, -, hlogin⟩ := hgrants.login
  have hclaim : a.claims.locale = some a.sessionLocale := by
    cases a <;> rfl
  have huser : a.requestUser.locale = some a.sessionLocale := by
    cases a <;> rfl
  have hresponse : login.user.locale = a.sessionLocale := by
    rw [hlogin]
    cases a <;> rfl
  have htoken : ofToken login.accessToken.toList = supported a.sessionLocale := by
    rw [hlogin, ofToken_access hcompact, hclaim]
    rfl
  refine ⟨a, hgrants, hresponse, ?_, fun verb path r cookie now p hr hprivate hok => ?_⟩
  · rw [resolve_bearer, htoken]
    rfl
  · obtain ⟨hmem, -, -⟩ := dispatch_eq_some_iff.mp hr
    obtain ⟨rfl, -⟩ := (activate_session hexact hmem hprivate a e.before.now (by rw [hlogin]) p).mp hok
    refine ⟨_, rfl, ?_⟩
    rw [resolve_bearer, htoken, huser]
    exact Option.or_self

end

def lastPart (token : String) : String := String.ofList ((token.toList.splitOn '.').getLastD [])

theorem lastPart_append (s : String) {t : String} (h : '.' ∉ t.toList) :
    lastPart (s ++ "." ++ t) = t := by
  have hdot : ".".toList = ['.'] := rfl
  unfold lastPart
  rw [String.toList_append, String.toList_append, hdot, List.append_assoc, List.singleton_append,
    List.splitOn_append_cons_self, List.splitOn_eq_singleton h]
  simp

theorem lastPart_self {t : String} (h : '.' ∉ t.toList) : lastPart t = t := by
  unfold lastPart
  rw [List.splitOn_eq_singleton h]
  simp

/-- Access tokens in three parts, of which the last one is the token of `J`. -/
@[reducible] def dotted (J : JwtVerify) : JwtVerify where
  sign payload secret expiresIn iat :=
    match payload with
    | .access claims => base64url jwtHeader ++ "." ++ base64url (String.ofList
        (claims.record (iat / 1000) (iat / 1000 + expiresIn)).write) ++ "." ++
          J.sign payload secret expiresIn iat
    | .refresh _ => J.sign payload secret expiresIn iat
  verify token := J.verify (lastPart token)
  sha256 := J.sha256

section

variable {J : JwtVerify}
  (hdot : ∀ payload secret expiresIn iat, '.' ∉ (J.sign payload secret expiresIn iat).toList)

include hdot

theorem dotted_compact : @CompactAccess (dotted J).toJwt := by
  intro payload secret expiresIn iat
  exact ⟨_, hdot (.access payload) secret expiresIn iat, rfl⟩

theorem dotted_exact (hexact : @JwtVerify.Exact J) : @JwtVerify.Exact (dotted J) := by
  refine @JwtVerify.Exact.mk (dotted J) fun payload secret expiresIn iat secret' now => ?_
  have hlast : lastPart ((dotted J).sign payload secret expiresIn iat) =
      J.sign payload secret expiresIn iat := by
    rcases payload with claims | claims
    · exact lastPart_append _ (hdot (.access claims) secret expiresIn iat)
    · exact lastPart_self (hdot (.refresh claims) secret expiresIn iat)
  show J.verify (lastPart ((dotted J).sign payload secret expiresIn iat)) secret' now = _
  rw [hlast]
  exact hexact.verify payload secret expiresIn iat secret' now

end

theorem counting_dot (payload : JwtPayload) (secret : String) (expiresIn : Int) (iat : Time) :
    '.' ∉ (countingJwt.sign payload secret expiresIn iat).toList := by
  simp only [Jwt.sign, String.toList_ofList]
  intro hmem
  exact absurd (List.eq_of_mem_replicate hmem) (by decide)

/-- Stands in for the package in runs. -/
@[reducible] def dottedJwt : JwtVerify := dotted countingJwt

theorem dottedJwt_compact : @CompactAccess dottedJwt.toJwt := dotted_compact counting_dot

theorem dottedJwt_exact : @JwtVerify.Exact dottedJwt := dotted_exact counting_dot countingJwt_exact

/-- A student and an administrator who read Arabic. -/
def classroom : World :=
  { bureau with
    users := Table.empty.put ⟨"U", "u@example.com", "old", "A", "B",
      ⟨none, none, none, none, none, none, none, none, none⟩, "ar", true, some 0, true⟩
    admins := Table.empty.put ⟨"A", "a@example.com", "old", "A", "B", .superAdmin, "ar", true⟩ }

/-- The session of the student speaks Arabic, and that of the administrator English. -/
def bothLogIn : List PoolLabel :=
  .spawn (.loginStudent "u@example.com" "old") :: calls 0 8 ++
    .spawn (.loginAdmin "a@example.com" "old") :: calls 1 8

set_option maxRecDepth 100000 in
theorem session_locale_arabic : ∃ (c : Pool) (student admin : LoginResponse)
    (studentRefresh adminRefresh : String),
    c.reply? 0 = some (.session student studentRefresh) ∧
      c.reply? 1 = some (.session admin adminRefresh) ∧
      resolve .http ⟨none, some (bearerOf student.accessToken)⟩ = some "ar" ∧
      resolve .http ⟨none, some (bearerOf admin.accessToken)⟩ = some "en" := by
  let system := @authSystem Exams.plainBcrypt dottedJwt.toJwt plainString development
  obtain ⟨c, hc, hp⟩ := (Option.any_eq_true _ _).mp (show
    (runIf system Unforged bothLogIn (.initial classroom)).any (fun c =>
      ((c.reply? 0).bind Reply.user?).any (fun u => u.locale = "ar") ∧
        ((c.reply? 1).bind Reply.user?).any (fun u => u.locale = "en")) = true by decide +kernel)
  have hr : Reach system NoTokens Unforged c :=
    runIf_reach (.init (show NoTokens classroom from rfl)) hc
  have hsession : ∀ i locale, ((c.reply? i).bind Reply.user?).any (fun u => u.locale = locale) →
      ∃ login refreshToken, c.reply? i = some (.session login refreshToken) ∧
        resolve .http ⟨none, some (bearerOf login.accessToken)⟩ = supported locale := by
    intro i locale huser
    obtain ⟨u, hu, hlocale⟩ := (Option.any_eq_true _ _).mp huser
    obtain ⟨reply, hreply, hu⟩ := Option.bind_eq_some_iff.mp hu
    cases reply with
    | session login refreshToken =>
      cases hu
      obtain ⟨a, -, hresponse, hresolve, -⟩ := @session_locale Exams.plainBcrypt plainString dottedJwt
        development c i dottedJwt_exact dottedJwt_compact hr login refreshToken hreply
      rw [← hresponse, of_decide_eq_true hlocale] at hresolve
      exact ⟨login, refreshToken, hreply, hresolve⟩
    | _ => cases hu
  obtain ⟨hstudent, hadmin⟩ := of_decide_eq_true hp
  obtain ⟨student, studentRefresh, hreply, harabic⟩ := hsession 0 "ar" hstudent
  obtain ⟨admin, adminRefresh, hreply', henglish⟩ := hsession 1 "en" hadmin
  exact ⟨c, student, admin, studentRefresh, adminRefresh, hreply, hreply', harabic, henglish⟩

end LmsBackend.I18n
