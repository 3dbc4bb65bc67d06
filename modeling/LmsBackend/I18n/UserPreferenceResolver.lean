import LmsBackend.Content.Translations
import LmsBackend.Text.Base64url
import LmsBackend.Text.Json
import LmsBackend.Text.Unicode

/-!
# `UserPreferenceResolver`

The locale of a response is the one that the token of the request claims. It is read before the
guards run, and the signature is not looked at.
-/

open Text

namespace LmsBackend.I18n

inductive ContextType where
  | http
  | ws
  | rpc
  deriving DecidableEq, Repr

/-- An entry of `req.headers`. -/
inductive Header where
  | one (value : String)
  | many (values : List String)
  deriving DecidableEq, Repr

structure Request where
  /-- `req.user.locale`, once a guard has set the user. -/
  userLocale : Option String
  authorization : Option Header
  deriving DecidableEq, Repr

namespace UserPreferenceResolver

def supported (value : String) : Option String :=
  if Content.isLocale value then some value else none

def ofClaim : Option Json → Option String
  | some (.string s) => supported (String.ofList (decodeUtf16 s))
  | _ => none

/-- What does not parse claims nothing, and neither does `null`, where the source throws. -/
def ofPayload (payload : List Char) : Option String :=
  ofClaim ((Json.parse (decodeUtf8 (fromBase64url payload))).bind (Json.get "locale"))

def ofToken (token : List Char) : Option String :=
  match token.splitOn '.' with
  | [_, payload, _] => ofPayload payload
  | _ => none

def bearer : Option Header → Option String
  | some (.one value) => some value
  | some (.many values) => values.head?
  | none => none

def resolve (type : ContextType) (req : Request) : Option String :=
  if type ≠ .http then none
  else
    match req.userLocale.bind supported with
    | some locale => some locale
    | none =>
      match bearer req.authorization with
      | some value =>
        if "Bearer ".toList <+: value.toList then ofToken (value.toList.drop 7) else none
      | none => none

theorem supported_eq_some_iff {value locale : String} :
    supported value = some locale ↔ value = locale ∧ Content.isLocale locale = true := by
  unfold supported
  split
  · rename_i h
    exact ⟨fun heq => ⟨Option.some.inj heq, Option.some.inj heq ▸ h⟩, fun heq => congrArg _ heq.1⟩
  · rename_i h
    exact ⟨nofun, fun heq => absurd (heq.1 ▸ heq.2) h⟩

theorem ofToken_supported {token : List Char} {locale : String} (h : ofToken token = some locale) :
    Content.isLocale locale = true := by
  unfold ofToken ofPayload ofClaim at h
  split at h
  · split at h
    · exact (supported_eq_some_iff.mp h).2
    · cases h
  · cases h

/-- Whatever the request has, the locale is one of the six. -/
theorem resolve_supported {type : ContextType} {req : Request} {locale : String}
    (h : resolve type req = some locale) : Content.isLocale locale = true := by
  unfold resolve at h
  split at h
  · cases h
  split at h
  · rename_i hlocale
    cases h
    obtain ⟨value, -, hvalue⟩ := Option.bind_eq_some_iff.mp hlocale
    exact (supported_eq_some_iff.mp hvalue).2
  · split at h
    · split at h
      · exact ofToken_supported h
      · cases h
    · cases h

/-- The token of three parts claims what the text says that the second one encodes. -/
theorem ofToken_compact {header signature : List Char} (hheader : '.' ∉ header)
    (hsignature : '.' ∉ signature) (text : List Char) :
    ofToken (header ++ '.' :: (toBase64url (encodeUtf8 text) ++ '.' :: signature)) =
      ofClaim ((Json.parse text).bind (Json.get "locale")) := by
  have hpayload : '.' ∉ toBase64url (encodeUtf8 text) := by
    intro hmem
    obtain ⟨n, hn, heq⟩ := List.mem_map.mp hmem
    exact symbol_ne (by decide) (sextets_lt hn) heq
  unfold ofToken
  rw [List.splitOn_append_cons_self_of_not_mem hheader,
    List.splitOn_append_cons_self_of_not_mem hpayload, List.splitOn_eq_singleton hsignature]
  show ofPayload (toBase64url (encodeUtf8 text)) = _
  unfold ofPayload
  rw [fromBase64url_toBase64url, decodeUtf8_encodeUtf8]

end UserPreferenceResolver

end LmsBackend.I18n
