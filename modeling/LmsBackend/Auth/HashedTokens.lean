import LmsBackend.Async.Among
import LmsBackend.Auth.LastPassword
import LmsBackend.Text.Base64url

/-!
# What the hash of a refresh token tells apart

bcrypt looks at 72 bytes of a refresh JWT: the header, and what the payload has
up to the eighteenth character of the subject. Tokens of one account look alike.
-/

open Async Store Text

namespace LmsBackend.Auth

/-! ## The JWT -/

def isHexDigit (ch : Char) : Bool := ch.isDigit ∨ 'a' ≤ ch ∧ ch ≤ 'f'

/-- The text of a `UUID` column: 36 characters, with dashes at four places. -/
def isUuid (s : String) : Bool :=
  s.toList.length = 36 ∧ s.toList.zipIdx.all fun (ch, n) =>
    if n ∈ [8, 13, 18, 23] then ch = '-' else isHexDigit ch

def AccountType.text : AccountType → String
  | .student => "student"
  | .admin => "admin"

/-- The JSON of the payload. An id has no character that would be escaped. -/
def RefreshTokenPayload.json (payload : RefreshTokenPayload) (iat exp : Int) : String :=
  "\x7b\"sub\":\"" ++ payload.sub ++ "\",\"type\":\"" ++ payload.type.text ++ "\",\"jti\":" ++
    toString payload.jti ++ ",\"iat\":" ++ toString iat ++ ",\"exp\":" ++ toString exp ++ "\x7d"

def jwtHeader : String := "\x7b\"alg\":\"HS256\",\"typ\":\"JWT\"\x7d"

def base64url (s : String) : String := String.ofList (toBase64url (utf8 s))

/-- The compact form: header, payload and signature. -/
def signed (payload : RefreshTokenPayload) (iat exp : Int) (signature : String) : String :=
  base64url jwtHeader ++ "." ++ base64url (payload.json iat exp) ++ "." ++ signature

/-- The documented behaviour of the package. Its times are in seconds. -/
def CompactJwt [Jwt] : Prop := ∀ payload secret expiresIn iat, isUuid payload.sub = true →
  ∃ signature, Jwt.sign (.refresh payload) secret expiresIn iat =
    signed payload (iat / 1000) (iat / 1000 + expiresIn) signature

/-! ## What the window has of a token -/

theorem utf8_append (s t : String) : utf8 (s ++ t) = utf8 s ++ utf8 t := by
  unfold utf8
  rw [String.toList_append, List.flatMap_append]

/-- The one byte of an ASCII character. -/
def asciiByte (ch : Char) : UInt8 := UInt8.ofNat ch.toNat

theorem utf8_ascii {s : String} (h : ∀ ch ∈ s.toList, ch.toNat < 128) :
    utf8 s = s.toList.map asciiByte := by
  have hone : ∀ ch ∈ s.toList, String.utf8EncodeChar ch = [asciiByte ch] := by
    intro ch hch
    have hle : ch.val.toNat ≤ 0x7f := Nat.le_of_lt_succ (h ch hch)
    unfold String.utf8EncodeChar
    exact if_pos hle
  unfold utf8
  rw [List.flatMap_congr hone, List.map_eq_flatMap]

theorem asciiByte_inj {ch ch' : Char} (h : ch.toNat < 128) (h' : ch'.toNat < 128)
    (heq : asciiByte ch = asciiByte ch') : ch = ch' := by
  have htoNat := congrArg UInt8.toNat heq
  simp only [asciiByte, UInt8.toNat_ofNat'] at htoNat
  exact Char.toNat_inj.mp (by omega)

theorem map_inj_within {α β : Type} {f : α → β} {P : α → Prop}
    (hf : ∀ a b, P a → P b → f a = f b → a = b) {l l' : List α} (h : ∀ a ∈ l, P a)
    (h' : ∀ a ∈ l', P a) : l.map f = l'.map f ↔ l = l' := by
  refine ⟨fun heq => ?_, congrArg _⟩
  induction l generalizing l' with
  | nil => exact (List.map_eq_nil_iff.mp heq.symm).symm
  | cons a rest ih =>
    rcases l' with _ | ⟨a', rest'⟩
    · cases heq
    · obtain ⟨hhead, htail⟩ := List.cons.inj heq
      obtain ⟨ha, hrest⟩ := List.forall_mem_cons.mp h
      obtain ⟨ha', hrest'⟩ := List.forall_mem_cons.mp h'
      rw [hf a a' ha ha' hhead, ih hrest hrest' htail]

theorem utf8_base64url (s : String) :
    utf8 (base64url s) = (sextets (utf8 s)).map fun n => asciiByte (symbol n) := by
  have hascii : ∀ ch ∈ (base64url s).toList, ch.toNat < 128 := by
    intro ch hch
    rw [base64url, String.toList_ofList] at hch
    obtain ⟨n, hn, rfl⟩ := List.mem_map.mp hch
    exact symbol_ascii (sextets_lt hn)
  rw [utf8_ascii hascii, base64url, String.toList_ofList, toBase64url, List.map_map]
  rfl

theorem uuid_char {s : String} (h : isUuid s = true) {n : Nat} {ch : Char}
    (hch : s.toList[n]? = some ch) :
    (if n ∈ [8, 13, 18, 23] then ch = '-' else isHexDigit ch = true) := by
  have hall := List.all_eq_true.mp (decide_eq_true_eq.mp h).2 (ch, n)
    (List.mk_mem_zipIdx_iff_getElem?.mpr hch)
  split <;> rename_i hn
  · simpa [hn] using hall
  · simpa [hn] using hall

theorem ascii_of_isUuid {s : String} (h : isUuid s = true) : ∀ ch ∈ s.toList, ch.toNat < 128 := by
  intro ch hch
  obtain ⟨n, hn⟩ := List.mem_iff_getElem?.mp hch
  have hchar := uuid_char h hn
  split at hchar
  · rw [hchar]
    decide
  · simp only [isHexDigit, Char.isDigit, Bool.and_eq_true, decide_eq_true_eq, Char.le_def,
      UInt32.le_iff_toNat_le] at hchar
    have h9 : '9'.val.toNat = 57 := rfl
    have hf : 'f'.val.toNat = 102 := rfl
    change ch.val.toNat < 128
    omega

/-- The first eighteen characters, of which the last two stand apart, and a dash. -/
theorem parts_of_isUuid {s : String} (h : isUuid s = true) : ∃ l x y rest, l.length = 16 ∧
    s.toList = l ++ x :: y :: '-' :: rest := by
  have hlen : s.toList.length = 36 := (decide_eq_true_eq.mp h).1
  have hdash : s.toList[18] = '-' := by
    have hchar := uuid_char h (List.getElem?_eq_getElem (show 18 < s.toList.length by omega))
    exact hchar
  refine ⟨s.toList.take 16, s.toList[16], s.toList[17], s.toList.drop 19, ?_, ?_⟩
  · rw [List.length_take]
    omega
  · rw [← hdash, List.getElem_cons_drop, List.getElem_cons_drop, List.getElem_cons_drop,
      List.take_append_drop]

/-- The payload up to the dash, which ends in the bytes of the 35th symbol. -/
theorem utf8_json {s : String} (h : isUuid s = true) (type : AccountType) (jti : Nat)
    (iat exp : Int) : ∃ l x y rest, l.length = 16 ∧ s.toList.take 18 = l ++ [x, y] ∧
      (∀ ch ∈ l ++ [x, y], ch.toNat < 128) ∧ utf8 (RefreshTokenPayload.json ⟨s, type, jti⟩ iat exp) =
        (utf8 "\x7b\"sub\":\"" ++ l.map asciiByte) ++
          asciiByte x :: asciiByte y :: asciiByte '-' :: rest := by
  obtain ⟨l, x, y, rest, hlen, hparts⟩ := parts_of_isUuid h
  have hascii := ascii_of_isUuid h
  obtain ⟨tail, hjson⟩ : ∃ tail, RefreshTokenPayload.json ⟨s, type, jti⟩ iat exp =
      "\x7b\"sub\":\"" ++ s ++ tail := by
    unfold RefreshTokenPayload.json
    simp only [String.append_assoc]
    exact ⟨_, rfl⟩
  refine ⟨l, x, y, rest.map asciiByte ++ utf8 tail, hlen, ?_, ?_, ?_⟩
  · rw [hparts, show 18 = l.length + 2 by omega, List.take_length_add_append]
    rfl
  · intro ch hch
    refine hascii ch ?_
    rw [hparts, show l ++ x :: y :: '-' :: rest = l ++ [x, y] ++ '-' :: rest by simp]
    exact List.mem_append_left _ hch
  · rw [hjson, utf8_append, utf8_append, utf8_ascii hascii, hparts]
    simp only [List.map_append, List.map_cons, List.append_assoc, List.cons_append]

/-- The window has 37 bytes of the header, and 35 symbols of the payload. -/
theorem bcryptWindow_signed {payload : RefreshTokenPayload} (h : isUuid payload.sub = true)
    (iat exp : Int) (signature : String) :
    bcryptWindow (signed payload iat exp signature) = utf8 (base64url jwtHeader ++ ".") ++
      ((sextets (utf8 (payload.json iat exp))).take 35).map fun n => asciiByte (symbol n) := by
  have hhead : (utf8 (base64url jwtHeader ++ ".")).length = 37 := by decide +kernel
  obtain ⟨l, x, y, rest, hlen, -, -, hjson⟩ := utf8_json h payload.type payload.jti iat exp
  have hpre : (utf8 "\x7b\"sub\":\"" ++ l.map asciiByte).length = 3 * 8 := by
    rw [List.length_append, List.length_map, hlen]
    rfl
  have hlong : 35 ≤ (sextets (utf8 (payload.json iat exp))).length := by
    rw [hjson, sextets_append _ ⟨8, hpre⟩, List.length_append, length_sextets hpre]
    simp only [sextets, List.length_cons]
    omega
  unfold bcryptWindow signed
  rw [utf8_append, utf8_append, utf8_append (base64url jwtHeader ++ "."), List.append_assoc,
    List.append_assoc, utf8_base64url (payload.json iat exp),
    show 72 = (utf8 (base64url jwtHeader ++ ".")).length + 35 by rw [hhead],
    List.take_length_add_append, List.take_append_of_le_length (by simpa using hlong), List.map_take]

theorem bcryptWindow_eq_iff {payload payload' : RefreshTokenPayload} (h : isUuid payload.sub = true)
    (h' : isUuid payload'.sub = true) (iat exp iat' exp' : Int) (signature signature' : String) :
    bcryptWindow (signed payload iat exp signature) =
        bcryptWindow (signed payload' iat' exp' signature') ↔
      payload.sub.toList.take 18 = payload'.sub.toList.take 18 := by
  obtain ⟨l, x, y, rest, hlen, htake, hascii, hjson⟩ :=
    utf8_json h payload.type payload.jti iat exp
  obtain ⟨l', x', y', rest', hlen', htake', hascii', hjson'⟩ :=
    utf8_json h' payload'.type payload'.jti iat' exp'
  have hsymbol : ∀ m n, m < 64 → n < 64 → asciiByte (symbol m) = asciiByte (symbol n) → m = n := by
    intro m n hm hn heq
    exact symbol_inj hm hn (asciiByte_inj (symbol_ascii hm) (symbol_ascii hn) heq)
  have hsextet : ∀ bytes, ∀ n ∈ (sextets bytes).take 35, n < 64 := by
    intro bytes n hn
    exact sextets_lt (List.mem_of_mem_take hn)
  have hpre : ∀ k : List Char, k.length = 16 →
      (utf8 "\x7b\"sub\":\"" ++ k.map asciiByte).length = 3 * 8 := by
    intro k hk
    rw [List.length_append, List.length_map, hk]
    rfl
  rw [bcryptWindow_signed h, bcryptWindow_signed h', List.append_cancel_left_eq,
    map_inj_within hsymbol (hsextet _) (hsextet _), hjson, hjson',
    take_sextets_eq_iff _ _ (hpre l hlen) (hpre l' hlen'), List.append_cancel_left_eq, htake, htake',
    ← map_inj_within (fun _ _ => asciiByte_inj) hascii hascii']
  simp [List.append_eq_append_iff_of_size_eq_left, hlen, hlen']

/-- Payloads can be read back, so those of equal tokens are equal. -/
theorem json_of_signed {payload payload' : RefreshTokenPayload} {iat exp iat' exp' : Int}
    {signature : String}
    (h : signed payload iat exp signature = signed payload' iat' exp' signature) :
    utf8 (payload.json iat exp) = utf8 (payload'.json iat' exp') := by
  have hchars := congrArg String.toList h
  unfold signed base64url at hchars
  simp only [String.toList_append, List.append_assoc, List.append_cancel_left_eq,
    String.toList_ofList] at hchars
  have htext := List.append_cancel_right hchars
  rw [← fromBase64url_toBase64url (utf8 (payload.json iat exp)), htext, fromBase64url_toBase64url]

/-! ## Two tokens -/

section

variable [Bcrypt] [Jwt] [JsString] [AuthConfig] {subjectId : Id} {type : AccountType}

/-- An `issueRefreshToken` has returned the token `t`, and has stored the hash for it. Whatever else
runs goes on in between. -/
def Mints (subjectId : Id) (type : AccountType) (t tokenHash : String) : Prop :=
  ∃ i cs id, Returns authSystem i (AuthService.issueRefreshToken subjectId type) cs t ∧
    .refreshTokensUpdateHash id tokenHash ∈ cs

theorem Mints.made {t tokenHash : String} (h : Mints subjectId type t tokenHash) :
    ∃ jti iat salt, t = Jwt.sign (.refresh ⟨subjectId, type, jti⟩) AuthConfig.jwtRefreshSecret
      AuthConfig.refreshTtlSec iat ∧ tokenHash = Bcrypt.hash salt t := by
  obtain ⟨i, cs, id, h, hmem⟩ := h
  obtain ⟨now, _, _, _, -, h₁, rfl⟩ := h.await
  obtain ⟨inserted, _, _, _, -, h₂, rfl⟩ := h₁.await
  obtain ⟨iat, _, _, _, -, h₃, rfl⟩ := h₂.await
  obtain ⟨made, _, _, _, hmade, h₄, rfl⟩ := h₃.await
  obtain ⟨u, _, _, _, -, h₅, rfl⟩ := h₄.await
  obtain ⟨salt, hsalt⟩ := says_of_answered hmade
  cases h₅
  refine ⟨inserted.id, iat, salt, rfl, ?_⟩
  have hlast : id = inserted.id ∧ tokenHash = made := by simpa using hmem
  rw [← hsalt, hlast.2]

/-- For a student who is there, a call by itself mints. -/
theorem mints_student {w : World} (huser : (w.users.get subjectId).isSome = true) (salt : String) :
    Mints subjectId .student
      (Jwt.sign (.refresh ⟨subjectId, .student, w.refreshTokenSeq⟩) AuthConfig.jwtRefreshSecret
        AuthConfig.refreshTtlSec w.now)
      (Bcrypt.hash salt (Jwt.sign (.refresh ⟨subjectId, .student, w.refreshTokenSeq⟩)
        AuthConfig.jwtRefreshSecret AuthConfig.refreshTtlSec w.now)) := by
  have howner : ∀ id tokenHash expiresAt,
      w.hasOwner ⟨id, some subjectId, none, .user, tokenHash, expiresAt, none⟩ = true := by
    intro id tokenHash expiresAt
    simp [World.hasOwner, huser]
  refine ⟨0, _, w.refreshTokenSeq, .call (w := w) (.exec (x := salt) rfl)
    (.call (w := w) (.exec (x := salt) (if_pos (howner _ _ _)))
      (.call (w := w) (.exec (x := salt) rfl) (.call (w := w) (.exec (x := salt) rfl)
        (.call (w := w) (.exec (x := salt) rfl) .ret)))), ?_⟩
  simp

/-- A token is rejected against the hash of another exactly when the subjects differ in their first
eighteen characters. -/
theorem compare_false_iff (hexact : ExactOnWindow) (hcompact : CompactJwt)
    {subjectId₁ subjectId₂ : Id} {type₁ type₂ : AccountType} {t₁ t₂ tokenHash₁ tokenHash₂ : String}
    (hid₁ : isUuid subjectId₁ = true) (hid₂ : isUuid subjectId₂ = true)
    (h₁ : Mints subjectId₁ type₁ t₁ tokenHash₁) (h₂ : Mints subjectId₂ type₂ t₂ tokenHash₂) :
    Bcrypt.compare t₁ tokenHash₂ = false ↔
      subjectId₁.toList.take 18 ≠ subjectId₂.toList.take 18 := by
  obtain ⟨jti₁, iat₁, salt₁, rfl, -⟩ := h₁.made
  obtain ⟨jti₂, iat₂, salt₂, rfl, rfl⟩ := h₂.made
  obtain ⟨signature₁, hsign₁⟩ := hcompact ⟨subjectId₁, type₁, jti₁⟩ AuthConfig.jwtRefreshSecret
    AuthConfig.refreshTtlSec iat₁ hid₁
  obtain ⟨signature₂, hsign₂⟩ := hcompact ⟨subjectId₂, type₂, jti₂⟩ AuthConfig.jwtRefreshSecret
    AuthConfig.refreshTtlSec iat₂ hid₂
  have hwindow := @bcryptWindow_eq_iff ⟨subjectId₁, type₁, jti₁⟩ ⟨subjectId₂, type₂, jti₂⟩
    hid₁ hid₂
  rw [hexact, hsign₁, hsign₂, decide_eq_false_iff_not, hwindow]

end

/-! ### Tokens of one student, and of two -/

/-- Stands in for the package. The signature only shows the length of one. -/
@[reducible] def compactJwt : Jwt where
  sign payload _ expiresIn iat :=
    match payload with
    | .access _ => "access"
    | .refresh payload => signed payload (iat / 1000) (iat / 1000 + expiresIn)
        (String.ofList (List.replicate 43 'A'))

theorem compactJwt_compact : @CompactJwt compactJwt := by
  intro payload secret expiresIn iat _
  exact ⟨_, rfl⟩

def kim : Id := "3f2b8c1e-7a44-4d0e-9b1c-5e6f7a8b9c0d"

def lee : Id := "a90d5c77-12ef-4b3a-8c6d-0f1e2d3c4b5a"

/-- A student, when the next refresh token gets the id. -/
def enrolled (id : Id) (jti : Nat) : World :=
  { bureau with
    users := Table.empty.put ⟨id, "u@example.com", "old", "A", "B",
      ⟨none, none, none, none, none, none, none, none, none⟩, "en", true, some 0, true⟩,
    refreshTokenSeq := jti }

section

attribute [local instance] windowBcrypt compactJwt plainString development

/-- The token that an issue to the student returns there. -/
def tokenOf (id : Id) (jti : Nat) : String :=
  Jwt.sign (.refresh ⟨id, .student, jti⟩) AuthConfig.jwtRefreshSecret AuthConfig.refreshTtlSec 0

theorem mints_tokenOf (id : Id) (jti : Nat) :
    Mints id .student (tokenOf id jti) (Bcrypt.hash "" (tokenOf id jti)) := by
  have huser : ((enrolled id jti).users.get id).isSome = true := by
    exact congrArg Option.isSome (Table.get_put_of_eq Table.empty rfl)
  exact mints_student huser ""

theorem compare_false_iff_two :
    (Bcrypt.compare (tokenOf kim 1) (Bcrypt.hash "" (tokenOf lee 2)) = false ↔
      kim.toList.take 18 ≠ lee.toList.take 18) ∧ kim.toList.take 18 ≠ lee.toList.take 18 :=
  ⟨compare_false_iff windowBcrypt_exact compactJwt_compact (by decide +kernel) (by decide +kernel)
    (mints_tokenOf kim 1) (mints_tokenOf lee 2), by decide⟩

/-- The token of a student's first login passes the check of their second. -/
theorem first_token_accepted :
    Mints kim .student (tokenOf kim 1) (Bcrypt.hash "" (tokenOf kim 1)) ∧
    Mints kim .student (tokenOf kim 2) (Bcrypt.hash "" (tokenOf kim 2)) ∧
    tokenOf kim 1 ≠ tokenOf kim 2 ∧
    Bcrypt.compare (tokenOf kim 1) (Bcrypt.hash "" (tokenOf kim 2)) = true := by
  refine ⟨mints_tokenOf kim 1, mints_tokenOf kim 2, fun hsame => ?_, ?_⟩
  · exact absurd (json_of_signed hsame) (by decide +kernel)
  rw [windowBcrypt_exact, decide_eq_true_eq]
  exact (bcryptWindow_eq_iff (by decide +kernel) (by decide +kernel) _ _ _ _ _ _).mpr rfl

end

end LmsBackend.Auth
