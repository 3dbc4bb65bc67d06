import LmsBackend.Auth.Dtos
import LmsBackend.Catalog.Filters
import LmsBackend.Catalog.Pages
import LmsBackend.Text.Base64url
import LmsBackend.Text.Json

/-!
# The texts that are cursors

`encodeCursor` and `decodeCursor` with their JSON and base64url. The decoder looks at nothing but
whether `ts` and `id` are truthy.
-/

open Store Text Text.Json

namespace LmsBackend.Catalog

/-- What `pg` sends for a parameter that is no string. -/
class Driver where
  text : Json → String
  text_ne : ∀ v, text v ≠ ""

section

variable [Driver]

/-- A truthy value as a parameter. -/
def parameter : Json → String
  | .string s => String.ofList (decodeUtf16 s)
  | v => Driver.text v

/-- `JSON.stringify(cursor)` -/
def stringify (c : DecodedCursor) : List Char :=
  writeObject [("ts".toList, c.ts.toList), ("id".toList, c.id.toList)]

/-- `Buffer.from(raw, 'base64url').toString('utf8')` -/
def bufferText (raw : String) : List Char := decodeUtf8 (fromBase64url raw.toList)

def field (v : Json) (key : String) : String :=
  match v.get key with
  | none => ""
  | some w => if w.truthy then parameter w else ""

def encodeText (c : DecodedCursor) : String :=
  String.ofList (toBase64url (encodeUtf8 (stringify c)))

/-- To read a property of `null` throws. -/
def readFields : Json → Option DecodedCursor
  | .null => none
  | v => some ⟨field v "ts", field v "id"⟩

def parseText (raw : String) : Option DecodedCursor := (parse (bufferText raw)).bind readFields

@[reducible] def jsonCursor : CursorText := ⟨encodeText, parseText⟩

/-! ## Reading back -/

omit [Driver] in
theorem decodeUtf16_ne_nil {s : List UInt16} (h : s ≠ []) : decodeUtf16 s ≠ [] := by
  unfold decodeUtf16
  split
  · exact absurd rfl h
  · exact List.cons_ne_nil _ _
  · split
    · exact List.cons_ne_nil _ _
    · exact List.cons_ne_nil _ _

theorem parameter_ne {v : Json} (h : v.truthy = true) : parameter v ≠ "" := by
  unfold parameter
  split
  · have hs := decodeUtf16_ne_nil (of_decide_eq_true h)
    intro hempty
    exact hs (String.ofList_inj.mp hempty)
  · exact Driver.text_ne _

theorem field_ne_iff {v : Json} {key : String} :
    field v key ≠ "" ↔ ∃ w, v.get key = some w ∧ w.truthy = true := by
  unfold field
  constructor
  · intro h
    split at h
    · exact absurd rfl h
    · split at h
      · exact ⟨_, ‹_›, ‹_›⟩
      · exact absurd rfl h
  · rintro ⟨w, hw, htruthy⟩
    rw [hw]
    dsimp only
    rw [if_pos htruthy]
    exact parameter_ne htruthy

theorem parameter_encodeUtf16 (s : String) : parameter (.string (encodeUtf16 s.toList)) = s := by
  unfold parameter
  dsimp only
  rw [decodeUtf16_encodeUtf16, String.ofList_toList]

theorem field_string {v : Json} {key s : String}
    (h : v.get key = some (.string (encodeUtf16 s.toList))) : field v key = s := by
  unfold field
  rw [h]
  dsimp only
  rw [parameter_encodeUtf16]
  split
  · rfl
  · -- An empty string is falsy, and is empty then.
    have hempty : encodeUtf16 s.toList = [] := by
      by_contra hne
      exact absurd (decide_eq_true hne) ‹_›
    have hdecoded := decodeUtf16_encodeUtf16 s.toList
    rw [hempty] at hdecoded
    exact (String.toList_eq_nil_iff.mp hdecoded.symm).symm

omit [Driver] in
theorem bufferText_encodeText (c : DecodedCursor) : bufferText (encodeText c) = stringify c := by
  unfold bufferText encodeText
  rw [String.toList_ofList, fromBase64url_toBase64url, decodeUtf8_encodeUtf8]

theorem parseText_encodeText (c : DecodedCursor) : parseText (encodeText c) = some c := by
  have hparse := parse_eq_some_iff.mpr (spells_element (spells_writeObject
    [("ts".toList, c.ts.toList), ("id".toList, c.id.toList)]))
  unfold parseText
  rw [bufferText_encodeText, stringify, hparse, Option.bind_some, readFields]
  · rw [field_string (s := c.ts) rfl, field_string (s := c.id) rfl]
  · intro hnull
    cases hnull

end

/-! ## Timestamps and ids -/

def daysIn (year month : Nat) : Nat :=
  if month = 2 then if year % 4 = 0 ∧ (year % 100 ≠ 0 ∨ year % 400 = 0) then 29 else 28
  else if month ∈ [4, 6, 9, 11] then 30
  else 31

/-- What `Date.prototype.toISOString` can make: a year of four digits, or of six with a sign, and
then twenty characters from the month on. -/
def isIsoTimestamp (s : String) : Bool :=
  let year := natOf ((s.toList.take (s.length - 20)).filter Char.isDigit)
  let number i := natOf (((s.toList.drop (s.length - 20)).drop i).take 2)
  (s.toList.map fun c => if c.isDigit then '0' else c) ∈
      ["0000-00-00T00:00:00.000Z".toList, "+000000-00-00T00:00:00.000Z".toList,
        "-000000-00-00T00:00:00.000Z".toList] ∧
    1 ≤ number 1 ∧ number 1 ≤ 12 ∧ 1 ≤ number 4 ∧ number 4 ≤ daysIn year (number 1) ∧
    number 7 < 24 ∧ number 10 < 60 ∧ number 13 < 60

def isUuid (s : String) : Bool :=
  (s.toList.map fun c => if (hexDigit? c).isSome then '0' else c) =
    "00000000-0000-0000-0000-000000000000".toList

/-- A timestamp and an id. -/
def DecodedCursor.valid (c : DecodedCursor) : Bool := isIsoTimestamp c.ts ∧ isUuid c.id

/-! ## The texts that get through -/

/-- The text makes the JSON of an object, say, whose `ts` and `id` are truthy. -/
def HasFields (raw : String) : Prop :=
  ∃ v ts id, Spells (.element v) (bufferText raw) ∧ v.get "ts" = some ts ∧ ts.truthy = true ∧
    v.get "id" = some id ∧ id.truthy = true

section

attribute [local instance] jsonCursor

variable [Driver] {raw : String} {c : DecodedCursor}

open CatalogService

omit [Driver] in
theorem ne_empty_of_valid (h : c.valid = true) : c.ts ≠ "" ∧ c.id ≠ "" := by
  obtain ⟨hts, hid⟩ := of_decide_eq_true h
  refine ⟨fun hempty => ?_, fun hempty => ?_⟩
  · rw [hempty] at hts
    exact absurd hts (by decide)
  · rw [hempty] at hid
    exact absurd hid (by decide)

theorem decodeCursor_encodeText (hts : c.ts ≠ "") (hid : c.id ≠ "") :
    decodeCursor (encodeText c) = .ok c := by
  have hparse : CursorText.parse (encodeText c) = some c := parseText_encodeText c
  unfold decodeCursor
  rw [hparse]
  exact if_neg (not_or.mpr ⟨hts, hid⟩)

theorem cursorText_parse (raw : String) :
    CursorText.parse raw = (parse (bufferText raw)).bind readFields := by
  change parseText raw = _
  rw [parseText]

theorem decodeCursor_of_parse {v : Json} (h : parse (bufferText raw) = some v) :
    decodeCursor raw =
      if field v "ts" = "" ∨ field v "id" = "" then .error (.badRequest "Invalid cursor")
      else .ok ⟨field v "ts", field v "id"⟩ := by
  have hfields : CursorText.parse raw = readFields v := by
    rw [cursorText_parse, h, Option.bind_some]
  unfold decodeCursor
  rw [hfields]
  rcases v with _ | b | n | t | vs | ms
  · rfl
  · rfl
  · rfl
  · rfl
  · rfl
  · rfl

theorem hasFields_iff {v : Json} (h : parse (bufferText raw) = some v) :
    HasFields raw ↔ field v "ts" ≠ "" ∧ field v "id" ≠ "" := by
  rw [field_ne_iff, field_ne_iff]
  constructor
  · rintro ⟨v', ts, id, hspells, hts, htruthy, hid, htruthy'⟩
    have hsame := parse_eq_some_iff.mpr hspells
    rw [h] at hsame
    cases hsame
    exact ⟨⟨ts, hts, htruthy⟩, ⟨id, hid, htruthy'⟩⟩
  · rintro ⟨⟨ts, hts, htruthy⟩, ⟨id, hid, htruthy'⟩⟩
    exact ⟨v, ts, id, parse_eq_some_iff.mp h, hts, htruthy, hid, htruthy'⟩

/-- The decoder asks for no more than the two fields. -/
theorem decodeCursor_cases (raw : String) :
    (HasFields raw ∧ ∃ c, decodeCursor raw = .ok c) ∨
    (¬HasFields raw ∧ decodeCursor raw = .error (.badRequest "Invalid cursor")) := by
  rcases hparse : parse (bufferText raw) with _ | v
  · refine .inr ⟨?_, ?_⟩
    · rintro ⟨v, _, _, hspells, _⟩
      rw [parse_eq_some_iff.mpr hspells] at hparse
      cases hparse
    · have hnone : CursorText.parse raw = none := by
        rw [cursorText_parse, hparse, Option.bind_none]
      unfold decodeCursor
      rw [hnone]
  · rw [decodeCursor_of_parse hparse, hasFields_iff hparse]
    by_cases hempty : field v "ts" = "" ∨ field v "id" = ""
    · exact .inr ⟨fun ⟨hts, hid⟩ => hempty.elim hts hid, if_pos hempty⟩
    · exact .inl ⟨not_or.mp hempty, _, if_neg hempty⟩

section

variable [JsDate] [Postgres] {query : CatalogQueryDto}

/-- The table is read after the cursor. -/
theorem list_error_iff (table : Table Certificate) (adminView : Bool) {e : Err} :
    list table query adminView = .error e ↔ cursorOf query = .error e := by
  unfold list
  rcases cursorOf query with e' | cursor
  · simp
  · simp

/-- Only what the decoder refuses is a bad request, and an empty text is not decoded. -/
theorem list_badRequest_iff (table : Table Certificate) (adminView : Bool)
    (hcursor : query.cursor = some raw) :
    list table query adminView = .error (.badRequest "Invalid cursor") ↔
      raw ≠ "" ∧ ¬HasFields raw := by
  rw [list_error_iff]
  unfold cursorOf
  rw [hcursor]
  by_cases hempty : raw = ""
  · rw [hempty, show given (some "") = none from rfl]
    simp
  · rw [show given (some raw) = some raw from if_pos (decide_eq_true hempty)]
    dsimp only
    rcases decodeCursor_cases raw with ⟨hfields, c, hc⟩ | ⟨hfields, hc⟩
    · rw [hc]
      dsimp only
      split
      · simp [hfields]
      · simp [hfields]
    · rw [hc]
      simp [hempty, hfields]

/-- A text is treated as the encoder's if it is one, or refused otherwise, unless it is empty or has
truthy fields. -/
theorem cursor_exact_iff (query : CatalogQueryDto) (raw : String) :
    ((∀ c : DecodedCursor, c.valid = true → raw = CursorText.encode c → decodeCursor raw = .ok c) ∧
      ((∀ c : DecodedCursor, c.valid = true → raw ≠ CursorText.encode c) →
        ∀ (table : Table Certificate) (adminView : Bool),
          list table { query with cursor := some raw } adminView =
            .error (.badRequest "Invalid cursor"))) ↔
    (∃ c : DecodedCursor, c.valid = true ∧ raw = CursorText.encode c) ∨
      raw ≠ "" ∧ ¬HasFields raw := by
  constructor
  · rintro ⟨_, hrefuses⟩
    by_cases hcursor : ∃ c : DecodedCursor, c.valid = true ∧ raw = CursorText.encode c
    · exact .inl hcursor
    · have hlist := hrefuses (fun c hvalid hraw => hcursor ⟨c, hvalid, hraw⟩) Table.empty false
      exact .inr ((list_badRequest_iff _ _ rfl).mp hlist)
  · intro hcondition
    refine ⟨?_, fun hother table adminView => ?_⟩
    · rintro c hvalid rfl
      obtain ⟨hts, hid⟩ := ne_empty_of_valid hvalid
      exact decodeCursor_encodeText hts hid
    · rcases hcondition with ⟨c, hvalid, hraw⟩ | hrefused
      · exact absurd hraw (hother c hvalid)
      · exact (list_badRequest_iff table adminView rfl).mpr hrefused

end

end

/-- Stands in for the driver where nothing but strings is sent. -/
@[reducible] def plainDriver : Driver := ⟨fun _ => "[object Object]", by simp⟩

/-- `{"ts":"x","id":"y"}` is sent to the database. -/
theorem cursor_slips :
    ¬∀ (raw : String) (query : CatalogQueryDto) (table : Table Certificate) (adminView : Bool),
      Auth.validatorLength raw ≤ 500 → query.cursor = some raw →
      (∀ c : DecodedCursor, c.valid = true → raw ≠ encodeText c) →
      @CatalogService.list (@jsonCursor plainDriver) plainDate plainPostgres table query adminView =
        .error (.badRequest "Invalid cursor") := by
  intro hall
  have hraw : "eyJ0cyI6IngiLCJpZCI6InkifQ" = encodeText ⟨"x", "y"⟩ := by decide +kernel
  have hlist := hall "eyJ0cyI6IngiLCJpZCI6InkifQ" ⟨none, none, none,
    some "eyJ0cyI6IngiLCJpZCI6InkifQ", none, none⟩ Table.empty false (by decide +kernel) rfl ?_
  · have hiff := @list_badRequest_iff plainDriver "eyJ0cyI6IngiLCJpZCI6InkifQ" plainDate
      plainPostgres ⟨none, none, none, _, none, none⟩ Table.empty false rfl
    obtain ⟨_, hfields⟩ := hiff.mp hlist
    rcases @decodeCursor_cases plainDriver "eyJ0cyI6IngiLCJpZCI6InkifQ" with ⟨h, _⟩ | ⟨_, hbad⟩
    · exact hfields h
    · rw [hraw, @decodeCursor_encodeText plainDriver _ (by decide) (by decide)] at hbad
      cases hbad
  · intro c hvalid hsame
    have hparse := @parseText_encodeText plainDriver c
    rw [← hsame, hraw, @parseText_encodeText plainDriver] at hparse
    cases hparse
    exact absurd hvalid (by decide)

end LmsBackend.Catalog
