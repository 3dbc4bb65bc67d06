import LmsBackend.Exams.Entities
import LmsBackend.Store.Table
import Mathlib.Data.Prod.Lex
import Mathlib.Data.String.Basic

/-!
# `CatalogService.list`

The listing of certificates. A row stands for its item: the locale and
`toItemDto` are left out. `created_at` is in microseconds, as Postgres has it.
-/

open Store

namespace LmsBackend.Catalog

/-- `titleEn` is `translations -> 'en' ->> 'title'`. -/
structure Certificate where
  id : Id
  createdAt : Int
  title : String
  titleEn : Option String
  programCode : String
  active : Bool
  deriving DecidableEq, Repr

instance : Keyed Certificate Id := ⟨Certificate.id⟩

inductive Direction where
  | asc
  | desc
  deriving DecidableEq, Repr

/-- The validated query string. `sort` is `created_at` or `-created_at`. -/
structure CatalogQueryDto where
  search : Option String
  programCode : Option String
  active : Option Bool
  cursor : Option String
  limit : Option Nat
  sort : Option Direction
  deriving DecidableEq, Repr

structure DecodedCursor where
  ts : String
  id : String
  deriving DecidableEq, Repr

/-- `JSON` and base64url. A field that is missing is empty here, since both are refused. -/
class CursorText where
  encode : DecodedCursor → String
  parse : String → Option DecodedCursor

/-- `Date.prototype.toISOString`, for the milliseconds since 1970. -/
class JsDate where
  toISOString : Int → String

/-- `ILIKE`, and reading a `timestamptz` (in microseconds) from a text. -/
class Postgres where
  ilike : (value pattern : String) → Bool
  timestamptz : String → Option Int

inductive Err where
  | badRequest (message : String)
  | notFound (message : String)
  /-- What the database rejects with. -/
  | infra (message : String)
  deriving DecidableEq, Repr

/-! ## Conditions

`andWhere` joins the texts of the conditions with AND. A text is kept as it
reads: an OR of ANDs, since AND binds tighter. -/

inductive Condition where
  | active (a : Bool)
  | programCode (pc : String)
  | titleEnLike (s : String)
  | titleLike (s : String)
  /-- `(c.created_at, c.id::text) < (:ts, :id)`, or `>` when ascending. -/
  | beyond (direction : Direction) (ts : Int) (id : String)
  deriving DecidableEq, Repr

abbrev WhereText := List (List Condition)

/-- `a AND b`. The last AND of `a` and the first of `b` become one. -/
def WhereText.and : WhereText → WhereText → WhereText
  | [], b => b
  | [c], [] => [c]
  | [c], d :: ds => (c ++ d) :: ds
  | c :: cs, b => c :: WhereText.and cs b

/-- The order of the rows: by `created_at`, then by `id`. -/
def Certificate.key (c : Certificate) : Int ×ₗ String := toLex (c.createdAt, c.id)

/-- The first of the two comes before the second. -/
def Direction.lt (direction : Direction) (a b : Int ×ₗ String) : Prop :=
  match direction with
  | .asc => a < b
  | .desc => b < a

def Direction.le (direction : Direction) (a b : Int ×ₗ String) : Prop :=
  match direction with
  | .asc => a ≤ b
  | .desc => b ≤ a

instance (direction : Direction) (a b : Int ×ₗ String) : Decidable (direction.lt a b) :=
  match direction with
  | .asc => inferInstanceAs (Decidable (a < b))
  | .desc => inferInstanceAs (Decidable (b < a))

instance (direction : Direction) (a b : Int ×ₗ String) : Decidable (direction.le a b) :=
  match direction with
  | .asc => inferInstanceAs (Decidable (a ≤ b))
  | .desc => inferInstanceAs (Decidable (b ≤ a))

section

variable [Postgres]

/-- A NULL makes the condition NULL, which selects nothing. -/
def Condition.holds (c : Certificate) : Condition → Bool
  | active a => c.active = a
  | programCode pc => c.programCode = pc
  | titleEnLike s => c.titleEn.any (Postgres.ilike · s)
  | titleLike s => Postgres.ilike c.title s
  | beyond direction ts id => direction.lt (toLex (ts, id)) c.key

/-- No condition at all selects every row. -/
def WhereText.holds (wh : WhereText) (c : Certificate) : Bool :=
  wh = [] ∨ wh.any (·.all (·.holds c)) = true

end

/-! ## `CatalogService` -/

namespace CatalogService

def defaultLimit : Nat := 20
def maxLimit : Nat := 100

structure CatalogPage where
  data : List Certificate
  limit : Nat
  nextCursor : Option String
  hasMore : Bool
  deriving DecidableEq, Repr

def limitOf (query : CatalogQueryDto) : Nat := min (query.limit.getD defaultLimit) maxLimit

def directionOf (query : CatalogQueryDto) : Direction := query.sort.getD .desc

/-- An empty string is falsy. -/
def given (s : Option String) : Option String := s.filter (· ≠ "")

def activeFilter (query : CatalogQueryDto) (adminView : Bool) : Option Bool :=
  if adminView then query.active else some (query.active.getD true)

def searchPattern (search : String) : String := "%" ++ search ++ "%"

/-- The texts that are given to `andWhere`, in their order. -/
def conditions (query : CatalogQueryDto) (adminView : Bool) (cursor : Option (Int × String)) :
    List WhereText :=
  ((activeFilter query adminView).map fun a => [[.active a]]).toList ++
    ((given query.programCode).map fun pc => [[.programCode pc]]).toList ++
    ((given query.search).map fun s =>
      [[.titleEnLike (searchPattern s)], [.titleLike (searchPattern s)]]).toList ++
    (cursor.map fun (ts, id) => [[.beyond (directionOf query) ts id]]).toList

def whereText (query : CatalogQueryDto) (adminView : Bool) (cursor : Option (Int × String)) :
    WhereText :=
  (conditions query adminView cursor).foldl WhereText.and []

section

variable [CursorText] [JsDate] [Postgres]

/-- The driver gives a `Date`, which has milliseconds. -/
def encodeCursor (c : Certificate) : String :=
  CursorText.encode ⟨JsDate.toISOString (c.createdAt / 1000), c.id⟩

def decodeCursor (raw : String) : Except Err DecodedCursor :=
  match CursorText.parse raw with
  | none => .error (.badRequest "Invalid cursor")
  | some parsed =>
    if parsed.ts = "" ∨ parsed.id = "" then .error (.badRequest "Invalid cursor") else .ok parsed

/-- The cursor as the database reads it. -/
def cursorOf (query : CatalogQueryDto) : Except Err (Option (Int × String)) :=
  match given query.cursor with
  | none => .ok none
  | some raw =>
    match decodeCursor raw with
    | .error e => .error e
    | .ok decoded =>
      match Postgres.timestamptz decoded.ts with
      | none => .error (.infra "invalid input syntax for type timestamp with time zone")
      | some ts => .ok (some (ts, decoded.id))

/-- The rows that the conditions select, in order. -/
def selected (table : Table Certificate) (query : CatalogQueryDto) (adminView : Bool)
    (cursor : Option (Int × String)) : List Certificate :=
  (table.rows.filter (whereText query adminView cursor).holds).insertionSort fun a b =>
    (directionOf query).le a.key b.key

def list (table : Table Certificate) (query : CatalogQueryDto) (adminView : Bool) :
    Except Err CatalogPage :=
  match cursorOf query with
  | .error e => .error e
  | .ok cursor =>
    let limit := limitOf query
    -- One more, to see whether there is more.
    let rows := (selected table query adminView cursor).take (limit + 1)
    let hasMore : Bool := limit < rows.length
    let page := if hasMore then rows.take limit else rows
    let nextCursor := if hasMore then page.getLast?.map encodeCursor else none
    .ok ⟨page, limit, nextCursor, hasMore⟩

def getById (table : Table Certificate) (id : Id) (adminView : Bool) : Except Err Certificate :=
  match table.get id with
  | none => .error (.notFound "Certificate not found")
  | some cert =>
    -- An inactive certificate is hidden as if it did not exist.
    if !adminView ∧ !cert.active then .error (.notFound "Certificate not found")
    else .ok cert

end

end CatalogService

/-! ## `CatalogController` -/

namespace CatalogController

section

variable [CursorText] [JsDate] [Postgres]

def list (table : Table Certificate) (query : CatalogQueryDto) :
    Except Err CatalogService.CatalogPage :=
  CatalogService.list table query false

end

def getOne (table : Table Certificate) (id : Id) : Except Err Certificate :=
  CatalogService.getById table id false

end CatalogController

end LmsBackend.Catalog
