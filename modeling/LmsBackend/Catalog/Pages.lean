import LmsBackend.Catalog.Filters

/-!
# The pages of a listing

A cursor has the time of its row in milliseconds, and the row has microseconds.
Going up, the row itself is beyond its cursor; going down, rows of the same
millisecond are not.
-/

open Store

namespace LmsBackend.Catalog

open CatalogService

instance (query : CatalogQueryDto) (adminView : Bool) (c : Certificate) :
    Decidable (Passes query adminView c) :=
  inferInstanceAs (Decidable ((∀ a ∈ activeFilter query adminView, c.active = a) ∧
    ∀ pc ∈ given query.programCode, c.programCode = pc))

/-- The rows that match the filters, in order. -/
def inOrder (table : Table Certificate) (query : CatalogQueryDto) (adminView : Bool) :
    List Certificate :=
  (table.rows.filter fun c => Passes query adminView c).insertionSort fun a b =>
    (directionOf query).le a.key b.key

/-- `created_at` as the driver gives it, back in microseconds. -/
def Certificate.truncated (c : Certificate) : Int := c.createdAt / 1000 * 1000

/-- `x` is beyond the cursor of `r`. -/
def beyondCursor (direction : Direction) (r x : Certificate) : Prop :=
  direction.lt (toLex (r.truncated, r.id)) x.key

instance (direction : Direction) (r : Certificate) : DecidablePred (beyondCursor direction r) :=
  fun x => inferInstanceAs (Decidable (direction.lt _ x.key))

/-- The cursor of `r` goes on with the next row `s`. -/
def GoesOn (direction : Direction) (r s : Certificate) : Prop :=
  match direction with
  | .asc => r.createdAt % 1000 = 0
  | .desc => s.key < toLex (r.truncated, r.id)

section

variable {table : Table Certificate} {query : CatalogQueryDto} {adminView : Bool}

theorem mem_inOrder {c : Certificate} :
    c ∈ inOrder table query adminView ↔ c ∈ table.rows ∧ Passes query adminView c := by
  unfold inOrder
  rw [List.mem_insertionSort, List.mem_filter, decide_eq_true_eq]

variable [Postgres]

theorem inOrder_eq (hs : given query.search = none) :
    selected table query adminView none = inOrder table query adminView := by
  unfold selected inOrder
  congr 1
  refine List.filter_congr fun c _ => ?_
  rw [Bool.eq_iff_iff, holds_without_search hs]
  simp [Beyond]

theorem inOrder_sorted (hs : given query.search = none) :
    (inOrder table query adminView).Pairwise (Certificate.before (directionOf query)) := by
  rw [← inOrder_eq hs]
  exact selected_sorted

end

section

variable [CursorText] [JsDate] [Postgres]

/-- What is assumed of JSON, base64url, dates and ids, for the rows of the table. -/
structure ReadsBack (table : Table Certificate) : Prop where
  parse : ∀ c ∈ table.rows, CursorText.parse (encodeCursor c) =
    some ⟨JsDate.toISOString (c.createdAt / 1000), c.id⟩
  encode : ∀ c ∈ table.rows, encodeCursor c ≠ ""
  iso : ∀ c ∈ table.rows, JsDate.toISOString (c.createdAt / 1000) ≠ ""
  date : ∀ c ∈ table.rows,
    Postgres.timestamptz (JsDate.toISOString (c.createdAt / 1000)) = some c.truncated
  id : ∀ c ∈ table.rows, c.id ≠ ""

/-- Follows `nextCursor` from page to page. `none` while there is no last page yet. -/
def followPages (table : Table Certificate) (adminView : Bool) :
    (fuel : Nat) → CatalogQueryDto → Option (List CatalogPage)
  | 0, _ => none
  | fuel + 1, query =>
    match list table query adminView with
    | .error _ => none
    | .ok page =>
      match page.nextCursor with
      | none => some [page]
      | some cursor =>
        (followPages table adminView fuel { query with cursor := some cursor }).map (page :: ·)

variable {table : Table Certificate} {query : CatalogQueryDto} {adminView : Bool}

/-- The query for the page after the row, or for the first page. -/
def pageQuery (query : CatalogQueryDto) (r : Option Certificate) : CatalogQueryDto :=
  { query with cursor := r.map encodeCursor }

theorem cursorOf_pageQuery (h : ReadsBack table) {r : Option Certificate}
    (hr : ∀ c ∈ r, c ∈ table.rows) :
    cursorOf (pageQuery query r) = .ok (r.map fun c => (c.truncated, c.id)) := by
  cases r with
  | none => rfl
  | some c =>
    have hc := hr c rfl
    have hgiven : given (pageQuery query (some c)).cursor = some (encodeCursor c) := by
      simp [given, pageQuery, Option.filter, h.encode c hc]
    unfold cursorOf
    rw [hgiven]
    simp [decodeCursor, h.parse c hc, h.id c hc, h.iso c hc, h.date c hc]

/-- What the query for the page after the row selects. -/
theorem selected_pageQuery (hs : given query.search = none) (r : Option Certificate) :
    selected table (pageQuery query r) adminView (r.map fun c => (c.truncated, c.id)) =
      Keyset.matching (beyondCursor (directionOf query)) (inOrder table query adminView) r := by
  cases r with
  | none =>
    exact (inOrder_eq hs : selected table (pageQuery query none) adminView none = _)
  | some c =>
    refine List.Pairwise.eq_of_mem_iff (r := Certificate.before (directionOf query)) ?_ ?_ ?_
    · show List.Pairwise (Certificate.before (directionOf (pageQuery query (some c)))) _
      exact selected_sorted
    · exact (inOrder_sorted hs).sublist List.filter_sublist
    · intro x
      have hholds : (whereText (pageQuery query (some c)) adminView
            (some (c.truncated, c.id))).holds x = true ↔
          Passes (pageQuery query (some c)) adminView x ∧
            Beyond (pageQuery query (some c)) (some (c.truncated, c.id)) x :=
        holds_without_search hs
      unfold Keyset.matching
      rw [mem_selected, Option.map_some, hholds, List.mem_filter, mem_inOrder, and_assoc,
        decide_eq_true_eq]
      refine and_congr_right fun _ => and_congr Iff.rfl ?_
      simp [Beyond, beyondCursor, directionOf, pageQuery]

/-- The pages are those of the keyset. -/
theorem followPages_eq (h : ReadsBack table) (hs : given query.search = none)
    (hlimit : 0 < limitOf query) (fuel : Nat) {r : Option Certificate}
    (hr : ∀ c ∈ r, c ∈ table.rows) :
    (followPages table adminView fuel (pageQuery query r)).map (·.map (·.data)) =
      Keyset.follow (beyondCursor (directionOf query)) (inOrder table query adminView)
        (limitOf query) fuel r := by
  induction fuel generalizing r with
  | zero => rfl
  | succ fuel ih =>
    have hcursor : cursorOf (pageQuery query r) = _ := cursorOf_pageQuery h hr
    have hlist : list table (pageQuery query r) adminView = _ := list_eq hcursor
    rw [selected_pageQuery hs] at hlist
    unfold followPages Keyset.follow
    rw [hlist]
    simp only [show limitOf (pageQuery query r) = limitOf query from rfl]
    by_cases hmore : limitOf query < (Keyset.matching (beyondCursor (directionOf query))
        (inOrder table query adminView) r).length
    · obtain ⟨x, hx⟩ : ∃ x, ((Keyset.matching (beyondCursor (directionOf query))
          (inOrder table query adminView) r).take (limitOf query)).getLast? = some x := by
        rw [← Option.isSome_iff_exists, List.getLast?_isSome, ne_eq, List.take_eq_nil_iff]
        rintro (hzero | hnil)
        · omega
        · rw [hnil] at hmore
          exact absurd hmore (Nat.not_lt_zero _)
      have hrow : x ∈ table.rows := by
        have hmem := List.mem_of_mem_take (List.mem_of_getLast? hx)
        have hin : x ∈ inOrder table query adminView := by
          cases r with
          | none => exact hmem
          | some c => exact (List.mem_filter.mp hmem).1
        exact (mem_inOrder.mp hin).1
      have hnext := ih (r := some x) (fun c hc => by cases hc; exact hrow)
      rw [if_pos hmore, if_pos hmore, hx, ← hnext, Option.map_map]
      simp only [Option.map_some, Option.map_map]
      rfl
    · rw [if_neg hmore, if_neg hmore]
      rfl

end

/-! ## Where a page ends -/

section

variable {direction : Direction} {r s : Certificate}

theorem truncated_le (c : Certificate) : c.truncated ≤ c.createdAt := by
  unfold Certificate.truncated
  omega

/-- What is beyond a cursor stays beyond it down the list. -/
theorem beyondCursor_up {x y : Certificate} (hxy : x.before direction y)
    (hx : beyondCursor direction r x) : beyondCursor direction r y :=
  Direction.trans hx hxy

theorem separates_iff (h : r.before direction s) :
    Keyset.Separates (beyondCursor direction) r s ↔ GoesOn direction r s := by
  have htrunc := truncated_le r
  unfold Keyset.Separates beyondCursor GoesOn
  cases direction with
  | asc =>
    have hself : ¬toLex (r.truncated, r.id) < r.key ↔ r.createdAt % 1000 = 0 := by
      unfold Certificate.key
      rw [Prod.Lex.toLex_lt_toLex]
      simp only [lt_self_iff_false, and_false, or_false]
      unfold Certificate.truncated
      omega
    refine ⟨fun hsep => hself.mp hsep.1, fun hwhole => ⟨hself.mpr hwhole, ?_⟩⟩
    have hkey : toLex (r.truncated, r.id) = r.key := by
      unfold Certificate.key Certificate.truncated
      congr 2
      omega
    rw [hkey]
    exact h
  | desc =>
    refine ⟨fun hsep => hsep.2, fun hlt => ⟨fun hself => ?_, hlt⟩⟩
    have hlt : r.key < toLex (r.truncated, r.id) := hself
    unfold Certificate.key at hlt
    rw [Prod.Lex.toLex_lt_toLex] at hlt
    simp only [lt_self_iff_false, and_false, or_false] at hlt
    omega

end

section

variable [CursorText] [JsDate] [Postgres] {table : Table Certificate} {query : CatalogQueryDto}
  {adminView : Bool}

/-- Following the cursors ends, with the matching rows, each once and in order, if and only if the
cursor goes on with the next row wherever a page ends. -/
theorem pages_exact_iff (h : ReadsBack table) (hs : given query.search = none)
    (hfirst : query.cursor = none) (hlimit : 0 < limitOf query) :
    (∃ fuel pages, followPages table adminView fuel query = some pages ∧
      pages.flatMap (·.data) = inOrder table query adminView) ↔
    ∀ k r s, (inOrder table query adminView)[k * limitOf query + limitOf query - 1]? = some r →
      (inOrder table query adminView)[k * limitOf query + limitOf query]? = some s →
        GoesOn (directionOf query) r s := by
  have hquery : pageQuery query none = query := by
    cases query
    cases hfirst
    rfl
  have hpages : ∀ fuel, (followPages table adminView fuel query).map (·.map (·.data)) =
      Keyset.follow (beyondCursor (directionOf query)) (inOrder table query adminView)
        (limitOf query) fuel none := by
    intro fuel
    have heq : (followPages table adminView fuel (pageQuery query none)).map (·.map (·.data)) =
        Keyset.follow (beyondCursor (directionOf query)) (inOrder table query adminView)
          (limitOf query) fuel none :=
      followPages_eq h hs hlimit fuel fun c hc => by cases hc
    rwa [hquery] at heq
  have hup : ∀ r x y : Certificate, x.before (directionOf query) y →
      beyondCursor (directionOf query) r x → beyondCursor (directionOf query) r y :=
    fun _ _ _ hxy hx => beyondCursor_up hxy hx
  have hsorted : (inOrder table query adminView).Pairwise (Certificate.before (directionOf query)) :=
    inOrder_sorted hs
  have hexact := Keyset.follow_exact_iff hsorted hup hlimit
  have hleft : (∃ fuel pages, followPages table adminView fuel query = some pages ∧
      pages.flatMap (·.data) = inOrder table query adminView) ↔
      ∃ fuel ps, Keyset.follow (beyondCursor (directionOf query)) (inOrder table query adminView)
        (limitOf query) fuel none = some ps ∧ ps.flatten = inOrder table query adminView := by
    constructor
    · rintro ⟨fuel, pages, hfollow, hflat⟩
      refine ⟨fuel, pages.map (·.data), ?_, ?_⟩
      · rw [← hpages, hfollow, Option.map_some]
      · rw [← hflat, List.flatMap_def]
    · rintro ⟨fuel, ps, hfollow, hflat⟩
      rw [← hpages] at hfollow
      obtain ⟨pages, hpages, rfl⟩ := Option.map_eq_some_iff.mp hfollow
      exact ⟨fuel, pages, hpages, by rw [← hflat, List.flatMap_def]⟩
  rw [hleft, hexact]
  unfold Keyset.Separated
  refine forall_congr' fun k => forall_congr' fun r => forall_congr' fun s => ?_
  refine imp_congr_right fun hr => imp_congr_right fun hs' => ?_
  refine separates_iff ?_
  obtain ⟨hri, hr⟩ := List.getElem?_eq_some_iff.mp hr
  obtain ⟨hsi, hs'⟩ := List.getElem?_eq_some_iff.mp hs'
  rw [← hr, ← hs']
  exact List.pairwise_iff_getElem.mp (inOrder_sorted hs) _ _ hri hsi (by omega)

end

/-! ### Runs -/

/-- Certificates that were created at these times. -/
def created (a b c : Int) : Table Certificate :=
  ((Table.empty.put ⟨"A", a, "", none, "", true⟩).put ⟨"B", b, "", none, "", true⟩).put
    ⟨"C", c, "", none, "", true⟩

def oneByOne (direction : Direction) : CatalogQueryDto :=
  ⟨none, none, none, none, some 1, some direction⟩

/-- Whole milliseconds, two of them the same. -/
theorem pages_exact_whole :
    ∃ fuel pages, @followPages plainCursor plainDate plainPostgres (created 5000 3000 5000) false fuel
        (oneByOne .asc) = some pages ∧
      pages.flatMap (·.data) = inOrder (created 5000 3000 5000) (oneByOne .asc) false := by
  have hback : @ReadsBack plainCursor plainDate plainPostgres (created 5000 3000 5000) :=
    @ReadsBack.mk plainCursor plainDate plainPostgres _ (by decide) (by decide) (by decide)
      (by decide) (by decide)
  have hwhole : ∀ c ∈ (created 5000 3000 5000).rows, c.createdAt % 1000 = 0 := by decide
  refine (@pages_exact_iff plainCursor plainDate plainPostgres _ _ _ hback rfl rfl (by decide)).mpr ?_
  intro k r s hr _
  exact hwhole r (mem_inOrder.mp (List.mem_of_getElem? hr)).1

/-- Newest first. "B" is of the same millisecond as "A", so it is not beyond the cursor of "A". -/
theorem pages_lose :
    ¬∀ (table : Table Certificate) (query : CatalogQueryDto) (adminView : Bool),
      @ReadsBack plainCursor plainDate plainPostgres table → given query.search = none →
      query.cursor = none → 0 < limitOf query →
      ∃ fuel pages,
        @followPages plainCursor plainDate plainPostgres table adminView fuel query = some pages ∧
        pages.flatMap (·.data) = inOrder table query adminView := by
  intro hall
  have hback : @ReadsBack plainCursor plainDate plainPostgres (created 5500 5200 3000) :=
    @ReadsBack.mk plainCursor plainDate plainPostgres _ (by decide) (by decide) (by decide)
      (by decide) (by decide)
  obtain ⟨fuel, pages, hfollow, hflat⟩ := hall (created 5500 5200 3000) (oneByOne .desc) false hback
    rfl rfl (by decide)
  have hpages : ∀ n, (@followPages plainCursor plainDate plainPostgres (created 5500 5200 3000) false
      (n + 2) (oneByOne .desc)).map (fun pages => (pages.flatMap (·.data)).map (·.id)) =
        some ["A", "C"] := by
    intro n
    rfl
  have hids : (inOrder (created 5500 5200 3000) (oneByOne .desc) false).map (·.id) =
      ["A", "B", "C"] := by
    decide
  match fuel with
  | 0 => cases hfollow
  | 1 => cases hfollow
  | n + 2 =>
    have hgot := hpages n
    rw [hfollow, Option.map_some, hflat, hids] at hgot
    exact absurd hgot (by decide)

end LmsBackend.Catalog
