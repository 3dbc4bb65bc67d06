import LmsBackend.Catalog.CatalogService
import LmsBackend.Store.Keyset

/-!
# What a listing selects

The text of the search has an OR and no brackets, so in a query with other
filters the OR splits the whole condition.
-/

open Store

namespace LmsBackend.Catalog

open CatalogService

/-! ## The order of the rows -/

section

variable {direction : Direction} {a b : Int ×ₗ String}

theorem Direction.lt_of_le (h : direction.le a b) (hne : a ≠ b) : direction.lt a b := by
  cases direction with
  | asc => exact lt_of_le_of_ne h hne
  | desc => exact lt_of_le_of_ne h hne.symm

theorem Direction.trans {c : Int ×ₗ String} (h : direction.lt a b) (h' : direction.lt b c) :
    direction.lt a c := by
  cases direction with
  | asc => exact lt_trans h h'
  | desc => exact lt_trans h' h

theorem Direction.irrefl : ¬direction.lt a a := by
  cases direction <;> exact lt_irrefl a

end

/-- `a` comes before `b` in the listing. -/
abbrev Certificate.before (direction : Direction) (a b : Certificate) : Prop :=
  direction.lt a.key b.key

instance (direction : Direction) : Std.Irrefl (Certificate.before direction) :=
  ⟨fun _ => Direction.irrefl⟩

instance (direction : Direction) : Std.Asymm (Certificate.before direction) :=
  ⟨fun _ _ h h' => Direction.irrefl (Direction.trans h h')⟩

instance (direction : Direction) :
    Std.Total fun a b : Certificate => direction.le a.key b.key :=
  ⟨fun a b => by cases direction <;> exact le_total _ _⟩

instance (direction : Direction) :
    IsTrans Certificate fun a b => direction.le a.key b.key :=
  ⟨fun a b c h h' => by
    cases direction with
    | asc => exact le_trans h h'
    | desc => exact le_trans h' h⟩

section

variable [Postgres] {table : Table Certificate} {query : CatalogQueryDto} {adminView : Bool}
  {cursor : Option (Int × String)} {c : Certificate}

theorem mem_selected :
    c ∈ selected table query adminView cursor ↔
      c ∈ table.rows ∧ (whereText query adminView cursor).holds c = true := by
  unfold selected
  rw [List.mem_insertionSort, List.mem_filter]

theorem selected_sorted :
    (selected table query adminView cursor).Pairwise
      (Certificate.before (directionOf query)) := by
  have hle := List.pairwise_insertionSort
    (fun a b : Certificate => (directionOf query).le a.key b.key)
    (table.rows.filter (whereText query adminView cursor).holds)
  have hne : (selected table query adminView cursor).Pairwise fun a b => a.id ≠ b.id := by
    have hnodup : ((table.rows.filter (whereText query adminView cursor).holds).map
        Certificate.id).Nodup := table.nodup.sublist (List.filter_sublist.map _)
    have hperm := (List.perm_insertionSort
      (fun a b : Certificate => (directionOf query).le a.key b.key)
      (table.rows.filter (whereText query adminView cursor).holds)).map Certificate.id
    exact List.pairwise_map.mp (hperm.nodup_iff.mpr hnodup)
  refine (hle.and hne).imp ?_
  rintro a b ⟨hle, hne⟩
  refine Direction.lt_of_le hle fun hkey => hne ?_
  exact congrArg (fun k : Int ×ₗ String => (ofLex k).2) hkey

theorem countP_selected (p : Certificate → Bool) :
    (selected table query adminView cursor).countP p =
      table.rows.countP fun d => p d && (whereText query adminView cursor).holds d := by
  unfold selected
  rw [(List.perm_insertionSort _ _).countP_eq, List.countP_filter]

end

/-! ## A page -/

section

variable [CursorText] [JsDate] [Postgres] {table : Table Certificate} {query : CatalogQueryDto}
  {adminView : Bool} {cursor : Option (Int × String)} {page : CatalogPage}

/-- A page is the first rows, with the cursor of its last row when there are more. -/
theorem list_eq (hcursor : cursorOf query = .ok cursor) :
    list table query adminView =
      let rows := selected table query adminView cursor
      let limit := limitOf query
      .ok ⟨rows.take limit, limit,
        if limit < rows.length then (rows.take limit).getLast?.map encodeCursor else none,
        limit < rows.length⟩ := by
  unfold list
  rw [hcursor]
  simp only [List.length_take, Except.ok.injEq, CatalogPage.mk.injEq, true_and, decide_eq_true_eq]
  have hmore : limitOf query < min (limitOf query + 1) (selected table query adminView cursor).length ↔
      limitOf query < (selected table query adminView cursor).length := by
    omega
  simp only [hmore]
  by_cases h : limitOf query < (selected table query adminView cursor).length
  · simp [h, List.take_take]
  · have hall : (selected table query adminView cursor).length ≤ limitOf query := by omega
    simp [h, List.take_of_length_le hall, List.take_of_length_le (Nat.le_succ_of_le hall)]

end

/-! ## The filters -/

section

variable [Postgres]

/-- The active filter and the program code. -/
def Passes (query : CatalogQueryDto) (adminView : Bool) (c : Certificate) : Prop :=
  (∀ a ∈ activeFilter query adminView, c.active = a) ∧
    ∀ pc ∈ given query.programCode, c.programCode = pc

def InEnTitle (s : String) (c : Certificate) : Prop :=
  c.titleEn.any (Postgres.ilike · (searchPattern s)) = true

def InTitle (s : String) (c : Certificate) : Prop :=
  Postgres.ilike c.title (searchPattern s) = true

/-- Strictly beyond the cursor, when there is one. -/
def Beyond (query : CatalogQueryDto) (cursor : Option (Int × String)) (c : Certificate) : Prop :=
  ∀ k ∈ cursor, (directionOf query).lt (toLex k) c.key

/-- Every filter of the query at once. -/
structure Satisfies (query : CatalogQueryDto) (adminView : Bool) (cursor : Option (Int × String))
    (c : Certificate) : Prop where
  passes : Passes query adminView c
  search : ∀ s ∈ given query.search, InEnTitle s c ∨ InTitle s c
  beyond : Beyond query cursor c

/-- One side of the OR selects the row although a filter on the other side does not. -/
def Slips (query : CatalogQueryDto) (adminView : Bool) (cursor : Option (Int × String))
    (c : Certificate) : Prop :=
  ∃ s ∈ given query.search, InEnTitle s c ∧ Passes query adminView c ∧ ¬Beyond query cursor c ∨
    InTitle s c ∧ Beyond query cursor c ∧ ¬Passes query adminView c

variable {table : Table Certificate} {query : CatalogQueryDto} {adminView : Bool}
  {cursor : Option (Int × String)} {c : Certificate}

/-- Without a search the texts are joined as they are meant. -/
theorem holds_without_search (hs : given query.search = none) :
    (whereText query adminView cursor).holds c = true ↔
      Passes query adminView c ∧ Beyond query cursor c := by
  unfold whereText conditions Passes Beyond
  rw [hs]
  cases activeFilter query adminView <;> cases given query.programCode <;> cases cursor <;>
    simp [WhereText.and, WhereText.holds, Condition.holds, and_assoc]

/-- With a search the OR splits them. -/
theorem holds_with_search {s : String} (hs : given query.search = some s) :
    (whereText query adminView cursor).holds c = true ↔
      Passes query adminView c ∧ InEnTitle s c ∨ InTitle s c ∧ Beyond query cursor c := by
  unfold whereText conditions Passes Beyond InEnTitle InTitle
  rw [hs]
  cases activeFilter query adminView <;> cases given query.programCode <;> cases cursor <;>
    simp [WhereText.and, WhereText.holds, Condition.holds, and_assoc]

/-- What the condition selects satisfies the filters, or slips through it. -/
theorem holds_iff :
    (whereText query adminView cursor).holds c = true ↔
      Satisfies query adminView cursor c ∨ Slips query adminView cursor c := by
  cases hs : given query.search with
  | none =>
    rw [holds_without_search hs]
    constructor
    · rintro ⟨hpasses, hbeyond⟩
      exact .inl ⟨hpasses, by simp [hs], hbeyond⟩
    · rintro (h | ⟨s, h, -⟩)
      · exact ⟨h.passes, h.beyond⟩
      · rw [hs] at h
        cases h
  | some s =>
    rw [holds_with_search hs]
    constructor
    · intro h
      by_cases hall : Passes query adminView c ∧ Beyond query cursor c
      · left
        refine ⟨hall.1, fun s' hs' => ?_, hall.2⟩
        rw [hs, Option.mem_def, Option.some.injEq] at hs'
        subst hs'
        exact h.imp And.right And.left
      · right
        refine ⟨s, hs, ?_⟩
        rcases h with ⟨hpasses, htitle⟩ | ⟨htitle, hbeyond⟩
        · exact .inl ⟨htitle, hpasses, fun hbeyond => hall ⟨hpasses, hbeyond⟩⟩
        · exact .inr ⟨htitle, hbeyond, fun hpasses => hall ⟨hpasses, hbeyond⟩⟩
    · rintro (h | ⟨s', hs', h⟩)
      · rcases h.search s hs with htitle | htitle
        · exact .inl ⟨h.passes, htitle⟩
        · exact .inr ⟨htitle, h.beyond⟩
      · rw [hs, Option.mem_def, Option.some.injEq] at hs'
        subst hs'
        rcases h with ⟨htitle, hpasses, -⟩ | ⟨htitle, hbeyond, -⟩
        · exact .inl ⟨hpasses, htitle⟩
        · exact .inr ⟨htitle, hbeyond⟩

theorem Slips.not_satisfies (h : Slips query adminView cursor c) :
    ¬Satisfies query adminView cursor c := by
  obtain ⟨s, -, ⟨-, -, hnot⟩ | ⟨-, -, hnot⟩⟩ := h
  · exact fun hall => hnot hall.beyond
  · exact fun hall => hnot hall.passes

/-- How many rows that the condition selects come before the row. -/
def rowsBefore (table : Table Certificate) (query : CatalogQueryDto) (adminView : Bool)
    (cursor : Option (Int × String)) (c : Certificate) : Nat :=
  table.rows.countP fun d =>
    decide (Certificate.before (directionOf query) d c) &&
      (whereText query adminView cursor).holds d

end

section

variable [CursorText] [JsDate] [Postgres] {table : Table Certificate} {query : CatalogQueryDto}
  {adminView : Bool} {cursor : Option (Int × String)} {page : CatalogPage}

/-- Every row of a page satisfies every filter if and only if each row that slips through has
enough rows before it to be left off the page. -/
theorem filters_conjoined (hcursor : cursorOf query = .ok cursor)
    (hpage : list table query adminView = .ok page) :
    (∀ c ∈ page.data, Satisfies query adminView cursor c) ↔
      ∀ c ∈ table.rows, Slips query adminView cursor c →
        limitOf query ≤ rowsBefore table query adminView cursor c := by
  have hmem : ∀ c, c ∈ page.data ↔ (c ∈ table.rows ∧
      (whereText query adminView cursor).holds c = true) ∧
      rowsBefore table query adminView cursor c < limitOf query := by
    intro c
    rw [list_eq hcursor] at hpage
    obtain rfl := Except.ok.inj hpage
    rw [Keyset.mem_take_iff selected_sorted, mem_selected, countP_selected]
    rfl
  constructor
  · intro hall c hc hslips
    by_contra hfew
    have hdata := (hmem c).mpr ⟨⟨hc, holds_iff.mpr (.inr hslips)⟩, Nat.lt_of_not_le hfew⟩
    exact hslips.not_satisfies (hall c hdata)
  · intro hall c hc
    obtain ⟨⟨hrow, hholds⟩, hfew⟩ := (hmem c).mp hc
    rcases holds_iff.mp hholds with h | h
    · exact h
    · exact absurd (hall c hrow h) (Nat.not_le.mpr hfew)

end

/-! ## Two certificates -/

/-- Stand in for what the code calls, in runs: a text contains what is between the `%`, and a time is
written as so many digits. -/
@[reducible] def plainPostgres : Postgres where
  ilike value pattern :=
    value.toList.tails.any fun tail => ((pattern.toList.drop 1).dropLast).isPrefixOf tail
  timestamptz text := some (text.length * 1000)

@[reducible] def plainDate : JsDate where
  toISOString ms := String.ofList (List.replicate ms.toNat '1')

@[reducible] def plainCursor : CursorText where
  encode c := c.ts ++ "," ++ c.id
  parse text :=
    some ⟨String.ofList (text.toList.takeWhile (· ≠ ',')),
      String.ofList ((text.toList.dropWhile (· ≠ ',')).drop 1)⟩

/-- An active one, and an inactive one that was created at the given time. -/
def scrum (createdAt : Int) : Table Certificate :=
  (Table.empty.put ⟨"A", 5000, "Scrum Master", some "Scrum Master", "PSM", true⟩).put
    ⟨"B", createdAt, "Scrum Developer", none, "PSD", false⟩

def searchScrum (limit : Nat) : CatalogQueryDto := ⟨some "Scrum", none, none, none, some limit, none⟩

/-- The inactive certificate is the older one, and the page has room for one. -/
theorem filters_conjoined_page :
    ∃ page, @list plainCursor plainDate plainPostgres (scrum 3000) (searchScrum 1) false = .ok page ∧
      page.data ≠ [] ∧
      ∀ c ∈ page.data, @Satisfies plainPostgres (searchScrum 1) false none c := by
  obtain ⟨page, hpage, hne⟩ : ∃ page,
      @list plainCursor plainDate plainPostgres (scrum 3000) (searchScrum 1) false = .ok page ∧
        page.data ≠ [] :=
    ⟨_, rfl, by decide⟩
  refine ⟨page, hpage, hne, ?_⟩
  refine (@filters_conjoined plainCursor plainDate plainPostgres _ _ _ none page rfl hpage).mpr ?_
  have hfew : ∀ c ∈ (scrum 3000).rows, c.id = "A" ∨
      1 ≤ @rowsBefore plainPostgres (scrum 3000) (searchScrum 1) false none c := by
    decide
  intro c hc hslips
  rcases hfew c hc with hid | hfew
  · obtain ⟨s, -, ⟨-, -, hbeyond⟩ | ⟨-, -, hpasses⟩⟩ := hslips
    · exact absurd (fun k hk => by cases hk) hbeyond
    · refine absurd ?_ hpasses
      have hactive : ∀ c ∈ (scrum 3000).rows, c.id = "A" → c.active = true := by decide
      refine ⟨fun a ha => ?_, fun pc hpc => by cases hpc⟩
      obtain rfl := Option.some.inj ha
      exact hactive c hc hid
  · exact hfew

/-- The inactive certificate is on the public page. -/
theorem filters_slip :
    ¬∀ (table : Table Certificate) (query : CatalogQueryDto) (adminView : Bool)
      (cursor : Option (Int × String)) (page : CatalogPage),
      @cursorOf plainCursor plainPostgres query = .ok cursor →
      @list plainCursor plainDate plainPostgres table query adminView = .ok page →
      ∀ c ∈ page.data, @Satisfies plainPostgres query adminView cursor c := by
  intro hall
  obtain ⟨page, hpage, c, hc, hactive⟩ : ∃ page,
      @list plainCursor plainDate plainPostgres (scrum 6000) (searchScrum 1) false = .ok page ∧
        ∃ c ∈ page.data, c.active = false :=
    ⟨_, rfl, by decide⟩
  obtain ⟨⟨hfilter, -⟩, -, -⟩ := hall _ _ _ none page rfl hpage c hc
  have htrue : c.active = true := hfilter true rfl
  rw [hactive] at htrue
  cases htrue

end LmsBackend.Catalog
