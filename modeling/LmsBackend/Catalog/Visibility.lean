import LmsBackend.Catalog.Filters

/-!
# What the public sees

The public listing takes `active` from the query string, and a search has an OR
that the active filter does not reach. Both let inactive certificates through.
-/

open Store

namespace LmsBackend.Catalog

open CatalogService

/-! ## Inactive certificates that the condition selects -/

section

variable [Postgres] {table table' : Table Certificate} {query : CatalogQueryDto}
  {cursor : Option (Int × String)} {c : Certificate}

/-- The query asks for inactive certificates and the certificate passes, or its title is found and
the active filter is on the other side of the OR. -/
def Exposed (query : CatalogQueryDto) (cursor : Option (Int × String)) (c : Certificate) : Prop :=
  (query.active = some false ∧ (Satisfies query false cursor c ∨ Slips query false cursor c)) ∨
    (query.active ≠ some false ∧ ∃ s ∈ given query.search, InTitle s c ∧ Beyond query cursor c)

omit [Postgres] in
theorem asks_of_passes (hc : c.active = false) (h : Passes query false c) :
    query.active = some false := by
  have hfilter : c.active = query.active.getD true := h.1 _ rfl
  rw [hc] at hfilter
  cases ha : query.active with
  | none =>
    rw [ha] at hfilter
    cases hfilter
  | some a =>
    rw [ha] at hfilter
    exact congrArg some hfilter.symm

theorem holds_iff_exposed (hc : c.active = false) :
    (whereText query false cursor).holds c = true ↔ Exposed query cursor c := by
  unfold Exposed
  by_cases hasks : query.active = some false
  · rw [holds_iff]
    simp [hasks]
  · have hnot : ¬Passes query false c := fun h => hasks (asks_of_passes hc h)
    simp only [hasks, false_and, false_or, ne_eq, not_false_eq_true, true_and]
    cases hs : given query.search with
    | none =>
      rw [holds_without_search hs]
      simp [hnot]
    | some s =>
      rw [holds_with_search hs]
      simp [hnot]

/-- The tables have the same active certificates. -/
def SameActive (table table' : Table Certificate) : Prop :=
  ∀ c, c.active = true → (c ∈ table.rows ↔ c ∈ table'.rows)

/-- The condition selects no inactive certificate, whatever the table. -/
def HidesInactive (query : CatalogQueryDto) (cursor : Option (Int × String)) : Prop :=
  ∀ c : Certificate, c.active = false → (whereText query false cursor).holds c = false

theorem selected_same (hhides : HidesInactive query cursor) (hsame : SameActive table table') :
    selected table query false cursor = selected table' query false cursor := by
  refine List.Pairwise.eq_of_mem_iff (r := Certificate.before (directionOf query))
    selected_sorted selected_sorted ?_
  intro c
  rw [mem_selected, mem_selected]
  cases hc : c.active with
  | false => simp [hhides c hc]
  | true => rw [hsame c hc]

/-- A time on the far side of the cursor. -/
def timeBeyond (query : CatalogQueryDto) (cursor : Option (Int × String)) : Int :=
  match cursor, directionOf query with
  | none, _ => 0
  | some (ts, _), .asc => ts + 1
  | some (ts, _), .desc => ts - 1

omit [Postgres] in
theorem beyond_timeBeyond (hc : c.createdAt = timeBeyond query cursor) : Beyond query cursor c := by
  intro k hk
  obtain rfl := Option.mem_def.mp hk
  unfold timeBeyond at hc
  unfold Certificate.key
  cases hdirection : directionOf query with
  | asc =>
    rw [hdirection] at hc
    refine Prod.Lex.toLex_lt_toLex.mpr (.inl ?_)
    simp only at hc ⊢
    omega
  | desc =>
    rw [hdirection] at hc
    refine Prod.Lex.toLex_lt_toLex.mpr (.inl ?_)
    simp only at hc ⊢
    omega

/-- No text matches the search. -/
def FindsNothing (query : CatalogQueryDto) : Prop :=
  ∃ s ∈ given query.search, ∀ text, Postgres.ilike text (searchPattern s) = false

/-- The condition hides every inactive certificate if and only if the query neither asks for them
nor searches, or no text matches its search. -/
theorem hidesInactive_iff :
    HidesInactive query cursor ↔
      (query.active ≠ some false ∧ given query.search = none) ∨ FindsNothing query := by
  constructor
  · intro hhides
    by_contra hnot
    have hnothing : ¬FindsNothing query := fun h => hnot (.inr h)
    -- A title that the search finds, when there is a search.
    obtain ⟨title, htitle⟩ : ∃ title, ∀ s ∈ given query.search,
        Postgres.ilike title (searchPattern s) = true := by
      cases hs : given query.search with
      | none => exact ⟨"", nofun⟩
      | some s =>
        by_contra hall
        refine hnothing ⟨s, hs, fun text => ?_⟩
        by_contra hmatch
        refine hall ⟨text, fun s' hs' => ?_⟩
        obtain rfl := Option.some.inj hs'
        simpa using hmatch
    let c : Certificate :=
      ⟨"", timeBeyond query cursor, title, some title, (given query.programCode).getD "", false⟩
    have hbeyond : Beyond query cursor c := beyond_timeBeyond rfl
    have hholds : (whereText query false cursor).holds c = true := by
      rw [holds_iff_exposed rfl]
      by_cases hasks : query.active = some false
      · refine .inl ⟨hasks, .inl ⟨⟨?_, ?_⟩, fun s hs => .inr (htitle s hs), hbeyond⟩⟩
        · intro a ha
          simp only [activeFilter, Bool.false_eq_true, if_false, hasks, Option.getD_some,
            Option.mem_def, Option.some.injEq] at ha
          exact ha
        · intro pc hpc
          simp [c, Option.mem_def.mp hpc]
      · obtain ⟨s, hs⟩ : ∃ s, given query.search = some s := by
          cases hs : given query.search with
          | none => exact absurd (.inl ⟨hasks, hs⟩) hnot
          | some s => exact ⟨s, rfl⟩
        exact .inr ⟨hasks, s, hs, htitle s hs, hbeyond⟩
    rw [hhides c rfl] at hholds
    cases hholds
  · rintro (⟨hasks, hs⟩ | ⟨s, hs, hnone⟩) c hc
    · rw [Bool.eq_false_iff, ne_eq, holds_without_search hs]
      exact fun h => hasks (asks_of_passes hc h.1)
    · have hen : ¬InEnTitle s c := by
        unfold InEnTitle
        cases c.titleEn with
        | none => simp
        | some text => simp [hnone text]
      have htitle : ¬InTitle s c := by
        unfold InTitle
        simp [hnone c.title]
      rw [Bool.eq_false_iff, ne_eq, holds_with_search hs]
      rintro (h | h)
      · exact hen h.2
      · exact htitle h.1

end

/-! ## The public endpoints -/

theorem getOne_ok_iff {table : Table Certificate} {c : Certificate} (hc : c ∈ table.rows) :
    (∃ detail, CatalogController.getOne table c.id = .ok detail) ↔ c.active = true := by
  have hget : table.get c.id = some c := Table.mem_rows_iff.mp hc
  unfold CatalogController.getOne getById
  rw [hget]
  cases hactive : c.active <;> simp [hactive]

section

variable [CursorText] [JsDate] [Postgres] {table : Table Certificate} {query : CatalogQueryDto}
  {cursor : Option (Int × String)} {page : CatalogPage} {c : Certificate}

theorem mem_page (hcursor : cursorOf query = .ok cursor)
    (hpage : CatalogController.list table query = .ok page) :
    c ∈ page.data ↔ (c ∈ table.rows ∧ (whereText query false cursor).holds c = true) ∧
      rowsBefore table query false cursor c < limitOf query := by
  unfold CatalogController.list at hpage
  rw [list_eq hcursor] at hpage
  obtain rfl := Except.ok.inj hpage
  rw [Keyset.mem_take_iff selected_sorted, mem_selected, countP_selected]
  rfl

/-- A page has active certificates only, if and only if every inactive one that is exposed has
enough rows before it to be left off the page. -/
theorem page_active_iff (hcursor : cursorOf query = .ok cursor)
    (hpage : CatalogController.list table query = .ok page) :
    (∀ c ∈ page.data, c.active = true) ↔
      ∀ c ∈ table.rows, c.active = false → Exposed query cursor c →
        limitOf query ≤ rowsBefore table query false cursor c := by
  constructor
  · intro hall c hc hinactive hexposed
    by_contra hfew
    have hactive := hall c ((mem_page hcursor hpage).mpr
      ⟨⟨hc, (holds_iff_exposed hinactive).mpr hexposed⟩, Nat.lt_of_not_le hfew⟩)
    rw [hinactive] at hactive
    cases hactive
  · intro hall c hc
    obtain ⟨⟨hrow, hholds⟩, hfew⟩ := (mem_page hcursor hpage).mp hc
    by_contra hactive
    have hinactive : c.active = false := by simpa using hactive
    exact absurd (hall c hrow hinactive ((holds_iff_exposed hinactive).mp hholds))
      (Nat.not_le.mpr hfew)

/-- Inactive certificates make no difference to the listing, if and only if the condition selects
none, or the cursor is refused. -/
theorem list_same_iff (hlimit : 0 < limitOf query) :
    (∀ table table', SameActive table table' →
      CatalogController.list table query = CatalogController.list table' query) ↔
      ∀ cursor, cursorOf query = .ok cursor → HidesInactive query cursor := by
  constructor
  · intro hall cursor hcursor c hc
    by_contra hholds
    have hholds : (whereText query false cursor).holds c = true := by simpa using hholds
    have hsame : SameActive Table.empty (Table.empty.put c) := by
      intro d hd
      rw [Table.mem_put]
      constructor
      · intro h
        cases h
      · rintro (rfl | h)
        · rw [hc] at hd
          cases hd
        · exact h.1
    have hlist := hall _ _ hsame
    obtain ⟨page, hpage⟩ : ∃ page, CatalogController.list Table.empty query = .ok page :=
      ⟨_, list_eq hcursor⟩
    -- The certificate is on the page of the table that has it, and the pages are equal.
    have hmem : c ∈ page.data := by
      rw [mem_page hcursor (hlist.symm.trans hpage)]
      refine ⟨⟨Table.mem_put.mpr (.inl rfl), hholds⟩, ?_⟩
      refine lt_of_eq_of_lt (List.countP_eq_zero.mpr fun d hd => ?_) hlimit
      rcases Table.mem_put.mp hd with rfl | h
      · simp [Direction.irrefl]
      · cases h.1
    cases ((mem_page hcursor hpage).mp hmem).1.1
  · intro hhides table table' hsame
    unfold CatalogController.list
    cases hcursor : cursorOf query with
    | error e =>
      unfold CatalogService.list
      rw [hcursor]
    | ok cursor => rw [list_eq hcursor, list_eq hcursor, selected_same (hhides cursor hcursor) hsame]

/-- What the public endpoints show. -/
theorem public_shows_active (hlimit : 0 < limitOf query) :
    (∀ table cursor page, cursorOf query = .ok cursor →
      CatalogController.list table query = .ok page →
      ((∀ c ∈ page.data, c.active = true ∧
          ∃ detail, CatalogController.getOne table c.id = .ok detail) ↔
        ∀ c ∈ table.rows, c.active = false → Exposed query cursor c →
          limitOf query ≤ rowsBefore table query false cursor c)) ∧
    ((∀ table table', SameActive table table' →
        CatalogController.list table query = CatalogController.list table' query) ↔
      (query.active ≠ some false ∧ given query.search = none) ∨ FindsNothing query ∨
        ∃ e, cursorOf query = .error e) := by
  constructor
  · intro table cursor page hcursor hpage
    rw [← page_active_iff hcursor hpage]
    refine forall₂_congr fun c hc => ?_
    have hrow : c ∈ table.rows := ((mem_page hcursor hpage).mp hc).1.1
    rw [getOne_ok_iff hrow, and_self]
  · rw [list_same_iff hlimit, ← or_assoc]
    cases hcursor : cursorOf query with
    | error e => simp
    | ok cursor =>
      simp only [Except.ok.injEq, forall_eq', reduceCtorEq, exists_false, or_false]
      exact hidesInactive_iff

end

/-- The inactive certificate that the search finds is the older one, and the page has room for one. -/
theorem public_shows_active_page :
    ∃ page, @CatalogController.list plainCursor plainDate plainPostgres (scrum 3000)
        (searchScrum 1) = .ok page ∧
      page.data ≠ [] ∧ ∀ c ∈ page.data, c.active = true ∧
        ∃ detail, CatalogController.getOne (scrum 3000) c.id = .ok detail := by
  obtain ⟨page, hpage, hne⟩ : ∃ page,
      @CatalogController.list plainCursor plainDate plainPostgres (scrum 3000) (searchScrum 1) =
        .ok page ∧ page.data ≠ [] :=
    ⟨_, rfl, by decide⟩
  refine ⟨page, hpage, hne, ?_⟩
  refine ((@public_shows_active plainCursor plainDate plainPostgres (searchScrum 1)
    (by decide)).1 (scrum 3000) none page rfl hpage).mpr ?_
  have hfew : ∀ c ∈ (scrum 3000).rows, c.active = false →
      1 ≤ @rowsBefore plainPostgres (scrum 3000) (searchScrum 1) false none c := by
    decide
  exact fun c hc hinactive _ => hfew c hc hinactive

/-- The listing has the inactive certificate, which `GET /catalog/:id` answers with 404. -/
theorem inactive_listed :
    ¬∀ (table : Table Certificate) (query : CatalogQueryDto) (page : CatalogPage),
      @CatalogController.list plainCursor plainDate plainPostgres table query = .ok page →
      ∀ c ∈ page.data, c.active = true ∧
        ∃ detail, CatalogController.getOne table c.id = .ok detail := by
  intro hall
  obtain ⟨page, hpage, c, hc, hinactive⟩ : ∃ page,
      @CatalogController.list plainCursor plainDate plainPostgres (scrum 6000) (searchScrum 1) =
        .ok page ∧ ∃ c ∈ page.data, c.active = false :=
    ⟨_, rfl, by decide⟩
  obtain ⟨hactive, -⟩ := hall _ _ page hpage c hc
  rw [hinactive] at hactive
  cases hactive

end LmsBackend.Catalog
