import LmsBackend.Content.OneCall
import LmsBackend.Content.Writes

/-!
# Two updates of one document

Every update of translations reads the whole document, merges in memory and
writes it back. When two of them read before either writes, the second write
takes back what the first has added.
-/

open Async Store

namespace LmsBackend.Content

/-! ## Merges -/

/-- The row whose document is updated. -/
inductive Target where
  | certificate (id : Id)
  | learningModule (id : Id)
  | lesson (id : Id)
  deriving DecidableEq, Repr

def Target.doc? (w : World) : Target → Option Translations
  | .certificate id => (w.certificates.get id).map (·.translations)
  | .learningModule id => (w.modules.get id).map (·.translations)
  | .lesson id => (w.lessons.get id).map (·.translations)

structure Merge where
  target : Target
  incoming : Translations

/-- An update whose body supplies translations and nothing else. -/
def Task.merge? : Task → Option Merge
  | .update id ⟨.undefined, .undefined, .undefined, .undefined, .undefined, .undefined, .undefined,
      .value incoming⟩ => some ⟨.certificate id, incoming⟩
  | .updateTranslations id incoming => some ⟨.certificate id, incoming⟩
  | .updateModule id ⟨.undefined, .undefined, .undefined, .undefined, .value incoming⟩ =>
    some ⟨.learningModule id, incoming⟩
  | .updateLesson id ⟨.undefined, .undefined, .undefined, .undefined, .undefined, .undefined,
      .value incoming⟩ => some ⟨.lesson id, incoming⟩
  | _ => none

/-- The blocks of the locales other than English. -/
def Translations.others (t : Translations) : List LocaleBlock := t.rows.filter (·.locale ≠ "en")

theorem get_of_others {t t' : Translations} (h : t.others = t'.others) {locale : String}
    (hlocale : locale ≠ "en") : t.get locale = t'.get locale := by
  have hfind : ∀ t : Translations, t.get locale = t.others.find? fun b => b.locale = locale := by
    intro t
    rw [Translations.others, List.find?_filter, Table.get]
    congr
    funext b
    by_cases hb : b.locale = locale
    · simp [hb, hlocale]
    · simp [hb]
  rw [hfind, hfind, h]

theorem others_put_en (t : Translations) (block : Block) :
    Translations.others (t.put ⟨"en", block⟩) = t.others := by
  have hreplace : ∀ l : List LocaleBlock,
      (l.map fun b => if b.locale = "en" then ⟨"en", block⟩ else b).filter (·.locale ≠ "en") =
        l.filter (·.locale ≠ "en") := by
    intro l
    induction l with
    | nil => rfl
    | cons b l ih =>
      rw [List.map_cons, List.filter_cons, List.filter_cons, ih]
      by_cases hb : b.locale = "en"
      · simp [hb]
      · simp [hb]
  unfold Translations.others Table.put
  split
  · exact hreplace t.rows
  · rw [List.filter_append]
    simp

theorem others_merge {bodyKey title : String} {body : Option String}
    {existing incoming : Translations} :
    (mergeTranslations bodyKey existing (.value incoming) title body).others =
      (existing.spread incoming).others := by
  unfold mergeTranslations
  simp only
  split
  · rfl
  · exact others_put_en _ _

/-! ## The phases of an update -/

inductive MergePhase where
  /-- Any other task. -/
  | other
  | unread (m : Merge)
  /-- It has the document in memory. -/
  | holding (m : Merge) (document : Translations)
  | written (m : Merge)
  /-- Only an error is left. -/
  | stopped

/-- What a read of the row gives. `none` for any other call. -/
def Target.read? : Target → (call : Call) → Resp call → Option (Option Translations)
  | .certificate id, .certificateFindOne id', row? =>
    if id' = id then some (row?.map (·.translations)) else none
  | .learningModule id, .moduleFindOne id', row? =>
    if id' = id then some (row?.map (·.translations)) else none
  | .lesson id, .lessonFindOne id', row? =>
    if id' = id then some (row?.map (·.translations)) else none
  | _, _, _ => none

/-- What a write sets. `none` for any other call. -/
def Target.set? : Target → Call → Option Translations
  | .certificate id, .certificateUpdate id' patch =>
    if id' = id then patch.translations.toOption else none
  | .learningModule id, .moduleUpdate id' patch =>
    if id' = id then patch.translations.toOption else none
  | .lesson id, .lessonUpdate id' patch => if id' = id then patch.translations.toOption else none
  | _, _ => none

attribute [local simp] Target.read? Target.set?

def MergePhase.next : MergePhase → (call : Call) → Resp call → Option MergePhase
  | .other, _, _ => some .other
  | .unread m, call, a =>
    match m.target.read? call a with
    | some (some document) => some (.holding m document)
    | some none => some .stopped
    | none => none
  | .holding m document, call, _ =>
    match m.target.set? call with
    | some set =>
      if set.others = (document.spread m.incoming).others then some (.written m) else none
    | none => none
  | .written m, call, _ => if call.writes then none else some (.written m)
  | .stopped, _, _ => none

def merging : Monitor Call Resp Err Reply Task MergePhase where
  start t := t.merge?.elim .other .unread
  next := MergePhase.next
  failed
    | .other, _ => .other
    | _, _ => .stopped
  final
    | .ok _, g => g = .other ∨ ∃ m, g = .written m
    | .error _, _ => True

@[simp] theorem merging_next : merging.next = MergePhase.next := rfl

theorem merging_then {g : MergePhase} {c : Call} {α : Type} {f : Resp c → Promise α}
    {Q : α → MergePhase → Prop} {F : Err → MergePhase → Prop}
    (hf : ∀ a, ∃ g', g.next c a = some g' ∧ merging.wp (f a) g' Q F)
    (hF : ∀ e g, F e g) : merging.wp (await c >>= f) g Q F :=
  (merging.wp_bind f).mpr ((merging.wp_await c).mpr ⟨hf, fun e => hF e _⟩)

theorem other_keeps (t : Task) : merging.Keeps (contentSystem.prog t) .other := by
  have hstay := merging.wp_stay (p := contentSystem.prog t) (g := .other) (fun _ _ => rfl) fun _ => rfl
  exact merging.wp_mono hstay (fun _ _ hg => .inl hg) fun _ _ _ => trivial

/-- How all four updates end: the write, then a read of the row. -/
theorem write_keeps {m : Merge} {document set : Translations} {write read : Call}
    (hset : m.target.set? write = some set)
    (hothers : set.others = (document.spread m.incoming).others) (hread : read.writes = false) :
    merging.wp (await write >>= fun _ => await read) (.holding m document)
      (fun _ g => g = .written m) fun _ _ => True := by
  refine merging_then (fun _ => ⟨.written m, ?_, ?_⟩) fun _ _ => trivial
  · simp only [MergePhase.next, hset]
    exact if_pos hothers
  · refine (merging.wp_await _).mpr ⟨fun _ => ⟨.written m, ?_, rfl⟩, fun _ => trivial⟩
    simp only [merging_next, MergePhase.next, hread]
    rfl

theorem reply_keeps {m : Merge} {α : Type} {p : Promise α} {f : α → Reply}
    (hp : merging.wp p (.unread m) (fun _ g => g = .written m) fun _ _ => True) :
    merging.Keeps (p >>= fun a => pure (f a)) (.unread m) :=
  (merging.wp_bind _).mpr (merging.wp_mono hp (fun _ _ hg => .inr ⟨m, hg⟩) fun _ _ _ => trivial)

theorem update_keeps_merging (id : Id) (incoming : Translations) :
    merging.Keeps (contentSystem.prog (.update id
      { CatalogService.noPatch with translations := .value incoming }))
      (.unread ⟨.certificate id, incoming⟩) := by
  refine reply_keeps ?_
  unfold CatalogService.update
  refine merging_then (fun cert? => ?_) fun _ _ => trivial
  cases cert? with
  | none => exact ⟨.stopped, by simp [MergePhase.next, Target.read?], trivial⟩
  | some cert =>
    refine ⟨.holding ⟨.certificate id, incoming⟩ cert.translations,
      by simp [MergePhase.next, Target.read?], ?_⟩
    exact write_keeps (if_pos rfl) others_merge rfl

theorem updateTranslations_keeps (id : Id) (incoming : Translations) :
    merging.Keeps (contentSystem.prog (.updateTranslations id incoming))
      (.unread ⟨.certificate id, incoming⟩) := by
  refine reply_keeps ?_
  unfold CatalogService.updateTranslations
  refine merging_then (fun cert? => ?_) fun _ _ => trivial
  cases cert? with
  | none => exact ⟨.stopped, by simp [MergePhase.next, Target.read?], trivial⟩
  | some cert =>
    refine ⟨.holding ⟨.certificate id, incoming⟩ cert.translations,
      by simp [MergePhase.next, Target.read?], ?_⟩
    cases hfind : incoming.rows.find? fun b => !isLocale b.locale with
    | some b => trivial
    | none =>
      have hset : Target.set? (.certificate id)
          (.certificateUpdate id (CatalogService.translationsPatch incoming cert)) =
          some (cert.translations.spread incoming) := by
        rw [Target.set?, if_pos rfl, CatalogService.translationsPatch_translations]
        rfl
      exact write_keeps hset rfl rfl

theorem updateModule_keeps (id : Id) (incoming : Translations) :
    merging.Keeps (contentSystem.prog (.updateModule id
      ⟨.undefined, .undefined, .undefined, .undefined, .value incoming⟩))
      (.unread ⟨.learningModule id, incoming⟩) := by
  refine reply_keeps ?_
  unfold LearningService.updateModule
  refine merging_then (fun mod? => ?_) fun _ _ => trivial
  cases mod? with
  | none => exact ⟨.stopped, by simp [MergePhase.next, Target.read?], trivial⟩
  | some mod =>
    refine ⟨.holding ⟨.learningModule id, incoming⟩ mod.translations,
      by simp [MergePhase.next, Target.read?], ?_⟩
    exact write_keeps (if_pos rfl) others_merge rfl

theorem updateLesson_keeps (id : Id) (incoming : Translations) :
    merging.Keeps (contentSystem.prog (.updateLesson id
      ⟨.undefined, .undefined, .undefined, .undefined, .undefined, .undefined, .value incoming⟩))
      (.unread ⟨.lesson id, incoming⟩) := by
  refine reply_keeps ?_
  unfold LearningService.updateLesson
  refine merging_then (fun lesson? => ?_) fun _ _ => trivial
  cases lesson? with
  | none => exact ⟨.stopped, by simp [MergePhase.next, Target.read?], trivial⟩
  | some lesson =>
    refine ⟨.holding ⟨.lesson id, incoming⟩ lesson.translations,
      by simp [MergePhase.next, Target.read?], ?_⟩
    exact write_keeps (if_pos rfl) others_merge rfl

theorem merging_sound : merging.Sound contentSystem := by
  intro t
  cases hmerge : t.merge? with
  | none =>
    change merging.Keeps _ (t.merge?.elim .other .unread)
    rw [hmerge]
    exact other_keeps t
  | some m =>
    change merging.Keeps _ (t.merge?.elim .other .unread)
    rw [hmerge]
    unfold Task.merge? at hmerge
    split at hmerge
    · cases hmerge
      exact update_keeps_merging _ _
    · cases hmerge
      exact updateTranslations_keeps _ _
    · cases hmerge
      exact updateModule_keeps _ _
    · cases hmerge
      exact updateLesson_keeps _ _
    · cases hmerge

/-! ## Reads and writes of the document -/

section

variable {i : Nat} {w w' : World} {call : Call} {target : Target}

theorem read_doc {a : Resp call} {document? : Option Translations}
    (h : Answered contentSystem i call w (.ok a) w') (hread : target.read? call a = some document?) :
    call.writes = false ∧ w' = w ∧ target.doc? w = document? := by
  unfold Target.read? at hread
  split at hread
  · split at hread
    · rename_i hid
      cases hid
      cases hread
      cases h with
      | exec hx =>
        cases hx
        exact ⟨rfl, rfl, rfl⟩
    · cases hread
  · split at hread
    · rename_i hid
      cases hid
      cases hread
      cases h with
      | exec hx =>
        cases hx
        exact ⟨rfl, rfl, rfl⟩
    · cases hread
  · split at hread
    · rename_i hid
      cases hid
      cases hread
      cases h with
      | exec hx =>
        cases hx
        exact ⟨rfl, rfl, rfl⟩
    · cases hread
  · cases hread

theorem quiet_doc {r : Except Err (Resp call)} (h : Answered contentSystem i call w r w')
    (hwrites : call.writes = false) : target.doc? w' = target.doc? w := by
  rcases answered_cases h with rfl | hwrote
  · rfl
  · cases hwrote with
    | progressSave => cases target <;> rfl
    | _ => cases hwrites

theorem updated_get {R : Type} [Keyed R Id] {t t' : Table R} {id : Id} {patched : R → Option R}
    {row : R} (h : updated t id patched = .ok t') (hrow : t.get id = some row)
    (hkey : ∀ row', patched row = some row' → Keyed.key row' = id) :
    ∃ row', patched row = some row' ∧ t'.get id = some row' := by
  rcases updated_cases h with ⟨hnone, -⟩ | ⟨old, row', hold, hpatched, rfl⟩
  · cases hrow.symm.trans hnone
  · cases hrow.symm.trans hold
    exact ⟨row', hpatched, Table.get_put_of_eq _ (hkey row' hpatched)⟩

theorem setNotNull_of_toOption {f : Field Translations} {set old new : Translations}
    (hset : f.toOption = some set) (h : f.setNotNull old = some new) : new = set := by
  cases f with
  | value t =>
    cases hset
    exact (Option.some.inj h).symm
  | _ => cases hset

/-- An UPDATE of a row that is there sets its document. -/
theorem set_doc {a : Resp call} {set old : Translations}
    (h : Answered contentSystem i call w (.ok a) w') (hset : target.set? call = some set)
    (hold : target.doc? w = some old) : call.writes = true ∧ target.doc? w' = some set := by
  unfold Target.set? at hset
  split at hset
  · split at hset
    · rename_i hid
      cases hid
      obtain ⟨row, hrow, -⟩ := Option.map_eq_some_iff.mp hold
      cases h with
      | exec hx =>
        simp only [contentSystem, exec] at hx
        split at hx
        · cases hx
          obtain ⟨row', hpatched, hget⟩ := updated_get ‹_› hrow fun row' hrow' =>
            (Certificate.patched_spec hrow').id.trans (Table.key_of_get hrow)
          refine ⟨rfl, ?_⟩
          rw [Target.doc?, hget, Option.map_some,
            setNotNull_of_toOption hset (Certificate.patched_spec hpatched).translations]
        · cases hx
    · cases hset
  · split at hset
    · rename_i hid
      cases hid
      obtain ⟨row, hrow, -⟩ := Option.map_eq_some_iff.mp hold
      cases h with
      | exec hx =>
        simp only [contentSystem, exec] at hx
        split at hx
        · cases hx
          obtain ⟨row', hpatched, hget⟩ := updated_get ‹_› hrow fun row' hrow' =>
            (LearningModule.patched_spec hrow').id.trans (Table.key_of_get hrow)
          refine ⟨rfl, ?_⟩
          rw [Target.doc?, hget, Option.map_some,
            setNotNull_of_toOption hset (LearningModule.patched_spec hpatched).translations]
        · cases hx
    · cases hset
  · split at hset
    · rename_i hid
      cases hid
      obtain ⟨row, hrow, -⟩ := Option.map_eq_some_iff.mp hold
      cases h with
      | exec hx =>
        simp only [contentSystem, exec] at hx
        split at hx
        · cases hx
          obtain ⟨row', hpatched, hget⟩ := updated_get ‹_› hrow fun row' hrow' =>
            (Lesson.patched_spec hrow').id.trans (Table.key_of_get hrow)
          refine ⟨rfl, ?_⟩
          rw [Target.doc?, hget, Option.map_some,
            setNotNull_of_toOption hset (Lesson.patched_spec hpatched).translations]
        · cases hx
    · cases hset
  · cases hset

end

/-! ## The order of reads and writes -/

/-- The calls so far, as the process and whether the call writes. -/
def trace (c : Pool) : List (Nat × Bool) := c.log.map fun e => (e.proc, e.call.writes)

/-- Process `j` has read, and then the other process has written. -/
def Crossed (t : List (Nat × Bool)) (j : Nat) : Prop := [(j, false), (1 - j, true)].Sublist t

/-- Process `j` has read before the write of the other process, and written after it. -/
def Overwrites (t : List (Nat × Bool)) (j : Nat) : Prop :=
  [(j, false), (1 - j, true), (j, true)].Sublist t

/-- Process `i` has written, and the other process has not overwritten it. -/
def Standing (t : List (Nat × Bool)) (i : Nat) : Prop := (i, true) ∈ t ∧ ¬Overwrites t (1 - i)

section

variable {t : List (Nat × Bool)} {i j : Nat}

theorem sublist_snoc {l t : List (Nat × Bool)} {a x : Nat × Bool} :
    (l ++ [a]).Sublist (t ++ [x]) ↔ (l ++ [a]).Sublist t ∨ a = x ∧ l.Sublist t := by
  have hreverse : ∀ l t : List (Nat × Bool), l.Sublist t ↔ l.reverse.Sublist t.reverse :=
    fun _ _ => List.reverse_sublist.symm
  rw [hreverse, hreverse (l ++ [a]) t, hreverse l t]
  simp only [List.reverse_append, List.reverse_cons, List.reverse_nil, List.nil_append,
    List.singleton_append]
  exact List.cons_sublist_cons'

theorem crossed_snoc {x : Nat × Bool} :
    Crossed (t ++ [x]) j ↔ Crossed t j ∨ (1 - j, true) = x ∧ (j, false) ∈ t := by
  rw [← List.singleton_sublist]
  exact sublist_snoc (l := [(j, false)])

theorem overwrites_snoc {x : Nat × Bool} :
    Overwrites (t ++ [x]) j ↔ Overwrites t j ∨ (j, true) = x ∧ Crossed t j :=
  sublist_snoc (l := [(j, false), (1 - j, true)])

theorem Overwrites.mem (h : Overwrites t j) : (j, false) ∈ t ∧ (1 - j, true) ∈ t ∧ (j, true) ∈ t :=
  ⟨h.subset (by simp), h.subset (by simp), h.subset (by simp)⟩

theorem Crossed.mem (h : Crossed t j) : (j, false) ∈ t := h.subset (by simp)

theorem standing_read : Standing (t ++ [(j, false)]) i ↔ Standing t i := by
  simp [Standing, overwrites_snoc]

end

/-! ## The invariant -/

section

variable (target : Target) (old : Translations) (incoming : Nat → Translations)

/-- What process `j` has in memory: the old blocks, with those that the other process had written
before the read. -/
structure Holds (t : List (Nat × Bool)) (j : Nat) (document : Translations) : Prop where
  added : (1 - j, true) ∈ t → ¬Crossed t j → ∀ locale b,
    (incoming (1 - j)).get locale = some b → document.get locale = some b
  kept : ∀ locale, locale ≠ "en" →
    ((1 - j, true) ∈ t → ¬Crossed t j → (incoming (1 - j)).get locale = none) →
    document.get locale = old.get locale

/-- What the row has: the old blocks, with those of every write that stands. -/
structure Stored (t : List (Nat × Bool)) (document : Translations) : Prop where
  added : ∀ i < 2, Standing t i → ∀ locale b,
    (incoming i).get locale = some b → document.get locale = some b
  kept : ∀ locale, locale ≠ "en" → (∀ i < 2, Standing t i → (incoming i).get locale = none) →
    document.get locale = old.get locale

/-- What is known of process `j` in its phase. -/
def InPhase (t : List (Nat × Bool)) (j : Nat) : MergePhase → Prop
  | .unread m => m = ⟨target, incoming j⟩ ∧ ∀ b, (j, b) ∉ t
  | .holding m document => m = ⟨target, incoming j⟩ ∧ (j, false) ∈ t ∧ (j, true) ∉ t ∧
      Holds old incoming t j document
  | .written m => m = ⟨target, incoming j⟩ ∧ (j, true) ∈ t
  | .stopped => True
  | .other => False

/-- Neither process has failed. -/
def Live (c : Pool) : Prop := ∀ i < 2, merging.phase c i ≠ some .stopped

structure MergesOk (c : Pool) : Prop where
  two : c.procs.length = 2
  phases : Live c → ∀ i g, merging.phase c i = some g → InPhase target old incoming (trace c) i g
  stored : Live c → ∃ document, target.doc? c.world = some document ∧
    Stored old incoming (trace c) document

variable {target old incoming} {t : List (Nat × Bool)} {j : Nat} {document : Translations}

/-- Two bodies without a common locale, and without English. -/
structure Separate (incoming : Nat → Translations) : Prop where
  foreign : ∀ i, (incoming i).get "en" = none
  disjoint : ∀ i < 2, ∀ locale b, (incoming i).get locale = some b →
    (incoming (1 - i)).get locale = none

theorem Stored.of_read (h : Stored old incoming t document) :
    Stored old incoming (t ++ [(j, false)]) document :=
  ⟨fun i hi hstanding => h.added i hi (standing_read.mp hstanding),
    fun locale hlocale hnone =>
      h.kept locale hlocale fun i hi hstanding => hnone i hi (standing_read.mpr hstanding)⟩

/-- A read takes over what is stored. -/
theorem Stored.read (h : Stored old incoming t document) (hj : j < 2) (hunread : ∀ b, (j, b) ∉ t) :
    Holds old incoming (t ++ [(j, false)]) j document := by
  have hcrossed : ¬Crossed (t ++ [(j, false)]) j := by
    rw [crossed_snoc]
    rintro (hcrossed | ⟨heq, -⟩)
    · exact hunread false hcrossed.mem
    · cases congrArg Prod.snd heq
  have hother : (1 - j, true) ∈ t ++ [(j, false)] ↔ Standing t (1 - j) := by
    have hj' : 1 - (1 - j) = j := by omega
    simp only [List.mem_append, List.mem_singleton, Prod.mk.injEq, Bool.true_eq_false, and_false,
      or_false, Standing, hj']
    exact ⟨fun hmem => ⟨hmem, fun h => hunread _ h.mem.1⟩, And.left⟩
  constructor
  · intro hmem _
    exact h.added (1 - j) (by omega) (hother.mp hmem)
  · intro locale hlocale hnone
    refine h.kept locale hlocale fun i hi hstanding => ?_
    have hij : i = 1 - j := by
      by_contra hne
      have : i = j := by omega
      subst this
      exact hunread true hstanding.1
    subst hij
    exact hnone (hother.mpr hstanding) hcrossed

/-- A write stores what is in memory, with the blocks of the body. -/
theorem Holds.write (h : Holds old incoming t j document) (hsep : Separate incoming) (hj : j < 2)
    (hunwritten : (j, true) ∉ t) {set : Translations}
    (hset : set.others = (document.spread (incoming j)).others) :
    Stored old incoming (t ++ [(j, true)]) set := by
  have hget : ∀ locale, locale ≠ "en" →
      set.get locale = ((incoming j).get locale).or (document.get locale) := by
    intro locale hlocale
    rw [get_of_others hset hlocale, Translations.get_spread]
  have hforeign : ∀ i locale b, (incoming i).get locale = some b → locale ≠ "en" := by
    rintro i locale b hb rfl
    rw [hsep.foreign] at hb
    cases hb
  have hj' : 1 - (1 - j) = j := by omega
  -- The write of the other process stands if it came before the read.
  have hother : Standing (t ++ [(j, true)]) (1 - j) ↔ (1 - j, true) ∈ t ∧ ¬Crossed t j := by
    have hne : (1 - j, true) ≠ (j, true) := by
      intro heq
      have := congrArg Prod.fst heq
      simp only at this
      omega
    simp only [Standing, hj', overwrites_snoc, List.mem_append, List.mem_singleton, hne, or_false,
      true_and]
    exact and_congr_right fun _ => not_congr ⟨fun h => h.elim (fun h => absurd h.mem.2.2 hunwritten) id, .inr⟩
  have hself : Standing (t ++ [(j, true)]) j := by
    refine ⟨by simp, fun h => ?_⟩
    rcases overwrites_snoc.mp h with h | ⟨heq, -⟩
    · have hmem := h.mem.2.1
      rw [hj'] at hmem
      exact hunwritten hmem
    · have := congrArg Prod.fst heq
      simp only at this
      omega
  constructor
  · intro i hi hstanding locale b hb
    rw [hget locale (hforeign i locale b hb)]
    by_cases hij : i = j
    · subst hij
      rw [hb]
      rfl
    · obtain rfl : i = 1 - j := by omega
      obtain ⟨hmem, hcrossed⟩ := hother.mp hstanding
      have hnone := hsep.disjoint (1 - j) hi locale b hb
      rw [hj'] at hnone
      rw [hnone, Option.none_or]
      exact h.added hmem hcrossed locale b hb
  · intro locale hlocale hnone
    rw [hget locale hlocale, hnone j hj hself, Option.none_or]
    exact h.kept locale hlocale fun hmem hcrossed =>
      hnone (1 - j) (by omega) (hother.mpr ⟨hmem, hcrossed⟩)

/-- The other process makes a read. -/
theorem InPhase.of_read {g : MergePhase} (h : InPhase target old incoming t j g) {i : Nat}
    (hij : i ≠ j) : InPhase target old incoming (t ++ [(i, false)]) j g := by
  have hcrossed : Crossed (t ++ [(i, false)]) j ↔ Crossed t j := by
    rw [crossed_snoc]
    exact or_iff_left fun hlast => by cases congrArg Prod.snd hlast.1
  cases g with
  | unread m => exact ⟨h.1, fun b hb => by simp [h.2, hij.symm] at hb⟩
  | holding m document =>
    obtain ⟨hm, hread, hunwritten, hholds⟩ := h
    refine ⟨hm, by simp [hread], by simp [hunwritten], fun hmem hcross => ?_, fun locale hlocale hnone => ?_⟩
    · exact hholds.added (by simpa using hmem) (fun hc => hcross (hcrossed.mpr hc))
    · refine hholds.kept locale hlocale fun hmem hcross => ?_
      exact hnone (by simp [hmem]) fun hc => hcross (hcrossed.mp hc)
  | written m => exact ⟨h.1, by simp [h.2]⟩
  | stopped => trivial
  | other => exact h

/-- The other process makes its write: what this one has in memory is out of date. -/
theorem InPhase.of_write {g : MergePhase} (h : InPhase target old incoming t j g) {i : Nat}
    (hi : i = 1 - j) (hij : i ≠ j) (hunwritten : (i, true) ∉ t) :
    InPhase target old incoming (t ++ [(i, true)]) j g := by
  subst hi
  cases g with
  | unread m => exact ⟨h.1, fun b hb => by simp [h.2, hij.symm] at hb⟩
  | holding m document =>
    obtain ⟨hm, hread, hself, hholds⟩ := h
    refine ⟨hm, by simp [hread], by simp [hself, hij.symm], fun _ hcross => ?_, fun locale hlocale _ => ?_⟩
    · exact absurd (crossed_snoc.mpr (.inr ⟨rfl, hread⟩)) hcross
    · exact hholds.kept locale hlocale fun hmem _ => absurd hmem hunwritten
  | written m => exact ⟨h.1, by simp [h.2]⟩
  | stopped => trivial
  | other => exact h

end

section

variable {target : Target} {old : Translations} {incoming : Nat → Translations} {c c' : Pool}
  {i : Nat} {call : Call} {r : Except Err (Resp call)} {g g' : MergePhase}

theorem trace_move (hm : Moved merging contentSystem c c' i call r g g') :
    trace c' = trace c ++ [(i, call.writes)] := by
  rw [trace, hm.log, List.map_append]
  rfl

/-- A process that has failed stays so. -/
theorem live_before (hm : Moved merging contentSystem c c' i call r g g') (h : Live c') : Live c := by
  intro j hj hstopped
  by_cases hji : j = i
  · subst hji
    cases hm.before.symm.trans hstopped
    have hnext := hm.next
    cases r with
    | error e =>
      cases hnext
      exact h j hj hm.after
    | ok a => cases hnext
  · exact h j hj (by rw [hm.other j hji]; exact hstopped)

theorem MergesOk.move (hsep : Separate incoming) (hc : MergesOk target old incoming c)
    (hm : Moved merging contentSystem c c' i call r g g') : MergesOk target old incoming c' := by
  have htwo : c'.procs.length = 2 := hm.length.trans hc.two
  have hi : i < 2 := hc.two ▸ Monitor.lt_of_phase hm.before
  have hlt : ∀ {j gj}, merging.phase c' j = some gj → j < 2 := fun h => htwo ▸ Monitor.lt_of_phase h
  cases r with
  | error e =>
    -- A process that fails is not live, unless it is of another kind.
    have hdead : Live c' → False := by
      intro hlive
      have hphase := hc.phases (live_before hm hlive) i g hm.before
      have hnext := hm.next
      cases g with
      | other => exact hphase
      | _ =>
        cases hnext
        exact hlive i hi hm.after
    exact ⟨htwo, fun hlive => (hdead hlive).elim, fun hlive => (hdead hlive).elim⟩
  | ok a =>
    have hstep : Live c' → (∃ document, target.doc? c'.world = some document ∧
        Stored old incoming (trace c') document) ∧ InPhase target old incoming (trace c') i g' ∧
        ∀ j gj, j ≠ i → merging.phase c j = some gj → InPhase target old incoming (trace c') j gj := by
      intro hlive
      have hbefore := live_before hm hlive
      have hphase := hc.phases hbefore i g hm.before
      obtain ⟨document, hdocument, hstored⟩ := hc.stored hbefore
      have hnext := hm.next
      rw [trace_move hm]
      cases g with
      | other => exact hphase.elim
      | stopped => cases hnext
      | unread m =>
        obtain ⟨rfl, hunread⟩ := hphase
        simp only [Monitor.advance, merging_next, MergePhase.next] at hnext
        split at hnext
        · rename_i held hread
          cases hnext
          obtain ⟨hwrites, hworld, hheld⟩ := read_doc hm.answers hread
          cases hdocument.symm.trans hheld
          rw [hwrites, hworld]
          refine ⟨⟨_, hheld, hstored.of_read⟩, ⟨rfl, by simp, by simp [hunread], hstored.read hi hunread⟩, ?_⟩
          exact fun j gj hji hgj => (hc.phases hbefore j gj hgj).of_read hji.symm
        · cases hnext
          exact (hlive i hi hm.after).elim
        · cases hnext
      | holding m held =>
        obtain ⟨rfl, hread, hunwritten, hholds⟩ := hphase
        simp only [Monitor.advance, merging_next, MergePhase.next] at hnext
        split at hnext
        · rename_i set hset
          split at hnext
          · rename_i hothers
            cases hnext
            obtain ⟨hwrites, hnew⟩ := set_doc hm.answers hset hdocument
            rw [hwrites]
            refine ⟨⟨set, hnew, hholds.write hsep hi hunwritten hothers⟩, ⟨rfl, by simp⟩, ?_⟩
            intro j gj hji hgj
            have hj : j < 2 := hc.two ▸ Monitor.lt_of_phase hgj
            exact (hc.phases hbefore j gj hgj).of_write (by omega) hji.symm hunwritten
          · cases hnext
        · cases hnext
      | written m =>
        obtain ⟨rfl, hwritten⟩ := hphase
        simp only [Monitor.advance, merging_next, MergePhase.next] at hnext
        split at hnext
        · cases hnext
        · rename_i hwrites
          cases hnext
          rw [Bool.not_eq_true] at hwrites
          rw [hwrites, quiet_doc hm.answers hwrites]
          refine ⟨⟨document, hdocument, hstored.of_read⟩, ⟨rfl, by simp [hwritten]⟩, ?_⟩
          exact fun j gj hji hgj => (hc.phases hbefore j gj hgj).of_read hji.symm
    refine ⟨htwo, fun hlive j gj hgj => ?_, fun hlive => (hstep hlive).1⟩
    obtain ⟨-, hself, hother⟩ := hstep hlive
    rcases hm.phase_cases hgj with ⟨rfl, rfl⟩ | ⟨hji, hgj⟩
    · exact hself
    · exact hother j gj hji hgj

end

/-! ## Two updates at once -/

/-- Two requests that have been sent. Neither has begun. -/
def pair (w : World) (t₀ t₁ : Task) : Pool :=
  ((Config.initial w).start contentSystem [t₀] w).start contentSystem [t₁] w

/-- A guard: there is no other request. -/
def noOther : Guard World Call Resp Err Reply Task Choice Nat
  | _, .spawn _ => False
  | _, _ => True

instance : ∀ c l, Decidable (noOther c l)
  | _, .spawn _ => .isFalse id
  | _, .run _ _ => .isTrue trivial
  | _, .fail _ => .isTrue trivial
  | _, .env _ => .isTrue trivial

/-- The blocks of the first document are also those of the second. -/
def Translations.Within (t t' : Translations) : Prop :=
  ∀ locale b, t.get locale = some b → t'.get locale = some b

/-- All blocks of both bodies are there, and the others are as they were, but for English. -/
structure NothingLost (incoming₀ incoming₁ old final : Translations) : Prop where
  first : incoming₀.Within final
  second : incoming₁.Within final
  others : ∀ locale, locale ≠ "en" → incoming₀.get locale = none → incoming₁.get locale = none →
    final.get locale = old.get locale

section

variable {w : World} {c : Pool} {t₀ t₁ : Task} {target : Target}
  {incoming₀ incoming₁ old : Translations}

theorem pair_reach (w : World) (t₀ t₁ : Task) : Reach contentSystem (· = w) anyStep (pair w t₀ t₁) :=
  .step (.step (.init rfl) trivial (.spawn (t := t₀) rfl)) trivial (.spawn (t := t₁) rfl)

/-- The bodies, by process. -/
def bodies (incoming₀ incoming₁ : Translations) (i : Nat) : Translations :=
  if i = 0 then incoming₀ else incoming₁

theorem pair_ok (h₀ : t₀.merge? = some ⟨target, incoming₀⟩) (h₁ : t₁.merge? = some ⟨target, incoming₁⟩)
    (hold : target.doc? w = some old) :
    MergesOk target old (bodies incoming₀ incoming₁) (pair w t₀ t₁) := by
  have hphase₀ : merging.phase (pair w t₀ t₁) 0 = some (.unread ⟨target, incoming₀⟩) := by
    change some (t₀.merge?.elim MergePhase.other MergePhase.unread) = _
    rw [h₀]
    rfl
  have hphase₁ : merging.phase (pair w t₀ t₁) 1 = some (.unread ⟨target, incoming₁⟩) := by
    change some (t₁.merge?.elim MergePhase.other MergePhase.unread) = _
    rw [h₁]
    rfl
  refine ⟨rfl, fun _ i g hg => ?_, fun _ => ⟨old, hold, ?_⟩⟩
  · have hi : i < 2 := Monitor.lt_of_phase hg
    obtain rfl | rfl : i = 0 ∨ i = 1 := by omega
    · cases hphase₀.symm.trans hg
      exact ⟨rfl, fun b => List.not_mem_nil⟩
    · cases hphase₁.symm.trans hg
      exact ⟨rfl, fun b => List.not_mem_nil⟩
  · exact ⟨fun i _ h => absurd h.1 List.not_mem_nil, fun locale _ _ => rfl⟩

theorem bodies_separate (hforeign₀ : incoming₀.get "en" = none) (hforeign₁ : incoming₁.get "en" = none)
    (hdisjoint : ∀ locale, incoming₀.get locale = none ∨ incoming₁.get locale = none) :
    Separate (bodies incoming₀ incoming₁) := by
  constructor
  · intro i
    unfold bodies
    split
    · exact hforeign₀
    · exact hforeign₁
  · intro i hi locale b hb
    obtain rfl | rfl : i = 0 ∨ i = 1 := by omega
    · have hb : incoming₀.get locale = some b := hb
      exact (hdisjoint locale).resolve_left (by simp [hb])
    · have hb : incoming₁.get locale = some b := hb
      exact (hdisjoint locale).resolve_right (by simp [hb])

theorem MergesOk.env {incoming : Nat → Translations} (hc : MergesOk target old incoming c)
    (hw : target.doc? w = target.doc? c.world) :
    MergesOk target old incoming (c.start contentSystem [] w) := by
  have hphase : ∀ i, merging.phase (c.start contentSystem [] w) i = merging.phase c i := fun i => by
    simp [Monitor.phase, Config.task?, Config.start]
  have hlive : Live (c.start contentSystem [] w) → Live c :=
    fun h i hi => by rw [← hphase]; exact h i hi
  refine ⟨by simpa [Config.start] using hc.two, fun h i g hg => ?_, fun h => ?_⟩
  · rw [hphase] at hg
    exact hc.phases (hlive h) i g hg
  · obtain ⟨document, hdocument, hstored⟩ := hc.stored (hlive h)
    exact ⟨document, hw.trans hdocument, hstored⟩

/-- What the row has once both writes are done. -/
theorem Stored.lost_iff {t : List (Nat × Bool)} {final : Translations}
    (h : Stored old (bodies incoming₀ incoming₁) t final) (h₀ : (0, true) ∈ t) (h₁ : (1, true) ∈ t)
    (hsep : Separate (bodies incoming₀ incoming₁)) :
    NothingLost incoming₀ incoming₁ old final ↔
      (Overwrites t 1 → incoming₀.Within old) ∧ (Overwrites t 0 → incoming₁.Within old) := by
  -- A write that does not stand leaves the old block of a locale that only it has.
  have hback : ∀ i < 2, Overwrites t (1 - i) → ∀ locale b,
      (bodies incoming₀ incoming₁ i).get locale = some b → final.get locale = old.get locale := by
    intro i hi hover locale b hb
    refine h.kept locale ?_ fun j hj hstanding => ?_
    · rintro rfl
      rw [hsep.foreign] at hb
      cases hb
    · by_cases hji : j = i
      · subst hji
        exact absurd hover hstanding.2
      · obtain rfl : j = 1 - i := by omega
        exact hsep.disjoint i hi locale b hb
  have hwithin : ∀ i < 2, (i, true) ∈ t →
      ((bodies incoming₀ incoming₁ i).Within final ↔
        (Overwrites t (1 - i) → (bodies incoming₀ incoming₁ i).Within old)) := by
    intro i hi hmem
    constructor
    · intro hfinal hover locale b hb
      rw [← hback i hi hover locale b hb]
      exact hfinal locale b hb
    · intro hold locale b hb
      by_cases hover : Overwrites t (1 - i)
      · rw [hback i hi hover locale b hb]
        exact hold hover locale b hb
      · exact h.added i hi ⟨hmem, hover⟩ locale b hb
  constructor
  · rintro ⟨hfirst, hsecond, -⟩
    exact ⟨(hwithin 0 (by omega) h₀).mp hfirst, (hwithin 1 (by omega) h₁).mp hsecond⟩
  · rintro ⟨hfirst, hsecond⟩
    refine ⟨(hwithin 0 (by omega) h₀).mpr hfirst, (hwithin 1 (by omega) h₁).mpr hsecond, ?_⟩
    intro locale hlocale hnone₀ hnone₁
    refine h.kept locale hlocale fun i hi _ => ?_
    obtain rfl | rfl : i = 0 ∨ i = 1 := by omega
    · exact hnone₀
    · exact hnone₁

/-- Two successful updates lose nothing if and only if neither writes over the other's blocks, or
those were in the row before. -/
theorem nothing_lost_iff (h₀ : t₀.merge? = some ⟨target, incoming₀⟩)
    (h₁ : t₁.merge? = some ⟨target, incoming₁⟩) (hforeign₀ : incoming₀.get "en" = none)
    (hforeign₁ : incoming₁.get "en" = none)
    (hdisjoint : ∀ locale, incoming₀.get locale = none ∨ incoming₁.get locale = none)
    (hold : target.doc? w = some old) (h : Steps contentSystem noOther (pair w t₀ t₁) c)
    (hreply₀ : (c.reply? 0).isSome) (hreply₁ : (c.reply? 1).isSome) :
    ∃ final, target.doc? c.world = some final ∧
      (NothingLost incoming₀ incoming₁ old final ↔
        (Overwrites (trace c) 1 → incoming₀.Within old) ∧
          (Overwrites (trace c) 0 → incoming₁.Within old)) := by
  have hsep := bodies_separate hforeign₀ hforeign₁ hdisjoint
  obtain ⟨hreach, hok⟩ : Reach contentSystem (· = w) anyStep c ∧
      MergesOk target old (bodies incoming₀ incoming₁) c := by
    refine Reach.later merging_sound ?_ ?_ ?_ (pair_reach w t₀ t₁) (pair_ok h₀ h₁ hold) h
    · intro c t _ _ hnone
      exact hnone.elim
    · intro c v w ts _ hc _ hx
      cases hx
      refine hc.env ?_
      cases target <;> rfl
    · intro c c' i call r g g' _ hc _ hm
      exact hc.move hsep hm
  have hdone : ∀ i < 2, ∃ g, merging.phase c i = some g ∧ (g = .other ∨ ∃ m, g = .written m) := by
    intro i hi
    have hreply : (c.reply? i).isSome := by
      obtain rfl | rfl : i = 0 ∨ i = 1 := by omega
      · exact hreply₀
      · exact hreply₁
    obtain ⟨a, ha⟩ := Option.isSome_iff_exists.mp hreply
    exact (hreach.conforms merging_sound).replied ha
  have hlive : Live c := by
    intro i hi hstopped
    obtain ⟨g, hg, rfl | ⟨m, rfl⟩⟩ := hdone i hi
    · cases hg.symm.trans hstopped
    · cases hg.symm.trans hstopped
  have hwritten : ∀ i < 2, (i, true) ∈ trace c := by
    intro i hi
    obtain ⟨g, hg, rfl | ⟨m, rfl⟩⟩ := hdone i hi
    · exact (hok.phases hlive i _ hg).elim
    · exact (hok.phases hlive i _ hg).2
  obtain ⟨final, hfinal, hstored⟩ := hok.stored hlive
  exact ⟨final, hfinal, hstored.lost_iff (hwritten 0 (by omega)) (hwritten 1 (by omega)) hsep⟩

end

/-! ## A block that is lost -/

def germanTitle : Translations := Table.empty.put ⟨"de", .fields [("title", .str "Scrum auf Deutsch")]⟩

def frenchTitle : Translations := Table.empty.put ⟨"fr", .fields [("title", .str "Scrum en français")]⟩

/-- One certificate, in English. -/
def englishWorld : World :=
  { emptyWorld with
    certificates := Table.empty.put
      { id := "psm"
        title := "Scrum"
        programCode := "PSM"
        description := none
        translations := Table.empty.put ⟨"en", .fields [("title", .str "Scrum")]⟩
        price := 100
        currency := "USD"
        active := true
        thumbnailUrl := none } }

/-- One admin adds German with `update`, and another French with `updateTranslations`. -/
def translators : Pool :=
  pair englishWorld
    (.update "psm" { CatalogService.noPatch with translations := .value germanTitle })
    (.updateTranslations "psm" frenchTitle)

def oneByOne : List PoolLabel :=
  [.run 0 "", .run 0 "", .run 0 "", .run 1 "", .run 1 "", .run 1 ""]

def bothRead : List PoolLabel :=
  [.run 0 "", .run 1 "", .run 0 "", .run 0 "", .run 1 "", .run 1 ""]

theorem titles_disjoint (locale : String) :
    germanTitle.get locale = none ∨ frenchTitle.get locale = none := by
  have hgerman : germanTitle.get locale = none ∨ "de" = locale := by
    rw [germanTitle, Table.get_put]
    split
    · exact .inr ‹_›
    · exact .inl rfl
  rcases hgerman with h | rfl
  · exact .inl h
  · exact .inr rfl

theorem nothing_lost_one_by_one :
    ∃ c final, Steps contentSystem noOther translators c ∧
      (Target.certificate "psm").doc? c.world = some final ∧
      NothingLost germanTitle frenchTitle
        (Table.empty.put ⟨"en", .fields [("title", .str "Scrum")]⟩) final := by
  have hrun : ∃ c, runIf contentSystem noOther oneByOne translators = some c ∧
      (c.reply? 0).isSome ∧ (c.reply? 1).isSome ∧
      trace c = [(0, false), (0, true), (0, false), (1, false), (1, true), (1, false)] :=
    ⟨_, rfl, rfl, rfl, rfl⟩
  obtain ⟨c, hrun, hreply₀, hreply₁, htrace⟩ := hrun
  obtain ⟨final, hfinal, hiff⟩ := nothing_lost_iff rfl rfl rfl rfl titles_disjoint rfl
    (runIf_steps hrun) hreply₀ hreply₁
  refine ⟨c, final, runIf_steps hrun, hfinal, hiff.mpr ?_⟩
  rw [htrace, Overwrites, Overwrites]
  exact ⟨fun h => absurd h (by decide), fun h => absurd h (by decide)⟩

/-- The German title is gone, though its update has succeeded. -/
theorem german_title_lost :
    ∃ c final, Steps contentSystem noOther translators c ∧
      (c.reply? 0).isSome ∧ (c.reply? 1).isSome ∧
      (Target.certificate "psm").doc? c.world = some final ∧
      ¬NothingLost germanTitle frenchTitle
        (Table.empty.put ⟨"en", .fields [("title", .str "Scrum")]⟩) final := by
  have hrun : ∃ c final, runIf contentSystem noOther bothRead translators = some c ∧
      (c.reply? 0).isSome ∧ (c.reply? 1).isSome ∧
      (Target.certificate "psm").doc? c.world = some final ∧ final.get "de" = none :=
    ⟨_, _, rfl, rfl, rfl, rfl, rfl⟩
  obtain ⟨c, final, hrun, hreply₀, hreply₁, hfinal, hnone⟩ := hrun
  refine ⟨c, final, runIf_steps hrun, hreply₀, hreply₁, hfinal, fun h => ?_⟩
  rw [h.first "de" _ rfl] at hnone
  cases hnone

end LmsBackend.Content
