import LmsBackend.Mail.TemplateRenderer

/-!
# Escaped text

The five replacements run one after the other, and the first one is that of `&`. So
each character becomes its entity once, and the entities can be read back.
-/

open Text

namespace LmsBackend.Mail

def amp : Char × List Char := ('&', "&amp;".toList)

def otherEntities : List (Char × List Char) := [
  ('<', "&lt;".toList),
  ('>', "&gt;".toList),
  ('"', "&quot;".toList),
  ('\'', "&#039;".toList)]

def entities : List (Char × List Char) := amp :: otherEntities

def escapeChar (c : Char) : List Char := (entities.lookup c).getD [c]

theorem escapeChar_plain {c : Char} (h : ∀ p ∈ entities, c ≠ p.1) : escapeChar c = [c] := by
  have hnone : entities.lookup c = none :=
    List.lookup_eq_none_iff.mpr fun p hp => bne_iff_ne.mpr (h p hp)
  rw [escapeChar, hnone, Option.getD_none]

theorem escapeHtml_eq (s : List Char) : escapeHtml s = s.flatMap escapeChar := by
  unfold escapeHtml replaceChar
  simp only [replaceAll_symbol, List.flatMap_assoc]
  refine List.flatMap_congr fun c _ => ?_
  by_cases hamp : c = '&'
  · subst hamp
    decide
  by_cases hlt : c = '<'
  · subst hlt
    decide
  by_cases hgt : c = '>'
  · subst hgt
    decide
  by_cases hquot : c = '"'
  · subst hquot
    decide
  by_cases hapos : c = '\''
  · subst hapos
    decide
  rw [escapeChar_plain (by simp [entities, otherEntities, amp, hamp, hlt, hgt, hquot, hapos])]
  rw [if_neg hamp, List.flatMap_singleton, if_neg hlt, List.flatMap_singleton, if_neg hgt,
    List.flatMap_singleton, if_neg hquot, List.flatMap_singleton, if_neg hapos]

/-! ## Entities -/

theorem entity_form : ∀ p ∈ entities, p.2.head? = some '&' ∧ '&' ∉ p.2.tail ∧
    ∀ c ∈ p.2, c ∉ ['<', '>', '"', '\''] := by
  have hall : ∀ p ∈ entities, p.2.head? = some '&' ∧ '&' ∉ p.2.tail ∧
      p.2.all (fun c => c ∉ ['<', '>', '"', '\'']) = true := by
    decide
  intro p hp
  obtain ⟨hhead, htail, hplain⟩ := hall p hp
  exact ⟨hhead, htail, fun c hc => of_decide_eq_true (List.all_eq_true.mp hplain c hc)⟩

theorem entities_apart : ∀ p ∈ entities, ∀ q ∈ entities, p ≠ q → ¬p.2 <+: q.2 := by
  decide

theorem entities_keys : ∀ p ∈ entities, entities.lookup p.1 = some p.2 := by
  decide

theorem entity_cons {p : Char × List Char} (hp : p ∈ entities) :
    ∃ tail, p.2 = '&' :: tail ∧ '&' ∉ tail := by
  obtain ⟨hhead, htail, _⟩ := entity_form p hp
  obtain ⟨tail, h⟩ := List.head?_eq_some_iff.mp hhead
  exact ⟨tail, h, by rwa [h] at htail⟩

/-- No entity starts another, so the text after one does not matter. -/
theorem eq_of_prefix_append {p q : Char × List Char} (hp : p ∈ entities) (hq : q ∈ entities)
    {rest : List Char} (h : p.2 <+: q.2 ++ rest) : p = q := by
  by_contra hne
  rcases List.prefix_or_prefix_of_prefix h (List.prefix_append q.2 rest) with hpq | hqp
  · exact entities_apart p hp q hq hne hpq
  · exact entities_apart q hq p hp (Ne.symm hne) hqp

theorem escapeChar_cases (c : Char) :
    (c, escapeChar c) ∈ entities ∨ escapeChar c = [c] ∧ ∀ p ∈ entities, p.1 ≠ c := by
  unfold escapeChar
  rcases h : entities.lookup c with _ | e
  · refine .inr ⟨rfl, fun p hp hc => ?_⟩
    have hkey := entities_keys p hp
    rw [hc, h] at hkey
    cases hkey
  · refine .inl ?_
    obtain ⟨before, after, hsplit, _⟩ := List.lookup_eq_some_iff.mp h
    rw [hsplit]
    exact List.mem_append_right before List.mem_cons_self

theorem escapeChar_of_mem {p : Char × List Char} (hp : p ∈ entities) : escapeChar p.1 = p.2 := by
  rw [escapeChar, entities_keys p hp, Option.getD_some]

theorem amp_mem : amp ∈ entities := List.mem_cons_self

/-! ## What an escaped text has in it -/

theorem escapeHtml_no_specials (s : List Char) :
    ∀ c ∈ escapeHtml s, c ∉ ['<', '>', '"', '\''] := by
  intro c hc
  rw [escapeHtml_eq] at hc
  obtain ⟨a, _, hca⟩ := List.mem_flatMap.mp hc
  rcases escapeChar_cases a with hentity | ⟨hself, hplain⟩
  · exact (entity_form _ hentity).2.2 c hca
  · rw [hself, List.mem_singleton] at hca
    subst hca
    have hkeys : (['<', '>', '"', '\''].all fun k => entities.any fun p => p.1 = k) = true := by
      decide
    intro hmem
    obtain ⟨p, hp, hpc⟩ := List.any_eq_true.mp (List.all_eq_true.mp hkeys c hmem)
    exact hplain p hp (of_decide_eq_true hpc)

theorem amp_begins_entity {s before after : List Char}
    (h : escapeHtml s = before ++ '&' :: after) : ∃ p ∈ entities, p.2 <+: '&' :: after := by
  rw [escapeHtml_eq] at h
  induction s generalizing before with
  | nil => simp at h
  | cons c s ih =>
    rw [List.flatMap_cons] at h
    rcases List.append_eq_append_iff.mp h with ⟨rest, hbefore, hrest⟩ | ⟨rest, hc, hrest⟩
    · exact ih hrest
    rcases rest with _ | ⟨a, rest⟩
    · have hstart : s.flatMap escapeChar = [] ++ '&' :: after := hrest.symm
      exact ih hstart
    -- The `&` is in what `c` became.
    obtain ⟨ha, hafter⟩ := List.cons.inj hrest
    subst ha
    rcases escapeChar_cases c with hentity | ⟨hself, hplain⟩
    · obtain ⟨tail, htail, hnot⟩ := entity_cons hentity
      rw [show escapeChar c = '&' :: tail from htail] at hc
      rcases before with _ | ⟨b, before⟩
      · refine ⟨_, hentity, ?_⟩
        rw [show (c, escapeChar c).2 = '&' :: tail from htail, hafter, hc]
        exact List.prefix_append ('&' :: rest) _
      · refine absurd ?_ hnot
        rw [(List.cons.inj hc).2]
        exact List.mem_append_right before List.mem_cons_self
    · have hmem : '&' ∈ escapeChar c := by
        rw [hc]
        exact List.mem_append_right before List.mem_cons_self
      rw [hself, List.mem_singleton] at hmem
      exact absurd hmem (hplain amp amp_mem)

/-! ## Reading the entities back -/

/-- Whether an entity starts the text. -/
def entityAt (s : List Char) : Option (Char × List Char) := entities.find? fun p => p.2 <+: s

/-- One pass from left to right, after the characters of an entity that is read already. -/
def readEntities : Nat → List Char → List Char
  | _, [] => []
  | n + 1, _ :: s => readEntities n s
  | 0, c :: s =>
    match entityAt (c :: s) with
    | some (a, entity) => a :: readEntities (entity.length - 1) s
    | none => c :: readEntities 0 s

def unescapeOnce (s : List Char) : List Char := readEntities 0 s

/-- A replacement for each entity, in this order. -/
def unescapeIn (order : List (Char × List Char)) (s : List Char) : List Char :=
  order.foldl (fun s p => replaceAll [.lit p.2] (fun _ => [p.1]) s) s

theorem entityAt_entity {p : Char × List Char} (hp : p ∈ entities) (rest : List Char) :
    entityAt (p.2 ++ rest) = some p := by
  unfold entityAt
  rcases h : entities.find? (fun q => q.2 <+: p.2 ++ rest) with _ | q
  · have hnone := List.find?_eq_none.mp h p hp
    exact absurd (decide_eq_true (List.prefix_append p.2 rest)) hnone
  · have hfound := List.find?_some h
    have hpre : q.2 <+: p.2 ++ rest := of_decide_eq_true hfound
    rw [h, eq_of_prefix_append (List.mem_of_find?_eq_some h) hp hpre]

theorem entityAt_plain {c : Char} (hc : c ≠ '&') (rest : List Char) :
    entityAt (c :: rest) = none := by
  refine List.find?_eq_none.mpr fun p hp hpre => ?_
  obtain ⟨tail, htail, _⟩ := entity_cons hp
  have hpre := of_decide_eq_true hpre
  rw [htail] at hpre
  exact hc (List.cons_prefix_cons.mp hpre).1.symm

theorem readEntities_skip (done rest : List Char) :
    readEntities done.length (done ++ rest) = readEntities 0 rest := by
  induction done with
  | nil => rfl
  | cons c done ih => exact ih

theorem unescapeOnce_escapeHtml (s : List Char) : unescapeOnce (escapeHtml s) = s := by
  rw [escapeHtml_eq]
  unfold unescapeOnce
  induction s with
  | nil => rfl
  | cons c s ih =>
    rw [List.flatMap_cons]
    rcases escapeChar_cases c with hentity | ⟨hself, hplain⟩
    · obtain ⟨tail, htail, _⟩ := entity_cons hentity
      have hat := entityAt_entity hentity (s.flatMap escapeChar)
      dsimp only at hat htail
      rw [htail] at hat ⊢
      rw [List.cons_append] at hat ⊢
      rw [readEntities, hat]
      dsimp only
      rw [List.length_cons, Nat.add_sub_cancel, readEntities_skip, ih]
    · rw [hself, List.singleton_append, readEntities,
        entityAt_plain (Ne.symm (hplain amp amp_mem))]
      exact congrArg (c :: ·) ih

/-- The text once the entities of some characters are read back. -/
def readBack (done : List Char) (c : Char) : List Char := if c ∈ done then [c] else escapeChar c

theorem replace_readBack {p : Char × List Char} {done : List Char} (hp : p ∈ entities)
    (hamp : '&' ∉ done) (s : List Char) :
    replaceAll [.lit p.2] (fun _ => [p.1]) (s.flatMap (readBack done)) =
      s.flatMap (readBack (p.1 :: done)) := by
  obtain ⟨tail, htail, _⟩ := entity_cons hp
  induction s with
  | nil => exact replaceAll_eq_self trivial (by simp [htail])
  | cons c s ih =>
    rw [List.flatMap_cons, List.flatMap_cons, ← ih]
    have hplain : ∀ d, d ≠ '&' → Skips p.2 [d] (s.flatMap (readBack done)) := fun d hd => by
      rw [htail]
      exact skips_of_notMem fun hmem => hd (List.mem_singleton.mp hmem).symm
    by_cases hdone : c ∈ done
    · have hne : c ≠ '&' := fun h => hamp (h ▸ hdone)
      rw [readBack, if_pos hdone, readBack, if_pos (List.mem_cons_of_mem _ hdone)]
      exact replaceAll_skips (hplain c hne)
    · rw [readBack, if_neg hdone]
      rcases escapeChar_cases c with hentity | ⟨hself, hkeys⟩
      · by_cases hsame : p.1 = c
        · subst hsame
          rw [readBack, if_pos List.mem_cons_self, escapeChar_of_mem hp]
          refine replaceAll_some (matchAt_lit _ _) ?_
          rw [List.length_append, htail, List.length_cons]
          omega
        · rw [readBack, if_neg (by simp [hdone, Ne.symm hsame])]
          refine replaceAll_skips ?_
          obtain ⟨tail', htail', hnot⟩ := entity_cons hentity
          dsimp only at htail'
          have hfirst : ¬p.2 <+: escapeChar c ++ s.flatMap (readBack done) := fun hpre =>
            hsame (congrArg Prod.fst (eq_of_prefix_append hp hentity hpre))
          rw [htail', htail] at hfirst ⊢
          exact ⟨hfirst, skips_of_notMem hnot⟩
      · rw [readBack, if_neg (by simp [hdone, Ne.symm (hkeys p hp)]), hself]
        exact replaceAll_skips (hplain c (Ne.symm (hkeys amp amp_mem)))

theorem unescapeIn_readBack {order : List (Char × List Char)}
    (hmem : ∀ p ∈ order, p ∈ otherEntities) (done : List Char) (hamp : '&' ∉ done) (s : List Char) :
    unescapeIn order (s.flatMap (readBack done)) =
      s.flatMap (readBack ((order.map Prod.fst).reverse ++ done)) := by
  induction order generalizing done with
  | nil => rfl
  | cons p order ih =>
    have hp := hmem p List.mem_cons_self
    have hne : ∀ q ∈ otherEntities, q.1 ≠ '&' := by decide
    have hrest := ih (fun q hq => hmem q (List.mem_cons_of_mem p hq)) (p.1 :: done)
      (by simp [hamp, Ne.symm (hne p hp)])
    rw [unescapeIn] at hrest
    rw [unescapeIn, List.foldl_cons, replace_readBack (List.mem_cons_of_mem _ hp) hamp, hrest]
    simp

theorem unescapeIn_escapeHtml {order : List (Char × List Char)} (horder : order.Perm otherEntities)
    (s : List Char) : unescapeIn (order ++ [amp]) (escapeHtml s) = s := by
  have hfirst := unescapeIn_readBack (fun p hp => horder.subset hp) []
    List.not_mem_nil s
  have hlast : '&' ∉ (order.map Prod.fst).reverse := by
    rw [List.mem_reverse, (horder.map Prod.fst).mem_iff]
    decide
  have hnone : readBack [] = escapeChar := funext fun c => if_neg List.not_mem_nil
  rw [List.append_nil, hnone] at hfirst
  rw [escapeHtml_eq, unescapeIn, List.foldl_append, show List.foldl _ _ order = _ from hfirst,
    List.foldl_cons, List.foldl_nil, replace_readBack amp_mem hlast]
  -- All five are read back.
  have hall : ∀ c, readBack (amp.1 :: (order.map Prod.fst).reverse) c = [c] := fun c => by
    unfold readBack
    split
    · rfl
    · refine escapeChar_plain fun p hp hc => ‹¬_› ?_
      rw [hc]
      rcases List.mem_cons.mp hp with rfl | hp
      · exact List.mem_cons_self
      · refine List.mem_cons_of_mem _ (List.mem_reverse.mpr ?_)
        exact List.mem_map_of_mem (horder.mem_iff.mpr hp)
  rw [List.flatMap_congr fun c _ => hall c]
  exact List.flatMap_singleton' s

/-! ## Safe and lossless -/

theorem escapeHtml_lossless :
    (∀ s, (∀ c ∈ escapeHtml s, c ∉ ['<', '>', '"', '\'']) ∧
      (∀ before after, escapeHtml s = before ++ '&' :: after →
        ∃ p ∈ entities, p.2 <+: '&' :: after) ∧
      unescapeOnce (escapeHtml s) = s ∧
      ∀ order, order.Perm otherEntities → unescapeIn (order ++ [amp]) (escapeHtml s) = s) ∧
    Function.Injective escapeHtml :=
  ⟨fun s => ⟨escapeHtml_no_specials s, fun _ _ => amp_begins_entity, unescapeOnce_escapeHtml s,
      fun _ horder => unescapeIn_escapeHtml horder s⟩,
    Function.LeftInverse.injective unescapeOnce_escapeHtml⟩

end LmsBackend.Mail
