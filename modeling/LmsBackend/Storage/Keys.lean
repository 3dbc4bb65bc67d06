import LmsBackend.Storage.StorageService

/-!
# Canonical keys, and keys of two environments

A key that `buildKey` has made counts as its parts. Two environments can mean the
same object only where the prefix of one goes on from that of the other.
-/

namespace LmsBackend.Storage

/-! ## Joined parts -/

theorem intercalate_append {sep : List Char} {l m : List (List Char)} (hl : l ≠ []) (hm : m ≠ []) :
    sep.intercalate (l ++ m) = sep.intercalate l ++ sep ++ sep.intercalate m := by
  induction l with
  | nil => exact absurd rfl hl
  | cons x l ih =>
    by_cases hnil : l = []
    · subst hnil
      rw [List.singleton_append, List.intercalate_cons_of_ne_nil hm, List.intercalate_singleton]
    · rw [List.cons_append, List.intercalate_cons_of_ne_nil (by simp [hnil]), ih hnil,
        List.intercalate_cons_of_ne_nil hnil]
      simp only [List.append_assoc]

/-- The parts that are in the key. -/
def segments (parts : List (List Char)) : List (List Char) :=
  (parts.map stripSlashes).filter fun p => 0 < p.length

theorem segments_append (xs ys : List (List Char)) :
    segments (xs ++ ys) = segments xs ++ segments ys := by
  rw [segments, List.map_append, List.filter_append, segments, segments]

theorem mem_segments {parts : List (List Char)} {p : List Char} (h : p ∈ segments parts) :
    Stripped p ∧ p ≠ [] := by
  obtain ⟨hmem, hlength⟩ := List.mem_filter.mp h
  obtain ⟨part, _, rfl⟩ := List.mem_map.mp hmem
  refine ⟨stripSlashes_stripped part, fun hnil => ?_⟩
  rw [hnil] at hlength
  simp at hlength

theorem segments_eq_nil_iff {parts : List (List Char)} :
    segments parts = [] ↔ ∀ p ∈ parts, ∀ c ∈ p, c = '/' := by
  rw [segments, List.filter_eq_nil_iff, List.forall_mem_map]
  refine forall₂_congr fun p _ => ?_
  rw [decide_eq_true_eq, List.length_pos_iff, not_not]
  exact stripSlashes_eq_nil_iff

theorem intercalate_stripped {l : List (List Char)} (h : ∀ p ∈ l, Stripped p ∧ p ≠ []) :
    Stripped (['/'].intercalate l) ∧ (['/'].intercalate l = [] ↔ l = []) := by
  induction l with
  | nil => exact ⟨⟨by simp, by simp⟩, by simp⟩
  | cons p l ih =>
    obtain ⟨⟨hhead, hlast⟩, hne⟩ := h p List.mem_cons_self
    obtain ⟨⟨_, hrest⟩, hnil⟩ := ih fun q hq => h q (List.mem_cons_of_mem p hq)
    by_cases hl : l = []
    · subst hl
      rw [List.intercalate_singleton]
      exact ⟨⟨hhead, hlast⟩, by simp [hne]⟩
    · rw [List.intercalate_cons_of_ne_nil hl]
      have hsome : ['/'].intercalate l ≠ [] := fun h => hl (hnil.mp h)
      refine ⟨⟨?_, ?_⟩, by simp [hne]⟩
      · rwa [List.append_assoc, List.head?_append_of_ne_nil _ hne]
      · rwa [List.getLast?_append_of_ne_nil _ hsome]

/-! ## Canonical keys -/

theorem buildKey_eq {parts : List (List Char)} (h : parts ≠ []) :
    buildKey parts = .ok (['/'].intercalate (segments parts)) :=
  if_neg fun hlength => h (List.length_eq_zero_iff.mp hlength)

/-- A key is one segment, or none when it is empty. -/
theorem segments_key (parts ys : List (List Char)) :
    ['/'].intercalate (segments (['/'].intercalate (segments parts) :: ys)) =
      ['/'].intercalate (segments (parts ++ ys)) := by
  obtain ⟨hstripped, hempty⟩ := intercalate_stripped fun p (hp : p ∈ segments parts) =>
    mem_segments hp
  rw [segments_append]
  by_cases hnil : segments parts = []
  · rw [hnil]
    rfl
  · have hne : ['/'].intercalate (segments parts) ≠ [] := fun h => hnil (hempty.mp h)
    have hcons : segments (['/'].intercalate (segments parts) :: ys) =
        ['/'].intercalate (segments parts) :: segments ys := by
      rw [segments, List.map_cons, stripSlashes_of_stripped hstripped,
        List.filter_cons_of_pos (by simpa [List.length_pos_iff] using hne)]
      rfl
    rw [hcons]
    by_cases hys : segments ys = []
    · rw [hys, List.append_nil, List.intercalate_singleton]
    · rw [List.intercalate_cons_of_ne_nil hys, intercalate_append hnil hys]

theorem buildKey_canonical {xs : List (List Char)} (h : xs ≠ []) :
    ∃ key, buildKey xs = .ok key ∧
      (∀ ys, buildKey (key :: ys) = buildKey (xs ++ ys)) ∧
      buildKey [key] = .ok key ∧
      key.head? ≠ some '/' ∧ key.getLast? ≠ some '/' ∧
      (key = [] ↔ ∀ x ∈ xs, ∀ c ∈ x, c = '/') := by
  obtain ⟨⟨hhead, hlast⟩, hempty⟩ := intercalate_stripped fun p (hp : p ∈ segments xs) =>
    mem_segments hp
  have hflat : ∀ ys, buildKey (['/'].intercalate (segments xs) :: ys) = buildKey (xs ++ ys) :=
    fun ys => by
      rw [buildKey_eq (List.cons_ne_nil _ _), buildKey_eq (by simp [h]), segments_key]
  refine ⟨_, buildKey_eq h, hflat, ?_, hhead, hlast, hempty.trans segments_eq_nil_iff⟩
  rw [hflat [], List.append_nil, buildKey_eq h]

theorem buildKey_canonical_slashes :
    ∃ key, buildKey [['/', 'a', '/'], ['/'], ['b', '/', '/', 'c']] = .ok key ∧
      (∀ ys, buildKey (key :: ys) =
        buildKey ([['/', 'a', '/'], ['/'], ['b', '/', '/', 'c']] ++ ys)) ∧
      buildKey [key] = .ok key ∧
      key.head? ≠ some '/' ∧ key.getLast? ≠ some '/' ∧
      (key = [] ↔ ∀ x ∈ [['/', 'a', '/'], ['/'], ['b', '/', '/', 'c']], ∀ c ∈ x, c = '/') :=
  buildKey_canonical (List.cons_ne_nil _ _)

/-! ## Two environments -/

theorem normalizeKey_head (key : List Char) : (normalizeKey key).head? ≠ some '/' := by
  intro hhead
  have hnot := List.head?_dropWhile_not (fun c => decide (c = '/')) key
  rw [show (key.dropWhile fun c => decide (c = '/')).head? = _ from hhead] at hnot
  simp at hnot

theorem normalizeKey_of_head {key : List Char} (h : key.head? ≠ some '/') :
    normalizeKey key = key := by
  rcases key with _ | ⟨c, key⟩
  · rfl
  · exact List.dropWhile_cons_of_neg (by simpa using h)

/-- The keys of the second are among those of the first: its `keyPrefix` goes on after a slash,
and not with another one. -/
def Within (p q : List Char) : Prop :=
  p = [] ∨ ∃ r, q = p ++ '/' :: r ∧ r.head? ≠ some '/'

section

variable {s s' : StorageService}

theorem Within.collides (hne : s.keyPrefix ≠ s'.keyPrefix)
    (h : Within s.keyPrefix s'.keyPrefix) (key : List Char) :
    ∃ other, s.applyPrefix other = s'.applyPrefix key := by
  unfold StorageService.applyPrefix
  rcases h with hnil | ⟨r, hr, hhead⟩
  · have hs' : s'.keyPrefix ≠ [] := fun h => hne (hnil.trans h.symm)
    refine ⟨s'.keyPrefix ++ '/' :: normalizeKey key, ?_⟩
    rw [if_neg (not_not.mpr hnil), if_pos hs', normalizeKey_of_head]
    rw [List.head?_append_of_ne_nil _ hs']
    exact s'.stripped.1
  · have hs' : s'.keyPrefix ≠ [] := by simp [hr]
    rw [if_pos hs']
    by_cases hs : s.keyPrefix = []
    · refine absurd ?_ s'.stripped.1
      rw [hr, hs]
      rfl
    · have hrest : r ≠ [] := by
        rintro rfl
        exact s'.stripped.2 (by rw [hr, List.getLast?_append_of_ne_nil _ (by simp)]; rfl)
      refine ⟨r ++ '/' :: normalizeKey key, ?_⟩
      rw [if_pos hs, normalizeKey_of_head (by rwa [List.head?_append_of_ne_nil _ hrest]), hr]
      simp

/-- What the longer of two different prefixes goes on with. -/
theorem within_of_append {key key' rest : List Char} {p q : List Char} (hne : p ≠ q)
    (hq : q = p ++ rest) (h : '/' :: normalizeKey key = rest ++ '/' :: normalizeKey key') :
    Within p q := by
  rcases rest with _ | ⟨c, rest⟩
  · exact absurd (hq.trans (List.append_nil p)).symm hne
  · obtain ⟨rfl, hkey⟩ := List.cons.inj h
    refine .inr ⟨rest, hq, fun hhead => normalizeKey_head key ?_⟩
    have hkey : normalizeKey key = rest ++ '/' :: normalizeKey key' := hkey
    rw [hkey, List.head?_append, hhead]
    rfl

theorem within_of_collision (hne : s.keyPrefix ≠ s'.keyPrefix) {key key' : List Char}
    (h : s.applyPrefix key = s'.applyPrefix key') :
    Within s.keyPrefix s'.keyPrefix ∨ Within s'.keyPrefix s.keyPrefix := by
  unfold StorageService.applyPrefix at h
  by_cases hs : s.keyPrefix = []
  · exact .inl (.inl hs)
  by_cases hs' : s'.keyPrefix = []
  · exact .inr (.inl hs')
  rw [if_pos hs, if_pos hs'] at h
  rcases List.append_eq_append_iff.mp h with ⟨rest, hlong, hkey⟩ | ⟨rest, hlong, hkey⟩
  · exact .inl (within_of_append hne hlong hkey)
  · exact .inr (within_of_append (Ne.symm hne) hlong hkey)

end

/-- Two values of `STORAGE_KEY_PREFIX` keep the objects apart exactly when neither goes on from
the other. -/
theorem apart_iff {value value' : List Char} (hne : stripSlashes value ≠ stripSlashes value') :
    (∀ key key', (StorageService.new value).applyPrefix key ≠
      (StorageService.new value').applyPrefix key') ↔
      ¬Within (stripSlashes value) (stripSlashes value') ∧
        ¬Within (stripSlashes value') (stripSlashes value) := by
  constructor
  · intro hapart
    refine ⟨fun hwithin => ?_, fun hwithin => ?_⟩
    · obtain ⟨key, hkey⟩ := @Within.collides (.new value) (.new value') hne hwithin []
      exact hapart key [] hkey
    · obtain ⟨key, hkey⟩ :=
        @Within.collides (.new value') (.new value) hne.symm hwithin []
      exact hapart [] key hkey.symm
  · rintro ⟨hnot, hnot'⟩ key key' hsame
    exact (@within_of_collision (.new value) (.new value') hne _ _ hsame).elim hnot hnot'

theorem apart_iff_staging :
    (∀ key key', (StorageService.new ['/', 'd', 'e', 'v', '/']).applyPrefix key ≠
      (StorageService.new ['q', 'a']).applyPrefix key') ↔
      ¬Within (stripSlashes ['/', 'd', 'e', 'v', '/']) (stripSlashes ['q', 'a']) ∧
        ¬Within (stripSlashes ['q', 'a']) (stripSlashes ['/', 'd', 'e', 'v', '/']) :=
  apart_iff (by decide)

/-- The prefixes of the documentation: none in production, and `dev`. -/
theorem dev_in_production :
    ¬∀ value value' : List Char, stripSlashes value ≠ stripSlashes value' →
      ∀ key key', (StorageService.new value).applyPrefix key ≠
        (StorageService.new value').applyPrefix key' := by
  intro h
  exact h [] ['d', 'e', 'v'] (by decide) ['d', 'e', 'v', '/', 'a'] ['a'] (by decide)

end LmsBackend.Storage
