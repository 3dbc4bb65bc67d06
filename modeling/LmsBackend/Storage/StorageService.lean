import Mathlib.Data.List.DropRight

/-!
# The keys of stored objects

The parts of `StorageService` that make keys. A text is the list of its characters.
-/

namespace LmsBackend.Storage

/-- `.replace(/^\/+|\/+$/g, '')` -/
def stripSlashes (s : List Char) : List Char :=
  (s.dropWhile (· = '/')).rdropWhile (· = '/')

/-- `StorageService.buildKey(...parts)` -/
def buildKey (parts : List (List Char)) : Except String (List Char) :=
  if parts.length = 0 then .error "buildKey requires at least one segment"
  else .ok (['/'].intercalate ((parts.map stripSlashes).filter fun p => 0 < p.length))

/-- Without a slash at either end. -/
def Stripped (s : List Char) : Prop := s.head? ≠ some '/' ∧ s.getLast? ≠ some '/'

theorem stripSlashes_stripped (s : List Char) : Stripped (stripSlashes s) := by
  unfold stripSlashes
  refine ⟨fun hhead => ?_, fun hlast => ?_⟩
  · obtain ⟨rest, hrest⟩ := List.rdropWhile_prefix (· = '/') (s.dropWhile (· = '/'))
    have hfirst : (s.dropWhile (· = '/')).head? = some '/' := by
      rw [← hrest, List.head?_append, hhead]
      rfl
    have hnot := List.head?_dropWhile_not (fun c => decide (c = '/')) s
    rw [hfirst] at hnot
    simp at hnot
  · have hne : (s.dropWhile (· = '/')).rdropWhile (· = '/') ≠ [] := by
      rintro h
      simp [h] at hlast
    rw [List.getLast?_eq_some_getLast hne] at hlast
    exact List.rdropWhile_last_not _ _ hne (by simpa using hlast)

theorem stripSlashes_of_stripped {s : List Char} (h : Stripped s) : stripSlashes s = s := by
  have hfront : s.dropWhile (· = '/') = s := by
    rcases s with _ | ⟨c, s⟩
    · rfl
    · exact List.dropWhile_cons_of_neg (by simpa using h.1)
  rw [stripSlashes, hfront, List.rdropWhile_eq_self_iff]
  intro hne hlast
  refine h.2 ?_
  rw [List.getLast?_eq_some_getLast hne]
  simpa using hlast

theorem stripSlashes_eq_nil_iff {s : List Char} : stripSlashes s = [] ↔ ∀ c ∈ s, c = '/' := by
  rw [stripSlashes, List.rdropWhile_eq_nil_iff]
  refine ⟨fun h => ?_, fun h c hc => by simpa using h c ((List.dropWhile_suffix _).subset hc)⟩
  have hempty : s.dropWhile (· = '/') = [] := by
    rcases hdrop : s.dropWhile (· = '/') with _ | ⟨c, rest⟩
    · rfl
    · have hnot := List.head?_dropWhile_not (fun c => decide (c = '/')) s
      rw [hdrop] at hnot h
      exact absurd (h c List.mem_cons_self) (by simpa using hnot)
  simpa using List.dropWhile_eq_nil_iff.mp hempty

/-- What of it a key depends on: `keyPrefix`, without slashes around it. -/
structure StorageService where
  keyPrefix : List Char
  stripped : Stripped keyPrefix

/-- With this value of `STORAGE_KEY_PREFIX`. -/
def StorageService.new (value : List Char) : StorageService :=
  ⟨stripSlashes value, stripSlashes_stripped value⟩

def normalizeKey (key : List Char) : List Char := key.dropWhile (· = '/')

def StorageService.applyPrefix (s : StorageService) (key : List Char) : List Char :=
  if s.keyPrefix ≠ [] then s.keyPrefix ++ '/' :: normalizeKey key else normalizeKey key

end LmsBackend.Storage
