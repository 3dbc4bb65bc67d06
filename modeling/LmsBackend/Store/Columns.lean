import LmsBackend.Numeric.Rounding
import Mathlib.Data.List.Basic

/-!
# Columns

What Postgres makes of a value that is assigned to a column, and when it refuses.
-/

open Numeric

namespace Store

/-- The characters beyond a limit are dropped when they are spaces. No text can hold a NUL. -/
def storeText (limit : Option Nat) (s : String) : Option String :=
  if '\x00' ∈ s.toList then none
  else
    match limit with
    | none => some s
    | some n =>
      if s.length ≤ n then some s
      else if (s.toList.drop n).all (· = ' ') then some (String.ofList (s.toList.take n))
      else none

/-- Of a column that can be NULL. -/
def storeNullable (limit : Option Nat) : Option String → Option (Option String)
  | none => some none
  | some s => (storeText limit s).map some

/-- A column of type `VARCHAR(limit)`, or TEXT without one. -/
structure TextColumn where
  notNull : Bool
  limit : Option Nat
  check : String → Bool

/-- What is stored. `none` is an error of the database, and NULL is `some none`. -/
def TextColumn.store (c : TextColumn) : Option String → Option (Option String)
  | none => if c.notNull then none else some none
  | some s => ((storeText c.limit s).filter c.check).map some

theorem storeText_cases {limit : Option Nat} {s stored : String}
    (h : storeText limit s = some stored) :
    '\x00' ∉ s.toList ∧ (stored = s ∧ (∀ n ∈ limit, s.length ≤ n) ∨
      stored ≠ s ∧ ∃ n ∈ limit, n < s.length) := by
  unfold storeText at h
  split at h
  · cases h
  refine ⟨‹_›, ?_⟩
  rcases limit with _ | n
  · cases h
    exact .inl ⟨rfl, by simp⟩
  dsimp only at h
  split at h
  · cases h
    refine .inl ⟨rfl, fun m hm => ?_⟩
    cases hm
    assumption
  split at h
  · cases h
    have hlong : n < s.length := Nat.lt_of_not_le ‹_›
    refine .inr ⟨fun hsame => ?_, n, rfl, hlong⟩
    have hlength := congrArg String.length hsame
    rw [String.length_ofList, List.length_take, String.length_toList] at hlength
    omega
  · cases h

/-- Spaces beyond the limit are dropped. -/
theorem storeText_spaces {l spaces : List Char} (hnul : '\x00' ∉ l) (hspaces : ∀ c ∈ spaces, c = ' ')
    (hmore : spaces ≠ []) :
    storeText (some l.length) (String.ofList (l ++ spaces)) = some (String.ofList l) := by
  have hnul' : '\x00' ∉ l ++ spaces := by
    intro hmem
    rcases List.mem_append.mp hmem with hmem | hmem
    · exact hnul hmem
    · exact absurd (hspaces _ hmem) (by decide)
  have hlong : ¬(l ++ spaces).length ≤ l.length := by
    have hlength := List.length_pos_iff.mpr hmore
    rw [List.length_append]
    omega
  unfold storeText
  simp only [String.toList_ofList, String.length_ofList]
  rw [if_neg hnul', if_neg hlong, List.drop_left, List.take_left, if_pos]
  exact List.all_eq_true.mpr fun c hc => decide_eq_true (hspaces c hc)

/-- TEXT cuts nothing. -/
theorem eq_of_storeNullable {s stored : Option String} (h : storeNullable none s = some stored) :
    stored = s := by
  rcases s with _ | s
  · exact (Option.some.inj h).symm
  · obtain ⟨text, htext, rfl⟩ := Option.map_eq_some_iff.mp h
    obtain ⟨-, ⟨rfl, -⟩ | ⟨-, n, hn, -⟩⟩ := storeText_cases htext
    · rfl
    · cases hn

/-- A text fits when what is beyond the limit are spaces. -/
def Fits (limit : Option Nat) (s : String) : Prop :=
  '\x00' ∉ s.toList ∧ ∀ n ∈ limit, (s.toList.drop n).all (· = ' ') = true

structure Column (α : Type) where
  notNull : Bool
  takes : α → Bool

/-- The value of an INSERT. -/
def Column.inserts {α : Type} (c : Column α) : Option α → Bool
  | none => !c.notNull
  | some a => c.takes a

def TextColumn.toColumn (c : TextColumn) : Column String where
  notNull := c.notNull
  takes s := (c.store (some s)).isSome

/-- INTEGER -/
def integerColumn (notNull : Bool) : Column Int := ⟨notNull, fun n => -2 ^ 31 ≤ n ∧ n < 2 ^ 31⟩

/-- NUMERIC(p, s): rounded to `s` places, with at most `p` digits then. -/
def numericColumn (notNull : Bool) (p s : Nat) : Column Rat :=
  ⟨notNull, fun q => roundHalfUp (|q| * 10 ^ s) < 10 ^ p⟩

def booleanColumn (notNull : Bool) : Column Bool := ⟨notNull, fun _ => true⟩

end Store
