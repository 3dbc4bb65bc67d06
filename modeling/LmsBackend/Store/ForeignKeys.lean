import Mathlib.Data.List.Basic

/-!
# Foreign keys

What a deletion reaches: the rows that it matches, those that refer to one of them
by a key with ON DELETE CASCADE, and so on.
-/

namespace Store

inductive OnDelete where
  | cascade
  | setNull
  deriving DecidableEq, Repr

structure ForeignKey (T C : Type) where
  child : T
  column : C
  parent : T
  onDelete : OnDelete
  deriving DecidableEq, Repr

variable {T C R K : Type}

/-- `key` is the primary key of a row, and `ref` is what a column of it refers to. -/
inductive Reached (key : R → K) (ref : C → R → Option K) (keys : List (ForeignKey T C))
    (rows : T → List R) (start : T) (cond : R → Bool) : T → R → Prop where
  | matched {row : R} : row ∈ rows start → cond row = true →
      Reached key ref keys rows start cond start row
  | cascade {fk : ForeignKey T C} {parent row : R} : fk ∈ keys → fk.onDelete = .cascade →
      Reached key ref keys rows start cond fk.parent parent → row ∈ rows fk.child →
      ref fk.column row = some (key parent) → Reached key ref keys rows start cond fk.child row

section

variable [DecidableEq T] [DecidableEq K] (key : R → K) (ref : C → R → Option K)
  (keys : List (ForeignKey T C)) (rows : T → List R) (start : T) (cond : R → Bool)

/-- Whether fewer than `n` keys lead from a row up to one that is matched. -/
def reaches : Nat → T → R → Bool
  | 0, _, _ => false
  | n + 1, t, row =>
    (decide (t = start) && cond row) || keys.any fun fk =>
      decide (fk.child = t ∧ fk.onDelete = .cascade) && (rows fk.parent).any fun parent =>
        decide (ref fk.column row = some (key parent)) && reaches n fk.parent parent

variable {key ref keys rows start cond}

theorem reaches_succ {n : Nat} {t : T} {row : R} :
    reaches key ref keys rows start cond (n + 1) t row = true ↔
      (t = start ∧ cond row = true) ∨ ∃ fk ∈ keys, (fk.child = t ∧ fk.onDelete = .cascade) ∧
        ∃ parent ∈ rows fk.parent, ref fk.column row = some (key parent) ∧
          reaches key ref keys rows start cond n fk.parent parent = true := by
  simp only [reaches, Bool.or_eq_true, Bool.and_eq_true, decide_eq_true_eq, List.any_eq_true]

theorem reached_of_reaches {n : Nat} {t : T} {row : R} (hrow : row ∈ rows t)
    (h : reaches key ref keys rows start cond n t row = true) :
    Reached key ref keys rows start cond t row := by
  induction n generalizing t row with
  | zero => simp [reaches] at h
  | succ n ih =>
    rcases reaches_succ.mp h with ⟨rfl, hcond⟩ | ⟨fk, hfk, ⟨rfl, hdel⟩, parent, hparent, href, hup⟩
    · exact .matched hrow hcond
    · exact .cascade hfk hdel (ih hparent hup) hrow href

omit [DecidableEq T] [DecidableEq K] in
theorem Reached.mem {t : T} {row : R} (h : Reached key ref keys rows start cond t row) :
    row ∈ rows t := by
  rcases h with ⟨hrow, _⟩ | ⟨_, _, _, hrow, _⟩
  · exact hrow
  · exact hrow

/-- Where a cascade only leads to tables of a greater depth, no chain of keys is longer than that. -/
theorem reaches_of_reached {depth : T → Nat}
    (hdepth : ∀ fk ∈ keys, fk.onDelete = .cascade → depth fk.parent < depth fk.child)
    {t : T} {row : R} (h : Reached key ref keys rows start cond t row) {n : Nat}
    (hn : depth t < n) : reaches key ref keys rows start cond n t row = true := by
  induction h generalizing n with
  | matched hrow hcond =>
    obtain ⟨n, rfl⟩ := Nat.exists_eq_add_one_of_ne_zero (Nat.ne_of_gt (Nat.zero_lt_of_lt hn))
    exact reaches_succ.mpr (.inl ⟨rfl, hcond⟩)
  | cascade hfk hdel hup hrow href ih =>
    obtain ⟨n, rfl⟩ := Nat.exists_eq_add_one_of_ne_zero (Nat.ne_of_gt (Nat.zero_lt_of_lt hn))
    have hlt := hdepth _ hfk hdel
    exact reaches_succ.mpr (.inr ⟨_, hfk, ⟨rfl, hdel⟩, _, hup.mem, href, ih (by omega)⟩)

theorem reaches_iff {depth : T → Nat}
    (hdepth : ∀ fk ∈ keys, fk.onDelete = .cascade → depth fk.parent < depth fk.child)
    {t : T} {row : R} {n : Nat} (hrow : row ∈ rows t) (hn : depth t < n) :
    reaches key ref keys rows start cond n t row = true ↔
      Reached key ref keys rows start cond t row :=
  ⟨reached_of_reaches hrow, fun h => reaches_of_reached hdepth h hn⟩

end

end Store
