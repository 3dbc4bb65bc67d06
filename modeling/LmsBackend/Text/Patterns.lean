import Mathlib.Data.List.Basic

/-!
# Patterns

Regular expressions that are sequences: literals, runs of a class, and texts as
short as can be. A pattern matches at the first place that it can, and what
follows the match is searched again.
-/

namespace Text

variable {α β : Type}

inductive Piece (α : Type) where
  | lit (l : List α)
  /-- `cls+`, in parentheses where it is captured. -/
  | plus (captured : Bool) (cls : α → Bool)
  /-- `([\s\S]*?)` -/
  | short

/-- The longest run from the start after which the rest matches. -/
def longest (cls : α → Bool) (k : List α → Option β) : List α → Option (List α × β)
  | [] => none
  | c :: s =>
    if cls c then
      match longest cls k s with
      | some (w, b) => some (c :: w, b)
      | none => (k s).map fun b => ([c], b)
    else none

/-- The shortest text from the start after which the rest matches. -/
def shortest (k : List α → Option β) : List α → Option (List α × β)
  | [] => (k []).map fun b => ([], b)
  | c :: s =>
    match k (c :: s) with
    | some b => some ([], b)
    | none => (shortest k s).map fun (w, b) => (c :: w, b)

section

variable [DecidableEq α]

/-- What a match at the start captures, and what follows it. -/
def matchAt : List (Piece α) → List α → Option (List (List α) × List α)
  | [], s => some ([], s)
  | .lit l :: ps, s => if l <+: s then matchAt ps (s.drop l.length) else none
  | .plus captured cls :: ps, s =>
    (longest cls (matchAt ps) s).map fun (w, caps, rest) =>
      (if captured then w :: caps else caps, rest)
  | .short :: ps, s => (shortest (matchAt ps) s).map fun (w, caps, rest) => (w :: caps, rest)

-- The proofs rewrite with their equations.
attribute [local simp] longest shortest matchAt

/-- `s.replace(pattern, f)` for a pattern with the flag `g`. After a match of nothing the search
goes on one place further. -/
def replaceAll (ps : List (Piece α)) (f : List (List α) → List α) (s : List α) : List α :=
  match matchAt ps s, s with
  | none, [] => []
  | none, c :: rest => c :: replaceAll ps f rest
  | some (caps, _), [] => f caps
  | some (caps, rest), c :: tail =>
    if rest.length < (c :: tail).length then f caps ++ replaceAll ps f rest
    else f caps ++ c :: replaceAll ps f tail
termination_by s.length
decreasing_by
  all_goals
    simp only [List.length_cons] at *
    omega

variable {ps : List (Piece α)} {f : List (List α) → List α}

theorem replaceAll_none {c : α} {s : List α} (h : matchAt ps (c :: s) = none) :
    replaceAll ps f (c :: s) = c :: replaceAll ps f s := by
  rw [replaceAll.eq_def, h]

theorem replaceAll_some {caps : List (List α)} {s rest : List α}
    (h : matchAt ps s = some (caps, rest)) (hlt : rest.length < s.length) :
    replaceAll ps f s = f caps ++ replaceAll ps f rest := by
  rcases s with _ | ⟨c, tail⟩
  · simp at hlt
  · rw [replaceAll.eq_def, h]
    simp only [if_pos hlt]

/-! ## One part -/

theorem matchAt_lit (l s : List α) :
    matchAt (.lit l :: ps) (l ++ s) = matchAt ps s := by
  rw [matchAt, if_pos (List.prefix_append l s), List.drop_left]

theorem matchAt_lit_none {l s : List α} (h : ¬l <+: s) : matchAt (.lit l :: ps) s = none := by
  rw [matchAt, if_neg h]

omit [DecidableEq α] in
theorem longest_append {cls : α → Bool} {k : List α → Option β} {w s : List α} {b : β}
    (hw : w ≠ []) (hcls : ∀ c ∈ w, cls c = true) (hs : ∀ c ∈ s.head?, cls c = false)
    (hk : k s = some b) : longest cls k (w ++ s) = some (w, b) := by
  induction w with
  | nil => exact absurd rfl hw
  | cons c w ih =>
    rw [List.cons_append, longest, if_pos (hcls c List.mem_cons_self)]
    by_cases hempty : w = []
    · subst hempty
      have hend : longest cls k s = none := by
        rcases s with _ | ⟨c', s⟩
        · rfl
        · rw [longest, if_neg (by simp [hs c' rfl])]
      rw [List.nil_append, hend, hk]
      rfl
    · rw [ih hempty fun c' hc' => hcls c' (List.mem_cons_of_mem c hc')]

theorem matchAt_plus (captured : Bool) {cls : α → Bool} {w s : List α} {caps : List (List α)}
    {rest : List α} (hw : w ≠ []) (hcls : ∀ c ∈ w, cls c = true)
    (hs : ∀ c ∈ s.head?, cls c = false) (hmatch : matchAt ps s = some (caps, rest)) :
    matchAt (.plus captured cls :: ps) (w ++ s) =
      some (if captured then w :: caps else caps, rest) := by
  rw [matchAt, longest_append hw hcls hs hmatch]
  rfl

/-- The pattern of one symbol. -/
theorem replaceAll_symbol (a : α) (r s : List α) :
    replaceAll [.lit [a]] (fun _ => r) s = s.flatMap fun c => if c = a then r else [c] := by
  induction s with
  | nil =>
    rw [replaceAll.eq_def, matchAt_lit_none (by simp)]
    rfl
  | cons c s ih =>
    rw [List.flatMap_cons, ← ih]
    by_cases hc : c = a
    · subst hc
      rw [if_pos rfl, replaceAll_some (matchAt_lit [c] s) (Nat.lt_succ_self _)]
    · rw [if_neg hc, replaceAll_none (matchAt_lit_none fun hpre => ?_), List.singleton_append]
      exact hc (List.cons_prefix_cons.mp hpre).1.symm

/-! ## Where a literal does not occur -/

/-- The literal starts nowhere in `p`, also when `s` follows. -/
def Skips (l : List α) : List α → List α → Prop
  | [], _ => True
  | c :: p, s => ¬l <+: c :: (p ++ s) ∧ Skips l p s

omit [DecidableEq α] in
theorem skips_append {l p q s : List α} :
    Skips l (p ++ q) s ↔ Skips l p (q ++ s) ∧ Skips l q s := by
  induction p with
  | nil => simp [Skips]
  | cons c p ih => simp only [List.cons_append, Skips, ih, List.append_assoc, and_assoc]

omit [DecidableEq α] in
/-- A literal starts only where its first symbol is. -/
theorem skips_of_notMem {a : α} {l p s : List α} (h : a ∉ p) : Skips (a :: l) p s := by
  induction p with
  | nil => trivial
  | cons c p ih =>
    refine ⟨fun hpre => ?_, ih fun hmem => h (List.mem_cons_of_mem c hmem)⟩
    obtain ⟨rfl, _⟩ := List.cons_prefix_cons.mp hpre
    exact h List.mem_cons_self

theorem replaceAll_skips {l p s : List α} (h : Skips l p s) :
    replaceAll (.lit l :: ps) f (p ++ s) = p ++ replaceAll (.lit l :: ps) f s := by
  induction p with
  | nil => rfl
  | cons c p ih =>
    rw [List.cons_append, replaceAll_none (matchAt_lit_none h.1), ih h.2, List.cons_append]

theorem replaceAll_eq_self {l s : List α} (h : Skips l s []) (hl : l ≠ []) :
    replaceAll (.lit l :: ps) f s = s := by
  have hnil : replaceAll (.lit l :: ps) f [] = [] := by
    rw [replaceAll.eq_def, matchAt_lit_none (by simpa using hl)]
  have hskip : replaceAll (.lit l :: ps) f (s ++ []) = _ := replaceAll_skips h
  simpa [hnil] using hskip

/-- A short text ends at the first place where the literal after it is. -/
theorem matchAt_short {l p s : List α} (h : Skips l p (l ++ s)) :
    matchAt [.short, .lit l] (p ++ (l ++ s)) = some ([p], s) := by
  have hfirst : shortest (matchAt [.lit l]) (p ++ (l ++ s)) = some (p, ([], s)) := by
    induction p with
    | nil =>
      have hlit : matchAt [.lit l] (l ++ s) = some ([], s) := matchAt_lit l s
      rw [List.nil_append]
      rcases hls : l ++ s with _ | ⟨c, rest⟩
      · rw [hls] at hlit
        rw [shortest, hlit]
        rfl
      · rw [hls] at hlit
        rw [shortest, hlit]
    | cons c p ih =>
      rw [List.cons_append, shortest, matchAt_lit_none h.1, ih h.2]
      rfl
  rw [matchAt, hfirst]
  rfl

end

end Text
