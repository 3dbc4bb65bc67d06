import LmsBackend.Async.Monitor
import Mathlib.Algebra.Order.BigOperators.Group.List
import Mathlib.Algebra.Order.Ring.Nat

/-!
# Counting over a pool

What the phases of all processes come to (`Monitor.total`), and how it changes
when one process moves.
-/

namespace Async

variable {W C : Type} {R : C → Type} {E A T X V G : Type}

/-- Two sums over the same places that differ in one. -/
theorem sum_range_of_ne {f f' : Nat → Nat} {i n : Nat} (hi : i < n) (h : ∀ j, j ≠ i → f' j = f j) :
    ((List.range n).map f').sum + f i = ((List.range n).map f).sum + f' i := by
  induction n with
  | zero => omega
  | succ n ih =>
    simp only [List.range_succ, List.map_append, List.map_cons, List.map_nil, List.sum_append,
      List.sum_cons, List.sum_nil]
    by_cases hin : i = n
    · subst hin
      have hsame : (List.range i).map f' = (List.range i).map f := by
        apply List.map_congr_left
        intro j hj
        apply h
        have := List.mem_range.mp hj
        omega
      rw [hsame]
      omega
    · have := ih (by omega)
      have := h n (fun he => hin he.symm)
      omega

/-- A sum over the places of a list. -/
theorem sum_range_getElem? {α : Type} (l : List α) (f : α → Nat) :
    ((List.range l.length).map fun i => l[i]?.elim 0 f).sum = (l.map f).sum := by
  congr 1
  apply List.ext_getElem
  · simp
  · intro i h₁ h₂
    simp at h₁
    simp [h₁]

theorem countP_eq_sum {α : Type} (l : List α) (p : α → Bool) :
    l.countP p = (l.map fun a => (p a).toNat).sum := by
  induction l with
  | nil => rfl
  | cons a l ih =>
    rw [List.countP_cons, List.map_cons, List.sum_cons, ih]
    cases p a <;> simp [Nat.add_comm]

namespace Monitor

variable {M : Monitor C R E A T G} {S : System W C R E A T X V} {c c' : Config W C R E A T}
  {f : G → Nat}

/-- What `f` gives for the phases of all processes together. -/
def total (M : Monitor C R E A T G) (f : G → Nat) (c : Config W C R E A T) : Nat :=
  ((List.range c.procs.length).map fun i => (M.phase c i).elim 0 f).sum

/-- What holds of each process by itself, for its task and its phase, holds of all together. -/
theorem total_le {f f' : G → Nat} {p p' : T → Bool}
    (h : ∀ i g t, M.phase c i = some g → c.task? i = some t →
      f' g + (p t).toNat ≤ f g + (p' t).toNat) (hphase : ∀ i < c.procs.length, (M.phase c i).isSome) :
    M.total f' c + c.procs.countP (fun x => p x.task) ≤
      M.total f c + c.procs.countP fun x => p' x.task := by
  have hcount : ∀ p : T → Bool, c.procs.countP (fun x => p x.task) =
      ((List.range c.procs.length).map fun i => c.procs[i]?.elim 0 fun x => (p x.task).toNat).sum :=
    fun p => by rw [countP_eq_sum, sum_range_getElem?]
  unfold total
  rw [hcount p, hcount p', ← List.sum_map_add, ← List.sum_map_add]
  apply List.sum_le_sum
  intro i hi
  have hi := List.mem_range.mp hi
  obtain ⟨g, hg⟩ := Option.isSome_iff_exists.mp (hphase i hi)
  have ht : c.task? i = some c.procs[i].task := by simp [Config.task?, hi]
  simpa [hg, hi] using h i g _ hg ht

theorem total_initial (w : W) : M.total f (.initial w : Config W C R E A T) = 0 := rfl

theorem total_move {i : Nat} {call : C} {r : Except E (R call)} {g g' : G}
    (hm : Moved M S c c' i call r g g') : M.total f c' + f g = M.total f c + f g' := by
  have hi := Monitor.lt_of_phase hm.before
  have hother : ∀ j, j ≠ i → (M.phase c' j).elim 0 f = (M.phase c j).elim 0 f := by
    intro j hj
    rw [hm.other j hj]
  have hsum := sum_range_of_ne hi hother
  simp only [hm.before, hm.after, Option.elim_some] at hsum
  unfold total
  rw [hm.length]
  exact hsum

/-- A move leaves every process its task. -/
theorem countP_move {i : Nat} {call : C} {r : Except E (R call)} {g g' : G}
    (hm : Moved M S c c' i call r g g') (p : T → Bool) :
    c'.procs.countP (fun x => p x.task) = c.procs.countP fun x => p x.task := by
  have htasks : c'.procs.map (·.task) = c.procs.map (·.task) := by
    apply List.ext_getElem?
    intro j
    rw [List.getElem?_map, List.getElem?_map]
    exact hm.task j
  have hmap : ∀ c : Config W C R E A T,
      c.procs.countP (fun x => p x.task) = (c.procs.map (·.task)).countP p := fun c => by
    rw [List.countP_map]
    rfl
  rw [hmap, hmap, htasks]

theorem total_start (hc : c.LogOk) (t : T) (w : W) :
    M.total f (c.start S [t] w) = M.total f c + f (M.start t) := by
  have hlength : (c.start S [t] w).procs.length = c.procs.length + 1 := by
    simp [Config.start]
  have hnew : M.phase (c.start S [t] w) c.procs.length = some (M.start t) := by
    refine phase_start_new (p := ⟨t, w, S.prog t⟩) hc (Nat.le_refl _) ?_
    simp [Config.start]
  unfold total
  rw [hlength, List.range_succ, List.map_append, List.sum_append]
  have hold : (List.range c.procs.length).map (fun i => (M.phase (c.start S [t] w) i).elim 0 f) =
      (List.range c.procs.length).map fun i => (M.phase c i).elim 0 f := by
    apply List.map_congr_left
    intro i hi
    rw [phase_start_of_lt (List.mem_range.mp hi)]
  simp [hold, hnew]

theorem total_env (w : W) : M.total f (c.start S [] w) = M.total f c := by
  simp [total, phase, Config.task?, Config.start]

end Monitor

end Async
