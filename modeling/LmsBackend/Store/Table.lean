import Mathlib.Data.Fintype.EquivFin
import Mathlib.Data.List.Nodup

/-!
# Tables with a primary key

A row holds its own key, and a table holds at most one row for each key.
-/

namespace Store

class Keyed (R : Type) (K : outParam Type) where
  key : R → K

open Keyed

structure Table (R : Type) {K : Type} [Keyed R K] where
  rows : List R
  nodup : (rows.map key).Nodup

namespace Table

variable {R K : Type} [Keyed R K] [DecidableEq K]

def empty : Table R := ⟨[], by simp⟩

def get (t : Table R) (k : K) : Option R := t.rows.find? fun r => key r = k

omit [DecidableEq K] in
theorem nodup_append {t : Table R} {r : R} (h : key r ∉ t.rows.map key) :
    ((t.rows ++ [r]).map key).Nodup := by
  rw [List.map_append, List.nodup_append]
  refine ⟨t.nodup, by simp, ?_⟩
  rintro _ ha _ hb rfl
  exact h (by simp_all)

theorem map_key_replace (l : List R) (r : R) :
    (l.map fun x => if key x = key r then r else x).map key = l.map key := by
  rw [List.map_map]
  refine List.map_congr_left fun x _ => ?_
  simp only [Function.comp_apply]
  split
  · exact Eq.symm ‹_›
  · rfl

/-- Writes the row: in place of the row with its key, or as a new one. -/
def put (t : Table R) (r : R) : Table R :=
  if h : key r ∈ t.rows.map key then
    ⟨t.rows.map fun x => if key x = key r then r else x, by rw [map_key_replace]; exact t.nodup⟩
  else ⟨t.rows ++ [r], nodup_append h⟩

def erase (t : Table R) (k : K) : Table R :=
  ⟨t.rows.filter fun r => key r ≠ k, t.nodup.sublist (List.filter_sublist.map _)⟩

/-- `UPDATE ... WHERE key = k`, for an `f` that keeps the key. -/
def update (t : Table R) (k : K) (f : R → R) : Table R :=
  match t.get k with
  | some r => t.put (f r)
  | none => t

/-- `UPDATE` of every row, for an `f` that keeps the key. -/
def map (t : Table R) (f : R → R) (hf : ∀ r, key (f r) = key r) : Table R :=
  ⟨t.rows.map f, by rw [List.map_map, show key ∘ f = key from funext hf]; exact t.nodup⟩

theorem get_some_iff {t : Table R} {k : K} {r : R} : t.get k = some r ↔ r ∈ t.rows ∧ key r = k := by
  constructor
  · intro h
    exact ⟨List.mem_of_find?_eq_some h, by simpa using List.find?_some h⟩
  · rintro ⟨hr, rfl⟩
    obtain ⟨x, hx⟩ : ∃ x, t.get (key r) = some x :=
      Option.isSome_iff_exists.mp (List.find?_isSome.mpr ⟨r, hr, by simp⟩)
    have hxr : key x = key r := by simpa using List.find?_some hx
    rw [hx, List.inj_on_of_nodup_map t.nodup (List.mem_of_find?_eq_some hx) hr hxr]

theorem key_of_get {t : Table R} {k : K} {r : R} (h : t.get k = some r) : key r = k :=
  (get_some_iff.mp h).2

theorem mem_rows_iff {t : Table R} {r : R} : r ∈ t.rows ↔ t.get (key r) = some r := by
  simp [get_some_iff]

theorem get_none_iff {t : Table R} {k : K} : t.get k = none ↔ ∀ r ∈ t.rows, key r ≠ k := by
  simp [get, List.find?_eq_none]

theorem infinite_string : Infinite String :=
  .of_injective (fun n => String.ofList (List.replicate n 'x')) fun m n h => by
    simpa using congrArg String.length h

/-- There are always texts that are no key of the table yet. -/
theorem exists_new {R : Type} [Keyed R String] (t : Table R) : ∃ k, t.get k = none := by
  have := infinite_string
  obtain ⟨k, hk⟩ := Infinite.exists_notMem_finset (t.rows.map key).toFinset
  refine ⟨k, get_none_iff.mpr fun r hr hkey => hk ?_⟩
  rw [List.mem_toFinset]
  exact List.mem_map.mpr ⟨r, hr, hkey⟩

@[simp] theorem get_empty (k : K) : (empty : Table R).get k = none := rfl

theorem mem_put {t : Table R} {r x : R} :
    x ∈ (t.put r).rows ↔ x = r ∨ x ∈ t.rows ∧ key x ≠ key r := by
  unfold put
  split
  · rename_i h
    simp only [List.mem_map]
    constructor
    · rintro ⟨y, hy, rfl⟩
      split
      · exact .inl rfl
      · exact .inr ⟨hy, ‹_›⟩
    · rintro (rfl | ⟨hx, hk⟩)
      · obtain ⟨y, hy, he⟩ := List.mem_map.mp h
        exact ⟨y, hy, if_pos he⟩
      · exact ⟨x, hx, if_neg hk⟩
  · rename_i h
    simp only [List.mem_append, List.mem_singleton]
    constructor
    · rintro (hx | rfl)
      · exact .inr ⟨hx, fun he => h (he ▸ List.mem_map_of_mem hx)⟩
      · exact .inl rfl
    · rintro (rfl | ⟨hx, -⟩)
      · exact .inr rfl
      · exact .inl hx

theorem mem_erase {t : Table R} {k : K} {x : R} : x ∈ (t.erase k).rows ↔ x ∈ t.rows ∧ key x ≠ k := by
  simp [erase]

theorem get_put (t : Table R) (r : R) (k : K) :
    (t.put r).get k = if key r = k then some r else t.get k := by
  split
  · subst k
    exact get_some_iff.mpr ⟨mem_put.mpr (.inl rfl), rfl⟩
  · rename_i h
    refine Option.ext fun x => ?_
    rw [get_some_iff, get_some_iff, mem_put]
    constructor
    · rintro ⟨rfl | ⟨hx, -⟩, rfl⟩
      · exact absurd rfl h
      · exact ⟨hx, rfl⟩
    · rintro ⟨hx, rfl⟩
      exact ⟨.inr ⟨hx, fun he => h he.symm⟩, rfl⟩

theorem get_erase (t : Table R) (k k' : K) :
    (t.erase k).get k' = if k = k' then none else t.get k' := by
  refine Option.ext fun x => ?_
  rw [get_some_iff, mem_erase]
  split
  · subst k'; simp
  · rename_i h
    rw [get_some_iff]
    constructor
    · rintro ⟨⟨hx, -⟩, rfl⟩
      exact ⟨hx, rfl⟩
    · rintro ⟨hx, rfl⟩
      exact ⟨⟨hx, fun he => h he.symm⟩, rfl⟩

theorem get_update (t : Table R) (k : K) (f : R → R) (hf : ∀ r, key (f r) = key r) (k' : K) :
    (t.update k f).get k' = if k = k' then (t.get k').map f else t.get k' := by
  unfold update
  split
  · rename_i r hr
    rw [get_put, hf, key_of_get hr]
    split
    · subst k'; rw [hr, Option.map_some]
    · rfl
  · rename_i hr
    split
    · subst k'; rw [hr, Option.map_none]
    · rfl

omit [DecidableEq K] in
theorem mem_map {t : Table R} {f : R → R} {hf : ∀ r, key (f r) = key r} {x : R} :
    x ∈ (t.map f hf).rows ↔ ∃ r ∈ t.rows, f r = x :=
  List.mem_map

theorem get_map (t : Table R) (f : R → R) (hf : ∀ r, key (f r) = key r) (k : K) :
    (t.map f hf).get k = (t.get k).map f := by
  refine Option.ext fun x => ?_
  rw [get_some_iff, mem_map, Option.map_eq_some_iff]
  constructor
  · rintro ⟨⟨r, hr, rfl⟩, rfl⟩
    exact ⟨r, get_some_iff.mpr ⟨hr, (hf r).symm⟩, rfl⟩
  · rintro ⟨r, hget, rfl⟩
    obtain ⟨hr, rfl⟩ := get_some_iff.mp hget
    exact ⟨⟨r, hr, rfl⟩, hf r⟩

/-- A row that comes or goes with a write is the new row, or the one in its place. -/
theorem mem_put_or (t : Table R) (r x : R) :
    (x ∈ (t.put r).rows ↔ x ∈ t.rows) ∨ x = r ∨ t.get (key r) = some x := by
  rw [mem_put]
  by_cases hr : x = r
  · exact .inr (.inl hr)
  · by_cases hkey : key x = key r
    · by_cases hx : x ∈ t.rows
      · exact .inr (.inr (get_some_iff.mpr ⟨hx, hkey⟩))
      · simp [hr, hx]
    · simp [hr, hkey]

theorem mem_update_or (t : Table R) (k : K) (f : R → R) (hf : ∀ r, key (f r) = key r) (x : R) :
    (x ∈ (t.update k f).rows ↔ x ∈ t.rows) ∨ ∃ r, t.get k = some r ∧ (x = f r ∨ x = r) := by
  unfold update
  split
  · rename_i r hr
    rcases t.mem_put_or (f r) x with h | h | h
    · exact .inl h
    · exact .inr ⟨r, hr, .inl h⟩
    · rw [hf, key_of_get hr, hr] at h
      exact .inr ⟨r, hr, .inr (Option.some.inj h).symm⟩
  · exact .inl .rfl

omit [DecidableEq K] in
theorem mem_map_or (t : Table R) (f : R → R) (hf : ∀ r, key (f r) = key r) (x : R) :
    (x ∈ (t.map f hf).rows ↔ x ∈ t.rows) ∨ ∃ r ∈ t.rows, f r ≠ r ∧ (x = f r ∨ x = r) := by
  rw [mem_map]
  by_cases hx : x ∈ t.rows
  · by_cases hsame : f x = x
    · exact .inl (iff_of_true ⟨x, hx, hsame⟩ hx)
    · exact .inr ⟨x, hx, hsame, .inr rfl⟩
  · by_cases hmap : ∃ r ∈ t.rows, f r = x
    · obtain ⟨r, hr, rfl⟩ := hmap
      refine .inr ⟨r, hr, fun hsame => hx ?_, .inl rfl⟩
      rw [hsame]
      exact hr
    · exact .inl (iff_of_false hmap hx)

section

variable {t : Table R} {r x : R} {p : R → Prop}

/-- A write neither adds nor takes a row with `p`, when neither the new row nor the old one has it. -/
theorem mem_put_outside (hr : ¬p r) (hold : ∀ y, t.get (key r) = some y → ¬p y) (hx : p x) :
    x ∈ (t.put r).rows ↔ x ∈ t.rows := by
  rcases t.mem_put_or r x with h | rfl | h
  · exact h
  · exact absurd hx hr
  · exact absurd hx (hold x h)

theorem mem_erase_outside {k : K} (hold : ∀ y, t.get k = some y → ¬p y) (hx : p x) :
    x ∈ (t.erase k).rows ↔ x ∈ t.rows := by
  rw [mem_erase, and_iff_left_iff_imp]
  intro hmem hk
  exact hold x (get_some_iff.mpr ⟨hmem, hk⟩) hx

theorem mem_update_outside {k : K} {f : R → R} (hf : ∀ r, key (f r) = key r)
    (hold : ∀ y, t.get k = some y → ¬p y ∧ ¬p (f y)) (hx : p x) :
    x ∈ (t.update k f).rows ↔ x ∈ t.rows := by
  rcases t.mem_update_or k f hf x with h | ⟨y, hy, rfl | rfl⟩
  · exact h
  · exact absurd hx (hold y hy).2
  · exact absurd hx (hold x hy).1

end

/-- A row that is there already. -/
theorem put_of_get {t : Table R} {r : R} (h : t.get (key r) = some r) : t.put r = t := by
  have hmem : key r ∈ t.rows.map key := List.mem_map_of_mem (get_some_iff.mp h).1
  have hrows : (t.rows.map fun x => if key x = key r then r else x) = t.rows := by
    rw [List.map_congr_left (g := id), List.map_id]
    intro x hx
    split
    · rename_i hkey
      have hx := mem_rows_iff.mp hx
      rw [hkey, h] at hx
      exact Option.some.inj hx
    · rfl
  unfold put
  rw [dif_pos hmem]
  cases t
  congr

/-- What holds of every row after a write that replaces no row it would not hold of. -/
theorem forall_put_iff {t : Table R} {r : R} {p : R → Prop}
    (h : ∀ x, t.get (key r) = some x → p r → p x) :
    (∀ x ∈ (t.put r).rows, p x) ↔ (∀ x ∈ t.rows, p x) ∧ p r := by
  simp only [mem_put]
  constructor
  · intro hall
    have hr : p r := hall r (.inl rfl)
    refine ⟨fun x hx => ?_, hr⟩
    by_cases hkey : key x = key r
    · exact h x (get_some_iff.mpr ⟨hx, hkey⟩) hr
    · exact hall x (.inr ⟨hx, hkey⟩)
  · rintro ⟨hall, hr⟩ x (rfl | ⟨hx, -⟩)
    · exact hr
    · exact hall x hx

/-- How a row that is written changes the number of rows with `p`. -/
theorem countP_put (t : Table R) (r : R) (p : R → Bool) :
    (t.put r).rows.countP p + (t.get (key r)).elim 0 (fun x => (p x).toNat) =
      t.rows.countP p + (p r).toNat := by
  unfold put
  split
  · rename_i h
    obtain ⟨x, hx, hkey⟩ := List.mem_map.mp h
    rw [get_some_iff.mpr ⟨hx, hkey⟩, Option.elim_some]
    obtain ⟨before, after, hrows⟩ := List.append_of_mem hx
    have hnodup := t.nodup
    rw [hrows, List.map_append, List.map_cons, List.nodup_append] at hnodup
    obtain ⟨-, hafter, hbefore⟩ := hnodup
    have hother : ∀ l : List R, (∀ y ∈ l, key y ≠ key r) →
        (l.map fun y => if key y = key r then r else y) = l := by
      intro l hl
      rw [List.map_congr_left fun y hy => if_neg (hl y hy), List.map_id']
    change List.countP p (t.rows.map fun y => if key y = key r then r else y) + _ = _
    rw [hrows, List.map_append, List.map_cons, if_pos hkey, hother before, hother after]
    · simp only [List.countP_append, List.countP_cons]
      cases p x <;> cases p r <;> simp <;> omega
    · intro y hy heq
      exact (List.nodup_cons.mp hafter).1 (hkey ▸ heq ▸ List.mem_map_of_mem hy)
    · intro y hy heq
      exact hbefore _ (List.mem_map_of_mem hy) _ (by simp) (heq.trans hkey.symm)
  · rename_i h
    have hnone : t.get (key r) = none := by
      rw [get_none_iff]
      intro x hx heq
      exact h (heq ▸ List.mem_map_of_mem hx)
    rw [hnone, Option.elim_none, List.countP_append]
    cases hp : p r <;> simp [hp]

@[simp] theorem get_put_self (t : Table R) (r : R) : (t.put r).get (key r) = some r := by
  rw [get_put, if_pos rfl]

theorem get_put_of_eq (t : Table R) {r : R} {k : K} (h : key r = k) : (t.put r).get k = some r := by
  rw [get_put, if_pos h]

theorem get_put_of_ne (t : Table R) {r : R} {k : K} (h : key r ≠ k) : (t.put r).get k = t.get k := by
  rw [get_put, if_neg h]

@[simp] theorem get_erase_self (t : Table R) (k : K) : (t.erase k).get k = none := by
  rw [get_erase, if_pos rfl]

theorem get_erase_of_ne (t : Table R) {k k' : K} (h : k ≠ k') : (t.erase k).get k' = t.get k' := by
  rw [get_erase, if_neg h]

/-- Erases the rows with the keys of the list. -/
def eraseAll (t : Table R) (ks : List K) : Table R := ks.foldl erase t

theorem get_eraseAll (t : Table R) (ks : List K) (k : K) :
    (t.eraseAll ks).get k = if k ∈ ks then none else t.get k := by
  induction ks generalizing t with
  | nil => simp [eraseAll]
  | cons a ks ih =>
    rw [eraseAll, List.foldl_cons, ← eraseAll, ih, get_erase]
    by_cases ha : a = k <;> by_cases hk : k ∈ ks <;> simp [ha, hk, eq_comm (a := k)]

end Table

end Store
