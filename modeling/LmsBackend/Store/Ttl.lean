import LmsBackend.Store.Table

/-!
# Keys with a time to live

The commands of a key-value store with deadlines, over any keys and values. A
deadline is an absolute time. A key that has reached its deadline is gone, so
the clock takes it away (`sweep`) and no command meets it.
-/

namespace Store

structure Item (K V : Type) where
  key : K
  value : V
  deadline : Option Int
  deriving DecidableEq, Repr

instance {K V : Type} : Keyed (Item K V) K := ⟨Item.key⟩

@[simp] theorem Item.keyed {K V : Type} (it : Item K V) : Keyed.key it = it.key := rfl

abbrev TtlStore (K V : Type) := Table (Item K V)

namespace TtlStore

variable {K V : Type} [DecidableEq K]

/-- `SET k v EX`, with the deadline that the TTL gives. -/
def set (s : TtlStore K V) (k : K) (v : V) (deadline : Int) : TtlStore K V :=
  s.put ⟨k, v, some deadline⟩

/-- `SET k v KEEPTTL XX`: only when the key is there, with the deadline that it has. -/
def setKeepTtlXx (s : TtlStore K V) (k : K) (v : V) : TtlStore K V :=
  s.update k fun it => { it with value := v }

/-- `PTTL k`: -2 without the key, -1 without a deadline. -/
def pttl (s : TtlStore K V) (now : Int) (k : K) : Int :=
  match s.get k with
  | none => -2
  | some it => it.deadline.elim (-1) (· - now)

def due (now : Int) (it : Item K V) : Bool := it.deadline.any (· ≤ now)

/-- The keys that have reached their deadline. -/
def dueKeys (s : TtlStore K V) (now : Int) : List K := (s.rows.filter (due now)).map Item.key

def sweep (s : TtlStore K V) (now : Int) : TtlStore K V := s.eraseAll (s.dueKeys now)

theorem get_set (s : TtlStore K V) (k : K) (v : V) (d : Int) (k' : K) :
    (s.set k v d).get k' = if k = k' then some ⟨k, v, some d⟩ else s.get k' :=
  Table.get_put s _ _

theorem get_setKeepTtlXx (s : TtlStore K V) (k : K) (v : V) (k' : K) :
    (s.setKeepTtlXx k v).get k' =
      if k = k' then (s.get k').map fun it => { it with value := v } else s.get k' :=
  Table.get_update s k (fun it => { it with value := v }) (fun _ => rfl) k'

theorem mem_dueKeys {s : TtlStore K V} {now : Int} {k : K} :
    k ∈ s.dueKeys now ↔ ∃ it, s.get k = some it ∧ due now it = true := by
  simp only [dueKeys, List.mem_map, List.mem_filter, Table.get_some_iff, Item.keyed]
  constructor
  · rintro ⟨it, ⟨hit, hd⟩, rfl⟩
    exact ⟨it, ⟨hit, rfl⟩, hd⟩
  · rintro ⟨it, ⟨hit, rfl⟩, hd⟩
    exact ⟨it, ⟨hit, hd⟩, rfl⟩

theorem get_sweep (s : TtlStore K V) (now : Int) (k : K) :
    (s.sweep now).get k = (s.get k).filter fun it => !due now it := by
  rw [sweep, Table.get_eraseAll]
  split
  · rename_i h
    obtain ⟨it, hit, hd⟩ := mem_dueKeys.mp h
    simp [hit, Option.filter, hd]
  · rename_i h
    cases hit : s.get k with
    | none => rfl
    | some it =>
      have : due now it = false := by
        by_contra hd
        exact h (mem_dueKeys.mpr ⟨it, hit, by simpa using hd⟩)
      simp [Option.filter, this]

/-- A swept key is due: the clock takes no other key. -/
theorem get_sweep_none {s : TtlStore K V} {now : Int} {k : K} {it : Item K V}
    (hit : s.get k = some it) (h : (s.sweep now).get k = none) : k ∈ s.dueKeys now := by
  rw [get_sweep, hit] at h
  refine mem_dueKeys.mpr ⟨it, hit, ?_⟩
  by_contra hd
  simp [Option.filter, hd] at h

theorem get_of_get_sweep {s : TtlStore K V} {now : Int} {k : K} {it : Item K V}
    (h : (s.sweep now).get k = some it) : s.get k = some it ∧ due now it = false := by
  rw [get_sweep, Option.filter_eq_some_iff] at h
  exact ⟨h.1, by simpa using h.2⟩

end TtlStore

end Store
