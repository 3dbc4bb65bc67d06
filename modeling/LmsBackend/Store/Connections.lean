import LmsBackend.Store.Table

/-!
# Connections of a pool

A connection is lent to one lease at a time. It has a transaction open or not,
whoever has it: settings of a transaction are gone when COMMIT or ROLLBACK ends
it. One is dropped only when its ROLLBACK has failed and the transaction is open.
-/

namespace Store

/-- Newest first. -/
abbrev Settings := List (String × String)

structure Connection (L : Type) where
  slot : Nat
  /-- The names that have ever been set. Outside their transaction they are empty, not NULL. -/
  known : List String
  lease? : Option L
  /-- They are there while a transaction is open. -/
  locals : Option Settings
  /-- A ROLLBACK of the lease has been rejected. -/
  failed : Bool

/-- `NULLIF(s, '')` -/
def nullif (s : Option String) : Option String := s.filter (· ≠ "")

variable {L : Type}

instance Connection.instKeyed : Keyed (Connection L) Nat := ⟨Connection.slot⟩

@[simp] theorem Connection.keyed (k : Connection L) : Keyed.key k = k.slot := rfl

theorem nullif_eq_some_iff {s : Option String} {v : String} :
    nullif s = some v ↔ s = some v ∧ v ≠ "" := by
  simp [nullif, Option.filter_eq_some_iff]

namespace Connection

variable (k : Connection L)

def fresh (slot : Nat) : Connection L := ⟨slot, [], none, none, false⟩

/-- What is left of a setting outside transactions. -/
def leftOf (name : String) : Option String := if name ∈ k.known then some "" else none

/-- `current_setting(name, TRUE)`. `none` is NULL. -/
def setting (name : String) : Option String :=
  match k.locals with
  | some locals => (locals.lookup name).or (k.leftOf name)
  | none => k.leftOf name

def lend (l : L) : Connection L := { k with lease? := some l }

/-- START TRANSACTION. In a transaction that is open it does nothing. -/
def begin : Connection L := { k with locals := some (k.locals.getD []) }

/-- `set_config(name, value, true)`. Without a transaction it is over at once. -/
def setLocal (name value : String) : Connection L :=
  { k with known := name :: k.known, locals := k.locals.map ((name, value) :: ·) }

/-- COMMIT or ROLLBACK. -/
def finish : Connection L := { k with locals := none }

/-- A ROLLBACK that is rejected. -/
def fail : Connection L := { k with failed := true }

/-- No transaction is open, or its ROLLBACK has failed. -/
def Settled (k : Connection L) : Prop := k.locals = none ∨ k.failed = true

/-! ## Settings that belong to the lease -/

/-- If the setting has a value, it is that of the lease. -/
def Bound (name : String) (value : L → Option String) (k : Connection L) : Prop :=
  ∀ v, nullif (k.setting name) = some v → ∃ l, k.lease? = some l ∧ value l = some v

theorem nullif_leftOf (name : String) : nullif (k.leftOf name) = none := by
  unfold leftOf
  split <;> rfl

variable {k} {name : String} {value : L → Option String}

/-- Outside transactions no setting has a value. -/
theorem nullif_setting_of_closed (h : k.locals = none) (name : String) :
    nullif (k.setting name) = none := by
  rw [setting, h]
  exact nullif_leftOf k name

theorem bound_of_closed (h : k.locals = none) : k.Bound name value := by
  intro v hv
  rw [nullif_setting_of_closed h] at hv
  cases hv

/-- In a transaction that has just started neither. -/
theorem bound_begin (h : k.Bound name value) : k.begin.Bound name value := by
  intro v hv
  cases hlocals : k.locals with
  | none =>
    rw [setting, begin, hlocals] at hv
    exact absurd ((nullif_leftOf _ name).symm.trans hv) (by simp)
  | some locals =>
    have hsame : k.begin.setting name = k.setting name := by
      rw [setting, setting, begin, hlocals]
      rfl
    exact h v (hsame ▸ hv)

/-- A value after `set_config` is the one that was set, or was there before. -/
theorem nullif_setLocal {n v u : String} (h : nullif ((k.setLocal n v).setting name) = some u) :
    n = name ∧ u = v ∨ nullif (k.setting name) = some u := by
  have hleft : nullif ((k.setLocal n v).leftOf name) = none := nullif_leftOf _ name
  cases hlocals : k.locals with
  | none =>
    have hclosed : (k.setLocal n v).locals = none := by
      rw [setLocal, hlocals]
      rfl
    exact absurd ((nullif_setting_of_closed hclosed name).symm.trans h) (by simp)
  | some locals =>
    obtain ⟨h, hne⟩ := nullif_eq_some_iff.mp h
    have hset : (k.setLocal n v).locals = some ((n, v) :: locals) := by
      rw [setLocal, hlocals]
      rfl
    rw [setting, hset] at h
    change (((n, v) :: locals).lookup name).or _ = some u at h
    by_cases hn : n = name
    · subst hn
      rw [List.lookup_cons_self, Option.some_or] at h
      exact .inl ⟨rfl, (Option.some.inj h).symm⟩
    · rw [List.lookup_cons, beq_eq_false_iff_ne.mpr (Ne.symm hn)] at h
      rcases Option.or_eq_some_iff.mp h with h | ⟨-, h⟩
      · refine .inr (nullif_eq_some_iff.mpr ⟨?_, hne⟩)
        have h : locals.lookup name = some u := h
        rw [setting, hlocals]
        change (locals.lookup name).or _ = some u
        rw [h, Option.some_or]
      · exact absurd (hleft.symm.trans (nullif_eq_some_iff.mpr ⟨h, hne⟩)) (by simp)

theorem bound_setLocal {n v : String} (h : k.Bound name value)
    (hv : n = name → ∀ l, k.lease? = some l → value l = some v) (hlent : k.lease? ≠ none) :
    (k.setLocal n v).Bound name value := by
  intro u hu
  rcases nullif_setLocal hu with ⟨hn, rfl⟩ | hu
  · obtain ⟨l, hl⟩ := Option.ne_none_iff_exists'.mp hlent
    exact ⟨l, hl, hv hn l hl⟩
  · exact h u hu

end Connection

/-! ## The pool -/

abbrev Connections (L : Type) := Table (Connection L)

namespace Connections

/-- The lease has the connection. -/
def Holds (t : Connections L) (slot : Nat) (l : L) : Prop := (t.get slot).bind (·.lease?) = some l

/-- An idle connection, or a new one while there are fewer than `max`. -/
def take (max : Nat) (t : Connections L) (slot : Nat) : Option (Connection L) :=
  match t.get slot with
  | some k => if k.lease?.isNone then some k else none
  | none => if t.rows.length < max then some (.fresh slot) else none

/-- The connection of the lease, as long as it has it. -/
def held? [DecidableEq L] (t : Connections L) (slot : Nat) (l : L) : Option (Connection L) :=
  (t.get slot).filter (·.lease? = some l)

/-- Takes the connection back as it is. One on which COMMIT, if it was tried, and ROLLBACK have
failed is discarded. -/
def takeBack (t : Connections L) (k : Connection L) : Connections L :=
  if k.failed ∧ k.locals.isSome then t.erase k.slot
  else t.put { k with lease? := none, failed := false }

/-- Which connections there are, and who holds them. -/
def lending (t : Connections L) : List (Nat × Option L) := t.rows.map fun k => (k.slot, k.lease?)

variable {t : Connections L} {slot : Nat} {l : L} {k : Connection L}

theorem take_spec {max : Nat} (h : take max t slot = some k) :
    k.slot = slot ∧ k.lease? = none ∧ (∀ k', t.get slot = some k' → k' = k) := by
  unfold take at h
  split at h
  · rename_i k' hget
    split at h
    · cases h
      refine ⟨Table.key_of_get hget, Option.isNone_iff_eq_none.mp ‹_›, fun k'' hk'' => ?_⟩
      rw [hget] at hk''
      cases hk''
      rfl
    · cases h
  · split at h
    · cases h
      refine ⟨rfl, rfl, fun k' hk' => ?_⟩
      rw [‹t.get slot = none›] at hk'
      cases hk'
    · cases h

/-- A connection that is taken has no transaction open, when no idle one has. -/
theorem closed_of_take {max : Nat} (hidle : ∀ k ∈ t.rows, k.lease? = none → k.locals = none)
    (h : take max t slot = some k) : k.locals = none := by
  unfold take at h
  split at h
  · rename_i k' hget
    split at h
    · cases h
      exact hidle k (Table.get_some_iff.mp hget).1 (Option.isNone_iff_eq_none.mp ‹_›)
    · cases h
  · split at h <;> cases h
    rfl

/-- With every connection lent there is none to take. -/
theorem take_full {max : Nat} (hfull : max ≤ t.rows.length)
    (hlent : ∀ k ∈ t.rows, k.lease? ≠ none) : take max t slot = none := by
  unfold take
  split
  · rename_i k hget
    have hk := hlent k (Table.get_some_iff.mp hget).1
    rw [if_neg (fun h => hk (Option.isNone_iff_eq_none.mp h))]
  · rw [if_neg (Nat.not_lt.mpr hfull)]

theorem held?_eq_some_iff [DecidableEq L] :
    t.held? slot l = some k ↔ t.get slot = some k ∧ k.lease? = some l := by
  simp [held?, Option.filter_eq_some_iff]

theorem held?_isSome_iff [DecidableEq L] : (t.held? slot l).isSome ↔ t.Holds slot l := by
  rw [Option.isSome_iff_exists, Holds, Option.bind_eq_some_iff]
  exact exists_congr fun k => held?_eq_some_iff

theorem holds_iff : t.Holds slot l ↔ ∃ k ∈ t.rows, k.slot = slot ∧ k.lease? = some l := by
  rw [Holds, Option.bind_eq_some_iff]
  exact exists_congr fun k => by rw [Table.get_some_iff, and_assoc]; rfl

/-- A change of the session changes no lease. -/
theorem lending_put {k' : Connection L} (hget : t.get slot = some k) (hslot : k'.slot = k.slot)
    (hlease : k'.lease? = k.lease?) : lending (t.put k') = lending t := by
  have hkey : k.slot = slot := Table.key_of_get hget
  have hmem : Keyed.key k' ∈ t.rows.map Keyed.key := by
    rw [Connection.keyed, hslot]
    exact List.mem_map_of_mem (Table.get_some_iff.mp hget).1
  have hrows : (t.put k').rows = t.rows.map fun x => if x.slot = k'.slot then k' else x := by
    rw [Table.put, dif_pos hmem]
    rfl
  rw [lending, hrows, List.map_map]
  refine List.map_congr_left fun x hx => ?_
  rw [Function.comp_apply]
  split
  · rename_i heq
    have hx := Table.mem_rows_iff.mp hx
    rw [Connection.keyed, heq, hslot, hkey, hget] at hx
    cases hx
    rw [hslot, hlease]
  · rfl

theorem lending_put_new (hget : t.get k.slot = none) :
    lending (t.put k) = lending t ++ [(k.slot, k.lease?)] := by
  have hnot : Keyed.key k ∉ t.rows.map Keyed.key := by
    intro hmem
    obtain ⟨x, hx, hkey⟩ := List.mem_map.mp hmem
    exact Table.get_none_iff.mp hget x hx hkey
  have hrows : (t.put k).rows = t.rows ++ [k] := by
    rw [Table.put, dif_neg hnot]
  rw [lending, hrows, List.map_append]
  rfl

theorem holds_put : Holds (t.put k) slot l ↔
    if k.slot = slot then k.lease? = some l else t.Holds slot l := by
  rw [Holds, Table.get_put, Connection.keyed]
  split <;> rfl

theorem holds_erase {s : Nat} : Holds (t.erase s) slot l ↔ s ≠ slot ∧ t.Holds slot l := by
  rw [Holds, Table.get_erase]
  split
  · simp [*]
  · simp [*, Holds]

theorem not_holds_takeBack (hslot : k.slot = slot) : ¬Holds (t.takeBack k) slot l := by
  intro h
  unfold takeBack at h
  split at h
  · rw [holds_erase] at h
    exact h.1 hslot
  · rw [holds_put, if_pos hslot] at h
    cases h

/-- A connection is of one lease. -/
theorem Holds.unique {l' : L} (h : t.Holds slot l) (h' : t.Holds slot l') : l = l' :=
  Option.some.inj (h.symm.trans h')

end Connections

end Store
