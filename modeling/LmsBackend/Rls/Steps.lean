import LmsBackend.Rls.Interceptor

/-!
# What a call does to the connections

Every call lends a connection, changes the session on one, takes one back, or
leaves them as they are. Who holds what, and whose settings a connection has,
follows from that.
-/

open Async Store

namespace LmsBackend.Rls

variable {D H : Type} {R : H → Type} {E X V : Type}

/-- The runner that a call is of. -/
def Call.runner? : Call H → Option QueryRunner
  | .startTransaction r | .setConfig r _ _ | .query r _ | .commitTransaction r
  | .rollbackTransaction r | .isTransactionActive r | .isReleased r | .release r => some r
  | _ => none

/-- The runner has its connection. -/
def World.Holds (w : World D) (r : QueryRunner) : Prop := w.connections.Holds r.slot r.toLease

/-- `app.current_user_id` is the student of the runner. -/
def Owned (k : Connection Lease) : Prop := k.Bound currentUserId fun l => l.purpose.student?

/-- A call that sets `app.current_user_id` sets it to the student of its runner. -/
def Call.Proper : Call H → Prop
  | .setConfig r name value => name = currentUserId → r.purpose.student? = some value
  | _ => True

/-- The runner's transaction is settled on its connection, if it has one. -/
def World.Settled (w : World D) (r : QueryRunner) : Prop :=
  ∀ k, w.connections.held? r.slot r.toLease = some k → k.Settled

/-- What a call does to the connection of its runner: to its settings, and to its transaction. -/
structure Session (w w' : World D) (c : Call H) (r : QueryRunner) (k k' : Connection Lease) :
    Prop where
  slot : k'.slot = k.slot
  lease : k'.lease? = k.lease?
  owned : c.Proper → Owned k → Owned k'
  /-- A transaction that is open is that of an active runner. -/
  opened : (k.locals ≠ none → r ∈ w.active) → k'.locals ≠ none → r ∈ w'.active
  settled : c ≠ .startTransaction r → k.Settled → k'.Settled
  others : ∀ q, q ≠ r → q ∈ w.active → q ∈ w'.active

inductive Change (w w' : World D) : Call H → Prop where
  | same {c} (h : w'.connections = w.connections) (hrunners : w'.runners = w.runners)
      (hactive : w'.active = w.active) : Change w w' c
  | lent {purpose k slot i} (htake : w.connections.take maxConnections slot = some k)
      (h : w'.connections = w.connections.put (k.lend ⟨w.runners, i, purpose⟩))
      (hrunners : w'.runners = w.runners + 1) (hactive : w'.active = w.active) :
      Change w w' (.connect purpose)
  | session {c k k' r} (hr : c.runner? = some r)
      (hheld : w.connections.held? r.slot r.toLease = some k) (hsession : Session w w' c r k k')
      (h : w'.connections = w.connections.put k') (hrunners : w'.runners = w.runners) : Change w w' c
  | dropped {c k r} (hr : c.runner? = some r)
      (hheld : w.connections.held? r.slot r.toLease = some k)
      (h : w'.connections = w.connections.erase k.slot) (hrunners : w'.runners = w.runners)
      (hactive : w'.active = w.active) : Change w w' c
  /-- It comes back with its transaction open, unless that is settled. -/
  | returned {r k} (hheld : w.connections.held? r.slot r.toLease = some k)
      (hopen : k.Settled → k.locals = none)
      (h : w'.connections = w.connections.put { k with lease? := none, failed := false })
      (hrunners : w'.runners = w.runners) (hactive : w'.active = w.active) :
      Change w w' (.release r)
  | borrowed {c k slot} (htake : w.connections.take maxConnections slot = some k)
      (h : w'.connections = w.connections.put k) (hrunners : w'.runners = w.runners)
      (hactive : w'.active = w.active) : Change w w' c
  | broke {c k slot} (htake : w.connections.take maxConnections slot = some k)
      (h : w'.connections = w.connections.erase k.slot) (hrunners : w'.runners = w.runners)
      (hactive : w'.active = w.active) : Change w w' c

section

variable {B : Backend D H R E X V} {w w' : World D} {r : QueryRunner} {fate : Fate} {c : Call H}

theorem onRunner_change {ρ : Type} {f : Connection Lease → Option (World D × Except E ρ)}
    {a : Except E ρ} (h : w.onRunner B r fate f = some (w', a)) (hr : c.runner? = some r)
    (hf : ∀ k, w.connections.held? r.slot r.toLease = some k → f k = some (w', a) →
      Change w w' c) : Change w w' c := by
  unfold World.onRunner at h
  split at h
  · cases h
    exact .same rfl rfl rfl
  · rename_i k hheld
    split at h
    · cases h
      exact .dropped hr hheld rfl rfl rfl
    · exact hf k hheld h

/-- With the transaction over on the connection, there is nothing to keep to. -/
theorem session_finish (k : Connection Lease) (hothers : ∀ q, q ≠ r → q ∈ w.active → q ∈ w'.active) :
    Session w w' c r k k.finish where
  slot := rfl
  lease := rfl
  owned _ _ := Connection.bound_of_closed rfl
  opened _ h := absurd rfl h
  settled _ _ := .inl rfl
  others := hothers

theorem finish_change {a : Except E Unit} (h : w.finish B r fate = some (w', a))
    (hr : c.runner? = some r) : Change w w' c := by
  refine onRunner_change h hr fun k hheld h => ?_
  split at h
  · cases h
    exact .session hr hheld (session_finish k fun _ _ hq => hq) rfl rfl
  · cases h
    exact .session hr hheld (session_finish k fun _ hne hq => (List.mem_erase_of_ne hne).mpr hq)
      rfl rfl

theorem session_begin (k : Connection Lease) (hactive : w'.active = r :: w.active) :
    Session w w' (.startTransaction r : Call H) r k k.begin where
  slot := rfl
  lease := rfl
  owned _ := Connection.bound_begin
  opened _ _ := hactive ▸ List.mem_cons_self
  settled h := absurd rfl h
  others _ _ hq := hactive ▸ List.mem_cons_of_mem _ hq

theorem session_setLocal {k : Connection Lease} (hlease : k.lease? = some r.toLease)
    (name value : String) (hactive : w'.active = w.active) :
    Session w w' (.setConfig r name value : Call H) r k (k.setLocal name value) where
  slot := rfl
  lease := rfl
  owned hproper howned := by
    refine Connection.bound_setLocal howned (fun hname l hl => ?_) (by simp [hlease])
    rw [hlease] at hl
    cases hl
    exact hproper hname
  opened h hopen := by
    rw [hactive]
    refine h fun hnone => hopen ?_
    rw [Connection.setLocal, hnone]
    rfl
  settled _ h := by
    refine h.imp_left fun hnone => ?_
    rw [Connection.setLocal, hnone]
    rfl
  others _ _ hq := hactive ▸ hq

theorem session_fail (k : Connection Lease) (hactive : w'.active = w.active) :
    Session w w' c r k k.fail where
  slot := rfl
  lease := rfl
  owned _ h := h
  opened h hopen := hactive ▸ h hopen
  settled _ _ := .inr rfl
  others _ _ hq := hactive ▸ hq

/-- What `takeBack` keeps of a connection. -/
theorem release_change {k : Connection Lease}
    (hheld : w.connections.held? r.slot r.toLease = some k)
    (h : w'.connections = w.connections.takeBack k) (hrunners : w'.runners = w.runners)
    (hactive : w'.active = w.active) : Change w w' (.release r : Call H) := by
  unfold Connections.takeBack at h
  split at h
  · exact .dropped rfl hheld h hrunners hactive
  · rename_i hkept
    refine .returned hheld (fun hsettled => ?_) h hrunners hactive
    rcases hsettled with hnone | hfailed
    · exact hnone
    · simpa [hfailed] using hkept

theorem exec_change {i : Nat} {x : Choice X} {a : Except E (Resp R c)}
    (h : exec B i c x w = some (w', a)) : Change w w' c := by
  cases c with
  | connect purpose =>
    obtain ⟨k, htake, h⟩ := Option.map_eq_some_iff.mp h
    cases h
    exact .lent htake rfl rfl rfl
  | startTransaction r =>
    refine onRunner_change h rfl fun k hheld h => ?_
    cases h
    exact .session rfl hheld (session_begin k rfl) rfl rfl
  | setConfig r name value =>
    refine onRunner_change h rfl fun k hheld h => ?_
    cases h
    have hlease : k.lease? = some r.toLease := (Connections.held?_eq_some_iff.mp hheld).2
    exact .session rfl hheld (session_setLocal hlease name value rfl) rfl rfl
  | query r s =>
    refine onRunner_change h rfl fun k hheld h => ?_
    obtain ⟨⟨data, a⟩, -, h⟩ := Option.map_eq_some_iff.mp h
    cases h
    exact .same rfl rfl rfl
  | commitTransaction r => exact finish_change h rfl
  | rollbackTransaction r => exact finish_change h rfl
  | release r =>
    simp only [exec] at h
    split at h
    · cases h
      exact .same rfl rfl rfl
    · rename_i k hheld
      cases h
      exact release_change hheld rfl rfl rfl
  | repository s =>
    obtain ⟨k, htake, h⟩ := Option.bind_eq_some_iff.mp h
    split at h
    · cases h
      exact .broke htake rfl rfl rfl
    · obtain ⟨⟨data, a⟩, -, h⟩ := Option.map_eq_some_iff.mp h
      cases h
      exact .borrowed htake rfl rfl rfl
  | outside h' =>
    obtain ⟨⟨rest, a⟩, -, h⟩ := Option.map_eq_some_iff.mp h
    cases h
    exact .same rfl rfl rfl
  | _ =>
    cases h
    exact .same rfl rfl rfl

theorem rejected_change (w : World D) (c : Call H) : Change w (w.rejected c) c := by
  cases c with
  | rollbackTransaction r =>
    simp only [World.rejected]
    split
    · exact .same rfl rfl rfl
    · rename_i k hheld
      exact .session rfl hheld (session_fail k rfl) rfl rfl
  | _ => exact .same rfl rfl rfl

theorem reject_eq {i : Nat} {e : E} (h : reject B i c w = some (w', e)) : w' = w.rejected c := by
  unfold reject at h
  split at h <;> cases h
  rfl

theorem rejected_data (w : World D) (c : Call H) : (w.rejected c).data = w.data := by
  unfold World.rejected
  split
  · split <;> rfl
  · rfl

theorem exec_connect {i : Nat} {x : Choice X} {purpose : Purpose}
    {a : { r : QueryRunner // r.purpose = purpose }}
    (h : exec B i (.connect purpose) x w = some (w', .ok a)) :
    a.val.serial = w.runners ∧ a.val.proc = i ∧ w'.runners = w.runners + 1 := by
  obtain ⟨k, -, h⟩ := Option.map_eq_some_iff.mp h
  cases h
  exact ⟨rfl, rfl, rfl⟩

/-- A runner that gets a connection is the answer to `connect`. -/
theorem exec_lent {i : Nat} {x : Choice X} {purpose : Purpose}
    {a : Except E { r : QueryRunner // r.purpose = purpose }}
    (h : exec B i (.connect purpose) x w = some (w', a)) (hr : w'.Holds r) (hnot : ¬w.Holds r) :
    ∃ hpurpose, a = .ok ⟨r, hpurpose⟩ := by
  obtain ⟨k, -, h⟩ := Option.map_eq_some_iff.mp h
  cases h
  have hput := Connections.holds_put.mp hr
  split at hput
  · rename_i hslot
    rcases r with ⟨l, slot⟩
    cases hslot
    cases hput
    exact ⟨rfl, rfl⟩
  · exact absurd hput hnot

theorem exec_release {i : Nat} {x : Choice X} {a : Except E Unit}
    (h : exec B i (.release r) x w = some (w', a)) : ¬w'.Holds r := by
  simp only [exec] at h
  split at h
  · rename_i hheld
    cases h
    intro hholds
    have hsome := Connections.held?_isSome_iff.mpr hholds
    rw [hheld] at hsome
    cases hsome
  · rename_i k hheld
    cases h
    exact Connections.not_holds_takeBack
      (Table.key_of_get (Connections.held?_eq_some_iff.mp hheld).1)

theorem exec_isReleased {i : Nat} {x : Choice X}
    (h : exec B i (.isReleased r) x w = some (w', .ok true)) : ¬w'.Holds r := by
  intro hholds
  have hsome := Connections.held?_isSome_iff.mpr hholds
  obtain ⟨rfl, hnone⟩ := Prod.mk.inj (Option.some.inj h)
  rw [Option.isNone_iff_eq_none.mp (Except.ok.inj hnone)] at hsome
  cases hsome

end

/-! ## Whose settings a connection has -/

/-- An idle connection has no transaction open. One that is held has one only for its runner. -/
structure Orderly (w : World D) : Prop where
  idle : ∀ k ∈ w.connections.rows, k.lease? = none → k.locals = none
  active : ∀ k ∈ w.connections.rows, ∀ l, k.lease? = some l → k.locals ≠ none →
    ⟨l, k.slot⟩ ∈ w.active

section

variable {w w' : World D} {c : Call H}

theorem mem_of_held {r : QueryRunner} {k : Connection Lease}
    (h : w.connections.held? r.slot r.toLease = some k) :
    k ∈ w.connections.rows ∧ k.slot = r.slot ∧ k.lease? = some r.toLease :=
  have ⟨hget, hlease⟩ := Connections.held?_eq_some_iff.mp h
  ⟨(Table.get_some_iff.mp hget).1, Table.key_of_get hget, hlease⟩

/-- The runner of a connection that is held. -/
theorem runner_of_held {r : QueryRunner} {k : Connection Lease}
    (h : w.connections.held? r.slot r.toLease = some k) : r = ⟨r.toLease, k.slot⟩ := by
  rw [(mem_of_held h).2.1]

/-- A released connection is settled, so none comes back with its transaction open. -/
theorem Change.orderly (h : Change w w' c) (hw : Orderly w)
    (hsettled : ∀ r, c = .release r → w.Settled r) : Orderly w' := by
  have hput : ∀ k, (k.lease? = none → k.locals = none) →
      (∀ l, k.lease? = some l → k.locals ≠ none → ⟨l, k.slot⟩ ∈ w.active) → w'.active = w.active →
      w'.connections = w.connections.put k → Orderly w' := by
    intro k hidle hopen hactive h
    constructor
    · intro k' hk'
      rw [h] at hk'
      rcases Table.mem_put.mp hk' with rfl | ⟨hk', -⟩
      · exact hidle
      · exact hw.idle k' hk'
    · intro k' hk'
      rw [hactive]
      rw [h] at hk'
      rcases Table.mem_put.mp hk' with rfl | ⟨hk', -⟩
      · exact hopen
      · exact hw.active k' hk'
  have herase : ∀ slot, w'.active = w.active → w'.connections = w.connections.erase slot →
      Orderly w' := by
    intro slot hactive h
    constructor
    · intro k' hk'
      rw [h] at hk'
      exact hw.idle k' (Table.mem_erase.mp hk').1
    · intro k' hk'
      rw [hactive]
      rw [h] at hk'
      exact hw.active k' (Table.mem_erase.mp hk').1
  cases h with
  | same h _ hactive =>
    constructor
    · rw [h]
      exact hw.idle
    · rw [h, hactive]
      exact hw.active
  | @lent purpose k slot i htake h _ hactive =>
    have hclosed : k.locals = none := Connections.closed_of_take hw.idle htake
    exact hput (k.lend _) (fun _ => hclosed) (fun _ _ hopen => absurd hclosed hopen) hactive h
  | @session _ k k' r _ hheld hsession h _ =>
    obtain ⟨hk, hslot, hlease⟩ := mem_of_held hheld
    constructor
    · intro q hq hidle
      rw [h] at hq
      rcases Table.mem_put.mp hq with rfl | ⟨hq, -⟩
      · rw [hsession.lease, hlease] at hidle
        cases hidle
      · exact hw.idle q hq hidle
    · intro q hq l hl hopen
      rw [h] at hq
      rcases Table.mem_put.mp hq with rfl | ⟨hq, hne⟩
      · rw [hsession.lease, hlease] at hl
        cases hl
        rw [hsession.slot, ← runner_of_held hheld]
        refine hsession.opened (fun hlocals => ?_) hopen
        rw [runner_of_held hheld]
        exact hw.active k hk _ hlease hlocals
      · refine hsession.others _ (fun hsame => hne ?_) (hw.active q hq l hl hopen)
        exact (congrArg QueryRunner.slot hsame).trans (hslot.symm.trans hsession.slot.symm)
  | dropped _ _ h _ hactive => exact herase _ hactive h
  | @returned r k hheld hopen h _ hactive =>
    have hclosed : k.locals = none := hopen (hsettled r rfl k hheld)
    refine hput { k with lease? := none, failed := false } (fun _ => hclosed) (fun l hl => ?_)
      hactive h
    cases hl
  | borrowed htake h _ hactive =>
    have hclosed := Connections.closed_of_take hw.idle htake
    exact hput _ (fun _ => hclosed) (fun _ _ hopen => absurd hclosed hopen) hactive h
  | broke _ h _ hactive => exact herase _ hactive h

theorem Change.owned (h : Change w w' c) (hc : c.Proper) (horderly : Orderly w)
    (hsettled : ∀ r, c = .release r → w.Settled r)
    (hw : ∀ k ∈ w.connections.rows, Owned k) : ∀ k ∈ w'.connections.rows, Owned k := by
  have hput : ∀ k, Owned k → ∀ k' ∈ (w.connections.put k).rows, Owned k' := by
    intro k hk k' hk'
    rcases Table.mem_put.mp hk' with rfl | ⟨hk', -⟩
    · exact hk
    · exact hw k' hk'
  have herase : ∀ slot, ∀ k' ∈ (w.connections.erase slot).rows, Owned k' := fun slot k' hk' =>
    hw k' (Table.mem_erase.mp hk').1
  cases h with
  | same h _ _ => rwa [h]
  | @lent purpose k slot i htake h _ _ =>
    rw [h]
    have hclosed : k.locals = none := Connections.closed_of_take horderly.idle htake
    exact hput _ (Connection.bound_of_closed hclosed)
  | session _ hheld hsession h _ =>
    rw [h]
    exact hput _ (hsession.owned hc (hw _ (mem_of_held hheld).1))
  | dropped _ _ h _ _ =>
    rw [h]
    exact herase _
  | returned hheld hopen h _ _ =>
    rw [h]
    exact hput _ (Connection.bound_of_closed (hopen (hsettled _ rfl _ hheld)))
  | borrowed htake h _ _ =>
    rw [h]
    exact hput _ (Connection.bound_of_closed (Connections.closed_of_take horderly.idle htake))
  | broke _ h _ _ =>
    rw [h]
    exact herase _

/-! ## Who holds a connection -/

/-- A runner that is lent nothing gets nothing. -/
theorem Change.holds_of (h : Change w w' c) {r : QueryRunner} (hr : w'.Holds r) :
    w.Holds r ∨ r.serial = w.runners ∧ ∃ purpose, c = .connect purpose := by
  unfold World.Holds at hr ⊢
  cases h with
  | same h _ _ =>
    rw [h] at hr
    exact .inl hr
  | lent htake h _ _ =>
    rw [h, Connections.holds_put] at hr
    split at hr
    · exact .inr ⟨congrArg Lease.serial (Option.some.inj hr).symm, _, rfl⟩
    · exact .inl hr
  | session _ hheld hsession h _ =>
    rw [h, Connections.holds_put] at hr
    split at hr
    · refine .inl (Connections.holds_iff.mpr ⟨_, (mem_of_held hheld).1, ?_, hsession.lease ▸ hr⟩)
      rw [← hsession.slot]
      assumption
    · exact .inl hr
  | dropped _ _ h _ _ =>
    rw [h, Connections.holds_erase] at hr
    exact .inl hr.2
  | returned _ _ h _ _ =>
    rw [h, Connections.holds_put] at hr
    split at hr
    · cases hr
    · exact .inl hr
  | borrowed htake h _ _ =>
    rw [h, Connections.holds_put] at hr
    split at hr
    · rw [(Connections.take_spec htake).2.1] at hr
      cases hr
    · exact .inl hr
  | broke _ h _ _ =>
    rw [h, Connections.holds_erase] at hr
    exact .inl hr.2

/-- Two runners with the same connection are one. -/
theorem slot_ne_of_held {r r' : QueryRunner} {k : Connection Lease} (hr : w.Holds r)
    (hheld : w.connections.held? r'.slot r'.toLease = some k) (hne : r' ≠ r) : k.slot ≠ r.slot := by
  intro hslot
  have hslot' : r'.slot = r.slot := (mem_of_held hheld).2.1.symm.trans hslot
  have hholds : w.connections.Holds r.slot r'.toLease :=
    Connections.held?_isSome_iff.mp (hslot' ▸ by rw [hheld]; rfl)
  have hlease := hholds.unique hr
  apply hne
  rcases r with ⟨l, slot⟩
  rcases r' with ⟨l', slot'⟩
  cases hslot'
  cases hlease
  rfl

/-- A connection that is taken is no runner's. -/
theorem slot_ne_of_take {r : QueryRunner} {slot : Nat} {k : Connection Lease} (hr : w.Holds r)
    (htake : w.connections.take maxConnections slot = some k) : k.slot ≠ r.slot := by
  intro hslot
  obtain ⟨hslot', hlease, hget⟩ := Connections.take_spec htake
  obtain ⟨k', hk', hr⟩ := Option.bind_eq_some_iff.mp hr
  rw [hget k' (hslot' ▸ hslot ▸ hk'), hlease] at hr
  cases hr

/-- A call leaves the connection of a runner that it is not of as it is. -/
theorem Change.get (h : Change w w' c) {r : QueryRunner} (hr : w.Holds r)
    (hne : c.runner? ≠ some r) : w'.connections.get r.slot = w.connections.get r.slot := by
  have hother : ∀ {r' : QueryRunner} {k}, c.runner? = some r' →
      w.connections.held? r'.slot r'.toLease = some k → k.slot ≠ r.slot := by
    intro r' k hr' hheld
    exact slot_ne_of_held hr hheld fun hsame => hne (hsame ▸ hr')
  cases h with
  | same h _ _ => rw [h]
  | lent htake h _ _ =>
    rw [h, Table.get_put]
    exact if_neg (slot_ne_of_take hr htake)
  | session hc hheld hsession h _ =>
    rw [h, Table.get_put, if_neg]
    rw [Connection.keyed, hsession.slot]
    exact hother hc hheld
  | dropped hc hheld h _ _ => rw [h, Table.get_erase, if_neg (hother hc hheld)]
  | returned hheld _ h _ _ =>
    rw [h, Table.get_put]
    exact if_neg (hother rfl hheld)
  | borrowed htake h _ _ =>
    rw [h, Table.get_put]
    exact if_neg (slot_ne_of_take hr htake)
  | broke htake h _ _ => rw [h, Table.get_erase, if_neg (slot_ne_of_take hr htake)]

/-- A call takes no connection from a runner that it is not of. -/
theorem Change.holds (h : Change w w' c) {r : QueryRunner} (hr : w.Holds r)
    (hne : c.runner? ≠ some r) : w'.Holds r := by
  rw [World.Holds, Connections.Holds, h.get hr hne]
  exact hr

theorem Change.runners (h : Change w w' c) :
    w'.runners = w.runners ∨ w'.runners = w.runners + 1 ∧ ∃ purpose, c = .connect purpose := by
  cases h with
  | lent _ _ hrunners _ => exact .inr ⟨hrunners, _, rfl⟩
  | same _ hrunners _ | session _ _ _ _ hrunners | dropped _ _ _ hrunners _
  | returned _ _ _ hrunners _ | borrowed _ _ hrunners _ | broke _ _ hrunners _ => exact .inl hrunners

/-- A transaction that is settled stays so until its runner starts another. -/
theorem Change.settled (h : Change w w' c) {r : QueryRunner} (hserial : r.serial < w.runners)
    (hstart : c ≠ .startTransaction r) (hr : w.Settled r) : w'.Settled r := by
  intro k hheld
  have hholds : w'.Holds r := Connections.held?_isSome_iff.mp (by rw [hheld]; rfl)
  have hold : w.Holds r := by
    rcases h.holds_of hholds with hold | ⟨hnew, -⟩
    · exact hold
    · omega
  by_cases hne : c.runner? = some r
  · have hrunner : ∀ {r'}, c.runner? = some r' → r' = r := fun h' => Option.some.inj (h'.symm.trans hne)
    have hget := (Connections.held?_eq_some_iff.mp hheld).1
    cases h with
    | same h _ _ => exact hr k (h ▸ hheld)
    | session hc hheld' hsession h _ =>
      obtain rfl := hrunner hc
      rw [h, Table.get_put, if_pos] at hget
      · cases hget
        exact hsession.settled hstart (hr _ hheld')
      · rw [Connection.keyed, hsession.slot, (mem_of_held hheld').2.1]
    | dropped hc hheld' h _ _ =>
      obtain rfl := hrunner hc
      rw [h, Table.get_erase, if_pos (mem_of_held hheld').2.1] at hget
      cases hget
    | returned hheld' _ h _ _ =>
      obtain rfl := hrunner rfl
      rw [World.Holds, h, Connections.holds_put, if_pos (mem_of_held hheld').2.1] at hholds
      cases hholds
    | lent => cases hne
    | borrowed htake h _ _ =>
      rw [h, Table.get_put, Connection.keyed, if_neg (slot_ne_of_take hold htake)] at hget
      exact hr k (Connections.held?_eq_some_iff.mpr ⟨hget, (Connections.held?_eq_some_iff.mp hheld).2⟩)
    | broke htake h _ _ =>
      rw [h, Table.get_erase, if_neg (slot_ne_of_take hold htake)] at hget
      exact hr k (Connections.held?_eq_some_iff.mpr ⟨hget, (Connections.held?_eq_some_iff.mp hheld).2⟩)
  · have hget := h.get hold hne
    rw [Connections.held?, hget] at hheld
    exact hr k hheld

end

end LmsBackend.Rls
