import LmsBackend.Async.Pool

/-!
# Histories

The history of a process is the answers that it got. A program, a history and
the value that it ends with are related by `Tells`. What a process of a pool has
replied is told by its events in the log, so a fact about replies is shown by
following one program.
-/

namespace Async

variable {W C : Type} {R : C → Type} {E A T X V α β : Type}

/-- With these answers the program ends, and this is its outcome. -/
inductive Tells : Prog C R E α → List (Event W C R E) → Except E α → Prop where
  | ret {a} : Tells (.ret a) [] (.ok a)
  | throw {e} : Tells (.throw e) [] (.error e)
  | call {i c k r w w' es a} (h : Tells (k r) es a) :
      Tells (.call c k) (⟨i, c, r, w, w'⟩ :: es) a

namespace Tells

variable {es : List (Event W C R E)} {p : Prog C R E α}

/-- The part before and the part after, when the first returns. -/
theorem bind {f : α → Prog C R E β} {b : β} (h : Tells (p.bind f) es (.ok b)) :
    ∃ es₁ es₂ a, es = es₁ ++ es₂ ∧ Tells p es₁ (.ok a) ∧ Tells (f a) es₂ (.ok b) := by
  induction p generalizing es with
  | ret a => exact ⟨[], es, a, rfl, .ret, h⟩
  | throw e => cases h
  | call c k ih =>
    obtain _ | _ | ⟨h⟩ := h
    obtain ⟨es₁, es₂, a, rfl, hp, hf⟩ := ih _ h
    exact ⟨_ :: es₁, es₂, a, rfl, .call hp, hf⟩

/-- A call whose value is used has succeeded. -/
theorem await {c : C} {f : R c → Prog C R E β} {b : β}
    (h : Tells ((Prog.await c).bind f) es (.ok b)) :
    ∃ i a w w' es', es = ⟨i, c, .ok a, w, w'⟩ :: es' ∧ Tells (f a) es' (.ok b) := by
  obtain _ | _ | @⟨i, _, _, r, w, w', es', _, h⟩ := h
  cases r with
  | error e => cases h
  | ok a => exact ⟨i, a, w, w', es', rfl, h⟩

/-- Like `await`, with the worlds in which the call was answered. -/
theorem awaited {S : System W C R E A T X V} {c : C} {f : R c → Prog C R E β} {b : β}
    (hes : ∀ e ∈ es, Answered S e.proc e.call e.before e.res e.after)
    (h : Tells ((Prog.await c).bind f) es (.ok b)) :
    ∃ i a w w' es', es = ⟨i, c, .ok a, w, w'⟩ :: es' ∧ Tells (f a) es' (.ok b) ∧
      Answered S i c w (.ok a) w' ∧
      ∀ e ∈ es', Answered S e.proc e.call e.before e.res e.after := by
  obtain ⟨i, a, w, w', es', rfl, hf⟩ := h.await
  exact ⟨i, a, w, w', es', rfl, hf, hes _ List.mem_cons_self,
    fun e he => hes e (List.mem_cons_of_mem _ he)⟩

end Tells

/-! ## In a pool -/

/-- The answers take the program as far as it has come. -/
inductive Leads : Prog C R E α → List (Event W C R E) → Prog C R E α → Prop where
  | nil {p} : Leads p [] p
  | call {i c k r w w' es p} (h : Leads (k r) es p) : Leads (.call c k) (⟨i, c, r, w, w'⟩ :: es) p

namespace Leads

variable {p q : Prog C R E α} {es : List (Event W C R E)}

theorem concat {i : Nat} {c : C} {k : Except E (R c) → Prog C R E α} {r : Except E (R c)} {w w' : W}
    (h : Leads p es (.call c k)) : Leads p (es ++ [⟨i, c, r, w, w'⟩]) (k r) := by
  generalize hq : Prog.call c k = q at h
  induction h with
  | nil =>
    subst hq
    exact .call .nil
  | call _ ih => exact .call (ih hq)

theorem tells {a : α} (h : Leads p es (.ret a)) : Tells p es (.ok a) := by
  generalize hq : Prog.ret a = q at h
  induction h with
  | nil =>
    subst hq
    exact .ret
  | call _ ih => exact .call (ih hq)

end Leads

namespace Config

/-- What process `i` has been answered, oldest first. -/
def history (c : Config W C R E A T) (i : Nat) : List (Event W C R E) := c.log.filter (·.proc = i)

theorem mem_history {c : Config W C R E A T} {i : Nat} {e : Event W C R E} :
    e ∈ c.history i ↔ e ∈ c.log ∧ e.proc = i := by
  simp [history]

end Config

variable {S : System W C R E A T X V} {init : W → Prop} {P : Guard W C R E A T X V}
  {c : Config W C R E A T}

/-- Each process is where its history leads, and the log has events of processes only. -/
structure Config.Told (S : System W C R E A T X V) (c : Config W C R E A T) : Prop where
  leads : ∀ i p, c.procs[i]? = some p → Leads (S.prog p.task) (c.history i) p.prog
  started : ∀ e ∈ c.log, e.proc < c.procs.length
  answered : ∀ e ∈ c.log, Answered S e.proc e.call e.before e.res e.after

theorem Config.Told.start (hc : c.Told S) (ts : List T) (w : W) : (c.start S ts w).Told S where
  leads i p hp := by
    rcases Nat.lt_or_ge i c.procs.length with hi | hi
    · rw [Config.start, List.getElem?_append_left hi] at hp
      exact hc.leads i p hp
    · rw [Config.start, List.getElem?_append_right hi, List.getElem?_map] at hp
      obtain ⟨t, -, rfl⟩ := Option.map_eq_some_iff.mp hp
      have hnone : (c.start S ts w).history i = [] := by
        simp only [history, List.filter_eq_nil_iff, decide_eq_true_eq]
        intro e he heq
        have := hc.started e he
        omega
      rw [hnone]
      exact .nil
  started e he := by
    have := hc.started e he
    simp only [Config.start, List.length_append]
    omega
  answered := hc.answered

theorem Config.Told.resume (hc : c.Told S) {i : Nat} {p : Process W C R E A T} {call : C}
    {k : Except E (R call) → Prog C R E A} {r : Except E (R call)} {w : W}
    (hp : c.procs[i]? = some p) (hk : p.prog = .call call k) (hr : Answered S i call c.world r w) :
    (c.resume i p call k r w).Told S where
  leads j q hq := by
    simp only [Config.resume, history, List.filter_append, List.getElem?_set] at hq ⊢
    by_cases hj : i = j
    · subst hj
      obtain ⟨hi, -⟩ := List.getElem?_eq_some_iff.mp hp
      rw [if_pos rfl, if_pos hi] at hq
      cases hq
      rw [List.filter_singleton, decide_eq_true rfl, cond_true]
      exact (hk ▸ hc.leads i p hp).concat
    · rw [if_neg hj] at hq
      rw [List.filter_singleton, decide_eq_false hj, cond_false, List.append_nil]
      exact hc.leads j q hq
  started e he := by
    simp only [Config.resume, List.mem_append, List.mem_singleton, List.length_set] at he ⊢
    rcases he with he | rfl
    · exact hc.started e he
    · exact (List.getElem?_eq_some_iff.mp hp).1
  answered e he := by
    simp only [Config.resume, List.mem_append, List.mem_singleton] at he
    rcases he with he | rfl
    · exact hc.answered e he
    · exact hr

theorem Reach.told (h : Reach S init P c) : c.Told S := by
  induction h with
  | init =>
    constructor
    · intro i p hp
      simp [Config.initial] at hp
    · intro e he
      simp [Config.initial] at he
    · intro e he
      simp [Config.initial] at he
  | step _ _ hl ih =>
    cases hl with
    | spawn => exact ih.start _ _
    | env => exact ih.start _ _
    | run hp hk hx => exact ih.resume hp hk (.exec hx)
    | fail hp hk hx => exact ih.resume hp hk (.reject hx)

/-- What a process has replied is told by its history. -/
theorem Reach.tells (h : Reach S init P c) {i : Nat} {t : T} {a : A} (ht : c.task? i = some t)
    (hreply : c.reply? i = some a) : Tells (S.prog t) (c.history i) (.ok a) := by
  obtain ⟨p, hp, rfl⟩ := Option.map_eq_some_iff.mp ht
  have hleads := h.told.leads i p hp
  rw [Config.reply?, Config.prog?, hp, Option.map_some, Option.bind_some] at hreply
  cases hprog : p.prog with
  | ret b =>
    rw [hprog] at hreply hleads
    cases hreply
    exact hleads.tells
  | _ =>
    rw [hprog] at hreply
    cases hreply

end Async
