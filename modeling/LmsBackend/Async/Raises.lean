import LmsBackend.Async.History

/-!
# Where errors come from

A program has errors of its own, and it passes on what its calls reject with. An error that a
process of a pool ends with is one of its own, or some call of it has rejected with it.
-/

namespace Async

variable {W C : Type} {R : C → Type} {E A T X V α β : Type}

/-- The program ends with an error only if `Q` has it, or one of its calls has rejected with it. -/
def Raises : (E → Prop) → Prog C R E α → Prop
  | _, .ret _ => True
  | Q, .throw e => Q e
  | Q, .call _ k =>
    (∀ a, Raises Q (k (.ok a))) ∧ ∀ e, Raises (fun e' => Q e' ∨ e' = e) (k (.error e))

namespace Raises

variable {Q Q' : E → Prop} {p : Prog C R E α}

theorem mono (h : Raises Q p) (hQ : ∀ e, Q e → Q' e) : Raises Q' p := by
  induction p generalizing Q Q' with
  | ret a => trivial
  | throw e => exact hQ e h
  | call c k ih =>
    exact ⟨fun a => ih _ (h.1 a) hQ, fun e => ih _ (h.2 e) fun e' => Or.imp_left (hQ e')⟩

theorem await (c : C) : Raises Q (.await c : Prog C R E (R c)) := ⟨fun _ => trivial, fun _ => .inr rfl⟩

theorem bind {f : α → Prog C R E β} (hp : Raises Q p) (hf : ∀ a, Raises Q (f a)) :
    Raises Q (p.bind f) := by
  induction p generalizing Q with
  | ret a => exact hf a
  | throw e => exact hp
  | call c k ih =>
    exact ⟨fun a => ih _ (hp.1 a) hf, fun e => ih _ (hp.2 e) fun a => (hf a).mono fun _ => .inl⟩

theorem call {c : C} {f : R c → Prog C R E β} (hf : ∀ a, Raises Q (f a)) :
    Raises Q ((Prog.await c).bind f) :=
  (await c).bind hf

/-- A handler may throw again what it is given. -/
theorem handle {h : E → Prog C R E α} (hp : Raises Q p)
    (hh : ∀ e, Raises (fun e' => Q e' ∨ e' = e) (h e)) : Raises Q (p.handle h) := by
  induction p generalizing Q with
  | ret a => trivial
  | throw e =>
    refine (hh e).mono fun e' he => ?_
    rcases he with he | rfl
    · exact he
    · exact hp
  | call c k ih =>
    refine ⟨fun a => ih _ (hp.1 a) hh, fun e => ih _ (hp.2 e) fun e' => ?_⟩
    exact (hh e').mono fun _ => Or.imp_left .inl

/-- A handler that throws none again ends every error. -/
theorem caught {h : E → Prog C R E α} (hh : ∀ e, Raises Q (h e)) : Raises Q (p.handle h) := by
  induction p generalizing Q with
  | ret a => trivial
  | throw e => exact hh e
  | call c k ih => exact ⟨fun a => ih _ hh, fun e => ih _ fun e' => (hh e').mono fun _ => .inl⟩

theorem ensure {q : Prog C R E Unit} (hp : Raises Q p) (hq : Raises Q q) : Raises Q (p.ensure q) := by
  induction p generalizing Q with
  | ret a => exact hq.bind fun _ => trivial
  | throw e => exact hq.bind fun _ => hp
  | call c k ih => exact ⟨fun a => ih _ (hp.1 a) hq, fun e => ih _ (hp.2 e) (hq.mono fun _ => .inl)⟩

/-- What is left of the program after some answers. -/
theorem leads {es : List (Event W C R E)} {q : Prog C R E α} (h : Leads p es q) (hp : Raises Q p) :
    Raises (fun e => Q e ∨ ∃ ev ∈ es, ev.res = .error e) q := by
  induction h generalizing Q with
  | nil => exact hp.mono fun _ => .inl
  | @call i c k r w w' es q _ ih =>
    cases r with
    | ok a =>
      refine (ih (hp.1 a)).mono fun e he => ?_
      rcases he with he | ⟨ev, hev, hres⟩
      · exact .inl he
      · exact .inr ⟨ev, List.mem_cons_of_mem _ hev, hres⟩
    | error e₀ =>
      refine (ih (hp.2 e₀)).mono fun e he => ?_
      rcases he with (he | rfl) | ⟨ev, hev, hres⟩
      · exact .inl he
      · exact .inr ⟨_, List.mem_cons_self, rfl⟩
      · exact .inr ⟨ev, List.mem_cons_of_mem _ hev, hres⟩

end Raises

/-- The error of a process is one of its program, or that of a call it has made. -/
theorem Reach.raises {S : System W C R E A T X V} {init : W → Prop} {P : Guard W C R E A T X V}
    {c : Config W C R E A T} {Q : T → E → Prop} (hQ : ∀ t, Raises (Q t) (S.prog t))
    (h : Reach S init P c) {i : Nat} {t : T} {e : E} (ht : c.task? i = some t)
    (herror : c.error? i = some e) : Q t e ∨ ∃ ev ∈ c.log, ev.proc = i ∧ ev.res = .error e := by
  obtain ⟨p, hp, rfl⟩ := Option.map_eq_some_iff.mp ht
  have hraises := (hQ p.task).leads (h.told.leads i p hp)
  rw [Config.error?, Config.prog?, hp, Option.map_some, Option.bind_some] at herror
  rw [Prog.eq_throw herror] at hraises
  rcases hraises with hown | ⟨ev, hev, hres⟩
  · exact .inl hown
  · obtain ⟨hlog, hproc⟩ := Config.mem_history.mp hev
    exact .inr ⟨ev, hlog, hproc, hres⟩

end Async
