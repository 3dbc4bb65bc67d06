import LmsBackend.Async.Contract

/-!
# Calls that are programs

A program may run on top of others: each of its calls is a program over the
calls below. What holds of these programs holds of the whole.
-/

namespace Async

variable {C C' : Type} {R : C → Type} {R' : C' → Type} {E A T G α β : Type}

namespace Prog

/-- The outcome as a value: the program does not throw any more. -/
def attempt : Prog C R E α → Prog C R E (Except E α)
  | ret a => ret (.ok a)
  | throw e => ret (.error e)
  | call c k => call c fun r => (k r).attempt

/-- Carries out every call as the program that `f` makes of it. -/
def interpret (f : (c : C) → Prog C' R' E (R c)) : Prog C R E α → Prog C' R' E α
  | ret a => ret a
  | throw e => throw e
  | call c k => (f c).attempt.bind fun r => (k r).interpret f

theorem next?_attempt {p : Prog C R E α} {c : C} (h : p.next? = some c) :
    p.attempt.next? = some c := by
  cases p with
  | call c' k => exact h
  | _ => cases h

end Prog

namespace Contract

variable {K : Contract C R} {K' : Contract C' R'} {p : Prog C R E α} {Q : α → Prop}

/-- Every call is in `Q`, whatever the answers. -/
def only (Q : C → Prop) : Contract C R := ⟨Q, fun _ _ => True⟩

theorem meets_only {Q : C → Prop} (hQ : ∀ c, Q c) : (only Q).Meets p fun _ => True := by
  induction p with
  | ret a => trivial
  | throw e => trivial
  | call c k ih => exact ⟨hQ c, fun e => ih _, fun a _ => ih _⟩

theorem Meets.handle {h : E → Prog C R E α} (hp : K.Meets p Q) (hh : ∀ e, K.Meets (h e) Q) :
    K.Meets (p.handle h) Q := by
  induction p with
  | ret a => exact hp
  | throw e => exact hh e
  | call c k ih => exact ⟨hp.1, fun e => ih _ (hp.2.1 e), fun a ha => ih _ (hp.2.2 a ha)⟩

theorem Meets.ensure {q : Prog C R E Unit} (hp : K.Meets p Q) (hq : K.Meets q fun _ => True) :
    K.Meets (p.ensure q) Q := by
  induction p with
  | ret a => exact (meets_bind _).mpr (hq.mono fun _ _ => hp)
  | throw e => exact (meets_bind _).mpr (hq.mono fun _ _ => trivial)
  | call c k ih => exact ⟨hp.1, fun e => ih _ (hp.2.1 e), fun a ha => ih _ (hp.2.2 a ha)⟩

theorem Meets.attempt (hp : K.Meets p Q) : K.Meets p.attempt fun r => ∀ a, r = .ok a → Q a := by
  induction p with
  | ret a => exact fun b hb => Except.ok.inj hb ▸ hp
  | throw e => exact fun b hb => nomatch hb
  | call c k ih => exact ⟨hp.1, fun e => ih _ (hp.2.1 e), fun a ha => ih _ (hp.2.2 a ha)⟩

/-- The programs below keep a contract of their own and give what the one above relies on. -/
theorem Meets.interpret {f : (c : C) → Prog C' R' E (R c)} (hp : K.Meets p Q)
    (hf : ∀ c, K.may c → K'.Meets (f c) (K.gets c)) : K'.Meets (p.interpret f) Q := by
  induction p with
  | ret a => exact hp
  | throw e => trivial
  | call c k ih =>
    refine (meets_bind _).mpr ((hf c hp.1).attempt.mono fun r hr => ih r ?_)
    cases r with
    | error e => exact hp.2.1 e
    | ok a => exact hp.2.2 a (hr a rfl)

section

variable {W X V : Type} {S : System W C R E A T X V} {init : W → Prop} {P : Guard W C R E A T X V}
  {Q : T → C → Prop} {c : Config W C R E A T}

/-- What is left of each process makes only calls of its task. -/
theorem only_procs (hQ : ∀ t, (only (Q t)).Meets (S.prog t) fun _ => True) (h : Reach S init P c) :
    ∀ p ∈ c.procs, (only (Q p.task)).Meets p.prog fun _ => True := by
  have hstart : ∀ (c : Config W C R E A T) ts w,
      (∀ p ∈ c.procs, (only (Q p.task)).Meets p.prog fun _ => True) →
      ∀ p ∈ (c.start S ts w).procs, (only (Q p.task)).Meets p.prog fun _ => True := by
    intro c ts w hc p hp
    rcases List.mem_append.mp hp with hp | hp
    · exact hc p hp
    · obtain ⟨t, -, rfl⟩ := List.mem_map.mp hp
      exact hQ t
  have hresume : ∀ (c : Config W C R E A T) (i : Nat) (p : Process W C R E A T) call k r w,
      (∀ p ∈ c.procs, (only (Q p.task)).Meets p.prog fun _ => True) →
      c.procs[i]? = some p → p.prog = .call call k →
      ∀ q ∈ (c.resume i p call k r w).procs, (only (Q q.task)).Meets q.prog fun _ => True := by
    intro c i p call k r w hc hp hk q hq
    have hmeets := hc p (List.mem_of_getElem? hp)
    rw [hk] at hmeets
    rcases List.mem_or_eq_of_mem_set hq with hq | rfl
    · exact hc q hq
    · cases r with
      | error e => exact hmeets.2.1 e
      | ok a => exact hmeets.2.2 a trivial
  induction h with
  | init => intro p hp; cases hp
  | step _ _ hl ih =>
    cases hl with
    | spawn _ => exact hstart _ _ _ ih
    | env _ => exact hstart _ _ _ ih
    | run hp hk _ => exact hresume _ _ _ _ _ _ _ ih hp hk
    | fail hp hk _ => exact hresume _ _ _ _ _ _ _ ih hp hk

theorem Kept.may {K : Contract C R} {I : W → Prop} (h : K.Kept I c) {i : Nat} {call : C}
    (hcall : c.next? i = some call) : K.may call := by
  obtain ⟨p, hp, hnext⟩ := Option.bind_eq_some_iff.mp hcall
  have hmeets := h.procs p (List.mem_of_getElem? hp)
  cases hprog : p.prog with
  | call call' k =>
    rw [hprog] at hnext hmeets
    cases hnext
    exact hmeets.1
  | _ =>
    rw [hprog] at hnext
    cases hnext

/-- What holds of every call of a task's program holds of the calls that it makes in runs. -/
theorem only_reach (hQ : ∀ t, (only (Q t)).Meets (S.prog t) fun _ => True) (h : Reach S init P c)
    {i : Nat} {t : T} {call : C} (ht : c.task? i = some t) (hcall : c.next? i = some call) :
    Q t call := by
  obtain ⟨p, hp, hnext⟩ := Option.bind_eq_some_iff.mp hcall
  obtain ⟨p', hp', rfl⟩ := Option.map_eq_some_iff.mp ht
  cases hp.symm.trans hp'
  have hmeets := only_procs hQ h p (List.mem_of_getElem? hp)
  cases hprog : p.prog with
  | call call' k =>
    rw [hprog] at hnext hmeets
    cases hnext
    exact hmeets.1
  | _ =>
    rw [hprog] at hnext
    cases hnext

end

end Contract

namespace Monitor

variable (M : Monitor C' R' E A T G) {g : G}

@[simp] theorem wp_attempt {p : Prog C' R' E α} {Q : Except E α → G → Prop} {F : E → G → Prop} :
    M.wp p.attempt g Q F ↔ M.wp p g (fun a => Q (.ok a)) fun e => Q (.error e) := by
  induction p generalizing g with
  | ret a => rfl
  | throw e => rfl
  | call c k ih => exact forall_congr' fun r => exists_congr fun g' => and_congr_right fun _ => ih r

/-- The programs below keep to the monitor, each from a phase in `J` to one in `J`. -/
theorem wp_interpret {Q : C → Prop} {J : G → Prop} {f : (c : C) → Prog C' R' E (R c)}
    (hf : ∀ c g, Q c → J g → M.wp (f c) g (fun _ => J) fun _ => J) {p : Prog C R E α}
    (hp : (Contract.only Q).Meets p fun _ => True) (hg : J g) :
    M.wp (p.interpret f) g (fun _ => J) fun _ => J := by
  induction p generalizing g with
  | ret a => exact hg
  | throw e => exact hg
  | call c k ih =>
    rw [Prog.interpret, wp_bind, wp_attempt]
    exact M.wp_mono (hf c g hp.1 hg) (fun a g hg => ih (.ok a) (hp.2.2 a trivial) hg)
      fun e g hg => ih (.error e) (hp.2.1 e) hg

end Monitor

end Async
