import LmsBackend.Async.Pool

/-!
# One program by itself

What a program does when nothing else runs: where it comes to (`Comes`), and how
it ends when at most one of its calls is made to reject (`Ends`). `wlp` checks
every such end at once, along the program.
-/

namespace Async

variable {W C : Type} {R : C → Type} {E A T X V α β : Type}

/-- `ok` of the value or `error` of the error, whichever the outcome is. -/
def Outcome (ok : α → Prop) (error : E → Prop) : Except E α → Prop
  | .ok a => ok a
  | .error e => error e

@[simp] theorem Outcome.of_ok {ok : α → Prop} {error : E → Prop} {a : α} :
    Outcome ok error (.ok a) ↔ ok a := .rfl

@[simp] theorem Outcome.of_error {ok : α → Prop} {error : E → Prop} {e : E} :
    Outcome ok error (.error e) ↔ error e := .rfl

/-- A call that is made to reject, and the world it is made in. -/
structure Fault (W C : Type) where
  world : W
  call : C

section

variable (S : System W C R E A T X V) (i : Nat)

/-- By itself, and while its calls succeed, process `i` comes to a call in `Q`. -/
inductive Comes (Q : W → C → Prop) : W → Prog C R E α → Prop where
  | here {w c k} (h : Q w c) : Comes Q w (.call c k)
  | later {w c k} (hgo : ∃ x w' a, S.exec i c x w = some (w', .ok a))
      (h : ∀ x w' a, S.exec i c x w = some (w', .ok a) → Comes Q w' (k (.ok a))) :
      Comes Q w (.call c k)

/-- Process `i` runs by itself from `w` to its end in `w'` with the outcome. The fault names the
call that is made to reject. All others get the answers that the system gives. -/
inductive Ends : Option (Fault W C) → W → Prog C R E α → W → Except E α → Prop where
  | ret {w a} : Ends none w (.ret a) w (.ok a)
  | throw {w e} : Ends none w (.throw e) w (.error e)
  | answer {f w c k x w₁ r₁ w' r} (hx : S.exec i c x w = some (w₁, r₁))
      (h : Ends f w₁ (k r₁) w' r) : Ends f w (.call c k) w' r
  | reject {w c k w₁ e w' r} (hx : S.reject i c w = some (w₁, e))
      (h : Ends none w₁ (k (.error e)) w' r) : Ends (some ⟨w, c⟩) w (.call c k) w' r

/-- Process `i` goes on by itself from `w` and `p` to `w'` and what is left of `p` there. -/
inductive Goes : W → Prog C R E α → W → Prog C R E α → Prop where
  | refl {w p} : Goes w p w p
  | step {w c k x w₁ r w' p'} (hx : S.exec i c x w = some (w₁, r)) (h : Goes w₁ (k r) w' p') :
      Goes w (.call c k) w' p'

/-- Follows the program by itself: each entry answers a call with its choice, or makes it reject. -/
def follow : List (Option X) → W → Prog C R E α → Option (Option (Fault W C) × W × Except E α)
  | _, w, .ret a => some (none, w, .ok a)
  | _, w, .throw e => some (none, w, .error e)
  | [], _, .call _ _ => none
  | some x :: xs, w, .call c k => (S.exec i c x w).bind fun (w', r) => follow xs w' (k r)
  | none :: xs, w, .call c k => (S.reject i c w).bind fun (w', e) =>
    match follow xs w' (k (.error e)) with
    | some (none, w'', r) => some (some ⟨w, c⟩, w'', r)
    | _ => none

/-- Every end of the program from `w` is in `Q`. `f` is the fault that there has been so far. -/
def wlp (f : Option (Fault W C)) :
    Prog C R E α → W → (Option (Fault W C) → Except E α → W → Prop) → Prop
  | .ret a, w, Q => Q f (.ok a) w
  | .throw e, w, Q => Q f (.error e) w
  | .call c k, w, Q =>
    (∀ x w' r, S.exec i c x w = some (w', r) → wlp f (k r) w' Q) ∧
      (f = none → ∀ w' e, S.reject i c w = some (w', e) → wlp (some ⟨w, c⟩) (k (.error e)) w' Q)

end

variable {S : System W C R E A T X V} {i : Nat} {f : Option (Fault W C)} {p : Prog C R E α}
  {w w' : W} {Q : Option (Fault W C) → Except E α → W → Prop}

theorem Ends.wlp_none {r : Except E α} (h : Ends S i none w p w' r) (hp : wlp S i f p w Q) :
    Q f r w' := by
  generalize hn : none = n at h
  induction h with
  | ret => exact hp
  | throw => exact hp
  | answer hx _ ih => exact ih (hp.1 _ _ _ hx) hn
  | reject => cases hn

/-- What `wlp` says of the ends holds of each of them. -/
theorem Ends.wlp {r : Except E α} (h : Ends S i f w p w' r) (hp : wlp S i none p w Q) :
    Q f r w' := by
  induction h with
  | ret => exact hp
  | throw => exact hp
  | answer hx _ ih => exact ih (hp.1 _ _ _ hx)
  | reject hx h => exact h.wlp_none (hp.2 rfl _ _ hx)

theorem ends_of_follow {xs : List (Option X)} {out : Option (Fault W C) × W × Except E α}
    (h : follow S i xs w p = some out) : Ends S i out.1 w p out.2.1 out.2.2 := by
  induction p generalizing xs w out with
  | ret a => cases xs <;> cases h <;> exact .ret
  | throw e => cases xs <;> cases h <;> exact .throw
  | call c k ih =>
    rcases xs with _ | ⟨_ | x, xs⟩
    · cases h
    · obtain ⟨⟨w', e⟩, hx, h⟩ := Option.bind_eq_some_iff.mp h
      simp only at h
      split at h
      · rename_i w'' r hfollow
        cases h
        exact .reject hx (ih _ hfollow)
      · cases h
    · obtain ⟨⟨w', r⟩, hx, h⟩ := Option.bind_eq_some_iff.mp h
      exact .answer hx (ih _ h)

/-- Where every call can be answered, every program has an end. -/
theorem exists_ends (hS : ∀ c w, ∃ x w' r, S.exec i c x w = some (w', r)) (p : Prog C R E α) (w : W) :
    ∃ w' r, Ends S i none w p w' r := by
  induction p generalizing w with
  | ret a => exact ⟨w, .ok a, .ret⟩
  | throw e => exact ⟨w, .error e, .throw⟩
  | call c k ih =>
    obtain ⟨x, w₁, r₁, hx⟩ := hS c w
    obtain ⟨w', r, h⟩ := ih r₁ w₁
    exact ⟨w', r, .answer hx h⟩

namespace Goes

variable {p p' : Prog C R E α}

/-- In a pool, with no other step in between. -/
theorem reach {p p' : Prog C R E A} (h : Goes S i w p w' p') {init : W → Prop}
    {c : Config W C R E A T} (hr : Reach S init anyStep c) (hw : c.world = w) {t : T} {born : W}
    (hp : c.procs[i]? = some ⟨t, born, p⟩) :
    ∃ c', Reach S init anyStep c' ∧ c'.world = w' ∧ c'.procs = c.procs.set i ⟨t, born, p'⟩ := by
  have hi := (List.getElem?_eq_some_iff.mp hp).1
  induction h generalizing c with
  | refl =>
    refine ⟨c, hr, hw, (List.ext_getElem? fun j => ?_)⟩
    rw [List.getElem?_set]
    split
    · subst j
      rw [hp]
    · rfl
  | @step w call k x w₁ r w' p' hx _ ih =>
    have hstep : Step S c (.run i x) (c.resume i ⟨t, born, .call call k⟩ call k r w₁) :=
      .run hp rfl (hw ▸ hx)
    obtain ⟨c', hr', hw', hprocs⟩ := ih (.step hr trivial hstep) rfl
      (List.getElem?_set_self hi) ((List.length_set ..).symm ▸ hi)
    exact ⟨c', hr', hw', hprocs.trans (List.set_set ..)⟩

theorem bind (h : Goes S i w p w' p') (q : α → Prog C R E β) :
    Goes S i w (p.bind q) w' (p'.bind q) := by
  induction h with
  | refl => exact .refl
  | step hx _ ih => exact .step hx ih

theorem handle (h : Goes S i w p w' p') (q : E → Prog C R E α) :
    Goes S i w (p.handle q) w' (p'.handle q) := by
  induction h with
  | refl => exact .refl
  | step hx _ ih => exact .step hx ih

theorem ensure (h : Goes S i w p w' p') (q : Prog C R E Unit) :
    Goes S i w (p.ensure q) w' (p'.ensure q) := by
  induction h with
  | refl => exact .refl
  | step hx _ ih => exact .step hx ih

theorem trans {w₁ : W} {p₁ : Prog C R E α} (h : Goes S i w p w₁ p₁) (h' : Goes S i w₁ p₁ w' p') :
    Goes S i w p w' p' := by
  induction h with
  | refl => exact h'
  | step hx _ ih => exact .step hx (ih h')

/-- A call that is answered with a value. -/
theorem await {c : C} {x : X} {a : R c} {q : R c → Prog C R E β} {p' : Prog C R E β} {w₁ : W}
    (hx : S.exec i c x w = some (w₁, .ok a)) (h : Goes S i w₁ (q a) w' p') :
    Goes S i w ((Prog.await c).bind q) w' p' :=
  .step hx h

end Goes

/-- A process of a pool can run to its end with no other step in between. -/
theorem Ends.reach {init : W → Prop} {P : Guard W C R E A T X V} {t : T} {w : W} {p : Prog C R E A}
    {r : Except E A} (h : Ends S i none w p w' r)
    (hP : ∀ c x, Reach S init P c → c.task? i = some t → P c (.run i x)) {c : Config W C R E A T}
    (hr : Reach S init P c) (hw : c.world = w) {born : W} (hp : c.procs[i]? = some ⟨t, born, p⟩) :
    ∃ c', Reach S init P c' ∧ c'.world = w' ∧ c'.procs[i]? = some ⟨t, born, .answer r⟩ := by
  generalize hn : none = n at h
  induction h generalizing c with
  | ret => exact ⟨c, hr, hw, hp⟩
  | throw => exact ⟨c, hr, hw, hp⟩
  | @answer f w call k x w₁ r₁ w' r hx _ ih =>
    have htask : c.task? i = some t := by
      rw [Config.task?, hp]
      rfl
    have hstep : Step S c (.run i x) (c.resume i ⟨t, born, .call call k⟩ call k r₁ w₁) :=
      .run hp rfl (hw ▸ hx)
    refine ih (.step hr (hP c x hr htask) hstep) rfl ?_ hn
    rw [Config.resume, List.getElem?_set_self (List.getElem?_eq_some_iff.mp hp).1]
  | reject => cases hn

theorem Ends.await {c : C} {x : X} {r : Except E (R c)} (hx : S.exec i c x w = some (w', r)) :
    Ends S i none w (.await c) w' r := by
  refine .answer hx ?_
  cases r with
  | ok a => exact .ret
  | error e => exact .throw

/-- What comes after a value goes on from where it left the world. -/
theorem Ends.bind {q : α → Prog C R E β} {a : α} {w₁ : W} {r : Except E β}
    (h : Ends S i none w p w₁ (.ok a)) (hq : Ends S i f w₁ (q a) w' r) :
    Ends S i f w (p.bind q) w' r := by
  generalize hn : none = n at h
  generalize hr : Except.ok a = r₁ at h
  induction h with
  | ret => cases hr; exact hq
  | throw => cases hr
  | answer hx _ ih => exact .answer hx (ih hq hn hr)
  | reject => cases hn

@[simp] theorem wlp_ret (a : α) : wlp S i f (.ret a) w Q ↔ Q f (.ok a) w := by
  rw [Async.wlp]

@[simp] theorem wlp_throw (e : E) : wlp S i f (.throw e) w Q ↔ Q f (.error e) w := by
  rw [Async.wlp]

@[simp] theorem wlp_await (c : C) {Q : Option (Fault W C) → Except E (R c) → W → Prop} :
    wlp S i f (.await c) w Q ↔
      (∀ x w' r, S.exec i c x w = some (w', r) → Q f r w') ∧
        (f = none → ∀ w' e, S.reject i c w = some (w', e) → Q (some ⟨w, c⟩) (.error e) w') := by
  have hanswer : ∀ f r w', wlp S i f (Prog.answer r) w' Q ↔ Q f r w' := by
    rintro f (e | a) w' <;> simp [Prog.answer]
  simp only [Prog.await, Async.wlp, hanswer]

theorem wlp_mono {Q' : Option (Fault W C) → Except E α → W → Prop} (h : wlp S i f p w Q)
    (hQ : ∀ f r w, Q f r w → Q' f r w) : wlp S i f p w Q' := by
  induction p generalizing f w with
  | ret a => exact hQ _ _ _ h
  | throw e => exact hQ _ _ _ h
  | call c k ih =>
    exact ⟨fun x w' r hx => ih _ (h.1 x w' r hx), fun hf w' e hx => ih _ (h.2 hf w' e hx)⟩

/-- After a fault there is no other. -/
theorem wlp_faulty (hf : f ≠ none) (h : wlp S i f p w Q) :
    wlp S i f p w fun f' r w' => f' ≠ none ∧ Q f' r w' := by
  induction p generalizing w with
  | ret a => exact ⟨hf, h⟩
  | throw e => exact ⟨hf, h⟩
  | call c k ih => exact ⟨fun x w' r hx => ih _ (h.1 x w' r hx), fun hnone => absurd hnone hf⟩

@[simp] theorem wlp_bind (q : α → Prog C R E β) {Q : Option (Fault W C) → Except E β → W → Prop} :
    wlp S i f (p.bind q) w Q ↔ wlp S i f p w fun f r w =>
      match r with
      | .ok a => wlp S i f (q a) w Q
      | .error e => Q f (.error e) w := by
  induction p generalizing f w with
  | ret a => simp [Prog.bind]
  | throw e => simp [Prog.bind]
  | call c k ih => simp only [Prog.bind, Async.wlp, ih]

@[simp] theorem wlp_handle (h : E → Prog C R E α) :
    wlp S i f (p.handle h) w Q ↔ wlp S i f p w fun f r w =>
      match r with
      | .ok a => Q f (.ok a) w
      | .error e => wlp S i f (h e) w Q := by
  induction p generalizing f w with
  | ret a => simp [Prog.handle]
  | throw e => simp [Prog.handle]
  | call c k ih => simp only [Prog.handle, Async.wlp, ih]

@[simp] theorem wlp_ensure (q : Prog C R E Unit) :
    wlp S i f (p.ensure q) w Q ↔ wlp S i f p w fun f r w => wlp S i f q w fun f r' w =>
      match r' with
      | .ok _ => Q f r w
      | .error e => Q f (.error e) w := by
  induction p generalizing f w with
  | ret a =>
    rw [Prog.ensure, wlp_bind, wlp_ret]
    constructor <;> refine fun h => wlp_mono h ?_ <;> rintro f (e | a) w h <;> exact h
  | throw e =>
    rw [Prog.ensure, wlp_bind, wlp_throw]
    constructor <;> refine fun h => wlp_mono h ?_ <;> rintro f (e | a) w h <;> exact h
  | call c k ih => simp only [Prog.ensure, Async.wlp, ih]

/-- A call that gets the same answer whatever the choice, when no call is made to reject any more. -/
theorem wlp_only {v : W} {c : C} {r : Except E (R c)}
    {Q : Option (Fault W C) → Except E (R c) → W → Prop} (hf : f ≠ none)
    (hx : ∀ x, S.exec i c x w = some (v, r)) (h : Q f r v) : wlp S i f (.await c) w Q := by
  rw [wlp_await]
  refine ⟨fun x w₁ r₁ hr => ?_, fun hnone => absurd hnone hf⟩
  rw [hx x] at hr
  cases hr
  exact h

theorem wlp_answer {c : C} {a : R c} {q : R c → Prog C R E β}
    {Q : Option (Fault W C) → Except E β → W → Prop} (hf : f ≠ none)
    (hx : ∀ x, S.exec i c x w = some (w', .ok a)) (h : wlp S i f (q a) w' Q) :
    wlp S i f ((Prog.await c).bind q) w Q :=
  (wlp_bind q).mpr (wlp_only hf hx h)

end Async
