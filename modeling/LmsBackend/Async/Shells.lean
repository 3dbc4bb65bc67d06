import LmsBackend.Async.Monitor
import Mathlib.Data.List.Forall2

/-!
# Tasks around tasks

A task may do what another one does, and end with something else. The pool of the outer tasks does,
step by step, what the pool of the inner ones does.
-/

namespace Async

variable {W C : Type} {R : C → Type} {E A A' T T' X V : Type}

namespace Prog

/-- The program, whose outcome `f` makes into another one. -/
def finish (f : Except E A → Except E A') : Prog C R E A → Prog C R E A'
  | ret a => answer (f (.ok a))
  | throw e => answer (f (.error e))
  | call c k => call c fun r => (k r).finish f

/-- The program has come to its end. -/
def Ended (p : Prog C R E A) (r : Except E A) : Prop := p = answer r

theorem answer_inj {r r' : Except E A} (h : (answer r : Prog C R E A) = answer r') : r = r' := by
  cases r <;> cases r' <;> cases h <;> rfl

theorem ended_ok {p : Prog C R E A} {a : A} : p.Ended (.ok a) ↔ p.value? = some a := by
  unfold Ended
  rcases p with a' | e | ⟨c, k⟩ <;> simp [answer, value?]

theorem ended_error {p : Prog C R E A} {e : E} : p.Ended (.error e) ↔ p.error? = some e := by
  unfold Ended
  rcases p with a | e' | ⟨c, k⟩ <;> simp [answer, error?]

theorem ended_finish {f : Except E A → Except E A'} {p : Prog C R E A} {r' : Except E A'} :
    (p.finish f).Ended r' ↔ ∃ r, p.Ended r ∧ f r = r' := by
  unfold Ended
  constructor
  · intro h
    rcases p with a | e | ⟨c, k⟩
    · exact ⟨.ok a, rfl, answer_inj h⟩
    · exact ⟨.error e, rfl, answer_inj h⟩
    · rw [finish] at h
      cases r' <;> cases h
  · rintro ⟨r, rfl, rfl⟩
    cases r <;> rfl

theorem finish_finish {A'' : Type} {f : Except E A → Except E A'} {g : Except E A' → Except E A''}
    {p : Prog C R E A} : (p.finish f).finish g = p.finish fun r => g (f r) := by
  induction p with
  | ret a =>
    show (answer (f (.ok a))).finish g = answer (g (f (.ok a)))
    cases f (.ok a) <;> rfl
  | throw e =>
    show (answer (f (.error e))).finish g = answer (g (f (.error e)))
    cases f (.error e) <;> rfl
  | call c k ih => exact congrArg (call c) (funext ih)

theorem bind_ret_eq_finish {p : Prog C R E A} {g : A → A'} :
    (p.bind fun a => ret (g a)) = p.finish fun r => r.map g := by
  induction p with
  | ret a => rfl
  | throw e => rfl
  | call c k ih => exact congrArg (call c) (funext ih)

/-- What `try`, with a value, and `catch` make of an outcome. -/
def settled (g : A → A') (h : E → A') : Except E A → A'
  | .ok a => g a
  | .error e => h e

theorem handle_eq_finish {p : Prog C R E A} {g : A → A'} {h : E → A'} :
    ((p.bind fun a => ret (g a)).handle fun e => ret (h e)) =
      p.finish fun r => .ok (settled g h r) := by
  induction p with
  | ret a => rfl
  | throw e => rfl
  | call c k ih => exact congrArg (call c) (funext ih)

end Prog

/-- The tasks of `S'` that can begin are around tasks of `S`. -/
structure Shell (S : System W C R E A T X V) (S' : System W C R E A' T' X V) where
  inner : T' → T
  ends : T' → Except E A → Except E A'
  exec : S'.exec = S.exec
  reject : S'.reject = S.reject
  client : ∀ t, S'.client t = true →
    S.client (inner t) = true ∧ S'.prog t = (S.prog (inner t)).finish (ends t)
  env : ∀ v w w' ts, S'.env v w = some (w', ts) → S.env v w = some (w', ts.map inner) ∧
    ∀ t ∈ ts, S'.prog t = (S.prog (inner t)).finish (ends t)

variable {S : System W C R E A T X V} {S' : System W C R E A' T' X V}

namespace Config

/-- Process `i` has come to its end. -/
def Ended (c : Config W C R E A T) (i : Nat) (r : Except E A) : Prop :=
  ∃ p, c.prog? i = some p ∧ p.Ended r

theorem ended_of_reply {c : Config W C R E A T} {i : Nat} {a : A} (h : c.reply? i = some a) :
    c.Ended i (.ok a) := by
  obtain ⟨p, hp, hvalue⟩ := Option.bind_eq_some_iff.mp h
  exact ⟨p, hp, Prog.ended_ok.mpr hvalue⟩

theorem error_of_ended {c : Config W C R E A T} {i : Nat} {e : E} (h : c.Ended i (.error e)) :
    c.error? i = some e := by
  obtain ⟨p, hp, hended⟩ := h
  rw [error?, hp, Option.bind_some, Prog.ended_error.mp hended]

end Config

open Config

/-- A guard: the tasks that a client begins are in `Q`. -/
def begins (Q : T → Prop) : Guard W C R E A T X V := fun _ l => ∀ t, l = .spawn t → Q t

theorem Step.task? {c d : Config W C R E A T} {l : Label T X V} (hl : Step S c l d) {i : Nat} {t : T}
    (ht : c.task? i = some t) : d.task? i = some t := by
  cases hl with
  | spawn h => exact task?_start S c ht
  | run hp hk h => exact (task?_resume c hp i).trans ht
  | fail hp hk h => exact (task?_resume c hp i).trans ht
  | env h => exact task?_start S c ht

/-- A run keeps to a guard on its tasks when those it ends with do. -/
theorem Reach.begins {init : W → Prop} {P : Guard W C R E A T X V} {Q : T → Prop}
    {c : Config W C R E A T} (h : Reach S init P c) (hQ : ∀ i t, c.task? i = some t → Q t) :
    Reach S init (begins Q) c := by
  induction h with
  | init hw => exact .init hw
  | @step c l d hc _ hl ih =>
    refine .step (ih fun i t ht => hQ i t (hl.task? ht)) ?_ hl
    rintro t rfl
    cases hl with
    | spawn h =>
      apply hQ c.procs.length t
      simp [Config.task?, Config.start]

namespace Shell

variable (s : Shell S S')

/-- The outer process stands where the inner one does. -/
def Wraps (p' : Process W C R E A' T') (p : Process W C R E A T) : Prop :=
  p.task = s.inner p'.task ∧ p.born = p'.born ∧ p'.prog = p.prog.finish (s.ends p'.task)

/-- The outer pool and the inner one. -/
structure Around (c' : Config W C R E A' T') (c : Config W C R E A T) : Prop where
  world : c.world = c'.world
  log : c.log = c'.log
  procs : List.Forall₂ s.Wraps c'.procs c.procs

variable {s} {c' d' : Config W C R E A' T'} {c : Config W C R E A T}

theorem Around.get (h : s.Around c' c) {i : Nat} {p' : Process W C R E A' T'}
    (hp : c'.procs[i]? = some p') : ∃ p, c.procs[i]? = some p ∧ s.Wraps p' p := by
  obtain ⟨hi, rfl⟩ := List.getElem?_eq_some_iff.mp hp
  have hi' : i < c.procs.length := h.procs.length_eq ▸ hi
  exact ⟨c.procs[i], List.getElem?_eq_getElem hi', h.procs.get hi hi'⟩

/-- An inner task is that of an outer one. -/
theorem Around.task (h : s.Around c' c) {i : Nat} {t : T} (ht : c.task? i = some t) :
    ∃ t', c'.task? i = some t' ∧ s.inner t' = t := by
  obtain ⟨p, hp, rfl⟩ := Option.map_eq_some_iff.mp ht
  obtain ⟨hi, rfl⟩ := List.getElem?_eq_some_iff.mp hp
  have hi' : i < c'.procs.length := h.procs.length_eq ▸ hi
  have hwraps := h.procs.get hi' hi
  exact ⟨c'.procs[i].task, by rw [Config.task?, List.getElem?_eq_getElem hi', Option.map_some],
    hwraps.1.symm⟩

theorem Around.start (h : s.Around c' c) {ts : List T'}
    (hts : ∀ t ∈ ts, S'.prog t = (S.prog (s.inner t)).finish (s.ends t)) (w : W) :
    s.Around (c'.start S' ts w) (c.start S (ts.map s.inner) w) where
  world := rfl
  log := h.log
  procs := by
    refine List.rel_append h.procs ?_
    rw [List.map_map, List.forall₂_map_left_iff, List.forall₂_map_right_iff, List.forall₂_same]
    exact fun t ht => ⟨rfl, rfl, hts t ht⟩

/-- The next call of the outer process is the one of the inner process. -/
theorem Wraps.call {p' : Process W C R E A' T'} {p : Process W C R E A T} (h : s.Wraps p' p)
    {call : C} {k' : Except E (R call) → Prog C R E A'} (hk : p'.prog = .call call k') :
    ∃ k, p.prog = .call call k ∧ ∀ r, k' r = (k r).finish (s.ends p'.task) := by
  have hfinish := h.2.2
  rw [hk] at hfinish
  cases hp : p.prog with
  | ret a =>
    rw [hp, Prog.finish] at hfinish
    cases hends : s.ends p'.task (.ok a) <;> rw [hends] at hfinish <;> cases hfinish
  | throw e =>
    rw [hp, Prog.finish] at hfinish
    cases hends : s.ends p'.task (.error e) <;> rw [hends] at hfinish <;> cases hfinish
  | call c k =>
    rw [hp, Prog.finish] at hfinish
    cases hfinish
    exact ⟨k, rfl, fun _ => rfl⟩

theorem Around.resume (h : s.Around c' c) {i : Nat} {p' : Process W C R E A' T'}
    {p : Process W C R E A T} (hp : s.Wraps p' p) {call : C}
    {k' : Except E (R call) → Prog C R E A'} {k : Except E (R call) → Prog C R E A}
    (hk : ∀ r, k' r = (k r).finish (s.ends p'.task)) (r : Except E (R call)) (w : W) :
    s.Around (c'.resume i p' call k' r w) (c.resume i p call k r w) where
  world := rfl
  log := by
    show c.log ++ _ = c'.log ++ _
    rw [h.log, h.world]
  procs := by
    refine List.forall₂_iff_get.mpr ⟨by simp [Config.resume, h.procs.length_eq], fun j hj hj' => ?_⟩
    simp only [Config.resume, List.get_eq_getElem, List.getElem_set]
    split
    · exact ⟨hp.1, hp.2.1, hk r⟩
    · simp only [Config.resume, List.length_set] at hj hj'
      exact h.procs.get hj hj'

/-- What the outer pool does, the inner one does. -/
theorem Around.step (h : s.Around c' c) {l' : Label T' X V} (hl : Step S' c' l' d') :
    ∃ l d, Step S c l d ∧ s.Around d' d := by
  cases hl with
  | @spawn t ht =>
    obtain ⟨hclient, hprog⟩ := s.client t ht
    have hts : ∀ t' ∈ [t], S'.prog t' = (S.prog (s.inner t')).finish (s.ends t') := by
      intro t' ht'
      rw [List.mem_singleton.mp ht', hprog]
    exact ⟨_, _, .spawn hclient, h.world ▸ h.start hts _⟩
  | @run i x p' call k' r w hp hk hx =>
    obtain ⟨p, hp', hwraps⟩ := h.get hp
    obtain ⟨k, hk', hkk⟩ := hwraps.call hk
    rw [s.exec, ← h.world] at hx
    exact ⟨_, _, .run hp' hk' hx, h.resume hwraps hkk r w⟩
  | @fail i p' call k' e w hp hk hx =>
    obtain ⟨p, hp', hwraps⟩ := h.get hp
    obtain ⟨k, hk', hkk⟩ := hwraps.call hk
    rw [s.reject, ← h.world] at hx
    exact ⟨_, _, .fail hp' hk' hx, h.resume hwraps hkk _ w⟩
  | @env v w ts hx =>
    obtain ⟨hx', hts⟩ := s.env v c'.world w ts hx
    rw [← h.world] at hx'
    exact ⟨_, _, .env hx', h.start hts w⟩

theorem reach {init : W → Prop} {P : Guard W C R E A' T' X V} (s : Shell S S')
    (h : Reach S' init P c') : ∃ c, Reach S init anyStep c ∧ s.Around c' c := by
  induction h with
  | init hw => exact ⟨_, .init hw, rfl, rfl, .nil⟩
  | step _ _ hl ih =>
    obtain ⟨c, hc, haround⟩ := ih
    obtain ⟨l, d, hstep, hd⟩ := haround.step hl
    exact ⟨d, .step hc trivial hstep, hd⟩

/-- The outer process has ended when the inner one has, with what it makes of that outcome. -/
theorem Around.ends (h : s.Around c' c) {i : Nat} {t : T'} (ht : c'.task? i = some t) :
    c.task? i = some (s.inner t) ∧ ∀ r', c'.Ended i r' ↔ ∃ r, c.Ended i r ∧ s.ends t r = r' := by
  obtain ⟨p', hp', rfl⟩ := Option.map_eq_some_iff.mp ht
  obtain ⟨p, hp, htask, -, hprog⟩ := h.get hp'
  refine ⟨?_, fun r' => ?_⟩
  · rw [Config.task?, hp, Option.map_some, htask]
  · simp only [Config.Ended, Config.prog?, hp, hp', Option.map_some, Option.some.injEq,
      exists_eq_left', hprog, Prog.ended_finish]

end Shell

end Async
