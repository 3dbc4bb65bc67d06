import LmsBackend.Async.Interpret
import Mathlib.Data.List.Forall2

/-!
# Two runs

Two runs of one pool side by side, by the same labels. Their worlds differ only
in what a relation leaves free, their programs await calls that match, and what
a call answers in one run is matched in the other. So each process ends in both
runs, and alike.
-/

namespace Async

variable {W C : Type} {R : C → Type} {E A T X V α β γ δ : Type}

/-- Which calls of two runs match, and which answers to them. -/
structure Matching (C : Type) (R : C → Type) (E : Type) where
  calls : C → C → Prop
  answers : (c c' : C) → Except E (R c) → Except E (R c') → Prop

namespace Matching

variable {M : Matching C R E} {Q : α → β → Prop}

/-- The programs await matching calls as long as they get matching answers. They end with values
in `Q`, or with one error. -/
inductive Twins (M : Matching C R E) (Q : α → β → Prop) : Prog C R E α → Prog C R E β → Prop where
  | ret {a b} (h : Q a b) : Twins M Q (.ret a) (.ret b)
  | throw (e) : Twins M Q (.throw e) (.throw e)
  | call {c c' k k'} (hc : M.calls c c')
      (h : ∀ r r', M.answers c c' r r' → Twins M Q (k r) (k' r')) :
      Twins M Q (.call c k) (.call c' k')

theorem Twins.mono {Q' : α → β → Prop} {p : Prog C R E α} {p' : Prog C R E β} (h : M.Twins Q p p')
    (hQ : ∀ a b, Q a b → Q' a b) : M.Twins Q' p p' := by
  induction h with
  | ret h => exact .ret (hQ _ _ h)
  | throw e => exact .throw e
  | call hc _ ih => exact .call hc ih

theorem Twins.bind {Q' : γ → δ → Prop} {p : Prog C R E α} {p' : Prog C R E β}
    {f : α → Prog C R E γ} {f' : β → Prog C R E δ} (h : M.Twins Q p p')
    (hf : ∀ a b, Q a b → M.Twins Q' (f a) (f' b)) : M.Twins Q' (p.bind f) (p'.bind f') := by
  induction h with
  | ret h => exact hf _ _ h
  | throw e => exact .throw e
  | call hc _ ih => exact .call hc ih

theorem Twins.handle {p : Prog C R E α} {p' : Prog C R E β} {f : E → Prog C R E α}
    {f' : E → Prog C R E β} (h : M.Twins Q p p') (hf : ∀ e, M.Twins Q (f e) (f' e)) :
    M.Twins Q (p.handle f) (p'.handle f') := by
  induction h with
  | ret h => exact .ret h
  | throw e => exact hf e
  | call hc _ ih => exact .call hc ih

theorem Twins.ensure {p : Prog C R E α} {p' : Prog C R E β} {q q' : Prog C R E Unit}
    (h : M.Twins Q p p') (hq : M.Twins (fun _ _ => True) q q') :
    M.Twins Q (p.ensure q) (p'.ensure q') := by
  induction h with
  | ret h => exact hq.bind fun _ _ _ => .ret h
  | throw e => exact hq.bind fun _ _ _ => .throw e
  | call hc _ ih => exact .call hc ih

/-- The twin of a program that waits for a call waits for a matching one. -/
theorem Twins.of_call {c : C} {k : Except E (R c) → Prog C R E α} {p' : Prog C R E β}
    (h : M.Twins Q (.call c k) p') : ∃ c' k', p' = .call c' k' ∧ M.calls c c' ∧
      ∀ r r', M.answers c c' r r' → M.Twins Q (k r) (k' r') := by
  cases h with
  | call hc hk => exact ⟨_, _, rfl, hc, hk⟩

theorem Twins.value {p : Prog C R E α} {p' : Prog C R E β} (h : M.Twins Q p p') :
    Option.Rel Q p.value? p'.value? := by
  cases h with
  | ret h => exact .some h
  | _ => exact .none

theorem Twins.error {p : Prog C R E α} {p' : Prog C R E β} (h : M.Twins Q p p') :
    p.error? = p'.error? := by
  cases h <;> rfl

/-- The calls that are awaited alike in both runs, and answered alike. -/
def Plain (M : Matching C R E) (c : C) : Prop :=
  M.calls c c ∧ ∀ r r', M.answers c c r r' → r = r'

theorem twins_await {c : C} (hc : M.Plain c) : M.Twins Eq (.await c) (.await c) := by
  refine .call hc.1 fun r r' hr => ?_
  obtain rfl := hc.2 r r' hr
  cases r with
  | ok a => exact .ret rfl
  | error e => exact .throw e

/-- Related worlds answer matching calls by matching answers, and stay related. -/
structure Lockstep (M : Matching C R E) (S : System W C R E A T X V) (I : W → W → Prop)
    (Q : A → A → Prop) : Prop where
  prog : ∀ t, M.Twins Q (S.prog t) (S.prog t)
  exec : ∀ {i x c c' w w' v r}, I w w' → M.calls c c' → S.exec i c x w = some (v, r) →
    ∃ v' r', S.exec i c' x w' = some (v', r') ∧ I v v' ∧ M.answers c c' r r'
  reject : ∀ {i c c' w w' v e}, I w w' → M.calls c c' → S.reject i c w = some (v, e) →
    ∃ v', S.reject i c' w' = some (v', e) ∧ I v v' ∧ M.answers c c' (.error e) (.error e)
  env : ∀ {x w w' v ts}, I w w' → S.env x w = some (v, ts) →
    ∃ v', S.env x w' = some (v', ts) ∧ I v v'

end Matching

/-- The states that a list of labels leads through. -/
inductive Trace (S : System W C R E A T X V) :
    List (Label T X V) → Config W C R E A T → Config W C R E A T → Prop where
  | nil {c} : Trace S [] c c
  | cons {l ls c c' d} (h : Step S c l c') (hs : Trace S ls c' d) : Trace S (l :: ls) c d

open Config Matching

theorem Trace.of_runIf {S : System W C R E A T X V} {P : Guard W C R E A T X V}
    [∀ c l, Decidable (P c l)] {ls : List (Label T X V)} {c d : Config W C R E A T}
    (h : runIf S P ls c = some d) : Trace S ls c d := by
  induction ls generalizing c with
  | nil => cases h; exact .nil
  | cons l ls ih =>
    simp only [runIf] at h
    split at h
    · obtain ⟨c', hc', h⟩ := Option.bind_eq_some_iff.mp h
      exact .cons (step_sound S hc') (ih h)
    · cases h

variable {M : Matching C R E} {S : System W C R E A T X V} {I : W → W → Prop} {Q : A → A → Prop}

/-- The states of two runs at one point. -/
structure Paired (M : Matching C R E) (I : W → W → Prop) (Q : A → A → Prop)
    (c c' : Config W C R E A T) : Prop where
  world : I c.world c'.world
  procs : List.Forall₂ (fun p p' => p.task = p'.task ∧ M.Twins Q p.prog p'.prog) c.procs c'.procs

theorem Paired.get {c c' : Config W C R E A T} (h : Paired M I Q c c') {i : Nat}
    {p : Process W C R E A T} (hp : c.procs[i]? = some p) :
    ∃ p', c'.procs[i]? = some p' ∧ p.task = p'.task ∧ M.Twins Q p.prog p'.prog := by
  obtain ⟨hi, rfl⟩ := List.getElem?_eq_some_iff.mp hp
  have hi' : i < c'.procs.length := h.procs.length_eq ▸ hi
  exact ⟨c'.procs[i], List.getElem?_eq_getElem hi', h.procs.get hi hi'⟩

theorem Paired.start (hL : M.Lockstep S I Q) {c c' : Config W C R E A T} (h : Paired M I Q c c')
    (ts : List T) {w w' : W} (hw : I w w') : Paired M I Q (c.start S ts w) (c'.start S ts w') where
  world := hw
  procs := by
    refine List.rel_append h.procs ?_
    rw [List.forall₂_map_left_iff, List.forall₂_map_right_iff, List.forall₂_same]
    exact fun t _ => ⟨rfl, hL.prog t⟩

theorem Paired.resume {c c' : Config W C R E A T} (h : Paired M I Q c c') {i : Nat}
    {p p' : Process W C R E A T} {call call' : C} {k : Except E (R call) → Prog C R E A}
    {k' : Except E (R call') → Prog C R E A} {r : Except E (R call)} {r' : Except E (R call')}
    {w w' : W} (ht : p.task = p'.task) (hw : I w w') (hk : M.Twins Q (k r) (k' r')) :
    Paired M I Q (c.resume i p call k r w) (c'.resume i p' call' k' r' w') where
  world := hw
  procs := by
    refine List.forall₂_iff_get.mpr ⟨by simp [Config.resume, h.procs.length_eq], fun j hj hj' => ?_⟩
    simp only [Config.resume, List.get_eq_getElem, List.getElem_set]
    split
    · exact ⟨ht, hk⟩
    · simp only [Config.resume, List.length_set] at hj hj'
      exact h.procs.get hj hj'

/-- What one run does by a label, the other does by it as well. -/
theorem Paired.step (hL : M.Lockstep S I Q) {c c' d : Config W C R E A T} {l : Label T X V}
    (h : Paired M I Q c c') (hl : Step S c l d) : ∃ d', Step S c' l d' ∧ Paired M I Q d d' := by
  cases hl with
  | spawn ht => exact ⟨_, .spawn ht, h.start hL _ h.world⟩
  | run hp hk hx =>
    obtain ⟨p', hp', ht, htwins⟩ := h.get hp
    obtain ⟨call', k', hk', hc, hkk⟩ := (hk ▸ htwins).of_call
    obtain ⟨v', r', hx', hv, hr⟩ := hL.exec h.world hc hx
    exact ⟨_, .run hp' hk' hx', h.resume ht hv (hkk _ _ hr)⟩
  | fail hp hk hx =>
    obtain ⟨p', hp', ht, htwins⟩ := h.get hp
    obtain ⟨call', k', hk', hc, hkk⟩ := (hk ▸ htwins).of_call
    obtain ⟨v', hx', hv, hr⟩ := hL.reject h.world hc hx
    exact ⟨_, .fail hp' hk' hx', h.resume ht hv (hkk _ _ hr)⟩
  | env hx =>
    obtain ⟨v', hx', hv⟩ := hL.env h.world hx
    exact ⟨_, .env hx', h.start hL _ hv⟩

theorem Paired.initial {w w' : W} (h : I w w') :
    Paired (A := A) (T := T) M I Q (.initial w) (.initial w') :=
  ⟨h, .nil⟩

/-- What a run does, the other does by the same labels. -/
theorem Paired.trace (hL : M.Lockstep S I Q) {ls : List (Label T X V)} {c c' d : Config W C R E A T}
    (h : Paired M I Q c c') (hs : Trace S ls c d) : ∃ d', Trace S ls c' d' ∧ Paired M I Q d d' := by
  induction hs generalizing c' with
  | nil => exact ⟨c', .nil, h⟩
  | cons hl _ ih =>
    obtain ⟨e', hl', he⟩ := h.step hL hl
    obtain ⟨d', hs', hd⟩ := ih he
    exact ⟨d', .cons hl' hs', hd⟩

/-- The processes have one task, have ended with related values, or with one error. -/
theorem Paired.ends {c c' : Config W C R E A T} (h : Paired M I Q c c') (i : Nat) :
    c.task? i = c'.task? i ∧ Option.Rel Q (c.reply? i) (c'.reply? i) ∧ c.error? i = c'.error? i := by
  unfold task? reply? error? prog?
  cases hp : c.procs[i]? with
  | none =>
    have hp' : c'.procs[i]? = none :=
      List.getElem?_eq_none (h.procs.length_eq ▸ List.getElem?_eq_none_iff.mp hp)
    rw [hp']
    exact ⟨rfl, .none, rfl⟩
  | some p =>
    obtain ⟨p', hp', ht, htwins⟩ := h.get hp
    rw [hp']
    exact ⟨congrArg some ht, htwins.value, htwins.error⟩

end Async
