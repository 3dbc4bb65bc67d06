import LmsBackend.Async.Alone
import LmsBackend.Async.Monitor

/-!
# Contracts

A contract says which calls programs may make and what they may take from the
answers. A program that keeps to it (`Meets`) does so beside any others that
do, so an invariant of the world needs one proof for each kind of call
(`Upholds`), and none looks at two programs at once.
-/

namespace Async

variable {W C : Type} {R : C → Type} {E A T X V α β : Type}

structure Contract (C : Type) (R : C → Type) where
  /-- The calls that programs make. -/
  may : C → Prop
  /-- The values that they get. -/
  gets : (c : C) → R c → Prop

namespace Contract

variable (K : Contract C R)

/-- The program makes only calls that it may make, as long as it gets what it is promised. It ends
with a value in `Q`, or with an error. -/
def Meets : Prog C R E α → (α → Prop) → Prop
  | .ret a, Q => Q a
  | .throw _, _ => True
  | .call c k, Q =>
    K.may c ∧ (∀ e, Meets (k (.error e)) Q) ∧ ∀ a, K.gets c a → Meets (k (.ok a)) Q

variable {K} {p : Prog C R E α} {Q Q' : α → Prop}

@[simp] theorem meets_ret (a : α) : K.Meets (.ret a : Prog C R E α) Q ↔ Q a := .rfl

@[simp] theorem meets_throw (e : E) : K.Meets (.throw e : Prog C R E α) Q := trivial

@[simp] theorem meets_await (c : C) {Q : R c → Prop} :
    K.Meets (.await c : Prog C R E (R c)) Q ↔ K.may c ∧ ∀ a, K.gets c a → Q a := by
  constructor
  · rintro ⟨hmay, -, hok⟩
    exact ⟨hmay, hok⟩
  · rintro ⟨hmay, hok⟩
    exact ⟨hmay, fun _ => trivial, hok⟩

theorem Meets.mono (h : K.Meets p Q) (hQ : ∀ a, Q a → Q' a) : K.Meets p Q' := by
  induction p with
  | ret a => exact hQ a h
  | throw e => trivial
  | call c k ih => exact ⟨h.1, fun e => ih _ (h.2.1 e), fun a ha => ih _ (h.2.2 a ha)⟩

/-- What keeps to a stricter contract keeps to this one. -/
theorem Meets.weaken {K' : Contract C R} (h : K.Meets p Q) (hmay : ∀ c, K.may c → K'.may c)
    (hgets : ∀ c a, K'.gets c a → K.gets c a) : K'.Meets p Q := by
  induction p with
  | ret a => exact h
  | throw e => trivial
  | call c k ih =>
    exact ⟨hmay c h.1, fun e => ih _ (h.2.1 e), fun a ha => ih _ (h.2.2 a (hgets c a ha))⟩

@[simp] theorem meets_bind (f : α → Prog C R E β) {Q : β → Prop} :
    K.Meets (p.bind f) Q ↔ K.Meets p fun a => K.Meets (f a) Q := by
  induction p with
  | ret a => rfl
  | throw e => rfl
  | call c k ih =>
    exact and_congr_right fun _ => and_congr (forall_congr' fun e => ih _)
      (forall_congr' fun a => imp_congr_right fun _ => ih _)

/-- Where the phases of a monitor allow every call of the contract, a program that meets it keeps
to the monitor. -/
theorem Meets.wp {G : Type} {M : Monitor C R E A T G} {J : G → Prop}
    (hM : ∀ g c r, J g → K.may c → ∃ g', M.advance g c r = some g' ∧ J g')
    (hgets : ∀ c a, K.gets c a) (hp : K.Meets p Q) {g : G} (hg : J g) :
    M.wp p g (fun _ => J) fun _ => J := by
  induction p generalizing g with
  | ret a => exact hg
  | throw e => exact hg
  | call c k ih =>
    intro r
    obtain ⟨g', hg', hJ⟩ := hM g c r hg hp.1
    refine ⟨g', hg', ih r ?_ hJ⟩
    cases r with
    | error e => exact hp.2.1 e
    | ok a => exact hp.2.2 a (hgets c a)

/-- A program whose calls can all be answered has an end. -/
theorem Meets.exists_ends {S : System W C R E A T X V} {i : Nat}
    (hS : ∀ c w, K.may c → ∃ x w' r, S.exec i c x w = some (w', r)) (hgets : ∀ c a, K.gets c a)
    (hp : K.Meets p Q) (w : W) : ∃ w' r, Ends S i none w p w' r := by
  induction p generalizing w with
  | ret a => exact ⟨w, .ok a, .ret⟩
  | throw e => exact ⟨w, .error e, .throw⟩
  | call c k ih =>
    obtain ⟨x, w₁, r₁, hx⟩ := hS c w hp.1
    have hrest : K.Meets (k r₁) Q := by
      cases r₁ with
      | error e => exact hp.2.1 e
      | ok a => exact hp.2.2 a (hgets c a)
    obtain ⟨w', r, h⟩ := ih r₁ hrest w₁
    exact ⟨w', r, .answer hx h⟩

/-! ## Pools -/

/-- What every step of the system keeps, given that programs meet the contract. -/
structure Upholds (K : Contract C R) (S : System W C R E A T X V) (I : W → Prop) : Prop where
  exec : ∀ i c x w w' r, I w → K.may c → S.exec i c x w = some (w', r) →
    I w' ∧ ∀ a, r = .ok a → K.gets c a
  reject : ∀ i c w w' e, I w → K.may c → S.reject i c w = some (w', e) → I w'
  env : ∀ v w w' ts, I w → S.env v w = some (w', ts) →
    I w' ∧ ∀ t ∈ ts, K.Meets (S.prog t) fun _ => True

variable {S : System W C R E A T X V} {I : W → Prop}

/-- The world is in the invariant, and what is left of each process meets the contract. -/
structure Kept (K : Contract C R) (I : W → Prop) (c : Config W C R E A T) : Prop where
  world : I c.world
  procs : ∀ p ∈ c.procs, K.Meets p.prog fun _ => True

theorem Kept.start {c : Config W C R E A T} (hc : K.Kept I c) {ts : List T} {w : W} (hw : I w)
    (hts : ∀ t ∈ ts, K.Meets (S.prog t) fun _ => True) : K.Kept I (c.start S ts w) := by
  refine ⟨hw, fun p hp => ?_⟩
  rcases List.mem_append.mp hp with hp | hp
  · exact hc.procs p hp
  · obtain ⟨t, ht, rfl⟩ := List.mem_map.mp hp
    exact hts t ht

theorem Kept.resume {c : Config W C R E A T} (hc : K.Kept I c) {i : Nat} {p : Process W C R E A T}
    {call : C} {k : Except E (R call) → Prog C R E A} {r : Except E (R call)} {w : W} (hw : I w)
    (hp : c.procs[i]? = some p) (hk : p.prog = .call call k) (hr : ∀ a, r = .ok a → K.gets call a) :
    K.Kept I (c.resume i p call k r w) := by
  refine ⟨hw, fun q hq => ?_⟩
  have hmeets := hc.procs p (List.mem_of_getElem? hp)
  rw [hk] at hmeets
  rcases List.mem_or_eq_of_mem_set hq with hq | rfl
  · exact hc.procs q hq
  · cases r with
    | error e => exact hmeets.2.1 e
    | ok a => exact hmeets.2.2 a (hr a rfl)

/-- In every run whose tasks meet the contract, the invariant holds. -/
theorem Upholds.reach (hK : K.Upholds S I) {init : W → Prop} {P : Guard W C R E A T X V}
    (hinit : ∀ w, init w → I w)
    (hspawn : ∀ c t, P c (.spawn t) → K.Meets (S.prog t) fun _ => True)
    {c : Config W C R E A T} (h : Reach S init P c) : K.Kept I c := by
  induction h with
  | init h => exact ⟨hinit _ h, fun p hp => by cases hp⟩
  | step _ hP hl ih =>
    cases hl with
    | spawn _ =>
      refine ih.start ih.world fun t ht => ?_
      rw [List.mem_singleton.mp ht]
      exact hspawn _ _ hP
    | run hp hk hx =>
      have hmeets := ih.procs _ (List.mem_of_getElem? hp)
      rw [hk] at hmeets
      obtain ⟨hw, hr⟩ := hK.exec _ _ _ _ _ _ ih.world hmeets.1 hx
      exact ih.resume hw hp hk hr
    | fail hp hk hx =>
      have hmeets := ih.procs _ (List.mem_of_getElem? hp)
      rw [hk] at hmeets
      exact ih.resume (hK.reject _ _ _ _ _ ih.world hmeets.1 hx) hp hk nofun
    | env hx =>
      obtain ⟨hw, hts⟩ := hK.env _ _ _ _ ih.world hx
      exact ih.start hw hts

theorem Upholds.answered (hK : K.Upholds S I) {c : Config W C R E A T} (hc : K.Kept I c) {i : Nat}
    {p : Process W C R E A T} {call : C} {k : Except E (R call) → Prog C R E A}
    {r : Except E (R call)} {w : W} (hp : c.procs[i]? = some p) (hk : p.prog = .call call k)
    (hr : Answered S i call c.world r w) : K.may call ∧ I w := by
  have hmeets := hc.procs p (List.mem_of_getElem? hp)
  rw [hk] at hmeets
  refine ⟨hmeets.1, ?_⟩
  cases hr with
  | exec h => exact (hK.exec _ _ _ _ _ _ hc.world hmeets.1 h).1
  | reject h => exact hK.reject _ _ _ _ _ hc.world hmeets.1 h

/-- Every answer of such a run is to a call that the contract allows, from a world in the invariant
to one in it. -/
theorem Upholds.events (hK : K.Upholds S I) {init : W → Prop} {P : Guard W C R E A T X V}
    (hinit : ∀ w, init w → I w)
    (hspawn : ∀ c t, P c (.spawn t) → K.Meets (S.prog t) fun _ => True)
    {c : Config W C R E A T} (h : Reach S init P c) :
    ∀ e ∈ c.log, (K.may e.call ∧ I e.before ∧ I e.after) ∧
      Answered S e.proc e.call e.before e.res e.after := by
  induction h with
  | init h =>
    intro e he
    cases he
  | @step c l c' hc hP hl ih =>
    have hkept := hK.reach hinit hspawn hc
    cases hl with
    | spawn _ => exact ih
    | env hx => exact ih
    | run hp hk hx =>
      intro e he
      rcases List.mem_append.mp he with he | he
      · exact ih e he
      · obtain ⟨hmay, hw⟩ := hK.answered hkept hp hk (.exec hx)
        rw [List.mem_singleton.mp he]
        exact ⟨⟨hmay, hkept.world, hw⟩, .exec hx⟩
    | fail hp hk hx =>
      intro e he
      rcases List.mem_append.mp he with he | he
      · exact ih e he
      · obtain ⟨hmay, hw⟩ := hK.answered hkept hp hk (.reject hx)
        rw [List.mem_singleton.mp he]
        exact ⟨⟨hmay, hkept.world, hw⟩, .reject hx⟩

/-- A program that runs by itself keeps the invariant as well. -/
theorem Upholds.ends (hK : K.Upholds S I) {i : Nat} {f : Option (Fault W C)} {w w' : W}
    {p : Prog C R E α} {Q : α → Prop} {r : Except E α} (h : Ends S i f w p w' r)
    (hp : K.Meets p Q) (hw : I w) : I w' := by
  induction h with
  | ret => exact hw
  | throw => exact hw
  | @answer _ _ _ _ _ _ r₁ _ _ hx _ ih =>
    obtain ⟨hw, hr⟩ := hK.exec _ _ _ _ _ _ hw hp.1 hx
    refine ih ?_ hw
    cases r₁ with
    | error e => exact hp.2.1 e
    | ok a => exact hp.2.2 a (hr a rfl)
  | reject hx _ ih => exact ih (hp.2.1 _) (hK.reject _ _ _ _ _ hw hp.1 hx)

end Contract

end Async
