import LmsBackend.Async.Interpret

/-!
# One program among others

What a program does when others run in between. They are not named: `Returns`
lets the world of each call be any, and `EndsAmong` lets it change by a relation
that says what the others may do.
-/

namespace Async

variable {W C : Type} {R : C → Type} {E A T X V α β : Type} {S : System W C R E A T X V} {i : Nat}
  {f : Option (Fault W C)} {w w' : W} {p : Prog C R E α}

/-- The program returns after these calls. The world that answers a call need not be the one that
the last call has left: other programs may have run in between. -/
inductive Returns (S : System W C R E A T X V) (i : Nat) : Prog C R E α → List C → α → Prop where
  | ret {a} : Returns S i (.ret a) [] a
  | call {c k r w w' cs a} (hx : Answered S i c w r w') (h : Returns S i (k r) cs a) :
      Returns S i (.call c k) (c :: cs) a

/-- A call whose value is used has succeeded. -/
theorem Returns.await {c : C} {q : R c → Prog C R E β} {cs : List C} {b : β}
    (h : Returns S i ((Prog.await c).bind q) cs b) : ∃ a w w' cs', Answered S i c w (.ok a) w' ∧
      Returns S i (q a) cs' b ∧ cs = c :: cs' := by
  cases h with
  | @call _ _ r w w' cs' _ hx h =>
    cases r with
    | error e => cases h
    | ok a => exact ⟨a, w, w', cs', hx, h, rfl⟩

/-- Like `Ends`, where before each call others may change the world by `I`. -/
inductive EndsAmong (S : System W C R E A T X V) (i : Nat) (I : W → W → Prop) :
    Option (Fault W C) → W → Prog C R E α → W → Except E α → Prop where
  | ret {w a} : EndsAmong S i I none w (.ret a) w (.ok a)
  | throw {w e} : EndsAmong S i I none w (.throw e) w (.error e)
  | answer {f w w₀ c k x w₁ r₁ w' r} (hI : I w w₀) (hx : S.exec i c x w₀ = some (w₁, r₁))
      (h : EndsAmong S i I f w₁ (k r₁) w' r) : EndsAmong S i I f w (.call c k) w' r
  | reject {w w₀ c k w₁ e w' r} (hI : I w w₀) (hx : S.reject i c w₀ = some (w₁, e))
      (h : EndsAmong S i I none w₁ (k (.error e)) w' r) :
      EndsAmong S i I (some ⟨w₀, c⟩) w (.call c k) w' r

variable {I : W → W → Prop} {x : Fault W C}

theorem Ends.among {r : Except E α} (hI : ∀ w, I w w) (h : Ends S i f w p w' r) :
    EndsAmong S i I f w p w' r := by
  induction h with
  | ret => exact .ret
  | throw => exact .throw
  | answer hx _ ih => exact .answer (hI _) hx ih
  | reject hx _ ih => exact .reject (hI _) hx ih

/-- What the others keep and every call keeps is kept. -/
theorem EndsAmong.kept {r : Except E α} {J : W → Prop} (hI : ∀ w w', I w w' → J w → J w')
    (hstep : ∀ c w r w', Answered S i c w r w' → J w → J w') (h : EndsAmong S i I f w p w' r)
    (hw : J w) : J w' := by
  induction h with
  | ret => exact hw
  | throw => exact hw
  | answer hothers hx _ ih => exact ih (hstep _ _ _ _ (.exec hx) (hI _ _ hothers hw))
  | reject hothers hx _ ih => exact ih (hstep _ _ _ _ (.reject hx) (hI _ _ hothers hw))

/-- The call that rejects is one that the program makes. -/
theorem EndsAmong.fault {r : Except E α} {Q : C → Prop} {P : α → Prop}
    (hp : (Contract.only Q).Meets p P) (h : EndsAmong S i I f w p w' r) (hf : f = some x) :
    Q x.call := by
  induction h with
  | ret => cases hf
  | throw => cases hf
  | @answer _ _ _ _ _ _ _ r₁ _ _ _ _ _ ih =>
    refine ih ?_ hf
    cases r₁ with
    | error e => exact hp.2.1 e
    | ok a => exact hp.2.2 a trivial
  | reject =>
    cases hf
    exact hp.1

/-- A call either is the one that rejects, and the program ends, or it succeeds. -/
theorem EndsAmong.await {c : C} {q : R c → Prog C R E β} {r : Except E β}
    (h : EndsAmong S i I (some x) w ((Prog.await c).bind q) w' r) :
    (∃ a w₀ w₁, I w w₀ ∧ Answered S i c w₀ (.ok a) w₁ ∧ EndsAmong S i I (some x) w₁ (q a) w' r) ∨
      x.call = c ∧ I w x.world ∧ ∃ e, r = .error e ∧ S.reject i c x.world = some (w', e) := by
  cases h with
  | @answer _ _ w₀ _ _ _ w₁ r₁ _ _ hI hx h =>
    cases r₁ with
    | error e => cases h
    | ok a => exact .inl ⟨a, w₀, w₁, hI, .exec hx, h⟩
  | reject hI hx h =>
    cases h
    exact .inr ⟨rfl, hI, _, rfl, hx⟩

end Async
