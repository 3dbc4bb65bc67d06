import Mathlib.Tactic.Basic

/-!
# Programs that await

An async function is a tree: it ends with a value or an error, or it awaits a
call and goes on with the answer. An answer is a value or the error that the
call rejected with.
-/

namespace Async

inductive Prog (C : Type) (R : C → Type) (E α : Type) where
  | ret (a : α)
  | throw (e : E)
  | call (c : C) (k : Except E (R c) → Prog C R E α)

namespace Prog

variable {C : Type} {R : C → Type} {E α β : Type}

def bind : Prog C R E α → (α → Prog C R E β) → Prog C R E β
  | ret a, f => f a
  | throw e, _ => throw e
  | call c k, f => call c fun r => (k r).bind f

/-- `try p catch h`. -/
def handle : Prog C R E α → (E → Prog C R E α) → Prog C R E α
  | ret a, _ => ret a
  | throw e, h => h e
  | call c k, h => call c fun r => (k r).handle h

/-- `try p finally q`. An error of `q` replaces the outcome of `p`. -/
def ensure : Prog C R E α → Prog C R E Unit → Prog C R E α
  | ret a, q => q.bind fun _ => ret a
  | throw e, q => q.bind fun _ => throw e
  | call c k, q => call c fun r => (k r).ensure q

def answer : Except E α → Prog C R E α
  | .ok a => ret a
  | .error e => throw e

def await (c : C) : Prog C R E (R c) := call c answer

/-- The next call, when the program waits for one. -/
def next? : Prog C R E α → Option C
  | call c _ => some c
  | _ => none

/-- The value, when the program has come to its end with one. -/
def value? : Prog C R E α → Option α
  | ret a => some a
  | _ => none

/-- The error, when the program has come to its end with one. -/
def error? : Prog C R E α → Option E
  | throw e => some e
  | _ => none

theorem next?_bind {p : Prog C R E α} {c : C} (h : p.next? = some c) (f : α → Prog C R E β) :
    (p.bind f).next? = some c := by
  cases p with
  | call c' k => exact h
  | _ => cases h

theorem next?_handle {p : Prog C R E α} {c : C} (h : p.next? = some c) (f : E → Prog C R E α) :
    (p.handle f).next? = some c := by
  cases p with
  | call c' k => exact h
  | _ => cases h

theorem next?_ensure {p : Prog C R E α} {c : C} (h : p.next? = some c) (q : Prog C R E Unit) :
    (p.ensure q).next? = some c := by
  cases p with
  | call c' k => exact h
  | _ => cases h

theorem eq_throw {p : Prog C R E α} {e : E} (h : p.error? = some e) : p = .throw e := by
  cases p with
  | ret a => cases h
  | throw e' => cases h; rfl
  | call c k => cases h

instance : Monad (Prog C R E) where
  pure := ret
  bind := bind

instance : MonadExcept E (Prog C R E) where
  throw := throw
  tryCatch := handle

@[simp] theorem bind_eq (p : Prog C R E α) (f : α → Prog C R E β) : p >>= f = p.bind f := rfl
@[simp] theorem pure_eq (a : α) : (pure a : Prog C R E α) = ret a := rfl
@[simp] theorem throw_eq (e : E) : (MonadExcept.throw e : Prog C R E α) = throw e := rfl
@[simp] theorem tryCatch_eq (p : Prog C R E α) (h : E → Prog C R E α) :
    tryCatch p h = p.handle h := rfl

end Prog

end Async
