import LmsBackend.Async.Prog
import Mathlib.Data.List.Basic
import Mathlib.Logic.Relation

/-!
# Pools of programs

Processes share a world. One step carries out one awaited call of one process,
so every interleaving of the calls is a run. The pool keeps every process that
it started and a log of every answer, for statements about the past: no step
reads them.
-/

namespace Async

variable {W C : Type} {R : C → Type} {E A T X V : Type}

/-- What the programs of a pool run against. -/
structure System (W C : Type) (R : C → Type) (E A T X V : Type) where
  prog : T → Prog C R E A
  /-- Clients start these tasks whenever they like. -/
  client : T → Bool
  /-- Carries out a call of process `i`. `none` while the call has to wait.
  The choice `x` settles what the world leaves open. -/
  exec : Nat → (c : C) → X → W → Option (W × Except E (R c))
  /-- What is left when a call of process `i` rejects. `none` if it cannot. -/
  reject : Nat → C → W → Option (W × E)
  /-- A step of the environment, and the tasks that it starts. -/
  env : V → W → Option (W × List T)

structure Process (W C : Type) (R : C → Type) (E A T : Type) where
  task : T
  /-- The world in which the process began. -/
  born : W
  prog : Prog C R E A

structure Event (W C : Type) (R : C → Type) (E : Type) where
  proc : Nat
  call : C
  res : Except E (R call)
  before : W
  after : W

structure Config (W C : Type) (R : C → Type) (E A T : Type) where
  world : W
  procs : List (Process W C R E A T)
  log : List (Event W C R E)

inductive Label (T X V : Type) where
  | spawn (t : T)
  | run (i : Nat) (x : X)
  | fail (i : Nat)
  | env (v : V)
  deriving DecidableEq

namespace Config

def initial (w : W) : Config W C R E A T := ⟨w, [], []⟩

/-- The call that process `i` waits for. -/
def next? (c : Config W C R E A T) (i : Nat) : Option C := c.procs[i]?.bind (·.prog.next?)

def task? (c : Config W C R E A T) (i : Nat) : Option T := c.procs[i]?.map (·.task)

def born? (c : Config W C R E A T) (i : Nat) : Option W := c.procs[i]?.map (·.born)

def prog? (c : Config W C R E A T) (i : Nat) : Option (Prog C R E A) := c.procs[i]?.map (·.prog)

/-- The value that process `i` has ended with. -/
def reply? (c : Config W C R E A T) (i : Nat) : Option A := (c.prog? i).bind (·.value?)

/-- The error that process `i` has ended with. -/
def error? (c : Config W C R E A T) (i : Nat) : Option E := (c.prog? i).bind (·.error?)

/-- The last answer that process `i` got. -/
def last? (c : Config W C R E A T) (i : Nat) : Option (Event W C R E) :=
  (c.log.filter (·.proc = i)).getLast?

/-- What other processes have been answered since process `i` got its last answer, newest first. -/
def since (c : Config W C R E A T) (i : Nat) : List (Event W C R E) :=
  c.log.reverse.takeWhile (·.proc ≠ i)

def start (S : System W C R E A T X V) (ts : List T) (w : W) (c : Config W C R E A T) :
    Config W C R E A T :=
  { c with world := w, procs := c.procs ++ ts.map fun t => ⟨t, w, S.prog t⟩ }

/-- Process `i` got the answer `r` to `call` and the world is now `w`. -/
def resume (i : Nat) (p : Process W C R E A T) (call : C) (k : Except E (R call) → Prog C R E A)
    (r : Except E (R call)) (w : W) (c : Config W C R E A T) : Config W C R E A T where
  world := w
  procs := c.procs.set i { p with prog := k r }
  log := c.log ++ [⟨i, call, r, c.world, w⟩]

theorem since_other {c c' : Config W C R E A T} {e : Event W C R E} (hlog : c'.log = c.log ++ [e])
    {i : Nat} (hi : e.proc ≠ i) : c'.since i = e :: c.since i := by
  simp [since, hlog, hi]

theorem last?_of_getLast? {c : Config W C R E A T} {e : Event W C R E}
    (h : c.log.getLast? = some e) : c.last? e.proc = some e := by
  obtain ⟨log, hlog⟩ := List.getLast?_eq_some_iff.mp h
  simp [last?, hlog, List.filter_append]

end Config

open Config

/-- The answers that a call of process `i` can get in `w`, and the worlds they leave. -/
inductive Answered (S : System W C R E A T X V) (i : Nat) (call : C) (w : W) :
    Except E (R call) → W → Prop where
  | exec {x r w'} (h : S.exec i call x w = some (w', r)) : Answered S i call w r w'
  | reject {e w'} (h : S.reject i call w = some (w', e)) : Answered S i call w (.error e) w'

/-- A step of the pool. `run` and `fail` answer the call that process `i` waits for. -/
inductive Step (S : System W C R E A T X V) (c : Config W C R E A T) :
    Label T X V → Config W C R E A T → Prop where
  | spawn {t} (h : S.client t = true) : Step S c (.spawn t) (c.start S [t] c.world)
  | run {i x p call k r w} (hp : c.procs[i]? = some p) (hk : p.prog = .call call k)
      (h : S.exec i call x c.world = some (w, r)) :
      Step S c (.run i x) (c.resume i p call k r w)
  | fail {i p call k e w} (hp : c.procs[i]? = some p) (hk : p.prog = .call call k)
      (h : S.reject i call c.world = some (w, e)) :
      Step S c (.fail i) (c.resume i p call k (.error e) w)
  | env {v w ts} (h : S.env v c.world = some (w, ts)) : Step S c (.env v) (c.start S ts w)

/-- The step that a label names, as a function. -/
def step (S : System W C R E A T X V) (c : Config W C R E A T) :
    Label T X V → Option (Config W C R E A T)
  | .spawn t => if S.client t then some (c.start S [t] c.world) else none
  | .run i x =>
    match c.procs[i]? with
    | none => none
    | some p =>
      match p.prog with
      | .call call k => (S.exec i call x c.world).map fun (w, r) => c.resume i p call k r w
      | _ => none
  | .fail i =>
    match c.procs[i]? with
    | none => none
    | some p =>
      match p.prog with
      | .call call k =>
        (S.reject i call c.world).map fun (w, e) => c.resume i p call k (.error e) w
      | _ => none
  | .env v => (S.env v c.world).map fun (w, ts) => c.start S ts w

theorem step_sound (S : System W C R E A T X V) {c c' : Config W C R E A T} {l : Label T X V}
    (h : step S c l = some c') : Step S c l c' := by
  cases l with
  | spawn t =>
    simp only [step] at h
    split at h
    · cases h; exact .spawn ‹_›
    · cases h
  | run i x =>
    simp only [step] at h
    split at h
    · cases h
    · split at h
      · obtain ⟨⟨w, r⟩, hx, rfl⟩ := Option.map_eq_some_iff.mp h
        exact .run ‹_› ‹_› hx
      · cases h
  | fail i =>
    simp only [step] at h
    split at h
    · cases h
    · split at h
      · obtain ⟨⟨w, e⟩, hx, rfl⟩ := Option.map_eq_some_iff.mp h
        exact .fail ‹_› ‹_› hx
      · cases h
  | env v =>
    obtain ⟨⟨w, ts⟩, hx, rfl⟩ := Option.map_eq_some_iff.mp h
    exact .env hx

/-! ## Runs

`P` restricts the steps: what it says of a step is said of the state before it. -/

abbrev Guard (W C : Type) (R : C → Type) (E A T X V : Type) :=
  Config W C R E A T → Label T X V → Prop

/-- Every step is allowed. -/
def anyStep : Guard W C R E A T X V := fun _ _ => True

def StepIf (S : System W C R E A T X V) (P : Guard W C R E A T X V)
    (c c' : Config W C R E A T) : Prop :=
  ∃ l, P c l ∧ Step S c l c'

abbrev Steps (S : System W C R E A T X V) (P : Guard W C R E A T X V) :
    Config W C R E A T → Config W C R E A T → Prop :=
  Relation.ReflTransGen (StepIf S P)

/-- The states that runs reach from an initial world. -/
inductive Reach (S : System W C R E A T X V) (init : W → Prop) (P : Guard W C R E A T X V) :
    Config W C R E A T → Prop where
  | init {w} (h : init w) : Reach S init P (.initial w)
  | step {c l c'} (hc : Reach S init P c) (hP : P c l) (h : Step S c l c') : Reach S init P c'

variable {S : System W C R E A T X V} {init : W → Prop} {P Q : Guard W C R E A T X V}

theorem Reach.mono (hPQ : ∀ c l, P c l → Q c l) {c : Config W C R E A T} (h : Reach S init P c) :
    Reach S init Q c := by
  induction h with
  | init h => exact .init h
  | step _ hP h ih => exact .step ih (hPQ _ _ hP) h

theorem Reach.of_init {init' : W → Prop} (hinit : ∀ w, init w → init' w) {c : Config W C R E A T}
    (h : Reach S init P c) : Reach S init' P c := by
  induction h with
  | init h => exact .init (hinit _ h)
  | step _ hP h ih => exact .step ih hP h

/-- A run has one initial world. -/
theorem Reach.exists_init {c : Config W C R E A T} (h : Reach S init P c) :
    ∃ w, init w ∧ Reach S (· = w) P c := by
  induction h with
  | init h => exact ⟨_, h, .init rfl⟩
  | step _ hP hl ih => exact ih.imp fun _ hw => ⟨hw.1, .step hw.2 hP hl⟩

theorem Reach.any {c : Config W C R E A T} (h : Reach S init P c) : Reach S init anyStep c :=
  h.mono fun _ _ _ => trivial

theorem Reach.steps {c c' : Config W C R E A T} (h : Reach S init P c) (hs : Steps S P c c') :
    Reach S init P c' := by
  induction hs with
  | refl => exact h
  | tail _ hl ih =>
    obtain ⟨l, hP, hl⟩ := hl
    exact .step ih hP hl

/-- Follows labels while the guard holds. -/
def runIf (S : System W C R E A T X V) (P : Guard W C R E A T X V) [∀ c l, Decidable (P c l)] :
    List (Label T X V) → Config W C R E A T → Option (Config W C R E A T)
  | [], c => some c
  | l :: ls, c => if P c l then (step S c l).bind (runIf S P ls) else none

theorem runIf_reach [∀ c l, Decidable (P c l)] {ls : List (Label T X V)}
    {c c' : Config W C R E A T} (hc : Reach S init P c) (h : runIf S P ls c = some c') :
    Reach S init P c' := by
  induction ls generalizing c with
  | nil => cases h; exact hc
  | cons l ls ih =>
    simp only [runIf] at h
    split at h
    · obtain ⟨d, hd, h⟩ := Option.bind_eq_some_iff.mp h
      exact ih (.step hc ‹_› (step_sound S hd)) h
    · cases h

theorem runIf_steps [∀ c l, Decidable (P c l)] {ls : List (Label T X V)} {c c' : Config W C R E A T}
    (h : runIf S P ls c = some c') : Steps S P c c' := by
  induction ls generalizing c with
  | nil => cases h; exact .refl
  | cons l ls ih =>
    simp only [runIf] at h
    split at h
    · obtain ⟨d, hd, h⟩ := Option.bind_eq_some_iff.mp h
      exact .head ⟨l, ‹_›, step_sound S hd⟩ (ih h)
    · cases h

instance : ∀ (c : Config W C R E A T) (l : Label T X V), Decidable (anyStep c l) :=
  fun _ _ => .isTrue trivial

/-- No new task comes from a client. -/
def noSpawn : Guard W C R E A T X V := fun _ l => ∀ t, l ≠ .spawn t

instance instDecidableNoSpawn : ∀ (c : Config W C R E A T) (l : Label T X V), Decidable (noSpawn c l)
  | _, .spawn t => .isFalse fun h => h t rfl
  | _, .run _ _ | _, .fail _ | _, .env _ => .isTrue nofun

theorem Steps.mono (hPQ : ∀ c l, P c l → Q c l) {c c' : Config W C R E A T} (h : Steps S P c c') :
    Steps S Q c c' := by
  induction h with
  | refl => exact .refl
  | tail _ hl ih =>
    obtain ⟨l, hP, hl⟩ := hl
    exact .tail ih ⟨l, hPQ _ l hP, hl⟩

end Async
