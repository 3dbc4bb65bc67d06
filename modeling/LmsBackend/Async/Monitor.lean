import LmsBackend.Async.Pool
import Mathlib.Data.List.Induction

/-!
# Monitors

A monitor reads the answers that a program gets and moves through phases. It
says which calls a phase allows, so a phase stands for the place that a program
has reached. `wp` checks a program against its monitor once. After that every
step of a pool is a move of a monitor (`Moved`), and no proof about a pool looks
into a program again.
-/

namespace Async

variable {W C : Type} {R : C → Type} {E A T X V G : Type}

structure Monitor (C : Type) (R : C → Type) (E A T G : Type) where
  start : T → G
  /-- The phase after an answer. `none` when the phase does not allow the call. -/
  next : G → (c : C) → R c → Option G
  /-- The phase after the call has rejected. -/
  failed : G → C → G
  /-- How a program may end in a phase. -/
  final : Except E A → G → Prop

namespace Monitor

variable (M : Monitor C R E A T G) {α β : Type}

/-- The phase after a call has come back. -/
def advance (g : G) (c : C) : Except E (R c) → Option G
  | .ok a => M.next g c a
  | .error _ => some (M.failed g c)

/-- From phase `g` the program makes only calls that the monitor allows. It ends with a value
and a phase in `Q`, or with an error and a phase in `F`. -/
def wp : Prog C R E α → G → (α → G → Prop) → (E → G → Prop) → Prop
  | .ret a, g, Q, _ => Q a g
  | .throw e, g, _, F => F e g
  | .call c k, g, Q, F => ∀ r, ∃ g', M.advance g c r = some g' ∧ wp (k r) g' Q F

variable {p : Prog C R E α} {g : G} {Q : α → G → Prop} {F : E → G → Prop}

@[simp] theorem wp_ret (a : α) : M.wp (.ret a) g Q F ↔ Q a g := Iff.rfl

@[simp] theorem wp_throw (e : E) : M.wp (.throw e) g Q F ↔ F e g := Iff.rfl

@[simp] theorem wp_await (c : C) {Q : R c → G → Prop} :
    M.wp (.await c) g Q F ↔
      (∀ a, ∃ g', M.next g c a = some g' ∧ Q a g') ∧ ∀ e, F e (M.failed g c) := by
  constructor
  · intro h
    refine ⟨fun a => h (.ok a), fun e => ?_⟩
    obtain ⟨g', hg, hF⟩ := h (.error e)
    cases hg
    exact hF
  · rintro ⟨hok, herr⟩ (e | a)
    · exact ⟨_, rfl, herr e⟩
    · exact hok a

theorem wp_mono {Q' : α → G → Prop} {F' : E → G → Prop} (h : M.wp p g Q F)
    (hQ : ∀ a g, Q a g → Q' a g) (hF : ∀ e g, F e g → F' e g) : M.wp p g Q' F' := by
  induction p generalizing g with
  | ret a => exact hQ _ _ h
  | throw e => exact hF _ _ h
  | call c k ih =>
    intro r
    obtain ⟨g', hg, h⟩ := h r
    exact ⟨g', hg, ih r h⟩

/-- A phase that every call keeps is the phase of any program. -/
theorem wp_stay (hnext : ∀ c a, M.next g c a = some g) (hfailed : ∀ c, M.failed g c = g) :
    M.wp p g (fun _ g' => g' = g) fun _ g' => g' = g := by
  induction p with
  | ret a => rfl
  | throw e => rfl
  | call c k ih =>
    intro r
    refine ⟨g, ?_, ih r⟩
    cases r with
    | error e => exact congrArg some (hfailed c)
    | ok a => exact hnext c a

@[simp] theorem wp_bind (f : α → Prog C R E β) {Q : β → G → Prop} :
    M.wp (p.bind f) g Q F ↔ M.wp p g (fun a g => M.wp (f a) g Q F) F := by
  induction p generalizing g with
  | ret a => rfl
  | throw e => rfl
  | call c k ih => exact forall_congr' fun r => exists_congr fun g' => and_congr_right fun _ => ih r

@[simp] theorem wp_handle (h : E → Prog C R E α) :
    M.wp (p.handle h) g Q F ↔ M.wp p g Q fun e g => M.wp (h e) g Q F := by
  induction p generalizing g with
  | ret a => rfl
  | throw e => rfl
  | call c k ih => exact forall_congr' fun r => exists_congr fun g' => and_congr_right fun _ => ih r

@[simp] theorem wp_ensure (q : Prog C R E Unit) :
    M.wp (p.ensure q) g Q F ↔
      M.wp p g (fun a g => M.wp q g (fun _ => Q a) F) fun e g => M.wp q g (fun _ => F e) F := by
  induction p generalizing g with
  | ret a => exact M.wp_bind _
  | throw e => exact M.wp_bind _
  | call c k ih => exact forall_congr' fun r => exists_congr fun g' => and_congr_right fun _ => ih r

/-- A program that keeps to the monitor from `g` to its end. -/
def Keeps (p : Prog C R E A) (g : G) : Prop :=
  M.wp p g (fun a => M.final (.ok a)) fun e => M.final (.error e)

/-- Every task of the system keeps to the monitor. -/
def Sound (S : System W C R E A T X V) : Prop := ∀ t, M.Keeps (S.prog t) (M.start t)

/-! ## Phases of a pool -/

/-- The phase after one more event, for process `i`. -/
def feed (i : Nat) (g : Option G) (e : Event W C R E) : Option G :=
  if e.proc = i then g.bind (M.advance · e.call e.res) else g

/-- The phase of process `i`. -/
def phase (c : Config W C R E A T) (i : Nat) : Option G :=
  (c.task? i).bind fun t => c.log.foldl (M.feed i) (some (M.start t))

theorem feed_foldl_of_ne {i : Nat} {log : List (Event W C R E)} (h : ∀ e ∈ log, e.proc ≠ i)
    (g : Option G) : log.foldl (M.feed i) g = g := by
  induction log generalizing g with
  | nil => rfl
  | cons e log ih =>
    rw [List.foldl_cons, feed, if_neg (h e (by simp))]
    exact ih (fun e he => h e (by simp [he])) g

end Monitor

namespace Monitor

variable {M : Monitor C R E A T G} {c : Config W C R E A T}

/-- What holds of a phase, and stays so with every answer, holds after all events of a log. -/
theorem feed_foldl_always {i : Nat} {p : G → Prop}
    (hnext : ∀ g call r g', p g → M.advance (R := R) g call r = some g' → p g') {g₀ : G} (h₀ : p g₀)
    (log : List (Event W C R E)) {g : G} (h : log.foldl (M.feed i) (some g₀) = some g) : p g := by
  induction log using List.reverseRecOn generalizing g with
  | nil =>
    cases h
    exact h₀
  | append_singleton log e ih =>
    simp only [List.foldl_append, List.foldl_cons, List.foldl_nil, feed] at h
    split at h
    · obtain ⟨g₁, hg₁, h⟩ := Option.bind_eq_some_iff.mp h
      exact hnext g₁ e.call e.res g (ih hg₁) h
    · exact ih h

/-- What holds of the first phase of a task, and stays so with every answer, holds of the phase of
its process. -/
theorem phase_always {i : Nat} {t : T} (ht : c.task? i = some t) {g : G}
    (hg : M.phase c i = some g) {p : G → Prop} (hstart : p (M.start t))
    (hnext : ∀ g call r g', p g → M.advance (R := R) g call r = some g' → p g') : p g := by
  rw [phase, ht, Option.bind_some] at hg
  exact feed_foldl_always hnext hstart c.log hg

/-- The phase before the last event, with what holds of the first phase and stays so. The event
leads to the phase of the process that it is of. -/
theorem phase_last {e : Event W C R E} (hlast : c.log.getLast? = some e) {t : T}
    (ht : c.task? e.proc = some t) {g : G} (hg : M.phase c e.proc = some g) {p : G → Prop}
    (hstart : p (M.start t))
    (hnext : ∀ g call r g', p g → M.advance (R := R) g call r = some g' → p g') :
    ∃ g₀, p g₀ ∧ M.advance g₀ e.call e.res = some g := by
  obtain ⟨log, hlog⟩ := List.getLast?_eq_some_iff.mp hlast
  simp only [phase, ht, Option.bind_some, hlog, List.foldl_append, List.foldl_cons, List.foldl_nil,
    feed, if_true] at hg
  obtain ⟨g₀, hg₀, h⟩ := Option.bind_eq_some_iff.mp hg
  exact ⟨g₀, feed_foldl_always hnext hstart log hg₀, h⟩

end Monitor

namespace Config

variable (S : System W C R E A T X V) (c : Config W C R E A T)

@[simp] theorem start_world (ts : List T) (w : W) : (c.start S ts w).world = w := rfl
@[simp] theorem start_log (ts : List T) (w : W) : (c.start S ts w).log = c.log := rfl

theorem start_procs_of_lt {ts : List T} {w : W} {i : Nat} (h : i < c.procs.length) :
    (c.start S ts w).procs[i]? = c.procs[i]? :=
  List.getElem?_append_left h

theorem task?_start {ts : List T} {w : W} {i : Nat} {t : T} (h : c.task? i = some t) :
    (c.start S ts w).task? i = some t := by
  obtain ⟨p, hp, ht⟩ := Option.map_eq_some_iff.mp h
  rw [task?, start_procs_of_lt S c (List.getElem?_eq_some_iff.mp hp).1, hp, Option.map_some, ht]

theorem task?_resume {i : Nat} {p : Process W C R E A T} (hp : c.procs[i]? = some p) {call : C}
    {k : Except E (R call) → Prog C R E A} {r : Except E (R call)} {w : W} (j : Nat) :
    (c.resume i p call k r w).task? j = c.task? j := by
  obtain ⟨hi, rfl⟩ := List.getElem?_eq_some_iff.mp hp
  simp only [task?, resume, List.getElem?_set]
  split
  · subst j; simp [hi]
  · rfl

/-- A process of `c.start` is an old one or one of the new tasks. -/
theorem start_procs_cases {ts : List T} {w : W} {i : Nat} {p : Process W C R E A T}
    (h : (c.start S ts w).procs[i]? = some p) :
    c.procs[i]? = some p ∨ c.procs.length ≤ i ∧ ∃ t ∈ ts, p = ⟨t, w, S.prog t⟩ := by
  rcases Nat.lt_or_ge i c.procs.length with hi | hi
  · exact .inl (c.start_procs_of_lt S hi ▸ h)
  · right
    rw [start, List.getElem?_append_right hi, List.getElem?_map] at h
    obtain ⟨t, ht, rfl⟩ := Option.map_eq_some_iff.mp h
    exact ⟨hi, t, List.mem_of_getElem? ht, rfl⟩

end Config

/-- The events of the log are of processes that the pool has started. -/
def Config.LogOk (c : Config W C R E A T) : Prop := ∀ e ∈ c.log, e.proc < c.procs.length

/-- Every process keeps to the monitor from the phase that it has reached. -/
def Monitor.Conforms (M : Monitor C R E A T G) (c : Config W C R E A T) : Prop :=
  ∀ i p, c.procs[i]? = some p → ∃ g, M.phase c i = some g ∧ M.Keeps p.prog g

namespace Monitor

variable {M : Monitor C R E A T G} {S : System W C R E A T X V} {c : Config W C R E A T}

theorem phase_none {i : Nat} (h : c.procs.length ≤ i) : M.phase c i = none := by
  simp [phase, Config.task?, List.getElem?_eq_none h]

theorem lt_of_phase {i : Nat} {g : G} (h : M.phase c i = some g) : i < c.procs.length := by
  by_contra hi
  rw [phase_none (Nat.le_of_not_lt hi)] at h
  cases h

theorem task_of_phase {i : Nat} {g : G} (h : M.phase c i = some g) : ∃ t, c.task? i = some t := by
  obtain ⟨t, ht, -⟩ := Option.bind_eq_some_iff.mp h
  exact ⟨t, ht⟩

theorem phase_start_of_lt {ts : List T} {w : W} {i : Nat} (h : i < c.procs.length) :
    M.phase (c.start S ts w) i = M.phase c i := by
  simp only [phase, Config.task?, Config.start_log, c.start_procs_of_lt S h]

theorem phase_start_new (hc : c.LogOk) {ts : List T} {w : W} {i : Nat} {p : Process W C R E A T}
    (hi : c.procs.length ≤ i) (hp : (c.start S ts w).procs[i]? = some p) :
    M.phase (c.start S ts w) i = some (M.start p.task) := by
  simp only [phase, Config.task?, hp, Option.map_some, Option.bind_some, Config.start_log]
  refine M.feed_foldl_of_ne ?_ _
  intro e he
  have := hc e he
  omega

/-- A new process has its task, the start of its phases, and the world that it began in. -/
theorem phase_start_task (hc : c.LogOk) {ts : List T} {w : W} {i : Nat} {g : G}
    (hi : c.procs.length ≤ i) (h : M.phase (c.start S ts w) i = some g) :
    ∃ t ∈ ts, g = M.start t ∧ (c.start S ts w).task? i = some t ∧
      (c.start S ts w).born? i = some w := by
  have hp := List.getElem?_eq_getElem (lt_of_phase h)
  rw [phase_start_new hc hi hp, Option.some.injEq] at h
  rcases c.start_procs_cases S hp with hp' | ⟨_, t, ht, he⟩
  · rw [List.getElem?_eq_none hi] at hp'; cases hp'
  · refine ⟨t, ht, by rw [← h, he], ?_, ?_⟩
    · rw [Config.task?, hp, he]; rfl
    · rw [Config.born?, hp, he]; rfl

/-- Each new task is a process at the start of its phases. -/
theorem phase_start_mem (hc : c.LogOk) {ts : List T} {t : T} (ht : t ∈ ts) (w : W) :
    ∃ i, M.phase (c.start S ts w) i = some (M.start t) := by
  obtain ⟨n, hn⟩ := List.getElem?_of_mem ht
  refine ⟨c.procs.length + n, phase_start_new (p := ⟨t, w, S.prog t⟩) hc (Nat.le_add_right _ _) ?_⟩
  rw [Config.start, List.getElem?_append_right (Nat.le_add_right _ _), Nat.add_sub_cancel_left,
    List.getElem?_map, hn, Option.map_some]

/-- A phase after `start` is an old one, or the start of a new task. -/
theorem phase_start_cases (hc : c.LogOk) {ts : List T} {w : W} {i : Nat} {g : G}
    (h : M.phase (c.start S ts w) i = some g) :
    M.phase c i = some g ∨ c.procs.length ≤ i ∧ ∃ t ∈ ts, g = M.start t := by
  rcases Nat.lt_or_ge i c.procs.length with hi | hi
  · exact .inl (phase_start_of_lt hi ▸ h)
  · obtain ⟨t, ht, hg, -⟩ := phase_start_task hc hi h
    exact .inr ⟨hi, t, ht, hg⟩

end Monitor

/-- Process `i` got the answer `r` to `call`, which took its monitor from `g` to `g'`. -/
structure Moved (M : Monitor C R E A T G) (S : System W C R E A T X V)
    (c c' : Config W C R E A T) (i : Nat) (call : C) (r : Except E (R call)) (g g' : G) :
    Prop where
  answers : Answered S i call c.world r c'.world
  /-- The phase allows the call, whatever it came back with. -/
  allowed : ∀ a, ∃ g', M.next g call a = some g'
  next : M.advance g call r = some g'
  before : M.phase c i = some g
  after : M.phase c' i = some g'
  other : ∀ j, j ≠ i → M.phase c' j = M.phase c j
  log : c'.log = c.log ++ [⟨i, call, r, c.world, c'.world⟩]
  length : c'.procs.length = c.procs.length
  waits : c.next? i = some call
  task : ∀ j, c'.task? j = c.task? j
  born : ∀ j, c'.born? j = c.born? j
  prog : ∀ j, j ≠ i → c'.prog? j = c.prog? j
  keeps : ∃ p, c'.prog? i = some p ∧ M.Keeps p g'

/-- A phase after a move is the new phase of the process that moved, or an old one of another. -/
theorem Moved.phase_cases {M : Monitor C R E A T G} {S : System W C R E A T X V}
    {c c' : Config W C R E A T} {i : Nat} {call : C} {r : Except E (R call)} {g g' : G}
    (hm : Moved M S c c' i call r g g') {j : Nat} {gj : G} (hj : M.phase c' j = some gj) :
    j = i ∧ gj = g' ∨ j ≠ i ∧ M.phase c j = some gj := by
  by_cases he : j = i
  · subst he
    exact .inl ⟨rfl, Option.some.inj (hj.symm.trans hm.after)⟩
  · exact .inr ⟨he, hm.other j he ▸ hj⟩

theorem Moved.next_other {M : Monitor C R E A T G} {S : System W C R E A T X V}
    {c c' : Config W C R E A T} {i : Nat} {call : C} {r : Except E (R call)} {g g' : G}
    (hm : Moved M S c c' i call r g g') {j : Nat} (hj : j ≠ i) : c'.next? j = c.next? j := by
  have hprog : ∀ c : Config W C R E A T, c.next? j = (c.prog? j).bind (·.next?) := fun c => by
    cases h : c.procs[j]? <;> simp [Config.next?, Config.prog?, h]
  rw [hprog, hprog, hm.prog j hj]

theorem Moved.last_other {M : Monitor C R E A T G} {S : System W C R E A T X V}
    {c c' : Config W C R E A T} {i : Nat} {call : C} {r : Except E (R call)} {g g' : G}
    (hm : Moved M S c c' i call r g g') {j : Nat} (hj : j ≠ i) : c'.last? j = c.last? j := by
  simp [Config.last?, hm.log, List.filter_append, Ne.symm hj]

theorem LogOk.resume {c : Config W C R E A T} (hc : c.LogOk) {i : Nat} {p : Process W C R E A T}
    (hp : c.procs[i]? = some p) (call : C) (k : Except E (R call) → Prog C R E A)
    (r : Except E (R call)) (w : W) : (c.resume i p call k r w).LogOk := by
  intro e he
  simp only [Config.resume, List.mem_append, List.mem_singleton, List.length_set] at he ⊢
  rcases he with he | rfl
  · exact hc e he
  · exact (List.getElem?_eq_some_iff.mp hp).1

/-- In a phase that nothing ends in, a process waits for a call that the phase allows. -/
theorem Monitor.Conforms.waits {M : Monitor C R E A T G} {c : Config W C R E A T}
    (hM : M.Conforms c) {i : Nat} {g : G} (hg : M.phase c i = some g) (hfinal : ∀ r, ¬M.final r g) :
    ∃ call, c.next? i = some call ∧ ∀ a, ∃ g', M.next g call a = some g' := by
  obtain ⟨p, hp⟩ : ∃ p, c.procs[i]? = some p :=
    ⟨_, List.getElem?_eq_getElem (Monitor.lt_of_phase hg)⟩
  obtain ⟨g₀, hg₀, hkeeps⟩ := hM i p hp
  cases hg₀.symm.trans hg
  rw [Config.next?, hp]
  cases hprog : p.prog with
  | ret a => rw [hprog] at hkeeps; exact absurd hkeeps (hfinal _)
  | throw e => rw [hprog] at hkeeps; exact absurd hkeeps (hfinal _)
  | call call k =>
    rw [hprog] at hkeeps
    refine ⟨call, ?_, fun a => (hkeeps (.ok a)).imp fun _ h => h.1⟩
    rw [Option.bind_some, hprog]
    rfl

/-- A process waits in a phase that allows the call. -/
theorem Monitor.Conforms.allows {M : Monitor C R E A T G} {c : Config W C R E A T}
    (hM : M.Conforms c) {i : Nat} {call : C} (h : c.next? i = some call) :
    ∃ g, M.phase c i = some g ∧ ∀ a, ∃ g', M.next g call a = some g' := by
  obtain ⟨p, hp, hnext⟩ := Option.bind_eq_some_iff.mp h
  obtain ⟨g, hg, hkeeps⟩ := hM i p hp
  refine ⟨g, hg, fun a => ?_⟩
  cases hprog : p.prog with
  | call call' k =>
    rw [hprog] at hnext hkeeps
    cases hnext
    exact (hkeeps (.ok a)).imp fun _ h => h.1
  | _ =>
    rw [hprog] at hnext
    cases hnext

/-- A process that has replied is in a phase in which it may. -/
theorem Monitor.Conforms.replied {M : Monitor C R E A T G} {c : Config W C R E A T}
    (hM : M.Conforms c) {i : Nat} {a : A} (h : c.reply? i = some a) :
    ∃ g, M.phase c i = some g ∧ M.final (.ok a) g := by
  obtain ⟨prog, hprog, hvalue⟩ := Option.bind_eq_some_iff.mp h
  obtain ⟨p, hp, rfl⟩ := Option.map_eq_some_iff.mp hprog
  obtain ⟨g, hg, hkeeps⟩ := hM i p hp
  refine ⟨g, hg, ?_⟩
  cases hret : p.prog with
  | ret b =>
    rw [hret] at hvalue hkeeps
    cases hvalue
    exact hkeeps
  | _ =>
    rw [hret] at hvalue
    cases hvalue

/-- A process that has ended with an error is in a phase in which it may. -/
theorem Monitor.Conforms.ended {M : Monitor C R E A T G} {c : Config W C R E A T}
    (hM : M.Conforms c) {i : Nat} {e : E} (h : c.error? i = some e) :
    ∃ g, M.phase c i = some g ∧ M.final (.error e) g := by
  obtain ⟨prog, hprog, herror⟩ := Option.bind_eq_some_iff.mp h
  obtain ⟨p, hp, rfl⟩ := Option.map_eq_some_iff.mp hprog
  obtain ⟨g, hg, hkeeps⟩ := hM i p hp
  rw [Prog.eq_throw herror] at hkeeps
  exact ⟨g, hg, hkeeps⟩

/-- A process that waits for nothing has ended in a phase in which it may. -/
theorem Monitor.Conforms.final {M : Monitor C R E A T G} {c : Config W C R E A T}
    (hM : M.Conforms c) {i : Nat} (hi : i < c.procs.length) (h : c.next? i = none) :
    ∃ g, M.phase c i = some g ∧ ((∃ a, c.reply? i = some a ∧ M.final (.ok a) g) ∨
      ∃ e, c.error? i = some e ∧ M.final (.error e) g) := by
  have hp := List.getElem?_eq_getElem hi
  obtain ⟨g, hg, hkeeps⟩ := hM i _ hp
  refine ⟨g, hg, ?_⟩
  rw [Config.next?, hp] at h
  rw [Config.reply?, Config.error?, Config.prog?, hp]
  cases hprog : (c.procs[i]).prog with
  | ret a =>
    rw [hprog] at hkeeps
    exact .inl ⟨a, by simp [hprog, Prog.value?], hkeeps⟩
  | throw e =>
    rw [hprog] at hkeeps
    exact .inr ⟨e, by simp [hprog, Prog.error?], hkeeps⟩
  | call call k => simp [hprog, Prog.next?] at h

/-- A process whose phase allows no call, and no error, has replied. -/
theorem Monitor.Conforms.replies {M : Monitor C R E A T G} {c : Config W C R E A T}
    (hM : M.Conforms c) {i : Nat} {g : G} (hg : M.phase c i = some g)
    (hcall : ∀ call, ∃ a, M.next g call a = none) (herror : ∀ e, ¬M.final (.error e) g) :
    ∃ a, c.reply? i = some a ∧ M.final (.ok a) g := by
  obtain ⟨p, hp⟩ : ∃ p, c.procs[i]? = some p :=
    ⟨_, List.getElem?_eq_getElem (Monitor.lt_of_phase hg)⟩
  obtain ⟨g', hg', hkeeps⟩ := hM i p hp
  cases hg.symm.trans hg'
  cases hprog : p.prog with
  | ret a =>
    rw [hprog] at hkeeps
    refine ⟨a, ?_, hkeeps⟩
    rw [Config.reply?, Config.prog?, hp, Option.map_some, Option.bind_some, hprog]
    rfl
  | throw e =>
    rw [hprog] at hkeeps
    exact absurd hkeeps (herror e)
  | call call k =>
    rw [hprog] at hkeeps
    obtain ⟨a, ha⟩ := hcall call
    obtain ⟨g', hnext, -⟩ := hkeeps (.ok a)
    cases ha.symm.trans hnext

/-- What a pool step is once every process conforms: a move of one process, or new tasks. -/
theorem Monitor.Conforms.moved {M : Monitor C R E A T G} {S : System W C R E A T X V}
    {c : Config W C R E A T} (hM : M.Conforms c) {i : Nat} {p : Process W C R E A T} {call : C}
    {k : Except E (R call) → Prog C R E A} {r : Except E (R call)} {w : W}
    (hp : c.procs[i]? = some p) (hk : p.prog = .call call k) (hr : Answered S i call c.world r w) :
    ∃ g g', Moved M S c (c.resume i p call k r w) i call r g g' ∧ M.Keeps (k r) g' := by
  obtain ⟨g, hg, hwp⟩ := hM i p hp
  rw [hk] at hwp
  have hallowed : ∀ a, ∃ g', M.next g call a = some g' := fun a => (hwp (.ok a)).imp fun _ h => h.1
  obtain ⟨g', hg', hwp⟩ := hwp r
  have htask : ∀ j, (c.resume i p call k r w).task? j = c.task? j := c.task?_resume hp
  obtain ⟨hi, rfl⟩ := List.getElem?_eq_some_iff.mp hp
  refine ⟨g, g', ⟨hr, hallowed, hg', hg, ?_, ?_, rfl, ?_, ?_, htask, ?_, ?_, ⟨k r, ?_, hwp⟩⟩, hwp⟩
  · simp only [Monitor.phase, htask] at hg ⊢
    obtain ⟨t, ht, hg⟩ := Option.bind_eq_some_iff.mp hg
    simp [ht, Config.resume, hg, Monitor.feed, hg']
  · intro j hj
    simp only [Monitor.phase, htask]
    simp only [Config.resume, List.foldl_append, List.foldl_cons, List.foldl_nil, Monitor.feed,
      if_neg (Ne.symm hj)]
  · simp [Config.resume]
  · simp [Config.next?, hi, hk, Prog.next?]
  · intro j
    simp only [Config.born?, Config.resume, List.getElem?_set]
    split
    · subst j; simp [hi]
    · rfl
  · intro j hj
    simp [Config.prog?, Config.resume, List.getElem?_set_ne (Ne.symm hj)]
  · simp [Config.prog?, Config.resume, hi]

namespace Reach

variable {M : Monitor C R E A T G} {S : System W C R E A T X V} {init : W → Prop}
  {P : Guard W C R E A T X V} {c : Config W C R E A T}

theorem conforms_start (hS : M.Sound S) (hM : M.Conforms c) (hlog : c.LogOk) (ts : List T)
    (w : W) : M.Conforms (c.start S ts w) := by
  intro i p hp
  rcases c.start_procs_cases S hp with hp' | ⟨hi, t, _, rfl⟩
  · obtain ⟨g, hg, hwp⟩ := hM i p hp'
    exact ⟨g, by rwa [Monitor.phase_start_of_lt (List.getElem?_eq_some_iff.mp hp').1], hwp⟩
  · exact ⟨M.start t, Monitor.phase_start_new hlog hi hp, hS t⟩

theorem conforms_resume (hM : M.Conforms c) {i : Nat} {p : Process W C R E A T} {call : C}
    {k : Except E (R call) → Prog C R E A} {r : Except E (R call)} {w : W}
    (hp : c.procs[i]? = some p) (hk : p.prog = .call call k) (hr : Answered S i call c.world r w) :
    M.Conforms (c.resume i p call k r w) := by
  obtain ⟨g, g', hm, hwp⟩ := hM.moved hp hk hr
  intro j q hq
  by_cases hj : j = i
  · subst hj
    have hi : j < c.procs.length := (List.getElem?_eq_some_iff.mp hp).1
    simp only [Config.resume, List.getElem?_set_self hi, Option.some.injEq] at hq
    subst hq
    exact ⟨g', hm.after, hwp⟩
  · simp only [Config.resume, List.getElem?_set_ne (Ne.symm hj)] at hq
    obtain ⟨g, hg, hwp⟩ := hM j q hq
    exact ⟨g, by rw [hm.other j hj, hg], hwp⟩

theorem conforms_logOk (hS : M.Sound S) (h : Reach S init P c) : M.Conforms c ∧ c.LogOk := by
  induction h with
  | init => exact ⟨by intro i p hp; simp [Config.initial] at hp, by intro e he; simp [Config.initial] at he⟩
  | step _ _ hl ih =>
    obtain ⟨hM, hlog⟩ := ih
    have hlog' : ∀ ts w, (Config.start S ts w _).LogOk := fun ts w e he => by
      have := hlog e he
      simp only [Config.start, List.length_append]
      omega
    cases hl with
    | spawn => exact ⟨conforms_start hS hM hlog _ _, hlog' _ _⟩
    | env => exact ⟨conforms_start hS hM hlog _ _, hlog' _ _⟩
    | run hp hk h => exact ⟨conforms_resume hM hp hk (.exec h), LogOk.resume hlog hp _ _ _ _⟩
    | fail hp hk h => exact ⟨conforms_resume hM hp hk (.reject h), LogOk.resume hlog hp _ _ _ _⟩

theorem conforms (hS : M.Sound S) (h : Reach S init P c) : M.Conforms c := (h.conforms_logOk hS).1

theorem logOk (hS : M.Sound S) (h : Reach S init P c) : c.LogOk := (h.conforms_logOk hS).2

/-- What `P` allows of a step in which process `i` gets the answer `r`, left open: the label is
`run` when the call was carried out and `fail` when it rejected. -/
inductive Allowed (S : System W C R E A T X V) (P : Guard W C R E A T X V)
    (c : Config W C R E A T) (i : Nat) (call : C) (r : Except E (R call)) (w : W) : Prop where
  | run {x} (h : S.exec i call x c.world = some (w, r)) (hP : P c (.run i x))
  | fail {e} (hr : r = .error e) (h : S.reject i call c.world = some (w, e)) (hP : P c (.fail i))

theorem Allowed.mono {i : Nat} {call : C} {r : Except E (R call)} {w : W}
    (h : Allowed S P c i call r w) {Q : Guard W C R E A T X V} (hPQ : ∀ c l, P c l → Q c l) :
    Allowed S Q c i call r w := by
  cases h with
  | run hx hP => exact .run hx (hPQ _ _ hP)
  | fail hr hx hP => exact .fail hr hx (hPQ _ _ hP)

theorem Allowed.guard {i : Nat} {call : C} {a : R call} {w : W}
    (h : Allowed S P c i call (.ok a) w) : ∃ x, P c (.run i x) := by
  cases h with
  | run _ hP => exact ⟨_, hP⟩
  | fail hr => cases hr

/-- A step is the start of new tasks or a move of a monitor. -/
theorem after_step (hS : M.Sound S) (hc : Reach S init P c) {Q : Guard W C R E A T X V}
    {l : Label T X V} {c' : Config W C R E A T} (hQ : Q c l) (hl : Step S c l c')
    {I : Config W C R E A T → Prop}
    (hspawn : ∀ t, Q c (.spawn t) → S.client t = true → I (c.start S [t] c.world))
    (henv : ∀ v w ts, Q c (.env v) → S.env v c.world = some (w, ts) → I (c.start S ts w))
    (hmove : ∀ c' i call r g g', Allowed S Q c i call r c'.world →
      Moved M S c c' i call r g g' → I c') : I c' := by
  cases hl with
  | spawn ht => exact hspawn _ hQ ht
  | env hv => exact henv _ _ _ hQ hv
  | run hp hk hx =>
    obtain ⟨g, g', hm, -⟩ := (hc.conforms hS).moved hp hk (.exec hx)
    exact hmove _ _ _ _ g g' (.run hx hQ) hm
  | fail hp hk hx =>
    obtain ⟨g, g', hm, -⟩ := (hc.conforms hS).moved hp hk (.reject hx)
    exact hmove _ _ _ _ g g' (.fail rfl hx hQ) hm

/-- The invariant rule. An invariant holds at first, new tasks keep it, and every move of a
monitor keeps it. -/
theorem invariant (hS : M.Sound S) {I : Config W C R E A T → Prop}
    (hinit : ∀ w, init w → I (.initial w))
    (hspawn : ∀ c t, Reach S init P c → I c → P c (.spawn t) → S.client t = true →
      I (c.start S [t] c.world))
    (henv : ∀ c v w ts, Reach S init P c → I c → P c (.env v) → S.env v c.world = some (w, ts) →
      I (c.start S ts w))
    (hmove : ∀ c c' i call r g g', Reach S init P c → I c → Allowed S P c i call r c'.world →
      Moved M S c c' i call r g g' → I c')
    (h : Reach S init P c) : I c := by
  induction h with
  | init h => exact hinit _ h
  | step hc hP hl ih =>
    exact after_step hS hc hP hl (fun t => hspawn _ t hc ih) (fun v w ts => henv _ v w ts hc ih)
      fun c' i call r g g' => hmove _ c' i call r g g' hc ih

/-- The invariant rule for the steps after a state that any run has reached. -/
theorem later (hS : M.Sound S) {Q : Guard W C R E A T X V} {I : Config W C R E A T → Prop}
    (hspawn : ∀ c t, Reach S init anyStep c → I c → Q c (.spawn t) → S.client t = true →
      I (c.start S [t] c.world))
    (henv : ∀ c v w ts, Reach S init anyStep c → I c → Q c (.env v) →
      S.env v c.world = some (w, ts) → I (c.start S ts w))
    (hmove : ∀ c c' i call r g g', Reach S init anyStep c → I c → Allowed S Q c i call r c'.world →
      Moved M S c c' i call r g g' → I c')
    {c' : Config W C R E A T} (hc : Reach S init anyStep c) (hI : I c) (h : Steps S Q c c') :
    Reach S init anyStep c' ∧ I c' := by
  induction h with
  | refl => exact ⟨hc, hI⟩
  | tail _ hl ih =>
    obtain ⟨l, hQ, hl⟩ := hl
    obtain ⟨hr, hI⟩ := ih
    exact ⟨.step hr trivial hl, after_step hS hr hQ hl (fun t => hspawn _ t hr hI)
      (fun v w ts => henv _ v w ts hr hI) fun c' i call r g g' => hmove _ c' i call r g g' hr hI⟩

end Reach

/-! ## Two monitors at once -/

section

variable {H : Type} (M : Monitor C R E A T G) (N : Monitor C R E A T H)

/-- Both monitors read the same answers. -/
def Monitor.both : Monitor C R E A T (G × H) where
  start t := (M.start t, N.start t)
  next g c a := (M.next g.1 c a).bind fun g' => (N.next g.2 c a).map fun h' => (g', h')
  failed g c := (M.failed g.1 c, N.failed g.2 c)
  final r g := M.final r g.1 ∧ N.final r g.2

variable {M N} {S : System W C R E A T X V} {c c' : Config W C R E A T}

namespace Monitor

theorem both_advance {g g' : G × H} {call : C} {r : Except E (R call)}
    (h : (M.both N).advance g call r = some g') :
    M.advance g.1 call r = some g'.1 ∧ N.advance g.2 call r = some g'.2 := by
  cases r with
  | error e => cases h; exact ⟨rfl, rfl⟩
  | ok a =>
    obtain ⟨g₁, hg₁, h⟩ := Option.bind_eq_some_iff.mp h
    obtain ⟨h₁, hh₁, rfl⟩ := Option.map_eq_some_iff.mp h
    exact ⟨hg₁, hh₁⟩

theorem both_keeps {p : Prog C R E A} {g : G} {h : H} (hM : M.Keeps p g) (hN : N.Keeps p h) :
    (M.both N).Keeps p (g, h) := by
  induction p generalizing g h with
  | ret a => exact ⟨hM, hN⟩
  | throw e => exact ⟨hM, hN⟩
  | call call k ih =>
    intro r
    obtain ⟨g', hg, hM⟩ := hM r
    obtain ⟨h', hh, hN⟩ := hN r
    refine ⟨(g', h'), ?_, ih r hM hN⟩
    cases r with
    | error e => cases hg; cases hh; rfl
    | ok a => exact Option.bind_eq_some_iff.mpr ⟨g', hg, Option.map_eq_some_iff.mpr ⟨h', hh, rfl⟩⟩

theorem both_sound (hM : M.Sound S) (hN : N.Sound S) : (M.both N).Sound S :=
  fun t => both_keeps (hM t) (hN t)

theorem both_keeps_fst {p : Prog C R E A} {g : G × H} (h : (M.both N).Keeps p g) :
    M.Keeps p g.1 := by
  induction p generalizing g with
  | ret a => exact h.1
  | throw e => exact h.1
  | call call k ih =>
    intro r
    obtain ⟨g', hg, h⟩ := h r
    exact ⟨g'.1, (both_advance hg).1, ih r h⟩

theorem phase_append {e : Event W C R E} (hlog : c'.log = c.log ++ [e]) {i : Nat}
    (htask : c'.task? i = c.task? i) : M.phase c' i = M.feed i (M.phase c i) e := by
  simp only [phase, htask, hlog, List.foldl_append, List.foldl_cons, List.foldl_nil]
  cases c.task? i with
  | none => simp [feed]
  | some t => rfl

theorem both_feed {i : Nat} {g? : Option (G × H)} {e : Event W C R E} {g : G × H}
    (h : (M.both N).feed i g? e = some g) :
    ∃ g₀, g? = some g₀ ∧ M.feed i (some g₀.1) e = some g.1 ∧ N.feed i (some g₀.2) e = some g.2 := by
  unfold feed at h ⊢
  split at h
  · rename_i hi
    obtain ⟨g₀, hg₀, h⟩ := Option.bind_eq_some_iff.mp h
    simp only [if_pos hi, Option.bind_some]
    exact ⟨g₀, hg₀, both_advance h⟩
  · rename_i hi
    simp only [if_neg hi]
    exact ⟨g, h, rfl, rfl⟩

/-- The phases of the two are those of each. -/
theorem both_phase {i : Nat} {g : G × H} (h : (M.both N).phase c i = some g) :
    M.phase c i = some g.1 ∧ N.phase c i = some g.2 := by
  obtain ⟨t, ht, h⟩ := Option.bind_eq_some_iff.mp h
  simp only [phase, ht, Option.bind_some]
  have hlog : ∀ log : List (Event W C R E), ∀ g,
      log.foldl ((M.both N).feed i) (some ((M.both N).start t)) = some g →
      log.foldl (M.feed i) (some (M.start t)) = some g.1 ∧
        log.foldl (N.feed i) (some (N.start t)) = some g.2 := by
    intro log
    induction log using List.reverseRecOn with
    | nil =>
      rintro _ h
      cases h
      exact ⟨rfl, rfl⟩
    | append_singleton log e ih =>
      intro g h
      simp only [List.foldl_append, List.foldl_cons, List.foldl_nil] at h ⊢
      obtain ⟨g₀, hg₀, hM, hN⟩ := both_feed h
      rw [(ih g₀ hg₀).1, (ih g₀ hg₀).2]
      exact ⟨hM, hN⟩
  exact hlog _ _ h

end Monitor

theorem Moved.fst {i : Nat} {call : C} {r : Except E (R call)} {g g' : G × H}
    (hm : Moved (M.both N) S c c' i call r g g') : Moved M S c c' i call r g.1 g'.1 where
  answers := hm.answers
  allowed a := by
    obtain ⟨g₁, hg₁⟩ := hm.allowed a
    obtain ⟨g₂, hg₂, -⟩ := Option.bind_eq_some_iff.mp hg₁
    exact ⟨g₂, hg₂⟩
  next := (Monitor.both_advance hm.next).1
  before := (Monitor.both_phase hm.before).1
  after := (Monitor.both_phase hm.after).1
  other j hj := by
    rw [Monitor.phase_append hm.log (hm.task j), Monitor.feed, if_neg (Ne.symm hj)]
  log := hm.log
  length := hm.length
  waits := hm.waits
  task := hm.task
  born := hm.born
  prog := hm.prog
  keeps := hm.keeps.imp fun _ h => ⟨h.1, Monitor.both_keeps_fst h.2⟩

end

end Async
