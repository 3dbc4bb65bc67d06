import LmsBackend.Exams.OneAttempt
import LmsBackend.Exams.SessionKeys

/-!
# The acknowledged autosave that wrote last

An autosave writes Redis first and Postgres second. The two stores keep the same
order when no autosave writes Redis while another is between its two writes.
-/

open Async Store

namespace LmsBackend.Exams

/-- The call writes answers to the row of the session. -/
def Call.mirrors (sessionId : Id) : Call → Bool
  | .testSessionUpdateSnapshot id _ => id = sessionId
  | _ => false

/-- An autosave of the session is between its two writes. -/
def Mirroring (c : Pool) (sessionId : Id) : Prop :=
  ∃ p ∈ c.procs, p.prog.next?.any (·.mirrors sessionId) = true

instance (c : Pool) (sessionId : Id) : Decidable (Mirroring c sessionId) :=
  inferInstanceAs (Decidable (∃ p ∈ c.procs, _))

/-- While an autosave of the session is between its two writes, no other one writes Redis, and no
handler of the session reads ACTIVE. -/
def SavesInOrder (sessionId : Id) (c : Pool) : PoolLabel → Prop
  | .run i _ =>
    match c.task? i, c.next? i with
    | some (.autosave id _ _), some (.redisSetKeepTtlXx _ _) =>
      id = sessionId → ¬Mirroring c sessionId
    | some (.handleExpiry .session id), some (.testSessionFindOne _) =>
      id = sessionId → Mirroring c sessionId →
        (c.world.sessions.get sessionId).all fun row => row.status ≠ .active
    | _, _ => True
  | _ => True

instance (sessionId : Id) : ∀ c l, Decidable (SavesInOrder sessionId c l) := fun c l => by
  match l with
  | .run i _ =>
    dsimp only [SavesInOrder]
    generalize c.task? i = t, c.next? i = call
    casesm* Option _, Task, ExpiryType
    all_goals first | infer_instance | (casesm Call <;> infer_instance)
  | .spawn _ | .fail _ | .env _ => exact .isTrue trivial

/-- The writes of autosaves at the session key. -/
def saves (sessionId : Id) (log : List PoolEvent) : List PoolEvent :=
  log.filter fun e => (e.call.saves sessionId e.res).isSome

/-- The answers of the acknowledged autosave whose Redis write came last. The session begins
without answers. -/
def lastSaved (sessionId : Id) (c : Pool) : Answers :=
  (((saves sessionId c.log).filter fun e => c.reply? e.proc = some .saved).getLast?.bind
    fun e => e.call.saves sessionId e.res).getD []

theorem saves_append (sessionId : Id) (log : List PoolEvent) (e : PoolEvent) :
    saves sessionId (log ++ [e]) =
      saves sessionId log ++ if (e.call.saves sessionId e.res).isSome then [e] else [] := by
  rw [saves, List.filter_append, List.filter_singleton, Bool.cond_eq_ite]
  rfl

/-- Only a write to Redis leads an autosave to its write to Postgres. -/
theorem Phase.mirror_next {g : Phase} {c : Call} {a : Resp c} {sessionId : Id}
    {session : TestSession} {answers : Answers}
    (hn : g.nextOk c a = some (.saveMirror sessionId session answers)) :
    c.saves sessionId (.ok a) = some answers := by
  cases c with
  | redisSetKeepTtlXx key value =>
    cases g with
    | saveSet sessionId' session' answers' data =>
      simp only [nextOk] at hn
      split at hn
      · rename_i he
        obtain ⟨rfl, rfl⟩ := he
        cases a with
        | false => cases hn
        | true =>
          cases hn
          exact if_pos rfl
      · cases hn
    | _ => cases hn
  | _ =>
    simp only [nextOk, read] at hn
    repeat' split at hn
    all_goals first | (cases hn; done) | skip
    all_goals
      cases hn
      rename_i h
      cases h

theorem Phase.mirror_failed {g : Phase} {c : Call} {sessionId : Id} {session : TestSession}
    {answers : Answers} : g.failed c ≠ .saveMirror sessionId session answers := by
  unfold failed
  split
  · simp
  · simp
  · simp
  · split <;> simp

/-- What the log says of the writes of autosaves. -/
structure SaveLog (sessionId : Id) (c : Pool) : Prop where
  task : ∀ e ∈ saves sessionId c.log, ∃ userId answers,
    c.task? e.proc = some (.autosave sessionId userId answers)
  /-- An autosave between its two writes was the last to write. -/
  pending : ∀ i session answers, monitor.phase c i = some (.saveMirror sessionId session answers) →
    ∃ e, (saves sessionId c.log).getLast? = some e ∧ e.proc = i ∧
      e.call.saves sessionId e.res = some answers
  fresh : sessionId ∉ c.world.issued → saves sessionId c.log = []

section

variable [Bcrypt] {P : Guard World Call Resp Err Reply Task Choice EnvEvent} {c c' : Pool}
  {sessionId : Id} {i : Nat} {call : Call} {r : Except Err (Resp call)} {g g' : Phase}

theorem Reachable.mirroring (h : Reachable P c) {session : TestSession} {answers : Answers}
    (hg : monitor.phase c i = some (.saveMirror sessionId session answers)) :
    Mirroring c sessionId := by
  obtain ⟨p, hp, hnext⟩ := Option.bind_eq_some_iff.mp (Reachable.waits_saveMirror h hg)
  exact ⟨p, List.mem_of_getElem? hp, by rw [hnext]; exact decide_eq_true rfl⟩

theorem SaveLog.move (hI : SaveLog sessionId c) (hb : Base c) (hk : KeyOnce sessionId c)
    (horigin : ∀ t, c.task? i = some t → g.of t)
    (hmirror : ∀ j session answers,
      monitor.phase c j = some (.saveMirror sessionId session answers) → Mirroring c sessionId)
    (hguard : ∀ a, r = .ok a → (call.saves sessionId r).isSome → ¬Mirroring c sessionId)
    (hm : Moved monitor examSystem c c' i call r g g') : SaveLog sessionId c' := by
  have hsaves := saves_append sessionId c.log ⟨i, call, r, c.world, c'.world⟩
  rw [← hm.log] at hsaves
  refine ⟨fun e he => ?_, fun j session answers hj => ?_, fun hfresh => ?_⟩
  · rw [hsaves] at he
    rcases List.mem_append.mp he with he | he
    · obtain ⟨userId, answers, ht⟩ := hI.task e he
      exact ⟨userId, answers, (hm.task _).trans ht⟩
    · split at he
      · rename_i hsome
        cases List.mem_singleton.mp he
        obtain ⟨t, ht⟩ := Monitor.task_of_phase hm.before
        have hof := horigin t ht
        cases Moved.sessionKey hm sessionId with
        | same _ hs => rw [hs] at hsome; cases hsome
        | start => cases hsome
        | save session answers data =>
          obtain ⟨userId, rfl⟩ := hof
          exact ⟨userId, answers, (hm.task _).trans ht⟩
        | delete => cases hsome
      · cases he
  · rcases hm.phase_cases hj with ⟨rfl, rfl⟩ | ⟨-, hj⟩
    · have hn := hm.next
      cases r with
      | error e => exact absurd (Option.some.inj hn) Phase.mirror_failed
      | ok a =>
        have hs := Phase.mirror_next hn
        refine ⟨⟨j, call, .ok a, c.world, c'.world⟩, ?_, rfl, hs⟩
        rw [hsaves, if_pos (by rw [hs]; rfl), List.getLast?_concat]
    · obtain ⟨e, hlast, hproc, hs⟩ := hI.pending j session answers hj
      refine ⟨e, ?_, hproc, hs⟩
      rw [hsaves, if_neg, List.append_nil, hlast]
      intro hsome
      cases r with
      | error e => cases call <;> cases hsome
      | ok a => exact hguard a rfl hsome (hmirror j session answers hj)
  · have hold : sessionId ∉ c.world.issued := fun h => hfresh ((hb.db hm).issued_mono h)
    rw [hsaves, hI.fresh hold, List.nil_append, if_neg]
    intro hsome
    cases Moved.sessionKey hm sessionId with
    | same _ hs => rw [hs] at hsome; cases hsome
    | start => cases hsome
    | save _ _ _ hlive => exact hold (hk.live hlive).1
    | delete => cases hsome

theorem SaveLog.start (hI : SaveLog sessionId c) (hlog : c.LogOk) (ts : List Task) {w : World}
    (hw : w.tables = c.world.tables) : SaveLog sessionId (c.start examSystem ts w) := by
  refine ⟨fun e he => ?_, fun i session answers hi => ?_, fun hfresh => ?_⟩
  · obtain ⟨userId, answers, ht⟩ := hI.task e he
    refine ⟨userId, answers, ?_⟩
    rw [Config.task?, c.start_procs_of_lt _ (hlog e (List.mem_filter.mp he).1)]
    exact ht
  · rcases Monitor.phase_start_cases hlog hi with hi | ⟨-, t, -, he⟩
    · exact hI.pending i session answers hi
    · cases t with
      | handleExpiry type => cases type <;> cases he
      | _ => cases he
  · rw [Config.start_world, show w.issued = c.world.issued from congrArg Tables.issued hw] at hfresh
    exact hI.fresh hfresh

/-! ## The last save, step by step -/

theorem Moved.reply_other (hm : Moved monitor examSystem c c' i call r g g') {j : Nat}
    (hj : j ≠ i) : c'.reply? j = c.reply? j := by
  rw [Config.reply?, hm.prog j hj, Config.reply?]

theorem Moved.reply_before (hm : Moved monitor examSystem c c' i call r g g') :
    c.reply? i = none := by
  obtain ⟨p, hp, hnext⟩ := Option.bind_eq_some_iff.mp hm.waits
  rw [Config.reply?, Config.prog?, hp]
  cases hprog : p.prog with
  | call => simp [hprog, Prog.value?]
  | _ => rw [hprog] at hnext; cases hnext

theorem Moved.reply_after (hm : Moved monitor examSystem c c' i call r g g') :
    c'.reply? i = some .saved ↔ g' = .saved := by
  obtain ⟨p, hp, hkeeps⟩ := hm.keeps
  rw [Config.reply?, hp, Option.bind_some]
  constructor
  · intro h
    cases p with
    | ret a => cases h; exact saved_of_keeps hkeeps
    | throw e => cases h
    | call call k => cases h
  · rintro rfl
    rw [keeps_saved.mp hkeeps]
    rfl

/-- A step in which no autosave of the session is acknowledged leaves the last save. -/
theorem lastSaved_same (hm : Moved monitor examSystem c c' i call r g g')
    (hnot : g' = .saved → ∀ e ∈ saves sessionId c'.log, e.proc ≠ i) :
    lastSaved sessionId c' = lastSaved sessionId c := by
  have hi : ∀ e ∈ saves sessionId c'.log, e.proc = i → c'.reply? e.proc ≠ some .saved := by
    rintro e he rfl hr
    exact hnot ((Moved.reply_after hm).mp hr) e he rfl
  have hfilter : (saves sessionId c'.log).filter (fun e => c'.reply? e.proc = some .saved) =
      (saves sessionId c.log).filter fun e => c.reply? e.proc = some .saved := by
    have hsaves := saves_append sessionId c.log ⟨i, call, r, c.world, c'.world⟩
    rw [← hm.log] at hsaves
    have hnew : (if (call.saves sessionId r).isSome then
        [(⟨i, call, r, c.world, c'.world⟩ : PoolEvent)] else []).filter
        (fun e => c'.reply? e.proc = some .saved) = [] := by
      split
      · rename_i hsome
        have := hi _ (by rw [hsaves, if_pos hsome]; exact List.mem_append_right _ (.head _)) rfl
        simpa using this
      · rfl
    rw [hsaves, List.filter_append, hnew, List.append_nil]
    refine List.filter_congr fun e he => ?_
    by_cases hp : e.proc = i
    · have hold : c.reply? e.proc ≠ some .saved := by rw [hp, Moved.reply_before hm]; simp
      have hnew := hi e (by rw [hsaves]; exact List.mem_append_left _ he) hp
      rw [decide_eq_false hold, decide_eq_false hnew]
    · rw [Moved.reply_other hm hp]
  rw [lastSaved, lastSaved, hfilter]

/-- An acknowledged autosave was the last to write. -/
theorem lastSaved_acknowledged (hI : SaveLog sessionId c)
    (hm : Moved monitor examSystem c c' i call r g g') {session : TestSession} {answers : Answers}
    (hg : g = .saveMirror sessionId session answers) (hg' : g' = .saved)
    (hquiet : call.saves sessionId r = none) : lastSaved sessionId c' = answers := by
  subst hg
  obtain ⟨e, hlast, hproc, hs⟩ := hI.pending i session answers hm.before
  have hsaves := saves_append sessionId c.log ⟨i, call, r, c.world, c'.world⟩
  rw [← hm.log, if_neg (by simp [hquiet]), List.append_nil] at hsaves
  obtain ⟨l, hl⟩ := List.getLast?_eq_some_iff.mp hlast
  have hr : c'.reply? e.proc = some .saved := by rw [hproc]; exact (Moved.reply_after hm).mpr hg'
  rw [lastSaved, hsaves, hl, List.filter_append, List.filter_singleton]
  simp [hr, hs]

theorem lastSaved_start (hlog : c.LogOk) (ts : List Task) (w : World) :
    lastSaved sessionId (c.start examSystem ts w) = lastSaved sessionId c := by
  rw [lastSaved, lastSaved, Config.start_log]
  have : (saves sessionId c.log).filter
      (fun e => (c.start examSystem ts w).reply? e.proc = some .saved) =
      (saves sessionId c.log).filter fun e => c.reply? e.proc = some .saved := by
    refine List.filter_congr fun e he => ?_
    have hlt := hlog e (List.mem_filter.mp he).1
    rw [Config.reply?, Config.prog?, c.start_procs_of_lt _ hlt, Config.reply?, Config.prog?]
  rw [this]

end

end LmsBackend.Exams
