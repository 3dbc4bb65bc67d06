import LmsBackend.Exams.ExamGateway

/-!
# One timer for each session

A timer is cleared only once the key of its session is at its end. So whoever
starts another one has read the key before, and the new timer never finds it.
But the timers are registered under the `sessionId` of the messages, so this is
so only as long as each of them calls the session by its string.
-/

namespace LmsBackend.ExamGateway

/-! ## The key of a session -/

/-- Its time is up. From here on PTTL says so. -/
def Key.Spent (now : Nat) : Key → Prop
  | .unset => False
  | .until _ expiresAt => expiresAt ≤ now
  | .deleted => True

theorem spent_of_gone {now : Nat} {key : Key} (h : key.gone now = true) : key.Spent now := by
  rcases key with _ | ⟨userId, expiresAt⟩ | _
  · cases h
  · exact Nat.le_of_lt (of_decide_eq_true h)
  · trivial

theorem pttl_nonpos_of_spent {now : Nat} {key : Key} (h : key.Spent now) : key.pttl now ≤ 0 := by
  rcases key with _ | ⟨userId, expiresAt⟩ | _
  · exact h.elim
  · simp only [Key.Spent] at h
    simp only [Key.pttl]
    split <;> omega
  · exact Int.negSucc_le_zero 1

/-- Of a key that was there at some time. -/
theorem spent_of_pttl {now : Nat} {key : Key} (hset : key ≠ .unset) (h : key.pttl now ≤ 0) :
    key.Spent now := by
  rcases key with _ | ⟨userId, expiresAt⟩ | _
  · exact absurd rfl hset
  · simp only [Key.pttl] at h
    simp only [Key.Spent]
    split at h <;> omega
  · trivial

/-! ## The gateway -/

/-- It announces this threshold to this session. -/
def Event.warns (sessionId : Id) (threshold : Nat) : Event → Bool
  | .warning s _ t => s = sessionId ∧ t = threshold
  | _ => false

namespace Gateway

/-- Interval `n` is not the first one of its session. -/
def Late (g : Gateway) (n : Nat) : Prop :=
  ∃ m < n, ∃ i j : Interval, g.intervals[m]? = some i ∧ g.intervals[n]? = some j ∧ i.session = j.session

/-- How often a threshold has been announced to a session. -/
def warnings (g : Gateway) (sessionId : Id) (threshold : Nat) : Nat :=
  g.events.countP (Event.warns sessionId threshold)

structure Inv (spent : Id → Prop) (g : Gateway) : Prop where
  registered : ∀ (n : Nat) (i : Interval), g.intervals[n]? = some i → i.live = true →
    g.timers (.string i.session) = some n
  running : ∀ (ref : SessionRef) (n : Nat), g.timers ref = some n →
    ∃ i : Interval, g.intervals[n]? = some i ∧ i.live = true ∧ .string i.session = ref
  stopped : ∀ (n : Nat) (i : Interval), g.intervals[n]? = some i → i.live = false → spent i.session
  late : ∀ (n : Nat) (i : Interval), g.intervals[n]? = some i → g.Late n →
    i.warnedThresholds = [] ∧ spent i.session
  once : ∀ sessionId threshold, g.warnings sessionId threshold ≤ 1
  warned : ∀ sessionId threshold, 0 < g.warnings sessionId threshold →
    ∃ (n : Nat) (i : Interval), g.intervals[n]? = some i ∧ i.session = sessionId ∧
      threshold ∈ i.warnedThresholds

variable {spent spent' : Id → Prop} {g : Gateway} {sessionId : Id} {ref : SessionRef} {n : Nat}

theorem Inv.mono (h : g.Inv spent) (hspent : ∀ sessionId, spent sessionId → spent' sessionId) :
    g.Inv spent' where
  registered := h.registered
  running := h.running
  stopped n i hi hlive := hspent _ (h.stopped n i hi hlive)
  late n i hi hlate := ⟨(h.late n i hi hlate).1, hspent _ (h.late n i hi hlate).2⟩
  once := h.once
  warned := h.warned

/-- What keeps the sessions of the intervals keeps which of them are late. -/
theorem late_congr {g' : Gateway}
    (h : g'.intervals.map Interval.session = g.intervals.map Interval.session) :
    g'.Late n ↔ g.Late n := by
  have hone : ∀ {g g' : Gateway}, g'.intervals.map Interval.session =
      g.intervals.map Interval.session → g.Late n → g'.Late n := by
    rintro g g' h ⟨m, hm, i, j, hi, hj, hsame⟩
    have hget : ∀ {k : Nat} {i : Interval}, g.intervals[k]? = some i →
        ∃ i', g'.intervals[k]? = some i' ∧ i'.session = i.session := by
      intro k i hk
      have hk' : (g'.intervals.map Interval.session)[k]? = some i.session := by
        rw [h, List.getElem?_map, hk]
        rfl
      rw [List.getElem?_map] at hk'
      exact Option.map_eq_some_iff.mp hk'
    obtain ⟨i', hi', hsi⟩ := hget hi
    obtain ⟨j', hj', hsj⟩ := hget hj
    exact ⟨m, hm, i', j', hi', hj', by rw [hsi, hsj, hsame]⟩
  exact ⟨hone h.symm, hone h⟩

theorem map_session_modify (l : List Interval) (n : Nat) (f : Interval → Interval)
    (hf : ∀ i, (f i).session = i.session) :
    (l.modify n f).map Interval.session = l.map Interval.session := by
  refine List.ext_getElem? fun k => ?_
  rw [List.getElem?_map, List.getElem?_map, List.getElem?_modify]
  rcases l[k]? with _ | i
  · rfl
  · by_cases hk : n = k
    · simp [hk, hf]
    · simp [hk]

theorem emit_inv (h : g.Inv spent) {e : Event} (he : ∀ s r t, e ≠ .warning s r t) :
    (g.emit e).Inv spent := by
  have hsame : ∀ s t, (g.emit e).warnings s t = g.warnings s t := by
    intro s t
    have hnone : e.warns s t = false := by
      rcases e with _ | ⟨s', r, t'⟩ | _
      · rfl
      · exact absurd rfl (he s' r t')
      · rfl
    rw [warnings, emit, List.countP_append, List.countP_singleton, hnone]
    rfl
  exact ⟨h.registered, h.running, h.stopped, h.late, fun s t => (hsame s t).le.trans (h.once s t),
    fun s t hpos => h.warned s t (by rwa [hsame] at hpos)⟩

theorem modify_some {l : List Interval} {f : Interval → Interval} {k : Nat} {i : Interval}
    (h : l[k]? = some i) : (l.modify n f)[k]? = some (if n = k then f i else i) := by
  rw [List.getElem?_modify, h]
  by_cases hk : n = k
  · simp [hk]
  · simp [hk]

theorem modify_cases {l : List Interval} {f : Interval → Interval} {k : Nat} {i' : Interval}
    (h : (l.modify n f)[k]? = some i') :
    ∃ i, l[k]? = some i ∧ i' = if n = k then f i else i := by
  rcases hk : l[k]? with _ | i
  · rw [List.getElem?_modify, hk] at h
    cases h
  · rw [modify_some hk] at h
    exact ⟨i, rfl, (Option.some.inj h).symm⟩

/-! ### A new timer -/

theorem late_startTimer_of_lt (hn : n < g.intervals.length) (h : (g.startTimer ref).Late n) :
    g.Late n := by
  obtain ⟨m, hm, i, j, hi, hj, hsame⟩ := h
  rw [startTimer, List.getElem?_append_left (Nat.lt_trans hm hn)] at hi
  rw [startTimer, List.getElem?_append_left hn] at hj
  exact ⟨m, hm, i, j, hi, hj, hsame⟩

/-- An interval of a gateway with one more is one from before, or the new one. -/
theorem startTimer_cases {i : Interval} (h : (g.startTimer ref).intervals[n]? = some i) :
    (n < g.intervals.length ∧ g.intervals[n]? = some i) ∨
      (n = g.intervals.length ∧ i = ⟨ref, true, []⟩) := by
  rw [startTimer] at h
  dsimp only at h
  by_cases hn : n < g.intervals.length
  · rw [List.getElem?_append_left hn] at h
    exact .inl ⟨hn, h⟩
  · have hlt := (List.getElem?_eq_some_iff.mp h).1
    rw [List.length_append, List.length_singleton] at hlt
    have hn : n = g.intervals.length := by omega
    subst hn
    rw [List.getElem?_concat_length] at h
    exact .inr ⟨rfl, (Option.some.inj h).symm⟩

theorem startTimer_some {i : Interval} (h : g.intervals[n]? = some i) :
    (g.startTimer ref).intervals[n]? = some i := by
  rw [startTimer, List.getElem?_append_left (List.getElem?_eq_some_iff.mp h).1, h]

/-- If the session has had a timer, its key is at its end. -/
theorem startTimer_inv (h : g.Inv spent) (hnone : g.timers (.string sessionId) = none) :
    (g.startTimer (.string sessionId)).Inv spent where
  registered n i hi hlive := by
    dsimp only [startTimer]
    rcases startTimer_cases hi with ⟨_, hi⟩ | ⟨rfl, rfl⟩
    · have hreg := h.registered n i hi hlive
      rw [Function.update_of_ne fun hsame => ?_]
      · exact hreg
      · rw [hsame, hnone] at hreg
        cases hreg
    · exact Function.update_self ..
  running ref n hn := by
    dsimp only [startTimer] at hn
    by_cases hs : ref = .string sessionId
    · subst hs
      rw [Function.update_self] at hn
      cases hn
      exact ⟨_, List.getElem?_concat_length, rfl, rfl⟩
    · rw [Function.update_of_ne hs] at hn
      obtain ⟨i, hi, hrest⟩ := h.running ref n hn
      exact ⟨i, startTimer_some hi, hrest⟩
  stopped n i hi hlive := by
    rcases startTimer_cases hi with ⟨_, hi⟩ | ⟨_, rfl⟩
    · exact h.stopped n i hi hlive
    · cases hlive
  late n i hi hlate := by
    rcases startTimer_cases hi with ⟨hn, hi⟩ | ⟨rfl, rfl⟩
    · exact h.late n i hi (late_startTimer_of_lt hn hlate)
    · obtain ⟨m, hm, i, j, hi, hj, hsame⟩ := hlate
      refine ⟨rfl, ?_⟩
      rcases startTimer_cases hj with ⟨hlt, _⟩ | ⟨_, rfl⟩
      · exact absurd hlt (Nat.lt_irrefl _)
      rcases startTimer_cases hi with ⟨_, hi⟩ | ⟨hlt, _⟩
      swap
      · omega
      -- The one before is not live, as the session has none registered.
      rcases hlive : i.live with _ | _
      · exact hsame ▸ h.stopped m i hi hlive
      · have hreg := h.registered m i hi hlive
        rw [show i.session = sessionId from hsame, hnone] at hreg
        cases hreg
  once := h.once
  warned s t hpos := by
    obtain ⟨n, i, hi, hrest⟩ := h.warned s t hpos
    exact ⟨n, i, startTimer_some hi, hrest⟩

theorem joined_inv (h : g.Inv spent) : (g.joined (.string sessionId)).Inv spent := by
  unfold joined
  split
  · exact h
  · exact startTimer_inv h (Option.not_isSome_iff_eq_none.mp ‹_›)

/-! ### The end of a timer -/

theorem clearTimer_inv (h : g.Inv spent) (hspent : spent ref.text) :
    (g.clearTimer ref).Inv spent := by
  unfold clearTimer
  rcases htimer : g.timers ref with _ | c
  · exact h
  obtain ⟨cleared, hcleared, _, rfl⟩ := h.running ref c htimer
  dsimp only
  refine ⟨fun n i' hi' hlive => ?_, fun ref' n hn => ?_, fun n i' hi' hlive => ?_,
    fun n i' hi' hlate => ?_, h.once, fun s t hpos => ?_⟩
  · obtain ⟨i, hi, rfl⟩ := modify_cases hi'
    by_cases hc : c = n
    · rw [if_pos hc] at hlive
      cases hlive
    · rw [if_neg hc] at hlive ⊢
      have hreg := h.registered n i hi hlive
      dsimp only
      rw [Function.update_of_ne fun hsame => ?_]
      · exact hreg
      · rw [hsame, htimer] at hreg
        exact hc (Option.some.inj hreg)
  · dsimp only at hn
    by_cases hs : ref' = .string cleared.session
    · rw [hs, Function.update_self] at hn
      cases hn
    · rw [Function.update_of_ne hs] at hn
      obtain ⟨i, hi, hlive, hown⟩ := h.running ref' n hn
      have hne : c ≠ n := by
        rintro rfl
        rw [hcleared] at hi
        cases hi
        exact hs hown.symm
      exact ⟨i, (modify_some hi).trans (by rw [if_neg hne]), hlive, hown⟩
  · obtain ⟨i, hi, rfl⟩ := modify_cases hi'
    by_cases hc : c = n
    · subst hc
      rw [hcleared] at hi
      cases hi
      rw [if_pos rfl]
      exact hspent
    · rw [if_neg hc] at hlive ⊢
      exact h.stopped n i hi hlive
  · obtain ⟨i, hi, rfl⟩ := modify_cases hi'
    obtain ⟨hwarned, hspent⟩ := h.late n i hi
      ((late_congr (map_session_modify _ c Interval.clear fun _ => rfl)).mp hlate)
    split
    · exact ⟨hwarned, hspent⟩
    · exact ⟨hwarned, hspent⟩
  · obtain ⟨n, i, hi, hown, hmem⟩ := h.warned s t hpos
    refine ⟨n, _, modify_some hi, ?_⟩
    split
    · exact ⟨hown, hmem⟩
    · exact ⟨hown, hmem⟩

theorem emitSessionExpired_inv (h : g.Inv spent) (hspent : spent sessionId) :
    (g.emitSessionExpired sessionId).Inv spent :=
  clearTimer_inv (emit_inv h fun _ _ _ => nofun) hspent

/-! ### Warnings -/

theorem warnings_append (g' : Gateway) (s : Id) (r : Int) (t : Nat) (s' : Id) (t' : Nat)
    (h : g'.events = g.events ++ [.warning s r t]) :
    g'.warnings s' t' = g.warnings s' t' + if s = s' ∧ t = t' then 1 else 0 := by
  rw [warnings, warnings, h, List.countP_append, List.countP_singleton]
  congr 1
  by_cases hsame : s = s' ∧ t = t'
  · simp [Event.warns, hsame]
  · simp [Event.warns, hsame]

/-- Only the first interval of a session announces anything, and what it has announced is in its
set. -/
theorem warn_inv (h : g.Inv spent) (hfirst : ¬g.Late n) (remainingSeconds : Int)
    (threshold : Nat) : (warn n remainingSeconds g threshold).Inv spent := by
  unfold warn
  rcases hn : g.intervals[n]? with _ | i
  · exact h
  dsimp only
  split
  swap
  · exact h
  have hnew : threshold ∉ i.warnedThresholds := (‹_ ∧ _›).2
  have hlateIff : ∀ k, Gateway.Late { g with
      intervals := g.intervals.modify n fun i => i.warn threshold
      events := g.events ++ [.warning i.session remainingSeconds threshold] } k ↔ g.Late k :=
    fun k => late_congr (map_session_modify _ n _ fun _ => rfl)
  have hzero : g.warnings i.session threshold = 0 := by
    by_contra hpos
    obtain ⟨m, j, hj, hsame, hmem⟩ := h.warned _ _ (Nat.pos_of_ne_zero hpos)
    rcases Nat.lt_trichotomy m n with hlt | rfl | hlt
    · exact hfirst ⟨m, hlt, j, i, hj, hn, hsame⟩
    · rw [hn] at hj
      cases hj
      exact hnew hmem
    · have hnone := (h.late m j hj ⟨n, hlt, i, j, hn, hj, hsame.symm⟩).1
      rw [hnone] at hmem
      cases hmem
  have hkept (k : Nat) (i' : Interval)
      (hi' : (g.intervals.modify n fun i => i.warn threshold)[k]? = some i') :
      ∃ j, g.intervals[k]? = some j ∧ i'.session = j.session ∧ i'.live = j.live := by
    obtain ⟨j, hj, rfl⟩ := modify_cases hi'
    refine ⟨j, hj, ?_⟩
    split
    · exact ⟨rfl, rfl⟩
    · exact ⟨rfl, rfl⟩
  refine ⟨fun k i' hi' hlive => ?_, fun s k hk => ?_, fun k i' hi' hlive => ?_,
    fun k i' hi' hlate => ?_, fun s t => ?_, fun s t hpos => ?_⟩
  · obtain ⟨j, hj, hid, hsame⟩ := hkept k i' hi'
    rw [hid]
    exact h.registered k j hj (hsame ▸ hlive)
  · obtain ⟨j, hj, hlive, hown⟩ := h.running s k hk
    refine ⟨_, modify_some hj, ?_⟩
    split
    · exact ⟨hlive, hown⟩
    · exact ⟨hlive, hown⟩
  · obtain ⟨j, hj, hid, hsame⟩ := hkept k i' hi'
    rw [hid]
    exact h.stopped k j hj (hsame ▸ hlive)
  · have hlate := (hlateIff k).mp hlate
    obtain ⟨j, hj, rfl⟩ := modify_cases hi'
    by_cases hk : n = k
    · exact absurd (hk ▸ hlate) hfirst
    · rw [if_neg hk]
      exact h.late k j hj hlate
  · rw [warnings_append _ i.session remainingSeconds threshold s t rfl]
    split
    · obtain ⟨rfl, rfl⟩ := ‹_ ∧ _›
      rw [hzero]
    · exact h.once s t
  · rw [warnings_append _ i.session remainingSeconds threshold s t rfl] at hpos
    split at hpos
    · obtain ⟨rfl, rfl⟩ := ‹_ ∧ _›
      refine ⟨n, _, modify_some hn, ?_⟩
      rw [if_pos rfl]
      exact ⟨rfl, List.mem_append_right _ (List.mem_singleton.mpr rfl)⟩
    · obtain ⟨m, j, hj, hown, hmem⟩ := h.warned s t hpos
      refine ⟨m, _, modify_some hj, ?_⟩
      split
      · exact ⟨hown, List.mem_append_left _ hmem⟩
      · exact ⟨hown, hmem⟩

theorem late_warn (remainingSeconds : Int) (threshold : Nat) {k : Nat} :
    (warn n remainingSeconds g threshold).Late k ↔ g.Late k := by
  unfold warn
  rcases g.intervals[n]? with _ | i
  · exact Iff.rfl
  dsimp only
  split
  · exact late_congr (map_session_modify _ n (fun i => i.warn threshold) fun _ => rfl)
  · exact Iff.rfl

theorem tick_inv {pttlMs : Int} (h : g.Inv spent) (hspent : pttlMs ≤ 0 → spent ref.text)
    (hfirst : 0 < pttlMs → ¬g.Late n) : (g.tick n ref pttlMs).Inv spent := by
  unfold tick
  split
  · exact clearTimer_inv h (hspent ‹_›)
  · have hfirst := hfirst (Int.not_le.mp ‹_›)
    have hloop : ∀ thresholds : List Nat, ∀ g : Gateway, g.Inv spent → ¬g.Late n →
        (thresholds.foldl (warn n (ceilSeconds pttlMs)) g).Inv spent := by
      intro thresholds
      induction thresholds with
      | nil => exact fun g hg _ => hg
      | cons threshold thresholds ih =>
        intro g hg hn
        exact ih _ (warn_inv hg hn _ threshold) fun hlate => hn ((late_warn _ threshold).mp hlate)
    exact hloop _ _ (emit_inv h fun _ _ _ => nofun) hfirst

/-! ### Which sessions have had timers -/

def sessions (g : Gateway) : List Id := g.intervals.map Interval.session

theorem sessions_clearTimer : (g.clearTimer ref).sessions = g.sessions := by
  unfold clearTimer
  rcases g.timers ref with _ | c
  · rfl
  · exact map_session_modify _ c Interval.clear fun _ => rfl

theorem sessions_warn (remainingSeconds : Int) (threshold : Nat) :
    (warn n remainingSeconds g threshold).sessions = g.sessions := by
  unfold warn
  rcases g.intervals[n]? with _ | i
  · rfl
  dsimp only
  split
  · exact map_session_modify _ n (fun i => i.warn threshold) fun _ => rfl
  · rfl

theorem sessions_tick {pttlMs : Int} : (g.tick n ref pttlMs).sessions = g.sessions := by
  unfold tick
  split
  · exact sessions_clearTimer
  · refine List.foldlRecOn _ _ (motive := fun g' : Gateway => g'.sessions = g.sessions) rfl
      fun g' hg' threshold _ => ?_
    exact (sessions_warn _ threshold).trans hg'

/-- What happens to a gateway keeps the sessions of its intervals, and which of them are late. -/
structure Grows (g g' : Gateway) (sessionId : Id) : Prop where
  sessions : g'.sessions = g.sessions ∨ g'.sessions = g.sessions ++ [sessionId]
  late : ∀ n, n < g.sessions.length → g'.Late n → g.Late n

theorem grows_of_sessions_eq {g' : Gateway} (h : g'.sessions = g.sessions) :
    Grows g g' sessionId :=
  ⟨.inl h, fun _ _ hlate => (late_congr h).mp hlate⟩

theorem grows_joined : Grows g (g.joined ref) ref.text := by
  unfold joined
  split
  · exact grows_of_sessions_eq rfl
  · refine ⟨.inr ?_, fun n hn hlate => late_startTimer_of_lt ?_ hlate⟩
    · exact List.map_append
    · rwa [sessions, List.length_map] at hn

theorem sessions_of_interval {i : Interval} (h : g.intervals[n]? = some i) :
    g.sessions[n]? = some i.session := by
  rw [sessions, List.getElem?_map, h]
  rfl

/-! ### A session that is not called by its string -/

/-- Its timer is not registered as the one of the session. -/
theorem joined_unregistered (h : g.Inv spent) (href : ref.isString = false) :
    ∃ (n : Nat) (i : Interval), (g.joined ref).intervals[n]? = some i ∧ i.live = true ∧
      (g.joined ref).timers (.string i.session) ≠ some n := by
  have hnone : g.timers ref = none := by
    by_contra hsome
    obtain ⟨n, hn⟩ := Option.ne_none_iff_exists'.mp hsome
    obtain ⟨i, _, _, rfl⟩ := h.running ref n hn
    cases href
  have hjoined : g.joined ref = g.startTimer ref := by
    unfold joined
    rw [hnone]
    rfl
  refine ⟨g.intervals.length, ⟨ref, true, []⟩, ?_, rfl, fun hreg => ?_⟩
  · rw [hjoined]
    exact List.getElem?_concat_length
  · have hne : .string ref.text ≠ ref := fun hsame => by
      rw [← hsame] at href
      cases href
    rw [hjoined] at hreg
    dsimp only [startTimer, Interval.session] at hreg
    rw [Function.update_of_ne hne] at hreg
    obtain ⟨i, hi, _⟩ := h.running _ _ hreg
    rw [List.getElem?_eq_none (Nat.le_refl _)] at hi
    cases hi

end Gateway

/-! ## Every state -/

namespace State

def Spent (st : State) (sessionId : Id) : Prop := (st.keys sessionId).Spent st.now

/-- What a callback has read is still true, as far as it goes. -/
def TickOk (st : State) (t : Tick) : Prop :=
  st.gateway.sessions[t.interval]? = some t.sessionId.text ∧
    ∀ pttlMs, t.reading.pttlMs = some pttlMs →
      (pttlMs ≤ 0 → st.Spent t.sessionId.text) ∧ (0 < pttlMs → ¬st.gateway.Late t.interval)

/-- Who is past the check has read a key. -/
def JoinOk (st : State) (j : Join) : Prop :=
  (∀ userId, j.reading.data = some (some userId) → st.keys j.sessionId.text ≠ .unset) ∧
    (j.joining = true → ∃ userId, j.reading.data = some (some userId))

structure Inv (st : State) : Prop where
  gateway : st.gateway.Inv st.Spent
  set : ∀ sessionId ∈ st.gateway.sessions, st.keys sessionId ≠ .unset
  joins : ∀ j ∈ st.joins, st.JoinOk j
  ticks : ∀ t ∈ st.ticks, st.TickOk t

variable {st : State}

/-- Time passes, keys are set and deleted. -/
theorem inv_later {now : Nat} {keys : Id → Key} (h : st.Inv)
    (hset : ∀ sessionId, st.keys sessionId ≠ .unset → keys sessionId ≠ .unset)
    (hspent : ∀ sessionId, st.Spent sessionId → (keys sessionId).Spent now) :
    Inv { st with now := now, keys := keys } where
  gateway := h.gateway.mono hspent
  set sessionId hmem := hset sessionId (h.set sessionId hmem)
  joins j hj := ⟨fun userId hdata => hset _ ((h.joins j hj).1 userId hdata), (h.joins j hj).2⟩
  ticks t ht := by
    obtain ⟨hown, hread⟩ := h.ticks t ht
    exact ⟨hown, fun p hp => ⟨fun hle => hspent _ ((hread p hp).1 hle), (hread p hp).2⟩⟩

theorem inv_joins {joins : List Join} {messages : Nat} (h : st.Inv)
    (hjoins : ∀ j ∈ joins, st.JoinOk j) : Inv { st with joins := joins, messages := messages } :=
  ⟨h.gateway, h.set, hjoins, h.ticks⟩

theorem inv_ticks {ticks : List Tick} (h : st.Inv) (hticks : ∀ t ∈ ticks, st.TickOk t) :
    Inv { st with ticks := ticks } :=
  ⟨h.gateway, h.set, h.joins, hticks⟩

theorem inv_setGateway {g : Gateway} {sessionId : Id} (h : st.Inv) (hg : g.Inv st.Spent)
    (hgrows : Gateway.Grows st.gateway g sessionId) (hset : st.keys sessionId ≠ .unset) :
    (st.setGateway g).Inv where
  gateway := hg
  set s hs := by
    rcases hgrows.sessions with hsame | hnew
    · exact h.set s (hsame ▸ hs)
    · rw [show (st.setGateway g).gateway.sessions = _ from hnew] at hs
      rcases List.mem_append.mp hs with hs | hs
      · exact h.set s hs
      · exact List.mem_singleton.mp hs ▸ hset
  joins := h.joins
  ticks t ht := by
    obtain ⟨hown, hread⟩ := h.ticks t ht
    have hlt := (List.getElem?_eq_some_iff.mp hown).1
    refine ⟨?_, fun p hp => ⟨(hread p hp).1, fun hpos hlate => (hread p hp).2 hpos ?_⟩⟩
    · rcases hgrows.sessions with hsame | hnew
      · exact (congrArg (·[t.interval]?) hsame).trans hown
      · refine (congrArg (·[t.interval]?) hnew).trans ?_
        rw [List.getElem?_append_left hlt, hown]
    · exact hgrows.late _ hlt hlate

theorem inv_start (now : Nat) : (State.start now).Inv where
  gateway := ⟨by simp [State.start], by simp [State.start], by simp [State.start],
    by simp [State.start], by simp [State.start, Gateway.warnings],
    by simp [State.start, Gateway.warnings]⟩
  set := by simp [State.start, Gateway.sessions]
  joins := by simp [State.start]
  ticks := by simp [State.start]

theorem inv_setJoin {x : Join} (h : st.Inv) (hx : st.JoinOk x) (n : Nat) :
    (st.setJoin n x).Inv := by
  refine inv_joins h fun j hj => ?_
  rcases List.mem_or_eq_of_mem_set hj with hj | rfl
  · exact h.joins j hj
  · exact hx

theorem inv_setTick {x : Tick} (h : st.Inv) (hx : st.TickOk x) (n : Nat) :
    (st.setTick n x).Inv := by
  refine inv_ticks h fun t ht => ?_
  rcases List.mem_or_eq_of_mem_set ht with ht | rfl
  · exact h.ticks t ht
  · exact hx

theorem inv_endJoin (h : st.Inv) (n : Nat) : (st.endJoin n).Inv :=
  inv_joins h fun j hj => h.joins j (List.mem_of_mem_eraseIdx hj)

theorem inv_endTick (h : st.Inv) (n : Nat) : (st.endTick n).Inv :=
  inv_ticks h fun t ht => h.ticks t (List.mem_of_mem_eraseIdx ht)

theorem key_set_of_data {now : Nat} {key : Key} {userId : Id}
    (h : key.data now = some userId) : key ≠ .unset := by
  rintro rfl
  cases h

theorem set_of_tick {t : Tick} (h : st.Inv) (ht : st.TickOk t) :
    st.keys t.sessionId.text ≠ .unset :=
  h.set _ (List.mem_of_getElem? ht.1)

/-- What a callback reads now. -/
theorem tickOk_reads {t : Tick} (h : st.Inv) (ht : st.TickOk t) (data : Option (Option Id)) :
    st.TickOk ⟨t.interval, t.sessionId, ⟨data, some ((st.keys t.sessionId.text).pttl st.now)⟩⟩ := by
  have hset := set_of_tick h ht
  refine ⟨ht.1, fun pttlMs hp => ?_⟩
  cases hp
  refine ⟨fun hle => spent_of_pttl hset hle, fun hpos hlate => ?_⟩
  obtain ⟨i, hi, hown⟩ := Option.map_eq_some_iff.mp
    ((List.getElem?_map ..).symm.trans (show (st.gateway.intervals.map _)[_]? = _ from ht.1))
  have hspent := (h.gateway.late _ i hi hlate).2
  rw [hown] at hspent
  exact absurd hpos (Int.not_lt.mpr (pttl_nonpos_of_spent hspent))

/-- A guard: a message that gets to the timers calls its session by a string. -/
def ByString (st : State) : Action → Prop
  | .joinEnds n => ∀ j ∈ st.joins[n]?, j.sessionId.isString = true
  | _ => True

instance : ∀ (st : State) (a : Action), Decidable (st.ByString a)
  | st, .joinEnds n => inferInstanceAs (Decidable (∀ j ∈ st.joins[n]?, j.sessionId.isString = true))
  | _, .wait _ | _, .openSession _ _ _ | _, .deleteSession _ | _, .join _ _ | _, .joinData _
  | _, .joinPttl _ | _, .joinChecks _ | _, .joinFails _ | _, .fire _ | _, .tickData _
  | _, .tickPttl _ | _, .tickEnds _ | _, .tickFails _ | _, .sessionExpired _ => .isTrue trivial

theorem step_inv {st' : State} {a : Action} (hstring : st.ByString a) (h : st.step a = some st')
    (hi : st.Inv) : st'.Inv := by
  cases a with
  | wait ms =>
    cases h
    refine inv_later hi (fun _ hset => hset) fun sessionId hspent => ?_
    unfold Spent at hspent
    rcases hkey : st.keys sessionId with _ | ⟨userId, expiresAt⟩ | _
    · rw [hkey] at hspent
      exact hspent.elim
    · rw [hkey] at hspent
      exact Nat.le_trans hspent (Nat.le_add_right _ _)
    · trivial
  | openSession sessionId userId ttlMs =>
    dsimp only [step] at h
    split at h
    · cases h
      refine inv_later hi (fun s hset => ?_) fun s hspent => ?_
      · by_cases hs : s = sessionId
        · rw [hs, Function.update_self]
          exact Key.noConfusion
        · rwa [Function.update_of_ne hs]
      · by_cases hs : s = sessionId
        · rw [hs, Spent, ‹st.keys sessionId = .unset›] at hspent
          exact hspent.elim
        · rwa [Function.update_of_ne hs]
    · cases h
  | deleteSession sessionId =>
    dsimp only [step] at h
    split at h
    · cases h
    · cases h
      refine inv_later hi (fun s hset => ?_) fun s hspent => ?_
      · by_cases hs : s = sessionId
        · rw [hs, Function.update_self]
          exact Key.noConfusion
        · rwa [Function.update_of_ne hs]
      · by_cases hs : s = sessionId
        · rw [hs, Function.update_self]
          trivial
        · rwa [Function.update_of_ne hs]
  | join userId sessionId =>
    cases h
    refine inv_joins hi fun j hj => ?_
    rcases List.mem_append.mp hj with hj | hj
    · exact hi.joins j hj
    · rw [List.mem_singleton.mp hj]
      refine ⟨fun _ hdata => ?_, fun hjoining => ?_⟩
      · cases hdata
      · cases hjoining
  | joinData n =>
    dsimp only [step] at h
    split at h
    · cases h
      refine inv_setJoin hi ⟨fun userId hdata => ?_, fun hjoining => ?_⟩ n
      · exact key_set_of_data (Option.some.inj hdata)
      · cases hjoining
    · cases h
  | joinPttl n =>
    dsimp only [step] at h
    split at h
    · cases h
      have hok := hi.joins _ (List.mem_of_getElem? ‹st.joins[n]? = _›)
      refine inv_setJoin hi ?_ n
      refine ⟨hok.1, fun hjoining => ?_⟩
      cases hjoining
    · cases h
  | joinChecks n =>
    dsimp only [step] at h
    split at h
    · split at h
      · cases h
        exact inv_endJoin hi n
      · cases h
        have hok := hi.joins _ (List.mem_of_getElem? ‹st.joins[n]? = _›)
        refine inv_setJoin hi ?_ n
        exact ⟨hok.1, fun _ => ⟨_, congrArg some (not_not.mp ‹_›)⟩⟩
    · cases h
  | joinEnds n =>
    dsimp only [step] at h
    split at h
    · cases h
      have hjoin := ‹st.joins[n]? = _›
      have hok := hi.joins _ (List.mem_of_getElem? hjoin)
      obtain ⟨userId, hdata⟩ := hok.2 rfl
      refine inv_setGateway (inv_endJoin hi n) ?_ Gateway.grows_joined (hok.1 userId hdata)
      have href := SessionRef.eq_string (hstring _ hjoin)
      dsimp only at href
      rw [href]
      exact Gateway.joined_inv hi.gateway
    · cases h
  | joinFails n =>
    obtain ⟨_, _, rfl⟩ := Option.map_eq_some_iff.mp h
    exact inv_endJoin hi n
  | fire interval =>
    dsimp only [step] at h
    split at h
    · cases h
      refine inv_ticks hi fun t ht => ?_
      rcases List.mem_append.mp ht with ht | ht
      · exact hi.ticks t ht
      · rw [List.mem_singleton.mp ht]
        exact ⟨Gateway.sessions_of_interval ‹_›, fun _ hp => by cases hp⟩
    · cases h
  | tickData n =>
    dsimp only [step] at h
    split at h
    · cases h
      have hok := hi.ticks _ (List.mem_of_getElem? ‹st.ticks[n]? = _›)
      refine inv_setTick hi ?_ n
      exact ⟨hok.1, hok.2⟩
    · cases h
  | tickPttl n =>
    dsimp only [step] at h
    split at h
    · cases h
      have hok := hi.ticks _ (List.mem_of_getElem? ‹st.ticks[n]? = _›)
      exact inv_setTick hi (tickOk_reads hi hok _) n
    · cases h
  | tickEnds n =>
    dsimp only [step] at h
    split at h
    · cases h
      have hok := hi.ticks _ (List.mem_of_getElem? ‹st.ticks[n]? = _›)
      obtain ⟨hspent, hfirst⟩ := hok.2 _ rfl
      have hset := set_of_tick hi hok
      exact inv_setGateway (inv_endTick hi n) (Gateway.tick_inv hi.gateway hspent hfirst)
        (Gateway.grows_of_sessions_eq Gateway.sessions_tick) hset
    · cases h
  | tickFails n =>
    obtain ⟨_, _, rfl⟩ := Option.map_eq_some_iff.mp h
    exact inv_endTick hi n
  | sessionExpired sessionId =>
    dsimp only [step] at h
    split at h
    · cases h
      have hspent : st.Spent sessionId := spent_of_gone ‹_›
      have hgrows : Gateway.Grows st.gateway (st.gateway.emitSessionExpired sessionId) sessionId :=
        Gateway.grows_of_sessions_eq Gateway.sessions_clearTimer
      refine inv_setGateway hi (Gateway.emitSessionExpired_inv hi.gateway hspent) hgrows
        fun hunset => ?_
      rw [Spent, hunset] at hspent
      exact hspent
    · cases h

end State

theorem Reachable.inv {st : State} (h : Reachable State.ByString st) : st.Inv := by
  induction h with
  | start now => exact State.inv_start now
  | step _ hstring hstep ih => exact State.step_inv hstring hstep ih

/-- A live interval is the registered one of its session, so there is one at most. And no session
gets a warning twice. -/
structure State.TimersOk (st : State) : Prop where
  registered : ∀ (n : Nat) (i : Interval), st.gateway.intervals[n]? = some i → i.live = true →
    st.gateway.timers (.string i.session) = some n
  alone : ∀ (n n' : Nat) (i i' : Interval), st.gateway.intervals[n]? = some i →
    st.gateway.intervals[n']? = some i' → i.live = true → i'.live = true →
    i.session = i'.session → n = n'
  once : ∀ sessionId threshold, st.gateway.warnings sessionId threshold ≤ 1

theorem State.Inv.timersOk {st : State} (h : st.Inv) : st.TimersOk := by
  obtain ⟨hregistered, _, _, _, honce, _⟩ := h.gateway
  refine ⟨hregistered, fun n n' i i' hi hi' hlive hlive' hsame => ?_, honce⟩
  have hn := hregistered n i hi hlive
  rw [hsame, hregistered n' i' hi' hlive'] at hn
  exact (Option.some.inj hn).symm

/-- A message that calls its session by no string leaves a timer that is not registered for it. -/
theorem State.not_timersOk {st st' : State} {a : Action} (hi : st.Inv)
    (hstep : st.step a = some st') (hstring : ¬st.ByString a) : ¬st'.TimersOk := by
  intro hok
  cases a with
  | joinEnds n =>
    dsimp only [step] at hstep
    split at hstep
    · rename_i userId ref reading hjoin
      cases hstep
      have href : ref.isString = false := by
        by_contra hcalled
        refine hstring fun j hj => ?_
        cases hjoin.symm.trans hj
        exact Bool.of_not_eq_false hcalled
      obtain ⟨m, i, hm, hlive, hother⟩ := Gateway.joined_unregistered hi.gateway href
      exact hother (hok.registered m i hm hlive)
    · cases hstep
  | _ => exact hstring trivial

/-- While every message that gets to the timers calls its session by a string, the timers are as
they should be. The first one that does not leaves them otherwise. -/
theorem timers_ok {st : State} (h : Reachable State.ByString st) :
    st.TimersOk ∧ ∀ a st', st.step a = some st' → (st'.TimersOk ↔ st.ByString a) := by
  refine ⟨h.inv.timersOk, fun a st' hstep => ⟨fun hok => ?_, fun hstring => ?_⟩⟩
  · by_contra hstring
    exact State.not_timersOk h.inv hstep hstring hok
  · exact (State.step_inv hstring hstep h.inv).timersOk

/-! ## A timer that is started again -/

/-- Carries out the actions, as long as the guard allows them. -/
def State.run (guard : State → Action → Prop) [∀ st a, Decidable (guard st a)] (st : State)
    (actions : List Action) : Option State :=
  actions.foldlM (fun st a => if guard st a then st.step a else none) st

theorem reachable_run {guard : State → Action → Prop} [∀ st a, Decidable (guard st a)]
    {st st' : State} {actions : List Action} (h : Reachable guard st)
    (hrun : st.run guard actions = some st') : Reachable guard st' := by
  induction actions generalizing st with
  | nil =>
    cases hrun
    exact h
  | cons a actions ih =>
    rw [State.run, List.foldlM_cons] at hrun
    obtain ⟨next, hnext, hrest⟩ := Option.bind_eq_some_iff.mp hrun
    split at hnext
    · exact ih (.step h ‹_› hnext) hrest
    · cases hnext

/-- A second socket has read the key before it expires, and so has a callback that is slow. -/
def restart : List Action := [
  .openSession "s" "u" 1000,
  .join "u" (.string "s"), .joinData 0, .joinPttl 0, .joinChecks 0, .joinEnds 0,
  .fire 0, .tickData 0, .tickPttl 0,
  .join "u" (.string "s"), .joinData 0, .joinPttl 0, .joinChecks 0,
  .wait 2000, .sessionExpired "s", .joinEnds 0, .tickEnds 0]

theorem timers_ok_restart :
    ∃ st, (State.start 0).run State.ByString restart = some st ∧ st.TimersOk := by
  have hsome : ((State.start 0).run State.ByString restart).isSome = true := by decide
  obtain ⟨st, hst⟩ := Option.isSome_iff_exists.mp hsome
  exact ⟨st, hst, (timers_ok (reachable_run (.start 0) hst)).1⟩

def anyAction (_ : State) (_ : Action) : Prop := True

instance (st : State) (a : Action) : Decidable (anyAction st a) := .isTrue trivial

/-- Two messages `{ sessionId: ["s"] }` of the student. -/
def arrays : List Action := [
  .openSession "s" "u" 1000,
  .join "u" (.object "s"), .joinData 0, .joinPttl 0, .joinChecks 0, .joinEnds 0,
  .join "u" (.object "s"), .joinData 0, .joinPttl 0, .joinChecks 0, .joinEnds 0]

/-- The second message does not find the timer of the first one. -/
theorem two_timers : ¬∀ st, Reachable anyAction st → st.TimersOk := by
  intro hall
  have hrun : ((State.start 0).run anyAction arrays).any (fun st =>
      st.gateway.intervals = [⟨.object "s" 0, true, []⟩, ⟨.object "s" 1, true, []⟩]) = true := by
    decide
  obtain ⟨st, hst, hintervals⟩ := (Option.any_eq_true _ _).mp hrun
  have hok := hall st (reachable_run (.start 0) hst)
  have hintervals := of_decide_eq_true hintervals
  have hsame := hok.alone 0 1 ⟨.object "s" 0, true, []⟩ ⟨.object "s" 1, true, []⟩
    (by rw [hintervals]; rfl) (by rw [hintervals]; rfl) rfl rfl rfl
  cases hsame

end LmsBackend.ExamGateway
