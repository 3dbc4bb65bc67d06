import LmsBackend.Exams.Entities
import Mathlib.Data.List.Basic
import Mathlib.Logic.Function.Basic

/-!
# The timers of the gateway

`ExamGateway` on one instance: the handlers of `join_session`, the callbacks of the
intervals and `emitSessionExpired`, which all share the map `timers`. A handler and a
callback run from one `await` to the next without another in between.
-/

namespace LmsBackend.ExamGateway

def warningThresholds : List Nat := [600, 300]

/-! ## What a message calls a session -/

/-- A `sessionId` as it is sent. Nothing checks that it is a string. -/
inductive Sent where
  | string (s : Id)
  /-- A number, a boolean, `null` or `undefined`. -/
  | primitive (text : Id)
  /-- An array or an object. -/
  | object (text : Id)
  deriving DecidableEq, Repr

/-- A `sessionId` as a key of a `Map`. An object is the same as no other: `made` tells the messages
apart. -/
inductive SessionRef where
  | string (s : Id)
  | primitive (text : Id)
  | object (text : Id) (made : Nat)
  deriving DecidableEq, Repr

def Sent.received (made : Nat) : Sent → SessionRef
  | string s => .string s
  | primitive text => .primitive text
  | object text => .object text made

namespace SessionRef

/-- `${sessionId}`, in a key of Redis and in the name of a room. -/
def text : SessionRef → Id
  | string s | primitive s | object s _ => s

def isString : SessionRef → Bool
  | string _ => true
  | _ => false

@[simp] theorem text_string (s : Id) : (string s).text = s := rfl

theorem eq_string {r : SessionRef} (h : r.isString = true) : r = .string r.text := by
  cases r with
  | string s => rfl
  | _ => cases h

end SessionRef

/-! ## Intervals -/

/-- What `setInterval` has made, with the set that its callback closes over. -/
structure Interval where
  sessionId : SessionRef
  live : Bool
  warnedThresholds : List Nat
  deriving DecidableEq, Repr

/-- The session that it reads and announces. -/
def Interval.session (i : Interval) : Id := i.sessionId.text

def Interval.clear (i : Interval) : Interval := { i with live := false }

def Interval.warn (i : Interval) (threshold : Nat) : Interval :=
  { i with warnedThresholds := i.warnedThresholds ++ [threshold] }

/-- What the room of a session gets. -/
inductive Event where
  | timerTick (sessionId : Id) (remainingSeconds : Int)
  | warning (sessionId : Id) (remainingSeconds : Int) (threshold : Nat)
  | sessionExpired (sessionId : Id)
  deriving DecidableEq, Repr

/-- The id of an interval is its place in the list. -/
structure Gateway where
  intervals : List Interval
  timers : SessionRef → Option Nat
  events : List Event

namespace Gateway

def emit (g : Gateway) (e : Event) : Gateway := { g with events := g.events ++ [e] }

def startTimer (g : Gateway) (sessionId : SessionRef) : Gateway where
  intervals := g.intervals ++ [⟨sessionId, true, []⟩]
  timers := Function.update g.timers sessionId (some g.intervals.length)
  events := g.events

def clearTimer (g : Gateway) (sessionId : SessionRef) : Gateway :=
  match g.timers sessionId with
  | none => g
  | some intervalId =>
    { g with
      intervals := g.intervals.modify intervalId Interval.clear
      timers := Function.update g.timers sessionId none }

/-- The handler of the key's expiry has the id as a string. -/
def emitSessionExpired (g : Gateway) (sessionId : Id) : Gateway :=
  (g.emit (.sessionExpired sessionId)).clearTimer (.string sessionId)

/-- One round of the loop over the thresholds, in the callback of interval `n`. -/
def warn (n : Nat) (remainingSeconds : Int) (g : Gateway) (threshold : Nat) : Gateway :=
  match g.intervals[n]? with
  | none => g
  | some i =>
    if remainingSeconds ≤ threshold ∧ threshold ∉ i.warnedThresholds then
      { g with
        intervals := g.intervals.modify n fun i => i.warn threshold
        events := g.events ++ [.warning i.session remainingSeconds threshold] }
    else g

/-- `Math.ceil(pttlMs / 1000)` -/
def ceilSeconds (pttlMs : Int) : Int := (pttlMs + 999) / 1000

/-- The callback of interval `n`, once `getSession` has answered. -/
def tick (g : Gateway) (n : Nat) (sessionId : SessionRef) (pttlMs : Int) : Gateway :=
  if pttlMs ≤ 0 then g.clearTimer sessionId
  else
    warningThresholds.foldl (warn n (ceilSeconds pttlMs))
      (g.emit (.timerTick sessionId.text (ceilSeconds pttlMs)))

/-- `handleJoinSession`, after `socket.join`. -/
def joined (g : Gateway) (sessionId : SessionRef) : Gateway :=
  if (g.timers sessionId).isSome then g else g.startTimer sessionId

end Gateway

/-! ## Redis -/

/-- `exam:session:<id>`, which is set once, with an expiry that nothing moves. -/
inductive Key where
  | unset
  | until (userId : Id) (expiresAt : Nat)
  | deleted
  deriving DecidableEq, Repr

/-- GET: the `userId` of the data. -/
def Key.data (now : Nat) : Key → Option Id
  | .until userId expiresAt => if now ≤ expiresAt then some userId else none
  | _ => none

/-- PTTL -/
def Key.pttl (now : Nat) : Key → Int
  | .until _ expiresAt => if now ≤ expiresAt then (expiresAt - now : Int) else -2
  | _ => -2

/-- The key was there, and is there no more. -/
def Key.gone (now : Nat) : Key → Bool
  | .unset => false
  | .until _ expiresAt => expiresAt < now
  | .deleted => true

/-! ## What runs -/

/-- The answers of the two commands of `getSession`, as far as they are there. -/
structure Reading where
  data : Option (Option Id)
  pttlMs : Option Int
  deriving DecidableEq, Repr

def Reading.start : Reading := ⟨none, none⟩

structure Join where
  userId : Id
  sessionId : SessionRef
  reading : Reading
  /-- It waits for `socket.join`, no longer for `getSession`. -/
  joining : Bool
  deriving DecidableEq, Repr

structure Tick where
  interval : Nat
  sessionId : SessionRef
  reading : Reading
  deriving DecidableEq, Repr

structure State where
  now : Nat
  keys : Id → Key
  gateway : Gateway
  joins : List Join
  ticks : List Tick
  /-- How many messages have come. -/
  messages : Nat

def State.start (now : Nat) : State := ⟨now, fun _ => .unset, ⟨[], fun _ => none, []⟩, [], [], 0⟩

inductive Action where
  | wait (ms : Nat)
  | openSession (sessionId userId : Id) (ttlMs : Nat)
  | deleteSession (sessionId : Id)
  /-- A message from a socket of the user. -/
  | join (userId : Id) (sessionId : Sent)
  | joinData (n : Nat)
  | joinPttl (n : Nat)
  /-- `getSession` has answered. -/
  | joinChecks (n : Nat)
  /-- `socket.join` is done. -/
  | joinEnds (n : Nat)
  | joinFails (n : Nat)
  /-- An interval is due. -/
  | fire (interval : Nat)
  | tickData (n : Nat)
  | tickPttl (n : Nat)
  | tickEnds (n : Nat)
  | tickFails (n : Nat)
  | sessionExpired (sessionId : Id)
  deriving DecidableEq, Repr

namespace State

def setJoin (st : State) (n : Nat) (j : Join) : State := { st with joins := st.joins.set n j }

def endJoin (st : State) (n : Nat) : State := { st with joins := st.joins.eraseIdx n }

def setTick (st : State) (n : Nat) (t : Tick) : State := { st with ticks := st.ticks.set n t }

def endTick (st : State) (n : Nat) : State := { st with ticks := st.ticks.eraseIdx n }

def setGateway (st : State) (g : Gateway) : State := { st with gateway := g }

def setKey (st : State) (sessionId : Id) (key : Key) : State :=
  { st with keys := Function.update st.keys sessionId key }

/-- `none` where the action cannot happen. -/
def step (st : State) : Action → Option State
  | .wait ms => some { st with now := st.now + ms }
  | .openSession sessionId userId ttlMs =>
    if st.keys sessionId = .unset then
      some (st.setKey sessionId (.until userId (st.now + ttlMs)))
    else none
  | .deleteSession sessionId =>
    if st.keys sessionId = .unset then none else some (st.setKey sessionId .deleted)
  | .join userId sessionId =>
    some { st with
      joins := st.joins ++ [⟨userId, sessionId.received st.messages, .start, false⟩]
      messages := st.messages + 1 }
  | .joinData n =>
    match st.joins[n]? with
    | some ⟨userId, sessionId, ⟨none, pttlMs⟩, false⟩ =>
      let data := (st.keys sessionId.text).data st.now
      some (st.setJoin n ⟨userId, sessionId, ⟨some data, pttlMs⟩, false⟩)
    | _ => none
  | .joinPttl n =>
    match st.joins[n]? with
    | some ⟨userId, sessionId, ⟨data, none⟩, false⟩ =>
      let pttlMs := (st.keys sessionId.text).pttl st.now
      some (st.setJoin n ⟨userId, sessionId, ⟨data, some pttlMs⟩, false⟩)
    | _ => none
  | .joinChecks n =>
    match st.joins[n]? with
    | some ⟨userId, sessionId, ⟨some data, some pttlMs⟩, false⟩ =>
      -- 'Session not found or does not belong to this user'
      if data ≠ some userId then some (st.endJoin n)
      else some (st.setJoin n ⟨userId, sessionId, ⟨some data, some pttlMs⟩, true⟩)
    | _ => none
  | .joinEnds n =>
    match st.joins[n]? with
    | some ⟨_, sessionId, _, true⟩ =>
      some ((st.endJoin n).setGateway (st.gateway.joined sessionId))
    | _ => none
  | .joinFails n => st.joins[n]?.map fun _ => st.endJoin n
  | .fire interval =>
    match st.gateway.intervals[interval]? with
    | some ⟨sessionId, true, _⟩ =>
      some { st with ticks := st.ticks ++ [⟨interval, sessionId, .start⟩] }
    | _ => none
  | .tickData n =>
    match st.ticks[n]? with
    | some ⟨interval, sessionId, ⟨none, pttlMs⟩⟩ =>
      let data := (st.keys sessionId.text).data st.now
      some (st.setTick n ⟨interval, sessionId, ⟨some data, pttlMs⟩⟩)
    | _ => none
  | .tickPttl n =>
    match st.ticks[n]? with
    | some ⟨interval, sessionId, ⟨data, none⟩⟩ =>
      let pttlMs := (st.keys sessionId.text).pttl st.now
      some (st.setTick n ⟨interval, sessionId, ⟨data, some pttlMs⟩⟩)
    | _ => none
  | .tickEnds n =>
    match st.ticks[n]? with
    | some ⟨interval, sessionId, ⟨some _, some pttlMs⟩⟩ =>
      some ((st.endTick n).setGateway (st.gateway.tick interval sessionId pttlMs))
    | _ => none
  | .tickFails n => st.ticks[n]?.map fun _ => st.endTick n
  | .sessionExpired sessionId =>
    if (st.keys sessionId).gone st.now then
      some (st.setGateway (st.gateway.emitSessionExpired sessionId))
    else none

end State

/-- What any order of actions that the guard allows can lead to. -/
inductive Reachable (guard : State → Action → Prop) : State → Prop where
  | start (now : Nat) : Reachable guard (.start now)
  | step {st st' : State} {a : Action} :
    Reachable guard st → guard st a → st.step a = some st' → Reachable guard st'

end LmsBackend.ExamGateway
