import LmsBackend.Exams.World

/-! # `RedisService` and `TestSessionService` -/

open Async Store

namespace LmsBackend.Exams

/-- An async function of the exam code. -/
abbrev Promise := Prog Call Resp Err

def await (c : Call) : Promise (Resp c) := Prog.await c

/-! ## `RedisService` -/

namespace RedisService

/-- SET key to JSON-serialized value with an absolute TTL in seconds. -/
def setJson (key : String) (value : Json) (ttlSeconds : Int) : Promise Unit :=
  await (.redisSet key value ttlSeconds)

/-- Overwrite the JSON value while KEEPING the existing TTL. -/
def setJsonKeepTtl (key : String) (value : Json) : Promise Bool :=
  await (.redisSetKeepTtlXx key value)

/-- GET and deserialize. What is stored is always JSON, so the parse error path is left out. -/
def getJson (key : String) : Promise (Option Json) := await (.redisGet key)

/-- Atomically GET and DELETE (single GETDEL command). -/
def getDelJson (key : String) : Promise (Option Json) := await (.redisGetdel key)

def pttl (key : String) : Promise Int := await (.redisPttl key)

def del (key : String) : Promise Unit := await (.redisDel key)

end RedisService

/-! ## `TestSessionService` -/

namespace TestSessionService

open RedisService

/-- Create a new Redis exam session with the given TTL. -/
def start (data : ExamSessionInfo) (ttlSeconds : Int) : Promise Unit :=
  setJson (sessionKey data.sessionId) (.session { data with answers := [] }) ttlSeconds

/-- Persist the latest answer snapshot WITHOUT touching the TTL. -/
def autosave (sessionId : Id) (answers : Answers) : Promise Bool := do
  let key := sessionKey sessionId
  let existing ← getJson key
  match existing.bind Json.session? with
  | none => pure false
  | some data => setJsonKeepTtl key (.session { data with answers := answers })

/-- Read session data plus the remaining TTL in milliseconds. -/
def getSession (sessionId : Id) : Promise (Option ExamSessionData × Int) := do
  let key := sessionKey sessionId
  -- `Promise.all` sends both commands on one connection, in this order.
  let data ← getJson key
  let pttlMs ← pttl key
  pure (data.bind Json.session?, pttlMs)

/-- Delete the active session key. -/
def deleteSession (sessionId : Id) : Promise Unit := del (sessionKey sessionId)

/-- Open a 2-minute grace window after session expiry. -/
def startGrace (sessionId : Id) (snapshot : Answers) : Promise Unit :=
  setJson (graceKey sessionId) (.grace snapshot) graceWindowSeconds

/-- Atomically read and delete the grace-window key. -/
def consumeGrace (sessionId : Id) : Promise (Option Answers) := do
  let data ← getDelJson (graceKey sessionId)
  pure (data.bind Json.grace?)

/-- Non-destructive grace-window check. -/
def hasGrace (sessionId : Id) : Promise Bool := do
  let pttl ← pttl (graceKey sessionId)
  pure (0 < pttl)

end TestSessionService

end LmsBackend.Exams
