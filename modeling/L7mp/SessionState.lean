import Mathlib.Data.Int.Notation
import Mathlib.Data.List.Basic

/-! Sessions and their stages, as `session.js` keeps them. Streams are numbered in the
order in which the session obtains them: the source stream is 0. -/
namespace L7mp

/-- `Stage.status`; `finalizing` is tested by `Stage.connect` and never assigned. -/
inductive StageStatus
  | init | connected | ready | disconnected | retrying | finalizing | ended
  deriving DecidableEq, Repr

inductive SessionStatus
  | init | connected | finalizing | destroyed
  deriving DecidableEq, Repr

inductive RetryOn
  | never | connectFailure | disconnect | always | other (policy : String)
  deriving DecidableEq, Repr

structure Retry where
  retry_on : RetryOn
  num_retries : ℕ
  timeout : ℕ
  deriving DecidableEq, Repr

/-- `retry_default_policy` of `route.js`. -/
def retryDefaultPolicy : Retry := ⟨.never, 1, 2000⟩

structure Route where
  name : String
  destination : String
  ingress : List String
  egress : List String
  retry : Retry
  autogenerated : Bool
  deriving DecidableEq, Repr

/-- The endpoint a stage is connected to. A virtual endpoint carries the name of its
cluster and no back reference. -/
structure EndPointRef where
  name : String
  cluster : Option String
  deriving DecidableEq, Repr

/-- `listening` says that the `close` and `error` handlers of `set_event_handlers` sit on
the present stream; `on_disc` that the handler object was ever made. -/
structure Stage where
  id : ℕ
  origin : String
  stream : Option ℕ
  endpoint : Option EndPointRef
  status : StageStatus
  source : Bool
  retriable : Bool
  on_disc : Bool
  listening : Bool
  deriving DecidableEq, Repr

/-- The `Stage` constructor. -/
def Stage.new (id : ℕ) (origin : String) (stream : Option ℕ) (source : Bool) : Stage :=
  ⟨id, origin, stream, none, .init, source, !source, false, false⟩

/-- A call of `Stage.connect`: an attempt waits for `cluster.stream()`, or the retry timer
runs, or the promise is settled. The number is the retries left if the attempt fails. -/
inductive Conn
  | trying (left : ℕ)
  | backoff (left : ℕ)
  | resolved
  | rejected
  deriving DecidableEq, Repr

/-- The asynchronous calls a session has started. `connect false` is an element of the wait
list of `pipeline`; the others belong to a `disconnect` in its retry branch: it waits for
`this.connect` or for `source.reconnect`, or goes on after `stage.reconnect`. -/
inductive Task
  | connect (redo : Bool) (c : Conn)
  | listener
  | rejoin
  deriving DecidableEq, Repr

/-- Emitted events, with the calls of `priv.error` among them. -/
inductive Emit
  | init | connect | disconnect (origin : String) | error | end_ | destroy | privError
  deriving DecidableEq, Repr

/-- The `event` field of the entries of `Session.events`. -/
inductive LogEvent
  | init | lookupSuccess | disconnect | connect | error | end_ | destroy
  deriving DecidableEq, Repr

structure Session where
  name : String
  status : SessionStatus
  source : Stage
  destination : Option Stage
  ingress : List Stage
  egress : List Stage
  route : Option Route
  hasPrivError : Bool
  num_streams : ℤ
  active_streams : ℤ
  track : ℕ
  events : List LogEvent
  pipes : List (ℕ × ℕ)
  tasks : List (ℕ × Task)
  /-- `pipeline` still waits for `Promise.all`. -/
  settingUp : Bool
  /-- Timers that will emit `destroy` for a tracked session. -/
  timers : ℕ
  nextStream : ℕ
  /-- Streams on which `end` or `destroy` was called. -/
  closing : List ℕ
  /-- Streams that closed or failed by themselves. -/
  lost : List ℕ
  emitted : List Emit
  deriving DecidableEq, Repr

namespace Session

/-- `get_stages`. -/
def getStages (s : Session) : List Stage :=
  s.source :: (s.ingress ++ s.egress ++ s.destination.toList)

def stage? (s : Session) (i : ℕ) : Option Stage := s.getStages.find? (fun st => st.id = i)

def mapStages (f : Stage → Stage) (s : Session) : Session :=
  { s with source := f s.source, ingress := s.ingress.map f, egress := s.egress.map f,
           destination := s.destination.map f }

def setStage (i : ℕ) (f : Stage → Stage) (s : Session) : Session :=
  s.mapStages (fun st => if st.id = i then f st else st)

def emit (e : Emit) (s : Session) : Session := { s with emitted := s.emitted ++ [e] }

/-- `this.events.push`. -/
def log (e : LogEvent) (s : Session) : Session := { s with events := s.events ++ [e] }

def setTask (k i : ℕ) (t : Task) (s : Session) : Session :=
  { s with tasks := s.tasks.set k (i, t) }

def addTask (i : ℕ) (t : Task) (s : Session) : Session :=
  { s with tasks := s.tasks ++ [(i, t)] }

def dropTask (k : ℕ) (s : Session) : Session := { s with tasks := s.tasks.eraseIdx k }

def setStatus (st : SessionStatus) (s : Session) : Session := { s with status := st }

/-- `this.active_streams += n`. -/
def addActive (n : ℤ) (s : Session) : Session :=
  { s with active_streams := s.active_streams + n }

/-- Call `end` or `destroy` on streams. -/
def close (streams : List ℕ) (s : Session) : Session :=
  { s with closing := s.closing ++ streams }

def addPipes (ps : List (ℕ × ℕ)) (s : Session) : Session := { s with pipes := s.pipes ++ ps }

/-- Closing the stream of a stage removes the pipes to and from it. -/
def cutPipes (i : ℕ) (s : Session) : Session :=
  { s with pipes := s.pipes.filter (fun p => p.1 ≠ i ∧ p.2 ≠ i) }

/-- A new stream arrives. -/
def newStream (s : Session) : Session := { s with nextStream := s.nextStream + 1 }

@[simp] theorem getStages_mapStages (f : Stage → Stage) (s : Session) :
    (s.mapStages f).getStages = s.getStages.map f := by
  cases h : s.destination <;>
    simp [getStages, mapStages, h, List.map_append]

theorem stage?_mem {s : Session} {i : ℕ} {st : Stage} (h : s.stage? i = some st) :
    st ∈ s.getStages ∧ st.id = i := by
  refine ⟨List.mem_of_find?_eq_some h, ?_⟩
  simpa using List.find?_some h

end Session
end L7mp
