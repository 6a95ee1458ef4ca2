import L7mp.PipeChain
import L7mp.SessionState

/-! The transitions of a session: every piece of `session.js` that runs without waiting,
and the events that start such a piece. -/
namespace L7mp

/-- What a session looks up in `l7mp` by name. A cluster answers with its `retriable` flag, a
listener with whether it has a `reconnect` method. -/
structure Env where
  getSession : Bool
  getCluster : String → Option Bool
  getListener : String → Option Bool

def Retry.setupRetries (r : Retry) : ℕ :=
  if r.retry_on = .connectFailure ∨ r.retry_on = .always then r.num_retries else 0

def Retry.redoRetries (r : Retry) : ℕ :=
  (if r.retry_on = .disconnect ∨ r.retry_on = .always then r.num_retries else 0) - 1

/-- What `onFailedAttempt` makes of the stage, `left` retries being left. -/
def Stage.failed (left : ℕ) (st : Stage) : Stage :=
  { st with status := if left = 0 then .ended else .retrying }

def Conn.failed (left : ℕ) : Conn := if left = 0 then .rejected else .backoff (left-1)

/-- `run` of `Stage.connect` up to the call of `cluster.stream`. -/
def Stage.run (env : Env) (left : ℕ) (st : Stage) : Stage × Conn :=
  if env.getSession = false then ({ st with status := .ended }, .rejected)
  else if st.status = .connected ∨ st.status = .finalizing ∨ st.status = .ended then
    (st, .rejected)
  else match env.getCluster st.origin with
  -- `NotFoundError` does not abort: the cluster may be added later
  | none => (st.failed left, Conn.failed left)
  | some retriable => ({ st with retriable := retriable }, .trying left)

/-- `destroy` for one stage. -/
def Stage.destroyed (st : Stage) : Stage :=
  if st.status = .retrying then st else { st with status := .ended, listening := false }

/-- The stream on which `destroy` calls `end`. -/
def Stage.endedStream (st : Stage) : Option ℕ :=
  if st.status = .retrying ∨ st.status = .ended then none else st.stream

/-- `this.stream = stream`, for a stream that is new. -/
def Stage.assign (x : ℕ) (ep : EndPointRef) (st : Stage) : Stage :=
  { st with stream := some x, endpoint := some ep, status := .connected, listening := false }

/-- `set_event_handlers` and the status `READY`. -/
def Stage.handled (st : Stage) : Stage :=
  { st with status := .ready, on_disc := true, listening := true }

/-- The marks that `disconnect` leaves on a stage. -/
def Stage.disconnected (st : Stage) : Stage :=
  { st with status := .disconnected, endpoint := none, listening := false }

/-- The end of `repipe`. -/
def Stage.repiped (st : Stage) : Stage := { st with status := .ready }

namespace Session

/-- The loop of `destroy` over the stages. -/
def destroyStages (s : Session) : Session :=
  (s.mapStages Stage.destroyed).close (s.getStages.filterMap Stage.endedStream)

/-- The end of `destroy`: emit the event now, or when the tracking timer fires. -/
def announce (s : Session) : Session :=
  if s.track = 0 then s.emit .destroy else { s with timers := s.timers + 1 }

def destroy (s : Session) : Session := ((s.destroyStages.setStatus .destroyed).log .destroy).announce

/-- `Session.error`; `thr` says that `priv.error` throws. -/
def error (thr : Bool) (s : Session) : Session :=
  if s.hasPrivError = false then
    (((s.log .error).setStatus .finalizing).emit .error).destroy
  else if thr then ((s.log .error).setStatus .finalizing).emit .privError
  else ((((s.log .error).setStatus .finalizing).emit .privError).emit .error).destroy

def end_ (s : Session) : Session := (((s.log .end_).setStatus .finalizing).emit .end_).destroy

def connected (s : Session) : Session := ((s.setStatus .connected).emit .connect).log .connect

/-- The chain as `repipe` reads it. -/
def chain (s : Session) (destination : ℕ) : Chain :=
  ⟨s.source.id, s.ingress.map Stage.id, s.egress.map Stage.id, destination⟩

/-- The pipes that `repipe` makes for stage `i`, and whether it returns. -/
def newPipes (i : ℕ) (s : Session) : List Pipe × Bool :=
  match s.destination with
  | none => ([], false)
  | some d => (s.chain d.id).repipe i

/-- A stage gets the stream that `cluster.stream` resolved to. -/
def obtain (i : ℕ) (ep : EndPointRef) (s : Session) : Session :=
  (s.setStage i (Stage.assign s.nextStream ep)).newStream

/-- `Stage.reconnect` up to its first wait, called by `disconnect` of stage `st`. -/
def reconnect (env : Env) (retry : Retry) (st : Stage) (s : Session) : Session :=
  if st.source then
    if env.getListener st.origin = some true then s.addTask st.id .listener
    else s.addTask st.id (.connect true .rejected)
  else
    (s.setStage st.id (fun st => (st.run env retry.redoRetries).1)).addTask st.id
      (.connect true (({ st with status := .disconnected } : Stage).run env retry.redoRetries).2)

/-- The part of `disconnect` that marks the stage and closes its stream. -/
def dropStage (st : Stage) (s : Session) : Session :=
  if s.status = .connected then
    ((((s.setStage st.id Stage.disconnected).addActive (-1)).close st.stream.toList).cutPipes
      st.id).emit (.disconnect st.origin)
  else
    (((s.setStage st.id Stage.disconnected).addActive (-1)).close st.stream.toList).cutPipes st.id

/-- The retry policy, as `disconnect` switches on it. -/
def afterLoss (env : Env) (thr : Bool) (st : Stage) (s : Session) : Session :=
  match s.route with
  | none => s
  | some route => match route.retry.retry_on with
    | .always | .disconnect =>
      if st.retriable then s.reconnect env route.retry st else s.error thr
    | .connectFailure | .never => s.end_
    | .other _ => s.error thr

/-- `Session.disconnect` up to its first wait. -/
def disconnect (env : Env) (thr : Bool) (st : Stage) (s : Session) : Session :=
  if st.status = .ready then ((s.log .disconnect).dropStage st).afterLoss env thr st
  else s.log .disconnect

/-- `disconnect` after `stage.reconnect` returned. -/
def rejoin (thr : Bool) (i : ℕ) (s : Session) : Session :=
  let s' := (s.addActive 1).addPipes (s.newPipes i).1
  if (s.newPipes i).2 = false then s'.error thr
  else if s'.active_streams = s'.num_streams then
    (s'.setStage i Stage.repiped).connected
  else s'.setStage i Stage.repiped

/-- `pipeline` after all `n` connects succeeded. -/
def pipeline (n : ℕ) (s : Session) : Session :=
  let pipes := match s.destination with
    | none => []
    | some d => (s.chain d.id).finish
  ({ (s.mapStages Stage.handled).addPipes pipes with
    num_streams := n, active_streams := n } : Session).connected

/-- The stages that `pipeline_init` makes for a list of clusters, numbered from `id`. -/
def connectAll (env : Env) (left : ℕ) (id : ℕ) : List String → List (Stage × Conn)
  | [] => []
  | origin :: rest =>
    (Stage.new id origin none false).run env left :: connectAll env left (id+1) rest

def waitList (l : List (Stage × Conn)) : List (ℕ × Task) :=
  l.map (fun p => (p.1.id, .connect false p.2))

/-- `pipeline_init`; the new stages are numbered from `id`. -/
def pipelineInit (env : Env) (route : Route) (id : ℕ) (s : Session) : Session :=
  let left := route.retry.setupRetries
  let ingress := connectAll env left id route.ingress
  let egress := connectAll env left (id + route.ingress.length) route.egress
  let dest := (Stage.new (id + route.ingress.length + route.egress.length) route.destination
    none false).run env left
  { s with ingress := ingress.map Prod.fst, egress := egress.map Prod.fst,
           destination := some dest.1,
           tasks := waitList (ingress ++ egress ++ [dest]), settingUp := true }

/-- The constructor and the first lines of `create`, for a source stage numbered `id`. -/
def new (name : String) (id : ℕ) (origin : String) (hasPrivError : Bool) : Session :=
  { name := name, status := .init,
    source := { Stage.new id origin (some 0) true with status := .ready },
    destination := none, ingress := [], egress := [], route := none,
    hasPrivError := hasPrivError, num_streams := 0, active_streams := 0, track := 0,
    events := [.init], pipes := [], tasks := [], settingUp := false, timers := 0,
    nextStream := 1, closing := [], lost := [], emitted := [.init] }

/-- How `router` starts: `create` throws, before or after the lookup of the action, or it
finds a route and `pipeline_init` starts the connects. -/
inductive Start
  | failed (track : ℕ) (lookedUp thr : Bool)
  | piped (track : ℕ) (reconnect : Bool) (route : Route) (env : Env)

/-- `new Session` and `router` up to its first wait. -/
def start (name : String) (id : ℕ) (origin : String) (hasPrivError : Bool) : Start → Session
  | .failed track lookedUp thr =>
    let s := { new name id origin hasPrivError with track := track }
    if lookedUp then (s.log .lookupSuccess).error thr else s.error thr
  | .piped track reconnect route env =>
    let s := { new name id origin hasPrivError with track := track, route := some route }
    let s := s.log .lookupSuccess
    ({ s with source := { s.source with retriable := reconnect } } : Session).pipelineInit env
      route (id+1)

/-- The events of a session. `k` is the position of the task that goes on, `i` a stage. The
last five tasks continue a promise that is settled; the others come from outside. -/
inductive Event
  | streamOk (k : ℕ) (ep : EndPointRef)
  | streamFail (k : ℕ) (abrupt : Bool)
  | timer (k : ℕ) (env : Env)
  | listenerOk (k : ℕ)
  | listenerFail (k : ℕ)
  | lost (i : ℕ) (env : Env) (thr : Bool)
  | disconnect (i : ℕ) (env : Env) (thr : Bool)
  | end_
  | error (thr : Bool)
  | destroyTimer
  | resume (k : ℕ)
  | rejoin (k : ℕ) (thr : Bool)
  | giveUp (k : ℕ) (thr : Bool)
  | pipelineOk
  | pipelineFail (thr : Bool)

def isSetup : Task → Bool
  | .connect false _ => true
  | _ => false

/-- `Promise.all` resolves. -/
def allResolved (s : Session) : Bool :=
  s.tasks.all (fun t => !isSetup t.2 || t.2 = .connect false .resolved)

/-- `Promise.all` rejects. -/
def someRejected (s : Session) : Bool := s.tasks.any (fun t => t.2 = .connect false .rejected)

/-- A `disconnect` whose `stage.reconnect` has returned goes on before the next stream event
or API call. -/
def rejoining (s : Session) : Bool := s.tasks.any (fun t => t.2 = .rejoin)

def step (s : Session) : Event → Option Session
  | .streamOk k ep => match s.tasks[k]? with
    | some (i, .connect redo (.trying _)) =>
      some ((s.obtain i ep).setTask k i (.connect redo .resolved))
    | _ => none
  | .streamFail k abrupt => match s.tasks[k]? with
    | some (i, .connect redo (.trying left)) =>
      -- errors that `p-retry` does not retry leave the status as it is
      if abrupt then some (s.setTask k i (.connect redo .rejected))
      else some ((s.setStage i (Stage.failed left)).setTask k i (.connect redo (Conn.failed left)))
    | _ => none
  | .timer k env => match s.tasks[k]? with
    | some (i, .connect redo (.backoff left)) => (s.stage? i).map (fun st =>
      (s.setStage i (fun st => (st.run env left).1)).setTask k i
        (.connect redo (st.run env left).2))
    | _ => none
  | .listenerOk k => match s.tasks[k]? with
    | some (i, .listener) =>
      some ((s.setStage i (fun st => { st with stream := some s.nextStream : Stage }.handled)).newStream.setTask
        k i .rejoin)
    | _ => none
  | .listenerFail k => match s.tasks[k]? with
    | some (i, .listener) => some (s.setTask k i (.connect true .rejected))
    | _ => none
  | .lost i env thr => if s.rejoining then none else match s.stage? i with
    | none => none
    | some st => st.stream.map (fun x =>
      if st.listening then ({ s with lost := s.lost ++ [x] } : Session).disconnect env thr st
      else { s with lost := s.lost ++ [x] })
  | .disconnect i env thr => if s.rejoining then none else match s.stage? i with
    | none => none
    -- only `deleteEndPoint` calls it from outside, for clusters
    | some st => if st.source then none else some (s.disconnect env thr st)
  | .end_ => some s.end_
  | .error thr => some (s.error thr)
  | .destroyTimer =>
    if s.timers = 0 then none else some (({ s with timers := s.timers - 1 } : Session).emit .destroy)
  | .resume k => match s.tasks[k]? with
    | some (i, .connect true .resolved) =>
      some ((s.setStage i Stage.handled).setTask k i .rejoin)
    | _ => none
  | .rejoin k thr => match s.tasks[k]? with
    | some (i, .rejoin) => some ((s.dropTask k).rejoin thr i)
    | _ => none
  | .giveUp k thr => match s.tasks[k]? with
    | some (_, .connect true .rejected) => some ((s.dropTask k).error thr)
    | _ => none
  | .pipelineOk =>
    if s.settingUp ∧ s.allResolved then
      some (({ s with settingUp := false } : Session).pipeline (s.tasks.countP (isSetup ·.2)))
    else none
  | .pipelineFail thr =>
    if s.settingUp ∧ s.someRejected then some (({ s with settingUp := false } : Session).error thr)
    else none

end Session
end L7mp
