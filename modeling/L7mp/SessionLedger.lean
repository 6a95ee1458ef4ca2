import L7mp.SessionTasks

/-! The ledger of a session: its stages, its pending calls and its streams, with the steps
they can take and the methods of a session read as operations of the ledger. -/
namespace L7mp
open L7mp.Frame (only)

structure Ledger where
  frame : Frame
  status : SessionStatus
  /-- `destroy` was called at least once. -/
  gone : Bool
  /-- A route was found. -/
  routed : Bool
  closing : List ℕ
  lost : List ℕ
  nextStream : ℕ
  active : ℤ
  num : ℤ
  pipes : List Pipe

def Session.frame (s : Session) : Frame :=
  ⟨s.getStages, s.tasks, s.settingUp, s.events.contains .connect⟩

def Session.ledger (s : Session) : Ledger :=
  ⟨s.frame, s.status, s.events.contains .destroy, s.route.isSome, s.closing, s.lost, s.nextStream,
    s.active_streams, s.num_streams, s.pipes⟩

namespace Ledger

def mapStages (g : Stage → Stage) (l : Ledger) : Ledger :=
  { l with frame := l.frame.mapStages g }

def setTask (k i : ℕ) (t : Task) (l : Ledger) : Ledger :=
  { l with frame := l.frame.setTask k i t }

def addTask (i : ℕ) (t : Task) (l : Ledger) : Ledger :=
  { l with frame := l.frame.addTask i t }

def dropTask (k : ℕ) (l : Ledger) : Ledger := { l with frame := l.frame.dropTask k }

def settled (l : Ledger) : Ledger := { l with frame := { l.frame with settingUp := false } }

def newStream (l : Ledger) : Ledger := { l with nextStream := l.nextStream + 1 }

def lose (xs : List ℕ) (l : Ledger) : Ledger := { l with lost := l.lost ++ xs }

def setStatus (st : SessionStatus) (l : Ledger) : Ledger := { l with status := st }

def close (xs : List ℕ) (l : Ledger) : Ledger := { l with closing := l.closing ++ xs }

def addActive (n : ℤ) (l : Ledger) : Ledger := { l with active := l.active + n }

def setGone (l : Ledger) : Ledger := { l with gone := true }

def setPiped (l : Ledger) : Ledger := { l with frame := { l.frame with piped := true } }

def destroy (l : Ledger) : Ledger :=
  (((l.mapStages Stage.destroyed).close (l.frame.stages.filterMap Stage.endedStream)).setStatus
    .destroyed).setGone

/-- `error` and `end`; `stuck` says that `priv.error` threw before `destroy`. -/
def finalise (stuck : Bool) (l : Ledger) : Ledger :=
  if stuck then l.setStatus .finalizing else l.destroy

def connected (l : Ledger) : Ledger := (l.setStatus .connected).setPiped

def addPipes (ps : List Pipe) (l : Ledger) : Ledger := { l with pipes := l.pipes ++ ps }

def cutPipes (i : ℕ) (l : Ledger) : Ledger :=
  { l with pipes := l.pipes.filter (fun p => p.1 ≠ i ∧ p.2 ≠ i) }

/-- `disconnect` marks a stage and closes its stream. -/
def drop (st : Stage) (l : Ledger) : Ledger :=
  (((l.mapStages (only st.id Stage.disconnected)).addActive (-1)).close st.stream.toList).cutPipes
    st.id

/-- `disconnect` after `stage.reconnect` returned, with the pipes of `repipe`. -/
def rejoined (k : ℕ) (ps : List Pipe) (l : Ledger) : Ledger :=
  ((l.dropTask k).addActive 1).addPipes ps

def setCounts (n : ℕ) (l : Ledger) : Ledger := { l with active := n, num := n }

/-- `pipeline` after all connects succeeded, up to `connected`. -/
def piped (ps : List Pipe) (l : Ledger) : Ledger :=
  ((l.settled.mapStages Stage.handled).addPipes ps).setCounts
    (l.frame.tasks.countP (Session.isSetup ·.2))

/-- `repipe` on the chain of the session. -/
def repipe : Option Chain → ℕ → List Pipe × Bool
  | none, _ => ([], false)
  | some c, i => c.repipe i

def finish : Option Chain → List Pipe
  | none => []
  | some c => c.finish

/-- The kinds of steps that guards speak of: a stream arrives, for `pipeline` or for a
`disconnect`, a stage drops out and waits to
be reconnected, a reconnected stage gets its handlers, the pipeline is set up, a stage is
repiped, perhaps as the last one. -/
inductive Label
  | other | stream (redo : Bool) | waits | resume (i : ℕ) | piped
  | rejoin (i : ℕ) (last : Bool)
  deriving DecidableEq, Repr

/-- A pending call goes on without a stream and without making its stage ready. -/
structure Advance (t t' : Task) (g : Stage → Stage) : Prop where
  waiting : t.Open
  still : t'.Busy → t'.Open
  rejoin : t' ≠ .rejoin
  setup : Session.isSetup t' = Session.isSetup t
  pending : ∀ redo, t' ≠ .connect redo .resolved
  calm : Frame.Calm g
  stream : ∀ st, (g st).stream = st.stream
  connected : ∀ st, (g st).status = .connected → st.status = .connected

/-- What follows a stage that dropped out: nothing, the end of the session, or a call that
reconnects the stage. -/
inductive AfterDrop (st : Stage) (l : Ledger) : Label → Ledger → Prop
  | none (h : l.routed = false) : AfterDrop st l .other l
  | finalise (stuck : Bool) : AfterDrop st l .other (l.finalise stuck)
  | wait (t : Task) (g : Stage → Stage) (h : l.routed = true) (ht : t.Open)
      (hs : Session.isSetup t = false) (hg : Frame.Calm g)
      (hstream : ∀ st, (g st).stream = st.stream)
      (hconn : ∀ st, (g st).status = .connected → st.status = .connected) :
      AfterDrop st l .waits ((l.mapStages (only st.id g)).addTask st.id t)
  | refuse (g : Stage → Stage) (h : l.routed = true) (hg : Frame.Calm g)
      (hstream : ∀ st, (g st).stream = st.stream)
      (hconn : ∀ st, (g st).status = .connected → st.status = .connected) :
      AfterDrop st l .other ((l.mapStages (only st.id g)).addTask st.id (.connect true .rejected))

/-- The steps of the ledger of a session with a given chain. -/
inductive Step (c : Option Chain) (l : Ledger) : Label → Ledger → Prop
  | same : Step c l .other l
  | lose (st : Stage) (x : ℕ) (hst : st ∈ l.frame.stages) (hx : st.stream = some x)
      (hnot : st.listening = false ∨ st.status ≠ .ready) : Step c l .other (l.lose [x])
  | finalise (stuck : Bool) : Step c l .other (l.finalise stuck)
  | advance (k i : ℕ) (t t' : Task) (g : Stage → Stage) (hk : l.frame.tasks[k]? = some (i, t))
      (h : Advance t t' g) : Step c l .other ((l.mapStages (only i g)).setTask k i t')
  | obtain (k i left : ℕ) (redo : Bool) (ep : EndPointRef)
      (hk : l.frame.tasks[k]? = some (i, .connect redo (.trying left))) :
      Step c l (.stream redo) ((l.mapStages (only i (Stage.assign l.nextStream ep))).newStream.setTask k i
        (.connect redo .resolved))
  | listenerOk (k i : ℕ) (hk : l.frame.tasks[k]? = some (i, .listener)) :
      Step c l (.stream true) ((l.mapStages (only i
        (fun st => { st with stream := some l.nextStream : Stage }.handled))).newStream.setTask
          k i .rejoin)
  | resume (k i : ℕ) (hk : l.frame.tasks[k]? = some (i, .connect true .resolved)) :
      Step c l (.resume i) ((l.mapStages (only i Stage.handled)).setTask k i .rejoin)
  | drop (st : Stage) (xs : List ℕ) (label : Label) (l' : Ledger) (hst : st ∈ l.frame.stages)
      (hready : st.status = .ready) (hsrc : st.source = true → st.listening = true)
      (hxs : ∀ x ∈ xs, st.stream = some x) (hno : ∀ p ∈ l.frame.tasks, p.2 ≠ .rejoin)
      (h : AfterDrop st ((l.lose xs).drop st) label l') : Step c l label l'
  | rejoinFail (k i : ℕ) (stuck : Bool) (hk : l.frame.tasks[k]? = some (i, .rejoin))
      (hfail : (repipe c i).2 = false) :
      Step c l (.rejoin i false) ((l.rejoined k (repipe c i).1).finalise stuck)
  | rejoin (k i : ℕ) (hk : l.frame.tasks[k]? = some (i, .rejoin))
      (hwait : l.active + 1 ≠ l.num) :
      Step c l (.rejoin i false) ((l.rejoined k (repipe c i).1).mapStages (only i Stage.repiped))
  | reconnected (k i : ℕ) (hk : l.frame.tasks[k]? = some (i, .rejoin))
      (hall : l.active + 1 = l.num) :
      Step c l (.rejoin i true)
        ((l.rejoined k (repipe c i).1).mapStages (only i Stage.repiped)).connected
  | giveUp (k i : ℕ) (stuck : Bool) (hk : l.frame.tasks[k]? = some (i, .connect true .rejected)) :
      Step c l .other ((l.dropTask k).finalise stuck)
  | pipelineOk (hset : l.frame.settingUp = true)
      (hall : ∀ p ∈ l.frame.tasks, Session.isSetup p.2 = true → p.2 = .connect false .resolved) :
      Step c l .piped (l.piped (finish c)).connected
  | pipelineFail (stuck : Bool) (hset : l.frame.settingUp = true) :
      Step c l .other (l.settled.finalise stuck)

end Ledger

/-- `reconnect` comes to a wait. -/
def Stage.waits (env : Env) (retry : Retry) (st : Stage) : Bool :=
  if st.source then env.getListener st.origin = some true
  else env.getSession && ((env.getCluster st.origin).isSome || retry.redoRetries ≠ 0)

namespace Session
open Ledger (Label)

/-- The chain, once there is a destination. -/
def chain? (s : Session) : Option Chain := s.destination.map (fun d => s.chain d.id)

theorem newPipes_eq (i : ℕ) (s : Session) : s.newPipes i = Ledger.repipe s.chain? i := by
  unfold newPipes chain?
  cases s.destination <;> rfl

/-- `disconnect` of a stage takes its retry branch and comes to a wait there. -/
def waits (env : Env) (st : Stage) (s : Session) : Bool :=
  match s.route with
  | none => false
  | some route => st.status = .ready && st.retriable && st.waits env route.retry &&
      (route.retry.retry_on = .always || route.retry.retry_on = .disconnect)

def label (s : Session) : Event → Label
  | .streamOk k _ => match s.tasks[k]? with
    | some (_, t) => .stream (!isSetup t)
    | none => .other
  | .listenerOk _ => .stream true
  | .lost i env _ => match s.stage? i with
    | some st => if st.listening && s.waits env st then .waits else .other
    | none => .other
  | .disconnect i env _ => match s.stage? i with
    | some st => if s.waits env st then .waits else .other
    | none => .other
  | .resume k => match s.tasks[k]? with
    | some (i, _) => .resume i
    | none => .other
  | .rejoin k _ => match s.tasks[k]? with
    | some (i, _) => .rejoin i ((s.newPipes i).2 ∧ s.active_streams + 1 = s.num_streams)
    | none => .other
  | .pipelineOk => .piped
  | _ => .other

@[simp] theorem ledger_mapStages (f : Stage → Stage) (s : Session) :
    (s.mapStages f).ledger = s.ledger.mapStages f := by
  simp only [ledger, frame, getStages_mapStages]
  rfl

@[simp] theorem ledger_setStage (i : ℕ) (f : Stage → Stage) (s : Session) :
    (s.setStage i f).ledger = s.ledger.mapStages (only i f) := ledger_mapStages _ s
@[simp] theorem ledger_emit (e : Emit) (s : Session) : (s.emit e).ledger = s.ledger := rfl
@[simp] theorem ledger_setStatus (st : SessionStatus) (s : Session) :
    (s.setStatus st).ledger = s.ledger.setStatus st := rfl
@[simp] theorem ledger_setTask (k i : ℕ) (t : Task) (s : Session) :
    (s.setTask k i t).ledger = s.ledger.setTask k i t := rfl
@[simp] theorem ledger_addTask (i : ℕ) (t : Task) (s : Session) :
    (s.addTask i t).ledger = s.ledger.addTask i t := rfl
@[simp] theorem ledger_dropTask (k : ℕ) (s : Session) :
    (s.dropTask k).ledger = s.ledger.dropTask k := rfl
@[simp] theorem ledger_addActive (n : ℤ) (s : Session) :
    (s.addActive n).ledger = s.ledger.addActive n := rfl
@[simp] theorem ledger_close (xs : List ℕ) (s : Session) :
    (s.close xs).ledger = s.ledger.close xs := rfl
@[simp] theorem ledger_addPipes (ps : List Pipe) (s : Session) :
    (s.addPipes ps).ledger = s.ledger.addPipes ps := rfl
@[simp] theorem ledger_cutPipes (i : ℕ) (s : Session) :
    (s.cutPipes i).ledger = s.ledger.cutPipes i := rfl
@[simp] theorem ledger_newStream (s : Session) : s.newStream.ledger = s.ledger.newStream := rfl

@[simp] theorem ledger_log_end (s : Session) : (s.log .end_).ledger = s.ledger := by
  simp [ledger, frame, log, getStages]
@[simp] theorem ledger_log_error (s : Session) : (s.log .error).ledger = s.ledger := by
  simp [ledger, frame, log, getStages]
@[simp] theorem ledger_log_disconnect (s : Session) : (s.log .disconnect).ledger = s.ledger := by
  simp [ledger, frame, log, getStages]
@[simp] theorem ledger_log_connect (s : Session) :
    (s.log .connect).ledger = s.ledger.setPiped := by
  simp [ledger, frame, log, getStages, Ledger.setPiped]
@[simp] theorem ledger_log_destroy (s : Session) :
    (s.log .destroy).ledger = s.ledger.setGone := by
  simp [ledger, frame, log, getStages, Ledger.setGone]

@[simp] theorem ledger_announce (s : Session) : s.announce.ledger = s.ledger := by
  unfold announce
  split_ifs <;> rfl

@[simp] theorem ledger_destroyStages (s : Session) : s.destroyStages.ledger =
    (s.ledger.mapStages Stage.destroyed).close (s.getStages.filterMap Stage.endedStream) := by
  simp only [destroyStages, ledger_close, ledger_mapStages]

@[simp] theorem ledger_destroy (s : Session) : s.destroy.ledger = s.ledger.destroy := by
  simp only [destroy, ledger_announce, ledger_log_destroy, ledger_setStatus, ledger_destroyStages]
  rfl

/-- The session ends, and it is all the same in which status it was. -/
theorem destroy_setStatus (st : SessionStatus) (l : Ledger) :
    (l.setStatus st).destroy = l.destroy := rfl

/-- `error` ends in `destroy` unless `priv.error` throws. -/
@[simp] theorem ledger_error (thr : Bool) (s : Session) :
    (s.error thr).ledger = s.ledger.finalise (s.hasPrivError && thr) := by
  unfold error Ledger.finalise
  cases s.hasPrivError <;> cases thr <;>
    simp only [ledger_destroy, ledger_emit, ledger_setStatus, ledger_log_error,
      destroy_setStatus, Bool.and_self, Bool.and_true, Bool.and_false, Bool.false_eq_true,
      Bool.true_eq_false, ↓reduceIte]

@[simp] theorem ledger_end_ (s : Session) : s.end_.ledger = s.ledger.finalise false := by
  simp only [end_, ledger_destroy, ledger_emit, ledger_setStatus, ledger_log_end,
    destroy_setStatus, Ledger.finalise, Bool.false_eq_true, ↓reduceIte]

@[simp] theorem ledger_connected (s : Session) : s.connected.ledger = s.ledger.connected := by
  simp only [connected, ledger_log_connect, ledger_emit, ledger_setStatus]
  rfl

@[simp] theorem ledger_dropStage (st : Stage) (s : Session) :
    (s.dropStage st).ledger = s.ledger.drop st := by
  unfold dropStage
  split_ifs <;>
    simp only [ledger_emit, ledger_cutPipes, ledger_close, ledger_addActive, ledger_setStage] <;>
    rfl

end Session
end L7mp
