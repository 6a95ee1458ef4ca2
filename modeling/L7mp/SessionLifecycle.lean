import L7mp.GuardedRun
import L7mp.SessionStep

/-! The life cycle of a session seen from outside: its status and what it emits. It forgets
the stages, the streams and the pending calls; `step_lifecycle` says that every step of a
session is a list of moves of this small machine. -/
namespace L7mp

structure Lifecycle where
  status : SessionStatus
  emitted : List Emit
  timers : ℕ
  track : ℕ
  hasPrivError : Bool

namespace Lifecycle

/-- `lose` is the `disconnect` event of a connected session, `tick` the timer of a tracked
one; the others are the methods of the same name. -/
inductive Move
  | lose (origin : String)
  | tick
  | connected
  | error (thr : Bool)
  | end_
  deriving DecidableEq, Repr

def emit (e : Emit) (l : Lifecycle) : Lifecycle := { l with emitted := l.emitted ++ [e] }

def setStatus (st : SessionStatus) (l : Lifecycle) : Lifecycle := { l with status := st }

def announce (l : Lifecycle) : Lifecycle :=
  if l.track = 0 then l.emit .destroy else { l with timers := l.timers + 1 }

def destroy (l : Lifecycle) : Lifecycle := (l.setStatus .destroyed).announce

def error (thr : Bool) (l : Lifecycle) : Lifecycle :=
  if l.hasPrivError = false then ((l.setStatus .finalizing).emit .error).destroy
  else if thr then (l.setStatus .finalizing).emit .privError
  else (((l.setStatus .finalizing).emit .privError).emit .error).destroy

def end_ (l : Lifecycle) : Lifecycle := ((l.setStatus .finalizing).emit .end_).destroy

def connected (l : Lifecycle) : Lifecycle := (l.setStatus .connected).emit .connect

def apply (l : Lifecycle) : Move → Lifecycle
  | .lose origin => if l.status = .connected then l.emit (.disconnect origin) else l
  | .tick => if l.timers = 0 then l else { l.emit .destroy with timers := l.timers - 1 }
  | .connected => l.connected
  | .error thr => l.error thr
  | .end_ => l.end_

/-- The moves that the status admits: nothing is connected, failed or ended once more after the
session was destroyed, and nothing is connected or failed while it is being finalised. -/
def Admits (l : Lifecycle) : Move → Prop
  | .connected | .error _ => l.status ≠ .destroyed ∧ l.status ≠ .finalizing
  | .end_ => l.status ≠ .destroyed
  | .lose _ | .tick => True

/-- Every move of a list is admitted in the state that the moves before it leave. -/
def AdmitsAll : Lifecycle → List Move → Prop
  | _, [] => True
  | l, m :: ms => l.Admits m ∧ (l.apply m).AdmitsAll ms

instance decidableAdmits (l : Lifecycle) (m : Move) : Decidable (l.Admits m) := by
  cases m <;> unfold Admits <;> infer_instance

instance decidableAdmitsAll : (ms : List Move) → (l : Lifecycle) → Decidable (l.AdmitsAll ms)
  | [], _ => inferInstanceAs (Decidable True)
  | m :: ms, l =>
    have := decidableAdmitsAll ms (l.apply m)
    inferInstanceAs (Decidable (l.Admits m ∧ (l.apply m).AdmitsAll ms))

end Lifecycle

namespace Session
open Lifecycle (Move)

def lifecycle (s : Session) : Lifecycle :=
  ⟨s.status, s.emitted, s.timers, s.track, s.hasPrivError⟩

def disconnectMoves (thr : Bool) (st : Stage) (s : Session) : List Move :=
  if st.status = .ready then .lose st.origin :: match s.route with
    | none => []
    | some route => match route.retry.retry_on with
      | .always | .disconnect => if st.retriable then [] else [.error thr]
      | .connectFailure | .never => [.end_]
      | .other _ => [.error thr]
  else []

/-- The methods that the piece of code started by an event calls. -/
def moves (s : Session) : Event → List Move
  | .lost i _ thr => match s.stage? i with
    | none => []
    | some st => if st.listening then s.disconnectMoves thr st else []
  | .disconnect i _ thr => match s.stage? i with
    | none => []
    | some st => s.disconnectMoves thr st
  | .end_ => [.end_]
  | .error thr => [.error thr]
  | .destroyTimer => [.tick]
  | .rejoin k thr => match s.tasks[k]? with
    | some (i, .rejoin) =>
      if (s.newPipes i).2 = false then [.error thr]
      else if s.active_streams + 1 = s.num_streams then [.connected] else []
    | _ => []
  | .giveUp _ thr => [.error thr]
  | .pipelineOk => [.connected]
  | .pipelineFail thr => [.error thr]
  | .streamOk .. | .streamFail .. | .timer .. | .listenerOk .. | .listenerFail .. | .resume .. =>
    []

/-- The piece of code that the event starts calls `connected`, `error` and `end` only while
the status of the session still admits it. -/
def Admits (s : Session) (e : Event) : Prop := s.lifecycle.AdmitsAll (s.moves e)

instance (s : Session) (e : Event) : Decidable (s.Admits e) :=
  inferInstanceAs (Decidable (s.lifecycle.AdmitsAll (s.moves e)))

@[simp] theorem lifecycle_mapStages (f : Stage → Stage) (s : Session) :
    (s.mapStages f).lifecycle = s.lifecycle := rfl
@[simp] theorem lifecycle_setStage (i : ℕ) (f : Stage → Stage) (s : Session) :
    (s.setStage i f).lifecycle = s.lifecycle := rfl
@[simp] theorem lifecycle_log (e : LogEvent) (s : Session) :
    (s.log e).lifecycle = s.lifecycle := rfl
@[simp] theorem lifecycle_emit (e : Emit) (s : Session) :
    (s.emit e).lifecycle = s.lifecycle.emit e := rfl
@[simp] theorem lifecycle_setStatus (st : SessionStatus) (s : Session) :
    (s.setStatus st).lifecycle = s.lifecycle.setStatus st := rfl
@[simp] theorem lifecycle_setTask (k i : ℕ) (t : Task) (s : Session) :
    (s.setTask k i t).lifecycle = s.lifecycle := rfl
@[simp] theorem lifecycle_addTask (i : ℕ) (t : Task) (s : Session) :
    (s.addTask i t).lifecycle = s.lifecycle := rfl
@[simp] theorem lifecycle_dropTask (k : ℕ) (s : Session) :
    (s.dropTask k).lifecycle = s.lifecycle := rfl
@[simp] theorem lifecycle_addActive (n : ℤ) (s : Session) :
    (s.addActive n).lifecycle = s.lifecycle := rfl
@[simp] theorem lifecycle_close (l : List ℕ) (s : Session) :
    (s.close l).lifecycle = s.lifecycle := rfl
@[simp] theorem lifecycle_addPipes (l : List Pipe) (s : Session) :
    (s.addPipes l).lifecycle = s.lifecycle := rfl
@[simp] theorem lifecycle_cutPipes (i : ℕ) (s : Session) :
    (s.cutPipes i).lifecycle = s.lifecycle := rfl
@[simp] theorem lifecycle_newStream (s : Session) : s.newStream.lifecycle = s.lifecycle := rfl
@[simp] theorem lifecycle_destroyStages (s : Session) :
    s.destroyStages.lifecycle = s.lifecycle := rfl

@[simp] theorem lifecycle_announce (s : Session) :
    s.announce.lifecycle = s.lifecycle.announce := by
  unfold announce Lifecycle.announce
  change _ = ite (s.track = 0) _ _
  split_ifs <;> rfl

@[simp] theorem lifecycle_destroy (s : Session) : s.destroy.lifecycle = s.lifecycle.destroy := by
  simp only [destroy, Lifecycle.destroy, lifecycle_announce, lifecycle_log, lifecycle_setStatus,
    lifecycle_destroyStages]

@[simp] theorem lifecycle_error (thr : Bool) (s : Session) :
    (s.error thr).lifecycle = s.lifecycle.error thr := by
  unfold error Lifecycle.error
  change _ = ite (s.hasPrivError = false) _ _
  split_ifs <;>
    simp only [lifecycle_destroy, lifecycle_emit, lifecycle_setStatus, lifecycle_log]

@[simp] theorem lifecycle_end_ (s : Session) : s.end_.lifecycle = s.lifecycle.end_ := by
  simp only [end_, Lifecycle.end_, lifecycle_destroy, lifecycle_emit, lifecycle_setStatus,
    lifecycle_log]

@[simp] theorem lifecycle_connected (s : Session) :
    s.connected.lifecycle = s.lifecycle.connected := rfl

@[simp] theorem lifecycle_reconnect (env : Env) (retry : Retry) (st : Stage) (s : Session) :
    (s.reconnect env retry st).lifecycle = s.lifecycle := by
  unfold reconnect
  split_ifs <;> rfl

theorem lifecycle_dropStage (st : Stage) (s : Session) :
    (s.dropStage st).lifecycle = s.lifecycle.apply (.lose st.origin) := by
  unfold dropStage Lifecycle.apply
  change _ = ite (s.status = .connected) _ _
  split_ifs <;> rfl

theorem dropStage_route (st : Stage) (s : Session) : (s.dropStage st).route = s.route := by
  unfold dropStage
  split_ifs <;> rfl

/-- What `disconnect` does to the life cycle, branch by branch of its retry policy. -/
theorem lifecycle_disconnect (env : Env) (thr : Bool) (st : Stage) (s : Session) :
    (s.disconnect env thr st).lifecycle =
      (s.disconnectMoves thr st).foldl Lifecycle.apply s.lifecycle := by
  have hdrop : ((s.log .disconnect).dropStage st).lifecycle =
      s.lifecycle.apply (.lose st.origin) := by
    rw [lifecycle_dropStage, lifecycle_log]
  have hroute : ((s.log .disconnect).dropStage st).route = s.route := dropStage_route st _
  unfold disconnect disconnectMoves
  by_cases hst : st.status = .ready
  · rw [if_pos hst, if_pos hst, List.foldl_cons, ← hdrop]
    unfold afterLoss
    rw [hroute]
    cases s.route with
    | none => rfl
    | some route =>
      cases hpol : route.retry.retry_on <;> simp only [hpol]
      case always | disconnect =>
        split_ifs
        · exact lifecycle_reconnect ..
        · exact lifecycle_error ..
      case connectFailure | never => exact lifecycle_end_ _
      case other => exact lifecycle_error ..
  · rw [if_neg hst, if_neg hst]
    rfl

/-- `rejoin` fails, connects the session or goes on waiting. -/
theorem lifecycle_rejoin (thr : Bool) (i : ℕ) (s : Session) :
    (s.rejoin thr i).lifecycle =
      if (s.newPipes i).2 = false then s.lifecycle.error thr
      else if s.active_streams + 1 = s.num_streams then s.lifecycle.connected
      else s.lifecycle := by
  have hactive : ((s.addActive 1).addPipes (s.newPipes i).1).active_streams =
      s.active_streams + 1 := rfl
  have hnum : ((s.addActive 1).addPipes (s.newPipes i).1).num_streams = s.num_streams := rfl
  simp only [rejoin, hactive, hnum]
  split_ifs <;> simp only [lifecycle_error, lifecycle_connected, lifecycle_setStage,
    lifecycle_addPipes, lifecycle_addActive]

/-- Every step of a session moves its life cycle by the methods that the step calls. -/
theorem step_lifecycle {s t : Session} {e : Event} (h : s.step e = some t) :
    t.lifecycle = (s.moves e).foldl Lifecycle.apply s.lifecycle := by
  cases e with
  | streamOk k ep | listenerOk k | listenerFail k | resume k =>
    simp only [step] at h
    split at h <;> cases h
    rfl
  | streamFail k abrupt =>
    simp only [step] at h
    split at h
    · split at h <;> cases h <;> rfl
    · cases h
  | timer k env =>
    simp only [step] at h
    split at h
    · obtain ⟨st, -, rfl⟩ := Option.map_eq_some_iff.mp h
      rfl
    · cases h
  | lost i env thr =>
    simp only [step] at h
    split_ifs at h
    cases hst : s.stage? i with
    | none => simp only [hst] at h; cases h
    | some st =>
      simp only [hst] at h
      obtain ⟨x, -, rfl⟩ := Option.map_eq_some_iff.mp h
      simp only [moves, hst]
      split_ifs
      · rw [lifecycle_disconnect]
        rfl
      · rfl
  | disconnect i env thr =>
    simp only [step] at h
    split_ifs at h
    cases hst : s.stage? i with
    | none => simp only [hst] at h; cases h
    | some st =>
      simp only [hst] at h
      split_ifs at h
      cases h
      simp only [moves, hst, lifecycle_disconnect]
  | end_ =>
    cases h
    simp [moves, Lifecycle.apply]
  | error thr =>
    cases h
    simp [moves, Lifecycle.apply]
  | destroyTimer =>
    simp only [step] at h
    split_ifs at h with ht
    cases h
    simp only [moves, List.foldl_cons, List.foldl_nil, Lifecycle.apply]
    rw [if_neg (by exact ht)]
    rfl
  | rejoin k thr =>
    simp only [step] at h
    split at h
    · rename_i i hk
      cases h
      simp only [moves, hk, lifecycle_rejoin]
      change ite ((s.newPipes i).2 = false) _ (ite (s.active_streams + 1 = s.num_streams) _ _) = _
      split_ifs <;> rfl
    · cases h
  | giveUp k thr =>
    simp only [step] at h
    split at h <;> cases h
    simp [moves, Lifecycle.apply]
  | pipelineOk =>
    simp only [step] at h
    split_ifs at h
    cases h
    rfl
  | pipelineFail thr =>
    simp only [step] at h
    split_ifs at h
    cases h
    simp only [moves, lifecycle_error, List.foldl_cons, List.foldl_nil, Lifecycle.apply]
    rfl

end Session
end L7mp
