import L7mp.JsonSocketSession

/-! The event log of a session, which is what the API shows of it, told apart from the session: what
a reader of `Session.events` can say about the status and about what the session has emitted. -/
namespace L7mp
open GuardedRun

namespace EventLog

/-- What an entry says about the status. -/
def note : SessionStatus → LogEvent → SessionStatus
  | _, .connect => .connected
  | _, .error | _, .end_ => .finalizing
  | _, .destroy => .destroyed
  | st, .init | st, .lookupSuccess | st, .disconnect => st

def status (l : List LogEvent) : SessionStatus := l.foldl note .init

/-- What was emitted, without the disconnects and the end of the tracking, in its order. An error
without the destruction that belongs to it is one that `priv.error` threw at. -/
def echo (hasPrivError : Bool) : List LogEvent → List Emit
  | [] => []
  | .init :: l => .init :: echo hasPrivError l
  | .connect :: l => .connect :: echo hasPrivError l
  -- `error` has gone on to `destroy`
  | .error :: .destroy :: l =>
    (if hasPrivError then [.privError, .error] else [.error]) ++ echo hasPrivError l
  -- `priv.error` threw before `error` was emitted
  | .error :: l => .privError :: echo hasPrivError l
  | .end_ :: l => .end_ :: echo hasPrivError l
  | .lookupSuccess :: l | .disconnect :: l | .destroy :: l => echo hasPrivError l

/-- The losses that are logged after the session had the status. -/
def losses : SessionStatus → List LogEvent → ℕ
  | _, [] => 0
  | .connected, .disconnect :: l => losses .connected l + 1
  | st, e :: l => losses (note st e) l

/-- The logs that there are: an END comes with its DESTROY, an ERROR with it or without, and no
DESTROY comes alone. -/
inductive Shaped (hasPrivError : Bool) : List LogEvent → Prop
  | created : Shaped hasPrivError [.init]
  | found : Shaped hasPrivError [.init, .lookupSuccess]
  | disconnected {l} : Shaped hasPrivError l → Shaped hasPrivError (l ++ [.disconnect])
  | connected {l} : Shaped hasPrivError l → Shaped hasPrivError (l ++ [.connect])
  | failed {l} : Shaped hasPrivError l → Shaped hasPrivError (l ++ [.error, .destroy])
  | thrown {l} : hasPrivError = true → Shaped hasPrivError l → Shaped hasPrivError (l ++ [.error])
  | ended {l} : Shaped hasPrivError l → Shaped hasPrivError (l ++ [.end_, .destroy])

theorem status_append (l l' : List LogEvent) : status (l ++ l') = l'.foldl note (status l) :=
  List.foldl_append ..

/-- The echo of a log goes on, unless the rest begins inside an error. -/
theorem echo_append (b : Bool) (l : List LogEvent) {l' : List LogEvent}
    (h : l'.head? ≠ some .destroy) : echo b (l ++ l') = echo b l ++ echo b l' := by
  induction l using echo.induct with
  | case1 => rfl
  | case2 l ih | case3 l ih | case6 l ih => exact congrArg (List.cons _) ih
  | case4 l ih =>
    have hrest := congrArg ((if b then [Emit.privError, .error] else [.error]) ++ ·) ih
    exact hrest.trans (List.append_assoc ..).symm
  | case5 l hl ih =>
    -- an error at the end of the log must not take a DESTROY of the rest for its own
    have hrest : ∀ m, l ++ l' ≠ .destroy :: m := by
      intro m hm
      cases l with
      | nil =>
        rw [List.nil_append] at hm
        rw [hm] at h
        exact h rfl
      | cons e l =>
        cases hm
        exact hl _ rfl
    rw [List.cons_append, echo.eq_5 b (l ++ l') hrest, echo.eq_5 b l hl, ih, List.cons_append]
  | case7 l ih | case8 l ih | case9 l ih => exact ih

theorem losses_append (st : SessionStatus) (l l' : List LogEvent) :
    losses st (l ++ l') = losses st l + losses (l.foldl note st) l' := by
  induction l generalizing st with
  | nil => exact (Nat.zero_add _).symm
  | cons e l ih =>
    cases st <;> cases e <;> simp only [List.cons_append, losses, note, List.foldl_cons, ih]
    omega

end EventLog

/-- Everything but `disconnect`, which comes with the name of a stage, and `destroy`, which waits
for the end of the tracking. -/
def Emit.heard : Emit → Bool
  | .disconnect _ | .destroy => false
  | _ => true

def Emit.isDisconnect : Emit → Bool
  | .disconnect _ => true
  | _ => false

namespace Lifecycle

/-- What a move writes into the log. -/
def Move.entries (hasPrivError : Bool) : Move → List LogEvent
  | .lose _ => [.disconnect]
  | .tick => []
  | .connected => [.connect]
  -- an exception of `priv.error` skips the rest of the method
  | .error thr => if hasPrivError && thr then [.error] else [.error, .destroy]
  | .end_ => [.end_, .destroy]

/-- The log says what the life cycle is. -/
structure Explained (l : Lifecycle) (log : List LogEvent) : Prop where
  status : EventLog.status log = l.status
  heard : EventLog.echo l.hasPrivError log = l.emitted.filter Emit.heard
  destroys : log.count .destroy = l.emitted.count .destroy + l.timers
  losses : l.emitted.countP Emit.isDisconnect ≤ EventLog.losses .init log
  shaped : EventLog.Shaped l.hasPrivError log

variable {l : Lifecycle} {log : List LogEvent}

theorem Explained.status_of_eq (h : l.Explained log) (st : SessionStatus) {es : List LogEvent}
    (hes : es.foldl EventLog.note l.status = st) : EventLog.status (log ++ es) = st := by
  rw [EventLog.status_append, h.status]
  exact hes

/-- What is emitted and logged at once. -/
theorem Explained.heard_of_eq (h : l.Explained log) (es : List LogEvent) (ms : List Emit)
    (hhead : es.head? ≠ some .destroy)
    (hes : EventLog.echo l.hasPrivError es = ms.filter Emit.heard) :
    EventLog.echo l.hasPrivError (log ++ es) = (l.emitted ++ ms).filter Emit.heard := by
  rw [EventLog.echo_append l.hasPrivError log hhead, h.heard, hes, List.filter_append]

theorem Explained.losses_le (h : l.Explained log) (ms : List Emit) (es : List LogEvent)
    (hms : ms.countP Emit.isDisconnect ≤ EventLog.losses l.status es) :
    (l.emitted ++ ms).countP Emit.isDisconnect ≤ EventLog.losses .init (log ++ es) := by
  have hstatus : log.foldl EventLog.note .init = l.status := h.status
  have hlosses := h.losses
  rw [EventLog.losses_append, hstatus, List.countP_append]
  omega

/-- A loss that is logged is emitted or not. -/
theorem Explained.disconnect (h : l.Explained log) : l.Explained (log ++ [.disconnect]) where
  status := h.status_of_eq l.status rfl
  heard := by
    have hheard := h.heard_of_eq [.disconnect] [] (by decide) rfl
    rwa [List.append_nil] at hheard
  destroys := by
    rw [List.count_append]
    exact h.destroys
  losses := by
    have hlosses := h.losses_le [] [.disconnect] (Nat.zero_le _)
    rwa [List.append_nil] at hlosses
  shaped := h.shaped.disconnected

/-- The destruction, after an entry that ends the session. -/
theorem Explained.destroy (h : l.Explained log) (ms : List Emit) {e : LogEvent}
    (he : e = .error ∨ e = .end_) (hms : ∀ m ∈ ms, m ≠ .destroy ∧ m.isDisconnect = false)
    (hheard : EventLog.echo l.hasPrivError [e, .destroy] = ms.filter Emit.heard) :
    Explained ({ l with status := .finalizing, emitted := l.emitted ++ ms } : Lifecycle).destroy
      (log ++ [e, .destroy]) := by
  have hcount : (l.emitted ++ ms).count .destroy = l.emitted.count .destroy := by
    have hnone : ms.count .destroy = 0 := List.count_eq_zero.mpr (fun hm => (hms _ hm).1 rfl)
    rw [List.count_append, hnone]
    rfl
  have hlost : ms.countP Emit.isDisconnect = 0 := by
    refine List.countP_eq_zero.mpr (fun m hm => ?_)
    rw [(hms m hm).2]
    exact Bool.false_ne_true
  have hhead : [e, LogEvent.destroy].head? ≠ some .destroy := by
    rcases he with rfl | rfl <;> decide
  have hone : [e, LogEvent.destroy].count .destroy = 1 := by
    rcases he with rfl | rfl <;> rfl
  have hlosses : (l.emitted ++ ms).countP Emit.isDisconnect ≤
      EventLog.losses .init (log ++ [e, .destroy]) := h.losses_le ms _ (by omega)
  have hecho := h.heard_of_eq _ ms hhead hheard
  have hdestroys := h.destroys
  have hstatus : EventLog.status (log ++ [e, .destroy]) = .destroyed :=
    h.status_of_eq _ (by rcases he with rfl | rfl <;> rfl)
  have hshaped : EventLog.Shaped l.hasPrivError (log ++ [e, .destroy]) := by
    rcases he with rfl | rfl
    · exact h.shaped.failed
    · exact h.shaped.ended
  unfold Lifecycle.destroy announce
  change Explained (ite (l.track = 0) _ _) _
  split_ifs
  · -- `destroy` is emitted at once
    refine ⟨hstatus, ?_, ?_, ?_, hshaped⟩
    · rw [emit, setStatus, List.filter_append]
      exact hecho.trans (List.append_nil _).symm
    · change _ = ((l.emitted ++ ms) ++ [Emit.destroy]).count .destroy + l.timers
      rw [List.count_append, List.count_append, hcount, hone]
      have hself : [Emit.destroy].count .destroy = 1 := rfl
      omega
    · change ((l.emitted ++ ms) ++ [Emit.destroy]).countP _ ≤ _
      rw [List.countP_append]
      exact hlosses
  · -- a tracked session waits
    refine ⟨hstatus, hecho, ?_, hlosses, hshaped⟩
    change _ = (l.emitted ++ ms).count .destroy + (l.timers + 1)
    rw [List.count_append, hcount, hone]
    omega

theorem Explained.lose (h : l.Explained log) (origin : String) :
    (l.apply (.lose origin)).Explained (log ++ [.disconnect]) := by
  change Explained (ite (l.status = SessionStatus.connected) _ _) (log ++ [.disconnect])
  split_ifs with hconnected
  · have hlost := h.disconnect
    refine ⟨hlost.status, ?_, ?_, ?_, hlost.shaped⟩
    · change _ = (l.emitted ++ [Emit.disconnect origin]).filter Emit.heard
      rw [List.filter_append]
      exact hlost.heard.trans (List.append_nil _).symm
    · have hcount : (l.emitted ++ [Emit.disconnect origin]).count .destroy =
          l.emitted.count .destroy := List.count_append
      change _ = (l.emitted ++ [Emit.disconnect origin]).count .destroy + l.timers
      rw [hcount]
      exact hlost.destroys
    · refine h.losses_le [.disconnect origin] [.disconnect] ?_
      rw [hconnected]
      exact Nat.le_refl 1
  · -- `disconnect` is logged, but it is emitted only by a connected session
    exact h.disconnect

theorem Explained.tick (h : l.Explained log) : (l.apply .tick).Explained log := by
  change Explained (ite (l.timers = 0) _ _) log
  split_ifs with ht
  · exact h
  · refine ⟨h.status, ?_, ?_, ?_, h.shaped⟩
    · change _ = (l.emitted ++ [Emit.destroy]).filter Emit.heard
      rw [List.filter_append]
      exact h.heard.trans (List.append_nil _).symm
    · change _ = (l.emitted ++ [Emit.destroy]).count .destroy + (l.timers - 1)
      have hdestroys := h.destroys
      have hself : [Emit.destroy].count .destroy = 1 := rfl
      rw [List.count_append]
      omega
    · change (l.emitted ++ [Emit.destroy]).countP Emit.isDisconnect ≤ _
      rw [List.countP_append]
      exact h.losses

theorem Explained.connected (h : l.Explained log) :
    l.connected.Explained (log ++ [.connect]) := by
  refine ⟨h.status_of_eq .connected rfl, h.heard_of_eq [.connect] [.connect] (by decide) rfl, ?_,
    h.losses_le [.connect] [.connect] (Nat.zero_le _), h.shaped.connected⟩
  have hdestroys := h.destroys
  change _ = (l.emitted ++ [Emit.connect]).count .destroy + l.timers
  rw [List.count_append, List.count_append]
  exact hdestroys

/-- `priv.error` throws, and nothing more happens. -/
theorem Explained.thrown (h : l.Explained log) (hpriv : l.hasPrivError = true) :
    ((l.setStatus .finalizing).emit .privError).Explained (log ++ [.error]) := by
  refine ⟨h.status_of_eq .finalizing rfl, h.heard_of_eq [.error] [.privError] (by decide) rfl, ?_,
    h.losses_le [.privError] [.error] (Nat.zero_le _), h.shaped.thrown hpriv⟩
  have hdestroys := h.destroys
  change _ = (l.emitted ++ [Emit.privError]).count .destroy + l.timers
  rw [List.count_append, List.count_append]
  exact hdestroys

theorem Explained.error (h : l.Explained log) (thr : Bool) :
    (l.error thr).Explained (log ++ (Move.error thr).entries l.hasPrivError) := by
  unfold Lifecycle.error Move.entries
  cases hpriv : l.hasPrivError with
  | false =>
    refine h.destroy [.error] (Or.inl rfl) (by decide) ?_
    rw [hpriv]
    rfl
  | true =>
    cases thr with
    | true => exact h.thrown hpriv
    | false =>
      rw [if_neg (by decide), if_neg Bool.false_ne_true]
      unfold emit setStatus
      rw [List.append_assoc]
      refine h.destroy [.privError, .error] (Or.inl rfl) (by decide) ?_
      rw [hpriv]
      rfl

/-- Every move explains itself, admitted or not. -/
theorem Explained.apply (h : l.Explained log) (m : Move) :
    (l.apply m).Explained (log ++ m.entries l.hasPrivError) := by
  cases m with
  | lose origin => exact h.lose origin
  | tick =>
    have htick := h.tick
    rwa [← List.append_nil log] at htick
  | connected => exact h.connected
  | error thr => exact h.error thr
  | end_ => exact h.destroy [.end_] (Or.inr rfl) (by decide) rfl

theorem Explained.moves (h : l.Explained log) (ms : List Move) :
    (ms.foldl Lifecycle.apply l).Explained (log ++ ms.flatMap (Move.entries l.hasPrivError)) := by
  induction ms generalizing l log with
  | nil =>
    rw [List.flatMap_nil, List.append_nil]
    exact h
  | cons m ms ih =>
    have hrest := ih (h.apply m)
    rw [hasPrivError_apply, List.append_assoc] at hrest
    exact hrest

end Lifecycle

namespace Session
open Lifecycle (Move)

/-- `disconnect` logs the loss and returns: the stage is not `READY`. -/
def ignores (s : Session) : Event → Bool
  | .lost i _ _ => match s.stage? i with
    | none => false
    | some st => st.listening && st.status ≠ .ready
  | .disconnect i _ _ => match s.stage? i with
    | none => false
    | some st => st.status ≠ .ready
  | _ => false

/-- What the piece of code that an event starts writes into the log. -/
def entries (s : Session) (e : Event) : List LogEvent :=
  if s.ignores e then [.disconnect] else (s.moves e).flatMap (Move.entries s.hasPrivError)

theorem entries_one {s : Session} {e : Event} {m : Move} (he : s.ignores e = false)
    (hm : s.moves e = [m]) : s.entries e = m.entries s.hasPrivError := by
  unfold entries
  rw [he, hm, if_neg Bool.false_ne_true, List.flatMap_singleton]

theorem entries_none {s : Session} {e : Event} (he : s.ignores e = false) (hm : s.moves e = []) :
    s.entries e = [] := by
  unfold entries
  rw [he, hm, if_neg Bool.false_ne_true, List.flatMap_nil]

theorem events_announce (s : Session) : s.announce.events = s.events := by
  unfold announce
  split_ifs <;> rfl

theorem events_destroy (s : Session) : s.destroy.events = s.events ++ [.destroy] :=
  events_announce _

theorem events_error (thr : Bool) (s : Session) :
    (s.error thr).events = s.events ++ (Move.error thr).entries s.hasPrivError := by
  unfold error Move.entries
  cases s.hasPrivError with
  | false =>
    rw [if_pos rfl, events_destroy]
    exact List.append_assoc ..
  | true =>
    cases thr with
    | false =>
      rw [if_neg (by decide), if_neg Bool.false_ne_true, events_destroy]
      exact List.append_assoc ..
    | true => rfl

theorem events_end_ (s : Session) : s.end_.events = s.events ++ [.end_, .destroy] := by
  unfold end_
  rw [events_destroy]
  exact List.append_assoc ..

theorem events_reconnect (env : Env) (retry : Retry) (st : Stage) (s : Session) :
    (s.reconnect env retry st).events = s.events := by
  unfold reconnect
  split_ifs <;> rfl

theorem dropStage_log (st : Stage) (s : Session) : (s.dropStage st).events = s.events ∧
    (s.dropStage st).hasPrivError = s.hasPrivError := by
  unfold dropStage
  split_ifs <;> exact ⟨rfl, rfl⟩

/-- The log of `disconnect`, branch by branch of the retry policy. -/
theorem events_disconnect (env : Env) (thr : Bool) (st : Stage) (s : Session) :
    (s.disconnect env thr st).events = s.events ++ if st.status = .ready then
      (s.disconnectMoves thr st).flatMap (Move.entries s.hasPrivError) else [.disconnect] := by
  obtain ⟨hevents, hpriv⟩ := dropStage_log st (s.log .disconnect)
  have hroute : ((s.log .disconnect).dropStage st).route = s.route := dropStage_route st _
  have herror : (((s.log .disconnect).dropStage st).error thr).events =
      s.events ++ .disconnect :: (Move.error thr).entries s.hasPrivError := by
    rw [events_error, hevents, hpriv]
    exact List.append_assoc ..
  unfold disconnect disconnectMoves
  by_cases hready : st.status = .ready
  · rw [if_pos hready, if_pos hready, if_pos hready, List.flatMap_cons]
    unfold afterLoss
    rw [hroute]
    cases s.route with
    | none => exact hevents
    | some route =>
      cases hpol : route.retry.retry_on <;> simp only [hpol]
      case always | disconnect =>
        split_ifs
        · rw [events_reconnect]
          exact hevents
        · rw [herror, List.flatMap_singleton]
          rfl
      case connectFailure | never =>
        rw [events_end_, hevents]
        exact List.append_assoc ..
      case other =>
        rw [herror, List.flatMap_singleton]
        rfl
  · rw [if_neg hready, if_neg hready]
    rfl

theorem events_rejoin (thr : Bool) (i : ℕ) (s : Session) : (s.rejoin thr i).events = s.events ++
    if (s.newPipes i).2 = false then (Move.error thr).entries s.hasPrivError
    else if s.active_streams + 1 = s.num_streams then [.connect] else [] := by
  have hactive : ((s.addActive 1).addPipes (s.newPipes i).1).active_streams =
      s.active_streams + 1 := rfl
  have hnum : ((s.addActive 1).addPipes (s.newPipes i).1).num_streams = s.num_streams := rfl
  simp only [rejoin, hactive, hnum]
  split_ifs
  · exact events_error thr _
  · rfl
  · exact (List.append_nil _).symm

/-- Every step of a session logs the methods that it calls. -/
theorem step_events {s t : Session} {e : Event} (h : s.step e = some t) :
    t.events = s.events ++ s.entries e := by
  cases e with
  -- only a stage and its retries change, of which the log says nothing
  | streamOk k ep | listenerOk k | listenerFail k | resume k =>
    simp only [step] at h
    split at h <;> cases h
    exact (List.append_nil _).symm
  | streamFail k abrupt =>
    simp only [step] at h
    split at h
    · split at h <;> cases h <;> exact (List.append_nil _).symm
    · cases h
  | timer k env =>
    simp only [step] at h
    split at h
    · obtain ⟨st, -, rfl⟩ := Option.map_eq_some_iff.mp h
      exact (List.append_nil _).symm
    · cases h
  | lost i env thr =>
    simp only [step] at h
    split_ifs at h
    cases hst : s.stage? i with
    | none =>
      simp only [hst] at h
      cases h
    | some st =>
      simp only [hst] at h
      obtain ⟨x, -, rfl⟩ := Option.map_eq_some_iff.mp h
      simp only [entries, ignores, moves, hst]
      cases st.listening with
      | false => exact (List.append_nil _).symm
      | true =>
        refine (events_disconnect ..).trans ?_
        by_cases hready : st.status = .ready
        · simp only [hready, ne_eq, not_true_eq_false, decide_false, Bool.and_false,
            Bool.false_eq_true, ↓reduceIte]
          rfl
        · simp only [hready, ne_eq, not_false_eq_true, decide_true, Bool.and_true, ↓reduceIte]
  | disconnect i env thr =>
    simp only [step] at h
    split_ifs at h
    cases hst : s.stage? i with
    | none =>
      simp only [hst] at h
      cases h
    | some st =>
      simp only [hst] at h
      split_ifs at h
      cases h
      simp only [entries, ignores, moves, hst]
      refine (events_disconnect ..).trans ?_
      by_cases hready : st.status = .ready
      · simp only [hready, ne_eq, not_true_eq_false, decide_false, Bool.false_eq_true, ↓reduceIte]
      · simp only [hready, ne_eq, not_false_eq_true, decide_true, ↓reduceIte]
  | end_ =>
    cases h
    exact events_end_ s
  | error thr =>
    cases h
    rw [entries_one rfl rfl]
    exact events_error thr s
  | destroyTimer =>
    simp only [step] at h
    split_ifs at h
    cases h
    exact (List.append_nil _).symm
  | rejoin k thr =>
    simp only [step] at h
    split at h
    · rename_i i hk
      cases h
      have hmoves : s.moves (.rejoin k thr) = if (s.newPipes i).2 = false then [.error thr]
          else if s.active_streams + 1 = s.num_streams then [.connected] else [] := by
        simp only [moves, hk]
      refine (events_rejoin ..).trans ?_
      change _ ++ ite ((s.newPipes i).2 = false) _ (ite (s.active_streams + 1 = s.num_streams) _ _)
        = _
      split_ifs at hmoves ⊢
      · rw [entries_one rfl hmoves]
        rfl
      · rw [entries_one rfl hmoves]
        rfl
      · rw [entries_none rfl hmoves]
        rfl
    · cases h
  | giveUp k thr =>
    simp only [step] at h
    split at h <;> cases h
    rw [entries_one rfl rfl]
    exact events_error ..
  | pipelineOk =>
    simp only [step] at h
    split_ifs at h
    cases h
    rfl
  | pipelineFail thr =>
    simp only [step] at h
    split_ifs at h
    cases h
    rw [entries_one rfl rfl]
    exact events_error ..

theorem ignores_moves {s : Session} {e : Event} (h : s.ignores e = true) : s.moves e = [] := by
  have hignored : ∀ {st : Stage} {thr : Bool}, st.status ≠ .ready → s.disconnectMoves thr st = [] :=
    fun hst => if_neg hst
  cases e with
  | lost i env thr =>
    simp only [ignores] at h
    simp only [moves]
    cases hst : s.stage? i with
    | none => rfl
    | some st =>
      simp only [hst, Bool.and_eq_true, decide_eq_true_eq] at h ⊢
      rw [if_pos h.1]
      exact hignored h.2
  | disconnect i env thr =>
    simp only [ignores] at h
    simp only [moves]
    cases hst : s.stage? i with
    | none => rfl
    | some st =>
      simp only [hst, decide_eq_true_eq] at h ⊢
      exact hignored h
  | _ => cases h

/-- Every step of a session is explained by what it logs. -/
theorem explained_step {s t : Session} {e : Event} (hs : s.lifecycle.Explained s.events)
    (h : s.step e = some t) : t.lifecycle.Explained t.events := by
  rw [step_lifecycle h, step_events h]
  cases he : s.ignores e with
  | false =>
    -- the methods that the step calls, one after the other
    have hmoves := hs.moves (s.moves e)
    unfold entries
    rw [he, if_neg Bool.false_ne_true]
    exact hmoves
  | true =>
    unfold entries
    rw [he, if_pos rfl, ignores_moves he]
    exact hs.disconnect

theorem explained_start (name : String) (id : ℕ) (origin : String) (err : Bool) (st : Start) :
    (start name id origin err st).lifecycle.Explained (start name id origin err st).events := by
  have hnew (track : ℕ) : Lifecycle.Explained ⟨.init, [.init], 0, track, err⟩ [.init] :=
    ⟨rfl, rfl, rfl, Nat.zero_le _, .created⟩
  have hfound (track : ℕ) :
      Lifecycle.Explained ⟨.init, [.init], 0, track, err⟩ [.init, .lookupSuccess] :=
    ⟨rfl, rfl, rfl, Nat.zero_le _, .found⟩
  cases st with
  | failed track lookedUp thr =>
    unfold start
    cases lookedUp with
    | false =>
      change Lifecycle.Explained (Session.error thr _).lifecycle (Session.error thr _).events
      rw [lifecycle_error, events_error]
      exact (hnew track).error thr
    | true =>
      change Lifecycle.Explained (Session.error thr _).lifecycle (Session.error thr _).events
      rw [lifecycle_error, events_error]
      exact (hfound track).error thr
  | piped track reconnect route env => exact hfound track

theorem hasPrivError_step {s t : Session} {e : Event} (h : s.step e = some t) :
    t.hasPrivError = s.hasPrivError := by
  have hfold (ms : List Move) (l : Lifecycle) :
      (ms.foldl Lifecycle.apply l).hasPrivError = l.hasPrivError := by
    induction ms generalizing l with
    | nil => rfl
    | cons m ms ih => exact (ih _).trans (Lifecycle.hasPrivError_apply l m)
  have hlife := congrArg Lifecycle.hasPrivError (step_lifecycle h)
  exact hlife.trans (hfold _ _)

theorem hasPrivError_start (name : String) (id : ℕ) (origin : String) (err : Bool) (st : Start) :
    (start name id origin err st).hasPrivError = err := by
  cases st with
  | failed track lookedUp thr =>
    have hstart : (start name id origin err (.failed track lookedUp thr)).lifecycle =
        Lifecycle.error thr ⟨.init, [.init], 0, track, err⟩ := by
      simp only [start]
      split_ifs <;> rw [lifecycle_error] <;> rfl
    have herror := congrArg Lifecycle.hasPrivError hstart
    exact herror.trans (Lifecycle.hasPrivError_apply _ (.error thr))
  | piped track reconnect route env => rfl

/-- In every run, also one that goes on after the session was destroyed, the log alone says what the
status is and what was emitted when: the order of INIT, CONNECT, ERROR and END is that of the log,
every DESTROY is emitted or waits for its timer, and every disconnect that was emitted is logged as
a loss of a connected session. A DESTROY directly follows the ERROR or END that it belongs to. -/
theorem log_explains (name : String) (id : ℕ) (origin : String) (err : Bool) (st : Start)
    (s : Session) (hrun : Run step always (start name id origin err st) s) :
    EventLog.status s.events = s.status ∧
    EventLog.echo err s.events = s.emitted.filter Emit.heard ∧
    s.events.count .destroy = s.emitted.count .destroy + s.timers ∧
    s.emitted.countP Emit.isDisconnect ≤ EventLog.losses .init s.events ∧
    EventLog.Shaped err s.events := by
  have hinv : s.hasPrivError = err ∧ s.lifecycle.Explained s.events := by
    refine Run.invariant (P := fun s => s.hasPrivError = err ∧ s.lifecycle.Explained s.events)
      ?_ hrun ⟨hasPrivError_start .., explained_start ..⟩
    intro s e t hs _ h
    exact ⟨(hasPrivError_step h).trans hs.1, explained_step hs.2 h⟩
  obtain ⟨hpriv, hstatus, hheard, hdestroys, hlosses, hshaped⟩ := hinv
  change EventLog.echo s.hasPrivError s.events = _ at hheard
  change EventLog.Shaped s.hasPrivError s.events at hshaped
  rw [hpriv] at hheard hshaped
  exact ⟨hstatus, hheard, hdestroys, hlosses, hshaped⟩

/-- A session that loses its destination, connects it again and is ended. -/
theorem log_explains_ended : ∃ s, exec step always (pendingSession .always)
      [.streamOk 0 ⟨"e", some "c"⟩, .pipelineOk, .lost 1 lookupAll false,
        .streamOk 1 ⟨"e", some "c"⟩, .resume 1, .rejoin 1 false, .end_] = some s ∧
    s.events = [.init, .lookupSuccess, .connect, .disconnect, .connect, .end_, .destroy] ∧
    EventLog.echo true s.events = s.emitted.filter Emit.heard := by
  obtain ⟨s, hs⟩ : ∃ s, exec step always (pendingSession .always)
      [.streamOk 0 ⟨"e", some "c"⟩, .pipelineOk, .lost 1 lookupAll false,
        .streamOk 1 ⟨"e", some "c"⟩, .resume 1, .rejoin 1 false, .end_] = some s := ⟨_, rfl⟩
  have hlog := log_explains "s" 0 "l" true _ s (exec_run _ _ _ hs)
  refine ⟨s, hs, ?_, hlog.2.1⟩
  cases hs
  rfl

end Session
end L7mp
