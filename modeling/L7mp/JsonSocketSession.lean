import L7mp.SessionOwned

/-! What a JSONSocket listener writes to its client while the session runs: the response header of
`onSession` after the session was accepted, the header of `error`, and the payload that the
pipes bring. -/
namespace L7mp
open GuardedRun

namespace Ledger

/-- There are no pipes before the pipeline was piped. -/
def Dry (l : Ledger) : Prop := l.pipes ≠ [] → l.frame.piped = true

theorem finalise_pipes (stuck : Bool) (l : Ledger) : (l.finalise stuck).pipes = l.pipes := by
  unfold finalise
  split_ifs <;> rfl

theorem Dry.finalise {l : Ledger} (h : l.Dry) (stuck : Bool) : (l.finalise stuck).Dry := by
  intro hp
  rw [finalise_pipes] at hp
  rw [finalise_piped]
  exact h hp

/-- A stage that drops out takes pipes away only. -/
theorem Dry.drop {l : Ledger} (h : l.Dry) (st : Stage) (xs : List ℕ) :
    ((l.lose xs).drop st).Dry := by
  intro hp
  apply h
  intro hnil
  apply hp
  show l.pipes.filter _ = []
  rw [hnil]
  rfl

/-- The pipeline is piped by the step of that name, and once and for all. -/
theorem Step.piped_iff {c : Option Chain} {l l' : Ledger} {label : Label}
    (h : Step c l label l') (ho : l.frame.Owned) :
    l'.frame.piped = true ↔ l.frame.piped = true ∨ label = .piped := by
  cases h with
  | same | lose | advance | obtain | listenerOk | resume | rejoin =>
    exact ⟨Or.inl, fun h => h.elim id nofun⟩
  | finalise stuck =>
    rw [finalise_piped]
    exact ⟨Or.inl, fun h => h.elim id nofun⟩
  | drop st xs label l' hst hready hsrc hxs hno h =>
    cases h with
    | none | wait | refuse => exact ⟨Or.inl, fun h => h.elim id nofun⟩
    | finalise stuck =>
      rw [finalise_piped]
      exact ⟨Or.inl, fun h => h.elim id nofun⟩
  | rejoinFail k i stuck hk | giveUp k i stuck hk | pipelineFail stuck hk =>
    rw [finalise_piped]
    exact ⟨Or.inl, fun h => h.elim id nofun⟩
  | reconnected k i hk hall => exact ⟨fun _ => Or.inl (ho.piped_of_task hk rfl), fun _ => rfl⟩
  | pipelineOk hset hall => exact ⟨fun _ => Or.inr rfl, fun _ => rfl⟩

theorem Step.dry {c : Option Chain} {l l' : Ledger} {label : Label}
    (h : Step c l label l') (ho : l.frame.Owned) (hd : l.Dry) : l'.Dry := by
  cases h with
  | same | lose | advance | obtain | listenerOk | resume => exact hd
  | finalise stuck => exact hd.finalise stuck
  | drop st xs label l' hst hready hsrc hxs hno h =>
    cases h with
    | none | wait | refuse => exact hd.drop st xs
    | finalise stuck => exact (hd.drop st xs).finalise stuck
  -- a call that repipes is a call of a `disconnect`
  | rejoinFail k i stuck hk =>
    apply Dry.finalise
    exact fun _ => ho.piped_of_task hk rfl
  | rejoin k i hk => exact fun _ => ho.piped_of_task hk rfl
  | reconnected => exact fun _ => rfl
  | giveUp k i stuck => exact Dry.finalise (l := l.dropTask k) hd stuck
  | pipelineOk => exact fun _ => rfl
  | pipelineFail stuck => exact Dry.finalise (l := l.settled) hd stuck

end Ledger

namespace Lifecycle

theorem hasPrivError_apply (l : Lifecycle) (m : Move) :
    (l.apply m).hasPrivError = l.hasPrivError := by
  cases m <;> unfold apply <;> dsimp only
  case lose => split_ifs <;> rfl
  case tick => split_ifs <;> rfl
  case connected => rfl
  case error =>
    unfold error destroy announce
    split_ifs <;> rfl
  case end_ =>
    unfold end_ destroy announce
    split_ifs <;> rfl

/-- A call of `error` calls `priv.error`. -/
theorem privError_error {l : Lifecycle} (h : l.hasPrivError = true) (thr : Bool) :
    .privError ∈ (l.error thr).emitted := by
  have hnot : ¬ l.hasPrivError = false := by
    rw [h]
    exact nofun
  unfold error
  rw [if_neg hnot]
  split_ifs
  · exact List.mem_append_right _ (List.mem_singleton_self _)
  · obtain ⟨es, hes⟩ := emitted_announce
      ((((l.setStatus .finalizing).emit .privError).emit .error).setStatus .destroyed)
    show .privError ∈ (Lifecycle.announce _).emitted
    rw [hes]
    apply List.mem_append_left
    apply List.mem_append_left
    exact List.mem_append_right _ (List.mem_singleton_self _)

theorem privError_foldl {thr : Bool} : ∀ (ms : List Move) (l : Lifecycle), l.hasPrivError = true →
    .error thr ∈ ms → .privError ∈ (ms.foldl apply l).emitted
  | m :: ms, l, h, hm => by
    rcases List.mem_cons.mp hm with rfl | hm
    · obtain ⟨es, hes⟩ := emitted_foldl ms (l.apply (.error thr))
      rw [List.foldl_cons, hes]
      exact List.mem_append_left _ (privError_error h thr)
    · exact privError_foldl ms (l.apply m) ((hasPrivError_apply l m).trans h) hm

end Lifecycle

/-- A message on the stream of the client: a response header, with the status 200 or that of an
error, or payload. -/
inductive SocketMessage
  | response (ok : Bool)
  | payload
  deriving DecidableEq, Repr

/-- A session with the stream of its client. `acking` says that `router` has resolved with status
200 and that the code behind it in `addSession` and `onSession` did not run yet. -/
structure SocketSession where
  session : Session
  acking : Bool
  wire : List SocketMessage
  deriving Repr

namespace SocketSession
open Lifecycle (Move)

/-- The headers that `error` of the listener writes, where it does not throw. -/
def errorHeaders (hasPrivError : Bool) (ms : List Move) : List SocketMessage :=
  if hasPrivError then (ms.filter (fun m => m = .error false)).map (fun _ => .response false)
  else []

/-- A session event, the rest of `onSession`, and a message that a pipe brings to the client. -/
inductive Event
  | session (e : Session.Event)
  | acknowledge
  | payload

def isPipelineOk : Session.Event → Bool
  | .pipelineOk => true
  | _ => false

/-- A session event with its headers. `router` returns after the pipeline is set up. -/
def onEvent (e : Session.Event) (t : Session) (s : SocketSession) : SocketSession :=
  ⟨t, s.acking || isPipelineOk e,
    s.wire ++ errorHeaders s.session.hasPrivError (s.session.moves e)⟩

/-- Streams bring no payload before the promises that are settled went on. -/
def step (s : SocketSession) : Event → Option SocketSession
  | .session e => (s.session.step e).map (fun t => s.onEvent e t)
  | .acknowledge => if s.acking then some ⟨s.session, false, s.wire ++ [.response true]⟩ else none
  | .payload =>
    if !s.acking && s.session.pipes.any (fun p => p.2 = s.session.source.id) then
      some ⟨s.session, false, s.wire ++ [.payload]⟩
    else none

/-- The call of `addSession` by `onSession`. A session that cannot be created has failed. -/
def start (name : String) (id : ℕ) (origin : String) : Session.Start → SocketSession
  | .failed track lookedUp thr =>
    ⟨Session.start name id origin true (.failed track lookedUp thr), false,
      errorHeaders true [.error thr]⟩
  | .piped track reconnect route env =>
    ⟨Session.start name id origin true (.piped track reconnect route env), false, []⟩

/-- One response header at most, and it is the first message. -/
def OneResponse (s : SocketSession) : Prop :=
  s.wire = [] ∨ ∃ ok n, s.wire = .response ok :: List.replicate n .payload

/-- `error` writes its header before the session was ever connected and for the first time, and
the pipeline is set up for a session that did not fail. -/
def Meets (s : SocketSession) : Event → Prop
  | .session e => (.error false ∈ s.session.moves e →
      .connect ∉ s.session.events ∧ .privError ∉ s.session.emitted) ∧
      (isPipelineOk e = true → .privError ∉ s.session.emitted)
  | _ => True

instance (s : SocketSession) : ∀ e, Decidable (Meets s e)
  | .session _ => inferInstanceAs (Decidable (_ ∧ _))
  | .acknowledge => inferInstanceAs (Decidable True)
  | .payload => inferInstanceAs (Decidable True)

/-- What the guarded steps keep. -/
structure Orderly (s : SocketSession) : Prop where
  sound : s.session.ledger.Sound
  dry : s.session.ledger.Dry
  -- a header, or the wait for one, has its reason
  reason : s.wire ≠ [] ∨ s.acking = true →
    .connect ∈ s.session.events ∨ .privError ∈ s.session.emitted
  -- a session that was connected has its header, or waits for it
  answered : .connect ∈ s.session.events → s.wire ≠ [] ∨ s.acking = true
  quiet : s.acking = true → s.wire = []
  one : OneResponse s

/-- A piece of code calls `error` once at most. -/
theorem moves_error (s : Session) (e : Session.Event) :
    ((s.moves e).filter (fun m => m = .error false)).length ≤ 1 := by
  have hdisconnect : ∀ thr st, ((s.disconnectMoves thr st).filter
      (fun m => m = .error false)).length ≤ 1 := by
    intro thr st
    unfold Session.disconnectMoves
    split
    · simp only [List.filter_cons, reduceCtorEq, decide_false, Bool.false_eq_true, if_false]
      split
      · simp
      · split
        · split
          · simp
          · exact List.length_filter_le _ _
        · split
          · simp
          · exact List.length_filter_le _ _
        · simp
        · simp
        · exact List.length_filter_le _ _
    · simp
  have hone : ∀ m : Move, ([m].filter (fun m => m = .error false)).length ≤ 1 :=
    fun m => List.length_filter_le _ _
  unfold Session.moves
  split
  · split
    · simp
    · split
      · exact hdisconnect _ _
      · simp
  · split
    · simp
    · exact hdisconnect _ _
  all_goals try exact hone _
  · split
    · split
      · exact hone _
      · split
        · exact hone _
        · simp
    · simp
  all_goals simp

/-- No header, or one, of a session that has `priv.error`. -/
theorem errorHeaders_cases (s : Session) (e : Session.Event) :
    errorHeaders s.hasPrivError (s.moves e) = [] ∨
      errorHeaders s.hasPrivError (s.moves e) = [.response false] ∧ s.hasPrivError = true ∧
        .error false ∈ s.moves e := by
  have hle := moves_error s e
  unfold errorHeaders
  split
  · rename_i hpriv
    rcases hfilter : (s.moves e).filter (fun m => m = .error false) with _ | ⟨m, ms⟩
    · rw [hfilter]
      exact Or.inl rfl
    · rw [hfilter, List.length_cons] at hle
      have hms : ms = [] := List.length_eq_zero_iff.mp (by omega)
      have hmem : m ∈ (s.moves e).filter (fun m => m = .error false) := by
        rw [hfilter]
        exact List.mem_cons_self
      obtain ⟨hmoves, hm⟩ := List.mem_filter.mp hmem
      refine Or.inr ⟨by rw [hfilter, hms]; rfl, hpriv, ?_⟩
      rw [of_decide_eq_true hm] at hmoves
      exact hmoves
  · exact Or.inl rfl

/-- The log of a session and what it emitted only grow. -/
theorem step_grows {s t : Session} {e : Session.Event} (hs : s.ledger.Sound)
    (h : s.step e = some t) :
    (.connect ∈ t.events ↔ .connect ∈ s.events ∨ isPipelineOk e = true) ∧
      (.privError ∈ s.emitted → .privError ∈ t.emitted) := by
  have hpiped := (Session.step_ledger h).piped_iff hs.owned
  have hlabel : s.label e = .piped ↔ isPipelineOk e = true := by
    cases e <;> simp only [Session.label, isPipelineOk, Bool.false_eq_true, iff_false]
    all_goals try split
    all_goals try split
    all_goals simp
  have hevents : ∀ u : Session, .connect ∈ u.events ↔ u.ledger.frame.piped = true := by
    intro u
    exact List.contains_iff_mem.symm
  refine ⟨?_, ?_⟩
  · rw [hevents t, hevents s, hpiped, hlabel]
  · intro hmem
    obtain ⟨es, hes⟩ := Lifecycle.emitted_foldl (s.moves e) s.lifecycle
    have hemitted : t.emitted = s.emitted ++ es := by
      calc t.emitted = t.lifecycle.emitted := rfl
        _ = ((s.moves e).foldl Lifecycle.apply s.lifecycle).emitted := by
          rw [Session.step_lifecycle h]
        _ = s.emitted ++ es := hes
    rw [hemitted]
    exact List.mem_append_left _ hmem

theorem oneResponse_append {s : SocketSession} (h : OneResponse s) (hne : s.wire ≠ [])
    (t : Session) (acking : Bool) : OneResponse ⟨t, acking, s.wire ++ [.payload]⟩ := by
  obtain ⟨ok, n, hwire⟩ := h.resolve_left hne
  refine Or.inr ⟨ok, n + 1, ?_⟩
  show s.wire ++ [.payload] = _
  rw [hwire, List.cons_append, List.replicate_succ']

theorem not_connected_of_pipelineOk {s t : Session} {e : Session.Event} (hs : s.ledger.Sound)
    (h : s.step e = some t) (he : isPipelineOk e = true) : .connect ∉ s.events := by
  intro hc
  have hpiped : s.frame.piped = true := List.contains_iff_mem.mpr hc
  have hset : s.settingUp = false := hs.owned.settingUp_of_piped hpiped
  cases e <;> simp only [isPipelineOk, Bool.false_eq_true] at he
  simp only [Session.step, hset, Bool.false_eq_true, false_and, if_false] at h
  cases h

/-- A session without its header that did not fail has nothing on the wire, and waits for
nothing. -/
theorem Orderly.nothing {s : SocketSession} (h : Orderly s) (hc : .connect ∉ s.session.events)
    (hp : .privError ∉ s.session.emitted) : s.wire = [] ∧ s.acking = false := by
  have hnot : ¬ (s.wire ≠ [] ∨ s.acking = true) := fun hr => (h.reason hr).elim hc hp
  refine ⟨?_, ?_⟩
  · by_contra hw
    exact hnot (Or.inl hw)
  · by_contra ha
    exact hnot (Or.inr (eq_true_of_ne_false ha))

/-- A session event that writes no header. -/
theorem onEvent_silent {s : SocketSession} {t : Session} {e : Session.Event}
    (hstep : s.session.step e = some t)
    (hok : isPipelineOk e = true → .privError ∉ s.session.emitted)
    (hnone : errorHeaders s.session.hasPrivError (s.session.moves e) = []) (h : Orderly s) :
    Orderly (s.onEvent e t) := by
  have hledger := Session.step_ledger hstep
  obtain ⟨hconnect, hpriv⟩ := step_grows h.sound hstep
  have hwire : (s.onEvent e t).wire = s.wire := by
    show s.wire ++ errorHeaders _ _ = s.wire
    rw [hnone, List.append_nil]
  have hacking : (s.onEvent e t).acking = true ↔ s.acking = true ∨ isPipelineOk e = true :=
    Bool.or_eq_true_iff
  refine ⟨hledger.sound h.sound, hledger.dry h.sound.owned h.dry, ?_, ?_, ?_, ?_⟩
  · rw [hwire, hacking]
    intro hr
    show .connect ∈ t.events ∨ .privError ∈ t.emitted
    rw [hconnect]
    rcases hr with hw | ha | he
    · exact (h.reason (Or.inl hw)).imp Or.inl hpriv
    · exact (h.reason (Or.inr ha)).imp Or.inl hpriv
    · exact Or.inl (Or.inr he)
  · rw [hwire, hacking]
    intro hc
    rcases hconnect.mp hc with hc | he
    · exact (h.answered hc).imp id Or.inl
    · exact Or.inr (Or.inr he)
  · rw [hwire, hacking]
    intro ha
    rcases ha with ha | he
    · exact h.quiet ha
    · -- the pipeline is set up once, for a session that did not fail
      exact (h.nothing (not_connected_of_pipelineOk h.sound hstep he) (hok he)).1
  · unfold OneResponse
    rw [hwire]
    exact h.one

/-- A session event that writes the header of an error. -/
theorem onEvent_error {s : SocketSession} {t : Session} {e : Session.Event}
    (hstep : s.session.step e = some t)
    (hnew : .connect ∉ s.session.events ∧ .privError ∉ s.session.emitted)
    (hheader : errorHeaders s.session.hasPrivError (s.session.moves e) = [.response false])
    (hhas : s.session.hasPrivError = true) (hmem : .error false ∈ s.session.moves e)
    (h : Orderly s) : Orderly (s.onEvent e t) := by
  have hledger := Session.step_ledger hstep
  obtain ⟨hnil, hidle⟩ := h.nothing hnew.1 hnew.2
  have hnot : isPipelineOk e = false := by
    cases e <;> simp only [isPipelineOk]
    simp [Session.moves] at hmem
  have hwire : (s.onEvent e t).wire = [.response false] := by
    show s.wire ++ errorHeaders _ _ = _
    rw [hnil, hheader, List.nil_append]
  have hacking : (s.onEvent e t).acking = false := by
    show (s.acking || isPipelineOk e) = false
    rw [hidle, hnot, Bool.or_false]
  have hpriv : .privError ∈ t.emitted := by
    have hfold := Lifecycle.privError_foldl (s.session.moves e) s.session.lifecycle hhas hmem
    rw [← Session.step_lifecycle hstep] at hfold
    exact hfold
  refine ⟨hledger.sound h.sound, hledger.dry h.sound.owned h.dry, ?_, ?_, ?_, ?_⟩
  · exact fun _ => Or.inr hpriv
  · rw [hwire]
    exact fun _ => Or.inl (List.cons_ne_nil _ _)
  · intro ha
    rw [hacking] at ha
    cases ha
  · exact Or.inr ⟨false, 0, hwire⟩

/-- One guarded step. -/
theorem step_orderly (s : SocketSession) (e : Event) (t : SocketSession) (h : Orderly s)
    (hmeets : Meets s e) (hstep : step s e = some t) : Orderly t := by
  cases e with
  | session e =>
    obtain ⟨u, hu, rfl⟩ := Option.map_eq_some_iff.mp hstep
    rcases errorHeaders_cases s.session e with hnone | ⟨hheader, hhas, hmem⟩
    · exact onEvent_silent hu hmeets.2 hnone h
    · exact onEvent_error hu (hmeets.1 hmem) hheader hhas hmem h
  | acknowledge =>
    simp only [step] at hstep
    split_ifs at hstep with hacking
    cases hstep
    have hnil := h.quiet hacking
    refine ⟨h.sound, h.dry, fun _ => h.reason (Or.inr hacking), ?_, nofun, ?_⟩
    · exact fun _ => Or.inl (by simp)
    · refine Or.inr ⟨true, 0, ?_⟩
      show s.wire ++ [.response true] = _
      rw [hnil]
      rfl
  | payload =>
    simp only [step] at hstep
    split_ifs at hstep with hpipe
    cases hstep
    obtain ⟨hidle, hany⟩ := Bool.and_eq_true_iff.mp hpipe
    have hpipes : s.session.pipes ≠ [] := by
      intro hnil
      rw [hnil] at hany
      cases hany
    -- a pipe is there after the session was connected, and so is its header
    have hconnect : .connect ∈ s.session.events := List.contains_iff_mem.mp (h.dry hpipes)
    have hwire : s.wire ≠ [] := by
      rcases h.answered hconnect with hw | ha
      · exact hw
      · rw [ha] at hidle
        cases hidle
    refine ⟨h.sound, h.dry, fun _ => Or.inl hconnect, ?_, nofun, ?_⟩
    · exact fun _ => Or.inl (by simp)
    · exact oneResponse_append h.one hwire s.session false

theorem start_orderly (name : String) (id : ℕ) (origin : String) (st : Session.Start) :
    Orderly (start name id origin st) := by
  have hsound : (Session.start name id origin true st).ledger.Sound :=
    Session.sound_reachable ⟨_, _, _, _, _, rfl⟩ (Run.refl _ : Run Session.step always _ _)
  have hempty : (Session.start name id origin true st).ledger.pipes = [] ∧
      (Session.start name id origin true st).ledger.frame.piped = false := by
    cases st with
    | failed track lookedUp thr =>
      rw [Session.start_failed, Ledger.finalise_pipes, Ledger.finalise_piped]
      exact ⟨rfl, rfl⟩
    | piped track reconnect route env =>
      rw [Session.start_piped]
      exact ⟨rfl, rfl⟩
  have hconnect : .connect ∉ (Session.start name id origin true st).events := by
    intro hc
    have hpiped : (Session.start name id origin true st).ledger.frame.piped = true :=
      List.contains_iff_mem.mpr hc
    rw [hempty.2] at hpiped
    cases hpiped
  have hdry : (Session.start name id origin true st).ledger.Dry := fun hp => absurd hempty.1 hp
  cases st with
  | failed track lookedUp thr =>
    refine ⟨hsound, hdry, fun _ => Or.inr ?_, fun hc => absurd hc hconnect,
      fun ha => absurd ha Bool.false_ne_true, ?_⟩
    · -- `create` has failed, and `router` calls `error`
      have hlife : (Session.start name id origin true (.failed track lookedUp thr)).lifecycle =
          Lifecycle.error thr ⟨.init, [.init], 0, track, true⟩ := by
        simp only [Session.start]
        split_ifs <;> rw [Session.lifecycle_error] <;> rfl
      show .privError ∈ (Session.start name id origin true _).lifecycle.emitted
      rw [hlife]
      exact Lifecycle.privError_error rfl thr
    · cases thr
      · exact Or.inr ⟨false, 0, rfl⟩
      · exact Or.inl rfl
  | piped track reconnect route env =>
    refine ⟨hsound, hdry, ?_, fun hc => absurd hc hconnect,
      fun ha => absurd ha Bool.false_ne_true, Or.inl rfl⟩
    rintro (hw | ha)
    · exact absurd rfl hw
    · cases ha

/-- A session whose code reports an error only before it is connected, and once, has one response
header, in front of everything else. -/
theorem oneResponse_throughout (name : String) (id : ℕ) (origin : String) (st : Session.Start)
    (s : SocketSession) (h : Run step Meets (start name id origin st) s) : OneResponse s :=
  (h.invariant step_orderly (start_orderly name id origin st)).one

/-- A client's session to one cluster, which is reconnected when it is lost. -/
def retried : SocketSession :=
  start "s" 0 "l" (.piped 0 false ⟨"r", "c", [], [], ⟨.always, 1, 2000⟩, false⟩
    Session.lookupAll)

/-- The session is accepted, loses its cluster and gets it back. -/
def recovery : List Event :=
  [.session (.streamOk 0 ⟨"e", some "c"⟩), .session .pipelineOk, .acknowledge, .payload,
    .session (.lost 1 Session.lookupAll false), .session (.streamOk 1 ⟨"f", some "c"⟩),
    .session (.resume 1), .session (.rejoin 1 false), .payload]

theorem recovery_oneResponse : ∃ s, exec step Meets retried recovery = some s ∧
    s.wire = [.response true, .payload, .payload] ∧ OneResponse s := by
  obtain ⟨s, hs⟩ : ∃ s, exec step Meets retried recovery = some s := ⟨_, rfl⟩
  refine ⟨s, hs, ?_, oneResponse_throughout _ _ _ _ s (exec_run recovery retried s hs)⟩
  cases hs
  rfl

/-- The retry of a session that was accepted fails. -/
def lostRetry : List Event :=
  [.session (.streamOk 0 ⟨"e", some "c"⟩), .session .pipelineOk, .acknowledge, .payload,
    .session (.lost 1 Session.lookupAll false), .session (.streamFail 1 false),
    .session (.giveUp 1 false)]

/-- A second header follows the payload. -/
theorem lostRetry_two_responses : ∃ s, exec step always retried lostRetry = some s ∧
    s.wire = [.response true, .payload, .response false] ∧ ¬ OneResponse s := by
  obtain ⟨s, hs⟩ : ∃ s, exec step always retried lostRetry = some s := ⟨_, rfl⟩
  refine ⟨s, hs, ?_, ?_⟩
  · cases hs
    rfl
  · cases hs
    rintro (h | ⟨ok, n, h⟩)
    · cases h
    · have hmem : SocketMessage.response false ∈ List.replicate n SocketMessage.payload := by
        rw [← (List.cons.inj h).2]
        exact List.mem_cons_of_mem _ List.mem_cons_self
      cases List.eq_of_mem_replicate hmem

end SocketSession
end L7mp
