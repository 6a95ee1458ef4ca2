import L7mp.SessionLedger

/-! What a step of a session can do to its ledger, said once: `step_ledger` reads every event
as one of the cases of `Ledger.Step`. -/
namespace L7mp
open L7mp.Frame (only)

namespace Session

/-- An attempt to connect changes two fields of the stage and makes it neither ready nor
connected. -/
theorem run_keeps (env : Env) (left : ℕ) (st : Stage) : ∃ status retriable,
    (st.run env left).1 = { st with status := status, retriable := retriable } ∧
      (status = .ended ∨ status = .retrying ∨ status = st.status) := by
  unfold Stage.run
  split_ifs
  · exact ⟨_, _, rfl, .inl rfl⟩
  · exact ⟨_, _, rfl, .inr (.inr rfl)⟩
  · cases env.getCluster st.origin with
    | none =>
      refine ⟨_, _, rfl, ?_⟩
      split_ifs
      · exact .inl rfl
      · exact .inr (.inl rfl)
    | some retriable => exact ⟨_, _, rfl, .inr (.inr rfl)⟩

/-- A status other than `END` and `RETRYING` was there before the attempt. -/
theorem run_status (env : Env) (left : ℕ) {st : Stage} {status : StageStatus}
    (h : (st.run env left).1.status = status) (hend : status ≠ .ended)
    (hretry : status ≠ .retrying) : st.status = status := by
  obtain ⟨status', _, heq, hcases⟩ := run_keeps env left st
  rw [heq] at h
  rcases hcases with rfl | rfl | rfl
  · exact absurd h.symm hend
  · exact absurd h.symm hretry
  · exact h

theorem run_calm (env : Env) (left : ℕ) : Frame.Calm (fun st => (st.run env left).1) where
  id st := by obtain ⟨_, _, h, -⟩ := run_keeps env left st; rw [h]
  source st := by obtain ⟨_, _, h, -⟩ := run_keeps env left st; rw [h]
  ready st hst := run_status env left hst nofun nofun
  listening st hst := by
    obtain ⟨_, _, h, -⟩ := run_keeps env left st
    rw [h] at hst
    exact hst

theorem run_stream (env : Env) (left : ℕ) (st : Stage) :
    (st.run env left).1.stream = st.stream := by
  obtain ⟨_, _, h, -⟩ := run_keeps env left st
  rw [h]

theorem run_connected (env : Env) (left : ℕ) (st : Stage)
    (h : (st.run env left).1.status = .connected) : st.status = .connected :=
  run_status env left h nofun nofun

theorem failed_cases (left : ℕ) :
    Conn.failed left = .rejected ∨ ∃ left', Conn.failed left = .backoff left' := by
  unfold Conn.failed
  split_ifs
  · exact .inl rfl
  · exact .inr ⟨_, rfl⟩

/-- An attempt is refused, fails at once or waits for its stream. -/
theorem run_cases (env : Env) (left : ℕ) (st : Stage) :
    (st.run env left).2 = .rejected ∨ (∃ left', (st.run env left).2 = .backoff left') ∨
      ∃ left', (st.run env left).2 = .trying left' := by
  unfold Stage.run
  split_ifs
  · exact .inl rfl
  · exact .inl rfl
  · cases env.getCluster st.origin
    · exact (failed_cases left).elim .inl (fun h => .inr (.inl h))
    · exact .inr (.inr ⟨_, rfl⟩)

/-- The first attempt of `reconnect` comes to a wait unless it is refused. -/
theorem run_disconnected (env : Env) (retry : Retry) {st : Stage} (hsrc : st.source = false) :
    (({ st with status := .disconnected } : Stage).run env retry.redoRetries).2 = .rejected ↔
      st.waits env retry = false := by
  unfold Stage.run Stage.waits Conn.failed
  cases env.getSession
  · simp [hsrc]
  · cases hc : env.getCluster st.origin
    · by_cases hr : retry.redoRetries = 0 <;> simp [hsrc, hr]
    · simp [hsrc]

theorem id_calm : Frame.Calm id := ⟨fun _ => rfl, fun _ => rfl, fun _ => id, fun _ => id⟩

theorem mapStages_only_id (i : ℕ) (l : Ledger) : l.mapStages (only i id) = l := by
  have hfun : only i (id : Stage → Stage) = id := by
    funext st
    exact ite_self _
  simp [Ledger.mapStages, Frame.mapStages, hfun]

/-- `reconnect` up to its first wait, as what follows a stage that dropped out. -/
theorem ledger_reconnect (env : Env) (retry : Retry) (st : Stage) {s : Session}
    (hr : s.route.isSome = true) :
    Ledger.AfterDrop st s.ledger (if st.waits env retry then .waits else .other)
      (s.reconnect env retry st).ledger := by
  unfold reconnect
  by_cases hsrc : st.source = true
  · rw [if_pos hsrc]
    by_cases hl : env.getListener st.origin = some true
    · have hw : st.waits env retry = true := by simp [Stage.waits, hsrc, hl]
      have hwait : Ledger.AfterDrop st s.ledger .waits
          ((s.ledger.mapStages (only st.id id)).addTask st.id .listener) :=
        .wait .listener id hr trivial rfl id_calm (fun _ => rfl) (fun _ => id)
      rw [mapStages_only_id] at hwait
      rw [if_pos hl, hw]
      exact hwait
    · have hw : st.waits env retry = false := by simp [Stage.waits, hsrc, hl]
      have hrefuse : Ledger.AfterDrop st s.ledger .other
          ((s.ledger.mapStages (only st.id id)).addTask st.id (.connect true .rejected)) :=
        .refuse id hr id_calm (fun _ => rfl) (fun _ => id)
      rw [mapStages_only_id] at hrefuse
      rw [if_neg hl, hw]
      exact hrefuse
  · have hsrc' := eq_false_of_ne_true hsrc
    have hcalm := run_calm env retry.redoRetries
    have hstream := run_stream env retry.redoRetries
    have hiff := run_disconnected env retry hsrc'
    rw [if_neg hsrc, ledger_addTask, ledger_setStage]
    rcases run_cases env retry.redoRetries { st with status := .disconnected } with
      h | ⟨left, h⟩ | ⟨left, h⟩
    · rw [hiff.mp h, h]
      exact .refuse _ hr hcalm hstream (run_connected env _)
    · have hw : st.waits env retry = true := by
        by_contra hne
        rw [hiff.mpr (eq_false_of_ne_true hne)] at h
        cases h
      rw [hw, h]
      exact .wait _ _ hr trivial rfl hcalm hstream (run_connected env _)
    · have hw : st.waits env retry = true := by
        by_contra hne
        rw [hiff.mpr (eq_false_of_ne_true hne)] at h
        cases h
      rw [hw, h]
      exact .wait _ _ hr trivial rfl hcalm hstream (run_connected env _)

/-- What `disconnect` does after it dropped a stage, branch by branch of the retry policy. -/
theorem ledger_afterLoss (env : Env) (thr : Bool) {st : Stage} (s s' : Session)
    (hready : st.status = .ready) (hroute : s'.route = s.route) :
    Ledger.AfterDrop st s'.ledger (if s.waits env st then .waits else .other)
      (s'.afterLoss env thr st).ledger := by
  unfold afterLoss waits
  rw [hroute]
  cases hr : s.route with
  | none =>
    refine .none ?_
    change s'.route.isSome = false
    rw [hroute, hr]
    rfl
  | some route =>
    have hsome : s'.route.isSome = true := by rw [hroute, hr]; rfl
    cases hpol : route.retry.retry_on with
    | never | connectFailure =>
      simp only [hpol, ledger_end_, reduceCtorEq, decide_false, Bool.or_self, Bool.and_false,
        Bool.false_eq_true, ↓reduceIte]
      exact .finalise _
    | other policy =>
      simp only [hpol, ledger_error, reduceCtorEq, decide_false, Bool.or_self, Bool.and_false,
        Bool.false_eq_true, ↓reduceIte]
      exact .finalise _
    | always | disconnect =>
      simp only [hpol, hready, reduceCtorEq, decide_true, decide_false, Bool.or_false,
        Bool.or_true, Bool.and_true, Bool.true_and]
      by_cases hret : st.retriable = true
      · rw [if_pos hret, hret, Bool.true_and]
        exact ledger_reconnect env route.retry st hsome
      · rw [if_neg hret, eq_false_of_ne_true hret, ledger_error]
        exact .finalise _

theorem dropStage_lost_route (st : Stage) (xs : List ℕ) (s : Session) :
    ((({ s with lost := xs } : Session).log .disconnect).dropStage st).route = s.route :=
  dropStage_route st _

/-- `disconnect` of a stage whose stream was lost, or that the API drops. -/
theorem ledger_disconnect (env : Env) (thr : Bool) {st : Stage} {s : Session} (xs : List ℕ)
    (hst : st ∈ s.getStages) (hready : st.status = .ready)
    (hsrc : st.source = true → st.listening = true) (hxs : ∀ x ∈ xs, st.stream = some x)
    (hno : s.rejoining = false) :
    Ledger.Step s.chain? s.ledger (if s.waits env st then .waits else .other)
      (({ s with lost := s.lost ++ xs } : Session).disconnect env thr st).ledger := by
  have hno' : ∀ p ∈ s.tasks, p.2 ≠ .rejoin := by
    intro p hp hpr
    have : s.rejoining = true := List.any_eq_true.mpr ⟨p, hp, by simp [hpr]⟩
    rw [hno] at this
    cases this
  have hafter := ledger_afterLoss env thr s
    ((({ s with lost := s.lost ++ xs } : Session).log .disconnect).dropStage st) hready
    (dropStage_lost_route st _ s)
  rw [ledger_dropStage, ledger_log_disconnect] at hafter
  unfold disconnect
  rw [if_pos hready]
  exact .drop st xs _ _ hst hready hsrc hxs hno' hafter

theorem ledger_ignored (env : Env) (thr : Bool) {st : Stage} (s : Session)
    (hready : st.status ≠ .ready) : (s.disconnect env thr st).ledger = s.ledger := by
  unfold disconnect
  rw [if_neg hready, ledger_log_disconnect]

/-- A connect that fails without another try, or goes on to the next one. -/
theorem advance_connect {redo : Bool} {c c' : Conn} {g : Stage → Stage}
    (hc : (∃ left, c = .trying left) ∨ ∃ left, c = .backoff left)
    (hc' : c' = .rejected ∨ (∃ left, c' = .backoff left) ∨ ∃ left, c' = .trying left)
    (hcalm : Frame.Calm g) (hstream : ∀ st, (g st).stream = st.stream)
    (hconn : ∀ st, (g st).status = .connected → st.status = .connected) :
    Ledger.Advance (.connect redo c) (.connect redo c') g where
  waiting := by rcases hc with ⟨left, rfl⟩ | ⟨left, rfl⟩ <;> trivial
  still h := by
    rcases hc' with rfl | ⟨left, rfl⟩ | ⟨left, rfl⟩
    · rcases h with h | h
      · exact h
      · cases redo <;> cases h
    · trivial
    · trivial
  rejoin := nofun
  setup := by cases redo <;> rfl
  pending redo' := by
    rcases hc' with rfl | ⟨left, rfl⟩ | ⟨left, rfl⟩ <;> exact nofun
  calm := hcalm
  stream := hstream
  connected := hconn

theorem listener_refused : Ledger.Advance .listener (.connect true .rejected) id where
  waiting := trivial
  still h := h.elim id nofun
  rejoin := nofun
  setup := rfl
  pending _ := nofun
  calm := id_calm
  stream _ := rfl
  connected _ := id

theorem failed_calm (left : ℕ) : Frame.Calm (Stage.failed left) where
  id _ := rfl
  source _ := rfl
  ready st h := by
    unfold Stage.failed at h
    dsimp only at h
    split_ifs at h
  listening _ := id

/-- `disconnect` after `stage.reconnect` returned: `repipe` throws, or the session goes on waiting
for other stages, or it is connected again. -/
theorem ledger_rejoin {s : Session} {k i : ℕ} (thr : Bool) (hk : s.tasks[k]? = some (i, .rejoin)) :
    Ledger.Step s.chain? s.ledger (s.label (.rejoin k thr)) ((s.dropTask k).rejoin thr i).ledger := by
  have hpipes : (s.dropTask k).newPipes i = s.newPipes i := rfl
  have hactive : (((s.dropTask k).addActive 1).addPipes (s.newPipes i).1).active_streams =
      s.active_streams + 1 := rfl
  have hnum : (((s.dropTask k).addActive 1).addPipes (s.newPipes i).1).num_streams =
      s.num_streams := rfl
  simp only [label, hk, rejoin, hpipes, hactive, hnum]
  rw [newPipes_eq]
  cases hp : (Ledger.repipe s.chain? i).2 with
  | false =>
    simp only [↓reduceIte, Bool.false_eq_true, false_and, decide_false, ledger_error,
      ledger_addPipes, ledger_addActive, ledger_dropTask]
    exact .rejoinFail k i _ hk hp
  | true =>
    simp only [Bool.true_eq_false, ↓reduceIte, true_and]
    by_cases hall : s.active_streams + 1 = s.num_streams
    · simp only [hall, ↓reduceIte, decide_true, ledger_connected, ledger_setStage,
        ledger_addPipes, ledger_addActive, ledger_dropTask]
      exact .reconnected k i hk hall
    · simp only [hall, ↓reduceIte, decide_false, ledger_setStage, ledger_addPipes,
        ledger_addActive, ledger_dropTask]
      exact .rejoin k i hk hall

theorem ledger_setCounts (n : ℕ) (s : Session) :
    ({ s with num_streams := n, active_streams := n } : Session).ledger = s.ledger.setCounts n :=
  rfl

theorem ledger_settled (s : Session) :
    ({ s with settingUp := false } : Session).ledger = s.ledger.settled := rfl

theorem ledger_pipeline (s : Session) :
    (({ s with settingUp := false } : Session).pipeline (s.tasks.countP (isSetup ·.2))).ledger =
      (s.ledger.piped (Ledger.finish s.chain?)).connected := by
  unfold pipeline chain?
  rw [ledger_connected, ledger_setCounts, ledger_addPipes, ledger_mapStages, ledger_settled]
  cases s.destination <;> rfl

theorem failed_connected (left : ℕ) (st : Stage) (h : (st.failed left).status = .connected) :
    st.status = .connected := by
  unfold Stage.failed at h
  dsimp only at h
  split_ifs at h

/-- Every step of a session is a step of its ledger. -/
theorem step_ledger {s t : Session} {e : Event} (h : s.step e = some t) :
    Ledger.Step s.chain? s.ledger (s.label e) t.ledger := by
  cases e with
  | streamOk k ep =>
    simp only [step] at h
    split at h <;> cases h
    rename_i i redo left hk
    have hlabel : s.label (.streamOk k ep) = .stream redo := by
      cases redo <;> simp only [label, hk] <;> rfl
    rw [hlabel]
    simp only [obtain, ledger_setTask, ledger_newStream, ledger_setStage]
    exact .obtain k i left redo ep hk
  | streamFail k abrupt =>
    simp only [step] at h
    split at h
    · rename_i i redo left hk
      split at h <;> cases h
      · have hadv := Ledger.Step.advance (c := s.chain?) (l := s.ledger) k i _ (.connect redo .rejected) id hk
          (advance_connect (.inl ⟨left, rfl⟩) (.inl rfl) id_calm (fun _ => rfl) (fun _ => id))
        rw [mapStages_only_id] at hadv
        exact hadv
      · simp only [ledger_setTask, ledger_setStage]
        exact .advance k i _ _ (Stage.failed left) hk (advance_connect (.inl ⟨left, rfl⟩)
          ((failed_cases left).elim .inl (fun h => .inr (.inl h))) (failed_calm left)
          (fun _ => rfl) (failed_connected left))
    · cases h
  | timer k env =>
    simp only [step] at h
    split at h
    · rename_i i redo left hk
      obtain ⟨st, -, rfl⟩ := Option.map_eq_some_iff.mp h
      simp only [ledger_setTask, ledger_setStage]
      exact .advance k i _ _ (fun st => (st.run env left).1) hk (advance_connect (.inr ⟨left, rfl⟩)
        (run_cases env left st) (run_calm env left) (run_stream env left)
        (run_connected env left))
    · cases h
  | listenerOk k =>
    simp only [step] at h
    split at h <;> cases h
    rename_i i hk
    simp only [ledger_setTask, ledger_newStream, ledger_setStage]
    exact .listenerOk k i hk
  | listenerFail k =>
    simp only [step] at h
    split at h <;> cases h
    rename_i i hk
    have hadv := Ledger.Step.advance (c := s.chain?) (l := s.ledger) k i .listener (.connect true .rejected) id hk
      listener_refused
    rw [mapStages_only_id] at hadv
    exact hadv
  | lost i env thr =>
    simp only [step] at h
    split_ifs at h with hno
    cases hst : s.stage? i with
    | none => simp only [hst] at h; cases h
    | some st =>
      simp only [hst] at h
      obtain ⟨x, hx, rfl⟩ := Option.map_eq_some_iff.mp h
      obtain ⟨hmem, -⟩ := stage?_mem hst
      by_cases hlist : st.listening = true
      · simp only [label, hst, hlist, Bool.true_and, ↓reduceIte]
        by_cases hready : st.status = .ready
        · exact ledger_disconnect env thr [x] hmem hready (fun _ => hlist)
            (fun y hy => by rw [List.mem_singleton.mp hy, hx]) (eq_false_of_ne_true hno)
        · have hw : s.waits env st = false := by
            unfold waits
            cases s.route <;> simp [hready]
          rw [hw, ledger_ignored _ _ _ hready]
          exact .lose st x hmem hx (.inr hready)
      · have hlabel : s.label (.lost i env thr) = .other := by
          simp only [label, hst, eq_false_of_ne_true hlist, Bool.false_and, Bool.false_eq_true,
            ↓reduceIte]
        rw [if_neg hlist, hlabel]
        exact .lose st x hmem hx (.inl (eq_false_of_ne_true hlist))
  | disconnect i env thr =>
    simp only [step] at h
    split_ifs at h with hno
    cases hst : s.stage? i with
    | none => simp only [hst] at h; cases h
    | some st =>
      simp only [hst] at h
      split_ifs at h with hsrc
      cases h
      obtain ⟨hmem, -⟩ := stage?_mem hst
      simp only [label, hst]
      by_cases hready : st.status = .ready
      · have hdrop := ledger_disconnect env thr (s := s) [] hmem hready
          (fun h => absurd h hsrc) (by simp) (eq_false_of_ne_true hno)
        simp only [List.append_nil] at hdrop
        exact hdrop
      · have hw : s.waits env st = false := by
          unfold waits
          cases s.route <;> simp [hready]
        rw [hw, ledger_ignored _ _ _ hready]
        exact .same
  | end_ =>
    cases h
    rw [ledger_end_]
    exact .finalise false
  | error thr =>
    cases h
    rw [ledger_error]
    exact .finalise _
  | destroyTimer =>
    simp only [step] at h
    split_ifs at h
    cases h
    exact .same
  | resume k =>
    simp only [step] at h
    split at h <;> cases h
    rename_i i hk
    simp only [label, hk, ledger_setTask, ledger_setStage]
    exact .resume k i hk
  | rejoin k thr =>
    simp only [step] at h
    split at h <;> cases h
    rename_i i hk
    exact ledger_rejoin thr hk
  | giveUp k thr =>
    simp only [step] at h
    split at h <;> cases h
    rename_i i hk
    rw [ledger_error]
    exact .giveUp k i _ hk
  | pipelineOk =>
    simp only [step] at h
    split_ifs at h with hall
    cases h
    rw [ledger_pipeline]
    refine .pipelineOk hall.1 (fun p hp hset => ?_)
    have := List.all_eq_true.mp hall.2 p hp
    simpa [hset] using this
  | pipelineFail thr =>
    simp only [step] at h
    split_ifs at h with hall
    cases h
    rw [ledger_error]
    exact .pipelineFail _ hall.1

end Session
end L7mp
