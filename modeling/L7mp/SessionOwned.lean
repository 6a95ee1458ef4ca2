import L7mp.SessionLedgerStep

/-! Every step of a session keeps the ownership of its stages: `Frame.Owned` holds in every
reachable state. -/
namespace L7mp
open L7mp.Frame (only)

namespace Frame

theorem destroyed_calm : Calm Stage.destroyed where
  id st := by unfold Stage.destroyed; split_ifs <;> rfl
  source st := by unfold Stage.destroyed; split_ifs <;> rfl
  ready st h := by
    unfold Stage.destroyed at h
    split_ifs at h
    exact h
  listening st h := by
    unfold Stage.destroyed at h
    split_ifs at h
    exact h

theorem disconnected_calm : Calm Stage.disconnected :=
  ⟨fun _ => rfl, fun _ => rfl, nofun, nofun⟩

theorem assign_calm (x : ℕ) (ep : EndPointRef) : Calm (Stage.assign x ep) :=
  ⟨fun _ => rfl, fun _ => rfl, nofun, nofun⟩

/-- A stage that no call works on may become ready once the pipeline was set up. -/
theorem Owned.makeReady {f : Frame} (h : f.Owned) {i : ℕ} {g : Stage → Stage}
    (hid : ∀ st, (g st).id = st.id) (hpiped : f.piped = true)
    (hfree : ∀ p ∈ f.tasks, p.2.Busy → p.1 ≠ i) : (f.mapStages (only i g)).Owned where
  ids := by
    change ((f.stages.map _).map Stage.id).Nodup
    rw [map_id_of_keeps (only_id hid i)]
    exact h.ids
  known p hp := by
    obtain ⟨st, hst, hst'⟩ := h.known p hp
    exact ⟨_, List.mem_map_of_mem hst, (only_id hid i st).trans hst'⟩
  single := h.single
  ready st hst hready p hp hb := by
    obtain ⟨st', hst', rfl⟩ := List.mem_map.mp hst
    rw [only_id hid]
    by_cases hi : st'.id = i
    · rw [hi]
      exact hfree p hp hb
    · rw [only, if_neg hi] at hready
      exact h.ready st' hst' hready p hp hb
  rejoin := h.rejoin
  setup hs := by
    rw [show (f.mapStages (only i g)).piped = f.piped from rfl, hpiped] at hs
    cases hs
  fresh := h.fresh

/-- A frame that has a call of a `disconnect` was piped. -/
theorem Owned.piped_of_task {f : Frame} (h : f.Owned) {k i : ℕ} {t : Task}
    (hk : f.tasks[k]? = some (i, t)) (hs : Session.isSetup t = false) : f.piped = true := by
  by_contra hne
  have := (h.setup (eq_false_of_ne_true hne)).1 (i, t) (List.mem_of_getElem? hk)
  rw [hs] at this
  cases this

theorem Owned.settingUp_of_piped {f : Frame} (h : f.Owned) (hp : f.piped = true) :
    f.settingUp = false := by
  by_contra hne
  rw [h.fresh (eq_true_of_ne_false hne)] at hp
  cases hp

/-- A stage that drops out belongs to a pipeline that was set up. -/
theorem Owned.piped_of_ready {f : Frame} (h : f.Owned) {st : Stage} (hst : st ∈ f.stages)
    (hready : st.status = .ready) (hsrc : st.source = true → st.listening = true) :
    f.piped = true := by
  by_contra hne
  obtain ⟨hlist, hnot⟩ := (h.setup (eq_false_of_ne_true hne)).2 st hst
  by_cases hs : st.source = true
  · rw [hsrc hs] at hlist
    cases hlist
  · exact hnot (eq_false_of_ne_true hs) hready

end Frame

namespace Ledger

theorem owned_finalise {l : Ledger} (h : l.frame.Owned) (stuck : Bool) :
    (l.finalise stuck).frame.Owned := by
  unfold finalise
  split_ifs
  · exact h
  · exact h.calm Frame.destroyed_calm

theorem owned_setPiped {l : Ledger} (h : l.frame.Owned) (hs : l.frame.settingUp = false) :
    l.setPiped.frame.Owned :=
  ⟨h.ids, h.known, h.single, h.ready, h.rejoin, nofun, fun hset => by
    rw [show l.setPiped.frame.settingUp = l.frame.settingUp from rfl, hs] at hset
    cases hset⟩

/-- A stage that dropped out may get a call that reconnects it. -/
theorem owned_redo {l : Ledger} (h : l.frame.Owned) {st : Stage} {t : Task} {g : Stage → Stage}
    (hst : st ∈ l.frame.stages) (hready : st.status = .ready)
    (hsrc : st.source = true → st.listening = true) (hno : ∀ p ∈ l.frame.tasks, p.2 ≠ .rejoin)
    (ht : t ≠ .rejoin) (hg : Frame.Calm g) (xs : List ℕ) :
    ((((l.lose xs).drop st).mapStages (only st.id g)).addTask st.id t).frame.Owned := by
  have hpiped := h.piped_of_ready hst hready hsrc
  have hdrop : ((l.lose xs).drop st).frame.Owned := h.calm (Frame.disconnected_calm.only st.id)
  refine Frame.Owned.addTask (hdrop.calm (hg.only st.id)) ?_ ht hpiped ?_ ?_ hno
  · refine ⟨_, List.mem_map_of_mem (List.mem_map_of_mem hst), ?_⟩
    rw [Frame.only_id hg.id, Frame.only_id Frame.disconnected_calm.id]
  · intro st' hst' hid hr
    obtain ⟨st'', hst'', rfl⟩ := List.mem_map.mp hst'
    obtain ⟨st₀, -, rfl⟩ := List.mem_map.mp hst''
    rw [Frame.only_id hg.id, Frame.only_id Frame.disconnected_calm.id] at hid
    have := (hg.only st.id).ready _ hr
    rw [only, if_pos hid] at this
    cases this
  · exact fun p hp hb => h.ready st hst hready p hp hb

theorem owned_piped {l : Ledger} {ps : List Pipe} (h : l.frame.Owned) (hset : l.frame.settingUp = true)
    (hall : ∀ p ∈ l.frame.tasks, Session.isSetup p.2 = true → p.2 = .connect false .resolved) :
    (l.piped ps).connected.frame.Owned := by
  have hresolved := h.resolved hset hall
  have hidle : ∀ p ∈ l.frame.tasks, ¬p.2.Busy := by
    intro p hp hb
    rw [hresolved p hp] at hb
    rcases hb with hb | hb <;> cases hb
  constructor
  case ids =>
    change ((l.frame.stages.map Stage.handled).map Stage.id).Nodup
    rw [Frame.map_id_of_keeps (g := Stage.handled) (fun _ => rfl)]
    exact h.ids
  case known =>
    intro p hp
    obtain ⟨st, hst, hid⟩ := h.known p hp
    exact ⟨_, List.mem_map_of_mem hst, hid⟩
  case single => exact h.single
  case ready => exact fun st _ _ p hp hb => absurd hb (hidle p hp)
  case rejoin => exact fun p _ _ q hq hb => absurd hb (hidle q hq)
  case setup => exact nofun
  case fresh => exact nofun

/-- No step lets two calls work on one stage. -/
theorem Step.owned {c : Option Chain} {l l' : Ledger} {label : Label} (h : Step c l label l') (ho : l.frame.Owned) :
    l'.frame.Owned := by
  cases h with
  | same => exact ho
  | lose => exact ho
  | finalise stuck => exact owned_finalise ho stuck
  | advance k i t t' g hk h =>
    exact Frame.Owned.setTask (ho.calm (h.calm.only i)) hk (fun hb => .inl h.waiting) h.rejoin
      (fun hs => h.setup.trans hs)
  | obtain k i left redo ep hk =>
    exact Frame.Owned.setTask (ho.calm ((Frame.assign_calm _ _).only i)) hk
      (fun _ => .inl trivial) nofun (by cases redo <;> exact id)
  | listenerOk k i hk =>
    exact ho.handled hk (.inl trivial) rfl (fun _ => rfl)
  | resume k i hk =>
    exact ho.handled hk (.inr rfl) rfl (fun _ => rfl)
  | drop st xs label l' hst hready hsrc hxs hno h =>
    have hdrop : ((l.lose xs).drop st).frame.Owned := ho.calm (Frame.disconnected_calm.only st.id)
    cases h with
    | none => exact hdrop
    | finalise stuck => exact owned_finalise hdrop stuck
    | wait t g _ ht hs hg =>
      exact owned_redo ho hst hready hsrc hno (by rintro rfl; exact ht) hg xs
    | refuse g _ hg =>
      exact owned_redo (t := .connect true .rejected) ho hst hready hsrc hno nofun hg xs
  | rejoinFail k i stuck hk => exact owned_finalise (ho.dropTask k) stuck
  | rejoin k i hk hwait =>
    exact Frame.Owned.makeReady (ho.dropTask k) (fun _ => rfl) (ho.piped_of_task hk rfl)
      (fun p hp => ho.rejoin _ (List.mem_of_getElem? hk) rfl p (List.mem_of_mem_eraseIdx hp))
  | reconnected k i hk hall =>
    have hpiped := ho.piped_of_task hk rfl
    refine owned_setPiped (l := setStatus _ _) ?_ (ho.settingUp_of_piped hpiped)
    exact Frame.Owned.makeReady (ho.dropTask k) (fun _ => rfl) hpiped
      (fun p hp => ho.rejoin _ (List.mem_of_getElem? hk) rfl p (List.mem_of_mem_eraseIdx hp))
  | giveUp k i stuck hk => exact owned_finalise (ho.dropTask k) stuck
  | pipelineOk hset hall => exact owned_piped ho hset hall
  | pipelineFail stuck hset =>
    have hset : l.settled.frame.Owned :=
      ⟨ho.ids, ho.known, ho.single, ho.ready, ho.rejoin, ho.setup, nofun⟩
    exact owned_finalise hset stuck

@[simp] theorem finalise_settingUp (stuck : Bool) (l : Ledger) :
    (l.finalise stuck).frame.settingUp = l.frame.settingUp := by
  unfold finalise
  split_ifs <;> rfl

@[simp] theorem finalise_piped (stuck : Bool) (l : Ledger) :
    (l.finalise stuck).frame.piped = l.frame.piped := by
  unfold finalise
  split_ifs <;> rfl

@[simp] theorem finalise_routed (stuck : Bool) (l : Ledger) :
    (l.finalise stuck).routed = l.routed := by
  unfold finalise
  split_ifs <;> rfl

@[simp] theorem finalise_tasks (stuck : Bool) (l : Ledger) :
    (l.finalise stuck).frame.tasks = l.frame.tasks := by
  unfold finalise
  split_ifs <;> rfl

/-- Ownership, and a route for every session whose pipeline was started. -/
structure Sound (l : Ledger) : Prop where
  owned : l.frame.Owned
  routed : l.frame.settingUp = true ∨ l.frame.piped = true → l.routed = true

/-- No step starts a pipeline or loses the route. -/
theorem Step.keeps {c : Option Chain} {l l' : Ledger} {label : Label} (h : Step c l label l') (ho : l.frame.Owned) :
    l'.routed = l.routed ∧ (l'.frame.settingUp = true → l.frame.settingUp = true) ∧
      (l'.frame.piped = true → l.frame.settingUp = true ∨ l.frame.piped = true) := by
  cases h with
  | same | lose | advance | obtain | listenerOk | resume | rejoin => exact ⟨rfl, id, .inr⟩
  | finalise stuck =>
    exact ⟨finalise_routed _ _, by rw [finalise_settingUp]; exact id,
      by rw [finalise_piped]; exact .inr⟩
  | drop st xs label l' hst hready hsrc hxs hno h =>
    cases h with
    | none | wait | refuse => exact ⟨rfl, id, .inr⟩
    | finalise stuck =>
      exact ⟨finalise_routed _ _, by rw [finalise_settingUp]; exact id,
        by rw [finalise_piped]; exact .inr⟩
  | rejoinFail k i stuck hk | giveUp k i stuck hk =>
    exact ⟨finalise_routed _ _, by rw [finalise_settingUp]; exact id,
      by rw [finalise_piped]; exact .inr⟩
  | reconnected k i hk hall => exact ⟨rfl, id, fun _ => .inr (ho.piped_of_task hk rfl)⟩
  | pipelineOk hset hall => exact ⟨rfl, nofun, fun _ => .inl hset⟩
  | pipelineFail stuck hset =>
    exact ⟨finalise_routed _ _, fun _ => hset, by rw [finalise_piped]; exact .inr⟩

theorem Step.sound {c : Option Chain} {l l' : Ledger} {label : Label} (h : Step c l label l') (hs : l.Sound) :
    l'.Sound where
  owned := h.owned hs.owned
  routed hor := by
    obtain ⟨hr, hset, hp⟩ := h.keeps hs.owned
    rw [hr]
    exact hs.routed (hor.elim (fun h => .inl (hset h)) hp)

end Ledger

namespace Session

theorem connectAll_ids (env : Env) (left : ℕ) : ∀ (id : ℕ) (origins : List String),
    (connectAll env left id origins).map (fun p => p.1.id) = List.range' id origins.length
  | _, [] => rfl
  | id, origin :: rest => by
    have hid : ((Stage.new id origin none false).run env left).1.id = id :=
      (run_calm env left).id _
    rw [connectAll, List.map_cons, connectAll_ids env left (id+1) rest, hid]
    rfl

/-- The stages that `pipeline_init` makes, with their calls of `connect`. -/
def connects (env : Env) (route : Route) (id : ℕ) : List (Stage × Conn) :=
  connectAll env route.retry.setupRetries id (route.ingress ++ route.egress ++ [route.destination])

theorem connectAll_append (env : Env) (left : ℕ) : ∀ (id : ℕ) (l l' : List String),
    connectAll env left id (l ++ l') =
      connectAll env left id l ++ connectAll env left (id + l.length) l'
  | _, [], _ => rfl
  | id, origin :: rest, l' => by
    have hadd : id + (origin :: rest).length = id+1 + rest.length := by
      rw [List.length_cons]
      omega
    rw [List.cons_append, connectAll, connectAll, connectAll_append env left (id+1) rest l', hadd,
      List.cons_append]

theorem pipelineInit_stages (env : Env) (route : Route) (id : ℕ) (s : Session) :
    (s.pipelineInit env route id).getStages =
      s.source :: (connects env route id).map Prod.fst := by
  simp only [pipelineInit, getStages, connects, connectAll_append, connectAll, List.map_append,
    List.length_append, List.map_cons, List.map_nil, Option.toList_some, Nat.add_assoc]

theorem pipelineInit_tasks (env : Env) (route : Route) (id : ℕ) (s : Session) :
    (s.pipelineInit env route id).tasks = waitList (connects env route id) := by
  simp only [pipelineInit, connects, connectAll_append, connectAll, List.length_append,
    Nat.add_assoc]

theorem connects_ids (env : Env) (route : Route) (id : ℕ) :
    (connects env route id).map (fun p => p.1.id) =
      List.range' id (route.ingress ++ route.egress ++ [route.destination]).length :=
  connectAll_ids env _ id _

theorem connects_id_ne (env : Env) (route : Route) (id : ℕ) :
    ∀ p ∈ connects env route (id+1), p.1.id ≠ id := by
  intro p hp heq
  have := List.mem_map_of_mem (f := fun p => p.1.id) hp
  rw [connects_ids, List.mem_range'_1] at this
  omega

/-- A stage of `connects` is a new cluster stage after its first attempt. -/
theorem connectAll_mem (env : Env) (left : ℕ) : ∀ (id : ℕ) (origins : List String),
    ∀ p ∈ connectAll env left id origins, ∃ i origin,
      p = (Stage.new i origin none false).run env left
  | _, [], _, hp => absurd hp (by simp [connectAll])
  | id, origin :: rest, p, hp => by
    rcases List.mem_cons.mp hp with rfl | hp
    · exact ⟨id, origin, rfl⟩
    · exact connectAll_mem env left (id+1) rest p hp

/-- The source stage that `create` makes. -/
def sourceStage (id : ℕ) (origin : String) (reconnect : Bool) : Stage :=
  { Stage.new id origin (some 0) true with status := .ready, retriable := reconnect }

/-- The ledger of a session without a route. -/
def newLedger (id : ℕ) (origin : String) : Ledger :=
  ⟨⟨[sourceStage id origin false], [], false, false⟩, .init, false, false, [], [], 1, 0, 0, []⟩

/-- The ledger of a session whose pipeline is being set up. -/
def pipedLedger (id : ℕ) (origin : String) (reconnect : Bool) (route : Route) (env : Env) :
    Ledger :=
  ⟨⟨sourceStage id origin reconnect :: (connects env route (id+1)).map Prod.fst,
    waitList (connects env route (id+1)), true, false⟩, .init, false, true, [], [], 1, 0, 0, []⟩

theorem start_failed (name : String) (id : ℕ) (origin : String) (err : Bool) (track : ℕ)
    (lookedUp thr : Bool) : (start name id origin err (.failed track lookedUp thr)).ledger =
      (newLedger id origin).finalise (err && thr) := by
  simp only [start]
  split_ifs <;> rw [ledger_error] <;> rfl

theorem start_piped (name : String) (id : ℕ) (origin : String) (err : Bool) (track : ℕ)
    (reconnect : Bool) (route : Route) (env : Env) :
    (start name id origin err (.piped track reconnect route env)).ledger =
      pipedLedger id origin reconnect route env := by
  have hstages := pipelineInit_stages env route (id+1)
    { ({ new name id origin err with track := track, route := some route } : Session).log
      .lookupSuccess with source := sourceStage id origin reconnect }
  have htasks := pipelineInit_tasks env route (id+1)
    { ({ new name id origin err with track := track, route := some route } : Session).log
      .lookupSuccess with source := sourceStage id origin reconnect }
  change Ledger.mk (Frame.mk _ _ _ _) _ _ _ _ _ _ _ _ _ = _
  rw [pipedLedger]
  congr 2

/-- An invariant of ledgers holds in every state that a session reaches. -/
theorem ledger_reachable {ok : Session → Event → Prop} {P : Ledger → Prop}
    (hnew : ∀ id origin, P (newLedger id origin))
    (hpiped : ∀ id origin reconnect route env, P (pipedLedger id origin reconnect route env))
    (hfin : ∀ l stuck, P l → P (l.finalise stuck))
    (hstep : ∀ s e l, P s.ledger → ok s e → Ledger.Step s.chain? s.ledger (s.label e) l → P l)
    {s₀ s : Session} (h₀ : s₀.Initial) (h : GuardedRun.Run step ok s₀ s) : P s.ledger := by
  obtain ⟨name, id, origin, err, st, rfl⟩ := h₀
  refine GuardedRun.Run.invariant (P := fun s => P s.ledger)
    (fun s e t hs hok ht => hstep s e _ hs hok (step_ledger ht)) h ?_
  cases st with
  | failed track lookedUp thr =>
    rw [start_failed]
    exact hfin _ _ (hnew id origin)
  | piped track reconnect route env =>
    rw [start_piped]
    exact hpiped id origin reconnect route env

theorem sound_newLedger (id : ℕ) (origin : String) : (newLedger id origin).Sound where
  owned := by
    constructor
    case ids => exact List.nodup_singleton _
    case known | rejoin => exact nofun
    case single => exact List.Pairwise.nil
    case ready => exact fun _ _ _ _ hp => absurd hp List.not_mem_nil
    case setup =>
      refine fun _ => ⟨nofun, fun st hst => ?_⟩
      rw [List.mem_singleton.mp hst]
      exact ⟨rfl, nofun⟩
    case fresh => exact nofun
  routed h := by rcases h with h | h <;> cases h

/-- While the pipeline is being set up, every cluster stage has its own connect. -/
theorem sound_pipedLedger (id : ℕ) (origin : String) (reconnect : Bool) (route : Route)
    (env : Env) : (pipedLedger id origin reconnect route env).Sound := by
  have hids := connects_ids env route (id+1)
  have hmem := connectAll_mem env route.retry.setupRetries (id+1)
    (route.ingress ++ route.egress ++ [route.destination])
  have hgt := connects_id_ne env route id
  refine ⟨?_, fun _ => rfl⟩
  constructor
  case ids =>
    refine List.nodup_cons.mpr ⟨?_, ?_⟩
    · intro h
      obtain ⟨st, hst, hid⟩ := List.mem_map.mp h
      obtain ⟨p, hp, rfl⟩ := List.mem_map.mp hst
      exact hgt p hp hid
    · rw [List.map_map, show Stage.id ∘ Prod.fst = (fun p : Stage × Conn => p.1.id) from rfl, hids]
      exact List.nodup_range'
  case known =>
    intro p hp
    obtain ⟨q, hq, rfl⟩ := List.mem_map.mp hp
    exact ⟨q.1, List.mem_cons_of_mem _ (List.mem_map_of_mem hq), rfl⟩
  case single =>
    have hnodup : ((connects env route (id+1)).map (fun p => p.1.id)).Nodup := by
      rw [hids]
      exact List.nodup_range'
    exact List.pairwise_map.mpr ((List.pairwise_map.mp hnodup).imp (fun h _ _ => h))
  case ready =>
    intro st hst hready p hp _
    obtain ⟨q, hq, rfl⟩ := List.mem_map.mp hp
    rcases List.mem_cons.mp hst with rfl | hst
    · exact hgt q hq
    · obtain ⟨q', hq', rfl⟩ := List.mem_map.mp hst
      obtain ⟨i, origin, hq'⟩ := hmem q' hq'
      rw [hq'] at hready
      exact absurd ((run_calm env _).ready _ hready) nofun
  case rejoin =>
    intro p hp hr
    obtain ⟨q, -, rfl⟩ := List.mem_map.mp hp
    cases hr
  case setup =>
    refine fun _ => ⟨fun p hp => ?_, fun st hst => ?_⟩
    · obtain ⟨q, -, rfl⟩ := List.mem_map.mp hp
      rfl
    · rcases List.mem_cons.mp hst with rfl | hst
      · exact ⟨rfl, nofun⟩
      · obtain ⟨q', hq', rfl⟩ := List.mem_map.mp hst
        obtain ⟨i, origin, hq'⟩ := hmem q' hq'
        rw [hq']
        refine ⟨?_, fun _ h => absurd ((run_calm env _).ready _ h) nofun⟩
        by_contra hne
        exact absurd ((run_calm env _).listening _ (eq_true_of_ne_false hne)) nofun
  case fresh => exact fun _ => rfl

theorem sound_reachable {ok : Session → Event → Prop} {s₀ s : Session} (h₀ : s₀.Initial)
    (h : GuardedRun.Run step ok s₀ s) : s.ledger.Sound :=
  ledger_reachable sound_newLedger sound_pipedLedger
    (fun _ stuck hs => (Ledger.Step.finalise (c := none) stuck).sound hs) (fun _ _ _ hs _ hstep => hstep.sound hs)
    h₀ h

end Session
end L7mp
