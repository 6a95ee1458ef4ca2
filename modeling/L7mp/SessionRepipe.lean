import L7mp.PipeRing
import L7mp.SessionConnected
import L7mp.SessionIdentity

/-! The pipes of a session. They stay inside the ring of its stages and contain every edge
between two stages that are in the pipeline, as long as the last egress stage is not repiped;
so they are the ring whenever every stage is back. -/
namespace L7mp
open GuardedRun RingEdges
open L7mp.Frame (only)

namespace Ledger

/-- The stage is in the pipeline: ready, and repiped if it was out. -/
def In (l : Ledger) (i : ℕ) : Prop :=
  (∀ st ∈ l.frame.stages, st.id = i → st.status = .ready) ∧
    ∀ p ∈ l.frame.tasks, p.2 = .rejoin → p.1 ≠ i

structure Ringed (c : Chain) (l : Ledger) : Prop where
  early : l.frame.piped = false → l.pipes = []
  sub : l.frame.piped = true → l.gone = false → ∀ p ∈ l.pipes, p ∈ c.ring
  full : l.frame.piped = true → l.gone = false → ∀ p ∈ c.ring, l.In p.1 → l.In p.2 → p ∈ l.pipes

/-- A step that makes no pipe and brings no stage into the pipeline. -/
theorem Ringed.keep {c : Chain} {l l' : Ledger} (h : l.Ringed c) (hpipes : l'.pipes = l.pipes)
    (hp : l'.frame.piped = l.frame.piped) (hg : l'.gone = l.gone)
    (hin : ∀ i, l'.In i → l.In i) : l'.Ringed c := by
  constructor
  case early =>
    rw [hp, hpipes]
    exact h.early
  case sub =>
    rw [hp, hg, hpipes]
    exact h.sub
  case full =>
    rw [hp, hg, hpipes]
    intro hpiped hgone p hmem h1 h2
    exact h.full hpiped hgone p hmem (hin _ h1) (hin _ h2)

theorem Ringed.finalise {c : Chain} {l : Ledger} (h : l.Ringed c) (stuck : Bool) :
    (l.finalise stuck).Ringed c := by
  unfold Ledger.finalise
  split_ifs
  · exact h.keep rfl rfl rfl (fun _ => id)
  · refine ⟨h.early, fun _ hg => ?_, fun _ hg => ?_⟩
    · cases hg
    · cases hg

/-- A busy call on stage `i` leaves the other stages where they are. -/
theorem in_of_work {l l' : Ledger} {k i : ℕ} {t t' : Task} {g : Stage → Stage}
    (hk : l.frame.tasks[k]? = some (i, t))
    (hstages : l'.frame.stages = l.frame.stages.map (only i g))
    (htasks : l'.frame.tasks = l.frame.tasks.set k (i, t')) (hout : ¬l'.In i) (j : ℕ)
    (h : l'.In j) : l.In j := by
  have hne : j ≠ i := by
    rintro rfl
    exact hout h
  obtain ⟨hready, hrejoin⟩ := h
  rw [hstages] at hready
  rw [htasks] at hrejoin
  refine ⟨fun st hst hj => ?_, fun p hp hr hj => ?_⟩
  · have hst' := List.mem_map_of_mem (f := only i g) hst
    rw [only, if_neg (hj ▸ hne)] at hst'
    exact hready st hst' hj
  · have hp' : p ≠ (i, t) := by
      rintro rfl
      exact hne hj.symm
    exact hrejoin p (Frame.mem_set_of_ne hk hp hp') hr hj

/-- The stage of a busy call is not in the pipeline while the call does not make it ready. -/
theorem not_in_of_work {l l' : Ledger} (ho : l.frame.Owned) {k i : ℕ} {t : Task}
    {g : Stage → Stage} (hk : l.frame.tasks[k]? = some (i, t)) (hid : ∀ st, (g st).id = st.id)
    (hstages : l'.frame.stages = l.frame.stages.map (only i g))
    (hg : ∀ st ∈ l.frame.stages, st.id = i → (g st).status ≠ .ready) : ¬l'.In i := by
  rintro ⟨hready, -⟩
  obtain ⟨st, hst, hi⟩ := ho.known _ (List.mem_of_getElem? hk)
  have hst' := List.mem_map_of_mem (f := only i g) hst
  rw [only, if_pos hi, ← hstages] at hst'
  exact hg st hst hi (hready _ hst' ((hid st).trans hi))

/-- The stage of a call that begins to rejoin is not in the pipeline. -/
theorem not_in_of_rejoin {l' : Ledger} {i : ℕ} (h : (i, Task.rejoin) ∈ l'.frame.tasks) :
    ¬l'.In i := fun hin => hin.2 _ h rfl rfl

/-- A stage that dropped out is not in the pipeline, and takes no other stage with it. -/
theorem in_of_drop {l : Ledger} {st : Stage} {xs : List ℕ} (hst : st ∈ l.frame.stages) (j : ℕ)
    (h : ((l.lose xs).drop st).In j) : j ≠ st.id ∧ l.In j := by
  obtain ⟨hready, hrejoin⟩ := h
  have hne : j ≠ st.id := by
    rintro rfl
    have hst' := List.mem_map_of_mem (f := only st.id Stage.disconnected) hst
    rw [only, if_pos rfl] at hst'
    have := hready _ hst' rfl
    cases this
  refine ⟨hne, fun st' hst' hj => ?_, hrejoin⟩
  have hmem := List.mem_map_of_mem (f := only st.id Stage.disconnected) hst'
  rw [only, if_neg (hj ▸ hne)] at hmem
  exact hready st' hmem hj

theorem Ringed.drop {c : Chain} {l : Ledger} (h : l.Ringed c) {st : Stage}
    (hst : st ∈ l.frame.stages) (xs : List ℕ) : ((l.lose xs).drop st).Ringed c where
  early hp := by
    change l.pipes.filter _ = []
    rw [h.early hp, List.filter_nil]
  sub hp hg p hmem := h.sub hp hg p (List.mem_of_mem_filter hmem)
  full hp hg p hmem h1 h2 := by
    obtain ⟨hne1, hin1⟩ := in_of_drop hst _ h1
    obtain ⟨hne2, hin2⟩ := in_of_drop hst _ h2
    exact List.mem_filter.mpr ⟨h.full hp hg p hmem hin1 hin2, by simp [hne1, hne2]⟩

/-- The call that reconnects a dropped stage does not bring it back yet. -/
theorem in_of_redo {l : Ledger} {st : Stage} {t : Task} {g : Stage → Stage}
    (hid : ∀ st, (g st).id = st.id) (hg : ∀ st, (g st).status = .ready → st.status = .ready)
    (xs : List ℕ) (j : ℕ)
    (h : ((((l.lose xs).drop st).mapStages (only st.id g)).addTask st.id t).In j) :
    ((l.lose xs).drop st).In j := by
  obtain ⟨hready, hrejoin⟩ := h
  refine ⟨fun st' hst' hj => ?_, fun p hp => hrejoin p (List.mem_append_left _ hp)⟩
  have hmem := List.mem_map_of_mem (f := only st.id g) hst'
  have hready' := hready _ hmem ((Frame.only_id hid _ _).trans hj)
  unfold only at hready'
  split_ifs at hready'
  · exact hg st' hready'
  · exact hready'

/-- `repipe` brings back its stage and no other. -/
theorem in_of_repipe {l : Ledger} {k i : ℕ} {ps : List Pipe}
    (hk : l.frame.tasks[k]? = some (i, .rejoin)) (j : ℕ) (hne : j ≠ i)
    (h : ((l.rejoined k ps).mapStages (only i Stage.repiped)).In j) : l.In j := by
  obtain ⟨hready, hrejoin⟩ := h
  refine ⟨fun st hst hj => ?_, fun p hp hr hj => ?_⟩
  · have hmem := List.mem_map_of_mem (f := only i Stage.repiped) hst
    rw [only, if_neg (hj ▸ hne)] at hmem
    exact hready st hmem hj
  · have hp' : p ≠ (i, .rejoin) := by
      rintro rfl
      exact hne hj.symm
    exact hrejoin p (Frame.mem_eraseIdx_of_ne hk hp hp') hr hj

theorem Ringed.repipe {c : Chain} {l : Ledger} (h : l.Ringed c) (ho : l.frame.Owned) {k i : ℕ}
    (hk : l.frame.tasks[k]? = some (i, .rejoin)) (hc : c.Restores i) :
    ((l.rejoined k (c.repipe i).1).mapStages (only i Stage.repiped)).Ringed c where
  early hp := by
    have hpiped := ho.piped_of_task hk rfl
    change l.frame.piped = false at hp
    rw [hpiped] at hp
    cases hp
  sub hp hg p hmem := by
    rcases List.mem_append.mp hmem with hmem | hmem
    · exact h.sub hp hg p hmem
    · exact ((hc.2 p).mp hmem).1
  full hp hg p hmem h1 h2 := by
    by_cases htouch : Touches i p
    · exact List.mem_append_right _ ((hc.2 p).mpr ⟨hmem, htouch⟩)
    · have hne1 : p.1 ≠ i := fun h => htouch (Or.inl h)
      have hne2 : p.2 ≠ i := fun h => htouch (Or.inr h)
      exact List.mem_append_left _
        (h.full hp hg p hmem (in_of_repipe hk _ hne1 h1) (in_of_repipe hk _ hne2 h2))

/-- No step repipes the last stage of the egress chain. -/
def Inner (c : Chain) : Label → Prop
  | .rejoin i _ => c.Restores i
  | _ => True

theorem Step.ringed {c : Chain} {l l' : Ledger} {label : Label} (h : Step (some c) l label l')
    (ho : l.frame.Owned) (hok : Inner c label) (hr : l.Ringed c) : l'.Ringed c := by
  have hbusy {k i : ℕ} {t : Task} (hk : l.frame.tasks[k]? = some (i, t)) (hb : t.Busy)
      (st : Stage) (hst : st ∈ l.frame.stages) (hi : st.id = i) : st.status ≠ .ready :=
    fun hready => ho.ready st hst hready _ (List.mem_of_getElem? hk) hb hi.symm
  have hset {k i : ℕ} {t t' : Task} (hk : l.frame.tasks[k]? = some (i, t)) :
      (i, t') ∈ l.frame.tasks.set k (i, t') :=
    List.mem_set (List.getElem?_eq_some_iff.mp hk).1 _
  cases h with
  | same | lose => exact hr.keep rfl rfl rfl (fun _ => id)
  | finalise stuck => exact hr.finalise stuck
  | advance k i t t' g hk h =>
    refine hr.keep rfl rfl rfl (in_of_work hk rfl rfl ?_)
    refine not_in_of_work ho hk h.calm.id rfl (fun st hst hi hready => ?_)
    exact hbusy hk (.inl h.waiting) st hst hi (h.calm.ready st hready)
  | obtain k i left redo ep hk =>
    refine hr.keep rfl rfl rfl (in_of_work hk rfl rfl ?_)
    refine not_in_of_work (g := Stage.assign l.nextStream ep) ho hk (fun _ => rfl) rfl
      (fun st _ _ hready => ?_)
    cases hready
  | listenerOk k i hk =>
    exact hr.keep rfl rfl rfl (in_of_work hk rfl rfl (not_in_of_rejoin (hset hk)))
  | resume k i hk =>
    exact hr.keep rfl rfl rfl (in_of_work hk rfl rfl (not_in_of_rejoin (hset hk)))
  | drop st xs label l' hst hready hsrc hxs hno h =>
    have hdrop := hr.drop hst xs
    cases h with
    | none => exact hdrop
    | finalise stuck => exact hdrop.finalise stuck
    | wait t g _ _ _ hg => exact hdrop.keep rfl rfl rfl (in_of_redo hg.id hg.ready xs)
    | refuse g _ hg => exact hdrop.keep rfl rfl rfl (in_of_redo hg.id hg.ready xs)
  | rejoinFail k i stuck hk hfail =>
    have hrep : (c.repipe i).2 = true := hok.1
    rw [show Ledger.repipe (some c) i = c.repipe i from rfl, hrep] at hfail
    cases hfail
  | rejoin k i hk => exact hr.repipe ho hk hok
  | reconnected k i hk =>
    have hrep := hr.repipe ho hk hok
    have hpiped := ho.piped_of_task hk rfl
    refine ⟨fun hp => ?_, fun _ => hrep.sub hpiped, fun _ => hrep.full hpiped⟩
    cases hp
  | giveUp k i stuck hk =>
    have hdropped : (l.dropTask k).Ringed c := by
      refine hr.keep rfl rfl rfl (fun j hin => ⟨hin.1, fun p hp hrj => ?_⟩)
      have hp' : p ≠ (i, .connect true .rejected) := by
        rintro rfl
        cases hrj
      exact hin.2 p (Frame.mem_eraseIdx_of_ne hk hp hp') hrj
    exact hdropped.finalise stuck
  | pipelineOk hset hall =>
    have hpipes : (l.piped (finish (some c))).connected.pipes = c.ring := by
      change l.pipes ++ c.finish = c.ring
      rw [hr.early (ho.fresh hset), List.nil_append, c.finish_eq_ring]
    refine ⟨fun hp => ?_, fun _ _ p hp => ?_, fun _ _ p hp _ _ => ?_⟩
    · cases hp
    · rw [hpipes] at hp
      exact hp
    · rw [hpipes]
      exact hp
  | pipelineFail stuck hset =>
    have hsettled : l.settled.Ringed c := hr.keep rfl rfl rfl (fun _ => id)
    exact hsettled.finalise stuck

end Ledger

namespace Session

/-- The cycle of the chain goes through the stages of the session. -/
theorem cycle_perm {s : Session} {c : Chain} (hc : s.chain? = some c) :
    c.cycle.Perm (s.getStages.map Stage.id) := by
  obtain ⟨d, hd, rfl⟩ := Option.map_eq_some_iff.mp hc
  unfold chain Chain.cycle getStages
  rw [hd, List.map_cons, List.map_append, List.map_append]
  refine List.Perm.cons _ ?_
  rw [List.append_assoc]
  exact (List.perm_append_singleton _ _).symm.append_left _

/-- No step repipes the last stage of the egress chain. -/
def RejoinsInner (s : Session) : Event → Prop
  | .rejoin k _ => ∀ p ∈ s.tasks[k]?.toList, s.egress.getLast?.map Stage.id ≠ some p.1
  | _ => True

instance (s : Session) : (e : Event) → Decidable (s.RejoinsInner e)
  | .rejoin k _ => inferInstanceAs
      (Decidable (∀ p ∈ s.tasks[k]?.toList, s.egress.getLast?.map Stage.id ≠ some p.1))
  | .streamOk .. | .streamFail .. | .timer .. | .listenerOk .. | .listenerFail .. | .lost ..
  | .disconnect .. | .end_ | .error .. | .destroyTimer | .resume .. | .giveUp .. | .pipelineOk
  | .pipelineFail .. => inferInstanceAs (Decidable True)

theorem inner_of_rejoinsInner {s : Session} {c : Chain} {e : Event} (ho : s.ledger.frame.Owned)
    (hc : s.chain? = some c) (hok : s.RejoinsInner e) : Ledger.Inner c (s.label e) := by
  cases e with
  | rejoin k thr =>
    cases hk : s.tasks[k]? with
    | none =>
      simp only [label, hk]
      trivial
    | some q =>
      obtain ⟨i, t⟩ := q
      simp only [label, hk, Ledger.Inner]
      simp only [RejoinsInner, hk, Option.toList_some, List.mem_singleton, forall_eq] at hok
      have hn : c.cycle.Nodup := (cycle_perm hc).nodup_iff.mpr ho.ids
      have hi : i ∈ c.cycle := by
        obtain ⟨st, hst, hi⟩ := ho.known _ (List.mem_of_getElem? hk)
        exact (cycle_perm hc).mem_iff.mpr (List.mem_map.mpr ⟨st, hst, hi⟩)
      obtain ⟨d, -, rfl⟩ := Option.map_eq_some_iff.mp hc
      apply (Chain.restores_iff hn hi).mpr
      change (s.egress.map Stage.id).getLast? ≠ some i
      rw [List.getLast?_map]
      exact hok
  | streamOk k ep =>
    simp only [label]
    split <;> trivial
  | lost i env thr =>
    simp only [label]
    split
    · split_ifs <;> trivial
    · trivial
  | disconnect i env thr =>
    simp only [label]
    split
    · split_ifs <;> trivial
    · trivial
  | resume k =>
    simp only [label]
    split <;> trivial
  | streamFail | timer | listenerOk | listenerFail | end_ | error | destroyTimer | giveUp
  | pipelineOk | pipelineFail => trivial

theorem ringed_start {s₀ : Session} (h₀ : s₀.Initial) (c : Chain) : s₀.ledger.Ringed c := by
  obtain ⟨name, id, origin, err, st, rfl⟩ := h₀
  have hnew (l : Ledger) (hp : l.frame.piped = false) (hpipes : l.pipes = []) : l.Ringed c := by
    refine ⟨fun _ => hpipes, fun h => ?_, fun h => ?_⟩
    · rw [hp] at h
      cases h
    · rw [hp] at h
      cases h
  cases st with
  | failed track lookedUp thr =>
    rw [start_failed]
    exact (hnew (newLedger id origin) rfl rfl).finalise _
  | piped track reconnect route env =>
    rw [start_piped]
    exact hnew _ rfl rfl

theorem chain?_run {ok : Session → Event → Prop} {s₀ s : Session} (h : Run step ok s₀ s) :
    s.chain? = s₀.chain? := by
  have htrans (s t u : Session) (h : t.chain? = s.chain?) (h' : u.chain? = t.chain?) :
      u.chain? = s.chain? := h'.trans h
  exact Run.relates (P := fun _ => True) (R := fun s t => t.chain? = s.chain?) (fun _ => rfl)
    htrans (fun _ _ _ _ _ h => ⟨trivial, step_chain? h⟩) h trivial

theorem ringed_reachable {s₀ s : Session} {c : Chain} (h₀ : s₀.Initial)
    (h : Run step RejoinsInner s₀ s) (hc : s.chain? = some c) : s.ledger.Ringed c := by
  rw [chain?_run h] at hc
  have hinv : s.ledger.Sound ∧ s.chain? = some c ∧ s.ledger.Ringed c := by
    refine Run.invariant (P := fun s => s.ledger.Sound ∧ s.chain? = some c ∧ s.ledger.Ringed c)
      ?_ h ⟨sound_reachable h₀ (Run.refl s₀ : Run step always s₀ s₀), hc, ringed_start h₀ c⟩
    intro s e t ⟨hs, hc, hr⟩ hok hstep
    have hledger := step_ledger hstep
    rw [hc] at hledger
    exact ⟨hledger.sound hs, (step_chain? hstep).trans hc,
      hledger.ringed hs.owned (inner_of_rejoinsInner hs.owned hc hok) hr⟩
  exact hinv.2.2

/-- The pipeline was set up and not destroyed, and every stage is back in it. -/
structure Whole (s : Session) : Prop where
  setUp : .connect ∈ s.events
  alive : .destroy ∉ s.events
  ready : ∀ st ∈ s.getStages, st.status = .ready
  repiped : s.rejoining = false

/-- `pipeline_finish` makes the ring, `repipe` restores it exactly for the stages that are not
the last of the egress chain, and in a run that repipes only such stages the pipes are the ring
whenever every stage is back. -/
theorem ring_of_rejoinsInner (s₀ : Session) (h₀ : s₀.Initial) :
    (∀ s c, Run step always s₀ s → s.chain? = some c → c.finish = c.ring ∧
      ∀ st ∈ s.getStages,
        c.Restores st.id ↔ s.egress.getLast?.map Stage.id ≠ some st.id) ∧
    ∀ s c, Run step RejoinsInner s₀ s → s.chain? = some c → s.Whole →
      ∀ p, p ∈ s.pipes ↔ p ∈ c.ring := by
  constructor
  · intro s c hrun hc
    refine ⟨c.finish_eq_ring, fun st hst => ?_⟩
    have hsound := sound_reachable h₀ hrun
    have hn : c.cycle.Nodup := (cycle_perm hc).nodup_iff.mpr hsound.owned.ids
    have hi : st.id ∈ c.cycle := (cycle_perm hc).mem_iff.mpr (List.mem_map_of_mem hst)
    obtain ⟨d, -, rfl⟩ := Option.map_eq_some_iff.mp hc
    rw [Chain.restores_iff hn hi, ← List.getLast?_map]
    rfl
  · intro s c hrun hc hwhole p
    have hring := ringed_reachable h₀ hrun hc
    have hpiped : s.ledger.frame.piped = true := by
      have := hwhole.setUp
      change s.events.contains .connect = true
      simpa using this
    have hgone := not_contains hwhole.alive
    have hin (i : ℕ) : s.ledger.In i := by
      refine ⟨fun st hst _ => hwhole.ready st hst, fun q hq hr => ?_⟩
      have : s.rejoining = true := List.any_eq_true.mpr ⟨q, hq, by simp [hr]⟩
      rw [hwhole.repiped] at this
      cases this
    exact ⟨hring.sub hpiped hgone p, fun hp => hring.full hpiped hgone p hp (hin _) (hin _)⟩

/-- A session with two egress stages, whose lost streams are retried. -/
def egressSession : Session :=
  start "s" 0 "l" true
    (.piped 0 false ⟨"r", "c", [], ["a", "b"], ⟨.always, 1, 2000⟩, false⟩ lookupAll)

/-- The first egress stage is lost and comes back: the ring is the same as before. -/
theorem ring_of_rejoinsInner_repiped :
    ((∀ s c, Run step always egressSession s → s.chain? = some c → c.finish = c.ring ∧
      ∀ st ∈ s.getStages,
        c.Restores st.id ↔ s.egress.getLast?.map Stage.id ≠ some st.id) ∧
    ∀ s c, Run step RejoinsInner egressSession s → s.chain? = some c → s.Whole →
      ∀ p, p ∈ s.pipes ↔ p ∈ c.ring) ∧
    (exec step RejoinsInner egressSession [.streamOk 0 ⟨"x", some "a"⟩,
      .streamOk 1 ⟨"y", some "b"⟩, .streamOk 2 ⟨"z", some "c"⟩, .pipelineOk,
      .lost 1 lookupAll false, .streamOk 3 ⟨"x", some "a"⟩, .resume 3, .rejoin 3 false]).map
        (fun s => (s.pipes, s.getStages.map Stage.status)) =
      some ([(0, 3), (2, 0), (3, 1), (1, 2)], [.ready, .ready, .ready, .ready]) :=
  ⟨ring_of_rejoinsInner _ ⟨_, _, _, _, _, rfl⟩, by decide⟩

/-- `repipe` of the last egress stage compares its index with NaN and throws, so the pipe to the
source is missing. -/
theorem last_egress_not_restored : ¬∀ s₀ s : Session, ∀ c, s₀.Initial → Run step always s₀ s →
    s.chain? = some c → ∀ st ∈ s.getStages, c.Restores st.id := by
  intro h
  obtain ⟨s, hs⟩ : ∃ s, exec step always egressSession [.streamOk 0 ⟨"x", some "a"⟩,
    .streamOk 1 ⟨"y", some "b"⟩, .streamOk 2 ⟨"z", some "c"⟩, .pipelineOk,
    .lost 2 lookupAll false, .streamOk 3 ⟨"y", some "b"⟩, .resume 3] = some s := ⟨_, rfl⟩
  have hrestores := h egressSession s ⟨0, [], [1, 2], 3⟩ ⟨_, _, _, _, _, rfl⟩ (exec_run _ _ _ hs)
  cases hs
  have hlast := (hrestores rfl _ (List.mem_cons_of_mem _ (List.mem_cons_of_mem _
    List.mem_cons_self))).1
  cases hlast

end Session
end L7mp
