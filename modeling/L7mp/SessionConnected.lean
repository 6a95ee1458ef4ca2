import L7mp.SessionWiring

/-! What the status CONNECTED and the counter `active_streams` say about the stages. The
counter is right in every run; the status is, as long as no stage that dropped out is being
reconnected, because `disconnect` never takes it back. -/
namespace L7mp
open GuardedRun
open L7mp.Frame (only)

namespace Frame

/-- How the number of stages with a property changes with one stage. -/
theorem countP_only {P : Stage → Bool} {g : Stage → Stage} {l : List Stage} {st : Stage}
    (hn : (l.map Stage.id).Nodup) (hst : st ∈ l) :
    (l.map (only st.id g)).countP P + (if P st then 1 else 0) =
      l.countP P + (if P (g st) then 1 else 0) := by
  induction l with
  | nil => cases hst
  | cons a l ih =>
    obtain ⟨hnot, hn⟩ := List.nodup_cons.mp hn
    rw [List.map_cons, List.countP_cons, List.countP_cons]
    rcases List.mem_cons.mp hst with rfl | hst
    · have hrest : l.map (only st.id g) = l := by
        refine (List.map_congr_left (fun b hb => ?_)).trans (List.map_id l)
        have hne : b.id ≠ st.id := fun h => hnot (h ▸ List.mem_map_of_mem hb)
        exact if_neg hne
      rw [hrest, only, if_pos rfl]
      omega
    · have hne : a.id ≠ st.id := fun h => hnot (h ▸ List.mem_map_of_mem hst)
      have := ih hn hst
      rw [only, if_neg hne]
      omega

end Frame

namespace Ledger

def notReady (l : Ledger) : ℕ := l.frame.stages.countP (fun st => st.status ≠ .ready)

/-- The stages that are ready again and not repiped yet. -/
def rejoins (l : Ledger) : ℕ := l.frame.tasks.countP (fun p => p.2 = .rejoin)

/-- Between setup and destruction `active_streams` counts the stages that are in the pipeline. -/
def Counted (l : Ledger) : Prop :=
  l.frame.piped = true → l.gone = false → l.active + l.notReady + l.rejoins = l.num

theorem Counted.of_eq {l l' : Ledger} (h : l.Counted) (hp : l'.frame.piped = l.frame.piped)
    (hg : l'.gone = l.gone) (hr : l'.notReady = l.notReady) (hj : l'.rejoins = l.rejoins)
    (ha : l'.active = l.active) (hn : l'.num = l.num) : l'.Counted := by
  unfold Counted
  rw [hp, hg, hr, hj, ha, hn]
  exact h

theorem Counted.finalise {l : Ledger} (h : l.Counted) (stuck : Bool) : (l.finalise stuck).Counted := by
  unfold Ledger.finalise
  split_ifs
  · exact h
  · exact nofun

theorem notReady_only {l : Ledger} (hn : (l.frame.stages.map Stage.id).Nodup) {st : Stage}
    (hst : st ∈ l.frame.stages) (g : Stage → Stage) :
    (l.mapStages (only st.id g)).notReady + (if st.status ≠ .ready then 1 else 0) =
      l.notReady + (if (g st).status ≠ .ready then 1 else 0) := by
  have := Frame.countP_only (P := fun st => decide (st.status ≠ .ready)) (g := g) hn hst
  simp only [decide_eq_true_eq] at this
  exact this

/-- A busy call changes its stage, which is not ready before. -/
theorem notReady_work {l : Ledger} (ho : l.frame.Owned) {k i : ℕ} {t : Task} {g : Stage → Stage}
    (hk : l.frame.tasks[k]? = some (i, t)) (hb : t.Busy) :
    ((∀ st, st.status ≠ .ready → (g st).status ≠ .ready) →
      (l.mapStages (only i g)).notReady = l.notReady) ∧
    ((∀ st, (g st).status = .ready) → (l.mapStages (only i g)).notReady + 1 = l.notReady) := by
  obtain ⟨st, hst, rfl⟩ := ho.known _ (List.mem_of_getElem? hk)
  have hnot : st.status ≠ .ready := fun hr => ho.ready st hst hr _ (List.mem_of_getElem? hk) hb rfl
  have hone := notReady_only ho.ids hst g
  rw [if_pos hnot] at hone
  refine ⟨fun hg => ?_, fun hg => ?_⟩
  · rw [if_pos (hg st hnot)] at hone
    omega
  · rw [if_neg (not_not.mpr (hg st))] at hone
    exact hone

theorem rejoins_set {l l' : Ledger} {k i : ℕ} {t t' : Task}
    (htasks : l'.frame.tasks = l.frame.tasks.set k (i, t'))
    (hk : l.frame.tasks[k]? = some (i, t)) (ht : t ≠ .rejoin) :
    l'.rejoins = l.rejoins + (if t' = .rejoin then 1 else 0) := by
  have := Frame.countP_setTask (P := fun p => decide (p.2 = .rejoin)) (q := (i, t')) hk
  simp only [decide_eq_true_eq, if_neg ht] at this
  unfold rejoins
  rw [htasks]
  exact this

theorem rejoins_dropTask {l : Ledger} {k i : ℕ} {t : Task}
    (hk : l.frame.tasks[k]? = some (i, t)) :
    (l.dropTask k).rejoins + (if t = .rejoin then 1 else 0) = l.rejoins := by
  have := Frame.countP_dropTask (P := fun p => decide (p.2 = .rejoin)) hk
  simp only [decide_eq_true_eq] at this
  exact this

/-- A stage that drops out is counted out. -/
theorem Counted.drop {l : Ledger} (h : l.Counted) (ho : l.frame.Owned) {st : Stage}
    (hst : st ∈ l.frame.stages) (hready : st.status = .ready) (xs : List ℕ) :
    ((l.lose xs).drop st).Counted := by
  have hone := notReady_only ho.ids hst Stage.disconnected
  rw [if_neg (not_not.mpr hready), if_pos (by exact nofun)] at hone
  intro hp hg
  have hsum := h hp hg
  change l.active + -1 + (l.mapStages (only st.id Stage.disconnected)).notReady + l.rejoins = l.num
  omega

theorem Counted.redo {l : Ledger} (h : l.Counted) (ho : l.frame.Owned) {st : Stage} {t : Task}
    {g : Stage → Stage} (hst : st ∈ l.frame.stages) (hready : st.status = .ready) (xs : List ℕ)
    (hg : Frame.Calm g) (ht : t ≠ .rejoin) :
    ((((l.lose xs).drop st).mapStages (only st.id g)).addTask st.id t).Counted := by
  have hdrop : ((l.lose xs).drop st).frame.Owned := ho.calm (Frame.disconnected_calm.only st.id)
  have hmem : st.disconnected ∈ ((l.lose xs).drop st).frame.stages := by
    have := List.mem_map_of_mem (f := only st.id Stage.disconnected) hst
    rw [only, if_pos rfl] at this
    exact this
  have hone := notReady_only hdrop.ids hmem g
  have hnot : st.disconnected.status ≠ .ready := by
    rw [show st.disconnected.status = .disconnected from rfl]
    decide
  rw [if_pos hnot, if_pos (fun hr => hnot (hg.ready _ hr))] at hone
  refine (h.drop ho hst hready xs).of_eq rfl rfl (Nat.add_right_cancel hone) ?_ rfl rfl
  change (l.frame.tasks ++ [(st.id, t)]).countP _ = _
  rw [List.countP_append, List.countP_singleton, if_neg (by simpa using ht)]
  rfl

theorem Counted.repipe {l : Ledger} {ps : List Pipe} (h : l.Counted) (hs : l.Sound) (hp : l.Phased) {k i : ℕ}
    (hk : l.frame.tasks[k]? = some (i, .rejoin)) :
    ((l.rejoined k ps).mapStages (only i Stage.repiped)).Counted := by
  have hmem := List.mem_of_getElem? hk
  obtain ⟨st, hst, rfl⟩ := hs.owned.known _ hmem
  intro hpiped hg
  have hready : st.status = .ready := (hp.fits hg _ hmem st hst rfl).rejoin rfl
  have hone := notReady_only hs.owned.ids hst Stage.repiped
  rw [if_neg (not_not.mpr hready), if_neg (by exact not_not.mpr rfl)] at hone
  have hdrop := rejoins_dropTask hk
  rw [if_pos rfl] at hdrop
  have hsum := h hpiped hg
  change l.active + 1 + (l.mapStages (only st.id Stage.repiped)).notReady +
    (l.dropTask k).rejoins = l.num
  omega

theorem Step.counted {c : Option Chain} {l l' : Ledger} {label : Label} (h : Step c l label l') (hs : l.Sound)
    (hp : l.Phased) (hc : l.Counted) : l'.Counted := by
  cases h with
  | same | lose => exact hc
  | finalise stuck => exact hc.finalise stuck
  | advance k i t t' g hk h =>
    have hsame := (notReady_work hs.owned hk (.inl h.waiting)).1
      (fun st hnot hr => hnot (h.calm.ready st hr))
    have hrejoin := @rejoins_set l ((l.mapStages (only i g)).setTask k i t') _ _ _ _ rfl hk
      (by rintro rfl; exact h.waiting)
    rw [if_neg h.rejoin] at hrejoin
    exact hc.of_eq rfl rfl hsame hrejoin rfl rfl
  | obtain k i left redo ep hk =>
    have hsame := (notReady_work (g := Stage.assign l.nextStream ep) hs.owned hk (.inl trivial)).1
      (fun _ _ => nofun)
    have hrejoin := @rejoins_set l (l.setTask k i (.connect redo .resolved)) _ _ _ _ rfl hk nofun
    exact hc.of_eq rfl rfl hsame hrejoin rfl rfl
  | listenerOk k i hk =>
    have hone := (notReady_work (i := i)
      (g := fun st => ({ st with stream := some l.nextStream } : Stage).handled) hs.owned hk
      (.inl trivial)).2 (fun _ => rfl)
    have hrejoin := @rejoins_set l (l.setTask k i .rejoin) _ _ _ _ rfl hk nofun
    rw [if_pos rfl] at hrejoin
    intro hpiped hg
    have hsum := hc hpiped hg
    change l.active + (l.mapStages (only i _)).notReady + (l.setTask k i .rejoin).rejoins = l.num
    omega
  | resume k i hk =>
    have hone := (notReady_work (i := i) (g := Stage.handled) hs.owned hk (.inr rfl)).2
      (fun _ => rfl)
    have hrejoin := @rejoins_set l (l.setTask k i .rejoin) _ _ _ _ rfl hk nofun
    rw [if_pos rfl] at hrejoin
    intro hpiped hg
    have hsum := hc hpiped hg
    change l.active + (l.mapStages (only i _)).notReady + (l.setTask k i .rejoin).rejoins = l.num
    omega
  | drop st xs label l' hst hready hsrc hxs hno h =>
    cases h with
    | none => exact hc.drop hs.owned hst hready xs
    | finalise stuck => exact (hc.drop hs.owned hst hready xs).finalise stuck
    | wait t g _ ht _ hg =>
      exact hc.redo hs.owned hst hready xs hg (by rintro rfl; exact ht)
    | refuse g _ hg => exact hc.redo (t := .connect true .rejected) hs.owned hst hready xs hg nofun
  | rejoinFail k i stuck hk =>
    have hdrop := rejoins_dropTask hk
    rw [if_pos rfl] at hdrop
    refine Counted.finalise (fun hpiped hg => ?_) stuck
    have hsum := hc hpiped hg
    change l.active + 1 + l.notReady + (l.dropTask k).rejoins = l.num
    omega
  | rejoin k i hk => exact hc.repipe hs hp hk
  | reconnected k i hk => exact fun _ => hc.repipe hs hp hk (hs.owned.piped_of_task hk rfl)
  | giveUp k i stuck hk =>
    have hdrop : (l.dropTask k).Counted := hc.of_eq rfl rfl rfl (rejoins_dropTask hk) rfl rfl
    exact hdrop.finalise stuck
  | pipelineOk hset hall =>
    intro _ _
    have hready : (l.piped (finish c)).connected.notReady = 0 := by
      refine List.countP_eq_zero.mpr (fun st hst => ?_)
      obtain ⟨st₀, -, rfl⟩ := List.mem_map.mp hst
      simp [Stage.handled]
    have hrejoin : (l.piped (finish c)).connected.rejoins = 0 := by
      refine List.countP_eq_zero.mpr (fun p hp => ?_)
      simp [hs.owned.resolved hset hall p hp]
    rw [hready, hrejoin]
    change (l.frame.tasks.countP (Session.isSetup ·.2) : ℤ) + 0 + 0 =
      l.frame.tasks.countP (Session.isSetup ·.2)
    omega
  | pipelineFail stuck hset =>
    have hsettled : l.settled.Counted := hc.of_eq rfl rfl rfl rfl rfl rfl
    exact hsettled.finalise stuck

/-- Before the session is destroyed, no stage in service has a stream that was closed or lost. -/
structure Clean (l : Ledger) : Prop where
  closed : l.gone = false → ∀ st ∈ l.frame.stages, st.status = .connected ∨ st.status = .ready →
    ∀ x, st.stream = some x → x ∉ l.closing
  lost : l.gone = false → l.frame.piped = true → ∀ st ∈ l.frame.stages, st.status = .ready →
    st.listening = true ∧ ∀ x, st.stream = some x → x ∉ l.lost

/-- A connected session was not destroyed, and each of its stages is ready or about to end the
session. -/
structure Serving (l : Ledger) : Prop extends l.Clean where
  alive : l.status = .connected → l.gone = false
  ready : l.status = .connected → ∀ st ∈ l.frame.stages, st.status = .ready ∨
    ∃ p ∈ l.frame.tasks, p.1 = st.id ∧ p.2 = .connect true .rejected

/-- What a run has to avoid for the status to be right: a stage that drops out of a connected
session and is waited for, handlers that are put on a stream that is already lost, and
`connected` after `destroy`. -/
def Steady (l : Ledger) : Label → Prop
  | .waits => l.status ≠ .connected
  | .resume i => ∀ st ∈ l.frame.stages, st.id = i → ∀ x ∈ st.stream.toList, x ∉ l.lost
  | .piped => l.gone = false ∧ ∀ st ∈ l.frame.stages, ∀ x ∈ st.stream.toList, x ∉ l.lost
  | .rejoin _ true => l.gone = false
  | .rejoin _ false | .other | .stream _ => True

def decidableSteady (l : Ledger) : (label : Label) → Decidable (l.Steady label)
  | .waits => inferInstanceAs (Decidable (l.status ≠ .connected))
  | .resume i => inferInstanceAs (Decidable (∀ st ∈ l.frame.stages, st.id = i →
      ∀ x ∈ st.stream.toList, x ∉ l.lost))
  | .piped => inferInstanceAs (Decidable (l.gone = false ∧ ∀ st ∈ l.frame.stages,
      ∀ x ∈ st.stream.toList, x ∉ l.lost))
  | .rejoin _ true => inferInstanceAs (Decidable (l.gone = false))
  | .rejoin _ false | .other | .stream _ => inferInstanceAs (Decidable True)

theorem Clean.of_eq {l l' : Ledger} (h : l.Clean) (hs : l'.frame.stages = l.frame.stages)
    (hp : l'.frame.piped = l.frame.piped) (hg : l'.gone = l.gone) (hc : l'.closing = l.closing)
    (hl : l'.lost = l.lost) : l'.Clean := by
  constructor
  case closed => rw [hs, hg, hc]; exact h.closed
  case lost => rw [hs, hg, hp, hl]; exact h.lost

theorem Clean.finalise {l : Ledger} (h : l.Clean) (stuck : Bool) : (l.finalise stuck).Serving := by
  unfold Ledger.finalise
  split_ifs
  · exact ⟨⟨h.closed, h.lost⟩, nofun, nofun⟩
  · exact ⟨⟨nofun, nofun⟩, nofun, nofun⟩

/-- A busy call brings its stage, which is not ready, to a state that is clean. -/
theorem Serving.work {l l' : Ledger} (h : l.Serving) (ho : l.frame.Owned) {k i : ℕ} {t t' : Task}
    {g : Stage → Stage} (hk : l.frame.tasks[k]? = some (i, t)) (hb : t.Busy)
    (hid : ∀ st, (g st).id = st.id) (hstages : l'.frame.stages = l.frame.stages.map (only i g))
    (htasks : l'.frame.tasks = l.frame.tasks.set k (i, t'))
    (hp : l'.frame.piped = l.frame.piped) (hg : l'.gone = l.gone) (hst : l'.status = l.status)
    (hc : l'.closing = l.closing) (hl : l'.lost = l.lost)
    (hclosed : l.gone = false → ∀ st ∈ l.frame.stages, st.id = i →
      (g st).status = .connected ∨ (g st).status = .ready → ∀ x, (g st).stream = some x →
        x ∉ l.closing)
    (hlost : ∀ st ∈ l.frame.stages, st.id = i → (g st).status = .ready →
      (g st).listening = true ∧ ∀ x, (g st).stream = some x → x ∉ l.lost) : l'.Serving := by
  constructor
  case toClean =>
    constructor
    case closed =>
      rw [hg, hc, hstages]
      intro hgone st hst hor
      rcases Frame.mem_only hst with ⟨st₀, hst₀, hi, rfl⟩ | ⟨hst, -⟩
      · exact hclosed hgone st₀ hst₀ hi hor
      · exact h.closed hgone st hst hor
    case lost =>
      rw [hg, hp, hl, hstages]
      intro hgone hpiped st hst hready
      rcases Frame.mem_only hst with ⟨st₀, hst₀, hi, rfl⟩ | ⟨hst, -⟩
      · exact hlost st₀ hst₀ hi hready
      · exact h.lost hgone hpiped st hst hready
  case alive => rw [hst, hg]; exact h.alive
  case ready =>
    rw [hst, hstages, htasks]
    intro hconn st hst
    have hkeep (st : Stage) (hex : ∃ p ∈ l.frame.tasks, p.1 = st.id ∧
        p.2 = .connect true .rejected) : ∃ p ∈ l.frame.tasks.set k (i, t'), p.1 = st.id ∧
        p.2 = .connect true .rejected := by
      obtain ⟨p, hp, hpi, hpr⟩ := hex
      refine ⟨p, Frame.mem_set_of_ne hk hp ?_, hpi, hpr⟩
      rintro rfl
      rcases hb with hb | hb <;> rw [show t = _ from hpr] at hb <;> cases hb
    rcases Frame.mem_only hst with ⟨st₀, hst₀, hi, rfl⟩ | ⟨hst, -⟩
    · have hnot : st₀.status ≠ .ready := fun hr =>
        ho.ready st₀ hst₀ hr _ (List.mem_of_getElem? hk) hb hi.symm
      rw [hid]
      exact .inr (hkeep st₀ ((h.ready hconn st₀ hst₀).resolve_left hnot))
    · exact (h.ready hconn st hst).imp_right (hkeep st)

/-- A stream is lost that belongs to no stage in service. -/
theorem Clean.lose {l : Ledger} (h : l.Clean) (ho : l.frame.Owned) (hw : l.Wired) {st : Stage}
    {x : ℕ} (hst : st ∈ l.frame.stages) (hx : st.stream = some x)
    (hnot : st.listening = false ∨ st.status ≠ .ready) : (l.lose [x]).Clean where
  closed := h.closed
  lost hg hp st' hst' hready := by
    obtain ⟨hlist, hlost⟩ := h.lost hg hp st' hst' hready
    refine ⟨hlist, fun y hy hmem => ?_⟩
    rcases List.mem_append.mp hmem with hmem | hmem
    · exact hlost y hy hmem
    · rw [List.mem_singleton.mp hmem] at hy
      have heq : st' = st := List.inj_on_of_nodup_map ho.ids hst' hst
        (hw.distinct st' hst' st hst x hy hx)
      subst heq
      rcases hnot with hnot | hnot
      · rw [hlist] at hnot
        cases hnot
      · exact hnot hready

theorem Clean.drop {l : Ledger} (h : l.Clean) (hw : l.Wired) {st : Stage}
    (hst : st ∈ l.frame.stages) {xs : List ℕ} (hxs : ∀ x ∈ xs, st.stream = some x) :
    ((l.lose xs).drop st).Clean where
  closed hg st' hst' hor x hx hmem := by
    rcases Frame.mem_only hst' with ⟨st₀, -, -, rfl⟩ | ⟨hst', hne⟩
    · rcases hor with hor | hor <;> cases hor
    · rcases List.mem_append.mp hmem with hmem | hmem
      · exact h.closed hg st' hst' hor x hx hmem
      · exact hne (hw.distinct st' hst' st hst x hx (Option.mem_toList.mp hmem))
  lost hg hp st' hst' hready := by
    rcases Frame.mem_only hst' with ⟨st₀, -, -, rfl⟩ | ⟨hst', hne⟩
    · cases hready
    · obtain ⟨hlist, hlost⟩ := h.lost hg hp st' hst' hready
      refine ⟨hlist, fun x hx hmem => ?_⟩
      rcases List.mem_append.mp hmem with hmem | hmem
      · exact hlost x hx hmem
      · exact hne (hw.distinct st' hst' st hst x hx (hxs x hmem))

/-- The stage that dropped out stays out of service while its reconnect starts. -/
theorem Clean.redo {l : Ledger} (h : l.Clean) (hw : l.Wired) {st : Stage} {t : Task}
    {g : Stage → Stage} (hst : st ∈ l.frame.stages) {xs : List ℕ}
    (hxs : ∀ x ∈ xs, st.stream = some x) (hg : Frame.Calm g)
    (hconn : ∀ st, (g st).status = .connected → st.status = .connected) :
    ((((l.lose xs).drop st).mapStages (only st.id g)).addTask st.id t).Clean := by
  have hdrop := h.drop hw hst hxs
  -- the stage with this id was changed by `disconnect` before
  have hout (st' : Stage) (hst' : st' ∈ ((l.lose xs).drop st).frame.stages)
      (hi : st'.id = st.id) : st'.status = .disconnected := by
    rcases Frame.mem_only hst' with ⟨st₀, -, -, rfl⟩ | ⟨-, hne⟩
    · rfl
    · exact absurd hi hne
  constructor
  case closed =>
    intro hgone st' hst' hor
    rcases Frame.mem_only hst' with ⟨st₀, hst₀, hi, rfl⟩ | ⟨hst', -⟩
    · have hstatus := hout st₀ hst₀ hi
      rcases hor with hor | hor
      · rw [hconn _ hor] at hstatus
        cases hstatus
      · rw [hg.ready _ hor] at hstatus
        cases hstatus
    · exact hdrop.closed hgone st' hst' hor
  case lost =>
    intro hgone hp st' hst' hready
    rcases Frame.mem_only hst' with ⟨st₀, hst₀, hi, rfl⟩ | ⟨hst', -⟩
    · have hstatus := hout st₀ hst₀ hi
      rw [hg.ready _ hready] at hstatus
      cases hstatus
    · exact hdrop.lost hgone hp st' hst' hready

theorem Clean.repipe {l : Ledger} (h : l.Clean) (ps : List Pipe) (hp : l.Phased) {k i : ℕ}
    (hk : l.frame.tasks[k]? = some (i, .rejoin)) :
    ((l.rejoined k ps).mapStages (only i Stage.repiped)).Clean where
  closed hg st hst hor x hx := by
    rcases Frame.mem_only hst with ⟨st₀, hst₀, hi, rfl⟩ | ⟨hst, -⟩
    · have hready := (hp.fits hg _ (List.mem_of_getElem? hk) st₀ hst₀ hi).rejoin rfl
      exact h.closed hg st₀ hst₀ (.inr hready) x hx
    · exact h.closed hg st hst hor x hx
  lost hg hpiped st hst hready := by
    rcases Frame.mem_only hst with ⟨st₀, hst₀, hi, rfl⟩ | ⟨hst, -⟩
    · have hready := (hp.fits hg _ (List.mem_of_getElem? hk) st₀ hst₀ hi).rejoin rfl
      exact h.lost hg hpiped st₀ hst₀ hready
    · exact h.lost hg hpiped st hst hready

/-- When `active_streams` reaches `num_streams` again, no other stage is out or rejoining. -/
theorem Counted.last {l : Ledger} (h : l.Counted) (hs : l.Sound) (hg : l.gone = false) {k i : ℕ}
    (hk : l.frame.tasks[k]? = some (i, .rejoin)) :
    l.active + 1 = l.num ↔
      (∀ st ∈ l.frame.stages, st.status = .ready) ∧ (l.dropTask k).rejoins = 0 := by
  have hsum := h (hs.owned.piped_of_task hk rfl) hg
  have hdrop := rejoins_dropTask hk
  rw [if_pos rfl] at hdrop
  have hzero : l.notReady = 0 ↔ ∀ st ∈ l.frame.stages, st.status = .ready := by
    unfold notReady
    rw [List.countP_eq_zero]
    simp
  rw [← hzero]
  omega

theorem Step.serving {c : Option Chain} {l l' : Ledger} {label : Label} (h : Step c l label l') (hs : l.Sound)
    (hw : l.Wired) (hp : l.Phased) (hc : l.Counted) (hok : l.Steady label) (hsv : l.Serving) :
    l'.Serving := by
  have hbusy {k i : ℕ} {t : Task} (hk : l.frame.tasks[k]? = some (i, t)) (hb : t.Busy)
      (st : Stage) (hst : st ∈ l.frame.stages) (hi : st.id = i) : st.status ≠ .ready :=
    fun hr => hs.owned.ready st hst hr _ (List.mem_of_getElem? hk) hb hi.symm
  cases h with
  | same => exact hsv
  | lose st x hst hx hnot => exact ⟨hsv.toClean.lose hs.owned hw hst hx hnot, hsv.alive, hsv.ready⟩
  | finalise stuck => exact hsv.toClean.finalise stuck
  | advance k i t t' g hk h =>
    refine hsv.work hs.owned hk (.inl h.waiting) h.calm.id rfl rfl rfl rfl rfl rfl rfl ?_ ?_
    · intro hg st hst hi hor x hx
      rw [h.stream] at hx
      exact hsv.closed hg st hst (hor.imp (h.connected st) (h.calm.ready st)) x hx
    · intro st hst hi hr
      exact absurd (h.calm.ready st hr) (hbusy hk (.inl h.waiting) st hst hi)
  | obtain k i left redo ep hk =>
    refine hsv.work (g := Stage.assign l.nextStream ep) hs.owned hk (.inl trivial) (fun _ => rfl)
      rfl rfl rfl rfl rfl rfl rfl ?_ (fun _ _ _ => nofun)
    intro _ st _ _ _ x hx hmem
    have := hw.oldClosing x hmem
    have := Option.some.inj hx
    omega
  | listenerOk k i hk =>
    refine hsv.work (g := fun st => ({ st with stream := some l.nextStream } : Stage).handled)
      hs.owned hk (.inl trivial) (fun _ => rfl) rfl rfl rfl rfl rfl rfl rfl ?_ ?_
    · intro _ st _ _ _ x hx hmem
      have := hw.oldClosing x hmem
      have := Option.some.inj hx
      omega
    · intro st _ _ _
      refine ⟨rfl, fun x hx hmem => ?_⟩
      have := hw.oldLost x hmem
      have := Option.some.inj hx
      omega
  | resume k i hk =>
    refine hsv.work (g := Stage.handled) hs.owned hk (.inr rfl) (fun _ => rfl) rfl rfl rfl rfl rfl
      rfl rfl ?_ ?_
    · intro hg st hst hi _
      have hconn := (hp.fits hg _ (List.mem_of_getElem? hk) st hst hi).resolved rfl
      exact hsv.closed hg st hst (.inl hconn)
    · exact fun st hst hi _ => ⟨rfl, fun x hx => hok st hst hi x (Option.mem_toList.mpr hx)⟩
  | drop st xs label l' hst hready hsrc hxs hno h =>
    have hclean := hsv.toClean.drop hw hst hxs
    cases h with
    | none hr =>
      rw [show ((l.lose xs).drop st).routed = l.routed from rfl,
        hs.routed (.inr (hs.owned.piped_of_ready hst hready hsrc))] at hr
      cases hr
    | finalise stuck => exact hclean.finalise stuck
    | wait t g _ _ _ hg _ hconn =>
      exact ⟨hsv.toClean.redo hw hst hxs hg hconn, fun h => absurd h hok, fun h => absurd h hok⟩
    | refuse g _ hg _ hconn =>
      refine ⟨hsv.toClean.redo hw hst hxs hg hconn, hsv.alive, fun hst' st' hmem => ?_⟩
      rcases Frame.mem_only hmem with ⟨st₀, -, hi, rfl⟩ | ⟨hmem, -⟩
      · exact .inr ⟨_, List.mem_append_right _ (List.mem_singleton_self _),
          ((hg.id st₀).trans hi).symm, rfl⟩
      · rcases Frame.mem_only hmem with ⟨st₀, -, hi, rfl⟩ | ⟨hmem, -⟩
        · exact .inr ⟨_, List.mem_append_right _ (List.mem_singleton_self _), hi.symm, rfl⟩
        · refine (hsv.ready hst' st' hmem).imp_right (fun ⟨p, hpm, hpi, hpr⟩ => ?_)
          exact ⟨p, List.mem_append_left _ hpm, hpi, hpr⟩
  | rejoinFail k i stuck hk =>
    have hrejoined : (l.rejoined k (repipe c i).1).Clean := hsv.toClean.of_eq rfl rfl rfl rfl rfl
    exact hrejoined.finalise stuck
  | rejoin k i hk =>
    refine ⟨hsv.toClean.repipe _ hp hk, hsv.alive, fun hst st hmem => ?_⟩
    rcases Frame.mem_only hmem with ⟨st₀, -, -, rfl⟩ | ⟨hmem, -⟩
    · exact .inl rfl
    · refine (hsv.ready hst st hmem).imp_right (fun ⟨p, hpm, hpi, hpr⟩ => ?_)
      exact ⟨p, Frame.mem_eraseIdx_of_ne hk hpm (by rintro rfl; cases hpr), hpi, hpr⟩
  | reconnected k i hk hall =>
    have hclean := hsv.toClean.repipe (repipe c i).1 hp hk
    refine ⟨⟨hclean.closed, fun hg _ => hclean.lost hg (hs.owned.piped_of_task hk rfl)⟩,
      fun _ => hok, fun _ st hmem => .inl ?_⟩
    rcases Frame.mem_only hmem with ⟨st₀, -, -, rfl⟩ | ⟨hmem, -⟩
    · rfl
    · exact ((hc.last hs hok hk).mp hall).1 st hmem
  | giveUp k i stuck hk =>
    have hdropped : (l.dropTask k).Clean := hsv.toClean.of_eq rfl rfl rfl rfl rfl
    exact hdropped.finalise stuck
  | pipelineOk hset hall =>
    obtain ⟨hg, hlost⟩ := hok
    have hclosing := hp.early (hs.owned.fresh hset) hg
    refine ⟨⟨fun _ st _ _ x _ hmem => ?_, fun _ _ st hst _ => ?_⟩, fun _ => hg, fun _ st hst => ?_⟩
    · rw [show (l.piped (finish c)).connected.closing = l.closing from rfl, hclosing] at hmem
      cases hmem
    · obtain ⟨st₀, hst₀, rfl⟩ := List.mem_map.mp hst
      exact ⟨rfl, fun x hx => hlost st₀ hst₀ x (Option.mem_toList.mpr hx)⟩
    · obtain ⟨st₀, -, rfl⟩ := List.mem_map.mp hst
      exact .inl rfl
  | pipelineFail stuck hset =>
    have hsettled : l.settled.Clean := hsv.toClean.of_eq rfl rfl rfl rfl rfl
    exact hsettled.finalise stuck

/-- The invariants of every run. -/
structure Regular (l : Ledger) : Prop where
  sound : l.Sound
  wired : l.Wired
  supplied : l.Supplied
  phased : l.Phased
  counted : l.Counted

theorem Step.regular {c : Option Chain} {l l' : Ledger} {label : Label} (h : Step c l label l') (hr : l.Regular) :
    l'.Regular where
  sound := h.sound hr.sound
  wired := h.wired hr.wired
  supplied := h.supplied hr.sound hr.supplied
  phased := h.phased hr.sound hr.phased
  counted := h.counted hr.sound hr.phased hr.counted

end Ledger

namespace Session

theorem regular_newLedger (id : ℕ) (origin : String) : (newLedger id origin).Regular where
  sound := sound_newLedger id origin
  wired := wired_newLedger id origin
  supplied := ⟨nofun, nofun⟩
  phased := ⟨nofun, fun _ _ => rfl, fun _ => nofun⟩
  counted := nofun

theorem regular_pipedLedger (id : ℕ) (origin : String) (reconnect : Bool) (route : Route)
    (env : Env) : (pipedLedger id origin reconnect route env).Regular where
  sound := sound_pipedLedger id origin reconnect route env
  wired := wired_pipedLedger id origin reconnect route env
  supplied := supplied_pipedLedger id origin reconnect route env
  phased := phased_pipedLedger id origin reconnect route env
  counted := nofun

theorem regular_reachable {ok : Session → Event → Prop} {s₀ s : Session} (h₀ : s₀.Initial)
    (h : Run step ok s₀ s) : s.ledger.Regular :=
  ledger_reachable regular_newLedger regular_pipedLedger
    (fun _ stuck hr => (Ledger.Step.finalise (c := none) stuck).regular hr)
    (fun _ _ _ hr _ hstep => hstep.regular hr) h₀ h

def Steady (s : Session) (e : Event) : Prop := s.ledger.Steady (s.label e)

instance (s : Session) (e : Event) : Decidable (s.Steady e) := s.ledger.decidableSteady (s.label e)

theorem serving_reachable {s₀ s : Session} (h₀ : s₀.Initial) (h : Run step Steady s₀ s) :
    s.ledger.Serving := by
  refine (ledger_reachable (P := fun l => l.Regular ∧ l.Serving) ?_ ?_ ?_ ?_ h₀ h).2
  · exact fun id origin => ⟨regular_newLedger id origin, ⟨fun _ _ _ _ _ _ => nofun, nofun⟩, nofun,
      nofun⟩
  · exact fun id origin reconnect route env => ⟨regular_pipedLedger id origin reconnect route env,
      ⟨fun _ _ _ _ _ _ => nofun, nofun⟩, nofun, nofun⟩
  · exact fun l stuck ⟨hr, hs⟩ => ⟨(Ledger.Step.finalise (c := none) stuck).regular hr, hs.toClean.finalise stuck⟩
  · exact fun s e l ⟨hr, hs⟩ hok hstep => ⟨hstep.regular hr,
      hstep.serving hr.sound hr.wired hr.phased hr.counted hok hs⟩

/-- What the status and the counter of a session promise. The first part is about the runs that
meet the guard, the others about all runs. -/
structure ConnectedMeans (ok : Session → Event → Prop) (s₀ : Session) : Prop where
  /-- Between two events, the stages of a connected session are ready with living streams. -/
  serving : ∀ s, Run step ok s₀ s → s.Quiet → s.status = .connected →
    ∀ st ∈ s.getStages, st.status = .ready ∧
      ∃ x, st.stream = some x ∧ x ∉ s.lost ∧ x ∉ s.closing
  /-- Between setup and destruction the counter is the number of streams less the stages that
  are out. -/
  counted : ∀ s, Run step always s₀ s → s.Quiet → .connect ∈ s.events → .destroy ∉ s.events →
    s.active_streams + s.getStages.countP (fun st => st.status ≠ .ready) = s.num_streams
  /-- When a stage is repiped, the session is connected again if and only if no other stage is
  out or still to be repiped. -/
  returns : ∀ s k i thr t, Run step always s₀ s → .destroy ∉ s.events →
    s.tasks[k]? = some (i, .rejoin) → (s.newPipes i).2 = true → s.step (.rejoin k thr) = some t →
    t.emitted = s.emitted ++ (if (∀ st ∈ t.getStages, st.status = .ready) ∧ t.rejoining = false
      then [.connect] else [])

theorem not_contains {l : List LogEvent} {e : LogEvent} (h : e ∉ l) : l.contains e = false := by
  simpa using h

theorem rejoining_eq_false {s : Session} : s.rejoining = false ↔ s.ledger.rejoins = 0 := by
  unfold rejoining Ledger.rejoins
  rw [List.countP_eq_zero, List.any_eq_false]
  rfl

/-- `disconnect` after `repipe` returned. -/
theorem rejoin_piped {s : Session} {k i : ℕ} (thr : Bool) (hpipes : (s.newPipes i).2 = true) :
    ∃ u : Session, (s.dropTask k).rejoin thr i =
        (if s.active_streams + 1 = s.num_streams then u.connected else u) ∧
      u.getStages = s.getStages.map (only i Stage.repiped) ∧ u.tasks = (s.dropTask k).tasks ∧
      u.emitted = s.emitted := by
  have hp : ((s.dropTask k).newPipes i).2 = true := hpipes
  refine ⟨(((s.dropTask k).addActive 1).addPipes ((s.dropTask k).newPipes i).1).setStage i
    Stage.repiped, ?_, getStages_mapStages _ _, rfl, rfl⟩
  simp only [rejoin, hp, Bool.true_eq_false, ↓reduceIte]
  rfl

/-- The step after the last `repipe`. -/
theorem returns_of_regular {s t : Session} {k i : ℕ} {thr : Bool} (hr : s.ledger.Regular)
    (hgone : .destroy ∉ s.events) (hk : s.tasks[k]? = some (i, .rejoin))
    (hpipes : (s.newPipes i).2 = true) (h : s.step (.rejoin k thr) = some t) :
    t.emitted = s.emitted ++ (if (∀ st ∈ t.getStages, st.status = .ready) ∧ t.rejoining = false
      then [.connect] else []) := by
  have hlast := hr.counted.last hr.sound (not_contains hgone) hk
  have hfits := fun st hst hi =>
    (hr.phased.fits (not_contains hgone) _ (List.mem_of_getElem? hk) st hst hi).rejoin rfl
  -- the stages after the step are ready if and only if they were before
  have hstages : (∀ st ∈ s.getStages.map (only i Stage.repiped), st.status = .ready) ↔
      ∀ st ∈ s.getStages, st.status = .ready := by
    refine ⟨fun h st hst => ?_, fun h st hst => ?_⟩
    · by_cases hi : st.id = i
      · exact hfits st hst hi
      · have := h _ (List.mem_map_of_mem hst)
        rw [only, if_neg hi] at this
        exact this
    · rcases Frame.mem_only hst with ⟨st₀, -, -, rfl⟩ | ⟨hst, -⟩
      · rfl
      · exact h st hst
  obtain ⟨u, hu, hmap, htasks, hemit⟩ := rejoin_piped (k := k) thr hpipes
  simp only [step, hk, Option.some.injEq] at h
  rw [← h, hu]
  have hiff : s.active_streams + 1 = s.num_streams ↔
      (∀ st ∈ u.getStages, st.status = .ready) ∧ u.rejoining = false := by
    rw [hmap, hstages, rejoining_eq_false, Ledger.rejoins, show u.ledger.frame.tasks = _ from htasks]
    exact hlast
  by_cases hall : s.active_streams + 1 = s.num_streams
  · rw [if_pos hall, if_pos (by exact hiff.mp hall), ← hemit]
    rfl
  · rw [if_neg hall, if_neg (fun h => hall (hiff.mpr h)), List.append_nil, hemit]

/-- The counter and the return to CONNECTED are right in every run, and the status is right if no
stage drops out of a connected session to be reconnected, handlers find living streams and
`connected` does not follow `destroy`. -/
theorem connectedMeans_of_steady (s₀ : Session) (h₀ : s₀.Initial) : s₀.ConnectedMeans Steady where
  serving s hrun hquiet hst st hmem := by
    have hserving := serving_reachable h₀ hrun
    have hregular := regular_reachable h₀ hrun
    have hpiped := hregular.phased.connected hst
    have hgone := hserving.alive hst
    have hready : st.status = .ready := by
      refine (hserving.ready hst st hmem).resolve_right ?_
      rintro ⟨p, hp, -, hr⟩
      exact (hquiet.settled p hp).2.2 hr
    refine ⟨hready, ?_⟩
    cases hx : st.stream with
    | none => exact absurd hx (hregular.supplied.supplied hpiped st hmem)
    | some x =>
      exact ⟨x, rfl, (hserving.lost hgone hpiped st hmem hready).2 x hx,
        hserving.closed hgone st hmem (.inr hready) x hx⟩
  counted s hrun hquiet hconn hgone := by
    have hregular := regular_reachable h₀ hrun
    have hpiped : s.events.contains .connect = true := by simpa using hconn
    have hsum := hregular.counted hpiped (not_contains hgone)
    have hno : s.ledger.rejoins = 0 := by
      refine List.countP_eq_zero.mpr (fun p hp => ?_)
      simpa using (hquiet.settled p hp).1
    rw [hno] at hsum
    change s.active_streams + (s.getStages.countP _ : ℤ) + 0 = s.num_streams at hsum
    omega
  returns s k i thr t hrun hgone hk hp h :=
    returns_of_regular (regular_reachable h₀ hrun) hgone hk hp h

/-- A session connects, all its streams live, and it stays so until it is ended. -/
theorem connectedMeans_of_steady_connected : (pendingSession .always).ConnectedMeans Steady ∧
    (exec step Steady (pendingSession .always) [.streamOk 0 ⟨"e", some "c"⟩, .pipelineOk]).map
      (fun s => (s.status, s.getStages.map Stage.status, s.active_streams, s.num_streams)) =
        some (.connected, [.ready, .ready], 1, 1) :=
  ⟨connectedMeans_of_steady _ (pendingSession_initial _), by decide⟩

/-- A stage drops out and is being reconnected, and the session is still CONNECTED. -/
theorem connected_while_reconnecting : ∃ s₀ : Session, s₀.Initial ∧ ¬s₀.ConnectedMeans always := by
  refine ⟨pendingSession .always, pendingSession_initial _, fun h => ?_⟩
  obtain ⟨s, hs⟩ : ∃ s, exec step always (pendingSession .always)
    [.streamOk 0 ⟨"e", some "c"⟩, .pipelineOk, .lost 1 lookupAll false] = some s := ⟨_, rfl⟩
  have hserving := h.serving s (exec_run _ _ _ hs)
  cases hs
  have hready := fun st hst => (hserving ⟨by decide, nofun⟩ rfl st hst).1
  exact absurd hready (by decide)

end Session
end L7mp
