import L7mp.SessionOwned

/-! Where the streams of a session are: closed, or held by a stage that `destroy` will look
at. A destroyed session leaks the streams that arrive when no call is left to destroy it
once more. -/
namespace L7mp
open GuardedRun
open L7mp.Frame (only)

/-- `destroy` would end stream `x` of the stage. -/
def Stage.Holds (x : ℕ) (st : Stage) : Prop :=
  st.stream = some x ∧ st.status ≠ .ended ∧ st.status ≠ .retrying

theorem Stage.holds_of_status {st : Stage} {x : ℕ} (hx : st.stream = some x)
    (hst : st.status = .connected ∨ st.status = .ready) : st.Holds x := by
  refine ⟨hx, ?_, ?_⟩ <;> rcases hst with hst | hst <;> rw [hst] <;> decide

namespace Ledger

structure Held (l : Ledger) : Prop where
  held : ∀ x < l.nextStream, x ∈ l.closing ∨ ∃ st ∈ l.frame.stages, st.Holds x
  waiting : ∀ p ∈ l.frame.tasks, p.2.Open → ∀ st ∈ l.frame.stages, st.id = p.1 →
    ∀ x, st.stream = some x → x ∈ l.closing

def AllClosed (l : Ledger) : Prop := ∀ x < l.nextStream, x ∈ l.closing

theorem Held.map {l : Ledger} (h : l.Held) {g : Stage → Stage} (hid : ∀ st, (g st).id = st.id)
    (hstream : ∀ st, (g st).stream = st.stream)
    (hholds : ∀ st ∈ l.frame.stages, ∀ x, st.Holds x → (g st).Holds x ∨ x ∈ l.closing) :
    (l.mapStages g).Held where
  held x hx := by
    rcases h.held x hx with hc | ⟨st, hst, hx⟩
    · exact .inl hc
    · rcases hholds st hst x hx with hx | hc
      · exact .inr ⟨g st, List.mem_map_of_mem hst, hx⟩
      · exact .inl hc
  waiting p hp ho st hst hi x hx := by
    obtain ⟨st', hst', rfl⟩ := List.mem_map.mp hst
    rw [hid] at hi
    rw [hstream] at hx
    exact h.waiting p hp ho st' hst' hi x hx

theorem Held.setTask {l : Ledger} (h : l.Held) {k i : ℕ} {t t' : Task}
    (hk : l.frame.tasks[k]? = some (i, t)) (ho : t'.Open → t.Open) : (l.setTask k i t').Held where
  held := h.held
  waiting p hp hpo st hst hi x hx := by
    rcases Frame.mem_set hp with rfl | hp
    · exact h.waiting (i, t) (List.mem_of_getElem? hk) (ho hpo) st hst hi x hx
    · exact h.waiting p hp hpo st hst hi x hx

theorem Held.dropTask {l : Ledger} (h : l.Held) (k : ℕ) : (l.dropTask k).Held where
  held := h.held
  waiting p hp := h.waiting p (List.mem_of_mem_eraseIdx hp)

/-- `destroy` closes every stream that is held. -/
theorem Held.destroyed {l : Ledger} (h : l.Held) : l.destroy.AllClosed := by
  intro x hx
  rcases h.held x hx with hc | ⟨st, hst, hx, hend, hretry⟩
  · exact List.mem_append_left _ hc
  · refine List.mem_append_right _ (List.mem_filterMap.mpr ⟨st, hst, ?_⟩)
    rw [Stage.endedStream, if_neg (fun h => h.elim hretry hend), hx]

theorem Held.destroy {l : Ledger} (h : l.Held) : l.destroy.Held where
  held x hx := .inl (h.destroyed x hx)
  waiting p hp ho st hst hi x hx := by
    obtain ⟨st', hst', rfl⟩ := List.mem_map.mp hst
    have hstream : st'.destroyed.stream = st'.stream := by
      unfold Stage.destroyed
      split_ifs <;> rfl
    rw [Frame.destroyed_calm.id] at hi
    rw [hstream] at hx
    exact List.mem_append_left _ (h.waiting p hp ho st' hst' hi x hx)

theorem Held.finalise {l : Ledger} (h : l.Held) (stuck : Bool) : (l.finalise stuck).Held := by
  unfold Ledger.finalise
  split_ifs
  · exact ⟨h.held, h.waiting⟩
  · exact h.destroy

/-- A stage whose call waited gets a new stream; its old one was closed. -/
theorem Held.obtain {l : Ledger} (h : l.Held) (ho : l.frame.Owned) {k i : ℕ} {t t' : Task}
    {g : Stage → Stage} (hk : l.frame.tasks[k]? = some (i, t)) (ht : t.Open) (ht' : ¬t'.Open)
    (hid : ∀ st, (g st).id = st.id) (hnew : ∀ st, (g st).Holds l.nextStream) :
    ((l.mapStages (only i g)).newStream.setTask k i t').Held where
  held x hx := by
    change x < l.nextStream+1 at hx
    obtain ⟨st, hst, hi⟩ := ho.known _ (List.mem_of_getElem? hk)
    by_cases hlast : x = l.nextStream
    · refine .inr ⟨only i g st, List.mem_map_of_mem hst, ?_⟩
      rw [only, if_pos hi, hlast]
      exact hnew st
    · rcases h.held x (by omega) with hc | ⟨st', hst', hx'⟩
      · exact .inl hc
      · by_cases hi' : st'.id = i
        · exact .inl (h.waiting _ (List.mem_of_getElem? hk) ht st' hst' hi' x hx'.1)
        · refine .inr ⟨only i g st', List.mem_map_of_mem hst', ?_⟩
          rw [only, if_neg hi']
          exact hx'
  waiting p hp hpo st hst hi x hx := by
    have hne : p.1 ≠ i := Frame.single_at (fun _ => .inl) hk ho.single (.inl ht) t' ht' p hp hpo
    obtain ⟨st', hst', rfl⟩ := List.mem_map.mp hst
    rw [Frame.only_id hid] at hi
    rw [only, if_neg (fun h => hne (hi ▸ h))] at hx
    rcases Frame.mem_set hp with rfl | hp
    · exact absurd rfl hne
    · exact h.waiting p hp hpo st' hst' hi x hx

/-- The stream of a stage that dropped out is closed. -/
theorem drop_closed {l : Ledger} (ho : l.frame.Owned) {st st' : Stage} {xs : List ℕ} {x : ℕ}
    (hst : st ∈ l.frame.stages) (hst' : st' ∈ ((l.lose xs).drop st).frame.stages)
    (hi : st'.id = st.id) (hx : st'.stream = some x) :
    x ∈ ((l.lose xs).drop st).closing := by
  obtain ⟨st₀, hst₀, rfl⟩ := List.mem_map.mp hst'
  rw [Frame.only_id Frame.disconnected_calm.id] at hi
  have heq : st₀ = st := List.inj_on_of_nodup_map ho.ids hst₀ hst hi
  rw [only, if_pos hi, heq] at hx
  change st.stream = some x at hx
  refine List.mem_append_right _ ?_
  rw [hx]
  exact List.mem_singleton.mpr rfl

theorem Held.drop {l : Ledger} (h : l.Held) (ho : l.frame.Owned) {st : Stage}
    (hst : st ∈ l.frame.stages) (xs : List ℕ) : ((l.lose xs).drop st).Held where
  held x hx := by
    rcases h.held x hx with hc | ⟨st', hst', hx'⟩
    · exact .inl (List.mem_append_left _ hc)
    · have hmem := List.mem_map_of_mem (f := only st.id Stage.disconnected) hst'
      by_cases hi : st'.id = st.id
      · refine .inl (drop_closed ho hst hmem ?_ ?_)
        · exact (Frame.only_id Frame.disconnected_calm.id _ _).trans hi
        · rw [only, if_pos hi]
          exact hx'.1
      · refine .inr ⟨_, hmem, ?_⟩
        rw [only, if_neg hi]
        exact hx'
  waiting p hp hpo st' hst' hi x hx := by
    obtain ⟨st₀, hst₀, rfl⟩ := List.mem_map.mp hst'
    rw [Frame.only_id Frame.disconnected_calm.id] at hi
    have hx₀ : st₀.stream = some x := by
      unfold only at hx
      split_ifs at hx <;> exact hx
    exact List.mem_append_left _ (h.waiting p hp hpo st₀ hst₀ hi x hx₀)

/-- The call that reconnects a stage starts with the old stream closed. -/
theorem Held.redo {l : Ledger} (h : l.Held) (ho : l.frame.Owned) {st : Stage} {t : Task}
    {g : Stage → Stage} (hst : st ∈ l.frame.stages) (xs : List ℕ) (hg : Frame.Calm g)
    (hstream : ∀ st, (g st).stream = st.stream) :
    ((((l.lose xs).drop st).mapStages (only st.id g)).addTask st.id t).Held := by
  have hkeep (st' : Stage) : (only st.id g st').stream = st'.stream := by
    unfold only
    split_ifs
    · exact hstream st'
    · rfl
  have hmap : (((l.lose xs).drop st).mapStages (only st.id g)).Held := by
    refine (h.drop ho hst xs).map (Frame.only_id hg.id _) hkeep (fun st' hst' x hx => ?_)
    by_cases hi : st'.id = st.id
    · exact .inr (drop_closed ho hst hst' hi hx.1)
    · rw [only, if_neg hi]
      exact .inl hx
  refine ⟨hmap.held, fun p hp hpo st' hst' hi x hx => ?_⟩
  rcases List.mem_append.mp hp with hp | hp
  · exact hmap.waiting p hp hpo st' hst' hi x hx
  · rw [List.mem_singleton.mp hp] at hi
    obtain ⟨st₀, hst₀, rfl⟩ := List.mem_map.mp hst'
    rw [Frame.only_id hg.id] at hi
    rw [hkeep] at hx
    exact drop_closed ho hst hst₀ hi hx

/-- A change of one stage that keeps its stream. -/
theorem only_stream {g : Stage → Stage} (h : ∀ st, (g st).stream = st.stream) (i : ℕ)
    (st : Stage) : (only i g st).stream = st.stream := by
  unfold only
  split_ifs
  · exact h st
  · rfl

/-- A stage that becomes ready holds its stream. -/
theorem Held.makeReady {l : Ledger} (h : l.Held) {g : Stage → Stage}
    (hid : ∀ st, (g st).id = st.id) (hstream : ∀ st, (g st).stream = st.stream)
    (hready : ∀ st, (g st).status = .ready ∨ g st = st) : (l.mapStages g).Held := by
  refine h.map hid hstream (fun st _ x hx => .inl ?_)
  rcases hready st with hr | hr
  · exact Stage.holds_of_status ((hstream st).trans hx.1) (.inr hr)
  · rw [hr]
    exact hx

theorem only_ready {g : Stage → Stage} (h : ∀ st, (g st).status = .ready) (i : ℕ)
    (st : Stage) : (only i g st).status = .ready ∨ only i g st = st := by
  unfold only
  split_ifs
  · exact .inl (h st)
  · exact .inr rfl

theorem Held.of_eq {l l' : Ledger} (h : l.Held) (hs : l'.frame.stages = l.frame.stages)
    (ht : l'.frame.tasks = l.frame.tasks) (hc : l'.closing = l.closing)
    (hn : l'.nextStream = l.nextStream) : l'.Held where
  held := by
    rw [hs, hc, hn]
    exact h.held
  waiting := by
    rw [hs, ht, hc]
    exact h.waiting

/-- Every step keeps account of the streams. -/
theorem Step.held {c : Option Chain} {l l' : Ledger} {label : Label} (h : Step c l label l') (ho : l.frame.Owned)
    (hh : l.Held) : l'.Held := by
  cases h with
  | same => exact hh
  | lose => exact hh.of_eq rfl rfl rfl rfl
  | finalise stuck => exact hh.finalise stuck
  | advance k i t t' g hk h =>
    refine Held.setTask (t := t) ?_ hk (fun _ => h.waiting)
    refine hh.map (Frame.only_id h.calm.id i) (only_stream h.stream i) (fun st hst x hx => ?_)
    by_cases hi : st.id = i
    · exact .inr (hh.waiting _ (List.mem_of_getElem? hk) h.waiting st hst hi x hx.1)
    · rw [only, if_neg hi]
      exact .inl hx
  | obtain k i left redo ep hk =>
    exact hh.obtain ho hk trivial (Task.not_open_resolved redo) (fun _ => rfl)
      (fun _ => Stage.holds_of_status rfl (.inl rfl))
  | listenerOk k i hk =>
    exact hh.obtain ho hk trivial id (fun _ => rfl)
      (fun _ => Stage.holds_of_status rfl (.inr rfl))
  | resume k i hk =>
    refine Held.setTask (t := .connect true .resolved) ?_ hk id
    exact hh.makeReady (Frame.only_id (g := Stage.handled) (fun _ => rfl) i)
      (only_stream (g := Stage.handled) (fun _ => rfl) i)
      (only_ready (g := Stage.handled) (fun _ => rfl) i)
  | drop st xs label l' hst hready hsrc hxs hno h =>
    cases h with
    | none => exact hh.drop ho hst xs
    | finalise stuck => exact (hh.drop ho hst xs).finalise stuck
    | wait t g _ _ _ hg hstream => exact hh.redo ho hst xs hg hstream
    | refuse g _ hg hstream => exact hh.redo ho hst xs hg hstream
  | rejoinFail k i stuck hk =>
    have hrejoined : (l.rejoined k (repipe c i).1).Held := (hh.dropTask k).of_eq rfl rfl rfl rfl
    exact hrejoined.finalise stuck
  | rejoin k i hk | reconnected k i hk =>
    have hmap := (hh.dropTask k).makeReady (Frame.only_id (g := Stage.repiped) (fun _ => rfl) i)
      (only_stream (g := Stage.repiped) (fun _ => rfl) i)
      (only_ready (g := Stage.repiped) (fun _ => rfl) i)
    exact hmap.of_eq rfl rfl rfl rfl
  | giveUp k i stuck hk => exact (hh.dropTask k).finalise stuck
  | pipelineOk hset hall =>
    have hmap := hh.makeReady (g := Stage.handled) (fun _ => rfl) (fun _ => rfl)
      (fun _ => .inl rfl)
    exact hmap.of_eq rfl rfl rfl rfl
  | pipelineFail stuck hset =>
    have hsettled : l.settled.Held := hh.of_eq rfl rfl rfl rfl
    exact hsettled.finalise stuck

/-- The calls of `disconnect` that are under way. -/
def redos (l : Ledger) : ℕ := l.frame.tasks.countP (fun p => !Session.isSetup p.2)

/-- A call is left that will destroy or connect the session: `pipeline` still waits, or a
`disconnect` is under way and none has given up. -/
def Pending (l : Ledger) : Prop :=
  l.status ≠ .destroyed ∨ l.frame.settingUp = true ∨ (0 < l.redos ∧ l.active + l.redos = l.num)

/-- No stream arrives for a destroyed session unless the `pipeline` that asked for it still
waits, or no `disconnect` has given up beside the one that asked for it. -/
def InTime (l : Ledger) : Label → Prop
  | .stream false => l.status ≠ .destroyed ∨ l.frame.settingUp = true
  | .stream true => l.status ≠ .destroyed ∨ l.active + l.redos = l.num
  | _ => True

theorem redos_set {l l' : Ledger} {k i : ℕ} {t t' : Task}
    (htasks : l'.frame.tasks = l.frame.tasks.set k (i, t'))
    (hk : l.frame.tasks[k]? = some (i, t)) (hs : Session.isSetup t' = Session.isSetup t) :
    l'.redos = l.redos := by
  have hcount := Frame.countP_setTask (P := fun p => !Session.isSetup p.2) (q := (i, t')) hk
  simp only [hs] at hcount
  unfold redos
  rw [htasks]
  omega

theorem redos_pos {l : Ledger} {k i : ℕ} {t : Task} (hk : l.frame.tasks[k]? = some (i, t))
    (hs : Session.isSetup t = false) : 0 < l.redos :=
  List.countP_pos_iff.mpr ⟨_, List.mem_of_getElem? hk, by rw [hs]; rfl⟩

theorem redos_dropTask {l : Ledger} {k i : ℕ} {t : Task} (hk : l.frame.tasks[k]? = some (i, t))
    (hs : Session.isSetup t = false) : (l.dropTask k).redos + 1 = l.redos := by
  have hcount := Frame.countP_dropTask (P := fun p => !Session.isSetup p.2) hk
  rw [if_pos (by rw [hs]; rfl)] at hcount
  exact hcount

theorem redos_addTask {l : Ledger} {i : ℕ} {t : Task} (hs : Session.isSetup t = false) :
    (l.addTask i t).redos = l.redos + 1 := by
  change (l.frame.tasks ++ [(i, t)]).countP _ = _
  rw [List.countP_append, List.countP_singleton, hs]
  rfl

theorem Pending.of_eq {l l' : Ledger} (h : l.Pending) (hst : l'.status = l.status)
    (hset : l'.frame.settingUp = l.frame.settingUp) (hr : l'.redos = l.redos)
    (ha : l'.active = l.active) (hn : l'.num = l.num) : l'.Pending := by
  unfold Pending
  rw [hst, hset, hr, ha, hn]
  exact h

/-- As long as streams arrive in time, either a call is left that will close the rest, or
every stream is closed. -/
theorem Step.pending {c : Option Chain} {l l' : Ledger} {label : Label} (h : Step c l label l') (hs : l.Sound)
    (hh : l.Held) (hok : l.InTime label) (hp : l.Pending ∨ l.AllClosed) :
    l'.Pending ∨ l'.AllClosed := by
  have hfin (u : Ledger) (stuck : Bool) (hu : u.Held) :
      (u.finalise stuck).Pending ∨ (u.finalise stuck).AllClosed := by
    unfold Ledger.finalise
    split_ifs
    · exact .inl (.inl nofun)
    · exact .inr hu.destroyed
  cases h with
  | same | lose => exact hp
  | finalise stuck => exact hfin l stuck hh
  | advance k i t t' g hk h =>
    exact hp.imp_left (fun hp => hp.of_eq rfl rfl (redos_set rfl hk h.setup) rfl rfl)
  | obtain k i left redo ep hk =>
    have hnow : l.Pending := by
      cases redo with
      | false => exact hok.imp_right .inl
      | true => exact hok.imp_right (fun h => .inr ⟨redos_pos hk rfl, h⟩)
    exact .inl (hnow.of_eq rfl rfl (redos_set rfl hk (by cases redo <;> rfl)) rfl rfl)
  | listenerOk k i hk =>
    have hnow : l.Pending := hok.imp_right (fun h => .inr ⟨redos_pos hk rfl, h⟩)
    exact .inl (hnow.of_eq rfl rfl (redos_set rfl hk rfl) rfl rfl)
  | resume k i hk =>
    exact hp.imp_left (fun hp => hp.of_eq rfl rfl (redos_set rfl hk rfl) rfl rfl)
  | drop st xs label l' hst hready hsrc hxs hno h =>
    have hpiped := hs.owned.piped_of_ready hst hready hsrc
    have hredo (g : Stage → Stage) (t : Task) (ht : Session.isSetup t = false) :
        ((((l.lose xs).drop st).mapStages (only st.id g)).addTask st.id t).Pending ∨
          ((((l.lose xs).drop st).mapStages (only st.id g)).addTask st.id t).AllClosed := by
      refine hp.imp (fun hp => ?_) (fun hc x hx => List.mem_append_left _ (hc x hx))
      unfold Pending at hp ⊢
      rw [redos_addTask ht]
      refine hp.imp_right (Or.imp_right (fun ⟨_, hsum⟩ => ⟨Nat.succ_pos _, ?_⟩))
      change l.active + -1 + ((l.redos + 1 : ℕ) : ℤ) = l.num
      omega
    cases h with
    | none hr =>
      have hroute := hs.routed (.inr hpiped)
      rw [show ((l.lose xs).drop st).routed = l.routed from rfl, hroute] at hr
      cases hr
    | finalise stuck => exact hfin _ stuck (hh.drop hs.owned hst xs)
    | wait t g _ _ hset => exact hredo g t hset
    | refuse g => exact hredo g _ rfl
  | rejoinFail k i stuck hk =>
    have hrejoined : (l.rejoined k (repipe c i).1).Held := (hh.dropTask k).of_eq rfl rfl rfl rfl
    exact hfin _ stuck hrejoined
  | rejoin k i hk hwait =>
    refine hp.imp_left (Or.imp_right (Or.imp_right (fun ⟨_, hsum⟩ => ?_)))
    have hdrop := redos_dropTask hk rfl
    change 0 < (l.dropTask k).redos ∧ l.active + 1 + ((l.dropTask k).redos : ℤ) = l.num
    omega
  | reconnected k i hk hall => exact .inl (.inl nofun)
  | giveUp k i stuck hk => exact hfin _ stuck (hh.dropTask k)
  | pipelineOk hset hall => exact .inl (.inl nofun)
  | pipelineFail stuck hset =>
    have hsettled : l.settled.Held := hh.of_eq rfl rfl rfl rfl
    exact hfin _ stuck hsettled

end Ledger

namespace Session

/-- No continuation of a settled promise is waiting to run: the event loop is between two
events. -/
structure Quiet (s : Session) : Prop where
  settled : ∀ p ∈ s.tasks, p.2 ≠ .rejoin ∧ p.2 ≠ .connect true .resolved ∧
    p.2 ≠ .connect true .rejected
  setup : s.settingUp = true → s.allResolved = false ∧ s.someRejected = false

def InTime (s : Session) (e : Event) : Prop := s.ledger.InTime (s.label e)

instance (s : Session) (e : Event) : Decidable (s.InTime e) := by
  unfold InTime Ledger.InTime
  split <;> infer_instance

end Session
end L7mp
