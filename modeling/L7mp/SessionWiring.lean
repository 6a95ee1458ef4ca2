import L7mp.SessionStreams

/-! Which stream belongs to which stage, and how far the calls have brought their stages:
invariants of every run of a session. -/
namespace L7mp
open L7mp.Frame (only)

namespace Frame

/-- A stage after the change of one stage is the changed one or an unchanged one. -/
theorem mem_only {i : ℕ} {g : Stage → Stage} {l : List Stage} {st : Stage}
    (h : st ∈ l.map (only i g)) :
    (∃ st₀ ∈ l, st₀.id = i ∧ st = g st₀) ∨ (st ∈ l ∧ st.id ≠ i) := by
  obtain ⟨st₀, hst₀, rfl⟩ := List.mem_map.mp h
  by_cases hi : st₀.id = i
  · exact .inl ⟨st₀, hst₀, hi, if_pos hi⟩
  · rw [only, if_neg hi]
    exact .inr ⟨hst₀, hi⟩

end Frame

namespace Ledger

/-- Streams are numbered in the order of their arrival and belong to one stage each. -/
structure Wired (l : Ledger) : Prop where
  distinct : ∀ st ∈ l.frame.stages, ∀ st' ∈ l.frame.stages, ∀ x, st.stream = some x →
    st'.stream = some x → st.id = st'.id
  old : ∀ st ∈ l.frame.stages, ∀ x, st.stream = some x → x < l.nextStream
  oldLost : ∀ x ∈ l.lost, x < l.nextStream
  oldClosing : ∀ x ∈ l.closing, x < l.nextStream

theorem Wired.map {l : Ledger} (h : l.Wired) {g : Stage → Stage} (hid : ∀ st, (g st).id = st.id)
    (hstream : ∀ st, (g st).stream = st.stream) : (l.mapStages g).Wired where
  distinct st hst st' hst' x hx hx' := by
    obtain ⟨st₀, hst₀, rfl⟩ := List.mem_map.mp hst
    obtain ⟨st₁, hst₁, rfl⟩ := List.mem_map.mp hst'
    rw [hstream] at hx hx'
    rw [hid, hid]
    exact h.distinct st₀ hst₀ st₁ hst₁ x hx hx'
  old st hst x hx := by
    obtain ⟨st₀, hst₀, rfl⟩ := List.mem_map.mp hst
    rw [hstream] at hx
    exact h.old st₀ hst₀ x hx
  oldLost := h.oldLost
  oldClosing := h.oldClosing

theorem Wired.of_eq {l l' : Ledger} (h : l.Wired) (hs : l'.frame.stages = l.frame.stages)
    (hl : l'.lost = l.lost) (hc : l'.closing = l.closing) (hn : l'.nextStream = l.nextStream) :
    l'.Wired := by
  constructor
  case distinct => rw [hs]; exact h.distinct
  case old => rw [hs, hn]; exact h.old
  case oldLost => rw [hl, hn]; exact h.oldLost
  case oldClosing => rw [hc, hn]; exact h.oldClosing

/-- Streams of stages are closed. -/
theorem Wired.close {l : Ledger} (h : l.Wired) {xs : List ℕ}
    (hxs : ∀ x ∈ xs, ∃ st ∈ l.frame.stages, st.stream = some x) : (l.close xs).Wired where
  distinct := h.distinct
  old := h.old
  oldLost := h.oldLost
  oldClosing x hx := by
    rcases List.mem_append.mp hx with hx | hx
    · exact h.oldClosing x hx
    · obtain ⟨st, hst, hx⟩ := hxs x hx
      exact h.old st hst x hx

theorem Wired.lose {l : Ledger} (h : l.Wired) {st : Stage} (hst : st ∈ l.frame.stages)
    {xs : List ℕ} (hxs : ∀ x ∈ xs, st.stream = some x) : (l.lose xs).Wired where
  distinct := h.distinct
  old := h.old
  oldLost x hx := by
    rcases List.mem_append.mp hx with hx | hx
    · exact h.oldLost x hx
    · exact h.old st hst x (hxs x hx)
  oldClosing := h.oldClosing

theorem Wired.finalise {l : Ledger} (h : l.Wired) (stuck : Bool) : (l.finalise stuck).Wired := by
  have hstream (st : Stage) : st.destroyed.stream = st.stream := by
    unfold Stage.destroyed
    split_ifs <;> rfl
  unfold Ledger.finalise
  split_ifs
  · exact h.of_eq rfl rfl rfl rfl
  · have hclose : (l.close (l.frame.stages.filterMap Stage.endedStream)).Wired := by
      refine h.close (fun x hx => ?_)
      obtain ⟨st, hst, hx⟩ := List.mem_filterMap.mp hx
      unfold Stage.endedStream at hx
      split_ifs at hx
      exact ⟨st, hst, hx⟩
    exact (hclose.map Frame.destroyed_calm.id hstream).of_eq rfl rfl rfl rfl

/-- The next stream goes to one stage. -/
theorem Wired.obtain {l : Ledger} (h : l.Wired) {i : ℕ} {g : Stage → Stage}
    (hid : ∀ st, (g st).id = st.id) (hnew : ∀ st, (g st).stream = some l.nextStream) :
    (l.mapStages (only i g)).newStream.Wired where
  distinct st hst st' hst' x hx hx' := by
    rcases Frame.mem_only hst with ⟨st₀, -, hi, rfl⟩ | ⟨hst, hi⟩ <;>
      rcases Frame.mem_only hst' with ⟨st₁, -, hi', rfl⟩ | ⟨hst', hi'⟩
    · rw [hid, hid, hi, hi']
    · rw [hnew] at hx
      have := h.old st' hst' x hx'
      have := Option.some.inj hx
      omega
    · rw [hnew] at hx'
      have := h.old st hst x hx
      have := Option.some.inj hx'
      omega
    · exact h.distinct st hst st' hst' x hx hx'
  old st hst x hx := by
    change x < l.nextStream+1
    rcases Frame.mem_only hst with ⟨st₀, -, hi, rfl⟩ | ⟨hst, hi⟩
    · rw [hnew] at hx
      have := Option.some.inj hx
      omega
    · have := h.old st hst x hx
      omega
  oldLost x hx := Nat.lt_succ_of_lt (h.oldLost x hx)
  oldClosing x hx := Nat.lt_succ_of_lt (h.oldClosing x hx)

theorem Wired.drop {l : Ledger} (h : l.Wired) {st : Stage} (hst : st ∈ l.frame.stages)
    {xs : List ℕ} (hxs : ∀ x ∈ xs, st.stream = some x) : ((l.lose xs).drop st).Wired := by
  have hclose : ((l.lose xs).close st.stream.toList).Wired :=
    (h.lose hst hxs).close (fun x hx => ⟨st, hst, Option.mem_toList.mp hx⟩)
  exact (hclose.map (Frame.only_id Frame.disconnected_calm.id st.id)
    (only_stream (g := Stage.disconnected) (fun _ => rfl) st.id)).of_eq rfl rfl rfl rfl

theorem Step.wired {c : Option Chain} {l l' : Ledger} {label : Label} (h : Step c l label l') (hw : l.Wired) :
    l'.Wired := by
  cases h with
  | same => exact hw
  | lose st x hst hx => exact hw.lose hst (fun y hy => by rw [List.mem_singleton.mp hy, hx])
  | finalise stuck => exact hw.finalise stuck
  | advance k i t t' g hk h =>
    exact (hw.map (Frame.only_id h.calm.id i) (only_stream h.stream i)).of_eq rfl rfl rfl rfl
  | obtain k i left redo ep hk =>
    exact (hw.obtain (g := Stage.assign l.nextStream ep) (fun _ => rfl) (fun _ => rfl)).of_eq rfl
      rfl rfl rfl
  | listenerOk k i hk =>
    exact (hw.obtain (i := i)
      (g := fun st => ({ st with stream := some l.nextStream } : Stage).handled)
      (fun _ => rfl) (fun _ => rfl)).of_eq rfl rfl rfl rfl
  | resume k i hk =>
    exact (hw.map (Frame.only_id (g := Stage.handled) (fun _ => rfl) i)
      (only_stream (g := Stage.handled) (fun _ => rfl) i)).of_eq rfl rfl rfl rfl
  | drop st xs label l' hst hready hsrc hxs hno h =>
    have hdrop := hw.drop hst hxs
    cases h with
    | none => exact hdrop
    | finalise stuck => exact hdrop.finalise stuck
    | wait t g _ _ _ hg hstream =>
      exact (hdrop.map (Frame.only_id hg.id _) (only_stream hstream _)).of_eq rfl rfl rfl rfl
    | refuse g _ hg hstream =>
      exact (hdrop.map (Frame.only_id hg.id _) (only_stream hstream _)).of_eq rfl rfl rfl rfl
  | rejoinFail k i stuck hk =>
    have hrejoined : (l.rejoined k (repipe c i).1).Wired := hw.of_eq rfl rfl rfl rfl
    exact hrejoined.finalise stuck
  | rejoin k i hk | reconnected k i hk =>
    exact (hw.map (Frame.only_id (g := Stage.repiped) (fun _ => rfl) i)
      (only_stream (g := Stage.repiped) (fun _ => rfl) i)).of_eq rfl rfl rfl rfl
  | giveUp k i stuck hk =>
    have hdropped : (l.dropTask k).Wired := hw.of_eq rfl rfl rfl rfl
    exact hdropped.finalise stuck
  | pipelineOk hset hall =>
    exact (hw.map (g := Stage.handled) (fun _ => rfl) (fun _ => rfl)).of_eq rfl rfl rfl rfl
  | pipelineFail stuck hset =>
    have hsettled : l.settled.Wired := hw.of_eq rfl rfl rfl rfl
    exact hsettled.finalise stuck

/-- Only the arrival of a stream changes the streams of stages. -/
theorem finalise_stages (stuck : Bool) (l : Ledger) : ∃ g : Stage → Stage,
    (∀ st, (g st).id = st.id) ∧ (∀ st, (g st).stream = st.stream) ∧
      (l.finalise stuck).frame.stages = l.frame.stages.map g := by
  unfold Ledger.finalise
  split_ifs
  · exact ⟨id, fun _ => rfl, fun _ => rfl, (List.map_id _).symm⟩
  · refine ⟨Stage.destroyed, Frame.destroyed_calm.id, fun st => ?_, rfl⟩
    unfold Stage.destroyed
    split_ifs <;> rfl

/-- Once the pipeline was set up every stage has a stream; until then a stage without one has a
connect that is not resolved. -/
structure Supplied (l : Ledger) : Prop where
  supplied : l.frame.piped = true → ∀ st ∈ l.frame.stages, st.stream ≠ none
  asked : l.frame.settingUp = true → ∀ st ∈ l.frame.stages, st.stream = none →
    ∃ p ∈ l.frame.tasks, p.1 = st.id ∧ p.2 ≠ .connect false .resolved

/-- A step without a new stream while the pipeline is set up, or after it was. -/
theorem Supplied.map {l l' : Ledger} (h : l.Supplied) {g : Stage → Stage}
    (hid : ∀ st, (g st).id = st.id) (hstream : ∀ st, (g st).stream = st.stream)
    (hstages : l'.frame.stages = l.frame.stages.map g)
    (hpiped : l'.frame.piped = true → l.frame.piped = true)
    (hset : l'.frame.settingUp = true → l.frame.settingUp = true ∧
      ∀ p ∈ l.frame.tasks, p.2 ≠ .connect false .resolved →
        ∃ q ∈ l'.frame.tasks, q.1 = p.1 ∧ q.2 ≠ .connect false .resolved) : l'.Supplied where
  supplied hp st hst := by
    rw [hstages] at hst
    obtain ⟨st₀, hst₀, rfl⟩ := List.mem_map.mp hst
    rw [hstream]
    exact h.supplied (hpiped hp) st₀ hst₀
  asked hs st hst hnone := by
    rw [hstages] at hst
    obtain ⟨st₀, hst₀, rfl⟩ := List.mem_map.mp hst
    rw [hstream] at hnone
    obtain ⟨p, hp, hpi, hpr⟩ := h.asked (hset hs).1 st₀ hst₀ hnone
    obtain ⟨q, hq, hqi, hqr⟩ := (hset hs).2 p hp hpr
    exact ⟨q, hq, by rw [hqi, hpi, hid], hqr⟩

theorem Supplied.finalise {l : Ledger} (h : l.Supplied) (stuck : Bool) :
    (l.finalise stuck).Supplied := by
  obtain ⟨g, hid, hstream, hstages⟩ := finalise_stages stuck l
  refine h.map hid hstream hstages (by rw [finalise_piped]; exact id) (fun hs => ?_)
  rw [finalise_settingUp] at hs
  rw [finalise_tasks]
  exact ⟨hs, fun p hp hr => ⟨p, hp, rfl, hr⟩⟩

/-- A session whose pipeline was set up has left the setup. -/
theorem Supplied.piped {l l' : Ledger} (h : l.Supplied) {g : Stage → Stage}
    (hid : ∀ st, (g st).id = st.id) (hstream : ∀ st, (g st).stream = st.stream)
    (hstages : l'.frame.stages = l.frame.stages.map g) (hpiped : l.frame.piped = true)
    (hset : l'.frame.settingUp = false) : l'.Supplied :=
  h.map hid hstream hstages (fun _ => hpiped) (fun hs => by rw [hset] at hs; cases hs)

/-- A stream arrives for the stage of a waiting call. -/
theorem Supplied.obtain {l : Ledger} (h : l.Supplied) {k i : ℕ} {t t' : Task} {g : Stage → Stage}
    (hk : l.frame.tasks[k]? = some (i, t)) (hnew : ∀ st, (g st).stream = some l.nextStream) :
    ((l.mapStages (only i g)).newStream.setTask k i t').Supplied where
  supplied hp st hst := by
    rcases Frame.mem_only hst with ⟨st₀, -, -, rfl⟩ | ⟨hst, -⟩
    · rw [hnew]
      exact nofun
    · exact h.supplied hp st hst
  asked hs st hst hnone := by
    rcases Frame.mem_only hst with ⟨st₀, -, -, rfl⟩ | ⟨hst, hi⟩
    · rw [hnew] at hnone
      cases hnone
    · obtain ⟨p, hp, hpi, hpr⟩ := h.asked hs st hst hnone
      exact ⟨p, Frame.mem_set_of_ne hk hp (by rintro rfl; exact hi hpi.symm), hpi, hpr⟩

theorem Step.supplied {c : Option Chain} {l l' : Ledger} {label : Label} (h : Step c l label l') (hs : l.Sound)
    (hsup : l.Supplied) : l'.Supplied := by
  cases h with
  | same => exact hsup
  | lose => exact ⟨hsup.supplied, hsup.asked⟩
  | finalise stuck => exact hsup.finalise stuck
  | advance k i t t' g hk h =>
    refine hsup.map (Frame.only_id h.calm.id i) (only_stream h.stream i) rfl id
      (fun hset => ⟨hset, fun p hp hr => ?_⟩)
    by_cases hpk : p = (i, t)
    · exact ⟨(i, t'), List.mem_set (List.getElem?_eq_some_iff.mp hk).1 _, by rw [hpk], h.pending false⟩
    · exact ⟨p, Frame.mem_set_of_ne hk hp hpk, rfl, hr⟩
  | obtain k i left redo ep hk =>
    exact hsup.obtain hk (g := Stage.assign l.nextStream ep) (fun _ => rfl)
  | listenerOk k i hk =>
    exact hsup.obtain hk (g := fun st => ({ st with stream := some l.nextStream } : Stage).handled)
      (fun _ => rfl)
  | resume k i hk =>
    have hpiped := hs.owned.piped_of_task hk rfl
    exact hsup.piped (Frame.only_id (g := Stage.handled) (fun _ => rfl) i)
      (only_stream (g := Stage.handled) (fun _ => rfl) i) rfl hpiped
      (hs.owned.settingUp_of_piped hpiped)
  | drop st xs label l' hst hready hsrc hxs hno h =>
    have hpiped := hs.owned.piped_of_ready hst hready hsrc
    have hdrop : ((l.lose xs).drop st).Supplied :=
      hsup.piped (Frame.only_id Frame.disconnected_calm.id st.id)
        (only_stream (g := Stage.disconnected) (fun _ => rfl) st.id) rfl hpiped
        (hs.owned.settingUp_of_piped hpiped)
    have hredo (t : Task) (g : Stage → Stage) (hg : Frame.Calm g)
        (hstream : ∀ st, (g st).stream = st.stream) :
        ((((l.lose xs).drop st).mapStages (only st.id g)).addTask st.id t).Supplied :=
      hdrop.piped (Frame.only_id hg.id _) (only_stream hstream _) rfl hpiped
        (hs.owned.settingUp_of_piped hpiped)
    cases h with
    | none => exact hdrop
    | finalise stuck => exact hdrop.finalise stuck
    | wait t g _ _ _ hg hstream => exact hredo t g hg hstream
    | refuse g _ hg hstream => exact hredo _ g hg hstream
  | rejoinFail k i stuck hk =>
    have hpiped := hs.owned.piped_of_task hk rfl
    have hrejoined : (l.rejoined k (repipe c i).1).Supplied :=
      hsup.piped (g := id) (fun _ => rfl) (fun _ => rfl) (List.map_id _).symm hpiped
        (hs.owned.settingUp_of_piped hpiped)
    exact hrejoined.finalise stuck
  | rejoin k i hk | reconnected k i hk =>
    have hpiped := hs.owned.piped_of_task hk rfl
    exact hsup.piped (Frame.only_id (g := Stage.repiped) (fun _ => rfl) i)
      (only_stream (g := Stage.repiped) (fun _ => rfl) i) rfl hpiped
      (hs.owned.settingUp_of_piped hpiped)
  | giveUp k i stuck hk =>
    have hpiped := hs.owned.piped_of_task hk rfl
    have hdropped : (l.dropTask k).Supplied :=
      hsup.piped (g := id) (fun _ => rfl) (fun _ => rfl) (List.map_id _).symm hpiped
        (hs.owned.settingUp_of_piped hpiped)
    exact hdropped.finalise stuck
  | pipelineOk hset hall =>
    refine ⟨fun _ st hst => ?_, nofun⟩
    obtain ⟨st₀, hst₀, rfl⟩ := List.mem_map.mp hst
    intro hnone
    obtain ⟨p, hp, -, hr⟩ := hsup.asked hset st₀ hst₀ hnone
    exact hr (hs.owned.resolved hset hall p hp)
  | pipelineFail stuck hset =>
    have hsettled : l.settled.Supplied := ⟨hsup.supplied, nofun⟩
    exact hsettled.finalise stuck

end Ledger

/-- The status of a stage fits the phase of a `disconnect` that has reconnected it. -/
structure Task.Fits (t : Task) (st : Stage) : Prop where
  resolved : t = .connect true .resolved → st.status = .connected
  rejoin : t = .rejoin → st.status = .ready

theorem Task.fits_of_ne {t : Task} (h : t ≠ .connect true .resolved) (h' : t ≠ .rejoin)
    (st : Stage) : t.Fits st := ⟨fun ht => absurd ht h, fun ht => absurd ht h'⟩

theorem Task.fits_of_open {t : Task} (h : t.Open) (st : Stage) : t.Fits st :=
  Task.fits_of_ne (by rintro rfl; exact h) (by rintro rfl; exact h) st

namespace Ledger

/-- Before the session is destroyed, calls and stages are in step, and only a pipeline that was
set up has closed a stream. -/
structure Phased (l : Ledger) : Prop where
  connected : l.status = .connected → l.frame.piped = true
  early : l.frame.piped = false → l.gone = false → l.closing = []
  fits : l.gone = false → ∀ p ∈ l.frame.tasks, ∀ st ∈ l.frame.stages, st.id = p.1 → p.2.Fits st

theorem Phased.finalise {l : Ledger} (h : l.Phased) (stuck : Bool) : (l.finalise stuck).Phased := by
  unfold Ledger.finalise
  split_ifs
  · exact ⟨nofun, h.early, h.fits⟩
  · exact ⟨nofun, nofun, nofun⟩

/-- A busy call brings its stage from one phase to the next. -/
theorem Phased.work {l : Ledger} (h : l.Phased) (ho : l.frame.Owned) {k i : ℕ} {t t' : Task}
    {g : Stage → Stage} (hk : l.frame.tasks[k]? = some (i, t)) (hb : t.Busy)
    (hid : ∀ st, (g st).id = st.id) (hfit : ∀ st, t'.Fits (g st)) :
    ((l.mapStages (only i g)).setTask k i t').Phased where
  connected := h.connected
  early := h.early
  fits hg p hp st hst hi := by
    have hmem := List.mem_of_getElem? hk
    rcases Frame.mem_only hst with ⟨st₀, -, hi₀, rfl⟩ | ⟨hst, hne⟩
    · rw [hid, hi₀] at hi
      by_cases ht' : p.2 = t'
      · rw [ht']
        exact hfit st₀
      · have hp' : p ∈ l.frame.tasks := (Frame.mem_set hp).resolve_left (by rintro rfl; exact ht' rfl)
        refine Task.fits_of_ne (fun hr => ?_) (fun hr => ?_) _
        · exact Frame.single_at (P := (· = .connect true .resolved)) (fun _ => .inr) hk ho.single hb
            t' (fun h => ht' (hr.trans h.symm)) p hp hr hi.symm
        · exact ho.rejoin p hp' hr (i, t) hmem hb hi
    · have hp' : p ∈ l.frame.tasks :=
        (Frame.mem_set hp).resolve_left (by rintro rfl; exact hne hi)
      exact h.fits hg p hp' st hst hi

theorem Phased.dropTask {l : Ledger} (h : l.Phased) (k : ℕ) : (l.dropTask k).Phased where
  connected := h.connected
  early := h.early
  fits hg p hp := h.fits hg p (List.mem_of_mem_eraseIdx hp)

theorem Phased.repipe {l : Ledger} {ps : List Pipe} (h : l.Phased) (ho : l.frame.Owned) {k i : ℕ}
    (hk : l.frame.tasks[k]? = some (i, .rejoin)) :
    ((l.rejoined k ps).mapStages (only i Stage.repiped)).Phased where
  connected := h.connected
  early := h.early
  fits hg p hp st hst hi := by
    have hp' := List.mem_of_mem_eraseIdx hp
    rcases Frame.mem_only hst with ⟨st₀, -, hi₀, rfl⟩ | ⟨hst, -⟩
    · refine ⟨fun hr => ?_, fun _ => rfl⟩
      exact absurd (hi.symm.trans hi₀)
        (ho.rejoin _ (List.mem_of_getElem? hk) rfl p hp' (.inr hr))
    · exact h.fits hg p hp' st hst hi

theorem Step.phased {c : Option Chain} {l l' : Ledger} {label : Label} (h : Step c l label l') (hs : l.Sound)
    (hp : l.Phased) : l'.Phased := by
  cases h with
  | same => exact hp
  | lose => exact ⟨hp.connected, hp.early, hp.fits⟩
  | finalise stuck => exact hp.finalise stuck
  | advance k i t t' g hk h =>
    exact hp.work hs.owned hk (.inl h.waiting) h.calm.id
      (fun st => Task.fits_of_ne (h.pending true) h.rejoin (g st))
  | obtain k i left redo ep hk =>
    have hfit (st : Stage) : (Task.connect redo .resolved).Fits (st.assign l.nextStream ep) :=
      ⟨fun _ => rfl, nofun⟩
    have hwork := hp.work (g := Stage.assign l.nextStream ep) hs.owned hk (.inl trivial)
      (fun _ => rfl) hfit
    exact ⟨hwork.connected, hwork.early, hwork.fits⟩
  | listenerOk k i hk =>
    have hfit (st : Stage) :
        Task.rejoin.Fits ({ st with stream := some l.nextStream } : Stage).handled :=
      ⟨nofun, fun _ => rfl⟩
    have hwork := hp.work
      (g := fun st => ({ st with stream := some l.nextStream } : Stage).handled) hs.owned hk
      (.inl trivial) (fun _ => rfl) hfit
    exact ⟨hwork.connected, hwork.early, hwork.fits⟩
  | resume k i hk =>
    exact hp.work hs.owned hk (.inr rfl) (fun _ => rfl) (fun _ => ⟨nofun, fun _ => rfl⟩)
  | drop st xs label l' hst hready hsrc hxs hno h =>
    have hpiped := hs.owned.piped_of_ready hst hready hsrc
    have hearly {c : List ℕ} (hf : l.frame.piped = false) : c = [] := by
      rw [hpiped] at hf
      cases hf
    -- no call on the stage is in a phase that says something about it
    have hfree : ∀ p ∈ l.frame.tasks, p.1 = st.id → ∀ st', p.2.Fits st' := fun p hp hi =>
      Task.fits_of_ne (fun hr => hs.owned.ready st hst hready p hp (.inr hr) hi) (hno p hp)
    have hdrop : ((l.lose xs).drop st).Phased := by
      refine ⟨hp.connected, fun hf _ => hearly hf, fun hg p hpm st' hst' hi => ?_⟩
      rcases Frame.mem_only hst' with ⟨st₀, -, hi₀, rfl⟩ | ⟨hst', -⟩
      · exact hfree p hpm (hi.symm.trans hi₀) _
      · exact hp.fits hg p hpm st' hst' hi
    have hredo (t : Task) (g : Stage → Stage) (hid : ∀ st, (g st).id = st.id)
        (ht : ∀ st, t.Fits st) :
        ((((l.lose xs).drop st).mapStages (only st.id g)).addTask st.id t).Phased := by
      refine ⟨hp.connected, fun hf _ => hearly hf, fun hg p hpm st' hst' hi => ?_⟩
      rcases List.mem_append.mp hpm with hpm | hpm
      · rcases Frame.mem_only hst' with ⟨st₀, -, hi₀, rfl⟩ | ⟨hst', -⟩
        · rw [hid, hi₀] at hi
          exact hfree p hpm hi.symm _
        · exact hdrop.fits hg p hpm st' hst' hi
      · rw [List.mem_singleton.mp hpm]
        exact ht st'
    cases h with
    | none => exact hdrop
    | finalise stuck => exact hdrop.finalise stuck
    | wait t g _ ht _ hg => exact hredo t g hg.id (Task.fits_of_open ht)
    | refuse g _ hg => exact hredo _ g hg.id (Task.fits_of_ne nofun nofun)
  | rejoinFail k i stuck hk =>
    have hrejoined : (l.rejoined k (repipe c i).1).Phased :=
      ⟨hp.connected, hp.early, (hp.dropTask k).fits⟩
    exact hrejoined.finalise stuck
  | rejoin k i hk => exact hp.repipe hs.owned hk
  | reconnected k i hk => exact ⟨fun _ => rfl, nofun, (hp.repipe hs.owned hk).fits⟩
  | giveUp k i stuck hk => exact (hp.dropTask k).finalise stuck
  | pipelineOk hset hall =>
    refine ⟨fun _ => rfl, nofun, fun _ p hpm st _ _ => ?_⟩
    rw [hs.owned.resolved hset hall p hpm]
    exact ⟨nofun, nofun⟩
  | pipelineFail stuck hset =>
    have hsettled : l.settled.Phased := ⟨hp.connected, hp.early, hp.fits⟩
    exact hsettled.finalise stuck

end Ledger

namespace Session

/-- The cluster stages of a new pipeline have no stream, and their connects are not resolved. -/
theorem connects_new (env : Env) (route : Route) (id : ℕ) :
    ∀ p ∈ connects env route id, p.1.stream = none ∧ p.2 ≠ .resolved := by
  intro p hp
  obtain ⟨i, origin, rfl⟩ := connectAll_mem _ _ _ _ p hp
  refine ⟨run_stream env _ _, fun hr => ?_⟩
  rcases run_cases env route.retry.setupRetries (Stage.new i origin none false) with
    h | ⟨left, h⟩ | ⟨left, h⟩ <;> rw [h] at hr <;> cases hr

theorem wired_newLedger (id : ℕ) (origin : String) : (newLedger id origin).Wired where
  distinct st hst st' hst' _ _ _ := by
    rw [List.mem_singleton.mp hst, List.mem_singleton.mp hst']
  old st hst x hx := by
    rw [List.mem_singleton.mp hst] at hx
    cases hx
    exact Nat.zero_lt_one
  oldLost := nofun
  oldClosing := nofun

theorem wired_pipedLedger (id : ℕ) (origin : String) (reconnect : Bool) (route : Route)
    (env : Env) : (pipedLedger id origin reconnect route env).Wired := by
  have hstream (st : Stage) (hst : st ∈ (pipedLedger id origin reconnect route env).frame.stages)
      (x : ℕ) (hx : st.stream = some x) : st = sourceStage id origin reconnect := by
    rcases List.mem_cons.mp hst with rfl | hst
    · rfl
    · obtain ⟨q, hq, rfl⟩ := List.mem_map.mp hst
      rw [(connects_new env route (id+1) q hq).1] at hx
      cases hx
  refine ⟨fun st hst st' hst' x hx hx' => ?_, fun st hst x hx => ?_, nofun, nofun⟩
  · rw [hstream st hst x hx, hstream st' hst' x hx']
  · rw [hstream st hst x hx] at hx
    cases hx
    exact Nat.zero_lt_one

theorem supplied_pipedLedger (id : ℕ) (origin : String) (reconnect : Bool) (route : Route)
    (env : Env) : (pipedLedger id origin reconnect route env).Supplied where
  supplied := nofun
  asked _ st hst hnone := by
    rcases List.mem_cons.mp hst with rfl | hst
    · cases hnone
    · obtain ⟨q, hq, rfl⟩ := List.mem_map.mp hst
      refine ⟨_, List.mem_map_of_mem hq, rfl, fun hr => ?_⟩
      exact (connects_new env route (id+1) q hq).2 (by injection hr)

theorem phased_pipedLedger (id : ℕ) (origin : String) (reconnect : Bool) (route : Route)
    (env : Env) : (pipedLedger id origin reconnect route env).Phased where
  connected := nofun
  early _ _ := rfl
  fits _ p hp st _ _ := by
    obtain ⟨q, -, rfl⟩ := List.mem_map.mp hp
    exact ⟨nofun, nofun⟩

end Session
end L7mp
