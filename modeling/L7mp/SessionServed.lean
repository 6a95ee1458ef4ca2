import L7mp.SessionIdentity

/-! The stages of a session: they are told apart, and a stage is connected to an endpoint of the
cluster it names. -/
namespace L7mp

namespace Stage

/-- The cluster of the stage offers this endpoint, or stands for it itself. -/
def offered (st : Stage) (ep : EndPointRef) : Bool :=
  ep.cluster = some st.origin || (ep.cluster = none && ep.name = st.origin)

def Served (st : Stage) : Prop := ∀ ep ∈ st.endpoint, st.offered ep = true

/-- A change of a stage that brings no endpoint. -/
structure Fading (g : Stage → Stage) : Prop where
  origin : ∀ st, (g st).origin = st.origin
  endpoint : ∀ st, (g st).endpoint = st.endpoint ∨ (g st).endpoint = none

theorem Served.fading {g : Stage → Stage} (hg : Fading g) {st : Stage} (h : st.Served) :
    (g st).Served := by
  intro ep hep
  unfold offered
  rw [hg.origin]
  rcases hg.endpoint st with heq | heq
  · rw [heq] at hep
    exact h ep hep
  · rw [heq] at hep
    cases hep

theorem run_fading (env : Env) (left : ℕ) : Fading (fun st => (st.run env left).1) where
  origin st := by
    obtain ⟨_, _, h, -⟩ := Session.run_keeps env left st
    rw [h]
  endpoint st := by
    obtain ⟨_, _, h, -⟩ := Session.run_keeps env left st
    rw [h]
    exact .inl rfl

theorem failed_fading (left : ℕ) : Fading (Stage.failed left) :=
  ⟨fun _ => rfl, fun _ => .inl rfl⟩

theorem destroyed_fading : Fading Stage.destroyed where
  origin st := by
    unfold Stage.destroyed
    split_ifs <;> rfl
  endpoint st := by
    unfold Stage.destroyed
    split_ifs <;> exact .inl rfl

end Stage

open Stage (Fading)

namespace Session

/-- The endpoint that a stage obtains is one of its cluster. -/
def Answered (s : Session) : Event → Prop
  | .streamOk k ep => ∀ p ∈ s.tasks[k]?, ∀ st ∈ s.getStages, st.id = p.1 → st.offered ep = true
  | _ => True

instance (s : Session) : (e : Event) → Decidable (s.Answered e)
  | .streamOk k ep => inferInstanceAs (Decidable (∀ p ∈ s.tasks[k]?, ∀ st ∈ s.getStages,
      st.id = p.1 → st.offered ep = true))
  | .streamFail .. | .timer .. | .listenerOk .. | .listenerFail .. | .lost .. | .disconnect ..
  | .end_ | .error .. | .destroyTimer | .resume .. | .rejoin .. | .giveUp .. | .pipelineOk
  | .pipelineFail .. => inferInstanceAs (Decidable True)

def Served (s : Session) : Prop := ∀ st ∈ s.getStages, st.Served

theorem served_mapStages {g : Stage → Stage} (s : Session)
    (hg : ∀ st ∈ s.getStages, (g st).Served) : (s.mapStages g).Served := by
  intro st hst
  rw [getStages_mapStages] at hst
  obtain ⟨st', hst', rfl⟩ := List.mem_map.mp hst
  exact hg st' hst'

theorem served_setStage {g : Stage → Stage} (hg : Fading g) (i : ℕ) (s : Session)
    (h : s.Served) : (s.setStage i g).Served := by
  apply served_mapStages
  intro st hst
  split_ifs
  · exact (h st hst).fading hg
  · exact h st hst

theorem served_destroy (s : Session) (h : s.Served) : s.destroy.Served := by
  have hann (u : Session) (hu : u.Served) : u.announce.Served := by
    unfold announce
    split_ifs
    · exact hu
    · exact hu
  apply hann
  exact served_mapStages s (fun st hst => (h st hst).fading Stage.destroyed_fading)

theorem served_error (thr : Bool) (s : Session) (h : s.Served) : (s.error thr).Served := by
  unfold error
  split_ifs
  · exact served_destroy _ h
  · exact h
  · exact served_destroy _ h

theorem served_end_ (s : Session) (h : s.Served) : s.end_.Served := served_destroy _ h

theorem served_reconnect (env : Env) (retry : Retry) (st : Stage) (s : Session)
    (h : s.Served) : (s.reconnect env retry st).Served := by
  unfold reconnect
  split_ifs
  · exact h
  · exact h
  · exact served_setStage (Stage.run_fading env _) _ s h

theorem served_disconnect (env : Env) (thr : Bool) (st : Stage) (s : Session) (h : s.Served) :
    (s.disconnect env thr st).Served := by
  have hdrop (u : Session) (hu : u.Served) : (u.dropStage st).Served := by
    have hset := served_setStage (g := Stage.disconnected) ⟨fun _ => rfl, fun _ => .inr rfl⟩
      st.id u hu
    unfold dropStage
    split_ifs
    · exact hset
    · exact hset
  have hafter (u : Session) (hu : u.Served) : (u.afterLoss env thr st).Served := by
    unfold afterLoss
    split
    · exact hu
    · split
      · split_ifs
        · exact served_reconnect _ _ _ _ hu
        · exact served_error _ _ hu
      · split_ifs
        · exact served_reconnect _ _ _ _ hu
        · exact served_error _ _ hu
      · exact served_end_ _ hu
      · exact served_end_ _ hu
      · exact served_error _ _ hu
  unfold disconnect
  split_ifs
  · exact hafter _ (hdrop _ h)
  · exact h

theorem served_rejoin (thr : Bool) (i : ℕ) (s : Session) (h : s.Served) :
    (s.rejoin thr i).Served := by
  have hset (u : Session) (hu : u.Served) : (u.setStage i Stage.repiped).Served :=
    served_setStage (g := Stage.repiped) ⟨fun _ => rfl, fun _ => .inl rfl⟩ i u hu
  unfold rejoin
  dsimp only
  split_ifs
  · exact served_error _ _ h
  · exact hset ((s.addActive 1).addPipes (s.newPipes i).1) h
  · exact hset _ h

/-- Only the stream of a cluster brings an endpoint. -/
theorem served_step {s t : Session} {e : Event} (hs : s.Served) (he : s.Answered e)
    (h : s.step e = some t) : t.Served := by
  cases e with
  | streamOk k ep =>
    simp only [step] at h
    split at h
    · rename_i i redo left hk
      cases h
      have hobtain : (s.setStage i (Stage.assign s.nextStream ep)).Served := by
        apply served_mapStages
        intro st hst
        split_ifs with hi
        · intro ep' hep'
          cases hep'
          exact he _ (Option.mem_def.mpr hk) st hst hi
        · exact hs st hst
      exact hobtain
    · cases h
  | streamFail k abrupt =>
    simp only [step] at h
    split at h
    · split at h <;> cases h
      · exact hs
      · exact served_setStage (Stage.failed_fading _) _ s hs
    · cases h
  | timer k env =>
    simp only [step] at h
    split at h
    · obtain ⟨st, -, rfl⟩ := Option.map_eq_some_iff.mp h
      exact served_setStage (Stage.run_fading env _) _ s hs
    · cases h
  | listenerOk k =>
    simp only [step] at h
    split at h <;> cases h
    exact served_setStage (g := fun st => ({ st with stream := some s.nextStream } : Stage).handled)
      ⟨fun _ => rfl, fun _ => .inl rfl⟩ _ s hs
  | listenerFail k =>
    simp only [step] at h
    split at h <;> cases h
    exact hs
  | lost i env thr =>
    simp only [step] at h
    split_ifs at h
    split at h
    · cases h
    · obtain ⟨x, -, rfl⟩ := Option.map_eq_some_iff.mp h
      split_ifs
      · exact served_disconnect _ _ _ _ hs
      · exact hs
  | disconnect i env thr =>
    simp only [step] at h
    split_ifs at h
    split at h
    · cases h
    · split_ifs at h
      cases h
      exact served_disconnect _ _ _ s hs
  | end_ =>
    cases h
    exact served_end_ s hs
  | error thr =>
    cases h
    exact served_error thr s hs
  | destroyTimer =>
    simp only [step] at h
    split_ifs at h
    cases h
    exact hs
  | resume k =>
    simp only [step] at h
    split at h <;> cases h
    exact served_setStage (g := Stage.handled) ⟨fun _ => rfl, fun _ => .inl rfl⟩ _ s hs
  | rejoin k thr =>
    simp only [step] at h
    split at h <;> cases h
    exact served_rejoin _ _ _ hs
  | giveUp k thr =>
    simp only [step] at h
    split at h <;> cases h
    exact served_error _ _ hs
  | pipelineOk =>
    simp only [step] at h
    split_ifs at h
    cases h
    have hmap : (({ s with settingUp := false } : Session).mapStages Stage.handled).Served :=
      served_mapStages _ (fun st hst => (hs st hst).fading ⟨fun _ => rfl, fun _ => .inl rfl⟩)
    exact hmap
  | pipelineFail thr =>
    simp only [step] at h
    split_ifs at h
    cases h
    exact served_error _ _ hs

theorem served_start (name : String) (id : ℕ) (origin : String) (err : Bool) (st : Start) :
    (start name id origin err st).Served := by
  have hnew (track : ℕ) : ({ new name id origin err with track := track } : Session).Served := by
    intro st hst ep hep
    obtain rfl := List.mem_singleton.mp hst
    cases hep
  cases st with
  | failed track lookedUp thr =>
    simp only [start]
    split_ifs
    · exact served_error _ _ (hnew track)
    · exact served_error _ _ (hnew track)
  | piped track reconnect route env =>
    intro st hst
    simp only [start, pipelineInit_stages] at hst
    rcases List.mem_cons.mp hst with rfl | hst
    · intro ep hep
      cases hep
    · obtain ⟨p, hp, rfl⟩ := List.mem_map.mp hst
      obtain ⟨i, origin', rfl⟩ := connectAll_mem _ _ _ _ p hp
      have hfresh : (Stage.new i origin' none false).Served := by
        intro ep hep
        cases hep
      exact hfresh.fading (Stage.run_fading env _)

/-- The stages of a session have ids of their own and endpoints of their clusters. -/
structure Staged (s : Session) : Prop where
  ids : (s.getStages.map Stage.id).Nodup
  served : s.Served

theorem Staged.of_identity {s t : Session} (h : t.identity = s.identity) (hs : s.Staged)
    (ht : t.Served) : t.Staged := by
  refine ⟨?_, ht⟩
  have hids : t.getStages.map Stage.id = s.getStages.map Stage.id := congrArg Identity.ids h
  rw [hids]
  exact hs.ids

theorem Staged.step {s t : Session} {e : Event} (hs : s.Staged) (he : s.Answered e)
    (h : s.step e = some t) : t.Staged :=
  hs.of_identity (step_identity h) (served_step hs.served he h)

theorem Staged.end_ {s : Session} (hs : s.Staged) : s.end_.Staged :=
  hs.of_identity (identity_end_ s) (served_end_ s hs.served)

theorem staged_start (name : String) (id : ℕ) (origin : String) (err : Bool) (st : Start) :
    (start name id origin err st).Staged where
  ids := (sound_reachable ⟨_, _, _, _, _, rfl⟩
    (GuardedRun.Run.refl (start name id origin err st) :
      GuardedRun.Run Session.step GuardedRun.always _ _)).owned.ids
  served := served_start name id origin err st

end Session
end L7mp
