import L7mp.SessionOwned

/-! What a session never changes after its start: its name, its tracking time, its route, its
stages and their chain. -/
namespace L7mp

structure Identity where
  name : String
  track : ℕ
  route : Option Route
  ids : List ℕ
  chain? : Option Chain

namespace Session

def identity (s : Session) : Identity := 
  ⟨s.name, s.track, s.route, s.getStages.map Stage.id, s.chain?⟩

theorem identity_mapStages {f : Stage → Stage} (hid : ∀ st, (f st).id = st.id) (s : Session) :
    (s.mapStages f).identity = s.identity := by
  have hmap (l : List Stage) : (l.map f).map Stage.id = l.map Stage.id :=
    Frame.map_id_of_keeps hid l
  have hchain : (s.mapStages f).chain? = s.chain? := by
    simp only [chain?, chain, mapStages, hid, hmap, Option.map_map]
    cases s.destination with
    | none => rfl
    | some d => simp only [Option.map_some, Function.comp_apply, hid]
  unfold identity
  rw [hchain, getStages_mapStages, hmap]
  rfl

theorem identity_setStage {f : Stage → Stage} (hid : ∀ st, (f st).id = st.id) (i : ℕ)
    (s : Session) : (s.setStage i f).identity = s.identity :=
  identity_mapStages (Frame.only_id hid i) s

theorem identity_destroy (s : Session) : s.destroy.identity = s.identity := by
  have hann (u : Session) : u.announce.identity = u.identity := by
    unfold announce
    split_ifs <;> rfl
  unfold destroy
  rw [hann]
  exact identity_mapStages Frame.destroyed_calm.id s

theorem identity_error (thr : Bool) (s : Session) : (s.error thr).identity = s.identity := by
  unfold error
  split_ifs
  · exact identity_destroy _
  · rfl
  · exact identity_destroy _

theorem identity_end_ (s : Session) : s.end_.identity = s.identity := identity_destroy _

theorem identity_reconnect (env : Env) (retry : Retry) (st : Stage) (s : Session) :
    (s.reconnect env retry st).identity = s.identity := by
  unfold reconnect
  split_ifs
  · rfl
  · rfl
  · exact identity_setStage (run_calm env _).id _ s

theorem identity_disconnect (env : Env) (thr : Bool) (st : Stage) (s : Session) :
    (s.disconnect env thr st).identity = s.identity := by
  have hdrop (u : Session) : (u.dropStage st).identity = u.identity := by
    have hmap := identity_setStage (f := Stage.disconnected) (fun _ => rfl) st.id u
    unfold dropStage
    split_ifs <;> exact hmap
  have hafter (u : Session) : (u.afterLoss env thr st).identity = u.identity := by
    unfold afterLoss
    split
    · rfl
    · split
      · split_ifs
        · exact identity_reconnect ..
        · exact identity_error ..
      · split_ifs
        · exact identity_reconnect ..
        · exact identity_error ..
      · exact identity_end_ _
      · exact identity_end_ _
      · exact identity_error ..
  unfold disconnect
  split_ifs
  · rw [hafter, hdrop]
    rfl
  · rfl

theorem identity_rejoin (thr : Bool) (i : ℕ) (s : Session) :
    (s.rejoin thr i).identity = s.identity := by
  have hmap (u : Session) := identity_setStage (f := Stage.repiped) (fun _ => rfl) i u
  unfold rejoin
  dsimp only
  split_ifs
  · exact identity_error ..
  · exact hmap ((s.addActive 1).addPipes (s.newPipes i).1)
  · exact hmap _

/-- A session keeps its identity for good. -/
theorem step_identity {s t : Session} {e : Event} (h : s.step e = some t) :
    t.identity = s.identity := by
  cases e with
  | streamOk k ep =>
    simp only [step] at h
    split at h <;> cases h
    exact identity_setStage (f := Stage.assign s.nextStream ep) (fun _ => rfl) _ s
  | streamFail k abrupt =>
    simp only [step] at h
    split at h
    · split at h <;> cases h
      · rfl
      · exact identity_setStage (failed_calm _).id _ s
    · cases h
  | timer k env =>
    simp only [step] at h
    split at h
    · obtain ⟨st, -, rfl⟩ := Option.map_eq_some_iff.mp h
      exact identity_setStage (run_calm env _).id _ s
    · cases h
  | listenerOk k =>
    simp only [step] at h
    split at h <;> cases h
    exact identity_setStage (f := fun st => ({ st with stream := some s.nextStream } : Stage).handled)
      (fun _ => rfl) _ s
  | listenerFail k =>
    simp only [step] at h
    split at h <;> cases h
    rfl
  | lost i env thr =>
    simp only [step] at h
    split_ifs at h
    split at h
    · cases h
    · obtain ⟨x, -, rfl⟩ := Option.map_eq_some_iff.mp h
      split_ifs
      · exact identity_disconnect ..
      · rfl
  | disconnect i env thr =>
    simp only [step] at h
    split_ifs at h
    split at h
    · cases h
    · split_ifs at h
      cases h
      exact identity_disconnect ..
  | end_ =>
    cases h
    exact identity_end_ s
  | error thr =>
    cases h
    exact identity_error thr s
  | destroyTimer =>
    simp only [step] at h
    split_ifs at h
    cases h
    rfl
  | resume k =>
    simp only [step] at h
    split at h <;> cases h
    exact identity_setStage (f := Stage.handled) (fun _ => rfl) _ s
  | rejoin k thr =>
    simp only [step] at h
    split at h <;> cases h
    exact identity_rejoin ..
  | giveUp k thr =>
    simp only [step] at h
    split at h <;> cases h
    exact identity_error ..
  | pipelineOk =>
    simp only [step] at h
    split_ifs at h
    cases h
    exact identity_mapStages (f := Stage.handled) (fun _ => rfl) { s with settingUp := false }
  | pipelineFail thr =>
    simp only [step] at h
    split_ifs at h
    cases h
    exact identity_error ..

theorem step_name {s t : Session} {e : Event} (h : s.step e = some t) : t.name = s.name :=
  congrArg Identity.name (step_identity h)

theorem step_chain? {s t : Session} {e : Event} (h : s.step e = some t) :
    t.chain? = s.chain? := congrArg Identity.chain? (step_identity h)

end Session
end L7mp
