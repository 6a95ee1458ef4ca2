import L7mp.StoreTied

/-! The invariants of the store: objects of one collection have different names, a cluster lists
exactly the registered endpoints that belong to it, and the stages of a session are told apart. -/
namespace L7mp
open Aborting Coroutine GuardedRun KeyedList Pool

namespace Session

theorem identity_disconnectStage (A : Answers) (s : Session) (i : ℕ) :
    (s.disconnectStage A i).identity = s.identity := by
  unfold disconnectStage
  split
  · rfl
  · exact identity_disconnect ..

theorem identity_disconnectStages (A : Answers) (is : List ℕ) (s : Session) :
    (is.foldl (disconnectStage A) s).identity = s.identity := by
  induction is generalizing s with
  | nil => rfl
  | cons i is ih =>
    rw [List.foldl_cons, ih]
    exact identity_disconnectStage A s i

theorem identity_disconnectFrom (A : Answers) (n : String) (s : Session) :
    (disconnectFrom A n s).2.identity = s.identity := by
  have hchain (stages : List Stage) (u : Session) (hu : u.identity = s.identity) :
      (disconnectChain A n stages u).2.identity = s.identity := by
    unfold disconnectChain
    split_ifs
    · exact hu
    · exact (identity_disconnectStages A _ u).trans hu
  unfold disconnectFrom
  split
  · rfl
  · refine seq_keeps (I := fun u => u.identity = s.identity) (fun u => hchain _ u)
      (fun u => hchain _ u) ?_
    split_ifs
    · exact identity_disconnectStage A s _
    · rfl

theorem served_disconnectFrom (A : Answers) (n : String) (s : Session) (h : s.Served) :
    (disconnectFrom A n s).2.Served := by
  have hstage (i : ℕ) (u : Session) (hu : u.Served) : (u.disconnectStage A i).Served := by
    unfold disconnectStage
    split
    · exact hu
    · exact served_disconnect _ _ _ _ hu
  have hstages (is : List ℕ) (u : Session) (hu : u.Served) :
      (is.foldl (disconnectStage A) u).Served := by
    induction is generalizing u with
    | nil => exact hu
    | cons i is ih => exact ih _ (hstage i u hu)
  have hchain (stages : List Stage) (u : Session) (hu : u.Served) :
      (disconnectChain A n stages u).2.Served := by
    unfold disconnectChain
    split_ifs
    · exact hu
    · exact hstages _ u hu
  unfold disconnectFrom
  split
  · exact h
  · refine seq_keeps (I := Served) (fun u => hchain _ u) (fun u => hchain _ u) ?_
    split_ifs
    · exact hstage _ s h
    · exact h

theorem Staged.disconnectFrom {s : Session} (h : s.Staged) (A : Answers) (n : String) :
    (s.disconnectFrom A n).2.Staged :=
  h.of_identity (identity_disconnectFrom A n s) (served_disconnectFrom A n s h.served)

theorem Staged.endTraversing {s : Session} (h : s.Staged) (n : String) :
    (s.endTraversing n).2.Staged := by
  unfold Session.endTraversing
  split
  · exact h
  · dsimp only
    split_ifs
    · exact h.end_
    · exact h

end Session

namespace Store

/-- The invariant. -/
structure Orderly (w : Store) : Prop where
  listeners : Distinct Listener.name w.listeners
  clusters : Distinct Cluster.name w.clusters
  rulelists : Distinct RuleList.name w.rulelists
  rules : Distinct Rule.name w.rules
  routes : Distinct Route.name w.routes
  endpoints : Distinct EndPoint.name w.endpoints
  mirror : ∀ c ∈ w.clusters, c.endpoints = w.endpoints.filter (fun e => e.cluster = c.name)
  owned : ∀ e ∈ w.endpoints, ∃ c ∈ w.clusters, c.name = e.cluster
  staged : ∀ s ∈ w.sessions, s.Staged
  listIds : (w.rulelists.map RuleList.id).Nodup
  listOld : ∀ i ∈ w.rulelists.map RuleList.id, i < w.nextId
  ruleOld : ∀ i ∈ w.rules.map Rule.id, i < w.nextId

/-- A change of the sessions only. -/
theorem Orderly.of_config {w w' : Store} (h : w.Orderly) (hc : w'.toConfig = w.toConfig)
    (hnext : w'.nextId = w.nextId) (hs : (∀ s ∈ w.sessions, s.Staged) → ∀ s ∈ w'.sessions, s.Staged) : w'.Orderly := by
  obtain ⟨c, s, d, i, n, r⟩ := w
  obtain ⟨c', s', d', i', n', r'⟩ := w'
  obtain rfl : c' = c := hc
  obtain rfl : n' = n := hnext
  exact { h with staged := hs h.staged }

theorem config_onSessions (f : Op Session Err) (w : Store) :
    (onSessions f w).2.toConfig = w.toConfig := rfl

theorem Orderly.onSessions {w : Store} (h : w.Orderly) {f : Op Session Err}
    (hf : ∀ s, s.Staged → (f s).2.Staged) : (onSessions f w).2.Orderly :=
  h.of_config (config_onSessions f w) rfl (fun hall => inPlace_keeps hf hall)

theorem Orderly.tied {w : Store} (h : w.Orderly) : w.Tied := ⟨h.clusters, h.mirror, h.owned⟩

/-- An endpoint joins its cluster and the registry. -/
theorem Orderly.pushEndPoint {w : Store} (h : w.Orderly) {ep : EndPoint} {cl : Cluster}
    (hcl : w.getCluster ep.cluster = some cl) (hfree : w.getEndPoint ep.name = none) :
    (w.pushEndPoint ep).Orderly := by
  have htied := h.tied.pushEndPoint hcl
  exact { h with
    clusters := htied.clusters
    mirror := htied.mirror
    owned := htied.owned
    endpoints := h.endpoints.push hfree }

/-- An endpoint leaves its cluster and the registry. -/
theorem Orderly.dropEndPoint {w : Store} (h : w.Orderly) {n : String} {ep : EndPoint}
    (hep : w.getEndPoint n = some ep) : (w.dropEndPoint n ep).Orderly := by
  have htied := h.tied.dropEndPoint hep
  exact { h with
    clusters := htied.clusters
    mirror := htied.mirror
    owned := htied.owned
    endpoints := h.endpoints.remove n }

theorem Orderly.deleteEndPoint {w : Store} (h : w.Orderly) (A : Answers) (b : Bool) (n : String) :
    (w.deleteEndPoint A b n).2.Orderly := by
  unfold Store.deleteEndPoint
  split
  · exact h
  · rename_i ep hep
    split
    · exact h
    · have hdrop := h.dropEndPoint hep
      split
      · exact hdrop.onSessions (fun _ hs => hs.disconnectFrom A n)
      · exact hdrop

theorem Orderly.endpoints_forEach {A : Answers} {b : Bool} {ns : List String} {w w' : Store}
    (h : w.Orderly) (hr : forEach (Store.deleteEndPoint A b) ns w = (.ok (), w')) :
    w'.endpoints = w.endpoints.filter (fun e => e.name ∉ ns) := by
  rw [h.tied.forEach_returns hr]
  exact h.endpoints.removeAll_eq_filter ns

theorem Orderly.forEach {w : Store} (h : w.Orderly) (A : Answers) (b : Bool) (ns : List String) :
    (Aborting.forEach (Store.deleteEndPoint A b) ns w).2.Orderly :=
  forEach_keeps (I := Orderly) (fun n _ hw => hw.deleteEndPoint A b n) ns h

/-- A cluster without endpoints leaves. -/
theorem Orderly.dropCluster {w : Store} (h : w.Orderly) {n : String}
    (hn : ∀ e ∈ w.endpoints, e.cluster ≠ n) :
    Orderly { w with clusters := remove Cluster.name n w.clusters } := by
  have htied := h.tied.dropCluster hn
  exact { h with
    clusters := htied.clusters
    mirror := htied.mirror
    owned := htied.owned }

/-- A cluster is removed after its endpoints are gone. -/
theorem Orderly.deleteCluster {w : Store} (h : w.Orderly) (A : Answers) (b : Bool) (n : String) :
    (w.deleteCluster A b n).2.Orderly := by
  unfold Store.deleteCluster
  split
  · exact h
  · rename_i c hc
    obtain ⟨hmem, hcn⟩ := lookup_some hc
    let ended : Op Store Err := if b then Store.onSessions (Session.endTraversing c.name) else skip
    have hconfig : (ended w).2.toConfig = w.toConfig := by
      cases b <;> rfl
    have hended : (ended w).2.Orderly := by
      cases b with
      | false => exact h
      | true => exact h.onSessions (fun _ hs => hs.endTraversing c.name)
    change (seq ended _ w).2.Orderly
    rcases he : ended w with ⟨_ | ⟨⟩, u⟩
    · rw [seq_of_throws he]
      rw [he] at hended
      exact hended
    · rw [seq_of_returns he]
      rw [he] at hended hconfig
      have hkeep := hended.forEach A b (c.endpoints.map EndPoint.name)
      rcases hf : Aborting.forEach (Store.deleteEndPoint A b) (c.endpoints.map EndPoint.name) u with
        ⟨_ | ⟨⟩, t⟩
      · rw [seq_of_throws hf]
        rw [hf] at hkeep
        exact hkeep
      · rw [seq_of_returns hf]
        rw [hf] at hkeep
        apply hkeep.dropCluster
        -- the endpoints of the cluster were those of its list
        intro e het heq
        rw [hended.endpoints_forEach hf] at het
        obtain ⟨heu, hnot⟩ := List.mem_filter.mp het
        have hew : e ∈ w.endpoints := by
          change u.toConfig = w.toConfig at hconfig
          change e ∈ u.toConfig.endpoints at heu
          rw [hconfig] at heu
          exact heu
        have hec : e ∈ c.endpoints := by
          rw [h.mirror c hmem]
          exact List.mem_filter.mpr ⟨hew, by simpa [hcn] using heq⟩
        have hin : e.name ∈ c.endpoints.map EndPoint.name := List.mem_map_of_mem hec
        simp [hin] at hnot

end Store
end L7mp
