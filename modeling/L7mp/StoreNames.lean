import L7mp.StoreOrderly

/-! Names are unique. Clusters, rulelists and rules are pushed in the piece of code that finds
their name free; listeners and routes are not, and an endpoint without a name is not checked. -/
namespace L7mp
open Aborting Coroutine GuardedRun KeyedList Pool

namespace Store

/-- The collections whose objects are pushed where their name is checked. -/
structure FewNames (w : Store) : Prop where
  clusters : Distinct Cluster.name w.clusters
  rulelists : Distinct RuleList.name w.rulelists
  rules : Distinct Rule.name w.rules

/-- No two objects of the same collection have the same name. -/
structure Named (w : Store) : Prop extends FewNames w where
  listeners : Distinct Listener.name w.listeners
  routes : Distinct Route.name w.routes
  endpoints : Distinct EndPoint.name w.endpoints

/-- The name that a waiting request holds is still free. -/
def Free : Held → Store → Prop
  | .listener n, w => w.getListener n = none
  | .route n, w => w.getRoute n = none

instance (w : Store) : (x : Held) → Decidable (Free x w)
  | .listener n => inferInstanceAs (Decidable (w.getListener n = none))
  | .route n => inferInstanceAs (Decidable (w.getRoute n = none))

/-- An endpoint without a name gets one that is free. -/
def Fresh : Request → Store → Prop
  | .addEndPoint c ep, w => ep.name = none →
    ∀ cl ∈ w.getCluster c, w.getEndPoint (w.endPointName cl ep) = none
  | _, _ => True

instance (w : Store) : (r : Request) → Decidable (Fresh r w)
  | .addEndPoint c ep => inferInstanceAs (Decidable (ep.name = none →
    ∀ cl ∈ w.getCluster c, w.getEndPoint (w.endPointName cl ep) = none))
  | .addListener .. | .addCluster .. | .addRuleList .. | .addRule .. | .addRuleToRuleList ..
  | .addRoute .. | .deleteListener .. | .deleteCluster .. | .deleteRuleList .. | .deleteRule ..
  | .deleteRuleFromRuleList .. | .deleteRoute .. | .deleteEndPoint .. | .addSession ..
  | .session .. | .dropSession .. => inferInstanceAs (Decidable True)

theorem Distinct.congr {α : Type} {key : α → String} {l l' : List α}
    (h : l'.map key = l.map key) (hl : Distinct key l) : Distinct key l' := by
  unfold Distinct
  rw [h]
  exact hl

theorem lookup_none_congr {α : Type} {key : α → String} {l l' : List α} {n : String}
    (h : l'.map key = l.map key) (hl : lookup key n l = none) : lookup key n l' = none := by
  rw [lookup_eq_none_iff, h]
  exact lookup_eq_none_iff.mp hl

theorem clusters_dropEndPoint (n : String) (ep : EndPoint) (w : Store) :
    (w.dropEndPoint n ep).clusters.map Cluster.name = w.clusters.map Cluster.name :=
  modify_keys (f := Cluster.deleteEndPoint n) (fun _ => rfl) _ _

theorem clusters_pushEndPoint (ep : EndPoint) (w : Store) :
    (w.pushEndPoint ep).clusters.map Cluster.name = w.clusters.map Cluster.name :=
  modify_keys (f := fun c => ({ c with endpoints := c.endpoints ++ [ep] } : Cluster))
    (fun _ => rfl) _ _

theorem FewNames.deleteEndPoint {w : Store} (h : w.FewNames) (A : Answers) (b : Bool)
    (n : String) : (w.deleteEndPoint A b n).2.FewNames := by
  have hdrop (ep : EndPoint) : (w.dropEndPoint n ep).FewNames :=
    ⟨Distinct.congr (clusters_dropEndPoint n ep w) h.clusters, h.rulelists, h.rules⟩
  unfold Store.deleteEndPoint
  split
  · exact h
  · rename_i ep _
    split
    · exact h
    · split
      · exact ⟨(hdrop ep).clusters, (hdrop ep).rulelists, (hdrop ep).rules⟩
      · exact hdrop ep

theorem FewNames.deleteCluster {w : Store} (h : w.FewNames) (A : Answers) (b : Bool)
    (n : String) : (w.deleteCluster A b n).2.FewNames := by
  unfold Store.deleteCluster
  split
  · exact h
  · refine seq_keeps (I := FewNames) ?_ (fun w hw => seq_keeps (I := FewNames) ?_ ?_ hw) h
    · intro w hw
      split
      · exact ⟨hw.clusters, hw.rulelists, hw.rules⟩
      · exact hw
    · intro w hw
      exact forEach_keeps (I := FewNames) (fun n _ hw => hw.deleteEndPoint A b n) _ hw
    · intro w hw
      exact ⟨hw.clusters.remove n, hw.rulelists, hw.rules⟩

/-- Three collections keep their names apart however the requests interleave. -/
theorem stable_fewNames : Stable (fun _ _ => True) (fun _ _ => True) FewNames where
  same _ _ hs h := ⟨Distinct.congr (congrArg _ hs.clusters) h.clusters,
    Distinct.congr hs.rulelists h.rulelists, Distinct.congr hs.rules h.rules⟩
  heldSame _ _ _ _ _ := trivial
  freeSame _ _ _ _ _ := trivial
  freeListener _ _ _ := trivial
  freeRoute _ _ _ := trivial
  freeEndPoint _ _ _ := trivial
  pushListener _ _ h _ := ⟨h.clusters, h.rulelists, h.rules⟩
  pushCluster _ _ h hfree _ := ⟨h.clusters.push hfree, h.rulelists, h.rules⟩
  pushRuleList _ _ h hfree := ⟨h.clusters, h.rulelists.push hfree.1, h.rules⟩
  pushRule _ _ h hfree := ⟨h.clusters, h.rulelists, h.rules.push hfree.1⟩
  pushRoute _ _ h _ := ⟨h.clusters, h.rulelists, h.rules⟩
  pushEndPoint ep _ w h _ _ :=
    ⟨Distinct.congr (clusters_pushEndPoint ep w) h.clusters, h.rulelists, h.rules⟩
  removeListener _ _ h := ⟨h.clusters, h.rulelists, h.rules⟩
  deleteCluster A b n _ h := h.deleteCluster A b n
  dropRuleList n _ h := ⟨h.clusters, h.rulelists.remove n, h.rules⟩
  removeRule n _ h := ⟨h.clusters, h.rulelists, h.rules.remove n⟩
  removeRoute _ _ h := ⟨h.clusters, h.rulelists, h.rules⟩
  deleteEndPoint A b n _ h := h.deleteEndPoint A b n
  sessions _ _ h _ := ⟨h.clusters, h.rulelists, h.rules⟩

theorem Orderly.of_same {w w' : Store} (hs : w.Same w') (h : w.Orderly) : w'.Orderly where
  listeners := Distinct.congr hs.listeners h.listeners
  clusters := Distinct.congr (congrArg _ hs.clusters) h.clusters
  rulelists := Distinct.congr hs.rulelists h.rulelists
  rules := Distinct.congr hs.rules h.rules
  routes := Distinct.congr (congrArg _ hs.routes) h.routes
  endpoints := Distinct.congr (congrArg _ hs.endpoints) h.endpoints
  mirror := by
    rw [hs.clusters, hs.endpoints]
    exact h.mirror
  owned := by
    rw [hs.clusters, hs.endpoints]
    exact h.owned
  staged := by
    rw [hs.sessions]
    exact h.staged
  listIds := by
    rw [hs.listIds]
    exact h.listIds
  listOld := by
    rw [hs.listIds]
    exact fun i hi => Nat.lt_of_lt_of_le (h.listOld i hi) hs.nextId
  ruleOld := by
    rw [hs.ruleIds]
    exact fun i hi => Nat.lt_of_lt_of_le (h.ruleOld i hi) hs.nextId

theorem Orderly.pushCluster {w : Store} (h : w.Orderly) {cu : Cluster}
    (hfree : w.getCluster cu.name = none) (hempty : cu.endpoints = []) :
    (w.pushCluster cu).Orderly := by
  have htied := h.tied.pushCluster hfree hempty
  exact { h with
    clusters := htied.clusters
    mirror := htied.mirror
    owned := htied.owned }

/-- The new object has the next id. -/
theorem push_old {ids : List ℕ} {i m : ℕ} (h : ∀ j ∈ ids, j < m) (hi : i = m) :
    ∀ j ∈ ids ++ [i], j < m+1 := by
  intro j hj
  rcases List.mem_append.mp hj with hj | hj
  · have := h j hj
    omega
  · have := List.mem_singleton.mp hj
    omega

theorem Orderly.pushRuleList {w : Store} (h : w.Orderly) {rl : RuleList}
    (hfree : w.getRuleList rl.name = none) (hid : rl.id = w.nextId) :
    (w.pushRuleList rl).Orderly where
  rulelists := h.rulelists.push hfree
  listIds := by
    have hnew : rl.id ∉ w.rulelists.map RuleList.id := by
      intro hmem
      have := h.listOld _ hmem
      omega
    change ((w.rulelists ++ [rl]).map RuleList.id).Nodup
    rw [List.map_append]
    exact h.listIds.append (List.nodup_singleton _)
      (List.disjoint_singleton.mpr hnew)
  listOld := by
    change ∀ i ∈ (w.rulelists ++ [rl]).map RuleList.id, i < w.nextId+1
    rw [List.map_append]
    exact push_old h.listOld hid
  ruleOld i hi := Nat.lt_succ_of_lt (h.ruleOld i hi)
  listeners := h.listeners
  clusters := h.clusters
  rules := h.rules
  routes := h.routes
  endpoints := h.endpoints
  mirror := h.mirror
  owned := h.owned
  staged := h.staged

theorem Orderly.pushRule {w : Store} (h : w.Orderly) {r : Rule} (hfree : w.getRule r.name = none)
    (hid : r.id = w.nextId) : (w.pushRule r).Orderly where
  rules := h.rules.push hfree
  ruleOld := by
    change ∀ i ∈ (w.rules ++ [r]).map Rule.id, i < w.nextId+1
    rw [List.map_append]
    exact push_old h.ruleOld hid
  listOld i hi := Nat.lt_succ_of_lt (h.listOld i hi)
  listIds := h.listIds
  listeners := h.listeners
  clusters := h.clusters
  rulelists := h.rulelists
  routes := h.routes
  endpoints := h.endpoints
  mirror := h.mirror
  owned := h.owned
  staged := h.staged

theorem Orderly.dropRuleList {w : Store} (h : w.Orderly) (n : String) :
    (w.dropRuleList n).Orderly := by
  have hsub : (w.dropRuleList n).rulelists.Sublist w.rulelists := List.eraseP_sublist
  exact { h with
    rulelists := h.rulelists.remove n
    listIds := h.listIds.sublist (hsub.map _)
    listOld := fun i hi => h.listOld i ((hsub.map _).subset hi) }

theorem Orderly.removeRule {w : Store} (h : w.Orderly) (n : String) :
    ({ w with rules := remove Rule.name n w.rules } : Store).Orderly := by
  have hsub : (remove Rule.name n w.rules).Sublist w.rules := List.eraseP_sublist
  exact { h with
    rules := h.rules.remove n
    ruleOld := fun i hi => h.ruleOld i ((hsub.map _).subset hi) }

/-- The whole invariant is kept where held and generated names are free. -/
theorem stable_orderly : Stable Free (fun n w => w.getEndPoint n = none) Orderly where
  same _ _ hs h := h.of_same hs
  heldSame x _ _ hs hx := by
    cases x with
    | listener n => exact lookup_none_congr hs.listeners hx
    | route n => exact lookup_none_congr (congrArg _ hs.routes) hx
  freeSame _ _ _ hs hn := lookup_none_congr (congrArg _ hs.endpoints) hn
  freeListener _ _ h := h
  freeRoute _ _ h := h
  freeEndPoint _ _ h := h
  pushListener _ _ h hfree := { h with listeners := h.listeners.push hfree }
  pushCluster _ _ h hfree hempty := h.pushCluster hfree hempty
  pushRuleList _ _ h hfree := h.pushRuleList hfree.1 hfree.2
  pushRule _ _ h hfree := h.pushRule hfree.1 hfree.2
  pushRoute _ _ h hfree := { h with routes := h.routes.push hfree }
  pushEndPoint _ _ _ h hcl hfree := h.pushEndPoint hcl hfree
  removeListener n _ h := { h with listeners := h.listeners.remove n }
  deleteCluster A b n _ h := h.deleteCluster A b n
  dropRuleList n _ h := h.dropRuleList n
  removeRule n _ h := h.removeRule n
  removeRoute n _ h := { h with routes := h.routes.remove n }
  deleteEndPoint A b n _ h := h.deleteEndPoint A b n
  sessions _ _ h hs := { h with staged := hs h.staged }

theorem Orderly.named {w : Store} (h : w.Orderly) : w.Named :=
  ⟨⟨h.clusters, h.rulelists, h.rules⟩, h.listeners, h.routes, h.endpoints⟩

end Store

namespace Stable

variable {H : Held → Store → Prop} {F : String → Store → Prop} {I : Store → Prop}
  (h : Stable H F I)
include h

/-- Every request keeps the invariant. -/
theorem program (c : Call) (P : Store → Prop)
    (hep : ∀ cl ep, c.request = .addEndPoint cl ep → ep.name = none → ∀ w, P w →
      ∀ b, w.getCluster cl = some b → F (w.endPointName b ep) w) :
    Triple I (Rely I H) (fun w => I w ∧ P w) c.program (fun _ => I) := by
  suffices hkeeps : Keeps I H P c.program (fun _ _ => True) from
    Triple.conseq hkeeps (fun _ => id) (fun _ _ hs => hs.1)
  obtain ⟨A, r⟩ := c
  have hsync {f : Op Store Err} (hf : ∀ w, I w → I (f w).2) :
      Keeps I H P (Add.sync f) (fun _ _ => True) :=
    Keeps.atomic (fun w hw _ => ⟨hf w hw, fun _ _ => trivial⟩)
  have hany {p : Add Unit} (hp : Keeps I H (fun _ => True) p (fun _ _ => True)) :
      Keeps I H P p (fun _ _ => True) := hp.conseq (fun _ _ => trivial) (fun _ _ => id)
  cases r with
  | addListener l => exact hany (h.addListener A l false)
  | addCluster c => exact hany (h.addCluster A c false)
  | addRuleList r => exact hany (h.addRuleList A r false)
  | addRule r => exact hany (h.addRule A r false)
  | addRoute r => exact hany (h.addRoute A r false)
  | addRuleToRuleList list rule pos =>
    refine Keeps.bind (Q := fun _ _ => True) (Keeps.atomic ?_)
      (fun id => h.addRuleToRuleList A id rule pos)
    exact fun w hw _ => ⟨hw, fun _ _ => trivial⟩
  | addEndPoint c ep =>
    apply Keeps.atomic
    intro w hw hP
    refine ⟨h.addEndPoint c ep w hw ?_, fun _ _ => trivial⟩
    intro hnone cl hcl
    exact hep c ep rfl hnone w hP cl hcl
  | deleteListener n b => exact hsync (h.deleteListener A b n)
  | deleteCluster n b => exact hsync (h.deleteCluster A b n)
  | deleteRuleList n b => exact hsync (h.deleteRuleList A b n)
  | deleteRule n b => exact hsync (h.deleteRule A b n)
  | deleteRuleFromRuleList list pos b =>
    apply hsync
    intro w hw
    unfold Store.onRuleList
    split
    · exact hw
    · exact h.deleteRuleFromRuleList A b _ pos w hw
  | deleteRoute n b => exact hsync (h.deleteRoute A b n)
  | deleteEndPoint n b => exact hsync (h.deleteEndPoint A b n)
  | addSession name id origin err st =>
    refine Keeps.modify (fun w hw _ => ⟨h.sessions _ w hw (fun hall s hs => ?_), trivial⟩)
    rcases List.mem_append.mp hs with hs | hs
    · exact hall s hs
    · rw [List.mem_singleton.mp hs]
      exact Session.staged_start ..
  | session k e =>
    refine Keeps.modify (fun w hw _ => ⟨?_, trivial⟩)
    unfold Store.stepSession
    split
    · exact hw
    · rename_i s hs
      split_ifs with hans
      · split
        · exact hw
        · rename_i t ht
          refine h.sessions _ w hw (fun hall u hu => ?_)
          rcases List.mem_or_eq_of_mem_set hu with hu | rfl
          · exact hall u hu
          · exact (hall s (List.mem_of_getElem? hs)).step hans ht
      · exact hw
  | dropSession k =>
    refine Keeps.modify (fun w hw _ => ⟨h.sessions _ w hw (fun hall s hs => ?_), trivial⟩)
    exact hall s (List.mem_of_mem_eraseIdx hs)

end Stable

namespace World

/-- A request that goes on finds the names of the listener and the route that it is adding still
free, and an endpoint without a name is given one that no endpoint has. -/
abbrev Spares : World → Event Call (Option Err) → Prop :=
  Pool.Meets (fun c => Store.Fresh c.request) Store.Free

theorem orderly_reachable {w : World} (h : Run step Spares start w) : w.state.Orderly := by
  refine Pool.invariant (I := Store.Orderly) ?_ ?_ h
  · intro c
    refine Store.stable_orderly.program c _ ?_
    intro cl ep heq hnone w hP b hb
    rw [heq] at hP
    exact hP hnone b hb
  · constructor <;> simp [Store.empty, Distinct]

/-- A run that assumes nothing. -/
theorem meets_always {w : World} (h : Run step always start w) :
    Run step (Pool.Meets (fun _ _ => True) (fun _ _ => True)) start w := by
  refine Run.mono ?_ h
  intro w e _
  cases e with
  | call op => trivial
  | resume j i => exact fun _ _ _ _ => trivial

theorem fewNames_reachable {w : World} (h : Run step always start w) : w.state.FewNames := by
  refine Pool.invariant (I := Store.FewNames) ?_ ?_ (meets_always h)
  · intro c
    exact Store.stable_fewNames.program c _ (fun _ _ _ _ _ _ _ _ => trivial)
  · constructor <;> simp [Store.empty, Distinct]

/-- If no listener or route takes a name that a waiting request holds, and no generated endpoint
name is in use, then no two objects of one collection have the same name. -/
theorem named_of_spares (w : World) (h : Run step Spares start w) : w.state.Named :=
  (orderly_reachable h).named

/-- No session is there to answer. -/
def noAnswers : Answers := ⟨fun _ _ => ⟨true, fun _ => none, fun _ => none⟩, fun _ _ => false⟩

/-- A listener with an inline rulelist. -/
def inlineListener (n : String) (rules : List RuleArg) : Event Call (Option Err) :=
  .call ⟨noAnswers, .addListener ⟨.plain, some n, .ok .test, .ok (.inline rules)⟩⟩

/-- Two listeners of a static configuration, loaded at the same time. -/
def staticConfig (n n' : String) : List (Event Call (Option Err)) :=
  [inlineListener n [], inlineListener n' [], .resume 0 none, .resume 0 none]

theorem named_of_spares_listeners : ∃ w, exec step Spares start (staticConfig "l" "k") = some w ∧
    w.state.Named ∧ w.state.listeners.map Listener.name = ["l", "k"] ∧
    w.state.rulelists.map RuleList.name = ["l-RuleList-0", "k-RuleList-1"] := by
  obtain ⟨w, hw⟩ : ∃ w, exec step Spares start (staticConfig "l" "k") = some w := ⟨_, rfl⟩
  refine ⟨w, hw, named_of_spares w (exec_run _ _ _ hw), ?_, ?_⟩
  · cases hw
    decide
  · cases hw
    decide

/-- Both calls find the name free before either pushes its listener. -/
theorem concurrent_listeners_clash : ¬∀ w, Run step always start w → w.state.Named := by
  intro h
  obtain ⟨w, hw⟩ : ∃ w, exec step always start (staticConfig "l" "l") = some w := ⟨_, rfl⟩
  have hnamed := (h w (exec_run _ _ _ hw)).listeners
  cases hw
  revert hnamed
  decide

end World
end L7mp
