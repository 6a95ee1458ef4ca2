import L7mp.StoreHierarchy
import L7mp.StoreSevered

/-! What the recursive delete functions do to the configuration: each removes exactly what it
follows the references to, where sessions do not stand in the way. -/
namespace L7mp
open Aborting Clearing Config KeyedList

namespace Session

/-- What a deletion reads of a stage. -/
def outlineOf (st : Stage) : Option EndPointRef × String := (st.endpoint, st.origin)

/-- What a deletion reads of the stages. -/
def outline (s : Session) : Option (Option EndPointRef × String) ×
    List (Option EndPointRef × String) × List (Option EndPointRef × String) :=
  (s.destination.map outlineOf, s.ingress.map outlineOf, s.egress.map outlineOf)

variable {s t : Session}

theorem forall_outline {l l' : List Stage} (h : l.map outlineOf = l'.map outlineOf)
    {p : Option EndPointRef × String → Prop} (hl : ∀ st ∈ l, p (outlineOf st)) :
    ∀ st ∈ l', p (outlineOf st) := by
  intro st hst
  have hmem : outlineOf st ∈ l.map outlineOf := by
    rw [h]
    exact List.mem_map_of_mem hst
  obtain ⟨st₀, hst₀, heq⟩ := List.mem_map.mp hmem
  rw [← heq]
  exact hl st₀ hst₀

theorem stages_of_outline (h : t.outline = s.outline) :
    t.clusterStages.map outlineOf = s.clusterStages.map outlineOf := by
  obtain ⟨hdest, hrest⟩ := Prod.ext_iff.mp h
  obtain ⟨hingress, hegress⟩ := Prod.ext_iff.mp hrest
  change t.destination.map outlineOf = s.destination.map outlineOf at hdest
  change t.ingress.map outlineOf = s.ingress.map outlineOf at hingress
  change t.egress.map outlineOf = s.egress.map outlineOf at hegress
  have htoList : ∀ u : Session, u.destination.toList.map outlineOf =
      (u.destination.map outlineOf).toList := by
    intro u
    cases u.destination <;> rfl
  simp only [clusterStages, List.map_append, htoList, hdest, hingress, hegress]

/-- Whether a cluster can be deleted is a matter of the outline. -/
theorem closable_of_outline {n : String} {ns : List String} (h : t.outline = s.outline)
    (hs : s.Closable n ns) : t.Closable n ns := by
  obtain ⟨hrouted, hready, hstrangers⟩ := hs
  have hdest : t.destination.map outlineOf = s.destination.map outlineOf := congrArg Prod.fst h
  have hchain : (s.ingress ++ s.egress).map outlineOf = (t.ingress ++ t.egress).map outlineOf := by
    have hingress : t.ingress.map outlineOf = s.ingress.map outlineOf :=
      congrArg (fun o => o.2.1) h
    have hegress : t.egress.map outlineOf = s.egress.map outlineOf := congrArg (fun o => o.2.2) h
    rw [List.map_append, List.map_append, hingress, hegress]
  have hstages := stages_of_outline h
  have hrouted' : t.destination ≠ none := by
    intro hnone
    apply hrouted
    rw [hnone] at hdest
    exact Option.map_eq_none_iff.mp hdest.symm
  refine ⟨hrouted', ?_, ?_⟩
  · intro hns
    refine ⟨hrouted', ?_⟩
    exact forall_outline (p := fun o => o.1 ≠ none) hchain (hready hns).connected
  · intro hunused m hm
    have hunused' : ¬ s.Uses n := by
      intro hused
      obtain ⟨st, hst, hn⟩ := hused
      obtain ⟨st', hst', heq⟩ := List.mem_map.mp (hstages.symm ▸ List.mem_map_of_mem hst :
        outlineOf st ∈ t.clusterStages.map outlineOf)
      obtain ⟨hep, horigin⟩ := Prod.ext_iff.mp heq
      change st'.endpoint = st.endpoint at hep
      change st'.origin = st.origin at horigin
      refine hunused ⟨st', hst', ?_⟩
      rw [hep, horigin]
      exact hn
    exact forall_outline (p := fun o => o.1.any (fun ep => ep.name = m) = false) hstages.symm
      (hstrangers hunused' m hm)

theorem outline_end_ (s : Session) : s.end_.outline = s.outline := by
  have hlayout := (severed_end_ s).layout
  have hdest : s.end_.destination = s.destination.map Stage.destroyed :=
    congrArg (fun l => l.2.2.2) hlayout
  have hdestroyed : ∀ st : Stage, outlineOf st.destroyed = outlineOf st := by
    intro st
    unfold Stage.destroyed
    split_ifs <;> rfl
  unfold outline
  rw [hdest, (severed_end_ s).ingress, (severed_end_ s).egress, List.map_map, List.map_map,
    Option.map_map]
  simp only [Function.comp_def, hdestroyed]

/-- A session that a cluster can be deleted from is left with the same outline. -/
theorem closeFrom_outline (hs : s.Staged) (A : Answers) {n : String} {ns : List String}
    (h : s.Closable n ns) : (s.closeFrom A n ns).1 = .ok () ∧
      (s.closeFrom A n ns).2.outline = s.outline := by
  obtain ⟨hrouted, hready, hstrangers⟩ := h
  by_cases hu : s.Uses n
  · rw [closeFrom_of_uses hs A ns hrouted hu]
    obtain ⟨hok, hlayout, -⟩ := forEach_quiet hs.end_.ids (fun st hst => (off_end_ s st hst).2) A
      (fun hns => ready_end_.mpr (hready hns))
    refine ⟨hok, ?_⟩
    rw [← outline_end_ s]
    exact congrArg (fun l => (l.2.2.2.map outlineOf, l.2.1.map outlineOf, l.2.2.1.map outlineOf))
      hlayout
  · rw [closeFrom_of_not_uses hs A ns hrouted hu, forEach_no_hits A hready (hstrangers hu)]
    exact ⟨rfl, rfl⟩

end Session

namespace Store

/-- What a deletion of a cluster leaves alone. -/
def frame (w : Store) :
    List Rule × List Route × List Listener × List RuleList × List RuleList :=
  (w.rules, w.routes, w.listeners, w.rulelists, w.detached)

theorem frame_deleteEndPoint (A : Answers) (b : Bool) (n : String) (w : Store) :
    (w.deleteEndPoint A b n).2.frame = w.frame := by
  unfold Store.deleteEndPoint
  split
  · rfl
  · split
    · rfl
    · split <;> rfl

theorem frame_deleteCluster (A : Answers) (b : Bool) (n : String) (w : Store) :
    (w.deleteCluster A b n).2.frame = w.frame := by
  unfold Store.deleteCluster
  split
  · rfl
  · refine seq_keeps (I := fun u : Store => u.frame = w.frame) ?_ (fun u hu => ?_) rfl
    · intro u hu
      split <;> exact hu
    · refine seq_keeps (I := fun u : Store => u.frame = w.frame) ?_ (fun _ hu => hu) hu
      intro u hu
      exact forEach_keeps (I := fun u : Store => u.frame = w.frame)
        (fun m v hv => (frame_deleteEndPoint A b m v).trans hv) _ hu

/-- The endpoints that go belong to one cluster, so that the others do not change. -/
theorem clusters_forEach (A : Answers) {n : String} (ns : List String) {w : Store}
    (hown : ∀ e ∈ w.endpoints, e.name ∈ ns → e.cluster = n) :
    (forEach (Store.deleteEndPoint A true) ns w).2.clusters.filter (fun c => c.name ≠ n) =
      w.clusters.filter (fun c => c.name ≠ n) := by
  induction ns generalizing w with
  | nil => rfl
  | cons m ns ih =>
    have hstep : (w.deleteEndPoint A true m).2.clusters.filter (fun c => c.name ≠ n) =
        w.clusters.filter (fun c => c.name ≠ n) ∧
        ∀ e ∈ (w.deleteEndPoint A true m).2.endpoints, e ∈ w.endpoints := by
      unfold Store.deleteEndPoint
      split
      · exact ⟨rfl, fun _ he => he⟩
      · rename_i ep hep
        obtain ⟨hmem, hname⟩ := lookup_some hep
        have hcluster : ep.cluster = n :=
          hown ep hmem (by rw [hname]; exact List.mem_cons_self)
        split
        · exact ⟨rfl, fun _ he => he⟩
        · refine ⟨?_, fun e he => List.eraseP_subset he⟩
          show (modify Cluster.name ep.cluster (Cluster.deleteEndPoint m) w.clusters).filter _ = _
          rw [hcluster]
          have hkeep : ∀ c : Cluster, (c.deleteEndPoint m).name = c.name := fun _ => rfl
          exact filter_modify hkeep n w.clusters
    obtain ⟨hclusters, hsubset⟩ := hstep
    rw [forEach]
    unfold Aborting.seq
    rcases hr : w.deleteEndPoint A true m with ⟨_ | ⟨⟩, t⟩
    · rw [hr] at hclusters
      exact hclusters
    · rw [hr] at hclusters hsubset
      rw [← hclusters]
      apply ih
      intro e he hmem
      exact hown e (hsubset e he) (List.mem_cons_of_mem m hmem)

/-- A recursive deletion of a cluster that returns. -/
theorem clusters_deleteCluster {w : Store} (h : w.Orderly) (A : Answers) {cl : Cluster}
    (hcl : w.getCluster cl.name = some cl) (hok : (w.deleteCluster A true cl.name).1 = .ok ()) :
    (w.deleteCluster A true cl.name).2.clusters =
      w.clusters.filter (fun c => c.name ≠ cl.name) := by
  rw [deleteCluster_run A hcl] at hok ⊢
  obtain ⟨hfirst, hrest⟩ := seq_ok.mp hok
  obtain ⟨hsecond, -⟩ := seq_ok.mp hrest
  rw [seq_state hfirst, seq_state hsecond]
  have hended : (onSessions (Session.endTraversing cl.name) w).2.Orderly :=
    h.onSessions (fun _ hs => hs.endTraversing cl.name)
  have horderly := hended.forEach A true (cl.endpoints.map EndPoint.name)
  have hmem := (lookup_some hcl).1
  show remove Cluster.name cl.name _ = _
  rw [horderly.clusters.remove_eq_filter]
  apply clusters_forEach
  intro e he hin
  obtain ⟨e', he', hname⟩ := List.mem_map.mp hin
  rw [h.mirror cl hmem] at he'
  obtain ⟨he', hcluster⟩ := List.mem_filter.mp he'
  have heq : e = e' := h.endpoints.eq he he' hname.symm
  rw [heq]
  exact of_decide_eq_true hcluster

/-! ### What is gone -/

/-- The store at a point of a deletion that started with configuration `c`: the objects of `S`
are gone, and the sessions can do without the clusters of `D`. -/
structure Cleared (c : Config) (D : Set Node)
    (R : List Listener × List RuleList × List RuleList) (S : Set Node) (w : Store) : Prop where
  orderly : w.Orderly
  clusters : w.clusters = outside (fun cl => .cluster cl.name) S c.clusters
  rules : w.rules = outside (fun r => .rule r.name) S c.rules
  routes : w.routes = outside (fun r => .route r.name) S c.routes
  endpoints : w.endpoints = outside (fun e => .endpoint e.name) S c.endpoints
  lists : (w.listeners, w.rulelists, w.detached) = R
  free : ∀ cl ∈ c.clusters, Node.cluster cl.name ∈ D →
    ∀ s ∈ w.sessions, s.Closable cl.name (cl.endpoints.map EndPoint.name)

variable {w₀ w : Store} {D S : Set Node} {R : List Listener × List RuleList × List RuleList}

/-- What a cluster leads to. -/
theorem mem_reached_cluster (h₀ : w₀.Orderly) {cl : Cluster} (hcl : cl ∈ w₀.clusters) (b : Node) :
    b ∈ w₀.toConfig.reached w₀.toConfig.Followed (.cluster cl.name) ↔
      b = .cluster cl.name ∨ ∃ m ∈ cl.endpoints.map EndPoint.name, b = .endpoint m := by
  rw [reached_eq]
  have hend : ∀ m, w₀.toConfig.reached w₀.toConfig.Followed (.endpoint m) = {.endpoint m} := by
    intro m
    apply Set.eq_singleton_iff_unique_mem.mpr
    refine ⟨self_mem_reached, ?_⟩
    intro b hb
    rcases rank_of_reached hb with heq | hlt
    · exact heq
    · exact absurd hlt (Nat.not_lt_zero _)
  constructor
  · rintro (⟨m, hrefers, hfollowed, hb⟩ | hb)
    · cases m with
      | endpoint m =>
        obtain ⟨cl', hcl', hname, hm⟩ := hrefers
        have heq : cl' = cl := h₀.clusters.eq hcl' hcl hname
        rw [hend m] at hb
        rw [heq] at hm
        exact Or.inr ⟨m, hm, hb⟩
      | _ => exact hrefers.elim
    · exact Or.inl hb
  · rintro (hb | ⟨m, hm, hb⟩)
    · exact Or.inr hb
    · left
      refine ⟨.endpoint m, ⟨cl, hcl, rfl, hm⟩, ?_, ?_⟩
      · obtain ⟨e, he, hname⟩ := List.mem_map.mp hm
        rw [h₀.mirror cl hcl] at he
        exact ⟨e, List.mem_of_mem_filter he, hname⟩
      · rw [hend m]
        exact hb

/-- The endpoints of a cluster can be deleted one after the other. -/
theorem Orderly.consumes (h : w.Orderly) {cl : Cluster} (hcl : cl ∈ w.clusters) :
    Consumes EndPoint.name w.Owned (cl.endpoints.map EndPoint.name) w.endpoints := by
  have hlist : cl.endpoints = w.endpoints.filter (fun e => e.cluster = cl.name) := h.mirror cl hcl
  have hdistinct : Distinct EndPoint.name cl.endpoints := by
    rw [hlist]
    exact h.endpoints.filter _
  refine ((consumes_iff EndPoint.name w.Owned (cl.endpoints.map EndPoint.name) w.endpoints
    (fun _ => id)).mpr ⟨?_, ?_⟩).1
  · intro k hk
    have hk' : k ∈ w.endpoints.map EndPoint.name := by
      rw [hlist] at hk
      exact (List.filter_sublist.map EndPoint.name).subset hk
    rw [List.count_eq_one_of_mem h.endpoints hk', List.count_eq_one_of_mem hdistinct hk]
  · intro e he _
    obtain ⟨c, hc, hname⟩ := h.owned e he
    exact List.mem_map.mpr ⟨c, hc, hname⟩

/-- A cluster that is still there goes with its endpoints. -/
theorem deleteCluster_cleared (h₀ : w₀.Orderly) (A : Answers) {cl : Cluster}
    (hcl : cl ∈ w₀.clusters) (hD : Node.cluster cl.name ∈ D) (hS : Node.cluster cl.name ∉ S)
    (h : Cleared w₀.toConfig D R S w) : (w.deleteCluster A true cl.name).1 = .ok () ∧
      Cleared w₀.toConfig D R
        (S ∪ w₀.toConfig.reached w₀.toConfig.Followed (.cluster cl.name))
        (w.deleteCluster A true cl.name).2 := by
  have hmem : cl ∈ w.clusters := by
    rw [h.clusters]
    exact mem_outside.mpr ⟨hcl, hS⟩
  have hget : w.getCluster cl.name = some cl := h.orderly.clusters.lookup hmem
  obtain ⟨hiff, hstate⟩ := deleteCluster_returns A hget
  have hleft := fun s hs =>
    Session.closeFrom_outline (h.orderly.staged s hs) A (h.free cl hcl hD s hs)
  have hok : (w.deleteCluster A true cl.name).1 = .ok () :=
    hiff.mpr ⟨h.orderly.consumes hmem, fun s hs => (hleft s hs).1⟩
  obtain ⟨hsessions, hendpoints, -⟩ := hstate hok
  have hframe := frame_deleteCluster A true cl.name w
  have hreached := mem_reached_cluster h₀ hcl
  refine ⟨hok, ?_⟩
  constructor
  case orderly => exact h.orderly.deleteCluster A true cl.name
  case clusters =>
    rw [clusters_deleteCluster h.orderly A hget hok, h.clusters]
    apply filter_outside
    intro c _
    rw [hreached]
    simp
  case rules =>
    have hrules : (w.deleteCluster A true cl.name).2.rules = w.rules := congrArg Prod.fst hframe
    rw [hrules, h.rules]
    apply outside_congr
    intro r _
    simp [hreached]
  case routes =>
    have hroutes : (w.deleteCluster A true cl.name).2.routes = w.routes :=
      congrArg (fun f => f.2.1) hframe
    rw [hroutes, h.routes]
    apply outside_congr
    intro r _
    simp [hreached]
  case endpoints =>
    rw [hendpoints, h.orderly.endpoints.removeAll_eq_filter, h.endpoints]
    apply filter_outside
    intro e _
    simp [hreached]
  case lists => exact (congrArg (fun f => f.2.2) hframe).trans h.lists
  case free =>
    intro c hc hcD s hs
    rw [hsessions] at hs
    obtain ⟨s₀, hs₀, rfl⟩ := List.mem_map.mp hs
    exact Session.closable_of_outline (hleft s₀ hs₀).2 (h.free c hc hcD s₀ hs₀)

theorem Cleared.removeRoute {c : Config} (h : Cleared c D R S w) (hc : Distinct Route.name c.routes)
    (n : String) : Cleared c D R (S ∪ {Node.route n})
      { w with routes := remove Route.name n w.routes } where
  orderly := stable_orderly.removeRoute n w h.orderly
  clusters := h.clusters.trans (outside_union (by simp)).symm
  rules := h.rules.trans (outside_union (by simp)).symm
  routes := by
    show remove Route.name n w.routes = _
    rw [h.routes]
    apply remove_outside hc
    simp
  endpoints := h.endpoints.trans (outside_union (by simp)).symm
  lists := h.lists
  free := h.free

theorem Cleared.removeRule {c : Config} (h : Cleared c D R S w) (hc : Distinct Rule.name c.rules)
    (n : String) : Cleared c D R (S ∪ {Node.rule n})
      { w with rules := remove Rule.name n w.rules } where
  orderly := h.orderly.removeRule n
  clusters := h.clusters.trans (outside_union (by simp)).symm
  rules := by
    show remove Rule.name n w.rules = _
    rw [h.rules]
    apply remove_outside hc
    simp
  routes := h.routes.trans (outside_union (by simp)).symm
  endpoints := h.endpoints.trans (outside_union (by simp)).symm
  lists := h.lists
  free := h.free

/-- A function that deletes an object just when it is still there and followed. -/
theorem taken_clears {a : Node} {f : Op Store Err} (g : Op Store Err)
    (hskip : ∀ S w, Cleared w₀.toConfig D R S w → ¬ w₀.toConfig.Followed a ∨ a ∈ S →
      f w = (.ok (), w))
    (hrun : ∀ S w, Cleared w₀.toConfig D R S w → w₀.toConfig.Followed a → a ∉ S → f w = g w)
    (hg : ∀ S w, Closed (w₀.toConfig.Next w₀.toConfig.Followed) S →
      Cleared w₀.toConfig D R S w → w₀.toConfig.Followed a → a ∉ S → (g w).1 = .ok () ∧
        Cleared w₀.toConfig D R (S ∪ w₀.toConfig.reached w₀.toConfig.Followed a) (g w).2) :
    Clears (w₀.toConfig.Next w₀.toConfig.Followed) (Cleared w₀.toConfig D R) f
      (w₀.toConfig.taken w₀.toConfig.Followed a) := by
  intro S w hS h
  by_cases hF : w₀.toConfig.Followed a
  · by_cases hmem : a ∈ S
    · rw [hskip S w h (Or.inr hmem), Set.union_eq_self_of_subset_right (taken_subset hS hmem)]
      exact ⟨rfl, h⟩
    · rw [hrun S w h hF hmem, taken_eq_reached hF]
      exact hg S w hS h hF hmem
  · rw [hskip S w h (Or.inl hF), taken_eq_empty hF, Set.union_empty]
    exact ⟨rfl, h⟩

section Functions

variable (h₀ : w₀.Orderly) (A : Answers)
include h₀

/-- A cluster that a route refers to goes if it is there and was generated. -/
theorem deleteGeneratedCluster_clears {n : String}
    (hD : w₀.toConfig.taken w₀.toConfig.Followed (.cluster n) ⊆ D) :
    Clears (w₀.toConfig.Next w₀.toConfig.Followed) (Cleared w₀.toConfig D R)
      (Store.deleteGeneratedCluster A true n)
      (w₀.toConfig.taken w₀.toConfig.Followed (.cluster n)) := by
  have hget : ∀ {S w c}, Cleared w₀.toConfig D R S w → (w.getCluster n = some c ↔
      c ∈ w₀.clusters ∧ Node.cluster c.name ∉ S ∧ c.name = n) := by
    intro S w c h
    rw [getCluster, h.clusters]
    exact lookup_outside h₀.clusters
  apply taken_clears (Store.deleteCluster A true n)
  · intro S w h hgone
    unfold Store.deleteGeneratedCluster
    split
    · rename_i c hc
      obtain ⟨hmem, hnot, hname⟩ := (hget h).mp hc
      have hauto : ¬ c.autogenerated = true := by
        intro hauto
        rw [hname] at hnot
        rcases hgone with hF | hS
        · exact hF ⟨c, hmem, hname, hauto⟩
        · exact hnot hS
      rw [if_neg hauto]
    · rfl
  · rintro S w h ⟨c, hmem, hname, hauto⟩ hnot
    have hc : w.getCluster n = some c := (hget h).mpr ⟨hmem, by rwa [hname], hname⟩
    simp only [Store.deleteGeneratedCluster, hc, hauto, if_true]
  · rintro S w hS h ⟨c, hmem, hname, hauto⟩ hnot
    rw [taken_eq_reached ⟨c, hmem, hname, hauto⟩] at hD
    subst hname
    exact deleteCluster_cleared h₀ A hmem (hD self_mem_reached) hnot h

/-- A route that is still there goes with the clusters that were generated for it. -/
theorem deleteRoute_cleared {r : Route} (hr : r ∈ w₀.routes) (hS : Closed (w₀.toConfig.Next
      w₀.toConfig.Followed) S) (hD : w₀.toConfig.reached w₀.toConfig.Followed (.route r.name) ⊆ D)
    (hnot : Node.route r.name ∉ S) (h : Cleared w₀.toConfig D R S w) :
    (w.deleteRoute A true r.name).1 = .ok () ∧ Cleared w₀.toConfig D R
      (S ∪ w₀.toConfig.reached w₀.toConfig.Followed (.route r.name))
      (w.deleteRoute A true r.name).2 := by
  have hget : w.getRoute r.name = some r := by
    apply Distinct.lookup
    · rw [h.routes]
      exact Distinct.outside h₀.routes S
    · rw [h.routes]
      exact mem_outside.mpr ⟨hr, hnot⟩
  have hrefers : ∀ m, w₀.toConfig.Refers (.route r.name) (.cluster m) ↔
      m ∈ r.destination :: (r.ingress ++ r.egress) := by
    intro m
    constructor
    · rintro ⟨r', hr', hname, hm⟩
      rwa [h₀.routes.eq hr' hr hname] at hm
    · intro hm
      exact ⟨r, hr, rfl, hm⟩
  have hclears := @clears_forEach _ (w₀.toConfig.Next w₀.toConfig.Followed) _ _ _
    (Cleared w₀.toConfig D R) (Store.deleteGeneratedCluster A true)
    (fun m => w₀.toConfig.taken w₀.toConfig.Followed (.cluster m))
    (fun m => closed_taken (.cluster m)) (r.destination :: (r.ingress ++ r.egress))
    (fun m hm => deleteGeneratedCluster_clears h₀ A
      ((taken_subset_reached ((hrefers m).mpr hm)).trans hD))
  obtain ⟨hok, hcleared⟩ := hclears S w hS h
  -- the references of the route are its clusters
  have hset : {b | ∃ m ∈ r.destination :: (r.ingress ++ r.egress),
      b ∈ w₀.toConfig.taken w₀.toConfig.Followed (.cluster m)} =
      {b | ∃ m, w₀.toConfig.Refers (.route r.name) m ∧
        b ∈ w₀.toConfig.taken w₀.toConfig.Followed m} := by
    ext b
    constructor
    · rintro ⟨m, hm, hb⟩
      exact ⟨.cluster m, (hrefers m).mpr hm, hb⟩
    · rintro ⟨m, hm, hb⟩
      cases m with
      | cluster m => exact ⟨m, (hrefers m).mp hm, hb⟩
      | _ => exact hm.elim
  have hrun : w.deleteRoute A true r.name = seq
      (forEach (Store.deleteGeneratedCluster A true) (r.destination :: (r.ingress ++ r.egress)))
      (update (fun w => { w with routes := remove Route.name r.name w.routes })) w := by
    simp only [Store.deleteRoute, hget, if_true]
  rw [hrun, seq_ok, seq_state hok, reached_eq, ← hset, ← Set.union_assoc]
  exact ⟨⟨hok, rfl⟩, hcleared.removeRoute h₀.routes r.name⟩

/-- A route that a rule refers to goes if it is there and was generated. -/
theorem deleteGeneratedRoute_clears {n : String}
    (hD : w₀.toConfig.taken w₀.toConfig.Followed (.route n) ⊆ D) :
    Clears (w₀.toConfig.Next w₀.toConfig.Followed) (Cleared w₀.toConfig D R)
      (Store.deleteGeneratedRoute A true n)
      (w₀.toConfig.taken w₀.toConfig.Followed (.route n)) := by
  have hget : ∀ {S w r}, Cleared w₀.toConfig D R S w → (w.getRoute n = some r ↔
      r ∈ w₀.routes ∧ Node.route r.name ∉ S ∧ r.name = n) := by
    intro S w r h
    rw [getRoute, h.routes]
    exact lookup_outside h₀.routes
  apply taken_clears (Store.deleteRoute A true n)
  · intro S w h hgone
    unfold Store.deleteGeneratedRoute
    split
    · rename_i r hr
      obtain ⟨hmem, hnot, hname⟩ := (hget h).mp hr
      have hauto : ¬ r.autogenerated = true := by
        intro hauto
        rw [hname] at hnot
        rcases hgone with hF | hS
        · exact hF ⟨r, hmem, hname, hauto⟩
        · exact hnot hS
      rw [if_neg hauto]
    · rfl
  · rintro S w h ⟨r, hmem, hname, hauto⟩ hnot
    have hr : w.getRoute n = some r := (hget h).mpr ⟨hmem, by rwa [hname], hname⟩
    simp only [Store.deleteGeneratedRoute, hr, hauto, if_true]
  · rintro S w hS h ⟨r, hmem, hname, hauto⟩ hnot
    rw [taken_eq_reached ⟨r, hmem, hname, hauto⟩] at hD
    subst hname
    exact deleteRoute_cleared h₀ A hmem hS hD hnot h

/-- The one reference of a rule is its route, if that has a name. -/
theorem deleteRouteOf_clears {r : Rule} (hr : r ∈ w₀.rules)
    (hD : w₀.toConfig.reached w₀.toConfig.Followed (.rule r.name) ⊆ D) :
    Clears (w₀.toConfig.Next w₀.toConfig.Followed) (Cleared w₀.toConfig D R)
      (Store.deleteRouteOf A true r.route) {b | ∃ m, w₀.toConfig.Refers (.rule r.name) m ∧
        b ∈ w₀.toConfig.taken w₀.toConfig.Followed m} := by
  have hrefers : ∀ m, w₀.toConfig.Refers (.rule r.name) (.route m) ↔ r.route = .named m := by
    intro m
    constructor
    · rintro ⟨r', hr', hname, hm⟩
      rwa [h₀.rules.eq hr' hr hname] at hm
    · intro hm
      exact ⟨r, hr, rfl, hm⟩
  rcases hroute : r.route with _ | _ | m
  case named =>
    have hset : {b | ∃ m, w₀.toConfig.Refers (.rule r.name) m ∧
        b ∈ w₀.toConfig.taken w₀.toConfig.Followed m} =
        w₀.toConfig.taken w₀.toConfig.Followed (.route m) := by
      ext b
      constructor
      · rintro ⟨m', hm', hb⟩
        cases m' with
        | route m' =>
          rw [hrefers, hroute] at hm'
          cases hm'
          exact hb
        | _ => exact hm'.elim
      · intro hb
        exact ⟨.route m, (hrefers m).mpr hroute, hb⟩
    rw [hset]
    apply deleteGeneratedRoute_clears h₀ A
    exact (taken_subset_reached ((hrefers m).mpr hroute)).trans hD
  all_goals
    have hset : {b | ∃ m, w₀.toConfig.Refers (.rule r.name) m ∧
        b ∈ w₀.toConfig.taken w₀.toConfig.Followed m} = ∅ := by
      apply Set.eq_empty_of_forall_notMem
      rintro b ⟨m', hm', -⟩
      cases m' with
      | route m' =>
        rw [hrefers, hroute] at hm'
        cases hm'
      | _ => exact hm'.elim
    rw [hset]
    exact clears_skip

/-- A rule that is still there goes with the route that was generated for it. -/
theorem deleteRule_cleared {r : Rule} (hr : r ∈ w₀.rules) (hS : Closed (w₀.toConfig.Next
      w₀.toConfig.Followed) S) (hD : w₀.toConfig.reached w₀.toConfig.Followed (.rule r.name) ⊆ D)
    (hnot : Node.rule r.name ∉ S) (h : Cleared w₀.toConfig D R S w) :
    (w.deleteRule A true r.name).1 = .ok () ∧ Cleared w₀.toConfig D R
      (S ∪ w₀.toConfig.reached w₀.toConfig.Followed (.rule r.name))
      (w.deleteRule A true r.name).2 := by
  have hget : w.getRule r.name = some r := by
    rw [getRule, h.rules]
    exact (lookup_outside h₀.rules).mpr ⟨hr, hnot, rfl⟩
  obtain ⟨hok, hcleared⟩ := deleteRouteOf_clears h₀ A hr hD S w hS h
  have hrun : w.deleteRule A true r.name = seq (Store.deleteRouteOf A true r.route)
      (update (fun w => { w with rules := remove Rule.name r.name w.rules })) w := by
    simp only [Store.deleteRule, hget, if_true]
  rw [hrun, seq_ok, seq_state hok, reached_eq, ← Set.union_assoc]
  exact ⟨⟨hok, rfl⟩, hcleared.removeRule h₀.rules r.name⟩

end Functions

end Store
end L7mp
