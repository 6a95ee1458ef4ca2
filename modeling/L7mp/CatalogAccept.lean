import L7mp.CatalogDump
import L7mp.CatalogReach

/-! A configuration that is inline throughout and names all its objects, none of them twice, is
taken as it is: the objects are appended to the collections in the order in which they stand in
the configuration. -/
namespace L7mp
open Aborting KeyedList

/-! ### The objects of the definitions -/

def label (name : Option String) : String := name.getD ""

/-- The name that a use stands for. -/
def Use.label {α : Type} (name : α → Option String) : Use α → String
  | .named n => n
  | .inline a => L7mp.label (name a)

def EndPointDef.built (cluster : String) (e : EndPointDef) : Catalog.EndPoint :=
  ⟨label e.name, cluster, e.spec, orElse e.weight (.num (.finite 1))⟩

theorem takes_virtual {p : ClusterProtocol} (hp : p.virtual = true) (spec : Fields) :
    p.takes spec = false := by
  cases p <;> first | rfl | cases hp

/-- The endpoints that the cluster takes. -/
def ClusterDef.taken (c : ClusterDef) : List EndPointDef :=
  c.endpoints.filter (fun e => c.spec.protocol.takes e.spec)

def ClusterDef.built (auto : Bool) (c : ClusterDef) : Catalog.Cluster :=
  { Catalog.makeCluster (label c.name) c auto with
    endpoints := c.taken.map (EndPointDef.built (label c.name)) }

def RouteDef.built (auto : Bool) (r : RouteDef) : Route :=
  Catalog.makeRoute r (label r.name) (r.destination.label ClusterDef.name)
    (r.ingress.map (Use.label ClusterDef.name)) (r.egress.map (Use.label ClusterDef.name)) auto

def builtRoute : Option (Use RouteDef) → RuleRoute
  | none => .absent
  | some u => .named (u.label RouteDef.name)

def RuleDef.built (auto : Bool) (r : RuleDef) : Catalog.Rule :=
  { Catalog.makeRule (label r.name) r auto with route := builtRoute r.route }

/-! ### What can be taken -/

/-- The object has a name that is valid. -/
def Named (name : Option String) : Prop := ∃ n, name = some n ∧ validName n = true

theorem Named.label {name : Option String} (h : Named name) :
    name = some (label name) ∧ validName (L7mp.label name) = true := by
  obtain ⟨n, rfl, hn⟩ := h
  exact ⟨rfl, hn⟩

structure ClusterDef.Sturdy (c : ClusterDef) : Prop where
  name : Named c.name
  creatable : c.creatable = true
  endpoints : ∀ e ∈ c.endpoints, Named e.name

structure ListenerDef.Sturdy (l : ListenerDef) : Prop where
  name : Named l.name
  creatable : createListener l.spec.protocol = .ok ()
  rules : ∀ r ∈ l.ruleDefs, Named r.name
  routes : ∀ r ∈ l.routeDefs, Named r.name
  clusters : ∀ c ∈ l.clusterDefs, c.Sturdy

/-- A rule that is whole, with names and clusters that can be taken. -/
structure RuleDef.Sturdy (r : RuleDef) : Prop where
  name : Named r.name
  whole : ∀ u ∈ r.route, u.isInline = true
  routes : ∀ ro ∈ r.routeDefs, Named ro.name ∧ ∀ u ∈ ro.uses, u.isInline = true
  clusters : ∀ c ∈ r.routeDefs.flatMap RouteDef.clusterDefs, c.Sturdy

theorem ListenerDef.Sturdy.rule {l : ListenerDef} (h : l.Sturdy) (hwhole : l.Whole) {r : RuleDef}
    (hr : r ∈ l.ruleDefs) : r.Sturdy := by
  have hroute {ro : RouteDef} (hro : ro ∈ r.routeDefs) : ro ∈ l.routeDefs :=
    List.mem_flatMap.mpr ⟨r, hr, hro⟩
  refine ⟨h.rules r hr, hwhole.routes r hr, fun ro hro => ?_, fun c hc => ?_⟩
  · exact ⟨h.routes ro (hroute hro), hwhole.clusters ro (hroute hro)⟩
  · obtain ⟨ro, hro, hc⟩ := List.mem_flatMap.mp hc
    exact h.clusters c (List.mem_flatMap.mpr ⟨ro, hroute hro, hc⟩)

namespace Catalog

variable {s t u : Catalog}

/-- The collections with these objects at their ends. -/
def plus (cs : List Cluster) (ros : List Route) (rus : List Rule) (s : Catalog) : Catalog :=
  { s with
    clusters := s.clusters ++ cs
    endpoints := s.endpoints ++ cs.flatMap Cluster.endpoints
    routes := s.routes ++ ros
    rules := s.rules ++ rus }

theorem plus_plus (cs cs' : List Cluster) (ros ros' : List Route) (rus rus' : List Rule)
    (s : Catalog) : (s.plus cs ros rus).plus cs' ros' rus' =
      s.plus (cs ++ cs') (ros ++ ros') (rus ++ rus') := by
  simp [plus, List.append_assoc]

/-- There is room for the objects: their names are not in use and differ. -/
structure Room (cs : List ClusterDef) (ros : List RouteDef) (rus : List RuleDef) (s : Catalog) :
    Prop where
  clusters : (s.clusters.map Cluster.name ++ cs.map (fun c => label c.name)).Nodup
  endpoints : (s.endpoints.map EndPoint.name ++
    (cs.flatMap ClusterDef.taken).map (fun e => label e.name)).Nodup
  routes : (s.routes.map Route.name ++ ros.map (fun r => label r.name)).Nodup
  rules : (s.rules.map Rule.name ++ rus.map (fun r => label r.name)).Nodup

theorem built_names (cs : List ClusterDef) (auto : Bool) :
    (cs.map (ClusterDef.built auto)).map Cluster.name = cs.map (fun c => label c.name) := by
  rw [List.map_map]
  rfl

theorem built_endpoints (cs : List ClusterDef) (auto : Bool) :
    ((cs.map (ClusterDef.built auto)).flatMap Cluster.endpoints).map EndPoint.name =
      (cs.flatMap ClusterDef.taken).map (fun e => label e.name) := by
  induction cs with
  | nil => rfl
  | cons c cs ih =>
    rw [List.map_cons, List.flatMap_cons, List.flatMap_cons, List.map_append, List.map_append, ih]
    congr 1
    change (c.taken.map (EndPointDef.built _)).map EndPoint.name = _
    rw [List.map_map]
    rfl

/-- The first objects leave room for the others. -/
theorem Room.rest {cs cs' : List ClusterDef} {ros ros' : List RouteDef} {rus rus' : List RuleDef}
    (auto : Bool) {built : List Rule} (h : Room (cs ++ cs') (ros ++ ros') (rus ++ rus') s)
    (hbuilt : built.map Rule.name = rus.map (fun r => label r.name)) :
    Room cs' ros' rus' (s.plus (cs.map (ClusterDef.built auto)) (ros.map (RouteDef.built auto))
      built) := by
  refine ⟨?_, ?_, ?_, ?_⟩
  · have := h.clusters
    rw [List.map_append, ← List.append_assoc] at this
    change ((s.clusters ++ _).map Cluster.name ++ _).Nodup
    rw [List.map_append, built_names]
    exact this
  · have := h.endpoints
    rw [List.flatMap_append, List.map_append, ← List.append_assoc] at this
    change ((s.endpoints ++ _).map EndPoint.name ++ _).Nodup
    rw [List.map_append, built_endpoints]
    exact this
  · have := h.routes
    rw [List.map_append, ← List.append_assoc] at this
    change ((s.routes ++ _).map Route.name ++ _).Nodup
    rw [List.map_append, List.map_map]
    exact this
  · have := h.rules
    rw [List.map_append, ← List.append_assoc] at this
    change ((s.rules ++ _).map Rule.name ++ _).Nodup
    rw [List.map_append, hbuilt]
    exact this

theorem Room.first {cs cs' : List ClusterDef} {ros ros' : List RouteDef} {rus rus' : List RuleDef}
    (h : Room (cs ++ cs') (ros ++ ros') (rus ++ rus') s) : Room cs ros rus s := by
  have hsub {α : Type} (l : List String) (f : α → String) (a b : List α)
      (hl : (l ++ (a ++ b).map f).Nodup) : (l ++ a.map f).Nodup := by
    rw [List.map_append, ← List.append_assoc] at hl
    exact hl.of_append_left
  have hendpoints := h.endpoints
  rw [List.flatMap_append] at hendpoints
  exact ⟨hsub _ _ _ _ h.clusters, hsub _ _ _ _ hendpoints, hsub _ _ _ _ h.routes,
    hsub _ _ _ _ h.rules⟩

/-- Clusters alone. -/
theorem Room.chain {cs cs' : List ClusterDef} (auto : Bool) (h : Room (cs ++ cs') [] [] s) :
    Room cs [] [] s ∧ Room cs' [] [] (s.plus (cs.map (ClusterDef.built auto)) [] []) := by
  have h' : Room (cs ++ cs') ([] ++ []) ([] ++ []) s := h
  exact ⟨h'.first, h'.rest auto (rfl : ([] : List Rule).map Rule.name = [])⟩

/-! ### Clusters -/

theorem inlineName_named (k : Kind) (base : String) {n : String} (hn : validName n = true)
    (s : Catalog) :
    s.inlineName k base (some n) = .ok (n, s) := by
  have hne : n ≠ "" := by
    rintro rfl
    exact absurd hn (by decide)
  have hneeds : Store.needsName (some n) = false := by simp [Store.needsName, hne]
  unfold inlineName
  rw [if_neg (by simp [hneeds])]
  rfl

theorem admitName_named {what quoted n : String} {taken : List String} (hn : validName n = true)
    (hfree : n ∉ taken) : admitName what quoted (some n) taken = .ok n := by
  unfold admitName
  dsimp only
  rw [if_neg (by simp [hn]), if_neg hfree]

/-- The loop over the endpoints of a new cluster keeps those that the cluster takes. -/
theorem Topped.addEndPoints_built {cu : Cluster} {eps : List EndPointDef} (h : Topped s cu t)
    (hnamed : ∀ e ∈ eps, Named e.name)
    (hfree : (t.endpoints.map EndPoint.name ++
      (eps.filter (fun e => cu.spec.protocol.takes e.spec)).map (fun e => label e.name)).Nodup) :
    ∃ u, t.addEndPoints cu.name eps = .ok u ∧ u.index = t.index ∧
      Topped s { cu with endpoints := cu.endpoints ++
        (eps.filter (fun e => cu.spec.protocol.takes e.spec)).map (EndPointDef.built cu.name) } u := by
  induction eps generalizing cu t with
  | nil =>
    refine ⟨t, rfl, rfl, ?_⟩
    simpa using h
  | cons e rest ih =>
    obtain ⟨he, hrest⟩ := List.forall_mem_cons.mp hnamed
    obtain ⟨hname, hvalid⟩ := he.label
    have hinline := inlineName_named .endpoint (cu.name ++ "-EndPoint-") hvalid t
    have hadd := h.addEndPoint e (label e.name)
    unfold Catalog.addEndPoints
    rw [hname, hinline]
    dsimp only [bind, Except.bind]
    by_cases htakes : cu.spec.protocol.takes e.spec = true
    · have hfilter : (e :: rest).filter (fun e => cu.spec.protocol.takes e.spec) =
          e :: rest.filter (fun e => cu.spec.protocol.takes e.spec) :=
        List.filter_cons_of_pos htakes
      rw [hfilter] at hfree ⊢
      have hunused : label e.name ∉ t.names.used .endpoint := fun hmem =>
        (List.nodup_append.mp hfree).2.2 _ hmem _ List.mem_cons_self rfl
      have hfits : e.fits cu.spec.protocol (label e.name) t.names = true := by
        simp [EndPointDef.fits, hvalid, hunused, htakes]
      rw [if_pos hfits] at hadd
      rw [hadd]
      let ep : EndPoint := e.built cu.name
      obtain ⟨u, hu, hindex, htop⟩ := ih (h.pushEndPoint (show ep.cluster = cu.name from rfl)) hrest (by
        change ((t.endpoints ++ [ep]).map EndPoint.name ++ _).Nodup
        rw [List.map_append, List.append_assoc]
        exact hfree)
      refine ⟨u, hu, hindex, ?_⟩
      simpa using htop
    · have hfilter : (e :: rest).filter (fun e => cu.spec.protocol.takes e.spec) =
          rest.filter (fun e => cu.spec.protocol.takes e.spec) := List.filter_cons_of_neg htakes
      rw [hfilter] at hfree ⊢
      have hfits : e.fits cu.spec.protocol (label e.name) t.names = false := by
        simp [EndPointDef.fits, htakes]
      rw [if_neg (by simp [hfits])] at hadd
      obtain ⟨err, herr⟩ := hadd
      rw [herr]
      exact ih h hrest hfree

theorem addCluster_built {c : ClusterDef} (auto : Bool) (hc : c.Sturdy) (h : Room [c] [] [] s) :
    addCluster Starts.all c auto s = .ok (s.plus [c.built auto] [] []) := by
  obtain ⟨hname, hvalid⟩ := hc.name.label
  have hunused : label c.name ∉ s.clusters.map Cluster.name := fun hmem =>
    (List.nodup_append.mp h.clusters).2.2 _ hmem _ List.mem_cons_self rfl
  have hcreate : createCluster (c.loadbalancer.map LoadBalancerDef.policy) c.spec.protocol =
      .ok () := by
    have := hc.creatable
    unfold ClusterDef.creatable at this
    cases hr : createCluster (c.loadbalancer.map LoadBalancerDef.policy) c.spec.protocol with
    | error e =>
      rw [hr] at this
      cases this
    | ok u => rfl
  have hallow : admitName "cluster" "Cluster" c.name (s.used .cluster) = .ok (label c.name) := by
    rw [hname]
    exact admitName_named hvalid hunused
  let cu := makeCluster (label c.name) c auto
  have htop : Topped s cu (s.pushCluster cu) := by
    refine ⟨?_, hunused⟩
    change _ = ({ s with clusters := _, endpoints := s.endpoints ++ [], index := s.index } : Catalog)
    rw [List.append_nil]
    rfl
  obtain ⟨u, hu, hindex, htop'⟩ := htop.addEndPoints_built hc.endpoints (by
    have := h.endpoints
    rw [List.flatMap_cons, List.flatMap_nil, List.append_nil] at this
    exact this)
  unfold addCluster
  rw [hallow]
  change (createCluster _ _ >>= fun _ => _) = _
  rw [hcreate]
  change ((s.pushCluster cu).addEndPoints cu.name c.endpoints >>= fun _ => _) = _
  rw [hu]
  change Except.ok u = _
  rw [htop'.eq, hindex]
  simp [plus, ClusterDef.built, ClusterDef.taken, cu, makeCluster, pushCluster,
    ClusterSettings.made]

/-- One direction of the chain of a route, and its destination: all clusters are inline. -/
theorem addRouteCluster_built (base : String) {u : Use ClusterDef} (hu : u.isInline = true)
    (hc : ∀ c ∈ u.toList, c.Sturdy) (h : Room u.toList [] [] s) :
    addRouteCluster Starts.all base u s =
      .ok (u.label ClusterDef.name, s.plus (u.toList.map (ClusterDef.built true)) [] []) := by
  cases u with
  | named n => cases hu
  | inline c =>
    have hsturdy : c.Sturdy := hc c List.mem_cons_self
    obtain ⟨hname, hvalid⟩ := hsturdy.name.label
    have hinline := inlineName_named .cluster base hvalid s
    unfold addRouteCluster
    dsimp only
    rw [hname, hinline]
    change (addCluster Starts.all { c with name := some (label c.name) } true s >>= fun _ => _) = _
    rw [← hname, addCluster_built true hsturdy h]
    rfl

theorem addRouteChain_built (base : String) {us : List (Use ClusterDef)}
    (hus : ∀ u ∈ us, u.isInline = true) (hc : ∀ c ∈ us.flatMap Use.toList, c.Sturdy)
    (h : Room (us.flatMap Use.toList) [] [] s) :
    addRouteChain Starts.all base us s = .ok (us.map (Use.label ClusterDef.name),
      s.plus ((us.flatMap Use.toList).map (ClusterDef.built true)) [] []) := by
  induction us generalizing s with
  | nil =>
    simp [addRouteChain, plus]
  | cons u rest ih =>
    obtain ⟨hu, hrest⟩ := List.forall_mem_cons.mp hus
    rw [List.flatMap_cons] at hc h ⊢
    obtain ⟨hhead, htail⟩ := h.chain true
    have hfirst := addRouteCluster_built base hu
      (fun c hmem => hc c (List.mem_append_left _ hmem)) hhead
    have hnext := ih hrest (fun c hmem => hc c (List.mem_append_right _ hmem)) htail
    unfold addRouteChain
    rw [hfirst]
    change (addRouteChain Starts.all base rest _ >>= fun _ => _) = _
    rw [hnext]
    change Except.ok (_, _) = _
    rw [plus_plus, List.map_append]
    rfl

/-! ### Routes and rules -/

theorem addRoute_built {r : RouteDef} (auto : Bool) (hr : Named r.name)
    (hwhole : ∀ u ∈ r.uses, u.isInline = true) (hc : ∀ c ∈ r.clusterDefs, c.Sturdy)
    (h : Room r.clusterDefs [r] [] s) :
    addRoute Starts.all r auto s =
      .ok (s.plus (r.clusterDefs.map (ClusterDef.built true)) [r.built auto] []) := by
  obtain ⟨hname, hvalid⟩ := hr.label
  have hunused : label r.name ∉ s.routes.map Route.name := fun hmem =>
    (List.nodup_append.mp h.routes).2.2 _ hmem _ List.mem_cons_self rfl
  have hallow : admitName "route" "Route" r.name (s.used .route) = .ok (label r.name) := by
    rw [hname]
    exact admitName_named hvalid hunused
  have hclusters : r.clusterDefs = r.destination.toList ++
      (r.ingress.flatMap Use.toList ++ r.egress.flatMap Use.toList) := by
    unfold RouteDef.clusterDefs RouteDef.uses
    rw [List.flatMap_cons, List.flatMap_append]
  have hroom : Room r.clusterDefs [] [] s := by
    have h' : Room (r.clusterDefs ++ []) ([] ++ [r]) ([] ++ []) s := by
      rw [List.append_nil]
      exact h
    exact h'.first
  rw [hclusters] at hroom hc ⊢
  obtain ⟨hroom₁, hroom'⟩ := hroom.chain true
  obtain ⟨hroom₂, hroom₃⟩ := hroom'.chain true
  have hdest := addRouteCluster_built (label r.name ++ "-Cluster-")
    (hwhole _ List.mem_cons_self) (fun c hmem => hc c (List.mem_append_left _ hmem)) hroom₁
  have hing := addRouteChain_built (label r.name ++ "-ingress-Cluster-")
    (fun u hmem => hwhole u (List.mem_cons_of_mem _ (List.mem_append_left _ hmem)))
    (fun c hmem => hc c (List.mem_append_right _ (List.mem_append_left _ hmem))) hroom₂
  have heg := addRouteChain_built (label r.name ++ "-egress-Cluster-")
    (fun u hmem => hwhole u (List.mem_cons_of_mem _ (List.mem_append_right _ hmem)))
    (fun c hmem => hc c (List.mem_append_right _ (List.mem_append_right _ hmem))) hroom₃
  unfold addRoute
  rw [hallow]
  change (addRouteCluster Starts.all (label r.name ++ "-Cluster-") r.destination s >>= fun _ => _) = _
  rw [hdest]
  change (addRouteChain Starts.all (label r.name ++ "-ingress-Cluster-") r.ingress _ >>=
    fun _ => _) = _
  rw [hing]
  change (addRouteChain Starts.all (label r.name ++ "-egress-Cluster-") r.egress _ >>=
    fun _ => _) = _
  rw [heg]
  change Except.ok _ = _
  rw [plus_plus, plus_plus]
  simp [plus, pushRoute, RouteDef.built]

theorem addRule_built {r : RuleDef} (auto : Bool) (hr : r.Sturdy)
    (h : Room (r.routeDefs.flatMap RouteDef.clusterDefs) r.routeDefs [r] s) :
    addRule Starts.all r auto s = .ok (s.plus
      ((r.routeDefs.flatMap RouteDef.clusterDefs).map (ClusterDef.built true))
      (r.routeDefs.map (RouteDef.built true)) [r.built auto]) := by
  obtain ⟨hname, hvalid⟩ := hr.name.label
  have hunused : label r.name ∉ s.rules.map Rule.name := fun hmem =>
    (List.nodup_append.mp h.rules).2.2 _ hmem _ List.mem_cons_self rfl
  have hallow : admitName "rule" "Rule" r.name (s.used .rule) = .ok (label r.name) := by
    rw [hname]
    exact admitName_named hvalid hunused
  let ru := makeRule (label r.name) r auto
  have hpush : s.pushRule ru = s.plus [] [] [ru] := by simp [pushRule, plus]
  unfold addRule
  rw [hallow]
  change addRuleRoute Starts.all (label r.name) r.route (s.pushRule ru) = _
  cases hroute : r.route with
  | none =>
    have hdefs : r.routeDefs = [] := by simp [RuleDef.routeDefs, hroute]
    have hbuilt : r.built auto = ru := by simp [RuleDef.built, ru, makeRule, hroute, ruleRoute,
      builtRoute]
    rw [hdefs, hbuilt]
    exact congrArg Except.ok hpush
  | some u => cases u with
    | named n =>
      have := hr.whole (.named n) hroute
      cases this
    | inline ro =>
      have hdefs : r.routeDefs = [ro] := by simp [RuleDef.routeDefs, hroute, Use.toList]
      obtain ⟨hro, hwhole⟩ := hr.routes ro (by rw [hdefs]; exact List.mem_cons_self)
      have hclusters : r.routeDefs.flatMap RouteDef.clusterDefs = ro.clusterDefs := by
        rw [hdefs, List.flatMap_cons, List.flatMap_nil, List.append_nil]
      obtain ⟨hroname, hrovalid⟩ := hro.label
      have hc := hr.clusters
      rw [hclusters] at h hc ⊢
      rw [hdefs] at h ⊢
      have hroom : Room ro.clusterDefs [ro] [] (s.plus [] [] [ru]) := by
        have h' : Room ([] ++ ro.clusterDefs) ([] ++ [ro]) ([r] ++ []) s := h
        exact h'.rest true (rfl : [ru].map Rule.name = _)
      have hadd := addRoute_built true hro hwhole hc hroom
      have hinline := inlineName_named .route (label r.name ++ "-Route-") hrovalid
        (s.pushRule ru)
      unfold addRuleRoute
      dsimp only
      rw [hroname, hinline]
      change (addRoute Starts.all { ro with name := some (label ro.name) } true (s.pushRule ru) >>=
        fun _ => _) = _
      rw [← hroname, hpush, hadd, plus_plus]
      have hmodify := modify_push (a := ru) hunused (fun r => { r with route := .named (label ro.name) })
      have hbuilt : r.built auto = { ru with route := .named (label ro.name) } := by
        simp [RuleDef.built, ru, hroute, builtRoute, Use.label]
      change Except.ok (resolveRoute (label r.name) (label ro.name) _) = _
      rw [hbuilt]
      unfold plus
      rw [← hmodify]
      rfl

/-- All rules of a listener, which are at the end of a rulelist that was pushed last. -/
theorem addRules_built {list : String} {ns : List String} {auto : Bool} {rls : List RuleList}
    {us : List (Use RuleDef)} (hlast : s.rulelists = rls ++ [⟨list, ns, auto⟩])
    (hlist : list ∉ rls.map RuleList.name) (hus : ∀ u ∈ us, u.isInline = true)
    (hr : ∀ r ∈ us.flatMap Use.toList, r.Sturdy)
    (h : Room (((us.flatMap Use.toList).flatMap RuleDef.routeDefs).flatMap RouteDef.clusterDefs)
      ((us.flatMap Use.toList).flatMap RuleDef.routeDefs) (us.flatMap Use.toList) s) :
    addRules Starts.all list ns.length us s = .ok { s.plus
      ((((us.flatMap Use.toList).flatMap RuleDef.routeDefs).flatMap RouteDef.clusterDefs).map
        (ClusterDef.built true))
      (((us.flatMap Use.toList).flatMap RuleDef.routeDefs).map (RouteDef.built true))
      ((us.flatMap Use.toList).map (RuleDef.built true)) with
        rulelists := rls ++ [⟨list, ns ++ us.map (Use.label RuleDef.name), auto⟩] } := by
  induction us generalizing s ns with
  | nil => simp [addRules, plus, ← hlast]
  | cons u rest ih =>
    obtain ⟨hu, hrest⟩ := List.forall_mem_cons.mp hus
    cases u with
    | named n => cases hu
    | inline r =>
      have hsturdy : r.Sturdy := hr r List.mem_cons_self
      obtain ⟨hname, hvalid⟩ := hsturdy.name.label
      have hroom : Room (r.routeDefs.flatMap RouteDef.clusterDefs ++
          ((rest.flatMap Use.toList).flatMap RuleDef.routeDefs).flatMap RouteDef.clusterDefs)
          (r.routeDefs ++ (rest.flatMap Use.toList).flatMap RuleDef.routeDefs)
          ([r] ++ rest.flatMap Use.toList) s := by
        rw [← List.flatMap_append]
        exact h
      have hadd := addRule_built true hsturdy hroom.first
      have hinline := inlineName_named .rule (list ++ "-Rule-") hvalid s
      have huse : addRuleUse Starts.all list (.inline r) s = .ok (label r.name, s.plus
          ((r.routeDefs.flatMap RouteDef.clusterDefs).map (ClusterDef.built true))
          (r.routeDefs.map (RouteDef.built true)) [r.built true]) := by
        unfold addRuleUse
        dsimp only
        rw [hname, hinline]
        change (addRule Starts.all { r with name := some (label r.name) } true s >>=
          fun _ => _) = _
        rw [← hname, hadd]
        rfl
      have hfound : s.getRuleList list = some ⟨list, ns, auto⟩ := by
        unfold getRuleList
        rw [hlast]
        exact lookup_push (a := (⟨list, ns, auto⟩ : RuleList)) hlist
      have hhead : addRuleToRuleList Starts.all list (.inline r) ns.length s = .ok { s.plus
          ((r.routeDefs.flatMap RouteDef.clusterDefs).map (ClusterDef.built true))
          (r.routeDefs.map (RouteDef.built true)) [r.built true] with
            rulelists := rls ++ [⟨list, ns ++ [label r.name], auto⟩] } := by
        have hinsert := modify_push (a := (⟨list, ns, auto⟩ : RuleList)) hlist (fun rl =>
          { rl with rules := rl.rules.take ns.length ++ label r.name :: rl.rules.drop ns.length })
        unfold addRuleToRuleList
        rw [hfound]
        dsimp only
        rw [if_neg (Nat.lt_irrefl _), huse]
        change Except.ok (insertRule list ns.length (label r.name) _) = _
        unfold insertRule
        change Except.ok ({ s.plus _ _ _ with rulelists := modify _ _ _ s.rulelists } : Catalog) = _
        rw [hlast, hinsert]
        simp
      have hlength : ns.length + 1 = (ns ++ [label r.name]).length := by simp
      let s' : Catalog := { s.plus
        ((r.routeDefs.flatMap RouteDef.clusterDefs).map (ClusterDef.built true))
        (r.routeDefs.map (RouteDef.built true)) [r.built true] with
          rulelists := rls ++ [⟨list, ns ++ [label r.name], auto⟩] }
      have hlast' : s'.rulelists = rls ++ [⟨list, ns ++ [label r.name], auto⟩] := rfl
      have hroom' := hroom.rest true (rfl : [r.built true].map Rule.name = _)
      have hnext := ih hlast' hrest (fun r' hr' => hr r' (List.mem_cons_of_mem _ hr'))
        ⟨hroom'.clusters, hroom'.endpoints, hroom'.routes, hroom'.rules⟩
      unfold addRules
      rw [hhead]
      change addRules Starts.all list (ns.length + 1) rest _ = _
      rw [hlength, hnext]
      simp [s', plus, Use.toList, Use.label, List.append_assoc]

/-! ### Listeners -/

/-- What an empty store has after the listener was added. -/
structure Holds (l : ListenerDef) (t : Catalog) : Prop where
  listener : ∃ li, t.getListener (label l.name) = some li ∧ li.spec = l.spec ∧
    ∃ rl, t.getRuleList li.rules = some rl ∧ rl.rules = l.rules.map (Use.label RuleDef.name)
  rules : t.rules = l.ruleDefs.map (RuleDef.built true)
  routes : t.routes = l.routeDefs.map (RouteDef.built true)
  clusters : t.clusters = l.clusterDefs.map (ClusterDef.built true)

theorem taken_sublist (cs : List ClusterDef) :
    (cs.flatMap ClusterDef.taken).Sublist (cs.flatMap ClusterDef.endPointDefs) := by
  induction cs with
  | nil => exact List.Sublist.refl _
  | cons c cs ih =>
    rw [List.flatMap_cons, List.flatMap_cons]
    refine List.Sublist.append ?_ ih
    unfold ClusterDef.endPointDefs
    split_ifs with hvirtual
    · have hnone : c.taken = [] := by
        refine List.filter_eq_nil_iff.mpr (fun e _ => ?_)
        rw [takes_virtual hvirtual]
        exact Bool.false_ne_true
      rw [hnone]
    · exact List.filter_sublist

theorem labels_nodup {α : Type} {name : α → Option String} {l : List α}
    (hnamed : ∀ a ∈ l, Named (name a)) (h : (l.map name).Nodup) :
    (l.map (fun a => label (name a))).Nodup := by
  have hsome : l.map name = (l.map (fun a => label (name a))).map some := by
    rw [List.map_map]
    exact List.map_congr_left (fun a ha => (hnamed a ha).label.1)
  rw [hsome] at h
  exact h.of_map _

theorem Room.of_single {l : ListenerDef} (hl : l.Sturdy) (h : l.Single) (i : Kind → ℕ) :
    Room l.clusterDefs l.routeDefs l.ruleDefs { empty with index := i } := by
  have hendpoints : ∀ e ∈ l.clusterDefs.flatMap ClusterDef.taken, Named e.name := by
    intro e he
    obtain ⟨c, hc, he⟩ := List.mem_flatMap.mp he
    exact (hl.clusters c hc).endpoints e (List.mem_filter.mp he).1
  exact ⟨labels_nodup (fun c hc => (hl.clusters c hc).name) h.clusters,
    labels_nodup hendpoints (h.endpoints.sublist ((taken_sublist _).map _)),
    labels_nodup hl.routes h.routes, labels_nodup hl.rules h.rules⟩

/-- The configuration is taken as it is. -/
theorem addListener_built {l : ListenerDef} (hl : l.Sturdy) (hwhole : l.Whole) (h : l.Single)
    (auto : Bool) (i : Kind → ℕ) :
    ∃ t, addListener Starts.all l auto { empty with index := i } = .ok t ∧ Holds l t := by
  obtain ⟨hname, hvalid⟩ := hl.name.label
  let s : Catalog := { empty with index := i }
  let list := label l.name ++ "-RuleList-" ++ toString (i .rulelist)
  have hlist : validName list = true :=
    validName_append (validName_append hvalid (by decide)) (toString_unspaced _)
  have hallow : admitName "listener" "Listener" l.name (s.listeners.map Listener.name) =
      .ok (label l.name) := by
    rw [hname]
    exact admitName_named hvalid List.not_mem_nil
  have hinline : s.inlineName .rulelist (label l.name ++ "-RuleList-") none =
      .ok (list, s.setIndex .rulelist (i .rulelist + 1)) := rfl
  let s' := (s.setIndex .rulelist (i .rulelist + 1)).pushRuleList ⟨list, [], true⟩
  have hroom := Room.of_single hl h i
  obtain ⟨u, hu, hlisteners, hrulelists, hrules, hroutes, hclusters⟩ :
      ∃ u, addRules Starts.all list ([] : List String).length l.rules s' = .ok u ∧
        u.listeners = [] ∧ u.rulelists = [⟨list, l.rules.map (Use.label RuleDef.name), true⟩] ∧
        u.rules = l.ruleDefs.map (RuleDef.built true) ∧
        u.routes = l.routeDefs.map (RouteDef.built true) ∧
        u.clusters = l.clusterDefs.map (ClusterDef.built true) := by
    have hlast : s'.rulelists = [] ++ [⟨list, [], true⟩] := rfl
    exact ⟨_, addRules_built hlast List.not_mem_nil hwhole.rules (fun r hr => hl.rule hwhole hr)
      ⟨hroom.clusters, hroom.endpoints, hroom.routes, hroom.rules⟩, rfl, rfl, rfl, rfl, rfl⟩
  have hadd : addRuleList Starts.all (some list) l.rules true
      (s.setIndex .rulelist (i .rulelist + 1)) = .ok u := by
    have hfree : admitName "RuleList" "RuleList" (some list) (s.used .rulelist) = .ok list :=
      admitName_named hlist List.not_mem_nil
    unfold addRuleList
    change (admitName "RuleList" "RuleList" (some list) (s.used .rulelist) >>= fun _ => _) = _
    rw [hfree]
    exact hu
  let li : Listener := ⟨label l.name, l.spec, list, auto⟩
  let rl : RuleList := ⟨list, l.rules.map (Use.label RuleDef.name), true⟩
  refine ⟨u.pushListener li, ?_, ⟨li, ?_, rfl, rl, ?_, rfl⟩, hrules, hroutes, hclusters⟩
  · unfold addListener
    rw [hallow]
    change (createListener l.spec.protocol >>= fun _ => _) = _
    rw [hl.creatable]
    change (s.inlineName .rulelist (label l.name ++ "-RuleList-") none >>= fun _ => _) = _
    rw [hinline]
    change (addRuleList Starts.all (some list) l.rules true _ >>= fun _ => _) = _
    rw [hadd]
    rfl
  · change lookup Listener.name li.name (u.listeners ++ [li]) = some li
    rw [hlisteners]
    exact lookup_push List.not_mem_nil
  · change lookup RuleList.name rl.name u.rulelists = some rl
    rw [hrulelists]
    change lookup RuleList.name rl.name ([] ++ [rl]) = some rl
    exact lookup_push List.not_mem_nil

end Catalog
end L7mp
