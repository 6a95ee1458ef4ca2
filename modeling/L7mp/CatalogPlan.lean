import L7mp.Catalog
import L7mp.KeyedGroups
import L7mp.StoreEndPoints

/-! The names that a nested configuration gives to its objects, and what it means that the
collections show the configuration. -/
namespace L7mp
open KeyedList Js

/-- The names in use, and the counters of generated names. -/
@[ext] structure Names where
  used : Kind → List String
  index : Kind → ℕ

namespace Names

def add (k : Kind) (n : String) (N : Names) : Names :=
  { N with used := fun j => if j = k then N.used j ++ [n] else N.used j }

/-- `name || newName(...)`. -/
def pick (k : Kind) (base : String) (name : Option String) (N : Names) : Option (String × Names) :=
  if Store.needsName name then
    (newName (base ++ toString (N.index k)) (fun n => n ∈ N.used k)).map (fun n =>
      (n, { N with index := fun j => if j = k then N.index k + 1 else N.index j }))
  else some (name.getD "", N)

/-- A name that a new object may have. -/
def allow (k : Kind) (name : Option String) (N : Names) : Option String :=
  name.filter (fun n => validName n && !decide (n ∈ N.used k))

end Names

/-- `addEndPoint` accepts the endpoint in a cluster of this protocol under name `n`. -/
def EndPointDef.fits (p : ClusterProtocol) (n : String) (N : Names) (e : EndPointDef) : Bool :=
  validName n && !decide (n ∈ N.used .endpoint) &&
    p.takes e.spec

def planEndPoints (p : ClusterProtocol) (cu : String) : List EndPointDef → Names → Option Names
  | [], N => some N
  | e :: rest, N => (N.pick .endpoint (cu ++ "-EndPoint-") e.name).bind (fun (n, N) =>
      if e.fits p n N then planEndPoints p cu rest (N.add .endpoint n) else none)

def ClusterDef.creatable (c : ClusterDef) : Bool :=
  (createCluster (c.loadbalancer.map LoadBalancerDef.policy) c.spec.protocol).isOk

def planCluster (c : ClusterDef) (N : Names) : Option Names :=
  (N.allow .cluster c.name).bind (fun n =>
    if c.creatable then planEndPoints c.spec.protocol n c.endpoints (N.add .cluster n) else none)

def planRouteCluster (base : String) : Use ClusterDef → Names → Option Names
  | .named _, N => some N
  | .inline c, N => (N.pick .cluster base c.name).bind (fun (n, N) =>
      planCluster { c with name := some n } N)

def planRouteChain (base : String) : List (Use ClusterDef) → Names → Option Names
  | [], N => some N
  | c :: rest, N => (planRouteCluster base c N).bind (planRouteChain base rest)

def planRoute (r : RouteDef) (N : Names) : Option Names :=
  (N.allow .route r.name).bind (fun n =>
    ((planRouteCluster (n ++ "-Cluster-") r.destination N).bind (fun N =>
      (planRouteChain (n ++ "-ingress-Cluster-") r.ingress N).bind
        (planRouteChain (n ++ "-egress-Cluster-") r.egress))).map (Names.add .route n))

def planRuleRoute (n : String) : Option (Use RouteDef) → Names → Option Names
  | none, N | some (.named _), N => some N
  | some (.inline r), N => (N.pick .route (n ++ "-Route-") r.name).bind (fun (m, N) =>
      planRoute { r with name := some m } N)

def planRule (r : RuleDef) (N : Names) : Option Names :=
  (N.allow .rule r.name).bind (fun n => planRuleRoute n r.route (N.add .rule n))

def planRuleUse (list : String) : Use RuleDef → Names → Option Names
  | .named _, N => some N
  | .inline r, N => (N.pick .rule (list ++ "-Rule-") r.name).bind (fun (n, N) =>
      planRule { r with name := some n } N)

def planRules (list : String) : List (Use RuleDef) → Names → Option Names
  | [], N => some N
  | r :: rest, N => (planRuleUse list r N).bind (planRules list rest)

/-- Every object of the listener gets a name that is free when its turn comes. -/
def planListener (n : String) (l : ListenerDef) (N : Names) : Option Names :=
  (N.pick .rulelist (n ++ "-RuleList-") none).bind (fun (list, N) =>
    (N.allow .rulelist (some list)).bind (fun list =>
      planRules list l.rules (N.add .rulelist list)))

/-! ### The names that are given -/

def givenName (k : Kind) (name : Option String) : List (Kind × String) :=
  if Store.needsName name then [] else [(k, name.getD "")]

def Use.given {α : Type} (f : α → List (Kind × String)) : Use α → List (Kind × String)
  | .named _ => []
  | .inline a => f a

def ClusterDef.given (c : ClusterDef) : List (Kind × String) :=
  givenName .cluster c.name ++ c.endpoints.flatMap (fun e => givenName .endpoint e.name)

def RouteDef.given (r : RouteDef) : List (Kind × String) :=
  givenName .route r.name ++ (r.destination :: (r.ingress ++ r.egress)).flatMap
    (Use.given ClusterDef.given)

def RuleDef.given (r : RuleDef) : List (Kind × String) :=
  givenName .rule r.name ++ r.route.toList.flatMap (Use.given RouteDef.given)

/-- The names of the objects that are defined inline in a listener. -/
def ListenerDef.given (l : ListenerDef) : List (Kind × String) :=
  l.rules.flatMap (Use.given RuleDef.given)

/-- The name of an inline object is the one that is given, if one is. -/
def GivenName (name : Option String) (n : String) : Prop :=
  Store.needsName name = false → name = some n

namespace Catalog

def names (s : Catalog) : Names := ⟨s.used, s.index⟩

theorem admitName_free {what quoted n : String} {name : Option String} {taken : List String}
    (h : admitName what quoted name taken = .ok n) :
    name = some n ∧ validName n = true ∧ n ∉ taken := by
  unfold admitName at h
  cases name with
  | none => cases h
  | some m =>
    dsimp only at h
    split_ifs at h with hvalid htaken
    cases h
    exact ⟨rfl, by simpa using hvalid, htaken⟩

/-- The endpoint object of a definition. -/
structure ShowsEndPoint (e : EndPointDef) (ep : EndPoint) : Prop where
  name : GivenName e.name ep.name
  spec : ep.spec = e.spec
  weight : ep.weight = orElse e.weight (.num (.finite 1))

structure ShownCluster (c : ClusterDef) (cu : Cluster) : Prop where
  spec : cu.spec = c.spec.made
  loadbalancer : cu.loadbalancer = c.spec.protocol.loadBalancer c.loadbalancer
  endpoints : List.Forall₂ ShowsEndPoint c.endpoints cu.endpoints

variable (t : Catalog)

/-- Name `n` stands for the cluster: it is the given name, or finds what was given inline. -/
def ShowsCluster : Use ClusterDef → String → Prop
  | .named m, n => n = m
  | .inline c, n => GivenName c.name n ∧ ∃ cu, t.getCluster n = some cu ∧ ShownCluster c cu

structure ShownRoute (r : RouteDef) (ro : Route) : Prop where
  destination : t.ShowsCluster r.destination ro.destination
  ingress : List.Forall₂ t.ShowsCluster r.ingress ro.ingress
  egress : List.Forall₂ t.ShowsCluster r.egress ro.egress
  retry : ro.retry = r.retry.getD retryDefaultPolicy

def ShowsRoute : Use RouteDef → String → Prop
  | .named m, n => n = m
  | .inline r, n => GivenName r.name n ∧ ∃ ro, t.getRoute n = some ro ∧ t.ShownRoute r ro

def ShowsRuleRoute : Option (Use RouteDef) → RuleRoute → Prop
  | none, ro => ro = .absent
  | some r, ro => ∃ n, ro = .named n ∧ t.ShowsRoute r n

structure ShownRule (r : RuleDef) (ru : Rule) : Prop where
  matcher : ru.matcher = r.body.matcher
  rewrite : ru.rewrite = r.body.rewrite
  apply : ru.apply = r.body.apply
  route : t.ShowsRuleRoute r.route ru.route

def ShowsRule : Use RuleDef → String → Prop
  | .named m, n => n = m
  | .inline r, n => GivenName r.name n ∧ ∃ ru, t.getRule n = some ru ∧ t.ShownRule r ru

/-- Resolving the names that are stored from the listener on gives the configuration back. -/
def Shows (l : ListenerDef) : Prop :=
  ∃ n li rl, l.name = some n ∧ t.getListener n = some li ∧ li.spec = l.spec ∧
    t.getRuleList li.rules = some rl ∧ List.Forall₂ t.ShowsRule l.rules rl.rules

variable {t}

/-- All objects are still there as they were. -/
structure Grows (s t : Catalog) : Prop where
  listeners : s.listeners <+: t.listeners
  clusters : s.clusters <+: t.clusters
  rulelists : s.rulelists <+: t.rulelists
  rules : s.rules <+: t.rules
  routes : s.routes <+: t.routes
  endpoints : s.endpoints <+: t.endpoints

namespace Grows

variable {s u : Catalog}

theorem refl (s : Catalog) : Grows s s :=
  ⟨List.prefix_refl _, List.prefix_refl _, List.prefix_refl _, List.prefix_refl _,
    List.prefix_refl _, List.prefix_refl _⟩

theorem trans (h : Grows s t) (h' : Grows t u) : Grows s u :=
  ⟨h.listeners.trans h'.listeners, h.clusters.trans h'.clusters, h.rulelists.trans h'.rulelists,
    h.rules.trans h'.rules, h.routes.trans h'.routes, h.endpoints.trans h'.endpoints⟩

end Grows

end Catalog
end L7mp
