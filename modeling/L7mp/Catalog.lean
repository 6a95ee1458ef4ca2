import L7mp.RuleLookup

/-! The collections of `l7mp` with all that their objects are configured with, and the add
functions as they run while no other request does. What waits is the `run` of listeners and
clusters; its outcome is given. A call that throws leaves nothing to look at here. -/
namespace L7mp
open KeyedList Js

/-- The properties of a plain object. -/
abbrev Fields := List (String × Value)

/-- A part of a configuration: the name of an object, or the object inline. -/
inductive Use (α : Type)
  | named (n : String)
  | inline (a : α)

structure EndPointDef where
  name : Option String
  spec : Fields
  weight : Option Value

structure LoadBalancerDef where
  policy : Option String
  key : Option String

/-- `spec` of a cluster: the protocol with what its constructors test, and the other
properties. -/
structure ClusterSettings where
  protocol : ClusterProtocol
  fields : Fields

structure ClusterDef where
  name : Option String
  spec : ClusterSettings
  loadbalancer : Option LoadBalancerDef
  endpoints : List EndPointDef

/-- `destination` is what `r.destination || r.cluster` gives. -/
structure RouteDef where
  name : Option String
  destination : Use ClusterDef
  ingress : List (Use ClusterDef)
  egress : List (Use ClusterDef)
  retry : Option Retry

structure RuleDef where
  name : Option String
  body : RuleBody
  route : Option (Use RouteDef)

structure ListenerSettings where
  protocol : ListenerProtocol
  fields : Fields

/-- A listener with an inline list of rules. -/
structure ListenerDef where
  name : Option String
  spec : ListenerSettings
  rules : List (Use RuleDef)

/-! ### The objects that are defined inline -/

def Use.toList {α : Type} : Use α → List α
  | .named _ => []
  | .inline a => [a]

def RouteDef.uses (r : RouteDef) : List (Use ClusterDef) := r.destination :: (r.ingress ++ r.egress)

def RouteDef.clusterDefs (r : RouteDef) : List ClusterDef := r.uses.flatMap Use.toList

def RuleDef.routeDefs (r : RuleDef) : List RouteDef := r.route.toList.flatMap Use.toList

namespace ListenerDef

def ruleDefs (l : ListenerDef) : List RuleDef := l.rules.flatMap Use.toList

def routeDefs (l : ListenerDef) : List RouteDef := l.ruleDefs.flatMap RuleDef.routeDefs

def clusterDefs (l : ListenerDef) : List ClusterDef := l.routeDefs.flatMap RouteDef.clusterDefs

end ListenerDef

/-- A load balancer; `ConsistentHash` is another name of `HashRing`. -/
inductive LoadBalancer
  | none
  | trivial
  | hashRing (key : Option String)
  deriving DecidableEq, Repr

/-- `LoadBalancer.create(c.loadbalancer || { policy: 'Trivial' })`, for a policy that there is. -/
def LoadBalancer.create : Option LoadBalancerDef → LoadBalancer
  | .none => .trivial
  | some l =>
    if l.policy = some "None" then .none
    else if l.policy = some "Trivial" then .trivial
    else .hashRing (l.key.filter (fun k => k ≠ ""))

/-- Some clusters bring their own load balancer, and a JSONSocket cluster takes that of its
transport. -/
def ClusterProtocol.loadBalancer : ClusterProtocol → Option LoadBalancerDef → LoadBalancer
  | .l7mpController, _ | .stdio, _ | .logger, _ | .sync, _ => .none
  | .echo, _ | .discard, _ | .jsonEncap, _ | .jsonDecap, _ | .prometheus, _ | .metric, _ => .trivial
  -- `c.loadbalancer || { policy: 'Trivial' }` goes to the transport
  | .jsonSocket transport, l => transport.loadBalancer (some (l.getD ⟨some "Trivial", none⟩))
  | _, l => .create l

/-- `x || d`. -/
def orElse (x : Option Value) (d : Value) : Value := (x.filter Value.truthy).getD d

/-- The `spec` of the cluster object: some constructors write their own. -/
def ClusterSettings.made (c : ClusterSettings) : ClusterSettings where
  protocol := c.protocol
  fields := match c.protocol with
    | .stdio | .echo | .discard | .jsonEncap | .jsonDecap | .l7mpController | .prometheus
    | .metric => []
    | .logger => [("log_file", orElse (c.fields.lookup "log_file") (.str "-")),
        ("log_prefix", orElse (c.fields.lookup "log_prefix") (.str ""))]
    | .sync => (c.fields.lookup "query").toList.map (fun v => ("query", v))
    | _ => c.fields

/-- `this.virtual`. -/
def ClusterProtocol.virtual : ClusterProtocol → Bool
  | .stdio | .echo | .discard | .logger | .jsonEncap | .jsonDecap | .sync | .l7mpController
  | .metric => true
  | _ => false

def EndPointDef.addressed (e : EndPointDef) : Bool := (e.spec.lookup "address").any Value.truthy

/-- A cluster of the protocol takes an endpoint with this `spec`. -/
def ClusterProtocol.takes (p : ClusterProtocol) (spec : Fields) : Bool :=
  (createEndPoint true ((spec.lookup "address").any Value.truthy) p 0).1.isOk

namespace Catalog

structure EndPoint where
  name : String
  /-- The name of the cluster object. -/
  cluster : String
  spec : Fields
  weight : Value

structure Cluster where
  name : String
  spec : ClusterSettings
  loadbalancer : LoadBalancer
  endpoints : List EndPoint
  autogenerated : Bool

structure Rule where
  name : String
  matcher : Match
  rewrite : Option (List Rewrite)
  apply : Option Value
  route : RuleRoute
  autogenerated : Bool

structure RuleList where
  name : String
  rules : List String
  autogenerated : Bool

/-- `rules` is the name of a rulelist. -/
structure Listener where
  name : String
  spec : ListenerSettings
  rules : String
  autogenerated : Bool

end Catalog

/-- The collections and the counters of generated names. -/
structure Catalog where
  listeners : List Catalog.Listener
  clusters : List Catalog.Cluster
  rulelists : List Catalog.RuleList
  rules : List Catalog.Rule
  routes : List Route
  endpoints : List Catalog.EndPoint
  index : Kind → ℕ

/-- The outcomes of `run`. -/
structure Starts where
  cluster : String → Option Err
  listener : Option Err

namespace Catalog

def empty : Catalog := ⟨[], [], [], [], [], [], fun _ => 0⟩

def getListener (s : Catalog) (n : String) : Option Listener := lookup Listener.name n s.listeners
def getCluster (s : Catalog) (n : String) : Option Cluster := lookup Cluster.name n s.clusters
def getRuleList (s : Catalog) (n : String) : Option RuleList := lookup RuleList.name n s.rulelists
def getRule (s : Catalog) (n : String) : Option Rule := lookup Rule.name n s.rules
def getRoute (s : Catalog) (n : String) : Option Route := lookup Route.name n s.routes
def getEndPoint (s : Catalog) (n : String) : Option EndPoint := lookup EndPoint.name n s.endpoints

/-- The names of a collection. -/
def used (s : Catalog) : Kind → List String
  | .rulelist => s.rulelists.map RuleList.name
  | .rule => s.rules.map Rule.name
  | .route => s.routes.map Route.name
  | .cluster => s.clusters.map Cluster.name
  | .endpoint => s.endpoints.map EndPoint.name

def setIndex (k : Kind) (i : ℕ) (s : Catalog) : Catalog :=
  { s with index := fun j => if j = k then i else s.index j }

/-- `name || this.newName(...)`. -/
def inlineName (k : Kind) (base : String) (name : Option String) (s : Catalog) :
    Except Err (String × Catalog) :=
  if Store.needsName name then
    match newName (base ++ toString (s.index k)) (fun n => n ∈ s.used k) with
    | some n => .ok (n, s.setIndex k (s.index k + 1))
    | none => .error (Store.noNewName (base ++ toString (s.index k)))
  else .ok (name.getD "", s)

/-- The name of a new object, which no object of its kind must have. -/
def admitName (what quoted : String) (name : Option String) (taken : List String) :
    Except Err String :=
  match name with
  | none => .error (cannotAdd what "Property name is required")
  | some n =>
    if validName n = false then .error (cannotAdd what "Property name is invalid")
    else if n ∈ taken then .error (cannotAdd what (alreadyDefined quoted n))
    else .ok n

def pushEndPoint (ep : EndPoint) (s : Catalog) : Catalog :=
  { s with
    clusters := modify Cluster.name ep.cluster
      (fun c => { c with endpoints := c.endpoints ++ [ep] }) s.clusters
    endpoints := s.endpoints ++ [ep] }

/-- The endpoint object. -/
def makeEndPoint (s : Catalog) (cl : Cluster) (e : EndPointDef) : EndPoint where
  name := e.name.getD (cl.name ++ "-EndPoint-" ++ toString (s.index .endpoint))
  cluster := cl.name
  spec := e.spec
  weight := orElse e.weight (.num (.finite 1))

def addEndPoint (c : String) (e : EndPointDef) (s : Catalog) : Except Err Catalog :=
  if e.name.any (fun n => !validName n) then
    .error (cannotAdd "endpoint" "Property name is invalid")
  else if e.name.any (fun n => n ∈ s.used .endpoint) then
    .error (cannotAdd "endpoint" (alreadyDefined "Endpoint" (e.name.getD "")))
  else match s.getCluster c with
    | none => .error (.notFound ("Cannot add endpoint: Unknown cluster \"" ++ c ++ "\""))
    | some cl => match createEndPoint e.name.isSome e.addressed cl.spec.protocol
        (s.index .endpoint) with
      | (.error err, _) => .error err
      | (.ok _, i) => .ok ((s.setIndex .endpoint i).pushEndPoint (s.makeEndPoint cl e))

/-- The loop of `addCluster` over its endpoints. `addEndPoint` is not awaited. -/
def addEndPoints (cu : String) : List EndPointDef → Catalog → Except Err Catalog
  | [], s => .ok s
  | e :: rest, s => do
    let (n, s) ← s.inlineName .endpoint (cu ++ "-EndPoint-") e.name
    match s.addEndPoint cu { e with name := some n } with
    | .ok t => addEndPoints cu rest t
    | .error _ => addEndPoints cu rest s

def makeCluster (n : String) (c : ClusterDef) (autogenerated : Bool) : Cluster where
  name := n
  spec := c.spec.made
  loadbalancer := c.spec.protocol.loadBalancer c.loadbalancer
  endpoints := []
  autogenerated := c.spec.protocol.marks autogenerated

def pushCluster (cu : Cluster) (s : Catalog) : Catalog := { s with clusters := s.clusters ++ [cu] }

/-- `await cu.run()`. -/
def awaitCluster (outcome : Option Err) (p : ClusterProtocol) : Except Err Unit :=
  match outcome, p with
  | some e, .l7mpController => .error e
  | _, _ => .ok ()

variable (run : Starts)

def addCluster (c : ClusterDef) (autogenerated : Bool) (s : Catalog) : Except Err Catalog := do
  let n ← admitName "cluster" "Cluster" c.name (s.used .cluster)
  createCluster (c.loadbalancer.map LoadBalancerDef.policy) c.spec.protocol
  let s ← addEndPoints n c.endpoints (s.pushCluster (makeCluster n c autogenerated))
  awaitCluster (run.cluster n) c.spec.protocol
  return s

/-- A cluster of a route; `base` is the template of its generated name. -/
def addRouteCluster (base : String) : Use ClusterDef → Catalog → Except Err (String × Catalog)
  | .named c, s => .ok (c, s)
  | .inline c, s => do
    let (n, s) ← s.inlineName .cluster base c.name
    let s ← addCluster run { c with name := some n } true s
    return (n, s)

/-- One direction of the chain of a route. -/
def addRouteChain (base : String) :
    List (Use ClusterDef) → Catalog → Except Err (List String × Catalog)
  | [], s => .ok ([], s)
  | c :: rest, s => do
    let (n, s) ← addRouteCluster run base c s
    let (names, s) ← addRouteChain base rest s
    return (n :: names, s)

def makeRoute (r : RouteDef) (n destination : String) (ingress egress : List String)
    (autogenerated : Bool) : Route :=
  ⟨n, destination, ingress, egress, r.retry.getD retryDefaultPolicy, autogenerated⟩

def pushRoute (r : Route) (s : Catalog) : Catalog := { s with routes := s.routes ++ [r] }

def addRoute (r : RouteDef) (autogenerated : Bool) (s : Catalog) : Except Err Catalog := do
  let n ← admitName "route" "Route" r.name (s.used .route)
  let (destination, s) ← addRouteCluster run (n ++ "-Cluster-") r.destination s
  let (ingress, s) ← addRouteChain run (n ++ "-ingress-Cluster-") r.ingress s
  let (egress, s) ← addRouteChain run (n ++ "-egress-Cluster-") r.egress s
  return s.pushRoute (makeRoute r n destination ingress egress autogenerated)

def ruleRoute : Option (Use RouteDef) → RuleRoute
  | none => .absent
  | some (.named n) => .named n
  | some (.inline _) => .unresolved

def makeRule (n : String) (r : RuleDef) (autogenerated : Bool) : Rule where
  name := n
  matcher := r.body.matcher
  rewrite := r.body.rewrite
  apply := r.body.apply
  route := ruleRoute r.route
  autogenerated := autogenerated

def pushRule (r : Rule) (s : Catalog) : Catalog := { s with rules := s.rules ++ [r] }

/-- `r.action.route = route.name`. -/
def resolveRoute (n route : String) (s : Catalog) : Catalog :=
  { s with rules := modify Rule.name n (fun r => { r with route := .named route }) s.rules }

/-- The route of rule `n`, which was pushed. -/
def addRuleRoute (n : String) : Option (Use RouteDef) → Catalog → Except Err Catalog
  | none, s | some (.named _), s => .ok s
  | some (.inline r), s => do
    let (m, s) ← s.inlineName .route (n ++ "-Route-") r.name
    let s ← addRoute run { r with name := some m } true s
    return s.resolveRoute n m

def addRule (r : RuleDef) (autogenerated : Bool) (s : Catalog) : Except Err Catalog := do
  let n ← admitName "rule" "Rule" r.name (s.used .rule)
  addRuleRoute run n r.route (s.pushRule (makeRule n r autogenerated))

/-- The rule of `addRuleToRuleList`, for the rulelist `list`. -/
def addRuleUse (list : String) : Use RuleDef → Catalog → Except Err (String × Catalog)
  | .named n, s => .ok (n, s)
  | .inline r, s => do
    let (n, s) ← s.inlineName .rule (list ++ "-Rule-") r.name
    let s ← addRule run { r with name := some n } true s
    return (n, s)

/-- `rl.rules.splice(pos, 0, name)`. -/
def insertRule (list : String) (pos : ℕ) (n : String) (s : Catalog) : Catalog :=
  { s with
    rulelists := modify RuleList.name list
      (fun rl => { rl with rules := rl.rules.take pos ++ n :: rl.rules.drop pos }) s.rulelists }

def addRuleToRuleList (list : String) (rule : Use RuleDef) (pos : ℕ) (s : Catalog) :
    Except Err Catalog :=
  match s.getRuleList list with
  | none => .error (cannotAdd "rule to rulelist" "Invalid rulelist")
  | some rl =>
    if pos > rl.rules.length then .error (.error
      ("Cannot insert rule at position " ++ toString pos ++ " into rulelist"))
    else do
      let (n, s) ← addRuleUse run list rule s
      return s.insertRule list pos n

/-- The loop of `addRuleList`, from position `pos`. -/
def addRules (list : String) : ℕ → List (Use RuleDef) → Catalog → Except Err Catalog
  | _, [], s => .ok s
  | pos, r :: rest, s => do
    let s ← addRuleToRuleList run list r pos s
    addRules list (pos+1) rest s

def pushRuleList (rl : RuleList) (s : Catalog) : Catalog :=
  { s with rulelists := s.rulelists ++ [rl] }

def addRuleList (name : Option String) (rules : List (Use RuleDef)) (autogenerated : Bool)
    (s : Catalog) : Except Err Catalog := do
  let n ← admitName "RuleList" "RuleList" name (s.used .rulelist)
  addRules run n 0 rules (s.pushRuleList ⟨n, [], autogenerated⟩)

def pushListener (l : Listener) (s : Catalog) : Catalog :=
  { s with listeners := s.listeners ++ [l] }

/-- `await li.run()`. -/
def awaitListener (outcome : Option Err) (p : ListenerProtocol) : Except Err Unit :=
  match outcome, p.alwaysStarts with
  | some e, false => .error e
  | _, _ => .ok ()

def addListener (l : ListenerDef) (autogenerated : Bool) (s : Catalog) : Except Err Catalog := do
  let n ← admitName "listener" "Listener" l.name (s.listeners.map Listener.name)
  createListener l.spec.protocol
  let (list, s) ← s.inlineName .rulelist (n ++ "-RuleList-") none
  let s ← addRuleList run (some list) l.rules true s
  let s := s.pushListener ⟨n, l.spec, list, autogenerated⟩
  awaitListener run.listener l.spec.protocol
  return s

end Catalog
end L7mp
