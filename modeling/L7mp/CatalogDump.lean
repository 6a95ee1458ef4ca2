import L7mp.Catalog

/-! The dump functions in their recursive form, which follow the names from a listener on, and
what a session that comes from the listener finds under these names. -/
namespace L7mp
open KeyedList Js

/-- A dumped listener: its rules, or a reference to a rulelist that is not there. -/
structure ListenerDump where
  name : Option String
  spec : ListenerSettings
  rules : Use (List (Use RuleDef))

/-- The listener as something that was dumped. -/
def ListenerDef.dumped (l : ListenerDef) : ListenerDump := ⟨l.name, l.spec, .inline l.rules⟩

def LoadBalancer.toJSON : LoadBalancer → LoadBalancerDef
  | .none => ⟨some "None", .none⟩
  | .trivial => ⟨some "Trivial", .none⟩
  | .hashRing key => ⟨some "HashRing", some (key.getD "<RANDOM>")⟩

/-- `{ match: '*' }`. -/
def wildcardJSON : Value := .node false [("match", .str "*")]

def Match.toJSON : Match → Value
  | .wildcard => wildcardJSON
  | .jsonPredicate m => m

/-- `match.apply(s)`; `test` is `jsonPredicate.test`. -/
def Match.accepts (test : Value → Value → Bool) (metadata : Value) : Match → Bool
  | .wildcard => true
  | .jsonPredicate m => test metadata m

namespace Catalog

def stale (n : String) : String := n ++ ":<STALE>"

def cannotDump (what object n : String) : Err :=
  .notFound ("Cannot dump " ++ what ++ ": Unknown " ++ object ++ " \"" ++ n ++ "\"")

/-- What is dumped for a name: the object that is found, or a remark. -/
def dumpUse {α β : Type} (found : Option α) (n : String) (dump : α → Except Err β) :
    Except Err (Use β) :=
  match found with
  | none => .ok (.named (stale n))
  | some a => do
    let b ← dump a
    return .inline b

def dumpEndPoint (s : Catalog) (n : String) : Except Err EndPointDef :=
  match s.getEndPoint n with
  | none => .error (cannotDump "EndPoint" "endpoint" n)
  | some e => .ok ⟨some e.name, e.spec, some e.weight⟩

def virtualEndPoint (c : Cluster) : EndPointDef :=
  ⟨some c.name, [("address", .str "<VIRTUAL>")], none⟩

def dumpEndPoints (s : Catalog) (c : Cluster) : Except Err (List EndPointDef) :=
  if c.spec.protocol.virtual then .ok [virtualEndPoint c]
  else c.endpoints.mapM (fun e => s.dumpEndPoint e.name)

def dumpCluster (s : Catalog) (n : String) : Except Err ClusterDef :=
  match s.getCluster n with
  | none => .error (cannotDump "Cluster" "cluster" n)
  | some c => do
    let endpoints ← s.dumpEndPoints c
    return ⟨some c.name, c.spec, some c.loadbalancer.toJSON, endpoints⟩

/-- A cluster of a route. -/
def dumpRouteCluster (s : Catalog) (n : String) : Except Err (Use ClusterDef) :=
  dumpUse (s.getCluster n) n (fun c => s.dumpCluster c.name)

def dumpRoute (s : Catalog) (n : String) : Except Err RouteDef :=
  match s.getRoute n with
  | none => .error (cannotDump "Route" "Route" n)
  | some r => do
    let destination ← s.dumpRouteCluster r.destination
    let ingress ← r.ingress.mapM s.dumpRouteCluster
    let egress ← r.egress.mapM s.dumpRouteCluster
    return ⟨some r.name, destination, ingress, egress, some r.retry⟩

/-- The route of a rule, if it has one that is not the empty name. -/
def dumpRuleRoute (s : Catalog) : RuleRoute → Except Err (Option (Use RouteDef))
  | .absent => .ok none
  | .unresolved => .ok (some (.named (stale "[object Object]")))
  | .named n => if n = "" then .ok none else do
    let r ← dumpUse (s.getRoute n) n (fun r => s.dumpRoute r.name)
    return some r

def dumpRule (s : Catalog) (n : String) : Except Err RuleDef :=
  match s.getRule n with
  | none => .error (cannotDump "Rule" "Rule" n)
  | some r => do
    let route ← s.dumpRuleRoute r.route
    return ⟨some r.name, ⟨some r.matcher.toJSON, r.apply.filter Value.truthy, r.rewrite⟩, route⟩

def dumpRuleList (s : Catalog) (n : String) : Except Err (List (Use RuleDef)) :=
  match s.getRuleList n with
  | none => .error (cannotDump "RuleList" "RuleList" n)
  | some rl => rl.rules.mapM (fun k => dumpUse (s.getRule k) k (fun r => s.dumpRule r.name))

def dumpListener (s : Catalog) (n : String) : Except Err ListenerDump :=
  match s.getListener n with
  | none => .error (cannotDump "Listener" "listener" n)
  | some l => do
    let rules ← dumpUse (s.getRuleList l.rules) l.rules (fun rl => s.dumpRuleList rl.name)
    return ⟨some l.name, l.spec, rules⟩

end Catalog

/-! ### What is in a dump -/

def Use.isInline {α : Type} : Use α → Bool
  | .named _ => false
  | .inline _ => true

/-- Every name was followed to its object. -/
structure ListenerDef.Whole (l : ListenerDef) : Prop where
  rules : ∀ u ∈ l.rules, u.isInline = true
  routes : ∀ r ∈ l.ruleDefs, ∀ u ∈ r.route, u.isInline = true
  clusters : ∀ r ∈ l.routeDefs, ∀ u ∈ r.uses, u.isInline = true

/-- The endpoints that a dumped cluster has objects for. -/
def ClusterDef.endPointDefs (c : ClusterDef) : List EndPointDef :=
  if c.spec.protocol.virtual then [] else c.endpoints

/-- No object is there twice. -/
structure ListenerDef.Single (l : ListenerDef) : Prop where
  rules : (l.ruleDefs.map RuleDef.name).Nodup
  routes : (l.routeDefs.map RouteDef.name).Nodup
  clusters : (l.clusterDefs.map ClusterDef.name).Nodup
  endpoints : ((l.clusterDefs.flatMap ClusterDef.endPointDefs).map EndPointDef.name).Nodup

/-! ### What a session finds -/

structure ClusterView where
  spec : ClusterSettings
  loadbalancer : LoadBalancer
  /-- Name, `spec` and weight. -/
  endpoints : List (String × Fields × Value)

structure RouteView where
  destination : Option ClusterView
  ingress : List (Option ClusterView)
  egress : List (Option ClusterView)
  retry : Retry

structure RuleView where
  rewrite : Option (List Rewrite)
  route : Option RouteView

structure ListenerView where
  spec : ListenerSettings
  rules : Option (List (Option RuleView))

namespace Catalog

def viewCluster (s : Catalog) (n : String) : Option ClusterView :=
  (s.getCluster n).map (fun c =>
    ⟨c.spec, c.loadbalancer, c.endpoints.map (fun e => (e.name, e.spec, e.weight))⟩)

def viewRoute (s : Catalog) (n : String) : Option RouteView :=
  (s.getRoute n).map (fun r =>
    ⟨s.viewCluster r.destination, r.ingress.map s.viewCluster, r.egress.map s.viewCluster,
      r.retry⟩)

def viewRuleRoute (s : Catalog) : RuleRoute → Option RouteView
  | .named n => s.viewRoute n
  | _ => none

def viewRule (s : Catalog) (n : String) : Option RuleView :=
  (s.getRule n).map (fun r => ⟨r.rewrite, s.viewRuleRoute r.route⟩)

def viewListener (s : Catalog) (n : String) : Option ListenerView :=
  (s.getListener n).map (fun l =>
    ⟨l.spec, (s.getRuleList l.rules).map (fun rl => rl.rules.map s.viewRule)⟩)

/-- The rules that a listener looks through. -/
def rulesOf (s : Catalog) (n : String) : List String :=
  ((s.getListener n).bind (fun l => s.getRuleList l.rules)).elim [] RuleList.rules

/-- The rule of this name matches the session. -/
def accepts (s : Catalog) (test : Value → Value → Bool) (metadata : Value) (k : String) : Bool :=
  (s.getRule k).any (fun r => r.matcher.accepts test metadata)

/-- The position of the rule that is selected for a session of the listener, if no rule that
matches applies another rulelist. -/
def selects (s : Catalog) (test : Value → Value → Bool) (n : String) (metadata : Value) :
    Option ℕ :=
  (s.rulesOf n).findIdx? (s.accepts test metadata)

end Catalog
end L7mp
