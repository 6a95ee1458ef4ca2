import L7mp.Coroutine
import L7mp.StoreDelete

/-! The add functions of the configuration API. They wait for the objects of their inline
definitions and for listeners and clusters to start. -/
namespace L7mp
open Aborting Coroutine KeyedList

/-- The name of a listener or a route that was found free and is not pushed yet. -/
inductive Held
  | listener (n : String)
  | route (n : String)
  deriving DecidableEq, Repr

/-- Waiting for `run` of a listener or a cluster gives an error or nothing. -/
abbrev Add (α : Type) : Type := Co Store (Option Err) Held Err α

/-- A piece of an add function that does not wait. -/
def Add.sync {α : Type} (f : Store → Except Err α × Store) : Add α := Co.atomic f

/-- `throw new Error(...)` of an add function. -/
def cannotAdd (what e : String) : Err := .error ("Cannot add " ++ what ++ ": " ++ e)

def alreadyDefined (what n : String) : String := what ++ " \"" ++ n ++ "\" already defined"

/-- `LoadBalancer.create`. -/
def createLoadBalancer : Option (Option String) → Except Err Unit
  | none => .ok ()
  | some none => .error (.error "LoadBalancer.create: TODO: Policy undefined")
  | some (some p) =>
    if p ∈ ["None", "Trivial", "HashRing", "ConsistentHash"] then .ok ()
    else .error (.error ("LoadBalancer.create: TODO: Policy \"" ++ p ++ "\" unimplemented"))

/-- `Cluster.create`, as far as it can throw. -/
def createCluster (loadbalancer : Option (Option String)) : ClusterProtocol → Except Err Unit
  | .test | .webSocket | .udp _ | .tcp | .unixDomainSocket => createLoadBalancer loadbalancer
  -- `HTTPCluster` is commented out
  | .http => .error (.referenceError "HTTPCluster")
  | .jsonSocket transport =>
    match createLoadBalancer loadbalancer with
    | .ok _ => createCluster loadbalancer transport
    | .error e => .error e
  | .jsonSocketBare =>
    match createLoadBalancer loadbalancer with
    | .ok _ => .error (.error "JSONSocketCluster: No transport specified")
    | .error e => .error e
  | .other p => .error (.error ("Cluster.create: TODO: Protocol \"" ++ p ++ "\" unimplemented"))
  | .stdio | .echo | .discard | .logger | .jsonEncap | .jsonDecap | .sync | .l7mpController
  | .prometheus | .metric => .ok ()

/-- The `autogenerated` mark of a new cluster, which `PrometheusCluster` does not pass on. -/
def ClusterProtocol.marks (autogenerated : Bool) : ClusterProtocol → Bool
  | .prometheus => false
  | _ => autogenerated

/-- `Listener.create`, as far as it can throw. -/
def createListener : ListenerProtocol → Except Err Unit
  | .udp mode connect =>
    if mode = .singleton ∧ connect = false then .error (.error
      ("Singleton mode requested but either connect.address or connect.port is not defined " ++
        "(or neither): no remote to connect to"))
    else .ok ()
  | .jsonSocket transport => createListener transport
  -- `log.warning` is no function
  | .jsonSocketBare => .error .typeError
  | .other p => .error (.error ("Listener.create:Unknown protocol: \"" ++ p ++ "\""))
  | .http | .webSocket | .tcp | .unixDomainSocket | .test => .ok ()

/-- `run` catches its errors, or has none. -/
def ListenerProtocol.alwaysStarts : ListenerProtocol → Bool
  | .http | .test => true
  | .jsonSocket transport => transport.alwaysStarts
  | _ => false

/-- If `run` fails, the server is not made. -/
def ListenerProtocol.losesServer : ListenerProtocol → Bool
  | .webSocket => true
  | .jsonSocket transport => transport.losesServer
  | _ => false

/-- `EndPoint.create`: its outcome, and `EndPoint.index` after it. -/
def createEndPoint (named address : Bool) : ClusterProtocol → ℕ → Except Err Unit × ℕ
  | .webSocket, i | .tcp, i | .unixDomainSocket, i | .test, i =>
    (.ok (), if named then i else i+1)
  | .udp port, i =>
    (if address ∧ port then .ok () else
      .error (.error "UDPEndPoint: No remote addr:port pair defined"), if named then i else i+1)
  -- the transport makes an endpoint of its own
  | .jsonSocket transport, i => createEndPoint named address transport (if named then i else i+1)
  | p, i => (.error (.error ("Adding an endpoint to a cluster of type \"" ++ p.text ++
      "\" is not supported")), i)

namespace Store

def setIndex (k : Kind) (i : ℕ) (w : Store) : Store :=
  { w with index := fun j => if j = k then i else w.index j }

/-- The name in the `EndPoint` constructor. -/
def endPointName (w : Store) (cl : Cluster) (ep : EndPointSpec) : String :=
  ep.name.getD (w.proposal .endpoint (cl.name ++ "-EndPoint-"))

def pushEndPoint (ep : EndPoint) (w : Store) : Store :=
  let w := w.modifyCluster ep.cluster (fun c => { c with endpoints := c.endpoints ++ [ep] })
  { w with endpoints := w.endpoints ++ [ep] }

def addressGiven : Given Bool → Bool
  | .ok address => address
  | _ => false

/-- `addEndPoint`, the body of which never waits. -/
def addEndPoint (c : String) (ep : EndPointSpec) (w : Store) : Except Err Unit × Store :=
  match validate ep.shape [.name false ep.name, .given "spec" true ep.spec] with
  | some e => (.error (cannotAdd "endpoint" e), w)
  | none =>
    if (ep.name.bind w.getEndPoint).isSome then
      (.error (cannotAdd "endpoint" (alreadyDefined "Endpoint" (ep.name.getD ""))), w)
    else match w.getCluster c with
    | none => (.error (.notFound ("Cannot add endpoint: Unknown cluster \"" ++ c ++ "\"")), w)
    | some cl =>
      match createEndPoint ep.name.isSome (addressGiven ep.spec) cl.protocol (w.index .endpoint) with
      | (.error e, i) => (.error e, w.setIndex .endpoint i)
      | (.ok _, i) => (.ok (), (w.setIndex .endpoint i).pushEndPoint ⟨w.endPointName cl ep, cl.name⟩)

/-- The loop of `addCluster` over its endpoints. `addEndPoint` is not awaited. -/
def addEndPoints (cu : String) : List EndPointArg → Op Store Err
  | [], w => (.ok (), w)
  | .null :: _, w => (.error .typeError, w)
  | .primitive :: _, w =>
    match w.inlineName .endpoint (cu ++ "-EndPoint-") none with
    | (.error e, w) => (.error e, w)
    -- a property of a primitive value cannot be set
    | (.ok _, w) => (.error .typeError, w)
  | .inline ep :: rest, w =>
    match w.inlineName .endpoint (cu ++ "-EndPoint-") ep.name with
    | (.error e, w) => (.error e, w)
    | (.ok n, w) =>
      let r := w.addEndPoint cu { ep with name := some n }
      addEndPoints cu rest (r.2.unhandled r.1)

/-- What `addCluster` does before it pushes the cluster. -/
def admitCluster (w : Store) (c : ClusterSpec) (autogenerated : Bool) : Except Err Cluster :=
  match validate c.shape [.name true c.name, .given "spec" true c.spec], c.name, c.spec with
  | none, some n, .ok protocol =>
    if (w.getCluster n).isSome then .error (cannotAdd "cluster" (alreadyDefined "Cluster" n))
    else match createCluster c.loadbalancer protocol with
      | .error e => .error e
      | .ok _ => .ok ⟨n, protocol, [], protocol.marks autogenerated⟩
  | some e, _, _ => .error (cannotAdd "cluster" e)
  -- the schema requires both properties
  | none, _, _ => .error .typeError

def pushCluster (cu : Cluster) (w : Store) : Store := { w with clusters := w.clusters ++ [cu] }

end Store

/-- `await cu.run()`. -/
def startCluster (cu : Cluster) : Add Unit := do
  let outcome ← Co.input []
  match outcome, cu.protocol with
  | some e, .l7mpController => throw e
  | _, _ => pure ()

def addInlineEndPoints (cu : Cluster) : Given (List EndPointArg) → Add Unit
  | .absent => pure ()
  | .invalid => throw .typeError
  | .ok eps => Add.sync (Store.addEndPoints cu.name eps)

def addCluster (A : Answers) (c : ClusterSpec) (autogenerated : Bool) : Add Unit := do
  let cu ← Add.sync (fun w => (w.admitCluster c autogenerated, w))
  Co.modify (Store.pushCluster cu)
  addInlineEndPoints cu c.endpoints
  tryCatch (startCluster cu) (fun err => do
    Add.sync (Store.deleteCluster A true cu.name)
    throw err)

namespace Store

/-- What `addRoute` checks first. -/
def admitRoute (w : Store) (r : RouteSpec) : Except Err String :=
  -- `r.destination = r.destination || r.cluster`
  if r.shape = .primitive then .error .typeError
  else match validate r.shape [.name true r.name, ⟨"destination", true, true, true⟩,
      .given "ingress" false r.ingress, .given "egress" false r.egress,
      .given "retry" false r.retry], r.name with
    | none, some n =>
      if (w.getRoute n).isSome then .error (cannotAdd "route" (alreadyDefined "Route" n))
      else .ok n
    | some e, _ => .error (cannotAdd "route" e)
    | none, none => .error .typeError

/-- `Route.create`. -/
def createRoute (r : RouteSpec) (n destination : String) (ingress egress : List String)
    (autogenerated : Bool) : Route :=
  { name := n, destination := destination, ingress := ingress, egress := egress,
    retry := match r.retry with
      | .ok retry => retry
      | _ => retryDefaultPolicy
    autogenerated := autogenerated }

def pushRoute (r : Route) (w : Store) : Store := { w with routes := w.routes ++ [r] }

end Store

/-- A cluster of route `n`; `base` is the template of its generated name, and `what` the text of
the error for something that is no cluster. -/
def addRouteCluster (A : Answers) (n base what : String) : ClusterArg → Add String
  | .named c => pure c
  | .null => throw .typeError
  | .other => throw (cannotAdd "route" what)
  | .inline c => do
    let name ← Add.sync (Store.inlineName .cluster base c.name)
    Co.await [.route n] (addCluster A { c with name := some name } true)
    pure name

/-- One direction of the chain of route `n`. -/
def addRouteChain (A : Answers) (n dir : String) : List ClusterArg → Add (List String)
  | [] => pure []
  | c :: rest => do
    let name ← addRouteCluster A n (n ++ "-" ++ dir ++ "-Cluster-") "Invalid cluster" c
    let names ← addRouteChain A n dir rest
    pure (name :: names)

def Given.toList {α : Type} : Given (List α) → List α
  | .ok l => l
  | _ => []

def addRoute (A : Answers) (r : RouteSpec) (autogenerated : Bool) : Add Unit := do
  let n ← Add.sync (fun w => (w.admitRoute r, w))
  let destination ← addRouteCluster A n (n ++ "-Cluster-") "Invalid destination" r.destination
  let ingress ← addRouteChain A n "ingress" r.ingress.toList
  let egress ← addRouteChain A n "egress" r.egress.toList
  Co.modify (Store.pushRoute
    (Store.createRoute r n destination ingress egress autogenerated))

namespace Store

def ruleRoute : Option RouteArg → RuleRoute
  | none => .absent
  | some (.named n) => .named n
  | some _ => .unresolved

/-- What `addRule` does before it pushes the rule. -/
def admitRule (w : Store) (r : RuleSpec) (autogenerated : Bool) :
    Except Err (Rule × Option RouteArg) :=
  match validate r.shape [.name true r.name, .given "action" true r.action], r.name, r.action with
  | none, some n, .ok action =>
    if (w.getRule n).isSome then .error (cannotAdd "rule" (alreadyDefined "Rule" n))
    else .ok (⟨w.nextId, n, ruleRoute action, autogenerated⟩, action)
  | some e, _, _ => .error (cannotAdd "rule" e)
  | none, _, _ => .error .typeError

def pushRule (r : Rule) (w : Store) : Store :=
  { w with rules := w.rules ++ [r], nextId := w.nextId + 1 }

def resolveRoute (id : ℕ) (n : String) (w : Store) : Store :=
  w.modifyRule id (fun r => { r with route := .named n })

end Store

/-- The route of a rule that was pushed. -/
def addRuleRoute (A : Answers) (r : Rule) : Option RouteArg → Add Unit
  | none => pure ()
  | some (.named _) => pure ()
  | some .other => throw (cannotAdd "rule" "Invalid route")
  | some (.inline route) => do
    let n ← Add.sync (Store.inlineName .route (r.name ++ "-Route-") route.name)
    Co.await [] (addRoute A { route with name := some n } true)
    Co.modify (Store.resolveRoute r.id n)

def addRule (A : Answers) (r : RuleSpec) (autogenerated : Bool) : Add Unit := do
  let (rule, route) ← Add.sync (fun w => (w.admitRule r autogenerated, w))
  Co.modify (Store.pushRule rule)
  addRuleRoute A rule route

namespace Store

/-- The checks of the position. -/
def admitPosition (w : Store) (id : ℕ) (pos : ℤ) : Except Err String :=
  match w.ruleList? id with
  | none => .error (cannotAdd "rule to rulelist" "Invalid rulelist")
  | some rl =>
    if pos < 0 ∨ pos > rl.rules.length then
      .error (.error ("Cannot insert rule at position " ++ toString pos ++ " into rulelist"))
    else .ok rl.name

def insertRule (id : ℕ) (pos : ℕ) (n : String) (w : Store) : Store :=
  w.modifyRuleList id (fun rl => { rl with rules := rl.rules.take pos ++ n :: rl.rules.drop pos })

end Store

/-- The rule of `addRuleToRuleList`, for the rulelist `list`. -/
def addRuleArg (A : Answers) (list : String) : RuleArg → Add String
  | .named n => pure n
  | .null => throw .typeError
  | .other => throw (cannotAdd "rule to rulelist" "Invalid rule")
  | .inline r => do
    let n ← Add.sync (Store.inlineName .rule (list ++ "-Rule-") r.name)
    Co.await [] (addRule A { r with name := some n } true)
    pure n

def addRuleToRuleList (A : Answers) (id : ℕ) (rule : RuleArg) (pos : ℤ) : Add Unit := do
  let list ← Add.sync (fun w => (w.admitPosition id pos, w))
  let n ← addRuleArg A list rule
  Co.modify (Store.insertRule id pos.toNat n)

/-- The loop of `addRuleList`, from position `pos`. -/
def addRules (A : Answers) (id : ℕ) : ℕ → List RuleArg → Add Unit
  | _, [] => pure ()
  | pos, r :: rest => do
    Co.await [] (addRuleToRuleList A id r pos)
    addRules A id (pos+1) rest

namespace Store

/-- What `addRuleList` does before it pushes the rulelist. -/
def admitRuleList (w : Store) (r : RuleListSpec) (autogenerated : Bool) :
    Except Err (RuleList × List RuleArg) :=
  match validate r.shape [.name true r.name, .given "rules" true r.rules], r.name, r.rules with
  | none, some n, .ok rules =>
    if (w.getRuleList n).isSome then .error (cannotAdd "RuleList" (alreadyDefined "RuleList" n))
    else .ok (⟨w.nextId, n, [], autogenerated⟩, rules)
  | some e, _, _ => .error (cannotAdd "RuleList" e)
  | none, _, _ => .error .typeError

def pushRuleList (rl : RuleList) (w : Store) : Store :=
  { w with rulelists := w.rulelists ++ [rl], nextId := w.nextId + 1 }

end Store

def addRuleList (A : Answers) (r : RuleListSpec) (autogenerated : Bool) : Add Unit := do
  let (rl, rules) ← Add.sync (fun w => (w.admitRuleList r autogenerated, w))
  Co.modify (Store.pushRuleList rl)
  addRules A rl.id 0 rules

namespace Store

/-- What `addListener` does before it looks at the rules. -/
def admitListener (w : Store) (l : ListenerSpec) (autogenerated : Bool) :
    Except Err (Listener × ListenerRules) :=
  match validate l.shape [.name true l.name, .given "spec" true l.spec,
      .given "rules" true l.rules], l.name, l.spec, l.rules with
  | none, some n, .ok protocol, .ok rules =>
    if (w.getListener n).isSome then .error (cannotAdd "listener" (alreadyDefined "Listener" n))
    else match createListener protocol with
      | .error e => .error e
      | .ok _ => .ok (⟨w.nextId, n, protocol, "", autogenerated, true⟩, rules)
  | some e, _, _, _ => .error (cannotAdd "listener" e)
  | none, _, _, _ => .error .typeError

def takeId (w : Store) : Store := { w with nextId := w.nextId + 1 }

def pushListener (l : Listener) (w : Store) : Store := { w with listeners := w.listeners ++ [l] }

def loseServer (l : Listener) (w : Store) : Store :=
  if l.protocol.losesServer then w.modifyListener l.id (fun l => { l with closable := false }) else w

end Store

/-- `await li.run()`. -/
def startListener (l : Listener) : Add Unit := do
  let outcome ← Co.input []
  match outcome, l.protocol.alwaysStarts with
  | some e, false => do
    Co.modify (Store.loseServer l)
    throw e
  | _, _ => pure ()

/-- The rulelist of listener `l`. -/
def addListenerRules (A : Answers) (l : Listener) : ListenerRules → Add String
  | .named n => pure n
  | .inline rules => do
    let n ← Add.sync (Store.inlineName .rulelist (l.name ++ "-RuleList-") none)
    Co.await [.listener l.name] (addRuleList A ⟨.plain, some n, .ok rules⟩ true)
    pure n

def addListener (A : Answers) (l : ListenerSpec) (autogenerated : Bool) : Add Unit := do
  let (li, rules) ← Add.sync (fun w => (w.admitListener l autogenerated, w))
  Co.modify Store.takeId
  let n ← addListenerRules A li rules
  Co.modify (Store.pushListener { li with rules := n })
  tryCatch (startListener li) (fun err => do
    Add.sync (Store.deleteListener A true li.name)
    throw err)

end L7mp
