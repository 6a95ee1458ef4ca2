import L7mp.SessionState

/-! The arguments of the configuration API, as far as its functions look at them, and the
checks of a schema. -/
namespace L7mp

/-- What a promise is rejected with. -/
inductive Err
  | error (message : String)
  | notFound (message : String)
  | typeError
  | referenceError (name : String)
  deriving DecidableEq, Repr

/-- A plain object, another object such as an array, or no object at all. -/
inductive Shape
  | plain | exotic | primitive
  deriving DecidableEq, Repr

/-- A property that must be an object or an array: it is missing, of another type, or given. -/
inductive Given (α : Type)
  | absent
  | invalid
  | ok (a : α)

/-- The whitespace that `\S` excludes. -/
def jsSpace (c : Char) : Bool :=
  c ∈ ['\t', '\n', '\x0b', '\x0c', '\r', ' ', '\u00a0', '\u1680', '\u2028', '\u2029', '\u202f',
    '\u205f', '\u3000', '\ufeff'] || ('\u2000' ≤ c && c ≤ '\u200a')

/-- `/^\S+?$/`. -/
def validName (n : String) : Bool := n.toList ≠ [] && n.toList.all (fun c => !jsSpace c)

/-- One property of a schema, checked on an argument. -/
structure Property where
  key : String
  required : Bool
  present : Bool
  valid : Bool

namespace Property

def fails (p : Property) : Bool := (p.required && !p.present) || (p.present && !p.valid)

def message (p : Property) : String :=
  "Property " ++ p.key ++ " is " ++ (if p.required && !p.present then "required" else "invalid")

/-- The property `name`. -/
def name (required : Bool) (n : Option String) : Property :=
  ⟨"name", required, n.isSome, n.any validName⟩

/-- A property with a check of its type. -/
def given {α : Type} (key : String) (required : Bool) : Given α → Property
  | .absent => ⟨key, required, false, false⟩
  | .invalid => ⟨key, required, true, false⟩
  | .ok _ => ⟨key, required, true, true⟩

end Property

/-- `validate`: the first property of the schema that fails. -/
def validate (shape : Shape) (schema : List Property) : Option String :=
  if shape = .plain then (schema.find? Property.fails).map Property.message
  else some "An object (a set of key-value pairs) is expected"

/-- `spec.protocol` of a cluster, with the parts of `spec` that its constructors test: the port
that a UDP endpoint needs, and the transport of a JSONSocket cluster. -/
inductive ClusterProtocol
  | test | http | webSocket | udp (port : Bool) | tcp | unixDomainSocket
  | jsonSocket (transport : ClusterProtocol) | jsonSocketBare
  | stdio | echo | discard | logger | jsonEncap | jsonDecap | sync | l7mpController | prometheus
  | metric | other (protocol : String)
  deriving DecidableEq, Repr

def ClusterProtocol.text : ClusterProtocol → String
  | .test => "Test" | .http => "HTTP" | .webSocket => "WebSocket" | .udp _ => "UDP"
  | .tcp => "TCP" | .unixDomainSocket => "UnixDomainSocket"
  | .jsonSocket _ | .jsonSocketBare => "JSONSocket" | .stdio => "Stdio" | .echo => "Echo"
  | .discard => "Discard" | .logger => "Logger" | .jsonEncap => "JSONEncap"
  | .jsonDecap => "JSONDecap" | .sync => "Sync" | .l7mpController => "L7mpController"
  | .prometheus => "Prometheus" | .metric => "Metric" | .other p => p

/-- `spec.options.mode` of a UDP listener. -/
inductive UdpMode
  | unset | singleton | server
  deriving DecidableEq, Repr

/-- `spec.protocol` of a listener; `connect` says that a remote address and port are given. -/
inductive ListenerProtocol
  | http | webSocket | udp (mode : UdpMode) (connect : Bool) | tcp | unixDomainSocket
  | jsonSocket (transport : ListenerProtocol) | jsonSocketBare | test | other (protocol : String)
  deriving DecidableEq, Repr

/-- `address` says that `spec.address` is given. -/
structure EndPointSpec where
  shape : Shape
  name : Option String
  spec : Given Bool

inductive EndPointArg
  | null
  | primitive
  | inline (ep : EndPointSpec)

/-- `loadbalancer` is the policy, if a load balancer is given at all. -/
structure ClusterSpec where
  shape : Shape
  name : Option String
  spec : Given ClusterProtocol
  loadbalancer : Option (Option String)
  endpoints : Given (List EndPointArg)

/-- A cluster in a route: a name, an inline cluster, `null`, or something else. -/
inductive ClusterArg
  | named (n : String)
  | inline (c : ClusterSpec)
  | null
  | other

/-- `destination` is what `r.destination || r.cluster` gives. -/
structure RouteSpec where
  shape : Shape
  name : Option String
  destination : ClusterArg
  ingress : Given (List ClusterArg)
  egress : Given (List ClusterArg)
  retry : Given Retry

inductive RouteArg
  | named (n : String)
  | inline (r : RouteSpec)
  | other

/-- `action` is the route of the action, if it has one. -/
structure RuleSpec where
  shape : Shape
  name : Option String
  action : Given (Option RouteArg)

inductive RuleArg
  | named (n : String)
  | inline (r : RuleSpec)
  | null
  | other

structure RuleListSpec where
  shape : Shape
  name : Option String
  rules : Given (List RuleArg)

/-- The rules of a listener are a list or the name of a rulelist. -/
inductive ListenerRules
  | inline (rules : List RuleArg)
  | named (n : String)

structure ListenerSpec where
  shape : Shape
  name : Option String
  spec : Given ListenerProtocol
  rules : Given ListenerRules

end L7mp
