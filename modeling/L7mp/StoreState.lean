import L7mp.KeyedList
import L7mp.Names
import L7mp.StoreConfig

/-! The object hierarchy of `l7mp`: the collections, the counters of generated names and what
the collections are asked for. -/
namespace L7mp
open KeyedList

structure EndPoint where
  name : String
  /-- The name of the cluster object. -/
  cluster : String
  deriving DecidableEq, Repr

structure Cluster where
  name : String
  protocol : ClusterProtocol
  endpoints : List EndPoint
  autogenerated : Bool
  deriving DecidableEq, Repr

/-- `action.route` of a rule: there is none, it is still inline, or it is a name. -/
inductive RuleRoute
  | absent
  | unresolved
  | named (n : String)
  deriving DecidableEq, Repr

/-- Rules, rulelists and listeners are changed through references; `id` tells the objects
apart. -/
structure Rule where
  id : ℕ
  name : String
  route : RuleRoute
  autogenerated : Bool
  deriving DecidableEq, Repr

structure RuleList where
  id : ℕ
  name : String
  rules : List String
  autogenerated : Bool
  deriving DecidableEq, Repr

/-- `rules` is the name of a rulelist. A listener whose server could not be made has nothing that
`close` could close. -/
structure Listener where
  id : ℕ
  name : String
  protocol : ListenerProtocol
  rules : String
  autogenerated : Bool
  closable : Bool
  deriving DecidableEq, Repr

/-- The classes that count the names they generate. -/
inductive Kind
  | rulelist | rule | route | cluster | endpoint
  deriving DecidableEq, Repr

/-- The collections. -/
structure Config where
  listeners : List Listener
  clusters : List Cluster
  rulelists : List RuleList
  rules : List Rule
  routes : List Route
  endpoints : List EndPoint
  deriving DecidableEq, Repr

/-- `detached` are the rulelist objects that left their collection, and `rejections` the errors
of promises that nobody handles. -/
structure Store extends Config where
  sessions : List Session
  detached : List RuleList
  index : Kind → ℕ
  nextId : ℕ
  rejections : List Err

namespace Store

/-- The constructor of `L7mp`. -/
def empty : Store := ⟨⟨[], [], [], [], [], []⟩, [], [], fun _ => 0, 0, []⟩

def getListener (w : Store) (n : String) : Option Listener := lookup Listener.name n w.listeners
def getCluster (w : Store) (n : String) : Option Cluster := lookup Cluster.name n w.clusters
def getRuleList (w : Store) (n : String) : Option RuleList := lookup RuleList.name n w.rulelists
def getRule (w : Store) (n : String) : Option Rule := lookup Rule.name n w.rules
def getRoute (w : Store) (n : String) : Option Route := lookup Route.name n w.routes
def getEndPoint (w : Store) (n : String) : Option EndPoint := lookup EndPoint.name n w.endpoints

/-- The `get` function of a kind, as `newName` uses it. -/
def taken (w : Store) : Kind → String → Bool
  | .rulelist, n => (w.getRuleList n).isSome
  | .rule, n => (w.getRule n).isSome
  | .route, n => (w.getRoute n).isSome
  | .cluster, n => (w.getCluster n).isSome
  | .endpoint, n => (w.getEndPoint n).isSome

/-- `index++`. -/
def bump (k : Kind) (w : Store) : Store :=
  { w with index := fun j => if j = k then w.index j + 1 else w.index j }

/-- What `newName` throws. -/
def noNewName (name : String) : Err :=
  .error ("Cannot create new name from " ++ name ++ ": Could not find new name after" ++
    toString maxNameAttempts ++ " iterations")

/-- The name that a template with a counter proposes, and the name made of it. -/
def proposal (w : Store) (k : Kind) (base : String) : String := base ++ toString (w.index k)

def generated (w : Store) (k : Kind) (base : String) : Except Err String :=
  match newName (w.proposal k base) (w.taken k) with
  | some n => .ok n
  | none => .error (noNewName (w.proposal k base))

/-- The name that `name || newName(...)` makes up, if the name is missing or empty. -/
def needsName (name : Option String) : Bool := name = none || name = some ""

/-- `name || this.newName(...)`. -/
def inlineName (k : Kind) (base : String) (name : Option String) (w : Store) :
    Except Err String × Store :=
  if needsName name then (w.generated k base, w.bump k) else (.ok (name.getD ""), w)

/-- The rulelist object, in its collection or not. -/
def ruleList? (w : Store) (id : ℕ) : Option RuleList :=
  (w.rulelists ++ w.detached).find? (fun rl => rl.id = id)

def modifyRuleList (id : ℕ) (f : RuleList → RuleList) (w : Store) : Store :=
  let g rl := if rl.id = id then f rl else rl
  { w with rulelists := w.rulelists.map g, detached := w.detached.map g }

def dropRuleList (n : String) (w : Store) : Store :=
  { w with rulelists := remove RuleList.name n w.rulelists,
           detached := w.detached ++ (w.getRuleList n).toList }

def modifyListener (id : ℕ) (f : Listener → Listener) (w : Store) : Store :=
  { w with listeners := w.listeners.map (fun l => if l.id = id then f l else l) }

def modifyRule (id : ℕ) (f : Rule → Rule) (w : Store) : Store :=
  { w with rules := w.rules.map (fun r => if r.id = id then f r else r) }

/-- `cl.addEndPoint` and `cl.deleteEndPoint` of the cluster object that `getCluster` finds. -/
def modifyCluster (n : String) (f : Cluster → Cluster) (w : Store) : Store :=
  { w with clusters := modify Cluster.name n f w.clusters }

/-- A promise is rejected and nobody handles it. -/
def unhandled {α : Type} (r : Except Err α) (w : Store) : Store :=
  match r with
  | .ok _ => w
  | .error e => { w with rejections := w.rejections ++ [e] }

end Store
end L7mp
