import L7mp.OperatorActions
import Mathlib.Data.List.Dedup
import Mathlib.Data.List.Sort

/-! The commands that take the proxies from one state of the cluster to the next. -/
namespace L7mp.Operator
open Python

/-- What a proxy has under a name; endpoints belong to a cluster. -/
structure Registered where
  cluster : Option ActionName
  spec : Value
  deriving DecidableEq, Repr

/-- Equal up to `==` of the specifications. -/
def Same (r r' : Option Registered) : Prop :=
  r.map (fun r => (r.cluster, r.spec.canon)) = r'.map (fun r => (r.cluster, r.spec.canon))

instance (r r' : Option Registered) : Decidable (Same r r') :=
  inferInstanceAs (Decidable (_ = _))

/-- The listeners, clusters and endpoints of a proxy; no name is that of two of them. What is
registered is compared by the specification that the operator has, before it is converted. -/
abbrev Proxy := ActionName → Option Registered

def Action.registered (a : Action) : Registered := ⟨a.target.map .obj, a.spec⟩

namespace Proxy

/-- An object that is already defined stays as it is. -/
def add (n : ActionName) (r : Registered) (p : Proxy) : Proxy :=
  fun m => if m = n then (p n).or (some r) else p m

def delete (n : ActionName) (p : Proxy) : Proxy := fun m => if m = n then none else p m

/-- A cluster goes with its endpoints. -/
def deleteCluster (n : ActionName) (p : Proxy) : Proxy :=
  if (p n).isSome then
    fun m => if m = n then none else (p m).filter (fun r => r.cluster ≠ some n)
  else p

end Proxy

/-- A coroutine that talks to a proxy. -/
abbrev Exec := Proxy → Except Exc Unit × Proxy

def getL7mpInstance (pod : Value) : Except Exc Unit := do
  let podIp ← (← pod.item "status").get "podIP" .none
  let pname ← namePart (← (← pod.item "metadata").item "name")
  if podIp.truthy then return else throw (.temporary ("no pod_ip for " ++ pname))

/-- Do it to the proxy of the pod. -/
def withInstance (pod : Value) (f : Exec) : Exec := fun p =>
  match getL7mpInstance pod with
  | .error e => (.error e, p)
  | .ok _ => f p

/-- What all deletions begin with. -/
def ifListed (s : ClusterState) (pod : Value) (f : Exec) : Exec := fun p =>
  match getFqn pod with
  | .error e => (.error e, p)
  | .ok fqn => if fqn ∈ s.pods.map Prod.fst then f p else (.ok (), p)

/-- One after the other. -/
def andThen (f g : Exec) : Exec := fun p =>
  match f p with
  | (.error e, p) => (.error e, p)
  | (.ok _, p) => g p

def execAddVsvc (pod : Value) (action : Action) : Exec :=
  withInstance pod (fun p => (.ok (), p.add action.name action.registered))

def execDeleteVsvc (s : ClusterState) (pod : Value) (action : Action) : Exec :=
  ifListed s pod (withInstance pod (fun p => (.ok (), p.delete action.name)))

def execChangeVsvc (s : ClusterState) (pod : Value) (actionOld actionNew : Action) : Exec :=
  andThen (execDeleteVsvc s pod actionOld) (execAddVsvc pod actionNew)

def execAddTarget (pod : Value) (action : Action) : Exec :=
  withInstance pod (fun p => (.ok (), p.add action.name action.registered))

def execDeleteTarget (s : ClusterState) (pod : Value) (action : Action) : Exec :=
  ifListed s pod (withInstance pod (fun p => (.ok (), p.deleteCluster action.name)))

def execChangeTarget (s : ClusterState) (pod : Value) (actionOld actionNew : Action) : Exec :=
  andThen (execDeleteTarget s pod actionOld) (execAddTarget pod actionNew)

/-- An endpoint can only be added to a cluster that is there. -/
def execAddDynamicEndpoint (pod : Value) (action : Action) : Exec := fun p =>
  match action.target with
  | none => (.error (.keyError "target"), p)
  | some cname => withInstance pod (fun p =>
      if (p (.obj cname)).isSome then (.ok (), p.add action.name action.registered)
      else (.error (.other "ApiException" cname.render), p)) p

def execDeleteDynamicEndpoint (s : ClusterState) (pod : Value) (action : Action) : Exec :=
  ifListed s pod (fun p =>
    match action.target with
    | none => (.error (.keyError "target"), p)
    | some cname =>
      -- the endpoints of a deleted cluster are gone
      if cname ∉ s.targets.map Prod.fst then (.ok (), p)
      else withInstance pod (fun p => (.ok (), p.delete action.name)) p)

def execChangeDynamicEndpoint (s : ClusterState) (pod : Value) (actionOld actionNew : Action) :
    Exec :=
  andThen (execDeleteDynamicEndpoint s pod actionOld) (execAddDynamicEndpoint pod actionNew)

/-- The rule lists of a proxy are left out, and with them what the commands do to them. -/
def execRule : Exec := fun p => (.ok (), p)

/-- The three kinds of commands. -/
inductive Change
  | add (new : Action)
  | delete (old : Action)
  | change (old new : Action)
  deriving DecidableEq, Repr

/-- The type and the name of the new action, or of the old one if there is no new one. -/
def Change.subject : Change → Action
  | .add new | .change _ new => new
  | .delete old => old

/-- `globals()[fn_name]`. -/
def exec (s : ClusterState) (pod : Value) (c : Change) : Exec :=
  match c.subject.type, c with
  | .vsvc, .add new => execAddVsvc pod new
  | .vsvc, .delete old => execDeleteVsvc s pod old
  | .vsvc, .change old new => execChangeVsvc s pod old new
  | .target, .add new => execAddTarget pod new
  | .target, .delete old => execDeleteTarget s pod old
  | .target, .change old new => execChangeTarget s pod old new
  | .dynamicEndpoint, .add new => execAddDynamicEndpoint pod new
  | .dynamicEndpoint, .delete old => execDeleteDynamicEndpoint s pod old
  | .dynamicEndpoint, .change old new => execChangeDynamicEndpoint s pod old new
  | .rule, _ => execRule

/-- The pod is the one whose proxy gets the command. -/
structure Command where
  pod : Fqn
  change : Change
  deriving DecidableEq, Repr

/-- The key under which a command is kept. -/
def Command.id (c : Command) : Fqn × ActionType × ActionName :=
  (c.pod, c.change.subject.type, c.change.subject.name)

def call (s : ClusterState) (c : Command) : Exec := fun p =>
  match s.pods.lookup c.pod with
  | none => (.ok (), p)
  | some pod => exec s pod c.change p

/-- Which command takes one action to the other. -/
def change : Option Action → Option Action → Option Change
  | none, none => none
  | none, some new => some (.add new)
  | some old, none => some (.delete old)
  | some old, some new => if old.Eqv new then none else some (.change old new)

def sortedNames (names : List ActionName) : List ActionName :=
  names.dedup.insertionSort (fun a b => a.key ≤ b.key)

/-- The names of the actions of a pod. -/
def namesOf (pod : Fqn) (a : Actions) : List ActionName :=
  (a.filter (fun e => e.1.1 = pod)).map (fun e => e.1.2)

def podCommands (aOld aNew : Actions) (pod : Fqn) : List Command :=
  (sortedNames (namesOf pod (aOld ++ aNew))).filterMap (fun n =>
    (change (aOld.lookup (pod, n)) (aNew.lookup (pod, n))).map (fun c => ⟨pod, c⟩))

/-- The commands of the difference between two sets of actions. Python does not say in which order
the pods come, but each has its own proxy. -/
def commands (aOld aNew : Actions) : List Command :=
  (Dict.assign ((((aOld ++ aNew).map (fun e => e.1.1)).dedup.flatMap
    (podCommands aOld aNew)).map (fun c => (c.id, c)))).map Prod.snd

/-- `update(s_old, s_new)`, when the state of the operator is `g`: the new actions are those of the
state of the operator. -/
def update (g sOld : ClusterState) : Except Exc (List Command) := do
  let aOld ← getActions g sOld
  let aNew ← getActions g g
  return commands aOld aNew

/-- A command that raises leaves the others to run. -/
def runCommands (s : ClusterState) (l : List Command) (proxies : Fqn → Proxy) : Fqn → Proxy :=
  l.foldl (fun ps c => fun f => if f = c.pod then (call s c (ps f)).2 else ps f) proxies

/-- What the actions want the proxy of a pod to have. -/
def wanted (a : Actions) (pod : Fqn) : Proxy := fun n =>
  ((a.lookup (pod, n)).filter (fun a => a.type ≠ .rule)).map Action.registered

/-- The proxy has exactly what is wanted. -/
def Proxy.Holds (p want : Proxy) : Prop := ∀ n, Same (p n) (want n)

/-- A target is deleted, also when another one takes its place. -/
def Dropped (old new : Proxy) (t : Fqn) : Prop :=
  (old (.obj t)).isSome ∧ ¬Same (old (.obj t)) (new (.obj t))

instance (old new : Proxy) (t : Fqn) : Decidable (Dropped old new t) :=
  inferInstanceAs (Decidable (_ ∧ _))

/-- The proxy has `held`, and the commands go from `old` to `new`. Objects that seem to be the same
are there as they should be, and no other object is in the way of one that is added. Endpoints
that seem to stay are there, and their target is not deleted; those that seem not to be there are
not, or they go with their target. -/
structure Settles (held old new : Proxy) : Prop where
  kept : ∀ f, Same (old (.obj f)) (new (.obj f)) → Same (held (.obj f)) (new (.obj f))
  added : ∀ f, old (.obj f) = none →
    held (.obj f) = none ∨ Same (held (.obj f)) (new (.obj f))
  endpoints : ∀ t ip, (old (.endpoint t ip)).isSome = (new (.endpoint t ip)).isSome →
    ((held (.endpoint t ip)).isSome = true ∧ ¬Dropped old new t ↔
      (new (.endpoint t ip)).isSome = true)

end L7mp.Operator
