import L7mp.KeyedGroups
import L7mp.StoreSevered

/-! Where the endpoints of a cluster are kept: in the registry, in the list of the cluster, and for
a JSONSocket cluster also in the list of its transport, which is a cluster that is not
registered and may have a transport of its own. -/
namespace L7mp
open Aborting GuardedRun KeyedList

/-- How many transports lie below a cluster. -/
def ClusterProtocol.depth : ClusterProtocol → ℕ
  | .jsonSocket transport => transport.depth + 1
  | _ => 0

/-- The name of transport `k` below a cluster. -/
def transportName (n : String) : ℕ → String
  | 0 => n ++ "-transport-cluster"
  | k+1 => transportName n k ++ "-transport-cluster"

/-- An endpoint in the list of a transport, and the endpoint of the cluster that made it. -/
structure TransportEndPoint where
  name : String
  endpoint : EndPoint
  deriving DecidableEq, Repr

/-- `transports n k` is the list of transport `k` below cluster `n`, and `starting` are the
clusters whose `run` `addCluster` waits for. -/
structure ClusterRegistry where
  store : Store
  transports : String → ℕ → List TransportEndPoint
  starting : List Cluster

namespace ClusterRegistry

def start : ClusterRegistry := ⟨Store.empty, fun _ _ => [], []⟩

/-- A new cluster has new transports. -/
def pushCluster (cu : Cluster) (s : ClusterRegistry) : ClusterRegistry :=
  { s with store := s.store.pushCluster cu,
           transports := fun n k => if n = cu.name then [] else s.transports n k }

/-- The endpoint that transport `k` makes. The constructor of `EndPoint` runs for the cluster
first, and then for one transport after the other. -/
def transportEndPoint (s : ClusterRegistry) (cl : Cluster) (ep : EndPointSpec) (k : ℕ) :
    TransportEndPoint where
  name := ep.name.getD
    (transportName cl.name k ++ "-EndPoint-" ++ toString (s.store.index .endpoint + 1 + k))
  endpoint := ⟨s.store.endPointName cl ep, cl.name⟩

/-- `this.cluster.transport.addEndPoint(e)` of every level. -/
def addToTransports (cl : Cluster) (ep : EndPointSpec) (s : ClusterRegistry) :
    String → ℕ → List TransportEndPoint := fun n k =>
  if n = cl.name ∧ k < cl.protocol.depth then s.transports n k ++ [s.transportEndPoint cl ep k]
  else s.transports n k

/-- `addEndPoint`: the transports get theirs if no constructor throws. -/
def addEndPoint (c : String) (ep : EndPointSpec) (s : ClusterRegistry) :
    Except Err Unit × ClusterRegistry :=
  let r := s.store.addEndPoint c ep
  match r.1, s.store.getCluster c with
  | .ok _, some cl => (r.1, { s with store := r.2, transports := s.addToTransports cl ep })
  | _, _ => (r.1, { s with store := r.2 })

/-- The loop of `addCluster` over its endpoints. -/
def addEndPoints (cu : String) : List EndPointArg → Op ClusterRegistry Err
  | [], s => (.ok (), s)
  | .null :: _, s => (.error .typeError, s)
  | .primitive :: _, s =>
    match s.store.inlineName .endpoint (cu ++ "-EndPoint-") none with
    | (.error e, w) => (.error e, { s with store := w })
    | (.ok _, w) => (.error .typeError, { s with store := w })
  | .inline ep :: rest, s =>
    match s.store.inlineName .endpoint (cu ++ "-EndPoint-") ep.name with
    | (.error e, w) => (.error e, { s with store := w })
    | (.ok n, w) =>
      let r := addEndPoint cu { ep with name := some n } { s with store := w }
      addEndPoints cu rest { r.2 with store := r.2.store.unhandled r.1 }

def addInlineEndPoints (cu : String) : Given (List EndPointArg) → Op ClusterRegistry Err
  | .absent => skip
  | .invalid => throw .typeError
  | .ok eps => addEndPoints cu eps

/-- `addCluster`, up to `await cu.run()`. -/
def addCluster (c : ClusterSpec) (autogenerated : Bool) (s : ClusterRegistry) : ClusterRegistry :=
  match s.store.admitCluster c autogenerated with
  | .error _ => s
  | .ok cu =>
    match addInlineEndPoints cu.name c.endpoints (s.pushCluster cu) with
    | (.error _, s) => s
    | (.ok _, s) => { s with starting := s.starting ++ [cu] }

/-- The functions that delete do not know of transports. -/
def deleteEndPoint (A : Answers) (recursive : Bool) (n : String) (s : ClusterRegistry) :
    ClusterRegistry :=
  { s with store := (s.store.deleteEndPoint A recursive n).2 }

def deleteCluster (A : Answers) (recursive : Bool) (n : String) (s : ClusterRegistry) :
    ClusterRegistry :=
  { s with store := (s.store.deleteCluster A recursive n).2 }

/-- The rest of `addCluster`. -/
def started (cu : Cluster) (outcome : Option Err) (A : Answers) (s : ClusterRegistry) :
    ClusterRegistry :=
  match outcome, cu.protocol with
  | some _, .l7mpController => s.deleteCluster A true cu.name
  | _, _ => s

/-- The requests, the end of a `run`, and whatever happens to the sessions in between. -/
inductive Event
  | addCluster (c : ClusterSpec) (autogenerated : Bool)
  | started (k : ℕ) (outcome : Option Err) (A : Answers)
  | deleteCluster (n : String) (recursive : Bool) (A : Answers)
  | addEndPoint (c : String) (ep : EndPointSpec)
  | deleteEndPoint (n : String) (recursive : Bool) (A : Answers)
  | sessions (l : { l : List Session // ∀ s ∈ l, s.Staged })

def step (s : ClusterRegistry) : Event → Option ClusterRegistry
  | .addCluster c autogenerated => some (s.addCluster c autogenerated)
  | .started k outcome A =>
    (s.starting[k]?).map (fun cu =>
      started cu outcome A { s with starting := s.starting.eraseIdx k })
  | .deleteCluster n recursive A => some (s.deleteCluster A recursive n)
  | .addEndPoint c ep => some (s.addEndPoint c ep).2
  | .deleteEndPoint n recursive A => some (s.deleteEndPoint A recursive n)
  | .sessions l => some { s with store := { s.store with sessions := l.val } }

/-- The registry consists of the endpoints that the registered clusters list, and a transport has
one entry for each endpoint of its cluster. -/
structure Mirrored (s : ClusterRegistry) : Prop where
  registry : s.store.endpoints.Perm (s.store.clusters.flatMap Cluster.endpoints)
  owned : ∀ e ∈ s.store.endpoints, ∃ c ∈ s.store.clusters, c.name = e.cluster
  transports : ∀ c ∈ s.store.clusters, ∀ k < c.protocol.depth,
    ((s.transports c.name k).map TransportEndPoint.endpoint).Perm c.endpoints

/-- The endpoint that `n` finds in the registry is of a cluster without a transport. -/
def Untransported (w : Store) (n : String) : Prop :=
  ∀ ep ∈ w.getEndPoint n, ∀ c ∈ w.getCluster ep.cluster, c.protocol.depth = 0

/-- Every session can do without the cluster, so that the deletion does not break off over one. -/
def Undisturbed (w : Store) (c : Cluster) (recursive : Bool) : Prop :=
  recursive = true → c.endpoints ≠ [] →
    ∀ s ∈ w.sessions, s.Closable c.name (c.endpoints.map EndPoint.name)

/-- A cluster takes its own endpoints with it: none of them comes after an endpoint of the same
name of another cluster. If it has a transport, the deletion does not break off in between. -/
def GoesWhole (w : Store) (c : Cluster) (recursive : Bool) : Prop :=
  Leads EndPoint.name (fun e => decide (e.cluster = c.name)) w.endpoints ∧
    (c.protocol.depth = 0 ∨ Undisturbed w c recursive)

/-- A session without a destination stops a recursive deletion before the first endpoint. -/
def Stopped (w : Store) (recursive : Bool) : Prop :=
  recursive = true ∧ ∃ s ∈ w.sessions, s.destination = none

/-- The name of the endpoint that a step deletes. -/
def endPointOf : Event → Option String
  | .deleteEndPoint n _ _ => some n
  | _ => none

/-- The name of the cluster that a step deletes, and whether recursively. -/
def clusterOf (s : ClusterRegistry) : Event → Option (String × Bool)
  | .deleteCluster n recursive _ => some (n, recursive)
  | .started k (some _) _ => (s.starting[k]?).bind (fun cu =>
      if cu.protocol = .l7mpController then some (cu.name, true) else none)
  | _ => none

/-- The steps that keep the three places together. -/
def Meets (s : ClusterRegistry) (e : Event) : Prop :=
  (∀ n ∈ endPointOf e, Untransported s.store n) ∧
  ∀ d ∈ clusterOf s e, ∀ c ∈ s.store.getCluster d.1, Stopped s.store d.2 ∨ GoesWhole s.store c d.2

/-- No deletion breaks off over a session. -/
def Calm (s : ClusterRegistry) (e : Event) : Prop :=
  ∀ d ∈ clusterOf s e, ∀ c ∈ s.store.getCluster d.1, Undisturbed s.store c d.2

instance (w : Store) (n : String) : Decidable (Untransported w n) :=
  inferInstanceAs (Decidable (∀ ep ∈ w.getEndPoint n, ∀ c ∈ w.getCluster ep.cluster, _))

instance (w : Store) (c : Cluster) (b : Bool) : Decidable (Undisturbed w c b) :=
  inferInstanceAs (Decidable (b = true → c.endpoints ≠ [] → ∀ s ∈ w.sessions, _))

instance (w : Store) (c : Cluster) (b : Bool) : Decidable (GoesWhole w c b) :=
  inferInstanceAs (Decidable (_ ∧ _))

instance (w : Store) (b : Bool) : Decidable (Stopped w b) :=
  inferInstanceAs (Decidable (_ ∧ ∃ s ∈ w.sessions, s.destination = none))

instance (s : ClusterRegistry) (e : Event) : Decidable (Meets s e) :=
  inferInstanceAs (Decidable ((∀ n ∈ endPointOf e, Untransported s.store n) ∧
    ∀ d ∈ clusterOf s e, ∀ c ∈ s.store.getCluster d.1, _ ∨ _))

instance (s : ClusterRegistry) (e : Event) : Decidable (Calm s e) :=
  inferInstanceAs (Decidable (∀ d ∈ clusterOf s e, ∀ c ∈ s.store.getCluster d.1, _))

end ClusterRegistry
end L7mp
