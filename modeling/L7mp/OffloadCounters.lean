import L7mp.OffloadAgrees
import L7mp.PipeChain
import Mathlib.Data.List.Dedup

/-! `pipes.total` and `pipes.offloaded` of a session: `pipe` and its callers count the pipes, the
`unpipe` handlers of the stages count them off. Streams are numbered in their order. -/
namespace L7mp
open Aborting

/-- What `get_offload_flow` finds of a stage besides its stream. -/
structure Side where
  source : Bool
  listener : Option ListenerProtocol
  cluster : Option ClusterProtocol
  deriving DecidableEq, Repr

def Side.stage (s : Side) (stream : Option UdpSocket) : OffloadStage :=
  ⟨s.source, s.listener, s.cluster, stream⟩

/-- A session with its streams. `sockets` are those of the streams that are a `DatagramStream`, and
`closed` those that no longer tell their addresses. `stream` and `onDisc` belong to the stages;
`listening` are stages that hear the `close` and the `error` of a stream, and `handled` the streams
whose `unpipe` is heard. A pipe has its two streams and whether it was offloaded. `counted` are the
streams whose pipes no `unpipe` handler has counted off, and `flows` numbers the `Flow` objects. -/
structure Piping where
  sockets : ℕ → Option UdpSocket
  fresh : ℕ
  closed : ℕ → Bool
  stream : ℕ → Option ℕ
  onDisc : ℕ → Bool
  listening : List (ℕ × ℕ)
  handled : ℕ → Bool
  pipes : List (ℕ × ℕ × Bool)
  counted : List ℕ
  total : ℤ
  offloaded : ℤ
  offload : UDPOffload
  flows : ℕ

/-- `lose` is a `close` or an `error` event that a stage hears; `closes` tells that the socket is
closed, `ready` that `disconnect` finds the stage `READY`. `destroy` has the stages that do not
retry. `others` is what other sessions do to the offload. -/
inductive PipingEvent
  | assign (i : ℕ) (socket : Option UdpSocket)
  | setEventHandlers (i : ℕ)
  | pipeline (c : Chain) (sides : ℕ → Side)
  | repipe (c : Chain) (i : ℕ) (sides : ℕ → Side)
  | unpipe (x y : ℕ) (offloaded : Bool)
  | lose (i x : ℕ) (closes ready : Bool)
  | silence (x : ℕ)
  | destroy (stages : List ℕ)
  | others (o : UDPOffload) (flows : ℕ)

namespace Piping

variable (parse : String → Option IPv4)

/-- A session before it has a stream. -/
def start (o : UDPOffload) : Piping :=
  ⟨fun _ => none, 0, fun _ => false, fun _ => none, fun _ => false, [], fun _ => false, [], [],
    0, 0, o, 0⟩

/-- `pipe` between two stages, counted as `pipeline_finish` and `repipe` do. -/
def pipe (sides : ℕ → Side) (i j : ℕ) : Op Piping OffloadError := fun p =>
  match p.stream i, p.stream j with
  | some x, some y =>
    match ((sides i).stage (p.sockets x)).pipe parse ((sides j).stage (p.sockets y)) p.flows
        p.offload with
    | (.ok n, o) => (.ok (), { p with
        pipes := p.pipes ++ [(x, y, decide (n = 1))]
        counted := p.counted ++ [x]
        total := p.total + 1
        offloaded := p.offloaded + n
        offload := o
        flows := p.flows + 2 })
    | (.error e, o) => (.error e, { p with
        pipes := p.pipes ++ [(x, y, false)]
        offload := o })
  | _, _ => (.error .typeError, p)

/-- The flow that the `unpipe` handler removes for a stream. -/
def unpipedFlow (p : Piping) (x : ℕ) : Except OffloadError (Option Tuple) :=
  match p.sockets x with
  | none => .ok none
  | some s => if p.closed x then .ok none else OffloadStage.flowOf parse .IN s

/-- The `unpipe` handler, called with stream `x`. -/
def onUnpipe (x : ℕ) : Op Piping OffloadError := fun p =>
  let p := { p with total := p.total - 1, counted := p.counted.erase x }
  match p.unpipedFlow parse x with
  | .error e => (.error e, p)
  | .ok none => (.ok (), p)
  | .ok (some t) =>
    let heap := Function.update p.offload.heap p.flows ⟨t, defaultMetrics⟩
    match UDPOffload.setOffload parse ⟨p.flows, none, .remove, none⟩
        { p.offload with heap := heap } with
    | (.ok _, o) => (.ok (),
        { p with offload := o, flows := p.flows + 1, offloaded := p.offloaded - 1 })
    -- logged
    | (.error _, o) => (.ok (), { p with offload := o, flows := p.flows + 1 })

/-- Stream `y` emits `unpipe` with stream `x`. -/
def emitUnpipe (y x : ℕ) (p : Piping) : Piping :=
  if p.handled y then (onUnpipe parse x p).2 else p

/-- The body of the loop of `destroy`. -/
def destroyStage (i : ℕ) (p : Piping) : Piping :=
  if p.onDisc i then
    match p.stream i with
    | none => p
    | some x => match onUnpipe parse x p with
      -- caught
      | (.error _, p) => p
      | (.ok _, p) => { p with
          handled := Function.update p.handled x false
          listening := p.listening.filter (fun l => l ≠ (i, x)) }
  else p

/-- An event that comes with the socket of stream `x` closed, or not. -/
def close (x : ℕ) (closes : Bool) (p : Piping) : Piping :=
  if closes then { p with closed := Function.update p.closed x true } else p

def step (p : Piping) : PipingEvent → Option Piping
  | .assign i socket => some { p with
      sockets := Function.update p.sockets p.fresh socket
      stream := Function.update p.stream i (some p.fresh)
      fresh := p.fresh + 1 }
  | .setEventHandlers i => match p.stream i with
    | none => none
    | some x => if p.handled x then none else some { p with
        handled := Function.update p.handled x true
        listening := p.listening ++ [(i, x)]
        onDisc := Function.update p.onDisc i true }
  | .pipeline c sides => some (forEach (fun l => pipe parse sides l.1 l.2) c.finish p).2
  | .repipe c i sides => some (forEach (fun l => pipe parse sides l.1 l.2) (c.repipe i).1 p).2
  | .unpipe x y b =>
    if (x, y, b) ∈ p.pipes then
      some (emitUnpipe parse y x { p with pipes := p.pipes.erase (x, y, b) })
    else none
  | .lose i x closes ready =>
    if (i, x) ∈ p.listening then
      let p := p.close x closes
      match p.stream i with
      | none => none
      | some y =>
        let p := emitUnpipe parse y y p
        some (if ready then { p with listening := p.listening.filter (fun l => l ≠ (i, y)) } else p)
    else none
  | .silence x => some (p.close x true)
  | .destroy stages => some (stages.foldl (fun p i => destroyStage parse i p) p)
  | .others o flows => some { p with offload := o, flows := flows }

/-! ### What the counters are for -/

/-- A flow that `setOffload` can log and write. -/
def Writable (t : Tuple) : Prop :=
  UDPOffload.showsFlow parse ⟨t, defaultMetrics⟩ = .ok () ∧ t.encodes = true

instance (t : Tuple) : Decidable (Writable parse t) := by
  unfold Writable
  have : Decidable (UDPOffload.showsFlow parse ⟨t, defaultMetrics⟩ = .ok ()) := by
    cases UDPOffload.showsFlow parse ⟨t, defaultMetrics⟩ with
    | error e => exact isFalse nofun
    | ok u => exact isTrue rfl
  infer_instance

/-- The key of the inflow of a stream, if it is an IPv4 datagram stream. -/
def key (p : Piping) (x : ℕ) : Option (List UInt8) :=
  match p.sockets x with
  | none => none
  | some s => match OffloadStage.flowOf parse .IN s with
    | .ok (some t) => if Writable parse t then some t.bytes else none
    | _ => none

/-- The inflows of the session that are in the redirects map. -/
def present (p : Piping) : List (List UInt8) :=
  (((List.range p.fresh).filterMap (p.key parse)).dedup).filter
    (fun k => p.offload.redirectsMap k ≠ none)

/-- The counters are right: as many pipes are counted as offloaded as there are inflows in the map. -/
structure Counts (p : Piping) : Prop where
  nonneg : 0 ≤ p.offloaded
  le : p.offloaded ≤ p.total
  present : p.offloaded = (p.present parse).length

/-- A stream has a pipe that is not counted off, and its socket is open if that matters. -/
def Holds (p : Piping) (x : ℕ) : Prop :=
  x ∈ p.counted ∧ (p.key parse x ≠ none → p.closed x = false)

/-- A pipe from an IPv4 datagram stream has a flow at both ends, and no pipe has its inflow. -/
def Pipes (p : Piping) (sides : ℕ → Side) (i j : ℕ) : Prop :=
  ∀ x ∈ p.stream i, ∀ y ∈ p.stream j, ∀ k ∈ p.key parse x, p.offload.redirectsMap k = none ∧
    (∃ t, ((sides i).stage (p.sockets x)).getOffloadFlow parse .IN = .ok (some t)) ∧
    ∃ t, ((sides j).stage (p.sockets y)).getOffloadFlow parse .OUT = .ok (some t) ∧
      Writable parse t

/-- Every pipe of a list is as `Pipes` asks when it is made. -/
def PipesAll (sides : ℕ → Side) : List Pipe → Piping → Prop
  | [], _ => True
  | (i, j) :: rest, p => p.Pipes parse sides i j ∧
      ((pipe parse sides i j p).1 = .ok () → PipesAll sides rest (pipe parse sides i j p).2)

/-- Every stage with handlers still has its pipe when `destroy` comes to it. -/
def HoldsAll : List ℕ → Piping → Prop
  | [], _ => True
  | i :: rest, p => (p.onDisc i = true → ∀ x ∈ p.stream i, p.Holds parse x) ∧
      HoldsAll rest (destroyStage parse i p)

/-- Pipes are offloaded exactly if they start at an IPv4 datagram stream, each `unpipe` handler
counts off another pipe, and no other session has an inflow of this one. -/
def Fits (p : Piping) : PipingEvent → Prop
  | .assign _ socket => ∀ k ∈ ({ p with sockets := fun _ => socket } : Piping).key parse p.fresh,
      p.offload.redirectsMap k ≠ none → ∃ x < p.fresh, p.key parse x = some k
  | .pipeline c sides => PipesAll parse sides c.finish p
  | .repipe c i sides => PipesAll parse sides (c.repipe i).1 p
  | .unpipe x y _ => p.handled y = true → p.Holds parse x
  | .lose i x closes _ => ∀ y ∈ p.stream i, p.handled y = true → p.Holds parse y ∧
      (p.key parse y ≠ none → ¬(closes = true ∧ y = x))
  | .destroy stages => HoldsAll parse stages p
  | .others o _ => ∀ x < p.fresh, ∀ k ∈ p.key parse x, o.redirectsMap k = p.offload.redirectsMap k
  | .setEventHandlers _ | .silence _ => True

end Piping
end L7mp
