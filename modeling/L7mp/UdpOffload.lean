import L7mp.Aborting
import L7mp.Bytes
import L7mp.StoreConfig
import Mathlib.Logic.Function.Basic

/-! `UDPOffload`: the flows of the proxy, their bytes, and the two maps that it shares with the
kernel. `parse` is `ipaddr.IPv4.parse`. -/
namespace L7mp
open Aborting

/-- The octets of an IPv4 address. -/
structure IPv4 where
  a : UInt8
  b : UInt8
  c : UInt8
  d : UInt8
  deriving DecidableEq, Repr

def IPv4.octets (ip : IPv4) : List UInt8 := [ip.a, ip.b, ip.c, ip.d]

/-- `((addr[0] << 24) >>> 0) + ((addr[1] << 16) >>> 0) + ((addr[2] << 8) >>> 0) + addr[3]`. -/
def IPv4.toNumeric (ip : IPv4) : ℕ :=
  ip.a.toNat*2^24 + ip.b.toNat*2^16 + ip.c.toNat*2^8 + ip.d.toNat

inductive OffloadError
  | rangeError
  | typeError
  | invalidAddress (text : String)
  | invalidAction (action : String)
  deriving DecidableEq, Repr

structure Tuple where
  srcIp4 : ℤ
  srcPort : ℤ
  dstIp4 : ℤ
  dstPort : ℤ
  proto : ℤ
  deriving DecidableEq, Repr

/-- The content of a `Flow` object. -/
structure Flow extends Tuple where
  metrics : List String
  deriving DecidableEq, Repr

def defaultMetrics : List String := ["pkts", "bytes"]

/-- What `writeUInt32BE`, `writeUInt16BE` and `writeUInt32LE` accept. -/
def fits (w : ℕ) (n : ℤ) : Bool := 0 ≤ n && n < 256^w

def Tuple.encodes (t : Tuple) : Bool :=
  fits 4 t.srcIp4 && fits 4 t.dstIp4 && fits 2 t.srcPort && fits 2 t.dstPort && fits 4 t.proto

def Tuple.bytes (t : Tuple) : List UInt8 :=
  Bytes.be 4 t.srcIp4.toNat ++ Bytes.be 4 t.dstIp4.toNat ++ Bytes.be 2 t.srcPort.toNat ++
    Bytes.be 2 t.dstPort.toNat ++ Bytes.le 4 t.proto.toNat

/-- `Flow.toBuffer`. -/
def Tuple.toBuffer (t : Tuple) : Except OffloadError (List UInt8) :=
  if t.encodes then .ok t.bytes else .error .rangeError

structure FlowStat where
  pkts : ℕ
  bytes : ℕ
  timestampLast : ℕ
  deriving DecidableEq, Repr

def FlowStat.toBuffer (s : FlowStat) : List UInt8 :=
  Bytes.le 8 s.pkts ++ Bytes.le 8 s.bytes ++ Bytes.le 8 s.timestampLast

/-- `FlowStat.fromBuffer`; the argument is what `RawMap.get` returned. -/
def FlowStat.fromBuffer : Option (List UInt8) → Except OffloadError FlowStat
  | none => .error .typeError
  | some buf =>
    if 24 ≤ buf.length then .ok ⟨Bytes.ofLE (Bytes.field 0 8 buf), Bytes.ofLE (Bytes.field 8 8 buf),
      Bytes.ofLE (Bytes.field 16 8 buf)⟩
    else .error .rangeError

/-- `flowStat[metric]`. -/
def FlowStat.metric (s : FlowStat) : String → Option ℕ
  | "pkts" => some s.pkts
  | "bytes" => some s.bytes
  | "timestamp_last" => some s.timestampLast
  | _ => none

/-- A map of the kernel. -/
abbrev BpfMap := List UInt8 → Option (List UInt8)

def BpfMap.set (m : BpfMap) (k v : List UInt8) : BpfMap := Function.update m k (some v)
def BpfMap.delete (m : BpfMap) (k : List UInt8) : BpfMap := Function.update m k none

/-- `flows` is a `Set` of objects, which `heap` holds. -/
structure UDPOffload where
  redirectsMap : BpfMap
  statisticsMap : BpfMap
  flows : List ℕ
  heap : ℕ → Flow

inductive OffloadAction
  | create
  | remove
  | other (action : String)
  deriving DecidableEq, Repr

/-- The arguments of `setOffload`; flows are objects. -/
structure OffloadRequest where
  inFlow : ℕ
  redirFlow : Option ℕ
  action : OffloadAction
  metrics : Option (List String)
  deriving DecidableEq, Repr

namespace UDPOffload

/-- The constructor, with the maps that `createBpfMaps` finds empty. -/
def fresh (heap : ℕ → Flow) : UDPOffload := ⟨fun _ => none, fun _ => none, [], heap⟩

section Requests

variable (parse : String → Option IPv4)

/-- `Flow.toString`, as far as it can throw. -/
def showsFlow (f : Flow) : Except OffloadError Unit :=
  match parse (toString f.srcIp4), parse (toString f.dstIp4) with
  | some _, some _ => .ok ()
  | none, _ => .error (.invalidAddress (toString f.srcIp4))
  | _, none => .error (.invalidAddress (toString f.dstIp4))

/-- The message for the log, and the key. -/
def prepare (o : UDPOffload) (r : OffloadRequest) : Except OffloadError (List UInt8) := do
  showsFlow parse (o.heap r.inFlow)
  match r.redirFlow with
  | some f => showsFlow parse (o.heap f)
  | none => pure ()
  (o.heap r.inFlow).toBuffer

def setMetrics (i : ℕ) (metrics : Option (List String)) (o : UDPOffload) : UDPOffload :=
  match metrics with
  | some ms => { o with heap := Function.update o.heap i { o.heap i with metrics := ms } }
  | none => o

/-- `flows.add`. -/
def addFlow (i : ℕ) (o : UDPOffload) : UDPOffload :=
  { o with flows := if i ∈ o.flows then o.flows else o.flows ++ [i] }

/-- The size of the values of the statistics map. -/
def zeroStat : List UInt8 := List.replicate 24 0

def create (key : List UInt8) (r : OffloadRequest) : Op UDPOffload OffloadError := fun o =>
  let counted := { o with statisticsMap := o.statisticsMap.set key zeroStat }
  match r.redirFlow with
  | none => (.error .typeError, counted)
  | some f => match (o.heap f).toBuffer with
    | .error e => (.error e, counted)
    | .ok redir => (.ok (), (({ counted with
        redirectsMap := counted.redirectsMap.set key redir }).setMetrics r.inFlow r.metrics).addFlow
          r.inFlow)

/-- `flows.delete` looks for the object. -/
def drop (key : List UInt8) (i : ℕ) (o : UDPOffload) : UDPOffload :=
  { o with redirectsMap := o.redirectsMap.delete key, statisticsMap := o.statisticsMap.delete key,
           flows := o.flows.filter (fun j => j ≠ i) }

def perform (key : List UInt8) (r : OffloadRequest) : Op UDPOffload OffloadError := fun o =>
  match r.action with
  | .create => create key r o
  | .remove => (.ok (), o.drop key r.inFlow)
  | .other action => (.error (.invalidAction action), o)

def setOffload (r : OffloadRequest) : Op UDPOffload OffloadError := fun o =>
  match o.prepare parse r with
  | .error e => (.error e, o)
  | .ok key => perform key r o

def getStat (o : UDPOffload) (f : Flow) : Except OffloadError (List (String × Option ℕ)) := do
  showsFlow parse f
  let key ← f.toBuffer
  let stat ← FlowStat.fromBuffer (o.statisticsMap key)
  pure (f.metrics.map (fun m => (m, stat.metric m)))

/-- The loop of `dumpStat`. -/
def dumpFlows (o : UDPOffload) : List ℕ → Except OffloadError Unit
  | [] => .ok ()
  | i :: rest => do
    let _ ← o.getStat parse (o.heap i)
    showsFlow parse (o.heap i)
    dumpFlows o rest

def dumpStat (o : UDPOffload) : Except OffloadError Unit := o.dumpFlows parse o.flows

end Requests

end UDPOffload

/-! ### Stages -/

structure SockAddr where
  address : String
  port : ℕ
  family : String
  deriving DecidableEq, Repr

/-- `address()` and `remoteAddress()` of a connected socket. -/
structure UdpSocket where
  address : SockAddr
  remoteAddress : SockAddr
  deriving DecidableEq, Repr

/-- What `get_offload_flow` finds of a stage: the protocol of its listener or of the cluster of its
endpoint, and the socket of its stream. -/
structure OffloadStage where
  source : Bool
  listener : Option ListenerProtocol
  cluster : Option ClusterProtocol
  stream : Option UdpSocket
  deriving DecidableEq, Repr

def ListenerProtocol.isUdp : ListenerProtocol → Bool
  | .udp .. | .jsonSocket (.udp ..) => true
  | _ => false

def ClusterProtocol.isUdp : ClusterProtocol → Bool
  | .udp _ | .jsonSocket (.udp _) => true
  | _ => false

inductive Direction
  | IN | OUT
  deriving DecidableEq, Repr

namespace OffloadStage

/-- The socket of a stage that may be offloaded. -/
def socket (st : OffloadStage) : Except OffloadError (Option UdpSocket) :=
  if st.source then
    .ok (if st.listener.any ListenerProtocol.isUdp then st.stream else none)
  else if st.cluster.any ClusterProtocol.isUdp then
    match st.stream with
    | some s => .ok (some s)
    | none => .error .typeError
  else .ok none

variable (parse : String → Option IPv4)

def flowOf (type : Direction) (flow : UdpSocket) : Except OffloadError (Option Tuple) :=
  let src := if type = .IN then flow.remoteAddress else flow.address
  let dst := if type = .IN then flow.address else flow.remoteAddress
  if src.family ≠ "IPv4" ∨ dst.family ≠ "IPv4" then .ok none
  else match parse src.address, parse dst.address with
    | some srcAddr, some dstAddr =>
      .ok (some ⟨srcAddr.toNumeric, src.port, dstAddr.toNumeric, dst.port, 17⟩)
    | none, _ => .error (.invalidAddress src.address)
    | _, none => .error (.invalidAddress dst.address)

def getOffloadFlow (type : Direction) (st : OffloadStage) :
    Except OffloadError (Option Tuple) :=
  match st.socket with
  | .error e => .error e
  | .ok none => .ok none
  | .ok (some flow) => flowOf parse type flow

/-- `Stage.pipe`, as far as it is about offloading; `i` and `i+1` are the new `Flow` objects. -/
def pipe (fromStage toStage : OffloadStage) (i : ℕ) (o : UDPOffload) :
    Except OffloadError ℕ × UDPOffload :=
  match fromStage.getOffloadFlow parse .IN, toStage.getOffloadFlow parse .OUT with
  | .ok (some inflow), .ok (some outflow) =>
    let heap := Function.update (Function.update o.heap i ⟨inflow, defaultMetrics⟩) (i+1)
      ⟨outflow, defaultMetrics⟩
    match UDPOffload.setOffload parse ⟨i, some (i+1), .create, none⟩ { o with heap := heap } with
    | (.ok _, o) => (.ok 1, o)
    -- logged
    | (.error _, o) => (.ok 0, o)
  | .error e, _ => (.error e, o)
  | _, .error e => (.error e, o)
  | _, _ => (.ok 0, o)

end OffloadStage
end L7mp
