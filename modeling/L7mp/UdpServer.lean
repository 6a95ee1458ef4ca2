import L7mp.GuardedRun
import Mathlib.Data.List.Basic
import Mathlib.Logic.Function.Basic

/-! A UDP listener in server mode. The first packet of a remote gets a socket of its own, which is
bound and connected while other packets arrive; packets of a remote in the table are emitted on
its socket. -/
namespace L7mp
open GuardedRun

/-- `rinfo`, as far as the listener looks at it. -/
structure Remote where
  address : String
  port : ℕ
  deriving DecidableEq, Repr

structure Datagram where
  remote : Remote
  payload : List UInt8
  deriving DecidableEq, Repr

/-- `spec.connect`. -/
structure ConnectSpec where
  address : Option String
  port : Option ℕ
  deriving DecidableEq, Repr

/-- How far the call of `onConnectServer` for a socket is. -/
inductive Setup
  | binding | connecting | failed | routing | done
  deriving DecidableEq, Repr

/-- A socket that was made for the first packet of a remote. `watched` says that the handlers of
`onRequest` are on it, and `live` that it has a session that did not end. -/
structure Connection where
  remote : Remote
  queue : Datagram
  setup : Setup
  isOpen : Bool
  watched : Bool
  live : Bool
  deriving DecidableEq, Repr

/-- The socket is being bound or connected. -/
def Connection.pending (c : Connection) : Bool := c.setup = .binding || c.setup = .connecting

/-- A new socket for the remote of a packet. -/
def Connection.new (d : Datagram) : Connection := ⟨d.remote, d, .binding, true, false, false⟩

/-- The session of a socket starts. -/
def Connection.serve (c : Connection) : Connection :=
  ⟨c.remote, c.queue, .routing, c.isOpen, c.watched, true⟩

/-- `sessions` is the table of sockets by remote. `arrived` are the packets of the listening socket
that are not refused, and `handed` those that a session got, with its socket. -/
structure UdpServer where
  connect : Option ConnectSpec
  sessions : Remote → Option ℕ
  conns : List Connection
  arrived : List Datagram
  handed : List (ℕ × Datagram)

namespace UdpServer

/-- `runServer`. -/
def start (connect : Option ConnectSpec) : UdpServer := ⟨connect, fun _ => none, [], [], []⟩

/-- A half-connected listener refuses other remotes; an empty address and port 0 are no limits. -/
def refuses (s : UdpServer) (r : Remote) : Bool :=
  s.connect.any (fun c =>
    (c.address.any (fun a => a ≠ "") && c.address ≠ some r.address) ||
      (c.port.any (fun p => p ≠ 0) && c.port ≠ some r.port))

def modifyConn (k : ℕ) (f : Connection → Connection) (s : UdpServer) : UdpServer :=
  { s with conns := s.conns.modify k f }

def setTable (r : Remote) (v : Option ℕ) (s : UdpServer) : UdpServer :=
  { s with sessions := Function.update s.sessions r v }

/-- `emit('message')` on socket `k`. If its session has ended, nobody gets the packet. -/
def emit (k : ℕ) (d : Datagram) (s : UdpServer) : UdpServer :=
  if s.conns[k]?.any Connection.live then { s with handed := s.handed ++ [(k, d)] } else s

/-- `onConnectServer`, up to its first wait. -/
def onConnect (d : Datagram) (s : UdpServer) : UdpServer :=
  match s.sessions d.remote with
  | some k => emit k d { s with arrived := s.arrived ++ [d] }
  | none =>
    if s.refuses d.remote then s
    else { s with arrived := s.arrived ++ [d], conns := s.conns ++ [Connection.new d] }

/-- The socket is connected: `onRequest` emits the queue and starts the session. -/
def onRequest (k : ℕ) (c : Connection) (s : UdpServer) : UdpServer :=
  ((s.setTable c.remote (some k)).modifyConn k Connection.serve).emit k c.queue

/-- The handlers of `onRequest` go to the socket that the table has. -/
def watch (r : Remote) (s : UdpServer) : UdpServer :=
  match s.sessions r with
  | some j => s.modifyConn j (fun c => { c with watched := true })
  | none => s

/-- The handlers of `onRequest` for 'close' and 'error'. -/
def forget (c : Connection) (s : UdpServer) : UdpServer :=
  if c.watched then s.setTable c.remote none else s

/-- A packet, the outcome of a bind or connect, the return of `emitSession`, the end of a session
for any reason, and the events of its socket. -/
inductive Event
  | message (d : Datagram)
  | bound (k : ℕ) (ok : Bool)
  | connected (k : ℕ) (ok : Bool)
  | routed (k : ℕ) (ok : Bool)
  | ended (k : ℕ)
  | socketError (k : ℕ)
  | socketClose (k : ℕ)
  deriving DecidableEq, Repr

/-- What happens to socket `k`, if it can. -/
def onSocket (k : ℕ) (can : Connection → Bool) (f : Connection → UdpServer → UdpServer)
    (s : UdpServer) : Option UdpServer :=
  match s.conns[k]? with
  | some c => if can c then some (f c s) else none
  | none => none

def onBound (k : ℕ) (ok : Bool) (s : UdpServer) : UdpServer :=
  s.modifyConn k (fun c => { c with setup := if ok then .connecting else .failed })

def onConnected (k : ℕ) (ok : Bool) (c : Connection) (s : UdpServer) : UdpServer :=
  if ok then s.onRequest k c else s.modifyConn k (fun c => { c with setup := .failed })

/-- `emitSession` has returned. -/
def onRouted (k : ℕ) (ok : Bool) (c : Connection) (s : UdpServer) : UdpServer :=
  if ok then (s.modifyConn k (fun c => { c with setup := .done })).watch c.remote
  else s.modifyConn k (fun c => { c with setup := .done })

def onEnd (k : ℕ) (s : UdpServer) : UdpServer :=
  s.modifyConn k (fun c => { c with live := false })

def onClose (k : ℕ) (c : Connection) (s : UdpServer) : UdpServer :=
  (s.modifyConn k (fun c => { c with isOpen := false })).forget c

def step (s : UdpServer) : Event → Option UdpServer
  | .message d => some (s.onConnect d)
  | .bound k ok => s.onSocket k (fun c => c.setup = .binding) (fun _ => onBound k ok)
  | .connected k ok => s.onSocket k (fun c => c.setup = .connecting) (onConnected k ok)
  -- a session that is not accepted has ended
  | .routed k ok => s.onSocket k (fun c => c.setup = .routing && (ok || !c.live)) (onRouted k ok)
  | .ended k => s.onSocket k Connection.live (fun _ => onEnd k)
  | .socketError k => s.onSocket k (fun c => !c.pending && c.isOpen) forget
  | .socketClose k => s.onSocket k (fun c => !c.pending && c.isOpen) (onClose k)

theorem onConnect_known {s : UdpServer} {d : Datagram} {k : ℕ}
    (hk : s.sessions d.remote = some k) :
    s.onConnect d = emit k d { s with arrived := s.arrived ++ [d] } := by
  simp only [onConnect, hk]

theorem onConnect_unknown {s : UdpServer} {d : Datagram} (hk : s.sessions d.remote = none) :
    s.onConnect d = if s.refuses d.remote then s
      else { s with arrived := s.arrived ++ [d], conns := s.conns ++ [Connection.new d] } := by
  simp only [onConnect, hk]

theorem onRequest_eq {s : UdpServer} {k : ℕ} {c : Connection} (hk : s.conns[k]? = some c) :
    s.onRequest k c = ⟨s.connect, Function.update s.sessions c.remote (some k),
      s.conns.modify k Connection.serve, s.arrived, s.handed ++ [(k, c.queue)]⟩ := by
  have hlive : (s.conns.modify k Connection.serve)[k]?.any Connection.live = true := by
    simp [hk, Connection.serve]
  unfold onRequest emit
  exact if_pos hlive

/-- What holds of every socket still does when one is changed. -/
theorem forall_modify {conns : List Connection} {k : ℕ} {c : Connection}
    {f : Connection → Connection} {P : Connection → Prop} (hc : conns[k]? = some c)
    (h : ∀ c ∈ conns, P c) (hf : P c → P (f c)) : ∀ c' ∈ conns.modify k f, P c' := by
  intro c' hc'
  obtain ⟨j, hj⟩ := List.getElem?_of_mem hc'
  by_cases hkj : k = j
  · subst hkj
    have hfc : f c = c' := by simpa [hc] using hj
    rw [← hfc]
    exact hf (h c (List.mem_of_getElem? hc))
  · have hold : conns[j]? = some c' := by simpa [hkj] using hj
    exact h c' (List.mem_of_getElem? hold)

theorem onSocket_some {s t : UdpServer} {k : ℕ} {can : Connection → Bool}
    {f : Connection → UdpServer → UdpServer} (h : s.onSocket k can f = some t) :
    ∃ c, s.conns[k]? = some c ∧ can c = true ∧ t = f c s := by
  unfold onSocket at h
  split at h
  · rename_i c hc
    split at h
    · rename_i hcan
      cases h
      exact ⟨c, hc, hcan, rfl⟩
    · cases h
  · cases h

end UdpServer
end L7mp
