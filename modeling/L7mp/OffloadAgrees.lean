import L7mp.SidecarSound

/-! The kernel program does to the packets of an offloaded pipe what the proxy would do: they come
in from the remote of one stage and go out to the remote of the other. -/
namespace L7mp
open Aborting Bytes

variable {parse : String → Option IPv4}

/-- An IPv4 address and a port of a socket. -/
structure ValidAddr (parse : String → Option IPv4) where
  addr : SockAddr
  ip : IPv4
  family : addr.family = "IPv4"
  parsed : parse addr.address = some ip
  port : addr.port < 2^16

/-- A stage with a connected UDP socket. -/
structure ConnectedStage (parse : String → Option IPv4) where
  stage : OffloadStage
  here : ValidAddr parse
  remote : ValidAddr parse
  socket : stage.socket = .ok (some ⟨here.addr, remote.addr⟩)

/-- An IPv4/UDP packet in one piece and without IP options. -/
structure UdpPacket where
  skb : Skb
  length : 42 ≤ skb.data.length
  ethertype : field 12 2 skb.data = [8, 0]
  protocol : load 23 1 skb.data = 17
  version : load 14 1 skb.data / 16 = 4
  header : headerLength skb.data = 20
  unfragmented : ofBE (field 20 2 skb.data) % 2^14 = 0

/-- The packet goes from one address and port to another. -/
structure Travels (src dst : ValidAddr parse) (p : List UInt8) : Prop where
  srcAddr : field 26 4 p = src.ip.octets
  dstAddr : field 30 4 p = dst.ip.octets
  srcPort : ofBE (field 34 2 p) = src.addr.port
  dstPort : ofBE (field 36 2 p) = dst.addr.port

/-- A packet of `len` bytes was counted at `key` and nowhere else. -/
structure CountedAt (key : List UInt8) (len ktime : ℕ) (statistics statistics' : BpfMap) :
    Prop where
  entry : FlowStat.fromBuffer (statistics' key) =
    .ok ⟨((counters statistics key).1 + 1) % 2^64, ((counters statistics key).2 + len) % 2^64,
      ktime % 2^64⟩
  others : ∀ k, k ≠ key → statistics' k = statistics k

theorem be_toNumeric (ip : IPv4) : be 4 ip.toNumeric = ip.octets := by
  have hnum : ofBE ip.octets = ip.toNumeric := by
    unfold IPv4.octets IPv4.toNumeric ofBE
    simp only [List.reverse_cons, List.reverse_nil, List.nil_append, List.cons_append, ofLE]
    ring
  rw [← hnum]
  exact be_ofBE rfl

theorem toNumeric_lt (ip : IPv4) : ip.toNumeric < 2^32 := by
  have ha : ip.a.toNat < 256 := ip.a.toNat_lt
  have hb : ip.b.toNat < 256 := ip.b.toNat_lt
  have hc : ip.c.toNat < 256 := ip.c.toNat_lt
  have hd : ip.d.toNat < 256 := ip.d.toNat_lt
  unfold IPv4.toNumeric
  omega

namespace ValidAddr

/-- The 5-tuple of the UDP packets from one address to another. -/
def tuple (src dst : ValidAddr parse) : Tuple :=
  ⟨src.ip.toNumeric, src.addr.port, dst.ip.toNumeric, dst.addr.port, 17⟩

theorem toBuffer_tuple (src dst : ValidAddr parse) :
    (tuple src dst).toBuffer = .ok (tuple src dst).bytes := by
  have hs := toNumeric_lt src.ip
  have hd := toNumeric_lt dst.ip
  have hsp := src.port
  have hdp := dst.port
  refine Tuple.toBuffer_ok.mpr ⟨?_, rfl⟩
  unfold tuple Tuple.encodes fits
  simp only [Bool.and_eq_true, decide_eq_true_eq]
  omega

theorem bytes_tuple (src dst : ValidAddr parse) : (tuple src dst).bytes =
    src.ip.octets ++ dst.ip.octets ++ be 2 src.addr.port ++ be 2 dst.addr.port ++ le 4 17 := by
  unfold tuple Tuple.bytes
  simp only [Int.toNat_natCast, be_toNumeric]
  rfl

/-- The same bytes stand for the flow in the map of the proxy and in the program of the kernel. -/
theorem bytes_eq_flowIn (src dst : ValidAddr parse) {p : List UInt8} (hp : 42 ≤ p.length) :
    (tuple src dst).bytes = (flowIn p).bytes ↔ Travels src dst p := by
  rw [bytes_flowIn hp, bytes_tupleAt (Nat.le_refl 20) (by omega), bytes_tuple]
  have h26 : (field 26 4 p).length = 4 := length_field (by omega)
  have h30 : (field 30 4 p).length = 4 := length_field (by omega)
  have h34 : (field 34 2 p).length = 2 := length_field (by omega)
  have h36 : (field 36 2 p).length = 2 := length_field (by omega)
  have hport {port i : ℕ} (hlt : port < 2^16) (hi : (field i 2 p).length = 2) :
      be 2 port = field i 2 p ↔ ofBE (field i 2 p) = port := by
    constructor
    · intro h
      rw [← h, ofBE_be, Nat.mod_eq_of_lt (by omega)]
    · intro h
      rw [← h]
      exact be_ofBE hi
  constructor
  · intro h
    obtain ⟨h, -⟩ := List.append_inj' h rfl
    obtain ⟨h, hdport⟩ := List.append_inj' h (by rw [length_be, h36])
    obtain ⟨h, hsport⟩ := List.append_inj' h (by rw [length_be, h34])
    obtain ⟨hsrc, hdst⟩ := List.append_inj' h (by rw [h30]; rfl)
    exact ⟨hsrc.symm, hdst.symm, (hport src.port h34).mp hsport, (hport dst.port h36).mp hdport⟩
  · rintro ⟨hsrc, hdst, hsport, hdport⟩
    have hsport := (hport src.port h34).mpr hsport
    have hdport := (hport dst.port h36).mpr hdport
    rw [← hsrc, ← hdst, hsport, hdport]

/-- What the kernel reads of the flow that a packet is redirected to, it writes to the packet. -/
theorem fields_tuple (src dst : ValidAddr parse) :
    le 4 (load 0 4 (tuple src dst).bytes) = src.ip.octets ∧
    le 4 (load 4 4 (tuple src dst).bytes) = dst.ip.octets ∧
    le 2 (load 8 2 (tuple src dst).bytes) = be 2 src.addr.port ∧
    le 2 (load 10 2 (tuple src dst).bytes) = be 2 dst.addr.port := by
  have hlen : (tuple src dst).bytes.length = 16 := by simp [Tuple.bytes]
  unfold load
  rw [le_of_length (length_field (by omega)), le_of_length (length_field (by omega)),
    le_of_length (length_field (by omega)), le_of_length (length_field (by omega)), bytes_tuple]
  refine ⟨?_, ?_, ?_, ?_⟩
  all_goals simp [field, IPv4.octets]

end ValidAddr

open ValidAddr

namespace ConnectedStage

theorem getOffloadFlow_in (c : ConnectedStage parse) :
    c.stage.getOffloadFlow parse .IN = .ok (some (tuple c.remote c.here)) := by
  unfold OffloadStage.getOffloadFlow
  simp only [c.socket]
  simp [OffloadStage.flowOf, c.remote.family, c.here.family, c.remote.parsed, c.here.parsed, tuple]

theorem getOffloadFlow_out (c : ConnectedStage parse) :
    c.stage.getOffloadFlow parse .OUT = .ok (some (tuple c.here c.remote)) := by
  unfold OffloadStage.getOffloadFlow
  simp only [c.socket]
  simp [OffloadStage.flowOf, c.remote.family, c.here.family, c.remote.parsed, c.here.parsed, tuple]

/-- An offloaded pipe leaves the outflow at the key of the inflow. -/
theorem redirects_pipe (source dest : ConnectedStage parse) (i : ℕ) (o : UDPOffload)
    (h : (source.stage.pipe parse dest.stage i o).1 = .ok 1) :
    (source.stage.pipe parse dest.stage i o).2.redirectsMap (tuple source.remote source.here).bytes
      = some (tuple dest.here dest.remote).bytes := by
  unfold OffloadStage.pipe at h ⊢
  rw [source.getOffloadFlow_in, dest.getOffloadFlow_out] at h ⊢
  dsimp only at h ⊢
  generalize hheap : Function.update (Function.update o.heap i
    ⟨tuple source.remote source.here, defaultMetrics⟩) (i+1)
      ⟨tuple dest.here dest.remote, defaultMetrics⟩ = heap at h ⊢
  have hin : (heap i).toTuple = tuple source.remote source.here := by
    rw [← hheap]
    simp
  have hout : (heap (i+1)).toTuple = tuple dest.here dest.remote := by
    rw [← hheap]
    simp
  cases hprep : UDPOffload.prepare parse { o with heap := heap } ⟨i, some (i+1), .create, none⟩ with
  | error e =>
    rw [Books.setOffload_of_error hprep] at h
    cases h
  | ok key =>
    have hkey := (Books.prepare_ok hprep).2
    change (heap i).toBuffer = .ok key at hkey
    rw [hin, toBuffer_tuple] at hkey
    cases hkey
    have hredir := toBuffer_tuple dest.here dest.remote
    rw [Books.setOffload_of_prepared hprep]
    simp [UDPOffload.perform, UDPOffload.create, hout, hredir, UDPOffload.setMetrics, UDPOffload.addFlow, BpfMap.set]

end ConnectedStage

/-- A packet of the inflow goes out as a packet of the outflow, and is counted unless dropped. -/
theorem sidecar_redirects (h : Helpers) (source dest : ConnectedStage parse) (p : UdpPacket)
    {redirects : BpfMap} (statistics : BpfMap)
    (hredir : redirects (tuple source.remote source.here).bytes =
      some (tuple dest.here dest.remote).bytes)
    (htravels : Travels source.remote source.here p.skb.data) :
    Travels dest.here dest.remote (sidecar h redirects statistics p.skb).2.1.data ∧
    (sidecar h redirects statistics p.skb).2.1.data.drop 42 = p.skb.data.drop 42 ∧
    ((sidecar h redirects statistics p.skb).1 ≠ .shot →
      CountedAt (tuple source.remote source.here).bytes p.skb.data.length h.ktime statistics
        (sidecar h redirects statistics p.skb).2.2) := by
  have hlen := p.length
  have hkey : (tuple source.remote source.here).bytes = (tupleAt 20 p.skb.data).bytes := by
    rw [← bytes_flowIn hlen]
    exact (bytes_eq_flowIn _ _ hlen).mpr htravels
  have hredir' : redirects (tupleAt 20 p.skb.data).bytes =
      some (tuple dest.here dest.remote).bytes := by
    rw [← hkey]
    exact hredir
  have hit : Hits redirects p.skb.data :=
    ⟨hlen, p.ethertype, p.protocol, by rw [hredir']; exact Option.some_ne_none _⟩
  rw [sidecar_hits h hit hredir']
  dsimp only
  have hreplaced := length_replaceTuple (.ofBytes (tuple dest.here dest.remote).bytes) hlen
  have hcarried : Carried (replaceTuple (.ofBytes (tuple dest.here dest.remote).bytes) p.skb.data)
      (forward h ⟨redirected h (tuple dest.here dest.remote).bytes p.skb.data,
        p.skb.ingressIfindex⟩).2.data := by
    have hlong : 42 ≤ (redirected h (tuple dest.here dest.remote).bytes p.skb.data).length :=
      (length_redirected h _ hlen).symm ▸ hlen
    exact (carried_csums h (by omega)).trans (@carried_forward h ⟨_, _⟩ hlong)
  obtain ⟨h26, h30, h34, h36, hpayload⟩ :=
    replaceTuple_fields (.ofBytes (tuple dest.here dest.remote).bytes) hlen
  obtain ⟨hsrc, hdst, hsport, hdport⟩ := fields_tuple dest.here dest.remote
  have hport {port : ℕ} (hlt : port < 2^16) : ofBE (be 2 port) = port := by
    rw [ofBE_be, Nat.mod_eq_of_lt (by omega)]
  refine ⟨⟨?_, ?_, ?_, ?_⟩, ?_, fun hsent => ?_⟩
  · rw [hcarried.field (by omega) (by omega), h26]
    exact hsrc
  · rw [hcarried.field (by omega) (by omega), h30]
    exact hdst
  · rw [hcarried.field (by omega) (by omega), h34, FlowId.ofBytes, hsport]
    exact hport dest.here.port
  · rw [hcarried.field (by omega) (by omega), h36, FlowId.ofBytes, hdport]
    exact hport dest.remote.port
  · rw [hcarried.payload, ← List.drop_drop (i := 4) (j := 38), hpayload, List.drop_drop]
  · rw [if_neg hsent, hkey]
    obtain ⟨hothers, hentry⟩ := account_counts h p.skb.data.length (tupleAt 20 p.skb.data).bytes
      statistics
    exact ⟨hentry, hothers⟩

/-- The proxy and the kernel agree on which packets are of the inflow, and such a packet leaves as
one of the outflow. -/
theorem offload_agrees (source dest : ConnectedStage parse) (h : Helpers) (p : UdpPacket) (i : ℕ)
    (o : UDPOffload) : ∃ inflow key,
      source.stage.getOffloadFlow parse .IN = .ok (some inflow) ∧ inflow.toBuffer = .ok key ∧
      (key = (flowIn p.skb.data).bytes ↔ Travels source.remote source.here p.skb.data) ∧
      ((source.stage.pipe parse dest.stage i o).1 = .ok 1 →
        Travels source.remote source.here p.skb.data →
        let o' := (source.stage.pipe parse dest.stage i o).2
        let out := sidecar h o'.redirectsMap o'.statisticsMap p.skb
        Travels dest.here dest.remote out.2.1.data ∧
        out.2.1.data.drop 42 = p.skb.data.drop 42 ∧
        (out.1 ≠ .shot →
          CountedAt key p.skb.data.length h.ktime o'.statisticsMap out.2.2)) := by
  refine ⟨_, _, source.getOffloadFlow_in, toBuffer_tuple _ _, bytes_eq_flowIn _ _ p.length, ?_⟩
  intro hoffloaded htravels
  exact sidecar_redirects h source dest p _ (source.redirects_pipe dest i o hoffloaded) htravels

/-- What the parser of addresses makes of the texts below. -/
def knownAddresses : String → Option IPv4
  | "10.0.0.1" | "167772161" => some ⟨10, 0, 0, 1⟩
  | "10.0.0.2" | "167772162" => some ⟨10, 0, 0, 2⟩
  | "10.0.0.3" | "167772163" => some ⟨10, 0, 0, 3⟩
  | _ => none

def addrA : ValidAddr knownAddresses :=
  ⟨⟨"10.0.0.1", 1234, "IPv4"⟩, ⟨10, 0, 0, 1⟩, rfl, rfl, by decide⟩
def addrB : ValidAddr knownAddresses :=
  ⟨⟨"10.0.0.2", 5678, "IPv4"⟩, ⟨10, 0, 0, 2⟩, rfl, rfl, by decide⟩
def addrC : ValidAddr knownAddresses :=
  ⟨⟨"10.0.0.3", 9012, "IPv4"⟩, ⟨10, 0, 0, 3⟩, rfl, rfl, by decide⟩

/-- A listener that got packets from `addrA` at `addrB`. -/
def listenerStage : ConnectedStage knownAddresses :=
  ⟨⟨true, some (.udp .server false), none, some ⟨addrB.addr, addrA.addr⟩⟩, addrB, addrA, rfl⟩

/-- A cluster that sends them on to `addrC`. -/
def clusterStage : ConnectedStage knownAddresses :=
  ⟨⟨false, none, some (.udp true), some ⟨addrB.addr, addrC.addr⟩⟩, addrB, addrC, rfl⟩

def datagramAB : UdpPacket where
  skb := ⟨[0, 0, 0, 0, 0, 0, 0, 0, 0, 0, 0, 0, 8, 0,
    0x45, 0, 0, 30, 0, 0, 0, 0, 64, 17, 0, 0, 10, 0, 0, 1, 10, 0, 0, 2,
    0x04, 0xd2, 0x16, 0x2e, 0, 10, 0, 0, 104, 105], 1⟩
  length := by decide
  ethertype := by decide
  protocol := by decide
  version := by decide
  header := by decide
  unfragmented := by decide

theorem offload_agrees_datagram :
    let o' := (listenerStage.stage.pipe knownAddresses clusterStage.stage 0
      (.fresh fun _ => ⟨⟨0, 0, 0, 0, 0⟩, defaultMetrics⟩)).2
    let out := sidecar quietHelpers o'.redirectsMap o'.statisticsMap datagramAB.skb
    Travels addrB addrC out.2.1.data ∧ out.2.1.data.drop 42 = [104, 105] := by
  obtain ⟨inflow, key, -, -, -, hout⟩ := offload_agrees listenerStage clusterStage quietHelpers
    datagramAB 0 (.fresh fun _ => ⟨⟨0, 0, 0, 0, 0⟩, defaultMetrics⟩)
  obtain ⟨htravels, hpayload, -⟩ := hout (by decide) ⟨by decide, by decide, by decide, by decide⟩
  exact ⟨htravels, hpayload⟩

end L7mp
