import L7mp.UdpOffload

/-! The kernel program `sidecar`, on a little-endian host. A packet is its bytes from the Ethernet
header on, and a number in a packet or a map is read and written as the host does it. -/
namespace L7mp
open Bytes

/-- What a field of `w` bytes at offset `i` is to the host. -/
def load (i w : ℕ) (p : List UInt8) : ℕ := ofLE (field i w p)

def store (i w n : ℕ) (p : List UInt8) : List UInt8 := write i (le w n) p

/-- `struct flow_id`. -/
structure FlowId where
  srcIp4 : ℕ
  dstIp4 : ℕ
  srcPort : ℕ
  dstPort : ℕ
  proto : ℕ
  deriving DecidableEq, Repr

/-- The struct is packed. -/
def FlowId.bytes (f : FlowId) : List UInt8 :=
  le 4 f.srcIp4 ++ le 4 f.dstIp4 ++ le 2 f.srcPort ++ le 2 f.dstPort ++ le 4 f.proto

def FlowId.ofBytes (buf : List UInt8) : FlowId :=
  ⟨load 0 4 buf, load 4 4 buf, load 8 2 buf, load 10 2 buf, load 12 4 buf⟩

inductive Verdict
  | ok | shot | redirect
  deriving DecidableEq, Repr

structure Skb where
  data : List UInt8
  ingressIfindex : ℕ
  deriving DecidableEq, Repr

/-- `struct bpf_fib_lookup`, as the program fills it. -/
structure FibParams where
  tos : ℕ
  l4Protocol : ℕ
  totLen : ℕ
  ipv4Src : ℕ
  ipv4Dst : ℕ
  ifindex : ℕ

structure Mac where
  bytes : List UInt8
  length : bytes.length = 6

structure FibResult where
  rc : ℤ
  dmac : Mac
  smac : Mac
  ifindex : ℕ

/-- The helper functions of the kernel; `storeBytes` says whether `bpf_skb_store_bytes` succeeds. -/
structure Helpers where
  csumDiff : List UInt8 → ℕ
  storeBytes : Bool
  fibLookup : FibParams → FibResult
  redirect : ℕ → Verdict
  ktime : ℕ

/-- `__constant_htons(ETH_P_IP)`. -/
def ethPIp : ℕ := 0x0008

def ipprotoUdp : ℕ := 17

/-- The key that the program looks up. The ports are taken from behind an IP header of 20 bytes. -/
def flowIn (p : List UInt8) : FlowId :=
  ⟨load 26 4 p, load 30 4 p, load 34 2 p, load 36 2 p, ipprotoUdp⟩

def replaceTuple (redir : FlowId) (p : List UInt8) : List UInt8 :=
  store 36 2 redir.dstPort (store 34 2 redir.srcPort
    (store 30 4 redir.dstIp4 (store 26 4 redir.srcIp4 p)))

/-- One round of the loop in `csum_fold_helper`. -/
def foldOnce (csum : ℕ) : ℕ := if csum/2^16 = 0 then csum else csum%2^16 + csum/2^16

def csumFold (csum : ℕ) : ℕ := 2^16 - 1 - foldOnce (foldOnce (foldOnce (foldOnce csum))) % 2^16

def updateIpv4Csum (h : Helpers) (p : List UInt8) : List UInt8 :=
  let p := store 24 2 0 p
  store 24 2 (csumFold (h.csumDiff (field 14 20 p))) p

def clearUdpCsum (h : Helpers) (p : List UInt8) : List UInt8 :=
  if h.storeBytes then write 40 [0, 0] p else p

/-- `ip_decrease_ttl`; `0x0100` in network order is 1. -/
def decreaseTtl (p : List UInt8) : List UInt8 :=
  let check := load 24 2 p + 1
  let p := store 24 2 (check + if check ≥ 0xFFFF then 1 else 0) p
  store 22 1 (load 22 1 p + 255) p

def fibParams (skb : Skb) : FibParams :=
  ⟨load 15 1 skb.data, load 23 1 skb.data, ofBE (field 16 2 skb.data), load 26 4 skb.data,
    load 30 4 skb.data, skb.ingressIfindex⟩

/-- The redirection: the verdict, and the packet. -/
def forward (h : Helpers) (skb : Skb) : Verdict × Skb :=
  let res := h.fibLookup (fibParams skb)
  match res.rc with
  | 0 => (h.redirect res.ifindex, { skb with
      data := write 6 res.smac.bytes (write 0 res.dmac.bytes (decreaseTtl skb.data)) })
  | 1 | 2 | 3 => (.shot, skb)
  | _ => (.ok, skb)

/-- The counters wrap around. -/
def account (h : Helpers) (len : ℕ) (key : List UInt8) (statistics : BpfMap) : BpfMap :=
  match statistics key with
  | some buf => statistics.set key (FlowStat.toBuffer
      ⟨load 0 8 buf + 1, load 8 8 buf + len, h.ktime⟩)
  | none => statistics.set key (FlowStat.toBuffer ⟨1, len, h.ktime⟩)

def sidecar (h : Helpers) (redirects statistics : BpfMap) (skb : Skb) : Verdict × Skb × BpfMap :=
  let p := skb.data
  if p.length < 42 then (.ok, skb, statistics)
  else if load 12 2 p ≠ ethPIp then (.ok, skb, statistics)
  else if load 23 1 p ≠ ipprotoUdp then (.ok, skb, statistics)
  else match redirects (flowIn p).bytes with
    | none => (.ok, skb, statistics)
    | some redir =>
      let p' := clearUdpCsum h (updateIpv4Csum h (replaceTuple (.ofBytes redir) p))
      -- the second check of the length
      if p'.length < 42 then (.ok, { skb with data := p' }, statistics)
      else
        let sent := forward h { skb with data := p' }
        if sent.1 = .ok ∨ sent.1 = .redirect then
          (sent.1, sent.2, account h p'.length (flowIn p).bytes statistics)
        else (sent.1, sent.2, statistics)

end L7mp
