import L7mp.SidecarFlows

/-! The kernel program against the proxy: both mean the same packets by a flow, and a packet of a
flow goes on as a packet of the flow it is redirected to. Other packets are left alone as long as
the ports are where the program looks for them. -/
namespace L7mp
open Bytes

/-! ### Packets -/

/-- The IP header length in bytes. -/
def headerLength (p : List UInt8) : ℕ := 4*(load 14 1 p % 16)

/-- A datagram in one piece or its first fragment has offset 0. -/
def fragmentOffset (p : List UInt8) : ℕ := ofBE (field 20 2 p) % 2^13

/-- The 5-tuple of an IPv4/UDP datagram or first fragment, with the ports behind the IP header. -/
def datagram (p : List UInt8) : Option Tuple :=
  if 34 ≤ p.length ∧ field 12 2 p = [8, 0] ∧ load 14 1 p / 16 = 4 ∧ 20 ≤ headerLength p ∧
      22 + headerLength p ≤ p.length ∧ load 23 1 p = 17 ∧ fragmentOffset p = 0 then
    some (tupleAt (headerLength p) p)
  else none

/-- The packet is IPv4 without options, and not a later fragment. -/
structure Plain (p : List UInt8) : Prop where
  version : load 14 1 p / 16 = 4
  header : headerLength p = 20
  offset : fragmentOffset p = 0

/-- What the program takes for the 5-tuple of a UDP packet is a key. -/
structure Hits (redirects : BpfMap) (p : List UInt8) : Prop where
  length : 42 ≤ p.length
  ethertype : field 12 2 p = [8, 0]
  protocol : load 23 1 p = 17
  key : redirects (tupleAt 20 p).bytes ≠ none

theorem ethertype_iff {p : List UInt8} (hp : 42 ≤ p.length) :
    load 12 2 p = ethPIp ↔ field 12 2 p = [8, 0] := by
  have hle : le 2 (load 12 2 p) = field 12 2 p := le_of_length (length_field (by omega))
  constructor
  · intro h
    rw [← hle, h]
    decide
  · intro h
    unfold load
    rw [h]
    decide

theorem sidecar_misses (h : Helpers) {redirects statistics : BpfMap} {skb : Skb}
    (hmiss : ¬Hits redirects skb.data) :
    sidecar h redirects statistics skb = (.ok, skb, statistics) := by
  unfold sidecar
  dsimp only
  split_ifs with hlen heth hproto
  · rfl
  · rfl
  · rfl
  · split
    · rfl
    · rename_i redir hkey
      have hlen : 42 ≤ skb.data.length := by omega
      refine absurd ⟨hlen, (ethertype_iff hlen).mp (not_not.mp heth), not_not.mp hproto, ?_⟩ hmiss
      rw [← bytes_flowIn hlen, hkey]
      exact Option.some_ne_none redir

/-- The packet before it is sent. -/
def redirected (h : Helpers) (redir : List UInt8) (p : List UInt8) : List UInt8 :=
  clearUdpCsum h (updateIpv4Csum h (replaceTuple (.ofBytes redir) p))

theorem length_redirected (h : Helpers) (redir : List UInt8) {p : List UInt8}
    (hp : 42 ≤ p.length) : (redirected h redir p).length = p.length := by
  have hlen := length_replaceTuple (.ofBytes redir) hp
  exact (carried_csums h (by omega)).length.trans hlen

theorem sidecar_hits (h : Helpers) {redirects statistics : BpfMap} {skb : Skb}
    (hit : Hits redirects skb.data) {redir : List UInt8}
    (hredir : redirects (tupleAt 20 skb.data).bytes = some redir) :
    sidecar h redirects statistics skb =
      (let sent := forward h { skb with data := redirected h redir skb.data }
      (sent.1, sent.2, if sent.1 = .shot then statistics else
        account h skb.data.length (tupleAt 20 skb.data).bytes statistics)) := by
  have hlen := hit.length
  have hshort : ¬(redirected h redir skb.data).length < 42 := by
    rw [length_redirected h redir hlen]
    omega
  have heth : ¬load 12 2 skb.data ≠ ethPIp := not_not.mpr ((ethertype_iff hlen).mpr hit.ethertype)
  have hproto : ¬load 23 1 skb.data ≠ ipprotoUdp := not_not.mpr hit.protocol
  unfold sidecar
  dsimp only
  rw [if_neg (by omega), if_neg heth, if_neg hproto, bytes_flowIn hlen, hredir]
  change (if (redirected h redir skb.data).length < 42 then _ else
    let sent := forward h { skb with data := redirected h redir skb.data }
    if sent.1 = .ok ∨ sent.1 = .redirect then
      (sent.1, sent.2, account h (redirected h redir skb.data).length
        (tupleAt 20 skb.data).bytes statistics)
    else (sent.1, sent.2, statistics)) = _
  rw [if_neg hshort, length_redirected h redir hlen]
  rcases forward h { skb with data := redirected h redir skb.data } with ⟨verdict, skb'⟩
  cases verdict <;> rfl

/-! ### Accounting -/

/-- The counters of an entry, or of a new one. -/
def counters (statistics : BpfMap) (key : List UInt8) : ℕ × ℕ :=
  match statistics key with
  | some buf => (load 0 8 buf, load 8 8 buf)
  | none => (0, 0)

theorem fromBuffer_of_length {buf : List UInt8} (h : 24 ≤ buf.length) :
    FlowStat.fromBuffer (some buf) = .ok ⟨load 0 8 buf, load 8 8 buf, load 16 8 buf⟩ := if_pos h

theorem fromBuffer_of_short {buf : List UInt8} (h : ¬24 ≤ buf.length) :
    FlowStat.fromBuffer (some buf) = .error .rangeError := if_neg h

theorem fromBuffer_toBuffer (s : FlowStat) : FlowStat.fromBuffer (some s.toBuffer) =
    .ok ⟨s.pkts % 2^64, s.bytes % 2^64, s.timestampLast % 2^64⟩ := by
  have htake (n : ℕ) : (le 8 n).take 8 = le 8 n := List.take_of_length_le (by simp)
  have hfirst : field 0 8 s.toBuffer = le 8 s.pkts := by
    simp [field, FlowStat.toBuffer]
  have hsecond : field 8 8 s.toBuffer = le 8 s.bytes := by
    simp [field, FlowStat.toBuffer]
  have hthird : field 16 8 s.toBuffer = le 8 s.timestampLast := by
    simp [field, FlowStat.toBuffer, List.drop_append, List.drop_eq_nil_of_le, htake]
  have hlen : 24 ≤ s.toBuffer.length := by simp [FlowStat.toBuffer]
  rw [fromBuffer_of_length hlen, load, load, load, hfirst, hsecond, hthird]
  simp only [ofLE_le]
  norm_num

/-- The packet is counted in its entry and in no other. -/
theorem account_counts (h : Helpers) (len : ℕ) (key : List UInt8) (statistics : BpfMap) :
    (∀ k, k ≠ key → account h len key statistics k = statistics k) ∧
    FlowStat.fromBuffer (account h len key statistics key) =
      .ok ⟨((counters statistics key).1 + 1) % 2^64, ((counters statistics key).2 + len) % 2^64,
        h.ktime % 2^64⟩ := by
  unfold account counters
  cases hs : statistics key with
  | none =>
    refine ⟨fun k hk => Function.update_of_ne hk .., ?_⟩
    simp only [BpfMap.set, Function.update_self, fromBuffer_toBuffer]
    norm_num
  | some buf =>
    refine ⟨fun k hk => Function.update_of_ne hk .., ?_⟩
    simp only [BpfMap.set, Function.update_self, fromBuffer_toBuffer]

theorem account_ne (h : Helpers) (len : ℕ) (key : List UInt8) (statistics : BpfMap) :
    account h len key statistics ≠ statistics := by
  intro heq
  have hcount := (account_counts h len key statistics).2
  rw [heq] at hcount
  cases hs : statistics key with
  | none =>
    rw [hs] at hcount
    cases hcount
  | some buf =>
    have hold : (counters statistics key).1 = load 0 8 buf := by
      unfold counters
      rw [hs]
    rw [hs, hold] at hcount
    by_cases hlen : 24 ≤ buf.length
    · rw [fromBuffer_of_length hlen] at hcount
      injection hcount with hcount
      injection hcount with hpkts
      -- the counter would be its own successor
      omega
    · rw [fromBuffer_of_short hlen] at hcount
      cases hcount

/-! ### Packets that are left alone -/

theorem datagram_of_plain {p : List UInt8} {redirects : BpfMap} (hit : Hits redirects p)
    (h : Plain p) : datagram p = some (tupleAt 20 p) := by
  have hlen := hit.length
  unfold datagram
  rw [h.header, if_pos ⟨by omega, hit.ethertype, h.version, by omega, by omega, hit.protocol,
    h.offset⟩]

/-- A packet that is not of a recorded flow is left alone if and only if the program does not take
it for one, as it may do with a packet that has options or is a later fragment. -/
theorem untouched_iff (h : Helpers) (redirects statistics : BpfMap) (skb : Skb) :
    ((∀ t, datagram skb.data = some t → redirects t.bytes = none) →
      sidecar h redirects statistics skb = (.ok, skb, statistics)) ↔
    (Hits redirects skb.data →
      Plain skb.data ∨ ∃ t, datagram skb.data = some t ∧ redirects t.bytes ≠ none) := by
  constructor
  · intro hclaim hit
    by_contra hnot
    have hnone : ∀ t, datagram skb.data = some t → redirects t.bytes = none := by
      intro t ht
      by_contra hkey
      exact hnot (.inr ⟨t, ht, hkey⟩)
    obtain ⟨redir, hredir⟩ := Option.ne_none_iff_exists'.mp hit.key
    have hrun := hclaim hnone
    rw [sidecar_hits h hit hredir] at hrun
    dsimp only at hrun
    have hverdict := congrArg Prod.fst hrun
    have hstat := congrArg (fun r => r.2.2) hrun
    dsimp only at hverdict hstat
    rw [hverdict, if_neg nofun] at hstat
    exact account_ne h _ _ _ hstat
  · intro hcond hnone
    apply sidecar_misses
    intro hit
    rcases hcond hit with hplain | ⟨t, ht, hkey⟩
    · exact hit.key (hnone _ (datagram_of_plain hit hplain))
    · exact hkey (hnone t ht)

/-- Helpers of a kernel that routes nothing. -/
def quietHelpers : Helpers :=
  ⟨fun _ => 0, true, fun _ => ⟨4, ⟨[0, 0, 0, 0, 0, 0], rfl⟩, ⟨[0, 0, 0, 0, 0, 0], rfl⟩, 0⟩,
    fun _ => .redirect, 0⟩

/-- A UDP packet with a four byte option, which looks like the ports 1234 and 5678. -/
def optionPacket : List UInt8 :=
  [0, 0, 0, 0, 0, 0, 0, 0, 0, 0, 0, 0, 8, 0,
    0x46, 0, 0, 32, 0, 0, 0, 0, 64, 17, 0, 0, 10, 0, 0, 1, 10, 0, 0, 2, 0x04, 0xd2, 0x16, 0x2e,
    0, 1, 0, 2, 0, 8, 0, 0]

theorem option_taken_for_ports : ¬∀ h redirects statistics skb,
    (∀ t, datagram skb.data = some t → redirects t.bytes = none) →
      sidecar h redirects statistics skb = (.ok, skb, statistics) := by
  intro hclaim
  let flow : Tuple := ⟨167772161, 1234, 167772162, 5678, 17⟩
  let redirects : BpfMap := fun k => if k = flow.bytes then some flow.bytes else none
  have hrun := hclaim quietHelpers redirects (fun _ => none) ⟨optionPacket, 1⟩ (by decide)
  have hstat := congrFun (congrArg (fun r => r.2.2) hrun) flow.bytes
  revert hstat
  decide

end L7mp
