import L7mp.GuardedRun
import L7mp.OffloadBooks
import L7mp.OffloadAgrees

/-! The statistics of offloaded flows, while the proxy creates and removes flows and the kernel
program counts the packets. -/
namespace L7mp
open Bytes GuardedRun

/-- The offload with its maps, and what was sent on for each key since its entry was last reset:
the packets and their bytes. -/
structure Traffic where
  offload : UDPOffload
  seen : List UInt8 → ℕ × ℕ

/-- A request of the proxy, or a packet that arrives at the kernel. -/
inductive TrafficEvent
  | request (r : OffloadRequest)
  | packet (h : Helpers) (skb : Skb)

instance (redirects : BpfMap) (p : List UInt8) : Decidable (Hits redirects p) :=
  decidable_of_iff (42 ≤ p.length ∧ field 12 2 p = [8, 0] ∧ load 23 1 p = 17 ∧
      redirects (tupleAt 20 p).bytes ≠ none)
    ⟨fun h => ⟨h.1, h.2.1, h.2.2.1, h.2.2.2⟩, fun h => ⟨h.length, h.ethertype, h.protocol, h.key⟩⟩

namespace Traffic

variable (parse : String → Option IPv4)

def start (heap : ℕ → Flow) : Traffic := ⟨.fresh heap, fun _ => (0, 0)⟩

/-- A request that gets to the maps starts its key anew. -/
def reset (c : Traffic) (r : OffloadRequest) : List UInt8 → ℕ × ℕ :=
  match c.offload.prepare parse r, r.action with
  | .ok key, .create => Function.update c.seen key (0, 0)
  | .ok key, .remove => Function.update c.seen key (0, 0)
  | _, _ => c.seen

/-- A packet of a recorded flow that is not dropped. -/
def send (c : Traffic) (h : Helpers) (skb : Skb) : List UInt8 → ℕ × ℕ :=
  let key := (tupleAt 20 skb.data).bytes
  if Hits c.offload.redirectsMap skb.data ∧
      (sidecar h c.offload.redirectsMap c.offload.statisticsMap skb).1 ≠ .shot then
    Function.update c.seen key ((c.seen key).1 + 1, (c.seen key).2 + skb.data.length)
  else c.seen

def step (c : Traffic) : TrafficEvent → Option Traffic
  | .request r => some ⟨(UDPOffload.setOffload parse r c.offload).2, c.reset parse r⟩
  | .packet h skb => some ⟨{ c.offload with statisticsMap :=
      (sidecar h c.offload.redirectsMap c.offload.statisticsMap skb).2.2 }, c.send h skb⟩

/-- The entries of the map are the counts, as far as they fit, and the flows can be read. -/
structure Exact (c : Traffic) : Prop where
  counts : ∀ key, counters c.offload.statisticsMap key =
    ((c.seen key).1 % 2^64, (c.seen key).2 % 2^64)
  sane : Books.Sane parse c.offload

variable {parse} {c d : Traffic}

theorem counters_none {m : BpfMap} {key : List UInt8} (h : m key = none) :
    counters m key = (0, 0) := by
  unfold counters
  rw [h]

theorem counters_congr {m m' : BpfMap} {key : List UInt8} (h : m key = m' key) :
    counters m key = counters m' key := by
  unfold counters
  rw [h]

/-- An entry that can be read has the counters that are read. -/
theorem counters_of_fromBuffer {m : BpfMap} {key : List UInt8} {s : FlowStat}
    (h : FlowStat.fromBuffer (m key) = .ok s) : counters m key = (s.pkts, s.bytes) := by
  unfold counters
  cases hm : m key with
  | none =>
    rw [hm] at h
    cases h
  | some buf =>
    rw [hm] at h
    by_cases hlen : 24 ≤ buf.length
    · rw [fromBuffer_of_length hlen] at h
      cases h
      rfl
    · rw [fromBuffer_of_short hlen] at h
      cases h

theorem counters_zeroStat {m : BpfMap} {key : List UInt8}
    (h : m key = some UDPOffload.zeroStat) : counters m key = (0, 0) := by
  unfold counters
  rw [h]
  rfl

/-- The statistics after a request. -/
theorem statistics_create (key : List UInt8) (r : OffloadRequest) (o : UDPOffload) :
    (UDPOffload.create key r o).2.statisticsMap = o.statisticsMap.set key UDPOffload.zeroStat := by
  by_cases hredir : ∃ f ∈ r.redirFlow, (o.heap f).encodes = true
  · obtain ⟨_, _, hstatistics, _, _⟩ := Books.create_writes key hredir
    ext k v
    rw [hstatistics]
    unfold BpfMap.set
    rw [Function.update_apply]
  · rw [(Books.create_stops key hredir).2]

theorem Exact.request (h : c.Exact parse) (r : OffloadRequest) :
    Exact parse ⟨(UDPOffload.setOffload parse r c.offload).2, c.reset parse r⟩ where
  sane := (show Books.Sane parse (Books.mk c.offload ∅).offload from h.sane).after r
  counts := by
    intro k
    cases hprep : c.offload.prepare parse r with
    | error e =>
      have hseen : c.reset parse r = c.seen := by
        unfold reset
        rw [hprep]
      rw [Books.setOffload_of_error hprep, hseen]
      exact h.counts k
    | ok key =>
      rw [Books.setOffload_of_prepared hprep]
      unfold UDPOffload.perform
      cases haction : r.action with
      | create =>
        have hseen : c.reset parse r = Function.update c.seen key (0, 0) := by
          unfold reset
          rw [hprep, haction]
        dsimp only
        rw [statistics_create, hseen]
        by_cases hk : k = key
        · rw [hk, Function.update_self]
          exact counters_zeroStat (Function.update_self key _ _)
        · rw [Function.update_of_ne hk, ← h.counts k]
          exact counters_congr (Function.update_of_ne hk _ _)
      | remove =>
        have hseen : c.reset parse r = Function.update c.seen key (0, 0) := by
          unfold reset
          rw [hprep, haction]
        dsimp only
        rw [hseen]
        by_cases hk : k = key
        · rw [hk, Function.update_self]
          exact counters_none (Function.update_self key _ _)
        · rw [Function.update_of_ne hk, ← h.counts k]
          exact counters_congr (Function.update_of_ne hk _ _)
      | other action =>
        have hseen : c.reset parse r = c.seen := by
          unfold reset
          rw [hprep, haction]
        dsimp only
        rw [hseen]
        exact h.counts k

/-- A packet that is counted adds one to the packets of its key, and its length to the bytes. -/
theorem counters_account (h : Helpers) (len : ℕ) (key k : List UInt8) (statistics : BpfMap) :
    counters (account h len key statistics) k = if k = key then
      (((counters statistics key).1 + 1) % 2^64, ((counters statistics key).2 + len) % 2^64)
    else counters statistics k := by
  obtain ⟨hother, hkey⟩ := account_counts h len key statistics
  by_cases hk : k = key
  · rw [if_pos hk, hk]
    exact counters_of_fromBuffer hkey
  · rw [if_neg hk]
    exact counters_congr (hother k hk)

theorem length_account (h : Helpers) (len : ℕ) (key : List UInt8) {statistics : BpfMap}
    (hsizes : ∀ k v, statistics k = some v → 24 ≤ v.length) (k v : List UInt8)
    (hv : account h len key statistics k = some v) : 24 ≤ v.length := by
  obtain ⟨hother, hkey⟩ := account_counts h len key statistics
  by_cases hk : k = key
  · by_contra hshort
    subst hk
    rw [hv, fromBuffer_of_short hshort] at hkey
    cases hkey
  · rw [hother k hk] at hv
    exact hsizes k v hv

/-- What the kernel program does with a packet: it leaves the statistics alone, or it counts a
packet of a recorded flow. -/
theorem packet_cases (c : Traffic) (h : Helpers) (skb : Skb) :
    ((sidecar h c.offload.redirectsMap c.offload.statisticsMap skb).2.2 =
      c.offload.statisticsMap ∧ c.send h skb = c.seen) ∨
    ((sidecar h c.offload.redirectsMap c.offload.statisticsMap skb).2.2 =
      account h skb.data.length (tupleAt 20 skb.data).bytes c.offload.statisticsMap ∧
      c.send h skb = Function.update c.seen (tupleAt 20 skb.data).bytes
        ((c.seen (tupleAt 20 skb.data).bytes).1 + 1,
          (c.seen (tupleAt 20 skb.data).bytes).2 + skb.data.length)) := by
  by_cases hit : Hits c.offload.redirectsMap skb.data
  · obtain ⟨redir, hredir⟩ := Option.ne_none_iff_exists'.mp hit.key
    have hsidecar := @sidecar_hits h _ c.offload.statisticsMap skb hit redir hredir
    unfold send
    rw [hsidecar]
    by_cases hshot : (forward h { skb with data := redirected h redir skb.data }).1 = .shot
    · left
      refine ⟨if_pos hshot, if_neg ?_⟩
      exact fun hsent => hsent.2 hshot
    · right
      exact ⟨if_neg hshot, if_pos ⟨hit, hshot⟩⟩
  · left
    rw [sidecar_misses h hit]
    exact ⟨rfl, if_neg (fun hsent => hit hsent.1)⟩

theorem Exact.packet (h : c.Exact parse) (helpers : Helpers) (skb : Skb) :
    Exact parse ⟨{ c.offload with statisticsMap :=
      (sidecar helpers c.offload.redirectsMap c.offload.statisticsMap skb).2.2 },
      c.send helpers skb⟩ := by
  rcases packet_cases c helpers skb with ⟨hstatistics, hseen⟩ | ⟨hstatistics, hseen⟩
  · rw [hstatistics, hseen]
    exact h
  · rw [hstatistics, hseen]
    refine ⟨?_, ⟨h.sane.shows, h.sane.writes, length_account _ _ _ h.sane.sizes⟩⟩
    intro k
    dsimp only
    rw [counters_account]
    by_cases hk : k = (tupleAt 20 skb.data).bytes
    · rw [if_pos hk, hk, Function.update_self, h.counts]
      simp only [Nat.mod_add_mod]
    · rw [if_neg hk, Function.update_of_ne hk]
      exact h.counts k

theorem exact_start (heap : ℕ → Flow) : Exact parse (start heap) where
  counts _ := rfl
  sane := Books.sane_fresh heap

theorem Exact.run {heap : ℕ → Flow} (hrun : Run (step parse) always (start heap) c) :
    c.Exact parse := by
  refine hrun.invariant ?_ (exact_start heap)
  intro c e d hc _ he
  cases e with
  | request r =>
    cases he
    exact hc.request r
  | packet h skb =>
    cases he
    exact hc.packet h skb

/-- What is read of a flow that can be shown and written. -/
theorem getStat_eq {o : UDPOffload} {f : Flow} {key : List UInt8}
    (hshow : UDPOffload.showsFlow parse f = .ok ()) (hkey : f.toBuffer = .ok key) :
    o.getStat parse f = (FlowStat.fromBuffer (o.statisticsMap key)).map
      (fun stat => f.metrics.map (fun m => (m, stat.metric m))) := by
  unfold UDPOffload.getStat
  rw [hshow, hkey]
  change (do
    let stat ← FlowStat.fromBuffer (o.statisticsMap key)
    pure (f.metrics.map (fun m => (m, stat.metric m)))) = _
  cases FlowStat.fromBuffer (o.statisticsMap key) <;> rfl

/-- However requests and packets interleave: a flow in the books is read as what the kernel has
sent on for its key since the key was last created or removed, as far as 64 bits hold it, and it
cannot be read just when its key has no entry. -/
theorem getStat_exact (parse : String → Option IPv4) (heap : ℕ → Flow) (c : Traffic)
    (hrun : Run (step parse) always (start heap) c) (i : ℕ) (hi : i ∈ c.offload.flows) :
    ∃ key, (c.offload.heap i).toBuffer = .ok key ∧
      (c.offload.statisticsMap key ≠ none → ∃ timestamp,
        c.offload.getStat parse (c.offload.heap i) = .ok ((c.offload.heap i).metrics.map (fun m =>
          (m, FlowStat.metric ⟨(c.seen key).1 % 2^64, (c.seen key).2 % 2^64, timestamp⟩ m)))) ∧
      (c.offload.statisticsMap key = none →
        ∃ e, c.offload.getStat parse (c.offload.heap i) = .error e) := by
  have hexact := Exact.run hrun
  have hshow := hexact.sane.shows i hi
  obtain ⟨key, hkey⟩ := hexact.sane.writes i hi
  refine ⟨key, hkey, ?_, ?_⟩
  · intro hentry
    obtain ⟨buf, hbuf⟩ := Option.ne_none_iff_exists'.mp hentry
    have hread := fromBuffer_of_length (hexact.sane.sizes key buf hbuf)
    rw [← hbuf] at hread
    have hcounts := hexact.counts key
    rw [counters_of_fromBuffer hread] at hcounts
    obtain ⟨hpkts, hbytes⟩ := Prod.mk.inj hcounts
    refine ⟨load 16 8 buf, ?_⟩
    rw [getStat_eq hshow hkey, hread, ← hpkts, ← hbytes]
    rfl
  · intro hnone
    rw [getStat_eq hshow hkey, hnone]
    exact ⟨_, rfl⟩

/-- A flow from `addrA` to `addrB`, sent on from there to `addrC`. -/
def twoFlows (i : ℕ) : Flow :=
  if i = 0 then ⟨ValidAddr.tuple addrA addrB, defaultMetrics⟩
  else ⟨ValidAddr.tuple addrB addrC, defaultMetrics⟩

/-- One datagram of 44 bytes of the flow. -/
theorem getStat_exact_datagram : ∃ c timestamp,
    Run (step knownAddresses) always (start twoFlows) c ∧
    c.offload.getStat knownAddresses (c.offload.heap 0) =
      .ok ((c.offload.heap 0).metrics.map (fun m => (m, FlowStat.metric ⟨1, 44, timestamp⟩ m))) := by
  obtain ⟨c, hc⟩ : ∃ c, exec (step knownAddresses) always (start twoFlows)
      [.request ⟨0, some 1, .create, none⟩, .packet quietHelpers datagramAB.skb] = some c :=
    ⟨_, rfl⟩
  have hrun := exec_run _ _ _ hc
  have hi : 0 ∈ c.offload.flows := by
    cases hc
    decide
  obtain ⟨key, hkey, hread, -⟩ := getStat_exact knownAddresses twoFlows c hrun 0 hi
  have htuple : key = (flowIn datagramAB.skb.data).bytes := by
    cases hc
    cases hkey
    decide
  subst htuple
  obtain ⟨timestamp, hstat⟩ := hread (by cases hc; decide)
  refine ⟨c, timestamp, hrun, ?_⟩
  rw [hstat]
  cases hc
  rfl

end Traffic
end L7mp
