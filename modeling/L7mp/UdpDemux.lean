import L7mp.UdpServer

/-! When a UDP listener in server mode gives every packet to the session of its remote: at most
one session for each remote, and its packets in the order of their arrival. -/
namespace L7mp
namespace UdpServer
open GuardedRun

/-- A session of `r`. -/
def serves (r : Remote) (c : Connection) : Bool := c.live && c.remote = r

/-- A socket of `r` that is still being bound or connected. -/
def awaits (r : Remote) (c : Connection) : Bool := c.pending && c.remote = r

/-- The packets of `r` that wait for their socket. -/
def waiting (s : UdpServer) (r : Remote) : List Datagram :=
  (s.conns.filter (awaits r)).map Connection.queue

/-- The packets of `r` that a session got, with the session. -/
def received (s : UdpServer) (r : Remote) : List Datagram :=
  (s.handed.map Prod.snd).filter (fun d => d.remote = r)

/-- There is at most one session for each remote. What a session got comes from its remote, and
the packets of a remote that arrived are those that its session got, in this order, and after
them those that wait for the first socket. -/
structure Demultiplexed (s : UdpServer) : Prop where
  single : ∀ r, s.conns.countP (serves r) ≤ 1
  own : ∀ k d, (k, d) ∈ s.handed → ∃ c, s.conns[k]? = some c ∧ c.remote = d.remote
  inOrder : ∀ r, s.arrived.filter (fun d => d.remote = r) = s.received r ++ s.waiting r

/-- A session of `r`, or a socket on its way to one. -/
def engages (r : Remote) (c : Connection) : Bool := awaits r c || serves r c

/-- A packet of a remote in the table finds its session running, and a packet that opens a socket
comes from a remote with no session and no other socket on its way. -/
def welcomes (s : UdpServer) (d : Datagram) : Bool :=
  match s.sessions d.remote with
  | some k => s.conns[k]?.any Connection.live
  | none => s.refuses d.remote || !s.conns.any (engages d.remote)

/-- The steps on which no packet is lost and no second session starts: sockets are bound and
connected, and packets are welcome. -/
def Meets (s : UdpServer) : Event → Prop
  | .message d => s.welcomes d = true
  | .bound _ ok => ok = true
  | .connected _ ok => ok = true
  | _ => True

instance (s : UdpServer) : ∀ e, Decidable (Meets s e)
  | .message _ => inferInstanceAs (Decidable (_ = _))
  | .bound _ _ => inferInstanceAs (Decidable (_ = _))
  | .connected _ _ => inferInstanceAs (Decidable (_ = _))
  | .routed _ _ => inferInstanceAs (Decidable True)
  | .ended _ => inferInstanceAs (Decidable True)
  | .socketError _ => inferInstanceAs (Decidable True)
  | .socketClose _ => inferInstanceAs (Decidable True)

/-- What the guarded steps keep. -/
structure Orderly (s : UdpServer) : Prop where
  alone : ∀ r, s.conns.countP (engages r) ≤ 1
  apart : ∀ c ∈ s.conns, c.live = true → c.pending = false
  queued : ∀ c ∈ s.conns, c.queue.remote = c.remote
  entry : ∀ r k, s.sessions r = some k → ∃ c, s.conns[k]? = some c ∧ c.remote = r
  own : ∀ k d, (k, d) ∈ s.handed → ∃ c, s.conns[k]? = some c ∧ c.remote = d.remote
  inOrder : ∀ r, s.arrived.filter (fun d => d.remote = r) = s.received r ++ s.waiting r

theorem Orderly.demultiplexed {s : UdpServer} (h : Orderly s) : Demultiplexed s := by
  refine ⟨?_, h.own, h.inOrder⟩
  intro r
  -- every session is one of the sockets that are counted together
  have hle : s.conns.countP (serves r) ≤ s.conns.countP (engages r) := by
    apply List.countP_mono_left
    intro c _ hc
    simp only [engages, hc, Bool.or_true]
  exact Nat.le_trans hle (h.alone r)

theorem start_orderly (connect : Option ConnectSpec) : Orderly (start connect) := by
  constructor <;> simp [start, received, waiting]

/-- The list around one of its elements. -/
theorem conns_split {s : UdpServer} {k : ℕ} {c : Connection} (h : s.conns[k]? = some c) :
    ∃ l₁ l₂, s.conns = l₁ ++ c :: l₂ ∧ l₁.length = k ∧
      ∀ f, s.conns.modify k f = l₁ ++ f c :: l₂ := by
  obtain ⟨hk, rfl⟩ := List.getElem?_eq_some_iff.mp h
  refine ⟨s.conns.take k, s.conns.drop (k + 1), ?_, ?_, ?_⟩
  · simp
  · simp only [List.length_take]
    omega
  · intro f
    rw [List.modify_eq_take_cons_drop hk]

/-- A connection keeps its remote when others are modified, and when it is. -/
theorem remote_at_modify {s : UdpServer} {k j : ℕ} {r : Remote} (f : Connection → Connection)
    (hf : ∀ c, s.conns[k]? = some c → (f c).remote = c.remote)
    (h : ∃ c, s.conns[j]? = some c ∧ c.remote = r) :
    ∃ c, (s.conns.modify k f)[j]? = some c ∧ c.remote = r := by
  obtain ⟨c, hc, hr⟩ := h
  by_cases hjk : k = j
  · subst hjk
    refine ⟨f c, ?_, (hf c hc).trans hr⟩
    simp [hc]
  · refine ⟨c, ?_, hr⟩
    simp [hjk, hc]

/-- A change of one socket that neither binds nor connects it and starts no session. -/
theorem modifyConn_orderly {s : UdpServer} {k : ℕ} (f : Connection → Connection)
    (hf : ∀ c, s.conns[k]? = some c → (f c).remote = c.remote ∧ (f c).queue = c.queue ∧
      (f c).pending = c.pending ∧ ((f c).live = true → c.live = true))
    (h : Orderly s) : Orderly (s.modifyConn k f) := by
  rcases hk : s.conns[k]? with _ | c
  · -- there is no such socket
    have hid : s.modifyConn k f = s := by
      unfold modifyConn
      rw [List.modify_eq_self (List.getElem?_eq_none_iff.mp hk)]
    rw [hid]
    exact h
  obtain ⟨hremote, hqueue, hpending, hlive⟩ := hf c hk
  obtain ⟨l₁, l₂, hl, -, hmodify⟩ := conns_split hk
  have hsame : ∀ c', s.conns[k]? = some c' → (f c').remote = c'.remote :=
    fun c' hc' => (hf c' hc').1
  have hawaits : ∀ r, awaits r (f c) = awaits r c := by
    intro r
    simp only [awaits, hpending, hremote]
  refine ⟨?_, ?_, ?_, ?_, ?_, ?_⟩
  · intro r
    have halone := h.alone r
    have hle : engages r (f c) = true → engages r c = true := by
      intro he
      simp only [engages, hawaits, serves, hremote, Bool.or_eq_true, Bool.and_eq_true] at he ⊢
      exact he.imp_right (fun hs => ⟨hlive hs.1, hs.2⟩)
    show (s.conns.modify k f).countP (engages r) ≤ 1
    rw [hl, List.countP_append, List.countP_cons] at halone
    rw [hmodify, List.countP_append, List.countP_cons]
    split
    · rename_i hfc
      simp only [hle hfc, if_true] at halone
      exact halone
    · omega
  · apply forall_modify hk h.apart
    intro hold hl'
    rw [hpending]
    exact hold (hlive hl')
  · apply forall_modify hk h.queued
    intro hold
    rw [hqueue, hremote]
    exact hold
  · intro r j hj
    exact remote_at_modify f hsame (h.entry r j hj)
  · intro j d hd
    exact remote_at_modify f hsame (h.own j d hd)
  · intro r
    have hwait : (s.modifyConn k f).waiting r = s.waiting r := by
      show ((s.conns.modify k f).filter (awaits r)).map Connection.queue = s.waiting r
      unfold waiting
      rw [hmodify, hl]
      simp only [List.filter_append, List.filter_cons, hawaits, List.map_append]
      split <;> simp [hqueue]
    rw [hwait]
    exact h.inOrder r

/-- Entries that go away do no harm. -/
theorem forget_orderly {s : UdpServer} (c : Connection) (h : Orderly s) : Orderly (forget c s) := by
  unfold forget
  split
  · refine ⟨h.alone, h.apart, h.queued, ?_, h.own, h.inOrder⟩
    intro r k hk
    change Function.update s.sessions c.remote none r = some k at hk
    by_cases hr : r = c.remote
    · rw [hr, Function.update_self] at hk
      cases hk
    · rw [Function.update_of_ne hr] at hk
      exact h.entry r k hk
  · exact h

/-- Next to the one socket that counts for a remote, no packet of the remote waits. -/
theorem none_else {r : Remote} {l l₁ l₂ : List Connection} {c : Connection}
    (halone : l.countP (engages r) ≤ 1) (hl : l = l₁ ++ c :: l₂) (hc : engages r c = true) :
    (l₁.countP (engages r) = 0 ∧ l₂.countP (engages r) = 0) ∧
      l₁.filter (awaits r) = [] ∧ l₂.filter (awaits r) = [] := by
  rw [hl, List.countP_append, List.countP_cons, if_pos hc] at halone
  have hnil : ∀ l : List Connection, l.countP (engages r) = 0 → l.filter (awaits r) = [] := by
    intro l h
    apply List.filter_eq_nil_iff.mpr
    intro c' hc' hw
    apply List.countP_eq_zero.mp h c' hc'
    simp only [engages, hw, Bool.true_or]
  have h₁ : l₁.countP (engages r) = 0 := by omega
  have h₂ : l₂.countP (engages r) = 0 := by omega
  exact ⟨⟨h₁, h₂⟩, hnil l₁ h₁, hnil l₂ h₂⟩

/-- A session with a packet more. -/
theorem received_append (s : UdpServer) (k : ℕ) (d : Datagram) (r : Remote) :
    ((s.handed ++ [(k, d)]).map Prod.snd).filter (fun d => d.remote = r) =
      s.received r ++ [d].filter (fun d => d.remote = r) := by
  simp only [List.map_append, List.filter_append, List.map_cons, List.map_nil, received]

/-- A packet of a remote in the table. -/
theorem emit_orderly {s : UdpServer} {d : Datagram} {k : ℕ} (hk : s.sessions d.remote = some k)
    (hlive : s.conns[k]?.any Connection.live = true) (h : Orderly s) :
    Orderly (emit k d { s with arrived := s.arrived ++ [d] }) := by
  obtain ⟨c, hc, hcr⟩ := h.entry d.remote k hk
  have hcl : c.live = true := by simpa [hc] using hlive
  obtain ⟨l₁, l₂, hl, -, -⟩ := conns_split hc
  -- its session is the one engagement of the remote, so that no packet waits
  have hcp := h.apart c (List.mem_of_getElem? hc) hcl
  have hnone : s.waiting d.remote = [] := by
    have hserves : engages d.remote c = true := by simp [engages, serves, hcl, hcr]
    obtain ⟨-, h₁, h₂⟩ := none_else (h.alone d.remote) hl hserves
    simp [waiting, hl, h₁, h₂, awaits, hcp]
  have hemit : emit k d { s with arrived := s.arrived ++ [d] } =
      ⟨s.connect, s.sessions, s.conns, s.arrived ++ [d], s.handed ++ [(k, d)]⟩ := by
    unfold emit
    exact if_pos hlive
  rw [hemit]
  refine ⟨h.alone, h.apart, h.queued, h.entry, ?_, ?_⟩
  · intro j d' hd'
    change (j, d') ∈ s.handed ++ [(k, d)] at hd'
    rw [List.mem_append, List.mem_singleton] at hd'
    rcases hd' with hd' | hd'
    · exact h.own j d' hd'
    · cases hd'
      exact ⟨c, hc, hcr⟩
  · intro r
    show (s.arrived ++ [d]).filter (fun d => d.remote = r) =
      ((s.handed ++ [(k, d)]).map Prod.snd).filter (fun d => d.remote = r) ++ s.waiting r
    rw [received_append, List.filter_append, h.inOrder r]
    by_cases hr : d.remote = r
    · rw [← hr, hnone]
      simp
    · simp [hr]

/-- A packet that opens a socket. -/
theorem open_orderly {s : UdpServer} {d : Datagram}
    (hfree : s.conns.any (engages d.remote) = false) (h : Orderly s) :
    Orderly ⟨s.connect, s.sessions, s.conns ++ [Connection.new d], s.arrived ++ [d],
      s.handed⟩ := by
  have hkept : ∀ {k : ℕ} {r : Remote}, (∃ c, s.conns[k]? = some c ∧ c.remote = r) →
      ∃ c, (s.conns ++ [Connection.new d])[k]? = some c ∧ c.remote = r := by
    intro k r hold
    obtain ⟨c, hc, hr⟩ := hold
    have hlt := (List.getElem?_eq_some_iff.mp hc).1
    exact ⟨c, (List.getElem?_append_left hlt).trans hc, hr⟩
  refine ⟨?_, ?_, ?_, ?_, ?_, ?_⟩
  · intro r
    rw [List.countP_append]
    by_cases hr : d.remote = r
    · have hzero : s.conns.countP (engages r) = 0 := by
        apply List.countP_eq_zero.mpr
        intro c hc
        rw [← hr]
        simpa using List.any_eq_false.mp hfree c hc
      rw [hzero, Nat.zero_add]
      exact List.countP_le_length
    · have hnew : [Connection.new d].countP (engages r) = 0 := by
        simp [engages, awaits, serves, Connection.new, hr]
      rw [hnew]
      exact h.alone r
  · intro c hc
    rw [List.mem_append, List.mem_singleton] at hc
    rcases hc with hc | rfl
    · exact h.apart c hc
    · intro hl
      cases hl
  · intro c hc
    rw [List.mem_append, List.mem_singleton] at hc
    rcases hc with hc | rfl
    · exact h.queued c hc
    · rfl
  · intro r k hk
    exact hkept (h.entry r k hk)
  · intro k d' hd'
    exact hkept (h.own k d' hd')
  · intro r
    have hw : ((s.conns ++ [Connection.new d]).filter (awaits r)).map Connection.queue =
        s.waiting r ++ [d].filter (fun d => d.remote = r) := by
      rw [List.filter_append, List.map_append, waiting]
      apply congrArg
      by_cases hr : d.remote = r <;> simp [awaits, Connection.pending, Connection.new, hr]
    show (s.arrived ++ [d]).filter (fun d => d.remote = r) = s.received r ++ _
    rw [waiting, hw, List.filter_append, h.inOrder r, List.append_assoc]

/-- The first session of a remote gets the packet that opened its socket. -/
theorem onRequest_orderly {s : UdpServer} {k : ℕ} {c : Connection} (hk : s.conns[k]? = some c)
    (hp : c.pending = true) (h : Orderly s) : Orderly (s.onRequest k c) := by
  obtain ⟨l₁, l₂, hl, -, hmodify⟩ := conns_split hk
  have hsame : ∀ c', s.conns[k]? = some c' → c'.serve.remote = c'.remote := fun _ _ => rfl
  have hmem : c ∈ s.conns := List.mem_of_getElem? hk
  have hq := h.queued c hmem
  rw [onRequest_eq hk]
  refine ⟨?_, ?_, ?_, ?_, ?_, ?_⟩
  · -- the socket was counted before
    intro r
    have halone := h.alone r
    have hsame : engages r c.serve = engages r c := by
      by_cases hr : c.remote = r <;>
        simp [engages, awaits, serves, Connection.serve, hp, hr]
    show (s.conns.modify k Connection.serve).countP (engages r) ≤ 1
    rw [hmodify, List.countP_append, List.countP_cons, hsame]
    rw [hl, List.countP_append, List.countP_cons] at halone
    exact halone
  · exact forall_modify hk h.apart (fun _ _ => rfl)
  · exact forall_modify hk h.queued id
  · intro r j hj
    change Function.update s.sessions c.remote (some k) r = some j at hj
    apply remote_at_modify Connection.serve hsame
    by_cases hr : r = c.remote
    · rw [hr, Function.update_self] at hj
      cases hj
      exact ⟨c, hk, hr.symm⟩
    · rw [Function.update_of_ne hr] at hj
      exact h.entry r j hj
  · intro j d hd
    change (j, d) ∈ s.handed ++ [(k, c.queue)] at hd
    apply remote_at_modify Connection.serve hsame
    rw [List.mem_append, List.mem_singleton] at hd
    rcases hd with hd | hd
    · exact h.own j d hd
    · cases hd
      exact ⟨c, hk, hq.symm⟩
  · intro r
    show s.arrived.filter (fun d => d.remote = r) =
      ((s.handed ++ [(k, c.queue)]).map Prod.snd).filter (fun d => d.remote = r) ++
        ((s.conns.modify k Connection.serve).filter (awaits r)).map Connection.queue
    have hserved : awaits r c.serve = false := by simp [awaits, Connection.pending, Connection.serve]
    rw [received_append, h.inOrder r, List.append_assoc]
    apply congrArg
    rw [waiting, hmodify, hl]
    by_cases hr : c.remote = r
    · -- what waited is the one packet of this socket
      have hawaits : awaits r c = true := by simp [awaits, hp, hr]
      have hengages : engages r c = true := by simp [engages, hawaits]
      obtain ⟨-, h₁, h₂⟩ := none_else (h.alone r) hl hengages
      simp [h₁, h₂, hawaits, hserved, hq, hr]
    · have hawaits : awaits r c = false := by simp [awaits, hr]
      simp [hawaits, hserved, hq, hr]

theorem message_orderly {s : UdpServer} {d : Datagram} (hw : s.welcomes d = true)
    (h : Orderly s) : Orderly (s.onConnect d) := by
  rcases hk : s.sessions d.remote with _ | k
  · rw [onConnect_unknown hk]
    split
    · exact h
    · rename_i hrefused
      apply open_orderly _ h
      simpa [welcomes, hk, hrefused] using hw
  · rw [onConnect_known hk]
    apply emit_orderly hk _ h
    simpa only [welcomes, hk] using hw

theorem onRouted_orderly {s : UdpServer} {k : ℕ} {c : Connection} (ok : Bool)
    (hc : s.conns[k]? = some c) (hrouting : c.setup = .routing) (h : Orderly s) :
    Orderly (s.onRouted k ok c) := by
  have hdone : Orderly (s.modifyConn k (fun c => { c with setup := .done })) := by
    apply modifyConn_orderly _ _ h
    intro c' hc'
    cases hc.symm.trans hc'
    exact ⟨rfl, rfl, by simp [Connection.pending, hrouting], id⟩
  unfold onRouted
  split
  · unfold watch
    split
    · apply modifyConn_orderly _ _ hdone
      intro c' _
      exact ⟨rfl, rfl, rfl, id⟩
    · exact hdone
  · exact hdone

/-- One guarded step. -/
theorem step_orderly (s : UdpServer) (e : Event) (t : UdpServer) (h : Orderly s)
    (hmeets : Meets s e) (hstep : step s e = some t) : Orderly t := by
  cases e with
  | message d =>
    cases hstep
    exact message_orderly hmeets h
  | bound k ok =>
    obtain ⟨c, hc, hcan, rfl⟩ := onSocket_some hstep
    have hbinding : c.setup = .binding := of_decide_eq_true hcan
    have hok : ok = true := hmeets
    apply modifyConn_orderly _ _ h
    intro c' hc'
    cases hc.symm.trans hc'
    exact ⟨rfl, rfl, by simp [Connection.pending, hbinding, hok], id⟩
  | connected k ok =>
    obtain ⟨c, hc, hcan, rfl⟩ := onSocket_some hstep
    have hconnecting : c.setup = .connecting := of_decide_eq_true hcan
    have hok : ok = true := hmeets
    rw [onConnected, if_pos hok]
    exact onRequest_orderly hc (by simp [Connection.pending, hconnecting]) h
  | routed k ok =>
    obtain ⟨c, hc, hcan, rfl⟩ := onSocket_some hstep
    have hrouting : c.setup = .routing := of_decide_eq_true (Bool.and_eq_true_iff.mp hcan).1
    exact onRouted_orderly ok hc hrouting h
  | ended k =>
    obtain ⟨c, hc, -, rfl⟩ := onSocket_some hstep
    apply modifyConn_orderly _ _ h
    intro c' _
    exact ⟨rfl, rfl, rfl, fun hl => by cases hl⟩
  | socketError k =>
    obtain ⟨c, -, -, rfl⟩ := onSocket_some hstep
    exact forget_orderly c h
  | socketClose k =>
    obtain ⟨c, -, -, rfl⟩ := onSocket_some hstep
    apply forget_orderly
    apply modifyConn_orderly _ _ h
    intro c' _
    exact ⟨rfl, rfl, rfl, id⟩

/-- On runs whose packets are all welcome and whose sockets are all bound and connected, a remote
has one session at most, and the session gets its packets in the order of their arrival. -/
theorem demultiplexed_throughout (connect : Option ConnectSpec) (s : UdpServer)
    (h : Run step Meets (start connect) s) : Demultiplexed s :=
  (h.invariant step_orderly (start_orderly connect)).demultiplexed

/-- Two remotes, whose sockets come up in the other order than their first packets. -/
def interleaved : List Event :=
  [.message ⟨⟨"10.0.0.1", 1⟩, [1]⟩, .message ⟨⟨"10.0.0.1", 2⟩, [2]⟩, .bound 0 true, .bound 1 true,
    .connected 1 true, .message ⟨⟨"10.0.0.1", 2⟩, [3]⟩, .connected 0 true, .routed 1 true,
    .message ⟨⟨"10.0.0.1", 1⟩, [4]⟩]

theorem interleaved_demultiplexed : ∃ s, exec step Meets (start none) interleaved = some s ∧
    s.handed.map Prod.fst = [1, 1, 0, 0] ∧ Demultiplexed s :=
  ⟨_, rfl, rfl, demultiplexed_throughout none _ (exec_run interleaved _ _ rfl)⟩

/-- The second packet of a remote arrives before the socket of the first one is in the table. -/
def burst : List Event :=
  [.message ⟨⟨"10.0.0.1", 1⟩, [1]⟩, .message ⟨⟨"10.0.0.1", 1⟩, [2]⟩, .bound 0 true, .bound 1 true,
    .connected 1 true, .connected 0 true]

/-- The remote gets two sessions, and its packets change their order. -/
theorem burst_two_sessions : ∃ s, exec step always (start none) burst = some s ∧
    s.conns.countP (serves ⟨"10.0.0.1", 1⟩) = 2 ∧
    s.handed.map Prod.snd = s.arrived.reverse ∧ ¬ Demultiplexed s := by
  refine ⟨_, rfl, by decide, by decide, ?_⟩
  intro h
  exact absurd (h.single ⟨"10.0.0.1", 1⟩) (by decide)

end UdpServer
end L7mp
