import L7mp.UdpServer

/-! Which sockets stay in the table of a UDP listener in server mode. The handlers that remove an
entry are put on its socket only after the session was accepted. -/
namespace L7mp

/-- `onRequest` was called with the socket. -/
def Connection.requested (c : Connection) : Bool := c.setup = .routing || c.setup = .done

namespace UdpServer
open GuardedRun

/-- The packet opens a socket for a session of its own. -/
def Starts (s : UdpServer) (d : Datagram) : Prop :=
  (s.onConnect d).conns = s.conns ++ [Connection.new d]

/-- An entry is a socket of its remote that is open. Where all sockets that a remote had a session
on are closed, its next packet starts a session. -/
structure Lively (s : UdpServer) : Prop where
  entry : ∀ r k, s.sessions r = some k → ∃ c, s.conns[k]? = some c ∧ c.remote = r ∧ c.isOpen = true
  next : ∀ d, s.refuses d.remote = false →
    (∀ c ∈ s.conns, c.remote = d.remote → c.requested = true → c.isOpen = false) → s.Starts d

/-- A socket that the table has is closed only with the handlers of `onRequest` on it. -/
def Watched (s : UdpServer) : Event → Prop
  | .socketClose k =>
    s.conns[k]?.all (fun c => c.watched || s.sessions c.remote ≠ some k) = true
  | _ => True

instance (s : UdpServer) : ∀ e, Decidable (Watched s e)
  | .message _ => inferInstanceAs (Decidable True)
  | .bound _ _ => inferInstanceAs (Decidable True)
  | .connected _ _ => inferInstanceAs (Decidable True)
  | .routed _ _ => inferInstanceAs (Decidable True)
  | .ended _ => inferInstanceAs (Decidable True)
  | .socketError _ => inferInstanceAs (Decidable True)
  | .socketClose _ => inferInstanceAs (Decidable (_ = _))

/-- The entry is a socket of its remote that is open and that `onRequest` was called with. -/
def Stands (conns : List Connection) (r : Remote) (k : ℕ) : Prop :=
  ∃ c, conns[k]? = some c ∧ c.remote = r ∧ c.isOpen = true ∧ c.requested = true

/-- What the guarded steps keep. -/
structure Rooted (s : UdpServer) : Prop where
  entry : ∀ r k, s.sessions r = some k → Stands s.conns r k
  setup : ∀ c ∈ s.conns, c.pending = true → c.isOpen = true

theorem Rooted.lively {s : UdpServer} (h : Rooted s) : Lively s := by
  refine ⟨?_, ?_⟩
  · intro r k hk
    obtain ⟨c, hc, hr, hopen, -⟩ := h.entry r k hk
    exact ⟨c, hc, hr, hopen⟩
  · intro d hd hclosed
    -- an entry would be an open socket of the remote
    have hnone : s.sessions d.remote = none := by
      apply Option.eq_none_iff_forall_ne_some.mpr
      intro k hk
      obtain ⟨c, hc, hr, hopen, hreq⟩ := h.entry d.remote k hk
      have hshut := hclosed c (List.mem_of_getElem? hc) hr hreq
      rw [hopen] at hshut
      cases hshut
    show (s.onConnect d).conns = s.conns ++ [Connection.new d]
    rw [onConnect_unknown hnone, hd]
    rfl

theorem start_rooted (connect : Option ConnectSpec) : Rooted (start connect) := by
  constructor <;> simp [start]

/-- An entry stands where its own socket keeps what it stands for. -/
theorem Stands.modify {conns : List Connection} {r : Remote} {j k : ℕ}
    {f : Connection → Connection} (h : Stands conns r j)
    (hf : ∀ c, conns[k]? = some c → k = j → c.remote = r → c.requested = true → c.isOpen = true →
      (f c).remote = r ∧ (f c).isOpen = true ∧ (f c).requested = true) :
    Stands (conns.modify k f) r j := by
  obtain ⟨c, hc, hr, hopen, hreq⟩ := h
  by_cases hkj : k = j
  · subst hkj
    refine ⟨f c, ?_, hf c hc rfl hr hreq hopen⟩
    simp [hc]
  · refine ⟨c, ?_, hr, hopen, hreq⟩
    simp [hkj, hc]

/-- A change of one socket that leaves its place in the table. -/
theorem modifyConn_rooted {s : UdpServer} {k : ℕ} {c : Connection} {f : Connection → Connection}
    (hc : s.conns[k]? = some c) (hremote : (f c).remote = c.remote)
    (hopen : (f c).isOpen = c.isOpen) (hreq : c.requested = true → (f c).requested = true)
    (hpending : (f c).pending = true → c.pending = true) (h : Rooted s) :
    Rooted (s.modifyConn k f) := by
  refine ⟨?_, ?_⟩
  · intro r j hj
    apply (h.entry r j hj).modify
    intro c' hc' _ hr hq ho
    cases hc.symm.trans hc'
    exact ⟨hremote.trans hr, hopen.trans ho, hreq hq⟩
  · apply forall_modify hc h.setup
    intro hold hp
    rw [hopen]
    exact hold (hpending hp)

theorem onConnect_rooted {s : UdpServer} (d : Datagram) (h : Rooted s) :
    Rooted (s.onConnect d) := by
  rcases hk : s.sessions d.remote with _ | k
  · rw [onConnect_unknown hk]
    split
    · exact h
    · refine ⟨?_, ?_⟩
      · intro r j hj
        obtain ⟨c, hc, hrest⟩ := h.entry r j hj
        have hlt := (List.getElem?_eq_some_iff.mp hc).1
        exact ⟨c, (List.getElem?_append_left hlt).trans hc, hrest⟩
      · intro c hc hp
        change c ∈ s.conns ++ [Connection.new d] at hc
        rw [List.mem_append, List.mem_singleton] at hc
        rcases hc with hc | rfl
        · exact h.setup c hc hp
        · rfl
  · rw [onConnect_known hk]
    unfold emit
    split
    · exact ⟨h.entry, h.setup⟩
    · exact ⟨h.entry, h.setup⟩

theorem onRequest_rooted {s : UdpServer} {k : ℕ} {c : Connection} (hc : s.conns[k]? = some c)
    (hp : c.pending = true) (h : Rooted s) : Rooted (s.onRequest k c) := by
  rw [onRequest_eq hc]
  have hopen := h.setup c (List.mem_of_getElem? hc) hp
  have hserved : Rooted (s.modifyConn k Connection.serve) :=
    modifyConn_rooted hc rfl rfl (fun _ => rfl) (fun hq => by cases hq) h
  refine ⟨?_, hserved.setup⟩
  intro r j hj
  change Function.update s.sessions c.remote (some k) r = some j at hj
  by_cases hr : r = c.remote
  · rw [hr, Function.update_self] at hj
    cases hj
    refine ⟨c.serve, ?_, hr.symm, hopen, rfl⟩
    simp [hc]
  · rw [Function.update_of_ne hr] at hj
    exact hserved.entry r j hj

/-- Without an entry there is one entry less to stand. -/
theorem setTable_none_rooted {s : UdpServer} (r : Remote) (h : Rooted s) :
    Rooted (s.setTable r none) := by
  refine ⟨?_, h.setup⟩
  intro r' k hk
  change Function.update s.sessions r none r' = some k at hk
  by_cases hr : r' = r
  · rw [hr, Function.update_self] at hk
    cases hk
  · rw [Function.update_of_ne hr] at hk
    exact h.entry r' k hk

theorem forget_rooted {s : UdpServer} (c : Connection) (h : Rooted s) : Rooted (forget c s) := by
  unfold forget
  split
  · exact setTable_none_rooted c.remote h
  · exact h

/-- Only an entry of its own can be left behind by a socket that closes. -/
theorem onClose_rooted {s : UdpServer} {k : ℕ} {c : Connection} (hc : s.conns[k]? = some c)
    (hp : c.pending = false) (hwatched : c.watched = true ∨ s.sessions c.remote ≠ some k)
    (h : Rooted s) : Rooted (s.onClose k c) := by
  have hsetup : ∀ c' ∈ s.conns.modify k (fun c => { c with isOpen := false }),
      c'.pending = true → c'.isOpen = true := by
    apply forall_modify hc h.setup
    intro _ hp'
    exact absurd hp' (by simpa [Connection.pending] using hp)
  -- the entries of other remotes have other sockets
  have hothers : ∀ r j, s.sessions r = some j → (k = j → r ≠ c.remote) →
      Stands (s.conns.modify k (fun c => { c with isOpen := false })) r j := by
    intro r j hj hr
    apply (h.entry r j hj).modify
    intro c' hc' hkj hr' _ _
    cases hc.symm.trans hc'
    exact absurd hr'.symm (hr hkj)
  unfold onClose forget
  split
  · refine ⟨?_, hsetup⟩
    intro r j hj
    change Function.update s.sessions c.remote none r = some j at hj
    by_cases hr : r = c.remote
    · rw [hr, Function.update_self] at hj
      cases hj
    · rw [Function.update_of_ne hr] at hj
      exact hothers r j hj (fun _ => hr)
  · rename_i hunwatched
    refine ⟨?_, hsetup⟩
    intro r j hj
    apply hothers r j hj
    intro hkj hr
    rw [hr, ← hkj] at hj
    exact (hwatched.resolve_left hunwatched) hj

/-- One guarded step. -/
theorem step_rooted (s : UdpServer) (e : Event) (t : UdpServer) (h : Rooted s)
    (hwatched : Watched s e) (hstep : step s e = some t) : Rooted t := by
  cases e with
  | message d =>
    cases hstep
    exact onConnect_rooted d h
  | bound k ok =>
    obtain ⟨c, hc, hcan, rfl⟩ := onSocket_some hstep
    have hbinding : c.setup = .binding := of_decide_eq_true hcan
    apply modifyConn_rooted hc rfl rfl _ _ h
    · intro hreq
      simp [Connection.requested, hbinding] at hreq
    · intro _
      simp [Connection.pending, hbinding]
  | connected k ok =>
    obtain ⟨c, hc, hcan, rfl⟩ := onSocket_some hstep
    have hconnecting : c.setup = .connecting := of_decide_eq_true hcan
    have hp : c.pending = true := by simp [Connection.pending, hconnecting]
    unfold onConnected
    split
    · exact onRequest_rooted hc hp h
    · apply modifyConn_rooted hc rfl rfl _ _ h
      · intro hreq
        simp [Connection.requested, hconnecting] at hreq
      · intro _
        exact hp
  | routed k ok =>
    obtain ⟨c, hc, -, rfl⟩ := onSocket_some hstep
    have hdone : Rooted (s.modifyConn k (fun c => { c with setup := .done })) :=
      modifyConn_rooted hc rfl rfl (fun _ => rfl) (fun hp => by cases hp) h
    unfold onRouted
    split
    · unfold watch
      split
      · rename_i j hj
        obtain ⟨c', hc', -⟩ := hdone.entry c.remote j hj
        exact modifyConn_rooted hc' rfl rfl id id hdone
      · exact hdone
    · exact hdone
  | ended k =>
    obtain ⟨c, hc, -, rfl⟩ := onSocket_some hstep
    exact modifyConn_rooted hc rfl rfl id id h
  | socketError k =>
    obtain ⟨c, -, -, rfl⟩ := onSocket_some hstep
    exact forget_rooted c h
  | socketClose k =>
    obtain ⟨c, hc, hcan, rfl⟩ := onSocket_some hstep
    have hp : c.pending = false := by simpa using (Bool.and_eq_true_iff.mp hcan).1
    apply onClose_rooted hc hp _ h
    change s.conns[k]?.all (fun c => c.watched || s.sessions c.remote ≠ some k) = true at hwatched
    simpa [hc] using hwatched

/-- On runs in which no socket of the table closes before the handlers are on it, the table has
open sockets only, and a remote whose sockets are closed gets a new session. -/
theorem lively_throughout (connect : Option ConnectSpec) (s : UdpServer)
    (h : Run step Watched (start connect) s) : Lively s :=
  (h.invariant step_rooted (start_rooted connect)).lively

/-- A session is accepted and ends, and the remote comes back. -/
def comeback : List Event :=
  [.message ⟨⟨"10.0.0.1", 1⟩, [1]⟩, .bound 0 true, .connected 0 true, .routed 0 true, .ended 0,
    .socketClose 0, .message ⟨⟨"10.0.0.1", 1⟩, [2]⟩, .bound 1 true, .connected 1 true]

theorem comeback_lively : ∃ s, exec step Watched (start none) comeback = some s ∧
    s.sessions ⟨"10.0.0.1", 1⟩ = some 1 ∧ Lively s :=
  ⟨_, rfl, rfl, lively_throughout none _ (exec_run comeback _ _ rfl)⟩

/-- A session is refused, so that its socket closes without the handlers. -/
def refused : List Event :=
  [.message ⟨⟨"10.0.0.1", 1⟩, [1]⟩, .bound 0 true, .connected 0 true, .ended 0, .routed 0 false,
    .socketClose 0]

/-- The closed socket stays in the table, and it swallows the next packet of its remote. -/
theorem refused_stays : ∃ s, exec step always (start none) refused = some s ∧
    s.sessions ⟨"10.0.0.1", 1⟩ = some 0 ∧ s.conns.map Connection.isOpen = [false] ∧
    (∀ d : Datagram, d.remote = ⟨"10.0.0.1", 1⟩ → (s.onConnect d).conns = s.conns ∧
      (s.onConnect d).handed = s.handed) ∧ ¬ Lively s := by
  refine ⟨_, rfl, rfl, rfl, ?_, ?_⟩
  · rintro ⟨r, p⟩ hd
    cases hd
    exact ⟨rfl, rfl⟩
  · intro h
    obtain ⟨c, hc, -, hopen⟩ := h.entry ⟨"10.0.0.1", 1⟩ 0 rfl
    cases hc
    cases hopen

end UdpServer
end L7mp
