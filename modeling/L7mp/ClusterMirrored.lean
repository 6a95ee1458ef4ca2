import L7mp.ClusterRegistry
import L7mp.StoreEndPoints

/-! When the three places agree in every state of a run. -/
namespace L7mp
open Aborting GuardedRun KeyedList

namespace Store

/-! ### How far the loop of `deleteCluster` comes -/

/-- The loop drops endpoints by their names, one after the other. -/
theorem Tied.forEach_drops {w : Store} (h : w.Tied) (A : Answers) (b : Bool) (ns : List String) :
    ∃ j, (Aborting.forEach (Store.deleteEndPoint A b) ns w).2.endpoints =
      removeAll EndPoint.name (ns.take j) w.endpoints := by
  induction ns generalizing w with
  | nil => exact ⟨0, rfl⟩
  | cons n ns ih =>
    obtain ⟨hkeep, hend, -⟩ := h.deleteEndPoint A b n
    rw [Aborting.forEach]
    rcases hd : w.deleteEndPoint A b n with ⟨_ | ⟨⟩, t⟩
    · rw [seq_of_throws hd]
      rw [hd] at hend
      exact ⟨1, hend⟩
    · rw [seq_of_returns hd]
      rw [hd] at hkeep hend
      obtain ⟨j, hj⟩ := ih hkeep
      refine ⟨j+1, ?_⟩
      rw [hj, List.take_succ_cons, removeAll_cons, hend]

theorem Tied.owns {w : Store} (h : w.Tied) : ∀ e ∈ w.endpoints, w.Owned e := by
  intro e he
  obtain ⟨c, hc, hce⟩ := h.owned e he
  unfold Owned
  rw [← hce]
  exact List.mem_map_of_mem hc

/-- The names that a cluster lists occur in the registry. -/
theorem Tied.subperm {w : Store} (h : w.Tied) {c : Cluster} (hc : c ∈ w.clusters) :
    (c.endpoints.map EndPoint.name).Subperm (w.endpoints.map EndPoint.name) := by
  rw [h.mirror c hc]
  exact (List.filter_sublist.map _).subperm

/-- A deletion that is not recursive finds what it looks for. -/
theorem Tied.forEach_flat {w : Store} (h : w.Tied) (A : Answers) {ns : List String}
    (hns : ns.Subperm (w.endpoints.map EndPoint.name)) :
    (Aborting.forEach (Store.deleteEndPoint A false) ns w).1 = .ok () := by
  induction ns generalizing w with
  | nil => rfl
  | cons n ns ih =>
    obtain ⟨hkeep, hend, -⟩ := h.deleteEndPoint A false n
    have hok : (w.deleteEndPoint A false n).1 = .ok () := by
      obtain ⟨⟨ep, hep, -⟩, -⟩ := consumes_of_subperm hns h.owns
      obtain ⟨c, hc, -⟩ := h.getCluster hep
      have hep : w.getEndPoint n = some ep := hep
      unfold Store.deleteEndPoint
      simp [hep, hc]
    rw [Aborting.forEach, seq_ok]
    refine ⟨hok, ih hkeep ?_⟩
    rw [hend, map_remove]
    simpa using hns.erase n

/-- The first step of `deleteCluster`. -/
def endTraversing (b : Bool) (n : String) : Op Store Err :=
  if b then onSessions (Session.endTraversing n) else skip

theorem deleteCluster_eq (A : Answers) (b : Bool) {w : Store} {n : String} {c : Cluster}
    (hc : w.getCluster n = some c) : w.deleteCluster A b n = seq (endTraversing b c.name)
      (seq (Aborting.forEach (Store.deleteEndPoint A b) (c.endpoints.map EndPoint.name))
        (update (fun w => { w with clusters := remove Cluster.name n w.clusters }))) w := by
  unfold Store.deleteCluster
  rw [hc]
  rfl

theorem config_endTraversing (b : Bool) (n : String) (w : Store) :
    (endTraversing b n w).2.toConfig = w.toConfig := by
  cases b <;> rfl

theorem endTraversing_throws {b : Bool} {w : Store} (n : String) :
    (endTraversing b n w).1 ≠ .ok () ↔ ClusterRegistry.Stopped w b := by
  have hone (s : Session) : (s.endTraversing n).1 = .ok () ↔ s.destination ≠ none := by
    unfold Session.endTraversing
    cases s.destination <;> simp
  unfold ClusterRegistry.Stopped endTraversing
  cases b with
  | false => simp [skip]
  | true =>
    change (inPlace (Session.endTraversing n) w.sessions).1 ≠ .ok () ↔ _
    rw [Ne, inPlace_ok]
    simp [hone]

/-- If no session stands in the way, the loop comes to its end. -/
theorem forEach_undisturbed {w : Store} (h : w.Tied) (hstaged : ∀ s ∈ w.sessions, s.Staged)
    (A : Answers) {b : Bool} {c : Cluster} (hc : w.getCluster c.name = some c)
    (hu : ClusterRegistry.Undisturbed w c b) {u : Store}
    (hend : endTraversing b c.name w = (.ok (), u)) :
    (Aborting.forEach (Store.deleteEndPoint A b) (c.endpoints.map EndPoint.name) u).1 = .ok () := by
  have hns := h.subperm (lookup_some hc).1
  cases b with
  | false =>
    cases hend
    exact h.forEach_flat A hns
  | true =>
    by_cases hnil : c.endpoints = []
    · rw [hnil]
      rfl
    · have hreturns : (w.deleteCluster A true c.name).1 = .ok () := by
        refine (deleteCluster_returns A hc).1.mpr ⟨consumes_of_subperm hns h.owns, fun s hs => ?_⟩
        exact ((Session.left_iff_closable (hstaged s hs) A c _).mpr (hu rfl hnil s hs)).1
      rw [deleteCluster_eq A true hc, seq_of_returns hend] at hreturns
      exact (seq_ok.mp hreturns).1

end Store

namespace ClusterRegistry

/-- The invariant. -/
structure Kept (s : ClusterRegistry) : Prop where
  tied : s.store.Tied
  staged : ∀ x ∈ s.store.sessions, x.Staged
  transports : ∀ c ∈ s.store.clusters, ∀ k < c.protocol.depth,
    ((s.transports c.name k).map TransportEndPoint.endpoint).Perm c.endpoints

theorem Kept.mirrored {s : ClusterRegistry} (h : s.Kept) : s.Mirrored :=
  ⟨h.tied.perm, h.tied.owned, h.transports⟩

theorem kept_start : start.Kept := by
  refine ⟨⟨List.nodup_nil, ?_, ?_⟩, ?_, ?_⟩
  · intro c hc
    cases hc
  · intro e he
    cases he
  · intro x hx
    cases hx
  · intro c hc
    cases hc

/-! ### Additions -/

theorem Kept.pushCluster {s : ClusterRegistry} (h : s.Kept) {cu : Cluster}
    (hfree : s.store.getCluster cu.name = none) (hempty : cu.endpoints = []) :
    (s.pushCluster cu).Kept where
  tied := h.tied.pushCluster hfree hempty
  staged := h.staged
  transports c hc k hk := by
    rcases List.mem_append.mp hc with hc | hc
    · have hne : c.name ≠ cu.name := lookup_eq_none.mp hfree c hc
      change List.Perm (List.map _ (if c.name = cu.name then [] else s.transports c.name k)) _
      rw [if_neg hne]
      exact h.transports c hc k hk
    · have heq : c = cu := List.mem_singleton.mp hc
      change List.Perm (List.map _ (if c.name = cu.name then [] else s.transports c.name k)) _
      rw [if_pos (congrArg _ heq), heq, hempty]
      exact List.Perm.refl _

/-- What does not touch clusters and endpoints. -/
theorem Kept.of_store {s : ClusterRegistry} (h : s.Kept) {w : Store}
    (hclusters : w.clusters = s.store.clusters) (hendpoints : w.endpoints = s.store.endpoints)
    (hstaged : ∀ x ∈ w.sessions, x.Staged) (l : List Cluster) :
    ({ s with store := w, starting := l } : ClusterRegistry).Kept where
  tied := h.tied.of_lists hclusters hendpoints
  staged := hstaged
  transports := by
    rw [hclusters]
    exact h.transports

/-- What `addEndPoint` of the store does. -/
theorem addEndPoint_cases (c : String) (ep : EndPointSpec) (w : Store) :
    (∃ e i, w.addEndPoint c ep = (.error e, w.setIndex .endpoint i) ∨
      w.addEndPoint c ep = (.error e, w)) ∨
    ∃ cl i, w.getCluster c = some cl ∧ w.addEndPoint c ep =
      (.ok (), (w.setIndex .endpoint i).pushEndPoint ⟨w.endPointName cl ep, cl.name⟩) := by
  unfold Store.addEndPoint
  split
  · exact .inl ⟨_, 0, .inr rfl⟩
  · split_ifs
    · exact .inl ⟨_, 0, .inr rfl⟩
    · split
      · exact .inl ⟨_, 0, .inr rfl⟩
      · rename_i cl hcl
        split
        · exact .inl ⟨_, _, .inl rfl⟩
        · exact .inr ⟨cl, _, hcl, rfl⟩

theorem Kept.addEndPoint {s : ClusterRegistry} (h : s.Kept) (c : String) (ep : EndPointSpec) :
    (s.addEndPoint c ep).2.Kept := by
  rcases addEndPoint_cases c ep s.store with ⟨e, i, he | he⟩ | ⟨cl, i, hcl, he⟩
  · unfold ClusterRegistry.addEndPoint
    rw [he]
    exact h.of_store (w := s.store.setIndex .endpoint i) rfl rfl h.staged s.starting
  · unfold ClusterRegistry.addEndPoint
    rw [he]
    exact h
  · unfold ClusterRegistry.addEndPoint
    rw [he, hcl]
    obtain ⟨hmem, hname⟩ := lookup_some hcl
    have hfind : (s.store.setIndex .endpoint i).getCluster cl.name = some cl :=
      h.tied.clusters.lookup hmem
    have htied : (s.store.setIndex .endpoint i).Tied :=
      ⟨h.tied.clusters, h.tied.mirror, h.tied.owned⟩
    refine ⟨htied.pushEndPoint hfind, h.staged, fun d hd k hk => ?_⟩
    obtain ⟨b, hb, rfl⟩ := Store.mem_modifyCluster h.tied.clusters hd
    by_cases hbn : b.name = cl.name
    · obtain rfl : b = cl := h.tied.clusters.eq hb hmem hbn
      rw [if_pos rfl] at hk ⊢
      change List.Perm (List.map _ (if b.name = b.name ∧ k < b.protocol.depth then
        s.transports b.name k ++ [s.transportEndPoint b ep k] else _)) _
      rw [if_pos ⟨rfl, hk⟩, List.map_append]
      exact (h.transports b hb k hk).append_right _
    · rw [if_neg hbn] at hk ⊢
      change List.Perm (List.map _ (if b.name = cl.name ∧ k < cl.protocol.depth then _ else
        s.transports b.name k)) _
      rw [if_neg (fun hand => hbn hand.1)]
      exact h.transports b hb k hk

theorem store_addEndPoint (c : String) (ep : EndPointSpec) (s : ClusterRegistry) :
    (s.addEndPoint c ep).1 = (s.store.addEndPoint c ep).1 ∧
      (s.addEndPoint c ep).2.store = (s.store.addEndPoint c ep).2 := by
  unfold ClusterRegistry.addEndPoint
  dsimp only
  split <;> exact ⟨rfl, rfl⟩

/-- Without the transports, the loop is the one of the store. -/
theorem store_addEndPoints (cu : String) (eps : List EndPointArg) (s : ClusterRegistry) :
    (addEndPoints cu eps s).1 = (Store.addEndPoints cu eps s.store).1 ∧
      (addEndPoints cu eps s).2.store = (Store.addEndPoints cu eps s.store).2 := by
  induction eps generalizing s with
  | nil => exact ⟨rfl, rfl⟩
  | cons ep eps ih =>
    cases ep with
    | null => exact ⟨rfl, rfl⟩
    | primitive =>
      unfold ClusterRegistry.addEndPoints Store.addEndPoints
      rcases s.store.inlineName .endpoint (cu ++ "-EndPoint-") none with ⟨_ | _, w⟩
      · exact ⟨rfl, rfl⟩
      · exact ⟨rfl, rfl⟩
    | inline ep =>
      unfold ClusterRegistry.addEndPoints Store.addEndPoints
      rcases s.store.inlineName .endpoint (cu ++ "-EndPoint-") ep.name with ⟨_ | n, w⟩
      · exact ⟨rfl, rfl⟩
      · obtain ⟨hr, hstore⟩ := store_addEndPoint cu { ep with name := some n } { s with store := w }
        dsimp only
        rw [← hr, ← hstore]
        exact ih _

theorem store_addInlineEndPoints (cu : Cluster) (eps : Given (List EndPointArg))
    (s : ClusterRegistry) : L7mp.addInlineEndPoints cu eps s.store =
      .done (addInlineEndPoints cu.name eps s).2.store (addInlineEndPoints cu.name eps s).1 := by
  cases eps with
  | absent => rfl
  | invalid => rfl
  | ok eps =>
    obtain ⟨hresult, hstore⟩ := store_addEndPoints cu.name eps s
    change Coroutine.Res.done (Store.addEndPoints cu.name eps s.store).2
      (Store.addEndPoints cu.name eps s.store).1 = _
    rw [← hresult, ← hstore]
    rfl

/-- Without the transports, a cluster is added as in the store: what comes before the wait for
`run` does the same, and so does what comes after it. -/
theorem store_addCluster (A : Answers) (c : ClusterSpec) (autogenerated : Bool)
    (s : ClusterRegistry) :
    (∃ e, L7mp.addCluster A c autogenerated s.store =
      .done (s.addCluster c autogenerated).store (.error e)) ∨
    ∃ cu k, L7mp.addCluster A c autogenerated s.store =
        .wait (s.addCluster c autogenerated).store [] k ∧
      cu ∈ (s.addCluster c autogenerated).starting ∧
      ∀ outcome (w : ClusterRegistry), ∃ r,
        k outcome w.store = .done (started cu outcome A w).store r := by
  unfold ClusterRegistry.addCluster
  cases hcu : s.store.admitCluster c autogenerated with
  | error e =>
    left
    refine ⟨e, ?_⟩
    change Coroutine.Res.bind _ (.done s.store (s.store.admitCluster c autogenerated)) = _
    rw [hcu]
    rfl
  | ok cu =>
    have hpieces : L7mp.addCluster A c autogenerated s.store =
        (L7mp.addInlineEndPoints cu c.endpoints (s.pushCluster cu).store).bind (fun _ =>
          tryCatch (startCluster cu) (fun err => do
            Add.sync (Store.deleteCluster A true cu.name)
            throw err)) := by
      change Coroutine.Res.bind _ (.done s.store (s.store.admitCluster c autogenerated)) = _
      rw [hcu]
      rfl
    dsimp only
    rw [hpieces, store_addInlineEndPoints]
    rcases addInlineEndPoints cu.name c.endpoints (s.pushCluster cu) with ⟨e | _, t⟩
    -- an endpoint that throws leaves the cluster there, and `run` is never called
    · exact Or.inl ⟨e, rfl⟩
    · right
      refine ⟨cu, _, rfl, List.mem_append_right _ (List.mem_singleton_self cu), ?_⟩
      intro outcome w
      cases outcome with
      | none => exact ⟨_, rfl⟩
      | some e =>
        obtain ⟨n, protocol, eps, marks⟩ := cu
        cases protocol with
        | l7mpController =>
          -- the cluster is taken back
          change ∃ r, (Coroutine.Res.done (w.store.deleteCluster A true n).2
            (w.store.deleteCluster A true n).1).bind (fun _ => throw e) = _
          rcases hdelete : w.store.deleteCluster A true n with ⟨_ | _, u⟩
          · refine ⟨_, congrArg (Coroutine.Res.done · _) ?_⟩
            exact (congrArg Prod.snd hdelete).symm
          · refine ⟨_, congrArg (Coroutine.Res.done · _) ?_⟩
            exact (congrArg Prod.snd hdelete).symm
        | _ => exact ⟨_, rfl⟩

theorem Kept.inlineName {s : ClusterRegistry} (h : s.Kept) (base : String)
    (name : Option String) {r : Except Err String} {w : Store}
    (hr : s.store.inlineName .endpoint base name = (r, w)) :
    ({ s with store := w } : ClusterRegistry).Kept := by
  have hsame := Store.same_inlineName .endpoint base name s.store
  rw [hr] at hsame
  exact h.of_store hsame.clusters hsame.endpoints (hsame.sessions ▸ h.staged) s.starting

theorem Kept.addEndPoints (cu : String) (eps : List EndPointArg) {s : ClusterRegistry}
    (h : s.Kept) : (addEndPoints cu eps s).2.Kept := by
  induction eps generalizing s with
  | nil => exact h
  | cons ep eps ih =>
    cases ep with
    | null => exact h
    | primitive =>
      unfold ClusterRegistry.addEndPoints
      rcases hr : s.store.inlineName .endpoint (cu ++ "-EndPoint-") none with ⟨_ | _, w⟩
      · exact h.inlineName _ _ hr
      · exact h.inlineName _ _ hr
    | inline ep =>
      unfold ClusterRegistry.addEndPoints
      rcases hr : s.store.inlineName .endpoint (cu ++ "-EndPoint-") ep.name with ⟨_ | n, w⟩
      · exact h.inlineName _ _ hr
      · let r := ClusterRegistry.addEndPoint cu { ep with name := some n } { s with store := w }
        have hadded : r.2.Kept := (h.inlineName _ _ hr).addEndPoint cu { ep with name := some n }
        have hsame := Store.same_unhandled r.1 r.2.store
        exact ih (hadded.of_store hsame.clusters hsame.endpoints (hsame.sessions ▸ hadded.staged)
          r.2.starting)

theorem Kept.addCluster {s : ClusterRegistry} (h : s.Kept) (c : ClusterSpec)
    (autogenerated : Bool) : (s.addCluster c autogenerated).Kept := by
  unfold ClusterRegistry.addCluster
  split
  · exact h
  · rename_i cu hcu
    obtain ⟨-, hfree, hempty⟩ := Store.admitCluster_ok hcu
    have hpushed := h.pushCluster hfree hempty
    have hfilled : (addInlineEndPoints cu.name c.endpoints (s.pushCluster cu)).2.Kept := by
      cases c.endpoints with
      | absent => exact hpushed
      | invalid => exact hpushed
      | ok eps => exact hpushed.addEndPoints cu.name eps
    split
    · rename_i hr
      rw [hr] at hfilled
      exact hfilled
    · rename_i hr
      rw [hr] at hfilled
      exact hfilled.of_store rfl rfl hfilled.staged _

/-! ### Deletions -/

/-- A transport is as it should be if the endpoints of its cluster stay. -/
theorem Kept.shrink {s : ClusterRegistry} (h : s.Kept) {w : Store} (htied : w.Tied)
    (hstaged : ∀ x ∈ w.sessions, x.Staged)
    (hsame : ∀ c' ∈ w.clusters, ∃ c ∈ s.store.clusters, c.kind = c'.kind ∧
      (0 < c.protocol.depth → w.endpoints.filter (fun e => e.cluster = c.name) =
        s.store.endpoints.filter (fun e => e.cluster = c.name))) :
    ({ s with store := w } : ClusterRegistry).Kept := by
  refine ⟨htied, hstaged, fun c' hc' k hk => ?_⟩
  obtain ⟨c, hc, hkind, hfilter⟩ := hsame c' hc'
  have hname : c.name = c'.name := congrArg Prod.fst hkind
  have hprotocol : c.protocol = c'.protocol := congrArg Prod.snd hkind
  rw [← hprotocol] at hk
  have hold := h.transports c hc k hk
  rw [h.tied.mirror c hc, ← hfilter (Nat.zero_lt_of_lt hk)] at hold
  rw [htied.mirror c' hc', ← hname]
  exact hold

theorem mem_kinds {l l' : List Cluster} (h : l'.map Cluster.kind = l.map Cluster.kind)
    {c' : Cluster} (hc' : c' ∈ l') : ∃ c ∈ l, c.kind = c'.kind := by
  have hmem : c'.kind ∈ l.map Cluster.kind := h ▸ List.mem_map_of_mem hc'
  obtain ⟨c, hc, hkind⟩ := List.mem_map.mp hmem
  exact ⟨c, hc, hkind⟩

theorem Kept.deleteEndPoint {s : ClusterRegistry} (h : s.Kept) (A : Answers) (b : Bool)
    {n : String} (hfree : Untransported s.store n) : (s.deleteEndPoint A b n).Kept := by
  obtain ⟨htied, hend, hkinds⟩ := h.tied.deleteEndPoint A b n
  refine h.shrink htied (Store.staged_deleteEndPoint A b n s.store h.staged) ?_
  intro c' hc'
  obtain ⟨c, hc, hkind⟩ := mem_kinds hkinds hc'
  refine ⟨c, hc, hkind, fun hdepth => ?_⟩
  rw [hend]
  cases hep : s.store.getEndPoint n with
  | none => rw [remove_of_lookup_none hep]
  | some ep =>
    rw [filter_remove hep, if_neg]
    intro heq
    have heq : ep.cluster = c.name := by simpa using heq
    have hzero := hfree ep hep c (heq ▸ h.tied.clusters.lookup hc)
    omega

/-- An endpoint that is deleted stays in the transports. -/
theorem Kept.untransported {s : ClusterRegistry} (h : s.Kept) (A : Answers) (b : Bool)
    {n : String} (hm : (s.deleteEndPoint A b n).Mirrored) : Untransported s.store n := by
  intro ep hep c hc
  by_contra hdepth
  obtain ⟨htied, hend, hkinds⟩ := h.tied.deleteEndPoint A b n
  obtain ⟨hmem, hname⟩ := lookup_some hc
  obtain ⟨c', hc', hkind⟩ := mem_kinds hkinds.symm hmem
  have hname' : c'.name = c.name := congrArg Prod.fst hkind
  have hprotocol : c'.protocol = c.protocol := congrArg Prod.snd hkind
  have hpos : 0 < c.protocol.depth := Nat.pos_of_ne_zero hdepth
  have hbefore := (h.transports c hmem 0 hpos).length_eq
  have hafter := (hm.transports c' hc' 0 (hprotocol ▸ hpos)).length_eq
  have hlost : c'.endpoints = remove EndPoint.name n c.endpoints := by
    rw [htied.mirror c' hc', hend, h.tied.mirror c hmem, filter_remove hep, hname',
      if_pos (by simpa using hname.symm)]
  have hin : ep ∈ c.endpoints := by
    rw [h.tied.mirror c hmem]
    exact List.mem_filter.mpr ⟨(lookup_some hep).1, by simpa using hname.symm⟩
  have hshort : c'.endpoints.length + 1 = c.endpoints.length := by
    rw [hlost]
    exact List.length_eraseP_add_one hin (by simpa using (lookup_some hep).2)
  rw [hname'] at hafter
  change (List.map _ (s.transports c.name 0)).length = _ at hafter
  omega

/-- What a deletion of a cluster comes to: it stops before the endpoints, it breaks off at one of
them over a session, or the cluster goes after its endpoints. -/
theorem Kept.deleteCluster_cases {s : ClusterRegistry} (h : s.Kept) (A : Answers) (b : Bool)
    {n : String} {c : Cluster} (hc : s.store.getCluster n = some c) :
    (Stopped s.store b ∧ (s.deleteCluster A b n).store.toConfig = s.store.toConfig) ∨
    (¬Stopped s.store b ∧ ¬Undisturbed s.store c b ∧ (s.deleteCluster A b n).store.Tied ∧
      (s.deleteCluster A b n).store.clusters.map Cluster.kind =
        s.store.clusters.map Cluster.kind ∧
      ∃ j, (s.deleteCluster A b n).store.endpoints =
        removeAll EndPoint.name ((c.endpoints.map EndPoint.name).take j) s.store.endpoints) ∨
    ¬Stopped s.store b ∧ ∃ t : Store, t.Tied ∧
      t.clusters.map Cluster.kind = s.store.clusters.map Cluster.kind ∧
      (s.deleteCluster A b n).store.clusters = remove Cluster.name n t.clusters ∧
      (s.deleteCluster A b n).store.endpoints = t.endpoints ∧
      t.endpoints = removeAll EndPoint.name (c.endpoints.map EndPoint.name) s.store.endpoints := by
  obtain rfl : c.name = n := (lookup_some hc).2
  have hconfig := Store.config_endTraversing b c.name s.store
  change (_ ∧ (s.store.deleteCluster A b c.name).2.toConfig = _) ∨
    (_ ∧ _ ∧ (s.store.deleteCluster A b c.name).2.Tied ∧
      (s.store.deleteCluster A b c.name).2.clusters.map Cluster.kind = _ ∧
        ∃ j, (s.store.deleteCluster A b c.name).2.endpoints = _) ∨
    (_ ∧ ∃ t : Store, _ ∧ _ ∧ (s.store.deleteCluster A b c.name).2.clusters = _ ∧
      (s.store.deleteCluster A b c.name).2.endpoints = _ ∧ _)
  have hstops := Store.endTraversing_throws (b := b) (w := s.store) c.name
  rcases hend : Store.endTraversing b c.name s.store with ⟨e | ⟨⟩, u⟩
  · left
    refine ⟨hstops.mp (by simp [hend]), ?_⟩
    rw [Store.deleteCluster_eq A b hc, seq_of_throws hend]
    rw [hend] at hconfig
    exact hconfig
  · right
    rw [hend] at hconfig
    have hgoes : ¬Stopped s.store b := fun hs => hstops.mpr hs (by rw [hend])
    have hclusters : u.clusters = s.store.clusters := congrArg Config.clusters hconfig
    have hendpoints : u.endpoints = s.store.endpoints := congrArg Config.endpoints hconfig
    have htied := h.tied.of_lists hclusters hendpoints
    obtain ⟨hkeep, hkinds⟩ := htied.forEach A b (c.endpoints.map EndPoint.name)
    rw [Store.deleteCluster_eq A b hc, seq_of_returns hend]
    rcases hloop : forEach (Store.deleteEndPoint A b) (c.endpoints.map EndPoint.name) u with
      ⟨e | ⟨⟩, t⟩
    · left
      have hdrops := htied.forEach_drops A b (c.endpoints.map EndPoint.name)
      rw [seq_of_throws hloop]
      rw [hloop] at hkeep hkinds hdrops
      refine ⟨hgoes, fun hu => ?_, hkeep, hclusters ▸ hkinds, hendpoints ▸ hdrops⟩
      have hok := Store.forEach_undisturbed h.tied h.staged A hc hu hend
      rw [hloop] at hok
      cases hok
    · right
      rw [seq_of_returns hloop]
      have hgone := htied.forEach_returns hloop
      rw [hloop] at hkeep hkinds
      exact ⟨hgoes, t, hkeep, hclusters ▸ hkinds, rfl, rfl, hendpoints ▸ hgone⟩

theorem Kept.deleteCluster {s : ClusterRegistry} (h : s.Kept) (A : Answers) (b : Bool)
    {n : String} (hwhole : ∀ c ∈ s.store.getCluster n, Stopped s.store b ∨ GoesWhole s.store c b) :
    (s.deleteCluster A b n).Kept := by
  have hstaged := Store.staged_deleteCluster A b n s.store h.staged
  cases hc : s.store.getCluster n with
  | none =>
    have hsame : s.deleteCluster A b n = s := by
      unfold ClusterRegistry.deleteCluster Store.deleteCluster
      rw [hc]
    rw [hsame]
    exact h
  | some c =>
    obtain ⟨hmem, hname⟩ := lookup_some hc
    rcases h.deleteCluster_cases A b hc with ⟨-, hconfig⟩ |
      ⟨hgoes, hnot, htied, hkinds, j, hj⟩ | ⟨hgoes, t, htied, hkinds, hclusters, hends, hgone⟩
    · have hclusters : (s.deleteCluster A b n).store.clusters = s.store.clusters :=
        congrArg Config.clusters hconfig
      have hendpoints : (s.deleteCluster A b n).store.endpoints = s.store.endpoints :=
        congrArg Config.endpoints hconfig
      exact h.of_store hclusters hendpoints hstaged s.starting
    · obtain ⟨hleads, hflat⟩ := (hwhole c hc).resolve_left hgoes
      have hflat : c.protocol.depth = 0 := hflat.resolve_right hnot
      refine h.shrink htied hstaged (fun c' hc' => ?_)
      obtain ⟨d, hd, hkind⟩ := mem_kinds hkinds hc'
      refine ⟨d, hd, hkind, fun hdepth => ?_⟩
      have hne : d.name ≠ c.name := by
        intro heq
        rw [h.tied.clusters.eq hd hmem heq] at hdepth
        omega
      change (s.deleteCluster A b n).store.endpoints.filter _ = _
      have hother := hleads.filter_removeAll_take j
      rw [← h.tied.mirror c hmem, ← hj] at hother
      refine filter_of_filter hother (fun e he => ?_)
      have he : e.cluster = d.name := by simpa using he
      simpa [he] using hne
    · obtain ⟨hleads, -⟩ := (hwhole c hc).resolve_left hgoes
      have hother := hleads.removeAll
      rw [← h.tied.mirror c hmem, ← hgone] at hother
      have hleft : ∀ e ∈ t.endpoints, e.cluster ≠ n := by
        intro e he
        rw [hother] at he
        simpa [hname] using (List.mem_filter.mp he).2
      refine h.shrink ((htied.dropCluster hleft).of_lists hclusters hends) hstaged (fun c' hc' => ?_)
      have hc' : c' ∈ (s.deleteCluster A b n).store.clusters := hc'
      rw [hclusters, htied.clusters.remove_eq_filter] at hc'
      obtain ⟨hct, hne⟩ := List.mem_filter.mp hc'
      obtain ⟨d, hd, hkind⟩ := mem_kinds hkinds hct
      refine ⟨d, hd, hkind, fun _ => ?_⟩
      have hdname : d.name ≠ c.name := by
        have hsame : d.name = c'.name := congrArg Prod.fst hkind
        rw [hsame, hname]
        simpa using hne
      change (s.deleteCluster A b n).store.endpoints.filter _ = _
      rw [hends, hother, List.filter_filter]
      apply List.filter_congr
      intro e _
      by_cases he : e.cluster = d.name
      · simp [he, hdname]
      · simp [he]

/-- An endpoint that is left behind has no cluster. -/
theorem Kept.goesWhole {s : ClusterRegistry} (h : s.Kept) (A : Answers) (b : Bool) {n : String}
    {c : Cluster} (hc : s.store.getCluster n = some c) (hu : Undisturbed s.store c b)
    (hm : (s.deleteCluster A b n).Mirrored) : Stopped s.store b ∨ GoesWhole s.store c b := by
  obtain ⟨hmem, hname⟩ := lookup_some hc
  rcases h.deleteCluster_cases A b hc with ⟨hstopped, -⟩ | ⟨-, hnot, -⟩ |
    ⟨-, t, htied, -, hclusters, hends, hgone⟩
  · exact .inl hstopped
  · exact absurd hu hnot
  · refine .inr ⟨leads_of_removeAll (fun e he => ?_), .inr hu⟩
    rw [← h.tied.mirror c hmem, ← hgone, ← hends] at he
    obtain ⟨d, hd, hde⟩ := hm.owned e he
    rw [hclusters, htied.clusters.remove_eq_filter] at hd
    have hne := (List.mem_filter.mp hd).2
    rw [← hde, hname]
    simpa using hne

/-! ### Steps and runs -/

theorem Kept.started {s : ClusterRegistry} (h : s.Kept) {k : ℕ} {cu : Cluster}
    (hk : s.starting[k]? = some cu) (outcome : Option Err) (A : Answers)
    (hm : Meets s (.started k outcome A)) :
    (started cu outcome A { s with starting := s.starting.eraseIdx k }).Kept := by
  have hrest := h.of_store rfl rfl h.staged (s.starting.eraseIdx k)
  unfold ClusterRegistry.started
  split
  · rename_i hprotocol
    refine hrest.deleteCluster A true (fun c hc => hm.2 (cu.name, true) ?_ c hc)
    simp [clusterOf, hk, hprotocol]
  · exact hrest

theorem Kept.step {s t : ClusterRegistry} (h : s.Kept) {e : Event} (hm : Meets s e)
    (ht : step s e = some t) : t.Kept := by
  cases e with
  | addCluster c autogenerated =>
    cases ht
    exact h.addCluster c autogenerated
  | started k outcome A =>
    obtain ⟨cu, hk, rfl⟩ := Option.map_eq_some_iff.mp ht
    exact h.started hk outcome A hm
  | deleteCluster n recursive A =>
    cases ht
    exact h.deleteCluster A recursive (hm.2 (n, recursive) rfl)
  | addEndPoint c ep =>
    cases ht
    exact h.addEndPoint c ep
  | deleteEndPoint n recursive A =>
    cases ht
    exact h.deleteEndPoint A recursive (hm.1 n rfl)
  | sessions l =>
    cases ht
    exact h.of_store (w := { s.store with sessions := l.val }) rfl rfl l.property s.starting

/-- A step that does not meet the condition leaves a trace at once. -/
theorem Kept.meets {s t : ClusterRegistry} (h : s.Kept) {e : Event}
    (ht : ClusterRegistry.step s e = some t) (hcalm : Calm s e) (hmirrored : t.Mirrored) :
    Meets s e := by
  cases e with
  | deleteEndPoint n recursive A =>
    cases ht
    refine ⟨fun m hm => ?_, nofun⟩
    cases hm
    exact h.untransported A recursive hmirrored
  | deleteCluster n recursive A =>
    cases ht
    refine ⟨nofun, fun d hd c hc => ?_⟩
    cases hd
    exact h.goesWhole A recursive hc (hcalm _ rfl c hc) hmirrored
  | started k outcome A =>
    obtain ⟨cu, hk, rfl⟩ := Option.map_eq_some_iff.mp ht
    refine ⟨nofun, fun d hd c hc => ?_⟩
    have hcalm := hcalm d hd c hc
    cases outcome with
    | none => cases hd
    | some e =>
      have hd : (if cu.protocol = .l7mpController then some (cu.name, true) else none) = some d := by
        simpa [clusterOf, hk] using hd
      split_ifs at hd with hprotocol
      cases hd
      have hrest := h.of_store rfl rfl h.staged (s.starting.eraseIdx k)
      refine hrest.goesWhole A true hc hcalm ?_
      unfold ClusterRegistry.started at hmirrored
      rw [hprotocol] at hmirrored
      exact hmirrored
  | addCluster | addEndPoint | sessions => exact ⟨nofun, nofun⟩

theorem kept_reachable {s : ClusterRegistry} (h : Run step Meets start s) : s.Kept :=
  h.invariant (fun _ _ _ hs hm ht => hs.step hm ht) kept_start

/-- In a run whose steps meet the condition the three places agree in every state, and a step
after which they agree meets it, unless a session breaks off a deletion. -/
theorem mirrored_iff_meets (s : ClusterRegistry) (h : Run step Meets start s) :
    s.Mirrored ∧ ∀ e t, step s e = some t → Calm s e → (t.Mirrored ↔ Meets s e) := by
  have hkept := kept_reachable h
  refine ⟨hkept.mirrored, fun e t ht hcalm => ⟨hkept.meets ht hcalm, fun hm => ?_⟩⟩
  exact (hkept.step hm ht).mirrored

/-- A JSONSocket cluster over TCP with an endpoint, and one more without a name. -/
def jsonSocketRun : List Event :=
  [.addCluster ⟨.plain, some "j", .ok (.jsonSocket .tcp), none,
      .ok [.inline ⟨.plain, some "e", .ok true⟩]⟩ false,
    .started 0 none World.noAnswers,
    .addEndPoint "j" ⟨.plain, none, .ok true⟩]

theorem mirrored_iff_meets_jsonSocket : ∃ s, exec step Meets start jsonSocketRun = some s ∧
    s.store.endpoints = [⟨"e", "j"⟩, ⟨"j-EndPoint-0", "j"⟩] ∧
    s.transports "j" 0 = [⟨"e", ⟨"e", "j"⟩⟩,
      ⟨"j-transport-cluster-EndPoint-1", ⟨"j-EndPoint-0", "j"⟩⟩] ∧ s.Mirrored ∧
    (s.deleteCluster World.noAnswers true "j").Mirrored ∧
    ¬(s.deleteEndPoint World.noAnswers false "e").Mirrored := by
  obtain ⟨s, hs⟩ : ∃ s, exec step Meets start jsonSocketRun = some s := ⟨_, rfl⟩
  obtain ⟨hmirrored, hiff⟩ := mirrored_iff_meets s (exec_run _ _ _ hs)
  have hwhole := hiff (.deleteCluster "j" true World.noAnswers) _ rfl
  have hone := hiff (.deleteEndPoint "e" false World.noAnswers) _ rfl nofun
  refine ⟨s, hs, ?_, ?_, hmirrored, (hwhole ?_).mpr ?_, fun hm => absurd (hone.mp hm) ?_⟩
  all_goals
    cases hs
    decide

/-- The transport keeps an endpoint that is deleted. -/
theorem transport_keeps_deleted : ¬∀ s, Run step always start s → s.Mirrored := by
  intro h
  obtain ⟨s, hs⟩ : ∃ s, exec step always start
    (jsonSocketRun ++ [.deleteEndPoint "e" false World.noAnswers]) = some s := ⟨_, rfl⟩
  have htransports := (h s (exec_run _ _ _ hs)).transports
    ⟨"j", .jsonSocket .tcp, [⟨"j-EndPoint-0", "j"⟩], false⟩
  cases hs
  have hlength := (htransports (by decide) 0 (by decide)).length_eq
  revert hlength
  decide

end ClusterRegistry
end L7mp
