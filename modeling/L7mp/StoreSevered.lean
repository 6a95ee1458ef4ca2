import L7mp.SessionSevered
import L7mp.StoreNames
import Mathlib.Data.List.Forall2

/-! What recursive deletion of an endpoint or of a cluster leaves of the sessions, and when it
comes to its end. -/
namespace L7mp
open Aborting Coroutine GuardedRun KeyedList Pool

/-- What a stage that is connected to the endpoint refers to. -/
def EndPoint.ref (ep : EndPoint) : EndPointRef := ⟨ep.name, some ep.cluster⟩

/-- In session `t` the stage is no longer connected and its stream is closed. -/
def Stage.Cut (st : Stage) (t : Session) : Prop :=
  (∀ st' ∈ t.getStages, st'.id = st.id → st'.Off) ∧ ∀ x, st.stream = some x → x ∈ t.closing

/-- Session `s` became `t` when the endpoint was deleted: every stage that was connected to it is
cut, and a session without such a stage is as it was. -/
def EndPoint.Left (ep : EndPoint) (s t : Session) : Prop :=
  (∀ st ∈ s.clusterStages, st.endpoint = some ep.ref → st.status = .ready → st.Cut t) ∧
    ((∀ st ∈ s.clusterStages, st.endpoint ≠ some ep.ref) → t = s)

namespace Session

/-- A stage belongs to cluster `n`. -/
def Uses (n : String) (s : Session) : Prop :=
  ∃ st ∈ s.clusterStages, st.origin = n ∨ ∃ ep ∈ st.endpoint, ep.cluster = some n

instance (n : String) (s : Session) : Decidable (s.Uses n) :=
  inferInstanceAs (Decidable (∃ st ∈ s.clusterStages, st.origin = n ∨
    ∃ ep ∈ st.endpoint, ep.cluster = some n))

/-- The session is destroyed and no stage is connected. -/
def Ended (t : Session) : Prop := t.status = .destroyed ∧ ∀ st ∈ t.getStages, st.Off

end Session

/-- Session `s` became `t` when the cluster was deleted: it ended if a stage belonged to the
cluster, and is as it was if none did. -/
def Cluster.Left (c : Cluster) (s t : Session) : Prop :=
  (s.Uses c.name → t.Ended) ∧ (¬s.Uses c.name → t = s)

namespace Session

/-- `deleteEndPoint` of an endpoint `ep` finds what it reads, and finds no stage on something
else of that name unless the session has a stage on the endpoint itself. -/
structure Severable (ep : EndPoint) (s : Session) : Prop where
  ready : s.Ready
  strangers : (∀ st ∈ s.clusterStages, st.endpoint ≠ some ep.ref) →
    ∀ st ∈ s.clusterStages, st.on ep.name = false

instance (ep : EndPoint) (s : Session) : Decidable (s.Severable ep) :=
  decidable_of_iff (s.Ready ∧ ((∀ st ∈ s.clusterStages, st.endpoint ≠ some ep.ref) →
    ∀ st ∈ s.clusterStages, st.on ep.name = false)) ⟨fun h => ⟨h.1, h.2⟩, fun h => ⟨h.1, h.2⟩⟩

/-- The same for `deleteCluster` of a cluster `n` with endpoints named `ns`. -/
structure Closable (n : String) (ns : List String) (s : Session) : Prop where
  routed : s.destination ≠ none
  ready : ns ≠ [] → s.Ready
  strangers : ¬s.Uses n → ∀ m ∈ ns, ∀ st ∈ s.clusterStages, st.on m = false

instance (n : String) (ns : List String) (s : Session) : Decidable (s.Closable n ns) :=
  decidable_of_iff (s.destination ≠ none ∧ (ns ≠ [] → s.Ready) ∧
      (¬s.Uses n → ∀ m ∈ ns, ∀ st ∈ s.clusterStages, st.on m = false))
    ⟨fun h => ⟨h.1, h.2.1, h.2.2⟩, fun h => ⟨h.1, h.2, h.3⟩⟩

theorem on_of_ref {st : Stage} {ep : EndPoint} (h : st.endpoint = some ep.ref) :
    st.on ep.name = true := by
  unfold Stage.on
  rw [h]
  simp [EndPoint.ref]

/-- The loop body of `deleteEndPoint` leaves a session as it should if and only if it can. -/
theorem left_iff_severable {s : Session} (hs : s.Staged) (A : Answers) (ep : EndPoint) :
    ((s.disconnectFrom A ep.name).1 = .ok () ∧ ep.Left s (s.disconnectFrom A ep.name).2) ↔
      s.Severable ep := by
  constructor
  · rintro ⟨hok, -, hsame⟩
    have hready := ready_of_disconnectFrom hs.ids hok
    refine ⟨hready, fun hnone st hst => ?_⟩
    by_contra hon
    have hmore := (events_disconnectFrom hs hok).2 ⟨st, hst, by simpa using hon⟩
    rw [hsame hnone] at hmore
    omega
  · rintro ⟨hready, hstrangers⟩
    obtain ⟨hok, g, hg⟩ := severed_disconnectFrom hs.ids hready A ep.name
    refine ⟨hok, ?_, ?_⟩
    · intro st hst href hr
      have hmem := mem_getStages hst
      have hhit : st.id ∈ hits ep.name s.clusterStages :=
        List.mem_map_of_mem (List.mem_filter.mpr ⟨hst, on_of_ref href⟩)
      obtain ⟨hoff, hclosed⟩ := (hg.fate st hmem hr).resolve_left (hg.cut st hmem hhit)
      refine ⟨?_, hclosed⟩
      intro st' hst' hid
      rw [hg.getStages] at hst'
      obtain ⟨st₀, hst₀, rfl⟩ := List.mem_map.mp hst'
      rw [hg.id] at hid
      rw [List.inj_on_of_nodup_map hs.ids hst₀ hmem hid]
      exact hoff
    · intro hnone
      rw [disconnectFrom_of_no_hit hready A (hstrangers hnone)]

/-! ### Sessions of a deleted cluster -/

theorem traverses_iff_uses {n : String} {s : Session} (hs : s.Served) {d : Stage}
    (hd : s.destination = some d) : s.traverses n d = true ↔ s.Uses n := by
  have horigin : s.traverses n d = true ↔ ∃ st ∈ s.clusterStages, st.origin = n := by
    unfold traverses clusterStages
    rw [hd]
    simp [or_and_right, exists_or, or_assoc]
  rw [horigin]
  constructor
  · rintro ⟨st, hst, ho⟩
    exact ⟨st, hst, .inl ho⟩
  · rintro ⟨st, hst, ho | ⟨ep, hep, hc⟩⟩
    · exact ⟨st, hst, ho⟩
    · have hserved := hs st (mem_getStages hst) ep hep
      refine ⟨st, hst, ?_⟩
      unfold Stage.offered at hserved
      rw [hc] at hserved
      have heq : n = st.origin := by simpa using hserved
      exact heq.symm

theorem status_end_ (s : Session) : s.end_.status = .destroyed := by
  have hann (u : Session) : u.announce.status = u.status := by
    unfold announce
    split_ifs <;> rfl
  exact hann _

theorem off_end_ (s : Session) : ∀ st ∈ s.end_.getStages, st.Off ∧ st.status ≠ .ready := by
  intro st hst
  rw [(severed_end_ s).getStages] at hst
  obtain ⟨st₀, -, rfl⟩ := List.mem_map.mp hst
  unfold Stage.destroyed
  split_ifs with hr
  · exact ⟨.inr (.inl hr), by rw [hr]; decide⟩
  · exact ⟨.inr (.inr rfl), nofun⟩

theorem ready_end_ {s : Session} : s.end_.Ready ↔ s.Ready := by
  have h := severed_end_ s
  have hdest : s.end_.destination = s.destination.map Stage.destroyed :=
    congrArg (fun l => l.2.2.2) h.layout
  constructor
  · rintro ⟨hrouted, hall⟩
    refine ⟨fun hnone => hrouted (by rw [hdest, hnone]; rfl), fun st hst hbare => ?_⟩
    refine hall st.destroyed ?_ (h.bare st hbare)
    rw [h.ingress, h.egress, ← List.map_append]
    exact List.mem_map_of_mem hst
  · rintro ⟨hrouted, hall⟩
    refine ⟨fun hnone => hrouted (by rw [hdest] at hnone; simpa using hnone), fun st hst => ?_⟩
    rw [h.ingress, h.egress, ← List.map_append] at hst
    obtain ⟨st₀, hst₀, rfl⟩ := List.mem_map.mp hst
    rw [h.endpoint st₀ (List.not_mem_nil)]
    exact hall st₀ hst₀

/-- All that `deleteCluster` does to a session. -/
def closeFrom (A : Answers) (n : String) (ns : List String) : Op Session Err :=
  seq (endTraversing n) (forEach (disconnectFrom A) ns)

/-- A session at the cluster ends first. -/
theorem closeFrom_of_uses {s : Session} (hs : s.Staged) (A : Answers) {n : String}
    (ns : List String) (hrouted : s.destination ≠ none) (hu : s.Uses n) :
    s.closeFrom A n ns = forEach (disconnectFrom A) ns s.end_ := by
  obtain ⟨d, hd⟩ := Option.ne_none_iff_exists'.mp hrouted
  have htraverses := (traverses_iff_uses (n := n) hs.served hd).mpr hu
  have hend : s.endTraversing n = (.ok (), s.end_) := by
    unfold endTraversing
    rw [hd]
    simp only [htraverses, if_true]
  exact seq_of_returns hend

theorem closeFrom_of_not_uses {s : Session} (hs : s.Staged) (A : Answers) {n : String}
    (ns : List String) (hrouted : s.destination ≠ none) (hu : ¬s.Uses n) :
    s.closeFrom A n ns = forEach (disconnectFrom A) ns s := by
  obtain ⟨d, hd⟩ := Option.ne_none_iff_exists'.mp hrouted
  have hnot : ¬s.traverses n d = true := fun h => hu ((traverses_iff_uses hs.served hd).mp h)
  have hskip : s.endTraversing n = (.ok (), s) := by
    unfold endTraversing
    rw [hd]
    dsimp only
    rw [if_neg hnot]
  exact seq_of_returns hskip

theorem events_forEach {A : Answers} (ns : List String) {s : Session} (hs : s.Staged)
    (h : (forEach (disconnectFrom A) ns s).1 = .ok ()) :
    s.events.length ≤ (forEach (disconnectFrom A) ns s).2.events.length := by
  induction ns generalizing s with
  | nil => exact Nat.le_refl _
  | cons n ns ih =>
    rw [forEach] at h ⊢
    obtain ⟨hhead, hrest⟩ := seq_ok.mp h
    rw [seq_state hhead]
    exact Nat.le_trans (events_disconnectFrom hs hhead).1 (ih (hs.disconnectFrom A n) hrest)

/-- If the calls leave no trace then no stage was concerned. -/
theorem no_hits_of_forEach {A : Answers} (ns : List String) {s : Session} (hs : s.Staged)
    (h : (forEach (disconnectFrom A) ns s).1 = .ok ())
    (hsame : (forEach (disconnectFrom A) ns s).2 = s) :
    ∀ n ∈ ns, ∀ st ∈ s.clusterStages, st.on n = false := by
  induction ns with
  | nil =>
    intro n hn
    cases hn
  | cons n ns ih =>
    rw [forEach] at h hsame
    obtain ⟨hhead, hrest⟩ := seq_ok.mp h
    rw [seq_state hhead] at hsame
    have hnone : ∀ st ∈ s.clusterStages, st.on n = false := by
      intro st hst
      by_contra hon
      have hmore := (events_disconnectFrom hs hhead).2 ⟨st, hst, by simpa using hon⟩
      have hrest' := events_forEach ns (hs.disconnectFrom A n) hrest
      rw [hsame] at hrest'
      omega
    have hhead' := disconnectFrom_of_no_hit (ready_of_disconnectFrom hs.ids hhead) A hnone
    rw [hhead'] at hrest hsame
    intro m hm
    rcases List.mem_cons.mp hm with rfl | hm
    · exact hnone
    · exact ih hrest hsame m hm

theorem ready_of_forEach {A : Answers} {ns : List String} {s : Session}
    (hids : (s.getStages.map Stage.id).Nodup)
    (h : (forEach (disconnectFrom A) ns s).1 = .ok ()) (hns : ns ≠ []) : s.Ready := by
  cases ns with
  | nil => exact absurd rfl hns
  | cons n ns =>
    rw [forEach] at h
    exact ready_of_disconnectFrom hids (seq_ok.mp h).1

/-- `deleteCluster` leaves a session as it should if and only if it can. -/
theorem left_iff_closable {s : Session} (hs : s.Staged) (A : Answers) (c : Cluster)
    (ns : List String) : ((s.closeFrom A c.name ns).1 = .ok () ∧
      c.Left s (s.closeFrom A c.name ns).2) ↔ s.Closable c.name ns := by
  by_cases hrouted : s.destination = none
  · have hthrow : s.endTraversing c.name = (.error .typeError, s) := by
      unfold endTraversing
      rw [hrouted]
    unfold closeFrom
    rw [seq_of_throws hthrow]
    constructor
    · rintro ⟨hok, -⟩
      cases hok
    · rintro ⟨hdest, -, -⟩
      exact absurd hrouted hdest
  · by_cases hu : s.Uses c.name
    · rw [closeFrom_of_uses hs A ns hrouted hu]
      have hids := hs.end_.ids
      constructor
      · rintro ⟨hok, -⟩
        refine ⟨hrouted, fun hns => ?_, fun hnot => absurd hu hnot⟩
        exact ready_end_.mp (ready_of_forEach hids hok hns)
      · rintro ⟨-, hready, -⟩
        have hoff := off_end_ s
        obtain ⟨hok, hlayout, hstatus⟩ := forEach_quiet hids (fun st hst => (hoff st hst).2) A
          (fun hns => ready_end_.mpr (hready hns))
        refine ⟨hok, fun _ => ⟨hstatus.trans (status_end_ s), ?_⟩, fun hnot => absurd hu hnot⟩
        rw [mem_layout hlayout]
        exact fun st hst => (hoff st hst).1
    · rw [closeFrom_of_not_uses hs A ns hrouted hu]
      constructor
      · rintro ⟨hok, -, hsame⟩
        exact ⟨hrouted, ready_of_forEach hs.ids hok,
          fun _ => no_hits_of_forEach ns hs hok (hsame hu)⟩
      · rintro ⟨-, hready, hstrangers⟩
        rw [forEach_no_hits A hready (hstrangers hu)]
        exact ⟨rfl, fun h => absurd h hu, fun _ => rfl⟩

end Session

namespace Store

/-- No promise of a deletion is broken: it returns, the endpoint is gone, and the sessions are
left as they should. -/
structure EndPointGone (w : Store) (ep : EndPoint) (r : Except Err Unit) (w' : Store) : Prop where
  returns : r = .ok ()
  gone : w'.getEndPoint ep.name = none
  sessions : List.Forall₂ ep.Left w.sessions w'.sessions

structure ClusterGone (w : Store) (c : Cluster) (r : Except Err Unit) (w' : Store) : Prop where
  returns : r = .ok ()
  gone : w'.getCluster c.name = none
  endpoints : ∀ e ∈ c.endpoints, w'.getEndPoint e.name = none
  sessions : List.Forall₂ c.Left w.sessions w'.sessions

/-- The endpoint is the only one of its name, its cluster is there, and every session can do
without it. -/
structure EndPointFree (w : Store) (ep : EndPoint) : Prop where
  single : (w.endpoints.map EndPoint.name).count ep.name = 1
  owned : ep.cluster ∈ w.clusters.map Cluster.name
  sessions : ∀ s ∈ w.sessions, s.Severable ep

/-- The names that the cluster lists are registered as often as it lists them, for endpoints of
registered clusters, and every session can do without the cluster. -/
structure ClusterFree (w : Store) (c : Cluster) : Prop where
  single : ∀ n ∈ c.endpoints.map EndPoint.name,
    (w.endpoints.map EndPoint.name).count n = (c.endpoints.map EndPoint.name).count n
  owned : ∀ e ∈ w.endpoints, e.name ∈ c.endpoints.map EndPoint.name →
    e.cluster ∈ w.clusters.map Cluster.name
  sessions : ∀ s ∈ w.sessions, s.Closable c.name (c.endpoints.map EndPoint.name)

theorem onSessions_state {f : Op Session Err} {w : Store}
    (h : ∀ s ∈ w.sessions, (f s).1 = .ok ()) :
    (onSessions f w).2 = { w with sessions := w.sessions.map (fun s => (f s).2) } := by
  unfold onSessions
  rw [inPlace_map h]

/-- The clusters that are registered, as far as a deletion of endpoints looks at them. -/
def Owned (w : Store) (e : EndPoint) : Prop := e.cluster ∈ w.clusters.map Cluster.name

theorem getCluster_ne_none {w : Store} {n : String} :
    w.getCluster n ≠ none ↔ n ∈ w.clusters.map Cluster.name := by
  rw [Ne, getCluster, lookup_eq_none_iff, not_not]

/-- When a recursive `deleteEndPoint` returns, and what it leaves then. -/
theorem deleteEndPoint_returns (A : Answers) (n : String) (w : Store) :
    ((w.deleteEndPoint A true n).1 = .ok () ↔
      (∃ ep, lookup EndPoint.name n w.endpoints = some ep ∧ w.Owned ep) ∧
        ∀ s ∈ w.sessions, (s.disconnectFrom A n).1 = .ok ()) ∧
    ((w.deleteEndPoint A true n).1 = .ok () →
      (w.deleteEndPoint A true n).2.sessions = w.sessions.map (fun s => (s.disconnectFrom A n).2) ∧
      (w.deleteEndPoint A true n).2.endpoints = remove EndPoint.name n w.endpoints ∧
      (w.deleteEndPoint A true n).2.clusters.map Cluster.name = w.clusters.map Cluster.name) := by
  unfold Store.deleteEndPoint
  change (_ ↔ (∃ ep, w.getEndPoint n = some ep ∧ _) ∧ _) ∧ _
  cases hep : w.getEndPoint n with
  | none => simp
  | some ep =>
    cases hcl : w.getCluster ep.cluster with
    | none =>
      have hnot : ¬w.Owned ep := fun h => getCluster_ne_none.mpr h hcl
      simp [hcl, hnot]
    | some c =>
      have howned : w.Owned ep := getCluster_ne_none.mp (by simp [hcl])
      simp only [hcl, if_true]
      have hok : (onSessions (Session.disconnectFrom A n) (w.dropEndPoint n ep)).1 = .ok () ↔
          ∀ s ∈ w.sessions, (s.disconnectFrom A n).1 = .ok () := inPlace_ok
      refine ⟨hok.trans ⟨fun h => ⟨⟨ep, rfl, howned⟩, h⟩, fun h => h.2⟩, fun h => ?_⟩
      rw [onSessions_state (w := w.dropEndPoint n ep) (hok.mp h)]
      exact ⟨rfl, rfl, clusters_dropEndPoint n ep w⟩

/-- The loop of `deleteCluster` over the endpoints. -/
theorem forEach_deleteEndPoint (A : Answers) (ns : List String) (w : Store) :
    ((forEach (Store.deleteEndPoint A true) ns w).1 = .ok () ↔
      Consumes EndPoint.name w.Owned ns w.endpoints ∧
        ∀ s ∈ w.sessions, (forEach (Session.disconnectFrom A) ns s).1 = .ok ()) ∧
    ((forEach (Store.deleteEndPoint A true) ns w).1 = .ok () →
      (forEach (Store.deleteEndPoint A true) ns w).2.sessions =
        w.sessions.map (fun s => (forEach (Session.disconnectFrom A) ns s).2) ∧
      (forEach (Store.deleteEndPoint A true) ns w).2.endpoints =
        removeAll EndPoint.name ns w.endpoints ∧
      (forEach (Store.deleteEndPoint A true) ns w).2.clusters.map Cluster.name =
        w.clusters.map Cluster.name) := by
  induction ns generalizing w with
  | nil =>
    refine ⟨⟨fun _ => ⟨trivial, fun _ _ => rfl⟩, fun _ => rfl⟩, fun _ => ⟨?_, rfl, rfl⟩⟩
    exact (List.map_id w.sessions).symm
  | cons n ns ih =>
    obtain ⟨hok, hstate⟩ := deleteEndPoint_returns A n w
    obtain ⟨hok', hstate'⟩ := ih (w.deleteEndPoint A true n).2
    rw [forEach, seq_ok]
    constructor
    · constructor
      · rintro ⟨hhead, hrest⟩
        obtain ⟨hsessions, hendpoints, hclusters⟩ := hstate hhead
        obtain ⟨hlist, hall⟩ := hok'.mp hrest
        obtain ⟨hfind, hfirst⟩ := hok.mp hhead
        unfold Owned at hlist
        rw [hclusters, hendpoints] at hlist
        refine ⟨⟨hfind, hlist⟩, fun s hs => seq_ok.mpr ⟨hfirst s hs, hall _ ?_⟩⟩
        rw [hsessions]
        exact List.mem_map_of_mem hs
      · rintro ⟨⟨hfind, hlist⟩, hall⟩
        have hhead := hok.mpr ⟨hfind, fun s hs => (seq_ok.mp (hall s hs)).1⟩
        obtain ⟨hsessions, hendpoints, hclusters⟩ := hstate hhead
        refine ⟨hhead, hok'.mpr ⟨?_, fun t ht => ?_⟩⟩
        · unfold Owned
          rw [hclusters, hendpoints]
          exact hlist
        · rw [hsessions] at ht
          obtain ⟨s, hs, rfl⟩ := List.mem_map.mp ht
          exact (seq_ok.mp (hall s hs)).2
    · rintro ⟨hhead, hrest⟩
      obtain ⟨hsessions, hendpoints, hclusters⟩ := hstate hhead
      obtain ⟨hsessions', hendpoints', hclusters'⟩ := hstate' hrest
      rw [seq_state hhead]
      refine ⟨?_, ?_, hclusters'.trans hclusters⟩
      · rw [hsessions', hsessions, List.map_map]
        apply List.map_congr_left
        intro s hs
        rw [forEach, Function.comp_apply, seq_state ((hok.mp hhead).2 s hs)]
      · rw [hendpoints', hendpoints]
        rfl

theorem endPointGone_iff {w : Store} (hs : ∀ s ∈ w.sessions, s.Staged) (A : Answers)
    {ep : EndPoint} (hep : w.getEndPoint ep.name = some ep) :
    w.EndPointGone ep (w.deleteEndPoint A true ep.name).1 (w.deleteEndPoint A true ep.name).2 ↔
      w.EndPointFree ep := by
  obtain ⟨hok, hstate⟩ := deleteEndPoint_returns A ep.name w
  have hcount : lookup EndPoint.name ep.name (remove EndPoint.name ep.name w.endpoints) = none ↔
      (w.endpoints.map EndPoint.name).count ep.name = 1 := by
    have hpos : 0 < (w.endpoints.map EndPoint.name).count ep.name :=
      List.count_pos_iff.mpr (List.mem_map_of_mem (lookup_some hep).1)
    rw [lookup_eq_none_iff, map_remove, ← List.count_eq_zero, List.count_erase_self]
    omega
  constructor
  · rintro ⟨hreturns, hgone, hsessions⟩
    obtain ⟨hmap, hrest, -⟩ := hstate hreturns
    obtain ⟨⟨ep', hep', howned⟩, hall⟩ := hok.mp hreturns
    obtain rfl : ep = ep' := Option.some.inj (hep.symm.trans hep')
    unfold getEndPoint at hgone
    rw [hrest] at hgone
    rw [hmap, List.forall₂_map_right_iff, List.forall₂_same] at hsessions
    exact ⟨hcount.mp hgone, howned, fun s hmem =>
      (Session.left_iff_severable (hs s hmem) A ep).mp ⟨hall s hmem, hsessions s hmem⟩⟩
  · rintro ⟨hsingle, howned, hsessions⟩
    have hleft := fun s hmem => (Session.left_iff_severable (hs s hmem) A ep).mpr (hsessions s hmem)
    have hreturns := hok.mpr ⟨⟨ep, hep, howned⟩, fun s hmem => (hleft s hmem).1⟩
    obtain ⟨hmap, hrest, -⟩ := hstate hreturns
    refine ⟨hreturns, ?_, ?_⟩
    · unfold getEndPoint
      rw [hrest]
      exact hcount.mpr hsingle
    · rw [hmap, List.forall₂_map_right_iff, List.forall₂_same]
      exact fun s hmem => (hleft s hmem).2

/-- What `deleteCluster` does with a cluster that is there. -/
theorem deleteCluster_run (A : Answers) {w : Store} {c : Cluster}
    (hc : w.getCluster c.name = some c) : w.deleteCluster A true c.name =
      seq (onSessions (Session.endTraversing c.name))
        (seq (forEach (Store.deleteEndPoint A true) (c.endpoints.map EndPoint.name))
          (update (fun w => { w with clusters := remove Cluster.name c.name w.clusters }))) w := by
  unfold Store.deleteCluster
  rw [hc]
  rfl

/-- The same for `deleteCluster`. -/
theorem deleteCluster_returns (A : Answers) {w : Store} {c : Cluster}
    (hc : w.getCluster c.name = some c) :
    ((w.deleteCluster A true c.name).1 = .ok () ↔
      Consumes EndPoint.name w.Owned (c.endpoints.map EndPoint.name) w.endpoints ∧
        ∀ s ∈ w.sessions, (s.closeFrom A c.name (c.endpoints.map EndPoint.name)).1 = .ok ()) ∧
    ((w.deleteCluster A true c.name).1 = .ok () →
      (w.deleteCluster A true c.name).2.sessions =
        w.sessions.map (fun s => (s.closeFrom A c.name (c.endpoints.map EndPoint.name)).2) ∧
      (w.deleteCluster A true c.name).2.endpoints =
        removeAll EndPoint.name (c.endpoints.map EndPoint.name) w.endpoints ∧
      (w.deleteCluster A true c.name).2.clusters.map Cluster.name =
        (w.clusters.map Cluster.name).erase c.name) := by
  have hrun := deleteCluster_run A hc
  have hend : (onSessions (Session.endTraversing c.name) w).1 = .ok () ↔
      ∀ s ∈ w.sessions, (s.endTraversing c.name).1 = .ok () := inPlace_ok
  have hafter (h : ∀ s ∈ w.sessions, (s.endTraversing c.name).1 = .ok ()) :
      (onSessions (Session.endTraversing c.name) w).2 =
        { w with sessions := w.sessions.map (fun s => (s.endTraversing c.name).2) } :=
    onSessions_state h
  obtain ⟨hok, hstate⟩ := forEach_deleteEndPoint A (c.endpoints.map EndPoint.name)
    (onSessions (Session.endTraversing c.name) w).2
  have hreturns : (w.deleteCluster A true c.name).1 = .ok () ↔
      (onSessions (Session.endTraversing c.name) w).1 = .ok () ∧
        (forEach (Store.deleteEndPoint A true) (c.endpoints.map EndPoint.name)
          (onSessions (Session.endTraversing c.name) w).2).1 = .ok () := by
    rw [hrun, seq_ok, seq_ok]
    exact and_congr_right (fun _ => and_iff_left rfl)
  constructor
  · rw [hreturns, hend]
    constructor
    · rintro ⟨hfirst, hrest⟩
      obtain ⟨hlist, hall⟩ := hok.mp hrest
      rw [hafter hfirst] at hall
      refine ⟨hlist, fun s hs => seq_ok.mpr ⟨hfirst s hs, hall _ (List.mem_map_of_mem hs)⟩⟩
    · rintro ⟨hlist, hall⟩
      have hfirst := fun s hs => (seq_ok.mp (hall s hs)).1
      refine ⟨hfirst, hok.mpr ⟨hlist, fun t ht => ?_⟩⟩
      rw [hafter hfirst] at ht
      obtain ⟨s, hs, rfl⟩ := List.mem_map.mp ht
      exact (seq_ok.mp (hall s hs)).2
  · intro h
    obtain ⟨hfirst, hrest⟩ := hreturns.mp h
    obtain ⟨hsessions, hendpoints, hclusters⟩ := hstate hrest
    have hfinal : (w.deleteCluster A true c.name).2 = (update (fun w => ({ w with
        clusters := remove Cluster.name c.name w.clusters } : Store)) (forEach
          (Store.deleteEndPoint A true) (c.endpoints.map EndPoint.name)
            (onSessions (Session.endTraversing c.name) w).2).2 : Except Err Unit × Store).2 := by
      rw [hrun, seq_state hfirst, seq_state hrest]
    rw [hfinal]
    refine ⟨?_, hendpoints, ?_⟩
    · refine hsessions.trans ?_
      rw [hafter (hend.mp hfirst), List.map_map]
      apply List.map_congr_left
      intro s hs
      unfold Session.closeFrom
      rw [Function.comp_apply, seq_state (hend.mp hfirst s hs)]
    · refine (map_remove c.name _).trans ?_
      rw [hclusters]
      rfl

theorem clusterGone_iff {w : Store} (hs : ∀ s ∈ w.sessions, s.Staged)
    (hdistinct : Distinct Cluster.name w.clusters) (A : Answers) {c : Cluster}
    (hc : w.getCluster c.name = some c) :
    w.ClusterGone c (w.deleteCluster A true c.name).1 (w.deleteCluster A true c.name).2 ↔
      w.ClusterFree c := by
  obtain ⟨hok, hstate⟩ := deleteCluster_returns A hc
  have hcounts := consumes_iff EndPoint.name w.Owned (c.endpoints.map EndPoint.name)
    w.endpoints (fun _ => id)
  constructor
  · rintro ⟨hreturns, -, hgone, hsessions⟩
    obtain ⟨hmap, hrest, -⟩ := hstate hreturns
    obtain ⟨hlist, hall⟩ := hok.mp hreturns
    have hnone : ∀ n ∈ c.endpoints.map EndPoint.name, lookup EndPoint.name n
        (removeAll EndPoint.name (c.endpoints.map EndPoint.name) w.endpoints) = none := by
      intro n hn
      obtain ⟨e, he, rfl⟩ := List.mem_map.mp hn
      rw [← hrest]
      exact hgone e he
    obtain ⟨hsingle, howned⟩ := hcounts.mp ⟨hlist, hnone⟩
    rw [hmap, List.forall₂_map_right_iff, List.forall₂_same] at hsessions
    exact ⟨hsingle, howned, fun s hmem =>
      (Session.left_iff_closable (hs s hmem) A c _).mp ⟨hall s hmem, hsessions s hmem⟩⟩
  · rintro ⟨hsingle, howned, hsessions⟩
    have hleft := fun s hmem => (Session.left_iff_closable (hs s hmem) A c _).mpr (hsessions s hmem)
    obtain ⟨hlist, hnone⟩ := hcounts.mpr ⟨hsingle, howned⟩
    have hreturns := hok.mpr ⟨hlist, fun s hmem => (hleft s hmem).1⟩
    obtain ⟨hmap, hrest, hclusters⟩ := hstate hreturns
    refine ⟨hreturns, ?_, fun e he => ?_, ?_⟩
    · unfold getCluster
      rw [lookup_eq_none_iff, hclusters]
      exact List.Nodup.not_mem_erase hdistinct
    · unfold getEndPoint
      rw [hrest]
      exact hnone _ (List.mem_map_of_mem he)
    · rw [hmap, List.forall₂_map_right_iff, List.forall₂_same]
      exact fun s hmem => (hleft s hmem).2

theorem staged_onSessions {f : Op Session Err} (hf : ∀ s, s.Staged → (f s).2.Staged) {w : Store}
    (h : ∀ s ∈ w.sessions, s.Staged) : ∀ s ∈ (onSessions f w).2.sessions, s.Staged :=
  inPlace_keeps hf h

theorem staged_deleteEndPoint (A : Answers) (b : Bool) (n : String) (w : Store)
    (h : ∀ s ∈ w.sessions, s.Staged) : ∀ s ∈ (w.deleteEndPoint A b n).2.sessions, s.Staged := by
  unfold Store.deleteEndPoint
  split
  · exact h
  · split
    · exact h
    · split
      · exact staged_onSessions (fun _ hs => hs.disconnectFrom A n) h
      · exact h

theorem staged_deleteCluster (A : Answers) (b : Bool) (n : String) (w : Store)
    (h : ∀ s ∈ w.sessions, s.Staged) : ∀ s ∈ (w.deleteCluster A b n).2.sessions, s.Staged := by
  unfold Store.deleteCluster
  split
  · exact h
  · rename_i c _
    refine seq_keeps (I := fun w : Store => ∀ s ∈ w.sessions, s.Staged) ?_ (fun w hw => ?_) h
    · intro w hw
      split
      · exact staged_onSessions (fun _ hs => hs.endTraversing c.name) hw
      · exact hw
    · refine seq_keeps (I := fun w : Store => ∀ s ∈ w.sessions, s.Staged) ?_ (fun _ hw => hw) hw
      intro w hw
      exact forEach_keeps (I := fun w : Store => ∀ s ∈ w.sessions, s.Staged)
        (staged_deleteEndPoint A b) _ hw

/-- However the requests interleave, the stages of a session stay apart and at their clusters. -/
theorem stable_staged : Stable (fun _ _ => True) (fun _ _ => True)
    (fun w => ∀ s ∈ w.sessions, s.Staged) where
  same _ _ hs h := hs.sessions ▸ h
  heldSame _ _ _ _ _ := trivial
  freeSame _ _ _ _ _ := trivial
  freeListener _ _ _ := trivial
  freeRoute _ _ _ := trivial
  freeEndPoint _ _ _ := trivial
  pushListener _ _ h _ := h
  pushCluster _ _ h _ _ := h
  pushRuleList _ _ h _ := h
  pushRule _ _ h _ := h
  pushRoute _ _ h _ := h
  pushEndPoint _ _ _ h _ _ := h
  removeListener _ _ h := h
  deleteCluster A b n w h := staged_deleteCluster A b n w h
  dropRuleList _ _ h := h
  removeRule _ _ h := h
  removeRoute _ _ h := h
  deleteEndPoint A b n w h := staged_deleteEndPoint A b n w h
  sessions _ _ h hs := hs h

end Store

namespace World

/-- The condition of an invariant that no request needs. -/
theorem staged_reachable {w : World} (h : Run step always start w) :
    ∀ s ∈ w.state.sessions, s.Staged := by
  refine Pool.invariant (I := fun w : Store => ∀ s ∈ w.sessions, s.Staged) ?_ ?_ (meets_always h)
  · intro c
    exact Store.stable_staged.program c _ (fun _ _ _ _ _ _ _ _ => trivial)
  · intro s hs
    cases hs

/-- A recursive deletion of an endpoint or of a cluster keeps its promises if and only if every
session can do without it and no other endpoint has the name of one that goes. -/
theorem gone_iff_free (w : World) (h : Run step always start w) (A : Answers) (n : String) :
    (∀ ep, w.state.getEndPoint n = some ep →
      (w.state.EndPointGone ep (w.state.deleteEndPoint A true n).1
        (w.state.deleteEndPoint A true n).2 ↔ w.state.EndPointFree ep)) ∧
    ∀ c, w.state.getCluster n = some c →
      (w.state.ClusterGone c (w.state.deleteCluster A true n).1
        (w.state.deleteCluster A true n).2 ↔ w.state.ClusterFree c) := by
  have hstaged := staged_reachable h
  constructor
  · intro ep hep
    obtain rfl : ep.name = n := (lookup_some hep).2
    exact Store.endPointGone_iff hstaged A hep
  · intro c hc
    obtain rfl : c.name = n := (lookup_some hc).2
    exact Store.clusterGone_iff hstaged (fewNames_reachable h).clusters A hc

/-- A cluster with one endpoint. -/
def oneEndPoint (n e : String) : List (Event Call (Option Err)) :=
  [.call ⟨noAnswers, .addCluster ⟨.plain, some n, .ok .test, none,
    .ok [.inline ⟨.plain, some e, .ok true⟩]⟩⟩, .resume 0 none]

/-- A session that is connected to the endpoint. -/
def connectedTo (n e : String) : List (Event Call (Option Err)) :=
  let route : Route := ⟨"r", n, [], [], retryDefaultPolicy, false⟩
  [.call ⟨noAnswers, .addSession "s" 0 "l" false (.piped 0 false route Session.lookupAll)⟩,
    .call ⟨noAnswers, .session 0 (.streamOk 0 ⟨e, some n⟩)⟩,
    .call ⟨noAnswers, .session 0 .pipelineOk⟩]

theorem gone_iff_free_connected : ∃ w, exec step always start
      (oneEndPoint "c" "e" ++ connectedTo "c" "e") = some w ∧
    w.state.sessions.map Session.status = [.connected] ∧
    w.state.EndPointGone ⟨"e", "c"⟩ (w.state.deleteEndPoint noAnswers true "e").1
      (w.state.deleteEndPoint noAnswers true "e").2 ∧
    ∃ c, w.state.getCluster "c" = some c ∧
      w.state.ClusterGone c (w.state.deleteCluster noAnswers true "c").1
        (w.state.deleteCluster noAnswers true "c").2 := by
  obtain ⟨w, hw⟩ : ∃ w, exec step always start
    (oneEndPoint "c" "e" ++ connectedTo "c" "e") = some w := ⟨_, rfl⟩
  have hrun := exec_run _ _ _ hw
  obtain ⟨hep, hcl⟩ : w.state.getEndPoint "e" = some ⟨"e", "c"⟩ ∧
      w.state.getCluster "c" = some ⟨"c", .test, [⟨"e", "c"⟩], false⟩ := by
    cases hw
    decide
  refine ⟨w, hw, ?_, ((gone_iff_free w hrun noAnswers "e").1 _ hep).mpr ⟨?_, ?_, ?_⟩,
    _, hcl, ((gone_iff_free w hrun noAnswers "c").2 _ hcl).mpr ⟨?_, ?_, ?_⟩⟩
  all_goals
    cases hw
    decide

/-- A session that found no route is tracked for a while; it has no destination. -/
theorem unrouted_session_stops_delete : ¬∀ w, Run step always start w → ∀ A n,
    (∀ ep, w.state.getEndPoint n = some ep → w.state.EndPointGone ep
      (w.state.deleteEndPoint A true n).1 (w.state.deleteEndPoint A true n).2) ∧
    ∀ c, w.state.getCluster n = some c → w.state.ClusterGone c
      (w.state.deleteCluster A true n).1 (w.state.deleteCluster A true n).2 := by
  intro h
  obtain ⟨w, hw⟩ : ∃ w, exec step always start (oneEndPoint "c" "e" ++
    [.call ⟨noAnswers, .addSession "s" 0 "l" false (.failed 5 false false)⟩]) = some w := ⟨_, rfl⟩
  have hep : w.state.getEndPoint "e" = some ⟨"e", "c"⟩ := by
    cases hw
    decide
  have hreturns := ((h w (exec_run _ _ _ hw) noAnswers "e").1 _ hep).returns
  cases hw
  cases hreturns

end World
end L7mp
