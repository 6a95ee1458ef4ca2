import L7mp.KeyedGroups
import L7mp.StoreStable

/-! A cluster lists the registered endpoints that belong to it, in the order of the registry. This
holds also where two endpoints have the same name, until a cluster leaves endpoints behind. -/
namespace L7mp
open Aborting KeyedList

/-- What a change of the endpoints leaves of a cluster. -/
def Cluster.kind (c : Cluster) : String × ClusterProtocol := (c.name, c.protocol)

namespace Store

/-- The clusters have different names, each lists its endpoints, and every endpoint has one. -/
structure Tied (w : Store) : Prop where
  clusters : Distinct Cluster.name w.clusters
  mirror : ∀ c ∈ w.clusters, c.endpoints = w.endpoints.filter (fun e => e.cluster = c.name)
  owned : ∀ e ∈ w.endpoints, ∃ c ∈ w.clusters, c.name = e.cluster

theorem mem_modifyCluster {w : Store} (h : Distinct Cluster.name w.clusters) {n : String}
    {f : Cluster → Cluster} {c : Cluster} (hc : c ∈ (w.modifyCluster n f).clusters) :
    ∃ b ∈ w.clusters, c = if b.name = n then f b else b := by
  simp only [modifyCluster, h.modify_eq_map] at hc
  obtain ⟨b, hb, rfl⟩ := List.mem_map.mp hc
  exact ⟨b, hb, rfl⟩

theorem modify_names {w : Store} {f : Cluster → Cluster} (hf : ∀ c, (f c).name = c.name)
    (m : String) {n : String} (h : ∃ c ∈ w.clusters, c.name = n) :
    ∃ c ∈ (w.modifyCluster m f).clusters, c.name = n := by
  obtain ⟨c, hc, rfl⟩ := h
  have hmem : c.name ∈ (modify Cluster.name m f w.clusters).map Cluster.name := by
    rw [modify_keys hf]
    exact List.mem_map_of_mem hc
  obtain ⟨b, hb, hbn⟩ := List.mem_map.mp hmem
  exact ⟨b, hb, hbn⟩

/-- The registry consists of the lists of the clusters. -/
theorem Tied.perm {w : Store} (h : w.Tied) :
    w.endpoints.Perm (w.clusters.flatMap Cluster.endpoints) := by
  have hgroups : ∀ e ∈ w.endpoints, EndPoint.cluster e ∈ w.clusters.map Cluster.name := by
    intro e he
    obtain ⟨c, hc, hce⟩ := h.owned e he
    exact hce ▸ List.mem_map_of_mem hc
  have hperm := perm_groups h.clusters hgroups
  rw [List.flatMap_map] at hperm
  have hlists : w.clusters.flatMap Cluster.endpoints =
      w.clusters.flatMap (fun c => w.endpoints.filter (fun e => e.cluster = c.name)) :=
    List.flatMap_congr h.mirror
  rw [hlists]
  exact hperm

theorem Tied.of_lists {w u : Store} (h : w.Tied) (hclusters : u.clusters = w.clusters)
    (hendpoints : u.endpoints = w.endpoints) : u.Tied := by
  refine ⟨?_, ?_, ?_⟩
  · rw [hclusters]
    exact h.clusters
  · rw [hclusters, hendpoints]
    exact h.mirror
  · rw [hclusters, hendpoints]
    exact h.owned

theorem Tied.pushCluster {w : Store} (h : w.Tied) {cu : Cluster}
    (hfree : w.getCluster cu.name = none) (hempty : cu.endpoints = []) :
    (w.pushCluster cu).Tied where
  clusters := h.clusters.push hfree
  mirror c hc := by
    rcases List.mem_append.mp hc with hc | hc
    · exact h.mirror c hc
    · rw [List.mem_singleton.mp hc, hempty]
      symm
      apply List.filter_eq_nil_iff.mpr
      intro e he
      obtain ⟨b, hb, hbe⟩ := h.owned e he
      have hne := lookup_eq_none.mp hfree b hb
      rw [hbe] at hne
      simpa using hne
  owned e he := by
    obtain ⟨c, hc, hce⟩ := h.owned e he
    exact ⟨c, List.mem_append_left _ hc, hce⟩

/-- An endpoint joins its cluster and the registry. -/
theorem Tied.pushEndPoint {w : Store} (h : w.Tied) {ep : EndPoint} {cl : Cluster}
    (hcl : w.getCluster ep.cluster = some cl) : (w.pushEndPoint ep).Tied := by
  have hname (c : Cluster) : ({ c with endpoints := c.endpoints ++ [ep] } : Cluster).name = c.name :=
    rfl
  constructor
  case clusters => exact h.clusters.modify hname _
  case mirror =>
    intro c hc
    obtain ⟨b, hb, rfl⟩ := mem_modifyCluster h.clusters hc
    change _ = (w.endpoints ++ [ep]).filter _
    rw [List.filter_append]
    split_ifs with hbn
    · simp [h.mirror b hb, hbn]
    · simp [h.mirror b hb, Ne.symm hbn]
  case owned =>
    intro e he
    apply modify_names hname
    rcases List.mem_append.mp he with he | he
    · exact h.owned e he
    · rw [List.mem_singleton.mp he]
      exact ⟨cl, lookup_some hcl⟩

/-- The first endpoint of its name leaves its cluster and the registry. -/
theorem Tied.dropEndPoint {w : Store} (h : w.Tied) {n : String} {ep : EndPoint}
    (hep : w.getEndPoint n = some ep) : (w.dropEndPoint n ep).Tied := by
  have hname (c : Cluster) : (c.deleteEndPoint n).name = c.name := rfl
  constructor
  case clusters => exact h.clusters.modify hname _
  case mirror =>
    intro c hc
    obtain ⟨b, hb, rfl⟩ := mem_modifyCluster h.clusters hc
    change _ = (remove EndPoint.name n w.endpoints).filter _
    by_cases hbn : b.name = ep.cluster
    · rw [if_pos hbn, filter_remove hep]
      change remove EndPoint.name n b.endpoints =
        if decide (ep.cluster = b.name) = true then _ else _
      rw [h.mirror b hb]
      exact (if_pos (by simpa using hbn.symm)).symm
    · rw [if_neg hbn, filter_remove hep, h.mirror b hb]
      exact (if_neg (by simpa using Ne.symm hbn)).symm
  case owned =>
    intro e he
    exact modify_names hname _ (h.owned e (List.eraseP_subset he))

/-- A cluster without endpoints leaves. -/
theorem Tied.dropCluster {w : Store} (h : w.Tied) {n : String}
    (hn : ∀ e ∈ w.endpoints, e.cluster ≠ n) :
    Tied { w with clusters := remove Cluster.name n w.clusters } where
  clusters := h.clusters.remove n
  mirror c hc := h.mirror c (List.eraseP_subset hc)
  owned e he := by
    obtain ⟨c, hc, hcn⟩ := h.owned e he
    refine ⟨c, ?_, hcn⟩
    rw [h.clusters.remove_eq_filter]
    exact List.mem_filter.mpr ⟨hc, by simpa [hcn] using hn e he⟩

/-- The endpoints of a cluster are found. -/
theorem Tied.getCluster {w : Store} (h : w.Tied) {n : String} {ep : EndPoint}
    (hep : w.getEndPoint n = some ep) : ∃ c, w.getCluster ep.cluster = some c ∧ ep ∈ c.endpoints := by
  obtain ⟨hmem, -⟩ := lookup_some hep
  obtain ⟨c, hc, hce⟩ := h.owned ep hmem
  refine ⟨c, hce ▸ h.clusters.lookup hc, ?_⟩
  rw [h.mirror c hc]
  exact List.mem_filter.mpr ⟨hmem, by simpa using hce.symm⟩

theorem kinds_dropEndPoint (n : String) (ep : EndPoint) (w : Store) :
    (w.dropEndPoint n ep).clusters.map Cluster.kind = w.clusters.map Cluster.kind := by
  change (KeyedList.modify Cluster.name ep.cluster (Cluster.deleteEndPoint n) w.clusters).map _ = _
  induction w.clusters with
  | nil => rfl
  | cons c l ih =>
    unfold KeyedList.modify
    split_ifs
    · rfl
    · exact congrArg (Cluster.kind c :: ·) ih

/-- However `deleteEndPoint` ends, it drops the first endpoint of the name. -/
theorem Tied.deleteEndPoint {w : Store} (h : w.Tied) (A : Answers) (b : Bool) (n : String) :
    (w.deleteEndPoint A b n).2.Tied ∧
    (w.deleteEndPoint A b n).2.endpoints = remove EndPoint.name n w.endpoints ∧
    (w.deleteEndPoint A b n).2.clusters.map Cluster.kind = w.clusters.map Cluster.kind := by
  unfold Store.deleteEndPoint
  split
  · rename_i hnone
    exact ⟨h, (remove_of_lookup_none hnone).symm, rfl⟩
  · rename_i ep hep
    obtain ⟨c, hc, -⟩ := h.getCluster hep
    have hdrop := h.dropEndPoint hep
    have hkinds := kinds_dropEndPoint n ep w
    simp only [hc]
    split
    · exact ⟨⟨hdrop.clusters, hdrop.mirror, hdrop.owned⟩, rfl, hkinds⟩
    · exact ⟨hdrop, rfl, hkinds⟩

/-- The loop of `deleteCluster` drops endpoints until it throws. -/
theorem Tied.forEach {w : Store} (h : w.Tied) (A : Answers) (b : Bool) (ns : List String) :
    (Aborting.forEach (Store.deleteEndPoint A b) ns w).2.Tied ∧
    (Aborting.forEach (Store.deleteEndPoint A b) ns w).2.clusters.map Cluster.kind =
      w.clusters.map Cluster.kind := by
  refine forEach_keeps
    (I := fun u : Store => u.Tied ∧ u.clusters.map Cluster.kind = w.clusters.map Cluster.kind)
    ?_ ns ⟨h, rfl⟩
  rintro n u ⟨hu, hkinds⟩
  obtain ⟨hkeep, -, hsame⟩ := hu.deleteEndPoint A b n
  exact ⟨hkeep, hsame.trans hkinds⟩

theorem Tied.forEach_returns {A : Answers} {b : Bool} {ns : List String} {w w' : Store}
    (h : w.Tied) (hr : Aborting.forEach (Store.deleteEndPoint A b) ns w = (.ok (), w')) :
    w'.endpoints = removeAll EndPoint.name ns w.endpoints := by
  induction ns generalizing w with
  | nil =>
    cases hr
    rfl
  | cons n ns ih =>
    obtain ⟨t, ht, hrest⟩ := seq_returns.mp hr
    obtain ⟨hkeep, hend, -⟩ := h.deleteEndPoint A b n
    rw [ht] at hkeep hend
    rw [ih hkeep hrest, hend]
    rfl

end Store
end L7mp
