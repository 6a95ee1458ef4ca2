import L7mp.StoreNames
import Mathlib.Data.List.Forall2

/-! The endpoints of a new cluster. `addCluster` does not wait for `addEndPoint`, so that an
endpoint that is refused stays out while the cluster is reported as added. -/
namespace L7mp
open Aborting Coroutine GuardedRun KeyedList

/-- Why an endpoint of the list is not added: the loop itself throws before it calls
`addEndPoint`, or `addEndPoint` refuses. -/
inductive Trouble
  | thrown (e : Err)
  | refused (e : Err)
  deriving DecidableEq

def Trouble.error : Trouble → Err
  | .thrown e | .refused e => e

namespace EndPointSpec

/-- The error of `addEndPoint` for an endpoint named `n`, where `used` are the names in use. -/
def refusal (protocol : ClusterProtocol) (n : String) (used : List String) (ep : EndPointSpec) :
    Option Err :=
  match validate ep.shape [.name false (some n), .given "spec" true ep.spec] with
  | some e => some (cannotAdd "endpoint" e)
  | none =>
    if n ∈ used then some (cannotAdd "endpoint" (alreadyDefined "Endpoint" n))
    else match (createEndPoint true (Store.addressGiven ep.spec) protocol 0).1 with
      | .error e => some e
      | .ok _ => none

/-- The name of an endpoint in the loop, and `EndPoint.index` after it. -/
def loopName (base : String) (used : List String) (i : ℕ) (name : Option String) :
    Except Err String × ℕ :=
  if Store.needsName name then
    (match newName (base ++ toString i) (fun n => n ∈ used) with
      | some n => .ok n
      | none => .error (Store.noNewName (base ++ toString i)), i+1)
  else (.ok (name.getD ""), i)

theorem not_used_of_refusal {protocol : ClusterProtocol} {n : String} {used : List String}
    {ep : EndPointSpec} (h : ep.refusal protocol n used = none) : n ∉ used := by
  intro hn
  unfold refusal at h
  split at h
  · cases h
  · rw [if_pos hn] at h
    cases h

theorem loopName_given {base n : String} {used : List String} {i j : ℕ} {name : Option String}
    (h : loopName base used i name = (.ok n, j)) (hname : Store.needsName name = false) :
    name = some n := by
  unfold loopName at h
  rw [if_neg (by simp [hname])] at h
  cases name with
  | none => cases hname
  | some m =>
    cases h
    rfl

end EndPointSpec

open EndPointSpec (loopName)

/-- The first endpoint of the list that cannot be added. -/
def trouble (protocol : ClusterProtocol) (base : String) :
    List EndPointArg → List String → ℕ → Option Trouble
  | [], _, _ => none
  | .null :: _, _, _ => some (.thrown .typeError)
  | .primitive :: _, used, i => match (loopName base used i none).1 with
    | .error e => some (.thrown e)
    | .ok _ => some (.thrown .typeError)
  | .inline ep :: rest, used, i => match loopName base used i ep.name with
    | (.error e, _) => some (.thrown e)
    | (.ok n, i) => match ep.refusal protocol n used with
      | some e => some (.refused e)
      | none => trouble protocol base rest (used ++ [n]) i

/-- The endpoint object of an element of the list. -/
def Describes (cu : String) : EndPointArg → EndPoint → Prop
  | .inline ep, e => e.cluster = cu ∧ (Store.needsName ep.name = false → ep.name = some e.name)
  | .null, _ | .primitive, _ => False

namespace Store

def endPointNames (w : Store) : List String := w.endpoints.map EndPoint.name

/-- Cluster `n` is registered, and `es` are its endpoints: the list of the cluster consists of
them, and the registry has them in this order and no others of their names. -/
def Stands (n : String) (es : List EndPoint) (w : Store) : Prop :=
  (∃ cu, w.getCluster n = some cu ∧ cu.endpoints = es) ∧ Distinct EndPoint.name es ∧
    w.endpoints.filter (fun e => e.name ∈ es.map EndPoint.name) = es

/-- What other requests do while `addCluster` waits: the clusters and endpoints that are there
stay, and no promise is rejected. -/
def Leaves (w : Store) (_ : List Held) (_ : Option Err) (t : Store) : Prop :=
  (∀ n es, Stands n es w → Stands n es t) ∧ t.rejections = w.rejections

/-- The endpoint of the specification that cannot be added, if its cluster can. -/
def endPointTrouble (w : Store) (c : ClusterSpec) (autogenerated : Bool) : Option Trouble :=
  match w.admitCluster c autogenerated with
  | .error _ => none
  | .ok cu => trouble cu.protocol (cu.name ++ "-EndPoint-") (Given.toList c.endpoints)
      w.endPointNames (w.index .endpoint)

/-- `addCluster` returns only with all endpoints, fails with the error of an endpoint that cannot
be added, and leaves no rejected promise. -/
structure Complete (w : Store) (c : ClusterSpec) (autogenerated : Bool) (r : Except Err Unit)
    (w' : Store) : Prop where
  stands : r = .ok () → ∃ n es, c.name = some n ∧ Stands n es w' ∧
    List.Forall₂ (Describes n) (Given.toList c.endpoints) es
  fails : ∀ x, w.endPointTrouble c autogenerated = some x → r = .error x.error
  handled : w'.rejections = w.rejections

/-- `addEndPoint` refuses no endpoint that the loop gives to it. -/
def EndPointsFit (w : Store) (c : ClusterSpec) (autogenerated : Bool) : Prop :=
  ∀ e, w.endPointTrouble c autogenerated ≠ some (.refused e)

/-! ### One endpoint -/

theorem createEndPoint_named (address : Bool) (p : ClusterProtocol) (i : ℕ) :
    createEndPoint true address p i = ((createEndPoint true address p 0).1, i) := by
  induction p with
  | jsonSocket transport ih => exact ih
  | test | http | webSocket | udp | tcp | unixDomainSocket | jsonSocketBare | stdio | echo
  | discard | logger | jsonEncap | jsonDecap | sync | l7mpController | prometheus | metric
  | other => rfl

theorem setIndex_self (k : Kind) (w : Store) : w.setIndex k (w.index k) = w := by
  have hindex : (fun j => if j = k then w.index k else w.index j) = w.index := by
    funext j
    split_ifs with hj
    · rw [hj]
    · rfl
  unfold setIndex
  rw [hindex]

theorem getEndPoint_isSome {w : Store} {n : String} :
    (w.getEndPoint n).isSome = decide (n ∈ w.endPointNames) := by
  unfold getEndPoint endPointNames
  by_cases h : n ∈ w.endpoints.map EndPoint.name
  · rw [decide_eq_true h, Option.isSome_iff_ne_none]
    intro hnone
    exact lookup_eq_none_iff.mp hnone h
  · rw [decide_eq_false h, lookup_eq_none_iff.mpr h]
    rfl

/-- What the loop does for one endpoint. -/
theorem addEndPoint_named {w : Store} {c n : String} {cl : Cluster} {ep : EndPointSpec}
    (hcl : w.getCluster c = some cl) : w.addEndPoint c { ep with name := some n } =
      match ep.refusal cl.protocol n w.endPointNames with
      | some e => (.error e, w)
      | none => (.ok (), w.pushEndPoint ⟨n, cl.name⟩) := by
  unfold addEndPoint EndPointSpec.refusal
  dsimp only
  cases hv : validate ep.shape [.name false (some n), .given "spec" true ep.spec] with
  | some e => rfl
  | none =>
    dsimp only [Option.bind_some, Option.getD_some, Option.isSome_some]
    by_cases hn : n ∈ w.endPointNames
    · have hsome : (w.getEndPoint n).isSome = true := getEndPoint_isSome.trans (decide_eq_true hn)
      rw [if_pos hsome, if_pos hn]
    · have hnone : ¬(w.getEndPoint n).isSome = true := by
        rw [getEndPoint_isSome]
        simpa using hn
      rw [if_neg hnone, if_neg hn, hcl]
      dsimp only
      rw [createEndPoint_named]
      cases (createEndPoint true (addressGiven ep.spec) cl.protocol 0).1 with
      | error e =>
        dsimp only
        rw [setIndex_self]
      | ok _ =>
        dsimp only
        rw [setIndex_self]
        rfl

theorem inlineName_endPoint (w : Store) (base : String) (name : Option String) :
    w.inlineName .endpoint base name =
      ((loopName base w.endPointNames (w.index .endpoint) name).1,
        w.setIndex .endpoint (loopName base w.endPointNames (w.index .endpoint) name).2) := by
  have htaken : w.taken .endpoint = fun n => decide (n ∈ w.endPointNames) := by
    funext n
    exact getEndPoint_isSome
  unfold inlineName loopName
  split_ifs
  · unfold generated
    rw [htaken]
    simp only [Prod.mk.injEq]
    refine ⟨rfl, ?_⟩
    unfold bump setIndex
    congr 1
    funext j
    split_ifs with hj
    · rw [hj]
    · rfl
  · rw [setIndex_self]

/-! ### The loop -/

theorem index_setIndex (k : Kind) (i : ℕ) (w : Store) : (w.setIndex k i).index k = i := by
  simp [setIndex]

theorem endPointNames_pushEndPoint (ep : EndPoint) (w : Store) :
    (w.pushEndPoint ep).endPointNames = w.endPointNames ++ [ep.name] := List.map_append

theorem getCluster_pushEndPoint {w : Store} {e : EndPoint} {cl : Cluster}
    (hcl : w.getCluster e.cluster = some cl) : (w.pushEndPoint e).getCluster e.cluster =
      some { cl with endpoints := cl.endpoints ++ [e] } := by
  unfold getCluster at hcl ⊢
  have hname (c : Cluster) : (Cluster.mk c.name c.protocol (c.endpoints ++ [e]) c.autogenerated).name =
      c.name := rfl
  refine (lookup_modify hname e.cluster w.clusters).trans ?_
  rw [hcl]
  rfl

/-- What the loop does for one endpoint, and what it leaves to the rest. -/
theorem addEndPoints_inline {w : Store} {n : String} {cl : Cluster} {ep : EndPointSpec}
    {rest : List EndPointArg} (hcl : w.getCluster n = some cl) :
    w.addEndPoints n (.inline ep :: rest) =
      match loopName (n ++ "-EndPoint-") w.endPointNames (w.index .endpoint) ep.name with
      | (.error e, i) => (.error e, w.setIndex .endpoint i)
      | (.ok m, i) => match ep.refusal cl.protocol m w.endPointNames with
        | some e =>
          ((w.setIndex .endpoint i).unhandled (.error e : Except Err Unit)).addEndPoints n rest
        | none => ((w.setIndex .endpoint i).pushEndPoint ⟨m, cl.name⟩).addEndPoints n rest := by
  rw [addEndPoints, inlineName_endPoint]
  rcases loopName (n ++ "-EndPoint-") w.endPointNames (w.index .endpoint) ep.name with ⟨_ | m, i⟩
  · rfl
  · dsimp only
    have hnames : (w.setIndex .endpoint i).endPointNames = w.endPointNames := rfl
    rw [addEndPoint_named (w := w.setIndex .endpoint i) hcl, hnames]
    cases ep.refusal cl.protocol m w.endPointNames with
    | some e => rfl
    | none => rfl

/-- The endpoints of the list are in the cluster and in the registry. -/
structure Added (n : String) (cl : Cluster) (eps : List EndPointArg) (es : List EndPoint)
    (w w' : Store) : Prop where
  endpoints : w'.endpoints = w.endpoints ++ es
  cluster : w'.getCluster n = some { cl with endpoints := cl.endpoints ++ es }
  describes : List.Forall₂ (Describes n) eps es
  distinct : Distinct EndPoint.name es
  fresh : ∀ e ∈ es, e.name ∉ w.endPointNames
  rejections : w'.rejections = w.rejections

/-- What the loop returns and leaves, from the first endpoint that cannot be added. -/
def LoopLeaves (n : String) (cl : Cluster) (eps : List EndPointArg) (w : Store)
    (r : Except Err Unit × Store) : Option Trouble → Prop
  | none => r.1 = .ok () ∧ ∃ es, Added n cl eps es w r.2
  | some (.thrown e) => r.1 = .error e ∧ r.2.rejections = w.rejections
  | some (.refused e) => w.rejections ++ [e] <+: r.2.rejections

/-- An endpoint that is added stands before those of the rest of the loop. -/
theorem LoopLeaves.cons {m : String} {i : ℕ} {cl : Cluster} {ep : EndPointSpec}
    {rest : List EndPointArg} {w : Store} {r : Except Err Unit × Store} {x : Option Trouble}
    (hname : loopName (cl.name ++ "-EndPoint-") w.endPointNames (w.index .endpoint) ep.name =
      (.ok m, i)) (hm : m ∉ w.endPointNames)
    (h : LoopLeaves cl.name { cl with endpoints := cl.endpoints ++ [⟨m, cl.name⟩] } rest
      ((w.setIndex .endpoint i).pushEndPoint ⟨m, cl.name⟩) r x) :
    LoopLeaves cl.name cl (.inline ep :: rest) w r x := by
  match x, h with
  | some (.thrown _), h => exact h
  | some (.refused _), h => exact h
  | none, ⟨hok, es, hadd⟩ =>
    have hrest : ∀ e ∈ es, e.name ∉ w.endPointNames ∧ e.name ≠ m := by
      intro e he
      have hfresh := hadd.fresh e he
      rw [endPointNames_pushEndPoint] at hfresh
      exact ⟨fun h => hfresh (List.mem_append_left _ h),
        fun h => hfresh (List.mem_append_right _ (List.mem_singleton.mpr h))⟩
    refine ⟨hok, ⟨m, cl.name⟩ :: es, ?_⟩
    constructor
    case endpoints =>
      rw [hadd.endpoints]
      simp [pushEndPoint, setIndex, modifyCluster]
    case cluster =>
      rw [hadd.cluster]
      simp
    case describes => exact .cons ⟨rfl, EndPointSpec.loopName_given hname⟩ hadd.describes
    case distinct =>
      refine List.nodup_cons.mpr ⟨?_, hadd.distinct⟩
      intro hmem
      obtain ⟨e, he, hem⟩ := List.mem_map.mp hmem
      exact (hrest e he).2 hem
    case fresh =>
      intro e he
      rcases List.mem_cons.mp he with rfl | he
      · exact hm
      · exact (hrest e he).1
    case rejections => exact hadd.rejections

/-- Errors of `addEndPoint` pile up. -/
theorem rejections_addEndPoints {n : String} {eps : List EndPointArg} {w : Store} {cl : Cluster}
    (hcl : w.getCluster n = some cl) :
    w.rejections <+: (w.addEndPoints n eps).2.rejections := by
  induction eps generalizing w cl with
  | nil => exact List.prefix_rfl
  | cons ep rest ih =>
    cases ep with
    | null => exact List.prefix_rfl
    | primitive =>
      rw [addEndPoints, inlineName_endPoint]
      cases (loopName (n ++ "-EndPoint-") w.endPointNames (w.index .endpoint) none).1 with
      | error e => exact List.prefix_rfl
      | ok m => exact List.prefix_rfl
    | inline ep =>
      rw [addEndPoints_inline hcl]
      rcases loopName (n ++ "-EndPoint-") w.endPointNames (w.index .endpoint) ep.name
        with ⟨e | m, i⟩
      · exact List.prefix_rfl
      · dsimp only
        cases ep.refusal cl.protocol m w.endPointNames with
        | some e =>
          have hrest := ih
            (w := (w.setIndex .endpoint i).unhandled (.error e : Except Err Unit)) hcl
          exact (List.prefix_append w.rejections [e]).trans hrest
        | none =>
          obtain rfl : cl.name = n := (lookup_some hcl).2
          exact ih (getCluster_pushEndPoint (w := w.setIndex .endpoint i) (e := ⟨m, cl.name⟩) hcl)

/-- The whole loop. -/
theorem addEndPoints_leaves {n : String} (eps : List EndPointArg) {w : Store} {cl : Cluster}
    (hcl : w.getCluster n = some cl) : LoopLeaves n cl eps w (w.addEndPoints n eps)
      (trouble cl.protocol (n ++ "-EndPoint-") eps w.endPointNames (w.index .endpoint)) := by
  induction eps generalizing w cl with
  | nil =>
    refine ⟨rfl, [], ?_⟩
    constructor
    case endpoints => simp [addEndPoints]
    case cluster => simpa [addEndPoints] using hcl
    case describes => exact .nil
    case distinct => exact List.nodup_nil
    case fresh => simp
    case rejections => rfl
  | cons ep rest ih =>
    cases ep with
    | null => exact ⟨rfl, rfl⟩
    | primitive =>
      rw [addEndPoints, inlineName_endPoint, trouble]
      cases (loopName (n ++ "-EndPoint-") w.endPointNames (w.index .endpoint) none).1 with
      | error e => exact ⟨rfl, rfl⟩
      | ok m => exact ⟨rfl, rfl⟩
    | inline ep =>
      obtain rfl : cl.name = n := (lookup_some hcl).2
      rw [addEndPoints_inline hcl, trouble]
      rcases hname : loopName (cl.name ++ "-EndPoint-") w.endPointNames (w.index .endpoint) ep.name
        with ⟨e | m, i⟩
      · exact ⟨rfl, rfl⟩
      · dsimp only
        cases href : ep.refusal cl.protocol m w.endPointNames with
        | some e =>
          exact rejections_addEndPoints
            (w := (w.setIndex .endpoint i).unhandled (.error e : Except Err Unit)) hcl
        | none =>
          apply LoopLeaves.cons hname (EndPointSpec.not_used_of_refusal href)
          have hpush := ih (getCluster_pushEndPoint (w := w.setIndex .endpoint i)
            (e := ⟨m, cl.name⟩) hcl)
          rw [endPointNames_pushEndPoint] at hpush
          have hindex : ((w.setIndex .endpoint i).pushEndPoint ⟨m, cl.name⟩).index .endpoint = i :=
            index_setIndex .endpoint i w
          rw [hindex] at hpush
          exact hpush

theorem Added.stands {n : String} {cl : Cluster} {eps : List EndPointArg} {es : List EndPoint}
    {w w' : Store} (h : Added n cl eps es w w') (hcl : cl.endpoints = []) : Stands n es w' := by
  refine ⟨⟨_, h.cluster, ?_⟩, h.distinct, ?_⟩
  · simp [hcl]
  · rw [h.endpoints, List.filter_append, List.filter_eq_nil_iff.mpr, List.filter_eq_self.mpr]
    · rfl
    · intro e he
      simpa using ⟨e, he, rfl⟩
    · intro e he hmem
      obtain ⟨b, hb, hbe⟩ := List.mem_map.mp (of_decide_eq_true hmem)
      apply h.fresh b hb
      rw [hbe]
      exact List.mem_map_of_mem he

/-! ### The cluster -/

theorem getCluster_pushCluster {w : Store} {cu : Cluster} (h : w.getCluster cu.name = none) :
    (w.pushCluster cu).getCluster cu.name = some cu := by
  unfold getCluster lookup at h ⊢
  change (w.clusters ++ [cu]).find? _ = _
  rw [List.find?_append, h]
  simp

theorem admitCluster_ok {w : Store} {c : ClusterSpec} {auto : Bool} {cu : Cluster}
    (h : w.admitCluster c auto = .ok cu) :
    c.name = some cu.name ∧ w.getCluster cu.name = none ∧ cu.endpoints = [] := by
  unfold admitCluster at h
  split at h
  · rename_i n _ _ hn _
    split_ifs at h with hdup
    split at h <;> cases h
    exact ⟨hn, by simpa using hdup, rfl⟩
  · cases h
  · cases h

/-- Deletions reject no promise. -/
theorem rejections_deleteCluster (A : Answers) (b : Bool) (n : String) (w : Store) :
    (w.deleteCluster A b n).2.rejections = w.rejections := by
  have hep (m : String) (t : Store) (ht : t.rejections = w.rejections) :
      (t.deleteEndPoint A b m).2.rejections = w.rejections := by
    unfold deleteEndPoint
    split
    · exact ht
    · split
      · exact ht
      · split <;> exact ht
  unfold deleteCluster
  split
  · rfl
  · refine seq_keeps (I := fun t : Store => t.rejections = w.rejections) ?_ (fun t ht => ?_) rfl
    · intro t ht
      split
      · exact ht
      · exact ht
    · refine seq_keeps (I := fun t : Store => t.rejections = w.rejections) ?_ (fun _ ht => ht) ht
      intro t ht
      exact forEach_keeps (I := fun t : Store => t.rejections = w.rejections) hep _ ht

end Store

/-- What `addCluster` does when the endpoints were looked at. -/
def finishCluster (A : Answers) (cu : Cluster) : Add Unit :=
  tryCatch (startCluster cu) (fun err => do
    Add.sync (Store.deleteCluster A true cu.name)
    throw err)

theorem addCluster_of_refused {A : Answers} {c : ClusterSpec} {auto : Bool} {w : Store} {e : Err}
    (h : w.admitCluster c auto = .error e) : addCluster A c auto w = .done w (.error e) := by
  change Res.bind _ (.done w (w.admitCluster c auto)) = _
  rw [h]
  rfl

theorem addCluster_of_admitted {A : Answers} {c : ClusterSpec} {auto : Bool} {w : Store}
    {cu : Cluster} (h : w.admitCluster c auto = .ok cu) : addCluster A c auto w =
      (addInlineEndPoints cu c.endpoints (w.pushCluster cu)).bind
        (fun _ => finishCluster A cu) := by
  change Res.bind _ (.done w (w.admitCluster c auto)) = _
  rw [h]
  rfl

/-- A cluster that starts, or not, leaves the rejections, and the store if it returns. -/
theorem finishCluster_sat (A : Answers) (cu : Cluster) (w : Store) :
    (finishCluster A cu w).Sat (fun _ => True) Store.Leaves (fun r w' =>
      (r = .ok () → Store.Leaves w [] none w') ∧ w'.rejections = w.rejections) := by
  refine ⟨trivial, ?_⟩
  intro i t hleft
  cases i with
  | none => exact ⟨fun _ => hleft, hleft.2⟩
  | some e =>
    by_cases hp : cu.protocol = .l7mpController
    · obtain ⟨n, _, es, auto⟩ := cu
      obtain rfl := hp
      have hkeep := Store.rejections_deleteCluster A true n t
      change (Res.bind _
        (.done (t.deleteCluster A true n).2 (t.deleteCluster A true n).1)).Sat _ _ _
      rcases (t.deleteCluster A true n).1 with _ | _
      · exact ⟨nofun, hkeep.trans hleft.2⟩
      · exact ⟨nofun, hkeep.trans hleft.2⟩
    · obtain ⟨n, p, es, auto⟩ := cu
      cases p with
      | l7mpController => exact absurd rfl hp
      | test | http | webSocket | udp | tcp | unixDomainSocket | jsonSocket | jsonSocketBare
      | stdio | echo | discard | logger | jsonEncap | jsonDecap | sync | prometheus | metric
      | other => exact ⟨fun _ => hleft, hleft.2⟩

/-- The endpoints of a specification, absent or a list. -/
theorem addInlineEndPoints_eq (cu : Cluster) {eps : Given (List EndPointArg)} (w : Store)
    (h : ∃ l, eps = .ok l ∨ eps = .absent) : addInlineEndPoints cu eps w =
      .done (w.addEndPoints cu.name eps.toList).2 (w.addEndPoints cu.name eps.toList).1 := by
  obtain ⟨l, rfl | rfl⟩ := h
  · rfl
  · rfl

namespace Store

theorem endPointTrouble_eq {w : Store} {c : ClusterSpec} {auto : Bool} {cu : Cluster}
    (h : w.admitCluster c auto = .ok cu) : w.endPointTrouble c auto =
      trouble cu.protocol (cu.name ++ "-EndPoint-") c.endpoints.toList w.endPointNames
        (w.index .endpoint) := by
  unfold endPointTrouble
  rw [h]

/-- If `addEndPoint` refuses nothing, the addition is complete, whether or not the cluster
starts. -/
theorem complete_of_fits {w : Store} {c : ClusterSpec} {auto : Bool}
    (h : w.EndPointsFit c auto) (A : Answers) :
    (addCluster A c auto w).Sat (fun _ => True) Leaves (w.Complete c auto) := by
  cases hadm : w.admitCluster c auto with
  | error e =>
    rw [addCluster_of_refused hadm]
    refine ⟨nofun, ?_, rfl⟩
    intro x hx
    unfold endPointTrouble at hx
    rw [hadm] at hx
    cases hx
  | ok cu =>
    rw [addCluster_of_admitted hadm]
    have htrouble := endPointTrouble_eq hadm
    obtain ⟨hname, hfree, hempty⟩ := admitCluster_ok hadm
    by_cases hgiven : ∃ l, c.endpoints = .ok l ∨ c.endpoints = .absent
    · rw [addInlineEndPoints_eq cu _ hgiven]
      have hloop := addEndPoints_leaves c.endpoints.toList (getCluster_pushCluster hfree)
      rcases hr : (w.pushCluster cu).addEndPoints cu.name c.endpoints.toList with ⟨r, u⟩
      rw [hr] at hloop
      change LoopLeaves _ _ _ _ _ (trouble _ _ _ w.endPointNames (w.index .endpoint)) at hloop
      rw [← htrouble] at hloop
      cases hx : w.endPointTrouble c auto with
      | some x =>
        rw [hx] at hloop
        cases x with
        | refused e => exact absurd hx (h e)
        | thrown e =>
          obtain rfl : r = .error e := hloop.1
          refine ⟨nofun, ?_, hloop.2⟩
          intro x hx'
          cases hx.symm.trans hx'
          rfl
      | none =>
        rw [hx] at hloop
        obtain ⟨hok, es, hadd⟩ := hloop
        obtain rfl : r = .ok () := hok
        refine (finishCluster_sat A cu u).mono ?_
        intro r' t ht
        refine ⟨fun hr' => ⟨cu.name, es, hname, ?_, hadd.describes⟩, ?_, ht.2.trans hadd.rejections⟩
        · exact (ht.1 hr').1 _ _ (hadd.stands hempty)
        · intro x hx'
          cases hx.symm.trans hx'
    · cases heps : c.endpoints with
      | absent => exact absurd ⟨[], .inr heps⟩ hgiven
      | ok l => exact absurd ⟨l, .inl heps⟩ hgiven
      | invalid =>
        refine ⟨nofun, ?_, rfl⟩
        intro x hx
        rw [htrouble, heps] at hx
        cases hx

/-- An endpoint that `addEndPoint` refuses is a promise that nobody handles. -/
theorem fits_of_complete {w : Store} {c : ClusterSpec} {auto : Bool} {A : Answers}
    (h : (addCluster A c auto w).Sat (fun _ => True) Leaves (w.Complete c auto)) :
    w.EndPointsFit c auto := by
  intro e he
  cases hadm : w.admitCluster c auto with
  | error e' =>
    unfold endPointTrouble at he
    rw [hadm] at he
    cases he
  | ok cu =>
    rw [addCluster_of_admitted hadm] at h
    rw [endPointTrouble_eq hadm] at he
    obtain ⟨_, hfree, _⟩ := admitCluster_ok hadm
    have hgiven : ∃ l, c.endpoints = .ok l ∨ c.endpoints = .absent := by
      cases heps : c.endpoints with
      | absent => exact ⟨[], .inr rfl⟩
      | ok l => exact ⟨l, .inl rfl⟩
      | invalid =>
        rw [heps] at he
        cases he
    rw [addInlineEndPoints_eq cu _ hgiven] at h
    have hloop := addEndPoints_leaves c.endpoints.toList (getCluster_pushCluster hfree)
    change LoopLeaves _ _ _ _ _ (trouble _ _ _ w.endPointNames (w.index .endpoint)) at hloop
    rw [he] at hloop
    rcases hr : (w.pushCluster cu).addEndPoints cu.name c.endpoints.toList with ⟨r, u⟩
    rw [hr] at hloop h
    have hmore : w.rejections ++ [e] <+: u.rejections := hloop
    have hsame : u.rejections = w.rejections := by
      cases r with
      | error e' => exact h.handled
      -- the cluster starts at once and nothing else runs
      | ok _ => exact (h.2 none u ⟨fun _ _ => id, rfl⟩).handled
    have hlen := hmore.length_le
    rw [hsame, List.length_append, List.length_singleton] at hlen
    omega

/-- `addCluster` does what it promises if and only if `addEndPoint` refuses none of the endpoints
that the loop reaches. -/
theorem complete_iff (A : Answers) (c : ClusterSpec) (auto : Bool) (w : Store) :
    (addCluster A c auto w).Sat (fun _ => True) Leaves (w.Complete c auto) ↔
      w.EndPointsFit c auto :=
  ⟨fits_of_complete, fun h => complete_of_fits h A⟩

end Store

namespace World

/-- Two endpoints of one name. -/
def twins : ClusterSpec :=
  let ep : EndPointArg := .inline ⟨.plain, some "e", .ok true⟩
  ⟨.plain, some "c", .ok .test, none, .ok [ep, ep]⟩

/-- The second endpoint is refused, and `addCluster` returns. -/
theorem twins_incomplete : ¬∀ w, Run step always start w → ∀ A c auto,
    (addCluster A c auto w.state).Sat (fun _ => True) Store.Leaves
      (w.state.Complete c auto) := by
  intro h
  have hfit := Store.fits_of_complete (h start (.refl _) noAnswers twins false)
  refine hfit (cannotAdd "endpoint" (alreadyDefined "Endpoint" "e")) ?_
  decide

end World
end L7mp
