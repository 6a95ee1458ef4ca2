import L7mp.CatalogFlatten
import Mathlib.Logic.Relation

/-! The changes that the configuration functions make to the collections, piece by piece and with
the pieces of other requests in between, and what all objects keep from the checks that they
passed. -/
namespace L7mp
open Aborting KeyedList Js Relation

/-! ### Names with numbers -/

theorem jsSpace_digit {c : Char} (h : c.isDigit = true) : jsSpace c = false := by
  have hbounds : '0' ≤ c ∧ c ≤ '9' := by
    simp only [Char.isDigit, Bool.and_eq_true, decide_eq_true_eq] at h
    exact h
  have hlow : ['\t', '\n', '\x0b', '\x0c', '\r', ' ', '\u00a0', '\u1680', '\u2028', '\u2029',
      '\u202f', '\u205f', '\u3000', '\ufeff'].all (fun d => !d.isDigit) = true := by decide
  have hhigh : ¬('\u2000' ≤ c ∧ c ≤ '\u200a') := fun hc =>
    absurd (Char.le_trans hc.1 hbounds.2) (by decide)
  unfold jsSpace
  rw [Bool.or_eq_false_iff]
  constructor
  · apply decide_eq_false
    intro hc
    have hnot := List.all_eq_true.mp hlow c hc
    rw [h] at hnot
    exact absurd hnot (by decide)
  · simpa using hhigh

/-- A valid name stays one when something without whitespace is appended. -/
theorem validName_append {a b : String} (ha : validName a = true)
    (hb : b.toList.all (fun c => !jsSpace c) = true) : validName (a ++ b) = true := by
  unfold validName at *
  rw [Bool.and_eq_true] at ha ⊢
  obtain ⟨hne, hall⟩ := ha
  rw [String.toList_append, List.all_append, hall, hb]
  refine ⟨?_, rfl⟩
  simp only [ne_eq, decide_eq_true_eq, List.append_eq_nil_iff, not_and] at hne ⊢
  exact fun h => absurd h hne

theorem toString_unspaced (n : ℕ) : (toString n).toList.all (fun c => !jsSpace c) = true := by
  have hdigits : (toString n).toList = Nat.toDigits 10 n := by simp
  rw [hdigits, List.all_eq_true]
  intro c hc
  rw [jsSpace_digit (Nat.isDigit_of_mem_toDigits (by decide) (by decide) hc)]
  rfl

theorem createEndPoint_outcome (named address : Bool) (p : ClusterProtocol) (i : ℕ) :
    (createEndPoint named address p i).1 = (createEndPoint true address p 0).1 := by
  induction p generalizing named i with
  | jsonSocket transport ih => exact (ih _ _).trans (ih _ _).symm
  | test | http | webSocket | udp | tcp | unixDomainSocket | jsonSocketBare | stdio | echo
  | discard | logger | jsonEncap | jsonDecap | sync | l7mpController | prometheus | metric
  | other => rfl

/-! ### Changes -/

namespace Catalog

/-- `deleteEndPoint` of an endpoint that was found. -/
def dropEndPoint (n : String) (ep : EndPoint) (s : Catalog) : Catalog :=
  { s with
    clusters := modify Cluster.name ep.cluster
      (fun c => { c with endpoints := remove EndPoint.name n c.endpoints }) s.clusters
    endpoints := remove EndPoint.name n s.endpoints }

/-- `rl.rules.splice(pos, 1)`. -/
def removeRule (list : String) (pos : ℕ) (s : Catalog) : Catalog :=
  { s with
    rulelists := modify RuleList.name list
      (fun rl => { rl with rules := rl.rules.eraseIdx pos }) s.rulelists }

/-- What a configuration function does to the collections between two waits. A listener and a
route have passed their checks when they are pushed, but another one may have their name by
then. -/
inductive Change (s : Catalog) : Catalog → Prop
  | setIndex (i : Kind → ℕ) : Change s { s with index := i }
  | pushListener (l : Listener) (hn : validName l.name = true)
      (hp : createListener l.spec.protocol = .ok ()) : Change s (s.pushListener l)
  | pushRuleList (n : String) (auto : Bool) (name : Option String)
      (hn : admitName "RuleList" "RuleList" name (s.used .rulelist) = .ok n) :
      Change s (s.pushRuleList ⟨n, [], auto⟩)
  | insertRule (list : String) (pos : ℕ) (n : String) : Change s (s.insertRule list pos n)
  | removeRule (list : String) (pos : ℕ) : Change s (s.removeRule list pos)
  | pushRule (n : String) (r : RuleDef) (auto : Bool)
      (hn : admitName "rule" "Rule" r.name (s.used .rule) = .ok n) :
      Change s (s.pushRule (makeRule n r auto))
  | resolveRoute (n route : String) : Change s (s.resolveRoute n route)
  | pushRoute (r : RouteDef) (n destination : String) (ingress egress : List String) (auto : Bool)
      (hn : validName n = true) :
      Change s (s.pushRoute (makeRoute r n destination ingress egress auto))
  | pushCluster (n : String) (c : ClusterDef) (auto : Bool)
      (hn : admitName "cluster" "Cluster" c.name (s.used .cluster) = .ok n)
      (hc : createCluster (c.loadbalancer.map LoadBalancerDef.policy) c.spec.protocol = .ok ()) :
      Change s (s.pushCluster (makeCluster n c auto))
  | addEndPoint (c : String) (e : EndPointDef) (t : Catalog) (h : s.addEndPoint c e = .ok t) :
      Change s t
  | dropListener (n : String) :
      Change s { s with listeners := remove Listener.name n s.listeners }
  | dropRuleList (n : String) :
      Change s { s with rulelists := remove RuleList.name n s.rulelists }
  | dropRule (n : String) : Change s { s with rules := remove Rule.name n s.rules }
  | dropRoute (n : String) : Change s { s with routes := remove Route.name n s.routes }
  | dropCluster (n : String) : Change s { s with clusters := remove Cluster.name n s.clusters }
  | dropEndPoint (n : String) (ep : EndPoint) (h : s.getEndPoint n = some ep) :
      Change s (s.dropEndPoint n ep)

/-- A store that the configuration functions lead to from the empty one. -/
def Reachable (s : Catalog) : Prop := ReflTransGen Change empty s

/-! ### What the objects keep -/

structure Cluster.Sound (cu : Cluster) : Prop where
  name : validName cu.name = true
  made : ∃ c : ClusterDef, c.creatable = true ∧ cu.spec = c.spec.made ∧
    cu.loadbalancer = c.spec.protocol.loadBalancer c.loadbalancer
  endpoints : ∀ e ∈ cu.endpoints, cu.spec.protocol.takes e.spec = true

structure Sound (s : Catalog) : Prop where
  listeners : ∀ l ∈ s.listeners, validName l.name = true ∧ createListener l.spec.protocol = .ok ()
  clusters : ∀ cu ∈ s.clusters, cu.Sound
  rules : ∀ r ∈ s.rules, validName r.name = true ∧ ∃ b : RuleBody, r.matcher = b.matcher
  routes : ∀ r ∈ s.routes, validName r.name = true
  endpoints : ∀ e ∈ s.endpoints, validName e.name = true ∧ e.weight.truthy = true

theorem orElse_truthy (x : Option Value) {d : Value} (hd : d.truthy = true) :
    (orElse x d).truthy = true := by
  unfold orElse
  cases hx : x.filter Value.truthy with
  | none => exact hd
  | some v => exact (Option.filter_eq_some_iff.mp hx).2

variable {s t : Catalog}

/-- An endpoint that was added to a cluster. -/
theorem addEndPoint_ok {c : String} {e : EndPointDef} (h : s.addEndPoint c e = .ok t) :
    ∃ cl, s.getCluster c = some cl ∧ e.name.all validName = true ∧
      cl.spec.protocol.takes e.spec = true ∧
      ∃ i, t = (s.setIndex .endpoint i).pushEndPoint (s.makeEndPoint cl e) := by
  unfold Catalog.addEndPoint at h
  split_ifs at h with hname htaken
  cases hcl : s.getCluster c with
  | none =>
    rw [hcl] at h
    cases h
  | some cl =>
    rw [hcl] at h
    dsimp only at h
    have hgiven := createEndPoint_outcome e.name.isSome e.addressed cl.spec.protocol
      (s.index .endpoint)
    cases hcreate : createEndPoint e.name.isSome e.addressed cl.spec.protocol
        (s.index .endpoint) with
    | mk r i =>
      rw [hcreate] at h hgiven
      cases r with
      | error err => cases h
      | ok u =>
        cases h
        refine ⟨cl, rfl, ?_, ?_, i, rfl⟩
        · cases hn : e.name with
          | none => rfl
          | some n =>
            rw [hn] at hname
            simpa using hname
        · unfold ClusterProtocol.takes
          change (createEndPoint true e.addressed cl.spec.protocol 0).1.isOk = true
          rw [← hgiven]
          rfl

theorem makeEndPoint_valid {cl : Cluster} (hcl : validName cl.name = true) {e : EndPointDef}
    (he : e.name.all validName = true) : validName (s.makeEndPoint cl e).name = true := by
  unfold makeEndPoint
  cases hn : e.name with
  | none => exact validName_append (validName_append hcl (by decide)) (toString_unspaced _)
  | some n =>
    rw [hn] at he
    exact he

theorem makeCluster_sound {n : String} {c : ClusterDef} {auto : Bool} (hn : validName n = true)
    (hc : createCluster (c.loadbalancer.map LoadBalancerDef.policy) c.spec.protocol = .ok ()) :
    (makeCluster n c auto).Sound := by
  refine ⟨hn, ⟨c, ?_, rfl, rfl⟩, fun e he => absurd he List.not_mem_nil⟩
  unfold ClusterDef.creatable
  rw [hc]
  rfl

theorem Cluster.Sound.push {cu : Cluster} (h : cu.Sound) {ep : EndPoint}
    (hep : cu.spec.protocol.takes ep.spec = true) :
    ({ cu with endpoints := cu.endpoints ++ [ep] } : Cluster).Sound :=
  ⟨h.name, h.made, forall_push h.endpoints hep⟩

theorem Cluster.Sound.drop {cu : Cluster} (h : cu.Sound) (n : String) :
    ({ cu with endpoints := remove EndPoint.name n cu.endpoints } : Cluster).Sound :=
  ⟨h.name, h.made, forall_remove n h.endpoints⟩

theorem Sound.addEndPoint {c : String} {e : EndPointDef} (hs : s.Sound)
    (h : s.addEndPoint c e = .ok t) : t.Sound := by
  obtain ⟨cl, hcl, hname, htakes, i, rfl⟩ := addEndPoint_ok h
  have hsound := hs.clusters cl (lookup_some hcl).1
  have hweight : (orElse e.weight (.num (.finite 1))).truthy = true := orElse_truthy _ (by decide)
  refine ⟨hs.listeners, ?_, hs.rules, hs.routes, ?_⟩
  · refine forall_modify hs.clusters (fun cu hcu => ?_)
    have hcu' : s.getCluster c = some cu := by
      rw [← hcu, ← (lookup_some hcl).2]
      rfl
    obtain rfl : cl = cu := Option.some.inj (hcl.symm.trans hcu')
    exact hsound.push htakes
  · exact forall_push hs.endpoints ⟨makeEndPoint_valid hsound.name hname, hweight⟩

/-- Every change keeps what the objects were checked for. -/
theorem Change.sound (h : Change s t) (hs : s.Sound) : t.Sound := by
  cases h with
  | setIndex i => exact ⟨hs.listeners, hs.clusters, hs.rules, hs.routes, hs.endpoints⟩
  | pushListener l hn hp =>
    exact { hs with listeners := forall_push hs.listeners ⟨hn, hp⟩ }
  | pushRuleList n auto name hn =>
    exact ⟨hs.listeners, hs.clusters, hs.rules, hs.routes, hs.endpoints⟩
  | insertRule list pos n | removeRule list pos | dropRuleList n =>
    exact ⟨hs.listeners, hs.clusters, hs.rules, hs.routes, hs.endpoints⟩
  | pushRule n r auto hn =>
    obtain ⟨-, hvalid, -⟩ := admitName_free hn
    exact { hs with rules := forall_push hs.rules ⟨hvalid, r.body, rfl⟩ }
  | resolveRoute n route =>
    exact { hs with rules := forall_modify hs.rules (fun r hr => hs.rules r (lookup_some hr).1) }
  | pushRoute r n destination ingress egress auto hn =>
    exact { hs with routes := forall_push hs.routes hn }
  | pushCluster n c auto hn hc =>
    obtain ⟨-, hvalid, -⟩ := admitName_free hn
    exact { hs with clusters := forall_push hs.clusters (makeCluster_sound hvalid hc) }
  | addEndPoint c e t h => exact hs.addEndPoint h
  | dropListener n => exact { hs with listeners := forall_remove n hs.listeners }
  | dropRule n => exact { hs with rules := forall_remove n hs.rules }
  | dropRoute n => exact { hs with routes := forall_remove n hs.routes }
  | dropCluster n => exact { hs with clusters := forall_remove n hs.clusters }
  | dropEndPoint n ep h =>
    refine ⟨hs.listeners, ?_, hs.rules, hs.routes, forall_remove n hs.endpoints⟩
    exact forall_modify hs.clusters (fun cu hcu => (hs.clusters cu (lookup_some hcu).1).drop n)

theorem Reachable.sound (h : Reachable s) : s.Sound := by
  induction h with
  | refl => exact ⟨nofun, nofun, nofun, nofun, nofun⟩
  | tail _ hchange ih => exact hchange.sound ih

/-! ### The add functions make changes -/

variable {run : Starts}

/-- One change after another. -/
abbrev Changes : Catalog → Catalog → Prop := ReflTransGen Change

theorem inlineName_changes {k : Kind} {base n : String} {name : Option String}
    (h : s.inlineName k base name = .ok (n, t)) : Changes s t := by
  obtain ⟨i, rfl, -, -⟩ := inlineName_ok h
  exact .single (.setIndex i)

theorem addEndPoints_changes {cu : String} {eps : List EndPointDef}
    (h : s.addEndPoints cu eps = .ok t) : Changes s t := by
  induction eps generalizing s with
  | nil =>
    cases h
    exact .refl
  | cons e rest ih =>
    obtain ⟨⟨n, s₁⟩, hname, h⟩ := bind_eq_ok h
    refine (inlineName_changes hname).trans ?_
    dsimp only at h
    cases hadd : s₁.addEndPoint cu { e with name := some n } with
    | error err =>
      rw [hadd] at h
      exact ih h
    | ok u =>
      rw [hadd] at h
      exact .head (.addEndPoint _ _ u hadd) (ih h)

theorem addCluster_changes {c : ClusterDef} {auto : Bool} (h : addCluster run c auto s = .ok t) :
    Changes s t := by
  obtain ⟨n, hname, h⟩ := bind_eq_ok h
  obtain ⟨⟨⟩, hcreate, h⟩ := bind_eq_ok h
  obtain ⟨u, hu, h⟩ := bind_eq_ok h
  obtain ⟨⟨⟩, -, h⟩ := bind_eq_ok h
  cases h
  exact .head (.pushCluster n c auto hname hcreate) (addEndPoints_changes hu)

theorem addRouteCluster_changes {base n : String} {c : Use ClusterDef}
    (h : addRouteCluster run base c s = .ok (n, t)) : Changes s t := by
  cases c with
  | named m =>
    cases h
    exact .refl
  | inline c =>
    obtain ⟨⟨m, s₁⟩, hname, h⟩ := bind_eq_ok h
    obtain ⟨t₁, hadd, h⟩ := bind_eq_ok h
    cases h
    exact (inlineName_changes hname).trans (addCluster_changes hadd)

theorem addRouteChain_changes {base : String} {cs : List (Use ClusterDef)} {ns : List String}
    (h : addRouteChain run base cs s = .ok (ns, t)) : Changes s t := by
  induction cs generalizing s ns with
  | nil =>
    cases h
    exact .refl
  | cons c rest ih =>
    obtain ⟨⟨n, s₁⟩, hhead, h⟩ := bind_eq_ok h
    obtain ⟨⟨ns₁, s₂⟩, hrest, h⟩ := bind_eq_ok h
    cases h
    exact (addRouteCluster_changes hhead).trans (ih hrest)

theorem addRoute_changes {r : RouteDef} {auto : Bool} (h : addRoute run r auto s = .ok t) :
    Changes s t := by
  obtain ⟨n, hname, h⟩ := bind_eq_ok h
  obtain ⟨⟨destination, s₁⟩, hdest, h⟩ := bind_eq_ok h
  obtain ⟨⟨ingress, s₂⟩, hing, h⟩ := bind_eq_ok h
  obtain ⟨⟨egress, s₃⟩, heg, h⟩ := bind_eq_ok h
  cases h
  obtain ⟨-, hvalid, -⟩ := admitName_free hname
  have hclusters : Changes s s₃ := (addRouteCluster_changes hdest).trans
    ((addRouteChain_changes hing).trans (addRouteChain_changes heg))
  exact hclusters.tail (.pushRoute r n destination ingress egress auto hvalid)

theorem addRule_changes {r : RuleDef} {auto : Bool} (h : addRule run r auto s = .ok t) :
    Changes s t := by
  obtain ⟨n, hname, h⟩ := bind_eq_ok h
  refine .head (.pushRule n r auto hname) ?_
  cases hr : r.route with
  | none =>
    rw [hr] at h
    cases h
    exact .refl
  | some ro =>
    rw [hr] at h
    cases ro with
    | named m =>
      cases h
      exact .refl
    | inline ro =>
      obtain ⟨⟨m, s₁⟩, hroute, h⟩ := bind_eq_ok h
      obtain ⟨s₂, hadd, h⟩ := bind_eq_ok h
      cases h
      exact ((inlineName_changes hroute).trans (addRoute_changes hadd)).tail (.resolveRoute n m)

theorem addRuleUse_changes {list n : String} {r : Use RuleDef}
    (h : addRuleUse run list r s = .ok (n, t)) : Changes s t := by
  cases r with
  | named m =>
    cases h
    exact .refl
  | inline r =>
    obtain ⟨⟨m, s₁⟩, hname, h⟩ := bind_eq_ok h
    obtain ⟨t₁, hadd, h⟩ := bind_eq_ok h
    cases h
    exact (inlineName_changes hname).trans (addRule_changes hadd)

theorem addRuleToRuleList_changes {list : String} {r : Use RuleDef} {pos : ℕ}
    (h : addRuleToRuleList run list r pos s = .ok t) : Changes s t := by
  unfold addRuleToRuleList at h
  cases hrl : s.getRuleList list with
  | none =>
    rw [hrl] at h
    cases h
  | some rl =>
    rw [hrl] at h
    dsimp only at h
    split_ifs at h
    obtain ⟨⟨n, s₁⟩, hrule, h⟩ := bind_eq_ok h
    cases h
    exact (addRuleUse_changes hrule).tail (.insertRule list pos n)

theorem addRules_changes {list : String} {pos : ℕ} {rs : List (Use RuleDef)}
    (h : addRules run list pos rs s = .ok t) : Changes s t := by
  induction rs generalizing s pos with
  | nil =>
    cases h
    exact .refl
  | cons r rest ih =>
    obtain ⟨s₁, hhead, h⟩ := bind_eq_ok h
    exact (addRuleToRuleList_changes hhead).trans (ih h)

/-- A listener that is added to a reachable store leaves a reachable store. -/
theorem addListener_changes {l : ListenerDef} {auto : Bool} (h : addListener run l auto s = .ok t) :
    Changes s t := by
  obtain ⟨n, hname, h⟩ := bind_eq_ok h
  obtain ⟨⟨⟩, hcreate, h⟩ := bind_eq_ok h
  obtain ⟨⟨list, s₁⟩, hlist, h⟩ := bind_eq_ok h
  obtain ⟨s₂, hadd, h⟩ := bind_eq_ok h
  obtain ⟨⟨⟩, -, h⟩ := bind_eq_ok h
  cases h
  obtain ⟨-, hvalid, -⟩ := admitName_free hname
  obtain ⟨m, hm, hadd⟩ := bind_eq_ok hadd
  have hrules : Changes s s₂ := (inlineName_changes hlist).trans
    (.head (.pushRuleList m true (some list) hm) (addRules_changes hadd))
  exact hrules.tail (.pushListener ⟨n, l.spec, list, auto⟩ hvalid hcreate)

end Catalog
end L7mp
