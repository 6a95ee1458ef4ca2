import L7mp.RelyGuarantee
import L7mp.StoreStable

/-! What the additions of the configuration API promise: the objects that a specification asks for,
and the changes that no addition goes beyond. -/
namespace L7mp
open Coroutine KeyedList

/-- The name that an object got: the given one, if there is one. -/
def NamedAs (name : Option String) (n : String) : Prop :=
  Store.needsName name = false → name = some n

namespace Store

/-- An endpoint of a cluster is there, or its refusal is one that nobody handled. -/
def HasEndPoint (cluster : String) (ep : EndPointSpec) (w : Store) : Prop :=
  ∃ m, NamedAs ep.name m ∧
    ((∃ cu ∈ w.clusters, cu.name = cluster ∧ (⟨m, cluster⟩ : EndPoint) ∈ cu.endpoints) ∨
      -- `addCluster` does not wait for `addEndPoint`, so it does not hear of an error
      ∃ (v : Store) (e : Err), (v.addEndPoint cluster { ep with name := some m }).1 = .error e ∧
        e ∈ w.rejections)

structure HasCluster (c : ClusterSpec) (n : String) (w : Store) : Prop where
  name : NamedAs c.name n
  cluster : ∃ cu ∈ w.clusters, cu.name = n ∧ c.spec = .ok cu.protocol
  endpoints : ∀ eps, c.endpoints = .ok eps → ∀ ep, .inline ep ∈ eps → w.HasEndPoint n ep

/-- What stands for a cluster in a route. -/
def HasClusterArg : ClusterArg → String → Store → Prop
  | .named c, n, _ => n = c
  | .inline c, n, w => w.HasCluster c n
  | .null, _, _ | .other, _, _ => False

structure ShowsRoute (r : RouteSpec) (ro : Route) (w : Store) : Prop where
  destination : w.HasClusterArg r.destination ro.destination
  ingress : List.Forall₂ (fun c n => w.HasClusterArg c n) r.ingress.toList ro.ingress
  egress : List.Forall₂ (fun c n => w.HasClusterArg c n) r.egress.toList ro.egress

def HasRoute (r : RouteSpec) (n : String) (w : Store) : Prop :=
  NamedAs r.name n ∧ ∃ ro ∈ w.routes, ro.name = n ∧ w.ShowsRoute r ro

/-- What stands for the route of an action in a rule that was added. -/
def HasRouteArg : Option RouteArg → RuleRoute → Store → Prop
  | none, route, _ => route = .absent
  | some (.named n), route, _ => route = .named n
  | some (.inline r), route, w => ∃ n, route = .named n ∧ w.HasRoute r n
  | some .other, _, _ => False

def HasRule (r : RuleSpec) (n : String) (w : Store) : Prop :=
  NamedAs r.name n ∧ ∃ action, r.action = .ok action ∧
    ∃ ru ∈ w.rules, ru.name = n ∧ w.HasRouteArg action ru.route

def HasRuleArg : RuleArg → String → Store → Prop
  | .named m, n, _ => n = m
  | .inline r, n, w => w.HasRule r n
  | .null, _, _ | .other, _, _ => False

/-- A rulelist with these rules, among others perhaps. -/
def HasRules (rules : List RuleArg) (n : String) (w : Store) : Prop :=
  ∃ rl ∈ w.rulelists, rl.name = n ∧ ∀ r ∈ rules, ∃ m ∈ rl.rules, w.HasRuleArg r m

def HasListenerRules : ListenerRules → String → Store → Prop
  | .named m, n, _ => n = m
  | .inline rules, n, w => w.HasRules rules n

def HasListener (l : ListenerSpec) (w : Store) : Prop :=
  ∃ li ∈ w.listeners, l.name = some li.name ∧ l.spec = .ok li.protocol ∧
    ∃ rules, l.rules = .ok rules ∧ w.HasListenerRules rules li.rules

end Store

/-- What a request is for, if it adds something. -/
def Request.Done : Request → Store → Prop
  | .addListener l, w => w.HasListener l
  | .addCluster c, w => ∃ n, c.name = some n ∧ w.HasCluster c n
  | .addRuleList r, w => ∃ n rules, r.name = some n ∧ r.rules = .ok rules ∧ w.HasRules rules n
  | .addRule r, w => ∃ n, r.name = some n ∧ w.HasRule r n
  | .addRuleToRuleList list rule _, w => w.HasRules [rule] list
  | .addRoute r, w => ∃ n, r.name = some n ∧ w.HasRoute r n
  | .addEndPoint c ep, w => ∃ n, (∀ m, ep.name = some m → n = m) ∧
    ∃ cu ∈ w.clusters, cu.name = c ∧ (⟨n, c⟩ : EndPoint) ∈ cu.endpoints
  | _, _ => True

/-- Requests that take nothing away. -/
def Request.additive : Request → Bool
  | .addListener _ | .addCluster _ | .addRuleList _ | .addRule _ | .addRuleToRuleList .. |
    .addRoute _ | .addEndPoint .. | .addSession .. | .session .. | .dropSession _ => true
  | _ => false

namespace Store

/-- The changes that additions consist of. A rule gets its route once. -/
structure Widens (w w' : Store) : Prop where
  listeners : ∀ l ∈ w.listeners, l ∈ w'.listeners
  clusters : ∀ c ∈ w.clusters, ∃ c' ∈ w'.clusters, c'.name = c.name ∧ c'.protocol = c.protocol ∧
    ∀ e ∈ c.endpoints, e ∈ c'.endpoints
  rulelists : ∀ rl ∈ w.rulelists, ∃ rl' ∈ w'.rulelists, rl'.id = rl.id ∧ rl'.name = rl.name ∧
    ∀ m ∈ rl.rules, m ∈ rl'.rules
  rules : ∀ r ∈ w.rules, ∃ r' ∈ w'.rules, r'.name = r.name ∧
    (r.route ≠ .unresolved → r'.route = r.route)
  routes : ∀ r ∈ w.routes, r ∈ w'.routes
  rejections : ∀ e ∈ w.rejections, e ∈ w'.rejections
  nextId : w.nextId ≤ w'.nextId

theorem Widens.refl (w : Store) : w.Widens w where
  listeners _ h := h
  clusters c h := ⟨c, h, rfl, rfl, fun _ he => he⟩
  rulelists rl h := ⟨rl, h, rfl, rfl, fun _ hm => hm⟩
  rules r h := ⟨r, h, rfl, fun _ => rfl⟩
  routes _ h := h
  rejections _ h := h
  nextId := Nat.le_refl _

theorem Widens.trans {w w' w'' : Store} (h : w.Widens w') (h' : w'.Widens w'') : w.Widens w'' where
  listeners l hl := h'.listeners l (h.listeners l hl)
  clusters c hc := by
    obtain ⟨c', hc', hname, hprotocol, heps⟩ := h.clusters c hc
    obtain ⟨c'', hc'', hname', hprotocol', heps'⟩ := h'.clusters c' hc'
    exact ⟨c'', hc'', hname'.trans hname, hprotocol'.trans hprotocol,
      fun e he => heps' e (heps e he)⟩
  rulelists rl hrl := by
    obtain ⟨rl', hrl', hid, hname, hrules⟩ := h.rulelists rl hrl
    obtain ⟨rl'', hrl'', hid', hname', hrules'⟩ := h'.rulelists rl' hrl'
    exact ⟨rl'', hrl'', hid'.trans hid, hname'.trans hname, fun m hm => hrules' m (hrules m hm)⟩
  rules r hr := by
    obtain ⟨r', hr', hname, hroute⟩ := h.rules r hr
    obtain ⟨r'', hr'', hname', hroute'⟩ := h'.rules r' hr'
    refine ⟨r'', hr'', hname'.trans hname, fun hne => ?_⟩
    have heq := hroute hne
    exact (hroute' (by rwa [heq])).trans heq
  routes r hr := h'.routes r (h.routes r hr)
  rejections e he := h'.rejections e (h.rejections e he)
  nextId := h.nextId.trans h'.nextId

/-- The ids of rules are used up. -/
def IdsUsed (w : Store) : Prop := ∀ r ∈ w.rules, r.id < w.nextId

/-- The rules with one id. -/
def rulesOf (w : Store) (id : ℕ) : List Rule := w.rules.filter (fun r => r.id = id)

/-- Whoever adds a rule owns its id. -/
def discipline : Discipline Store where
  inv := IdsUsed
  evolves := Widens
  stamp := Store.nextId
  leaves n w w' := w'.rulesOf n = w.rulesOf n
  refl := Widens.refl
  trans _ _ _ := Widens.trans
  stamp_le _ _ h := h.nextId
  leaves_refl _ _ := rfl
  leaves_trans _ _ _ _ h h' := h'.trans h

/-! What is there stays there. -/
section Widens

variable {w w' : Store} (h : w.Widens w')
include h

theorem HasEndPoint.widen {cluster : String} {ep : EndPointSpec} (he : w.HasEndPoint cluster ep) :
    w'.HasEndPoint cluster ep := by
  obtain ⟨m, hm, he⟩ := he
  refine ⟨m, hm, ?_⟩
  rcases he with ⟨cu, hcu, hname, hep⟩ | ⟨v, e, herr, he⟩
  · obtain ⟨cu', hcu', hname', -, heps⟩ := h.clusters cu hcu
    exact Or.inl ⟨cu', hcu', hname'.trans hname, heps _ hep⟩
  · exact Or.inr ⟨v, e, herr, h.rejections e he⟩

theorem HasCluster.widen {c : ClusterSpec} {n : String} (hc : w.HasCluster c n) :
    w'.HasCluster c n where
  name := hc.name
  cluster := by
    obtain ⟨cu, hcu, hname, hspec⟩ := hc.cluster
    obtain ⟨cu', hcu', hname', hprotocol, -⟩ := h.clusters cu hcu
    exact ⟨cu', hcu', hname'.trans hname, by rw [hprotocol]; exact hspec⟩
  endpoints eps heps ep hep := (hc.endpoints eps heps ep hep).widen h

theorem HasClusterArg.widen {c : ClusterArg} {n : String} (hc : w.HasClusterArg c n) :
    w'.HasClusterArg c n := by
  cases c with
  | inline c => exact HasCluster.widen h hc
  | _ => exact hc

theorem chain_widen {cs : List ClusterArg} {ns : List String}
    (hcs : List.Forall₂ (fun c n => w.HasClusterArg c n) cs ns) :
    List.Forall₂ (fun c n => w'.HasClusterArg c n) cs ns :=
  hcs.imp (fun _ _ hc => HasClusterArg.widen h hc)

theorem HasRoute.widen {r : RouteSpec} {n : String} (hr : w.HasRoute r n) : w'.HasRoute r n := by
  obtain ⟨hname, ro, hro, hn, hshows⟩ := hr
  refine ⟨hname, ro, h.routes ro hro, hn, ?_⟩
  exact ⟨hshows.destination.widen h, chain_widen h hshows.ingress, chain_widen h hshows.egress⟩

theorem HasRouteArg.widen {action : Option RouteArg} {route : RuleRoute}
    (ha : w.HasRouteArg action route) : w'.HasRouteArg action route := by
  rcases action with _ | (_ | r | _)
  · exact ha
  · exact ha
  · obtain ⟨n, hn, hr⟩ := ha
    exact ⟨n, hn, hr.widen h⟩
  · exact ha

omit h in
/-- The route of a rule that shows its action is not to come. -/
theorem HasRouteArg.resolved {action : Option RouteArg} {route : RuleRoute}
    (ha : w.HasRouteArg action route) : route ≠ .unresolved := by
  rcases action with _ | (_ | r | _)
  · rw [show route = .absent from ha]
    exact RuleRoute.noConfusion
  · rw [show route = .named _ from ha]
    exact RuleRoute.noConfusion
  · obtain ⟨n, hn, -⟩ := ha
    rw [hn]
    exact RuleRoute.noConfusion
  · exact ha.elim

theorem HasRule.widen {r : RuleSpec} {n : String} (hr : w.HasRule r n) : w'.HasRule r n := by
  obtain ⟨hname, action, haction, ru, hru, hn, hroute⟩ := hr
  obtain ⟨ru', hru', hn', hkept⟩ := h.rules ru hru
  refine ⟨hname, action, haction, ru', hru', hn'.trans hn, ?_⟩
  -- the route of the rule was set, and it is not set again
  rw [hkept hroute.resolved]
  exact hroute.widen h

theorem HasRuleArg.widen {r : RuleArg} {n : String} (hr : w.HasRuleArg r n) :
    w'.HasRuleArg r n := by
  cases r with
  | inline r => exact HasRule.widen h hr
  -- a name stands for itself, whether there is a rule of that name or not
  | _ => exact hr

theorem HasRules.widen {rules : List RuleArg} {n : String} (hr : w.HasRules rules n) :
    w'.HasRules rules n := by
  obtain ⟨rl, hrl, hn, hall⟩ := hr
  obtain ⟨rl', hrl', -, hn', hkept⟩ := h.rulelists rl hrl
  refine ⟨rl', hrl', hn'.trans hn, fun r hr => ?_⟩
  obtain ⟨m, hm, hrule⟩ := hall r hr
  exact ⟨m, hkept m hm, hrule.widen h⟩

theorem HasListenerRules.widen {rules : ListenerRules} {n : String}
    (hr : w.HasListenerRules rules n) : w'.HasListenerRules rules n := by
  cases rules with
  | inline rules => exact HasRules.widen h hr
  | named m => exact hr

theorem done_widen {r : Request} (hr : r.Done w) : r.Done w' := by
  cases r with
  | addListener l =>
    obtain ⟨li, hli, hname, hspec, rules, hrules, hlist⟩ := hr
    exact ⟨li, h.listeners li hli, hname, hspec, rules, hrules, hlist.widen h⟩
  | addCluster c =>
    obtain ⟨n, hn, hc⟩ := hr
    exact ⟨n, hn, hc.widen h⟩
  | addRuleList r =>
    obtain ⟨n, rules, hn, hrules, hlist⟩ := hr
    exact ⟨n, rules, hn, hrules, hlist.widen h⟩
  | addRule r =>
    obtain ⟨n, hn, hrule⟩ := hr
    exact ⟨n, hn, hrule.widen h⟩
  | addRuleToRuleList list rule pos => exact HasRules.widen h hr
  | addRoute r =>
    obtain ⟨n, hn, hroute⟩ := hr
    exact ⟨n, hn, hroute.widen h⟩
  | addEndPoint c ep =>
    obtain ⟨n, hn, cu, hcu, hname, hep⟩ := hr
    obtain ⟨cu', hcu', hname', -, heps⟩ := h.clusters cu hcu
    exact ⟨n, hn, cu', hcu', hname'.trans hname, heps _ hep⟩
  | _ => exact trivial

end Widens

end Store
end L7mp
