import L7mp.CatalogAccept

/-! A dump that is complete can be added to an empty store, and what it gives there is what was
dumped, apart from wildcards, keys of hash rings and endpoints that share their names. -/
namespace L7mp
open Aborting KeyedList Js

/-! ### What is read back -/

theorem orElse_some {v d : Value} (hv : v.truthy = true) : orElse (some v) d = v := by
  simp [orElse, Option.filter, hv]

theorem orElse_orElse (x : Option Value) (d : Value) :
    orElse (some (orElse x d)) d = orElse x d := by
  cases hx : x.filter Value.truthy with
  | none =>
    have : orElse x d = d := by simp [orElse, hx]
    rw [this]
    by_cases hd : d.truthy = true
    · exact orElse_some hd
    · simp [orElse, Option.filter, hd]
  | some v =>
    have : orElse x d = v := by simp [orElse, hx]
    rw [this]
    exact orElse_some (Option.filter_eq_some_iff.mp hx).2

/-- A constructor writes the same `spec` again. -/
theorem made_made (c : ClusterSettings) : c.made.made = c.made := by
  obtain ⟨p, fields⟩ := c
  cases p with
  | logger => simp [ClusterSettings.made, List.lookup_cons, orElse_orElse]
  | sync =>
    unfold ClusterSettings.made
    cases fields.lookup "query" <;> rfl
  | test | http | webSocket | udp | tcp | unixDomainSocket | jsonSocket | jsonSocketBare | stdio
  | echo | discard | jsonEncap | jsonDecap | l7mpController | prometheus | metric | other => rfl

theorem create_toJSON (l : Option LoadBalancerDef) :
    LoadBalancer.create (some (LoadBalancer.create l).toJSON) = LoadBalancer.create l ↔
      LoadBalancer.create l ≠ .hashRing none := by
  cases hl : LoadBalancer.create l with
  | none => simp [LoadBalancer.toJSON, LoadBalancer.create]
  | trivial => simp [LoadBalancer.toJSON, LoadBalancer.create]
  | hashRing key =>
    cases key with
    | none => simp [LoadBalancer.toJSON, LoadBalancer.create]
    | some k =>
      have hk : k ≠ "" := by
        cases l with
        | none => cases hl
        | some l =>
          unfold LoadBalancer.create at hl
          dsimp only at hl
          split_ifs at hl
          have hfilter := LoadBalancer.hashRing.inj hl
          simpa using (Option.filter_eq_some_iff.mp hfilter).2
      simp [LoadBalancer.toJSON, LoadBalancer.create, hk]

/-- A load balancer is read back from its JSON unless it is a hash ring without a key. -/
theorem loadBalancer_toJSON (p : ClusterProtocol) (l : Option LoadBalancerDef) :
    p.loadBalancer (some (p.loadBalancer l).toJSON) = p.loadBalancer l ↔
      p.loadBalancer l ≠ .hashRing none := by
  induction p generalizing l with
  | stdio | logger | sync | l7mpController | echo | discard | jsonEncap | jsonDecap | prometheus
  | metric => simp [ClusterProtocol.loadBalancer]
  | jsonSocket transport ih => exact ih (some (l.getD ⟨some "Trivial", none⟩))
  | test | http | webSocket | udp | tcp | unixDomainSocket | jsonSocketBare
  | other => exact create_toJSON l

/-- `Cluster.create` looks at nothing but the policy of the load balancer. -/
theorem createCluster_of_policy {l l' : Option (Option String)} {p : ClusterProtocol}
    (hl : createLoadBalancer l' = .ok ()) (h : createCluster l p = .ok ()) :
    createCluster l' p = .ok () := by
  induction p with
  | test | webSocket | udp | tcp | unixDomainSocket => exact hl
  | jsonSocket transport ih =>
    unfold createCluster at h ⊢
    rw [hl]
    cases hp : createLoadBalancer l with
    | error e =>
      rw [hp] at h
      cases h
    | ok u =>
      rw [hp] at h
      exact ih h
  | http => cases h
  | other => cases h
  | jsonSocketBare =>
    unfold createCluster at h
    cases hp : createLoadBalancer l with
    | error e =>
      rw [hp] at h
      cases h
    | ok u =>
      rw [hp] at h
      cases h
  | stdio | echo | discard | logger | jsonEncap | jsonDecap | sync | l7mpController | prometheus
  | metric => rfl

theorem createLoadBalancer_toJSON (l : LoadBalancer) :
    createLoadBalancer (some l.toJSON.policy) = .ok () := by
  cases l <;> simp [LoadBalancer.toJSON, createLoadBalancer]

/-- What a match is read back as from its JSON. -/
def Match.reread : Match → Match
  | .wildcard => .jsonPredicate wildcardJSON
  | .jsonPredicate m => .jsonPredicate m

theorem matcher_toJSON (b : RuleBody) (a : Option Value) (r : Option (List Rewrite)) :
    (⟨some b.matcher.toJSON, a, r⟩ : RuleBody).matcher = b.matcher.reread := by
  cases hb : b.matcher with
  | wildcard => rfl
  | jsonPredicate m =>
    have hcreate : Match.create ((b.match_.filter Value.truthy).getD (.str "*")) =
      .jsonPredicate m := hb
    cases hv : b.match_.filter Value.truthy with
    | none =>
      rw [hv] at hcreate
      cases hcreate
    | some v =>
      rw [hv] at hcreate
      have htruthy : v.truthy = true := (Option.filter_eq_some_iff.mp hv).2
      have hm : v = m := by
        cases v with
        | str x => cases hcreate
        | null | bool | num | node => exact Match.jsonPredicate.inj hcreate
      subst hm
      have hfilter : (some v).filter Value.truthy = some v := by simp [Option.filter, htruthy]
      unfold RuleBody.matcher Match.toJSON Match.reread
      dsimp only
      rw [hfilter]
      exact hcreate

theorem reread_accepts {test : Value → Value → Bool} {metadata : Value} {m : Match}
    (h : m.reread.accepts test metadata = true) : m.accepts test metadata = true := by
  cases m with
  | wildcard => rfl
  | jsonPredicate m => exact h

/-! ### The first position -/

/-- A predicate that holds less often finds the same first position exactly if it holds there. -/
theorem findIdx_eq_iff {α : Type} {p q : α → Bool} {l : List α}
    (hle : ∀ a ∈ l, q a = true → p a = true) :
    l.findIdx? q = l.findIdx? p ↔ ∀ i a, l.findIdx? p = some i → l[i]? = some a → q a = true := by
  induction l with
  | nil => simp
  | cons a l ih =>
    obtain ⟨ha, hl⟩ := List.forall_mem_cons.mp hle
    rw [List.findIdx?_cons, List.findIdx?_cons]
    by_cases hp : p a = true
    · rw [if_pos hp]
      constructor
      · intro h i b hi hb
        obtain rfl := Option.some.inj hi
        obtain rfl : a = b := by simpa using hb
        by_contra hq
        rw [if_neg hq] at h
        simp at h
      · intro h
        rw [if_pos (h 0 a rfl rfl)]
    · have hq : ¬q a = true := fun hq => hp (ha hq)
      rw [if_neg hp, if_neg hq, (Option.map_injective (Nat.succ_injective)).eq_iff, ih hl]
      constructor
      · intro h i b hi hb
        obtain ⟨j, hj, rfl⟩ := Option.map_eq_some_iff.mp hi
        exact h j b hj (by simpa using hb)
      · intro h i b hi hb
        exact h (i+1) b (by rw [hi]; rfl) (by simpa using hb)

namespace Catalog

/-- A use is the inline object that belongs to the name. -/
def Resolves {α : Type} (D : String → α → Prop) (n : String) (u : Use α) : Prop :=
  ∃ a, u = .inline a ∧ D n a

section Resolves

variable {α : Type} {D : String → α → Prop} {ns : List String} {us : List (Use α)}

theorem resolves_labels {name : α → Option String} (hname : ∀ n a, D n a → name a = some n)
    (h : List.Forall₂ (Resolves D) ns us) : us.map (Use.label name) = ns := by
  induction h with
  | nil => rfl
  | cons hu _ ih =>
    obtain ⟨a, rfl, ha⟩ := hu
    rw [List.map_cons, ih]
    change label (name a) :: _ = _
    rw [hname _ _ ha]
    rfl

theorem forall₂_resolves {f : String → Except Err (Use α)}
    (hf : ∀ n u, f n = .ok u → u.isInline = true → Resolves D n u) (h : ns.mapM f = .ok us)
    (hus : ∀ u ∈ us, u.isInline = true) : List.Forall₂ (Resolves D) ns us := by
  have hall := mapM_eq_ok h
  clear h
  induction hall with
  | nil => exact .nil
  | cons hu _ ih =>
    obtain ⟨hinline, hrest⟩ := List.forall_mem_cons.mp hus
    exact .cons (hf _ _ hu hinline) (ih hrest)

theorem resolves_mem (h : List.Forall₂ (Resolves D) ns us) {n : String} (hn : n ∈ ns) :
    ∃ a ∈ us.flatMap Use.toList, D n a := by
  induction h with
  | nil => cases hn
  | cons hu _ ih =>
    obtain ⟨a, rfl, ha⟩ := hu
    rcases List.mem_cons.mp hn with rfl | hn
    · exact ⟨a, List.mem_cons_self, ha⟩
    · obtain ⟨b, hb, hD⟩ := ih hn
      exact ⟨b, List.mem_cons_of_mem _ hb, hD⟩

theorem mem_resolves (h : List.Forall₂ (Resolves D) ns us) {a : α}
    (ha : a ∈ us.flatMap Use.toList) : ∃ n ∈ ns, D n a := by
  induction h with
  | nil => cases ha
  | cons hu _ ih =>
    obtain ⟨b, rfl, hb⟩ := hu
    rcases List.mem_cons.mp ha with rfl | ha
    · exact ⟨_, List.mem_cons_self, hb⟩
    · obtain ⟨n, hn, hD⟩ := ih ha
      exact ⟨n, List.mem_cons_of_mem _ hn, hD⟩

end Resolves

/-! ### What a dump has -/

variable {s t : Catalog}

theorem dumpUse_inline {α β : Type} {found : Option α} {n : String} {dump : α → Except Err β}
    {u : Use β} (h : dumpUse found n dump = .ok u) (hu : u.isInline = true) :
    ∃ a b, found = some a ∧ dump a = .ok b ∧ u = .inline b := by
  cases found with
  | none =>
    cases h
    cases hu
  | some a =>
    obtain ⟨b, hb, h⟩ := bind_eq_ok h
    cases h
    exact ⟨a, b, rfl, hb, rfl⟩

theorem dumpEndPoint_ok {n : String} {e : EndPointDef} (h : s.dumpEndPoint n = .ok e) :
    ∃ ep, s.getEndPoint n = some ep ∧ e = ⟨some n, ep.spec, some ep.weight⟩ := by
  unfold dumpEndPoint at h
  cases hep : s.getEndPoint n with
  | none =>
    rw [hep] at h
    cases h
  | some ep =>
    rw [hep] at h
    cases h
    rw [(lookup_some hep).2]
    exact ⟨ep, rfl, rfl⟩

/-- What was dumped for cluster `n`. -/
structure DumpsCluster (s : Catalog) (n : String) (cu : Cluster) (d : ClusterDef) : Prop where
  found : s.getCluster n = some cu
  name : d.name = some n
  spec : d.spec = cu.spec
  loadbalancer : d.loadbalancer = some cu.loadbalancer.toJSON
  endpoints : s.dumpEndPoints cu = .ok d.endpoints

theorem dumpCluster_ok {n : String} {d : ClusterDef} (h : s.dumpCluster n = .ok d) :
    ∃ cu, s.DumpsCluster n cu d := by
  unfold dumpCluster at h
  cases hcu : s.getCluster n with
  | none =>
    rw [hcu] at h
    cases h
  | some cu =>
    rw [hcu] at h
    obtain ⟨eps, heps, h⟩ := bind_eq_ok h
    cases h
    exact ⟨cu, hcu, congrArg some (lookup_some hcu).2, rfl, rfl, heps⟩

theorem dumpRouteCluster_ok {n : String} {u : Use ClusterDef} (h : s.dumpRouteCluster n = .ok u)
    (hu : u.isInline = true) : Resolves (fun n d => s.dumpCluster n = .ok d) n u := by
  obtain ⟨cu, d, hcu, hd, rfl⟩ := dumpUse_inline h hu
  rw [(lookup_some hcu).2] at hd
  exact ⟨d, rfl, hd⟩

/-- The names of the clusters of a route. -/
def clusterNames (r : Route) : List String := r.destination :: (r.ingress ++ r.egress)

/-- What was dumped for route `n`, if all of its clusters were found. -/
structure DumpsRoute (s : Catalog) (n : String) (ro : Route) (d : RouteDef) : Prop where
  found : s.getRoute n = some ro
  name : d.name = some n
  destination : Resolves (fun n c => s.dumpCluster n = .ok c) ro.destination d.destination
  ingress : List.Forall₂ (Resolves (fun n c => s.dumpCluster n = .ok c)) ro.ingress d.ingress
  egress : List.Forall₂ (Resolves (fun n c => s.dumpCluster n = .ok c)) ro.egress d.egress
  retry : d.retry = some ro.retry

theorem dumpRoute_ok {n : String} {d : RouteDef} (h : s.dumpRoute n = .ok d)
    (hd : ∀ u ∈ d.uses, u.isInline = true) : ∃ ro, s.DumpsRoute n ro d := by
  unfold dumpRoute at h
  cases hro : s.getRoute n with
  | none =>
    rw [hro] at h
    cases h
  | some ro =>
    rw [hro] at h
    obtain ⟨destination, hdest, h⟩ := bind_eq_ok h
    obtain ⟨ingress, hing, h⟩ := bind_eq_ok h
    obtain ⟨egress, heg, h⟩ := bind_eq_ok h
    cases h
    refine ⟨ro, hro, congrArg some (lookup_some hro).2, ?_, ?_, ?_, rfl⟩
    · exact dumpRouteCluster_ok hdest (hd _ List.mem_cons_self)
    · exact forall₂_resolves (fun _ _ => dumpRouteCluster_ok) hing (fun u hu =>
        hd u (List.mem_cons_of_mem _ (List.mem_append_left _ hu)))
    · exact forall₂_resolves (fun _ _ => dumpRouteCluster_ok) heg (fun u hu =>
        hd u (List.mem_cons_of_mem _ (List.mem_append_right _ hu)))

theorem DumpsRoute.uses {n : String} {ro : Route} {d : RouteDef} (h : s.DumpsRoute n ro d) :
    List.Forall₂ (Resolves (fun n c => s.dumpCluster n = .ok c)) (clusterNames ro) d.uses :=
  .cons h.destination (List.rel_append h.ingress h.egress)

/-- What was dumped for rule `n`. -/
structure DumpsRule (s : Catalog) (n : String) (ru : Rule) (d : RuleDef) : Prop where
  found : s.getRule n = some ru
  name : d.name = some n
  body : d.body = ⟨some ru.matcher.toJSON, ru.apply.filter Value.truthy, ru.rewrite⟩
  route : s.dumpRuleRoute ru.route = .ok d.route

theorem dumpRule_ok {n : String} {d : RuleDef} (h : s.dumpRule n = .ok d) :
    ∃ ru, s.DumpsRule n ru d := by
  unfold dumpRule at h
  cases hru : s.getRule n with
  | none =>
    rw [hru] at h
    cases h
  | some ru =>
    rw [hru] at h
    obtain ⟨route, hroute, h⟩ := bind_eq_ok h
    cases h
    exact ⟨ru, hru, congrArg some (lookup_some hru).2, rfl, hroute⟩

/-- What was dumped for listener `n`, if all of its rules were found. -/
structure DumpsListener (s : Catalog) (n : String) (li : Listener) (rl : RuleList)
    (l : ListenerDef) : Prop where
  found : s.getListener n = some li
  name : l.name = some n
  spec : l.spec = li.spec
  rulelist : s.getRuleList li.rules = some rl
  rules : List.Forall₂ (Resolves (fun n r => s.dumpRule n = .ok r)) rl.rules l.rules

theorem dumpListener_ok {n : String} {l : ListenerDef} (h : s.dumpListener n = .ok l.dumped)
    (hl : ∀ u ∈ l.rules, u.isInline = true) : ∃ li rl, s.DumpsListener n li rl l := by
  unfold dumpListener at h
  cases hli : s.getListener n with
  | none =>
    rw [hli] at h
    cases h
  | some li =>
    rw [hli] at h
    obtain ⟨rules, hrules, h⟩ := bind_eq_ok h
    obtain ⟨hname, hspec, hr⟩ := ListenerDump.mk.inj (Except.ok.inj h)
    subst hr
    obtain ⟨rl, us, hrl, hus, husl⟩ := dumpUse_inline hrules rfl
    obtain rfl : l.rules = us := Use.inline.inj husl
    unfold dumpRuleList at hus
    rw [(lookup_some hrl).2, hrl] at hus
    refine ⟨li, rl, hli, ?_, hspec.symm, hrl, forall₂_resolves (fun k u hu hinline => ?_) hus hl⟩
    · rw [← (lookup_some hli).2]
      exact hname.symm
    · obtain ⟨ru, d, hru, hd, rfl⟩ := dumpUse_inline hu hinline
      rw [(lookup_some hru).2] at hd
      exact ⟨d, rfl, hd⟩

theorem dumpRuleRoute_inline {r : RuleRoute} {d : RouteDef}
    (h : s.dumpRuleRoute r = .ok (some (.inline d))) :
    ∃ m, r = .named m ∧ m ≠ "" ∧ s.dumpRoute m = .ok d := by
  cases r with
  | absent => cases h
  | unresolved => cases h
  | named m =>
    unfold dumpRuleRoute at h
    dsimp only at h
    split_ifs at h with hm
    · cases h
    · obtain ⟨u, hu, h⟩ := bind_eq_ok h
      cases h
      obtain ⟨ro, d', hro, hd, hinline⟩ := dumpUse_inline hu rfl
      cases hinline
      rw [(lookup_some hro).2] at hd
      exact ⟨m, rfl, hm, hd⟩

theorem dumpRuleRoute_none {r : RuleRoute} (h : s.dumpRuleRoute r = .ok none) :
    r = .absent ∨ r = .named "" := by
  cases r with
  | absent => exact .inl rfl
  | unresolved => cases h
  | named m =>
    unfold dumpRuleRoute at h
    dsimp only at h
    split_ifs at h with hm
    · exact .inr (congrArg RuleRoute.named hm)
    · obtain ⟨u, -, h⟩ := bind_eq_ok h
      cases h

section Listener

variable {n : String} {li : Listener} {rl : RuleList} {l : ListenerDef}

theorem DumpsListener.rule (h : s.DumpsListener n li rl l) {r : RuleDef} (hr : r ∈ l.ruleDefs) :
    ∃ k ∈ rl.rules, ∃ ru, s.DumpsRule k ru r := by
  obtain ⟨k, hk, hdump⟩ := mem_resolves h.rules hr
  exact ⟨k, hk, dumpRule_ok hdump⟩

theorem DumpsListener.route (h : s.DumpsListener n li rl l) (hl : l.Whole) {d : RouteDef}
    (hd : d ∈ l.routeDefs) : ∃ m ro, s.DumpsRoute m ro d := by
  obtain ⟨r, hr, hdr⟩ := List.mem_flatMap.mp hd
  obtain ⟨k, -, ru, hru⟩ := h.rule hr
  obtain ⟨u, hu, hdu⟩ := List.mem_flatMap.mp hdr
  have hroute : r.route = some u := by simpa using hu
  cases u with
  | named m => cases hdu
  | inline d' =>
    obtain rfl : d = d' := List.mem_singleton.mp hdu
    have hdump := hru.route
    rw [hroute] at hdump
    obtain ⟨m, -, -, hm⟩ := dumpRuleRoute_inline hdump
    obtain ⟨ro, hro⟩ := dumpRoute_ok hm (hl.clusters d hd)
    exact ⟨m, ro, hro⟩

theorem DumpsListener.cluster (h : s.DumpsListener n li rl l) (hl : l.Whole) {c : ClusterDef}
    (hc : c ∈ l.clusterDefs) : ∃ m cu, s.DumpsCluster m cu c := by
  obtain ⟨d, hd, hcd⟩ := List.mem_flatMap.mp hc
  obtain ⟨m, ro, hro⟩ := h.route hl hd
  obtain ⟨k, -, hk⟩ := mem_resolves hro.uses hcd
  obtain ⟨cu, hcu⟩ := dumpCluster_ok hk
  exact ⟨k, cu, hcu⟩

/-! ### A dump can be taken -/

theorem DumpsCluster.sturdy {m : String} {cu : Cluster} {c : ClusterDef}
    (h : s.DumpsCluster m cu c) (hs : s.Sound) : c.Sturdy := by
  obtain ⟨hmem, hname⟩ := lookup_some h.found
  have hsound := hs.clusters cu hmem
  obtain ⟨c₀, hc₀, hspec, -⟩ := hsound.made
  have hvalid : validName m = true := hname ▸ hsound.name
  refine ⟨⟨m, h.name, hvalid⟩, ?_, fun e he => ?_⟩
  · have hcreate : createCluster (c₀.loadbalancer.map LoadBalancerDef.policy) c₀.spec.protocol =
        .ok () := by
      unfold ClusterDef.creatable at hc₀
      cases hr : createCluster (c₀.loadbalancer.map LoadBalancerDef.policy) c₀.spec.protocol with
      | error err =>
        rw [hr] at hc₀
        cases hc₀
      | ok u => rfl
    have hprotocol : c.spec.protocol = c₀.spec.protocol := by
      rw [h.spec, hspec]
      rfl
    unfold ClusterDef.creatable
    rw [hprotocol, h.loadbalancer]
    change (createCluster (some cu.loadbalancer.toJSON.policy) c₀.spec.protocol).isOk = true
    rw [createCluster_of_policy (createLoadBalancer_toJSON _) hcreate]
    rfl
  · have hdump := h.endpoints
    unfold dumpEndPoints at hdump
    split_ifs at hdump with hvirtual
    · obtain rfl : e = virtualEndPoint cu := by
        rw [← Except.ok.inj hdump] at he
        exact List.mem_singleton.mp he
      exact ⟨cu.name, rfl, hsound.name⟩
    · obtain ⟨x, -, hx⟩ := mem_of_mapM hdump he
      obtain ⟨ep, hep, rfl⟩ := dumpEndPoint_ok hx
      obtain ⟨hepmem, hepname⟩ := lookup_some hep
      exact ⟨x.name, rfl, hepname ▸ (hs.endpoints ep hepmem).1⟩

theorem DumpsListener.sturdy (h : s.DumpsListener n li rl l) (hs : s.Sound) (hl : l.Whole) :
    l.Sturdy := by
  obtain ⟨hmem, hname⟩ := lookup_some h.found
  obtain ⟨hvalid, hcreate⟩ := hs.listeners li hmem
  refine ⟨⟨n, h.name, hname ▸ hvalid⟩, ?_, fun r hr => ?_, fun d hd => ?_, fun c hc => ?_⟩
  · rw [h.spec]
    exact hcreate
  · obtain ⟨k, -, ru, hru⟩ := h.rule hr
    obtain ⟨hru', hk⟩ := lookup_some hru.found
    exact ⟨k, hru.name, hk ▸ (hs.rules ru hru').1⟩
  · obtain ⟨m, ro, hro⟩ := h.route hl hd
    obtain ⟨hro', hm⟩ := lookup_some hro.found
    exact ⟨m, hro.name, hm ▸ hs.routes ro hro'⟩
  · obtain ⟨m, cu, hcu⟩ := h.cluster hl hc
    exact hcu.sturdy hs

end Listener

/-! ### What a session finds in the restored store -/

/-- The cluster can be restored: its hash ring has a key, and each of its endpoints is like the
first one that has its name. -/
structure Restores (s : Catalog) (cu : Cluster) : Prop where
  keyed : cu.loadbalancer ≠ .hashRing none
  endpoints : ∀ e ∈ cu.endpoints, ∃ ep, s.getEndPoint e.name = some ep ∧ ep.spec = e.spec ∧
    ep.weight = e.weight

/-- Name, `spec` and weight of an endpoint object. -/
def EndPoint.view (e : EndPoint) : String × Fields × Value := (e.name, e.spec, e.weight)

/-- Endpoints that are dumped by their names come out as they are exactly if they are like the
first ones of these names. -/
theorem built_views_iff (hs : s.Sound) (cluster : String) {xs : List EndPoint}
    {es : List EndPointDef} (h : List.Forall₂ (fun x e => s.dumpEndPoint x.name = .ok e) xs es) :
    es.map (fun e => (e.built cluster).view) = xs.map EndPoint.view ↔
      ∀ x ∈ xs, ∃ ep, s.getEndPoint x.name = some ep ∧ ep.spec = x.spec ∧ ep.weight = x.weight := by
  induction h with
  | nil => simp
  | @cons x e xs es hx _ ih =>
    obtain ⟨ep, hep, rfl⟩ := dumpEndPoint_ok hx
    have hweight := (hs.endpoints ep (lookup_some hep).1).2
    have hview : ((⟨some x.name, ep.spec, some ep.weight⟩ : EndPointDef).built cluster).view =
        (x.name, ep.spec, ep.weight) := by
      unfold EndPointDef.built EndPoint.view
      dsimp only
      rw [orElse_some hweight]
      rfl
    rw [List.map_cons, List.map_cons, List.forall_mem_cons, List.cons.injEq, ih, hview]
    refine and_congr_left (fun _ => ⟨fun heq => ?_, ?_⟩)
    · obtain ⟨-, heq⟩ := Prod.mk.inj heq
      obtain ⟨hspec, hw⟩ := Prod.mk.inj heq
      exact ⟨ep, hep, hspec, hw⟩
    · rintro ⟨ep', hep', hspec, hw⟩
      obtain rfl : ep = ep' := Option.some.inj (hep.symm.trans hep')
      unfold EndPoint.view
      rw [hspec, hw]

section Cluster

variable {m : String} {cu : Cluster} {c : ClusterDef}

theorem DumpsCluster.taken_views_iff (h : s.DumpsCluster m cu c) (hs : s.Sound) (cluster : String) :
    c.taken.map (fun e => (e.built cluster).view) = cu.endpoints.map EndPoint.view ↔
      ∀ x ∈ cu.endpoints, ∃ ep, s.getEndPoint x.name = some ep ∧ ep.spec = x.spec ∧
        ep.weight = x.weight := by
  have hsound := hs.clusters cu (lookup_some h.found).1
  have hdump := h.endpoints
  unfold dumpEndPoints at hdump
  split_ifs at hdump with hvirtual
  · have hnone : cu.endpoints = [] := by
      refine List.eq_nil_iff_forall_not_mem.mpr (fun x hx => ?_)
      have := hsound.endpoints x hx
      rw [takes_virtual hvirtual] at this
      cases this
    have htaken : c.taken = [] := by
      refine List.filter_eq_nil_iff.mpr (fun e _ => ?_)
      rw [h.spec, takes_virtual hvirtual]
      exact Bool.false_ne_true
    simp [hnone, htaken]
  · have hall := mapM_eq_ok hdump
    have hviews := built_views_iff hs cluster hall
    constructor
    · intro heq
      have hlength : c.taken.length = c.endpoints.length := by
        have := congrArg List.length heq
        rw [List.length_map, List.length_map] at this
        rw [this, hall.length_eq]
      have htaken : c.taken = c.endpoints := List.filter_sublist.eq_of_length hlength
      rw [htaken] at heq
      exact hviews.mp heq
    · intro hlike
      have htaken : c.taken = c.endpoints := by
        refine List.filter_eq_self.mpr (fun e he => ?_)
        obtain ⟨x, hx, hxe⟩ := mem_of_mapM hdump he
        obtain ⟨ep, hep, rfl⟩ := dumpEndPoint_ok hxe
        obtain ⟨ep', hep', hspec, -⟩ := hlike x hx
        obtain rfl : ep = ep' := Option.some.inj (hep.symm.trans hep')
        rw [h.spec]
        change cu.spec.protocol.takes ep.spec = true
        rw [hspec]
        exact hsound.endpoints x hx
      rw [htaken]
      exact hviews.mpr hlike

theorem DumpsCluster.view_iff (h : s.DumpsCluster m cu c) (hs : s.Sound)
    (ht : t.getCluster m = some (c.built true)) :
    t.viewCluster m = s.viewCluster m ↔ s.Restores cu := by
  obtain ⟨c₀, -, hspec, hbalancer⟩ := (hs.clusters cu (lookup_some h.found).1).made
  have hmade : c.spec.made = cu.spec := by rw [h.spec, hspec, made_made]
  have hprotocol : c.spec.protocol = c₀.spec.protocol := by
    rw [h.spec, hspec]
    rfl
  have hkeyed : c.spec.protocol.loadBalancer c.loadbalancer = cu.loadbalancer ↔
      cu.loadbalancer ≠ .hashRing none := by
    rw [h.loadbalancer, hprotocol, hbalancer]
    exact loadBalancer_toJSON _ _
  have hviews := h.taken_views_iff hs (label c.name)
  have hleft : t.viewCluster m = some ⟨c.spec.made, c.spec.protocol.loadBalancer c.loadbalancer,
      c.taken.map (fun e => (e.built (label c.name)).view)⟩ := by
    unfold viewCluster
    rw [ht]
    change some (ClusterView.mk _ _ ((c.taken.map (EndPointDef.built _)).map EndPoint.view)) = _
    rw [List.map_map]
    rfl
  have hright : s.viewCluster m = some ⟨cu.spec, cu.loadbalancer,
      cu.endpoints.map EndPoint.view⟩ := by
    unfold viewCluster
    rw [h.found]
    rfl
  rw [hleft, hright, Option.some.injEq, ClusterView.mk.injEq, hmade, hkeyed, hviews]
  exact ⟨fun heq => ⟨heq.2.1, heq.2.2⟩, fun hr => ⟨rfl, hr.keyed, hr.endpoints⟩⟩

end Cluster

theorem DumpsRoute.view_iff {m : String} {ro : Route} {d : RouteDef} (h : s.DumpsRoute m ro d)
    (ht : t.getRoute m = some (d.built true)) : t.viewRoute m = s.viewRoute m ↔
      ∀ k ∈ clusterNames ro, t.viewCluster k = s.viewCluster k := by
  have hname (k : String) (c : ClusterDef) (hc : s.dumpCluster k = .ok c) : c.name = some k := by
    obtain ⟨cu, hcu⟩ := dumpCluster_ok hc
    exact hcu.name
  have hdest : d.destination.label ClusterDef.name = ro.destination := by
    have := resolves_labels hname (.cons h.destination .nil)
    exact (List.cons.inj this).1
  have hbuilt : d.built true =
      ⟨label d.name, ro.destination, ro.ingress, ro.egress, ro.retry, true⟩ := by
    unfold RouteDef.built makeRoute
    rw [hdest, resolves_labels hname h.ingress, resolves_labels hname h.egress, h.retry]
    rfl
  unfold viewRoute
  rw [ht, h.found, hbuilt]
  dsimp only [Option.map_some]
  rw [Option.some.injEq, RouteView.mk.injEq, List.map_inj_left, List.map_inj_left]
  unfold clusterNames
  rw [List.forall_mem_cons, List.forall_mem_append]
  exact ⟨fun heq => ⟨heq.1, heq.2.1, heq.2.2.1⟩, fun heq => ⟨heq.1, heq.2.1, heq.2.2, rfl⟩⟩

/-- The names of the clusters that a rule leads to. -/
def ruleClusters (s : Catalog) (r : Rule) : List String :=
  match r.route with
  | .named m => (s.getRoute m).elim [] clusterNames
  | _ => []

/-- The names of the clusters that a listener leads to. -/
def clustersOf (s : Catalog) (n : String) : List String :=
  (s.rulesOf n).flatMap (fun k => (s.getRule k).elim [] s.ruleClusters)

theorem getRoute_empty (hs : s.Sound) : s.getRoute "" = none := by
  refine lookup_eq_none.mpr (fun r hr hname => ?_)
  have hvalid := hs.routes r hr
  rw [hname] at hvalid
  exact absurd hvalid (by decide)

section Taken

variable {n : String} {li : Listener} {rl : RuleList} {l : ListenerDef}

theorem lookup_built {α β : Type} {key : β → String} {name : α → Option String} {build : α → β}
    (hkey : ∀ a, key (build a) = label (name a)) {as : List α}
    (hnamed : ∀ a ∈ as, Named (name a)) (h : (as.map name).Nodup) {a : α} (ha : a ∈ as) {k : String}
    (hk : name a = some k) : lookup key k (as.map build) = some (build a) := by
  have hdistinct : Distinct key (as.map build) := by
    unfold Distinct
    have hkeys : (as.map build).map key = as.map (fun a => label (name a)) := by
      rw [List.map_map]
      exact List.map_congr_left (fun a _ => hkey a)
    rw [hkeys]
    exact labels_nodup hnamed h
  have hbuild : key (build a) = k := by
    rw [hkey, hk]
    rfl
  rw [← hbuild]
  exact hdistinct.lookup (List.mem_map_of_mem ha)

theorem DumpsRule.view_iff {k : String} {ru : Rule} {r : RuleDef} (h : s.DumpsRule k ru r)
    (hs : s.Sound) (hwhole : ∀ u ∈ r.route, u.isInline = true)
    (hroutes : ∀ d ∈ r.routeDefs, ∀ u ∈ d.uses, u.isInline = true)
    (ht : t.getRule k = some (r.built true))
    (htr : ∀ d ∈ r.routeDefs, ∀ m, d.name = some m → t.getRoute m = some (d.built true)) :
    t.viewRule k = s.viewRule k ↔ ∀ m ∈ s.ruleClusters ru, t.viewCluster m = s.viewCluster m := by
  have hleft : t.viewRule k = some ⟨ru.rewrite, t.viewRuleRoute (builtRoute r.route)⟩ := by
    have hrewrite : (r.built true).rewrite = ru.rewrite := congrArg RuleBody.rewrite h.body
    unfold viewRule
    rw [ht]
    change some (RuleView.mk (r.built true).rewrite _) = _
    rw [hrewrite]
    rfl
  have hright : s.viewRule k = some ⟨ru.rewrite, s.viewRuleRoute ru.route⟩ := by
    unfold viewRule
    rw [h.found]
    rfl
  rw [hleft, hright, Option.some.injEq, RuleView.mk.injEq]
  unfold ruleClusters
  have hdump := h.route
  cases hroute : r.route with
  | none =>
    rw [hroute] at hdump
    rcases dumpRuleRoute_none hdump with hru | hru
    · rw [hru]
      simp [builtRoute, viewRuleRoute]
    · rw [hru]
      simp [builtRoute, viewRuleRoute, viewRoute, getRoute_empty hs]
  | some u => cases u with
    | named m =>
      have := hwhole (.named m) hroute
      cases this
    | inline d =>
      have hd : d ∈ r.routeDefs := by simp [RuleDef.routeDefs, hroute, Use.toList]
      rw [hroute] at hdump
      obtain ⟨m, hm, -, hdump⟩ := dumpRuleRoute_inline hdump
      obtain ⟨ro, hro⟩ := dumpRoute_ok hdump (hroutes d hd)
      have hlabel : builtRoute (some (.inline d)) = .named m := by
        unfold builtRoute Use.label
        dsimp only
        rw [hro.name]
        rfl
      rw [hlabel, hm]
      dsimp only [viewRuleRoute]
      rw [hro.found, hro.view_iff (htr d hd m hro.name)]
      exact ⟨fun heq => heq.2, fun heq => ⟨rfl, heq⟩⟩

/-- The restored listener has the rules of the original, under the same names. -/
theorem DumpsListener.rulesOf (h : s.DumpsListener n li rl l) (ht : Holds l t) :
    s.rulesOf n = rl.rules ∧ t.rulesOf n = rl.rules := by
  obtain ⟨li', hli', -, rl', hrl', hrules⟩ := ht.listener
  have hlabels : l.rules.map (Use.label RuleDef.name) = rl.rules := by
    refine resolves_labels (fun k r hr => ?_) h.rules
    obtain ⟨ru, hru⟩ := dumpRule_ok hr
    exact hru.name
  rw [h.name] at hli'
  unfold Catalog.rulesOf
  constructor
  · rw [h.found, Option.bind_some, h.rulelist]
    rfl
  · change t.getListener n = some li' at hli'
    rw [hli', Option.bind_some, hrl', ← hlabels, ← hrules]
    rfl

/-- A rule of the listener and what it was restored to. -/
theorem DumpsListener.restored_rule (h : s.DumpsListener n li rl l) (hs : s.Sound) (hl : l.Whole)
    (hsingle : l.Single) (ht : Holds l t) {k : String} (hk : k ∈ rl.rules) :
    ∃ ru r, r ∈ l.ruleDefs ∧ s.DumpsRule k ru r ∧ t.getRule k = some (r.built true) := by
  obtain ⟨r, hr, hdump⟩ := resolves_mem h.rules hk
  obtain ⟨ru, hru⟩ := dumpRule_ok hdump
  refine ⟨ru, r, hr, hru, ?_⟩
  unfold getRule
  rw [ht.rules]
  have hkey : ∀ r : RuleDef, (r.built true).name = label r.name := fun _ => rfl
  exact lookup_built hkey (h.sturdy hs hl).rules hsingle.rules hr hru.name

theorem DumpsListener.restored_route (h : s.DumpsListener n li rl l) (hs : s.Sound) (hl : l.Whole)
    (hsingle : l.Single) (ht : Holds l t) {d : RouteDef} (hd : d ∈ l.routeDefs) {m : String}
    (hm : d.name = some m) : t.getRoute m = some (d.built true) := by
  have hkey : ∀ d : RouteDef, (d.built true).name = label d.name := fun _ => rfl
  unfold getRoute
  rw [ht.routes]
  exact lookup_built hkey (h.sturdy hs hl).routes hsingle.routes hd hm

theorem DumpsListener.restored_cluster (h : s.DumpsListener n li rl l) (hs : s.Sound)
    (hl : l.Whole) (hsingle : l.Single) (ht : Holds l t) {c : ClusterDef} (hc : c ∈ l.clusterDefs)
    {m : String} (hm : c.name = some m) : t.getCluster m = some (c.built true) := by
  have hkey : ∀ c : ClusterDef, (c.built true).name = label c.name := fun _ => rfl
  unfold getCluster
  rw [ht.clusters]
  exact lookup_built hkey (fun c hc => ((h.sturdy hs hl).clusters c hc).name) hsingle.clusters hc hm

/-- The clusters that the rules of the listener lead to are those that were dumped. -/
theorem ruleClusters_dumped (hs : s.Sound) (hl : l.Whole) {k : String} {ru : Rule} {r : RuleDef}
    (hr : r ∈ l.ruleDefs) (hru : s.DumpsRule k ru r) {m : String} (hm : m ∈ s.ruleClusters ru) :
    ∃ c ∈ l.clusterDefs, s.dumpCluster m = .ok c := by
  have hdump := hru.route
  unfold ruleClusters at hm
  cases hroute : r.route with
  | none =>
    rw [hroute] at hdump
    rcases dumpRuleRoute_none hdump with hnone | hnone
    · rw [hnone] at hm
      cases hm
    · rw [hnone] at hm
      simp [getRoute_empty hs] at hm
  | some u => cases u with
    | named k' =>
      have := hl.routes r hr (.named k') hroute
      cases this
    | inline d =>
      have hd : d ∈ r.routeDefs := by simp [RuleDef.routeDefs, hroute, Use.toList]
      have hdl : d ∈ l.routeDefs := List.mem_flatMap.mpr ⟨r, hr, hd⟩
      rw [hroute] at hdump
      obtain ⟨k', hk', -, hdump⟩ := dumpRuleRoute_inline hdump
      obtain ⟨ro, hro⟩ := dumpRoute_ok hdump (hl.clusters d hdl)
      rw [hk'] at hm
      dsimp only at hm
      rw [hro.found] at hm
      obtain ⟨c, hc, hcm⟩ := resolves_mem hro.uses hm
      exact ⟨c, List.mem_flatMap.mpr ⟨d, hdl, hc⟩, hcm⟩

theorem DumpsListener.view_iff (h : s.DumpsListener n li rl l) (hs : s.Sound) (hl : l.Whole)
    (hsingle : l.Single) (ht : Holds l t) : t.viewListener n = s.viewListener n ↔
      ∀ m ∈ s.clustersOf n, ∀ cu, s.getCluster m = some cu → s.Restores cu := by
  have hrules : t.viewListener n = s.viewListener n ↔
      ∀ k ∈ rl.rules, t.viewRule k = s.viewRule k := by
    obtain ⟨li', hli', hspec, rl', hrl', hnames⟩ := ht.listener
    have hlabel : label l.name = n := by
      rw [h.name]
      rfl
    obtain ⟨-, hrulesOf⟩ := h.rulesOf ht
    have hrl : rl'.rules = rl.rules := by
      unfold Catalog.rulesOf at hrulesOf
      rw [hlabel] at hli'
      rw [hli', Option.bind_some, hrl'] at hrulesOf
      exact hrulesOf
    rw [hlabel] at hli'
    unfold viewListener
    rw [hli', h.found]
    dsimp only [Option.map_some]
    rw [hrl', h.rulelist, hspec, h.spec]
    dsimp only [Option.map_some]
    rw [hrl, Option.some.injEq, ListenerView.mk.injEq, Option.some.injEq, List.map_inj_left]
    exact ⟨fun heq => heq.2, fun heq => ⟨rfl, heq⟩⟩
  rw [hrules]
  have hrule : ∀ k ∈ rl.rules, ∃ ru, s.getRule k = some ru ∧
      (t.viewRule k = s.viewRule k ↔ ∀ m ∈ s.ruleClusters ru, ∀ cu, s.getCluster m = some cu →
        s.Restores cu) := by
    intro k hk
    obtain ⟨ru, r, hr, hru, hfound⟩ := h.restored_rule hs hl hsingle ht hk
    have hroutes {d : RouteDef} (hd : d ∈ r.routeDefs) : d ∈ l.routeDefs :=
      List.mem_flatMap.mpr ⟨r, hr, hd⟩
    have hview := hru.view_iff hs (hl.routes r hr) (fun d hd => hl.clusters d (hroutes hd)) hfound
      (fun d hd m hm => h.restored_route hs hl hsingle ht (hroutes hd) hm)
    refine ⟨ru, hru.found, hview.trans (forall₂_congr (fun m hm => ?_))⟩
    obtain ⟨c, hc, hdump⟩ := ruleClusters_dumped hs hl hr hru hm
    obtain ⟨cu, hcu⟩ := dumpCluster_ok hdump
    rw [hcu.view_iff hs (h.restored_cluster hs hl hsingle ht hc hcu.name), hcu.found]
    simp
  obtain ⟨hnames, -⟩ := h.rulesOf ht
  unfold clustersOf
  rw [hnames]
  constructor
  · intro hall m hm
    obtain ⟨k, hk, hmk⟩ := List.mem_flatMap.mp hm
    obtain ⟨ru, hru, hiff⟩ := hrule k hk
    rw [hru] at hmk
    exact hiff.mp (hall k hk) m hmk
  · intro hall k hk
    obtain ⟨ru, hru, hiff⟩ := hrule k hk
    refine hiff.mpr (fun m hm => hall m (List.mem_flatMap.mpr ⟨k, hk, ?_⟩))
    rw [hru]
    exact hm

/-! ### Which rule is selected -/

/-- No session gets to a rule that matches everything. -/
def SparesWildcards (s : Catalog) (test : Value → Value → Bool) (n : String) : Prop :=
  ∀ metadata i k ru, s.selects test n metadata = some i → (s.rulesOf n)[i]? = some k →
    s.getRule k = some ru → ru.matcher = .wildcard → test metadata wildcardJSON = true

theorem DumpsRule.accepts (test : Value → Value → Bool) (metadata : Value) {k : String} {ru : Rule}
    {r : RuleDef} (h : s.DumpsRule k ru r) (hs : s.Sound) (ht : t.getRule k = some (r.built true)) :
    s.accepts test metadata k = ru.matcher.accepts test metadata ∧
      t.accepts test metadata k = ru.matcher.reread.accepts test metadata := by
  obtain ⟨b, hb⟩ := (hs.rules ru (lookup_some h.found).1).2
  have hmatcher : (r.built true).matcher = ru.matcher.reread := by
    change r.body.matcher = _
    rw [h.body, hb]
    exact matcher_toJSON b _ _
  unfold Catalog.accepts
  rw [h.found, ht, Option.any_some, Option.any_some, hmatcher]
  exact ⟨rfl, rfl⟩

theorem DumpsListener.selects_iff (h : s.DumpsListener n li rl l) (hs : s.Sound) (hl : l.Whole)
    (hsingle : l.Single) (ht : Holds l t) (test : Value → Value → Bool) :
    t.selects test n = s.selects test n ↔ s.SparesWildcards test n := by
  obtain ⟨hnames, hnames'⟩ := h.rulesOf ht
  have hfirst (metadata : Value) : t.selects test n metadata = s.selects test n metadata ↔
      ∀ i k, s.selects test n metadata = some i → (s.rulesOf n)[i]? = some k →
        t.accepts test metadata k = true := by
    unfold selects
    rw [hnames, hnames']
    refine findIdx_eq_iff (fun k hk hacc => ?_)
    obtain ⟨ru, r, -, hru, hfound⟩ := h.restored_rule hs hl hsingle ht hk
    obtain ⟨haccepts, haccepts'⟩ := hru.accepts test metadata hs hfound
    rw [haccepts'] at hacc
    rw [haccepts]
    exact reread_accepts hacc
  rw [funext_iff]
  refine forall_congr' (fun metadata => (hfirst metadata).trans ?_)
  refine forall₂_congr (fun i k => ?_)
  constructor
  · intro hacc ru hi hk hru hwild
    have hmem : k ∈ rl.rules := hnames ▸ List.mem_of_getElem? hk
    obtain ⟨ru', r, -, hdumps, hfound⟩ := h.restored_rule hs hl hsingle ht hmem
    obtain rfl : ru = ru' := Option.some.inj (hru.symm.trans hdumps.found)
    have htrue := hacc hi hk
    rw [(hdumps.accepts test metadata hs hfound).2, hwild] at htrue
    exact htrue
  · intro hspares hi hk
    have hmem : k ∈ rl.rules := hnames ▸ List.mem_of_getElem? hk
    obtain ⟨ru, r, -, hdumps, hfound⟩ := h.restored_rule hs hl hsingle ht hmem
    obtain ⟨haccepts, haccepts'⟩ := hdumps.accepts test metadata hs hfound
    have hselected : s.accepts test metadata k = true := by
      unfold selects at hi
      obtain ⟨hlt, hat, -⟩ := List.findIdx?_eq_some_iff_getElem.mp hi
      rw [List.getElem?_eq_getElem hlt] at hk
      rw [← Option.some.inj hk]
      exact hat
    rw [haccepts']
    cases hmatch : ru.matcher with
    | wildcard => exact hspares ru hi hk hdumps.found hmatch
    | jsonPredicate m =>
      rw [haccepts, hmatch] at hselected
      exact hselected

end Taken

/-- The complete dump of a listener can be added to an empty store, and gives what was dumped
exactly if no session gets to a rule that matches everything, and no cluster has a hash ring
without a key or an endpoint that differs from the first one of its name. -/
theorem restored_iff (test : Value → Value → Bool) (s : Catalog) (hs : s.Reachable) (n : String)
    (l : ListenerDef) (hd : s.dumpListener n = .ok l.dumped) (hl : l.Whole) (hsingle : l.Single)
    (auto : Bool) (i : Kind → ℕ) :
    (∃ t, addListener Starts.all l auto { empty with index := i } = .ok t ∧
      t.viewListener n = s.viewListener n ∧ t.selects test n = s.selects test n) ↔
    (∀ m ∈ s.clustersOf n, ∀ cu, s.getCluster m = some cu → s.Restores cu) ∧
      s.SparesWildcards test n := by
  obtain ⟨li, rl, hdumps⟩ := dumpListener_ok hd hl.rules
  have hsound := hs.sound
  obtain ⟨t, hadd, ht⟩ := addListener_built (hdumps.sturdy hsound hl) hl hsingle auto i
  have hview := hdumps.view_iff hsound hl hsingle ht
  have hselects := hdumps.selects_iff hsound hl hsingle ht test
  constructor
  · rintro ⟨u, hu, hviews, hsel⟩
    obtain rfl : t = u := Except.ok.inj (hadd.symm.trans hu)
    exact ⟨hview.mp hviews, hselects.mp hsel⟩
  · rintro ⟨hclusters, hwild⟩
    exact ⟨t, hadd, hview.mpr hclusters, hselects.mpr hwild⟩

/-- A listener with one rule, which leads to a cluster with a hash ring and one endpoint. -/
def oneRing (match_ : Option Value) (weight : Option Value) : ListenerDef :=
  let c : ClusterDef := ⟨some "c", ⟨.tcp, []⟩, some ⟨some "HashRing", some "/key"⟩,
    [⟨some "e", [], weight⟩]⟩
  ⟨some "l", ⟨.test, []⟩, [.inline ⟨some "r", ⟨match_, none, none⟩,
    some (.inline ⟨some "ro", .inline c, [], [], some retryDefaultPolicy⟩)⟩]⟩

theorem oneRing_whole (m w : Option Value) : (oneRing m w).Whole := by
  refine ⟨?_, ?_, ?_⟩
  · simp [oneRing, Use.isInline]
  · simp [oneRing, ListenerDef.ruleDefs, Use.toList, Use.isInline]
  · simp [oneRing, ListenerDef.routeDefs, ListenerDef.ruleDefs, RuleDef.routeDefs, Use.toList,
      RouteDef.uses, Use.isInline]

theorem oneRing_single (m w : Option Value) : (oneRing m w).Single := by
  refine ⟨?_, ?_, ?_, ?_⟩ <;>
    simp [oneRing, ListenerDef.clusterDefs, ListenerDef.routeDefs, ListenerDef.ruleDefs,
      RuleDef.routeDefs, RouteDef.clusterDefs, RouteDef.uses, ClusterDef.endPointDefs, Use.toList,
      ClusterProtocol.virtual]

theorem restored_iff_predicate : ∃ (s : Catalog) (l : ListenerDef) (t : Catalog), s.Reachable ∧
    s.dumpListener "l" = .ok l.dumped ∧ addListener Starts.all l false empty = .ok t ∧
    t.viewListener "l" = s.viewListener "l" ∧
    t.selects (fun _ _ => false) "l" = s.selects (fun _ _ => false) "l" := by
  obtain ⟨s, hs, hdump, hrules, hmatch, hclusters⟩ : ∃ s, addListener Starts.all
      (oneRing (some Value.empty) none) false empty = .ok s ∧
      s.dumpListener "l" = .ok (oneRing (some Value.empty) (some (.num (.finite 1)))).dumped ∧
      s.rulesOf "l" = ["r"] ∧
      (∀ ru, s.getRule "r" = some ru → ru.matcher = .jsonPredicate Value.empty) ∧
      ∀ cu ∈ s.clusters, s.Restores cu := by
    refine ⟨_, rfl, rfl, by decide, ?_, ?_⟩
    · rintro ru ⟨⟩
      rfl
    · intro cu hcu
      obtain rfl := List.mem_singleton.mp hcu
      refine ⟨by decide, fun e he => ?_⟩
      obtain rfl := List.mem_singleton.mp he
      exact ⟨_, rfl, rfl, rfl⟩
  have hreach : s.Reachable := addListener_changes hs
  have hspares : s.SparesWildcards (fun _ _ => false) "l" := by
    intro metadata i k ru _ hk hru hwild
    rw [hrules] at hk
    obtain rfl : k = "r" := List.mem_singleton.mp (List.mem_of_getElem? hk)
    rw [hmatch ru hru] at hwild
    cases hwild
  obtain ⟨t, ht, hview, hsel⟩ := (restored_iff (fun _ _ => false) s hreach "l" _ hdump
    (oneRing_whole _ _) (oneRing_single _ _) false (fun _ => 0)).mpr
      ⟨fun m _ cu hcu => hclusters cu (lookup_some hcu).1, hspares⟩
  exact ⟨s, _, t, hreach, hdump, ht, hview, hsel⟩

/-- A rule that matches everything matches nothing after its dump was added, if no session has
what `{ match: '*' }` asks for. -/
theorem wildcard_is_lost : ¬∀ (test : Value → Value → Bool) (s : Catalog) (n : String)
    (l : ListenerDef) (i : Kind → ℕ), (∀ metadata, test metadata wildcardJSON = false) →
    s.Reachable → s.dumpListener n = .ok l.dumped → l.Whole → l.Single →
    (∀ r ∈ l.ruleDefs, r.body.apply = none) →
    ∃ t, addListener Starts.all l false { empty with index := i } = .ok t ∧
      t.viewListener n = s.viewListener n ∧ t.selects test n = s.selects test n := by
  intro h
  obtain ⟨s, hs, hdump, hsel⟩ : ∃ s, addListener Starts.all (oneRing none none) false empty =
      .ok s ∧ s.dumpListener "l" =
        .ok (oneRing (some wildcardJSON) (some (.num (.finite 1)))).dumped ∧
      s.selects (fun _ _ => false) "l" .null = some 0 := ⟨_, rfl, rfl, rfl⟩
  obtain ⟨t, ht, -, hsame⟩ := h (fun _ _ => false) s "l" _ (fun _ => 0) (fun _ => rfl)
    (addListener_changes hs) hdump (oneRing_whole _ _) (oneRing_single _ _)
    (by simp [oneRing, ListenerDef.ruleDefs, Use.toList])
  obtain ⟨t', ht', hsel'⟩ : ∃ t, addListener Starts.all
      (oneRing (some wildcardJSON) (some (.num (.finite 1)))) false empty = .ok t ∧
      t.selects (fun _ _ => false) "l" .null = none := ⟨_, rfl, rfl⟩
  obtain rfl : t = t' := Except.ok.inj (ht.symm.trans ht')
  rw [hsame, hsel] at hsel'
  cases hsel'

end Catalog
end L7mp
