import L7mp.CatalogPlan

/-! Adding a nested configuration takes it apart, and the names that are stored put it together
again, exactly if no endpoint is refused on the way. -/
namespace L7mp
open Aborting KeyedList

/-- Everything starts. -/
def Starts.all : Starts := ⟨fun _ => none, none⟩

namespace Catalog

variable {s t u : Catalog} {run : Starts}

/-- The plan fails exactly if `P` does, and foresees the names in use. -/
def Agrees (plan : Option Names) (t : Catalog) (P : Prop) : Prop :=
  (plan = some t.names ∧ P) ∨ (plan = none ∧ ¬P)

namespace Agrees

variable {p : Option Names} {P Q : Prop}

theorem of_some (hp : p = some t.names) (hP : P) : Agrees p t P := .inl ⟨hp, hP⟩

theorem congr (h : Agrees p t P) (hPQ : P ↔ Q) : Agrees p t Q :=
  h.imp (fun h => ⟨h.1, hPQ.mp h.2⟩) (fun h => ⟨h.1, fun hQ => h.2 (hPQ.mpr hQ)⟩)

theorem iff (h : Agrees p t P) : P ↔ p ≠ none := by
  rcases h with ⟨hp, hP⟩ | ⟨hp, hP⟩
  · simp [hp, hP]
  · simp [hp, hP]

theorem bind {q : Names → Option Names} (h : Agrees p s P) (h' : Agrees (q s.names) t Q) :
    Agrees (p.bind q) t (P ∧ Q) := by
  rcases h with ⟨rfl, hP⟩ | ⟨rfl, hP⟩
  · exact h'.congr (by simp [hP])
  · exact .inr ⟨rfl, fun h => hP h.1⟩

theorem map {f : Names → Names} (h : Agrees p s P) (ht : t.names = f s.names) :
    Agrees (p.map f) t P := by
  rcases h with ⟨rfl, hP⟩ | ⟨rfl, hP⟩
  · exact .inl ⟨by rw [ht]; rfl, hP⟩
  · exact .inr ⟨rfl, hP⟩

end Agrees

/-! ### Names -/

/-- The plan makes up the names that `newName` does. -/
theorem inlineName_eq (k : Kind) (base : String) (name : Option String) (s : Catalog) :
    match s.names.pick k base name with
    | some (n, N) => ∃ i, s.inlineName k base name = .ok (n, { s with index := i }) ∧
        N = ({ s with index := i } : Catalog).names ∧ GivenName name n
    | none => ∃ e, s.inlineName k base name = .error e := by
  unfold Names.pick inlineName
  by_cases hname : Store.needsName name = true
  · rw [if_pos hname, if_pos hname]
    have hindex : s.names.index k = s.index k := rfl
    have hused : s.names.used k = s.used k := rfl
    rw [hindex, hused]
    cases newName (base ++ toString (s.index k)) (fun n => decide (n ∈ s.used k)) with
    | none => exact ⟨_, rfl⟩
    | some n => exact ⟨_, rfl, rfl, fun h => absurd hname (by simp [h])⟩
  · rw [if_neg hname, if_neg hname]
    refine ⟨s.index, rfl, rfl, fun _ => ?_⟩
    cases name with
    | none => exact absurd rfl hname
    | some n => rfl

theorem inlineName_ok {k : Kind} {base n : String} {name : Option String}
    (h : s.inlineName k base name = .ok (n, t)) : ∃ i, t = { s with index := i } ∧
      s.names.pick k base name = some (n, t.names) ∧ GivenName name n := by
  have heq := inlineName_eq k base name s
  cases hp : s.names.pick k base name with
  | none =>
    rw [hp] at heq
    obtain ⟨e, he⟩ := heq
    rw [he] at h
    cases h
  | some nN =>
    obtain ⟨m, N⟩ := nN
    rw [hp] at heq
    obtain ⟨i, hi, rfl, hgiven⟩ := heq
    rw [hi] at h
    cases h
    exact ⟨i, rfl, rfl, hgiven⟩

theorem admitName_ok {what quoted n : String} {name : Option String} {k : Kind}
    (h : admitName what quoted name (s.used k) = .ok n) :
    name = some n ∧ n ∉ s.used k ∧ s.names.allow k name = some n := by
  obtain ⟨rfl, hvalid, htaken⟩ := admitName_free h
  refine ⟨rfl, htaken, ?_⟩
  have hfree : n ∉ s.names.used k := htaken
  simp [Names.allow, Option.filter, hvalid, hfree]

@[simp] theorem names_pushCluster (cu : Cluster) (s : Catalog) :
    (s.pushCluster cu).names = s.names.add .cluster cu.name := by
  ext k n
  · cases k <;> simp [names, used, Names.add, pushCluster]
  · rfl

@[simp] theorem names_pushRoute (r : Route) (s : Catalog) :
    (s.pushRoute r).names = s.names.add .route r.name := by
  ext k n
  · cases k <;> simp [names, used, Names.add, pushRoute]
  · rfl

@[simp] theorem names_pushRule (r : Rule) (s : Catalog) :
    (s.pushRule r).names = s.names.add .rule r.name := by
  ext k n
  · cases k <;> simp [names, used, Names.add, pushRule]
  · rfl

@[simp] theorem names_pushRuleList (rl : RuleList) (s : Catalog) :
    (s.pushRuleList rl).names = s.names.add .rulelist rl.name := by
  ext k n
  · cases k <;> simp [names, used, Names.add, pushRuleList]
  · rfl

@[simp] theorem names_pushEndPoint (ep : EndPoint) (s : Catalog) :
    (s.pushEndPoint ep).names = s.names.add .endpoint ep.name := by
  have hkeys : (modify Cluster.name ep.cluster (fun c => { c with endpoints := c.endpoints ++ [ep] })
      s.clusters).map Cluster.name = s.clusters.map Cluster.name :=
    modify_keys (f := fun c => ({ c with endpoints := c.endpoints ++ [ep] } : Cluster))
      (fun _ => rfl) _ _
  ext k n
  · cases k <;> simp [names, used, Names.add, pushEndPoint, hkeys]
  · rfl

@[simp] theorem names_resolveRoute (n route : String) (s : Catalog) :
    (s.resolveRoute n route).names = s.names := by
  have hkeys : (modify Rule.name n (fun r => { r with route := .named route }) s.rules).map
      Rule.name = s.rules.map Rule.name :=
    modify_keys (f := fun r => ({ r with route := .named route } : Rule)) (fun _ => rfl) _ _
  ext k m
  · cases k <;> simp [names, used, resolveRoute, hkeys]
  · rfl

@[simp] theorem names_insertRule (list : String) (pos : ℕ) (n : String) (s : Catalog) :
    (s.insertRule list pos n).names = s.names := by
  have hkeys : (modify RuleList.name list (fun rl =>
      { rl with rules := rl.rules.take pos ++ n :: rl.rules.drop pos }) s.rulelists).map
        RuleList.name = s.rulelists.map RuleList.name :=
    modify_keys (f := fun rl => ({ rl with
      rules := rl.rules.take pos ++ n :: rl.rules.drop pos } : RuleList)) (fun _ => rfl) _ _
  ext k m
  · cases k <;> simp [names, used, insertRule, hkeys]
  · rfl

/-! ### Clusters -/

/-- Cluster `cu` was added last, with its endpoints. -/
structure Topped (s : Catalog) (cu : Cluster) (t : Catalog) : Prop where
  eq : t = { s with clusters := s.clusters ++ [cu], endpoints := s.endpoints ++ cu.endpoints,
                    index := t.index }
  fresh : cu.name ∉ s.clusters.map Cluster.name

theorem Topped.getCluster {cu : Cluster} (h : Topped s cu t) : t.getCluster cu.name = some cu := by
  rw [h.eq]
  exact lookup_push h.fresh

theorem Topped.pushEndPoint {cu : Cluster} (h : Topped s cu t) {ep : EndPoint}
    (hep : ep.cluster = cu.name) :
    Topped s { cu with endpoints := cu.endpoints ++ [ep] } (t.pushEndPoint ep) := by
  refine ⟨?_, h.fresh⟩
  have hpush := modify_push h.fresh (fun c => { c with endpoints := c.endpoints ++ [ep] })
  unfold Catalog.pushEndPoint
  rw [h.eq, hep]
  dsimp only
  rw [hpush, List.append_assoc]

theorem setIndex_self (k : Kind) (s : Catalog) : s.setIndex k (s.index k) = s := by
  have hindex : (fun j => if j = k then s.index k else s.index j) = s.index := by
    funext j
    split_ifs with hj
    · rw [hj]
    · rfl
  unfold setIndex
  rw [hindex]

/-- `addEndPoint` in the loop of a new cluster adds the endpoint or refuses it. -/
theorem Topped.addEndPoint {cu : Cluster} (h : Topped s cu t) (e : EndPointDef) (n : String) :
    if e.fits cu.spec.protocol n t.names then
      t.addEndPoint cu.name { e with name := some n } = .ok (t.pushEndPoint
        ⟨n, cu.name, e.spec, orElse e.weight (.num (.finite 1))⟩)
    else ∃ err, t.addEndPoint cu.name { e with name := some n } = .error err := by
  have hnamed := Store.createEndPoint_named e.addressed cu.spec.protocol (t.index .endpoint)
  have haddressed : EndPointDef.addressed { e with name := some n } = e.addressed := rfl
  unfold EndPointDef.fits Catalog.addEndPoint
  by_cases hvalid : validName n = true
  · by_cases htaken : n ∈ t.used .endpoint
    · have htaken' : n ∈ t.names.used .endpoint := htaken
      simp [hvalid, htaken, htaken']
    · have htaken' : n ∉ t.names.used .endpoint := htaken
      rcases hcreate : (createEndPoint true e.addressed cu.spec.protocol 0).1 with err | ⟨⟩
      · have htakes : cu.spec.protocol.takes e.spec = false := by
          change (createEndPoint true e.addressed cu.spec.protocol 0).1.isOk = false
          rw [hcreate]
          rfl
        simp [hvalid, htaken, h.getCluster, haddressed, hnamed, hcreate, htakes]
      · have htakes : cu.spec.protocol.takes e.spec = true := by
          change (createEndPoint true e.addressed cu.spec.protocol 0).1.isOk = true
          rw [hcreate]
          rfl
        simp [hvalid, htaken, htaken', h.getCluster, haddressed, hnamed, hcreate, htakes,
          setIndex_self, makeEndPoint]
  · simp [hvalid]

theorem Topped.addEndPoints {cu : Cluster} (eps : List EndPointDef) (h : Topped s cu t)
    (hu : t.addEndPoints cu.name eps = .ok u) :
    ∃ es, Topped s { cu with endpoints := cu.endpoints ++ es } u ∧ es.length ≤ eps.length ∧
      Agrees (planEndPoints cu.spec.protocol cu.name eps t.names) u
        (List.Forall₂ ShowsEndPoint eps es) := by
  induction eps generalizing cu t with
  | nil =>
    cases hu
    refine ⟨[], ?_, Nat.le_refl 0, .of_some rfl .nil⟩
    rw [List.append_nil]
    exact h
  | cons e rest ih =>
    obtain ⟨⟨n, t₁⟩, hname, hu⟩ := bind_eq_ok hu
    obtain ⟨i, rfl, hpick, hgiven⟩ := inlineName_ok hname
    have htop : Topped s cu { t with index := i } := ⟨congrArg (fun x : Catalog =>
      { x with index := i }) h.eq, h.fresh⟩
    have hadd := htop.addEndPoint e n
    dsimp only at hu
    unfold planEndPoints
    rw [hpick, Option.bind_some]
    split_ifs at hadd with hfits
    · let ep : EndPoint := ⟨n, cu.name, e.spec, orElse e.weight (.num (.finite 1))⟩
      rw [hadd] at hu
      obtain ⟨es, htop', hlen, hagrees⟩ := ih
        (htop.pushEndPoint (show ep.cluster = cu.name from rfl)) hu
      refine ⟨ep :: es, ?_, Nat.succ_le_succ hlen, ?_⟩
      · simpa using htop'
      · rw [names_pushEndPoint] at hagrees
        dsimp only
        rw [if_pos hfits]
        refine hagrees.congr ⟨fun hall => .cons ⟨hgiven, rfl, rfl⟩ hall, fun hall => ?_⟩
        cases hall with
        | cons _ hrest => exact hrest
    · obtain ⟨err, herr⟩ := hadd
      rw [herr] at hu
      obtain ⟨es, htop', hlen, -⟩ := ih htop hu
      refine ⟨es, htop', Nat.le_succ_of_le hlen, .inr ⟨if_neg hfits, fun hall => ?_⟩⟩
      have := hall.length_eq
      rw [List.length_cons] at this
      omega

theorem addCluster_ok {c : ClusterDef} {auto : Bool} (h : addCluster run c auto s = .ok t) :
    ∃ cu, c.name = some cu.name ∧ Topped s cu t ∧
      Agrees (planCluster c s.names) t (ShownCluster c cu) := by
  obtain ⟨n, hname, h⟩ := bind_eq_ok h
  obtain ⟨⟨⟩, hcreate, h⟩ := bind_eq_ok h
  obtain ⟨u, hu, h⟩ := bind_eq_ok h
  obtain ⟨⟨⟩, -, h⟩ := bind_eq_ok h
  cases h
  obtain ⟨hn, hfree, hallow⟩ := admitName_ok (k := .cluster) hname
  have htop : Topped s (makeCluster n c auto) (s.pushCluster (makeCluster n c auto)) := by
    refine ⟨?_, hfree⟩
    change _ = ({ s with clusters := _, endpoints := s.endpoints ++ [], index := s.index } : Catalog)
    rw [List.append_nil]
    rfl
  obtain ⟨es, htop', -, hagrees⟩ := htop.addEndPoints c.endpoints hu
  have hcreatable : c.creatable = true := by
    unfold ClusterDef.creatable
    rw [hcreate]
    rfl
  refine ⟨_, hn, htop', ?_⟩
  unfold planCluster
  rw [hallow, Option.bind_some, if_pos hcreatable]
  rw [names_pushCluster] at hagrees
  exact hagrees.congr ⟨fun hall => ⟨rfl, rfl, hall⟩, fun hshown => hshown.endpoints⟩

/-- What the clusters of a route leave alone. -/
def aboveClusters (s : Catalog) : List Listener × List RuleList × List Rule × List Route :=
  (s.listeners, s.rulelists, s.rules, s.routes)

theorem Grows.of_index {i : Kind → ℕ} (h : Grows { s with index := i } t) : Grows s t :=
  ⟨h.listeners, h.clusters, h.rulelists, h.rules, h.routes, h.endpoints⟩

theorem Topped.grows {cu : Cluster} (h : Topped s cu t) :
    Grows s t ∧ t.aboveClusters = s.aboveClusters := by
  rw [h.eq]
  exact ⟨⟨List.prefix_refl _, List.prefix_append _ _, List.prefix_refl _, List.prefix_refl _,
    List.prefix_refl _, List.prefix_append _ _⟩, rfl⟩

/-- The clusters and routes are still there. -/
structure Carries (s t : Catalog) : Prop where
  clusters : s.clusters <+: t.clusters
  routes : s.routes <+: t.routes

theorem Carries.trans (h : Carries s t) (h' : Carries t u) : Carries s u :=
  ⟨h.clusters.trans h'.clusters, h.routes.trans h'.routes⟩

theorem Grows.carries (h : Grows s t) : Carries s t := ⟨h.clusters, h.routes⟩

/-- A part of a route was added: nothing is lost, and the part is shown from now on if and only
if the plan goes through. -/
structure Adds (plan : Names → Option Names) (s t : Catalog) (P : Catalog → Prop) : Prop where
  grows : Grows s t
  agrees : ∀ u, Carries t u → Agrees (plan s.names) t (P u)

theorem addRouteCluster_ok {base n : String} {c : Use ClusterDef}
    (h : addRouteCluster run base c s = .ok (n, t)) :
    t.aboveClusters = s.aboveClusters ∧
      Adds (planRouteCluster base c) s t (fun u => u.ShowsCluster c n) := by
  cases c with
  | named m =>
    cases h
    exact ⟨rfl, Grows.refl s, fun _ _ => .of_some rfl rfl⟩
  | inline c =>
    obtain ⟨⟨m, s₁⟩, hname, h⟩ := bind_eq_ok h
    obtain ⟨t₁, hadd, h⟩ := bind_eq_ok h
    cases h
    obtain ⟨i, rfl, hpick, hgiven⟩ := inlineName_ok hname
    obtain ⟨cu, hcu, htop, hagrees⟩ := addCluster_ok hadd
    obtain rfl : n = cu.name := Option.some.inj hcu
    obtain ⟨hgrows, habove⟩ := htop.grows
    refine ⟨habove, hgrows.of_index, fun u hu => ?_⟩
    have hfind : u.getCluster cu.name = some cu := lookup_of_prefix hu.clusters htop.getCluster
    have hplan : planRouteCluster base (.inline c) s.names = planCluster
        { c with name := some cu.name } ({ s with index := i } : Catalog).names := by
      change (s.names.pick .cluster base c.name).bind _ = _
      rw [hpick]
      rfl
    rw [hplan]
    refine hagrees.congr ⟨fun hshown => ?_, ?_⟩
    · exact ⟨hgiven, cu, hfind, hshown.spec, hshown.loadbalancer, hshown.endpoints⟩
    · rintro ⟨-, cu', hcu', hshown⟩
      obtain rfl : cu = cu' := Option.some.inj (hfind.symm.trans hcu')
      exact ⟨hshown.spec, hshown.loadbalancer, hshown.endpoints⟩

theorem addRouteChain_ok {base : String} {cs : List (Use ClusterDef)} {ns : List String}
    (h : addRouteChain run base cs s = .ok (ns, t)) :
    t.aboveClusters = s.aboveClusters ∧
      Adds (planRouteChain base cs) s t (fun u => List.Forall₂ u.ShowsCluster cs ns) := by
  induction cs generalizing s ns with
  | nil =>
    cases h
    exact ⟨rfl, Grows.refl _, fun _ _ => .of_some rfl .nil⟩
  | cons c rest ih =>
    obtain ⟨⟨n, s₁⟩, hhead, h⟩ := bind_eq_ok h
    obtain ⟨⟨ns₁, s₂⟩, hrest, h⟩ := bind_eq_ok h
    cases h
    obtain ⟨habove, hadds⟩ := addRouteCluster_ok hhead
    obtain ⟨habove', hadds'⟩ := ih hrest
    refine ⟨habove'.trans habove, hadds.grows.trans hadds'.grows, fun u hu => ?_⟩
    have hboth := (hadds.agrees u (hadds'.grows.carries.trans hu)).bind (hadds'.agrees u hu)
    exact hboth.congr List.forall₂_cons.symm

/-! ### Routes -/

/-- What a route leaves alone. -/
def aboveRoutes (s : Catalog) : List Listener × List RuleList × List Rule :=
  (s.listeners, s.rulelists, s.rules)

theorem aboveRoutes_of_clusters (h : t.aboveClusters = s.aboveClusters) :
    t.aboveRoutes = s.aboveRoutes ∧ t.routes = s.routes :=
  ⟨congrArg (fun x => (x.1, x.2.1, x.2.2.1)) h, congrArg (fun x => x.2.2.2) h⟩

theorem addRoute_ok {r : RouteDef} {auto : Bool} (h : addRoute run r auto s = .ok t) :
    ∃ n ro, r.name = some n ∧ t.getRoute n = some ro ∧ t.aboveRoutes = s.aboveRoutes ∧
      Adds (planRoute r) s t (fun u => u.ShownRoute r ro) := by
  obtain ⟨n, hname, h⟩ := bind_eq_ok h
  obtain ⟨⟨destination, s₁⟩, hdest, h⟩ := bind_eq_ok h
  obtain ⟨⟨ingress, s₂⟩, hing, h⟩ := bind_eq_ok h
  obtain ⟨⟨egress, s₃⟩, heg, h⟩ := bind_eq_ok h
  cases h
  obtain ⟨hn, hfree, hallow⟩ := admitName_ok (k := .route) hname
  obtain ⟨ha₁, h₁⟩ := addRouteCluster_ok hdest
  obtain ⟨ha₂, h₂⟩ := addRouteChain_ok hing
  obtain ⟨ha₃, h₃⟩ := addRouteChain_ok heg
  obtain ⟨habove, hroutes⟩ := aboveRoutes_of_clusters (ha₃.trans (ha₂.trans ha₁))
  let ro := makeRoute r n destination ingress egress auto
  have hpush : Grows s₃ (s₃.pushRoute ro) :=
    { Grows.refl s₃ with routes := List.prefix_append _ _ }
  refine ⟨n, ro, hn, ?_, habove, ?_, fun u hu => ?_⟩
  · change lookup Route.name ro.name (s₃.routes ++ [ro]) = some ro
    rw [hroutes]
    exact lookup_push hfree
  · exact h₁.grows.trans (h₂.grows.trans (h₃.grows.trans hpush))
  · have hu₃ := hpush.carries.trans hu
    have hu₂ := h₃.grows.carries.trans hu₃
    have hparts := (h₁.agrees u (h₂.grows.carries.trans hu₂)).bind (q := fun N =>
        (planRouteChain (n ++ "-ingress-Cluster-") r.ingress N).bind
          (planRouteChain (n ++ "-egress-Cluster-") r.egress))
      ((h₂.agrees u hu₂).bind (h₃.agrees u hu₃))
    unfold planRoute
    rw [hallow, Option.bind_some]
    refine (hparts.map (f := Names.add .route n) (names_pushRoute ro s₃)).congr ⟨?_, ?_⟩
    · rintro ⟨hd, hi, he⟩
      exact ⟨hd, hi, he, rfl⟩
    · rintro ⟨hd, hi, he, -⟩
      exact ⟨hd, hi, he⟩

/-! ### Rules -/

/-- What a rule leaves alone. -/
def aboveRules (s : Catalog) : List Listener × List RuleList := (s.listeners, s.rulelists)

/-- A rule that was pushed last gets its route. -/
theorem addRuleRoute_ok {n : String} {ru : Rule} {r : RuleDef} (hfree : n ∉ s.used .rule)
    (hru : ru.name = n) (hroute : ru.route = ruleRoute r.route)
    (h : addRuleRoute run n r.route (s.pushRule ru) = .ok t) :
    ∃ route, t.getRule n = some { ru with route := route } ∧ t.aboveRules = s.aboveRules ∧
      Grows s t ∧ ∀ u, Carries t u → Agrees (planRuleRoute n r.route (s.pushRule ru).names) t
        (u.ShowsRuleRoute r.route route) := by
  subst hru
  have hpush : Grows s (s.pushRule ru) := { Grows.refl s with rules := List.prefix_append _ _ }
  have hkeep (hr : ruleRoute r.route = ru.route) :
      (s.pushRule ru).getRule ru.name = some { ru with route := ruleRoute r.route } := by
    rw [hr]
    exact lookup_push hfree
  cases hr : r.route with
  | none =>
    rw [hr] at h
    cases h
    refine ⟨_, hkeep hroute.symm, rfl, hpush, fun u _ => .of_some rfl ?_⟩
    rw [hr]
    rfl
  | some ro =>
    cases ro with
    | named m =>
      rw [hr] at h
      cases h
      refine ⟨_, hkeep hroute.symm, rfl, hpush, fun u _ => .of_some rfl ⟨m, ?_, rfl⟩⟩
      rw [hr]
      rfl
    | inline ro =>
      rw [hr] at h
      obtain ⟨⟨m, s₁⟩, hname, h⟩ := bind_eq_ok h
      obtain ⟨s₂, hadd, h⟩ := bind_eq_ok h
      cases h
      obtain ⟨i, rfl, hpick, hgiven⟩ := inlineName_ok hname
      obtain ⟨k, ro', hk, hfind, habove, hadds⟩ := addRoute_ok hadd
      obtain rfl : m = k := Option.some.inj hk
      have hrules : s₂.rules = s.rules ++ [ru] := congrArg (fun x => x.2.2) habove
      have hresolve : (s₂.resolveRoute ru.name m).rules =
          s.rules ++ [{ ru with route := .named m }] := by
        change modify Rule.name ru.name _ s₂.rules = _
        rw [hrules]
        exact modify_push hfree _
      have hgrows := hadds.grows.of_index
      refine ⟨.named m, ?_, congrArg (fun x => (x.1, x.2.1)) habove, ?_, fun u hu => ?_⟩
      · unfold getRule
        rw [hresolve]
        exact lookup_push (a := ({ ru with route := .named m } : Rule)) hfree
      · refine ⟨hgrows.listeners, hgrows.clusters, hgrows.rulelists, ?_, hgrows.routes,
          hgrows.endpoints⟩
        rw [hresolve]
        exact List.prefix_append _ _
      · have hfound : u.getRoute m = some ro' := lookup_of_prefix hu.routes hfind
        have hagrees := hadds.agrees u ⟨hu.clusters, hu.routes⟩
        have hplan : planRuleRoute ru.name (some (.inline ro)) (s.pushRule ru).names =
            planRoute { ro with name := some m } ({ s.pushRule ru with index := i } : Catalog).names := by
          change ((s.pushRule ru).names.pick .route (ru.name ++ "-Route-") ro.name).bind _ = _
          rw [hpick]
          rfl
        rw [hplan]
        have hnames := names_resolveRoute ru.name m s₂
        unfold Agrees at hagrees ⊢
        rw [hnames]
        refine Agrees.congr hagrees ⟨fun hshown => ⟨m, rfl, hgiven, ro', hfound, ?_⟩, ?_⟩
        · exact ⟨hshown.destination, hshown.ingress, hshown.egress, hshown.retry⟩
        · rintro ⟨m', hm', -, ro'', hro'', hshown⟩
          cases hm'
          obtain rfl : ro' = ro'' := Option.some.inj (hfound.symm.trans hro'')
          exact ⟨hshown.destination, hshown.ingress, hshown.egress, hshown.retry⟩

theorem addRule_ok {r : RuleDef} {auto : Bool} (h : addRule run r auto s = .ok t) :
    ∃ n ru, r.name = some n ∧ t.getRule n = some ru ∧ t.aboveRules = s.aboveRules ∧ Grows s t ∧
      ∀ u, Carries t u → Agrees (planRule r s.names) t (u.ShownRule r ru) := by
  obtain ⟨n, hname, h⟩ := bind_eq_ok h
  obtain ⟨hn, hfree, hallow⟩ := admitName_ok (k := .rule) hname
  obtain ⟨route, hfind, habove, hgrows, hagrees⟩ :=
    addRuleRoute_ok hfree (show (makeRule n r auto).name = n from rfl) rfl h
  refine ⟨n, _, hn, hfind, habove, hgrows, fun u hu => ?_⟩
  unfold planRule
  rw [hallow, Option.bind_some]
  have hroute := hagrees u hu
  rw [names_pushRule] at hroute
  exact hroute.congr ⟨fun hshown => ⟨rfl, rfl, rfl, hshown⟩, fun hshown => hshown.route⟩

theorem addRuleUse_ok {list n : String} {r : Use RuleDef}
    (h : addRuleUse run list r s = .ok (n, t)) : t.aboveRules = s.aboveRules ∧ Grows s t ∧
      ∀ u, Carries t u → t.rules <+: u.rules →
        Agrees (planRuleUse list r s.names) t (u.ShowsRule r n) := by
  cases r with
  | named m =>
    cases h
    exact ⟨rfl, Grows.refl _, fun _ _ _ => .of_some rfl rfl⟩
  | inline r =>
    obtain ⟨⟨m, s₁⟩, hname, h⟩ := bind_eq_ok h
    obtain ⟨t₁, hadd, h⟩ := bind_eq_ok h
    cases h
    obtain ⟨i, rfl, hpick, hgiven⟩ := inlineName_ok hname
    obtain ⟨k, ru, hk, hfind, habove, hgrows, hagrees⟩ := addRule_ok hadd
    obtain rfl : n = k := Option.some.inj hk
    refine ⟨habove, hgrows.of_index, fun u hu hrules => ?_⟩
    have hfound : u.getRule n = some ru := lookup_of_prefix hrules hfind
    have hplan : planRuleUse list (.inline r) s.names =
        planRule { r with name := some n } ({ s with index := i } : Catalog).names := by
      change (s.names.pick .rule (list ++ "-Rule-") r.name).bind _ = _
      rw [hpick]
      rfl
    rw [hplan]
    refine (hagrees u hu).congr ⟨fun hshown => ⟨hgiven, ru, hfound, ?_⟩, ?_⟩
    · exact ⟨hshown.matcher, hshown.rewrite, hshown.apply, hshown.route⟩
    · rintro ⟨-, ru', hru', hshown⟩
      obtain rfl : ru = ru' := Option.some.inj (hfound.symm.trans hru')
      exact ⟨hshown.matcher, hshown.rewrite, hshown.apply, hshown.route⟩

/-! ### Rulelists -/

/-- Rulelist `list` was added last, and `ns` are its rules so far. -/
structure Listed (s : Catalog) (list : String) (auto : Bool) (ns : List String) (t : Catalog) :
    Prop where
  rulelists : t.rulelists = s.rulelists ++ [⟨list, ns, auto⟩]
  listeners : t.listeners = s.listeners
  fresh : list ∉ s.rulelists.map RuleList.name

theorem Listed.getRuleList {list : String} {auto : Bool} {ns : List String}
    (h : Listed s list auto ns t) : t.getRuleList list = some ⟨list, ns, auto⟩ := by
  unfold Catalog.getRuleList
  rw [h.rulelists]
  exact lookup_push (a := (⟨list, ns, auto⟩ : RuleList)) h.fresh

/-- A rule joins the list at its end. -/
theorem Listed.addRuleToRuleList {list : String} {auto : Bool} {ns : List String}
    {r : Use RuleDef} (h : Listed s list auto ns t)
    (hu : addRuleToRuleList run list r ns.length t = .ok u) :
    ∃ n t', addRuleUse run list r t = .ok (n, t') ∧ Listed s list auto (ns ++ [n]) u ∧
      u = t'.insertRule list ns.length n := by
  unfold Catalog.addRuleToRuleList at hu
  rw [h.getRuleList] at hu
  dsimp only at hu
  rw [if_neg (Nat.lt_irrefl _)] at hu
  obtain ⟨⟨n, t'⟩, hrule, hu⟩ := bind_eq_ok hu
  cases hu
  obtain ⟨habove, -⟩ := addRuleUse_ok hrule
  have hlisteners : t'.listeners = t.listeners := congrArg Prod.fst habove
  have hrulelists : t'.rulelists = t.rulelists := congrArg Prod.snd habove
  refine ⟨n, t', hrule, ⟨?_, hlisteners.trans h.listeners, h.fresh⟩, rfl⟩
  change modify RuleList.name list _ t'.rulelists = _
  rw [hrulelists, h.rulelists]
  have hpush := modify_push (a := (⟨list, ns, auto⟩ : RuleList)) h.fresh (fun rl =>
    { rl with rules := rl.rules.take ns.length ++ n :: rl.rules.drop ns.length })
  simpa using hpush

theorem Listed.addRules {list : String} {auto : Bool} {ns : List String} (rs : List (Use RuleDef))
    (h : Listed s list auto ns t) (hu : addRules run list ns.length rs t = .ok u) :
    ∃ ms, Listed s list auto (ns ++ ms) u ∧ Carries t u ∧ t.rules <+: u.rules ∧
      t.endpoints <+: u.endpoints ∧ ∀ v, Carries u v → u.rules <+: v.rules →
        Agrees (planRules list rs t.names) u (List.Forall₂ v.ShowsRule rs ms) := by
  induction rs generalizing ns t with
  | nil =>
    cases hu
    refine ⟨[], ?_, (Grows.refl _).carries, List.prefix_refl _, List.prefix_refl _,
      fun _ _ _ => .of_some rfl .nil⟩
    rw [List.append_nil]
    exact h
  | cons r rest ih =>
    obtain ⟨t₁, hhead, hu⟩ := bind_eq_ok hu
    obtain ⟨n, t', hrule, hlisted, rfl⟩ := h.addRuleToRuleList hhead
    obtain ⟨-, hgrows, hagrees⟩ := addRuleUse_ok hrule
    have hlength : (ns ++ [n]).length = ns.length + 1 := by simp
    obtain ⟨ms, hlisted', hcarries, hrules, hendpoints, hrest⟩ := ih hlisted (hlength ▸ hu)
    have hcarries' : Carries t' u := ⟨hcarries.clusters, hcarries.routes⟩
    refine ⟨n :: ms, ?_, hgrows.carries.trans hcarries', hgrows.rules.trans hrules,
      hgrows.endpoints.trans hendpoints, fun v hv hvrules => ?_⟩
    · simpa using hlisted'
    · have hhead := hagrees v (hcarries'.trans hv) (hrules.trans hvrules)
      have hnames := names_insertRule list ns.length n t'
      have hrest := hrest v hv hvrules
      rw [hnames] at hrest
      exact (hhead.bind hrest).congr List.forall₂_cons.symm

theorem addRuleList_ok {name : Option String} {rs : List (Use RuleDef)} {auto : Bool}
    (h : addRuleList run name rs auto s = .ok t) : ∃ list ms, name = some list ∧
      Listed s list auto ms t ∧ Grows s t ∧
      ∀ u, Carries t u → t.rules <+: u.rules → Agrees ((s.names.allow .rulelist name).bind
        (fun list => planRules list rs (s.names.add .rulelist list))) t
          (List.Forall₂ u.ShowsRule rs ms) := by
  obtain ⟨list, hname, h⟩ := bind_eq_ok h
  obtain ⟨hlist, hfree, hallow⟩ := admitName_ok (k := .rulelist) hname
  have hlisted : Listed s list auto [] (s.pushRuleList ⟨list, [], auto⟩) := ⟨rfl, rfl, hfree⟩
  obtain ⟨ms, hlisted', hcarries, hrules, hendpoints, hagrees⟩ := hlisted.addRules rs h
  refine ⟨list, ms, hlist, hlisted', ⟨?_, hcarries.clusters, ?_, hrules, hcarries.routes,
    hendpoints⟩, fun u hu hurules => ?_⟩
  · rw [hlisted'.listeners]
  · rw [hlisted'.rulelists]
    exact List.prefix_append _ _
  · have hshown := hagrees u hu hurules
    rw [names_pushRuleList] at hshown
    rw [hallow, Option.bind_some]
    exact hshown

/-! ### Listeners -/

/-- An added configuration can be read back, with everything that was there before as it was, if
and only if every endpoint gets a name that is free when its turn comes. -/
theorem shows_iff_planned (run : Starts) (s t : Catalog) (l : ListenerDef) (auto : Bool)
    (h : addListener run l auto s = .ok t) :
    (t.Shows l ∧ Grows s t) ↔ ∃ n, l.name = some n ∧ planListener n l s.names ≠ none := by
  obtain ⟨n, hname, h⟩ := bind_eq_ok h
  obtain ⟨⟨⟩, -, h⟩ := bind_eq_ok h
  obtain ⟨⟨list, s₁⟩, hlist, h⟩ := bind_eq_ok h
  obtain ⟨t₁, hadd, h⟩ := bind_eq_ok h
  obtain ⟨⟨⟩, -, h⟩ := bind_eq_ok h
  cases h
  obtain ⟨hn, -, hfree⟩ := admitName_free hname
  obtain ⟨i, rfl, hpick, -⟩ := inlineName_ok hlist
  obtain ⟨list', ms, hlist', hlisted, hgrows, hagrees⟩ := addRuleList_ok hadd
  obtain rfl : list = list' := Option.some.inj hlist'
  let li : Listener := ⟨n, l.spec, list, auto⟩
  let t := t₁.pushListener li
  have hli : t.getListener n = some li := by
    change lookup Listener.name li.name (t₁.listeners ++ [li]) = some li
    rw [hlisted.listeners]
    exact lookup_push hfree
  have hrl : t.getRuleList list = some ⟨list, ms, true⟩ := hlisted.getRuleList
  have hplan : planListener n l s.names = ((({ s with index := i } : Catalog).names.allow .rulelist
      (some list)).bind (fun list => planRules list l.rules
        (({ s with index := i } : Catalog).names.add .rulelist list))) := by
    unfold planListener
    rw [hpick]
    rfl
  have hshown := (hagrees t ⟨List.prefix_refl _, List.prefix_refl _⟩ (List.prefix_refl _)).iff
  rw [← hplan] at hshown
  have hkeeps : Grows s t := by
    refine ⟨?_, hgrows.clusters, hgrows.rulelists, hgrows.rules, hgrows.routes, hgrows.endpoints⟩
    change s.listeners <+: t₁.listeners ++ [li]
    rw [hlisted.listeners]
    exact List.prefix_append _ _
  constructor
  · rintro ⟨⟨n', li', rl, hn', hli', -, hrl', hall⟩, -⟩
    obtain rfl : n = n' := Option.some.inj (hn.symm.trans hn')
    obtain rfl : li = li' := Option.some.inj (hli.symm.trans hli')
    obtain rfl : ⟨list, ms, true⟩ = rl := Option.some.inj (hrl.symm.trans hrl')
    exact ⟨n, hn, hshown.mp hall⟩
  · rintro ⟨n', hn', hplanned⟩
    obtain rfl : n = n' := Option.some.inj (hn.symm.trans hn')
    exact ⟨⟨n, li, _, hn, hli, rfl, hrl, hshown.mpr hplanned⟩, hkeeps⟩

/-- A listener with one rule that matches everything, to one cluster with these endpoints. -/
def oneCluster (eps : List EndPointDef) : ListenerDef :=
  let c : ClusterDef := ⟨some "c", ⟨.tcp, []⟩, none, eps⟩
  ⟨some "l", ⟨.test, []⟩, [.inline ⟨none, ⟨none, none, none⟩,
    some (.inline ⟨none, .inline c, [], [.named "d"], none⟩)⟩]⟩

theorem shows_iff_planned_named :
    ∃ t, addListener Starts.all (oneCluster [⟨some "e", [], none⟩, ⟨none, [], none⟩]) false empty =
      .ok t ∧ t.clusters.map (fun c => c.endpoints.map EndPoint.name) = [["e", "c-EndPoint-0"]] ∧
      t.Shows (oneCluster [⟨some "e", [], none⟩, ⟨none, [], none⟩]) ∧ Grows empty t := by
  obtain ⟨t, ht⟩ : ∃ t, addListener Starts.all
    (oneCluster [⟨some "e", [], none⟩, ⟨none, [], none⟩]) false empty = .ok t := ⟨_, rfl⟩
  refine ⟨t, ht, ?_, (shows_iff_planned _ _ _ _ _ ht).mpr ⟨"l", rfl, ?_⟩⟩
  · cases ht
    decide
  · exact Option.isSome_iff_ne_none.mp (by decide)

/-- The first endpoint is given the name of the second one, which is refused while the listener
is added. -/
theorem generated_name_is_given : ¬∀ run s t l auto, l.given.Nodup →
    (∀ p ∈ l.given, p.2 ∉ s.used p.1) →
    (∀ c ∈ l.clusterDefs, ∀ e ∈ c.endpoints, c.spec.protocol.takes e.spec = true) →
    addListener run l auto s = .ok t → t.Shows l ∧ Grows s t := by
  intro h
  obtain ⟨t, ht, hlength⟩ : ∃ t, addListener Starts.all
      (oneCluster [⟨none, [], none⟩, ⟨some "c-EndPoint-0", [], none⟩]) false empty = .ok t ∧
      ∀ cu ∈ t.clusters, cu.endpoints.length = 1 := ⟨_, rfl, by decide⟩
  have hgiven : (oneCluster [⟨none, [], none⟩, ⟨some "c-EndPoint-0", [], none⟩]).given =
    [(.cluster, "c"), (.endpoint, "c-EndPoint-0")] := by decide
  obtain ⟨⟨n, li, rl, -, -, -, -, hall⟩, -⟩ := h _ _ _ _ _ (by rw [hgiven]; decide)
    (by rw [hgiven]; decide) (by decide) ht
  obtain ⟨k, rest, ⟨-, ru, -, hru⟩, -, -⟩ := List.forall₂_cons_left_iff.mp hall
  obtain ⟨m, -, -, ro, -, hro⟩ := hru.route
  obtain ⟨-, cu, hcu, hshown⟩ := hro.destination
  have htwo := hshown.endpoints.length_eq
  rw [hlength cu (lookup_some hcu).1] at htwo
  cases htwo

end Catalog
end L7mp
