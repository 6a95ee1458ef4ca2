import L7mp.StoreGrowth
import L7mp.StoreNames

/-! A request that was answered with success has added all it was to add, whatever other requests
were doing at the same time: nothing of it is missing, and nothing of it is lost later on. -/
namespace L7mp
open Coroutine KeyedList

namespace Store

variable {w w' : Store}

theorem Widens.of_config (hc : w'.toConfig = w.toConfig)
    (hr : ∀ e ∈ w.rejections, e ∈ w'.rejections) (hn : w.nextId ≤ w'.nextId) : w.Widens w' := by
  obtain ⟨c, s, d, i, n, r⟩ := w
  obtain ⟨c', s', d', i', n', r'⟩ := w'
  obtain rfl : c' = c := hc
  exact { Widens.refl (⟨c', s, d, i, n, r⟩ : Store) with rejections := hr, nextId := hn }

theorem widens_inlineName (k : Kind) (base : String) (name : Option String) (w : Store) :
    w.Widens (w.inlineName k base name).2 := by
  unfold inlineName
  split_ifs
  · exact Widens.of_config rfl (fun _ he => he) (Nat.le_refl _)
  · exact Widens.refl w

theorem named_inlineName {k : Kind} {base n : String} {name : Option String} {w : Store}
    (h : (w.inlineName k base name).1 = .ok n) : NamedAs name n := by
  intro hneeds
  unfold inlineName at h
  rw [if_neg (by rw [hneeds]; exact Bool.false_ne_true)] at h
  cases name with
  | none => cases hneeds
  | some m =>
    cases h
    rfl

theorem widens_pushEndPoint (ep : EndPoint) (w : Store) : w.Widens (w.pushEndPoint ep) where
  listeners _ h := h
  clusters c hc := by
    let f (c : Cluster) : Cluster := { c with endpoints := c.endpoints ++ [ep] }
    have hmem : c ∈ modify Cluster.name ep.cluster f w.clusters ∨
        f c ∈ modify Cluster.name ep.cluster f w.clusters := mem_modify hc
    rcases hmem with hmem | hmem
    · exact ⟨c, hmem, rfl, rfl, fun _ he => he⟩
    · exact ⟨_, hmem, rfl, rfl, fun _ he => List.mem_append_left _ he⟩
  rulelists rl h := ⟨rl, h, rfl, rfl, fun _ hm => hm⟩
  rules r h := ⟨r, h, rfl, fun _ => rfl⟩
  routes _ h := h
  rejections _ h := h
  nextId := Nat.le_refl _

/-- What `addEndPoint` does to the store. -/
theorem addEndPoint_spec (c : String) (ep : EndPointSpec) (w : Store) :
    w.Widens (w.addEndPoint c ep).2 ∧ (w.addEndPoint c ep).2.rules = w.rules ∧
    ((w.addEndPoint c ep).1 = .ok () → ∃ n, (∀ m, ep.name = some m → n = m) ∧
      ∃ cu ∈ (w.addEndPoint c ep).2.clusters, cu.name = c ∧
        (⟨n, c⟩ : EndPoint) ∈ cu.endpoints) := by
  have hindex (i : ℕ) : w.Widens (w.setIndex .endpoint i) :=
    Widens.of_config rfl (fun _ he => he) (Nat.le_refl _)
  unfold Store.addEndPoint
  split
  · exact ⟨Widens.refl w, rfl, fun h => by cases h⟩
  split
  · exact ⟨Widens.refl w, rfl, fun h => by cases h⟩
  split
  · exact ⟨Widens.refl w, rfl, fun h => by cases h⟩
  rename_i cl hcl
  obtain ⟨-, hname⟩ := lookup_some hcl
  split
  · rename_i e i _
    exact ⟨hindex i, rfl, fun h => by cases h⟩
  · rename_i i _
    refine ⟨(hindex i).trans (widens_pushEndPoint _ _), rfl, fun _ => ?_⟩
    refine ⟨w.endPointName cl ep, fun m hm => ?_, ?_⟩
    · unfold endPointName
      rw [hm]
      rfl
    · let f (c : Cluster) : Cluster :=
        { c with endpoints := c.endpoints ++ [⟨w.endPointName cl ep, cl.name⟩] }
      have hkey : ∀ c, Cluster.name (f c) = Cluster.name c := fun _ => rfl
      have hfind : lookup Cluster.name c (modify Cluster.name c f w.clusters) =
          (lookup Cluster.name c w.clusters).map f := lookup_modify hkey c w.clusters
      change lookup Cluster.name c w.clusters = some cl at hcl
      rw [hcl, ← hname] at hfind
      rw [← hname]
      exact ⟨f cl, (lookup_some hfind).1, rfl, List.mem_append_right _ List.mem_cons_self⟩

theorem widens_unhandled {α : Type} (r : Except Err α) (w : Store) : w.Widens (w.unhandled r) := by
  cases r with
  | ok a => exact Widens.refl w
  | error e =>
    exact Widens.of_config rfl (fun _ he => List.mem_append_left _ he) (Nat.le_refl _)

theorem rules_unhandled {α : Type} (r : Except Err α) (w : Store) :
    (w.unhandled r).rules = w.rules := by
  cases r <;> rfl

theorem rules_inlineName (k : Kind) (base : String) (name : Option String) (w : Store) :
    (w.inlineName k base name).2.rules = w.rules := by
  unfold inlineName
  split_ifs <;> rfl

/-- An endpoint of the loop is there afterwards, or its refusal is among the rejections. -/
theorem hasEndPoint_add {c m : String} {ep : EndPointSpec} (hm : NamedAs ep.name m) (w : Store) :
    ((w.addEndPoint c { ep with name := some m }).2.unhandled
      (w.addEndPoint c { ep with name := some m }).1).HasEndPoint c ep := by
  obtain ⟨-, -, hadded⟩ := addEndPoint_spec c { ep with name := some m } w
  refine ⟨m, hm, ?_⟩
  cases hr : (w.addEndPoint c { ep with name := some m }).1 with
  | ok u =>
    obtain ⟨n, hn, hcu⟩ := hadded hr
    rw [hn m rfl] at hcu
    exact Or.inl hcu
  | error e => exact Or.inr ⟨w, e, hr, List.mem_append_right _ List.mem_cons_self⟩

theorem addEndPoints_spec (c : String) (eps : List EndPointArg) (w : Store) :
    w.Widens (Store.addEndPoints c eps w).2 ∧ (Store.addEndPoints c eps w).2.rules = w.rules ∧
    ((Store.addEndPoints c eps w).1 = .ok () → ∀ ep, .inline ep ∈ eps →
      (Store.addEndPoints c eps w).2.HasEndPoint c ep) := by
  induction eps generalizing w with
  | nil => exact ⟨Widens.refl w, rfl, fun _ ep hep => by cases hep⟩
  | cons arg rest ih =>
    cases arg with
    | null => exact ⟨Widens.refl w, rfl, fun h => by cases h⟩
    | primitive =>
      -- the name is generated before the assignment to a primitive value throws
      have hwide := widens_inlineName .endpoint (c ++ "-EndPoint-") none w
      have hrules := rules_inlineName .endpoint (c ++ "-EndPoint-") none w
      unfold Store.addEndPoints
      split <;> rename_i heq <;> rw [heq] at hwide hrules <;>
        exact ⟨hwide, hrules, fun h => by cases h⟩
    | inline ep =>
      have hwide := widens_inlineName .endpoint (c ++ "-EndPoint-") ep.name w
      have hrules := rules_inlineName .endpoint (c ++ "-EndPoint-") ep.name w
      unfold Store.addEndPoints
      split
      · rename_i heq
        rw [heq] at hwide hrules
        exact ⟨hwide, hrules, fun h => by cases h⟩
      · rename_i m u heq
        rw [heq] at hwide hrules
        have hm : NamedAs ep.name m := named_inlineName (by rw [heq])
        obtain ⟨hadd, haddRules, -⟩ := addEndPoint_spec c { ep with name := some m } u
        have hhas := hasEndPoint_add (c := c) hm u
        have hfirst := hadd.trans
          (widens_unhandled (u.addEndPoint c { ep with name := some m }).1 _)
        obtain ⟨hrest, hrestRules, hall⟩ := ih _
        refine ⟨(hwide.trans hfirst).trans hrest, ?_, fun hok ep' hep' => ?_⟩
        · rw [hrestRules, rules_unhandled, haddRules]
          exact hrules
        · rcases List.mem_cons.mp hep' with heq' | hep'
          · cases heq'
            exact hhas.widen hrest
          · exact hall hok ep' hep'

theorem guar_of_widens {O : Set ℕ} (h : w.Widens w') (hrules : w'.rules = w.rules)
    (hw : w.IdsUsed) : discipline.Guar O w w' where
  inv r hr := by
    rw [hrules] at hr
    exact (hw r hr).trans_le h.nextId
  evolves := h
  leaves n _ _ := by
    change w'.rulesOf n = w.rulesOf n
    unfold rulesOf
    rw [hrules]

end Store

/-- Nothing fails to start. -/
def StartsWell (outcome : Option Err) : Prop := outcome = none

instance : DecidablePred StartsWell := fun outcome => inferInstanceAs (Decidable (outcome = none))

section Adds

variable {α β : Type} {P : Store → Prop} {R : α → Store → Prop}

/-- From a store in which `P` holds, an addition follows the rules and returns only in `R`. -/
abbrev Adds (P : Store → Prop) (p : Add α) (R : α → Store → Prop) : Prop :=
  Follows Store.discipline StartsWell (fun _ => P) p (fun a _ => R a)

/-- What is there stays there. -/
def Stays (F : Store → Prop) : Prop := ∀ w w' : Store, F w → w.Widens w' → F w'

theorem adds_sync {f : Store → Except Err α × Store}
    (h : ∀ w, P w → w.Widens (f w).2 ∧ (f w).2.rules = w.rules ∧
      ∀ a, (f w).1 = .ok a → R a (f w).2) : Adds P (Add.sync f) R := by
  refine Follows.atomic (fun O w hw hP => ?_)
  obtain ⟨hwide, hrules, hR⟩ := h w hP
  exact ⟨Store.guar_of_widens hwide hrules hw, hR⟩

theorem adds_modify {f : Store → Store} {R : Unit → Store → Prop}
    (h : ∀ w, P w → w.Widens (f w) ∧ (f w).rules = w.rules ∧ R () (f w)) :
    Adds P (Co.modify f) R := by
  refine Follows.modify (fun O w hw hP => ?_)
  obtain ⟨hwide, hrules, hR⟩ := h w hP
  exact ⟨Store.guar_of_widens hwide hrules hw, hR⟩

theorem adds_look {f : Store → Except Err α} (h : ∀ w a, P w → f w = .ok a → R a w) :
    Adds P (Add.sync (fun w => (f w, w))) R :=
  adds_sync (fun w hP => ⟨Store.Widens.refl w, rfl, fun a ha => h w a hP ha⟩)

theorem adds_await {p : Add α} {l : List Held} (hp : Adds P p R) (hR : ∀ a, Stays (R a)) :
    Adds P (Co.await l p) R :=
  Follows.await hp (fun a _ w w' ha hw => hR a w w' ha hw.evolves)

theorem adds_frame {p : Add α} {F : Store → Prop} (hF : Stays F) (hp : Adds P p R) :
    Adds (fun w => P w ∧ F w) p (fun a w => R a w ∧ F w) := Follows.frame hF hp

/-- A fact that was found on the way. -/
theorem adds_of_fact {p : Add α} {φ : Prop} (h : φ → Adds P p R) :
    Adds (fun w => φ ∧ P w) p R := fun O w hw hP => h hP.1 O w hw hP.2

theorem adds_inlineName (k : Kind) (base : String) (name : Option String) :
    Adds P (Add.sync (Store.inlineName k base name)) (fun n _ => NamedAs name n) :=
  adds_sync (fun w _ => ⟨Store.widens_inlineName k base name w,
    Store.rules_inlineName k base name w, fun _ hn => Store.named_inlineName hn⟩)

/-- What starts as it should keeps what there is, and nothing is taken back. -/
theorem adds_started {F : Store → Prop} (hF : Stays F) {g : Option Err → Add Unit}
    (hg : g none = pure ()) (f : Err → Add Unit) :
    Adds F (tryCatch (Co.input [] >>= g) f) (fun _ => F) := by
  intro O w hw hP
  refine ⟨Discipline.Guar.refl hw, fun i u hi hu => ?_⟩
  -- `run` reports no error, so the handler is not entered
  have hi : i = none := hi
  rw [hi]
  rw [Discipline.owned_self] at hu ⊢
  change (((g none) u).rescue f).Within _ _ _ _ _
  rw [hg]
  exact ⟨Discipline.Guar.refl hu.inv, fun _ _ => hF w u hP hu.evolves⟩

end Adds

section Additions

variable (A : Answers)

theorem adds_addCluster (c : ClusterSpec) (auto : Bool) : Adds (fun _ => True) (addCluster A c auto)
    (fun _ w => ∃ n, c.name = some n ∧ w.HasCluster c n) := by
  unfold addCluster
  refine Follows.bind (R := fun cu _ _ => (c.name = some cu.name ∧ c.spec = .ok cu.protocol) ∧ True)
    (adds_look (fun w cu _ hcu => ?_)) (fun cu => adds_of_fact (fun hcu => ?_))
  · unfold Store.admitCluster at hcu
    split at hcu
    · rename_i hname hspec
      split_ifs at hcu
      split at hcu <;> cases hcu
      exact ⟨⟨hname, hspec⟩, trivial⟩
    · cases hcu
    · cases hcu
  obtain ⟨hname, hspec⟩ := hcu
  -- the cluster is there from now on
  have hplaced : Stays (fun w => ∃ cu' ∈ w.clusters, cu'.name = cu.name ∧
      c.spec = .ok cu'.protocol) := by
    intro w w' hw hwide
    obtain ⟨cu', hcu', hn, hp⟩ := hw
    obtain ⟨cu'', hcu'', hn', hp', -⟩ := hwide.clusters cu' hcu'
    exact ⟨cu'', hcu'', hn'.trans hn, by rw [hp']; exact hp⟩
  have hhas : Stays (fun w => ∃ n, c.name = some n ∧ w.HasCluster c n) := by
    intro w w' hw hwide
    obtain ⟨n, hn, hc⟩ := hw
    exact ⟨n, hn, hc.widen hwide⟩
  refine Follows.bind (adds_modify (P := fun _ => True) (R := fun _ w => True ∧
    ∃ cu' ∈ w.clusters, cu'.name = cu.name ∧ c.spec = .ok cu'.protocol)
    (fun w _ => ⟨?_, rfl, trivial, ?_⟩)) (fun _ => ?_)
  · exact { Store.Widens.refl w with
      clusters := fun c' hc' =>
        ⟨c', List.mem_append_left _ hc', rfl, rfl, fun _ he => he⟩ }
  · exact ⟨cu, List.mem_append_right _ List.mem_cons_self, rfl, hspec⟩
  refine Follows.bind (R := fun _ _ w => ∃ n, c.name = some n ∧ w.HasCluster c n) ?_
    (fun _ => adds_started hhas rfl _)
  have heps : Adds (fun _ => True) (addInlineEndPoints cu c.endpoints) (fun _ w =>
      ∀ eps, c.endpoints = .ok eps → ∀ ep, .inline ep ∈ eps → w.HasEndPoint cu.name ep) := by
    cases c.endpoints with
    | absent => exact Follows.pure (fun _ _ _ _ eps h => by cases h)
    | invalid => exact Follows.throw _
    | ok eps =>
      refine adds_sync (fun w _ => ?_)
      obtain ⟨hwide, hrules, hall⟩ := Store.addEndPoints_spec cu.name eps w
      refine ⟨hwide, hrules, fun u hu eps' heps' => ?_⟩
      cases heps'
      exact hall hu
  refine (adds_frame hplaced heps).conseq (fun _ _ _ h => h) (fun _ _ w _ h => ?_)
  exact ⟨cu.name, hname, fun _ => hname, h.2, h.1⟩

theorem stays_clusterArg (c : ClusterArg) (n : String) : Stays (fun w => w.HasClusterArg c n) :=
  fun _ _ hc hwide => Store.HasClusterArg.widen hwide hc

theorem adds_addRouteCluster (m base what : String) (c : ClusterArg) :
    Adds (fun _ => True) (addRouteCluster A m base what c) (fun n w => w.HasClusterArg c n) := by
  cases c with
  | named c => exact Follows.pure (fun _ _ _ _ => rfl)
  | null => exact Follows.throw _
  | other => exact Follows.throw _
  | inline c =>
    refine Follows.bind (R := fun n _ _ => NamedAs c.name n ∧ True)
      (Follows.conseq (adds_inlineName _ _ _) (fun _ _ _ h => h) (fun _ _ _ _ h => ⟨h, trivial⟩))
      (fun n => adds_of_fact (fun hn => ?_))
    have hhas : ∀ u : Unit, Stays (fun w => w.HasCluster c n) :=
      fun _ _ _ hc hwide => hc.widen hwide
    refine Follows.bind (adds_await (R := fun _ w => w.HasCluster c n) ?_ hhas)
      (fun _ => Follows.pure (fun _ _ _ h => h))
    refine (adds_addCluster A { c with name := some n } true).conseq (fun _ _ _ h => h)
      (fun _ _ w _ h => ?_)
    obtain ⟨n', hn', hc⟩ := h
    cases hn'
    exact ⟨hn, hc.cluster, hc.endpoints⟩

theorem adds_addRouteChain (m dir : String) (cs : List ClusterArg) :
    Adds (fun _ => True) (addRouteChain A m dir cs)
      (fun ns w => List.Forall₂ (fun c n => w.HasClusterArg c n) cs ns) := by
  induction cs with
  | nil => exact Follows.pure (fun _ _ _ _ => .nil)
  | cons c rest ih =>
    refine Follows.bind (adds_addRouteCluster A m _ _ c) (fun name => ?_)
    have hrest := (adds_frame (stays_clusterArg c name) ih).conseq
      (T := fun _ w => w.HasClusterArg c name) (fun _ _ _ h => ⟨trivial, h⟩) (fun _ _ _ _ h => h)
    exact Follows.bind hrest (fun names => Follows.pure (fun _ _ _ h => .cons h.2 h.1))

theorem stays_chain (cs : List ClusterArg) (ns : List String) :
    Stays (fun w => List.Forall₂ (fun c n => w.HasClusterArg c n) cs ns) :=
  fun _ _ hcs hwide => Store.chain_widen hwide hcs

theorem adds_addRoute (r : RouteSpec) (auto : Bool) : Adds (fun _ => True) (addRoute A r auto)
    (fun _ w => ∃ n, r.name = some n ∧ w.HasRoute r n) := by
  unfold addRoute
  refine Follows.bind (R := fun n _ _ => r.name = some n ∧ True)
    (adds_look (fun w n _ hn => ?_)) (fun n => adds_of_fact (fun hname => ?_))
  · unfold Store.admitRoute at hn
    split_ifs at hn
    split at hn
    · rename_i heq
      split_ifs at hn
      cases hn
      exact ⟨heq, trivial⟩
    · cases hn
    · cases hn
  refine Follows.bind (adds_addRouteCluster A n _ _ r.destination) (fun d => ?_)
  have hin := (adds_frame (stays_clusterArg r.destination d)
    (adds_addRouteChain A n "ingress" r.ingress.toList)).conseq
      (T := fun _ w => w.HasClusterArg r.destination d) (fun _ _ _ h => ⟨trivial, h⟩)
      (fun _ _ _ _ h => h)
  refine Follows.bind hin (fun ingress => ?_)
  have hboth : Stays (fun w => List.Forall₂ (fun c n => w.HasClusterArg c n) r.ingress.toList
      ingress ∧ w.HasClusterArg r.destination d) := fun w w' h hwide =>
    ⟨stays_chain _ _ w w' h.1 hwide, stays_clusterArg _ _ w w' h.2 hwide⟩
  have hout := (adds_frame hboth (adds_addRouteChain A n "egress" r.egress.toList)).conseq
    (T := fun _ w => List.Forall₂ (fun c n => w.HasClusterArg c n) r.ingress.toList
      ingress ∧ w.HasClusterArg r.destination d) (fun _ _ _ h => ⟨trivial, h⟩) (fun _ _ _ _ h => h)
  refine Follows.bind hout (fun egress => adds_modify (fun w h => ?_))
  have hwide : w.Widens (w.pushRoute (Store.createRoute r n d ingress egress auto)) :=
    { Store.Widens.refl w with routes := fun r hr => List.mem_append_left _ hr }
  refine ⟨hwide, rfl, n, hname, fun _ => hname, ?_⟩
  refine ⟨_, List.mem_append_right _ List.mem_cons_self, rfl, ?_⟩
  exact ⟨h.2.2.widen hwide, Store.chain_widen hwide h.2.1, Store.chain_widen hwide h.1⟩

/-- The rule is there as it was pushed, and its id belongs to who pushed it. -/
def Waiting (rule : Rule) (O : Set ℕ) (w : Store) : Prop :=
  rule.id ∈ O ∧ rule.id < w.nextId ∧ w.rulesOf rule.id = [rule]

theorem Waiting.mem {rule : Rule} {O : Set ℕ} {w : Store} (h : Waiting rule O w) :
    rule ∈ w.rules := by
  have hmem : rule ∈ w.rulesOf rule.id := by
    rw [h.2.2]
    exact List.mem_cons_self
  exact List.mem_of_mem_filter hmem

/-- A rule is pushed with the next id. -/
theorem follows_pushRule (rule : Rule) : Follows Store.discipline StartsWell
    (fun _ w => rule.id = w.nextId) (Co.modify (Store.pushRule rule) : Add Unit)
    (fun _ => Waiting rule) := by
  refine Follows.modify (fun O w hw hid => ?_)
  have hids : w.IdsUsed := hw
  have hwide : w.Widens (w.pushRule rule) :=
    { Store.Widens.refl w with
      rules := fun r hr => ⟨r, List.mem_append_left _ hr, rfl, fun _ => rfl⟩
      nextId := Nat.le_succ _ }
  have hnext : (w.pushRule rule).nextId = w.nextId + 1 := rfl
  have hrulesOf (n : ℕ) : (w.pushRule rule).rulesOf n = w.rulesOf n ++ [rule].filter
      (fun r => r.id = n) := List.filter_append ..
  refine ⟨⟨?_, hwide, ?_⟩, Or.inr ⟨hid.ge, ?_⟩, ?_, ?_⟩
  · intro r hr
    rcases List.mem_append.mp hr with hr | hr
    · have hold := hids r hr
      omega
    · obtain rfl := List.mem_singleton.mp hr
      omega
  · intro n hn _
    have hne : ¬rule.id = n := by
      change n < w.nextId at hn
      omega
    change (w.pushRule rule).rulesOf n = w.rulesOf n
    rw [hrulesOf, List.filter_cons_of_neg (by simpa using hne)]
    exact List.append_nil _
  · change rule.id < (w.pushRule rule).nextId
    omega
  · omega
  · -- an id that is still to be given has no rule
    have hnone : w.rulesOf rule.id = [] := by
      refine List.filter_eq_nil_iff.mpr (fun r hr => ?_)
      have hold := hids r hr
      simp only [decide_eq_true_eq]
      omega
    rw [hrulesOf, hnone, List.filter_cons_of_pos (by simp)]
    rfl

/-- The route of a rule that waits is set. -/
theorem follows_resolveRoute {rule : Rule} (hroute : rule.route = .unresolved) (n : String)
    {F : Store → Prop} (hF : Stays F) : Follows Store.discipline StartsWell
    (fun O w => F w ∧ Waiting rule O w) (Co.modify (Store.resolveRoute rule.id n) : Add Unit)
    (fun _ _ w => F w ∧ { rule with route := .named n } ∈ w.rules) := by
  refine Follows.modify (fun O w hw h => ?_)
  have hids : w.IdsUsed := hw
  obtain ⟨hFw, hwaiting⟩ := h
  -- no other rule has the id
  have honly : ∀ r ∈ w.rules, r.id = rule.id → r = rule := by
    intro r hr hid
    have hmem : r ∈ w.rulesOf rule.id := List.mem_filter.mpr ⟨hr, by simpa using hid⟩
    rw [hwaiting.2.2] at hmem
    exact List.mem_singleton.mp hmem
  let f (r : Rule) : Rule := if r.id = rule.id then { r with route := .named n } else r
  have hid (r : Rule) : (f r).id = r.id := by
    change (ite _ _ _ : Rule).id = _
    split_ifs <;> rfl
  have hwide : w.Widens (w.resolveRoute rule.id n) :=
    { Store.Widens.refl w with
      rules := fun r hr => by
        refine ⟨f r, List.mem_map_of_mem hr, ?_, fun hne => ?_⟩
        · change (ite _ _ _ : Rule).name = _
          split_ifs <;> rfl
        · -- a rule that has its route already is not the one that waits
          have hother : ¬r.id = rule.id := by
            intro heq
            rw [honly r hr heq] at hne
            exact hne hroute
          exact congrArg Rule.route (if_neg hother) }
  refine ⟨⟨?_, hwide, ?_⟩, hF w _ hFw hwide, ?_⟩
  · intro r hr
    obtain ⟨r', hr', rfl⟩ := List.mem_map.mp hr
    have hold := hids r' hr'
    have hsame := hid r'
    exact hsame.trans_lt hold
  · intro m _ hm
    have hne : ¬m = rule.id := fun heq => hm (by rw [heq]; exact hwaiting.1)
    change (w.rules.map f).filter (fun r => r.id = m) = w.rules.filter (fun r => r.id = m)
    induction w.rules with
    | nil => rfl
    | cons r rest ih =>
      rw [List.map_cons]
      by_cases hr : r.id = m
      · have hother : f r = r := if_neg (by rw [hr]; exact hne)
        rw [hother, List.filter_cons_of_pos (by simpa using hr),
          List.filter_cons_of_pos (by simpa using hr), ih]
      · have hfr : ¬(f r).id = m := by rwa [hid]
        rw [List.filter_cons_of_neg (by simpa using hfr),
          List.filter_cons_of_neg (by simpa using hr), ih]
  · refine List.mem_map.mpr ⟨rule, hwaiting.mem, if_pos rfl⟩

theorem stays_route (r : RouteSpec) (n : String) : Stays (fun w => w.HasRoute r n) :=
  fun _ _ hr hwide => hr.widen hwide

/-- A part of `addRule` that leaves its rule alone. -/
theorem follows_spare {α : Type} {P : Store → Prop} {p : Add α} {R : α → Store → Prop}
    (hp : Adds P p R) (rule : Rule) : Follows Store.discipline StartsWell
    (fun O w => P w ∧ Waiting rule O w) p (fun a O w => R a w ∧ Waiting rule O w) := by
  refine Follows.spare (x := rule.id) (F := fun w => w.rulesOf rule.id = [rule]) ?_ hp
  intro w w' hw hleaves
  exact Eq.trans hleaves hw

theorem follows_addRuleRoute (rule : Rule) (action : Option RouteArg)
    (hroute : rule.route = Store.ruleRoute action) : Follows Store.discipline StartsWell
    (Waiting rule) (addRuleRoute A rule action)
    (fun _ _ w => ∃ ru ∈ w.rules, ru.name = rule.name ∧ w.HasRouteArg action ru.route) := by
  rcases action with _ | (m | route | _)
  · exact Follows.pure (fun _ w _ h => ⟨rule, h.mem, rfl, hroute⟩)
  · exact Follows.pure (fun _ w _ h => ⟨rule, h.mem, rfl, hroute⟩)
  · unfold addRuleRoute
    have hname := follows_spare (P := fun _ => True)
      (adds_inlineName .route (rule.name ++ "-Route-") route.name) rule
    refine Follows.bind (hname.conseq (T := Waiting rule) (fun _ _ _ h => ⟨trivial, h⟩)
      (fun _ _ _ _ h => h)) (fun n => ?_)
    have hroutes : Adds (fun _ => NamedAs route.name n)
        (Co.await [] (addRoute A { route with name := some n } true))
        (fun _ w => w.HasRoute route n) := by
      refine adds_await ?_ (fun _ => stays_route route n)
      have hfact := adds_frame (F := fun _ => NamedAs route.name n) (fun _ _ h _ => h)
        (adds_addRoute A { route with name := some n } true)
      refine hfact.conseq (fun _ _ _ h => ⟨trivial, h⟩) (fun _ _ w _ h => ?_)
      obtain ⟨⟨n', hn', -, ro, hro, hron, hshows⟩, hn⟩ := h
      cases hn'
      exact ⟨hn, ro, hro, hron, hshows.destination, hshows.ingress, hshows.egress⟩
    -- the rule waits in the store while its route is added, and gets it at the end
    refine Follows.bind (follows_spare hroutes rule) (fun _ => ?_)
    refine (follows_resolveRoute hroute n (stays_route route n)).conseq (fun _ _ _ h => h)
      (fun _ _ w _ h => ?_)
    exact ⟨_, h.2, rfl, n, rfl, h.1⟩
  · exact Follows.throw _

theorem adds_addRule (r : RuleSpec) (auto : Bool) : Adds (fun _ => True) (addRule A r auto)
    (fun _ w => ∃ n, r.name = some n ∧ w.HasRule r n) := by
  unfold addRule
  refine Follows.bind (R := fun p _ w => p.1.id = w.nextId ∧ (p.1.route = Store.ruleRoute p.2 ∧
    r.name = some p.1.name ∧ r.action = .ok p.2)) (adds_look (fun w p _ hp => ?_)) (fun p => ?_)
  · unfold Store.admitRule at hp
    split at hp
    · rename_i hname haction
      split_ifs at hp
      cases hp
      exact ⟨rfl, rfl, hname, haction⟩
    · cases hp
    · cases hp
  obtain ⟨rule, action⟩ := p
  have hpush := Follows.frame (F := fun _ => rule.route = Store.ruleRoute action ∧
    r.name = some rule.name ∧ r.action = .ok action) (fun _ _ h _ => h) (follows_pushRule rule)
  refine Follows.bind hpush (fun _ O w hw h => ?_)
  obtain ⟨hwaiting, hroute, hname, haction⟩ := h
  refine (follows_addRuleRoute A rule action hroute).conseq (fun _ _ _ h => h)
    (fun _ _ w _ h => ?_) O w hw hwaiting
  exact ⟨rule.name, hname, fun _ => hname, action, haction, h⟩

theorem adds_addRuleArg (list : String) (rule : RuleArg) : Adds (fun _ => True)
    (addRuleArg A list rule) (fun n w => w.HasRuleArg rule n) := by
  cases rule with
  | named m => exact Follows.pure (fun _ _ _ _ => rfl)
  | null => exact Follows.throw _
  | other => exact Follows.throw _
  | inline r =>
    refine Follows.bind (R := fun n _ _ => NamedAs r.name n ∧ True)
      (Follows.conseq (adds_inlineName _ _ _) (fun _ _ _ h => h) (fun _ _ _ _ h => ⟨h, trivial⟩))
      (fun n => adds_of_fact (fun hn => ?_))
    have hhas : ∀ u : Unit, Stays (fun w => w.HasRule r n) :=
      fun _ _ _ hr hwide => hr.widen hwide
    refine Follows.bind (adds_await (R := fun _ w => w.HasRule r n) ?_ hhas)
      (fun _ => Follows.pure (fun _ _ _ h => h))
    refine (adds_addRule A { r with name := some n } true).conseq (fun _ _ _ h => h)
      (fun _ _ w _ h => ?_)
    obtain ⟨n', hn', -, hrule⟩ := h
    cases hn'
    exact ⟨hn, hrule⟩

/-- The rulelist object with these rules, among others perhaps. -/
def HoldsRules (rules : List RuleArg) (id : ℕ) (n : String) (w : Store) : Prop :=
  ∃ rl ∈ w.rulelists, rl.id = id ∧ rl.name = n ∧ ∀ r ∈ rules, ∃ m ∈ rl.rules, w.HasRuleArg r m

theorem HoldsRules.hasRules {rules : List RuleArg} {id : ℕ} {n : String} {w : Store}
    (h : HoldsRules rules id n w) {rules' : List RuleArg} (hsub : ∀ r ∈ rules', r ∈ rules) :
    w.HasRules rules' n := by
  obtain ⟨rl, hrl, -, hname, hall⟩ := h
  exact ⟨rl, hrl, hname, fun r hr => hall r (hsub r hr)⟩

theorem stays_holdsRules (rules : List RuleArg) (id : ℕ) (n : String) :
    Stays (HoldsRules rules id n) := by
  intro w w' h hwide
  obtain ⟨rl, hrl, hid, hname, hall⟩ := h
  obtain ⟨rl', hrl', hid', hname', hkept⟩ := hwide.rulelists rl hrl
  refine ⟨rl', hrl', hid'.trans hid, hname'.trans hname, fun r hr => ?_⟩
  obtain ⟨m, hm, hrule⟩ := hall r hr
  exact ⟨m, hkept m hm, hrule.widen hwide⟩

/-- One more rule comes to those that the rulelist has. -/
theorem adds_addRuleToRuleList (rules : List RuleArg) (id : ℕ) (n : String) (rule : RuleArg)
    (pos : ℤ) : Adds (HoldsRules rules id n) (addRuleToRuleList A id rule pos)
    (fun _ => HoldsRules (rule :: rules) id n) := by
  unfold addRuleToRuleList
  refine Follows.bind (adds_look (fun w _ h _ => h)) (fun list => ?_)
  have hrule := (adds_frame (stays_holdsRules rules id n) (adds_addRuleArg A list rule)).conseq
    (T := fun _ => HoldsRules rules id n) (fun _ _ _ h => ⟨trivial, h⟩) (fun _ _ _ _ h => h)
  refine Follows.bind hrule (fun m => adds_modify (fun w h => ?_))
  obtain ⟨hm, rl, hrl, hid, hname, hall⟩ := h
  -- others may have inserted rules meanwhile, so the position says nothing about the order
  let g (rl : RuleList) : RuleList := if rl.id = id then
    { rl with rules := rl.rules.take pos.toNat ++ m :: rl.rules.drop pos.toNat } else rl
  have hgrown (rl : RuleList) : (g rl).id = rl.id ∧ (g rl).name = rl.name ∧
      ∀ m ∈ rl.rules, m ∈ (g rl).rules := by
    by_cases hg : rl.id = id
    · have heq : g rl = { rl with
          rules := rl.rules.take pos.toNat ++ m :: rl.rules.drop pos.toNat } := if_pos hg
      rw [heq]
      refine ⟨rfl, rfl, fun k hk => ?_⟩
      rw [← List.take_append_drop pos.toNat rl.rules] at hk
      rcases List.mem_append.mp hk with hk | hk
      · exact List.mem_append_left _ hk
      · exact List.mem_append_right _ (List.mem_cons_of_mem _ hk)
    · have heq : g rl = rl := if_neg hg
      rw [heq]
      exact ⟨rfl, rfl, fun _ hk => hk⟩
  have hwide : w.Widens (w.insertRule id pos.toNat m) :=
    { Store.Widens.refl w with
      rulelists := fun rl hrl => ⟨g rl, List.mem_map_of_mem hrl, (hgrown rl).1, (hgrown rl).2.1,
        (hgrown rl).2.2⟩ }
  refine ⟨hwide, rfl, g rl, List.mem_map_of_mem hrl, (hgrown rl).1.trans hid,
    (hgrown rl).2.1.trans hname, fun r hr => ?_⟩
  rcases List.mem_cons.mp hr with rfl | hr
  · refine ⟨m, ?_, hm.widen hwide⟩
    have heq : g rl = { rl with
        rules := rl.rules.take pos.toNat ++ m :: rl.rules.drop pos.toNat } := if_pos hid
    rw [heq]
    exact List.mem_append_right _ List.mem_cons_self
  · obtain ⟨k, hk, hrule⟩ := hall r hr
    exact ⟨k, (hgrown rl).2.2 k hk, hrule.widen hwide⟩

theorem adds_addRules (id : ℕ) (n : String) (rules done : List RuleArg) (pos : ℕ) :
    Adds (HoldsRules done id n) (addRules A id pos rules)
      (fun _ w => w.HasRules (rules ++ done) n) := by
  induction rules generalizing done pos with
  | nil => exact Follows.pure (fun _ _ _ h => h.hasRules (fun _ hr => hr))
  | cons r rest ih =>
    -- the rulelist is found by its id, so another one of the same name is no danger to it
    refine Follows.bind (adds_await (adds_addRuleToRuleList A done id n r pos)
      (fun _ => stays_holdsRules (r :: done) id n)) (fun _ => ?_)
    refine (ih (r :: done) (pos+1)).conseq (fun _ _ _ h => h) (fun _ _ w _ h => ?_)
    obtain ⟨rl, hrl, hname, hall⟩ := h
    refine ⟨rl, hrl, hname, fun r' hr' => hall r' ?_⟩
    exact List.perm_middle.symm.subset hr'

theorem adds_addRuleList (r : RuleListSpec) (auto : Bool) : Adds (fun _ => True)
    (addRuleList A r auto)
    (fun _ w => ∃ n rules, r.name = some n ∧ r.rules = .ok rules ∧ w.HasRules rules n) := by
  unfold addRuleList
  refine Follows.bind (R := fun p _ _ => (r.name = some p.1.name ∧ r.rules = .ok p.2) ∧ True)
    (adds_look (fun w p _ hp => ?_)) (fun p => adds_of_fact (fun hfacts => ?_))
  · unfold Store.admitRuleList at hp
    split at hp
    · rename_i hname hrules
      split_ifs at hp
      cases hp
      exact ⟨⟨hname, hrules⟩, trivial⟩
    · cases hp
    · cases hp
  obtain ⟨rl, rules⟩ := p
  obtain ⟨hname, hrules⟩ := hfacts
  refine Follows.bind (adds_modify (P := fun _ => True) (R := fun _ => HoldsRules [] rl.id rl.name)
    (fun w _ => ⟨?_, rfl, ?_⟩)) (fun _ => ?_)
  · exact { Store.Widens.refl w with
      rulelists := fun rl hrl => ⟨rl, List.mem_append_left _ hrl, rfl, rfl, fun _ hm => hm⟩
      nextId := Nat.le_succ _ }
  · exact ⟨rl, List.mem_append_right _ List.mem_cons_self, rfl, rfl, fun r hr => by cases hr⟩
  · refine (adds_addRules A rl.id rl.name rules [] 0).conseq (fun _ _ _ h => h)
      (fun _ _ w _ h => ?_)
    rw [List.append_nil] at h
    exact ⟨rl.name, rules, hname, hrules, h⟩

theorem adds_addListenerRules (li : Listener) (rules : ListenerRules) : Adds (fun _ => True)
    (addListenerRules A li rules) (fun n w => w.HasListenerRules rules n) := by
  cases rules with
  | named m => exact Follows.pure (fun _ _ _ _ => rfl)
  | inline rules =>
    refine Follows.bind (adds_inlineName _ _ _) (fun n => ?_)
    have hlist : Adds (fun _ => NamedAs none n) (Co.await [Held.listener li.name]
        (addRuleList A ⟨.plain, some n, .ok rules⟩ true)) (fun _ w => w.HasRules rules n) := by
      refine adds_await ?_ (fun _ _ _ hr hwide => hr.widen hwide)
      refine (adds_addRuleList A ⟨.plain, some n, .ok rules⟩ true).conseq (fun _ _ _ _ => trivial)
        (fun _ _ w _ h => ?_)
      obtain ⟨n', rules', hn, hrules, hlist⟩ := h
      cases hn
      cases hrules
      exact hlist
    exact Follows.bind hlist (fun _ => Follows.pure (fun _ _ _ h => h))

theorem adds_addListener (l : ListenerSpec) (auto : Bool) : Adds (fun _ => True)
    (addListener A l auto) (fun _ w => w.HasListener l) := by
  unfold addListener
  refine Follows.bind (R := fun p _ _ => (l.name = some p.1.name ∧ l.spec = .ok p.1.protocol ∧
    l.rules = .ok p.2) ∧ True)
    (adds_look (fun w p _ hp => ?_)) (fun p => adds_of_fact (fun hfacts => ?_))
  · unfold Store.admitListener at hp
    split at hp
    · rename_i hname hspec hrules
      split_ifs at hp
      split at hp <;> cases hp
      exact ⟨⟨hname, hspec, hrules⟩, trivial⟩
    · cases hp
    · cases hp
  obtain ⟨li, rules⟩ := p
  obtain ⟨hname, hspec, hrules⟩ := hfacts
  have hstays : Stays (fun w => w.HasListener l) := by
    intro w w' h hwide
    obtain ⟨li, hli, hname, hspec, rules, hrules, hlist⟩ := h
    exact ⟨li, hwide.listeners li hli, hname, hspec, rules, hrules, hlist.widen hwide⟩
  -- the id is taken now, the listener is pushed after its rulelist
  refine Follows.bind (adds_modify (P := fun _ => True) (R := fun _ _ => True)
    (fun w _ => ⟨?_, rfl, trivial⟩)) (fun _ => ?_)
  · exact { Store.Widens.refl w with nextId := Nat.le_succ _ }
  refine Follows.bind (adds_addListenerRules A li rules) (fun n => ?_)
  refine Follows.bind (adds_modify (R := fun _ w => w.HasListener l) (fun w h => ?_))
    (fun _ => adds_started hstays rfl _)
  have hwide : w.Widens (w.pushListener { li with rules := n }) :=
    { Store.Widens.refl w with listeners := fun l hl => List.mem_append_left _ hl }
  refine ⟨hwide, rfl, _, List.mem_append_right _ List.mem_cons_self, hname, hspec, rules, hrules,
    ?_⟩
  exact h.widen hwide

end Additions

/-- What changes the sessions only. -/
theorem adds_sessions {f : Store → Store} (hc : ∀ w, (f w).toConfig = w.toConfig)
    (hr : ∀ w, (f w).rejections = w.rejections) (hn : ∀ w, (f w).nextId = w.nextId) :
    Adds (fun _ => True) (Co.modify f) (fun _ _ => True) := by
  refine adds_modify (fun w _ => ⟨Store.Widens.of_config (hc w) (fun e he => ?_) (hn w).ge, ?_,
    trivial⟩)
  · rw [hr]
    exact he
  · exact congrArg Config.rules (hc w)

/-- Every addition does what it is for. -/
theorem adds_program (c : Call) (h : c.request.additive = true) :
    Adds (fun _ => True) c.program (fun _ => c.request.Done) := by
  obtain ⟨A, r⟩ := c
  cases r with
  | addListener l => exact adds_addListener A l false
  | addCluster c => exact adds_addCluster A c false
  | addRuleList r => exact adds_addRuleList A r false
  | addRule r => exact adds_addRule A r false
  | addRoute r => exact adds_addRoute A r false
  | addRuleToRuleList list rule pos =>
    refine Follows.bind (R := fun id _ w => HoldsRules [] id list w)
      (adds_look (fun w id _ hid => ?_)) (fun id => ?_)
    · unfold Store.findRuleList at hid
      split at hid
      · cases hid
      · rename_i rl hrl
        cases hid
        obtain ⟨hmem, hname⟩ := lookup_some hrl
        exact ⟨rl, hmem, rfl, hname, fun r hr => by cases hr⟩
    · exact (adds_addRuleToRuleList A [] id list rule pos).conseq (fun _ _ _ h => h)
        (fun _ _ _ _ h => h.hasRules (fun _ hr => hr))
  | addEndPoint c ep =>
    refine adds_sync (fun w _ => ?_)
    obtain ⟨hwide, hrules, hadded⟩ := Store.addEndPoint_spec c ep w
    exact ⟨hwide, hrules, fun _ hu => hadded hu⟩
  | addSession name id origin err st =>
    exact adds_sessions (fun _ => rfl) (fun _ => rfl) (fun _ => rfl)
  | session j e =>
    have hkeep (w : Store) : (w.stepSession j e).toConfig = w.toConfig ∧
        (w.stepSession j e).rejections = w.rejections ∧
        (w.stepSession j e).nextId = w.nextId := by
      unfold Store.stepSession
      split
      · exact ⟨rfl, rfl, rfl⟩
      · split_ifs
        · split <;> exact ⟨rfl, rfl, rfl⟩
        · exact ⟨rfl, rfl, rfl⟩
    exact adds_sessions (fun w => (hkeep w).1) (fun w => (hkeep w).2.1) (fun w => (hkeep w).2.2)
  | dropSession j => exact adds_sessions (fun _ => rfl) (fun _ => rfl) (fun _ => rfl)
  | _ => cases h

/-- The API server: the configuration API and the sessions, with the answers to the requests. -/
abbrev ApiServer := Server Store Call (Option Err) Held Err

namespace ApiServer

abbrev step : ApiServer → Event Call (Option Err) → Option ApiServer := Server.step Call.program

/-- Nothing is taken away, and nothing fails to start. -/
abbrev Additive : ApiServer → Event Call (Option Err) → Prop :=
  Server.Takes (fun c => c.request.additive = true) StartsWell

/-- Without its answers the server is the configuration API at work. -/
theorem runs_world {s : Store} {v : ApiServer} (h : GuardedRun.Run step GuardedRun.always
    (Server.start s) v) : GuardedRun.Run World.step GuardedRun.always ⟨s, []⟩ v.pool := by
  induction h with
  | refl => exact GuardedRun.Run.refl _
  | tail _ hstep ih =>
    obtain ⟨e, _, he⟩ := hstep
    exact ih.tail ⟨e, trivial, Server.step_pool he⟩

/-- As long as nothing is taken away and nothing fails to start, in any interleaving of requests:
each is answered once or pending, and what one that was answered with success has added is there,
with everything that is inline in it. -/
theorem answered_done (s : Store) (hs : s.IdsUsed) (v : ApiServer)
    (hrun : GuardedRun.Run step Additive (Server.start s) v) :
    v.Balanced ∧ ∀ p ∈ v.answers, p.2 = .ok () →
      ∃ c, v.asked[p.1]? = some c ∧ c.request.Done v.state :=
  Server.answered (fun c hc => adds_program c hc)
    (fun _ _ _ hdone hwide => Store.done_widen hwide hdone) hs hrun

/-- A listener and a rulelist, one inside the other's turns. -/
def twoAtOnce : List (Event Call (Option Err)) :=
  [World.inlineListener "l" [.inline ⟨.plain, none, .ok (some (.inline ⟨.plain, none,
      .named "c", .absent, .absent, .absent⟩))⟩],
    .call ⟨World.noAnswers, .addRuleList ⟨.plain, some "k", .ok [.named "r"]⟩⟩,
    .resume 0 none, .resume 0 none, .resume 0 none, .resume 0 none, .resume 0 none,
    .resume 0 none]

theorem answered_done_twoAtOnce : Store.empty.IdsUsed ∧
    ∃ v, GuardedRun.exec step Additive (Server.start Store.empty) twoAtOnce = some v ∧
      v.answers = [(1, .ok ()), (0, .ok ())] ∧ ∃ c, v.asked[0]? = some c ∧
        c.request.Done v.state := by
  have hids : Store.empty.IdsUsed := by
    intro r hr
    cases hr
  obtain ⟨v, hv⟩ : ∃ v, GuardedRun.exec step Additive (Server.start Store.empty) twoAtOnce =
      some v := ⟨_, rfl⟩
  have hdone := (answered_done Store.empty hids v (GuardedRun.exec_run _ _ _ hv)).2
  have hanswers : v.answers = [(1, .ok ()), (0, .ok ())] := by
    cases hv
    rfl
  refine ⟨hids, v, hv, hanswers, hdone (0, .ok ()) ?_ rfl⟩
  rw [hanswers]
  exact List.mem_cons_of_mem _ List.mem_cons_self

end ApiServer
end L7mp
