import L7mp.StoreRun

/-! Which properties of the store its requests keep: it is enough to look at the elementary
changes, and at the freedom of a name where it is pushed. -/
namespace L7mp
open Aborting Coroutine KeyedList Pool

namespace Store

/-- Nothing changed but references, counters and errors. -/
structure Same (w w' : Store) : Prop where
  listeners : w'.listeners.map Listener.name = w.listeners.map Listener.name
  clusters : w'.clusters = w.clusters
  rulelists : w'.rulelists.map RuleList.name = w.rulelists.map RuleList.name
  rules : w'.rules.map Rule.name = w.rules.map Rule.name
  routes : w'.routes = w.routes
  endpoints : w'.endpoints = w.endpoints
  sessions : w'.sessions = w.sessions
  listIds : w'.rulelists.map RuleList.id = w.rulelists.map RuleList.id
  ruleIds : w'.rules.map Rule.id = w.rules.map Rule.id
  nextId : w.nextId ≤ w'.nextId

theorem Same.refl (w : Store) : Same w w :=
  ⟨rfl, rfl, rfl, rfl, rfl, rfl, rfl, rfl, rfl, Nat.le_refl _⟩

theorem same_bump (k : Kind) (w : Store) : Same w (w.bump k) := { Same.refl w with }

theorem map_modified {α β : Type} {key : α → β} {f : α → α} (hf : ∀ a, key (f a) = key a)
    {p : α → Prop} [DecidablePred p] (l : List α) :
    (l.map (fun a => if p a then f a else a)).map key = l.map key := by
  rw [List.map_map]
  apply List.map_congr_left
  intro a _
  rw [Function.comp_apply]
  split_ifs
  · exact hf a
  · rfl

theorem same_inlineName (k : Kind) (base : String) (name : Option String) (w : Store) :
    Same w (w.inlineName k base name).2 := by
  unfold inlineName
  split_ifs
  · exact same_bump k w
  · exact Same.refl w

theorem same_modifyListener {f : Listener → Listener} (hf : ∀ l, (f l).name = l.name) (id : ℕ)
    (w : Store) : Same w (w.modifyListener id f) :=
  { Same.refl w with listeners := map_modified hf _ }

theorem same_modifyRule {f : Rule → Rule} (hf : ∀ r, (f r).name = r.name)
    (hid : ∀ r, (f r).id = r.id) (id : ℕ) (w : Store) : Same w (w.modifyRule id f) :=
  { Same.refl w with rules := map_modified hf _, ruleIds := map_modified hid _ }

theorem same_modifyRuleList {f : RuleList → RuleList} (hf : ∀ rl, (f rl).name = rl.name)
    (hid : ∀ rl, (f rl).id = rl.id) (id : ℕ) (w : Store) : Same w (w.modifyRuleList id f) :=
  { Same.refl w with rulelists := map_modified hf _, listIds := map_modified hid _ }

theorem same_unhandled {α : Type} (r : Except Err α) (w : Store) : Same w (w.unhandled r) := by
  cases r
  · exact { Same.refl w with }
  · exact Same.refl w

theorem same_takeId (w : Store) : Same w w.takeId :=
  { Same.refl w with nextId := Nat.le_succ w.nextId }

end Store

/-- The elementary changes that a deletion consists of keep `I`. -/
structure Lasting (I : Store → Prop) : Prop where
  same : ∀ w w' : Store, w.Same w' → I w → I w'
  removeListener : ∀ n (w : Store), I w →
    I { w with listeners := remove Listener.name n w.listeners }
  deleteCluster : ∀ A b n (w : Store), I w → I (w.deleteCluster A b n).2
  dropRuleList : ∀ n (w : Store), I w → I (w.dropRuleList n)
  removeRule : ∀ n (w : Store), I w → I { w with rules := remove Rule.name n w.rules }
  removeRoute : ∀ n (w : Store), I w → I { w with routes := remove Route.name n w.routes }
  deleteEndPoint : ∀ A b n (w : Store), I w → I (w.deleteEndPoint A b n).2
  sessions : ∀ l (w : Store), I w → ((∀ s ∈ w.sessions, s.Staged) → ∀ s ∈ l, s.Staged) →
    I { w with sessions := l }

/-- All elementary changes of the store keep `I`. A listener or route is pushed where `H` holds
of its name, an endpoint where `F` does; both hold of names that are free. -/
structure Stable (H : Held → Store → Prop) (F : String → Store → Prop) (I : Store → Prop) :
    Prop extends Lasting I where
  heldSame : ∀ x (w w' : Store), w.Same w' → H x w → H x w'
  freeSame : ∀ n (w w' : Store), w.Same w' → F n w → F n w'
  freeListener : ∀ n (w : Store), w.getListener n = none → H (.listener n) w
  freeRoute : ∀ n (w : Store), w.getRoute n = none → H (.route n) w
  freeEndPoint : ∀ n (w : Store), w.getEndPoint n = none → F n w
  pushListener : ∀ l (w : Store), I w → H (.listener l.name) w → I (w.pushListener l)
  pushCluster : ∀ cu (w : Store), I w → w.getCluster cu.name = none → cu.endpoints = [] →
    I (w.pushCluster cu)
  pushRuleList : ∀ rl (w : Store), I w → w.getRuleList rl.name = none ∧ rl.id = w.nextId →
    I (w.pushRuleList rl)
  pushRule : ∀ r (w : Store), I w → w.getRule r.name = none ∧ r.id = w.nextId → I (w.pushRule r)
  pushRoute : ∀ r (w : Store), I w → H (.route r.name) w → I (w.pushRoute r)
  pushEndPoint : ∀ ep cl (w : Store), I w → w.getCluster ep.cluster = some cl → F ep.name w →
    I (w.pushEndPoint ep)

namespace Lasting

variable {I : Store → Prop} (h : Lasting I) (A : Answers)
include h

theorem deleteGeneratedCluster (b : Bool) (n : String) (w : Store) (hw : I w) :
    I (w.deleteGeneratedCluster A b n).2 := by
  unfold Store.deleteGeneratedCluster
  split
  · split_ifs
    · exact h.deleteCluster A b n w hw
    · exact hw
  · exact hw

theorem deleteRoute (b : Bool) (n : String) (w : Store) (hw : I w) :
    I (w.deleteRoute A b n).2 := by
  unfold Store.deleteRoute
  split
  · exact hw
  · refine seq_keeps (I := I) ?_ (h.removeRoute n) hw
    intro w hw
    split_ifs
    · exact forEach_keeps (h.deleteGeneratedCluster A b) _ hw
    · exact hw

theorem deleteGeneratedRoute (b : Bool) (n : String) (w : Store) (hw : I w) :
    I (w.deleteGeneratedRoute A b n).2 := by
  unfold Store.deleteGeneratedRoute
  split
  · split_ifs
    · exact h.deleteRoute A b n w hw
    · exact hw
  · exact hw

theorem deleteRouteOf (b : Bool) (r : RuleRoute) (w : Store) (hw : I w) :
    I (Store.deleteRouteOf A b r w).2 := by
  cases r with
  | named n => exact h.deleteGeneratedRoute A b n w hw
  | absent | unresolved => exact hw

theorem deleteRule (b : Bool) (n : String) (w : Store) (hw : I w) :
    I (w.deleteRule A b n).2 := by
  unfold Store.deleteRule
  split
  · exact hw
  · refine seq_keeps (I := I) ?_ (h.removeRule n) hw
    intro w hw
    split
    · exact h.deleteRouteOf A b _ w hw
    · exact hw

theorem deleteRuleAt (b : Bool) (r : Option String) (w : Store) (hw : I w) :
    I (Store.deleteRuleAt A b r w).2 := by
  cases r with
  | none => exact hw
  | some n => exact h.deleteRule A b n w hw

theorem deleteRuleFromRuleList (b : Bool) (id : ℕ) (pos : ℤ) (w : Store) (hw : I w) :
    I (w.deleteRuleFromRuleList A b id pos).2 := by
  unfold Store.deleteRuleFromRuleList
  split
  · exact hw
  · split
    · exact hw
    · refine seq_keeps (I := I) ?_ ?_ hw
      · intro w hw
        split
        · exact h.deleteRuleAt A b _ w hw
        · exact hw
      · intro w hw
        refine h.same w _ (Store.same_modifyRuleList ?_ ?_ id w) hw
        · exact fun _ => rfl
        · exact fun _ => rfl

theorem deleteRuleOf (b : Bool) (id : ℕ) (n : String) (w : Store) (hw : I w) :
    I (w.deleteRuleOf A b id n).2 := by
  unfold Store.deleteRuleOf
  split
  · refine seq_keeps (I := I) ?_ (h.deleteRule A b n) hw
    intro w hw
    split
    · exact h.deleteRuleFromRuleList A false id _ w hw
    · exact hw
  · exact h.deleteRule A b n w hw

theorem deleteRuleList (b : Bool) (n : String) (w : Store) (hw : I w) :
    I (w.deleteRuleList A b n).2 := by
  unfold Store.deleteRuleList
  split
  · exact hw
  · refine seq_keeps (I := I) ?_ (h.dropRuleList n) hw
    intro w hw
    split_ifs
    · exact forEach_keeps (h.deleteRuleOf A b _) _ hw
    · exact hw

theorem deleteGeneratedRuleList (b : Bool) (n : String) (w : Store) (hw : I w) :
    I (w.deleteGeneratedRuleList A b n).2 := by
  unfold Store.deleteGeneratedRuleList
  split
  · split_ifs
    · exact h.deleteRuleList A b n w hw
    · exact hw
  · exact hw

theorem deleteListener (b : Bool) (n : String) (w : Store) (hw : I w) :
    I (w.deleteListener A b n).2 := by
  unfold Store.deleteListener
  split
  · exact hw
  · refine seq_keeps (I := I) ?_ ?_ hw
    · intro w hw
      split
      · refine seq_keeps (I := I) (h.deleteGeneratedRuleList A b _) ?_ hw
        intro w hw
        refine h.sessions _ w hw (fun hall s hs => ?_)
        obtain ⟨u, hu, rfl⟩ := List.mem_map.mp hs
        split_ifs
        · exact (hall u hu).end_
        · exact hall u hu
      · exact hw
    · intro w hw
      refine seq_keeps (I := I) ?_ (h.removeListener n) hw
      intro w hw
      split <;> exact hw

end Lasting

namespace Stable

variable {H : Held → Store → Prop} {F : String → Store → Prop} {I : Store → Prop}
  (h : Stable H F I) (A : Answers)
include h

theorem inlineName {α : Type} (k : Kind) (base : String) (name : Option String) {P : Store → Prop}
    {f : String → Add α} {Q : α → Store → Prop}
    (hf : ∀ n, Keeps I H (fun _ => True) (f n) Q) :
    Keeps I H P (Add.sync (Store.inlineName k base name) >>= f) Q := by
  refine Keeps.bind (Q := fun _ _ => True) (Keeps.atomic ?_) hf
  intro w hw _
  exact ⟨h.same w _ (Store.same_inlineName k base name w) hw, fun _ _ => trivial⟩

theorem addEndPoint (c : String) (ep : EndPointSpec) (w : Store) (hw : I w)
    (hfree : ep.name = none → ∀ cl, w.getCluster c = some cl → F (w.endPointName cl ep) w) :
    I (w.addEndPoint c ep).2 := by
  unfold Store.addEndPoint
  split
  · exact hw
  · split
    · exact hw
    · rename_i hname
      split
      · exact hw
      · rename_i cl hcl
        have hindex (i : ℕ) : w.Same (w.setIndex .endpoint i) := { Store.Same.refl w with }
        have hnew : F (w.endPointName cl ep) w := by
          cases hn : ep.name with
          | none => exact hfree hn cl hcl
          | some n =>
            unfold Store.endPointName
            rw [hn] at hname ⊢
            exact h.freeEndPoint n w (by simpa using hname)
        obtain rfl : cl.name = c := (lookup_some hcl).2
        split
        · exact h.same w _ (hindex _) hw
        · refine h.pushEndPoint _ cl _ (h.same w _ (hindex _) hw) hcl ?_
          exact h.freeSame _ w _ (hindex _) hnew

theorem addEndPoints (cu : String) (eps : List EndPointArg) (w : Store) (hw : I w) :
    I (w.addEndPoints cu eps).2 := by
  induction eps generalizing w with
  | nil => exact hw
  | cons ep rest ih =>
    cases ep with
    | null => exact hw
    | primitive =>
      have hsame := h.same w _ (Store.same_inlineName .endpoint (cu ++ "-EndPoint-") none w) hw
      unfold Store.addEndPoints
      split <;> rename_i heq <;> rw [heq] at hsame <;> exact hsame
    | inline ep =>
      have hsame := h.same w _ (Store.same_inlineName .endpoint (cu ++ "-EndPoint-") ep.name w) hw
      unfold Store.addEndPoints
      split
      · rename_i heq
        rw [heq] at hsame
        exact hsame
      · rename_i n w' heq
        rw [heq] at hsame
        apply ih
        refine h.same _ _ (Store.same_unhandled _ _) (h.addEndPoint cu _ _ hsame ?_)
        intro hnone
        cases hnone

/-- `addCluster` pushes its cluster in the piece that found the name free. -/
theorem addCluster (c : ClusterSpec) (auto : Bool) :
    Keeps I H (fun _ => True) (addCluster A c auto) (fun _ _ => True) := by
  unfold L7mp.addCluster
  refine Keeps.bind
    (Q := fun cu w => w.getCluster cu.name = none ∧ cu.endpoints = []) (Keeps.atomic ?_) ?_
  · intro w hw _
    refine ⟨hw, fun cu hcu => ?_⟩
    unfold Store.admitCluster at hcu
    split at hcu
    · split_ifs at hcu with hdup
      split at hcu <;> cases hcu
      exact ⟨by simpa using hdup, rfl⟩
    · cases hcu
    · cases hcu
  intro cu
  refine Keeps.bind (Q := fun _ _ => True) (Keeps.modify ?_) (fun _ => ?_)
  · intro w hw hcu
    exact ⟨h.pushCluster cu w hw hcu.1 hcu.2, trivial⟩
  refine Keeps.bind (Q := fun _ _ => True) ?_ (fun _ => ?_)
  · cases c.endpoints with
    | absent => exact Keeps.pure (fun _ _ => trivial)
    | invalid => exact Keeps.throw _
    | ok eps =>
      apply Keeps.atomic
      intro w hw _
      exact ⟨h.addEndPoints cu.name eps w hw, fun _ _ => trivial⟩
  refine Keeps.rescue ?_ (fun e => ?_)
  · refine Keeps.bind (Q := fun _ _ => True) (Keeps.input.conseq (fun _ => id) (fun _ _ _ => trivial))
      (fun outcome => ?_)
    split
    · exact Keeps.throw _
    · exact Keeps.pure (fun _ _ => trivial)
  · refine Keeps.bind (Q := fun _ _ => True) (Keeps.atomic ?_) (fun _ => Keeps.throw _)
    intro w hw _
    exact ⟨h.deleteCluster A true cu.name w hw, fun _ _ => trivial⟩

/-- After a cluster of route `n` was added, the name of the route is still free. -/
theorem addRouteCluster (n base what : String) (c : ClusterArg) :
    Keeps I H (H (.route n)) (addRouteCluster A n base what c) (fun _ => H (.route n)) := by
  cases c with
  | named c => exact Keeps.pure (fun _ => id)
  | null => exact Keeps.throw _
  | other => exact Keeps.throw _
  | inline c =>
    refine h.inlineName _ _ _ (fun name => ?_)
    refine Keeps.bind (Keeps.await (h.addCluster A _ true)) (fun _ => ?_)
    exact Keeps.pure (fun w hheld => hheld _ List.mem_cons_self)

theorem addRouteChain (n dir : String) (cs : List ClusterArg) :
    Keeps I H (H (.route n)) (addRouteChain A n dir cs) (fun _ => H (.route n)) := by
  induction cs with
  | nil => exact Keeps.pure (fun _ => id)
  | cons c rest ih =>
    refine Keeps.bind (h.addRouteCluster A n _ _ c) (fun name => ?_)
    refine Keeps.bind ih (fun names => ?_)
    exact Keeps.pure (fun _ => id)

theorem addRoute (r : RouteSpec) (auto : Bool) :
    Keeps I H (fun _ => True) (addRoute A r auto) (fun _ _ => True) := by
  unfold L7mp.addRoute
  refine Keeps.bind (Q := fun n => H (.route n)) (Keeps.atomic ?_) (fun n => ?_)
  · intro w hw _
    refine ⟨hw, fun n hn => ?_⟩
    unfold Store.admitRoute at hn
    split_ifs at hn
    split at hn
    · split_ifs at hn with hdup
      cases hn
      exact h.freeRoute _ w (by simpa using hdup)
    · cases hn
    · cases hn
  refine Keeps.bind (h.addRouteCluster A n _ _ _) (fun destination => ?_)
  refine Keeps.bind (h.addRouteChain A n _ _) (fun ingress => ?_)
  refine Keeps.bind (h.addRouteChain A n _ _) (fun egress => Keeps.modify ?_)
  intro w hw hheld
  exact ⟨h.pushRoute _ w hw hheld, trivial⟩

theorem addRule (r : RuleSpec) (auto : Bool) :
    Keeps I H (fun _ => True) (addRule A r auto) (fun _ _ => True) := by
  unfold L7mp.addRule
  refine Keeps.bind (Q := fun p w => w.getRule p.1.name = none ∧ p.1.id = w.nextId)
    (Keeps.atomic ?_) ?_
  · intro w hw _
    refine ⟨hw, fun p hp => ?_⟩
    unfold Store.admitRule at hp
    split at hp
    · split_ifs at hp with hdup
      cases hp
      simpa using hdup
    · cases hp
    · cases hp
  rintro ⟨rule, route⟩
  refine Keeps.bind (Q := fun _ _ => True) (Keeps.modify ?_) (fun _ => ?_)
  · intro w hw hfree
    exact ⟨h.pushRule rule w hw hfree, trivial⟩
  cases route with
  | none => exact Keeps.pure (fun _ => id)
  | some route =>
    cases route with
    | named n => exact Keeps.pure (fun _ => id)
    | other => exact Keeps.throw _
    | inline route =>
      refine h.inlineName _ _ _ (fun n => ?_)
      refine Keeps.bind (Keeps.await (h.addRoute A _ true)) (fun _ => Keeps.modify ?_)
      intro w hw _
      refine ⟨h.same w _ (Store.same_modifyRule ?_ ?_ _ w) hw, trivial⟩
      · exact fun _ => rfl
      · exact fun _ => rfl

theorem addRuleToRuleList (id : ℕ) (rule : RuleArg) (pos : ℤ) {P : Store → Prop} :
    Keeps I H P (addRuleToRuleList A id rule pos) (fun _ _ => True) := by
  unfold L7mp.addRuleToRuleList
  refine Keeps.bind (Q := fun _ _ => True) (Keeps.atomic (fun w hw _ => ⟨hw, fun _ _ => trivial⟩))
    (fun list => ?_)
  refine Keeps.bind (Q := fun _ _ => True) ?_ (fun n => Keeps.modify ?_)
  · cases rule with
    | named n => exact Keeps.pure (fun _ _ => trivial)
    | null => exact Keeps.throw _
    | other => exact Keeps.throw _
    | inline r =>
      refine h.inlineName _ _ _ (fun n => ?_)
      refine Keeps.bind (Keeps.await (h.addRule A _ true)) (fun _ => ?_)
      exact Keeps.pure (fun _ _ => trivial)
  · intro w hw _
    refine ⟨h.same w _ (Store.same_modifyRuleList ?_ ?_ _ w) hw, trivial⟩
    · exact fun _ => rfl
    · exact fun _ => rfl

theorem addRules (id : ℕ) (rules : List RuleArg) (pos : ℕ) {P : Store → Prop} :
    Keeps I H P (addRules A id pos rules) (fun _ _ => True) := by
  induction rules generalizing pos P with
  | nil => exact Keeps.pure (fun _ _ => trivial)
  | cons r rest ih =>
    refine Keeps.bind (Keeps.await (h.addRuleToRuleList A id r pos)) (fun _ => ?_)
    exact ih (pos+1)

theorem addRuleList (r : RuleListSpec) (auto : Bool) :
    Keeps I H (fun _ => True) (addRuleList A r auto) (fun _ _ => True) := by
  unfold L7mp.addRuleList
  refine Keeps.bind (Q := fun p w => w.getRuleList p.1.name = none ∧ p.1.id = w.nextId)
    (Keeps.atomic ?_) ?_
  · intro w hw _
    refine ⟨hw, fun p hp => ?_⟩
    unfold Store.admitRuleList at hp
    split at hp
    · split_ifs at hp with hdup
      cases hp
      simpa using hdup
    · cases hp
    · cases hp
  rintro ⟨rl, rules⟩
  refine Keeps.bind (Q := fun _ _ => True) (Keeps.modify ?_) (fun _ => h.addRules A _ rules 0)
  intro w hw hfree
  exact ⟨h.pushRuleList rl w hw hfree, trivial⟩

/-- A listener waits for its rulelist between the check of its name and its push. -/
theorem addListener (l : ListenerSpec) (auto : Bool) :
    Keeps I H (fun _ => True) (addListener A l auto) (fun _ _ => True) := by
  unfold L7mp.addListener
  refine Keeps.bind (Q := fun p => H (.listener p.1.name)) (Keeps.atomic ?_) ?_
  · intro w hw _
    refine ⟨hw, fun p hp => ?_⟩
    unfold Store.admitListener at hp
    split at hp
    · split_ifs at hp with hdup
      split at hp <;> cases hp
      exact h.freeListener _ w (by simpa using hdup)
    · cases hp
    · cases hp
  rintro ⟨li, rules⟩
  refine Keeps.bind (Q := fun _ => H (.listener li.name)) (Keeps.modify ?_) (fun _ => ?_)
  · intro w hw hheld
    have hsame := Store.same_takeId w
    exact ⟨h.same w _ hsame hw, h.heldSame _ w _ hsame hheld⟩
  refine Keeps.bind (Q := fun _ => H (.listener li.name)) ?_ (fun n => ?_)
  · cases rules with
    | named n => exact Keeps.pure (fun _ => id)
    | inline rules =>
      refine h.inlineName _ _ _ (fun n => ?_)
      refine Keeps.bind (Keeps.await (h.addRuleList A _ true)) (fun _ => ?_)
      exact Keeps.pure (fun w hheld => hheld _ List.mem_cons_self)
  refine Keeps.bind (Q := fun _ _ => True) (Keeps.modify ?_) (fun _ => ?_)
  · intro w hw hheld
    exact ⟨h.pushListener { li with rules := n } w hw hheld, trivial⟩
  refine Keeps.rescue ?_ (fun e => ?_)
  · refine Keeps.bind (Q := fun _ _ => True) (Keeps.input.conseq (fun _ => id) (fun _ _ _ => trivial))
      (fun outcome => ?_)
    split
    · refine Keeps.bind (Q := fun _ _ => True) (Keeps.modify ?_) (fun _ => Keeps.throw _)
      intro w hw _
      refine ⟨?_, trivial⟩
      unfold Store.loseServer
      split_ifs
      · refine h.same w _ (Store.same_modifyListener ?_ _ w) hw
        exact fun _ => rfl
      · exact hw
    · exact Keeps.pure (fun _ _ => trivial)
  · refine Keeps.bind (Q := fun _ _ => True) (Keeps.atomic ?_) (fun _ => Keeps.throw _)
    intro w hw _
    exact ⟨h.deleteListener A true li.name w hw, fun _ _ => trivial⟩

end Stable
end L7mp
