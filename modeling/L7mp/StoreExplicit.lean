import L7mp.StoreNames

/-! Objects that were not generated only go by a request that names them, whatever else is added
and deleted at the same time. -/
namespace L7mp
open Aborting Coroutine GuardedRun KeyedList Pool

/-- The collections whose objects may be shared. Rules are not among them: they go with the
rulelist that has them. -/
inductive Collection
  | listeners | clusters | rulelists | routes
  deriving DecidableEq, Repr

/-- What stays of an object as long as it is there. -/
inductive Standing
  | listener (id : ℕ) (protocol : ListenerProtocol) (rules : String)
  | cluster (protocol : ClusterProtocol)
  | rulelist (id : ℕ)
  | route (r : Route)
  deriving DecidableEq, Repr

/-- The collection and the name that a request deletes. -/
def Request.deletes : Request → Option (Collection × String)
  | .deleteListener n _ => some (.listeners, n)
  | .deleteCluster n _ => some (.clusters, n)
  | .deleteRuleList n _ => some (.rulelists, n)
  | .deleteRoute n _ => some (.routes, n)
  | _ => none

def Listener.entry (l : Listener) : String × Bool × Standing :=
  (l.name, l.autogenerated, .listener l.id l.protocol l.rules)

def Cluster.entry (c : Cluster) : String × Bool × Standing :=
  (c.name, c.autogenerated, .cluster c.protocol)

def RuleList.entry (rl : RuleList) : String × Bool × Standing :=
  (rl.name, rl.autogenerated, .rulelist rl.id)

def Route.entry (r : Route) : String × Bool × Standing := (r.name, r.autogenerated, .route r)

namespace Store

/-- A collection, by its names. -/
def entries (w : Store) : Collection → List (String × Bool × Standing)
  | .listeners => w.listeners.map Listener.entry
  | .clusters => w.clusters.map Cluster.entry
  | .rulelists => w.rulelists.map RuleList.entry
  | .routes => w.routes.map Route.entry

/-- The name leads to an object that was not generated. -/
def Explicit (k : Collection) (n : String) (i : Standing) (w : Store) : Prop :=
  (w.entries k).lookup n = some (false, i)

instance (k : Collection) (n : String) (i : Standing) (w : Store) : Decidable (w.Explicit k n i) :=
  inferInstanceAs (Decidable (_ = _))

theorem lookup_entries {α β : Type} {key : α → String} {entry : α → β} {n : String} {l : List α} :
    (l.map (fun a => (key a, entry a))).lookup n = (lookup key n l).map entry := by
  induction l with
  | nil => rfl
  | cons a l ih =>
    unfold KeyedList.lookup at ih ⊢
    rw [List.map_cons, List.lookup_cons, List.find?_cons]
    by_cases h : key a = n
    · rw [h, beq_self_eq_true, decide_eq_true rfl]
      rfl
    · rw [beq_false_of_ne (Ne.symm h), decide_eq_false h]
      exact ih

/-- Another object is found as before when one is removed. -/
theorem lookup_entries_remove {α β : Type} {key : α → String} {entry : α → β} {n m : String}
    (hne : n ≠ m) (l : List α) : ((remove key m l).map (fun a => (key a, entry a))).lookup n =
      (l.map (fun a => (key a, entry a))).lookup n := by
  rw [lookup_entries, lookup_entries, lookup_remove_ne hne]

section Explicit

variable {k : Collection} {n : String} {i : Standing} {w w' : Store}

theorem Explicit.of_entries (h : w.Explicit k n i) (heq : w'.entries k = w.entries k) :
    w'.Explicit k n i := by
  unfold Explicit
  rw [heq]
  exact h

/-- A new object comes after those that are there. -/
theorem Explicit.push (h : w.Explicit k n i) {e : String × Bool × Standing}
    (heq : w'.entries k = w.entries k ∨ w'.entries k = w.entries k ++ [e]) :
    w'.Explicit k n i := by
  unfold Explicit at h ⊢
  rcases heq with heq | heq
  · rw [heq]
    exact h
  · rw [heq, List.lookup_append, h]
    rfl

theorem explicit_listener : w.Explicit .listeners n i ↔
    (w.getListener n).map (fun l => l.entry.2) = some (false, i) := by
  unfold Explicit
  change (w.listeners.map (fun l => (l.name, l.entry.2))).lookup n = _ ↔ _
  rw [lookup_entries]
  rfl

theorem explicit_cluster : w.Explicit .clusters n i ↔
    (w.getCluster n).map (fun c => c.entry.2) = some (false, i) := by
  unfold Explicit
  change (w.clusters.map (fun c => (c.name, c.entry.2))).lookup n = _ ↔ _
  rw [lookup_entries]
  rfl

theorem explicit_rulelist : w.Explicit .rulelists n i ↔
    (w.getRuleList n).map (fun rl => rl.entry.2) = some (false, i) := by
  unfold Explicit
  change (w.rulelists.map (fun rl => (rl.name, rl.entry.2))).lookup n = _ ↔ _
  rw [lookup_entries]
  rfl

theorem explicit_route : w.Explicit .routes n i ↔
    (w.getRoute n).map (fun r => r.entry.2) = some (false, i) := by
  unfold Explicit
  change (w.routes.map (fun r => (r.name, r.entry.2))).lookup n = _ ↔ _
  rw [lookup_entries]
  rfl

/-- What is found under the name of an explicit object is marked as such. -/
theorem mark_of_found {α : Type} {entry : α → Bool × Standing} {found : Option α} {a : α}
    (h : found.map entry = some (false, i)) (ha : found = some a) : (entry a).1 = false := by
  rw [ha] at h
  exact congrArg Prod.fst (Option.some.inj h)

theorem Explicit.removeListener (h : w.Explicit k n i) {m : String}
    (hne : (k, n) ≠ (.listeners, m)) :
    Explicit k n i { w with listeners := remove Listener.name m w.listeners } := by
  cases k with
  | listeners =>
    have hname : n ≠ m := fun heq => hne (by rw [heq])
    exact (lookup_entries_remove hname w.listeners).trans h
  | _ => exact h

theorem Explicit.removeCluster (h : w.Explicit k n i) {m : String}
    (hne : (k, n) ≠ (.clusters, m)) :
    Explicit k n i { w with clusters := remove Cluster.name m w.clusters } := by
  cases k with
  | clusters =>
    have hname : n ≠ m := fun heq => hne (by rw [heq])
    exact (lookup_entries_remove hname w.clusters).trans h
  | _ => exact h

theorem Explicit.dropRuleList (h : w.Explicit k n i) {m : String}
    (hne : (k, n) ≠ (.rulelists, m)) : Explicit k n i (w.dropRuleList m) := by
  cases k with
  | rulelists =>
    have hname : n ≠ m := fun heq => hne (by rw [heq])
    exact (lookup_entries_remove hname w.rulelists).trans h
  | _ => exact h

theorem Explicit.removeRoute (h : w.Explicit k n i) {m : String}
    (hne : (k, n) ≠ (.routes, m)) :
    Explicit k n i { w with routes := remove Route.name m w.routes } := by
  cases k with
  | routes =>
    have hname : n ≠ m := fun heq => hne (by rw [heq])
    exact (lookup_entries_remove hname w.routes).trans h
  | _ => exact h

/-! Changes that no collection shows. -/

theorem Explicit.of_config (h : w.Explicit k n i) (heq : w'.toConfig = w.toConfig) :
    w'.Explicit k n i := by
  refine h.of_entries ?_
  unfold entries
  rw [heq]

theorem Explicit.modifyCluster (h : w.Explicit k n i) {f : Cluster → Cluster}
    (hf : ∀ c, (f c).entry = c.entry) (m : String) : (w.modifyCluster m f).Explicit k n i := by
  refine h.of_entries ?_
  cases k with
  | clusters =>
    change (modify Cluster.name m f w.clusters).map Cluster.entry = w.clusters.map Cluster.entry
    induction w.clusters with
    | nil => rfl
    | cons c l ih =>
      unfold KeyedList.modify
      split_ifs
      · rw [List.map_cons, List.map_cons, hf]
      · rw [List.map_cons, List.map_cons, ih]
  | _ => rfl

theorem Explicit.modifyRuleList (h : w.Explicit k n i) {f : RuleList → RuleList}
    (hf : ∀ rl, (f rl).entry = rl.entry) (id : ℕ) : (w.modifyRuleList id f).Explicit k n i := by
  refine h.of_entries ?_
  cases k with
  | rulelists => exact map_modified hf _
  | _ => rfl

theorem Explicit.loseServer (h : w.Explicit k n i) (l : Listener) :
    (w.loseServer l).Explicit k n i := by
  unfold Store.loseServer
  split_ifs
  · refine h.of_entries ?_
    cases k with
    | listeners =>
      have hentry : ∀ a : Listener, Listener.entry { a with closable := false } = a.entry :=
        fun _ => rfl
      exact map_modified (p := fun a : Listener => a.id = l.id) hentry w.listeners
    | _ => rfl
  · exact h

theorem Explicit.unhandled (h : w.Explicit k n i) {α : Type} (r : Except Err α) :
    (w.unhandled r).Explicit k n i := by
  cases r <;> exact h

theorem Explicit.inlineName (h : w.Explicit k n i) (kind : Kind) (base : String)
    (name : Option String) : (w.inlineName kind base name).2.Explicit k n i := by
  unfold Store.inlineName
  split_ifs
  · exact h.of_config rfl
  · exact h

theorem Explicit.pushEndPoint (h : w.Explicit k n i) (ep : EndPoint) :
    (w.pushEndPoint ep).Explicit k n i := by
  have hcluster := h.modifyCluster (f := fun c => { c with endpoints := c.endpoints ++ [ep] })
    (fun _ => rfl) ep.cluster
  refine hcluster.of_entries ?_
  cases k <;> rfl

theorem Explicit.addEndPoint (h : w.Explicit k n i) (c : String) (ep : EndPointSpec) :
    (w.addEndPoint c ep).2.Explicit k n i := by
  unfold Store.addEndPoint
  split
  · exact h
  split
  · exact h
  split
  · exact h
  split
  · exact h.of_config rfl
  · exact Explicit.pushEndPoint (h.of_config rfl) _

theorem Explicit.addEndPoints (h : w.Explicit k n i) (cu : String) (eps : List EndPointArg) :
    (w.addEndPoints cu eps).2.Explicit k n i := by
  induction eps generalizing w with
  | nil => exact h
  | cons ep rest ih =>
    cases ep with
    | null => exact h
    | primitive =>
      have hname := h.inlineName .endpoint (cu ++ "-EndPoint-") none
      unfold Store.addEndPoints
      split <;> rename_i heq <;> rw [heq] at hname <;> exact hname
    | inline ep =>
      have hname := h.inlineName .endpoint (cu ++ "-EndPoint-") ep.name
      unfold Store.addEndPoints
      split
      · rename_i heq
        rw [heq] at hname
        exact hname
      · rename_i m w' heq
        rw [heq] at hname
        exact ih ((hname.addEndPoint cu _).unhandled _)

theorem Explicit.deleteEndPoint (h : w.Explicit k n i) (A : Answers) (b : Bool) (m : String) :
    (w.deleteEndPoint A b m).2.Explicit k n i := by
  unfold Store.deleteEndPoint
  split
  · exact h
  rename_i ep _
  split
  · exact h
  have hdrop : (w.dropEndPoint m ep).Explicit k n i := by
    have hcluster := h.modifyCluster (f := Cluster.deleteEndPoint m) (fun _ => rfl) ep.cluster
    refine hcluster.of_entries ?_
    cases k <;> rfl
  split_ifs
  · exact hdrop.of_config rfl
  · exact hdrop

/-! Deletions. -/

theorem Explicit.deleteCluster (h : w.Explicit k n i) (A : Answers) (b : Bool) {m : String}
    (hne : (k, n) ≠ (.clusters, m)) : (w.deleteCluster A b m).2.Explicit k n i := by
  unfold Store.deleteCluster
  split
  · exact h
  refine seq_keeps (I := Explicit k n i) ?_ ?_ h
  · intro w hw
    split_ifs
    · exact hw.of_config rfl
    · exact hw
  · intro w hw
    refine seq_keeps (I := Explicit k n i) ?_ ?_ hw
    · intro w hw
      exact forEach_keeps (I := Explicit k n i)
        (fun e w hw => Explicit.deleteEndPoint hw A b e) _ hw
    · exact fun w hw => Explicit.removeCluster hw hne

/-- Only generated clusters go with a route. -/
theorem Explicit.deleteGeneratedCluster (h : w.Explicit k n i) (A : Answers) (b : Bool)
    (m : String) : (w.deleteGeneratedCluster A b m).2.Explicit k n i := by
  unfold Store.deleteGeneratedCluster
  split
  · rename_i c hc
    split_ifs with hauto
    · refine h.deleteCluster A b (fun heq => ?_)
      cases heq
      have hmark : c.autogenerated = false := mark_of_found (explicit_cluster.mp h) hc
      rw [hmark] at hauto
      cases hauto
    · exact h
  · exact h

theorem Explicit.deleteRoute (h : w.Explicit k n i) (A : Answers) (b : Bool) {m : String}
    (hne : (k, n) ≠ (.routes, m)) : (w.deleteRoute A b m).2.Explicit k n i := by
  unfold Store.deleteRoute
  split
  · exact h
  refine seq_keeps (I := Explicit k n i) ?_ ?_ h
  · intro w hw
    split_ifs
    · exact forEach_keeps (I := Explicit k n i)
        (fun c w hw => Explicit.deleteGeneratedCluster hw A b c) _ hw
    · exact hw
  · exact fun w hw => Explicit.removeRoute hw hne

theorem Explicit.deleteGeneratedRoute (h : w.Explicit k n i) (A : Answers) (b : Bool)
    (m : String) : (w.deleteGeneratedRoute A b m).2.Explicit k n i := by
  unfold Store.deleteGeneratedRoute
  split
  · rename_i r hr
    split_ifs with hauto
    · refine h.deleteRoute A b (fun heq => ?_)
      cases heq
      have hmark : r.autogenerated = false := mark_of_found (explicit_route.mp h) hr
      rw [hmark] at hauto
      cases hauto
    · exact h
  · exact h

theorem Explicit.deleteRule (h : w.Explicit k n i) (A : Answers) (b : Bool) (m : String) :
    (w.deleteRule A b m).2.Explicit k n i := by
  unfold Store.deleteRule
  split
  · exact h
  rename_i r _
  refine seq_keeps (I := Explicit k n i) ?_ ?_ h
  · intro w hw
    split_ifs
    · cases r.route with
      | named m => exact Explicit.deleteGeneratedRoute hw A b m
      | absent | unresolved => exact hw
    · exact hw
  · intro w hw
    refine Explicit.of_entries hw ?_
    cases k <;> rfl

theorem Explicit.deleteRuleFromRuleList (h : w.Explicit k n i) (A : Answers) (b : Bool) (id : ℕ)
    (pos : ℤ) : (w.deleteRuleFromRuleList A b id pos).2.Explicit k n i := by
  unfold Store.deleteRuleFromRuleList
  split
  · exact h
  rename_i rl _
  split
  · exact h
  refine seq_keeps (I := Explicit k n i) ?_ ?_ h
  · intro w hw
    split_ifs
    · cases rl.rules[pos.toNat]? with
      | none => exact hw
      | some m => exact Explicit.deleteRule hw A b m
    · exact hw
  · intro w hw
    have hentry : ∀ rl : RuleList,
        RuleList.entry { rl with rules := rl.rules.eraseIdx pos.toNat } = rl.entry := fun _ => rfl
    exact Explicit.modifyRuleList hw hentry id

theorem Explicit.deleteRuleList (h : w.Explicit k n i) (A : Answers) (b : Bool) {m : String}
    (hne : (k, n) ≠ (.rulelists, m)) : (w.deleteRuleList A b m).2.Explicit k n i := by
  unfold Store.deleteRuleList
  split
  · exact h
  refine seq_keeps (I := Explicit k n i) ?_ ?_ h
  · intro w hw
    split_ifs
    · refine forEach_keeps (I := Explicit k n i) (fun r w hw => ?_) _ hw
      unfold deleteRuleOf
      split
      · refine seq_keeps (I := Explicit k n i) ?_ ?_ hw
        · intro w hw
          split_ifs
          · exact Explicit.deleteRuleFromRuleList hw A false _ _
          · exact hw
        · exact fun w hw => Explicit.deleteRule hw A b r
      · exact Explicit.deleteRule hw A b r
    · exact hw
  · exact fun w hw => Explicit.dropRuleList hw hne

theorem Explicit.deleteGeneratedRuleList (h : w.Explicit k n i) (A : Answers) (b : Bool)
    (m : String) : (w.deleteGeneratedRuleList A b m).2.Explicit k n i := by
  unfold Store.deleteGeneratedRuleList
  split
  · rename_i rl hrl
    split_ifs with hauto
    · refine h.deleteRuleList A b (fun heq => ?_)
      cases heq
      have hmark : rl.autogenerated = false := mark_of_found (explicit_rulelist.mp h) hrl
      rw [hmark] at hauto
      cases hauto
    · exact h
  · exact h

theorem Explicit.deleteListener (h : w.Explicit k n i) (A : Answers) (b : Bool) {m : String}
    (hne : (k, n) ≠ (.listeners, m)) : (w.deleteListener A b m).2.Explicit k n i := by
  unfold Store.deleteListener
  split
  · exact h
  -- the rulelist and the sessions go first, the listener itself last
  refine seq_keeps (I := Explicit k n i) ?_ ?_ h
  · intro w hw
    split_ifs
    · refine seq_keeps (I := Explicit k n i) ?_ ?_ hw
      · exact fun w hw => Explicit.deleteGeneratedRuleList hw A b _
      · exact fun w hw => Explicit.of_config hw rfl
    · exact hw
  · intro w hw
    refine seq_keeps (I := Explicit k n i) ?_ ?_ hw
    · intro w hw
      split_ifs <;> exact hw
    · exact fun w hw => Explicit.removeListener hw hne

end Explicit

end Store

/-! ### Additions

A program that is started while the object is there never gets its name, so that what it takes back
when it fails is another object. -/
section Additions

variable {k : Collection} {n : String} {i : Standing} (A : Answers)

/-- A program keeps the object while others run between its pieces. -/
abbrev Saves {α : Type} (k : Collection) (n : String) (i : Standing) (p : Add α) : Prop :=
  Keeps (Store.Explicit k n i) (fun _ _ => True) (fun _ => True) p (fun _ _ => True)

/-- A piece that does not wait. -/
theorem saves_sync {α : Type} {f : Store → Except Err α × Store}
    (h : ∀ w, w.Explicit k n i → (f w).2.Explicit k n i) : Saves k n i (Add.sync f) :=
  Keeps.atomic (fun w hw _ => ⟨h w hw, fun _ _ => trivial⟩)

theorem saves_modify {f : Store → Store} (h : ∀ w, w.Explicit k n i → (f w).Explicit k n i) :
    Saves k n i (Co.modify f) :=
  Keeps.modify (fun w hw _ => ⟨h w hw, trivial⟩)

theorem saves_pure {α : Type} (a : α) : Saves k n i (pure a : Add α) :=
  Keeps.pure (fun _ _ => trivial)

theorem saves_throw {α : Type} (e : Err) : Saves k n i (MonadExcept.throw e : Add α) :=
  Keeps.throw e

theorem saves_bind {α β : Type} {p : Add α} {f : α → Add β} (hp : Saves k n i p)
    (hf : ∀ a, Saves k n i (f a)) : Saves k n i (p >>= f) := Keeps.bind hp hf

theorem saves_await {α : Type} {p : Add α} {l : List Held} (hp : Saves k n i p) :
    Saves k n i (Co.await l p) :=
  (Keeps.await hp).conseq (fun _ => id) (fun _ _ _ => trivial)

theorem saves_input : Saves k n i (Co.input [] : Add (Option Err)) :=
  Keeps.input.conseq (fun _ => id) (fun _ _ _ => trivial)

theorem saves_inlineName {α : Type} {kind : Kind} {base : String} {name : Option String}
    {f : String → Add α} (hf : ∀ m, Saves k n i (f m)) :
    Saves k n i (Add.sync (Store.inlineName kind base name) >>= f) :=
  saves_bind (saves_sync (fun _ hw => Store.Explicit.inlineName hw kind base name)) hf

/-- What follows a piece that finds `Q` true of its result. -/
theorem saves_admit {α β : Type} {f : Store → Except Err α} {g : α → Add β} {Q : α → Prop}
    (hQ : ∀ w a, w.Explicit k n i → f w = .ok a → Q a) (hg : ∀ a, Q a → Saves k n i (g a)) :
    Saves k n i (Add.sync (fun w => (f w, w)) >>= g) := by
  refine Keeps.bind (Q := fun a _ => Q a)
    (Keeps.atomic (fun w hw _ => ⟨hw, fun a ha => hQ w a hw ha⟩)) (fun a => ?_)
  by_cases ha : Q a
  · exact (hg a ha).conseq (fun _ _ => trivial) (fun _ _ => id)
  · exact fun w hw => absurd hw.2 ha

theorem saves_addCluster (c : ClusterSpec) (auto : Bool) : Saves k n i (addCluster A c auto) := by
  unfold addCluster
  -- the name of the object is taken, so the cluster that is pushed has another one
  refine saves_admit (Q := fun cu => (k, n) ≠ (.clusters, cu.name)) ?_ (fun cu hne => ?_)
  · intro w cu hw hcu heq
    unfold Store.admitCluster at hcu
    split at hcu
    · split_ifs at hcu with hdup
      split at hcu <;> cases hcu
      cases heq
      rw [Store.explicit_cluster] at hw
      rw [Option.not_isSome_iff_eq_none.mp hdup] at hw
      cases hw
    · cases hcu
    · cases hcu
  refine saves_bind (saves_modify (fun w hw => hw.push (e := cu.entry) ?_)) (fun _ => ?_)
  · unfold Store.pushCluster Store.entries
    cases k with
    | clusters => exact Or.inr (List.map_append ..)
    | _ => exact Or.inl rfl
  refine saves_bind ?_ (fun _ => Keeps.rescue ?_ (fun e => ?_))
  · cases c.endpoints with
    | absent => exact saves_pure ()
    | invalid => exact saves_throw _
    | ok eps => exact saves_sync (fun w hw => hw.addEndPoints cu.name eps)
  · refine saves_bind saves_input (fun outcome => ?_)
    split
    · exact saves_throw _
    · exact saves_pure ()
  · -- a cluster that does not start is deleted again
    refine saves_bind (saves_sync (fun w hw => ?_)) (fun _ => saves_throw _)
    exact Store.Explicit.deleteCluster hw A true hne

theorem saves_addRouteCluster (m base what : String) (c : ClusterArg) :
    Saves k n i (addRouteCluster A m base what c) := by
  cases c with
  | named c => exact saves_pure c
  | null => exact saves_throw _
  | other => exact saves_throw _
  | inline c =>
    refine saves_inlineName (fun name => ?_)
    exact saves_bind (saves_await (saves_addCluster A _ true)) (fun _ => saves_pure name)

theorem saves_addRouteChain (m dir : String) (cs : List ClusterArg) :
    Saves k n i (addRouteChain A m dir cs) := by
  induction cs with
  | nil => exact saves_pure []
  | cons c rest ih =>
    refine saves_bind (saves_addRouteCluster A m _ _ c) (fun name => ?_)
    exact saves_bind ih (fun names => saves_pure (name :: names))

theorem saves_addRoute (r : RouteSpec) (auto : Bool) : Saves k n i (addRoute A r auto) := by
  unfold addRoute
  refine saves_bind (saves_sync (fun w hw => hw)) (fun m => ?_)
  refine saves_bind (saves_addRouteCluster A m _ _ _) (fun destination => ?_)
  refine saves_bind (saves_addRouteChain A m _ _) (fun ingress => ?_)
  refine saves_bind (saves_addRouteChain A m _ _) (fun egress => saves_modify (fun w hw => ?_))
  refine hw.push (e := (Store.createRoute r m destination ingress egress auto).entry) ?_
  unfold Store.pushRoute Store.entries
  cases k with
  | routes => exact Or.inr (List.map_append ..)
  | _ => exact Or.inl rfl

theorem saves_addRule (r : RuleSpec) (auto : Bool) : Saves k n i (addRule A r auto) := by
  unfold addRule
  refine saves_bind (saves_sync (fun w hw => hw)) (fun p => ?_)
  obtain ⟨rule, route⟩ := p
  refine saves_bind (saves_modify (fun w hw => hw.of_entries (by cases k <;> rfl))) (fun _ => ?_)
  unfold addRuleRoute
  split
  · exact saves_pure ()
  · exact saves_pure ()
  · exact saves_throw _
  · refine saves_inlineName (fun m => ?_)
    refine saves_bind (saves_await (saves_addRoute A _ true)) (fun _ => saves_modify ?_)
    exact fun w hw => hw.of_entries (by cases k <;> rfl)

theorem saves_addRuleToRuleList (id : ℕ) (rule : RuleArg) (pos : ℤ) :
    Saves k n i (addRuleToRuleList A id rule pos) := by
  unfold addRuleToRuleList
  refine saves_bind (saves_sync (fun w hw => hw)) (fun list => ?_)
  refine saves_bind ?_ (fun m => saves_modify (fun w hw => ?_))
  · cases rule with
    | named m => exact saves_pure m
    | null => exact saves_throw _
    | other => exact saves_throw _
    | inline r =>
      refine saves_inlineName (fun m => ?_)
      exact saves_bind (saves_await (saves_addRule A _ true)) (fun _ => saves_pure m)
  · have hentry : ∀ rl : RuleList, RuleList.entry { rl with
        rules := rl.rules.take pos.toNat ++ m :: rl.rules.drop pos.toNat } = rl.entry :=
      fun _ => rfl
    exact Store.Explicit.modifyRuleList hw hentry id

theorem saves_addRules (id : ℕ) (rules : List RuleArg) (pos : ℕ) :
    Saves k n i (addRules A id pos rules) := by
  induction rules generalizing pos with
  | nil => exact saves_pure ()
  | cons r rest ih =>
    exact saves_bind (saves_await (saves_addRuleToRuleList A id r pos)) (fun _ => ih (pos+1))

theorem saves_addRuleList (r : RuleListSpec) (auto : Bool) :
    Saves k n i (addRuleList A r auto) := by
  unfold addRuleList
  refine saves_bind (saves_sync (fun w hw => hw)) (fun p => ?_)
  obtain ⟨rl, rules⟩ := p
  refine saves_bind (saves_modify (fun w hw => hw.push (e := rl.entry) ?_))
    (fun _ => saves_addRules A _ rules 0)
  unfold Store.pushRuleList Store.entries
  cases k with
  | rulelists => exact Or.inr (List.map_append ..)
  | _ => exact Or.inl rfl

theorem saves_addListener (l : ListenerSpec) (auto : Bool) :
    Saves k n i (addListener A l auto) := by
  unfold addListener
  refine saves_admit (Q := fun p => (k, n) ≠ (.listeners, p.1.name)) ?_ (fun p hne => ?_)
  · intro w p hw hp heq
    unfold Store.admitListener at hp
    split at hp
    · split_ifs at hp with hdup
      split at hp <;> cases hp
      cases heq
      rw [Store.explicit_listener] at hw
      rw [Option.not_isSome_iff_eq_none.mp hdup] at hw
      cases hw
    · cases hp
    · cases hp
  obtain ⟨li, rules⟩ := p
  refine saves_bind (saves_modify (fun w hw => hw.of_config rfl)) (fun _ => ?_)
  refine saves_bind ?_ (fun m => ?_)
  · cases rules with
    | named m => exact saves_pure m
    | inline rules =>
      refine saves_inlineName (fun m => ?_)
      exact saves_bind (saves_await (saves_addRuleList A _ true)) (fun _ => saves_pure m)
  refine saves_bind (saves_modify (fun w hw =>
    hw.push (e := Listener.entry { li with rules := m }) ?_)) (fun _ => ?_)
  · unfold Store.pushListener Store.entries
    cases k with
    | listeners => exact Or.inr (List.map_append ..)
    | _ => exact Or.inl rfl
  refine Keeps.rescue ?_ (fun e => ?_)
  · refine saves_bind saves_input (fun outcome => ?_)
    split
    · exact saves_bind (saves_modify (fun w hw => hw.loseServer _)) (fun _ => saves_throw _)
    · exact saves_pure ()
  · -- a listener that does not start is deleted again, with the rulelist that was made for it
    refine saves_bind (saves_sync (fun w hw => ?_)) (fun _ => saves_throw _)
    exact Store.Explicit.deleteListener hw A true hne

/-- Every request that does not delete the object itself. -/
theorem saves_program (c : Call) (h : c.request.deletes ≠ some (k, n)) :
    Saves k n i c.program := by
  obtain ⟨A, r⟩ := c
  have hother : ∀ {k' m}, r.deletes = some (k', m) → (k, n) ≠ (k', m) := by
    intro k' m hr heq
    rw [heq] at h
    exact h hr
  cases r with
  | addListener l => exact saves_addListener A l false
  | addCluster c => exact saves_addCluster A c false
  | addRuleList r => exact saves_addRuleList A r false
  | addRule r => exact saves_addRule A r false
  | addRoute r => exact saves_addRoute A r false
  | addRuleToRuleList list rule pos =>
    refine saves_bind (saves_sync (fun w hw => hw)) (fun id => ?_)
    exact saves_addRuleToRuleList A id rule pos
  | addEndPoint c ep => exact saves_sync (fun w hw => hw.addEndPoint c ep)
  | deleteListener m b => exact saves_sync (fun w hw => hw.deleteListener A b (hother rfl))
  | deleteCluster m b => exact saves_sync (fun w hw => hw.deleteCluster A b (hother rfl))
  | deleteRuleList m b => exact saves_sync (fun w hw => hw.deleteRuleList A b (hother rfl))
  | deleteRoute m b => exact saves_sync (fun w hw => hw.deleteRoute A b (hother rfl))
  | deleteRule m b => exact saves_sync (fun w hw => hw.deleteRule A b m)
  | deleteRuleFromRuleList list pos b =>
    refine saves_sync (fun w hw => ?_)
    unfold Store.onRuleList
    split
    · exact hw
    · exact hw.deleteRuleFromRuleList A b _ pos
  | deleteEndPoint m b => exact saves_sync (fun w hw => hw.deleteEndPoint A b m)
  | addSession name id origin err st => exact saves_modify (fun w hw => hw.of_config rfl)
  | session j e =>
    refine saves_modify (fun w hw => ?_)
    unfold Store.stepSession
    split
    · exact hw
    · split_ifs
      · split
        · exact hw
        · exact hw.of_config rfl
      · exact hw
  | dropSession j => exact saves_modify (fun w hw => hw.of_config rfl)

end Additions

namespace World

/-- No request deletes the object of this name. -/
abbrev Avoids (k : Collection) (n : String) : World → Event Call (Option Err) → Prop :=
  Pool.Meets (fun c _ => c.request.deletes ≠ some (k, n)) (fun _ _ => True)

/-- A listener, cluster, rulelist or route that was not generated stays what it is until a request
deletes it by its name: no other deletion comes to it, recursive or not, and no addition that fails
takes it back. -/
theorem explicit_stays (k : Collection) (n : String) (i : Standing) (s : Store)
    (h : s.Explicit k n i) (w : World) (hrun : Run step (Avoids k n) ⟨s, []⟩ w) :
    w.state.Explicit k n i := by
  refine Pool.invariant (I := Store.Explicit k n i) ?_ h hrun
  intro c w hw
  by_cases hc : c.request.deletes = some (k, n)
  · exact absurd hc hw.2
  · have hp : Keeps (Store.Explicit k n i) (fun _ _ => True) (fun _ => True) c.program
        (fun _ _ => True) := saves_program c hc
    exact (hp w ⟨hw.1, trivial⟩).mono (fun _ _ hs => hs.1)

/-- A cluster that was added by a request of its own. -/
def sharing : Store := Store.empty.pushCluster ⟨"c", .test, [], false⟩

/-- A listener with a route to the shared cluster is added and deleted with all it has. -/
def passing : List (Event Call (Option Err)) :=
  [inlineListener "l" [.inline ⟨.plain, none, .ok (some (.inline ⟨.plain, none, .named "c",
      .absent, .absent, .absent⟩))⟩], .resume 0 none, .resume 0 none, .resume 0 none,
    .resume 0 none, .resume 0 none, .call ⟨noAnswers, .deleteListener "l" true⟩]

theorem explicit_stays_shared :
    ∃ w, exec step (Avoids .clusters "c") ⟨sharing, []⟩ passing = some w ∧
      w.state.Explicit .clusters "c" (.cluster .test) ∧ w.state.listeners = [] ∧
      w.state.routes = [] := by
  obtain ⟨w, hw⟩ : ∃ w, exec step (Avoids .clusters "c") ⟨sharing, []⟩ passing = some w :=
    ⟨_, rfl⟩
  have hrun := exec_run _ _ _ hw
  refine ⟨w, hw, explicit_stays .clusters "c" (.cluster .test) sharing (by decide) w hrun, ?_, ?_⟩
  · cases hw
    rfl
  · cases hw
    rfl

end World
end L7mp
