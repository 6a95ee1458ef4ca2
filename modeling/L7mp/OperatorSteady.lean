import L7mp.OperatorOwn

/-! Runs in which no target that stays is changed: every proxy has what it should have. -/
namespace L7mp.Operator
open Python Aborting GuardedRun

/-! ### Updates that settle -/

theorem settles_of_unchanged {held old new : Proxy} (hheld : held = old ∨ held = new)
    (h : ∀ t ip, (old (.endpoint t ip)).isSome → (new (.endpoint t ip)).isSome →
      old (.obj t) = new (.obj t)) : Settles held old new := by
  have hkeeps : ∀ t ip, (old (.endpoint t ip)).isSome → (new (.endpoint t ip)).isSome →
      ¬Dropped old new t := by
    intro t ip ho hn hdropped
    apply hdropped.2
    rw [h t ip ho hn]
    exact Same.refl _
  rcases hheld with rfl | rfl
  · exact settles_self_iff.mpr hkeeps
  · refine ⟨fun _ _ => Same.refl _, fun _ _ => Or.inr (Same.refl _), ?_⟩
    intro t ip heq
    refine ⟨fun hstays => hstays.1, fun hn => ⟨hn, ?_⟩⟩
    exact hkeeps t ip (heq.trans hn) hn

/-- A target is extended by the same in both states, or its link leads nowhere in one of them. -/
def Unchanged (s s' : ClusterState) (target : Value) : Prop :=
  getTargetExtendedSpec s target = getTargetExtendedSpec s' target ∨
    getTargetExtendedSpec s target = .ok (.dict []) ∨
    getTargetExtendedSpec s' target = .ok (.dict [])

variable {g s s' sOld sNew : ClusterState}

/-- A target whose link leads nowhere is on no proxy. -/
theorem targetActions_unlinked {target : Value}
    (h : getTargetExtendedSpec s target = .ok (.dict [])) (pod : Value) :
    targetActions g s pod target = .ok [] := by
  unfold targetActions
  rw [h]
  rfl

/-- An update settles the proxy of a pod if it changes no target that stays. -/
theorem settles_wanted (hOld : sOld.WellNamed) (hNew : sNew.WellNamed) (kOld : sOld.Keyed)
    (kNew : sNew.Keyed) {held old new : Actions} (hold : getActions g sOld = .ok old)
    (hnew : getActions g sNew = .ok new) {p : Fqn} {o : Value}
    (hpod : sOld.pods.lookup p = some o) (hpod' : sNew.pods.lookup p = some o)
    (hheld : wanted held p = wanted old p ∨ wanted held p = wanted new p)
    (htargets : ∀ f t t', sOld.targets.lookup f = some t → sNew.targets.lookup f = some t' →
      t = t' ∧ Unchanged sOld sNew t) :
    Settles (wanted held p) (wanted old p) (wanted new p) := by
  refine settles_of_unchanged hheld ?_
  intro f ip ho hn
  obtain ⟨q, hq, hown⟩ := wanted_own hOld kOld hold hpod f
  obtain ⟨q', hq', hown'⟩ := wanted_own hNew kNew hnew hpod' f
  rw [hown (.endpoint f ip) rfl] at ho
  rw [hown' (.endpoint f ip) rfl] at hn
  rw [hown (.obj f) rfl, hown' (.obj f) rfl]
  -- the target is listed in both states, and its link leads somewhere
  have hlisted : ∀ {s : ClusterState} {q : List (ActionName × Action)}, s.WellNamed →
      ownActions g s o f = .ok q → (registered q (.endpoint f ip)).isSome →
      ∃ t, s.targets.lookup f = some t ∧ targetActions g s o t = .ok q ∧
        getTargetExtendedSpec s t ≠ .ok (.dict []) := by
    intro s q hs hq hsome
    by_contra hnone
    have hempty : registered q (.endpoint f ip) = none := by
      refine registered_endpoint_none hs hq ?_ ip
      intro t ht
      by_contra hne
      refine hnone ⟨t, ht, ownActions_target hs ht hq, fun hext => hne ?_⟩
      exact targetActions_unlinked hext o
    rw [hempty] at hsome
    cases hsome
  obtain ⟨t, ht, hact, hext⟩ := hlisted hOld hq ho
  obtain ⟨t', ht', hact', hext'⟩ := hlisted hNew hq' hn
  obtain ⟨rfl, hunchanged⟩ := htargets f t t' ht ht'
  have hsame : getTargetExtendedSpec sOld t = getTargetExtendedSpec sNew t := by
    rcases hunchanged with h | h | h
    · exact h
    · exact absurd h hext
    · exact absurd h hext'
  apply registered_congr
  exact targetActions_obj hsame (hOld.targets _ (Dict.mem_of_lookup ht)).1 hact hact' f

/-! ### Pods that cannot be told apart -/

/-- No selector tells the pods apart, and they have the same address. -/
structure SamePod (g : ClusterState) (x y : Value) : Prop where
  name : getFqn x = getFqn y
  selectors : ∀ selector, doesSelectorMatch g selector x = doesSelectorMatch g selector y
  address : (x.item "status" >>= fun v => v.get "podIP" .none) =
    (y.item "status" >>= fun v => v.get "podIP" .none)

theorem SamePod.refl (g : ClusterState) (x : Value) : SamePod g x x := ⟨rfl, fun _ => rfl, rfl⟩

def SamePods (g : ClusterState) (l l' : List (Fqn × Value)) : Prop :=
  List.Forall₂ (fun e e' => e.1 = e'.1 ∧ SamePod g e.2 e'.2) l l'

theorem SamePods.refl (l : List (Fqn × Value)) : SamePods g l l := by
  induction l with
  | nil => exact List.Forall₂.nil
  | cons e l ih => exact List.Forall₂.cons ⟨rfl, SamePod.refl g e.2⟩ ih

theorem SamePods.set {x y : Value} (h : SamePod g x y) (f : Fqn) (l : List (Fqn × Value)) :
    SamePods g (Dict.set f x l) (Dict.set f y l) := by
  induction l with
  | nil => exact List.Forall₂.cons ⟨rfl, h⟩ List.Forall₂.nil
  | cons e l ih =>
    unfold Dict.set
    split_ifs
    · exact List.Forall₂.cons ⟨rfl, h⟩ (SamePods.refl l)
    · exact List.Forall₂.cons ⟨rfl, SamePod.refl g e.2⟩ ih

section Pods

variable (hpods : SamePods g s.pods s'.pods) (hv : s.virtualservices = s'.virtualservices)

include hpods in
theorem addDynamicEndpoints_pods (target selector : Value) (eps : List (ActionName × Value)) :
    addDynamicEndpoints g s target selector eps = addDynamicEndpoints g s' target selector eps := by
  refine foldlM_congr₂ ?_ eps
  refine hpods.imp ?_
  intro e e' he eps
  rw [he.2.selectors]
  refine congrArg _ (funext fun matched => ?_)
  split_ifs
  · rw [← bind_assoc, ← bind_assoc, he.2.address]
  · rfl

include hpods hv in
theorem targetActions_pods {x y : Value} (h : SamePod g x y) (target : Value) :
    targetActions g s x target = targetActions g s' y target := by
  have hext : getTargetExtendedSpec s target = getTargetExtendedSpec s' target := by
    unfold getTargetExtendedSpec linkedVirtualService
    rw [hv]
  have hgroups : ∀ etarget, getEndpointGroups g s etarget = getEndpointGroups g s' etarget := by
    intro etarget
    unfold getEndpointGroups
    simp only [addDynamicEndpoints_pods hpods]
  unfold targetActions
  simp only [hext, hgroups, h.selectors]

include hpods hv in
/-- The actions do not depend on what selectors cannot tell. -/
theorem getActions_pods (ht : s.targets = s'.targets) (hr : s.rules = s'.rules) :
    getActions g s = getActions g s' := by
  have hpod : ∀ x y, SamePod g x y → podActions g s x = podActions g s' y := by
    intro x y h
    have hobject : ∀ type obj, objectActions g type x obj = objectActions g type y obj := by
      intro type obj
      unfold objectActions
      simp only [h.selectors]
    unfold podActions
    simp only [hobject, targetActions_pods hpods hv h, hv, ht, hr]
  have hgather : ∀ {l l' : List (Fqn × Value)} {f f' : Fqn × Value →
      Except Exc (List ((Fqn × ActionName) × Action))}, SamePods g l l' →
      (∀ e e', e.1 = e'.1 → SamePod g e.2 e'.2 → f e = f' e') → gather f l = gather f' l' := by
    intro l l' f f' h hf
    induction h with
    | nil => rfl
    | cons he _ ih => rw [gather, gather, hf _ _ he.1 he.2, ih]
  unfold getActions
  rw [hgather hpods]
  intro e e' _ he
  rw [hpod _ _ he, he.name]

end Pods

/-! ### What an event is about -/

/-- An object as it is in the state that the operator takes for the old one, and in the new one. -/
structure Notice where
  r : Resource
  fqn : Fqn
  before : Option Value
  now : Option Value

/-- The state with the object as it is given. -/
def ClusterState.put (s : ClusterState) (r : Resource) (fqn : Fqn) (v : Option Value) :
    ClusterState :=
  match v with
  | none => s.del r fqn
  | some v => s.set r fqn v

def Notice.oldState (n : Notice) (s : ClusterState) : ClusterState := s.put n.r n.fqn n.before

def Notice.newState (n : Notice) (s : ClusterState) : ClusterState := s.put n.r n.fqn n.now

def createNotice (r : Resource) (body : Value) : Option Notice :=
  (getFqn body).toOption.map (fun fqn => ⟨r, fqn, none, some body⟩)

def deleteNotice (r : Resource) (body : Value) : Option Notice :=
  (getFqn body).toOption.map (fun fqn => ⟨r, fqn, some body, none⟩)

/-- The change that a handler makes, if it does not raise. -/
def OperatorEvent.notice : OperatorEvent → Option Notice
  | .create r body => createNotice r body
  | .delete r body => deleteNotice r body
  | .update r body old =>
    (getFqn body).toOption.bind (fun fqn =>
      (dictUpdate body old).toOption.map (fun oldObj => ⟨r, fqn, some oldObj, some body⟩))
  | .status new body =>
    match l7mpReady new body with
    | .ok (some true) => createNotice .pods body
    | .ok (some false) => deleteNotice .pods body
    | _ => none
  | .restart _ => none

/-- What a handler that does not raise does. -/
structure Handles (s : ClusterState) (n : Notice) (l : List Command) (h : Handled) : Prop where
  commands : update (n.newState s) (n.oldState s) = .ok l
  result : h = (.ok l, n.newState s)
  name : ∀ v ∈ n.now, getFqn v = .ok n.fqn
  ready : n.r = .pods → ∀ v ∈ n.now, getL7mpInstance v = .ok ()

theorem ready_of_getFqn {body : Value} {fqn : Fqn} (h : failIfPodNotReady .pods body = .ok ())
    (hfqn : getFqn body = .ok fqn) : getL7mpInstance body = .ok () := by
  unfold getFqn at hfqn
  obtain ⟨_, -, hfqn⟩ := bind_eq_ok hfqn
  obtain ⟨_, -, hfqn⟩ := bind_eq_ok hfqn
  obtain ⟨metadata, hmetadata, hfqn⟩ := bind_eq_ok hfqn
  obtain ⟨_, -, hfqn⟩ := bind_eq_ok hfqn
  obtain ⟨name, hname, hfqn⟩ := bind_eq_ok hfqn
  obtain ⟨_, -, hfqn⟩ := bind_eq_ok hfqn
  obtain ⟨_, -, hfqn⟩ := bind_eq_ok hfqn
  obtain ⟨_, -, hfqn⟩ := bind_eq_ok hfqn
  obtain ⟨part, hpart, -⟩ := bind_eq_ok hfqn
  unfold failIfPodNotReady at h
  rw [if_neg (by decide)] at h
  obtain ⟨status, hstatus, h⟩ := bind_eq_ok h
  obtain ⟨podIp, hpodIp, h⟩ := bind_eq_ok h
  unfold getL7mpInstance
  rw [hstatus, hmetadata]
  dsimp only [bind, Except.bind]
  rw [hpodIp, hname]
  dsimp only
  rw [hpart]
  dsimp only
  split_ifs with htruthy
  · rfl
  · rw [if_neg htruthy] at h
    rw [hmetadata] at h
    dsimp only [bind, Except.bind] at h
    rw [hname] at h
    dsimp only at h
    rw [hpart] at h
    cases h

theorem createFn_handles {s : ClusterState} {r : Resource} {body : Value} {l : List Command}
    (h : (createFn s r body).1 = .ok l) :
    ∃ n, createNotice r body = some n ∧ n.r = r ∧ n.now.isSome ∧
      Handles s n l (createFn s r body) := by
  unfold createFn at h ⊢
  cases hname : (do failIfPodNotReady r body; getFqn body : Except Exc Fqn) with
  | error e =>
    rw [hname] at h
    cases h
  | ok fqn =>
    rw [hname] at h
    obtain ⟨_, hready, hfqn⟩ := bind_eq_ok hname
    refine ⟨⟨r, fqn, none, some body⟩, ?_, rfl, rfl, h, ?_, ?_, ?_⟩
    · unfold createNotice
      rw [hfqn]
      rfl
    · exact Prod.ext h rfl
    · intro v hv
      cases hv
      exact hfqn
    · intro hr v hv
      cases hv
      change r = .pods at hr
      subst hr
      exact ready_of_getFqn hready hfqn

theorem deleteFn_handles {s : ClusterState} {r : Resource} {body : Value} {l : List Command}
    (h : (deleteFn s r body).1 = .ok l) :
    ∃ n, deleteNotice r body = some n ∧ n.before.isSome ∧ Handles s n l (deleteFn s r body) := by
  unfold deleteFn at h ⊢
  cases hfqn : getFqn body with
  | error e =>
    rw [hfqn] at h
    cases h
  | ok fqn =>
    rw [hfqn] at h
    refine ⟨⟨r, fqn, some body, none⟩, ?_, rfl, h, ?_, ?_, ?_⟩
    · unfold deleteNotice
      rw [hfqn]
      rfl
    · exact Prod.ext h rfl
    · exact fun v hv => by cases hv
    · exact fun _ v hv => by cases hv

theorem updateFn_handles {s : ClusterState} {r : Resource} {body old : Value} {l : List Command}
    (h : (updateFn s r body old).1 = .ok l) :
    ∃ n, (OperatorEvent.update r body old).notice = some n ∧ n.before.isSome ∧
      Handles s n l (updateFn s r body old) := by
  unfold updateFn at h ⊢
  cases hobjects : (do
      failIfPodNotReady r body
      let fqn ← getFqn body
      return (fqn, ← dictUpdate body old) : Except Exc (Fqn × Value)) with
  | error e =>
    rw [hobjects] at h
    cases h
  | ok objects =>
    rw [hobjects] at h
    obtain ⟨_, hready, hobjects⟩ := bind_eq_ok hobjects
    obtain ⟨fqn, hfqn, hobjects⟩ := bind_eq_ok hobjects
    obtain ⟨oldObj, hold, hobjects⟩ := bind_eq_ok hobjects
    cases hobjects
    refine ⟨⟨r, fqn, some oldObj, some body⟩, ?_, rfl, h, ?_, ?_, ?_⟩
    · unfold OperatorEvent.notice
      dsimp only
      rw [hfqn, hold]
      rfl
    · exact Prod.ext h rfl
    · intro v hv
      cases hv
      exact hfqn
    · intro hr v hv
      cases hv
      change r = .pods at hr
      subst hr
      exact ready_of_getFqn hready hfqn

/-- A handler that does not raise makes the change of its event, if there is one. -/
theorem handle_cases {s : ClusterState} {e : OperatorEvent} {l : List Command}
    (h : (handle s e).1 = .ok l) :
    (e.notice = none ∧ e.configures = none ∧ handle s e = (.ok [], s)) ∨
      ∃ n, e.notice = some n ∧ Handles s n l (handle s e) ∧
        e.configures = if n.r = .pods ∧ n.before = none then some n.fqn else none := by
  have hcreate : ∀ {r : Resource} {body : Value} {n : Notice}, createNotice r body = some n →
      n.r = r ∧ n.before = none ∧ (getFqn body).toOption = some n.fqn := by
    intro r body n hn
    obtain ⟨fqn, hfqn, rfl⟩ := Option.map_eq_some_iff.mp hn
    exact ⟨rfl, rfl, hfqn⟩
  have hbefore : ∀ {n : Notice}, n.before.isSome →
      (none : Option Fqn) = if n.r = .pods ∧ n.before = none then some n.fqn else none := by
    intro n hsome
    rw [if_neg]
    rintro ⟨-, hnone⟩
    rw [hnone] at hsome
    cases hsome
  cases e with
  | create r body =>
    right
    obtain ⟨n, hn, -, -, hhandles⟩ := createFn_handles h
    refine ⟨n, hn, hhandles, ?_⟩
    obtain ⟨hr, hnone, hfqn⟩ := hcreate hn
    cases r with
    | pods =>
      rw [if_pos ⟨hr, hnone⟩]
      exact hfqn
    | _ =>
      rw [if_neg (fun hpods => by rw [hr] at hpods; cases hpods.1)]
      rfl
  | delete r body =>
    right
    obtain ⟨n, hn, hsome, hhandles⟩ := deleteFn_handles h
    exact ⟨n, hn, hhandles, hbefore hsome⟩
  | update r body old =>
    right
    obtain ⟨n, hn, hsome, hhandles⟩ := updateFn_handles h
    exact ⟨n, hn, hhandles, hbefore hsome⟩
  | restart pod => exact Or.inl ⟨rfl, rfl, rfl⟩
  | status new body =>
    simp only [handle, podStatusFn] at h ⊢
    simp only [OperatorEvent.notice, OperatorEvent.configures]
    cases hready : l7mpReady new body with
    | error e =>
      rw [hready] at h
      cases h
    | ok ready =>
      rw [hready] at h
      cases ready with
      | none => exact Or.inl ⟨rfl, if_neg (by intro heq; cases heq), rfl⟩
      | some ready =>
        right
        cases ready with
        | true =>
          obtain ⟨n, hn, -, -, hhandles⟩ := createFn_handles h
          obtain ⟨hr, hnone, hfqn⟩ := hcreate hn
          refine ⟨n, hn, hhandles, ?_⟩
          rw [if_pos rfl, if_pos ⟨hr, hnone⟩]
          exact hfqn
        | false =>
          obtain ⟨n, hn, hsome, hhandles⟩ := deleteFn_handles h
          refine ⟨n, hn, hhandles, ?_⟩
          rw [if_neg (by intro heq; cases heq)]
          exact hbefore hsome

/-! ### The states before and after -/

def Resource.kind : Resource → String
  | .pods => "Pod"
  | .endpoints => "Endpoints"
  | .virtualservices => "VirtualService"
  | .targets => "Target"
  | .rules => "Rule"

theorem wellNamed_iff : s.WellNamed ↔ ∀ r, Named (Resource.kind r) (s.table r) := by
  constructor
  · intro h r
    cases r with
    | pods => exact h.pods
    | endpoints => exact h.endpoints
    | virtualservices => exact h.virtualservices
    | targets => exact h.targets
    | rules => exact h.rules
  · intro h
    exact ⟨h .pods, h .endpoints, h .virtualservices, h .targets, h .rules⟩

/-- The table of the object after it is put there. -/
def putTable (fqn : Fqn) (v : Option Value) (table : List (Fqn × Value)) : List (Fqn × Value) :=
  match v with
  | none => Dict.del fqn table
  | some v => Dict.set fqn v table

theorem table_put (s : ClusterState) (r r' : Resource) (fqn : Fqn) (v : Option Value) :
    (s.put r fqn v).table r' = if r' = r then putTable fqn v (s.table r) else s.table r' := by
  cases v <;> cases r <;> cases r' <;> rfl

theorem lookup_putTable_ne {fqn f : Fqn} (h : f ≠ fqn) (v : Option Value)
    (table : List (Fqn × Value)) : (putTable fqn v table).lookup f = table.lookup f := by
  cases v with
  | none => exact Dict.lookup_del_ne h table
  | some v => exact Dict.lookup_set_ne h v table

theorem lookup_putTable_self (fqn : Fqn) (v : Option Value) (table : List (Fqn × Value)) :
    (putTable fqn v table).lookup fqn = v := by
  cases v with
  | none => exact Dict.lookup_del_self fqn table
  | some v => exact Dict.lookup_set_self fqn v table

theorem mem_putTable {fqn : Fqn} {v : Option Value} {table : List (Fqn × Value)}
    {e : Fqn × Value} (h : e ∈ putTable fqn v table) :
    e ∈ table ∨ (e.1 = fqn ∧ v = some e.2) := by
  cases v with
  | none => exact Or.inl (List.mem_filter.mp h).1
  | some v =>
    rcases Dict.mem_set h with rfl | h
    · exact Or.inr ⟨rfl, rfl⟩
    · exact Or.inl h

theorem ClusterState.Keyed.put (h : s.Keyed) (r : Resource) (fqn : Fqn) (v : Option Value) :
    (s.put r fqn v).Keyed := by
  intro r'
  rw [table_put]
  split_ifs with hr
  · cases v with
    | none => exact Dict.nodup_del (h r) fqn
    | some v => exact Dict.nodup_set (h r) fqn v
  · exact h r'

theorem ClusterState.WellNamed.put (h : s.WellNamed) {r : Resource} {fqn : Fqn} {v : Option Value}
    (hkind : fqn.kind = r.kind) (hname : ∀ x ∈ v, getFqn x = .ok fqn) :
    (s.put r fqn v).WellNamed := by
  rw [wellNamed_iff] at h ⊢
  intro r' e he
  rw [table_put] at he
  split_ifs at he with hr
  · subst hr
    rcases mem_putTable he with he | ⟨hfqn, hv⟩
    · exact h _ e he
    · rw [hfqn]
      exact ⟨hname e.2 hv, hkind⟩
  · exact h r' e he

/-- Of these objects nothing that differs is read. -/
def SameObject (s : ClusterState) (r : Resource) (x y : Value) : Prop :=
  match r with
  | .pods => SamePod s x y
  | _ => SameView x y

/-- What is listed agrees with what the operator takes it for. -/
def Agrees (s : ClusterState) (r : Resource) : Option Value → Option Value → Prop
  | none, none => True
  | some x, some y => SameObject s r x y
  | _, _ => False

/-- An object that agrees with what is listed changes no actions. -/
theorem getActions_put (hs : s.WellNamed) {r : Resource} (hr : r ≠ .endpoints) {fqn : Fqn}
    {v : Option Value} (h : Agrees s r ((s.table r).lookup fqn) v) :
    getActions s (s.put r fqn v) = getActions s s := by
  cases hlookup : (s.table r).lookup fqn with
  | none =>
    rw [hlookup] at h
    cases v with
    | some y => exact absurd h id
    | none =>
      have hdel : Dict.del fqn (s.table r) = s.table r := Dict.del_of_not_mem hlookup
      have hsame : s.put r fqn none = s := by
        unfold ClusterState.put ClusterState.del
        cases r with
        | endpoints => exact absurd rfl hr
        | _ =>
          unfold ClusterState.table at hdel
          dsimp only at hdel ⊢
          rw [hdel]
      rw [hsame]
  | some x =>
    rw [hlookup] at h
    cases v with
    | none => exact absurd h id
    | some y =>
      have hset : Dict.set fqn x (s.table r) = s.table r := Dict.set_self hlookup
      have hviews := fun r => (wellNamed_iff.mp hs r).sameViews
      have htable : r ≠ .pods → SameViews (Dict.set fqn y (s.table r)) (s.table r) := by
        intro hpods
        have hview : SameView x y := by
          cases r with
          | pods => exact absurd rfl hpods
          | _ => exact h
        obtain ⟨d, d', m, m', rfl, rfl, hm, hm', hd, hmd⟩ := hview
        have hsym : SameView (.dict d') (.dict d) := ⟨d', d, m', m, rfl, rfl, hm', hm,
          fun k hk => (hd k hk).symm, fun k hl ha => (hmd k hl ha).symm⟩
        have hsameSet := (hviews r).set hsym fqn
        rw [hset] at hsameSet
        exact hsameSet
      cases r with
      | endpoints => exact absurd rfl hr
      | pods =>
        have hpods : SamePods s (Dict.set fqn x s.pods) (Dict.set fqn y s.pods) :=
          SamePods.set h fqn s.pods
        rw [show Dict.set fqn x s.pods = s.pods from hset] at hpods
        have hsame : getActions s s = getActions s (s.put .pods fqn (some y)) :=
          getActions_pods hpods rfl rfl rfl
        exact hsame.symm
      | virtualservices =>
        exact getActions_views (hviews .endpoints) rfl (htable (by decide)) (hviews .targets)
          (hviews .rules)
      | targets =>
        exact getActions_views (hviews .endpoints) rfl (hviews .virtualservices)
          (htable (by decide)) (hviews .rules)
      | rules =>
        exact getActions_views (hviews .endpoints) rfl (hviews .virtualservices)
          (hviews .targets) (htable (by decide))

/-! ### Steady runs -/

namespace World

/-- What an event may be about: a pod, a target or a rule that comes or goes, or a virtual service
that comes, goes or is changed so that it changes no target that stays. What the operator takes
for the listed object agrees with it, and a pod that comes has an empty proxy. -/
structure Steady (w : World) (n : Notice) : Prop where
  kind : n.fqn.kind = n.r.kind
  watched : n.r ≠ .endpoints
  named : ∀ v ∈ n.before, getFqn v = .ok n.fqn
  listed : Agrees w.state n.r ((w.state.table n.r).lookup n.fqn) n.before ∨
    Agrees w.state n.r ((w.state.table n.r).lookup n.fqn) n.now
  whole : n.r = .pods ∨ n.r = .targets → n.before = none ∨ n.now = none
  unchanged : n.r = .virtualservices → ∀ e ∈ w.state.targets,
    Unchanged (n.oldState w.state) (n.newState w.state) e.2
  fresh : n.r = .pods → w.state.pods.lookup n.fqn = none → w.proxies n.fqn = fun _ => none

/-- The handler does not raise, and its event is steady; restarts come at any time. -/
def Admissible (w : World) (e : OperatorEvent) : Prop :=
  (∃ l, (handle w.state e).1 = .ok l) ∧ ∀ n, e.notice = some n → w.Steady n

structure Good (w : World) : Prop extends Settled w where
  keyed : w.state.Keyed

variable {w : World} {n : Notice}

theorem Steady.oldNamed (h : w.Steady n) (hw : w.Good) : (n.oldState w.state).WellNamed :=
  hw.named.put h.kind h.named

/-- A target that is listed in both states is not changed. -/
theorem Steady.target (h : w.Steady n) {f : Fqn} {t t' : Value}
    (ht : (n.oldState w.state).targets.lookup f = some t)
    (ht' : (n.newState w.state).targets.lookup f = some t') :
    t = t' ∧ Unchanged (n.oldState w.state) (n.newState w.state) t := by
  have htables : ∀ v, (w.state.put n.r n.fqn v).targets =
      if Resource.targets = n.r then putTable n.fqn v w.state.targets else w.state.targets := by
    intro v
    have htable := table_put w.state n.r .targets n.fqn v
    split_ifs with hr
    · rw [if_pos hr] at htable
      refine htable.trans ?_
      rw [← hr]
      rfl
    · rw [if_neg hr] at htable
      exact htable
  have hspec : ∀ v, n.r ≠ .virtualservices →
      (w.state.put n.r n.fqn v).virtualservices = w.state.virtualservices := by
    intro v hr
    have htable := table_put w.state n.r .virtualservices n.fqn v
    rw [if_neg (Ne.symm hr)] at htable
    exact htable
  -- the link of a target leads to the same object, if no virtual service changes
  have hunlinked : n.r ≠ .virtualservices →
      Unchanged (n.oldState w.state) (n.newState w.state) t := by
    intro hr
    left
    unfold getTargetExtendedSpec linkedVirtualService Notice.oldState Notice.newState
    rw [hspec _ hr, hspec _ hr]
  unfold Notice.oldState at ht
  unfold Notice.newState at ht'
  rw [htables] at ht ht'
  by_cases hr : Resource.targets = n.r
  · rw [if_pos hr] at ht ht'
    have hne : f ≠ n.fqn := by
      intro heq
      rw [heq, lookup_putTable_self] at ht ht'
      rcases h.whole (Or.inr hr.symm) with hnone | hnone
      · rw [hnone] at ht
        cases ht
      · rw [hnone] at ht'
        cases ht'
    rw [lookup_putTable_ne hne] at ht ht'
    refine ⟨Option.some.inj (ht.symm.trans ht'), hunlinked ?_⟩
    rw [← hr]
    decide
  · rw [if_neg hr] at ht ht'
    refine ⟨Option.some.inj (ht.symm.trans ht'), ?_⟩
    by_cases hv : n.r = .virtualservices
    · exact h.unchanged hv _ (Dict.mem_of_lookup ht)
    · exact hunlinked hv

/-- The operator's selectors are those that it had. -/
theorem Steady.getActions_newState (h : w.Steady n) (x : ClusterState) :
    getActions (n.newState w.state) x = getActions w.state x := by
  have htable := table_put w.state n.r .endpoints n.fqn n.now
  rw [if_neg (Ne.symm h.watched)] at htable
  have hendpoints : (n.newState w.state).endpoints = w.state.endpoints := htable
  refine getActions_congr ?_ x
  intro selector pod
  unfold doesSelectorMatch selectorFn matchService
  rw [hendpoints]

theorem Steady.admits (h : w.Steady n) (hw : w.Good) {l : List Command} {hd : Handled}
    (hhandles : Handles w.state n l hd) :
    w.Admits (if n.r = .pods ∧ n.before = none then some n.fqn else none) (n.oldState w.state)
      (n.newState w.state) := by
  have hNew : (n.newState w.state).WellNamed := hw.named.put h.kind hhandles.name
  have kOld : (n.oldState w.state).Keyed := hw.keyed.put _ _ _
  have kNew : (n.newState w.state).Keyed := hw.keyed.put _ _ _
  have hpods : ∀ v, (w.state.put n.r n.fqn v).pods =
      if Resource.pods = n.r then putTable n.fqn v w.state.pods else w.state.pods := by
    intro v
    have htable := table_put w.state n.r .pods n.fqn v
    split_ifs with hr
    · rw [if_pos hr] at htable
      refine htable.trans ?_
      rw [← hr]
      rfl
    · rw [if_neg hr] at htable
      exact htable
  refine ⟨h.oldNamed hw, hNew, ?_, ?_⟩
  · intro e he
    change e ∈ (w.state.put _ _ _).pods at he
    rw [hpods] at he
    split_ifs at he with hr
    · rcases mem_putTable he with he | ⟨-, hv⟩
      · exact hw.ready e he
      · exact hhandles.ready hr.symm e.2 hv
    · exact hw.ready e he
  · intro held old new hheld hold hnew pod hpod
    rw [h.getActions_newState] at hold hnew
    obtain ⟨a, ha, hproxies⟩ := hw.holds
    cases ha.symm.trans hheld
    -- what the operator had agrees with one of the two states
    have hagrees : held = old ∨ held = new := by
      rcases h.listed with hbefore | hnow
      · left
        rw [Notice.oldState, getActions_put hw.named h.watched hbefore, ha] at hold
        exact Except.ok.inj hold
      · right
        rw [Notice.newState, getActions_put hw.named h.watched hnow, ha] at hnew
        exact Except.ok.inj hnew
    by_cases hconfigured : (n.r = .pods ∧ n.before = none) ∧ pod = n.fqn
    · left
      obtain ⟨⟨hr, hnone⟩, rfl⟩ := hconfigured
      have hunlisted : n.fqn ∉ (n.oldState w.state).pods.map Prod.fst := by
        rw [Notice.oldState, hpods, if_pos hr.symm, hnone]
        exact Dict.not_mem_del n.fqn w.state.pods
      refine ⟨if_pos ⟨hr, hnone⟩, ?_, ?_⟩
      · funext name
        unfold wanted
        rw [getActions_unlisted (h.oldNamed hw) hold hunlisted]
        rfl
      · cases hlookup : w.state.pods.lookup n.fqn with
        | none =>
          rw [h.fresh hr hlookup]
          exact partOf_none _
        | some x =>
          have hnow : held = new := by
            rcases h.listed with hbefore | hnow
            · rw [hr, hnone] at hbefore
              change Agrees _ _ (w.state.pods.lookup n.fqn) none at hbefore
              rw [hlookup] at hbefore
              exact absurd hbefore id
            · rw [Notice.newState, getActions_put hw.named h.watched hnow, ha] at hnew
              exact Except.ok.inj hnew
          rw [← hnow]
          exact (hproxies n.fqn (List.mem_map_of_mem (Dict.mem_of_lookup hlookup))).1
    · right
      obtain ⟨e, he, rfl⟩ := List.mem_map.mp hpod
      obtain ⟨o, ho⟩ : ∃ o, (n.newState w.state).pods.lookup e.1 = some o := by
        rw [← Option.ne_none_iff_exists', Ne, Dict.lookup_eq_none, not_not]
        exact hpod
      have hsame : (n.oldState w.state).pods.lookup e.1 = w.state.pods.lookup e.1 ∧
          (n.newState w.state).pods.lookup e.1 = w.state.pods.lookup e.1 := by
        rw [Notice.newState, hpods] at ho
        rw [Notice.oldState, Notice.newState, hpods, hpods]
        split_ifs at ho ⊢ with hr
        · have hne : e.1 ≠ n.fqn := by
            intro heq
            rw [heq, lookup_putTable_self] at ho
            rcases h.whole (Or.inl hr.symm) with hnone | hnone
            · exact hconfigured ⟨⟨hr.symm, hnone⟩, heq⟩
            · rw [hnone] at ho
              cases ho
          exact ⟨lookup_putTable_ne hne _ _, lookup_putTable_ne hne _ _⟩
        · exact ⟨rfl, rfl⟩
      have hlisted : w.state.pods.lookup e.1 = some o := hsame.2.symm.trans ho
      refine ⟨?_, List.mem_map.mpr ⟨_, Dict.mem_of_lookup hlisted, rfl⟩, ?_⟩
      · intro heq
        split_ifs at heq with hcreated
        exact hconfigured ⟨hcreated, (Option.some.inj heq).symm⟩
      · refine settles_wanted (h.oldNamed hw) hNew kOld kNew hold hnew
          (hsame.1.trans hlisted) ho ?_ (fun f t t' => h.target)
        rcases hagrees with rfl | rfl
        · exact Or.inl rfl
        · exact Or.inr rfl

/-- A restart takes a proxy all that it has. -/
theorem Good.restart (hw : w.Good) (pod : Fqn) : Good { w with
    proxies := fun f => if f = pod then fun _ => none else w.proxies f
    erased := insert pod w.erased } := by
  obtain ⟨a, ha, hproxies⟩ := hw.holds
  refine ⟨⟨hw.named, hw.ready, a, ha, ?_⟩, hw.keyed⟩
  intro p hp
  obtain ⟨hpart, hcomplete⟩ := hproxies p hp
  dsimp only
  by_cases heq : p = pod
  · rw [if_pos heq]
    refine ⟨partOf_none _, fun hnot => absurd ?_ hnot⟩
    rw [heq]
    exact Finset.mem_insert_self pod w.erased
  · rw [if_neg heq]
    refine ⟨hpart, fun hnot => hcomplete (fun hin => hnot ?_)⟩
    exact Finset.mem_insert_of_mem hin

theorem Good.step (hw : w.Good) {e : OperatorEvent} (hok : w.Admissible e) {w' : World}
    (h : w.step e = some w') : w'.Good := by
  obtain ⟨⟨l, hl⟩, hsteady⟩ := hok
  have happly : ∀ {w' : World}, some (w.apply e.configures (handle w.state e)) = some w' →
      w'.Good := by
    intro w' h
    cases h
    rcases handle_cases hl with ⟨-, hnone, hresult⟩ | ⟨n, hn, hhandles, hconfigures⟩
    · -- nothing happens
      have hsame : w.apply e.configures (handle w.state e) = w := by
        rw [hnone, hresult]
        unfold World.apply
        dsimp only
        rw [Finset.filter_true_of_mem (fun pod _ => by intro heq; cases heq)]
        rfl
      rw [hsame]
      exact hw
    · have hadmits := (hsteady n hn).admits hw hhandles
      rw [hconfigures, hhandles.result]
      exact ⟨hw.toSettled.update hhandles.commands hadmits, hw.keyed.put _ _ _⟩
  cases e with
  | restart pod =>
    cases h
    exact hw.restart pod
  | create r body => exact happly h
  | delete r body => exact happly h
  | update r body old => exact happly h
  | status new body => exact happly h

theorem good_start {s : ClusterState} (hs : s.WellNamed) (hkeyed : s.Keyed) (hpods : s.pods = [])
    (proxies : Fqn → Proxy) : (start s proxies).Good := by
  refine ⟨⟨hs, ?_, [], ?_, ?_⟩, hkeyed⟩
  · intro e he
    change e ∈ s.pods at he
    rw [hpods] at he
    cases he
  · change getActions s s = .ok []
    unfold getActions
    rw [hpods]
    rfl
  · intro pod hpod
    change pod ∈ s.pods.map Prod.fst at hpod
    rw [hpods] at hpod
    cases hpod

theorem Good.run {w₀ : World} (hw : w₀.Good) (hrun : Run World.step Admissible w₀ w) : w.Good :=
  hrun.invariant (fun _ _ _ hw hok h => hw.step hok h) hw

/-- Pods, targets, rules and virtual services come and go in any order, and containers restart at
any time: the proxy of every listed pod has exactly what the state wants, or if it has restarted
and the operator has not been told yet, nothing else. -/
theorem proxies_settled (s : ClusterState) (hs : s.WellNamed) (hkeyed : s.Keyed)
    (hpods : s.pods = []) (proxies : Fqn → Proxy) (w : World)
    (hrun : Run step Admissible (start s proxies) w) :
    ∃ a, getActions w.state w.state = .ok a ∧ ∀ pod ∈ w.state.pods.map Prod.fst,
      (∀ n, w.proxies pod n = none ∨ Same (w.proxies pod n) (wanted a pod n)) ∧
      (pod ∉ w.erased → (w.proxies pod).Holds (wanted a pod)) := by
  obtain ⟨a, ha, hproxies⟩ := ((good_start hs hkeyed hpods proxies).run hrun).holds
  refine ⟨a, ha, ?_⟩
  intro pod hpod
  obtain ⟨hpart, hcomplete⟩ := hproxies pod hpod
  exact ⟨hpart.within, fun hnot => hpart.holds (hcomplete hnot)⟩

/-- A cluster with a target and no pods. -/
def podlessState : ClusterState := ⟨[], [], [], [(targetName, exampleTarget 1)], []⟩

/-- The container of the example is ready. -/
def readyStatus : Value := .list [.dict [("name", .str "l7mp"), ("ready", .bool true)]]

/-- A pod comes, its container restarts, and the operator is told. -/
theorem proxies_settled_restart : ∃ w a,
    Run step Admissible (start podlessState (fun _ _ => none)) w ∧
    podName ∈ w.state.pods.map Prod.fst ∧ (w.proxies podName).Holds (wanted a podName) ∧
    (wanted a podName (.endpoint targetName "10.0.0.1")).isSome := by
  let w₀ := start podlessState (fun _ _ => none)
  let w₁ := w₀.apply (some podName) (handle w₀.state (.create .pods examplePod))
  let w₂ : World := { w₁ with
    proxies := fun f => if f = podName then fun _ => none else w₁.proxies f
    erased := insert podName w₁.erased }
  let w₃ := w₂.apply (some podName) (handle w₂.state (.status readyStatus examplePod))
  let l := commands [] (actionsOf w₁.state w₁.state)
  have hfirst : Step step Admissible w₀ w₁ := by
    refine ⟨.create .pods examplePod, ⟨⟨l, by decide +kernel⟩, ?_⟩, by rfl⟩
    intro n hn
    have hnotice : n = ⟨.pods, podName, none, some examplePod⟩ := (Option.some.inj hn).symm
    subst hnotice
    exact ⟨by decide, by decide, fun v hv => (by cases hv), Or.inl trivial, fun _ => Or.inl rfl,
      fun hr => (by cases hr), fun _ _ => rfl⟩
  have hrestart : Step step Admissible w₁ w₂ :=
    ⟨.restart podName, ⟨⟨[], rfl⟩, fun n hn => (by cases hn)⟩, rfl⟩
  have hstatus : Step step Admissible w₂ w₃ := by
    refine ⟨.status readyStatus examplePod, ⟨⟨l, by decide +kernel⟩, ?_⟩, by rfl⟩
    intro n hn
    have hnotice : n = ⟨.pods, podName, none, some examplePod⟩ := (Option.some.inj hn).symm
    subst hnotice
    exact ⟨by decide, by decide, fun v hv => (by cases hv), Or.inr (SamePod.refl _ _),
      fun _ => Or.inl rfl, fun hr => (by cases hr), fun _ hnone => (by cases hnone)⟩
  have hrun : Run step Admissible w₀ w₃ :=
    ((Relation.ReflTransGen.refl.tail hfirst).tail hrestart).tail hstatus
  obtain ⟨a, ha, hproxies⟩ := proxies_settled podlessState
    (by constructor <;> (unfold Named; decide +kernel))
    (by intro r; cases r <;> decide +kernel) rfl (fun _ _ => none) w₃ hrun
  have hlisted : podName ∈ w₃.state.pods.map Prod.fst := by decide +kernel
  have hactions : a = actionsOf w₃.state w₃.state := by
    unfold actionsOf
    rw [ha]
    rfl
  refine ⟨w₃, a, hrun, hlisted, (hproxies podName hlisted).2 (by decide +kernel), ?_⟩
  rw [hactions]
  decide +kernel

end World

end L7mp.Operator
