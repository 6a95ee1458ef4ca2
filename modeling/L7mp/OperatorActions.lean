import L7mp.Aborting
import L7mp.OperatorSelector

/-! What the operator wants of the proxies in a state of the cluster. -/
namespace L7mp.Operator
open Python Aborting

/-- The `type` of an action. -/
inductive ActionType
  | vsvc | target | dynamicEndpoint | rule
  deriving DecidableEq, Repr

/-- The `name` of an action: that of an object, or the name of its target and an address. -/
inductive ActionName
  | obj (f : Fqn)
  | endpoint (target : Fqn) (ip : String)
  deriving DecidableEq, Repr

/-- The key of an action. -/
def ActionName.key : ActionName → String
  | obj f => f.render
  | endpoint t ip => "ep_" ++ t.render ++ "/" ++ ip

structure Action where
  type : ActionType
  name : ActionName
  spec : Value
  target : Option Fqn
  deriving DecidableEq, Repr

/-- `action_old == action_new`. -/
def Action.Eqv (a b : Action) : Prop :=
  a.type = b.type ∧ a.name = b.name ∧ a.spec.Eqv b.spec ∧ a.target = b.target

instance (a b : Action) : Decidable (a.Eqv b) := inferInstanceAs (Decidable (_ ∧ _ ∧ _ ∧ _))

/-- The actions of all pods. -/
abbrev Actions := List ((Fqn × ActionName) × Action)

/-- The `VirtualService` that a target is linked to, by the full or the short name. -/
def linkedVirtualService (s : ClusterState) (vsvcName : Value) : Except Exc (Option Value) := do
  match vsvcName with
  | .list _ | .dict _ => throw .typeError
  | _ =>
    match s.virtualservices.find? (fun e => vsvcName = .str e.1.render ∧ e.2.truthy) with
    | some e => return some e.2
    | none =>
      let found ← s.virtualservices.findM? (fun e => do
        return (← (← e.2.item "metadata").item "name").Eqv vsvcName)
      return found.map Prod.snd

def getTargetExtendedSpec (s : ClusterState) (target : Value) : Except Exc Value := do
  let spec ← target.item "spec"
  match spec.item "linkedVirtualService" with
  | .error (.keyError _) => return spec
  | .error e => throw e
  | .ok vsvcName =>
    let spec ← spec.delItem "linkedVirtualService"
    match ← linkedVirtualService s vsvcName with
    | none => return .dict []
    | some vsvc =>
      let cluster ← spec.get "cluster" (.dict [])
      let eps ← cluster.get "endpoints" (.list [])
      let vspec ← vsvc.item "spec"
      let newEp ← vspec.get "selector" (.list [])
      let cluster ← if newEp.truthy then do
          cluster.setItem "endpoints" (← eps.append (.dict [("selector", newEp)]))
        else pure cluster
      let listener ← vspec.item "listener"
      spec.setItem "cluster" (← cluster.setItem "spec" (← listener.get "spec" (.dict [])))

/-- The loop over the matching pods of an endpoint with a selector. -/
def addDynamicEndpoints (g s : ClusterState) (target selector : Value)
    (dynamicEps : List (ActionName × Value)) : Except Exc (List (ActionName × Value)) :=
  s.pods.foldlM (fun eps e => do
    if ← doesSelectorMatch g selector e.2 then
      let podIp ← (← e.2.item "status").get "podIP" .none
      if podIp.truthy then
        let name := ActionName.endpoint (← getFqn target) (← namePart podIp)
        return Dict.set name (.dict [("address", podIp)]) eps
      else return eps
    else return eps) dynamicEps

/-- The static endpoints, and the dynamic ones with their specifications. -/
def getEndpointGroups (g s : ClusterState) (target : Value) :
    Except Exc (List Value × List (ActionName × Value)) :=
  match (do (← (← target.item "spec").item "cluster").item "endpoints") with
  | .error (.keyError _) => return ([], [])
  | .error e => throw e
  | .ok endpoints => do
    (← endpoints.iter).foldlM (fun groups ep => do
      if ← (Value.str "spec").isIn ep then return (groups.1 ++ [ep], groups.2)
      else if ← (Value.str "selector").isIn ep then
        return (groups.1, ← addDynamicEndpoints g s target (← ep.item "selector") groups.2)
      else return groups) ([], [])

/-- The actions of an object that has the `selector` in its `spec`. -/
def objectActions (g : ClusterState) (type : ActionType) (pod obj : Value) :
    Except Exc (List (ActionName × Action)) := do
  if ← doesSelectorMatch g (← (← obj.item "spec").item "selector") pod then
    let fqn ← getFqn obj
    return [(.obj fqn, ⟨type, .obj fqn, ← obj.item "spec", none⟩)]
  else return []

def targetActions (g s : ClusterState) (pod target : Value) :
    Except Exc (List (ActionName × Action)) := do
  let spec ← getTargetExtendedSpec s target
  if !spec.truthy then return []
  if !(← doesSelectorMatch g (← spec.item "selector") pod) then return []
  let etarget ← target.setItem "spec" spec
  let (staticEps, dynamicEps) ← getEndpointGroups g s etarget
  let cluster ← (← spec.item "cluster").setItem "endpoints" (.list staticEps)
  let spec ← spec.setItem "cluster" cluster
  let fqn ← getFqn etarget
  return (.obj fqn, ⟨.target, .obj fqn, spec, none⟩) ::
    dynamicEps.map (fun d => (d.1, ⟨.dynamicEndpoint, d.1, d.2, some fqn⟩))

/-- The actions of one pod, in the order in which they are entered. -/
def podActions (g s : ClusterState) (pod : Value) : Except Exc (List (ActionName × Action)) := do
  let vsvcs ← gather (fun e => objectActions g .vsvc pod e.2) s.virtualservices
  let targets ← gather (fun e => targetActions g s pod e.2) s.targets
  let rules ← gather (fun e => objectActions g .rule pod e.2) s.rules
  return vsvcs ++ targets ++ rules

/-- `get_actions(s)`, when the state of the operator is `g`. -/
def getActions (g s : ClusterState) : Except Exc Actions := do
  let entries ← gather (fun e => do
    let actions ← podActions g s e.2
    if actions.isEmpty then return []
    let fqn ← getFqn e.2
    return actions.map (fun a => ((fqn, a.1), a.2))) s.pods
  return Dict.assign entries

/-- The state of the operator matters only for the selectors. -/
theorem getActions_congr {g g' : ClusterState}
    (h : ∀ selector pod, doesSelectorMatch g selector pod = doesSelectorMatch g' selector pod)
    (s : ClusterState) : getActions g s = getActions g' s := by
  have hmatch : doesSelectorMatch g = doesSelectorMatch g' := by
    funext selector pod
    exact h selector pod
  unfold getActions podActions targetActions getEndpointGroups addDynamicEndpoints objectActions
  rw [hmatch]

/-! ### The form of the actions -/

/-- Objects are listed under their names, and all are of one kind. -/
def Named (kind : String) (table : List (Fqn × Value)) : Prop :=
  ∀ e ∈ table, getFqn e.2 = .ok e.1 ∧ e.1.kind = kind

structure ClusterState.WellNamed (s : ClusterState) : Prop where
  pods : Named "Pod" s.pods
  endpoints : Named "Endpoints" s.endpoints
  virtualservices : Named "VirtualService" s.virtualservices
  targets : Named "Target" s.targets
  rules : Named "Rule" s.rules

/-- The type of the actions of an object. -/
def typeOfKind (kind : String) : Option ActionType :=
  match kind with
  | "VirtualService" => some .vsvc
  | "Target" => some .target
  | "Rule" => some .rule
  | _ => none

/-- The name of an action says what else is in it, except for the specification of an object. -/
def Action.Fits (a : Action) : ActionName → Prop
  | .obj f => a.name = .obj f ∧ typeOfKind f.kind = some a.type ∧ a.target = none
  | .endpoint t ip =>
    a = ⟨.dynamicEndpoint, .endpoint t ip, .dict [("address", .str ip)], some t⟩

variable {g s : ClusterState} {pod target obj : Value}

theorem item_setItem_ne {v w u : Value} {k k' : String} (h : v.setItem k w = .ok u) (hk : k' ≠ k) :
    u.item k' = v.item k' := by
  cases v with
  | dict d =>
    cases h
    unfold Value.item
    dsimp only
    rw [Dict.lookup_set_ne hk]
  | _ => cases h

theorem getFqn_setItem {v w u : Value} (h : v.setItem "spec" w = .ok u) : getFqn u = getFqn v := by
  unfold getFqn
  rw [item_setItem_ne h (by decide), item_setItem_ne h (by decide), item_setItem_ne h (by decide)]

theorem objectActions_spec {type : ActionType} {fqn : Fqn} {r : List (ActionName × Action)}
    (hfqn : getFqn obj = .ok fqn) (h : objectActions g type pod obj = .ok r) :
    ∀ e ∈ r, ∃ spec, e = (.obj fqn, ⟨type, .obj fqn, spec, none⟩) := by
  unfold objectActions at h
  obtain ⟨_, -, h⟩ := bind_eq_ok h
  obtain ⟨_, -, h⟩ := bind_eq_ok h
  obtain ⟨matched, -, h⟩ := bind_eq_ok h
  split at h
  · obtain ⟨f, hf, h⟩ := bind_eq_ok h
    obtain ⟨spec, -, h⟩ := bind_eq_ok h
    rw [hfqn] at hf
    cases hf
    cases h
    intro e he
    exact ⟨spec, List.mem_singleton.mp he⟩
  · cases h
    exact fun e he => absurd he List.not_mem_nil

/-- Dynamic endpoints have the name of the target and an address, and nothing but the address. -/
def DynamicEndPoint (fqn : Fqn) (d : ActionName × Value) : Prop :=
  ∃ ip, d = (.endpoint fqn ip, .dict [("address", .str ip)])

theorem addDynamicEndpoints_spec {fqn : Fqn} {selector : Value} {eps r : List (ActionName × Value)}
    (hfqn : getFqn target = .ok fqn) (heps : ∀ d ∈ eps, DynamicEndPoint fqn d)
    (h : addDynamicEndpoints g s target selector eps = .ok r) :
    ∀ d ∈ r, DynamicEndPoint fqn d := by
  refine foldlM_invariant (P := fun l => ∀ d ∈ l, DynamicEndPoint fqn d) h heps ?_
  intro e _ l l' hl hturn
  obtain ⟨matched, -, hturn⟩ := bind_eq_ok hturn
  split at hturn
  · obtain ⟨status, -, hturn⟩ := bind_eq_ok hturn
    obtain ⟨podIp, -, hturn⟩ := bind_eq_ok hturn
    split at hturn
    · obtain ⟨f, hf, hturn⟩ := bind_eq_ok hturn
      obtain ⟨ip, hip, hturn⟩ := bind_eq_ok hturn
      rw [hfqn] at hf
      cases hf
      cases hturn
      have hstr : podIp = .str ip := by
        cases podIp with
        | str t =>
          cases hip
          rfl
        | _ => cases hip
      subst hstr
      intro d hd
      rcases Dict.mem_set hd with rfl | hd
      · exact ⟨ip, rfl⟩
      · exact hl d hd
    · cases hturn
      exact hl
  · cases hturn
    exact hl

theorem getEndpointGroups_spec {fqn : Fqn} {groups : List Value × List (ActionName × Value)}
    (hfqn : getFqn target = .ok fqn) (h : getEndpointGroups g s target = .ok groups) :
    ∀ d ∈ groups.2, DynamicEndPoint fqn d := by
  unfold getEndpointGroups at h
  split at h
  · cases h
    exact fun d hd => absurd hd List.not_mem_nil
  · cases h
  · obtain ⟨l, -, h⟩ := bind_eq_ok h
    refine foldlM_invariant (P := fun t : List Value × List (ActionName × Value) =>
      ∀ d ∈ t.2, DynamicEndPoint fqn d) h (fun d hd => absurd hd List.not_mem_nil) ?_
    intro ep _ t t' ht hturn
    obtain ⟨isStatic, -, hturn⟩ := bind_eq_ok hturn
    split at hturn
    · cases hturn
      exact ht
    · obtain ⟨isDynamic, -, hturn⟩ := bind_eq_ok hturn
      split at hturn
      · obtain ⟨selector, -, hturn⟩ := bind_eq_ok hturn
        obtain ⟨eps, heps, hturn⟩ := bind_eq_ok hturn
        cases hturn
        exact addDynamicEndpoints_spec hfqn ht heps
      · cases hturn
        exact ht

/-- A target gives its own action first, and its dynamic endpoints after that. -/
theorem targetActions_spec {fqn : Fqn} {r : List (ActionName × Action)}
    (hfqn : getFqn target = .ok fqn) (h : targetActions g s pod target = .ok r) :
    r = [] ∨ ∃ (spec : Value) (eps : List (ActionName × Value)),
      (∀ d ∈ eps, DynamicEndPoint fqn d) ∧ r = (.obj fqn, ⟨.target, .obj fqn, spec, none⟩) ::
        eps.map (fun d => (d.1, ⟨.dynamicEndpoint, d.1, d.2, some fqn⟩)) := by
  unfold targetActions at h
  obtain ⟨spec, -, h⟩ := bind_eq_ok h
  split at h
  · cases h
    exact Or.inl rfl
  · obtain ⟨selector, -, h⟩ := bind_eq_ok h
    obtain ⟨matched, -, h⟩ := bind_eq_ok h
    split at h
    · cases h
      exact Or.inl rfl
    · obtain ⟨etarget, hset, h⟩ := bind_eq_ok h
      obtain ⟨⟨staticEps, dynamicEps⟩, hgroups, h⟩ := bind_eq_ok h
      obtain ⟨cluster, -, h⟩ := bind_eq_ok h
      obtain ⟨cluster', -, h⟩ := bind_eq_ok h
      obtain ⟨spec', -, h⟩ := bind_eq_ok h
      obtain ⟨f, hf, h⟩ := bind_eq_ok h
      have hsame : getFqn etarget = .ok fqn := (getFqn_setItem hset).trans hfqn
      rw [hsame] at hf
      cases hf
      cases h
      exact Or.inr ⟨spec', dynamicEps, getEndpointGroups_spec hsame hgroups, rfl⟩

/-- Every action fits its name, and with a dynamic endpoint comes the action of its target. -/
structure PodSound (s : ClusterState) (l : List (ActionName × Action)) : Prop where
  fits : ∀ e ∈ l, e.2.Fits e.1
  closed : ∀ t ip, .endpoint t ip ∈ l.map Prod.fst → .obj t ∈ l.map Prod.fst
  known : ∀ f, f.kind = "Target" → .obj f ∈ l.map Prod.fst → f ∈ s.targets.map Prod.fst
  kinds : ∀ t ip, .endpoint t ip ∈ l.map Prod.fst → t.kind = "Target"

theorem podActions_sound (hs : s.WellNamed) {l : List (ActionName × Action)}
    (h : podActions g s pod = .ok l) : PodSound s l := by
  unfold podActions at h
  obtain ⟨vsvcs, hvsvcs, h⟩ := bind_eq_ok h
  obtain ⟨targets, htargets, h⟩ := bind_eq_ok h
  obtain ⟨rules, hrules, h⟩ := bind_eq_ok h
  cases h
  have hobject : ∀ {type : ActionType} {kind : String} {table : List (Fqn × Value)}
      {r : List (ActionName × Action)}, Named kind table → typeOfKind kind = some type →
      gather (fun e => objectActions g type pod e.2) table = .ok r →
      ∀ e ∈ r, e.2.Fits e.1 ∧ ∃ f, f.kind = kind ∧ e.1 = .obj f := by
    intro type kind table r hnamed htype hr e he
    obtain ⟨t, ht, q, hq, heq⟩ := (mem_gather hr).mp he
    obtain ⟨hfqn, hkind⟩ := hnamed t ht
    obtain ⟨spec, rfl⟩ := objectActions_spec hfqn hq e heq
    refine ⟨⟨rfl, ?_, rfl⟩, t.1, hkind, rfl⟩
    rw [hkind]
    exact htype
  have htarget : ∀ e ∈ targets, e.2.Fits e.1 ∧ ∃ t ∈ s.targets.map Prod.fst,
      t.kind = "Target" ∧ .obj t ∈ targets.map Prod.fst ∧
      (e.1 = .obj t ∨ ∃ ip, e.1 = .endpoint t ip) := by
    intro e he
    obtain ⟨t, ht, q, hq, heq⟩ := (mem_gather htargets).mp he
    obtain ⟨hfqn, hkind⟩ := hs.targets t ht
    rcases targetActions_spec hfqn hq with rfl | ⟨spec, eps, heps, rfl⟩
    · exact absurd heq List.not_mem_nil
    · have hfirst : ActionName.obj t.1 ∈ targets.map Prod.fst := by
        have hmem := (mem_gather htargets).mpr ⟨t, ht, _, hq, List.mem_cons_self⟩
        exact List.mem_map_of_mem (f := Prod.fst) hmem
      rcases List.mem_cons.mp heq with rfl | heq
      · refine ⟨⟨rfl, ?_, rfl⟩, t.1, List.mem_map_of_mem ht, hkind, hfirst, Or.inl rfl⟩
        rw [hkind]
        rfl
      · obtain ⟨d, hd, rfl⟩ := List.mem_map.mp heq
        obtain ⟨ip, rfl⟩ := heps d hd
        exact ⟨rfl, t.1, List.mem_map_of_mem ht, hkind, hfirst, Or.inr ⟨ip, rfl⟩⟩
  have hvsvc := hobject hs.virtualservices rfl hvsvcs
  have hrule := hobject hs.rules rfl hrules
  -- endpoints come from targets only
  have hend : ∀ t ip, ActionName.endpoint t ip ∈ (vsvcs ++ targets ++ rules).map Prod.fst →
      t.kind = "Target" ∧ .obj t ∈ targets.map Prod.fst := by
    intro t ip hmem
    obtain ⟨e, he, hname⟩ := List.mem_map.mp hmem
    rcases List.mem_append.mp he with he | he
    · rcases List.mem_append.mp he with he | he
      · obtain ⟨-, f, -, hf⟩ := hvsvc e he
        rw [hf] at hname
        cases hname
      · obtain ⟨-, t', -, hkind, hfirst, hname' | ⟨ip', hname'⟩⟩ := htarget e he
        · rw [hname'] at hname
          cases hname
        · rw [hname'] at hname
          cases hname
          exact ⟨hkind, hfirst⟩
    · obtain ⟨-, f, -, hf⟩ := hrule e he
      rw [hf] at hname
      cases hname
  constructor
  case fits =>
    intro e he
    rcases List.mem_append.mp he with he | he
    · rcases List.mem_append.mp he with he | he
      · exact (hvsvc e he).1
      · exact (htarget e he).1
    · exact (hrule e he).1
  case closed =>
    intro t ip hmem
    rw [List.map_append, List.map_append]
    exact List.mem_append_left _ (List.mem_append_right _ (hend t ip hmem).2)
  case known =>
    intro f hf hmem
    obtain ⟨e, he, hname⟩ := List.mem_map.mp hmem
    rcases List.mem_append.mp he with he | he
    · rcases List.mem_append.mp he with he | he
      · obtain ⟨-, f', hkind, hf'⟩ := hvsvc e he
        rw [hf'] at hname
        cases hname
        exact absurd (hkind.symm.trans hf) (by decide)
      · obtain ⟨-, t, ht, -, -, hname' | ⟨ip, hname'⟩⟩ := htarget e he
        · rw [hname'] at hname
          cases hname
          exact ht
        · rw [hname'] at hname
          cases hname
    · obtain ⟨-, f', hkind, hf'⟩ := hrule e he
      rw [hf'] at hname
      cases hname
      exact absurd (hkind.symm.trans hf) (by decide)
  case kinds => exact fun t ip hmem => (hend t ip hmem).1

/-- The same for the actions of all pods. -/
structure Actions.Sound (s : ClusterState) (a : Actions) : Prop where
  fits : ∀ pod name act, a.lookup (pod, name) = some act → act.Fits name
  closed : ∀ pod t ip act, a.lookup (pod, .endpoint t ip) = some act →
    ∃ act', a.lookup (pod, .obj t) = some act' ∧ act'.type = .target
  known : ∀ pod f act, a.lookup (pod, .obj f) = some act → act.type = .target →
    f ∈ s.targets.map Prod.fst

theorem typeOfKind_eq_target {kind : String} (h : typeOfKind kind = some .target) :
    kind = "Target" := by
  unfold typeOfKind at h
  split at h
  · cases h
  · rfl
  · cases h
  · cases h

theorem getActions_sound (hs : s.WellNamed) {a : Actions} (h : getActions g s = .ok a) :
    a.Sound s := by
  unfold getActions at h
  obtain ⟨entries, hentries, h⟩ := bind_eq_ok h
  cases h
  have hpod : ∀ e ∈ entries, ∃ l, PodSound s l ∧ (e.1.2, e.2) ∈ l ∧
      ∀ x ∈ l, ((e.1.1, x.1), x.2) ∈ entries := by
    intro e he
    obtain ⟨p, hp, q, hq, heq⟩ := (mem_gather hentries).mp he
    obtain ⟨l, hl, hrest⟩ := bind_eq_ok hq
    split at hrest
    · cases hrest
      exact absurd heq List.not_mem_nil
    · obtain ⟨fqn, -, hrest⟩ := bind_eq_ok hrest
      cases hrest
      obtain ⟨x, hx, rfl⟩ := List.mem_map.mp heq
      refine ⟨l, podActions_sound hs hl, hx, ?_⟩
      intro y hy
      exact (mem_gather hentries).mpr ⟨p, hp, _, hq, List.mem_map_of_mem hy⟩
  have hfits : ∀ pod name act, (Dict.assign entries).lookup (pod, name) = some act →
      act.Fits name := by
    intro pod name act hlookup
    obtain ⟨l, hl, hmem, -⟩ := hpod _ (Dict.mem_of_lookup_assign hlookup)
    exact hl.fits _ hmem
  constructor
  case fits => exact hfits
  case closed =>
    intro pod t ip act hlookup
    obtain ⟨l, hl, hmem, hall⟩ := hpod _ (Dict.mem_of_lookup_assign hlookup)
    have hname := List.mem_map_of_mem (f := Prod.fst) hmem
    obtain ⟨x, hx, hkey⟩ := List.mem_map.mp (hl.closed t ip hname)
    have hentry := hall x hx
    rw [hkey] at hentry
    obtain ⟨act', hact'⟩ : ∃ act', (Dict.assign entries).lookup (pod, .obj t) = some act' := by
      rw [← Option.ne_none_iff_exists', Ne, Dict.lookup_assign_eq_none, not_not]
      exact List.mem_map_of_mem (f := Prod.fst) hentry
    refine ⟨act', hact', ?_⟩
    have htype := (hfits pod _ act' hact').2.1
    rw [hl.kinds t ip hname] at htype
    change some ActionType.target = some act'.type at htype
    exact (Option.some.inj htype).symm
  case known =>
    intro pod f act hlookup htype
    obtain ⟨l, hl, hmem, -⟩ := hpod _ (Dict.mem_of_lookup_assign hlookup)
    have hkind := (hl.fits _ hmem).2.1
    rw [htype] at hkind
    exact hl.known f (typeOfKind_eq_target hkind) (List.mem_map_of_mem (f := Prod.fst) hmem)

end L7mp.Operator
