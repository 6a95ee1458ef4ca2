import L7mp.OperatorConverges
import L7mp.OperatorEvents
import L7mp.GuardedRun
import Mathlib.Data.Finset.Filter
import Mathlib.Data.Finset.Insert

/-! Runs of the operator: the events of the watched objects, while the containers of the proxies
restart. -/
namespace L7mp.Operator
open Python GuardedRun

/-! ### The handlers -/

/-- `del s[o_type][fqn]`; nothing happens if it is not there. -/
def ClusterState.del (s : ClusterState) (r : Resource) (fqn : Fqn) : ClusterState :=
  match r with
  | .pods => { s with pods := Dict.del fqn s.pods }
  | .endpoints => { s with endpoints := Dict.del fqn s.endpoints }
  | .virtualservices => { s with virtualservices := Dict.del fqn s.virtualservices }
  | .targets => { s with targets := Dict.del fqn s.targets }
  | .rules => { s with rules := Dict.del fqn s.rules }

/-- What comes of a handler: the commands that it runs, and the state of the operator. -/
abbrev Handled := Except Exc (List Command) × ClusterState

/-- `create_fn`. -/
def createFn (s : ClusterState) (r : Resource) (body : Value) : Handled :=
  let name : Except Exc Fqn := do
    failIfPodNotReady r body
    getFqn body
  match name with
  | .error e => (.error e, s)
  | .ok fqn => (update (s.set r fqn body) (s.del r fqn), s.set r fqn body)

/-- `delete_fn`. -/
def deleteFn (s : ClusterState) (r : Resource) (body : Value) : Handled :=
  match getFqn body with
  | .error e => (.error e, s)
  | .ok fqn => (update (s.del r fqn) (s.set r fqn body), s.del r fqn)

/-- The status of the container `l7mp`. -/
def l7mpContainer (new : Value) : Except Exc (Option Value) := do
  if !new.truthy then return none
  (← new.iter).findM? (fun container => do
    return (← container.get "name" .none).Eqv (.str "l7mp"))

/-- Whether the container of the proxy is ready, if the pod has one. -/
def l7mpReady (new body : Value) : Except Exc (Option Bool) := do
  match ← l7mpContainer new with
  | none => return none
  | some container =>
    let _ ← getFqn body
    return some (← container.get "ready" .none).truthy

/-- `pod_status_fn`. -/
def podStatusFn (s : ClusterState) (new body : Value) : Handled :=
  match l7mpReady new body with
  | .error e => (.error e, s)
  | .ok none => (.ok [], s)
  | .ok (some true) => createFn s .pods body
  | .ok (some false) => deleteFn s .pods body

/-- An event that the operator handles, or the restart of the container of a proxy. -/
inductive OperatorEvent
  | create (r : Resource) (body : Value)
  | delete (r : Resource) (body : Value)
  | update (r : Resource) (body old : Value)
  | status (new body : Value)
  | restart (pod : Fqn)

def handle (s : ClusterState) : OperatorEvent → Handled
  | .create r body => createFn s r body
  | .delete r body => deleteFn s r body
  | .update r body old => updateFn s r body old
  | .status new body => podStatusFn s new body
  | .restart _ => (.ok [], s)

/-- The pod that an event has configured from nothing. -/
def OperatorEvent.configures : OperatorEvent → Option Fqn
  | .create .pods body => (getFqn body).toOption
  | .status new body =>
    if l7mpReady new body = .ok (some true) then (getFqn body).toOption else none
  | _ => none

/-- The operator and the proxies. A proxy in `erased` lost its configuration in a restart, and the
operator has not been told yet. -/
structure World where
  state : ClusterState
  proxies : Fqn → Proxy
  erased : Finset Fqn

namespace World

def start (s : ClusterState) (proxies : Fqn → Proxy) : World := ⟨s, proxies, ∅⟩

/-- A handler that raises runs no command. -/
def apply (w : World) (configured : Option Fqn) (h : Handled) : World :=
  match h.1 with
  | .error _ => { w with state := h.2 }
  | .ok l => {
      state := h.2
      proxies := runCommands h.2 l w.proxies
      erased := w.erased.filter (fun pod => configured ≠ some pod) }

def step (w : World) : OperatorEvent → Option World
  | .restart pod => some { w with
      proxies := fun f => if f = pod then fun _ => none else w.proxies f
      erased := insert pod w.erased }
  | e => some (w.apply e.configures (handle w.state e))

end World

/-! ### What an update makes of a proxy -/

/-- A proxy in order that has nothing but what is wanted. -/
structure PartOf (p want : Proxy) : Prop where
  tidy : Tidy p
  within : ∀ n, p n = none ∨ Same (p n) (want n)

/-- Nothing that is wanted is missing. -/
def Complete (p want : Proxy) : Prop := ∀ n, (want n).isSome → (p n).isSome

variable {p held old new want : Proxy} {targets : List Fqn}

theorem Tidy.part (h : Tidy p) : PartOf p p := ⟨h, fun n => Or.inr (Same.refl (p n))⟩

/-- Nothing is a part of anything. -/
theorem partOf_none (want : Proxy) : PartOf (fun _ => none) want where
  tidy := by
    constructor
    case objects => exact fun f r hr => by cases hr
    case endpoints => exact fun t ip r hr => by cases hr
    case closed => exact fun t ip hsome => by cases hsome
    case kinds => exact fun t ip hsome => by cases hsome
  within _ := Or.inl rfl

theorem PartOf.isSome (h : PartOf p want) {n : ActionName} (hn : (p n).isSome) :
    (want n).isSome := by
  rcases h.within n with hnone | hsame
  · rw [hnone] at hn
    cases hn
  · rw [← hsame.isSome]
    exact hn

theorem PartOf.holds (h : PartOf p want) (hcomplete : Complete p want) : p.Holds want := by
  intro n
  rcases h.within n with hnone | hsame
  · cases hwant : want n with
    | none =>
      rw [hnone]
      exact Same.refl none
    | some r =>
      have hsome := hcomplete n (by rw [hwant]; rfl)
      rw [hnone] at hsome
      cases hsome
  · exact hsame

/-- The proxy after the commands that go from `old` to `new`. -/
def outcome (targets : List Fqn) (old new p : Proxy) : Proxy
  | .obj f => after (old (.obj f)) (new (.obj f)) (p (.obj f))
  | .endpoint t ip => afterEndpoint targets t (after (old (.obj t)) (new (.obj t)) (p (.obj t)))
      (old (.endpoint t ip)) (new (.endpoint t ip))
      (if Dropped old new t then none else p (.endpoint t ip))

theorem runCommands_outcome {sOld sNew : ClusterState} {aOld aNew : Actions}
    (hOld : sOld.WellNamed) (hNew : sNew.WellNamed) (hold : getActions sNew sOld = .ok aOld)
    (hnew : getActions sNew sNew = .ok aNew) {l : List Command} (hl : update sNew sOld = .ok l)
    {pod : Fqn} {o : Value} (hpod : sNew.pods.lookup pod = some o)
    (hready : getL7mpInstance o = .ok ()) {proxies : Fqn → Proxy} (hp : Tidy (proxies pod)) :
    runCommands sNew l proxies pod = outcome (sNew.targets.map Prod.fst) (wanted aOld pod)
      (wanted aNew pod) (proxies pod) := by
  have hcommands : l = commands aOld aNew := by
    unfold update at hl
    rw [hold, hnew] at hl
    cases hl
    rfl
  have hsOld := getActions_sound hOld hold
  have hsNew := getActions_sound hNew hnew
  have hmem := Dict.mem_of_lookup hpod
  have hresult := podCommands_result (hsOld.podFits pod) (hsNew.podFits pod) hready
    (hNew.pods _ hmem).1 (List.mem_map_of_mem hmem) hpod ⟨rfl, rfl⟩ hp
  rw [← filter_commands hsOld.podFits hsNew.podFits, ← runCommands_pod, ← hcommands] at hresult
  rw [hresult]
  funext n
  cases n with
  | obj f => exact rfl
  | endpoint t ip => exact rfl

/-- An object that is not dropped stays. -/
theorem isSome_after {o n r : Option Registered} (hdropped : ¬(o.isSome ∧ ¬Same o n))
    (hr : r.isSome) : (after o n r).isSome := by
  unfold after
  split_ifs with hsame hsome
  · exact hr
  · exact absurd ⟨hsome, hsame⟩ hdropped
  · rw [Option.isSome_or, hr]
    rfl

/-- An endpoint after the commands was there and stayed, or its cluster is there. -/
theorem afterEndpoint_eq_some {t : Fqn} {cluster o n r : Option Registered} {x : Registered}
    (h : afterEndpoint targets t cluster o n r = some x) :
    r = some x ∨ (cluster.isSome ∧ o = none ∧ n = some x) := by
  unfold afterEndpoint at h
  split at h
  · split_ifs at h with hcluster
    · rcases Option.or_eq_some_iff.mp h with hr | ⟨-, hn⟩
      · exact Or.inl hr
      · exact Or.inr ⟨hcluster, rfl, hn⟩
    · exact Or.inl h
  · split_ifs at h
    exact Or.inl h
  · exact Or.inl h

theorem PartOf.after (hp : PartOf p held) (hs : Settles held old new) (f : Fqn) :
    after (old (.obj f)) (new (.obj f)) (p (.obj f)) = none ∨
      Same (after (old (.obj f)) (new (.obj f)) (p (.obj f))) (new (.obj f)) := by
  unfold Operator.after
  split_ifs with hsame hsome
  · exact (hp.within (.obj f)).imp id (fun h => h.trans (hs.kept f hsame))
  · exact Or.inr (Same.refl _)
  · right
    have ho : old (.obj f) = none := by simpa using hsome
    cases hr : p (.obj f) with
    | none => exact Same.refl _
    | some r =>
      have hheld : Same (some r) (held (.obj f)) := by
        rcases hp.within (.obj f) with h | h
        · rw [hr] at h
          cases h
        · rw [hr] at h
          exact h
      rcases hs.added f ho with h | h
      · rw [h] at hheld
        exact absurd (same_none.mp hheld) (by intro h; cases h)
      · exact hheld.trans h

/-- What a proxy keeps of an endpoint. -/
theorem PartOf.stays (hp : PartOf p held) {t : Fqn} {ip : String} {r : Registered}
    (h : (if Dropped old new t then none else p (.endpoint t ip)) = some r) :
    ¬Dropped old new t ∧ p (.endpoint t ip) = some r ∧ (held (.endpoint t ip)).isSome := by
  split_ifs at h with hdropped
  refine ⟨hdropped, h, hp.isSome ?_⟩
  rw [h]
  rfl

/-- A step that settles leaves a part of what is wanted. -/
theorem PartOf.outcome (hp : PartOf p held) (hold : Tidy old) (hnew : Tidy new)
    (htargets : ∀ t, t.kind = "Target" → (new (.obj t)).isSome → t ∈ targets)
    (hs : Settles held old new) : PartOf (outcome targets old new p) new := by
  have hendpoint : ∀ t ip r, Operator.outcome targets old new p (.endpoint t ip) = some r →
      (¬Dropped old new t ∧ p (.endpoint t ip) = some r ∧ (held (.endpoint t ip)).isSome) ∨
      ((Operator.outcome targets old new p (.obj t)).isSome ∧ old (.endpoint t ip) = none ∧
        new (.endpoint t ip) = some r) := by
    intro t ip r hr
    rcases afterEndpoint_eq_some hr with h | h
    · exact Or.inl (hp.stays h)
    · exact Or.inr h
  have htidy : ∀ t ip r, Operator.outcome targets old new p (.endpoint t ip) = some r →
      Same (some r) (some ⟨some (.obj t), .dict [("address", .str ip)]⟩) ∧
        (Operator.outcome targets old new p (.obj t)).isSome ∧ t.kind = "Target" := by
    intro t ip r hr
    rcases hendpoint t ip r hr with ⟨hdropped, hpr, -⟩ | ⟨hcluster, -, hn⟩
    · have hsome : (p (.endpoint t ip)).isSome := by
        rw [hpr]
        rfl
      exact ⟨hp.tidy.endpoints t ip r hpr, isSome_after hdropped (hp.tidy.closed t ip hsome),
        hp.tidy.kinds t ip hsome⟩
    · have hsome : (new (.endpoint t ip)).isSome := by
        rw [hn]
        rfl
      exact ⟨hnew.endpoints t ip r hn, hcluster, hnew.kinds t ip hsome⟩
  constructor
  case tidy =>
    constructor
    case objects =>
      intro f r hr
      rcases after_eq_some hr with h | h
      · exact hp.tidy.objects f r h
      · exact hnew.objects f r h
    case endpoints => exact fun t ip r hr => (htidy t ip r hr).1
    case closed =>
      intro t ip hsome
      obtain ⟨r, hr⟩ := Option.isSome_iff_exists.mp hsome
      exact (htidy t ip r hr).2.1
    case kinds =>
      intro t ip hsome
      obtain ⟨r, hr⟩ := Option.isSome_iff_exists.mp hsome
      exact (htidy t ip r hr).2.2
  case within =>
    intro n
    cases n with
    | obj f => exact hp.after hs f
    | endpoint t ip =>
      cases hr : Operator.outcome targets old new p (.endpoint t ip) with
      | none => exact Or.inl rfl
      | some r =>
        right
        -- both are the endpoint of that name, if the new state wants it
        have hwanted : (new (.endpoint t ip)).isSome := by
          rcases hendpoint t ip r hr with ⟨hdropped, hpr, hheld⟩ | ⟨-, -, hn⟩
          · cases ho : old (.endpoint t ip) with
            | none =>
              by_contra hnone
              have heq : (old (.endpoint t ip)).isSome = (new (.endpoint t ip)).isSome := by
                rw [ho, Option.not_isSome_iff_eq_none.mp hnone]
              exact hnone ((hs.endpoints t ip heq).mp ⟨hheld, hdropped⟩)
            | some a =>
              by_contra hnone
              have hgone : new (.endpoint t ip) = none := Option.not_isSome_iff_eq_none.mp hnone
              have hcluster := hold.closed t ip (by rw [ho]; rfl)
              have hkind := hold.kinds t ip (by rw [ho]; rfl)
              by_cases ht : t ∈ targets
              · change afterEndpoint targets t _ _ _ _ = _ at hr
                rw [ho, hgone] at hr
                rw [show afterEndpoint targets t _ (some a) none _ = none from if_pos ht] at hr
                cases hr
              · -- its target is gone
                apply hdropped
                refine ⟨hcluster, fun hsame => ht (htargets t hkind ?_)⟩
                rw [← hsame.isSome]
                exact hcluster
          · rw [hn]
            rfl
        obtain ⟨x, hx⟩ := Option.isSome_iff_exists.mp hwanted
        rw [hx]
        exact (htidy t ip r hr).1.trans (hnew.endpoints t ip x hx).symm

/-- A step that settles adds what is missing, when nothing was. -/
theorem Complete.outcome (hp : Complete p held) (hnew : Tidy new) (hs : Settles held old new) :
    Complete (outcome targets old new p) new := by
  have hobj : ∀ f, (new (.obj f)).isSome →
      (Operator.outcome targets old new p (.obj f)).isSome := by
    intro f hn
    change (Operator.after _ _ _).isSome = true
    unfold Operator.after
    split_ifs with hsame hsome
    · apply hp
      rw [(hs.kept f hsame).isSome]
      exact hn
    · exact hn
    · rw [Option.isSome_or, hn, Bool.or_true]
  intro n hn
  cases n with
  | obj f => exact hobj f hn
  | endpoint t ip =>
    have hcluster := hobj t (hnew.closed t ip hn)
    obtain ⟨x, hx⟩ := Option.isSome_iff_exists.mp hn
    change (Operator.after _ _ _).isSome = true at hcluster
    change (afterEndpoint targets t _ _ _ _).isSome = true
    rw [hx]
    cases ho : old (.endpoint t ip) with
    | none =>
      have hadded : ∀ cluster r : Option Registered, cluster.isSome →
          (afterEndpoint targets t cluster none (some x) r).isSome := by
        intro cluster r h
        unfold afterEndpoint
        dsimp only
        rw [if_pos h, Option.isSome_or, Option.isSome_some, Bool.or_true]
      exact hadded _ _ hcluster
    | some a =>
      have heq : (old (.endpoint t ip)).isSome = (new (.endpoint t ip)).isSome := by
        rw [ho, hx]
        rfl
      obtain ⟨hheld, hdropped⟩ := (hs.endpoints t ip heq).mpr hn
      have hkept : ∀ cluster r : Option Registered,
          afterEndpoint targets t cluster (some a) (some x) r = r := fun _ _ => rfl
      rw [hkept, if_neg hdropped]
      exact hp _ hheld

/-- What a proxy has seems to be missing, when its pod is configured from nothing. -/
theorem PartOf.settles_created (h : PartOf p want) : Settles p (fun _ => none) want where
  kept f hsame := by
    rcases h.within (.obj f) with hnone | hp
    · rw [hnone]
      exact hsame
    · exact hp
  added f _ := h.within (.obj f)
  endpoints t ip heq := by
    have hwant : ¬(want (.endpoint t ip)).isSome = true := by
      rw [← heq]
      intro hsome
      cases hsome
    exact iff_of_false (fun hp => hwant (h.isSome hp.1)) hwant

/-! ### Runs -/

namespace World

/-- The proxies of the listed pods have what the state of the operator wants, and those that lost
it have nothing else. -/
structure Settled (w : World) : Prop where
  named : w.state.WellNamed
  ready : ∀ e ∈ w.state.pods, getL7mpInstance e.2 = .ok ()
  holds : ∃ a, getActions w.state w.state = .ok a ∧ ∀ pod ∈ w.state.pods.map Prod.fst,
    PartOf (w.proxies pod) (wanted a pod) ∧
      (pod ∉ w.erased → Complete (w.proxies pod) (wanted a pod))

/-- An update from a state that settles every proxy: a pod that is configured from nothing has no
more than it should have, and the others settle. -/
structure Admits (w : World) (configured : Option Fqn) (sOld sNew : ClusterState) : Prop where
  oldNamed : sOld.WellNamed
  newNamed : sNew.WellNamed
  ready : ∀ e ∈ sNew.pods, getL7mpInstance e.2 = .ok ()
  settles : ∀ held old new, getActions w.state w.state = .ok held →
    getActions sNew sOld = .ok old → getActions sNew sNew = .ok new →
    ∀ pod ∈ sNew.pods.map Prod.fst,
      (configured = some pod ∧ wanted old pod = (fun _ => none) ∧
        PartOf (w.proxies pod) (wanted new pod)) ∨
      (configured ≠ some pod ∧ pod ∈ w.state.pods.map Prod.fst ∧
        Settles (wanted held pod) (wanted old pod) (wanted new pod))

theorem Settled.update {w : World} (h : w.Settled) {configured : Option Fqn}
    {sOld sNew : ClusterState} {l : List Command} (hl : Operator.update sNew sOld = .ok l)
    (hadmits : w.Admits configured sOld sNew) : (w.apply configured (.ok l, sNew)).Settled := by
  obtain ⟨old, hold, hrest⟩ := Aborting.bind_eq_ok hl
  obtain ⟨new, hnew, -⟩ := Aborting.bind_eq_ok hrest
  obtain ⟨held, hheld, hproxies⟩ := h.holds
  refine ⟨hadmits.newNamed, hadmits.ready, new, hnew, ?_⟩
  intro pod hpod
  obtain ⟨e, he, rfl⟩ := List.mem_map.mp hpod
  have hsNew := getActions_sound hadmits.newNamed hnew
  have hsOld := getActions_sound hadmits.oldNamed hold
  have htidyNew : Tidy (wanted new e.1) := hsNew.tidy (fun n => Same.refl _)
  have htidyOld : Tidy (wanted old e.1) := hsOld.tidy (fun n => Same.refl _)
  obtain ⟨o, ho⟩ : ∃ o, sNew.pods.lookup e.1 = some o := by
    rw [← Option.ne_none_iff_exists', Ne, Dict.lookup_eq_none, not_not]
    exact hpod
  -- what the proxy has before, and the part of it that is complete
  have hbefore : ∃ p, PartOf (w.proxies e.1) p ∧ Settles p (wanted old e.1) (wanted new e.1) ∧
      (e.1 ∉ w.erased ∨ configured = some e.1 → Complete (w.proxies e.1) p) := by
    rcases hadmits.settles held old new hheld hold hnew e.1 hpod with
      ⟨hconfigured, hnone, hpart⟩ | ⟨hconfigured, hlisted, hsettles⟩
    · refine ⟨w.proxies e.1, hpart.tidy.part, ?_, fun _ n hn => hn⟩
      rw [hnone]
      exact hpart.settles_created
    · obtain ⟨hpart, hcomplete⟩ := hproxies e.1 hlisted
      refine ⟨_, hpart, hsettles, fun hor => hcomplete ?_⟩
      exact hor.resolve_right hconfigured
  obtain ⟨p, hpart, hsettles, hcomplete⟩ := hbefore
  have houtcome := runCommands_outcome hadmits.oldNamed hadmits.newNamed hold hnew hl ho
    (hadmits.ready _ (Dict.mem_of_lookup ho)) hpart.tidy
  change PartOf (runCommands sNew l w.proxies e.1) _ ∧
    (e.1 ∉ w.erased.filter _ → Complete (runCommands sNew l w.proxies e.1) _)
  rw [houtcome]
  refine ⟨hpart.outcome htidyOld htidyNew ?_ hsettles, ?_⟩
  · exact fun t hkind hsome => hsNew.target hkind hsome
  · intro hkept
    refine (hcomplete ?_).outcome htidyNew hsettles
    rw [Finset.mem_filter, not_and, not_not] at hkept
    by_cases hin : e.1 ∈ w.erased
    · exact Or.inr (hkept hin)
    · exact Or.inl hin

end World

end L7mp.Operator
