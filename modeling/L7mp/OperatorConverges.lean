import L7mp.OperatorTurns

/-! When the commands of an update leave a proxy with what the new state wants. -/
namespace L7mp.Operator
open Python

theorem Actions.Sound.podFits {s : ClusterState} {a : Actions} (h : a.Sound s) (pod : Fqn) :
    PodFits (fun n => a.lookup (pod, n)) := fun n act hact => h.fits pod n act hact

/-- With an endpoint, its cluster is wanted, and it is that of a target. -/
theorem Actions.Sound.endpoint {s : ClusterState} {a : Actions} (h : a.Sound s) {pod t : Fqn}
    {ip : String} (hep : (wanted a pod (.endpoint t ip)).isSome) :
    (wanted a pod (.obj t)).isSome ∧ t.kind = "Target" := by
  have hwanted : wanted a pod = registers (fun n => a.lookup (pod, n)) := rfl
  rw [hwanted, (h.podFits pod).registers_endpoint, Option.isSome_map,
    Option.isSome_iff_exists] at hep
  obtain ⟨act, hact⟩ := hep
  obtain ⟨act', hact', htype⟩ := h.closed pod t ip act hact
  have hkind := (h.fits pod _ act' hact').2.1
  rw [htype] at hkind
  refine ⟨?_, typeOfKind_eq_target hkind⟩
  unfold wanted
  rw [hact']
  simp [htype]

/-- Only targets that are there are wanted. -/
theorem Actions.Sound.target {s : ClusterState} {a : Actions} (h : a.Sound s) {pod t : Fqn}
    (hkind : t.kind = "Target") (hwanted : (wanted a pod (.obj t)).isSome) :
    t ∈ s.targets.map Prod.fst := by
  obtain ⟨r, hr⟩ := Option.isSome_iff_exists.mp hwanted
  obtain ⟨act, hact, -⟩ := Option.map_eq_some_iff.mp hr
  obtain ⟨hact, -⟩ := Option.filter_eq_some_iff.mp hact
  have htype := (h.fits pod _ act hact).2.1
  rw [hkind] at htype
  exact h.known pod t act hact (Option.some.inj htype).symm

/-- A proxy that has what actions want is in order. -/
theorem Actions.Sound.tidy {s : ClusterState} {a : Actions} (h : a.Sound s) {pod : Fqn} {p : Proxy}
    (hp : p.Holds (wanted a pod)) : Tidy p := by
  have hwanted : wanted a pod = registers (fun n => a.lookup (pod, n)) := rfl
  constructor
  case objects =>
    intro f r hr
    have hsame := hp (.obj f)
    cases hw : wanted a pod (.obj f) with
    | none =>
      rw [hw, same_none, hr] at hsame
      cases hsame
    | some r' =>
      rw [hw, hr] at hsame
      have hcluster : r'.cluster = none := (h.podFits pod).registers_obj hw
      exact (congrArg Prod.fst (Option.some.inj hsame)).trans hcluster
  case endpoints =>
    intro t ip r hr
    have hsame := hp (.endpoint t ip)
    rw [hwanted, (h.podFits pod).registers_endpoint, hr] at hsame
    cases hact : a.lookup (pod, .endpoint t ip) with
    | none =>
      rw [hact] at hsame
      exact absurd (same_none.mp hsame) nofun
    | some act =>
      rw [hact] at hsame
      exact hsame
  case closed =>
    intro t ip hsome
    rw [(hp (.endpoint t ip)).isSome] at hsome
    rw [(hp (.obj t)).isSome]
    exact (h.endpoint hsome).1
  case kinds =>
    intro t ip hsome
    rw [(hp (.endpoint t ip)).isSome] at hsome
    exact (h.endpoint hsome).2

/-- Endpoints of one name are the same. -/
theorem same_iff_isSome {r r' : Option Registered} {c : Registered}
    (hr : ∀ x, r = some x → Same (some x) (some c)) (hr' : ∀ x, r' = some x → Same (some x) (some c)) :
    Same r r' ↔ r.isSome = r'.isSome := by
  refine ⟨Same.isSome, fun h => ?_⟩
  cases r with
  | none =>
    cases r' with
    | none => exact Same.refl none
    | some x => cases h
  | some x =>
    cases r' with
    | none => cases h
    | some y => exact (hr x rfl).trans (hr' y rfl).symm

/-- The commands of an update leave the proxy of a pod with exactly what the new state wants if
and only if the old state as the operator sees it is not mistaken about the proxy, and no target
is replaced that keeps a dynamic endpoint. -/
theorem converges_iff (sOld sNew : ClusterState) (hOld : sOld.WellNamed) (hNew : sNew.WellNamed)
    (held old new : Actions) (hheld : getActions sOld sOld = .ok held)
    (hold : getActions sNew sOld = .ok old) (hnew : getActions sNew sNew = .ok new)
    (l : List Command) (hl : update sNew sOld = .ok l) (pod : Fqn) (o : Value)
    (hpod : sNew.pods.lookup pod = some o) (hready : getL7mpInstance o = .ok ())
    (proxies : Fqn → Proxy) (hproxy : (proxies pod).Holds (wanted held pod)) :
    (runCommands sNew l proxies pod).Holds (wanted new pod) ↔
      Settles (wanted held pod) (wanted old pod) (wanted new pod) := by
  have hcommands : l = commands old new := by
    unfold update at hl
    rw [hold, hnew] at hl
    cases hl
    rfl
  have hsHeld := getActions_sound hOld hheld
  have hsOld := getActions_sound hOld hold
  have hsNew := getActions_sound hNew hnew
  have hmem := Dict.mem_of_lookup hpod
  have hresult := podCommands_result (hsOld.podFits pod) (hsNew.podFits pod) hready
    (hNew.pods _ hmem).1 (List.mem_map_of_mem hmem) hpod ⟨rfl, rfl⟩ (hsHeld.tidy hproxy)
  rw [← filter_commands hsOld.podFits hsNew.podFits, ← runCommands_pod, ← hcommands] at hresult
  generalize runCommands sNew l proxies pod = q at hresult
  subst hresult
  change (∀ n, Same _ _) ↔ _
  -- objects on their own
  have hobj : (∀ f, Same (after (wanted old pod (.obj f)) (wanted new pod (.obj f))
      (proxies pod (.obj f))) (wanted new pod (.obj f))) ↔
      (∀ f, Same (wanted old pod (.obj f)) (wanted new pod (.obj f)) →
        Same (wanted held pod (.obj f)) (wanted new pod (.obj f))) ∧
      ∀ f, wanted old pod (.obj f) = none → wanted held pod (.obj f) = none ∨
        Same (wanted held pod (.obj f)) (wanted new pod (.obj f)) := by
    rw [← forall_and]
    refine forall_congr' (fun f => ?_)
    have hsame := hproxy (.obj f)
    have hnone : proxies pod (.obj f) = none ↔ wanted held pod (.obj f) = none := by
      rw [← same_none, ← same_none]
      exact ⟨hsame.symm.trans, hsame.trans⟩
    have hto : Same (proxies pod (.obj f)) (wanted new pod (.obj f)) ↔
        Same (wanted held pod (.obj f)) (wanted new pod (.obj f)) :=
      ⟨hsame.symm.trans, hsame.trans⟩
    rw [same_after_iff, hnone, hto]
  -- endpoints, when the objects are right
  have hendpoint : (∀ f, Same (after (wanted old pod (.obj f)) (wanted new pod (.obj f))
      (proxies pod (.obj f))) (wanted new pod (.obj f))) → ∀ t ip,
      (Same (afterEndpoint (sNew.targets.map Prod.fst) t
          (after (wanted old pod (.obj t)) (wanted new pod (.obj t)) (proxies pod (.obj t)))
          (wanted old pod (.endpoint t ip)) (wanted new pod (.endpoint t ip))
          (if Dropped (wanted old pod) (wanted new pod) t then none
            else proxies pod (.endpoint t ip))) (wanted new pod (.endpoint t ip)) ↔
        ((wanted old pod (.endpoint t ip)).isSome = (wanted new pod (.endpoint t ip)).isSome →
          ((wanted held pod (.endpoint t ip)).isSome = true ∧
            ¬Dropped (wanted old pod) (wanted new pod) t ↔
              (wanted new pod (.endpoint t ip)).isSome = true))) := by
    intro hobjs t ip
    have hwant : ∀ {a : Actions} {s : ClusterState}, a.Sound s → ∀ x,
        wanted a pod (.endpoint t ip) = some x →
        Same (some x) (some ⟨some (.obj t), .dict [("address", .str ip)]⟩) := by
      intro a s ha x hx
      have heq := (ha.podFits pod).registers_endpoint t ip
      change wanted a pod (.endpoint t ip) = _ at heq
      rw [hx] at heq
      obtain ⟨act, -, rfl⟩ := Option.map_eq_some_iff.mp heq.symm
      exact Same.refl _
    have hleft : ∀ x, (if Dropped (wanted old pod) (wanted new pod) t then none
        else proxies pod (.endpoint t ip)) = some x →
        Same (some x) (some ⟨some (.obj t), .dict [("address", .str ip)]⟩) := by
      intro x hx
      split_ifs at hx
      exact (hsHeld.tidy hproxy).endpoints t ip x hx
    have hstays : (if Dropped (wanted old pod) (wanted new pod) t then none
        else proxies pod (.endpoint t ip)).isSome = true ↔
        (wanted held pod (.endpoint t ip)).isSome = true ∧
          ¬Dropped (wanted old pod) (wanted new pod) t := by
      rw [← (hproxy (.endpoint t ip)).isSome]
      split_ifs with hdrop
      · exact ⟨nofun, fun h => absurd hdrop h.2⟩
      · exact ⟨fun h => ⟨h, hdrop⟩, fun h => h.1⟩
    unfold afterEndpoint
    cases ho : wanted old pod (.endpoint t ip) with
    | none =>
      cases hn : wanted new pod (.endpoint t ip) with
      | none =>
        have hnone : ∀ x : Registered, none = some x →
            Same (some x) (some ⟨some (.obj t), .dict [("address", .str ip)]⟩) := nofun
        dsimp only
        rw [same_iff_isSome hleft hnone, ← hstays]
        simp
      | some b =>
        have hcluster : (after (wanted old pod (.obj t)) (wanted new pod (.obj t))
            (proxies pod (.obj t))).isSome = true := by
          rw [(hobjs t).isSome]
          exact (hsNew.endpoint (by rw [hn]; rfl)).1
        dsimp only
        rw [if_pos hcluster]
        refine iff_of_true ?_ nofun
        rw [same_iff_isSome (c := ⟨some (.obj t), .dict [("address", .str ip)]⟩)]
        · simp
        · intro x hx
          rcases Option.or_eq_some_iff.mp hx with hx | ⟨-, hx⟩
          · exact hleft x hx
          · exact hwant hsNew x (hn.trans hx)
        · exact fun x hx => hwant hsNew x (hn.trans hx)
    | some a =>
      cases hn : wanted new pod (.endpoint t ip) with
      | none =>
        dsimp only
        refine iff_of_true ?_ nofun
        rw [same_none]
        by_cases ht : t ∈ sNew.targets.map Prod.fst
        · exact if_pos ht
        · -- the target is gone, and its cluster was deleted
          rw [if_neg ht]
          have hold : (wanted old pod (.endpoint t ip)).isSome := by
            rw [ho]
            rfl
          obtain ⟨hcluster, hkind⟩ := hsOld.endpoint hold
          refine if_pos ⟨hcluster, ?_⟩
          intro hsame
          rw [hsame.isSome] at hcluster
          exact ht (hsNew.target hkind hcluster)
      | some b =>
        dsimp only
        rw [same_iff_isSome hleft (fun x hx => hwant hsNew x (hn.trans hx)), ← hstays]
        simp
  constructor
  · intro h
    have hobjs := fun f => h (.obj f)
    obtain ⟨hkept, hadded⟩ := hobj.mp hobjs
    exact ⟨hkept, hadded, fun t ip => (hendpoint hobjs t ip).mp (h (.endpoint t ip))⟩
  · rintro ⟨hkept, hadded, hendpoints⟩ n
    have hobjs := hobj.mpr ⟨hkept, hadded⟩
    cases n with
    | obj f => exact hobjs f
    | endpoint t ip => exact (hendpoint hobjs t ip).mpr (hendpoints t ip)

/-- When the operator is not mistaken, only a replaced target is in the way. -/
theorem settles_self_iff {old new : Proxy} : Settles old old new ↔
    ∀ t ip, (old (.endpoint t ip)).isSome → (new (.endpoint t ip)).isSome → ¬Dropped old new t := by
  constructor
  · intro h t ip ho hn
    exact ((h.endpoints t ip (ho.trans hn.symm)).mpr hn).2
  · intro h
    refine ⟨fun f hsame => hsame, fun f ho => Or.inl ho, ?_⟩
    intro t ip heq
    refine ⟨fun hstays => heq ▸ hstays.1, fun hn => ?_⟩
    have ho := heq.trans hn
    exact ⟨ho, h t ip ho hn⟩

/-- A pod with the label `app: x`, which the selector of the example matches. -/
def examplePod : Value :=
  .dict [("apiVersion", .str "v1"), ("kind", .str "Pod"),
    ("metadata", .dict [("namespace", .str "default"), ("name", .str "worker"),
      ("labels", .dict [("app", .str "x")])]),
    ("status", .dict [("podIP", .str "10.0.0.1")])]

/-- A target whose endpoints are the pods with the label `app: x`. -/
def exampleTarget (port : ℚ) : Value :=
  let selector : Value := .dict [("matchLabels", .dict [("app", .str "x")])]
  .dict [("apiVersion", .str "l7mp.io/v1"), ("kind", .str "Target"),
    ("metadata", .dict [("namespace", .str "default"), ("name", .str "t")]),
    ("spec", .dict [("selector", selector), ("cluster", .dict [
      ("spec", .dict [("protocol", .str "UDP"), ("port", .num port)]),
      ("endpoints", .list [.dict [("selector", selector)]])])])]

def podName : Fqn := ⟨"v1", "Pod", "default", "worker"⟩

def targetName : Fqn := ⟨"l7mp.io/v1", "Target", "default", "t"⟩

/-- A cluster with one pod, and the targets. -/
def exampleState (targets : List (Fqn × Value)) : ClusterState :=
  ⟨[(podName, examplePod)], [], [], targets, []⟩

/-- The actions of a state, if they can be told. -/
def actionsOf (g s : ClusterState) : Actions := (getActions g s).toOption.getD []

/-- A target is added. -/
theorem converges_iff_added : ∃ l,
    update (exampleState [(targetName, exampleTarget 1)]) (exampleState []) = .ok l ∧
      l.length = 2 ∧
      (runCommands (exampleState [(targetName, exampleTarget 1)]) l (fun _ _ => none) podName).Holds
        (wanted (actionsOf (exampleState [(targetName, exampleTarget 1)])
          (exampleState [(targetName, exampleTarget 1)])) podName) := by
  let sNew := exampleState [(targetName, exampleTarget 1)]
  let l := commands [] (actionsOf sNew sNew)
  have hl : update sNew (exampleState []) = .ok l := by decide +kernel
  refine ⟨l, hl, by decide +kernel, ?_⟩
  refine (converges_iff (exampleState []) sNew ?_ ?_ [] [] (actionsOf sNew sNew) ?_ ?_ ?_ l hl
    podName examplePod ?_ ?_ (fun _ _ => none) ?_).mpr ?_
  · constructor <;> (unfold Named; decide +kernel)
  · constructor <;> (unfold Named; decide +kernel)
  · decide +kernel
  · decide +kernel
  · decide +kernel
  · decide +kernel
  · decide +kernel
  · exact fun n => Same.refl _
  · exact settles_self_iff.mpr (fun t ip ho => by cases ho)

/-- A target that changes loses its dynamic endpoints. -/
theorem changed_target_loses_endpoint : ¬∀ (sOld sNew : ClusterState), sOld.WellNamed →
    sNew.WellNamed → ∀ held new, getActions sOld sOld = .ok held →
    getActions sNew sNew = .ok new → ∀ l, update sNew sOld = .ok l → ∀ pod o,
    sNew.pods.lookup pod = some o → getL7mpInstance o = .ok () → ∀ proxies : Fqn → Proxy,
    (proxies pod).Holds (wanted held pod) →
    (runCommands sNew l proxies pod).Holds (wanted new pod) := by
  intro h
  let sOld := exampleState [(targetName, exampleTarget 1)]
  let sNew := exampleState [(targetName, exampleTarget 2)]
  have hsame := h sOld sNew (by constructor <;> (unfold Named; decide +kernel))
    (by constructor <;> (unfold Named; decide +kernel)) (actionsOf sOld sOld)
    (actionsOf sNew sNew) (by decide +kernel) (by decide +kernel)
    (commands (actionsOf sNew sOld) (actionsOf sNew sNew)) (by decide +kernel) podName examplePod
    (by decide +kernel) (by decide +kernel) (fun _ => wanted (actionsOf sOld sOld) podName)
    (fun n => Same.refl _) (.endpoint targetName "10.0.0.1")
  exact absurd hsame (by decide +kernel)

end L7mp.Operator
