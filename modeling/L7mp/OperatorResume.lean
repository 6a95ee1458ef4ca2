import L7mp.OperatorSteady
import Mathlib.Data.List.Find

/-! The restart of the operator: all objects of the cluster are created anew in its empty state,
while the proxies keep what they have. -/
namespace L7mp.Operator
open Python Aborting GuardedRun

/-! ### Updates that only add what is there -/

/-- Commands that add nothing but what the proxy has, and delete nothing, change nothing. -/
theorem outcome_unchanged {p old new want : Proxy} {targets : List Fqn} (hp : p.Holds want)
    (hadds : ∀ f, old (.obj f) = none ∨ old (.obj f) = new (.obj f))
    (hkeeps : ∀ t ip, (old (.endpoint t ip)).isSome → (new (.endpoint t ip)).isSome)
    (hwant : ∀ n, (new n).isSome → (want n).isSome) : outcome targets old new p = p := by
  have hhas : ∀ n, (new n).isSome → (p n).isSome := by
    intro n hn
    rw [(hp n).isSome]
    exact hwant n hn
  funext n
  cases n with
  | obj f =>
    change after _ _ _ = _
    unfold after
    split_ifs with hsame hsome
    · rfl
    · rcases hadds f with hnone | heq
      · rw [hnone] at hsome
        cases hsome
      · exact absurd (heq ▸ Same.refl _) hsame
    · cases hr : p (.obj f) with
      | some r => rfl
      | none =>
        rw [Option.none_or, ← Option.not_isSome_iff_eq_none]
        intro hn
        have hsome := hhas _ hn
        rw [hr] at hsome
        cases hsome
  | endpoint t ip =>
    have hdropped : ¬Dropped old new t := by
      rintro ⟨hsome, hsame⟩
      rcases hadds t with hnone | heq
      · rw [hnone] at hsome
        cases hsome
      · exact hsame (heq ▸ Same.refl _)
    change afterEndpoint _ _ _ _ _ _ = _
    rw [if_neg hdropped]
    cases ho : old (.endpoint t ip) with
    | none =>
      cases hn : new (.endpoint t ip) with
      | none => exact rfl
      | some b =>
        obtain ⟨r, hr⟩ := Option.isSome_iff_exists.mp (hhas (.endpoint t ip) (by rw [hn]; rfl))
        unfold afterEndpoint
        dsimp only
        rw [hr]
        split_ifs
        · rfl
        · rfl
    | some a =>
      obtain ⟨b, hb⟩ := Option.isSome_iff_exists.mp (hkeeps t ip (by rw [ho]; rfl))
      rw [hb]
      exact rfl

/-! ### A part of a state -/

/-- All objects of `s` are objects of `s'`. -/
structure ClusterState.Sub (s s' : ClusterState) : Prop where
  tables : ∀ r, ∀ e ∈ s.table r, e ∈ s'.table r
  endpoints : s.endpoints = s'.endpoints

/-- A link may mean an object, by the full or the short name. -/
def Means (vsvcName : Value) (e : Fqn × Value) : Prop :=
  vsvcName = .str e.1.render ∨ (Value.str e.1.name).Eqv vsvcName

/-- No link of a target may mean two objects. -/
def ClusterState.Unambiguous (s : ClusterState) : Prop :=
  ∀ e ∈ s.targets, ∀ spec vsvcName, e.2.item "spec" = .ok spec →
    spec.item "linkedVirtualService" = .ok vsvcName →
    ∀ v ∈ s.virtualservices, ∀ v' ∈ s.virtualservices,
      Means vsvcName v → Means vsvcName v' → v = v'

variable {g s s' full : ClusterState} {pod target : Value} {f : Fqn}

/-- A search whose tests do not raise. -/
theorem findM?_eq_find? {α : Type} {l : List α} {p : α → Except Exc Bool} {q : α → Bool}
    (h : ∀ a ∈ l, p a = .ok (q a)) : l.findM? p = .ok (l.find? q) := by
  induction l with
  | nil => rfl
  | cons a l ih =>
    rw [List.findM?, h a List.mem_cons_self, List.find?_cons]
    cases hq : q a with
    | true => rfl
    | false => exact ih (fun a ha => h a (List.mem_cons_of_mem _ ha))

theorem truthy_of_getFqn {v : Value} (h : getFqn v = .ok f) : v.truthy = true :=
  (sameView_of_getFqn h).truthy.1

/-- The object that a link leads to. -/
def meant (s : ClusterState) (vsvcName : Value) : Option (Fqn × Value) :=
  (s.virtualservices.find? (fun e => vsvcName = .str e.1.render)).or
    (s.virtualservices.find? (fun e => (Value.str e.1.name).Eqv vsvcName))

theorem means_of_meant {vsvcName : Value} {e : Fqn × Value} (h : meant s vsvcName = some e) :
    e ∈ s.virtualservices ∧ Means vsvcName e := by
  rcases Option.or_eq_some_iff.mp h with h | ⟨-, h⟩
  · have hp := List.find?_some h
    exact ⟨List.mem_of_find?_eq_some h, Or.inl (of_decide_eq_true hp)⟩
  · have hp := List.find?_some h
    exact ⟨List.mem_of_find?_eq_some h, Or.inr (of_decide_eq_true hp)⟩

theorem meant_ne_none {vsvcName : Value} {e : Fqn × Value} (he : e ∈ s.virtualservices)
    (h : Means vsvcName e) : meant s vsvcName ≠ none := by
  intro hnone
  obtain ⟨hfirst, hsecond⟩ := Option.or_eq_none_iff.mp hnone
  rw [List.find?_eq_none] at hfirst hsecond
  rcases h with h | h
  · exact hfirst e he (decide_eq_true h)
  · exact hsecond e he (decide_eq_true h)

/-- The search for a `VirtualService`, in a state whose objects are well named. -/
theorem linkedVirtualService_eq (hs : Named "VirtualService" s.virtualservices)
    (vsvcName : Value) : linkedVirtualService s vsvcName = match vsvcName with
      | .list _ | .dict _ => .error .typeError
      | _ => .ok ((meant s vsvcName).map Prod.snd) := by
  have hfirst : s.virtualservices.find? (fun e => vsvcName = .str e.1.render ∧ e.2.truthy) =
      s.virtualservices.find? (fun e => vsvcName = .str e.1.render) := by
    refine List.find?_congr ?_
    intro e he
    have htruthy := truthy_of_getFqn (hs e he).1
    simp [htruthy]
  have hsecond : s.virtualservices.findM? (fun e => do
      return decide ((← (← e.2.item "metadata").item "name").Eqv vsvcName)) =
      (.ok (s.virtualservices.find? (fun e => (Value.str e.1.name).Eqv vsvcName)) :
        Except Exc _) := by
    refine findM?_eq_find? ?_
    intro e he
    have hfqn := (hs e he).1
    unfold getFqn at hfqn
    obtain ⟨_, -, hfqn⟩ := bind_eq_ok hfqn
    obtain ⟨_, -, hfqn⟩ := bind_eq_ok hfqn
    obtain ⟨metadata, hmetadata, hfqn⟩ := bind_eq_ok hfqn
    obtain ⟨_, -, hfqn⟩ := bind_eq_ok hfqn
    obtain ⟨name, hname, hfqn⟩ := bind_eq_ok hfqn
    obtain ⟨_, -, hfqn⟩ := bind_eq_ok hfqn
    obtain ⟨_, -, hfqn⟩ := bind_eq_ok hfqn
    obtain ⟨_, -, hfqn⟩ := bind_eq_ok hfqn
    obtain ⟨part, hpart, hfqn⟩ := bind_eq_ok hfqn
    have hstr : name = .str part := by
      cases name with
      | str t =>
        cases hpart
        rfl
      | _ => cases hpart
    have hpartName : e.1.name = part := (congrArg Fqn.name (Except.ok.inj hfqn)).symm
    rw [hmetadata]
    dsimp only [bind, Except.bind]
    rw [hname, hstr, hpartName]
    rfl
  unfold linkedVirtualService
  cases vsvcName with
  | list _ => rfl
  | dict _ => rfl
  | _ =>
    dsimp only
    rw [hfirst]
    unfold meant
    cases s.virtualservices.find? (fun e => decide (_ = Value.str e.1.render)) with
    | some e => rfl
    | none =>
      dsimp only
      rw [hsecond]
      rfl

/-- In a part of the state a link leads to the same object, or nowhere. -/
theorem linkedVirtualService_sub (hsub : s.Sub full)
    (hfull : Named "VirtualService" full.virtualservices) {vsvcName : Value}
    (hone : ∀ v ∈ full.virtualservices, ∀ v' ∈ full.virtualservices,
      Means vsvcName v → Means vsvcName v' → v = v') :
    linkedVirtualService s vsvcName = linkedVirtualService full vsvcName ∨
      linkedVirtualService s vsvcName = .ok none := by
  have hs : Named "VirtualService" s.virtualservices :=
    fun e he => hfull e (hsub.tables .virtualservices e he)
  have hmeant : meant s vsvcName = meant full vsvcName ∨ meant s vsvcName = none := by
    cases hfound : meant s vsvcName with
    | none => exact Or.inr rfl
    | some e =>
      left
      obtain ⟨he, hmeans⟩ := means_of_meant hfound
      have hin := hsub.tables .virtualservices e he
      obtain ⟨e', he'⟩ := Option.ne_none_iff_exists'.mp (meant_ne_none hin hmeans)
      obtain ⟨hin', hmeans'⟩ := means_of_meant he'
      rw [he', hone e hin e' hin' hmeans hmeans']
  rw [linkedVirtualService_eq hs, linkedVirtualService_eq hfull]
  cases vsvcName with
  | list _ => exact Or.inl rfl
  | dict _ => exact Or.inl rfl
  | _ =>
    dsimp only
    rcases hmeant with h | h
    · exact Or.inl (by rw [h])
    · exact Or.inr (by rw [h]; rfl)

theorem getTargetExtendedSpec_sub (hsub : s.Sub full)
    (hfull : Named "VirtualService" full.virtualservices) (hone : full.Unambiguous)
    (htarget : (f, target) ∈ full.targets) :
    getTargetExtendedSpec s target = getTargetExtendedSpec full target ∨
      getTargetExtendedSpec s target = .ok (.dict []) ∨
      ∃ e, getTargetExtendedSpec s target = .error e := by
  cases hspec : target.item "spec" with
  | error e =>
    refine Or.inr (Or.inr ⟨e, ?_⟩)
    unfold getTargetExtendedSpec
    rw [hspec]
    rfl
  | ok spec =>
    cases hlink : spec.item "linkedVirtualService" with
    | error e =>
      left
      unfold getTargetExtendedSpec
      rw [hspec]
      dsimp only [bind, Except.bind]
      rw [hlink]
      cases e <;> rfl
    | ok vsvcName =>
      unfold getTargetExtendedSpec
      rw [hspec]
      dsimp only [bind, Except.bind]
      rw [hlink]
      dsimp only
      rcases linkedVirtualService_sub hsub hfull (hone _ htarget spec vsvcName hspec hlink) with
        hsame | hnone
      · left
        rw [hsame]
      · right
        rw [hnone]
        cases spec.delItem "linkedVirtualService" with
        | error e => exact Or.inr ⟨e, rfl⟩
        | ok spec => exact Or.inl rfl

/-! ### The endpoints of more pods -/

theorem mem_keys_set {κ α : Type} [BEq κ] [LawfulBEq κ] {k k' : κ} {a : α} {d : List (κ × α)} :
    k' ∈ (Dict.set k a d).map Prod.fst ↔ k' = k ∨ k' ∈ d.map Prod.fst := by
  by_cases hk : k' = k
  · subst hk
    refine iff_of_true ?_ (Or.inl rfl)
    exact List.mem_map_of_mem (Dict.mem_of_lookup (Dict.lookup_set_self k' a d))
  · have hlookup := Dict.lookup_set_ne hk a d
    rw [← not_iff_not, not_or, ← Dict.lookup_eq_none, ← Dict.lookup_eq_none, hlookup]
    exact ⟨fun h => ⟨hk, h⟩, fun h => h.2⟩

/-- A pod that the selector matches gives a target the endpoint. -/
def Gives (g : ClusterState) (target selector pod : Value) (n : ActionName) : Prop :=
  doesSelectorMatch g selector pod = .ok true ∧ ∃ podIp fqn ip,
    (pod.item "status" >>= fun v => v.get "podIP" .none) = .ok podIp ∧ podIp.truthy = true ∧
      getFqn target = .ok fqn ∧ namePart podIp = .ok ip ∧ n = .endpoint fqn ip

theorem mem_addDynamicEndpoints {target selector : Value} {eps r : List (ActionName × Value)}
    (h : addDynamicEndpoints g s target selector eps = .ok r) (n : ActionName) :
    n ∈ r.map Prod.fst ↔
      n ∈ eps.map Prod.fst ∨ ∃ e ∈ s.pods, Gives g target selector e.2 n := by
  unfold addDynamicEndpoints at h
  generalize s.pods = pods at h ⊢
  induction pods generalizing eps with
  | nil =>
    cases h
    simp
  | cons e pods ih =>
    rw [List.foldlM_cons] at h
    obtain ⟨eps', hturn, h⟩ := bind_eq_ok h
    -- what the turn of the first pod adds
    have hfirst : n ∈ eps'.map Prod.fst ↔
        n ∈ eps.map Prod.fst ∨ Gives g target selector e.2 n := by
      obtain ⟨matched, hmatched, hturn⟩ := bind_eq_ok hturn
      by_cases hyes : matched = true
      · subst hyes
        rw [if_pos rfl] at hturn
        obtain ⟨status, hstatus, hturn⟩ := bind_eq_ok hturn
        obtain ⟨podIp, hpodIp, hturn⟩ := bind_eq_ok hturn
        have haddress : (e.2.item "status" >>= fun v => v.get "podIP" .none) = .ok podIp := by
          rw [hstatus]
          exact hpodIp
        by_cases htruthy : podIp.truthy = true
        · rw [if_pos htruthy] at hturn
          obtain ⟨fqn, hfqn, hturn⟩ := bind_eq_ok hturn
          obtain ⟨ip, hip, hturn⟩ := bind_eq_ok hturn
          cases hturn
          rw [mem_keys_set, or_comm]
          refine or_congr_right ⟨fun hn => ?_, fun hgives => ?_⟩
          · exact ⟨hmatched, podIp, fqn, ip, haddress, htruthy, hfqn, hip, hn⟩
          · obtain ⟨-, podIp', fqn', ip', haddress', -, hfqn', hip', hn⟩ := hgives
            cases haddress.symm.trans haddress'
            cases hfqn.symm.trans hfqn'
            cases hip.symm.trans hip'
            exact hn
        · rw [if_neg htruthy] at hturn
          cases hturn
          refine ⟨Or.inl, fun hor => hor.resolve_right ?_⟩
          rintro ⟨-, podIp', _, _, haddress', htruthy', -⟩
          cases haddress.symm.trans haddress'
          exact htruthy htruthy'
      · rw [if_neg hyes] at hturn
        cases hturn
        refine ⟨Or.inl, fun hor => hor.resolve_right ?_⟩
        rintro ⟨hmatched', -⟩
        exact hyes (Except.ok.inj (hmatched.symm.trans hmatched'))
    rw [ih h, hfirst, or_assoc]
    refine or_congr_right ⟨fun hor => ?_, fun hex => ?_⟩
    · rcases hor with hgives | ⟨e', he', hgives⟩
      · exact ⟨e, List.mem_cons_self, hgives⟩
      · exact ⟨e', List.mem_cons_of_mem _ he', hgives⟩
    · obtain ⟨e', he', hgives⟩ := hex
      rcases List.mem_cons.mp he' with rfl | he'
      · exact Or.inl hgives
      · exact Or.inr ⟨e', he', hgives⟩

/-- Endpoints under fewer names. -/
def Fewer (eps eps' : List (ActionName × Value)) : Prop :=
  ∀ n ∈ eps.map Prod.fst, n ∈ eps'.map Prod.fst

theorem addDynamicEndpoints_sub (hsub : s.Sub s') {selector : Value}
    {eps eps' q q' : List (ActionName × Value)} (heps : Fewer eps eps')
    (h : addDynamicEndpoints g s target selector eps = .ok q)
    (h' : addDynamicEndpoints g s' target selector eps' = .ok q') : Fewer q q' := by
  intro n hn
  rw [mem_addDynamicEndpoints h] at hn
  rw [mem_addDynamicEndpoints h']
  rcases hn with hn | ⟨e, he, hgives⟩
  · exact Or.inl (heps n hn)
  · exact Or.inr ⟨e, hsub.tables .pods e he, hgives⟩

/-- An object adds in a part of the state what it adds in the state, or nothing of its own. -/
structure OwnSub (q q' : List (ActionName × Action)) (f : Fqn) : Prop where
  object : registered q (.obj f) = none ∨ registered q (.obj f) = registered q' (.obj f)
  endpoints : ∀ ip, (registered q (.endpoint f ip)).isSome →
    (registered q' (.endpoint f ip)).isSome

/-- The dynamic endpoints of a target are registered. -/
theorem isSome_registered_endpoint {x : ActionName × Action} (hx : x.1 = .obj f)
    (eps : List (ActionName × Value)) (ip : String) :
    (registered (x :: eps.map (fun d => (d.1, ⟨.dynamicEndpoint, d.1, d.2, some f⟩)))
      (.endpoint f ip)).isSome ↔ ActionName.endpoint f ip ∈ eps.map Prod.fst := by
  let act : ActionName × Value → ActionName × Action :=
    fun d => (d.1, ⟨.dynamicEndpoint, d.1, d.2, some f⟩)
  have hkeys : ActionName.endpoint f ip ∈ (x :: eps.map act).map Prod.fst ↔
      ActionName.endpoint f ip ∈ eps.map Prod.fst := by
    rw [List.map_cons, List.mem_cons, hx, List.map_map]
    exact or_iff_right (fun heq => by cases heq)
  rw [← hkeys]
  cases hlookup : (Dict.assign (x :: eps.map act)).lookup (ActionName.endpoint f ip) with
  | none =>
    refine iff_of_false ?_ (Dict.lookup_assign_eq_none.mp hlookup)
    unfold registered registers
    dsimp only
    rw [hlookup]
    exact fun hsome => by cases hsome
  | some a =>
    have hmem := Dict.mem_of_lookup_assign hlookup
    refine iff_of_true ?_ (List.mem_map_of_mem (f := Prod.fst) hmem)
    have htype : a.type = .dynamicEndpoint := by
      rcases List.mem_cons.mp hmem with heq | hmem
      · rw [← heq] at hx
        cases hx
      · obtain ⟨d, -, hd⟩ := List.mem_map.mp hmem
        have ha : (act d).2 = a := congrArg Prod.snd hd
        rw [← ha]
    unfold registered registers
    dsimp only
    rw [hlookup]
    simp [htype]

theorem TargetPair.own {q q' : List (ActionName × Action)} (h : TargetPair f Fewer q q') :
    OwnSub q q' f := by
  rcases h with ⟨rfl, rfl⟩ | ⟨x, eps, eps', hx, heps, heps', hfewer, rfl, rfl⟩
  · exact ⟨Or.inl rfl, fun ip hsome => hsome⟩
  · constructor
    case object =>
      right
      apply registered_congr
      rw [lookup_assign_endpoints heps, lookup_assign_endpoints heps']
    case endpoints =>
      intro ip hsome
      rw [isSome_registered_endpoint hx] at hsome ⊢
      exact hfewer _ hsome

/-- What an object adds in a part of the state. -/
theorem ownActions_sub (hsub : s.Sub s') (hs' : s'.WellNamed) (hkeyed' : s'.Keyed)
    (hlinks : ∀ t, s'.targets.lookup f = some t →
      getTargetExtendedSpec s t = getTargetExtendedSpec s' t ∨
        getTargetExtendedSpec s t = .ok (.dict []) ∨ ∃ e, getTargetExtendedSpec s t = .error e)
    {q q' : List (ActionName × Action)} (h : ownActions g s pod f = .ok q)
    (h' : ownActions g s' pod f = .ok q') : OwnSub q q' f := by
  have hs : s.WellNamed := wellNamed_iff.mpr
    (fun r e he => wellNamed_iff.mp hs' r e (hsub.tables r e he))
  have hlisted : ∀ r v, (s.table r).lookup f = some v → (s'.table r).lookup f = some v := by
    intro r v hv
    exact Dict.lookup_of_mem (hkeyed' r) (hsub.tables r _ (Dict.mem_of_lookup hv))
  cases ht : s.targets.lookup f with
  | some t =>
    have ht' : s'.targets.lookup f = some t := hlisted .targets t ht
    have hact := ownActions_target hs ht h
    have hact' := ownActions_target hs' ht' h'
    rcases hlinks t ht' with hext | hext | ⟨e, herror⟩
    · have hfqn := (hs.targets _ (Dict.mem_of_lookup ht)).1
      refine TargetPair.own (targetActions_both (fun n hn => hn) ?_ hext hfqn hact hact')
      exact fun _ _ _ _ _ _ => addDynamicEndpoints_sub hsub
    · rw [targetActions_unlinked hext] at hact
      cases hact
      exact ⟨Or.inl rfl, fun ip hsome => (by cases hsome)⟩
    · unfold targetActions at hact
      rw [herror] at hact
      cases hact
  | none =>
    have hendpoints : ∀ ip, registered q (.endpoint f ip) = none := by
      intro ip
      refine registered_endpoint_none hs h ?_ ip
      intro t hsome
      rw [ht] at hsome
      cases hsome
    refine ⟨?_, fun ip hsome => ?_⟩
    · cases hv : s.virtualservices.lookup f with
      | some v =>
        right
        have hact := ownActions_vsvc hs hv h
        have hact' := ownActions_vsvc hs' (hlisted .virtualservices v hv) h'
        rw [Except.ok.inj (hact.symm.trans hact')]
      | none => exact Or.inl (registered_rules (ownActions_rule hs hv ht h) _)
    · rw [hendpoints ip] at hsome
      cases hsome

/-! ### Resuming -/

theorem ClusterState.Sub.wellNamed (h : s.Sub full) (hfull : full.WellNamed) : s.WellNamed :=
  wellNamed_iff.mpr (fun r e he => wellNamed_iff.mp hfull r e (h.tables r e he))

theorem ClusterState.Sub.unambiguous (h : s.Sub full) (hfull : full.Unambiguous) :
    s.Unambiguous := by
  intro e he spec vsvcName hspec hlink v hv v' hv'
  exact hfull e (h.tables .targets e he) spec vsvcName hspec hlink v
    (h.tables .virtualservices v hv) v' (h.tables .virtualservices v' hv')

/-- What is wanted in a part of the state is wanted in the state. -/
theorem wanted_sub (hsub : s.Sub full) (hfull : full.WellNamed) (hkeyed : s.Keyed)
    (hfullKeyed : full.Keyed) (hone : full.Unambiguous) {a a' : Actions}
    (h : getActions g s = .ok a) (h' : getActions g full = .ok a') {p : Fqn} {o : Value}
    (hpod : s.pods.lookup p = some o) (f : Fqn) :
    (wanted a p (.obj f) = none ∨ wanted a p (.obj f) = wanted a' p (.obj f)) ∧
      ∀ ip, (wanted a p (.endpoint f ip)).isSome → (wanted a' p (.endpoint f ip)).isSome := by
  have hpod' : full.pods.lookup p = some o :=
    Dict.lookup_of_mem (hfullKeyed .pods) (hsub.tables .pods _ (Dict.mem_of_lookup hpod))
  obtain ⟨q, hq, hown⟩ := wanted_own (hsub.wellNamed hfull) hkeyed h hpod f
  obtain ⟨q', hq', hown'⟩ := wanted_own hfull hfullKeyed h' hpod' f
  have hlinks : ∀ t, full.targets.lookup f = some t → _ := fun t ht =>
    getTargetExtendedSpec_sub hsub hfull.virtualservices hone (Dict.mem_of_lookup ht)
  have hsame := ownActions_sub hsub hfull hfullKeyed hlinks hq hq'
  rw [hown (.obj f) rfl, hown' (.obj f) rfl]
  refine ⟨hsame.object, fun ip => ?_⟩
  rw [hown (.endpoint f ip) rfl, hown' (.endpoint f ip) rfl]
  exact hsame.endpoints ip

theorem runCommands_unlisted {l : List Command} {p : Fqn} (h : s.pods.lookup p = none)
    (proxies : Fqn → Proxy) : runCommands s l proxies p = proxies p := by
  rw [runCommands_pod]
  generalize hfilter : l.filter (fun c => c.pod = p) = cs
  have hpods : ∀ c ∈ cs, c.pod = p := by
    intro c hc
    rw [← hfilter] at hc
    exact of_decide_eq_true (List.mem_filter.mp hc).2
  generalize proxies p = q
  clear hfilter
  induction cs generalizing q with
  | nil => rfl
  | cons c cs ih =>
    have hskip : (call s c q).2 = q := by
      unfold call
      rw [hpods c List.mem_cons_self, h]
    rw [List.foldl_cons, hskip]
    exact ih (fun c hc => hpods c (List.mem_cons_of_mem _ hc)) q

namespace World

/-- The operator is told of an object that the cluster has, and its handler does not raise. -/
def Resumes (full : ClusterState) (w : World) (e : OperatorEvent) : Prop :=
  ∃ r, r ≠ Resource.endpoints ∧ ∃ o ∈ full.table r, e = .create r o.2 ∧
    ∃ l, (handle w.state e).1 = .ok l

/-- The operator knows a part of the cluster, and the proxies are as they were. -/
structure Resuming (full : ClusterState) (proxies : Fqn → Proxy) (w : World) : Prop where
  known : w.state.Sub full
  keyed : w.state.Keyed
  ready : ∀ e ∈ w.state.pods, getL7mpInstance e.2 = .ok ()
  untouched : w.proxies = proxies

theorem Resuming.step {proxies : Fqn → Proxy} {w w' : World} {e : OperatorEvent} {a : Actions}
    (h : w.Resuming full proxies) (hfull : full.WellNamed) (hkeyed : full.Keyed)
    (hone : full.Unambiguous) (ha : getActions full full = .ok a)
    (hproxies : ∀ p ∈ full.pods.map Prod.fst, (proxies p).Holds (wanted a p))
    (hresumes : w.Resumes full e) (hstep : w.step e = some w') : w'.Resuming full proxies := by
  obtain ⟨r, hr, o, ho, rfl, l, hl⟩ := hresumes
  have hfqn : getFqn o.2 = .ok o.1 := (wellNamed_iff.mp hfull r o ho).1
  obtain ⟨n, hn, -, -, hhandles⟩ := createFn_handles hl
  have hnotice : n = ⟨r, o.1, none, some o.2⟩ := by
    unfold createNotice at hn
    rw [hfqn] at hn
    exact (Option.some.inj hn).symm
  subst hnotice
  let sOld := w.state.put r o.1 none
  let sNew := w.state.put r o.1 (some o.2)
  have hendpoints : ∀ v, (w.state.put r o.1 v).endpoints = full.endpoints := by
    intro v
    have htable := table_put w.state r .endpoints o.1 v
    rw [if_neg (Ne.symm hr)] at htable
    exact Eq.trans htable h.known.endpoints
  have hNew : sNew.Sub full := by
    refine ⟨?_, hendpoints _⟩
    intro r' x hx
    rw [table_put] at hx
    split_ifs at hx with heq
    · subst heq
      rcases mem_putTable hx with hx | ⟨hkey, hvalue⟩
      · exact h.known.tables _ x hx
      · have hsame : x = o := Prod.ext hkey (Option.some.inj hvalue).symm
        rw [hsame]
        exact ho
    · exact h.known.tables r' x hx
  have hOld : sOld.Sub sNew := by
    refine ⟨?_, (hendpoints _).trans (hendpoints _).symm⟩
    intro r' x hx
    rw [table_put] at hx ⊢
    split_ifs at hx ⊢ with heq
    · obtain ⟨hx, hne⟩ := List.mem_filter.mp hx
      have hne : x.1 ≠ o.1 := by simpa using hne
      have hlookup := Dict.lookup_set_ne hne o.2 (w.state.table r)
      rw [Dict.lookup_of_mem (h.keyed r) hx] at hlookup
      exact Dict.mem_of_lookup hlookup
    · exact hx
  have kOld : sOld.Keyed := h.keyed.put _ _ _
  have kNew : sNew.Keyed := h.keyed.put _ _ _
  have hready : ∀ x ∈ sNew.pods, getL7mpInstance x.2 = .ok () := by
    intro x hx
    change x ∈ sNew.table .pods at hx
    rw [table_put] at hx
    split_ifs at hx with heq
    · rcases mem_putTable hx with hx | ⟨-, hvalue⟩
      · rw [← heq] at hx
        exact h.ready x hx
      · exact hhandles.ready heq.symm x.2 hvalue
    · exact h.ready x hx
  have hsame : ∀ x, getActions sNew x = getActions full x := by
    intro x
    refine getActions_congr ?_ x
    intro selector pod
    unfold doesSelectorMatch selectorFn matchService
    rw [hendpoints]
  obtain ⟨old, hold, hrest⟩ := bind_eq_ok hhandles.commands
  obtain ⟨new, hnew, -⟩ := bind_eq_ok hrest
  have holdFull : getActions full sOld = .ok old := (hsame sOld).symm.trans hold
  have hnewFull : getActions full sNew = .ok new := (hsame sNew).symm.trans hnew
  have huntouched : ∀ p, runCommands sNew l w.proxies p = proxies p := by
    intro p
    rw [h.untouched]
    cases hpod : sNew.pods.lookup p with
    | none => exact runCommands_unlisted hpod proxies
    | some v =>
      have hmem := Dict.mem_of_lookup hpod
      have hlisted : p ∈ full.pods.map Prod.fst :=
        List.mem_map.mpr ⟨_, hNew.tables .pods _ hmem, rfl⟩
      have hholds := hproxies p hlisted
      have hwant := wanted_sub hNew hfull kNew hkeyed hone hnewFull ha hpod
      rw [runCommands_outcome (hOld.wellNamed (hNew.wellNamed hfull)) (hNew.wellNamed hfull) hold
        hnew hhandles.commands hpod (hready _ hmem) ((getActions_sound hfull ha).tidy hholds)]
      -- the old state has a part of the actions of the new one
      have hadds : ∀ f, (wanted old p (.obj f) = none ∨
          wanted old p (.obj f) = wanted new p (.obj f)) ∧
          ∀ ip, (wanted old p (.endpoint f ip)).isSome →
            (wanted new p (.endpoint f ip)).isSome := by
        intro f
        cases hpodOld : sOld.pods.lookup p with
        | some v' =>
          exact wanted_sub hOld (hNew.wellNamed hfull) kOld kNew (hNew.unambiguous hone) hold
            hnew hpodOld f
        | none =>
          have hnone : ∀ n, wanted old p n = none := by
            intro n
            unfold wanted
            rw [getActions_unlisted (hOld.wellNamed (hNew.wellNamed hfull)) hold
              (Dict.lookup_eq_none.mp hpodOld)]
            rfl
          refine ⟨Or.inl (hnone _), fun ip hsome => ?_⟩
          rw [hnone] at hsome
          cases hsome
      refine outcome_unchanged hholds (fun f => (hadds f).1) (fun t ip => (hadds t).2 ip) ?_
      intro n hsome
      cases n with
      | obj f =>
        rcases (hwant f).1 with hnone | heq
        · rw [hnone] at hsome
          cases hsome
        · rw [← heq]
          exact hsome
      | endpoint t ip => exact (hwant t).2 ip hsome
  have hresult : w'.state = sNew ∧ w'.proxies = runCommands sNew l w.proxies := by
    change some (w.apply _ (createFn w.state r o.2)) = some w' at hstep
    rw [hhandles.result] at hstep
    cases hstep
    exact ⟨rfl, rfl⟩
  refine ⟨?_, ?_, ?_, ?_⟩
  · rw [hresult.1]
    exact hNew
  · rw [hresult.1]
    exact kNew
  · rw [hresult.1]
    exact hready
  · rw [hresult.2]
    funext p
    exact huntouched p

/-- After its restart the operator is told of the objects of the cluster, in any order and any
number of times: as long as each proxy has what the whole cluster wants, nothing is done to it. -/
theorem resume_untouched (full : ClusterState) (hfull : full.WellNamed) (hkeyed : full.Keyed)
    (hone : full.Unambiguous) (a : Actions) (ha : getActions full full = .ok a)
    (proxies : Fqn → Proxy)
    (hproxies : ∀ p ∈ full.pods.map Prod.fst, (proxies p).Holds (wanted a p)) (w : World)
    (hrun : Run step (Resumes full) (start ⟨[], full.endpoints, [], [], []⟩ proxies) w) :
    w.proxies = proxies := by
  have hstart : (start ⟨[], full.endpoints, [], [], []⟩ proxies).Resuming full proxies := by
    refine ⟨⟨?_, rfl⟩, ?_, ?_, rfl⟩
    · intro r e he
      cases r with
      | endpoints => exact he
      | _ => cases he
    · intro r
      cases r with
      | endpoints => exact hkeyed .endpoints
      | _ => exact List.nodup_nil
    · exact fun e he => by cases he
  have hinvariant := hrun.invariant (P := fun w => w.Resuming full proxies)
    (fun w e w' h hok hstep => h.step hfull hkeyed hone ha hproxies hok hstep) hstart
  exact hinvariant.untouched

/-- A pod and a target of it are resumed, the pod first. -/
theorem resume_untouched_example : ∃ w,
    let full := exampleState [(targetName, exampleTarget 1)]
    let proxies : Fqn → Proxy := fun _ => wanted (actionsOf full full) podName
    Run step (Resumes full) (start ⟨[], [], [], [], []⟩ proxies) w ∧ w.state = full ∧
      w.proxies = proxies ∧ (w.proxies podName (.obj targetName)).isSome := by
  let full := exampleState [(targetName, exampleTarget 1)]
  let a := actionsOf full full
  let proxies : Fqn → Proxy := fun _ => wanted a podName
  let w₀ := start ⟨[], [], [], [], []⟩ proxies
  let w₁ := w₀.apply (some podName) (handle w₀.state (.create .pods examplePod))
  let w₂ := w₁.apply none (handle w₁.state (.create .targets (exampleTarget 1)))
  have hpod : Step step (Resumes full) w₀ w₁ :=
    ⟨.create .pods examplePod, ⟨.pods, by decide, (podName, examplePod), List.mem_singleton.mpr rfl,
      rfl, [], by decide +kernel⟩, by rfl⟩
  have htarget : Step step (Resumes full) w₁ w₂ :=
    ⟨.create .targets (exampleTarget 1), ⟨.targets, by decide, (targetName, exampleTarget 1),
      List.mem_singleton.mpr rfl, rfl, commands [] (actionsOf w₂.state w₂.state),
      by decide +kernel⟩, by rfl⟩
  have hrun : Run step (Resumes full) w₀ w₂ :=
    (Relation.ReflTransGen.refl.tail hpod).tail htarget
  have hone : full.Unambiguous := fun e _ spec vsvcName _ _ v hv => by cases hv
  have hsame := resume_untouched full (by constructor <;> (unfold Named; decide +kernel))
    (by intro r; cases r <;> decide +kernel) hone a (by decide +kernel) proxies
    (by
      intro p hp
      have hpodName : p = podName := List.mem_singleton.mp hp
      rw [hpodName]
      exact fun n => Same.refl _) w₂ hrun
  refine ⟨w₂, hrun, by decide +kernel, hsame, ?_⟩
  rw [hsame]
  decide +kernel

end World

end L7mp.Operator
