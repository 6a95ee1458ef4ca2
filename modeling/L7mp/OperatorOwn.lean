import L7mp.OperatorRuns
import L7mp.OperatorViews

/-! What each object adds to what a proxy should have. -/
namespace L7mp.Operator
open Python Aborting

/-! ### The entries of one turn of a loop -/
section Loops

variable {κ K V β ε : Type} [BEq κ] [LawfulBEq κ] [BEq K] [LawfulBEq K]

theorem lookup_assign_append (l l' : List (K × V)) (key : K) :
    (Dict.assign (l ++ l')).lookup key =
      ((Dict.assign l').lookup key).or ((Dict.assign l).lookup key) := by
  rw [Dict.lookup_assign, Dict.lookup_assign, Dict.lookup_assign, List.reverse_append,
    List.lookup_append]

/-- When only the object under `k` enters something under a key, it decides what is there. -/
theorem lookup_gather {f : κ × β → Except ε (List (K × V))} {l : List (κ × β)}
    (hl : (l.map Prod.fst).Nodup) {r : List (K × V)} (h : gather f l = .ok r) (k : κ) {key : K}
    (hothers : ∀ e ∈ l, e.1 ≠ k → ∀ q, f e = .ok q → key ∉ q.map Prod.fst) :
    (l.lookup k = none → (Dict.assign r).lookup key = none) ∧
      ∀ b, l.lookup k = some b → ∃ q, f (k, b) = .ok q ∧
        (Dict.assign r).lookup key = (Dict.assign q).lookup key := by
  induction l generalizing r with
  | nil =>
    cases h
    exact ⟨fun _ => rfl, fun b hb => (by cases hb)⟩
  | cons e l ih =>
    obtain ⟨k', b'⟩ := e
    obtain ⟨hk', hl⟩ := List.nodup_cons.mp hl
    obtain ⟨q, hq, h⟩ := bind_eq_ok h
    obtain ⟨r', hr', h⟩ := bind_eq_ok h
    cases h
    have hrest := ih hl hr' (fun e he => hothers e (List.mem_cons_of_mem _ he))
    rw [lookup_assign_append]
    by_cases hk : k = k'
    · subst hk
      rw [hrest.1 (Dict.lookup_eq_none.mpr hk'), Dict.lookup_cons_self, Option.none_or]
      refine ⟨fun hnone => (by cases hnone), fun b hb => ?_⟩
      cases hb
      exact ⟨q, hq, rfl⟩
    · have hnone := hothers (k', b') List.mem_cons_self (Ne.symm hk) q hq
      rw [Dict.lookup_assign_eq_none.mpr hnone, Dict.lookup_cons_ne hk, Option.or_none]
      exact hrest

/-- Two computations that begin in the same way. -/
theorem bind_both {α β' : Type} {x : Except ε α} {f : α → Except ε β} {f' : α → Except ε β'}
    {b : β} {b' : β'} (h : (x >>= f) = .ok b) (h' : (x >>= f') = .ok b') :
    ∃ a, x = .ok a ∧ f a = .ok b ∧ f' a = .ok b' := by
  cases x with
  | error e => cases h
  | ok a => exact ⟨a, rfl, h, h'⟩

/-- Two loops whose turns keep a relation end in it. -/
theorem foldlM_relates {α β' : Type} {f : β → α → Except ε β} {f' : β' → α → Except ε β'}
    {R : β → β' → Prop} {l : List α} {b r : β} {b' r' : β'} (h : l.foldlM f b = .ok r)
    (h' : l.foldlM f' b' = .ok r') (hb : R b b')
    (hturn : ∀ a x x' y y', R x x' → f x a = .ok y → f' x' a = .ok y' → R y y') : R r r' := by
  induction l generalizing b b' with
  | nil =>
    cases h
    cases h'
    exact hb
  | cons a l ih =>
    rw [List.foldlM_cons] at h h'
    obtain ⟨x, hx, h⟩ := bind_eq_ok h
    obtain ⟨x', hx', h'⟩ := bind_eq_ok h'
    exact ih h h' (hturn a b b' x x' hb hx hx')

/-- Loops that do the same in turn do the same. -/
theorem foldlM_congr₂ {α : Type} {f g : β → α → Except ε β} {l l' : List α}
    (h : List.Forall₂ (fun a a' => ∀ b, f b a = g b a') l l') (b : β) :
    l.foldlM f b = l'.foldlM g b := by
  induction h generalizing b with
  | nil => rfl
  | cons ha _ ih =>
    rw [List.foldlM_cons, List.foldlM_cons, ha]
    exact congrArg _ (funext ih)

end Loops

/-! ### The actions of one object -/

/-- The object that an action is about. -/
def ActionName.owner : ActionName → Fqn
  | obj f => f
  | endpoint t _ => t

/-- What is done with an object that is there. -/
def forObject (o : Option Value) (f : Value → Except Exc (List (ActionName × Action))) :
    Except Exc (List (ActionName × Action)) :=
  match o with
  | none => .ok []
  | some v => f v

/-- The part of `podActions` that comes from one object. -/
def ownActions (g s : ClusterState) (pod : Value) (f : Fqn) :
    Except Exc (List (ActionName × Action)) := do
  let vsvc ← forObject (s.virtualservices.lookup f) (objectActions g .vsvc pod)
  let target ← forObject (s.targets.lookup f) (targetActions g s pod)
  let rule ← forObject (s.rules.lookup f) (objectActions g .rule pod)
  return vsvc ++ target ++ rule

/-- No name is listed twice. -/
def ClusterState.Keyed (s : ClusterState) : Prop := ∀ r, ((s.table r).map Prod.fst).Nodup

variable {g g' s s' : ClusterState} {pod target obj : Value} {f : Fqn}

theorem objectActions_owner {type : ActionType} {q : List (ActionName × Action)}
    (hfqn : getFqn obj = .ok f) (h : objectActions g type pod obj = .ok q) :
    ∀ n ∈ q.map Prod.fst, n.owner = f := by
  intro n hn
  obtain ⟨e, he, rfl⟩ := List.mem_map.mp hn
  obtain ⟨spec, rfl⟩ := objectActions_spec hfqn h e he
  rfl

theorem targetActions_owner {q : List (ActionName × Action)} (hfqn : getFqn target = .ok f)
    (h : targetActions g s pod target = .ok q) : ∀ n ∈ q.map Prod.fst, n.owner = f := by
  intro n hn
  obtain ⟨e, he, rfl⟩ := List.mem_map.mp hn
  rcases targetActions_spec hfqn h with rfl | ⟨spec, eps, heps, rfl⟩
  · exact absurd he List.not_mem_nil
  · rcases List.mem_cons.mp he with rfl | he
    · rfl
    · obtain ⟨d, hd, rfl⟩ := List.mem_map.mp he
      obtain ⟨ip, rfl⟩ := heps d hd
      rfl

/-- A table adds under a name what the object of that name adds. -/
theorem lookup_table {kind : String} {table : List (Fqn × Value)}
    {act : Value → Except Exc (List (ActionName × Action))} (hnamed : Named kind table)
    (hkeyed : (table.map Prod.fst).Nodup)
    (howner : ∀ v f q, getFqn v = .ok f → act v = .ok q → ∀ n ∈ q.map Prod.fst, n.owner = f)
    {r : List (ActionName × Action)} (h : gather (fun e => act e.2) table = .ok r)
    (n : ActionName) : ∃ q, forObject (table.lookup n.owner) act = .ok q ∧
      (Dict.assign r).lookup n = (Dict.assign q).lookup n := by
  have hothers : ∀ e ∈ table, e.1 ≠ n.owner → ∀ q, act e.2 = .ok q → n ∉ q.map Prod.fst := by
    intro e he hne q hq hn
    exact hne (howner e.2 e.1 q (hnamed e he).1 hq n hn).symm
  obtain ⟨hnone, hsome⟩ := lookup_gather hkeyed h n.owner hothers
  cases hlookup : table.lookup n.owner with
  | none => exact ⟨[], rfl, hnone hlookup⟩
  | some v => exact hsome v hlookup

theorem podActions_own (hs : s.WellNamed) (hkeyed : s.Keyed) {l : List (ActionName × Action)}
    (h : podActions g s pod = .ok l) (n : ActionName) :
    ∃ q, ownActions g s pod n.owner = .ok q ∧
      (Dict.assign l).lookup n = (Dict.assign q).lookup n := by
  unfold podActions at h
  obtain ⟨vsvcs, hvsvcs, h⟩ := bind_eq_ok h
  obtain ⟨targets, htargets, h⟩ := bind_eq_ok h
  obtain ⟨rules, hrules, h⟩ := bind_eq_ok h
  cases h
  obtain ⟨v, hv, hv'⟩ := lookup_table hs.virtualservices (hkeyed .virtualservices)
    (fun _ _ _ => objectActions_owner) hvsvcs n
  obtain ⟨t, ht, ht'⟩ := lookup_table hs.targets (hkeyed .targets)
    (fun _ _ _ => targetActions_owner) htargets n
  obtain ⟨r, hr, hr'⟩ := lookup_table hs.rules (hkeyed .rules)
    (fun _ _ _ => objectActions_owner) hrules n
  refine ⟨v ++ t ++ r, ?_, ?_⟩
  · unfold ownActions
    rw [hv, ht, hr]
    rfl
  · rw [lookup_assign_append, lookup_assign_append, lookup_assign_append, lookup_assign_append,
      hv', ht', hr']

/-- The actions of a pod under a name are those of the object with that name. -/
theorem getActions_own (hs : s.WellNamed) (hkeyed : s.Keyed) {a : Actions}
    (h : getActions g s = .ok a) {p : Fqn} (hpod : s.pods.lookup p = some pod) (n : ActionName) :
    ∃ q, ownActions g s pod n.owner = .ok q ∧ a.lookup (p, n) = (Dict.assign q).lookup n := by
  unfold getActions at h
  obtain ⟨entries, hentries, h⟩ := bind_eq_ok h
  cases h
  have hturn : ∀ e ∈ s.pods, ∀ q, (do
      let actions ← podActions g s e.2
      if actions.isEmpty then return []
      let fqn ← getFqn e.2
      return actions.map (fun a => ((fqn, a.1), a.2))) = Except.ok q →
      ∃ l, podActions g s e.2 = .ok l ∧ q = l.map (fun a => ((e.1, a.1), a.2)) := by
    intro e he q hq
    obtain ⟨l, hl, hq⟩ := bind_eq_ok hq
    refine ⟨l, hl, ?_⟩
    split at hq
    · rename_i hempty
      cases hq
      rw [List.isEmpty_iff.mp hempty]
      rfl
    · obtain ⟨fqn, hfqn, hq⟩ := bind_eq_ok hq
      rw [(hs.pods e he).1] at hfqn
      cases hfqn
      cases hq
      rfl
  have hothers : ∀ e ∈ s.pods, e.1 ≠ p → ∀ q, (do
      let actions ← podActions g s e.2
      if actions.isEmpty then return []
      let fqn ← getFqn e.2
      return actions.map (fun a => ((fqn, a.1), a.2))) = Except.ok q → (p, n) ∉ q.map Prod.fst := by
    intro e he hne q hq hmem
    obtain ⟨l, -, rfl⟩ := hturn e he q hq
    obtain ⟨x, hx, hkey⟩ := List.mem_map.mp hmem
    obtain ⟨y, -, rfl⟩ := List.mem_map.mp hx
    exact hne (Prod.mk.inj hkey).1
  obtain ⟨q, hq, hlookup⟩ := (lookup_gather (hkeyed .pods) hentries p hothers).2 pod hpod
  obtain ⟨l, hl, rfl⟩ := hturn _ (Dict.mem_of_lookup hpod) q hq
  obtain ⟨q, hq, hown⟩ := podActions_own hs hkeyed hl n
  refine ⟨q, hq, ?_⟩
  rw [hlookup, ← hown, Dict.lookup_assign, Dict.lookup_assign, ← List.map_reverse]
  induction l.reverse with
  | nil => rfl
  | cons e l ih =>
    obtain ⟨m, act⟩ := e
    rw [List.map_cons]
    by_cases hm : n = m
    · subst hm
      rw [Dict.lookup_cons_self, Dict.lookup_cons_self]
    · rw [Dict.lookup_cons_ne hm, Dict.lookup_cons_ne (fun heq => hm (Prod.mk.inj heq).2), ih]

/-- What actions under distinct names register. -/
def registered (q : List (ActionName × Action)) : Proxy := 
  registers (fun n => (Dict.assign q).lookup n)

theorem registered_congr {q q' : List (ActionName × Action)} {n : ActionName}
    (h : (Dict.assign q).lookup n = (Dict.assign q').lookup n) :
    registered q n = registered q' n := by
  unfold registered registers
  dsimp only
  rw [h]

/-- What is wanted under a name comes from the object with that name. -/
theorem wanted_own (hs : s.WellNamed) (hkeyed : s.Keyed) {a : Actions}
    (h : getActions g s = .ok a) {p : Fqn} (hpod : s.pods.lookup p = some pod) (f : Fqn) :
    ∃ q, ownActions g s pod f = .ok q ∧ ∀ n, n.owner = f → wanted a p n = registered q n := by
  obtain ⟨q, hq, -⟩ := getActions_own hs hkeyed h hpod (.obj f)
  refine ⟨q, hq, ?_⟩
  intro n hn
  obtain ⟨q', hq', hlookup⟩ := getActions_own hs hkeyed h hpod n
  rw [hn] at hq'
  have hsame : q = q' := Except.ok.inj (hq.symm.trans hq')
  subst hsame
  unfold wanted registered registers
  rw [hlookup]

/-- A pod that is not listed has no actions. -/
theorem getActions_unlisted (hs : s.WellNamed) {a : Actions} (h : getActions g s = .ok a) {p : Fqn}
    (hpod : p ∉ s.pods.map Prod.fst) (n : ActionName) : a.lookup (p, n) = none := by
  unfold getActions at h
  obtain ⟨entries, hentries, h⟩ := bind_eq_ok h
  cases h
  rw [Dict.lookup_assign_eq_none]
  intro hmem
  obtain ⟨e, he, hkey⟩ := List.mem_map.mp hmem
  obtain ⟨x, hx, q, hq, heq⟩ := (mem_gather hentries).mp he
  obtain ⟨l, -, hq⟩ := bind_eq_ok hq
  split at hq
  · cases hq
    exact absurd heq List.not_mem_nil
  · obtain ⟨fqn, hfqn, hq⟩ := bind_eq_ok hq
    rw [(hs.pods x hx).1] at hfqn
    cases hfqn
    cases hq
    obtain ⟨y, -, rfl⟩ := List.mem_map.mp heq
    have hp : x.1 = p := (Prod.mk.inj hkey).1
    exact hpod (hp ▸ List.mem_map_of_mem hx)

/-! ### Other pods -/

/-- The static endpoints are the same, whatever pods are listed, and the dynamic ones are in a
relation that the loop over the pods keeps. -/
theorem getEndpointGroups_relates
    {R : List (ActionName × Value) → List (ActionName × Value) → Prop} (hstart : R [] [])
    (hturn : ∀ selector eps eps' q q', R eps eps' →
      addDynamicEndpoints g s target selector eps = .ok q →
      addDynamicEndpoints g s' target selector eps' = .ok q' → R q q')
    {r r' : List Value × List (ActionName × Value)} (h : getEndpointGroups g s target = .ok r)
    (h' : getEndpointGroups g s' target = .ok r') : r.1 = r'.1 ∧ R r.2 r'.2 := by
  unfold getEndpointGroups at h h'
  cases hitem : (do (← (← target.item "spec").item "cluster").item "endpoints" :
      Except Exc Value) with
  | error e =>
    rw [hitem] at h h'
    cases e with
    | keyError k =>
      cases h
      cases h'
      exact ⟨rfl, hstart⟩
    | _ => cases h
  | ok endpoints =>
    rw [hitem] at h h'
    obtain ⟨l, -, h, h'⟩ := bind_both h h'
    refine foldlM_relates (R := fun x x' => x.1 = x'.1 ∧ R x.2 x'.2) h h' ⟨rfl, hstart⟩ ?_
    intro ep x x' y y' hx hy hy'
    obtain ⟨isStatic, -, hy, hy'⟩ := bind_both hy hy'
    by_cases hspec : isStatic = true
    · rw [if_pos hspec] at hy hy'
      cases hy
      cases hy'
      dsimp only
      rw [hx.1]
      exact ⟨rfl, hx.2⟩
    · rw [if_neg hspec] at hy hy'
      obtain ⟨isDynamic, -, hy, hy'⟩ := bind_both hy hy'
      by_cases hselector : isDynamic = true
      · rw [if_pos hselector] at hy hy'
        obtain ⟨selector, -, hy, hy'⟩ := bind_both hy hy'
        obtain ⟨eps, heps, hy⟩ := bind_eq_ok hy
        obtain ⟨eps', heps', hy'⟩ := bind_eq_ok hy'
        cases hy
        cases hy'
        exact ⟨hx.1, hturn selector _ _ eps eps' hx.2 heps heps'⟩
      · rw [if_neg hselector] at hy hy'
        cases hy
        cases hy'
        exact hx

theorem lookup_assign_endpoints {x : ActionName × Action} {f : Fqn}
    {eps : List (ActionName × Value)} (heps : ∀ d ∈ eps, DynamicEndPoint f d)
    (act : ActionName × Value → Action) (h : Fqn) :
    (Dict.assign (x :: eps.map (fun d => (d.1, act d)))).lookup (.obj h) =
      (Dict.assign [x]).lookup (.obj h) := by
  have hnone : (Dict.assign (eps.map (fun d => (d.1, act d)))).lookup (ActionName.obj h) = none := by
    rw [Dict.lookup_assign_eq_none]
    intro hmem
    obtain ⟨e, he, hname⟩ := List.mem_map.mp hmem
    obtain ⟨d, hd, rfl⟩ := List.mem_map.mp he
    obtain ⟨ip, rfl⟩ := heps d hd
    cases hname
  have happend := lookup_assign_append [x] (eps.map (fun d => (d.1, act d))) (ActionName.obj h)
  rw [hnone, Option.none_or] at happend
  exact happend

/-- The actions of one target in two states: none, or the same action of the target, and dynamic
endpoints in the relation `R`. -/
def TargetPair (f : Fqn) (R : List (ActionName × Value) → List (ActionName × Value) → Prop)
    (q q' : List (ActionName × Action)) : Prop :=
  (q = [] ∧ q' = []) ∨ ∃ (x : ActionName × Action) (eps eps' : List (ActionName × Value)),
    let act : ActionName × Value → ActionName × Action :=
      fun d => (d.1, ⟨.dynamicEndpoint, d.1, d.2, some f⟩)
    x.1 = .obj f ∧ (∀ d ∈ eps, DynamicEndPoint f d) ∧ (∀ d ∈ eps', DynamicEndPoint f d) ∧
      R eps eps' ∧ q = x :: eps.map act ∧ q' = x :: eps'.map act

/-- A target that is extended by the same is the same for a pod, whatever other pods are listed. -/
theorem targetActions_both
    {R : List (ActionName × Value) → List (ActionName × Value) → Prop} (hstart : R [] [])
    (hturn : ∀ etarget selector eps eps' q q', R eps eps' →
      addDynamicEndpoints g s etarget selector eps = .ok q →
      addDynamicEndpoints g s' etarget selector eps' = .ok q' → R q q')
    (hext : getTargetExtendedSpec s target = getTargetExtendedSpec s' target)
    (hfqn : getFqn target = .ok f) {q q' : List (ActionName × Action)}
    (h : targetActions g s pod target = .ok q) (h' : targetActions g s' pod target = .ok q') :
    TargetPair f R q q' := by
  unfold targetActions at h h'
  rw [← hext] at h'
  obtain ⟨spec, -, h, h'⟩ := bind_both h h'
  by_cases htruthy : (!spec.truthy) = true
  · rw [if_pos htruthy] at h h'
    cases h
    cases h'
    exact Or.inl ⟨rfl, rfl⟩
  · rw [if_neg htruthy] at h h'
    obtain ⟨selector, -, h, h'⟩ := bind_both h h'
    obtain ⟨matched, -, h, h'⟩ := bind_both h h'
    by_cases hno : (!matched) = true
    · rw [if_pos hno] at h h'
      cases h
      cases h'
      exact Or.inl ⟨rfl, rfl⟩
    · rw [if_neg hno] at h h'
      obtain ⟨etarget, hset, h, h'⟩ := bind_both h h'
      obtain ⟨groups, hgroups, h⟩ := bind_eq_ok h
      obtain ⟨groups', hgroups', h'⟩ := bind_eq_ok h'
      obtain ⟨hstatic, hR⟩ := getEndpointGroups_relates hstart (hturn etarget) hgroups hgroups'
      have hsame : getFqn etarget = .ok f := (getFqn_setItem hset).trans hfqn
      have heps := getEndpointGroups_spec hsame hgroups
      have heps' := getEndpointGroups_spec hsame hgroups'
      obtain ⟨statics, eps⟩ := groups
      obtain ⟨statics', eps'⟩ := groups'
      change statics = statics' at hstatic
      subst hstatic
      obtain ⟨cluster, -, h, h'⟩ := bind_both h h'
      obtain ⟨full, -, h, h'⟩ := bind_both h h'
      obtain ⟨spec, -, h, h'⟩ := bind_both h h'
      rw [hsame] at h h'
      cases h
      cases h'
      exact Or.inr ⟨_, eps, eps', rfl, heps, heps', hR, rfl, rfl⟩

theorem targetActions_obj
    (hext : getTargetExtendedSpec s target = getTargetExtendedSpec s' target)
    (hfqn : getFqn target = .ok f) {q q' : List (ActionName × Action)}
    (h : targetActions g s pod target = .ok q) (h' : targetActions g s' pod target = .ok q')
    (n : Fqn) : (Dict.assign q).lookup (.obj n) = (Dict.assign q').lookup (.obj n) := by
  have hboth := targetActions_both (R := fun _ _ => True) trivial
    (fun _ _ _ _ _ _ _ _ _ => trivial) hext hfqn h h'
  rcases hboth with ⟨rfl, rfl⟩ | ⟨x, eps, eps', -, heps, heps', -, rfl, rfl⟩
  · rfl
  · rw [lookup_assign_endpoints heps, lookup_assign_endpoints heps']

/-- Only targets have endpoints. -/
theorem registered_endpoint_none (hs : s.WellNamed) {q : List (ActionName × Action)}
    (h : ownActions g s pod f = .ok q)
    (htarget : ∀ t, s.targets.lookup f = some t → targetActions g s pod t = .ok []) (ip : String) :
    registered q (.endpoint f ip) = none := by
  have hobject : ∀ {type : ActionType} {kind : String} {table : List (Fqn × Value)}
      {r : List (ActionName × Action)}, Named kind table →
      forObject (table.lookup f) (objectActions g type pod) = .ok r →
      ActionName.endpoint f ip ∉ r.map Prod.fst := by
    intro type kind table r hnamed hr hmem
    obtain ⟨e, he, hname⟩ := List.mem_map.mp hmem
    cases hlookup : table.lookup f with
    | none =>
      rw [hlookup] at hr
      cases hr
      exact List.not_mem_nil he
    | some v =>
      rw [hlookup] at hr
      obtain ⟨spec, rfl⟩ := objectActions_spec (hnamed _ (Dict.mem_of_lookup hlookup)).1 hr e he
      cases hname
  unfold ownActions at h
  obtain ⟨v, hv, h⟩ := bind_eq_ok h
  obtain ⟨t, ht, h⟩ := bind_eq_ok h
  obtain ⟨r, hr, h⟩ := bind_eq_ok h
  cases h
  have hempty : t = [] := by
    cases hlookup : s.targets.lookup f with
    | none =>
      rw [hlookup] at ht
      cases ht
      rfl
    | some target =>
      rw [hlookup] at ht
      have hsame := ht.symm.trans (htarget target hlookup)
      exact Except.ok.inj hsame
  have hnone : (Dict.assign (v ++ t ++ r)).lookup (ActionName.endpoint f ip) = none := by
    rw [hempty, List.append_nil, Dict.lookup_assign_eq_none, List.map_append, List.mem_append]
    rintro (hmem | hmem)
    · exact hobject hs.virtualservices hv hmem
    · exact hobject hs.rules hr hmem
  unfold registered registers
  dsimp only
  rw [hnone]
  rfl

theorem lookup_other {kind : String} {table : List (Fqn × Value)} (h : Named kind table)
    (hne : f.kind ≠ kind) : table.lookup f = none := by
  rw [Dict.lookup_eq_none]
  intro hmem
  obtain ⟨e, he, rfl⟩ := List.mem_map.mp hmem
  exact hne (h e he).2

/-- Under the name of a target there is nothing but the target. -/
theorem ownActions_target (hs : s.WellNamed) {t : Value} (ht : s.targets.lookup f = some t)
    {q : List (ActionName × Action)} (h : ownActions g s pod f = .ok q) :
    targetActions g s pod t = .ok q := by
  have hkind : f.kind = "Target" := (hs.targets _ (Dict.mem_of_lookup ht)).2
  unfold ownActions at h
  rw [lookup_other hs.virtualservices (by rw [hkind]; decide),
    lookup_other hs.rules (by rw [hkind]; decide), ht] at h
  obtain ⟨v, hv, h⟩ := bind_eq_ok h
  obtain ⟨q', hq', h⟩ := bind_eq_ok h
  obtain ⟨r, hr, h⟩ := bind_eq_ok h
  cases hv
  cases hr
  cases h
  rw [List.append_nil]
  exact hq'

theorem ownActions_vsvc (hs : s.WellNamed) {v : Value}
    (hv : s.virtualservices.lookup f = some v) {q : List (ActionName × Action)}
    (h : ownActions g s pod f = .ok q) : objectActions g .vsvc pod v = .ok q := by
  have hkind : f.kind = "VirtualService" := (hs.virtualservices _ (Dict.mem_of_lookup hv)).2
  unfold ownActions at h
  rw [lookup_other hs.targets (by rw [hkind]; decide),
    lookup_other hs.rules (by rw [hkind]; decide), hv] at h
  obtain ⟨q', hq', h⟩ := bind_eq_ok h
  obtain ⟨t, ht, h⟩ := bind_eq_ok h
  obtain ⟨r, hr, h⟩ := bind_eq_ok h
  cases ht
  cases hr
  cases h
  rw [List.append_nil, List.append_nil]
  exact hq'

/-- Under any other name there are rules only. -/
theorem ownActions_rule (hs : s.WellNamed) (hv : s.virtualservices.lookup f = none)
    (ht : s.targets.lookup f = none) {q : List (ActionName × Action)}
    (h : ownActions g s pod f = .ok q) : ∀ e ∈ q, e.2.type = .rule := by
  unfold ownActions at h
  rw [hv, ht] at h
  obtain ⟨v, hv, h⟩ := bind_eq_ok h
  obtain ⟨t, ht, h⟩ := bind_eq_ok h
  obtain ⟨rule, hrule, h⟩ := bind_eq_ok h
  cases hv
  cases ht
  cases h
  intro e he
  cases hr : s.rules.lookup f with
  | none =>
    rw [hr] at hrule
    cases hrule
    exact absurd he List.not_mem_nil
  | some v =>
    rw [hr] at hrule
    have hfqn := (hs.rules _ (Dict.mem_of_lookup hr)).1
    obtain ⟨spec, rfl⟩ := objectActions_spec hfqn hrule e he
    rfl

/-- Rules are not registered. -/
theorem registered_rules {q : List (ActionName × Action)} (h : ∀ e ∈ q, e.2.type = .rule)
    (n : ActionName) : registered q n = none := by
  unfold registered registers
  dsimp only
  cases hlookup : (Dict.assign q).lookup n with
  | none => rfl
  | some act =>
    have htype := h _ (Dict.mem_of_lookup_assign hlookup)
    dsimp only at htype
    simp [htype]

end L7mp.Operator
