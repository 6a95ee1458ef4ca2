import L7mp.OperatorEvents

/-! The operator reads no labels and annotations but those of pods. -/
namespace L7mp.Operator
open Python Aborting

/-- Objects that agree on everything but labels and annotations. -/
def SameView (x y : Value) : Prop :=
  ∃ d d' m m', x = .dict d ∧ y = .dict d' ∧ d.lookup "metadata" = some (.dict m) ∧
    d'.lookup "metadata" = some (.dict m') ∧ (∀ k, k ≠ "metadata" → d.lookup k = d'.lookup k) ∧
    ∀ k, k ≠ "labels" → k ≠ "annotations" → m.lookup k = m'.lookup k

/-- Tables that list such objects under the same names. -/
def SameViews (l l' : List (Fqn × Value)) : Prop :=
  List.Forall₂ (fun e f => e.1 = f.1 ∧ SameView e.2 f.2) l l'

variable {x y : Value}

theorem SameView.item (h : SameView x y) {k : String} (hk : k ≠ "metadata") :
    x.item k = y.item k := by
  obtain ⟨d, d', m, m', rfl, rfl, -, -, hd, -⟩ := h
  unfold Value.item
  dsimp only
  rw [hd k hk]

theorem SameView.get (h : SameView x y) {k : String} (hk : k ≠ "metadata") (v : Value) :
    x.get k v = y.get k v := by
  obtain ⟨d, d', m, m', rfl, rfl, -, -, hd, -⟩ := h
  unfold Value.get
  dsimp only
  rw [hd k hk]

theorem SameView.metadata (h : SameView x y) {k : String} (hl : k ≠ "labels")
    (ha : k ≠ "annotations") : (x.item "metadata" >>= fun m => m.item k) =
      (y.item "metadata" >>= fun m => m.item k) := by
  obtain ⟨d, d', m, m', rfl, rfl, hm, hm', -, h⟩ := h
  unfold Value.item
  dsimp only
  rw [hm, hm']
  dsimp only [bind, Except.bind]
  rw [h k hl ha]

theorem SameView.truthy (h : SameView x y) : x.truthy = true ∧ y.truthy = true := by
  obtain ⟨d, d', m, m', rfl, rfl, hm, hm', -, -⟩ := h
  have hne : ∀ {d : List (String × Value)} {v : Value}, d.lookup "metadata" = some v →
      (Value.dict d).truthy = true := by
    intro d v hv
    cases d with
    | nil => cases hv
    | cons e d => rfl
  exact ⟨hne hm, hne hm'⟩

/-- A part of the metadata that both objects have. -/
theorem SameView.bind_metadata {α : Type} (h : SameView x y) (f : Value → Except Exc α)
    (hf : ∀ m m' : List (String × Value),
      (∀ k, k ≠ "labels" → k ≠ "annotations" → m.lookup k = m'.lookup k) →
      f (.dict m) = f (.dict m')) :
    (x.item "metadata" >>= f) = (y.item "metadata" >>= f) := by
  obtain ⟨d, d', m, m', rfl, rfl, hm, hm', -, h⟩ := h
  unfold Value.item
  dsimp only
  rw [hm, hm']
  exact hf m m' h

theorem SameView.getFqn (h : SameView x y) : getFqn x = getFqn y := by
  unfold Operator.getFqn
  rw [h.item (by decide), h.item (by decide)]
  refine congrArg _ (funext fun apiVersion => congrArg _ (funext fun kind => ?_))
  refine h.bind_metadata _ ?_
  intro m m' hm
  unfold Value.item
  dsimp only
  rw [hm "namespace" (by decide) (by decide), hm "name" (by decide) (by decide)]

theorem SameView.setItem (h : SameView x y) (w : Value) : ∃ x' y',
    x.setItem "spec" w = .ok x' ∧ y.setItem "spec" w = .ok y' ∧
      Operator.getFqn x' = Operator.getFqn y' ∧ x'.item "spec" = .ok w ∧ y'.item "spec" = .ok w := by
  have hfqn := h.getFqn
  obtain ⟨d, d', m, m', rfl, rfl, -⟩ := h
  refine ⟨.dict (Dict.set "spec" w d), .dict (Dict.set "spec" w d'), rfl, rfl, ?_, ?_, ?_⟩
  · rw [getFqn_setItem (v := .dict d) (w := w) rfl, getFqn_setItem (v := .dict d') (w := w) rfl, hfqn]
  · unfold Value.item
    dsimp only
    rw [Dict.lookup_set_self]
  · unfold Value.item
    dsimp only
    rw [Dict.lookup_set_self]

/-! ### Tables -/

theorem SameView.refl_of {d m : List (String × Value)} (hm : d.lookup "metadata" = some (.dict m)) :
    SameView (.dict d) (.dict d) :=
  ⟨d, d, m, m, rfl, rfl, hm, hm, fun _ _ => rfl, fun _ _ _ => rfl⟩

/-- Loops over such tables. -/
theorem SameViews.gather {β : Type} {l l' : List (Fqn × Value)} (h : SameViews l l')
    {f g : Fqn × Value → Except Exc (List β)}
    (hf : ∀ e e' : Fqn × Value, e.1 = e'.1 → SameView e.2 e'.2 → f e = g e') :
    gather f l = gather g l' := by
  induction h with
  | nil => rfl
  | cons he _ ih => rw [Python.gather, Python.gather, hf _ _ he.1 he.2, ih]

/-- What is found in one table, and in the other one. -/
def SameFound : Option (Fqn × Value) → Option (Fqn × Value) → Prop
  | none, none => True
  | some e, some e' => SameView e.2 e'.2
  | _, _ => False

theorem SameViews.find? {l l' : List (Fqn × Value)} (h : SameViews l l')
    {p : Fqn × Value → Bool}
    (hp : ∀ e e' : Fqn × Value, e.1 = e'.1 → SameView e.2 e'.2 → p e = p e') :
    SameFound (l.find? p) (l'.find? p) := by
  induction h with
  | nil => trivial
  | cons he _ ih =>
    rename_i e e' l l' _
    rw [List.find?_cons, List.find?_cons, ← hp e e' he.1 he.2]
    cases p e with
    | true => exact he.2
    | false => exact ih

/-- A search that may raise does the same in both tables. -/
theorem SameViews.findM? {l l' : List (Fqn × Value)} (h : SameViews l l')
    {p : Fqn × Value → Except Exc Bool}
    (hp : ∀ e e' : Fqn × Value, e.1 = e'.1 → SameView e.2 e'.2 → p e = p e') :
    (∃ err, l.findM? p = .error err ∧ l'.findM? p = .error err) ∨
      ∃ o o', l.findM? p = .ok o ∧ l'.findM? p = .ok o' ∧ SameFound o o' := by
  induction h with
  | nil => exact Or.inr ⟨none, none, rfl, rfl, trivial⟩
  | cons he _ ih =>
    rename_i e e' l l' _
    rw [List.findM?, List.findM?, ← hp e e' he.1 he.2]
    cases p e with
    | error err => exact Or.inl ⟨err, rfl, rfl⟩
    | ok b =>
      cases b with
      | true => exact Or.inr ⟨some e, some e', rfl, rfl, he.2⟩
      | false => exact ih

theorem SameViews.set {l : List (Fqn × Value)} (hl : SameViews l l) (h : SameView x y) (f : Fqn) :
    SameViews (Dict.set f x l) (Dict.set f y l) := by
  induction l with
  | nil => exact List.Forall₂.cons ⟨rfl, h⟩ List.Forall₂.nil
  | cons e l ih =>
    obtain ⟨he, hl⟩ := List.forall₂_cons.mp hl
    unfold Dict.set
    split_ifs
    · exact List.Forall₂.cons ⟨rfl, h⟩ hl
    · exact List.Forall₂.cons he (ih hl)

/-- An object that has a name has metadata. -/
theorem sameView_of_getFqn {f : Fqn} (h : getFqn x = .ok f) : SameView x x := by
  unfold getFqn at h
  obtain ⟨apiVersion, happ, h⟩ := bind_eq_ok h
  obtain ⟨kind, -, h⟩ := bind_eq_ok h
  obtain ⟨metadata, hmeta, h⟩ := bind_eq_ok h
  obtain ⟨ns, hns, -⟩ := bind_eq_ok h
  have hdict : ∀ {v w : Value} {k : String}, v.item k = .ok w →
      ∃ d, v = .dict d ∧ d.lookup k = some w := by
    intro v w k hitem
    cases v with
    | dict d =>
      refine ⟨d, rfl, ?_⟩
      unfold Value.item at hitem
      dsimp only at hitem
      split at hitem
      · rename_i v' hv
        cases hitem
        exact hv
      · cases hitem
    | _ => cases hitem
  obtain ⟨d, rfl, hd⟩ := hdict hmeta
  obtain ⟨m, rfl, -⟩ := hdict hns
  exact SameView.refl_of hd

theorem Named.sameViews {kind : String} {l : List (Fqn × Value)} (h : Named kind l) :
    SameViews l l := by
  induction l with
  | nil => exact List.Forall₂.nil
  | cons e l ih =>
    exact List.Forall₂.cons ⟨rfl, sameView_of_getFqn (h e List.mem_cons_self).1⟩
      (ih (fun e he => h e (List.mem_cons_of_mem _ he)))

/-! ### What the actions are made of -/

variable {g g' s s' : ClusterState} {pod : Value}

theorem matchService_views (h : SameViews g.endpoints g'.endpoints) (service pod : Value) :
    matchService g service pod = matchService g' service pod := by
  have hfind := h.findM? (p := fun e => do
    return (← (← e.2.item "metadata").item "name").Eqv service) (by
      intro e e' _ hview
      refine hview.bind_metadata _ ?_
      intro m m' hm
      unfold Value.item
      dsimp only
      rw [hm "name" (by decide) (by decide)])
  unfold matchService
  rcases hfind with ⟨err, herr, herr'⟩ | ⟨o, o', ho, ho', hfound⟩
  · rw [herr, herr']
  · rw [ho, ho']
    cases o with
    | none =>
      cases o' with
      | none => rfl
      | some e' => exact absurd hfound id
    | some e =>
      cases o' with
      | none => exact absurd hfound id
      | some e' =>
        show (podMetadata pod "uid" .none >>= _) = (podMetadata pod "uid" .none >>= _)
        refine congrArg _ (funext fun podUid => ?_)
        rw [SameView.get hfound (by decide)]

theorem doesSelectorMatch_views (h : SameViews g.endpoints g'.endpoints) (selector pod : Value) :
    doesSelectorMatch g selector pod = doesSelectorMatch g' selector pod := by
  have hservice : matchService g = matchService g' := by
    funext service pod
    exact matchService_views h service pod
  unfold doesSelectorMatch selectorFn
  rw [hservice]

theorem objectActions_views (h : SameView x y) (type : ActionType) :
    objectActions g type pod x = objectActions g type pod y := by
  unfold objectActions
  rw [h.item (by decide), h.getFqn]

/-- Searches that raise the same, or find objects that agree. -/
def SameSearch : Except Exc (Option Value) → Except Exc (Option Value) → Prop
  | .error e, .error e' => e = e'
  | .ok none, .ok none => True
  | .ok (some v), .ok (some v') => SameView v v'
  | _, _ => False

/-- A search by the key first, and by something that may raise after that. -/
theorem SameViews.search {l l' : List (Fqn × Value)} (h : SameViews l l') {p : Fqn × Value → Bool}
    {q : Fqn × Value → Except Exc Bool}
    (hp : ∀ e e' : Fqn × Value, e.1 = e'.1 → SameView e.2 e'.2 → p e = p e')
    (hq : ∀ e e' : Fqn × Value, e.1 = e'.1 → SameView e.2 e'.2 → q e = q e') :
    SameSearch
      (match l.find? p with
        | some e => .ok (some e.2)
        | none => l.findM? q >>= fun found => .ok (found.map Prod.snd))
      (match l'.find? p with
        | some e => .ok (some e.2)
        | none => l'.findM? q >>= fun found => .ok (found.map Prod.snd)) := by
  have hfind := h.find? hp
  cases ho : l.find? p with
  | some e =>
    rw [ho] at hfind
    cases ho' : l'.find? p with
    | some e' =>
      rw [ho'] at hfind
      exact hfind
    | none =>
      rw [ho'] at hfind
      exact absurd hfind id
  | none =>
    rw [ho] at hfind
    cases ho' : l'.find? p with
    | some e' =>
      rw [ho'] at hfind
      exact absurd hfind id
    | none =>
      dsimp only
      rcases h.findM? hq with ⟨err, herr, herr'⟩ | ⟨o, o', hok, hok', hfound⟩
      · rw [herr, herr']
        rfl
      · rw [hok, hok']
        cases o with
        | none =>
          cases o' with
          | none => trivial
          | some e' => exact absurd hfound id
        | some e =>
          cases o' with
          | none => exact absurd hfound id
          | some e' => exact hfound

theorem linkedVirtualService_views (h : SameViews s.virtualservices s'.virtualservices)
    (vsvcName : Value) :
    SameSearch (linkedVirtualService s vsvcName) (linkedVirtualService s' vsvcName) := by
  have hsearch := h.search (p := fun e => vsvcName = .str e.1.render ∧ e.2.truthy)
    (q := fun e => do return (← (← e.2.item "metadata").item "name").Eqv vsvcName) (by
      intro e e' hkey hview
      rw [hkey, hview.truthy.1, hview.truthy.2]) (by
      intro e e' _ hview
      refine hview.bind_metadata _ ?_
      intro m m' hm
      unfold Value.item
      dsimp only
      rw [hm "name" (by decide) (by decide)])
  unfold linkedVirtualService
  cases vsvcName with
  | list _ => rfl
  | dict _ => rfl
  | _ => exact hsearch

/-- A target is extended by the same. -/
theorem getTargetExtendedSpec_views (hv : SameViews s.virtualservices s'.virtualservices)
    (h : SameView x y) : getTargetExtendedSpec s x = getTargetExtendedSpec s' y := by
  unfold getTargetExtendedSpec
  rw [h.item (by decide)]
  refine congrArg _ (funext fun spec => ?_)
  cases spec.item "linkedVirtualService" with
  | error e => cases e <;> rfl
  | ok vsvcName =>
    dsimp only
    refine congrArg _ (funext fun spec => ?_)
    have hlinked := linkedVirtualService_views hv vsvcName
    cases hfound : linkedVirtualService s vsvcName with
    | error e =>
      rw [hfound] at hlinked
      cases hfound' : linkedVirtualService s' vsvcName with
      | error e' =>
        rw [hfound'] at hlinked
        exact congrArg _ hlinked
      | ok o' =>
        rw [hfound'] at hlinked
        exact absurd hlinked id
    | ok o =>
      rw [hfound] at hlinked
      cases hfound' : linkedVirtualService s' vsvcName with
      | error e' =>
        rw [hfound'] at hlinked
        cases o <;> exact absurd hlinked id
      | ok o' =>
        rw [hfound'] at hlinked
        cases o with
        | none =>
          cases o' with
          | none => rfl
          | some v' => exact absurd hlinked id
        | some v =>
          cases o' with
          | none => exact absurd hlinked id
          | some v' =>
            -- of the `VirtualService` only the specification is read
            show (spec.get "cluster" _ >>= _) = (spec.get "cluster" _ >>= _)
            rw [SameView.item hlinked (by decide)]

theorem getEndpointGroups_views (hpods : s.pods = s'.pods) (hspec : x.item "spec" = y.item "spec")
    (hfqn : getFqn x = getFqn y) : getEndpointGroups g s x = getEndpointGroups g s' y := by
  unfold getEndpointGroups addDynamicEndpoints
  rw [hspec, hfqn, hpods]

theorem targetActions_views (hpods : s.pods = s'.pods)
    (hv : SameViews s.virtualservices s'.virtualservices) (h : SameView x y) :
    targetActions g s pod x = targetActions g s' pod y := by
  unfold targetActions
  rw [getTargetExtendedSpec_views hv h]
  refine congrArg _ (funext fun spec => ?_)
  obtain ⟨x', y', hx', hy', hfqn, hspec, hspec'⟩ := h.setItem spec
  rw [hx', hy']
  split_ifs
  · rfl
  · refine congrArg _ (funext fun selector => congrArg _ (funext fun matched => ?_))
    split_ifs
    · rfl
    · show (getEndpointGroups g s x' >>= _) = (getEndpointGroups g s' y' >>= _)
      rw [getEndpointGroups_views hpods (hspec.trans hspec'.symm) hfqn, hfqn]

/-- The actions depend on no labels and annotations but those of the pods. -/
theorem getActions_views (hg : SameViews g.endpoints g'.endpoints) (hpods : s.pods = s'.pods)
    (hvsvcs : SameViews s.virtualservices s'.virtualservices)
    (htargets : SameViews s.targets s'.targets) (hrules : SameViews s.rules s'.rules) :
    getActions g s = getActions g' s' := by
  rw [getActions_congr (doesSelectorMatch_views hg)]
  have hpod : ∀ pod, podActions g' s pod = podActions g' s' pod := by
    intro pod
    unfold podActions
    rw [hvsvcs.gather (fun _ _ _ h => objectActions_views h .vsvc),
      htargets.gather (fun _ _ _ h => targetActions_views hpods hvsvcs h),
      hrules.gather (fun _ _ _ h => objectActions_views h .rule)]
  unfold getActions
  simp only [hpod, hpods]

end L7mp.Operator
