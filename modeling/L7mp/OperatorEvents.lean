import L7mp.OperatorUpdate

/-! The handlers of the events about watched objects. -/
namespace L7mp.Operator
open Python

mutual

/-- `dict_update(d, u)`. -/
def dictUpdate (d : Value) : Value → Except Exc Value
  | .dict items => dictUpdateItems d items
  | _ => .error .attributeError

def dictUpdateItems (d : Value) : List (String × Value) → Except Exc Value
  | [] => .ok d
  | (k, .dict items) :: rest => do
    let w ← dictUpdateItems (← d.get k (.dict [])) items
    dictUpdateItems (← d.setItem k w) rest
  | (k, v) :: rest => do
    dictUpdateItems (← d.setItem k v) rest

end

/-- The kinds of objects that are watched. -/
inductive Resource
  | pods | endpoints | virtualservices | targets | rules
  deriving DecidableEq, Repr

def ClusterState.table (s : ClusterState) : Resource → List (Fqn × Value)
  | .pods => s.pods
  | .endpoints => s.endpoints
  | .virtualservices => s.virtualservices
  | .targets => s.targets
  | .rules => s.rules

/-- `s[o_type][fqn] = obj`. -/
def ClusterState.set (s : ClusterState) (r : Resource) (fqn : Fqn) (obj : Value) : ClusterState :=
  match r with
  | .pods => { s with pods := Dict.set fqn obj s.pods }
  | .endpoints => { s with endpoints := Dict.set fqn obj s.endpoints }
  | .virtualservices => { s with virtualservices := Dict.set fqn obj s.virtualservices }
  | .targets => { s with targets := Dict.set fqn obj s.targets }
  | .rules => { s with rules := Dict.set fqn obj s.rules }

/-- `fail_if_pod_not_ready`. -/
def failIfPodNotReady (r : Resource) (body : Value) : Except Exc Unit := do
  if r ≠ .pods then return
  let podIp ← (← body.item "status").get "podIP" .none
  if podIp.truthy then return
  let name ← namePart (← (← body.item "metadata").item "name")
  throw (.temporary ("No podIP in " ++ name))

/-- `update_fn`: the commands, and the state of the operator afterwards. -/
def updateFn (s : ClusterState) (r : Resource) (body old : Value) :
    Except Exc (List Command) × ClusterState :=
  let objects : Except Exc (Fqn × Value) := do
    failIfPodNotReady r body
    let fqn ← getFqn body
    -- what is missing in `old` is taken from `body`
    return (fqn, ← dictUpdate body old)
  match objects with
  | .error e => (.error e, s)
  | .ok (fqn, oldObj) => (update (s.set r fqn body) (s.set r fqn oldObj), s.set r fqn body)

/-! ### The previous object -/

/-- The parts of the previous object that come with an event. -/
structure Essence where
  labels : Option Value
  annotations : Option Value
  spec : Option Value

/-- A key that may be missing. -/
def optional (k : String) (v : Option Value) : List (String × Value) :=
  (v.map (fun v => (k, v))).toList

/-- The argument `old`. -/
def Essence.old (e : Essence) : Value :=
  .dict (("metadata", .dict (optional "labels" e.labels ++ optional "annotations" e.annotations)) ::
    optional "spec" e.spec)

def itemsOf : Option Value → List (String × Value)
  | some (.dict d) => d
  | _ => []

mutual

/-- The value `v`, with its keys in the order of those that `w` has. -/
def revert (w : Option Value) : Value → Value
  | .dict items =>
    .dict (revertItems ((itemsOf w).filter (fun e => e.1 ∈ items.map Prod.fst)) items)
  | v => v

def revertItems (d : List (String × Value)) : List (String × Value) → List (String × Value)
  | [] => d
  | (k, v) :: rest => revertItems (Dict.set k (revert (d.lookup k) v) d) rest

end

/-- Give a key back the value that it had. -/
def giveBack (k : String) (v : Option Value) (d : List (String × Value)) : List (String × Value) :=
  match v with
  | none => Dict.del k d
  | some v => Dict.set k (revert (d.lookup k) v) d

/-- The previous object: the body with its labels, annotations and specification as they were. -/
def previous (body : Value) (e : Essence) : Value :=
  let metadata := giveBack "annotations" e.annotations
    (giveBack "labels" e.labels (itemsOf ((itemsOf (some body)).lookup "metadata")))
  .dict (giveBack "spec" e.spec (Dict.set "metadata" (.dict metadata) (itemsOf (some body))))

mutual

/-- Keys are distinct in all dicts that are reached through dicts. -/
def DistinctKeys : Value → Prop
  | .dict items => (items.map Prod.fst).Nodup ∧ DistinctItems items
  | _ => True

def DistinctItems : List (String × Value) → Prop
  | [] => True
  | (_, v) :: rest => DistinctKeys v ∧ DistinctItems rest

end

/-- Nothing, or a dict all keys of which are keys of `items`. -/
def coveredBy (items : List (String × Value)) : Option Value → Bool
  | none => true
  | some (.dict d) => d.all (fun e => e.1 ∈ items.map Prod.fst)
  | some _ => false

mutual

/-- Merging `v` into `w` gives `v`: no dict has a key that the one in its place in `v` has not, and
in the place of a dict of `v` there is a dict or nothing. -/
def undoes (w : Option Value) : Value → Bool
  | .dict items => coveredBy items w && undoesItems (itemsOf w) items
  | _ => true

def undoesItems (d : List (String × Value)) : List (String × Value) → Bool
  | [] => true
  | (k, v) :: rest => undoes (d.lookup k) v && undoesItems d rest

end

theorem lookup_revertItems {items : List (String × Value)} (h : (items.map Prod.fst).Nodup)
    (d : List (String × Value)) (k : String) : (revertItems d items).lookup k =
      match items.lookup k with
      | some v => some (revert (d.lookup k) v)
      | none => d.lookup k := by
  induction items generalizing d with
  | nil => rw [revertItems]; rfl
  | cons e rest ih =>
    obtain ⟨k', v⟩ := e
    obtain ⟨hk', hrest⟩ := List.nodup_cons.mp h
    rw [revertItems, ih hrest]
    by_cases hk : k = k'
    · subst hk
      have hnone : rest.lookup k = none := Dict.lookup_eq_none.mpr hk'
      rw [hnone, Dict.lookup_cons_self]
      exact Dict.lookup_set_self k _ d
    · rw [Dict.lookup_cons_ne hk, Dict.lookup_set_ne hk]

mutual

/-- The order of the keys apart, `revert` gives its argument. -/
theorem revert_eqv : ∀ (v : Value), DistinctKeys v → ∀ w, (revert w v).Eqv v
  | .dict items, h, w => by
    rw [DistinctKeys] at h
    rw [revert, Value.eqv_dict]
    intro k
    rw [lookup_revertItems h.1]
    cases hk : items.lookup k with
    | none =>
      have hmem : k ∉ items.map Prod.fst := Dict.lookup_eq_none.mp hk
      have hnone : ((itemsOf w).filter (fun e => e.1 ∈ items.map Prod.fst)).lookup k = none := by
        rw [Dict.lookup_eq_none]
        intro hin
        obtain ⟨e, he, rfl⟩ := List.mem_map.mp hin
        exact hmem (of_decide_eq_true (List.mem_filter.mp he).2)
      dsimp only
      rw [hnone]
    | some v => exact congrArg some (revertItems_eqv items h.2 _ (Dict.mem_of_lookup hk) _)
  | .none, _, _ => Value.Eqv.refl _
  | .bool _, _, _ => Value.Eqv.refl _
  | .num _, _, _ => Value.Eqv.refl _
  | .str _, _, _ => Value.Eqv.refl _
  | .list _, _, _ => Value.Eqv.refl _

theorem revertItems_eqv : ∀ (items : List (String × Value)), DistinctItems items →
    ∀ e ∈ items, ∀ w, (revert w e.2).Eqv e.2
  | [], _, e, he, _ => absurd he List.not_mem_nil
  | (k, v) :: rest, h, e, he, w => by
    rw [DistinctItems] at h
    rcases List.mem_cons.mp he with rfl | he
    · exact revert_eqv v h.1 w
    · exact revertItems_eqv rest h.2 e he w

end

theorem undoesItems_congr {d d' items : List (String × Value)}
    (h : ∀ k ∈ items.map Prod.fst, d.lookup k = d'.lookup k) :
    undoesItems d items = undoesItems d' items := by
  induction items with
  | nil => rw [undoesItems, undoesItems]
  | cons e rest ih =>
    obtain ⟨k, v⟩ := e
    rw [undoesItems, undoesItems, h k List.mem_cons_self,
      ih (fun k hk => h k (List.mem_cons_of_mem _ hk))]

mutual

/-- A merge that undoes the change gives the previous value. -/
theorem dictUpdate_undoes : ∀ (items : List (String × Value)) (w : Option Value),
    DistinctKeys (.dict items) → undoes w (.dict items) = true →
    dictUpdate (w.getD (.dict [])) (.dict items) = .ok (revert w (.dict items))
  | items, w, h, hundo => by
    rw [DistinctKeys] at h
    change (coveredBy items w && undoesItems (itemsOf w) items) = true at hundo
    obtain ⟨hw, hitems⟩ := Bool.and_eq_true_iff.mp hundo
    have hmerge := dictUpdateItems_undoes items (itemsOf w) h.1 h.2 hitems
    rw [dictUpdate, revert]
    match w, hw with
    | none, _ => exact hmerge
    | some (.dict d), hw =>
      have hall : d.filter (fun e => e.1 ∈ items.map Prod.fst) = d :=
        List.filter_eq_self.mpr (List.all_eq_true.mp hw)
      show _ = Except.ok (Value.dict (revertItems (d.filter _) items))
      rw [hall]
      exact hmerge

theorem dictUpdateItems_undoes : ∀ (items d : List (String × Value)),
    (items.map Prod.fst).Nodup → DistinctItems items → undoesItems d items = true →
    dictUpdateItems (.dict d) items = .ok (.dict (revertItems d items))
  | [], d, _, _, _ => by rw [dictUpdateItems, revertItems]
  | (k, v) :: rest, d, hnodup, h, hundo => by
    rw [DistinctItems] at h
    rw [undoesItems, Bool.and_eq_true] at hundo
    obtain ⟨hk, hrest⟩ := List.nodup_cons.mp hnodup
    have hsame : undoesItems (Dict.set k (revert (d.lookup k) v) d) rest = true := by
      rw [← hundo.2]
      apply undoesItems_congr
      intro k' hk'
      have hne : k' ≠ k := fun heq => hk (show k ∈ _ from heq ▸ hk')
      exact Dict.lookup_set_ne hne _ d
    have hmerge := dictUpdateItems_undoes rest _ hrest h.2 hsame
    rw [revertItems]
    cases v with
    | dict items =>
      have hfirst := dictUpdate_undoes items (d.lookup k) h.1 hundo.1
      rw [dictUpdate] at hfirst
      rw [dictUpdateItems]
      show (dictUpdateItems ((d.lookup k).getD (.dict [])) items >>= _) = _
      rw [hfirst]
      exact hmerge
    | _ =>
      rw [revert] at hmerge ⊢
      · exact hmerge
      all_goals nofun

end

end L7mp.Operator
