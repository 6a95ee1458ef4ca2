import L7mp.Aborting
import L7mp.PythonValue

/-! `convert_sub`, which gives a custom resource the form of the old API under a schema, and
`remove_prop`, which leaves of a schema what the conversion needs. -/
namespace L7mp.Conversion
open Python

/-- What the two functions look at in a schema whose references are inlined. Keywords with an empty
object count as missing. `others` says that `remove_prop` keeps something of the other keywords:
of alternatives, of additional properties, or another annotation. -/
inductive Schema
  | node (properties : List (String × Schema)) (items : Option Schema) (oldName : Option String)
    (removeLevel : Option Bool) (oldProperty : Option String) (others : Bool)
  deriving Repr

namespace Schema

def items : Schema → Option Schema
  | node _ items _ _ _ _ => items

def newName : Schema → Option String
  | node _ _ oldName _ _ _ => oldName.filter (· ≠ "")

/-- `schema.get('x-l7mp-old-name') or key`. -/
def rename (s : Schema) (key : String) : String := s.newName.getD key

def removesLevel : Schema → Bool
  | node _ _ _ removeLevel _ _ => removeLevel = some true

/-- The name of the property that takes the key of a level. -/
def levelProperty : Schema → Option String
  | node _ _ _ _ oldProperty _ => oldProperty.filter (· ≠ "")

/-- No keyword of the schema concerns the conversion of what is under it. -/
def isLeaf : Schema → Bool
  | node properties items oldName removeLevel oldProperty others =>
    let s := node properties items oldName removeLevel oldProperty others
    properties.isEmpty && items.isNone && !s.removesLevel && s.levelProperty.isNone

/-- No annotation of the schema's own changes a key or a level. -/
def Bare (s : Schema) : Prop :=
  s.newName = none ∧ s.removesLevel = false ∧ s.levelProperty = none

end Schema

def isOld (k : String) : Bool := "x-l7mp-old".toList.isPrefixOf k.toList

def isAnnotation (k : String) : Bool := "x-l7mp-old-".toList.isPrefixOf k.toList

/-- `l[v]`; a number that is whole counts as an integer. -/
def index (l : List Value) (v : Value) : Except Exc Value :=
  let nth (i : ℤ) : Except Exc Value :=
    match if i < 0 then l.reverse[(-i - 1).toNat]? else l[i.toNat]? with
    | some v => .ok v
    | none => .error (.other "IndexError" "list index out of range")
  match v with
  | .bool b => nth (if b then 1 else 0)
  | .num q => if q.den = 1 then nth q.num else .error .typeError
  | _ => .error .typeError

/-- `subkey = next(iter(obj))` with `obj[subkey]`. -/
def enter : Value → Except Exc (Value × Value)
  | .dict [] => .error (.other "StopIteration" "")
  | .dict ((k, v) :: _) => .ok (.str k, v)
  | .list [] => .error (.other "StopIteration" "")
  | .list (v :: l) => (index (v :: l) v).map (fun u => (v, u))
  | .str s => if s = "" then .error (.other "StopIteration" "") else .error .typeError
  | _ => .error .typeError

/-- What `convert_sub` returns, with what it leaves in the place of the value that it was given.
The latter is only read where the value that is returned counts as false. -/
structure Converted where
  key : String
  obj : Value
  place : Value
  deriving DecidableEq, Repr

/-- What follows the call for property `k`, whose value `v` was changed in its place. -/
def putBack (k : String) (v : Value) (c : Converted) (obj : Value) : Except Exc Value := do
  let obj ← if v = .none then .ok obj else obj.setItem k c.place
  let obj ← if c.obj.truthy then obj.setItem c.key c.obj else .ok obj
  if c.key ≠ k then obj.delItem k else .ok obj

/-- `x-l7mp-old-remove-level`. -/
def takeLevel (s : Schema) (obj : Value) : Except Exc Value :=
  if s.removesLevel then Prod.snd <$> enter obj else .ok obj

/-- `x-l7mp-old-property`. -/
def nameLevel (property : Option String) (obj : Value) : Except Exc Value :=
  match property with
  | none => .ok obj
  | some p => do
    let (subkey, obj) ← enter obj
    obj.setItem p subkey

/-- The end of `convert_sub`, for what is no array. -/
def convertLevels (s : Schema) (key : String) (obj : Value) : Except Exc Converted := do
  let inner ← takeLevel s obj
  return ⟨s.rename key, ← nameLevel s.levelProperty inner, obj⟩

mutual

def convertSub : Schema → String → Value → Except Exc Converted
  | .node properties items oldName removeLevel oldProperty others, key, obj =>
    if obj = .none then .ok ⟨key, obj, obj⟩
    else do
      let obj ← convertProperties properties obj
      match items with
      | some s => do
        let l ← (← obj.iter).mapM (fun item => Converted.obj <$> convertSub s "_" item)
        return ⟨key, .list l, obj⟩
      | none =>
        convertLevels (.node properties none oldName removeLevel oldProperty others) key obj

/-- The loop over the properties. -/
def convertProperties : List (String × Schema) → Value → Except Exc Value
  | [], obj => .ok obj
  | (k, s) :: rest, obj =>
    if isOld k then convertProperties rest obj
    else do
      let v ← obj.get k .none
      let c ← convertSub s k v
      convertProperties rest (← putBack k v c obj)

end

mutual

/-- `remove_prop` of a schema, with whether it is kept. -/
def removeProp : Schema → Schema × Bool
  | .node properties items oldName removeLevel oldProperty others =>
    (.node (removeProps properties) (removeItems items) oldName removeLevel oldProperty others,
      !(removeProps properties).isEmpty || (removeItems items).isSome || oldName.isSome ||
        removeLevel.isSome || oldProperty.isSome || others)

def removeItems : Option Schema → Option Schema
  | none => none
  | some s => if (removeProp s).2 then some (removeProp s).1 else none

/-- `remove_prop` of the properties. -/
def removeProps : List (String × Schema) → List (String × Schema)
  | [] => []
  | (k, s) :: rest =>
    if isAnnotation k then (k, s) :: removeProps rest
    else if (removeProp s).2 then (k, (removeProp s).1) :: removeProps rest
    else removeProps rest

end

/-- A proof about schemas goes through their properties and their items. -/
theorem Schema.all {P : Schema → Prop}
    (h : ∀ properties items oldName removeLevel oldProperty others,
      (∀ f ∈ properties, P f.2) → (∀ s, items = some s → P s) →
      P (.node properties items oldName removeLevel oldProperty others)) (s : Schema) : P s :=
  @Schema.rec P (fun l => ∀ f ∈ l, P f.2) (fun o => ∀ s, o = some s → P s) (fun f => P f.2)
    (fun properties items oldName removeLevel oldProperty others hproperties hitems =>
      h properties items oldName removeLevel oldProperty others hproperties hitems)
    (fun _ hf => absurd hf List.not_mem_nil)
    (fun _ _ hhead htail => List.forall_mem_cons.mpr ⟨hhead, htail⟩)
    (fun _ hnone => absurd hnone.symm (Option.some_ne_none _))
    (fun _ hs _ heq => Option.some.inj heq ▸ hs)
    (fun _ _ hs => hs) s

theorem mapM_congr {m : Type → Type} [Monad m] [LawfulMonad m] {α β : Type} {f g : α → m β}
    {l : List α} (h : ∀ a ∈ l, f a = g a) : l.mapM f = l.mapM g := by
  induction l with
  | nil => rfl
  | cons a l ih =>
    obtain ⟨ha, hl⟩ := List.forall_mem_cons.mp h
    rw [List.mapM_cons, List.mapM_cons, ha, ih hl]

theorem convertLevels_bare {s : Schema} (h : s.Bare) (key : String) (obj : Value) :
    convertLevels s key obj = .ok ⟨key, obj, obj⟩ := by
  obtain ⟨hname, hlevel, hproperty⟩ := h
  unfold convertLevels takeLevel Schema.rename
  rw [hlevel, hproperty, hname]
  rfl

@[simp] theorem convertSub_none (s : Schema) (key : String) :
    convertSub s key .none = .ok ⟨key, .none, .none⟩ := by
  cases s
  rw [convertSub, if_pos rfl]

theorem Schema.isLeaf_iff {properties : List (String × Schema)} {items : Option Schema}
    {oldName oldProperty : Option String} {removeLevel : Option Bool} {others : Bool} :
    (Schema.node properties items oldName removeLevel oldProperty others).isLeaf = true ↔
      properties = [] ∧ items = none ∧
      (Schema.node properties items oldName removeLevel oldProperty others).removesLevel = false ∧
      (Schema.node properties items oldName removeLevel oldProperty others).levelProperty =
        none := by
  unfold Schema.isLeaf
  simp only [Bool.and_eq_true, List.isEmpty_iff, Option.isNone_iff_eq_none, Bool.not_eq_true',
    and_assoc]

/-- A leaf may only be renamed. -/
theorem convertSub_leaf {s : Schema} (hleaf : s.isLeaf = true) {x : Value} (hx : x ≠ .none)
    (key : String) : convertSub s key x = .ok ⟨s.rename key, x, x⟩ := by
  obtain ⟨properties, items, oldName, removeLevel, oldProperty, others⟩ := s
  obtain ⟨rfl, rfl, hlevel, hproperty⟩ := Schema.isLeaf_iff.mp hleaf
  set s := Schema.node [] none oldName removeLevel oldProperty others
  have hlevels : convertLevels s key x = .ok ⟨s.rename key, x, x⟩ := by
    unfold convertLevels takeLevel
    rw [hlevel, hproperty]
    rfl
  rw [convertSub, if_neg hx, convertProperties]
  exact hlevels

theorem convertLevels_key {s : Schema} {key : String} {obj : Value} {c : Converted}
    (h : convertLevels s key obj = .ok c) : c.key = s.rename key := by
  obtain ⟨inner, -, h⟩ := Aborting.bind_eq_ok h
  obtain ⟨obj', -, h⟩ := Aborting.bind_eq_ok h
  cases h
  rfl

/-- The key that is returned: an array and what is missing keep theirs. -/
theorem convertSub_key {s : Schema} {key : String} {v : Value} {c : Converted}
    (h : convertSub s key v = .ok c) :
    c.key = if v = .none ∨ s.items.isSome = true then key else s.rename key := by
  obtain ⟨properties, items, oldName, removeLevel, oldProperty, others⟩ := s
  by_cases hv : v = .none
  · rw [hv, convertSub_none] at h
    cases h
    rw [if_pos (Or.inl hv)]
  rw [convertSub, if_neg hv] at h
  obtain ⟨obj, -, h⟩ := Aborting.bind_eq_ok h
  cases items with
  | some s =>
    obtain ⟨l, -, h⟩ := Aborting.bind_eq_ok h
    obtain ⟨l', -, h⟩ := Aborting.bind_eq_ok h
    cases h
    exact (if_pos (Or.inr rfl)).symm
  | none =>
    have hplain : ¬(v = .none ∨ (none : Option Schema).isSome = true) := by
      rintro (h | h)
      · exact hv h
      · cases h
    exact (convertLevels_key h).trans (if_neg hplain).symm

/-- The fields of an object after what follows the call. -/
def putBackFields (k : String) (v : Value) (c : Converted) (d : List (String × Value)) :
    List (String × Value) :=
  let d := if v = .none then d else Dict.set k c.place d
  let d := if c.obj.truthy then Dict.set c.key c.obj d else d
  if c.key ≠ k then Dict.del k d else d

theorem putBack_dict (k : String) (v : Value) (c : Converted) (d : List (String × Value)) :
    putBack k v c (.dict d) = .ok (.dict (putBackFields k v c d)) := by
  unfold putBack putBackFields
  by_cases hv : v = .none <;> by_cases hobj : c.obj.truthy = true <;> by_cases hkey : c.key = k <;>
    simp [hv, hobj, hkey, Value.setItem, Value.delItem, bind, Except.bind]

/-- What is put back under two keys leaves the others. -/
theorem lookup_putBackFields {k m : String} {v : Value} {c : Converted}
    {d : List (String × Value)} (hk : m ≠ k) (hkey : m ≠ c.key) :
    (putBackFields k v c d).lookup m = d.lookup m := by
  unfold putBackFields
  dsimp only
  split
  · rw [Dict.lookup_del_ne hk]
    split <;> split <;> simp only [Dict.lookup_set_ne hkey, Dict.lookup_set_ne hk]
  · split <;> split <;> simp only [Dict.lookup_set_ne hkey, Dict.lookup_set_ne hk]

/-- What is put back unchanged changes nothing. -/
theorem putBack_same {k : String} {v : Value} {d : List (String × Value)}
    (h : (d.lookup k).getD .none = v) : putBack k v ⟨k, v, v⟩ (.dict d) = .ok (.dict d) := by
  unfold putBack
  by_cases hv : v = .none
  · rw [if_pos hv, hv]
    have hfalsy : Value.truthy .none = false := rfl
    simp only [hfalsy, Bool.false_eq_true, if_false, ne_eq, not_true_eq_false]
    rfl
  · rw [if_neg hv]
    have hlookup : d.lookup k = some v := by
      cases hcase : d.lookup k with
      | none =>
        rw [hcase] at h
        exact absurd h.symm hv
      | some w =>
        rw [hcase] at h
        exact congrArg some h
    have hset : (Value.dict d).setItem k v = .ok (.dict d) := by
      rw [Value.setItem, Dict.set_self hlookup]
    rw [hset]
    by_cases htruthy : v.truthy = true
    · simp only [htruthy, if_true, ne_eq, not_true_eq_false, if_false]
      change (Value.dict d).setItem k v >>= _ = _
      rw [hset]
      rfl
    · simp only [htruthy, ne_eq, not_true_eq_false, if_false]
      rfl

end L7mp.Conversion
