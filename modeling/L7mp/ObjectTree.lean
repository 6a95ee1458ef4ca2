import L7mp.Json
import Mathlib.Data.List.Infix

/-! Values that are made of JavaScript's objects and arrays, read and written along paths of
property names. -/
namespace Js

/-- A value without functions. The fields of an array are its elements, under their indices, and
whatever else was assigned to it. -/
inductive Value
  | null
  | bool (b : Bool)
  | num (x : Number)
  | str (s : String)
  | node (isArray : Bool) (fields : List (String × Value))
  deriving Repr

/-- The JSON value at a path through objects. -/
def Json.at? : Json → List String → Option Json
  | j, [] => some j
  | j, k :: rest => (j.field k).bind (fun u => u.at? rest)

namespace Value

/-- `{}`. -/
def empty : Value := node false []

def truthy : Value → Bool
  | null => false
  | bool b => b
  | num x => x ≠ .finite 0
  | str s => s ≠ ""
  | node _ _ => true

/-- The fields of an object or an array. -/
def members : Value → List (String × Value)
  | node _ fields => fields
  | _ => []

/-- The fields of an object that is no array. -/
def fields : Value → List (String × Value)
  | node false fields => fields
  | _ => []

def IsObject (v : Value) : Prop := v = node false v.fields

/-- The value at a path through objects and arrays. -/
def follow : Value → List String → Option Value
  | v, [] => some v
  | v, k :: rest => (v.members.lookup k).bind (fun u => u.follow rest)

/-- The value at a path through objects. -/
def at? : Value → List String → Option Value
  | v, [] => some v
  | v, k :: rest => (v.fields.lookup k).bind (fun u => u.at? rest)

/-- Put a value at a path. What stands in the way of an object gives way to one. -/
def put : Value → List String → Value → Value
  | _, [], w => w
  | v, k :: rest, w =>
    node false (setField k (((v.fields.lookup k).getD empty).put rest w) v.fields)

/-- The path goes through objects as far as there is something on it. -/
def Clear : Value → List String → Prop
  | _, [] => True
  | v, k :: rest => v.IsObject ∧ ∀ u, v.fields.lookup k = some u → u.Clear rest

/-- Neither path is the start of the other. -/
def Apart (p q : List String) : Prop := ¬ p <+: q ∧ ¬ q <+: p

instance (p q : List String) : Decidable (Apart p q) := inferInstanceAs (Decidable (_ ∧ _))

theorem apart_cons {k : String} {p q : List String} : Apart (k :: p) (k :: q) ↔ Apart p q := by
  simp only [Apart, List.cons_prefix_cons, true_and]

theorem apart_symm {p q : List String} (h : Apart p q) : Apart q p := ⟨h.2, h.1⟩

theorem not_apart_nil (p : List String) : ¬ Apart [] p := fun h => h.1 List.nil_prefix

/-- What was put is read afterwards. -/
theorem at?_put (w : Value) : ∀ (p : List String) (v : Value), (v.put p w).at? p = some w
  | [], _ => rfl
  | k :: rest, v => by
    show ((setField k _ v.fields).lookup k).bind _ = some w
    rw [lookup_setField, Option.bind_some]
    exact at?_put w rest _

/-- Paths that are apart do not disturb each other. -/
theorem at?_put_of_apart (w : Value) : ∀ (p q : List String) (v : Value), Apart p q →
    (v.put p w).at? q = v.at? q
  | [], q, _, h => absurd h (not_apart_nil q)
  | _ :: _, [], _, h => absurd (apart_symm h) (not_apart_nil _)
  | k :: p, k' :: q, v, h => by
    show ((setField k _ v.fields).lookup k').bind _ = (v.fields.lookup k').bind _
    by_cases hk : k' = k
    · subst hk
      rw [lookup_setField, Option.bind_some, at?_put_of_apart w p q _ (apart_cons.mp h)]
      rcases v.fields.lookup k' with _ | u
      · -- nothing is in an empty object
        rcases q with _ | ⟨k, q⟩
        · exact absurd (apart_symm (apart_cons.mp h)) (not_apart_nil p)
        · rfl
      · rfl
    · rw [lookup_setField_ne hk]

theorem clear_empty (p : List String) : empty.Clear p := by
  cases p with
  | nil => trivial
  | cons k rest => exact ⟨rfl, nofun⟩

/-- A path stays clear when a value is put apart from it. -/
theorem Clear.put (w : Value) : ∀ (p q : List String) (v : Value), Apart p q → v.Clear q →
    (v.put p w).Clear q
  | [], q, _, h, _ => absurd h (not_apart_nil q)
  | _ :: _, [], _, _, _ => trivial
  | k :: p, k' :: q, v, h, hclear => by
    refine ⟨rfl, ?_⟩
    intro u hu
    change (setField k _ v.fields).lookup k' = some u at hu
    by_cases hk : k' = k
    · subst hk
      rw [lookup_setField] at hu
      cases hu
      apply Clear.put w p q _ (apart_cons.mp h)
      rcases hlookup : v.fields.lookup k' with _ | u
      · exact clear_empty q
      · exact hclear.2 u hlookup
    · rw [lookup_setField_ne hk] at hu
      exact hclear.2 u hu

/-- The index that a property name is, if it is one. -/
def arrayIndex (k : String) : Option ℕ :=
  k.toNat?.filter (fun i => toString i = k && i < 2 ^ 32 - 1)

/-- `length` of an array. -/
def arrayLength : List (String × Json) → ℕ
  | [] => 0
  | (k, _) :: rest => max ((arrayIndex k).elim 0 (· + 1)) (arrayLength rest)

/-- The elements of an array, with null for each that is missing. -/
def elements (fields : List (String × Json)) : List Json :=
  (List.range (arrayLength fields)).map (fun i => (fields.lookup (toString i)).getD .null)

mutual

/-- What `JSON.parse` makes of the text that `JSON.stringify` makes of a value. -/
def wire : Value → Json
  | null => .null
  | bool b => .bool b
  | num (.finite q) => .num (.finite q)
  | num (.infinite _) => .null
  | str s => .str s
  | node false fields => .obj (wireFields fields)
  | node true fields => .arr (elements (wireFields fields))

def wireFields : List (String × Value) → List (String × Json)
  | [] => []
  | (k, v) :: rest => (k, v.wire) :: wireFields rest

end

theorem lookup_wireFields (k : String) (fields : List (String × Value)) :
    (wireFields fields).lookup k = (fields.lookup k).map wire := by
  induction fields with
  | nil => rfl
  | cons f rest ih =>
    obtain ⟨k', v⟩ := f
    rw [wireFields, List.lookup_cons, List.lookup_cons, ih]
    cases k == k' <;> rfl

/-- A value is on the wire where it was, and nothing else is. -/
theorem at?_wire : ∀ (p : List String) (v : Value), v.wire.at? p = (v.at? p).map wire
  | [], v => by
    rw [Json.at?, at?]
    rfl
  | k :: rest, v => by
    have hfield : v.wire.field k = (v.fields.lookup k).map wire := by
      rcases v with _ | _ | (_ | _) | _ | ⟨_ | _, fields⟩
      case node.false => exact lookup_wireFields k fields
      -- nothing else has fields
      all_goals rfl
    rw [Json.at?, at?, hfield]
    rcases v.fields.lookup k with _ | u
    · rfl
    · exact at?_wire rest u

end Value
end Js
