import Mathlib.Data.Rat.Defs
import Mathlib.Algebra.Order.Ring.Rat

/-! JSON values as JavaScript has them after parsing, with the coercions of its operators. -/
namespace Js

/-- A number that is not NaN. A literal that is too large for a double becomes infinite. -/
inductive Number
  | finite (q : ℚ)
  | infinite (negative : Bool)
  deriving DecidableEq, Repr

inductive Json
  | null
  | bool (b : Bool)
  | num (x : Number)
  | str (s : String)
  | arr (elements : List Json)
  | obj (fields : List (String × Json))
  deriving Repr

variable {α : Type*}

/-- Assign property `k`; a new one comes last. -/
def setField (k : String) (v : α) : List (String × α) → List (String × α)
  | [] => [(k, v)]
  | (k', v') :: rest => if k' = k then (k, v) :: rest else (k', v') :: setField k v rest

theorem lookup_setField (k : String) (v : α) (fields : List (String × α)) :
    (setField k v fields).lookup k = some v := by
  induction fields with
  | nil => simp [setField]
  | cons f rest ih =>
    obtain ⟨k₀, v₀⟩ := f
    unfold setField
    split
    · simp
    · rename_i hne
      have hbeq : (k == k₀) = false := beq_false_of_ne (fun h => hne h.symm)
      simp only [List.lookup_cons, hbeq, ih]

theorem lookup_setField_ne {k k' : String} (h : k' ≠ k) (v : α)
    (fields : List (String × α)) :
    (setField k v fields).lookup k' = fields.lookup k' := by
  have hbeq : (k' == k) = false := beq_false_of_ne h
  induction fields with
  | nil => simp [setField, List.lookup_cons, hbeq]
  | cons f rest ih =>
    obtain ⟨k₀, v₀⟩ := f
    unfold setField
    split
    · rename_i heq
      subst heq
      simp only [List.lookup_cons, hbeq]
    · simp only [List.lookup_cons, ih]

theorem setField_setField (k : String) (v w : α) (fields : List (String × α)) :
    setField k w (setField k v fields) = setField k w fields := by
  induction fields with
  | nil => simp [setField]
  | cons f rest ih =>
    obtain ⟨k₀, v₀⟩ := f
    by_cases hk : k₀ = k
    · simp [setField, hk]
    · simp [setField, hk, ih]

namespace Number

/-- `Number.isInteger`. -/
def isInteger : Number → Bool
  | finite q => q.den = 1
  | infinite _ => false

/-- `x < q`. -/
def below (q : ℚ) : Number → Bool
  | finite p => p < q
  | infinite negative => negative

/-- `x > q`. -/
def above (q : ℚ) : Number → Bool
  | finite p => q < p
  | infinite negative => !negative

end Number

namespace Json

/-- Property `k` of a value that is not null, as far as the value itself has it. -/
def field (k : String) : Json → Option Json
  | obj fields => fields.lookup k
  | _ => none

section Coercion

variable (numberText : Number → String) (textNumber : String → Option Number)

mutual

/-- `ToString`. An object whose own `toString` hides the inherited one has no text, for nothing
that is parsed can be called. -/
def toText : Json → Option String
  | null => some "null"
  | bool b => some (if b then "true" else "false")
  | num x => some (numberText x)
  | str s => some s
  | arr elements => (elementTexts elements).map (String.intercalate ",")
  | obj fields => if (fields.lookup "toString").isSome then none else some "[object Object]"

/-- The texts that `join` puts together; null is empty. -/
def elementTexts : List Json → Option (List String)
  | [] => some []
  | null :: rest => (elementTexts rest).map ("" :: ·)
  | v :: rest => (toText v).bind (fun s => (elementTexts rest).map (s :: ·))

end

/-- The number that a value is compared as. The outer option is a TypeError, the inner NaN. -/
def toNumber : Json → Option (Option Number)
  | null => some (some (.finite 0))
  | bool b => some (some (.finite (if b then 1 else 0)))
  | num x => some (some x)
  | str s => some (textNumber s)
  | v => (toText numberText v).map textNumber

end Coercion
end Json
end Js
