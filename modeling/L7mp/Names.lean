import Mathlib.Data.List.Basic

/-! Names that `l7mp` makes up. -/
namespace L7mp

def maxNameAttempts : ℕ := 20

/-- The name that turn `i` of the loop tries. -/
def nameAttempt (name : String) (i : ℕ) : String :=
  if i > 0 then name ++ "_" ++ toString i else name

/-- `newName`; it throws when every attempt finds an object. -/
def newName (name : String) (find : String → Bool) : Option String :=
  ((List.range (maxNameAttempts+1)).map (nameAttempt name)).find? (fun n => !find n)

theorem find_newName {name n : String} {find : String → Bool} (h : newName name find = some n) :
    find n = false := by
  have := List.find?_some h
  simpa using this

end L7mp
