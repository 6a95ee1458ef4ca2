import L7mp.PythonValue

/-! The state of the operator and its selectors. -/
namespace L7mp.Operator
open Python

/-- What names an object; `get_fqn` joins the four parts with slashes, and Kubernetes allows none
in the last three. -/
structure Fqn where
  apiVersion : String
  kind : String
  namespace_ : String
  name : String
  deriving DecidableEq, Repr

def Fqn.render (f : Fqn) : String :=
  "/" ++ f.apiVersion ++ "/" ++ f.kind ++ "/" ++ f.namespace_ ++ "/" ++ f.name

/-- A part of a name, which is a string in all objects of Kubernetes. -/
def namePart : Value → Except Exc String
  | .str s => .ok s
  | _ => .error .typeError

def getFqn (obj : Value) : Except Exc Fqn := do
  let apiVersion ← obj.item "apiVersion"
  let kind ← obj.item "kind"
  let metadata ← obj.item "metadata"
  let namespace_ ← metadata.item "namespace"
  let name ← metadata.item "name"
  return ⟨← namePart apiVersion, ← namePart kind, ← namePart namespace_, ← namePart name⟩

/-- `s`: for each kind of object its objects under their names. -/
structure ClusterState where
  pods : List (Fqn × Value)
  endpoints : List (Fqn × Value)
  virtualservices : List (Fqn × Value)
  targets : List (Fqn × Value)
  rules : List (Fqn × Value)
  deriving DecidableEq, Repr

/-- `does_operator_match`; the message about an unknown operator reads a name that is not there. -/
def doesOperatorMatch (value operator values : Value) : Except Exc Bool :=
  if operator.Eqv (.str "In") then value.isIn values
  else if operator.Eqv (.str "NotIn") then (fun b => !b) <$> value.isIn values
  else if operator.Eqv (.str "Exists") then .ok (value ≠ .none)
  else if operator.Eqv (.str "DoesNotExist") then .ok (value = .none)
  else .error (.nameError "expr")

/-- `pod.get('metadata', {}).get(k)`. -/
def podMetadata (pod : Value) (k : String) (default : Value) : Except Exc Value := do
  (← pod.get "metadata" (.dict [])).get k default

/-- `does_selector_match__matchLabels`. -/
def matchLabels (args pod : Value) : Except Exc Bool := do
  let labels ← podMetadata pod "labels" (.dict [])
  (← args.items).allM (fun e => return e.2.Eqv (← labels.get e.1 .none))

/-- `does_selector_match__matchExpressions`. -/
def matchExpressions (args pod : Value) : Except Exc Bool := do
  let labels ← podMetadata pod "labels" (.dict [])
  (← args.iter).allM (fun expr => do
    let value ← labels.getKey (← expr.item "key")
    doesOperatorMatch value (← expr.item "operator") (← expr.item "values"))

/-- `does_selector_match__matchFields`. -/
def matchFields (args pod : Value) : Except Exc Bool := do
  (← args.iter).allM (fun expr => do
    let value ← (← (← expr.item "key").splitDots).foldlM (fun v k => v.get k (.dict [])) pod
    let value := if value.Eqv (.dict []) then .none else value
    doesOperatorMatch value (← expr.item "operator") (← expr.item "values"))

/-- `does_selector_match__matchNamespace`. -/
def matchNamespace (args pod : Value) : Except Exc Bool :=
  return args.Eqv (← podMetadata pod "namespace" .none)

/-- `does_selector_match__matchService`. It reads the state `s` of the operator, which is `g` here,
and not the one that it is given. -/
def matchService (g : ClusterState) (service pod : Value) : Except Exc Bool := do
  let found ← g.endpoints.findM? (fun e => do
    return (← (← e.2.item "metadata").item "name").Eqv service)
  match found with
  | none => return false
  | some e =>
    let podUid ← podMetadata pod "uid" .none
    if !podUid.truthy then return false
    (← (← e.2.get "subsets" (.dict [])).iter).anyM (fun subset => do
      (← (← subset.get "addresses" (.dict [])).iter).anyM (fun addr => do
        return podUid.Eqv (← (← addr.get "targetRef" (.dict [])).get "uid" .none)))

/-- `globals()[f'does_selector_match__{k}']`. -/
def selectorFn (g : ClusterState) (k : String) : Option (Value → Value → Except Exc Bool) :=
  match k with
  | "matchLabels" => some matchLabels
  | "matchExpressions" => some matchExpressions
  | "matchFields" => some matchFields
  | "matchNamespace" => some matchNamespace
  | "matchService" => some (matchService g)
  | _ => none

def doesSelectorMatch (g : ClusterState) (selector pod : Value) : Except Exc Bool := do
  (← selector.items).foldlM (fun matched e => do
    match selectorFn g e.1 with
    | some fn => if matched then fn e.2 pod else return false
    | none => throw (.permanent ("Selector not supported: " ++ e.1))) true

end L7mp.Operator
