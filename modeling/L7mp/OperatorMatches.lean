import L7mp.OperatorSelector
import Mathlib.Data.List.Forall2

/-! What the selectors of a custom resource ask of a pod, and when their evaluation says whether
the pod has it. -/
namespace L7mp.Operator
open Python

inductive SelectorOperator
  | in_
  | notIn
  | exists_
  | doesNotExist
  deriving DecidableEq, Repr

def SelectorOperator.text : SelectorOperator → String
  | in_ => "In"
  | notIn => "NotIn"
  | exists_ => "Exists"
  | doesNotExist => "DoesNotExist"

/-- An item of `matchExpressions` or `matchFields`. The schema requires none of its fields. -/
structure Expression where
  key : Option String
  operator : SelectorOperator
  values : Option (List String)
  deriving DecidableEq, Repr

/-- A property of a selector. -/
inductive Part
  | matchLabels (labels : List (String × String))
  | matchExpressions (es : List Expression)
  | matchFields (es : List Expression)
  | matchNamespace (ns : String)
  | matchService (service : String)
  deriving DecidableEq, Repr

inductive Requirement
  | label (k v : String)
  | expression (e : Expression)
  | field (e : Expression)
  | inNamespace (ns : String)
  | inService (service : String)
  deriving DecidableEq, Repr

def Part.requirements : Part → List Requirement
  | matchLabels labels => labels.map (fun l => .label l.1 l.2)
  | matchExpressions es => es.map .expression
  | matchFields es => es.map .field
  | matchNamespace ns => [.inNamespace ns]
  | matchService service => [.inService service]

/-- A service as its endpoints object has it: for each subset, what its addresses are. -/
structure Service where
  name : String
  subsets : List (List (Option String))
  deriving DecidableEq, Repr

/-! ### What a requirement means -/
section Meaning

variable (pod : Value)

def labelAt (k : String) : Option Value := pod.at? ["metadata", "labels", k]

def dots (key : String) : List String := (key.toList.splitOn '.').map String.ofList

def fieldAt (key : String) : Option Value := pod.at? (dots key)

/-- An expression asks something of what is found under its key. -/
def Expression.Met (e : Expression) (found : Option Value) : Prop :=
  match e.operator with
  | .in_ => ∃ s ∈ e.values.getD [], found = some (.str s)
  | .notIn => ¬∃ s ∈ e.values.getD [], found = some (.str s)
  | .exists_ => found ≠ none
  | .doesNotExist => found = none

/-- The pod is the target of an address. -/
def Service.Lists (service : Service) : Prop :=
  ∃ uid, uid ≠ "" ∧ pod.at? ["metadata", "uid"] = some (.str uid) ∧
    ∃ addresses ∈ service.subsets, some uid ∈ addresses

/-- The pod belongs to a service of that name. -/
def Belongs (services : List Service) (name : String) : Prop :=
  ∃ service ∈ services, service.name = name ∧ service.Lists pod

/-- The pod belongs to the first service of that name. -/
def BelongsToFirst (services : List Service) (name : String) : Prop :=
  ∃ service, services.find? (fun service => service.name = name) = some service ∧
    service.Lists pod

/-- A label is the expression with `In` and one value, and a namespace is such a field. -/
def Requirement.Met (services : List Service) : Requirement → Prop
  | label k v => Expression.Met ⟨some k, .in_, some [v]⟩ (labelAt pod k)
  | expression e => e.Met (e.key.bind (labelAt pod))
  | field e => e.Met (e.key.bind (fieldAt pod))
  | inNamespace ns =>
    Expression.Met ⟨some "metadata.namespace", .in_, some [ns]⟩ (fieldAt pod "metadata.namespace")
  | inService service => Belongs pod services service

/-- An expression without a key or without values, or with a path through something that is no
object, cannot be evaluated. -/
def Requirement.Stuck : Requirement → Prop
  | expression e => e.key = none ∨ e.values = none
  | field e => e.key = none ∨ e.values = none ∨ ∃ k, e.key = some k ∧ pod.Blocked (dots k)
  | _ => False

/-- A field that is empty or null is taken for missing. A service is looked up by its name in the
operator's own services `own`, whatever state is given, and only the first one counts. -/
def Requirement.Misjudged (own services : List Service) : Requirement → Prop
  | field e => (e.operator = .exists_ ∨ e.operator = .doesNotExist) ∧
    (e.key.bind (fieldAt pod) = some (.dict []) ∨ e.key.bind (fieldAt pod) = some .none)
  | inService service => ¬(BelongsToFirst pod own service ↔ Belongs pod services service)
  | _ => False

end Meaning

/-! ### What the values are -/

/-- The value of an expression; it may have other properties. -/
def Expression.Shown (e : Expression) (v : Value) : Prop :=
  ∃ d, v = .dict d ∧ d.lookup "key" = e.key.map .str ∧
    d.lookup "operator" = some (.str e.operator.text) ∧
    d.lookup "values" = e.values.map (fun values => .list (values.map .str))

def Part.Shown : Part → String × Value → Prop
  | matchLabels labels, e => e = ("matchLabels", .dict (labels.map (fun l => (l.1, .str l.2))))
  | matchExpressions es, e =>
    ∃ l, e = ("matchExpressions", .list l) ∧ List.Forall₂ Expression.Shown es l
  | matchFields es, e => ∃ l, e = ("matchFields", .list l) ∧ List.Forall₂ Expression.Shown es l
  | matchNamespace ns, e => e = ("matchNamespace", .str ns)
  | matchService service, e => e = ("matchService", .str service)

/-- A pod has objects for its metadata and its labels, and strings for labels and its uid. -/
structure IsPod (pod : Value) : Prop where
  isDict : ∃ d, pod = .dict d
  metadata : ∀ v, pod.at? ["metadata"] = some v → ∃ d, v = .dict d
  labels : ∀ v, pod.at? ["metadata", "labels"] = some v → ∃ d, v = .dict d
  label : ∀ k v, labelAt pod k = some v → ∃ s, v = .str s
  uid : ∀ v, pod.at? ["metadata", "uid"] = some v → ∃ s, v = .str s

/-- The value of an address, which may have a target. -/
def AddressShown (uid : Option String) (v : Value) : Prop :=
  ∃ d, v = .dict d ∧ ((d.lookup "targetRef" = none ∧ uid = none) ∨
    ∃ t, d.lookup "targetRef" = some (.dict t) ∧ t.lookup "uid" = uid.map .str)

/-- A property of a value that is missing or a list. -/
def ListShown {α : Type} (shown : α → Value → Prop) (k : String) (l : List α) (v : Value) : Prop :=
  ∃ d, v = .dict d ∧ ((d.lookup k = none ∧ l = []) ∨
    ∃ m, d.lookup k = some (.list m) ∧ List.Forall₂ shown l m)

/-- The value of an endpoints object. -/
def Service.Shown (service : Service) (v : Value) : Prop :=
  (∃ d m, v = .dict d ∧ d.lookup "metadata" = some (.dict m) ∧
    m.lookup "name" = some (.str service.name)) ∧
  ListShown (ListShown AddressShown "addresses") "subsets" service.subsets v

/-- The services of a state. -/
def ServicesOf (services : List Service) (g : ClusterState) : Prop :=
  List.Forall₂ (fun service e => service.Shown e.2) services g.endpoints

/-! ### Comparisons -/

theorem eqv_str {s : String} {v : Value} : (Value.str s).Eqv v ↔ v = .str s := by
  unfold Value.Eqv
  rw [Value.canon]
  cases v with
  | str t =>
    rw [Value.canon, Value.str.injEq, Value.str.injEq]
    exact eq_comm
  | _ =>
    rw [Value.canon]
    constructor
    · intro h
      cases h
    · intro h
      cases h

theorem eqv_empty {v : Value} : v.Eqv (.dict []) ↔ v = .dict [] := by
  have hnil : Value.canon (.dict []) = .dict [] := by rw [Value.canon, Value.canonItems]
  unfold Value.Eqv
  rw [hnil]
  cases v with
  | dict d => rw [Value.canon, Value.dict.injEq, Value.dict.injEq, Value.canonItems_eq_nil]
  | _ => simp [Value.canon]

/-- What an operator asks of a value, where `None` stands for missing. -/
def SelectorOperator.Fits (values : List String) (value : Value) : SelectorOperator → Prop
  | in_ => ∃ s ∈ values, value = .str s
  | notIn => ¬∃ s ∈ values, value = .str s
  | exists_ => value ≠ .none
  | doesNotExist => value = .none

theorem isIn_strings (value : Value) (values : List String) :
    ∃ b, value.isIn (.list (values.map .str)) = .ok b ∧
      (b = true ↔ ∃ s ∈ values, value = .str s) := by
  refine ⟨_, rfl, ?_⟩
  rw [List.any_map, List.any_eq_true]
  constructor
  · rintro ⟨s, hs, heq⟩
    exact ⟨s, hs, eqv_str.mp (of_decide_eq_true heq).symm⟩
  · rintro ⟨s, hs, heq⟩
    exact ⟨s, hs, decide_eq_true (eqv_str.mpr heq).symm⟩

theorem doesOperatorMatch_ok (op : SelectorOperator) (value : Value) (values : List String) :
    ∃ b, doesOperatorMatch value (.str op.text) (.list (values.map .str)) = .ok b ∧
      (b = true ↔ op.Fits values value) := by
  have htext : ∀ s t : String, (Value.str s).Eqv (.str t) ↔ t = s := by
    intro s t
    rw [eqv_str, Value.str.injEq]
  unfold doesOperatorMatch
  simp only [htext]
  obtain ⟨b, hb, hiff⟩ := isIn_strings value values
  cases op with
  | in_ => exact ⟨b, hb, hiff⟩
  | notIn =>
    refine ⟨!b, ?_, ?_⟩
    · rw [hb]
      rfl
    · change (!b) = true ↔ ¬_
      rw [← hiff, Bool.not_eq_true', Bool.not_eq_true]
  | exists_ => exact ⟨_, rfl, decide_eq_true_iff⟩
  | doesNotExist => exact ⟨_, rfl, decide_eq_true_iff⟩

/-! ### The metadata of a pod -/
section Pods

variable {pod : Value}

theorem at?_nil (v : Value) : v.at? [] = some v := by
  cases v <;> rfl

theorem at?_cons (d : List (String × Value)) (k : String) (rest : List String) :
    (Value.dict d).at? (k :: rest) = (d.lookup k).bind (fun u => u.at? rest) := rfl

theorem at?_key (d : List (String × Value)) (k : String) :
    (Value.dict d).at? [k] = d.lookup k := by
  rw [at?_cons]
  cases d.lookup k with
  | none => rfl
  | some u => exact at?_nil u

theorem podMetadata_ok (h : IsPod pod) (k : String) (default : Value) :
    podMetadata pod k default = .ok ((pod.at? ["metadata", k]).getD default) := by
  obtain ⟨d, rfl⟩ := h.isDict
  unfold podMetadata
  rw [at?_cons]
  rcases hmeta : d.lookup "metadata" with _ | v
  · rw [Value.get, hmeta]
    rfl
  · obtain ⟨m, rfl⟩ := h.metadata v (by rw [at?_key, hmeta])
    rw [Value.get, hmeta, Option.bind_some, at?_key]
    rfl

/-- The labels of a pod, which may be missing, are read as a dict. -/
theorem podLabels_ok (h : IsPod pod) : ∃ labels, podMetadata pod "labels" (.dict []) =
    .ok (.dict labels) ∧ ∀ k, labels.lookup k = labelAt pod k := by
  rw [podMetadata_ok h]
  have hlabels := h.labels
  obtain ⟨d, rfl⟩ := h.isDict
  have hpath : ∀ k, labelAt (.dict d) k =
      ((Value.dict d).at? ["metadata", "labels"]).bind (fun u => u.at? [k]) := by
    intro k
    unfold labelAt
    rw [at?_cons, at?_cons]
    rcases hmeta : d.lookup "metadata" with _ | v
    · rfl
    · rw [Option.bind_some, Option.bind_some]
      obtain ⟨m, rfl⟩ := h.metadata v (by rw [at?_key, hmeta])
      rw [at?_cons, at?_cons]
      cases m.lookup "labels" with
      | none => rfl
      | some u => rw [Option.bind_some, Option.bind_some, at?_nil, Option.bind_some]
  rcases hat : (Value.dict d).at? ["metadata", "labels"] with _ | v
  · refine ⟨[], rfl, fun k => ?_⟩
    rw [hpath, hat]
    rfl
  · obtain ⟨labels, rfl⟩ := hlabels v hat
    refine ⟨labels, rfl, fun k => ?_⟩
    rw [hpath, hat, Option.bind_some, at?_key]

end Pods

/-! ### The parts of a selector -/
section Parts

variable {pod : Value} {own services : List Service}

/-- The evaluation of a requirement or of several. -/
abbrev Judged (pod : Value) (own services : List Service) (rs : List Requirement)
    (r : Except Exc Bool) : Prop :=
  Judges (fun r => r.Stuck pod) (fun r => r.Met pod services ↔ ¬r.Misjudged pod own services) rs r

theorem getD_none_eq_str {found : Option Value} {s : String} :
    found.getD .none = .str s ↔ found = some (.str s) := by
  cases found with
  | none => exact ⟨fun h => (by cases h), fun h => (by cases h)⟩
  | some v => rw [Option.getD_some, Option.some.injEq]

theorem judged_matchLabels (h : IsPod pod) (labels : List (String × String)) :
    Judged pod own services (Part.matchLabels labels).requirements
      (matchLabels (.dict (labels.map (fun l => (l.1, .str l.2)))) pod) := by
  obtain ⟨ls, hls, hlookup⟩ := podLabels_ok h
  have hloop : ∀ m, matchLabels (.dict m) pod =
      m.allM (fun e => return e.2.Eqv (← (Value.dict ls).get e.1 .none)) := by
    intro m
    unfold matchLabels
    rw [hls]
    rfl
  rw [hloop]
  apply Judges.allM
  rw [Part.requirements, List.forall₂_map_left_iff, List.forall₂_map_right_iff, List.forall₂_same]
  intro l _
  refine Judges.single (fun hstuck => hstuck) ?_
  have hmet : (Requirement.label l.1 l.2).Met pod services ↔
      labelAt pod l.1 = some (.str l.2) := by
    refine ⟨?_, fun heq => ⟨l.2, List.mem_cons_self, heq⟩⟩
    rintro ⟨s, hs, heq⟩
    rw [List.mem_singleton.mp hs] at heq
    exact heq
  rw [decide_eq_true_iff, eqv_str, hlookup, getD_none_eq_str, hmet]
  exact ⟨fun heq => ⟨fun _ hwrong => hwrong, fun _ => heq⟩, fun hheld => hheld.mpr (fun hw => hw)⟩

/-- The last step for an expression, once its value is known. -/
theorem judged_operator {r : Requirement} {e : Expression} {v value : Value} (hv : e.Shown v)
    (hstuck : r.Stuck pod ↔ e.values = none)
    (hheld : ∀ values, e.values = some values →
      (e.operator.Fits values value ↔ (r.Met pod services ↔ ¬r.Misjudged pod own services))) :
    Judged pod own services [r]
      (do doesOperatorMatch value (← v.item "operator") (← v.item "values")) := by
  obtain ⟨d, rfl, -, hoperator, hvalues⟩ := hv
  have hitem : (Value.dict d).item "operator" = .ok (.str e.operator.text) := by
    rw [Value.item, hoperator]
  rw [hitem]
  rcases hcase : e.values with _ | values
  · have hmissing : (Value.dict d).item "values" = .error (.keyError "values") := by
      rw [Value.item, hvalues, hcase, Option.map_none]
    rw [hmissing]
    exact .stuck (hstuck.mpr hcase)
  · have hitem : (Value.dict d).item "values" = .ok (.list (values.map .str)) := by
      rw [Value.item, hvalues, hcase, Option.map_some]
    rw [hitem]
    obtain ⟨b, hb, hiff⟩ := doesOperatorMatch_ok e.operator value values
    change Judged pod own services [r]
      (doesOperatorMatch value (.str e.operator.text) (.list (values.map .str)))
    rw [hb]
    refine Judges.single (fun hs => ?_) (hiff.trans (hheld values hcase))
    rw [hstuck, hcase] at hs
    cases hs

theorem judged_expression {ls : List (String × Value)} (h : IsPod pod)
    (hls : ∀ k, ls.lookup k = labelAt pod k) {e : Expression} {v : Value} (hv : e.Shown v) :
    Judged pod own services [.expression e] (do
      let value ← (Value.dict ls).getKey (← v.item "key")
      doesOperatorMatch value (← v.item "operator") (← v.item "values")) := by
  obtain ⟨d, hd, hkey, -⟩ := id hv
  rcases hcase : e.key with _ | k
  · have hmissing : v.item "key" = .error (.keyError "key") := by
      rw [hd, Value.item, hkey, hcase, Option.map_none]
    rw [hmissing]
    exact .stuck (.inl hcase)
  · have hitem : v.item "key" = .ok (.str k) := by
      rw [hd, Value.item, hkey, hcase, Option.map_some]
    have hvalue : (Value.dict ls).getKey (.str k) = .ok ((labelAt pod k).getD .none) := by
      rw [Value.getKey, Value.get, hls]
    have hloop : (do
        let value ← (Value.dict ls).getKey (← v.item "key")
        doesOperatorMatch value (← v.item "operator") (← v.item "values")) = (do
        doesOperatorMatch ((labelAt pod k).getD .none) (← v.item "operator")
          (← v.item "values")) := by
      rw [hitem]
      change (do
        let value ← (Value.dict ls).getKey (.str k)
        doesOperatorMatch value (← v.item "operator") (← v.item "values")) = _
      rw [hvalue]
      rfl
    rw [hloop]
    refine judged_operator hv ?_ ?_
    · refine ⟨fun hstuck => hstuck.resolve_left ?_, .inr⟩
      rw [hcase]
      exact Option.some_ne_none k
    · intro values hvalues
      have hmet : (Requirement.expression e).Met pod services ↔
          e.operator.Fits values ((labelAt pod k).getD .none) := by
        change e.Met (e.key.bind (labelAt pod)) ↔ _
        rw [hcase, Option.bind_some]
        unfold Expression.Met SelectorOperator.Fits
        rw [hvalues, Option.getD_some]
        -- a label is a string, if it is there
        have hnone : (labelAt pod k).getD .none = .none ↔ labelAt pod k = none := by
          rcases hlabel : labelAt pod k with _ | u
          · exact ⟨fun _ => rfl, fun _ => rfl⟩
          · obtain ⟨s, rfl⟩ := h.label k u hlabel
            exact ⟨fun heq => (by cases heq), fun heq => (by cases heq)⟩
        cases e.operator with
        | in_ => simp only [getD_none_eq_str]
        | notIn => simp only [getD_none_eq_str]
        | exists_ => exact not_congr hnone.symm
        | doesNotExist => exact hnone.symm
      rw [← hmet]
      exact ⟨fun hm => ⟨fun _ hw => hw, fun _ => hm⟩, fun hheld => hheld.mpr (fun hw => hw)⟩

theorem judged_matchExpressions (h : IsPod pod) {es : List Expression} {l : List Value}
    (hl : List.Forall₂ Expression.Shown es l) :
    Judged pod own services (Part.matchExpressions es).requirements
      (matchExpressions (.list l) pod) := by
  obtain ⟨ls, hls, hlookup⟩ := podLabels_ok h
  have hloop : matchExpressions (.list l) pod = l.allM (fun expr => do
      let value ← (Value.dict ls).getKey (← expr.item "key")
      doesOperatorMatch value (← expr.item "operator") (← expr.item "values")) := by
    unfold matchExpressions
    rw [hls]
    rfl
  rw [hloop]
  apply Judges.allM
  rw [Part.requirements, List.forall₂_map_left_iff]
  exact hl.imp (fun e v hv => judged_expression h hlookup hv)

/-- What `matchFields` takes for the value of a field. -/
def presentValue (found : Option Value) : Value :=
  if (found.getD (.dict [])).Eqv (.dict []) then .none else found.getD (.dict [])

theorem presentValue_eq_none {found : Option Value} : presentValue found = .none ↔
    found = none ∨ found = some (.dict []) ∨ found = some .none := by
  unfold presentValue
  cases found with
  | none => simp [eqv_empty]
  | some v =>
    rw [Option.getD_some]
    by_cases hv : v = .dict []
    · rw [if_pos (eqv_empty.mpr hv), hv]
      simp
    · rw [if_neg (fun h => hv (eqv_empty.mp h))]
      simp [hv]

theorem presentValue_eq_str {found : Option Value} {s : String} :
    presentValue found = .str s ↔ found = some (.str s) := by
  unfold presentValue
  cases found with
  | none => simp [eqv_empty]
  | some v =>
    rw [Option.getD_some]
    by_cases hv : v = .dict []
    · rw [if_pos (eqv_empty.mpr hv), hv]
      simp
    · rw [if_neg (fun h => hv (eqv_empty.mp h)), Option.some.injEq]

/-- An operator judges a field right, unless it asks for presence and the field is empty or
null. -/
theorem fits_presentValue {e : Expression} {values : List String} (hvalues : e.values = some values)
    (found : Option Value) : e.operator.Fits values (presentValue found) ↔
      (e.Met found ↔ ¬((e.operator = .exists_ ∨ e.operator = .doesNotExist) ∧
        (found = some (.dict []) ∨ found = some .none))) := by
  have hempty : found = some (.dict []) → found ≠ none := by
    intro h
    rw [h]
    exact Option.some_ne_none _
  have hnull : found = some .none → found ≠ none := by
    intro h
    rw [h]
    exact Option.some_ne_none _
  unfold Expression.Met SelectorOperator.Fits
  rw [hvalues, Option.getD_some]
  cases e.operator with
  | in_ => simp [presentValue_eq_str]
  | notIn => simp [presentValue_eq_str]
  | exists_ =>
    simp only [ne_eq, presentValue_eq_none]
    tauto
  | doesNotExist =>
    simp only [presentValue_eq_none]
    tauto

theorem judged_field {e : Expression} {v : Value} (hv : e.Shown v) :
    Judged pod own services [.field e] (do
      let value ← (← (← v.item "key").splitDots).foldlM (fun v k => v.get k (.dict [])) pod
      let value := if value.Eqv (.dict []) then .none else value
      doesOperatorMatch value (← v.item "operator") (← v.item "values")) := by
  obtain ⟨d, hd, hkey, -⟩ := id hv
  rcases hcase : e.key with _ | k
  · have hmissing : v.item "key" = .error (.keyError "key") := by
      rw [hd, Value.item, hkey, hcase, Option.map_none]
    rw [hmissing]
    exact .stuck (.inl hcase)
  have hitem : v.item "key" = .ok (.str k) := by
    rw [hd, Value.item, hkey, hcase, Option.map_some]
  rw [hitem]
  change Judged pod own services [.field e] (do
    let value ← (dots k).foldlM (fun v k => v.get k (.dict [])) pod
    let value := if value.Eqv (.dict []) then .none else value
    doesOperatorMatch value (← v.item "operator") (← v.item "values"))
  by_cases hblocked : pod.Blocked (dots k)
  · rw [(Value.foldlM_get (dots k) pod).2 hblocked]
    exact .stuck (.inr (.inr ⟨k, hcase, hblocked⟩))
  rw [(Value.foldlM_get (dots k) pod).1 hblocked]
  change Judged pod own services [.field e] (do
    doesOperatorMatch (presentValue (fieldAt pod k)) (← v.item "operator") (← v.item "values"))
  refine judged_operator hv ?_ ?_
  · constructor
    · rintro (hnone | hvalues | ⟨k', hk', hb⟩)
      · rw [hcase] at hnone
        cases hnone
      · exact hvalues
      · rw [hcase] at hk'
        cases hk'
        exact absurd hb hblocked
    · intro hvalues
      exact .inr (.inl hvalues)
  · intro values hvalues
    have hfound : e.key.bind (fieldAt pod) = fieldAt pod k := by
      rw [hcase, Option.bind_some]
    rw [fits_presentValue hvalues, ← hfound]
    exact Iff.rfl

theorem judged_matchFields {es : List Expression} {l : List Value}
    (hl : List.Forall₂ Expression.Shown es l) :
    Judged pod own services (Part.matchFields es).requirements (matchFields (.list l) pod) := by
  unfold matchFields
  apply Judges.allM
  rw [Part.requirements, List.forall₂_map_left_iff]
  exact hl.imp (fun e v hv => judged_field hv)

theorem judged_matchNamespace (h : IsPod pod) (ns : String) :
    Judged pod own services (Part.matchNamespace ns).requirements
      (matchNamespace (.str ns) pod) := by
  unfold matchNamespace
  rw [podMetadata_ok h]
  refine Judges.single (fun hstuck => hstuck) ?_
  have hpath : fieldAt pod "metadata.namespace" = pod.at? ["metadata", "namespace"] := rfl
  have hmet : (Requirement.inNamespace ns).Met pod services ↔
      pod.at? ["metadata", "namespace"] = some (.str ns) := by
    rw [← hpath]
    refine ⟨?_, fun heq => ⟨ns, List.mem_cons_self, heq⟩⟩
    rintro ⟨s, hs, heq⟩
    rw [List.mem_singleton.mp hs] at heq
    exact heq
  rw [decide_eq_true_iff, eqv_str, getD_none_eq_str, hmet]
  exact ⟨fun heq => ⟨fun _ hwrong => hwrong, fun _ => heq⟩, fun hheld => hheld.mpr (fun hw => hw)⟩

end Parts

/-! ### Services -/
section Services

variable {pod : Value} {own services : List Service} {g : ClusterState}

/-- A loop over a list that may be missing. -/
theorem listShown_any {α : Type} {shown : α → Value → Prop} {P : α → Prop}
    {f : Value → Except Exc Bool} (hf : ∀ a v, shown a v → ∃ c, f v = .ok c ∧ (c = true ↔ P a))
    {k : String} {l : List α} {v : Value} (h : ListShown shown k l v) :
    ∃ c, (do (← (← v.get k (.dict [])).iter).anyM f) = .ok c ∧ (c = true ↔ ∃ a ∈ l, P a) := by
  obtain ⟨d, rfl, ⟨hnone, rfl⟩ | ⟨m, hm, hl⟩⟩ := h
  · rw [Value.get, hnone]
    exact ⟨false, rfl, by simp⟩
  · rw [Value.get, hm]
    exact anyM_ok (hl.imp hf)

theorem address_judged {uid : String} (a : Option String) (v : Value) (h : AddressShown a v) :
    ∃ c, (do return (Value.str uid).Eqv (← (← v.get "targetRef" (.dict [])).get "uid" .none) :
      Except Exc Bool) = .ok c ∧ (c = true ↔ a = some uid) := by
  obtain ⟨d, rfl, ⟨hnone, rfl⟩ | ⟨t, ht, huid⟩⟩ := h
  · refine ⟨decide ((Value.str uid).Eqv .none), ?_, ?_⟩
    · rw [Value.get, hnone]
      rfl
    · rw [decide_eq_true_iff, eqv_str]
      exact ⟨fun heq => (by cases heq), fun heq => (by cases heq)⟩
  · refine ⟨decide ((Value.str uid).Eqv ((a.map Value.str).getD .none)), ?_, ?_⟩
    · rw [Value.get, ht, ← huid]
      rfl
    · rw [decide_eq_true_iff, eqv_str, getD_none_eq_str]
      cases a with
      | none => exact ⟨fun heq => (by cases heq), fun heq => (by cases heq)⟩
      | some s => rw [Option.map_some, Option.some.injEq, Value.str.injEq, Option.some.injEq]

/-- The loops over subsets and addresses find the pod's uid. -/
theorem subsets_judged {uid : String} {subsets : List (List (Option String))} {v : Value}
    (h : ListShown (ListShown AddressShown "addresses") "subsets" subsets v) :
    ∃ c, (do (← (← v.get "subsets" (.dict [])).iter).anyM (fun subset => do
      (← (← subset.get "addresses" (.dict [])).iter).anyM (fun addr => do
        return (Value.str uid).Eqv (← (← addr.get "targetRef" (.dict [])).get "uid" .none)))) =
        (.ok c : Except Exc Bool) ∧
      (c = true ↔ ∃ addresses ∈ subsets, some uid ∈ addresses) := by
  refine listShown_any (fun addresses subset hsubset => ?_) h
  obtain ⟨c, hc, hiff⟩ := listShown_any (@address_judged uid) hsubset
  refine ⟨c, hc, hiff.trans ?_⟩
  rw [exists_eq_right]

/-- The search for the endpoints object of a service. -/
theorem findM?_services (hg : ServicesOf services g) (name : String) :
    (services.find? (fun service => service.name = name) = none ∧
      g.endpoints.findM? (fun e => do
        return (← (← e.2.item "metadata").item "name").Eqv (.str name)) =
        (.ok none : Except Exc _)) ∨
    ∃ service e, services.find? (fun service => service.name = name) = some service ∧
      service.Shown e.2 ∧ g.endpoints.findM? (fun e => do
        return (← (← e.2.item "metadata").item "name").Eqv (.str name)) =
        (.ok (some e) : Except Exc _) := by
  unfold ServicesOf at hg
  generalize g.endpoints = l at hg ⊢
  induction hg with
  | nil => exact .inl ⟨rfl, rfl⟩
  | @cons service e services l hservice _ ih =>
    obtain ⟨d, m, hd, hmeta, hname⟩ := hservice.1
    have hkey : (do return (← (← e.2.item "metadata").item "name").Eqv (.str name)) =
        (.ok (decide ((Value.str service.name).Eqv (.str name))) : Except Exc Bool) := by
      rw [hd, Value.item, hmeta]
      change (do return (← (Value.dict m).item "name").Eqv (.str name) : Except Exc Bool) = _
      rw [Value.item, hname]
      rfl
    rw [List.find?_cons, List.findM?, hkey]
    by_cases heq : service.name = name
    · rw [decide_eq_true heq, decide_eq_true (eqv_str.mpr (congrArg Value.str heq.symm))]
      exact .inr ⟨service, e, rfl, hservice, rfl⟩
    · have hne : ¬(Value.str service.name).Eqv (.str name) := by
        rw [eqv_str, Value.str.injEq]
        exact fun h => heq h.symm
      rw [decide_eq_false heq, decide_eq_false hne]
      exact ih

theorem matchService_ok (h : IsPod pod) (hg : ServicesOf services g) (name : String) :
    ∃ b, matchService g (.str name) pod = .ok b ∧
      (b = true ↔ BelongsToFirst pod services name) := by
  unfold matchService BelongsToFirst
  rcases findM?_services hg name with ⟨hfind, hloop⟩ | ⟨service, e, hfind, hservice, hloop⟩
  · rw [hloop, hfind]
    refine ⟨false, rfl, fun hb => absurd hb Bool.false_ne_true, ?_⟩
    rintro ⟨service, hsome, -⟩
    cases hsome
  rw [hloop, hfind]
  have hlists : (∃ service', some service = some service' ∧ service'.Lists pod) ↔
      service.Lists pod := by
    refine ⟨?_, fun hl => ⟨service, rfl, hl⟩⟩
    rintro ⟨service', heq, hl⟩
    cases heq
    exact hl
  rw [hlists]
  change ∃ b, (do
    let podUid ← podMetadata pod "uid" .none
    if !podUid.truthy then return false
    (← (← e.2.get "subsets" (.dict [])).iter).anyM (fun subset => do
      (← (← subset.get "addresses" (.dict [])).iter).anyM (fun addr => do
        return podUid.Eqv (← (← addr.get "targetRef" (.dict [])).get "uid" .none))) :
      Except Exc Bool) = .ok b ∧ _
  rw [podMetadata_ok h]
  -- a pod without a uid belongs to no service
  have hnone : ∀ v, pod.at? ["metadata", "uid"] = v → (∀ uid, uid ≠ "" → v ≠ some (.str uid)) →
      ¬service.Lists pod := by
    rintro v hv hall ⟨uid, hne, huid, -⟩
    exact hall uid hne (hv.symm.trans huid)
  rcases huid : pod.at? ["metadata", "uid"] with _ | v
  · refine ⟨false, rfl, fun hb => absurd hb Bool.false_ne_true, fun hl => absurd hl ?_⟩
    exact hnone none huid (fun uid _ heq => (by cases heq))
  · obtain ⟨uid, rfl⟩ := h.uid v huid
    by_cases hempty : uid = ""
    · subst hempty
      refine ⟨false, rfl, fun hb => absurd hb Bool.false_ne_true, fun hl => absurd hl ?_⟩
      refine hnone _ huid (fun uid hne heq => hne ?_)
      rw [Option.some.injEq, Value.str.injEq] at heq
      exact heq.symm
    · obtain ⟨c, hc, hiff⟩ := @subsets_judged uid _ _ hservice.2
      refine ⟨c, ?_, ?_⟩
      · have htruthy : (!(Value.str uid).truthy) = false := by
          rw [Value.truthy, decide_eq_true hempty]
          rfl
        change (do
          if !(Value.str uid).truthy then return false
          (← (← e.2.get "subsets" (.dict [])).iter).anyM (fun subset => do
            (← (← subset.get "addresses" (.dict [])).iter).anyM (fun addr => do
              return (Value.str uid).Eqv
                (← (← addr.get "targetRef" (.dict [])).get "uid" .none))) :
            Except Exc Bool) = _
        rw [htruthy]
        exact hc
      · rw [hiff]
        constructor
        · intro hmem
          exact ⟨uid, hempty, huid, hmem⟩
        · rintro ⟨uid', -, huid', hmem⟩
          rw [huid, Option.some.injEq, Value.str.injEq] at huid'
          rw [huid']
          exact hmem

theorem judged_matchService (h : IsPod pod) (hg : ServicesOf own g) (service : String) :
    Judged pod own services (Part.matchService service).requirements
      (matchService g (.str service) pod) := by
  obtain ⟨b, hb, hiff⟩ := matchService_ok h hg service
  rw [hb]
  refine Judges.single (fun hstuck => hstuck) ?_
  rw [hiff]
  change _ ↔ (Belongs pod services service ↔
    ¬¬(BelongsToFirst pod own service ↔ Belongs pod services service))
  tauto

/-! ### Selectors -/

theorem judged_part (h : IsPod pod) (hg : ServicesOf own g) {part : Part} {e : String × Value}
    (he : part.Shown e) : ∃ fn, selectorFn g e.1 = some fn ∧
      Judged pod own services part.requirements (fn e.2 pod) := by
  cases part with
  | matchLabels labels =>
    rw [he]
    exact ⟨matchLabels, rfl, judged_matchLabels h labels⟩
  | matchExpressions es =>
    obtain ⟨l, rfl, hl⟩ := he
    exact ⟨matchExpressions, rfl, judged_matchExpressions h hl⟩
  | matchFields es =>
    obtain ⟨l, rfl, hl⟩ := he
    exact ⟨matchFields, rfl, judged_matchFields hl⟩
  | matchNamespace ns =>
    rw [he]
    exact ⟨matchNamespace, rfl, judged_matchNamespace h ns⟩
  | matchService service =>
    rw [he]
    exact ⟨matchService g, rfl, judged_matchService h hg service⟩

theorem judged_fold (h : IsPod pod) (hg : ServicesOf own g)
    {step : Bool → String × Value → Except Exc Bool}
    (hstep : ∀ matched e fn, selectorFn g e.1 = some fn →
      step matched e = if matched then fn e.2 pod else .ok false)
    {parts : List Part} {d : List (String × Value)} (hd : List.Forall₂ Part.Shown parts d) :
    Judged pod own services (parts.flatMap Part.requirements) (d.foldlM step true) ∧
      d.foldlM step false = .ok false := by
  induction hd with
  | nil => exact ⟨.done, rfl⟩
  | @cons part e parts d he _ ih =>
    obtain ⟨fn, hfn, hjudged⟩ := @judged_part pod own services g h hg _ _ he
    rw [List.foldlM_cons, List.foldlM_cons, hstep true e fn hfn, hstep false e fn hfn,
      List.flatMap_cons]
    refine ⟨?_, ih.2⟩
    change Judged pod own services _ (fn e.2 pod >>= fun matched => d.foldlM step matched)
    rcases hresult : fn e.2 pod with error | _ | _
    · rw [hresult] at hjudged
      exact hjudged.stop (by simp) _
    · rw [hresult] at hjudged
      change Judged pod own services _ (d.foldlM step false)
      rw [ih.2]
      exact hjudged.stop (by simp) _
    · rw [hresult] at hjudged
      exact hjudged.append ih.1

theorem judged_selector (h : IsPod pod) (hg : ServicesOf own g) {parts : List Part}
    {d : List (String × Value)} (hd : List.Forall₂ Part.Shown parts d) :
    Judged pod own services (parts.flatMap Part.requirements)
      (doesSelectorMatch g (.dict d) pod) := by
  unfold doesSelectorMatch
  refine (judged_fold h hg ?_ hd).1
  intro matched e fn hfn
  rw [hfn]
  rfl

/-- Whatever cannot be evaluated is only after something that is refused, and what is judged wrong
does not decide: another requirement fails, or some are wrong in either direction. -/
structure Answerable (pod : Value) (own services : List Service) (rs : List Requirement) :
    Prop where
  reached : ∀ before r after, rs = before ++ r :: after → r.Stuck pod →
    ∃ q ∈ before, ¬(q.Met pod services ↔ ¬q.Misjudged pod own services)
  decided : (∃ r ∈ rs, ¬r.Misjudged pod own services ∧ ¬r.Met pod services) ∨
    (∀ r ∈ rs, ¬r.Misjudged pod own services) ∨
    ((∃ r ∈ rs, r.Misjudged pod own services ∧ r.Met pod services) ∧
      ∃ r ∈ rs, r.Misjudged pod own services ∧ ¬r.Met pod services)

/-- A selector answers whether a pod meets all of its requirements if and only if the requirements
are answerable. The services are those of the state that is given, and `own` those of the
operator's state. -/
theorem doesSelectorMatch_answers_iff (h : IsPod pod) (hg : ServicesOf own g) {parts : List Part}
    {d : List (String × Value)} (hd : List.Forall₂ Part.Shown parts d) :
    (∃ b, doesSelectorMatch g (.dict d) pod = .ok b ∧
      (b = true ↔ ∀ r ∈ parts.flatMap Part.requirements, r.Met pod services)) ↔
    Answerable pod own services (parts.flatMap Part.requirements) := by
  rw [(judged_selector h hg hd).agrees_iff]
  exact ⟨fun ⟨hreached, hdecided⟩ => ⟨hreached, hdecided⟩, fun ha => ⟨ha.reached, ha.decided⟩⟩

end Services

section Examples

def webPod : Value :=
  .dict [("metadata", .dict [("name", .str "p"), ("namespace", .str "default"), ("uid", .str "u1"),
      ("labels", .dict [("app", .str "web")])]),
    ("spec", .dict [("nodeName", .str "n1"), ("securityContext", .dict [])])]

theorem webPod_isPod : IsPod webPod := by
  have hmeta : ∀ k, webPod.at? ["metadata", k] = (Value.dict [("name", .str "p"),
      ("namespace", .str "default"), ("uid", .str "u1"),
      ("labels", .dict [("app", .str "web")])]).at? [k] := fun k => rfl
  refine ⟨⟨_, rfl⟩, fun v hv => ?_, fun v hv => ?_, fun k v hv => ?_, fun v hv => ?_⟩
  · cases hv
    exact ⟨_, rfl⟩
  · cases hv
    exact ⟨_, rfl⟩
  · have hlabel : labelAt webPod k = (Value.dict [("app", .str "web")]).at? [k] := rfl
    rw [hlabel, at?_key] at hv
    have hmem := Dict.mem_of_lookup hv
    rw [List.mem_singleton, Prod.mk.injEq] at hmem
    exact ⟨"web", hmem.2⟩
  · cases hv
    exact ⟨_, rfl⟩

/-- The endpoints object of the service that the pod belongs to. -/
def webState : ClusterState :=
  ⟨[], [(⟨"v1", "Endpoints", "default", "web"⟩, .dict [("metadata", .dict [("name", .str "web")]),
    ("subsets", .list [.dict [("addresses",
      .list [.dict [("targetRef", .dict [("uid", .str "u1")])]])]])])], [], [], []⟩

theorem webState_services : ServicesOf [⟨"web", [[some "u1"]]⟩] webState := by
  refine .cons ⟨⟨_, _, rfl, rfl, rfl⟩, ⟨_, rfl, .inr ⟨_, rfl, ?_⟩⟩⟩ .nil
  exact .cons ⟨_, rfl, .inr ⟨_, rfl, .cons ⟨_, rfl, .inr ⟨_, rfl, rfl⟩⟩ .nil⟩⟩ .nil

def webParts : List Part :=
  [.matchLabels [("app", "web")], .matchFields [⟨some "spec.nodeName", .in_, some ["n1"]⟩],
    .matchNamespace "default", .matchService "web"]

/-- A label, a field, the namespace and the service of a pod are answered for. -/
theorem doesSelectorMatch_answers_iff_web :
    ∃ b, doesSelectorMatch webState (.dict [("matchLabels", .dict [("app", .str "web")]),
      ("matchFields", .list [.dict [("key", .str "spec.nodeName"), ("operator", .str "In"),
        ("values", .list [.str "n1"])]]), ("matchNamespace", .str "default"),
      ("matchService", .str "web")]) webPod = .ok b ∧
      (b = true ↔ ∀ r ∈ webParts.flatMap Part.requirements,
        r.Met webPod [⟨"web", [[some "u1"]]⟩]) := by
  have hshown : List.Forall₂ Part.Shown webParts [("matchLabels", .dict [("app", .str "web")]),
      ("matchFields", .list [.dict [("key", .str "spec.nodeName"), ("operator", .str "In"),
        ("values", .list [.str "n1"])]]), ("matchNamespace", .str "default"),
      ("matchService", .str "web")] :=
    .cons rfl (.cons ⟨_, rfl, .cons ⟨_, rfl, rfl, rfl, rfl⟩ .nil⟩ (.cons rfl (.cons rfl .nil)))
  apply (doesSelectorMatch_answers_iff webPod_isPod webState_services hshown).mpr
  have hlists : Service.Lists webPod ⟨"web", [[some "u1"]]⟩ :=
    ⟨"u1", by decide, rfl, _, List.mem_cons_self, List.mem_cons_self⟩
  refine ⟨fun before r after hsplit hstuck => ?_, .inr (.inl ?_)⟩
  · have hfree : ∀ r ∈ webParts.flatMap Part.requirements, ¬r.Stuck webPod := by
      refine List.forall_mem_cons.mpr ⟨fun h => h, List.forall_mem_cons.mpr ⟨?_,
        List.forall_mem_cons.mpr ⟨fun h => h, List.forall_mem_cons.mpr ⟨fun h => h,
          fun r hr => absurd hr List.not_mem_nil⟩⟩⟩⟩
      rintro (hkey | hvalues | ⟨k, hk, hblocked⟩)
      · cases hkey
      · cases hvalues
      · cases hk
        change webPod.Blocked ["spec", "nodeName"] at hblocked
        obtain ⟨u, hu, hblocked⟩ := hblocked
        cases hu
        obtain ⟨w, hw, hblocked⟩ := hblocked
        cases hw
        exact hblocked
    have hr : r ∈ webParts.flatMap Part.requirements := by
      rw [hsplit]
      exact List.mem_append_right before List.mem_cons_self
    exact absurd hstuck (hfree r hr)
  · refine List.forall_mem_cons.mpr ⟨fun h => h, List.forall_mem_cons.mpr ⟨?_,
      List.forall_mem_cons.mpr ⟨fun h => h, List.forall_mem_cons.mpr ⟨?_,
        fun r hr => absurd hr List.not_mem_nil⟩⟩⟩⟩
    · rintro ⟨hoperator | hoperator, -⟩
      · cases hoperator
      · cases hoperator
    · intro hwrong
      exact hwrong ⟨fun _ => ⟨_, List.mem_cons_self, rfl, hlists⟩, fun _ => ⟨_, rfl, hlists⟩⟩

end Examples

/-- A label is there, but the selector that asks for it raises since it has no values; and a field
that is there is refused since its object is empty. -/
theorem exists_needs_values :
    let byLabel : Expression := ⟨some "app", .exists_, none⟩
    let byField : Expression := ⟨some "spec.securityContext", .exists_, some []⟩
    (Requirement.expression byLabel).Met webPod [] ∧
    doesSelectorMatch webState (.dict [("matchExpressions", .list [.dict [("key", .str "app"),
      ("operator", .str "Exists")]])]) webPod = .error (.keyError "values") ∧
    (Requirement.field byField).Met webPod [] ∧
    doesSelectorMatch webState (.dict [("matchFields", .list [.dict [
      ("key", .str "spec.securityContext"), ("operator", .str "Exists"),
      ("values", .list [])]])]) webPod = .ok false := by
  refine ⟨fun hnone => ?_, by decide +kernel, fun hnone => ?_, by decide +kernel⟩
  · have hfound : labelAt webPod "app" = some (.str "web") := rfl
    exact absurd (hfound.symm.trans hnone) (Option.some_ne_none _)
  · have hfound : fieldAt webPod "spec.securityContext" = some (.dict []) := rfl
    exact absurd (hfound.symm.trans hnone) (Option.some_ne_none _)

end L7mp.Operator
