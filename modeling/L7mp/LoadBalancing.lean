import L7mp.KeyedList
import L7mp.RulePath

/-! The load balancers of a cluster: the ring that is made of its endpoints at every change, and
the endpoint that is chosen for a session. -/
namespace L7mp
open Js

namespace LoadBalancing

inductive Policy
  | trivial
  | hashRing
  | consistentHash
  deriving DecidableEq, Repr

structure LoadBalancerSpec where
  policy : Policy
  key : Option String
  deriving DecidableEq, Repr

/-- The endpoint of a request; the address is the property name that the address stands for. -/
structure EndPointSpec where
  name : Option String
  address : String
  weight : Option Number
  deriving DecidableEq, Repr

/-- An endpoint object; `id` tells the objects of a cluster apart. -/
structure EndPoint where
  id : ℕ
  name : String
  address : String
  weight : Number
  deriving DecidableEq, Repr

/-- What is kept in `keys` for an address. -/
structure Entry where
  weight : Number
  endpoint : EndPoint
  deriving DecidableEq, Repr

inductive LoadBalancer
  | trivial (es : List EndPoint)
  | hashRing (key : Option String) (keys : List (String × Entry))
  deriving DecidableEq, Repr

inductive ApplyError
  | notFound
  | typeError
  deriving DecidableEq, Repr

structure Cluster where
  name : String
  loadbalancer : LoadBalancer
  endpoints : List EndPoint
  created : ℕ
  deriving DecidableEq, Repr

/-- What is outside of the program: the text of a number, the text of something that a value has
without an assignment, the node that the hashring package finds for a text among weighted nodes,
and the text of a random number. -/
structure Library where
  engine : Engine
  numberText : Number → String
  inheritedText : Value → String → Option String
  ring : List (String × Number) → String → String
  random : String

section Text

variable (numberText : Number → String)

mutual

/-- `toString` of a value. Nothing that is parsed can be called, so that a property `toString` of
its own leaves a value without a text, and a property `join` leaves an array the text of an
object. -/
def keyText : Value → Option String
  | .null => none
  | .bool b => some (if b then "true" else "false")
  | .num x => some (numberText x)
  | .str s => some s
  | .node isArray fields =>
    if (fields.lookup "toString").isSome then none
    else if !isArray then some "[object Object]"
    else if (fields.lookup "join").isSome then some "[object Array]"
    else
      let texts := fieldTexts fields
      ((List.range (Value.arrayLength (Value.wireFields fields))).mapM
        (fun i => (texts.lookup (toString i)).getD (some ""))).map (String.intercalate ",")

/-- The texts that `join` takes for the elements; null is empty. -/
def fieldTexts : List (String × Value) → List (String × Option String)
  | [] => []
  | (k, .null) :: rest => (k, some "") :: fieldTexts rest
  | (k, v) :: rest => (k, keyText v) :: fieldTexts rest

end

end Text

/-- `toString` of the value can be called: it is not null, nothing hides the method that it has,
and the same holds of the elements of an array other than null. -/
inductive Printable : Value → Prop
  | bool (b : Bool) : Printable (.bool b)
  | num (x : Number) : Printable (.num x)
  | str (s : String) : Printable (.str s)
  | object {fields : List (String × Value)} : fields.lookup "toString" = none →
    Printable (.node false fields)
  | joinless {fields : List (String × Value)} : fields.lookup "toString" = none →
    (fields.lookup "join").isSome = true → Printable (.node true fields)
  | array {fields : List (String × Value)} : fields.lookup "toString" = none →
    (∀ i < Value.arrayLength (Value.wireFields fields), ∀ u, fields.lookup (toString i) = some u →
      u ≠ .null → Printable u) → Printable (.node true fields)

namespace EndPoint

def create (cluster : String) (id index : ℕ) (e : EndPointSpec) : EndPoint :=
  ⟨id, (e.name.filter (· ≠ "")).getD (cluster ++ "-EndPoint-" ++ toString index), e.address,
    (e.weight.filter (· ≠ .finite 0)).getD (.finite 1)⟩

def entry (e : EndPoint) : Entry := ⟨e.weight, e⟩

end EndPoint

/-- `this.keys[e.spec.address] = ..`, which sets the prototype for one name. -/
def setKey (keys : List (String × Entry)) (e : EndPoint) : List (String × Entry) :=
  if e.address = "__proto__" then keys else setField e.address e.entry keys

namespace LoadBalancer

def create (l : LoadBalancerSpec) : LoadBalancer :=
  match l.policy with
  | .trivial => .trivial []
  | .hashRing => .hashRing (l.key.filter (· ≠ "")) []
  | .consistentHash => .hashRing (l.key.filter (· ≠ "")) []

def update (es : List EndPoint) : LoadBalancer → LoadBalancer
  | .trivial _ => .trivial es
  | .hashRing key _ => .hashRing key (es.foldl setKey [])

end LoadBalancer

section Choice

variable (L : Library)

/-- The text that is hashed, or none where asking for it throws a TypeError. -/
def hashText (metadata : Value) : Option String → Option String
  | none => some L.random
  | some path => match Rule.getAtPath L.engine metadata path with
    | .ok none => some L.random
    | .ok (some v) => keyText L.numberText v
    | .error .typeError => none
    | .error .beyond => L.inheritedText metadata path

def LoadBalancer.apply (metadata : Value) : LoadBalancer → Except ApplyError EndPoint
  | .trivial [] => .error .notFound
  | .trivial (e :: _) => .ok e
  | .hashRing key keys =>
    if keys = [] then .error .notFound
    else match hashText L metadata key with
      | none => .error .typeError
      | some text =>
        match keys.lookup (L.ring (keys.map (fun k => (k.1, k.2.weight))) text) with
        | none => .error .typeError
        | some found => .ok found.endpoint

end Choice

namespace Cluster

def create (name : String) (l : Option LoadBalancerSpec) : Cluster :=
  ⟨name, .create (l.getD ⟨.trivial, none⟩), [], 0⟩

/-- `index` is the count of endpoints that were named so far, in all clusters. -/
def addEndPoint (index : ℕ) (e : EndPointSpec) (c : Cluster) : Cluster :=
  let es := c.endpoints ++ [EndPoint.create c.name c.created index e]
  { c with endpoints := es, loadbalancer := c.loadbalancer.update es, created := c.created + 1 }

def deleteEndPoint (n : String) (c : Cluster) : Cluster :=
  if (KeyedList.lookup EndPoint.name n c.endpoints).isSome then
    let es := KeyedList.remove EndPoint.name n c.endpoints
    { c with endpoints := es, loadbalancer := c.loadbalancer.update es }
  else c

end Cluster

inductive Change
  | addEndPoint (index : ℕ) (e : EndPointSpec)
  | deleteEndPoint (n : String)
  deriving DecidableEq, Repr

def Cluster.change (c : Cluster) : Change → Cluster
  | .addEndPoint index e => c.addEndPoint index e
  | .deleteEndPoint n => c.deleteEndPoint n

def run (name : String) (l : Option LoadBalancerSpec) (changes : List Change) : Cluster :=
  changes.foldl Cluster.change (.create name l)

/-! ### Texts -/

section Text

variable {numberText : Number → String}

theorem isSome_mapM {α β : Type} {f : α → Option β} {l : List α} :
    (l.mapM f).isSome = true ↔ ∀ a ∈ l, (f a).isSome = true := by
  induction l with
  | nil => simp
  | cons a rest ih =>
    rw [List.mapM_cons, List.forall_mem_cons, ← ih]
    cases f a with
    | none => simp
    | some b => cases rest.mapM f <;> simp

/-- The text that `join` takes for an element. -/
def elementText (numberText : Number → String) : Value → Option String
  | .null => some ""
  | v => keyText numberText v

theorem lookup_fieldTexts (k : String) (fields : List (String × Value)) :
    (fieldTexts numberText fields).lookup k =
      (fields.lookup k).map (elementText numberText) := by
  induction fields with
  | nil => rw [fieldTexts, List.lookup_nil, List.lookup_nil, Option.map_none]
  | cons f rest ih =>
    obtain ⟨k', v⟩ := f
    have hcons : fieldTexts numberText ((k', v) :: rest) =
        (k', elementText numberText v) :: fieldTexts numberText rest := by
      cases v <;> rw [fieldTexts, elementText]
      all_goals intro h; cases h
    rw [hcons, List.lookup_cons, List.lookup_cons, ih]
    cases k == k' <;> rfl

mutual

theorem isSome_keyText : ∀ v, (keyText numberText v).isSome = true ↔ Printable v
  | .null => by
    rw [keyText]
    exact ⟨fun h => absurd h Bool.false_ne_true, fun h => by cases h⟩
  | .bool b => by
    rw [keyText]
    exact ⟨fun _ => .bool b, fun _ => rfl⟩
  | .num x => by
    rw [keyText]
    exact ⟨fun _ => .num x, fun _ => rfl⟩
  | .str s => by
    rw [keyText]
    exact ⟨fun _ => .str s, fun _ => rfl⟩
  | .node false fields => by
    rw [keyText]
    by_cases hown : (fields.lookup "toString").isSome = true
    · rw [if_pos hown]
      refine ⟨fun h => absurd h Bool.false_ne_true, fun h => ?_⟩
      cases h with
      | object hnone =>
        rw [hnone] at hown
        exact hown
    · rw [if_neg hown]
      exact ⟨fun _ => .object (Option.not_isSome_iff_eq_none.mp hown), fun _ => rfl⟩
  | .node true fields => by
    have hfields := isSome_lookup fields
    rw [keyText]
    by_cases hown : (fields.lookup "toString").isSome = true
    · rw [if_pos hown]
      refine ⟨fun h => absurd h Bool.false_ne_true, fun h => ?_⟩
      have hsome : fields.lookup "toString" ≠ none := Option.isSome_iff_ne_none.mp hown
      cases h with
      | joinless hnone => exact absurd hnone hsome
      | array hnone => exact absurd hnone hsome
    rw [if_neg hown, if_neg (by decide)]
    have hnone := Option.not_isSome_iff_eq_none.mp hown
    by_cases hjoin : (fields.lookup "join").isSome = true
    · rw [if_pos hjoin]
      exact ⟨fun _ => .joinless hnone hjoin, fun _ => rfl⟩
    · rw [if_neg hjoin, Option.isSome_map, isSome_mapM]
      -- an element has a text unless it is null, which is joined as nothing
      have helement : ∀ i : ℕ, ((((fieldTexts numberText fields).lookup (toString i)).getD
          (some "")).isSome = true ↔
            ∀ u, fields.lookup (toString i) = some u → u ≠ .null → Printable u) := by
        intro i
        rw [lookup_fieldTexts]
        rcases hu : fields.lookup (toString i) with _ | u
        · exact ⟨fun _ u hu => (by cases hu), fun _ => rfl⟩
        · rw [Option.map_some, Option.getD_some]
          have htext := hfields _ _ hu
          cases u with
          | null => exact ⟨fun _ u hu hne => absurd (Option.some.inj hu).symm hne, fun _ => rfl⟩
          | _ =>
            rw [elementText, htext]
            · refine ⟨fun h u hu _ => Option.some.inj hu ▸ h, fun h => h _ rfl ?_⟩
              intro hnull
              cases hnull
            · intro hnull
              cases hnull
      constructor
      · intro h
        apply Printable.array hnone
        intro i hi
        exact (helement i).mp (h i (List.mem_range.mpr hi))
      · intro h i hi
        rw [helement]
        cases h with
        | joinless _ hj => exact absurd hj hjoin
        | array _ hall => exact hall i (List.mem_range.mp hi)

theorem isSome_lookup : ∀ (fields : List (String × Value)) (k : String) (u : Value),
    fields.lookup k = some u → ((keyText numberText u).isSome = true ↔ Printable u)
  | [], _, _, h => by cases h
  | (k', v) :: rest, k, u, h => by
    rw [List.lookup_cons] at h
    have hv := isSome_keyText v
    have hrest := isSome_lookup rest k u
    split at h
    · cases h
      exact hv
    · exact hrest h

end

end Text

/-! ### The ring and its endpoints -/

section Ring

variable {L : Library} {es : List EndPoint}

/-- The hashring package finds one of the nodes that it was given. -/
def ReturnsKey (L : Library) : Prop :=
  ∀ keys text, keys ≠ [] → L.ring keys text ∈ keys.map Prod.fst

/-- What is kept for an address is the last endpoint that has it. -/
theorem lookup_keys (es : List EndPoint) (a : String) :
    (es.foldl setKey []).lookup a =
      if a = "__proto__" then none
      else (es.reverse.find? (fun e => e.address = a)).map EndPoint.entry := by
  induction es using List.reverseRecOn with
  | nil =>
    rw [List.foldl_nil, List.lookup_nil, List.reverse_nil, List.find?_nil, Option.map_none,
      ite_self]
  | append_singleton es e ih =>
    rw [List.foldl_append, List.foldl_cons, List.foldl_nil, setKey, List.reverse_append,
      List.reverse_singleton, List.singleton_append, List.find?_cons]
    by_cases ha : e.address = a
    · subst ha
      rw [decide_eq_true rfl]
      by_cases hproto : e.address = "__proto__"
      · rw [if_pos hproto, ih, if_pos hproto, if_pos hproto]
      · rw [if_neg hproto, if_neg hproto, lookup_setField]
        rfl
    · rw [decide_eq_false ha]
      by_cases hproto : e.address = "__proto__"
      · rw [if_pos hproto, ih]
      · rw [if_neg hproto, lookup_setField_ne (fun heq => ha heq.symm), ih]

/-- Every endpoint is kept for its address if and only if no two of them share one, and none has
the name of the prototype for an address. -/
theorem lookup_keys_iff (hnodup : es.Nodup) :
    (∀ e ∈ es, (es.foldl setKey []).lookup e.address = some e.entry) ↔
      (es.map EndPoint.address).Nodup ∧ ∀ e ∈ es, e.address ≠ "__proto__" := by
  constructor
  · intro h
    refine ⟨?_, ?_⟩
    · refine List.Nodup.map_on (fun e he e' he' haddress => ?_) hnodup
      have hentry : some e.entry = some e'.entry := by
        rw [← h e he, ← h e' he', haddress]
      exact congrArg Entry.endpoint (Option.some.inj hentry)
    · intro e he hproto
      have hnone := h e he
      rw [lookup_keys, if_pos hproto] at hnone
      cases hnone
  · rintro ⟨hdistinct, hproto⟩ e he
    rw [lookup_keys, if_neg (hproto e he)]
    rcases hfind : es.reverse.find? (fun e' => e'.address = e.address) with _ | e'
    · have hne := List.find?_eq_none.mp hfind e (List.mem_reverse.mpr he)
      exact absurd (decide_eq_true rfl) hne
    · have hmem : e' ∈ es := List.mem_reverse.mp (List.mem_of_find?_eq_some hfind)
      have hsame := List.find?_some hfind
      have haddress : e'.address = e.address := of_decide_eq_true hsame
      have heq : e' = e := List.inj_on_of_nodup_map hdistinct hmem he haddress
      rw [hfind, Option.map_some, heq]

theorem keys_ne_nil {e : EndPoint} (he : e ∈ es) (hproto : e.address ≠ "__proto__") :
    es.foldl setKey [] ≠ [] := by
  intro hnil
  have hlookup := lookup_keys es e.address
  rw [hnil, List.lookup_nil, if_neg hproto] at hlookup
  have hfind := Option.map_eq_none_iff.mp hlookup.symm
  have hne := List.find?_eq_none.mp hfind e (List.mem_reverse.mpr he)
  exact absurd (decide_eq_true rfl) hne

theorem exists_lookup {α : Type} {k : String} {fields : List (String × α)}
    (h : k ∈ fields.map Prod.fst) : ∃ v, fields.lookup k = some v := by
  induction fields with
  | nil => cases h
  | cons f rest ih =>
    obtain ⟨k', v⟩ := f
    rw [List.lookup_cons]
    cases hk : k == k' with
    | true => exact ⟨v, rfl⟩
    | false =>
      apply ih
      rw [List.map_cons, List.mem_cons] at h
      exact h.resolve_left (ne_of_beq_false hk)

/-- The ring leads back to an endpoint of the list. -/
theorem apply_hashRing (hring : ReturnsKey L) {metadata : Value} {key : Option String}
    {text : String} (hkeys : es.foldl setKey [] ≠ [])
    (htext : hashText L metadata key = some text) :
    ∃ e ∈ es, (LoadBalancer.hashRing key (es.foldl setKey [])).apply L metadata = .ok e := by
  rw [LoadBalancer.apply, if_neg hkeys, htext]
  set keys := es.foldl setKey [] with hset
  have hnode := hring (keys.map (fun k => (k.1, k.2.weight))) text
    (fun hnil => hkeys (List.map_eq_nil_iff.mp hnil))
  rw [List.map_map] at hnode
  obtain ⟨found, hfound⟩ := exists_lookup hnode
  have hkept := hfound
  rw [hset, lookup_keys] at hkept
  split at hkept
  · cases hkept
  obtain ⟨e, he, hentry⟩ := Option.map_eq_some_iff.mp hkept
  refine ⟨e, List.mem_reverse.mp (List.mem_of_find?_eq_some he), ?_⟩
  dsimp only
  rw [hfound, ← hentry]
  rfl

/-- What is found at the key path can be hashed: it has a text, or it is missing, or there is no
key path. -/
def Hashable (L : Library) (metadata : Value) (key : Option String) : Prop :=
  ∀ path, key = some path →
    (∀ v, Rule.getAtPath L.engine metadata path = .ok (some v) → Printable v) ∧
    (Rule.getAtPath L.engine metadata path = .error .beyond →
      (L.inheritedText metadata path).isSome = true)

/-- Reading stops at what is not truthy, so that null is asked for nothing. -/
theorem getLoop_ne_typeError {E : Engine} (locs : List String) (d : Value) (result : Option Value) :
    Rule.getLoop E d result locs ≠ .error .typeError := by
  induction locs generalizing d result with
  | nil =>
    rw [Rule.getLoop]
    intro h
    cases h
  | cons loc rest ih =>
    rw [Rule.getLoop]
    by_cases hgo : (d.truthy && decide (loc ≠ "")) = true
    · rw [if_pos hgo]
      have htruthy : d.truthy = true := (Bool.and_eq_true_iff.mp hgo).1
      have hget : Rule.get E d loc ≠ .error .typeError := by
        unfold Rule.get
        split
        · cases htruthy
        · split
          · intro h; cases h
          · split <;> (intro h; cases h)
      split
      · rename_i e he
        rw [he] at hget
        intro h
        exact hget h
      · intro h; cases h
      · exact ih _ _
    · rw [if_neg hgo]
      intro h; cases h

theorem isSome_hashText (metadata : Value) (key : Option String) :
    (hashText L metadata key).isSome = true ↔ Hashable L metadata key := by
  cases key with
  | none => exact ⟨fun _ path h => (by cases h), fun _ => rfl⟩
  | some path =>
    have hcases : Hashable L metadata (some path) ↔
        (∀ v, Rule.getAtPath L.engine metadata path = .ok (some v) → Printable v) ∧
        (Rule.getAtPath L.engine metadata path = .error .beyond →
          (L.inheritedText metadata path).isSome = true) :=
      ⟨fun h => h path rfl, fun h path' heq => Option.some.inj heq ▸ h⟩
    have hne : Rule.getAtPath L.engine metadata path ≠ .error .typeError := by
      unfold Rule.getAtPath
      dsimp only
      split
      · intro h; cases h
      · exact getLoop_ne_typeError _ _ _
    rw [hcases, hashText]
    rcases hfound : Rule.getAtPath L.engine metadata path with (_ | _) | _ | v
    · exact absurd hfound hne
    · exact ⟨fun h => ⟨fun v hv => (by cases hv), fun _ => h⟩, fun h => h.2 rfl⟩
    · exact ⟨fun _ => ⟨fun v hv => (by cases hv), fun hb => (by cases hb)⟩, fun _ => rfl⟩
    · rw [isSome_keyText]
      refine ⟨fun h => ⟨fun v hv => ?_, fun hb => (by cases hb)⟩, fun h => h.1 v rfl⟩
      cases hv
      exact h

end Ring

/-! ### Runs -/

/-- The choice for a session: one of the endpoints, or an error that nothing is found if and only
if there is none. -/
structure Chooses (L : Library) (metadata : Value) (c : Cluster) : Prop where
  notFound : c.loadbalancer.apply L metadata = .error .notFound ↔ c.endpoints = []
  noOther : ∀ error, c.loadbalancer.apply L metadata = .error error → error = .notFound
  current : ∀ e, c.loadbalancer.apply L metadata = .ok e → e ∈ c.endpoints

/-- Every endpoint is in the ring, with its own weight, and the ring leads to it. -/
def Registered (c : Cluster) : Prop :=
  ∀ key keys, c.loadbalancer = .hashRing key keys →
    ∀ e ∈ c.endpoints, keys.lookup e.address = some ⟨e.weight, e⟩

/-- The load balancer is the one that its endpoints make, which are different objects. -/
structure InStep (l : LoadBalancerSpec) (c : Cluster) : Prop where
  loadbalancer : c.loadbalancer = (LoadBalancer.create l).update c.endpoints
  distinct : KeyedList.Distinct EndPoint.id c.endpoints
  below : ∀ e ∈ c.endpoints, e.id < c.created

section Runs

variable {L : Library} {l : LoadBalancerSpec} {c : Cluster}

theorem update_update (lb : LoadBalancer) (es es' : List EndPoint) :
    (lb.update es).update es' = lb.update es' := by
  cases lb <;> rfl

theorem create_cases (l : LoadBalancerSpec) :
    (l.policy = .trivial ∧ LoadBalancer.create l = .trivial []) ∨
    (l.policy ≠ .trivial ∧ LoadBalancer.create l = .hashRing (l.key.filter (· ≠ "")) []) := by
  unfold LoadBalancer.create
  rcases hpolicy : l.policy
  · exact .inl ⟨rfl, rfl⟩
  · exact .inr ⟨by decide, rfl⟩
  · exact .inr ⟨by decide, rfl⟩

theorem inStep_create (name : String) (l : Option LoadBalancerSpec) :
    InStep (l.getD ⟨.trivial, none⟩) (.create name l) := by
  refine ⟨?_, List.nodup_nil, fun e he => absurd he List.not_mem_nil⟩
  change LoadBalancer.create _ = (LoadBalancer.create _).update []
  rcases create_cases (l.getD ⟨.trivial, none⟩) with ⟨-, hcreate⟩ | ⟨-, hcreate⟩
  · rw [hcreate, LoadBalancer.update]
  · rw [hcreate, LoadBalancer.update, List.foldl_nil]

theorem InStep.change (h : InStep l c) (x : Change) : InStep l (c.change x) := by
  cases x with
  | addEndPoint index e =>
    refine ⟨?_, ?_, ?_⟩
    · change c.loadbalancer.update _ = _
      rw [h.loadbalancer, update_update]
      rfl
    · -- the new object has the count of objects for its identity
      apply h.distinct.push
      rw [KeyedList.lookup_eq_none]
      intro e' he' heq
      have hlt : e'.id < c.created := h.below e' he'
      exact absurd heq (Nat.ne_of_lt hlt)
    · intro e' he'
      rcases List.mem_append.mp he' with hold | hnew
      · exact Nat.lt_succ_of_lt (h.below e' hold)
      · rw [List.mem_singleton.mp hnew]
        exact Nat.lt_succ_self c.created
  | deleteEndPoint n =>
    rw [Cluster.change, Cluster.deleteEndPoint]
    split
    · have hsub : ∀ e ∈ KeyedList.remove EndPoint.name n c.endpoints, e ∈ c.endpoints :=
        fun e he => List.mem_of_mem_eraseP he
      refine ⟨?_, ?_, fun e he => h.below e (hsub e he)⟩
      · change c.loadbalancer.update _ = _
        rw [h.loadbalancer, update_update]
      · exact h.distinct.sublist (List.eraseP_sublist.map EndPoint.id)
    · exact h

/-- List and load balancer never go out of step. -/
theorem inStep_run (name : String) (l : Option LoadBalancerSpec) (changes : List Change) :
    InStep (l.getD ⟨.trivial, none⟩) (run name l changes) :=
  List.foldlRecOn changes Cluster.change (inStep_create name l) (fun _ h x _ => h.change x)

/-- When a cluster serves a session well: it takes the first endpoint, or it has none, or its
addresses are different and make keys, and what is found at the key path can be hashed. -/
def Servable (L : Library) (metadata : Value) (l : LoadBalancerSpec) (es : List EndPoint) : Prop :=
  l.policy = .trivial ∨ es = [] ∨
    ((es.map EndPoint.address).Nodup ∧ (∀ e ∈ es, e.address ≠ "__proto__") ∧
      Hashable L metadata (l.key.filter (· ≠ "")))

theorem chooses_none {metadata : Value} (hes : c.endpoints = [])
    (happly : c.loadbalancer.apply L metadata = .error .notFound) : Chooses L metadata c := by
  refine ⟨⟨fun _ => hes, fun _ => happly⟩, fun error herror => ?_, fun e he => ?_⟩
  · rw [happly] at herror
    exact (Except.error.inj herror).symm
  · rw [happly] at he
    cases he

theorem chooses_some {metadata : Value} {e : EndPoint} (he : e ∈ c.endpoints)
    (happly : c.loadbalancer.apply L metadata = .ok e) : Chooses L metadata c := by
  refine ⟨⟨fun herror => ?_, fun hnil => ?_⟩, fun error herror => ?_, fun e' he' => ?_⟩
  · rw [happly] at herror
    cases herror
  · rw [hnil] at he
    cases he
  · rw [happly] at herror
    cases herror
  · rw [happly] at he'
    cases he'
    exact he

theorem chooses_trivial {es : List EndPoint} (metadata : Value)
    (hlb : c.loadbalancer = .trivial es) (hes : c.endpoints = es) : Chooses L metadata c := by
  rcases es with _ | ⟨e, rest⟩
  · have happly : c.loadbalancer.apply L metadata = .error .notFound := by
      rw [hlb, LoadBalancer.apply]
    exact chooses_none hes happly
  · have happly : c.loadbalancer.apply L metadata = .ok e := by
      rw [hlb, LoadBalancer.apply]
    exact chooses_some (by rw [hes]; exact List.mem_cons_self) happly

/-- Both halves for a hash cluster with an endpoint. -/
theorem serves_hashRing (hring : ReturnsKey L) {metadata : Value} {key : Option String}
    (h : KeyedList.Distinct EndPoint.id c.endpoints) (hne : c.endpoints ≠ [])
    (hlb : c.loadbalancer = .hashRing key (c.endpoints.foldl setKey [])) :
    Chooses L metadata c ∧ Registered c ↔ (c.endpoints.map EndPoint.address).Nodup ∧
      (∀ e ∈ c.endpoints, e.address ≠ "__proto__") ∧ Hashable L metadata key := by
  have hregistered : Registered c ↔ (c.endpoints.map EndPoint.address).Nodup ∧
      ∀ e ∈ c.endpoints, e.address ≠ "__proto__" := by
    rw [← lookup_keys_iff (List.Nodup.of_map _ h)]
    constructor
    · intro hreg
      exact hreg _ _ hlb
    · intro hreg key' keys' heq
      rw [hlb, LoadBalancer.hashRing.injEq] at heq
      rw [← heq.2]
      exact hreg
  obtain ⟨e, he⟩ := List.exists_mem_of_ne_nil _ hne
  constructor
  · rintro ⟨hchoose, hreg⟩
    obtain ⟨hdistinct, hproto⟩ := hregistered.mp hreg
    refine ⟨hdistinct, hproto, ?_⟩
    rw [← isSome_hashText, Option.isSome_iff_ne_none]
    intro hnone
    -- the TypeError is an error of its own
    have happly : c.loadbalancer.apply L metadata = .error .typeError := by
      rw [hlb, LoadBalancer.apply, if_neg (keys_ne_nil he (hproto e he)), hnone]
    have herror := hchoose.noOther _ happly
    cases herror
  · rintro ⟨hdistinct, hproto, hhash⟩
    refine ⟨?_, hregistered.mpr ⟨hdistinct, hproto⟩⟩
    rw [← isSome_hashText] at hhash
    obtain ⟨text, htext⟩ := Option.isSome_iff_exists.mp hhash
    obtain ⟨e', he', happly⟩ := apply_hashRing hring (keys_ne_nil he (hproto e he)) htext
    rw [← hlb] at happly
    exact chooses_some he' happly

/-- A cluster whose load balancer is in step serves a session if and only if it is servable. -/
theorem InStep.serves (h : InStep l c) (hring : ReturnsKey L) (metadata : Value) :
    Chooses L metadata c ∧ Registered c ↔ Servable L metadata l c.endpoints := by
  rcases create_cases l with ⟨hpolicy, hcreate⟩ | ⟨hpolicy, hcreate⟩
  · have hlb : c.loadbalancer = .trivial c.endpoints := by
      rw [h.loadbalancer, hcreate]
      rfl
    refine ⟨fun _ => .inl hpolicy, fun _ => ⟨chooses_trivial metadata hlb rfl, ?_⟩⟩
    intro key keys heq
    rw [hlb] at heq
    cases heq
  have hlb : c.loadbalancer =
      .hashRing (l.key.filter (· ≠ "")) (c.endpoints.foldl setKey []) := by
    rw [h.loadbalancer, hcreate]
    rfl
  by_cases hne : c.endpoints = []
  · refine ⟨fun _ => .inr (.inl hne), fun _ => ⟨chooses_none hne ?_, ?_⟩⟩
    · rw [hlb, hne, List.foldl_nil, LoadBalancer.apply, if_pos rfl]
    · intro key keys heq e he
      rw [hne] at he
      cases he
  · rw [serves_hashRing hring h.distinct hne hlb]
    constructor
    · intro hall
      exact .inr (.inr hall)
    · rintro (htrivial | hnil | hall)
      · exact absurd htrivial hpolicy
      · exact absurd hnil hne
      · exact hall

/-- After every run, a cluster serves a session if and only if it takes the first endpoint, or has
none, or the addresses of its endpoints are different and make keys, and what the session has at
the key path can be hashed. -/
theorem serves_iff {L : Library} (hring : ReturnsKey L) (name : String)
    (l : Option LoadBalancerSpec) (changes : List Change) (metadata : Value) :
    Chooses L metadata (run name l changes) ∧ Registered (run name l changes) ↔
      Servable L metadata (l.getD ⟨.trivial, none⟩) (run name l changes).endpoints :=
  (inStep_run name l changes).serves hring metadata

/-- A library for a ring with one node. -/
def plainLibrary : Library :=
  ⟨⟨fun _ k => k = "__proto__" || k = "toString", fun n => toString n⟩, fun _ => "0",
    fun _ _ => none, fun keys _ => (keys.map Prod.fst).headD "", "7"⟩

theorem plainLibrary_returnsKey : ReturnsKey plainLibrary := by
  intro keys text hne
  obtain ⟨k, rest, hcons⟩ := List.exists_cons_of_ne_nil hne
  rw [hcons]
  exact List.mem_cons_self

def hashRingByUser : LoadBalancerSpec := ⟨.hashRing, some "/user"⟩

/-- One endpoint is left of two at different addresses, and a session has a name for a key. -/
theorem serves_iff_deleted :
    let changes := [.addEndPoint 0 ⟨none, "10.0.0.1", some (.finite 2)⟩,
      .addEndPoint 1 ⟨some "b", "10.0.0.2", none⟩, .deleteEndPoint "b"]
    let metadata : Value := .node false [("user", .str "u1")]
    Chooses plainLibrary metadata (run "c" (some hashRingByUser) changes) ∧
      Registered (run "c" (some hashRingByUser) changes) := by
  intro changes metadata
  apply (serves_iff plainLibrary_returnsKey "c" (some hashRingByUser) changes metadata).mpr
  refine .inr (.inr ⟨by decide, by decide, ?_⟩)
  intro path hpath
  have hfound : Rule.getAtPath plainLibrary.engine metadata "/user" = .ok (some (.str "u1")) := rfl
  have hkey : path = "/user" := (Option.some.inj hpath).symm
  subst hkey
  rw [hfound]
  refine ⟨fun v hv => ?_, fun hbeyond => ?_⟩
  · rw [Except.ok.injEq, Option.some.injEq] at hv
    rw [← hv]
    exact .str "u1"
  · cases hbeyond

/-- Two endpoints share an address, so that the ring leads to the second only; and null at the key
path is a TypeError. -/
theorem shared_address_hides_endpoint :
    let changes := [.addEndPoint 0 ⟨some "a", "10.0.0.1", some (.finite 2)⟩,
      .addEndPoint 0 ⟨some "b", "10.0.0.1", none⟩]
    let c := run "c" (some hashRingByUser) changes
    c.loadbalancer.apply plainLibrary (.node false [("user", .null)]) = .error .typeError ∧
      ¬Registered c := by
  intro changes c
  refine ⟨rfl, fun hreg => ?_⟩
  have hlb : c.loadbalancer = .hashRing (some "/user")
      [("10.0.0.1", ⟨.finite 1, ⟨1, "b", "10.0.0.1", .finite 1⟩⟩)] := by decide
  have hlookup := hreg _ _ hlb ⟨0, "a", "10.0.0.1", .finite 2⟩ (by decide)
  rw [List.lookup_cons_self] at hlookup
  cases hlookup

/-- Every endpoint comes with an address that no other one has at the time, and that makes a key. -/
def Fresh (name : String) (l : Option LoadBalancerSpec) (changes : List Change) : Prop :=
  ∀ before index e after, changes = before ++ .addEndPoint index e :: after →
    e.address ≠ "__proto__" ∧ e.address ∉ (run name l before).endpoints.map EndPoint.address

theorem run_fresh {name : String} {l : Option LoadBalancerSpec} {changes : List Change}
    (h : Fresh name l changes) :
    ((run name l changes).endpoints.map EndPoint.address).Nodup ∧
      ∀ e ∈ (run name l changes).endpoints, e.address ≠ "__proto__" := by
  induction changes using List.reverseRecOn with
  | nil => exact ⟨List.nodup_nil, fun e he => absurd he List.not_mem_nil⟩
  | append_singleton changes x ih =>
    have hrun : run name l (changes ++ [x]) = (run name l changes).change x := by
      rw [run, List.foldl_append]
      rfl
    obtain ⟨hnodup, hproto⟩ := ih (fun before index e after heq =>
      h before index e (after ++ [x]) (by rw [heq, List.append_assoc, List.cons_append]))
    rw [hrun]
    cases x with
    | addEndPoint index e =>
      obtain ⟨hkey, hnew⟩ := h changes index e [] rfl
      refine ⟨?_, fun e' he' => ?_⟩
      · change ((_ ++ [_]).map EndPoint.address).Nodup
        rw [List.map_append]
        apply List.Nodup.append hnodup (List.nodup_singleton _)
        rw [List.disjoint_singleton]
        exact hnew
      · rcases List.mem_append.mp he' with hold | hlast
        · exact hproto e' hold
        · rw [List.mem_singleton.mp hlast]
          exact hkey
    | deleteEndPoint n =>
      rw [Cluster.change, Cluster.deleteEndPoint]
      split
      · exact ⟨hnodup.sublist (List.eraseP_sublist.map EndPoint.address),
          fun e he => hproto e (List.mem_of_mem_eraseP he)⟩
      · exact ⟨hnodup, hproto⟩

/-- A run in which no endpoint takes an address that is in use serves every session whose key can
be hashed. -/
theorem serves_of_fresh {L : Library} (hring : ReturnsKey L) {name : String}
    {l : Option LoadBalancerSpec} {changes : List Change} (h : Fresh name l changes)
    {metadata : Value}
    (hhash : Hashable L metadata ((l.getD ⟨.trivial, none⟩).key.filter (· ≠ ""))) :
    Chooses L metadata (run name l changes) ∧ Registered (run name l changes) := by
  obtain ⟨hnodup, hproto⟩ := run_fresh h
  apply ((inStep_run name l changes).serves hring metadata).mpr
  exact .inr (.inr ⟨hnodup, hproto, hhash⟩)

end Runs

end LoadBalancing
end L7mp
