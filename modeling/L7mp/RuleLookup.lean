import L7mp.Chasing
import L7mp.RulePath
import L7mp.StoreNames

/-! `Session.lookup`, which follows the rules of rulelists, and what `Session.create` makes of the
action that it finds. -/
namespace L7mp
open Js Relation

/-- `rule.match`. -/
inductive Match
  | wildcard
  | jsonPredicate (m : Value)
  deriving Repr

/-- A string is no predicate. -/
def Match.create : Value → Match
  | .str _ => .wildcard
  | m => .jsonPredicate m

/-- An element of `action.rewrite`. -/
structure Rewrite where
  path : String
  value : Value

/-- What a rule object was created with, apart from its name and its route. -/
structure RuleBody where
  match_ : Option Value
  apply : Option Value
  rewrite : Option (List Rewrite)

/-- `Match.create(r.match || "*")`. -/
def RuleBody.matcher (b : RuleBody) : Match :=
  Match.create ((b.match_.filter Value.truthy).getD (.str "*"))

/-- The rulelist that `action.apply` names, if it is a string that is not empty. -/
def RuleBody.target (b : RuleBody) : Option String :=
  match b.apply with
  | some (.str n) => if n = "" then none else some n
  | _ => none

/-- `total_applied` of the rule objects. -/
abbrev Counters := ℕ → ℕ

def Counters.bump (id : ℕ) (c : Counters) : Counters := fun j => if j = id then c j + 1 else c j

/-- The errors of `create`. -/
inductive CreateError
  | err (e : Err)
  | access (e : AccessError)
  deriving DecidableEq, Repr

namespace Lookup

/-- The rules of a store with what is in them, and a session; `test` is `jsonPredicate.test`. -/
structure Context where
  store : Store
  body : ℕ → RuleBody
  test : Value → Value → Bool
  metadata : Value

variable (x : Context)

/-- `match.apply(s)`. -/
def applies : Match → Bool
  | .wildcard => true
  | .jsonPredicate m => x.test x.metadata m

/-- The rule matches the session. -/
def accepts (ru : Rule) : Bool := applies x (x.body ru.id).matcher

def unknownRuleList (n : String) : Err := .notFound ("Cannot find RuleList \"" ++ n ++ "\"")

def unknownRule (n list : String) : Err :=
  .notFound ("Cannot find named rule \"" ++ n ++ "\" in RuleList \"" ++ list ++ "\"")

/-- The loop over the rules of a rulelist, as far as the first match. -/
def loop (list : String) : List String → Counters → Except Err (Option Rule) × Counters
  | [], c => (.ok none, c)
  | n :: rest, c => match x.store.getRule n with
    | none => (.error (unknownRule n list), c)
    | some ru => if accepts x ru then (.ok (some ru), c.bump ru.id) else loop list rest c

/-- `lookup`, as far as the fuel goes: the rule whose action it returns, if it finds one. -/
def lookup : ℕ → String → Counters → Option (Except Err (Option Rule) × Counters)
  | 0, _, _ => none
  | fuel+1, n, c => match x.store.getRuleList n with
    | none => some (.error (unknownRuleList n), c)
    | some rl => match loop x rl.name rl.rules c with
      | (.ok (some ru), c) => match (x.body ru.id).target with
        | some next => lookup fuel next c
        | none => some (.ok (some ru), c)
      | (r, c) => some (r, c)

/-- The rewrites of an action, with the metadata as they leave it. -/
def rewriteAll (E : Engine) : Value → List Rewrite → Except AccessError Unit × Value
  | data, [] => (.ok (), data)
  | data, r :: rest => match Rule.setAtPath E data r.path r.value with
    | .error e => (.error e, data)
    | .ok data => rewriteAll E data rest

/-- The route of an action; an inline one that was not resolved is found under no name. -/
def findRoute (name : String) : RuleRoute → Except Err Route
  | .absent => .error (.notFound ("Invalid route for session \"" ++ name ++ "\""))
  | .unresolved => .error (.notFound
      ("Cannot find Route \"[object Object]\" for session \"" ++ name ++ "\""))
  | .named n => match x.store.getRoute n with
    | some r => .ok r
    | none => .error (.notFound
        ("Cannot find Route \"" ++ n ++ "\" for session \"" ++ name ++ "\""))

/-- What a session has after `create`. -/
structure Created where
  route : Except CreateError Route
  metadata : Value
  counters : Counters

/-- `create` of the session with a name and an origin. -/
def create (E : Engine) (fuel : ℕ) (name origin : String) (c : Counters) : Option Created :=
  match x.store.getListener origin with
  | none => some ⟨.error (.err (.notFound ("Cannot find listener " ++ origin))), x.metadata, c⟩
  | some source => (lookup x fuel source.rules c).map (fun found => match found with
    | (.error e, c) => ⟨.error (.err e), x.metadata, c⟩
    | (.ok none, c) =>
      ⟨.error (.err (.notFound ("No route for session \"" ++ name ++ "\""))), x.metadata, c⟩
    | (.ok (some ru), c) => match rewriteAll E x.metadata ((x.body ru.id).rewrite.getD []) with
      | (.error e, metadata) => ⟨.error (.access e), metadata, c⟩
      | (.ok _, metadata) => ⟨(findRoute x name ru.route).mapError .err, metadata, c⟩)

/-! ### The first match -/

/-- Rules that are there and do not match. -/
def Passed (names : List String) : Prop :=
  ∀ k ∈ names, ∃ ru, x.store.getRule k = some ru ∧ accepts x ru = false

/-- The first rule of a list that matches. -/
structure First (names : List String) (ru : Rule) : Prop where
  split : ∃ pre k post, names = pre ++ k :: post ∧ Passed x pre ∧ x.store.getRule k = some ru
  accepted : accepts x ru = true

/-- The first rule of a list that is not there, before any that matches. -/
def Dangles (names : List String) (k : String) : Prop :=
  ∃ pre post, names = pre ++ k :: post ∧ Passed x pre ∧ x.store.getRule k = none

/-- The lookup goes on from one rulelist to another. -/
def Applies (n m : String) : Prop :=
  ∃ rl ru, x.store.getRuleList n = some rl ∧ First x rl.rules ru ∧ (x.body ru.id).target = some m

/-- What a lookup should give, with the rules that match on its way. -/
inductive Selects : String → List Rule → Except Err (Option Rule) → Prop
  | noRuleList {n : String} (h : x.store.getRuleList n = none) :
      Selects n [] (.error (unknownRuleList n))
  | noRule {n k : String} {rl : RuleList} (h : x.store.getRuleList n = some rl)
      (hk : Dangles x rl.rules k) : Selects n [] (.error (unknownRule k rl.name))
  | noMatch {n : String} {rl : RuleList} (h : x.store.getRuleList n = some rl)
      (hpassed : Passed x rl.rules) : Selects n [] (.ok none)
  | found {n : String} {rl : RuleList} {ru : Rule} (h : x.store.getRuleList n = some rl)
      (hfirst : First x rl.rules ru) (hfinal : (x.body ru.id).target = none) :
      Selects n [ru] (.ok (some ru))
  | applied {n m : String} {rl : RuleList} {ru : Rule} {path : List Rule}
      {out : Except Err (Option Rule)} (h : x.store.getRuleList n = some rl)
      (hfirst : First x rl.rules ru) (hnext : (x.body ru.id).target = some m)
      (hrest : Selects m path out) : Selects n (ru :: path) out

variable {x} {n list : String} {names : List String} {ru : Rule} {c : Counters}

theorem Passed.cons {k : String} (hk : x.store.getRule k = some ru) (hru : accepts x ru = false)
    (h : Passed x names) : Passed x (k :: names) := by
  intro j hj
  rcases List.mem_cons.mp hj with rfl | hj
  · exact ⟨ru, hk, hru⟩
  · exact h j hj

/-- The loop skips what does not match. -/
theorem loop_append {pre : List String} (h : Passed x pre) (rest : List String) (c : Counters) :
    loop x list (pre ++ rest) c = loop x list rest c := by
  induction pre with
  | nil => rfl
  | cons k pre ih =>
    obtain ⟨ru, hru, hno⟩ := h k List.mem_cons_self
    rw [List.cons_append, loop, hru]
    dsimp only
    rw [if_neg (by rw [hno]; decide), ih (fun j hj => h j (List.mem_cons_of_mem k hj))]

theorem First.loop (h : First x names ru) (list : String) (c : Counters) :
    loop x list names c = (.ok (some ru), c.bump ru.id) := by
  obtain ⟨pre, k, post, rfl, hpre, hk⟩ := h.split
  rw [loop_append hpre, Lookup.loop, hk]
  exact if_pos h.accepted

theorem Dangles.loop {k : String} (h : Dangles x names k) (list : String) (c : Counters) :
    loop x list names c = (.error (unknownRule k list), c) := by
  obtain ⟨pre, post, rfl, hpre, hk⟩ := h
  rw [loop_append hpre, Lookup.loop, hk]

theorem Passed.loop (h : Passed x names) (list : String) (c : Counters) :
    loop x list names c = (.ok none, c) := by
  rw [← List.append_nil names, loop_append h, Lookup.loop]

/-- A list passes, or it has a first rule that matches or is not there. -/
theorem passed_or (x : Context) (names : List String) :
    Passed x names ∨ (∃ k, Dangles x names k) ∨ ∃ ru, First x names ru := by
  induction names with
  | nil => exact Or.inl (fun k hk => absurd hk List.not_mem_nil)
  | cons k names ih =>
    cases hk : x.store.getRule k with
    | none =>
      exact Or.inr (Or.inl ⟨k, [], names, rfl, fun j hj => absurd hj List.not_mem_nil, hk⟩)
    | some ru =>
      by_cases hru : accepts x ru = true
      · exact Or.inr (Or.inr ⟨ru, ⟨[], k, names, rfl, fun j hj => absurd hj List.not_mem_nil, hk⟩,
          hru⟩)
      · rw [Bool.not_eq_true] at hru
        rcases ih with hpassed | ⟨j, pre, post, rfl, hpre, hj⟩ |
          ⟨ru', ⟨pre, j, post, rfl, hpre, hj⟩, hacc⟩
        · exact Or.inl (hpassed.cons hk hru)
        · exact Or.inr (Or.inl ⟨j, k :: pre, post, rfl, hpre.cons hk hru, hj⟩)
        · exact Or.inr (Or.inr ⟨ru', ⟨k :: pre, j, post, rfl, hpre.cons hk hru, hj⟩, hacc⟩)

/-! ### When it ends -/

/-- A lookup goes on where the first match says. -/
theorem lookup_applies {rl : RuleList} {m : String} (h : x.store.getRuleList n = some rl)
    (hfirst : First x rl.rules ru) (hnext : (x.body ru.id).target = some m) (fuel : ℕ)
    (c : Counters) : lookup x (fuel+1) n c = lookup x fuel m (c.bump ru.id) := by
  rw [lookup, h]
  dsimp only
  rw [hfirst.loop]
  dsimp only
  rw [hnext]

theorem ends_of_lookup {fuel : ℕ} {n : String} {c : Counters} (h : lookup x fuel n c ≠ none) :
    Chasing.Ends (Applies x) n := by
  induction fuel generalizing n c with
  | zero => exact absurd rfl h
  | succ fuel ih =>
    refine Acc.intro n ?_
    rintro m ⟨rl, ru, hrl, hfirst, hnext⟩
    rw [lookup_applies hrl hfirst hnext] at h
    exact ih h

/-- Where the chain of rulelists ends, the lookup selects something, and no more fuel changes it. -/
theorem selects_of_ends {n : String} (h : Chasing.Ends (Applies x) n) (c : Counters) :
    ∃ path out least, Selects x n path out ∧ ∀ fuel, least ≤ fuel →
      lookup x fuel n c = some (out, path.foldl (fun c ru => c.bump ru.id) c) := by
  induction h generalizing c with
  | intro n _ ih =>
    have hsucc : ∀ {r : Except Err (Option Rule) × Counters}, (∀ fuel,
        lookup x (fuel+1) n c = some r) → ∀ fuel, 1 ≤ fuel → lookup x fuel n c = some r := by
      intro r hr fuel hfuel
      obtain ⟨k, rfl⟩ := Nat.exists_eq_add_of_le' hfuel
      exact hr k
    cases hrl : x.store.getRuleList n with
    | none =>
      refine ⟨[], _, 1, .noRuleList hrl, hsucc (fun fuel => ?_)⟩
      rw [lookup, hrl]
      rfl
    | some rl =>
      rcases passed_or x rl.rules with hpassed | ⟨k, hk⟩ | ⟨ru, hfirst⟩
      · refine ⟨[], _, 1, .noMatch hrl hpassed, hsucc (fun fuel => ?_)⟩
        rw [lookup, hrl]
        dsimp only
        rw [hpassed.loop]
        rfl
      · refine ⟨[], _, 1, .noRule hrl hk, hsucc (fun fuel => ?_)⟩
        rw [lookup, hrl]
        dsimp only
        rw [hk.loop]
        rfl
      · cases hnext : (x.body ru.id).target with
        | none =>
          refine ⟨[ru], _, 1, .found hrl hfirst hnext, hsucc (fun fuel => ?_)⟩
          rw [lookup, hrl]
          dsimp only
          rw [hfirst.loop]
          dsimp only
          rw [hnext]
          rfl
        | some m =>
          obtain ⟨path, out, least, hsel, hout⟩ :=
            ih m ⟨rl, ru, hrl, hfirst, hnext⟩ (c.bump ru.id)
          refine ⟨ru :: path, out, least+1, .applied hrl hfirst hnext hsel, ?_⟩
          intro fuel hfuel
          obtain ⟨k, rfl⟩ := Nat.exists_eq_add_of_le' hfuel
          rw [← Nat.add_assoc, lookup_applies hrl hfirst hnext, hout _ (Nat.le_add_left _ _)]
          rfl

/-- Only rulelists refer to rulelists. -/
theorem finite_sources (x : Context) (n : String) : (Chasing.sources (Applies x) n).Finite := by
  refine Set.Finite.subset (List.finite_toSet (x.store.rulelists.map RuleList.name)) ?_
  rintro m ⟨-, -, rl, -, hrl, -⟩
  obtain ⟨hmem, rfl⟩ := KeyedList.lookup_some hrl
  exact List.mem_map_of_mem hmem

/-- The lookup of a session comes to an end if and only if no rulelist that it reaches leads back to
itself. -/
theorem terminates_iff (x : Context) (n : String) (c : Counters) :
    (∃ fuel, lookup x fuel n c ≠ none) ↔
      ∀ m, ReflTransGen (Applies x) n m → ¬TransGen (Applies x) m m := by
  rw [← Chasing.ends_iff (finite_sources x n)]
  constructor
  · rintro ⟨fuel, h⟩
    exact ends_of_lookup h
  · intro h
    obtain ⟨path, out, least, -, hout⟩ := selects_of_ends h c
    exact ⟨least, by rw [hout least (Nat.le_refl least)]; nofun⟩

/-- A rule, and a rulelist that has it. -/
def selfReference : List (Coroutine.Event Call (Option Err)) :=
  [.call ⟨World.noAnswers, .addRule ⟨.plain, some "r", .ok none⟩⟩,
    .call ⟨World.noAnswers, .addRuleList ⟨.plain, some "l", .ok [.named "r"]⟩⟩, .resume 0 none]

/-- The API lets a rule apply the rulelist that it is in. -/
theorem applied_to_itself : ¬∀ w, GuardedRun.Run World.step GuardedRun.always World.start w →
    ∀ (body : ℕ → RuleBody) (test : Value → Value → Bool) (metadata : Value) (n : String)
      (c : Counters), ∃ fuel, lookup ⟨w.state, body, test, metadata⟩ fuel n c ≠ none := by
  intro h
  obtain ⟨w, hw⟩ : ∃ w, GuardedRun.exec World.step GuardedRun.always World.start selfReference =
    some w := ⟨_, rfl⟩
  let body : RuleBody := ⟨none, some (.str "l"), none⟩
  obtain ⟨fuel, hfuel⟩ := h w (GuardedRun.exec_run _ _ _ hw) (fun _ => body) (fun _ _ => false)
    .empty "l" (fun _ => 0)
  have hcycle : Applies ⟨w.state, fun _ => body, fun _ _ => false, .empty⟩ "l" "l" := by
    cases hw
    refine ⟨_, _, rfl, ⟨⟨[], "r", [], rfl, fun k hk => absurd hk List.not_mem_nil, rfl⟩, rfl⟩, rfl⟩
  exact (ends_of_lookup hfuel).not_cycle (TransGen.single hcycle)

end Lookup
end L7mp
