import L7mp.Clearing
import L7mp.StoreOrderly

/-! Which objects of the configuration refer to which, what is reached along these references,
and the configuration without some of its objects. -/
namespace L7mp
open Clearing KeyedList

/-- A name in one of the collections. -/
inductive Node
  | listener (n : String)
  | rulelist (n : String)
  | rule (n : String)
  | route (n : String)
  | cluster (n : String)
  | endpoint (n : String)
  deriving DecidableEq, Repr

/-- References lead from each rank to the next lower one. -/
@[simp] def Node.rank : Node → ℕ
  | listener _ => 5
  | rulelist _ => 4
  | rule _ => 3
  | route _ => 2
  | cluster _ => 1
  | endpoint _ => 0

namespace Config

variable (c : Config)

/-- An object of the first name refers to the second one. -/
def Refers : Node → Node → Prop
  | .listener n, .rulelist m => ∃ l ∈ c.listeners, l.name = n ∧ l.rules = m
  | .rulelist n, .rule m => ∃ rl ∈ c.rulelists, rl.name = n ∧ m ∈ rl.rules
  | .rule n, .route m => ∃ r ∈ c.rules, r.name = n ∧ r.route = .named m
  | .route n, .cluster m =>
    ∃ r ∈ c.routes, r.name = n ∧ m ∈ r.destination :: (r.ingress ++ r.egress)
  | .cluster n, .endpoint m => ∃ cl ∈ c.clusters, cl.name = n ∧ m ∈ cl.endpoints.map EndPoint.name
  | _, _ => False

/-- An object of the name is there and was generated; an endpoint goes with its cluster. -/
def Implicit : Node → Prop
  | .listener _ => False
  | .rulelist n => ∃ rl ∈ c.rulelists, rl.name = n ∧ rl.autogenerated = true
  | .rule n => ∃ r ∈ c.rules, r.name = n ∧ r.autogenerated = true
  | .route n => ∃ r ∈ c.routes, r.name = n ∧ r.autogenerated = true
  | .cluster n => ∃ cl ∈ c.clusters, cl.name = n ∧ cl.autogenerated = true
  | .endpoint n => ∃ e ∈ c.endpoints, e.name = n

/-- What the delete functions go on to: they take every rule that is there for a generated one. -/
def Followed : Node → Prop
  | .rule n => ∃ r ∈ c.rules, r.name = n
  | a => c.Implicit a

section Reached

variable (P : Node → Prop)

/-- A reference to an object of the kind `P`. -/
def Next (a b : Node) : Prop := c.Refers a b ∧ P b

/-- The object, and those of the kind `P` that are reached from it through such objects. -/
def reached (a : Node) : Set Node := reach (c.Next P) a

/-- The same for what a name refers to: nothing, unless it is of the kind `P`. -/
def taken (a : Node) : Set Node := {b | P a ∧ b ∈ c.reached P a}

end Reached

open scoped Classical in
/-- The objects of a collection that are not in `S`. -/
noncomputable def outside {α : Type} (node : α → Node) (S : Set Node) (l : List α) : List α :=
  l.filter (fun a => node a ∉ S)

/-- All objects of `S` are gone, and no other one has changed. -/
noncomputable def without (S : Set Node) : Config where
  listeners := outside (fun l => .listener l.name) S c.listeners
  clusters := outside (fun cl => .cluster cl.name) S c.clusters
  rulelists := outside (fun rl => .rulelist rl.name) S c.rulelists
  rules := outside (fun r => .rule r.name) S c.rules
  routes := outside (fun r => .route r.name) S c.routes
  endpoints := outside (fun e => .endpoint e.name) S c.endpoints

section Outside

variable {α : Type} {node : α → Node} {S T : Set Node} {l : List α} {a : α}

theorem mem_outside : a ∈ outside node S l ↔ a ∈ l ∧ node a ∉ S := by
  unfold outside
  simp

theorem outside_congr (h : ∀ a ∈ l, node a ∈ S ↔ node a ∈ T) :
    outside node S l = outside node T l := by
  unfold outside
  apply List.filter_congr
  intro a ha
  simp [h a ha]

theorem outside_empty : outside node ∅ l = l := by
  unfold outside
  simp

/-- A collection that none of the objects belongs to. -/
theorem outside_union (h : ∀ a ∈ l, node a ∉ T) : outside node (S ∪ T) l = outside node S l := by
  apply outside_congr
  intro a ha
  exact or_iff_left (h a ha)

/-- A collection above all of the objects. -/
theorem outside_of_rank {k : ℕ} (hS : ∀ b ∈ S, b.rank ≤ k) (hl : ∀ a ∈ l, k < (node a).rank) :
    outside node S l = l := by
  have hempty : outside node (∅ ∪ S) l = outside node ∅ l := by
    apply outside_union
    intro a ha hmem
    have hlow := hS _ hmem
    have hhigh := hl a ha
    omega
  rwa [Set.empty_union, outside_empty] at hempty

variable {key : α → String}

theorem Distinct.outside (h : Distinct key l) (S : Set Node) : Distinct key (outside node S l) :=
  h.filter _

/-- An object is found as long as it is not gone. -/
theorem lookup_outside (h : Distinct key l) {n : String} :
    lookup key n (outside node S l) = some a ↔ a ∈ l ∧ node a ∉ S ∧ key a = n := by
  constructor
  · intro ha
    obtain ⟨hmem, hkey⟩ := lookup_some ha
    obtain ⟨hmem, hnot⟩ := mem_outside.mp hmem
    exact ⟨hmem, hnot, hkey⟩
  · rintro ⟨hmem, hnot, hkey⟩
    rw [← hkey]
    exact (Distinct.outside h S).lookup (mem_outside.mpr ⟨hmem, hnot⟩)

/-- Removing some keys from what is left. -/
theorem filter_outside {p : α → Bool} (hT : ∀ a ∈ l, node a ∈ T ↔ p a = false) :
    (outside node S l).filter p = outside node (S ∪ T) l := by
  unfold outside
  rw [List.filter_filter]
  apply List.filter_congr
  intro a ha
  have hT := hT a ha
  by_cases hS : node a ∈ S
  · simp [hS]
  · rcases hp : p a with _ | _
    · simp [hT.mpr hp]
    · have hnot : node a ∉ T := fun h => by
        rw [hT.mp h] at hp
        cases hp
      simp [hS, hnot]

theorem remove_outside (h : Distinct key l) {n : String} (hT : ∀ a ∈ l, node a ∈ T ↔ key a = n) :
    remove key n (outside node S l) = outside node (S ∪ T) l := by
  rw [(Distinct.outside h S).remove_eq_filter]
  apply filter_outside
  intro a ha
  simp [hT a ha]

end Outside

section Facts

variable {c : Config} {P Q : Node → Prop} {a b : Node}

theorem without_empty : c.without ∅ = c := by
  unfold without
  simp only [outside_empty]

theorem self_mem_reached : a ∈ c.reached P a := self_mem_reach a

theorem closed_taken (a : Node) : Closed (c.Next P) (c.taken P a) :=
  fun _ _ hbc hb => ⟨hb.1, closed_reach a _ _ hbc hb.2⟩

theorem closed_reached (a : Node) : Closed (c.Next P) (c.reached P a) := closed_reach a

/-- What is reached from an object is the object and what its references take. -/
theorem reached_eq (a : Node) :
    c.reached P a = {b | ∃ m, c.Refers a m ∧ b ∈ c.taken P m} ∪ {a} := by
  ext b
  unfold reached
  rw [mem_reach, or_comm]
  simp only [Next, taken, reached, and_assoc, Set.mem_union, Set.mem_ofPred_eq,
    Set.mem_singleton_iff]

theorem taken_eq_empty (h : ¬P a) : c.taken P a = ∅ := by
  apply Set.eq_empty_of_forall_notMem
  intro b hb
  exact h hb.1

theorem taken_eq_reached (h : P a) : c.taken P a = c.reached P a := by
  ext b
  exact and_iff_right h

/-- What is gone took all that it leads to with it. -/
theorem taken_subset {S : Set Node} (hS : Closed (c.Next P) S) (ha : a ∈ S) :
    c.taken P a ⊆ S := fun _ hb => reach_subset hS ha hb.2

theorem taken_subset_reached (h : c.Refers a b) : c.taken P b ⊆ c.reached P a := by
  intro d hd
  rw [reached_eq]
  exact Or.inl ⟨b, h, hd⟩

theorem of_reached (h : b ∈ c.reached P a) : b = a ∨ P b := by
  rcases Relation.ReflTransGen.cases_tail h with heq | ⟨_, _, hnext⟩
  · exact Or.inl heq
  · exact Or.inr hnext.2

theorem rank_of_refers (h : c.Refers a b) : a.rank = b.rank + 1 := by
  cases a <;> cases b <;> first | rfl | exact h.elim

/-- References lead down. -/
theorem rank_of_reached (h : b ∈ c.reached P a) : b = a ∨ b.rank < a.rank := by
  induction h with
  | refl => exact Or.inl rfl
  | tail _ hnext ih =>
    have hrank := rank_of_refers hnext.1
    right
    rcases ih with heq | hlt
    · rw [← heq]
      omega
    · omega

theorem rank_le_of_reached (h : b ∈ c.reached P a) : b.rank ≤ a.rank := by
  rcases rank_of_reached h with heq | hlt
  · rw [heq]
  · omega

/-- Two kinds that agree below an object reach the same from it. -/
theorem reached_congr (h : ∀ b, b.rank < a.rank → (P b ↔ Q b)) :
    c.reached P a = c.reached Q a := by
  have hsubset : ∀ {P Q : Node → Prop}, (∀ b, b.rank < a.rank → (P b ↔ Q b)) →
      c.reached P a ⊆ c.reached Q a := by
    intro P Q h b hb
    induction hb with
    | refl => exact self_mem_reached
    | tail hreach hnext ih =>
      apply closed_reached a _ _ _ ih
      refine ⟨hnext.1, (h _ ?_).mp hnext.2⟩
      have hrank := rank_of_refers hnext.1
      rcases rank_of_reached hreach with heq | hlt
      · rw [← heq]
        omega
      · omega
  apply Set.Subset.antisymm (hsubset h)
  exact hsubset (fun b hb => (h b hb).symm)

end Facts
end Config
end L7mp
