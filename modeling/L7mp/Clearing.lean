import L7mp.Aborting
import Mathlib.Data.Set.Lattice
import Mathlib.Logic.Relation

/-! What is reached along a relation, and operations that clear all of it: each starts where a
closed set is gone and leaves a larger closed set gone. -/
namespace Clearing
open Aborting Relation

variable {α : Type} (r : α → α → Prop)

/-- All that is reached from `a`, and `a` itself. -/
def reach (a : α) : Set α := {b | ReflTransGen r a b}

/-- What a point of the set leads to is in the set. -/
def Closed (S : Set α) : Prop := ∀ a b, r a b → a ∈ S → b ∈ S

variable {r}

theorem self_mem_reach (a : α) : a ∈ reach r a := ReflTransGen.refl

theorem closed_reach (a : α) : Closed r (reach r a) := fun _ _ hbc hab => hab.tail hbc

theorem reach_subset {S : Set α} (hS : Closed r S) {a : α} (ha : a ∈ S) : reach r a ⊆ S := by
  intro b hab
  induction hab with
  | refl => exact ha
  | tail _ hbc ih => exact hS _ _ hbc ih

theorem mem_reach {a b : α} : b ∈ reach r a ↔ b = a ∨ ∃ c, r a c ∧ b ∈ reach r c := by
  rw [reach, Set.mem_ofPred_eq, ReflTransGen.cases_head_iff, eq_comm]
  rfl

theorem closed_empty : Closed r ∅ := fun _ _ _ ha => ha

theorem Closed.union {S T : Set α} (hS : Closed r S) (hT : Closed r T) : Closed r (S ∪ T) := by
  intro a b hab ha
  rcases ha with ha | ha
  · exact .inl (hS a b hab ha)
  · exact .inr (hT a b hab ha)

variable {σ ε β : Type} (r) (G : Set α → σ → Prop)

/-- Where a closed set is gone, as `G` says, the operation returns, and `T` is gone as well. -/
def Clears (f : Op σ ε) (T : Set α) : Prop :=
  ∀ S s, Closed r S → G S s → (f s).1 = .ok () ∧ G (S ∪ T) (f s).2

variable {r G} {f g : Op σ ε} {T U : Set α}

theorem clears_skip : Clears r G (skip : Op σ ε) ∅ := by
  intro S s _ h
  rw [Set.union_empty]
  exact ⟨rfl, h⟩

theorem Clears.seq (hf : Clears r G f T) (hT : Closed r T) (hg : Clears r G g U) :
    Clears r G (Aborting.seq f g) (T ∪ U) := by
  intro S s hS h
  obtain ⟨hok, hgone⟩ := hf S s hS h
  obtain ⟨hok', hgone'⟩ := hg (S ∪ T) _ (hS.union hT) hgone
  rw [Set.union_assoc] at hgone'
  refine ⟨seq_ok.mpr ⟨hok, hok'⟩, ?_⟩
  rw [seq_state hok]
  exact hgone'

theorem clears_forEach {f : β → Op σ ε} {T : β → Set α} (hT : ∀ b, Closed r (T b)) (l : List β)
    (hf : ∀ b ∈ l, Clears r G (f b) (T b)) :
    Clears r G (forEach f l) {a | ∃ b ∈ l, a ∈ T b} := by
  induction l with
  | nil =>
    have hnone : {a | ∃ b ∈ ([] : List β), a ∈ T b} = ∅ := by simp
    rw [hnone]
    exact clears_skip
  | cons b l ih =>
    have hrest := ih (fun c hc => hf c (List.mem_cons_of_mem b hc))
    have hcons : {a | ∃ c ∈ b :: l, a ∈ T c} = T b ∪ {a | ∃ c ∈ l, a ∈ T c} := by
      ext a
      simp
    rw [hcons]
    exact (hf b List.mem_cons_self).seq (hT b) hrest

end Clearing
