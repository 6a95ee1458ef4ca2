import Mathlib.Data.Set.Card
import Mathlib.Logic.Relation

/-! Following references one after the other: when it comes to an end. -/
namespace Chasing
open Relation

variable {α : Type*} {R : α → α → Prop}

/-- Every chain of references that starts at `a` ends. -/
def Ends (R : α → α → Prop) (a : α) : Prop := Acc (fun c b => R b c) a

theorem Ends.step {a b : α} (h : Ends R a) (hab : R a b) : Ends R b := Acc.inv h hab

theorem Ends.reach {a b : α} (h : Ends R a) (hab : ReflTransGen R a b) : Ends R b := by
  induction hab with
  | refl => exact h
  | tail _ hstep ih => exact ih.step hstep

/-- Nothing that is on a cycle ends. -/
theorem Ends.not_cycle {a : α} (h : Ends R a) : ¬TransGen R a a := by
  induction h with
  | intro a _ ih =>
    intro hcycle
    obtain ⟨b, hab, hba⟩ := TransGen.head'_iff.mp hcycle
    -- the next one is on the cycle as well
    exact ih b hab (TransGen.tail' hba hab)

/-- What is reached and refers to something. -/
def sources (R : α → α → Prop) (a : α) : Set α := {b | ReflTransGen R a b ∧ ∃ c, R b c}

/-- One step further there is less to follow. -/
theorem sources_lt {a b : α} (hfinite : (sources R a).Finite) (hab : R a b)
    (h : ¬TransGen R a a) :
    (sources R b).Finite ∧ (sources R b).ncard < (sources R a).ncard := by
  have hsub : sources R b ⊆ sources R a := by
    rintro c ⟨hbc, hc⟩
    exact ⟨hbc.head hab, hc⟩
  refine ⟨hfinite.subset hsub, Set.ncard_lt_ncard ⟨hsub, ?_⟩ hfinite⟩
  intro hsup
  obtain ⟨hba, -⟩ := hsup ⟨ReflTransGen.refl, b, hab⟩
  exact h (TransGen.head' hab hba)

/-- Where finitely many refer to something, following ends exactly if no cycle is reached. -/
theorem ends_iff {a : α} (hfinite : (sources R a).Finite) :
    Ends R a ↔ ∀ b, ReflTransGen R a b → ¬TransGen R b b := by
  constructor
  · exact fun h b hab => (h.reach hab).not_cycle
  · intro h
    suffices hall : ∀ n a, (sources R a).Finite → (sources R a).ncard = n →
        (∀ b, ReflTransGen R a b → ¬TransGen R b b) → Ends R a from hall _ a hfinite rfl h
    intro n
    induction n using Nat.strong_induction_on with
    | _ n ih =>
      intro a hfinite hn h
      refine Acc.intro a ?_
      intro b hab
      obtain ⟨hfinite', hless⟩ := sources_lt hfinite hab (h a ReflTransGen.refl)
      exact ih _ (hn ▸ hless) b hfinite' rfl
        (fun c hbc => h c (hbc.head hab))

end Chasing
