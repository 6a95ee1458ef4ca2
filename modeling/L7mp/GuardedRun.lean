import Mathlib.Logic.Relation

/-! Runs of a machine given by a partial step function on events. A guard says which
events a run takes in which states; a step is guarded in the state before it. -/
namespace GuardedRun

variable {σ ε : Type*} {step : σ → ε → Option σ} {ok ok' : σ → ε → Prop}

/-- One step on an event that the guard admits in the state before. -/
def Step (step : σ → ε → Option σ) (ok : σ → ε → Prop) (s t : σ) : Prop :=
  ∃ e, ok s e ∧ step s e = some t

/-- A finite run all of whose steps meet the guard. -/
def Run (step : σ → ε → Option σ) (ok : σ → ε → Prop) : σ → σ → Prop :=
  Relation.ReflTransGen (Step step ok)

/-- The guard that admits every event in every state. -/
def always (_ : σ) (_ : ε) : Prop := True

theorem Run.refl (s : σ) : Run step ok s s := Relation.ReflTransGen.refl

theorem Run.trans {s t u : σ} (h : Run step ok s t) (h' : Run step ok t u) :
    Run step ok s u := Relation.ReflTransGen.trans h h'

/-- What holds first and is kept by every guarded step holds at the end of the run. -/
theorem Run.invariant {P : σ → Prop}
    (hP : ∀ s e t, P s → ok s e → step s e = some t → P t) {s t : σ}
    (h : Run step ok s t) (hs : P s) : P t := by
  induction h with
  | refl => exact hs
  | tail _ hstep ih =>
    obtain ⟨e, hok, he⟩ := hstep
    exact hP _ e _ ih hok he

/-- A reflexive and transitive relation that every guarded step from a state of an
invariant respects relates the two ends of a run. -/
theorem Run.relates {P : σ → Prop} {R : σ → σ → Prop} (hrefl : ∀ s, R s s)
    (htrans : ∀ s t u, R s t → R t u → R s u)
    (hP : ∀ s e t, P s → ok s e → step s e = some t → P t ∧ R s t) {s t : σ}
    (h : Run step ok s t) (hs : P s) : R s t := by
  have hboth : P t ∧ R s t := by
    induction h with
    | refl => exact ⟨hs, hrefl s⟩
    | tail _ hstep ih =>
      obtain ⟨e, hok, he⟩ := hstep
      obtain ⟨hp, hr⟩ := hP _ e _ ih.1 hok he
      exact ⟨hp, htrans _ _ _ ih.2 hr⟩
  exact hboth.2

theorem Run.mono (himp : ∀ s e, ok s e → ok' s e) {s t : σ} (h : Run step ok s t) :
    Run step ok' s t := by
  refine Relation.ReflTransGen.mono ?_ _ _ h
  rintro a b ⟨e, hok, he⟩
  exact ⟨e, himp a e hok, he⟩

/-- Execute a list of events, giving up at the first one that is refused. -/
def exec (step : σ → ε → Option σ) (ok : σ → ε → Prop) [∀ s e, Decidable (ok s e)] :
    σ → List ε → Option σ
  | s, [] => some s
  | s, e :: es => if ok s e then (step s e).bind (fun t => exec step ok t es) else none

theorem exec_run [∀ s e, Decidable (ok s e)] :
    ∀ (es : List ε) (s t : σ), exec step ok s es = some t → Run step ok s t
  | [], s, t, h => by
    cases h
    exact Run.refl s
  | e :: es, s, t, h => by
    unfold exec at h
    split at h
    · rename_i hok
      obtain ⟨u, hu, hrest⟩ := Option.bind_eq_some_iff.mp h
      exact Relation.ReflTransGen.head ⟨e, hok, hu⟩ (exec_run es u t hrest)
    · cases h

instance (s : σ) (e : ε) : Decidable (always s e) := inferInstanceAs (Decidable True)

end GuardedRun
