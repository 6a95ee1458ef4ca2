import Mathlib.Data.List.Basic

/-! Operations that change a state and may throw in the middle: what was done before the error
stays done. -/
namespace Aborting

/-- An operation returns or throws, and leaves a state either way. -/
def Op (σ ε : Type) : Type := σ → Except ε Unit × σ

variable {σ ε α : Type}

def skip : Op σ ε := fun s => (.ok (), s)

def throw (e : ε) : Op σ ε := fun s => (.error e, s)

def update (f : σ → σ) : Op σ ε := fun s => (.ok (), f s)

/-- `g` runs if `f` returns. -/
def seq (f g : Op σ ε) : Op σ ε := fun s =>
  match f s with
  | (.ok _, t) => g t
  | (.error e, t) => (.error e, t)

/-- A loop over a list that an error leaves. -/
def forEach (f : α → Op σ ε) : List α → Op σ ε
  | [] => skip
  | a :: l => seq (f a) (forEach f l)

/-- A loop that changes the elements of a list in place. -/
def inPlace (f : Op α ε) : Op (List α) ε
  | [] => (.ok (), [])
  | a :: l => match f a with
    | (.ok _, b) => ((inPlace f l).1, b :: (inPlace f l).2)
    | (.error e, b) => (.error e, b :: l)

theorem seq_returns {f g : Op σ ε} {s u : σ} :
    seq f g s = (.ok (), u) ↔ ∃ t, f s = (.ok (), t) ∧ g t = (.ok (), u) := by
  unfold seq
  rcases hf : f s with ⟨_ | ⟨⟩, t⟩
  · simp
  · simp

theorem seq_of_returns {f g : Op σ ε} {s t : σ} (h : f s = (.ok (), t)) : seq f g s = g t := by
  unfold seq
  rw [h]

theorem seq_of_throws {f g : Op σ ε} {s t : σ} {e : ε} (h : f s = (.error e, t)) :
    seq f g s = (.error e, t) := by
  unfold seq
  rw [h]

theorem seq_ok {f g : Op σ ε} {s : σ} :
    (seq f g s).1 = .ok () ↔ (f s).1 = .ok () ∧ (g (f s).2).1 = .ok () := by
  unfold seq
  rcases f s with ⟨_ | ⟨⟩, t⟩
  · simp
  · simp

theorem seq_state {f g : Op σ ε} {s : σ} (h : (f s).1 = .ok ()) :
    (seq f g s).2 = (g (f s).2).2 := by
  unfold seq
  rcases hf : f s with ⟨_ | ⟨⟩, t⟩
  · rw [hf] at h
    cases h
  · rfl

/-- What both operations keep, however they end, their sequence keeps. -/
theorem seq_keeps {I : σ → Prop} {f g : Op σ ε} (hf : ∀ s, I s → I (f s).2)
    (hg : ∀ s, I s → I (g s).2) {s : σ} (hs : I s) : I (seq f g s).2 := by
  unfold seq
  have hf := hf s hs
  rcases hr : f s with ⟨_ | _, t⟩
  · rw [hr] at hf
    exact hf
  · rw [hr] at hf
    exact hg t hf

theorem forEach_keeps {I : σ → Prop} {f : α → Op σ ε} (hf : ∀ a s, I s → I (f a s).2) :
    ∀ (l : List α) {s : σ}, I s → I (forEach f l s).2
  | [], _, hs => hs
  | a :: l, _, hs => seq_keeps (hf a) (fun _ => forEach_keeps hf l) hs

/-- The loop returns exactly if no element throws. -/
theorem inPlace_ok {f : Op α ε} :
    ∀ {l : List α}, (inPlace f l).1 = .ok () ↔ ∀ a ∈ l, (f a).1 = .ok ()
  | [] => by simp [inPlace]
  | a :: l => by
    have ih := @inPlace_ok f l
    unfold inPlace
    rcases hf : f a with ⟨_ | ⟨⟩, b⟩
    · simp [hf]
    · simp [hf, ih]

theorem inPlace_map {f : Op α ε} : ∀ {l : List α}, (∀ a ∈ l, (f a).1 = .ok ()) →
    (inPlace f l).2 = l.map (fun a => (f a).2)
  | [], _ => rfl
  | a :: l, h => by
    have ih := inPlace_map (fun b hb => h b (List.mem_cons_of_mem a hb))
    have ha := h a List.mem_cons_self
    unfold inPlace
    rcases hf : f a with ⟨_ | ⟨⟩, b⟩
    · rw [hf] at ha
      cases ha
    · simp [hf, ih]

theorem inPlace_keeps {I : α → Prop} {f : Op α ε} (hf : ∀ a, I a → I (f a).2) :
    ∀ {l : List α}, (∀ a ∈ l, I a) → ∀ a ∈ (inPlace f l).2, I a
  | [], _ => by simp [inPlace]
  | a :: l, h => by
    have hrest := fun b hb => h b (List.mem_cons_of_mem a hb)
    have ih := inPlace_keeps hf hrest
    have ha := hf a (h a List.mem_cons_self)
    unfold inPlace
    rcases hr : f a with ⟨_ | ⟨⟩, b⟩
    · rw [hr] at ha
      exact List.forall_mem_cons.mpr ⟨ha, hrest⟩
    · rw [hr] at ha
      exact List.forall_mem_cons.mpr ⟨ha, ih⟩

/-- A computation that gives a value gives one at every step. -/
theorem bind_eq_ok {ε α β : Type} {x : Except ε α} {f : α → Except ε β} {b : β}
    (h : (x >>= f) = .ok b) : ∃ a, x = .ok a ∧ f a = .ok b := by
  cases x with
  | error e => cases h
  | ok a => exact ⟨a, rfl, h⟩

theorem mapM_eq_ok {ε α β : Type} {f : α → Except ε β} {l : List α} {l' : List β}
    (h : l.mapM f = .ok l') : List.Forall₂ (fun a b => f a = .ok b) l l' := by
  induction l generalizing l' with
  | nil =>
    cases h
    exact .nil
  | cons a l ih =>
    rw [List.mapM_cons] at h
    obtain ⟨b, hb, h⟩ := bind_eq_ok h
    obtain ⟨m, hm, h⟩ := bind_eq_ok h
    cases h
    exact .cons hb (ih hm)

theorem mem_of_mapM {ε α β : Type} {f : α → Except ε β} {l : List α} {l' : List β} {b : β}
    (h : l.mapM f = .ok l') (hb : b ∈ l') : ∃ a ∈ l, f a = .ok b := by
  have hall := mapM_eq_ok h
  clear h
  induction hall with
  | nil => cases hb
  | cons hab _ ih =>
    rcases List.mem_cons.mp hb with rfl | hb
    · exact ⟨_, List.mem_cons_self, hab⟩
    · obtain ⟨a, ha, hf⟩ := ih hb
      exact ⟨a, List.mem_cons_of_mem _ ha, hf⟩

/-- Each element has its result. -/
theorem turn_of_mapM {ε α β : Type} {f : α → Except ε β} {l : List α} {l' : List β} {a : α}
    (h : l.mapM f = .ok l') (ha : a ∈ l) : ∃ b ∈ l', f a = .ok b := by
  have hall := mapM_eq_ok h
  clear h
  induction hall with
  | nil => cases ha
  | cons hab _ ih =>
    rcases List.mem_cons.mp ha with rfl | ha
    · exact ⟨_, List.mem_cons_self, hab⟩
    · obtain ⟨b, hb, hf⟩ := ih ha
      exact ⟨b, List.mem_cons_of_mem _ hb, hf⟩

end Aborting
