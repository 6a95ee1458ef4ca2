import L7mp.Coroutine
import Mathlib.Data.List.Perm.Basic
import Mathlib.Data.Set.Lattice

/-! Coroutines that own what they allocate: each leaves alone what another one has allocated, and
relies on the others for the same. A server runs them as requests, and answers each one with what
its program ends in. -/
namespace Coroutine
open GuardedRun

/-- The state that a piece of a program leaves. -/
def Res.now {σ ι κ ε α : Type} : Res σ ι κ ε α → σ
  | .done s _ => s
  | .wait s _ _ => s

/-- The rules that all the programs of a state follow. Every change is `evolves`; `stamp` is the
number that is allocated next, and `leaves n` says that a change did not touch number `n`. -/
structure Discipline (σ : Type) where
  inv : σ → Prop
  evolves : σ → σ → Prop
  stamp : σ → ℕ
  leaves : ℕ → σ → σ → Prop
  refl : ∀ s, evolves s s
  trans : ∀ s t u, evolves s t → evolves t u → evolves s u
  stamp_le : ∀ s t, evolves s t → stamp s ≤ stamp t
  leaves_refl : ∀ n s, leaves n s s
  leaves_trans : ∀ n s t u, leaves n s t → leaves n t u → leaves n s u

namespace Discipline

variable {σ : Type} (D : Discipline σ)

/-- What a program that owns the numbers `O` may do in one piece. -/
structure Guar (O : Set ℕ) (s t : σ) : Prop where
  inv : D.inv t
  evolves : D.evolves s t
  leaves : ∀ n < D.stamp s, n ∉ O → D.leaves n s t

/-- What the others do while a program that owns the numbers `O` waits. -/
structure Rely (O : Set ℕ) (s t : σ) : Prop where
  inv : D.inv t
  evolves : D.evolves s t
  leaves : ∀ n ∈ O, D.leaves n s t

/-- A piece of a program owns also what it allocates. -/
def owned (O : Set ℕ) (s t : σ) : Set ℕ := O ∪ {n | D.stamp s ≤ n ∧ n < D.stamp t}

variable {D} {O : Set ℕ} {s t u : σ}

theorem Guar.refl (h : D.inv s) : D.Guar O s s :=
  ⟨h, D.refl s, fun n _ _ => D.leaves_refl n s⟩

theorem owned_self : D.owned O s s = O := by
  ext n
  constructor
  · intro h
    rcases h with h | ⟨hle, hlt⟩
    · exact h
    · omega
  · exact Or.inl

/-- Two pieces of one program are like one. -/
theorem Guar.trans (h : D.Guar O s t) (h' : D.Guar (D.owned O s t) t u) : D.Guar O s u where
  inv := h'.inv
  evolves := D.trans s t u h.evolves h'.evolves
  leaves := by
    intro n hn hO
    have hle := D.stamp_le s t h.evolves
    -- what was allocated on the way has a number that is too large
    have hown : n ∉ D.owned O s t := by
      intro hmem
      rcases hmem with hmem | ⟨hge, -⟩
      · exact hO hmem
      · omega
    exact D.leaves_trans n s t u (h.leaves n hn hO) (h'.leaves n (by omega) hown)

theorem owned_trans (h : D.evolves s t) (h' : D.evolves t u) :
    D.owned (D.owned O s t) t u = D.owned O s u := by
  have hle := D.stamp_le s t h
  have hle' := D.stamp_le t u h'
  ext n
  constructor
  · intro hn
    rcases hn with (hn | ⟨hge, hlt⟩) | ⟨hge, hlt⟩
    · exact Or.inl hn
    · exact Or.inr ⟨hge, by omega⟩
    · exact Or.inr ⟨by omega, hlt⟩
  · intro hn
    rcases hn with hn | ⟨hge, hlt⟩
    · exact Or.inl (Or.inl hn)
    · -- it was allocated by the first piece or by the second one
      by_cases hmid : n < D.stamp t
      · exact Or.inl (Or.inr ⟨hge, hmid⟩)
      · exact Or.inr ⟨by omega, hlt⟩

theorem Rely.trans (h : D.Rely O s t) (h' : D.Rely O t u) : D.Rely O s u where
  inv := h'.inv
  evolves := D.trans s t u h.evolves h'.evolves
  leaves n hn := D.leaves_trans n s t u (h.leaves n hn) (h'.leaves n hn)

/-- What one program does is what another one, which owns other numbers, relies on. -/
theorem Guar.rely (h : D.Guar O s t) {O' : Set ℕ} (hbelow : ∀ n ∈ O', n < D.stamp s)
    (hapart : ∀ n ∈ O', n ∉ O) : D.Rely O' s t :=
  ⟨h.inv, h.evolves, fun n hn => h.leaves n (hbelow n hn) (hapart n hn)⟩

end Discipline

section Within

variable {σ ι κ ε α β : Type} (D : Discipline σ) (J : ι → Prop)

/-- Started in the state `s` with the numbers `O`, what is left of a program follows the rules, and
ends in `Q`, if it is woken by inputs in `J` and the others follow the rules. -/
def Res.Within (Q : Except ε α → Set ℕ → σ → Prop) : Res σ ι κ ε α → Set ℕ → σ → Prop
  | .done t r, O, s => D.Guar O s t ∧ Q r (D.owned O s t) t
  | .wait t _ k, O, s => D.Guar O s t ∧ ∀ i u, J i → D.Rely (D.owned O s t) t u →
      (k i u).Within Q (D.owned O s t) u

variable {D J} {Q : Except ε α → Set ℕ → σ → Prop} {Q' : Except ε β → Set ℕ → σ → Prop}
  {O : Set ℕ} {s t : σ}

theorem Res.Within.mono {Q₂ : Except ε α → Set ℕ → σ → Prop}
    (h : ∀ r O s, D.inv s → Q r O s → Q₂ r O s) : ∀ {p : Res σ ι κ ε α} {O : Set ℕ} {s : σ},
    p.Within D J Q O s → p.Within D J Q₂ O s
  | .done _ r, _, _, hp => ⟨hp.1, h r _ _ hp.1.inv hp.2⟩
  | .wait _ _ _, _, _, hp => ⟨hp.1, fun i u hi hu => (hp.2 i u hi hu).mono h⟩

/-- What follows a piece of the program. -/
theorem Res.Within.after (hg : D.Guar O s t) : ∀ {p : Res σ ι κ ε α},
    p.Within D J Q (D.owned O s t) t → p.Within D J Q O s
  | .done u r, hp => by
    refine ⟨hg.trans hp.1, ?_⟩
    rw [← D.owned_trans hg.evolves hp.1.evolves]
    exact hp.2
  | .wait u l k, hp => by
    refine ⟨hg.trans hp.1, ?_⟩
    rw [← D.owned_trans hg.evolves hp.1.evolves]
    exact hp.2

theorem Res.Within.bind {f : α → Co σ ι κ ε β}
    (hok : ∀ a O s, D.inv s → Q (.ok a) O s → (f a s).Within D J Q' O s)
    (herr : ∀ e O s, Q (.error e) O s → Q' (.error e) O s) :
    ∀ {p : Res σ ι κ ε α} {O : Set ℕ} {s : σ}, p.Within D J Q O s → (p.bind f).Within D J Q' O s
  | .done t (.ok a), _, _, hp => (hok a _ t hp.1.inv hp.2).after hp.1
  | .done _ (.error e), _, _, hp => ⟨hp.1, herr e _ _ hp.2⟩
  | .wait _ _ _, _, _, hp => ⟨hp.1, fun i u hi hu => (hp.2 i u hi hu).bind hok herr⟩

/-- The outcome of an awaited program arrives after a last wait. -/
theorem Res.Within.await {Q₂ : Except ε α → Set ℕ → σ → Prop} {l : List κ}
    (hlast : ∀ r O s t, Q r O s → D.Rely O s t → Q₂ r O t) :
    ∀ {p : Res σ ι κ ε α} {O : Set ℕ} {s : σ},
      p.Within D J Q O s → (p.await l).Within D J Q₂ O s
  -- what was awaited is over, but the others run before the caller hears of it
  | .done t r, O, s, hp => by
    refine ⟨hp.1, fun i u _ hu => ⟨Discipline.Guar.refl hu.inv, ?_⟩⟩
    rw [Discipline.owned_self]
    exact hlast r _ t u hp.2 hu
  | .wait _ _ _, _, _, hp => ⟨hp.1, fun i u hi hu => (hp.2 i u hi hu).await hlast⟩

/-- Whatever happened on the way, the state has evolved. -/
theorem Res.Within.evolved {s₀ : σ} : ∀ {p : Res σ ι κ ε α} {O : Set ℕ} {s : σ}, D.evolves s₀ s →
    p.Within D J Q O s → p.Within D J (fun r O t => Q r O t ∧ D.evolves s₀ t) O s
  | .done t _, _, s, hs, hp => ⟨hp.1, hp.2, D.trans s₀ s t hs hp.1.evolves⟩
  | .wait t _ _, _, s, hs, hp => ⟨hp.1, fun i u hi hu => by
    have ht : D.evolves s₀ t := D.trans s₀ s t hs hp.1.evolves
    exact (hp.2 i u hi hu).evolved (D.trans s₀ t u ht hu.evolves)⟩

theorem Discipline.owned_sdiff {x : ℕ} (hx : x < D.stamp s) :
    D.owned (O \ {x}) s t = D.owned O s t \ {x} := by
  ext n
  constructor
  · intro hn
    rcases hn with ⟨hn, hne⟩ | ⟨hge, hlt⟩
    · exact ⟨Or.inl hn, hne⟩
    · refine ⟨Or.inr ⟨hge, hlt⟩, fun heq => ?_⟩
      have heq : n = x := heq
      omega
  · intro hn
    obtain ⟨hn | hn, hne⟩ := hn
    · exact Or.inl ⟨hn, hne⟩
    · exact Or.inr hn

/-- A part of a program that does without the number `x` leaves it alone, and so do the others. -/
theorem Res.Within.spare {x : ℕ} {s₀ : σ} : ∀ {p : Res σ ι κ ε α} {O : Set ℕ} {s : σ},
    x ∈ O → x < D.stamp s → D.leaves x s₀ s → p.Within D J Q (O \ {x}) s →
    p.Within D J (fun r O t => (∃ O₁, Q r O₁ t) ∧ x ∈ O ∧ x < D.stamp t ∧ D.leaves x s₀ t) O s
  | .done t r, O, s, hO, hx, hs, hp => by
    have hle := D.stamp_le s t hp.1.evolves
    have hleaves : D.leaves x s t := hp.1.leaves x hx (fun h => h.2 rfl)
    refine ⟨⟨hp.1.inv, hp.1.evolves, fun n hn hnO => hp.1.leaves n hn (fun h => hnO h.1)⟩,
      ⟨_, hp.2⟩, Or.inl hO, by omega, D.leaves_trans x s₀ s t hs hleaves⟩
  | .wait t l k, O, s, hO, hx, hs, hp => by
    have hle := D.stamp_le s t hp.1.evolves
    have hleaves : D.leaves x s t := hp.1.leaves x hx (fun h => h.2 rfl)
    refine ⟨⟨hp.1.inv, hp.1.evolves, fun n hn hnO => hp.1.leaves n hn (fun h => hnO h.1)⟩,
      fun i u hi hu => ?_⟩
    have hle' := D.stamp_le t u hu.evolves
    have hown : D.owned (O \ {x}) s t = D.owned O s t \ {x} := Discipline.owned_sdiff hx
    -- the others leave more alone than the part asks for
    have hpart := hp.2 i u hi (by
      rw [hown]
      exact ⟨hu.inv, hu.evolves, fun n hn => hu.leaves n hn.1⟩)
    rw [hown] at hpart
    refine hpart.spare (Or.inl hO) (by omega) ?_
    have hwait := D.leaves_trans x s t u hleaves (hu.leaves x (Or.inl hO))
    exact D.leaves_trans x s₀ s u hs hwait

variable (D J)

/-- From a state of the invariant in which `P` holds, the program follows the rules and returns only
in `Q`. -/
def Follows (P : Set ℕ → σ → Prop) (p : Co σ ι κ ε α) (Q : α → Set ℕ → σ → Prop) : Prop :=
  ∀ O s, D.inv s → P O s →
    (p s).Within D J (fun r O s => ∀ a, r = .ok a → Q a O s) O s

variable {D J} {P T : Set ℕ → σ → Prop} {R R' : α → Set ℕ → σ → Prop} {S : β → Set ℕ → σ → Prop}

namespace Follows

/-- A piece that does not wait. -/
theorem atomic {f : σ → Except ε α × σ}
    (h : ∀ O s, D.inv s → P O s →
      D.Guar O s (f s).2 ∧ ∀ a, (f s).1 = .ok a → R a (D.owned O s (f s).2) (f s).2) :
    Follows D J P (Co.atomic f : Co σ ι κ ε α) R := h

/-- A look at the state. -/
theorem look {f : σ → Except ε α} (h : ∀ O s a, D.inv s → P O s → f s = .ok a → R a O s) :
    Follows D J P (Co.atomic (fun s => (f s, s)) : Co σ ι κ ε α) R := by
  refine atomic (fun O s hs hP => ⟨Discipline.Guar.refl hs, fun a ha => ?_⟩)
  rw [Discipline.owned_self]
  exact h O s a hs hP ha

theorem pure {a : α} (h : ∀ O s, D.inv s → P O s → R a O s) :
    Follows D J P (Pure.pure a : Co σ ι κ ε α) R := by
  refine look (f := fun _ => .ok a) (fun O s b hs hP hb => ?_)
  cases hb
  exact h O s hs hP

theorem throw (e : ε) : Follows D J P (MonadExcept.throw e : Co σ ι κ ε α) R :=
  look (f := fun _ => .error e) (fun _ _ _ _ _ h => by cases h)

theorem modify {f : σ → σ} {R : Unit → Set ℕ → σ → Prop}
    (h : ∀ O s, D.inv s → P O s → D.Guar O s (f s) ∧ R () (D.owned O s (f s)) (f s)) :
    Follows D J P (Co.modify f : Co σ ι κ ε Unit) R := fun O s hs hP =>
  ⟨(h O s hs hP).1, fun _ _ => (h O s hs hP).2⟩

theorem bind {p : Co σ ι κ ε α} {f : α → Co σ ι κ ε β} (hp : Follows D J P p R)
    (hf : ∀ a, Follows D J (R a) (f a) S) : Follows D J P (p >>= f) S := by
  intro O s hs hP
  refine (hp O s hs hP).bind (fun a O s hs ha => hf a O s hs (ha a rfl)) ?_
  intro e O s _ a ha
  cases ha

theorem conseq {p : Co σ ι κ ε α} (hp : Follows D J P p R)
    (hpre : ∀ O s, D.inv s → T O s → P O s) (hpost : ∀ a O s, D.inv s → R a O s → R' a O s) :
    Follows D J T p R' := by
  intro O s hs hP
  refine (hp O s hs (hpre O s hs hP)).mono (fun r O s hs hr a ha => ?_)
  exact hpost a O s hs (hr a ha)

/-- What no change takes away is still true at the end. -/
theorem frame {p : Co σ ι κ ε α} {F : σ → Prop} (hF : ∀ s t, F s → D.evolves s t → F t)
    (hp : Follows D J P p R) :
    Follows D J (fun O s => P O s ∧ F s) p (fun a O s => R a O s ∧ F s) := by
  intro O s hs hP
  refine ((hp O s hs hP.1).evolved (D.refl s)).mono (fun r O t _ hr a ha => ?_)
  exact ⟨hr.1 a ha, hF s t hP.2 hr.2⟩

/-- A part of a program that does without the number `x`, which the program owns. -/
theorem spare {p : Co σ ι κ ε α} {P F : σ → Prop} {R : α → σ → Prop} {x : ℕ}
    (hF : ∀ s t, F s → D.leaves x s t → F t)
    (hp : Follows D J (fun _ => P) p (fun a _ => R a)) :
    Follows D J (fun O s => P s ∧ x ∈ O ∧ x < D.stamp s ∧ F s) p
      (fun a O s => R a s ∧ x ∈ O ∧ x < D.stamp s ∧ F s) := by
  intro O s hs ⟨hP, hO, hx, hFs⟩
  have hpart := hp (O \ {x}) s hs hP
  refine (hpart.spare hO hx (D.leaves_refl x s)).mono (fun r O t _ hr a ha => ?_)
  obtain ⟨⟨_, hR⟩, hO, hx, hleaves⟩ := hr
  exact ⟨hR a ha, hO, hx, hF s t hFs hleaves⟩

/-- Waiting for a program: what it returned in must last. -/
theorem await {p : Co σ ι κ ε α} {l : List κ} (hp : Follows D J P p R)
    (hlast : ∀ a O s t, R a O s → D.Rely O s t → R a O t) :
    Follows D J P (Co.await l p) R := by
  intro O s hs hP
  refine (hp O s hs hP).await (fun r O s t hr ht a ha => ?_)
  exact hlast a O s t (hr a ha) ht

end Follows

end Within

/-- Requests that came, those that are not finished, and the answers, each with its number. -/
structure Server (σ ο ι κ ε : Type) where
  state : σ
  asked : List ο
  pending : List (ℕ × Task σ ι κ ε)
  answers : List (ℕ × Except ε Unit)

namespace Server

variable {σ ο ι κ ε : Type}

def start (s : σ) : Server σ ο ι κ ε := ⟨s, [], [], []⟩

/-- A piece of request `n` was run. -/
def enter (n : ℕ) (v : Server σ ο ι κ ε) : Res σ ι κ ε Unit → Server σ ο ι κ ε
  | .done s r => { v with state := s, answers := v.answers ++ [(n, r)] }
  | .wait s l k => { v with state := s, pending := v.pending ++ [(n, ⟨l, k⟩)] }

def step (prog : ο → Co σ ι κ ε Unit) (v : Server σ ο ι κ ε) :
    Event ο ι → Option (Server σ ο ι κ ε)
  | .call op =>
    some (enter v.asked.length { v with asked := v.asked ++ [op] } (prog op v.state))
  | .resume j i => v.pending[j]?.map (fun p =>
    enter p.1 { v with pending := v.pending.eraseIdx j } (p.2.next i v.state))

/-- The server without its books. -/
def pool (v : Server σ ο ι κ ε) : Pool σ ι κ ε := ⟨v.state, v.pending.map Prod.snd⟩

variable {prog : ο → Co σ ι κ ε Unit} {v v' : Server σ ο ι κ ε}

theorem pool_enter (n : ℕ) (v : Server σ ο ι κ ε) (r : Res σ ι κ ε Unit) :
    (v.enter n r).pool = Pool.enter (v.pending.map Prod.snd) r := by
  cases r with
  | done s r => rfl
  | wait s l k =>
    have hmap : (v.pending ++ [(n, (⟨l, k⟩ : Task σ ι κ ε))]).map Prod.snd =
        v.pending.map Prod.snd ++ [⟨l, k⟩] := List.map_append
    exact congrArg (Pool.mk s) hmap

/-- The server does what its programs do without it. -/
theorem step_pool {e : Event ο ι} (h : v.step prog e = some v') :
    v.pool.step prog e = some v'.pool := by
  cases e with
  | call op =>
    cases h
    rw [pool_enter]
    rfl
  | resume j i =>
    obtain ⟨p, hp, rfl⟩ := Option.map_eq_some_iff.mp h
    have hget : (v.pending.map Prod.snd)[j]? = some p.2 := by
      rw [List.getElem?_map, hp]
      rfl
    have herase : (v.pending.eraseIdx j).map Prod.snd = (v.pending.map Prod.snd).eraseIdx j := by
      exact (List.eraseIdx_map ..).symm
    rw [pool_enter]
    change Option.map _ (v.pending.map Prod.snd)[j]? = _
    rw [hget, herase]
    rfl

/-- Every request is answered or pending, and none of them twice. -/
def Balanced (v : Server σ ο ι κ ε) : Prop :=
  (v.answers.map Prod.fst ++ v.pending.map Prod.fst).Perm (List.range v.asked.length)

/-- One request ends or waits again. -/
theorem balanced_enter {n : ℕ} (h : (n :: (v.answers.map Prod.fst ++ v.pending.map Prod.fst)).Perm
    (List.range v.asked.length)) (r : Res σ ι κ ε Unit) : (v.enter n r).Balanced := by
  cases r with
  | done s r =>
    have hmap : (v.answers ++ [(n, r)]).map Prod.fst = v.answers.map Prod.fst ++ [n] :=
      List.map_append
    change ((v.answers ++ [(n, r)]).map Prod.fst ++ _).Perm _
    rw [hmap, List.append_assoc]
    exact List.perm_middle.trans h
  | wait s l k =>
    have hmap : (v.pending ++ [(n, (⟨l, k⟩ : Task σ ι κ ε))]).map Prod.fst =
        v.pending.map Prod.fst ++ [n] := List.map_append
    change (v.answers.map Prod.fst ++ (v.pending ++ [(n, _)]).map Prod.fst).Perm _
    rw [hmap, ← List.append_assoc]
    exact (List.perm_append_singleton n _).trans h

theorem balanced_step (hv : v.Balanced) {e : Event ο ι} (h : v.step prog e = some v') :
    v'.Balanced := by
  cases e with
  | call op =>
    cases h
    apply balanced_enter
    change (v.asked.length :: _).Perm (List.range (v.asked ++ [op]).length)
    rw [List.length_append, List.length_singleton, List.range_succ]
    exact (List.Perm.cons _ hv).trans (List.perm_append_singleton _ _).symm
  | resume j i =>
    obtain ⟨p, hp, rfl⟩ := Option.map_eq_some_iff.mp h
    apply balanced_enter
    have hperm : (p :: v.pending.eraseIdx j).Perm v.pending := by
      obtain ⟨hj, rfl⟩ := List.getElem?_eq_some_iff.mp hp
      exact List.getElem_cons_eraseIdx_perm hj
    have hnumbers := hperm.map Prod.fst
    refine List.perm_middle.symm.trans ?_
    exact (List.Perm.append_left _ hnumbers).trans hv

/-- The calls that are made, and the inputs that arrive. -/
def Takes (T : ο → Prop) (J : ι → Prop) (_ : Server σ ο ι κ ε) : Event ο ι → Prop
  | .call op => T op
  | .resume _ i => J i

instance (T : ο → Prop) (J : ι → Prop) [DecidablePred T] [DecidablePred J]
    (v : Server σ ο ι κ ε) : (e : Event ο ι) → Decidable (v.Takes T J e)
  | .call op => inferInstanceAs (Decidable (T op))
  | .resume _ i => inferInstanceAs (Decidable (J i))

variable (D : Discipline σ) (J : ι → Prop) (Q : ο → σ → Prop)

/-- What is left of a request. -/
abbrev Ends (op : ο) (r : Res σ ι κ ε Unit) (O : Set ℕ) (s : σ) : Prop :=
  r.Within D J (fun r _ s => ∀ a, r = .ok a → Q op s) O s

/-- Each request owns numbers of its own; those that are pending follow the rules, and those that
were answered well have made true what they are for. -/
structure Sound (own : ℕ → Set ℕ) (v : Server σ ο ι κ ε) : Prop where
  inv : D.inv v.state
  below : ∀ n, ∀ x ∈ own n, x < D.stamp v.state
  apart : ∀ n m x, x ∈ own n → x ∈ own m → n = m
  pending : ∀ p ∈ v.pending, ∃ op, v.asked[p.1]? = some op ∧
    ∀ i u, J i → D.Rely (own p.1) v.state u → Ends D J Q op (p.2.next i u) (own p.1) u
  answers : ∀ p ∈ v.answers, p.2 = .ok () → ∃ op, v.asked[p.1]? = some op ∧ Q op v.state

variable {D J Q} {own : ℕ → Set ℕ}

theorem guar_of_ends {op : ο} {r : Res σ ι κ ε Unit} {O : Set ℕ} {s : σ}
    (h : Ends D J Q op r O s) : D.Guar O s r.now := by
  cases r with
  | done t r => exact h.1
  | wait t l k => exact h.1

/-- A piece of request `n` runs. -/
theorem sound_enter (hlast : ∀ op s t, Q op s → D.evolves s t → Q op t)
    (hv : Sound D J Q own v) {n : ℕ} (hn : ∀ p ∈ v.pending, p.1 ≠ n) {op : ο}
    (hop : v.asked[n]? = some op) {r : Res σ ι κ ε Unit} (hr : Ends D J Q op r (own n) v.state) :
    Sound D J Q (Function.update own n (D.owned (own n) v.state r.now)) (v.enter n r) := by
  have hguar := guar_of_ends hr
  have hle := D.stamp_le _ _ hguar.evolves
  have hself := Function.update_self n (D.owned (own n) v.state r.now) own
  have hother (m : ℕ) (hm : m ≠ n) := Function.update_of_ne hm (D.owned (own n) v.state r.now) own
  have hstate : (v.enter n r).state = r.now := by cases r <;> rfl
  have hasked : (v.enter n r).asked = v.asked := by cases r <;> rfl
  -- what the others rely on
  have hrely (m : ℕ) (hm : m ≠ n) : D.Rely (own m) v.state r.now :=
    hguar.rely (hv.below m) (fun x hx hxn => hm (hv.apart m n x hx hxn))
  -- for a request that waits, the piece of `n` and what comes after it are one wait
  have hpending : ∀ p ∈ v.pending, ∃ op, v.asked[p.1]? = some op ∧ ∀ i u, J i →
      D.Rely (Function.update own n (D.owned (own n) v.state r.now) p.1) r.now u →
      Ends D J Q op (p.2.next i u)
        (Function.update own n (D.owned (own n) v.state r.now) p.1) u := by
    intro p hp
    obtain ⟨op', hop', hends⟩ := hv.pending p hp
    refine ⟨op', hop', fun i u hi hu => ?_⟩
    rw [hother p.1 (hn p hp)] at hu ⊢
    exact hends i u hi ((hrely p.1 (hn p hp)).trans hu)
  have hanswers : ∀ p ∈ v.answers, p.2 = .ok () →
      ∃ op, v.asked[p.1]? = some op ∧ Q op r.now := by
    intro p hp hok
    obtain ⟨op', hop', hQ⟩ := hv.answers p hp hok
    exact ⟨op', hop', hlast op' _ _ hQ hguar.evolves⟩
  refine ⟨?_, ?_, ?_, ?_, ?_⟩
  · rw [hstate]
    exact hguar.inv
  · intro m x hx
    rw [hstate]
    by_cases hm : m = n
    · rw [hm, hself] at hx
      rcases hx with hx | ⟨-, hlt⟩
      · have hbelow := hv.below n x hx
        omega
      · exact hlt
    · rw [hother m hm] at hx
      have hbelow := hv.below m x hx
      omega
  · -- the numbers that were just allocated belong to nobody else
    have hfresh (m : ℕ) (hm : m ≠ n) (x : ℕ) (hx : x ∈ own m)
        (hxn : x ∈ D.owned (own n) v.state r.now) : False := by
      rcases hxn with hxn | ⟨hge, -⟩
      · exact hm (hv.apart m n x hx hxn)
      · have hbelow := hv.below m x hx
        omega
    intro m m' x hx hx'
    by_cases hm : m = n <;> by_cases hm' : m' = n
    · rw [hm, hm']
    · rw [hm, hself] at hx
      rw [hother m' hm'] at hx'
      exact absurd hx (hfresh m' hm' x hx')
    · rw [hm', hself] at hx'
      rw [hother m hm] at hx
      exact absurd hx' (hfresh m hm x hx)
    · rw [hother m hm] at hx
      rw [hother m' hm'] at hx'
      exact hv.apart m m' x hx hx'
  · rw [hstate, hasked]
    cases r with
    | done t o => exact hpending
    | wait t l k =>
      intro p hp
      rcases List.mem_append.mp hp with hp | hp
      · exact hpending p hp
      · obtain rfl := List.mem_singleton.mp hp
        refine ⟨op, hop, fun i u hi hu => ?_⟩
        rw [hself] at hu ⊢
        exact hr.2 i u hi hu
  · rw [hstate, hasked]
    cases r with
    | done t o =>
      intro p hp hok
      rcases List.mem_append.mp hp with hp | hp
      · exact hanswers p hp hok
      · obtain rfl := List.mem_singleton.mp hp
        exact ⟨op, hop, hr.2 () hok⟩
    | wait t l k => exact hanswers

theorem sound_step {T : ο → Prop} (hprog : ∀ op, T op →
      Follows D J (fun _ _ => True) (prog op) (fun _ _ s => Q op s))
    (hlast : ∀ op s t, Q op s → D.evolves s t → Q op t) (hb : v.Balanced)
    (hv : Sound D J Q own v) {e : Event ο ι} (he : v.Takes T J e) (h : v.step prog e = some v') :
    ∃ own', Sound D J Q own' v' := by
  -- nobody is on the books twice
  have hnodup := hb.nodup_iff.mpr List.nodup_range
  cases e with
  | call op =>
    cases h
    have hgrown {n : ℕ} {op' : ο} (hop' : v.asked[n]? = some op') :
        (v.asked ++ [op])[n]? = some op' := by
      obtain ⟨hlt, -⟩ := List.getElem?_eq_some_iff.mp hop'
      rw [List.getElem?_append_left hlt]
      exact hop'
    have hcall : Sound D J Q own { v with asked := v.asked ++ [op] } := by
      refine ⟨hv.inv, hv.below, hv.apart, fun p hp => ?_, fun p hp hok => ?_⟩
      · obtain ⟨op', hop', hends⟩ := hv.pending p hp
        exact ⟨op', hgrown hop', hends⟩
      · obtain ⟨op', hop', hQ⟩ := hv.answers p hp hok
        exact ⟨op', hgrown hop', hQ⟩
    have hends := hprog op he (own v.asked.length) v.state hv.inv trivial
    refine ⟨_, sound_enter hlast hcall (n := v.asked.length) ?_ ?_ hends⟩
    · intro p hp heq
      obtain ⟨op', hop', -⟩ := hv.pending p hp
      obtain ⟨hlt, -⟩ := List.getElem?_eq_some_iff.mp hop'
      omega
    · exact List.getElem?_concat_length ..
  | resume j i =>
    obtain ⟨p, hp, rfl⟩ := Option.map_eq_some_iff.mp h
    have hmem := List.mem_of_getElem? hp
    obtain ⟨op, hop, hends⟩ := hv.pending p hmem
    have hrest : Sound D J Q own { v with pending := v.pending.eraseIdx j } :=
      ⟨hv.inv, hv.below, hv.apart, fun q hq => hv.pending q (List.mem_of_mem_eraseIdx hq),
        hv.answers⟩
    -- the state that it relies on already has what the others did meanwhile
    have hpieces := hends i v.state he ⟨hv.inv, D.refl _, fun x _ => D.leaves_refl x _⟩
    refine ⟨_, sound_enter hlast hrest ?_ hop hpieces⟩
    -- the numbers of the others are other numbers
    intro q hq heq
    obtain ⟨hj, rfl⟩ := List.getElem?_eq_some_iff.mp hp
    have hperm := (List.getElem_cons_eraseIdx_perm hj).map Prod.fst
    have hcons := hperm.nodup_iff.mpr (List.nodup_append.mp hnodup).2.1
    refine (List.nodup_cons.mp hcons).1 ?_
    rw [← heq]
    exact List.mem_map_of_mem hq

/-- In every run that takes only such calls and inputs, each request is answered once or pending,
and what one that was answered well is for is true. -/
theorem answered {T : ο → Prop} (hprog : ∀ op, T op →
      Follows D J (fun _ _ => True) (prog op) (fun _ _ s => Q op s))
    (hlast : ∀ op s t, Q op s → D.evolves s t → Q op t) {s : σ} (hs : D.inv s)
    (hrun : Run (step prog) (Takes T J) (start s) v) :
    v.Balanced ∧ ∀ p ∈ v.answers, p.2 = .ok () → ∃ op, v.asked[p.1]? = some op ∧ Q op v.state := by
  have hinv : v.Balanced ∧ ∃ own, Sound D J Q own v := by
    refine Run.invariant (P := fun v => v.Balanced ∧ ∃ own, Sound D J Q own v) ?_ hrun ?_
    · intro v e v' hv hok h
      obtain ⟨own, hown⟩ := hv.2
      exact ⟨balanced_step hv.1 h, sound_step hprog hlast hv.1 hown hok h⟩
    · -- nobody has asked yet, and nobody owns a number
      refine ⟨List.Perm.refl _, fun _ => ∅, hs, ?_, ?_, ?_, ?_⟩
      · intro n x hx
        cases hx
      · intro n m x hx
        cases hx
      · intro p hp
        cases hp
      · intro p hp
        cases hp
  obtain ⟨hb, own, hown⟩ := hinv
  exact ⟨hb, hown.answers⟩

end Server

end Coroutine
