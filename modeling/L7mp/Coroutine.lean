import L7mp.GuardedRun
import Mathlib.Data.List.Basic

/-! Coroutines over a shared state: programs that run until they end or wait, a pool in which
the waiting ones go on in any order, and the rules of what they leave behind. -/
namespace Coroutine
open GuardedRun

/-- A piece of a program was run: it ended, or it waits for an input, holding the facts `l`, and
goes on in the state it finds then. -/
inductive Res (σ ι κ ε α : Type)
  | done (s : σ) (r : Except ε α)
  | wait (s : σ) (l : List κ) (k : ι → σ → Res σ ι κ ε α)

def Co (σ ι κ ε α : Type) : Type := σ → Res σ ι κ ε α

variable {σ ι κ ε α β : Type}

namespace Res

def bind (f : α → Co σ ι κ ε β) : Res σ ι κ ε α → Res σ ι κ ε β
  | .done s (.ok a) => f a s
  | .done s (.error e) => .done s (.error e)
  | .wait s l k => .wait s l (fun i t => (k i t).bind f)

def rescue (f : ε → Co σ ι κ ε α) : Res σ ι κ ε α → Res σ ι κ ε α
  | .done s (.ok a) => .done s (.ok a)
  | .done s (.error e) => f e s
  | .wait s l k => .wait s l (fun i t => (k i t).rescue f)

/-- Every wait holds `l` as well, and the outcome arrives after a last one. -/
def await (l : List κ) : Res σ ι κ ε α → Res σ ι κ ε α
  | .done s r => .wait s l (fun _ t => .done t r)
  | .wait s l' k => .wait s (l ++ l') (fun i t => (k i t).await l)

end Res

namespace Co

instance : Monad (Co σ ι κ ε) where
  pure a := fun s => .done s (.ok a)
  bind p f := fun s => (p s).bind f

instance : MonadExceptOf ε (Co σ ι κ ε) where
  throw e := fun s => .done s (.error e)
  tryCatch p f := fun s => (p s).rescue f

/-- Run a piece of code that does not wait. -/
def atomic (f : σ → Except ε α × σ) : Co σ ι κ ε α := fun s => .done (f s).2 (f s).1

def modify (f : σ → σ) : Co σ ι κ ε Unit := fun s => .done (f s) (.ok ())

def await (l : List κ) (p : Co σ ι κ ε α) : Co σ ι κ ε α := fun s => (p s).await l

/-- Wait for the next input. -/
def input (l : List κ) : Co σ ι κ ε ι := fun s => .wait s l (fun i t => .done t (.ok i))

end Co

/-! What a program guarantees: `G` whenever it waits, `Q` at its end, if between a wait and the
next piece the state changes as `R` says. -/
section Guarantee

variable (G : σ → Prop) (R : σ → List κ → ι → σ → Prop)

def Res.Sat (Q : Except ε α → σ → Prop) : Res σ ι κ ε α → Prop
  | .done s r => Q r s
  | .wait s l k => G s ∧ ∀ i t, R s l i t → (k i t).Sat Q

/-- From a state in `P` the program guarantees `Q`. -/
def Triple (P : σ → Prop) (p : Co σ ι κ ε α) (Q : Except ε α → σ → Prop) : Prop :=
  ∀ s, P s → (p s).Sat G R Q

variable {G R}

theorem Res.Sat.mono {Q Q' : Except ε α → σ → Prop} (h : ∀ r s, Q r s → Q' r s) :
    ∀ {p : Res σ ι κ ε α}, p.Sat G R Q → p.Sat G R Q'
  | .done s r, hp => h r s hp
  | .wait _ _ _, hp => ⟨hp.1, fun i t hr => (hp.2 i t hr).mono h⟩

theorem Res.Sat.bind {Q : Except ε α → σ → Prop} {Q' : Except ε β → σ → Prop}
    {f : α → Co σ ι κ ε β} (hok : ∀ a s, Q (.ok a) s → (f a s).Sat G R Q')
    (herr : ∀ e s, Q (.error e) s → Q' (.error e) s) :
    ∀ {p : Res σ ι κ ε α}, p.Sat G R Q → (p.bind f).Sat G R Q'
  | .done s (.ok a), hp => hok a s hp
  | .done s (.error e), hp => herr e s hp
  | .wait _ _ _, hp => ⟨hp.1, fun i t hr => (hp.2 i t hr).bind hok herr⟩

theorem Res.Sat.rescue {Q Q' : Except ε α → σ → Prop} {f : ε → Co σ ι κ ε α}
    (hok : ∀ a s, Q (.ok a) s → Q' (.ok a) s)
    (herr : ∀ e s, Q (.error e) s → (f e s).Sat G R Q') :
    ∀ {p : Res σ ι κ ε α}, p.Sat G R Q → (p.rescue f).Sat G R Q'
  | .done s (.ok a), hp => hok a s hp
  | .done s (.error e), hp => herr e s hp
  | .wait _ _ _, hp => ⟨hp.1, fun i t hr => (hp.2 i t hr).rescue hok herr⟩

/-- An awaited program guarantees what it did, carried over the last wait. -/
theorem Res.Sat.await {Q Q' : Except ε α → σ → Prop} {l : List κ}
    (hheld : ∀ s l' i t, R s (l ++ l') i t → R s l' i t)
    (hlast : ∀ r s, Q r s → G s ∧ ∀ i t, R s l i t → Q' r t) :
    ∀ {p : Res σ ι κ ε α}, p.Sat G R Q → (p.await l).Sat G R Q'
  | .done s r, hp => hlast r s hp
  | .wait s l' _, hp =>
    ⟨hp.1, fun i t hr => (hp.2 i t (hheld s l' i t hr)).await hheld hlast⟩

namespace Triple

theorem bind {P : σ → Prop} {Q : Except ε α → σ → Prop} {Q' : Except ε β → σ → Prop}
    {p : Co σ ι κ ε α} {f : α → Co σ ι κ ε β} (hp : Triple G R P p Q)
    (hf : ∀ a, Triple G R (Q (.ok a)) (f a) Q')
    (herr : ∀ e s, Q (.error e) s → Q' (.error e) s) : Triple G R P (p >>= f) Q' :=
  fun s hs => (hp s hs).bind hf herr

theorem rescue {P : σ → Prop} {Q Q' : Except ε α → σ → Prop} {p : Co σ ι κ ε α}
    {f : ε → Co σ ι κ ε α} (hp : Triple G R P p Q)
    (hok : ∀ a s, Q (.ok a) s → Q' (.ok a) s)
    (hf : ∀ e, Triple G R (Q (.error e)) (f e) Q') : Triple G R P (tryCatch p f) Q' :=
  fun s hs => (hp s hs).rescue hok hf

theorem conseq {P P' : σ → Prop} {Q Q' : Except ε α → σ → Prop} {p : Co σ ι κ ε α}
    (hp : Triple G R P p Q) (hpre : ∀ s, P' s → P s) (hpost : ∀ r s, Q r s → Q' r s) :
    Triple G R P' p Q' := fun s hs => (hp s (hpre s hs)).mono hpost

end Triple

end Guarantee

/-- A task waits, holding some facts, for an input. -/
structure Task (σ ι κ ε : Type) where
  held : List κ
  next : ι → σ → Res σ ι κ ε Unit

/-- The shared state and the tasks that wait. -/
structure Pool (σ ι κ ε : Type) where
  state : σ
  tasks : List (Task σ ι κ ε)

/-- A program starts, or task `j` goes on with an input. -/
inductive Event (ο ι : Type)
  | call (op : ο)
  | resume (j : ℕ) (i : ι)

namespace Pool

variable {ο : Type} (prog : ο → Co σ ι κ ε Unit)

/-- A piece of code leaves its state, and a task if it waits. -/
def enter (ts : List (Task σ ι κ ε)) : Res σ ι κ ε Unit → Pool σ ι κ ε
  | .done s _ => ⟨s, ts⟩
  | .wait s l k => ⟨s, ts ++ [⟨l, k⟩]⟩

def step (w : Pool σ ι κ ε) : Event ο ι → Option (Pool σ ι κ ε)
  | .call op => some (enter w.tasks (prog op w.state))
  | .resume j i => w.tasks[j]?.map (fun t => enter (w.tasks.eraseIdx j) (t.next i w.state))

/-- A call starts where its precondition holds, and a task goes on where the facts that it holds
are true. -/
def Meets (P : ο → σ → Prop) (H : κ → σ → Prop) (w : Pool σ ι κ ε) : Event ο ι → Prop
  | .call op => P op w.state
  | .resume j _ => ∀ t ∈ w.tasks[j]?, ∀ x ∈ t.held, H x w.state

instance (P : ο → σ → Prop) (H : κ → σ → Prop) [∀ o s, Decidable (P o s)]
    [∀ x s, Decidable (H x s)] (w : Pool σ ι κ ε) : (e : Event ο ι) → Decidable (w.Meets P H e)
  | .call op => inferInstanceAs (Decidable (P op w.state))
  | .resume j _ => inferInstanceAs
      (Decidable (∀ t ∈ w.tasks[j]?, ∀ x ∈ t.held, H x w.state))

variable {prog} {P : ο → σ → Prop} {H : κ → σ → Prop} {I : σ → Prop}

/-- What other tasks may do while one waits: they keep `I`, and what it holds. -/
def Rely (I : σ → Prop) (H : κ → σ → Prop) (_ : σ) (l : List κ) (_ : ι) (t : σ) : Prop :=
  I t ∧ ∀ x ∈ l, H x t

/-- The state is in `I` and every task that goes on as it may keeps it there. -/
def Sound (I : σ → Prop) (H : κ → σ → Prop) (w : Pool σ ι κ ε) : Prop :=
  I w.state ∧ ∀ t ∈ w.tasks, ∀ i s, I s → (∀ x ∈ t.held, H x s) →
    (t.next i s).Sat I (Rely I H) (fun _ => I)

theorem sound_enter {ts : List (Task σ ι κ ε)} {r : Res σ ι κ ε Unit}
    (hts : ∀ t ∈ ts, ∀ i s, I s → (∀ x ∈ t.held, H x s) →
      (t.next i s).Sat I (Rely I H) (fun _ => I))
    (hr : r.Sat I (Rely I H) (fun _ => I)) : (enter ts r).Sound I H := by
  cases r with
  | done s r => exact ⟨hr, hts⟩
  | wait s l k =>
    refine ⟨hr.1, fun t ht i u hu hheld => ?_⟩
    rcases List.mem_append.mp ht with ht | ht
    · exact hts t ht i u hu hheld
    · obtain rfl := List.mem_singleton.mp ht
      exact hr.2 i u ⟨hu, hheld⟩

theorem sound_step
    (hprog : ∀ op, Triple I (Rely I H) (fun s => I s ∧ P op s) (prog op) (fun _ => I))
    {w w' : Pool σ ι κ ε} {e : Event ο ι} (hw : w.Sound I H) (hok : w.Meets P H e)
    (h : w.step prog e = some w') : w'.Sound I H := by
  cases e with
  | call op =>
    cases h
    exact sound_enter hw.2 (hprog op w.state ⟨hw.1, hok⟩)
  | resume j i =>
    obtain ⟨t, ht, rfl⟩ := Option.map_eq_some_iff.mp h
    have hmem := List.mem_of_getElem? ht
    apply sound_enter
    · intro u hu
      exact hw.2 u (List.mem_of_mem_eraseIdx hu)
    · exact hw.2 t hmem i w.state hw.1 (hok t ht)

/-- An invariant of the programs holds in every state that the pool reaches. -/
theorem invariant
    (hprog : ∀ op, Triple I (Rely I H) (fun s => I s ∧ P op s) (prog op) (fun _ => I))
    {s : σ} (hs : I s) {w : Pool σ ι κ ε} (h : Run (step prog) (Meets P H) ⟨s, []⟩ w) :
    I w.state := by
  have hw : w.Sound I H := by
    refine Run.invariant (P := Sound I H) ?_ h ⟨hs, ?_⟩
    · intro w e w' hw hok hstep
      exact sound_step hprog hw hok hstep
    · intro t ht
      cases ht
  exact hw.1

/-- From a state of the invariant in which `P` holds, the program keeps the invariant while others
run between its pieces, and returns only in `Q`. -/
def Keeps (I : σ → Prop) (H : κ → σ → Prop) (P : σ → Prop) (p : Co σ ι κ ε α)
    (Q : α → σ → Prop) : Prop :=
  Triple I (Rely I H) (fun s => I s ∧ P s) p (fun r s => I s ∧ ∀ a, r = .ok a → Q a s)

namespace Keeps

variable {P : σ → Prop} {Q : α → σ → Prop}

theorem pure {a : α} (h : ∀ s, P s → Q a s) :
    Keeps I H P (Pure.pure a : Co σ ι κ ε α) Q := by
  intro s ⟨hi, hp⟩
  refine ⟨hi, fun b hb => ?_⟩
  cases hb
  exact h s hp

theorem throw (e : ε) : Keeps I H P (MonadExcept.throw e : Co σ ι κ ε α) Q := by
  intro s ⟨hi, _⟩
  exact ⟨hi, nofun⟩

theorem atomic {f : σ → Except ε α × σ}
    (h : ∀ s, I s → P s → I (f s).2 ∧ ∀ a, (f s).1 = .ok a → Q a (f s).2) :
    Keeps I H P (Co.atomic f : Co σ ι κ ε α) Q := fun s hs => h s hs.1 hs.2

theorem modify {f : σ → σ} {Q : Unit → σ → Prop} (h : ∀ s, I s → P s → I (f s) ∧ Q () (f s)) :
    Keeps I H P (Co.modify f : Co σ ι κ ε Unit) Q := fun s hs =>
  ⟨(h s hs.1 hs.2).1, fun _ _ => (h s hs.1 hs.2).2⟩

theorem bind {p : Co σ ι κ ε α} {f : α → Co σ ι κ ε β} {Q' : β → σ → Prop}
    (hp : Keeps I H P p Q) (hf : ∀ a, Keeps I H (Q a) (f a) Q') :
    Keeps I H P (p >>= f) Q' := by
  refine Triple.bind hp (fun a s hs => hf a s ⟨hs.1, hs.2 a rfl⟩) ?_
  intro e s hs
  exact ⟨hs.1, nofun⟩

theorem rescue {p : Co σ ι κ ε α} {f : ε → Co σ ι κ ε α} (hp : Keeps I H P p Q)
    (hf : ∀ e, Keeps I H (fun _ => True) (f e) Q) : Keeps I H P (tryCatch p f) Q := by
  refine Triple.rescue hp (fun a s hs => hs) ?_
  intro e s hs
  exact hf e s ⟨hs.1, trivial⟩

/-- What a program holds while it waits is still true when it goes on. -/
theorem await {p : Co σ ι κ ε α} {l : List κ} (hp : Keeps I H P p (fun _ _ => True)) :
    Keeps I H P (Co.await l p) (fun _ s => ∀ x ∈ l, H x s) := by
  intro s hs
  refine (hp s hs).await ?_ ?_
  · intro u l' i t hr
    exact ⟨hr.1, fun x hx => hr.2 x (List.mem_append_right l hx)⟩
  · intro r u hu
    exact ⟨hu.1, fun i t hr => ⟨hr.1, fun _ _ => hr.2⟩⟩

theorem input {l : List κ} :
    Keeps I H P (Co.input l : Co σ ι κ ε ι) (fun _ s => ∀ x ∈ l, H x s) :=
  fun _ hs => ⟨hs.1, fun _ _ hr => ⟨hr.1, fun _ _ => hr.2⟩⟩

theorem conseq {p : Co σ ι κ ε α} {P' : σ → Prop} {Q' : α → σ → Prop} (hp : Keeps I H P p Q)
    (hpre : ∀ s, P' s → P s) (hpost : ∀ a s, Q a s → Q' a s) : Keeps I H P' p Q' :=
  Triple.conseq hp (fun s hs => ⟨hs.1, hpre s hs.2⟩)
    (fun _ s hs => ⟨hs.1, fun a ha => hpost a s (hs.2 a ha)⟩)

end Keeps

end Pool

end Coroutine
