import L7mp.GuardedRun
import Mathlib.Data.List.Chain
import Mathlib.Data.List.Infix
import Mathlib.Logic.Function.Basic

/-! Processes joined by pipes that keep the order of the items. The processes take turns in any
order. What a process was given and what still waits for it are together what the process before
it has emitted, and so the schedule does not show in what arrives at the end of a path. -/
namespace Dataflow
open GuardedRun

variable {ι α : Type*}

/-- What a process emits for an item, after the items that it was given before. -/
abbrev Process (α : Type*) := List α → α → List α

/-- All that a process emits for the items `xs`, after the items `past`. -/
def produceFrom (f : Process α) : List α → List α → List α
  | _, [] => []
  | past, x :: xs => f past x ++ produceFrom f (past ++ [x]) xs

def produce (f : Process α) (xs : List α) : List α := produceFrom f [] xs

theorem produceFrom_append (f : Process α) : ∀ past xs ys : List α,
    produceFrom f past (xs ++ ys) = produceFrom f past xs ++ produceFrom f (past ++ xs) ys
  | past, [], ys => by
    rw [List.nil_append, List.append_nil]
    rfl
  | past, x :: xs, ys => by
    have hrest := produceFrom_append f (past ++ [x]) xs ys
    have hpast : past ++ [x] ++ xs = past ++ x :: xs := List.append_assoc _ _ _
    rw [List.cons_append, produceFrom, produceFrom, hrest, hpast, List.append_assoc]

theorem produce_append (f : Process α) (xs ys : List α) :
    produce f (xs ++ ys) = produce f xs ++ produceFrom f xs ys :=
  produceFrom_append f [] xs ys

theorem produce_concat (f : Process α) (xs : List α) (x : α) :
    produce f (xs ++ [x]) = produce f xs ++ f xs x := by
  rw [produce_append, produceFrom, produceFrom, List.append_nil]

/-- A process never takes back what it has emitted. -/
theorem produce_mono (f : Process α) {xs ys : List α} (h : xs <+: ys) :
    produce f xs <+: produce f ys := by
  obtain ⟨zs, rfl⟩ := h
  rw [produce_append]
  exact List.prefix_append _ _

/-- One process after the other. -/
def composite (process : ι → Process α) : List ι → List α → List α
  | [], xs => xs
  | i :: l, xs => composite process l (produce (process i) xs)

theorem composite_append (process : ι → Process α) : ∀ (l l' : List ι) (xs : List α),
    composite process (l ++ l') xs = composite process l' (composite process l xs)
  | [], _, _ => rfl
  | i :: l, l', xs => composite_append process l l' (produce (process i) xs)

theorem composite_mono (process : ι → Process α) : ∀ (l : List ι) {xs ys : List α},
    xs <+: ys → composite process l xs <+: composite process l ys
  | [], _, _, h => h
  | i :: l, _, _, h => composite_mono process l (produce_mono (process i) h)

/-! ### Networks -/

/-- `origin i` says that `i` emits on its own account and not for what it is given. -/
structure Net (ι α : Type*) where
  pipes : List (ι × ι)
  process : ι → Process α
  origin : ι → Bool

/-- `past i` was given to `i`, `queue i` is on its way there, and `sent i` was emitted by `i`. -/
structure State (ι α : Type*) where
  past : ι → List α
  queue : ι → List α
  sent : ι → List α

/-- Nothing has been emitted. -/
def State.start : State ι α := ⟨fun _ => [], fun _ => [], fun _ => []⟩

inductive Event (ι α : Type*)
  | emit (i : ι) (x : α)
  | work (i : ι)

/-- What `i` emits when it is given `x`. -/
def Net.reply (n : Net ι α) (i : ι) (past : List α) (x : α) : List α :=
  if n.origin i then [] else n.process i past x

theorem reply_origin {n : Net ι α} {i : ι} (h : n.origin i = true) (past : List α) (x : α) :
    n.reply i past x = [] := by
  unfold Net.reply
  rw [h]
  rfl

variable [DecidableEq ι]

/-- The items of `ys` are written to every pipe out of `i`, one after the other. -/
def State.deliver (s : State ι α) (pipes : List (ι × ι)) (i : ι) (ys : List α) : State ι α :=
  { s with
    sent := Function.update s.sent i (s.sent i ++ ys)
    queue := fun j => s.queue j ++ ys.flatMap (List.replicate (pipes.count (i, j))) }

def Net.step (n : Net ι α) (s : State ι α) : Event ι α → Option (State ι α)
  | .emit i x => if n.origin i then some (s.deliver n.pipes i [x]) else none
  | .work i => match s.queue i with
    | [] => none
    | x :: rest => some (State.deliver
        { s with
          past := Function.update s.past i (s.past i ++ [x])
          queue := Function.update s.queue i rest } n.pipes i (n.reply i (s.past i) x))

/-- The pipe from `i` is the only one to `j`. -/
def Net.Feeds (n : Net ι α) (i j : ι) : Prop :=
  ∀ k, n.pipes.count (k, j) = if k = i then 1 else 0

/-- Nothing is lost or changed on a pipe, and what a process has emitted is the answer to what
it was given. -/
structure Net.Sound (n : Net ι α) (s : State ι α) : Prop where
  conserved : ∀ i j, n.Feeds i j → s.past j ++ s.queue j = s.sent i
  answered : ∀ i, n.origin i = false → s.sent i = produce (n.process i) (s.past i)

variable {n : Net ι α} {s t : State ι α}

theorem sound_start : n.Sound .start where
  conserved _ _ _ := rfl
  answered _ _ := rfl

theorem flatMap_replicate_one (ys : List α) : ys.flatMap (List.replicate 1) = ys := by
  induction ys with
  | nil => rfl
  | cons y ys ih => rw [List.flatMap_cons, ih, List.replicate_one, List.singleton_append]

theorem flatMap_replicate_zero (ys : List α) : ys.flatMap (List.replicate 0) = [] := by
  apply List.flatMap_eq_nil_iff.mpr
  intro y _
  rfl

/-- What is written to the pipes of `k` arrives at `j` if `k` is before `j`, and else does not. -/
theorem queue_deliver {i j : ι} (h : n.Feeds i j) (s : State ι α) (k : ι) (ys : List α) :
    (s.deliver n.pipes k ys).queue j = s.queue j ++ if k = i then ys else [] := by
  have hcount := h k
  change s.queue j ++ ys.flatMap (List.replicate (n.pipes.count (k, j))) = _
  rw [hcount]
  by_cases hk : k = i
  · rw [if_pos hk, if_pos hk, flatMap_replicate_one]
  · rw [if_neg hk, if_neg hk, flatMap_replicate_zero]

theorem sent_deliver (s : State ι α) (pipes : List (ι × ι)) (k i : ι) (ys : List α) :
    (s.deliver pipes k ys).sent i = s.sent i ++ if k = i then ys else [] := by
  change Function.update s.sent k (s.sent k ++ ys) i = _
  by_cases hk : k = i
  · rw [if_pos hk, hk, Function.update_self]
  · rw [if_neg hk, Function.update_of_ne (Ne.symm hk), List.append_nil]

/-- A process is given the next item. -/
theorem step_work {i : ι} (h : n.step s (.work i) = some t) : ∃ x rest, s.queue i = x :: rest ∧
    t = State.deliver { s with
      past := Function.update s.past i (s.past i ++ [x])
      queue := Function.update s.queue i rest } n.pipes i (n.reply i (s.past i) x) := by
  unfold Net.step at h
  cases hq : s.queue i with
  | nil =>
    simp only [hq] at h
    cases h
  | cons x rest =>
    simp only [hq, Option.some.injEq] at h
    exact ⟨x, rest, rfl, h.symm⟩

theorem step_emit {i : ι} {x : α} (h : n.step s (.emit i x) = some t) :
    n.origin i = true ∧ t = s.deliver n.pipes i [x] := by
  unfold Net.step at h
  by_cases hi : n.origin i = true
  · simp only [hi, if_true, Option.some.injEq] at h
    exact ⟨hi, h.symm⟩
  · simp only [if_neg hi] at h
    cases h

/-- An item moves from the queue to the past, and so both together stay what they are. -/
theorem past_queue_move {i : ι} {x : α} {rest : List α} (h : s.queue i = x :: rest) (j : ι) :
    Function.update s.past i (s.past i ++ [x]) j ++ Function.update s.queue i rest j =
      s.past j ++ s.queue j := by
  by_cases hj : j = i
  · rw [hj, Function.update_self, Function.update_self, h, List.append_assoc,
      List.singleton_append]
  · rw [Function.update_of_ne hj, Function.update_of_ne hj]

theorem Net.Sound.step (h : n.Sound s) {e : Event ι α} (he : n.step s e = some t) :
    n.Sound t := by
  cases e with
  | emit k x =>
    obtain ⟨hk, rfl⟩ := step_emit he
    refine ⟨?_, ?_⟩
    · intro i j hij
      have hbefore := h.conserved i j hij
      rw [queue_deliver hij, sent_deliver, ← hbefore, List.append_assoc]
      rfl
    · intro i hi
      -- the emitting node is not one that answers
      have hki : k ≠ i := by
        intro heq
        rw [heq, hi] at hk
        cases hk
      rw [sent_deliver, if_neg hki, List.append_nil]
      exact h.answered i hi
  | work k =>
    obtain ⟨x, rest, hq, rfl⟩ := step_work he
    refine ⟨?_, ?_⟩
    · intro i j hij
      have hbefore := h.conserved i j hij
      have hmove := past_queue_move hq j
      rw [queue_deliver hij, sent_deliver, ← hbefore, ← hmove, List.append_assoc]
      rfl
    · intro i hi
      have hbefore := h.answered i hi
      rw [sent_deliver]
      change s.sent i ++ _ = produce (n.process i) (Function.update s.past k (s.past k ++ [x]) i)
      by_cases hki : k = i
      · have hreply : n.reply i (s.past i) x = n.process i (s.past i) x := by
          unfold Net.reply
          rw [hi]
          rfl
        rw [if_pos hki, hki, Function.update_self, produce_concat, hreply, hbefore]
      · rw [if_neg hki, Function.update_of_ne (Ne.symm hki), List.append_nil, hbefore]

theorem Net.Sound.run (h : n.Sound s) (hrun : Run n.step always s t) : n.Sound t := by
  refine hrun.invariant ?_ h
  intro s e t hs _ he
  exact hs.step he

/-! ### Paths -/

/-- A path from `i` over the processes `l` to `j`, without another way into it. -/
structure Net.Path (n : Net ι α) (i : ι) (l : List ι) (j : ι) : Prop where
  chain : List.IsChain n.Feeds (i :: (l ++ [j]))
  inner : ∀ k ∈ l, n.origin k = false

theorem Net.Path.head {i k j : ι} {l : List ι} (h : n.Path i (k :: l) j) : n.Feeds i k :=
  (List.isChain_cons_cons.mp h.chain).1

theorem Net.Path.tail {i k j : ι} {l : List ι} (h : n.Path i (k :: l) j) : n.Path k l j where
  chain := (List.isChain_cons_cons.mp h.chain).2
  inner m hm := h.inner m (List.mem_cons_of_mem k hm)

/-- What has arrived at the end of a path is the beginning of what the processes of the path make
of what was sent, in whatever order they took their turns. -/
theorem Net.Sound.arrives (h : n.Sound s) {j : ι} : ∀ {l : List ι} {i : ι}, n.Path i l j →
    s.past j ++ s.queue j <+: composite n.process l (s.sent i)
  | [], i, hpath => by
    have hfeeds := (List.isChain_cons_cons.mp hpath.chain).1
    rw [h.conserved i j hfeeds]
    exact List.prefix_rfl
  | k :: l, i, hpath => by
    have hrest := h.arrives hpath.tail
    have hconserved := h.conserved i k hpath.head
    have hanswered := h.answered k (hpath.inner k List.mem_cons_self)
    have hpast : s.past k <+: s.sent i := by
      rw [← hconserved]
      exact List.prefix_append _ _
    refine hrest.trans ?_
    rw [hanswered]
    exact composite_mono n.process l (produce_mono (n.process k) hpast)

/-- When nothing is on its way, everything has arrived. -/
theorem Net.Sound.arrived (h : n.Sound s) {j : ι} : ∀ {l : List ι} {i : ι}, n.Path i l j →
    (∀ k ∈ l ++ [j], s.queue k = []) → s.past j = composite n.process l (s.sent i)
  | [], i, hpath, hempty => by
    have hfeeds := (List.isChain_cons_cons.mp hpath.chain).1
    have hconserved := h.conserved i j hfeeds
    rw [hempty j (by simp), List.append_nil] at hconserved
    exact hconserved
  | k :: l, i, hpath, hempty => by
    have hrest := h.arrived hpath.tail (fun m hm => hempty m (List.mem_cons_of_mem k hm))
    have hconserved := h.conserved i k hpath.head
    have hanswered := h.answered k (hpath.inner k List.mem_cons_self)
    rw [hempty k List.mem_cons_self, List.append_nil] at hconserved
    calc s.past j = composite n.process l (s.sent k) := hrest
      _ = composite n.process l (produce (n.process k) (s.past k)) := by rw [hanswered]
      _ = composite n.process (k :: l) (s.sent i) := by rw [hconserved]; rfl

/-! ### Draining a path -/

/-- Only the processes of `l` take turns. -/
def worksOn (l : List ι) (_ : State ι α) (e : Event ι α) : Prop := ∃ i ∈ l, e = .work i

/-- What turns of the processes of `l` leave alone. -/
structure Net.Leaves (n : Net ι α) (l : List ι) (s t : State ι α) : Prop where
  past : ∀ i, i ∉ l → t.past i = s.past i
  sent : ∀ i, i ∉ l ∨ n.origin i = true → t.sent i = s.sent i
  queue : ∀ i j, n.Feeds i j → (i ∉ l ∨ n.origin i = true) → j ∉ l → t.queue j = s.queue j

theorem Net.Leaves.refl (n : Net ι α) (l : List ι) (s : State ι α) : n.Leaves l s s :=
  ⟨fun _ _ => rfl, fun _ _ => rfl, fun _ _ _ _ _ => rfl⟩

theorem Net.Leaves.trans {l : List ι} {u : State ι α} (h : n.Leaves l s t)
    (h' : n.Leaves l t u) : n.Leaves l s u where
  past i hi := (h'.past i hi).trans (h.past i hi)
  sent i hi := (h'.sent i hi).trans (h.sent i hi)
  queue i j hij hi hj := (h'.queue i j hij hi hj).trans (h.queue i j hij hi hj)

theorem leaves_step {l : List ι} {e : Event ι α} (hok : worksOn l s e)
    (he : n.step s e = some t) : n.Leaves l s t := by
  obtain ⟨k, hk, rfl⟩ := hok
  obtain ⟨x, rest, _, rfl⟩ := step_work he
  have hne : ∀ i, i ∉ l → i ≠ k := fun i hi h => hi (h ▸ hk)
  -- an origin in `l` takes its turn without an answer
  have hquiet : ∀ i, i ∉ l ∨ n.origin i = true →
      (if k = i then n.reply k (s.past k) x else []) = [] := by
    intro i hi
    by_cases hki : k = i
    · rw [if_pos hki]
      rcases hi with hi | hi
      · exact absurd hki.symm (hne i hi)
      · exact reply_origin (hki ▸ hi) _ _
    · rw [if_neg hki]
  refine ⟨?_, ?_, ?_⟩
  · intro i hi
    exact Function.update_of_ne (hne i hi) _ _
  · intro i hi
    rw [sent_deliver, hquiet i hi, List.append_nil]
  · intro i j hij hi hj
    rw [queue_deliver hij, hquiet i hi, List.append_nil]
    exact Function.update_of_ne (hne j hj) _ _

theorem leaves_run {l : List ι} (h : Run n.step (worksOn l) s t) : n.Leaves l s t := by
  refine Run.relates (P := fun _ => True) (Net.Leaves.refl n l)
    (fun _ _ _ h h' => h.trans h') ?_ h trivial
  intro s e t _ hok he
  exact ⟨trivial, leaves_step hok he⟩

theorem worksOn_mono {l l' : List ι} (hl : l ⊆ l') (h : Run n.step (worksOn l) s t) :
    Run n.step (worksOn l') s t := by
  refine h.mono ?_
  rintro s e ⟨i, hi, rfl⟩
  exact ⟨i, hl hi, rfl⟩

/-- A process that is not given its own answers comes to the end of its queue. -/
theorem drain_one {i k : ι} (hik : n.Feeds i k) (h : i ≠ k ∨ n.origin i = true) :
    ∀ (q : List α) (s : State ι α), s.queue k = q →
      ∃ t, Run n.step (worksOn [k]) s t ∧ t.queue k = []
  | [], s, hq => ⟨s, Run.refl s, hq⟩
  | x :: rest, s, hq => by
    let next := State.deliver { s with
      past := Function.update s.past k (s.past k ++ [x])
      queue := Function.update s.queue k rest } n.pipes k (n.reply k (s.past k) x)
    have hstep : n.step s (.work k) = some next := by
      unfold Net.step
      simp only [hq]
      rfl
    have hnext : next.queue k = rest := by
      have hself : Function.update s.queue k rest k = rest := Function.update_self k rest s.queue
      have hquiet : (if k = i then n.reply k (s.past k) x else []) = [] := by
        by_cases hki : k = i
        · rw [if_pos hki]
          rcases h with h | h
          · exact absurd hki.symm h
          · exact reply_origin (hki ▸ h) _ _
        · rw [if_neg hki]
      rw [queue_deliver hik, hquiet, List.append_nil]
      exact hself
    obtain ⟨t, hrun, ht⟩ := drain_one hik h rest next hnext
    have hok : worksOn [k] s (Event.work k) := ⟨k, List.mem_singleton_self k, rfl⟩
    exact ⟨t, Relation.ReflTransGen.head ⟨.work k, hok, hstep⟩ hrun, ht⟩

/-- The processes of a path come to the end of their queues, one after the other. -/
theorem drain : ∀ {l : List ι} {i : ι}, List.IsChain n.Feeds (i :: l) → l.Nodup →
    (i ∉ l ∨ n.origin i = true) → ∀ s : State ι α,
      ∃ t, Run n.step (worksOn l) s t ∧ ∀ k ∈ l, t.queue k = []
  | [], _, _, _, _, s => ⟨s, Run.refl s, fun k hk => by cases hk⟩
  | k :: l, i, hchain, hn, hi, s => by
    obtain ⟨hik, hrest⟩ := List.isChain_cons_cons.mp hchain
    obtain ⟨hkl, hln⟩ := List.nodup_cons.mp hn
    have hik' : i ≠ k ∨ n.origin i = true :=
      hi.imp_left (fun hm heq => hm (heq ▸ List.mem_cons_self))
    have hil : i ∉ l ∨ n.origin i = true :=
      hi.imp_left (fun hm hmem => hm (List.mem_cons_of_mem k hmem))
    obtain ⟨u, hsu, hu⟩ := drain_one hik hik' (s.queue k) s rfl
    obtain ⟨t, hut, ht⟩ := drain hrest hln (Or.inl hkl) u
    refine ⟨t, ?_, ?_⟩
    · have hk : [k] ⊆ k :: l := List.cons_subset_cons k (List.nil_subset l)
      have hfirst := worksOn_mono hk hsu
      exact hfirst.trans (worksOn_mono (List.subset_cons_self k l) hut)
    · intro m hm
      rcases List.mem_cons.mp hm with rfl | hm
      · -- the turns after its own do not fill the queue again
        rw [(leaves_run hut).queue i m hik hil hkl, hu]
      · exact ht m hm

/-- From every state in which nothing was lost, turns of the processes of a path alone bring
everything to its end. -/
theorem Net.Sound.delivers (h : n.Sound s) {i j : ι} {l : List ι} (hpath : n.Path i l j)
    (hn : (l ++ [j]).Nodup) (hi : i ∉ l ++ [j] ∨ n.origin i = true) :
    ∃ t, Run n.step (worksOn (l ++ [j])) s t ∧ t.sent i = s.sent i ∧
      t.past j = composite n.process l (s.sent i) := by
  obtain ⟨t, hrun, hempty⟩ := drain hpath.chain hn hi s
  have hsound : n.Sound t := h.run (hrun.mono (fun _ _ _ => trivial))
  have hsent : t.sent i = s.sent i := (leaves_run hrun).sent i hi
  refine ⟨t, hrun, hsent, ?_⟩
  rw [← hsent]
  exact hsound.arrived hpath hempty

end Dataflow
