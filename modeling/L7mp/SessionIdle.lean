import L7mp.SessionIdentity
import L7mp.SessionLifecycle

/-! Two facts about one session that the list of all sessions needs: a session that is not
finalised a second time emits `destroy` once, and an idle session never connects again. -/
namespace L7mp

namespace Lifecycle

/-- The move finalises the session or brings it back to life. -/
def Move.Final : Move → Prop
  | .connected | .error _ | .end_ => True
  | .lose _ | .tick => False

instance (m : Move) : Decidable m.Final :=
  match m with
  | .connected | .error _ | .end_ => inferInstanceAs (Decidable True)
  | .lose _ | .tick => inferInstanceAs (Decidable False)

/-- The `destroy` event was emitted, or will be when the tracking timer fires, exactly if the
session is destroyed, and then once. -/
structure Settled (l : Lifecycle) : Prop where
  alive : l.status ≠ .destroyed → l.emitted.count .destroy + l.timers = 0
  dead : l.status = .destroyed → l.emitted.count .destroy + l.timers = 1
  untracked : l.track = 0 → l.timers = 0

theorem Settled.emit {l : Lifecycle} (h : l.Settled) {e : Emit} (he : e ≠ .destroy) :
    (l.emit e).Settled := by
  have hcount : (l.emit e).emitted.count .destroy = l.emitted.count .destroy := by
    change (l.emitted ++ [e]).count .destroy = _
    rw [List.count_append, List.count_singleton, beq_false_of_ne he]
    rfl
  constructor
  case alive =>
    rw [hcount]
    exact h.alive
  case dead =>
    rw [hcount]
    exact h.dead
  case untracked => exact h.untracked

theorem Settled.setStatus {l : Lifecycle} (h : l.Settled) (hl : l.status ≠ .destroyed)
    {st : SessionStatus} (hst : st ≠ .destroyed) : (l.setStatus st).Settled :=
  ⟨fun _ => h.alive hl, fun hd => absurd hd hst, h.untracked⟩

theorem Settled.destroy {l : Lifecycle} (h : l.Settled) (hl : l.status ≠ .destroyed) :
    l.destroy.Settled := by
  have hzero := h.alive hl
  unfold Lifecycle.destroy announce
  change (ite (l.track = 0) _ _ : Lifecycle).Settled
  split_ifs with ht
  · refine ⟨fun hd => absurd rfl hd, fun _ => ?_, fun _ => h.untracked ht⟩
    change (l.emitted ++ [Emit.destroy]).count .destroy + l.timers = 1
    rw [List.count_append, List.count_singleton_self]
    omega
  · refine ⟨fun hd => absurd rfl hd, fun _ => ?_, fun hu => absurd hu ht⟩
    change l.emitted.count .destroy + (l.timers + 1) = 1
    omega

theorem Settled.apply {l : Lifecycle} (h : l.Settled) {m : Move}
    (hm : m.Final → l.status ≠ .destroyed) : (l.apply m).Settled := by
  cases m with
  | lose origin =>
    simp only [Lifecycle.apply]
    split_ifs
    · exact h.emit (by simp)
    · exact h
  | tick =>
    simp only [Lifecycle.apply]
    split_ifs with ht
    · exact h
    · -- the timer turns into the event that it stands for
      have hsum : (l.emitted ++ [Emit.destroy]).count .destroy + (l.timers - 1) =
          l.emitted.count .destroy + l.timers := by
        rw [List.count_append, List.count_singleton_self]
        omega
      exact ⟨fun hl => hsum.trans (h.alive hl), fun hl => hsum.trans (h.dead hl),
        fun hu => absurd (h.untracked hu) ht⟩
  | connected =>
    exact (h.setStatus (hm trivial) (by decide)).emit (by decide)
  | error thr =>
    have hfin := h.setStatus (hm trivial) (by decide : SessionStatus.finalizing ≠ .destroyed)
    simp only [Lifecycle.apply, error]
    split_ifs
    · exact (hfin.emit (by decide)).destroy (by decide : SessionStatus.finalizing ≠ .destroyed)
    · exact hfin.emit (by decide)
    · exact ((hfin.emit (by decide)).emit (by decide)).destroy
        (by decide : SessionStatus.finalizing ≠ .destroyed)
  | end_ =>
    have hfin := h.setStatus (hm trivial) (by decide : SessionStatus.finalizing ≠ .destroyed)
    exact (hfin.emit (by decide)).destroy (by decide : SessionStatus.finalizing ≠ .destroyed)

end Lifecycle

namespace Session
open Lifecycle (Settled)

/-- A piece of code calls at most one method that finalises, after a `disconnect` event. -/
theorem moves_cases (s : Session) (e : Event) : s.moves e = [] ∨ (∃ m, s.moves e = [m]) ∨
    ∃ origin m, s.moves e = [.lose origin, m] := by
  have hdisc (thr : Bool) (st : Stage) : s.disconnectMoves thr st = [] ∨
      (∃ m, s.disconnectMoves thr st = [m]) ∨
      ∃ origin m, s.disconnectMoves thr st = [.lose origin, m] := by
    unfold disconnectMoves
    split
    · split
      · exact .inr (.inl ⟨_, rfl⟩)
      · split
        · split_ifs
          · exact .inr (.inl ⟨_, rfl⟩)
          · exact .inr (.inr ⟨_, _, rfl⟩)
        · split_ifs
          · exact .inr (.inl ⟨_, rfl⟩)
          · exact .inr (.inr ⟨_, _, rfl⟩)
        all_goals exact .inr (.inr ⟨_, _, rfl⟩)
    · exact .inl rfl
  cases e with
  | streamOk | streamFail | timer | listenerOk | listenerFail | resume => exact .inl rfl
  | end_ | error | destroyTimer | giveUp | pipelineOk | pipelineFail => exact .inr (.inl ⟨_, rfl⟩)
  | lost i env thr =>
    simp only [moves]
    split
    · exact .inl rfl
    · split_ifs
      · exact hdisc ..
      · exact .inl rfl
  | disconnect i env thr =>
    simp only [moves]
    split
    · exact .inl rfl
    · exact hdisc ..
  | rejoin k thr =>
    simp only [moves]
    split
    · split_ifs
      · exact .inr (.inl ⟨_, rfl⟩)
      · exact .inr (.inl ⟨_, rfl⟩)
      · exact .inl rfl
    · exact .inl rfl

/-- The piece of code does not finalise or revive a session that is destroyed. -/
def Spares (s : Session) (e : Event) : Prop :=
  s.status = .destroyed → ∀ m ∈ s.moves e, ¬m.Final

instance (s : Session) (e : Event) : Decidable (s.Spares e) :=
  inferInstanceAs (Decidable (s.status = .destroyed → ∀ m ∈ s.moves e, ¬m.Final))

theorem settled_step {s t : Session} {e : Event} (hs : s.lifecycle.Settled) (hok : s.Spares e)
    (h : s.step e = some t) : t.lifecycle.Settled := by
  have halive {m : Lifecycle.Move} (hm : m ∈ s.moves e) (hf : m.Final) :
      s.lifecycle.status ≠ .destroyed := fun hd => hok hd m hm hf
  rw [step_lifecycle h]
  rcases s.moves_cases e with hm | ⟨m, hm⟩ | ⟨origin, m, hm⟩
  · rw [hm]
    exact hs
  · rw [hm] at halive ⊢
    exact hs.apply (halive List.mem_cons_self)
  · rw [hm] at halive ⊢
    -- the `disconnect` event leaves the status as it is
    have hlose : (s.lifecycle.apply (.lose origin)).status = s.lifecycle.status := by
      simp only [Lifecycle.apply]
      split_ifs <;> rfl
    refine (hs.apply (m := .lose origin) (fun hf => hf.elim)).apply (fun hf => ?_)
    rw [hlose]
    exact halive (List.mem_cons_of_mem _ List.mem_cons_self) hf

theorem settled_start (name : String) (id : ℕ) (origin : String) (err : Bool) (st : Start) :
    (start name id origin err st).lifecycle.Settled := by
  have hnew (track : ℕ) : Settled ⟨.init, [.init], 0, track, err⟩ := by
    constructor <;> simp
  cases st with
  | failed track lookedUp thr =>
    have herr := (hnew track).apply (m := .error thr) (by simp)
    have heq : (start name id origin err (.failed track lookedUp thr)).lifecycle =
        Lifecycle.error thr ⟨.init, [.init], 0, track, err⟩ := by
      simp only [start]
      split_ifs <;> rw [lifecycle_error] <;> rfl
    rw [heq]
    exact herr
  | piped track reconnect route env => exact hnew track

/-- The session waits for no connect and hears from no stream. -/
structure Idle (s : Session) : Prop where
  settled : s.settingUp = false
  tasks : ∀ p ∈ s.tasks, p.2 = .connect false .resolved ∨ p.2 = .connect false .rejected
  deaf : ∀ st ∈ s.getStages, st.listening = false

instance (s : Session) : Decidable s.Idle :=
  decidable_of_iff (s.settingUp = false ∧
      (∀ p ∈ s.tasks, p.2 = .connect false .resolved ∨ p.2 = .connect false .rejected) ∧
      ∀ st ∈ s.getStages, st.listening = false)
    ⟨fun h => ⟨h.1, h.2.1, h.2.2⟩, fun h => ⟨h.1, h.2, h.3⟩⟩

/-- The piece of code may run `Stage.connect`, which looks the session up by its name. -/
def LooksUp (s : Session) : Event → Prop
  | .timer .. | .disconnect .. => True
  | .lost i _ _ => ∃ st, s.stage? i = some st ∧ st.listening = true
  | _ => False

theorem Idle.task {s : Session} (h : s.Idle) {k i : ℕ} {t : Task}
    (hk : s.tasks[k]? = some (i, t)) :
    t = .connect false .resolved ∨ t = .connect false .rejected :=
  h.tasks _ (List.mem_of_getElem? hk)

theorem Idle.map {s t : Session} (h : s.Idle) {g : Stage → Stage}
    (hg : ∀ st, (g st).listening = true → st.listening = true)
    (hset : t.settingUp = s.settingUp) (htasks : t.tasks = s.tasks)
    (hstages : t.getStages = s.getStages.map g) : t.Idle := by
  refine ⟨hset.trans h.settled, htasks ▸ h.tasks, fun st hst => ?_⟩
  rw [hstages] at hst
  obtain ⟨st', hst', rfl⟩ := List.mem_map.mp hst
  have hdeaf := h.deaf st' hst'
  by_contra hl
  rw [hg st' (by simpa using hl)] at hdeaf
  cases hdeaf

theorem Idle.destroy {s : Session} (h : s.Idle) : s.destroy.Idle := by
  have hstages : s.destroyStages.getStages = s.getStages.map Stage.destroyed :=
    getStages_mapStages Stage.destroyed s
  have hann (u : Session) (hu : u.Idle) : u.announce.Idle := by
    unfold announce
    split_ifs
    · exact ⟨hu.settled, hu.tasks, hu.deaf⟩
    · exact ⟨hu.settled, hu.tasks, hu.deaf⟩
  exact hann _ (h.map Frame.destroyed_calm.listening rfl rfl hstages)

/-- An idle session stays idle and looks nothing up, unless the API disconnects a stage. -/
theorem Idle.step {s t : Session} (h : s.Idle) {e : Event} (hs : s.step e = some t)
    (hapi : ∀ i env thr, e ≠ .disconnect i env thr) : t.Idle ∧ ¬s.LooksUp e := by
  have hbusy {k i : ℕ} {task : Task} (hk : s.tasks[k]? = some (i, task))
      (hne : task ≠ .connect false .resolved ∧ task ≠ .connect false .rejected) : False :=
    (h.task hk).elim hne.1 hne.2
  cases e with
  | streamOk k ep | streamFail k abrupt | timer k env | listenerOk k | listenerFail k | resume k
  | rejoin k thr | giveUp k thr =>
    simp only [Session.step] at hs
    split at hs
    · rename_i hk
      exact (hbusy hk (by simp)).elim
    · cases hs
  | lost i env thr =>
    simp only [Session.step] at hs
    split_ifs at hs
    cases hst : s.stage? i with
    | none =>
      rw [hst] at hs
      cases hs
    | some st =>
      have hdeaf := h.deaf st (stage?_mem hst).1
      simp only [hst, hdeaf] at hs
      obtain ⟨x, -, rfl⟩ := Option.map_eq_some_iff.mp hs
      refine ⟨⟨h.settled, h.tasks, h.deaf⟩, ?_⟩
      rintro ⟨st', hst', hl⟩
      rw [hst] at hst'
      cases hst'
      rw [hdeaf] at hl
      cases hl
  | disconnect i env thr => exact absurd rfl (hapi i env thr)
  | end_ =>
    cases hs
    refine ⟨Idle.destroy ⟨h.settled, h.tasks, h.deaf⟩, id⟩
  | error thr =>
    cases hs
    refine ⟨?_, id⟩
    unfold error
    split_ifs
    · exact Idle.destroy ⟨h.settled, h.tasks, h.deaf⟩
    · exact ⟨h.settled, h.tasks, h.deaf⟩
    · exact Idle.destroy ⟨h.settled, h.tasks, h.deaf⟩
  | destroyTimer =>
    simp only [Session.step] at hs
    split_ifs at hs
    cases hs
    exact ⟨⟨h.settled, h.tasks, h.deaf⟩, id⟩
  | pipelineOk | pipelineFail =>
    simp only [Session.step, h.settled] at hs
    simp at hs

end Session
end L7mp
