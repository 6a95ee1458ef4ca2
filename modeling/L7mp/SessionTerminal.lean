import L7mp.SessionLifecycle

/-! A destroyed session is final: the life cycle of a session whose code respects the status
is destroyed once, reports at most one error and emits nothing else afterwards. -/
namespace L7mp
open GuardedRun

namespace Lifecycle

/-- Either nothing was finalised yet, or the status says how far it got. -/
structure Sound (l : Lifecycle) : Prop where
  destroy_once : l.emitted.count .destroy + l.timers ≤ 1
  error_once : l.emitted.count .privError ≤ 1
  destroy_final : l.status ≠ .destroyed → l.emitted.count .destroy + l.timers = 0
  error_final : l.status ≠ .destroyed → l.status ≠ .finalizing →
    l.emitted.count .privError = 0

/-- The second life cycle extends the first by nothing but `destroy` events. -/
def OnlyDestroy (l l' : Lifecycle) : Prop :=
  l'.status = l.status ∧ ∃ es, l'.emitted = l.emitted ++ es ∧ ∀ e ∈ es, e = .destroy

theorem OnlyDestroy.refl (l : Lifecycle) : l.OnlyDestroy l :=
  ⟨rfl, [], (List.append_nil _).symm, by simp⟩

theorem OnlyDestroy.trans {l l' l'' : Lifecycle} (h : l.OnlyDestroy l')
    (h' : l'.OnlyDestroy l'') : l.OnlyDestroy l'' := by
  obtain ⟨hst, es, hes, hall⟩ := h
  obtain ⟨hst', es', hes', hall'⟩ := h'
  refine ⟨hst'.trans hst, es ++ es', ?_, ?_⟩
  · rw [hes', hes, List.append_assoc]
  · intro e he
    rcases List.mem_append.mp he with he | he
    · exact hall e he
    · exact hall' e he

@[simp] theorem count_append_one (es : List Emit) (x y : Emit) :
    (es ++ [x]).count y = es.count y + if x = y then 1 else 0 := by
  rw [List.count_append, List.count_singleton]
  simp only [beq_iff_eq]

/-- Destroying a life cycle that was not destroyed before keeps it sound. -/
theorem sound_destroy {l : Lifecycle} (hd : l.emitted.count .destroy + l.timers = 0)
    (he : l.emitted.count .privError ≤ 1) : l.destroy.Sound := by
  unfold destroy announce setStatus emit
  by_cases ht : l.track = 0
  · rw [if_pos ht]
    refine ⟨?_, ?_, fun h => absurd rfl h, fun h _ => absurd rfl h⟩
    · simp only [count_append_one, ↓reduceIte]
      omega
    · simpa using he
  · rw [if_neg ht]
    refine ⟨?_, he, fun h => absurd rfl h, fun h _ => absurd rfl h⟩
    change l.emitted.count .destroy + (l.timers + 1) ≤ 1
    omega

/-- One admitted move keeps a life cycle sound. -/
theorem Sound.apply {l : Lifecycle} (h : l.Sound) {m : Move} (hm : l.Admits m) :
    (l.apply m).Sound := by
  cases m with
  | lose origin =>
    unfold Lifecycle.apply emit
    dsimp only
    split_ifs with hc
    · obtain ⟨h1, h2, h3, h4⟩ := h
      exact ⟨by simpa using h1, by simpa using h2, by simpa using h3, by simpa using h4⟩
    · exact h
  | tick =>
    unfold Lifecycle.apply emit
    dsimp only
    split_ifs with ht
    · exact h
    · obtain ⟨h1, h2, h3, h4⟩ := h
      refine ⟨?_, by simpa using h2, ?_, by simpa using h4⟩
      · simp only [count_append_one, ↓reduceIte]
        omega
      · intro hst
        have := h3 hst
        omega
  | connected =>
    obtain ⟨hd, hf⟩ := hm
    obtain ⟨h1, h2, h3, h4⟩ := h
    unfold Lifecycle.apply connected setStatus emit
    exact ⟨by simpa using h1, by simpa using h2, fun _ => by simpa using h3 hd,
      fun _ _ => by simpa using h4 hd hf⟩
  | error thr =>
    obtain ⟨hd, hf⟩ := hm
    have hdest := h.destroy_final hd
    have herr := h.error_final hd hf
    unfold Lifecycle.apply error
    dsimp only
    split_ifs
    · apply sound_destroy
      · simpa [emit, setStatus] using hdest
      · simp [emit, setStatus, herr]
    · refine ⟨?_, ?_, fun _ => ?_, fun _ h => absurd rfl h⟩
      · simpa [emit, setStatus] using h.destroy_once
      · simp [emit, setStatus, herr]
      · simpa [emit, setStatus] using hdest
    · apply sound_destroy
      · simpa [emit, setStatus] using hdest
      · simp [emit, setStatus, herr]
  | end_ =>
    have hdest := h.destroy_final hm
    unfold Lifecycle.apply end_
    apply sound_destroy
    · simpa [emit, setStatus] using hdest
    · simpa [emit, setStatus] using h.error_once

/-- An admitted move of a destroyed life cycle is at most the end of its tracking. -/
theorem apply_destroyed {l : Lifecycle} (hl : l.status = .destroyed) {m : Move}
    (hm : l.Admits m) : l.OnlyDestroy (l.apply m) := by
  cases m with
  | lose origin =>
    have hc : ¬l.status = .connected := by rw [hl]; decide
    simp only [Lifecycle.apply, hc, ↓reduceIte]
    exact OnlyDestroy.refl l
  | tick =>
    unfold Lifecycle.apply
    dsimp only
    split_ifs
    · exact OnlyDestroy.refl l
    · exact ⟨rfl, [.destroy], rfl, by simp⟩
  | connected => exact absurd hl hm.1
  | error thr => exact absurd hl hm.1
  | end_ => exact absurd hl hm

theorem Sound.foldl {ms : List Move} : ∀ {l : Lifecycle}, l.Sound → l.AdmitsAll ms →
    (ms.foldl Lifecycle.apply l).Sound := by
  induction ms with
  | nil => exact fun h _ => h
  | cons m ms ih => exact fun h hm => ih (h.apply hm.1) hm.2

theorem foldl_destroyed {ms : List Move} : ∀ {l : Lifecycle}, l.status = .destroyed →
    l.AdmitsAll ms → l.OnlyDestroy (ms.foldl Lifecycle.apply l) := by
  induction ms with
  | nil => exact fun _ _ => OnlyDestroy.refl _
  | cons m ms ih =>
    intro l hl hm
    have hone := apply_destroyed hl hm.1
    exact hone.trans (ih (hone.1.trans hl) hm.2)

theorem emitted_announce (l : Lifecycle) : ∃ es, l.announce.emitted = l.emitted ++ es := by
  unfold announce
  split_ifs
  · exact ⟨_, rfl⟩
  · exact ⟨[], (List.append_nil _).symm⟩

/-- What was emitted before stays in front when a life cycle is destroyed. -/
theorem emitted_destroy {l l' : Lifecycle} {es : List Emit}
    (h : l'.emitted = l.emitted ++ es) : ∃ es', l'.destroy.emitted = l.emitted ++ (es ++ es') := by
  obtain ⟨es', hes'⟩ := emitted_announce (l'.setStatus .destroyed)
  refine ⟨es', ?_⟩
  change (l'.setStatus .destroyed).announce.emitted = _
  rw [hes']
  change l'.emitted ++ es' = _
  rw [h, List.append_assoc]

/-- A move that a life cycle does not admit emits something else than `destroy`. -/
theorem emitted_not_admitted {l : Lifecycle} {m : Move}
    (hm : ¬l.Admits m) :
    ∃ e es, (l.apply m).emitted = l.emitted ++ e :: es ∧ e ≠ .destroy := by
  cases m with
  | lose | tick => exact absurd trivial hm
  | connected => exact ⟨.connect, [], rfl, nofun⟩
  | error thr =>
    unfold apply error
    dsimp only
    split_ifs
    · obtain ⟨es, hes⟩ := @emitted_destroy l ((l.setStatus .finalizing).emit .error) [.error] rfl
      exact ⟨.error, es, hes, nofun⟩
    · exact ⟨.privError, [], rfl, nofun⟩
    · obtain ⟨es, hes⟩ := @emitted_destroy l
        (((l.setStatus .finalizing).emit .privError).emit .error) [.privError, .error]
        (List.append_assoc l.emitted [.privError] [.error])
      exact ⟨.privError, .error :: es, hes, nofun⟩
  | end_ =>
    obtain ⟨es, hes⟩ := @emitted_destroy l ((l.setStatus .finalizing).emit .end_) [.end_] rfl
    exact ⟨.end_, es, hes, nofun⟩

theorem emitted_apply (l : Lifecycle) (m : Move) :
    ∃ es, (l.apply m).emitted = l.emitted ++ es := by
  cases m with
  | lose origin =>
    unfold apply
    dsimp only
    split_ifs
    · exact ⟨_, rfl⟩
    · exact ⟨[], (List.append_nil _).symm⟩
  | tick =>
    unfold apply
    dsimp only
    split_ifs
    · exact ⟨[], (List.append_nil _).symm⟩
    · exact ⟨_, rfl⟩
  | connected => exact ⟨_, rfl⟩
  | error thr =>
    unfold apply error
    dsimp only
    split_ifs
    · obtain ⟨es, hes⟩ := @emitted_destroy l ((l.setStatus .finalizing).emit .error) [.error] rfl
      exact ⟨_, hes⟩
    · exact ⟨_, rfl⟩
    · obtain ⟨es, hes⟩ := @emitted_destroy l
        (((l.setStatus .finalizing).emit .privError).emit .error) [.privError, .error]
        (List.append_assoc l.emitted [.privError] [.error])
      exact ⟨_, hes⟩
  | end_ =>
    obtain ⟨es, hes⟩ := @emitted_destroy l ((l.setStatus .finalizing).emit .end_) [.end_] rfl
    exact ⟨_, hes⟩

theorem emitted_foldl (ms : List Move) : ∀ l : Lifecycle,
    ∃ es, (ms.foldl apply l).emitted = l.emitted ++ es := by
  induction ms with
  | nil => exact fun l => ⟨[], (List.append_nil _).symm⟩
  | cons m ms ih =>
    intro l
    obtain ⟨es, hes⟩ := emitted_apply l m
    obtain ⟨es', hes'⟩ := ih (l.apply m)
    exact ⟨es ++ es', by rw [List.foldl_cons, hes', hes, List.append_assoc]⟩

/-- On a destroyed life cycle the admitted moves are exactly those that keep it final. -/
theorem onlyDestroy_iff_admitsAll {ms : List Move} : ∀ {l : Lifecycle}, l.status = .destroyed →
    (l.OnlyDestroy (ms.foldl Lifecycle.apply l) ↔ l.AdmitsAll ms) := by
  intro l hl
  refine ⟨?_, foldl_destroyed hl⟩
  induction ms generalizing l with
  | nil => exact fun _ => trivial
  | cons m ms ih =>
    intro h
    have hm : l.Admits m := by
      by_contra hm
      obtain ⟨e, es, hes, hne⟩ := emitted_not_admitted hm
      obtain ⟨es', hes'⟩ := emitted_foldl ms (l.apply m)
      obtain ⟨-, es'', hes'', hall⟩ := h
      rw [List.foldl_cons, hes', hes, List.append_assoc, List.append_cancel_left_eq] at hes''
      exact hne (hall e (by rw [← hes'']; simp))
    have hone := apply_destroyed hl hm
    refine ⟨hm, ih (hone.1.trans hl) ?_⟩
    obtain ⟨hst, es, hes, hall⟩ := h
    obtain ⟨es₁, hes₁⟩ := emitted_foldl ms (l.apply m)
    obtain ⟨hst₂, es₂, hes₂, -⟩ := hone
    refine ⟨hst.trans hst₂.symm, es₁, hes₁, fun e he => hall e ?_⟩
    rw [List.foldl_cons, hes₁, hes₂, List.append_assoc, List.append_cancel_left_eq] at hes
    rw [← hes]
    exact List.mem_append_right _ he

end Lifecycle

namespace Session

/-- A session as `addSession` leaves it when `router` waits for the first time. -/
def Initial (s : Session) : Prop :=
  ∃ name id origin hasPrivError st, s = start name id origin hasPrivError st

/-- Finalisation happens once and for all in every run from `s₀` that meets the guard. -/
def FinalOnce (ok : Session → Event → Prop) (s₀ : Session) : Prop :=
  ∀ s, Run step ok s₀ s →
    s.emitted.count .destroy ≤ 1 ∧ s.emitted.count .privError ≤ 1 ∧
    (s.status = .destroyed → ∀ t, Run step ok s t →
      t.status = .destroyed ∧ ∃ es, t.emitted = s.emitted ++ es ∧ ∀ e ∈ es, e = .destroy)

theorem lifecycle_new (name : String) (id : ℕ) (origin : String) (err : Bool) :
    (new name id origin err).lifecycle = ⟨.init, [.init], 0, 0, err⟩ := rfl

theorem sound_start (name : String) (id : ℕ) (origin : String) (err : Bool) (st : Start) :
    (start name id origin err st).lifecycle.Sound := by
  have hnew (track : ℕ) : Lifecycle.Sound ⟨.init, [.init], 0, track, err⟩ := by
    constructor <;> simp
  cases st with
  | failed track lookedUp thr =>
    have herr := (hnew track).apply (m := .error thr) ⟨nofun, nofun⟩
    have heq : (start name id origin err (.failed track lookedUp thr)).lifecycle =
        Lifecycle.error thr ⟨.init, [.init], 0, track, err⟩ := by
      simp only [start]
      split_ifs <;> rw [lifecycle_error] <;> rfl
    rw [heq]
    exact herr
  | piped track reconnect route env => exact hnew track

/-- The invariant of the runs whose steps respect the status. -/
theorem sound_step {s t : Session} {e : Event} (hs : s.lifecycle.Sound) (hok : s.Admits e)
    (h : s.step e = some t) : t.lifecycle.Sound := by
  rw [step_lifecycle h]
  exact hs.foldl hok

/-- A step of a destroyed session that respects the status leaves it destroyed. -/
theorem destroyed_step {s t : Session} {e : Event} (hs : s.status = .destroyed)
    (hok : s.Admits e) (h : s.step e = some t) : s.lifecycle.OnlyDestroy t.lifecycle := by
  rw [step_lifecycle h]
  exact Lifecycle.foldl_destroyed hs hok

/-- On a destroyed session the guard is exact: a step that does not respect it breaks the law
at once. -/
theorem destroyed_step_iff {s t : Session} {e : Event} (hs : s.status = .destroyed)
    (h : s.step e = some t) : s.lifecycle.OnlyDestroy t.lifecycle ↔ s.Admits e := by
  rw [step_lifecycle h]
  exact Lifecycle.onlyDestroy_iff_admitsAll hs

/-- If no continuation, API call or stream event runs `connected`, `error` or `end` on a
session that is already finalised, then finalisation happens once and is final. -/
theorem finalOnce_of_admits (s₀ : Session) (h₀ : s₀.Initial) : s₀.FinalOnce Admits := by
  obtain ⟨name, id, origin, err, st, rfl⟩ := h₀
  intro s hrun
  have hsound : s.lifecycle.Sound :=
    Run.invariant (P := fun s => s.lifecycle.Sound) (fun _ _ _ hs hok h => sound_step hs hok h)
      hrun (sound_start name id origin err st)
  refine ⟨?_, hsound.error_once, ?_⟩
  · have := hsound.destroy_once
    change s.emitted.count .destroy + s.timers ≤ 1 at this
    omega
  · intro hd t hrun'
    have hkeep : s.lifecycle.OnlyDestroy t.lifecycle :=
      Run.relates (P := fun s => s.status = .destroyed)
        (R := fun s t => s.lifecycle.OnlyDestroy t.lifecycle)
        (fun s => Lifecycle.OnlyDestroy.refl _) (fun _ _ _ h h' => h.trans h')
        (fun _ _ _ hs hok h => ⟨(destroyed_step hs hok h).1.trans hs, destroyed_step hs hok h⟩)
        hrun' hd
    exact ⟨hkeep.1.trans hd, hkeep.2⟩

/-- A registry in which every lookup succeeds: clusters can be retried, no listener can. -/
def lookupAll : Env := ⟨true, fun _ => some true, fun _ => some false⟩

/-- A session on its way to one destination cluster, with a given retry policy. -/
def pendingSession (retryOn : RetryOn) : Session :=
  start "s" 0 "l" true (.piped 0 false ⟨"r", "c", [], [], ⟨retryOn, 1, 2000⟩, false⟩ lookupAll)

theorem pendingSession_initial (retryOn : RetryOn) : (pendingSession retryOn).Initial :=
  ⟨_, _, _, _, _, rfl⟩

/-- The ordinary life of a session: it connects, is ended from the API and stays destroyed
when a stream closes afterwards. -/
theorem finalOnce_of_admits_ended : (pendingSession .never).FinalOnce Admits ∧
    (exec step Admits (pendingSession .never)
      [.streamOk 0 ⟨"e", some "c"⟩, .pipelineOk, .end_, .lost 1 lookupAll false]).map
        (fun s => (s.status, s.emitted)) =
      some (.destroyed, [.init, .connect, .end_, .destroy]) :=
  ⟨finalOnce_of_admits _ (pendingSession_initial _), by decide⟩

/-- `pipeline` does not look at the status when its connects resolve: a session ended during
setup is connected after it was destroyed. -/
theorem late_connect_revives_session :
    ∃ s₀ : Session, s₀.Initial ∧ ¬s₀.FinalOnce always := by
  refine ⟨pendingSession .never, pendingSession_initial _, fun h => ?_⟩
  obtain ⟨s, hs⟩ : ∃ s, exec step always (pendingSession .never) [.end_] = some s := ⟨_, rfl⟩
  obtain ⟨t, ht⟩ : ∃ t, exec step always s
      [.streamOk 0 ⟨"e", some "c"⟩, .pipelineOk] = some t := by
    cases hs
    exact ⟨_, rfl⟩
  have hdead : s.status = .destroyed := by cases hs; rfl
  have hfinal := ((h s (exec_run _ _ _ hs)).2.2 hdead t (exec_run _ _ _ ht)).1
  cases hs
  cases ht
  cases hfinal

end Session
end L7mp
