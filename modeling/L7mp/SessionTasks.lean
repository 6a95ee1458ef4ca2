import Mathlib.Data.List.Nodup
import Mathlib.Data.List.Perm.Basic
import L7mp.SessionTerminal

/-! Which pending call may touch which stage. At any time at most one call works on the
connection of a stage, and none works on a stage that is ready. -/
namespace L7mp

/-- The stages of a session and its pending calls; `piped` says that `pipeline` came to its
end once. -/
structure Frame where
  stages : List Stage
  tasks : List (ℕ × Task)
  settingUp : Bool
  piped : Bool

/-- A call that waits for a stream, or for the next attempt to get one. -/
def Task.Open : Task → Prop
  | .connect _ (.trying _) | .connect _ (.backoff _) | .listener => True
  | _ => False

instance : DecidablePred Task.Open := fun t => by
  unfold Task.Open
  split <;> infer_instance

/-- A call that will still connect its stage or make it ready. -/
def Task.Busy (t : Task) : Prop := t.Open ∨ t = .connect true .resolved

theorem Task.not_busy_rejoin : ¬Task.Busy .rejoin := by
  rintro (h | h)
  · exact h
  · cases h

theorem Task.not_open_resolved (redo : Bool) : ¬Task.Open (.connect redo .resolved) := id

namespace Frame

structure Owned (f : Frame) : Prop where
  ids : (f.stages.map Stage.id).Nodup
  known : ∀ p ∈ f.tasks, ∃ st ∈ f.stages, st.id = p.1
  single : f.tasks.Pairwise (fun p q => p.2.Busy → q.2.Busy → p.1 ≠ q.1)
  ready : ∀ st ∈ f.stages, st.status = .ready → ∀ p ∈ f.tasks, p.2.Busy → p.1 ≠ st.id
  rejoin : ∀ p ∈ f.tasks, p.2 = .rejoin → ∀ q ∈ f.tasks, q.2.Busy → q.1 ≠ p.1
  setup : f.piped = false → (∀ p ∈ f.tasks, Session.isSetup p.2 = true) ∧
    ∀ st ∈ f.stages, st.listening = false ∧ (st.source = false → st.status ≠ .ready)
  fresh : f.settingUp = true → f.piped = false

/-- A change of the stages that makes no stage ready. -/
structure Calm (g : Stage → Stage) : Prop where
  id : ∀ st, (g st).id = st.id
  source : ∀ st, (g st).source = st.source
  ready : ∀ st, (g st).status = .ready → st.status = .ready
  listening : ∀ st, (g st).listening = true → st.listening = true

theorem map_id_of_keeps {g : Stage → Stage} (h : ∀ st, (g st).id = st.id) (l : List Stage) :
    (l.map g).map Stage.id = l.map Stage.id := by
  rw [List.map_map]
  exact List.map_congr_left (fun st _ => h st)

/-- The change of one stage. -/
def only (i : ℕ) (g : Stage → Stage) (st : Stage) : Stage := if st.id = i then g st else st

theorem only_id {g : Stage → Stage} (h : ∀ st, (g st).id = st.id) (i : ℕ) (st : Stage) :
    (only i g st).id = st.id := by
  unfold only
  split_ifs
  · exact h st
  · rfl

theorem Calm.only {g : Stage → Stage} (h : Calm g) (i : ℕ) : Calm (only i g) where
  id := only_id h.id i
  source st := by unfold Frame.only; split_ifs <;> simp only [h.source]
  ready st hst := by
    unfold Frame.only at hst
    split_ifs at hst
    · exact h.ready st hst
    · exact hst
  listening st hst := by
    unfold Frame.only at hst
    split_ifs at hst
    · exact h.listening st hst
    · exact hst

def mapStages (g : Stage → Stage) (f : Frame) : Frame := { f with stages := f.stages.map g }

theorem Owned.calm {f : Frame} (h : f.Owned) {g : Stage → Stage} (hg : Calm g) :
    (f.mapStages g).Owned where
  ids := by
    change ((f.stages.map g).map Stage.id).Nodup
    rw [map_id_of_keeps hg.id]
    exact h.ids
  known p hp := by
    obtain ⟨st, hst, hid⟩ := h.known p hp
    exact ⟨g st, List.mem_map_of_mem hst, (hg.id st).trans hid⟩
  single := h.single
  ready st hst hr p hp hb := by
    obtain ⟨st', hst', rfl⟩ := List.mem_map.mp hst
    rw [hg.id]
    exact h.ready st' hst' (hg.ready st' hr) p hp hb
  rejoin := h.rejoin
  setup hs := by
    refine ⟨(h.setup hs).1, ?_⟩
    intro st hst
    obtain ⟨st', hst', rfl⟩ := List.mem_map.mp hst
    obtain ⟨hl, hr⟩ := (h.setup hs).2 st' hst'
    refine ⟨?_, fun hsrc hst => ?_⟩
    · by_contra hne
      rw [hg.listening st' (eq_true_of_ne_false hne)] at hl
      cases hl
    · exact hr ((hg.source st').symm.trans hsrc) (hg.ready st' hst)
  fresh := h.fresh

theorem mem_set {l : List (ℕ × Task)} {k : ℕ} {p q : ℕ × Task} (h : q ∈ l.set k p) :
    q = p ∨ q ∈ l := (List.mem_or_eq_of_mem_set h).symm

theorem pairwise_set {R : ℕ × Task → ℕ × Task → Prop} {l : List (ℕ × Task)} {k : ℕ}
    {p p' : ℕ × Task} (hk : l[k]? = some p) (hR : l.Pairwise R)
    (hleft : ∀ q, R p q → R p' q) (hright : ∀ q, R q p → R q p') : (l.set k p').Pairwise R := by
  induction l generalizing k with
  | nil => cases hk
  | cons a l ih =>
    obtain ⟨ha, hl⟩ := List.pairwise_cons.mp hR
    cases k with
    | zero =>
      cases hk
      exact List.pairwise_cons.mpr ⟨fun q hq => hleft q (ha q hq), hl⟩
    | succ k =>
      rw [List.getElem?_cons_succ] at hk
      refine List.pairwise_cons.mpr ⟨fun q hq => ?_, ih hk hl⟩
      rcases mem_set hq with rfl | hq
      · exact hright a (ha p (List.mem_of_getElem? hk))
      · exact ha q hq

/-- Once the busy task at a position has gone on, no other task of a busy kind is on its
stage. -/
theorem single_at {P : Task → Prop} (hP : ∀ t, P t → t.Busy) {l : List (ℕ × Task)} {k i : ℕ}
    {t : Task} (hk : l[k]? = some (i, t))
    (h : l.Pairwise (fun p q => p.2.Busy → q.2.Busy → p.1 ≠ q.1)) (hb : t.Busy) (t' : Task)
    (ht' : ¬P t') : ∀ q ∈ l.set k (i, t'), P q.2 → q.1 ≠ i := by
  induction l generalizing k with
  | nil => cases hk
  | cons a l ih =>
    obtain ⟨ha, hl⟩ := List.pairwise_cons.mp h
    cases k with
    | zero =>
      cases hk
      intro q hq hqb
      rcases List.mem_cons.mp hq with rfl | hq
      · exact absurd hqb ht'
      · exact (ha q hq hb (hP _ hqb)).symm
    | succ k =>
      rw [List.getElem?_cons_succ] at hk
      intro q hq hqb
      rcases List.mem_cons.mp hq with rfl | hq
      · exact ha (i, t) (List.mem_of_getElem? hk) (hP _ hqb) hb
      · exact ih hk hl q hq hqb

/-- A task other than the one at the changed position stays. -/
theorem mem_set_of_ne {l : List (ℕ × Task)} {k : ℕ} {p q r : ℕ × Task} (hk : l[k]? = some p)
    (hq : q ∈ l) (hne : q ≠ p) : q ∈ l.set k r := by
  obtain ⟨j, hj, rfl⟩ := List.mem_iff_getElem.mp hq
  have hjk : k ≠ j := by
    rintro rfl
    rw [List.getElem?_eq_getElem hj] at hk
    exact hne (Option.some.inj hk)
  refine List.mem_iff_getElem.mpr ⟨j, by rw [List.length_set]; exact hj, ?_⟩
  rw [List.getElem_set_ne hjk]

theorem mem_eraseIdx_of_ne {l : List (ℕ × Task)} {k : ℕ} {p q : ℕ × Task} (hk : l[k]? = some p)
    (hq : q ∈ l) (hne : q ≠ p) : q ∈ l.eraseIdx k := by
  obtain ⟨hlt, hget⟩ := List.getElem?_eq_some_iff.mp hk
  have hmem := (List.getElem_cons_eraseIdx_perm hlt).mem_iff.mpr hq
  rw [hget] at hmem
  exact (List.mem_cons.mp hmem).resolve_left hne

theorem countP_setTask {P : ℕ × Task → Bool} {l : List (ℕ × Task)} {k : ℕ} {p q : ℕ × Task}
    (hk : l[k]? = some p) :
    (l.set k q).countP P + (if P p then 1 else 0) = l.countP P + (if P q then 1 else 0) := by
  obtain ⟨hlt, hget⟩ := List.getElem?_eq_some_iff.mp hk
  have hpos : P p = true → 0 < l.countP P :=
    fun h => List.countP_pos_iff.mpr ⟨_, List.mem_of_getElem? hk, h⟩
  rw [List.countP_set hlt, hget]
  split_ifs with h h' h'
  · have := hpos h
    omega
  · have := hpos h
    omega
  · omega
  · omega

theorem countP_dropTask {P : ℕ × Task → Bool} {l : List (ℕ × Task)} {k : ℕ} {p : ℕ × Task}
    (hk : l[k]? = some p) :
    (l.eraseIdx k).countP P + (if P p then 1 else 0) = l.countP P := by
  obtain ⟨hlt, hget⟩ := List.getElem?_eq_some_iff.mp hk
  have hperm := (List.getElem_cons_eraseIdx_perm hlt).countP_eq P
  rw [hget, List.countP_cons] at hperm
  exact hperm

def setTask (k i : ℕ) (t : Task) (f : Frame) : Frame := { f with tasks := f.tasks.set k (i, t) }

/-- A task goes on to a phase that is no busier, and does not rejoin. -/
theorem Owned.setTask {f : Frame} (h : f.Owned) {k i : ℕ} {t t' : Task}
    (hk : f.tasks[k]? = some (i, t)) (hb : t'.Busy → t.Busy) (hr : t' ≠ .rejoin)
    (hs : Session.isSetup t = true → Session.isSetup t' = true) :
    (f.setTask k i t').Owned where
  ids := h.ids
  known p hp := by
    rcases mem_set hp with rfl | hp
    · exact h.known (i, t) (List.mem_of_getElem? hk)
    · exact h.known p hp
  single := pairwise_set hk h.single (fun _ hR hp hq => hR (hb hp) hq)
    (fun _ hR hq hp => hR hq (hb hp))
  ready st hst hready p hp hpb := by
    rcases mem_set hp with rfl | hp
    · exact h.ready st hst hready (i, t) (List.mem_of_getElem? hk) (hb hpb)
    · exact h.ready st hst hready p hp hpb
  rejoin p hp hpr q hq hqb := by
    have hp' : p ∈ f.tasks := by
      rcases mem_set hp with rfl | hp
      · exact absurd hpr hr
      · exact hp
    rcases mem_set hq with rfl | hq
    · exact h.rejoin p hp' hpr (i, t) (List.mem_of_getElem? hk) (hb hqb)
    · exact h.rejoin p hp' hpr q hq hqb
  setup hset := by
    obtain ⟨htasks, hstages⟩ := h.setup hset
    refine ⟨fun p hp => ?_, hstages⟩
    rcases mem_set hp with rfl | hp
    · exact hs (htasks (i, t) (List.mem_of_getElem? hk))
    · exact htasks p hp
  fresh := h.fresh

/-- The stage of a busy task becomes ready and the task turns to rejoining. -/
theorem Owned.handled {f : Frame} (h : f.Owned) {k i : ℕ} {t : Task}
    (hk : f.tasks[k]? = some (i, t)) (hb : t.Busy) (hs : Session.isSetup t = false)
    {g : Stage → Stage} (hid : ∀ st, (g st).id = st.id) :
    ((f.mapStages (only i g)).setTask k i .rejoin).Owned := by
  have hid' : ∀ st : Stage, (only i g st).id = st.id := only_id hid i
  have hfree := single_at (fun _ => id) hk h.single hb .rejoin Task.not_busy_rejoin
  have hpiped : f.piped = true := by
    by_contra hne
    have := (h.setup (eq_false_of_ne_true hne)).1 (i, t) (List.mem_of_getElem? hk)
    rw [hs] at this
    cases this
  constructor
  case ids =>
    change ((f.stages.map _).map Stage.id).Nodup
    rw [map_id_of_keeps hid']
    exact h.ids
  case known =>
    intro p hp
    have hp' : ∃ q ∈ f.tasks, q.1 = p.1 := by
      rcases mem_set hp with rfl | hp
      · exact ⟨(i, t), List.mem_of_getElem? hk, rfl⟩
      · exact ⟨p, hp, rfl⟩
    obtain ⟨q, hq, hqp⟩ := hp'
    obtain ⟨st, hst, hst'⟩ := h.known q hq
    exact ⟨_, List.mem_map_of_mem hst, (hid' st).trans (hst'.trans hqp)⟩
  case single =>
    exact pairwise_set hk h.single (fun _ _ hp _ => absurd hp Task.not_busy_rejoin)
      (fun _ _ _ hp => absurd hp Task.not_busy_rejoin)
  case ready =>
    intro st hst hready p hp hpb
    obtain ⟨st', hst', rfl⟩ := List.mem_map.mp hst
    rw [hid']
    by_cases hi : st'.id = i
    · rw [hi]
      exact hfree p hp hpb
    · rw [only, if_neg hi] at hready
      rcases mem_set hp with rfl | hp
      · exact absurd hpb Task.not_busy_rejoin
      · exact h.ready st' hst' hready p hp hpb
  case rejoin =>
    intro p hp hpr q hq hqb
    rcases mem_set hp with rfl | hp
    · exact hfree q hq hqb
    · rcases mem_set hq with rfl | hq
      · exact absurd hqb Task.not_busy_rejoin
      · exact h.rejoin p hp hpr q hq hqb
  case setup =>
    intro hset
    rw [show ((f.mapStages _).setTask k i .rejoin).piped = f.piped from rfl, hpiped] at hset
    cases hset
  case fresh => exact h.fresh

def addTask (i : ℕ) (t : Task) (f : Frame) : Frame := { f with tasks := f.tasks ++ [(i, t)] }

/-- A stage that is not ready and that no call works on may get a call of its own. -/
theorem Owned.addTask {f : Frame} (h : f.Owned) {i : ℕ} {t : Task}
    (hknown : ∃ st ∈ f.stages, st.id = i) (hr : t ≠ .rejoin) (hs : f.piped = true)
    (hnot : ∀ st ∈ f.stages, st.id = i → st.status ≠ .ready)
    (hfree : ∀ p ∈ f.tasks, p.2.Busy → p.1 ≠ i) (hrejoin : ∀ p ∈ f.tasks, p.2 ≠ .rejoin) :
    (f.addTask i t).Owned where
  ids := h.ids
  known p hp := by
    rcases List.mem_append.mp hp with hp | hp
    · exact h.known p hp
    · rw [List.mem_singleton.mp hp]
      exact hknown
  single := by
    refine List.pairwise_append.mpr ⟨h.single, List.pairwise_singleton _ _, ?_⟩
    intro p hp q hq hpb _
    rw [List.mem_singleton.mp hq]
    exact hfree p hp hpb
  ready st hst hready p hp hpb := by
    rcases List.mem_append.mp hp with hp | hp
    · exact h.ready st hst hready p hp hpb
    · rw [List.mem_singleton.mp hp]
      exact fun hi => hnot st hst hi.symm hready
  rejoin p hp hpr := by
    rcases List.mem_append.mp hp with hp | hp
    · exact absurd hpr (hrejoin p hp)
    · rw [List.mem_singleton.mp hp] at hpr
      exact absurd hpr hr
  setup hset := by
    rw [show (f.addTask i t).piped = f.piped from rfl, hs] at hset
    cases hset
  fresh := h.fresh

def dropTask (k : ℕ) (f : Frame) : Frame := { f with tasks := f.tasks.eraseIdx k }

theorem Owned.dropTask {f : Frame} (h : f.Owned) (k : ℕ) : (f.dropTask k).Owned := by
  have hsub : ∀ p ∈ f.tasks.eraseIdx k, p ∈ f.tasks := fun p hp => List.mem_of_mem_eraseIdx hp
  constructor
  case ids => exact h.ids
  case known => exact fun p hp => h.known p (hsub p hp)
  case single => exact h.single.sublist (List.eraseIdx_sublist _ _)
  case ready => exact fun st hst hr p hp => h.ready st hst hr p (hsub p hp)
  case rejoin => exact fun p hp hpr q hq => h.rejoin p (hsub p hp) hpr q (hsub q hq)
  case setup => exact fun hs => ⟨fun p hp => (h.setup hs).1 p (hsub p hp), (h.setup hs).2⟩
  case fresh => exact h.fresh

/-- When every connect of the wait list is resolved, no call is pending any more. -/
theorem Owned.resolved {f : Frame} (h : f.Owned) (hs : f.settingUp = true)
    (hall : ∀ p ∈ f.tasks, Session.isSetup p.2 = true → p.2 = .connect false .resolved) :
    ∀ p ∈ f.tasks, p.2 = .connect false .resolved :=
  fun p hp => hall p hp ((h.setup (h.fresh hs)).1 p hp)

end Frame
end L7mp
