import L7mp.GuardedRun
import L7mp.SessionRegistry

/-! The attempts that a session makes to connect its stages, counted beside it, and the budget that
the retry policy of its route gives them. -/
namespace L7mp
open GuardedRun

/-- The number of reconnection attempts after a loss, by the documentation of the policy. -/
def Retry.reconnects (r : Retry) : ℕ :=
  if r.retry_on = .disconnect ∨ r.retry_on = .always then r.num_retries else 0

/-- `run` of `Stage.connect` gets as far as looking up the cluster. -/
def Stage.attempts (env : Env) (st : Stage) : Bool :=
  env.getSession && !(st.status = .connected || st.status = .finalizing || st.status = .ended)

/-- `reconnect` of a disconnected stage makes an attempt at once. -/
def Stage.asks (env : Env) (st : Stage) : Bool :=
  if st.source then env.getListener st.origin = some true else env.getSession

/-- The call that `reconnect` of a disconnected stage leaves waiting. -/
def Stage.reconnectTask (env : Env) (retry : Retry) (st : Stage) : Task :=
  if st.source then
    if env.getListener st.origin = some true then .listener else .connect true .rejected
  else .connect true (({ st with status := .disconnected } : Stage).run env retry.redoRetries).2

/-- What the attempts made and the retries left of a call come to. -/
def Conn.Fits (made budget : ℕ) : Conn → Prop
  | .trying left => made + left = budget
  | .backoff left => made + left + 1 = budget
  | .resolved | .rejected => True

namespace Session

/-- The policy by which `disconnect` of a stage goes on to reconnect it. -/
def retried (s : Session) (st : Stage) : Option Retry :=
  match s.route with
  | none => none
  | some route =>
    if st.status = .ready ∧ st.retriable = true ∧
        (route.retry.retry_on = .always ∨ route.retry.retry_on = .disconnect) then
      some route.retry
    else none

/-- `disconnect` of a stage makes an attempt to reconnect it at once. -/
def redoes (s : Session) (env : Env) (st : Stage) : Bool := (s.retried st).isSome && st.asks env

/-- `error` or `end` was called. -/
def ended (s : Session) : Bool := s.events.contains .error || s.events.contains .end_

/-- The attempts that a stage may make: during setup, or after each loss. -/
def budget (s : Session) (redo : Bool) : ℕ :=
  match s.route with
  | none => 0
  | some route => if redo then route.retry.reconnects else route.retry.setupRetries + 1

end Session

/-- Attempts of the stages, during setup and since the last loss, and whether the last connect
succeeded; `again` counts the attempts after a success, `late` those after the end. -/
structure Tally where
  made : Bool → ℕ → ℕ
  done : ℕ → Bool
  again : ℕ
  late : ℕ

namespace Tally

def attempt (redo : Bool) (i : ℕ) (ended : Bool) (a : Tally) : Tally where
  made := fun r j => if r = redo ∧ j = i then a.made r j + 1 else a.made r j
  done := a.done
  again := if a.done i then a.again + 1 else a.again
  late := if ended then a.late + 1 else a.late

def success (i : ℕ) (a : Tally) : Tally :=
  { a with done := fun j => if j = i then true else a.done j }

/-- A stage is lost: the attempts to reconnect it are counted from zero. -/
def lose (i : ℕ) (a : Tally) : Tally :=
  { a with
    made := fun r j => if r = true ∧ j = i then 0 else a.made r j
    done := fun j => if j = i then false else a.done j }

def disconnect (s : Session) (env : Env) (st : Stage) (a : Tally) : Tally :=
  if st.status = .ready then
    if s.redoes env st then (a.lose st.id).attempt true st.id s.ended else a.lose st.id
  else a

/-- The tally after a step of the session. -/
def next (s : Session) (a : Tally) : Session.Event → Tally
  | .streamOk k _ => match s.tasks[k]? with
    | some (i, .connect _ (.trying _)) => a.success i
    | _ => a
  | .listenerOk k => match s.tasks[k]? with
    | some (i, .listener) => a.success i
    | _ => a
  | .timer k env => match s.tasks[k]? with
    | some (i, .connect redo (.backoff _)) =>
      if (s.stage? i).any (Stage.attempts env) then a.attempt redo i s.ended else a
    | _ => a
  | .lost i env _ => match s.stage? i with
    | some st => if st.listening then a.disconnect s env st else a
    | none => a
  | .disconnect i env _ => match s.stage? i with
    | some st => a.disconnect s env st
    | none => a
  | _ => a

/-- `pipeline_init` makes an attempt for every stage of a cluster. -/
def start (s : Session) : Session.Start → Tally
  | .failed .. => ⟨fun _ _ => 0, fun _ => false, 0, 0⟩
  | .piped _ _ _ env => ⟨fun redo i => if redo = false ∧ env.getSession = true ∧
      i ∈ s.getStages.tail.map Stage.id then 1 else 0, fun _ => false, 0, 0⟩

end Tally

/-- A session with its tally. -/
structure Tallied where
  session : Session
  tally : Tally

namespace Tallied

def start (name : String) (id : ℕ) (origin : String) (hasPrivError : Bool) (st : Session.Start) :
    Tallied :=
  let s := Session.start name id origin hasPrivError st
  ⟨s, Tally.start s st⟩

def step (p : Tallied) (e : Session.Event) : Option Tallied :=
  (p.session.step e).map (fun t => ⟨t, p.tally.next p.session e⟩)

/-- Every stage of a cluster is tried once and, with the policy, again `num_retries` times at
most during setup; every loss is answered with `num_retries` attempts at most, whatever came
before it; no attempt follows a success or the end of the session. -/
structure Within (p : Tallied) : Prop where
  setup : ∀ st ∈ p.session.getStages.tail,
    1 ≤ p.tally.made false st.id ∧ p.tally.made false st.id ≤ p.session.budget false
  redo : ∀ st ∈ p.session.getStages, p.tally.made true st.id ≤ p.session.budget true
  full : ∀ i redo c, (i, .connect redo c) ∈ p.session.tasks →
    c.Fits (p.tally.made redo i) (p.session.budget redo)
  again : p.tally.again = 0
  late : p.tally.late = 0

end Tallied

/-- A loss makes the session try to reconnect only if it has retries and did not end, and a timer
that fires after the end finds the session no longer listed. -/
def Session.InBudget (s : Session) : Session.Event → Prop
  | .timer _ env => s.ended = true → env.getSession = false
  | .lost i env _ => ∀ st ∈ s.stage? i, st.listening = true → s.redoes env st = true →
      s.ended = false ∧ s.budget true ≠ 0
  | .disconnect i env _ => ∀ st ∈ s.stage? i, s.redoes env st = true →
      s.ended = false ∧ s.budget true ≠ 0
  | _ => True

instance (s : Session) : (e : Session.Event) → Decidable (s.InBudget e)
  | .timer _ env => inferInstanceAs (Decidable (s.ended = true → env.getSession = false))
  | .lost i env _ => inferInstanceAs (Decidable (∀ st ∈ s.stage? i, st.listening = true →
      s.redoes env st = true → s.ended = false ∧ s.budget true ≠ 0))
  | .disconnect i env _ => inferInstanceAs (Decidable (∀ st ∈ s.stage? i,
      s.redoes env st = true → s.ended = false ∧ s.budget true ≠ 0))
  | .streamOk .. | .streamFail .. | .listenerOk .. | .listenerFail .. | .end_ | .error .. |
    .destroyTimer | .resume .. | .rejoin .. | .giveUp .. | .pipelineOk | .pipelineFail .. =>
    inferInstanceAs (Decidable True)

/-! ### What a step does to the calls -/

namespace Conn

def Open : Conn → Prop
  | .trying _ | .backoff _ => True
  | .resolved | .rejected => False

theorem fits_of_not_open {c : Conn} (h : ¬c.Open) (made budget : ℕ) : c.Fits made budget := by
  cases c with
  | trying | backoff => exact absurd trivial h
  | resolved | rejected => trivial

theorem fits_failed {made left budget : ℕ} (h : made + left = budget) :
    (Conn.failed left).Fits made budget := by
  unfold Conn.failed
  split_ifs with hleft
  · trivial
  · change made + (left-1) + 1 = budget
    omega

end Conn

theorem Task.busy_of_open {redo : Bool} {c : Conn} (h : c.Open) : Task.Busy (.connect redo c) := by
  cases c with
  | trying | backoff => exact .inl trivial
  | resolved | rejected => exact h.elim

/-- An attempt leaves one retry less, unless it is refused. -/
theorem Stage.fits_run {env : Env} {st : Stage} {made left budget : ℕ}
    (h : st.attempts env = true → made + left = budget) :
    (st.run env left).2.Fits made budget := by
  unfold Stage.run
  split_ifs with hlisted hstatus
  · trivial
  · trivial
  · have hmade : made + left = budget := by
      apply h
      simp only [Stage.attempts, Bool.and_eq_true, Bool.not_eq_true', Bool.or_eq_false_iff,
        decide_eq_false_iff_not]
      simp only [not_or] at hstatus
      exact ⟨by simpa using hlisted, ⟨hstatus.1, hstatus.2.1⟩, hstatus.2.2⟩
    cases env.getCluster st.origin with
    | none => exact Conn.fits_failed hmade
    | some retriable => exact hmade

namespace Session

theorem tasks_error (thr : Bool) (s : Session) : (s.error thr).tasks = s.tasks := by
  have h : (s.error thr).ledger.frame.tasks = s.ledger.frame.tasks := by
    rw [ledger_error, Ledger.finalise_tasks]
  exact h

theorem tasks_end_ (s : Session) : s.end_.tasks = s.tasks := by
  have h : s.end_.ledger.frame.tasks = s.ledger.frame.tasks := by
    rw [ledger_end_, Ledger.finalise_tasks]
  exact h

theorem tasks_dropStage (st : Stage) (s : Session) : (s.dropStage st).tasks = s.tasks := by
  unfold dropStage
  split_ifs <;> rfl

theorem tasks_reconnect (env : Env) (retry : Retry) (st : Stage) (s : Session) :
    (s.reconnect env retry st).tasks = s.tasks ++ [(st.id, st.reconnectTask env retry)] := by
  unfold reconnect Stage.reconnectTask
  split_ifs <;> rfl

/-- `disconnect` adds one call, if it goes on to reconnect the stage. -/
theorem tasks_disconnect (env : Env) (thr : Bool) (st : Stage) (s : Session) :
    (s.disconnect env thr st).tasks = s.tasks ++
      ((s.retried st).map (fun r => (st.id, st.reconnectTask env r))).toList := by
  have hdrop : ((s.log .disconnect).dropStage st).tasks = s.tasks := tasks_dropStage st _
  have hroute : ((s.log .disconnect).dropStage st).route = s.route := dropStage_route st _
  unfold disconnect retried
  by_cases hready : st.status = .ready
  · rw [if_pos hready]
    unfold afterLoss
    rw [hroute]
    cases s.route with
    | none => exact hdrop.trans (List.append_nil _).symm
    | some route =>
      dsimp only
      cases hpol : route.retry.retry_on with
      | always | disconnect =>
        by_cases hretriable : st.retriable = true
        · rw [if_pos hretriable, if_pos ⟨hready, hretriable, by simp⟩, tasks_reconnect, hdrop]
          rfl
        · rw [if_neg hretriable, if_neg (fun h => hretriable h.2.1), tasks_error, hdrop]
          exact (List.append_nil _).symm
      | connectFailure | never =>
        dsimp only
        rw [if_neg (by simp), tasks_end_, hdrop]
        exact (List.append_nil _).symm
      | other =>
        dsimp only
        rw [if_neg (by simp), tasks_error, hdrop]
        exact (List.append_nil _).symm
  · rw [if_neg hready]
    cases s.route with
    | none => exact (List.append_nil _).symm
    | some route =>
      dsimp only
      rw [if_neg (fun h => hready h.1)]
      exact (List.append_nil _).symm

theorem tasks_rejoin (thr : Bool) (i : ℕ) (s : Session) : (s.rejoin thr i).tasks = s.tasks := by
  unfold rejoin
  dsimp only
  split_ifs
  · exact tasks_error _ _
  · rfl
  · rfl

end Session

/-! ### The accounts -/

/-- The pending connects fit what was counted, and nobody who succeeded is still trying. -/
structure Accounts (budget : Bool → ℕ) (tasks : List (ℕ × Task)) (a : Tally) : Prop where
  made : ∀ redo i, a.made redo i ≤ budget redo
  fits : ∀ i redo c, (i, Task.connect redo c) ∈ tasks → c.Fits (a.made redo i) (budget redo)
  trying : ∀ i redo c, (i, Task.connect redo c) ∈ tasks → c.Open → a.done i = false
  again : a.again = 0
  late : a.late = 0

namespace Accounts

variable {budget : Bool → ℕ} {tasks tasks' : List (ℕ × Task)} {a : Tally} {i k : ℕ} {t t' : Task}

/-- No other busy call is on the stage of a busy call. -/
theorem others (hsingle : tasks.Pairwise (fun p q => p.2.Busy → q.2.Busy → p.1 ≠ q.1))
    (hk : tasks[k]? = some (i, t)) (ht : t.Busy) {p : ℕ × Task}
    (hp : p ∈ tasks.set k (i, t')) : p = (i, t') ∨ p ∈ tasks ∧ (p.2.Busy → p.1 ≠ i) := by
  obtain ⟨j, hj⟩ := List.mem_iff_getElem?.mp hp
  by_cases hkj : k = j
  · subst hkj
    rw [List.getElem?_set_self (List.getElem?_eq_some_iff.mp hk).1] at hj
    exact .inl (Option.some.inj hj).symm
  · rw [List.getElem?_set_ne hkj] at hj
    refine .inr ⟨List.mem_of_getElem? hj, fun hbusy => ?_⟩
    obtain ⟨hjlt, hjeq⟩ := List.getElem?_eq_some_iff.mp hj
    obtain ⟨hklt, hkeq⟩ := List.getElem?_eq_some_iff.mp hk
    rw [List.pairwise_iff_getElem] at hsingle
    rcases Nat.lt_or_gt_of_ne hkj with h | h
    · have hne := hsingle k j hklt hjlt h
      rw [hkeq, hjeq] at hne
      exact (hne ht hbusy).symm
    · have hne := hsingle j k hjlt hklt h
      rw [hkeq, hjeq] at hne
      exact hne hbusy ht

theorem sub (h : Accounts budget tasks a) (hsub : ∀ p ∈ tasks', p ∈ tasks) :
    Accounts budget tasks' a :=
  ⟨h.made, fun i redo c hp => h.fits i redo c (hsub _ hp),
    fun i redo c hp => h.trying i redo c (hsub _ hp), h.again, h.late⟩

/-- A call goes on without an attempt. -/
theorem goOn (h : Accounts budget tasks a)
    (ht : ∀ redo c, t' = .connect redo c → c.Fits (a.made redo i) (budget redo) ∧
      (c.Open → a.done i = false)) : Accounts budget (tasks.set k (i, t')) a where
  made := h.made
  fits j redo c hp := by
    rcases Frame.mem_set hp with heq | hp
    · cases heq
      exact (ht redo c rfl).1
    · exact h.fits j redo c hp
  trying j redo c hp hopen := by
    rcases Frame.mem_set hp with heq | hp
    · cases heq
      exact (ht redo c rfl).2 hopen
    · exact h.trying j redo c hp hopen
  again := h.again
  late := h.late

/-- A call succeeds, and no other one is trying on its stage. -/
theorem success (h : Accounts budget tasks a)
    (hsingle : tasks.Pairwise (fun p q => p.2.Busy → q.2.Busy → p.1 ≠ q.1))
    (hk : tasks[k]? = some (i, t)) (ht : t.Busy)
    (hclosed : ∀ redo c, t' = .connect redo c → ¬c.Open) :
    Accounts budget (tasks.set k (i, t')) (a.success i) where
  made := h.made
  fits j redo c hp := by
    rcases Frame.mem_set hp with heq | hp
    · cases heq
      exact Conn.fits_of_not_open (hclosed redo c rfl) _ _
    · exact h.fits j redo c hp
  trying j redo c hp hopen := by
    rcases others hsingle hk ht hp with heq | ⟨hp, hne⟩
    · cases heq
      exact absurd hopen (hclosed redo c rfl)
    · exact (if_neg (hne (Task.busy_of_open hopen))).trans (h.trying j redo c hp hopen)
  again := h.again
  late := h.late

/-- The next attempt of a call that waits. -/
theorem attempt (h : Accounts budget tasks a)
    (hsingle : tasks.Pairwise (fun p q => p.2.Busy → q.2.Busy → p.1 ≠ q.1)) {redo : Bool}
    {left : ℕ} (hk : tasks[k]? = some (i, .connect redo (.backoff left))) {c : Conn}
    (hc : ∀ made, made + left = budget redo → c.Fits made (budget redo)) :
    Accounts budget (tasks.set k (i, .connect redo c)) (a.attempt redo i false) := by
  have hmem := List.mem_of_getElem? hk
  have hfits : a.made redo i + left + 1 = budget redo := h.fits i redo _ hmem
  have hdone : a.done i = false := h.trying i redo _ hmem trivial
  refine ⟨?_, ?_, ?_, ?_, h.late⟩
  · intro r j
    dsimp only [Tally.attempt]
    split_ifs with heq
    · obtain ⟨rfl, rfl⟩ := heq
      omega
    · exact h.made r j
  · intro j r c' hp
    dsimp only [Tally.attempt]
    rcases others hsingle hk (Task.busy_of_open trivial) hp with heq | ⟨hp, hne⟩
    · cases heq
      rw [if_pos ⟨rfl, rfl⟩]
      apply hc
      omega
    · by_cases hopen : c'.Open
      · rw [if_neg (fun heq => hne (Task.busy_of_open hopen) heq.2)]
        exact h.fits j r c' hp
      · exact Conn.fits_of_not_open hopen _ _
  · intro j r c' hp hopen
    rcases Frame.mem_set hp with heq | hp
    · cases heq
      exact hdone
    · exact h.trying j r c' hp hopen
  · dsimp only [Tally.attempt]
    rw [hdone]
    exact h.again

/-- A stage is lost on which no call is at work. -/
theorem lose (h : Accounts budget tasks a) (hfree : ∀ p ∈ tasks, p.2.Busy → p.1 ≠ i) :
    Accounts budget tasks (a.lose i) where
  made r j := by
    dsimp only [Tally.lose]
    split_ifs
    · exact Nat.zero_le _
    · exact h.made r j
  fits j r c hp := by
    by_cases hopen : c.Open
    · have hne : j ≠ i := hfree _ hp (Task.busy_of_open hopen)
      dsimp only [Tally.lose]
      rw [if_neg (fun heq => hne heq.2)]
      exact h.fits j r c hp
    · exact Conn.fits_of_not_open hopen _ _
  trying j r c hp hopen := by
    have hne : j ≠ i := hfree _ hp (Task.busy_of_open hopen)
    exact (if_neg hne).trans (h.trying j r c hp hopen)
  again := h.again
  late := h.late

/-- The first attempt after a loss. -/
theorem redo (h : Accounts budget tasks (a.lose i)) (hfree : ∀ p ∈ tasks, p.2.Busy → p.1 ≠ i)
    (hbudget : budget true ≠ 0) : Accounts budget tasks ((a.lose i).attempt true i false) := by
  have hdone : (a.lose i).done i = false := if_pos rfl
  have hzero : (a.lose i).made true i = 0 := if_pos ⟨rfl, rfl⟩
  refine ⟨?_, ?_, h.trying, ?_, h.late⟩
  · intro r j
    dsimp only [Tally.attempt]
    split_ifs with heq
    · obtain ⟨rfl, rfl⟩ := heq
      rw [hzero]
      omega
    · exact h.made r j
  · intro j r c hp
    by_cases hopen : c.Open
    · have hne : j ≠ i := hfree _ hp (Task.busy_of_open hopen)
      dsimp only [Tally.attempt]
      rw [if_neg (fun heq => hne heq.2)]
      exact h.fits j r c hp
    · exact Conn.fits_of_not_open hopen _ _
  · dsimp only [Tally.attempt]
    rw [hdone]
    exact h.again

theorem append (h : Accounts budget tasks a)
    (ht : ∀ redo c, t = .connect redo c → c.Fits (a.made redo i) (budget redo) ∧
      (c.Open → a.done i = false)) : Accounts budget (tasks ++ [(i, t)]) a where
  made := h.made
  fits j redo c hp := by
    rcases List.mem_append.mp hp with hp | hp
    · exact h.fits j redo c hp
    · cases List.mem_singleton.mp hp
      exact (ht redo c rfl).1
  trying j redo c hp hopen := by
    rcases List.mem_append.mp hp with hp | hp
    · exact h.trying j redo c hp hopen
    · cases List.mem_singleton.mp hp
      exact (ht redo c rfl).2 hopen
  again := h.again
  late := h.late

end Accounts

/-! ### A step keeps the accounts -/

theorem Stage.fits_reconnectTask {env : Env} {retry : Retry} {st : Stage} {made budget : ℕ}
    (h : st.asks env = true → made + retry.redoRetries = budget) {redo : Bool} {c : Conn}
    (ht : st.reconnectTask env retry = .connect redo c) : redo = true ∧ c.Fits made budget := by
  unfold Stage.reconnectTask at ht
  by_cases hsource : st.source = true
  · rw [if_pos hsource] at ht
    split_ifs at ht
    cases ht
    exact ⟨rfl, trivial⟩
  · rw [if_neg hsource] at ht
    cases ht
    refine ⟨rfl, Stage.fits_run (fun hatt => h ?_)⟩
    have hlisted : env.getSession = true := (Bool.and_eq_true_iff.mp hatt).1
    exact (if_neg hsource).trans hlisted

namespace Session

theorem retried_some {s : Session} {st : Stage} {r : Retry} (h : s.retried st = some r) :
    s.budget true = r.reconnects := by
  unfold retried at h
  unfold budget
  cases hroute : s.route with
  | none =>
    rw [hroute] at h
    cases h
  | some route =>
    rw [hroute] at h
    dsimp only at h ⊢
    split_ifs at h
    cases h
    exact if_pos rfl

theorem accounts_disconnect {s : Session} {a : Tally} {st : Stage} {env : Env} (thr : Bool)
    (h : Accounts s.budget s.tasks a) (howned : s.frame.Owned) (hst : st ∈ s.getStages)
    (hok : s.redoes env st = true → s.ended = false ∧ s.budget true ≠ 0) :
    Accounts s.budget (s.disconnect env thr st).tasks (a.disconnect s env st) := by
  rw [tasks_disconnect]
  unfold Tally.disconnect
  by_cases hready : st.status = .ready
  · rw [if_pos hready]
    have hfree : ∀ p ∈ s.tasks, p.2.Busy → p.1 ≠ st.id :=
      fun p hp hbusy => howned.ready st hst hready p hp hbusy
    have hlose := h.lose hfree
    have hdone : (a.lose st.id).done st.id = false := if_pos rfl
    have hzero : (a.lose st.id).made true st.id = 0 := if_pos ⟨rfl, rfl⟩
    cases hret : s.retried st with
    | none =>
      have hno : s.redoes env st = false := by
        unfold redoes
        rw [hret]
        rfl
      rw [hno, Option.map_none, Option.toList_none, List.append_nil]
      exact hlose
    | some r =>
      have hredoes : s.redoes env st = st.asks env := by
        unfold redoes
        rw [hret]
        rfl
      rw [Option.map_some, Option.toList_some]
      by_cases hasks : st.asks env = true
      · obtain ⟨hended, hbudget⟩ := hok (hredoes.trans hasks)
        rw [if_pos (hredoes.trans hasks), hended]
        apply (hlose.redo hfree hbudget).append
        intro redo c ht
        have hone : ((a.lose st.id).attempt true st.id false).made true st.id =
            (a.lose st.id).made true st.id + 1 := if_pos ⟨rfl, rfl⟩
        have hspent : st.asks env = true → 1 + r.redoRetries = s.budget true := by
          intro _
          rw [retried_some hret] at hbudget ⊢
          change 1 + (r.reconnects - 1) = r.reconnects
          omega
        obtain ⟨rfl, hfits⟩ := Stage.fits_reconnectTask hspent ht
        rw [hone, hzero]
        exact ⟨hfits, fun _ => hdone⟩
      · rw [if_neg (fun hyes => hasks (hredoes.symm.trans hyes))]
        apply hlose.append
        intro redo c ht
        have hspent : st.asks env = true →
            (a.lose st.id).made true st.id + r.redoRetries = s.budget true :=
          fun hyes => absurd hyes hasks
        obtain ⟨rfl, hfits⟩ := Stage.fits_reconnectTask hspent ht
        exact ⟨hfits, fun _ => hdone⟩
  · have hret : s.retried st = none := by
      unfold retried
      cases s.route with
      | none => rfl
      | some route => exact if_neg (fun hand => hready hand.1)
    rw [if_neg hready, hret, Option.map_none, Option.toList_none, List.append_nil]
    exact h

/-- One step keeps the accounts. -/
theorem accounts_step {s t : Session} {a : Tally} {e : Event} (h : Accounts s.budget s.tasks a)
    (howned : s.frame.Owned) (hok : s.InBudget e) (ht : s.step e = some t) :
    Accounts s.budget t.tasks (a.next s e) := by
  have hsingle := howned.single
  cases e with
  | streamOk k ep =>
    simp only [step] at ht
    split at ht <;> cases ht
    rename_i i redo left hk
    simp only [Tally.next, hk]
    exact h.success hsingle hk (Task.busy_of_open trivial) (fun r c heq => by cases heq; exact id)
  | streamFail k abrupt =>
    simp only [step] at ht
    split at ht
    · rename_i i redo left hk
      have hmem := List.mem_of_getElem? hk
      have hfits : a.made redo i + left = s.budget redo := h.fits i redo _ hmem
      split at ht <;> cases ht
      · apply h.goOn
        intro r c heq
        cases heq
        exact ⟨trivial, fun hno => by cases hno⟩
      · apply h.goOn
        intro r c heq
        cases heq
        exact ⟨Conn.fits_failed hfits, fun _ => h.trying i redo _ hmem trivial⟩
    · cases ht
  | timer k env =>
    simp only [step] at ht
    split at ht
    · rename_i i redo left hk
      obtain ⟨st, hst, rfl⟩ := Option.map_eq_some_iff.mp ht
      simp only [Tally.next, hk, hst, Option.any_some]
      by_cases hatt : st.attempts env = true
      · have hlisted : env.getSession = true := (Bool.and_eq_true_iff.mp hatt).1
        have hended : s.ended = false := by
          by_contra hne
          rw [hok (eq_true_of_ne_false hne)] at hlisted
          cases hlisted
        rw [if_pos hatt, hended]
        exact h.attempt hsingle hk (fun made hmade => Stage.fits_run (fun _ => hmade))
      · rw [if_neg hatt]
        apply h.goOn
        intro r c heq
        cases heq
        exact ⟨Stage.fits_run (fun hyes => absurd hyes hatt),
          fun _ => h.trying i redo _ (List.mem_of_getElem? hk) trivial⟩
    · cases ht
  | listenerOk k =>
    simp only [step] at ht
    split at ht <;> cases ht
    rename_i i hk
    simp only [Tally.next, hk]
    exact h.success hsingle hk (.inl trivial) (fun r c heq => by cases heq)
  | listenerFail k =>
    simp only [step] at ht
    split at ht <;> cases ht
    apply h.goOn
    intro r c heq
    cases heq
    exact ⟨trivial, fun hno => by cases hno⟩
  | lost i env thr =>
    simp only [step] at ht
    split_ifs at ht
    cases hst : s.stage? i with
    | none => simp only [hst] at ht; cases ht
    | some st =>
      simp only [hst] at ht
      obtain ⟨x, -, rfl⟩ := Option.map_eq_some_iff.mp ht
      simp only [Tally.next, hst]
      by_cases hlist : st.listening = true
      · rw [if_pos hlist, if_pos hlist]
        exact accounts_disconnect (s := { s with lost := s.lost ++ [x] }) thr h howned
          (stage?_mem hst).1 (hok st hst hlist)
      · rw [if_neg hlist, if_neg hlist]
        exact h
  | disconnect i env thr =>
    simp only [step] at ht
    split_ifs at ht
    cases hst : s.stage? i with
    | none => simp only [hst] at ht; cases ht
    | some st =>
      simp only [hst] at ht
      split_ifs at ht
      cases ht
      simp only [Tally.next, hst]
      exact accounts_disconnect thr h howned (stage?_mem hst).1 (hok st hst)
  | end_ =>
    cases ht
    rw [tasks_end_]
    exact h
  | error thr =>
    cases ht
    rw [tasks_error]
    exact h
  | destroyTimer =>
    simp only [step] at ht
    split_ifs at ht
    cases ht
    exact h
  | resume k =>
    simp only [step] at ht
    split at ht <;> cases ht
    exact h.goOn (fun r c heq => by cases heq)
  | rejoin k thr =>
    simp only [step] at ht
    split at ht <;> cases ht
    rw [tasks_rejoin]
    exact h.sub (fun p hp => List.mem_of_mem_eraseIdx hp)
  | giveUp k thr =>
    simp only [step] at ht
    split at ht <;> cases ht
    rw [tasks_error]
    exact h.sub (fun p hp => List.mem_of_mem_eraseIdx hp)
  | pipelineOk =>
    simp only [step] at ht
    split_ifs at ht
    cases ht
    exact h
  | pipelineFail thr =>
    simp only [step] at ht
    split_ifs at ht
    cases ht
    rw [tasks_error]
    exact h

end Session

namespace Tally

theorem made_false_attempt (redo : Bool) (i : ℕ) (ended : Bool) (a : Tally) (j : ℕ) :
    a.made false j ≤ (a.attempt redo i ended).made false j := by
  dsimp only [attempt]
  split_ifs
  · exact Nat.le_succ _
  · exact Nat.le_refl _

theorem made_false_lose (i : ℕ) (a : Tally) (j : ℕ) :
    (a.lose i).made false j = a.made false j := by
  have hno : ¬(false = true ∧ j = i) := fun h => Bool.false_ne_true h.1
  dsimp only [lose]
  rw [if_neg hno]

theorem made_false_disconnect (s : Session) (env : Env) (st : Stage) (a : Tally) (j : ℕ) :
    a.made false j ≤ (a.disconnect s env st).made false j := by
  unfold disconnect
  split_ifs
  · rw [← made_false_lose st.id a j]
    exact made_false_attempt _ _ _ _ _
  · exact Nat.le_of_eq (made_false_lose st.id a j).symm
  · exact Nat.le_refl _

/-- The attempts of the setup are never forgotten. -/
theorem made_false_next (s : Session) (a : Tally) (e : Session.Event) (j : ℕ) :
    a.made false j ≤ (a.next s e).made false j := by
  cases e with
  | streamOk | listenerOk =>
    dsimp only [next]
    split <;> exact Nat.le_refl _
  | timer =>
    dsimp only [next]
    split
    · split_ifs
      · exact made_false_attempt _ _ _ _ _
      · exact Nat.le_refl _
    · exact Nat.le_refl _
  | lost =>
    dsimp only [next]
    split
    · split_ifs
      · exact made_false_disconnect _ _ _ _ _
      · exact Nat.le_refl _
    · exact Nat.le_refl _
  | disconnect =>
    dsimp only [next]
    split
    · exact made_false_disconnect _ _ _ _ _
    · exact Nat.le_refl _
  | _ => exact Nat.le_refl _

end Tally

namespace Tallied

/-- The accounts with what they rest on. -/
structure Kept (p : Tallied) : Prop where
  sound : p.session.ledger.Sound
  tried : ∀ i ∈ (p.session.getStages.map Stage.id).tail, 1 ≤ p.tally.made false i
  accounts : Accounts p.session.budget p.session.tasks p.tally

theorem Kept.step {p q : Tallied} {e : Session.Event} (h : p.Kept) (hok : p.session.InBudget e)
    (hq : p.step e = some q) : q.Kept := by
  obtain ⟨t, ht, rfl⟩ := Option.map_eq_some_iff.mp hq
  have hidentity := Session.step_identity ht
  have hids : t.getStages.map Stage.id = p.session.getStages.map Stage.id :=
    congrArg Identity.ids hidentity
  have hroute : t.route = p.session.route := congrArg Identity.route hidentity
  have hbudget : t.budget = p.session.budget := by
    unfold Session.budget
    rw [hroute]
  refine ⟨(Session.step_ledger ht).sound h.sound, ?_, ?_⟩
  · intro i hi
    rw [hids] at hi
    exact Nat.le_trans (h.tried i hi) (Tally.made_false_next _ _ e i)
  · rw [hbudget]
    exact Session.accounts_step h.accounts h.sound.owned hok ht

theorem Kept.within {p : Tallied} (h : p.Kept) : p.Within where
  setup st hst := by
    refine ⟨h.tried st.id ?_, h.accounts.made false st.id⟩
    rw [← List.map_tail]
    exact List.mem_map_of_mem hst
  redo st _ := h.accounts.made true st.id
  full := h.accounts.fits
  again := h.accounts.again
  late := h.accounts.late

theorem kept_start (name : String) (id : ℕ) (origin : String) (err : Bool) (st : Session.Start) :
    (start name id origin err (st.seen true)).Kept := by
  have hsound : (Session.start name id origin err (st.seen true)).ledger.Sound :=
    Session.sound_reachable ⟨_, _, _, _, _, rfl⟩
      (Run.refl _ : Run Session.step GuardedRun.always _ _)
  cases st with
  | failed track lookedUp thr =>
    have hledger := Session.start_failed name id origin err track lookedUp thr
    have htasks : (Session.start name id origin err (.failed track lookedUp thr)).tasks = [] := by
      have h := congrArg (fun l => l.frame.tasks) hledger
      rw [Ledger.finalise_tasks] at h
      exact h
    have hstages : (Session.start name id origin err (.failed track lookedUp thr)).getStages.tail =
        [] := by
      have h := congrArg (fun l => l.frame.stages.tail) hledger
      rcases Bool.eq_false_or_eq_true (err && thr) with hstuck | hstuck <;> rw [hstuck] at h <;>
        exact h
    refine ⟨hsound, ?_, ⟨fun _ _ => Nat.zero_le _, ?_, ?_, rfl, rfl⟩⟩
    · intro i hi
      rw [← List.map_tail] at hi
      change i ∈ (Session.start name id origin err (.failed track lookedUp thr)).getStages.tail.map
        Stage.id at hi
      rw [hstages] at hi
      exact absurd hi List.not_mem_nil
    · intro i redo c hp
      change _ ∈ (Session.start name id origin err (.failed track lookedUp thr)).tasks at hp
      rw [htasks] at hp
      exact absurd hp List.not_mem_nil
    · exact fun _ _ _ _ _ => rfl
  | piped track reconnect route env =>
    let found : Env := { env with getSession := true }
    let s := Session.start name id origin err (.piped track reconnect route found)
    have hledger := Session.start_piped name id origin err track reconnect route found
    have htasks : s.tasks = Session.waitList (Session.connects found route (id+1)) :=
      congrArg (fun l => l.frame.tasks) hledger
    have hstages : s.getStages.tail = (Session.connects found route (id+1)).map Prod.fst :=
      congrArg (fun l => l.frame.stages.tail) hledger
    have hroute : s.route = some route := rfl
    have hone : ∀ i ∈ s.getStages.tail.map Stage.id,
        (start name id origin err (.piped track reconnect route found)).tally.made false i = 1 :=
      fun i hi => if_pos ⟨rfl, rfl, hi⟩
    refine ⟨hsound, ?_, ⟨?_, ?_, fun _ _ _ _ _ => rfl, rfl, rfl⟩⟩
    · intro i hi
      rw [← List.map_tail] at hi
      exact Nat.le_of_eq (hone i hi).symm
    · intro redo i
      dsimp only [start, Tally.start, Session.Start.seen]
      split_ifs with hif
      · rw [hif.1]
        exact Nat.succ_le_succ (Nat.zero_le route.retry.setupRetries)
      · exact Nat.zero_le _
    · intro i redo c hp
      change _ ∈ s.tasks at hp
      rw [htasks] at hp
      obtain ⟨p, hin, heq⟩ := List.mem_map.mp hp
      cases heq
      have hmem : p.1.id ∈ s.getStages.tail.map Stage.id := by
        rw [hstages]
        exact List.mem_map_of_mem (List.mem_map_of_mem hin)
      obtain ⟨j, origin', hnew⟩ := Session.connectAll_mem found _ _ _ p hin
      change p.2.Fits ((start name id origin err
        (.piped track reconnect route found)).tally.made false p.1.id) (s.budget false)
      rw [hone _ hmem, hnew]
      exact Stage.fits_run (fun _ => Nat.add_comm 1 _)

/-- In every run in which losses are answered only with retries left and before the end, and late
timers find no session, the attempts stay within the budget of the policy. -/
theorem within_of_inBudget (name : String) (id : ℕ) (origin : String) (err : Bool)
    (st : Session.Start) {p : Tallied} (h : Run step (fun p e => p.session.InBudget e)
      (start name id origin err (st.seen true)) p) : p.Within := by
  have hkept : p.Kept := Run.invariant (P := Kept) (fun _ _ _ hp hok hq => hp.step hok hq) h
    (kept_start name id origin err st)
  exact hkept.within

/-- A session to one destination cluster: `lookupAll` finds every session and cluster. -/
def ofPolicy (retryOn : RetryOn) (num_retries : ℕ) : Tallied :=
  start "s" 0 "l" false ((Session.Start.piped 5 false
    ⟨"r", "c", [], [], ⟨retryOn, num_retries, 2000⟩, false⟩ Session.lookupAll).seen true)

def endPoint : EndPointRef := ⟨"e", some "c"⟩

/-- The destination connects, is lost, fails once and connects again. -/
def reconnecting : List Session.Event :=
  [.streamOk 0 endPoint, .pipelineOk, .lost 1 Session.lookupAll false, .streamFail 1 false,
    .timer 1 Session.lookupAll, .streamOk 1 endPoint]

theorem within_of_inBudget_reconnecting : ∃ p, exec step (fun p e => p.session.InBudget e)
    (ofPolicy .always 2) reconnecting = some p ∧ p.Within := by
  obtain ⟨p, hp⟩ : ∃ p, exec step (fun p e => p.session.InBudget e) (ofPolicy .always 2)
    reconnecting = some p := ⟨_, rfl⟩
  exact ⟨p, hp, within_of_inBudget "s" 0 "l" false _ (exec_run reconnecting _ _ hp)⟩

/-- Without retries a loss is answered with an attempt all the same. -/
theorem retries_without_budget : ¬∀ (name : String) (id : ℕ) (origin : String) (err : Bool)
    (st : Session.Start) (p : Tallied), Run step GuardedRun.always
      (start name id origin err (st.seen true)) p → p.Within := by
  intro h
  obtain ⟨p, hp⟩ : ∃ p, exec step GuardedRun.always (ofPolicy .disconnect 0)
    (reconnecting.take 3) = some p := ⟨_, rfl⟩
  have hwithin := h "s" 0 "l" false _ p (exec_run _ _ _ hp)
  cases hp
  exact absurd (hwithin.redo _ (List.mem_cons_of_mem _ List.mem_cons_self)) (by decide)

/-- An attempt is made after the end of a session that is still listed. -/
example : (exec step GuardedRun.always (ofPolicy .connectFailure 2)
    [.streamFail 0 false, .end_, .timer 0 Session.lookupAll]).map (fun p => p.tally.late) =
      some 1 := rfl

end Tallied

end L7mp
