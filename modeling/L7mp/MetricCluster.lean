import L7mp.SessionFlow
import Mathlib.Algebra.BigOperators.Ring.Finset

/-! The counters that `MetricCluster` keeps for all sessions that pass its streams, while the
streams of the sessions take their turns in any order. -/
namespace L7mp
open Js Dataflow GuardedRun
open scoped BigOperators

/-- The counters of prom-client with the labels `sessionName` and `clusterName`: a new one, the
value under two labels, and `inc` with an optional value. -/
structure PromClient where
  Counter : Type
  new : Counter
  get : Counter → String × String → ℕ
  inc : Counter → String × String → Option ℕ → Counter

/-- A counter starts at 0, and `inc` adds its value, or 1, under its own labels. -/
structure PromClient.Faithful (c : PromClient) : Prop where
  get_new : ∀ labels, c.get c.new labels = 0
  get_inc : ∀ counter labels value labels', c.get (c.inc counter labels value) labels' =
    c.get counter labels' + if labels' = labels then value.getD 1 else 0

/-- The counters of `metricClusterMetricRegistry`. -/
structure MetricRegistry (c : PromClient) where
  session_byte_counter_total : c.Counter
  session_packet_counter_total : c.Counter

namespace MetricRegistry

variable {c : PromClient}

def new (c : PromClient) : MetricRegistry c := ⟨c.new, c.new⟩

/-- The two `inc` of the transform of `MetricCluster`. -/
def count (h : NodeJs) (labels : String × String) (arg : Message) (r : MetricRegistry c) :
    MetricRegistry c where
  session_byte_counter_total :=
    c.inc r.session_byte_counter_total labels (some (arg.bytes h).length)
  session_packet_counter_total := c.inc r.session_packet_counter_total labels none

end MetricRegistry

structure RunningSession extends SessionPlan where
  name : String

namespace RunningSession

/-- The message that the transform of a `MetricCluster` is called with in a step, and the name of
the cluster. -/
def measured (p : RunningSession) (s : State ℕ Item) : Event ℕ Item → Option (String × Message)
  | .emit _ _ => none
  | .work i => match p.cluster i, s.queue i with
    | some (.metric clusterName), some arg :: _ =>
      if none ∈ s.past i then none else some (clusterName, arg)
    | _, _ => none

/-- What a step does to the counters. -/
def observe {c : PromClient} (h : NodeJs) (p : RunningSession) (s : State ℕ Item)
    (r : MetricRegistry c) (e : Event ℕ Item) : MetricRegistry c :=
  match p.measured s e with
  | some (clusterName, arg) => r.count h (p.name, clusterName) arg
  | none => r

end RunningSession

/-- The data of the sessions `κ` on its way, and the counters. -/
structure MetricWorld (κ : Type) (c : PromClient) where
  flow : κ → State ℕ Item
  registry : MetricRegistry c

namespace MetricWorld

def start (κ : Type) (c : PromClient) : MetricWorld κ c := ⟨fun _ => .start, .new c⟩

variable {κ : Type} [DecidableEq κ] {c : PromClient} (h : NodeJs) (sessions : κ → RunningSession)

/-- One of the sessions makes a step. -/
def step (w : MetricWorld κ c) (e : κ × Event ℕ Item) : Option (MetricWorld κ c) :=
  (((sessions e.1).net h).step (w.flow e.1) e.2).map (fun t =>
    { flow := Function.update w.flow e.1 t
      registry := (sessions e.1).observe h (w.flow e.1) w.registry e.2 })

variable {h} {sessions} {w w' : MetricWorld κ c}

theorem step_eq {k : κ} {e : Event ℕ Item} (he : step h sessions w (k, e) = some w') :
    ∃ t, ((sessions k).net h).step (w.flow k) e = some t ∧
      w' = ⟨Function.update w.flow k t, (sessions k).observe h (w.flow k) w.registry e⟩ := by
  obtain ⟨t, ht, rfl⟩ := Option.map_eq_some_iff.mp he
  exact ⟨t, ht, rfl⟩

/-- Each session runs as if it were alone. -/
theorem session_run (hrun : Run (step h sessions) always (start κ c) w) (k : κ) :
    Run ((sessions k).net h).step always .start (w.flow k) := by
  refine hrun.invariant (P := fun w => Run ((sessions k).net h).step always .start (w.flow k)) ?_
    (Run.refl _)
  rintro w ⟨k', e⟩ w' hw _ he
  obtain ⟨t, ht, rfl⟩ := step_eq he
  by_cases hk : k = k'
  · subst hk
    change Run _ _ _ (Function.update w.flow k t k)
    rw [Function.update_self]
    exact Relation.ReflTransGen.tail hw ⟨e, trivial, ht⟩
  · change Run _ _ _ (Function.update w.flow k' t k)
    rw [Function.update_of_ne hk]
    exact hw

end MetricWorld

/-! ### What a stage has counted -/

/-- The sizes of the messages before the end, added up. -/
def tally (size : Message → ℕ) (items : List Item) : ℕ := ((messages items).map size).sum

theorem messages_concat (items : List Item) (item : Item) : messages (items ++ [item]) =
    messages items ++ if none ∈ items then [] else item.toList := by
  induction items with
  | nil => cases item <;> rfl
  | cons x items ih =>
    cases x with
    | none => rw [if_pos List.mem_cons_self, List.append_nil]; rfl
    | some m =>
      have hmem : (none : Item) ∈ some m :: items ↔ none ∈ items := by simp
      have hcons := congrArg (m :: ·) ih
      simp only [hmem]
      exact hcons

theorem tally_message (size : Message → ℕ) (items : List Item) (m : Message) :
    tally size (items ++ [some m]) = tally size items + if none ∈ items then 0 else size m := by
  unfold tally
  rw [messages_concat]
  by_cases hend : (none : Item) ∈ items
  · rw [if_pos hend, if_pos hend, List.append_nil, Nat.add_zero]
  · rw [if_neg hend, if_neg hend, List.map_append, List.sum_append]
    rfl

theorem tally_end (size : Message → ℕ) (items : List Item) :
    tally size (items ++ [none]) = tally size items := by
  have hnil : (if (none : Item) ∈ items then [] else (none : Item).toList) = [] := by
    split <;> rfl
  unfold tally
  rw [messages_concat, hnil, List.append_nil]

/-- The bytes of a stream are those of its content. -/
theorem tally_bytes (h : NodeJs) (items : List Item) :
    tally (fun m => (m.bytes h).length) items = (content h items).flatten.length := by
  unfold tally content contentOf
  induction messages items with
  | nil => rfl
  | cons m ms ih =>
    rw [List.map_cons, List.sum_cons, List.map_cons, ih, List.filter_cons]
    by_cases hm : m.bytes h = []
    · simp [hm]
    · rw [if_pos (by simpa using hm), List.flatten_cons, List.length_append]

namespace SessionPlan

variable {h : NodeJs} {p : SessionPlan} {s t : State ℕ Item}

/-- The stages of the session. -/
def stages (p : SessionPlan) : Finset ℕ := p.chain.cycle.toFinset

/-- Nothing is written to a stage that is not of the session. -/
theorem queue_outside (hrun : Run (p.net h).step always .start s) {i : ℕ} (hi : i ∉ p.stages) :
    s.queue i = [] := by
  have hno : ∀ k, (p.net h).pipes.count (k, i) = 0 := by
    intro k
    apply List.count_eq_zero_of_not_mem
    intro hmem
    have hring : (k, i) ∈ p.chain.ring := p.chain.finish_eq_ring ▸ hmem
    exact hi (List.mem_toFinset.mpr (RingEdges.mem_of_mem_edges hring).2)
  have hdeliver : ∀ (s : State ℕ Item) (k : ℕ) (ys : List Item),
      (s.deliver (p.net h).pipes k ys).queue i = s.queue i := by
    intro s k ys
    change s.queue i ++ ys.flatMap (List.replicate ((p.net h).pipes.count (k, i))) = _
    rw [hno, flatMap_replicate_zero, List.append_nil]
  refine hrun.invariant (P := fun s => s.queue i = []) ?_ rfl
  intro s e t hs _ he
  cases e with
  | emit k x =>
    obtain ⟨_, rfl⟩ := step_emit he
    rw [hdeliver, hs]
  | work k =>
    obtain ⟨x, rest, hq, rfl⟩ := step_work he
    have hne : i ≠ k := by
      intro heq
      rw [← heq, hs] at hq
      cases hq
    rw [hdeliver]
    change Function.update s.queue k rest i = []
    rw [Function.update_of_ne hne, hs]

end SessionPlan

namespace RunningSession

variable {h : NodeJs} {p : RunningSession} {s t : State ℕ Item}

/-- What the stages of cluster `clusterName` have counted in the session. -/
def counted (p : RunningSession) (clusterName : String) (size : Message → ℕ) (s : State ℕ Item) :
    ℕ :=
  ∑ i ∈ p.stages, if p.cluster i = some (.metric clusterName) then tally size (s.past i) else 0

/-- What one step adds to it. -/
def gain (p : RunningSession) (clusterName : String) (size : Message → ℕ) (s : State ℕ Item)
    (e : Event ℕ Item) : ℕ :=
  match p.measured s e with
  | some (c, arg) => if c = clusterName then size arg else 0
  | none => 0

/-- One entry of a sum grows. -/
theorem sum_grows {ι : Type*} [DecidableEq ι] {S : Finset ι} {f g : ι → ℕ} {k : ι} {d : ℕ}
    (hk : k ∈ S) (hg : ∀ i, g i = f i + if i = k then d else 0) : ∑ i ∈ S, g i = ∑ i ∈ S, f i + d := by
  have hsum : ∑ i ∈ S, g i = ∑ i ∈ S, (f i + if i = k then d else 0) :=
    Finset.sum_congr rfl (fun i _ => hg i)
  rw [hsum, Finset.sum_add_distrib, Finset.sum_ite_eq', if_pos hk]

/-- A turn adds the size of the message that is waiting, if the stage is of the cluster and was
not ended. -/
theorem gain_work {k : ℕ} {x : Item} {rest : List Item} (hq : s.queue k = x :: rest)
    (clusterName : String) (size : Message → ℕ) : p.gain clusterName size s (.work k) =
      if p.cluster k = some (.metric clusterName) then
        x.elim 0 (fun m => if none ∈ s.past k then 0 else size m)
      else 0 := by
  unfold gain measured
  cases x with
  | none => simp [hq]
  | some m =>
    cases hc : p.cluster k with
    | none => simp [hc]
    | some v =>
      cases v with
      | metric c => by_cases hend : (none : Item) ∈ s.past k <;> simp [hq, hc, hend]
      | _ => simp [hc]

theorem counted_step (hrun : Run (p.net h).step always .start s) {e : Event ℕ Item}
    (he : (p.net h).step s e = some t) (clusterName : String) (size : Message → ℕ) :
    p.counted clusterName size t = p.counted clusterName size s + p.gain clusterName size s e := by
  cases e with
  | emit k x =>
    obtain ⟨_, rfl⟩ := step_emit he
    rfl
  | work k =>
    obtain ⟨x, rest, hq, rfl⟩ := step_work he
    have hk : k ∈ p.stages := by
      by_contra hout
      rw [SessionPlan.queue_outside hrun hout] at hq
      cases hq
    refine sum_grows hk ?_
    intro i
    change (if p.cluster i = some (.metric clusterName) then
      tally size (Function.update s.past k (s.past k ++ [x]) i) else 0) = _
    by_cases hi : i = k
    · rw [if_pos hi, hi, Function.update_self, gain_work hq]
      by_cases hc : p.cluster k = some (.metric clusterName)
      · rw [if_pos hc, if_pos hc, if_pos hc]
        cases x with
        | none => exact tally_end size (s.past k)
        | some m => exact tally_message size (s.past k) m
      · rw [if_neg hc, if_neg hc, if_neg hc]
    · rw [if_neg hi, Function.update_of_ne hi, Nat.add_zero]

/-- A step adds to the counters of the session's own labels. -/
theorem observe_counts {c : PromClient} (hcounter : c.Faithful) (e : Event ℕ Item)
    (r : MetricRegistry c) (sessionName clusterName : String) :
    c.get (p.observe h s r e).session_byte_counter_total (sessionName, clusterName) =
      c.get r.session_byte_counter_total (sessionName, clusterName) +
        (if p.name = sessionName then
          p.gain clusterName (fun m => (m.bytes h).length) s e else 0) ∧
    c.get (p.observe h s r e).session_packet_counter_total (sessionName, clusterName) =
      c.get r.session_packet_counter_total (sessionName, clusterName) +
        (if p.name = sessionName then p.gain clusterName (fun _ => 1) s e else 0) := by
  unfold observe gain
  cases p.measured s e with
  | none => simp
  | some measured =>
    obtain ⟨name, arg⟩ := measured
    dsimp only [MetricRegistry.count]
    rw [hcounter.get_inc, hcounter.get_inc]
    -- the two counters grow under the labels of the step
    by_cases hsession : p.name = sessionName
    · by_cases hcluster : name = clusterName
      · simp only [hsession, hcluster, if_pos]
        exact ⟨rfl, rfl⟩
      · -- another label keeps its value
        have hlabels : (sessionName, clusterName) ≠ (p.name, name) :=
          fun heq => hcluster (congrArg Prod.snd heq).symm
        simp [hlabels, hcluster]
    · have hlabels : (sessionName, clusterName) ≠ (p.name, name) :=
        fun heq => hsession (congrArg Prod.fst heq).symm
      simp [hlabels, hsession]

end RunningSession

namespace MetricWorld

variable {κ : Type} [DecidableEq κ] [Fintype κ] {c : PromClient} {h : NodeJs}
  {sessions : κ → RunningSession} {w w' : MetricWorld κ c}

/-- What the stages of cluster `clusterName` have counted in the sessions of one name. -/
def total (sessions : κ → RunningSession) (sessionName clusterName : String) (size : Message → ℕ)
    (w : MetricWorld κ c) : ℕ :=
  ∑ k, if (sessions k).name = sessionName then (sessions k).counted clusterName size (w.flow k)
    else 0

theorem total_step {k : κ} {e : Event ℕ Item} {t : State ℕ Item} {r : MetricRegistry c}
    (hrun : Run ((sessions k).net h).step always .start (w.flow k))
    (ht : ((sessions k).net h).step (w.flow k) e = some t) (sessionName clusterName : String)
    (size : Message → ℕ) :
    total sessions sessionName clusterName size ⟨Function.update w.flow k t, r⟩ =
      total sessions sessionName clusterName size w + if (sessions k).name = sessionName then
        (sessions k).gain clusterName size (w.flow k) e else 0 := by
  apply RunningSession.sum_grows (Finset.mem_univ k)
  intro i
  dsimp only
  by_cases hi : i = k
  · subst hi
    rw [if_pos rfl, Function.update_self]
    by_cases hname : (sessions i).name = sessionName
    · rw [if_pos hname, if_pos hname, if_pos hname]
      exact RunningSession.counted_step hrun ht clusterName size
    · rw [if_neg hname, if_neg hname, if_neg hname]
  · rw [if_neg hi, Function.update_of_ne hi, Nat.add_zero]

theorem counters_agree (hcounter : c.Faithful) (hrun : Run (step h sessions) always (start κ c) w)
    (sessionName clusterName : String) :
    c.get w.registry.session_byte_counter_total (sessionName, clusterName) =
      total sessions sessionName clusterName (fun m => (m.bytes h).length) w ∧
    c.get w.registry.session_packet_counter_total (sessionName, clusterName) =
      total sessions sessionName clusterName (fun _ => 1) w := by
  induction hrun with
  | refl =>
    have hzero : ∀ size, total sessions sessionName clusterName size (start κ c) = 0 := by
      intro size
      apply Finset.sum_eq_zero
      intro k _
      have hcounted : (sessions k).counted clusterName size State.start = 0 := by
        apply Finset.sum_eq_zero
        intro i _
        split <;> rfl
      change (if _ then (sessions k).counted clusterName size State.start else 0) = 0
      rw [hcounted]
      split <;> rfl
    have hnew := hcounter.get_new (sessionName, clusterName)
    exact ⟨hnew.trans (hzero _).symm, hnew.trans (hzero _).symm⟩
  | tail hbefore hstep ih =>
    obtain ⟨⟨k, e⟩, _, he⟩ := hstep
    obtain ⟨t, ht, rfl⟩ := step_eq he
    obtain ⟨hb, hp⟩ := RunningSession.observe_counts (h := h) (p := sessions k) hcounter e _
      sessionName clusterName
    have hsession := session_run hbefore k
    rw [total_step hsession ht, total_step hsession ht, ← ih.1, ← ih.2]
    exact ⟨hb, hp⟩

/-- In every state that the sessions reach together, the counters of a session name and a cluster
are the messages, and their bytes, that the stages of the cluster have passed on in the sessions
of that name. -/
theorem registry_counts (c : PromClient) (hcounter : c.Faithful) (h : NodeJs)
    (sessions : κ → RunningSession) (w : MetricWorld κ c)
    (hrun : Run (step h sessions) always (start κ c) w) (sessionName clusterName : String) :
    c.get w.registry.session_byte_counter_total (sessionName, clusterName) =
      total sessions sessionName clusterName (fun m => (m.bytes h).length) w ∧
    c.get w.registry.session_packet_counter_total (sessionName, clusterName) =
      total sessions sessionName clusterName (fun _ => 1) w :=
  counters_agree hcounter hrun sessionName clusterName

/-- The value that a list of entries has under some labels, the last entry first. -/
def entry (entries : List ((String × String) × ℕ)) (labels : String × String) : ℕ :=
  (entries.lookup labels).getD 0

theorem entry_cons (entries : List ((String × String) × ℕ)) (labels labels' : String × String)
    (n : ℕ) : entry ((labels, entry entries labels + n) :: entries) labels' =
      entry entries labels' + if labels' = labels then n else 0 := by
  unfold entry
  by_cases heq : labels' = labels
  · rw [heq, List.lookup_cons_self, if_pos rfl]
    rfl
  · rw [List.lookup_cons, beq_false_of_ne heq, if_neg heq]
    rfl

/-- The values are kept by their labels. -/
def hashMap : PromClient where
  Counter := List ((String × String) × ℕ)
  new := []
  get := entry
  inc entries labels value := (labels, entry entries labels + value.getD 1) :: entries

theorem hashMap_faithful : hashMap.Faithful where
  get_new _ := rfl
  get_inc entries labels value labels' := entry_cons entries labels labels' (value.getD 1)

/-- Two sessions pass the cluster `m` on their way from the client to an endpoint. -/
def twoSessions (k : Bool) : RunningSession where
  chain := ⟨0, [1], [], 2⟩
  metadata := .null
  cluster i := if i = 1 then some (.metric "m") else none
  distinct := by decide
  listener := rfl
  name := if k then "s" else "t"

/-- Both clients send, and the streams take turns across the sessions. -/
def bothSend : List (Bool × Event ℕ Item) :=
  [(true, .emit 0 (some (.buffer [1, 2]))), (false, .emit 0 (some (.buffer [3]))),
    (false, .work 1), (true, .emit 0 (some (.buffer [4]))), (true, .work 1), (true, .work 1)]

theorem registry_counts_twoSessions :
    ∃ w, Run (step nodeNull twoSessions) always (start Bool hashMap) w ∧
      total twoSessions "s" "m" (fun m => (m.bytes nodeNull).length) w = 3 ∧
      total twoSessions "s" "m" (fun _ => 1) w = 2 := by
  have hcounts := registry_counts hashMap hashMap_faithful nodeNull twoSessions _
    (exec_run bothSend _ _ rfl) "s" "m"
  exact ⟨_, exec_run bothSend _ _ rfl, hcounts.1.symm, hcounts.2.symm⟩

theorem mem_stages {p : SessionPlan} {i j : ℕ} {l : List ℕ} {vs : List VirtualCluster}
    (hseg : p.Segment i l vs j) : j ∈ p.stages := by
  obtain ⟨a, b, hwalk⟩ := hseg.walk
  have hmem : j ∈ p.walk := by
    rw [hwalk]
    simp
  rcases List.mem_append.mp hmem with hcycle | hsource
  · exact List.mem_toFinset.mpr hcycle
  · rw [List.mem_singleton.mp hsource]
    exact List.mem_toFinset.mpr List.mem_cons_self

/-- The byte counter of a session that passes the cluster once, behind clusters that keep the
bytes, is never above the number of bytes that the listener has sent, and is that number when
nothing is on its way to the stage. -/
theorem bytes_measured (c : PromClient) (hcounter : c.Faithful) (h : NodeJs)
    (sessions : κ → RunningSession) (w : MetricWorld κ c)
    (hrun : Run (step h sessions) always (start κ c) w) (k : κ)
    (hname : ∀ k', (sessions k').name = (sessions k).name → k' = k)
    (hf : h.Faithful (sessions k).metadata) (clusterName : String) (j : ℕ) (l : List ℕ)
    (vs : List VirtualCluster)
    (hj : ∀ i ∈ (sessions k).stages, (sessions k).cluster i = some (.metric clusterName) ↔ i = j)
    (hseg : (sessions k).Segment (sessions k).chain.source l vs j)
    (hb : VirtualCluster.Balanced vs) :
    c.get w.registry.session_byte_counter_total ((sessions k).name, clusterName) ≤
      (content h ((w.flow k).sent (sessions k).chain.source)).flatten.length ∧
    ((∀ i ∈ l ++ [j], (w.flow k).queue i = []) →
      c.get w.registry.session_byte_counter_total ((sessions k).name, clusterName) =
        (content h ((w.flow k).sent (sessions k).chain.source)).flatten.length) := by
  have hcounted : (sessions k).counted clusterName (fun m => (m.bytes h).length) (w.flow k) =
      (content h ((w.flow k).past j)).flatten.length := by
    have hmem := mem_stages hseg
    have hone := Finset.sum_eq_single_of_mem (f := fun i =>
      if (sessions k).cluster i = some (.metric clusterName) then
        tally (fun m => (m.bytes h).length) ((w.flow k).past i) else 0) j hmem
      (fun i hi hne => if_neg (fun hc => hne ((hj i hi).mp hc)))
    unfold RunningSession.counted
    rw [hone, if_pos ((hj j hmem).mpr rfl), tally_bytes]
  have htotal : total sessions (sessions k).name clusterName (fun m => (m.bytes h).length) w =
      (content h ((w.flow k).past j)).flatten.length := by
    have hone := Finset.sum_eq_single_of_mem (f := fun k' =>
      if (sessions k').name = (sessions k).name then
        (sessions k').counted clusterName (fun m => (m.bytes h).length) (w.flow k') else 0) k
      (Finset.mem_univ k) (fun k' _ hne => if_neg (fun hn => hne (hname k' hn)))
    unfold total
    rw [hone, if_pos rfl, hcounted]
  have hbytes := (counters_agree hcounter hrun (sessions k).name clusterName).1
  have hsession := session_run hrun k
  have hkept := VirtualCluster.content_balanced hf hb
    ((w.flow k).sent (sessions k).chain.source)
  have hsound := SessionPlan.sound_of_run hsession
  rw [hbytes, htotal]
  refine ⟨?_, ?_⟩
  · have harrives := hsound.arrives (hseg.path h)
    rw [hseg.composite h] at harrives
    have hpast := (List.prefix_append ((w.flow k).past j) ((w.flow k).queue j)).trans harrives
    have hcontent := content_mono (h := h) hpast
    rw [hkept] at hcontent
    exact hcontent.sublist.flatten.length_le
  · intro hempty
    have harrived := hsound.arrived (hseg.path h) hempty
    rw [hseg.composite h] at harrived
    rw [harrived, hkept]

theorem bytes_measured_twoSessions :
    ∃ w, Run (step nodeNull twoSessions) always (start Bool hashMap) w ∧
      hashMap.get w.registry.session_byte_counter_total ("s", "m") =
        (content nodeNull ((w.flow true).sent 0)).flatten.length := by
  have hall := bytes_measured hashMap hashMap_faithful nodeNull twoSessions _
    (exec_run bothSend _ _ rfl) true (by decide) nodeNull_faithful "m" 1 [] [] (by decide)
    ⟨⟨[], [2, 0], rfl⟩, rfl⟩ .nil
  refine ⟨_, exec_run bothSend _ _ rfl, hall.2 ?_⟩
  intro i hi
  rw [List.mem_singleton.mp hi]
  rfl

end MetricWorld
end L7mp
