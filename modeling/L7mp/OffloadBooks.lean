import L7mp.UdpOffload
import Mathlib.Data.Set.Insert

/-! The books of the offload: the flows that the proxy recorded, the keys of the two maps, and
the 5-tuples that were created and not removed since. -/
namespace L7mp
open Aborting

namespace Tuple

theorem toBuffer_ok {t : Tuple} {key : List UInt8} :
    t.toBuffer = .ok key ↔ t.encodes = true ∧ t.bytes = key := by
  unfold toBuffer
  split_ifs with h
  · simp [h]
  · simp [h]

end Tuple

namespace UDPOffload

/-- The keys of the 5-tuples in `flows`. -/
def recorded (o : UDPOffload) : Set (List UInt8) :=
  {key | ∃ i ∈ o.flows, (o.heap i).toBuffer = .ok key}

end UDPOffload

/-- The offload, and the keys of the 5-tuples that were created and not removed since. -/
structure Books where
  offload : UDPOffload
  created : Set (List UInt8)

namespace Books
open UDPOffload

variable (parse : String → Option IPv4)

def start (heap : ℕ → Flow) : Books := ⟨fresh heap, ∅⟩

/-- What the caller of a request may assume that it did. -/
def settle (b : Books) (r : OffloadRequest) : Set (List UInt8) :=
  match (setOffload parse r b.offload).1, b.offload.prepare parse r, r.action with
  | .ok _, .ok key, .create => insert key b.created
  | .ok _, .ok key, .remove => b.created \ {key}
  | _, _, _ => b.created

def after (b : Books) (r : OffloadRequest) : Books :=
  ⟨(setOffload parse r b.offload).2, b.settle parse r⟩

/-- `P` holds before, between and after the requests. -/
def Throughout (P : Books → Prop) : List OffloadRequest → Books → Prop
  | [], b => P b
  | r :: rs, b => P b ∧ Throughout P rs (b.after parse r)

/-- The flows, the two maps and the requests agree, and the statistics can be read. -/
structure Agree (b : Books) : Prop where
  redirects : {key | b.offload.redirectsMap key ≠ none} = b.offload.recorded
  statistics : {key | b.offload.statisticsMap key ≠ none} = b.offload.recorded
  created : b.offload.recorded = b.created
  getStat : ∀ i ∈ b.offload.flows, ∃ s, b.offload.getStat parse (b.offload.heap i) = .ok s
  dumpStat : b.offload.dumpStat parse = .ok ()
  empty : b.created = ∅ → (∀ key, b.offload.redirectsMap key = none) ∧
    (∀ key, b.offload.statisticsMap key = none) ∧ b.offload.flows = []

/-- A create has a flow to redirect to that can be written, unless its 5-tuple is recorded; a
remove names the only object that has its 5-tuple. -/
def Meets (o : UDPOffload) (r : OffloadRequest) : Prop :=
  ∀ key, o.prepare parse r = .ok key →
    (r.action = .create → (∃ f ∈ r.redirFlow, (o.heap f).encodes = true) ∨ key ∈ o.recorded) ∧
    (r.action = .remove → ∀ i ∈ o.flows, (o.heap i).toBuffer = .ok key → i = r.inFlow)

def Meeting : List OffloadRequest → Books → Prop
  | [], _ => True
  | r :: rs, b => Meets parse b.offload r ∧ Meeting rs (b.after parse r)

/-- Every recorded flow can be shown and written, and every statistics entry can be read. -/
structure Sane (o : UDPOffload) : Prop where
  shows : ∀ i ∈ o.flows, showsFlow parse (o.heap i) = .ok ()
  writes : ∀ i ∈ o.flows, ∃ key, (o.heap i).toBuffer = .ok key
  sizes : ∀ key v, o.statisticsMap key = some v → 24 ≤ v.length

/-- The part of `Agree` that is about keys. -/
structure Keys (b : Books) : Prop where
  redirects : ∀ key, b.offload.redirectsMap key ≠ none ↔ key ∈ b.offload.recorded
  statistics : ∀ key, b.offload.statisticsMap key ≠ none ↔ key ∈ b.offload.recorded
  created : ∀ key, key ∈ b.offload.recorded ↔ key ∈ b.created

variable {parse}

theorem prepare_ok {o : UDPOffload} {r : OffloadRequest} {key : List UInt8}
    (h : o.prepare parse r = .ok key) :
    showsFlow parse (o.heap r.inFlow) = .ok () ∧ (o.heap r.inFlow).toBuffer = .ok key := by
  unfold prepare at h
  cases hshow : showsFlow parse (o.heap r.inFlow) with
  | error e =>
    rw [hshow] at h
    cases h
  | ok u =>
    rw [hshow] at h
    refine ⟨rfl, ?_⟩
    cases hr : r.redirFlow with
    | none =>
      rw [hr] at h
      exact h
    | some f =>
      rw [hr] at h
      cases hf : showsFlow parse (o.heap f) with
      | error e =>
        simp only [hf] at h
        cases h
      | ok u =>
        simp only [hf] at h
        exact h

@[simp] theorem tuple_setMetrics (i j : ℕ) (ms : Option (List String)) (o : UDPOffload) :
    ((o.setMetrics i ms).heap j).toTuple = (o.heap j).toTuple := by
  cases ms with
  | none => rfl
  | some ms =>
    by_cases hj : j = i
    · subst hj
      simp [setMetrics]
    · simp [setMetrics, hj]

theorem flows_setMetrics (i : ℕ) (ms : Option (List String)) (o : UDPOffload) :
    (o.setMetrics i ms).flows = o.flows ∧
      (o.setMetrics i ms).redirectsMap = o.redirectsMap ∧
      (o.setMetrics i ms).statisticsMap = o.statisticsMap := by
  cases ms <;> exact ⟨rfl, rfl, rfl⟩

theorem mem_addFlow {i j : ℕ} {o : UDPOffload} : j ∈ (o.addFlow i).flows ↔ j ∈ o.flows ∨ j = i := by
  unfold addFlow
  dsimp only
  split_ifs with hi
  · constructor
    · exact .inl
    · rintro (hj | rfl)
      · exact hj
      · exact hi
  · simp

/-- What a request does that gets to the maps. -/
theorem setOffload_of_prepared {o : UDPOffload} {r : OffloadRequest} {key : List UInt8}
    (h : o.prepare parse r = .ok key) : setOffload parse r o = perform key r o := by
  unfold setOffload
  rw [h]

theorem setOffload_of_error {o : UDPOffload} {r : OffloadRequest} {e : OffloadError}
    (h : o.prepare parse r = .error e) : setOffload parse r o = (.error e, o) := by
  unfold setOffload
  rw [h]

theorem create_writes {o : UDPOffload} {r : OffloadRequest} (key : List UInt8)
    (h : ∃ f ∈ r.redirFlow, (o.heap f).encodes = true) : (create key r o).1 = .ok () ∧
      (∀ k, (create key r o).2.redirectsMap k ≠ none ↔ k = key ∨ o.redirectsMap k ≠ none) ∧
      (∀ k, (create key r o).2.statisticsMap k =
        if k = key then some zeroStat else o.statisticsMap k) ∧
      (∀ i, i ∈ (create key r o).2.flows ↔ i ∈ o.flows ∨ i = r.inFlow) ∧
      ∀ i, ((create key r o).2.heap i).toTuple = (o.heap i).toTuple := by
  obtain ⟨f, hf, henc⟩ := h
  have hbuf : (o.heap f).toBuffer = .ok (o.heap f).bytes := Tuple.toBuffer_ok.mpr ⟨henc, rfl⟩
  unfold create
  rw [Option.mem_def.mp hf]
  simp only [hbuf]
  obtain ⟨hflows, hredirects, hstatistics⟩ := flows_setMetrics r.inFlow r.metrics
    { o with redirectsMap := o.redirectsMap.set key (o.heap f).bytes,
             statisticsMap := o.statisticsMap.set key zeroStat }
  refine ⟨trivial, fun k => ?_, fun k => ?_, fun i => ?_, fun i => ?_⟩
  · change (UDPOffload.setMetrics r.inFlow r.metrics _).redirectsMap k ≠ none ↔ _
    rw [hredirects]
    by_cases hk : k = key <;> simp [BpfMap.set, hk]
  · change (UDPOffload.setMetrics r.inFlow r.metrics _).statisticsMap k = _
    rw [hstatistics]
    exact Function.update_apply ..
  · rw [mem_addFlow, hflows]
  · exact tuple_setMetrics ..

/-- A create without a flow to redirect to stops half-way. -/
theorem create_stops {o : UDPOffload} {r : OffloadRequest} (key : List UInt8)
    (h : ¬∃ f ∈ r.redirFlow, (o.heap f).encodes = true) : (∃ e, (create key r o).1 = .error e) ∧
      (create key r o).2 = { o with statisticsMap := o.statisticsMap.set key zeroStat } := by
  unfold create
  cases hf : r.redirFlow with
  | none => exact ⟨⟨_, rfl⟩, rfl⟩
  | some f =>
    have hbuf : (o.heap f).toBuffer = .error .rangeError := by
      unfold Tuple.toBuffer
      rw [if_neg (fun henc => h ⟨f, hf, henc⟩)]
    simp only [hbuf]
    exact ⟨⟨_, rfl⟩, trivial⟩

theorem recorded_create {o : UDPOffload} {r : OffloadRequest} {key : List UInt8}
    (hkey : (o.heap r.inFlow).toBuffer = .ok key)
    (h : ∃ f ∈ r.redirFlow, (o.heap f).encodes = true) :
    (create key r o).2.recorded = insert key o.recorded := by
  obtain ⟨-, -, -, hflows, hheap⟩ := create_writes key h
  ext k
  unfold recorded
  simp only [hflows, hheap, Set.mem_ofPred_eq, Set.mem_insert_iff]
  constructor
  · rintro ⟨i, hi | rfl, hk⟩
    · exact .inr ⟨i, hi, hk⟩
    · rw [hkey] at hk
      cases hk
      exact .inl rfl
  · rintro (rfl | ⟨i, hi, hk⟩)
    · exact ⟨_, .inr rfl, hkey⟩
    · exact ⟨i, .inl hi, hk⟩

/-- A remove takes the 5-tuple out of the flows if no other object has it. -/
theorem recorded_drop {o : UDPOffload} {i : ℕ} {key : List UInt8}
    (hkey : (o.heap i).toBuffer = .ok key) :
    (∀ k, k ∈ (o.drop key i).recorded ↔ k ∈ o.recorded ∧ k ≠ key) ↔
      ∀ j ∈ o.flows, (o.heap j).toBuffer = .ok key → j = i := by
  have hmem (k : List UInt8) : k ∈ (o.drop key i).recorded ↔
      ∃ j ∈ o.flows, j ≠ i ∧ (o.heap j).toBuffer = .ok k := by
    unfold recorded UDPOffload.drop
    simp [and_assoc]
  constructor
  · intro h j hj hbuf
    by_contra hne
    exact ((h key).mp ((hmem key).mpr ⟨j, hj, hne, hbuf⟩)).2 rfl
  · intro h k
    rw [hmem]
    constructor
    · rintro ⟨j, hj, hne, hbuf⟩
      refine ⟨⟨j, hj, hbuf⟩, ?_⟩
      rintro rfl
      exact hne (h j hj hbuf)
    · rintro ⟨⟨j, hj, hbuf⟩, hk⟩
      refine ⟨j, hj, ?_, hbuf⟩
      rintro rfl
      rw [hkey] at hbuf
      cases hbuf
      exact hk rfl

/-- A create, where the keys were right before. -/
theorem keys_create_iff {b : Books} (h : b.Keys) {r : OffloadRequest} {key : List UInt8}
    (hprep : b.offload.prepare parse r = .ok key) (hact : r.action = .create) :
    (b.after parse r).Keys ↔ (∃ f ∈ r.redirFlow, (b.offload.heap f).encodes = true) ∨
      key ∈ b.offload.recorded := by
  have hset : setOffload parse r b.offload = create key r b.offload := by
    rw [setOffload_of_prepared hprep, perform, hact]
  by_cases hredir : ∃ f ∈ r.redirFlow, (b.offload.heap f).encodes = true
  · obtain ⟨hok, hredirects, hstatistics, -, -⟩ := create_writes key hredir
    have hrec := recorded_create (prepare_ok hprep).2 hredir
    have hcreated : b.settle parse r = insert key b.created := by
      unfold settle
      rw [hset, hok, hprep, hact]
    refine ⟨fun _ => .inl hredir, fun _ => ?_⟩
    unfold after
    rw [hset, hcreated]
    constructor
    · intro k
      rw [hredirects, hrec, Set.mem_insert_iff, h.redirects]
    · intro k
      rw [hstatistics, hrec, Set.mem_insert_iff, ← h.statistics]
      by_cases hk : k = key <;> simp [hk]
    · intro k
      rw [hrec, Set.mem_insert_iff, Set.mem_insert_iff, h.created]
  · obtain ⟨⟨e, herr⟩, hstate⟩ := create_stops key hredir
    have hcreated : b.settle parse r = b.created := by
      unfold settle
      rw [hset, herr]
    have hsame : ((create key r b.offload).2).recorded = b.offload.recorded := by
      rw [hstate]
      rfl
    rw [or_iff_right hredir]
    unfold after
    rw [hset, hcreated]
    constructor
    · intro hkeys
      have hstat := hkeys.statistics key
      rw [hsame, hstate] at hstat
      exact hstat.mp (by simp [BpfMap.set])
    · intro hmem
      constructor
      · intro k
        rw [hsame, hstate]
        exact h.redirects k
      · intro k
        rw [hsame, hstate, ← h.statistics]
        -- the entry that was overwritten was there before
        by_cases hk : k = key
        · subst hk
          simpa [BpfMap.set] using (h.statistics k).mpr hmem
        · simp [BpfMap.set, hk]
      · intro k
        rw [hsame]
        exact h.created k

/-- A remove, where the keys were right before. -/
theorem keys_remove_iff {b : Books} (h : b.Keys) {r : OffloadRequest} {key : List UInt8}
    (hprep : b.offload.prepare parse r = .ok key) (hact : r.action = .remove) :
    (b.after parse r).Keys ↔ ∀ i ∈ b.offload.flows,
      (b.offload.heap i).toBuffer = .ok key → i = r.inFlow := by
  have hset : setOffload parse r b.offload = (.ok (), b.offload.drop key r.inFlow) := by
    rw [setOffload_of_prepared hprep, perform, hact]
  have hcreated : b.settle parse r = b.created \ {key} := by
    unfold settle
    rw [hset, hprep, hact]
  have hdrop (k : List UInt8) (m : BpfMap) : m.delete key k ≠ none ↔ m k ≠ none ∧ k ≠ key := by
    unfold BpfMap.delete
    by_cases hk : k = key <;> simp [hk]
  rw [← recorded_drop (prepare_ok hprep).2]
  unfold after
  rw [hset, hcreated]
  constructor
  · intro hkeys k
    rw [← hkeys.redirects, ← h.redirects]
    exact hdrop k _
  · intro hrec
    constructor
    · intro k
      rw [hrec, ← h.redirects]
      exact hdrop k _
    · intro k
      rw [hrec, ← h.statistics]
      exact hdrop k _
    · intro k
      rw [hrec, h.created]
      rfl

/-- What a request does to the keys, where they were right before. -/
theorem keys_after_iff {b : Books} (h : b.Keys) (r : OffloadRequest) :
    (b.after parse r).Keys ↔ Meets parse b.offload r := by
  cases hprep : b.offload.prepare parse r with
  | error e =>
    have hafter : b.after parse r = b := by
      unfold after settle
      rw [setOffload_of_error hprep]
    rw [hafter]
    refine ⟨fun _ key hkey => ?_, fun _ => h⟩
    rw [hprep] at hkey
    cases hkey
  | ok key =>
    have hmeets : Meets parse b.offload r ↔
        (r.action = .create → (∃ f ∈ r.redirFlow, (b.offload.heap f).encodes = true) ∨
          key ∈ b.offload.recorded) ∧
        (r.action = .remove → ∀ i ∈ b.offload.flows,
          (b.offload.heap i).toBuffer = .ok key → i = r.inFlow) := by
      unfold Meets
      rw [hprep]
      simp
    rw [hmeets]
    cases hact : r.action with
    | create =>
      rw [keys_create_iff h hprep hact]
      exact ⟨fun hmem => ⟨fun _ => hmem, nofun⟩, fun hboth => hboth.1 rfl⟩
    | remove =>
      rw [keys_remove_iff h hprep hact]
      exact ⟨fun hsingle => ⟨nofun, fun _ => hsingle⟩, fun hboth => hboth.2 rfl⟩
    | other a =>
      have hafter : b.after parse r = b := by
        unfold after settle
        rw [setOffload_of_prepared hprep, perform, hact]
      rw [hafter]
      exact ⟨fun _ => ⟨nofun, nofun⟩, fun _ => h⟩

theorem sane_fresh (heap : ℕ → Flow) : Sane parse (fresh heap) where
  shows _ hi := nomatch hi
  writes _ hi := nomatch hi
  sizes _ _ hv := nomatch hv

theorem shows_congr {f g : Flow} (h : f.toTuple = g.toTuple) :
    showsFlow parse f = showsFlow parse g := by
  unfold showsFlow
  rw [h]

/-- Whatever the request, the recorded flows can be shown and written. -/
theorem Sane.after {b : Books} (h : Sane parse b.offload) (r : OffloadRequest) :
    Sane parse (b.after parse r).offload := by
  have hset {m : BpfMap} {key : List UInt8} (hm : ∀ k v, m k = some v → 24 ≤ v.length)
      {k v : List UInt8} (hv : m.set key zeroStat k = some v) : 24 ≤ v.length := by
    by_cases hk : k = key
    · subst hk
      obtain rfl : zeroStat = v := by simpa [BpfMap.set] using hv
      decide
    · exact hm k v (by simpa [BpfMap.set, hk] using hv)
  change Sane parse (setOffload parse r b.offload).2
  cases hprep : b.offload.prepare parse r with
  | error e =>
    rw [setOffload_of_error hprep]
    exact h
  | ok key =>
    obtain ⟨hshow, hkey⟩ := prepare_ok hprep
    rw [setOffload_of_prepared hprep]
    unfold perform
    cases r.action with
    | create =>
      by_cases hredir : ∃ f ∈ r.redirFlow, (b.offload.heap f).encodes = true
      · obtain ⟨-, -, hstatistics, hflows, hheap⟩ := create_writes key hredir
        constructor
        · intro i hi
          rw [shows_congr (hheap i)]
          rcases (hflows i).mp hi with hi | rfl
          · exact h.shows i hi
          · exact hshow
        · intro i hi
          rw [hheap i]
          rcases (hflows i).mp hi with hi | rfl
          · exact h.writes i hi
          · exact ⟨key, hkey⟩
        · intro k v hv
          rw [hstatistics] at hv
          exact @hset _ key h.sizes _ _ (by rw [← hv]; exact Function.update_apply ..)
      · obtain ⟨-, hstate⟩ := create_stops key hredir
        rw [hstate]
        exact ⟨h.shows, h.writes, fun k v hv => hset h.sizes hv⟩
    | remove =>
      constructor
      · intro i hi
        exact h.shows i (List.mem_of_mem_filter hi)
      · intro i hi
        exact h.writes i (List.mem_of_mem_filter hi)
      · intro k v hv
        by_cases hk : k = key
        · subst hk
          simp [UDPOffload.drop, BpfMap.delete] at hv
        · exact h.sizes k v (by simpa [UDPOffload.drop, BpfMap.delete, hk] using hv)
    | other a => exact h

/-- The statistics of a flow with an entry can be read. -/
theorem getStat_ok {o : UDPOffload} (h : Sane parse o) {i : ℕ} (hi : i ∈ o.flows)
    (hstat : ∀ key, (o.heap i).toBuffer = .ok key → o.statisticsMap key ≠ none) :
    ∃ s, o.getStat parse (o.heap i) = .ok s := by
  obtain ⟨key, hkey⟩ := h.writes i hi
  obtain ⟨v, hv⟩ := Option.ne_none_iff_exists'.mp (hstat key hkey)
  obtain ⟨stat, hread⟩ : ∃ stat, FlowStat.fromBuffer (o.statisticsMap key) = .ok stat := by
    rw [hv, FlowStat.fromBuffer, if_pos (h.sizes key v hv)]
    exact ⟨_, rfl⟩
  unfold getStat
  rw [h.shows i hi, hkey]
  change ∃ s, (do
    let stat ← FlowStat.fromBuffer (o.statisticsMap key)
    pure ((o.heap i).metrics.map (fun m => (m, stat.metric m)))) = Except.ok s
  rw [hread]
  exact ⟨_, rfl⟩

theorem dumpFlows_ok {o : UDPOffload} (h : Sane parse o) (l : List ℕ) (hl : ∀ i ∈ l, i ∈ o.flows)
    (hstat : ∀ i ∈ o.flows, ∃ s, o.getStat parse (o.heap i) = .ok s) :
    dumpFlows parse o l = .ok () := by
  induction l with
  | nil => rfl
  | cons i l ih =>
    have hi := hl i List.mem_cons_self
    obtain ⟨s, hs⟩ := hstat i hi
    rw [dumpFlows, hs, h.shows i hi]
    exact ih (fun j hj => hl j (List.mem_cons_of_mem i hj))

/-- Where the flows can be read at all, the books agree if and only if the keys do. -/
theorem agree_iff_keys {b : Books} (h : Sane parse b.offload) : b.Agree parse ↔ b.Keys := by
  constructor
  · intro hb
    exact ⟨fun k => iff_of_eq (congrArg (k ∈ ·) hb.redirects),
      fun k => iff_of_eq (congrArg (k ∈ ·) hb.statistics),
      fun k => iff_of_eq (congrArg (k ∈ ·) hb.created)⟩
  · intro hb
    have hget : ∀ i ∈ b.offload.flows, ∃ s, b.offload.getStat parse (b.offload.heap i) = .ok s := by
      intro i hi
      apply getStat_ok h hi
      intro key hkey
      exact (hb.statistics key).mpr ⟨i, hi, hkey⟩
    refine ⟨Set.ext hb.redirects, Set.ext hb.statistics, Set.ext hb.created, hget,
      dumpFlows_ok h _ (fun _ => id) hget, fun hnone => ?_⟩
    have hrec (key : List UInt8) : key ∉ b.offload.recorded := by
      rw [hb.created, hnone]
      exact Set.notMem_empty key
    refine ⟨fun key => ?_, fun key => ?_, List.eq_nil_iff_forall_not_mem.mpr (fun i hi => ?_)⟩
    · by_contra hne
      exact hrec key ((hb.redirects key).mp hne)
    · by_contra hne
      exact hrec key ((hb.statistics key).mp hne)
    · obtain ⟨key, hkey⟩ := h.writes i hi
      exact hrec key ⟨i, hi, hkey⟩

theorem throughout_iff_meeting {b : Books} (h : Sane parse b.offload) (hb : b.Keys)
    (rs : List OffloadRequest) : Throughout parse (Agree parse) rs b ↔ Meeting parse rs b := by
  induction rs generalizing b with
  | nil => exact iff_true_intro ((agree_iff_keys h).mpr hb)
  | cons r rs ih =>
    have hfirst : b.Agree parse := (agree_iff_keys h).mpr hb
    have hnext := h.after r
    constructor
    · rintro ⟨-, hrest⟩
      -- the state after the request is one of those in which the books agree
      have hafter : (b.after parse r).Agree parse := by
        cases rs with
        | nil => exact hrest
        | cons r' rs => exact hrest.1
      have hkeys := (agree_iff_keys hnext).mp hafter
      exact ⟨(keys_after_iff hb r).mp hkeys, (ih hnext hkeys).mp hrest⟩
    · rintro ⟨hmeets, hrest⟩
      exact ⟨hfirst, (ih hnext ((keys_after_iff hb r).mpr hmeets)).mpr hrest⟩

/-- The books agree in every state that the requests reach if and only if each request is one that
the offload can record. -/
theorem agree_throughout_iff (parse : String → Option IPv4) (heap : ℕ → Flow)
    (rs : List OffloadRequest) :
    Throughout parse (Agree parse) rs (start heap) ↔ Meeting parse rs (start heap) := by
  apply throughout_iff_meeting
  · exact sane_fresh heap
  · have hnone (key : List UInt8) : key ∉ (fresh heap).recorded := by
      rintro ⟨i, hi, -⟩
      cases hi
    constructor
    · intro key
      exact iff_of_false (fun h => h rfl) (hnone key)
    · intro key
      exact iff_of_false (fun h => h rfl) (hnone key)
    · intro key
      exact iff_of_false (hnone key) (Set.notMem_empty key)

/-- A flow is created and removed by an equal but distinct object, as the session layer does. -/
theorem equal_object_stays : ¬∀ parse heap rs,
    Throughout parse (Agree parse) rs (start heap) := by
  intro h
  have hdump := (h (fun text => if text = "167772161" then some ⟨10, 0, 0, 1⟩ else
      if text = "167772162" then some ⟨10, 0, 0, 2⟩ else none)
    (fun _ => ⟨⟨167772161, 1234, 167772162, 5678, 17⟩, defaultMetrics⟩)
    [⟨0, some 1, .create, none⟩, ⟨2, none, .remove, none⟩]).2.2.dumpStat
  cases hdump

end Books
end L7mp
