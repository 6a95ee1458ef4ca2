import L7mp.GuardedRun
import L7mp.OffloadCounters
import Mathlib.Data.List.Dedup

/-! The counters of the pipes are right in every run in which each `unpipe` handler counts off a pipe
that was counted as the handler takes it to be. -/
namespace L7mp
open Aborting

namespace Piping

variable {parse : String → Option IPv4}

/-! ### One request -/

theorem prepare_writable {o : UDPOffload} {r : OffloadRequest}
    (hin : Writable parse (o.heap r.inFlow).toTuple)
    (hredir : ∀ f ∈ r.redirFlow, UDPOffload.showsFlow parse (o.heap f) = .ok ()) :
    o.prepare parse r = .ok (o.heap r.inFlow).bytes := by
  obtain ⟨hshow, henc⟩ := hin
  have hshow : UDPOffload.showsFlow parse (o.heap r.inFlow) = .ok () :=
    (Books.shows_congr rfl).trans hshow
  have hbuf := Tuple.toBuffer_ok.mpr ⟨henc, rfl⟩
  unfold UDPOffload.prepare
  rw [hshow]
  cases hr : r.redirFlow with
  | none => exact hbuf
  | some f =>
    have hf := hredir f hr
    simp only [hf]
    exact hbuf

/-- A flow that is not writable is refused before anything is written. -/
theorem prepare_refuses {o : UDPOffload} {r : OffloadRequest}
    (h : ¬(Writable parse (o.heap r.inFlow).toTuple ∧
      ∀ f ∈ r.redirFlow, UDPOffload.showsFlow parse (o.heap f) = .ok ())) :
    ∃ e, o.prepare parse r = .error e := by
  cases hprep : o.prepare parse r with
  | error e => exact ⟨e, rfl⟩
  | ok k =>
    obtain ⟨hshow, hbuf⟩ := Books.prepare_ok hprep
    refine absurd ⟨⟨(Books.shows_congr rfl).trans hshow, (Tuple.toBuffer_ok.mp hbuf).1⟩, ?_⟩ h
    intro f hf
    unfold UDPOffload.prepare at hprep
    rw [hshow, Option.mem_def.mp hf] at hprep
    cases hredir : UDPOffload.showsFlow parse (o.heap f) with
    | ok u => rfl
    | error e =>
      simp only [hredir] at hprep
      exact nomatch hprep

variable (parse) in
theorem setOffload_remove (o : UDPOffload) (i : ℕ) {t : Tuple} (ht : (o.heap i).toTuple = t) :
    (Writable parse t → (UDPOffload.setOffload parse ⟨i, none, .remove, none⟩ o).1 = .ok () ∧
      (UDPOffload.setOffload parse ⟨i, none, .remove, none⟩ o).2.redirectsMap =
        o.redirectsMap.delete t.bytes) ∧
    (¬Writable parse t →
      (∃ e, (UDPOffload.setOffload parse ⟨i, none, .remove, none⟩ o).1 = .error e) ∧
      (UDPOffload.setOffload parse ⟨i, none, .remove, none⟩ o).2 = o) := by
  subst ht
  constructor
  · intro hw
    have hprep := prepare_writable (r := ⟨i, none, .remove, none⟩) hw nofun
    rw [Books.setOffload_of_prepared hprep]
    exact ⟨rfl, rfl⟩
  · intro hw
    obtain ⟨e, he⟩ := prepare_refuses (o := o) (r := ⟨i, none, .remove, none⟩) (fun h => hw h.1)
    rw [Books.setOffload_of_error he]
    exact ⟨⟨e, rfl⟩, rfl⟩

variable (parse) in
theorem setOffload_create (o : UDPOffload) (i j : ℕ) {t u : Tuple}
    (ht : (o.heap i).toTuple = t) (hu : (o.heap j).toTuple = u) :
    (Writable parse t → Writable parse u →
      (UDPOffload.setOffload parse ⟨i, some j, .create, none⟩ o).1 = .ok () ∧
      ∀ k, (UDPOffload.setOffload parse ⟨i, some j, .create, none⟩ o).2.redirectsMap k ≠ none ↔
        k = t.bytes ∨ o.redirectsMap k ≠ none) ∧
    (¬(Writable parse t ∧ Writable parse u) →
      (∃ e, (UDPOffload.setOffload parse ⟨i, some j, .create, none⟩ o).1 = .error e) ∧
      (UDPOffload.setOffload parse ⟨i, some j, .create, none⟩ o).2.redirectsMap =
        o.redirectsMap) := by
  subst ht hu
  have hshow : ∀ f ∈ (some j : Option ℕ), UDPOffload.showsFlow parse (o.heap f) = .ok () ↔
      UDPOffload.showsFlow parse ⟨(o.heap j).toTuple, defaultMetrics⟩ = .ok () := by
    intro f hf
    cases hf
    have heq : UDPOffload.showsFlow parse (o.heap j) =
        UDPOffload.showsFlow parse ⟨(o.heap j).toTuple, defaultMetrics⟩ := Books.shows_congr rfl
    rw [heq]
  constructor
  · intro ht hu
    have hprep := prepare_writable (r := ⟨i, some j, .create, none⟩) ht
      (fun f hf => (hshow f hf).mpr hu.1)
    rw [Books.setOffload_of_prepared hprep]
    obtain ⟨hok, hredirects, -⟩ := Books.create_writes (o := o)
      (r := ⟨i, some j, .create, none⟩) (o.heap i).bytes ⟨j, rfl, hu.2⟩
    exact ⟨hok, hredirects⟩
  · intro hnot
    by_cases hprepared : Writable parse (o.heap i).toTuple ∧
        ∀ f ∈ (some j : Option ℕ), UDPOffload.showsFlow parse (o.heap f) = .ok ()
    · obtain ⟨ht, hf⟩ := hprepared
      have hprep := prepare_writable (r := ⟨i, some j, .create, none⟩) ht hf
      rw [Books.setOffload_of_prepared hprep]
      have henc : ¬∃ f ∈ (some j : Option ℕ), (o.heap f).encodes = true := by
        rintro ⟨f, hjf, henc⟩
        cases hjf
        exact hnot ⟨ht, (hshow j rfl).mp (hf j rfl), henc⟩
      obtain ⟨herr, hstate⟩ := Books.create_stops (o := o)
        (r := ⟨i, some j, .create, none⟩) (o.heap i).bytes henc
      refine ⟨herr, ?_⟩
      change (UDPOffload.create (o.heap i).bytes ⟨i, some j, .create, none⟩ o).2.redirectsMap = _
      rw [hstate]
    · obtain ⟨e, he⟩ := prepare_refuses (o := o) (r := ⟨i, some j, .create, none⟩) hprepared
      rw [Books.setOffload_of_error he]
      exact ⟨⟨e, rfl⟩, rfl⟩

variable (parse) in
/-- Whether `pipe` offloads, and what it leaves in the map. -/
theorem pipe_offloads (fromStage toStage : OffloadStage) (n : ℕ) (o : UDPOffload) :
    (∃ t u, fromStage.getOffloadFlow parse .IN = .ok (some t) ∧
      toStage.getOffloadFlow parse .OUT = .ok (some u) ∧ Writable parse t ∧ Writable parse u ∧
      (fromStage.pipe parse toStage n o).1 = .ok 1 ∧
      ∀ k, (fromStage.pipe parse toStage n o).2.redirectsMap k ≠ none ↔
        k = t.bytes ∨ o.redirectsMap k ≠ none) ∨
    ((∃ e, (fromStage.pipe parse toStage n o).1 = .error e) ∨
      (fromStage.pipe parse toStage n o).1 = .ok 0) ∧
      (fromStage.pipe parse toStage n o).2.redirectsMap = o.redirectsMap ∧
      ¬∃ t u, fromStage.getOffloadFlow parse .IN = .ok (some t) ∧
        toStage.getOffloadFlow parse .OUT = .ok (some u) ∧ Writable parse t ∧
        Writable parse u := by
  unfold OffloadStage.pipe
  rcases hfrom : fromStage.getOffloadFlow parse .IN with e | _ | t
  · exact .inr ⟨.inl ⟨e, rfl⟩, rfl, fun ⟨_, _, h, _⟩ => nomatch h⟩
  · rcases hto : toStage.getOffloadFlow parse .OUT with e | _ | u
    · exact .inr ⟨.inl ⟨e, rfl⟩, rfl, fun ⟨_, _, h, _⟩ => nomatch h⟩
    · exact .inr ⟨.inr rfl, rfl, fun ⟨_, _, h, _⟩ => nomatch h⟩
    · exact .inr ⟨.inr rfl, rfl, fun ⟨_, _, h, _⟩ => nomatch h⟩
  · rcases hto : toStage.getOffloadFlow parse .OUT with e | _ | u
    · exact .inr ⟨.inl ⟨e, rfl⟩, rfl, fun ⟨_, _, _, h, _⟩ => nomatch h⟩
    · exact .inr ⟨.inr rfl, rfl, fun ⟨_, _, _, h, _⟩ => nomatch h⟩
    · dsimp only
      generalize hheap : Function.update (Function.update o.heap n ⟨t, defaultMetrics⟩) (n+1)
        ⟨u, defaultMetrics⟩ = heap
      have hin : (heap n).toTuple = t := by
        rw [← hheap, Function.update_of_ne (by omega), Function.update_self]
      have hout : (heap (n+1)).toTuple = u := by
        rw [← hheap, Function.update_self]
      obtain ⟨hyes, hno⟩ := setOffload_create parse { o with heap := heap } n (n+1)
        hin hout
      by_cases hw : Writable parse t ∧ Writable parse u
      · obtain ⟨hok, hredirects⟩ := hyes hw.1 hw.2
        rcases hset : UDPOffload.setOffload parse ⟨n, some (n+1), .create, none⟩
          { o with heap := heap } with ⟨r, o'⟩
        rw [hset] at hok hredirects
        dsimp only at hok hredirects
        subst hok
        exact .inl ⟨t, u, rfl, rfl, hw.1, hw.2, rfl, hredirects⟩
      · obtain ⟨⟨e, herr⟩, hredirects⟩ := hno hw
        rcases hset : UDPOffload.setOffload parse ⟨n, some (n+1), .create, none⟩
          { o with heap := heap } with ⟨r, o'⟩
        rw [hset] at herr hredirects
        dsimp only at herr hredirects
        subst herr
        refine .inr ⟨.inr rfl, hredirects, ?_⟩
        rintro ⟨t', u', ht, hu, hwt, hwu⟩
        cases ht
        cases hu
        exact hw ⟨hwt, hwu⟩

/-! ### The books -/

/-- Every pipe that is not counted off is counted, the inflows of the session in the map are those
of its pipes, and no two of them are the same. -/
structure Sound (parse : String → Option IPv4) (p : Piping) : Prop where
  total : p.total = p.counted.length
  offloaded : p.offloaded = (p.counted.filterMap (p.key parse)).length
  nodup : (p.counted.filterMap (p.key parse)).Nodup
  held : ∀ k, k ∈ p.counted.filterMap (p.key parse) ↔
    (∃ x < p.fresh, p.key parse x = some k) ∧ p.offload.redirectsMap k ≠ none
  known : ∀ x ∈ p.counted, x < p.fresh
  streams : ∀ i, ∀ x ∈ p.stream i, x < p.fresh
  flags : ∀ x y b, (x, y, b) ∈ p.pipes → x < p.fresh ∧ b = (p.key parse x).isSome

variable {p q : Piping}

theorem Sound.counts (h : p.Sound parse) : p.Counts parse where
  nonneg := by
    rw [h.offloaded]
    exact Int.natCast_nonneg _
  le := by
    rw [h.offloaded, h.total]
    exact_mod_cast List.length_filterMap_le _ _
  present := by
    have hperm : (p.counted.filterMap (p.key parse)).Perm (p.present parse) := by
      apply (List.perm_ext_iff_of_nodup h.nodup ((List.nodup_dedup _).filter _)).mpr
      intro k
      rw [h.held k, List.mem_filter, List.mem_dedup, List.mem_filterMap]
      simp only [List.mem_range, decide_eq_true_eq]
    rw [h.offloaded, hperm.length_eq]

theorem key_congr {x : ℕ} (h : p.sockets x = q.sockets x) : p.key parse x = q.key parse x := by
  unfold key
  rw [h]

/-- What the handler finds to remove is the inflow of the stream. -/
theorem unpipedFlow_key {x : ℕ} (hopen : p.key parse x ≠ none → p.closed x = false) :
    (∃ t, p.unpipedFlow parse x = .ok (some t) ∧ Writable parse t ∧
      p.key parse x = some t.bytes) ∨
    p.key parse x = none ∧ ∀ t, p.unpipedFlow parse x = .ok (some t) → ¬Writable parse t := by
  unfold unpipedFlow
  unfold key at hopen ⊢
  cases hsock : p.sockets x with
  | none => exact .inr ⟨rfl, fun t h => nomatch h⟩
  | some s =>
    rw [hsock] at hopen
    dsimp only at hopen ⊢
    rcases hflow : OffloadStage.flowOf parse .IN s with e | _ | t
    · refine .inr ⟨rfl, fun t h => ?_⟩
      split_ifs at h
      cases h
    · refine .inr ⟨rfl, fun t h => ?_⟩
      split_ifs at h <;> cases h
    · rw [hflow] at hopen
      dsimp only at hopen ⊢
      by_cases hw : Writable parse t
      · rw [if_pos hw] at hopen ⊢
        rw [if_neg (by rw [hopen nofun]; exact Bool.false_ne_true)]
        exact .inl ⟨t, rfl, hw, rfl⟩
      · rw [if_neg hw]
        refine .inr ⟨rfl, fun u h => ?_⟩
        split_ifs at h
        · cases h
        · cases h
          exact hw

/-- The handler changes the counters and the offload, and nothing else. -/
theorem onUnpipe_spec {x : ℕ} (hopen : p.key parse x ≠ none → p.closed x = false) :
    ∃ o n, (onUnpipe parse x p).2 = { p with
        total := p.total - 1
        counted := p.counted.erase x
        offloaded := p.offloaded - if (p.key parse x).isSome then 1 else 0
        offload := o
        flows := n } ∧
      o.redirectsMap = match p.key parse x with
        | some k => p.offload.redirectsMap.delete k
        | none => p.offload.redirectsMap := by
  unfold onUnpipe
  dsimp only
  have hflow : ({ p with total := p.total - 1, counted := p.counted.erase x } : Piping).unpipedFlow
      parse x = p.unpipedFlow parse x := rfl
  rw [hflow]
  rcases unpipedFlow_key hopen with ⟨t, ht, hw, hkey⟩ | ⟨hkey, hno⟩
  · rw [ht, hkey]
    dsimp only
    generalize hheap : Function.update p.offload.heap p.flows ⟨t, defaultMetrics⟩ = heap
    have hin : (heap p.flows).toTuple = t := by
      rw [← hheap, Function.update_self]
    obtain ⟨hok, hredirects⟩ := (setOffload_remove parse
      { p.offload with heap := heap } p.flows hin).1 hw
    rcases hset : UDPOffload.setOffload parse ⟨p.flows, none, .remove, none⟩
      { p.offload with heap := heap } with ⟨r, o'⟩
    rw [hset] at hok hredirects
    dsimp only at hok hredirects
    subst hok
    exact ⟨o', _, rfl, hredirects⟩
  · rw [hkey]
    dsimp only [Option.isSome_none]
    rw [if_neg Bool.false_ne_true, Int.sub_zero]
    rcases hflow : p.unpipedFlow parse x with e | _ | t
    · exact ⟨_, _, rfl, rfl⟩
    · exact ⟨_, _, rfl, rfl⟩
    · dsimp only
      generalize hheap : Function.update p.offload.heap p.flows ⟨t, defaultMetrics⟩ = heap
      have hin : (heap p.flows).toTuple = t := by
        rw [← hheap, Function.update_self]
      obtain ⟨⟨e, herr⟩, hstate⟩ := (setOffload_remove parse
        { p.offload with heap := heap } p.flows hin).2 (hno t hflow)
      rcases hset : UDPOffload.setOffload parse ⟨p.flows, none, .remove, none⟩
        { p.offload with heap := heap } with ⟨r, o'⟩
      rw [hset] at herr hstate
      dsimp only at herr hstate
      subst herr hstate
      exact ⟨_, _, rfl, rfl⟩

/-- The handler counts off a pipe of the stream that it is called with. -/
theorem Sound.onUnpipe (h : p.Sound parse) {x : ℕ} (hx : p.Holds parse x) :
    (Piping.onUnpipe parse x p).2.Sound parse := by
  obtain ⟨hmem, hopen⟩ := hx
  obtain ⟨o, n, heq, hredirects⟩ := onUnpipe_spec hopen
  rw [heq]
  have hperm : p.counted.Perm (x :: p.counted.erase x) := List.perm_cons_erase hmem
  have hkeys := hperm.filterMap (p.key parse)
  have htotal : p.total - 1 = ((p.counted.erase x).length : ℤ) := by
    rw [h.total, hperm.length_eq, List.length_cons]
    omega
  cases hkey : p.key parse x with
  | none =>
    rw [hkey] at hredirects
    rw [List.filterMap_cons_none hkey] at hkeys
    refine ⟨htotal, ?_, hkeys.nodup_iff.mp h.nodup, ?_, ?_, h.streams, h.flags⟩
    · dsimp only [Option.isSome_none]
      rw [if_neg Bool.false_ne_true, Int.sub_zero, h.offloaded, hkeys.length_eq]
      rfl
    · intro k
      dsimp only
      rw [hredirects]
      exact hkeys.mem_iff.symm.trans (h.held k)
    · exact fun y hy => h.known y (List.mem_of_mem_erase hy)
  | some k =>
    rw [hkey] at hredirects
    rw [List.filterMap_cons_some hkey] at hkeys
    obtain ⟨hnot, hnodup⟩ := List.nodup_cons.mp (hkeys.nodup_iff.mp h.nodup)
    refine ⟨htotal, ?_, hnodup, ?_, ?_, h.streams, h.flags⟩
    · dsimp only [Option.isSome_some]
      rw [if_pos rfl, h.offloaded, hkeys.length_eq, List.length_cons]
      push_cast
      exact add_sub_cancel_right _ _
    · intro j
      dsimp only at hredirects ⊢
      rw [hredirects]
      have hheld := hkeys.mem_iff.symm.trans (h.held j)
      by_cases hj : j = k
      · subst hj
        refine iff_of_false hnot ?_
        rintro ⟨-, hne⟩
        exact hne (Function.update_self ..)
      · rw [List.mem_cons, or_iff_right hj] at hheld
        have hsame : p.offload.redirectsMap.delete k j = p.offload.redirectsMap j :=
          Function.update_of_ne hj ..
        rw [hsame]
        exact hheld
    · exact fun y hy => h.known y (List.mem_of_mem_erase hy)

theorem Sound.emitUnpipe (h : p.Sound parse) {x y : ℕ}
    (hx : p.handled y = true → p.Holds parse x) :
    (Piping.emitUnpipe parse y x p).Sound parse := by
  unfold Piping.emitUnpipe
  split_ifs with hy
  · exact h.onUnpipe (hx hy)
  · exact h

/-- The inflow that `pipe` finds is that of the stream. -/
theorem key_of_inflow {side : Side} {x : ℕ} {t : Tuple}
    (h : (side.stage (p.sockets x)).getOffloadFlow parse .IN = .ok (some t)) :
    p.key parse x = if Writable parse t then some t.bytes else none := by
  have hsock : ∃ s, p.sockets x = some s ∧ OffloadStage.flowOf parse .IN s = .ok (some t) := by
    unfold OffloadStage.getOffloadFlow OffloadStage.socket Side.stage at h
    dsimp only at h
    cases hs : p.sockets x with
    | none =>
      rw [hs] at h
      split_ifs at h <;> cases h
    | some s =>
      rw [hs] at h
      refine ⟨s, rfl, ?_⟩
      split_ifs at h
      · exact h
      · cases h
      · exact h
      · cases h
  obtain ⟨s, hs, hflow⟩ := hsock
  unfold key
  rw [hs]
  dsimp only
  rw [hflow]

/-- Counted pipes grow by one. -/
theorem Sound.add (h : p.Sound parse) {x y n : ℕ} {b : Bool} {o : UDPOffload} (hx : x < p.fresh)
    (hb : b = (p.key parse x).isSome) (hfree : ∀ k ∈ p.key parse x, p.offload.redirectsMap k = none)
    (hredirects : ∀ k, o.redirectsMap k ≠ none ↔
      p.key parse x = some k ∨ p.offload.redirectsMap k ≠ none) :
    ({ p with
      pipes := p.pipes ++ [(x, y, b)]
      counted := p.counted ++ [x]
      total := p.total + 1
      offloaded := p.offloaded + if b then 1 else 0
      offload := o
      flows := n } : Piping).Sound parse := by
  have hkeys : (p.counted ++ [x]).filterMap (p.key parse) =
      p.counted.filterMap (p.key parse) ++ (p.key parse x).toList := by
    rw [List.filterMap_append]
    cases hkey : p.key parse x with
    | none => rw [List.filterMap_cons_none hkey]; rfl
    | some k => rw [List.filterMap_cons_some hkey]; rfl
  have hlength : ((p.key parse x).toList.length : ℤ) = if b then 1 else 0 := by
    rw [hb]
    cases p.key parse x <;> rfl
  have hnew : ∀ k ∈ (p.key parse x).toList, k ∉ p.counted.filterMap (p.key parse) := by
    intro k hk hmem
    exact ((h.held k).mp hmem).2 (hfree k (Option.mem_toList.mp hk))
  refine ⟨?_, ?_, ?_, ?_, ?_, h.streams, ?_⟩
  · dsimp only
    rw [h.total, List.length_append]
    rfl
  · change p.offloaded + _ = (((p.counted ++ [x]).filterMap (p.key parse)).length : ℤ)
    rw [hkeys, List.length_append, h.offloaded, ← hlength]
    push_cast
    rfl
  · change ((p.counted ++ [x]).filterMap (p.key parse)).Nodup
    rw [hkeys]
    refine List.nodup_append.mpr ⟨h.nodup, ?_, ?_⟩
    · cases p.key parse x with
      | none => exact List.nodup_nil
      | some k => exact List.nodup_singleton k
    · rintro a ha b hb rfl
      exact hnew a hb ha
  · intro k
    change k ∈ (p.counted ++ [x]).filterMap (p.key parse) ↔
      (∃ x < p.fresh, p.key parse x = some k) ∧ o.redirectsMap k ≠ none
    rw [hkeys, List.mem_append, h.held k, hredirects k, Option.mem_toList]
    constructor
    · rintro (⟨hin, hne⟩ | hkey)
      · exact ⟨hin, .inr hne⟩
      · exact ⟨⟨x, hx, hkey⟩, .inl hkey⟩
    · rintro ⟨hin, hkey | hne⟩
      · exact .inr hkey
      · exact .inl ⟨hin, hne⟩
  · intro z hz
    rcases List.mem_append.mp hz with hz | hz
    · exact h.known z hz
    · rw [List.mem_singleton.mp hz]
      exact hx
  · intro z w c hz
    rcases List.mem_append.mp hz with hz | hz
    · exact h.flags z w c hz
    · cases List.mem_singleton.mp hz
      exact ⟨hx, hb⟩

/-- One pipe that is as it should be. -/
theorem Sound.pipe (h : p.Sound parse) {sides : ℕ → Side} {i j : ℕ}
    (hfits : p.Pipes parse sides i j) : (Piping.pipe parse sides i j p).2.Sound parse := by
  unfold Piping.pipe
  cases hi : p.stream i with
  | none => exact h
  | some x => cases hj : p.stream j with
    | none => exact h
    | some y =>
      have hx : x < p.fresh := h.streams i x hi
      have hpipes := hfits x hi y hj
      dsimp only
      rcases hpipe : ((sides i).stage (p.sockets x)).pipe parse ((sides j).stage (p.sockets y))
        p.flows p.offload with ⟨r, o⟩
      have hcases := pipe_offloads parse ((sides i).stage (p.sockets x))
        ((sides j).stage (p.sockets y)) p.flows p.offload
      rw [hpipe] at hcases
      dsimp only at hcases
      rcases hcases with ⟨t, u, hin, -, hwt, -, rfl, hredirects⟩ | ⟨hr, hredirects, hnot⟩
      · have hkey : p.key parse x = some t.bytes := (key_of_inflow hin).trans (if_pos hwt)
        apply h.add (b := true) hx
        · rw [hkey]
          rfl
        · exact fun k hk => (hpipes k hk).1
        · intro k
          rw [hkey, hredirects k, Option.some.injEq, eq_comm]
      · have hkey : p.key parse x = none := by
          cases hkey : p.key parse x with
          | none => rfl
          | some k =>
            obtain ⟨-, ⟨t, hin⟩, u, hout, hwu⟩ := hpipes k hkey
            refine absurd ⟨t, u, hin, hout, ?_, hwu⟩ hnot
            by_contra hw
            rw [key_of_inflow hin, if_neg hw] at hkey
            cases hkey
        rcases hr with ⟨e, rfl⟩ | rfl
        · refine ⟨h.total, h.offloaded, h.nodup, ?_, h.known, h.streams, ?_⟩
          · intro k
            dsimp only
            rw [hredirects]
            exact h.held k
          · intro z w c hz
            rcases List.mem_append.mp hz with hz | hz
            · exact h.flags z w c hz
            · cases List.mem_singleton.mp hz
              refine ⟨hx, ?_⟩
              change false = (p.key parse x).isSome
              rw [hkey]
              rfl
        · apply h.add (b := false) hx
          · rw [hkey]
            rfl
          · rw [hkey]
            exact nofun
          · intro k
            rw [hkey, hredirects]
            exact ⟨.inr, fun h => h.resolve_left nofun⟩

theorem Sound.pipeAll {sides : ℕ → Side} : ∀ {l : List Pipe} {p : Piping}, p.Sound parse →
    PipesAll parse sides l p →
    (forEach (fun l : Pipe => Piping.pipe parse sides l.1 l.2) l p).2.Sound parse
  | [], _, h, _ => h
  | (i, j) :: rest, p, h, ⟨hfirst, hrest⟩ => by
    have hone := h.pipe hfirst
    unfold forEach seq
    rcases hpipe : Piping.pipe parse sides i j p with ⟨_ | _, q⟩
    · rw [hpipe] at hone
      exact hone
    · rw [hpipe] at hone hrest
      exact Sound.pipeAll hone (hrest rfl)

theorem Sound.destroyStage (h : p.Sound parse) {i : ℕ}
    (hx : p.onDisc i = true → ∀ x ∈ p.stream i, p.Holds parse x) :
    (Piping.destroyStage parse i p).Sound parse := by
  unfold Piping.destroyStage
  by_cases hdisc : p.onDisc i = true
  · rw [if_pos hdisc]
    cases hi : p.stream i with
    | none => exact h
    | some x =>
      have hone := h.onUnpipe (hx hdisc x hi)
      dsimp only
      rcases hun : Piping.onUnpipe parse x p with ⟨_ | _, q⟩
      · rw [hun] at hone
        exact hone
      · rw [hun] at hone
        exact ⟨hone.total, hone.offloaded, hone.nodup, hone.held, hone.known, hone.streams,
          hone.flags⟩
  · rw [if_neg hdisc]
    exact h

theorem Sound.destroy : ∀ {stages : List ℕ} {p : Piping}, p.Sound parse →
    HoldsAll parse stages p →
    (stages.foldl (fun p i => Piping.destroyStage parse i p) p).Sound parse
  | [], _, h, _ => h
  | _ :: _, _, h, ⟨hfirst, hrest⟩ => by
    rw [List.foldl_cons]
    exact Sound.destroy (h.destroyStage hfirst) hrest

/-- A stage gets a new stream. -/
theorem Sound.assign (h : p.Sound parse) (i : ℕ) {socket : Option UdpSocket}
    (hfits : p.Fits parse (.assign i socket)) : ({ p with
      sockets := Function.update p.sockets p.fresh socket
      stream := Function.update p.stream i (some p.fresh)
      fresh := p.fresh + 1 } : Piping).Sound parse := by
  have hold : ∀ x < p.fresh, ({ p with
      sockets := Function.update p.sockets p.fresh socket
      stream := Function.update p.stream i (some p.fresh)
      fresh := p.fresh + 1 } : Piping).key parse x = p.key parse x :=
    fun x hx => key_congr (Function.update_of_ne (Nat.ne_of_lt hx) ..)
  have hnew : ({ p with
      sockets := Function.update p.sockets p.fresh socket
      stream := Function.update p.stream i (some p.fresh)
      fresh := p.fresh + 1 } : Piping).key parse p.fresh =
        ({ p with sockets := fun _ => socket } : Piping).key parse p.fresh :=
    key_congr (Function.update_self ..)
  have hkeys : p.counted.filterMap (({ p with
      sockets := Function.update p.sockets p.fresh socket
      stream := Function.update p.stream i (some p.fresh)
      fresh := p.fresh + 1 } : Piping).key parse) = p.counted.filterMap (p.key parse) :=
    List.filterMap_congr (fun x hx => hold x (h.known x hx))
  refine ⟨h.total, ?_, ?_, ?_, ?_, ?_, ?_⟩
  · dsimp only
    rw [hkeys]
    exact h.offloaded
  · dsimp only
    rw [hkeys]
    exact h.nodup
  · intro k
    dsimp only
    rw [hkeys, h.held k]
    apply and_congr_left
    intro hne
    constructor
    · rintro ⟨x, hx, hkey⟩
      exact ⟨x, Nat.lt_succ_of_lt hx, (hold x hx).trans hkey⟩
    · rintro ⟨x, hx, hkey⟩
      rcases Nat.lt_succ_iff_lt_or_eq.mp hx with hx | rfl
      · exact ⟨x, hx, (hold x hx).symm.trans hkey⟩
      · exact hfits k (hnew.symm.trans hkey) hne
  · exact fun x hx => Nat.lt_succ_of_lt (h.known x hx)
  · intro j x hx
    dsimp only at hx ⊢
    by_cases hj : j = i
    · subst hj
      rw [Function.update_self] at hx
      cases hx
      exact Nat.lt_succ_self _
    · rw [Function.update_of_ne hj] at hx
      exact Nat.lt_succ_of_lt (h.streams j x hx)
  · intro x y b hmem
    obtain ⟨hx, hb⟩ := h.flags x y b hmem
    exact ⟨Nat.lt_succ_of_lt hx, hb.trans (congrArg Option.isSome (hold x hx).symm)⟩

theorem close_keeps (x : ℕ) (closes : Bool) (p : Piping) :
    (p.close x closes).stream = p.stream ∧ (p.close x closes).handled = p.handled := by
  unfold close
  split_ifs
  · exact ⟨rfl, rfl⟩
  · exact ⟨rfl, rfl⟩

theorem Sound.close (h : p.Sound parse) (x : ℕ) (closes : Bool) :
    (p.close x closes).Sound parse := by
  unfold Piping.close
  split_ifs
  · exact ⟨h.total, h.offloaded, h.nodup, h.held, h.known, h.streams, h.flags⟩
  · exact h

theorem Holds.close {x y : ℕ} {closes : Bool} (h : p.Holds parse y)
    (hno : p.key parse y ≠ none → ¬(closes = true ∧ y = x)) :
    (p.close x closes).Holds parse y := by
  unfold Piping.close
  split_ifs with hcloses
  · refine ⟨h.1, fun hkey => ?_⟩
    have hne : y ≠ x := fun heq => hno hkey ⟨hcloses, heq⟩
    exact (Function.update_of_ne hne ..).trans (h.2 hkey)
  · exact h

/-- A step that fits keeps the books. -/
theorem Sound.step (h : p.Sound parse) {e : PipingEvent} (hfits : p.Fits parse e)
    (hq : p.step parse e = some q) : q.Sound parse := by
  have hsame : ∀ closed onDisc listening handled, ({ p with
      closed := closed, onDisc := onDisc, listening := listening, handled := handled } :
      Piping).Sound parse :=
    fun _ _ _ _ => ⟨h.total, h.offloaded, h.nodup, h.held, h.known, h.streams, h.flags⟩
  cases e with
  | assign i socket =>
    cases hq
    exact h.assign i hfits
  | setEventHandlers i =>
    simp only [Piping.step] at hq
    split at hq
    · cases hq
    · split_ifs at hq
      cases hq
      exact hsame ..
  | pipeline c sides =>
    cases hq
    exact h.pipeAll hfits
  | repipe c i sides =>
    cases hq
    exact h.pipeAll hfits
  | unpipe x y b =>
    simp only [Piping.step] at hq
    split_ifs at hq
    cases hq
    have hless : ({ p with pipes := p.pipes.erase (x, y, b) } : Piping).Sound parse :=
      ⟨h.total, h.offloaded, h.nodup, h.held, h.known, h.streams,
        fun x y b hmem => h.flags x y b (List.mem_of_mem_erase hmem)⟩
    exact hless.emitUnpipe hfits
  | lose i x closes ready =>
    have hin : (i, x) ∈ p.listening := by
      by_contra hnot
      exact nomatch (if_neg hnot).symm.trans hq
    have hq := (if_pos hin).symm.trans hq
    obtain ⟨hstream, hhandled⟩ := close_keeps x closes p
    cases hi : p.stream i with
    | none =>
      simp only [hstream, hi] at hq
      cases hq
    | some y =>
      have hemit : (Piping.emitUnpipe parse y y (p.close x closes)).Sound parse := by
        apply (h.close x closes).emitUnpipe
        intro hy
        rw [hhandled] at hy
        obtain ⟨hholds, hno⟩ := hfits y hi hy
        exact hholds.close hno
      simp only [hstream, hi] at hq
      cases hq
      split_ifs
      · exact ⟨hemit.total, hemit.offloaded, hemit.nodup, hemit.held, hemit.known,
          hemit.streams, hemit.flags⟩
      · exact hemit
  | silence x =>
    cases hq
    exact h.close x true
  | destroy stages =>
    cases hq
    exact h.destroy hfits
  | others o flows =>
    cases hq
    refine ⟨h.total, h.offloaded, h.nodup, ?_, h.known, h.streams, h.flags⟩
    intro k
    refine (h.held k).trans (and_congr_right ?_)
    rintro ⟨x, hx, hkey⟩
    rw [← hfits x hx k hkey]

theorem sound_start (parse : String → Option IPv4) (o : UDPOffload) :
    (start o).Sound parse where
  total := rfl
  offloaded := rfl
  nodup := List.nodup_nil
  held _ := iff_of_false List.not_mem_nil (fun ⟨⟨x, hx, _⟩, _⟩ => absurd hx (Nat.not_lt_zero x))
  known _ hx := absurd hx List.not_mem_nil
  streams _ _ hx := nomatch hx
  flags _ _ _ h := absurd h List.not_mem_nil

/-- In every run that fits, the counters are right, and removing a pipe takes from `offloaded` what
making it had added. -/
theorem counts_of_fits (parse : String → Option IPv4) (o : UDPOffload) {p : Piping}
    (h : GuardedRun.Run (Piping.step parse) (Fits parse) (start o) p) :
    p.Counts parse ∧ ∀ x y b q, p.handled y = true → p.Fits parse (.unpipe x y b) →
      p.step parse (.unpipe x y b) = some q → q.offloaded = p.offloaded - if b then 1 else 0 := by
  have hsound : p.Sound parse := h.invariant (fun _ _ _ hp hok hq => hp.step hok hq)
    (sound_start parse o)
  refine ⟨hsound.counts, ?_⟩
  intro x y b q hy hfits hq
  have hmem : (x, y, b) ∈ p.pipes := by
    by_contra hnot
    exact nomatch (if_neg hnot).symm.trans hq
  have hq := (if_pos hmem).symm.trans hq
  cases hq
  have hemit : Piping.emitUnpipe parse y x { p with pipes := p.pipes.erase (x, y, b) } =
      (Piping.onUnpipe parse x { p with pipes := p.pipes.erase (x, y, b) }).2 := if_pos hy
  have hopen : ({ p with pipes := p.pipes.erase (x, y, b) } : Piping).key parse x ≠ none →
      ({ p with pipes := p.pipes.erase (x, y, b) } : Piping).closed x = false := (hfits hy).2
  obtain ⟨o', n, heq, -⟩ := onUnpipe_spec hopen
  rw [hemit, heq, (hsound.flags x y b hmem).2]
  rfl

/-- A UDP listener as the source stage, and a UDP cluster or one of another protocol. -/
def udpSides (protocol : ClusterProtocol) (i : ℕ) : Side :=
  if i = 0 then ⟨true, some (.udp .server false), none⟩ else ⟨false, none, some protocol⟩

def emptyOffload : UDPOffload := .fresh (fun _ => ⟨⟨0, 0, 0, 0, 0⟩, defaultMetrics⟩)

/-- The streams of a session to a UDP cluster. -/
def udpStreams : Piping :=
  { start emptyOffload with
    sockets := Function.update (Function.update (fun _ => none) 0 listenerStage.stage.stream) 1
      clusterStage.stage.stream
    stream := Function.update (Function.update (fun _ => none) 0 (some 0)) 1 (some 1)
    fresh := 2 }

theorem udpStreams_run : GuardedRun.Run (Piping.step knownAddresses) (Fits knownAddresses)
    (start emptyOffload) udpStreams := by
  refine .head ⟨.assign 0 listenerStage.stage.stream, ?_, rfl⟩
    (.head ⟨.assign 1 clusterStage.stage.stream, ?_, rfl⟩ .refl)
  · exact fun k hk hne => absurd rfl hne
  · exact fun k hk hne => absurd rfl hne

theorem udpStreams_key : udpStreams.key knownAddresses 1 =
    some (ValidAddr.tuple clusterStage.remote clusterStage.here).bytes := by
  decide +kernel

/-- The session with its pipes, which are both offloaded. -/
def udpPiped : Piping :=
  (forEach (fun l : Pipe => Piping.pipe knownAddresses (udpSides (.udp true)) l.1 l.2)
    (Chain.finish ⟨0, [], [], 1⟩) udpStreams).2

theorem udpPiped_run : GuardedRun.Run (Piping.step knownAddresses) (Fits knownAddresses)
    (start emptyOffload) udpPiped := by
  refine udpStreams_run.tail ⟨.pipeline ⟨0, [], [], 1⟩ (udpSides (.udp true)), ?_, rfl⟩
  refine ⟨?_, fun _ => ⟨?_, fun _ => trivial⟩⟩
  · intro x hx y hy k hk
    cases hx
    cases hy
    exact ⟨rfl, ⟨_, rfl⟩, _, rfl, by decide +kernel⟩
  · intro x hx y hy k hk
    cases hx
    cases hy
    have hk := ((key_congr rfl).trans udpStreams_key).symm.trans (Option.mem_def.mp hk)
    cases hk
    exact ⟨by decide +kernel, ⟨_, rfl⟩, _, rfl, by decide +kernel⟩

/-- Node removes the pipe from the listener to the cluster. -/
theorem counts_of_fits_piped : ∃ p q, GuardedRun.Run (Piping.step knownAddresses)
    (Fits knownAddresses) (start emptyOffload) p ∧ p.offloaded = 2 ∧ p.total = 2 ∧
      p.Counts knownAddresses ∧ p.step knownAddresses (.unpipe 0 1 true) = some q ∧
      q.offloaded = 1 ∧ q.Counts knownAddresses := by
  let p : Piping := { udpPiped with
    handled := Function.update (Function.update udpPiped.handled 0 true) 1 true
    listening := [(0, 0), (1, 1)]
    onDisc := Function.update (Function.update udpPiped.onDisc 0 true) 1 true }
  let q := emitUnpipe knownAddresses 1 0 { p with pipes := p.pipes.erase (0, 1, true) }
  -- the handlers are set when the pipes are there
  have hrun : GuardedRun.Run (Piping.step knownAddresses) (Fits knownAddresses)
      (start emptyOffload) p :=
    (udpPiped_run.tail ⟨.setEventHandlers 0, trivial, rfl⟩).tail ⟨.setEventHandlers 1, trivial, rfl⟩
  have hunpipe : p.step knownAddresses (.unpipe 0 1 true) = some q := rfl
  have hfits : p.Fits knownAddresses (.unpipe 0 1 true) :=
    fun _ => ⟨List.mem_cons_self, fun _ => rfl⟩
  obtain ⟨hcounts, hremoved⟩ := counts_of_fits knownAddresses emptyOffload hrun
  have hlast := counts_of_fits knownAddresses emptyOffload (hrun.tail ⟨_, hfits, hunpipe⟩)
  refine ⟨p, q, hrun, rfl, rfl, hcounts, hunpipe, ?_, hlast.1⟩
  exact hremoved 0 1 true q rfl hfits hunpipe

/-- A session from a UDP listener to a TCP cluster, ended from the API. -/
def mixed : List PipingEvent :=
  [.assign 0 listenerStage.stage.stream, .assign 1 none,
    .pipeline ⟨0, [], [], 1⟩ (udpSides .tcp), .setEventHandlers 0, .setEventHandlers 1,
    .destroy [0, 1]]

/-- The pipe of a datagram stream that was not offloaded is counted off as if it had been. -/
theorem counted_off_though_not_offloaded : ¬∀ (parse : String → Option IPv4) (o : UDPOffload)
    (p : Piping), GuardedRun.Run (Piping.step parse) GuardedRun.always (start o) p →
      p.Counts parse := by
  intro h
  obtain ⟨p, hp⟩ : ∃ p, GuardedRun.exec (Piping.step knownAddresses) GuardedRun.always
    (start emptyOffload) mixed = some p := ⟨_, rfl⟩
  have hcounts := h knownAddresses emptyOffload p (GuardedRun.exec_run _ _ _ hp)
  cases hp
  exact absurd hcounts.nonneg (by decide)

end Piping
end L7mp
