import Mathlib.Data.List.GetD
import L7mp.PipeChain
import L7mp.RingEdges

/-! The pipes that `pipeline_finish` makes are the ring through the stages, and `repipe` makes
the two edges of the ring at its stage, except for the last stage of the egress chain. -/
namespace L7mp
open RingEdges

/-- The loop of `pipeline_finish` pairs every stage with the next one. -/
theorem pipelineFinish_eq_zip (dest : ℕ) : ∀ (source : ℕ) (chain : List ℕ),
    pipelineFinish source dest chain = (source :: chain).zip (chain ++ [dest])
  | _, [] => rfl
  | source, to_ :: chain => by
    rw [pipelineFinish, pipelineFinish_eq_zip dest to_ chain, List.cons_append, List.zip_cons_cons]

/-- The searched element is found at the end of the part before it. -/
theorem findIdx?_split {i : ℕ} {a : List ℕ} (b : List ℕ) (hi : i ∉ a) :
    (a ++ i :: b).findIdx? (· = i) = some a.length := by
  induction a with
  | nil => simp [List.findIdx?_cons]
  | cons x a ih =>
    have hx : x ≠ i := fun h => hi (h ▸ List.mem_cons_self)
    have ha : i ∉ a := fun h => hi (List.mem_cons_of_mem x h)
    rw [List.cons_append, List.findIdx?_cons, if_neg (by simpa using hx), ih ha]
    rfl

theorem getD_before (i d : ℕ) (a b : List ℕ) :
    (if a.length = 0 then d else (a ++ i :: b).getD (a.length-1) d) = a.getLast?.getD d := by
  rcases List.eq_nil_or_concat a with rfl | ⟨a, x, rfl⟩
  · rfl
  · rw [List.concat_eq_append, List.length_append, List.length_singleton, if_neg (by omega),
      List.getLast?_concat]
    have hlt : a.length+1-1 < (a ++ [x]).length := by
      rw [List.length_append, List.length_singleton]
      omega
    rw [List.getD_append _ _ _ _ hlt, Nat.add_sub_cancel, List.getD_append_right _ _ _ _ le_rfl,
      Nat.sub_self]
    rfl

theorem getD_after (i d : ℕ) (a b : List ℕ) :
    (if a.length = (a ++ i :: b).length-1 then d else (a ++ i :: b).getD (a.length+1) d) =
      b.head?.getD d := by
  have hlen : (a ++ i :: b).length = a.length + (b.length+1) := by
    rw [List.length_append, List.length_cons]
  rw [hlen, List.getD_append_right _ _ _ _ (by omega)]
  have hsub : a.length+1-a.length = 1 := by omega
  rw [hsub]
  cases b with
  | nil => rw [if_pos (by rw [List.length_nil]; omega)]; rfl
  | cons x b => rw [if_neg (by rw [List.length_cons]; omega)]; rfl

namespace Chain

/-- The stages in the order in which the data passes them. -/
def cycle (c : Chain) : List ℕ := c.source :: (c.ingress ++ c.destination :: c.egress)

def ring (c : Chain) : List Pipe := edges c.cycle

/-- The two `pipeline_finish` calls make exactly the ring, for chains of any lengths. -/
theorem finish_eq_ring (c : Chain) : c.finish = c.ring := by
  have hsplit : c.cycle = (c.source :: c.ingress) ++ (c.destination :: c.egress) := rfl
  have hlen : (c.source :: c.ingress).length = (c.ingress ++ [c.destination]).length := by
    rw [List.length_append, List.length_cons, List.length_singleton]
  have hshift : c.ingress ++ c.destination :: c.egress ++ [c.source] =
      (c.ingress ++ [c.destination]) ++ (c.egress ++ [c.source]) := by
    simp only [List.append_assoc, List.cons_append, List.nil_append]
  unfold finish ring
  rw [pipelineFinish_eq_zip, pipelineFinish_eq_zip, ← List.zip_append hlen, ← hsplit, ← hshift,
    cycle, edges_cons]

/-- `repipe` returns, and makes exactly the two pipes of the ring at its stage. -/
def Restores (c : Chain) (i : ℕ) : Prop :=
  (c.repipe i).2 = true ∧ ∀ p, p ∈ (c.repipe i).1 ↔ p ∈ c.ring ∧ Touches i p

theorem repipe_source (c : Chain) : c.repipe c.source =
    ([(c.source, c.ingress.head?.getD c.destination),
      (c.egress.getLast?.getD c.destination, c.source)], true) := by
  rw [repipe, if_pos rfl]

theorem repipe_destination {c : Chain} (h : c.destination ≠ c.source) :
    c.repipe c.destination = ([(c.ingress.getLast?.getD c.source, c.destination),
      (c.destination, c.egress.head?.getD c.source)], true) := by
  rw [repipe, if_neg h, if_pos rfl]

theorem repipe_ingress {c : Chain} {i : ℕ} {a b : List ℕ} (hs : i ≠ c.source)
    (hd : i ≠ c.destination) (hc : c.ingress = a ++ i :: b) (ha : i ∉ a) : c.repipe i =
      ([(a.getLast?.getD c.source, i), (i, b.head?.getD c.destination)], true) := by
  rw [repipe, if_neg hs, if_neg hd, hc, findIdx?_split b ha]
  dsimp only
  rw [getD_before, getD_after]

/-- In the egress chain the stage after the last one is never the source. -/
theorem repipe_egress {c : Chain} {i : ℕ} {a b : List ℕ} (hs : i ≠ c.source)
    (hd : i ≠ c.destination) (hin : i ∉ c.ingress) (hc : c.egress = a ++ i :: b) (ha : i ∉ a) :
    c.repipe i = ((a.getLast?.getD c.destination, i) :: (b.head?.map (fun x => (i, x))).toList,
      b.head?.isSome) := by
  have hnone : c.ingress.findIdx? (· = i) = none := by
    rw [List.findIdx?_eq_none_iff]
    intro x hx
    have hne : x ≠ i := fun h => hin (h ▸ hx)
    simpa using hne
  have hafter : (a ++ i :: b)[a.length+1]? = b.head? := by
    have hsub : a.length+1-a.length = 1 := by omega
    rw [List.getElem?_append_right (by omega), hsub]
    cases b <;> rfl
  rw [repipe, if_neg hs, if_neg hd, hnone, hc, findIdx?_split b ha]
  dsimp only
  rw [getD_before, hafter]
  cases b <;> rfl

/-- The ring at a stage of the cycle, when the stages before and after it are known. -/
theorem ring_at {c : Chain} {i x y : ℕ} {a b : List ℕ} (hn : c.cycle.Nodup)
    (hc : c.cycle = a ++ i :: b) (hx : (b ++ a).head? = some x) (hy : (b ++ a).getLast? = some y)
    (p : Pipe) : p ∈ c.ring ∧ Touches i p ↔ p = (i, x) ∨ p = (y, i) := by
  unfold ring
  rw [hc] at hn ⊢
  exact mem_edges_at hn hx hy p

theorem restores_of_repipe {c : Chain} {i : ℕ} (x y : ℕ) {ps : List Pipe} (h : c.repipe i = (ps, true))
    (hps : ∀ p, p ∈ ps ↔ p = (i, x) ∨ p = (y, i))
    (hring : ∀ p, p ∈ c.ring ∧ Touches i p ↔ p = (i, x) ∨ p = (y, i)) : c.Restores i := by
  unfold Restores
  rw [h]
  exact ⟨rfl, fun p => (hps p).trans (hring p).symm⟩

theorem restores_source {c : Chain} (hn : c.cycle.Nodup) : c.Restores c.source := by
  refine restores_of_repipe (c.ingress.head?.getD c.destination)
    (c.egress.getLast?.getD c.destination) (repipe_source c) (fun p => ?_)
    (ring_at (a := []) hn rfl ?_ ?_)
  · rw [List.mem_cons, List.mem_singleton]
  · cases c.ingress <;> rfl
  · rw [List.append_nil, List.getLast?_append, List.getLast?_cons]
    rfl

theorem restores_destination {c : Chain} (hn : c.cycle.Nodup) : c.Restores c.destination := by
  have hne : c.destination ≠ c.source := by
    intro h
    refine (List.nodup_cons.mp hn).1 ?_
    rw [← h]
    exact List.mem_append_right _ List.mem_cons_self
  refine restores_of_repipe (c.egress.head?.getD c.source) (c.ingress.getLast?.getD c.source)
    (repipe_destination hne) (fun p => ?_)
    (ring_at (a := c.source :: c.ingress) hn rfl ?_ ?_)
  · rw [List.mem_cons, List.mem_singleton]
    exact or_comm
  · cases c.egress <;> rfl
  · rw [List.getLast?_append, List.getLast?_cons]
    rfl

theorem restores_ingress {c : Chain} {i : ℕ} (hn : c.cycle.Nodup) (hi : i ∈ c.ingress) :
    c.Restores i := by
  obtain ⟨hsrc, hrest⟩ := List.nodup_cons.mp hn
  have hs : i ≠ c.source := fun h => hsrc (h ▸ List.mem_append_left _ hi)
  have hd : i ≠ c.destination := fun h =>
    (List.nodup_append.mp hrest).2.2 i hi c.destination List.mem_cons_self h
  obtain ⟨a, b, hab⟩ := List.append_of_mem hi
  have ha : i ∉ a := by
    have hnodup := (List.nodup_append.mp hrest).1
    rw [hab] at hnodup
    exact fun h => (List.nodup_append.mp hnodup).2.2 i h i List.mem_cons_self rfl
  have hcycle : c.cycle = (c.source :: a) ++ i :: (b ++ c.destination :: c.egress) := by
    rw [cycle, hab, List.append_assoc, List.cons_append, List.cons_append]
  refine restores_of_repipe (b.head?.getD c.destination) (a.getLast?.getD c.source)
    (repipe_ingress hs hd hab ha) (fun p => ?_) (ring_at hn hcycle ?_ ?_)
  · rw [List.mem_cons, List.mem_singleton]
    exact or_comm
  · cases b <;> rfl
  · rw [List.getLast?_append, List.getLast?_cons]
    rfl

/-- An egress stage is restored if and only if another egress stage follows. -/
theorem restores_egress {c : Chain} {i : ℕ} (hn : c.cycle.Nodup) (hi : i ∈ c.egress) :
    c.Restores i ↔ c.egress.getLast? ≠ some i := by
  obtain ⟨hsrc, hrest⟩ := List.nodup_cons.mp hn
  obtain ⟨-, hdest, hdisj⟩ := List.nodup_append.mp hrest
  obtain ⟨hnot, hegress⟩ := List.nodup_cons.mp hdest
  have hs : i ≠ c.source := fun h =>
    hsrc (h ▸ List.mem_append_right _ (List.mem_cons_of_mem _ hi))
  have hd : i ≠ c.destination := fun h => hnot (h ▸ hi)
  have hin : i ∉ c.ingress := fun h => hdisj i h i (List.mem_cons_of_mem _ hi) rfl
  obtain ⟨a, b, hab⟩ := List.append_of_mem hi
  rw [hab] at hegress
  obtain ⟨-, hib, hdisj'⟩ := List.nodup_append.mp hegress
  have ha : i ∉ a := fun h => hdisj' i h i List.mem_cons_self rfl
  have hpipe := repipe_egress hs hd hin hab ha
  cases b with
  | nil =>
    rw [hab, List.getLast?_append, List.getLast?_singleton]
    unfold Restores
    rw [hpipe]
    simp
  | cons x b =>
    have hcycle : c.cycle =
        (c.source :: (c.ingress ++ c.destination :: a)) ++ i :: x :: b := by
      rw [cycle, hab]
      simp only [List.append_assoc, List.cons_append]
    have hlast : c.egress.getLast? ≠ some i := by
      intro h
      rw [hab, List.getLast?_append, List.getLast?_cons_cons, List.getLast?_cons] at h
      have hmem : i ∈ x :: b := by
        rw [← Option.some.inj h]
        rcases List.eq_nil_or_concat b with rfl | ⟨b, y, rfl⟩ <;> simp
      exact (List.nodup_cons.mp hib).1 hmem
    refine iff_of_true ?_ hlast
    refine restores_of_repipe x (a.getLast?.getD c.destination) hpipe (fun p => ?_)
      (ring_at hn hcycle rfl ?_)
    · simp only [List.head?_cons, Option.map_some, Option.toList_some, List.mem_cons,
        List.not_mem_nil, or_false]
      exact or_comm
    · rw [List.getLast?_append, List.getLast?_cons, List.getLast?_append, List.getLast?_cons]
      rfl

/-- `repipe` restores the ring at every stage but the last one of the egress chain. -/
theorem restores_iff {c : Chain} {i : ℕ} (hn : c.cycle.Nodup) (hi : i ∈ c.cycle) :
    c.Restores i ↔ c.egress.getLast? ≠ some i := by
  have hother (h : i ∉ c.egress) : c.egress.getLast? ≠ some i :=
    fun hlast => h (List.mem_of_getLast? hlast)
  obtain ⟨hsrc, hrest⟩ := List.nodup_cons.mp hn
  obtain ⟨-, hdest, hdisj⟩ := List.nodup_append.mp hrest
  rcases List.mem_cons.mp hi with rfl | hi
  · refine iff_of_true (restores_source hn) (hother (fun h => hsrc ?_))
    exact List.mem_append_right _ (List.mem_cons_of_mem _ h)
  · rcases List.mem_append.mp hi with hi | hi
    · refine iff_of_true (restores_ingress hn hi) (hother (fun h => ?_))
      exact hdisj i hi i (List.mem_cons_of_mem _ h) rfl
    · rcases List.mem_cons.mp hi with rfl | hi
      · exact iff_of_true (restores_destination hn) (hother (List.nodup_cons.mp hdest).1)
      · exact restores_egress hn hi

end Chain
end L7mp
