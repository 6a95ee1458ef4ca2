import Mathlib.Data.List.Rotate

/-! The directed ring through the elements of a list: every element points to the next one and
the last to the first. Up to order the ring does not depend on where the list starts, so an
element can be moved to the front, where its two edges can be read off. -/
namespace RingEdges
variable {α : Type*}

def edges (l : List α) : List (α × α) := l.zip (l.rotate 1)

/-- An edge begins or ends at an element. -/
def Touches (i : α) (p : α × α) : Prop := p.1 = i ∨ p.2 = i

instance [DecidableEq α] (i : α) (p : α × α) : Decidable (Touches i p) :=
  inferInstanceAs (Decidable (_ ∨ _))

theorem edges_cons (x : α) (l : List α) : edges (x :: l) = (x :: l).zip (l ++ [x]) := by
  rw [edges, List.rotate_cons_succ, List.rotate_zero]

theorem edges_rotate (l : List α) (n : ℕ) : edges (l.rotate n) = (edges l).rotate n := by
  have hlen : l.length = (l.rotate 1).length := (List.length_rotate l 1).symm
  rw [edges, edges, List.rotate_rotate, Nat.add_comm, ← List.rotate_rotate]
  exact (List.zipWith_rotate_distrib Prod.mk l (l.rotate 1) n hlen).symm

/-- The ring is the same wherever the list starts. -/
theorem mem_edges_append (l l' : List α) (p : α × α) :
    p ∈ edges (l ++ l') ↔ p ∈ edges (l' ++ l) := by
  have hrot : edges (l' ++ l) = (edges (l ++ l')).rotate l.length := by
    rw [← edges_rotate, List.rotate_append_length_eq]
  rw [hrot, List.mem_rotate]

theorem mem_of_mem_edges {l : List α} {p : α × α} (h : p ∈ edges l) : p.1 ∈ l ∧ p.2 ∈ l := by
  obtain ⟨x, y⟩ := p
  exact ⟨(List.of_mem_zip h).1, List.mem_rotate.mp (List.of_mem_zip h).2⟩

/-- The two edges at the front element of a list without repetitions: to the element after it
and from the last element. -/
theorem mem_edges_touching {i x y : α} {l : List α} (hi : i ∉ l) (hx : l.head? = some x)
    (hy : l.getLast? = some y) (p : α × α) :
    p ∈ edges (i :: l) ∧ Touches i p ↔ p = (i, x) ∨ p = (y, i) := by
  obtain ⟨t, rfl⟩ : ∃ t, l = x :: t := List.head?_eq_some_iff.mp hx
  obtain ⟨d, hd⟩ : ∃ d, x :: t = d ++ [y] := List.getLast?_eq_some_iff.mp hy
  -- the ring once with its first and once with its last edge split off
  have hfirst : edges (i :: x :: t) = (i, x) :: (x :: t).zip (t ++ [i]) := by
    rw [edges_cons, List.cons_append, List.zip_cons_cons]
  have hlast : edges (i :: x :: t) = (i :: d).zip (x :: t) ++ [(y, i)] := by
    have hsplit : i :: x :: t = (i :: d) ++ [y] := by rw [hd, List.cons_append]
    have hlen : (i :: d).length = (x :: t).length := by
      rw [hd, List.length_append, List.length_cons, List.length_singleton]
    rw [edges_cons, hsplit, List.zip_append hlen]
    rfl
  constructor
  · rintro ⟨hp, htouch⟩
    rcases htouch with h | h
    · rw [hfirst] at hp
      rcases List.mem_cons.mp hp with rfl | hp
      · exact Or.inl rfl
      · have hmem := (List.of_mem_zip (a := p.1) (b := p.2) hp).1
        rw [h] at hmem
        exact absurd hmem hi
    · rw [hlast] at hp
      rcases List.mem_append.mp hp with hp | hp
      · have hmem := (List.of_mem_zip (a := p.1) (b := p.2) hp).2
        rw [h] at hmem
        exact absurd hmem hi
      · exact Or.inr (List.mem_singleton.mp hp)
  · rintro (rfl | rfl)
    · refine ⟨?_, Or.inl rfl⟩
      rw [hfirst]
      exact List.mem_cons_self
    · refine ⟨?_, Or.inr rfl⟩
      rw [hlast]
      exact List.mem_append_right _ (List.mem_singleton_self _)

/-- The same for an element anywhere in the list. -/
theorem mem_edges_at {i x y : α} {a b : List α} (hn : (a ++ i :: b).Nodup)
    (hx : (b ++ a).head? = some x) (hy : (b ++ a).getLast? = some y) (p : α × α) :
    p ∈ edges (a ++ i :: b) ∧ Touches i p ↔ p = (i, x) ∨ p = (y, i) := by
  have hperm : (a ++ i :: b).Perm (i :: (b ++ a)) := by
    refine List.perm_append_comm.trans ?_
    rw [List.cons_append]
  have hi : i ∉ b ++ a := (List.nodup_cons.mp (hperm.nodup_iff.mp hn)).1
  rw [mem_edges_append, List.cons_append]
  exact mem_edges_touching hi hx hy p

/-! ### Walking around the ring -/

/-- A list is walked along the pairs of its neighbours. -/
theorem isChain_zip : ∀ (x : α) (l : List α), List.IsChain (fun i j => (i, j) ∈ (x :: l).zip l) (x :: l)
  | x, [] => .singleton x
  | x, y :: l => by
    refine List.isChain_cons_cons.mpr ⟨List.mem_cons_self, ?_⟩
    refine (isChain_zip y l).imp ?_
    intro i j hij
    exact List.mem_cons_of_mem _ hij

/-- The walk along the edges through all elements and back to the first. -/
theorem isChain_edges (x : α) (l : List α) :
    List.IsChain (fun i j => (i, j) ∈ edges (x :: l)) (x :: l ++ [x]) := by
  have hzip : (x :: l ++ [x]).zip (l ++ [x]) = edges (x :: l) := by
    have hlen : (x :: l).length = (l ++ [x]).length := by
      rw [List.length_cons, List.length_append, List.length_singleton]
    have happend : (x :: l ++ [x]).zip (l ++ [x] ++ []) = (x :: l).zip (l ++ [x]) ++ [] :=
      List.zip_append hlen
    rw [List.append_nil, List.append_nil] at happend
    rw [happend, edges_cons]
  have hwalk := isChain_zip x (l ++ [x])
  rw [← List.cons_append, hzip] at hwalk
  exact hwalk

theorem nodup_edges {l : List α} (hn : l.Nodup) : (edges l).Nodup := by
  have hfst : (edges l).map Prod.fst = l :=
    List.map_fst_zip (le_of_eq (List.length_rotate l 1).symm)
  apply List.Nodup.of_map Prod.fst
  rw [hfst]
  exact hn

/-- An edge is the only one to its end. -/
theorem edges_unique {l : List α} (hn : l.Nodup) {i j k : α} (hi : (i, j) ∈ edges l)
    (hk : (k, j) ∈ edges l) : k = i := by
  have hsnd : (edges l).map Prod.snd = l.rotate 1 :=
    List.map_snd_zip (le_of_eq (List.length_rotate l 1))
  have hnodup : ((edges l).map Prod.snd).Nodup := by
    rw [hsnd]
    exact List.nodup_rotate.mpr hn
  have hpair := List.inj_on_of_nodup_map hnodup hk hi rfl
  exact congrArg Prod.fst hpair

theorem count_edges [DecidableEq α] {l : List α} (hn : l.Nodup) {i j : α} (h : (i, j) ∈ edges l)
    (k : α) : (edges l).count (k, j) = if k = i then 1 else 0 := by
  by_cases hk : k = i
  · rw [if_pos hk, hk]
    exact List.count_eq_one_of_mem (nodup_edges hn) h
  · rw [if_neg hk]
    apply List.count_eq_zero_of_not_mem
    intro hmem
    exact hk (edges_unique hn h hmem)

end RingEdges
