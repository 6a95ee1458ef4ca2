import L7mp.KeyedList
import Mathlib.Data.List.Perm.Subperm

/-! Keyed lists whose elements belong to groups: the list is made of its groups, and removing the
keys of a group removes the group if its elements lead. -/
namespace KeyedList

variable {α κ : Type} [DecidableEq κ] {key : α → κ}

/-- Every element is in one of the groups, and in one only. -/
theorem perm_groups {group : α → κ} {ks : List κ} (hks : ks.Nodup) {l : List α}
    (h : ∀ a ∈ l, group a ∈ ks) :
    l.Perm (ks.flatMap (fun k => l.filter (fun a => group a = k))) := by
  induction ks generalizing l with
  | nil =>
    have hnil : l = [] := List.eq_nil_iff_forall_not_mem.mpr (fun a ha => by simpa using h a ha)
    rw [hnil]
    exact List.Perm.refl _
  | cons k ks ih =>
    obtain ⟨hk, hks⟩ := List.nodup_cons.mp hks
    let rest := l.filter (fun a => !decide (group a = k))
    have hrest : ∀ a ∈ rest, group a ∈ ks := by
      intro a ha
      obtain ⟨hal, hne⟩ := List.mem_filter.mp ha
      exact (List.mem_cons.mp (h a hal)).resolve_left (by simpa using hne)
    have hgroups : ks.flatMap (fun m => rest.filter (fun a => group a = m)) =
        ks.flatMap (fun m => l.filter (fun a => group a = m)) := by
      apply List.flatMap_congr
      intro m hm
      have hne : m ≠ k := fun hmk => hk (hmk ▸ hm)
      rw [List.filter_filter]
      apply List.filter_congr
      intro a _
      by_cases ham : group a = m
      · simp [ham, hne]
      · simp [ham]
    have hperm : rest.Perm (ks.flatMap (fun m => l.filter (fun a => group a = m))) :=
      hgroups ▸ ih hks hrest
    exact (List.filter_append_perm _ l).symm.trans (hperm.append_left _)

/-- The first object of a key leaves its group. -/
theorem filter_remove {p : α → Bool} {k : κ} {l : List α} {a : α} (h : lookup key k l = some a) :
    (remove key k l).filter p = if p a then remove key k (l.filter p) else l.filter p := by
  induction l with
  | nil => cases h
  | cons b l ih =>
    unfold lookup remove at *
    by_cases hk : key b = k
    · rw [List.find?_cons_of_pos (by simpa using hk)] at h
      cases h
      rw [List.eraseP_cons_of_pos (by simpa using hk), List.filter_cons]
      split_ifs
      · rw [List.eraseP_cons_of_pos (by simpa using hk)]
      · rfl
    · rw [List.find?_cons_of_neg (by simpa using hk)] at h
      rw [List.eraseP_cons_of_neg (by simpa using hk), List.filter_cons, List.filter_cons, ih h]
      by_cases hb : p b
      · by_cases ha : p a
        · simp [ha, hb, hk]
        · simp [ha, hb]
      · simp [hb]

theorem remove_of_lookup_none {k : κ} {l : List α} (h : lookup key k l = none) :
    remove key k l = l := by
  apply List.eraseP_of_forall_not
  intro a ha
  simpa using lookup_eq_none.mp h a ha

theorem filter_of_filter {p q : α → Bool} {l l' : List α} (h : l.filter q = l'.filter q)
    (hpq : ∀ a, p a = true → q a = true) : l.filter p = l'.filter p := by
  have hboth (m : List α) : (m.filter q).filter p = m.filter p := by
    rw [List.filter_filter]
    apply List.filter_congr
    intro a _
    by_cases ha : p a
    · simp [ha, hpq a ha]
    · simp [ha]
  rw [← hboth l, h, hboth]

/-! ### Lists that grow at the end -/

theorem lookup_of_prefix {k : κ} {l l' : List α} {a : α} (h : l <+: l')
    (ha : lookup key k l = some a) : lookup key k l' = some a := by
  obtain ⟨m, rfl⟩ := h
  unfold lookup at *
  rw [List.find?_append, ha]
  rfl

theorem lookup_push {l : List α} {a : α} (h : key a ∉ l.map key) :
    lookup key (key a) (l ++ [a]) = some a := by
  have hnone : lookup key (key a) l = none := lookup_eq_none_iff.mpr h
  unfold lookup at *
  rw [List.find?_append, hnone]
  simp

theorem modify_push {l : List α} {a : α} (h : key a ∉ l.map key) (f : α → α) :
    modify key (key a) f (l ++ [a]) = l ++ [f a] := by
  induction l with
  | nil => simp [modify]
  | cons b l ih =>
    have hne : ¬key b = key a := fun hba => h (hba ▸ List.mem_cons_self)
    rw [List.cons_append, modify, if_neg hne, ih (fun hmem => h (List.mem_cons_of_mem _ hmem))]
    rfl

theorem forall_push {P : α → Prop} {l : List α} {a : α} (h : ∀ b ∈ l, P b) (ha : P a) :
    ∀ b ∈ l ++ [a], P b := by
  intro b hb
  rcases List.mem_append.mp hb with hb | hb
  · exact h b hb
  · rw [List.mem_singleton.mp hb]
    exact ha

theorem forall_modify {P : α → Prop} {f : α → α} {k : κ} {l : List α} (h : ∀ b ∈ l, P b)
    (hf : ∀ b, lookup key k l = some b → P (f b)) : ∀ b ∈ modify key k f l, P b := by
  induction l with
  | nil => exact h
  | cons a l ih =>
    obtain ⟨ha, hl⟩ := List.forall_mem_cons.mp h
    unfold modify
    split_ifs with hk
    · refine List.forall_mem_cons.mpr ⟨hf a ?_, hl⟩
      simp [lookup, hk]
    · refine List.forall_mem_cons.mpr ⟨ha, ih hl (fun b hb => hf b ?_)⟩
      rw [← hb]
      simp [lookup, hk]

theorem forall_remove {P : α → Prop} {l : List α} (k : κ) (h : ∀ b ∈ l, P b) :
    ∀ b ∈ remove key k l, P b := fun b hb => h b (List.mem_of_mem_eraseP hb)

/-! ### Removing the keys of a group -/

/-- No element of the group comes after an element of its key that is not in the group. -/
def Leads (key : α → κ) (p : α → Bool) (l : List α) : Prop :=
  l.Pairwise (fun a b => key a = key b → p b → p a)

instance (p : α → Bool) (l : List α) : Decidable (Leads key p l) :=
  inferInstanceAs (Decidable (l.Pairwise _))

theorem removeAll_cons (k : κ) (ks : List κ) (l : List α) :
    removeAll key (k :: ks) l = removeAll key ks (remove key k l) := rfl

theorem removeAll_head {a : α} {ks : List κ} (h : key a ∈ ks) (l : List α) :
    removeAll key ks (a :: l) = removeAll key (ks.erase (key a)) l := by
  induction ks generalizing l with
  | nil => cases h
  | cons k ks ih =>
    rw [removeAll_cons]
    unfold remove
    by_cases hk : key a = k
    · rw [List.eraseP_cons_of_pos (by simpa using hk), hk, List.erase_cons_head]
    · have hmem : key a ∈ ks := (List.mem_cons.mp h).resolve_left hk
      rw [List.eraseP_cons_of_neg (by simpa using hk), ih hmem,
        List.erase_cons_tail (by simpa using Ne.symm hk), removeAll_cons]
      rfl

theorem removeAll_keeps_head {a : α} {ks : List κ} (h : key a ∉ ks) (l : List α) :
    removeAll key ks (a :: l) = a :: removeAll key ks l := by
  induction ks generalizing l with
  | nil => rfl
  | cons k ks ih =>
    have hk : ¬key a = k := fun hk => h (hk ▸ List.mem_cons_self)
    rw [removeAll_cons, removeAll_cons]
    unfold remove
    rw [List.eraseP_cons_of_neg (by simpa using hk)]
    exact ih (fun hmem => h (List.mem_cons_of_mem k hmem)) _

theorem countP_removeAll (p : α → Bool) (ks : List κ) (l : List α) :
    l.countP p ≤ (removeAll key ks l).countP p + ks.length := by
  induction ks generalizing l with
  | nil => exact Nat.le_refl _
  | cons k ks ih =>
    have hone : l.countP p ≤ (remove key k l).countP p + 1 := by
      cases hl : lookup key k l with
      | none =>
        rw [remove_of_lookup_none hl]
        omega
      | some a =>
        rw [List.countP_eq_length_filter, List.countP_eq_length_filter, filter_remove hl]
        split_ifs
        · unfold remove
          rw [List.length_eraseP]
          split_ifs <;> omega
        · omega
    have := ih (remove key k l)
    rw [removeAll_cons, List.length_cons]
    omega

/-- Removing the keys of a group removes the group and nothing else if its elements lead. -/
theorem Leads.removeAll {p : α → Bool} {l : List α} (h : Leads key p l) :
    removeAll key ((l.filter p).map key) l = l.filter (fun a => !p a) := by
  induction l with
  | nil => rfl
  | cons a l ih =>
    obtain ⟨ha, hl⟩ := List.pairwise_cons.mp h
    have ih := ih hl
    by_cases hp : p a
    · rw [List.filter_cons_of_pos hp, List.map_cons, removeAll_head List.mem_cons_self,
        List.erase_cons_head, ih]
      simp [hp]
    · rw [List.filter_cons_of_neg hp, removeAll_keeps_head, ih]
      · simp [hp]
      · intro hmem
        obtain ⟨b, hb, hba⟩ := List.mem_map.mp hmem
        obtain ⟨hbl, hpb⟩ := List.mem_filter.mp hb
        exact hp (ha b hbl hba.symm hpb)

/-- Whatever keys of such a group are removed, the other groups stay. -/
theorem Leads.filter_removeAll_take {p : α → Bool} {l : List α} (h : Leads key p l) (j : ℕ) :
    (KeyedList.removeAll key (((l.filter p).map key).take j) l).filter (fun a => !p a) =
      l.filter (fun a => !p a) := by
  induction l generalizing j with
  | nil =>
    rw [List.filter_nil, List.map_nil, List.take_nil]
    rfl
  | cons a l ih =>
    obtain ⟨ha, hl⟩ := List.pairwise_cons.mp h
    by_cases hp : p a
    · rw [List.filter_cons_of_pos hp, List.map_cons]
      cases j with
      | zero => rfl
      | succ j =>
        rw [List.take_succ_cons, removeAll_head List.mem_cons_self, List.erase_cons_head, ih hl]
        simp [hp]
    · rw [List.filter_cons_of_neg hp, removeAll_keeps_head,
        List.filter_cons_of_pos (by simpa using hp), ih hl,
        List.filter_cons_of_pos (by simpa using hp)]
      intro hmem
      obtain ⟨b, hb, hba⟩ := List.mem_map.mp (List.mem_of_mem_take hmem)
      obtain ⟨hbl, hpb⟩ := List.mem_filter.mp hb
      exact hp (ha b hbl hba.symm hpb)

/-- And only if they do. -/
theorem leads_of_removeAll {p : α → Bool} {l : List α}
    (h : ∀ a ∈ removeAll key ((l.filter p).map key) l, p a = false) : Leads key p l := by
  induction l with
  | nil => exact List.Pairwise.nil
  | cons a l ih =>
    by_cases hp : p a
    · rw [List.filter_cons_of_pos hp, List.map_cons, removeAll_head List.mem_cons_self,
        List.erase_cons_head] at h
      exact List.pairwise_cons.mpr ⟨fun _ _ _ _ => hp, ih h⟩
    · rw [List.filter_cons_of_neg hp] at h
      have hnot : key a ∉ (l.filter p).map key := by
        intro hmem
        -- one key of the group is spent on `a`
        rw [removeAll_head hmem] at h
        have hzero := List.countP_eq_zero.mpr (fun b hb => by simpa using h b hb)
        have hcount : l.countP p ≤
            (removeAll key (((l.filter p).map key).erase (key a)) l).countP p +
              (((l.filter p).map key).erase (key a)).length := countP_removeAll p _ l
        rw [hzero, List.length_erase_of_mem hmem, List.length_map,
          ← List.countP_eq_length_filter] at hcount
        have hpos : 0 < ((l.filter p).map key).length := List.length_pos_of_mem hmem
        rw [List.length_map, ← List.countP_eq_length_filter] at hpos
        omega
      rw [removeAll_keeps_head hnot] at h
      refine List.pairwise_cons.mpr ⟨fun b hb hab hpb => ?_, ih ?_⟩
      · exact absurd (hab ▸ List.mem_map_of_mem (List.mem_filter.mpr ⟨hb, hpb⟩)) hnot
      · exact fun b hb => h b (List.mem_cons_of_mem a hb)

/-- Keys that occur often enough find an object each. -/
theorem consumes_of_subperm {reg : α → Prop} {ks : List κ} {l : List α}
    (h : ks.Subperm (l.map key)) (hreg : ∀ a ∈ l, reg a) : Consumes key reg ks l := by
  induction ks generalizing l with
  | nil => trivial
  | cons k ks ih =>
    have hk : k ∈ l.map key := h.subset List.mem_cons_self
    obtain ⟨a, ha⟩ : ∃ a, lookup key k l = some a := by
      rw [← Option.ne_none_iff_exists', Ne, lookup_eq_none_iff, not_not]
      exact hk
    refine ⟨⟨a, ha, hreg a (lookup_some ha).1⟩, ih ?_ ?_⟩
    · rw [map_remove]
      simpa using h.erase k
    · exact fun b hb => hreg b (List.eraseP_subset hb)

end KeyedList
