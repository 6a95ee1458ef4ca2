import Mathlib.Data.List.Count
import Mathlib.Data.List.Nodup

/-! Lists of objects with a key: the first object of a key is looked up, removed or changed. -/
namespace KeyedList

variable {α κ : Type} (key : α → κ)

/-- No two objects have the same key. -/
def Distinct (l : List α) : Prop := (l.map key).Nodup

variable {key} in
theorem Distinct.eq {l : List α} (h : Distinct key l) {a b : α} (ha : a ∈ l) (hb : b ∈ l)
    (hab : key a = key b) : a = b := List.inj_on_of_nodup_map h ha hb hab

variable {key} in
theorem Distinct.filter {l : List α} (h : Distinct key l) (p : α → Bool) :
    Distinct key (l.filter p) := h.sublist (List.filter_sublist.map key)

variable [DecidableEq κ]

def lookup (k : κ) (l : List α) : Option α := l.find? (fun a => key a = k)

def remove (k : κ) (l : List α) : List α := l.eraseP (fun a => key a = k)

def modify (k : κ) (f : α → α) : List α → List α
  | [] => []
  | a :: l => if key a = k then f a :: l else a :: modify k f l

instance (l : List α) : Decidable (Distinct key l) := inferInstanceAs (Decidable (l.map key).Nodup)

variable {key} {k : κ} {l : List α} {a : α}

theorem lookup_some (h : lookup key k l = some a) : a ∈ l ∧ key a = k :=
  ⟨List.mem_of_find?_eq_some h, by simpa using List.find?_some h⟩

theorem lookup_eq_none : lookup key k l = none ↔ ∀ a ∈ l, key a ≠ k := by
  simp [lookup]

theorem lookup_eq_none_iff : lookup key k l = none ↔ k ∉ l.map key := by
  rw [lookup_eq_none]
  simp

theorem Distinct.lookup (h : Distinct key l) (ha : a ∈ l) : lookup key (key a) l = some a := by
  cases hl : KeyedList.lookup key (key a) l with
  | none => exact absurd rfl (lookup_eq_none.mp hl a ha)
  | some b =>
    obtain ⟨hb, hkey⟩ := lookup_some hl
    rw [h.eq hb ha hkey]

theorem Distinct.remove (h : Distinct key l) (k : κ) : Distinct key (remove key k l) := by
  have hsub : (KeyedList.remove key k l).Sublist l := List.eraseP_sublist
  exact h.sublist (hsub.map key)

/-- Among distinct keys, removing the first object of a key removes the key. -/
theorem Distinct.remove_eq_filter (h : Distinct key l) (k : κ) :
    KeyedList.remove key k l = l.filter (fun a => key a ≠ k) := by
  induction l with
  | nil => rfl
  | cons a l ih =>
    obtain ⟨ha, hl⟩ := List.nodup_cons.mp h
    unfold KeyedList.remove
    by_cases hk : key a = k
    · rw [List.eraseP_cons_of_pos (by simpa using hk),
        List.filter_cons_of_neg (by simpa using hk), List.filter_eq_self.mpr]
      intro b hb
      have hne : key b ≠ k := fun hbk => ha (hk.trans hbk.symm ▸ List.mem_map_of_mem hb)
      simpa using hne
    · rw [List.eraseP_cons_of_neg (by simpa using hk),
        List.filter_cons_of_pos (by simpa using hk)]
      exact congrArg (a :: ·) (ih hl)

theorem Distinct.push (h : Distinct key l) (ha : KeyedList.lookup key (key a) l = none) :
    Distinct key (l ++ [a]) := by
  unfold Distinct
  rw [List.map_append]
  refine List.Nodup.append h (List.nodup_singleton _) ?_
  intro k hk hk'
  obtain ⟨b, hb, rfl⟩ := List.mem_map.mp hk
  exact lookup_eq_none.mp ha b hb (List.mem_singleton.mp hk')

theorem map_remove (k : κ) (l : List α) : (remove key k l).map key = (l.map key).erase k := by
  induction l with
  | nil => rfl
  | cons a l ih =>
    unfold remove at ih ⊢
    by_cases hk : key a = k
    · simp [hk]
    · simp [hk, ih]

theorem mem_remove_or (h : lookup key k l = some a) {b : α} (hb : b ∈ l) :
    b = a ∨ b ∈ remove key k l := by
  induction l with
  | nil => cases hb
  | cons c l ih =>
    unfold lookup remove at *
    by_cases hk : key c = k
    · rw [List.find?_cons_of_pos (by simpa using hk)] at h
      cases h
      rw [List.eraseP_cons_of_pos (by simpa using hk)]
      exact List.mem_cons.mp hb
    · rw [List.find?_cons_of_neg (by simpa using hk)] at h
      rw [List.eraseP_cons_of_neg (by simpa using hk)]
      rcases List.mem_cons.mp hb with rfl | hb
      · exact .inr List.mem_cons_self
      · exact (ih h hb).imp id (List.mem_cons_of_mem c)

theorem lookup_remove_ne {j : κ} (h : k ≠ j) (l : List α) :
    lookup key k (remove key j l) = lookup key k l := by
  induction l with
  | nil => rfl
  | cons a l ih =>
    unfold lookup remove at ih ⊢
    by_cases hj : key a = j
    · have hk : ¬key a = k := fun heq => h (heq.symm.trans hj)
      rw [List.eraseP_cons_of_pos (by simpa using hj), List.find?_cons, decide_eq_false hk]
    · rw [List.eraseP_cons_of_neg (by simpa using hj), List.find?_cons, List.find?_cons, ih]

/-- An object stays as it is or is the one that changes. -/
theorem mem_modify {f : α → α} (ha : a ∈ l) :
    a ∈ modify key k f l ∨ f a ∈ modify key k f l := by
  induction l with
  | nil => cases ha
  | cons b l ih =>
    unfold modify
    split_ifs with hk
    · rcases List.mem_cons.mp ha with rfl | ha
      · exact Or.inr List.mem_cons_self
      · exact Or.inl (List.mem_cons_of_mem _ ha)
    · rcases List.mem_cons.mp ha with rfl | ha
      · exact Or.inl List.mem_cons_self
      · exact (ih ha).imp (List.mem_cons_of_mem _) (List.mem_cons_of_mem _)

section Modify

variable {f : α → α} (hf : ∀ a, key (f a) = key a)
include hf

theorem modify_keys (k : κ) (l : List α) : (modify key k f l).map key = l.map key := by
  induction l with
  | nil => rfl
  | cons a l ih =>
    unfold modify
    split_ifs
    · rw [List.map_cons, List.map_cons, hf]
    · rw [List.map_cons, List.map_cons, ih]

theorem lookup_modify (k : κ) (l : List α) :
    lookup key k (modify key k f l) = (lookup key k l).map f := by
  induction l with
  | nil => rfl
  | cons a l ih =>
    unfold modify
    by_cases hk : key a = k
    · simp [lookup, hk, hf]
    · unfold lookup at ih ⊢
      simpa [hk] using ih

/-- Apart from the objects of a key, nothing changes. -/
theorem filter_modify (k : κ) (l : List α) :
    (modify key k f l).filter (fun a => key a ≠ k) = l.filter (fun a => key a ≠ k) := by
  induction l with
  | nil => rfl
  | cons a l ih =>
    unfold modify
    by_cases hk : key a = k
    · simp [hk, hf]
    · simpa [hk] using ih

theorem Distinct.modify (h : Distinct key l) (k : κ) :
    Distinct key (KeyedList.modify key k f l) := by
  unfold Distinct
  rw [modify_keys hf]
  exact h

end Modify

/-- Among distinct keys, the first object of a key is the only one that changes. -/
theorem Distinct.modify_eq_map (h : Distinct key l) (k : κ) (f : α → α) :
    KeyedList.modify key k f l = l.map (fun a => if key a = k then f a else a) := by
  induction l with
  | nil => rfl
  | cons a l ih =>
    obtain ⟨ha, hl⟩ := List.nodup_cons.mp h
    unfold KeyedList.modify
    rw [List.map_cons]
    split_ifs with hk
    · have hrest : l.map (fun b => if key b = k then f b else b) = l.map id := by
        apply List.map_congr_left
        intro b hb
        exact if_neg (fun hbk : key b = k => ha (hk.trans hbk.symm ▸ List.mem_map_of_mem hb))
      rw [hrest, List.map_id]
    · rw [ih hl]

/-! Removing several keys, one after the other. -/
section Several

variable (key) in
def removeAll (ks : List κ) (l : List α) : List α := ks.foldl (fun l k => remove key k l) l

theorem Distinct.removeAll_eq_filter (ks : List κ) {l : List α} (h : Distinct key l) :
    removeAll key ks l = l.filter (fun a => key a ∉ ks) := by
  induction ks generalizing l with
  | nil => simp [removeAll]
  | cons k ks ih =>
    show removeAll key ks (KeyedList.remove key k l) = _
    rw [ih (h.remove k), h.remove_eq_filter, List.filter_filter]
    apply List.filter_congr
    intro a _
    simp [Bool.and_comm]

variable (key) in
/-- Each key finds an object in `reg` when its turn comes. -/
def Consumes (reg : α → Prop) : List κ → List α → Prop
  | [], _ => True
  | k :: ks, l => (∃ a, lookup key k l = some a ∧ reg a) ∧ Consumes reg ks (remove key k l)

variable (key) in
/-- All objects whose keys are in `ks'` are removed, and nothing else is asked for, exactly if
each of the keys occurs among the objects as often as in the list. -/
theorem consumes_iff (reg : α → Prop) {ks' : List κ} (ks : List κ) (l : List α)
    (hks : ∀ k ∈ ks, k ∈ ks') :
    (Consumes key reg ks l ∧ ∀ k ∈ ks', lookup key k (removeAll key ks l) = none) ↔
      (∀ k ∈ ks', (l.map key).count k = ks.count k) ∧ ∀ a ∈ l, key a ∈ ks' → reg a := by
  induction ks generalizing l with
  | nil =>
    have hcount (k : κ) : lookup key k l = none ↔ (l.map key).count k = 0 := by
      rw [lookup_eq_none_iff, List.count_eq_zero]
    change (True ∧ ∀ k ∈ ks', lookup key k l = none) ↔ _
    constructor
    · rintro ⟨-, hnone⟩
      refine ⟨fun k hk => (hcount k).mp (hnone k hk), fun a ha hmem => ?_⟩
      exact absurd rfl (lookup_eq_none.mp (hnone _ hmem) a ha)
    · rintro ⟨hzero, -⟩
      exact ⟨trivial, fun k hk => (hcount k).mpr (hzero k hk)⟩
  | cons k ks ih =>
    have hk := hks k List.mem_cons_self
    have ih := ih (remove key k l) (fun m hm => hks m (List.mem_cons_of_mem k hm))
    have hcount {a : α} (ha : lookup key k l = some a) (m : κ) : (l.map key).count m =
        ((remove key k l).map key).count m + if m = k then 1 else 0 := by
      have hmem : k ∈ l.map key := (lookup_some ha).2 ▸ List.mem_map_of_mem (lookup_some ha).1
      rw [map_remove]
      split_ifs with hm
      · subst hm
        rw [List.count_erase_self]
        have := List.count_pos_iff.mpr hmem
        omega
      · rw [List.count_erase_of_ne hm]
        rfl
    have hcons (m : κ) : (k :: ks).count m = ks.count m + if m = k then 1 else 0 := by
      rw [List.count_cons]
      by_cases hm : m = k
      · simp [hm]
      · simp [hm, Ne.symm hm]
    constructor
    · rintro ⟨⟨⟨a, ha, hreg⟩, hrest⟩, hnone⟩
      obtain ⟨hcounts, hregs⟩ := ih.mp ⟨hrest, hnone⟩
      refine ⟨fun m hm => ?_, fun b hb hmem => ?_⟩
      · rw [hcount ha, hcons, hcounts m hm]
      · rcases mem_remove_or ha hb with rfl | hb
        · exact hreg
        · exact hregs b hb hmem
    · rintro ⟨hcounts, hregs⟩
      have hpos : 0 < (l.map key).count k := by
        rw [hcounts k hk, hcons, if_pos rfl]
        omega
      obtain ⟨a, ha⟩ : ∃ a, lookup key k l = some a := by
        rw [← Option.ne_none_iff_exists', Ne, lookup_eq_none_iff, not_not]
        exact List.count_pos_iff.mp hpos
      obtain ⟨hmem, hkey⟩ := lookup_some ha
      obtain ⟨hrest, hnone⟩ := ih.mpr ⟨fun m hm => by
        have hm := hcounts m hm
        rw [hcount ha, hcons] at hm
        omega, fun b hb => hregs b (List.eraseP_subset hb)⟩
      exact ⟨⟨⟨a, ha, hregs a hmem (hkey.symm ▸ hk)⟩, hrest⟩, hnone⟩

end Several

end KeyedList
