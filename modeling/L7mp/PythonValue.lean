import Mathlib.Algebra.Order.Ring.Rat
import Mathlib.Data.List.Infix
import Mathlib.Data.List.Nodup
import Mathlib.Data.String.Basic

/-! Python's values as a JSON document gives them, with the operators that look into them. -/
namespace Python

/-- What is raised. -/
inductive Exc
  | keyError (key : String)
  | typeError
  | attributeError
  | nameError (name : String)
  | permanent (message : String)
  | temporary (message : String)
  | other (type message : String)
  deriving DecidableEq, Repr

/-! ### Dicts -/
namespace Dict

variable {κ α : Type} [BEq κ]

/-- `d[k] = a`; a new key comes last. -/
def set (k : κ) (a : α) : List (κ × α) → List (κ × α)
  | [] => [(k, a)]
  | (k', a') :: d => if k' == k then (k, a) :: d else (k', a') :: set k a d

/-- `del d[k]`. -/
def del (k : κ) (d : List (κ × α)) : List (κ × α) := d.filter (fun e => e.1 != k)

/-- Several assignments, one after the other. -/
def assign (l : List (κ × α)) : List (κ × α) := l.foldl (fun d e => set e.1 e.2 d) []

theorem mem_set {k : κ} {a : α} {d : List (κ × α)} {e : κ × α} (h : e ∈ set k a d) :
    e = (k, a) ∨ e ∈ d := by
  induction d with
  | nil => exact Or.inl (List.mem_singleton.mp h)
  | cons f d ih =>
    obtain ⟨k', a'⟩ := f
    unfold set at h
    split_ifs at h
    · rcases List.mem_cons.mp h with h | h
      · exact Or.inl h
      · exact Or.inr (List.mem_cons_of_mem _ h)
    · rcases List.mem_cons.mp h with h | h
      · exact Or.inr (h ▸ List.mem_cons_self)
      · exact (ih h).imp id (List.mem_cons_of_mem _)

variable [LawfulBEq κ]

theorem lookup_cons_self (k : κ) (a : α) (d : List (κ × α)) : ((k, a) :: d).lookup k = some a := by
  rw [List.lookup_cons, beq_self_eq_true]

theorem lookup_cons_ne {k k' : κ} (h : k' ≠ k) (a : α) (d : List (κ × α)) :
    ((k, a) :: d).lookup k' = d.lookup k' := by
  rw [List.lookup_cons, beq_false_of_ne h]

theorem lookup_set_self (k : κ) (a : α) (d : List (κ × α)) : (set k a d).lookup k = some a := by
  induction d with
  | nil => exact lookup_cons_self k a []
  | cons e d ih =>
    obtain ⟨k', a'⟩ := e
    unfold set
    split_ifs with h
    · exact lookup_cons_self k a d
    · have hne : k ≠ k' := fun heq => h (beq_iff_eq.mpr heq.symm)
      rw [lookup_cons_ne hne, ih]

theorem lookup_set_ne {k k' : κ} (h : k' ≠ k) (a : α) (d : List (κ × α)) :
    (set k a d).lookup k' = d.lookup k' := by
  induction d with
  | nil => exact lookup_cons_ne h a []
  | cons e d ih =>
    obtain ⟨k₀, a₀⟩ := e
    unfold set
    split_ifs with hk
    · cases eq_of_beq hk
      rw [lookup_cons_ne h, lookup_cons_ne h]
    · by_cases h₀ : k' = k₀
      · subst h₀
        rw [lookup_cons_self, lookup_cons_self]
      · rw [lookup_cons_ne h₀, lookup_cons_ne h₀, ih]

/-- Assigning what is there. -/
theorem set_self {k : κ} {a : α} {d : List (κ × α)} (h : d.lookup k = some a) : set k a d = d := by
  induction d with
  | nil => cases h
  | cons e d ih =>
    obtain ⟨k', a'⟩ := e
    unfold set
    by_cases hk : k = k'
    · subst hk
      rw [lookup_cons_self, Option.some.injEq] at h
      rw [if_pos (beq_self_eq_true k), h]
    · rw [lookup_cons_ne hk] at h
      rw [if_neg (fun heq => hk (eq_of_beq heq).symm), ih h]

theorem mem_of_lookup {k : κ} {a : α} {d : List (κ × α)} (h : d.lookup k = some a) :
    (k, a) ∈ d := by
  induction d with
  | nil => cases h
  | cons e d ih =>
    obtain ⟨k', a'⟩ := e
    by_cases hk : k = k'
    · subst hk
      rw [lookup_cons_self] at h
      cases h
      exact List.mem_cons_self
    · rw [lookup_cons_ne hk] at h
      exact List.mem_cons_of_mem _ (ih h)

theorem lookup_eq_none {k : κ} {d : List (κ × α)} : d.lookup k = none ↔ k ∉ d.map Prod.fst := by
  induction d with
  | nil => simp
  | cons e d ih =>
    obtain ⟨k', a'⟩ := e
    by_cases hk : k = k'
    · subst hk
      simp
    · rw [lookup_cons_ne hk, ih]
      simp [hk]

theorem lookup_of_mem {d : List (κ × α)} (h : (d.map Prod.fst).Nodup) {k : κ} {a : α}
    (ha : (k, a) ∈ d) : d.lookup k = some a := by
  cases hlookup : d.lookup k with
  | none => exact absurd (List.mem_map_of_mem ha) (lookup_eq_none.mp hlookup)
  | some b =>
    have heq := List.inj_on_of_nodup_map h (mem_of_lookup hlookup) ha rfl
    rw [(Prod.mk.inj heq).2]

theorem lookup_del_self (k : κ) (d : List (κ × α)) : (del k d).lookup k = none := by
  rw [lookup_eq_none]
  intro hmem
  obtain ⟨e, he, rfl⟩ := List.mem_map.mp hmem
  have hne := (List.mem_filter.mp he).2
  simp at hne

theorem lookup_del_ne {k k' : κ} (h : k' ≠ k) (d : List (κ × α)) :
    (del k d).lookup k' = d.lookup k' := by
  induction d with
  | nil => rfl
  | cons e d ih =>
    obtain ⟨k₀, a₀⟩ := e
    unfold del at ih ⊢
    by_cases h₀ : k₀ = k
    · subst h₀
      rw [List.filter_cons_of_neg (by simp), ih, lookup_cons_ne h]
    · rw [List.filter_cons_of_pos (by simpa using h₀)]
      by_cases hk : k' = k₀
      · subst hk
        rw [lookup_cons_self, lookup_cons_self]
      · rw [lookup_cons_ne hk, lookup_cons_ne hk, ih]

theorem del_of_not_mem {k : κ} {d : List (κ × α)} (h : d.lookup k = none) : del k d = d := by
  rw [lookup_eq_none] at h
  refine List.filter_eq_self.mpr (fun e he => ?_)
  have hne : e.1 ≠ k := fun heq => h (heq ▸ List.mem_map_of_mem he)
  simpa using hne

/-- A key that is not there comes last. -/
theorem set_of_not_mem {k : κ} {d : List (κ × α)} (h : k ∉ d.map Prod.fst) (a : α) :
    set k a d = d ++ [(k, a)] := by
  induction d with
  | nil => rfl
  | cons e d ih =>
    obtain ⟨k', a'⟩ := e
    rw [List.map_cons, List.mem_cons, not_or] at h
    unfold set
    rw [if_neg (fun heq => h.1 (eq_of_beq heq).symm), ih h.2]
    rfl

theorem del_set_self (k : κ) (a : α) (d : List (κ × α)) : del k (set k a d) = del k d := by
  induction d with
  | nil => simp [set, del]
  | cons e d ih =>
    obtain ⟨k', a'⟩ := e
    unfold set
    by_cases hk : k' = k
    · subst hk
      simp [del]
    · rw [if_neg (fun heq => hk (eq_of_beq heq))]
      unfold del at ih ⊢
      rw [List.filter_cons, List.filter_cons, ih]

omit [LawfulBEq κ] in
theorem keys_del (k : κ) (d : List (κ × α)) :
    (del k d).map Prod.fst = (d.map Prod.fst).filter (fun m => m != k) := by
  unfold del
  rw [List.filter_map]
  rfl

omit [LawfulBEq κ] in
theorem nodup_del {d : List (κ × α)} (h : (d.map Prod.fst).Nodup) (k : κ) :
    ((del k d).map Prod.fst).Nodup := by
  rw [keys_del]
  exact h.filter _

theorem not_mem_del (k : κ) (d : List (κ × α)) : k ∉ (del k d).map Prod.fst := by
  rw [← lookup_eq_none, lookup_del_self]

/-- An assignment puts a value beside what is under the other keys. -/
theorem set_perm {d : List (κ × α)} (h : (d.map Prod.fst).Nodup) (k : κ) (a : α) :
    (set k a d).Perm ((k, a) :: del k d) := by
  induction d with
  | nil => simp [set, del]
  | cons e d ih =>
    obtain ⟨k', a'⟩ := e
    rw [List.map_cons, List.nodup_cons] at h
    unfold set
    by_cases hk : k' = k
    · subst hk
      have hdel : del k' ((k', a') :: d) = d := by
        have hrest : del k' d = d := del_of_not_mem (lookup_eq_none.mpr h.1)
        unfold del at hrest ⊢
        rw [List.filter_cons, hrest]
        simp
      rw [if_pos (beq_self_eq_true k'), hdel]
    · have hdel : del k ((k', a') :: d) = (k', a') :: del k d := by
        unfold del
        rw [List.filter_cons]
        simp [hk]
      rw [if_neg (fun heq => hk (eq_of_beq heq)), hdel]
      exact ((ih h.2).cons _).trans (List.Perm.swap _ _ _)

theorem nodup_set {d : List (κ × α)} (h : (d.map Prod.fst).Nodup) (k : κ) (a : α) :
    ((set k a d).map Prod.fst).Nodup := by
  refine ((set_perm h k a).map Prod.fst).nodup_iff.mpr ?_
  rw [List.map_cons, List.nodup_cons]
  exact ⟨not_mem_del k d, nodup_del h k⟩

theorem perm_of_lookup {d : List (κ × α)} (h : (d.map Prod.fst).Nodup) {k : κ} {a : α}
    (hlookup : d.lookup k = some a) : d.Perm ((k, a) :: del k d) := by
  have hset := set_perm h k a
  rw [set_self hlookup] at hset
  exact hset

/-- Dicts with the same entries have the same values under their keys. -/
theorem lookup_perm {d e : List (κ × α)} (h : d.Perm e) (hd : (d.map Prod.fst).Nodup) (k : κ) :
    d.lookup k = e.lookup k := by
  have he : (e.map Prod.fst).Nodup := (h.map Prod.fst).nodup hd
  have hmem : ∀ {l : List (κ × α)}, (l.map Prod.fst).Nodup → ∀ {a}, (k, a) ∈ l →
      l.lookup k = some a := by
    intro l hl a ha
    rcases hlookup : l.lookup k with _ | b
    · exact absurd (List.mem_map_of_mem ha) (lookup_eq_none.mp hlookup)
    · have heq := List.inj_on_of_nodup_map hl (mem_of_lookup hlookup) ha rfl
      rw [(Prod.mk.inj heq).2]
  rcases hlookup : d.lookup k with _ | a
  · rw [lookup_eq_none, (h.map Prod.fst).mem_iff, ← lookup_eq_none] at hlookup
    exact hlookup.symm
  · exact (hmem he (h.mem_iff.mp (mem_of_lookup hlookup))).symm

theorem lookup_assign (k : κ) (l : List (κ × α)) : (assign l).lookup k = l.reverse.lookup k := by
  have hfold : ∀ (l : List (κ × α)), assign l =
      l.reverse.foldr (fun e d => set e.1 e.2 d) [] := by
    intro l
    rw [List.foldr_reverse]
    rfl
  rw [hfold]
  induction l.reverse with
  | nil => rfl
  | cons e l ih =>
    obtain ⟨k', a'⟩ := e
    rw [List.foldr_cons]
    by_cases hk : k = k'
    · subst hk
      rw [lookup_set_self, lookup_cons_self]
    · rw [lookup_set_ne hk, lookup_cons_ne hk, ih]

theorem mem_of_lookup_assign {k : κ} {a : α} {l : List (κ × α)}
    (h : (assign l).lookup k = some a) : (k, a) ∈ l := by
  rw [lookup_assign] at h
  exact List.mem_reverse.mp (mem_of_lookup h)

theorem lookup_assign_eq_none {k : κ} {l : List (κ × α)} :
    (assign l).lookup k = none ↔ k ∉ l.map Prod.fst := by
  rw [lookup_assign, lookup_eq_none, List.map_reverse, List.mem_reverse]

/-- Assignments to different keys are all kept, in their order. -/
theorem assign_of_nodup {l : List (κ × α)} (h : (l.map Prod.fst).Nodup) : assign l = l := by
  have hfold : ∀ (l d : List (κ × α)), ((d ++ l).map Prod.fst).Nodup →
      l.foldl (fun d e => set e.1 e.2 d) d = d ++ l := by
    intro l
    induction l with
    | nil =>
      intro d _
      exact (List.append_nil d).symm
    | cons e l ih =>
      intro d hd
      have hk : e.1 ∉ d.map Prod.fst := by
        rw [List.map_append, List.map_cons] at hd
        intro hmem
        exact (List.nodup_append.mp hd).2.2 _ hmem _ List.mem_cons_self rfl
      rw [List.foldl_cons, set_of_not_mem hk, ih]
      · rw [List.append_assoc]
        rfl
      · rw [List.append_assoc]
        exact hd
  exact hfold l [] h

end Dict

/-! ### Values -/

inductive Value
  | none
  | bool (b : Bool)
  | num (q : ℚ)
  | str (s : String)
  | list (elements : List Value)
  | dict (items : List (String × Value))
  deriving Repr

namespace Value

mutual

/-- Two values are the same, also in the order of keys. -/
def beq : Value → Value → Bool
  | none, none => true
  | bool a, bool b => a = b
  | num p, num q => p = q
  | str a, str b => a = b
  | list l, list m => beqList l m
  | dict d, dict e => beqItems d e
  | _, _ => false

def beqList : List Value → List Value → Bool
  | [], [] => true
  | v :: l, w :: m => beq v w && beqList l m
  | _, _ => false

def beqItems : List (String × Value) → List (String × Value) → Bool
  | [], [] => true
  | (k, v) :: d, (k', w) :: e => (k = k') && beq v w && beqItems d e
  | _, _ => false

end

mutual

theorem beq_iff : ∀ v w : Value, beq v w = true ↔ v = w
  | none, w => by cases w <;> simp [beq]
  | bool _, w => by cases w <;> simp [beq]
  | num _, w => by cases w <;> simp [beq]
  | str _, w => by cases w <;> simp [beq]
  | list l, w => by
    cases w with
    | list m => simpa [beq] using beqList_iff l m
    | _ => simp [beq]
  | dict d, w => by
    cases w with
    | dict e => simpa [beq] using beqItems_iff d e
    | _ => simp [beq]

theorem beqList_iff : ∀ l m : List Value, beqList l m = true ↔ l = m
  | [], m => by cases m <;> simp [beqList]
  | v :: l, m => by
    cases m with
    | nil => simp [beqList]
    | cons w m => simp [beqList, beq_iff v w, beqList_iff l m]

theorem beqItems_iff : ∀ d e : List (String × Value), beqItems d e = true ↔ d = e
  | [], e => by cases e <;> simp [beqItems]
  | (k, v) :: d, e => by
    cases e with
    | nil => simp [beqItems]
    | cons f e =>
      obtain ⟨k', w⟩ := f
      simp [beqItems, beq_iff v w, beqItems_iff d e, and_assoc]

end

instance : DecidableEq Value := fun v w => decidable_of_iff _ (beq_iff v w)

/-! Dicts are equal when they have the same values under the same keys, and `True` equals `1`. -/

/-- Put a key where it belongs among sorted keys. -/
def insertKey (k : String) (v : Value) : List (String × Value) → List (String × Value)
  | [] => [(k, v)]
  | (k', v') :: d =>
    if k' = k then (k, v) :: d
    else if k < k' then (k, v) :: (k', v') :: d
    else (k', v') :: insertKey k v d

mutual

/-- The form that equal values share. -/
def canon : Value → Value
  | bool b => num (if b then 1 else 0)
  | list l => list (canonList l)
  | dict d => dict (canonItems d)
  | none => none
  | num q => num q
  | str s => str s

def canonList : List Value → List Value
  | [] => []
  | v :: l => canon v :: canonList l

def canonItems : List (String × Value) → List (String × Value)
  | [] => []
  | (k, v) :: d => insertKey k (canon v) (canonItems d)

end

/-- `v == w`. -/
def Eqv (v w : Value) : Prop := canon v = canon w

instance (v w : Value) : Decidable (Eqv v w) := inferInstanceAs (Decidable (canon v = canon w))

theorem Eqv.refl (v : Value) : Eqv v v := rfl

theorem Eqv.symm {v w : Value} (h : Eqv v w) : Eqv w v := Eq.symm h

theorem Eqv.trans {u v w : Value} (h : Eqv u v) (h' : Eqv v w) : Eqv u w := Eq.trans h h'

theorem lookup_insertKey_self (k : String) (v : Value) (d : List (String × Value)) :
    (insertKey k v d).lookup k = some v := by
  induction d with
  | nil => exact Dict.lookup_cons_self k v []
  | cons e d ih =>
    obtain ⟨k', v'⟩ := e
    unfold insertKey
    split_ifs with h hlt
    · exact Dict.lookup_cons_self k v d
    · exact Dict.lookup_cons_self k v _
    · rw [Dict.lookup_cons_ne (Ne.symm h), ih]

theorem lookup_insertKey_ne {k k' : String} (h : k' ≠ k) (v : Value)
    (d : List (String × Value)) : (insertKey k v d).lookup k' = d.lookup k' := by
  induction d with
  | nil => exact Dict.lookup_cons_ne h v []
  | cons e d ih =>
    obtain ⟨k₀, v₀⟩ := e
    unfold insertKey
    split_ifs with hk hlt
    · subst hk
      rw [Dict.lookup_cons_ne h, Dict.lookup_cons_ne h]
    · rw [Dict.lookup_cons_ne h]
    · by_cases h₀ : k' = k₀
      · subst h₀
        rw [Dict.lookup_cons_self, Dict.lookup_cons_self]
      · rw [Dict.lookup_cons_ne h₀, Dict.lookup_cons_ne h₀, ih]

theorem lookup_canonItems (k : String) (d : List (String × Value)) :
    (canonItems d).lookup k = (d.lookup k).map canon := by
  induction d with
  | nil => simp [canonItems]
  | cons e d ih =>
    obtain ⟨k', v⟩ := e
    rw [canonItems]
    by_cases hk : k = k'
    · subst hk
      rw [lookup_insertKey_self, Dict.lookup_cons_self, Option.map_some]
    · rw [lookup_insertKey_ne hk, Dict.lookup_cons_ne hk, ih]

/-- The keys go up. -/
def Sorted (d : List (String × Value)) : Prop := d.Pairwise (fun e f => e.1 < f.1)

theorem Sorted.insertKey {d : List (String × Value)} (h : Sorted d) (k : String) (v : Value) :
    Sorted (insertKey k v d) := by
  have hmem : ∀ (d : List (String × Value)), ∀ e ∈ Value.insertKey k v d, e.1 = k ∨ e ∈ d := by
    intro d
    induction d with
    | nil =>
      intro e he
      rw [List.mem_singleton.mp he]
      exact Or.inl rfl
    | cons f d ih =>
      obtain ⟨k', v'⟩ := f
      intro e he
      unfold Value.insertKey at he
      split_ifs at he with hk hlt
      · rcases List.mem_cons.mp he with rfl | he
        · exact Or.inl rfl
        · exact Or.inr (List.mem_cons_of_mem _ he)
      · rcases List.mem_cons.mp he with rfl | he
        · exact Or.inl rfl
        · exact Or.inr he
      · rcases List.mem_cons.mp he with rfl | he
        · exact Or.inr List.mem_cons_self
        · exact (ih e he).imp id (List.mem_cons_of_mem _)
  induction d with
  | nil => exact List.pairwise_singleton _ _
  | cons f d ih =>
    obtain ⟨k', v'⟩ := f
    obtain ⟨hfirst, hrest⟩ := List.pairwise_cons.mp h
    unfold Value.insertKey
    split_ifs with hk hlt
    · subst hk
      exact List.pairwise_cons.mpr ⟨hfirst, hrest⟩
    · refine List.pairwise_cons.mpr ⟨?_, h⟩
      intro e he
      rcases List.mem_cons.mp he with rfl | he
      · exact hlt
      · exact lt_trans hlt (hfirst e he)
    · refine List.pairwise_cons.mpr ⟨?_, ih hrest⟩
      intro e he
      rcases hmem d e he with heq | he
      · rw [heq]
        exact lt_of_le_of_ne (not_lt.mp hlt) hk
      · exact hfirst e he

theorem sorted_canonItems (d : List (String × Value)) : Sorted (canonItems d) := by
  induction d with
  | nil =>
    rw [canonItems]
    exact List.Pairwise.nil
  | cons e d ih =>
    obtain ⟨k, v⟩ := e
    rw [canonItems]
    exact ih.insertKey k (canon v)

/-- Sorted dicts that agree on every key are the same. -/
theorem Sorted.ext {d e : List (String × Value)} (hd : Sorted d) (he : Sorted e)
    (h : ∀ k, d.lookup k = e.lookup k) : d = e := by
  induction d generalizing e with
  | nil =>
    cases e with
    | nil => rfl
    | cons f e =>
      have hnone := h f.1
      rw [Dict.lookup_cons_self] at hnone
      cases hnone
  | cons f d ih =>
    obtain ⟨k, v⟩ := f
    obtain ⟨hfirst, hrest⟩ := List.pairwise_cons.mp hd
    cases e with
    | nil =>
      have hnone := h k
      rw [Dict.lookup_cons_self] at hnone
      cases hnone
    | cons f' e =>
      obtain ⟨k', v'⟩ := f'
      obtain ⟨hfirst', hrest'⟩ := List.pairwise_cons.mp he
      -- the least keys agree
      have hkey : k = k' := by
        rcases lt_trichotomy k k' with hlt | heq | hgt
        · have hk := h k
          rw [Dict.lookup_cons_self, Dict.lookup_cons_ne hlt.ne] at hk
          have hmem := Dict.mem_of_lookup hk.symm
          exact absurd (hfirst' _ hmem) (not_lt.mpr hlt.le)
        · exact heq
        · have hk := h k'
          rw [Dict.lookup_cons_self, Dict.lookup_cons_ne hgt.ne] at hk
          have hmem := Dict.mem_of_lookup hk
          exact absurd (hfirst _ hmem) (not_lt.mpr hgt.le)
      subst hkey
      have hval := h k
      rw [Dict.lookup_cons_self, Dict.lookup_cons_self] at hval
      cases hval
      rw [ih hrest hrest']
      intro m
      by_cases hm : m = k
      · subst hm
        have hnone : ∀ {l : List (String × Value)}, (∀ x ∈ l, m < x.1) →
            l.lookup m = Option.none := by
          intro l hl
          rw [Dict.lookup_eq_none]
          intro hmem
          obtain ⟨x, hx, heq⟩ := List.mem_map.mp hmem
          exact absurd (hl x hx) (by rw [heq]; exact lt_irrefl m)
        rw [hnone hfirst, hnone hfirst']
      · have hm' := h m
        rwa [Dict.lookup_cons_ne hm, Dict.lookup_cons_ne hm] at hm'

/-- Dicts are equal exactly if they have equal values under the same keys. -/
theorem eqv_dict {d e : List (String × Value)} : Eqv (dict d) (dict e) ↔
    ∀ k, (d.lookup k).map canon = (e.lookup k).map canon := by
  unfold Eqv
  rw [canon, canon, dict.injEq]
  constructor
  · intro h k
    rw [← lookup_canonItems, h, lookup_canonItems]
  · intro h
    refine (sorted_canonItems d).ext (sorted_canonItems e) ?_
    intro k
    rw [lookup_canonItems, lookup_canonItems, h]

theorem eqv_of_perm {d e : List (String × Value)} (h : d.Perm e) (hd : (d.map Prod.fst).Nodup) :
    Eqv (dict d) (dict e) := by
  rw [eqv_dict]
  intro k
  rw [Dict.lookup_perm h hd]

theorem eqv_cons {k : String} {v w : Value} {d e : List (String × Value)} (h : Eqv v w)
    (hrest : Eqv (dict d) (dict e)) : Eqv (dict ((k, v) :: d)) (dict ((k, w) :: e)) := by
  rw [eqv_dict] at hrest ⊢
  intro m
  by_cases hm : m = k
  · subst hm
    rw [Dict.lookup_cons_self, Dict.lookup_cons_self]
    exact congrArg some h
  · rw [Dict.lookup_cons_ne hm, Dict.lookup_cons_ne hm, hrest]

theorem eqv_list_cons {v w : Value} {l m : List Value} (h : Eqv v w)
    (hl : Eqv (list l) (list m)) : Eqv (list (v :: l)) (list (w :: m)) := by
  unfold Eqv at *
  rw [canon, canon, list.injEq] at hl ⊢
  rw [canonList, canonList, h, hl]

theorem canonItems_eq_nil {d : List (String × Value)} : canonItems d = [] ↔ d = [] := by
  cases d with
  | nil => simp [canonItems]
  | cons e d =>
    refine ⟨fun h => ?_, fun h => (by cases h)⟩
    have hlookup := lookup_canonItems e.1 (e :: d)
    rw [h, Dict.lookup_cons_self] at hlookup
    cases hlookup

/-- A proof about values goes through the elements of lists and the values of dicts. -/
theorem all {P : Value → Prop} (hnone : P none) (hbool : ∀ b, P (bool b)) (hnum : ∀ q, P (num q))
    (hstr : ∀ s, P (str s)) (hlist : ∀ l, (∀ v ∈ l, P v) → P (list l))
    (hdict : ∀ d : List (String × Value), (∀ e ∈ d, P e.2) → P (dict d)) (v : Value) : P v :=
  @Value.rec P (fun l => ∀ v ∈ l, P v) (fun d => ∀ e ∈ d, P e.2) (fun e => P e.2)
    hnone hbool hnum hstr hlist hdict
    (fun _ h => absurd h List.not_mem_nil)
    (fun _ _ hhead htail => List.forall_mem_cons.mpr ⟨hhead, htail⟩)
    (fun _ h => absurd h List.not_mem_nil)
    (fun _ _ hhead htail => List.forall_mem_cons.mpr ⟨hhead, htail⟩)
    (fun _ _ h => h) v

/-! ### Looking into values -/

/-- The value counts as true. -/
def truthy : Value → Bool
  | none => false
  | bool b => b
  | num q => q ≠ 0
  | str s => s ≠ ""
  | list l => !l.isEmpty
  | dict d => !d.isEmpty

theorem truthy_canon (v : Value) : v.canon.truthy = v.truthy := by
  cases v with
  | bool b => cases b <;> simp [canon, truthy]
  | list l => cases l <;> simp [canon, canonList, truthy]
  | dict d =>
    rw [canon, truthy, truthy]
    cases d with
    | nil => simp [canonItems]
    | cons e d =>
      have hne : canonItems (e :: d) ≠ [] := fun h => by cases canonItems_eq_nil.mp h
      cases hcase : canonItems (e :: d) with
      | nil => exact absurd hcase hne
      | cons f l => rfl
  | none => rw [canon]
  | num q => rw [canon]
  | str s => rw [canon]

/-- Equal values count as true alike. -/
theorem Eqv.truthy {v w : Value} (h : Eqv v w) : v.truthy = w.truthy := by
  calc v.truthy = v.canon.truthy := (truthy_canon v).symm
    _ = w.canon.truthy := by rw [h]
    _ = w.truthy := truthy_canon w

/-! Values that only differ in the order of keys. -/

/-- The least congruence that lets the keys of dicts change places. -/
inductive Same : Value → Value → Prop
  | refl (v : Value) : Same v v
  | trans {u v w : Value} : Same u v → Same v w → Same u w
  | perm {d e : List (String × Value)} : (d.map Prod.fst).Nodup → d.Perm e →
      Same (dict d) (dict e)
  | field {k : String} {v w : Value} {d e : List (String × Value)} : Same v w →
      Same (dict d) (dict e) → Same (dict ((k, v) :: d)) (dict ((k, w) :: e))
  | element {v w : Value} {l m : List Value} : Same v w → Same (list l) (list m) →
      Same (list (v :: l)) (list (w :: m))

namespace Same

/-- For Python they are equal. -/
theorem eqv {v w : Value} (h : Same v w) : Eqv v w := by
  induction h with
  | refl v => exact Eqv.refl v
  | trans _ _ ih ih' => exact ih.trans ih'
  | perm hd h => exact eqv_of_perm h hd
  | field _ _ ih ih' => exact eqv_cons ih ih'
  | element _ _ ih ih' => exact eqv_list_cons ih ih'

theorem truthy {v w : Value} (h : Same v w) : v.truthy = w.truthy := h.eqv.truthy

/-- What is no list and no dict has no order. -/
theorem str {v : Value} {s : String} (h : Same v (.str s)) : v = .str s := by
  have hall : ∀ {v w : Value}, Same v w → w = .str s → v = .str s := by
    intro v w h
    induction h with
    | refl v => exact fun h => h
    | trans _ _ ih ih' => exact fun h => ih (ih' h)
    | _ => intro h; cases h
  exact hall h rfl

theorem dict {v : Value} {e : List (String × Value)} (h : Same v (.dict e)) : ∃ d, v = .dict d := by
  have hall : ∀ {v w : Value}, Same v w → (∃ e, w = .dict e) → ∃ d, v = .dict d := by
    intro v w h
    induction h with
    | refl v => exact fun h => h
    | trans _ _ ih ih' => exact fun h => ih (ih' h)
    | @perm d e _ _ => exact fun _ => ⟨d, rfl⟩
    | @field k v w d e _ _ _ _ => exact fun _ => ⟨(k, v) :: d, rfl⟩
    | element => rintro ⟨e, h⟩; cases h
  exact hall h ⟨e, rfl⟩

/-- A dict with one key has nothing to reorder. -/
theorem single {v : Value} {k : String} {w : Value} (h : Same v (.dict [(k, w)])) :
    ∃ u, v = .dict [(k, u)] ∧ Same u w := by
  have hall : ∀ {v x : Value}, Same v x → ∀ w, x = .dict [(k, w)] →
      ∃ u, v = .dict [(k, u)] ∧ Same u w := by
    intro v x h
    induction h with
    | refl v => exact fun w h => ⟨w, h, Same.refl w⟩
    | trans _ _ ih ih' =>
      intro w h
      obtain ⟨u', hmid, hu'⟩ := ih' w h
      obtain ⟨u, hv, hu⟩ := ih u' hmid
      exact ⟨u, hv, hu.trans hu'⟩
    | perm _ h =>
      intro w heq
      cases heq
      exact ⟨w, by rw [List.perm_singleton.mp h], Same.refl w⟩
    | @field k' u u' d e hfield hrest _ _ =>
      intro w heq
      cases heq
      have hnil : d = [] := by
        have hfalsy : (Value.dict d).truthy = (Value.dict []).truthy := hrest.truthy
        cases d with
        | nil => rfl
        | cons f d => cases hfalsy
      exact ⟨u, by rw [hnil], hfield⟩
    | element => intro w heq; cases heq
  exact hall h w rfl

/-- Assigning the same value keeps dicts the same. -/
theorem set {d e : List (String × Value)} (h : Same (.dict d) (.dict e)) (k : String) (a : Value) :
    Same (.dict (Dict.set k a d)) (.dict (Dict.set k a e)) := by
  have hall : ∀ {v w : Value}, Same v w → ∀ d e, v = .dict d → w = .dict e →
      Same (.dict (Dict.set k a d)) (.dict (Dict.set k a e)) := by
    intro v w h
    induction h with
    | refl v =>
      rintro d e rfl heq
      cases heq
      exact Same.refl _
    | trans _ hright ih ih' =>
      rintro d e rfl rfl
      obtain ⟨m, rfl⟩ := hright.dict
      exact (ih d m rfl rfl).trans (ih' m e rfl rfl)
    | @perm d' e' hd h =>
      intro d e hv hw
      cases hv
      cases hw
      have he := (h.map Prod.fst).nodup_iff.mp hd
      have hrest : (Dict.del k d').Perm (Dict.del k e') := h.filter _
      refine Same.perm (Dict.nodup_set hd k a) ?_
      calc (Dict.set k a d').Perm ((k, a) :: Dict.del k d') := Dict.set_perm hd k a
        List.Perm _ ((k, a) :: Dict.del k e') := hrest.cons (k, a)
        List.Perm _ (Dict.set k a e') := (Dict.set_perm he k a).symm
    | @field k' u u' d' e' hfield hrest _ ih' =>
      intro d e hv hw
      cases hv
      cases hw
      unfold Dict.set
      split
      · exact Same.field (Same.refl a) hrest
      · exact Same.field hfield (ih' d' e' rfl rfl)
    | element => intro d e hv; cases hv
  exact hall h d e rfl rfl

end Same

/-- `v[k]`. -/
def item (k : String) : Value → Except Exc Value
  | dict d => match d.lookup k with
    | some v => .ok v
    | .none => .error (.keyError k)
  | _ => .error .typeError

/-- `v.get(k, default)`. -/
def get (v : Value) (k : String) (default : Value) : Except Exc Value :=
  match v with
  | dict d => .ok ((d.lookup k).getD default)
  | _ => .error .attributeError

/-- `v.get(k)` with any key; lists and dicts cannot be hashed. -/
def getKey (v : Value) : Value → Except Exc Value
  | str k => v.get k none
  | list _ | dict _ => v.get "" none >>= fun _ => .error .typeError
  | _ => v.get "" none >>= fun _ => .ok none

/-- `v.items()`. -/
def items : Value → Except Exc (List (String × Value))
  | dict d => .ok d
  | _ => .error .attributeError

/-- What `for _ in v` goes through. -/
def iter : Value → Except Exc (List Value)
  | list l => .ok l
  | dict d => .ok (d.map (fun e => str e.1))
  | str s => .ok (s.toList.map (fun c => str (String.singleton c)))
  | _ => .error .typeError

/-- `v in w`. -/
def isIn (v : Value) : Value → Except Exc Bool
  | list l => .ok (l.any (fun w => Eqv v w))
  | dict d => match v with
    | str k => .ok (d.lookup k).isSome
    | list _ | dict _ => .error .typeError
    | _ => .ok false
  | str s => match v with
    | str t => .ok (t.toList <:+: s.toList)
    | _ => .error .typeError
  | _ => .error .typeError

/-- `v[k] = w`. -/
def setItem (v : Value) (k : String) (w : Value) : Except Exc Value :=
  match v with
  | dict d => .ok (dict (Dict.set k w d))
  | _ => .error .typeError

/-- `del v[k]` of a key that is there. -/
def delItem (v : Value) (k : String) : Except Exc Value :=
  match v with
  | dict d => .ok (dict (Dict.del k d))
  | _ => .error .typeError

/-- `v + [w]` in place. -/
def append (v w : Value) : Except Exc Value :=
  match v with
  | list l => .ok (list (l ++ [w]))
  | _ => .error .attributeError

/-- `s.split('.')`. -/
def splitDots : Value → Except Exc (List String)
  | str s => .ok ((s.toList.splitOn '.').map String.ofList)
  | _ => .error .attributeError

/-! ### Paths -/

/-- The value at a path through dicts. -/
def at? : Value → List String → Option Value
  | v, [] => some v
  | dict d, k :: rest => (d.lookup k).bind (fun u => u.at? rest)
  | _, _ :: _ => .none

/-- Something on the way of the path is no dict. -/
def Blocked : Value → List String → Prop
  | _, [] => False
  | dict d, k :: rest => ∃ u, d.lookup k = some u ∧ u.Blocked rest
  | _, _ :: _ => True

/-- A dict is taken for what is missing, and nothing is in it. -/
theorem foldlM_get_empty (path : List String) :
    path.foldlM (fun v k => v.get k (dict [])) (dict []) = .ok (dict []) := by
  induction path with
  | nil => rfl
  | cons k rest ih =>
    rw [List.foldlM_cons]
    exact ih

theorem foldlM_get (path : List String) (v : Value) :
    (¬v.Blocked path → path.foldlM (fun v k => v.get k (dict [])) v =
      .ok ((v.at? path).getD (dict []))) ∧
    (v.Blocked path → path.foldlM (fun v k => v.get k (dict [])) v = .error .attributeError) := by
  induction path generalizing v with
  | nil =>
    refine ⟨fun _ => ?_, fun hblocked => ?_⟩
    · rw [at?]
      rfl
    · rw [Blocked] at hblocked
      exact hblocked.elim
  | cons k rest ih =>
    cases v with
    | dict d =>
      rw [List.foldlM_cons, Blocked, at?]
      rcases hlookup : d.lookup k with _ | u
      · have hget : get (dict d) k (dict []) = .ok (dict []) := by
          rw [get, hlookup]
          rfl
        rw [hget]
        refine ⟨fun _ => foldlM_get_empty rest, ?_⟩
        rintro ⟨u, hu, -⟩
        cases hu
      · have hget : get (dict d) k (dict []) = .ok u := by
          rw [get, hlookup]
          rfl
        rw [hget]
        refine ⟨fun hfree => (ih u).1 (fun hb => hfree ⟨u, rfl, hb⟩), ?_⟩
        rintro ⟨w, hw, hb⟩
        cases hw
        exact (ih u).2 hb
    | _ =>
      refine ⟨fun hfree => ?_, fun _ => rfl⟩
      rw [Blocked] at hfree
      · exact absurd trivial hfree
      · intro d hd
        cases hd

end Value

/-! ### Loops -/
section Loops

variable {ε α β : Type}

/-- What the turns of a loop give, in their order. -/
def gather (f : α → Except ε (List β)) : List α → Except ε (List β)
  | [] => .ok []
  | a :: l => do return (← f a) ++ (← gather f l)

theorem mem_gather {f : α → Except ε (List β)} {l : List α} {r : List β} (h : gather f l = .ok r)
    {b : β} : b ∈ r ↔ ∃ a ∈ l, ∃ q, f a = .ok q ∧ b ∈ q := by
  induction l generalizing r with
  | nil =>
    cases h
    simp
  | cons a l ih =>
    simp only [gather] at h
    cases ha : f a with
    | error e =>
      rw [ha] at h
      cases h
    | ok q =>
      cases hl : gather f l with
      | error e =>
        rw [ha, hl] at h
        cases h
      | ok q' =>
        rw [ha, hl] at h
        cases h
        rw [List.mem_append, ih hl]
        constructor
        · rintro (hb | ⟨a', ha', hb⟩)
          · exact ⟨a, List.mem_cons_self, q, ha, hb⟩
          · exact ⟨a', List.mem_cons_of_mem a ha', hb⟩
        · rintro ⟨a', ha', q'', hq, hb⟩
          rcases List.mem_cons.mp ha' with rfl | ha'
          · rw [ha] at hq
            cases hq
            exact Or.inl hb
          · exact Or.inr ⟨a', ha', q'', hq, hb⟩

/-- What every turn keeps holds after the loop. -/
theorem foldlM_invariant {f : β → α → Except ε β} {P : β → Prop} {l : List α} {b r : β}
    (h : l.foldlM f b = .ok r) (hb : P b)
    (hf : ∀ a ∈ l, ∀ b b', P b → f b a = .ok b' → P b') : P r := by
  induction l generalizing b with
  | nil =>
    cases h
    exact hb
  | cons a l ih =>
    rw [List.foldlM_cons] at h
    cases ha : f b a with
    | error e =>
      rw [ha] at h
      cases h
    | ok b' =>
      rw [ha] at h
      exact ih h (hf a List.mem_cons_self b b' hb ha)
        (fun a' ha' => hf a' (List.mem_cons_of_mem a ha'))

/-- What `all` makes of requirements, one after the other: it stops at the first that raises or
does not hold. -/
inductive Judges (stuck held : α → Prop) : List α → Except ε Bool → Prop
  | done : Judges stuck held [] (.ok true)
  | stuck {a : α} {l : List α} {e : ε} : stuck a → Judges stuck held (a :: l) (.error e)
  | refused {a : α} {l : List α} : ¬stuck a → ¬held a → Judges stuck held (a :: l) (.ok false)
  | next {a : α} {l : List α} {r : Except ε Bool} : ¬stuck a → held a → Judges stuck held l r →
    Judges stuck held (a :: l) r

section Judging

variable {stuck held met wrong : α → Prop} {l l' : List α} {r : Except ε Bool}

theorem Judges.single {a : α} {b : Bool} (hfree : ¬stuck a) (hb : b = true ↔ held a) :
    Judges stuck held [a] (.ok b : Except ε Bool) := by
  cases b with
  | true => exact .next hfree (hb.mp rfl) .done
  | false => exact .refused hfree (fun ha => absurd (hb.mpr ha) Bool.false_ne_true)

theorem Judges.append (h : Judges stuck held l (.ok true : Except ε Bool))
    (h' : Judges stuck held l' r) : Judges stuck held (l ++ l') r := by
  induction l with
  | nil => exact h'
  | cons a l ih =>
    cases h with
    | next hfree hheld h => exact .next hfree hheld (ih h)

/-- What comes after the first requirement that stops the loop does not matter. -/
theorem Judges.stop (h : Judges stuck held l r) (hr : r ≠ .ok true) (l' : List α) :
    Judges stuck held (l ++ l') r := by
  induction h with
  | done => exact absurd rfl hr
  | stuck hstuck => exact .stuck hstuck
  | refused hfree hheld => exact .refused hfree hheld
  | next hfree hheld _ ih => exact .next hfree hheld (ih hr)

theorem Judges.allM {f : β → Except ε Bool} {m : List β}
    (h : List.Forall₂ (fun a b => Judges stuck held [a] (f b)) l m) :
    Judges stuck held l (m.allM f) := by
  induction h with
  | nil => exact .done
  | @cons a b l m hab _ ih =>
    rw [List.allM]
    rcases hf : f b with e | _ | _
    · rw [hf] at hab
      exact hab.stop (by simp) l
    · rw [hf] at hab
      exact hab.stop (by simp) l
    · rw [hf] at hab
      exact hab.append ih

theorem Judges.of_true (h : Judges stuck held l (.ok true : Except ε Bool)) :
    ∀ a ∈ l, ¬stuck a ∧ held a := by
  induction l with
  | nil => exact fun a ha => absurd ha List.not_mem_nil
  | cons b l ih =>
    cases h with
    | next hfree hheld h => exact List.forall_mem_cons.mpr ⟨⟨hfree, hheld⟩, ih h⟩

/-- The requirement that stops the loop. -/
theorem Judges.stopped (h : Judges stuck held l r) (hr : r ≠ .ok true) :
    ∃ before a after, l = before ++ a :: after ∧ (∀ b ∈ before, ¬stuck b ∧ held b) ∧
      (stuck a ∧ (∃ e, r = .error e) ∨ ¬stuck a ∧ ¬held a ∧ r = .ok false) := by
  induction h with
  | done => exact absurd rfl hr
  | @stuck a l e hstuck =>
    exact ⟨[], a, l, rfl, fun b hb => absurd hb List.not_mem_nil, .inl ⟨hstuck, e, rfl⟩⟩
  | @refused a l hfree hheld =>
    exact ⟨[], a, l, rfl, fun b hb => absurd hb List.not_mem_nil, .inr ⟨hfree, hheld, rfl⟩⟩
  | @next b l r hfree hheld _ ih =>
    obtain ⟨before, a, after, hsplit, hbefore, hstop⟩ := ih hr
    refine ⟨b :: before, a, after, ?_, List.forall_mem_cons.mpr ⟨⟨hfree, hheld⟩, hbefore⟩, hstop⟩
    rw [hsplit, List.cons_append]

/-- The loop gives a result if and only if one that raises is only after one that is refused. -/
theorem Judges.returns_iff (h : Judges stuck held l r) :
    (∃ b, r = .ok b) ↔
      ∀ before a after, l = before ++ a :: after → stuck a → ∃ b ∈ before, ¬held b := by
  constructor
  · rintro ⟨b, rfl⟩ before a after hsplit hstuck
    cases b with
    | true =>
      have ha : a ∈ l := by
        rw [hsplit]
        exact List.mem_append_right before List.mem_cons_self
      exact absurd hstuck (h.of_true a ha).1
    | false =>
      obtain ⟨before', a', after', hsplit', hbefore', hstop⟩ := h.stopped (by simp)
      obtain ⟨-, e, he⟩ | ⟨hfree, hnot, -⟩ := hstop
      · cases he
      rw [hsplit] at hsplit'
      -- the one that is refused comes first
      rcases List.append_eq_append_iff.mp hsplit' with ⟨mid, hmid, hrest⟩ | ⟨mid, hmid, hrest⟩
      · rcases mid with _ | ⟨x, mid⟩
        · cases hrest
          exact absurd hstuck hfree
        · cases hrest
          exact absurd hstuck (hbefore' a (by rw [hmid]; simp)).1
      · rcases mid with _ | ⟨x, mid⟩
        · cases hrest
          exact absurd hstuck hfree
        · cases hrest
          exact ⟨a', by rw [hmid]; simp, hnot⟩
  · intro hall
    rcases r with e | b
    · obtain ⟨before, a, after, hsplit, hbefore, hstop⟩ := h.stopped (by simp)
      obtain ⟨hstuck, -⟩ | ⟨-, -, hr⟩ := hstop
      · obtain ⟨b, hb, hnot⟩ := hall before a after hsplit hstuck
        exact absurd (hbefore b hb).2 hnot
      · cases hr
    · exact ⟨b, rfl⟩

/-- Requirements of which some are judged the wrong way are judged right together if and only if
another one fails, or none is judged wrong, or some are wrong in either direction. -/
theorem forall_wrong_iff : ((∀ a ∈ l, (met a ↔ ¬wrong a)) ↔ ∀ a ∈ l, met a) ↔
    (∃ a ∈ l, ¬wrong a ∧ ¬met a) ∨ (∀ a ∈ l, ¬wrong a) ∨
      ((∃ a ∈ l, wrong a ∧ met a) ∧ ∃ a ∈ l, wrong a ∧ ¬met a) := by
  constructor
  · intro h
    by_cases hfails : ∃ a ∈ l, ¬wrong a ∧ ¬met a
    · exact .inl hfails
    have hothers : ∀ a ∈ l, ¬wrong a → met a := fun a ha hw =>
      by_contra (fun hm => hfails ⟨a, ha, hw, hm⟩)
    by_cases hup : ∃ a ∈ l, wrong a ∧ met a
    · obtain ⟨a, ha, hw, hm⟩ := hup
      by_cases hdown : ∃ a ∈ l, wrong a ∧ ¬met a
      · exact .inr (.inr ⟨⟨a, ha, hw, hm⟩, hdown⟩)
      · -- all are met, but this one is refused
        have hall : ∀ b ∈ l, met b := by
          intro b hb
          by_contra hm'
          by_cases hw' : wrong b
          · exact hdown ⟨b, hb, hw', hm'⟩
          · exact hm' (hothers b hb hw')
        exact absurd hw ((h.mpr hall a ha).mp hm)
    · -- all are accepted, so that all are met
      have hall : ∀ b ∈ l, (met b ↔ ¬wrong b) := fun b hb =>
        ⟨fun hm hw => hup ⟨b, hb, hw, hm⟩, hothers b hb⟩
      exact .inr (.inl (fun b hb => (hall b hb).mp (h.mp hall b hb)))
  · rintro (⟨a, ha, hw, hm⟩ | hnone | ⟨⟨a, ha, hw, hm⟩, b, hb, hw', hm'⟩)
    · exact ⟨fun h => absurd ((h a ha).mpr hw) hm, fun h => absurd (h a ha) hm⟩
    · exact ⟨fun h a ha => (h a ha).mpr (hnone a ha),
        fun h a ha => ⟨fun _ => hnone a ha, fun _ => h a ha⟩⟩
    · exact ⟨fun h => absurd hw ((h a ha).mp hm), fun h => absurd (h b hb) hm'⟩

/-- When the loop says whether all requirements are met. -/
theorem Judges.agrees_iff (h : Judges stuck (fun a => met a ↔ ¬wrong a) l r) :
    (∃ b, r = .ok b ∧ (b = true ↔ ∀ a ∈ l, met a)) ↔
      (∀ before a after, l = before ++ a :: after → stuck a →
        ∃ b ∈ before, ¬(met b ↔ ¬wrong b)) ∧
      ((∃ a ∈ l, ¬wrong a ∧ ¬met a) ∨ (∀ a ∈ l, ¬wrong a) ∨
        ((∃ a ∈ l, wrong a ∧ met a) ∧ ∃ a ∈ l, wrong a ∧ ¬met a)) := by
  rw [← h.returns_iff, ← forall_wrong_iff]
  have hheld : ∀ b, r = .ok b → (b = true ↔ ∀ a ∈ l, (met a ↔ ¬wrong a)) := by
    rintro b rfl
    cases b with
    | true => exact ⟨fun _ a ha => (h.of_true a ha).2, fun _ => rfl⟩
    | false =>
      obtain ⟨before, a, after, hsplit, -, hstop⟩ := h.stopped (by simp)
      obtain ⟨-, e, he⟩ | ⟨-, hnot, -⟩ := hstop
      · cases he
      refine ⟨fun hb => absurd hb Bool.false_ne_true, fun hall => absurd (hall a ?_) hnot⟩
      rw [hsplit]
      exact List.mem_append_right before List.mem_cons_self
  constructor
  · rintro ⟨b, hb, hiff⟩
    exact ⟨⟨b, hb⟩, (hheld b hb).symm.trans hiff⟩
  · rintro ⟨⟨b, hb⟩, hiff⟩
    exact ⟨b, hb, (hheld b hb).trans hiff⟩

end Judging

/-- What `any` makes of a list that is read off another one, as long as nothing raises. -/
theorem anyM_ok {f : β → Except ε Bool} {P : α → Prop} {l : List α} {m : List β}
    (h : List.Forall₂ (fun a b => ∃ c, f b = .ok c ∧ (c = true ↔ P a)) l m) :
    ∃ c, m.anyM f = .ok c ∧ (c = true ↔ ∃ a ∈ l, P a) := by
  induction h with
  | nil => exact ⟨false, rfl, by simp⟩
  | @cons a b l m hab _ ih =>
    obtain ⟨c, hc, hiff⟩ := hab
    obtain ⟨c', hc', hiff'⟩ := ih
    rw [List.anyM, hc]
    cases c with
    | true => exact ⟨true, rfl, fun _ => ⟨a, List.mem_cons_self, hiff.mp rfl⟩, fun _ => rfl⟩
    | false =>
      refine ⟨c', hc', ?_⟩
      have hnot : ¬P a := fun ha => absurd (hiff.mpr ha) Bool.false_ne_true
      rw [hiff', List.exists_mem_cons_iff]
      exact (or_iff_right hnot).symm

end Loops

end Python
