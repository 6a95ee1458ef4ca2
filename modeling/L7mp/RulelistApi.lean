import L7mp.RulePath
import L7mp.StoreRun
import Mathlib.Data.List.InsertIdx
import Mathlib.Data.Rat.Cast.Order

/-! The REST operations that edit a rulelist. The last component of the URL is a string, which
says where: it is the name of a rule or a position. -/
namespace L7mp
open Aborting Coroutine Js KeyedList

/-- What is handed over as a position: the component of the URL, or an index that was found. -/
inductive Position
  | text (s : String)
  | index (i : ℕ)
  deriving DecidableEq, Repr

namespace Position

/-- The number that it is compared as; `toNumber` is that of a string, if it is not NaN. -/
def number (toNumber : String → Option Number) : Position → Option Number
  | text s => toNumber s
  | index i => some (.finite i)

def shown : Position → String
  | text s => s
  | index i => toString i

/-- The element that `rules[pos]` is. -/
def element (rules : List String) : Position → Option String
  | text s => (Value.arrayIndex s).bind (fun i => rules[i]?)
  | index i => rules[i]?

end Position

/-- `pos < 0 || pos > length`. All comparisons with NaN are false. -/
def beyondEnds (x : Option Number) (length : ℕ) : Bool :=
  x.any (fun x => x.below 0 || x.above length)

/-- Where `splice` starts. NaN counts as zero and a fraction is dropped; a negative number is
counted from the end, and what is beyond an end is the end. -/
def spliceStart (length : ℕ) : Option Number → ℕ
  | none => 0
  | some (.finite q) =>
    let n := q.num.tdiv q.den
    if n < 0 then (length + n).toNat else min n.toNat length
  | some (.infinite negative) => if negative then 0 else length

namespace Store

def setRules (id : ℕ) (rules : List String) (w : Store) : Store :=
  w.modifyRuleList id (fun rl => { rl with rules := rules })

section Api

variable (A : Answers) (toNumber : String → Option Number) (recursive : Bool)

/-- `deleteRuleFromRuleList`, for the rulelist object `rl` as it is. -/
def deleteRuleFromRuleListAt (rl : RuleList) (pos : Position) : Op Store Err := fun w =>
  let x := pos.number toNumber
  if beyondEnds x rl.rules.length then
    (.error (.error ("Cannot delete rule at position " ++ pos.shown ++ " from rulelist")), w)
  else
    seq (if recursive then deleteRuleAt A recursive (pos.element rl.rules) else skip)
      (update (setRules rl.id (rl.rules.eraseIdx (spliceStart rl.rules.length x)))) w

/-- The handler of `deleteRuleFromRuleList`. -/
def apiDeleteRuleFromRuleList (list pos : String) : Op Store Err := fun w =>
  match w.getRuleList list with
  | none => (.error (.error ("No such rule list: " ++ list)), w)
  | some rl =>
    if (Rule.parseInt pos).isSome then
      deleteRuleFromRuleListAt A toNumber recursive rl (.text pos) w
    else match rl.rules.findIdx? (fun n => n = pos) with
      | none => (.error (.error ("No rule " ++ pos ++ " on rulelist " ++ list)), w)
      | some i => deleteRuleFromRuleListAt A toNumber recursive rl (.index i) w

/-- The checks of `addRuleToRuleList`. -/
def admitRuleAt (rl : RuleList) (pos : String) : Except Err Unit :=
  if beyondEnds (toNumber pos) rl.rules.length then
    .error (.error ("Cannot insert rule at position " ++ pos ++ " into rulelist"))
  else .ok ()

/-- `splice`, when the rule has its name. -/
def insertRuleAt (id : ℕ) (pos n : String) (w : Store) : Store :=
  w.modifyRuleList id (fun rl => { rl with
    rules := rl.rules.insertIdx (spliceStart rl.rules.length (toNumber pos)) n })

def addRuleToRuleListAt (rl : RuleList) (rule : RuleArg) (pos : String) : Add Unit := do
  Add.sync (fun w => (admitRuleAt toNumber rl pos, w))
  let n ← addRuleArg A rl.name rule
  Co.modify (insertRuleAt toNumber rl.id pos n)

/-- The handler of `addRuleToRuleList`. -/
def apiAddRuleToRuleList (list : String) (rule : RuleArg) (pos : String) : Add Unit := fun w =>
  match w.getRuleList list with
  | none => .done w (.error (.error ("No such rule list: " ++ list)))
  | some rl => addRuleToRuleListAt A toNumber rl rule pos w

end Api

/-! ### What is asked for -/

/-- The first occurrence of a rule leaves the list. -/
def byName (rules : List String) (n : String) : Option (List String) :=
  if n ∈ rules then some (rules.erase n) else none

/-- The natural number that a position is. -/
def natural? : Option Number → Option ℕ
  | some (.finite q) => if q.den = 1 ∧ 0 ≤ q.num then some q.num.toNat else none
  | _ => none

/-- The element at a position leaves the list, if the position is the index of one. -/
def byPosition (rules : List String) (x : Option Number) : Option (List String) :=
  (natural? x).bind (fun k => if k < rules.length then some (rules.eraseIdx k) else none)

/-- A request returns with new rules in the rulelist, or fails with the store as it was. -/
def LeavesRules (r : Except Err Unit × Store) (w : Store) (id : ℕ) : Option (List String) → Prop
  | some rules => r = (.ok (), w.setRules id rules)
  | none => ∃ e, r = (.error e, w)

/-- The list that the handler makes, if it does not fail. -/
def cut (toNumber : String → Option Number) (rules : List String) (pos : String) :
    Option (List String) :=
  if (Rule.parseInt pos).isSome then
    if beyondEnds (toNumber pos) rules.length then none
    else some (rules.eraseIdx (spliceStart rules.length (toNumber pos)))
  else byName rules pos

variable {A : Answers} {toNumber : String → Option Number} {w : Store} {list : String}
  {rl : RuleList}

/-! ### The handlers -/

theorem getRuleList_modify (hget : w.getRuleList list = some rl) {f : RuleList → RuleList}
    (hf : ∀ x, (f x).name = x.name) :
    (w.modifyRuleList rl.id f).getRuleList list = some (f rl) := by
  have hname (x : RuleList) : (if x.id = rl.id then f x else x).name = x.name := by
    split_ifs
    · exact hf x
    · rfl
  have hkeep : ((fun x => decide (x.name = list)) ∘ fun x => if x.id = rl.id then f x else x) =
      fun x => decide (x.name = list) := by
    funext x
    simp only [Function.comp_apply, hname]
  change (w.rulelists.map (fun x => if x.id = rl.id then f x else x)).find?
    (fun x => x.name = list) = some (f rl)
  rw [List.find?_map, hkeep]
  change Option.map _ (w.getRuleList list) = _
  rw [hget, Option.map_some, if_pos rfl]

theorem getRuleList_setRules (hget : w.getRuleList list = some rl) (rules : List String) :
    (w.setRules rl.id rules).getRuleList list = some { rl with rules := rules } :=
  getRuleList_modify hget (fun _ => rfl)

/-- The outcome says which list is left. -/
theorem leaves_iff (hget : w.getRuleList list = some rl) {r : Except Err Unit × Store}
    {o : Option (List String)} (h : LeavesRules r w rl.id o) (o' : Option (List String)) :
    LeavesRules r w rl.id o' ↔ o = o' := by
  constructor
  · intro h'
    rcases o with _ | rules <;> rcases o' with _ | rules'
    · rfl
    · obtain ⟨e, he⟩ := h
      rw [LeavesRules, he] at h'
      cases (Prod.mk.inj h').1
    · obtain ⟨e, he⟩ := h'
      rw [LeavesRules, he] at h
      cases (Prod.mk.inj h).1
    · rw [LeavesRules] at h h'
      have hstore : w.setRules rl.id rules = w.setRules rl.id rules' :=
        (Prod.mk.inj (h.symm.trans h')).2
      have hlist := getRuleList_setRules hget rules
      rw [hstore, getRuleList_setRules hget rules', Option.some.injEq] at hlist
      exact congrArg (fun rl => some rl.rules) hlist.symm
  · rintro rfl
    exact h

theorem deleteRuleFromRuleListAt_leaves (A : Answers) (toNumber : String → Option Number)
    (rl : RuleList) (pos : Position) (w : Store) :
    LeavesRules (deleteRuleFromRuleListAt A toNumber false rl pos w) w rl.id
      (if beyondEnds (pos.number toNumber) rl.rules.length then none
        else some (rl.rules.eraseIdx (spliceStart rl.rules.length (pos.number toNumber)))) := by
  unfold deleteRuleFromRuleListAt
  dsimp only
  by_cases hout : beyondEnds (pos.number toNumber) rl.rules.length = true
  · rw [if_pos hout, if_pos hout]
    exact ⟨_, rfl⟩
  · rw [if_neg hout, if_neg hout, if_neg Bool.false_ne_true]
    rfl

/-- Up to the length, `splice` takes a natural number as it is. -/
theorem splice_natural (rules : List String) {i : ℕ} (hi : i ≤ rules.length) :
    beyondEnds (some (.finite (i : ℚ))) rules.length = false ∧
      spliceStart rules.length (some (.finite (i : ℚ))) = i := by
  constructor
  · have hlow : ¬((i : ℚ) < 0) := not_lt.mpr (Nat.cast_nonneg i)
    have hhigh : ¬((rules.length : ℚ) < i) := not_lt.mpr (Nat.cast_le.mpr hi)
    simp only [beyondEnds, Option.any_some, Number.below, Number.above, hlow, hhigh, decide_false,
      Bool.or_self]
  · have hnum : ((i : ℚ)).num.tdiv ((i : ℚ)).den = (i : ℤ) := by
      rw [Rat.num_natCast, Rat.den_natCast]
      exact Int.tdiv_one _
    unfold spliceStart
    dsimp only
    rw [hnum, if_neg (by omega), Int.toNat_natCast, Nat.min_eq_left hi]

theorem apiDelete_leaves (hget : w.getRuleList list = some rl) (pos : String) :
    LeavesRules (apiDeleteRuleFromRuleList A toNumber false list pos w) w rl.id
      (cut toNumber rl.rules pos) := by
  unfold apiDeleteRuleFromRuleList cut
  rw [hget]
  dsimp only
  by_cases hint : (Rule.parseInt pos).isSome = true
  · rw [if_pos hint, if_pos hint]
    exact deleteRuleFromRuleListAt_leaves A toNumber rl (.text pos) w
  rw [if_neg hint, if_neg hint]
  unfold byName
  rcases hfind : rl.rules.findIdx? (fun n => decide (n = pos)) with _ | i
  · have hmem : pos ∉ rl.rules := by
      intro hmem
      have hno := List.findIdx?_eq_none_iff.mp hfind pos hmem
      simp at hno
    rw [if_neg hmem]
    exact ⟨_, rfl⟩
  · obtain ⟨hi, hpos, hfirst⟩ := List.findIdx?_eq_some_iff_getElem.mp hfind
    have hmem : pos ∈ rl.rules := of_decide_eq_true hpos ▸ List.getElem_mem hi
    have hidx : rl.rules.idxOf pos = i := by
      obtain ⟨-, hfound⟩ := List.findIdx?_eq_some_iff_findIdx_eq.mp hfind
      rw [← hfound]
      rfl
    obtain ⟨hout, hstart⟩ := splice_natural rl.rules hi.le
    have hleaves := deleteRuleFromRuleListAt_leaves A toNumber rl (.index i) w
    have hcut : (if beyondEnds (Position.number toNumber (.index i)) rl.rules.length then none
        else some (rl.rules.eraseIdx (spliceStart rl.rules.length
          (Position.number toNumber (.index i))))) = some (rl.rules.eraseIdx i) := by
      change (if beyondEnds (some (.finite (i : ℚ))) rl.rules.length then none
        else some (rl.rules.eraseIdx (spliceStart rl.rules.length (some (.finite (i : ℚ)))))) = _
      rw [hstart]
      exact if_neg (by rw [hout]; exact Bool.false_ne_true)
    rw [hcut] at hleaves
    rw [if_pos hmem, List.erase_eq_eraseIdx_of_idxOf hidx]
    exact hleaves

/-! ### Names and positions -/

theorem natural?_eq_some {x : Option Number} {k : ℕ} :
    natural? x = some k ↔ x = some (.finite (k : ℚ)) := by
  constructor
  · intro h
    rcases x with _ | q | negative
    · cases h
    · unfold natural? at h
      dsimp only at h
      split_ifs at h with hint
      have hk : q.num = (k : ℤ) := by
        rw [← Option.some.inj h, Int.toNat_of_nonneg hint.2]
      have hq : q = ((q.num : ℤ) : ℚ) := (Rat.coe_int_num_of_den_eq_one hint.1).symm
      rw [hq, hk, Int.cast_natCast]
    · cases h
  · rintro rfl
    unfold natural?
    dsimp only
    rw [Rat.den_natCast, Rat.num_natCast, if_pos ⟨rfl, Int.natCast_nonneg k⟩, Int.toNat_natCast]

theorem byPosition_eq_some {rules rules' : List String} {x : Option Number} :
    byPosition rules x = some rules' ↔
      ∃ k : ℕ, k < rules.length ∧ x = some (.finite (k : ℚ)) ∧ rules.eraseIdx k = rules' := by
  unfold byPosition
  rw [Option.bind_eq_some_iff]
  constructor
  · rintro ⟨k, hk, hcut⟩
    split_ifs at hcut with hlt
    exact ⟨k, hlt, natural?_eq_some.mp hk, Option.some.inj hcut⟩
  · rintro ⟨k, hlt, hx, rfl⟩
    exact ⟨k, natural?_eq_some.mpr hx, if_pos hlt⟩

/-- A name is taken for one, or for a number that happens to lead to the same. -/
def NameHolds (toNumber : String → Option Number) (rules : List String) (n : String) : Prop :=
  Rule.parseInt n = none ∨
  (n ∈ rules ∧ beyondEnds (toNumber n) rules.length = false ∧
    rules.eraseIdx (spliceStart rules.length (toNumber n)) = rules.erase n) ∨
  (n ∉ rules ∧ beyondEnds (toNumber n) rules.length = true)

theorem cut_eq_byName {rules : List String} (n : String) :
    cut toNumber rules n = byName rules n ↔ NameHolds toNumber rules n := by
  unfold cut byName NameHolds
  rcases hint : Rule.parseInt n with _ | i
  · exact iff_of_true rfl (.inl rfl)
  rw [if_pos (show (some i).isSome = true from rfl)]
  by_cases hmem : n ∈ rules <;> by_cases hout : beyondEnds (toNumber n) rules.length = true <;>
    simp [hmem, hout]

/-- A position is a number, and a natural one unless it is refused. Where it is taken for a name,
it is no index, or the rule of that name is found at it. -/
def PositionHolds (toNumber : String → Option Number) (rules : List String) (pos : String) : Prop :=
  if (Rule.parseInt pos).isSome then
    toNumber pos ≠ none ∧ (beyondEnds (toNumber pos) rules.length = true ∨
      ∃ k : ℕ, k < rules.length ∧ toNumber pos = some (.finite (k : ℚ)))
  else
    (∀ k : ℕ, k < rules.length → toNumber pos = some (.finite (k : ℚ)) →
      pos ∈ rules ∧ rules.erase pos = rules.eraseIdx k) ∧
    (pos ∈ rules → ∃ k : ℕ, k < rules.length ∧ toNumber pos = some (.finite (k : ℚ)))

theorem cut_eq_byPosition {rules : List String} (pos : String) :
    cut toNumber rules pos = byPosition rules (toNumber pos) ↔
      PositionHolds toNumber rules pos := by
  unfold cut PositionHolds
  by_cases hint : (Rule.parseInt pos).isSome = true
  · rw [if_pos hint, if_pos hint]
    by_cases hout : beyondEnds (toNumber pos) rules.length = true
    · rw [if_pos hout]
      have hrefused : byPosition rules (toNumber pos) = none := by
        rw [Option.eq_none_iff_forall_ne_some]
        intro rules' hrules
        obtain ⟨k, hlt, hx, -⟩ := byPosition_eq_some.mp hrules
        rw [hx, (splice_natural rules hlt.le).1] at hout
        exact Bool.false_ne_true hout
      have hnumber : toNumber pos ≠ none := by
        intro hnan
        rw [hnan] at hout
        exact Bool.false_ne_true hout
      exact iff_of_true hrefused.symm ⟨hnumber, .inl hout⟩
    · rw [if_neg hout]
      constructor
      · intro h
        obtain ⟨k, hlt, hx, -⟩ := byPosition_eq_some.mp h.symm
        exact ⟨by rw [hx]; exact Option.some_ne_none _, .inr ⟨k, hlt, hx⟩⟩
      · rintro ⟨-, hno | ⟨k, hlt, hx⟩⟩
        · exact absurd hno hout
        · refine (byPosition_eq_some.mpr ⟨k, hlt, hx, ?_⟩).symm
          rw [hx, (splice_natural rules hlt.le).2]
  · rw [if_neg hint, if_neg hint]
    unfold byName
    by_cases hmem : pos ∈ rules
    · rw [if_pos hmem]
      constructor
      · intro h
        obtain ⟨k, hlt, hx, hcut⟩ := byPosition_eq_some.mp h.symm
        refine ⟨?_, fun _ => ⟨k, hlt, hx⟩⟩
        intro k' hlt' hx'
        refine ⟨hmem, ?_⟩
        have hkk' : k = k' := by
          rw [← natural?_eq_some] at hx hx'
          exact Option.some.inj (hx.symm.trans hx')
        rw [← hkk', hcut]
      · rintro ⟨hsame, hindex⟩
        obtain ⟨k, hlt, hx⟩ := hindex hmem
        exact (byPosition_eq_some.mpr ⟨k, hlt, hx, (hsame k hlt hx).2.symm⟩).symm
    · rw [if_neg hmem]
      constructor
      · intro h
        refine ⟨?_, fun hno => absurd hno hmem⟩
        intro k hlt hx
        have hsome := byPosition_eq_some.mpr ⟨k, hlt, hx, rfl⟩
        rw [← h] at hsome
        cases hsome
      · rintro ⟨hindex, -⟩
        symm
        rw [Option.eq_none_iff_forall_ne_some]
        intro rules' hrules
        obtain ⟨k, hlt, hx, -⟩ := byPosition_eq_some.mp hrules
        exact absurd (hindex k hlt hx).1 hmem

/-! ### Adding -/

theorem apiAdd_eq (hget : w.getRuleList list = some rl) (rule : RuleArg) (pos : String) :
    apiAddRuleToRuleList A toNumber list rule pos w =
      if beyondEnds (toNumber pos) rl.rules.length then
        .done w (.error (.error ("Cannot insert rule at position " ++ pos ++ " into rulelist")))
      else (addRuleArg A rl.name rule w).bind
        (fun n => Co.modify (insertRuleAt toNumber rl.id pos n)) := by
  unfold apiAddRuleToRuleList addRuleToRuleListAt
  rw [hget]
  change Res.bind _ (Res.done w (admitRuleAt toNumber rl pos)) = _
  unfold admitRuleAt
  by_cases hout : beyondEnds (toNumber pos) rl.rules.length = true
  · rw [if_pos hout, if_pos hout]
    rfl
  · rw [if_neg hout, if_neg hout]
    rfl

/-- A rule that is added by its name. -/
theorem apiAdd_named (hget : w.getRuleList list = some rl) (n pos : String)
    (hout : beyondEnds (toNumber pos) rl.rules.length = false) :
    apiAddRuleToRuleList A toNumber list (.named n) pos w =
      .done (insertRuleAt toNumber rl.id pos n w) (.ok ()) := by
  rw [apiAdd_eq hget, if_neg (by rw [hout]; exact Bool.false_ne_true)]
  rfl

theorem getRuleList_insertRuleAt (hget : w.getRuleList list = some rl) (pos n : String) :
    (insertRuleAt toNumber rl.id pos n w).getRuleList list = some { rl with
      rules := rl.rules.insertIdx (spliceStart rl.rules.length (toNumber pos)) n } := by
  exact getRuleList_modify hget (fun _ => rfl)

/-- What is inserted at a natural position is deleted there again if the position is not taken for
a name, or for one that is found there. -/
theorem cut_insert {rules : List String} {pos n : String} {k : ℕ} (hk : k ≤ rules.length)
    (hpos : toNumber pos = some (.finite (k : ℚ))) :
    cut toNumber (rules.insertIdx k n) pos = some rules ↔
      (Rule.parseInt pos).isSome = true ∨
        (pos ∈ rules.insertIdx k n ∧ (rules.insertIdx k n).erase pos = rules) := by
  have hlength : (rules.insertIdx k n).length = rules.length + 1 :=
    List.length_insertIdx_of_le_length hk n
  obtain ⟨hout, hstart⟩ := splice_natural (rules.insertIdx k n) (i := k) (by omega)
  unfold cut byName
  by_cases hint : (Rule.parseInt pos).isSome = true
  · rw [if_pos hint, hpos, if_neg (by rw [hout]; exact Bool.false_ne_true), hstart,
      List.eraseIdx_insertIdx_self]
    exact iff_of_true rfl (.inl hint)
  · rw [if_neg hint]
    by_cases hmem : pos ∈ rules.insertIdx k n
    · rw [if_pos hmem, Option.some.injEq]
      exact ⟨fun h => .inr ⟨hmem, h⟩, fun h => (h.resolve_left hint).2⟩
    · rw [if_neg hmem]
      exact iff_of_false (fun hno => by cases hno)
        (fun h => hmem (h.resolve_left hint).1)

/-- When the REST operations on a rulelist do what is asked for: by name, by position, adding at
the natural numbers up to the length only, and taking back what was added. -/
theorem rulelist_edits_iff (A : Answers) (toNumber : String → Option Number) (w : Store)
    (list : String) (rl : RuleList) (hget : w.getRuleList list = some rl) :
    (∀ n, LeavesRules (apiDeleteRuleFromRuleList A toNumber false list n w) w rl.id
        (byName rl.rules n) ↔ NameHolds toNumber rl.rules n) ∧
    (∀ pos, LeavesRules (apiDeleteRuleFromRuleList A toNumber false list pos w) w rl.id
        (byPosition rl.rules (toNumber pos)) ↔ PositionHolds toNumber rl.rules pos) ∧
    (∀ n pos, ((∃ w', apiAddRuleToRuleList A toNumber list (.named n) pos w = .done w' (.ok ())) ↔
          ∃ k : ℕ, k ≤ rl.rules.length ∧ toNumber pos = some (.finite (k : ℚ))) ↔
        beyondEnds (toNumber pos) rl.rules.length = true ∨
          ∃ k : ℕ, k ≤ rl.rules.length ∧ toNumber pos = some (.finite (k : ℚ))) ∧
    (∀ rule pos, beyondEnds (toNumber pos) rl.rules.length = true →
      ∃ e, apiAddRuleToRuleList A toNumber list rule pos w = .done w (.error e)) ∧
    (∀ n pos, ∀ k : ℕ, k ≤ rl.rules.length → toNumber pos = some (.finite (k : ℚ)) →
      ∃ w', apiAddRuleToRuleList A toNumber list (.named n) pos w = .done w' (.ok ()) ∧
        w'.getRuleList list = some { rl with rules := rl.rules.insertIdx k n } ∧
        (LeavesRules (apiDeleteRuleFromRuleList A toNumber false list pos w') w' rl.id
            (some rl.rules) ↔
          (Rule.parseInt pos).isSome = true ∨ (pos ∈ rl.rules.insertIdx k n ∧
            (rl.rules.insertIdx k n).erase pos = rl.rules))) := by
  refine ⟨?_, ?_, ?_, ?_, ?_⟩
  · intro n
    rw [leaves_iff hget (apiDelete_leaves hget n), cut_eq_byName]
  · intro pos
    rw [leaves_iff hget (apiDelete_leaves hget pos), cut_eq_byPosition]
  · intro n pos
    by_cases hout : beyondEnds (toNumber pos) rl.rules.length = true
    · have hrefused : ¬∃ w', apiAddRuleToRuleList A toNumber list (.named n) pos w =
          .done w' (.ok ()) := by
        rintro ⟨w', hw'⟩
        rw [apiAdd_eq hget, if_pos hout] at hw'
        cases hw'
      refine iff_of_true (iff_of_false hrefused ?_) (.inl hout)
      rintro ⟨k, hk, hx⟩
      rw [hx, (splice_natural rl.rules hk).1] at hout
      exact Bool.false_ne_true hout
    · have hok := apiAdd_named (A := A) hget n pos (eq_false_of_ne_true hout)
      constructor
      · intro h
        exact .inr (h.mp ⟨_, hok⟩)
      · intro h
        exact iff_of_true ⟨_, hok⟩ (h.resolve_left hout)
  · intro rule pos hout
    rw [apiAdd_eq hget, if_pos hout]
    exact ⟨_, rfl⟩
  · intro n pos k hk hpos
    obtain ⟨hout, hstart⟩ := splice_natural rl.rules hk
    rw [← hpos] at hout hstart
    have hget' := @getRuleList_insertRuleAt toNumber w list rl hget pos n
    rw [hstart] at hget'
    refine ⟨_, apiAdd_named hget n pos hout, hget', ?_⟩
    exact (leaves_iff hget' (apiDelete_leaves hget' pos) (some rl.rules)).trans
      (cut_insert hk hpos)

/-! ### A rulelist of two rules -/

/-- `Number` on the strings below. -/
def readNumber (s : String) : Option Number :=
  if s = "1" then some (.finite 1) else if s = "2" then some (.finite 2) else none

def noAnswers : Answers := ⟨fun _ _ => ⟨false, fun _ => none, fun _ => none⟩, fun _ _ => false⟩

/-- The rules `a` and `1st`. -/
def twoRules : Store :=
  { empty with rulelists := [⟨0, "l", ["a", "1st"], false⟩] }

theorem rulelist_edits_a :
    LeavesRules (apiDeleteRuleFromRuleList noAnswers readNumber false "l" "a" twoRules) twoRules 0
      (some ["1st"]) ∧
    LeavesRules (apiDeleteRuleFromRuleList noAnswers readNumber false "l" "1" twoRules) twoRules 0
      (some ["a"]) := by
  have hall := rulelist_edits_iff noAnswers readNumber twoRules "l"
    ⟨0, "l", ["a", "1st"], false⟩ rfl
  have hname : byName ["a", "1st"] "a" = some ["1st"] := by decide
  have hposition : byPosition ["a", "1st"] (readNumber "1") = some ["a"] :=
    byPosition_eq_some.mpr ⟨1, by decide, rfl, rfl⟩
  refine ⟨hname ▸ (hall.1 "a").mpr (.inl (by decide)), hposition ▸ (hall.2.1 "1").mpr ?_⟩
  unfold PositionHolds
  rw [if_pos (by decide)]
  exact ⟨Option.some_ne_none _, .inr ⟨1, by decide, rfl⟩⟩

/-- Deleting `1st` deletes `a`, and deleting at position 2 returns. -/
theorem first_deleted :
    apiDeleteRuleFromRuleList noAnswers readNumber false "l" "1st" twoRules =
      (.ok (), twoRules.setRules 0 ["1st"]) ∧
    byName ["a", "1st"] "1st" = some ["a"] ∧
    apiDeleteRuleFromRuleList noAnswers readNumber false "l" "2" twoRules =
      (.ok (), twoRules.setRules 0 ["a", "1st"]) ∧
    byPosition ["a", "1st"] (readNumber "2") = none := by
  have hint : (Rule.parseInt "1st").isSome = true ∧ (Rule.parseInt "2").isSome = true := by decide
  have hnan : readNumber "1st" = none := by decide
  have htwo : readNumber "2" = some (.finite ((2 : ℕ) : ℚ)) := rfl
  obtain ⟨hout, hstart⟩ := splice_natural ["a", "1st"] (i := 2) (by decide)
  have hfirst := @apiDelete_leaves noAnswers readNumber twoRules "l"
    ⟨0, "l", ["a", "1st"], false⟩ rfl "1st"
  have hsecond := @apiDelete_leaves noAnswers readNumber twoRules "l"
    ⟨0, "l", ["a", "1st"], false⟩ rfl "2"
  have hcut : cut readNumber ["a", "1st"] "1st" = some ["1st"] := by
    unfold cut
    rw [if_pos hint.1, hnan]
    rfl
  have hcut2 : cut readNumber ["a", "1st"] "2" = some ["a", "1st"] := by
    unfold cut
    rw [if_pos hint.2, htwo, if_neg (by rw [hout]; exact Bool.false_ne_true), hstart]
    rfl
  rw [hcut] at hfirst
  rw [hcut2] at hsecond
  refine ⟨hfirst, by decide, hsecond, ?_⟩
  rw [Option.eq_none_iff_forall_ne_some]
  intro rules hrules
  obtain ⟨k, hlt, hx, -⟩ := byPosition_eq_some.mp hrules
  rw [htwo] at hx
  have hk : 2 = k := by exact_mod_cast Number.finite.inj (Option.some.inj hx)
  rw [← hk] at hlt
  exact absurd hlt (by decide)

end Store
end L7mp
