import L7mp.ObjectTree

/-! `Rule.getAtPath` and `Rule.setAtPath`, by which the proxy reads session metadata and builds
headers. -/
namespace L7mp
open Js

/-- The rest of the language: the properties that a value has without an assignment (inherited
ones, characters, lengths), and the name of the property that a number stands for. -/
structure Engine where
  inherits : Value → String → Bool
  keyText : ℤ → String

/-- An access throws a TypeError, or it meets a property that is not modelled. -/
inductive AccessError
  | typeError
  | beyond
  deriving DecidableEq, Repr

namespace Rule

/-- `split('/')`. -/
def splitSlash : List Char → List (List Char)
  | [] => [[]]
  | c :: rest => if c = '/' then [] :: splitSlash rest else match splitSlash rest with
    | [] => [[c]]
    | s :: ss => (c :: s) :: ss

def split (path : String) : List String := (splitSlash path.toList).map String.ofList

def dropLeading : List String → List String
  | [] => []
  | loc :: rest => if loc = "" then rest else loc :: rest

def dropTrailing (locs : List String) : List String :=
  if locs.getLast? = some "" then locs.dropLast else locs

/-- The names on a path, between its first and its last slash. -/
def names (path : String) : List String := dropLeading (dropTrailing (split path))

def isSpace (c : Char) : Bool :=
  let n := c.toNat
  (9 ≤ n && n ≤ 13) || (0x2000 ≤ n && n ≤ 0x200a) ||
    n ∈ [0x20, 0xa0, 0x1680, 0x2028, 0x2029, 0x202f, 0x205f, 0x3000, 0xfeff]

/-- The number that a text starts with. -/
def leadingDigits (text : List Char) : Option ℕ :=
  let digits := text.takeWhile Char.isDigit
  if digits = [] then none else some (digits.foldl (fun n c => 10 * n + (c.toNat - 48)) 0)

/-- `parseInt` with radix ten, before its result is rounded to a double. -/
def parseInt (loc : String) : Option ℤ :=
  match loc.toList.dropWhile isSpace with
  | '-' :: text => (leadingDigits text).map (fun n => -(n : ℤ))
  | '+' :: text => (leadingDigits text).map (fun n => (n : ℤ))
  | text => (leadingDigits text).map (fun n => (n : ℤ))

/-- An assignment to `__proto__` or to the length of an array does not make a property. -/
def isReserved (isArray : Bool) (k : String) : Bool := k = "__proto__" || isArray && k = "length"

/-- `data[k] = value`, in strict mode. -/
def assign (k : String) (value : Value) : Value → Except AccessError Value
  | .null => .error .typeError
  | .node isArray fields =>
    if isReserved isArray k then .error .beyond
    else .ok (.node isArray (setField k value fields))
  | _ => if isReserved false k then .error .beyond else .error .typeError

/-- What becomes of `data` when the object in field `k` becomes `u`. -/
def replace (k : String) (u : Value) : Value → Value
  | .node isArray fields => .node isArray (setField k u fields)
  | v => v

section Access

variable (E : Engine)

/-- The property that `setAtPath` takes for a name: a number, if it starts with one. -/
def key (loc : String) : String := (parseInt loc).elim loc E.keyText

/-- `data[k]`. -/
def get : Value → String → Except AccessError (Option Value)
  | .null, _ => .error .typeError
  | data, k => match data.members.lookup k with
    | some u => .ok (some u)
    | none => if E.inherits data k then .error .beyond else .ok none

/-- The loop of `getAtPath`, which stops at an empty name. -/
def getLoop : Value → Option Value → List String → Except AccessError (Option Value)
  | _, result, [] => .ok result
  | data, result, loc :: rest =>
    if data.truthy && loc ≠ "" then
      match get E data loc with
      | .error e => .error e
      | .ok none => .ok none
      | .ok (some u) => getLoop u (some u) rest
    else .ok result

/-- The value under a path, or undefined. -/
def getAtPath (data : Value) (path : String) : Except AccessError (Option Value) :=
  let locs := dropLeading (split path)
  if locs = [""] then .ok (some data) else getLoop E data none locs

/-- The loop of `setAtPath`, with what it makes of `data`. It stops at an empty name. -/
def setLoop (value : Value) : Value → List String → Except AccessError Value
  | data, [] => .ok data
  | data, loc :: rest =>
    if loc = "" then .ok data
    else if rest = [] then assign (key E loc) value data
    else match get E data (key E loc) with
      | .error e => .error e
      | .ok found => match found.filter Value.truthy with
        | some u => (setLoop value u rest).map (fun u => replace (key E loc) u data)
        | none => match assign (key E loc) .empty data with
          | .error e => .error e
          | .ok data => (setLoop value .empty rest).map (fun u => replace (key E loc) u data)

/-- Set the value under a path. A deep copy of a value is the value again, for an array that is
copied has its elements only. -/
def setAtPath (data : Value) (path : String) (value : Value) : Except AccessError Value :=
  if names path = [] then .ok value else setLoop E value data (names path)

/-- The path can be read: no name on it is empty, and nothing is asked for that a value has
without an assignment. -/
def Readable : Value → List String → Prop
  | _, [] => True
  | data, loc :: rest => loc ≠ "" ∧
    (∀ u, data.members.lookup loc = some u → Readable u rest) ∧
    (data.members.lookup loc = none → data.truthy = true → E.inherits data loc = false)

/-- A property can be assigned. -/
def Assignable (data : Value) (k : String) : Prop :=
  ∃ isArray fields, data = .node isArray fields ∧ isReserved isArray k = false

/-- The path can be written: no name on it is empty or taken for a number with another name, and
it goes through objects and arrays as far as there is something on it. -/
def Writable : Value → List String → Prop
  | _, [] => True
  | data, loc :: rest => loc ≠ "" ∧ key E loc = loc ∧
    (rest = [] ∨ (data.members.lookup loc).filter Value.truthy = none → Assignable data loc) ∧
    (rest ≠ [] → data.members.lookup loc = none → E.inherits data loc = false) ∧
    (∀ u, (data.members.lookup loc).filter Value.truthy = some u → Writable u rest) ∧
    ((data.members.lookup loc).filter Value.truthy = none → Writable .empty rest)

end Access

theorem splitSlash_ne_nil (text : List Char) : splitSlash text ≠ [] := by
  cases text with
  | nil => exact List.cons_ne_nil _ _
  | cons c rest =>
    rw [splitSlash]
    split
    · exact List.cons_ne_nil _ _
    · split
      · exact List.cons_ne_nil _ _
      · exact List.cons_ne_nil _ _

theorem split_ne {path : String} (hpath : path ≠ "") : split path ≠ [""] := by
  intro hsplit
  apply hpath
  obtain ⟨text, htext, hempty⟩ := List.map_eq_singleton_iff.mp hsplit
  have hnil : text = [] := String.ofList_injective hempty
  subst hnil
  rw [← String.toList_eq_nil_iff]
  rcases hchars : path.toList with _ | ⟨c, rest⟩
  · rfl
  rw [hchars, splitSlash] at htext
  split at htext
  · cases hrest : splitSlash rest with
    | nil => exact absurd hrest (splitSlash_ne_nil rest)
    | cons s ss =>
      rw [hrest] at htext
      cases htext
  · split at htext
    · cases htext
    · cases htext

theorem getLocs_ne_nil {path : String} (hpath : path ≠ "") : dropLeading (split path) ≠ [] := by
  intro hnil
  rcases hlocs : split path with _ | ⟨loc, rest⟩
  · exact splitSlash_ne_nil _ (List.map_eq_nil_iff.mp hlocs)
  · rw [hlocs, dropLeading] at hnil
    split at hnil
    · rename_i hloc
      subst hloc
      subst hnil
      exact split_ne hpath hlocs
    · cases hnil

/-- `getAtPath` keeps the empty name after a trailing slash. -/
theorem getLocs_eq {path : String} (hpath : path ≠ "") :
    dropLeading (split path) = names path ∨ dropLeading (split path) = names path ++ [""] := by
  unfold names dropTrailing
  rcases hlocs : split path with _ | ⟨loc, rest⟩
  · exact Or.inl rfl
  · by_cases hlast : (loc :: rest).getLast? = some ""
    · rw [if_pos hlast]
      have hne : rest ≠ [] := by
        intro hrest
        subst hrest
        cases hlast
        exact split_ne hpath hlocs
      have hsplit : rest.dropLast ++ [""] = rest := by
        rw [List.getLast?_cons, Option.some.injEq] at hlast
        rcases List.eq_nil_or_concat rest with h | ⟨front, last, h⟩
        · exact absurd h hne
        · subst h
          simp only [List.concat_eq_append, List.getLast?_append, List.getLast?_singleton,
            Option.some_or, Option.getD_some] at hlast
          simp [hlast]
      right
      rw [List.dropLast_cons_of_ne_nil hne]
      by_cases hloc : loc = ""
      · simp only [dropLeading, if_pos hloc, hsplit]
      · simp only [dropLeading, if_neg hloc, List.cons_append, hsplit]
    · rw [if_neg hlast]
      exact Or.inl rfl

variable {E : Engine}

theorem getLoop_trailing (locs : List String) (data : Value) (result : Option Value) :
    getLoop E data result (locs ++ [""]) = getLoop E data result locs := by
  induction locs generalizing data result with
  | nil => simp [getLoop]
  | cons loc rest ih =>
    simp only [List.cons_append, getLoop, ih]

/-- The loop goes on with a value that is truthy and a name that is not empty. -/
theorem getLoop_cons {data : Value} {loc : String} (hdata : data.truthy = true) (hloc : loc ≠ "")
    (result : Option Value) (rest : List String) :
    getLoop E data result (loc :: rest) = (get E data loc).bind (fun found =>
      match found with
      | none => .ok none
      | some u => getLoop E u (some u) rest) := by
  have hgo : (data.truthy && decide (loc ≠ "")) = true := by
    simp only [hdata, hloc, Bool.true_and, ne_eq, not_false_eq_true, decide_true]
  rw [getLoop, if_pos hgo]
  rcases get E data loc with e | _ | u <;> rfl

/-- A truthy value is asked for a property. -/
theorem get_truthy {data : Value} {loc : String} (hdata : data.truthy = true)
    (h : data.members.lookup loc = none → E.inherits data loc = false) :
    get E data loc = .ok (data.members.lookup loc) := by
  unfold get
  split
  · cases hdata
  · rcases hlookup : data.members.lookup loc with _ | u
    · rw [h hlookup]
      rfl
    · rfl

theorem follow_falsy {data : Value} (h : data.truthy = false) (loc : String)
    (rest : List String) : data.follow (loc :: rest) = none := by
  have hmembers : data.members = [] := by
    cases data with
    | node isArray fields => cases h
    | _ => rfl
  rw [Value.follow, hmembers]
  rfl

/-- The loop finds what a readable path leads to, or something falsy. -/
theorem getLoop_follow (locs : List String) {data : Value} (h : Readable E data locs) :
    ∃ found, getLoop E data (some data) locs = .ok found ∧
      found.filter Value.truthy = (data.follow locs).filter Value.truthy := by
  induction locs generalizing data with
  | nil => exact ⟨some data, rfl, by rw [Value.follow]⟩
  | cons loc rest ih =>
    obtain ⟨hloc, hfound, hmissing⟩ := h
    by_cases htruthy : data.truthy = true
    · have hget := get_truthy htruthy (fun hnone => hmissing hnone htruthy)
      rw [getLoop_cons htruthy hloc, hget]
      rcases hlookup : data.members.lookup loc with _ | u
      · refine ⟨none, rfl, ?_⟩
        rw [Value.follow, hlookup]
        rfl
      · obtain ⟨found, hloop, heq⟩ := ih (hfound u hlookup)
        refine ⟨found, hloop, ?_⟩
        rw [heq, Value.follow, hlookup]
        rfl
    · -- nothing is under a falsy value
      have hfalsy : data.truthy = false := Bool.eq_false_iff.mpr htruthy
      refine ⟨some data, ?_, ?_⟩
      · simp only [getLoop, hfalsy]
        rfl
      · rw [follow_falsy hfalsy]
        simp [Option.filter, hfalsy]

/-- `getAtPath` finds what a readable path leads to, or something falsy. -/
theorem getAtPath_follow {path : String} (hpath : path ≠ "") {data : Value}
    (hdata : data.truthy = true) (h : Readable E data (names path)) :
    ∃ found, getAtPath E data path = .ok found ∧
      found.filter Value.truthy = (data.follow (names path)).filter Value.truthy := by
  have hloop : names path ≠ [] → dropLeading (split path) ≠ [""] ∧
      getLoop E data none (dropLeading (split path)) = getLoop E data (some data) (names path) := by
    intro hnames
    obtain ⟨loc, rest, hcons⟩ := List.exists_cons_of_ne_nil hnames
    have hloc : loc ≠ "" := by
      rw [hcons] at h
      exact h.1
    have hfirst : getLoop E data none (names path) = getLoop E data (some data) (names path) := by
      rw [hcons, getLoop_cons hdata hloc, getLoop_cons hdata hloc]
    rcases getLocs_eq hpath with hlocs | hlocs
    · rw [hlocs, hfirst, hcons]
      exact ⟨fun heq => hloc (List.cons.inj heq).1, rfl⟩
    · rw [hlocs, getLoop_trailing, hfirst, hcons]
      exact ⟨fun heq => hloc (List.cons.inj heq).1, rfl⟩
  by_cases hnames : names path = []
  · have hroot : dropLeading (split path) = [""] := by
      rcases getLocs_eq hpath with hlocs | hlocs
      · exact absurd (hlocs.trans hnames) (getLocs_ne_nil hpath)
      · rw [hlocs, hnames]
        rfl
    refine ⟨some data, ?_, ?_⟩
    · simp only [getAtPath, if_pos hroot]
    · rw [hnames, Value.follow]
  · obtain ⟨hne, heq⟩ := hloop hnames
    obtain ⟨found, hfound, hfilter⟩ := getLoop_follow (names path) h
    refine ⟨found, ?_, hfilter⟩
    simp only [getAtPath, if_neg hne, heq, hfound]

theorem assign_eq {data : Value} {k : String} (h : Assignable data k) (value : Value) :
    assign k value data = .ok (replace k value data) := by
  obtain ⟨isArray, fields, hdata, hreserved⟩ := h
  rw [hdata, assign, hreserved]
  rfl

/-- The fields of a value are those of an object or an array, where `get` finds no null. -/
theorem get_own {data u : Value} {k : String} (h : data.members.lookup k = some u) :
    get E data k = .ok (some u) := by
  unfold get
  split
  · cases h
  · rw [h]

/-- One step on a path that can be written. -/
theorem setLoop_step {data : Value} {loc : String} {rest : List String} (value : Value)
    (h : Writable E data (loc :: rest)) (hrest : rest ≠ []) :
    setLoop E value data (loc :: rest) =
      (setLoop E value (((data.members.lookup loc).filter Value.truthy).getD .empty) rest).map
        (fun u => replace loc u data) := by
  obtain ⟨hloc, hkey, hassign, hmissing, -, -⟩ := h
  rw [setLoop, if_neg hloc, if_neg hrest, hkey]
  rcases hfound : (data.members.lookup loc).filter Value.truthy with _ | u
  · obtain ⟨isArray, fields, hdata, hreserved⟩ := hassign (Or.inr hfound)
    have hget : get E data loc = .ok (data.members.lookup loc) := by
      apply get_truthy
      · rw [hdata]
        rfl
      · exact hmissing hrest
    have hempty : ∀ u, replace loc u (replace loc .empty data) = replace loc u data := by
      intro u
      rw [hdata]
      show Value.node isArray _ = Value.node isArray _
      rw [setField_setField]
    simp only [hget, hfound, assign_eq ⟨isArray, fields, hdata, hreserved⟩, hempty]
    rfl
  · have hown : data.members.lookup loc = some u := Option.eq_some_of_filter_eq_some hfound
    have hget := @get_own E data u loc hown
    rw [hown] at hfound
    simp only [hget, hfound]
    rfl

/-- A path that can be written is written, and an object stays an object. -/
theorem setLoop_writable (value : Value) (locs : List String) {data : Value}
    (h : Writable E data locs) : ∃ data', setLoop E value data locs = .ok data' ∧
      (data.IsObject → data'.IsObject) := by
  have hobject : ∀ {k u} {data : Value}, data.IsObject → (replace k u data).IsObject := by
    intro k u data hdata
    rw [hdata]
    rfl
  induction locs generalizing data with
  | nil => exact ⟨data, rfl, id⟩
  | cons loc rest ih =>
    by_cases hrest : rest = []
    · obtain ⟨hloc, hkey, hassign, -⟩ := h
      refine ⟨replace loc value data, ?_, hobject⟩
      rw [setLoop, if_neg hloc, if_pos hrest, hkey]
      exact assign_eq (hassign (Or.inl hrest)) value
    · have hnext :
          Writable E (((data.members.lookup loc).filter Value.truthy).getD .empty) rest := by
        obtain ⟨-, -, -, -, hfound, hnone⟩ := h
        rcases hlookup : (data.members.lookup loc).filter Value.truthy with _ | u
        · exact hnone hlookup
        · exact hfound u hlookup
      obtain ⟨u, hu, -⟩ := ih hnext
      refine ⟨replace loc u data, ?_, hobject⟩
      rw [setLoop_step value h hrest, hu]
      rfl

/-- On a clear path, `setAtPath` puts the value where the path leads. -/
theorem setLoop_put (value : Value) (locs : List String) {data : Value} (hne : locs ≠ [])
    (h : Writable E data locs) (hclear : data.Clear locs) :
    setLoop E value data locs = .ok (data.put locs value) := by
  induction locs generalizing data with
  | nil => exact absurd rfl hne
  | cons loc rest ih =>
    obtain ⟨hobject, hthrough⟩ := hclear
    have hmembers : data.members = data.fields := by
      rw [hobject]
      rfl
    have hput : replace loc (((data.fields.lookup loc).getD .empty).put rest value) data =
        data.put (loc :: rest) value := by
      rw [hobject]
      rfl
    by_cases hrest : rest = []
    · obtain ⟨hloc, hkey, hassign, -⟩ := h
      rw [setLoop, if_neg hloc, if_pos hrest, hkey, assign_eq (hassign (Or.inl hrest)), ← hput,
        hrest]
      rfl
    · rw [setLoop_step value h hrest, hmembers]
      obtain ⟨-, -, -, -, hfound, hnone⟩ := h
      rw [hmembers] at hfound hnone
      -- what is on the path is an object, so that nothing falsy gives way
      have htruthy : (data.fields.lookup loc).filter Value.truthy = data.fields.lookup loc := by
        rcases hlookup : data.fields.lookup loc with _ | u
        · rfl
        · obtain ⟨k, rest', hcons⟩ := List.exists_cons_of_ne_nil hrest
          have hu := hthrough u hlookup
          rw [hcons] at hu
          rw [hu.1]
          rfl
      rw [htruthy] at hfound hnone ⊢
      rcases hlookup : data.fields.lookup loc with _ | u
      · rw [hlookup] at hput
        rw [Option.getD_none, ih hrest (hnone hlookup) (Value.clear_empty rest)]
        exact congrArg Except.ok hput
      · rw [hlookup] at hput
        rw [Option.getD_some, ih hrest (hfound u hlookup) (hthrough u hlookup)]
        exact congrArg Except.ok hput

end Rule
end L7mp
