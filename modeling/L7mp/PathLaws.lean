import L7mp.RulePath
import L7mp.TreePaths
import Mathlib.Data.List.TakeWhile

/-! What `getAtPath` reads after `setAtPath` has written, under the same path and under others.
The reader takes the names of a path as they are, and the writer takes those that start with a
number for that number. -/
namespace L7mp.Rule
open Js Value

/-- The names up to the first empty one, where both loops stop. -/
def locs (path : String) : List String := (names path).takeWhile (fun loc => loc ≠ "")

/-- No name on the path is empty. -/
def Complete (path : String) : Prop := ∀ loc ∈ names path, loc ≠ ""

instance (path : String) : Decidable (Complete path) :=
  inferInstanceAs (Decidable (∀ loc ∈ names path, loc ≠ ""))

/-- The properties that the writer goes through. -/
def keys (E : Engine) (path : String) : List String := (locs path).map (key E)

/-- What the writer does to the value that the names lead to. -/
def written (value : Value) (names : List String) : Value → Value :=
  if ∀ loc ∈ names, loc ≠ "" then fun _ => value else fun u => u

section Access

variable (E : Engine)

/-- The value does not have the property without an assignment; no object or array of its kind
has. -/
def Lacks : Value → String → Prop
  | .node isArray _, k => ∀ fields, E.inherits (.node isArray fields) k = false
  | d, k => E.inherits d k = false

/-- The writer goes through properties that were assigned or that are nowhere, and assigns such as
an assignment makes. It stops at what cannot take a member. -/
def Assigns : Value → List String → Prop
  | _, [] => True
  | d, loc :: rest => loc ≠ "" →
    (rest ≠ [] → d.members.lookup (key E loc) = none → Lacks E d (key E loc)) ∧
    (rest = [] ∨ (d.members.lookup (key E loc)).filter truthy = none →
      isReserved d.isArray (key E loc) = false) ∧
    (d.isNode = true → Assigns (d.next (key E loc)) rest)

/-- The reader meets properties that were assigned or that are nowhere. -/
def Asks : Value → List String → Prop
  | _, [] => True
  | d, k :: rest => d.truthy = true → (d.members.lookup k = none → Lacks E d k) ∧
    ∀ u, d.members.lookup k = some u → Asks u rest

/-- So does a reader of the path `q` after `w` was applied to what the path `p` reaches. -/
def AsksAfter (w : Value → Value) : List String → List String → Value → Prop
  | [], q, d => Asks E (w d) q
  | _ :: _, [], _ => True
  | k :: p, k' :: q, d =>
    if k' = k then AsksAfter w p q (d.next k) else Asks E d (k' :: q)

/-- Both calls keep to properties that were assigned. -/
def Assigned (d : Value) (path : String) (v : Value) : Prop :=
  Assigns E d (names path) ∧ AsksAfter E (written v (names path)) (keys E path) (locs path) d

end Access

variable {E : Engine} {d v value : Value} {path : String}

theorem Lacks.inherits {k : String} (h : Lacks E d k) : E.inherits d k = false := by
  cases d with
  | node isArray fields => exact h fields
  | _ => exact h

theorem Lacks.setMember {k k' : String} {u : Value} (h : Lacks E d k) :
    Lacks E (d.setMember k' u) k := by
  cases d with
  | node isArray fields => exact h
  | _ => exact h

/-! ### The loops -/

theorem get_spec (d : Value) (k : String) : get E d k = .error .beyond ∨
    (d.isNode = false ∧ get E d k = .error .typeError) ∨ get E d k = .ok (d.members.lookup k) := by
  unfold get
  split
  · exact .inr (.inl ⟨rfl, rfl⟩)
  · split
    · rename_i u hlookup
      exact .inr (.inr (by rw [hlookup]))
    · rename_i hlookup
      split_ifs
      · exact .inl rfl
      · exact .inr (.inr (by rw [hlookup]))

theorem assign_spec (k : String) (value d : Value) : assign k value d = .error .beyond ∨
    (d.isNode = false ∧ assign k value d = .error .typeError) ∨
    (d.isNode = true ∧ assign k value d = .ok (d.setMember k value)) := by
  cases d with
  | null => exact .inr (.inl ⟨rfl, rfl⟩)
  | node isArray fields =>
    rw [assign]
    split_ifs
    · exact .inl rfl
    · exact .inr (.inr ⟨rfl, rfl⟩)
  | bool b | num b | str b =>
    rw [assign]
    · split_ifs
      · exact .inl rfl
      · exact .inr (.inl ⟨rfl, rfl⟩)
    all_goals simp

theorem replace_eq (k : String) (u d : Value) : replace k u d = d.setMember k u := by
  cases d <;> rfl

theorem written_cons {loc : String} (hloc : loc ≠ "") (value : Value) (rest : List String) :
    written value (loc :: rest) = written value rest := by
  unfold written
  simp only [List.forall_mem_cons, hloc, ne_eq, not_false_eq_true, true_and]

/-- The loop goes beyond what is modelled, or throws at what cannot take a member, or edits what
the path reaches. -/
theorem setLoop_spec (value : Value) {ls : List String} (hne : ls ≠ []) (d : Value) :
    setLoop E value d ls = .error .beyond ∨
    (Blocked ((ls.takeWhile (fun loc => loc ≠ "")).map (key E)) d ∧
      setLoop E value d ls = .error .typeError) ∨
    (¬Blocked ((ls.takeWhile (fun loc => loc ≠ "")).map (key E)) d ∧ setLoop E value d ls =
      .ok (edit (written value ls) ((ls.takeWhile (fun loc => loc ≠ "")).map (key E)) d)) := by
  induction ls generalizing d with
  | nil => exact absurd rfl hne
  | cons loc rest ih =>
    by_cases hloc : loc = ""
    · subst hloc
      have hwritten : written value ("" :: rest) = fun u => u := if_neg (by simp)
      right; right
      rw [hwritten, setLoop, if_pos rfl]
      exact ⟨fun h => h, rfl⟩
    have htake : (loc :: rest).takeWhile (fun loc => loc ≠ "") =
        loc :: rest.takeWhile (fun loc => loc ≠ "") :=
      List.takeWhile_cons_of_pos (by simpa using hloc)
    rw [htake, List.map_cons, written_cons hloc, setLoop, if_neg hloc]
    by_cases hrest : rest = []
    · -- the last name is assigned
      subst hrest
      rw [if_pos rfl]
      rcases assign_spec (key E loc) value d with hbeyond | ⟨hnode, htype⟩ | ⟨hnode, hok⟩
      · exact .inl hbeyond
      · exact .inr (.inl ⟨.inl hnode, htype⟩)
      · refine .inr (.inr ⟨?_, hok⟩)
        rintro (hno | hno)
        · rw [hnode] at hno
          cases hno
        · exact hno
    rw [if_neg hrest]
    rcases get_spec (E := E) d (key E loc) with hbeyond | ⟨hnode, htype⟩ | hget
    · rw [hbeyond]
      exact .inl rfl
    · rw [htype]
      exact .inr (.inl ⟨.inl hnode, rfl⟩)
    -- the rest is written into what is there, or into a new object
    have hgoOn (d' : Value) (hnode : d.isNode = true)
        (hreplace : ∀ u, replace (key E loc) u d' = d.setMember (key E loc) u) :
        let r := (setLoop E value (d.next (key E loc)) rest).map
          (fun u => replace (key E loc) u d')
        let ks := (rest.takeWhile (fun loc => loc ≠ "")).map (key E)
        r = .error .beyond ∨ (Blocked (key E loc :: ks) d ∧ r = .error .typeError) ∨
          (¬Blocked (key E loc :: ks) d ∧
            r = .ok (edit (written value rest) (key E loc :: ks) d)) := by
      intro r ks
      rcases ih hrest (d.next (key E loc)) with hb | ⟨hblocked, ht⟩ | ⟨hblocked, ho⟩
      · left
        change Except.map _ (setLoop E value (d.next (key E loc)) rest) = _
        rw [hb]
        rfl
      · refine .inr (.inl ⟨.inr hblocked, ?_⟩)
        change Except.map _ (setLoop E value (d.next (key E loc)) rest) = _
        rw [ht]
        rfl
      · refine .inr (.inr ⟨?_, ?_⟩)
        · rintro (hno | hno)
          · rw [hnode] at hno
            cases hno
          · exact hblocked hno
        · change Except.map _ (setLoop E value (d.next (key E loc)) rest) = _
          rw [ho]
          exact congrArg Except.ok (hreplace _)
    rw [hget]
    dsimp only
    rcases hfound : (d.members.lookup (key E loc)).filter truthy with _ | u
    · have hnext : d.next (key E loc) = empty := by
        unfold next
        rw [hfound]
        rfl
      dsimp only
      rcases assign_spec (key E loc) empty d with hbeyond | ⟨hnode, htype⟩ | ⟨hnode, hok⟩
      · rw [hbeyond]
        exact .inl rfl
      · rw [htype]
        exact .inr (.inl ⟨.inl hnode, rfl⟩)
      · rw [hok]
        have hgo := hgoOn (d.setMember (key E loc) empty) hnode
          (fun u => by rw [replace_eq, setMember_setMember])
        rw [hnext] at hgo
        exact hgo
    · have hnext : d.next (key E loc) = u := by
        unfold next
        rw [hfound]
        rfl
      have hnode := isNode_of_lookup (Option.eq_some_of_filter_eq_some hfound)
      have hgo := hgoOn d hnode (fun u => replace_eq _ u d)
      rw [hnext] at hgo
      exact hgo

theorem assign_ne_beyond {k : String} {value : Value} (h : isReserved d.isArray k = false) :
    assign k value d ≠ .error .beyond := by
  intro hbeyond
  cases d with
  | null => cases hbeyond
  | node isArray fields =>
    change isReserved isArray k = false at h
    rw [assign, h] at hbeyond
    cases hbeyond
  | bool b | num b | str b =>
    change isReserved false k = false at h
    rw [assign] at hbeyond
    · rw [h] at hbeyond
      cases hbeyond
    all_goals simp

theorem get_ne_beyond {k : String} (h : d.members.lookup k = none → Lacks E d k) :
    get E d k ≠ .error .beyond := by
  intro hbeyond
  unfold get at hbeyond
  split at hbeyond
  · cases hbeyond
  · split at hbeyond
    · cases hbeyond
    · rename_i hlookup
      rw [(h hlookup).inherits] at hbeyond
      cases hbeyond

/-- A writer that keeps to assigned properties does not go beyond them. -/
theorem setLoop_ne_beyond {ls : List String} (h : Assigns E d ls) :
    setLoop E value d ls ≠ .error .beyond := by
  induction ls generalizing d with
  | nil =>
    intro hbeyond
    cases hbeyond
  | cons loc rest ih =>
    rw [setLoop]
    split_ifs with hloc hrest
    · intro hbeyond
      cases hbeyond
    · exact assign_ne_beyond ((h hloc).2.1 (.inl hrest))
    -- the writer asks for what is there before it goes on or makes an object
    obtain ⟨hget, hassign, hgoOn⟩ := h hloc
    have hasks := get_ne_beyond (hget hrest)
    rcases get_spec (E := E) d (key E loc) with hb | ⟨-, htype⟩ | hok
    · exact absurd hb hasks
    · intro hbeyond
      rw [htype] at hbeyond
      cases hbeyond
    rw [hok]
    dsimp only
    -- the rest is written into an object or an array
    have hmap {d' u : Value} (hnode : d.isNode = true) (hu : d.next (key E loc) = u) :
        (setLoop E value u rest).map (fun u => replace (key E loc) u d') ≠ .error .beyond := by
      intro hbeyond
      have hrec : setLoop E value u rest ≠ .error .beyond := ih (hu ▸ hgoOn hnode)
      cases hset : setLoop E value u rest with
      | ok u' =>
        rw [hset] at hbeyond
        cases hbeyond
      | error e =>
        rw [hset] at hbeyond
        cases hbeyond
        exact hrec hset
    rcases hfound : (d.members.lookup (key E loc)).filter truthy with _ | u
    · have hnext : d.next (key E loc) = empty := by
        unfold next
        rw [hfound]
        rfl
      dsimp only
      rcases assign_spec (key E loc) empty d with hb | ⟨-, htype⟩ | ⟨hnode, hok⟩
      · exact absurd hb (assign_ne_beyond (hassign (.inr hfound)))
      · intro hbeyond
        rw [htype] at hbeyond
        cases hbeyond
      · rw [hok]
        exact hmap hnode hnext
    · have hnext : d.next (key E loc) = u := by
        unfold next
        rw [hfound]
        rfl
      exact hmap (isNode_of_lookup (Option.eq_some_of_filter_eq_some hfound)) hnext

/-- The reader stops at an empty name, at something falsy and where nothing is. -/
theorem getLoop_spec {ls : List String} (h : Asks E d (ls.takeWhile (fun loc => loc ≠ ""))) :
    getLoop E d (some d) ls = .ok (d.reads (ls.takeWhile (fun loc => loc ≠ ""))) := by
  induction ls generalizing d with
  | nil => rfl
  | cons loc rest ih =>
    cases hd : d.truthy with
    | false =>
      rw [reads_falsy hd, getLoop, hd]
      exact if_neg Bool.false_ne_true
    | true =>
      by_cases hloc : loc = ""
      · subst hloc
        rw [getLoop, if_neg (by simp)]
        rfl
      rw [List.takeWhile_cons_of_pos (by simpa using hloc)] at h ⊢
      obtain ⟨hmissing, hfound⟩ := h hd
      have hget := get_truthy hd (fun hnone => (hmissing hnone).inherits)
      rw [getLoop_cons hd hloc, reads_cons hd, hget]
      rcases hlookup : d.members.lookup loc with _ | u
      · rfl
      · exact ih (hfound u hlookup)

/-! ### Whole paths -/

theorem getAtPath_empty (E : Engine) (d : Value) : getAtPath E d "" = .ok none := rfl

theorem dropLeading_split_ne (hnames : names path ≠ []) : dropLeading (split path) ≠ [""] := by
  intro hroot
  apply hnames
  unfold names dropTrailing
  rcases hsplit : split path with _ | ⟨loc, rest⟩
  · rfl
  rw [hsplit, dropLeading] at hroot
  by_cases hloc : loc = ""
  · rw [if_pos hloc] at hroot
    rw [hroot, hloc]
    rfl
  · rw [if_neg hloc] at hroot
    exact absurd (List.cons.inj hroot).1 hloc

/-- Unless it is the root, a path is read by the loop. -/
theorem getAtPath_eq (hpath : path ≠ "") (hnames : names path ≠ []) :
    getAtPath E d path = getLoop E d none (names path) := by
  unfold getAtPath
  dsimp only
  rw [if_neg (dropLeading_split_ne hnames)]
  rcases getLocs_eq hpath with hlocs | hlocs
  · rw [hlocs]
  · rw [hlocs, getLoop_trailing]

theorem getAtPath_root (hpath : path ≠ "") (hnames : names path = []) :
    getAtPath E d path = .ok (some d) := by
  have hroot : dropLeading (split path) = [""] := by
    rcases getLocs_eq hpath with hlocs | hlocs
    · exact absurd (hlocs.trans hnames) (getLocs_ne_nil hpath)
    · rw [hlocs, hnames]
      rfl
  unfold getAtPath
  rw [hroot]
  exact if_pos rfl

/-- What starts with an empty name is not read. -/
theorem getAtPath_none (hpath : path ≠ "") (hnames : names path ≠ []) (hlocs : locs path = []) :
    getAtPath E d path = .ok none := by
  rw [getAtPath_eq hpath hnames]
  obtain ⟨loc, rest, hcons⟩ := List.exists_cons_of_ne_nil hnames
  unfold locs at hlocs
  rw [hcons] at hlocs ⊢
  have hloc : loc = "" := by
    by_contra hne
    rw [List.takeWhile_cons_of_pos (by simpa using hne)] at hlocs
    cases hlocs
  rw [getLoop, if_neg (by simp [hloc])]

theorem getAtPath_spec (hd : d.truthy = true) (hlocs : locs path ≠ [])
    (h : Asks E d (locs path)) : getAtPath E d path = .ok (d.reads (locs path)) := by
  have hnames : names path ≠ [] := fun hnil => hlocs (by rw [locs, hnil]; rfl)
  have hpath : path ≠ "" := fun hnil => hnames (by rw [hnil]; rfl)
  obtain ⟨loc, rest, hcons⟩ := List.exists_cons_of_ne_nil hnames
  have hloc : loc ≠ "" := by
    intro hnil
    apply hlocs
    rw [locs, hcons, hnil]
    rfl
  have hfirst : getLoop E d none (names path) = getLoop E d (some d) (names path) := by
    rw [hcons, getLoop_cons hd hloc, getLoop_cons hd hloc]
  rw [getAtPath_eq hpath hnames, hfirst]
  exact getLoop_spec h

theorem setAtPath_spec (v : Value) (hnames : names path ≠ []) (d : Value) :
    setAtPath E d path v = .error .beyond ∨
    (Blocked (keys E path) d ∧ setAtPath E d path v = .error .typeError) ∨
    (¬Blocked (keys E path) d ∧
      setAtPath E d path v = .ok (edit (written v (names path)) (keys E path) d)) := by
  unfold setAtPath
  rw [if_neg hnames]
  exact setLoop_spec v hnames d

theorem setAtPath_ne_beyond (h : Assigns E d (names path)) :
    setAtPath E d path v ≠ .error .beyond := by
  unfold setAtPath
  split_ifs
  · nofun
  · exact setLoop_ne_beyond h

/-! ### Reading what was written -/

/-- What a value lacks, it lacks also with another member. -/
theorem asks_edit {w : Value → Value} {p q : List String} (h : ¬Blocked p d)
    (hasks : AsksAfter E w p q d) : Asks E (edit w p d) q := by
  induction p generalizing q d with
  | nil => exact hasks
  | cons k p ih =>
    rcases q with _ | ⟨k', q⟩
    · trivial
    obtain ⟨hnode, hrest⟩ := not_blocked_cons h
    rw [AsksAfter] at hasks
    intro _
    rw [edit]
    split_ifs at hasks with hk
    -- the reader follows the writer, or it leaves the way of the writer here
    · subst hk
      rw [lookup_setMember hnode]
      refine ⟨fun hnone => (by cases hnone), fun u hu => ?_⟩
      rw [← Option.some.inj hu]
      exact ih hrest hasks
    · rw [lookup_setMember_ne hk]
      obtain ⟨hmissing, hfound⟩ := hasks (truthy_of_isNode hnode)
      exact ⟨fun hnone => (hmissing hnone).setMember, hfound⟩

/-- A name that is taken for a number is not where the reader looks: it finds what was there. -/
theorem reads_edit_stray {w : Value → Value} {pre rest : List String} {loc : String}
    (hpre : ∀ x ∈ pre, key E x = x) (hloc : key E loc ≠ loc)
    (h : ¬Blocked ((pre ++ loc :: rest).map (key E)) d) :
    (edit w ((pre ++ loc :: rest).map (key E)) d).reads (pre ++ loc :: rest) =
      (reach pre d).reads (loc :: rest) := by
  induction pre generalizing d with
  | nil => exact reads_edit_ne h hloc.symm rest
  | cons k pre ih =>
    obtain ⟨hk, hpre'⟩ := List.forall_mem_cons.mp hpre
    rw [List.cons_append, List.map_cons, hk] at h ⊢
    obtain ⟨hnode, hrest⟩ := not_blocked_cons h
    rw [reads_cons (truthy_of_isNode (isNode_edit h)), edit, lookup_setMember hnode,
      Option.bind_some]
    exact ih hpre' hrest

/-- The first name that the writer takes for another one. -/
theorem exists_stray {ls : List String} (h : ¬∀ loc ∈ ls, key E loc = loc) :
    ∃ pre loc rest, ls = pre ++ loc :: rest ∧ (∀ x ∈ pre, key E x = x) ∧ key E loc ≠ loc := by
  induction ls with
  | nil => exact absurd (fun _ hmem => absurd hmem List.not_mem_nil) h
  | cons k ls ih =>
    by_cases hk : key E k = k
    · have htail : ¬∀ loc ∈ ls, key E loc = loc := fun hall =>
        h (List.forall_mem_cons.mpr ⟨hk, hall⟩)
      obtain ⟨pre, loc, rest, rfl, hpre, hloc⟩ := ih htail
      exact ⟨k :: pre, loc, rest, rfl, List.forall_mem_cons.mpr ⟨hk, hpre⟩, hloc⟩
    · exact ⟨[], k, ls, rfl, fun _ hmem => absurd hmem List.not_mem_nil, hk⟩

theorem map_key {ls : List String} (h : ∀ loc ∈ ls, key E loc = loc) : ls.map (key E) = ls := by
  calc ls.map (key E) = ls.map (fun loc => loc) := List.map_congr_left h
    _ = ls := List.map_id' ls

/-- When the value is read back: the path is not empty and does not start with an empty name, and
something is in the way of the writer, or all names are taken as they are and the writer does not
stop short of the end (or does so where the value is already), or the value is already where the
reader ends up after it has gone another way than the writer. -/
def PutsBack (E : Engine) (d : Value) (path : String) (v : Value) : Prop :=
  path ≠ "" ∧ (names path = [] ∨ locs path ≠ [] ∧ (Blocked (keys E path) d ∨
    ((∀ loc ∈ locs path, key E loc = loc) ∧ (Complete path ∨ reach (locs path) d = v)) ∨
    ∃ pre loc rest, locs path = pre ++ loc :: rest ∧ (∀ x ∈ pre, key E x = x) ∧
      key E loc ≠ loc ∧ Found (reach pre d) (loc :: rest) v))

/-- A value that was put under a path is read back just in these cases, as long as both functions
keep to properties that were assigned. -/
theorem putsBack_iff (E : Engine) (d : Value) (path : String) (v : Value)
    (h : Assigned E d path v) :
    (∀ d', setAtPath E d path v = .ok d' → getAtPath E d' path = .ok (some v)) ↔
      PutsBack E d path v := by
  have hset := setAtPath_ne_beyond (v := v) h.1
  by_cases hpath : path = ""
  · subst hpath
    have hroot : setAtPath E d "" v = .ok v := rfl
    refine ⟨fun h => ?_, fun h => absurd rfl h.1⟩
    have hread := h v hroot
    rw [getAtPath_empty] at hread
    cases hread
  by_cases hnames : names path = []
  · have hroot : setAtPath E d path v = .ok v := if_pos hnames
    refine ⟨fun _ => ⟨hpath, .inl hnames⟩, fun _ d' hd' => ?_⟩
    rw [hroot] at hd'
    cases hd'
    exact getAtPath_root hpath hnames
  by_cases hlocs : locs path = []
  · -- nothing is written
    have hkeys : keys E path = [] := by rw [keys, hlocs]; rfl
    constructor
    · intro h
      rcases setAtPath_spec (E := E) v hnames d with hb | ⟨hblocked, -⟩ | ⟨-, hok⟩
      · exact absurd hb hset
      · rw [hkeys] at hblocked
        exact hblocked.elim
      · have hread := h _ hok
        rw [getAtPath_none hpath hnames hlocs] at hread
        cases hread
    · rintro ⟨-, hnil | ⟨hne, -⟩⟩
      · exact absurd hnil hnames
      · exact absurd hlocs hne
  rcases setAtPath_spec (E := E) v hnames d with hb | ⟨hblocked, htype⟩ | ⟨hblocked, hok⟩
  · exact absurd hb hset
  · refine ⟨fun _ => ⟨hpath, .inr ⟨hlocs, .inl hblocked⟩⟩, fun _ d' hd' => ?_⟩
    rw [htype] at hd'
    cases hd'
  -- the reader goes through what was written
  have hnode : (edit (written v (names path)) (keys E path) d).isNode = true := by
    obtain ⟨loc, rest, hcons⟩ := List.exists_cons_of_ne_nil hlocs
    have hkeys : keys E path = key E loc :: rest.map (key E) := by rw [keys, hcons]; rfl
    rw [hkeys] at hblocked ⊢
    exact isNode_edit hblocked
  have hread : getAtPath E (edit (written v (names path)) (keys E path) d) path =
      .ok ((edit (written v (names path)) (keys E path) d).reads (locs path)) :=
    getAtPath_spec (truthy_of_isNode hnode) hlocs (asks_edit hblocked h.2)
  have hprop : (∀ d', setAtPath E d path v = .ok d' → getAtPath E d' path = .ok (some v)) ↔
      (edit (written v (names path)) (keys E path) d).reads (locs path) = some v := by
    rw [hok]
    constructor
    · intro h
      have hv := h _ rfl
      rw [hread] at hv
      exact Except.ok.inj hv
    · intro h d' hd'
      cases hd'
      rw [hread, h]
  rw [hprop]
  have hstray {pre rest : List String} {loc : String} (hsplit : locs path = pre ++ loc :: rest)
      (hpre : ∀ x ∈ pre, key E x = x) (hloc : key E loc ≠ loc) :
      (edit (written v (names path)) (keys E path) d).reads (locs path) = some v ↔
        Found (reach pre d) (loc :: rest) v := by
    unfold keys at hblocked ⊢
    rw [hsplit] at hblocked ⊢
    rw [reads_edit_stray hpre hloc hblocked]
    exact reads_eq_some_iff (loc :: rest) (reach pre d)
  by_cases hall : ∀ loc ∈ locs path, key E loc = loc
  · have hkeys : keys E path = locs path := map_key hall
    have hself : (edit (written v (names path)) (keys E path) d).reads (locs path) =
        some (written v (names path) (reach (locs path) d)) := by
      rw [hkeys] at hblocked ⊢
      exact reads_edit_self hblocked
    have hvalue : written v (names path) (reach (locs path) d) = v ↔
        Complete path ∨ reach (locs path) d = v := by
      by_cases hcomplete : Complete path
      · have hwritten : written v (names path) = fun _ => v := if_pos hcomplete
        rw [hwritten]
        exact ⟨fun _ => .inl hcomplete, fun _ => rfl⟩
      · have hwritten : written v (names path) = fun u => u := if_neg hcomplete
        rw [hwritten]
        exact ⟨fun heq => .inr heq, fun h => h.resolve_left hcomplete⟩
    rw [hself, Option.some.injEq, hvalue]
    constructor
    · intro h
      exact ⟨hpath, .inr ⟨hlocs, .inr (.inl ⟨hall, h⟩)⟩⟩
    · rintro ⟨-, hnil | ⟨-, hb | ⟨-, h⟩ | ⟨pre, loc, rest, hsplit, -, hloc, -⟩⟩⟩
      · exact absurd hnil hnames
      · exact absurd hb hblocked
      · exact h
      · refine absurd (hall loc ?_) hloc
        rw [hsplit]
        exact List.mem_append_right pre List.mem_cons_self
  · obtain ⟨pre, loc, rest, hsplit, hpre, hloc⟩ := exists_stray hall
    constructor
    · intro h
      refine ⟨hpath, .inr ⟨hlocs, .inr (.inr ⟨pre, loc, rest, hsplit, hpre, hloc, ?_⟩)⟩⟩
      exact (hstray hsplit hpre hloc).mp h
    · rintro ⟨-, hnil | ⟨-, hb | ⟨hno, -⟩ | ⟨pre', loc', rest', hsplit', hpre', hloc', hv⟩⟩⟩
      · exact absurd hnil hnames
      · exact absurd hb hblocked
      · exact absurd hno hall
      · exact (hstray hsplit' hpre' hloc').mpr hv

/-- The engine as far as the next paths need it. -/
def plainEngine : Engine := ⟨fun _ k => k = "__proto__" || k = "toString", fun n => toString n⟩

/-- A falsy value is read back from under two names and an index. -/
theorem putsBack_index :
    let d : Value := .node false [("a", .node true [("0", .num (.finite 7))])]
    ∃ d', setAtPath plainEngine d "/a/0" (.bool false) = .ok d' ∧
      getAtPath plainEngine d' "/a/0" = .ok (some (.bool false)) := by
  intro d
  have hset : setAtPath plainEngine d "/a/0" (.bool false) =
      .ok (.node false [("a", .node true [("0", .bool false)])]) := rfl
  have hnames : names "/a/0" = ["a", "0"] := rfl
  have hlocs : locs "/a/0" = ["a", "0"] := rfl
  have hkeys : keys plainEngine "/a/0" = ["a", "0"] := rfl
  have hassigned : Assigned plainEngine d "/a/0" (.bool false) := by
    refine ⟨?_, ?_⟩
    · rw [hnames]
      refine fun _ => ⟨fun _ => nofun, fun _ => rfl, fun _ _ => ?_⟩
      exact ⟨fun hne => absurd rfl hne, fun _ => rfl, fun _ => trivial⟩
    · rw [hkeys, hlocs]
      trivial
  refine ⟨_, hset, ?_⟩
  refine (putsBack_iff plainEngine d "/a/0" (.bool false) hassigned).mpr ?_ _ hset
  refine ⟨by decide, .inr ⟨by rw [hlocs]; exact List.cons_ne_nil _ _, .inr (.inl ⟨?_, .inl ?_⟩)⟩⟩
  · rw [hlocs]
    decide
  · decide

/-- A name that starts with a digit is written as a number and read as a name. -/
theorem fiveG_lost :
    let d' : Value := .node false [("5", .str "x")]
    setAtPath plainEngine .empty "5g" (.str "x") = .ok d' ∧
      getAtPath plainEngine d' "5g" ≠ .ok (some (.str "x")) := by
  intro d'
  have hget : getAtPath plainEngine d' "5g" = .ok none := rfl
  refine ⟨rfl, ?_⟩
  rw [hget]
  intro h
  cases h

/-! ### Other paths -/

theorem locs_of_complete (h : Complete path) : locs path = names path :=
  List.takeWhile_eq_self_iff.mpr (fun loc hloc => by simpa using h loc hloc)

theorem setAtPath_ok {d' : Value} (hnames : names path ≠ []) (hcomplete : Complete path)
    (h : setAtPath E d path v = .ok d') :
    ¬Blocked (keys E path) d ∧ d' = edit (fun _ => v) (keys E path) d := by
  have hwritten : written v (names path) = fun _ => v := if_pos hcomplete
  rcases setAtPath_spec (E := E) v hnames d with hb | ⟨-, htype⟩ | ⟨hblocked, hok⟩
  · rw [hb] at h
    cases h
  · rw [htype] at h
    cases h
  · rw [hok, hwritten] at h
    exact ⟨hblocked, (Except.ok.inj h).symm⟩

/-- Two paths of which neither is the start of the other. What is under the second stays when the
first is written just if it is apart from what the writer takes the first for, or the same; for
the reader, moreover, nothing falsy may have given way on their common start. And under a path
where nothing is undefined is read just if nothing falsy is on the way. -/
theorem setAtPath_spares (E : Engine) (d : Value) (hd : d.IsObject) (v : Value) {p q : String}
    (hp : Complete p) (hq : Complete q) (happart : Apart (names p) (names q)) :
    (∀ d', setAtPath E d p v = .ok d' →
      (d'.follow (names q) = d.follow (names q) ↔ Spared (keys E p) (names q) True
        (fun t => v.follow t = d.follow (names q)) (d.follow (keys E p) = some v))) ∧
    (∀ d', setAtPath E d p v = .ok d' → Asks E d (names q) →
      AsksAfter E (fun _ => v) (keys E p) (names q) d →
      (getAtPath E d' q = getAtPath E d q ↔ Spared (keys E p) (names q)
        (Open (keys E p) (names q) d)
        (fun t => v.reads t = d.reads (names q)) (d.follow (keys E p) = some v))) ∧
    (∀ path, Complete path → d.follow (names path) = none → Asks E d (names path) →
      (getAtPath E d path = .ok none ↔ Open (names path) (names path) d)) := by
  have hnamesp : names p ≠ [] := fun hnil => not_apart_nil _ (hnil ▸ happart)
  have hnamesq : names q ≠ [] := fun hnil => not_apart_nil _ (hnil ▸ apart_symm happart)
  have htruthy : d.truthy = true := by
    rw [hd]
    rfl
  have hread {path : String} {u : Value} (hnames : names path ≠ []) (hpath : Complete path)
      (hu : u.truthy = true) (hasks : Asks E u (names path)) :
      getAtPath E u path = .ok (u.reads (names path)) := by
    rw [← locs_of_complete hpath] at hnames hasks ⊢
    exact getAtPath_spec hu hnames hasks
  refine ⟨?_, ?_, ?_⟩
  · intro d' hset
    obtain ⟨hblocked, rfl⟩ := setAtPath_ok hnamesp hp hset
    exact follow_edit_iff hblocked
  · intro d' hset hbefore hafter
    obtain ⟨hblocked, rfl⟩ := setAtPath_ok hnamesp hp hset
    have hnode : (edit (fun _ => v) (keys E p) d).isNode = true := by
      obtain ⟨loc, rest, hcons⟩ := List.exists_cons_of_ne_nil hnamesp
      have hkeys : keys E p = key E loc :: rest.map (key E) := by
        rw [keys, locs_of_complete hp, hcons]
        rfl
      rw [hkeys] at hblocked ⊢
      exact isNode_edit hblocked
    rw [hread hnamesq hq htruthy hbefore,
      hread hnamesq hq (truthy_of_isNode hnode) (asks_edit hblocked hafter), Except.ok.injEq]
    exact reads_edit_iff hblocked
  · intro path hpath hnone hasks
    have hnames : names path ≠ [] := by
      intro hnil
      rw [hnil] at hnone
      cases hnone
    rw [hread hnames hpath htruthy hasks, Except.ok.injEq]
    exact reads_eq_none_iff hnone

theorem setAtPath_spares_sibling :
    let d : Value := .node false [("a", .node false [("x", .bool true)]), ("b", .str "s")]
    let d' : Value := .node false [("a", .node false [("x", .null)]), ("b", .str "s")]
    setAtPath plainEngine d "/a/x" .null = .ok d' ∧
      d'.follow (names "/a/y") = d.follow (names "/a/y") ∧
      getAtPath plainEngine d' "/a/y" = getAtPath plainEngine d "/a/y" ∧
      getAtPath plainEngine d "/a/y" = .ok none := by
  intro d d'
  have hset : setAtPath plainEngine d "/a/x" .null = .ok d' := rfl
  have hnames : names "/a/y" = ["a", "y"] := rfl
  have hkeys : keys plainEngine "/a/x" = ["a", "x"] := rfl
  -- the object in "a" is asked for "y", which objects lack
  have hlacks {u : Value} (hu : u = .node false [("x", .bool true)]) :
      Asks plainEngine u ["y"] := by
    subst hu
    exact fun _ => ⟨fun _ _ => rfl, nofun⟩
  have hasks : Asks plainEngine d (names "/a/y") := by
    rw [hnames]
    exact fun _ => ⟨nofun, fun u hu => hlacks (Option.some.inj hu).symm⟩
  have hafter : AsksAfter plainEngine (fun _ => .null) (keys plainEngine "/a/x") (names "/a/y")
      d := by
    rw [hkeys, hnames]
    exact hlacks rfl
  have hopen : Open ["a", "y"] ["a", "y"] d := by
    intro r hr _ x hx
    rcases r with _ | ⟨k, _ | ⟨k', r⟩⟩
    · cases hx
      rfl
    · obtain ⟨rfl, -⟩ := List.cons_prefix_cons.mp hr
      cases hx
      rfl
    · obtain ⟨rfl, hr'⟩ := List.cons_prefix_cons.mp hr
      obtain ⟨rfl, -⟩ := List.cons_prefix_cons.mp hr'
      cases hx
  have hcommon : Open ["a", "x"] ["a", "y"] d :=
    fun r _ hr x hx => hopen r hr hr x hx
  obtain ⟨hfollow, hread, hnone⟩ := setAtPath_spares plainEngine d rfl .null
    (show Complete "/a/x" by decide) (show Complete "/a/y" by decide) (by decide)
  have happart : Apart (keys plainEngine "/a/x") (names "/a/y") := by
    rw [hkeys, hnames]
    decide
  refine ⟨hset, (hfollow d' hset).mpr (.inl ⟨happart, trivial⟩), ?_, ?_⟩
  · refine (hread d' hset hasks hafter).mpr (.inl ⟨happart, ?_⟩)
    rw [hkeys, hnames]
    exact hcommon
  · refine (hnone "/a/y" (by decide) rfl hasks).mpr ?_
    rw [hnames]
    exact hopen

/-- Writing `5g` overwrites `5`, and below a zero the zero is read. -/
theorem five_overwritten :
    let d : Value := .node false [("5", .str "x"), ("a", .num (.finite 0))]
    let d' : Value := .node false [("5", .str "y"), ("a", .num (.finite 0))]
    Apart (names "5g") (names "5") ∧ setAtPath plainEngine d "5g" (.str "y") = .ok d' ∧
      getAtPath plainEngine d "5" = .ok (some (.str "x")) ∧
      getAtPath plainEngine d' "5" = .ok (some (.str "y")) ∧
      d.follow (names "a/b") = none ∧
      getAtPath plainEngine d "a/b" = .ok (some (.num (.finite 0))) := by
  intro d d'
  exact ⟨by decide, rfl, rfl, rfl, rfl, rfl⟩

end L7mp.Rule
