import L7mp.ObjectTree

/-! Paths through values that are read as far as something truthy is on them, and edited with
objects made on the way. -/
namespace Js.Value

def isNode : Value → Bool
  | node _ _ => true
  | _ => false

def isArray : Value → Bool
  | node isArray _ => isArray
  | _ => false

/-- Give a member another value; what is no object or array stays as it is. -/
def setMember : Value → String → Value → Value
  | node isArray fields, k, u => node isArray (setField k u fields)
  | v, _, _ => v

/-- What is in a member, or an empty object for what is missing or falsy. -/
def next (k : String) (v : Value) : Value := ((v.members.lookup k).filter truthy).getD empty

def reach : List String → Value → Value
  | [], v => v
  | k :: rest, v => reach rest (v.next k)

/-- Apply `w` to what the path reaches. -/
def edit (w : Value → Value) : List String → Value → Value
  | [], v => w v
  | k :: rest, v => v.setMember k (edit w rest (v.next k))

/-- What is neither an object nor an array should take a member. -/
def Blocked : List String → Value → Prop
  | [], _ => False
  | k :: rest, v => v.isNode = false ∨ Blocked rest (v.next k)

/-- Follow a path up to its end or to something falsy. -/
def reads : Value → List String → Option Value
  | v, [] => some v
  | v, k :: rest => if v.truthy then (v.members.lookup k).bind (fun u => u.reads rest) else some v

/-- `x` is at the end of the path, or it is falsy and on the way. -/
def Found (v : Value) (path : List String) (x : Value) : Prop :=
  ∃ t, t <+: path ∧ v.follow t = some x ∧ (t = path ∨ x.truthy = false)

/-- Nothing falsy is on the way of both paths. -/
def Open (p q : List String) (v : Value) : Prop :=
  ∀ r, r <+: p → r <+: q → ∀ x, v.follow r = some x → x.truthy = true

variable {v u x : Value} {w : Value → Value} {k k' : String} {p q t : List String}

theorem truthy_of_isNode (h : v.isNode = true) : v.truthy = true := by
  cases v with
  | node isArray fields => rfl
  | _ => cases h

/-- What has a member is an object or an array. -/
theorem isNode_of_lookup (h : v.members.lookup k = some u) : v.isNode = true := by
  cases v with
  | node isArray fields => rfl
  | _ => cases h

theorem lookup_of_falsy (h : v.truthy = false) (k : String) : v.members.lookup k = none := by
  cases v with
  | node isArray fields => cases h
  | _ => rfl

@[simp] theorem isNode_setMember : (v.setMember k u).isNode = v.isNode := by
  cases v <;> rfl

theorem lookup_setMember (h : v.isNode = true) : (v.setMember k u).members.lookup k = some u := by
  cases v with
  | node isArray fields => exact lookup_setField k u fields
  | _ => cases h

theorem lookup_setMember_ne (h : k' ≠ k) :
    (v.setMember k u).members.lookup k' = v.members.lookup k' := by
  cases v with
  | node isArray fields => exact lookup_setField_ne h u fields
  | _ => rfl

theorem setField_self {fields : List (String × Value)} (h : fields.lookup k = some u) :
    setField k u fields = fields := by
  induction fields with
  | nil => cases h
  | cons f rest ih =>
    obtain ⟨k₀, v₀⟩ := f
    rw [setField]
    by_cases hk : k₀ = k
    · subst hk
      rw [List.lookup_cons_self, Option.some.injEq] at h
      rw [if_pos rfl, h]
    · have hbeq : (k == k₀) = false := beq_false_of_ne (fun heq => hk heq.symm)
      rw [List.lookup_cons, hbeq] at h
      rw [if_neg hk, ih h]

theorem setMember_self (h : v.members.lookup k = some u) : v.setMember k u = v := by
  cases v with
  | node isArray fields =>
    change fields.lookup k = some u at h
    change node isArray (setField k u fields) = _
    rw [setField_self h]
  | _ => rfl

theorem setMember_setMember : (v.setMember k u).setMember k x = v.setMember k x := by
  cases v with
  | node isArray fields =>
    change node isArray (setField k x (setField k u fields)) = node isArray (setField k x fields)
    rw [setField_setField]
  | _ => rfl

theorem next_of_truthy (h : v.members.lookup k = some u) (hu : u.truthy = true) :
    v.next k = u := by
  unfold next
  rw [h, Option.filter_some, if_pos hu, Option.getD_some]

theorem next_of_falsy (h : ∀ u, v.members.lookup k = some u → u.truthy = false) :
    v.next k = empty := by
  unfold next
  rcases hlookup : v.members.lookup k with _ | u
  · rfl
  · rw [Option.filter_some, if_neg (by rw [h u hlookup]; exact Bool.false_ne_true)]
    rfl

/-! ### Reading -/

theorem follow_append (p t : List String) (v : Value) :
    v.follow (p ++ t) = (v.follow p).bind (fun u => u.follow t) := by
  induction p generalizing v with
  | nil => rfl
  | cons k p ih =>
    rw [List.cons_append, follow, follow]
    cases v.members.lookup k with
    | none => rfl
    | some u => exact ih u

theorem reads_cons (hv : v.truthy = true) (k : String) (rest : List String) :
    v.reads (k :: rest) = (v.members.lookup k).bind (fun u => u.reads rest) := if_pos hv

theorem reads_falsy (hv : v.truthy = false) (path : List String) : v.reads path = some v := by
  cases path with
  | nil => rfl
  | cons k rest =>
    rw [reads, hv]
    exact if_neg Bool.false_ne_true

theorem follow_falsy (hv : v.truthy = false) (hp : p ≠ []) : v.follow p = none := by
  cases p with
  | nil => exact absurd rfl hp
  | cons k rest =>
    rw [follow, lookup_of_falsy hv]
    rfl

/-- What is read is at the end of the path or falsy. -/
theorem reads_eq_some_iff (path : List String) (v : Value) :
    v.reads path = some x ↔ Found v path x := by
  induction path generalizing v with
  | nil =>
    constructor
    · intro h
      exact ⟨[], List.nil_prefix, h, .inl rfl⟩
    · rintro ⟨t, ht, hfollow, -⟩
      rw [List.prefix_nil.mp ht] at hfollow
      exact hfollow
  | cons k rest ih =>
    cases hv : v.truthy with
    | false =>
      rw [reads_falsy hv]
      constructor
      · intro h
        exact ⟨[], List.nil_prefix, h, .inr (Option.some.inj h ▸ hv)⟩
      · rintro ⟨t, -, hfollow, -⟩
        rcases t with _ | ⟨k', t⟩
        · exact hfollow
        · rw [follow_falsy hv (List.cons_ne_nil _ _)] at hfollow
          cases hfollow
    | true =>
      rw [reads_cons hv]
      constructor
      · intro h
        obtain ⟨u, hu, hx⟩ := Option.bind_eq_some_iff.mp h
        obtain ⟨t, ht, hfollow, hend⟩ := (ih u).mp hx
        refine ⟨k :: t, (List.prefix_cons_inj k).mpr ht, ?_, hend.imp_left (congrArg (k :: ·))⟩
        rw [follow, hu]
        exact hfollow
      · rintro ⟨t, ht, hfollow, hend⟩
        rcases t with _ | ⟨k', t⟩
        · have hx : v = x := Option.some.inj hfollow
          rcases hend with hend | hend
          · cases hend
          · rw [← hx, hv] at hend
            cases hend
        · obtain ⟨rfl, ht'⟩ := List.cons_prefix_cons.mp ht
          obtain ⟨u, hu, hfollow⟩ := Option.bind_eq_some_iff.mp hfollow
          rw [hu, Option.bind_some]
          refine (ih u).mpr ⟨t, ht', hfollow, hend.imp_left fun heq => ?_⟩
          exact (List.cons.inj heq).2

theorem follow_of_reads (h : v.reads p = some x) (hx : x.truthy = true) : v.follow p = some x := by
  obtain ⟨t, -, hfollow, rfl | hfalsy⟩ := (reads_eq_some_iff p v).mp h
  · exact hfollow
  · rw [hx] at hfalsy
    cases hfalsy

/-- Where nothing is, undefined is read unless something falsy is on the way. -/
theorem reads_eq_none_iff (h : v.follow p = none) : v.reads p = none ↔ Open p p v := by
  constructor
  · intro hnone r hr _ x hx
    by_contra hfalsy
    have hfound := (reads_eq_some_iff p v).mpr
      ⟨r, hr, hx, .inr (eq_false_of_ne_true hfalsy)⟩
    rw [hnone] at hfound
    cases hfound
  · intro hopen
    rw [Option.eq_none_iff_forall_ne_some]
    intro x hx
    obtain ⟨t, ht, hfollow, rfl | hfalsy⟩ := (reads_eq_some_iff p v).mp hx
    · rw [h] at hfollow
      cases hfollow
    · rw [hopen t ht ht x hfollow] at hfalsy
      cases hfalsy

/-! ### Editing -/

theorem edit_append (w : Value → Value) (p t : List String) (v : Value) :
    edit w (p ++ t) v = edit (edit w t) p v := by
  induction p generalizing v with
  | nil => rfl
  | cons k p ih =>
    rw [List.cons_append, edit, edit, ih]

theorem not_blocked_cons (h : ¬Blocked (k :: p) v) : v.isNode = true ∧ ¬Blocked p (v.next k) :=
  ⟨eq_true_of_ne_false (fun hno => h (.inl hno)), fun hb => h (.inr hb)⟩

theorem isNode_edit (h : ¬Blocked (k :: p) v) : (edit w (k :: p) v).isNode = true := by
  rw [edit, isNode_setMember]
  exact (not_blocked_cons h).1

theorem not_blocked_append (h : ¬Blocked (p ++ t) v) : ¬Blocked p v := by
  induction p generalizing v with
  | nil => exact id
  | cons k p ih =>
    obtain ⟨hnode, hrest⟩ := not_blocked_cons h
    rintro (hno | hb)
    · rw [hnode] at hno
      cases hno
    · exact ih hrest hb

/-- Beyond the path that was edited one reads in what was written. -/
theorem reads_edit_append (t : List String) (h : ¬Blocked p v) :
    (edit w p v).reads (p ++ t) = (w (reach p v)).reads t := by
  induction p generalizing v with
  | nil => rfl
  | cons k p ih =>
    obtain ⟨hnode, hrest⟩ := not_blocked_cons h
    rw [List.cons_append, reads_cons (truthy_of_isNode (isNode_edit h)), edit,
      lookup_setMember hnode, Option.bind_some]
    exact ih hrest

theorem follow_edit_append (t : List String) (h : ¬Blocked p v) :
    (edit w p v).follow (p ++ t) = (w (reach p v)).follow t := by
  induction p generalizing v with
  | nil => rfl
  | cons k p ih =>
    obtain ⟨hnode, hrest⟩ := not_blocked_cons h
    rw [List.cons_append, follow, edit, lookup_setMember hnode, Option.bind_some]
    exact ih hrest

theorem reads_edit_self (h : ¬Blocked p v) : (edit w p v).reads p = some (w (reach p v)) := by
  have happend := @reads_edit_append v w p [] h
  rwa [List.append_nil] at happend

theorem follow_edit_self (h : ¬Blocked p v) : (edit w p v).follow p = some (w (reach p v)) := by
  have happend := @follow_edit_append v w p [] h
  rwa [List.append_nil] at happend

/-- Another member is read as before. -/
theorem reads_edit_ne (h : ¬Blocked (k :: p) v) (hk : k' ≠ k) (q : List String) :
    (edit w (k :: p) v).reads (k' :: q) = v.reads (k' :: q) := by
  have hnode := (not_blocked_cons h).1
  rw [reads_cons (truthy_of_isNode (isNode_edit h)), reads_cons (truthy_of_isNode hnode), edit,
    lookup_setMember_ne hk]

/-- What lies apart from the path is in its place as before. -/
theorem follow_edit_apart (happart : Apart p q) (h : ¬Blocked p v) :
    (edit w p v).follow q = v.follow q := by
  induction p generalizing q v with
  | nil => exact absurd happart (not_apart_nil q)
  | cons k p ih =>
    rcases q with _ | ⟨k', q⟩
    · exact absurd (apart_symm happart) (not_apart_nil _)
    obtain ⟨hnode, hrest⟩ := not_blocked_cons h
    rw [follow, follow, edit]
    by_cases hk : k' = k
    · subst hk
      have happart' := apart_cons.mp happart
      have hq : q ≠ [] := fun hnil => not_apart_nil p (hnil ▸ apart_symm happart')
      rw [lookup_setMember hnode, Option.bind_some, ih happart' hrest]
      rcases hlookup : v.members.lookup k' with _ | u
      · rw [next_of_falsy (fun u hu => by rw [hlookup] at hu; cases hu)]
        obtain ⟨k, q, rfl⟩ := List.exists_cons_of_ne_nil hq
        rfl
      · cases hu : u.truthy with
        | true => rw [next_of_truthy hlookup hu, Option.bind_some]
        | false =>
          rw [next_of_falsy (fun u' hu' => by rw [hlookup] at hu'; cases hu'; exact hu),
            Option.bind_some, follow_falsy hu hq]
          obtain ⟨k, q, rfl⟩ := List.exists_cons_of_ne_nil hq
          rfl
    · rw [lookup_setMember_ne hk]

theorem open_cons (hv : v.isNode = true) :
    Open (k :: p) (k :: q) v ↔ ∀ u, v.members.lookup k = some u → Open p q u := by
  constructor
  · intro h u hu r hrp hrq x hx
    refine h (k :: r) ((List.prefix_cons_inj k).mpr hrp) ((List.prefix_cons_inj k).mpr hrq) x ?_
    rw [follow, hu]
    exact hx
  · intro h r hrp hrq x hx
    rcases r with _ | ⟨k', r⟩
    · rw [← Option.some.inj hx]
      exact truthy_of_isNode hv
    · obtain ⟨rfl, hrp'⟩ := List.cons_prefix_cons.mp hrp
      obtain ⟨u, hu, hx⟩ := Option.bind_eq_some_iff.mp hx
      exact h u hu r hrp' (List.cons_prefix_cons.mp hrq).2 x hx

/-- What lies apart is read as before unless something falsy on the way gave way to an object. -/
theorem reads_edit_apart (happart : Apart p q) (h : ¬Blocked p v) :
    (edit w p v).reads q = v.reads q ↔ Open p q v := by
  induction p generalizing q v with
  | nil => exact absurd happart (not_apart_nil q)
  | cons k p ih =>
    rcases q with _ | ⟨k', q⟩
    · exact absurd (apart_symm happart) (not_apart_nil _)
    obtain ⟨hnode, hrest⟩ := not_blocked_cons h
    by_cases hk : k' = k
    · subst hk
      have happart' := apart_cons.mp happart
      have hq : q ≠ [] := fun hnil => not_apart_nil p (hnil ▸ apart_symm happart')
      have hempty : empty.reads q = none ∧ Open p q empty := by
        obtain ⟨k, q, rfl⟩ := List.exists_cons_of_ne_nil hq
        refine ⟨rfl, ?_⟩
        intro r hrp hrq x hx
        rcases r with _ | ⟨k, r⟩
        · rw [← Option.some.inj hx]
          rfl
        · cases hx
      rw [reads_cons (truthy_of_isNode (isNode_edit h)), reads_cons (truthy_of_isNode hnode), edit,
        lookup_setMember hnode, Option.bind_some, open_cons hnode]
      rcases hlookup : v.members.lookup k' with _ | u
      · have hnext : v.next k' = empty :=
          next_of_falsy (fun u hu => by rw [hlookup] at hu; cases hu)
        rw [hnext] at hrest ⊢
        rw [(ih happart' hrest).mpr hempty.2, hempty.1]
        exact ⟨fun _ u hu => (Option.some_ne_none u hu.symm).elim, fun _ => rfl⟩
      · cases hu : u.truthy with
        | true =>
          rw [next_of_truthy hlookup hu] at hrest ⊢
          rw [Option.bind_some, ih happart' hrest]
          exact ⟨fun hopen u' hu' => Option.some.inj hu' ▸ hopen, fun hall => hall u rfl⟩
        | false =>
          have hnext : v.next k' = empty :=
            next_of_falsy (fun u' hu' => by rw [hlookup] at hu'; cases hu'; exact hu)
          rw [hnext] at hrest ⊢
          rw [(ih happart' hrest).mpr hempty.2, hempty.1, Option.bind_some, reads_falsy hu]
          constructor
          · intro hno
            cases hno
          · intro hall
            have htruthy := hall u rfl [] List.nil_prefix List.nil_prefix u rfl
            rw [hu] at htruthy
            cases htruthy
    · rw [reads_edit_ne h hk]
      refine ⟨fun _ => ?_, fun _ => rfl⟩
      intro r hrp hrq x hx
      rcases r with _ | ⟨k'', r⟩
      · rw [← Option.some.inj hx]
        exact truthy_of_isNode hnode
      · have hfirst := (List.cons_prefix_cons.mp hrp).1
        exact absurd ((List.cons_prefix_cons.mp hrq).1.symm.trans hfirst) hk

/-- Writing what is there changes nothing. -/
theorem edit_of_follow (h : v.follow p = some x) : edit (fun _ => x) p v = v := by
  induction p generalizing v with
  | nil => exact (Option.some.inj h).symm
  | cons k p ih =>
    obtain ⟨u, hu, hx⟩ := Option.bind_eq_some_iff.mp h
    have hedit : edit (fun _ => x) p (v.next k) = u := by
      rcases p with _ | ⟨k', p⟩
      · exact (Option.some.inj hx).symm
      · obtain ⟨u', hu', -⟩ := Option.bind_eq_some_iff.mp hx
        rw [next_of_truthy hu (truthy_of_isNode (isNode_of_lookup hu'))]
        exact ih hx
    rw [edit, hedit, setMember_self hu]

/-- Above the place that is written, everything stays only if it was there. -/
theorem edit_above_iff (ht : t ≠ []) (h : ¬Blocked (p ++ t) v) :
    ((edit (fun _ => x) (p ++ t) v).follow p = v.follow p ↔ v.follow (p ++ t) = some x) ∧
    ((edit (fun _ => x) (p ++ t) v).reads p = v.reads p ↔ v.follow (p ++ t) = some x) := by
  have hself := @follow_edit_self v (fun _ => x) (p ++ t) h
  have hthere (heq : (edit (fun _ => x) (p ++ t) v).follow p = v.follow p) :
      v.follow (p ++ t) = some x := by
    rw [follow_append, ← heq, ← follow_append]
    exact hself
  refine ⟨⟨hthere, fun hx => by rw [edit_of_follow hx]⟩, ?_,
    fun hx => by rw [edit_of_follow hx]⟩
  intro heq
  apply hthere
  -- what is read there now is an object or an array, and so it is in its place
  obtain ⟨k, t, rfl⟩ := List.exists_cons_of_ne_nil ht
  have hp := not_blocked_append h
  have hreads : (edit (fun _ => x) (p ++ k :: t) v).reads p =
      some (edit (fun _ => x) (k :: t) (reach p v)) := by
    rw [edit_append]
    exact reads_edit_self hp
  have hfollow : (edit (fun _ => x) (p ++ k :: t) v).follow p =
      some (edit (fun _ => x) (k :: t) (reach p v)) := by
    rw [edit_append]
    exact follow_edit_self hp
  have hnode : (edit (fun _ => x) (k :: t) (reach p v)).isNode = true := by
    rw [follow_append, hfollow, Option.bind_some] at hself
    obtain ⟨u, hu, -⟩ := Option.bind_eq_some_iff.mp hself
    exact isNode_of_lookup hu
  rw [hfollow, follow_of_reads (heq ▸ hreads) (truthy_of_isNode hnode)]

/-- Three ways in which `q` can lie to `p`, with what is asked in each: apart, below, above. -/
def Spared (p q : List String) (apart : Prop) (below : List String → Prop) (above : Prop) : Prop :=
  (Apart p q ∧ apart) ∨ (∃ t, q = p ++ t ∧ below t) ∨ ∃ t, t ≠ [] ∧ p = q ++ t ∧ above

theorem spared_iff {P apart above : Prop} {below : List String → Prop}
    (hapart : Apart p q → (P ↔ apart)) (hbelow : ∀ t, q = p ++ t → (P ↔ below t))
    (habove : ∀ t, t ≠ [] → p = q ++ t → (P ↔ above)) : P ↔ Spared p q apart below above := by
  constructor
  · intro hP
    by_cases hpq : p <+: q
    · obtain ⟨t, rfl⟩ := hpq
      exact .inr (.inl ⟨t, rfl, (hbelow t rfl).mp hP⟩)
    by_cases hqp : q <+: p
    · obtain ⟨t, rfl⟩ := hqp
      have ht : t ≠ [] := by
        intro hnil
        rw [hnil, List.append_nil] at hpq
        exact hpq List.prefix_rfl
      exact .inr (.inr ⟨t, ht, rfl, (habove t ht rfl).mp hP⟩)
    · exact .inl ⟨⟨hpq, hqp⟩, (hapart ⟨hpq, hqp⟩).mp hP⟩
  · rintro (⟨h, ha⟩ | ⟨t, h, hb⟩ | ⟨t, ht, h, ha⟩)
    · exact (hapart h).mpr ha
    · exact (hbelow t h).mpr hb
    · exact (habove t ht h).mpr ha

/-- What is at `q` stays there just if it is apart from what is written, or the same. -/
theorem follow_edit_iff (h : ¬Blocked p v) :
    (edit (fun _ => x) p v).follow q = v.follow q ↔
      Spared p q True (fun t => x.follow t = v.follow q) (v.follow p = some x) := by
  apply spared_iff
  · intro happart
    exact iff_true_intro (follow_edit_apart happart h)
  · rintro t rfl
    rw [follow_edit_append t h]
  · rintro t ht rfl
    exact (edit_above_iff ht h).1

theorem reads_edit_iff (h : ¬Blocked p v) :
    (edit (fun _ => x) p v).reads q = v.reads q ↔
      Spared p q (Open p q v) (fun t => x.reads t = v.reads q) (v.follow p = some x) := by
  apply spared_iff
  · intro happart
    exact reads_edit_apart happart h
  · rintro t rfl
    rw [reads_edit_append t h]
  · rintro t ht rfl
    exact (edit_above_iff ht h).2

end Js.Value
