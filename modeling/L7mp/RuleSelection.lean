import L7mp.RuleLookup

/-! Where the `apply` references have no cycle, `Session.lookup` selects the first match: its
result, its errors and its counters are those of a search through the rules in their order. -/
namespace L7mp
namespace Lookup
open Js Relation

/-- A rule of the rulelist, whether it matches or not, applies the other one. -/
def Refers (x : Context) (n m : String) : Prop :=
  ∃ rl k ru, x.store.getRuleList n = some rl ∧ k ∈ rl.rules ∧ x.store.getRule k = some ru ∧
    (x.body ru.id).target = some m

/-- The counters after the rules of a path applied. -/
def Counters.along (path : List Rule) (c : Counters) : Counters :=
  fun id => if id ∈ path.map Rule.id then c id + 1 else c id

/-- One rewrite after the other, from the first. -/
def writeAll (E : Engine) (data : Value) (rewrites : List Rewrite) : Except AccessError Value :=
  rewrites.foldlM (fun data r => Rule.setAtPath E data r.path r.value) data

/-- The data with all the rewrites, or with those before the first one that fails. -/
def Written (E : Engine) (data : Value) (rewrites : List Rewrite) (data' : Value) : Prop :=
  writeAll E data rewrites = .ok data' ∨ ∃ before r after e, rewrites = before ++ r :: after ∧
    writeAll E data before = .ok data' ∧ Rule.setAtPath E data' r.path r.value = .error e

/-- The metadata that is to be there after a lookup gave its outcome: with the rewrites of the
action, or as it was. -/
def Rewritten (x : Context) (E : Engine) : Except Err (Option Rule) → Value → Prop
  | .ok (some ru), data => Written E x.metadata ((x.body ru.id).rewrite.getD []) data
  | _, data => data = x.metadata

variable {x : Context} {n m : String} {names : List String} {ru ru' : Rule} {path : List Rule}
  {out : Except Err (Option Rule)}

/-! ### One outcome -/

theorem First.unique (h : First x names ru) (h' : First x names ru') : ru = ru' := by
  have heq := (h.loop "" (fun _ => 0)).symm.trans (h'.loop "" (fun _ => 0))
  injection heq with heq
  injection heq with heq
  injection heq

theorem First.not_passed (h : First x names ru) : ¬Passed x names := by
  intro h'
  have heq := (h.loop "" (fun _ => 0)).symm.trans (h'.loop "" (fun _ => 0))
  injection heq with heq
  injection heq with heq
  injection heq

theorem First.not_dangles {k : String} (h : First x names ru) : ¬Dangles x names k := by
  intro h'
  have heq := (h.loop "" (fun _ => 0)).symm.trans (h'.loop "" (fun _ => 0))
  injection heq with heq
  injection heq

theorem Passed.not_dangles {k : String} (h : Passed x names) : ¬Dangles x names k := by
  rintro ⟨pre, post, rfl, -, hk⟩
  obtain ⟨ru, hru, -⟩ := h k (List.mem_append_right pre List.mem_cons_self)
  rw [hk] at hru
  exact nomatch hru

theorem Dangles.find {k : String} (h : Dangles x names k) :
    names.find? (fun k => (x.store.getRule k).isNone) = some k := by
  obtain ⟨pre, post, rfl, hpre, hk⟩ := h
  have hnone : pre.find? (fun k => (x.store.getRule k).isNone) = none := by
    rw [List.find?_eq_none]
    intro j hj
    obtain ⟨ru, hru, -⟩ := hpre j hj
    rw [hru]
    exact Bool.false_ne_true
  rw [List.find?_append, hnone, Option.none_or, List.find?_cons_of_pos (by rw [hk]; rfl)]

theorem Dangles.unique {k k' : String} (h : Dangles x names k) (h' : Dangles x names k') :
    k = k' := Option.some.inj (h.find.symm.trans h'.find)

/-- A lookup selects one thing, on one path. -/
theorem Selects.unique (h : Selects x n path out) {path' : List Rule}
    {out' : Except Err (Option Rule)} (h' : Selects x n path' out') :
    path' = path ∧ out' = out := by
  induction h generalizing path' out' with
  | noRuleList h =>
    cases h' with
    | noRuleList h' => exact ⟨rfl, rfl⟩
    | noRule h' | noMatch h' | found h' | applied h' => exact nomatch h.symm.trans h'
  | noRule h hk =>
    cases h' with
    | noRuleList h' => exact nomatch h'.symm.trans h
    | noRule h' hk' =>
      cases h.symm.trans h'
      exact ⟨rfl, by rw [hk.unique hk']⟩
    | noMatch h' hpassed =>
      cases h.symm.trans h'
      exact absurd hk hpassed.not_dangles
    | found h' hfirst | applied h' hfirst =>
      cases h.symm.trans h'
      exact absurd hk hfirst.not_dangles
  | noMatch h hpassed =>
    cases h' with
    | noRuleList h' => exact nomatch h'.symm.trans h
    | noRule h' hk' =>
      cases h.symm.trans h'
      exact absurd hk' hpassed.not_dangles
    | noMatch h' => exact ⟨rfl, rfl⟩
    | found h' hfirst | applied h' hfirst =>
      cases h.symm.trans h'
      exact absurd hpassed hfirst.not_passed
  | found h hfirst hfinal =>
    cases h' with
    | noRuleList h' => exact nomatch h'.symm.trans h
    | noRule h' hk' =>
      cases h.symm.trans h'
      exact absurd hk' hfirst.not_dangles
    | noMatch h' hpassed =>
      cases h.symm.trans h'
      exact absurd hpassed hfirst.not_passed
    | found h' hfirst' =>
      cases h.symm.trans h'
      rw [hfirst.unique hfirst']
      exact ⟨rfl, rfl⟩
    | applied h' hfirst' hnext =>
      cases h.symm.trans h'
      rw [hfirst.unique hfirst', hnext] at hfinal
      exact nomatch hfinal
  | applied h hfirst hnext _ ih =>
    cases h' with
    | noRuleList h' => exact nomatch h'.symm.trans h
    | noRule h' hk' =>
      cases h.symm.trans h'
      exact absurd hk' hfirst.not_dangles
    | noMatch h' hpassed =>
      cases h.symm.trans h'
      exact absurd hpassed hfirst.not_passed
    | found h' hfirst' hfinal =>
      cases h.symm.trans h'
      rw [hfirst.unique hfirst', hfinal] at hnext
      exact nomatch hnext
    | applied h' hfirst' hnext' hrest =>
      cases h.symm.trans h'
      obtain rfl := hfirst.unique hfirst'
      cases hnext.symm.trans hnext'
      obtain ⟨rfl, rfl⟩ := ih hrest
      exact ⟨rfl, rfl⟩

/-! ### The counters -/

/-- What a rule applies is where the rulelists that it is found in lead to. -/
theorem Selects.on_path (h : Selects x n path out) (hru : ru ∈ path) :
    ∃ m rl, ReflTransGen (Applies x) n m ∧ x.store.getRuleList m = some rl ∧
      First x rl.rules ru := by
  induction h with
  | noRuleList | noRule | noMatch => exact absurd hru List.not_mem_nil
  | found h hfirst =>
    obtain rfl := List.mem_singleton.mp hru
    exact ⟨_, _, .refl, h, hfirst⟩
  | applied h hfirst hnext _ ih =>
    rcases List.mem_cons.mp hru with rfl | hru
    · exact ⟨_, _, .refl, h, hfirst⟩
    · obtain ⟨m, rl, hreach, hrl, hin⟩ := ih hru
      exact ⟨m, rl, hreach.head ⟨_, _, h, hfirst, hnext⟩, hrl, hin⟩

/-- No rule object is on the path twice: what it applies would lead back to itself. -/
theorem Selects.nodup (hacyclic : ∀ n, ¬TransGen (Applies x) n n) (h : Selects x n path out) :
    (path.map Rule.id).Nodup := by
  induction h with
  | noRuleList | noRule | noMatch => exact List.nodup_nil
  | found => exact List.nodup_singleton _
  | @applied _ m _ ru _ _ _ _ hnext hrest ih =>
    refine List.nodup_cons.mpr ⟨?_, ih⟩
    intro hmem
    obtain ⟨ru', hru', hid⟩ := List.mem_map.mp hmem
    obtain ⟨k, rl, hreach, hrl, hin⟩ := hrest.on_path hru'
    -- the same object applies the same rulelist
    have hback : Applies x k m := ⟨rl, ru', hrl, hin, by rw [hid, hnext]⟩
    exact hacyclic m (TransGen.tail' hreach hback)

theorem Counters.foldl_bump (hnodup : (path.map Rule.id).Nodup) (c : Counters) :
    path.foldl (fun c ru => c.bump ru.id) c = Counters.along path c := by
  induction path generalizing c with
  | nil => rfl
  | cons ru path ih =>
    obtain ⟨hnot, hnodup⟩ := List.nodup_cons.mp hnodup
    rw [List.foldl_cons, ih hnodup]
    funext id
    unfold along Counters.bump
    rw [List.map_cons]
    by_cases hid : id = ru.id
    · subst hid
      rw [if_neg hnot, if_pos rfl, if_pos List.mem_cons_self]
    · rw [if_neg hid]
      simp only [List.mem_cons, hid, false_or]

theorem Refers.of_applies (h : Applies x n m) : Refers x n m := by
  obtain ⟨rl, ru, hrl, ⟨⟨pre, k, post, hsplit, -, hk⟩, -⟩, hnext⟩ := h
  have hmem : k ∈ rl.rules := by
    rw [hsplit]
    exact List.mem_append_right pre List.mem_cons_self
  exact ⟨rl, k, ru, hrl, hmem, hk, hnext⟩

/-! ### The lookup of a session -/

theorem writeAll_cons (E : Engine) (data : Value) (r : Rewrite) (rest : List Rewrite) :
    writeAll E data (r :: rest) =
      (Rule.setAtPath E data r.path r.value).bind (fun data => writeAll E data rest) :=
  List.foldlM_cons ..

/-- The loop of `create` leaves the data with the rewrites, as far as they go. -/
theorem written_rewriteAll (E : Engine) (data : Value) (rewrites : List Rewrite) :
    Written E data rewrites (rewriteAll E data rewrites).2 := by
  induction rewrites generalizing data with
  | nil => exact Or.inl rfl
  | cons r rest ih =>
    unfold rewriteAll
    cases hset : Rule.setAtPath E data r.path r.value with
    | error e => exact Or.inr ⟨[], r, rest, e, rfl, rfl, hset⟩
    | ok next =>
      have hcons (l : List Rewrite) : writeAll E data (r :: l) = writeAll E next l := by
        rw [writeAll_cons, hset]
        rfl
      rcases ih next with hall | ⟨before, r', after, e, rfl, hbefore, hfail⟩
      · exact Or.inl ((hcons rest).trans hall)
      · exact Or.inr ⟨r :: before, r', after, e, rfl, (hcons before).trans hbefore, hfail⟩

/-- What `create` makes of what the lookup gave. -/
theorem create_eq (E : Engine) (name : String) {origin : String} {source : Listener}
    (hsource : x.store.getListener origin = some source) (out : Except Err (Option Rule)) :
    ∃ route data, Rewritten x E out data ∧ ∀ (fuel : ℕ) (c c' : Counters),
      lookup x fuel source.rules c = some (out, c') →
        create x E fuel name origin c = some ⟨route, data, c'⟩ := by
  unfold create
  rw [hsource]
  dsimp only
  rcases out with e | _ | ru
  · refine ⟨.error (.err e), x.metadata, rfl, ?_⟩
    intro fuel c c' h
    rw [h]
    rfl
  · refine ⟨.error (.err (.notFound ("No route for session \"" ++ name ++ "\""))), x.metadata,
      rfl, ?_⟩
    intro fuel c c' h
    rw [h]
    rfl
  · have hwritten := written_rewriteAll E x.metadata ((x.body ru.id).rewrite.getD [])
    cases hrew : rewriteAll E x.metadata ((x.body ru.id).rewrite.getD []) with
    | mk result data =>
      rw [hrew] at hwritten
      cases result with
      | error e =>
        refine ⟨.error (.access e), data, hwritten, ?_⟩
        intro fuel c c' h
        rw [h, Option.map_some]
        dsimp only
        rw [hrew]
      | ok =>
        refine ⟨(findRoute x name ru.route).mapError .err, data, hwritten, ?_⟩
        intro fuel c c' h
        rw [h, Option.map_some]
        dsimp only
        rw [hrew]

/-- Where no rulelist refers to itself over others, the lookup gives what the first matches select,
the rules on their path are counted, and `create` has the metadata as they were, with the rewrites
of the action written one after the other. -/
theorem lookup_selects (x : Context) (hacyclic : ∀ n, ¬TransGen (Refers x) n n) (n : String)
    (c : Counters) : ∃ path out least,
      (∀ path' out', Selects x n path' out' ↔ path' = path ∧ out' = out) ∧
      (∀ fuel, least ≤ fuel → lookup x fuel n c = some (out, Counters.along path c)) ∧
      ∀ (E : Engine) (name origin : String) (source : Listener),
        x.store.getListener origin = some source → source.rules = n →
          ∃ route data, Rewritten x E out data ∧ ∀ fuel, least ≤ fuel →
            create x E fuel name origin c = some ⟨route, data, Counters.along path c⟩ := by
  have happlies : ∀ m, ¬TransGen (Applies x) m m :=
    fun m h => hacyclic m (TransGen.mono (fun _ _ => Refers.of_applies) m m h)
  have hends : Chasing.Ends (Applies x) n :=
    (Chasing.ends_iff (finite_sources x n)).mpr (fun m _ => happlies m)
  obtain ⟨path, out, least, hsel, hout⟩ := selects_of_ends hends c
  rw [Counters.foldl_bump (hsel.nodup happlies)] at hout
  refine ⟨path, out, least, ?_, hout, ?_⟩
  · intro path' out'
    constructor
    · exact hsel.unique
    · rintro ⟨rfl, rfl⟩
      exact hsel
  · rintro E name origin source hsource rfl
    obtain ⟨route, data, hdata, hcreate⟩ := create_eq E name hsource out
    exact ⟨route, data, hdata, fun fuel hfuel => hcreate fuel c _ (hout fuel hfuel)⟩

/-- A rule that does not match is skipped, the next one applies the rulelist "b". -/
def applying : Context where
  store := { Store.empty with
    listeners := [⟨5, "l", .test, "a", false, true⟩]
    rulelists := [⟨0, "a", ["p", "q"], false⟩, ⟨1, "b", ["r"], false⟩]
    rules := [⟨2, "p", .named "s", false⟩, ⟨3, "q", .absent, false⟩, ⟨4, "r", .named "t", false⟩] }
  body := fun id => match id with
    | 2 => ⟨some .empty, none, none⟩
    | 3 => ⟨none, some (.str "b"), none⟩
    | _ => ⟨none, none, some [⟨"/IP", .str "10.0.0.1"⟩, ⟨"/IP/", .str "10.0.0.2"⟩]⟩
  test := fun _ _ => false
  metadata := .empty

theorem applying_refers {n m : String} (h : Refers applying n m) : n = "a" ∧ m = "b" := by
  obtain ⟨rl, k, ru, hrl, hk, hru, hnext⟩ := h
  obtain ⟨hmem, rfl⟩ := KeyedList.lookup_some hrl
  obtain ⟨hmem', rfl⟩ := KeyedList.lookup_some hru
  simp only [applying, List.mem_cons, List.not_mem_nil, or_false] at hmem hmem'
  rcases hmem' with rfl | rfl | rfl
  · exact nomatch hnext
  · rcases hmem with rfl | rfl
    · cases hnext
      exact ⟨rfl, rfl⟩
    · exact absurd hk (by decide)
  · exact nomatch hnext

/-- A session of the listener "l" takes this way: its metadata has the last rewrite, and the rules
that matched are counted. -/
theorem lookup_selects_applying : ∃ path out least,
    (∀ path' out', Selects applying "a" path' out' ↔ path' = path ∧ out' = out) ∧
    (∀ fuel, least ≤ fuel → lookup applying fuel "a" (fun _ => 0) =
      some (out, Counters.along path (fun _ => 0))) ∧ ∃ route, ∀ fuel, least ≤ fuel →
        create applying ⟨fun _ _ => false, fun n => toString n⟩ fuel "s" "l" (fun _ => 0) =
          some ⟨route, .node false [("IP", .str "10.0.0.2")],
            Counters.along path (fun _ => 0)⟩ := by
  have hacyclic : ∀ n, ¬TransGen (Refers applying) n n := by
    intro n h
    obtain ⟨b, hfirst, -⟩ := TransGen.head'_iff.mp h
    obtain ⟨c, -, hlast⟩ := TransGen.tail'_iff.mp h
    have hne : "a" = "b" := (applying_refers hfirst).1.symm.trans (applying_refers hlast).2
    exact absurd hne (by decide)
  obtain ⟨path, out, least, hsel, hout, hcreate⟩ :=
    lookup_selects applying hacyclic "a" (fun _ => 0)
  obtain ⟨route, data, hdata, hroute⟩ :=
    hcreate ⟨fun _ _ => false, fun n => toString n⟩ "s" "l" _ rfl rfl
  refine ⟨path, out, least, hsel, hout, route, ?_⟩
  -- the rule "r" in "b" is the one that is found
  have hfound : out = .ok (some ⟨4, "r", .named "t", false⟩) := by
    have hlookup := hout (least + 2) (Nat.le_add_right _ _)
    exact congrArg Prod.fst (Option.some.inj hlookup).symm
  subst hfound
  have hdata' : data = .node false [("IP", .str "10.0.0.2")] := by
    rcases hdata with hall | ⟨before, r, after, e, hsplit, hbefore, hfail⟩
    · exact (Except.ok.inj hall).symm
    · rcases before with _ | ⟨r₁, _ | ⟨r₂, before⟩⟩
      · cases hsplit
        cases hbefore
        cases hfail
      · cases hsplit
        cases hbefore
        cases hfail
      · have hlength : 2 = before.length + 1 + 1 + (after.length + 1) :=
          (congrArg List.length hsplit).trans List.length_append
        omega
  rw [hdata'] at hroute
  exact hroute

end Lookup
end L7mp
