import L7mp.StoreCleared

/-! When the recursive deletion of a listener, a rulelist, a rule or a route removes the object
with all and only what was generated for it. -/
namespace L7mp
open Aborting Clearing Config Coroutine GuardedRun KeyedList

namespace Store

variable {w₀ w : Store} {D S : Set Node} {R : List Listener × List RuleList × List RuleList}

/-! ### The rules of a rulelist -/

/-- The rulelist object of an id, while it is in its collection. -/
theorem ruleList?_eq (h : w.Orderly) {x : RuleList} (hx : x ∈ w.rulelists) :
    w.ruleList? x.id = some x := by
  have hfind : w.rulelists.find? (fun rl => rl.id = x.id) = some x := by
    have hids : Distinct RuleList.id w.rulelists := h.listIds
    exact hids.lookup hx
  rw [ruleList?, List.find?_append, hfind]
  rfl

/-- The first element of a name leaves the list. -/
theorem dropFromRuleList_eq (h : w.Orderly) (A : Answers) {x : RuleList} (hx : x ∈ w.rulelists)
    {m : String} (hm : m ∈ x.rules) :
    ∃ k, Store.dropFromRuleList A x.id m w =
      (.ok (), w.modifyRuleList x.id (fun rl => { rl with rules := rl.rules.eraseIdx k })) ∧
      ∀ m' ∈ x.rules, m' ≠ m → m' ∈ x.rules.eraseIdx k := by
  have hlist := ruleList?_eq h hx
  obtain ⟨k, hk⟩ : ∃ k, x.rules.findIdx? (fun r => r = m) = some k := by
    rw [← Option.isSome_iff_exists, List.findIdx?_isSome, List.any_eq_true]
    exact ⟨m, hm, by simp⟩
  obtain ⟨hlt, hget, -⟩ := List.findIdx?_eq_some_iff_getElem.mp hk
  refine ⟨k, ?_, ?_⟩
  · have hpos : w.position x.id m = k := by
      unfold Store.position
      rw [hlist, Option.bind_some, hk]
    have hrange : ¬ ((k : ℤ) < 0 ∨ (k : ℤ) > x.rules.length) := by omega
    unfold Store.dropFromRuleList Store.deleteRuleFromRuleList
    simp only [hpos, hlist, if_neg hrange]
    rfl
  · intro m' hm' hne
    obtain ⟨j, hj, hjm⟩ := List.getElem_of_mem hm'
    rw [List.mem_eraseIdx_iff_getElem]
    refine ⟨j, hj, ?_, hjm⟩
    intro hjk
    subst hjk
    apply hne
    rw [← hjm]
    exact of_decide_eq_true hget

/-- The other rulelists do not change. -/
theorem filter_modifyRuleList {l : List RuleList} {i : ℕ} {n : String} {f : RuleList → RuleList}
    (hf : ∀ rl, (f rl).name = rl.name) (hi : ∀ rl ∈ l, rl.id = i → rl.name = n) :
    (l.map (fun rl => if rl.id = i then f rl else rl)).filter (fun rl => rl.name ≠ n) =
      l.filter (fun rl => rl.name ≠ n) := by
  induction l with
  | nil => rfl
  | cons rl l ih =>
    have ih := ih (fun rl hrl => hi rl (List.mem_cons_of_mem _ hrl))
    rw [List.map_cons]
    by_cases hid : rl.id = i
    · have hname := hi rl List.mem_cons_self hid
      rw [if_pos hid, List.filter_cons_of_neg (by simp [hf, hname]),
        List.filter_cons_of_neg (by simp [hname]), ih]
    · rw [if_neg hid]
      by_cases hname : rl.name = n
      · rw [List.filter_cons_of_neg (by simp [hname]), List.filter_cons_of_neg (by simp [hname]),
          ih]
      · rw [List.filter_cons_of_pos (by simp [hname]), List.filter_cons_of_pos (by simp [hname]),
          ih]

/-- A rule leads to no other rule. -/
theorem rule_mem_reached {c : Config} {P : Node → Prop} {m m' : String} :
    Node.rule m' ∈ c.reached P (.rule m) ↔ m' = m := by
  constructor
  · intro h
    rcases rank_of_reached h with heq | hlt
    · cases heq
      rfl
    · exact absurd hlt (Nat.lt_irrefl _)
  · intro h
    rw [h]
    exact self_mem_reached

/-- The lists of the store while rulelist `n` is being deleted: it is there as object `i`, with
the rules that are still to be deleted, and the rest is as in `R`. -/
structure Emptying (R : List Listener × List RuleList × List RuleList) (i : ℕ) (n : String)
    (ns : List String) (S : Set Node) (w : Store) : Prop where
  listeners : w.listeners = R.1
  others : w.rulelists.filter (fun rl => rl.name ≠ n) = R.2.1.filter (fun rl => rl.name ≠ n)
  here : ∃ x ∈ w.rulelists, x.id = i ∧ x.name = n ∧ ∀ m ∈ ns, Node.rule m ∉ S → m ∈ x.rules

theorem Emptying.of_lists {i : ℕ} {n : String} {ns : List String} {w' : Store}
    (h : Emptying R i n ns S w) (hlisteners : w'.listeners = w.listeners)
    (hrulelists : w'.rulelists = w.rulelists) : Emptying R i n ns S w' := by
  obtain ⟨h₁, h₂, h₃⟩ := h
  rw [← hlisteners] at h₁
  rw [← hrulelists] at h₂ h₃
  exact ⟨h₁, h₂, h₃⟩

section Functions

variable (h₀ : w₀.Orderly) (A : Answers)

/-- Before its deletion, a generated rule leaves the list. -/
theorem drop_cleared {r : Rule} {i : ℕ} {n : String} {ns : List String}
    (hnot : Node.rule r.name ∉ S) {R' : List Listener × List RuleList × List RuleList}
    (h : Cleared w₀.toConfig D R' S w) (hlist : Emptying R i n (r.name :: ns) S w) :
    ∃ w₁, (if r.autogenerated then Store.dropFromRuleList A i r.name else skip) w = (.ok (), w₁) ∧
      ∃ R₁, Cleared w₀.toConfig D R₁ S w₁ ∧
        Emptying R i n ns (S ∪ w₀.toConfig.reached w₀.toConfig.Followed (.rule r.name)) w₁ := by
  obtain ⟨hlisteners, hothers, x, hx, hid, hname, hrules⟩ := hlist
  have hleft : ∀ m, Node.rule m ∉ S ∪ w₀.toConfig.reached w₀.toConfig.Followed (.rule r.name) →
      m ≠ r.name ∧ Node.rule m ∉ S := by
    intro m hm
    refine ⟨?_, fun h => hm (Or.inl h)⟩
    intro heq
    apply hm
    rw [heq]
    exact Or.inr self_mem_reached
  by_cases hauto : r.autogenerated = true
  · rw [if_pos hauto]
    obtain ⟨k, hk, hkeep⟩ := dropFromRuleList_eq h.orderly A hx
      (hrules r.name List.mem_cons_self hnot)
    rw [hid] at hk
    let f : RuleList → RuleList := fun rl => { rl with rules := rl.rules.eraseIdx k }
    have hkeeps : ∀ rl, (f rl).name = rl.name ∧ (f rl).id = rl.id := fun _ => ⟨rfl, rfl⟩
    have hsame : w.Same (w.modifyRuleList i f) :=
      same_modifyRuleList (fun rl => (hkeeps rl).1) (fun rl => (hkeeps rl).2) i w
    refine ⟨w.modifyRuleList i f, hk, _,
      ⟨h.orderly.of_same hsame, h.clusters, h.rules, h.routes, h.endpoints, rfl, h.free⟩,
      hlisteners, ?_, f x, ?_, hid, hname, ?_⟩
    · rw [← hothers]
      apply filter_modifyRuleList (fun rl => (hkeeps rl).1)
      intro rl hrl hrli
      have heq : rl = x := by
        have hids : Distinct RuleList.id w.rulelists := h.orderly.listIds
        exact hids.eq hrl hx (hrli.trans hid.symm)
      rw [heq, hname]
    · show f x ∈ w.rulelists.map (fun rl => if rl.id = i then f rl else rl)
      refine List.mem_map.mpr ⟨x, hx, ?_⟩
      rw [if_pos hid]
    · intro m hm hmS
      obtain ⟨hne, hmS⟩ := hleft m hmS
      exact hkeep m (hrules m (List.mem_cons_of_mem _ hm) hmS) hne
  · rw [if_neg hauto]
    refine ⟨w, rfl, R', h, hlisteners, hothers, x, hx, hid, hname, ?_⟩
    intro m hm hmS
    exact hrules m (List.mem_cons_of_mem _ hm) (hleft m hmS).2

include h₀

/-- A registered rule of the list. -/
theorem deleteRuleOf_cleared {r : Rule} {i : ℕ} {n : String} {ns : List String}
    (hr : r ∈ w₀.rules) (hS : Closed (w₀.toConfig.Next w₀.toConfig.Followed) S)
    (hD : w₀.toConfig.reached w₀.toConfig.Followed (.rule r.name) ⊆ D)
    (hnot : Node.rule r.name ∉ S) {R' : List Listener × List RuleList × List RuleList}
    (h : Cleared w₀.toConfig D R' S w) (hlist : Emptying R i n (r.name :: ns) S w) :
    ∃ R', (w.deleteRuleOf A true i r.name).1 = .ok () ∧ Cleared w₀.toConfig D R'
      (S ∪ w₀.toConfig.reached w₀.toConfig.Followed (.rule r.name))
      (w.deleteRuleOf A true i r.name).2 ∧
      Emptying R i n ns (S ∪ w₀.toConfig.reached w₀.toConfig.Followed (.rule r.name))
        (w.deleteRuleOf A true i r.name).2 := by
  have hget : w.getRule r.name = some r := by
    rw [getRule, h.rules]
    exact (lookup_outside h₀.rules).mpr ⟨hr, hnot, rfl⟩
  obtain ⟨w₁, hdrop, R₁, hcleared, hlist₁⟩ := drop_cleared A hnot h hlist
  obtain ⟨hok, hcleared'⟩ := deleteRule_cleared h₀ A hr hS hD hnot hcleared
  have hrun : w.deleteRuleOf A true i r.name = w₁.deleteRule A true r.name := by
    simp only [Store.deleteRuleOf, hget]
    exact seq_of_returns hdrop
  rw [hrun]
  have hlists : ((w₁.deleteRule A true r.name).2.listeners,
      (w₁.deleteRule A true r.name).2.rulelists, (w₁.deleteRule A true r.name).2.detached) =
      (w₁.listeners, w₁.rulelists, w₁.detached) := hcleared'.lists.trans hcleared.lists.symm
  exact ⟨R₁, hok, hcleared', hlist₁.of_lists (congrArg Prod.fst hlists)
    (congrArg (fun l => l.2.1) hlists)⟩

/-- The loop over the rules returns if and only if each is registered when its turn comes. -/
theorem forEach_deleteRuleOf {i : ℕ} {n : String} (ns : List String) {S : Set Node} {w : Store}
    (hS : Closed (w₀.toConfig.Next w₀.toConfig.Followed) S)
    (hD : ∀ m ∈ ns, w₀.toConfig.taken w₀.toConfig.Followed (.rule m) ⊆ D)
    {R' : List Listener × List RuleList × List RuleList}
    (h : Cleared w₀.toConfig D R' S w) (hlist : Emptying R i n ns S w) :
    ((forEach (Store.deleteRuleOf A true i) ns w).1 = .ok () ↔
      ns.Nodup ∧ ∀ m ∈ ns, w₀.toConfig.Followed (.rule m) ∧ Node.rule m ∉ S) ∧
    ((forEach (Store.deleteRuleOf A true i) ns w).1 = .ok () →
      ∃ R' T, Cleared w₀.toConfig D R' (S ∪ T) (forEach (Store.deleteRuleOf A true i) ns w).2 ∧
        Emptying R i n [] (S ∪ T) (forEach (Store.deleteRuleOf A true i) ns w).2 ∧
        ∀ b, b ∈ T ↔ ∃ m ∈ ns, b ∈ w₀.toConfig.reached w₀.toConfig.Followed (.rule m)) := by
  induction ns generalizing S w R' with
  | nil =>
    refine ⟨⟨fun _ => ⟨List.nodup_nil, fun m hm => by cases hm⟩, fun _ => rfl⟩, fun _ => ?_⟩
    refine ⟨R', ∅, ?_, ?_, ?_⟩
    · rw [Set.union_empty]
      exact h
    · rw [Set.union_empty]
      exact hlist
    · simp
  | cons m ns ih =>
    rw [forEach]
    by_cases hm : w₀.toConfig.Followed (.rule m) ∧ Node.rule m ∉ S
    · obtain ⟨hF, hnot⟩ := hm
      have hrule : ∃ r ∈ w₀.rules, r.name = m := hF
      obtain ⟨r, hr, hname⟩ := hrule
      have hDm := hD m List.mem_cons_self
      rw [taken_eq_reached hF] at hDm
      subst hname
      obtain ⟨R₁, hok, hcleared, hlist₁⟩ := deleteRuleOf_cleared h₀ A hr hS hDm hnot h hlist
      obtain ⟨hiff, hafter⟩ := ih (hS.union (closed_reached (.rule r.name)))
        (fun m' hm' => hD m' (List.mem_cons_of_mem _ hm')) hcleared hlist₁
      rw [seq_ok, seq_state hok]
      refine ⟨?_, ?_⟩
      · rw [and_iff_right hok, hiff, List.nodup_cons, List.forall_mem_cons,
          and_iff_right (show _ ∧ _ from ⟨hF, hnot⟩)]
        constructor
        · rintro ⟨hnodup, hall⟩
          refine ⟨⟨?_, hnodup⟩, ?_⟩
          · intro hmem
            exact (hall _ hmem).2 (Or.inr self_mem_reached)
          · intro m' hm'
            exact ⟨(hall m' hm').1, fun h => (hall m' hm').2 (Or.inl h)⟩
        · rintro ⟨⟨hhead, hnodup⟩, hall⟩
          refine ⟨hnodup, ?_⟩
          intro m' hm'
          refine ⟨(hall m' hm').1, ?_⟩
          rintro (hin | hin)
          · exact (hall m' hm').2 hin
          · rw [rule_mem_reached.mp hin] at hm'
            exact hhead hm'
      · rintro ⟨-, hrest⟩
        obtain ⟨R₂, T, hcleared₂, hlist₂, hT⟩ := hafter hrest
        rw [Set.union_assoc] at hcleared₂ hlist₂
        refine ⟨R₂, _, hcleared₂, hlist₂, ?_⟩
        intro b
        rw [Set.mem_union, hT]
        simp
    · -- the rule is not there, or not any more
      have hnone : w.getRule m = none := by
        apply Option.eq_none_iff_forall_ne_some.mpr
        intro r hr
        rw [getRule, h.rules] at hr
        obtain ⟨hmem, hnot, hname⟩ := (lookup_outside h₀.rules).mp hr
        rw [hname] at hnot
        exact hm ⟨⟨r, hmem, hname⟩, hnot⟩
      have hthrow : (w.deleteRuleOf A true i m).1 ≠ .ok () := by
        simp only [Store.deleteRuleOf, Store.deleteRule, hnone]
        exact fun h => by cases h
      rw [seq_ok]
      refine ⟨⟨fun hok => absurd hok.1 hthrow, ?_⟩, fun hok => absurd hok.1 hthrow⟩
      rintro ⟨-, hall⟩
      exact absurd (hall m List.mem_cons_self) hm

end Functions

/-! ### The four functions -/

/-- The sessions can do without every cluster that a deletion of `a` comes to. -/
def Unhindered (w : Store) (a : Node) : Prop :=
  ∀ cl ∈ w.clusters, Node.cluster cl.name ∈ w.toConfig.reached w.toConfig.Followed a →
    ∀ s ∈ w.sessions, s.Closable cl.name (cl.endpoints.map EndPoint.name)

/-- The rules of the list are different, and all of them are there and were generated. -/
def Disposable (w : Store) (rl : RuleList) : Prop :=
  rl.rules.Nodup ∧ ∀ m ∈ rl.rules, w.toConfig.Implicit (.rule m)

/-- The deletion of `a` returns, and exactly `a` and the implicit objects that are reached from it
through implicit objects are gone. -/
structure Deleted (w : Store) (a : Node) (r : Except Err Unit) (w' : Store) : Prop where
  returns : r = .ok ()
  config : w'.toConfig = w.toConfig.without (w.toConfig.reached w.toConfig.Implicit a)

/-- Nothing is gone yet. -/
theorem cleared_start (h₀ : w₀.Orderly) {a : Node} (hfree : w₀.Unhindered a) :
    Cleared w₀.toConfig (w₀.toConfig.reached w₀.toConfig.Followed a)
      (w₀.listeners, w₀.rulelists, w₀.detached) ∅ w₀ :=
  ⟨h₀, outside_empty.symm, outside_empty.symm, outside_empty.symm, outside_empty.symm, rfl, hfree⟩

/-- Only objects below the rulelists are gone. -/
theorem Cleared.config {T : List RuleList}
    (h : Cleared w₀.toConfig D (w₀.listeners, w₀.rulelists, T) S w)
    (hS : ∀ b ∈ S, b.rank ≤ 3) : w.toConfig = w₀.toConfig.without S := by
  have hlisteners : w.listeners = w₀.listeners := congrArg Prod.fst h.lists
  have hrulelists : w.rulelists = w₀.rulelists := congrArg (fun l => l.2.1) h.lists
  have heq : w.toConfig = ⟨w.listeners, w.clusters, w.rulelists, w.rules, w.routes,
    w.endpoints⟩ := rfl
  rw [heq, without, outside_of_rank (l := w₀.listeners) hS (by simp),
    outside_of_rank (l := w₀.rulelists) hS (by simp), hlisteners, hrulelists, h.clusters, h.rules,
    h.routes, h.endpoints]

/-- Below the rules, the functions go on to what was generated. -/
theorem reached_implicit {c : Config} {a : Node} (ha : a.rank ≤ 3) :
    c.reached c.Followed a = c.reached c.Implicit a := by
  apply reached_congr
  intro b hb
  cases b with
  | rule n => exact absurd hb (by simpa [Node.rank] using ha)
  | _ => rfl

/-- A deletion from the rules down. -/
theorem Cleared.deleted {a : Node} (ha : a.rank ≤ 3) {r : Except Err Unit} (hok : r = .ok ())
    (h : Cleared w₀.toConfig D (w₀.listeners, w₀.rulelists, w₀.detached)
      (∅ ∪ w₀.toConfig.reached w₀.toConfig.Followed a) w) : w₀.Deleted a r w := by
  rw [Set.empty_union] at h
  refine ⟨hok, ?_⟩
  rw [h.config (fun b hb => Nat.le_trans (rank_le_of_reached hb) ha), reached_implicit ha]

theorem deleteRoute_deleted (h₀ : w₀.Orderly) (A : Answers) {r : Route} (hr : r ∈ w₀.routes)
    (hfree : w₀.Unhindered (.route r.name)) : w₀.Deleted (.route r.name)
      (w₀.deleteRoute A true r.name).1 (w₀.deleteRoute A true r.name).2 := by
  obtain ⟨hok, hcleared⟩ := deleteRoute_cleared h₀ A hr closed_empty (Set.Subset.refl _)
    (Set.notMem_empty _) (cleared_start h₀ hfree)
  exact hcleared.deleted (by simp) hok

theorem deleteRule_deleted (h₀ : w₀.Orderly) (A : Answers) {r : Rule} (hr : r ∈ w₀.rules)
    (hfree : w₀.Unhindered (.rule r.name)) : w₀.Deleted (.rule r.name)
      (w₀.deleteRule A true r.name).1 (w₀.deleteRule A true r.name).2 := by
  obtain ⟨hok, hcleared⟩ := deleteRule_cleared h₀ A hr closed_empty (Set.Subset.refl _)
    (Set.notMem_empty _) (cleared_start h₀ hfree)
  exact hcleared.deleted (a := .rule r.name) (by simp) hok

theorem refers_rulelist (h₀ : w₀.Orderly) {rl : RuleList} (hrl : rl ∈ w₀.rulelists)
    (m : String) : w₀.toConfig.Refers (.rulelist rl.name) (.rule m) ↔ m ∈ rl.rules := by
  constructor
  · rintro ⟨rl', hrl', hname, hm⟩
    rwa [h₀.rulelists.eq hrl' hrl hname] at hm
  · intro hm
    exact ⟨rl, hrl, rfl, hm⟩

/-- A rulelist of rules that are there leads to what its rules lead to. -/
theorem reached_rulelist (h₀ : w₀.Orderly) {rl : RuleList} (hrl : rl ∈ w₀.rulelists)
    (hall : ∀ m ∈ rl.rules, w₀.toConfig.Followed (.rule m)) {T : Set Node}
    (hT : ∀ b, b ∈ T ↔ ∃ m ∈ rl.rules, b ∈ w₀.toConfig.reached w₀.toConfig.Followed (.rule m)) :
    w₀.toConfig.reached w₀.toConfig.Followed (.rulelist rl.name) =
      T ∪ {Node.rulelist rl.name} := by
  rw [reached_eq]
  apply congrArg (· ∪ {Node.rulelist rl.name})
  ext b
  rw [hT]
  constructor
  · rintro ⟨m, hm, hb⟩
    cases m with
    | rule m => exact ⟨m, (refers_rulelist h₀ hrl m).mp hm, hb.2⟩
    | _ => exact hm.elim
  · rintro ⟨m, hm, hb⟩
    exact ⟨.rule m, (refers_rulelist h₀ hrl m).mpr hm, hall m hm, hb⟩

/-- When its rules are gone, the rulelist goes. -/
theorem Emptying.config (h₀ : w₀.Orderly) {n : String} {i : ℕ} {ns : List String} {T : Set Node}
    (hT : ∀ b ∈ T, b.rank ≤ 3) (hcleared : Cleared w₀.toConfig D R T w)
    (h : Emptying (w₀.listeners, w₀.rulelists, w₀.detached) i n ns T w) :
    (w.dropRuleList n).toConfig = w₀.toConfig.without (T ∪ {Node.rulelist n}) := by
  have hrank : ∀ b ∈ T ∪ {Node.rulelist n}, b.rank ≤ 4 := by
    rintro b (hb | rfl)
    · exact Nat.le_succ_of_le (hT b hb)
    · exact Nat.le_refl 4
  have hrulelists : remove RuleList.name n w.rulelists =
      outside (fun rl => .rulelist rl.name) (T ∪ {Node.rulelist n}) w₀.rulelists := by
    have hbefore : remove RuleList.name n w₀.rulelists =
        outside (fun rl => .rulelist rl.name) (∅ ∪ (T ∪ {Node.rulelist n})) w₀.rulelists := by
      rw [← remove_outside h₀.rulelists, outside_empty]
      intro x _
      have hnot : Node.rulelist x.name ∉ T := fun h => absurd (hT _ h) (by simp)
      simp [hnot]
    rw [hcleared.orderly.rulelists.remove_eq_filter, h.others, ← h₀.rulelists.remove_eq_filter,
      hbefore, Set.empty_union]
  have heq : (w.dropRuleList n).toConfig = ⟨w.listeners, w.clusters,
    remove RuleList.name n w.rulelists, w.rules, w.routes, w.endpoints⟩ := rfl
  rw [heq, without, outside_of_rank (l := w₀.listeners) hrank (by simp), h.listeners,
    hrulelists, outside_union (l := w₀.clusters) (by simp),
    outside_union (l := w₀.rules) (by simp), outside_union (l := w₀.routes) (by simp),
    outside_union (l := w₀.endpoints) (by simp), hcleared.clusters, hcleared.rules,
    hcleared.routes, hcleared.endpoints]

/-- When `deleteRuleList` returns, and what it has deleted then. -/
theorem deleteRuleList_returns (h₀ : w₀.Orderly) (A : Answers) {rl : RuleList}
    (hrl : rl ∈ w₀.rulelists) (hfree : w₀.Unhindered (.rulelist rl.name)) :
    ((w₀.deleteRuleList A true rl.name).1 = .ok () ↔
      rl.rules.Nodup ∧ ∀ m ∈ rl.rules, w₀.toConfig.Followed (.rule m)) ∧
    ((w₀.deleteRuleList A true rl.name).1 = .ok () →
      (w₀.deleteRuleList A true rl.name).2.toConfig =
        w₀.toConfig.without (w₀.toConfig.reached w₀.toConfig.Followed (.rulelist rl.name))) := by
  have hget : w₀.getRuleList rl.name = some rl := h₀.rulelists.lookup hrl
  have hstart : Emptying (w₀.listeners, w₀.rulelists, w₀.detached) rl.id rl.name rl.rules ∅ w₀ :=
    ⟨rfl, rfl, rl, hrl, rfl, rfl, fun m hm _ => hm⟩
  obtain ⟨hiff, hafter⟩ := forEach_deleteRuleOf h₀ A rl.rules closed_empty
    (fun m hm => taken_subset_reached ((refers_rulelist h₀ hrl m).mpr hm))
    (cleared_start h₀ hfree) hstart
  have hrun : w₀.deleteRuleList A true rl.name =
      seq (forEach (Store.deleteRuleOf A true rl.id) rl.rules) (update (dropRuleList rl.name)) w₀ := by
    simp only [Store.deleteRuleList, hget, if_true]
  have hreturns : (w₀.deleteRuleList A true rl.name).1 = .ok () ↔
      (forEach (Store.deleteRuleOf A true rl.id) rl.rules w₀).1 = .ok () := by
    rw [hrun, seq_ok]
    exact and_iff_left rfl
  refine ⟨?_, ?_⟩
  · rw [hreturns, hiff]
    simp only [Set.mem_empty_iff_false, not_false_eq_true, and_true]
  intro h
  have hok := hreturns.mp h
  obtain ⟨-, hall⟩ := hiff.mp hok
  obtain ⟨R', T, hcleared, hlist, hT⟩ := hafter hok
  rw [Set.empty_union] at hcleared hlist
  have hrank : ∀ b ∈ T, b.rank ≤ 3 := by
    intro b hb
    obtain ⟨m, -, hb⟩ := (hT b).mp hb
    exact rank_le_of_reached hb
  rw [hrun, seq_state hok, reached_rulelist h₀ hrl (fun m hm => (hall m hm).1) hT]
  exact hlist.config h₀ hrank hcleared

/-- The same for `deleteGeneratedRuleList`. -/
theorem deleteGeneratedRuleList_returns (h₀ : w₀.Orderly) (A : Answers) {n : String}
    (hfree : w₀.toConfig.Followed (.rulelist n) → w₀.Unhindered (.rulelist n)) :
    ((w₀.deleteGeneratedRuleList A true n).1 = .ok () ↔
      ∀ rl ∈ w₀.rulelists, rl.name = n → rl.autogenerated = true →
        rl.rules.Nodup ∧ ∀ m ∈ rl.rules, w₀.toConfig.Followed (.rule m)) ∧
    ((w₀.deleteGeneratedRuleList A true n).1 = .ok () →
      (w₀.deleteGeneratedRuleList A true n).2.toConfig =
        w₀.toConfig.without (w₀.toConfig.taken w₀.toConfig.Followed (.rulelist n))) := by
  by_cases hF : w₀.toConfig.Followed (.rulelist n)
  · have hexists : ∃ rl ∈ w₀.rulelists, rl.name = n ∧ rl.autogenerated = true := hF
    obtain ⟨rl, hrl, hname, hauto⟩ := hexists
    subst hname
    have hget : w₀.getRuleList rl.name = some rl := h₀.rulelists.lookup hrl
    have hrun : w₀.deleteGeneratedRuleList A true rl.name = w₀.deleteRuleList A true rl.name := by
      simp only [Store.deleteGeneratedRuleList, hget, hauto, if_true]
    obtain ⟨hiff, hafter⟩ := deleteRuleList_returns h₀ A hrl (hfree hF)
    rw [hrun, taken_eq_reached hF]
    refine ⟨hiff.trans ?_, hafter⟩
    constructor
    · intro hall rl' hrl' hname _
      rw [h₀.rulelists.eq hrl' hrl hname]
      exact hall
    · intro hall
      exact hall rl hrl rfl hauto
  · have hskip : w₀.deleteGeneratedRuleList A true n = (.ok (), w₀) := by
      unfold Store.deleteGeneratedRuleList
      split
      · rename_i rl hrl
        obtain ⟨hmem, hname⟩ := lookup_some hrl
        have hauto : ¬ rl.autogenerated = true := fun hauto => hF ⟨rl, hmem, hname, hauto⟩
        rw [if_neg hauto]
      · rfl
    rw [hskip, taken_eq_empty hF]
    refine ⟨⟨fun _ rl hrl hname hauto => absurd ⟨rl, hrl, hname, hauto⟩ hF, fun _ => rfl⟩, ?_⟩
    intro _
    exact without_empty.symm

/-- A listener leads to its rulelist. -/
theorem reached_listener (h₀ : w₀.Orderly) {l : Listener} (hl : l ∈ w₀.listeners)
    (P : Node → Prop) : w₀.toConfig.reached P (.listener l.name) =
      w₀.toConfig.taken P (.rulelist l.rules) ∪ {Node.listener l.name} := by
  rw [reached_eq]
  apply congrArg (· ∪ {Node.listener l.name})
  ext b
  constructor
  · rintro ⟨m, hm, hb⟩
    cases m with
    | rulelist m =>
      obtain ⟨l', hl', hname, hrules⟩ := hm
      rw [h₀.listeners.eq hl' hl hname] at hrules
      rw [hrules]
      exact hb
    | _ => exact hm.elim
  · intro hb
    exact ⟨.rulelist l.rules, ⟨l, hl, rfl, rfl⟩, hb⟩

/-- When `deleteListener` returns, and what it has deleted then. -/
theorem deleteListener_returns (h₀ : w₀.Orderly) (A : Answers) {l : Listener}
    (hl : l ∈ w₀.listeners) (hfree : w₀.Unhindered (.listener l.name)) :
    ((w₀.deleteListener A true l.name).1 = .ok () ↔ l.closable = true ∧
      ∀ rl ∈ w₀.rulelists, rl.name = l.rules → rl.autogenerated = true →
        rl.rules.Nodup ∧ ∀ m ∈ rl.rules, w₀.toConfig.Followed (.rule m)) ∧
    ((w₀.deleteListener A true l.name).1 = .ok () →
      (w₀.deleteListener A true l.name).2.toConfig =
        w₀.toConfig.without (w₀.toConfig.reached w₀.toConfig.Followed (.listener l.name))) := by
  have hget : w₀.getListener l.name = some l := h₀.listeners.lookup hl
  have hreached := reached_listener h₀ hl w₀.toConfig.Followed
  obtain ⟨hiff, hafter⟩ := deleteGeneratedRuleList_returns h₀ A (n := l.rules) (by
    intro hF cl hcl hmem
    apply hfree cl hcl
    rw [hreached, taken_eq_reached hF]
    exact Or.inl hmem)
  have hrun : w₀.deleteListener A true l.name = seq
      (seq (Store.deleteGeneratedRuleList A true l.rules) (update (endSessionsOf l.name)))
      (seq (if l.closable then skip else throw .typeError)
        (update (fun w => { w with listeners := remove Listener.name l.name w.listeners }))) w₀ := by
    simp only [Store.deleteListener, hget, if_true]
  have hclose : ∀ u : Store, ((if l.closable then skip else throw .typeError : Op Store Err) u).1 =
      .ok () ↔ l.closable = true := by
    intro u
    by_cases hc : l.closable = true
    · rw [if_pos hc]
      exact ⟨fun _ => hc, fun _ => rfl⟩
    · rw [if_neg hc]
      exact ⟨fun h => (by cases h), fun h => absurd h hc⟩
  have hreturns : (w₀.deleteListener A true l.name).1 = .ok () ↔
      (w₀.deleteGeneratedRuleList A true l.rules).1 = .ok () ∧ l.closable = true := by
    rw [hrun, seq_ok, seq_ok, seq_ok, hclose]
    constructor
    · rintro ⟨⟨hok, -⟩, hc, -⟩
      exact ⟨hok, hc⟩
    · rintro ⟨hok, hc⟩
      exact ⟨⟨hok, rfl⟩, hc, rfl⟩
  refine ⟨?_, ?_⟩
  · rw [hreturns, hiff, and_comm]
  intro h
  obtain ⟨hok, hclosable⟩ := hreturns.mp h
  have hconfig := hafter hok
  have hfirst : (seq (Store.deleteGeneratedRuleList A true l.rules)
      (update (endSessionsOf l.name)) w₀).1 = .ok () := seq_ok.mpr ⟨hok, rfl⟩
  have hstate : (w₀.deleteListener A true l.name).2.toConfig =
      { (w₀.deleteGeneratedRuleList A true l.rules).2.toConfig with
        listeners := remove Listener.name l.name
          (w₀.deleteGeneratedRuleList A true l.rules).2.listeners } := by
    rw [hrun, seq_state hfirst, seq_state ((hclose _).mpr hclosable), seq_state hok, hclosable]
    rfl
  have hlisteners : remove Listener.name l.name (outside (fun l => .listener l.name)
      (w₀.toConfig.taken w₀.toConfig.Followed (.rulelist l.rules)) w₀.listeners) =
      outside (fun l => .listener l.name)
        (w₀.toConfig.taken w₀.toConfig.Followed (.rulelist l.rules) ∪ {Node.listener l.name})
        w₀.listeners := remove_outside h₀.listeners (by simp)
  rw [hstate, hconfig, hreached, without, without]
  rw [← hlisteners, outside_union (l := w₀.clusters) (by simp), outside_union (l := w₀.rulelists) (by simp),
    outside_union (l := w₀.rules) (by simp), outside_union (l := w₀.routes) (by simp),
    outside_union (l := w₀.endpoints) (by simp)]

/-! ### What should be deleted -/

/-- The rules that are gone say which rules were to go. -/
theorem rule_mem_of_without {c : Config} {S T : Set Node} (h : c.without S = c.without T)
    {r : Rule} (hr : r ∈ c.rules) (hS : Node.rule r.name ∈ S) : Node.rule r.name ∈ T := by
  by_contra hT
  have hmem : r ∈ (c.without S).rules := by
    rw [h]
    exact mem_outside.mpr ⟨hr, hT⟩
  exact (mem_outside.mp hmem).2 hS

/-- The deletion does not stop at a rule of such a list. -/
theorem Disposable.followed {rl : RuleList} (h : w₀.Disposable rl) :
    rl.rules.Nodup ∧ ∀ m ∈ rl.rules, w₀.toConfig.Followed (.rule m) := by
  refine ⟨h.1, ?_⟩
  intro m hm
  have hrule : ∃ r ∈ w₀.rules, r.name = m ∧ r.autogenerated = true := h.2 m hm
  obtain ⟨r, hr, hname, -⟩ := hrule
  exact ⟨r, hr, hname⟩

/-- Where all rules of a list were generated, the functions go on to what was generated. -/
theorem reached_disposable (h₀ : w₀.Orderly) {rl : RuleList} (hrl : rl ∈ w₀.rulelists)
    (h : w₀.Disposable rl) : w₀.toConfig.reached w₀.toConfig.Followed (.rulelist rl.name) =
      w₀.toConfig.reached w₀.toConfig.Implicit (.rulelist rl.name) := by
  rw [reached_eq, reached_eq]
  apply congrArg (· ∪ {Node.rulelist rl.name})
  ext b
  constructor
  · rintro ⟨m, hm, hb⟩
    refine ⟨m, hm, ?_⟩
    cases m with
    | rule m =>
      obtain ⟨rl', hrl', hname, hmem⟩ := hm
      rw [h₀.rulelists.eq hrl' hrl hname] at hmem
      refine ⟨h.2 m hmem, ?_⟩
      rw [← reached_implicit (by simp)]
      exact hb.2
    | _ => exact hm.elim
  · rintro ⟨m, hm, hb⟩
    refine ⟨m, hm, ?_⟩
    cases m with
    | rule m =>
      obtain ⟨r, hr, hname, -⟩ : ∃ r ∈ w₀.rules, r.name = m ∧ r.autogenerated = true := hb.1
      refine ⟨⟨r, hr, hname⟩, ?_⟩
      rw [reached_implicit (by simp)]
      exact hb.2
    | _ => exact hm.elim

/-- A rule that a deleted rulelist lists was generated, if nothing else was deleted. -/
theorem disposable_of_without {rl : RuleList} (hrl : rl ∈ w₀.rulelists)
    {a : Node} (ha : 3 < a.rank) (hlist : Node.rulelist rl.name ∈
      w₀.toConfig.reached w₀.toConfig.Followed a)
    (hrules : rl.rules.Nodup ∧ ∀ m ∈ rl.rules, w₀.toConfig.Followed (.rule m))
    (h : w₀.toConfig.without (w₀.toConfig.reached w₀.toConfig.Followed a) =
      w₀.toConfig.without (w₀.toConfig.reached w₀.toConfig.Implicit a)) : w₀.Disposable rl := by
  refine ⟨hrules.1, ?_⟩
  intro m hm
  have hrule : ∃ r ∈ w₀.rules, r.name = m := hrules.2 m hm
  obtain ⟨r, hr, hname⟩ := hrule
  have hgone : Node.rule r.name ∈ w₀.toConfig.reached w₀.toConfig.Followed a := by
    rw [hname]
    have hnext : w₀.toConfig.Next w₀.toConfig.Followed (.rulelist rl.name) (.rule m) :=
      ⟨⟨rl, hrl, rfl, hm⟩, hrules.2 m hm⟩
    exact closed_reached a _ _ hnext hlist
  rw [← hname]
  rcases of_reached (rule_mem_of_without h hr hgone) with heq | himplicit
  · rw [← heq] at ha
    exact absurd ha (by simp)
  · exact himplicit

theorem deleteRuleList_deleted_iff (h₀ : w₀.Orderly) (A : Answers) {rl : RuleList}
    (hrl : rl ∈ w₀.rulelists) (hfree : w₀.Unhindered (.rulelist rl.name)) :
    w₀.Deleted (.rulelist rl.name) (w₀.deleteRuleList A true rl.name).1
      (w₀.deleteRuleList A true rl.name).2 ↔ w₀.Disposable rl := by
  obtain ⟨hiff, hafter⟩ := deleteRuleList_returns h₀ A hrl hfree
  constructor
  · rintro ⟨hok, hconfig⟩
    rw [hafter hok] at hconfig
    exact disposable_of_without hrl (by simp) self_mem_reached (hiff.mp hok) hconfig
  · intro hdisposable
    have hok := hiff.mpr hdisposable.followed
    refine ⟨hok, ?_⟩
    rw [hafter hok, reached_disposable h₀ hrl hdisposable]

theorem deleteListener_deleted_iff (h₀ : w₀.Orderly) (A : Answers) {l : Listener}
    (hl : l ∈ w₀.listeners) (hfree : w₀.Unhindered (.listener l.name)) :
    w₀.Deleted (.listener l.name) (w₀.deleteListener A true l.name).1
      (w₀.deleteListener A true l.name).2 ↔ l.closable = true ∧
        ∀ rl ∈ w₀.rulelists, rl.name = l.rules → rl.autogenerated = true → w₀.Disposable rl := by
  obtain ⟨hiff, hafter⟩ := deleteListener_returns h₀ A hl hfree
  constructor
  · rintro ⟨hok, hconfig⟩
    rw [hafter hok] at hconfig
    obtain ⟨hclosable, hrules⟩ := hiff.mp hok
    refine ⟨hclosable, ?_⟩
    intro rl hrl hname hauto
    apply disposable_of_without hrl (a := .listener l.name) (by simp) _
      (hrules rl hrl hname hauto) hconfig
    rw [reached_listener h₀ hl, hname, taken_eq_reached ⟨rl, hrl, hname, hauto⟩]
    exact Or.inl self_mem_reached
  · rintro ⟨hclosable, hdisposable⟩
    have hok := hiff.mpr ⟨hclosable, fun rl hrl hname hauto =>
      (hdisposable rl hrl hname hauto).followed⟩
    refine ⟨hok, ?_⟩
    have htaken : w₀.toConfig.taken w₀.toConfig.Followed (.rulelist l.rules) =
        w₀.toConfig.taken w₀.toConfig.Implicit (.rulelist l.rules) := by
      by_cases hF : w₀.toConfig.Implicit (.rulelist l.rules)
      · obtain ⟨rl, hrl, hname, hauto⟩ : ∃ rl ∈ w₀.rulelists, rl.name = l.rules ∧
          rl.autogenerated = true := hF
        rw [← hname, taken_eq_reached ⟨rl, hrl, rfl, hauto⟩, taken_eq_reached ⟨rl, hrl, rfl, hauto⟩,
          reached_disposable h₀ hrl (hdisposable rl hrl hname hauto)]
      · have hF' : ¬ w₀.toConfig.Followed (.rulelist l.rules) := hF
        rw [taken_eq_empty hF, taken_eq_empty hF']
    rw [hafter hok, reached_listener h₀ hl, reached_listener h₀ hl, htaken]

end Store

namespace World

/-- A recursive deletion removes the object with all and only what was generated for it, where the
sessions do not stop it, if and only if the listener can be closed and each rule of the rulelist
that goes is listed once and was generated. -/
theorem deleted_iff (w : World) (h : Run step Spares start w) (A : Answers) (n : String) :
    (∀ l, w.state.getListener n = some l → w.state.Unhindered (.listener n) →
      (w.state.Deleted (.listener n) (w.state.deleteListener A true n).1
        (w.state.deleteListener A true n).2 ↔ l.closable = true ∧
          ∀ rl, w.state.getRuleList l.rules = some rl → rl.autogenerated = true →
            w.state.Disposable rl)) ∧
    (∀ rl, w.state.getRuleList n = some rl → w.state.Unhindered (.rulelist n) →
      (w.state.Deleted (.rulelist n) (w.state.deleteRuleList A true n).1
        (w.state.deleteRuleList A true n).2 ↔ w.state.Disposable rl)) ∧
    (∀ r, w.state.getRule n = some r → w.state.Unhindered (.rule n) →
      w.state.Deleted (.rule n) (w.state.deleteRule A true n).1
        (w.state.deleteRule A true n).2) ∧
    ∀ r, w.state.getRoute n = some r → w.state.Unhindered (.route n) →
      w.state.Deleted (.route n) (w.state.deleteRoute A true n).1
        (w.state.deleteRoute A true n).2 := by
  have h₀ := orderly_reachable h
  refine ⟨?_, ?_, ?_, ?_⟩
  · intro l hget hfree
    obtain ⟨hl, rfl⟩ := lookup_some hget
    rw [Store.deleteListener_deleted_iff h₀ A hl hfree]
    apply and_congr_right
    intro _
    constructor
    · intro hall rl hrl hauto
      obtain ⟨hmem, hname⟩ := lookup_some hrl
      exact hall rl hmem hname hauto
    · intro hall rl hrl hname hauto
      apply hall rl _ hauto
      rw [← hname]
      exact h₀.rulelists.lookup hrl
  · intro rl hget hfree
    obtain ⟨hrl, rfl⟩ := lookup_some hget
    exact Store.deleteRuleList_deleted_iff h₀ A hrl hfree
  · intro r hget hfree
    obtain ⟨hr, rfl⟩ := lookup_some hget
    exact Store.deleteRule_deleted h₀ A hr hfree
  · intro r hget hfree
    obtain ⟨hr, rfl⟩ := lookup_some hget
    exact Store.deleteRoute_deleted h₀ A hr hfree

/-- A listener with a rule of its own, whose route has a cluster of its own. -/
def inlineRoute (n e : String) : List (Event Call (Option Err)) :=
  [inlineListener n [.inline ⟨.plain, none, .ok (some (.inline ⟨.plain, none,
    .inline ⟨.plain, none, .ok .test, none, .ok [.inline ⟨.plain, some e, .ok true⟩]⟩,
    .absent, .absent, .absent⟩))⟩], .resume 0 none, .resume 0 none, .resume 0 none,
    .resume 0 none, .resume 0 none, .resume 0 none, .resume 0 none]

theorem deleted_iff_inline : ∃ w, exec step Spares start (inlineRoute "l" "e" ++
      connectedTo "l-RuleList-0-Rule-0-Route-0-Cluster-0" "e") = some w ∧
    w.state.sessions.map Session.status = [.connected] ∧
    w.state.Deleted (.listener "l") (w.state.deleteListener noAnswers true "l").1
      (w.state.deleteListener noAnswers true "l").2 ∧
    w.state.Deleted (.rulelist "l-RuleList-0")
      (w.state.deleteRuleList noAnswers true "l-RuleList-0").1
      (w.state.deleteRuleList noAnswers true "l-RuleList-0").2 ∧
    w.state.Deleted (.rule "l-RuleList-0-Rule-0")
      (w.state.deleteRule noAnswers true "l-RuleList-0-Rule-0").1
      (w.state.deleteRule noAnswers true "l-RuleList-0-Rule-0").2 ∧
    w.state.Deleted (.route "l-RuleList-0-Rule-0-Route-0")
      (w.state.deleteRoute noAnswers true "l-RuleList-0-Rule-0-Route-0").1
      (w.state.deleteRoute noAnswers true "l-RuleList-0-Rule-0-Route-0").2 := by
  obtain ⟨w, hw⟩ : ∃ w, exec step Spares start (inlineRoute "l" "e" ++
    connectedTo "l-RuleList-0-Rule-0-Route-0-Cluster-0" "e") = some w := ⟨_, rfl⟩
  have hrun := exec_run _ _ _ hw
  have hfree : ∀ a, w.state.Unhindered a := by
    have hall : ∀ cl ∈ w.state.clusters, ∀ s ∈ w.state.sessions,
        s.Closable cl.name (cl.endpoints.map EndPoint.name) := by
      cases hw
      decide
    exact fun a cl hcl _ => hall cl hcl
  have hrule : w.state.getRule "l-RuleList-0-Rule-0" =
      some ⟨2, "l-RuleList-0-Rule-0", .named "l-RuleList-0-Rule-0-Route-0", true⟩ := by
    cases hw
    decide
  have hlist : w.state.getRuleList "l-RuleList-0" =
      some ⟨1, "l-RuleList-0", ["l-RuleList-0-Rule-0"], true⟩ := by
    cases hw
    decide
  have hdisposable : w.state.Disposable ⟨1, "l-RuleList-0", ["l-RuleList-0-Rule-0"], true⟩ := by
    refine ⟨by decide, ?_⟩
    intro m hm
    rw [List.mem_singleton.mp hm]
    exact ⟨_, (lookup_some hrule).1, rfl, rfl⟩
  obtain ⟨hstatus, hlistener, r, hroute⟩ : w.state.sessions.map Session.status = [.connected] ∧
      w.state.getListener "l" = some ⟨0, "l", .test, "l-RuleList-0", false, true⟩ ∧
      ∃ r, w.state.getRoute "l-RuleList-0-Rule-0-Route-0" = some r := by
    cases hw
    exact ⟨by decide, by decide, _, rfl⟩
  have hcond : ∀ rl, w.state.getRuleList "l-RuleList-0" = some rl → rl.autogenerated = true →
      w.state.Disposable rl := by
    intro rl hrl _
    rw [hlist, Option.some_inj] at hrl
    rw [← hrl]
    exact hdisposable
  exact ⟨w, hw, hstatus,
    ((deleted_iff w hrun noAnswers "l").1 _ hlistener (hfree _)).mpr ⟨rfl, hcond⟩,
    ((deleted_iff w hrun noAnswers "l-RuleList-0").2.1 _ hlist (hfree _)).mpr hdisposable,
    (deleted_iff w hrun noAnswers _).2.2.1 _ hrule (hfree _),
    (deleted_iff w hrun noAnswers _).2.2.2 r hroute (hfree _)⟩

/-- A rule of its own, and a rulelist that lists it. -/
def sharedRule (n list : String) : List (Event Call (Option Err)) :=
  [.call ⟨noAnswers, .addRule ⟨.plain, some n, .ok none⟩⟩,
    .call ⟨noAnswers, .addRuleList ⟨.plain, some list, .ok [.named n]⟩⟩, .resume 0 none]

/-- A rule that the user defined goes with a rulelist that lists it. -/
theorem defined_rule_deleted : ¬∀ w, Run step always start w → ∀ A n,
    (∀ l, w.state.getListener n = some l → w.state.Deleted (.listener n)
      (w.state.deleteListener A true n).1 (w.state.deleteListener A true n).2) ∧
    (∀ rl, w.state.getRuleList n = some rl → w.state.Deleted (.rulelist n)
      (w.state.deleteRuleList A true n).1 (w.state.deleteRuleList A true n).2) ∧
    (∀ r, w.state.getRule n = some r → w.state.Deleted (.rule n)
      (w.state.deleteRule A true n).1 (w.state.deleteRule A true n).2) ∧
    ∀ r, w.state.getRoute n = some r → w.state.Deleted (.route n)
      (w.state.deleteRoute A true n).1 (w.state.deleteRoute A true n).2 := by
  intro h
  obtain ⟨w, hw⟩ : ∃ w, exec step always start (sharedRule "r" "rl") = some w := ⟨_, rfl⟩
  obtain ⟨hrules, hlist, hafter⟩ : w.state.rules = [⟨0, "r", .absent, false⟩] ∧
      w.state.getRuleList "rl" = some ⟨1, "rl", ["r"], false⟩ ∧
      (w.state.deleteRuleList noAnswers true "rl").2.rules = [] := by
    cases hw
    decide
  have hconfig := ((h w (exec_run _ _ _ hw) noAnswers "rl").2.1 _ hlist).config
  -- the rule was not generated, so it is not reached
  have hstays : (⟨0, "r", .absent, false⟩ : Rule) ∈
      (w.state.toConfig.without (w.state.toConfig.reached w.state.toConfig.Implicit
        (.rulelist "rl"))).rules := by
    refine mem_outside.mpr ⟨?_, ?_⟩
    · rw [hrules]
      exact List.mem_singleton_self _
    · intro hreached
      rcases of_reached hreached with heq | ⟨r, hr, -, hauto⟩
      · cases heq
      · rw [hrules] at hr
        rw [List.mem_singleton.mp hr] at hauto
        cases hauto
  rw [← hconfig, hafter] at hstays
  cases hstays

end World
end L7mp
