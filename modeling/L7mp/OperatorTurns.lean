import L7mp.OperatorUpdate

/-! What the commands of an update do to the proxy of one pod. -/
namespace L7mp.Operator
open Python

/-! ### What is the same -/

theorem Same.refl (r : Option Registered) : Same r r := rfl

theorem Same.symm {r r' : Option Registered} (h : Same r r') : Same r' r := Eq.symm h

theorem Same.trans {r r' r'' : Option Registered} (h : Same r r') (h' : Same r' r'') :
    Same r r'' := Eq.trans h h'

theorem Same.isSome {r r' : Option Registered} (h : Same r r') : r.isSome = r'.isSome := by
  have hmap := congrArg Option.isSome h
  rwa [Option.isSome_map, Option.isSome_map] at hmap

theorem same_none {r : Option Registered} : Same r none ↔ r = none := by
  unfold Same
  rw [Option.map_none, Option.map_eq_none_iff]

/-- The actions of a pod, one of each name. -/
def PodFits (a : ActionName → Option Action) : Prop := ∀ n act, a n = some act → act.Fits n

/-- Actions are equal exactly if what they register is the same. -/
theorem eqv_iff_same {a b : Action} {n : ActionName} (ha : a.Fits n) (hb : b.Fits n) :
    a.Eqv b ↔ Same (some a.registered) (some b.registered) := by
  unfold Same Action.Eqv Action.registered Value.Eqv
  rw [Option.map_some, Option.map_some, Option.some.injEq, Prod.mk.injEq]
  cases n with
  | obj f =>
    obtain ⟨hname, htype, htarget⟩ := ha
    obtain ⟨hname', htype', htarget'⟩ := hb
    rw [htype, Option.some.injEq] at htype'
    rw [hname, hname', htarget, htarget', htype']
    simp
  | endpoint t ip =>
    rw [show a = _ from ha, show b = _ from hb]
    simp

/-! ### Running the commands of one pod -/

variable {s : ClusterState} {pod : Fqn} {o : Value} {aOld aNew : Actions}

theorem runCommands_pod (l : List Command) (proxies : Fqn → Proxy) :
    runCommands s l proxies pod =
      (l.filter (fun c => c.pod = pod)).foldl (fun p c => (call s c p).2) (proxies pod) := by
  induction l generalizing proxies with
  | nil => rfl
  | cons c l ih =>
    show runCommands s l (fun f => if f = c.pod then (call s c (proxies f)).2 else proxies f) pod = _
    rw [ih]
    by_cases hc : c.pod = pod
    · rw [List.filter_cons_of_pos (by simpa using hc), List.foldl_cons, if_pos hc.symm]
    · rw [List.filter_cons_of_neg (by simpa using hc), if_neg (Ne.symm hc)]

theorem mem_podCommands {c : Command} (hc : c ∈ podCommands aOld aNew pod) : c.pod = pod := by
  obtain ⟨n, -, hn⟩ := List.mem_filterMap.mp hc
  obtain ⟨ch, -, rfl⟩ := Option.map_eq_some_iff.mp hn
  rfl

theorem mem_sortedNames {names : List ActionName} {n : ActionName} :
    n ∈ sortedNames names ↔ n ∈ names := by
  unfold sortedNames
  rw [List.mem_insertionSort, List.mem_dedup]

theorem nodup_sortedNames (names : List ActionName) : (sortedNames names).Nodup :=
  (List.perm_insertionSort _ _).nodup_iff.mpr (List.nodup_dedup names)

/-- The subject of a command has the name that it is filed under. -/
theorem subject_fits {old new : Option Action} {c : Change} {n : ActionName}
    (hold : ∀ a, old = some a → a.Fits n) (hnew : ∀ a, new = some a → a.Fits n)
    (h : change old new = some c) : c.subject.Fits n := by
  cases old with
  | none =>
    cases new with
    | none => cases h
    | some b =>
      cases h
      exact hnew b rfl
  | some a =>
    cases new with
    | none =>
      cases h
      exact hold a rfl
    | some b =>
      simp only [Operator.change] at h
      split_ifs at h
      cases h
      exact hnew b rfl

theorem Action.Fits.name {a : Action} {n : ActionName} (h : a.Fits n) : a.name = n := by
  cases n with
  | obj f => exact h.1
  | endpoint t ip => rw [show a = _ from h]

/-- No command takes the place of another one. -/
theorem commands_eq (hold : ∀ pod, PodFits (fun n => aOld.lookup (pod, n)))
    (hnew : ∀ pod, PodFits (fun n => aNew.lookup (pod, n))) : commands aOld aNew =
    ((aOld ++ aNew).map (fun e => e.1.1)).dedup.flatMap (podCommands aOld aNew) := by
  have hid : ∀ pod, ((podCommands aOld aNew pod).map Command.id).Nodup := by
    intro pod
    unfold podCommands
    rw [List.map_filterMap]
    refine (nodup_sortedNames _).filterMap ?_
    intro n n' i hn hn'
    obtain ⟨x, hx, rfl⟩ := Option.map_eq_some_iff.mp hn
    obtain ⟨c, hc, rfl⟩ := Option.map_eq_some_iff.mp hx
    obtain ⟨x', hx', hid⟩ := Option.map_eq_some_iff.mp hn'
    obtain ⟨c', hc', rfl⟩ := Option.map_eq_some_iff.mp hx'
    have hname := (subject_fits (hold pod n) (hnew pod n) hc).name
    have hname' := (subject_fits (hold pod n') (hnew pod n') hc').name
    rw [← hname, ← hname']
    exact (congrArg (fun i => i.2.2) hid).symm
  unfold commands
  rw [Dict.assign_of_nodup]
  · rw [List.map_map]
    exact List.map_id _
  · rw [List.map_map]
    show ((List.flatMap _ _).map Command.id).Nodup
    rw [List.map_flatMap, List.nodup_flatMap]
    refine ⟨fun pod _ => hid pod, ?_⟩
    refine (List.nodup_dedup _).pairwise_of_forall_ne ?_
    intro x _ y _ hxy i hi hi'
    obtain ⟨c, hc, rfl⟩ := List.mem_map.mp hi
    obtain ⟨c', hc', hid⟩ := List.mem_map.mp hi'
    refine hxy ?_
    rw [← mem_podCommands hc, ← mem_podCommands hc']
    exact (congrArg Prod.fst hid).symm

theorem filter_commands (hold : ∀ pod, PodFits (fun n => aOld.lookup (pod, n)))
    (hnew : ∀ pod, PodFits (fun n => aNew.lookup (pod, n))) (pod : Fqn) :
    (commands aOld aNew).filter (fun c => c.pod = pod) = podCommands aOld aNew pod := by
  rw [commands_eq hold hnew]
  have hone : ∀ l : List Fqn, l.Nodup →
      (l.flatMap (podCommands aOld aNew)).filter (fun c => c.pod = pod) =
        if pod ∈ l then podCommands aOld aNew pod else [] := by
    intro l hl
    induction l with
    | nil => rfl
    | cons x l ih =>
      obtain ⟨hx, hl⟩ := List.nodup_cons.mp hl
      rw [List.flatMap_cons, List.filter_append, ih hl]
      by_cases hpod : x = pod
      · subst hpod
        have hall : (podCommands aOld aNew x).filter (fun c => c.pod = x) =
            podCommands aOld aNew x := by
          apply List.filter_eq_self.mpr
          intro c hc
          simpa using mem_podCommands hc
        rw [hall, if_neg hx, if_pos List.mem_cons_self, List.append_nil]
      · have hnone : (podCommands aOld aNew x).filter (fun c => c.pod = pod) = [] := by
          apply List.filter_eq_nil_iff.mpr
          intro c hc
          rw [mem_podCommands hc]
          simpa using hpod
        rw [hnone, List.nil_append]
        simp [Ne.symm hpod]
  rw [hone _ (List.nodup_dedup _)]
  split_ifs with hmem
  · rfl
  · -- a pod without actions gets no commands
    have hnone : namesOf pod (aOld ++ aNew) = [] := by
      unfold namesOf
      rw [List.map_eq_nil_iff, List.filter_eq_nil_iff]
      intro e he heq
      apply hmem
      rw [List.mem_dedup]
      exact List.mem_map.mpr ⟨e, he, by simpa using heq⟩
    unfold podCommands
    rw [hnone]
    rfl

/-! ### Objects come before endpoints -/

theorem obj_key_lt (f t : Fqn) (ip : String) :
    (ActionName.obj f).key < (ActionName.endpoint t ip).key := by
  rw [String.lt_iff]
  unfold ActionName.key Fqn.render
  simp only [String.toList_append]
  exact List.Lex.rel (by decide)

theorem sortedNames_split (names : List ActionName) : ∃ (objs : List Fqn)
    (eps : List (Fqn × String)), objs.Nodup ∧ eps.Nodup ∧ sortedNames names =
      objs.map .obj ++ eps.map (fun e => .endpoint e.1 e.2) := by
  have hsorted : (sortedNames names).Pairwise (fun a b => a.key ≤ b.key) := by
    have : Std.Total (fun a b : ActionName => a.key ≤ b.key) := ⟨fun a b => le_total a.key b.key⟩
    have : IsTrans ActionName (fun a b => a.key ≤ b.key) := ⟨fun a b c => le_trans⟩
    exact List.pairwise_insertionSort _ _
  have hnodup := nodup_sortedNames names
  suffices hsplit : ∀ l : List ActionName, l.Pairwise (fun a b => a.key ≤ b.key) →
      ∃ (objs : List Fqn) (eps : List (Fqn × String)),
        l = objs.map .obj ++ eps.map (fun e => .endpoint e.1 e.2) by
    obtain ⟨objs, eps, heq⟩ := hsplit _ hsorted
    rw [heq, List.nodup_append] at hnodup
    exact ⟨objs, eps, hnodup.1.of_map _, hnodup.2.1.of_map _, heq⟩
  intro l hl
  induction l with
  | nil => exact ⟨[], [], rfl⟩
  | cons a l ih =>
    obtain ⟨hfirst, hrest⟩ := List.pairwise_cons.mp hl
    obtain ⟨objs, eps, rfl⟩ := ih hrest
    cases a with
    | obj f => exact ⟨f :: objs, eps, rfl⟩
    | endpoint t ip =>
      cases objs with
      | nil => exact ⟨[], (t, ip) :: eps, rfl⟩
      | cons f objs =>
        have hle := hfirst (.obj f) List.mem_cons_self
        exact absurd (obj_key_lt f t ip) (not_lt.mpr hle)

/-! ### What one command does -/

/-- The proxy has objects and endpoints in their places, and no endpoint without its cluster. -/
structure Tidy (p : Proxy) : Prop where
  objects : ∀ f r, p (.obj f) = some r → r.cluster = none
  endpoints : ∀ t ip r, p (.endpoint t ip) = some r →
    Same (some r) (some ⟨some (.obj t), .dict [("address", .str ip)]⟩)
  closed : ∀ t ip, (p (.endpoint t ip)).isSome → (p (.obj t)).isSome
  kinds : ∀ t ip, (p (.endpoint t ip)).isSome → t.kind = "Target"

/-- What is left of an object when the new state wants `n` and the operator saw `o` before. -/
def after (o n r : Option Registered) : Option Registered :=
  if Same o n then r else if o.isSome then n else r.or n

/-- Without an object and its endpoints. -/
def without (f : Fqn) (p : Proxy) : Proxy
  | .obj g => if g = f then none else p (.obj g)
  | .endpoint t ip => if t = f then none else p (.endpoint t ip)

/-- Under which actions the operator compares one name. -/
def turn (s : ClusterState) (o : Value) (old new : ActionName → Option Action) (n : ActionName)
    (p : Proxy) : Proxy :=
  match change (old n) (new n) with
  | none => p
  | some c => (exec s o c p).2

/-- What actions register. -/
def registers (a : ActionName → Option Action) : Proxy := fun n =>
  ((a n).filter (fun a => a.type ≠ .rule)).map Action.registered

theorem PodFits.registers_obj {a : ActionName → Option Action} (ha : PodFits a) {f : Fqn}
    {r : Registered} (h : registers a (.obj f) = some r) : r.cluster = none := by
  obtain ⟨act, hact, rfl⟩ := Option.map_eq_some_iff.mp h
  obtain ⟨hact, -⟩ := Option.filter_eq_some_iff.mp hact
  obtain ⟨-, -, htarget⟩ := ha _ act hact
  unfold Action.registered
  rw [htarget]
  rfl

theorem PodFits.registers_endpoint {a : ActionName → Option Action} (ha : PodFits a) (t : Fqn)
    (ip : String) : registers a (.endpoint t ip) =
      (a (.endpoint t ip)).map (fun _ => ⟨some (.obj t), .dict [("address", .str ip)]⟩) := by
  unfold registers
  cases hact : a (.endpoint t ip) with
  | none => rfl
  | some act =>
    rw [show act = _ from ha _ act hact]
    rfl

section Turn

variable {old new : ActionName → Option Action} {p : Proxy} (hold : PodFits old)
  (hnew : PodFits new) (hinstance : getL7mpInstance o = .ok ()) (hfqn : getFqn o = .ok pod)
  (hlisted : pod ∈ s.pods.map Prod.fst)

include hinstance in
theorem withInstance_eq (f : Exec) : withInstance o f = f := by
  funext p
  unfold withInstance
  rw [hinstance]

include hfqn hlisted in
theorem ifListed_eq (f : Exec) : ifListed s o f = f := by
  funext p
  unfold ifListed
  rw [hfqn]
  exact if_pos hlisted

theorem Tidy.delete (h : Tidy p) {f : Fqn} (hf : f.kind ≠ "Target") :
    p.delete (.obj f) = without f p := by
  funext m
  unfold Proxy.delete without
  cases m with
  | obj g => simp
  | endpoint t ip =>
    rw [if_neg (by simp)]
    dsimp only
    split_ifs with ht
    · rw [← Option.not_isSome_iff_eq_none]
      intro hsome
      exact hf (ht ▸ h.kinds t ip hsome)
    · rfl

theorem Tidy.deleteCluster (h : Tidy p) (f : Fqn) : p.deleteCluster (.obj f) = without f p := by
  have hcluster : ∀ t ip, (p (.endpoint t ip)).filter (fun r => r.cluster ≠ some (.obj f)) =
      if t = f then none else p (.endpoint t ip) := by
    intro t ip
    cases hr : p (.endpoint t ip) with
    | none => simp
    | some r =>
      have hsame := h.endpoints t ip r hr
      unfold Same at hsame
      rw [Option.map_some, Option.map_some, Option.some.injEq, Prod.mk.injEq] at hsame
      rw [Option.filter_some]
      simp [hsame.1]
  unfold Proxy.deleteCluster
  split_ifs with hsome
  · funext m
    cases m with
    | obj g =>
      unfold without
      dsimp only
      by_cases hg : g = f
      · simp [hg]
      · rw [if_neg (by simpa using hg), if_neg hg]
        cases hr : p (.obj g) with
        | none => rfl
        | some r =>
          rw [Option.filter_some, h.objects g r hr]
          rfl
    | endpoint t ip =>
      unfold without
      rw [if_neg (by simp)]
      exact hcluster t ip
  · -- an unknown cluster has no endpoints
    funext m
    cases m with
    | obj g =>
      unfold without
      dsimp only
      split_ifs with hg
      · rw [hg, ← Option.not_isSome_iff_eq_none]
        exact hsome
      · rfl
    | endpoint t ip =>
      unfold without
      dsimp only
      split_ifs with ht
      · rw [← Option.not_isSome_iff_eq_none]
        intro hep
        exact hsome (ht ▸ h.closed t ip hep)
      · rfl

theorem typeOfKind_cases {kind : String} {type : ActionType} (h : typeOfKind kind = some type) :
    type = .vsvc ∧ kind ≠ "Target" ∨ type = .target ∨ type = .rule := by
  unfold typeOfKind at h
  split at h
  · cases h
    exact Or.inl ⟨rfl, by decide⟩
  · cases h
    exact Or.inr (Or.inl rfl)
  · cases h
    exact Or.inr (Or.inr rfl)
  · cases h

theorem exec_rule {c : Change} (h : c.subject.type = .rule) : (exec s o c p).2 = p := by
  unfold exec
  rw [h]
  rfl

include hinstance in
theorem exec_add_obj {b : Action} {f : Fqn} (hb : b.Fits (.obj f)) (hrule : b.type ≠ .rule) :
    (exec s o (.add b) p).2 = p.add (.obj f) b.registered := by
  obtain ⟨hname, htype, -⟩ := hb
  unfold exec Change.subject
  rcases typeOfKind_cases htype with ⟨hvsvc, -⟩ | htarget | hrule'
  · simp only [hvsvc, execAddVsvc, withInstance_eq hinstance, hname]
  · simp only [htarget, execAddTarget, withInstance_eq hinstance, hname]
  · exact absurd hrule' hrule

include hinstance hfqn hlisted in
theorem exec_delete_obj {a : Action} {f : Fqn} (ha : a.Fits (.obj f)) (hrule : a.type ≠ .rule)
    (h : Tidy p) : (exec s o (.delete a) p).2 = without f p := by
  obtain ⟨hname, htype, -⟩ := ha
  unfold exec Change.subject
  rcases typeOfKind_cases htype with ⟨hvsvc, hkind⟩ | htarget | hrule'
  · simp only [hvsvc, execDeleteVsvc, ifListed_eq hfqn hlisted, withInstance_eq hinstance, hname,
      h.delete hkind]
  · simp only [htarget, execDeleteTarget, ifListed_eq hfqn hlisted, withInstance_eq hinstance,
      hname, h.deleteCluster]
  · exact absurd hrule' hrule

include hinstance hfqn hlisted in
theorem exec_change_obj {a b : Action} {f : Fqn} (ha : a.Fits (.obj f)) (hb : b.Fits (.obj f))
    (hrule : b.type ≠ .rule) (h : Tidy p) :
    (exec s o (.change a b) p).2 = (without f p).add (.obj f) b.registered := by
  obtain ⟨hname, -, -⟩ := ha
  obtain ⟨hname', htype, -⟩ := hb
  unfold exec Change.subject
  rcases typeOfKind_cases htype with ⟨hvsvc, hkind⟩ | htarget | hrule'
  · simp only [hvsvc, execChangeVsvc, execDeleteVsvc, execAddVsvc, andThen,
      ifListed_eq hfqn hlisted, withInstance_eq hinstance, hname, hname', h.delete hkind]
  · simp only [htarget, execChangeTarget, execDeleteTarget, execAddTarget, andThen,
      ifListed_eq hfqn hlisted, withInstance_eq hinstance, hname, hname', h.deleteCluster]
  · exact absurd hrule' hrule

/-- The proxy after the command about an object. -/
def settleObj (old new : Proxy) (f : Fqn) (p : Proxy) : Proxy
  | .obj g => if g = f then after (old (.obj f)) (new (.obj f)) (p (.obj f)) else p (.obj g)
  | .endpoint t ip =>
    if t = f ∧ (old (.obj f)).isSome ∧ ¬Same (old (.obj f)) (new (.obj f)) then none
    else p (.endpoint t ip)

theorem settleObj_of_same {wOld wNew : Proxy} {f : Fqn}
    (h : Same (wOld (.obj f)) (wNew (.obj f))) : settleObj wOld wNew f p = p := by
  funext m
  unfold settleObj
  cases m with
  | obj g =>
    dsimp only
    split_ifs with hg
    · rw [hg]
      exact if_pos h
    · rfl
  | endpoint t ip =>
    dsimp only
    rw [if_neg]
    rintro ⟨-, -, hne⟩
    exact hne h

include hold hnew hinstance hfqn hlisted in
theorem turn_obj (h : Tidy p) (f : Fqn) :
    turn s o old new (.obj f) p = settleObj (registers old) (registers new) f p := by
  have hwithout : ∀ {a : ActionName → Option Action}, a (.obj f) = none →
      registers a (.obj f) = none := by
    intro a ha
    unfold registers
    rw [ha]
    rfl
  have hrules : ∀ {a : ActionName → Option Action} {act : Action}, a (.obj f) = some act →
      act.type = .rule → registers a (.obj f) = none := by
    intro a act ha hrule
    unfold registers
    rw [ha]
    simp [hrule]
  have hwith : ∀ {a : ActionName → Option Action} {act : Action}, a (.obj f) = some act →
      act.type ≠ .rule → registers a (.obj f) = some act.registered := by
    intro a act ha hrule
    unfold registers
    rw [ha]
    simp [hrule]
  unfold turn
  cases ho : old (.obj f) with
  | none =>
    cases hn : new (.obj f) with
    | none => exact (settleObj_of_same (by rw [hwithout ho, hwithout hn]; rfl)).symm
    | some b =>
      have hb := hnew _ b hn
      by_cases hrule : b.type = .rule
      · rw [settleObj_of_same (by rw [hwithout ho, hrules hn hrule]; rfl)]
        exact exec_rule hrule
      · refine (exec_add_obj hinstance hb hrule).trans ?_
        funext m
        unfold Proxy.add settleObj after
        rw [hwithout ho, hwith hn hrule]
        cases m with
        | obj g =>
          by_cases hg : g = f
          · simp [hg, Same]
          · simp [hg]
        | endpoint t ip => simp
  | some a =>
    have ha := hold _ a ho
    cases hn : new (.obj f) with
    | none =>
      by_cases hrule : a.type = .rule
      · rw [settleObj_of_same (by rw [hrules ho hrule, hwithout hn]; rfl)]
        exact exec_rule hrule
      · refine (exec_delete_obj hinstance hfqn hlisted ha hrule h).trans ?_
        funext m
        unfold without settleObj after
        rw [hwith ho hrule, hwithout hn]
        cases m with
        | obj g =>
          by_cases hg : g = f
          · simp [hg, Same]
          · simp [hg]
        | endpoint t ip => simp [Same]
    | some b =>
      have hb := hnew _ b hn
      have htype : a.type = b.type := by
        have htypes := ha.2.1.symm.trans hb.2.1
        exact Option.some.inj htypes
      simp only [change]
      by_cases hrule : b.type = .rule
      · rw [settleObj_of_same (by rw [hrules ho (htype.trans hrule), hrules hn hrule]; rfl)]
        split_ifs
        · rfl
        · exact exec_rule hrule
      · have hrule' : a.type ≠ .rule := fun heq => hrule (htype.symm.trans heq)
        by_cases heqv : a.Eqv b
        · have hsame := (eqv_iff_same ha hb).mp heqv
          rw [if_pos heqv, settleObj_of_same (by rw [hwith ho hrule', hwith hn hrule]; exact hsame)]
        · have hdiff : ¬Same (some a.registered) (some b.registered) :=
            fun hsame => heqv ((eqv_iff_same ha hb).mpr hsame)
          rw [if_neg heqv]
          refine (exec_change_obj hinstance hfqn hlisted ha hb hrule h).trans ?_
          funext m
          unfold Proxy.add without settleObj after
          rw [hwith ho hrule', hwith hn hrule]
          cases m with
          | obj g =>
            by_cases hg : g = f
            · simp [hg, hdiff]
            · simp [hg]
          | endpoint t ip => simp [hdiff]

/-- An endpoint that is `o` before and `n` after, when its cluster is there or not. -/
def afterEndpoint (targets : List Fqn) (t : Fqn) (cluster o n r : Option Registered) :
    Option Registered :=
  match o, n with
  | none, some b => if cluster.isSome then r.or (some b) else r
  | some _, none => if t ∈ targets then none else r
  | _, _ => r

include hold hnew hinstance hfqn hlisted in
theorem turn_endpoint (t : Fqn) (ip : String) :
    turn s o old new (.endpoint t ip) p = fun m => if m = .endpoint t ip then
      afterEndpoint (s.targets.map Prod.fst) t (p (.obj t)) (registers old (.endpoint t ip))
        (registers new (.endpoint t ip)) (p (.endpoint t ip)) else p m := by
  rw [hold.registers_endpoint, hnew.registers_endpoint]
  unfold turn
  cases ho : old (.endpoint t ip) with
  | none =>
    cases hn : new (.endpoint t ip) with
    | none =>
      funext m
      show p m = if m = _ then p _ else p m
      split_ifs with hm
      · rw [hm]
      · rfl
    | some b =>
      rw [show b = _ from hnew _ b hn]
      simp only [change, exec, Change.subject, execAddDynamicEndpoint, withInstance_eq hinstance]
      funext m
      by_cases hcluster : (p (.obj t)).isSome = true
      · simp only [hcluster, if_true, Proxy.add, Action.registered, afterEndpoint, Option.map_some,
          Option.map_none]
      · simp only [hcluster, Bool.false_eq_true, if_false, afterEndpoint, Option.map_some,
          Option.map_none]
        split_ifs with hm
        · rw [hm]
        · rfl
  | some a =>
    cases hn : new (.endpoint t ip) with
    | none =>
      rw [show a = _ from hold _ a ho]
      simp only [change, exec, Change.subject, execDeleteDynamicEndpoint,
        withInstance_eq hinstance, ifListed_eq hfqn hlisted]
      funext m
      by_cases ht : t ∈ s.targets.map Prod.fst
      · simp only [ht, not_true, if_false, Proxy.delete, afterEndpoint, Option.map_some,
          Option.map_none, if_true]
      · simp only [ht, not_false_eq_true, if_true, afterEndpoint, Option.map_some, Option.map_none,
          if_false]
        split_ifs with hm
        · rw [hm]
        · rfl
    | some b =>
      rw [show a = _ from hold _ a ho, show b = _ from hnew _ b hn]
      simp only [change, Action.Eqv, Value.Eqv, and_self, if_true]
      funext m
      show p m = if m = _ then p _ else p m
      split_ifs with hm
      · rw [hm]
      · rfl

end Turn

/-! ### What all commands do -/

theorem after_eq_some {o n r : Option Registered} {x : Registered} (h : after o n r = some x) :
    r = some x ∨ n = some x := by
  unfold after at h
  split_ifs at h
  · exact Or.inl h
  · exact Or.inr h
  · rcases Option.or_eq_some_iff.mp h with hr | ⟨-, hn⟩
    · exact Or.inl hr
    · exact Or.inr hn

/-- The command leaves an object as it is wanted. -/
theorem same_after_iff {o n r : Option Registered} : Same (after o n r) n ↔
    (Same o n → Same r n) ∧ (o = none → r = none ∨ Same r n) := by
  unfold after
  split_ifs with hsame hsome
  · exact ⟨fun h => ⟨fun _ => h, fun _ => Or.inr h⟩, fun h => h.1 hsame⟩
  · refine ⟨fun _ => ⟨fun h => absurd h hsame, ?_⟩, fun _ => Same.refl n⟩
    intro ho
    rw [ho] at hsome
    cases hsome
  · have ho : o = none := by simpa using hsome
    cases r with
    | none => exact ⟨fun _ => ⟨fun h => absurd h hsame, fun _ => Or.inl rfl⟩, fun _ => Same.refl n⟩
    | some x =>
      refine ⟨fun h => ⟨fun h' => absurd h' hsame, fun _ => Or.inr h⟩, fun h => ?_⟩
      rcases h.2 ho with hx | hx
      · cases hx
      · exact hx

section Run

variable {old new : ActionName → Option Action} {p : Proxy} (hold : PodFits old)
  (hnew : PodFits new)

include hnew in
theorem Tidy.settleObj (h : Tidy p) (f : Fqn) :
    Tidy (settleObj (registers old) (registers new) f p) := by
  have hless : ∀ t ip, (Operator.settleObj (registers old) (registers new) f p
      (.endpoint t ip)).isSome → (p (.endpoint t ip)).isSome ∧
        ¬(t = f ∧ Dropped (registers old) (registers new) f) := by
    intro t ip hsome
    unfold Operator.settleObj at hsome
    dsimp only at hsome
    split_ifs at hsome with hgone
    · cases hsome
    · exact ⟨hsome, hgone⟩
  constructor
  case objects =>
    intro g r hr
    unfold Operator.settleObj at hr
    dsimp only at hr
    split_ifs at hr
    · rcases after_eq_some hr with hr | hr
      · exact h.objects f r hr
      · exact hnew.registers_obj hr
    · exact h.objects g r hr
  case endpoints =>
    intro t ip r hr
    unfold Operator.settleObj at hr
    dsimp only at hr
    split_ifs at hr
    exact h.endpoints t ip r hr
  case closed =>
    intro t ip hsome
    obtain ⟨hthere, hstays⟩ := hless t ip hsome
    have hcluster := h.closed t ip hthere
    unfold Operator.settleObj
    dsimp only
    split_ifs with ht
    · rw [ht] at hcluster
      unfold after
      split_ifs with hsame ho
      · exact hcluster
      · exact absurd ⟨ht, ho, hsame⟩ hstays
      · obtain ⟨x, hx⟩ := Option.isSome_iff_exists.mp hcluster
        rw [hx]
        rfl
    · exact hcluster
  case kinds => exact fun t ip hsome => h.kinds t ip (hless t ip hsome).1

variable (old new) in
/-- The commands about objects, one after the other. -/
def settleObjs (l : List Fqn) (p : Proxy) : Proxy :=
  l.foldl (fun p f => settleObj (registers old) (registers new) f p) p

theorem settleObjs_obj {l : List Fqn} (hl : l.Nodup) (p : Proxy) (f : Fqn) :
    settleObjs old new l p (.obj f) = if f ∈ l then
      after (registers old (.obj f)) (registers new (.obj f)) (p (.obj f)) else p (.obj f) := by
  induction l generalizing p with
  | nil => rfl
  | cons g l ih =>
    obtain ⟨hg, hl⟩ := List.nodup_cons.mp hl
    show settleObjs old new l (settleObj _ _ g p) (.obj f) = _
    rw [ih hl]
    by_cases hf : f = g
    · subst hf
      rw [if_neg hg, if_pos List.mem_cons_self]
      exact if_pos rfl
    · have hother : settleObj (registers old) (registers new) g p (.obj f) = p (.obj f) := if_neg hf
      rw [hother]
      simp [hf]

theorem settleObjs_endpoint (l : List Fqn) (p : Proxy) (t : Fqn) (ip : String) :
    settleObjs old new l p (.endpoint t ip) =
      if t ∈ l ∧ Dropped (registers old) (registers new) t then none
      else p (.endpoint t ip) := by
  induction l generalizing p with
  | nil => simp [settleObjs]
  | cons g l ih =>
    show settleObjs old new l (settleObj _ _ g p) (.endpoint t ip) = _
    rw [ih]
    by_cases hdrop : Dropped (registers old) (registers new) t
    · by_cases ht : t = g
      · subst ht
        have hgone : settleObj (registers old) (registers new) t p (.endpoint t ip) = none :=
          if_pos ⟨rfl, hdrop⟩
        rw [hgone, ite_self]
        exact (if_pos ⟨List.mem_cons_self, hdrop⟩).symm
      · have hother : settleObj (registers old) (registers new) g p (.endpoint t ip) =
            p (.endpoint t ip) := if_neg (fun h => ht h.1)
        rw [hother]
        simp [ht]
    · have hsame : settleObj (registers old) (registers new) g p (.endpoint t ip) =
          p (.endpoint t ip) := by
        refine if_neg ?_
        rintro ⟨rfl, h⟩
        exact hdrop h
      rw [hsame]
      simp [hdrop]

variable (hinstance : getL7mpInstance o = .ok ()) (hfqn : getFqn o = .ok pod)
  (hlisted : pod ∈ s.pods.map Prod.fst)

variable (s o old new) in
/-- The turns of a list of names. -/
def turns (l : List ActionName) (p : Proxy) : Proxy := l.foldl (fun p n => turn s o old new n p) p

include hold hnew hinstance hfqn hlisted in
theorem turns_objs (h : Tidy p) (l : List Fqn) :
    turns s o old new (l.map .obj) p = settleObjs old new l p := by
  induction l generalizing p with
  | nil => rfl
  | cons f l ih =>
    show turns s o old new (l.map .obj) (turn s o old new (.obj f) p) = _
    rw [turn_obj hold hnew hinstance hfqn hlisted h f, ih (h.settleObj hnew f)]
    rfl

include hold hnew hinstance hfqn hlisted in
theorem turns_endpoints {l : List (Fqn × String)} (hl : l.Nodup) (p : Proxy) :
    turns s o old new (l.map (fun e => .endpoint e.1 e.2)) p = fun m => match m with
      | .obj f => p (.obj f)
      | .endpoint t ip => if (t, ip) ∈ l then
          afterEndpoint (s.targets.map Prod.fst) t (p (.obj t)) (registers old (.endpoint t ip))
            (registers new (.endpoint t ip)) (p (.endpoint t ip))
        else p (.endpoint t ip) := by
  induction l generalizing p with
  | nil =>
    funext m
    cases m <;> simp [turns]
  | cons e l ih =>
    obtain ⟨t₀, ip₀⟩ := e
    obtain ⟨he, hl⟩ := List.nodup_cons.mp hl
    show turns s o old new (l.map _) (turn s o old new (.endpoint t₀ ip₀) p) = _
    rw [turn_endpoint hold hnew hinstance hfqn hlisted, ih hl]
    funext m
    cases m with
    | obj f => rfl
    | endpoint t ip =>
      by_cases heq : (t, ip) = (t₀, ip₀)
      · cases heq
        simp [he]
      · have hne : ActionName.endpoint t ip ≠ .endpoint t₀ ip₀ := by
          intro h
          cases h
          exact heq rfl
        simp [heq, hne]

include hold hnew hinstance hfqn hlisted in
/-- The proxy after all commands of its pod. -/
theorem podCommands_result (hpod : s.pods.lookup pod = some o)
    (hnames : old = (fun n => aOld.lookup (pod, n)) ∧ new = (fun n => aNew.lookup (pod, n)))
    (h : Tidy p) :
    (podCommands aOld aNew pod).foldl (fun p c => (call s c p).2) p = fun m => match m with
      | .obj f => after (registers old (.obj f)) (registers new (.obj f)) (p (.obj f))
      | .endpoint t ip => afterEndpoint (s.targets.map Prod.fst) t
          (after (registers old (.obj t)) (registers new (.obj t)) (p (.obj t)))
          (registers old (.endpoint t ip)) (registers new (.endpoint t ip))
          (if Dropped (registers old) (registers new) t then none else p (.endpoint t ip)) := by
  have hturns : (podCommands aOld aNew pod).foldl (fun p c => (call s c p).2) p =
      turns s o old new (sortedNames (namesOf pod (aOld ++ aNew))) p := by
    unfold podCommands turns
    rw [List.foldl_filterMap]
    congr 1
    funext p n
    unfold turn
    rw [hnames.1, hnames.2]
    cases change (aOld.lookup (pod, n)) (aNew.lookup (pod, n)) with
    | none => rfl
    | some c =>
      unfold call
      simp only [Option.map_some, hpod]
  -- a name that is not listed is the name of no action
  have hunnamed : ∀ n, n ∉ sortedNames (namesOf pod (aOld ++ aNew)) →
      registers old n = none ∧ registers new n = none := by
    intro n hn
    rw [mem_sortedNames] at hn
    have hlookup : ∀ {a : Actions}, (∀ e ∈ a, e ∈ aOld ++ aNew) → a.lookup (pod, n) = none := by
      intro a ha
      rw [Dict.lookup_eq_none]
      intro hmem
      obtain ⟨e, he, hkey⟩ := List.mem_map.mp hmem
      apply hn
      refine List.mem_map.mpr ⟨e, List.mem_filter.mpr ⟨ha e he, ?_⟩, congrArg Prod.snd hkey⟩
      rw [hkey]
      exact decide_eq_true rfl
    unfold registers
    rw [hnames.1, hnames.2]
    dsimp only
    rw [hlookup (fun e he => List.mem_append_left _ he),
      hlookup (fun e he => List.mem_append_right _ he)]
    exact ⟨rfl, rfl⟩
  obtain ⟨objs, eps, hobjs, heps, hsplit⟩ := sortedNames_split (namesOf pod (aOld ++ aNew))
  have hobj : ∀ f, settleObjs old new objs p (.obj f) =
      after (registers old (.obj f)) (registers new (.obj f)) (p (.obj f)) := by
    intro f
    rw [settleObjs_obj hobjs]
    split_ifs with hf
    · rfl
    · obtain ⟨ho, hn⟩ := hunnamed (.obj f) (by
        rw [hsplit]
        simpa using hf)
      rw [ho, hn]
      rfl
  have hendpoint : ∀ t ip, settleObjs old new objs p (.endpoint t ip) =
      if Dropped (registers old) (registers new) t then none else p (.endpoint t ip) := by
    intro t ip
    rw [settleObjs_endpoint]
    by_cases ht : t ∈ objs
    · simp [ht]
    · obtain ⟨ho, -⟩ := hunnamed (.obj t) (by
        rw [hsplit]
        simpa using ht)
      have hdrop : ¬Dropped (registers old) (registers new) t := by
        rintro ⟨hsome, -⟩
        rw [ho] at hsome
        cases hsome
      simp [ht, hdrop]
  rw [hturns, hsplit]
  have happend : turns s o old new
      (objs.map .obj ++ eps.map (fun e => .endpoint e.1 e.2)) p =
      turns s o old new (eps.map (fun e => .endpoint e.1 e.2))
        (turns s o old new (objs.map .obj) p) := List.foldl_append
  rw [happend, turns_objs hold hnew hinstance hfqn hlisted h objs,
    turns_endpoints hold hnew hinstance hfqn hlisted heps]
  funext m
  cases m with
  | obj f => exact hobj f
  | endpoint t ip =>
    dsimp only
    rw [hobj, hendpoint]
    split_ifs with hmem hdrop
    · rfl
    · rfl
    all_goals
      obtain ⟨ho, hn⟩ := hunnamed (.endpoint t ip) (by
        rw [hsplit]
        simpa using hmem)
      rw [ho, hn]
      rfl

end Run

end L7mp.Operator
