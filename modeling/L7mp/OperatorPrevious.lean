import L7mp.OperatorViews
import L7mp.OperatorConverges

/-! When the commands of an update are those of the difference to the previous object. -/
namespace L7mp.Operator
open Python

/-- A dict of strings, as labels and annotations are. -/
def StringMap (v : Value) : Prop :=
  ∃ d, v = .dict d ∧ (d.map Prod.fst).Nodup ∧ ∀ x ∈ d, ∃ t, x.2 = .str t

/-- The metadata of an object. -/
def metadataOf (body : Value) : List (String × Value) :=
  itemsOf ((itemsOf (some body)).lookup "metadata")

/-- What Kubernetes says of all objects of a kind. -/
structure Proper (r : Resource) (body : Value) (e : Essence) : Prop where
  metadata : ∃ d m, body = .dict d ∧ d.lookup "metadata" = some (.dict m)
  bodyLabels : ∀ v ∈ (metadataOf body).lookup "labels", StringMap v
  bodyAnnotations : ∀ v ∈ (metadataOf body).lookup "annotations", StringMap v
  labels : ∀ v ∈ e.labels, StringMap v
  annotations : ∀ v ∈ e.annotations, StringMap v
  spec : ∀ v ∈ e.spec, DistinctKeys v
  endpoints : r = .endpoints → (itemsOf (some body)).lookup "spec" = none ∧ e.spec = none

/-- The value that a key had, or that it had none, can be had from what is there now. -/
def undoneIn (d : List (String × Value)) (k : String) (v : Option Value) : Bool :=
  match v with
  | none => (d.lookup k).isNone
  | some v => undoes (d.lookup k) v

/-- The change adds no key to the specification of the object, at any depth, and replaces no dict
in it by another value; for a pod, it adds no labels and no annotations either. -/
def AddsNoKey (r : Resource) (body : Value) (e : Essence) : Prop :=
  undoneIn (itemsOf (some body)) "spec" e.spec = true ∧
    (r = .pods → undoneIn (metadataOf body) "labels" e.labels = true ∧
      undoneIn (metadataOf body) "annotations" e.annotations = true)

variable {d m : List (String × Value)} {k : String} {v : Option Value}

theorem lookup_giveBack_ne {k' : String} (h : k' ≠ k) (v : Option Value)
    (d : List (String × Value)) : (giveBack k v d).lookup k' = d.lookup k' := by
  cases v with
  | none => exact Dict.lookup_del_ne h d
  | some v => exact Dict.lookup_set_ne h _ d

theorem lookup_giveBack_self (k : String) (v : Option Value) (d : List (String × Value)) :
    (giveBack k v d).lookup k = v.map (revert (d.lookup k)) := by
  cases v with
  | none => exact Dict.lookup_del_self k d
  | some v => exact Dict.lookup_set_self k _ d

theorem StringMap.distinctKeys {v : Value} (h : StringMap v) : DistinctKeys v := by
  obtain ⟨d, rfl, hnodup, hstr⟩ := h
  rw [DistinctKeys]
  refine ⟨hnodup, ?_⟩
  clear hnodup
  induction d with
  | nil =>
    rw [DistinctItems]
    trivial
  | cons x d ih =>
    obtain ⟨k, v⟩ := x
    obtain ⟨t, ht⟩ := hstr _ List.mem_cons_self
    change v = .str t at ht
    subst ht
    rw [DistinctItems]
    refine ⟨?_, ih (fun x hx => hstr x (List.mem_cons_of_mem _ hx))⟩
    rw [DistinctKeys]
    · trivial
    · intro items heq
      cases heq

/-! ### The merge -/

theorem dictUpdateItems_append (d : Value) (l l' : List (String × Value)) :
    dictUpdateItems d (l ++ l') = dictUpdateItems d l >>= fun d => dictUpdateItems d l' := by
  induction l generalizing d with
  | nil => rw [dictUpdateItems]; rfl
  | cons e l ih =>
    obtain ⟨k, v⟩ := e
    cases v with
    | dict items =>
      rw [List.cons_append, dictUpdateItems, dictUpdateItems]
      simp only [ih, bind_assoc]
    | _ =>
      rw [List.cons_append, dictUpdateItems, dictUpdateItems]
      · simp only [ih, bind_assoc]
      all_goals
        intro items heq
        cases heq

/-- One key is given back. -/
theorem dictUpdateItems_optional (hv : ∀ w ∈ v, DistinctKeys w) (h : undoneIn d k v = true) :
    dictUpdateItems (.dict d) (optional k v) = .ok (.dict (giveBack k v d)) := by
  cases v with
  | none =>
    have hnone : d.lookup k = none := by simpa [undoneIn] using h
    show dictUpdateItems _ [] = _
    rw [dictUpdateItems]
    exact congrArg (fun d => Except.ok (Value.dict d)) (Dict.del_of_not_mem hnone).symm
  | some w =>
    show dictUpdateItems _ [(k, w)] = _
    rw [dictUpdateItems_undoes [(k, w)] d (List.nodup_singleton k)]
    · rw [revertItems, revertItems]
      rfl
    · rw [DistinctItems, DistinctItems]
      exact ⟨hv w rfl, trivial⟩
    · rw [undoesItems, undoesItems, Bool.and_true]
      exact h

/-- Strings go into a dict without more ado. -/
theorem dictUpdateItems_strings {items : List (String × Value)}
    (h : ∀ x ∈ items, ∃ t, x.2 = .str t) (d : List (String × Value)) :
    ∃ d', dictUpdateItems (.dict d) items = .ok (.dict d') := by
  induction items generalizing d with
  | nil => exact ⟨d, by rw [dictUpdateItems]⟩
  | cons x items ih =>
    obtain ⟨k, v⟩ := x
    obtain ⟨t, ht⟩ := h _ List.mem_cons_self
    change v = .str t at ht
    subst ht
    rw [dictUpdateItems]
    · exact ih (fun x hx => h x (List.mem_cons_of_mem _ hx)) (Dict.set k (.str t) d)
    · intro items heq
      cases heq

/-- Labels or annotations are merged; whatever comes out, no other key changes. -/
theorem dictUpdateItems_stringMap (hd : ∀ w ∈ d.lookup k, StringMap w)
    (hv : ∀ w ∈ v, StringMap w) : ∃ d', dictUpdateItems (.dict d) (optional k v) = .ok (.dict d') ∧
      ∀ k' ≠ k, d'.lookup k' = d.lookup k' := by
  cases v with
  | none => exact ⟨d, by rw [optional, Option.map_none, Option.toList_none, dictUpdateItems],
      fun _ _ => rfl⟩
  | some w =>
    obtain ⟨items, rfl, -, hstr⟩ := hv w rfl
    obtain ⟨d₀, hd₀⟩ : ∃ d₀, (d.lookup k).getD (.dict []) = .dict d₀ := by
      cases hw : d.lookup k with
      | none => exact ⟨[], rfl⟩
      | some w =>
        obtain ⟨d₀, rfl, -⟩ := hd w hw
        exact ⟨d₀, rfl⟩
    obtain ⟨d₁, hd₁⟩ := dictUpdateItems_strings hstr d₀
    refine ⟨Dict.set k (.dict d₁) d, ?_, fun k' hk' => Dict.lookup_set_ne hk' _ d⟩
    show dictUpdateItems _ [(k, .dict items)] = _
    rw [dictUpdateItems]
    show (dictUpdateItems ((d.lookup k).getD (.dict [])) items >>= _) = _
    rw [hd₀, hd₁]
    show dictUpdateItems _ [] = _
    rw [dictUpdateItems]

/-- The merge gives the specification back, and labels and annotations if they can be. -/
theorem dictUpdate_old {body : Value} {e : Essence} {r : Resource} (hproper : Proper r body e)
    (hspec : undoneIn (itemsOf (some body)) "spec" e.spec = true) : ∃ d m', body = .dict d ∧
      dictUpdate body e.old =
        .ok (.dict (giveBack "spec" e.spec (Dict.set "metadata" (.dict m') d))) ∧
      (∀ k, k ≠ "labels" → k ≠ "annotations" → m'.lookup k = (metadataOf body).lookup k) ∧
      (undoneIn (metadataOf body) "labels" e.labels = true →
        undoneIn (metadataOf body) "annotations" e.annotations = true →
        m' = giveBack "annotations" e.annotations (giveBack "labels" e.labels (metadataOf body))) := by
  obtain ⟨⟨d, m, rfl, hm⟩, hbodyLabels, hbodyAnnotations, hlabels, hannotations, hdistinct, -⟩ :=
    hproper
  have hmeta : metadataOf (.dict d) = m := by
    show itemsOf (d.lookup "metadata") = m
    rw [hm]
    rfl
  rw [hmeta] at hbodyLabels hbodyAnnotations
  rw [hmeta]
  change undoneIn d "spec" e.spec = true at hspec
  -- the metadata first, and the specification after that
  have hrest : ∀ m', dictUpdateItems (.dict m)
      (optional "labels" e.labels ++ optional "annotations" e.annotations) = .ok (.dict m') →
      dictUpdate (.dict d) e.old =
        .ok (.dict (giveBack "spec" e.spec (Dict.set "metadata" (.dict m') d))) := by
    intro m' hm'
    unfold Essence.old
    rw [dictUpdate, dictUpdateItems]
    show (dictUpdateItems ((d.lookup "metadata").getD (.dict [])) _ >>= _) = _
    rw [hm]
    show (dictUpdateItems (.dict m) _ >>= _) = _
    rw [hm']
    show dictUpdateItems (.dict (Dict.set "metadata" (.dict m') d)) _ = _
    apply dictUpdateItems_optional hdistinct
    unfold undoneIn at hspec ⊢
    rw [Dict.lookup_set_ne (by decide)]
    exact hspec
  by_cases hundone : undoneIn m "labels" e.labels = true ∧
      undoneIn m "annotations" e.annotations = true
  · refine ⟨d, giveBack "annotations" e.annotations (giveBack "labels" e.labels m), rfl,
      hrest _ ?_, ?_, fun _ _ => rfl⟩
    · have hann : undoneIn (giveBack "labels" e.labels m) "annotations" e.annotations = true := by
        have hkeep := hundone.2
        unfold undoneIn at hkeep ⊢
        rw [lookup_giveBack_ne (by decide)]
        exact hkeep
      rw [dictUpdateItems_append,
        dictUpdateItems_optional (fun w hw => (hlabels w hw).distinctKeys) hundone.1]
      exact dictUpdateItems_optional (fun w hw => (hannotations w hw).distinctKeys) hann
    · intro k hl ha
      rw [lookup_giveBack_ne ha, lookup_giveBack_ne hl]
  · obtain ⟨m₁, hm₁, hkeep₁⟩ := dictUpdateItems_stringMap hbodyLabels hlabels
    have hann : ∀ w ∈ m₁.lookup "annotations", StringMap w := by
      rw [hkeep₁ "annotations" (by decide)]
      exact hbodyAnnotations
    obtain ⟨m₂, hm₂, hkeep₂⟩ := dictUpdateItems_stringMap hann hannotations
    refine ⟨d, m₂, rfl, hrest _ ?_, ?_, fun hl ha => absurd ⟨hl, ha⟩ hundone⟩
    · rw [dictUpdateItems_append, hm₁]
      exact hm₂
    · intro k hl ha
      rw [hkeep₂ k ha, hkeep₁ k hl]

/-- Whatever comes out of the merge, it agrees with the previous object. -/
theorem sameView_merge {d m₁ m₂ : List (String × Value)} (spec : Option Value)
    (h : ∀ k, k ≠ "labels" → k ≠ "annotations" → m₁.lookup k = m₂.lookup k) :
    SameView (.dict (giveBack "spec" spec (Dict.set "metadata" (.dict m₁) d)))
      (.dict (giveBack "spec" spec (Dict.set "metadata" (.dict m₂) d))) := by
  have hmeta : ∀ m, (giveBack "spec" spec (Dict.set "metadata" (.dict m) d)).lookup "metadata" =
      some (.dict m) := by
    intro m
    rw [lookup_giveBack_ne (by decide), Dict.lookup_set_self]
  refine ⟨_, _, m₁, m₂, rfl, rfl, hmeta m₁, hmeta m₂, ?_, h⟩
  intro k hk
  by_cases hspec : k = "spec"
  · subst hspec
    rw [lookup_giveBack_self, lookup_giveBack_self, Dict.lookup_set_ne (by decide),
      Dict.lookup_set_ne (by decide)]
  · rw [lookup_giveBack_ne hspec, lookup_giveBack_ne hspec, Dict.lookup_set_ne hk,
      Dict.lookup_set_ne hk]

theorem previous_eq {d : List (String × Value)} (e : Essence) : previous (.dict d) e =
    .dict (giveBack "spec" e.spec (Dict.set "metadata" (.dict (giveBack "annotations" e.annotations
      (giveBack "labels" e.labels (metadataOf (.dict d))))) d)) := rfl

/-- The commands that the difference between the previous and the new object asks for. -/
def differenceCommands (s : ClusterState) (r : Resource) (fqn : Fqn) (old body : Value) :
    Except Exc (List Command) := do
  let aOld ← getActions (s.set r fqn old) (s.set r fqn old)
  let aNew ← getActions (s.set r fqn body) (s.set r fqn body)
  return commands aOld aNew

/-- When the change adds no key, the commands are those of the difference between the previous and
the new object. -/
theorem updateFn_difference (s : ClusterState) (hs : s.WellNamed) (r : Resource) (body : Value)
    (e : Essence) (fqn : Fqn) (hfqn : getFqn body = .ok fqn)
    (hready : failIfPodNotReady r body = .ok ()) (hproper : Proper r body e)
    (hadds : AddsNoKey r body e) :
    (updateFn s r body e.old).1 = differenceCommands s r fqn (previous body e) body := by
  obtain ⟨hspec, hpods⟩ := hadds
  obtain ⟨d, m', rfl, hmerge, hkeep, hundone⟩ := dictUpdate_old hproper hspec
  have hresult : (updateFn s r (.dict d) e.old).1 = update (s.set r fqn (.dict d))
      (s.set r fqn (.dict (giveBack "spec" e.spec (Dict.set "metadata" (.dict m') d)))) := by
    unfold updateFn
    rw [hready, hfqn, hmerge]
    rfl
  have hmeta : ∀ k, k ≠ "labels" → k ≠ "annotations" → m'.lookup k =
      (giveBack "annotations" e.annotations
        (giveBack "labels" e.labels (metadataOf (.dict d)))).lookup k := by
    intro k hl ha
    rw [lookup_giveBack_ne ha, lookup_giveBack_ne hl]
    exact hkeep k hl ha
  have hview := sameView_merge (d := d) e.spec hmeta
  rw [← previous_eq] at hview
  have hsame : getActions (s.set r fqn (.dict d))
      (s.set r fqn (.dict (giveBack "spec" e.spec (Dict.set "metadata" (.dict m') d)))) =
      getActions (s.set r fqn (previous (.dict d) e)) (s.set r fqn (previous (.dict d) e)) := by
    have hvsvcs := hs.virtualservices.sameViews
    have htargets := hs.targets.sameViews
    have hrules := hs.rules.sameViews
    have hendpoints := hs.endpoints.sameViews
    cases r with
    | pods =>
      obtain ⟨hlabels, hannotations⟩ := hpods rfl
      rw [hundone hlabels hannotations, ← previous_eq]
      exact getActions_views hendpoints rfl hvsvcs htargets hrules
    | endpoints =>
      -- what the services of the new object are is what they were
      obtain ⟨hnone, hspecNone⟩ := hproper.endpoints rfl
      change d.lookup "spec" = none at hnone
      have hbody : SameView (.dict d) (previous (.dict d) e) := by
        rw [previous_eq, hspecNone]
        obtain ⟨⟨d₀, m, heq, hm⟩, -⟩ := hproper
        cases heq
        have hmetadata : metadataOf (.dict d) = m := by
          show itemsOf (d.lookup "metadata") = m
          rw [hm]
          rfl
        refine ⟨d, _, m, giveBack "annotations" e.annotations (giveBack "labels" e.labels
          (metadataOf (.dict d))), rfl, rfl, hm, ?_, ?_, ?_⟩
        · exact (lookup_giveBack_ne (by decide) _ _).trans (Dict.lookup_set_self _ _ _)
        · intro k hk
          by_cases hspec : k = "spec"
          · subst hspec
            rw [lookup_giveBack_self, hnone]
            rfl
          · rw [lookup_giveBack_ne hspec, Dict.lookup_set_ne hk]
        · intro k hl ha
          rw [lookup_giveBack_ne ha, lookup_giveBack_ne hl, hmetadata]
      exact getActions_views (hendpoints.set hbody fqn) rfl hvsvcs htargets hrules
    | virtualservices => exact getActions_views hendpoints rfl (hvsvcs.set hview fqn) htargets hrules
    | targets => exact getActions_views hendpoints rfl hvsvcs (htargets.set hview fqn) hrules
    | rules => exact getActions_views hendpoints rfl hvsvcs htargets (hrules.set hview fqn)
  rw [hresult]
  unfold update differenceCommands
  rw [hsame]

theorem wellNamed_example {targets : List (Fqn × Value)} (h : Named "Target" targets) :
    (exampleState targets).WellNamed := by
  refine ⟨?_, ?_, ?_, h, ?_⟩
  · show Named "Pod" [(podName, examplePod)]
    unfold Named
    decide +kernel
  all_goals exact fun e he => absurd he List.not_mem_nil

/-- The port of a target changes. -/
theorem updateFn_difference_port : ∃ l,
    (updateFn (exampleState [(targetName, exampleTarget 1)]) .targets (exampleTarget 2)
      (Essence.old ⟨none, none, (itemsOf (some (exampleTarget 1))).lookup "spec"⟩)).1 = .ok l ∧
    differenceCommands (exampleState [(targetName, exampleTarget 1)]) .targets targetName
      (previous (exampleTarget 2)
        ⟨none, none, (itemsOf (some (exampleTarget 1))).lookup "spec"⟩) (exampleTarget 2) = .ok l ∧
    l.length = 1 := by
  let s := exampleState [(targetName, exampleTarget 1)]
  let e : Essence := ⟨none, none, (itemsOf (some (exampleTarget 1))).lookup "spec"⟩
  have hproper : Proper .targets (exampleTarget 2) e := by
    constructor
    case metadata => exact ⟨_, _, rfl, rfl⟩
    case bodyLabels => exact fun v hv => by cases hv
    case bodyAnnotations => exact fun v hv => by cases hv
    case labels => exact fun v hv => by cases hv
    case annotations => exact fun v hv => by cases hv
    case spec =>
      intro v hv
      cases hv
      simp only [DistinctKeys, DistinctItems]
      decide
    case endpoints => exact fun h => by cases h
  have hdifference := updateFn_difference s (wellNamed_example (by unfold Named; decide +kernel))
    .targets (exampleTarget 2) e targetName (by decide +kernel) rfl hproper
    ⟨by decide +kernel, fun h => by cases h⟩
  obtain ⟨l, hl, hlength⟩ : ∃ l, differenceCommands s .targets targetName
      (previous (exampleTarget 2) e) (exampleTarget 2) = .ok l ∧ l.length = 1 := by
    refine ⟨(differenceCommands s .targets targetName (previous (exampleTarget 2) e)
      (exampleTarget 2)).toOption.getD [], ?_, ?_⟩
    · decide +kernel
    · decide +kernel
  exact ⟨l, hdifference.trans hl, hl, hlength⟩

/-- A pod that gets a label which a target selects is not told of the target. -/
theorem added_label_is_missed : ¬∀ (s : ClusterState), s.WellNamed → ∀ (r : Resource)
    (body : Value) (e : Essence) (fqn : Fqn), getFqn body = .ok fqn →
    failIfPodNotReady r body = .ok () → Proper r body e →
    (updateFn s r body e.old).1 = differenceCommands s r fqn (previous body e) body := by
  intro h
  let s := exampleState [(targetName, exampleTarget 1)]
  have hproper : Proper .pods examplePod ⟨none, none, none⟩ := by
    constructor
    case metadata => exact ⟨_, _, rfl, rfl⟩
    case bodyLabels =>
      intro v hv
      cases hv
      refine ⟨_, rfl, by decide, ?_⟩
      intro x hx
      exact ⟨"x", congrArg Prod.snd (List.mem_singleton.mp hx)⟩
    case bodyAnnotations => exact fun v hv => by cases hv
    case labels => exact fun v hv => by cases hv
    case annotations => exact fun v hv => by cases hv
    case spec => exact fun v hv => by cases hv
    case endpoints => exact fun h => by cases h
  have hsame := h s (wellNamed_example (by unfold Named; decide +kernel)) .pods examplePod
    ⟨none, none, none⟩ podName (by decide +kernel) (by decide +kernel) hproper
  have hlength := congrArg (fun r => (Except.toOption r).map List.length) hsame
  exact absurd hlength (by decide +kernel)

end L7mp.Operator
