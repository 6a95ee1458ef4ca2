import L7mp.SchemaInlining

/-! Inlining the references of a schema ends where no chain of references is endless, and gives
nothing where one is. -/
namespace L7mp.Inlining
open Python Aborting

variable {getRef : Value → String → Except Exc (Value × String)} {args : Args}

/-! ### Inlining ends -/

/-- A value in a document, with its place. -/
inductive Within (doc : Value) (url : String) : Value → String → Prop
  | refl : Within doc url doc url
  | list {l : List Value} {u : String} {e : Value × ℕ} (h : Within doc url (.list l) u)
      (he : e ∈ l.zipIdx) : Within doc url e.1 (u ++ "/" ++ toString e.2)
  | dict {items : List (String × Value)} {u : String} {e : String × Value}
      (h : Within doc url (.dict items) u) (he : e ∈ items) :
      Within doc url e.2 (u ++ "/" ++ e.1)

/-- A document has a reference to another one. -/
def Refers (getRef : Value → String → Except Exc (Value × String)) (target doc : Value × String) :
    Prop :=
  ∃ items url ref, Within doc.1 doc.2 (.dict items) url ∧ items.lookup "$ref" = some ref ∧
    ref.truthy = true ∧ getRef ref url = .ok target

/-- A computation that does not run out of depth. -/
def Ends {α : Type} (x : Except Exc α) : Prop := x ≠ .error recursionError

theorem Ends.of_bind {α β : Type} {x : Except Exc α} {f : α → Except Exc β}
    (h : Ends (x >>= f)) : Ends x := by
  intro hx
  rw [hx] at h
  exact h rfl

theorem Ends.bind {α β : Type} {x : Except Exc α} {f : α → Except Exc β} (hx : Ends x)
    (hf : ∀ a, x = .ok a → Ends (f a)) : Ends (x >>= f) := by
  cases x with
  | error e =>
    intro h
    exact hx (congrArg Except.error (Except.error.inj h))
  | ok a => exact hf a rfl

theorem ends_mapM {α β : Type} {f : α → Except Exc β} {l : List α} (h : ∀ a ∈ l, Ends (f a)) :
    Ends (l.mapM f) := by
  induction l with
  | nil => exact fun hnil => by cases hnil
  | cons a l ih =>
    rw [List.mapM_cons]
    refine (h a List.mem_cons_self).bind (fun b _ => ?_)
    refine Ends.bind (ih (fun a ha => h a (List.mem_cons_of_mem _ ha))) (fun l' _ => ?_)
    exact fun hok => by cases hok

theorem mapM_agrees {α β : Type} {f g : α → Except Exc β} {l : List α}
    (h : ∀ a ∈ l, Ends (f a) → g a = f a) (hends : Ends (l.mapM f)) : l.mapM g = l.mapM f := by
  induction l with
  | nil => rfl
  | cons a l ih =>
    rw [List.mapM_cons] at hends
    rw [List.mapM_cons, List.mapM_cons, h a List.mem_cons_self hends.of_bind]
    cases hf : f a with
    | error e => rfl
    | ok b =>
      rw [hf] at hends
      have hrest : Ends (l.mapM f) := Ends.of_bind hends
      rw [ih (fun a ha => h a (List.mem_cons_of_mem _ ha)) hrest]

/-- More depth does not change what ends. -/
theorem inlineReferences_mono {n : ℕ} {d : Value} {url : String}
    (h : Ends (inlineReferences getRef args n d url)) {m : ℕ} (hm : n ≤ m) :
    inlineReferences getRef args m d url = inlineReferences getRef args n d url := by
  induction n generalizing d url m with
  | zero => exact absurd rfl h
  | succ n ih =>
    obtain ⟨m, rfl⟩ : ∃ k, m = k + 1 := ⟨m - 1, by omega⟩
    have hle : n ≤ m := by omega
    cases d with
    | list l =>
      simp only [inlineReferences] at h ⊢
      have hends : Ends (l.zipIdx.mapM (fun e =>
          inlineReferences getRef args n e.1 (url ++ "/" ++ toString e.2))) := by
        intro heq
        rw [heq] at h
        exact h rfl
      rw [mapM_agrees (fun e _ he => ih he hle) hends]
    | dict items =>
      simp only [inlineReferences] at h ⊢
      have hresolve : resolve getRef (inlineReferences getRef args m) items url =
          resolve getRef (inlineReferences getRef args n) items url := by
        have hends := h.of_bind
        unfold resolve at hends ⊢
        cases hlookup : items.lookup "$ref" with
        | none => rfl
        | some ref =>
          rw [hlookup] at hends
          dsimp only at hends ⊢
          split_ifs at hends ⊢
          · cases hload : getRef ref url with
            | error e => rfl
            | ok loaded =>
              rw [hload] at hends
              dsimp only [bind, Except.bind] at hends ⊢
              have hdoc : Ends (inlineReferences getRef args n loaded.1 loaded.2) := by
                intro heq
                rw [heq] at hends
                exact hends rfl
              rw [ih hdoc hle]
          · rfl
      rw [hresolve]
      cases hmerged : resolve getRef (inlineReferences getRef args n) items url with
      | error e => rfl
      | ok merged =>
        rw [hmerged] at h
        dsimp only [bind, Except.bind] at h ⊢
        have hvalues := mapM_agrees (l := merged)
          (f := fun e => do
            return (e.1, ← inlineReferences getRef args n e.2 (url ++ "/" ++ e.1)))
          (g := fun e => do
            return (e.1, ← inlineReferences getRef args m e.2 (url ++ "/" ++ e.1)))
          (fun e _ he => by rw [ih he.of_bind hle]) (Ends.of_bind h)
        dsimp only [bind, Except.bind] at hvalues
        rw [hvalues]
    | _ => rfl

theorem ends_foldlM {α β : Type} {f : β → α → Except Exc β} {l : List α}
    (h : ∀ b a, Ends (f b a)) (b : β) : Ends (l.foldlM f b) := by
  induction l generalizing b with
  | nil => exact fun hnil => by cases hnil
  | cons a l ih =>
    rw [List.foldlM_cons]
    exact (h b a).bind (fun b' _ => ih b')

theorem ends_finish (d : List (String × Value)) : Ends (finish args d) := by
  have hset : ∀ key d, Ends (setFrom key d) := by
    intro key d
    refine Ends.bind ?_ (fun items _ hok => by cases hok)
    cases (d.lookup key).getD (.dict []) <;> exact fun h => by cases h
  have hdel : ∀ d k, Ends (delKey d k) := by
    intro d k
    cases k with
    | str k =>
      unfold delKey
      dsimp only
      split_ifs <;> exact fun h => by cases h
    | _ => exact fun h => by cases h
  have hkubernetes : Ends (toKubernetes d) := by
    refine (hset _ d).bind (fun d _ => (hset _ d).bind (fun d _ => ?_))
    refine Ends.bind ?_ (fun ks _ => (ends_foldlM hdel d).bind (fun _ _ hok => by cases hok))
    cases (d.lookup "x-l7mp-k8s-delete").getD (.list []) <;> exact fun h => by cases h
  have hcleared : Ends (if args.k8s then toKubernetes d else .ok d) := by
    split_ifs
    · exact hkubernetes
    · exact fun h => by cases h
  intro hraises
  unfold finish at hraises
  cases hk : (if args.k8s then toKubernetes d else .ok d) with
  | error e =>
    rw [hk] at hraises
    exact hcleared (hk.trans (congrArg Except.error (Except.error.inj hraises)))
  | ok d' =>
    rw [hk] at hraises
    cases hraises

/-- A dict with the values that its reference brings: with enough depth, all of it ends. -/
theorem ends_resolve (hloads : Loads getRef) (hgets : ∀ ref url, Ends (getRef ref url))
    {items : List (String × Value)} {u : String}
    (hown : ∃ n, ∀ m, n ≤ m → ∀ e ∈ items,
      Ends (inlineReferences getRef args m e.2 (u ++ "/" ++ e.1)))
    (hdocs : ∀ ref loaded, items.lookup "$ref" = some ref → ref.truthy = true →
      getRef ref u = .ok loaded → ∃ n, Ends (inlineReferences getRef args n loaded.1 loaded.2)) :
    ∃ n, ∀ m, n ≤ m → Ends (resolve getRef (inlineReferences getRef args m) items u) ∧
      ∀ r, resolve getRef (inlineReferences getRef args m) items u = .ok r →
        ∀ e ∈ r, Ends (inlineReferences getRef args m e.2 (u ++ "/" ++ e.1)) := by
  obtain ⟨n₁, h₁⟩ := hown
  cases hlookup : items.lookup "$ref" with
  | none =>
    refine ⟨n₁, fun m hm => ?_⟩
    unfold resolve
    rw [hlookup]
    refine ⟨fun hok => (by cases hok), fun r hr e he => ?_⟩
    cases hr
    exact h₁ m hm e he
  | some ref =>
    by_cases htruthy : ref.truthy = true
    · cases hload : getRef ref u with
      | error e =>
        refine ⟨0, fun m _ => ?_⟩
        unfold resolve
        rw [hlookup]
        dsimp only
        rw [if_pos htruthy, hload]
        refine ⟨fun hraises => hgets ref u (hload.trans ?_), fun r hr => (by cases hr)⟩
        exact congrArg Except.error (Except.error.inj hraises)
      | ok loaded =>
        obtain ⟨hwell, ditems, hditems⟩ := hloads _ _ loaded.1 loaded.2 hload
        obtain ⟨n₂, h₂⟩ := hdocs ref loaded hlookup htruthy hload
        cases hinline : inlineReferences getRef args n₂ loaded.1 loaded.2 with
        | error e =>
          refine ⟨n₂, fun m hm => ?_⟩
          unfold resolve
          rw [hlookup]
          dsimp only
          rw [if_pos htruthy, hload]
          dsimp only [bind, Except.bind]
          rw [inlineReferences_mono h₂ hm, hinline]
          refine ⟨fun hraises => h₂ (hinline.trans ?_), fun r hr => (by cases hr)⟩
          exact congrArg Except.error (Except.error.inj hraises)
        | ok v =>
          obtain ⟨hplain, hkeeps⟩ :=
            plain_inlineReferences hloads n₂ loaded.1 loaded.2 v hwell hinline
          obtain ⟨vitems, rfl⟩ := hkeeps.dict ditems hditems
          obtain ⟨n₃, h₃⟩ : ∃ n, ∀ m, n ≤ m → ∀ e ∈ vitems, ∀ u',
              Ends (inlineReferences getRef args m e.2 u') := by
            refine exists_bound (fun e he => ?_)
            obtain ⟨n, hn⟩ := ((Inlined.of_plain hplain).plain e he).stable
            refine ⟨n, fun m hm u' hraises => ?_⟩
            rw [hn m hm] at hraises
            cases hraises
          refine ⟨n₁ + n₂ + n₃, fun m hm => ?_⟩
          unfold resolve
          rw [hlookup]
          dsimp only
          rw [if_pos htruthy, hload]
          dsimp only [bind, Except.bind]
          rw [inlineReferences_mono h₂ (by omega), hinline]
          refine ⟨fun hok => (by cases hok), fun r hr e he => ?_⟩
          cases hr
          rcases mem_setAll he with he | he
          · exact h₃ m (by omega) e he _
          · exact h₁ m (by omega) e (List.mem_filter.mp he).1
    · refine ⟨n₁, fun m hm => ?_⟩
      unfold resolve
      rw [hlookup]
      dsimp only
      rw [if_neg htruthy]
      refine ⟨fun hok => (by cases hok), fun r hr e he => ?_⟩
      cases hr
      exact h₁ m hm e he

/-- Every value of a document that has no endless chain of references is inlined, or raises. -/
theorem ends_within (hloads : Loads getRef)
    (hgets : ∀ ref url, Ends (getRef ref url)) {doc : Value × String}
    (hacc : Acc (Refers getRef) doc) (hdoc : WellKeyed doc.1) :
    ∃ n, Ends (inlineReferences getRef args n doc.1 doc.2) := by
  induction hacc with
  | intro doc _ ihref =>
    have hwithin : ∀ v, WellKeyed v → ∀ u, Within doc.1 doc.2 v u →
        ∃ n, Ends (inlineReferences getRef args n v u) := by
      intro v hv
      have hleaf : ∀ {v : Value}, (∀ u, Ends (inlineReferences getRef args 1 v u)) →
          ∀ u, Within doc.1 doc.2 v u → ∃ n, Ends (inlineReferences getRef args n v u) :=
        fun h u _ => ⟨1, h u⟩
      induction hv with
      | none => exact hleaf (fun u hok => by cases hok)
      | bool b => exact hleaf (fun u hok => by cases hok)
      | str s => exact hleaf (fun u hok => by cases hok)
      | num q =>
        refine hleaf (fun u hok => ?_)
        simp only [inlineReferences] at hok
        split_ifs at hok
        have htype := (Exc.other.inj (Except.error.inj hok)).1
        exact absurd htype (by decide)
      | list l _ ih =>
        intro u hu
        -- one depth is enough for all elements
        obtain ⟨n, hn⟩ : ∃ n, ∀ m, n ≤ m → ∀ e ∈ l.zipIdx,
            Ends (inlineReferences getRef args m e.1 (u ++ "/" ++ toString e.2)) := by
          refine exists_bound (fun e he => ?_)
          obtain ⟨n, hn⟩ := ih e.1 (List.fst_mem_of_mem_zipIdx he) _ (hu.list he)
          refine ⟨n, fun m hm => ?_⟩
          unfold Ends
          rw [inlineReferences_mono hn hm]
          exact hn
        refine ⟨n + 1, fun hraises => ?_⟩
        simp only [inlineReferences] at hraises
        have hends := ends_mapM (hn n (Nat.le_refl n))
        cases hl : l.zipIdx.mapM (fun e =>
            inlineReferences getRef args n e.1 (u ++ "/" ++ toString e.2)) with
        | error e =>
          rw [hl] at hraises
          exact hends (hl.trans (congrArg Except.error (Except.error.inj hraises)))
        | ok l' =>
          rw [hl] at hraises
          cases hraises
      | dict items hkeys hvalues ih =>
        intro u hu
        -- the values of the dict, and those that come with its reference
        have hown : ∃ n, ∀ m, n ≤ m → ∀ e ∈ items,
            Ends (inlineReferences getRef args m e.2 (u ++ "/" ++ e.1)) := by
          refine exists_bound (fun e he => ?_)
          obtain ⟨n, hn⟩ := ih e he _ (hu.dict he)
          refine ⟨n, fun m hm => ?_⟩
          unfold Ends
          rw [inlineReferences_mono hn hm]
          exact hn
        have hmerged := ends_resolve hloads hgets hown (fun ref loaded hlookup htruthy hload =>
          ihref loaded ⟨items, u, ref, hu, hlookup, htruthy, hload⟩ (hloads _ _ _ _ hload).1)
        obtain ⟨n, hn⟩ := hmerged
        obtain ⟨hresolve, hitems⟩ := hn n (Nat.le_refl n)
        refine ⟨n + 1, ?_⟩
        simp only [inlineReferences]
        refine hresolve.bind (fun r hr => Ends.bind (ends_mapM (fun e he => ?_)) (fun r' _ => ?_))
        · exact (hitems r hr e he).bind (fun v _ hok => by cases hok)
        · exact (ends_finish r').bind (fun v _ hok => by cases hok)
    exact hwithin doc.1 hdoc doc.2 .refl

/-- A schema without an endless chain of references is inlined, whatever the depth is from some
depth on: it raises something else, or comes out plain. -/
theorem inlineReferences_ends (getRef : Value → String → Except Exc (Value × String))
    (args : Args) (hloads : Loads getRef)
    (hgets : ∀ ref url, getRef ref url ≠ .error recursionError) (d : Value) (url : String)
    (hd : WellKeyed d) (hacc : Acc (Refers getRef) (d, url)) :
    ∃ n r, (∀ m, n ≤ m → inlineReferences getRef args m d url = r) ∧
      r ≠ .error recursionError ∧ ∀ v, r = .ok v → Plain args v := by
  obtain ⟨n, hn⟩ := @ends_within getRef args hloads hgets (d, url) hacc hd
  refine ⟨n, inlineReferences getRef args n d url, fun m hm => inlineReferences_mono hn hm, hn, ?_⟩
  exact fun v hv => (plain_inlineReferences hloads n d url v hd hv).1

/-- The schema that is referred to refers to nothing. -/
theorem within_nameSchema {url u : String} {v : Value} (h : Within nameSchema url v u) :
    v = nameSchema ∨ ∃ s, v = .str s := by
  induction h with
  | refl => exact Or.inl rfl
  | list _ _ ih =>
    rcases ih with ih | ⟨s, ih⟩ <;> cases ih
  | dict _ he ih =>
    rcases ih with ih | ⟨s, ih⟩
    · cases ih
      simp only [List.mem_cons, List.not_mem_nil, or_false] at he
      rcases he with rfl | rfl
      · exact Or.inr ⟨"string", rfl⟩
      · exact Or.inr ⟨"id", rfl⟩
    · cases ih

theorem acc_ruleSchema : Acc (Refers nameRef) (ruleSchema, "rule.yml#/") := by
  refine Acc.intro _ (fun target htarget => ?_)
  obtain ⟨_, _, _, _, _, _, hload⟩ := htarget
  rw [eq_of_nameRef hload]
  refine Acc.intro _ (fun target htarget => ?_)
  obtain ⟨items, url, ref, hwithin, hlookup, -, -⟩ := htarget
  rcases within_nameSchema hwithin with heq | ⟨s, heq⟩
  · cases heq
    cases hlookup
  · cases heq

theorem inlineReferences_ends_rule :
    ∃ n r, (∀ m, n ≤ m → inlineReferences nameRef ⟨true, false⟩ m ruleSchema "rule.yml#/" = r) ∧
      r ≠ .error recursionError ∧ ∀ v, r = .ok v → Plain ⟨true, false⟩ v := by
  refine inlineReferences_ends nameRef ⟨true, false⟩ loads_nameRef (fun ref url h => ?_)
    ruleSchema "rule.yml#/" wellKeyed_ruleSchema acc_ruleSchema
  cases ref with
  | str s =>
    unfold nameRef at h
    dsimp only at h
    split_ifs at h
    cases h
  | _ => cases h

/-! ### Endless chains -/

/-- A value in a document, with its place, that is under no dict with a reference: what is beside
a reference may be replaced by what the reference leads to. -/
inductive Under (doc : Value) (url : String) : Value → String → Prop
  | refl : Under doc url doc url
  | list {l : List Value} {u : String} {e : Value × ℕ} (h : Under doc url (.list l) u)
      (he : e ∈ l.zipIdx) : Under doc url e.1 (u ++ "/" ++ toString e.2)
  | dict {items : List (String × Value)} {u : String} {e : String × Value}
      (h : Under doc url (.dict items) u)
      (hplain : ∀ ref, items.lookup "$ref" = some ref → ref.truthy = false) (he : e ∈ items) :
      Under doc url e.2 (u ++ "/" ++ e.1)

/-- A document has a reference to another one that has to be followed. -/
def Follows (getRef : Value → String → Except Exc (Value × String)) (target doc : Value × String) :
    Prop :=
  ∃ items url ref, Under doc.1 doc.2 (.dict items) url ∧ items.lookup "$ref" = some ref ∧
    ref.truthy = true ∧ getRef ref url = .ok target

/-- What is inlined has all values under it inlined. -/
theorem inlined_of_under {n : ℕ} {d v w : Value} {url u : String}
    (h : inlineReferences getRef args n d url = .ok v) (hw : Under d url w u) :
    ∃ m w', m ≤ n ∧ inlineReferences getRef args m w u = .ok w' := by
  induction hw with
  | refl => exact ⟨n, v, Nat.le_refl n, h⟩
  | @list l u e _ he ih =>
    obtain ⟨m, w', hm, hok⟩ := ih
    cases m with
    | zero => cases hok
    | succ m =>
      simp only [inlineReferences] at hok
      cases hl : l.zipIdx.mapM (fun e =>
          inlineReferences getRef args m e.1 (u ++ "/" ++ toString e.2)) with
      | error e =>
        rw [hl] at hok
        cases hok
      | ok l' =>
        obtain ⟨x, -, hx⟩ := turn_of_mapM hl he
        exact ⟨m, x, by omega, hx⟩
  | @dict items u e _ hplain he ih =>
    obtain ⟨m, w', hm, hok⟩ := ih
    cases m with
    | zero => cases hok
    | succ m =>
      simp only [inlineReferences] at hok
      obtain ⟨merged, hmerged, hok⟩ := bind_eq_ok hok
      obtain ⟨values, hvalues, -⟩ := bind_eq_ok hok
      -- the dict is not changed before its values
      have hsame : merged = items := by
        unfold resolve at hmerged
        cases hlookup : items.lookup "$ref" with
        | none =>
          rw [hlookup] at hmerged
          exact (Except.ok.inj hmerged).symm
        | some ref =>
          have hfalsy := hplain ref hlookup
          rw [hlookup] at hmerged
          dsimp only at hmerged
          rw [if_neg (by rw [hfalsy]; decide)] at hmerged
          exact (Except.ok.inj hmerged).symm
      rw [← hsame] at he
      obtain ⟨x, -, hx⟩ := turn_of_mapM hvalues he
      obtain ⟨y, hy, -⟩ := bind_eq_ok hx
      exact ⟨m, y, by omega, hy⟩

/-- Nothing comes out of a schema with an endless chain of references, however deep the recursion
may go. -/
theorem inlineReferences_acyclic (getRef : Value → String → Except Exc (Value × String))
    (args : Args) (n : ℕ) (d : Value) (url : String) (v : Value)
    (h : inlineReferences getRef args n d url = .ok v) : Acc (Follows getRef) (d, url) := by
  induction n using Nat.strong_induction_on generalizing d url v with
  | _ n ih =>
    refine Acc.intro (d, url) (fun target htarget => ?_)
    obtain ⟨items, u, ref, hunder, hlookup, htruthy, hload⟩ := htarget
    obtain ⟨m, w, hm, hok⟩ := inlined_of_under h hunder
    cases m with
    | zero => cases hok
    | succ m =>
      simp only [inlineReferences] at hok
      obtain ⟨merged, hmerged, -⟩ := bind_eq_ok hok
      unfold resolve at hmerged
      rw [hlookup] at hmerged
      dsimp only at hmerged
      rw [if_pos htruthy] at hmerged
      obtain ⟨loaded, hloaded, hmerged⟩ := bind_eq_ok hmerged
      obtain ⟨doc, hdoc, -⟩ := bind_eq_ok hmerged
      have heq : loaded = target := Except.ok.inj (hloaded.symm.trans hload)
      subst heq
      -- the target is inlined with less depth
      exact ih m (by omega) loaded.1 loaded.2 doc hdoc

theorem inlineReferences_acyclic_rule : Acc (Follows nameRef) (ruleSchema, "rule.yml#/") :=
  inlineReferences_acyclic nameRef ⟨false, false⟩ 5 ruleSchema "rule.yml#/" _ rfl

end L7mp.Inlining
