import L7mp.Aborting
import L7mp.PythonValue

/-! `inline_references` of the program that converts OpenAPI schemas: what comes out has no
references and nothing that Kubernetes does not take. -/
namespace L7mp.Inlining
open Python Aborting

/-- The arguments `type`, which is `k8s` or `old`, and `compact`. -/
structure Args where
  k8s : Bool
  compact : Bool

def recursionError : Exc := .other "RecursionError" "maximum recursion depth exceeded"

/-- A key that begins with `x-`, but not with `x-kubernetes-`. -/
def isExtension (k : String) : Bool :=
  "x-".toList.isPrefixOf k.toList && !"x-kubernetes-".toList.isPrefixOf k.toList

/-- An element of what a dict is updated with; keys are strings. -/
def pairOf (v : Value) : Except Exc (String × Value) := do
  match ← v.iter with
  | [.str k, w] => return (k, w)
  | [_, _] => throw .typeError
  | _ => throw (.other "ValueError" "dictionary update sequence element has the wrong length")

def setAll (items d : List (String × Value)) : List (String × Value) :=
  items.foldl (fun d e => Dict.set e.1 e.2 d) d

/-- `d.update(doc)`. -/
def updateWith (d : List (String × Value)) (doc : Value) :
    Except Exc (List (String × Value)) :=
  match doc with
  | .dict items => .ok (setAll items d)
  | _ => do return setAll (← (← doc.iter).mapM pairOf) d

/-- `for k, v in d.get(key, {}).items(): d[k] = v`. -/
def setFrom (key : String) (d : List (String × Value)) : Except Exc (List (String × Value)) := do
  return setAll (← ((d.lookup key).getD (.dict [])).items) d

/-- `del d[k]` of any value `k`. -/
def delKey (d : List (String × Value)) (k : Value) : Except Exc (List (String × Value)) :=
  match k with
  | .str k => if (d.lookup k).isSome then .ok (Dict.del k d) else .error (.keyError k)
  | .list _ | .dict _ => .error .typeError
  | _ => .error (.keyError "")

/-- What is done for Kubernetes. -/
def toKubernetes (d : List (String × Value)) : Except Exc (List (String × Value)) := do
  let d ← setFrom "x-l7mp-k8s-replace" d
  let d ← setFrom "x-l7mp-k8s-add" d
  let d ← (← ((d.lookup "x-l7mp-k8s-delete").getD (.list [])).iter).foldlM delKey d
  return d.filter (fun e => !isExtension e.1)

/-- What is done with a dict after its values. -/
def finish (args : Args) (d : List (String × Value)) : Except Exc (List (String × Value)) :=
  (if args.k8s then toKubernetes d else .ok d).map (fun d =>
    if args.compact then Dict.del "description" (Dict.del "summary" d) else d)

section Inlining

-- `get_ref` loads what a reference in a document leads to, with its place
variable (getRef : Value → String → Except Exc (Value × String)) (args : Args)

/-- The reference of a dict is replaced by what `inline` makes of the document. -/
def resolve (inline : Value → String → Except Exc Value) (d : List (String × Value))
    (url : String) : Except Exc (List (String × Value)) :=
  match d.lookup "$ref" with
  | none => .ok d
  | some ref =>
    if ref.truthy then do
      let (doc, refUrl) ← getRef ref url
      updateWith (Dict.del "$ref" d) (← inline doc refUrl)
    else .ok d

/-- `inline_references(d, url)`, with the depth that is left to the recursion. -/
def inlineReferences : ℕ → Value → String → Except Exc Value
  | 0, _, _ => .error recursionError
  | n+1, d, url => match d with
    | .num q => if q.den = 1 then .ok d else .error (.other "Exception" ("Unknown type: " ++ url))
    | .list l => .list <$> l.zipIdx.mapM (fun e =>
        inlineReferences n e.1 (url ++ "/" ++ toString e.2))
    | .dict items => do
      let items ← resolve getRef (inlineReferences n) items url
      let items ← items.mapM (fun e => do
        return (e.1, ← inlineReferences n e.2 (url ++ "/" ++ e.1)))
      return .dict (← finish args items)
    | _ => .ok d

end Inlining

/-! ### What comes out -/

/-- Keys are distinct in all dicts. -/
inductive WellKeyed : Value → Prop
  | none : WellKeyed .none
  | bool (b : Bool) : WellKeyed (.bool b)
  | str (s : String) : WellKeyed (.str s)
  | num (q : ℚ) : WellKeyed (.num q)
  | list (l : List Value) (h : ∀ v ∈ l, WellKeyed v) : WellKeyed (.list l)
  | dict (items : List (String × Value)) (hkeys : (items.map Prod.fst).Nodup)
      (h : ∀ e ∈ items, WellKeyed e.2) : WellKeyed (.dict items)

/-- References lead to schemas. -/
def Loads (getRef : Value → String → Except Exc (Value × String)) : Prop :=
  ∀ ref url doc refUrl, getRef ref url = .ok (doc, refUrl) →
    WellKeyed doc ∧ ∃ items, doc = .dict items

/-- An entry that may be in a schema that comes out. -/
structure Allowed (args : Args) (e : String × Value) : Prop where
  ref : e.1 = "$ref" → e.2.truthy = false
  extension : args.k8s = true → isExtension e.1 = false
  texts : args.compact = true → e.1 ≠ "summary" ∧ e.1 ≠ "description"

/-- No reference is left at any depth, no extension if the schema is for Kubernetes, and no texts
if it is to be compact. -/
inductive Plain (args : Args) : Value → Prop
  | none : Plain args .none
  | bool (b : Bool) : Plain args (.bool b)
  | str (s : String) : Plain args (.str s)
  | num (q : ℚ) (hq : q.den = 1) : Plain args (.num q)
  | list (l : List Value) (h : ∀ v ∈ l, Plain args v) : Plain args (.list l)
  | dict (items : List (String × Value)) (hkeys : (items.map Prod.fst).Nodup)
      (h : ∀ e ∈ items, Plain args e.2) (hallowed : ∀ e ∈ items, Allowed args e) :
      Plain args (.dict items)

variable {getRef : Value → String → Except Exc (Value × String)} {args : Args}

theorem Plain.wellKeyed {v : Value} (h : Plain args v) : WellKeyed v := by
  induction h with
  | none => exact .none
  | bool b => exact .bool b
  | str s => exact .str s
  | num q hq => exact .num q
  | list l _ ih => exact .list l ih
  | dict items hkeys _ _ ih => exact .dict items hkeys ih

/-- A dict all values of which are plain, before its own keys are cleared. -/
structure Inlined (args : Args) (items : List (String × Value)) : Prop where
  keys : (items.map Prod.fst).Nodup
  plain : ∀ e ∈ items, Plain args e.2
  ref : ∀ e ∈ items, e.1 = "$ref" → e.2.truthy = false

theorem Inlined.of_plain {items : List (String × Value)} (h : Plain args (.dict items)) :
    Inlined args items := by
  cases h with
  | dict _ hkeys h hallowed => exact ⟨hkeys, h, fun e he => (hallowed e he).ref⟩

theorem mem_setAll {items d : List (String × Value)} {e : String × Value}
    (h : e ∈ setAll items d) : e ∈ items ∨ e ∈ d := by
  induction items generalizing d with
  | nil => exact Or.inr h
  | cons f items ih =>
    rcases ih (d := Dict.set f.1 f.2 d) h with h | h
    · exact Or.inl (List.mem_cons_of_mem f h)
    · rcases Dict.mem_set h with rfl | h
      · exact Or.inl List.mem_cons_self
      · exact Or.inr h

theorem nodup_setAll {items d : List (String × Value)} (h : (d.map Prod.fst).Nodup) :
    ((setAll items d).map Prod.fst).Nodup := by
  induction items generalizing d with
  | nil => exact h
  | cons f items ih => exact ih (d := Dict.set f.1 f.2 d) (Dict.nodup_set h f.1 f.2)

theorem Inlined.setAll {items d : List (String × Value)} (hd : Inlined args d)
    (hitems : Inlined args items) : Inlined args (setAll items d) := by
  refine ⟨nodup_setAll hd.keys, fun e he => ?_, fun e he => ?_⟩
  · rcases mem_setAll he with h | h
    · exact hitems.plain e h
    · exact hd.plain e h
  · rcases mem_setAll he with h | h
    · exact hitems.ref e h
    · exact hd.ref e h

theorem Inlined.filter {d : List (String × Value)} (hd : Inlined args d)
    (p : String × Value → Bool) : Inlined args (d.filter p) := by
  refine ⟨?_, fun e he => hd.plain e (List.mem_filter.mp he).1,
    fun e he => hd.ref e (List.mem_filter.mp he).1⟩
  exact hd.keys.sublist (List.filter_sublist.map Prod.fst)

theorem Inlined.setFrom {d r : List (String × Value)} {key : String} (hd : Inlined args d)
    (h : setFrom key d = .ok r) : Inlined args r := by
  obtain ⟨items, hitems, h⟩ := bind_eq_ok h
  cases h
  cases hlookup : d.lookup key with
  | none =>
    rw [hlookup] at hitems
    cases hitems
    exact hd
  | some v =>
    rw [hlookup] at hitems
    have hplain := hd.plain _ (Dict.mem_of_lookup hlookup)
    cases v with
    | dict _ =>
      cases hitems
      exact hd.setAll (Inlined.of_plain hplain)
    | _ => cases hitems

theorem Inlined.delKey {d r : List (String × Value)} {k : Value} (hd : Inlined args d)
    (h : delKey d k = .ok r) : Inlined args r := by
  cases k with
  | str k =>
    unfold Inlining.delKey at h
    dsimp only at h
    split_ifs at h
    cases h
    exact hd.filter _
  | _ => cases h

/-- What is allowed of the keys, and the values plain. -/
theorem Inlined.finish {d r : List (String × Value)} (hd : Inlined args d)
    (h : finish args d = .ok r) : Plain args (.dict r) := by
  unfold Inlining.finish at h
  obtain ⟨d', hd', h⟩ : ∃ d', (if args.k8s then toKubernetes d else .ok d) = .ok d' ∧
      (if args.compact then Dict.del "description" (Dict.del "summary" d') else d') = r := by
    cases hd' : (if args.k8s then toKubernetes d else .ok d) with
    | error e =>
      rw [hd'] at h
      cases h
    | ok d' =>
      rw [hd'] at h
      exact ⟨d', rfl, Except.ok.inj h⟩
  have hcleared : Inlined args d' ∧ (args.k8s = true → ∀ e ∈ d', isExtension e.1 = false) := by
    split_ifs at hd' with hk8s
    · obtain ⟨d₁, h₁, hd'⟩ := bind_eq_ok hd'
      obtain ⟨d₂, h₂, hd'⟩ := bind_eq_ok hd'
      obtain ⟨ks, -, hd'⟩ := bind_eq_ok hd'
      obtain ⟨d₃, h₃, hd'⟩ := bind_eq_ok hd'
      cases hd'
      have hdeleted : Inlined args d₃ :=
        foldlM_invariant (P := Inlined args) h₃ ((hd.setFrom h₁).setFrom h₂)
          (fun _ _ _ _ hx hturn => hx.delKey hturn)
      refine ⟨hdeleted.filter _, fun _ e he => ?_⟩
      have hkept := (List.mem_filter.mp he).2
      simpa using hkept
    · cases hd'
      exact ⟨hd, fun heq => absurd heq hk8s⟩
  obtain ⟨hinlined, hextension⟩ := hcleared
  subst h
  split_ifs with hcompact
  · have hkeep := (hinlined.filter (fun e => e.1 != "summary")).filter
      (fun e => e.1 != "description")
    refine .dict _ hkeep.keys hkeep.plain (fun e he => ⟨hkeep.ref e he, ?_, fun _ => ?_⟩)
    · exact fun hk8s => hextension hk8s e (List.mem_filter.mp (List.mem_filter.mp he).1).1
    · have hdescription := (List.mem_filter.mp he).2
      have hsummary := (List.mem_filter.mp (List.mem_filter.mp he).1).2
      exact ⟨by simpa using hsummary, by simpa using hdescription⟩
  · refine .dict _ hinlined.keys hinlined.plain (fun e he => ⟨hinlined.ref e he, ?_, ?_⟩)
    · exact fun hk8s => hextension hk8s e he
    · exact fun heq => absurd heq hcompact

/-- A document keeps its kind, and what counts as false stays so. -/
structure Keeps (v r : Value) : Prop where
  falsy : v.truthy = false → r.truthy = false
  dict : ∀ items, v = .dict items → ∃ items', r = .dict items'

theorem mapM_keys {f : String × Value → Except Exc Value} {items r : List (String × Value)}
    (h : items.mapM (fun e => do return (e.1, ← f e)) = .ok r) :
    r.map Prod.fst = items.map Prod.fst := by
  induction items generalizing r with
  | nil =>
    cases h
    rfl
  | cons e items ih =>
    rw [List.mapM_cons] at h
    obtain ⟨x, hx, h⟩ := bind_eq_ok h
    obtain ⟨r', hr', h⟩ := bind_eq_ok h
    obtain ⟨v, -, hx⟩ := bind_eq_ok hx
    cases hx
    cases h
    rw [List.map_cons, List.map_cons, ih hr']

/-- After its reference, a dict has distinct keys and no reference that is to be followed. -/
theorem resolve_spec (hloads : Loads getRef) {inline : Value → String → Except Exc Value}
    (hinline : ∀ d url v, WellKeyed d → inline d url = .ok v → Plain args v ∧ Keeps d v)
    {items r : List (String × Value)} {url : String} (hitems : WellKeyed (.dict items))
    (h : resolve getRef inline items url = .ok r) :
    (r.map Prod.fst).Nodup ∧ (∀ e ∈ r, WellKeyed e.2) ∧
      ∀ e ∈ r, e.1 = "$ref" → e.2.truthy = false := by
  cases hitems with
  | dict _ hkeys hvalues =>
    unfold resolve at h
    cases hlookup : items.lookup "$ref" with
    | none =>
      rw [hlookup] at h
      cases h
      refine ⟨hkeys, hvalues, fun e he hkey => absurd ?_ (Dict.lookup_eq_none.mp hlookup)⟩
      rw [← hkey]
      exact List.mem_map_of_mem he
    | some ref =>
      rw [hlookup] at h
      dsimp only at h
      split_ifs at h with htruthy
      · obtain ⟨⟨doc, refUrl⟩, hload, h⟩ := bind_eq_ok h
        obtain ⟨v, hv, h⟩ := bind_eq_ok h
        obtain ⟨hdoc, ditems, rfl⟩ := hloads _ _ _ _ hload
        obtain ⟨hplain, hkeeps⟩ := hinline _ _ _ hdoc hv
        obtain ⟨vitems, rfl⟩ := hkeeps.dict ditems rfl
        cases h
        have hinlined := Inlined.of_plain hplain
        refine ⟨nodup_setAll (Dict.nodup_del hkeys _), fun e he => ?_, fun e he hkey => ?_⟩
        · rcases mem_setAll he with he | he
          · exact (hinlined.plain e he).wellKeyed
          · exact hvalues e (List.mem_filter.mp he).1
        · rcases mem_setAll he with he | he
          · exact hinlined.ref e he hkey
          · have hne := (List.mem_filter.mp he).2
            simp [hkey] at hne
      · cases h
        refine ⟨hkeys, hvalues, fun e he hkey => ?_⟩
        have heq := List.inj_on_of_nodup_map hkeys he (Dict.mem_of_lookup hlookup) hkey
        rw [heq]
        simpa using htruthy

/-- Whatever depth is left: a schema that comes out is plain. -/
theorem plain_inlineReferences (hloads : Loads getRef) (n : ℕ) (d : Value) (url : String)
    (v : Value) (hd : WellKeyed d) (h : inlineReferences getRef args n d url = .ok v) :
    Plain args v ∧ Keeps d v := by
  induction n generalizing d url v with
  | zero => cases h
  | succ n ih =>
    cases d with
    | none =>
      cases h
      exact ⟨.none, fun hf => hf, fun items hi => (by cases hi)⟩
    | bool b =>
      cases h
      exact ⟨.bool b, fun hf => hf, fun items hi => (by cases hi)⟩
    | str s =>
      cases h
      exact ⟨.str s, fun hf => hf, fun items hi => (by cases hi)⟩
    | num q =>
      simp only [inlineReferences] at h
      split_ifs at h with hq
      cases h
      exact ⟨.num q hq, fun hf => hf, fun items hi => (by cases hi)⟩
    | list l =>
      simp only [inlineReferences] at h
      cases hl : l.zipIdx.mapM (fun e =>
          inlineReferences getRef args n e.1 (url ++ "/" ++ toString e.2)) with
      | error e =>
        rw [hl] at h
        cases h
      | ok l' =>
        rw [hl] at h
        cases h
        cases hd with
        | list _ hvalues =>
          refine ⟨.list l' (fun x hx => ?_), fun hf => ?_, fun items hi => (by cases hi)⟩
          · obtain ⟨e, he, hturn⟩ := mem_of_mapM hl hx
            have hmem : e.1 ∈ l := List.fst_mem_of_mem_zipIdx he
            exact (ih e.1 _ x (hvalues e.1 hmem) hturn).1
          · have hempty : l = [] := by
              cases l with
              | nil => rfl
              | cons x l => cases hf
            subst hempty
            cases hl
            rfl
    | dict items =>
      simp only [inlineReferences] at h
      obtain ⟨merged, hmerged, h⟩ := bind_eq_ok h
      obtain ⟨values, hvalues, h⟩ := bind_eq_ok h
      obtain ⟨r, hr, h⟩ := bind_eq_ok h
      cases h
      obtain ⟨hkeys, hwell, href⟩ := resolve_spec hloads ih hd hmerged
      have hinlined : Inlined args values := by
        have hturns : ∀ e ∈ values, ∃ x ∈ merged, e.1 = x.1 ∧
            Plain args e.2 ∧ Keeps x.2 e.2 := by
          intro e he
          obtain ⟨x, hx, hturn⟩ := mem_of_mapM hvalues he
          obtain ⟨y, hy, hturn⟩ := bind_eq_ok hturn
          cases hturn
          exact ⟨x, hx, rfl, ih x.2 _ y (hwell x hx) hy⟩
        refine ⟨?_, fun e he => ?_, fun e he hkey => ?_⟩
        · rw [mapM_keys hvalues]
          exact hkeys
        · obtain ⟨x, -, -, hplain, -⟩ := hturns e he
          exact hplain
        · obtain ⟨x, hx, hxe, -, hkeeps⟩ := hturns e he
          exact hkeeps.falsy (href x hx (hxe.symm.trans hkey))
      refine ⟨hinlined.finish hr, fun hf => ?_, fun _ _ => ⟨r, rfl⟩⟩
      -- an empty dict stays empty
      have hempty : items = [] := by
        cases items with
        | nil => rfl
        | cons x l => cases hf
      subst hempty
      cases hmerged
      cases hvalues
      have hfinish : finish args [] = .ok [] := by
        unfold finish
        cases args.k8s <;> cases args.compact <;> rfl
      have hnil : r = [] := Except.ok.inj (hr.symm.trans hfinish)
      rw [hnil]
      rfl

/-! ### Plain schemas stay as they are -/

/-- One bound for all elements of a list. -/
theorem exists_bound {α : Type} {P : ℕ → α → Prop} {l : List α}
    (h : ∀ a ∈ l, ∃ n, ∀ m, n ≤ m → P m a) : ∃ n, ∀ m, n ≤ m → ∀ a ∈ l, P m a := by
  induction l with
  | nil => exact ⟨0, fun m _ a ha => (by cases ha)⟩
  | cons a l ih =>
    obtain ⟨n₁, h₁⟩ := h a List.mem_cons_self
    obtain ⟨n₂, h₂⟩ := ih (fun b hb => h b (List.mem_cons_of_mem a hb))
    refine ⟨n₁ + n₂, fun m hm b hb => ?_⟩
    rcases List.mem_cons.mp hb with rfl | hb
    · exact h₁ m (by omega)
    · exact h₂ m (by omega) b hb

theorem mapM_self {α : Type} {f : α → Except Exc α} {l : List α} (h : ∀ a ∈ l, f a = .ok a) :
    l.mapM f = .ok l := by
  induction l with
  | nil => rfl
  | cons a l ih =>
    rw [List.mapM_cons, h a List.mem_cons_self, ih (fun b hb => h b (List.mem_cons_of_mem a hb))]
    rfl

theorem setFrom_missing {key : String} {d : List (String × Value)} (h : d.lookup key = none) :
    setFrom key d = .ok d := by
  unfold setFrom
  rw [h]
  rfl

theorem finish_allowed {items : List (String × Value)} (h : ∀ e ∈ items, Allowed args e) :
    finish args items = .ok items := by
  have hfilter : ∀ p : String × Value → Bool, (∀ e ∈ items, p e = true) →
      items.filter p = items := fun p hp => List.filter_eq_self.mpr hp
  have hcleared : (if args.k8s then toKubernetes items else .ok items) = .ok items := by
    split_ifs with hk8s
    · have hmissing : ∀ key, isExtension key = true → items.lookup key = none := by
        intro key hkey
        rw [Dict.lookup_eq_none]
        intro hmem
        obtain ⟨e, he, rfl⟩ := List.mem_map.mp hmem
        rw [(h e he).extension hk8s] at hkey
        cases hkey
      unfold toKubernetes
      rw [setFrom_missing (hmissing _ (by decide))]
      dsimp only [bind, Except.bind]
      rw [setFrom_missing (hmissing _ (by decide))]
      dsimp only
      rw [hmissing "x-l7mp-k8s-delete" (by decide)]
      change Except.ok (items.filter _) = _
      rw [hfilter _ (fun e he => by rw [(h e he).extension hk8s]; rfl)]
    · rfl
  unfold finish
  rw [hcleared]
  change Except.ok _ = _
  split_ifs with hcompact
  · have hsummary : Dict.del "summary" items = items :=
      hfilter _ (fun e he => by simpa using ((h e he).texts hcompact).1)
    have hdescription : Dict.del "description" items = items :=
      hfilter _ (fun e he => by simpa using ((h e he).texts hcompact).2)
    dsimp only
    rw [hsummary, hdescription]
  · rfl

/-- With enough depth, a plain schema comes out as it is. -/
theorem Plain.stable {v : Value} (h : Plain args v) : ∃ n, ∀ m, n ≤ m →
    ∀ (getRef : Value → String → Except Exc (Value × String)) (url : String),
      inlineReferences getRef args m v url = .ok v := by
  have hsucc : ∀ {P : ℕ → Prop} {n : ℕ}, (∀ m, n ≤ m → P (m + 1)) →
      ∃ n, ∀ m, n ≤ m → P m := by
    intro P n hP
    refine ⟨n + 1, fun m hm => ?_⟩
    obtain ⟨k, rfl⟩ : ∃ k, m = k + 1 := ⟨m - 1, by omega⟩
    exact hP k (by omega)
  induction h with
  | none => exact hsucc (n := 0) (fun m _ _ _ => rfl)
  | bool b => exact hsucc (n := 0) (fun m _ _ _ => rfl)
  | str s => exact hsucc (n := 0) (fun m _ _ _ => rfl)
  | num q hq =>
    refine hsucc (n := 0) (fun m _ getRef url => ?_)
    simp only [inlineReferences]
    rw [if_pos hq]
  | list l _ ih =>
    obtain ⟨n, hn⟩ := exists_bound ih
    refine hsucc (n := n) (fun m hm getRef url => ?_)
    simp only [inlineReferences]
    have hvalues : ∀ (l' : List (Value × ℕ)), (∀ e ∈ l', e.1 ∈ l) → l'.mapM (fun e =>
        inlineReferences getRef args m e.1 (url ++ "/" ++ toString e.2)) =
          .ok (l'.map Prod.fst) := by
      intro l' hl'
      induction l' with
      | nil => rfl
      | cons e l' ih =>
        rw [List.mapM_cons, hn m hm e.1 (hl' e List.mem_cons_self) getRef _,
          ih (fun e he => hl' e (List.mem_cons_of_mem _ he))]
        rfl
    rw [hvalues _ (fun e he => List.fst_mem_of_mem_zipIdx he), List.zipIdx_map_fst]
    rfl
  | dict items hkeys _ hallowed ih =>
    obtain ⟨n, hn⟩ := exists_bound ih
    refine hsucc (n := n) (fun m hm getRef url => ?_)
    simp only [inlineReferences]
    have hresolve : resolve getRef (inlineReferences getRef args m) items url = .ok items := by
      unfold resolve
      cases hlookup : items.lookup "$ref" with
      | none => rfl
      | some ref =>
        have hfalsy := (hallowed _ (Dict.mem_of_lookup hlookup)).ref rfl
        change ref.truthy = false at hfalsy
        dsimp only
        rw [if_neg (by rw [hfalsy]; decide)]
    have hvalues : items.mapM (fun e => do
        return (e.1, ← inlineReferences getRef args m e.2 (url ++ "/" ++ e.1))) = .ok items := by
      refine mapM_self (fun e he => ?_)
      rw [hn m hm e he getRef _]
      rfl
    rw [hresolve]
    dsimp only [bind, Except.bind] at hvalues ⊢
    rw [hvalues]
    dsimp only
    rw [finish_allowed hallowed]
    rfl

/-- What comes out has no references, and nothing else that is to go; inlining it again, in any
place and with any references, gives the same, if there is depth enough. -/
theorem inlineReferences_closed (getRef : Value → String → Except Exc (Value × String))
    (args : Args) (hloads : Loads getRef) (n : ℕ) (d : Value) (url : String) (v : Value)
    (hd : WellKeyed d) (h : inlineReferences getRef args n d url = .ok v) :
    Plain args v ∧ ∃ n', ∀ m, n' ≤ m →
      ∀ (getRef' : Value → String → Except Exc (Value × String)) (url' : String),
        inlineReferences getRef' args m v url' = .ok v := by
  have hplain := (plain_inlineReferences hloads n d url v hd h).1
  exact ⟨hplain, hplain.stable⟩

/-- The schema of a name, which is referred to. -/
def nameSchema : Value := .dict [("type", .str "string"), ("x-l7mp-old-name", .str "id")]

def nameRef (ref : Value) (_ : String) : Except Exc (Value × String) :=
  match ref with
  | .str s => if s = "#/name" then .ok (nameSchema, "rule.yml#/name") else .error (.keyError s)
  | _ => .error .typeError

def ruleSchema : Value :=
  .dict [("description", .str "A rule"),
    ("properties", .dict [("name", .dict [("$ref", .str "#/name")])])]

theorem eq_of_nameRef {ref : Value} {url : String} {target : Value × String}
    (h : nameRef ref url = .ok target) : target = (nameSchema, "rule.yml#/name") := by
  cases ref with
  | str s =>
    unfold nameRef at h
    dsimp only at h
    split_ifs at h
    exact (Except.ok.inj h).symm
  | _ => cases h

theorem loads_nameRef : Loads nameRef := by
  intro ref url doc refUrl h
  have heq := eq_of_nameRef h
  cases heq
  refine ⟨.dict _ (by decide) (fun e he => ?_), _, rfl⟩
  simp only [List.mem_cons, List.not_mem_nil, or_false] at he
  rcases he with rfl | rfl
  · exact .str "string"
  · exact .str "id"

theorem wellKeyed_ruleSchema : WellKeyed ruleSchema := by
  refine .dict _ (by decide) (fun e he => ?_)
  simp only [List.mem_cons, List.not_mem_nil, or_false] at he
  rcases he with rfl | rfl
  · exact .str "A rule"
  · refine .dict _ (by decide) (fun e he => ?_)
    rw [List.mem_singleton.mp he]
    refine .dict _ (by decide) (fun e he => ?_)
    rw [List.mem_singleton.mp he]
    exact .str "#/name"

theorem inlineReferences_closed_rule :
    let r := Value.dict [("properties", .dict [("name", .dict [("type", .str "string")])])]
    Plain ⟨true, true⟩ r ∧ ∃ n', ∀ m, n' ≤ m →
      ∀ (getRef' : Value → String → Except Exc (Value × String)) (url' : String),
        inlineReferences getRef' ⟨true, true⟩ m r url' = .ok r :=
  inlineReferences_closed nameRef ⟨true, true⟩ loads_nameRef 5 ruleSchema "rule.yml#/" _
    wellKeyed_ruleSchema rfl

end L7mp.Inlining
