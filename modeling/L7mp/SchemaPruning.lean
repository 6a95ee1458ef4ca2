import L7mp.ConvertSub

/-! Conversion under a pruned schema against conversion under the full one. -/
namespace L7mp.Conversion
open Python

namespace Schema

def kept (s : Schema) : Bool := (removeProp s).2

end Schema

mutual

/-- The value has the shape of the schema: an object where the schema has properties, an array
where it has items. -/
def Fits : Schema → Value → Prop
  | .node properties (some s) _ _ _ _, x =>
    x = .none ∨ (FitsProperties properties x ∧ ∃ l, x = .list l ∧ ∀ y ∈ l, Fits s y)
  | .node properties none _ _ _ _, x => x = .none ∨ FitsProperties properties x

def FitsProperties : List (String × Schema) → Value → Prop
  | [], _ => True
  | (k, s) :: rest, x =>
    (isOld k = true ∨ ∃ d, x = .dict d ∧ Fits s ((d.lookup k).getD .none)) ∧ FitsProperties rest x

end

mutual

/-- The conversion meets nothing that pruning hides: no array with an annotation whose items have
none, and nothing without the shape of a schema that is pruned. -/
def Clear : Schema → Value → Prop
  | .node properties (some s) oldName removeLevel oldProperty others, x => x = .none ∨
    (ClearProperties properties x ∧ ∀ x', convertProperties properties x = .ok x' →
      (s.kept = true → ∀ l, x'.iter = .ok l → ∀ y ∈ l, Clear s y) ∧
      (s.kept = false →
        (Schema.node properties none oldName removeLevel oldProperty others).Bare ∧
        ∃ l, x' = .list l ∧ ∀ y ∈ l, Fits s y))
  | .node properties none _ _ _ _, x => x = .none ∨ ClearProperties properties x

def ClearProperties : List (String × Schema) → Value → Prop
  | [], _ => True
  | (k, s) :: rest, x =>
    if isOld k then ClearProperties rest x
    else if s.kept then
      ∀ v, x.get k .none = .ok v → Clear s v ∧
        ∀ c, convertSub s k v = .ok c → ∀ x', putBack k v c x = .ok x' → ClearProperties rest x'
    else
      (∀ v, x.get k .none = .ok v → Fits s v) ∧
      ((∃ d, x = .dict d) ∨ ∃ f ∈ rest, isOld f.1 = false ∧ f.2.kept = true) ∧
      ClearProperties rest x

end

/-! ### What is dropped -/

theorem removeProps_eq_nil {properties : List (String × Schema)} (h : removeProps properties = []) :
    ∀ f ∈ properties, f.2.kept = false := by
  induction properties with
  | nil => exact fun f hf => absurd hf List.not_mem_nil
  | cons f rest ih =>
    obtain ⟨k, s⟩ := f
    rw [removeProps] at h
    split at h
    · cases h
    split at h
    · cases h
    · rename_i hkept
      exact List.forall_mem_cons.mpr ⟨Bool.eq_false_iff.mpr hkept, ih h⟩

/-- Nothing is kept of a schema that is dropped. -/
theorem not_kept {properties : List (String × Schema)} {items : Option Schema}
    {oldName oldProperty : Option String} {removeLevel : Option Bool} {others : Bool}
    (h : (Schema.node properties items oldName removeLevel oldProperty others).kept = false) :
    (∀ f ∈ properties, f.2.kept = false) ∧ (∀ s, items = some s → s.kept = false) ∧
      oldName = none ∧ removeLevel = none ∧ oldProperty = none := by
  unfold Schema.kept at h
  rw [removeProp] at h
  simp only [Bool.or_eq_false_iff, Bool.not_eq_false', Option.isSome_eq_false_iff,
    Option.isNone_iff_eq_none, List.isEmpty_iff] at h
  obtain ⟨⟨⟨⟨⟨hproperties, hitems⟩, hname⟩, hlevel⟩, hproperty⟩, -⟩ := h
  refine ⟨removeProps_eq_nil hproperties, ?_, hname, hlevel, hproperty⟩
  rintro s rfl
  by_contra hkept
  have hsome : (removeProp s).2 = true := Bool.eq_true_of_not_eq_false hkept
  rw [removeItems, if_pos hsome] at hitems
  cases hitems

theorem mapM_same {f : Value → Except Exc Value} {l : List Value} (h : ∀ y ∈ l, f y = .ok y) :
    l.mapM f = .ok l := by
  calc l.mapM f = l.mapM (fun y => pure y) := mapM_congr h
    _ = pure (l.map (fun y => y)) := List.mapM_pure
    _ = .ok l := by
      rw [List.map_id']
      rfl

/-- A schema that is dropped leaves what has its shape as it is. -/
theorem convertProperties_dropped {properties : List (String × Schema)}
    (ih : ∀ f ∈ properties, ∀ v key, Fits f.2 v → convertSub f.2 key v = .ok ⟨key, v, v⟩)
    {x : Value} (h : FitsProperties properties x) : convertProperties properties x = .ok x := by
  induction properties with
  | nil => rw [convertProperties]
  | cons f rest ihrest =>
    obtain ⟨k, s⟩ := f
    obtain ⟨hs, hrest⟩ := List.forall_mem_cons.mp ih
    rw [FitsProperties] at h
    rw [convertProperties]
    by_cases hold : isOld k = true
    · rw [if_pos hold]
      exact ihrest hrest h.2
    · obtain ⟨d, rfl, hfits⟩ := h.1.resolve_left hold
      rw [if_neg hold, Value.get, ← ihrest hrest h.2]
      change (convertSub s k ((d.lookup k).getD .none) >>= fun c =>
        putBack k ((d.lookup k).getD .none) c (.dict d) >>= convertProperties rest) = _
      rw [hs _ k hfits]
      change (putBack k _ _ (.dict d) >>= convertProperties rest) = _
      rw [putBack_same rfl]
      rfl

theorem convertSub_dropped (s : Schema) : s.kept = false →
    ∀ x key, Fits s x → convertSub s key x = .ok ⟨key, x, x⟩ := by
  induction s using Schema.all with
  | h properties items oldName removeLevel oldProperty others hproperties hitems =>
    intro hkept x key hfits
    obtain ⟨hp, hi, rfl, rfl, rfl⟩ := not_kept hkept
    have hloop : FitsProperties properties x → convertProperties properties x = .ok x :=
      convertProperties_dropped (fun f hf => hproperties f hf (hp f hf))
    by_cases hx : x = .none
    · rw [hx, convertSub_none]
    rw [convertSub, if_neg hx]
    cases items with
    | none =>
      rw [Fits] at hfits
      have hbare : (Schema.node properties none none none none others).Bare := ⟨rfl, rfl, rfl⟩
      rw [hloop (hfits.resolve_left hx)]
      exact convertLevels_bare hbare key x
    | some s =>
      rw [Fits] at hfits
      obtain ⟨hprops, l, rfl, hl⟩ := hfits.resolve_left hx
      rw [hloop hprops]
      have hmap : l.mapM (fun item => Converted.obj <$> convertSub s "_" item) = .ok l := by
        apply mapM_same
        intro y hy
        rw [hitems s rfl (hi s rfl) y "_" (hl y hy)]
        rfl
      change (l.mapM (fun item => Converted.obj <$> convertSub s "_" item) >>= _) = _
      rw [hmap]
      rfl

/-! ### What is kept -/

theorem isOld_of_annotated {k : String} (h : isAnnotation k = true) : isOld k = true := by
  have hprefix : "x-l7mp-old".toList <+: "x-l7mp-old-".toList := by decide
  unfold isOld
  rw [List.isPrefixOf_iff_prefix]
  exact hprefix.trans (List.isPrefixOf_iff_prefix.mp h)

theorem get_of_not_dict {x : Value} (hx : ¬∃ d, x = .dict d) (k : String) :
    x.get k .none = .error .attributeError := by
  cases x with
  | dict d => exact absurd ⟨d, rfl⟩ hx
  | _ => rfl

theorem convertProperties_of_not_dict {x : Value} (hx : ¬∃ d, x = .dict d)
    {properties : List (String × Schema)} (h : ∃ f ∈ properties, isOld f.1 = false) :
    convertProperties properties x = .error .attributeError := by
  induction properties with
  | nil =>
    obtain ⟨f, hf, -⟩ := h
    exact absurd hf List.not_mem_nil
  | cons f rest ih =>
    obtain ⟨k, s⟩ := f
    rw [convertProperties]
    by_cases hold : isOld k = true
    · rw [if_pos hold]
      apply ih
      obtain ⟨f, hf, hlooked⟩ := h
      rcases List.mem_cons.mp hf with rfl | hrest
      · rw [hold] at hlooked
        cases hlooked
      · exact ⟨f, hrest, hlooked⟩
    · rw [if_neg hold, get_of_not_dict hx]
      rfl

theorem convertProperties_removeProps {properties : List (String × Schema)}
    (ih : ∀ f ∈ properties, ∀ v key, Clear f.2 v →
      convertSub f.2 key v = convertSub (removeProp f.2).1 key v)
    {x : Value} (h : ClearProperties properties x) :
    convertProperties properties x = convertProperties (removeProps properties) x := by
  induction properties generalizing x with
  | nil => rfl
  | cons f rest ihrest =>
    obtain ⟨k, s⟩ := f
    obtain ⟨hs, hrest⟩ := List.forall_mem_cons.mp ih
    rw [ClearProperties] at h
    rw [convertProperties, removeProps]
    by_cases hold : isOld k = true
    · rw [if_pos hold] at h
      rw [if_pos hold, ihrest hrest h]
      split
      · rw [convertProperties, if_pos hold]
      · split
        · rw [convertProperties, if_pos hold]
        · rfl
    rw [if_neg hold] at h
    rw [if_neg hold, if_neg (fun hannotation => hold (isOld_of_annotated hannotation))]
    by_cases hkept : s.kept = true
    · have hremove : (removeProp s).2 = true := hkept
      rw [if_pos hkept] at h
      rw [if_pos hremove, convertProperties, if_neg hold]
      rcases hget : x.get k .none with e | v
      · rfl
      obtain ⟨hclear, hstep⟩ := h v hget
      change (convertSub s k v >>= fun c => putBack k v c x >>= convertProperties rest) =
        (convertSub (removeProp s).1 k v >>= fun c =>
          putBack k v c x >>= convertProperties (removeProps rest))
      rw [← hs v k hclear]
      rcases hc : convertSub s k v with e | c
      · rfl
      change (putBack k v c x >>= convertProperties rest) =
        (putBack k v c x >>= convertProperties (removeProps rest))
      rcases hx' : putBack k v c x with e | x'
      · rfl
      · exact ihrest hrest (hstep c hc x' hx')
    · have hremove : ¬(removeProp s).2 = true := hkept
      rw [if_neg hkept] at h
      obtain ⟨hfits, hdict, hclear⟩ := h
      rw [if_neg hremove, ← ihrest hrest hclear]
      by_cases hx : ∃ d, x = .dict d
      · obtain ⟨d, rfl⟩ := hx
        rw [Value.get]
        change (convertSub s k ((d.lookup k).getD .none) >>= fun c =>
          putBack k ((d.lookup k).getD .none) c (.dict d) >>= convertProperties rest) = _
        rw [convertSub_dropped s (Bool.eq_false_iff.mpr hkept) _ k (hfits _ rfl)]
        change (putBack k _ _ (.dict d) >>= convertProperties rest) = _
        rw [putBack_same rfl]
        rfl
      · -- what is no object is asked for a property either way
        obtain ⟨f, hf, hlooked, -⟩ := hdict.resolve_left hx
        rw [get_of_not_dict hx, convertProperties_of_not_dict hx ⟨f, hf, hlooked⟩]
        rfl

theorem convertSub_clear (s : Schema) :
    ∀ x key, Clear s x → convertSub s key x = convertSub (removeProp s).1 key x := by
  induction s using Schema.all with
  | h properties items oldName removeLevel oldProperty others hproperties hitems =>
    intro x key hclear
    by_cases hx : x = .none
    · rw [hx, convertSub_none, convertSub_none]
    have hproperties' : ∀ f ∈ properties, ∀ v key, Clear f.2 v →
        convertSub f.2 key v = convertSub (removeProp f.2).1 key v := hproperties
    rw [convertSub, if_neg hx, removeProp, convertSub, if_neg hx]
    cases items with
    | none =>
      rw [Clear] at hclear
      rw [removeItems, ← convertProperties_removeProps hproperties' (hclear.resolve_left hx)]
      rcases convertProperties properties x with e | x'
      · rfl
      · rfl
    | some s =>
      rw [Clear] at hclear
      obtain ⟨hprops, hafter⟩ := hclear.resolve_left hx
      rw [← convertProperties_removeProps hproperties' hprops]
      rcases hx' : convertProperties properties x with e | x'
      · rfl
      obtain ⟨hitem, hdropped⟩ := hafter x' hx'
      by_cases hkept : s.kept = true
      · have hremove : (removeProp s).2 = true := hkept
        rw [removeItems, if_pos hremove]
        change (x'.iter >>= fun l => l.mapM _ >>= _) = (x'.iter >>= fun l => l.mapM _ >>= _)
        rcases hl : x'.iter with e | l
        · rfl
        change (l.mapM (fun item => Converted.obj <$> convertSub s "_" item) >>= _) =
          (l.mapM (fun item => Converted.obj <$> convertSub (removeProp s).1 "_" item) >>= _)
        have hmap : l.mapM (fun item => Converted.obj <$> convertSub s "_" item) =
            l.mapM (fun item => Converted.obj <$> convertSub (removeProp s).1 "_" item) := by
          apply mapM_congr
          intro y hy
          rw [hitems s rfl y "_" (hitem hkept l hl y hy)]
        rw [hmap]
      · have hremove : ¬(removeProp s).2 = true := hkept
        obtain ⟨hbare, l, rfl, hl⟩ := hdropped (Bool.eq_false_iff.mpr hkept)
        have hmap : l.mapM (fun item => Converted.obj <$> convertSub s "_" item) = .ok l := by
          apply mapM_same
          intro y hy
          rw [convertSub_dropped s (Bool.eq_false_iff.mpr hkept) y "_" (hl y hy)]
          rfl
        rw [removeItems, if_neg hremove]
        change (l.mapM (fun item => Converted.obj <$> convertSub s "_" item) >>= _) = _
        rw [hmap]
        exact (convertLevels_bare hbare key (.list l)).symm

/-! ### Conforming objects -/

mutual

/-- No array of the value has an annotation that its items lack, and what is renamed to a property
that the loop comes to later is a leaf with the shape of that property. -/
def Plainly : Schema → Value → Prop
  | .node properties (some s) oldName removeLevel oldProperty others, x => x = .none ∨
    (PlainlyProperties properties x ∧ (∀ l, x = .list l → ∀ y ∈ l, Plainly s y) ∧
      (s.kept = false →
        (Schema.node properties none oldName removeLevel oldProperty others).Bare))
  | .node properties none _ _ _ _, x => x = .none ∨ PlainlyProperties properties x

def PlainlyProperties : List (String × Schema) → Value → Prop
  | [], _ => True
  | (k, s) :: rest, x =>
    if isOld k then PlainlyProperties rest x
    else k ∉ rest.map Prod.fst ∧ ∀ d, x = .dict d → ∀ v, (d.lookup k).getD .none = v →
      Plainly s v ∧
      if s.rename k = k ∨ v = .none ∨ s.rename k ∉ rest.map Prod.fst then
        PlainlyProperties rest x
      else
        s.isLeaf = true ∧
        FitsProperties rest (.dict (putBackFields k v ⟨s.rename k, v, v⟩ d)) ∧
        PlainlyProperties rest (.dict (putBackFields k v ⟨s.rename k, v, v⟩ d))

end

/-- The loop only looks at its properties. -/
theorem fitsProperties_congr {properties : List (String × Schema)} {d d' : List (String × Value)}
    (h : ∀ f ∈ properties, d'.lookup f.1 = d.lookup f.1)
    (hfits : FitsProperties properties (.dict d)) : FitsProperties properties (.dict d') := by
  induction properties with
  | nil => rw [FitsProperties]; trivial
  | cons f rest ih =>
    obtain ⟨k, s⟩ := f
    obtain ⟨hk, hrest⟩ := List.forall_mem_cons.mp h
    rw [FitsProperties] at hfits ⊢
    refine ⟨?_, ih hrest hfits.2⟩
    rcases hfits.1 with hold | ⟨d₀, heq, hs⟩
    · exact .inl hold
    · cases heq
      exact .inr ⟨d', rfl, by rw [hk]; exact hs⟩

theorem putBackFields_congr {k m : String} {v : Value} {c : Converted}
    {d d' : List (String × Value)} (h : d'.lookup m = d.lookup m) :
    (putBackFields k v c d').lookup m = (putBackFields k v c d).lookup m := by
  have hset : ∀ {d d' : List (String × Value)} (k : String) (w : Value),
      d'.lookup m = d.lookup m → (Dict.set k w d').lookup m = (Dict.set k w d).lookup m := by
    intro d d' k w h
    by_cases hm : m = k
    · subst hm
      rw [Dict.lookup_set_self, Dict.lookup_set_self]
    · rw [Dict.lookup_set_ne hm, Dict.lookup_set_ne hm, h]
  have hdel : ∀ {d d' : List (String × Value)} (k : String),
      d'.lookup m = d.lookup m → (Dict.del k d').lookup m = (Dict.del k d).lookup m := by
    intro d d' k h
    by_cases hm : m = k
    · subst hm
      rw [Dict.lookup_del_self, Dict.lookup_del_self]
    · rw [Dict.lookup_del_ne hm, Dict.lookup_del_ne hm, h]
  unfold putBackFields
  dsimp only
  split
  · apply hdel
    split <;> split <;> first | exact h | exact hset _ _ h | exact hset _ _ (hset _ _ h)
  · split <;> split <;> first | exact h | exact hset _ _ h | exact hset _ _ (hset _ _ h)

theorem plainlyProperties_congr {properties : List (String × Schema)}
    {d d' : List (String × Value)} (h : ∀ f ∈ properties, d'.lookup f.1 = d.lookup f.1)
    (hplain : PlainlyProperties properties (.dict d)) :
    PlainlyProperties properties (.dict d') := by
  induction properties generalizing d d' with
  | nil => rw [PlainlyProperties]; trivial
  | cons f rest ih =>
    obtain ⟨k, s⟩ := f
    obtain ⟨hk, hrest⟩ := List.forall_mem_cons.mp h
    rw [PlainlyProperties] at hplain ⊢
    by_cases hold : isOld k = true
    · rw [if_pos hold] at hplain ⊢
      exact ih hrest hplain
    rw [if_neg hold] at hplain ⊢
    obtain ⟨hnew, hd⟩ := hplain
    refine ⟨hnew, fun d₀ heq v hv => ?_⟩
    cases heq
    rw [hk] at hv
    obtain ⟨hs, hlands⟩ := hd d rfl v hv
    refine ⟨hs, ?_⟩
    split at hlands
    · rename_i hstays
      rw [if_pos hstays]
      exact ih hrest hlands
    · rename_i hmoves
      obtain ⟨hleaf, hfits, hplain⟩ := hlands
      have hmoved := fun f hf => @putBackFields_congr k f.1 v ⟨s.rename k, v, v⟩ d d' (hrest f hf)
      rw [if_neg hmoves]
      exact ⟨hleaf, fitsProperties_congr hmoved hfits, ih hmoved hplain⟩

theorem clearProperties_of_plainly {properties : List (String × Schema)}
    (ih : ∀ f ∈ properties, ∀ v, Fits f.2 v → Plainly f.2 v → Clear f.2 v) {x : Value}
    (hfits : FitsProperties properties x) (hplain : PlainlyProperties properties x) :
    ClearProperties properties x := by
  induction properties generalizing x with
  | nil => rw [ClearProperties]; trivial
  | cons f rest ihrest =>
    obtain ⟨k, s⟩ := f
    obtain ⟨hs, hrest⟩ := List.forall_mem_cons.mp ih
    rw [FitsProperties] at hfits
    rw [PlainlyProperties] at hplain
    rw [ClearProperties]
    by_cases hold : isOld k = true
    · rw [if_pos hold] at hplain ⊢
      exact ihrest hrest hfits.2 hplain
    rw [if_neg hold] at hplain ⊢
    obtain ⟨d, rfl, hfit⟩ := hfits.1.resolve_left hold
    obtain ⟨hnew, hd⟩ := hplain
    split
    · intro v hv
      rw [Value.get, Except.ok.injEq] at hv
      obtain ⟨hplainv, hlands⟩ := hd d rfl v hv
      rw [hv] at hfit
      refine ⟨hs v hfit hplainv, fun c hc x' hx' => ?_⟩
      rw [putBack_dict, Except.ok.injEq] at hx'
      subst hx'
      split at hlands
      · rename_i hstays
        -- the value lands on no property that is still to come
        have hother : ∀ f ∈ rest, f.1 ≠ k ∧ f.1 ≠ c.key := by
          intro f hf
          have hmem : f.1 ∈ rest.map Prod.fst := List.mem_map_of_mem hf
          have hk : f.1 ≠ k := fun heq => hnew (heq ▸ hmem)
          refine ⟨hk, fun heq => ?_⟩
          have hkey := convertSub_key hc
          split at hkey
          · exact hk (heq.trans hkey)
          · rename_i hpresent
            rcases hstays with hsame | hmissing | hlands
            · exact hk (heq.trans (hkey.trans hsame))
            · exact hpresent (.inl hmissing)
            · rw [hkey] at heq
              exact hlands (heq ▸ hmem)
        have hlookup : ∀ f ∈ rest, (putBackFields k v c d).lookup f.1 = d.lookup f.1 :=
          fun f hf => lookup_putBackFields (hother f hf).1 (hother f hf).2
        exact ihrest hrest (fitsProperties_congr hlookup hfits.2)
          (plainlyProperties_congr hlookup hlands)
      · rename_i hmoves
        obtain ⟨hleaf, hfits', hplain'⟩ := hlands
        have hv' : v ≠ .none := fun hnone => hmoves (.inr (.inl hnone))
        rw [convertSub_leaf hleaf hv', Except.ok.injEq] at hc
        subst hc
        exact ihrest hrest hfits' hplain'
    · rename_i hkept
      obtain ⟨-, hlands⟩ := hd d rfl _ rfl
      have hsame : s.rename k = k := by
        obtain ⟨_, _, oldName, _, _, _⟩ := s
        obtain ⟨-, -, rfl, -, -⟩ := not_kept (Bool.eq_false_iff.mpr hkept)
        rfl
      rw [if_pos (.inl hsame)] at hlands
      refine ⟨fun v hv => ?_, .inl ⟨d, rfl⟩, ihrest hrest hfits.2 hlands⟩
      rw [Value.get, Except.ok.injEq] at hv
      rw [hv] at hfit
      exact hfit

theorem convertProperties_list {properties : List (String × Schema)} {l : List Value}
    (h : FitsProperties properties (.list l)) :
    convertProperties properties (.list l) = .ok (.list l) := by
  induction properties with
  | nil => rw [convertProperties]
  | cons f rest ih =>
    obtain ⟨k, s⟩ := f
    rw [FitsProperties] at h
    rcases h.1 with hold | ⟨d, heq, -⟩
    · rw [convertProperties, if_pos hold]
      exact ih h.2
    · cases heq

theorem clear_of_plainly (s : Schema) : ∀ x, Fits s x → Plainly s x → Clear s x := by
  induction s using Schema.all with
  | h properties items oldName removeLevel oldProperty others hproperties hitems =>
    intro x hfits hplain
    cases items with
    | none =>
      rw [Fits] at hfits
      rw [Plainly] at hplain
      rw [Clear]
      by_cases hx : x = .none
      · exact .inl hx
      · exact .inr (clearProperties_of_plainly hproperties (hfits.resolve_left hx)
          (hplain.resolve_left hx))
    | some s =>
      rw [Fits] at hfits
      rw [Plainly] at hplain
      rw [Clear]
      by_cases hx : x = .none
      · exact .inl hx
      right
      obtain ⟨hprops, l, rfl, hl⟩ := hfits.resolve_left hx
      obtain ⟨hplainprops, hplainl, hbare⟩ := hplain.resolve_left hx
      refine ⟨clearProperties_of_plainly hproperties hprops hplainprops, fun x' hx' => ?_⟩
      rw [convertProperties_list hprops, Except.ok.injEq] at hx'
      subst hx'
      refine ⟨fun _ l' hl' y hy => ?_, fun hkept => ⟨hbare hkept, l, rfl, hl⟩⟩
      cases hl'
      exact hitems s rfl y (hl y hy) (hplainl l rfl y hy)

/-- The full and the pruned schema treat an array whose items carry nothing alike if and only if
the array keeps its name. -/
theorem array_pruned_iff {s : Schema} {oldName oldProperty : Option String}
    {removeLevel : Option Bool} {others : Bool} (hkept : s.kept = false)
    (hlevel : (Schema.node [] none oldName removeLevel oldProperty others).removesLevel = false)
    (hproperty : (Schema.node [] none oldName removeLevel oldProperty others).levelProperty = none)
    {l : List Value} (hl : ∀ y ∈ l, Fits s y) (key : String) :
    let array := Schema.node [] (some s) oldName removeLevel oldProperty others
    convertSub array key (.list l) = convertSub (removeProp array).1 key (.list l) ↔
      array.rename key = key := by
  intro array
  have hfull : convertSub array key (.list l) = .ok ⟨key, .list l, .list l⟩ := by
    have hmap : l.mapM (fun item => Converted.obj <$> convertSub s "_" item) = .ok l := by
      apply mapM_same
      intro y hy
      rw [convertSub_dropped s hkept y "_" (hl y hy)]
      rfl
    rw [convertSub, if_neg (by intro h; cases h), convertProperties]
    change (l.mapM (fun item => Converted.obj <$> convertSub s "_" item) >>= _) = _
    rw [hmap]
    rfl
  have hpruned : convertSub (removeProp array).1 key (.list l) =
      .ok ⟨array.rename key, .list l, .list l⟩ := by
    have hremove : ¬(removeProp s).2 = true := Bool.eq_false_iff.mp hkept
    rw [removeProp, removeProps, removeItems, if_neg hremove, convertSub,
      if_neg (by intro h; cases h), convertProperties]
    change (takeLevel _ (.list l) >>= _) = _
    unfold takeLevel
    rw [hlevel]
    change (nameLevel _ (.list l) >>= _) = _
    rw [hproperty]
    rfl
  rw [hfull, hpruned, Except.ok.injEq, Converted.mk.injEq]
  exact ⟨fun h => h.1.symm, fun h => ⟨h.symm, rfl, rfl⟩⟩

/-- The pruned schema converts an object of the schema's shape like the full one, if the arrays in
it that have annotations have annotated items, and what is renamed to a later property is a leaf
that has this property's shape. -/
theorem convertSub_removeProp {s : Schema} {x : Value} (hfits : Fits s x) (hplain : Plainly s x)
    (key : String) : convertSub s key x = convertSub (removeProp s).1 key x :=
  convertSub_clear s x key (clear_of_plainly s x hfits hplain)

def tagsSchema (newName : Option String) : Schema :=
  .node [("tags", .node [] (some (.node [] none none none none false)) newName none none false),
    ("ref", .node [] none (some "to") none none false)] none none none none false

/-- An array without annotations is left alone, and a renamed string is moved. -/
theorem convertSub_removeProp_ref :
    convertSub (tagsSchema none) "spec" (.dict [("tags", .list [.str "a"]), ("ref", .str "r")]) =
      convertSub (removeProp (tagsSchema none)).1 "spec"
        (.dict [("tags", .list [.str "a"]), ("ref", .str "r")]) := by
  apply convertSub_removeProp
  · refine .inr ⟨.inr ⟨_, rfl, ?_⟩, .inr ⟨_, rfl, .inr trivial⟩, trivial⟩
    exact .inr ⟨trivial, [.str "a"], rfl, fun y _ => .inr trivial⟩
  · refine .inr ⟨by decide, fun d hd v hv => ?_⟩
    cases hd
    cases hv
    refine ⟨.inr ⟨trivial, fun l _ y _ => .inr trivial, fun _ => ⟨rfl, rfl, rfl⟩⟩, ?_⟩
    refine ⟨List.not_mem_nil, fun d hd v hv => ?_⟩
    cases hd
    cases hv
    exact ⟨.inr trivial, trivial⟩

/-- An array that is renamed while its items carry nothing: the full schema returns before the
renaming, and the pruned one has no items to return for. -/
theorem pruned_array_renamed :
    let s := tagsSchema (some "labels")
    let x : Value := .dict [("tags", .list [.str "a"])]
    convertSub s "spec" x = .ok ⟨"spec", x, x⟩ ∧
    convertSub (removeProp s).1 "spec" x = .ok ⟨"spec", .dict [("labels", .list [.str "a"])],
      .dict [("labels", .list [.str "a"])]⟩ := by
  exact ⟨rfl, rfl⟩

end L7mp.Conversion
