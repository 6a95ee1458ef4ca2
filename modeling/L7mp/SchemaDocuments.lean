import L7mp.SchemaPruning
import L7mp.SchemaInlining

/-! `remove_prop` and `convert_sub` on the documents that schemas are, against what they do to what
they look at in them. -/
namespace L7mp.SchemaDocument
open Python Aborting Conversion

mutual

/-- `remove_prop` of a document, with whether it is kept. -/
def removeProp : Value → Value × Bool
  | .list l => (.list (removeElements l), !(removeElements l).isEmpty)
  | .dict items => (.dict (removeEntries items), !(removeEntries items).isEmpty)
  | _ => (.none, false)

def removeElements : List Value → List Value
  | [] => []
  | v :: l =>
    if (removeProp v).2 then (removeProp v).1 :: removeElements l else removeElements l

def removeEntries : List (String × Value) → List (String × Value)
  | [] => []
  | (k, v) :: rest =>
    if isAnnotation k then (k, v) :: removeEntries rest
    else if (removeProp v).2 then (k, (removeProp v).1) :: removeEntries rest
    else removeEntries rest

end

/-- The rest of a schema is pruned where the old form is asked for. -/
def convertSchema (getRef : Value → String → Except Exc (Value × String)) (args : Inlining.Args)
    (n : ℕ) (schema : Value) (baseUrl : String) : Except Exc Value :=
  (Inlining.inlineReferences getRef args n schema baseUrl).map (fun schema =>
    if args.k8s then schema else (removeProp schema).1)

/-- A text that counts as true; a keyword with something else that does is not looked into. -/
def textOf : Value → Except Exc (Option String)
  | .str s => .ok (if s = "" then none else some s)
  | v => if v.truthy then .error .typeError else .ok none

/-- The loop over the properties. -/
def convertEach (convert : Value → String → Value → Except Exc Converted) :
    List (String × Value) → Value → Except Exc Value
  | [], obj => .ok obj
  | (k, s) :: rest, obj =>
    if isOld k then convertEach convert rest obj
    else do
      let v ← obj.get k .none
      let c ← convert s k v
      convertEach convert rest (← putBack k v c obj)

/-- The end of `convert_sub`, for what is no array. -/
def convertEnd (schema : Value) (key : String) (obj : Value) : Except Exc Converted := do
  let name ← textOf (← schema.get "x-l7mp-old-name" .none)
  let level ← schema.get "x-l7mp-old-remove-level" .none
  let inner ← if level.truthy then Prod.snd <$> enter obj else .ok obj
  let property ← textOf (← schema.get "x-l7mp-old-property" .none)
  return ⟨name.getD key, ← nameLevel property inner, obj⟩

/-- What is done for the properties of a schema. -/
def convertDict (convert : Value → String → Value → Except Exc Converted) (schema obj : Value) :
    Except Exc Value := do
  let properties ← schema.get "properties" .none
  if properties.truthy then convertEach convert (← properties.items) obj else .ok obj

/-- What is done after the properties: an array is returned with its elements converted. -/
def convertRest (convert : Value → String → Value → Except Exc Converted) (schema : Value)
    (key : String) (obj : Value) : Except Exc Converted := do
  let items ← schema.get "items" .none
  if items.truthy then
    let l ← (← obj.iter).mapM (fun item => Converted.obj <$> convert items "_" item)
    return ⟨key, .list l, obj⟩
  else convertEnd schema key obj

/-- `convert_sub` with the depth that is left to the recursion. -/
def convertSub : ℕ → Value → String → Value → Except Exc Converted
  | 0, _, _, _ => .error Inlining.recursionError
  | n+1, schema, key, obj =>
    if obj = .none then .ok ⟨key, obj, obj⟩
    else convertDict (convertSub n) schema obj >>= convertRest (convertSub n) schema key

/-! ### What is looked at -/

def keywords : List String :=
  ["properties", "items", "x-l7mp-old-name", "x-l7mp-old-remove-level", "x-l7mp-old-property"]

/-- Something is kept of the other keywords. -/
def others (items : List (String × Value)) : Bool :=
  items.any (fun e => !keywords.contains e.1 && ( isAnnotation e.1 || (removeProp e.2).2))

def readText : Option Value → Option String
  | some (.str s) => some s
  | _ => none

def readLevel : Option Value → Option Bool
  | some (.bool b) => some b
  | _ => none

mutual

/-- What the two functions look at in a document. -/
def read : Value → Schema
  | .dict items => .node (readProperties items) (readItems items)
      (readText (items.lookup "x-l7mp-old-name"))
      (readLevel (items.lookup "x-l7mp-old-remove-level"))
      (readText (items.lookup "x-l7mp-old-property")) (others items)
  | _ => .node [] none none none none false

def readProperties : List (String × Value) → List (String × Schema)
  | [] => []
  | (k, v) :: rest => if k = "properties" then readValues v else readProperties rest

def readValues : Value → List (String × Schema)
  | .dict items => readEach items
  | _ => []

def readEach : List (String × Value) → List (String × Schema)
  | [] => []
  | (k, v) :: rest => (k, read v) :: readEach rest

def readItems : List (String × Value) → Option Schema
  | [] => none
  | (k, v) :: rest =>
    if k = "items" then if v.truthy then some (read v) else none else readItems rest

end

/-- The keywords of a schema have what belongs to them. -/
inductive IsSchema : Value → Prop
  | dict (items : List (String × Value)) (hkeys : (items.map Prod.fst).Nodup)
      (hdict : ∀ v, items.lookup "properties" = some v → ∃ l, v = .dict l)
      (hproperties : ∀ l, items.lookup "properties" = some (.dict l) → ∀ e ∈ l, IsSchema e.2)
      (hitems : ∀ v, items.lookup "items" = some v → IsSchema v)
      (hname : ∀ v, items.lookup "x-l7mp-old-name" = some v → ∃ s, v = .str s)
      (hlevel : ∀ v, items.lookup "x-l7mp-old-remove-level" = some v → ∃ b, v = .bool b)
      (hproperty : ∀ v, items.lookup "x-l7mp-old-property" = some v → ∃ s, v = .str s) :
      IsSchema (.dict items)

theorem readEach_eq (l : List (String × Value)) :
    readEach l = l.map (fun e => (e.1, read e.2)) := by
  induction l with
  | nil => rw [readEach, List.map_nil]
  | cons e l ih =>
    obtain ⟨k, v⟩ := e
    rw [readEach, ih, List.map_cons]

theorem readProperties_eq (items : List (String × Value)) :
    readProperties items = ((items.lookup "properties").map readValues).getD [] := by
  induction items with
  | nil =>
    rw [readProperties]
    rfl
  | cons e items ih =>
    obtain ⟨k, v⟩ := e
    rw [readProperties]
    split_ifs with hk
    · rw [hk, Dict.lookup_cons_self]
      rfl
    · rw [Dict.lookup_cons_ne (Ne.symm hk), ih]

theorem readItems_eq (items : List (String × Value)) :
    readItems items = ((items.lookup "items").filter Value.truthy).map read := by
  induction items with
  | nil =>
    rw [readItems]
    rfl
  | cons e items ih =>
    obtain ⟨k, v⟩ := e
    rw [readItems]
    split_ifs with hk htruthy
    · rw [hk, Dict.lookup_cons_self, Option.filter_some, if_pos htruthy]
      rfl
    · rw [hk, Dict.lookup_cons_self, Option.filter_some, if_neg htruthy]
      rfl
    · rw [Dict.lookup_cons_ne (Ne.symm hk), ih]

/-! ### What is left of a document -/

/-- What is left of a value under a key. -/
def left (k : String) (v : Value) : Option Value :=
  if isAnnotation k then some v else if (removeProp v).2 then some (removeProp v).1 else none

theorem removeEntries_cons (e : String × Value) (items : List (String × Value)) :
    removeEntries (e :: items) =
      ((left e.1 e.2).map (fun v => (e.1, v))).toList ++ removeEntries items := by
  rw [removeEntries]
  unfold left
  split_ifs <;> rfl

theorem removeElements_cons (v : Value) (l : List Value) :
    removeElements (v :: l) =
      (if (removeProp v).2 then [(removeProp v).1] else []) ++ removeElements l := by
  rw [removeElements]
  split_ifs <;> rfl

theorem mem_removeEntries {items : List (String × Value)} {e : String × Value} :
    e ∈ removeEntries items ↔ ∃ v, (e.1, v) ∈ items ∧ left e.1 v = some e.2 := by
  induction items with
  | nil =>
    rw [removeEntries]
    refine ⟨fun h => absurd h List.not_mem_nil, fun h => ?_⟩
    obtain ⟨v, hv, -⟩ := h
    exact absurd hv List.not_mem_nil
  | cons f items ih =>
    rw [removeEntries_cons, List.mem_append, ih, Option.mem_toList, Option.map_eq_some_iff]
    constructor
    · intro h
      rcases h with ⟨v, hv, rfl⟩ | ⟨v, hv, hleft⟩
      · exact ⟨f.2, List.mem_cons_self, hv⟩
      · exact ⟨v, List.mem_cons_of_mem f hv, hleft⟩
    · intro h
      obtain ⟨v, hv, hleft⟩ := h
      rcases List.mem_cons.mp hv with heq | hv
      · subst heq
        exact Or.inl ⟨e.2, hleft, rfl⟩
      · exact Or.inr ⟨v, hv, hleft⟩

/-- Under a key there is what is left of the value that was there. -/
theorem lookup_removeEntries {items : List (String × Value)} (h : (items.map Prod.fst).Nodup)
    (k : String) : (removeEntries items).lookup k = (items.lookup k).bind (left k) := by
  induction items with
  | nil =>
    rw [removeEntries]
    rfl
  | cons e items ih =>
    obtain ⟨k', v⟩ := e
    rw [List.map_cons, List.nodup_cons] at h
    rw [removeEntries_cons]
    by_cases hk : k = k'
    · subst hk
      have hrest : (removeEntries items).lookup k = none := by
        rw [ih h.2, Dict.lookup_eq_none.mpr h.1]
        rfl
      rw [Dict.lookup_cons_self, Option.bind_some]
      cases left k v with
      | none => exact hrest
      | some w => exact Dict.lookup_cons_self k w _
    · rw [Dict.lookup_cons_ne hk, ← ih h.2]
      cases left k' v with
      | none => rfl
      | some w => exact Dict.lookup_cons_ne hk w _

/-- What is left once is left as it is. -/
theorem removeProp_removeProp (v : Value) : removeProp (removeProp v).1 = removeProp v := by
  induction v using Value.all with
  | hlist l ih =>
    have hl : removeElements (removeElements l) = removeElements l := by
      induction l with
      | nil => rw [removeElements, removeElements]
      | cons v l ihl =>
        obtain ⟨hv, hl⟩ := List.forall_mem_cons.mp ih
        rw [removeElements]
        split_ifs with hkept
        · rw [removeElements_cons, hv, if_pos hkept, ihl hl]
          rfl
        · exact ihl hl
    rw [removeProp, removeProp, hl]
  | hdict items ih =>
    have hitems : removeEntries (removeEntries items) = removeEntries items := by
      induction items with
      | nil => rw [removeEntries, removeEntries]
      | cons e items ihl =>
        obtain ⟨he, hrest⟩ := List.forall_mem_cons.mp ih
        obtain ⟨k, v⟩ := e
        rw [removeEntries]
        split_ifs with hold hkept
        · rw [removeEntries, if_pos hold, ihl hrest]
        · rw [removeEntries, if_neg hold, he, if_pos hkept, ihl hrest]
        · exact ihl hrest
    rw [removeProp, removeProp, hitems]
  | _ => rfl

theorem left_old {k : String} (h : isAnnotation k = true) (v : Value) :
    left k v = some v := if_pos h

theorem left_property {k : String} (h : isAnnotation k = false) (v : Value) :
    left k v = if (removeProp v).2 then some (removeProp v).1 else none :=
  if_neg (by rw [h]; decide)

/-- What is left of a schema is one. -/
theorem IsSchema.removeProp {v : Value} (h : IsSchema v) :
    IsSchema (SchemaDocument.removeProp v).1 := by
  induction h with
  | dict items hkeys hdict hproperties _ hname hlevel hproperty ihproperties ihitems =>
    have hlookup := lookup_removeEntries hkeys
    have hold : ∀ {k v}, isAnnotation k = true → (removeEntries items).lookup k = some v →
        items.lookup k = some v := by
      intro k v hk h
      rw [hlookup, Option.bind_eq_some_iff] at h
      obtain ⟨w, hw, hleft⟩ := h
      rw [left_old hk] at hleft
      rw [hw, Option.some.inj hleft]
    have hremoved : ∀ {k v}, isAnnotation k = false → (removeEntries items).lookup k = some v →
        ∃ w, items.lookup k = some w ∧ v = (SchemaDocument.removeProp w).1 := by
      intro k v hk h
      rw [hlookup, Option.bind_eq_some_iff] at h
      obtain ⟨w, hw, hleft⟩ := h
      rw [left_property hk] at hleft
      split_ifs at hleft
      exact ⟨w, hw, (Option.some.inj hleft).symm⟩
    rw [SchemaDocument.removeProp]
    refine .dict _ ?_ (fun v hv => ?_) (fun l hl e he => ?_) (fun v hv => ?_) (fun v hv => ?_)
      (fun v hv => ?_) (fun v hv => ?_)
    · have hsub : ∀ items : List (String × Value),
          ((removeEntries items).map Prod.fst).Sublist (items.map Prod.fst) := by
        intro items
        induction items with
        | nil =>
          rw [removeEntries]
        | cons e items ih =>
          rw [removeEntries_cons, List.map_append, List.map_cons]
          cases left e.1 e.2 with
          | none => exact ih.cons _
          | some w => exact ih.cons_cons _
      exact hkeys.sublist (hsub items)
    · obtain ⟨w, hw, rfl⟩ := hremoved (by decide) hv
      obtain ⟨l, rfl⟩ := hdict w hw
      exact ⟨removeEntries l, by rw [SchemaDocument.removeProp]⟩
    · obtain ⟨w, hw, heq⟩ := hremoved (by decide) hl
      obtain ⟨l', rfl⟩ := hdict w hw
      rw [SchemaDocument.removeProp] at heq
      cases heq
      -- a property is as it was where its name is an annotation's
      obtain ⟨v, hv, hleft⟩ := mem_removeEntries.mp he
      unfold left at hleft
      split_ifs at hleft
      · rw [← Option.some.inj hleft]
        exact hproperties l' hw _ hv
      · rw [← Option.some.inj hleft]
        exact ihproperties l' hw _ hv
    · obtain ⟨w, hw, rfl⟩ := hremoved (by decide) hv
      exact ihitems w hw
    · exact hname v (hold (by decide) hv)
    · exact hlevel v (hold (by decide) hv)
    · exact hproperty v (hold (by decide) hv)

theorem readEach_removeEntries {l : List (String × Value)}
    (h : ∀ e ∈ l, read (removeProp e.2).1 = (Conversion.removeProp (read e.2)).1 ∧
      (removeProp e.2).2 = (Conversion.removeProp (read e.2)).2) :
    readEach (removeEntries l) = removeProps (readEach l) := by
  induction l with
  | nil => rw [removeEntries, readEach, removeProps]
  | cons e l ih =>
    obtain ⟨k, v⟩ := e
    obtain ⟨hv, hl⟩ := List.forall_mem_cons.mp h
    dsimp only at hv
    rw [removeEntries, readEach, removeProps, ← hv.2, ← hv.1]
    split_ifs
    · rw [readEach, ih hl]
    · rw [readEach, ih hl]
    · exact ih hl

theorem others_removeEntries (items : List (String × Value)) :
    others (removeEntries items) = others items := by
  induction items with
  | nil => rw [removeEntries]
  | cons e items ih =>
    obtain ⟨k, v⟩ := e
    unfold others at ih ⊢
    rw [removeEntries]
    split_ifs with hold hkept
    · rw [List.any_cons, List.any_cons, ih]
    · rw [List.any_cons, List.any_cons, ih]
      dsimp only
      rw [removeProp_removeProp]
    · rw [List.any_cons, ih]
      have hfalse : ( isAnnotation k || (removeProp v).2) = false := by
        rw [Bool.or_eq_false_iff]
        exact ⟨Bool.eq_false_iff.mpr hold, Bool.eq_false_iff.mpr hkept⟩
      dsimp only
      rw [hfalse, Bool.and_false, Bool.false_or]

/-- A schema of which everything is left shows that it has something. -/
theorem shown {items : List (String × Value)} (h : IsSchema (.dict items))
    (hleft : ∀ e ∈ items, (left e.1 e.2).isSome = true) : (!items.isEmpty) =
      (!(readProperties items).isEmpty || (readItems items).isSome ||
        (readText (items.lookup "x-l7mp-old-name")).isSome ||
        (readLevel (items.lookup "x-l7mp-old-remove-level")).isSome ||
        (readText (items.lookup "x-l7mp-old-property")).isSome || others items) := by
  cases items with
  | nil =>
    rw [readProperties, readItems]
    rfl
  | cons e items =>
    obtain ⟨k, v⟩ := e
    have hkept : isAnnotation k = false → (removeProp v).2 = true := by
      intro hk
      have hsome := hleft _ List.mem_cons_self
      rw [left_property hk] at hsome
      split_ifs at hsome with hv
      · exact hv
      · cases hsome
    -- a dict of which something is left has something
    have hdictkept : isAnnotation k = false → ∀ l, v = .dict l → l ≠ [] := by
      intro hk l hl hnil
      have hv := hkept hk
      rw [hl, hnil, removeProp, removeEntries] at hv
      cases hv
    have hself : ∀ key, k = key → ((k, v) :: items).lookup key = some v := by
      intro key hkey
      rw [hkey, Dict.lookup_cons_self]
    cases h with
    | dict _ _ hdict _ hitems hname hlevel hproperty =>
      symm
      change _ = true
      simp only [Bool.or_eq_true]
      by_cases hk : k ∈ keywords
      · unfold keywords at hk
        simp only [List.mem_cons, List.not_mem_nil, or_false] at hk
        rcases hk with hk | hk | hk | hk | hk
        · obtain ⟨l, rfl⟩ := hdict v (hself _ hk)
          have hne := hdictkept (by rw [hk]; decide) l rfl
          refine Or.inl (Or.inl (Or.inl (Or.inl (Or.inl ?_))))
          rw [readProperties, if_pos hk, readValues, readEach_eq]
          cases l with
          | nil => exact absurd rfl hne
          | cons f l => rfl
        · have hschema := hitems v (hself _ hk)
          cases hschema with
          | dict l =>
            have hne := hdictkept (by rw [hk]; decide) l rfl
            refine Or.inl (Or.inl (Or.inl (Or.inl (Or.inr ?_))))
            rw [readItems, if_pos hk]
            cases l with
            | nil => exact absurd rfl hne
            | cons f l => rfl
        · obtain ⟨s, rfl⟩ := hname v (hself _ hk)
          refine Or.inl (Or.inl (Or.inl (Or.inr ?_)))
          rw [hself _ hk]
          rfl
        · obtain ⟨b, rfl⟩ := hlevel v (hself _ hk)
          refine Or.inl (Or.inl (Or.inr ?_))
          rw [hself _ hk]
          rfl
        · obtain ⟨s, rfl⟩ := hproperty v (hself _ hk)
          refine Or.inl (Or.inr ?_)
          rw [hself _ hk]
          rfl
      · refine Or.inr ?_
        unfold others
        rw [List.any_cons]
        have hhead : (!keywords.contains k && ( isAnnotation k || (removeProp v).2)) = true := by
          rw [Bool.and_eq_true, Bool.or_eq_true]
          refine ⟨by simpa using hk, ?_⟩
          cases hold : isAnnotation k with
          | true => exact Or.inl rfl
          | false => exact Or.inr (hkept hold)
        dsimp only
        rw [hhead]
        rfl

/-- What is left of a document is read as what is left of the schema that is read. -/
theorem read_removeProp {v : Value} (h : IsSchema v) :
    read (removeProp v).1 = (Conversion.removeProp (read v)).1 ∧
      (removeProp v).2 = (Conversion.removeProp (read v)).2 := by
  induction h with
  | dict items hkeys hdict hvalues hitems hname hlevel hproperty ihvalues ihitems =>
    have hlookup := lookup_removeEntries hkeys
    have hold : ∀ {k}, isAnnotation k = true →
        (removeEntries items).lookup k = items.lookup k := by
      intro k hk
      rw [hlookup]
      cases items.lookup k with
      | none => rfl
      | some v => exact left_old hk v
    have hproperties : readProperties (removeEntries items) =
        removeProps (readProperties items) := by
      rw [readProperties_eq, readProperties_eq, hlookup]
      cases hv : items.lookup "properties" with
      | none =>
        change [] = removeProps []
        rw [removeProps]
      | some v =>
        obtain ⟨l, rfl⟩ := hdict v hv
        have heach := readEach_removeEntries (ihvalues l hv)
        rw [Option.bind_some, left_property (by decide), removeProp]
        change _ = removeProps (readValues (.dict l))
        rw [readValues, ← heach]
        cases removeEntries l with
        | nil =>
          rw [readEach]
          rfl
        | cons e l' =>
          change readValues (.dict (e :: l')) = _
          rw [readValues]
    have harray : readItems (removeEntries items) = Conversion.removeItems (readItems items) := by
      rw [readItems_eq, readItems_eq, hlookup]
      cases hv : items.lookup "items" with
      | none =>
        change none = Conversion.removeItems none
        rw [Conversion.removeItems]
      | some v =>
        obtain ⟨hread, hkept⟩ := ihitems v hv
        have hschema := hitems v hv
        cases hschema with
        | dict l =>
          rw [Option.bind_some, left_property (by decide), Option.filter_some]
          cases l with
          | nil =>
            rw [removeProp, removeEntries]
            change none = Conversion.removeItems none
            rw [Conversion.removeItems]
          | cons e l =>
            change _ = Conversion.removeItems (some (read (.dict (e :: l))))
            rw [Conversion.removeItems, ← hkept, ← hread]
            split_ifs with hdrop
            · rw [Option.filter_some, if_pos]
              · rfl
              · rw [removeProp] at hdrop ⊢
                exact hdrop
            · rfl
    have hleft : ∀ e ∈ removeEntries items, (left e.1 e.2).isSome = true := by
      intro e he
      obtain ⟨v, -, hv⟩ := mem_removeEntries.mp he
      by_cases hk : isAnnotation e.1 = true
      · rw [left_old hk]
        rfl
      · have hfalse := Bool.eq_false_iff.mpr hk
        rw [left_property hfalse] at hv ⊢
        split_ifs at hv with hkept
        rw [← Option.some.inj hv, removeProp_removeProp, if_pos hkept]
        rfl
    have hschema := IsSchema.dict items hkeys hdict hvalues hitems hname hlevel hproperty
    have hremoved := hschema.removeProp
    rw [removeProp] at hremoved ⊢
    have hshown := shown hremoved hleft
    rw [hproperties, harray, hold (by decide), hold (by decide),
      hold (by decide), others_removeEntries] at hshown
    rw [read, read, Conversion.removeProp, hproperties, harray, hold (by decide),
      hold (by decide), hold (by decide), others_removeEntries]
    exact ⟨rfl, hshown⟩

/-! ### Conversion under a document -/

theorem convertEach_eq {convert : Value → String → Value → Except Exc Converted}
    {l : List (String × Value)}
    (h : ∀ e ∈ l, ∀ key obj, convert e.2 key obj = Conversion.convertSub (read e.2) key obj)
    (obj : Value) : convertEach convert l obj = convertProperties (readEach l) obj := by
  induction l generalizing obj with
  | nil => rw [convertEach, readEach, convertProperties]
  | cons e l ih =>
    obtain ⟨k, v⟩ := e
    obtain ⟨hv, hl⟩ := List.forall_mem_cons.mp h
    rw [convertEach, readEach, convertProperties]
    split_ifs
    · exact ih hl obj
    · dsimp only at hv
      simp only [hv, ih hl]

theorem textOf_read {v : Option Value} (h : ∀ w, v = some w → ∃ s, w = .str s) :
    textOf (v.getD .none) = .ok ((readText v).filter (· ≠ "")) := by
  cases v with
  | none => rfl
  | some w =>
    obtain ⟨s, rfl⟩ := h w rfl
    unfold textOf readText
    dsimp only [Option.getD_some]
    rw [Option.filter_some]
    by_cases hs : s = ""
    · rw [if_pos hs, if_neg (by simpa using hs)]
    · rw [if_neg hs, if_pos (by simpa using hs)]

theorem truthy_readLevel {v : Option Value} (h : ∀ w, v = some w → ∃ b, w = .bool b) :
    (v.getD .none).truthy = decide (readLevel v = some true) := by
  cases v with
  | none => rfl
  | some w =>
    obtain ⟨b, rfl⟩ := h w rfl
    cases b <;> rfl

theorem convertEnd_eq {items : List (String × Value)} (h : IsSchema (.dict items))
    (properties : List (String × Schema)) (o : Bool) (key : String) (obj : Value) :
    convertEnd (.dict items) key obj =
      convertLevels (.node properties none (readText (items.lookup "x-l7mp-old-name"))
        (readLevel (items.lookup "x-l7mp-old-remove-level"))
        (readText (items.lookup "x-l7mp-old-property")) o) key obj := by
  cases h with
  | dict _ _ _ _ _ hname hlevel hproperty =>
    unfold convertEnd convertLevels takeLevel
    simp only [Value.get, bind, Except.bind]
    rw [textOf_read hname, textOf_read hproperty, truthy_readLevel hlevel]
    generalize readLevel (items.lookup "x-l7mp-old-remove-level") = level
    rcases level with _ | _ | _
    · rfl
    · rfl
    · cases enter obj <;> rfl

/-- With enough depth, a document converts what the schema that is read from it converts. -/
theorem convertSub_read {schema : Value} (h : IsSchema schema) : ∃ n, ∀ m, n ≤ m →
    ∀ key obj, convertSub m schema key obj = Conversion.convertSub (read schema) key obj := by
  induction h with
  | dict items hkeys hdict hvalues hitems hname hlevel hproperty ihvalues ihitems =>
    have hschema := IsSchema.dict items hkeys hdict hvalues hitems hname hlevel hproperty
    -- one depth for all properties, and one for the items
    obtain ⟨n₁, h₁⟩ : ∃ n, ∀ m, n ≤ m → ∀ l, items.lookup "properties" = some (.dict l) →
        ∀ e ∈ l, ∀ key obj,
          convertSub m e.2 key obj = Conversion.convertSub (read e.2) key obj := by
      cases hv : items.lookup "properties" with
      | none => exact ⟨0, fun m _ l hl => (by cases hl)⟩
      | some v =>
        obtain ⟨l, rfl⟩ := hdict v hv
        obtain ⟨n, hn⟩ := Inlining.exists_bound (ihvalues l hv)
        refine ⟨n, fun m hm l' hl' => ?_⟩
        cases hl'
        exact hn m hm
    obtain ⟨n₂, h₂⟩ : ∃ n, ∀ m, n ≤ m → ∀ v, items.lookup "items" = some v →
        ∀ key obj, convertSub m v key obj = Conversion.convertSub (read v) key obj := by
      cases hv : items.lookup "items" with
      | none => exact ⟨0, fun m _ v hv => (by cases hv)⟩
      | some v =>
        obtain ⟨n, hn⟩ := ihitems v hv
        refine ⟨n, fun m hm v' hv' => ?_⟩
        cases hv'
        exact hn m hm
    refine ⟨n₁ + n₂ + 1, fun m hm key obj => ?_⟩
    obtain ⟨m, rfl⟩ : ∃ k, m = k + 1 := ⟨m - 1, by omega⟩
    have hn₁ := h₁ m (by omega)
    have hn₂ := h₂ m (by omega)
    rw [read, Conversion.convertSub, convertSub]
    by_cases hobj : obj = .none
    · rw [if_pos hobj, if_pos hobj]
    rw [if_neg hobj, if_neg hobj]
    have hloop : convertDict (convertSub m) (.dict items) obj =
        convertProperties (readProperties items) obj := by
      unfold convertDict
      dsimp only [Value.get, bind, Except.bind]
      rw [readProperties_eq]
      cases hv : items.lookup "properties" with
      | none =>
        change _ = convertProperties [] obj
        rw [convertProperties]
        rfl
      | some v =>
        obtain ⟨l, rfl⟩ := hdict v hv
        change _ = convertProperties (readValues (.dict l)) obj
        rw [readValues, ← convertEach_eq (hn₁ l hv)]
        cases l with
        | nil => rfl
        | cons e l => rfl
    rw [hloop]
    refine congrArg (convertProperties (readProperties items) obj >>= ·) (funext fun obj' => ?_)
    unfold convertRest
    dsimp only [Value.get, bind, Except.bind]
    rw [readItems_eq]
    cases hv : items.lookup "items" with
    | none => exact convertEnd_eq hschema _ _ key obj'
    | some v =>
      dsimp only [Option.getD_some]
      rw [Option.filter_some]
      split_ifs with htruthy
      · simp only [hn₂ v hv]
        rfl
      · exact convertEnd_eq hschema _ _ key obj'

/-- A document and what is left of it are treated like the schemas that are read from them: from
some depth on, `convert_sub` gives the same under both. -/
theorem documents_refine (schema : Value) (h : IsSchema schema) : ∃ n, ∀ m, n ≤ m → ∀ key obj,
    convertSub m schema key obj = Conversion.convertSub (read schema) key obj ∧
    convertSub m (removeProp schema).1 key obj =
      Conversion.convertSub (Conversion.removeProp (read schema)).1 key obj := by
  obtain ⟨n₁, h₁⟩ := convertSub_read h
  obtain ⟨n₂, h₂⟩ := convertSub_read h.removeProp
  refine ⟨n₁ + n₂, fun m hm key obj => ⟨h₁ m (by omega) key obj, ?_⟩⟩
  rw [h₂ m (by omega) key obj, (read_removeProp h).1]

/-- An object whose items are renamed. -/
def rulesDocument : Value :=
  .dict [("description", .str "A list of rules"),
    ("properties", .dict [("rules", .dict [("items", .dict [("x-l7mp-old-name", .str "rule")]),
      ("x-l7mp-old-name", .str "rulelist")])])]

theorem documents_refine_rules : ∃ n, ∀ m, n ≤ m → ∀ key obj,
    convertSub m rulesDocument key obj = Conversion.convertSub (read rulesDocument) key obj ∧
    convertSub m (removeProp rulesDocument).1 key obj =
      Conversion.convertSub (Conversion.removeProp (read rulesDocument)).1 key obj := by
  refine documents_refine rulesDocument (.dict _ (by decide) (fun v hv => ?_) (fun l hl e he => ?_)
    (fun v hv => by cases hv) (fun v hv => by cases hv) (fun v hv => by cases hv)
    (fun v hv => by cases hv))
  · cases hv
    exact ⟨_, rfl⟩
  · cases hl
    rw [List.mem_singleton.mp he]
    refine .dict _ (by decide) (fun v hv => by cases hv) (fun l hl => by cases hl)
      (fun v hv => ?_) (fun v hv => ?_) (fun v hv => by cases hv) (fun v hv => by cases hv)
    · cases hv
      refine .dict _ (by decide) (fun v hv => by cases hv) (fun l hl => by cases hl)
        (fun v hv => by cases hv) (fun v hv => ?_) (fun v hv => by cases hv)
        (fun v hv => by cases hv)
      cases hv
      exact ⟨"rule", rfl⟩
    · cases hv
      exact ⟨"rulelist", rfl⟩

/-! ### Annotations -/

/-- The value at a path of keys. -/
def at? : Value → List String → Option Value
  | v, [] => some v
  | .dict items, k :: ks => (items.lookup k).bind (fun v => at? v ks)
  | _, _ :: _ => none

theorem kept_of_at {v w : Value} {k : String} {ks : List String}
    (h : at? (removeProp v).1 (k :: ks) = some w) : (removeProp v).2 = true := by
  cases v with
  | dict items =>
    rw [removeProp] at h ⊢
    cases hitems : removeEntries items with
    | nil =>
      rw [hitems] at h
      cases h
    | cons e l => rfl
  | _ => cases h

/-- What is left has the annotations of the document, each in its place. -/
theorem at_removeProp {v : Value} (h : Inlining.WellKeyed v) {ks : List String} {k : String}
    (hks : ∀ m ∈ ks, isAnnotation m = false) (hk : isAnnotation k = true) :
    at? (removeProp v).1 (ks ++ [k]) = at? v (ks ++ [k]) := by
  induction ks generalizing v with
  | nil =>
    cases h with
    | dict items hkeys _ =>
      change ((removeEntries items).lookup k).bind (fun v => at? v []) =
        (items.lookup k).bind (fun v => at? v [])
      rw [lookup_removeEntries hkeys]
      cases items.lookup k with
      | none => rfl
      | some w => rw [Option.bind_some, left_old hk]
    | _ => rfl
  | cons m ks ih =>
    obtain ⟨hm, hks⟩ := List.forall_mem_cons.mp hks
    cases h with
    | dict items hkeys hvalues =>
      change ((removeEntries items).lookup m).bind (fun v => at? v (ks ++ [k])) =
        (items.lookup m).bind (fun v => at? v (ks ++ [k]))
      rw [lookup_removeEntries hkeys]
      cases hw : items.lookup m with
      | none => rfl
      | some w =>
        have hlower := ih (hvalues _ (Dict.mem_of_lookup hw)) hks
        rw [Option.bind_some, left_property hm, Option.bind_some]
        split_ifs with hkept
        · exact hlower
        · -- what is dropped has no annotation
          rw [← hlower]
          cases hat : at? (removeProp w).1 (ks ++ [k]) with
          | none => rfl
          | some u =>
            obtain ⟨m', ks', hpath⟩ : ∃ m' ks', ks ++ [k] = m' :: ks' := by
              cases ks with
              | nil => exact ⟨k, [], rfl⟩
              | cons m' ks => exact ⟨m', ks ++ [k], rfl⟩
            rw [hpath] at hat
            exact absurd (kept_of_at hat) hkept
    | _ => rfl

/-- What the operator converts with: the schema with its references inlined, of which the
annotations are left and what leads to them, and nothing is left to prune. -/
theorem convertSchema_old (getRef : Value → String → Except Exc (Value × String))
    (args : Inlining.Args) (hold : args.k8s = false) (hloads : Inlining.Loads getRef) (n : ℕ)
    (schema : Value) (hschema : Inlining.WellKeyed schema) (baseUrl : String) (p : Value)
    (h : convertSchema getRef args n schema baseUrl = .ok p) :
    ∃ full, Inlining.inlineReferences getRef args n schema baseUrl = .ok full ∧
      Inlining.Plain args full ∧ (removeProp p).1 = p ∧
      ∀ (ks : List String) (k : String), (∀ m ∈ ks, isAnnotation m = false) →
        isAnnotation k = true → at? p (ks ++ [k]) = at? full (ks ++ [k]) := by
  unfold convertSchema at h
  cases hfull : Inlining.inlineReferences getRef args n schema baseUrl with
  | error e =>
    rw [hfull] at h
    cases h
  | ok full =>
    rw [hfull] at h
    have hp := Except.ok.inj h
    dsimp only at hp
    rw [hold] at hp
    have hpruned : (removeProp full).1 = p := hp
    have hplain := (Inlining.plain_inlineReferences hloads n schema baseUrl full hschema hfull).1
    refine ⟨full, rfl, hplain, ?_, fun ks k hks hk => ?_⟩
    · rw [← hpruned, removeProp_removeProp]
    · rw [← hpruned]
      exact at_removeProp hplain.wellKeyed hks hk

def oldRule : Value :=
  .dict [("properties", .dict [("name", .dict [("x-l7mp-old-name", .str "id")])])]

theorem convertSchema_old_rule :
    ∃ full, Inlining.inlineReferences Inlining.nameRef ⟨false, false⟩ 5 Inlining.ruleSchema
        "rule.yml#/" = .ok full ∧
      Inlining.Plain ⟨false, false⟩ full ∧ (removeProp oldRule).1 = oldRule ∧
      ∀ (ks : List String) (k : String), (∀ m ∈ ks, isAnnotation m = false) →
        isAnnotation k = true → at? oldRule (ks ++ [k]) = at? full (ks ++ [k]) :=
  convertSchema_old Inlining.nameRef ⟨false, false⟩ rfl Inlining.loads_nameRef 5
    Inlining.ruleSchema Inlining.wellKeyed_ruleSchema "rule.yml#/" oldRule rfl

end L7mp.SchemaDocument
