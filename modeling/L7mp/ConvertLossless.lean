import L7mp.ConvertSub

/-! What a conversion schema prescribes for an object, and when `convert_sub` returns it. -/
namespace L7mp.Conversion
open Python

/-- The only value of a level that is removed. -/
def single : List (String × Value) → Option Value
  | [(_, v)] => some v
  | _ => none

/-- A level with one object in it gives way to the object, which gets the level's key as a
property unless it has that property already. -/
def named (p : String) : Value → Option Value
  | .dict [(k, .dict d)] => some (.dict (if (d.lookup p).isSome then d else d ++ [(p, .str k)]))
  | _ => none

/-- What is left of the fields of an object after its own level is removed. -/
def expectInner (s : Schema) (fields : List (String × Value)) : Option Value :=
  if s.removesLevel then single fields else some (.dict fields)

def expectLevels (s : Schema) (fields : List (String × Value)) : Option Value :=
  match s.levelProperty with
  | none => expectInner s fields
  | some p => (expectInner s fields).bind (named p)

mutual

/-- The value that a schema prescribes: every leaf is at the path that the renames and the removed
levels lead to, arrays keep their order, and a removed level may leave its name. There is none for
a value that does not conform to the schema, or where two properties would get one name. -/
def expect : Schema → Value → Option Value
  | .node properties (some s) _ removeLevel oldProperty others, x =>
    match x with
    | .list l =>
      if (Schema.node properties none none removeLevel oldProperty others).isLeaf then
        (l.mapM (expect s)).map .list
      else none
    | _ => none
  | .node properties none oldName removeLevel oldProperty others, x =>
    if (Schema.node properties none oldName removeLevel oldProperty others).isLeaf then some x
    else match x with
    | .dict d => do
      let fields ← d.mapM (fun e => expectEntry properties e.1 e.2)
      if (properties.map Prod.fst).Nodup ∧ (d.map Prod.fst).Nodup ∧
          (fields.map Prod.fst).Nodup then
        expectLevels (.node properties none oldName removeLevel oldProperty others) fields
      else none
    | _ => none

/-- The name and the value of a property; a property that the schema does not have is kept. -/
def expectEntry : List (String × Schema) → String → Value → Option (String × Value)
  | [], k, x => some (k, x)
  | (k', s) :: rest, k, x =>
    if k' = k ∧ isOld k' = false then (expect s x).map (fun e => (s.rename k, e))
    else expectEntry rest k x

end

/-- The conversion puts the value where it belongs. `anyKey` says that the level around it is
removed, so that its key does not matter. Arrays are not renamed, and what counts as false is lost
when it is renamed and keeps its own level when that should be removed. -/
def Placed (anyKey : Bool) (s : Schema) (k : String) (x e : Value) : Prop :=
  if e.truthy then anyKey = true ∨ s.rename k = k ∨ s.items = none
  else s.removesLevel = false ∧
    (s.rename k = k ∨ (anyKey = true ∧ (s.items.isSome = true ∨ x = .none)))

/-- Another property that a value is renamed to does nothing to it when the loop comes there. -/
def Idle (properties : List (String × Schema)) (k : String) : Prop :=
  ∀ s, properties.lookup k = some s →
    isOld k = true ∨ s.isLeaf = true ∧ s.newName = none

/-- A removed level does not leave its name in place of a property with another value. -/
def Apart (s : Schema) (properties : List (String × Schema)) (d : List (String × Value)) : Prop :=
  ∀ p, s.levelProperty = some p → ∀ fields, d.mapM (fun e => expectEntry properties e.1 e.2) =
    some fields → ∀ k inner, expectInner s fields = some (.dict [(k, .dict inner)]) →
      ∀ v, inner.lookup p = some v → v = .str k

mutual

/-- Every value is put where it belongs, at every level. -/
def Safe : Schema → Value → Prop
  | .node _ (some s) _ _ _ _, x => ∀ l, x = .list l → ∀ y ∈ l, Safe s y
  | .node properties none oldName removeLevel oldProperty others, x => ∀ d, x = .dict d →
    (∀ e ∈ d, SafeEntry properties
      (Schema.node properties none oldName removeLevel oldProperty others).removesLevel e.1 e.2) ∧
    Apart (.node properties none oldName removeLevel oldProperty others) properties d

def SafeEntry : List (String × Schema) → Bool → String → Value → Prop
  | [], _, _, _ => True
  | (k', s) :: rest, anyKey, k, x =>
    if k' = k ∧ isOld k' = false then
      Safe s x ∧ (∀ e, expect s x = some e → Placed anyKey s k x e) ∧
        (s.rename k = k ∨ Idle rest (s.rename k))
    else SafeEntry rest anyKey k x

end

/-! ### Entries -/

section Entries

variable {k : String} {s : Schema} {rest : List (String × Schema)}

theorem expectEntry_self (hold : isOld k = false) (x : Value) :
    expectEntry ((k, s) :: rest) k x = (expect s x).map (fun e => (s.rename k, e)) := by
  rw [expectEntry, if_pos ⟨rfl, hold⟩]

theorem expectEntry_old (hold : isOld k = true) (m : String) (x : Value) :
    expectEntry ((k, s) :: rest) m x = expectEntry rest m x := by
  have hne : ¬(k = m ∧ isOld k = false) := by
    rintro ⟨-, hnew⟩
    rw [hold] at hnew
    cases hnew
  rw [expectEntry, if_neg hne]

theorem expectEntry_ne {m : String} (hne : m ≠ k) (x : Value) :
    expectEntry ((k, s) :: rest) m x = expectEntry rest m x := by
  rw [expectEntry, if_neg (fun h => hne h.1.symm)]

theorem safeEntry_self {anyKey : Bool} (hold : isOld k = false) {x : Value} :
    SafeEntry ((k, s) :: rest) anyKey k x ↔ Safe s x ∧
      (∀ e, expect s x = some e → Placed anyKey s k x e) ∧
      (s.rename k = k ∨ Idle rest (s.rename k)) := by
  rw [SafeEntry, if_pos ⟨rfl, hold⟩]

theorem safeEntry_old {anyKey : Bool} (hold : isOld k = true) {m : String} {x : Value} :
    SafeEntry ((k, s) :: rest) anyKey m x ↔ SafeEntry rest anyKey m x := by
  have hne : ¬(k = m ∧ isOld k = false) := by
    rintro ⟨-, hnew⟩
    rw [hold] at hnew
    cases hnew
  rw [SafeEntry, if_neg hne]

theorem safeEntry_ne {anyKey : Bool} {m : String} (hne : m ≠ k) {x : Value} :
    SafeEntry ((k, s) :: rest) anyKey m x ↔ SafeEntry rest anyKey m x := by
  rw [SafeEntry, if_neg (fun h => hne h.1.symm)]

end Entries

theorem idle_of_not_mem {rest : List (String × Schema)} {n : String} (h : n ∉ rest.map Prod.fst) :
    Idle rest n := by
  intro s hs
  rw [Dict.lookup_eq_none.mpr h] at hs
  cases hs

theorem Idle.tail {k n : String} {s : Schema} {rest : List (String × Schema)}
    (h : Idle ((k, s) :: rest) n) (hne : n ≠ k) : Idle rest n := by
  intro s' hs'
  apply h s'
  rw [Dict.lookup_cons_ne hne, hs']

/-- A leaf keeps its value. -/
theorem expect_leaf {s : Schema} (hleaf : s.isLeaf = true) (x : Value) : expect s x = some x := by
  obtain ⟨properties, items, oldName, removeLevel, oldProperty, others⟩ := s
  obtain ⟨rfl, rfl, -, -⟩ := Schema.isLeaf_iff.mp hleaf
  cases x <;> rw [expect, if_pos hleaf] <;> intro d h <;> cases h

theorem safe_leaf {s : Schema} (hleaf : s.isLeaf = true) (x : Value) : Safe s x := by
  obtain ⟨properties, items, oldName, removeLevel, oldProperty, others⟩ := s
  obtain ⟨rfl, rfl, -, hproperty⟩ := Schema.isLeaf_iff.mp hleaf
  rw [Safe]
  rintro d -
  refine ⟨fun e _ => by rw [SafeEntry]; trivial, ?_⟩
  intro p hp
  rw [hproperty] at hp
  cases hp

theorem expectEntry_idle {rest : List (String × Schema)} {n : String} (h : Idle rest n)
    (w : Value) : expectEntry rest n w = some (n, w) := by
  induction rest with
  | nil => rw [expectEntry]
  | cons f rest ih =>
    obtain ⟨k, s⟩ := f
    by_cases hne : n = k
    · subst hne
      by_cases hold : isOld n = true
      · rw [expectEntry_old hold, ih (fun _ _ => .inl hold)]
      · obtain ⟨hleaf, hname⟩ := (h s (Dict.lookup_cons_self n s rest)).resolve_left hold
        rw [expectEntry_self (Bool.eq_false_iff.mpr hold), expect_leaf hleaf, Schema.rename, hname]
        rfl
    · rw [expectEntry_ne hne, ih (h.tail hne)]

theorem safeEntry_idle {rest : List (String × Schema)} {n : String} (h : Idle rest n)
    (anyKey : Bool) (w : Value) : SafeEntry rest anyKey n w := by
  induction rest with
  | nil =>
    rw [SafeEntry]
    trivial
  | cons f rest ih =>
    obtain ⟨k, s⟩ := f
    by_cases hne : n = k
    · subst hne
      by_cases hold : isOld n = true
      · exact (safeEntry_old hold).mpr (ih (fun _ _ => .inl hold))
      · obtain ⟨hleaf, hname⟩ := (h s (Dict.lookup_cons_self n s rest)).resolve_left hold
        have hrename : s.rename n = n := by
          rw [Schema.rename, hname]
          rfl
        refine (safeEntry_self (Bool.eq_false_iff.mpr hold)).mpr
          ⟨safe_leaf hleaf w, fun e _ => ?_, .inl hrename⟩
        obtain ⟨properties, items, oldName, removeLevel, oldProperty, others⟩ := s
        obtain ⟨-, -, hlevel, -⟩ := Schema.isLeaf_iff.mp hleaf
        unfold Placed
        split
        · exact .inr (.inl hrename)
        · exact ⟨hlevel, .inl hrename⟩
    · exact (safeEntry_ne hne).mpr (ih (h.tail hne))

/-! ### The loop -/

theorem mapM_cons_eq_some {α β : Type} {f : α → Option β} {a : α} {l : List α} {bs : List β} :
    (a :: l).mapM f = some bs ↔ ∃ b cs, f a = some b ∧ l.mapM f = some cs ∧ bs = b :: cs := by
  rw [List.mapM_cons]
  constructor
  · intro h
    obtain ⟨b, hb, h⟩ := Option.bind_eq_some_iff.mp h
    obtain ⟨cs, hcs, h⟩ := Option.bind_eq_some_iff.mp h
    cases h
    exact ⟨b, cs, hb, hcs, rfl⟩
  · rintro ⟨b, cs, hb, hcs, rfl⟩
    rw [hb, hcs]
    rfl

/-- Reordered entries have the same images, reordered. -/
theorem mapM_perm {α β : Type} {f : α → Option β} {l m : List α} (h : l.Perm m) {bs : List β}
    (hl : l.mapM f = some bs) : ∃ cs, m.mapM f = some cs ∧ bs.Perm cs := by
  induction h generalizing bs with
  | nil => exact ⟨bs, hl, .refl bs⟩
  | cons a _ ih =>
    obtain ⟨b, bs', hb, hbs, rfl⟩ := mapM_cons_eq_some.mp hl
    obtain ⟨cs, hcs, hperm⟩ := ih hbs
    exact ⟨b :: cs, mapM_cons_eq_some.mpr ⟨b, cs, hb, hcs, rfl⟩, hperm.cons b⟩
  | swap a a' l =>
    obtain ⟨b', bs', hb', hbs', rfl⟩ := mapM_cons_eq_some.mp hl
    obtain ⟨b, cs, hb, hcs, rfl⟩ := mapM_cons_eq_some.mp hbs'
    refine ⟨b :: b' :: cs, ?_, List.Perm.swap _ _ _⟩
    exact mapM_cons_eq_some.mpr ⟨b, _, hb, mapM_cons_eq_some.mpr ⟨b', cs, hb', hcs, rfl⟩, rfl⟩
  | trans _ _ ih ih' =>
    obtain ⟨cs, hcs, hperm⟩ := ih hl
    obtain ⟨ds, hds, hperm'⟩ := ih' hcs
    exact ⟨ds, hds, hperm.trans hperm'⟩

theorem mem_mapM {α β : Type} {f : α → Option β} {l : List α} {bs : List β}
    (hl : l.mapM f = some bs) {a : α} {b : β} (ha : a ∈ l) (hb : f a = some b) : b ∈ bs := by
  obtain ⟨m, hm⟩ := List.append_of_mem ha
  obtain ⟨m', rfl⟩ := hm
  obtain ⟨cs, hcs, hperm⟩ := mapM_perm List.perm_middle hl
  obtain ⟨b', cs', hb', -, rfl⟩ := mapM_cons_eq_some.mp hcs
  rw [hb] at hb'
  cases hb'
  exact hperm.mem_iff.mpr List.mem_cons_self

/-- The conversion returns the prescribed value, and one that counts as false is in its place. -/
def Converts (s : Schema) (x e : Value) : Prop :=
  ∀ key, ∃ c, convertSub s key x = .ok c ∧ c.obj.Same e ∧
    (c.obj.truthy = false → s.removesLevel = false → c.place = c.obj)

/-- Where the value of a property is after the conversion of the property. -/
structure Lands (s : Schema) (k : String) (x e : Value) (c : Converted) : Prop where
  converted : convertSub s k x = .ok c
  same : c.obj.Same e
  key : c.key = k ∨ c.key = s.rename k
  stays : c.obj.truthy = true ∨ c.key = k ∧ c.place = c.obj
  missing : x = .none → c.obj = .none

theorem lands_of_placed {anyKey : Bool} {s : Schema} {k : String} {x e : Value}
    (h : Converts s x e) (hplaced : Placed anyKey s k x e) :
    ∃ c, Lands s k x e c ∧ (anyKey = false → c.key = s.rename k) := by
  obtain ⟨c, hc, hsame, hplace⟩ := h k
  have hkey := convertSub_key hc
  have hmissing : x = .none → c.obj = .none := by
    rintro rfl
    rw [convertSub_none, Except.ok.injEq] at hc
    rw [← hc]
  unfold Placed at hplaced
  rw [← hsame.truthy] at hplaced
  by_cases htruthy : c.obj.truthy = true
  · rw [if_pos htruthy] at hplaced
    have hx : x ≠ .none := by
      intro hx
      rw [hmissing hx] at htruthy
      cases htruthy
    refine ⟨c, ⟨hc, hsame, ?_, .inl htruthy, hmissing⟩, ?_⟩
    · split at hkey
      · exact .inl hkey
      · exact .inr hkey
    · intro hany
      rcases hplaced with hany' | hname | hitems
      · rw [hany] at hany'
        cases hany'
      · rw [hname]
        split at hkey
        · exact hkey
        · exact hkey.trans hname
      · rwa [if_neg (by rw [hitems]; rintro (h | h); exact hx h; cases h)] at hkey
  · rw [if_neg htruthy] at hplaced
    obtain ⟨hlevel, hname⟩ := hplaced
    have hk : c.key = k := by
      split at hkey
      · exact hkey
      · rename_i hrenamed
        rcases hname with hname | ⟨-, hitems | hx⟩
        · exact hkey.trans hname
        · exact absurd (.inr hitems) hrenamed
        · exact absurd (.inl hx) hrenamed
    have hin := hplace (Bool.eq_false_iff.mpr htruthy) hlevel
    refine ⟨c, ⟨hc, hsame, .inl hk, .inr ⟨hk, hin⟩, hmissing⟩, ?_⟩
    intro hany
    rcases hname with hname | ⟨hany', -⟩
    · exact hk.trans hname.symm
    · rw [hany] at hany'
      cases hany'

/-- The properties still to come leave the value alone. -/
theorem Lands.idle {s : Schema} {k : String} {x e : Value} {c : Converted}
    (h : Lands s k x e c) {rest : List (String × Schema)} (honce : k ∉ rest.map Prod.fst)
    (hidle : s.rename k = k ∨ Idle rest (s.rename k)) : Idle rest c.key := by
  rcases h.key with hkey | hkey
  · rw [hkey]
    exact idle_of_not_mem honce
  · rw [hkey]
    rcases hidle with hname | hidle
    · rw [hname]
      exact idle_of_not_mem honce
    · exact hidle

/-- What is put back takes the place of what was there. -/
theorem Lands.putBack {s : Schema} {k : String} {x e : Value} {c : Converted}
    (h : Lands s k x e c) {d : List (String × Value)} (hd : (d.map Prod.fst).Nodup)
    (hk : d.lookup k = some x) (hfree : c.key = k ∨ c.key ∉ d.map Prod.fst) :
    (putBackFields k x c d).Perm ((c.key, c.obj) :: Dict.del k d) := by
  unfold putBackFields
  set d₁ := if x = .none then d else Dict.set k c.place d with hd₁
  have hdel : Dict.del k d₁ = Dict.del k d := by
    rw [hd₁]
    split
    · rfl
    · exact Dict.del_set_self k c.place d
  have hnodup : (d₁.map Prod.fst).Nodup := by
    rw [hd₁]
    split
    · exact hd
    · exact Dict.nodup_set hd k c.place
  dsimp only
  rcases h.stays with htruthy | ⟨hkey, hplace⟩
  · rw [if_pos htruthy]
    by_cases hkey : c.key = k
    · rw [if_neg (not_not.mpr hkey), hkey, ← hdel]
      exact Dict.set_perm hnodup k c.obj
    · have hfree₁ : c.key ∉ d₁.map Prod.fst := by
        have hnone := Dict.lookup_eq_none.mpr (hfree.resolve_left hkey)
        rw [← Dict.lookup_eq_none, hd₁]
        split
        · exact hnone
        · rw [Dict.lookup_set_ne hkey, hnone]
      have hmoved : Dict.del k (d₁ ++ [(c.key, c.obj)]) = Dict.del k d₁ ++ [(c.key, c.obj)] := by
        unfold Dict.del
        rw [List.filter_append]
        simp [hkey]
      rw [if_pos hkey, Dict.set_of_not_mem hfree₁, hmoved, hdel]
      exact List.perm_append_singleton _ _
  · rw [if_neg (not_not.mpr hkey), hkey]
    have hfirst : d₁.Perm ((k, c.obj) :: Dict.del k d) := by
      rw [hd₁]
      split
      · rename_i hx
        rw [h.missing hx, ← hx]
        exact Dict.perm_of_lookup hd hk
      · rw [hplace]
        exact Dict.set_perm hd k c.obj
    split
    · refine (Dict.set_perm hnodup k c.obj).trans ?_
      rw [hdel]
    · exact hfirst

section Loop

variable {k : String} {s : Schema} {rest : List (String × Schema)} {d : List (String × Value)}

theorem convertProperties_old (hold : isOld k = true) (x : Value) :
    convertProperties ((k, s) :: rest) x = convertProperties rest x := by
  rw [convertProperties, if_pos hold]

/-- A property that is missing stays missing. -/
theorem convertProperties_missing (hk : d.lookup k = none) :
    convertProperties ((k, s) :: rest) (.dict d) = convertProperties rest (.dict d) := by
  rw [convertProperties]
  split
  · rfl
  · have hv : (d.lookup k).getD .none = .none := by
      rw [hk]
      rfl
    rw [Value.get, hv]
    change (convertSub s k .none >>= fun c => putBack k .none c (.dict d) >>= _) = _
    rw [convertSub_none]
    change (putBack k .none ⟨k, .none, .none⟩ (.dict d) >>= _) = _
    rw [putBack_same hv]
    rfl

theorem convertProperties_present (hold : isOld k = false) {x : Value} (hk : d.lookup k = some x)
    {c : Converted} (hc : convertSub s k x = .ok c) :
    convertProperties ((k, s) :: rest) (.dict d) =
      convertProperties rest (.dict (putBackFields k x c d)) := by
  have hv : (d.lookup k).getD .none = x := by
    rw [hk]
    rfl
  rw [convertProperties, if_neg (Bool.eq_false_iff.mp hold), Value.get, hv]
  change (convertSub s k x >>= fun c => putBack k x c (.dict d) >>= _) = _
  rw [hc]
  change (putBack k x c (.dict d) >>= _) = _
  rw [putBack_dict]
  rfl

end Loop

/-- The properties that are still to come prescribe the fields for what is there so far. -/
structure Prescribes (properties : List (String × Schema)) (d fields : List (String × Value)) :
    Prop where
  keys : (d.map Prod.fst).Nodup
  expected : d.mapM (fun e => expectEntry properties e.1 e.2) = some fields
  names : (fields.map Prod.fst).Nodup
  safe : ∀ e ∈ d, SafeEntry properties false e.1 e.2

/-- Without the property's key there is nothing to do for it. -/
theorem Prescribes.skip {k : String} {s : Schema} {rest : List (String × Schema)}
    {d fields : List (String × Value)} (h : Prescribes ((k, s) :: rest) d fields)
    (hskip : isOld k = true ∨ d.lookup k = none) : Prescribes rest d fields := by
  have hsame : ∀ e ∈ d, expectEntry ((k, s) :: rest) e.1 e.2 = expectEntry rest e.1 e.2 ∧
      (SafeEntry ((k, s) :: rest) false e.1 e.2 ↔ SafeEntry rest false e.1 e.2) := by
    intro e he
    rcases hskip with hold | hmissing
    · exact ⟨expectEntry_old hold e.1 e.2, safeEntry_old hold⟩
    · have hne : e.1 ≠ k := by
        intro heq
        exact Dict.lookup_eq_none.mp hmissing (heq ▸ List.mem_map_of_mem he)
      exact ⟨expectEntry_ne hne e.2, safeEntry_ne hne⟩
  refine ⟨h.keys, ?_, h.names, fun e he => (hsame e he).2.mp (h.safe e he)⟩
  rw [← h.expected]
  exact mapM_congr (fun e he => ((hsame e he).1).symm)

/-- A property that is there is converted, and what is prescribed stays the same. -/
theorem Prescribes.present {k : String} {s : Schema} {rest : List (String × Schema)}
    (ih : ∀ x e, expect s x = some e → Safe s x → Converts s x e)
    (honce : k ∉ rest.map Prod.fst) {d fields : List (String × Value)}
    (h : Prescribes ((k, s) :: rest) d fields) (hnew : isOld k = false) {x : Value}
    (hk : d.lookup k = some x) :
    ∃ d' fields', convertProperties ((k, s) :: rest) (.dict d) =
        convertProperties rest (.dict d') ∧
      Prescribes rest d' fields' ∧ Value.Same (.dict fields') (.dict fields) := by
  obtain ⟨hsafes, hplaced, hidle⟩ :=
    (safeEntry_self hnew).mp (h.safe (k, x) (Dict.mem_of_lookup hk))
  -- the entry of `k` comes first, as the order does not matter
  obtain ⟨fields₁, hfields₁, hreorder⟩ := mapM_perm (Dict.perm_of_lookup h.keys hk) h.expected
  obtain ⟨entry, others, hentry, hothers, rfl⟩ := mapM_cons_eq_some.mp hfields₁
  rw [expectEntry_self hnew] at hentry
  obtain ⟨e, he, rfl⟩ := Option.map_eq_some_iff.mp hentry
  have hdistinct := (hreorder.map Prod.fst).nodup_iff.mp h.names
  obtain ⟨c, hlands, hkey⟩ := lands_of_placed (ih x e he hsafes) (hplaced e he)
  have hkey : c.key = s.rename k := hkey rfl
  have hdel : ∀ e ∈ Dict.del k d, e ∈ d ∧ e.1 ≠ k := by
    intro e he
    obtain ⟨hmem, hne⟩ := List.mem_filter.mp he
    exact ⟨hmem, by simpa using hne⟩
  have hidle : Idle rest c.key := hlands.idle honce hidle
  -- nothing else is under the new name, as it would keep that name
  have hfree : c.key ∉ (Dict.del k d).map Prod.fst := by
    intro hmem
    obtain ⟨f, hf, hname⟩ := List.mem_map.mp hmem
    have hkept : expectEntry ((k, s) :: rest) f.1 f.2 = some (c.key, f.2) := by
      rw [expectEntry_ne (hdel f hf).2, hname, expectEntry_idle hidle]
    have hmem' : c.key ∈ others.map Prod.fst := List.mem_map_of_mem (mem_mapM hothers hf hkept)
    rw [List.map_cons, List.nodup_cons, ← hkey] at hdistinct
    exact hdistinct.1 hmem'
  have hfree' : c.key = k ∨ c.key ∉ d.map Prod.fst := by
    by_cases heq : c.key = k
    · exact .inl heq
    · rw [← Dict.lookup_eq_none, Dict.lookup_del_ne heq, Dict.lookup_eq_none] at hfree
      exact .inr hfree
  have hback := hlands.putBack h.keys hk hfree'
  have hothers' : (Dict.del k d).mapM (fun e => expectEntry rest e.1 e.2) = some others := by
    rw [← hothers]
    exact mapM_congr (fun e he => (expectEntry_ne (hdel e he).2 e.2).symm)
  have hfirst : ((c.key, c.obj) :: Dict.del k d).mapM (fun e => expectEntry rest e.1 e.2) =
      some ((c.key, c.obj) :: others) :=
    mapM_cons_eq_some.mpr ⟨_, _, expectEntry_idle hidle c.obj, hothers', rfl⟩
  obtain ⟨fields', hfields', hreorder'⟩ := mapM_perm hback.symm hfirst
  have hnames : (((c.key, c.obj) :: others).map Prod.fst).Nodup := by
    rw [List.map_cons, ← hkey] at hdistinct
    rw [List.map_cons]
    exact hdistinct
  refine ⟨putBackFields k x c d, fields', convertProperties_present hnew hk hlands.converted,
    ⟨?_, hfields', (hreorder'.map Prod.fst).nodup_iff.mp hnames, ?_⟩, ?_⟩
  · refine (hback.map Prod.fst).nodup_iff.mpr ?_
    rw [List.map_cons, List.nodup_cons]
    exact ⟨hfree, Dict.nodup_del h.keys k⟩
  · intro f hf
    rcases List.mem_cons.mp (hback.mem_iff.mp hf) with rfl | hf
    · exact safeEntry_idle hidle false c.obj
    · exact (safeEntry_ne (hdel f hf).2).mp (h.safe f (hdel f hf).1)
  · have hsame : Value.Same (.dict ((c.key, c.obj) :: others))
        (.dict ((s.rename k, e) :: others)) := by
      rw [hkey]
      exact .field hlands.same (.refl _)
    have hnames' := (hreorder'.map Prod.fst).nodup_iff.mp hnames
    exact (Value.Same.perm hnames' hreorder'.symm).trans
      (hsame.trans (.perm hdistinct hreorder.symm))

/-- The loop turns the fields of an object into the prescribed ones. -/
theorem convertProperties_expected {properties : List (String × Schema)}
    (ih : ∀ f ∈ properties, ∀ x e, expect f.2 x = some e → Safe f.2 x → Converts f.2 x e)
    (hproperties : (properties.map Prod.fst).Nodup) {d fields : List (String × Value)}
    (h : Prescribes properties d fields) :
    ∃ d', convertProperties properties (.dict d) = .ok (.dict d') ∧
      Value.Same (.dict d') (.dict fields) := by
  induction properties generalizing d fields with
  | nil =>
    have hkeep : (fun e : String × Value => expectEntry [] e.1 e.2) = fun e => pure e := by
      funext e
      rw [expectEntry]
      rfl
    have hfields := h.expected
    rw [hkeep, List.mapM_pure, List.map_id'] at hfields
    cases hfields
    exact ⟨d, by rw [convertProperties], .refl _⟩
  | cons f rest ihrest =>
    obtain ⟨k, s⟩ := f
    obtain ⟨hs, hrest⟩ := List.forall_mem_cons.mp ih
    rw [List.map_cons, List.nodup_cons] at hproperties
    by_cases hold : isOld k = true
    · rw [convertProperties_old hold]
      exact ihrest hrest hproperties.2 (h.skip (.inl hold))
    rcases hk : d.lookup k with _ | x
    · rw [convertProperties_missing hk]
      exact ihrest hrest hproperties.2 (h.skip (.inr hk))
    · obtain ⟨d', fields', hstep, h', hsame⟩ :=
        h.present hs hproperties.1 (Bool.eq_false_iff.mpr hold) hk
      obtain ⟨d'', hrun, hsame'⟩ := ihrest hrest hproperties.2 h'
      exact ⟨d'', hstep.trans hrun, hsame'.trans hsame⟩

/-- Where the level is removed, the loop leaves the prescribed value of its only property, under
whatever name. -/
theorem convertProperties_single {properties : List (String × Schema)}
    (ih : ∀ f ∈ properties, ∀ x e, expect f.2 x = some e → Safe f.2 x → Converts f.2 x e)
    (hproperties : (properties.map Prod.fst).Nodup) {k n : String} {x e : Value}
    (he : expectEntry properties k x = some (n, e)) (hsafe : SafeEntry properties true k x) :
    ∃ m w, convertProperties properties (.dict [(k, x)]) = .ok (.dict [(m, w)]) ∧
      Value.Same w e := by
  induction properties generalizing k n x e with
  | nil =>
    rw [expectEntry] at he
    cases he
    exact ⟨k, x, by rw [convertProperties], .refl x⟩
  | cons f rest ihrest =>
    obtain ⟨k', s⟩ := f
    obtain ⟨hs, hrest⟩ := List.forall_mem_cons.mp ih
    rw [List.map_cons, List.nodup_cons] at hproperties
    by_cases hold : isOld k' = true
    · rw [convertProperties_old hold]
      rw [expectEntry_old hold] at he
      exact ihrest hrest hproperties.2 he ((safeEntry_old hold).mp hsafe)
    by_cases hne : k = k'
    · subst hne
      have hnew : isOld k = false := Bool.eq_false_iff.mpr hold
      rw [expectEntry_self hnew] at he
      obtain ⟨e', he', heq⟩ := Option.map_eq_some_iff.mp he
      cases heq
      obtain ⟨hsafes, hplaced, hidle⟩ := (safeEntry_self hnew).mp hsafe
      obtain ⟨c, hlands, -⟩ := lands_of_placed (hs x e he' hsafes) (hplaced e he')
      have hk : [(k, x)].lookup k = some x := Dict.lookup_cons_self k x []
      have hidle : Idle rest c.key := hlands.idle hproperties.1 hidle
      have hd : ([(k, x)].map Prod.fst).Nodup := List.nodup_singleton k
      have hfree : c.key = k ∨ c.key ∉ [(k, x)].map Prod.fst := by
        by_cases heq : c.key = k
        · exact .inl heq
        · exact .inr (fun hmem => heq (List.mem_singleton.mp hmem))
      have hback := hlands.putBack hd hk hfree
      have hdel : Dict.del k [(k, x)] = [] := by simp [Dict.del]
      rw [hdel] at hback
      rw [convertProperties_present hnew hk hlands.converted, List.perm_singleton.mp hback]
      obtain ⟨m, w, hrun, hw⟩ := ihrest hrest hproperties.2 (expectEntry_idle hidle c.obj)
        (safeEntry_idle hidle true c.obj)
      exact ⟨m, w, hrun, hw.trans hlands.same⟩
    · have hmissing : [(k, x)].lookup k' = none := by
        rw [Dict.lookup_cons_ne (fun heq => hne heq.symm)]
        rfl
      rw [convertProperties_missing hmissing]
      rw [expectEntry_ne hne] at he
      exact ihrest hrest hproperties.2 he ((safeEntry_ne hne).mp hsafe)

/-! ### Levels and the whole -/

/-- The level's name becomes a property. -/
theorem nameLevel_named {p : String} {v u e : Value} (hv : v.Same u) (he : named p u = some e)
    (hapart : ∀ k inner, u = .dict [(k, .dict inner)] → ∀ w, inner.lookup p = some w →
      w = .str k) :
    ∃ w, nameLevel (some p) v = .ok w ∧ w.Same e := by
  unfold named at he
  split at he
  · rename_i k d
    cases he
    obtain ⟨u', rfl, hu'⟩ := hv.single
    obtain ⟨d', rfl⟩ := hu'.dict
    refine ⟨.dict (Dict.set p (.str k) d'), rfl, (hu'.set p (.str k)).trans ?_⟩
    rcases hlookup : d.lookup p with _ | w
    · rw [Dict.set_of_not_mem (Dict.lookup_eq_none.mp hlookup)]
      exact .refl _
    · have hw := hapart k d rfl w hlookup
      rw [Dict.set_self (hw ▸ hlookup)]
      exact .refl _
  · cases he

theorem named_truthy {p : String} {u e : Value} (he : named p u = some e) : e.truthy = true := by
  unfold named at he
  split at he
  · rename_i k d
    cases he
    cases d with
    | nil => rfl
    | cons f d => split <;> rfl
  · cases he

/-- The loop and the removal of a level. -/
theorem convertInner_expected {s : Schema} {properties : List (String × Schema)}
    (ih : ∀ f ∈ properties, ∀ x e, expect f.2 x = some e → Safe f.2 x → Converts f.2 x e)
    (hproperties : (properties.map Prod.fst).Nodup) {d fields : List (String × Value)}
    (hd : (d.map Prod.fst).Nodup)
    (hfields : d.mapM (fun e => expectEntry properties e.1 e.2) = some fields)
    (hnames : (fields.map Prod.fst).Nodup)
    (hsafe : ∀ e ∈ d, SafeEntry properties s.removesLevel e.1 e.2) {u : Value}
    (hu : expectInner s fields = some u) :
    ∃ place inner, convertProperties properties (.dict d) = .ok place ∧
      takeLevel s place = .ok inner ∧ inner.Same u ∧ (s.removesLevel = false → inner = place) := by
  unfold expectInner at hu
  unfold takeLevel
  by_cases hlevel : s.removesLevel = true
  · rw [if_pos hlevel] at hu
    rw [hlevel] at hsafe
    have hone : ∃ n, fields = [(n, u)] := by
      unfold single at hu
      split at hu
      · rename_i n v
        cases hu
        exact ⟨n, rfl⟩
      · cases hu
    obtain ⟨n, rfl⟩ := hone
    cases d with
    | nil => cases hfields
    | cons f d =>
      obtain ⟨entry, others, hentry, hothers, heq⟩ := mapM_cons_eq_some.mp hfields
      cases heq
      cases d with
      | cons f' d =>
        obtain ⟨_, _, -, -, hnil⟩ := mapM_cons_eq_some.mp hothers
        cases hnil
      | nil =>
        obtain ⟨m, w, hrun, hw⟩ :=
          convertProperties_single ih hproperties hentry (hsafe f List.mem_cons_self)
        refine ⟨_, w, hrun, if_pos hlevel, hw, fun hkept => ?_⟩
        exact absurd hlevel (Bool.eq_false_iff.mp hkept)
  · rw [if_neg hlevel] at hu
    cases hu
    rw [Bool.eq_false_iff.mpr hlevel] at hsafe
    obtain ⟨d', hrun, hsame⟩ :=
      convertProperties_expected ih hproperties ⟨hd, hfields, hnames, hsafe⟩
    exact ⟨.dict d', .dict d', hrun, if_neg hlevel, hsame, fun _ => rfl⟩

/-- The elements of an array in their order. -/
theorem convertItems_expected {s : Schema}
    (ih : ∀ x e, expect s x = some e → Safe s x → Converts s x e) {l es : List Value}
    (hes : l.mapM (expect s) = some es) (hsafe : ∀ y ∈ l, Safe s y) :
    ∃ l', l.mapM (fun item => Converted.obj <$> convertSub s "_" item) = .ok l' ∧
      Value.Same (.list l') (.list es) ∧ (l' = [] → l = []) := by
  induction l generalizing es with
  | nil =>
    cases hes
    exact ⟨[], rfl, .refl _, fun _ => rfl⟩
  | cons y l ihl =>
    obtain ⟨e, es, he, hrest, rfl⟩ := mapM_cons_eq_some.mp hes
    obtain ⟨hy, hl⟩ := List.forall_mem_cons.mp hsafe
    obtain ⟨c, hc, hsame, -⟩ := ih y e he hy "_"
    obtain ⟨l', hl', hsame', -⟩ := ihl hrest hl
    refine ⟨c.obj :: l', ?_, .element hsame hsame', fun h => by cases h⟩
    rw [List.mapM_cons, hc, hl']
    rfl

theorem converts_leaf {s : Schema} (hleaf : s.isLeaf = true) (x : Value) : Converts s x x := by
  intro key
  by_cases hx : x = .none
  · rw [hx, convertSub_none]
    exact ⟨_, rfl, .refl _, fun _ _ => rfl⟩
  · exact ⟨_, convertSub_leaf hleaf hx key, .refl x, fun _ _ => rfl⟩

theorem converts_array {s : Schema} (ih : ∀ x e, expect s x = some e → Safe s x → Converts s x e)
    {l es : List Value} (hes : l.mapM (expect s) = some es) (hsafe : ∀ y ∈ l, Safe s y)
    (oldName oldProperty : Option String) (removeLevel : Option Bool) (others : Bool) :
    Converts (.node [] (some s) oldName removeLevel oldProperty others) (.list l) (.list es) := by
  intro key
  obtain ⟨l', hl', hsame, hnil⟩ := convertItems_expected ih hes hsafe
  refine ⟨⟨key, .list l', .list l⟩, ?_, hsame, fun hfalsy _ => ?_⟩
  · rw [convertSub, if_neg (by intro h; cases h), convertProperties]
    change (l.mapM (fun item => Converted.obj <$> convertSub s "_" item) >>= _) = _
    rw [hl']
    rfl
  · have hempty : l' = [] := by
      cases l' with
      | nil => rfl
      | cons _ _ => cases hfalsy
    rw [hempty, hnil hempty]

theorem converts_object {properties : List (String × Schema)} {oldName oldProperty : Option String}
    {removeLevel : Option Bool} {others : Bool}
    (ih : ∀ f ∈ properties, ∀ x e, expect f.2 x = some e → Safe f.2 x → Converts f.2 x e)
    (hproperties : (properties.map Prod.fst).Nodup) {d fields : List (String × Value)}
    (hd : (d.map Prod.fst).Nodup)
    (hfields : d.mapM (fun e => expectEntry properties e.1 e.2) = some fields)
    (hnames : (fields.map Prod.fst).Nodup) {e : Value}
    (he : expectLevels (.node properties none oldName removeLevel oldProperty others) fields =
      some e)
    (hsafe : Safe (.node properties none oldName removeLevel oldProperty others) (.dict d)) :
    Converts (.node properties none oldName removeLevel oldProperty others) (.dict d) e := by
  intro key
  rw [Safe] at hsafe
  obtain ⟨hentries, hapart⟩ := hsafe d rfl
  set s := Schema.node properties none oldName removeLevel oldProperty others
  unfold expectLevels at he
  rcases hproperty : s.levelProperty with _ | p
  · rw [hproperty] at he
    obtain ⟨place, inner, hloop, hlevel, hsame, hin⟩ :=
      convertInner_expected ih hproperties hd hfields hnames hentries he
    refine ⟨⟨s.rename key, inner, place⟩, ?_, hsame, fun _ hkept => (hin hkept).symm⟩
    rw [convertSub, if_neg (by intro h; cases h), hloop]
    change convertLevels s key place = _
    unfold convertLevels
    rw [hlevel, hproperty]
    rfl
  · rw [hproperty] at he
    obtain ⟨u, hu, hnamed⟩ := Option.bind_eq_some_iff.mp he
    obtain ⟨place, inner, hloop, hlevel, hsame, -⟩ :=
      convertInner_expected ih hproperties hd hfields hnames hentries hu
    have hdistinct : ∀ k inner, u = .dict [(k, .dict inner)] → ∀ w, inner.lookup p = some w →
        w = .str k := by
      rintro k inner rfl w hw
      exact hapart p hproperty fields hfields k inner hu w hw
    obtain ⟨w, hname, hw⟩ := nameLevel_named hsame hnamed hdistinct
    refine ⟨⟨s.rename key, w, place⟩, ?_, hw, fun hfalsy => ?_⟩
    · rw [convertSub, if_neg (by intro h; cases h), hloop]
      change convertLevels s key place = _
      unfold convertLevels
      rw [hlevel, hproperty]
      change (nameLevel (some p) inner >>= _) = _
      rw [hname]
      rfl
    · -- an object with its level's name in it is not empty
      rw [hw.truthy, named_truthy hnamed] at hfalsy
      cases hfalsy

theorem converts (s : Schema) : ∀ x e, expect s x = some e → Safe s x → Converts s x e := by
  induction s using Schema.all with
  | h properties items oldName removeLevel oldProperty others hproperties hitems =>
    intro x e he hsafe
    cases items with
    | some s =>
      cases x with
      | list l =>
        rw [expect] at he
        split at he
        · rename_i hleaf
          obtain ⟨rfl, -, -, -⟩ := Schema.isLeaf_iff.mp hleaf
          obtain ⟨es, hes, rfl⟩ := Option.map_eq_some_iff.mp he
          rw [Safe] at hsafe
          exact converts_array (hitems s rfl) hes (hsafe l rfl) oldName oldProperty removeLevel
            others
        · cases he
      | _ => cases he
    | none =>
      by_cases hleaf : (Schema.node properties none oldName removeLevel oldProperty others).isLeaf
      · rw [expect_leaf hleaf] at he
        cases he
        exact converts_leaf hleaf x
      · cases x with
        | dict d =>
          rw [expect, if_neg hleaf] at he
          obtain ⟨fields, hfields, he⟩ := Option.bind_eq_some_iff.mp he
          split at he
          · rename_i hnodup
            obtain ⟨honce, hd, hnames⟩ := hnodup
            exact converts_object hproperties honce hd hfields hnames he hsafe
          · cases he
        | _ =>
          rw [expect, if_neg hleaf] at he
          · cases he
          · intro d h; cases h

/-! ### Where a value is lost -/

theorem truthy_of_enter {v : Value} {r : Value × Value} (h : enter v = .ok r) :
    v.truthy = true := by
  cases v with
  | dict d =>
    cases d with
    | nil => cases h
    | cons _ _ => rfl
  | list l =>
    cases l with
    | nil => cases h
    | cons _ _ => rfl
  | str s =>
    rw [enter] at h
    split at h <;> cases h
  | _ => cases h

/-- A level that is removed has something in it. -/
theorem place_truthy {s : Schema} {key : String} {x : Value} {c : Converted}
    (h : convertSub s key x = .ok c) (hx : x ≠ .none) (hitems : s.items = none)
    (hlevel : s.removesLevel = true) : c.place.truthy = true := by
  obtain ⟨properties, items, oldName, removeLevel, oldProperty, others⟩ := s
  cases hitems
  rw [convertSub, if_neg hx] at h
  obtain ⟨place, -, h⟩ := Aborting.bind_eq_ok h
  obtain ⟨inner, hinner, h⟩ := Aborting.bind_eq_ok h
  obtain ⟨obj, -, h⟩ := Aborting.bind_eq_ok h
  cases h
  rw [takeLevel, if_pos hlevel] at hinner
  rcases hr : enter place with err | r
  · rw [hr] at hinner
    cases hinner
  · exact truthy_of_enter hr

theorem items_of_removesLevel {s : Schema} {x e : Value} (he : expect s x = some e)
    (hlevel : s.removesLevel = true) : s.items = none ∧ x ≠ .none := by
  obtain ⟨properties, items, oldName, removeLevel, oldProperty, others⟩ := s
  cases items with
  | some s =>
    cases x with
    | list l =>
      rw [expect] at he
      split at he
      · rename_i hleaf
        obtain ⟨-, -, hkept, -⟩ := Schema.isLeaf_iff.mp hleaf
        exact absurd hlevel (Bool.eq_false_iff.mp hkept)
      · cases he
    | _ => cases he
  | none =>
    refine ⟨rfl, ?_⟩
    rintro rfl
    have hnot : ¬(Schema.node properties none oldName removeLevel oldProperty others).isLeaf := by
      intro hleaf
      obtain ⟨-, -, hkept, -⟩ := Schema.isLeaf_iff.mp hleaf
      exact Bool.eq_false_iff.mp hkept hlevel
    rw [expect, if_neg hnot] at he
    · cases he
    · intro d h; cases h

/-- A property that keeps its name is still there. -/
theorem lookup_putBack_kept {k : String} {x : Value} {c : Converted} {d : List (String × Value)}
    (hk : d.lookup k = some x) (hkey : c.key = k) :
    (putBackFields k x c d).lookup k =
      some (if c.obj.truthy then c.obj else if x = .none then x else c.place) := by
  unfold putBackFields
  rw [if_neg (not_not.mpr hkey), hkey]
  split
  · exact Dict.lookup_set_self k c.obj _
  · split
    · exact hk
    · exact Dict.lookup_set_self k c.place d

/-- What counts as false is not put under another name. -/
theorem lookup_putBack_falsy {k : String} {x : Value} {c : Converted} {d : List (String × Value)}
    (hkey : c.key ≠ k) (hfalsy : c.obj.truthy = false) :
    (putBackFields k x c d).lookup c.key = d.lookup c.key := by
  unfold putBackFields
  rw [if_pos hkey, if_neg (Bool.eq_false_iff.mp hfalsy), Dict.lookup_del_ne hkey]
  split
  · rfl
  · exact Dict.lookup_set_ne hkey c.place d

/-- A property whose own conversion is right is where it belongs if and only if it is placed. -/
theorem placed_iff {s : Schema} {k : String} {x e : Value} (hconverts : Converts s x e)
    (he : expect s x = some e) (hnew : isOld k = false) {d : List (String × Value)}
    (hd : (d.map Prod.fst).Nodup) (hk : d.lookup k = some x)
    (hfree : s.rename k = k ∨ s.rename k ∉ d.map Prod.fst) (others : Bool) (key : String) :
    (∃ c, convertSub (.node [(k, s)] none none none none others) key (.dict d) = .ok c ∧
      c.obj.Same (.dict ((s.rename k, e) :: Dict.del k d))) ↔ Placed false s k x e := by
  have hrun : ∀ c, convertSub s k x = .ok c →
      convertSub (.node [(k, s)] none none none none others) key (.dict d) =
        .ok ⟨key, .dict (putBackFields k x c d), .dict (putBackFields k x c d)⟩ := by
    intro c hc
    rw [convertSub, if_neg (by intro h; cases h), convertProperties_present hnew hk hc,
      convertProperties]
    rfl
  constructor
  · rintro ⟨c', hc', hsame⟩
    obtain ⟨c, hc, hobj, -⟩ := hconverts k
    rw [hrun c hc, Except.ok.injEq] at hc'
    subst hc'
    have hlookup := Value.eqv_dict.mp hsame.eqv
    have hkey := convertSub_key hc
    -- under the old name there is nothing if the name changes
    have hname : c.key = k → s.rename k = k := by
      intro hkept
      by_contra hne
      have hnone : ((s.rename k, e) :: Dict.del k d).lookup k = none := by
        rw [Dict.lookup_cons_ne (Ne.symm hne), Dict.lookup_del_self]
      have hpresent := hlookup k
      rw [lookup_putBack_kept hk hkept, hnone] at hpresent
      cases hpresent
    unfold Placed
    rw [← hobj.truthy]
    split
    · right
      split at hkey
      · exact .inl (hname hkey)
      · rename_i hmoved
        right
        rcases hitems : s.items with _ | s'
        · rfl
        · exact absurd (.inr (by rw [hitems]; rfl)) hmoved
    · rename_i htruthy
      have hfalsy : c.obj.truthy = false := Bool.eq_false_iff.mpr htruthy
      have hkept : c.key = k := by
        by_contra hne
        have hmoved : c.key = s.rename k := by
          split at hkey
          · exact absurd hkey hne
          · exact hkey
        have hpresent := hlookup c.key
        have hfresh : d.lookup c.key = none := by
          rw [Dict.lookup_eq_none, hmoved]
          exact hfree.resolve_left (fun heq => hne (hmoved.trans heq))
        rw [lookup_putBack_falsy hne hfalsy, hfresh, hmoved, Dict.lookup_cons_self] at hpresent
        cases hpresent
      refine ⟨?_, .inl (hname hkept)⟩
      by_contra hlevel
      have hlevel : s.removesLevel = true := Bool.eq_true_of_not_eq_false hlevel
      obtain ⟨hitems, hx⟩ := items_of_removesLevel he hlevel
      have hplace := hlookup k
      rw [lookup_putBack_kept hk hkept, if_neg htruthy, if_neg hx, hname hkept,
        Dict.lookup_cons_self] at hplace
      have heqv : c.place.Eqv e := Option.some.inj hplace
      have htrue := place_truthy hc hx hitems hlevel
      rw [heqv.truthy, ← hobj.truthy, hfalsy] at htrue
      cases htrue
  · intro hplaced
    obtain ⟨c, hlands, hkey⟩ := lands_of_placed hconverts hplaced
    have hkey := hkey rfl
    refine ⟨_, hrun c hlands.converted, ?_⟩
    have hfree' : c.key ∉ (Dict.del k d).map Prod.fst := by
      rw [hkey]
      rcases hfree with heq | hfree
      · rw [heq]
        exact Dict.not_mem_del k d
      · intro hmem
        rw [Dict.keys_del] at hmem
        exact hfree (List.mem_filter.mp hmem).1
    have hback := hlands.putBack hd hk (by rw [hkey]; exact hfree)
    have hnodup : (((c.key, c.obj) :: Dict.del k d).map Prod.fst).Nodup := by
      rw [List.map_cons, List.nodup_cons]
      exact ⟨hfree', Dict.nodup_del hd k⟩
    rw [← hkey]
    exact (Value.Same.perm ((hback.map Prod.fst).nodup_iff.mpr hnodup) hback).trans
      (.field hlands.same (.refl _))

/-- The conversion returns what the schema prescribes for an object, up to the order of keys,
whenever every value is put where it belongs. -/
theorem convertSub_expected {s : Schema} {x e : Value} (he : expect s x = some e) (hsafe : Safe s x)
    (key : String) : ∃ c, convertSub s key x = .ok c ∧ c.obj.Same e := by
  obtain ⟨c, hc, hsame, -⟩ := converts s x e he hsafe key
  exact ⟨c, hc, hsame⟩

def leaf (oldName : Option String) : Schema := .node [] none oldName none none false

def clusterOrRef : Schema :=
  .node [("cluster", leaf none), ("clusterRef", leaf none)] none none (some true) none true

def routeSchema : Schema :=
  .node [("destinationRef", leaf (some "destination")),
    ("ingress", .node [] (some clusterOrRef) none none none false)] none none none none false

/-- A route with a named destination and a named transform. -/
theorem convertSub_expected_route :
    ∃ c, convertSub routeSchema "route" (.dict [("destinationRef", .str "c"),
        ("ingress", .list [.dict [("clusterRef", .str "t")]])]) = .ok c ∧
      c.obj.Same (.dict [("destination", .str "c"), ("ingress", .list [.str "t"])]) := by
  apply convertSub_expected
  · rfl
  rintro d hd
  cases hd
  refine ⟨fun e he => ?_, fun p hp => by cases hp⟩
  rcases List.mem_cons.mp he with rfl | he
  · refine ⟨safe_leaf rfl _, ?_, .inr ?_⟩
    · intro e he
      cases he
      exact .inr (.inr rfl)
    · intro s hs
      cases hs
  rw [List.mem_singleton.mp he]
  refine ⟨?_, fun e _ => ?_, .inl rfl⟩
  · rintro l hl y hy
    cases hl
    rw [List.mem_singleton.mp hy]
    rintro d hd
    cases hd
    refine ⟨fun e he => ?_, fun p hp => by cases hp⟩
    rw [List.mem_singleton.mp he]
    refine ⟨safe_leaf rfl _, ?_, .inl rfl⟩
    intro e he
    cases he
    exact .inl rfl
  · unfold Placed
    split
    · exact .inr (.inl rfl)
    · exact ⟨rfl, .inl rfl⟩

def rewriteSchema : Schema :=
  .node [("path", leaf none), ("value", leaf none), ("valueStr", leaf (some "value"))]
    none none none none true

/-- An empty string that is renamed is lost. -/
theorem empty_valueStr_lost :
    let x : Value := .dict [("path", .str "/a"), ("valueStr", .str "")]
    let e : Value := .dict [("path", .str "/a"), ("value", .str "")]
    expect rewriteSchema x = some e ∧
    ∃ c, convertSub rewriteSchema "rewrite" x = .ok c ∧ c.obj = .dict [("path", .str "/a")] ∧
      ¬c.obj.Same e := by
  refine ⟨rfl, _, rfl, rfl, fun h => ?_⟩
  have hvalue := Value.eqv_dict.mp h.eqv "value"
  cases hvalue

end L7mp.Conversion
