import L7mp.RulePath
import L7mp.JsonSocketServer

/-! The request header of a JSONSocket cluster: what `_stream` makes of the header specification
and of the session metadata, and writes to the stream of the transport. -/
namespace L7mp
open Js

/-- An entry of the header specification: `path`, as a text or as an object with `from` and `to`,
or `set`. Everything else is unknown. -/
inductive HeaderEntry
  | text (path : String)
  | path (source : String) (target : Option String)
  | set (key : String) (value : Value)
  | other

/-- The header that is written; or the stream is destroyed, with an error for the caller; or a
TypeError rejects the promise and does nothing else. -/
inductive HeaderOutcome
  | sent (header : Json)
  | unknown (err : String)
  | thrown
  | beyond

namespace RequestHeader

section Loop

variable (E : Engine) (metadata : List (String × Value))

/-- Copy a value that is truthy from the metadata to the header. -/
def copy (header : Value) (source target : String) : Except AccessError Value :=
  match Rule.getAtPath E (.node false metadata) source with
  | .error e => .error e
  | .ok found => match found.filter Value.truthy with
    | some value => Rule.setAtPath E header target value
    | none => .ok header

/-- The header after an entry; none, if the entry is unknown. -/
def enter (header : Value) : HeaderEntry → Except AccessError (Option Value)
  | .text path => if path = "" then .ok none else (copy E metadata header path "/").map some
  | .path source target => (copy E metadata header source (target.getD "/")).map some
  | .set key value => (Rule.setAtPath E header key value).map some
  | .other => .ok none

/-- The loop over the entries, up to the first one that is unknown. -/
def fill : Value → List HeaderEntry → Except AccessError (Except HeaderEntry Value)
  | header, [] => .ok (.ok header)
  | header, h :: rest => match enter E metadata header h with
    | .error e => .error e
    | .ok none => .ok (.error h)
    | .ok (some header) => fill header rest

def failed : AccessError → HeaderOutcome
  | .typeError => .thrown
  | .beyond => .beyond

/-- Set the version, and write the header. -/
def finish (header : Value) : HeaderOutcome :=
  match Rule.assign "JSONSocketVersion" (.num (.finite 1)) header with
  | .error e => failed e
  | .ok header => .sent header.wire

/-- `_stream`, up to the wait for the response. -/
def request (dumper : HeaderEntry → String) (spec : List HeaderEntry) : HeaderOutcome :=
  match fill E metadata .empty spec with
  | .error e => failed e
  | .ok (.error h) => .unknown ("Unknown JSONSocket header spec: " ++ dumper h)
  | .ok (.ok header) => finish header

end Loop

/-- The path under which an entry asks for a value. -/
def target : HeaderEntry → Option (List String)
  | .text path => if path = "" then none else some (Rule.names "/")
  | .path _ target => some (Rule.names (target.getD "/"))
  | .set key _ => some (Rule.names key)
  | .other => none

/-- The value that an entry asks for: a constant, or what the metadata has under the source. -/
def asked (metadata : List (String × Value)) : HeaderEntry → Option Value
  | .text path => (Value.node false metadata).follow (Rule.names path)
  | .path source _ => (Value.node false metadata).follow (Rule.names source)
  | .set _ value => some value
  | .other => none

/-- The targets do not overlap each other or the version. -/
def Separate (spec : List HeaderEntry) : Prop :=
  (spec.filterMap target).Pairwise Value.Apart ∧
    ∀ t ∈ spec.filterMap target, Value.Apart t ["JSONSocketVersion"]

/-- The stream is destroyed, or a listener gets an object that it accepts, with version 1 and,
where nothing overlaps, all that is asked for. -/
def Promised (metadata : List (String × Value)) (spec : List HeaderEntry) : HeaderOutcome → Prop
  | .sent json => (∃ fields, json = .obj fields) ∧
      json.field "JSONSocketVersion" = some (.num (.finite 1)) ∧
      (Separate spec → ∀ h ∈ spec, ∀ t v, target h = some t → asked metadata h = some v →
        json.at? t = some v.wire) ∧
      ∀ (l : JsonSocketListener) (host : Host) (m : List (String × Json)),
        l.check host m json = l.accept host m json
  | .unknown _ => True
  | .thrown => False
  | .beyond => False

section Condition

variable (E : Engine) (metadata : List (String × Value))

/-- A value can be written under the path. The header becomes nothing but an object. -/
def Written (header : Value) (locs : List String) (value : Value) : Prop :=
  (locs = [] → value.IsObject) ∧ Rule.Writable E header locs

/-- The source can be read, and what is copied from there can be written under the target. -/
def Copied (header : Value) (source target : String) : Prop :=
  source ≠ "" ∧ Rule.Readable E (.node false metadata) (Rule.names source) ∧
    ∀ v, (Value.node false metadata).follow (Rule.names source) = some v → v.truthy = true →
      Written E header (Rule.names target) v

/-- An entry suits the header that the entries before it made. -/
def Fits (header : Value) : HeaderEntry → Prop
  | .text path => path = "" ∨ Copied E metadata header path "/"
  | .path source target => Copied E metadata header source (target.getD "/")
  | .set key value => Written E header (Rule.names key) value
  | .other => True

/-- Every entry, up to one that is unknown, suits the header at its turn. -/
def Fitting : Value → List HeaderEntry → Prop
  | _, [] => True
  | header, h :: rest => Fits E metadata header h ∧
    ∀ next, enter E metadata header h = .ok (some next) → Fitting next rest

end Condition

/-- What the metadata has under the source is truthy. -/
def Truthy (metadata : List (String × Value)) : HeaderEntry → Prop
  | .set _ _ => True
  | h => ∀ v, asked metadata h = some v → v.truthy = true

/-- An entry is unknown, or some targets overlap, or all that is to be copied is truthy. -/
def Complete (metadata : List (String × Value)) (spec : List HeaderEntry) : Prop :=
  (∃ h ∈ spec, target h = none) ∨ (Separate spec → ∀ h ∈ spec, Truthy metadata h)

/-- The value that an entry writes. -/
def written (metadata : List (String × Value)) : HeaderEntry → Option Value
  | .set _ value => some value
  | h => (asked metadata h).filter Value.truthy

theorem truthy_iff (metadata : List (String × Value)) (h : HeaderEntry) :
    Truthy metadata h ↔ written metadata h = asked metadata h := by
  have hfilter : ∀ found : Option Value, (∀ v, found = some v → v.truthy = true) ↔
      found.filter Value.truthy = found := by
    intro found
    rcases found with _ | v
    · exact ⟨fun _ => rfl, fun _ v hv => (by cases hv)⟩
    · rw [Option.filter_eq_some_iff]
      exact ⟨fun h => ⟨rfl, h v rfl⟩, fun h v' hv' => (by cases hv'; exact h.2)⟩
  cases h with
  | set key value => exact ⟨fun _ => rfl, fun _ => trivial⟩
  | text path => exact hfilter _
  | path source dest => exact hfilter _
  | other => exact hfilter _

/-- An entry writes what it asks for, or nothing. -/
theorem written_eq (metadata : List (String × Value)) (h : HeaderEntry) :
    written metadata h = none ∨ written metadata h = asked metadata h := by
  have hfilter : ∀ found : Option Value, found.filter Value.truthy = none ∨
      found.filter Value.truthy = found := by
    intro found
    rcases found with _ | v
    · exact Or.inl rfl
    · by_cases hv : v.truthy = true
      · exact Or.inr (Option.filter_eq_some_iff.mpr ⟨rfl, hv⟩)
      · exact Or.inl (by simp [Option.filter, hv])
  cases h with
  | set key value => exact Or.inr rfl
  | text path => exact hfilter _
  | path source dest => exact hfilter _
  | other => exact Or.inl rfl

variable {E : Engine} {metadata : List (String × Value)}

theorem setAtPath_written {header : Value} {path : String} {value : Value}
    (hobject : header.IsObject) (h : Written E header (Rule.names path) value) :
    ∃ next, Rule.setAtPath E header path value = .ok next ∧ next.IsObject ∧
      (header.Clear (Rule.names path) → next = header.put (Rule.names path) value) := by
  obtain ⟨hroot, hwritable⟩ := h
  unfold Rule.setAtPath
  by_cases hnames : Rule.names path = []
  · rw [if_pos hnames, hnames]
    exact ⟨value, rfl, hroot hnames, fun _ => rfl⟩
  · rw [if_neg hnames]
    obtain ⟨next, hnext, hkeeps⟩ := Rule.setLoop_writable value (Rule.names path) hwritable
    refine ⟨next, hnext, hkeeps hobject, ?_⟩
    intro hclear
    have hput := Rule.setLoop_put value (Rule.names path) hnames hwritable hclear
    exact Except.ok.inj (hnext.symm.trans hput)

/-- The header after an entry that writes a value, or none. -/
def Entered (header next : Value) (t : List String) (value : Option Value) : Prop :=
  next.IsObject ∧ (value = none → next = header) ∧
    ∀ v, value = some v → header.Clear t → next = header.put t v

theorem copy_fits {header : Value} {source target : String} (hobject : header.IsObject)
    (h : Copied E metadata header source target) :
    ∃ next, copy E metadata header source target = .ok next ∧
      Entered header next (Rule.names target)
        (((Value.node false metadata).follow (Rule.names source)).filter Value.truthy) := by
  obtain ⟨hsource, hreadable, hvalue⟩ := h
  obtain ⟨found, hfound, hfilter⟩ := Rule.getAtPath_follow hsource rfl hreadable
  simp only [copy, hfound]
  rw [hfilter]
  rcases hcopied : ((Value.node false metadata).follow (Rule.names source)).filter
    Value.truthy with _ | v
  · refine ⟨header, rfl, hobject, fun _ => rfl, ?_⟩
    intro v hv
    cases hv
  · obtain ⟨hfollow, htruthy⟩ := Option.filter_eq_some_iff.mp hcopied
    obtain ⟨next, hnext, hnextObject, hput⟩ := setAtPath_written hobject (hvalue v hfollow htruthy)
    refine ⟨next, hnext, hnextObject, fun hnone => (by cases hnone), ?_⟩
    intro v' hv'
    cases hv'
    exact hput

/-- An entry that fits is entered, unless it is unknown. -/
theorem enter_fits {header : Value} {h : HeaderEntry} (hobject : header.IsObject)
    (hfits : Fits E metadata header h) :
    (target h = none ∧ enter E metadata header h = .ok none) ∨
      ∃ next t, enter E metadata header h = .ok (some next) ∧ target h = some t ∧
        Entered header next t (written metadata h) := by
  cases h with
  | text path =>
    by_cases hpath : path = ""
    · left
      rw [target, enter, if_pos hpath, if_pos hpath]
      exact ⟨rfl, rfl⟩
    · right
      obtain ⟨next, hnext, hentered⟩ := copy_fits hobject (hfits.resolve_left hpath)
      refine ⟨next, Rule.names "/", ?_, ?_, hentered⟩
      · rw [enter, if_neg hpath, hnext]
        rfl
      · rw [target, if_neg hpath]
  | path source dest =>
    right
    obtain ⟨next, hnext, hentered⟩ := copy_fits hobject hfits
    refine ⟨next, Rule.names (dest.getD "/"), ?_, rfl, hentered⟩
    rw [enter, hnext]
    rfl
  | set key value =>
    right
    obtain ⟨next, hnext, hnextObject, hput⟩ := setAtPath_written hobject hfits
    refine ⟨next, Rule.names key, ?_, rfl, hnextObject, fun hnone => (by cases hnone), ?_⟩
    · rw [enter, hnext]
      rfl
    · intro v hv
      cases hv
      exact hput
  | other => exact Or.inl ⟨rfl, rfl⟩

/-- Entries that fit fill an object. Where they do not overlap, it has under each target what is
written there, or what it had before, and what stood apart from them. -/
theorem fill_fitting (spec : List HeaderEntry) {header : Value} (hobject : header.IsObject)
    (hfitting : Fitting E metadata header spec) :
    (∃ h ∈ spec, target h = none ∧ fill E metadata header spec = .ok (.error h)) ∨
      (∀ h ∈ spec, target h ≠ none) ∧
      ∃ final, fill E metadata header spec = .ok (.ok final) ∧ final.IsObject ∧
        ((spec.filterMap target).Pairwise Value.Apart →
          (∀ t ∈ spec.filterMap target, header.Clear t) →
          (∀ h ∈ spec, ∀ t, target h = some t →
            final.at? t = (written metadata h).or (header.at? t)) ∧
          ∀ q, (∀ t ∈ spec.filterMap target, Value.Apart t q) → final.at? q = header.at? q) := by
  induction spec generalizing header with
  | nil =>
    refine Or.inr ⟨fun h hmem => (by cases hmem), header, rfl, hobject, ?_⟩
    intro _ _
    exact ⟨fun h hmem => (by cases hmem), fun _ _ => rfl⟩
  | cons h rest ih =>
    obtain ⟨hfits, hrest⟩ := hfitting
    rw [fill]
    rcases enter_fits hobject hfits with ⟨htarget, hunknown⟩ | ⟨next, t, hnext, htarget, hentered⟩
    · exact Or.inl ⟨h, List.mem_cons_self, htarget, by rw [hunknown]⟩
    obtain ⟨hobject', hskipped, hput⟩ := hentered
    rw [hnext]
    rcases ih hobject' (hrest next hnext) with ⟨h', hmem, hunknown⟩ |
      ⟨hknown, final, hfinal, hfinalObject, hholds⟩
    · exact Or.inl ⟨h', List.mem_cons_of_mem _ hmem, hunknown⟩
    refine Or.inr ⟨List.forall_mem_cons.mpr ⟨?_, hknown⟩, final, hfinal, hfinalObject, ?_⟩
    · rw [htarget]
      exact Option.some_ne_none t
    intro hpairwise hclear
    rw [List.filterMap_cons_some htarget] at hpairwise hclear ⊢
    obtain ⟨hapart, htail⟩ := List.pairwise_cons.mp hpairwise
    obtain ⟨hclearHead, hclearTail⟩ := List.forall_mem_cons.mp hclear
    -- the entry changes the header at its target, if anywhere
    have hnextAt : next.at? t = (written metadata h).or (header.at? t) ∧
        (∀ q, Value.Apart t q → next.at? q = header.at? q) ∧
        ∀ t' ∈ rest.filterMap target, next.Clear t' := by
      rcases hwritten : written metadata h with _ | v
      · rw [hskipped hwritten]
        exact ⟨rfl, fun _ _ => rfl, hclearTail⟩
      · rw [hput v hwritten hclearHead]
        refine ⟨Value.at?_put v t header, fun q => Value.at?_put_of_apart v t q header, ?_⟩
        intro t' ht'
        exact Value.Clear.put v t t' header (hapart t' ht') (hclearTail t' ht')
    obtain ⟨hat, hframe, hclearNext⟩ := hnextAt
    obtain ⟨hmembers, hframeRest⟩ := hholds htail hclearNext
    refine ⟨List.forall_mem_cons.mpr ⟨?_, ?_⟩, ?_⟩
    · intro t' ht'
      cases htarget.symm.trans ht'
      rw [hframeRest t (fun t' ht' => Value.apart_symm (hapart t' ht')), hat]
    · intro h' hmem t' ht'
      rw [hmembers h' hmem t' ht',
        hframe t' (hapart t' (List.mem_filterMap.mpr ⟨h', hmem, ht'⟩))]
    · intro q hq
      obtain ⟨hhead, hq⟩ := List.forall_mem_cons.mp hq
      rw [hframeRest q hq, hframe q hhead]

/-- The version makes an object acceptable, and leaves what stands apart from it. -/
theorem finish_object {header : Value} (hobject : header.IsObject) :
    ∃ fields, finish header = .sent (.obj fields) ∧
      fields.lookup "JSONSocketVersion" = some (.num (.finite 1)) ∧
      ∀ q, Value.Apart q ["JSONSocketVersion"] →
        (Json.obj fields).at? q = (header.at? q).map Value.wire := by
  have hassign : Rule.assign "JSONSocketVersion" (.num (.finite 1)) header =
      .ok (.node false (setField "JSONSocketVersion" (.num (.finite 1)) header.fields)) := by
    rw [Rule.assign_eq ⟨false, header.fields, hobject, by decide⟩, hobject]
    rfl
  have hput : header.put ["JSONSocketVersion"] (.num (.finite 1)) =
      .node false (setField "JSONSocketVersion" (.num (.finite 1)) header.fields) := rfl
  refine ⟨Value.wireFields (setField "JSONSocketVersion" (.num (.finite 1)) header.fields),
    ?_, ?_, ?_⟩
  · rw [finish, hassign]
    rfl
  · rw [Value.lookup_wireFields, lookup_setField]
    rfl
  · intro q hapart
    show (Value.node false _).wire.at? q = _
    rw [Value.at?_wire, ← hput, Value.at?_put_of_apart _ _ _ _ (Value.apart_symm hapart)]

/-- When every entry fits the header that the entries before it made, the request is what was
promised exactly when it is complete. -/
theorem promised_iff (E : Engine) (metadata : List (String × Value))
    (dumper : HeaderEntry → String) (spec : List HeaderEntry)
    (hfitting : Fitting E metadata .empty spec) :
    Promised metadata spec (request E metadata dumper spec) ↔ Complete metadata spec := by
  have hempty : Value.empty.IsObject := rfl
  unfold request
  rcases fill_fitting spec hempty hfitting with ⟨h, hmem, htarget, hfill⟩ |
    ⟨hknown, final, hfill, hobject, hholds⟩
  · rw [hfill]
    exact ⟨fun _ => Or.inl ⟨h, hmem, htarget⟩, fun _ => trivial⟩
  obtain ⟨fields, hfinish, hversion, hframe⟩ := finish_object hobject
  -- what the listener gets under a target
  have hat : Separate spec → ∀ h ∈ spec, ∀ t, target h = some t →
      (Json.obj fields).at? t = (written metadata h).map Value.wire := by
    rintro ⟨hpairwise, hapart⟩ h hmem t ht
    have htapart := hapart t (List.mem_filterMap.mpr ⟨h, hmem, ht⟩)
    obtain ⟨hmembers, -⟩ := hholds hpairwise (fun t _ => Value.clear_empty t)
    have hnothing : Value.empty.at? t = none := by
      cases t with
      | nil => exact absurd htapart (Value.not_apart_nil _)
      | cons k rest => rfl
    rw [hframe t htapart, hmembers h hmem t ht, hnothing, Option.or_none]
  rw [hfill]
  show Promised metadata spec (finish final) ↔ _
  rw [hfinish]
  refine ⟨?_, ?_⟩
  · rintro ⟨-, -, hheld, -⟩
    right
    intro hseparate h hmem
    rw [truthy_iff]
    rcases written_eq metadata h with hnothing | heq
    · -- nothing is under the target, so that nothing was asked for
      obtain ⟨t, ht⟩ := Option.ne_none_iff_exists'.mp (hknown h hmem)
      have htarget := hat hseparate h hmem t ht
      rcases hasked : asked metadata h with _ | v
      · exact hnothing
      · rw [hheld hseparate h hmem t v ht hasked, hnothing] at htarget
        cases htarget
    · exact heq
  · intro hcomplete
    have htruthy : Separate spec → ∀ h ∈ spec, Truthy metadata h := by
      rcases hcomplete with ⟨h, hmem, hnone⟩ | htruthy
      · exact absurd hnone (hknown h hmem)
      · exact htruthy
    refine ⟨⟨fields, rfl⟩, hversion, ?_, ?_⟩
    · intro hseparate h hmem t v ht hv
      rw [hat hseparate h hmem t ht, (truthy_iff metadata h).mp (htruthy hseparate h hmem), hv]
      rfl
    · intro l host m
      have hlookup : fields.lookup "JSONSocketVersion" = some (.num (.finite ((1 : ℤ) : ℚ))) := by
        rw [hversion, Int.cast_one]
      rw [JsonSocketListener.check_version hlookup]
      exact if_neg (by decide)

/-- An address and a constant make a header. -/
theorem address_promised :
    let E : Engine := ⟨fun _ k => k = "__proto__" || k = "toString", fun n => toString n⟩
    let metadata : List (String × Value) :=
      [("name", .str "s"), ("IP", .node false [("src_addr", .str "10.0.0.1")])]
    let spec : List HeaderEntry :=
      [.path "/IP/src_addr" (some "/client/addr"), .set "env" (.bool false)]
    request E metadata (fun _ => "") spec = .sent (.obj
      [("client", .obj [("addr", .str "10.0.0.1")]), ("env", .bool false),
        ("JSONSocketVersion", .num (.finite 1))]) ∧
    Promised metadata spec (request E metadata (fun _ => "") spec) := by
  intro E metadata spec
  have hnames : Rule.names "/IP/src_addr" = ["IP", "src_addr"] ∧
      Rule.names "/client/addr" = ["client", "addr"] ∧ Rule.names "env" = ["env"] :=
    ⟨rfl, rfl, rfl⟩
  have hfirst : enter E metadata .empty (.path "/IP/src_addr" (some "/client/addr")) =
      .ok (some (.node false [("client", .node false [("addr", .str "10.0.0.1")])])) := rfl
  have hsecond : enter E metadata (.node false [("client", .node false [("addr",
      .str "10.0.0.1")])]) (.set "env" (.bool false)) = .ok (some (.node false
        [("client", .node false [("addr", .str "10.0.0.1")]), ("env", .bool false)])) := rfl
  refine ⟨?_, ?_⟩
  · show request E metadata _ [_, _] = _
    simp only [request, fill, hfirst, hsecond]
    rfl
  apply (promised_iff E metadata (fun _ => "") spec ?_).mpr
  · right
    intro _ h hmem
    rcases List.mem_pair.mp hmem with heq | heq
    · subst heq
      intro v hv
      have hv' : some (Value.str "10.0.0.1") = some v := hv
      cases hv'
      decide
    · subst heq
      trivial
  · refine ⟨⟨by decide, ?_, ?_⟩, ?_⟩
    · rw [hnames.1]
      refine ⟨by decide, ?_, fun hnone => by cases hnone⟩
      intro u hu
      have hu' : some (Value.node false [("src_addr", .str "10.0.0.1")]) = some u := hu
      cases hu'
      refine ⟨by decide, fun _ _ => trivial, fun hnone => by cases hnone⟩
    · intro v _ _
      rw [Option.getD_some, Written, hnames.2.1]
      refine ⟨fun hnil => (by cases hnil), by decide, rfl, ?_, fun _ _ => rfl, ?_, ?_⟩
      · intro _
        exact ⟨false, [], rfl, by decide⟩
      · intro u hu
        cases hu
      · intro _
        refine ⟨by decide, rfl, ?_, fun hnil => absurd rfl hnil, fun _ _ => trivial,
          fun _ => trivial⟩
        intro _
        exact ⟨false, [], rfl, by decide⟩
    · intro next hnext
      cases hfirst.symm.trans hnext
      refine ⟨?_, fun _ _ => trivial⟩
      show Written E _ (Rule.names "env") _
      rw [Written, hnames.2.2]
      refine ⟨fun hnil => (by cases hnil), by decide, rfl, ?_, fun hnil => absurd rfl hnil,
        fun _ _ => trivial, fun _ => trivial⟩
      intro _
      exact ⟨false, _, rfl, by decide⟩

/-- A metadata value that is falsy does not get into the header. -/
theorem zero_skipped :
    let E : Engine := ⟨fun _ k => k = "__proto__" || k = "toString", fun n => toString n⟩
    let metadata : List (String × Value) := [("priority", .num (.finite 0))]
    let spec : List HeaderEntry := [.path "/priority" (some "/priority")]
    request E metadata (fun _ => "") spec =
      .sent (.obj [("JSONSocketVersion", .num (.finite 1))]) ∧
    ¬ Promised metadata spec (request E metadata (fun _ => "") spec) := by
  intro E metadata spec
  refine ⟨rfl, ?_⟩
  rintro ⟨-, -, hheld, -⟩
  have hseparate : Separate spec := by
    have htargets : spec.filterMap target = [["priority"]] := rfl
    rw [Separate, htargets]
    refine ⟨List.pairwise_singleton _ _, ?_⟩
    intro t ht
    rw [List.mem_singleton.mp ht]
    decide
  have hvalue := hheld hseparate (.path "/priority" (some "/priority")) (List.mem_singleton.mpr rfl)
    ["priority"] (.num (.finite 0)) rfl rfl
  cases hvalue

end RequestHeader
end L7mp
