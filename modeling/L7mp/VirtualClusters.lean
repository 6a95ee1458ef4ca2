import L7mp.Dataflow
import L7mp.JsonEncap

/-! The streams of the virtual clusters that transform what is written to them, as processes
that answer one item after the other, and what they make of the bytes that pass. -/
namespace L7mp
open Js Dataflow

/-- What is passed on a pipe: a message, or the end of the stream. -/
abbrev Item := Option Message

instance decidableEnded (past : List Item) : Decidable (none ∈ past) := inferInstance

/-- The messages before the end. -/
def messages : List Item → List Message
  | [] => []
  | none :: _ => []
  | some m :: items => m :: messages items

/-- A stream of Node that transforms. `transform` and `flush` list what they push. -/
structure Transform where
  writableObjectMode : Bool
  readableObjectMode : Bool
  transform : Message → List Message
  flush : List Message

variable (h : NodeJs)

/-- `Buffer.from(arg, enc)` of what is not yet a buffer. -/
def Message.bytes : Message → List UInt8
  | .buffer bytes => bytes
  | .text s => h.utf8 s

namespace Transform

/-- Outside object mode a stream is written buffers. -/
def written (t : Transform) (m : Message) : Message :=
  if t.writableObjectMode then m else .buffer (m.bytes h)

/-- Outside object mode an empty chunk is not emitted. -/
def pushed (t : Transform) (ms : List Message) : List Message :=
  if t.readableObjectMode then ms
  else (ms.map (fun m => .buffer (m.bytes h))).filter (· ≠ .buffer [])

/-- What is emitted for a message. -/
def emitted (t : Transform) (m : Message) : List Message :=
  t.pushed h (t.transform (t.written h m))

/-- What is emitted for an item. What is written after the end is refused. -/
def process (t : Transform) : Process Item := fun past item =>
  if none ∈ past then [] else match item with
  | some m => (t.emitted h m).map some
  | none => (t.pushed h t.flush).map some ++ [none]

end Transform

/-- The clusters whose stream is a transform, with what their stream uses of the spec; `name` is
the name of the cluster. -/
inductive VirtualCluster
  | echo
  | discard
  | logger ( log_file log_prefix : String)
  | jsonEncap
  | jsonDecap
  | metric (name : String)
  deriving DecidableEq, Repr

/-- `miss.through.obj` with two handlers. -/
def Through.stream (t : Through) : Transform where
  writableObjectMode := true
  readableObjectMode := true
  transform m := [t.transform m]
  flush := [t.flush]

namespace VirtualCluster

/-- `_stream` of a session with the metadata. -/
def stream (metadata : Json) : VirtualCluster → Transform
  -- `new stream.PassThrough({readableObjectMode: true})`
  | echo => ⟨false, true, fun arg => [arg], []⟩
  -- the callback is called without a chunk
  | discard => ⟨true, true, fun _ => [], []⟩
  | logger _ _ => ⟨false, false, fun arg => [arg], [.text ""]⟩
  | jsonEncap => (L7mp.jsonEncap h metadata).stream
  | jsonDecap => (L7mp.jsonDecap h).stream
  | metric _ => ⟨true, true, fun arg => [arg], []⟩

/-- What the transform of `LoggerCluster` writes to its log stream. -/
def logMessage ( log_prefix : String) (arg : Message) : Message :=
  if log_prefix = "" then arg else .text ( log_prefix ++ ": " ++ messageText h arg)

end VirtualCluster

/-! ### A transform on a whole stream -/

variable {h} {t : Transform} {metadata : Json}

theorem messages_map_some (ms : List Message) (items : List Item) :
    messages (ms.map some ++ items) = ms ++ messages items := by
  induction ms with
  | nil => rfl
  | cons m ms ih =>
    have hcons := congrArg (m :: ·) ih
    exact hcons

theorem messages_mono {xs ys : List Item} (hxy : xs <+: ys) : messages xs <+: messages ys := by
  obtain ⟨zs, rfl⟩ := hxy
  induction xs with
  | nil => exact List.nil_prefix
  | cons x xs ih =>
    cases x with
    | none => exact List.prefix_rfl
    | some m => exact List.cons_prefix_cons.mpr ⟨rfl, ih⟩

theorem produceFrom_ended (items : List Item) : ∀ past : List Item, none ∈ past →
    produceFrom (t.process h) past items = [] := by
  induction items with
  | nil => exact fun _ _ => rfl
  | cons item items ih =>
    intro past hpast
    have hnext := ih (past ++ [item]) (List.mem_append_left _ hpast)
    have hnow : t.process h past item = [] := if_pos hpast
    rw [produceFrom, hnow, hnext]
    rfl

theorem produceFrom_open (items : List Item) : ∀ past : List Item, none ∉ past →
    produceFrom (t.process h) past items = ((messages items).flatMap (t.emitted h)).map some ++
      if none ∈ items then (t.pushed h t.flush).map some ++ [none] else [] := by
  induction items with
  | nil => exact fun _ _ => rfl
  | cons item items ih =>
    intro past hpast
    cases item with
    | none =>
      have hnow : t.process h past none = (t.pushed h t.flush).map some ++ [none] := if_neg hpast
      have hend : (none : Item) ∈ past ++ [none] := List.mem_append_right _ List.mem_cons_self
      rw [produceFrom, hnow, produceFrom_ended items _ hend, List.append_nil,
        if_pos List.mem_cons_self]
      rfl
    | some m =>
      have hnow : t.process h past (some m) = (t.emitted h m).map some := if_neg hpast
      have hopen : (none : Item) ∉ past ++ [some m] := by simpa using hpast
      have hmem : (none : Item) ∈ some m :: items ↔ none ∈ items := by simp
      rw [produceFrom, hnow, ih _ hopen, ← List.append_assoc, ← List.map_append]
      simp only [hmem]
      rfl

/-- A transform answers the messages before the end one by one, and then the end. -/
theorem produce_process (t : Transform) (items : List Item) :
    produce (t.process h) items = ((messages items).flatMap (t.emitted h)).map some ++
      if none ∈ items then (t.pushed h t.flush).map some ++ [none] else [] :=
  produceFrom_open items [] List.not_mem_nil

/-- The end arrives behind a transform just when it was sent. -/
theorem end_produce (t : Transform) (items : List Item) :
    none ∈ produce (t.process h) items ↔ none ∈ items := by
  rw [produce_process]
  by_cases hend : (none : Item) ∈ items
  · rw [if_pos hend]
    exact iff_of_true (by simp) hend
  · rw [if_neg hend]
    exact iff_of_false (by simp) hend

theorem messages_produce (t : Transform) (items : List Item) :
    messages (produce (t.process h) items) = (messages items).flatMap (t.emitted h) ++
      if none ∈ items then t.pushed h t.flush else [] := by
  rw [produce_process, messages_map_some]
  by_cases hend : (none : Item) ∈ items
  · rw [if_pos hend, if_pos hend, messages_map_some]
    exact congrArg _ (List.append_nil _)
  · rw [if_neg hend, if_neg hend]
    rfl

/-! ### The bytes that pass -/

variable (h)

/-- The bytes of the messages, without the empty ones. -/
def contentOf (ms : List Message) : List (List UInt8) :=
  (ms.map (fun m => m.bytes h)).filter (· ≠ [])

/-- The bytes that were passed before the end. -/
def content (items : List Item) : List (List UInt8) := contentOf h (messages items)

variable {h}

theorem contentOf_append (ms ms' : List Message) :
    contentOf h (ms ++ ms') = contentOf h ms ++ contentOf h ms' := by
  unfold contentOf
  rw [List.map_append, List.filter_append]

theorem contentOf_flatMap (f : Message → List Message) (ms : List Message) :
    contentOf h (ms.flatMap f) = ms.flatMap (fun m => contentOf h (f m)) := by
  induction ms with
  | nil => rfl
  | cons m ms ih => rw [List.flatMap_cons, contentOf_append, ih, List.flatMap_cons]

theorem contentOf_eq_flatMap (ms : List Message) :
    contentOf h ms = ms.flatMap (fun m => contentOf h [m]) := by
  rw [← contentOf_flatMap, List.flatMap_singleton']

theorem content_mono {xs ys : List Item} (hxy : xs <+: ys) : content h xs <+: content h ys :=
  List.IsPrefix.filter _ ((messages_mono hxy).map _)

/-- A stream that passes on, where it may make a buffer of a text and leave out what is empty. -/
structure Transform.Passes (h : NodeJs) (t : Transform) : Prop where
  message : ∀ m, contentOf h (t.emitted h m) = contentOf h [m]
  flush : contentOf h (t.pushed h t.flush) = []

theorem content_produce (ht : t.Passes h) (items : List Item) :
    content h (produce (t.process h) items) = content h items := by
  unfold content
  rw [messages_produce, contentOf_append, contentOf_flatMap]
  have hmessages : (messages items).flatMap (fun m => contentOf h (t.emitted h m)) =
      contentOf h (messages items) := by
    rw [contentOf_eq_flatMap]
    exact List.flatMap_congr (fun m _ => ht.message m)
  have hflush : contentOf h (if none ∈ items then t.pushed h t.flush else []) = [] := by
    split
    · exact ht.flush
    · rfl
  rw [hmessages, hflush, List.append_nil]

/-! ### The clusters -/

/-- What is documented of the functions of Node, for a session with the metadata. -/
structure NodeJs.Faithful (h : NodeJs) (metadata : Json) : Prop where
  utf8_empty : h.utf8 "" = []
  text_utf8 : ∀ s, h.text (h.utf8 s) = s
  parse_empty : h.parse "" = none
  carries : ∀ c, Carries h metadata c

namespace VirtualCluster

/-- `l` is made of clusters that pass on and of pairs of `JSONEncap` and `JSONDecap`. -/
inductive Balanced : List VirtualCluster → Prop
  | nil : Balanced []
  | echo {l} : Balanced l → Balanced (echo :: l)
  | logger {l} ( log_file log_prefix : String) :
      Balanced l → Balanced (logger log_file log_prefix :: l)
  | metric {l} (name : String) : Balanced l → Balanced (metric name :: l)
  | encapsulated {l l'} : Balanced l → Balanced l' →
      Balanced (jsonEncap :: (l ++ jsonDecap :: l'))

variable (h) (metadata)

/-- The process of the stream. -/
def process (v : VirtualCluster) : Process Item := (v.stream h metadata).process h

/-- What `JSONEncap` makes of a message, in bytes. -/
def encapBytes (m : Message) : List UInt8 :=
  h.utf8 (h.stringify (encapsulation metadata (h.toBase64 (m.bytes h))))

variable {h} {metadata}

theorem contentOf_buffer (m : Message) : contentOf h [.buffer (m.bytes h)] = contentOf h [m] := rfl

theorem contentOf_cons (m : Message) (ms : List Message) :
    contentOf h (m :: ms) = contentOf h [m] ++ contentOf h ms := contentOf_append [m] ms

theorem contentOf_nil {m : Message} (hm : m.bytes h = []) : contentOf h [m] = [] := by
  unfold contentOf
  rw [List.map_singleton, hm]
  rfl

theorem contentOf_one {m : Message} (hm : m.bytes h ≠ []) : contentOf h [m] = [m.bytes h] := by
  unfold contentOf
  rw [List.map_singleton, List.filter_cons_of_pos (by simpa using hm)]
  rfl

theorem contentOf_empty (hf : h.Faithful metadata) : contentOf h [.text ""] = [] :=
  contentOf_nil hf.utf8_empty

/-- The chunks that are not emitted outside object mode are empty. -/
theorem contentOf_nonempty (ms : List Message) :
    contentOf h ((ms.map (fun m => Message.buffer (m.bytes h))).filter (· ≠ .buffer [])) =
      contentOf h ms := by
  induction ms with
  | nil => rfl
  | cons m ms ih =>
    rw [contentOf_cons m ms, List.map_cons, List.filter_cons]
    by_cases hm : m.bytes h = []
    · rw [hm, contentOf_nil hm]
      exact ih
    · have hsome : decide (Message.buffer (m.bytes h) ≠ .buffer []) = true := by
        simpa using hm
      rw [if_pos hsome, contentOf_cons, ih]
      rfl

theorem passes_echo : (echo.stream h metadata).Passes h where
  message m := contentOf_buffer m
  flush := rfl

theorem passes_metric (name : String) : ((metric name).stream h metadata).Passes h where
  message _ := rfl
  flush := rfl

theorem passes_logger (hf : h.Faithful metadata) ( log_file log_prefix : String) :
    ((logger log_file log_prefix).stream h metadata).Passes h where
  message m := by
    have hwritten := contentOf_nonempty (h := h) [Message.buffer (m.bytes h)]
    exact hwritten.trans (contentOf_buffer m)
  flush := by
    have hflush := contentOf_nonempty (h := h) [Message.text ""]
    exact hflush.trans (contentOf_empty hf)

/-- The text of an encapsulation is not empty, for it can be parsed. -/
theorem encapBytes_ne (hf : h.Faithful metadata) (m : Message) : encapBytes h metadata m ≠ [] := by
  intro hnil
  have htext : h.stringify (encapsulation metadata (h.toBase64 (m.bytes h))) = "" := by
    have hback := hf.text_utf8 (h.stringify (encapsulation metadata (h.toBase64 (m.bytes h))))
    have hback' := hf.text_utf8 ""
    unfold encapBytes at hnil
    rw [hnil] at hback
    rw [hf.utf8_empty] at hback'
    rw [← hback, hback']
  have hparse := (hf.carries (m.bytes h)).json
  rw [htext, hf.parse_empty] at hparse
  cases hparse

theorem content_encap (hf : h.Faithful metadata) (items : List Item) :
    content h (produce (process h metadata .jsonEncap) items) =
      (messages items).map (encapBytes h metadata) := by
  have hemitted : ∀ m, contentOf h ((jsonEncap.stream h metadata).emitted h m) =
      [encapBytes h metadata m] := by
    intro m
    have htransform : (jsonEncap.stream h metadata).emitted h m =
        [.text (h.stringify (encapsulation metadata (h.toBase64 (m.bytes h))))] := by
      cases m <;> rfl
    rw [htransform]
    exact contentOf_one (encapBytes_ne hf m)
  have hflush : contentOf h
      (if none ∈ items then (jsonEncap.stream h metadata).pushed h [.text ""] else []) = [] := by
    split
    · exact contentOf_empty hf
    · rfl
  unfold content process
  rw [messages_produce, contentOf_append, contentOf_flatMap]
  refine (congrArg _ hflush).trans ?_
  rw [List.append_nil, List.map_eq_flatMap]
  exact List.flatMap_congr (fun m _ => hemitted m)

/-- Only the bytes of a message count for `JSONDecap`. -/
theorem decode_bytes (hf : h.Faithful metadata) (m : Message) :
    decode h (.buffer (m.bytes h)) = decode h m := by
  cases m with
  | buffer bytes => rfl
  | text s =>
    have htext : messageText h (.buffer ((Message.text s).bytes h)) = messageText h (.text s) :=
      hf.text_utf8 s
    unfold decode
    rw [htext]

/-- What `JSONDecap` makes of the bytes of a message. -/
def decapBytes (h : NodeJs) (b : List UInt8) : List (List UInt8) :=
  contentOf h [(L7mp.jsonDecap h).transform (.buffer b)]

theorem transform_bytes (hf : h.Faithful metadata) (m : Message) :
    (L7mp.jsonDecap h).transform (.buffer (m.bytes h)) = (L7mp.jsonDecap h).transform m := by
  unfold L7mp.jsonDecap
  simp only [decode_bytes hf m]

theorem decapBytes_nil (hf : h.Faithful metadata) : decapBytes h [] = [] := by
  have htext : h.text [] = "" := by
    have hback := hf.text_utf8 ""
    rw [hf.utf8_empty] at hback
    exact hback
  have hnone : decode h (.buffer []) = none := by
    change (h.parse (h.text [])).bind _ = none
    rw [htext, hf.parse_empty]
    rfl
  unfold decapBytes
  rw [transform_none hnone]
  exact contentOf_empty hf

theorem content_decap (hf : h.Faithful metadata) (items : List Item) :
    content h (produce (process h metadata .jsonDecap) items) =
      (content h items).flatMap (decapBytes h) := by
  have hemitted : ∀ m, contentOf h ((jsonDecap.stream h metadata).emitted h m) =
      decapBytes h (m.bytes h) := by
    intro m
    have hm := transform_bytes hf m
    change contentOf h [(L7mp.jsonDecap h).transform m] = _
    rw [← hm]
    rfl
  have hflush : contentOf h
      (if none ∈ items then (jsonDecap.stream h metadata).pushed h [.text ""] else []) = [] := by
    split
    · exact contentOf_empty hf
    · rfl
  -- the empty messages are decoded to empty ones
  have hcontent : ∀ ms : List Message,
      ms.flatMap (fun m => decapBytes h (m.bytes h)) = (contentOf h ms).flatMap (decapBytes h) := by
    intro ms
    induction ms with
    | nil => rfl
    | cons m ms ih =>
      rw [contentOf_cons, List.flatMap_append, List.flatMap_cons, ih]
      by_cases hm : m.bytes h = []
      · rw [hm, contentOf_nil hm, decapBytes_nil hf]
        rfl
      · rw [contentOf_one hm, List.flatMap_singleton]
  unfold content process
  rw [messages_produce, contentOf_append, contentOf_flatMap]
  refine (congrArg _ hflush).trans ?_
  rw [List.append_nil, ← hcontent]
  exact List.flatMap_congr (fun m _ => hemitted m)

/-- A message that is encapsulated and decoded again has its bytes. -/
theorem decapBytes_encapBytes (hf : h.Faithful metadata) (m : Message) :
    decapBytes h (encapBytes h metadata m) = contentOf h [m] := by
  have htext := transform_bytes hf
    (.text (h.stringify (encapsulation metadata (h.toBase64 (m.bytes h)))))
  have hback := transform_encap (hf.carries (m.bytes h))
  unfold decapBytes
  change contentOf h [(L7mp.jsonDecap h).transform (.buffer ((Message.text _).bytes h))] = _
  rw [htext, ← contentOf_buffer m, ← hback]
  rfl

/-- Clusters that pass on, and pairs of `JSONEncap` and `JSONDecap`, keep what passes them. -/
theorem content_balanced (hf : h.Faithful metadata) {l : List VirtualCluster} (hl : Balanced l) :
    ∀ items, content h (composite (process h metadata) l items) = content h items := by
  induction hl with
  | nil => exact fun _ => rfl
  | echo _ ih => exact fun items => (ih _).trans (content_produce passes_echo items)
  | logger log_file log_prefix _ ih =>
    exact fun items => (ih _).trans (content_produce (passes_logger hf log_file log_prefix) items)
  | metric name _ ih => exact fun items => (ih _).trans (content_produce (passes_metric name) items)
  | @encapsulated l l' _ _ ih ih' =>
    intro items
    let sealed := produce (process h metadata .jsonEncap) items
    have hsplit : composite (process h metadata) (.jsonEncap :: (l ++ .jsonDecap :: l')) items =
        composite (process h metadata) l'
          (produce (process h metadata .jsonDecap) (composite (process h metadata) l sealed)) :=
      composite_append _ _ _ _
    calc content h (composite (process h metadata) (.jsonEncap :: (l ++ .jsonDecap :: l')) items)
        = content h (produce (process h metadata .jsonDecap)
            (composite (process h metadata) l sealed)) := by rw [hsplit, ih']
      _ = (content h (composite (process h metadata) l sealed)).flatMap (decapBytes h) :=
          content_decap hf _
      _ = ((messages items).map (encapBytes h metadata)).flatMap (decapBytes h) := by
          rw [ih, content_encap hf]
      _ = (messages items).flatMap (fun m => contentOf h [m]) := by
          rw [List.flatMap_map]
          exact List.flatMap_congr (fun m _ => decapBytes_encapBytes hf m)
      _ = content h items := (contentOf_eq_flatMap _).symm

/-- The end passes every chain of clusters. -/
theorem end_composite : ∀ (l : List VirtualCluster) (items : List Item),
    none ∈ composite (process h metadata) l items ↔ none ∈ items
  | [], _ => Iff.rfl
  | v :: l, items => by
    rw [composite, end_composite l]
    exact end_produce (v.stream h metadata) items

/-- Behind a `Discard` nothing arrives before the end. -/
theorem composite_discard (l l' : List VirtualCluster) {items : List Item} (hopen : none ∉ items) :
    composite (process h metadata) (l ++ .discard :: l') items = [] := by
  have hbefore := (@end_composite h metadata l items).not.mpr hopen
  have hdiscard : produce (process h metadata .discard)
      (composite (process h metadata) l items) = [] := by
    change produce ((discard.stream h metadata).process h) _ = []
    rw [produce_process, if_neg hbefore]
    have hnone : ∀ ms : List Message, ms.flatMap ((discard.stream h metadata).emitted h) = [] := by
      intro ms
      exact List.flatMap_eq_nil_iff.mpr (fun _ _ => rfl)
    rw [hnone]
    rfl
  rw [composite_append, composite, hdiscard]
  clear hdiscard hbefore
  induction l' with
  | nil => rfl
  | cons v l' ih => exact ih

end VirtualCluster
end L7mp
