import L7mp.Json

/-! The transforms of the clusters `JSONEncap` and `JSONDecap`, and what a stream of messages
becomes when it passes both. -/
namespace L7mp
open Js

/-- What is written to a stream in object mode, and what it emits. -/
inductive Message
  | buffer (bytes : List UInt8)
  | text (s : String)
  deriving DecidableEq, Repr

/-- `miss.through.obj`. Both handlers call back once, and what they pass on is emitted. -/
structure Through where
  transform : Message → Message
  flush : Message

namespace Through

/-- What is emitted while the stream is written to. -/
def emit (t : Through) (messages : List Message) : List Message := messages.map t.transform

/-- All that is emitted up to the end of the stream. -/
def finish (t : Through) (messages : List Message) : List Message := t.emit messages ++ [t.flush]

end Through

/-- The functions of Node. `bufferFrom` is `Buffer.from(v, 'base64')`, and no result of `parse` or
`bufferFrom` is an exception. -/
structure NodeJs where
  stringify : Json → String
  parse : String → Option Json
  toBase64 : List UInt8 → String
  bufferFrom : Json → Option (List UInt8)
  utf8 : String → List UInt8
  text : List UInt8 → String

/-- What `JSONEncap` makes a text of. -/
def encapsulation (metadata : Json) (payload : String) : Json :=
  .obj [("metadata", metadata), ("payload", .str payload)]

variable (h : NodeJs)

def jsonEncap (metadata : Json) : Through where
  transform arg :=
    let ret := match arg with
      | .buffer bytes => bytes
      | .text s => h.utf8 s
    .text (h.stringify (encapsulation metadata (h.toBase64 ret)))
  flush := .text ""

/-- The text that a message is parsed as. -/
def messageText : Message → String
  | .buffer bytes => h.text bytes
  | .text s => s

/-- The `try` block. -/
def decode (arg : Message) : Option (List UInt8) := do
  let json ← h.parse (messageText h arg)
  let payload ← json.field "payload"
  h.bufferFrom payload

def jsonDecap : Through where
  transform arg :=
    match decode h arg with
    | some ret => .buffer ret
    -- the exception is caught, and `ret` is still the empty string
    | none => .text ""
  flush := .text ""

/-! ### What comes through -/

/-- A chunk is the same after its way through text, JSON and base64. -/
structure Carries (metadata : Json) (c : List UInt8) : Prop where
  json : h.parse (h.stringify (encapsulation metadata (h.toBase64 c))) =
    some (encapsulation metadata (h.toBase64 c))
  base64 : h.bufferFrom (.str (h.toBase64 c)) = some c

/-- Both transforms, one after the other, and then the end. -/
def roundTrip (metadata : Json) (chunks : List (List UInt8)) : List Message :=
  (jsonDecap h).finish ((jsonEncap h metadata).finish (chunks.map .buffer))

def IsEncapsulation (g : Message) : Prop :=
  ∃ metadata c, messageText h g = h.stringify (encapsulation metadata (h.toBase64 c))

variable {h} {metadata : Json}

theorem transform_some {arg : Message} {ret : List UInt8} (hdecode : decode h arg = some ret) :
    (jsonDecap h).transform arg = .buffer ret := by
  unfold jsonDecap
  simp only [hdecode]

theorem transform_none {arg : Message} (hdecode : decode h arg = none) :
    (jsonDecap h).transform arg = .text "" := by
  unfold jsonDecap
  simp only [hdecode]

theorem transform_encap {c : List UInt8} (hc : Carries h metadata c) :
    (jsonDecap h).transform ((jsonEncap h metadata).transform (.buffer c)) = .buffer c := by
  apply transform_some
  change (h.parse (h.stringify (encapsulation metadata (h.toBase64 c)))).bind _ = some c
  rw [hc.json]
  exact hc.base64

/-- Up to the end of the stream nothing is lost, added or out of order. -/
theorem emit_encap {chunks : List (List UInt8)} (hcarries : ∀ c ∈ chunks, Carries h metadata c) :
    (jsonDecap h).emit ((jsonEncap h metadata).emit (chunks.map .buffer)) =
      chunks.map .buffer := by
  induction chunks with
  | nil => rfl
  | cons c chunks ih =>
    have hc := transform_encap (hcarries c List.mem_cons_self)
    have hchunks := ih (fun c' hc' => hcarries c' (List.mem_cons_of_mem c hc'))
    change (jsonDecap h).transform ((jsonEncap h metadata).transform (.buffer c)) ::
      (jsonDecap h).emit ((jsonEncap h metadata).emit (chunks.map .buffer)) = _
    rw [hc, hchunks]
    rfl

theorem emit_append (t : Through) (before after : List Message) :
    t.emit (before ++ after) = t.emit before ++ t.emit after := List.map_append

theorem length_finish (t : Through) (messages : List Message) :
    (t.finish messages).length = messages.length + 1 := by
  unfold Through.finish Through.emit
  rw [List.length_append, List.length_map, List.length_singleton]

theorem length_roundTrip (chunks : List (List UInt8)) :
    (roundTrip h metadata chunks).length = chunks.length + 2 := by
  unfold roundTrip
  rw [length_finish, length_finish, List.length_map]

/-- The end of each transform is an empty message. -/
theorem roundTrip_eq {chunks : List (List UInt8)} (hempty : h.parse "" = none)
    (hcarries : ∀ c ∈ chunks, Carries h metadata c) :
    roundTrip h metadata chunks = chunks.map .buffer ++ [.text "", .text ""] := by
  have hend : (jsonDecap h).transform (.text "") = .text "" := by
    apply transform_none
    change (h.parse "").bind _ = none
    rw [hempty]
    rfl
  calc roundTrip h metadata chunks
      = (jsonDecap h).emit ((jsonEncap h metadata).emit (chunks.map .buffer) ++ [.text ""]) ++
          [.text ""] := rfl
    _ = (chunks.map .buffer ++ [(jsonDecap h).transform (.text "")]) ++ [.text ""] := by
        rw [emit_append, emit_encap hcarries]
        rfl
    _ = (chunks.map .buffer ++ [.text ""]) ++ [.text ""] := by rw [hend]
    _ = chunks.map .buffer ++ [.text "", .text ""] := List.append_assoc _ _ _

/-- A message that cannot be decoded comes out as an empty one; the others are decoded as if it
were absent. -/
theorem finish_garbage {g : Message} (hg : decode h g = none) (before after : List Message) :
    (jsonDecap h).finish (before ++ g :: after) =
      (jsonDecap h).emit before ++ .text "" :: (jsonDecap h).finish after := by
  have htransform : (jsonDecap h).transform g = .text "" := transform_none hg
  unfold Through.finish
  rw [emit_append, List.append_assoc]
  change _ ++ (((jsonDecap h).transform g :: (jsonDecap h).emit after) ++ _) = _
  rw [htransform]
  rfl

/-- No stream comes through without two more messages at its end, and no message that is not an
encapsulation is left out. The chunks themselves come through, and the messages around one that
cannot be decoded do. -/
theorem roundTrip_adds (h : NodeJs) :
    (∀ metadata chunks, roundTrip h metadata chunks ≠ chunks.map .buffer) ∧
    (∀ before g after, ¬ IsEncapsulation h g →
      (jsonDecap h).finish (before ++ g :: after) ≠ (jsonDecap h).finish (before ++ after)) ∧
    (∀ metadata chunks, h.parse "" = none → (∀ c ∈ chunks, Carries h metadata c) →
      roundTrip h metadata chunks = chunks.map .buffer ++ [.text "", .text ""]) ∧
    (∀ before g after, decode h g = none →
      (jsonDecap h).finish (before ++ g :: after) =
        (jsonDecap h).emit before ++ .text "" :: (jsonDecap h).finish after) := by
  refine ⟨?_, ?_, ?_, ?_⟩
  · intro metadata chunks heq
    have hlen := congrArg List.length heq
    rw [length_roundTrip, List.length_map] at hlen
    omega
  · intro before g after _ heq
    have hlen := congrArg List.length heq
    rw [length_finish, length_finish, List.length_append, List.length_append,
      List.length_cons] at hlen
    omega
  · intro metadata chunks hempty hcarries
    exact roundTrip_eq hempty hcarries
  · intro before g after hg
    exact finish_garbage hg before after

/-! ### A run -/

/-- The text of an encapsulation without metadata. -/
def nullText (payload : String) : String :=
  "\x7b\"metadata\":null,\"payload\":\"" ++ payload ++ "\"\x7d"

/-- Node on the payloads 01 02 and nothing, without metadata. -/
def node12 : NodeJs where
  stringify v := match v.field "payload" with
    | some (.str payload) => nullText payload
    | _ => ""
  parse s :=
    if s = nullText "AQI=" then some (encapsulation .null "AQI=")
    else if s = nullText "" then some (encapsulation .null "")
    else none
  toBase64 bytes := if bytes = [1, 2] then "AQI=" else ""
  bufferFrom v := match v with
    | .str payload => some (if payload = "AQI=" then [1, 2] else [])
    | _ => none
  utf8 s := s.toUTF8.toList
  text bytes := String.ofList (bytes.map (fun b => Char.ofNat b.toNat))

theorem roundTrip_adds_node12 :
    roundTrip node12 .null [[1, 2], []] = [.buffer [1, 2], .buffer [], .text "", .text ""] ∧
    (jsonDecap node12).finish [.text "dummy"] = [.text "", .text ""] :=
  ⟨(roundTrip_adds node12).2.2.1 .null [[1, 2], []] (by decide) (by
      intro c hc
      simp only [List.mem_cons, List.not_mem_nil, or_false] at hc
      rcases hc with rfl | rfl <;> exact ⟨rfl, rfl⟩),
    (roundTrip_adds node12).2.2.2 [] (.text "dummy") [] (by decide)⟩

/-- Two chunks are sent and four messages arrive; a text that is not JSON leaves a trace. -/
theorem roundTrip_not_inverse :
    ¬ (roundTrip node12 .null [[1, 2], []] = [.buffer [1, 2], .buffer []] ∧
      (jsonDecap node12).finish [.text "dummy"] = (jsonDecap node12).finish []) := by
  intro hboth
  exact absurd (congrArg List.length hboth.1) (by decide)

end L7mp
