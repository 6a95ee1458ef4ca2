import L7mp.JsonText
import L7mp.Names
import L7mp.StoreConfig

/-! The handshake of a JSONSocket listener: what `onSession` does with the first message of a new
transport session, and where its promise goes when it is rejected. -/
namespace L7mp
open Js

/-- A response header. The status of an error that has none is left out. -/
structure SocketResponse where
  version : ℕ
  status : Option ℕ
  message : String
  deriving DecidableEq, Repr

/-- What the transport stream brings first: a message, or the end of the wait for one. -/
inductive FirstMessage
  | data (bytes : List UInt8)
  | closed
  | failed (message : String)
  deriving DecidableEq, Repr

/-- A session as `emitSession` passes it on. -/
structure EmittedSession where
  metadata : List (String × Json)
  origin : String
  deriving Repr

/-- What a promise is rejected with: an error, or the argument of a `close` event. -/
inductive Rejection
  | error (message : String)
  | close
  deriving DecidableEq, Repr

namespace SocketResponse

/-- `JSON.stringify` of the header; its braces are the characters 123 and 125. -/
def text (r : SocketResponse) : List Char :=
  Char.ofNat 123 :: (quote "JSONSocketVersion" ++ ':' :: (Nat.toDigits 10 r.version ++
    (r.status.elim [] (fun n => ',' :: (quote "JSONSocketStatus" ++ ':' :: Nat.toDigits 10 n)) ++
      ',' :: (quote "JSONSocketMessage" ++ ':' :: (quote r.message ++ [Char.ofNat 125])))))

def bytes (r : SocketResponse) : List UInt8 := utf8 r.text

theorem all_text (r : SocketResponse) :
    r.text.all ascii = r.message.toList.all ascii := by
  have hversion : (quote "JSONSocketVersion").all ascii = true := by decide
  have hstatus : (quote "JSONSocketStatus").all ascii = true := by decide
  have hmessage : (quote "JSONSocketMessage").all ascii = true := by decide
  have hcolon : ascii ':' = true := by decide
  have hcomma : ascii ',' = true := by decide
  have hleft : ascii (Char.ofNat 123) = true := by decide
  have hright : ascii (Char.ofNat 125) = true := by decide
  unfold text
  cases r.status <;> simp only [Option.elim, List.all_cons, List.all_append, List.all_nil,
    List.nil_append, hversion, hstatus, hmessage, hcolon, hcomma, hleft, hright, all_toDigits,
    all_quote, Bool.true_and, Bool.and_true]

end SocketResponse

/-- A response header with the bytes that the transport has sent of it. -/
structure SocketReply where
  response : SocketResponse
  sent : List UInt8
  deriving DecidableEq, Repr

namespace SocketReply

/-- The header arrives as it is. -/
def Whole (r : SocketReply) : Prop := r.sent = r.response.bytes

/-- `stream.write(text)`. -/
def write (r : SocketResponse) : SocketReply := ⟨r, r.bytes⟩

/-- `stream.end(text)`. A `DatagramStream` takes the length of the text for its number of bytes. -/
def end_ (datagram : Bool) (r : SocketResponse) : SocketReply :=
  ⟨r, if datagram then r.bytes.take (unitCount r.text) else r.bytes⟩

theorem whole_end_iff (datagram : Bool) (r : SocketResponse) :
    (end_ datagram r).Whole ↔ (datagram = true → r.message.toList.all ascii = true) := by
  rw [← r.all_text, ← take_utf8_iff]
  change (if datagram = true then (utf8 r.text).take (unitCount r.text) else utf8 r.text) =
    utf8 r.text ↔ _
  cases datagram with
  | false =>
    rw [if_neg Bool.false_ne_true]
    exact iff_of_true rfl nofun
  | true =>
    rw [if_pos rfl]
    exact ⟨fun h _ => h, fun h => h rfl⟩

end SocketReply

/-- The response headers and sessions of a handshake, and the status its promise resolves to or
what it is rejected with. -/
structure Handshake where
  replies : List SocketReply
  sessions : List EmittedSession
  result : Except Rejection (Option ℕ)

/-- `mode` of a UDP listener is 'server', by its options or by default. -/
def UdpMode.isServer (connect : Bool) : UdpMode → Bool
  | unset => !connect
  | singleton => false
  | server => true

/-- The caller of the emitter catches a rejection: only `runServer` of a UDP listener does, and a
JSONSocket listener hands it on to the caller of its own transport. -/
def ListenerProtocol.catches : ListenerProtocol → Rejection → Bool
  | udp mode connect, .error _ => mode.isServer connect
  -- the handler reads `message` of undefined, and throws
  | udp _ _, .close => false
  | jsonSocket transport, e => transport.catches e
  | _, _ => false

/-- The streams of the transport are datagram streams. -/
def ListenerProtocol.isDatagram : ListenerProtocol → Bool
  | udp _ _ => true
  | jsonSocket transport => transport.isDatagram
  | _ => false

/-- A JSONSocket listener, with its next session id. -/
structure JsonSocketListener where
  name : String
  sessionId : ℕ
  transport : ListenerProtocol

/-- An error that a session fails with; `content` is the text of a content that is truthy. -/
structure SocketError where
  status : Option ℕ
  message : String
  content : Option String

/-- The rest of the proxy: the sessions that `getSession` finds, the errors that a session reports
until `router` resolves and the status that it resolves to, and the standard functions that the
listener calls. -/
structure Host where
  getSession : String → Bool
  router : EmittedSession → List SocketError × Option ℕ
  parse : List UInt8 → Option Json
  dumper : Json → String

/-- `error(priv, err)`, by which a session reports an error. -/
def JsonSocketListener.error (err : SocketError) : SocketReply :=
  .write ⟨1, err.status, err.message ++ err.content.elim "" (fun content => ": " ++ content)⟩

/-- `addSession`: the session that it starts with the errors that this one reports, and its
result. -/
def Host.addSession (h : Host) (name : String) (s : EmittedSession) : Handshake :=
  match newName name h.getSession with
  | none => ⟨[], [], .error (.error ("Cannot create new name from " ++ name ++
      ": Could not find new name after" ++ toString maxNameAttempts ++ "iterations"))⟩
  | some n =>
    let s := { s with metadata := setField "name" (.str n) s.metadata }
    let r := h.router s
    ⟨r.1.map JsonSocketListener.error, [s], .ok r.2⟩

namespace JsonSocketListener

def badRequest (err : String) : SocketResponse := ⟨1, some 400, "Bad Request: " ++ err⟩

def notSupported (err : String) : SocketResponse := ⟨1, some 505, "Bad Request: " ++ err⟩

def accepted : SocketResponse := ⟨1, some 200, "OK"⟩

/-- Reply, and return a `BadRequestError`. -/
def refuse (l : JsonSocketListener) (reply : SocketResponse) : Handshake :=
  ⟨[.end_ l.transport.isDatagram reply], [], .ok (some 400)⟩

/-- `isInteger`, for a value of any type. -/
def isIntegerNumber : Json → Bool
  | .num x => x.isInteger
  | _ => false

/-- The version is out of range. -/
def unsupported : Json → Bool
  | .num x => x.below 0 || x.above 1
  | _ => false

def sessionName (l : JsonSocketListener) : String :=
  "JSONSocket:" ++ l.name ++ "-" ++ toString l.sessionId

/-- The session for a header that is accepted, with the acknowledgement. -/
def accept (l : JsonSocketListener) (h : Host) (m : List (String × Json)) (header : Json) :
    Handshake :=
  let m := setField "JSONSocket" header (setField "name" (.str l.sessionName) m)
  let o := h.addSession l.sessionName ⟨m, l.name⟩
  match o.result with
  | .ok (some 200) => { o with replies := o.replies ++ [.write accepted] }
  | _ => o

/-- The checks of the header. -/
def check (l : JsonSocketListener) (h : Host) (m : List (String × Json)) : Json → Handshake
  | .null => ⟨[], [], .error (.error "Cannot read property 'JSONSocketVersion' of null")⟩
  | header => match header.field "JSONSocketVersion" with
    -- the text of the error is not put into this reply
    | none => l.refuse (badRequest "err")
    | some version =>
      if !isIntegerNumber version then
        l.refuse (badRequest ("JSONSocket version info is not numeric/integer in header: " ++
          h.dumper header))
      else if unsupported version then
        l.refuse (notSupported ("Unsupported JSONSocket version in header: " ++ h.dumper header))
      else l.accept h m header

/-- `onSession`, for a transport session with metadata `m`. -/
def onSession (l : JsonSocketListener) (h : Host) (m : List (String × Json)) :
    FirstMessage → Handshake
  | .closed => ⟨[], [], .error .close⟩
  | .failed message => ⟨[], [], .error (.error message)⟩
  | .data bytes => match h.parse bytes with
    | none => l.refuse (badRequest "Invalid JSON header")
    | some header => l.check h m header

/-- A rejection of `onSession` that nobody catches. -/
def escapes (l : JsonSocketListener) (o : Handshake) : Prop :=
  ∃ e, o.result = .error e ∧ l.transport.catches e = false

/-- The version that a message asks for, if it is an object with an integer version. -/
def requestedVersion : Option Json → Option ℤ
  | some (.obj fields) => match fields.lookup "JSONSocketVersion" with
    | some (.num (.finite q)) => if q.den = 1 then some q.num else none
    | _ => none
  | _ => none

/-- There is one reply, with this status, and it arrives whole. -/
def Replies (o : Handshake) (status : ℕ) : Prop :=
  ∃ r, o.replies = [r] ∧ r.response.status = some status ∧ r.Whole

/-- The message gets what it asks for: an error reply and no session, or one session with the
header that was received. -/
def Served (o : Handshake) (header : Option Json) : Prop :=
  (requestedVersion header = none → Replies o 400 ∧ o.sessions = []) ∧
  (∀ v, requestedVersion header = some v → ¬ (v = 0 ∨ v = 1) →
    Replies o 505 ∧ o.sessions = []) ∧
  (∀ v, requestedVersion header = some v → v = 0 ∨ v = 1 →
    ∃ s, o.sessions = [s] ∧ s.metadata.lookup "JSONSocket" = header)

/-- The handshake serves the message, if there is one, and nothing escapes. -/
def Answers (l : JsonSocketListener) (h : Host) (o : Handshake) : FirstMessage → Prop
  | .data bytes => Served o (h.parse bytes) ∧ ¬ l.escapes o
  | _ => ¬ l.escapes o

/-- The header has a version, but none that is supported. -/
def Quoted (header : Json) : Prop :=
  header.field "JSONSocketVersion" ≠ none ∧
    ∀ v, requestedVersion (some header) = some v → ¬ (v = 0 ∨ v = 1)

/-- The header is not JSON null, a session that it may start finds a name, and over a datagram
stream it is not quoted with characters outside ASCII. -/
def Acceptable (l : JsonSocketListener) (h : Host) (header : Json) : Prop :=
  header ≠ .null ∧
  (requestedVersion (some header) = some 0 ∨ requestedVersion (some header) = some 1 →
    (newName l.sessionName h.getSession).isSome = true) ∧
  (l.transport.isDatagram = true → Quoted header → (h.dumper header).toList.all ascii = true)

/-- A message that is JSON is an acceptable header. Without a message, the transport has failed and
is one that catches that. -/
def Answerable (l : JsonSocketListener) (h : Host) : FirstMessage → Prop
  | .data bytes => ∀ header, h.parse bytes = some header → l.Acceptable h header
  | .closed => False
  | .failed message => l.transport.catches (.error message) = true

theorem refuse_not_escapes (l : JsonSocketListener) (r : SocketResponse) :
    ¬ l.escapes (l.refuse r) := by
  intro h
  obtain ⟨e, he, -⟩ := h
  cases he

/-- A transport that closes is never caught. -/
theorem catches_close (t : ListenerProtocol) : t.catches .close = false := by
  induction t with
  | jsonSocket transport ih => exact ih
  | _ => rfl

/-- What is refused arrives whole, unless a datagram stream cuts it off. -/
theorem replies_refuse_iff (l : JsonSocketListener) (r : SocketResponse) {status : ℕ}
    (hstatus : r.status = some status) : Replies (l.refuse r) status ↔
      (l.transport.isDatagram = true → r.message.toList.all ascii = true) := by
  rw [← SocketReply.whole_end_iff]
  constructor
  · rintro ⟨r', hr', -, hwhole⟩
    cases hr'
    exact hwhole
  · intro hwhole
    exact ⟨_, rfl, hstatus, hwhole⟩

/-- A header with an integer version is an object. -/
theorem requestedVersion_some {header : Option Json} {v : ℤ}
    (h : requestedVersion header = some v) : ∃ fields, header = some (.obj fields) ∧
      fields.lookup "JSONSocketVersion" = some (.num (.finite v)) := by
  unfold requestedVersion at h
  split at h
  · rename_i fields
    split at h
    · rename_i q hq
      split at h
      · rename_i hden
        cases h
        refine ⟨fields, rfl, ?_⟩
        rw [hq, Rat.coe_int_num_of_den_eq_one hden]
      · cases h
    · cases h
  · cases h

/-- Without a version that is an integer, a header other than null is a bad request, which quotes
the header if it has a version. -/
theorem check_badRequest {l : JsonSocketListener} {h : Host} {m : List (String × Json)}
    {header : Json} (hnull : header ≠ .null) (hv : requestedVersion (some header) = none) :
    ∃ err, l.check h m header = l.refuse (badRequest err) ∧
      (err.toList.all ascii = true ↔
        (Quoted header → (h.dumper header).toList.all ascii = true)) := by
  have hfield : ∀ version, header.field "JSONSocketVersion" = some version →
      isIntegerNumber version = false := by
    intro version hversion
    cases header with
    | obj fields =>
      have hlookup : fields.lookup "JSONSocketVersion" = some version := hversion
      rcases version with _ | _ | (q | neg) | _ | _ | _ <;> try rfl
      -- a finite number that is an integer would be the version
      simp only [requestedVersion, hlookup] at hv
      by_cases hden : q.den = 1
      · rw [if_pos hden] at hv
        cases hv
      · simp [isIntegerNumber, Number.isInteger, hden]
    | _ => cases hversion
  have hquoted : Quoted header ↔ header.field "JSONSocketVersion" ≠ none :=
    ⟨And.left, fun hne => ⟨hne, fun v hsome => by rw [hv] at hsome; cases hsome⟩⟩
  rw [hquoted]
  unfold check
  split
  · exact absurd rfl hnull
  · split
    · rename_i hnone
      exact ⟨_, rfl, fun _ hne => absurd hnone hne, fun _ => by decide⟩
    · rename_i version hversion
      rw [hfield version hversion]
      refine ⟨_, rfl, ?_⟩
      rw [all_append (by decide), hversion]
      exact ⟨fun hdump _ => hdump, fun hdump => hdump (Option.some_ne_none version)⟩

theorem check_version {l : JsonSocketListener} {h : Host} {m : List (String × Json)}
    {fields : List (String × Json)} {v : ℤ}
    (hv : fields.lookup "JSONSocketVersion" = some (.num (.finite v))) :
    l.check h m (.obj fields) = if v < 0 ∨ 1 < v then
      l.refuse (notSupported ("Unsupported JSONSocket version in header: " ++
        h.dumper (.obj fields)))
    else l.accept h m (.obj fields) := by
  have hfield : (Json.obj fields).field "JSONSocketVersion" = some (.num (.finite v)) := hv
  have hint : isIntegerNumber (.num (.finite v)) = true := by
    simp [isIntegerNumber, Number.isInteger]
  have hrange : unsupported (.num (.finite v)) = true ↔ v < 0 ∨ 1 < v := by
    simp only [unsupported, Number.below, Number.above, Bool.or_eq_true, decide_eq_true_eq]
    norm_cast
  simp only [check, hfield, hint, Bool.not_true, Bool.false_eq_true, if_false]
  by_cases h : v < 0 ∨ 1 < v
  · rw [if_pos (hrange.mpr h), if_pos h]
  · rw [if_neg (fun hu => h (hrange.mp hu)), if_neg h]

/-- The session that is started for a header, under the name `n`. -/
def session (l : JsonSocketListener) (m : List (String × Json)) (header : Json) (n : String) :
    EmittedSession :=
  ⟨setField "name" (.str n) (setField "JSONSocket" header
    (setField "name" (.str l.sessionName) m)), l.name⟩

/-- A header is accepted if there is a name for its session. -/
theorem accept_eq {l : JsonSocketListener} {h : Host} {m : List (String × Json)} {header : Json} :
    l.accept h m header = (newName l.sessionName h.getSession).elim
      ⟨[], [], .error (.error ("Cannot create new name from " ++ l.sessionName ++
        ": Could not find new name after" ++ toString maxNameAttempts ++ "iterations"))⟩
      (fun n =>
        let r := h.router (l.session m header n)
        ⟨r.1.map error ++ if r.2 = some 200 then [.write accepted] else [],
          [l.session m header n], .ok r.2⟩) := by
  unfold accept Host.addSession
  cases hn : newName l.sessionName h.getSession with
  | none => rfl
  | some n =>
    dsimp only [Option.elim]
    split
    -- the acknowledgement comes after the errors that the session has reported
    · rename_i heq
      have hrouter : (h.router (l.session m header n)).2 = some 200 := Except.ok.inj heq
      rw [if_pos hrouter]
      rfl
    · rename_i hne
      have hrouter : (h.router (l.session m header n)).2 ≠ some 200 :=
        fun heq => hne (congrArg Except.ok heq)
      rw [if_neg hrouter, List.append_nil]
      rfl

theorem session_metadata (l : JsonSocketListener) (m : List (String × Json)) (header : Json)
    (n : String) : (l.session m header n).metadata.lookup "JSONSocket" = some header := by
  unfold session
  rw [lookup_setField_ne (by decide), lookup_setField]

/-- Without an integer version the message is served by a reply of status 400. -/
theorem served_none_iff {o : Handshake} {header : Option Json}
    (hversion : requestedVersion header = none) (hnone : o.sessions = []) :
    Served o header ↔ Replies o 400 := by
  unfold Served
  rw [hversion]
  exact ⟨fun hs => (hs.1 rfl).1, fun hr => ⟨fun _ => ⟨hr, hnone⟩, nofun, nofun⟩⟩

/-- And with a version that is not supported by one of status 505. -/
theorem served_unsupported_iff {o : Handshake} {header : Option Json} {v : ℤ}
    (hversion : requestedVersion header = some v) (hv : ¬(v = 0 ∨ v = 1))
    (hnone : o.sessions = []) : Served o header ↔ Replies o 505 := by
  unfold Served
  rw [hversion]
  refine ⟨fun hs => (hs.2.1 v rfl hv).1, fun hr => ⟨nofun, fun _ _ _ => ⟨hr, hnone⟩, ?_⟩⟩
  intro v' hv' hsupported
  cases hv'
  exact absurd hsupported hv

/-- Null is not served: its version is asked for outside of the try block. -/
theorem null_not_served (l : JsonSocketListener) (h : Host) (m : List (String × Json)) :
    ¬Served (l.check h m .null) (some .null) := by
  intro hserved
  obtain ⟨⟨r, hr, -⟩, -⟩ := hserved.1 rfl
  cases hr

/-- A header without an integer version is served just if the reply arrives whole. -/
theorem check_serves_none {l : JsonSocketListener} {h : Host} {m : List (String × Json)}
    {header : Json} (hnull : header ≠ .null) (hversion : requestedVersion (some header) = none) :
    (Served (l.check h m header) (some header) ∧ ¬ l.escapes (l.check h m header)) ↔
      l.Acceptable h header := by
  obtain ⟨err, hcheck, hascii⟩ := check_badRequest (l := l) (h := h) (m := m) hnull hversion
  have hreplies : Replies (l.refuse (badRequest err)) 400 ↔ (l.transport.isDatagram = true →
      Quoted header → (h.dumper header).toList.all ascii = true) := by
    rw [replies_refuse_iff l _ rfl, ← hascii]
    exact forall_congr' fun _ => iff_of_eq (congrArg (· = true) (all_append (by decide) err))
  unfold Acceptable
  rw [hcheck, served_none_iff hversion rfl, hreplies, hversion]
  constructor
  · intro hgood
    refine ⟨hnull, fun hsome => ?_, hgood.1⟩
    rcases hsome with hsome | hsome <;> cases hsome
  · intro hgood
    exact ⟨hgood.2.2, refuse_not_escapes l _⟩

/-- A header with a version out of range is quoted, and served just if the reply arrives whole. -/
theorem check_serves_unsupported {l : JsonSocketListener} {h : Host} {m : List (String × Json)}
    {fields : List (String × Json)} {v : ℤ}
    (hversion : requestedVersion (some (.obj fields)) = some v)
    (hlookup : fields.lookup "JSONSocketVersion" = some (.num (.finite v))) (hv : v < 0 ∨ 1 < v) :
    (Served (l.check h m (.obj fields)) (some (.obj fields)) ∧
      ¬ l.escapes (l.check h m (.obj fields))) ↔ l.Acceptable h (.obj fields) := by
  have hno : ¬(v = 0 ∨ v = 1) := by omega
  have hquoted : Quoted (.obj fields) := by
    refine ⟨?_, fun v' hv' => ?_⟩
    · rw [show (Json.obj fields).field "JSONSocketVersion" = _ from hlookup]
      exact Option.some_ne_none _
    · cases hversion.symm.trans hv'
      exact hno
  have hreplies : Replies (l.refuse (notSupported ("Unsupported JSONSocket version in header: " ++
      h.dumper (.obj fields)))) 505 ↔ (l.transport.isDatagram = true →
        (h.dumper (.obj fields)).toList.all ascii = true) := by
    rw [replies_refuse_iff l _ rfl]
    refine forall_congr' fun _ => iff_of_eq (congrArg (· = true) ?_)
    calc ("Bad Request: " ++ ("Unsupported JSONSocket version in header: " ++
          h.dumper (.obj fields))).toList.all ascii
        = ("Unsupported JSONSocket version in header: " ++
          h.dumper (.obj fields)).toList.all ascii := all_append (by decide) _
      _ = (h.dumper (.obj fields)).toList.all ascii := all_append (by decide) _
  unfold Acceptable
  rw [check_version hlookup, if_pos hv, served_unsupported_iff hversion hno rfl, hreplies, hversion]
  constructor
  · intro hgood
    refine ⟨nofun, fun hsome => absurd ?_ hno, fun hdatagram _ => hgood.1 hdatagram⟩
    exact hsome.imp Option.some.inj Option.some.inj
  · intro hgood
    exact ⟨fun hdatagram => hgood.2.2 hdatagram hquoted, refuse_not_escapes l _⟩

/-- A header that is accepted is served just if a name is left. -/
theorem accept_serves {l : JsonSocketListener} {h : Host} {m : List (String × Json)}
    {header : Json} {v : ℤ} (hnull : header ≠ .null)
    (hversion : requestedVersion (some header) = some v) (hv : v = 0 ∨ v = 1) :
    (Served (l.accept h m header) (some header) ∧ ¬ l.escapes (l.accept h m header)) ↔
      l.Acceptable h header := by
  have hquoted : ¬Quoted header := fun hq => hq.2 v hversion hv
  have hsome : some v = some 0 ∨ some v = some 1 := hv.imp (congrArg some) (congrArg some)
  unfold Acceptable
  rw [accept_eq, hversion]
  cases hname : newName l.sessionName h.getSession with
  | none =>
    refine ⟨?_, fun hgood => absurd (hgood.2.1 hsome) (by simp)⟩
    intro hserved
    obtain ⟨s, hs, -⟩ := hserved.1.2.2 v hversion hv
    cases hs
  | some n =>
    refine ⟨fun _ => ⟨hnull, fun _ => rfl, fun _ hq => absurd hq hquoted⟩, fun _ => ⟨?_, ?_⟩⟩
    · refine ⟨fun hnone => ?_, fun v' hv' hrange => ?_, fun _ _ _ => ?_⟩
      · rw [hversion] at hnone
        cases hnone
      · cases hversion.symm.trans hv'
        exact absurd hv hrange
      · exact ⟨_, rfl, session_metadata l m header n⟩
    · rintro ⟨e, he, -⟩
      cases he

/-- A header that parses is served just if it is acceptable. -/
theorem check_serves_iff (l : JsonSocketListener) (h : Host) (m : List (String × Json))
    (header : Json) :
    (Served (l.check h m header) (some header) ∧ ¬ l.escapes (l.check h m header)) ↔
      l.Acceptable h header := by
  by_cases hnull : header = .null
  · subst hnull
    exact iff_of_false (fun hs => null_not_served l h m hs.1) (fun hgood => hgood.1 rfl)
  rcases hversion : requestedVersion (some header) with _ | v
  · exact check_serves_none hnull hversion
  obtain ⟨fields, hfields, hlookup⟩ := requestedVersion_some hversion
  cases hfields
  by_cases hrange : v < 0 ∨ 1 < v
  · exact check_serves_unsupported hversion hlookup hrange
  · rw [check_version hlookup, if_neg hrange]
    exact accept_serves hnull hversion (by omega)

/-- A handshake answers its first message, and lets nothing escape, exactly when the message is no
JSON or an acceptable header; and where no message comes, when the transport has failed and
catches that. -/
theorem answers_iff (l : JsonSocketListener) (h : Host) (m : List (String × Json))
    (first : FirstMessage) :
    Answers l h (l.onSession h m first) first ↔ Answerable l h first := by
  have hrejected : ∀ e, ¬ l.escapes ⟨[], [], .error e⟩ ↔ l.transport.catches e = true := by
    intro e
    simp [escapes]
  cases first with
  | closed =>
    -- the handler of a UDP server throws as well
    refine (hrejected .close).trans ?_
    rw [catches_close]
    exact ⟨Bool.false_ne_true, False.elim⟩
  | failed message => exact hrejected (.error message)
  | data bytes =>
    unfold Answers Answerable onSession
    dsimp only
    cases hparse : h.parse bytes with
    | none =>
      refine ⟨fun _ => nofun, fun _ => ⟨⟨fun _ => ⟨?_, rfl⟩, nofun, nofun⟩,
        refuse_not_escapes l _⟩⟩
      refine (replies_refuse_iff l _ rfl).mpr (fun _ => ?_)
      decide
    | some header =>
      dsimp only
      rw [check_serves_iff]
      exact ⟨fun hgood header' hheader' => Option.some.inj hheader' ▸ hgood,
        fun hall => hall header rfl⟩

/-- The message `null` is answered by nothing, and the rejection escapes from a TCP transport. -/
theorem null_unanswered :
    let l : JsonSocketListener := ⟨"js", 0, .tcp⟩
    let h : Host := ⟨fun _ => false, fun _ => ([], some 200),
      fun bytes => if bytes = [110, 117, 108, 108] then some .null else none, fun _ => ""⟩
    let o := l.onSession h [] (.data [110, 117, 108, 108])
    o.replies = [] ∧ o.sessions.length = 0 ∧ l.escapes o ∧
      ¬ Answers l h o (.data [110, 117, 108, 108]) := by
  refine ⟨rfl, rfl, ⟨_, rfl, rfl⟩, ?_⟩
  intro hanswers
  exact hanswers.2 ⟨_, rfl, rfl⟩

end JsonSocketListener
end L7mp
