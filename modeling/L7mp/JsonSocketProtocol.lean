import L7mp.GuardedRun
import L7mp.JsonSocketClient
import L7mp.JsonSocketHeader

/-! The handshake between a JSONSocket cluster and a JSONSocket listener, over a transport that
may lose, repeat and reorder the messages. -/
namespace L7mp
open Js GuardedRun

/-- The text of a response header, as JSON. -/
def SocketResponse.json (r : SocketResponse) : Json :=
  .obj (("JSONSocketVersion", .num (.finite r.version)) ::
    (r.status.toList.map (fun n : ℕ => ("JSONSocketStatus", .num (.finite n))) ++
      [("JSONSocketMessage", .str r.message)]))

/-- The client takes the header for an acceptance: it has a status of success, or none. -/
def SocketResponse.Accepts (r : SocketResponse) : Prop :=
  ∀ n, r.status = some n → 200 ≤ n ∧ n ≤ 299

/-- A cluster with a header specification and the metadata of the session that it connects, and
the listener with the metadata of its transport session. `encode` is `JSON.stringify`, as bytes. -/
structure SocketEnds where
  engine : Engine
  metadata : List (String × Value)
  headerDumper : HeaderEntry → String
  header : List HeaderEntry
  client : ClientHost
  listener : JsonSocketListener
  host : Host
  transport : List (String × Json)
  encode : Json → List UInt8

/-- `header` was written by the client, `settled` is its promise, `served` is what `onSession` of
the listener did, and the messages of both directions are on their way. -/
structure SocketState where
  header : Option Json
  settled : Option ConnectOutcome
  served : Option Handshake
  toServer : List (List UInt8)
  toClient : List (List UInt8)

inductive SocketEvent
  -- the cluster writes its header, or gives up
  | request
  -- the `k`th message is the first that the listener gets, or it gets none
  | serve (k : ℕ)
  | unserved (first : FirstMessage)
  -- a session of the listener fails, or sends something to the client
  | error (err : SocketError)
  | payload (bytes : List UInt8)
  -- the `k`th message is the first that the cluster gets, or it gets none
  | answer (k : ℕ)
  | unanswered (r : Received)
  -- the transport
  | lose (up : Bool) (k : ℕ)
  | again (up : Bool) (k : ℕ)

namespace SocketState

def start : SocketState := ⟨none, none, none, [], []⟩

/-- The listener has handled its first message, and its replies are on their way. -/
def serve (o : Handshake) (s : SocketState) : SocketState :=
  { s with served := some o, toClient := s.toClient ++ o.replies.map SocketReply.sent }

/-- There is a session at the listener. -/
def hasSession (s : SocketState) : Bool := s.served.any (fun o => !o.sessions.isEmpty)

end SocketState

namespace SocketEnds

/-- What the cluster writes first. -/
def request (p : SocketEnds) : HeaderOutcome :=
  RequestHeader.request p.engine p.metadata p.headerDumper p.header

def step (p : SocketEnds) (s : SocketState) : SocketEvent → Option SocketState
  | .request =>
    if s.header.isSome ∨ s.settled.isSome then none
    else match p.request with
      | .sent header =>
        some { s with header := some header, toServer := s.toServer ++ [p.encode header] }
      | .unknown err => some { s with settled := some (JsonSocketCluster.reject err) }
      | .thrown => some { s with settled := some (JsonSocketCluster.typeError "TypeError") }
      | .beyond => none
  | .serve k => match s.toServer[k]? with
    | none => none
    | some bytes =>
      if s.served.isSome then none
      else some (SocketState.serve (p.listener.onSession p.host p.transport (.data bytes))
        { s with toServer := s.toServer.eraseIdx k })
  | .unserved (.data _) => none
  | .unserved first =>
    if s.served.isSome then none
    else some (s.serve (p.listener.onSession p.host p.transport first))
  | .error err =>
    if s.hasSession then
      some { s with toClient := s.toClient ++ [(JsonSocketListener.error err).sent] }
    else none
  | .payload bytes =>
    if s.hasSession then some { s with toClient := s.toClient ++ [bytes] } else none
  | .answer k => match s.toClient[k]? with
    | none => none
    | some bytes =>
      if s.header.isNone ∨ s.settled.isSome then none
      else some { s with
        settled := some (JsonSocketCluster.receive p.client (.data bytes))
        toClient := s.toClient.eraseIdx k }
  | .unanswered (.data _) => none
  | .unanswered r =>
    if s.header.isNone ∨ s.settled.isSome then none
    else some { s with settled := some (JsonSocketCluster.receive p.client r) }
  | .lose up k =>
    if up then some { s with toServer := s.toServer.eraseIdx k }
    else some { s with toClient := s.toClient.eraseIdx k }
  | .again up k =>
    if up then some { s with toServer := s.toServer ++ s.toServer[k]?.toList }
    else some { s with toClient := s.toClient ++ s.toClient[k]?.toList }

/-- Each side parses what the other one has made of its header, and a text that was cut off is no
JSON. -/
structure Parses (p : SocketEnds) : Prop where
  header : ∀ header, p.request = .sent header → p.host.parse (p.encode header) = some header
  replies : ∀ header, p.request = .sent header →
    ∀ r ∈ (p.listener.check p.host p.transport header).replies,
      (r.Whole → p.client.parse r.sent = .ok r.response.json) ∧
      (¬r.Whole → ∃ e, p.client.parse r.sent = .error e)

/-- The client has its stream. -/
def Connected (s : SocketState) : Prop := ∃ o, s.settled = some o ∧ o.result = .ok ()

end SocketEnds

/-! ### What the two sides answer -/

namespace JsonSocketListener

variable {l : JsonSocketListener} {h : Host} {m : List (String × Json)} {header : Json}

theorem refuse_version (err : SocketResponse) (herr : err.version = 1) :
    ∀ r ∈ (l.refuse err).replies, r.response.version = 1 := by
  intro r hr
  rw [List.mem_singleton.mp hr]
  exact herr

/-- What is sent when a header is accepted: the errors of the session, and an acknowledgement if it
is routed. -/
theorem accept_replies {r : SocketReply} (hr : r ∈ (l.accept h m header).replies) :
    ∃ n, newName l.sessionName h.getSession = some n ∧
      ((∃ err ∈ (h.router (l.session m header n)).1, r = error err) ∨
        (h.router (l.session m header n)).2 = some 200 ∧ r = .write accepted) := by
  rw [accept_eq] at hr
  cases hn : newName l.sessionName h.getSession with
  | none =>
    rw [hn] at hr
    cases hr
  | some n =>
    rw [hn] at hr
    refine ⟨n, rfl, ?_⟩
    rcases List.mem_append.mp hr with hr | hr
    · obtain ⟨err, herr, rfl⟩ := List.mem_map.mp hr
      exact Or.inl ⟨err, herr, rfl⟩
    · split at hr
      · exact Or.inr ⟨‹_›, List.mem_singleton.mp hr⟩
      · cases hr

theorem check_reply (l : JsonSocketListener) (h : Host) (m : List (String × Json))
    (header : Json) : ∀ r ∈ (l.check h m header).replies, r.response.version = 1 := by
  unfold check
  split
  · exact fun r hr => (by cases hr)
  · split
    · exact refuse_version _ rfl
    · split
      · exact refuse_version _ rfl
      · split
        · exact refuse_version _ rfl
        · intro r hr
          obtain ⟨n, -, ⟨err, -, rfl⟩ | ⟨-, rfl⟩⟩ := accept_replies hr
          · rfl
          · rfl

/-- The listener refuses a header without a session, or it accepts it for its version. -/
theorem check_cases (l : JsonSocketListener) (h : Host) (m : List (String × Json))
    (header : Json) :
    ((l.check h m header).sessions = [] ∧ ∀ r ∈ (l.check h m header).replies,
      r.response.status = some 400 ∨ r.response.status = some 505) ∨
    (∃ v, requestedVersion (some header) = some v ∧ (v = 0 ∨ v = 1)) ∧
      l.check h m header = l.accept h m header := by
  have hrefuse : ∀ err : SocketResponse, err.status = some 400 ∨ err.status = some 505 →
      (l.refuse err).sessions = [] ∧ ∀ r ∈ (l.refuse err).replies,
        r.response.status = some 400 ∨ r.response.status = some 505 := by
    intro err hstatus
    refine ⟨rfl, ?_⟩
    intro r hr
    rw [List.mem_singleton.mp hr]
    exact hstatus
  by_cases hnull : header = .null
  · left
    rw [hnull]
    exact ⟨rfl, fun r hr => (by cases hr)⟩
  rcases hversion : requestedVersion (some header) with _ | v
  · obtain ⟨err, hcheck, -⟩ := check_badRequest (l := l) (h := h) (m := m) hnull hversion
    left
    rw [hcheck]
    exact hrefuse (badRequest err) (Or.inl rfl)
  · obtain ⟨fields, hfields, hlookup⟩ := requestedVersion_some hversion
    cases hfields
    rw [check_version hlookup]
    by_cases hrange : v < 0 ∨ 1 < v
    · left
      rw [if_pos hrange]
      exact hrefuse _ (Or.inr rfl)
    · right
      rw [if_neg hrange]
      exact ⟨⟨v, rfl, by omega⟩, rfl⟩

/-- A header with one of the two versions is accepted. -/
theorem check_accepts {v : ℤ} (hversion : requestedVersion (some header) = some v)
    (hv : v = 0 ∨ v = 1) : l.check h m header = l.accept h m header := by
  obtain ⟨fields, hfields, hlookup⟩ := requestedVersion_some hversion
  cases hfields
  rw [check_version hlookup, if_neg (by omega)]

end JsonSocketListener

namespace JsonSocketCluster

/-- The client accepts a response header of version 1 for its status. -/
theorem receive_response {h : ClientHost} {bytes : List UInt8} {r : SocketResponse}
    (hparse : h.parse bytes = .ok r.json) (hversion : r.version = 1) :
    (receive h (.data bytes)).result = .ok () ↔ r.Accepts := by
  -- the version passes, so that the status decides
  have hreceive : receive h (.data bytes) =
      checkStatus h (r.status.map (fun n : ℕ => .num (.finite n))) := by
    have hone : ((r.version : ℕ) : ℚ) = 1 := by rw [hversion]; rfl
    have hcheck : check h r.json =
        checkStatus h (r.status.map (fun n : ℕ => .num (.finite n))) := by
      unfold SocketResponse.json
      rw [check_supported (q := r.version) rfl]
      · cases r.status <;> rfl
      · rw [hone]
        exact zero_le_one
      · rw [hone]
    rw [receive, hparse]
    exact hcheck
  rw [hreceive]
  unfold SocketResponse.Accepts
  cases r.status with
  -- undefined is out of no range
  | none => exact iff_of_true rfl (fun n hn => (by cases hn))
  | some n =>
    have hrange : outOfRange h (.num (.finite n)) = some (decide (n < 200 ∨ 299 < n)) := by
      have hlow : ((n : ℚ) < 200) ↔ n < 200 := by exact_mod_cast Iff.rfl
      have hhigh : ((299 : ℚ) < n) ↔ 299 < n := by exact_mod_cast Iff.rfl
      simp [outOfRange, Json.toNumber, Number.below, Number.above, hlow, hhigh]
    rw [Option.map_some, checkStatus, hrange]
    by_cases hout : n < 200 ∨ 299 < n
    · rw [decide_eq_true hout]
      refine iff_of_false (fun hok => (by cases hok)) (fun hall => ?_)
      have hin := hall n rfl
      omega
    · rw [decide_eq_false hout]
      refine iff_of_true rfl (fun n' hn' => ?_)
      cases hn'
      omega

/-- What does not parse is not accepted. -/
theorem receive_garbled {h : ClientHost} {bytes : List UInt8} {e : String}
    (hparse : h.parse bytes = .error e) : (receive h (.data bytes)).result ≠ .ok () := by
  intro hok
  rw [receive, hparse] at hok
  cases hok

/-- Without a message the client has no stream. -/
theorem receive_nothing (h : ClientHost) {r : Received} (hr : ∀ bytes, r ≠ .data bytes) :
    (receive h r).result ≠ .ok () := by
  cases r with
  | data bytes => exact absurd rfl (hr bytes)
  | closed argument => cases argument <;> exact fun hok => (by cases hok)
  | failed message => exact fun hok => (by cases hok)
  | timedOut message => exact fun hok => (by cases hok)

end JsonSocketCluster

/-! ### What holds in every run -/

namespace SocketEnds

/-- A message that the client does not take for an acceptance. -/
def Refusal (p : SocketEnds) (b : List UInt8) : Prop :=
  (JsonSocketCluster.receive p.client (.data b)).result ≠ .ok ()

/-- Only the header of the client is on its way to the listener. Unless the handshake of the
listener is a good one, only refusals are on their way back. -/
structure Agreed (p : SocketEnds) (good : Handshake → Prop) (s : SocketState) : Prop where
  sent : ∀ header, s.header = some header → p.request = .sent header
  up : ∀ b ∈ s.toServer, ∃ header, s.header = some header ∧ b = p.encode header
  served : ∀ o, s.served = some o → (o.sessions = [] ∧ o.replies = []) ∨
    ∃ header, s.header = some header ∧ o = p.listener.check p.host p.transport header
  down : ∀ b ∈ s.toClient, ∃ o, s.served = some o ∧ (¬ good o → p.Refusal b)
  settled : Connected s → ∃ o, s.served = some o ∧ good o

/-- The listener refuses where its handshake is not a good one. -/
def Refuses (p : SocketEnds) (good : Handshake → Prop) : Prop :=
  ∀ header, p.request = .sent header → ¬ good (p.listener.check p.host p.transport header) →
    ∀ r ∈ (p.listener.check p.host p.transport header).replies, p.Refusal r.sent

/-- What a session sends to the client does not look like an acceptance, where the handshake is
not a good one. -/
def Admits (p : SocketEnds) (good : Handshake → Prop) (s : SocketState) : SocketEvent → Prop
  | .error err => ∀ o, s.served = some o → o.sessions ≠ [] → ¬ good o →
      p.Refusal (JsonSocketListener.error err).sent
  | .payload bytes => ∀ o, s.served = some o → o.sessions ≠ [] → ¬ good o → p.Refusal bytes
  | _ => True

variable {p : SocketEnds} {s t : SocketState} {good : Handshake → Prop}

/-- The client accepts a reply of the listener just if it is whole and of a status that accepts. -/
theorem refusal_reply_iff (hp : p.Parses) {header : Json} (hsent : p.request = .sent header)
    {r : SocketReply} (hr : r ∈ (p.listener.check p.host p.transport header).replies) :
    ¬p.Refusal r.sent ↔ r.Whole ∧ r.response.Accepts := by
  obtain ⟨hparse, hcut⟩ := hp.replies header hsent r hr
  have hversion := JsonSocketListener.check_reply _ _ _ _ r hr
  unfold Refusal
  rw [not_not]
  by_cases hwhole : r.Whole
  · rw [JsonSocketCluster.receive_response (hparse hwhole) hversion]
    exact ⟨fun haccepts => ⟨hwhole, haccepts⟩, And.right⟩
  · -- a header that was cut off does not parse
    obtain ⟨e, he⟩ := hcut hwhole
    exact iff_of_false (JsonSocketCluster.receive_garbled he) (fun h => hwhole h.1)

theorem refusal_of_status (hp : p.Parses) {header : Json} (hsent : p.request = .sent header)
    {r : SocketReply} (hr : r ∈ (p.listener.check p.host p.transport header).replies)
    (hstatus : r.response.status = some 400 ∨ r.response.status = some 505) :
    p.Refusal r.sent := by
  by_contra haccepted
  have haccepts := ((refusal_reply_iff hp hsent hr).mp haccepted).2
  rcases hstatus with hstatus | hstatus
  · have hrange := haccepts 400 hstatus
    omega
  · have hrange := haccepts 505 hstatus
    omega

theorem agreed_start (p : SocketEnds) (good : Handshake → Prop) : p.Agreed good .start where
  sent _ h := by cases h
  up _ h := by cases h
  served _ h := by cases h
  down _ h := by cases h
  settled h := by
    obtain ⟨o, ho, _⟩ := h
    cases ho

/-- The transport brings nothing that was not sent. -/
theorem Agreed.transport (h : p.Agreed good s) {up down : List (List UInt8)}
    (hup : up ⊆ s.toServer) (hdown : down ⊆ s.toClient) :
    p.Agreed good { s with toServer := up, toClient := down } where
  sent := h.sent
  up b hb := h.up b (hup hb)
  served := h.served
  down b hb := h.down b (hdown hb)
  settled := h.settled

theorem Agreed.request (h : p.Agreed good s) (hnone : s.header = none) {header : Json}
    (hsent : p.request = .sent header) : p.Agreed good
      { s with header := some header, toServer := s.toServer ++ [p.encode header] } where
  sent header' hheader' := by
    cases hheader'
    exact hsent
  up b hb := by
    refine ⟨header, rfl, ?_⟩
    rcases List.mem_append.mp hb with hb | hb
    · obtain ⟨header', hheader', _⟩ := h.up b hb
      rw [hnone] at hheader'
      cases hheader'
    · exact List.mem_singleton.mp hb
  served o ho := by
    refine (h.served o ho).imp_right ?_
    rintro ⟨header', hheader', _⟩
    rw [hnone] at hheader'
    cases hheader'
  down := h.down
  settled := h.settled

/-- The listener has handled the header of the client, or something without an answer. -/
theorem Agreed.serve (h : p.Agreed good s) (hgood : p.Refuses good)
    (hnone : s.served = none) {o : Handshake} (ho : (o.sessions = [] ∧ o.replies = []) ∨
      ∃ header, s.header = some header ∧ o = p.listener.check p.host p.transport header) :
    p.Agreed good (s.serve o) where
  sent := h.sent
  up := h.up
  served o' ho' := by
    cases ho'
    exact ho
  down b hb := by
    refine ⟨o, rfl, ?_⟩
    intro hbad
    rcases List.mem_append.mp hb with hb | hb
    · obtain ⟨o', ho', _⟩ := h.down b hb
      rw [hnone] at ho'
      cases ho'
    · obtain ⟨r, hr, rfl⟩ := List.mem_map.mp hb
      rcases ho with ⟨_, hreplies⟩ | ⟨header, hheader, rfl⟩
      · rw [hreplies] at hr
        cases hr
      · exact hgood header (h.sent header hheader) hbad r hr
  settled hc := by
    obtain ⟨o', ho', _⟩ := h.settled hc
    rw [hnone] at ho'
    cases ho'

/-- A session sends something to the client. -/
theorem Agreed.message (h : p.Agreed good s) (hsession : s.hasSession = true) {b : List UInt8}
    (hb : ∀ o, s.served = some o → o.sessions ≠ [] → ¬ good o → p.Refusal b) :
    p.Agreed good { s with toClient := s.toClient ++ [b] } where
  sent := h.sent
  up := h.up
  served := h.served
  down b' hb' := by
    rcases List.mem_append.mp hb' with hb' | hb'
    · exact h.down b' hb'
    · obtain ⟨o, ho, hne⟩ := (Option.any_eq_true _ _).mp hsession
      rw [List.mem_singleton.mp hb']
      refine ⟨o, ho, hb o ho ?_⟩
      intro hnil
      rw [hnil] at hne
      cases hne
  settled := h.settled

/-- The client is connected by nothing but what is on its way to it, and so not by a refusal. -/
theorem Agreed.settle (h : p.Agreed good s) {o : ConnectOutcome} (ho : o.result = .ok () →
    ∃ b ∈ s.toClient, o = JsonSocketCluster.receive p.client (.data b)) :
    p.Agreed good { s with settled := some o } where
  sent := h.sent
  up := h.up
  served := h.served
  down := h.down
  settled hc := by
    obtain ⟨o', ho', hok⟩ := hc
    cases ho'
    obtain ⟨b, hb, rfl⟩ := ho hok
    obtain ⟨hs, hserved, hrefused⟩ := h.down b hb
    refine ⟨hs, hserved, ?_⟩
    by_contra hbad
    exact hrefused hbad hok

theorem again_subset (l : List (List UInt8)) (k : ℕ) : l ++ l[k]?.toList ⊆ l := by
  intro b hb
  rcases List.mem_append.mp hb with hb | hb
  · exact hb
  · exact List.mem_of_getElem? (Option.mem_toList.mp hb)

theorem Agreed.step (h : p.Agreed good s) (hp : p.Parses) (hgood : p.Refuses good)
    {e : SocketEvent} (hok : p.Admits good s e) (he : p.step s e = some t) : p.Agreed good t := by
  have hsame := List.Subset.refl (α := List UInt8)
  have herase : ∀ (l : List (List UInt8)) (k : ℕ), l.eraseIdx k ⊆ l :=
    fun l k => List.eraseIdx_subset
  cases e with
  | request =>
    simp only [SocketEnds.step] at he
    split at he
    · cases he
    · rename_i hidle
      have hnone : s.header = none := by
        cases hs : s.header with
        | none => rfl
        | some header => exact absurd (Or.inl (by rw [hs]; rfl)) hidle
      split at he
      · rename_i header hsent
        cases he
        exact h.request hnone hsent
      · cases he
        exact h.settle (fun hok => (by cases hok))
      · cases he
        exact h.settle (fun hok => (by cases hok))
      · cases he
  | serve k =>
    simp only [SocketEnds.step] at he
    split at he
    · cases he
    · rename_i bytes hbytes
      split at he
      · cases he
      · rename_i hfree
        cases he
        have hnone : s.served = none := Option.not_isSome_iff_eq_none.mp hfree
        obtain ⟨header, hheader, rfl⟩ := h.up bytes (List.mem_of_getElem? hbytes)
        have hmoved := h.transport (herase s.toServer k) (hsame s.toClient)
        refine Agreed.serve hmoved hgood hnone (Or.inr ⟨header, hheader, ?_⟩)
        rw [JsonSocketListener.onSession, hp.header header (h.sent header hheader)]
  | unserved first =>
    cases first with
    | data bytes => cases he
    | closed =>
      simp only [SocketEnds.step] at he
      split at he
      · cases he
      · rename_i hfree
        cases he
        exact h.serve hgood (Option.not_isSome_iff_eq_none.mp hfree) (Or.inl ⟨rfl, rfl⟩)
    | failed message =>
      simp only [SocketEnds.step] at he
      split at he
      · cases he
      · rename_i hfree
        cases he
        exact h.serve hgood (Option.not_isSome_iff_eq_none.mp hfree) (Or.inl ⟨rfl, rfl⟩)
  | error r =>
    simp only [SocketEnds.step] at he
    split at he
    · rename_i hsession
      cases he
      exact h.message hsession hok
    · cases he
  | payload bytes =>
    simp only [SocketEnds.step] at he
    split at he
    · rename_i hsession
      cases he
      exact h.message hsession hok
    · cases he
  | answer k =>
    simp only [SocketEnds.step] at he
    split at he
    · cases he
    · rename_i bytes hbytes
      split at he
      · cases he
      · cases he
        have hsettled := h.settle (o := JsonSocketCluster.receive p.client (.data bytes))
          (fun _ => ⟨bytes, List.mem_of_getElem? hbytes, rfl⟩)
        exact hsettled.transport (hsame s.toServer) (herase s.toClient k)
  | unanswered r =>
    cases r with
    | data bytes => cases he
    | _ =>
      simp only [SocketEnds.step] at he
      split at he
      · cases he
      · cases he
        apply h.settle
        intro hresult
        refine absurd hresult (JsonSocketCluster.receive_nothing p.client ?_)
        exact fun bytes heq => (by cases heq)
  | lose up k =>
    cases up with
    | true =>
      cases he
      exact h.transport (herase s.toServer k) (hsame s.toClient)
    | false =>
      cases he
      exact h.transport (hsame s.toServer) (herase s.toClient k)
  | again up k =>
    cases up with
    | true =>
      cases he
      exact h.transport (again_subset s.toServer k) (hsame s.toClient)
    | false =>
      cases he
      exact h.transport (hsame s.toServer) (again_subset s.toClient k)

theorem Agreed.run {ok : SocketState → SocketEvent → Prop} (hp : p.Parses)
    (hgood : p.Refuses good) (hok : ∀ s e, ok s e → p.Admits good s e)
    (hrun : Run p.step ok .start s) : p.Agreed good s := by
  refine hrun.invariant ?_ (agreed_start p good)
  intro s e t hs he hstep
  exact hs.step hp hgood (hok s e he) hstep

/-- However the transport treats the messages: when the client has its stream, the listener has
accepted the header that the client wrote, and has started one session that carries it. -/
theorem agreement (p : SocketEnds) (hp : p.Parses) (s : SocketState)
    (hrun : Run p.step always .start s) (hc : Connected s) :
    ∃ header session, p.request = .sent header ∧ s.header = some header ∧
      (∃ o, s.served = some o ∧ o.sessions = [session]) ∧
      session.metadata.lookup "JSONSocket" = some header ∧ session.origin = p.listener.name := by
  -- a good handshake is one with a session
  have hrefuses : p.Refuses (fun o => o.sessions ≠ []) := by
    intro header hsent hbad r hr
    have hnil := not_not.mp hbad
    rcases JsonSocketListener.check_cases p.listener p.host p.transport header with
      ⟨_, hstatus⟩ | ⟨_, haccept⟩
    · exact refusal_of_status hp hsent hr (hstatus r hr)
    · -- a header that is accepted without a session is not answered
      rw [haccept] at hnil hr
      obtain ⟨n, hname, -⟩ := JsonSocketListener.accept_replies hr
      rw [JsonSocketListener.accept_eq, hname] at hnil
      cases hnil
  have hadmits : ∀ s e, always s e → p.Admits (fun o => o.sessions ≠ []) s e := by
    intro s e _
    cases e <;> first | trivial | exact fun o _ hne hbad => absurd hne hbad
  have hagreed := Agreed.run hp hrefuses hadmits hrun
  obtain ⟨o, ho, hne⟩ := hagreed.settled hc
  obtain ⟨header, hheader, rfl⟩ := (hagreed.served o ho).resolve_left (fun h => hne h.1)
  rcases JsonSocketListener.check_cases p.listener p.host p.transport header with
    ⟨hnone, _⟩ | ⟨_, haccept⟩
  · exact absurd hnone hne
  rw [haccept, JsonSocketListener.accept_eq] at hne
  cases hname : newName p.listener.sessionName p.host.getSession with
  | none =>
    rw [hname] at hne
    exact absurd rfl hne
  | some n =>
    refine ⟨header, p.listener.session p.transport header n, hagreed.sent header hheader, hheader,
      ⟨_, ho, ?_⟩, JsonSocketListener.session_metadata .., rfl⟩
    rw [haccept, JsonSocketListener.accept_eq, hname]
    rfl

/-- What the session at the listener sends later on is not taken for an acceptance. -/
def Quiet (p : SocketEnds) (_ : SocketState) : SocketEvent → Prop
  | .error err => p.Refusal (JsonSocketListener.error err).sent
  | .payload bytes => p.Refusal bytes
  | _ => True

/-- The header is made, the listener accepts its version and finds a name for the session, and
the session is routed with status 200, or it reports an error that the client accepts. -/
def Acceptable (p : SocketEnds) : Prop :=
  ∃ header v n, p.request = .sent header ∧
    JsonSocketListener.requestedVersion (some header) = some v ∧ (v = 0 ∨ v = 1) ∧
    newName p.listener.sessionName p.host.getSession = some n ∧
    ((p.host.router (p.listener.session p.transport header n)).2 = some 200 ∨
      ∃ err ∈ (p.host.router (p.listener.session p.transport header n)).1,
        (JsonSocketListener.error err).response.Accepts)

theorem acceptable_of_connected (hp : p.Parses) (hrun : Run p.step p.Quiet .start s)
    (hc : Connected s) : p.Acceptable := by
  -- a good handshake is one with a reply that the client accepts
  have hrefuses : p.Refuses (fun o => ∃ r ∈ o.replies, ¬p.Refusal r.sent) := by
    intro header _ hbad r hr
    by_contra haccepted
    exact hbad ⟨r, hr, haccepted⟩
  have hadmits : ∀ s e, p.Quiet s e →
      p.Admits (fun o => ∃ r ∈ o.replies, ¬p.Refusal r.sent) s e := by
    intro s e hquiet
    cases e with
    | error r => exact fun _ _ _ _ => hquiet
    | payload bytes => exact fun _ _ _ _ => hquiet
    | _ => trivial
  have hagreed := Agreed.run hp hrefuses hadmits hrun
  obtain ⟨o, ho, r, hr, haccepted⟩ := hagreed.settled hc
  rcases hagreed.served o ho with ⟨_, hnone⟩ | ⟨header, hheader, rfl⟩
  · rw [hnone] at hr
    cases hr
  have hsent := hagreed.sent header hheader
  have haccepts := ((refusal_reply_iff hp hsent hr).mp haccepted).2
  rcases JsonSocketListener.check_cases p.listener p.host p.transport header with
    ⟨_, hstatus⟩ | ⟨⟨v, hversion, hv⟩, haccept⟩
  · exact absurd (refusal_of_status hp hsent hr (hstatus r hr)) haccepted
  rw [haccept] at hr
  obtain ⟨n, hname, ⟨err, herr, rfl⟩ | ⟨hrouter, -⟩⟩ := JsonSocketListener.accept_replies hr
  · exact ⟨header, v, n, hsent, hversion, hv, hname, Or.inr ⟨err, herr, haccepts⟩⟩
  · exact ⟨header, v, n, hsent, hversion, hv, hname, Or.inl hrouter⟩

/-- The listener sends something that the client accepts. -/
theorem accepted_of_acceptable (hp : p.Parses) (h : p.Acceptable) :
    ∃ header, p.request = .sent header ∧
      ∃ r ∈ (p.listener.check p.host p.transport header).replies, ¬p.Refusal r.sent := by
  obtain ⟨header, v, n, hsent, hversion, hv, hname, hrouted⟩ := h
  have hreplies : (p.listener.check p.host p.transport header).replies =
      (p.host.router (p.listener.session p.transport header n)).1.map JsonSocketListener.error ++
        if (p.host.router (p.listener.session p.transport header n)).2 = some 200 then
          [.write JsonSocketListener.accepted] else [] := by
    rw [JsonSocketListener.check_accepts hversion hv, JsonSocketListener.accept_eq, hname]
    rfl
  refine ⟨header, hsent, ?_⟩
  rcases hrouted with hrouter | ⟨err, herr, haccepts⟩
  · have hmem : SocketReply.write JsonSocketListener.accepted ∈
        (p.listener.check p.host p.transport header).replies := by
      rw [hreplies, if_pos hrouter]
      exact List.mem_append_right _ (List.mem_singleton_self _)
    refine ⟨_, hmem, (refusal_reply_iff hp hsent hmem).mpr ⟨rfl, ?_⟩⟩
    intro n hn
    cases hn
    decide
  · have hmem : JsonSocketListener.error err ∈
        (p.listener.check p.host p.transport header).replies := by
      rw [hreplies]
      exact List.mem_append_left _ (List.mem_map_of_mem herr)
    exact ⟨_, hmem, (refusal_reply_iff hp hsent hmem).mpr ⟨rfl, haccepts⟩⟩

/-- The run in which the header arrives, and the answer that the client accepts. -/
theorem connected_of_acceptable (hp : p.Parses) (h : p.Acceptable) :
    ∃ s, Run p.step p.Quiet .start s ∧ Connected s := by
  obtain ⟨header, hsent, r, hr, haccepted⟩ := accepted_of_acceptable hp h
  let o := p.listener.check p.host p.transport header
  obtain ⟨k, hk⟩ := List.mem_iff_getElem?.mp (List.mem_map_of_mem (f := SocketReply.sent) hr)
  let asked : SocketState := { SocketState.start with
    header := some header, toServer := [p.encode header] }
  let served := SocketState.serve o { asked with toServer := [] }
  have hdown : served.toClient[k]? = some r.sent := hk
  let outcome := JsonSocketCluster.receive p.client (.data r.sent)
  let settled := { served with settled := some outcome, toClient := served.toClient.eraseIdx k }
  -- the cluster writes its header, the listener gets it, and the client the reply
  have hfirst : p.step .start .request = some asked := by
    simp only [SocketEnds.step, SocketState.start, hsent]
    rfl
  have hsecond : p.step asked (.serve 0) = some served := by
    have honSession : p.listener.onSession p.host p.transport (.data (p.encode header)) = o := by
      rw [JsonSocketListener.onSession, hp.header header hsent]
    simp only [SocketEnds.step, asked, List.getElem?_cons_zero, honSession]
    rfl
  have hthird : p.step served (.answer k) = some settled := by
    simp only [SocketEnds.step, hdown]
    rfl
  refine ⟨settled, ?_, outcome, rfl, not_not.mp haccepted⟩
  have hrun : Run p.step p.Quiet .start asked :=
    Relation.ReflTransGen.single ⟨.request, trivial, hfirst⟩
  have hrun' := Relation.ReflTransGen.tail hrun ⟨.serve 0, trivial, hsecond⟩
  exact Relation.ReflTransGen.tail hrun' ⟨.answer k, trivial, hthird⟩

/-- Unless something that comes later is taken for an answer, a client can get its stream just when
its header is one that the listener accepts, the session finds a name, and it is routed or reports
an error that the client takes for an acceptance. -/
theorem connectable_iff (p : SocketEnds) (hp : p.Parses) :
    (∃ s, Run p.step p.Quiet .start s ∧ Connected s) ↔ p.Acceptable := by
  refine ⟨?_, connected_of_acceptable hp⟩
  rintro ⟨s, hrun, hc⟩
  exact acceptable_of_connected hp hrun hc

/-! ### A run -/

/-- A cluster without a header specification, and a listener whose sessions are routed. -/
def plainEnds : SocketEnds where
  engine := ⟨fun _ _ => false, fun n => toString n⟩
  metadata := []
  headerDumper _ := ""
  header := []
  client := ⟨fun bytes => if bytes = JsonSocketListener.accepted.bytes then
      .ok JsonSocketListener.accepted.json else .error "Unexpected token",
    fun _ => "", fun _ => "", fun _ => none, 2000⟩
  listener := ⟨"js", 0, .udp .server false⟩
  host := ⟨fun _ => false, fun _ => ([], some 200), fun bytes =>
    if bytes = JsonSocketCluster.versionOnly then
      some (.obj [("JSONSocketVersion", .num (.finite 1))]) else none, fun _ => ""⟩
  transport := [("name", .str "UDP:js-transport-listener-0")]
  encode _ := JsonSocketCluster.versionOnly

theorem plainEnds_request :
    plainEnds.request = .sent (.obj [("JSONSocketVersion", .num (.finite 1))]) := rfl

theorem plainEnds_acceptable : plainEnds.Acceptable :=
  ⟨_, 1, _, plainEnds_request, rfl, Or.inr rfl, rfl, Or.inl rfl⟩

theorem plainEnds_parses : plainEnds.Parses where
  header header hheader := by
    rw [plainEnds_request] at hheader
    cases hheader
    rfl
  replies header hheader r hr := by
    rw [plainEnds_request] at hheader
    cases hheader
    rw [JsonSocketListener.check_accepts (v := 1) rfl (Or.inr rfl),
      JsonSocketListener.accept_eq] at hr
    rw [List.mem_singleton.mp hr]
    refine ⟨fun _ => ?_, fun hcut => absurd rfl hcut⟩
    change (if JsonSocketListener.accepted.bytes = JsonSocketListener.accepted.bytes then
      Except.ok JsonSocketListener.accepted.json else .error "Unexpected token") = _
    exact if_pos rfl

theorem agreement_plainEnds : ∃ s, Run plainEnds.step always .start s ∧ Connected s ∧
    ∃ o session, s.served = some o ∧ o.sessions = [session] ∧
      session.metadata.lookup "JSONSocket" = s.header := by
  obtain ⟨s, hrun, hc⟩ := connected_of_acceptable plainEnds_parses plainEnds_acceptable
  have hrun' : Run plainEnds.step always .start s := hrun.mono (fun _ _ _ => trivial)
  obtain ⟨header, session, _, hheader, ⟨o, ho, hsession⟩, hlookup, _⟩ :=
    agreement plainEnds plainEnds_parses s hrun' hc
  refine ⟨s, hrun', hc, o, session, ho, hsession, ?_⟩
  rw [hlookup, hheader]

theorem connectable_iff_plainEnds : ∃ s, Run plainEnds.step plainEnds.Quiet .start s ∧
    Connected s :=
  (connectable_iff plainEnds plainEnds_parses).mpr plainEnds_acceptable

end SocketEnds
end L7mp
