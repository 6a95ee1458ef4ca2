import L7mp.JsonText
import L7mp.SessionTerminal

/-! Errors of a session of an HTTP listener: what `error` of the listener writes on the response,
and how often the response head is written while the session runs. -/
namespace L7mp
open GuardedRun Js

/-- An error object, as `error` reads it; `isOk` says that it is an instance of `Ok`. -/
structure HttpError where
  isOk : Bool
  status : Option ℤ
  message : String
  content : Option Json
  deriving Repr

/-- A call of `error`: it throws, or it sends a response with this Content-Length and with a body
of this many bytes. -/
inductive HttpReport
  | threw (message : String)
  | sent (contentLength bytes : ℕ)
  deriving DecidableEq, Repr

def HttpReport.throws : HttpReport → Bool
  | threw _ => true
  | sent _ _ => false

namespace HttpError

/-- The value that is sent as the body; undefined properties are left out. -/
def json (e : HttpError) : Option Json :=
  if e.isOk then e.content
  else some (.obj (e.status.toList.map (fun n => ("status", .num (.finite n))) ++
    ("message", .str e.message) :: e.content.toList.map (fun v => ("content", v))))

/-- `statusCode |= 0`. -/
def statusCode (e : HttpError) : ℤ := Int.bmod (e.status.getD 0) (2 ^ 32)

/-- A character that Node takes in a header. -/
def headerChar (c : Char) : Bool :=
  c.toNat = 9 || (32 ≤ c.toNat && c.toNat ≤ 126) || (128 ≤ c.toNat && c.toNat ≤ 255)

/-- The error that `writeHead` throws, if any. -/
def writeHead (headSent : Bool) (e : HttpError) : Option String :=
  if headSent then some "Cannot write headers after they are sent to the client"
  else if e.statusCode < 100 ∨ 999 < e.statusCode then
    some ("Invalid status code: " ++ (e.status.map toString).getD "undefined")
  else if e.message.toList.all headerChar then none
  else some "Invalid character in statusMessage"

/-- `error` of the listener. -/
def report (f : NumberFormat) (headSent : Bool) (e : HttpError) : HttpReport :=
  match e.json with
  | none => .threw "Cannot read property 'length' of undefined"
  | some json => match e.writeHead headSent with
    | some err => .threw err
    | none => .sent (unitCount (stringify f [] json)) (byteLength (stringify f [] json))

/-- A status code, a message that may stand in a header, and a body of ASCII text. -/
def Sendable (e : HttpError) : Prop :=
  (100 ≤ e.statusCode ∧ e.statusCode ≤ 999) ∧ e.message.toList.all headerChar = true ∧
    (e.isOk = true → e.content.isSome = true) ∧
    (e.isOk = false → e.message.toList.all ascii = true) ∧ e.content.all Json.isAscii = true

instance (e : HttpError) : Decidable e.Sendable :=
  inferInstanceAs (Decidable (_ ∧ _))

end HttpError

/-- The error was sent, and its Content-Length is right. -/
def HttpReport.Fine (r : HttpReport) : Prop := ∃ n, r = .sent n n

namespace HttpError

theorem writeHead_none {headSent : Bool} {e : HttpError} : e.writeHead headSent = none ↔
    headSent = false ∧ (100 ≤ e.statusCode ∧ e.statusCode ≤ 999) ∧
      e.message.toList.all headerChar = true := by
  unfold writeHead
  split_ifs with hsent hcode hmessage
  · simp [hsent]
  · refine ⟨nofun, ?_⟩
    rintro ⟨-, hrange, -⟩
    omega
  · simp only [true_iff]
    exact ⟨eq_false_of_ne_true hsent, by omega, hmessage⟩
  · simp [hmessage]

theorem json_isAscii {e : HttpError} {v : Json} (h : e.json = some v) :
    v.isAscii = true ↔ (e.isOk = false → e.message.toList.all ascii = true) ∧
      e.content.all Json.isAscii = true := by
  unfold json at h
  split at h
  · rename_i hok
    rw [h]
    simp [hok]
  · rename_i hok
    cases h
    have hkeys : "status".toList.all ascii = true ∧ "message".toList.all ascii = true ∧
        "content".toList.all ascii = true := by decide
    have hstatus : fieldsAscii (e.status.toList.map
        (fun n : ℤ => ("status", .num (.finite n)))) = true := by
      cases e.status with
      | none => rfl
      | some n => simp only [Option.toList_some, List.map_cons, List.map_nil, fieldsAscii,
          Json.isAscii, hkeys, Bool.and_true]
    have hcontent : fieldsAscii (e.content.toList.map (fun v => ("content", v))) =
        e.content.all Json.isAscii := by
      cases e.content with
      | none => rfl
      | some v => simp only [Option.toList_some, List.map_cons, List.map_nil, fieldsAscii,
          hkeys, Bool.and_true, Bool.true_and, Option.all_some]
    rw [Json.isAscii, fieldsAscii_append, hstatus, fieldsAscii, hcontent, hkeys.2.1, Json.isAscii]
    simp [hok]

/-- Exactly a sendable error is sent, with the right length, and only in front of anything else. -/
theorem report_fine_iff (f : NumberFormat) (headSent : Bool) (e : HttpError) :
    (e.report f headSent).Fine ↔ headSent = false ∧ e.Sendable := by
  have hthrew : ∀ err, ¬ (HttpReport.threw err).Fine := by
    rintro err ⟨n, h⟩
    cases h
  have hcontent : e.json = none ↔ e.isOk = true ∧ e.content = none := by
    unfold json
    split <;> simp_all
  unfold report
  rcases hjson : e.json with _ | v
  · obtain ⟨hok, hnone⟩ := hcontent.mp hjson
    refine ⟨fun h => absurd h (hthrew _), ?_⟩
    rintro ⟨-, -, -, hsome, -⟩
    have := hsome hok
    rw [hnone] at this
    cases this
  have hsome : e.isOk = true → e.content.isSome = true := by
    intro hok
    rcases hc : e.content with _ | c
    · rw [hcontent.mpr ⟨hok, hc⟩] at hjson
      cases hjson
    · rfl
  rcases hhead : e.writeHead headSent with _ | err
  · obtain ⟨hsent, hcode, hmessage⟩ := writeHead_none.mp hhead
    have hfine : (HttpReport.sent (unitCount (stringify f [] v))
        (byteLength (stringify f [] v))).Fine ↔ v.isAscii = true := by
      calc _ ↔ unitCount (stringify f [] v) = byteLength (stringify f [] v) := by
            constructor
            · rintro ⟨n, h⟩
              rw [HttpReport.sent.injEq] at h
              exact h.1.trans h.2.symm
            · intro h
              exact ⟨_, by rw [h]⟩
        _ ↔ (stringify f [] v).all ascii = true := unitCount_eq_byteLength_iff _
        _ ↔ v.isAscii = true := by rw [all_stringify f v [] rfl]
    show (HttpReport.sent _ _).Fine ↔ _
    rw [hfine, json_isAscii hjson]
    exact ⟨fun h => ⟨hsent, hcode, hmessage, hsome, h⟩, fun h => h.2.2.2.2⟩
  · refine ⟨fun h => absurd h (hthrew err), ?_⟩
    rintro ⟨hsent, hcode, hmessage, -⟩
    rw [writeHead_none.mpr ⟨hsent, hcode, hmessage⟩] at hhead
    cases hhead

end HttpError

/-- A session of an HTTP listener: whether the head of its response was sent, how often a head was
written, and what the calls of `error` did. -/
structure HttpSession where
  session : Session
  headSent : Bool
  heads : ℕ
  reports : List HttpReport

namespace HttpSession
open Lifecycle (Move)

/-- A session event, with the error that it reports if it reports one, and a write on the response
stream. -/
inductive Event
  | session (e : Session.Event) (err : HttpError)
  | write

def isError : Move → Bool
  | .error _ => true
  | _ => false

/-- The response head is written. -/
def sendHead (s : HttpSession) : HttpSession :=
  ⟨s.session, true, if s.headSent then s.heads else s.heads + 1, s.reports⟩

/-- What the response becomes by a call of `error`. -/
def record (r : HttpReport) (s : HttpSession) : HttpSession :=
  match r with
  | .threw _ => ⟨s.session, s.headSent, s.heads, s.reports ++ [r]⟩
  | .sent _ _ => ⟨s.session, true, s.heads + 1, s.reports ++ [r]⟩

/-- A session event calls `error` of the listener with the state of the response, and goes on as the
call ends. Node writes the head with the first piece of the body, which a pipe brings, or with
the end of the stream. -/
def step (f : NumberFormat) (s : HttpSession) : Event → Option HttpSession
  | .session e err => (s.session.step e).bind (fun t =>
    if (s.session.moves e).any isError then
      let r := err.report f s.headSent
      if .error r.throws ∈ s.session.moves e then
        some (({ s with session := t } : HttpSession).record r)
      else none
    else some { s with session := t })
  | .write =>
    if s.session.pipes.any (fun p => p.2 = s.session.source.id) || s.session.closing.contains 0 then
      some s.sendHead
    else none

/-- The session before anything is sent. -/
def created (s : Session) : HttpSession := ⟨s, false, 0, []⟩

/-- `addSession`, for a session that cannot be created with error `err`. -/
def start (f : NumberFormat) (name : String) (id : ℕ) (origin : String) (err : HttpError) :
    Session.Start → HttpSession
  | .failed track lookedUp _ =>
    (created (Session.start name id origin true
      (.failed track lookedUp (err.report f false).throws))).record
        (err.report f false)
  | .piped track reconnect route env =>
    created (Session.start name id origin true (.piped track reconnect route env))

/-- One head at most; no report has thrown, and each has the right length. -/
structure Reported (s : HttpSession) : Prop where
  head : s.heads ≤ 1
  fine : ∀ r ∈ s.reports, r.Fine

/-- An error is reported before anything of the response was sent, and can be sent. -/
def Meets (s : HttpSession) : Event → Prop
  | .session e err => (s.session.moves e).any isError = true →
      s.headSent = false ∧ err.Sendable
  | .write => True

instance (s : HttpSession) : ∀ e, Decidable (Meets s e)
  | .session _ _ => inferInstanceAs (Decidable (_ → _))
  | .write => inferInstanceAs (Decidable True)

/-- What the guarded steps keep. -/
structure Kept (s : HttpSession) : Prop where
  heads : s.heads = if s.headSent then 1 else 0
  fine : ∀ r ∈ s.reports, r.Fine

theorem Kept.reported {s : HttpSession} (h : s.Kept) : s.Reported := by
  refine ⟨?_, h.fine⟩
  rw [h.heads]
  split <;> omega

/-- A report that is fine is sent, as the first thing of the response. -/
theorem Kept.record {s : HttpSession} (h : s.Kept) {r : HttpReport} (hr : r.Fine)
    (hsent : s.headSent = false) : (s.record r).Kept := by
  obtain ⟨n, rfl⟩ := hr
  refine ⟨?_, ?_⟩
  · show s.heads + 1 = 1
    rw [h.heads, hsent]
    rfl
  · intro r hr
    change r ∈ s.reports ++ [.sent n n] at hr
    rw [List.mem_append, List.mem_singleton] at hr
    rcases hr with hr | rfl
    · exact h.fine r hr
    · exact ⟨n, rfl⟩

/-- One guarded step. -/
theorem step_kept (f : NumberFormat) (s : HttpSession) (e : Event) (t : HttpSession) (h : s.Kept)
    (hmeets : Meets s e) (hstep : step f s e = some t) : t.Kept := by
  cases e with
  | session e err =>
    obtain ⟨u, -, hu⟩ := Option.bind_eq_some_iff.mp hstep
    split at hu
    · rename_i herror
      obtain ⟨hsent, hsendable⟩ := hmeets herror
      have hfine := (err.report_fine_iff f s.headSent).mpr ⟨hsent, hsendable⟩
      have hkept : Kept { s with session := u } := ⟨h.heads, h.fine⟩
      dsimp only at hu
      split at hu
      · cases hu
        exact hkept.record hfine hsent
      · cases hu
    · cases hu
      exact ⟨h.heads, h.fine⟩
  | write =>
    simp only [step] at hstep
    split_ifs at hstep
    cases hstep
    refine ⟨?_, h.fine⟩
    have hheads := h.heads
    show (if s.headSent then s.heads else s.heads + 1) = 1
    split at hheads <;> simp_all

/-- A session that cannot be created reports a sendable error. -/
def StartMeets (err : HttpError) : Session.Start → Prop
  | .failed _ _ _ => err.Sendable
  | .piped _ _ _ _ => True

theorem start_kept (f : NumberFormat) (name : String) (id : ℕ) (origin : String) (err : HttpError)
    (st : Session.Start) (h : StartMeets err st) : (start f name id origin err st).Kept := by
  have hcreated : ∀ s, (created s).Kept := fun s => ⟨rfl, fun r hr => absurd hr List.not_mem_nil⟩
  cases st with
  | failed track lookedUp thr =>
    exact (hcreated _).record ((err.report_fine_iff f false).mpr ⟨rfl, h⟩) rfl
  | piped track reconnect route env => exact hcreated _

/-- A session that reports its errors before anything of the response was sent, and none but
sendable ones, has one response head at most, and its reports neither throw nor have a wrong
length. -/
theorem reported_throughout (f : NumberFormat) (name : String) (id : ℕ) (origin : String)
    (err : HttpError) (st : Session.Start) (hst : StartMeets err st) (s : HttpSession)
    (h : Run (step f) Meets (start f name id origin err st) s) : s.Reported :=
  (h.invariant (step_kept f) (start_kept f name id origin err st hst)).reported

/-- Numbers as the errors below print them. -/
def statusFormat : NumberFormat where
  text q := if q = 404 then "404".toList else "500".toList
  ascii q := by
    split
    · decide
    · decide

/-- `NotFoundError`. -/
def notFound (content : String) : HttpError := ⟨false, some 404, "Not Found", some (.str content)⟩

/-- `GeneralError`. -/
def generalError (content : String) : HttpError :=
  ⟨false, some 500, "General Server Error", some (.str content)⟩

/-- A route to one cluster, which is retried when its stream is lost. -/
def routed : Session.Start :=
  .piped 0 false ⟨"r", "c", [], [], ⟨.always, 1, 2000⟩, false⟩ Session.lookupAll

def request (err : HttpError) : HttpSession := start statusFormat "s" 0 "l" err routed

/-- The cluster refuses. -/
def unavailable : List Event :=
  [.session (.streamFail 0 true) (notFound ""),
    .session (.pipelineFail false) (notFound "Pipeline setup failed")]

theorem unavailable_reported : ∃ s,
    exec (step statusFormat) Meets (request (notFound "")) unavailable = some s ∧
      s.heads = 1 ∧ s.reports = [.sent 89 89] ∧ s.Reported := by
  obtain ⟨s, hs⟩ : ∃ s, exec (step statusFormat) Meets (request (notFound "")) unavailable =
    some s := ⟨_, rfl⟩
  have hreported : s.Reported := reported_throughout statusFormat "s" 0 "l" (notFound "") routed
    trivial s (exec_run unavailable (request (notFound "")) s hs)
  refine ⟨s, hs, ?_, ?_, hreported⟩
  · cases hs
    rfl
  · cases hs
    rfl

/-- The cluster is lost after a part of the response was sent, and the retry fails. -/
def interrupted : List Event :=
  [.session (.streamOk 0 ⟨"e", some "c"⟩) (generalError ""), .session .pipelineOk (generalError ""),
    .write, .session (.lost 1 Session.lookupAll false) (generalError ""),
    .session (.streamFail 1 false) (generalError ""),
    .session (.giveUp 1 true) (generalError "Connection refused")]

/-- The report throws, so that the promise of `disconnect` is rejected. -/
theorem interrupted_throws : ∃ s,
    exec (step statusFormat) always (request (generalError "")) interrupted = some s ∧
      s.reports = [.threw "Cannot write headers after they are sent to the client"] ∧
      ¬ s.Reported := by
  obtain ⟨s, hs⟩ : ∃ s, exec (step statusFormat) always (request (generalError "")) interrupted =
    some s := ⟨_, rfl⟩
  have hreports : s.reports = [.threw "Cannot write headers after they are sent to the client"] := by
    cases hs
    rfl
  refine ⟨s, hs, hreports, ?_⟩
  intro h
  obtain ⟨n, hn⟩ := h.fine _ (hreports ▸ List.mem_singleton_self _)
  cases hn

end HttpSession
end L7mp
