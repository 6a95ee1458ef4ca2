import L7mp.Json
import Mathlib.Algebra.Order.Ring.Rat

/-! The handshake of a JSONSocket cluster: what `_stream` does with the first message that the
server sends, after the request header was written. -/
namespace L7mp
open Js

/-- What the client waits for. The event `close` comes with an argument or without one. -/
inductive Received
  | data (bytes : List UInt8)
  | closed (argument : Bool)
  | failed (message : String)
  | timedOut (message : String)
  deriving DecidableEq, Repr

/-- How the promise of `_stream` is settled, and whether it called `stream.destroy`. -/
structure ConnectOutcome where
  destroyed : Bool
  result : Except String Unit

/-- The standard functions that the client calls, and its timeout. -/
structure ClientHost where
  parse : List UInt8 → Except String Json
  dumper : Json → String
  numberText : Number → String
  textNumber : String → Option Number
  timeout : ℕ

namespace JsonSocketCluster

/-- Destroy the stream and reject. -/
def reject (err : String) : ConnectOutcome := ⟨true, .error err⟩

/-- An exception in the code rejects the promise and does nothing else. -/
def typeError (err : String) : ConnectOutcome := ⟨false, .error err⟩

def accept : ConnectOutcome := ⟨false, .ok ()⟩

/-- The status is below 200 or above 299, compared as JavaScript does; none is a TypeError. -/
def outOfRange (h : ClientHost) (status : Json) : Option Bool :=
  (status.toNumber h.numberText h.textNumber).map (fun x => x.any (fun x => x.below 200 || x.above 299))

/-- The check of the status. -/
def checkStatus (h : ClientHost) : Option Json → ConnectOutcome
  | none => accept
  | some status => match outOfRange h status with
    | none => typeError "Cannot convert object to primitive value"
    | some true => reject ("Server sent invalid status \"" ++
        ((status.toText h.numberText).getD "") ++ "\" in response header, dropping connection")
    | some false => accept

/-- The checks of the response header. -/
def check (h : ClientHost) : Json → ConnectOutcome
  | .null => typeError "Cannot read property 'JSONSocketVersion' of null"
  | header => match header.field "JSONSocketVersion" with
    | none => reject ("No JSONSocket version info in reponse header: " ++ h.dumper header)
    | some (.num version) =>
      if version.below 0 || version.above 1 then
        reject ("Unsupported JSONSocket version \"" ++ h.numberText version ++
          "\" in header, dropping connection")
      else checkStatus h (header.field "JSONSocketStatus")
    | some _ => reject ("JSONSocket version info is not numeric in response header: " ++
        h.dumper header)

/-- `_stream`, from the wait for the response on. -/
def receive (h : ClientHost) : Received → ConnectOutcome
  | .closed false => typeError "Cannot read property 'message' of undefined"
  | .closed true => reject ("Failed to receive JSONSocket response in " ++ toString h.timeout ++
      " msecs: undefined")
  | .failed message => reject ("Failed to receive JSONSocket response in " ++
      toString h.timeout ++ " msecs: " ++ message)
  | .timedOut message => reject ("Failed to receive JSONSocket response in " ++
      toString h.timeout ++ " msecs: " ++ message)
  | .data bytes => match h.parse bytes with
    | .error message => reject message
    | .ok header => check h header

/-- An object with version 0 or 1 and a status from 200 to 299. -/
def IsAccepting : Json → Prop
  | .obj fields => (∃ q : ℚ, fields.lookup "JSONSocketVersion" = some (.num (.finite q)) ∧
      (q = 0 ∨ q = 1)) ∧
      ∃ n : ℤ, fields.lookup "JSONSocketStatus" = some (.num (.finite n)) ∧ 200 ≤ n ∧ n ≤ 299
  | _ => False

/-- The response of a server that accepts. -/
def Accepting (h : ClientHost) : Received → Prop
  | .data bytes => ∃ header, h.parse bytes = .ok header ∧ IsAccepting header
  | _ => False

/-- The stream is closed: the client destroyed it, or it was the stream that closed. -/
def Ended (o : ConnectOutcome) : Received → Prop
  | .closed _ => True
  | _ => o.destroyed = true

/-- The stream is accepted just when the server accepts, and else it is rejected and closed. -/
def Settles (h : ClientHost) (r : Received) (o : ConnectOutcome) : Prop :=
  (o.result = .ok () ↔ Accepting h r) ∧
    (¬ Accepting h r → (∃ e, o.result = .error e) ∧ Ended o r)

/-- A header other than null that accepts, if its version is a number from 0 to 1 and its status
does not compare as a number below 200 or above 299. -/
def IsRegular (h : ClientHost) : Json → Prop
  | .null => False
  | .obj fields => ∀ q : ℚ, fields.lookup "JSONSocketVersion" = some (.num (.finite q)) →
      0 ≤ q → q ≤ 1 → IsAccepting (.obj fields) ∨
        ∃ status, fields.lookup "JSONSocketStatus" = some status ∧ outOfRange h status = some true
  | _ => True

def Regular (h : ClientHost) : Received → Prop
  | .data bytes => ∀ header, h.parse bytes = .ok header → IsRegular h header
  | _ => True

/-- The three ways in which the code settles a stream whose server did not accept. -/
theorem settles_reject {h : ClientHost} {r : Received} (hr : ¬ Accepting h r) (err : String) :
    Settles h r (reject err) := by
  refine ⟨⟨fun hok => (by cases hok), fun ha => absurd ha hr⟩, fun _ => ⟨⟨err, rfl⟩, ?_⟩⟩
  cases r
  case closed => trivial
  all_goals rfl

theorem not_settles_typeError {h : ClientHost} {bytes : List UInt8} (err : String) :
    ¬ Settles h (.data bytes) (typeError err) := by
  intro hs
  by_cases ha : Accepting h (.data bytes)
  · cases hs.1.mpr ha
  · have hended : false = true := (hs.2 ha).2
    cases hended

theorem settles_accept_iff {h : ClientHost} {r : Received} :
    Settles h r accept ↔ Accepting h r := by
  refine ⟨fun hs => hs.1.mp rfl, fun ha => ⟨⟨fun _ => ha, fun _ => rfl⟩, fun hn => absurd ha hn⟩⟩

theorem accepting_data {h : ClientHost} {bytes : List UInt8} {header : Json}
    (hparse : h.parse bytes = .ok header) : Accepting h (.data bytes) ↔ IsAccepting header := by
  refine ⟨?_, fun ha => ⟨header, hparse, ha⟩⟩
  rintro ⟨header', hparse', ha⟩
  rw [hparse] at hparse'
  cases hparse'
  exact ha

/-- A status that the server may accept with is in range. -/
theorem outOfRange_accepting {h : ClientHost} {n : ℤ} (hlow : 200 ≤ n) (hhigh : n ≤ 299) :
    outOfRange h (.num (.finite n)) = some false := by
  have h₁ : ¬ (n : ℚ) < 200 := by
    push_cast [not_lt]
    exact_mod_cast hlow
  have h₂ : ¬ (299 : ℚ) < n := by
    push_cast [not_lt]
    exact_mod_cast hhigh
  simp [outOfRange, Json.toNumber, Number.below, Number.above, h₁, h₂]

/-- The check of the status, of a header whose version is a number from 0 to 1. -/
theorem checkStatus_settles_iff {h : ClientHost} {bytes : List UInt8}
    {fields : List (String × Json)} (hparse : h.parse bytes = .ok (.obj fields)) :
    Settles h (.data bytes) (checkStatus h (fields.lookup "JSONSocketStatus")) ↔
      IsAccepting (.obj fields) ∨ ∃ status, fields.lookup "JSONSocketStatus" = some status ∧
        outOfRange h status = some true := by
  -- a status that accepts is a number in range
  have hstatus : IsAccepting (.obj fields) → ∃ status,
      fields.lookup "JSONSocketStatus" = some status ∧ outOfRange h status = some false := by
    rintro ⟨-, n, hn, hlow, hhigh⟩
    exact ⟨_, hn, outOfRange_accepting hlow hhigh⟩
  have haccepting := accepting_data hparse
  rcases hlookup : fields.lookup "JSONSocketStatus" with _ | status
  · rw [checkStatus, settles_accept_iff, haccepting]
    simp
  rw [hlookup] at hstatus
  simp only [Option.some.injEq, exists_eq_left'] at hstatus ⊢
  rcases hrange : outOfRange h status with _ | out
  · simp only [checkStatus, hrange, reduceCtorEq, or_false]
    refine ⟨fun hs => absurd hs (not_settles_typeError _), fun ha => ?_⟩
    rw [hstatus ha] at hrange
    cases hrange
  cases out
  · simp only [checkStatus, hrange, Option.some.injEq, Bool.false_eq_true, or_false]
    rw [settles_accept_iff, haccepting]
  · simp only [checkStatus, hrange, or_true, iff_true]
    apply settles_reject
    rw [haccepting]
    intro ha
    rw [hstatus ha] at hrange
    cases hrange

/-- A version that is no number from 0 to 1 is refused. -/
theorem check_unsupported {h : ClientHost} {fields : List (String × Json)}
    (hv : ∀ q : ℚ, fields.lookup "JSONSocketVersion" = some (.num (.finite q)) →
      ¬ (0 ≤ q ∧ q ≤ 1)) : ∃ err, check h (.obj fields) = reject err := by
  have hfield : (Json.obj fields).field "JSONSocketVersion" =
      fields.lookup "JSONSocketVersion" := rfl
  rcases hversion : fields.lookup "JSONSocketVersion" with _ | version
  · simp only [check, hfield, hversion]
    exact ⟨_, rfl⟩
  · cases version with
    | num x =>
      have hout : (x.below 0 || x.above 1) = true := by
        cases x with
        | finite q =>
          have hq := hv q hversion
          simp only [Number.below, Number.above, Bool.or_eq_true, decide_eq_true_eq]
          rcases lt_or_ge q 0 with hneg | hpos
          · exact Or.inl hneg
          · exact Or.inr (lt_of_not_ge (fun hle => hq ⟨hpos, hle⟩))
        | infinite negative => cases negative <;> rfl
      simp only [check, hfield, hversion, hout, if_true]
      exact ⟨_, rfl⟩
    | _ =>
      simp only [check, hfield, hversion]
      exact ⟨_, rfl⟩

theorem check_supported {h : ClientHost} {fields : List (String × Json)} {q : ℚ}
    (hversion : fields.lookup "JSONSocketVersion" = some (.num (.finite q)))
    (hlow : 0 ≤ q) (hhigh : q ≤ 1) :
    check h (.obj fields) = checkStatus h (fields.lookup "JSONSocketStatus") := by
  have hfield : ∀ k, (Json.obj fields).field k = fields.lookup k := fun _ => rfl
  have hin : ((Number.finite q).below 0 || (Number.finite q).above 1) = false := by
    simp [Number.below, Number.above, hlow, hhigh]
  simp only [check, hfield, hversion, hin, Bool.false_eq_true, if_false]

/-- A response that parses. -/
theorem check_settles_iff {h : ClientHost} {bytes : List UInt8} {header : Json}
    (hparse : h.parse bytes = .ok header) :
    Settles h (.data bytes) (check h header) ↔ IsRegular h header := by
  have haccepting := accepting_data hparse
  cases header with
  | null => exact ⟨fun hs => absurd hs (not_settles_typeError _), fun hf => hf.elim⟩
  | obj fields =>
    by_cases hv : ∃ q : ℚ, fields.lookup "JSONSocketVersion" = some (.num (.finite q)) ∧
        0 ≤ q ∧ q ≤ 1
    · obtain ⟨q, hversion, hlow, hhigh⟩ := hv
      rw [check_supported hversion hlow hhigh, checkStatus_settles_iff hparse]
      refine ⟨fun hgood _ _ _ _ => hgood, fun hregular => hregular q hversion hlow hhigh⟩
    · have hout : ∀ q : ℚ, fields.lookup "JSONSocketVersion" = some (.num (.finite q)) →
          ¬ (0 ≤ q ∧ q ≤ 1) := fun q hq hin => hv ⟨q, hq, hin⟩
      obtain ⟨err, hcheck⟩ := check_unsupported (h := h) hout
      rw [hcheck]
      refine ⟨fun _ q hq hlow hhigh => absurd ⟨hlow, hhigh⟩ (hout q hq), fun _ => ?_⟩
      apply settles_reject
      rw [haccepting]
      rintro ⟨⟨q, hq, hq01⟩, -⟩
      apply hout q hq
      rcases hq01 with rfl | rfl
      · exact ⟨le_refl 0, zero_le_one⟩
      · exact ⟨zero_le_one, le_refl 1⟩
  | _ =>
    have hnot : ¬ Accepting h (.data bytes) := by
      rw [haccepting]
      exact id
    exact ⟨fun _ => trivial, fun _ => settles_reject hnot _⟩

/-- A client settles a response as it should exactly when the response is regular. -/
theorem settles_iff (h : ClientHost) (r : Received) :
    Settles h r (receive h r) ↔ Regular h r := by
  have hnone : ∀ {r : Received}, ¬ Accepting h r → ∀ err,
      Settles h r (reject err) ↔ True := by
    intro r hr err
    exact ⟨fun _ => trivial, fun _ => settles_reject hr err⟩
  cases r with
  | closed argument =>
    cases argument with
    | true => exact hnone id _
    | false =>
      -- the stream has closed by itself
      refine ⟨fun _ => trivial, fun _ => ⟨⟨fun hok => (by cases hok), fun ha => ha.elim⟩, ?_⟩⟩
      exact fun _ => ⟨⟨_, rfl⟩, trivial⟩
  | failed message => exact hnone id _
  | timedOut message => exact hnone id _
  | data bytes =>
    rcases hparse : h.parse bytes with message | header
    · have hnot : ¬ Accepting h (.data bytes) := by
        rintro ⟨header, hheader, -⟩
        rw [hparse] at hheader
        cases hheader
      simp only [receive, Regular, hparse, reduceCtorEq, false_implies, implies_true]
      exact hnone hnot message
    · have hregular : Regular h (.data bytes) ↔ IsRegular h header := by
        simp [Regular, hparse]
      rw [hregular, receive, hparse]
      exact check_settles_iff hparse

/-- The text of a response with version 1 and no status. -/
def versionOnly : List UInt8 :=
  "\x7b\"JSONSocketVersion\":1\x7d".toList.map (fun c => UInt8.ofNat c.toNat)

/-- A response without a status is accepted. -/
theorem versionOnly_accepted :
    let h : ClientHost := ⟨fun bytes => if bytes = versionOnly then
        .ok (.obj [("JSONSocketVersion", .num (.finite 1))]) else .error "Unexpected token",
      fun _ => "", fun _ => "", fun _ => none, 2000⟩
    (receive h (.data versionOnly)).result = .ok () ∧
      ¬ Settles h (.data versionOnly) (receive h (.data versionOnly)) := by
  intro h
  have hreceive : receive h (.data versionOnly) = accept := by
    calc receive h (.data versionOnly)
        = check h (.obj [("JSONSocketVersion", .num (.finite 1))]) := by simp [receive, h]
      _ = checkStatus h none := check_supported (q := 1) rfl zero_le_one (le_refl 1)
      _ = accept := rfl
  rw [hreceive]
  refine ⟨rfl, ?_⟩
  intro hsettles
  obtain ⟨header, hheader, haccepting⟩ := hsettles.1.mp rfl
  simp only [h, if_true, Except.ok.injEq] at hheader
  subst hheader
  obtain ⟨-, n, hn, -⟩ := haccepting
  cases hn

end JsonSocketCluster
end L7mp
