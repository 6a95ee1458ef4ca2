import L7mp.Aborting
import L7mp.SessionStep
import L7mp.StoreState

/-! The delete functions of the configuration API. None of them waits. -/
namespace L7mp
open Aborting KeyedList

/-- What the reconnect of a session looks up, and whether its `priv.error` throws. -/
structure Answers where
  env : Session → Stage → Env
  thr : Session → Stage → Bool

/-- The stage is connected to an endpoint of this name. -/
def Stage.on (n : String) (st : Stage) : Bool := st.endpoint.any (fun ep => ep.name = n)

namespace Session

/-- `disconnect` of the stage object, whatever state it is in by now. -/
def disconnectStage (A : Answers) (s : Session) (i : ℕ) : Session :=
  match s.stage? i with
  | none => s
  | some st => s.disconnect (A.env s st) (A.thr s st) st

/-- One side of the chain in `deleteEndPoint`: every stage is asked for its endpoint before the
first one is disconnected. -/
def disconnectChain (A : Answers) (n : String) (stages : List Stage) : Op Session Err := fun s =>
  if stages.any (fun st => st.endpoint.isNone) then (.error .typeError, s)
  else (.ok (), ((stages.filter (Stage.on n)).map Stage.id).foldl (disconnectStage A) s)

/-- The loop body of `deleteEndPoint`. -/
def disconnectFrom (A : Answers) (n : String) : Op Session Err := fun s =>
  match s.destination with
  | none => (.error .typeError, s)
  | some d =>
    let t := if d.on n then s.disconnectStage A d.id else s
    seq (fun s => disconnectChain A n s.ingress s) (fun s => disconnectChain A n s.egress s) t

def traverses (n : String) (d : Stage) (s : Session) : Bool :=
  d.origin = n || s.ingress.any (fun st => st.origin = n) || s.egress.any (fun st => st.origin = n)

/-- The loop body of `deleteCluster`. -/
def endTraversing (n : String) : Op Session Err := fun s =>
  match s.destination with
  | none => (.error .typeError, s)
  | some d => (.ok (), if s.traverses n d then s.end_ else s)

end Session

def Cluster.deleteEndPoint (n : String) (c : Cluster) : Cluster :=
  { c with endpoints := remove EndPoint.name n c.endpoints }

namespace Store

/-- A loop over `this.sessions`. -/
def onSessions (f : Op Session Err) : Op Store Err := fun w =>
  ((inPlace f w.sessions).1, { w with sessions := (inPlace f w.sessions).2 })

def unknown (what quoted n : String) : Err :=
  .error ("Cannot delete " ++ what ++ ": Unknown " ++ quoted ++ " \"" ++ n ++ "\"")

variable (A : Answers) (recursive : Bool)

/-- `deleteEndPoint`, up to its loop. -/
def dropEndPoint (n : String) (ep : EndPoint) (w : Store) : Store :=
  let w := w.modifyCluster ep.cluster (Cluster.deleteEndPoint n)
  { w with endpoints := remove EndPoint.name n w.endpoints }

def deleteEndPoint (n : String) : Op Store Err := fun w =>
  match w.getEndPoint n with
  | none => (.error (.notFound ("Cannot delete endpoint: Unknown endpoint \"" ++ n ++ "\"")), w)
  | some ep => match w.getCluster ep.cluster with
    -- the message for the log reads a variable that is not defined
    | none => (.error (.referenceError "c"), w)
    | some _ =>
      if recursive then onSessions (Session.disconnectFrom A n) (w.dropEndPoint n ep)
      else (.ok (), w.dropEndPoint n ep)

def deleteCluster (n : String) : Op Store Err := fun w =>
  match w.getCluster n with
  | none => (.error (unknown "cluster" "cluster" n), w)
  | some c =>
    seq (if recursive then onSessions (Session.endTraversing c.name) else skip)
      (seq (forEach (deleteEndPoint A recursive) (c.endpoints.map EndPoint.name))
        (update (fun w => { w with clusters := remove Cluster.name n w.clusters }))) w

/-- A cluster of a route goes if it exists and was generated. -/
def deleteGeneratedCluster (n : String) : Op Store Err := fun w =>
  match w.getCluster n with
  | some c => if c.autogenerated then deleteCluster A recursive n w else (.ok (), w)
  | none => (.ok (), w)

def deleteRoute (n : String) : Op Store Err := fun w =>
  match w.getRoute n with
  | none => (.error (unknown "Route" "Route" n), w)
  | some r =>
    seq (if recursive then
        forEach (deleteGeneratedCluster A recursive) (r.destination :: (r.ingress ++ r.egress))
      else skip)
      (update (fun w => { w with routes := remove Route.name n w.routes })) w

def deleteGeneratedRoute (n : String) : Op Store Err := fun w =>
  match w.getRoute n with
  | some r => if r.autogenerated then deleteRoute A recursive n w else (.ok (), w)
  | none => (.ok (), w)

def deleteRouteOf : RuleRoute → Op Store Err
  | .named n => deleteGeneratedRoute A recursive n
  -- no route has the name of an inline route that is not resolved yet
  | .absent | .unresolved => skip

def deleteRule (n : String) : Op Store Err := fun w =>
  match w.getRule n with
  | none => (.error (unknown "rule" "rule" n), w)
  | some r =>
    seq (if recursive then deleteRouteOf A recursive r.route else skip)
      (update (fun w => { w with rules := remove Rule.name n w.rules })) w

/-- `deleteRule` of an element of a rulelist, or of what is past its end. -/
def deleteRuleAt : Option String → Op Store Err
  | some n => deleteRule A recursive n
  | none => throw (unknown "rule" "rule" "undefined")

/-- `deleteRuleFromRuleList`, for the rulelist object `id`. -/
def deleteRuleFromRuleList (id : ℕ) (pos : ℤ) : Op Store Err := fun w =>
  match w.ruleList? id with
  | none => (.error (.error "Cannot delete rule from rulelist: Invalid rulelist"), w)
  | some rl =>
    if pos < 0 ∨ pos > rl.rules.length then
      (.error (.error ("Cannot delete rule at position " ++ toString pos ++ " from rulelist")), w)
    else
      seq (if recursive then deleteRuleAt A recursive rl.rules[pos.toNat]? else skip)
        (update (modifyRuleList id (fun rl => { rl with rules := rl.rules.eraseIdx pos.toNat }))) w

/-- `findIndex`. -/
def position (id : ℕ) (n : String) (w : Store) : ℤ :=
  match (w.ruleList? id).bind (fun rl => rl.rules.findIdx? (fun r => r = n)) with
  | some i => i
  | none => -1

/-- The first element of this name leaves the rulelist. -/
def dropFromRuleList (id : ℕ) (n : String) : Op Store Err := fun w =>
  deleteRuleFromRuleList A false id (w.position id n) w

/-- The loop body of `deleteRuleList`: a generated rule leaves the list first, and then the rule
is deleted whether or not it was generated. -/
def deleteRuleOf (id : ℕ) (n : String) : Op Store Err := fun w =>
  match w.getRule n with
  | some r =>
    seq (if r.autogenerated then dropFromRuleList A id n else skip) (deleteRule A recursive n) w
  | none => deleteRule A recursive n w

def deleteRuleList (n : String) : Op Store Err := fun w =>
  match w.getRuleList n with
  | none => (.error (unknown "RuleList" "RuleList" n), w)
  | some rl =>
    seq (if recursive then forEach (deleteRuleOf A recursive rl.id) rl.rules else skip)
      (update (dropRuleList n)) w

def deleteGeneratedRuleList (n : String) : Op Store Err := fun w =>
  match w.getRuleList n with
  | some rl => if rl.autogenerated then deleteRuleList A recursive n w else (.ok (), w)
  | none => (.ok (), w)

/-- The sessions of a listener end with it. -/
def endSessionsOf (n : String) (w : Store) : Store :=
  { w with sessions := w.sessions.map (fun s => if s.source.origin = n then s.end_ else s) }

def deleteListener (n : String) : Op Store Err := fun w =>
  match w.getListener n with
  | none => (.error (unknown "listener" "listener" n), w)
  | some l =>
    seq (if recursive then seq (deleteGeneratedRuleList A recursive l.rules)
        (update (endSessionsOf l.name)) else skip)
      (seq (if l.closable then skip else throw .typeError)
        (update (fun w => { w with listeners := remove Listener.name n w.listeners }))) w

end Store
end L7mp
