import L7mp.SessionServed
import L7mp.StoreAdd

/-! The configuration API and the sessions at work on one store: requests start at any time,
and those that wait go on in any order. A static configuration is a list of add requests that
start one after the other. -/
namespace L7mp
open Aborting Coroutine GuardedRun

/-- The requests of the API, and what happens to sessions: one is added, goes on with an event
of its own, or leaves the list. -/
inductive Request
  | addListener (l : ListenerSpec)
  | addCluster (c : ClusterSpec)
  | addRuleList (r : RuleListSpec)
  | addRule (r : RuleSpec)
  | addRuleToRuleList (list : String) (rule : RuleArg) (pos : ℤ)
  | addRoute (r : RouteSpec)
  | addEndPoint (c : String) (ep : EndPointSpec)
  | deleteListener (n : String) (recursive : Bool)
  | deleteCluster (n : String) (recursive : Bool)
  | deleteRuleList (n : String) (recursive : Bool)
  | deleteRule (n : String) (recursive : Bool)
  | deleteRuleFromRuleList (list : String) (pos : ℤ) (recursive : Bool)
  | deleteRoute (n : String) (recursive : Bool)
  | deleteEndPoint (n : String) (recursive : Bool)
  | addSession (name : String) (id : ℕ) (origin : String) (err : Bool) (st : Session.Start)
  | session (k : ℕ) (e : Session.Event)
  | dropSession (k : ℕ)

structure Call where
  answers : Answers
  request : Request

namespace Store

/-- `getRuleList`, as the handlers of the API use it. -/
def findRuleList (list : String) (w : Store) : Except Err ℕ :=
  match w.getRuleList list with
  | none => .error (.error ("No such rule list: " ++ list))
  | some rl => .ok rl.id

def onRuleList (list : String) (f : ℕ → Op Store Err) : Op Store Err := fun w =>
  match w.findRuleList list with
  | .error e => (.error e, w)
  | .ok id => f id w

def pushSession (s : Session) (w : Store) : Store := { w with sessions := w.sessions ++ [s] }

/-- Session `k` runs a piece of code, if the event can happen to it. -/
def stepSession (k : ℕ) (e : Session.Event) (w : Store) : Store :=
  match w.sessions[k]? with
  | none => w
  | some s => if s.Answered e then
      match s.step e with
      | none => w
      | some t => { w with sessions := w.sessions.set k t }
    else w

def dropSession (k : ℕ) (w : Store) : Store := { w with sessions := w.sessions.eraseIdx k }

end Store

def Call.program (c : Call) : Add Unit :=
  let A := c.answers
  match c.request with
  | .addListener l => addListener A l false
  | .addCluster c => addCluster A c false
  | .addRuleList r => addRuleList A r false
  | .addRule r => addRule A r false
  | .addRuleToRuleList list rule pos => do
    let id ← Add.sync (fun w => (w.findRuleList list, w))
    addRuleToRuleList A id rule pos
  | .addRoute r => addRoute A r false
  | .addEndPoint c ep => Add.sync (Store.addEndPoint c ep)
  | .deleteListener n recursive => Add.sync (Store.deleteListener A recursive n)
  | .deleteCluster n recursive => Add.sync (Store.deleteCluster A recursive n)
  | .deleteRuleList n recursive => Add.sync (Store.deleteRuleList A recursive n)
  | .deleteRule n recursive => Add.sync (Store.deleteRule A recursive n)
  | .deleteRuleFromRuleList list pos recursive =>
    Add.sync (Store.onRuleList list
      (fun id => Store.deleteRuleFromRuleList A recursive id pos))
  | .deleteRoute n recursive => Add.sync (Store.deleteRoute A recursive n)
  | .deleteEndPoint n recursive => Add.sync (Store.deleteEndPoint A recursive n)
  | .addSession name id origin err st =>
    Co.modify (Store.pushSession (Session.start name id origin err st))
  | .session k e => Co.modify (Store.stepSession k e)
  | .dropSession k => Co.modify (Store.dropSession k)

/-- The store with its pending requests. -/
abbrev World := Pool Store (Option Err) Held Err

namespace World

def start : World := ⟨Store.empty, []⟩

abbrev step : World → Event Call (Option Err) → Option World := Pool.step Call.program

end World
end L7mp
