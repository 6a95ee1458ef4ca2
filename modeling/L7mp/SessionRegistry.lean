import L7mp.Names
import L7mp.SessionIdle

/-! `l7mp.sessions`: sessions are added under a new name, looked up by name, and removed by
name when a callback of their `destroy` event runs. -/
namespace L7mp

namespace Session

/-- The event with what `getSession` of `l7mp` answers. -/
def Event.seen (found : Bool) : Event → Event
  | .timer k env => .timer k { env with getSession := found }
  | .lost i env thr => .lost i { env with getSession := found } thr
  | .disconnect i env thr => .disconnect i { env with getSession := found } thr
  | e => e

def Start.seen (found : Bool) : Start → Start
  | .piped track reconnect route env =>
    .piped track reconnect route { env with getSession := found }
  | st => st

end Session

/-- The session objects in the order of their creation, `l7mp.sessions` as positions of it, the
owners of the callbacks given to `setImmediate`, and how many of these callbacks have run. -/
structure Registry where
  objects : List Session
  sessions : List ℕ
  immediates : List ℕ
  ran : ℕ

namespace Registry

def empty : Registry := ⟨[], [], [], 0⟩

/-- `name === n`, for the session object `o`. -/
def named (w : Registry) (n : String) (o : ℕ) : Bool := w.objects[o]?.any (fun s => s.name = n)

def getSession (w : Registry) (n : String) : Option ℕ := w.sessions.find? (w.named n)

/-- `deleteSession`, with the error that its callback catches. -/
def deleteSession (w : Registry) (n : String) : Registry :=
  { w with sessions := w.sessions.eraseP (w.named n) }

/-- Object `o` goes from `s` to `t`; every `destroy` event leaves a callback. -/
def update (w : Registry) (o : ℕ) (s t : Session) : Registry :=
  { w with
    objects := w.objects.set o t
    immediates := w.immediates ++
      List.replicate (t.emitted.count .destroy - s.emitted.count .destroy) o }

/-- `this.sessions.push`. -/
def push (w : Registry) (s : Session) : Registry :=
  { w with objects := w.objects ++ [s], sessions := w.sessions ++ [w.objects.length] }

/-- A listener emits a session, session `o` runs a piece of code, or a callback runs. -/
inductive Event
  | add (name : String) (id : ℕ) (origin : String) (hasPrivError : Bool) (st : Session.Start)
  | session (o : ℕ) (e : Session.Event)
  | immediate

/-- The name that `addSession` gives to a new session. -/
def freshName (w : Registry) (name : String) : Option String :=
  newName name (fun n => (w.getSession n).isSome)

/-- `addSession` up to the first wait of `router`. -/
def addSession (w : Registry) (n : String) (id : ℕ) (origin : String) (err : Bool)
    (st : Session.Start) : Registry :=
  let s := Session.new n id origin err
  let found := ((w.push s).getSession n).isSome
  (w.push s).update w.objects.length s (Session.start n id origin err (st.seen found))

def step (w : Registry) : Event → Option Registry
  | .add name id origin err st => match w.freshName name with
    -- the promise of `addSession` is rejected
    | none => some w
    | some n => some (w.addSession n id origin err st)
  | .session o e => match w.objects[o]? with
    | none => none
    | some s => match e, decide (o ∈ w.sessions) with
      -- `deleteEndPoint` goes through `l7mp.sessions`
      | .disconnect _ _ _, false => none
      | _, _ => (s.step (e.seen (w.getSession s.name).isSome)).map (w.update o s)
  | .immediate => match w.immediates[w.ran]? with
    | none => none
    | some o => match w.objects[o]? with
      | none => none
      | some s => some { w.deleteSession s.name with ran := w.ran + 1 }

/-- No destroyed session is finalised or revived, and no session is given the name of one that
may still connect. -/
def Spares (w : Registry) : Event → Prop
  | .add name _ _ _ _ => ∀ n ∈ w.freshName name, ∀ s ∈ w.objects, s.name = n → s.Idle
  | .session o e => ∀ s ∈ w.objects[o]?, s.Spares e
  | .immediate => True

instance (w : Registry) : (e : Event) → Decidable (w.Spares e)
  | .add name _ _ _ _ => inferInstanceAs
      (Decidable (∀ n ∈ w.freshName name, ∀ s ∈ w.objects, s.name = n → s.Idle))
  | .session o e => inferInstanceAs (Decidable (∀ s ∈ w.objects[o]?, s.Spares e))
  | .immediate => inferInstanceAs (Decidable True)

end Registry
end L7mp
