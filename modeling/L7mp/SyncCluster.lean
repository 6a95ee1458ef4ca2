import L7mp.BroadcastStream
import L7mp.StoreConfig

/-! The `Sync` cluster: all streams with the same label form one broadcast domain. -/
namespace L7mp
open GuardedRun

/-- `this.streams`, keyed by the label. -/
structure SyncCluster where
  streams : String → Option BroadcastStream

namespace SyncCluster

/-- The participants of one label, or what they do there. -/
inductive Event
  | stream (query : String) (label : Option String) (k : String)
  | act (label : String) (e : BroadcastStream.Event)
  deriving DecidableEq, Repr

def empty : SyncCluster := ⟨fun _ => none⟩

def set (label : String) (b : BroadcastStream) (c : SyncCluster) : SyncCluster :=
  ⟨fun l => if l = label then some b else c.streams l⟩

/-- What `_stream` rejects with. -/
def emptyLabel (k query : String) : Err :=
  .error ("SyncCluster.stream: reject: Session: \"" ++ k ++ "\": query \"" ++ query ++
    "\": empty label")

variable (inherits : String → Bool)

/-- `_stream` of the session named `k`, the label of which is what the query finds; `inherits` are
the names of the properties that every object has. -/
def stream (query : String) (label : Option String) (k : String) (c : SyncCluster) :
    Option (Except Err Unit × SyncCluster) :=
  match label with
  | none => some (.error (emptyLabel k query), c)
  | some l => match c.streams l, inherits l with
    | some b, _ => (b.step (.join k)).map (fun b => (.ok (), c.set l b))
    -- `label in this.streams` holds, and what is found there has no `add`
    | none, true => some (.error .typeError, c)
    | none, false => (BroadcastStream.empty.step (.join k)).map (fun b => (.ok (), c.set l b))

def step (c : SyncCluster) : Event → Option SyncCluster
  | .stream query label k => (c.stream inherits query label k).map Prod.snd
  -- who joins comes through `_stream`
  | .act _ (.join _) => none
  | .act l e => match c.streams l with
    | none => none
    | some b => (b.step e).map (fun b => c.set l b)

/-- The guard of the domain of the label. -/
def Spares (c : SyncCluster) : Event → Prop
  | .stream _ label k => ∀ l ∈ label, ∀ b ∈ c.streams l, b.Spares (.join k)
  | .act l e => ∀ b ∈ c.streams l, b.Spares e

instance (c : SyncCluster) : (e : Event) → Decidable (c.Spares e)
  | .stream _ label k => inferInstanceAs
      (Decidable (∀ l ∈ label, ∀ b ∈ c.streams l, b.Spares (.join k)))
  | .act l e => inferInstanceAs (Decidable (∀ b ∈ c.streams l, b.Spares e))

/-- Every domain is sound. -/
def Sound (c : SyncCluster) : Prop := ∀ l, ∀ b ∈ c.streams l, b.Sound

variable {inherits} {c d : SyncCluster}

theorem Sound.set (h : c.Sound) {b : BroadcastStream} (hb : b.Sound) (l : String) :
    (c.set l b).Sound := by
  intro l' b' hb'
  simp only [SyncCluster.set] at hb'
  split_ifs at hb' with hl
  · cases hb'
    exact hb
  · exact h l' b' hb'

theorem Sound.step {e : Event} (h : c.Sound) (hok : c.Spares e)
    (hstep : c.step inherits e = some d) : d.Sound := by
  cases e with
  | stream query label k =>
    obtain ⟨⟨r, d'⟩, hstream, rfl⟩ := Option.map_eq_some_iff.mp hstep
    unfold stream at hstream
    split at hstream
    · cases hstream
      exact h
    · rename_i l
      split at hstream
      · rename_i b hb
        obtain ⟨t, ht, heq⟩ := Option.map_eq_some_iff.mp hstream
        cases heq
        exact h.set ((h l b hb).step (hok l rfl b hb) ht) l
      · cases hstream
        exact h
      · obtain ⟨t, ht, heq⟩ := Option.map_eq_some_iff.mp hstream
        cases heq
        refine h.set (BroadcastStream.sound_empty.step ?_ ht) l
        exact fun p hp => by cases hp
  | act l e =>
    unfold SyncCluster.step at hstep
    split at hstep
    · rename_i heq
      cases heq
    · cases hstep
    · rename_i l' e' _ heq
      cases heq
      split at hstep
      · cases hstep
      · rename_i b hb
        obtain ⟨t, ht, rfl⟩ := Option.map_eq_some_iff.mp hstep
        exact h.set ((h l b hb).step (hok b hb) ht) l

end SyncCluster
end L7mp
