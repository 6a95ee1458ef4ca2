import L7mp.GuardedRun
import Mathlib.Data.List.Count
import Mathlib.Data.List.Nodup

/-! The broadcast domain of a `Sync` cluster: every participant writes to an `input` that is
piped to the `output` of every other participant. -/
namespace L7mp
open GuardedRun

/-- The streams of one participant. What is written to `input` while it has no pipe stays in its
buffer; `ended` says that `input` was ended, and `closed` that `output` was. -/
structure Port where
  key : String
  buffered : List ℕ
  ended : Bool
  closed : Bool
  deriving DecidableEq, Repr

/-- `ports` is `this.ports`, and `gone` are the streams of the ports that `remove` took out of it.
A pipe leads from the `input` of the first key to the `output` of the second one. Messages are
numbered; `sent` has for each one its sender and the other participants that are present when it
is written, and `received` who got which one. -/
structure BroadcastStream where
  ports : List Port
  gone : List Port
  pipes : List (String × String)
  joined : List String
  present : List String
  sent : List (String × List String)
  received : List (String × ℕ)
  /-- Exceptions that leave an event handler. -/
  thrown : ℕ
  deriving DecidableEq, Repr

namespace BroadcastStream

def empty : BroadcastStream := ⟨[], [], [], [], [], [], [], 0⟩

def keys (b : BroadcastStream) : List String := b.ports.map Port.key

/-- `remove`: the loops over the other ports, and `splice`. -/
def remove (k : String) (b : BroadcastStream) : BroadcastStream :=
  match b.ports.find? (fun p => p.key = k) with
  | none => b
  | some p =>
    { b with
      ports := b.ports.eraseP (fun p => p.key = k)
      gone := b.gone ++ [p]
      pipes := b.pipes.filter (fun q =>
        ¬((q.1 = k ∧ q.2 ≠ k ∧ q.2 ∈ b.keys) ∨ (q.2 = k ∧ q.1 ≠ k ∧ q.1 ∈ b.keys))) }

/-- The `output` of a port is ended: no source is piped to it any more, and the port emits `end`,
the handler of which is `remove`. -/
def endOutput (k : String) (b : BroadcastStream) : BroadcastStream :=
  remove k { b with
    ports := b.ports.map (fun p => if p.key = k then { p with closed := true } else p)
    pipes := b.pipes.filter (fun q => q.2 ≠ k) }

/-- Where the `input` of a port is piped to. -/
def dests (k : String) (b : BroadcastStream) : List String :=
  (b.pipes.filter (fun q => q.1 = k)).map Prod.snd

/-- The `input` of a port is ended, and with it all that it is piped to. -/
def endInput (k : String) (b : BroadcastStream) : BroadcastStream :=
  (b.dests k).foldl (fun b j => b.endOutput j)
    { b with
      ports := b.ports.map (fun p => if p.key = k then { p with ended := true } else p)
      pipes := b.pipes.filter (fun q => q.1 ≠ k) }

/-- `add`. An `input` that had no pipe passes on what it buffered, and if it was ended, it ends
the new `output`. -/
def add (k : String) (b : BroadcastStream) : BroadcastStream :=
  let others := b.ports.filter (fun p => p.key ≠ k)
  let t : BroadcastStream :=
    { b with
      ports := b.ports.map (fun p => { p with buffered := [] }) ++ [⟨k, [], false, false⟩]
      pipes := b.pipes ++ others.map (fun p => (k, p.key)) ++ others.map (fun p => (p.key, k))
      received := b.received ++ others.flatMap (fun p => p.buffered.map (fun m => (k, m))) }
  if others.any Port.ended then t.endOutput k else t

/-- A participant writes to its port. -/
def send (k : String) (b : BroadcastStream) : BroadcastStream :=
  let m := b.sent.length
  let b := { b with sent := b.sent ++ [(k, b.present.filter (fun j => j ≠ k))] }
  if b.dests k = [] then
    let keep (p : Port) := if p.key = k then { p with buffered := p.buffered ++ [m] } else p
    { b with ports := b.ports.map keep, gone := b.gone.map keep }
  else { b with received := b.received ++ (b.dests k).map (fun j => (j, m)) }

/-- What participants do; they leave by `end` or by an error of their port. -/
inductive Event
  | join (k : String)
  | send (k : String)
  | end_ (k : String)
  | error (k : String)
  deriving DecidableEq, Repr

def leave (k : String) (b : BroadcastStream) : BroadcastStream :=
  { b with present := b.present.filter (fun j => j ≠ k) }

/-- Keys are distinct, and only participants that are present act. -/
def step (b : BroadcastStream) : Event → Option BroadcastStream
  | .join k => if k ∈ b.joined then none else
    some (add k { b with joined := b.joined ++ [k], present := b.present ++ [k] })
  | .send k => if k ∈ b.present then some (b.send k) else none
  | .end_ k => if k ∈ b.present then some ((b.endInput k).leave k) else none
  -- the handler calls `this.emit`, which is no function
  | .error k => if k ∈ b.present then some { b.leave k with thrown := b.thrown + 1 } else none

/-- Every message arrived once at each other participant that was present, and never at its
sender. -/
def Delivered (b : BroadcastStream) : Prop :=
  ∀ m k others, b.sent[m]? = some (k, others) →
    (∀ j ∈ others, b.received.count (j, m) = 1) ∧ b.received.count (k, m) = 0

/-- Nobody joins a domain in which an `input` was ended, and only the last participant leaves by
`end`. -/
def Spares (b : BroadcastStream) : Event → Prop
  | .join _ => ∀ p ∈ b.ports, p.ended = false
  | .end_ k => ∀ j ∈ b.present, j = k
  | .send _ | .error _ => True

instance (b : BroadcastStream) : (e : Event) → Decidable (b.Spares e)
  | .join _ => inferInstanceAs (Decidable (∀ p ∈ b.ports, p.ended = false))
  | .end_ k => inferInstanceAs (Decidable (∀ j ∈ b.present, j = k))
  | .send _ | .error _ => inferInstanceAs (Decidable True)

/-! ### The invariant -/

/-- Every registered port is open and piped to every other one. -/
structure Open (b : BroadcastStream) : Prop where
  nodup : b.keys.Nodup
  live : ∀ p ∈ b.ports, p.ended = false ∧ p.closed = false
  present : ∀ k ∈ b.present, k ∈ b.keys
  pipes : ∀ j ∈ b.keys, ∀ k ∈ b.keys, b.pipes.count (j, k) = if j = k then 0 else 1

/-- The names and numbers in the records are those of participants and messages. -/
structure Recorded (b : BroadcastStream) : Prop where
  keys : ∀ k ∈ b.keys, k ∈ b.joined
  ends : ∀ q ∈ b.pipes, q.1 ∈ b.joined ∧ q.2 ∈ b.joined
  present : ∀ k ∈ b.present, k ∈ b.joined
  sent : ∀ r ∈ b.sent, r.1 ∈ b.joined ∧ ∀ j ∈ r.2, j ∈ b.joined
  buffered : ∀ p ∈ b.ports, ∀ m ∈ p.buffered, m < b.sent.length
  received : ∀ r ∈ b.received, r.2 < b.sent.length

/-- Either the domain is open, or nobody is there and nobody can join. -/
structure Sound (b : BroadcastStream) : Prop where
  recorded : b.Recorded
  delivered : b.Delivered
  state : b.Open ∨ (b.present = [] ∧ ∃ p ∈ b.ports, p.ended = true)

variable {b : BroadcastStream} {k : String}

theorem count_dests (j : String) : (b.dests k).count j = b.pipes.count (k, j) := by
  unfold dests
  induction b.pipes with
  | nil => rfl
  | cons q l ih =>
    obtain ⟨x, y⟩ := q
    by_cases hx : x = k
    · rw [List.filter_cons_of_pos (by simp [hx]), List.map_cons, List.count_cons, ih,
        List.count_cons]
      subst hx
      simp
    · rw [List.filter_cons_of_neg (by simp [hx]), ih, List.count_cons_of_ne]
      simp [hx]

theorem sound_empty : empty.Sound := by
  refine ⟨?_, ?_, Or.inl ?_⟩
  · constructor <;> simp [empty, keys]
  · intro m k others h
    simp [empty] at h
  · constructor <;> simp [empty, keys]

/-! ### Ports that go -/

/-- Ports and pipes may have gone, and the records are the same. -/
structure Shrinks (b t : BroadcastStream) : Prop where
  ports : ∀ p ∈ t.ports, ∃ q ∈ b.ports, q.key = p.key ∧ q.buffered = p.buffered
  pipes : t.pipes ⊆ b.pipes
  joined : t.joined = b.joined
  present : t.present = b.present
  sent : t.sent = b.sent
  received : t.received = b.received

theorem Shrinks.refl (b : BroadcastStream) : b.Shrinks b :=
  ⟨fun p hp => ⟨p, hp, rfl, rfl⟩, List.Subset.refl _, rfl, rfl, rfl, rfl⟩

theorem Shrinks.trans {t u : BroadcastStream} (h : b.Shrinks t) (h' : t.Shrinks u) :
    b.Shrinks u := by
  constructor
  case ports =>
    intro p hp
    obtain ⟨q, hq, hkey, hbuffered⟩ := h'.ports p hp
    obtain ⟨r, hr, hkey', hbuffered'⟩ := h.ports q hq
    exact ⟨r, hr, hkey'.trans hkey, hbuffered'.trans hbuffered⟩
  case pipes => exact List.Subset.trans h'.pipes h.pipes
  case joined => exact h'.joined.trans h.joined
  case present => exact h'.present.trans h.present
  case sent => exact h'.sent.trans h.sent
  case received => exact h'.received.trans h.received

theorem Shrinks.recorded {t : BroadcastStream} (h : b.Shrinks t) (hb : b.Recorded) :
    t.Recorded := by
  obtain ⟨hports, hpipes, hjoined, hpresent, hsent, hreceived⟩ := h
  constructor
  case keys =>
    intro k hk
    obtain ⟨p, hp, rfl⟩ := List.mem_map.mp hk
    obtain ⟨q, hq, hkey, -⟩ := hports p hp
    rw [hjoined, ← hkey]
    exact hb.keys _ (List.mem_map_of_mem hq)
  case ends =>
    rw [hjoined]
    exact fun q hq => hb.ends q (hpipes hq)
  case present =>
    rw [hjoined, hpresent]
    exact hb.present
  case sent =>
    rw [hjoined, hsent]
    exact hb.sent
  case buffered =>
    intro p hp m hm
    obtain ⟨q, hq, -, hbuffered⟩ := hports p hp
    rw [← hbuffered] at hm
    rw [hsent]
    exact hb.buffered q hq m hm
  case received =>
    rw [hreceived, hsent]
    exact hb.received

theorem shrinks_remove (k : String) (b : BroadcastStream) : b.Shrinks (b.remove k) := by
  unfold remove
  split
  · exact Shrinks.refl b
  · exact ⟨fun p hp => ⟨p, List.eraseP_subset hp, rfl, rfl⟩, List.filter_subset_self _, rfl, rfl,
      rfl, rfl⟩

/-- A mark on a port. -/
theorem shrinks_mark (k : String) {f : Port → Port}
    (hf : ∀ p, (f p).key = p.key ∧ (f p).buffered = p.buffered)
    {pipes : List (String × String)} (hpipes : pipes ⊆ b.pipes) :
    b.Shrinks { b with
      ports := b.ports.map (fun p => if p.key = k then f p else p), pipes := pipes } := by
  refine ⟨?_, hpipes, rfl, rfl, rfl, rfl⟩
  intro p hp
  obtain ⟨q, hq, rfl⟩ := List.mem_map.mp hp
  refine ⟨q, hq, ?_⟩
  split_ifs
  · exact ⟨(hf q).1.symm, (hf q).2.symm⟩
  · exact ⟨rfl, rfl⟩

theorem shrinks_endOutput (k : String) (b : BroadcastStream) : b.Shrinks (b.endOutput k) :=
  (shrinks_mark k (f := fun p => { p with closed := true }) (fun _ => ⟨rfl, rfl⟩)
    (List.filter_subset_self _)).trans (shrinks_remove k _)

/-- An ended port stays as long as its own `output` is not ended. -/
theorem ended_endOutput {j : String} (hjk : j ≠ k) (h : ∃ p ∈ b.ports, p.key = k ∧ p.ended = true) :
    ∃ p ∈ (b.endOutput j).ports, p.key = k ∧ p.ended = true := by
  obtain ⟨p, hp, hkey, hended⟩ := h
  have hpj : p.key ≠ j := by
    rw [hkey]
    exact hjk.symm
  have hmem : p ∈ b.ports.map (fun p => if p.key = j then { p with closed := true } else p) :=
    List.mem_map.mpr ⟨p, hp, if_neg hpj⟩
  refine ⟨p, ?_, hkey, hended⟩
  unfold endOutput remove
  split
  · exact hmem
  · exact (List.mem_eraseP_of_neg (by simpa using hpj)).mpr hmem

theorem foldl_endOutput (l : List String) (b : BroadcastStream) :
    b.Shrinks (l.foldl (fun b j => b.endOutput j) b) ∧ (k ∉ l →
      (∃ p ∈ b.ports, p.key = k ∧ p.ended = true) →
      ∃ p ∈ (l.foldl (fun b j => b.endOutput j) b).ports, p.key = k ∧ p.ended = true) := by
  induction l generalizing b with
  | nil => exact ⟨Shrinks.refl b, fun _ h => h⟩
  | cons j l ih =>
    obtain ⟨hless, hkeep⟩ := ih (b.endOutput j)
    refine ⟨(shrinks_endOutput j b).trans hless, ?_⟩
    intro hk h
    obtain ⟨hjk, hk⟩ := List.ne_and_not_mem_of_not_mem_cons hk
    exact hkeep hk (ended_endOutput (Ne.symm hjk) h)

theorem endInput_spec (h : b.Open) (hk : k ∈ b.keys) : b.Shrinks (b.endInput k) ∧
    ∃ p ∈ (b.endInput k).ports, p.key = k ∧ p.ended = true := by
  have hself : k ∉ b.dests k := by
    rw [← List.count_eq_zero, count_dests, h.pipes k hk k hk, if_pos rfl]
  obtain ⟨hless, hkeep⟩ := foldl_endOutput (k := k) (b.dests k)
    { b with
      ports := b.ports.map (fun p => if p.key = k then { p with ended := true } else p)
      pipes := b.pipes.filter (fun q => q.1 ≠ k) }
  refine ⟨(shrinks_mark k (f := fun p => { p with ended := true }) (fun _ => ⟨rfl, rfl⟩)
    (List.filter_subset_self _)).trans hless, hkeep hself ?_⟩
  obtain ⟨p, hp, hkey⟩ := List.mem_map.mp hk
  exact ⟨{ p with ended := true }, List.mem_map.mpr ⟨p, hp, if_pos hkey⟩, hkey, rfl⟩

/-! ### The steps -/

theorem delivered_of_records {t : BroadcastStream} (h : b.Delivered) (hsent : t.sent = b.sent)
    (hreceived : t.received = b.received) : t.Delivered := by
  unfold Delivered
  rw [hsent, hreceived]
  exact h

theorem Recorded.leave (h : b.Recorded) (k : String) : (b.leave k).Recorded :=
  { h with present := fun j hj => h.present j (List.mem_of_mem_filter hj) }

theorem Open.leave (h : b.Open) (k : String) : (b.leave k).Open :=
  { h with present := fun j hj => h.present j (List.mem_of_mem_filter hj) }

/-- The last participant leaves. -/
theorem Sound.end_ (h : b.Sound) (hk : k ∈ b.present) (hlast : ∀ j ∈ b.present, j = k) :
    ((b.endInput k).leave k).Sound := by
  have hopen : b.Open := by
    refine h.state.resolve_right ?_
    rintro ⟨hnone, -⟩
    rw [hnone] at hk
    cases hk
  obtain ⟨hless, p, hp, hkey, hended⟩ := endInput_spec hopen (hopen.present k hk)
  refine ⟨(hless.recorded h.recorded).leave k, delivered_of_records h.delivered hless.sent
    hless.received, Or.inr ⟨?_, p, hp, hended⟩⟩
  show (b.endInput k).present.filter _ = []
  rw [hless.present, List.filter_eq_nil_iff]
  intro j hj
  simpa using hlast j hj

theorem Sound.error (h : b.Sound) (k : String) (n : ℕ) :
    ({ b.leave k with thrown := n } : BroadcastStream).Sound := by
  refine ⟨?_, h.delivered, ?_⟩
  · obtain ⟨h₁, h₂, h₃, h₄, h₅, h₆⟩ := h.recorded.leave k
    exact ⟨h₁, h₂, h₃, h₄, h₅, h₆⟩
  · rcases h.state with hopen | ⟨hnone, hended⟩
    · obtain ⟨h₁, h₂, h₃, h₄⟩ := hopen.leave k
      exact Or.inl ⟨h₁, h₂, h₃, h₄⟩
    · refine Or.inr ⟨?_, hended⟩
      show b.present.filter _ = []
      rw [hnone]
      rfl

theorem count_pipes_from (j i : String) (l : List String) :
    (l.map (fun x => (k, x))).count (j, i) = if j = k then l.count i else 0 := by
  induction l with
  | nil => simp
  | cons x l ih =>
    rw [List.map_cons, List.count_cons, ih, List.count_cons]
    by_cases hj : j = k
    · simp [hj]
    · simp [hj, Ne.symm hj]

theorem count_pipes_to (j i : String) (l : List String) :
    (l.map (fun x => (x, k))).count (j, i) = if i = k then l.count j else 0 := by
  induction l with
  | nil => simp
  | cons x l ih =>
    rw [List.map_cons, List.count_cons, ih, List.count_cons]
    by_cases hi : i = k
    · simp [hi]
    · simp [hi, Ne.symm hi]

/-- What a participant with a new key finds. -/
theorem add_eq (h : ∀ p ∈ b.ports, p.ended = false) (hk : k ∉ b.keys) : b.add k = { b with
    ports := b.ports.map (fun p => { p with buffered := [] }) ++ [⟨k, [], false, false⟩]
    pipes := b.pipes ++ b.keys.map (fun x => (k, x)) ++ b.keys.map (fun x => (x, k))
    received := b.received ++ b.ports.flatMap (fun p => p.buffered.map (fun m => (k, m))) } := by
  have hothers : b.ports.filter (fun p => p.key ≠ k) = b.ports := by
    apply List.filter_eq_self.mpr
    intro p hp
    have hne : p.key ≠ k := fun heq => hk (heq ▸ List.mem_map_of_mem hp)
    simpa using hne
  have hnone : ¬(b.ports.any Port.ended = true) := by
    simp only [List.any_eq_true, not_exists, not_and, Bool.not_eq_true]
    exact h
  unfold add
  simp only [hothers, if_neg hnone, keys, List.map_map]
  rfl

/-- A participant joins an open domain. -/
theorem Sound.join (h : b.Sound) (hk : k ∉ b.joined) (hlive : ∀ p ∈ b.ports, p.ended = false) :
    (add k { b with joined := b.joined ++ [k], present := b.present ++ [k] }).Sound := by
  have hopen : b.Open := by
    refine h.state.resolve_right ?_
    rintro ⟨-, p, hp, hended⟩
    rw [hlive p hp] at hended
    cases hended
  have hkeys : k ∉ b.keys := fun hmem => hk (h.recorded.keys k hmem)
  have hadd := add_eq (b := { b with joined := b.joined ++ [k], present := b.present ++ [k] })
    hlive hkeys
  have hports : b.keys ++ [k] = ((b.ports.map (fun p : Port => { p with buffered := [] })) ++
      [(⟨k, [], false, false⟩ : Port)]).map Port.key := by
    rw [List.map_append, List.map_map]
    rfl
  have hold : ∀ j ∈ b.joined, j ≠ k := fun j hj heq => hk (heq ▸ hj)
  rw [hadd]
  refine ⟨?_, ?_, Or.inl ?_⟩
  · constructor
    case keys =>
      intro j hj
      change j ∈ ((b.ports.map (fun p : Port => { p with buffered := [] })) ++
        [(⟨k, [], false, false⟩ : Port)]).map Port.key at hj
      rw [← hports] at hj
      rcases List.mem_append.mp hj with hj | hj
      · exact List.mem_append_left _ (h.recorded.keys j hj)
      · exact List.mem_append_right _ hj
    case ends =>
      intro q hq
      have hkey : ∀ x ∈ b.keys, x ∈ b.joined ++ [k] :=
        fun x hx => List.mem_append_left _ (h.recorded.keys x hx)
      have hself : k ∈ b.joined ++ [k] := List.mem_append_right _ (List.mem_singleton_self k)
      rcases List.mem_append.mp hq with hq | hq
      · rcases List.mem_append.mp hq with hq | hq
        · obtain ⟨h₁, h₂⟩ := h.recorded.ends q hq
          exact ⟨List.mem_append_left _ h₁, List.mem_append_left _ h₂⟩
        · obtain ⟨x, hx, rfl⟩ := List.mem_map.mp hq
          exact ⟨hself, hkey x hx⟩
      · obtain ⟨x, hx, rfl⟩ := List.mem_map.mp hq
        exact ⟨hkey x hx, hself⟩
    case present =>
      intro j hj
      rcases List.mem_append.mp hj with hj | hj
      · exact List.mem_append_left _ (h.recorded.present j hj)
      · exact List.mem_append_right _ hj
    case sent =>
      intro r hr
      obtain ⟨h₁, h₂⟩ := h.recorded.sent r hr
      exact ⟨List.mem_append_left _ h₁, fun j hj => List.mem_append_left _ (h₂ j hj)⟩
    case buffered =>
      intro p hp m hm
      rcases List.mem_append.mp hp with hp | hp
      · obtain ⟨q, hq, rfl⟩ := List.mem_map.mp hp
        cases hm
      · rw [List.mem_singleton.mp hp] at hm
        cases hm
    case received =>
      intro r hr
      rcases List.mem_append.mp hr with hr | hr
      · exact h.recorded.received r hr
      · obtain ⟨p, hp, hr⟩ := List.mem_flatMap.mp hr
        obtain ⟨m, hm, rfl⟩ := List.mem_map.mp hr
        exact h.recorded.buffered p hp m hm
  · -- only the new participant receives what was buffered
    have hother : ∀ j ∈ b.joined, ∀ m, (b.received ++ b.ports.flatMap (fun p =>
        p.buffered.map (fun m => (k, m)))).count (j, m) = b.received.count (j, m) := by
      intro j hj m
      have hzero : (b.ports.flatMap (fun p => p.buffered.map (fun m => (k, m)))).count (j, m) =
          0 := by
        rw [List.count_eq_zero]
        intro hmem
        obtain ⟨p, -, hmem⟩ := List.mem_flatMap.mp hmem
        obtain ⟨m', -, heq⟩ := List.mem_map.mp hmem
        exact hold j hj (congrArg Prod.fst heq).symm
      rw [List.count_append, hzero, Nat.add_zero]
    intro m j others hm
    obtain ⟨hj, hothers⟩ := h.recorded.sent _ (List.mem_of_getElem? hm)
    obtain ⟨hall, hself⟩ := h.delivered m j others hm
    refine ⟨fun i hi => ?_, ?_⟩
    · exact (hother i (hothers i hi) m).trans (hall i hi)
    · exact (hother j hj m).trans hself
  · constructor
    case nodup =>
      show (((b.ports.map (fun p : Port => { p with buffered := [] })) ++
        [(⟨k, [], false, false⟩ : Port)]).map Port.key).Nodup
      rw [← hports]
      exact hopen.nodup.append (List.nodup_singleton k) (by simpa using hkeys)
    case live =>
      intro p hp
      rcases List.mem_append.mp hp with hp | hp
      · obtain ⟨q, hq, rfl⟩ := List.mem_map.mp hp
        exact hopen.live q hq
      · rw [List.mem_singleton.mp hp]
        exact ⟨rfl, rfl⟩
    case present =>
      intro j hj
      show j ∈ ((b.ports.map (fun p : Port => { p with buffered := [] })) ++
        [(⟨k, [], false, false⟩ : Port)]).map Port.key
      rw [← hports]
      rcases List.mem_append.mp hj with hj | hj
      · exact List.mem_append_left _ (hopen.present j hj)
      · exact List.mem_append_right _ hj
    case pipes =>
      have hone : ∀ i ∈ b.keys, b.keys.count i = 1 :=
        fun i hi => List.count_eq_one_of_mem hopen.nodup hi
      have hnone : b.keys.count k = 0 := List.count_eq_zero.mpr hkeys
      have hfrom : ∀ i, b.pipes.count (k, i) = 0 := by
        intro i
        rw [List.count_eq_zero]
        exact fun hmem => hk (h.recorded.ends _ hmem).1
      have hto : ∀ i, b.pipes.count (i, k) = 0 := by
        intro i
        rw [List.count_eq_zero]
        exact fun hmem => hk (h.recorded.ends _ hmem).2
      have hne : ∀ i ∈ b.keys, i ≠ k := fun i hi => hold i (h.recorded.keys i hi)
      intro j hj i hi
      change j ∈ ((b.ports.map (fun p : Port => { p with buffered := [] })) ++
        [(⟨k, [], false, false⟩ : Port)]).map Port.key at hj
      change i ∈ ((b.ports.map (fun p : Port => { p with buffered := [] })) ++
        [(⟨k, [], false, false⟩ : Port)]).map Port.key at hi
      rw [← hports] at hj hi
      show (b.pipes ++ b.keys.map (fun x => (k, x)) ++ b.keys.map (fun x => (x, k))).count (j, i) =
        _
      rw [List.count_append, List.count_append, count_pipes_from, count_pipes_to]
      rcases List.mem_append.mp hj with hj | hj
      · rcases List.mem_append.mp hi with hi | hi
        · rw [if_neg (hne j hj), if_neg (hne i hi), hopen.pipes j hj i hi]
          rfl
        · rw [List.mem_singleton.mp hi, if_neg (hne j hj), if_pos rfl, hto, hone j hj,
            if_neg (hne j hj)]
      · rw [List.mem_singleton.mp hj]
        rcases List.mem_append.mp hi with hi | hi
        · rw [if_pos rfl, if_neg (hne i hi), hfrom, hone i hi, if_neg (hne i hi).symm]
        · rw [List.mem_singleton.mp hi, if_pos rfl, if_pos rfl, hfrom, hnone]

/-- A message goes where the `input` of its sender is piped to. -/
theorem Sound.send (h : b.Sound) (hk : k ∈ b.present) : (b.send k).Sound := by
  have hopen : b.Open := by
    refine h.state.resolve_right ?_
    rintro ⟨hnone, -⟩
    rw [hnone] at hk
    cases hk
  have hkeys := hopen.present k hk
  have hcount : ∀ j ∈ b.keys, (b.dests k).count j = if k = j then 0 else 1 := by
    intro j hj
    rw [count_dests, hopen.pipes k hkeys j hj]
  have hothers : ∀ j ∈ b.present.filter (fun j => j ≠ k), (b.dests k).count j = 1 := by
    intro j hj
    obtain ⟨hj, hne⟩ := List.mem_filter.mp hj
    rw [hcount j (hopen.present j hj), if_neg (by simpa using Ne.symm (of_decide_eq_true hne))]
  have hself : (b.dests k).count k = 0 := by
    rw [hcount k hkeys, if_pos rfl]
  have hrecord : ∀ r ∈ b.sent ++ [(k, b.present.filter (fun j => j ≠ k))],
      r.1 ∈ b.joined ∧ ∀ j ∈ r.2, j ∈ b.joined := by
    intro r hr
    rcases List.mem_append.mp hr with hr | hr
    · exact h.recorded.sent r hr
    · rw [List.mem_singleton.mp hr]
      refine ⟨h.recorded.present k hk, ?_⟩
      exact fun j hj => h.recorded.present j (List.mem_of_mem_filter hj)
  have hlonger : ∀ m, m < b.sent.length →
      m < (b.sent ++ [(k, b.present.filter (fun j => j ≠ k))]).length := by
    intro m hm
    rw [List.length_append]
    omega
  -- every destination gets the message once, and nobody had it before
  have hdelivered : ∀ t : BroadcastStream,
      t.sent = b.sent ++ [(k, b.present.filter (fun j => j ≠ k))] →
      t.received = b.received ++ (b.dests k).map (fun j => (j, b.sent.length)) →
      t.Delivered := by
    intro t hsent hreceived m i others hm
    rw [hsent] at hm
    rw [hreceived]
    have hnew : ∀ j, ((b.dests k).map (fun j => (j, b.sent.length))).count (j, m) =
        if m = b.sent.length then (b.dests k).count j else 0 := by
      intro j
      induction b.dests k with
      | nil => simp
      | cons x l ih =>
        rw [List.map_cons, List.count_cons, ih, List.count_cons]
        by_cases hm : m = b.sent.length
        · simp [hm]
        · simp [hm, Ne.symm hm]
    have hbefore : ∀ j, b.received.count (j, b.sent.length) = 0 := by
      intro j
      rw [List.count_eq_zero]
      intro hmem
      have hlt := h.recorded.received _ hmem
      exact absurd hlt (Nat.lt_irrefl _)
    simp only [List.count_append, hnew]
    rcases Nat.lt_or_ge m b.sent.length with hlt | hge
    · rw [List.getElem?_append_left hlt] at hm
      rw [if_neg (Nat.ne_of_lt hlt)]
      obtain ⟨hall, hnone⟩ := h.delivered m i others hm
      refine ⟨fun j hj => ?_, hnone⟩
      rw [if_neg (Nat.ne_of_lt hlt)]
      exact hall j hj
    · rw [List.getElem?_append_right hge] at hm
      have hm' : m = b.sent.length := by
        have hlt := (List.getElem?_eq_some_iff.mp hm).1
        rw [List.length_singleton] at hlt
        omega
      subst hm'
      rw [Nat.sub_self] at hm
      cases hm
      refine ⟨fun j hj => ?_, ?_⟩
      · rw [hbefore, if_pos rfl, hothers j hj]
      · rw [hbefore, if_pos rfl, hself]
  unfold BroadcastStream.send
  dsimp only
  have hdests : dests k { b with sent := b.sent ++ [(k, b.present.filter (fun j => j ≠ k))] } =
      b.dests k := rfl
  rw [hdests]
  split_ifs with hnil
  · let keep (p : Port) : Port :=
      if p.key = k then { p with buffered := p.buffered ++ [b.sent.length] } else p
    have hkeep : ∀ p, (keep p).key = p.key ∧ (keep p).ended = p.ended ∧
        (keep p).closed = p.closed := by
      intro p
      by_cases hp : p.key = k
      · simp only [keep, if_pos hp]
        exact ⟨trivial, trivial, trivial⟩
      · simp only [keep, if_neg hp]
        exact ⟨trivial, trivial, trivial⟩
    have hsame : (b.ports.map keep).map Port.key = b.keys := by
      rw [List.map_map]
      exact List.map_congr_left (fun p _ => (hkeep p).1)
    refine ⟨?_, hdelivered _ rfl (by simp [hnil]), Or.inl ?_⟩
    · constructor
      case keys =>
        intro j hj
        change j ∈ (b.ports.map keep).map Port.key at hj
        rw [hsame] at hj
        exact h.recorded.keys j hj
      case ends => exact h.recorded.ends
      case present => exact h.recorded.present
      case sent => exact hrecord
      case buffered =>
        intro p hp m hm
        obtain ⟨q, hq, rfl⟩ := List.mem_map.mp hp
        have hlength : b.sent.length <
            (b.sent ++ [(k, b.present.filter (fun j => j ≠ k))]).length := by
          rw [List.length_append, List.length_singleton]
          omega
        split_ifs at hm
        · rcases List.mem_append.mp hm with hm | hm
          · exact hlonger m (h.recorded.buffered q hq m hm)
          · rw [List.mem_singleton.mp hm]
            exact hlength
        · exact hlonger m (h.recorded.buffered q hq m hm)
      case received => exact fun r hr => hlonger _ (h.recorded.received r hr)
    · constructor
      case nodup =>
        show ((b.ports.map keep).map Port.key).Nodup
        rw [hsame]
        exact hopen.nodup
      case live =>
        intro p hp
        obtain ⟨q, hq, rfl⟩ := List.mem_map.mp hp
        obtain ⟨-, hended, hclosed⟩ := hkeep q
        obtain ⟨h₁, h₂⟩ := hopen.live q hq
        exact ⟨hended.trans h₁, hclosed.trans h₂⟩
      case present =>
        intro j hj
        show j ∈ (b.ports.map keep).map Port.key
        rw [hsame]
        exact hopen.present j hj
      case pipes =>
        intro j hj i hi
        change j ∈ (b.ports.map keep).map Port.key at hj
        change i ∈ (b.ports.map keep).map Port.key at hi
        rw [hsame] at hj hi
        exact hopen.pipes j hj i hi
  · refine ⟨?_, hdelivered _ rfl rfl, Or.inl ⟨hopen.nodup, hopen.live, hopen.present,
      hopen.pipes⟩⟩
    constructor
    case keys => exact h.recorded.keys
    case ends => exact h.recorded.ends
    case present => exact h.recorded.present
    case sent => exact hrecord
    case buffered => exact fun p hp m hm => hlonger m (h.recorded.buffered p hp m hm)
    case received =>
      intro r hr
      rcases List.mem_append.mp hr with hr | hr
      · exact hlonger _ (h.recorded.received r hr)
      · obtain ⟨j, -, rfl⟩ := List.mem_map.mp hr
        show b.sent.length < (b.sent ++ [_]).length
        rw [List.length_append, List.length_singleton]
        omega

/-- Every step that the guard admits keeps the domain sound. -/
theorem Sound.step {t : BroadcastStream} {e : Event} (h : b.Sound) (hok : b.Spares e)
    (hstep : b.step e = some t) : t.Sound := by
  cases e with
  | join k =>
    simp only [BroadcastStream.step] at hstep
    split_ifs at hstep with hk
    cases hstep
    exact h.join hk hok
  | send k =>
    simp only [BroadcastStream.step] at hstep
    split_ifs at hstep with hk
    cases hstep
    exact h.send hk
  | end_ k =>
    simp only [BroadcastStream.step] at hstep
    split_ifs at hstep with hk
    cases hstep
    exact h.end_ hk hok
  | error k =>
    simp only [BroadcastStream.step] at hstep
    split_ifs at hstep with hk
    cases hstep
    exact h.error k _

end BroadcastStream
end L7mp
