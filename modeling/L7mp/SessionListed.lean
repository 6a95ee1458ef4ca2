import L7mp.GuardedRun
import L7mp.SessionRegistry
import L7mp.SessionTerminal

/-! The list of sessions holds exactly the sessions whose `destroy` callback has not run, and a
session that looks itself up by name finds itself or nothing. -/
namespace L7mp
open GuardedRun

namespace Registry

/-- What `l7mp.sessions` is for: live sessions are in it, an untracked session that was destroyed
is gone from it once the callbacks that wait now have run, a session leaves it by its own `destroy`
event only, and whoever looks itself up finds no other session. -/
structure Tidy (ok : Registry → Event → Prop) (w : Registry) : Prop where
  live : ∀ o s, w.objects[o]? = some s → s.status ≠ .destroyed → o ∈ w.sessions
  gone : ∀ o s, w.objects[o]? = some s → s.status = .destroyed → s.track = 0 →
    ∀ t, Run step ok w t → w.immediates.length ≤ t.ran → o ∉ t.sessions
  own : ∀ e t, w.step e = some t → ∀ o ∈ w.sessions, o ∉ t.sessions →
    e = .immediate ∧ w.immediates[w.ran]? = some o
  itself : ∀ o ∈ w.sessions, ∀ s, w.objects[o]? = some s → w.getSession s.name = some o
  lookup : ∀ o s e t, w.objects[o]? = some s → s.LooksUp e → w.step (.session o e) = some t →
    ∀ p, w.getSession s.name = some p → p = o

/-- The callbacks that have run are those of the sessions that left the list, in the order of
the list nothing changes, and no other listed session has the name of a session that is listed
or may still connect. -/
structure Kept (w : Registry) : Prop where
  ran : w.ran ≤ w.immediates.length
  known : ∀ o ∈ w.immediates, o < w.objects.length
  listed : w.sessions =
    (List.range w.objects.length).filter (fun o => o ∉ w.immediates.take w.ran)
  counts : ∀ o s, w.objects[o]? = some s → w.immediates.count o = s.emitted.count .destroy
  settled : ∀ s ∈ w.objects, s.lifecycle.Settled
  names : ∀ o s, w.objects[o]? = some s → o ∈ w.sessions ∨ ¬s.Idle →
    ∀ p ∈ w.sessions, w.named s.name p = true → p = o

theorem kept_empty : empty.Kept := by
  constructor <;> simp [empty]

theorem named_self {w : Registry} {o : ℕ} {s : Session} (hs : w.objects[o]? = some s) :
    w.named s.name o = true := by
  simp [named, hs]

theorem named_iff {w : Registry} {n : String} {o : ℕ} :
    w.named n o = true ↔ ∃ s, w.objects[o]? = some s ∧ s.name = n := by
  unfold named
  cases w.objects[o]? <;> simp

theorem freshName_free {w : Registry} {name n : String} (h : w.freshName name = some n) :
    ∀ o ∈ w.sessions, w.named n o = false := by
  intro o ho
  have hnone := find_newName h
  have hnone : w.sessions.find? (w.named n) = none := by simpa [getSession] using hnone
  simpa using List.find?_eq_none.mp hnone o ho

theorem Kept.mem_sessions {w : Registry} (h : w.Kept) {o : ℕ} :
    o ∈ w.sessions ↔ o < w.objects.length ∧ o ∉ w.immediates.take w.ran := by
  rw [h.listed]
  simp

/-- A session has at most one callback. -/
theorem Kept.count_le {w : Registry} (h : w.Kept) (o : ℕ) : w.immediates.count o ≤ 1 := by
  by_cases ho : o < w.objects.length
  · have hs : w.objects[o]? = some w.objects[o] := List.getElem?_eq_getElem ho
    have hset := h.settled _ (List.mem_of_getElem? hs)
    have hcount := h.counts o _ hs
    by_cases hd : w.objects[o].status = .destroyed
    · have := hset.dead hd
      change w.objects[o].emitted.count .destroy + w.objects[o].timers = 1 at this
      omega
    · have := hset.alive hd
      change w.objects[o].emitted.count .destroy + w.objects[o].timers = 0 at this
      omega
  · have hnone : o ∉ w.immediates := fun hmem => ho (h.known o hmem)
    rw [List.count_eq_zero_of_not_mem hnone]
    omega

/-- The owner of the next callback is still listed. -/
theorem Kept.next_listed {w : Registry} (h : w.Kept) {o : ℕ}
    (ho : w.immediates[w.ran]? = some o) : o ∈ w.sessions := by
  apply h.mem_sessions.mpr
  refine ⟨h.known o (List.mem_of_getElem? ho), fun hmem => ?_⟩
  -- one callback more than the session has
  have hsplit : w.immediates.take (w.ran+1) = w.immediates.take w.ran ++ [o] := by
    rw [List.take_add_one, ho]
    rfl
  have hle : (w.immediates.take (w.ran+1)).count o ≤ w.immediates.count o :=
    (List.take_sublist _ _).count_le o
  rw [hsplit, List.count_append, List.count_singleton_self] at hle
  have hpos := List.count_pos_iff.mpr hmem
  have hone := h.count_le o
  omega

theorem named_update {w : Registry} {o : ℕ} {s t : Session} (hs : w.objects[o]? = some s)
    (hname : t.name = s.name) (n : String) (p : ℕ) :
    (w.update o s t).named n p = w.named n p := by
  unfold named update
  dsimp only
  by_cases hp : p = o
  · subst hp
    rw [List.getElem?_set_self (List.getElem?_eq_some_iff.mp hs).1, hs]
    simp [hname]
  · rw [List.getElem?_set_ne (Ne.symm hp)]

/-- A session that runs a piece of code keeps its place in the list. -/
theorem Kept.update {w : Registry} (h : w.Kept) {o : ℕ} {s t : Session}
    (hs : w.objects[o]? = some s) (hname : t.name = s.name)
    (hgrow : s.emitted.count .destroy ≤ t.emitted.count .destroy)
    (hset : t.lifecycle.Settled) (hidle : o ∉ w.sessions → s.Idle → t.Idle) :
    (w.update o s t).Kept := by
  have hlen := (List.getElem?_eq_some_iff.mp hs).1
  have hobjects (p : ℕ) (u : Session) (hu : (w.objects.set o t)[p]? = some u) :
      p = o ∧ u = t ∨ p ≠ o ∧ w.objects[p]? = some u := by
    by_cases hp : p = o
    · subst hp
      rw [List.getElem?_set_self hlen] at hu
      exact .inl ⟨rfl, (Option.some.inj hu).symm⟩
    · rw [List.getElem?_set_ne (Ne.symm hp)] at hu
      exact .inr ⟨hp, hu⟩
  constructor
  case ran =>
    have hran := h.ran
    simp only [Registry.update, List.length_append]
    omega
  case known =>
    intro p hp
    simp only [Registry.update, List.length_set]
    rcases List.mem_append.mp hp with hp | hp
    · exact h.known p hp
    · rw [(List.mem_replicate.mp hp).2]
      exact hlen
  case listed =>
    change w.sessions = _
    simp only [Registry.update, List.length_set, List.take_append_of_le_length h.ran]
    exact h.listed
  case counts =>
    intro p u hu
    change (w.immediates ++ _).count p = _
    rw [List.count_append, List.count_replicate]
    rcases hobjects p u hu with ⟨rfl, rfl⟩ | ⟨hp, hu⟩
    · have hcount := h.counts p s hs
      simp only [beq_self_eq_true, ↓reduceIte]
      omega
    · rw [h.counts p u hu, if_neg (by simpa using Ne.symm hp)]
      omega
  case settled =>
    intro u hu
    obtain ⟨p, hp⟩ := List.getElem?_of_mem hu
    rcases hobjects p u hp with ⟨-, rfl⟩ | ⟨-, hp⟩
    · exact hset
    · exact h.settled u (List.mem_of_getElem? hp)
  case names =>
    intro p u hu hor q hq hnamed
    rw [named_update hs hname] at hnamed
    rcases hobjects p u hu with ⟨rfl, rfl⟩ | ⟨-, hu⟩
    · rw [hname] at hnamed
      refine h.names p s hs ?_ q hq hnamed
      rcases hor with hor | hor
      · exact .inl hor
      · by_cases hmem : p ∈ w.sessions
        · exact .inl hmem
        · exact .inr (fun hi => hor (hidle hmem hi))
    · exact h.names p u hu hor q hq hnamed

/-- A session is added under a name that no listed session has, and no session that may still
connect. -/
theorem Kept.push {w : Registry} (h : w.Kept) {s : Session}
    (hfree : ∀ o ∈ w.sessions, w.named s.name o = false)
    (hspare : ∀ u ∈ w.objects, u.name = s.name → u.Idle) (hset : s.lifecycle.Settled)
    (hcount : s.emitted.count .destroy = 0) : (w.push s).Kept := by
  have hobjects (p : ℕ) (u : Session) (hu : (w.objects ++ [s])[p]? = some u) :
      p = w.objects.length ∧ u = s ∨ w.objects[p]? = some u := by
    rcases Nat.lt_or_ge p w.objects.length with hp | hp
    · rw [List.getElem?_append_left hp] at hu
      exact .inr hu
    · have hlt := (List.getElem?_eq_some_iff.mp hu).1
      rw [List.length_append, List.length_singleton] at hlt
      obtain rfl : p = w.objects.length := by omega
      rw [List.getElem?_concat_length] at hu
      exact .inl ⟨rfl, (Option.some.inj hu).symm⟩
  have hnew : w.objects.length ∉ w.immediates := fun hmem =>
    absurd (h.known _ hmem) (Nat.lt_irrefl _)
  constructor
  case ran => exact h.ran
  case known =>
    intro p hp
    have hlt := h.known p hp
    simp only [Registry.push, List.length_append, List.length_singleton]
    omega
  case listed =>
    have hkeep : w.objects.length ∉ w.immediates.take w.ran :=
      fun hmem => hnew (List.mem_of_mem_take hmem)
    change w.sessions ++ [w.objects.length] =
      (List.range (w.objects ++ [s]).length).filter (fun o => o ∉ w.immediates.take w.ran)
    rw [List.length_append, List.length_singleton, List.range_succ, List.filter_append,
      ← h.listed, List.filter_singleton, decide_eq_true hkeep]
    rfl
  case counts =>
    intro p u hu
    rcases hobjects p u hu with ⟨rfl, rfl⟩ | hu
    · rw [hcount]
      exact List.count_eq_zero_of_not_mem hnew
    · exact h.counts p u hu
  case settled =>
    intro u hu
    rcases List.mem_append.mp hu with hu | hu
    · exact h.settled u hu
    · rw [List.mem_singleton.mp hu]
      exact hset
  case names =>
    intro p u hu hor q hq hnamed
    obtain ⟨v, hv, hname⟩ := named_iff.mp hnamed
    have hmem {r : ℕ} {x : Session} (hx : w.objects[r]? = some x)
        (h : r ∈ w.sessions ++ [w.objects.length]) : r ∈ w.sessions := by
      have hr := (List.getElem?_eq_some_iff.mp hx).1
      rcases List.mem_append.mp h with h | h
      · exact h
      · rw [List.mem_singleton.mp h] at hr
        omega
    rcases hobjects p u hu with ⟨hp, rfl⟩ | hu' <;> rcases hobjects q v hv with ⟨hq', hvs⟩ | hv'
    · rw [hp, hq']
    · -- a listed session would have the new name
      have := hfree q (hmem hv' hq)
      rw [named_iff.mpr ⟨v, hv', hname⟩] at this
      cases this
    · rw [hvs] at hname
      rcases hor with hor | hor
      · have := hfree p (hmem hu' hor)
        rw [named_iff.mpr ⟨u, hu', hname.symm⟩] at this
        cases this
      · exact absurd (hspare u (List.mem_of_getElem? hu') hname.symm) hor
    · exact h.names p u hu' (hor.imp_left (hmem hu')) q (hmem hv' hq)
        (named_iff.mpr ⟨v, hv', hname⟩)

theorem eraseP_of_unique {l : List ℕ} {p : ℕ → Bool} {a : ℕ} (hn : l.Nodup)
    (hp : ∀ b ∈ l, p b = true ↔ b = a) : l.eraseP p = l.filter (fun b => b ≠ a) := by
  induction l with
  | nil => rfl
  | cons x l ih =>
    obtain ⟨hx, hn⟩ := List.nodup_cons.mp hn
    have hrest := fun b hb => hp b (List.mem_cons_of_mem x hb)
    by_cases hxa : x = a
    · rw [List.eraseP_cons_of_pos ((hp x List.mem_cons_self).mpr hxa),
        List.filter_cons_of_neg (by simpa using hxa), List.filter_eq_self.mpr]
      intro b hb
      simpa using fun h : b = a => hx (hxa.trans h.symm ▸ hb)
    · have hpx : ¬p x = true := fun h => hxa ((hp x List.mem_cons_self).mp h)
      rw [List.eraseP_cons_of_neg hpx, List.filter_cons_of_pos (by simpa using hxa),
        ih hn hrest]

theorem Kept.nodup {w : Registry} (h : w.Kept) : w.sessions.Nodup := by
  rw [h.listed]
  exact List.nodup_range.filter _

/-- The callback of a session removes that session. -/
theorem Kept.deleteSession {w : Registry} (h : w.Kept) {o : ℕ} {s : Session}
    (ho : w.immediates[w.ran]? = some o) (hs : w.objects[o]? = some s) :
    (w.deleteSession s.name).sessions = w.sessions.filter (fun p => p ≠ o) := by
  apply eraseP_of_unique h.nodup
  intro p hp
  refine ⟨h.names o s hs (.inl (h.next_listed ho)) p hp, ?_⟩
  rintro rfl
  exact named_self hs

theorem Kept.immediate {w : Registry} (h : w.Kept) {o : ℕ} {s : Session}
    (ho : w.immediates[w.ran]? = some o) (hs : w.objects[o]? = some s) :
    ({ w.deleteSession s.name with ran := w.ran + 1 } : Registry).Kept := by
  have hmem {p : ℕ} (hp : p ∈ (w.deleteSession s.name).sessions) : p ∈ w.sessions :=
    List.eraseP_subset hp
  constructor
  case ran =>
    have := (List.getElem?_eq_some_iff.mp ho).1
    dsimp only [Registry.deleteSession]
    omega
  case known => exact h.known
  case listed =>
    have htake : w.immediates.take (w.ran+1) = w.immediates.take w.ran ++ [o] := by
      rw [List.take_add_one, ho]
      rfl
    change (w.deleteSession s.name).sessions =
      (List.range w.objects.length).filter (fun p => p ∉ w.immediates.take (w.ran+1))
    rw [h.deleteSession ho hs, h.listed, List.filter_filter, htake]
    apply List.filter_congr
    intro p _
    simp [and_comm]
  case counts => exact h.counts
  case settled => exact h.settled
  case names =>
    intro p u hu hor q hq hnamed
    exact h.names p u hu (hor.imp_left hmem) q (hmem hq) hnamed

theorem seen_moves (s : Session) (found : Bool) (e : Session.Event) :
    s.moves (e.seen found) = s.moves e := by
  cases e <;> rfl

/-- `step` on an event of session `o`, opened up. -/
theorem step_session {w t : Registry} {o : ℕ} {e : Session.Event}
    (h : w.step (.session o e) = some t) : ∃ s s', w.objects[o]? = some s ∧
      s.step (e.seen (w.getSession s.name).isSome) = some s' ∧ t = w.update o s s' ∧
      (o ∉ w.sessions → ∀ i env thr, e ≠ .disconnect i env thr) := by
  simp only [step] at h
  cases hs : w.objects[o]? with
  | none =>
    rw [hs] at h
    cases h
  | some s =>
    simp only [hs] at h
    split at h
    · cases h
    · rename_i hne
      obtain ⟨s', hs', rfl⟩ := Option.map_eq_some_iff.mp h
      refine ⟨s, s', rfl, hs', rfl, ?_⟩
      rintro ho i env thr rfl
      exact hne i env thr rfl (by simpa using ho)

theorem Kept.step {w t : Registry} (h : w.Kept) {e : Event} (hok : w.Spares e)
    (hstep : w.step e = some t) : t.Kept := by
  cases e with
  | add name id origin err st =>
    simp only [Registry.step] at hstep
    cases hn : w.freshName name with
    | none =>
      rw [hn] at hstep
      cases hstep
      exact h
    | some n =>
      rw [hn] at hstep
      cases hstep
      have hnew : (Session.new n id origin err).lifecycle.Settled := by
        constructor <;> simp [Session.lifecycle_new]
      have hpush := h.push (s := Session.new n id origin err) (freshName_free hn) (hok n hn)
        hnew rfl
      have hname (st : Session.Start) : (Session.start n id origin err st).name = n := by
        cases st with
        | failed track lookedUp thr =>
          simp only [Session.start]
          split_ifs <;> exact congrArg Identity.name (Session.identity_error ..)
        | piped => rfl
      exact hpush.update (List.getElem?_concat_length) (hname _) (Nat.zero_le _)
        (Session.settled_start ..) (fun hmem => absurd (List.mem_append_right _
          List.mem_cons_self) hmem)
  | session o e =>
    obtain ⟨s, s', hs, hs', rfl, hapi⟩ := step_session hstep
    have hmoves := Session.step_lifecycle hs'
    have hspare : s.Spares (e.seen (w.getSession s.name).isSome) := by
      unfold Session.Spares
      rw [seen_moves]
      exact hok s hs
    have hgrow : s.emitted.count .destroy ≤ s'.emitted.count .destroy := by
      obtain ⟨es, hes⟩ := Lifecycle.emitted_foldl (s.moves _) s.lifecycle
      rw [← hmoves] at hes
      change s'.emitted = s.emitted ++ es at hes
      rw [hes, List.count_append]
      omega
    refine h.update hs (Session.step_name hs') hgrow
      (Session.settled_step (h.settled s (List.mem_of_getElem? hs)) hspare hs')
      (fun ho hidle => (hidle.step hs' ?_).1)
    intro i env thr heq
    have hne := hapi ho
    cases e <;> cases heq
    exact hne _ _ _ rfl
  | immediate =>
    simp only [Registry.step] at hstep
    split at hstep
    · cases hstep
    · rename_i o ho
      split at hstep
      · cases hstep
      · rename_i s hs
        cases hstep
        exact h.immediate ho hs

theorem kept_reachable {w : Registry} (h : Run step Spares empty w) : w.Kept :=
  Run.invariant (P := Kept) (fun _ _ _ hw hok hs => hw.step hok hs) h kept_empty

/-- Callbacks are queued one after the other. -/
theorem step_immediates {w t : Registry} {e : Event} (h : w.step e = some t) :
    w.immediates <+: t.immediates := by
  cases e with
  | add name id origin err st =>
    simp only [step] at h
    split at h <;> cases h
    · exact List.prefix_refl _
    · exact List.prefix_append _ _
  | session o e =>
    obtain ⟨s, s', -, -, rfl, -⟩ := step_session h
    exact List.prefix_append _ _
  | immediate =>
    simp only [step] at h
    split at h
    · cases h
    · split at h <;> cases h
      exact List.prefix_refl _

theorem Kept.live {w : Registry} (h : w.Kept) {o : ℕ} {s : Session}
    (hs : w.objects[o]? = some s) (hd : s.status ≠ .destroyed) : o ∈ w.sessions := by
  apply h.mem_sessions.mpr
  refine ⟨(List.getElem?_eq_some_iff.mp hs).1, fun hmem => ?_⟩
  have hpos := List.count_pos_iff.mpr (List.mem_of_mem_take hmem)
  have hzero := (h.settled s (List.mem_of_getElem? hs)).alive hd
  change s.emitted.count .destroy + s.timers = 0 at hzero
  have hcount := h.counts o s hs
  omega

theorem Kept.gone {w : Registry} (h : w.Kept) {o : ℕ} {s : Session}
    (hs : w.objects[o]? = some s) (hd : s.status = .destroyed) (htrack : s.track = 0)
    {t : Registry} (hrun : Run Registry.step Spares w t) (hran : w.immediates.length ≤ t.ran) :
    o ∉ t.sessions := by
  have ht : t.Kept := Run.invariant (P := Kept) (fun _ _ _ hw hok hs => hw.step hok hs) hrun h
  have hset := h.settled s (List.mem_of_getElem? hs)
  have hone : s.emitted.count .destroy + s.timers = 1 := hset.dead hd
  have hnone : s.timers = 0 := hset.untracked htrack
  have hmem : o ∈ w.immediates := by
    apply List.count_pos_iff.mp
    rw [h.counts o s hs]
    omega
  have hgrow : w.immediates <+: t.immediates := by
    have htrans (w t u : Registry) (h : w.immediates <+: t.immediates)
        (h' : t.immediates <+: u.immediates) : w.immediates <+: u.immediates := h.trans h'
    refine Run.relates (P := fun _ => True) (R := fun w t => w.immediates <+: t.immediates)
      (fun _ => List.prefix_refl _) htrans ?_ hrun trivial
    intro _ _ _ _ _ hstep
    exact ⟨trivial, step_immediates hstep⟩
  intro hlisted
  have hout := (ht.mem_sessions.mp hlisted).2
  -- the callbacks that were waiting are among those that have run
  apply hout
  obtain ⟨rest, hrest⟩ := hgrow
  rw [← hrest, List.take_append, List.take_of_length_le hran]
  exact List.mem_append_left _ hmem

theorem Kept.own {w t : Registry} (h : w.Kept) {e : Event} (hstep : w.step e = some t) {o : ℕ}
    (ho : o ∈ w.sessions) (hout : o ∉ t.sessions) :
    e = .immediate ∧ w.immediates[w.ran]? = some o := by
  cases e with
  | add name id origin err st =>
    simp only [Registry.step] at hstep
    split at hstep <;> cases hstep
    · exact absurd ho hout
    · exact absurd (List.mem_append_left _ ho) hout
  | session p e =>
    obtain ⟨s, s', -, -, rfl, -⟩ := step_session hstep
    exact absurd ho hout
  | immediate =>
    simp only [Registry.step] at hstep
    split at hstep
    · cases hstep
    · rename_i p hp
      split at hstep
      · cases hstep
      · rename_i s hs
        cases hstep
        rw [hp]
        refine ⟨rfl, congrArg some ?_⟩
        by_contra hne
        apply hout
        change o ∈ (w.deleteSession s.name).sessions
        rw [h.deleteSession hp hs]
        exact List.mem_filter.mpr ⟨ho, by simpa using Ne.symm hne⟩

theorem Kept.getSession {w : Registry} (h : w.Kept) {o p : ℕ} {s : Session}
    (hs : w.objects[o]? = some s) (hor : o ∈ w.sessions ∨ ¬s.Idle)
    (hp : w.getSession s.name = some p) : p = o :=
  h.names o s hs hor p (List.mem_of_find?_eq_some hp) (List.find?_some hp)

theorem Kept.lookup {w t : Registry} (h : w.Kept) {o p : ℕ} {s : Session} {e : Session.Event}
    (hs : w.objects[o]? = some s) (hlook : s.LooksUp e)
    (hstep : w.step (.session o e) = some t) (hp : w.getSession s.name = some p) : p = o := by
  obtain ⟨u, s', hu, hs', rfl, hapi⟩ := step_session hstep
  obtain rfl : u = s := Option.some.inj (hu.symm.trans hs)
  apply h.getSession hs ?_ hp
  by_cases ho : o ∈ w.sessions
  · exact .inl ho
  · -- an idle session that is not in the list looks nothing up
    refine .inr (fun hidle => ?_)
    have hne := hapi ho
    refine (hidle.step hs' ?_).2 ?_
    · intro i env thr heq
      cases e <;> cases heq
      exact hne _ _ _ rfl
    · cases e <;> exact hlook

/-- If no destroyed session is finalised once more or revived, and no session is given the name
of one that left the list and may still connect, then the list of sessions is tidy. -/
theorem tidy_of_spares (w : Registry) (h : Run step Spares empty w) : w.Tidy Spares := by
  have hk := kept_reachable h
  constructor
  case live => exact fun o s hs hd => hk.live hs hd
  case gone => exact fun o s hs hd htrack t hrun hran => hk.gone hs hd htrack hrun hran
  case own => exact fun e t hstep o ho hout => hk.own hstep ho hout
  case itself =>
    intro o ho s hs
    cases hp : w.getSession s.name with
    | none => exact absurd (named_self hs) (List.find?_eq_none.mp hp o ho)
    | some p => rw [hk.getSession hs (.inl ho) hp]
  case lookup => exact fun o s e t hs hlook hstep p hp => hk.lookup hs hlook hstep hp

/-- A connection from the address and port of `TCP:a`, routed to one cluster. -/
def tcpSession : Event :=
  .add "TCP:a" 0 "l" true
    (.piped 0 false ⟨"r", "c", [], [], ⟨.always, 1, 2000⟩, false⟩ Session.lookupAll)

/-- A session connects, ends and leaves the list, and the next one gets its name. -/
def reuse : List Event := [tcpSession, .session 0 (.streamOk 0 ⟨"e", some "c"⟩),
  .session 0 .pipelineOk, .session 0 .end_, .immediate, tcpSession]

theorem tidy_of_spares_reused : ∃ w, exec step Spares empty reuse = some w ∧ w.Tidy Spares ∧
    w.sessions = [1] ∧
    w.objects.map (fun s => (s.name, s.status)) = [("TCP:a", .destroyed), ("TCP:a", .init)] := by
  obtain ⟨w, hw⟩ : ∃ w, exec step Spares empty reuse = some w := ⟨_, rfl⟩
  refine ⟨w, hw, tidy_of_spares w (exec_run reuse empty w hw), ?_, ?_⟩
  · cases hw
    decide
  · cases hw
    decide

/-- A session deleted from the API while it retries finds the new session of its name, goes on,
fails, is destroyed a second time and removes the new session from the list. -/
theorem retry_removes_new_session : ¬∀ w, Run step always empty w → w.Tidy always := by
  intro h
  obtain ⟨w, hw⟩ : ∃ w, exec step always empty [tcpSession,
    .session 0 (.streamFail 0 false), .session 0 .end_, .immediate, tcpSession,
    .session 0 (.timer 0 Session.lookupAll), .session 0 (.streamFail 0 false),
    .session 0 (.pipelineFail false), .immediate] = some w := ⟨_, rfl⟩
  have htidy := h w (exec_run _ _ _ hw)
  cases hw
  have hlisted := htidy.live 1 _ rfl (by decide)
  revert hlisted
  decide

end Registry
end L7mp
