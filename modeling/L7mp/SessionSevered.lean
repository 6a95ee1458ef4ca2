import L7mp.SessionServed
import L7mp.StoreDelete

/-! What a session keeps when stages of it are disconnected: the other stages keep their
endpoints, and a stage leaves the status `READY` only with its stream closed. -/
namespace L7mp
open Aborting

/-- The stage lost its connection. -/
def Stage.Off (st : Stage) : Prop :=
  st.status = .disconnected ∨ st.status = .retrying ∨ st.status = .ended

namespace Session

/-- The source stage and the chain. -/
def layout (s : Session) : Stage × List Stage × List Stage × Option Stage :=
  (s.source, s.ingress, s.egress, s.destination)

/-- The stages of clusters, in the order in which `deleteEndPoint` looks at them. -/
def clusterStages (s : Session) : List Stage := s.destination.toList ++ s.ingress ++ s.egress

theorem mem_getStages {s : Session} {st : Stage} (h : st ∈ s.clusterStages) :
    st ∈ s.getStages := by
  simp only [clusterStages, getStages, List.mem_append, List.mem_cons] at h ⊢
  tauto

/-- `t` is `s` after disconnects of the stages `is`, which change the stages by `g`. -/
structure Severed (is : List ℕ) (g : Stage → Stage) (s t : Session) : Prop where
  layout : t.layout = (s.mapStages g).layout
  id : ∀ st, (g st).id = st.id
  stream : ∀ st, (g st).stream = st.stream
  endpoint : ∀ st, st.id ∉ is → (g st).endpoint = st.endpoint
  bare : ∀ st, st.endpoint = none → (g st).endpoint = none
  off : ∀ st, st.Off → (g st).Off
  calm : ∀ st, (g st).status = .ready → st.status = .ready
  fate : ∀ st ∈ s.getStages, st.status = .ready →
    (g st).status = .ready ∨ (g st).Off ∧ ∀ x, st.stream = some x → x ∈ t.closing
  cut : ∀ st ∈ s.getStages, st.id ∈ is → (g st).status ≠ .ready
  closing : s.closing ⊆ t.closing
  events : s.events.length ≤ t.events.length
  logged : (∃ st ∈ s.getStages, st.id ∈ is) → s.events.length < t.events.length

namespace Severed

variable {is : List ℕ} {g : Stage → Stage} {s t : Session}

theorem getStages (h : Severed is g s t) : t.getStages = s.getStages.map g := by
  have hsource : t.source = g s.source := congrArg Prod.fst h.layout
  have hingress : t.ingress = s.ingress.map g := congrArg (fun l => l.2.1) h.layout
  have hegress : t.egress = s.egress.map g := congrArg (fun l => l.2.2.1) h.layout
  have hdest : t.destination = s.destination.map g := congrArg (fun l => l.2.2.2) h.layout
  rw [← getStages_mapStages]
  unfold Session.getStages mapStages
  rw [hsource, hingress, hegress, hdest]

/-- Nothing was disconnected. -/
theorem same (hlayout : t.layout = s.layout) (hclosing : s.closing ⊆ t.closing)
    (hevents : s.events.length ≤ t.events.length) : Severed [] (fun st => st) s t where
  layout := by
    rw [hlayout]
    cases hd : s.destination <;> simp [Session.layout, mapStages, hd]
  id _ := rfl
  stream _ := rfl
  endpoint _ _ := rfl
  bare _ h := h
  off _ h := h
  calm _ h := h
  fate _ _ h := .inl h
  cut _ _ h := absurd h (List.not_mem_nil)
  closing := hclosing
  events := hevents
  logged h := by
    obtain ⟨_, _, hi⟩ := h
    cases hi

theorem trans {is' : List ℕ} {g' : Stage → Stage} {u : Session} (h : Severed is g s t)
    (h' : Severed is' g' t u) : Severed (is ++ is') (g' ∘ g) s u where
  layout := by
    have hmap : u.layout = (t.mapStages g').layout := h'.layout
    have hsource : t.source = g s.source := congrArg Prod.fst h.layout
    have hingress : t.ingress = s.ingress.map g := congrArg (fun l => l.2.1) h.layout
    have hegress : t.egress = s.egress.map g := congrArg (fun l => l.2.2.1) h.layout
    have hdest : t.destination = s.destination.map g := congrArg (fun l => l.2.2.2) h.layout
    rw [hmap]
    simp [Session.layout, mapStages, hsource, hingress, hegress, hdest]
  id st := (h'.id _).trans (h.id st)
  stream st := (h'.stream _).trans (h.stream st)
  endpoint st hi := by
    have hi' : (g st).id ∉ is' := by
      rw [h.id]
      exact fun hmem => hi (List.mem_append_right _ hmem)
    exact (h'.endpoint _ hi').trans (h.endpoint st (fun hmem => hi (List.mem_append_left _ hmem)))
  bare st hst := h'.bare _ (h.bare st hst)
  off st hst := h'.off _ (h.off st hst)
  calm st hst := h.calm st (h'.calm _ hst)
  fate st hst hr := by
    rcases h.fate st hst hr with hr' | ⟨hoff, hclosed⟩
    · have hmem : g st ∈ t.getStages := h.getStages ▸ List.mem_map_of_mem hst
      rcases h'.fate (g st) hmem hr' with hr'' | ⟨hoff, hclosed⟩
      · exact .inl hr''
      · refine .inr ⟨hoff, fun x hx => hclosed x ?_⟩
        rw [h.stream]
        exact hx
    · exact .inr ⟨h'.off _ hoff, fun x hx => h'.closing (hclosed x hx)⟩
  cut st hst hi hr := by
    rcases List.mem_append.mp hi with hi | hi
    · exact h.cut st hst hi (h'.calm _ hr)
    · have hmem : g st ∈ t.getStages := h.getStages ▸ List.mem_map_of_mem hst
      exact h'.cut (g st) hmem ((h.id st).symm ▸ hi) hr
  closing := List.Subset.trans h.closing h'.closing
  events := Nat.le_trans h.events h'.events
  logged hsome := by
    obtain ⟨st, hst, hi⟩ := hsome
    rcases List.mem_append.mp hi with hi | hi
    · exact Nat.lt_of_lt_of_le (h.logged ⟨st, hst, hi⟩) h'.events
    · have hmem : g st ∈ t.getStages := h.getStages ▸ List.mem_map_of_mem hst
      exact Nat.lt_of_le_of_lt h.events (h'.logged ⟨g st, hmem, (h.id st).symm ▸ hi⟩)

end Severed

theorem mem_layout {s t : Session} (h : t.layout = s.layout) : t.getStages = s.getStages := by
  obtain ⟨hsource, hrest⟩ := Prod.ext_iff.mp h
  obtain ⟨hingress, hrest⟩ := Prod.ext_iff.mp hrest
  obtain ⟨hegress, hdest⟩ := Prod.ext_iff.mp hrest
  simp only [layout] at hsource hingress hegress hdest
  simp only [getStages, hsource, hingress, hegress, hdest]

/-- `destroy` closes the streams of all stages that it ends. -/
theorem severed_destroy (s : Session) : Severed [] Stage.destroyed s s.destroy := by
  have hann (u : Session) : u.announce.layout = u.layout ∧ u.announce.closing = u.closing ∧
      u.announce.events = u.events := by
    unfold announce
    split_ifs <;> exact ⟨rfl, rfl, rfl⟩
  obtain ⟨hlayout, hclosing, hevents⟩ := hann ((s.destroyStages.setStatus .destroyed).log .destroy)
  have hclosed : s.destroy.closing = s.closing ++ s.getStages.filterMap Stage.endedStream :=
    hclosing
  have hlog : s.destroy.events = s.events ++ [.destroy] := hevents
  constructor
  case layout => exact hlayout
  case id => exact Frame.destroyed_calm.id
  case stream =>
    intro st
    unfold Stage.destroyed
    split_ifs <;> rfl
  case endpoint =>
    intro st _
    unfold Stage.destroyed
    split_ifs <;> rfl
  case bare =>
    intro st hst
    unfold Stage.destroyed
    split_ifs <;> exact hst
  case off =>
    intro st hst
    unfold Stage.destroyed
    split_ifs
    · exact hst
    · exact .inr (.inr rfl)
  case calm => exact Frame.destroyed_calm.ready
  case fate =>
    intro st hst hr
    right
    unfold Stage.destroyed
    rw [if_neg (by rw [hr]; decide)]
    refine ⟨.inr (.inr rfl), fun x hx => ?_⟩
    rw [hclosed]
    refine List.mem_append_right _ (List.mem_filterMap.mpr ⟨st, hst, ?_⟩)
    unfold Stage.endedStream
    rw [if_neg (by rw [hr]; decide)]
    exact hx
  case cut =>
    intro st _ hi
    cases hi
  case closing =>
    rw [hclosed]
    exact List.subset_append_left _ _
  case events =>
    rw [hlog, List.length_append]
    omega
  case logged =>
    rintro ⟨_, _, hi⟩
    cases hi

/-- A prelude that touches no stage. -/
theorem Severed.after {g : Stage → Stage} {is : List ℕ} {s t u : Session}
    (h : Severed is g t u) (hlayout : t.layout = s.layout) (hclosing : s.closing ⊆ t.closing)
    (hevents : s.events.length ≤ t.events.length) : Severed is g s u :=
  (Severed.same hlayout hclosing hevents).trans h

theorem severed_end_ (s : Session) : Severed [] Stage.destroyed s s.end_ := by
  refine (severed_destroy _).after (t := ((s.log .end_).setStatus .finalizing).emit .end_) rfl
    (List.Subset.refl _) ?_
  exact Nat.le_of_lt (by simp [log, setStatus, emit])

theorem severed_error (thr : Bool) (s : Session) : ∃ g, Severed [] g s (s.error thr) := by
  have hlog (e : LogEvent) : s.events.length ≤ (s.events ++ [e]).length := by
    rw [List.length_append]
    omega
  unfold error
  split_ifs
  · exact ⟨_, (severed_destroy _).after rfl (List.Subset.refl _) (hlog .error)⟩
  · exact ⟨_, .same rfl (List.Subset.refl _) (hlog .error)⟩
  · exact ⟨_, (severed_destroy _).after rfl (List.Subset.refl _) (hlog .error)⟩

/-- A stage that is no longer ready is looked up again. -/
theorem severed_run (env : Env) (left : ℕ) {i : ℕ} {s : Session}
    (hoff : ∀ st ∈ s.getStages, st.id = i → st.status ≠ .ready) :
    ∃ g, Severed [] g s (s.setStage i (fun st => (st.run env left).1)) := by
  refine ⟨Frame.only i (fun st => (st.run env left).1), ?_⟩
  have hcases (st : Stage) : (Frame.only i (fun st => (st.run env left).1) st) = st ∨
      st.id = i ∧ ∃ status retriable, Frame.only i (fun st => (st.run env left).1) st =
        { st with status := status, retriable := retriable } ∧
          (status = .ended ∨ status = .retrying ∨ status = st.status) := by
    unfold Frame.only
    split_ifs with hi
    · exact .inr ⟨hi, run_keeps env left st⟩
    · exact .inl rfl
  constructor
  case layout => rfl
  case id => exact Frame.only_id (run_calm env left).id i
  case stream =>
    intro st
    rcases hcases st with h | ⟨-, _, _, h, -⟩ <;> rw [h]
  case endpoint =>
    intro st _
    rcases hcases st with h | ⟨-, _, _, h, -⟩ <;> rw [h]
  case bare =>
    intro st hst
    rcases hcases st with h | ⟨-, _, _, h, -⟩ <;> rw [h] <;> exact hst
  case off =>
    intro st hst
    rcases hcases st with h | ⟨-, _, _, h, rfl | rfl | rfl⟩ <;> rw [h]
    · exact hst
    · exact .inr (.inr rfl)
    · exact .inr (.inl rfl)
    · exact hst
  case calm => exact ((run_calm env left).only i).ready
  case fate =>
    intro st hst hr
    rcases hcases st with h | ⟨hi, -⟩
    · rw [h]
      exact .inl hr
    · exact absurd hr (hoff st hst hi)
  case cut =>
    intro st _ hi
    cases hi
  case closing => exact List.Subset.refl _
  case events => exact Nat.le_refl _
  case logged =>
    rintro ⟨_, _, hi⟩
    cases hi

/-- What the retry policy makes of the other stages after stage `st` was lost. -/
theorem severed_afterLoss (env : Env) (thr : Bool) {st : Stage} {s : Session}
    (hoff : ∀ st' ∈ s.getStages, st'.id = st.id → st'.status ≠ .ready) :
    ∃ g, Severed [] g s (s.afterLoss env thr st) := by
  have hsame {t : Session} (hlayout : t.layout = s.layout) (hclosing : t.closing = s.closing)
      (hevents : t.events = s.events) : ∃ g, Severed [] g s t :=
    ⟨_, .same hlayout (hclosing ▸ List.Subset.refl _) (hevents ▸ Nat.le_refl _)⟩
  have hreconnect (retry : Retry) : ∃ g, Severed [] g s (s.reconnect env retry st) := by
    unfold reconnect
    split_ifs
    · exact hsame rfl rfl rfl
    · exact hsame rfl rfl rfl
    · obtain ⟨g, hg⟩ := severed_run env retry.redoRetries hoff
      have htask := hg.trans (u := (s.setStage st.id (fun st =>
        (st.run env retry.redoRetries).1)).addTask st.id (.connect true
          (({ st with status := .disconnected } : Stage).run env retry.redoRetries).2))
        (.same rfl (List.Subset.refl _) (Nat.le_refl _))
      exact ⟨_, htask⟩
  unfold afterLoss
  split
  · exact hsame rfl rfl rfl
  · split
    · split_ifs
      · exact hreconnect _
      · exact severed_error thr s
    · split_ifs
      · exact hreconnect _
      · exact severed_error thr s
    · exact ⟨_, severed_end_ s⟩
    · exact ⟨_, severed_end_ s⟩
    · exact severed_error thr s

/-- A ready stage is marked and its stream is closed. -/
theorem severed_drop {s : Session} (hids : (s.getStages.map Stage.id).Nodup) {st : Stage}
    (hst : st ∈ s.getStages) :
    Severed [st.id] (Frame.only st.id Stage.disconnected) s ((s.log .disconnect).dropStage st) := by
  have hthis {st' : Stage} (hst' : st' ∈ s.getStages) (hi : st'.id = st.id) : st' = st :=
    List.inj_on_of_nodup_map hids hst' hst hi
  have hdrop : ((s.log .disconnect).dropStage st).layout =
      (s.mapStages (Frame.only st.id Stage.disconnected)).layout ∧
      ((s.log .disconnect).dropStage st).closing = s.closing ++ st.stream.toList ∧
      ((s.log .disconnect).dropStage st).events = s.events ++ [.disconnect] := by
    unfold dropStage
    split_ifs <;> exact ⟨rfl, rfl, rfl⟩
  obtain ⟨hlayout, hclosing, hevents⟩ := hdrop
  have honly (st' : Stage) (hi : st'.id = st.id) :
      Frame.only st.id Stage.disconnected st' = st'.disconnected := if_pos hi
  have hother (st' : Stage) (hi : st'.id ≠ st.id) :
      Frame.only st.id Stage.disconnected st' = st' := if_neg hi
  constructor
  case layout => exact hlayout
  case id => exact Frame.only_id (g := Stage.disconnected) (fun _ => rfl) st.id
  case stream =>
    intro st'
    by_cases hi : st'.id = st.id
    · rw [honly st' hi]
      rfl
    · rw [hother st' hi]
  case endpoint =>
    intro st' hi
    rw [hother st' (fun heq => hi (List.mem_singleton.mpr heq))]
  case bare =>
    intro st' hbare
    by_cases hi : st'.id = st.id
    · rw [honly st' hi]
      rfl
    · rw [hother st' hi]
      exact hbare
  case off =>
    intro st' hoff
    by_cases hi : st'.id = st.id
    · rw [honly st' hi]
      exact .inl rfl
    · rw [hother st' hi]
      exact hoff
  case calm => exact (Frame.disconnected_calm.only st.id).ready
  case fate =>
    intro st' hst' hr
    by_cases hi : st'.id = st.id
    · rw [honly st' hi, hthis hst' hi]
      refine .inr ⟨.inl rfl, fun x hx => ?_⟩
      rw [hclosing, hx]
      exact List.mem_append_right _ (List.mem_singleton_self x)
    · rw [hother st' hi]
      exact .inl hr
  case cut =>
    intro st' _ hi
    rw [honly st' (List.mem_singleton.mp hi)]
    exact nofun
  case closing =>
    rw [hclosing]
    exact List.subset_append_left _ _
  case events =>
    rw [hevents, List.length_append]
    omega
  case logged =>
    intro _
    rw [hevents, List.length_append, List.length_singleton]
    omega

theorem severed_disconnectStage {s : Session} (hids : (s.getStages.map Stage.id).Nodup)
    (A : Answers) (i : ℕ) : ∃ g, Severed [i] g s (s.disconnectStage A i) := by
  unfold disconnectStage
  cases hi : s.stage? i with
  | none =>
    have hnone (st : Stage) (hst : st ∈ s.getStages) : st.id ≠ i := by
      have := List.find?_eq_none.mp hi st hst
      simpa using this
    have hsame : Severed [] (fun st => st) s s :=
      .same rfl (List.Subset.refl _) (Nat.le_refl _)
    refine ⟨_, { hsame with endpoint := fun _ _ => rfl, cut := ?_, logged := ?_ }⟩
    · intro st hst hmem
      exact absurd (List.mem_singleton.mp hmem) (hnone st hst)
    · rintro ⟨st, hst, hmem⟩
      exact absurd (List.mem_singleton.mp hmem) (hnone st hst)
  | some st =>
    obtain ⟨hst, rfl⟩ := stage?_mem hi
    dsimp only
    unfold disconnect
    split_ifs with hr
    · have hdrop := severed_drop hids hst
      have hoff : ∀ st' ∈ ((s.log .disconnect).dropStage st).getStages, st'.id = st.id →
          st'.status ≠ .ready := by
        intro st' hst' hi'
        rw [hdrop.getStages] at hst'
        obtain ⟨st₀, hst₀, rfl⟩ := List.mem_map.mp hst'
        refine hdrop.cut st₀ hst₀ (List.mem_singleton.mpr ?_)
        rw [← hdrop.id st₀]
        exact hi'
      obtain ⟨g, hg⟩ := severed_afterLoss (A.env s st) (A.thr s st) hoff
      exact ⟨_, hdrop.trans hg⟩
    · have hsame : Severed [] (fun st => st) s (s.log .disconnect) :=
        .same rfl (List.Subset.refl _) (by simp [log])
      refine ⟨_, { hsame with endpoint := fun _ _ => rfl, cut := ?_, logged := ?_ }⟩
      · intro st' hst' hmem
        rw [List.inj_on_of_nodup_map hids hst' hst (List.mem_singleton.mp hmem)]
        exact hr
      · intro _
        simp [log]

theorem Severed.ids {is : List ℕ} {g : Stage → Stage} {s t : Session} (h : Severed is g s t)
    (hids : (s.getStages.map Stage.id).Nodup) : (t.getStages.map Stage.id).Nodup := by
  rw [h.getStages, Frame.map_id_of_keeps h.id]
  exact hids

theorem severed_disconnectStages (A : Answers) (is : List ℕ) {s : Session}
    (hids : (s.getStages.map Stage.id).Nodup) :
    ∃ g, Severed is g s (is.foldl (disconnectStage A) s) := by
  induction is generalizing s with
  | nil => exact ⟨_, .same rfl (List.Subset.refl _) (Nat.le_refl _)⟩
  | cons i is ih =>
    obtain ⟨g, hg⟩ := severed_disconnectStage hids A i
    obtain ⟨g', hg'⟩ := ih (hg.ids hids)
    exact ⟨_, hg.trans hg'⟩

/-! ### The loop body of `deleteEndPoint` -/

/-- What the loop body reads of a session is there. -/
structure Ready (s : Session) : Prop where
  routed : s.destination ≠ none
  connected : ∀ st ∈ s.ingress ++ s.egress, st.endpoint ≠ none

instance (s : Session) : Decidable s.Ready :=
  decidable_of_iff (s.destination ≠ none ∧ ∀ st ∈ s.ingress ++ s.egress, st.endpoint ≠ none)
    ⟨fun h => ⟨h.1, h.2⟩, fun h => ⟨h.1, h.2⟩⟩

/-- The stages on an endpoint of this name. -/
def hits (n : String) (stages : List Stage) : List ℕ := (stages.filter (Stage.on n)).map Stage.id

theorem mem_of_hits {n : String} {stages : List Stage} {i : ℕ} (h : i ∈ hits n stages) :
    ∃ st ∈ stages, st.id = i := by
  obtain ⟨st, hst, hi⟩ := List.mem_map.mp h
  exact ⟨st, List.mem_of_mem_filter hst, hi⟩

theorem hits_append (n : String) (l l' : List Stage) :
    hits n (l ++ l') = hits n l ++ hits n l' := by
  simp [hits]

theorem disconnectChain_of_bare {A : Answers} {n : String} {stages : List Stage} {s : Session}
    (h : ∃ st ∈ stages, st.endpoint = none) :
    disconnectChain A n stages s = (.error .typeError, s) := by
  unfold disconnectChain
  rw [if_pos]
  obtain ⟨st, hst, hbare⟩ := h
  exact List.any_eq_true.mpr ⟨st, hst, by simp [hbare]⟩

theorem disconnectChain_eq {A : Answers} {n : String} {stages : List Stage} {s : Session}
    (h : ∀ st ∈ stages, st.endpoint ≠ none) : disconnectChain A n stages s =
      (.ok (), (hits n stages).foldl (disconnectStage A) s) := by
  unfold disconnectChain
  rw [if_neg]
  · rfl
  · intro hany
    obtain ⟨st, hst, hbare⟩ := List.any_eq_true.mp hany
    exact h st hst (Option.isNone_iff_eq_none.mp hbare)

/-- Stages that were not disconnected are on the endpoints on which they were. -/
theorem Severed.hits_map {is : List ℕ} {g : Stage → Stage} {s t : Session}
    (h : Severed is g s t) {l : List Stage} (hl : ∀ st ∈ l, st.id ∉ is) (n : String) :
    hits n (l.map g) = hits n l ∧
      ((∀ st ∈ l, st.endpoint ≠ none) → ∀ st ∈ l.map g, st.endpoint ≠ none) := by
  constructor
  · unfold hits
    rw [List.filter_map, List.map_map]
    have hon : l.filter (Stage.on n ∘ g) = l.filter (Stage.on n) := by
      apply List.filter_congr
      intro st hst
      simp only [Function.comp_apply, Stage.on, h.endpoint st (hl st hst)]
    rw [hon]
    exact List.map_congr_left (fun st _ => h.id st)
  · intro hall st hst
    obtain ⟨st', hst', rfl⟩ := List.mem_map.mp hst
    rw [h.endpoint st' (hl st' hst')]
    exact hall st' hst'

/-- The stage of the destination goes first. -/
def dropDestination (A : Answers) (n : String) (d : Stage) (s : Session) : Session :=
  if d.on n then s.disconnectStage A d.id else s

theorem severed_dropDestination {s : Session} (hids : (s.getStages.map Stage.id).Nodup)
    (A : Answers) (n : String) (d : Stage) :
    ∃ g, Severed (hits n [d]) g s (s.dropDestination A n d) := by
  unfold dropDestination
  by_cases hon : d.on n = true
  · have hhits : hits n [d] = [d.id] := by simp [hits, hon]
    rw [if_pos hon, hhits]
    exact severed_disconnectStage hids A d.id
  · have hhits : hits n [d] = [] := by simp [hits, hon]
    rw [if_neg hon, hhits]
    exact ⟨_, .same rfl (List.Subset.refl _) (Nat.le_refl _)⟩

theorem Severed.ingress {is : List ℕ} {g : Stage → Stage} {s t : Session} (h : Severed is g s t) :
    t.ingress = s.ingress.map g := congrArg (fun l => l.2.1) h.layout

theorem Severed.egress {is : List ℕ} {g : Stage → Stage} {s t : Session} (h : Severed is g s t) :
    t.egress = s.egress.map g := congrArg (fun l => l.2.2.1) h.layout

/-- The loop body returns if the session is ready for it, and disconnects the stages on
endpoints of the name. -/
theorem severed_disconnectFrom {s : Session} (hids : (s.getStages.map Stage.id).Nodup)
    (hready : s.Ready) (A : Answers) (n : String) : (s.disconnectFrom A n).1 = .ok () ∧
      ∃ g, Severed (hits n s.clusterStages) g s (s.disconnectFrom A n).2 := by
  obtain ⟨d, hd⟩ := Option.ne_none_iff_exists'.mp hready.routed
  obtain ⟨g₁, h₁⟩ := severed_dropDestination hids A n d
  have hnodup : ((s.ingress.map Stage.id ++ s.egress.map Stage.id) ++ [d.id]).Nodup := by
    have := (List.nodup_cons.mp hids).2
    simpa [hd] using this
  obtain ⟨hchain, -, hdest⟩ := List.nodup_append.mp hnodup
  have hing : ∀ st ∈ s.ingress, st.id ∉ hits n [d] := by
    intro st hst hmem
    obtain ⟨d', hd', hi⟩ := mem_of_hits hmem
    obtain rfl := List.mem_singleton.mp hd'
    exact hdest _ (List.mem_append_left _ (List.mem_map_of_mem hst)) _ (List.mem_singleton_self _)
      hi.symm
  obtain ⟨hits₁, hsome₁⟩ := h₁.hits_map hing n
  obtain ⟨g₂, h₂⟩ := severed_disconnectStages A (hits n s.ingress) (h₁.ids hids)
  have h₁₂ := h₁.trans h₂
  have heg : ∀ st ∈ s.egress, st.id ∉ hits n [d] ++ hits n s.ingress := by
    intro st hst hmem
    rcases List.mem_append.mp hmem with hmem | hmem
    · obtain ⟨d', hd', hi⟩ := mem_of_hits hmem
      obtain rfl := List.mem_singleton.mp hd'
      exact hdest _ (List.mem_append_right _ (List.mem_map_of_mem hst)) _
        (List.mem_singleton_self _) hi.symm
    · obtain ⟨st', hst', hi⟩ := mem_of_hits hmem
      exact (List.nodup_append.mp hchain).2.2 _ (List.mem_map_of_mem hst') _
        (List.mem_map_of_mem hst) hi
  obtain ⟨hits₂, hsome₂⟩ := h₁₂.hits_map heg n
  obtain ⟨g₃, h₃⟩ := severed_disconnectStages A (hits n s.egress) (h₁₂.ids hids)
  have hingress : disconnectChain A n (s.dropDestination A n d).ingress
      (s.dropDestination A n d) = (.ok (), (hits n s.ingress).foldl (disconnectStage A)
        (s.dropDestination A n d)) := by
    rw [disconnectChain_eq, h₁.ingress, hits₁]
    rw [h₁.ingress]
    exact hsome₁ (fun st hst => hready.connected st (List.mem_append_left _ hst))
  have hegress : disconnectChain A n ((hits n s.ingress).foldl (disconnectStage A)
      (s.dropDestination A n d)).egress ((hits n s.ingress).foldl (disconnectStage A)
        (s.dropDestination A n d)) = (.ok (), (hits n s.egress).foldl (disconnectStage A)
          ((hits n s.ingress).foldl (disconnectStage A) (s.dropDestination A n d))) := by
    rw [disconnectChain_eq, h₁₂.egress, hits₂]
    rw [h₁₂.egress]
    exact hsome₂ (fun st hst => hready.connected st (List.mem_append_right _ hst))
  have hrun : s.disconnectFrom A n = (.ok (), (hits n s.egress).foldl (disconnectStage A)
      ((hits n s.ingress).foldl (disconnectStage A) (s.dropDestination A n d))) := by
    unfold disconnectFrom
    rw [hd]
    exact (seq_of_returns hingress).trans hegress
  rw [hrun]
  refine ⟨rfl, g₃ ∘ (g₂ ∘ g₁), ?_⟩
  have hall : hits n s.clusterStages = (hits n [d] ++ hits n s.ingress) ++ hits n s.egress := by
    rw [clusterStages, hd, Option.toList_some, hits_append, hits_append]
  rw [hall]
  exact h₁₂.trans h₃

/-- And only if it is. -/
theorem ready_of_disconnectFrom {s : Session} (hids : (s.getStages.map Stage.id).Nodup)
    {A : Answers} {n : String} (h : (s.disconnectFrom A n).1 = .ok ()) : s.Ready := by
  unfold disconnectFrom at h
  cases hd : s.destination with
  | none =>
    rw [hd] at h
    cases h
  | some d =>
    rw [hd] at h
    dsimp only at h
    obtain ⟨g₁, h₁⟩ := severed_dropDestination hids A n d
    change (seq _ _ (s.dropDestination A n d)).1 = _ at h
    refine ⟨by simp [hd], ?_⟩
    have hing : ∀ st ∈ (s.dropDestination A n d).ingress, st.endpoint ≠ none := by
      by_contra hbare
      push Not at hbare
      have hthrow := seq_of_throws (f := fun s => disconnectChain A n s.ingress s)
        (g := fun s => disconnectChain A n s.egress s)
        (disconnectChain_of_bare (A := A) (n := n) hbare)
      cases (congrArg Prod.fst hthrow).symm.trans h
    have hreturn := seq_of_returns (f := fun s => disconnectChain A n s.ingress s)
      (g := fun s => disconnectChain A n s.egress s) (disconnectChain_eq (A := A) (n := n) hing)
    replace h := (congrArg Prod.fst hreturn).symm.trans h
    obtain ⟨g₂, h₂⟩ := severed_disconnectStages A (hits n (s.dropDestination A n d).ingress)
      (h₁.ids hids)
    have heg : ∀ st ∈ ((hits n (s.dropDestination A n d).ingress).foldl (disconnectStage A)
        (s.dropDestination A n d)).egress, st.endpoint ≠ none := by
      by_contra hbare
      push Not at hbare
      rw [disconnectChain_of_bare hbare] at h
      cases h
    rw [h₁.ingress] at hing
    rw [(h₁.trans h₂).egress] at heg
    intro st hst hbare
    rcases List.mem_append.mp hst with hst | hst
    · exact hing _ (List.mem_map_of_mem hst) (h₁.bare st hbare)
    · exact heg _ (List.mem_map_of_mem hst) ((h₁.trans h₂).bare st hbare)

/-- A session with no stage on such an endpoint is left alone. -/
theorem disconnectFrom_of_no_hit {s : Session} (hready : s.Ready) (A : Answers) {n : String}
    (h : ∀ st ∈ s.clusterStages, st.on n = false) : s.disconnectFrom A n = (.ok (), s) := by
  obtain ⟨d, hd⟩ := Option.ne_none_iff_exists'.mp hready.routed
  have hnone {l : List Stage} (hl : ∀ st ∈ l, st ∈ s.clusterStages) : hits n l = [] := by
    unfold hits
    rw [List.filter_eq_nil_iff.mpr]
    · rfl
    · intro st hst
      simp [h st (hl st hst)]
  have hdest : d.on n = false := h d (by simp [clusterStages, hd])
  have hing : disconnectChain A n s.ingress s = (.ok (), s) := by
    rw [disconnectChain_eq (fun st hst => hready.connected st (List.mem_append_left _ hst)),
      hnone (fun st hst => by simp [clusterStages, hst])]
    rfl
  have heg : disconnectChain A n s.egress s = (.ok (), s) := by
    rw [disconnectChain_eq (fun st hst => hready.connected st (List.mem_append_right _ hst)),
      hnone (fun st hst => by simp [clusterStages, hst])]
    rfl
  unfold disconnectFrom
  rw [hd]
  dsimp only
  rw [hdest]
  exact (seq_of_returns hing).trans heg

/-- A session without a ready stage only logs the calls. -/
theorem quiet_disconnectFrom {s : Session} (h : ∀ st ∈ s.getStages, st.status ≠ .ready)
    (A : Answers) (n : String) : (s.disconnectFrom A n).2.layout = s.layout ∧
      (s.disconnectFrom A n).2.status = s.status := by
  have hstage (i : ℕ) (u : Session) (hu : u.layout = s.layout ∧ u.status = s.status) :
      (u.disconnectStage A i).layout = s.layout ∧ (u.disconnectStage A i).status = s.status := by
    unfold disconnectStage
    split
    · exact hu
    · rename_i st hst
      have hmem := (stage?_mem hst).1
      rw [mem_layout hu.1] at hmem
      unfold disconnect
      rw [if_neg (h st hmem)]
      exact hu
  have hstages (is : List ℕ) (u : Session) (hu : u.layout = s.layout ∧ u.status = s.status) :
      (is.foldl (disconnectStage A) u).layout = s.layout ∧
        (is.foldl (disconnectStage A) u).status = s.status := by
    induction is generalizing u with
    | nil => exact hu
    | cons i is ih => exact ih _ (hstage i u hu)
  have hchain (stages : List Stage) (u : Session)
      (hu : u.layout = s.layout ∧ u.status = s.status) :
      (disconnectChain A n stages u).2.layout = s.layout ∧
        (disconnectChain A n stages u).2.status = s.status := by
    unfold disconnectChain
    split_ifs
    · exact hu
    · exact hstages _ u hu
  unfold disconnectFrom
  split
  · exact ⟨rfl, rfl⟩
  · refine seq_keeps (I := fun u => u.layout = s.layout ∧ u.status = s.status)
      (fun u => hchain _ u) (fun u => hchain _ u) ?_
    split_ifs
    · exact hstage _ s ⟨rfl, rfl⟩
    · exact ⟨rfl, rfl⟩

theorem Ready.of_layout {s t : Session} (h : s.Ready) (hl : t.layout = s.layout) : t.Ready := by
  have hdest : t.destination = s.destination := congrArg (fun l => l.2.2.2) hl
  have hing : t.ingress = s.ingress := congrArg (fun l => l.2.1) hl
  have heg : t.egress = s.egress := congrArg (fun l => l.2.2.1) hl
  refine ⟨hdest ▸ h.routed, ?_⟩
  rw [hing, heg]
  exact h.connected

/-! ### The loop bodies of `deleteCluster` -/

theorem forEach_quiet {s : Session} (hids : (s.getStages.map Stage.id).Nodup)
    (h : ∀ st ∈ s.getStages, st.status ≠ .ready) (A : Answers) {ns : List String}
    (hready : ns ≠ [] → s.Ready) : (forEach (disconnectFrom A) ns s).1 = .ok () ∧
      (forEach (disconnectFrom A) ns s).2.layout = s.layout ∧
        (forEach (disconnectFrom A) ns s).2.status = s.status := by
  induction ns generalizing s with
  | nil => exact ⟨rfl, rfl, rfl⟩
  | cons n ns ih =>
    have hs := hready (List.cons_ne_nil n ns)
    obtain ⟨hok, -⟩ := severed_disconnectFrom hids hs A n
    obtain ⟨hlayout, hstatus⟩ := quiet_disconnectFrom h A n
    have hstages := mem_layout hlayout
    obtain ⟨hok', hlayout', hstatus'⟩ := ih (s := (s.disconnectFrom A n).2) (hstages ▸ hids)
      (hstages ▸ h) (fun _ => hs.of_layout hlayout)
    rw [forEach]
    refine ⟨seq_ok.mpr ⟨hok, hok'⟩, ?_⟩
    rw [seq_state hok]
    exact ⟨hlayout'.trans hlayout, hstatus'.trans hstatus⟩

theorem forEach_no_hits {s : Session} (A : Answers) {ns : List String}
    (hready : ns ≠ [] → s.Ready) (h : ∀ n ∈ ns, ∀ st ∈ s.clusterStages, st.on n = false) :
    forEach (disconnectFrom A) ns s = (.ok (), s) := by
  induction ns with
  | nil => rfl
  | cons n ns ih =>
    have hs := hready (List.cons_ne_nil n ns)
    have hhead := disconnectFrom_of_no_hit hs A (h n List.mem_cons_self)
    rw [forEach, seq_of_returns hhead]
    exact ih (fun _ => hs) (fun m hm => h m (List.mem_cons_of_mem n hm))

theorem events_disconnectFrom {s : Session} (hs : s.Staged) {A : Answers} {n : String}
    (h : (s.disconnectFrom A n).1 = .ok ()) :
    s.events.length ≤ (s.disconnectFrom A n).2.events.length ∧
      ((∃ st ∈ s.clusterStages, st.on n = true) →
        s.events.length < (s.disconnectFrom A n).2.events.length) := by
  obtain ⟨-, g, hg⟩ := severed_disconnectFrom hs.ids (ready_of_disconnectFrom hs.ids h) A n
  refine ⟨hg.events, fun ⟨st, hst, hon⟩ => hg.logged ⟨st, mem_getStages hst, ?_⟩⟩
  exact List.mem_map_of_mem (List.mem_filter.mpr ⟨hst, hon⟩)

end Session
end L7mp
