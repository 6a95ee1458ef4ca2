import L7mp.Base64
import L7mp.PipeRing
import L7mp.VirtualClusters

/-! The data of a session on its way around the ring of pipes, from one stage to another with
virtual clusters between them. -/
namespace L7mp
open Js Dataflow GuardedRun RingEdges

/-- A session with its stages piped. A stage without a virtual cluster has a stream that leads
outside: the stream of the listener, or of an endpoint. -/
structure SessionPlan where
  chain : Chain
  metadata : Json
  cluster : ℕ → Option VirtualCluster
  distinct : chain.cycle.Nodup
  listener : cluster chain.source = none

namespace SessionPlan

/-- What is emitted by an endpoint is not up to the session. -/
def net (h : NodeJs) (p : SessionPlan) : Net ℕ Item where
  pipes := p.chain.finish
  process i := match p.cluster i with
    | some v => v.process h p.metadata
    | none => fun _ _ => []
  origin i := (p.cluster i).isNone

/-- The stages in the order in which the data passes them, and the listener again. -/
def walk (p : SessionPlan) : List ℕ := p.chain.cycle ++ [p.chain.source]

/-- The data passes from `i` over the stages `l`, of the clusters `vs`, to `j`. -/
structure Segment (p : SessionPlan) (i : ℕ) (l : List ℕ) (vs : List VirtualCluster) (j : ℕ) :
    Prop where
  walk : ∃ a b, p.walk = a ++ i :: (l ++ j :: b)
  clusters : l.map p.cluster = vs.map some

variable {h : NodeJs} {p : SessionPlan} {i j : ℕ} {l : List ℕ} {vs : List VirtualCluster}

/-- The pipes of the session leave one way only from each stage to the next. -/
theorem chain_walk (h : NodeJs) (p : SessionPlan) : List.IsChain (p.net h).Feeds p.walk := by
  have hedges := isChain_edges p.chain.source (p.chain.ingress ++ p.chain.destination ::
    p.chain.egress)
  refine hedges.imp ?_
  intro i j hij k
  have hpipes : (p.net h).pipes = edges p.chain.cycle := p.chain.finish_eq_ring
  rw [hpipes]
  exact count_edges p.distinct hij k

theorem Segment.inner (hseg : p.Segment i l vs j) {k : ℕ} (hk : k ∈ l) :
    ∃ v, p.cluster k = some v := by
  have hmem : p.cluster k ∈ vs.map some := by
    rw [← hseg.clusters]
    exact List.mem_map_of_mem hk
  obtain ⟨v, _, hv⟩ := List.mem_map.mp hmem
  exact ⟨v, hv.symm⟩

theorem Segment.path (h : NodeJs) (hseg : p.Segment i l vs j) : (p.net h).Path i l j where
  chain := by
    obtain ⟨a, b, hwalk⟩ := hseg.walk
    have hchain := p.chain_walk h
    have hgroup : a ++ i :: (l ++ j :: b) = a ++ (i :: (l ++ [j]) ++ b) := by
      simp only [List.append_assoc, List.cons_append, List.nil_append]
    rw [hwalk, hgroup] at hchain
    exact hchain.right_of_append.left_of_append
  inner k hk := by
    obtain ⟨v, hv⟩ := hseg.inner hk
    change (p.cluster k).isNone = false
    rw [hv]
    rfl

/-- Only the listener is met twice on the walk. -/
theorem Segment.nodup (hseg : p.Segment i l vs j) :
    (l ++ [j]).Nodup ∧ (i ∉ l ++ [j] ∨ i = p.chain.source) := by
  obtain ⟨a, b, hwalk⟩ := hseg.walk
  let rest := p.chain.ingress ++ p.chain.destination :: p.chain.egress
  have hrest : (rest ++ [p.chain.source]).Nodup := by
    have hperm : (rest ++ [p.chain.source]).Perm p.chain.cycle := List.perm_append_comm
    exact hperm.nodup_iff.mpr p.distinct
  have hcons : p.chain.source :: (rest ++ [p.chain.source]) = a ++ i :: (l ++ j :: b) := hwalk
  have hgroup : l ++ j :: b = (l ++ [j]) ++ b := by
    rw [List.append_assoc, List.singleton_append]
  cases a with
  | nil =>
    obtain ⟨hi, htail⟩ := List.cons.inj hcons
    rw [htail, hgroup] at hrest
    exact ⟨hrest.of_append_left, Or.inr hi.symm⟩
  | cons x a =>
    obtain ⟨_, htail⟩ := List.cons.inj hcons
    rw [htail, hgroup] at hrest
    have hseen := List.nodup_cons.mp hrest.of_append_right
    refine ⟨hseen.2.of_append_left, Or.inl ?_⟩
    intro hmem
    exact hseen.1 (List.mem_append_left _ hmem)

theorem Segment.source (h : NodeJs) (hseg : p.Segment i l vs j) :
    i ∉ l ++ [j] ∨ (p.net h).origin i = true := by
  refine hseg.nodup.2.imp_right ?_
  intro hi
  have hnone : (p.cluster i).isNone = true := by
    rw [hi, p.listener]
    rfl
  exact hnone

theorem Segment.composite (h : NodeJs) (hseg : p.Segment i l vs j) (items : List Item) :
    composite (p.net h).process l items =
      composite (VirtualCluster.process h p.metadata) vs items := by
  have hclusters := hseg.clusters
  clear hseg
  induction l generalizing vs items with
  | nil =>
    have hvs : vs = [] := List.map_eq_nil_iff.mp hclusters.symm
    rw [hvs]
    rfl
  | cons k l ih =>
    cases vs with
    | nil => cases hclusters
    | cons v vs =>
      obtain ⟨hk, hl⟩ := List.cons.inj hclusters
      have hprocess : (p.net h).process k = v.process h p.metadata := by
        unfold net
        simp only [hk]
      rw [Dataflow.composite, Dataflow.composite, hprocess]
      exact ih _ hl

theorem sound_of_run {s : State ℕ Item} (hrun : Run (p.net h).step always .start s) :
    (p.net h).Sound s := sound_start.run hrun

/-- Whatever order the streams of a session take their turns in, what was written to a stage is
the beginning of what the virtual clusters before it make of what was sent to them. It is all of
it when nothing is on its way, and turns of these stages alone lead there. -/
theorem segment_delivers (h : NodeJs) (p : SessionPlan) (s : State ℕ Item)
    (hrun : Run (p.net h).step always .start s) (i j : ℕ) (l : List ℕ) (vs : List VirtualCluster)
    (hseg : p.Segment i l vs j) :
    s.past j ++ s.queue j <+:
      Dataflow.composite (VirtualCluster.process h p.metadata) vs (s.sent i) ∧
    ((∀ k ∈ l ++ [j], s.queue k = []) → s.past j =
      Dataflow.composite (VirtualCluster.process h p.metadata) vs (s.sent i)) ∧
    ∃ t, Run (p.net h).step (worksOn (l ++ [j])) s t ∧ t.sent i = s.sent i ∧ t.past j =
      Dataflow.composite (VirtualCluster.process h p.metadata) vs (s.sent i) := by
  have hsound := sound_of_run hrun
  have hpath := hseg.path h
  refine ⟨?_, ?_, ?_⟩
  · rw [← hseg.composite h]
    exact hsound.arrives hpath
  · intro hempty
    rw [← hseg.composite h]
    exact hsound.arrived hpath hempty
  · obtain ⟨t, ht, hsent, hpast⟩ := hsound.delivers hpath hseg.nodup.1 (hseg.source h)
    refine ⟨t, ht, hsent, ?_⟩
    rw [hpast]
    exact hseg.composite h _

/-- Clusters that pass on, and pairs of `JSONEncap` and `JSONDecap`, lose nothing of the bytes of
a session, add nothing and change no order, and the end comes last. -/
theorem segment_transparent (h : NodeJs) (p : SessionPlan) (hf : h.Faithful p.metadata)
    (s : State ℕ Item) (hrun : Run (p.net h).step always .start s) (i j : ℕ) (l : List ℕ)
    (vs : List VirtualCluster) (hseg : p.Segment i l vs j) (hb : VirtualCluster.Balanced vs) :
    content h (s.past j) <+: content h (s.sent i) ∧ (none ∈ s.past j → none ∈ s.sent i) ∧
    ((∀ k ∈ l ++ [j], s.queue k = []) →
      content h (s.past j) = content h (s.sent i) ∧ (none ∈ s.past j ↔ none ∈ s.sent i)) := by
  have hsound := sound_of_run hrun
  have hkept := VirtualCluster.content_balanced hf hb (s.sent i)
  have hend := @VirtualCluster.end_composite h p.metadata vs (s.sent i)
  have harrives := hsound.arrives (hseg.path h)
  rw [hseg.composite h] at harrives
  have hpast := (List.prefix_append (s.past j) (s.queue j)).trans harrives
  refine ⟨?_, ?_, ?_⟩
  · rw [← hkept]
    exact content_mono hpast
  · intro hmem
    exact hend.mp (hpast.subset hmem)
  · intro hempty
    have harrived := hsound.arrived (hseg.path h) hempty
    rw [hseg.composite h] at harrived
    rw [harrived]
    exact ⟨hkept, hend⟩

/-- Behind a `Discard` nothing arrives before the end. -/
theorem segment_discards (h : NodeJs) {s : State ℕ Item}
    (hrun : Run (p.net h).step always .start s) (hseg : p.Segment i l vs j)
    (hdiscard : .discard ∈ vs) (hopen : none ∉ s.sent i) : s.past j = [] := by
  obtain ⟨before, after, hvs⟩ := List.append_of_mem hdiscard
  have harrives := (sound_of_run hrun).arrives (hseg.path h)
  rw [hseg.composite h, hvs, VirtualCluster.composite_discard before after hopen] at harrives
  exact (List.append_eq_nil_iff.mp (List.prefix_nil.mp harrives)).1

end SessionPlan

/-! ### A run -/

/-- The text of an encapsulation without metadata, parsed. -/
def parseNull (s : String) : Option Json :=
  let body := s.toList.drop ((nullText "").length - 2)
  let payload := String.ofList (body.take (body.length - 2))
  if s = nullText payload then some (encapsulation .null payload) else none

/-- Node on encapsulations without metadata. -/
def nodeNull : NodeJs where
  stringify v := match v.field "payload" with
    | some (.str payload) => nullText payload
    | _ => ""
  parse := parseNull
  toBase64 bytes := String.ofList (Base64.encode bytes)
  bufferFrom v := match v with
    | .str payload => some (Base64.decode payload.toList)
    | _ => none
  utf8 s := s.toByteArray.data.toList
  text bytes := (String.fromUTF8? ⟨bytes.toArray⟩).getD ""

theorem parseNull_nullText (payload : String) :
    parseNull (nullText payload) = some (encapsulation .null payload) := by
  have hlist : (nullText payload).toList =
      (nullText "").toList.take 28 ++ (payload.toList ++ "\"\x7d".toList) := by
    unfold nullText
    rw [String.toList_append, String.toList_append, List.append_assoc]
    rfl
  have hbody : (nullText payload).toList.drop 28 = payload.toList ++ "\"\x7d".toList := by
    rw [hlist]
    exact List.drop_left' rfl
  have hpayload : String.ofList ((payload.toList ++ "\"\x7d".toList).take
      ((payload.toList ++ "\"\x7d".toList).length - 2)) = payload := by
    have htake : (payload.toList ++ "\"\x7d".toList).length - 2 = payload.toList.length := by
      rw [List.length_append]
      exact Nat.add_sub_cancel _ 2
    rw [htake, List.take_left, String.ofList_toList]
  unfold parseNull
  have hlen : (nullText "").length - 2 = 28 := by decide
  simp only [hlen, hbody, hpayload, if_true]

theorem nodeNull_faithful : nodeNull.Faithful .null where
  utf8_empty := rfl
  text_utf8 s := by
    have hbytes : (⟨s.toByteArray.data.toList.toArray⟩ : ByteArray) = s.toByteArray := rfl
    have hvalid : String.fromUTF8? s.toByteArray = some s := dif_pos s.isValidUTF8
    change (String.fromUTF8? ⟨s.toByteArray.data.toList.toArray⟩).getD "" = s
    rw [hbytes, hvalid]
    rfl
  parse_empty := by decide
  carries c := by
    refine ⟨parseNull_nullText _, ?_⟩
    change some (Base64.decode (String.ofList (Base64.encode c)).toList) = some c
    rw [String.toList_ofList, Base64.decode_encode]

namespace SessionPlan

/-- A client, a chain of three virtual clusters and an endpoint. -/
def encapPlan : SessionPlan where
  chain := ⟨0, [1, 2, 3], [], 4⟩
  metadata := .null
  cluster i := [none, some .jsonEncap, some .echo, some .jsonDecap].getD i none
  distinct := by decide
  listener := rfl

theorem encapPlan_segment : encapPlan.Segment 0 [1, 2, 3] [.jsonEncap, .echo, .jsonDecap] 4 where
  walk := ⟨[], [0], rfl⟩
  clusters := rfl

theorem encapPlan_balanced : VirtualCluster.Balanced [.jsonEncap, .echo, .jsonDecap] :=
  .encapsulated (.echo .nil) .nil

/-- The client sends two bytes, and every stage takes its turn. -/
def twoBytes : List (Event ℕ Item) :=
  [.emit 0 (some (.buffer [1, 2])), .work 1, .work 2, .work 3, .work 4]

/-- After the first turn the other stages still bring the two bytes to the endpoint. -/
theorem segment_delivers_twoBytes : ∃ s t, Run (encapPlan.net nodeNull).step always .start s ∧
    Run (encapPlan.net nodeNull).step (worksOn [1, 2, 3, 4]) s t ∧ s.past 4 = [] ∧
    t.past 4 = Dataflow.composite (VirtualCluster.process nodeNull .null)
      [.jsonEncap, .echo, .jsonDecap] [some (.buffer [1, 2])] := by
  have hall := segment_delivers nodeNull encapPlan _
    (exec_run (twoBytes.take 2) _ _ rfl) 0 4 [1, 2, 3] _ encapPlan_segment
  obtain ⟨t, hrun, _, hpast⟩ := hall.2.2
  exact ⟨_, t, exec_run (twoBytes.take 2) _ _ rfl, hrun, rfl, hpast⟩

theorem segment_transparent_twoBytes : ∃ s, Run (encapPlan.net nodeNull).step always .start s ∧
    content nodeNull (s.sent 0) = [[1, 2]] ∧ content nodeNull (s.past 4) = [[1, 2]] := by
  refine ⟨_, exec_run twoBytes _ _ rfl, rfl, ?_⟩
  have hall := segment_transparent nodeNull encapPlan nodeNull_faithful _
    (exec_run twoBytes _ _ rfl) 0 4 [1, 2, 3] _ encapPlan_segment encapPlan_balanced
  refine (hall.2.2 ?_).1
  intro k hk
  simp only [List.cons_append, List.nil_append, List.mem_cons, List.not_mem_nil, or_false] at hk
  rcases hk with rfl | rfl | rfl | rfl <;> rfl

end SessionPlan
end L7mp
