import L7mp.Sidecar
import L7mp.OffloadBooks

/-! What the kernel program takes for a flow, what it does to the packets of a flow, and which
other packets it touches. -/
namespace L7mp
open Bytes

/-! ### Keys -/

/-- The 5-tuple of a packet whose IP header has `n` bytes. -/
def tupleAt (n : ℕ) (p : List UInt8) : Tuple :=
  ⟨ofBE (field 26 4 p), ofBE (field (14+n) 2 p), ofBE (field 30 4 p), ofBE (field (16+n) 2 p), 17⟩

theorem bytes_tupleAt {n : ℕ} {p : List UInt8} (hhdr : 20 ≤ n) (h : 18 + n ≤ p.length) :
    (tupleAt n p).bytes = field 26 4 p ++ field 30 4 p ++ field (14+n) 2 p ++
      field (16+n) 2 p ++ le 4 17 := by
  unfold tupleAt Tuple.bytes
  simp only [Int.toNat_natCast]
  rw [be_ofBE (length_field (by omega)), be_ofBE (length_field (by omega)),
    be_ofBE (length_field (by omega)), be_ofBE (length_field (by omega))]
  rfl

/-- In network order both sides write the same bytes. -/
theorem bytes_flowIn {p : List UInt8} (h : 42 ≤ p.length) :
    (flowIn p).bytes = (tupleAt 20 p).bytes := by
  rw [bytes_tupleAt (Nat.le_refl 20) (by omega)]
  unfold flowIn FlowId.bytes load
  rw [le_of_length (length_field (by omega)), le_of_length (length_field (by omega)),
    le_of_length (length_field (by omega)), le_of_length (length_field (by omega))]
  rfl

/-! ### Frames -/

@[simp] theorem length_store {i w n : ℕ} {p : List UInt8} (h : i + w ≤ p.length) :
    (store i w n p).length = p.length := length_write (by simpa using h)

/-- The addresses, the ports and the payload are the same. -/
structure Carried (p q : List UInt8) : Prop where
  length : q.length = p.length
  same : ∀ k, (26 ≤ k ∧ k < 38) ∨ 42 ≤ k → q[k]? = p[k]?

namespace Carried

variable {p q r : List UInt8}

theorem refl (p : List UInt8) : Carried p p := ⟨rfl, fun _ _ => rfl⟩

theorem trans (h : Carried p q) (h' : Carried q r) : Carried p r :=
  ⟨h'.length.trans h.length, fun k hk => (h'.same k hk).trans (h.same k hk)⟩

/-- A write to another part of the headers. -/
theorem write {i : ℕ} {bs : List UInt8} (h : i + bs.length ≤ p.length)
    (hi : i + bs.length ≤ 26 ∨ 38 ≤ i ∧ i + bs.length ≤ 42) : Carried p (Bytes.write i bs p) := by
  refine ⟨length_write h, fun k hk => ?_⟩
  rw [getElem?_write h, if_neg]
  omega

theorem field (h : Carried p q) {i w : ℕ} (hi : 26 ≤ i) (hw : i + w ≤ 38) :
    Bytes.field i w q = Bytes.field i w p := by
  apply List.ext_getElem?
  intro k
  rw [getElem?_field, getElem?_field]
  split_ifs with hk
  · exact h.same _ (.inl (by omega))
  · rfl

theorem payload (h : Carried p q) : q.drop 42 = p.drop 42 := by
  apply List.ext_getElem?
  intro k
  rw [List.getElem?_drop, List.getElem?_drop]
  exact h.same _ (.inr (by omega))

end Carried

theorem carried_store {i w n : ℕ} {p : List UInt8} (h : i + w ≤ p.length) (hi : i + w ≤ 26) :
    Carried p (store i w n p) := Carried.write (by simpa using h) (.inl (by simpa using hi))

theorem carried_csums (h : Helpers) {p : List UInt8} (hp : 42 ≤ p.length) :
    Carried p (clearUdpCsum h (updateIpv4Csum h p)) := by
  have hzero : Carried p (store 24 2 0 p) := carried_store (by omega) (by omega)
  have hsum : Carried p (updateIpv4Csum h p) := by
    have hlen := hzero.length
    exact hzero.trans (carried_store (by omega) (by omega))
  unfold clearUdpCsum
  split_ifs
  · have hlen := hsum.length
    exact hsum.trans (.write (by simp only [List.length_cons, List.length_nil]; omega)
      (.inr (by simp)))
  · exact hsum

theorem carried_decreaseTtl {p : List UInt8} (hp : 42 ≤ p.length) : Carried p (decreaseTtl p) := by
  unfold decreaseTtl
  have hcheck : Carried p (store 24 2
      (load 24 2 p + 1 + if load 24 2 p + 1 ≥ 0xFFFF then 1 else 0) p) :=
    carried_store (by omega) (by omega)
  have hlen := hcheck.length
  exact hcheck.trans (carried_store (by omega) (by omega))

theorem carried_forward (h : Helpers) {skb : Skb} (hp : 42 ≤ skb.data.length) :
    Carried skb.data (forward h skb).2.data := by
  unfold forward
  dsimp only
  split
  · have httl := carried_decreaseTtl hp
    have hlen := httl.length
    have hd := (h.fibLookup (fibParams skb)).dmac.length
    have hs := (h.fibLookup (fibParams skb)).smac.length
    have hdst : Carried skb.data
        (write 0 (h.fibLookup (fibParams skb)).dmac.bytes (decreaseTtl skb.data)) :=
      httl.trans (.write (by omega) (.inl (by omega)))
    have hlen' := hdst.length
    exact hdst.trans (.write (by omega) (.inl (by omega)))
  · exact .refl _
  · exact .refl _
  · exact .refl _
  · exact .refl _

/-! ### Rewriting -/

/-- The packet keeps its length while its 5-tuple is written. -/
theorem length_stores (redir : FlowId) {p : List UInt8} (hp : 42 ≤ p.length) :
    (store 26 4 redir.srcIp4 p).length = p.length ∧
    (store 30 4 redir.dstIp4 (store 26 4 redir.srcIp4 p)).length = p.length ∧
    (store 34 2 redir.srcPort
      (store 30 4 redir.dstIp4 (store 26 4 redir.srcIp4 p))).length = p.length := by
  have h1 : (store 26 4 redir.srcIp4 p).length = p.length := length_store (by omega)
  have h2 : (store 30 4 redir.dstIp4 (store 26 4 redir.srcIp4 p)).length = p.length :=
    (length_store (by omega)).trans h1
  exact ⟨h1, h2, (length_store (by omega)).trans h2⟩

theorem length_replaceTuple (redir : FlowId) {p : List UInt8} (hp : 42 ≤ p.length) :
    (replaceTuple redir p).length = p.length := by
  obtain ⟨-, -, h3⟩ := length_stores redir hp
  exact (length_store (by omega)).trans h3

theorem field_store {i w n : ℕ} {p : List UInt8} (h : i + w ≤ p.length) :
    field i w (store i w n p) = le w n := by
  have hfield := @field_write i (le w n) p (by simpa using h)
  rwa [length_le] at hfield

theorem field_store_of_disjoint {i j v w n : ℕ} {p : List UInt8} (h : i + w ≤ p.length)
    (hd : j + v ≤ i ∨ i + w ≤ j) : field j v (store i w n p) = field j v p :=
  field_write_of_disjoint (by simpa using h) (by simpa using hd)

/-- The four fields of the new 5-tuple, and the rest of the packet. -/
theorem replaceTuple_fields (redir : FlowId) {p : List UInt8} (hp : 42 ≤ p.length) :
    field 26 4 (replaceTuple redir p) = le 4 redir.srcIp4 ∧
    field 30 4 (replaceTuple redir p) = le 4 redir.dstIp4 ∧
    field 34 2 (replaceTuple redir p) = le 2 redir.srcPort ∧
    field 36 2 (replaceTuple redir p) = le 2 redir.dstPort ∧
    (replaceTuple redir p).drop 38 = p.drop 38 := by
  obtain ⟨h1, h2, h3⟩ := length_stores redir hp
  unfold replaceTuple
  refine ⟨?_, ?_, ?_, ?_, ?_⟩
  · rw [field_store_of_disjoint (by omega) (by omega),
      field_store_of_disjoint (by omega) (by omega),
      field_store_of_disjoint (by omega) (by omega), field_store (by omega)]
  · rw [field_store_of_disjoint (by omega) (by omega),
      field_store_of_disjoint (by omega) (by omega), field_store (by omega)]
  · rw [field_store_of_disjoint (by omega) (by omega), field_store (by omega)]
  · rw [field_store (by omega)]
  · have hdrop {i w n : ℕ} {q : List UInt8} (h : i + w ≤ q.length) (hi : i + w ≤ 38) :
        (store i w n q).drop 38 = q.drop 38 := drop_write (by simpa using h) (by simpa using hi)
    rw [hdrop (by omega) (by omega), hdrop (by omega) (by omega), hdrop (by omega) (by omega),
      hdrop (by omega) (by omega)]

end L7mp
