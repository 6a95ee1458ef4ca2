import L7mp.OnesComplement
import L7mp.SidecarSound

/-! The IPv4 checksum that the kernel program leaves. The computation and its incremental update
are the same on hosts of either byte order, and what they leave does not depend on it. -/
namespace L7mp
open Bytes OnesComplement

/-! ### Folding -/

theorem foldOnce_mod (csum : ℕ) : foldOnce csum % 65535 = csum % 65535 := by
  unfold foldOnce
  split_ifs with hsmall
  · rfl
  · omega

theorem foldOnce_eq_zero (csum : ℕ) : foldOnce csum = 0 ↔ csum = 0 := by
  unfold foldOnce
  split_ifs with hsmall
  · exact Iff.rfl
  · omega

/-- A round moves all but the low 16 bits down. -/
theorem foldOnce_le {csum k : ℕ} (h : csum < 2^16*k + 2^16) : foldOnce csum ≤ k + (2^16-1) := by
  unfold foldOnce
  split_ifs with hsmall <;> omega

/-- Four rounds are enough for 64 bits. -/
theorem foldOnce_four {csum : ℕ} (h : csum < 2^64) : foldOnce^[4] csum < 2^16 := by
  have h1 : foldOnce csum ≤ 2^48 - 1 + (2^16-1) := foldOnce_le (by omega)
  have h2 : foldOnce (foldOnce csum) ≤ 2^32 + (2^16-1) := foldOnce_le (by omega)
  -- the third round may still carry, into a value whose low bits are not all ones
  have h3 : foldOnce (foldOnce (foldOnce csum)) ≤ 0x1fffe := by
    have hhigh : foldOnce (foldOnce csum) ≤ 2^32 + (2^16-2) := by
      unfold foldOnce at h1 ⊢
      split_ifs at h1 ⊢ <;> omega
    generalize foldOnce (foldOnce csum) = n at hhigh ⊢
    unfold foldOnce
    split_ifs <;> omega
  change foldOnce (foldOnce (foldOnce (foldOnce csum))) < 2^16
  generalize foldOnce (foldOnce (foldOnce csum)) = n at h3 ⊢
  unfold foldOnce
  split_ifs <;> omega

theorem foldOnce_iterate_mod (k csum : ℕ) : foldOnce^[k] csum % 65535 = csum % 65535 := by
  induction k generalizing csum with
  | zero => rfl
  | succ k ih =>
    rw [Function.iterate_succ_apply, ih, foldOnce_mod]

theorem foldOnce_iterate_eq_zero (k csum : ℕ) : foldOnce^[k] csum = 0 ↔ csum = 0 := by
  induction k generalizing csum with
  | zero => exact Iff.rfl
  | succ k ih =>
    rw [Function.iterate_succ_apply, ih, foldOnce_eq_zero]

/-- The complement is what is missing up to a multiple of 65535. -/
theorem csumFold_spec {csum : ℕ} (h : csum < 2^64) (hpos : csum ≠ 0) :
    (csumFold csum + csum) % 65535 = 0 ∧ csumFold csum < 2^16 := by
  have hlt := foldOnce_four h
  have hmod := foldOnce_iterate_mod 4 csum
  have hne : foldOnce^[4] csum ≠ 0 := fun hzero =>
    hpos ((foldOnce_iterate_eq_zero 4 csum).mp hzero)
  have hfold : csumFold csum = 2^16 - 1 - foldOnce^[4] csum % 2^16 := rfl
  omega

/-! ### Byte orders -/

def loadAs (e : ByteOrder) (i w : ℕ) (p : List UInt8) : ℕ := e.number (field i w p)

def storeAs (e : ByteOrder) (i w n : ℕ) (p : List UInt8) : List UInt8 := write i (e.bytes w n) p

/-- `__constant_htons`. -/
def htons (e : ByteOrder) (n : ℕ) : ℕ :=
  match e with
  | .little => n % 256 * 256 + n / 256
  | .big => n

/-- The part of `sidecar` that replaces the addresses. -/
def replaceAddrs (e : ByteOrder) (saddr daddr : ℕ) (p : List UInt8) : List UInt8 :=
  storeAs e 30 4 daddr (storeAs e 26 4 saddr p)

def updateIpv4CsumAs (e : ByteOrder) (csumDiff : List UInt8 → ℕ) (p : List UInt8) : List UInt8 :=
  let p := storeAs e 24 2 0 p
  storeAs e 24 2 (csumFold (csumDiff (field 14 20 p))) p

/-- `ip_decrease_ttl`. -/
def decreaseTtlAs (e : ByteOrder) (p : List UInt8) : List UInt8 :=
  let check := loadAs e 24 2 p + htons e 0x0100
  let p := storeAs e 24 2 (check + if check ≥ 0xFFFF then 1 else 0) p
  storeAs e 22 1 (loadAs e 22 1 p + 255) p

theorem updateIpv4CsumAs_little (h : Helpers) (p : List UInt8) :
    updateIpv4CsumAs .little h.csumDiff p = updateIpv4Csum h p := rfl

theorem decreaseTtlAs_little (p : List UInt8) : decreaseTtlAs .little p = decreaseTtl p := rfl

/-! ### Headers -/

/-- A header of 20 bytes behind the Ethernet header, with a TTL that can be decreased. -/
structure Ipv4 (p : List UInt8) : Prop where
  length : 34 ≤ p.length
  version : load 14 1 p = 0x45
  ttl : 0 < load 22 1 p

/-- The 16-bit one's complement sum of the header, in network order, is all ones. -/
def SumsUp (p : List UInt8) : Prop := OnesComplement.sum 16 (words .big (field 14 20 p)) = 0xFFFF

instance (p : List UInt8) : Decidable (SumsUp p) := by
  unfold SumsUp
  infer_instance

/-- What `bpf_csum_diff` returns for an empty old buffer and a seed of zero. -/
structure DiffSums (e : ByteOrder) (csumDiff : List UInt8 → ℕ) : Prop where
  range : ∀ data, csumDiff data < 2^64
  congruent : ∀ data, 4 ∣ data.length →
    csumDiff data % 65535 = (words e data).sum % 65535
  zero : ∀ data, 4 ∣ data.length → csumDiff data = 0 → ∀ b ∈ data, b = 0

variable {e : ByteOrder} {p : List UInt8}

theorem length_storeAs {i w n : ℕ} (h : i + w ≤ p.length) :
    (storeAs e i w n p).length = p.length := length_write (by rwa [e.length_bytes])

theorem loadAs_storeAs {i w n : ℕ} (h : i + w ≤ p.length) :
    loadAs e i w (storeAs e i w n p) = n % 256^w := by
  have hfield := @field_write i (e.bytes w n) p (by rwa [e.length_bytes])
  rw [e.length_bytes] at hfield
  unfold loadAs storeAs
  rw [hfield, e.number_bytes]

theorem field_storeAs {i j v w n : ℕ} (h : i + w ≤ p.length) (hd : j + v ≤ i ∨ i + w ≤ j) :
    field j v (storeAs e i w n p) = field j v p :=
  field_write_of_disjoint (by rwa [e.length_bytes]) (by rwa [e.length_bytes])

namespace Ipv4

/-- A write to another part of the packet. -/
theorem write {i : ℕ} {bs : List UInt8} (h : Ipv4 p) (hi : i + bs.length ≤ p.length)
    (hd : i + bs.length ≤ 14 ∨ 23 ≤ i) : Ipv4 (Bytes.write i bs p) := by
  constructor
  · rw [length_write hi]
    exact h.length
  · unfold load
    rw [field_write_of_disjoint hi (by omega)]
    exact h.version
  · unfold load
    rw [field_write_of_disjoint hi (by omega)]
    exact h.ttl

theorem storeAs {i w n : ℕ} (h : Ipv4 p) (hi : i + w ≤ p.length) (hd : 23 ≤ i) :
    Ipv4 (storeAs e i w n p) :=
  h.write (by rwa [e.length_bytes]) (.inr hd)

end Ipv4

theorem field_add (i v w : ℕ) (p : List UInt8) :
    field i (v+w) p = field i v p ++ field (i+v) w p := by
  unfold field
  rw [List.take_add, List.drop_drop]

/-- The words of the header: before the TTL, the TTL and the protocol, the checksum, the
addresses. -/
theorem headerSum_split (e : ByteOrder) (hp : 34 ≤ p.length) :
    (words e (field 14 20 p)).sum =
      (words e (field 14 8 p)).sum + loadAs e 22 2 p + loadAs e 24 2 p +
        (words e (field 26 8 p)).sum := by
  have hfront : (field 14 8 p).length = 8 := length_field (by omega)
  have httl : (field 22 2 p).length = 2 := length_field (by omega)
  have hcheck : (field 24 2 p).length = 2 := length_field (by omega)
  have hfield : field 14 20 p = field 14 8 p ++ (field 22 2 p ++ (field 24 2 p ++ field 26 8 p)) := by
    rw [← field_add 24 2 8, ← field_add 22 2 10, ← field_add 14 8 12]
  rw [hfield, words_append e (by omega), words_append e (by omega), words_append e (by omega),
    words_pair e httl, words_pair e hcheck]
  simp only [List.sum_append, List.sum_cons, List.sum_nil]
  unfold loadAs
  omega

/-- The first byte of the header is not zero, nor is the sum. -/
theorem headerSum_pos (e : ByteOrder) (hp : 34 ≤ p.length) (hversion : load 14 1 p = 0x45) :
    0 < (words e (field 14 20 p)).sum := by
  apply Nat.pos_of_ne_zero
  intro hzero
  have hall := (words_eq_zero e _).mp hzero
  have hsplit := field_add 14 1 19 p
  obtain ⟨b, hb⟩ := List.length_eq_one_iff.mp (length_field (by omega) : (field 14 1 p).length = 1)
  have hmem : b ∈ field 14 20 p := by
    rw [hsplit, hb]
    exact List.mem_append_left _ List.mem_cons_self
  unfold load at hversion
  rw [hb, hall b hmem] at hversion
  exact absurd hversion (by decide)

/-- The sum may be taken in the byte order of the host. -/
theorem sumsUp_of_mod (e : ByteOrder) (hp : 34 ≤ p.length) (hversion : load 14 1 p = 0x45)
    (hmod : (words e (field 14 20 p)).sum % 65535 = 0) : SumsUp p := by
  apply sum_eq_ones (words_lt _ _)
  · cases e with
    | big => exact hmod
    | little =>
      calc (words .big (field 14 20 p)).sum % 65535
          = 256*(words .little (field 14 20 p)).sum % 65535 := words_big _
        _ = 0 := by omega
  · exact headerSum_pos .big hp hversion

/-! ### The two updates -/

theorem headerSum_check (e : ByteOrder) (n : ℕ) (hp : 34 ≤ p.length) :
    (words e (field 14 20 (storeAs e 24 2 n p))).sum + loadAs e 24 2 p =
      (words e (field 14 20 p)).sum + n % 2^16 := by
  have hlen : (storeAs e 24 2 n p).length = p.length := length_storeAs (by omega)
  have hload : loadAs e 24 2 (storeAs e 24 2 n p) = n % 2^16 := loadAs_storeAs (by omega)
  have hothers : loadAs e 22 2 (storeAs e 24 2 n p) = loadAs e 22 2 p := by
    unfold loadAs
    rw [field_storeAs (by omega) (by omega)]
  rw [headerSum_split e (by omega), headerSum_split e hp, hload, hothers,
    field_storeAs (by omega) (by omega), field_storeAs (by omega) (by omega)]
  omega

theorem length_updateIpv4CsumAs (csumDiff : List UInt8 → ℕ) (hp : 34 ≤ p.length) :
    (updateIpv4CsumAs e csumDiff p).length = p.length := by
  have hlen : (storeAs e 24 2 0 p).length = p.length := length_storeAs (by omega)
  unfold updateIpv4CsumAs
  rw [length_storeAs (by omega), hlen]

theorem Ipv4.updateIpv4CsumAs (csumDiff : List UInt8 → ℕ) (h : Ipv4 p) :
    Ipv4 (updateIpv4CsumAs e csumDiff p) := by
  have hlen := h.length
  have hzero : Ipv4 (L7mp.storeAs e 24 2 0 p) := h.storeAs (by omega) (by omega)
  have hlen' := hzero.length
  exact hzero.storeAs (by omega) (by omega)

/-- The checksum that is computed makes up for the rest of the header. -/
theorem updateIpv4CsumAs_mod {csumDiff : List UInt8 → ℕ} (hdiff : DiffSums e csumDiff)
    (h : Ipv4 p) : (words e (field 14 20 (updateIpv4CsumAs e csumDiff p))).sum % 65535 = 0 := by
  have hlen := h.length
  have hcleared : Ipv4 (storeAs e 24 2 0 p) := h.storeAs (by omega) (by omega)
  have hlen' := hcleared.length
  have hdata : (field 14 20 (storeAs e 24 2 0 p)).length = 20 := length_field (by omega)
  have hdvd : 4 ∣ (field 14 20 (storeAs e 24 2 0 p)).length := by omega
  have hrest := headerSum_pos e hlen' hcleared.version
  have hmod := hdiff.congruent _ hdvd
  have hne : csumDiff (field 14 20 (storeAs e 24 2 0 p)) ≠ 0 := fun hzero =>
    hrest.ne' ((words_eq_zero e _).mpr (hdiff.zero _ hdvd hzero))
  obtain ⟨hsum, hlt⟩ := csumFold_spec (hdiff.range _) hne
  have hload : loadAs e 24 2 (storeAs e 24 2 0 p) = 0 := loadAs_storeAs (by omega)
  have hstore := headerSum_check e
    (csumFold (csumDiff (field 14 20 (storeAs e 24 2 0 p)))) hlen'
  rw [hload, Nat.add_zero, Nat.mod_eq_of_lt hlt] at hstore
  change (words e (field 14 20 (storeAs e 24 2 _ (storeAs e 24 2 0 p)))).sum % 65535 = 0
  rw [hstore]
  omega

/-- The TTL and the protocol as one word. -/
theorem loadAs_ttl (e : ByteOrder) (hp : 24 ≤ p.length) :
    loadAs e 22 2 p = match e with
      | .little => loadAs e 22 1 p + 256*loadAs e 23 1 p
      | .big => 256*loadAs e 22 1 p + loadAs e 23 1 p := by
  obtain ⟨t, ht⟩ := List.length_eq_one_iff.mp (length_field (by omega) : (field 22 1 p).length = 1)
  obtain ⟨b, hb⟩ := List.length_eq_one_iff.mp (length_field (by omega) : (field 23 1 p).length = 1)
  have hboth : field 22 2 p = [t, b] := by
    rw [field_add 22 1 1, ht, hb, List.singleton_append]
  unfold loadAs
  rw [hboth, ht, hb]
  cases e <;> simp [ByteOrder.number, ofBE, ofLE, Nat.add_comm]

theorem loadAs_byte (e : ByteOrder) {i : ℕ} (hi : i + 1 ≤ p.length) :
    loadAs e i 1 p = load i 1 p ∧ loadAs e i 1 p < 256 := by
  obtain ⟨b, hb⟩ := List.length_eq_one_iff.mp (length_field hi)
  unfold loadAs load
  rw [hb]
  have hlt := b.toNat_lt
  cases e <;> simp [ByteOrder.number, ofBE, ofLE] <;> omega

theorem headerSum_ttl (e : ByteOrder) (n : ℕ) (hp : 34 ≤ p.length) :
    (words e (field 14 20 (storeAs e 22 1 n p))).sum + loadAs e 22 2 p =
      (words e (field 14 20 p)).sum + loadAs e 22 2 (storeAs e 22 1 n p) := by
  have hlen : (storeAs e 22 1 n p).length = p.length := length_storeAs (by omega)
  have hothers : loadAs e 24 2 (storeAs e 22 1 n p) = loadAs e 24 2 p := by
    unfold loadAs
    rw [field_storeAs (by omega) (by omega)]
  rw [headerSum_split e (by omega), headerSum_split e hp, hothers,
    field_storeAs (by omega) (by omega), field_storeAs (by omega) (by omega)]
  omega

/-- What the checksum gains is what the TTL loses, carries included. -/
theorem decreaseTtlAs_mod (e : ByteOrder) (h : Ipv4 p) :
    (words e (field 14 20 (decreaseTtlAs e p))).sum % 65535 =
      (words e (field 14 20 p)).sum % 65535 := by
  have hlen := h.length
  obtain ⟨httl, hbyte⟩ := loadAs_byte e (p := p) (i := 22) (by omega)
  have hpos := h.ttl
  have hcheck : loadAs e 24 2 p < 2^16 := by
    have hfield : (field 24 2 p).length = 2 := length_field (by omega)
    calc loadAs e 24 2 p < 256^(field 24 2 p).length := e.number_lt _
      _ = 2^16 := by rw [hfield]; norm_num
  have hrange : loadAs e 24 2 p + htons e 0x0100 < 2^16 + 2^8 := by
    cases e <;> simp [htons] <;> omega
  generalize hn : (loadAs e 24 2 p + htons e 0x0100 +
    if loadAs e 24 2 p + htons e 0x0100 ≥ 0xFFFF then 1 else 0) = n
  -- the end-around carry: 65536 counts as 1
  have hcarry : n % 2^16 % 65535 = (loadAs e 24 2 p + htons e 0x0100) % 65535 := by
    rw [← hn]
    split_ifs <;> omega
  have hsum := headerSum_check e n hlen
  have hqlen : (storeAs e 24 2 n p).length = p.length := length_storeAs (by omega)
  have hqttl : loadAs e 22 1 (storeAs e 24 2 n p) = loadAs e 22 1 p := by
    unfold loadAs
    rw [field_storeAs (by omega) (by omega)]
  have heq : decreaseTtlAs e p =
      storeAs e 22 1 (loadAs e 22 1 (storeAs e 24 2 n p) + 255) (storeAs e 24 2 n p) := by
    rw [← hn]
    rfl
  rw [heq, hqttl]
  generalize storeAs e 24 2 n p = q at hsum hqlen hqttl ⊢
  generalize hm : loadAs e 22 1 p + 255 = m
  have hlen' : (storeAs e 22 1 m q).length = q.length := length_storeAs (by omega)
  have hproto : loadAs e 23 1 (storeAs e 22 1 m q) = loadAs e 23 1 q := by
    unfold loadAs
    rw [field_storeAs (by omega) (by omega)]
  have hstored : loadAs e 22 1 (storeAs e 22 1 m q) = m % 256^1 := loadAs_storeAs (by omega)
  have hsum' := headerSum_ttl e m (show 34 ≤ q.length by omega)
  rw [loadAs_ttl e (by omega), loadAs_ttl e (by omega), hproto, hstored, hqttl] at hsum'
  cases e with
  | little =>
    have hone : htons .little 0x0100 = 1 := by decide
    rw [hone] at hcarry
    dsimp only at hsum'
    omega
  | big =>
    have hone : htons .big 0x0100 = 256 := by decide
    rw [hone] at hcarry
    dsimp only at hsum'
    omega

theorem decreaseTtlAs_version (e : ByteOrder) (h : Ipv4 p) :
    34 ≤ (decreaseTtlAs e p).length ∧ load 14 1 (decreaseTtlAs e p) = 0x45 := by
  have hlen := h.length
  have hcheck : Ipv4 (storeAs e 24 2 (loadAs e 24 2 p + htons e 0x0100 +
      if loadAs e 24 2 p + htons e 0x0100 ≥ 0xFFFF then 1 else 0) p) :=
    h.storeAs (by omega) (by omega)
  have hlen' := hcheck.length
  constructor
  · change 34 ≤ (storeAs e 22 1 _ _).length
    rwa [length_storeAs (by omega)]
  · change ofLE (field 14 1 (storeAs e 22 1 _ _)) = 0x45
    rw [field_storeAs (by omega) (by omega)]
    exact hcheck.version

/-- A header that adds up does so before and after the TTL is decreased. -/
theorem sums_of_mod (e : ByteOrder) (h : Ipv4 p)
    (hmod : (words e (field 14 20 p)).sum % 65535 = 0) :
    SumsUp p ∧ SumsUp (decreaseTtlAs e p) := by
  obtain ⟨hlength, hversion⟩ := decreaseTtlAs_version e h
  constructor
  · exact sumsUp_of_mod e h.length h.version hmod
  · apply sumsUp_of_mod e hlength hversion
    rw [decreaseTtlAs_mod e h]
    exact hmod

/-! ### The kernel program -/

/-- The Ethernet addresses are outside of the header. -/
theorem SumsUp.write {i : ℕ} {bs : List UInt8} (h : SumsUp p) (hi : i + bs.length ≤ p.length)
    (hd : i + bs.length ≤ 14) : SumsUp (Bytes.write i bs p) := by
  unfold SumsUp
  rw [field_write_of_disjoint hi (by omega)]
  exact h

theorem Ipv4.replaceAddrs (e : ByteOrder) (saddr daddr : ℕ) (h : Ipv4 p) :
    Ipv4 (replaceAddrs e saddr daddr p) := by
  have hlen := h.length
  have hsaddr : Ipv4 (L7mp.storeAs e 26 4 saddr p) := h.storeAs (by omega) (by omega)
  have hlen' := hsaddr.length
  exact hsaddr.storeAs (by omega) (by omega)

theorem Ipv4.replaceTuple (redir : FlowId) (h : Ipv4 p) (hp : 42 ≤ p.length) :
    Ipv4 (replaceTuple redir p) := by
  obtain ⟨hlen1, hlen2, hlen3⟩ := length_stores redir hp
  have haddrs : Ipv4 (store 30 4 redir.dstIp4 (store 26 4 redir.srcIp4 p)) :=
    h.replaceAddrs .little redir.srcIp4 redir.dstIp4
  have hsource : Ipv4 (store 34 2 redir.srcPort
      (store 30 4 redir.dstIp4 (store 26 4 redir.srcIp4 p))) :=
    haddrs.write (by simp; omega) (.inr (by omega))
  exact hsource.write (by simp; omega) (.inr (by omega))

/-- Up to the redirection the header adds up. -/
theorem redirected_sums {h : Helpers} (hdiff : DiffSums .little h.csumDiff) (redir : List UInt8)
    (hip : Ipv4 p) (hp : 42 ≤ p.length) : Ipv4 (redirected h redir p) ∧
      (words .little (field 14 20 (redirected h redir p))).sum % 65535 = 0 := by
  have hnew := hip.replaceTuple (.ofBytes redir) hp
  have hlen := length_replaceTuple (.ofBytes redir) hp
  have hmod := updateIpv4CsumAs_mod hdiff hnew
  have hsummed : Ipv4 (updateIpv4CsumAs .little h.csumDiff (replaceTuple (.ofBytes redir) p)) :=
    hnew.updateIpv4CsumAs h.csumDiff
  have hlen' := length_updateIpv4CsumAs (e := .little) h.csumDiff hnew.length
  rw [updateIpv4CsumAs_little] at hmod hsummed hlen'
  unfold redirected clearUdpCsum
  split_ifs
  · have hi : 40 + [(0 : UInt8), 0].length ≤
        (updateIpv4Csum h (replaceTuple (.ofBytes redir) p)).length := by
      simp only [List.length_cons, List.length_nil]
      omega
    refine ⟨hsummed.write hi (.inr (by omega)), ?_⟩
    rw [field_write_of_disjoint hi (by omega)]
    exact hmod
  · exact ⟨hsummed, hmod⟩

theorem forward_sums {h : Helpers} {skb : Skb} (hp : 42 ≤ skb.data.length)
    (hsums : SumsUp skb.data ∧ SumsUp (decreaseTtl skb.data)) :
    SumsUp (forward h skb).2.data := by
  unfold forward
  dsimp only
  split
  · have hlen := (carried_decreaseTtl hp).length
    have hd := (h.fibLookup (fibParams skb)).dmac.length
    have hs := (h.fibLookup (fibParams skb)).smac.length
    have hdst : SumsUp (write 0 (h.fibLookup (fibParams skb)).dmac.bytes (decreaseTtl skb.data)) :=
      hsums.2.write (by omega) (by omega)
    apply hdst.write
    · rw [length_write (by omega)]
      omega
    · omega
  all_goals exact hsums.1

theorem sidecar_sums {h : Helpers} {redirects statistics : BpfMap} {skb : Skb}
    (hdiff : DiffSums .little h.csumDiff) (hip : Ipv4 skb.data) (hit : Hits redirects skb.data) :
    SumsUp (sidecar h redirects statistics skb).2.1.data := by
  obtain ⟨redir, hredir⟩ := Option.ne_none_iff_exists'.mp hit.key
  obtain ⟨hsent, hmod⟩ := redirected_sums hdiff redir hip hit.length
  rw [sidecar_hits h hit hredir]
  apply forward_sums
  · change 42 ≤ (redirected h redir skb.data).length
    rw [length_redirected h redir hit.length]
    exact hit.length
  · exact sums_of_mod .little hsent hmod

/-- Wherever a packet is redirected to, the header that the kernel program leaves is valid: after
the addresses are replaced and after the TTL is decreased, on either kind of host. Four rounds of
folding are enough for every 64-bit sum. -/
theorem checksum_sums_up :
    (∀ (e : ByteOrder) (csumDiff : List UInt8 → ℕ) (p : List UInt8) (saddr daddr : ℕ),
      DiffSums e csumDiff → Ipv4 p →
        SumsUp (updateIpv4CsumAs e csumDiff (replaceAddrs e saddr daddr p)) ∧
        SumsUp (decreaseTtlAs e (updateIpv4CsumAs e csumDiff (replaceAddrs e saddr daddr p)))) ∧
    (∀ (h : Helpers) (redirects statistics : BpfMap) (skb : Skb),
      DiffSums .little h.csumDiff → Ipv4 skb.data → Hits redirects skb.data →
        SumsUp (sidecar h redirects statistics skb).2.1.data) ∧
    (∀ csum, csum < 2^64 →
      foldOnce^[4] csum < 2^16 ∧ foldOnce^[4] csum % 65535 = csum % 65535 ∧
        csumFold csum = 2^16 - 1 - foldOnce^[4] csum) := by
  refine ⟨?_, ?_, ?_⟩
  · intro e csumDiff p saddr daddr hdiff hip
    have hnew := hip.replaceAddrs e saddr daddr
    exact sums_of_mod e (hnew.updateIpv4CsumAs csumDiff) (updateIpv4CsumAs_mod hdiff hnew)
  · intro h redirects statistics skb hdiff hip hit
    exact sidecar_sums hdiff hip hit
  · intro csum hcsum
    have hlt := foldOnce_four hcsum
    refine ⟨hlt, foldOnce_iterate_mod 4 csum, ?_⟩
    change 2^16 - 1 - foldOnce^[4] csum % 2^16 = _
    rw [Nat.mod_eq_of_lt hlt]

/-- The 32-bit words of whole blocks. -/
def words32 : List UInt8 → List ℕ
  | a :: b :: c :: d :: bs => ofLE [a, b, c, d] :: words32 bs
  | _ => []

/-- The helper on a little-endian host: a 32-bit sum with the carries brought back in. -/
def csumPartial (data : List UInt8) : ℕ := OnesComplement.sum 32 (words32 data)

theorem words32_lt (data : List UInt8) : ∀ n ∈ words32 data, n < 2^32 := by
  induction data using words32.induct with
  | case1 a b c d bs ih =>
    intro n hn
    rw [words32, List.mem_cons] at hn
    rcases hn with rfl | hn
    · calc ofLE [a, b, c, d] < 256^4 := ofLE_lt [a, b, c, d]
        _ = 2^32 := by norm_num
    · exact ih n hn
  | case2 data hshort =>
    intro n hn
    rw [words32] at hn
    · exact absurd hn List.not_mem_nil
    · exact hshort

/-- 65536 is 1 modulo 65535. -/
theorem words32_mod {data : List UInt8} (h : 4 ∣ data.length) :
    (words32 data).sum % 65535 = (words .little data).sum % 65535 ∧
      ((words32 data).sum = 0 → (words .little data).sum = 0) := by
  induction data using words32.induct with
  | case1 a b c d bs ih =>
    have hbs : 4 ∣ bs.length := by
      simp only [List.length_cons] at h
      omega
    obtain ⟨hmod, hzero⟩ := ih hbs
    simp only [words32, words, List.sum_cons, ByteOrder.number, ofLE]
    omega
  | case2 data hshort =>
    have hnil : data = [] := by
      rcases data with _ | ⟨a, _ | ⟨b, _ | ⟨c, _ | ⟨d, bs⟩⟩⟩⟩
      · rfl
      · simp at h
      · simp at h
      · simp at h
      · exact absurd rfl (hshort a b c d bs)
    rw [hnil]
    exact ⟨rfl, fun _ => rfl⟩

theorem csumPartial_sums : DiffSums .little csumPartial := by
  constructor
  · intro data
    have hlt := sum_lt (words32_lt data)
    unfold csumPartial
    omega
  · intro data hdata
    have hmod := sum_mod (words32_lt data)
    have hwords := (words32_mod hdata).1
    unfold csumPartial
    omega
  · intro data hdata hzero
    have hwords := (sum_eq_zero (words32_lt data)).mp hzero
    exact (words_eq_zero .little data).mp ((words32_mod hdata).2 hwords)

/-- A datagram with TTL 64 that goes to port 5000. -/
def datagramTo5000 : List UInt8 :=
  [0, 0, 0, 0, 0, 1, 0, 0, 0, 0, 0, 2, 8, 0, 0x45, 0, 0, 30, 0, 1, 0, 0, 64, 17, 0, 0,
    10, 0, 0, 1, 10, 0, 0, 2, 0x13, 0x88, 0x13, 0x88, 0, 10, 0, 0, 1, 2]

/-- Where it is redirected to: 127.0.0.2, port 5001. -/
def to5001 : List UInt8 :=
  [127, 0, 0, 1, 127, 0, 0, 2, 0x13, 0x89, 0x13, 0x89, 17, 0, 0, 0]

theorem checksum_sums_up_datagram :
    SumsUp (updateIpv4CsumAs .little csumPartial
      (replaceAddrs .little 0x0100007f 0x0200007f datagramTo5000)) ∧
    SumsUp (decreaseTtlAs .little (updateIpv4CsumAs .little csumPartial
      (replaceAddrs .little 0x0100007f 0x0200007f datagramTo5000))) ∧
    SumsUp (sidecar ⟨csumPartial, true, fun _ => ⟨0, ⟨[2, 0, 0, 0, 0, 3], rfl⟩,
      ⟨[2, 0, 0, 0, 0, 4], rfl⟩, 7⟩, fun _ => .redirect, 0⟩ (fun _ => some to5001)
      (fun _ => none) ⟨datagramTo5000, 3⟩).2.1.data :=
  have hip : Ipv4 datagramTo5000 := ⟨by decide, by decide, by decide⟩
  have hfirst := checksum_sums_up.1 .little csumPartial datagramTo5000 0x0100007f 0x0200007f
    csumPartial_sums hip
  ⟨hfirst.1, hfirst.2, checksum_sums_up.2.1 ⟨csumPartial, true, fun _ => ⟨0,
    ⟨[2, 0, 0, 0, 0, 3], rfl⟩, ⟨[2, 0, 0, 0, 0, 4], rfl⟩, 7⟩, fun _ => .redirect, 0⟩
    (fun _ => some to5001) (fun _ => none) ⟨datagramTo5000, 3⟩ csumPartial_sums hip
    ⟨by decide, by decide, by decide, by decide⟩⟩

end L7mp
