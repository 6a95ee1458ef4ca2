import Mathlib.Tactic.Ring

/-! Numbers in a fixed number of bytes, in either byte order, and fields of a byte string. -/
namespace Bytes

/-- The lowest byte first. -/
def le : ℕ → ℕ → List UInt8
  | 0, _ => []
  | w+1, n => UInt8.ofNat n :: le w (n/256)

/-- The highest byte first. -/
def be (w n : ℕ) : List UInt8 := (le w n).reverse

def ofLE : List UInt8 → ℕ
  | [] => 0
  | b :: bs => b.toNat + 256*ofLE bs

def ofBE (bs : List UInt8) : ℕ := ofLE bs.reverse

@[simp] theorem length_le (w n : ℕ) : (le w n).length = w := by
  induction w generalizing n with
  | zero => rfl
  | succ w ih => simp [le, ih]

@[simp] theorem length_be (w n : ℕ) : (be w n).length = w := by simp [be]

theorem ofLE_le (w n : ℕ) : ofLE (le w n) = n % 256^w := by
  induction w generalizing n with
  | zero => simp [le, ofLE, Nat.mod_one]
  | succ w ih =>
    have hbyte : (UInt8.ofNat n).toNat = n % 256 := by simp
    rw [le, ofLE, ih, hbyte, pow_succ', Nat.mod_mul]

theorem le_ofLE (bs : List UInt8) : le bs.length (ofLE bs) = bs := by
  induction bs with
  | nil => rfl
  | cons b bs ih =>
    have hb : b.toNat < 256 := b.toNat_lt
    have hlow : UInt8.ofNat (b.toNat + 256*ofLE bs) = b := by
      apply UInt8.toNat_inj.mp
      rw [UInt8.toNat_ofNat']
      omega
    have hhigh : (b.toNat + 256*ofLE bs)/256 = ofLE bs := by omega
    rw [List.length_cons, ofLE, le, hlow, hhigh, ih]

theorem le_of_length {w : ℕ} {bs : List UInt8} (h : bs.length = w) : le w (ofLE bs) = bs := by
  rw [← h]
  exact le_ofLE bs

theorem ofLE_lt (bs : List UInt8) : ofLE bs < 256^bs.length := by
  induction bs with
  | nil => exact Nat.one_pos
  | cons b bs ih =>
    have hb : b.toNat < 256 := b.toNat_lt
    rw [ofLE, List.length_cons, pow_succ]
    omega

theorem ofBE_be (w n : ℕ) : ofBE (be w n) = n % 256^w := by
  rw [ofBE, be, List.reverse_reverse, ofLE_le]

theorem be_ofBE {w : ℕ} {bs : List UInt8} (h : bs.length = w) : be w (ofBE bs) = bs := by
  rw [be, ofBE, le_of_length (by simpa using h), List.reverse_reverse]

/-! ### Fields -/

/-- The `w` bytes from offset `i` on. -/
def field (i w : ℕ) (p : List UInt8) : List UInt8 := (p.drop i).take w

/-- `bs` is written at offset `i`. -/
def write (i : ℕ) (bs p : List UInt8) : List UInt8 := p.take i ++ bs ++ p.drop (i + bs.length)

variable {i j w : ℕ} {bs p : List UInt8}

theorem length_field (h : i + w ≤ p.length) : (field i w p).length = w := by
  unfold field
  rw [List.length_take, List.length_drop]
  omega

@[simp] theorem length_write (h : i + bs.length ≤ p.length) : (write i bs p).length = p.length := by
  unfold write
  simp only [List.length_append, List.length_take, List.length_drop]
  omega

theorem getElem?_write (h : i + bs.length ≤ p.length) (k : ℕ) : (write i bs p)[k]? =
    if i ≤ k ∧ k < i + bs.length then bs[k-i]? else p[k]? := by
  have hi : (p.take i).length = i := by
    rw [List.length_take]
    omega
  unfold write
  by_cases hlow : k < i
  · rw [if_neg (by omega), List.append_assoc, List.getElem?_append_left (by omega),
      List.getElem?_take_of_lt hlow]
  · rw [List.append_assoc, List.getElem?_append_right (by omega), hi]
    by_cases hin : k < i + bs.length
    · rw [if_pos (by omega), List.getElem?_append_left (by omega)]
    · rw [if_neg (by omega), List.getElem?_append_right (by omega), List.getElem?_drop]
      congr 1
      omega

theorem getElem?_field (k : ℕ) : (field i w p)[k]? = if k < w then p[i+k]? else none := by
  unfold field
  rw [List.getElem?_take, List.getElem?_drop]

/-- A field that a write does not touch. -/
theorem field_write_of_disjoint (h : i + bs.length ≤ p.length)
    (hd : j + w ≤ i ∨ i + bs.length ≤ j) : field j w (write i bs p) = field j w p := by
  apply List.ext_getElem?
  intro k
  rw [getElem?_field, getElem?_field]
  split_ifs with hk
  · rw [getElem?_write h, if_neg (by omega)]
  · rfl

/-- What was written. -/
theorem field_write (h : i + bs.length ≤ p.length) : field i bs.length (write i bs p) = bs := by
  apply List.ext_getElem?
  intro k
  rw [getElem?_field]
  split_ifs with hk
  · rw [getElem?_write h, if_pos (by omega)]
    congr 1
    omega
  · rw [List.getElem?_eq_none (by omega)]

theorem drop_write (h : i + bs.length ≤ p.length) (hj : i + bs.length ≤ j) :
    (write i bs p).drop j = p.drop j := by
  apply List.ext_getElem?
  intro k
  rw [List.getElem?_drop, List.getElem?_drop, getElem?_write h, if_neg (by omega)]

end Bytes
