import L7mp.Bytes
import Mathlib.Data.List.Basic

/-! One's complement sums: addition of `w`-bit numbers with the carry brought back in at the low
end, and the 16-bit words of a byte string in either byte order. -/
namespace OnesComplement
open Bytes

/-- The carry comes back in at the low end. -/
def add (w m n : ℕ) : ℕ := (m+n)%2^w + (m+n)/2^w

def sum (w : ℕ) : List ℕ → ℕ
  | [] => 0
  | n :: ns => add w n (sum w ns)

variable {w m n : ℕ}

/-- There is at most one carry, and it leaves room for itself. -/
theorem add_cases (hm : m < 2^w) (hn : n < 2^w) :
    m + n < 2^w ∧ add w m n = m + n ∨ 2^w ≤ m + n ∧ add w m n = m + n + 1 - 2^w := by
  unfold add
  by_cases hlt : m + n < 2^w
  · left
    rw [Nat.mod_eq_of_lt hlt, Nat.div_eq_of_lt hlt, Nat.add_zero]
    exact ⟨hlt, rfl⟩
  · right
    have hdiv : (m+n)/2^w = 1 := by
      apply Nat.div_eq_of_lt_le
      · omega
      · omega
    have hmod : (m+n)%2^w = m + n - 2^w := by
      rw [Nat.mod_eq_sub_mod (by omega)]
      apply Nat.mod_eq_of_lt
      omega
    rw [hdiv, hmod]
    omega

theorem add_lt (hm : m < 2^w) (hn : n < 2^w) : add w m n < 2^w := by
  rcases add_cases hm hn with ⟨hlt, heq⟩ | ⟨hge, heq⟩ <;> omega

theorem add_mod (hm : m < 2^w) (hn : n < 2^w) :
    add w m n % (2^w-1) = (m+n) % (2^w-1) := by
  rcases add_cases hm hn with ⟨hlt, heq⟩ | ⟨hge, heq⟩
  · rw [heq]
  · have hsum : m + n = add w m n + (2^w-1) := by
      have hpos : 0 < 2^w := Nat.two_pow_pos w
      omega
    rw [hsum, Nat.add_mod_right]

theorem add_eq_zero (hm : m < 2^w) (hn : n < 2^w) : add w m n = 0 ↔ m = 0 ∧ n = 0 := by
  rcases add_cases hm hn with ⟨hlt, heq⟩ | ⟨hge, heq⟩ <;> omega

theorem sum_lt {ns : List ℕ} (h : ∀ n ∈ ns, n < 2^w) : sum w ns < 2^w := by
  induction ns with
  | nil => exact Nat.two_pow_pos w
  | cons n ns ih =>
    apply add_lt (h n List.mem_cons_self)
    exact ih (fun m hm => h m (List.mem_cons_of_mem n hm))

theorem sum_mod {ns : List ℕ} (h : ∀ n ∈ ns, n < 2^w) :
    sum w ns % (2^w-1) = ns.sum % (2^w-1) := by
  induction ns with
  | nil => rfl
  | cons n ns ih =>
    have hns : ∀ m ∈ ns, m < 2^w := fun m hm => h m (List.mem_cons_of_mem n hm)
    rw [sum, add_mod (h n List.mem_cons_self) (sum_lt hns), List.sum_cons]
    calc (n + sum w ns) % (2^w-1)
        = (n + sum w ns % (2^w-1)) % (2^w-1) := by rw [Nat.add_mod_mod]
      _ = (n + ns.sum % (2^w-1)) % (2^w-1) := by rw [ih hns]
      _ = (n + ns.sum) % (2^w-1) := by rw [Nat.add_mod_mod]

theorem sum_eq_zero {ns : List ℕ} (h : ∀ n ∈ ns, n < 2^w) : sum w ns = 0 ↔ ns.sum = 0 := by
  induction ns with
  | nil => exact Iff.rfl
  | cons n ns ih =>
    have hns : ∀ m ∈ ns, m < 2^w := fun m hm => h m (List.mem_cons_of_mem n hm)
    rw [sum, add_eq_zero (h n List.mem_cons_self) (sum_lt hns), ih hns, List.sum_cons]
    omega

/-- The sum is all ones when the words add up to a multiple of `2^w - 1`, but not to zero. -/
theorem sum_eq_ones {ns : List ℕ} (h : ∀ n ∈ ns, n < 2^w) (hmod : ns.sum % (2^w-1) = 0)
    (hpos : 0 < ns.sum) : sum w ns = 2^w-1 := by
  have hlt := sum_lt h
  have hne : sum w ns ≠ 0 := fun hzero => hpos.ne' ((sum_eq_zero h).mp hzero)
  have hdvd : 2^w-1 ∣ sum w ns := Nat.dvd_of_mod_eq_zero ((sum_mod h).trans hmod)
  have hle : 2^w-1 ≤ sum w ns := Nat.le_of_dvd (Nat.pos_of_ne_zero hne) hdvd
  omega

/-! ### Words -/

inductive ByteOrder
  | little | big
  deriving DecidableEq, Repr

namespace ByteOrder

/-- The number that a host of this byte order reads. -/
def number : ByteOrder → List UInt8 → ℕ
  | little => ofLE
  | big => ofBE

/-- What it writes. -/
def bytes : ByteOrder → ℕ → ℕ → List UInt8
  | little => le
  | big => be

theorem length_bytes (e : ByteOrder) (w n : ℕ) : (e.bytes w n).length = w := by
  cases e with
  | little => exact length_le w n
  | big => exact length_be w n

theorem number_bytes (e : ByteOrder) (w n : ℕ) : e.number (e.bytes w n) = n % 256^w := by
  cases e with
  | little => exact ofLE_le w n
  | big => exact ofBE_be w n

theorem number_lt (e : ByteOrder) (bs : List UInt8) : e.number bs < 256^bs.length := by
  cases e with
  | little => exact ofLE_lt bs
  | big => simpa [number, ofBE] using ofLE_lt bs.reverse

theorem number_pair_lt (e : ByteOrder) (a b : UInt8) : e.number [a, b] < 2^16 := by
  calc e.number [a, b] < 256^2 := e.number_lt [a, b]
    _ = 2^16 := by norm_num

end ByteOrder

/-- The 16-bit words, an odd byte at the end filled up with zero. -/
def words (e : ByteOrder) : List UInt8 → List ℕ
  | [] => []
  | [a] => [e.number [a, 0]]
  | a :: b :: bs => e.number [a, b] :: words e bs

theorem words_lt (e : ByteOrder) (bs : List UInt8) : ∀ n ∈ words e bs, n < 2^16 := by
  induction bs using words.induct with
  | case1 => simp [words]
  | case2 a =>
    intro n hn
    rw [words, List.mem_singleton] at hn
    rw [hn]
    exact e.number_pair_lt a 0
  | case3 a b bs ih =>
    intro n hn
    rw [words, List.mem_cons] at hn
    rcases hn with rfl | hn
    · exact e.number_pair_lt a b
    · exact ih n hn

theorem words_append (e : ByteOrder) {bs : List UInt8} (h : 2 ∣ bs.length) (cs : List UInt8) :
    words e (bs ++ cs) = words e bs ++ words e cs := by
  induction bs using words.induct with
  | case1 => rfl
  | case2 a => simp at h
  | case3 a b bs ih =>
    have hbs : 2 ∣ bs.length := by
      rw [List.length_cons, List.length_cons] at h
      omega
    rw [List.cons_append, List.cons_append, words, words, ih hbs, List.cons_append]

theorem words_pair (e : ByteOrder) {bs : List UInt8} (h : bs.length = 2) :
    words e bs = [e.number bs] := by
  obtain ⟨a, b, rfl⟩ := List.length_eq_two.mp h
  rfl

/-- Byte order is a factor of 256 modulo 65535. -/
theorem words_big (bs : List UInt8) :
    (words .big bs).sum % 65535 = 256*(words .little bs).sum % 65535 := by
  have hpair (a b : UInt8) : ByteOrder.big.number [a, b] % 65535 =
      256*ByteOrder.little.number [a, b] % 65535 := by
    simp only [ByteOrder.number, ofBE, ofLE, List.reverse_cons, List.reverse_nil, List.nil_append,
      List.cons_append]
    omega
  induction bs using words.induct with
  | case1 => rfl
  | case2 a => simpa [words] using hpair a 0
  | case3 a b bs ih =>
    have hab := hpair a b
    rw [words, words, List.sum_cons, List.sum_cons]
    omega

/-- Only zero bytes add up to nothing. -/
theorem words_eq_zero (e : ByteOrder) (bs : List UInt8) :
    (words e bs).sum = 0 ↔ ∀ b ∈ bs, b = 0 := by
  have hzero (a : UInt8) : a.toNat = 0 ↔ a = 0 := by
    rw [← UInt8.toNat_inj]
    rfl
  have hpair (a b : UInt8) : e.number [a, b] = 0 ↔ a = 0 ∧ b = 0 := by
    rw [← hzero a, ← hzero b]
    cases e with
    | little =>
      simp only [ByteOrder.number, ofLE]
      omega
    | big =>
      simp only [ByteOrder.number, ofBE, ofLE, List.reverse_cons, List.reverse_nil,
        List.nil_append, List.cons_append]
      omega
  induction bs using words.induct with
  | case1 => simp [words]
  | case2 a => simp [words, hpair]
  | case3 a b bs ih =>
    simp only [words, List.sum_cons, Nat.add_eq_zero_iff, hpair, ih, List.mem_cons,
      forall_eq_or_imp, and_assoc]

end OnesComplement
