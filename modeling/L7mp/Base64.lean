import Mathlib.Data.Nat.Basic

/-! The base64 encoding of bytes, with padding, and a decoder that leaves out what is not in the
alphabet. -/
namespace Base64

/-- The character of a group of six bits. -/
def symbol (n : ℕ) : Char :=
  if n < 26 then Char.ofNat (65 + n)
  else if n < 52 then Char.ofNat (71 + n)
  else if n < 62 then Char.ofNat (n - 4)
  else if n = 62 then '+'
  else '/'

/-- The group of a character, also in the alphabet for names of files. -/
def value (c : Char) : Option ℕ :=
  let n := c.toNat
  if 65 ≤ n ∧ n < 91 then some (n - 65)
  else if 97 ≤ n ∧ n < 123 then some (n - 71)
  else if 48 ≤ n ∧ n < 58 then some (n + 4)
  else if c = '+' ∨ c = '-' then some 62
  else if c = '/' ∨ c = '_' then some 63
  else none

def encode : List UInt8 → List Char
  | [] => []
  | [a] => [symbol (a.toNat / 4), symbol (a.toNat % 4 * 16), '=', '=']
  | [a, b] =>
    [symbol (a.toNat / 4), symbol (a.toNat % 4 * 16 + b.toNat / 16), symbol (b.toNat % 16 * 4), '=']
  | a :: b :: c :: rest =>
    symbol (a.toNat / 4) :: symbol (a.toNat % 4 * 16 + b.toNat / 16) ::
      symbol (b.toNat % 16 * 4 + c.toNat / 64) :: symbol (c.toNat % 64) :: encode rest

/-- The bytes of groups of six bits. What does not fill a byte at the end is left out. -/
def join : List ℕ → List UInt8
  | p :: q :: r :: s :: rest =>
    UInt8.ofNat (p * 4 + q / 16) :: UInt8.ofNat (q % 16 * 16 + r / 4) ::
      UInt8.ofNat (r % 4 * 64 + s) :: join rest
  | [p, q, r] => [UInt8.ofNat (p * 4 + q / 16), UInt8.ofNat (q % 16 * 16 + r / 4)]
  | [p, q] => [UInt8.ofNat (p * 4 + q / 16)]
  | _ => []

def decode (cs : List Char) : List UInt8 := join (cs.filterMap value)

theorem value_symbol {n : ℕ} (hn : n < 64) : value (symbol n) = some n := by
  have hall : ∀ m : Fin 64, value (symbol m) = some m.val := by decide
  exact hall ⟨n, hn⟩

theorem ofNat_toNat (a : UInt8) {n : ℕ} (hn : n = a.toNat) : UInt8.ofNat n = a := by
  rw [hn]
  exact UInt8.ofNat_toNat

/-- The symbols of groups are decoded to the groups. -/
theorem filterMap_symbols (groups : List ℕ) (h : ∀ n ∈ groups, n < 64) (cs : List Char) :
    (groups.map symbol ++ cs).filterMap value = groups ++ cs.filterMap value := by
  induction groups with
  | nil => rfl
  | cons n groups ih =>
    have hn := value_symbol (h n List.mem_cons_self)
    have hrest := ih (fun m hm => h m (List.mem_cons_of_mem n hm))
    rw [List.map_cons, List.cons_append, List.filterMap_cons_some hn, hrest]
    rfl

/-- What was encoded is decoded again, for bytes of any number. -/
theorem decode_encode : ∀ bytes : List UInt8, decode (encode bytes) = bytes
  | [] => rfl
  | [a] => by
    have ha := a.toNat_lt
    have hgroups : (encode [a]).filterMap value = [a.toNat / 4, a.toNat % 4 * 16] := by
      have hsymbols := filterMap_symbols [a.toNat / 4, a.toNat % 4 * 16]
        (by simp only [List.mem_cons, List.not_mem_nil, or_false]; omega) ['=', '=']
      exact hsymbols
    unfold decode
    rw [hgroups, join, ofNat_toNat a (by omega)]
  | [a, b] => by
    have ha := a.toNat_lt
    have hb := b.toNat_lt
    have hgroups : (encode [a, b]).filterMap value =
        [a.toNat / 4, a.toNat % 4 * 16 + b.toNat / 16, b.toNat % 16 * 4] := by
      have hsymbols := filterMap_symbols
        [a.toNat / 4, a.toNat % 4 * 16 + b.toNat / 16, b.toNat % 16 * 4]
        (by simp only [List.mem_cons, List.not_mem_nil, or_false]; omega) ['=']
      exact hsymbols
    unfold decode
    rw [hgroups, join, ofNat_toNat a (by omega), ofNat_toNat b (by omega)]
  | a :: b :: c :: rest => by
    have ha := a.toNat_lt
    have hb := b.toNat_lt
    have hc := c.toNat_lt
    have hrest := decode_encode rest
    have hgroups : (encode (a :: b :: c :: rest)).filterMap value =
        a.toNat / 4 :: (a.toNat % 4 * 16 + b.toNat / 16) :: (b.toNat % 16 * 4 + c.toNat / 64) ::
          c.toNat % 64 :: (encode rest).filterMap value := by
      have hsymbols := filterMap_symbols [a.toNat / 4, a.toNat % 4 * 16 + b.toNat / 16,
        b.toNat % 16 * 4 + c.toNat / 64, c.toNat % 64]
        (by simp only [List.mem_cons, List.not_mem_nil, or_false]; omega) (encode rest)
      exact hsymbols
    unfold decode at hrest ⊢
    rw [hgroups, join, hrest, ofNat_toNat a (by omega), ofNat_toNat b (by omega),
      ofNat_toNat c (by omega)]

end Base64
