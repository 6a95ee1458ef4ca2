import L7mp.Json
import Mathlib.Data.List.TakeDrop
import Mathlib.Data.Nat.Basic

/-! The text that `JSON.stringify` makes with an indentation of four, its length in JavaScript and
its size in bytes. -/
namespace Js

def ascii (c : Char) : Bool := c.toNat < 128

/-- How numbers are printed: with characters of ASCII only. -/
structure NumberFormat where
  text : ℚ → List Char
  ascii : ∀ q, (text q).all Js.ascii = true

/-- `length` of a text: its UTF-16 code units. -/
def unitCount : List Char → ℕ
  | [] => 0
  | c :: rest => (if c.toNat < 65536 then 1 else 2) + unitCount rest

/-- `Buffer.byteLength` of a text. -/
def byteLength : List Char → ℕ
  | [] => 0
  | c :: rest => c.utf8Size + byteLength rest

theorem utf8Size_eq (c : Char) : c.utf8Size =
    if c.toNat < 128 then 1 else if c.toNat < 2048 then 2 else if c.toNat < 65536 then 3
    else 4 := by
  have hle : ∀ n : ℕ, ∀ h : n < UInt32.size, c.val ≤ UInt32.ofNatLT n h ↔ c.toNat < n + 1 := by
    intro n h
    rw [UInt32.le_iff_toNat_le, UInt32.toNat_ofNatLT, Nat.lt_succ_iff]
    rfl
  simp only [Char.utf8Size, hle]

/-- A character takes at least as many bytes as units, and more outside ASCII. -/
theorem units_le_utf8Size (c : Char) : (if c.toNat < 65536 then 1 else 2) ≤ c.utf8Size ∧
    ((if c.toNat < 65536 then 1 else 2) = c.utf8Size ↔ ascii c = true) := by
  rw [utf8Size_eq, ascii, decide_eq_true_eq]
  split_ifs <;> omega

theorem unitCount_le_byteLength (text : List Char) : unitCount text ≤ byteLength text := by
  induction text with
  | nil => exact le_refl 0
  | cons c l ih =>
    have hc := (units_le_utf8Size c).1
    simp only [unitCount, byteLength]
    omega

/-- A text is as long as it is large just when it is ASCII. -/
theorem unitCount_eq_byteLength_iff (text : List Char) :
    unitCount text = byteLength text ↔ text.all ascii = true := by
  induction text with
  | nil => exact ⟨fun _ => rfl, fun _ => rfl⟩
  | cons c l ih =>
    obtain ⟨hc, hiff⟩ := units_le_utf8Size c
    have hl := unitCount_le_byteLength l
    rw [List.all_cons, Bool.and_eq_true]
    apply Iff.trans _ (and_congr hiff ih)
    simp only [unitCount, byteLength]
    omega

/-- The bytes of a text. -/
def utf8 (text : List Char) : List UInt8 := text.flatMap String.utf8EncodeChar

theorem length_utf8 (text : List Char) : (utf8 text).length = byteLength text := by
  induction text with
  | nil => rfl
  | cons c l ih =>
    unfold utf8 at ih ⊢
    rw [List.flatMap_cons, List.length_append, String.length_utf8EncodeChar, ih, byteLength]

/-- As many bytes as a text has units are the whole text just when it is ASCII. -/
theorem take_utf8_iff (text : List Char) :
    (utf8 text).take (unitCount text) = utf8 text ↔ text.all ascii = true := by
  have hle := unitCount_le_byteLength text
  rw [List.take_eq_self_iff, length_utf8, ← unitCount_eq_byteLength_iff]
  omega

def newline : Char := Char.ofNat 10

def quotationMark : Char := Char.ofNat 34

def backslash : Char := Char.ofNat 92

def hexDigit (n : ℕ) : Char := if n < 10 then Char.ofNat (48 + n) else Char.ofNat (87 + n)

/-- The control characters with an escape of their own. -/
def shortEscape : ℕ → Option Char
  | 8 => some 'b'
  | 9 => some 't'
  | 10 => some 'n'
  | 12 => some 'f'
  | 13 => some 'r'
  | _ => none

/-- A character of a string: the two marks and the control characters are escaped. -/
def quoteChar (c : Char) : List Char :=
  if c = quotationMark ∨ c = backslash then [backslash, c]
  else match shortEscape c.toNat with
    | some e => [backslash, e]
    | none =>
      if c.toNat < 32 then
        [backslash, 'u', '0', '0', hexDigit (c.toNat / 16), hexDigit (c.toNat % 16)]
      else [c]

def quote (s : String) : List Char :=
  quotationMark :: (s.toList.flatMap quoteChar ++ [quotationMark])

/-- Texts on lines of their own, with commas between them. -/
def lines (pad : List Char) : List (List Char) → List Char
  | [] => []
  | [t] => pad ++ t
  | t :: rest => pad ++ t ++ ',' :: newline :: lines pad rest

/-- The items of an array or an object in its brackets, which are the characters 91 and 93 or 123
and 125. -/
def bracket (left right : ℕ) (pad : List Char) (items : List (List Char)) : List Char :=
  if items.isEmpty then [Char.ofNat left, Char.ofNat right]
  else Char.ofNat left :: newline :: (lines (List.replicate 4 ' ' ++ pad) items ++
    newline :: (pad ++ [Char.ofNat right]))

mutual

/-- `JSON.stringify(v, null, 4)`, on a line that is indented by `pad`. -/
def stringify (f : NumberFormat) (pad : List Char) : Json → List Char
  | .null => "null".toList
  | .bool b => if b then "true".toList else "false".toList
  | .num (.finite q) => f.text q
  | .num (.infinite _) => "null".toList
  | .str s => quote s
  | .arr elements => bracket 91 93 pad (stringifyElements f (List.replicate 4 ' ' ++ pad) elements)
  | .obj fields => bracket 123 125 pad (stringifyFields f (List.replicate 4 ' ' ++ pad) fields)

def stringifyElements (f : NumberFormat) (pad : List Char) : List Json → List (List Char)
  | [] => []
  | v :: rest => stringify f pad v :: stringifyElements f pad rest

def stringifyFields (f : NumberFormat) (pad : List Char) :
    List (String × Json) → List (List Char)
  | [] => []
  | (k, v) :: rest => (quote k ++ ':' :: ' ' :: stringify f pad v) :: stringifyFields f pad rest

end

mutual

/-- All strings and keys are ASCII. -/
def Json.isAscii : Json → Bool
  | .str s => s.toList.all ascii
  | .arr elements => elementsAscii elements
  | .obj fields => fieldsAscii fields
  | _ => true

def elementsAscii : List Json → Bool
  | [] => true
  | v :: rest => v.isAscii && elementsAscii rest

def fieldsAscii : List (String × Json) → Bool
  | [] => true
  | (k, v) :: rest => (k.toList.all ascii && v.isAscii) && fieldsAscii rest

end

theorem fieldsAscii_append (l l' : List (String × Json)) :
    fieldsAscii (l ++ l') = (fieldsAscii l && fieldsAscii l') := by
  induction l with
  | nil => rfl
  | cons f l ih => simp only [List.cons_append, fieldsAscii, ih, Bool.and_assoc]

theorem shortEscape_ascii {n : ℕ} {e : Char} (h : shortEscape n = some e) :
    n < 32 ∧ ascii e = true := by
  unfold shortEscape at h
  split at h <;> cases h <;> exact ⟨by omega, rfl⟩

theorem all_quoteChar (c : Char) : (quoteChar c).all ascii = ascii c := by
  have hhex : ∀ n, n < 16 → ascii (hexDigit n) = true := by decide
  have hmark : ascii backslash = true := by decide
  have hlow : c.toNat < 32 → ascii c = true := fun h => decide_eq_true (by omega)
  unfold quoteChar
  split
  · rename_i hspecial
    rcases hspecial with rfl | rfl <;> decide
  · split
    · rename_i e he
      obtain ⟨hn, hascii⟩ := shortEscape_ascii he
      simp only [List.all_cons, List.all_nil, hmark, hascii, hlow hn, Bool.and_true]
    · split
      · rename_i h32
        have h₁ := hhex (c.toNat / 16) (by omega)
        have h₂ := hhex (c.toNat % 16) (by omega)
        have h₃ : ascii 'u' = true ∧ ascii '0' = true := by decide
        simp only [List.all_cons, List.all_nil, hmark, h₁, h₂, h₃, hlow h32, Bool.and_true]
      · simp only [List.all_cons, List.all_nil, Bool.and_true]

theorem all_quote (s : String) : (quote s).all ascii = s.toList.all ascii := by
  have hmark : ascii quotationMark = true := by decide
  have hbody : (s.toList.flatMap quoteChar).all ascii = s.toList.all ascii := by
    rw [List.all_flatMap]
    simp only [all_quoteChar]
  simp only [quote, List.all_cons, List.all_append, List.all_nil, hmark, hbody, Bool.and_true,
    Bool.true_and]

/-- What is in front of a text and is ASCII itself makes no difference. -/
theorem all_append {lead : String} (hlead : lead.toList.all ascii = true) (s : String) :
    (lead ++ s).toList.all ascii = s.toList.all ascii := by
  rw [String.toList_append, List.all_append, hlead, Bool.true_and]

theorem all_toDigits (n : ℕ) : (Nat.toDigits 10 n).all ascii = true := by
  rw [List.all_eq_true]
  intro c hc
  have hdigit := Nat.isDigit_of_mem_toDigits (by decide) (by decide) hc
  rw [Char.isDigit, Bool.and_eq_true, decide_eq_true_eq, decide_eq_true_eq] at hdigit
  have hhigh : c.toNat ≤ 57 := UInt32.le_iff_toNat_le.mp hdigit.2
  rw [ascii, decide_eq_true_eq]
  omega

theorem all_lines {pad : List Char} (hpad : pad.all ascii = true) (items : List (List Char)) :
    (lines pad items).all ascii = items.all (fun t => t.all ascii) := by
  induction items with
  | nil => rfl
  | cons t rest ih =>
    have hsep : ascii ',' = true ∧ ascii newline = true := by decide
    cases rest with
    | nil => simp only [lines, List.all_append, hpad, List.all_cons, List.all_nil, Bool.true_and,
        Bool.and_true]
    | cons u rest =>
      rw [lines, List.all_cons, ← ih]
      · simp only [List.all_append, List.all_cons, hpad, hsep, Bool.true_and]
      · exact List.cons_ne_nil u rest

theorem all_indent {pad : List Char} (hpad : pad.all ascii = true) :
    (List.replicate 4 ' ' ++ pad).all ascii = true := by
  rw [List.all_append, hpad]
  rfl

theorem all_bracket {left right : ℕ} {pad : List Char} (hleft : left < 128) (hright : right < 128)
    (hpad : pad.all ascii = true) (items : List (List Char)) :
    (bracket left right pad items).all ascii = items.all (fun t => t.all ascii) := by
  have hchar : ∀ n, n < 128 → ascii (Char.ofNat n) = true := by decide
  have hnewline : ascii newline = true := by decide
  unfold bracket
  split_ifs with hempty
  · rw [List.isEmpty_iff.mp hempty]
    simp only [List.all_cons, List.all_nil, hchar left hleft, hchar right hright, Bool.and_true]
  · simp only [List.all_cons, List.all_append, List.all_nil, hchar left hleft,
      hchar right hright, hnewline, hpad, all_lines (all_indent hpad), Bool.and_true, Bool.true_and]

mutual

/-- The text of a value is ASCII just when its strings and keys are. -/
theorem all_stringify (f : NumberFormat) : ∀ (v : Json) (pad : List Char),
    pad.all ascii = true → (stringify f pad v).all ascii = v.isAscii
  | .null, _, _ => rfl
  | .bool b, _, _ => by cases b <;> rfl
  | .num (.finite q), _, _ => f.ascii q
  | .num (.infinite _), _, _ => rfl
  | .str s, _, _ => all_quote s
  | .arr elements, pad, h => by
    rw [stringify, all_bracket (by decide) (by decide) h, Json.isAscii]
    exact all_stringifyElements f elements _ (all_indent h)
  | .obj fields, pad, h => by
    rw [stringify, all_bracket (by decide) (by decide) h, Json.isAscii]
    exact all_stringifyFields f fields _ (all_indent h)

theorem all_stringifyElements (f : NumberFormat) : ∀ (l : List Json) (pad : List Char),
    pad.all ascii = true →
      (stringifyElements f pad l).all (fun t => t.all ascii) = elementsAscii l
  | [], _, _ => rfl
  | v :: rest, pad, h => by
    rw [stringifyElements, List.all_cons, all_stringify f v pad h,
      all_stringifyElements f rest pad h, elementsAscii]

theorem all_stringifyFields (f : NumberFormat) : ∀ (l : List (String × Json)) (pad : List Char),
    pad.all ascii = true →
      (stringifyFields f pad l).all (fun t => t.all ascii) = fieldsAscii l
  | [], _, _ => rfl
  | (k, v) :: rest, pad, h => by
    have hsep : ascii ':' = true ∧ ascii ' ' = true := by decide
    rw [stringifyFields, List.all_cons, List.all_append, List.all_cons, List.all_cons,
      all_stringify f v pad h, all_stringifyFields f rest pad h, all_quote, hsep.1, hsep.2,
      Bool.true_and, Bool.true_and, fieldsAscii]

end

end Js
