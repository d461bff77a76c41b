import Mathlib.Data.List.Basic
import Mathlib.Tactic.Ring

/-!
128-bit identifiers and their text forms. The canonical text is 32 lower-case
hexadecimal digits in groups of 8, 4, 4, 4 and 12. Reading accepts the canonical
text, the bare digits, and the braced and URN forms, in either case.
-/
namespace IronGolem.Identifiers

open List

abbrev Uuid := BitVec 128

def hexDigit (n : ℕ) : Char := "0123456789abcdef".toList.getD n '0'

def hexValue (c : Char) : Option ℕ :=
  if '0' ≤ c ∧ c ≤ '9' then some (c.toNat - '0'.toNat)
  else if 'a' ≤ c ∧ c ≤ 'f' then some (c.toNat - 'a'.toNat + 10)
  else if 'A' ≤ c ∧ c ≤ 'F' then some (c.toNat - 'A'.toNat + 10)
  else none

/-- The last `width` hexadecimal digits of a number, most significant first. -/
def toHex : ℕ → ℕ → List Char
  | 0, _ => []
  | width + 1, n => toHex width (n / 16) ++ [hexDigit (n % 16)]

theorem notMem_toHex {c : Char} (hc : ∀ d < 16, c ≠ hexDigit d) (width n : ℕ) :
    c ∉ toHex width n := by
  induction width generalizing n with
  | zero => exact List.not_mem_nil
  | succ width ih =>
    rw [toHex, List.mem_append, List.mem_singleton, not_or]
    exact ⟨ih _, hc _ (Nat.mod_lt n (by decide))⟩

def ofHex (digits : List Char) : Option ℕ :=
  digits.foldlM (fun acc c => (hexValue c).map (16 * acc + ·)) 0

theorem hexValue_hexDigit {n : ℕ} (h : n < 16) : hexValue (hexDigit n) = some n := by
  have hall : ∀ m < 16, hexValue (hexDigit m) = some m := by decide
  exact hall n h

theorem length_toHex (width n : ℕ) : (toHex width n).length = width := by
  induction width generalizing n with
  | zero => rfl
  | succ width ih => simp [toHex, ih]

theorem ofHex_append_digit (digits : List Char) (c : Char) :
    ofHex (digits ++ [c]) = (ofHex digits).bind (fun acc => (hexValue c).map (16 * acc + ·)) := by
  simp [ofHex, foldlM_append]

theorem ofHex_toHex (width n : ℕ) : ofHex (toHex width n) = some (n % 16 ^ width) := by
  induction width generalizing n with
  | zero => simp [toHex, ofHex, Nat.mod_one]
  | succ width ih =>
    have hdigit := hexValue_hexDigit (Nat.mod_lt n (by omega))
    rw [toHex, ofHex_append_digit, ih]
    simp only [Option.bind_some, hdigit, Option.map_some, Option.some.injEq]
    rw [pow_succ, Nat.mul_comm (16 ^ width) 16, Nat.mod_mul]
    ring

def hyphenate (digits : List Char) : List Char :=
  digits.take 8 ++ '-' :: ((digits.drop 8).take 4 ++ '-' :: ((digits.drop 12).take 4 ++
    '-' :: ((digits.drop 16).take 4 ++ '-' :: digits.drop 20)))

def unhyphenate (text : List Char) : Option (List Char) :=
  if text[8]? = some '-' ∧ text[13]? = some '-' ∧ text[18]? = some '-' ∧ text[23]? = some '-' then
    some (text.take 8 ++ ((text.drop 9).take 4 ++ ((text.drop 14).take 4 ++
      ((text.drop 19).take 4 ++ text.drop 24))))
  else none

def toText (id : Uuid) : String := String.ofList (hyphenate (toHex 32 id.toNat))

def digitsOf (text : List Char) : Option (List Char) :=
  if text.length = 32 then some text
  else if text.length = 36 then unhyphenate text
  else if text.length = 38 ∧ text.head? = some '\x7b' ∧ text.getLast? = some '\x7d' then
    unhyphenate ((text.drop 1).take 36)
  else if text.length = 45 ∧ text.take 9 = "urn:uuid:".toList then unhyphenate (text.drop 9)
  else none

def parseStr (text : String) : Except String Uuid :=
  match (digitsOf text.toList).bind ofHex with
  | some n => .ok (BitVec.ofNat 128 n)
  | none => .error "UUID parsing failed"

variable {digits : List Char}

theorem exists_groups (h : digits.length = 32) :
    ∃ a b c d e : List Char, digits = a ++ (b ++ (c ++ (d ++ e))) ∧
      a.length = 8 ∧ b.length = 4 ∧ c.length = 4 ∧ d.length = 4 ∧ e.length = 12 := by
  refine ⟨digits.take 8, (digits.drop 8).take 4, (digits.drop 12).take 4,
    (digits.drop 16).take 4, digits.drop 20, ?_, ?_, ?_, ?_, ?_, ?_⟩
  · conv_lhs => rw [← take_append_drop 8 digits, ← take_append_drop 4 (digits.drop 8),
      drop_drop, ← take_append_drop 4 (digits.drop 12), drop_drop,
      ← take_append_drop 4 (digits.drop 16), drop_drop]
  all_goals simp [h]

theorem digitsOf_hyphenate (h : digits.length = 32) :
    digitsOf (hyphenate digits) = some digits := by
  obtain ⟨a, b, c, d, e, rfl, ha, hb, hc, hd, he⟩ := exists_groups h
  have htext : hyphenate (a ++ (b ++ (c ++ (d ++ e)))) =
      a ++ '-' :: (b ++ '-' :: (c ++ '-' :: (d ++ '-' :: e))) := by
    simp [hyphenate, drop_append, ha, hb, hc, hd, drop_eq_nil_of_le]
  rw [htext, digitsOf, if_neg (by simp [ha, hb, hc, hd, he]),
    if_pos (by simp [ha, hb, hc, hd, he]), unhyphenate, if_pos]
  · simp [drop_append, ha, hb, hc, hd, drop_eq_nil_of_le]
  · all_goals simp [getElem?_append, ha, hb, hc, hd]

theorem parseStr_toText (id : Uuid) : parseStr (toText id) = .ok id := by
  have hdigits : digitsOf (hyphenate (toHex 32 id.toNat)) = some (toHex 32 id.toNat) :=
    digitsOf_hyphenate (length_toHex 32 _)
  have hlt : id.toNat < 16 ^ 32 := id.isLt
  have hvalue : ofHex (toHex 32 id.toNat) = some id.toNat := by
    rw [ofHex_toHex, Nat.mod_eq_of_lt hlt]
  simp [parseStr, toText, hdigits, hvalue]

theorem toText_injective {a b : Uuid} (h : toText a = toText b) : a = b := by
  have ha := parseStr_toText a
  rw [h, parseStr_toText] at ha
  exact (Except.ok.inj ha).symm

end IronGolem.Identifiers
