import Mathlib.Data.List.Basic

/-! Base64 in the URL-safe alphabet without padding, and the lenient decoder of
Python's `binascii`: it skips every character outside the alphabet and stops at
the first complete padding. Decoding an encoded text with its padding put back
gives the bytes again. -/

namespace Infera.Base64
open List Option

/-- The URL-safe alphabet. -/
def digit (n : ℕ) : Char :=
  if n < 26 then Char.ofNat (65 + n)
  else if n < 52 then Char.ofNat (71 + n)
  else if n < 62 then Char.ofNat (n - 4)
  else if n = 62 then '-'
  else '_'

/-- Both spellings of the last two digits are read. -/
def value (c : Char) : Option ℕ :=
  if 'A' ≤ c ∧ c ≤ 'Z' then some (c.toNat - 65)
  else if 'a' ≤ c ∧ c ≤ 'z' then some (c.toNat - 71)
  else if '0' ≤ c ∧ c ≤ '9' then some (c.toNat + 4)
  else if c = '-' ∨ c = '+' then some 62
  else if c = '_' ∨ c = '/' then some 63
  else none

def encode : List UInt8 → List Char
  | [] => []
  | [a] => [digit (a.toNat / 4), digit (a.toNat % 4 * 16)]
  | [a, b] =>
    [digit (a.toNat / 4), digit (a.toNat % 4 * 16 + b.toNat / 16), digit (b.toNat % 16 * 4)]
  | a :: b :: c :: rest =>
    digit (a.toNat / 4) :: digit (a.toNat % 4 * 16 + b.toNat / 16) ::
      digit (b.toNat % 16 * 4 + c.toNat / 64) :: digit (c.toNat % 64) :: encode rest

/-- `quad` digits of the current group have been read, `left` holds the bits not
yet written, `pads` the padding seen since. -/
def decodeFrom (quad left pads : ℕ) : List Char → Option (List UInt8)
  | [] => if quad = 0 then some [] else none
  | c :: cs =>
    if c = '=' then
      if 2 ≤ quad ∧ 4 ≤ quad + (pads + 1) then some []
      else decodeFrom quad left (if 2 ≤ quad then pads + 1 else pads) cs
    else
      match value c with
      | none => decodeFrom quad left pads cs
      | some v =>
        if quad = 0 then decodeFrom 1 v 0 cs
        else if quad = 1 then (decodeFrom 2 (v % 16) 0 cs).map (UInt8.ofNat (left * 4 + v / 16) :: ·)
        else if quad = 2 then (decodeFrom 3 (v % 4) 0 cs).map (UInt8.ofNat (left * 16 + v / 4) :: ·)
        else (decodeFrom 0 0 0 cs).map (UInt8.ofNat (left * 64 + v) :: ·)

section
-- the equations are generated here, not in each proof that needs them
attribute [local simp] encode decodeFrom
end

def padding (length : ℕ) : List Char := List.replicate ((4 - length % 4) % 4) '='

def decodeAscii (text : List Char) : Option (List UInt8) :=
  decodeFrom 0 0 0 (text ++ padding text.length)

/-- A text outside ASCII is refused before any digit is read. -/
def decode (text : List Char) : Option (List UInt8) :=
  if text.all (·.toNat < 128) then decodeAscii text else none

theorem value_digit {n : ℕ} (small : n < 64) : value (digit n) = some n := by
  have all : ∀ n : Fin 64, value (digit n) = some n.val := by decide
  exact all ⟨n, small⟩

theorem exists_digit (n : ℕ) : ∃ m : Fin 64, digit n = digit m := by
  by_cases small : n < 64
  · exact ⟨⟨n, small⟩, rfl⟩
  · refine ⟨63, ?_⟩
    unfold digit
    split_ifs <;> first | omega | rfl

theorem digit_ne_pad (n : ℕ) : digit n ≠ '=' := by
  have all : ∀ m : Fin 64, digit m ≠ '=' := by decide
  obtain ⟨m, same⟩ := exists_digit n
  exact same ▸ all m

section Digits
variable {n : ℕ} (small : n < 64) (left pads : ℕ) (cs : List Char)
include small

theorem decodeFrom_first : decodeFrom 0 left pads (digit n :: cs) = decodeFrom 1 n 0 cs := by
  rw [decodeFrom, if_neg (digit_ne_pad n), value_digit small]
  rfl

theorem decodeFrom_second : decodeFrom 1 left pads (digit n :: cs) =
    (decodeFrom 2 (n % 16) 0 cs).map (UInt8.ofNat (left * 4 + n / 16) :: ·) := by
  rw [decodeFrom, if_neg (digit_ne_pad n), value_digit small]
  rfl

theorem decodeFrom_third : decodeFrom 2 left pads (digit n :: cs) =
    (decodeFrom 3 (n % 4) 0 cs).map (UInt8.ofNat (left * 16 + n / 4) :: ·) := by
  rw [decodeFrom, if_neg (digit_ne_pad n), value_digit small]
  rfl

theorem decodeFrom_fourth : decodeFrom 3 left pads (digit n :: cs) =
    (decodeFrom 0 0 0 cs).map (UInt8.ofNat (left * 64 + n) :: ·) := by
  rw [decodeFrom, if_neg (digit_ne_pad n), value_digit small]
  rfl

end Digits

theorem ofNat_of_eq_toNat {n : ℕ} (a : UInt8) (same : n = a.toNat) : UInt8.ofNat n = a := by
  rw [same, UInt8.ofNat_toNat]

theorem decodeAscii_encode (bytes : List UInt8) : decodeAscii (encode bytes) = some bytes := by
  induction bytes using encode.induct with
  | case1 => rfl
  | case2 a =>
    have small := a.toNat_lt
    have last : decodeFrom 2 (a.toNat % 4 * 16 % 16) 0 (padding 2) = some [] := by
      rw [Nat.mul_mod_left]
      decide
    rw [decodeAscii, encode, cons_append, cons_append, nil_append,
      decodeFrom_first (by omega), decodeFrom_second (by omega)]
    simp only [length_cons, length_nil]
    rw [last, map_some, ofNat_of_eq_toNat a (by omega)]
  | case3 a b =>
    have smallA := a.toNat_lt
    have smallB := b.toNat_lt
    have last : decodeFrom 3 (b.toNat % 16 * 4 % 4) 0 (padding 3) = some [] := by
      rw [Nat.mul_mod_left]
      decide
    rw [decodeAscii, encode, cons_append, cons_append, cons_append, nil_append,
      decodeFrom_first (by omega), decodeFrom_second (by omega), decodeFrom_third (by omega)]
    simp only [length_cons, length_nil]
    rw [last, map_some, map_some, ofNat_of_eq_toNat a (by omega), ofNat_of_eq_toNat b (by omega)]
  | case4 a b c rest ih =>
    have smallA := a.toNat_lt
    have smallB := b.toNat_lt
    have smallC := c.toNat_lt
    have tail : decodeFrom 0 0 0 (encode rest ++ padding ((encode rest).length + 1 + 1 + 1 + 1)) =
        some rest := by
      rw [← ih, padding, show (encode rest).length + 1 + 1 + 1 + 1 =
        (encode rest).length + 4 from rfl, Nat.add_mod_right]
      rfl
    rw [decodeAscii, encode, cons_append, cons_append, cons_append, cons_append,
      decodeFrom_first (by omega), decodeFrom_second (by omega), decodeFrom_third (by omega),
      decodeFrom_fourth (by omega)]
    simp only [length_cons]
    rw [tail, map_some, map_some, map_some, ofNat_of_eq_toNat a (by omega),
      ofNat_of_eq_toNat b (by omega), ofNat_of_eq_toNat c (by omega)]

theorem mem_encode {c : Char} {bytes : List UInt8} (mem : c ∈ encode bytes) :
    ∃ m : Fin 64, c = digit m := by
  induction bytes using encode.induct with
  | case1 => simp [encode] at mem
  | case2 a =>
    simp only [encode, mem_cons, not_mem_nil, or_false] at mem
    rcases mem with rfl | rfl <;> exact exists_digit _
  | case3 a b =>
    simp only [encode, mem_cons, not_mem_nil, or_false] at mem
    rcases mem with rfl | rfl | rfl <;> exact exists_digit _
  | case4 _ _ _ _ ih =>
    simp only [encode, mem_cons] at mem
    rcases mem with rfl | rfl | rfl | rfl | later
    · exact exists_digit _
    · exact exists_digit _
    · exact exists_digit _
    · exact exists_digit _
    · exact ih later

theorem forall_mem_encode {P : Char → Prop} (digits : ∀ m : Fin 64, P (digit m))
    {c : Char} {bytes : List UInt8} (mem : c ∈ encode bytes) : P c := by
  obtain ⟨m, rfl⟩ := mem_encode mem
  exact digits m

theorem decode_encode (bytes : List UInt8) : decode (encode bytes) = some bytes := by
  have ascii : (encode bytes).all (·.toNat < 128) = true := by
    rw [List.all_eq_true]
    intro c mem
    exact forall_mem_encode (P := fun c => decide (c.toNat < 128) = true) (by decide) mem
  rw [decode, if_pos ascii, decodeAscii_encode]

end Infera.Base64
