import Infera.Json

/-! Percent encoding as `urllib.parse.quote(s, safe="")` and `unquote` do it: a
text is encoded in UTF-8 and every byte outside the unreserved characters is
written as a percent sign and two hexadecimal digits. Quoting is undone by
unquoting, so quoted names are distinct when the texts are, and a pattern of
unreserved characters occurs in a quoted text only where it occurs in the text. -/

namespace Infera.UrlQuote
open List

def unreserved (c : Char) : Bool :=
  c.isAlphanum || c == '_' || c == '.' || c == '-' || c == '~'

def hexUpper (d : ℕ) : Char := if d < 10 then Char.ofNat (48 + d) else Char.ofNat (55 + d)

def quoteByte (b : UInt8) : List Char := ['%', hexUpper (b.toNat / 16), hexUpper (b.toNat % 16)]

def quoteChar (c : Char) : List Char :=
  if unreserved c then [c] else (String.utf8EncodeChar c).flatMap quoteByte

variable (s : List Char)

def quote : List Char := s.flatMap quoteChar

def hexByte (a b : Char) : Option UInt8 := do
  let high ← JsonText.hexVal a
  let low ← JsonText.hexVal b
  return UInt8.ofNat (high * 16 + low)

/-- A percent sign without two hexadecimal digits after it stands for itself. -/
def unquoteBytes : List Char → List UInt8
  | '%' :: a :: b :: rest =>
    match hexByte a b with
    | some byte => byte :: unquoteBytes rest
    | none => 37 :: unquoteBytes (a :: b :: rest)
  | c :: rest => String.utf8EncodeChar c ++ unquoteBytes rest
  | [] => []

/-- `none` where the bytes are not UTF-8. -/
def unquote : Option (List Char) :=
  (unquoteBytes s).toByteArray.utf8Decode?.map Array.toList

theorem hexVal_hexUpper {d : ℕ} (small : d < 16) : JsonText.hexVal (hexUpper d) = some d := by
  have all : ∀ d : Fin 16, JsonText.hexVal (hexUpper d) = some d.val := by decide
  exact all ⟨d, small⟩

theorem hexByte_quoteByte (b : UInt8) :
    hexByte (hexUpper (b.toNat / 16)) (hexUpper (b.toNat % 16)) = some b := by
  have small := b.toNat_lt
  rw [hexByte, hexVal_hexUpper (by omega), hexVal_hexUpper (by omega)]
  show some (UInt8.ofNat (b.toNat / 16 * 16 + b.toNat % 16)) = some b
  rw [Nat.div_add_mod', UInt8.ofNat_toNat]

theorem unquoteBytes_quoteByte (b : UInt8) (rest : List Char) :
    unquoteBytes (quoteByte b ++ rest) = b :: unquoteBytes rest := by
  simp [quoteByte, unquoteBytes, hexByte_quoteByte]

theorem unquoteBytes_quoteBytes (bytes : List UInt8) (rest : List Char) :
    unquoteBytes (bytes.flatMap quoteByte ++ rest) = bytes ++ unquoteBytes rest := by
  induction bytes with
  | nil => rfl
  | cons b bytes ih =>
    rw [flatMap_cons, append_assoc, unquoteBytes_quoteByte, ih, cons_append]

theorem unquoteBytes_literal {c : Char} (literal : c ≠ '%') (rest : List Char) :
    unquoteBytes (c :: rest) = String.utf8EncodeChar c ++ unquoteBytes rest := by
  rw [unquoteBytes]
  intro a b tail percent
  exact absurd percent literal

theorem quote_cons (c : Char) (s : List Char) : quote (c :: s) = quoteChar c ++ quote s :=
  flatMap_cons

theorem unquoteBytes_quote : unquoteBytes (quote s) = s.flatMap String.utf8EncodeChar := by
  induction s with
  | nil => rfl
  | cons c s ih =>
    rw [quote_cons, flatMap_cons, quoteChar]
    split_ifs with plain
    · have literal : c ≠ '%' := by
        rintro rfl
        exact absurd plain (by decide)
      rw [singleton_append, unquoteBytes_literal literal, ih]
    · rw [unquoteBytes_quoteBytes, ih]

theorem unquote_quote : unquote (quote s) = some s := by
  have decoded := List.utf8Decode?_utf8Encode (l := s)
  rw [unquote, unquoteBytes_quote]
  unfold List.utf8Encode at decoded
  rw [decoded]
  rfl

theorem quote_injective {s t : List Char} (same : quote s = quote t) : s = t := by
  have both := congrArg unquote same
  rw [unquote_quote, unquote_quote] at both
  exact Option.some.inj both

theorem quote_of_unreserved {s : List Char} (plain : ∀ c ∈ s, unreserved c = true) :
    quote s = s := by
  induction s with
  | nil => rfl
  | cons c s ih =>
    rw [quote_cons, ih fun c' mem => plain c' (.tail _ mem),
      quoteChar, if_pos (plain c mem_cons_self), singleton_append]

theorem quote_append (s t : List Char) : quote (s ++ t) = quote s ++ quote t := flatMap_append

def escapeChars : List Char := "%0123456789ABCDEF".toList

theorem mem_quoteByte {b : UInt8} {c : Char} (mem : c ∈ quoteByte b) : c ∈ escapeChars := by
  have digit : ∀ d : Fin 16, hexUpper d ∈ escapeChars := by decide
  have small := b.toNat_lt
  simp only [quoteByte, mem_cons, not_mem_nil, or_false] at mem
  rcases mem with rfl | rfl | rfl
  · decide
  · exact digit ⟨b.toNat / 16, by omega⟩
  · exact digit ⟨b.toNat % 16, by omega⟩

theorem infix_of_infix_append {α : Type*} {a : α} {p block rest : List α} (apart : a ∉ block)
    (occurs : a :: p <:+: block ++ rest) : a :: p <:+: rest := by
  induction block with
  | nil => exact occurs
  | cons c block ih =>
    rw [cons_append, infix_cons_iff] at occurs
    rw [mem_cons, not_or] at apart
    rcases occurs with first | later
    · exact absurd (cons_prefix_cons.1 first).1 apart.1
    · exact ih apart.2 later

section
variable {α : Type*} {x : α} {p a b : List α} (apart : x ∉ p)
include apart

theorem prefix_of_prefix_append_cons (starts : p <+: a ++ x :: b) : p <+: a := by
  rcases prefix_or_prefix_of_prefix starts (prefix_append a _) with inside | ⟨t, rfl⟩
  · exact inside
  · rw [prefix_append_right_inj] at starts
    cases t with
    | nil => exact ⟨[], by simp⟩
    | cons y t => exact absurd ((cons_prefix_cons.1 starts).1 ▸ by simp) apart

theorem infix_append_cons (occurs : p <:+: a ++ x :: b) : p <:+: a ∨ p <:+: b := by
  induction a with
  | nil =>
    rw [nil_append, infix_cons_iff] at occurs
    rcases occurs with first | later
    · exact .inl (prefix_of_prefix_append_cons (a := []) apart first).isInfix
    · exact .inr later
  | cons c a ih =>
    rw [cons_append, infix_cons_iff] at occurs
    rcases occurs with first | later
    · exact .inl (prefix_of_prefix_append_cons (a := c :: a) apart first).isInfix
    · exact (ih later).imp_left fun inside => inside.trans (suffix_cons c a).isInfix

end

section Pattern

variable {p : List Char} (apart : ∀ c ∈ escapeChars, c ∉ p)

include apart

theorem not_mem_of_mem_escapes {c e : Char}
    (mem : e ∈ (String.utf8EncodeChar c).flatMap quoteByte) : e ∉ p := by
  obtain ⟨b, -, written⟩ := mem_flatMap.1 mem
  exact apart e (mem_quoteByte written)

theorem prefix_of_prefix_quote {s : List Char} (starts : p <+: quote s) : p <+: s := by
  induction s generalizing p with
  | nil => exact starts
  | cons c s ih =>
    cases p with
    | nil => exact nil_prefix
    | cons a p =>
      rw [quote_cons, quoteChar] at starts
      split_ifs at starts with plain
      · rw [singleton_append, cons_prefix_cons] at starts
        rw [cons_prefix_cons]
        exact ⟨starts.1, ih (fun e mem used => apart e mem (.tail _ used)) starts.2⟩
      · -- the escape of `c` starts with a character the pattern does not have
        obtain ⟨b, bytes, encoded⟩ := exists_cons_of_ne_nil
          (ne_nil_of_length_pos (String.length_utf8EncodeChar c ▸ Char.utf8Size_pos c))
        rw [encoded] at starts
        have head : a = '%' := (cons_prefix_cons.1 starts).1
        exact absurd (head ▸ mem_cons_self) (apart '%' (by decide))

theorem infix_of_infix_quote {s : List Char} (occurs : p <:+: quote s) : p <:+: s := by
  induction s with
  | nil => exact occurs
  | cons c s ih =>
    by_cases plain : unreserved c = true
    · rw [quote_cons, quoteChar, if_pos plain, singleton_append, infix_cons_iff] at occurs
      rcases occurs with first | later
      · have quoted : quote (c :: s) = c :: quote s := by
          rw [quote_cons, quoteChar, if_pos plain, singleton_append]
        exact (prefix_of_prefix_quote apart (quoted ▸ first)).isInfix
      · exact (ih later).trans (suffix_cons c s).isInfix
    · rw [quote_cons, quoteChar, if_neg plain] at occurs
      cases p with
      | nil => exact nil_infix
      | cons a p =>
        have outside : a ∉ (String.utf8EncodeChar c).flatMap quoteByte := fun mem =>
          not_mem_of_mem_escapes apart mem mem_cons_self
        exact (ih (infix_of_infix_append outside occurs)).trans (suffix_cons c s).isInfix

end Pattern

end Infera.UrlQuote
