import Infera.Json

/-! The two laws of `Infera.Json`. Leaves first: numbers and string literals keep
their reading when text follows them (`lexNumber_append`, `parseString_append`)
and read back what was written. Then the recursive parser: `parse_append` by
induction on the fuel, `parse_dumps` by induction on the value. -/

namespace Infera
open List Option
namespace JsonText

/-- The text does not begin with a character that `bad` holds of. -/
def Clear (bad : Char → Prop) (cs : List Char) : Prop := ∀ c, cs.head? = some c → ¬bad c

theorem Clear.imp {bad bad' : Char → Prop} {cs : List Char} (clear : Clear bad cs)
    (imp : ∀ c, bad' c → bad c) : Clear bad' cs :=
  fun c first isBad => clear c first (imp c isBad)

theorem clear_nil {bad : Char → Prop} : Clear bad [] := fun c first => by simp at first

theorem clear_cons {bad : Char → Prop} {c : Char} (cs : List Char) (good : ¬bad c) :
    Clear bad (c :: cs) := by
  intro d first
  simp only [head?_cons, some.injEq] at first
  exact first ▸ good

def NumberChar (c : Char) : Prop := c.isDigit = true ∨ c = '.' ∨ c = 'e' ∨ c = 'E'

theorem digits_append (p q : List Char)
    (clear : Clear (fun c => c.isDigit = true) (p.dropWhile Char.isDigit ++ q)) :
    (p ++ q).takeWhile Char.isDigit = p.takeWhile Char.isDigit ∧
      (p ++ q).dropWhile Char.isDigit = p.dropWhile Char.isDigit ++ q := by
  induction p with
  | nil =>
    cases q with
    | nil => simp
    | cons c q =>
      have stop : c.isDigit = false := by simpa using clear c rfl
      simp [stop]
  | cons c p ih =>
    cases digit : c.isDigit with
    | false => simp [digit]
    | true =>
      have rest := ih (by simpa [digit] using clear)
      simp [digit, rest]

variable (q rest : List Char)

theorem lexNat_append {p t r : List Char} (found : lexNat p = some (t, r))
    (clear : Clear (fun c => c.isDigit = true) (r ++ q)) : lexNat (p ++ q) = some (t, r ++ q) := by
  cases p with
  | nil => simp [lexNat] at found
  | cons c cs =>
    simp only [lexNat, cons_append] at found ⊢
    split_ifs at found ⊢ with zero digit
    · cases found
      simp
    · cases found
      have more := digits_append cs q clear
      simp [more]

theorem lexInt_append {p t r : List Char} (found : lexInt p = some (t, r))
    (clear : Clear (fun c => c.isDigit = true) (r ++ q)) : lexInt (p ++ q) = some (t, r ++ q) := by
  cases p with
  | nil => simp [lexInt] at found
  | cons c cs =>
    simp only [lexInt, cons_append] at found ⊢
    split_ifs at found ⊢ with minus
    · obtain ⟨⟨t', r'⟩, body, ⟨⟩⟩ := map_eq_some_iff.mp found
      simp [lexNat_append q body clear]
    · exact lexNat_append q found clear

theorem lexFrac_append (r q : List Char)
    (clear : Clear (fun c => c.isDigit = true ∨ c = '.') ((lexFrac r).2 ++ q)) :
    lexFrac (r ++ q) = ((lexFrac r).1, (lexFrac r).2 ++ q) ∧
      Clear (fun c => c.isDigit = true) (r ++ q) := by
  cases r with
  | nil =>
    refine ⟨?_, clear.imp fun c => .inl⟩
    cases q with
    | nil => rfl
    | cons c q =>
      have stop := clear c rfl
      simp only [not_or] at stop
      simp [lexFrac, stop.2]
  | cons c cs =>
    by_cases taken : c = '.' ∧ cs.takeWhile Char.isDigit ≠ []
    · simp only [lexFrac, if_pos taken] at clear ⊢
      have more := digits_append cs q (clear.imp fun c => .inl)
      refine ⟨?_, clear_cons _ ?_⟩
      · simp [taken.1, taken.2, more]
      · rw [taken.1]
        decide
    · simp only [lexFrac, if_neg taken] at clear ⊢
      have stop := clear c rfl
      simp only [not_or] at stop
      refine ⟨?_, clear.imp fun c => .inl⟩
      simp [stop.2]

theorem splitSign_append {cs : List Char} (body : (splitSign cs).2.takeWhile Char.isDigit ≠ []) :
    splitSign (cs ++ q) = ((splitSign cs).1, (splitSign cs).2 ++ q) := by
  cases cs with
  | nil => simp [splitSign] at body
  | cons c cs =>
    by_cases sign : c = '+' ∨ c = '-' <;> simp [splitSign, sign]

theorem lexExp_append (r q : List Char) (clear : Clear NumberChar ((lexExp r).2 ++ q)) :
    lexExp (r ++ q) = ((lexExp r).1, (lexExp r).2 ++ q) ∧
      Clear (fun c => c.isDigit = true ∨ c = '.') (r ++ q) := by
  have weaker : ∀ c, c.isDigit = true ∨ c = '.' → NumberChar c := fun c bad => by
    unfold NumberChar; tauto
  cases r with
  | nil =>
    refine ⟨?_, clear.imp weaker⟩
    cases q with
    | nil => rfl
    | cons c q =>
      have stop := clear c rfl
      simp only [NumberChar, not_or] at stop
      simp [lexExp, stop.2.2]
  | cons c cs =>
    by_cases taken : (c = 'e' ∨ c = 'E') ∧ (splitSign cs).2.takeWhile Char.isDigit ≠ []
    · simp only [lexExp, if_pos taken] at clear ⊢
      have sign := splitSign_append q taken.2
      have more := digits_append (splitSign cs).2 q (clear.imp fun c => .inl)
      refine ⟨?_, clear_cons _ ?_⟩
      · simp [sign, more, taken]
      · rcases taken.1 with rfl | rfl <;> decide
    · simp only [lexExp, if_neg taken] at clear ⊢
      have stop := clear c rfl
      simp only [NumberChar, not_or] at stop
      refine ⟨?_, clear_cons _ ?_⟩
      · simp [stop.2.2]
      · simp [stop.1, stop.2.1]

theorem lexNumber_append {p w f r : List Char}
    (found : lexNumber p = some (w, f, r)) (clear : Clear NumberChar (r ++ q)) :
    lexNumber (p ++ q) = some (w, f, r ++ q) := by
  obtain ⟨⟨t, rest⟩, whole, ⟨⟩⟩ := map_eq_some_iff.mp found
  have exp := lexExp_append (lexFrac rest).2 q clear
  have frac := lexFrac_append rest q exp.2
  simp [lexNumber, lexInt_append q whole frac.2, frac.1, exp.1]

theorem lexNumber_head {cs w f r : List Char} (found : lexNumber cs = some (w, f, r)) :
    ∃ c rest, cs = c :: rest ∧ (c = '-' ∨ c.isDigit = true) := by
  obtain ⟨⟨t, rest⟩, whole, -⟩ := map_eq_some_iff.mp found
  cases cs with
  | nil => simp [lexInt] at whole
  | cons c cs =>
    refine ⟨c, cs, rfl, ?_⟩
    simp only [lexInt, lexNat] at whole
    split_ifs at whole with minus zero digit
    · exact .inl minus
    · exact .inr (by rw [zero]; decide)
    · exact .inr digit

theorem toDigits_head_ne_zero (n : ℕ) (positive : 0 < n) :
    ∃ c cs, Nat.toDigits 10 n = c :: cs ∧ c ≠ '0' := by
  induction n using Nat.strongRecOn with
  | ind n ih =>
    by_cases small : n < 10
    · refine ⟨n.digitChar, [], Nat.toDigits_of_lt_base small, ?_⟩
      interval_cases n <;> decide
    · obtain ⟨c, cs, digits, nonzero⟩ := ih (n / 10) (by omega) (by omega)
      refine ⟨c, cs ++ [(n % 10).digitChar], ?_, nonzero⟩
      rw [Nat.toDigits_of_base_le (by omega) (by omega), digits, cons_append]

theorem lexNat_toDigits (n : ℕ) : lexNat (Nat.toDigits 10 n) = some (Nat.toDigits 10 n, []) := by
  rcases Nat.eq_zero_or_pos n with rfl | positive
  · decide
  · obtain ⟨c, cs, digits, nonzero⟩ := toDigits_head_ne_zero n positive
    have allDigits : ∀ d ∈ c :: cs, d.isDigit = true := fun d mem =>
      Nat.isDigit_of_mem_toDigits (by omega) (by omega) (digits ▸ mem)
    have first := allDigits c mem_cons_self
    have rest := fun d mem => allDigits d (mem_cons_of_mem c mem)
    simp [digits, lexNat, nonzero, first, takeWhile_eq_self_iff.mpr rest,
      dropWhile_eq_nil_iff.mpr rest]

theorem toDigits_head (n : ℕ) : ∃ c cs, Nat.toDigits 10 n = c :: cs ∧ c ≠ '-' := by
  cases digits : Nat.toDigits 10 n with
  | nil => exact absurd digits Nat.toDigits_ne_nil
  | cons c cs =>
    have digit : c.isDigit = true :=
      Nat.isDigit_of_mem_toDigits (by omega) (by omega) (digits ▸ mem_cons_self)
    refine ⟨c, cs, rfl, ?_⟩
    rintro rfl
    exact absurd digit (by decide)

theorem lexNumber_intText (n : Int) : lexNumber (intText n) = some (intText n, [], []) := by
  have whole : lexInt (intText n) = some (intText n, []) := by
    unfold intText
    split_ifs with negative
    · simp [lexInt, lexNat_toDigits]
    · obtain ⟨c, cs, digits, unsigned⟩ := toDigits_head n.natAbs
      have read := lexNat_toDigits n.natAbs
      rw [digits] at read ⊢
      simp [lexInt, if_neg unsigned, read]
  simp [lexNumber, whole, lexFrac, lexExp]

theorem intOf_intText (n : Int) : intOf (intText n) = n := by
  unfold intText
  split_ifs with negative
  · simp only [intOf, if_true, Nat.ofDigitChars_ten_toDigits]
    omega
  · obtain ⟨c, cs, digits, unsigned⟩ := toDigits_head n.natAbs
    have value := @Nat.ofDigitChars_ten_toDigits n.natAbs
    rw [digits] at value ⊢
    simp only [intOf, if_neg unsigned]
    omega

theorem parseString_simple {c plain : Char} (esc : simpleEscape c = some plain) :
    parseString ('\\' :: c :: rest) =
      (parseString rest).map fun found => (plain :: found.1, found.2) := by
  rw [parseString]
  · cases parseString rest <;> simp [esc]
  · rintro a b c' d tail rfl -
    simp [simpleEscape] at esc

theorem parseString_char {c : Char} (quote : c ≠ '"') (slash : c ≠ '\\')
    (printable : 32 ≤ c.toNat) :
    parseString (c :: rest) = (parseString rest).map fun found => (c :: found.1, found.2) := by
  rw [parseString]
  · cases parseString rest <;> simp [slash, printable]
  · exact quote
  · exact fun a b c' d tail isSlash _ => slash isSlash
  · exact fun c' tail isSlash _ => slash isSlash

theorem parseString_basic {a b c d : Char} {code : ℕ}
    (hex : unhex4 a b c d = some code) (basic : code < 55296 ∨ 57344 ≤ code) :
    parseString ('\\' :: 'u' :: a :: b :: c :: d :: rest) =
      (parseString rest).map fun found => (Char.ofNat code :: found.1, found.2) := by
  cases more : parseString rest <;> simp [parseString, hex, basic, more]

theorem parseString_pair {a b c d e f g h : Char} {code low : ℕ}
    (hex : unhex4 a b c d = some code) (hexLow : unhex4 e f g h = some low)
    (high : 55296 ≤ code ∧ code < 56320) (lowRange : 56320 ≤ low ∧ low < 57344) :
    parseString ('\\' :: 'u' :: a :: b :: c :: d :: '\\' :: 'u' :: e :: f :: g :: h :: rest) =
      (parseString rest).map fun found =>
        (Char.ofNat (65536 + (code - 55296) * 1024 + (low - 56320)) :: found.1, found.2) := by
  have surrogate : ¬(code < 55296 ∨ 57344 ≤ code) := by omega
  cases more : parseString rest <;>
    simp [parseString, hex, hexLow, surrogate, high.2, lowRange, more]

theorem parseString_append {p s r : List Char}
    (found : parseString p = some (s, r)) : parseString (p ++ q) = some (s, r ++ q) := by
  induction p using parseString.induct generalizing s r with
  | case1 => simp [parseString] at found
  | case2 rest =>
    cases found
    simp [parseString]
  | case3 a b c d rest ih₁ ih₂ =>
    rw [parseString] at found
    obtain ⟨code, hex, found⟩ := bind_eq_some_iff.mp found
    split_ifs at found with basic
    · obtain ⟨⟨s', r'⟩, tail, ⟨⟩⟩ := bind_eq_some_iff.mp found
      simp [parseString_basic _ hex basic, ih₁ tail]
    · split at found
      · rename_i e f g h rest'
        obtain ⟨low, hexLow, found⟩ := bind_eq_some_iff.mp found
        split_ifs at found with range
        obtain ⟨⟨s', r'⟩, tail, ⟨⟩⟩ := bind_eq_some_iff.mp found
        simp [parseString_pair _ hex hexLow (by omega) range.2, ih₂ tail]
      · simp at found
  | case4 _ _ notU ih =>
    rw [parseString] at found
    · obtain ⟨plain, esc, found⟩ := bind_eq_some_iff.mp found
      obtain ⟨⟨s', r'⟩, tail, ⟨⟩⟩ := bind_eq_some_iff.mp found
      simp [parseString_simple _ esc, ih tail]
    · exact notU
  | case5 _ _ quote _ _ plain ih =>
    rw [parseString_char _ quote plain.2 plain.1] at found
    obtain ⟨⟨s', r'⟩, tail, ⟨⟩⟩ := map_eq_some_iff.mp found
    simp [parseString_char _ quote plain.2 plain.1, ih tail]
  | case6 _ _ quote notEsc notEsc' bad =>
    rw [parseString] at found
    · simp [bad] at found
    · exact quote
    · exact notEsc
    · exact notEsc'

theorem hexVal_hexDigit {d : ℕ} (small : d < 16) : hexVal (hexDigit d) = some d := by
  interval_cases d <;> decide

theorem unhex4_hex4 {n : ℕ} (small : n < 65536) :
    unhex4 (hexDigit (n / 4096 % 16)) (hexDigit (n / 256 % 16)) (hexDigit (n / 16 % 16))
      (hexDigit (n % 16)) = some n := by
  have digits := fun m => hexVal_hexDigit (Nat.mod_lt m (by omega : 0 < 16))
  simp only [unhex4, digits, Option.bind_eq_bind, Option.bind_some, Option.pure_def, some.injEq]
  omega

theorem parseString_escapeChar (c : Char) (rest : List Char) : parseString (escapeChar c ++ rest) =
      (parseString rest).map fun found => (c :: found.1, found.2) := by
  have valid := c.valid
  change c.toNat < 55296 ∨ 57343 < c.toNat ∧ c.toNat < 1114112 at valid
  have code : Char.ofNat c.toNat = c := Char.ofNat_toNat c
  unfold escapeChar
  split_ifs with quote slash newline ret tab feed back printable basic
  · exact parseString_simple rest (by subst quote; decide)
  · exact parseString_simple rest (by subst slash; decide)
  · exact parseString_simple rest (by subst newline; decide)
  · exact parseString_simple rest (by subst ret; decide)
  · exact parseString_simple rest (by subst tab; decide)
  · exact parseString_simple rest (by rw [← code, feed]; decide)
  · exact parseString_simple rest (by rw [← code, back]; decide)
  · exact parseString_char rest quote slash printable.1
  · have read := parseString_basic rest (unhex4_hex4 basic) (by omega)
    rwa [code] at read
  · have read := parseString_pair rest
      (unhex4_hex4 (n := 55296 + (c.toNat - 65536) / 1024) (by omega))
      (unhex4_hex4 (n := 56320 + (c.toNat - 65536) % 1024) (by omega)) (by omega) (by omega)
    have whole : 65536 + (55296 + (c.toNat - 65536) / 1024 - 55296) * 1024 +
        (56320 + (c.toNat - 65536) % 1024 - 56320) = c.toNat := by omega
    rw [whole, code] at read
    simpa [hex4] using read

theorem parseString_escape (s rest : List Char) :
    parseString (escape s ++ '"' :: rest) = some (s, rest) := by
  induction s with
  | nil => simp [escape, parseString]
  | cons c s ih =>
    have split : escape (c :: s) = escapeChar c ++ escape s := flatMap_cons
    rw [split, append_assoc, parseString_escapeChar, ih, map_some]

end JsonText

namespace Json
open JsonText
variable {c : Char} {x : Json} {cs p r rest : List Char} {n : ℕ}

variable (q : List Char) {fields : List (String × Json)}

theorem skip_append (some : skip cs ≠ []) : skip (cs ++ q) = skip cs ++ q := by
  unfold skip at some ⊢
  simp [dropWhile_append, some]

theorem skip_append_cons (first : skip cs = c :: rest) : skip (cs ++ q) = c :: (rest ++ q) := by
  rw [skip_append q (by simp [first]), first, cons_append]

theorem not_numberChar_of_isBlank (blank : isBlank c = true) : ¬NumberChar c := by
  simp only [isBlank, Bool.or_eq_true, decide_eq_true_eq] at blank
  rcases blank with ((rfl | rfl) | rfl) | rfl <;> simp [NumberChar]

theorem clear_of_skip
    (first : skip cs = c :: rest) (other : ¬NumberChar c) : Clear NumberChar (cs ++ q) := by
  cases cs with
  | nil => simp [skip] at first
  | cons d cs =>
    refine clear_cons _ ?_
    by_cases blank : isBlank d = true
    · exact not_numberChar_of_isBlank blank
    · rw [skip, dropWhile_cons_of_neg blank, cons.injEq] at first
      exact first.1 ▸ other

def isNumber : Json → Bool
  | .int _ => true
  | .float _ => true
  | _ => false

section
variable (found : parseNumber p = some (x, r))
include found

theorem parseNumber_append (clear : Clear NumberChar (r ++ q)) :
    parseNumber (p ++ q) = some (x, r ++ q) := by
  unfold parseNumber at found ⊢
  cases lexed : lexNumber p with
  | none => simp [lexed] at found
  | some parts =>
    simp only [lexed] at found
    split_ifs at found with frac lexes
    · cases found
      simp [lexNumber_append q lexed clear, frac]
    · cases found
      simp [lexNumber_append q lexed clear, frac, lexes]

theorem parseNumber_isNumber : x.isNumber = true := by
  unfold parseNumber at found
  cases lexed : lexNumber p with
  | none => simp [lexed] at found
  | some parts =>
    simp only [lexed] at found
    split_ifs at found <;> cases found <;> rfl

theorem parseNumber_head :
    ∃ c rest, p = c :: rest ∧ (c = '-' ∨ c.isDigit = true) := by
  unfold parseNumber at found
  cases lexed : lexNumber p with
  | none => simp [lexed] at found
  | some parts => exact lexNumber_head lexed

end

theorem parseValue_number (n : ℕ) (cs : List Char) (first : c = '-' ∨ c.isDigit = true) :
    parseValue (n + 1) (c :: cs) = parseNumber (c :: cs) := by
  have other : ∀ d : Char, d.isDigit = false → d ≠ '-' → c ≠ d := by
    rintro d notDigit notMinus rfl
    rcases first with minus | digit
    · exact notMinus minus
    · simp [notDigit] at digit
  rw [parseValue]
  all_goals simp_all

theorem parseValue_nil (n : ℕ) : parseValue n [] = none := by
  cases n <;> rfl

theorem parseElements_ne_nil {xs out : List Json}
    (found : parseElements n xs cs = some (out, r)) : cs ≠ [] := by
  rintro rfl
  cases n <;> simp [parseElements, parseValue_nil] at found

theorem parseMembers_ne_nil {fs out : List (String × Json)}
    (found : parseMembers n fs cs = some (out, r)) : cs ≠ [] := by
  rintro rfl
  cases n <;> simp [parseMembers] at found

theorem parseValue_members (n : ℕ) (other : ∀ tail, skip rest ≠ '}' :: tail) :
    parseValue (n + 1) ('{' :: rest) =
      (parseMembers n [] (skip rest)).map fun found => (.obj found.1, found.2) := by
  rw [parseValue]
  split
  · exact absurd ‹_› (other _)
  · rfl

theorem parseValue_elements (n : ℕ) (other : ∀ tail, skip rest ≠ ']' :: tail) :
    parseValue (n + 1) ('[' :: rest) =
      (parseElements n [] (skip rest)).map fun found => (.arr found.1, found.2) := by
  rw [parseValue]
  split
  · exact absurd ‹_› (other _)
  · rfl

theorem skip_append_other (some : skip cs ≠ [])
    (other : ∀ tail, skip cs ≠ c :: tail) : ∀ tail, skip (cs ++ q) ≠ c :: tail := by
  intro tail first
  cases text : skip cs with
  | nil => exact some text
  | cons d ds =>
    rw [skip_append_cons q text, cons.injEq] at first
    exact other ds (first.1 ▸ text)

/-- Reading with fuel `n`, and reading with fuel `m` when `q` follows the text. -/
structure Stable (q : List Char) (n m : ℕ) : Prop where
  value : ∀ cs x r, parseValue n cs = some (x, r) →
    (x.isNumber = true → Clear NumberChar (r ++ q)) → parseValue m (cs ++ q) = some (x, r ++ q)
  members : ∀ fs cs out r, parseMembers n fs cs = some (out, r) →
    parseMembers m fs (cs ++ q) = some (out, r ++ q)
  elements : ∀ xs cs out r, parseElements n xs cs = some (out, r) →
    parseElements m xs (cs ++ q) = some (out, r ++ q)

section
variable {q : List Char} {n m : ℕ}

theorem Stable.step (ih : Stable q n m) : Stable q (n + 1) (m + 1) where
  value cs x r found clear := by
    rw [parseValue.eq_def] at found
    simp only at found
    split at found
    · obtain ⟨⟨s, r'⟩, literal, ⟨⟩⟩ := map_eq_some_iff.mp found
      simp [parseValue, parseString_append q literal]
    · split at found
      · rename_i rest close
        cases found
        simp [parseValue, skip_append_cons q close]
      · rename_i text _ other
        obtain ⟨⟨fs, r'⟩, members, ⟨⟩⟩ := map_eq_some_iff.mp found
        have nonempty := parseMembers_ne_nil members
        rw [cons_append, parseValue_members m (skip_append_other q nonempty other),
          skip_append q nonempty, ih.members _ _ _ _ members, map_some]
    · split at found
      · rename_i rest close
        cases found
        simp [parseValue, skip_append_cons q close]
      · rename_i text _ other
        obtain ⟨⟨xs, r'⟩, elements, ⟨⟩⟩ := map_eq_some_iff.mp found
        have nonempty := parseElements_ne_nil elements
        rw [cons_append, parseValue_elements m (skip_append_other q nonempty other),
          skip_append q nonempty, ih.elements _ _ _ _ elements, map_some]
    · cases found
      simp [parseValue]
    · cases found
      simp [parseValue]
    · cases found
      simp [parseValue]
    · obtain ⟨c, rest, rfl, first⟩ := parseNumber_head found
      rw [cons_append, parseValue_number m _ first]
      exact parseNumber_append q found (clear (parseNumber_isNumber found))
  members fs cs out r found := by
    rw [parseMembers.eq_def] at found ⊢
    simp only at found
    split at found
    · rename_i text
      obtain ⟨⟨name, r₁⟩, literal, found⟩ := bind_eq_some_iff.mp found
      split at found
      · rename_i r₂ colon
        obtain ⟨⟨x, r₃⟩, value, found⟩ := bind_eq_some_iff.mp found
        have some : skip r₂ ≠ [] := by
          intro empty
          simp [empty, parseValue_nil] at value
        split at found
        · rename_i r₄ close
          have read := ih.value _ _ _ value fun _ => clear_of_skip q close (by simp [NumberChar])
          cases found
          simp [parseString_append q literal, skip_append_cons q colon, skip_append q some, read,
            skip_append_cons q close]
        · rename_i r₄ comma
          have read := ih.value _ _ _ value fun _ => clear_of_skip q comma (by simp [NumberChar])
          have more := ih.members _ _ _ _ found
          simp [parseString_append q literal, skip_append_cons q colon, skip_append q some, read,
            skip_append_cons q comma, skip_append q (parseMembers_ne_nil found), more]
        · simp at found
      · simp at found
    · simp at found
  elements xs cs out r found := by
    rw [parseElements] at found ⊢
    obtain ⟨⟨x, r'⟩, value, found⟩ := bind_eq_some_iff.mp found
    split at found
    · rename_i rest first
      have read := ih.value _ _ _ value fun _ => clear_of_skip q first (by simp [NumberChar])
      cases found
      simp [read, skip_append_cons q first]
    · rename_i rest first
      have read := ih.value _ _ _ value fun _ => clear_of_skip q first (by simp [NumberChar])
      have more := ih.elements _ _ _ _ found
      simp [read, skip_append_cons q first, skip_append q (parseElements_ne_nil found), more]
    · simp at found

end

/-- What the parser accepted stays accepted with more fuel and with text added,
unless the addition could lengthen a number. -/
theorem parse_append {m : ℕ} (fuel : n ≤ m) : Stable q n m := by
  induction n generalizing m with
  | zero =>
    exact ⟨by simp [parseValue], by simp [parseMembers], by simp [parseElements]⟩
  | succ n ih =>
    obtain ⟨m, rfl⟩ : ∃ m', m = m' + 1 := ⟨m - 1, by omega⟩
    exact (ih (m := m) (by omega)).step

mutual
/-- Values `dumps` writes in full and `loads` can return: no member name twice. -/
def writable : Json → Prop
  | .bytes _ => False
  | .arr xs => writableAll xs
  | .obj fields => (fields.map Prod.fst).Nodup ∧ writableFields fields
  | _ => True

def writableAll : List Json → Prop
  | [] => True
  | x :: xs => x.writable ∧ writableAll xs

def writableFields : List (String × Json) → Prop
  | [] => True
  | (_, x) :: fields => x.writable ∧ writableFields fields
end

mutual
theorem writable_of_encodable : (x : Json) → x.encodable = true → x.distinct = true → x.writable
  | .bytes _ => fun encodable _ => by simp [Json.encodable] at encodable
  | .arr xs => fun encodable distinct => by
    rw [Json.encodable] at encodable
    rw [Json.distinct] at distinct
    exact writableAll_of_encodable xs encodable distinct
  | .obj fields => fun encodable distinct => by
    rw [Json.encodable] at encodable
    rw [Json.distinct, Bool.and_eq_true, decide_eq_true_eq] at distinct
    exact ⟨distinct.1, writableFields_of_encodable fields encodable distinct.2⟩
  | .null | .bool _ | .int _ | .float _ | .str _ => fun _ _ => trivial

theorem writableAll_of_encodable : (xs : List Json) → encodableAll xs = true →
    distinctAll xs = true → writableAll xs
  | [] => fun _ _ => trivial
  | x :: xs => fun encodable distinct => by
    rw [encodableAll, Bool.and_eq_true] at encodable
    rw [distinctAll, Bool.and_eq_true] at distinct
    exact ⟨writable_of_encodable x encodable.1 distinct.1,
      writableAll_of_encodable xs encodable.2 distinct.2⟩

theorem writableFields_of_encodable : (fields : List (String × Json)) →
    encodableFields fields = true → distinctFields fields = true → writableFields fields
  | [] => fun _ _ => trivial
  | (_, x) :: fields => fun encodable distinct => by
    rw [encodableFields, Bool.and_eq_true] at encodable
    rw [distinctFields, Bool.and_eq_true] at distinct
    exact ⟨writable_of_encodable x encodable.1 distinct.1,
      writableFields_of_encodable fields encodable.2 distinct.2⟩
end

theorem parseNumber_int (n : Int) (clear : Clear NumberChar rest) :
    parseNumber (intText n ++ rest) = some (.int n, rest) := by
  have lexed := lexNumber_append rest (lexNumber_intText n) clear
  simp [parseNumber, lexed, intOf_intText]

theorem parseNumber_float (x : JsonFloat) (clear : Clear NumberChar rest) :
    parseNumber (x.whole ++ x.part ++ rest) = some (.float x, rest) := by
  have lexed := lexNumber_append rest x.lexes clear
  simp only [parseNumber, lexed, nil_append, x.fractional, x.lexes, dite_true, dite_false]

theorem parseValue_of_parseNumber (n : ℕ)
    (found : parseNumber cs = some (x, r)) : parseValue (n + 1) cs = some (x, r) := by
  obtain ⟨c, rest, rfl, first⟩ := parseNumber_head found
  rw [parseValue_number n rest first, found]

theorem dumps_head (ok : x.writable) : ∃ c cs, dumps x = c :: cs ∧ isBlank c = false ∧ c ≠ ']' := by
  have number : ∀ (cs r : List Char) (y : Json), parseNumber cs = some (y, r) →
      ∃ c rest, cs = c :: rest ∧ isBlank c = false ∧ c ≠ ']' := by
    intro cs r y found
    obtain ⟨c, rest, rfl, first⟩ := parseNumber_head found
    refine ⟨c, rest, rfl, ?_⟩
    rcases first with rfl | digit
    · decide
    · refine ⟨?_, ?_⟩
      · by_contra blank
        have other := not_numberChar_of_isBlank (Bool.not_eq_false _ ▸ blank)
        exact other (.inl digit)
      · rintro rfl
        exact absurd digit (by decide)
  cases x with
  | null | str => exact ⟨_, _, rfl, by decide, by decide⟩
  | bool b => cases b <;> exact ⟨_, _, rfl, by decide, by decide⟩
  | int n => exact number _ _ _ (by simpa [dumps] using parseNumber_int n clear_nil)
  | float x => exact number _ _ _ (by simpa [dumps] using parseNumber_float x clear_nil)
  | bytes b => exact absurd ok (by simp [writable])
  | arr xs => cases xs <;> exact ⟨_, _, rfl, by decide, by decide⟩
  | obj fs => rcases fs with _ | ⟨⟨k, x⟩, fs⟩ <;> exact ⟨_, _, rfl, by decide, by decide⟩

theorem skip_dumps (ok : x.writable) (rest : List Char) :
    skip (dumps x ++ rest) = dumps x ++ rest := by
  obtain ⟨c, cs, text, blank, -⟩ := dumps_head ok
  simp [text, skip, blank]

theorem assign_fresh {k : String} (x : Json)
    (fresh : k ∉ fields.map Prod.fst) : assign fields k x = fields ++ [(k, x)] := by
  simp [assign, if_neg fresh]

theorem skip_cons (cs : List Char) (notBlank : isBlank c = false) : skip (c :: cs) = c :: cs := by
  simp [skip, notBlank]

theorem skip_quoted (k : String) (cs : List Char) : skip (quoted k ++ cs) = quoted k ++ cs :=
  skip_cons _ (by decide)

theorem clear_dumpsRest (xs : List Json) (rest : List Char) :
    Clear NumberChar (dumpsRest xs ++ rest) := by
  cases xs <;> exact clear_cons _ (by simp [NumberChar])

theorem clear_dumpsFields (fs : List (String × Json)) (rest : List Char) :
    Clear NumberChar (dumpsFields fs ++ rest) := by
  rcases fs with _ | ⟨⟨k, x⟩, fs⟩ <;> exact clear_cons _ (by simp [NumberChar])

/-- The fuel `n` suffices for every written text of at most `n` characters. -/
structure ReadsBack (n : ℕ) : Prop where
  value : ∀ x rest, x.writable → (dumps x).length ≤ n → Clear NumberChar rest →
    parseValue n (dumps x ++ rest) = some (x, rest)
  elements : ∀ x xs acc rest, x.writable → writableAll xs → (dumps x ++ dumpsRest xs).length ≤ n →
    parseElements n acc (dumps x ++ (dumpsRest xs ++ rest)) = some (acc ++ x :: xs, rest)
  members : ∀ k x fs acc rest, x.writable → writableFields fs →
    (acc ++ (k, x) :: fs |>.map Prod.fst).Nodup →
    (quoted k ++ ':' :: dumps x ++ dumpsFields fs).length ≤ n →
    parseMembers n acc (quoted k ++ ':' :: (dumps x ++ (dumpsFields fs ++ rest))) =
      some (acc ++ (k, x) :: fs, rest)

section
variable {n : ℕ}

theorem ReadsBack.step (ih : ReadsBack n) : ReadsBack (n + 1) where
  value x rest ok fuel clear := by
    cases x with
    | null => rfl
    | bool b => cases b <;> rfl
    | int n => exact parseValue_of_parseNumber _ (parseNumber_int n clear)
    | float x => exact parseValue_of_parseNumber _ (parseNumber_float x clear)
    | str s => simp [dumps, quoted, parseValue, parseString_escape]
    | bytes b => exact absurd ok (by simp [writable])
    | arr xs =>
      cases xs with
      | nil => rfl
      | cons x xs =>
        obtain ⟨okHead, okTail⟩ : x.writable ∧ writableAll xs := ok
        obtain ⟨c, cs, text, -, other⟩ := dumps_head okHead
        have open' : ∀ tail, skip (dumps x ++ (dumpsRest xs ++ rest)) ≠ ']' :: tail := by
          intro tail eq
          rw [skip_dumps okHead, text, cons_append, cons.injEq] at eq
          exact other eq.1
        have elements := ih.elements x xs [] rest okHead okTail (by
          simp only [dumps, cons_append, length_cons] at fuel
          omega)
        rw [dumps, cons_append, cons_append, append_assoc,
          parseValue_elements n open', skip_dumps okHead, elements]
        rfl
    | obj fields =>
      rcases fields with _ | ⟨⟨k, x⟩, fs⟩
      · rfl
      · obtain ⟨distinct, okHead, okTail⟩ :
            (((k, x) :: fs).map Prod.fst).Nodup ∧ x.writable ∧ writableFields fs := ok
        have open' : ∀ tail, skip (quoted k ++ ':' :: (dumps x ++ (dumpsFields fs ++ rest))) ≠
            '}' :: tail := by
          intro tail eq
          rw [skip_quoted, quoted, cons_append, cons_append, cons.injEq] at eq
          exact absurd eq.1 (by decide)
        have members := ih.members k x fs [] rest okHead okTail distinct (by
          simp only [dumps, cons_append, length_cons] at fuel
          omega)
        have text : dumps (.obj ((k, x) :: fs)) ++ rest =
            '{' :: (quoted k ++ ':' :: (dumps x ++ (dumpsFields fs ++ rest))) := by
          simp [dumps]
        rw [text, parseValue_members n open', skip_quoted, members]
        rfl
  elements x xs acc rest ok oks fuel := by
    have positive : 0 < (dumpsRest xs).length := by cases xs <;> simp [dumpsRest]
    rw [length_append] at fuel
    have value := ih.value x (dumpsRest xs ++ rest) ok (by omega) (clear_dumpsRest xs rest)
    rw [parseElements, value]
    cases xs with
    | nil => simp [dumpsRest, skip_cons, isBlank]
    | cons y ys =>
      have more := ih.elements y ys (acc ++ [x]) rest oks.1 oks.2 (by
        simp only [dumpsRest, cons_append, length_cons] at fuel
        omega)
      simp [dumpsRest, skip_cons, isBlank, skip_dumps oks.1, more]
  members k x fs acc rest ok oks distinct fuel := by
    have fresh : k ∉ acc.map Prod.fst := by
      intro mem
      rw [map_append, nodup_append] at distinct
      exact distinct.2.2 k mem k (by simp) rfl
    simp only [length_append, length_cons] at fuel
    have value := ih.value x (dumpsFields fs ++ rest) ok (by omega) (clear_dumpsFields fs rest)
    have literal := parseString_escape k.toList (':' :: (dumps x ++ (dumpsFields fs ++ rest)))
    have text : quoted k ++ ':' :: (dumps x ++ (dumpsFields fs ++ rest)) =
        '"' :: (escape k.toList ++ '"' :: ':' :: (dumps x ++ (dumpsFields fs ++ rest))) := by
      simp [quoted]
    rw [text, parseMembers]
    simp only [literal, Option.bind_eq_bind, Option.bind_some,
      skip_cons _ (show isBlank ':' = false by decide), skip_dumps ok, value, assign_fresh x fresh,
      String.ofList_toList]
    rcases fs with _ | ⟨⟨k', y⟩, fs⟩
    · simp [dumpsFields, skip_cons, isBlank]
    · have more := ih.members k' y fs (acc ++ [(k, x)]) rest oks.1 oks.2
        (by simpa using distinct) (by
          simp only [dumpsFields, length_cons, length_append] at fuel ⊢
          omega)
      simp [dumpsFields, skip_cons, isBlank, skip_quoted, more]

end

theorem readsBack (n : ℕ) : ReadsBack n := by
  induction n with
  | zero =>
    refine ⟨?_, ?_, ?_⟩
    · intro x rest ok fuel
      obtain ⟨c, cs, text, -, -⟩ := dumps_head ok
      simp [text] at fuel
    · intro x xs acc rest ok _ fuel
      obtain ⟨c, cs, text, -, -⟩ := dumps_head ok
      simp [text] at fuel
    · intro k x fs acc rest _ _ _ fuel
      simp at fuel
  | succ n ih => exact ih.step

theorem parseValue_dumps (ok : x.writable) :
    parseValue ((dumps x).length + 1) (dumps x) = some (x, []) := by
  have read := (readsBack ((dumps x).length + 1)).value x [] ok (by omega) clear_nil
  rwa [append_nil] at read

theorem loads_dumps (ok : x.writable) : loads (dumps x) = some x := by
  have blank := skip_dumps ok []
  rw [append_nil] at blank
  simp only [loads, blank, parseValue_dumps ok]
  rfl

theorem obj_text (fields : List (String × Json)) : ∃ cs, dumps (.obj fields) = '{' :: cs := by
  rcases fields with _ | ⟨⟨k, x⟩, fs⟩ <;> exact ⟨_, rfl⟩

theorem parseValue_brace (found : parseValue n ('{' :: cs) = some (x, r)) : x.isNumber = false := by
  cases n with
  | zero => simp [parseValue] at found
  | succ n =>
    rw [parseValue] at found
    split at found
    · cases found
      rfl
    · obtain ⟨_, _, ⟨⟩⟩ := map_eq_some_iff.mp found
      rfl

theorem loads_proper_initial (ok : (Json.obj fields).writable)
    {q : List Char} (text : p ++ q = dumps (.obj fields)) (cut : q ≠ []) : loads p = none := by
  cases p with
  | nil => rfl
  | cons c p =>
    obtain ⟨cs, first⟩ := obj_text fields
    rw [first, cons_append, cons.injEq] at text
    obtain ⟨rfl, text⟩ := text
    have whole : '{' :: p ++ q = dumps (.obj fields) := by rw [first, ← text, cons_append]
    have blank : skip ('{' :: p) = '{' :: p := skip_cons p (by decide)
    unfold loads
    rw [blank]
    cases found : parseValue (('{' :: p).length + 1) ('{' :: p) with
    | none => rfl
    | some result =>
      have fuel : ('{' :: p).length + 1 ≤ (dumps (.obj fields)).length + 1 := by
        rw [← whole, length_append]
        omega
      have extended := (parse_append q fuel).value _ _ _ found fun number => by
        rw [parseValue_brace found] at number
        exact absurd number (by decide)
      rw [whole, parseValue_dumps ok, some.injEq, Prod.mk.injEq] at extended
      exact absurd (append_eq_nil_iff.mp extended.2.symm).2 cut

-- the text of a value is a single line

@[simp] theorem oneLine_digits (cs : List Char) : '\n' ∉ cs.takeWhile Char.isDigit := fun mem =>
  absurd (mem_takeWhile_imp mem) (by decide)

theorem oneLine_lexNat {w : List Char} (found : lexNat p = some (w, r)) : '\n' ∉ w := by
  cases p with
  | nil => simp [lexNat] at found
  | cons c cs =>
    simp only [lexNat] at found
    split_ifs at found with zero digit <;> cases found
    · decide
    · have other : '\n' ≠ c := by
        rintro rfl
        exact absurd digit (by decide)
      simp [other]

theorem oneLine_lexInt {w : List Char} (found : lexInt p = some (w, r)) : '\n' ∉ w := by
  cases p with
  | nil => simp [lexInt] at found
  | cons c cs =>
    simp only [lexInt] at found
    split_ifs at found with minus
    · obtain ⟨⟨w', r'⟩, body, ⟨⟩⟩ := map_eq_some_iff.mp found
      simp [oneLine_lexNat body]
    · exact oneLine_lexNat found

@[simp] theorem oneLine_lexFrac (cs : List Char) : '\n' ∉ (lexFrac cs).1 := by
  cases cs with
  | nil => simp [lexFrac]
  | cons c cs =>
    simp only [lexFrac]
    split_ifs <;> simp

@[simp] theorem oneLine_lexExp (cs : List Char) : '\n' ∉ (lexExp cs).1 := by
  have sign : ∀ cs, '\n' ∉ (splitSign cs).1 := by
    rintro (_ | ⟨c, cs⟩)
    · simp [splitSign]
    · simp only [splitSign]
      split_ifs with signed
      · rcases signed with rfl | rfl <;> simp
      · simp
  cases cs with
  | nil => simp [lexExp]
  | cons c cs =>
    simp only [lexExp]
    split_ifs with taken
    · rcases taken.1 with rfl | rfl <;> simp [sign]
    · simp

theorem oneLine_float (x : JsonFloat) : '\n' ∉ x.whole ++ x.part := by
  obtain ⟨⟨w, r⟩, whole, eq⟩ := map_eq_some_iff.mp x.lexes
  simp only [Prod.mk.injEq] at eq
  obtain ⟨rfl, part, -⟩ := eq
  simp [← part, oneLine_lexInt whole]

theorem oneLine_intText (n : Int) : '\n' ∉ intText n := by
  have digits : '\n' ∉ Nat.toDigits 10 n.natAbs := fun mem =>
    absurd (Nat.isDigit_of_mem_toDigits (by omega) (by omega) mem) (by decide)
  unfold intText
  split_ifs <;> simp [digits]

@[simp] theorem oneLine_hex4 (n : ℕ) : '\n' ∉ hex4 n := by
  have digit : ∀ d < 16, '\n' ≠ hexDigit d := by decide
  have digits := fun m => digit _ (Nat.mod_lt m (by omega : 0 < 16))
  simp [hex4, digits]

@[simp] theorem oneLine_quoted (s : String) : '\n' ∉ quoted s := by
  have escaped : ∀ c, '\n' ∉ escapeChar c := by
    intro c
    by_cases newline : c = '\n'
    · rw [newline]
      decide
    · have other := Ne.symm newline
      unfold escapeChar
      split_ifs <;> simp [other]
  simp [quoted, escape, escaped]

mutual
theorem oneLine_dumps : (x : Json) → '\n' ∉ dumps x
  | .null | .bool true | .bool false | .arr [] | .obj [] => by decide
  | .int n => oneLine_intText n
  | .float x => oneLine_float x
  | .str s => oneLine_quoted s
  | .bytes _ => not_mem_nil
  | .arr (x :: xs) => by simp [dumps, oneLine_dumps x, oneLine_rest xs]
  | .obj ((k, x) :: fs) => by simp [dumps, oneLine_dumps x, oneLine_fields fs]

theorem oneLine_rest : (xs : List Json) → '\n' ∉ dumpsRest xs
  | [] => by decide
  | x :: xs => by simp [dumpsRest, oneLine_dumps x, oneLine_rest xs]

theorem oneLine_fields : (fs : List (String × Json)) → '\n' ∉ dumpsFields fs
  | [] => by decide
  | (k, x) :: fs => by simp [dumpsFields, oneLine_dumps x, oneLine_fields fs]
end

end Json
end Infera
