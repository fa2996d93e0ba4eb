import Mathlib.Data.List.TakeWhile
import Mathlib.Tactic

/-! JSON text as Python's `json` module reads and writes it: `dumps` with the
separators `(",", ":")` and ASCII escapes, `loads` with optional blanks between
tokens. Texts are lists of characters; every character `dumps` writes is ASCII,
so they are also the bytes of the file.

Two facts carry the file formats built on it. A written value reads back
(`loads_dumps`), and no proper initial part of a written object reads at all
(`loads_proper_initial`), so a line cut short by a crash is recognised. The
second rests on `parse_append`: what the parser has accepted does not change
when text is added, unless the text ends inside a number.

`bytes` stands for the Python values `json` has no encoding for; `encodable`
is the test that makes `json.dumps` raise. Floats are carried by their `repr`,
the text `dumps` writes for them. -/

namespace Infera

namespace JsonText

def lexNat : List Char → Option (List Char × List Char)
  | [] => none
  | c :: cs =>
    if c = '0' then some (['0'], cs)
    else if c.isDigit then some (c :: cs.takeWhile Char.isDigit, cs.dropWhile Char.isDigit)
    else none

def lexInt : List Char → Option (List Char × List Char)
  | [] => none
  | c :: cs =>
    if c = '-' then (lexNat cs).map fun found => ('-' :: found.1, found.2)
    else lexNat (c :: cs)

/-- A dot with at least one digit after it; otherwise nothing is taken. -/
def lexFrac : List Char → List Char × List Char
  | [] => ([], [])
  | c :: cs =>
    if c = '.' ∧ cs.takeWhile Char.isDigit ≠ [] then
      ('.' :: cs.takeWhile Char.isDigit, cs.dropWhile Char.isDigit)
    else ([], c :: cs)

def splitSign : List Char → List Char × List Char
  | [] => ([], [])
  | c :: cs => if c = '+' ∨ c = '-' then ([c], cs) else ([], c :: cs)

/-- `e` or `E`, a sign, and at least one digit; otherwise nothing is taken. -/
def lexExp : List Char → List Char × List Char
  | [] => ([], [])
  | c :: cs =>
    if (c = 'e' ∨ c = 'E') ∧ (splitSign cs).2.takeWhile Char.isDigit ≠ [] then
      (c :: (splitSign cs).1 ++ (splitSign cs).2.takeWhile Char.isDigit,
        (splitSign cs).2.dropWhile Char.isDigit)
    else ([], c :: cs)

/-- Integer part, fraction with exponent, and what follows the number. -/
def lexNumber (cs : List Char) : Option (List Char × List Char × List Char) :=
  (lexInt cs).map fun found =>
    let frac := lexFrac found.2
    let exp := lexExp frac.2
    (found.1, frac.1 ++ exp.1, exp.2)

def intOf : List Char → Int
  | [] => 0
  | c :: cs => if c = '-' then -(Nat.ofDigitChars 10 cs 0 : Int) else Nat.ofDigitChars 10 (c :: cs) 0

def intText (n : Int) : List Char :=
  if n < 0 then '-' :: Nat.toDigits 10 n.natAbs else Nat.toDigits 10 n.natAbs

end JsonText

/-- A float, by the decimal text of its `repr`. -/
structure JsonFloat where
  whole : List Char
  part : List Char
  lexes : JsonText.lexNumber (whole ++ part) = some (whole, part, [])
  fractional : part ≠ []

def JsonFloat.zero : JsonFloat := ⟨['0'], ['.', '0'], by decide, by decide⟩

inductive Json where
  | null
  | bool (b : Bool)
  | int (n : Int)
  | float (x : JsonFloat)
  | str (s : String)
  | bytes (b : List UInt8)
  | arr (xs : List Json)
  | obj (fields : List (String × Json))

namespace JsonText

def hexDigit (d : Nat) : Char := if d < 10 then Char.ofNat (48 + d) else Char.ofNat (87 + d)

def hexVal (c : Char) : Option Nat :=
  if c.isDigit then some (c.toNat - 48)
  else if 'a' ≤ c ∧ c ≤ 'f' then some (c.toNat - 87)
  else if 'A' ≤ c ∧ c ≤ 'F' then some (c.toNat - 55)
  else none

def hex4 (n : Nat) : List Char :=
  [hexDigit (n / 4096 % 16), hexDigit (n / 256 % 16), hexDigit (n / 16 % 16), hexDigit (n % 16)]

def unhex4 (a b c d : Char) : Option Nat := do
  let a ← hexVal a
  let b ← hexVal b
  let c ← hexVal c
  let d ← hexVal d
  return a * 4096 + b * 256 + c * 16 + d

/-- The escape of one character; code points above `0xffff` become a surrogate pair. -/
def escapeChar (c : Char) : List Char :=
  if c = '"' then ['\\', '"']
  else if c = '\\' then ['\\', '\\']
  else if c = '\n' then ['\\', 'n']
  else if c = '\r' then ['\\', 'r']
  else if c = '\t' then ['\\', 't']
  else if c.toNat = 12 then ['\\', 'f']
  else if c.toNat = 8 then ['\\', 'b']
  else if 32 ≤ c.toNat ∧ c.toNat ≤ 126 then [c]
  else if c.toNat < 65536 then '\\' :: 'u' :: hex4 c.toNat
  else
    '\\' :: 'u' :: hex4 (55296 + (c.toNat - 65536) / 1024) ++
      '\\' :: 'u' :: hex4 (56320 + (c.toNat - 65536) % 1024)

def escape (s : List Char) : List Char := s.flatMap escapeChar

def simpleEscape (c : Char) : Option Char :=
  if c = '"' ∨ c = '\\' ∨ c = '/' then some c
  else if c = 'n' then some '\n'
  else if c = 'r' then some '\r'
  else if c = 't' then some '\t'
  else if c = 'f' then some (Char.ofNat 12)
  else if c = 'b' then some (Char.ofNat 8)
  else none

/-- The characters of a string literal after its opening quote. Lone surrogate
escapes have no `Char` and are refused; `dumps` never writes one. -/
def parseString : List Char → Option (List Char × List Char)
  | [] => none
  | '"' :: rest => some ([], rest)
  | '\\' :: 'u' :: a :: b :: c :: d :: rest => do
    let code ← unhex4 a b c d
    if code < 55296 ∨ 57344 ≤ code then
      let found ← parseString rest
      return (Char.ofNat code :: found.1, found.2)
    else match rest with
      | '\\' :: 'u' :: e :: f :: g :: h :: rest' => do
        let low ← unhex4 e f g h
        if code < 56320 ∧ 56320 ≤ low ∧ low < 57344 then
          let found ← parseString rest'
          return (Char.ofNat (65536 + (code - 55296) * 1024 + (low - 56320)) :: found.1, found.2)
        else none
      | _ => none
  | '\\' :: c :: rest => do
    let plain ← simpleEscape c
    let found ← parseString rest
    return (plain :: found.1, found.2)
  | c :: rest =>
    if 32 ≤ c.toNat ∧ c ≠ '\\' then do
      let found ← parseString rest
      return (c :: found.1, found.2)
    else none

end JsonText

namespace Json
open JsonText

mutual
def encodable : Json → Bool
  | .bytes _ => false
  | .arr xs => encodableAll xs
  | .obj fields => encodableFields fields
  | _ => true

def encodableAll : List Json → Bool
  | [] => true
  | x :: xs => x.encodable && encodableAll xs

def encodableFields : List (String × Json) → Bool
  | [] => true
  | (_, x) :: fields => x.encodable && encodableFields fields
end

mutual
/-- No dictionary in the value has two members of one name, as in any Python dictionary. -/
def distinct : Json → Bool
  | .arr xs => distinctAll xs
  | .obj fields => decide (fields.map Prod.fst).Nodup && distinctFields fields
  | _ => true

def distinctAll : List Json → Bool
  | [] => true
  | x :: xs => x.distinct && distinctAll xs

def distinctFields : List (String × Json) → Bool
  | [] => true
  | (_, x) :: fields => x.distinct && distinctFields fields
end

def quoted (s : String) : List Char := '"' :: escape s.toList ++ ['"']

mutual
def dumps : Json → List Char
  | .null => ['n', 'u', 'l', 'l']
  | .bool true => ['t', 'r', 'u', 'e']
  | .bool false => ['f', 'a', 'l', 's', 'e']
  | .int n => intText n
  | .float x => x.whole ++ x.part
  | .str s => quoted s
  | .bytes _ => []
  | .arr [] => ['[', ']']
  | .arr (x :: xs) => '[' :: dumps x ++ dumpsRest xs
  | .obj [] => ['{', '}']
  | .obj ((k, x) :: fields) => '{' :: quoted k ++ ':' :: dumps x ++ dumpsFields fields

def dumpsRest : List Json → List Char
  | [] => [']']
  | x :: xs => ',' :: dumps x ++ dumpsRest xs

def dumpsFields : List (String × Json) → List Char
  | [] => ['}']
  | (k, x) :: fields => ',' :: quoted k ++ ':' :: dumps x ++ dumpsFields fields
end

mutual
/-- Members by name, at every level: what `sort_keys=True` writes. -/
def sortKeys : Json → Json
  | .arr xs => .arr (sortKeysAll xs)
  | .obj fields => .obj ((sortKeysFields fields).insertionSort fun a b => ¬b.1 < a.1)
  | x => x

def sortKeysAll : List Json → List Json
  | [] => []
  | x :: xs => x.sortKeys :: sortKeysAll xs

def sortKeysFields : List (String × Json) → List (String × Json)
  | [] => []
  | (k, x) :: fields => (k, x.sortKeys) :: sortKeysFields fields
end

def isBlank (c : Char) : Bool := c = ' ' || c = '\t' || c = '\n' || c = '\r'

def skip (cs : List Char) : List Char := cs.dropWhile isBlank

/-- Later members replace earlier ones of the same name, in the first one's place. -/
def assign (fields : List (String × Json)) (k : String) (x : Json) : List (String × Json) :=
  if k ∈ fields.map Prod.fst then fields.map fun kv => if kv.1 = k then (k, x) else kv
  else fields ++ [(k, x)]

def parseNumber (cs : List Char) : Option (Json × List Char) :=
  match lexNumber cs with
  | none => none
  | some (whole, part, rest) =>
    if frac : part = [] then some (.int (intOf whole), rest)
    else if lexes : lexNumber (whole ++ part) = some (whole, part, []) then
      some (.float ⟨whole, part, lexes, frac⟩, rest)
    else none

mutual
def parseValue : Nat → List Char → Option (Json × List Char)
  | 0, _ => none
  | n + 1, cs =>
    match cs with
    | '"' :: rest => (parseString rest).map fun found => (.str (String.ofList found.1), found.2)
    | '{' :: rest =>
      match skip rest with
      | '}' :: rest => some (.obj [], rest)
      | rest => (parseMembers n [] rest).map fun found => (.obj found.1, found.2)
    | '[' :: rest =>
      match skip rest with
      | ']' :: rest => some (.arr [], rest)
      | rest => (parseElements n [] rest).map fun found => (.arr found.1, found.2)
    | 'n' :: 'u' :: 'l' :: 'l' :: rest => some (.null, rest)
    | 't' :: 'r' :: 'u' :: 'e' :: rest => some (.bool true, rest)
    | 'f' :: 'a' :: 'l' :: 's' :: 'e' :: rest => some (.bool false, rest)
    | cs => parseNumber cs

def parseMembers : Nat → List (String × Json) → List Char → Option (List (String × Json) × List Char)
  | 0, _, _ => none
  | n + 1, fields, cs =>
    match cs with
    | '"' :: rest => do
      let name ← parseString rest
      match skip name.2 with
      | ':' :: rest => do
        let value ← parseValue n (skip rest)
        let fields := assign fields (String.ofList name.1) value.1
        match skip value.2 with
        | '}' :: rest => some (fields, rest)
        | ',' :: rest => parseMembers n fields (skip rest)
        | _ => none
      | _ => none
    | _ => none

def parseElements : Nat → List Json → List Char → Option (List Json × List Char)
  | 0, _, _ => none
  | n + 1, xs, cs => do
    let value ← parseValue n cs
    match skip value.2 with
    | ']' :: rest => some (xs ++ [value.1], rest)
    | ',' :: rest => parseElements n (xs ++ [value.1]) (skip rest)
    | _ => none
end

/-- `json.loads`; `none` is `JSONDecodeError`. -/
def loads (cs : List Char) : Option Json :=
  match parseValue (cs.length + 1) (skip cs) with
  | some (x, rest) => if skip rest = [] then some x else none
  | none => none

section
-- the equations are generated here, not in each proof that needs them
attribute [local simp] parseString parseValue parseMembers parseElements dumps
end

end Json
end Infera
