import Infera.JsonRoundTrip

/-! Logs of JSON objects, one per line, as `json.dumps(x) + "\n"` writes them and
a line-by-line reader that stops at the first unreadable line reads them. The
lines of a log read back whatever follows them (`readAll_append`), and what a
write cut short leaves behind reads as nothing, or as its whole object when only
the newline is missing (`readAll_torn`). -/

namespace Infera
namespace JsonLines
open Json List

def line (x : Json) : List Char := dumps x ++ ['\n']

def splitLines : List Char → List (List Char)
  | [] => [[]]
  | c :: cs =>
    if c = '\n' then [] :: splitLines cs
    else
      match splitLines cs with
      | [] => [[c]]
      | l :: ls => (c :: l) :: ls

/-- The characters `bytes.strip()` removes. -/
def isSpace (c : Char) : Bool := c.toNat = 32 || (9 ≤ c.toNat && c.toNat ≤ 13)

def strip (cs : List Char) : List Char := ((cs.dropWhile isSpace).reverse.dropWhile isSpace).reverse

/-- Blank lines are skipped; the first line that does not parse ends the log. -/
def readLines : List (List Char) → List Json
  | [] => []
  | l :: ls =>
    if strip l = [] then readLines ls
    else
      match loads (strip l) with
      | none => []
      | some x => x :: readLines ls

def readAll (text : List Char) : List Json := readLines (splitLines text)

/-- An object `json.dumps` can write. -/
def Record (x : Json) : Prop := (∃ fields, x = .obj fields) ∧ x.writable

theorem splitLines_append {l : List Char} (clear : '\n' ∉ l) (rest : List Char) :
    splitLines (l ++ '\n' :: rest) = l :: splitLines rest := by
  induction l with
  | nil => simp [splitLines]
  | cons c cs ih =>
    simp only [mem_cons, not_or] at clear
    rw [cons_append, splitLines, if_neg (Ne.symm clear.1), ih clear.2]

theorem splitLines_of_clear {l : List Char} (clear : '\n' ∉ l) : splitLines l = [l] := by
  induction l with
  | nil => rfl
  | cons c cs ih =>
    simp only [mem_cons, not_or] at clear
    rw [splitLines, if_neg (Ne.symm clear.1), ih clear.2]

variable (fields : List (String × Json))

theorem dumpsFields_last : ∃ cs, dumpsFields fields = cs ++ ['}'] := by
  induction fields with
  | nil => exact ⟨[], by simp [dumpsFields]⟩
  | cons kv fields ih =>
    obtain ⟨cs, eq⟩ := ih
    exact ⟨_, by rw [dumpsFields, eq, ← append_assoc]⟩

theorem obj_last : ∃ cs, dumps (.obj fields) = cs ++ ['}'] := by
  rcases fields with _ | ⟨⟨k, x⟩, fields⟩
  · exact ⟨['{'], by simp [dumps]⟩
  · obtain ⟨cs, eq⟩ := dumpsFields_last fields
    exact ⟨_, by rw [dumps, eq, ← append_assoc]⟩

theorem strip_obj : strip (dumps (.obj fields)) = dumps (.obj fields) := by
  obtain ⟨cs, first⟩ := obj_text fields
  obtain ⟨cs', last⟩ := obj_last fields
  have left : (dumps (.obj fields)).dropWhile isSpace = dumps (.obj fields) := by
    rw [first, dropWhile_cons_of_neg (by decide)]
  unfold strip
  rw [left, last, reverse_append, reverse_singleton, singleton_append,
    dropWhile_cons_of_neg (by decide), reverse_cons, reverse_reverse]

theorem readAll_append {xs : List Json} (records : ∀ x ∈ xs, Record x) (tail : List Char) :
    readAll (xs.flatMap line ++ tail) = xs ++ readAll tail := by
  induction xs with
  | nil => rfl
  | cons x xs ih =>
    obtain ⟨⟨fields, rfl⟩, ok⟩ := records x mem_cons_self
    have rest := ih fun x mem => records x (.tail _ mem)
    have clear := oneLine_dumps (.obj fields)
    have nonempty : dumps (.obj fields) ≠ [] := by
      obtain ⟨cs, first⟩ := obj_text fields
      simp [first]
    unfold readAll at rest ⊢
    rw [flatMap_cons, line, append_assoc, append_assoc, singleton_append,
      splitLines_append clear, readLines, strip_obj, if_neg nonempty, loads_dumps ok]
    simp [rest]

theorem readAll_lines {xs : List Json} (records : ∀ x ∈ xs, Record x) :
    readAll (xs.flatMap line) = xs := by
  have whole := readAll_append records []
  have nothing : readAll [] = [] := rfl
  rwa [nothing, append_nil, append_nil] at whole

theorem strip_brace (cs : List Char) : ∃ rest, '{' :: cs = strip ('{' :: cs) ++ rest := by
  refine ⟨(('{' :: cs).reverse.takeWhile isSpace).reverse, ?_⟩
  have left : ('{' :: cs).dropWhile isSpace = '{' :: cs := dropWhile_cons_of_neg (by decide)
  unfold strip
  rw [left, ← reverse_append, takeWhile_append_dropWhile, reverse_reverse]

theorem readAll_torn {x : Json} (record : Record x) {p q : List Char} (text : p ++ q = dumps x) :
    readAll p = if q = [] then [x] else [] := by
  obtain ⟨⟨fields, rfl⟩, ok⟩ := record
  have clear : '\n' ∉ p := by
    intro mem
    refine oneLine_dumps (.obj fields) ?_
    rw [← text]
    exact mem_append_left _ mem
  unfold readAll
  rw [splitLines_of_clear clear]
  split_ifs with whole
  · rw [whole, append_nil] at text
    have nonempty : dumps (.obj fields) ≠ [] := by
      obtain ⟨cs, first⟩ := obj_text fields
      simp [first]
    rw [text, readLines, strip_obj, if_neg nonempty, loads_dumps ok]
    rfl
  · cases p with
    | nil => rfl
    | cons c cs =>
      obtain ⟨rest, first⟩ := obj_text fields
      have brace : c = '{' := by
        rw [first] at text
        exact (List.cons.inj text).1
      subst brace
      obtain ⟨cut, shortened⟩ := strip_brace cs
      have unread : loads (strip ('{' :: cs)) = none := by
        refine loads_proper_initial ok (q := cut ++ q) ?_ (by simp [whole])
        rw [← append_assoc, ← shortened, text]
      rw [readLines, unread]
      split_ifs <;> rfl

end JsonLines
end Infera
