import Mathlib.Data.List.Infix

/-! Directories, files and symbolic links in any arrangement, and how the kernel
resolves a path among them. A location is the list of names from the root down,
with no link on the way; a path is a text, cut at its separators. Resolution goes
component by component, follows at most `maxLinks` links, and stops in the mode it
is asked for: at an existing object, at one that may be created, or anywhere, the
missing rest of the path being kept as it is written. -/

namespace Infera
open List

/-- Cut at the separators. -/
def components : List Char → List (List Char)
  | [] => [[]]
  | c :: cs =>
    if c = '/' then [] :: components cs
    else match components cs with
      | [] => [[c]]
      | n :: ns => (c :: n) :: ns

section
-- the equations are generated here, not in each proof that needs them
attribute [local simp] components
end

theorem components_ne_nil (s : List Char) : components s ≠ [] := by
  cases s with
  | nil => simp [components]
  | cons c cs =>
    rw [components]
    split_ifs
    · simp
    · split <;> simp

theorem components_cons {c : Char} (other : c ≠ '/') (cs n : List Char) (ns : List (List Char))
    (cut : components cs = n :: ns) : components (c :: cs) = (c :: n) :: ns := by
  rw [components, if_neg other, cut]

theorem components_append (s t : List Char) :
    components (s ++ '/' :: t) = components s ++ components t := by
  induction s with
  | nil => simp [components]
  | cons c s ih =>
    by_cases cut : c = '/'
    · simp [components, cut, ih]
    · obtain ⟨n, ns, first⟩ := exists_cons_of_ne_nil (components_ne_nil s)
      rw [cons_append, components_cons cut _ n (ns ++ components t) (by rw [ih, first]; rfl),
        components_cons cut s n ns first, cons_append]

theorem components_of_not_mem {n : List Char} (whole : '/' ∉ n) : components n = [n] := by
  induction n with
  | nil => rfl
  | cons c n ih =>
    rw [mem_cons, not_or] at whole
    exact components_cons (Ne.symm whole.1) n n [] (ih whole.2)

theorem not_mem_of_mem_components {s n : List Char} (mem : n ∈ components s) : '/' ∉ n := by
  induction s generalizing n with
  | nil => simp_all [components]
  | cons c s ih =>
    by_cases cut : c = '/'
    · rw [components, if_pos cut, mem_cons] at mem
      rcases mem with rfl | mem
      · exact not_mem_nil
      · exact ih mem
    · obtain ⟨first, ns, eq⟩ := exists_cons_of_ne_nil (components_ne_nil s)
      rw [components_cons cut s first ns eq, mem_cons] at mem
      rcases mem with rfl | mem
      · rw [mem_cons, not_or]
        exact ⟨Ne.symm cut, ih (eq ▸ mem_cons_self)⟩
      · exact ih (eq ▸ mem_cons_of_mem _ mem)

abbrev Location := List (List Char)

def Location.text (q : Location) : List Char :=
  if q = [] then ['/'] else q.flatMap ('/' :: ·)

namespace Location

theorem text_concat (q : Location) (n : List Char) :
    text (q ++ [n]) = if q = [] then '/' :: n else text q ++ '/' :: n := by
  by_cases root : q = [] <;> simp [text, root]

theorem components_text {q : Location} (inside : q ≠ []) (whole : ∀ n ∈ q, '/' ∉ n) :
    components q.text = [] :: q := by
  induction q using List.reverseRecOn with
  | nil => exact absurd rfl inside
  | append_singleton q n ih =>
    have last : components n = [n] := components_of_not_mem (whole n (by simp))
    rw [text_concat]
    by_cases root : q = []
    · simp [root, components, last]
    · rw [if_neg root, components_append, last, ih root fun m mem => whole m (by simp [mem])]
      rfl

theorem prefix_of_text {z q : Location} (inside : z ≠ []) (wholeZ : ∀ n ∈ z, '/' ∉ n)
    (wholeQ : ∀ n ∈ q, '/' ∉ n) (longer : z.text ++ ['/'] <+: q.text) : z <+: q := by
  obtain ⟨rest, eq⟩ := longer
  have cut : components q.text = ([] :: z) ++ components rest := by
    rw [← eq, append_assoc, singleton_append, components_append, components_text inside wholeZ]
  by_cases root : q = []
  · have two : components q.text = [[], []] := by simp [root, text, components]
    obtain ⟨n, z, rfl⟩ := exists_cons_of_ne_nil inside
    rw [two, cons_append, List.cons.injEq] at cut
    have short := congrArg List.length cut.2
    have some := length_pos_of_ne_nil (components_ne_nil rest)
    simp only [length_append, length_cons, length_nil] at short
    omega
  · rw [components_text root wholeQ, cons_append, List.cons.injEq] at cut
    exact ⟨_, cut.2.symm⟩

end Location

structure IsName (n : List Char) : Prop where
  ne_nil : n ≠ []
  ne_dot : n ≠ ['.']
  ne_dots : n ≠ ['.', '.']
  whole : '/' ∉ n
  noNul : '\x00' ∉ n

inductive Node
  | dir
  | file
  | link (target : List Char)
  deriving DecidableEq

structure FileSystem where
  node : Location → Option Node
  root : node [] = some .dir
  names : ∀ q n x, node (q ++ [n]) = some x → IsName n
  nested : ∀ q n x, node (q ++ [n]) = some x → node q = some .dir
  cwd : Location
  cwdDir : node cwd = some .dir

inductive Lookup
  | existing
  | creating
  | lexical
  deriving DecidableEq

def maxLinks : ℕ := 40

namespace FileSystem
variable (fs : FileSystem)

/-- Go through the components up to the first link, and on with `follow` there. -/
def pass (m : Lookup)
    (follow : Location → List Char → List Char → List (List Char) → Option Location) :
    Location → List (List Char) → Option Location
  | cur, [] => some cur
  | cur, n :: rest =>
    if n = [] ∨ n = ['.'] then pass m follow cur rest
    else if n = ['.', '.'] then pass m follow cur.dropLast rest
    else match fs.node (cur ++ [n]) with
      | some .dir => pass m follow (cur ++ [n]) rest
      | some .file =>
        if rest = [] then some (cur ++ [n])
        else if m = .lexical then pass m follow (cur ++ [n]) rest
        else none
      | some (.link target) => follow cur n target rest
      | none =>
        if m = .lexical then pass m follow (cur ++ [n]) rest
        -- a trailing separator may stand behind the name of a new directory
        else if m = .creating ∧ rest.all (· = []) then some (cur ++ [n])
        else none

/-- A link is replaced by its target; after the last one allowed nothing is found. -/
def walk (m : Lookup) : ℕ → Location → List (List Char) → Option Location
  | 0 => fs.pass m fun cur n _ rest => if m = .lexical then some (cur ++ n :: rest) else none
  | links + 1 => fs.pass m fun cur _ target rest =>
      walk m links (if target.head? = some '/' then [] else cur) (components target ++ rest)

section
-- the equations are generated here, not in each proof that needs them
attribute [local simp] pass walk
end

def base (absolute : Bool) : Location := if absolute then [] else fs.cwd

/-- The object that opening a path reaches, or creating it makes. -/
def touches (path : List Char) : Option Location :=
  if path = [] ∨ '\x00' ∈ path then none
  else fs.walk .creating maxLinks (fs.base (path.head? = some '/')) (components path)

theorem dir_base (absolute : Bool) : fs.node (fs.base absolute) = some .dir := by
  cases absolute
  · exact fs.cwdDir
  · exact fs.root

/-- How a resolution that is not lexical reaches `q`, by the component it starts with. -/
inductive Finds (m : Lookup) (q : Location) : ℕ → Location → List (List Char) → Prop
  | done (links : ℕ) : Finds m q links q []
  | dot {links cur n rest} (dot : n = [] ∨ n = ['.']) (on : Finds m q links cur rest) :
      Finds m q links cur (n :: rest)
  | up {links cur n rest} (other : ¬(n = [] ∨ n = ['.'])) (up : n = ['.', '.'])
      (on : Finds m q links cur.dropLast rest) : Finds m q links cur (n :: rest)
  | dir {links cur n rest} (other : ¬(n = [] ∨ n = ['.'])) (down : n ≠ ['.', '.'])
      (found : fs.node (cur ++ [n]) = some .dir) (on : Finds m q links (cur ++ [n]) rest) :
      Finds m q links cur (n :: rest)
  | file {links cur n} (other : ¬(n = [] ∨ n = ['.'])) (down : n ≠ ['.', '.'])
      (found : fs.node (cur ++ [n]) = some .file) (ends : q = cur ++ [n]) :
      Finds m q links cur [n]
  | link {links cur n rest target} (other : ¬(n = [] ∨ n = ['.'])) (down : n ≠ ['.', '.'])
      (found : fs.node (cur ++ [n]) = some (.link target))
      (on : Finds m q links (if target.head? = some '/' then [] else cur)
        (components target ++ rest)) : Finds m q (links + 1) cur (n :: rest)
  | created {links cur n rest} (other : ¬(n = [] ∨ n = ['.'])) (down : n ≠ ['.', '.'])
      (found : fs.node (cur ++ [n]) = none) (creates : m = .creating)
      (ends : ∀ r ∈ rest, r = []) (new : q = cur ++ [n]) : Finds m q links cur (n :: rest)

/-- The second list is the first one without some of its empty components and dots. -/
inductive Tidies : List (List Char) → List (List Char) → Prop
  | nil : Tidies [] []
  | keep (n) {rest rest'} (on : Tidies rest rest') : Tidies (n :: rest) (n :: rest')
  | drop {n rest rest'} (dot : n = [] ∨ n = ['.']) (on : Tidies rest rest') :
      Tidies (n :: rest) rest'

variable {m : Lookup} {links : ℕ} {cur q : Location} {n : List Char} {rest todo : List (List Char)}

@[simp] theorem walk_nil : fs.walk m links cur [] = some cur := by cases links <;> rfl

theorem walk_dot (dot : n = [] ∨ n = ['.']) :
    fs.walk m links cur (n :: rest) = fs.walk m links cur rest := by
  cases links <;> rw [walk, pass, if_pos dot]

theorem walk_up (other : ¬(n = [] ∨ n = ['.'])) (up : n = ['.', '.']) :
    fs.walk m links cur (n :: rest) = fs.walk m links cur.dropLast rest := by
  cases links <;> rw [walk, pass, if_neg other, if_pos up]

section named
variable (other : ¬(n = [] ∨ n = ['.'])) (down : n ≠ ['.', '.'])
include other down

theorem walk_dir (found : fs.node (cur ++ [n]) = some .dir) :
    fs.walk m links cur (n :: rest) = fs.walk m links (cur ++ [n]) rest := by
  cases links <;> rw [walk, pass, if_neg other, if_neg down, found]

theorem walk_file (found : fs.node (cur ++ [n]) = some .file) :
    fs.walk m links cur (n :: rest) = if rest = [] then some (cur ++ [n])
      else if m = .lexical then fs.walk m links (cur ++ [n]) rest else none := by
  cases links <;> rw [walk, pass, if_neg other, if_neg down, found]

theorem walk_missing (found : fs.node (cur ++ [n]) = none) :
    fs.walk m links cur (n :: rest) = if m = .lexical then fs.walk m links (cur ++ [n]) rest
      else if m = .creating ∧ rest.all (· = []) then some (cur ++ [n]) else none := by
  cases links <;> rw [walk, pass, if_neg other, if_neg down, found]

variable {target : List Char} (found : fs.node (cur ++ [n]) = some (.link target))
include found

theorem walk_link : fs.walk m (links + 1) cur (n :: rest) =
      fs.walk m links (if target.head? = some '/' then [] else cur)
        (components target ++ rest) := by
  rw [walk, pass, if_neg other, if_neg down, found]

theorem walk_last_link :
    fs.walk m 0 cur (n :: rest) = if m = .lexical then some (cur ++ n :: rest) else none := by
  rw [walk, pass, if_neg other, if_neg down, found]

end named

variable {fs} {rest rest' : List (List Char)}

theorem finds_of_walk (strict : m ≠ .lexical) (walked : fs.walk m links cur todo = some q) :
    fs.Finds m q links cur todo := by
  induction links using Nat.strong_induction_on generalizing cur todo with
  | _ links fewer =>
    induction todo generalizing cur with
    | nil =>
      rw [walk_nil, Option.some.injEq] at walked
      exact walked ▸ .done links
    | cons n rest ih =>
      by_cases dot : n = [] ∨ n = ['.']
      · exact .dot dot (ih (fs.walk_dot dot ▸ walked))
      by_cases up : n = ['.', '.']
      · exact .up dot up (ih (fs.walk_up dot up ▸ walked))
      cases found : fs.node (cur ++ [n]) with
      | none =>
        rw [fs.walk_missing dot up found, if_neg strict] at walked
        simp only [all_eq_true, decide_eq_true_eq, Option.ite_none_right_eq_some,
          Option.some.injEq] at walked
        exact .created dot up found walked.1.1 walked.1.2 walked.2.symm
      | some x =>
        cases x with
        | dir => exact .dir dot up found (ih (fs.walk_dir dot up found ▸ walked))
        | file =>
          rw [fs.walk_file dot up found, if_neg strict] at walked
          simp only [Option.ite_none_right_eq_some, Option.some.injEq] at walked
          exact walked.1 ▸ .file dot up found walked.2.symm
        | link target =>
          cases links with
          | zero =>
            rw [fs.walk_last_link dot up found, if_neg strict] at walked
            cases walked
          | succ links =>
            exact .link dot up found
              (fewer links (Nat.lt_succ_self _) (fs.walk_link dot up found ▸ walked))

theorem Finds.walk {m' : Lookup} (finds : fs.Finds m q links cur todo)
    (same : m = .existing ∨ m = m') : fs.walk m' links cur todo = some q := by
  induction finds with
  | done links => exact fs.walk_nil
  | dot dot on ih => rw [fs.walk_dot dot, ih]
  | up other up on ih => rw [fs.walk_up other up, ih]
  | dir other down found on ih => rw [fs.walk_dir other down found, ih]
  | file other down found ends => rw [fs.walk_file other down found, if_pos rfl, ends]
  | link other down found on ih => rw [fs.walk_link other down found, ih]
  | created other down found creates ends new =>
    rcases same with existing | rfl
    · exact absurd (existing.symm.trans creates) (by decide)
    · rw [fs.walk_missing other down found, if_neg (by rw [creates]; decide),
        if_pos ⟨creates, by simpa using ends⟩, new]

theorem Tidies.append (ns : List (List Char))
    (on : Tidies rest rest') : Tidies (ns ++ rest) (ns ++ rest') := by
  induction ns with
  | nil => exact on
  | cons n ns ih => exact .keep n ih

theorem Tidies.empty (tidies : Tidies rest rest')
    (ends : ∀ r ∈ rest, r = []) : ∀ r ∈ rest', r = [] := by
  induction tidies with
  | nil => exact ends
  | keep n on ih =>
    rw [forall_mem_cons] at ends ⊢
    exact ⟨ends.1, ih ends.2⟩
  | drop dot on ih => exact ih (forall_mem_cons.mp ends).2

theorem tidies_filter (todo : List (List Char)) :
    Tidies todo (todo.filter fun n => ¬(n = [] ∨ n = ['.'])) := by
  induction todo with
  | nil => exact .nil
  | cons n todo ih =>
    by_cases dot : n = [] ∨ n = ['.']
    · rw [filter_cons_of_neg (by rw [decide_eq_true_eq, not_not]; exact dot)]
      exact .drop dot ih
    · rw [filter_cons_of_pos (by rw [decide_eq_true_eq]; exact dot)]
      exact .keep n ih

theorem Finds.tidied {todo' : List (List Char)} (finds : fs.Finds m q links cur todo)
    (tidies : Tidies todo todo') : fs.Finds m q links cur todo' := by
  induction finds generalizing todo' with
  | done links =>
    cases tidies
    exact .done links
  | dot dot on ih =>
    cases tidies with
    | keep _ tidies => exact .dot dot (ih tidies)
    | drop _ tidies => exact ih tidies
  | up other up on ih =>
    cases tidies with
    | keep _ tidies => exact .up other up (ih tidies)
    | drop dot tidies => exact absurd dot other
  | dir other down found on ih =>
    cases tidies with
    | keep _ tidies => exact .dir other down found (ih tidies)
    | drop dot tidies => exact absurd dot other
  | file other down found ends =>
    cases tidies with
    | keep _ tidies =>
      cases tidies
      exact .file other down found ends
    | drop dot tidies => exact absurd dot other
  | link other down found on ih =>
    cases tidies with
    | keep _ tidies => exact .link other down found (ih (.append _ tidies))
    | drop dot tidies => exact absurd dot other
  | created other down found creates ends new =>
    cases tidies with
    | keep _ tidies => exact .created other down found creates (tidies.empty ends) new
    | drop dot tidies => exact absurd dot other

theorem dir_dropLast (dir : fs.node cur = some .dir) : fs.node cur.dropLast = some .dir := by
  induction cur using List.reverseRecOn with
  | nil => exact dir
  | append_singleton cur n _ =>
    rw [dropLast_concat]
    exact fs.nested cur n _ dir

theorem dir_target (dir : fs.node cur = some .dir) (target : List Char) :
    fs.node (if target.head? = some '/' then [] else cur) = some .dir := by
  split_ifs
  · exact fs.root
  · exact dir

theorem Finds.exists (finds : fs.Finds .existing q links cur todo)
    (dir : fs.node cur = some .dir) : fs.node q = some .dir ∨ fs.node q = some .file := by
  induction finds with
  | done links => exact .inl dir
  | dot _ _ ih => exact ih dir
  | up _ _ _ ih => exact ih (dir_dropLast dir)
  | dir _ _ found _ ih => exact ih found
  | file _ _ found ends => exact .inr (ends ▸ found)
  | link _ _ _ _ ih => exact ih (dir_target dir _)
  | created _ _ _ creates => cases creates

theorem Finds.append {d : Location} {todo : List (List Char)}
    (finds : fs.Finds .existing d links cur todo) (dir : fs.node cur = some .dir) :
    ∃ links', ∀ m more, more ≠ [] → fs.walk m links cur (todo ++ more) =
      if fs.node d = some .dir ∨ m = .lexical then fs.walk m links' d more else none := by
  induction finds with
  | done links => exact ⟨links, fun m more _ => by rw [if_pos (.inl dir), nil_append]⟩
  | dot dot _ ih =>
    obtain ⟨links', eq⟩ := ih dir
    exact ⟨links', fun m more goes => by rw [cons_append, fs.walk_dot dot, eq m more goes]⟩
  | up other up _ ih =>
    obtain ⟨links', eq⟩ := ih (dir_dropLast dir)
    exact ⟨links', fun m more goes => by rw [cons_append, fs.walk_up other up, eq m more goes]⟩
  | dir other down found _ ih =>
    obtain ⟨links', eq⟩ := ih found
    exact ⟨links', fun m more goes => by
      rw [cons_append, fs.walk_dir other down found, eq m more goes]⟩
  | @file links _ _ other down found ends =>
    refine ⟨links, fun m more goes => ?_⟩
    have leaf : ¬fs.node d = some .dir := by
      rw [ends, found]
      exact fun same => nomatch same
    rw [singleton_append, fs.walk_file other down found, if_neg goes, ← ends]
    simp [leaf]
  | link other down found _ ih =>
    obtain ⟨links', eq⟩ := ih (dir_target dir _)
    exact ⟨links', fun m more goes => by
      rw [cons_append, fs.walk_link other down found, ← append_assoc, eq m more goes]⟩
  | created _ _ _ creates => cases creates

theorem dir_of_longer {x : Node} {more : Location} (found : fs.node (q ++ more) = some x)
    (longer : more ≠ []) : fs.node q = some .dir := by
  induction more using List.reverseRecOn generalizing x with
  | nil => exact absurd rfl longer
  | append_singleton more n ih =>
    rw [← append_assoc] at found
    have parent := fs.nested _ n x found
    by_cases last : more = []
    · rwa [last, append_nil] at parent
    · exact ih parent last

theorem isName_of_mem {x : Node} (found : fs.node q = some x) (mem : n ∈ q) : IsName n := by
  obtain ⟨before, after, rfl⟩ := append_of_mem mem
  rw [← singleton_append, ← append_assoc] at found
  by_cases last : after = []
  · rw [last, append_nil] at found
    exact fs.names _ n x found
  · exact fs.names _ n _ (dir_of_longer found last)

theorem finds_self (cur : Location) {x : Node} (found : fs.node (cur ++ todo) = some x)
    (leaf : x = .dir ∨ x = .file) : fs.Finds .existing (cur ++ todo) links cur todo := by
  induction todo generalizing cur with
  | nil => exact (append_nil cur).symm ▸ .done links
  | cons n rest ih =>
    have name : IsName n := isName_of_mem found (by simp)
    have other : ¬(n = [] ∨ n = ['.']) := not_or.mpr ⟨name.ne_nil, name.ne_dot⟩
    by_cases last : rest = []
    · subst last
      rcases leaf with rfl | rfl
      · exact .dir other name.ne_dots found (.done links)
      · exact .file other name.ne_dots found rfl
    · rw [← singleton_append, ← append_assoc] at found ⊢
      exact .dir other name.ne_dots (dir_of_longer found last) (ih _ found)

end FileSystem
end Infera
