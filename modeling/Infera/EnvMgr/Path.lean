import Infera.FileSystem
import Mathlib.Data.List.DropRight

/-! Containment in a zone, decided on resolved paths. A path whose last component
does not exist yet is resolved through its parent; a link that leads nowhere and a
loop exist and do not resolve, and nothing is said of them. The text comparison
keeps the separator, so a sibling whose name starts like the zone is not in it.
`contained_touches_inside` is the result: what opening or creating a contained path
reaches lies under the zone, whatever links there are. -/

namespace Infera.EnvMgr
open Location FileSystem List Option

/-- A pure path: empty components and dots are dropped, double dots are kept. -/
structure PurePath where
  absolute : Bool
  parts : List (List Char)
  deriving DecidableEq

namespace PurePath

def ofText (path : List Char) : PurePath where
  absolute := path.head? = some '/'
  parts := (components path).filter fun n => ¬(n = [] ∨ n = ['.'])

def parent (p : PurePath) : PurePath := { p with parts := p.parts.dropLast }

def name (p : PurePath) : List Char := p.parts.getLastD []

end PurePath

def joinPath (a b : List Char) : List Char :=
  if b.head? = some '/' then b
  else if a = [] ∨ a.getLast? = some '/' then a ++ b
  else a ++ '/' :: b

variable (fs : FileSystem) (p : PurePath)

def locate : Option Location :=
  if p.parts.any (·.contains '\x00') then none
  else fs.walk .existing maxLinks (fs.base p.absolute) p.parts

def resolveStrict : Option (List Char) :=
  (locate fs p).map Location.text

/-- Is there an entry at the path, be it a link that leads nowhere? -/
def lexists : Bool :=
  if p.parts = [] ∨ p.name = ['.', '.'] then (locate fs p).isSome
  else
    match locate fs p.parent with
    | none => false
    | some d => fs.node d = some .dir && (fs.node (d ++ [p.name])).isSome

def resolveForCheck (path : List Char) : Option (List Char) :=
  let p := PurePath.ofText path
  match resolveStrict fs p with
  | some resolved => some resolved
  | none =>
    if lexists fs p then none
    else
      match if p.parent = p then none else resolveStrict fs p.parent with
      | none => none
      | some parent =>
        if p.name ∈ [[], ['.'], ['.', '.']] ∨ '\x00' ∈ p.name then none
        else some (joinPath parent p.name)

def contained (path zone : List Char) : Bool :=
  match resolveForCheck fs path, resolveStrict fs (.ofText zone) with
  | some p, some z =>
    if z = ['/'] then ['/'].isPrefixOf p
    else
      let z := z.rdropWhile (· = '/')
      p = z || (z ++ ['/']).isPrefixOf p
  | _, _ => false

/-- Resolution that keeps what it cannot resolve. -/
def realpath (path : List Char) : List Char :=
  let p := PurePath.ofText path
  ((fs.walk .lexical maxLinks (fs.base p.absolute) p.parts).getD []).text

inductive PermissionError
  | outside (proposed root : List Char)

def anchorZoneRoot (proposed : Option (List Char)) (root : List Char) :
    Except PermissionError (List Char) :=
  match proposed with
  | none => .ok root
  | some proposed =>
    if !contained fs proposed root then .error (.outside proposed root)
    else .ok (if proposed = root then root else realpath fs proposed)

/-- What a check resolves: an existing object, or a new name in one that exists. -/
inductive Resolved (fs : FileSystem) (p : PurePath) : Location → Prop
  | existing {q} (finds : fs.Finds .existing q maxLinks (fs.base p.absolute) p.parts) :
      Resolved fs p q
  | new {d n} (parts : p.parts = p.parts.dropLast ++ [n]) (name : IsName n)
      (finds : fs.Finds .existing d maxLinks (fs.base p.absolute) p.parts.dropLast)
      (absent : fs.node (d ++ [n]) = none) : Resolved fs p (d ++ [n])

variable {fs : FileSystem} {p : PurePath} {path : List Char} {d q : Location}

theorem finds_of_locate (located : locate fs p = some q) :
    fs.Finds .existing q maxLinks (fs.base p.absolute) p.parts := by
  rw [locate, ite_none_left_eq_some] at located
  exact finds_of_walk (by decide) located.2

theorem isName_of_finds {links : ℕ} {absolute : Bool} {todo : List (List Char)}
    (finds : fs.Finds .existing q links (fs.base absolute) todo) : ∀ n ∈ q, IsName n := by
  intro n mem
  rcases finds.exists (fs.dir_base absolute) with found | found <;>
    exact isName_of_mem found mem

theorem getLast_text {c : Char} (inside : q ≠ []) (names : ∀ n ∈ q, IsName n)
    (last : q.text.getLast? = some c) : c ≠ '/' := by
  induction q using List.reverseRecOn with
  | nil => exact absurd rfl inside
  | append_singleton q n _ =>
    have name : IsName n := names n (by simp)
    have ends : (text (q ++ [n])).getLast? = n.getLast? := by
      obtain ⟨c, n, rfl⟩ := exists_cons_of_ne_nil name.ne_nil
      rw [text_concat]
      split_ifs
      · rw [getLast?_cons_cons]
      · rw [getLast?_append, getLast?_cons_cons,
          getLast?_eq_some_getLast (cons_ne_nil c n), some_or]
    rintro rfl
    exact name.whole (mem_of_getLast? (ends ▸ last))

theorem joinPath_text {n : List Char} (names : ∀ m ∈ d, IsName m) (name : IsName n) :
    joinPath d.text n = text (d ++ [n]) := by
  have relative : n.head? ≠ some '/' := fun first => name.whole (mem_of_head? first)
  rw [joinPath, if_neg relative, text_concat]
  by_cases root : d = []
  · simp [root, text]
  · have between : ¬(d.text = [] ∨ d.text.getLast? = some '/') := by
      rintro (empty | last)
      · obtain ⟨m, d, rfl⟩ := exists_cons_of_ne_nil root
        simp [text] at empty
      · exact getLast_text root names last rfl
    rw [if_neg between, if_neg root]

open PurePath

theorem resolved_of_check {text : List Char} (checks : resolveForCheck fs path = some text) :
    ∃ q, text = q.text ∧ Resolved fs (.ofText path) q := by
  unfold resolveForCheck at checks
  dsimp only at checks
  split at checks
  · rename_i resolved strict
    cases checks
    obtain ⟨q, located, rfl⟩ := map_eq_some_iff.mp strict
    exact ⟨q, rfl, .existing (finds_of_locate located)⟩
  · rw [ite_none_left_eq_some] at checks
    obtain ⟨missing, checks⟩ := checks
    split at checks
    · cases checks
    · rename_i parent strict
      rw [ite_none_left_eq_some] at strict checks
      obtain ⟨d, located, rfl⟩ := map_eq_some_iff.mp strict.2
      generalize eq : ofText path = p at *
      obtain ⟨n, parts⟩ : ∃ n, p.parts = p.parts.dropLast ++ [n] := by
        rcases eq_nil_or_concat p.parts with none | ⟨init, n, parts⟩
        · exact absurd (by rw [parent, none, dropLast_nil, ← none]) strict.1
        · exact ⟨n, by rw [parts, concat_eq_append, dropLast_concat]⟩
      have last : p.name = n := by rw [name, parts, getLastD_concat]
      rw [last] at checks
      have whole : '/' ∉ n := by
        have mem : n ∈ (ofText path).parts := by rw [eq, parts]; simp
        exact not_mem_of_mem_components (mem_of_mem_filter mem)
      have name : IsName n := by
        simp only [mem_cons, not_mem_nil, or_false, not_or] at checks
        obtain ⟨⟨⟨nonempty, dot, dots⟩, noNul⟩, -⟩ := checks
        exact ⟨nonempty, dot, dots, whole, noNul⟩
      have finds := finds_of_locate located
      refine ⟨d ++ [n], ?_, .new parts name finds ?_⟩
      · rw [← joinPath_text (isName_of_finds finds) name]
        exact (some.inj checks.2).symm
      · -- the parent resolves, so an entry of that name would have been seen
        rw [lexists, if_neg (by rw [last, parts]; simp [name.ne_dots]), located, last] at missing
        cases found : fs.node (d ++ [n]) with
        | none => rfl
        | some x => exact absurd (by simp [fs.nested d n x found, found]) missing

theorem Resolved.touches {q' : Location} (resolved : Resolved fs (.ofText path) q)
    (touched : fs.touches path = some q') : q' = q := by
  rw [FileSystem.touches, ite_none_left_eq_some] at touched
  have tidied := (finds_of_walk (by decide) touched.2).tidied (tidies_filter (components path))
  have walked := tidied.walk (.inr rfl)
  cases resolved with
  | existing finds => exact some.inj (walked.symm.trans (finds.walk (.inl rfl)))
  | @new d n parts name finds absent =>
    obtain ⟨links, goes⟩ := finds.append (fs.dir_base _)
    have other : ¬(n = [] ∨ n = ['.']) := not_or.mpr ⟨name.ne_nil, name.ne_dot⟩
    change fs.walk _ _ (fs.base (ofText path).absolute) (ofText path).parts = _ at walked
    rw [parts, goes _ _ (by simp), fs.walk_missing other name.ne_dots absent] at walked
    simp only [ite_none_right_eq_some] at walked
    exact (some.inj walked.2).symm

theorem Resolved.realpath (resolved : Resolved fs (.ofText path) q) :
    realpath fs path = q.text := by
  rw [EnvMgr.realpath]
  cases resolved with
  | existing finds => rw [finds.walk (.inl rfl), getD_some]
  | @new d n parts name finds absent =>
    obtain ⟨links, goes⟩ := finds.append (fs.dir_base _)
    have other : ¬(n = [] ∨ n = ['.']) := not_or.mpr ⟨name.ne_nil, name.ne_dot⟩
    rw [parts, goes _ _ (by simp), if_pos (.inr rfl), fs.walk_missing other name.ne_dots absent,
      if_pos rfl, fs.walk_nil, getD_some]

theorem Resolved.names (resolved : Resolved fs p q) : ∀ n ∈ q, IsName n := by
  cases resolved with
  | existing finds => exact isName_of_finds finds
  | new _ name finds =>
    intro m mem
    rcases mem_append.mp mem with above | last
    · exact isName_of_finds finds m above
    · exact mem_singleton.mp last ▸ name

theorem ofText_text (names : ∀ n ∈ q, IsName n) : ofText q.text = ⟨true, q⟩ := by
  by_cases root : q = []
  · subst root
    rfl
  · have cut := components_text root fun n mem => (names n mem).whole
    have first : q.text.head? = some '/' := by
      obtain ⟨n, q, rfl⟩ := exists_cons_of_ne_nil root
      rfl
    rw [ofText, cut, first, filter_cons_of_neg (by simp), filter_eq_self.mpr]
    · rfl
    · intro n mem
      simp [(names n mem).ne_nil, (names n mem).ne_dot]

theorem Resolved.self (resolved : Resolved fs p q) : Resolved fs (.ofText q.text) q := by
  rw [ofText_text resolved.names]
  cases resolved with
  | existing finds =>
    rcases finds.exists (fs.dir_base _) with found | found
    · exact .existing (finds_self [] found (.inl rfl))
    · exact .existing (finds_self [] found (.inr rfl))
  | @new d _ _ name finds absent =>
    have above : fs.Finds .existing d maxLinks (fs.base true) d := by
      rcases finds.exists (fs.dir_base _) with found | found
      · exact finds_self [] found (.inl rfl)
      · exact finds_self [] found (.inr rfl)
    exact .new (by simp) name (by simpa using above) absent

theorem prefix_of_contained {zone : List Char} (inside : contained fs path zone = true) :
    ∃ q z, Resolved fs (.ofText path) q ∧ locate fs (.ofText zone) = some z ∧ z <+: q := by
  unfold contained at inside
  split at inside
  · rename_i p text checks strict
    obtain ⟨q, rfl, resolved⟩ := resolved_of_check checks
    obtain ⟨z, located, rfl⟩ := map_eq_some_iff.mp strict
    refine ⟨q, z, resolved, located, ?_⟩
    have names := isName_of_finds (finds_of_locate located)
    by_cases root : z = []
    · exact root ▸ nil_prefix
    have proper : z.text ≠ ['/'] := by
      intro same
      have cut := components_text root fun n mem => (names n mem).whole
      rw [same] at cut
      have nil : [] ∈ z := (cons.inj cut).2 ▸ mem_singleton_self []
      exact (names [] nil).ne_nil rfl
    have trimmed : z.text.rdropWhile (· = '/') = z.text := by
      rw [rdropWhile_eq_self_iff]
      intro nonempty last
      exact getLast_text root names (getLast?_eq_some_getLast nonempty) (by simpa using last)
    simp only [proper, if_false, trimmed, Bool.or_eq_true, decide_eq_true_eq,
      isPrefixOf_iff_prefix] at inside
    rcases inside with same | longer
    · have both := congrArg parts (congrArg ofText same)
      rw [ofText_text resolved.names, ofText_text names] at both
      exact ⟨[], (append_nil z).trans both.symm⟩
    · exact prefix_of_text root (fun n mem => (names n mem).whole)
        (fun n mem => (resolved.names n mem).whole) longer
  · cases inside

/-- What opening or creating a contained path reaches is in the zone, and a working directory
that is anchored is in it too. -/
theorem contained_touches_inside (fs : FileSystem) :
    (∀ path zone, contained fs path zone = true →
      ∃ z, locate fs (.ofText zone) = some z ∧ ∀ q, fs.touches path = some q → z <+: q) ∧
    (∀ proposed root anchored, anchorZoneRoot fs proposed root = .ok anchored →
      ∀ z, locate fs (.ofText root) = some z → ∀ q, fs.touches anchored = some q → z <+: q) := by
  constructor
  · intro path zone inside
    obtain ⟨q, z, resolved, located, below⟩ := prefix_of_contained inside
    exact ⟨z, located, fun q' touched => resolved.touches touched ▸ below⟩
  · intro proposed root anchored answer z located q touched
    have own : anchored = root → z <+: q := by
      rintro rfl
      exact (Resolved.existing (finds_of_locate located)).touches touched ▸ prefix_refl _
    cases proposed with
    | none => exact own (Except.ok.inj answer).symm
    | some proposed =>
      rw [anchorZoneRoot] at answer
      split_ifs at answer with outside same
      · exact own (Except.ok.inj answer).symm
      · simp only [Bool.not_eq_true, Bool.not_eq_false'] at outside
        obtain ⟨q', z', resolved, located', below⟩ := prefix_of_contained outside
        cases located.symm.trans located'
        cases answer
        rw [resolved.realpath] at touched
        exact resolved.self.touches touched ▸ below

def oneZoneNode (q : Location) : Option Node :=
  if q = [] ∨ q = [['z']] then some .dir
  else if q = [['l']] then some (.link "z".toList)
  else none

theorem top_of_oneZoneNode {q : Location} {n : List Char} {x : Node}
    (found : oneZoneNode (q ++ [n]) = some x) : q = [] ∧ (n = ['z'] ∨ n = ['l']) := by
  unfold oneZoneNode at found
  split_ifs at found with zone link
  · obtain ⟨rfl, rfl⟩ : q = [] ∧ n = ['z'] := by simpa [List.append_eq_singleton_iff] using zone
    exact ⟨rfl, .inl rfl⟩
  · obtain ⟨rfl, rfl⟩ : q = [] ∧ n = ['l'] := by simpa [List.append_eq_singleton_iff] using link
    exact ⟨rfl, .inr rfl⟩

/-- A zone `/z` and a link `/l` to it. -/
def oneZone : FileSystem where
  node := oneZoneNode
  root := rfl
  names q n x found := by
    rcases (top_of_oneZoneNode found).2 with rfl | rfl <;>
      exact ⟨by decide, by decide, by decide, by decide, by decide⟩
  nested q n x found := by
    rw [(top_of_oneZoneNode found).1]
    rfl
  cwd := []
  cwdDir := rfl

theorem linked_file_inside_zone :
    contained oneZone "/l/./a".toList "/z".toList = true ∧
      oneZone.touches "/l/./a".toList = some [['z'], ['a']] ∧ [['z']] <+: [['z'], ['a']] := by
  have inside : contained oneZone "/l/./a".toList "/z".toList = true := by decide
  have touched : oneZone.touches "/l/./a".toList = some [['z'], ['a']] := by decide
  have zone : locate oneZone (.ofText "/z".toList) = some [['z']] := by decide
  obtain ⟨z, located, below⟩ := (contained_touches_inside oneZone).1 _ _ inside
  cases located.symm.trans zone
  exact ⟨inside, touched, below _ touched⟩

end Infera.EnvMgr
