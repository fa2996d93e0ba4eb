import Infera.FileSystem
import Infera.Router.PyClient
import Infera.Sha256

/-! Where zones are put. A zone is found by walking the tree below the storage root for
directories whose name has the task's id as a field, and taking the highest attempt; a
subtask's zone goes into its parent's, validation materials beside the task's own. The
walk goes through what agents wrote, so an entry of theirs that is named like a zone is
found like one. `placement_blind_to_agents` says what agents may write for the placement
to depend on the system's directories alone. -/

namespace Infera.EnvMgr
open List Option

def tag (parts : List (List Char)) : List Char :=
  (Sha256.hexdigest ((['\x00'].intercalate parts).flatMap String.utf8EncodeChar)).take 8

inductive Author
  | system
  | agent
  deriving DecidableEq

/-- A directory below the storage root, or one elsewhere. -/
inductive Place
  | within (q : Location)
  | beyond (q : Location)
  deriving DecidableEq

def Place.child (name : List Char) : Place → Place
  | within q => within (q ++ [name])
  | beyond q => beyond (q ++ [name])

inductive Target
  | nowhere
  | file
  | dir (place : Place)

def Target.places : Target → List Place
  | dir place => [place]
  | _ => []

/-- The entries of a directory in the order they are listed. The system makes directories;
files and links are the agents'. -/
inductive Entries
  | done
  | file (name : List Char) (rest : Entries)
  | link (name : List Char) (target : Target) (rest : Entries)
  | dir (author : Author) (name : List Char) (inside rest : Entries)

inductive Item
  | file
  | link (target : Target)
  | dir (author : Author) (inside : Entries)

def Item.byAgent : Item → Bool
  | dir .system _ => false
  | _ => true

def Item.inside : Item → Entries
  | .dir _ inside => inside
  | _ => .done

/-- A directory or a link to one, and the directory it is in; `above` if an agent made that one. -/
structure Visit where
  dirpath : Location
  siblings : Entries
  name : List Char
  item : Item
  above : Bool

def Visit.byAgent (v : Visit) : Bool := v.above || v.item.byAgent

namespace Entries

def entry (name : List Char) : Entries → Option Item
  | done => none
  | file n rest => if n = name then some .file else rest.entry name
  | link n target rest => if n = name then some (.link target) else rest.entry name
  | dir author n inside rest => if n = name then some (.dir author inside) else rest.entry name

/-- The directory at a location, no link on the way. -/
def dirAt (tree : Entries) : Location → Option Entries
  | [] => some tree
  | name :: below =>
    match tree.entry name with
    | some (.dir _ inside) => inside.dirAt below
    | _ => none

def listed (dirpath : Location) (siblings : Entries) (above : Bool) : Entries → List Visit
  | done => []
  | file _ rest => listed dirpath siblings above rest
  | link name (.dir place) rest =>
    ⟨dirpath, siblings, name, .link (.dir place), above⟩ :: listed dirpath siblings above rest
  | link _ _ rest => listed dirpath siblings above rest
  | dir author name inside rest =>
    ⟨dirpath, siblings, name, .dir author inside, above⟩ :: listed dirpath siblings above rest

/-- The walk below a directory; links are listed and not entered. -/
def walkBelow (dirpath : Location) (above : Bool) : Entries → List Visit
  | done => []
  | file _ rest => walkBelow dirpath above rest
  | link _ _ rest => walkBelow dirpath above rest
  | dir author name inside rest =>
    let made := above || author = .agent
    listed (dirpath ++ [name]) inside made inside ++ walkBelow (dirpath ++ [name]) made inside ++
      walkBelow dirpath above rest

def walk (tree : Entries) : List Visit := listed [] tree false tree ++ walkBelow [] false tree

end Entries

namespace Entries
variable (tree : Entries) (place : Place) (content : Entries)

def contents : Place → Entries
  | .within q => (tree.dirAt q).getD .done
  | .beyond _ => .done

end Entries

namespace Entries

/-- The directories the system made, in those it made. -/
def system : Entries → Entries
  | done => done
  | file _ rest => rest.system
  | link _ _ rest => rest.system
  | dir .agent _ _ rest => rest.system
  | dir .system name inside rest => dir .system name inside.system rest.system

/-- A directory of this name is here or can be made. -/
def enterable (content : Entries) (name : List Char) : Bool :=
  match content.entry name with
  | none | some (.dir ..) | some (.link (.dir _)) => true
  | some _ => false

/-- `root` can be made here, or is here and no link, and so are its own directories. -/
def free (root : List Char) (subs : List (List Char)) (content : Entries) : Bool :=
  match content.entry root with
  | none => true
  | some (.dir _ inside) => subs.all inside.enterable
  | some _ => false

/-- The places that links lead to. -/
def targets : Entries → List Place
  | done => []
  | file _ rest => rest.targets
  | link _ target rest => target.places ++ rest.targets
  | dir _ _ inside rest => inside.targets ++ rest.targets

end Entries

def Item.targets : Item → List Place
  | .file => []
  | .link target => target.places
  | .dir _ inside => inside.targets

namespace Entries

end Entries

def Visit.system (v : Visit) : Visit :=
  { v with
    siblings := v.siblings.system
    item := match v.item with
      | .dir author inside => .dir author inside.system
      | item => item }

namespace Entries
variable {id root : List Char} {subs : List (List Char)} {s : Entries} (dirpath : Location)
  (tree : Entries) (place : Place)

def own (visits : List Visit) : List Visit := (visits.filter (!·.byAgent)).map Visit.system

section
variable (task : ZoneTask) (attempt : ℕ) (kinds : List DomainKind) (phase : List Char)

end

end Entries

end Infera.EnvMgr
