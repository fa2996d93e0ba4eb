import Infera.Handoff.TreeDigest
import Infera.Dict

/-! The artefact store on a filesystem, one system call at a time. A version
directory with a manifest is published; without one it is a hole. `allocate`
wins a number by `mkdir` and then makes what is granted to the agent, `seal`
publishes in place by renaming the manifest, `put` fills a staging directory and
renames it. Calls run side by side, and a process may die between any two of
their operations. Handoffs have directories of their own, so the state of one
handoff is a `Directory` and the store is a family of them. -/

namespace Infera.Handoff

structure Manifest where
  digest : Bytes
  kind : String
  producer : ℕ

structure VersionDir where
  content : Option Entries
  claim : Bool
  verdicts : Bool
  /-- `.manifest.yaml.pending` -/
  pending : Option Manifest
  manifest : Option Manifest

namespace VersionDir

def made : VersionDir := ⟨none, false, false, none, none⟩

def isEmpty (v : VersionDir) : Bool :=
  v.content.isNone && !v.claim && !v.verdicts && v.pending.isNone && v.manifest.isNone

end VersionDir

structure Stage where
  content : Option Entries
  verdicts : Bool
  manifest : Option Manifest

/-- The kind of a handoff, with its two admission checks; a store may have none for it. -/
structure Kind where
  name : String
  admits : Entries → Bool

/-- A call that is under way, by the operation it does next. -/
inductive Call
  -- `allocate`
  | listing
  | claiming (n : ℕ)
  | making (n : ℕ)
  | granting (n : ℕ)
  -- `seal`
  | resolving (n producer : ℕ)
  | unpublished (n producer : ℕ)
  | admitting (n producer : ℕ)
  | digesting (n producer : ℕ)
  | judging (n producer : ℕ) (digest : Bytes)
  | writing (n producer : ℕ) (digest : Bytes)
  | publishing (n : ℕ)
  -- `put`
  | checking (producer : ℕ) (source : Entries)
  | guessing (producer : ℕ)
  | staging (producer n : ℕ)
  | copying (producer n : ℕ)
  | hashing (producer n : ℕ)
  | recording (producer n : ℕ) (digest : Bytes)
  | voting (n : ℕ)
  | moving (n : ℕ)
  | cleaning (n : ℕ)

def Call.isInitial : Call → Bool
  | .listing | .resolving .. | .checking .. => true
  | _ => false

/-- A seal of the version has taken the digest and has not ended. -/
def Call.hasDigestOf (n : ℕ) : Call → Bool
  | .judging m .. | .writing m .. | .publishing m => m = n
  | _ => false

structure Directory where
  versions : Dict ℕ VersionDir
  stages : Dict ℕ Stage
  calls : Dict ℕ Call
  /-- Numbers that `allocate` returned, or under which `put` published. -/
  handed : List ℕ
  allocated : List ℕ
  /-- Versions that a `seal` published. -/
  sealed : List ℕ

namespace Directory

def empty : Directory := ⟨.empty, .empty, .empty, [], [], []⟩

variable (d : Directory) (n : ℕ)

def setVersion (v : VersionDir) : Directory :=
  { d with versions := d.versions.set n v }

def setStage (stage : Stage) : Directory :=
  { d with stages := d.stages.set n stage }

def listVersions : List ℕ :=
  ((d.versions.items.filter fun entry => entry.2.manifest.isSome).map Prod.fst).insertionSort (· ≤ ·)

def latest : Option ℕ := d.listVersions.getLast?

def exists? : Bool := (d.versions.get? n).any (·.manifest.isSome)

/-- One above every version directory, holes included. -/
def nextGuess : ℕ := d.versions.keys.foldl (fun next n => max next (n + 1)) 0

abbrev Turn := Directory × Option Call

def ends : Turn := (d, none)

/-- `mkdir v<n>`: a number that is taken is passed over. -/
def claim : Turn :=
  if d.versions.contains n then (d, some (.claiming (n + 1)))
  else (d.setVersion n .made, some (.making n))

/-- `mkdir v<n>/content`, which raises if it is there. -/
def make : Turn :=
  match d.versions.get? n with
  | none => d.ends
  | some v =>
    if v.content.isSome then d.ends
    else (d.setVersion n { v with content := some .nil }, some (.granting n))

def grant : Turn :=
  match d.versions.get? n with
  | none => d.ends
  | some v =>
    if v.claim then d.ends
    else ends { d.setVersion n { v with claim := true } with
      handed := n :: d.handed, allocated := n :: d.allocated }

/-- A version that does not exist, or is published, is not sealed; neither is empty content or
content that is not admitted. -/
def admitVersion (kind : Kind) (d : Directory) (n producer : ℕ) : Turn :=
  match (d.versions.get? n).bind (·.content) with
  | none => d.ends
  | some content =>
    if content.isEmpty ∨ ¬kind.admits content then d.ends
    else (d, some (.digesting n producer))

/-- A tree with a special file raises. -/
def digestContent (n producer : ℕ) : Turn :=
  match (d.versions.get? n).bind (·.content) with
  | none => d.ends
  | some content => match treeDigest content with
    | none => d.ends
    | some digest => (d, some (.judging n producer digest))

def edit (change : VersionDir → VersionDir) (next : Call) : Turn :=
  match d.versions.get? n with
  | none => d.ends
  | some v => (d.setVersion n (change v), some next)

/-- Rename the pending manifest, which raises if there is none. -/
def publish : Turn :=
  match d.versions.get? n with
  | none => d.ends
  | some v => match v.pending with
    | none => d.ends
    | some manifest => ends { d.setVersion n { v with
        pending := none, manifest := some manifest } with sealed := n :: d.sealed }

/-- `mkdir .staging-v<n>`: a number that is being staged is passed over. -/
def stage (producer n : ℕ) : Turn :=
  if d.stages.contains n then (d, some (.staging producer (n + 1)))
  else (d.setStage n ⟨none, false, none⟩, some (.copying producer n))

def editStage (change : Stage → Stage) (next : Call) : Turn :=
  match d.stages.get? n with
  | none => (d, some (.cleaning n))
  | some stage => (d.setStage n (change stage), some next)

def digestStage (producer n : ℕ) : Turn :=
  match ((d.stages.get? n).bind (·.content)).bind treeDigest with
  | none => (d, some (.cleaning n))
  | some digest => (d, some (.recording producer n digest))

/-- Rename the staged version. A directory may be renamed onto an empty one, and onto no other. -/
def rename : Turn :=
  match d.stages.get? n with
  | none => (d, some (.cleaning n))
  | some stage =>
    if (d.versions.get? n).all (·.isEmpty) then
      ends { d.setVersion n ⟨stage.content, false, stage.verdicts, none, stage.manifest⟩ with
        stages := d.stages.erase n, handed := n :: d.handed }
    else (d, some (.cleaning n))

/-- What an operation does when the filesystem lets it down: `put` removes its stage and raises,
the other calls raise. -/
def raised : Call → Turn
  | .copying _ n | .hashing _ n | .recording _ n _ | .voting n | .moving n => (d, some (.cleaning n))
  | _ => d.ends

/-- The next operation of a call. A copy is made file by file: after each it may hold anything. -/
def turn (kind : Option Kind) (d : Directory) (copied : Entries) (more : Bool) : Call → Turn
  | .listing => (d, some (.claiming d.nextGuess))
  | .claiming n => d.claim n
  | .making n => d.make n
  | .granting n => d.grant n
  | .resolving n producer =>
    if kind.isSome ∧ d.versions.contains n then (d, some (.unpublished n producer)) else d.ends
  | .unpublished n producer =>
    if d.exists? n then d.ends else (d, some (.admitting n producer))
  | .admitting n producer => match kind with
    | none => d.ends
    | some kind => d.admitVersion kind n producer
  | .digesting n producer => d.digestContent n producer
  | .judging n producer digest =>
    d.edit n ({ · with verdicts := true }) (.writing n producer digest)
  | .writing n producer digest =>
    d.edit n ({ · with pending := some ⟨digest, (kind.map (·.name)).getD "", producer⟩ })
      (.publishing n)
  | .publishing n => d.publish n
  | .checking producer source => match kind with
    | none => d.ends
    | some kind => if kind.admits source then (d, some (.guessing producer)) else d.ends
  | .guessing producer => (d, some (.staging producer d.nextGuess))
  | .staging producer n => d.stage producer n
  | .copying producer n => d.editStage n ({ · with content := some copied })
      (if more then .copying producer n else .hashing producer n)
  | .hashing producer n => d.digestStage producer n
  | .recording producer n digest => d.editStage n
      ({ · with manifest := some ⟨digest, (kind.map (·.name)).getD "", producer⟩ }) (.voting n)
  | .voting n => d.editStage n ({ · with verdicts := true }) (.moving n)
  | .moving n => d.rename n
  | .cleaning n =>
    if more then d.editStage n ({ · with content := some copied }) (.cleaning n)
    else ends { d with stages := d.stages.erase n }

inductive Event
  | begin (id : ℕ) (call : Call)
  | turn (id : ℕ) (copied : Entries) (more fails : Bool)
  | crash (ids : List ℕ)
  | write (n : ℕ) (content : Entries)

def step (kind : Option Kind) (d : Directory) : Event → Directory
  | .begin id call =>
    if call.isInitial ∧ ¬d.calls.contains id then { d with calls := d.calls.set id call } else d
  | .turn id copied more fails => match d.calls.get? id with
    | none => d
    | some call =>
      let (d, next) := if fails then d.raised call else d.turn kind copied more call
      { d with calls := next.elim (d.calls.erase id) (d.calls.set id) }
  | .crash ids => { d with calls := d.calls.eraseAll ids }
  | .write n content => match d.versions.get? n with
    | none => d
    | some v => if v.content.isSome then d.setVersion n { v with content := some content } else d

/-- An agent does not write into a version that is published, nor into one whose seal has taken
the digest. -/
def Careful : Event → Prop
  | .write n _ => d.exists? n = false ∧ ∀ call ∈ d.calls.values, call.hasDigestOf n = false
  | _ => True

instance (d : Directory) : (e : Event) → Decidable (d.Careful e)
  | .write .. => instDecidableAnd
  | .begin .. | .turn .. | .crash _ => .isTrue trivial

end Directory

/-- One directory per handoff, and one kind. -/
structure FilesystemStore where
  kindFor : ℕ → Option Kind
  dirs : ℕ → Directory

namespace FilesystemStore

def Start (store : FilesystemStore) : Prop := ∀ hid, store.dirs hid = .empty

def Careful (store : FilesystemStore) (e : ℕ × Directory.Event) : Prop :=
  (store.dirs e.1).Careful e.2

instance (store : FilesystemStore) (e : ℕ × Directory.Event) : Decidable (store.Careful e) :=
  inferInstanceAs (Decidable ((store.dirs e.1).Careful e.2))

def step (store : FilesystemStore) (e : ℕ × Directory.Event) : FilesystemStore :=
  { store with
    dirs := Function.update store.dirs e.1 ((store.dirs e.1).step (store.kindFor e.1) e.2) }

end FilesystemStore
end Infera.Handoff
