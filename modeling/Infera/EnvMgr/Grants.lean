import Infera.Dict
import Infera.EnvMgr.Path

/-! From a grant to the locations it names. A grant names a handoff kind, and what it
gives is found at the moment a zone is built: every slot of that kind, input or output,
at the version this attempt has of it. A write grant therefore reaches an input of the
kind it names as well as the output, unless and only unless the kinds are kept apart. -/

namespace Infera.EnvMgr
open List

abbrev HandoffId := List Char

inductive Access
  | read
  | write
  deriving DecidableEq

def Access.value : Access → List Char
  | .read => "read".toList
  | .write => "write".toList

inductive Mode
  | readExec
  | readWrite
  deriving DecidableEq

structure Granted where
  path : List Char
  mode : Mode
  isOptional : Bool := false
  deriving DecidableEq

structure Grant where
  path : List Char
  access : Access
  kind : Option (List Char)

structure Task where
  inputs : List HandoffId
  outputs : List HandoffId
  kinds : Dict HandoffId (List Char)
  grants : List Grant

structure Execution where
  inputVersions : Dict HandoffId ℕ
  outputVersions : Dict HandoffId ℕ

/-- `handoffs` has the type of each handoff; `stored` lists the store root, if it can be listed. -/
structure Context where
  handoffs : Dict HandoffId (List Char)
  storeRoot : List Char
  stored : Option (List (List Char))
  fs : FileSystem

/-- What was unmet, and where it was looked for. -/
inductive UnresolvedGrant
  | noVersion (kind : List Char) (matched : List HandoffId)
  | noSlot (kind : List Char) (known : List (HandoffId × Option (List Char)))
  | notCanonical (path : List Char)
  | notItsRealpath (path : List Char)
  deriving DecidableEq

def modeFor (access : Access) : Mode :=
  if access.value.map Char.toLower = "write".toList then .readWrite else .readExec

def Execution.versions (execution : Execution) : Dict HandoffId ℕ :=
  execution.inputVersions.assign execution.outputVersions.items

def Task.slots (task : Task) : List HandoffId := task.inputs ++ task.outputs

def contentDir : List Char := "content".toList
def claimDir : List Char := "claim".toList

variable (ctx : Context)

/-- The directory called by the id, or ending in it; the first by name. -/
def handoffDir (hid : HandoffId) : List Char :=
  let names := (ctx.stored.getD []).insertionSort (· ≤ ·)
  match names.find? fun name => name = hid || ('.' :: hid).isSuffixOf name with
  | some name => joinPath ctx.storeRoot name
  | none => joinPath ctx.storeRoot ("handoff.".toList ++ hid)

def handoffVersionDir (hid : HandoffId) (version : ℕ) : List Char :=
  joinPath (handoffDir ctx hid) ('v' :: Nat.toDigits 10 version)

def versionPaths (versionDir : List Char) (mode : Mode) : List Granted :=
  let content := joinPath versionDir contentDir
  if mode = .readWrite then [⟨content, mode, false⟩, ⟨joinPath versionDir claimDir, mode, false⟩]
  else [⟨content, mode, false⟩]

/-- Is a slot declared as this kind? Without declarations there is no telling. -/
def participates (task : Task) (kind : List Char) : Bool :=
  task.kinds.items.isEmpty || task.kinds.values.contains kind

def why (task : Task) (kind : List Char) (matched : List HandoffId) : UnresolvedGrant :=
  if matched ≠ [] then .noVersion kind matched
  else .noSlot kind (task.slots.map fun hid => (hid, ctx.handoffs.get? hid))

local instance lawfulText : LawfulBEq (List Char) := inferInstance

/-- Is the text already its own canonical form? -/
def canonicalSyntax (path : List Char) : Bool :=
  if path = [] then false
  else if path.any ("\x00*?[]".toList.contains ·) then false
  else if path.head? ≠ some '/' then false
  else if path = ['/'] then true
  else if path.getLast? = some '/' then false
  else (components path).tail.all fun s => s ∉ [[], ['.'], ['.', '.']]

def canonicalHere (fs : FileSystem) (path : List Char) : Bool :=
  canonicalSyntax path && resolveStrict fs (.ofText path) = some path

def literal (grant : Grant) (mode : Mode) : Except UnresolvedGrant (List Granted) :=
  if !canonicalSyntax grant.path then .error (.notCanonical grant.path)
  else if (locate ctx.fs (.ofText grant.path)).isSome && !canonicalHere ctx.fs grant.path then
    .error (.notItsRealpath grant.path)
  else .ok [⟨grant.path, mode, false⟩]

def resolve (grant : Grant) (task : Task) (execution : Execution) (ctx : Context) :
    Except UnresolvedGrant (List Granted) :=
  let mode := modeFor grant.access
  match grant.kind with
  | none | some [] => literal ctx grant mode
  | some kind =>
    let matched := task.slots.filter fun hid => ctx.handoffs.get? hid = some kind
    let out := matched.flatMap fun hid =>
      match execution.versions.get? hid with
      | none => []
      | some version => versionPaths (handoffVersionDir ctx hid version) mode
    if out = [] then
      if !participates task kind then .ok [] else .error (why ctx task kind matched)
    else .ok out

/-- Every grant in turn; without enforcement one that does not resolve is passed over. -/
def resolveEach (task : Task) (execution : Execution) (ctx : Context) (enforce : Bool) :
    List Grant → Except UnresolvedGrant (List Granted)
  | [] => .ok []
  | grant :: rest =>
    match resolve grant task execution ctx with
    | .ok granted => (resolveEach task execution ctx enforce rest).map (granted ++ ·)
    | .error err => if enforce then .error err else resolveEach task execution ctx enforce rest

def resolveAll (task : Task) (execution : Execution) (ctx : Context) (enforce : Bool) :
    Except UnresolvedGrant (List Granted) :=
  resolveEach task execution ctx enforce task.grants

/-- The content and claim directories of the versions this attempt is to write. -/
def ownPaths (execution : Execution) (ctx : Context) : List (List Char) :=
  execution.outputVersions.items.flatMap fun (hid, version) =>
    [joinPath (handoffVersionDir ctx hid version) contentDir,
      joinPath (handoffVersionDir ctx hid version) claimDir]

/-- A slot of a kind that may be written has an output version if it has an input version, or its
input version is stored where an output version is. -/
def Separate (task : Task) (execution : Execution) (ctx : Context) : Prop :=
  ∀ grant ∈ task.grants, modeFor grant.access = .readWrite →
    ∀ hid ∈ task.slots, ctx.handoffs.get? hid = grant.kind →
      ∀ read ∈ execution.inputVersions.get? hid, execution.outputVersions.contains hid = true ∨
        ∃ output ∈ execution.outputVersions.items,
          handoffVersionDir ctx output.1 output.2 = handoffVersionDir ctx hid read

instance (task : Task) (execution : Execution) (ctx : Context) :
    Decidable (Separate task execution ctx) := by
  unfold Separate
  infer_instance

variable {task : Task} {execution : Execution} {ctx : Context} {enforce : Bool}
  {granted : List Granted} {g : Granted} (outputKind : List Char)

theorem mem_resolveEach {grants : List Grant}
    (resolves : resolveEach task execution ctx enforce grants = .ok granted) :
    g ∈ granted ↔
      ∃ grant ∈ grants, ∃ own, resolve grant task execution ctx = .ok own ∧ g ∈ own := by
  induction grants generalizing granted with
  | nil =>
    cases resolves
    simp
  | cons grant rest ih =>
    rw [resolveEach] at resolves
    split at resolves
    · rename_i own first
      cases more : resolveEach task execution ctx enforce rest with
      | error err => simp [more, Except.map] at resolves
      | ok out =>
        simp only [more, Except.map, Except.ok.injEq] at resolves
        simp [← resolves, ih more, first]
    · rename_i err first
      split_ifs at resolves
      simp [ih resolves, first]

theorem slot_of_resolve {grant : Grant} {kind : List Char} (named : grant.kind = some kind)
    (nonempty : kind ≠ []) (resolves : resolve grant task execution ctx = .ok granted)
    (mem : g ∈ granted) : ∃ hid ∈ task.slots, ctx.handoffs.get? hid = some kind ∧
      ∃ version, execution.versions.get? hid = some version ∧
        g ∈ versionPaths (handoffVersionDir ctx hid version) (modeFor grant.access) := by
  simp only [resolve, named] at resolves
  split_ifs at resolves
  · cases resolves
    cases mem
  · cases resolves
    obtain ⟨hid, matched, paths⟩ := mem_flatMap.mp mem
    rw [mem_filter, decide_eq_true_eq] at matched
    refine ⟨hid, matched.1, matched.2, ?_⟩
    split at paths
    · cases paths
    · rename_i version found
      exact ⟨version, found, paths⟩

theorem mode_of_mem_versionPaths {dir : List Char} {mode : Mode} (mem : g ∈ versionPaths dir mode) :
    g.mode = mode ∧ (g.path = joinPath dir contentDir ∨ g.path = joinPath dir claimDir) := by
  unfold versionPaths at mem
  split_ifs at mem <;> simp at mem
  · rcases mem with rfl | rfl <;> simp
  · simp [mem]

theorem resolve_of_slot {grant : Grant} {kind : List Char} (named : grant.kind = some kind)
    (nonempty : kind ≠ []) {hid : HandoffId} (slot : hid ∈ task.slots)
    (typed : ctx.handoffs.get? hid = some kind) {version : ℕ}
    (pinned : execution.versions.get? hid = some version) :
    ∃ own, resolve grant task execution ctx = .ok own ∧
      ∀ g ∈ versionPaths (handoffVersionDir ctx hid version) (modeFor grant.access), g ∈ own := by
  set out := (task.slots.filter fun hid => ctx.handoffs.get? hid = some kind).flatMap fun hid =>
    match execution.versions.get? hid with
    | none => []
    | some version => versionPaths (handoffVersionDir ctx hid version) (modeFor grant.access)
    with all
  have paths : ∀ g ∈ versionPaths (handoffVersionDir ctx hid version) (modeFor grant.access),
      g ∈ out := by
    intro g mem
    exact mem_flatMap.mpr
      ⟨hid, mem_filter.mpr ⟨slot, by simpa using typed⟩, by simpa [pinned] using mem⟩
  have some : out ≠ [] := by
    refine ne_nil_of_mem (paths ⟨joinPath (handoffVersionDir ctx hid version) contentDir,
      modeFor grant.access, false⟩ ?_)
    unfold versionPaths
    split_ifs <;> simp
  refine ⟨out, ?_, paths⟩
  simp only [resolve, named]
  rw [← all, if_neg some]

/-- A version directory ends in its number, so what is joined to it comes behind a slash. -/
theorem joinPath_versionDir (hid : HandoffId) (version : ℕ) {name : List Char}
    (relative : name.head? ≠ some '/') : joinPath (handoffVersionDir ctx hid version) name =
      handoffVersionDir ctx hid version ++ '/' :: name := by
  obtain ⟨parent, dir⟩ : ∃ parent, handoffVersionDir ctx hid version =
      parent ++ 'v' :: Nat.toDigits 10 version := by
    unfold handoffVersionDir joinPath
    split_ifs with absolute
    · cases absolute
    · exact ⟨_, rfl⟩
    · exact ⟨_, (append_cons ..).trans (by rw [append_cons])⟩
  have last : (handoffVersionDir ctx hid version).getLast? ≠ some '/' := by
    intro slash
    rw [dir, getLast?_append_of_ne_nil _ (cons_ne_nil _ _)] at slash
    rcases mem_cons.mp (mem_of_getLast? slash) with v | digit
    · exact absurd v (by decide)
    · exact absurd (Nat.isDigit_of_mem_toDigits (by decide) (by decide) digit) (by decide)
  rw [joinPath, if_neg relative, if_neg]
  rintro (empty | slash)
  · simp [dir] at empty
  · exact last slash

/-- What is granted for writing is what this attempt is to write, if grants are refused or the kinds
are kept apart, and only then. -/
theorem writable_paths_own (task : Task) (execution : Execution) (ctx : Context) (enforce : Bool)
    (named : ∀ grant ∈ task.grants, grant.kind ≠ none ∧ grant.kind ≠ some []) :
    (∀ granted, resolveAll task execution ctx enforce = .ok granted →
      ∀ g ∈ granted, g.mode = .readWrite → g.path ∈ ownPaths execution ctx) ↔
    (∃ err, resolveAll task execution ctx enforce = .error err) ∨ Separate task execution ctx := by
  constructor
  · intro own
    cases resolves : resolveAll task execution ctx enforce with
    | error err => exact .inl ⟨err, rfl⟩
    | ok granted =>
      refine .inr fun grant listed writes hid slot typed read input => ?_
      refine or_iff_not_imp_left.mpr fun unwritten => ?_
      obtain ⟨kind, isKind⟩ := Option.ne_none_iff_exists'.mp (named grant listed).1
      have nonempty : kind ≠ [] := fun empty => (named grant listed).2 (empty ▸ isKind)
      have pinned : execution.versions.get? hid = some read := by
        refine (Dict.get?_assign_of_not_mem fun v mem => unwritten ?_).trans input
        rw [Dict.contains, (Dict.get?_eq_some_iff ..).mpr mem]
        rfl
      obtain ⟨paths, resolved, given⟩ := resolve_of_slot isKind nonempty slot
        (typed.trans isKind) pinned
      have content :
          ⟨joinPath (handoffVersionDir ctx hid read) contentDir, .readWrite, false⟩ ∈ granted :=
        (mem_resolveEach resolves).mpr
          ⟨grant, listed, paths, resolved, given _ (by simp [versionPaths, writes])⟩
      obtain ⟨output, written, same⟩ := mem_flatMap.mp (own granted resolves _ content rfl)
      refine ⟨output, written, ?_⟩
      simp only [mem_cons, not_mem_nil, or_false,
        joinPath_versionDir _ _ (show contentDir.head? ≠ some '/' by decide),
        joinPath_versionDir _ _ (show claimDir.head? ≠ some '/' by decide)] at same
      rcases same with content | claim
      · exact (append_cancel_right content).symm
      · have last := congrArg getLast? claim
        simp only [getLast?_append_of_ne_nil _ (cons_ne_nil _ _)] at last
        exact absurd last (by decide)
  · rintro (⟨err, refused⟩ | separate) granted resolves
    · cases refused.symm.trans resolves
    intro g mem writes
    obtain ⟨grant, listed, own, resolved, mem⟩ := (mem_resolveEach resolves).mp mem
    obtain ⟨kind, isKind⟩ := Option.ne_none_iff_exists'.mp (named grant listed).1
    have nonempty : kind ≠ [] := fun empty => (named grant listed).2 (empty ▸ isKind)
    obtain ⟨hid, slot, typed, version, pinned, paths⟩ := slot_of_resolve isKind nonempty resolved mem
    obtain ⟨mode, path⟩ := mode_of_mem_versionPaths paths
    have output : ∃ output ∈ execution.outputVersions.items,
        handoffVersionDir ctx output.1 output.2 = handoffVersionDir ctx hid version := by
      rcases Dict.get?_assign_eq_some pinned with written | read
      · exact ⟨_, written, rfl⟩
      · rcases separate grant listed (mode.symm.trans writes) hid slot (typed.trans isKind.symm)
          version read with both | elsewhere
        · obtain ⟨own, found⟩ := Option.isSome_iff_exists.mp both
          have mem := (execution.outputVersions.get?_eq_some_iff hid own).mp found
          have latest : execution.versions.get? hid = some own :=
            Dict.get?_assign_of_mem mem fun v' mem' => by
              rw [← Dict.get?_eq_some_iff, found] at mem'
              exact (Option.some.inj mem').symm
          exact ⟨_, mem, by rw [Option.some.inj (pinned.symm.trans latest)]⟩
        · exact elsewhere
    obtain ⟨output, written, same⟩ := output
    exact mem_flatMap.mpr ⟨output, written, by simpa [same] using path⟩

def reviser : Task where
  inputs := [['a']]
  outputs := [['b']]
  kinds := ⟨[(['a'], "draft".toList), (['b'], outputKind)], show [['a'], ['b']].Nodup by decide⟩
  grants := [⟨[], .write, some outputKind⟩]

def desk : Context where
  handoffs := (reviser outputKind).kinds
  storeRoot := "/s".toList
  stored := some ["handoff.k.a".toList, "handoff.k.b".toList]
  fs := oneZone

def firstAttempt : Execution := ⟨⟨[(['a'], 3)], by decide⟩, ⟨[(['b'], 0)], by decide⟩⟩

theorem reviewed_draft_not_written :
    resolveAll (reviser "review".toList) firstAttempt (desk "review".toList) true =
        .ok [⟨"/s/handoff.k.b/v0/content".toList, .readWrite, false⟩,
          ⟨"/s/handoff.k.b/v0/claim".toList, .readWrite, false⟩] ∧
      "/s/handoff.k.b/v0/content".toList ∈ ownPaths firstAttempt (desk "review".toList) := by
  have resolves : resolveAll (reviser "review".toList) firstAttempt (desk "review".toList) true =
      .ok [⟨"/s/handoff.k.b/v0/content".toList, .readWrite, false⟩,
        ⟨"/s/handoff.k.b/v0/claim".toList, .readWrite, false⟩] := by decide
  exact ⟨resolves, (writable_paths_own _ _ _ true (by decide)).mpr (.inr (by decide)) _ resolves _
    mem_cons_self rfl⟩

/-- A task that revises a draft into a draft may write the version it reads. -/
theorem revised_draft_written :
    resolveAll (reviser "draft".toList) firstAttempt (desk "draft".toList) true =
        .ok [⟨"/s/handoff.k.a/v3/content".toList, .readWrite, false⟩,
          ⟨"/s/handoff.k.a/v3/claim".toList, .readWrite, false⟩,
          ⟨"/s/handoff.k.b/v0/content".toList, .readWrite, false⟩,
          ⟨"/s/handoff.k.b/v0/claim".toList, .readWrite, false⟩] ∧
      "/s/handoff.k.a/v3/content".toList ∉ ownPaths firstAttempt (desk "draft".toList) := by
  decide

end Infera.EnvMgr
