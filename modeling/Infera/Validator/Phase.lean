import Infera.Validator.Report

/-! The phase runner. A validator is a leaf with a body, or a composite whose
members are leaves; it is called with every target of its kinds at once and
leaves one verdict for each. A body is a function of the targets it is given.
What it does is read from the verdict file of the zone, which the members of a
composite share. The history of a version keeps every verdict recorded against
it, and a validator whose every target has one may be skipped. -/

namespace Infera.Validator
open TaskGraph (TaskId HandoffId FilesystemStore)

inductive Cost
  | seconds
  | minutes
  | gpuHours

def Cost.rank : Cost → ℕ
  | .seconds => 0
  | .minutes => 1
  | .gpuHours => 2

structure ValidatorSpec where
  name : String
  inputs : List String
  dimension : Dimension
  strength : Strength
  cost : Cost
  members : List String
  reduce : Option String

namespace ValidatorSpec

def isComposite (spec : ValidatorSpec) : Bool := !spec.members.isEmpty

def before (a b : ValidatorSpec) : Prop :=
  (toLex (a.cost.rank, a.name) : ℕ ×ₗ String) ≤ toLex (b.cost.rank, b.name)

instance : DecidableRel before := fun a b =>
  inferInstanceAs
    (Decidable ((toLex (a.cost.rank, a.name) : ℕ ×ₗ String) ≤ toLex (b.cost.rank, b.name)))

end ValidatorSpec

/-- The registered specs; each names itself as it is registered. -/
structure ValidatorSpecRegistry where
  specs : Dict String ValidatorSpec
  named : ∀ name spec, specs.get? name = some spec → spec.name = name

abbrev Verdicts := HandoffId → Option Bool

inductive BodyResult
  | raises
  /-- The body ends and leaves the verdict file as it was. -/
  | silent
  | writes (file : Verdicts)

inductive Refusal
  | noHandoff (hid : HandoffId)
  | noClosure (name : String)
  | noValidator (name : String)
  | noReducer (name : String)
  | noBody (name : String)
  | bodyRaised (name : String)
  | noVerdictFile
  | noVerdictFor (hid : HandoffId)
  | omitted (name : String) (hids : List HandoffId)
  | uncovered (kinds : List String)
  | unpublished (target : Target)
  deriving DecidableEq

/-- What is fixed when the specs are loaded, and the kind each handoff is made with. -/
structure Catalogue where
  validatorSpecs : ValidatorSpecRegistry
  /-- `validators_for` of each closure -/
  closures : Dict String (List String)
  bodies : String → List Target → BodyResult
  typeOf : HandoffId → String

/-- What changes between phases: the published versions, and the last version of each slot. -/
structure Shelves where
  store : FilesystemStore
  slots : Dict HandoffId ℕ

/-- The verdicts recorded against each version, in the order recorded. -/
abbrev History := Target → List Verdict

structure Task where
  id : TaskId
  closure : Option String
  inputs : List HandoffId
  outputs : List HandoffId
  inputVersions : Dict HandoffId ℕ
  outputVersions : Dict HandoffId ℕ

def readVerdictFile (file : Option Verdicts) (declared : List Target) : Except Refusal Verdicts :=
  match file with
  | none => .error .noVerdictFile
  | some raw =>
    match declared.find? fun t => (raw t.handoffId).isNone with
    | some t => .error (.noVerdictFor t.handoffId)
    | none => .ok fun hid => if declared.any (·.handoffId = hid) then raw hid else none

namespace Catalogue
variable (cat : Catalogue) (shelves : Shelves) (task : Task) (history : History) (kind : PhaseKind)
  (spec : ValidatorSpec)

/-- Run the body and read the file it leaves, which is left for the next member too. -/
def leaf (file : Option Verdicts) (handoffs : List Target) :
    Except Refusal (Verdicts × Option Verdicts) :=
  match cat.bodies spec.name handoffs with
  | .raises => .error (.bodyRaised spec.name)
  | .silent => (readVerdictFile file handoffs).map (·, file)
  | .writes raw => (readVerdictFile (some raw) handoffs).map (·, some raw)

def covers (member : ValidatorSpec) (t : Target) : Bool := cat.typeOf t.handoffId ∈ member.inputs

/-- The members of a composite, which have to be leaves. -/
def membersOf : List String → Except Refusal (List ValidatorSpec)
  | [] => .ok []
  | name :: rest =>
    match cat.validatorSpecs.specs.get? name with
    | none => .error (.noValidator name)
    | some member =>
      if member.isComposite then .error (.noBody name)
      else (membersOf rest).map (member :: ·)

def grid (handoffs : List Target) :
    List ValidatorSpec → Option Verdicts → Except Refusal (List Verdicts)
  | [], _ => .ok []
  | member :: rest, file =>
    let share := handoffs.filter (cat.covers member)
    if share.isEmpty then (grid handoffs rest file).map ((fun _ => none) :: ·)
    else
      match cat.leaf member file share with
      | .error e => .error e
      | .ok (got, file) =>
        match share.filter fun t => (got t.handoffId).isNone with
        | [] => (grid handoffs rest file).map (got :: ·)
        | missing =>
          .error (.omitted member.name ((missing.map (·.handoffId)).insertionSort (· ≤ ·)))

/-- The reducer `all`, over the members that have a verdict on the handoff. -/
def reduceAll (rows : List Verdicts) (hid : HandoffId) : Bool :=
  (rows.filterMap fun row => row hid).all id

def composite (members : List ValidatorSpec) (handoffs : List Target) : Except Refusal Verdicts :=
  match cat.grid handoffs members none with
  | .error e => .error e
  | .ok rows =>
    match handoffs.filter fun t => !members.any fun m => cat.covers m t with
    | [] => .ok fun hid =>
      if handoffs.any (·.handoffId = hid) then some (reduceAll rows hid) else none
    | missing =>
      let kinds := (missing.map fun t => cat.typeOf t.handoffId).eraseDups
      .error (.uncovered (kinds.insertionSort (· ≤ ·)))

def call (handoffs : List Target) : Except Refusal Verdicts :=
  if spec.isComposite then
    match cat.membersOf spec.members with
    | .error e => .error e
    | .ok members =>
      if spec.reduce = some "all" then cat.composite members handoffs
      else .error (.noReducer (spec.reduce.getD ""))
  else (cat.leaf spec none handoffs).map Prod.fst

/-- A read reaches published versions only. -/
def readVerdicts (t : Target) : Except Refusal (List Verdict) :=
  if t.version ∈ shelves.store.listVersions t.handoffId then .ok (history t)
  else .error (.unpublished t)

def top (validator : String) (t : Target) : Except Refusal (Option VerdictRecord) :=
  (readVerdicts shelves history t).map fun verdicts =>
    (verdicts.reverse.find? (·.validator = validator)).map (⟨·, t⟩)

/-- Every target's last record, or none. -/
def priors (targets : List Target) (validator : String) :
    Except Refusal (Option (List VerdictRecord)) :=
  if targets.isEmpty then .ok none
  else (targets.mapM (top shelves history validator)).map fun found =>
    if found.any Option.isNone then none else some (found.filterMap id)

/-- The value of the verdicts is not consulted. -/
def maySkip (prior : Option (List VerdictRecord)) (level : StrictLevel) : Bool :=
  match prior with
  | none | some [] => false
  | some _ => level ≠ .strict

def bound : Except Refusal (List String) :=
  match task.closure with
  | none => .ok []
  | some name =>
    if name = "" then .ok []
    else
      match cat.closures.get? name with
      | none => .error (.noClosure name)
      | some validators => .ok validators

def select : Except Refusal (List ValidatorSpec) :=
  (cat.bound task).map fun names =>
    (names.filterMap cat.validatorSpecs.specs.get?).insertionSort ValidatorSpec.before

def handoffs (task : Task) : List HandoffId :=
  match kind with
  | .input => task.inputs
  | .output => task.outputs

/-- The store version this attempt published, else the last one published, else its pin. -/
def published (hid : HandoffId) : Option ℕ :=
  match task.outputVersions.get? hid with
  | some mine =>
    if mine ∈ shelves.store.listVersions hid then some mine
    else (shelves.store.latest hid).getD mine
  | none => shelves.store.latest hid

def target (task : Task) (hid : HandoffId) : Except Refusal Target :=
  let version := match kind with
    | .input => task.inputVersions.get? hid
    | .output => published shelves task hid
  match version.or (shelves.slots.get? hid) with
  | none => .error (.noHandoff hid)
  | some version => .ok ⟨hid, version⟩

def targets (task : Task) : Except Refusal (List Target) :=
  (handoffs kind task).mapM (target shelves kind task)

/-- The targets of the kinds the validator declares. -/
def mine (shelves : Shelves) (spec : ValidatorSpec) : List Target → Except Refusal (List Target)
  | [] => .ok []
  | t :: rest =>
    if shelves.slots.contains t.handoffId then
      (mine shelves spec rest).map fun rest => if cat.covers spec t then t :: rest else rest
    else .error (.noHandoff t.handoffId)

/-- Persist one verdict per target. What is recorded before an error stays recorded. -/
def record (shelves : Shelves) (task : Task) (spec : ValidatorSpec) (results : Verdicts) :
    List Target → History → History × Except Refusal (List VerdictRecord)
  | [], history => (history, .ok [])
  | t :: rest, history =>
    match results t.handoffId with
    | none => (history, .error (.noVerdictFor t.handoffId))
    | some result =>
      if t.version ∈ shelves.store.listVersions t.handoffId then
        let verdict : Verdict := ⟨spec.name, result, spec.strength, spec.dimension, task.id⟩
        let (history, records) := record shelves task spec results rest
          (Function.update history t (history t ++ [verdict]))
        (history, records.map (⟨verdict, t⟩ :: ·))
      else (history, .error (.unpublished t))

/-- Run the validator over its targets and persist what it says. -/
def invoke (mine : List Target)
    (history : History) : History × Except Refusal (List VerdictRecord) :=
  match cat.call spec mine.eraseDups with
  | .error e => (history, .error e)
  | .ok results => record shelves task spec results mine history

structure Progress where
  ran : List VerdictRecord
  reused : List VerdictRecord
  skipped : List SkipRecord

def runSelected (shelves : Shelves) (level : StrictLevel) (task : Task) (targets : List Target) :
    List ValidatorSpec → History → Progress → History × Except Refusal Progress
  | [], history, progress => (history, .ok progress)
  | spec :: rest, history, progress =>
    match cat.mine shelves spec targets with
    | .error e => (history, .error e)
    | .ok [] => runSelected shelves level task targets rest history progress
    | .ok (t :: more) =>
      match priors shelves history (t :: more) spec.name with
      | .error e => (history, .error e)
      | .ok prior =>
        if maySkip prior level then
          let reusedNow := prior.getD []
          runSelected shelves level task targets rest history
            { progress with
              reused := progress.reused ++ reusedNow
              skipped := progress.skipped ++
                [⟨spec.name, "already validated against this version", reusedNow.head?⟩] }
        else
          match cat.invoke shelves task spec (t :: more) history with
          | (history, .error e) => (history, .error e)
          | (history, .ok records) =>
            runSelected shelves level task targets rest history
              { progress with ran := progress.ran ++ records }

def runPhase (level : StrictLevel) (kind : PhaseKind) (task : Task)
    (history : History) : History × Except Refusal PhaseOutcome :=
  match cat.select task with
  | .error e => (history, .error e)
  | .ok selected =>
    if level = .none then
      (history, .ok (.nothingExpected kind
        (selected.map (⟨·.name, "phase switched off by --validation-strict-level", none⟩))))
    else if (handoffs kind task).isEmpty then (history, .ok (.nothingExpected kind []))
    else if selected.isEmpty then (history, .ok (.fold kind [] [] []))
    else
      match targets shelves kind task with
      | .error e => (history, .error e)
      | .ok targets =>
        let (history, progress) :=
          cat.runSelected shelves level task targets selected history ⟨[], [], []⟩
        (history, progress.map fun p => .fold kind p.ran p.reused p.skipped)

end Catalogue
end Infera.Validator
