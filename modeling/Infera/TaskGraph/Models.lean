import Infera.TaskGraph.Resource

/-! Tasks, executions, handoff slots and the artefact store. There are two
version numbers for one artefact: a slot version is opened and sealed by the
agent that writes it, a store version is a directory that is allocated at
dispatch and published by the seal. An allocated directory without a manifest
is a hole, and holes are counted but never listed. -/

namespace Infera.TaskGraph

abbrev TaskId := ℕ
abbrev HandoffId := ℕ
abbrev AgentId := ℕ

inductive TaskStatus
  | waitingHandoff
  | waitingResource
  | inputValidating
  | running
  | outputValidating
  | stopping
  | succeeded
  | failed
  | suspended
  | cancelled
  deriving DecidableEq

namespace TaskStatus

def waiting : List TaskStatus := [.waitingHandoff, .waitingResource]
def resumable : List TaskStatus := [.failed, .suspended]
def phases : List TaskStatus := [.inputValidating, .running, .outputValidating]

def holding : List TaskStatus := [.inputValidating, .running, .outputValidating, .stopping]

def nextPhase : TaskStatus → Option TaskStatus
  | .inputValidating => some .running
  | .running => some .outputValidating
  | _ => none

theorem nextPhase_phase {status phase : TaskStatus} (next : status.nextPhase = some phase) :
    phase ∈ phases := by
  cases status <;> cases next <;> decide

variable {status : TaskStatus}

theorem holding_of_phase (phase : status ∈ phases) : status ∈ holding := by
  revert phase
  cases status <;> decide

theorem not_holding_of_queued (stays : status ∈ waiting ∨ status = .cancelled) :
    status ∉ holding := by
  revert stays
  cases status <;> decide

theorem not_holding_of_waiting (idle : status ∈ waiting) : status ∉ holding :=
  not_holding_of_queued (.inl idle)

end TaskStatus

inductive HandoffStatus
  | created
  | generating
  | valid
  | invalid
  deriving DecidableEq

structure HandoffVersion where
  version : ℕ
  status : HandoffStatus
  producerTaskId : Option TaskId
  producerAgentId : Option AgentId

structure Handoff where
  versions : List HandoffVersion
  nonempty : versions ≠ []

namespace Handoff

def declared (producer : TaskId) : Handoff := ⟨[⟨0, .created, some producer, none⟩], by simp⟩

variable (h : Handoff)

def latest : HandoffVersion := h.versions.getLast h.nonempty

def isLatestValid : Bool := h.latest.status = .valid

/-- A declared version is adopted, a sealed one gets a successor, an open one is refused. -/
def openNext (task : TaskId) (agent : AgentId) : Option Handoff :=
  match h.latest.status with
  | .generating => none
  | .created =>
    some ⟨h.versions.dropLast ++ [⟨h.latest.version, .generating, some task, some agent⟩], by simp⟩
  | .valid | .invalid =>
    some ⟨h.versions ++ [⟨h.versions.length, .generating, some task, some agent⟩], by simp⟩

def sealLatest (verdict : Bool) : Option Handoff :=
  if h.latest.status = .generating then
    some ⟨h.versions.dropLast ++
      [{ h.latest with status := if verdict then .valid else .invalid }], by simp⟩
  else none

end Handoff

variable (handoffs : Dict HandoffId Handoff)

def declare (ids : List HandoffId) (producer : TaskId) : Dict HandoffId Handoff :=
  ids.foldl (fun handoffs hid =>
    if handoffs.contains hid then handoffs else handoffs.set hid (.declared producer)) handoffs

def checkIfLatestValid (hid : HandoffId) : Bool :=
  (handoffs.get? hid).any (·.isLatestValid)

/-- What a published directory says of its producer. The attempt is not on disk. -/
structure Manifest where
  producer : TaskId
  attempt : AgentId
  deriving DecidableEq

/-- The version directories of each handoff, by number; one without a manifest is a hole. -/
structure FilesystemStore where
  versions : HandoffId → List (Option Manifest)

namespace FilesystemStore

variable (store : FilesystemStore) (hid : HandoffId)

def allocate : ℕ × FilesystemStore :=
  ((store.versions hid).length, ⟨Function.update store.versions hid (store.versions hid ++ [none])⟩)

def allocateAll (ids : List HandoffId) : Dict HandoffId ℕ × FilesystemStore :=
  ids.foldl (fun (pinned, store) hid =>
    let (version, store) := store.allocate hid
    (pinned.set hid version, store)) (.empty, store)

def listVersions : List ℕ :=
  ((store.versions hid).zipIdx.filter fun entry => entry.1.isSome).map Prod.snd

def latest : Option ℕ :=
  (store.listVersions hid).getLast?

/-- Publish a version in place. `none` is the wiring error: no such directory, or published
already. A refusal of the content leaves the hole. -/
def sealVersion (version : ℕ) (manifest : Manifest) (refused : Bool) : Option FilesystemStore :=
  match (store.versions hid)[version]? with
  | some none =>
    if refused then some store
    else some ⟨Function.update store.versions hid
      ((store.versions hid).set version (some manifest))⟩
  | _ => none

end FilesystemStore

/-- One attempt at running a task; it is open until it has an outcome. -/
structure Execution where
  attempt : ℕ
  agentId : AgentId
  inputVersions : Dict HandoffId ℕ
  outputVersions : Dict HandoffId ℕ
  outcome : Option TaskStatus

def Execution.isOpen (e : Execution) : Bool := e.outcome.isNone

structure Task where
  id : TaskId
  agentSpec : String
  inputs : List HandoffId
  outputs : List HandoffId
  resources : Dict String ℚ
  status : TaskStatus
  createdAt : ℕ
  expedited : Bool
  history : List Execution
  parent : Option TaskId
  /-- The closure of the task declares an expansion. -/
  hasSubgraph : Bool
  /-- The task ends the subgraph it is in. -/
  isEnd : Bool := true
  closure : Option String := none
  /-- The kind of each slot. -/
  kinds : Dict HandoffId String := .empty

namespace Task

variable (task : Task) (outcome : TaskStatus)

def current : Option Execution := task.history.getLast?

def isRunning : Bool := task.current.any (·.isOpen)

def pushExecution (agent : AgentId) (inputVersions outputVersions : Dict HandoffId ℕ) :
    Option Task :=
  if task.isRunning then none
  else some { task with
    history := task.history ++ [⟨task.history.length, agent, inputVersions, outputVersions, none⟩] }

def closeExecution (outcome : TaskStatus) : Option Task :=
  match task.current with
  | some top =>
    if top.isOpen then
      some { task with history := task.history.dropLast ++ [{ top with outcome := some outcome }] }
    else none
  | none => none

theorem closeExecution_isSome : (task.closeExecution outcome).isSome = task.isRunning := by
  unfold closeExecution isRunning
  cases task.current with
  | none => rfl
  | some top => cases h : top.isOpen <;> simp [h]

theorem closeExecution_status (status : TaskStatus) :
    ({ task with status } : Task).closeExecution outcome =
      (task.closeExecution outcome).map ({ · with status }) := by
  unfold closeExecution
  change (match task.current with | some top => _ | none => none) = _
  cases task.current with
  | none => rfl
  | some top =>
    dsimp only
    split_ifs <;> rfl

section
variable {task closed : Task} {outcome : TaskStatus}
  (closing : task.closeExecution outcome = some closed)
include closing

theorem closeExecution_eq_some :
    ∃ past top, task.history = past ++ [top] ∧ top.isOpen = true ∧
      closed = { task with history := past ++ [{ top with outcome := some outcome }] } := by
  unfold closeExecution at closing
  cases current : task.current with
  | none => simp [current] at closing
  | some top =>
    simp only [current] at closing
    split_ifs at closing with isOpen
    cases closing
    exact ⟨_, top, (List.dropLast_append_getLast? top current).symm, isOpen, rfl⟩

theorem isRunning_closed : closed.isRunning = false := by
  obtain ⟨past, top, -, -, rfl⟩ := closeExecution_eq_some closing
  simp [isRunning, Task.current, Execution.isOpen]

end

theorem closed_eq : ∃ history, (task.closeExecution outcome).getD task = { task with history } := by
  unfold closeExecution
  cases task.current with
  | none => exact ⟨task.history, rfl⟩
  | some top =>
    dsimp only
    split_ifs
    · exact ⟨_, rfl⟩
    · exact ⟨task.history, rfl⟩

theorem status_closed : ((task.closeExecution outcome).getD task).status = task.status := by
  obtain ⟨history, closed⟩ := task.closed_eq outcome
  rw [closed]

theorem resources_closed :
    ((task.closeExecution outcome).getD task).resources = task.resources := by
  obtain ⟨history, closed⟩ := task.closed_eq outcome
  rw [closed]

end Task
end Infera.TaskGraph
