import Infera.TaskGraph.Attempt
import Infera.TaskGraph.Dispatch
import Infera.TaskGraph.Unfold

/-! The running system: the scheduler, the threads of attempts, the monitors and
the durable state. Events interleave freely: calls from outside, one turn of a
thread, a monitor taking up a record or going on with the one it is at, and the
process ending and starting again. The records of one task are handled in order
and one at a time, as by a monitor of its own; a monitor with several tasks has
fewer interleavings. A slot that was changed and not written back is lagging on
disk. `finished` and `acted` are history variables. -/

namespace Infera.TaskGraph

inductive EventRecord
  /-- With the attempt that reported and the status of the task at that moment. -/
  | phaseDone (tid : TaskId) (agent : AgentId) (phase : TaskStatus)
  | subgraphDone (tid : TaskId) (fromTask : TaskId)
  deriving DecidableEq

namespace EventRecord

def tid : EventRecord → TaskId
  | .phaseDone tid _ _ => tid
  | .subgraphDone tid _ => tid

def isLast : EventRecord → Bool
  | .phaseDone _ _ phase => phase = .outputValidating
  | .subgraphDone _ _ => false

def isSubgraphDone : EventRecord → Bool
  | .phaseDone _ _ _ => false
  | .subgraphDone _ _ => true

end EventRecord

/-- What was finished, and by which attempt. -/
inductive Finish
  | work (work : Work) (agent : AgentId)
  /-- A subtask that ends the subgraph of the task passed its last phase. -/
  | subgraph (tid : TaskId)
  deriving DecidableEq

structure System where
  regs : Registries
  scheduler : Scheduler
  /-- The attempt of each task that the runner would wake. -/
  current : Dict TaskId AgentId
  attempts : Dict AgentId Attempt
  planned : List EventRecord
  /-- The tasks whose monitor has moved them, with the subtasks it has yet to submit. -/
  handling : Dict TaskId (List Task)
  /-- The slots that are not on disk as they are, with what is on disk. -/
  lagging : Dict HandoffId Handoff
  /-- New ids are above all in use. -/
  nextHandoff : HandoffId
  nextTask : TaskId
  finished : List Finish
  /-- The attempts that a `SUBGRAPH_DONE` took to their next phase. -/
  acted : List AgentId

def Registries.expands (regs : Registries) (closure : Option String) : Bool :=
  (closure.bind regs.closures.get?).any fun doc => !doc.task.subgraph.isEmpty

def Task.graph (task : Task) : GraphTask where
  id := task.id
  agentSpec := task.agentSpec
  inputs := task.inputs
  outputs := task.outputs
  dependsOn := []
  resources := task.resources.items
  parent := task.parent
  isStart := true
  isEnd := task.isEnd
  closure := task.closure
  permissions := []
  kinds := task.kinds
  monitorSpec := none

def GraphTask.task (regs : Registries) (t : GraphTask) : Task where
  id := t.id
  agentSpec := t.agentSpec
  inputs := t.inputs
  outputs := t.outputs
  resources := Dict.empty.assign t.resources
  status := .waitingHandoff
  createdAt := t.id
  expedited := false
  history := []
  parent := t.parent
  hasSubgraph := regs.expands t.closure
  isEnd := t.isEnd
  closure := t.closure
  kinds := t.kinds

namespace System

variable (s : System) (tid : TaskId) (hid : HandoffId) (agent : AgentId) (task : Task)
  (op : Scheduler.Op) (refused : List TaskId)

def adopt (scheduler : Scheduler) : System :=
  let started := scheduler.started.drop s.scheduler.started.length
  { s with
    scheduler
    current := s.current.assign started
    attempts := s.attempts.assign (started.map fun (tid, agent) => (agent, .fresh tid)) }

def perform (s : System) (op : Scheduler.Op) (refused : List TaskId) : Exit :=
  { s.scheduler with starts := refused.map (·, ⟨[], true⟩) }.perform op

def invoke : System :=
  s.adopt { (s.perform op refused).state with starts := [] }

/-- Another task comes into the table under the id; threads keep the one they have. -/
def detach : System :=
  match s.scheduler.tasks.get? tid with
  | none => s
  | some task => { s with
      attempts := s.attempts.mapValues fun _ (a : Attempt) =>
        if a.tid = tid ∧ a.detached.isNone then
          { a with detached := some { task with status := .cancelled } }
        else a }

def uses : System :=
  { s with
    nextTask := max s.nextTask (task.id + 1)
    nextHandoff := (task.inputs ++ task.outputs).foldl (fun next hid => max next (hid + 1))
      s.nextHandoff }

def submit (task : Task) (refused : List TaskId) : System × Bool :=
  let s := s.uses task
  let raised := (s.perform op refused).raised
  ((if raised then s else s.detach task.id).invoke op refused, raised)

/-- Whether a task expands is what the catalogue says of its closure. -/
def resolved : Task :=
  { task with hasSubgraph := s.regs.expands task.closure }

/-- Calls from outside. -/
inductive Call
  | submit (task : Task)
  | expedite (task : Task)
  | update (tid : TaskId) (fields : Task)
  | removeQueued (tid : TaskId)
  | resume (tid : TaskId)
  | cancel (tid : TaskId)
  | cancelDownstream (tid : TaskId)
  | fail (tid : TaskId)

def call (s : System) (call : Call) (refused : List TaskId) : System :=
  match call with
  | .submit task => (s.submit (.submit (s.resolved task)) task refused).1
  | .expedite task => (s.submit (.expedite (s.resolved task)) task refused).1
  | .update tid fields =>
    match s.scheduler.require tid TaskStatus.waiting with
    | none => s
    | some _ =>
      ((s.uses fields).detach tid).invoke (.update tid (s.resolved fields)) refused
  | .removeQueued tid => s.invoke (.removeQueued tid) refused
  | .resume tid => s.invoke (.resume tid) refused
  | .cancel tid => s.invoke (.cancel tid) refused
  | .cancelDownstream tid => s.invoke (.cancelDownstream tid) refused
  | .fail tid => s.invoke (.back (.done tid .failed .empty)) refused

def alter (f : Attempt → Attempt) : System :=
  match s.attempts.get? agent with
  | none => s
  | some a => { s with attempts := s.attempts.set agent (f a) }

/-- The runner halts the attempt, forgets it and acknowledges. -/
def stop (s : System) (tid : TaskId) (refused : List TaskId) : System :=
  match s.scheduler.require tid TaskStatus.phases with
  | none => s
  | some _ =>
    let halted := match s.current.get? tid with
      | none => s
      | some agent => s.alter agent fun a => { a with halted := true, wake := true }
    { halted with current := halted.current.erase tid }.invoke
      (.stop tid ⟨[(.stopped tid, false)], false⟩) refused

/-- Wake the attempt if a thread carries it, else take a thread. One that was released has
nothing left to do. -/
def carryOn : System :=
  match s.current.get? tid with
  | none => s
  | some agent => s.alter agent fun a =>
    if a.live && !a.halted then { a with wake := true }
    else { a with wake := false, halted := false, point := .begun }

def retry : System :=
  match s.current.get? tid with
  | none => s
  | some agent => s.alter agent fun a => { a with wake := true }

def notifyParent : System :=
  match task.parent with
  | none => s
  | some parent =>
    if s.scheduler.tasks.contains parent then
      { s with planned := s.planned ++ [.subgraphDone parent tid] }
    else s

def alreadyUnfolded : Bool :=
  s.scheduler.tasks.values.any fun task => task.parent = some tid

def expand : System :=
  match unfold s.regs task.graph (s.alreadyUnfolded tid) s.nextHandoff s.nextTask with
  | .error _ => s
  | .ok subtasks =>
    let subtasks := subtasks.map (·.task s.regs)
    subtasks.foldl uses { s with handling := s.handling.set tid subtasks }

/-- One transition; the zone of a non-leaf is placed before its subtasks exist. -/
def advance (record : EventRecord) (raises : Bool) : System :=
  match task.status.nextPhase with
  | none => s
  | some phase =>
    let moved := { s with
      scheduler := (s.scheduler.enterPhase tid phase).state
      acted := if record.isSubgraphDone then s.acted ++ (task.current.map (·.agentId)).toList
        else s.acted }
    if phase = .running ∧ task.hasSubgraph then
      if raises then moved else moved.expand tid task
    else { moved with handling := moved.handling.set tid [] }

/-- The monitor takes up the next record of a task. -/
def deliver (raises : Bool) : System :=
  if s.handling.contains tid then s
  else match s.planned.find? fun record => record.tid = tid with
  | none => s
  | some record =>
    let s := { s with planned := s.planned.eraseP fun record => record.tid = tid }
    match s.scheduler.tasks.get? tid with
    | none => s
    | some task =>
      if record.isLast then if task.isEnd && !raises then s.notifyParent tid task else s
      else s.advance tid task record raises

/-- The monitor submits the next subtask, and carries on when there is none left. -/
def proceed : System :=
  match s.handling.get? tid with
  | none => s
  | some [] => { s with handling := s.handling.erase tid }.carryOn tid
  | some (subtask :: rest) =>
    let (submitted, raised) := s.submit (.submit subtask) subtask refused
    { submitted with
      handling := if raised then s.handling.erase tid else s.handling.set tid rest }

def object (a : Attempt) : Option Task := a.detached.or (s.scheduler.tasks.get? a.tid)

def gate : Bool :=
  task.outputs.all fun hid => s.scheduler.store.any fun store => (store.latest hid).isSome

def setSlot (old new : Handoff) : System :=
  { s with
    scheduler := { s.scheduler with handoffs := s.scheduler.handoffs.set hid new }
    lagging := if s.lagging.contains hid then s.lagging else s.lagging.set hid old }

def changeSlot (change : Handoff → Option Handoff) : System × Bool :=
  match s.scheduler.handoffs.get? hid with
  | none => (s, true)
  | some old =>
    match change old with
    | none => (s, true)
    | some new => (s.setSlot hid old new, false)

def publish (version : ℕ) (manifest : Manifest) (refused : Bool) : System × Bool :=
  match s.scheduler.store with
  | none => (s, true)
  | some store =>
    match store.sealVersion hid version manifest refused with
    | none => (s, true)
    | some store => ({ s with scheduler := { s.scheduler with store := some store } }, false)

def report (tid : TaskId) (work : Work) : System :=
  { s with
    planned := s.planned ++ [.phaseDone tid agent task.status]
    finished := s.finished ++ .work work agent ::
      if work = .output ∧ task.isEnd then (task.parent.map Finish.subgraph).toList else [] }

def does (a : Attempt) (task : Task) (refused : List TaskId) : Deed → System × Bool
  | .nothing => (s, false)
  | .openSlot hid => s.changeSlot hid (·.openNext a.tid agent)
  | .sealSlot hid verdict => s.changeSlot hid (·.sealLatest verdict)
  | .persist hid => ({ s with lagging := s.lagging.erase hid }, false)
  | .publish hid version refused => s.publish hid version ⟨a.tid, agent⟩ refused
  | .report work => (s.report agent task a.tid work, false)
  | .complete status =>
    let op := .back (.done a.tid status a.usage)
    (s.invoke op refused, (s.perform op refused).raised)

def turn (s : System) (agent : AgentId) (answer : Answer) (refused : List TaskId) : System :=
  match s.attempts.get? agent with
  | none => s
  | some a =>
    match s.object a with
    | none => s
    | some task =>
      match a.turn task s.scheduler.store.isSome (s.gate task) answer with
      | none => s
      | some turn =>
        let (s', raised) := s.does agent a task refused turn.deed
        { s' with attempts := s'.attempts.set agent (if raised then turn.failed else turn.next) }

/-- The process ends, and another one starts over the durable state. -/
def restart (s : System) (specs : List String) (capacities : Dict String (PoolKind × ℚ))
    (refused : List TaskId) : System :=
  { s with
    scheduler := { s.scheduler with handoffs := s.scheduler.handoffs.assign s.lagging.items }
    current := .empty
    attempts := .empty
    planned := []
    handling := .empty
    lagging := .empty }.invoke (.restart specs capacities) refused

inductive Act
  | call (call : Call)
  | stop (tid : TaskId)
  | deliver (tid : TaskId) (raises : Bool)
  | proceed (tid : TaskId)
  | retry (tid : TaskId)
  | turn (agent : AgentId) (answer : Answer)
  | restart (specs : List String) (capacities : Dict String (PoolKind × ℚ))

structure Event where
  act : Act
  refused : List TaskId

def next (e : Event) : System :=
  match e.act with
  | .call call => s.call call e.refused
  | .stop tid => s.stop tid e.refused
  | .deliver tid raises => s.deliver tid raises
  | .proceed tid => s.proceed tid e.refused
  | .retry tid => s.retry tid
  | .turn agent answer => s.turn agent answer e.refused
  | .restart specs capacities => s.restart specs capacities e.refused

/-- A system that has run nothing yet, over an empty store or none. -/
structure Start (s : System) : Prop where
  tasks : s.scheduler.tasks = .empty
  records : s.scheduler.records = .empty
  pools : ∀ status, s.scheduler.pools status = []
  handoffs : s.scheduler.handoffs = .empty
  store : ∀ store, s.scheduler.store = some store → ∀ hid, store.versions hid = []
  starts : s.scheduler.starts = []
  started : s.scheduler.started = []
  current : s.current = .empty
  attempts : s.attempts = .empty
  planned : s.planned = []
  handling : s.handling = .empty
  lagging : s.lagging = .empty
  finished : s.finished = []
  acted : s.acted = []

end System
end Infera.TaskGraph
