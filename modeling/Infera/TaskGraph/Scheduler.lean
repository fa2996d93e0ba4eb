import Infera.TaskGraph.Models

/-! The scheduler. Every call runs under one lock, so a call is one step; what
runs inside it is the runner, which may call back from `start` and `stop` before
they return. The runner is given as scripts: the calls it makes, whether it
catches what they raise, and whether it raises in the end. `try_dispatch` is an
argument of the calls: at the top it is the dispatch loop, inside a launch it
only asks the loop for another pass. -/

namespace Infera.TaskGraph

inductive Policy
  | fifo
  | depthFirst

/-- Expedited first, then by submission, or by promotion with the latest first. -/
def Policy.select : Policy → List Task → List TaskId
  | .fifo, eligible => (eligible.insertionSort fun a b =>
      (a.expedited ∧ ¬b.expedited) ∨ (a.expedited = b.expedited ∧ a.createdAt ≤ b.createdAt)).map
        (·.id)
  | .depthFirst, eligible =>
      (eligible.reverse.insertionSort fun a b => b.expedited → a.expedited).map (·.id)

/-- What a runner does while the scheduler waits for it. `write` stands for everything agents do
to the slots and the store. -/
inductive Callback
  | done (tid : TaskId) (status : TaskStatus) (usage : Dict String ℚ)
  | stopped (tid : TaskId)
  | enterPhase (tid : TaskId) (phase : TaskStatus)
  | write (handoffs : Dict HandoffId Handoff) (store : Option FilesystemStore)

structure Script where
  /-- Each call, and whether the runner catches what it raises. -/
  calls : List (Callback × Bool)
  raises : Bool

def Script.quiet : Script := ⟨[], false⟩

structure Scheduler where
  policy : Policy
  specs : List String
  nextAgent : AgentId
  tasks : Dict TaskId Task
  records : Dict TaskId Task
  handoffs : Dict HandoffId Handoff
  /-- A system may be assembled without an artefact store. -/
  store : Option FilesystemStore
  resources : Resources
  /-- The index: per status, in order of promotion. -/
  pools : TaskStatus → List TaskId
  cascade : List TaskId
  dispatchAgain : Bool
  /-- What the runner will do at its next starts. -/
  starts : List (TaskId × Script)
  /-- The attempts whose `start` returned. -/
  started : List (TaskId × AgentId)

structure Exit where
  state : Scheduler
  raised : Bool

namespace Scheduler

variable (s : Scheduler) (tid : TaskId) (task : Task)

def returns : Exit := ⟨s, false⟩
def raises : Exit := ⟨s, true⟩

def ready : Bool :=
  task.inputs.all (checkIfLatestValid s.handoffs)

def landing : TaskStatus :=
  if s.ready task then .waitingResource else .waitingHandoff

def setTask : Scheduler :=
  { s with tasks := s.tasks.set tid task }

/-- The single writer of statuses and pools. A task's position changes only when its pool does,
and its record is written only when its status changes. -/
def move (status : TaskStatus) : Scheduler :=
  let s := { s with
    pools other :=
      if other = status then
        if tid ∈ s.pools status then s.pools status else s.pools status ++ [tid]
      else (s.pools other).filter (· ≠ tid) }
  match s.tasks.get? tid with
  | none => s
  | some task => { s.setTask tid { task with status } with
      records := if task.status = status then s.records
        else s.records.set tid { task with status } }

def require (allowed : List TaskStatus) : Option Task :=
  (s.tasks.get? tid).filter fun task => task.status ∈ allowed

/-- Give every lease back, then book the spend against pools the task never declared. -/
def release (usage : Option (Dict String ℚ)) : Scheduler :=
  let resources := s.resources.giveBackAll (fun name => usage.bind (·.get? name))
    task.resources.items
  { s with
    resources := (usage.elim [] Dict.items).foldl (fun r spent =>
      if task.resources.contains spent.1 then r else r.charge spent.1 spent.2) resources }

section
variable (tryDispatch : Scheduler → Scheduler) (s : Scheduler) (tid : TaskId)

/-- End the open attempt of a task whose status allows it. -/
def close
    (allowed : List TaskStatus) (usage : Option (Dict String ℚ)) (outcome : TaskStatus) : Exit :=
  match s.require tid allowed with
  | none => s.raises
  | some task =>
    let s := s.release task usage
    match task.closeExecution outcome with
    | none => s.raises
    | some task => (tryDispatch ((s.setTask tid task).move tid outcome)).returns

def onTaskDone (status : TaskStatus) (usage : Dict String ℚ) : Exit :=
  s.close tryDispatch tid TaskStatus.phases (some usage) status

def onStopped : Exit :=
  s.close tryDispatch tid [.stopping] none .suspended

end

def enterPhase (phase : TaskStatus) : Exit :=
  match s.require tid TaskStatus.phases with
  | none => s.raises
  | some task =>
    if task.status.nextPhase = some phase then (s.move tid phase).returns else s.raises

def callBack (tryDispatch : Scheduler → Scheduler) (s : Scheduler) : Callback → Exit
  | .done tid status usage => s.onTaskDone tryDispatch tid status usage
  | .stopped tid => s.onStopped tryDispatch tid
  | .enterPhase tid phase => s.enterPhase tid phase
  | .write handoffs store => returns { s with handoffs, store }

/-- An exception that is not caught ends the script. -/
def runCalls (tryDispatch : Scheduler → Scheduler) (s : Scheduler) : List (Callback × Bool) → Exit
  | [] => s.returns
  | (call, caught) :: rest =>
    let exit := s.callBack tryDispatch call
    if exit.raised ∧ ¬caught then exit else exit.state.runCalls tryDispatch rest

def runScript (tryDispatch : Scheduler → Scheduler) (s : Scheduler) (script : Script) : Exit :=
  let exit := s.runCalls tryDispatch script.calls
  ⟨exit.state, exit.raised || script.raises⟩

def again : Scheduler := { s with dispatchAgain := true }

def start (agent : AgentId) : Exit :=
  let script := ((s.starts.find? fun entry => entry.1 = tid).map Prod.snd).getD .quiet
  let exit := runScript again { s with starts := s.starts.eraseP fun entry => entry.1 = tid } script
  if exit.raised then exit
  else returns { exit.state with started := exit.state.started ++ [(tid, agent)] }

def pinInputs : Dict HandoffId ℕ :=
  let version := fun hid : HandoffId => match s.store with
    | some store => store.latest hid
    | none => (s.handoffs.get? hid).map fun (h : Handoff) => h.latest.version
  task.inputs.foldl (fun pinned hid => (version hid).elim pinned (pinned.set hid)) .empty

def pinOutputs : Dict HandoffId ℕ × Option FilesystemStore :=
  match s.store with
  | none => (.empty, none)
  | some store =>
    let (pinned, store) := store.allocateAll task.outputs
    (pinned, some store)

def park : Scheduler :=
  match (s.tasks.get? tid).bind (·.closeExecution .failed) with
  | some closed => (s.setTask tid closed).move tid .failed
  | none => s.move tid .failed

/-- Undo a dispatch that raised. Nothing was taken when the pools did not resolve. -/
def abortLaunch (resolved : Bool) : Scheduler :=
  if resolved then
    park { s with resources := s.resources.giveBackAll (fun _ => some 0) task.resources.items } tid
  else s.park tid

def bindAgent : Exit :=
  if task.agentSpec ∉ s.specs then s.raises
  else
    let agent := s.nextAgent
    let inputVersions := s.pinInputs task
    let (outputVersions, store) := s.pinOutputs task
    let s := { s with nextAgent := agent + 1, store }
    match task.pushExecution agent inputVersions outputVersions with
    | none => s.raises
    | some task => ((s.setTask tid task).move tid .inputValidating).start tid agent

def launch : Scheduler :=
  match s.require tid [.waitingResource] with
  | none => s
  | some task =>
    if ¬s.ready task then s.move tid .waitingHandoff
    else if ¬s.resources.knows task.resources.items then s.abortLaunch tid task false
    else if ¬s.resources.canAfford task.resources.items then s
    else
      let (resources, raised) := s.resources.takeAll task.resources.items
      let exit := if raised then raises { s with resources }
        else bindAgent { s with resources } tid task
      if exit.raised then exit.state.abortLaunch tid task true else exit.state

def recheck : Scheduler :=
  let waitingHandoff := s.pools .waitingHandoff
  let union := waitingHandoff ++ (s.pools .waitingResource).filter (· ∉ waitingHandoff)
  union.foldl (fun s tid =>
    match s.tasks.get? tid with
    | none => s
    | some task => s.move tid (s.landing task)) s

def dispatchPass : Scheduler :=
  let s := s.recheck
  let eligible := (s.pools .waitingResource).filterMap s.tasks.get?
  (s.policy.select eligible).foldl launch s

def consumersOfOutputs : List (TaskId × Task) :=
  s.tasks.items.filter fun (id, consumer) =>
    id ≠ tid ∧ consumer.inputs.any (· ∈ task.outputs)

def downstream : List TaskId :=
  ((s.consumersOfOutputs tid task).filter fun (_, consumer) => consumer.parent = task.parent).map
    Prod.fst

/-- Level by level; a task is reached once, and one that does not wait is refused. -/
def drainLoop : ℕ → List TaskId → Scheduler → Scheduler
  | 0, _, s => s
  | fuel + 1, seen, s =>
    match s.cascade with
    | [] => s
    | tid :: rest =>
      let s := { s with cascade := rest }
      match if tid ∈ seen then none else s.require tid TaskStatus.waiting with
      | none => drainLoop fuel (tid :: seen) s
      | some task =>
        let cancelled := s.move tid .cancelled
        drainLoop fuel (tid :: seen) { cancelled with cascade := rest ++ s.downstream tid task }

/-- Every task is cancelled once at most and then appends fewer entries than there are tasks. -/
def drainCascade : Scheduler :=
  let size := s.tasks.items.length
  drainLoop (s.cascade.length + size * size + 1) [] s

/-- Passes follow as long as the runner called back; it can do so once per script. -/
def dispatchLoop : ℕ → Scheduler → Scheduler
  | 0, s => s
  | fuel + 1, s =>
    let s := s.drainCascade.dispatchPass
    if s.dispatchAgain then dispatchLoop fuel { s with dispatchAgain := false } else s

def tryDispatch : Scheduler := dispatchLoop (s.starts.length + 1) s

def submit : Exit :=
  if task.agentSpec ∉ s.specs then s.raises
  else if ¬(s.resources.knows task.resources.items ∧
      task.resources.items.all fun lease => 0 ≤ lease.2) then s.raises
  else if (s.tasks.get? task.id).any (·.status ≠ .cancelled) then s.raises
  else
    let s := { s.setTask task.id task with
      records := s.records.set task.id task
      handoffs := declare s.handoffs task.outputs task.id }
    (s.move task.id (s.landing task)).tryDispatch.returns

def expedite : Exit :=
  if task.inputs.all (checkIfLatestValid s.handoffs) then
    s.submit { task with expedited := true }
  else s.raises

def removeQueued : Exit :=
  match s.require tid TaskStatus.waiting with
  | none => s.raises
  | some _ => (s.move tid .cancelled).returns

/-- Cancel, then submit under the same id. A rejected update restores the task and raises. -/
def updateTask (fields : Task) : Exit :=
  match s.require tid TaskStatus.waiting with
  | none => s.raises
  | some old =>
    let s := s.move tid .cancelled
    let exit := s.submit { fields with
      id := tid, createdAt := old.createdAt, status := .waitingHandoff, history := [] }
    if exit.raised then (exit.state.submit { old with status := .waitingHandoff }).state.raises
    else exit

def resumeTask : Exit :=
  match s.require tid TaskStatus.resumable with
  | none => s.raises
  | some task => (s.move tid (s.landing task)).tryDispatch.returns

def cancel : Exit :=
  match s.require tid TaskStatus.waiting with
  | none => s.raises
  | some _ => { s with cascade := s.cascade ++ [tid] }.drainCascade.tryDispatch.returns

/-- The first half of a replacement: the downstream is cancelled, the task itself is not. -/
def cancelDownstream : Exit :=
  match s.tasks.get? tid with
  | none => s.raises
  | some task =>
    { s with cascade := s.cascade ++ s.downstream tid task }.drainCascade.tryDispatch.returns

def stop (script : Script) : Exit :=
  match s.require tid TaskStatus.phases with
  | none => s.raises
  | some _ => (s.move tid .stopping).runScript tryDispatch script

/-- Where a restart leaves a task: its lease is gone, and so is the runner it waited for. -/
def demoted (status : TaskStatus) : TaskStatus :=
  if status ∈ TaskStatus.phases then .waitingResource
  else if status = .stopping then .suspended
  else status

/-- A new process over the durable state; the operator may have changed the specs and pools. -/
def resumeSystem (s : Scheduler) (specs : List String) (capacities : Dict String (PoolKind × ℚ)) :
    Scheduler :=
  let tasks := s.records.mapValues fun _ (task : Task) => (task.closeExecution .suspended).getD task
  let s := { s with
    specs
    tasks
    records := tasks
    resources := s.resources.resumeSystem capacities
    pools _ := []
    cascade := [] }
  let s := s.tasks.items.foldl (fun s entry => s.move entry.1 (demoted entry.2.status)) s
  s.tryDispatch

inductive Op
  | submit (task : Task)
  | expedite (task : Task)
  | removeQueued (tid : TaskId)
  | update (tid : TaskId) (fields : Task)
  | resume (tid : TaskId)
  | cancel (tid : TaskId)
  | cancelDownstream (tid : TaskId)
  | stop (tid : TaskId) (script : Script)
  | back (call : Callback)
  | restart (specs : List String) (capacities : Dict String (PoolKind × ℚ))

def perform : Op → Exit
  | .submit task => s.submit task
  | .expedite task => s.expedite task
  | .removeQueued tid => s.removeQueued tid
  | .update tid fields => s.updateTask tid fields
  | .resume tid => s.resumeTask tid
  | .cancel tid => s.cancel tid
  | .cancelDownstream tid => s.cancelDownstream tid
  | .stop tid script => s.stop tid script
  | .back call => s.callBack tryDispatch call
  | .restart specs capacities => (s.resumeSystem specs capacities).returns

structure Event where
  op : Op
  starts : List (TaskId × Script)

def next (e : Event) : Scheduler :=
  { ({ s with starts := e.starts }.perform e.op).state with starts := [] }

end Scheduler
end Infera.TaskGraph
