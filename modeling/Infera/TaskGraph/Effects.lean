import Infera.TaskGraph.Scheduler

/-! What calls do to tasks, leases, slots and versions. A call of the scheduler
is a run of few effects; the index, the queue of cancels and the scripts of the
runner are not part of what an effect changes. Each function is shown once to go
through effects that a predicate permits, and invariants are then proved effect
by effect. A runner that completes a task inside its own start has effects of
its own, `startLate` and `abortLate`. -/

namespace Infera.TaskGraph
open Dict TaskStatus List Option Scheduler

/-- The part of the state that effects are about. -/
structure View where
  nextAgent : AgentId
  tasks : Dict TaskId Task
  handoffs : Dict HandoffId Handoff
  store : Option FilesystemStore
  resources : Resources
  started : List (TaskId × AgentId)

def Scheduler.view (s : Scheduler) : View :=
  ⟨s.nextAgent, s.tasks, s.handoffs, s.store, s.resources, s.started⟩

inductive Effect
  /-- Nothing but the index or a queue changes. -/
  | index
  | admitted (task : Task)
  /-- A waiting task stays in the queue or is cancelled. -/
  | queue (tid : TaskId) (status : TaskStatus)
  | requeue (tid : TaskId)
  /-- A task in a phase goes to the next one or is asked to stop. -/
  | phase (tid : TaskId) (status : TaskStatus)
  | bind (tid : TaskId) (agent : AgentId)
  | start (tid : TaskId) (agent : AgentId)
  /-- A launch that fails before the runner has the task. -/
  | misfire (tid : TaskId)
  /-- A start that raises while its task is in a phase. -/
  | abort (tid : TaskId)
  | startLate (tid : TaskId) (agent : AgentId)
  | abortLate (tid : TaskId)
  | settle (tid : TaskId) (status : TaskStatus)
  | acknowledge (tid : TaskId)
  /-- Leases are given back for a task without an open attempt, which then keeps its status. -/
  | leak (tid : TaskId)
  | write (handoffs : Dict HandoffId Handoff) (store : Option FilesystemStore)
  | demote

namespace Task

/-- The task with its attempt closed, if one is open, under a new status. -/
def ended (task : Task) (status : TaskStatus) : Task :=
  { (task.closeExecution status).getD task with status }

theorem ended_of_idle {task : Task} (idle : task.isRunning = false) (status : TaskStatus) :
    task.ended status = { task with status } := by
  have refused : task.closeExecution status = none := by
    rw [← isNone_iff_eq_none, ← not_isSome, task.closeExecution_isSome, idle]
    rfl
  rw [ended, refused]
  rfl

def BoundTo (task : Task) (agent : AgentId) : Prop :=
  ∃ top, task.current = some top ∧ top.isOpen = true ∧ top.agentId = agent

/-- What a record says of a task. It lags behind when an attempt of a task that keeps its phase is
closed. -/
def Recorded (record task : Task) : Prop :=
  record = task ∨
    task.status ∈ TaskStatus.holding ∧ ∃ outcome, record.closeExecution outcome = some task

theorem Recorded.of_rel {record : Task} {found : Option Task}
    (recorded : Option.Rel Recorded (some record) found) :
    ∃ task, found = some task ∧ Recorded record task := by
  cases recorded with
  | some agrees => exact ⟨_, rfl, agrees⟩

theorem Recorded.same {record task : Task} (recorded : Recorded record task) :
    ∃ history, task = { record with history } := by
  rcases recorded with rfl | ⟨-, outcome, closes⟩
  · exact ⟨record.history, rfl⟩
  · obtain ⟨history, closed⟩ := record.closed_eq outcome
    rw [closes] at closed
    exact ⟨history, closed⟩

end Task

namespace Scheduler

def Changes (s s' : Scheduler) (tid : TaskId) (before : Task → Prop) (after : Task → Task) : Prop :=
  ∃ task, s.tasks.get? tid = some task ∧ before task ∧
    s'.view = { s.view with tasks := s.tasks.set tid (after task) }

def execution (s : Scheduler) (task : Task) : Execution :=
  ⟨task.history.length, s.nextAgent, s.pinInputs task, (s.pinOutputs task).1, none⟩

/-- The end of an attempt: its leases go back and its execution is closed. -/
def Closes (s s' : Scheduler) (tid : TaskId) (allowed : List TaskStatus) (outcome : TaskStatus) :
    Prop :=
  ∃ task closed usage, s.tasks.get? tid = some task ∧ task.status ∈ allowed ∧
    task.closeExecution outcome = some closed ∧
    s'.view = { s.view with
      tasks := s.tasks.set tid { closed with status := outcome }
      resources := (s.release task usage).resources }

end Scheduler

open Scheduler in
def Effect.Does (s s' : Scheduler) : Effect → Prop
  | .index => s'.view = s.view
  | .admitted task =>
    (∀ existing, s.tasks.get? task.id = some existing → existing.status = .cancelled) ∧
      (∀ lease ∈ task.resources.items, 0 ≤ lease.2) ∧ ∃ status ∈ TaskStatus.waiting,
        s'.view = { s.view with
          tasks := s.tasks.set task.id { task with status }
          handoffs := declare s.handoffs task.outputs task.id }
  | .queue tid status =>
    (status ∈ TaskStatus.waiting ∨ status = .cancelled) ∧
      Changes s s' tid (·.status ∈ TaskStatus.waiting) ({ · with status })
  | .requeue tid => ∃ status ∈ TaskStatus.waiting,
    Changes s s' tid (·.status ∈ TaskStatus.resumable) ({ · with status })
  | .phase tid status =>
    (status ∈ TaskStatus.phases ∨ status = .stopping) ∧
      Changes s s' tid (·.status ∈ TaskStatus.phases) ({ · with status })
  | .bind tid agent => agent = s.nextAgent ∧ ∃ task, s.tasks.get? tid = some task ∧
    task.status = .waitingResource ∧ task.isRunning = false ∧ s.ready task = true ∧
    (s.resources.takeAll task.resources.items).2 = false ∧
    s'.view = { s.view with
      nextAgent := agent + 1
      tasks := s.tasks.set tid { task with
        status := .inputValidating, history := task.history ++ [s.execution task] }
      store := (s.pinOutputs task).2
      resources := (s.resources.takeAll task.resources.items).1 }
  | .start tid agent =>
    (∃ task, s.tasks.get? tid = some task ∧ task.status ∈ TaskStatus.phases ∧ task.BoundTo agent) ∧
      s'.view = { s.view with started := s.started ++ [(tid, agent)] }
  | .startLate tid agent => s'.view = { s.view with started := s.started ++ [(tid, agent)] }
  | .misfire tid => ∃ task, s.tasks.get? tid = some task ∧ task.status = .waitingResource ∧
    (∀ due, (∀ name, 0 ≤ due name) → s.resources.Balanced due → s'.resources.Balanced due) ∧
    (s'.store = s.store ∨ s'.store = (s.pinOutputs task).2) ∧ s.nextAgent ≤ s'.nextAgent ∧
    s'.view = { s.view with
      nextAgent := s'.nextAgent
      tasks := s.tasks.set tid (task.ended .failed)
      store := s'.store
      resources := s'.resources }
  | .abort tid => ∃ task, s.tasks.get? tid = some task ∧ task.status ∈ TaskStatus.phases ∧
    s'.view = { s.view with
      tasks := s.tasks.set tid (task.ended .failed)
      resources := s.resources.giveBackAll (fun _ => some 0) task.resources.items }
  | .abortLate tid => ∃ task, s.tasks.get? tid = some task ∧ task.isRunning = false ∧
    s'.view = { s.view with
      tasks := s.tasks.set tid { task with status := .failed }, resources := s'.resources }
  | .settle tid status => Closes s s' tid TaskStatus.phases status
  | .acknowledge tid => Closes s s' tid [.stopping] .suspended
  | .leak tid => ∃ task, s.tasks.get? tid = some task ∧ task.status ∈ TaskStatus.holding ∧
    task.isRunning = false
  | .write handoffs store => s'.view = { s.view with handoffs, store }
  | .demote =>
    (∀ tid, Option.Rel Task.Recorded (s.records.get? tid) (s.tasks.get? tid)) ∧
    (∀ tid, s'.tasks.get? tid = (s.records.get? tid).map fun record =>
      { (record.closeExecution .suspended).getD record with status := demoted record.status }) ∧
    (∃ capacities, s'.resources = s.resources.resumeSystem capacities) ∧
    s'.view = { s.view with tasks := s'.tasks, resources := s'.resources }

namespace Scheduler
variable {s s' s'' : Scheduler} {P : Effect → Prop} {task : Task} {tid : TaskId}

/-- Each task is listed once, under its status, and is recorded. -/
structure Filed (s : Scheduler) : Prop where
  listed : ∀ status tid, tid ∈ s.pools status ↔
    ∃ task, s.tasks.get? tid = some task ∧ task.status = status
  once : ∀ status, (s.pools status).Nodup
  recorded : ∀ tid, Option.Rel Task.Recorded (s.records.get? tid) (s.tasks.get? tid)

section
variable (found : s.tasks.get? tid = some task) (status : TaskStatus)
include found status

theorem view_move : (s.move tid status).view =
      { s.view with tasks := s.tasks.set tid { task with status } } := by
  simp only [move, found]
  rfl

theorem get?_move (other : TaskId) : (s.move tid status).tasks.get? other =
      if other = tid then some { task with status } else s.tasks.get? other := by
  rw [show (s.move tid status).tasks = _ from congrArg View.tasks (view_move found status)]
  exact get?_set ..

theorem get?_records_move (other : TaskId) : (s.move tid status).records.get? other =
      if other = tid ∧ task.status ≠ status then some { task with status }
      else s.records.get? other := by
  simp only [move, found]
  by_cases same : task.status = status
  · simp [same]
  · rw [if_neg same, get?_set]
    simp [same]

end

section
variable (s : Scheduler) (tid : TaskId)

theorem starts_move (status : TaskStatus) : (s.move tid status).starts = s.starts := by
  unfold move
  dsimp only
  split <;> rfl

theorem pools_move (status at' : TaskStatus) : (s.move tid status).pools at' = if at' = status then
        if tid ∈ s.pools status then s.pools status else s.pools status ++ [tid]
      else (s.pools at').filter (· ≠ tid) := by
  unfold move
  dsimp only
  split <;> rfl

theorem mem_pools_move (status : TaskStatus) (at' : TaskStatus)
    (other : TaskId) : other ∈ (s.move tid status).pools at' ↔
      if other = tid then at' = status else other ∈ s.pools at' := by
  rw [pools_move]
  by_cases own : other = tid
  · subst own
    rw [if_pos rfl]
    split_ifs with here present <;> simp [here]
    exact present
  · rw [if_neg own]
    split_ifs with here present <;> simp [here, own]

end

theorem nodup_pools_move (once : ∀ status, (s.pools status).Nodup) (tid : TaskId)
    (status at' : TaskStatus) : ((s.move tid status).pools at').Nodup := by
  rw [pools_move]
  split_ifs with here present
  · exact once status
  · exact (once status).append (nodup_singleton tid) (by simpa using present)
  · exact (once at').filter _

variable {status : TaskStatus}

theorem filed_place (listed : ∀ status other, other ≠ tid → (other ∈ s.pools status ↔
      ∃ task, s.tasks.get? other = some task ∧ task.status = status))
    (once : ∀ status, (s.pools status).Nodup) (recorded : ∀ other, other ≠ tid →
      Option.Rel Task.Recorded (s.records.get? other) (s.tasks.get? other))
    (found : s.tasks.get? tid = some task)
    (lag : task.status = status → Option.Rel Task.Recorded (s.records.get? tid) (some task)) :
    (s.move tid status).Filed := by
  refine ⟨fun at' other => ?_, fun at' => nodup_pools_move once tid status at', fun other => ?_⟩
  · rw [mem_pools_move, get?_move found]
    by_cases own : other = tid
    · simp only [if_pos own, some.injEq, exists_eq_left']
      exact eq_comm
    · rw [if_neg own, if_neg own]
      exact listed at' other own
  · rw [get?_move found, get?_records_move found]
    by_cases own : other = tid
    · rw [if_pos own]
      by_cases same : task.status = status
      · rw [if_neg (by simp [same])]
        subst same own
        exact lag rfl
      · rw [if_pos ⟨own, same⟩]
        exact .some (.inl rfl)
    · rw [if_neg own, if_neg (by simp [own])]
      exact recorded other own

theorem Filed.move (filed : s.Filed)
    (found : s.tasks.get? tid = some task) (status : TaskStatus) : (s.move tid status).Filed :=
  filed_place (fun status other _ => filed.listed status other) filed.once
    (fun other _ => filed.recorded other) found fun _ => found ▸ filed.recorded tid

theorem Filed.place (filed : s.Filed) (t : Scheduler) (tasks : t.tasks = s.tasks)
    (pools : t.pools = s.pools)
    (records : ∀ other, other ≠ tid → t.records.get? other = s.records.get? other)
    (lag : task.status = status → Option.Rel Task.Recorded (t.records.get? tid) (some task)) :
    ((t.setTask tid task).move tid status).Filed := by
  have lookup : ∀ other, other ≠ tid →
      (t.setTask tid task).tasks.get? other = s.tasks.get? other := fun other differ =>
    (get?_set_of_ne differ).trans (by rw [tasks])
  have pools' : (t.setTask tid task).pools = s.pools := pools
  refine filed_place (fun status other differ => ?_) (by rw [pools']; exact filed.once)
    (fun other differ => ?_) (get?_set_self ..) lag
  · rw [lookup other differ, pools']
    exact filed.listed status other
  · rw [lookup other differ, show (t.setTask tid task).records.get? other = _ from
      records other differ]
    exact filed.recorded other

theorem Filed.recorded_closed (filed : s.Filed) {closed : Task}
    {outcome : TaskStatus} (found : s.tasks.get? tid = some task)
    (held : task.status ∈ holding) (closing : task.closeExecution outcome = some closed) :
    Option.Rel Task.Recorded (s.records.get? tid) (some closed) := by
  have recorded := filed.recorded tid
  rw [found] at recorded
  have status : closed.status = task.status := by
    simpa [closing] using task.status_closed outcome
  revert recorded
  cases s.records.get? tid with
  | none => exact fun impossible => nomatch impossible
  | some record =>
    intro recorded
    cases recorded with | some agrees => ?_
    rcases agrees with rfl | ⟨-, earlier, lagging⟩
    · exact .some (.inr ⟨status ▸ held, outcome, closing⟩)
    · have idle := Task.isRunning_closed lagging
      rw [← task.closeExecution_isSome outcome, closing] at idle
      cases idle

section
variable (s : Scheduler) (tid : TaskId) (task : Task) (status : TaskStatus)

theorem view_place : ((s.setTask tid task).move tid status).view =
      { s.view with tasks := s.tasks.set tid { task with status } } := by
  rw [view_move (get?_set_self ..) status]
  simp [view, setTask, Dict.set_set]

theorem get?_place (other : TaskId) : ((s.setTask tid task).move tid status).tasks.get? other =
      if other = tid then some { task with status } else s.tasks.get? other := by
  rw [show ((s.setTask tid task).move tid status).tasks = _ from
    congrArg View.tasks (view_place ..)]
  exact get?_set ..

theorem starts_place : ((s.setTask tid task).move tid status).starts = s.starts := starts_move ..

end

theorem Filed.of_same (filed : s.Filed) (tasks : s'.tasks = s.tasks)
    (pools : s'.pools = s.pools) (records : s'.records = s.records) : s'.Filed :=
  ⟨by rw [tasks, pools]; exact filed.listed, by rw [pools]; exact filed.once,
    by rw [tasks, records]; exact filed.recorded⟩

theorem require_eq_some {allowed : List TaskStatus} : s.require tid allowed = some task ↔
      s.tasks.get? tid = some task ∧ task.status ∈ allowed := by
  rw [require]
  simp

/-- `s'` is reached by effects that are permitted, and the runner's scripts are only used up. -/
structure Goes (P : Effect → Prop) (s s' : Scheduler) : Prop where
  filed : s.Filed → s'.Filed
  runs : s.Filed → Relation.ReflTransGen (fun a b => ∃ e, P e ∧ Effect.Does a b e) s s'
  starts : s'.starts ⊆ s.starts

theorem Goes.refl (P : Effect → Prop) (s : Scheduler) : Goes P s s :=
  ⟨id, fun _ => .refl, List.Subset.refl _⟩

theorem Goes.trans (first : Goes P s s') (second : Goes P s' s'') : Goes P s s'' :=
  ⟨fun filed => second.filed (first.filed filed),
    fun filed => (first.runs filed).trans (second.runs (first.filed filed)),
    List.Subset.trans second.starts first.starts⟩

theorem Goes.one (e : Effect) (permitted : P e) (does : s.Filed → e.Does s s')
    (filed : s.Filed → s'.Filed) (starts : s'.starts = s.starts) : Goes P s s' :=
  ⟨filed, fun known => .single ⟨e, permitted, does known⟩, fun _ mem => starts ▸ mem⟩

end Scheduler

def Callback.Permitted (P : Effect → Prop) : Callback → Prop
  | .done tid status _ => P (.settle tid status) ∧ P (.leak tid)
  | .stopped tid => P (.acknowledge tid) ∧ P (.leak tid)
  | .enterPhase tid phase => P (.phase tid phase)
  | .write handoffs store => P (.write handoffs store)

def Callback.completes (tid : TaskId) : Callback → Bool
  | .done other _ _ => other = tid
  | _ => false

def Script.completes (script : Script) (tid : TaskId) : Bool :=
  script.calls.any fun call => call.1.completes tid

def Script.afterwards (calls : List (Callback × Bool)) (tid : TaskId) : List (Callback × Bool) :=
  (calls.dropWhile fun call => !call.1.completes tid).tail

/-- An exception can leave the script after it completed the task: its own, or that of a later
call which it does not catch. -/
def Script.raisesLate (script : Script) (tid : TaskId) : Bool :=
  script.completes tid &&
    (script.raises || (Script.afterwards script.calls tid).any fun call => !call.2)

/-- Dispatching under these scripts has permitted effects only. -/
structure Permits (P : Effect → Prop) (starts : List (TaskId × Script)) : Prop where
  index : P .index
  queue : ∀ tid status, P (.queue tid status)
  bind : ∀ tid agent, P (.bind tid agent)
  start : ∀ tid agent, P (.start tid agent)
  misfire : ∀ tid, P (.misfire tid)
  abort : ∀ tid, P (.abort tid)
  calls : ∀ entry ∈ starts, ∀ call ∈ entry.2.calls, call.1.Permitted P
  startLate : ∀ entry ∈ starts, entry.2.completes entry.1 = true →
    ∀ agent, P (.startLate entry.1 agent)
  abortLate : ∀ entry ∈ starts, entry.2.raisesLate entry.1 = true → P (.abortLate entry.1)

theorem Permits.mono {P : Effect → Prop} {xs ys : List (TaskId × Script)} (subset : ys ⊆ xs)
    (permits : Permits P xs) : Permits P ys :=
  { permits with
    calls entry mem := permits.calls entry (subset mem)
    startLate entry mem := permits.startLate entry (subset mem)
    abortLate entry mem := permits.abortLate entry (subset mem) }

namespace Scheduler
variable {s s' : Scheduler} {P : Effect → Prop} {agent : AgentId} {call : Callback}
  {amounts : Dict String ℚ} {allowed : List TaskStatus} {task : Task} {other tid : TaskId}
variable {tryDispatch : Scheduler → Scheduler} {resolved : Bool} {calls : List (Callback × Bool)}
  {t : Scheduler}

theorem landing_waiting (s : Scheduler) (task : Task) : s.landing task ∈ waiting := by
  unfold landing
  split_ifs <;> decide

theorem close_cases (tryDispatch : Scheduler → Scheduler) (s : Scheduler) (tid : TaskId)
    (allowed : List TaskStatus) (usage : Option (Dict String ℚ)) (outcome : TaskStatus) :
    s.close tryDispatch tid allowed usage outcome = s.raises ∨
      ∃ task, s.tasks.get? tid = some task ∧ task.status ∈ allowed ∧ ((task.isRunning = false ∧
            s.close tryDispatch tid allowed usage outcome = (s.release task usage).raises) ∨
          ∃ closed, task.closeExecution outcome = some closed ∧
            s.close tryDispatch tid allowed usage outcome = (tryDispatch
              (((s.release task usage).setTask tid closed).move tid outcome)).returns) := by
  unfold close
  cases required : s.require tid allowed with
  | none => exact .inl rfl
  | some task =>
    obtain ⟨found, status⟩ := require_eq_some.mp required
    refine .inr ⟨task, found, status, ?_⟩
    dsimp only
    cases closed : task.closeExecution outcome with
    | none =>
      refine .inl ⟨?_, rfl⟩
      rw [← task.closeExecution_isSome outcome, closed]
      rfl
    | some task' => exact .inr ⟨task', rfl, rfl⟩

theorem goes_close {usage : Option (Dict String ℚ)}
    {outcome : TaskStatus} (held : ∀ status ∈ allowed, status ∈ holding) (e : Effect)
    (permitted : P e) (closes : ∀ s s', Closes s s' tid allowed outcome → e.Does s s')
    (leak : P (.leak tid)) (dispatch : ∀ s', s'.starts = s.starts → Goes P s' (tryDispatch s')) :
    Goes P s (s.close tryDispatch tid allowed usage outcome).state := by
  rcases close_cases tryDispatch s tid allowed usage outcome with
    refused | ⟨task, found, status, ⟨idle, leaks⟩ | ⟨closed, closing, through⟩⟩
  · rw [refused]
    exact .refl P s
  · rw [leaks]
    exact .one (.leak tid) leak (fun _ => ⟨task, found, held _ status, idle⟩)
      (fun filed => filed.of_same rfl rfl rfl) rfl
  · rw [through]
    refine Goes.trans (.one e permitted (fun _ => closes _ _ ?_) (fun filed => ?_) ?_)
      (dispatch _ (starts_place ..))
    · exact ⟨task, closed, usage, found, status, closing, view_place ..⟩
    · exact filed.place (s.release task usage) rfl rfl (fun _ _ => rfl) fun _ =>
        filed.recorded_closed found (held _ status) closing
    · exact starts_place (s.release task usage) ..

theorem goes_require {f : Task → Exit} (goes : ∀ task, s.tasks.get? tid = some task →
      task.status ∈ allowed → Goes P s (f task).state) :
    Goes P s (match s.require tid allowed with
      | none => s.raises
      | some task => f task).state := by
  cases required : s.require tid allowed with
  | none => exact .refl P s
  | some task =>
    obtain ⟨found, status⟩ := require_eq_some.mp required
    exact goes task found status

theorem goes_enterPhase {phase : TaskStatus} (permitted : P (.phase tid phase)) :
    Goes P s (s.enterPhase tid phase).state := by
  refine goes_require fun task found status => ?_
  split_ifs with next
  · exact .one (.phase tid phase) permitted
      (fun _ => ⟨.inl (nextPhase_phase next), task, found, status, view_move found phase⟩)
      (fun filed => filed.move found phase) (starts_move ..)
  · exact .refl P s

theorem goes_callBack (permitted : call.Permitted P)
    (dispatch : ∀ s', s'.starts = s.starts → Goes P s' (tryDispatch s')) :
    Goes P s (s.callBack tryDispatch call).state := by
  cases call with
  | done tid status usage =>
    exact goes_close (fun _ => holding_of_phase) (.settle tid status) permitted.1
      (fun _ _ closes => closes) permitted.2 dispatch
  | stopped tid =>
    exact goes_close (by decide) (.acknowledge tid) permitted.1 (fun _ _ closes => closes)
      permitted.2 dispatch
  | enterPhase tid phase => exact goes_enterPhase permitted
  | write handoffs store =>
    exact .one (.write handoffs store) permitted (fun _ => rfl)
      (fun filed => filed.of_same rfl rfl rfl) rfl

theorem goes_runCalls {starts : List (TaskId × Script)}
    (dispatch : ∀ s', s'.starts ⊆ starts → Goes P s' (tryDispatch s')) (permitted : ∀ call ∈ calls, call.1.Permitted P)
    (within : s.starts ⊆ starts) : Goes P s (s.runCalls tryDispatch calls).state := by
  induction calls generalizing s with
  | nil => exact .refl P s
  | cons call rest ih =>
    obtain ⟨call, caught⟩ := call
    have first : Goes P s (s.callBack tryDispatch call).state :=
      goes_callBack (permitted _ mem_cons_self) fun s' same => dispatch s' fun _ mem => within (same ▸ mem)
    unfold runCalls
    dsimp only
    split_ifs
    · exact first
    · exact first.trans (ih (fun call mem => permitted call (.tail _ mem))
        (List.Subset.trans first.starts within))

theorem goes_index (index : P .index) (s : Scheduler) (cascade : List TaskId)
    (dispatchAgain : Bool) : Goes P s { s with cascade, dispatchAgain } :=
  .one .index index (fun _ => rfl) (fun filed => filed.of_same rfl rfl rfl) rfl

/-- The task is in a phase, its attempt is that of the agent, and it asked for these amounts. -/
def Bound (s : Scheduler) (tid : TaskId) (agent : AgentId) (amounts : Dict String ℚ) : Prop :=
  ∃ task, s.tasks.get? tid = some task ∧ task.status ∈ TaskStatus.phases ∧ task.BoundTo agent ∧
    task.resources = amounts

theorem callBack_keeps {Q : Task → Prop}
    (enters : ∀ task, ∀ phase ∈ phases, Q task → Q { task with status := phase })
    (closes : ∀ task closed outcome, call.completes tid = true ∨ task.status = .stopping →
      task.closeExecution outcome = some closed → Q task → Q { closed with status := outcome })
    (holds : ∃ task, s.tasks.get? tid = some task ∧ Q task) :
    ∃ task, (s.callBack again call).state.tasks.get? tid = some task ∧ Q task := by
  obtain ⟨own, known, holds⟩ := holds
  have closed : ∀ other allowed usage outcome, (other = tid → own.status ∈ allowed →
      call.completes tid = true ∨ own.status = .stopping) →
      ∃ task, (s.close again other allowed usage outcome).state.tasks.get? tid = some task ∧
        Q task := by
    intro other allowed usage outcome ends
    rcases close_cases again s other allowed usage outcome with
      refused | ⟨task, found, status, ⟨-, leaks⟩ | ⟨closed, closing, through⟩⟩
    · rw [refused]
      exact ⟨own, known, holds⟩
    · rw [leaks]
      exact ⟨own, known, holds⟩
    · rw [through]
      have lookup := get?_place (s.release task usage) other closed outcome tid
      by_cases same : tid = other
      · subst same
        cases found.symm.trans known
        exact ⟨_, lookup.trans (if_pos rfl), closes _ _ _ (ends rfl status) closing holds⟩
      · exact ⟨own, (lookup.trans (if_neg same)).trans known, holds⟩
  cases call with
  | done completed status usage =>
    exact closed _ _ _ _ fun same _ => .inl (by simp [Callback.completes, same])
  | stopped stopped =>
    exact closed _ _ _ _ fun _ stopping => .inr (mem_singleton.mp stopping)
  | write handoffs store => exact ⟨own, known, holds⟩
  | enterPhase entered phase =>
    dsimp only [Scheduler.callBack, enterPhase]
    cases required : s.require entered phases with
    | none => exact ⟨own, known, holds⟩
    | some task =>
      dsimp only
      split_ifs with next
      · have lookup := get?_move (require_eq_some.mp required).1 phase tid
        by_cases same : tid = entered
        · subst same
          cases (require_eq_some.mp required).1.symm.trans known
          exact ⟨_, lookup.trans (if_pos rfl), enters _ _ (nextPhase_phase next) holds⟩
        · exact ⟨own, (lookup.trans (if_neg same)).trans known, holds⟩
      · exact ⟨own, known, holds⟩

theorem Bound.callBack (bound : s.Bound tid agent amounts) (other : call.completes tid = false) :
    (s.callBack again call).state.Bound tid agent amounts := by
  refine callBack_keeps (fun task phase entered holds => ⟨entered, holds.2⟩)
    (fun task closed outcome ends _ holds => ?_) bound
  rw [other] at ends
  have stopping := holds.1
  rw [ends.resolve_left (by decide)] at stopping
  exact absurd stopping (by decide)

theorem raised_runCalls (raised : (s.runCalls tryDispatch calls).raised = true) :
    calls.any (fun call => !call.2) = true := by
  induction calls generalizing s with
  | nil => cases raised
  | cons call rest ih =>
    unfold runCalls at raised
    dsimp only at raised
    rw [any_cons, Bool.or_eq_true]
    split_ifs at raised with leaves
    · exact .inl (by simpa using leaves.2)
    · exact .inr (ih raised)

def Idle (s : Scheduler) (tid : TaskId) : Prop :=
  ∃ task, s.tasks.get? tid = some task ∧ task.isRunning = false

theorem Bound.completed
    (bound : s.Bound tid agent amounts) (completes : call.completes tid = true) :
    (s.callBack again call).raised = false ∧ (s.callBack again call).state.Idle tid := by
  obtain ⟨task, found, phase, ⟨top, current, isOpen, -⟩, -⟩ := bound
  cases call with
  | done completed status usage =>
    have own : completed = tid := by simpa [Callback.completes] using completes
    subst own
    have closes : (task.closeExecution status).isSome = true := by
      simp [Task.closeExecution, current, isOpen]
    obtain ⟨closed, closing⟩ := isSome_iff_exists.mp closes
    dsimp only [Scheduler.callBack, onTaskDone, Scheduler.close]
    rw [require_eq_some.mpr ⟨found, phase⟩]
    dsimp only
    rw [closing]
    have ended : closed.isRunning = false := Task.isRunning_closed closing
    exact ⟨rfl, _, (get?_place ..).trans (if_pos rfl), ended⟩
  | stopped | enterPhase | write => cases completes

theorem Idle.callBack (idle : s.Idle tid) (call : Callback) :
    (s.callBack again call).state.Idle tid := by
  refine callBack_keeps (fun _ _ _ idle => idle) (fun task closed outcome _ closing _ => ?_) idle
  have ended : closed.isRunning = false := Task.isRunning_closed closing
  exact ended

theorem Idle.runCalls (idle : s.Idle tid) (calls : List (Callback × Bool)) :
    (s.runCalls again calls).state.Idle tid := by
  induction calls generalizing s with
  | nil => exact idle
  | cons call rest ih =>
    obtain ⟨call, caught⟩ := call
    have first := idle.callBack call
    unfold runCalls
    dsimp only
    split_ifs
    · exact first
    · exact ih first

theorem Bound.runCalls (calls : List (Callback × Bool)) (bound : s.Bound tid agent amounts) :
    (s.runCalls again calls).state.Bound tid agent amounts ∨
      (s.runCalls again calls).state.Idle tid ∧
        (calls.any fun call => call.1.completes tid) = true ∧
        ((s.runCalls again calls).raised = true →
          (Script.afterwards calls tid).any (fun call => !call.2) = true) := by
  induction calls generalizing s with
  | nil => exact .inl bound
  | cons call rest ih =>
    obtain ⟨call, caught⟩ := call
    unfold runCalls
    dsimp only
    cases completes : call.completes tid with
    | true =>
      obtain ⟨through, idle⟩ := bound.completed completes
      rw [if_neg (by simp [through])]
      refine .inr ⟨idle.runCalls rest, by simp [completes], fun raised => ?_⟩
      simpa [Script.afterwards, completes] using raised_runCalls raised
    | false =>
      have first := bound.callBack completes
      split_ifs
      · exact .inl first
      · simpa [Script.afterwards, completes] using ih first

section
variable (filed : s.Filed) (found : s.tasks.get? tid = some task)
  (fresh : task.status ≠ .failed ∨ task.isRunning = false)
include filed found fresh

theorem Filed.park : (s.park tid).Filed := by
  unfold Scheduler.park
  rw [found, bind_some]
  cases closing : task.closeExecution .failed with
  | none => exact filed.move found .failed
  | some closed =>
    refine filed.place s rfl rfl (fun _ _ => rfl) fun same => ?_
    have status : closed.status = task.status := by
      simpa [closing] using task.status_closed .failed
    rw [← task.closeExecution_isSome .failed, closing] at fresh
    exact absurd (status.symm.trans same) (fresh.resolve_right (by simp))

theorem Filed.abortLaunch (asked : Task) (resolved : Bool) :
    (s.abortLaunch tid asked resolved).Filed := by
  unfold Scheduler.abortLaunch
  split_ifs
  · have same : Filed { s with
        resources := s.resources.giveBackAll (fun _ => some 0) asked.resources.items } :=
      filed.of_same rfl rfl rfl
    exact same.park found fresh
  · exact filed.park found fresh

end

theorem starts_park (s : Scheduler) (tid : TaskId) : (s.park tid).starts = s.starts := by
  unfold park
  split
  · exact starts_place ..
  · exact starts_move ..

theorem starts_abortLaunch (s : Scheduler) (tid : TaskId) (task : Task) (resolved : Bool) :
    (s.abortLaunch tid task resolved).starts = s.starts := by
  unfold abortLaunch
  split_ifs <;> exact starts_park ..

section
variable (found : s.tasks.get? tid = some task)
include found

theorem goes_queue (waits : s.Filed → task.status ∈ waiting)
    (stays : status ∈ waiting ∨ status = .cancelled) (permitted : P (.queue tid status)) :
    Goes P s (s.move tid status) :=
  .one (.queue tid status) permitted
    (fun filed => ⟨stays, task, found, waits filed, view_move found status⟩)
    (fun filed => filed.move found status) (starts_move ..)

theorem view_park :
    (s.park tid).view = { s.view with tasks := s.tasks.set tid (task.ended .failed) } := by
  unfold park Task.ended
  rw [found, bind_some]
  cases task.closeExecution .failed with
  | none => exact view_move found .failed
  | some closed => exact view_place ..

theorem view_abortLaunch (asked : Task) (resolved : Bool) :
    (s.abortLaunch tid asked resolved).view = { s.view with
      tasks := s.tasks.set tid (task.ended .failed)
      resources := if resolved then
        s.resources.giveBackAll (fun _ => some 0) asked.resources.items else s.resources } := by
  unfold abortLaunch
  split_ifs with took
  · rw [view_park (s := { s with
      resources := s.resources.giveBackAll (fun _ => some 0) asked.resources.items }) found]
    rfl
  · rw [view_park found]
    rfl

end

/-- What a launch leaves that fails before the runner has the task: `t` is `s` but for the agent
ids, the allocated versions and the leases that were taken. -/
structure Spent (s t : Scheduler) (task : Task) (resolved : Bool) : Prop where
  same : t.view = { s.view with
    nextAgent := t.nextAgent, store := t.store, resources := t.resources }
  pools : t.pools = s.pools
  records : t.records = s.records
  starts : t.starts = s.starts
  store : t.store = s.store ∨ t.store = (s.pinOutputs task).2
  agent : s.nextAgent ≤ t.nextAgent
  neutral : ∀ due, (∀ name, 0 ≤ due name) → s.resources.Balanced due →
    (if resolved then t.resources.giveBackAll (fun _ => some 0) task.resources.items
      else t.resources).Balanced due

section
variable (spent : Spent s t task resolved) (found : s.tasks.get? tid = some task)
include spent found

theorem Spent.filed (status : task.status = .waitingResource)
    (filed : s.Filed) : (t.abortLaunch tid task resolved).Filed := by
  have tasks : t.tasks = s.tasks := congrArg View.tasks spent.same
  refine (filed.of_same tasks spent.pools spent.records).abortLaunch (tasks ▸ found) (.inl ?_) ..
  rw [status]
  decide

theorem Spent.view : (t.abortLaunch tid task resolved).view = { s.view with
      nextAgent := t.nextAgent
      tasks := s.tasks.set tid (task.ended .failed)
      store := t.store
      resources := if resolved then
        t.resources.giveBackAll (fun _ => some 0) task.resources.items else t.resources } := by
  have tasks : t.tasks = s.tasks := congrArg View.tasks spent.same
  rw [view_abortLaunch (tasks ▸ found), spent.same, tasks]

end

theorem goes_misfire (permitted : P (.misfire tid))
    (found : s.tasks.get? tid = some task) (status : task.status = .waitingResource)
    (spent : Spent s t task resolved) : Goes P s (t.abortLaunch tid task resolved) := by
  have view := spent.view found
  have store : (t.abortLaunch tid task resolved).store = t.store := congrArg View.store view
  have agent : (t.abortLaunch tid task resolved).nextAgent = t.nextAgent :=
    congrArg View.nextAgent view
  have resources : (t.abortLaunch tid task resolved).resources = _ :=
    congrArg View.resources view
  refine .one (.misfire tid) permitted (fun _ => ⟨task, found, status, ?_, ?_, ?_, ?_⟩)
    (spent.filed found status) ((starts_abortLaunch ..).trans spent.starts)
  · rw [resources]
    exact spent.neutral
  · rw [store]
    exact spent.store
  · rw [agent]
    exact spent.agent
  · rw [store, agent, resources, view]

theorem balanced_refund {r : Resources} {due : String → ℚ}
    (affordable : r.canAfford amounts.items = true) (owed : ∀ name, 0 ≤ due name)
    (balanced : r.Balanced due) :
    ((r.takeAll amounts.items).1.giveBackAll (fun _ => some 0) amounts.items).Balanced due := by
  have nonneg : ∀ lease ∈ amounts.items, 0 ≤ lease.2 := by
    intro lease mem
    have fits := all_eq_true.mp affordable lease mem
    cases listed : r.pools.get? lease.1 with
    | none => simp [listed] at fits
    | some pool =>
      simp only [listed, any_some, ResourceMgr.canAfford, decide_eq_true_eq] at fits
      exact fits.1
  have taken := balanced.takeAll amounts.nodupKeys
    (Resources.takeAll_of_canAfford amounts.nodupKeys affordable)
  have given := Resources.Balanced.giveBackAll (fun _ => some 0) amounts.nodupKeys nonneg taken
    fun name => le_add_of_nonneg_left (owed name)
  exact given.congr fun name => (add_sub_cancel_right _ _).symm

/-- The versions and the agent id of a launch are spent even when it fails. -/
def reserved (s : Scheduler) (task : Task) : Scheduler :=
  { s with nextAgent := s.nextAgent + 1, store := (s.pinOutputs task).2 }

theorem bindAgent_cases (s : Scheduler) (tid : TaskId) (task : Task) :
    s.bindAgent tid task = s.raises ∨ s.bindAgent tid task = (s.reserved task).raises ∨
      (task.isRunning = false ∧ s.bindAgent tid task = (((s.reserved task).setTask tid
        { task with history := task.history ++ [s.execution task] }).move tid
          .inputValidating).start tid s.nextAgent) := by
  unfold bindAgent Task.pushExecution
  by_cases registered : task.agentSpec ∈ s.specs
  · rw [if_neg (not_not.mpr registered)]
    refine .inr ?_
    cases running : task.isRunning
    · exact .inr ⟨rfl, rfl⟩
    · exact .inl rfl
  · rw [if_pos registered]
    exact .inl rfl

/-- What a launch has done when the runner gets the task. -/
structure Binds (s u : Scheduler) (tid : TaskId) (task : Task) : Prop where
  idle : task.isRunning = false
  ready : s.ready task = true
  taken : (s.resources.takeAll task.resources.items).2 = false
  view : u.view = { s.view with
    nextAgent := s.nextAgent + 1
    tasks := s.tasks.set tid { task with
      status := .inputValidating, history := task.history ++ [s.execution task] }
    store := (s.pinOutputs task).2
    resources := (s.resources.takeAll task.resources.items).1 }
  filed : s.Filed → u.Filed
  starts : u.starts = s.starts

theorem Binds.get? {u : Scheduler} (binds : Binds s u tid task) :
    u.tasks.get? tid = some { task with
      status := .inputValidating, history := task.history ++ [s.execution task] } := by
  rw [show u.tasks = _ from congrArg View.tasks binds.view]
  exact get?_set_self ..

theorem launch_cases (s : Scheduler) (tid : TaskId) :
    s.launch tid = s ∨ ∃ task, s.tasks.get? tid = some task ∧ task.status = .waitingResource ∧
      (s.launch tid = s.move tid .waitingHandoff ∨
        (∃ t resolved, Spent s t task resolved ∧ s.launch tid = t.abortLaunch tid task resolved) ∨
        ∃ u exit, Binds s u tid task ∧ exit = u.start tid s.nextAgent ∧ s.launch tid =
          if exit.raised then exit.state.abortLaunch tid task true else exit.state) := by
  unfold launch
  cases required : s.require tid [.waitingResource] with
  | none => exact .inl rfl
  | some task =>
    obtain ⟨found, status⟩ := require_eq_some.mp required
    rw [mem_singleton] at status
    dsimp only
    by_cases ready : s.ready task = true
    swap
    · exact .inr ⟨task, found, status, .inl (if_pos ready)⟩
    rw [if_neg (not_not.mpr ready)]
    by_cases known : s.resources.knows task.resources.items = true
    swap
    · exact .inr ⟨task, found, status, .inr (.inl ⟨s, false, ⟨rfl, rfl, rfl, rfl, .inl rfl, le_rfl,
        fun _ _ balanced => balanced⟩, if_pos known⟩)⟩
    rw [if_neg (not_not.mpr known)]
    by_cases affordable : s.resources.canAfford task.resources.items = true
    swap
    · exact .inl (if_pos affordable)
    have taken := Resources.takeAll_of_canAfford task.resources.nodupKeys affordable
    rw [if_neg (not_not.mpr affordable), taken]
    refine .inr ⟨task, found, status, .inr ?_⟩
    set leased : Scheduler :=
      { s with resources := (s.resources.takeAll task.resources.items).1 }
    rcases bindAgent_cases leased tid task with raised | raised | ⟨idle, bound⟩
    · exact .inl ⟨leased, true, ⟨rfl, rfl, rfl, rfl, .inl rfl, le_rfl,
        fun _ => balanced_refund affordable⟩, by simp [raised]; rfl⟩
    · exact .inl ⟨leased.reserved task, true, ⟨rfl, rfl, rfl, rfl, .inr rfl, Nat.le_succ _,
        fun _ => balanced_refund affordable⟩, by simp [raised]; rfl⟩
    · refine .inr ⟨_, _, ⟨idle, ready, taken, view_place (leased.reserved task) .., fun filed => ?_,
        starts_place (leased.reserved task) ..⟩, bound, rfl⟩
      exact filed.place (leased.reserved task) rfl rfl (fun _ _ => rfl) fun same =>
        absurd (status.symm.trans same) (by decide)

theorem Goes.of_filed (goes : s.Filed → Goes P s s') (starts : s'.starts = s.starts) :
    Goes P s s' :=
  ⟨fun filed => (goes filed).filed filed, fun filed => (goes filed).runs filed,
    fun _ mem => starts ▸ mem⟩

theorem starts_foldl {β : Type*} {f : Scheduler → β → Scheduler}
    (turn : ∀ s x, (f s x).starts = s.starts) (xs : List β) (s : Scheduler) :
    (xs.foldl f s).starts = s.starts := by
  induction xs generalizing s with
  | nil => rfl
  | cons x xs ih => exact (ih _).trans (turn s x)

section
variable (queue : ∀ tid status, P (.queue tid status))
include queue

theorem goes_landings {tids : List TaskId}
    (waits : ∀ tid ∈ tids, ∃ task, s.tasks.get? tid = some task ∧ task.status ∈ waiting) :
    Goes P s (tids.foldl (fun s tid => match s.tasks.get? tid with
      | none => s
      | some task => s.move tid (s.landing task)) s) := by
  induction tids generalizing s with
  | nil => exact .refl P s
  | cons tid rest ih =>
    obtain ⟨task, found, waiting⟩ := waits tid mem_cons_self
    rw [foldl_cons, found]
    have landing := landing_waiting s task
    refine (goes_queue found (fun _ => waiting) (.inl landing) (queue ..)).trans (ih ?_)
    intro other mem
    rw [get?_move found]
    split_ifs
    · exact ⟨_, rfl, landing⟩
    · exact waits other (.tail _ mem)

theorem goes_recheck (s : Scheduler) : Goes P s s.recheck := by
  refine .of_filed (fun filed => goes_landings queue fun tid mem => ?_) ?_
  · rw [mem_append, mem_filter] at mem
    rcases mem with listed | ⟨listed, -⟩
    all_goals
      obtain ⟨task, found, status⟩ := (filed.listed _ tid).mp listed
      exact ⟨task, found, by rw [status]; decide⟩
  · refine starts_foldl (fun s tid => ?_) ..
    cases s.tasks.get? tid with
    | none => rfl
    | some task => exact starts_move ..

end

theorem goes_drainLoop (index : P .index) (queue : ∀ tid status, P (.queue tid status)) (fuel : ℕ) :
    ∀ (seen : List TaskId) (s : Scheduler), Goes P s (drainLoop fuel seen s) := by
  induction fuel with
  | zero => exact fun _ s => .refl P s
  | succ fuel ih =>
    intro seen s
    unfold drainLoop
    cases s.cascade with
    | nil => exact .refl P s
    | cons tid rest =>
      dsimp only
      refine (goes_index index s rest s.dispatchAgain).trans ?_
      cases taken : if tid ∈ seen then none
          else require { s with cascade := rest } tid waiting with
      | none => exact ih (tid :: seen) _
      | some task =>
        split_ifs at taken
        obtain ⟨found, waiting⟩ := require_eq_some.mp taken
        have cancelled := goes_queue (P := P) found (fun _ => waiting) (.inr rfl) (queue tid .cancelled)
        exact cancelled.trans ((goes_index index ..).trans (ih (tid :: seen) _))

section
variable (permits : Permits P s.starts)
include permits

theorem goes_start (bound : s.Bound tid agent amounts) :
    Goes P s (s.start tid agent).state ∧ ((s.start tid agent).raised = true →
        (s.start tid agent).state.Bound tid agent amounts ∨
          (s.start tid agent).state.Idle tid ∧ P (.abortLate tid)) := by
  set t : Scheduler := { s with starts := s.starts.eraseP fun entry => entry.1 = tid }
  set script := ((s.starts.find? fun entry => entry.1 = tid).map Prod.snd).getD .quiet with chosen
  have erased : Goes P s t := ⟨fun filed => filed.of_same rfl rfl rfl,
    fun _ => .single ⟨.index, permits.index, rfl⟩, eraseP_subset⟩
  -- the script is one of the entries for the task, or the quiet one
  have listed : script = .quiet ∨ (tid, script) ∈ s.starts := by
    cases search : s.starts.find? fun entry => entry.1 = tid with
    | none => exact .inl (by rw [chosen, search]; rfl)
    | some entry =>
      have own : entry.1 = tid := by simpa using List.find?_some search
      refine .inr ?_
      rw [chosen, search, ← own]
      exact mem_of_find?_eq_some search
  have given : script.completes tid = true → (tid, script) ∈ s.starts := fun completes => by
    refine listed.resolve_left fun quiet => ?_
    rw [quiet] at completes
    cases completes
  have permitted : ∀ call ∈ script.calls, call.1.Permitted P := by
    rcases listed with quiet | mem
    · simp [quiet, Script.quiet]
    · exact permits.calls _ mem
  have ran : Goes P t (t.runScript again script).state :=
    goes_runCalls (fun s' _ => goes_index permits.index s' _ true) permitted (List.Subset.refl _)
  have ends := Bound.runCalls (s := t) script.calls bound
  have unfolded : s.start tid agent =
      if (t.runScript again script).raised then t.runScript again script
      else returns { (t.runScript again script).state with
        started := (t.runScript again script).state.started ++ [(tid, agent)] } := rfl
  rw [unfolded]
  split_ifs with raised
  · refine ⟨erased.trans ran, fun _ => ends.imp_right ?_⟩
    rintro ⟨idle, completes, late⟩
    refine ⟨idle, ?_⟩
    have raisesLate : script.raisesLate tid = true := by
      rw [Script.raisesLate, Bool.and_eq_true, Bool.or_eq_true]
      exact ⟨completes, ((Bool.or_eq_true ..).mp raised).symm.imp_right late⟩
    exact permits.abortLate _ (given completes) raisesLate
  · refine ⟨(erased.trans ran).trans ?_, fun impossible => nomatch impossible⟩
    rcases ends with ⟨task, found, phase, open', -⟩ | ⟨-, completes, -⟩
    · exact .one (.start tid agent) (permits.start ..) (fun _ => ⟨⟨task, found, phase, open'⟩, rfl⟩)
        (fun filed => filed.of_same rfl rfl rfl) rfl
    · exact .one (.startLate tid agent) (permits.startLate _ (given completes) completes agent)
        (fun _ => rfl) (fun filed => filed.of_same rfl rfl rfl) rfl

theorem goes_launch (tid : TaskId) : Goes P s (s.launch tid) := by
  rcases s.launch_cases tid with
    same | ⟨task, found, status, waits | ⟨t, _, spent, fails⟩ | ⟨u, exit, binds, runs, ends⟩⟩
  · rw [same]
    exact .refl P s
  · rw [waits]
    exact goes_queue found (fun _ => by rw [status]; decide) (.inl (by decide)) (permits.queue ..)
  · rw [fails]
    exact goes_misfire (permits.misfire tid) found status spent
  · have binding : Goes P s u := .one (.bind tid s.nextAgent) (permits.bind ..)
      (fun _ => ⟨rfl, task, found, status, binds.idle, binds.ready, binds.taken, binds.view⟩)
      binds.filed binds.starts
    have held : u.Bound tid s.nextAgent task.resources :=
      ⟨_, binds.get?, mem_cons_self, ⟨s.execution task, by simp [Task.current], rfl, rfl⟩, rfl⟩
    obtain ⟨started, aborted⟩ := goes_start (binds.starts ▸ permits) held
    rw [← runs] at started aborted
    rw [ends]
    refine binding.trans (started.trans ?_)
    split_ifs with raised
    · rcases aborted raised with ⟨own, found', phase, -, amounts⟩ | ⟨⟨own, found', idle⟩, late⟩
      · have fresh : own.status ≠ .failed := by
          intro failed
          rw [failed] at phase
          revert phase
          decide
        refine .one (.abort tid) (permits.abort tid) (fun _ => ⟨own, found', phase, ?_⟩)
          (fun filed => filed.abortLaunch found' (.inl fresh) task true) (starts_abortLaunch ..)
        rw [view_abortLaunch found' task true, if_pos rfl, amounts]
      · refine .one (.abortLate tid) late (fun _ => ⟨own, found', idle, ?_⟩)
          (fun filed => filed.abortLaunch found' (.inr idle) task true) (starts_abortLaunch ..)
        have view := view_abortLaunch found' task true
        rw [Task.ended_of_idle idle] at view
        have resources : (exit.state.abortLaunch tid task true).resources = _ :=
          congrArg View.resources view
        rw [resources, view]
    · exact .refl P _

theorem goes_drainCascade : Goes P s s.drainCascade := goes_drainLoop permits.index permits.queue ..

end

/-- A dispatch goes along a relation that its parts go along. -/
theorem dispatchLoop_along {R : Scheduler → Scheduler → Prop} {good : Scheduler → Prop}
    (refl : ∀ s, R s s) (trans : ∀ {a b c}, R a b → R b c → R a c)
    (kept : ∀ {a b}, R a b → good a → good b) (drain : ∀ s, good s → R s s.drainCascade)
    (recheck : ∀ s, good s → R s s.recheck) (launch : ∀ s tid, good s → R s (s.launch tid))
    (clear : ∀ s, good s → R s { s with dispatchAgain := false }) (fuel : ℕ) :
    ∀ s, good s → R s (dispatchLoop fuel s) := by
  have launches : ∀ (tids : List TaskId) s, good s → R s (tids.foldl Scheduler.launch s) := by
    intro tids
    induction tids with
    | nil => exact fun s _ => refl s
    | cons tid rest ih =>
      intro s fits
      have first := launch s tid fits
      exact trans first (ih _ (kept first fits))
  induction fuel with
  | zero => exact fun s _ => refl s
  | succ fuel ih =>
    intro s fits
    have drained := drain s fits
    have checked := trans drained (recheck _ (kept drained fits))
    have passed : R s s.drainCascade.dispatchPass :=
      trans checked (launches _ _ (kept checked fits))
    unfold dispatchLoop
    dsimp only
    split_ifs
    · have cleared := trans passed (clear _ (kept passed fits))
      exact trans cleared (ih _ (kept cleared fits))
    · exact passed

theorem submit_admits (s : Scheduler) (task : Task) :
    s.submit task = s.raises ∨ ∃ admitted, s.submit task = admitted.tryDispatch.returns ∧
      Effect.Does s admitted (.admitted task) ∧ (s.Filed → admitted.Filed) ∧
      admitted.starts = s.starts := by
  unfold submit
  by_cases unregistered : task.agentSpec ∉ s.specs
  · exact .inl (if_pos unregistered)
  rw [if_neg unregistered]
  by_cases sound : s.resources.knows task.resources.items = true ∧
      task.resources.items.all (fun lease => 0 ≤ lease.2) = true
  swap
  · exact .inl (if_pos sound)
  split_ifs with existing
  · exact .inl rfl
  · let declared : Scheduler := { s with
      records := s.records.set task.id task
      handoffs := declare s.handoffs task.outputs task.id }
    refine .inr ⟨_, rfl, ⟨fun other found => by simpa [found] using existing, by simpa using sound.2,
      _, landing_waiting .., view_place declared ..⟩, fun filed => ?_, starts_place declared ..⟩
    refine filed.place declared rfl rfl (fun _ differ => get?_set_of_ne differ) fun _ => ?_
    rw [show declared.records.get? task.id = some task from get?_set_self ..]
    exact .some (.inl rfl)

/-- What the call itself does, before the runner and the dispatch. -/
def Op.Permitted (P : Effect → Prop) (s : Scheduler) : Op → Prop
  | .submit task => P (.admitted task)
  | .expedite task => P (.admitted { task with expedited := true })
  | .update tid fields => ∀ old, s.tasks.get? tid = some old → old.status ∈ TaskStatus.waiting →
    P (.admitted { fields with
      id := tid, createdAt := old.createdAt, status := .waitingHandoff, history := [] }) ∧
    P (.admitted { old with status := .waitingHandoff })
  | .resume tid => P (.requeue tid)
  | .stop tid script => P (.phase tid .stopping) ∧ ∀ call ∈ script.calls, call.1.Permitted P
  | .back call => call.Permitted P
  | .restart _ _ => P .demote
  | .removeQueued _ | .cancel _ | .cancelDownstream _ => True

section
variable (permits : Permits P s.starts)
include permits

theorem goes_tryDispatch : Goes P s s.tryDispatch := dispatchLoop_along (.refl P) .trans
    (fun goes => Permits.mono goes.starts) (fun _ => goes_drainCascade)
    (fun s permits => goes_recheck permits.queue s) (fun _ tid permits => goes_launch permits tid)
    (fun s permits => goes_index permits.index s ..) _ s permits

theorem goes_submit (admits : P (.admitted task)) : Goes P s (s.submit task).state := by
  rcases submit_admits s task with refused | ⟨admitted, accepted, does, filed, starts⟩
  · rw [refused]
    exact .refl P s
  · rw [accepted]
    have first : Goes P s admitted := .one (.admitted task) admits (fun _ => does) filed starts
    exact first.trans (goes_tryDispatch (permits.mono first.starts))

theorem goes_updateTask {fields : Task} (permitted : Op.Permitted P s (.update tid fields)) :
    Goes P s (s.updateTask tid fields).state := by
  refine goes_require fun old found waiting => ?_
  obtain ⟨replaces, restores⟩ := permitted old found waiting
  have removed := goes_queue found (fun _ => waiting) (.inr rfl) (permits.queue tid .cancelled)
  have submitted := removed.trans (goes_submit (permits.mono removed.starts) replaces)
  dsimp only
  split_ifs
  · exact submitted.trans (goes_submit (permits.mono submitted.starts) restores)
  · exact submitted

theorem goes_cancels (cascade : List TaskId) :
    Goes P s ({ s with cascade }.drainCascade.tryDispatch) := by
  have queued := goes_index permits.index s cascade s.dispatchAgain
  have drained := queued.trans (goes_drainCascade (permits.mono queued.starts))
  exact drained.trans (goes_tryDispatch (permits.mono drained.starts))

end

abbrev moveAll (f : Task → TaskStatus) (entries : List (TaskId × Task)) (s : Scheduler) :
    Scheduler :=
  entries.foldl (fun s entry => s.move entry.1 (f entry.2)) s

variable (f : Task → TaskStatus) {entries : List (TaskId × Task)}

theorem get?_foldl_move (nodup : (entries.map Prod.fst).Nodup)
    (s : Scheduler) (known : ∀ entry ∈ entries, s.tasks.get? entry.1 = some entry.2) :
    (∀ tid, (moveAll f entries s).tasks.get? tid =
        if tid ∈ entries.map Prod.fst then
          (s.tasks.get? tid).map fun task => { task with status := f task }
        else s.tasks.get? tid) ∧
      (moveAll f entries s).view = { s.view with tasks := (moveAll f entries s).tasks } := by
  induction entries generalizing s with
  | nil => exact ⟨fun tid => by simp, rfl⟩
  | cons entry rest ih =>
    rw [map_cons, nodup_cons] at nodup
    have found := known entry mem_cons_self
    have view := view_move found (f entry.2)
    have still : ∀ other ∈ rest,
        (s.move entry.1 (f entry.2)).tasks.get? other.1 = some other.2 := by
      intro other mem
      have differ : other.1 ≠ entry.1 := fun same =>
        nodup.1 (mem_map.mpr ⟨other, mem, same⟩)
      rw [get?_move found, if_neg differ]
      exact known other (.tail _ mem)
    obtain ⟨lookup, rest'⟩ := ih nodup.2 _ still
    refine ⟨fun tid => ?_, ?_⟩
    · rw [moveAll, foldl_cons, lookup, get?_move found, map_cons]
      by_cases same : tid = entry.1
      · simp [same, nodup.1, found]
      · simp only [same, if_false, mem_cons, false_or]
    · rw [moveAll, foldl_cons, rest', view]

theorem pools_foldl_move (entries : List (TaskId × Task)) (s : Scheduler)
    (status : TaskStatus) (tid : TaskId) (listed : tid ∈ (moveAll f entries s).pools status) :
    (∃ task, (tid, task) ∈ entries ∧ f task = status) ∨ tid ∈ s.pools status := by
  induction entries generalizing s with
  | nil => exact .inr listed
  | cons entry rest ih =>
    rcases ih _ listed with ⟨task, mem, moved⟩ | before
    · exact .inl ⟨task, .tail _ mem, moved⟩
    · rw [mem_pools_move] at before
      split_ifs at before with own
      · exact .inl ⟨entry.2, own ▸ mem_cons_self, before.symm⟩
      · exact .inr before

theorem mem_pools_foldl_move
    (nodup : (entries.map Prod.fst).Nodup) (s : Scheduler) (mem : (tid, task) ∈ entries) :
    tid ∈ (moveAll f entries s).pools (f task) := by
  have stays : ∀ (rest : List (TaskId × Task)) (s : Scheduler), tid ∉ rest.map Prod.fst →
      tid ∈ s.pools (f task) →
      tid ∈ (moveAll f rest s).pools (f task) := by
    intro rest
    induction rest with
    | nil => exact fun s _ listed => listed
    | cons entry rest ih =>
      intro s absent listed
      rw [map_cons, mem_cons, not_or] at absent
      refine ih _ absent.2 ?_
      rwa [mem_pools_move, if_neg absent.1]
  induction entries generalizing s with
  | nil => cases mem
  | cons entry rest ih =>
    rw [map_cons, nodup_cons] at nodup
    rcases mem_cons.mp mem with rfl | later
    · exact stays rest _ nodup.1 (by rw [mem_pools_move, if_pos rfl])
    · exact ih nodup.2 _ later

theorem records_foldl_move (entries : List (TaskId × Task))
    (s : Scheduler) (known : ∀ entry ∈ entries, (s.tasks.get? entry.1).isSome = true)
    (same : ∀ tid, s.records.get? tid = s.tasks.get? tid) (tid : TaskId) :
    (moveAll f entries s).records.get? tid = (moveAll f entries s).tasks.get? tid := by
  induction entries generalizing s with
  | nil => exact same tid
  | cons entry rest ih =>
    obtain ⟨task, found⟩ := isSome_iff_exists.mp (known entry mem_cons_self)
    refine ih _ (fun other mem => ?_) fun other => ?_
    · rw [get?_move found]
      split_ifs
      · rfl
      · exact known other (.tail _ mem)
    · rw [get?_move found, get?_records_move found]
      by_cases own : other = entry.1
      · subst own
        by_cases stays : task.status = f entry.2
        · rw [if_neg (by simp [stays]), if_pos rfl, same, found, ← stays]
        · simp [stays]
      · simp [own, same]

section
variable (s : Scheduler) (specs : List String) (capacities : Dict String (PoolKind × ℚ))

/-- The state that a restart dispatches from. -/
def rebuilt : Scheduler :=
  let tasks := s.records.mapValues fun _ (task : Task) => (task.closeExecution .suspended).getD task
  tasks.items.foldl (fun s entry => s.move entry.1 (demoted entry.2.status)) { s with
    specs
    tasks
    records := tasks
    resources := s.resources.resumeSystem capacities
    pools _ := []
    cascade := [] }

theorem rebuilt_spec :
    (s.Filed → Effect.Does s (s.rebuilt specs capacities) .demote) ∧
      (s.rebuilt specs capacities).Filed ∧ (s.rebuilt specs capacities).starts = s.starts := by
  unfold rebuilt
  set tasks := s.records.mapValues fun _ (task : Task) =>
    (task.closeExecution .suspended).getD task with closed
  set fresh : Scheduler := { s with
    specs
    tasks
    records := tasks
    resources := s.resources.resumeSystem capacities
    pools _ := []
    cascade := [] }
  have known : ∀ entry ∈ tasks.items, fresh.tasks.get? entry.1 = some entry.2 :=
    fun entry mem => (get?_eq_some_iff ..).mpr mem
  obtain ⟨lookup, view⟩ := get?_foldl_move (fun task => demoted task.status) tasks.nodupKeys fresh
    known
  have table : ∀ tid, fresh.tasks.get? tid =
      (s.records.get? tid).map fun task => (task.closeExecution .suspended).getD task :=
    fun tid => get?_mapValues ..
  have found : ∀ tid, (tasks.items.foldl (fun s entry => s.move entry.1 (demoted entry.2.status))
      fresh).tasks.get? tid = (fresh.tasks.get? tid).map fun task =>
        { task with status := demoted task.status } := by
    intro tid
    rw [lookup]
    split_ifs with listed
    · rfl
    · rw [show fresh.tasks.get? tid = none from (get?_eq_none_iff ..).mpr listed]
      rfl
  refine ⟨fun filed => ⟨filed.recorded, fun tid => ?_, ⟨capacities, ?_⟩, ?_⟩, ?_, ?_⟩
  · rw [found, table]
    cases s.records.get? tid with
    | none => rfl
    | some record => simp [record.status_closed]
  · exact congrArg View.resources view
  · rw [show resources _ = s.resources.resumeSystem capacities from congrArg View.resources view]
    exact view
  · refine ⟨fun status tid => ⟨fun listed => ?_, ?_⟩, ?_, fun tid => ?_⟩
    · rcases pools_foldl_move (fun task => demoted task.status) _ _ _ _ listed with
        ⟨task, mem, moved⟩ | impossible
      · refine ⟨{ task with status := demoted task.status }, ?_, moved⟩
        rw [found, known (tid, task) mem]
        rfl
      · cases impossible
    · rintro ⟨task, listed, rfl⟩
      rw [found, map_eq_some_iff] at listed
      obtain ⟨before, listed, rfl⟩ := listed
      exact mem_pools_foldl_move (fun task => demoted task.status) tasks.nodupKeys fresh
        ((get?_eq_some_iff ..).mp listed)
    · have once : ∀ (entries : List (TaskId × Task)) (s : Scheduler),
          (∀ status, (s.pools status).Nodup) → ∀ status, ((entries.foldl
            (fun s entry => s.move entry.1 (demoted entry.2.status)) s).pools status).Nodup := by
        intro entries
        induction entries with
        | nil => exact fun s once => once
        | cons entry rest ih => exact fun s once => ih _ fun status => nodup_pools_move once ..
      exact once _ fresh fun _ => nodup_nil
    · have same := records_foldl_move (fun task => demoted task.status) tasks.items fresh
        (fun entry mem => by rw [known entry mem]; rfl) (fun _ => rfl) tid
      rw [same]
      cases get? _ tid with
      | none => exact .none
      | some task => exact .some (.inl rfl)
  · exact starts_foldl (fun s (entry : TaskId × Task) => starts_move s entry.1 _) _ fresh

end

theorem goes_resumeSystem (permits : Permits P s.starts) (demote : P .demote)
    (specs : List String) (capacities : Dict String (PoolKind × ℚ)) :
    Goes P s (s.resumeSystem specs capacities) := by
  obtain ⟨does, filed, starts⟩ := s.rebuilt_spec specs capacities
  have rebuilding : Goes P s (s.rebuilt specs capacities) :=
    .one .demote demote does (fun _ => filed) starts
  exact rebuilding.trans (goes_tryDispatch (permits.mono rebuilding.starts))

theorem goes_perform (permits : Permits P s.starts) {op : Op} (permitted : op.Permitted P s) :
    Goes P s (s.perform op).state := by
  cases op with
  | submit task => exact goes_submit permits permitted
  | expedite task =>
    dsimp only [perform, expedite]
    split_ifs
    · exact goes_submit permits permitted
    · exact .refl P s
  | removeQueued tid =>
    exact goes_require fun task found waiting =>
      goes_queue found (fun _ => waiting) (.inr rfl) (permits.queue tid .cancelled)
  | update tid fields => exact goes_updateTask permits permitted
  | resume tid =>
    refine goes_require fun task found resumable => ?_
    have requeued : Goes P s (s.move tid (s.landing task)) := .one (.requeue tid) permitted
        (fun _ => ⟨_, landing_waiting .., task, found, resumable, view_move found _⟩)
        (fun filed => filed.move found _) (starts_move ..)
    exact requeued.trans (goes_tryDispatch (permits.mono requeued.starts))
  | cancel tid =>
    exact goes_require fun task _ _ => goes_cancels permits _
  | cancelDownstream tid =>
    dsimp only [perform, cancelDownstream]
    cases s.tasks.get? tid with
    | none => exact .refl P s
    | some task => exact goes_cancels permits _
  | stop tid script =>
    refine goes_require fun task found phase => ?_
    have asked : Goes P s (s.move tid .stopping) := .one (.phase tid .stopping) permitted.1
        (fun _ => ⟨.inr rfl, task, found, phase, view_move found _⟩)
        (fun filed => filed.move found _) (starts_move ..)
    exact asked.trans (goes_runCalls (fun s' within => goes_tryDispatch (permits.mono within))
      permitted.2 asked.starts)
  | back call =>
    exact goes_callBack permitted fun s' same => goes_tryDispatch (same ▸ permits)
  | restart specs capacities => exact goes_resumeSystem permits permitted specs capacities

def Event.Permitted (P : Effect → Prop) (s : Scheduler) (e : Event) : Prop :=
  Permits P e.starts ∧ e.op.Permitted P s

theorem next_keeps {Inv : Scheduler → Prop}
    (keep : ∀ {a b e}, P e → Effect.Does a b e → Inv a → Inv b) {e : Event}
    (permitted : e.Permitted P s) (filed : s.Filed) (holds : Inv s) :
    (s.next e).Filed ∧ Inv (s.next e) := by
  obtain ⟨permits, permitted⟩ := permitted
  let given : Scheduler := { s with starts := e.starts }
  have goes : Goes P given (given.perform e.op).state := goes_perform permits permitted
  have known : given.Filed := filed.of_same rfl rfl rfl
  have still : Inv (given.perform e.op).state := by
    refine Relation.ReflTransGen.head_induction_on (goes.runs known)
      (motive := fun a _ => Inv a → Inv (given.perform e.op).state) id ?_ ?_
    · rintro a b ⟨e, allowed, does⟩ - ih inv
      exact ih (keep allowed does inv)
    · exact keep (a := s) (b := given) permits.index rfl holds
  exact ⟨(goes.filed known).of_same rfl rfl rfl, keep (a := (given.perform e.op).state)
    (b := s.next e) permits.index rfl still⟩

end Scheduler
end Infera.TaskGraph
