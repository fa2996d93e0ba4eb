import Infera.TaskGraph.Effects

/-! Dispatch with a runner that only takes a task on or refuses it. Inside the
scheduler's lock it then makes no call, so a launch is one change: the task is
bound and its attempt is started, or the launch is undone. A dispatch is a run of
such changes, and every call of the scheduler is a change of its own followed by
a dispatch. -/

namespace Infera.TaskGraph.Scheduler
open TaskStatus
variable {s s' s'' : Scheduler} {task : Task} {tid : TaskId}

def Quiet (s : Scheduler) : Prop := ∀ entry ∈ s.starts, entry.2.calls = []

theorem Quiet.mono (quiet : s.Quiet) (subset : s'.starts ⊆ s.starts) : s'.Quiet :=
  fun entry mem => quiet entry (subset mem)

/-- Neither the slots nor the attempts change, and the table as given. -/
structure Keeps (s s' : Scheduler) (tasks : Dict TaskId Task) : Prop where
  tasks : s'.tasks = tasks
  handoffs : s'.handoffs = s.handoffs
  store : s'.store = s.store
  nextAgent : s'.nextAgent = s.nextAgent
  started : s'.started = s.started

theorem Keeps.of_view {tasks : Dict TaskId Task} {resources : Resources}
    (view : s'.view = { s.view with tasks, resources }) : Keeps s s' tasks :=
  ⟨congrArg View.tasks view, congrArg View.handoffs view, congrArg View.store view,
    congrArg View.nextAgent view, congrArg View.started view⟩

inductive Shift (s s' : Scheduler) : Prop
  | stay (keeps : Keeps s s' s.tasks)
  | queue (tid : TaskId) (task : Task) (status : TaskStatus)
      (found : s.tasks.get? tid = some task) (waits : task.status ∈ TaskStatus.waiting)
      (stays : status ∈ TaskStatus.waiting ∨ status = .cancelled)
      (keeps : Keeps s s' (s.tasks.set tid { task with status }))
  | misfire (tid : TaskId) (task : Task) (history : List Execution)
      (found : s.tasks.get? tid = some task) (waits : task.status = .waitingResource)
      (ends : history = (task.ended .failed).history ∨
        task.isRunning = false ∧ s.ready task = true ∧
          history = task.history ++ [{ s.execution task with outcome := some .failed }])
      (tasks : s'.tasks = s.tasks.set tid { task with status := .failed, history })
      (handoffs : s'.handoffs = s.handoffs)
      (store : s'.store = s.store ∨ s'.store = (s.pinOutputs task).2)
      (nextAgent : s.nextAgent ≤ s'.nextAgent)
      (started : s'.started = s.started)
  | launch (tid : TaskId) (task : Task)
      (found : s.tasks.get? tid = some task) (waits : task.status = .waitingResource)
      (idle : task.isRunning = false) (ready : s.ready task = true)
      (tasks : s'.tasks = s.tasks.set tid { task with
        status := .inputValidating, history := task.history ++ [s.execution task] })
      (handoffs : s'.handoffs = s.handoffs)
      (store : s'.store = (s.pinOutputs task).2)
      (nextAgent : s'.nextAgent = s.nextAgent + 1)
      (started : s'.started = s.started ++ [(tid, s.nextAgent)])

structure Shifts (s s' : Scheduler) : Prop where
  filed : s.Filed → s'.Filed
  runs : s.Filed → Relation.ReflTransGen Shift s s'
  starts : s'.starts ⊆ s.starts

theorem Shifts.refl (s : Scheduler) : Shifts s s := ⟨id, fun _ => .refl, List.Subset.refl _⟩

theorem Shifts.trans (first : Shifts s s') (second : Shifts s' s'') : Shifts s s'' :=
  ⟨fun filed => second.filed (first.filed filed),
    fun filed => (first.runs filed).trans (second.runs (first.filed filed)),
    List.Subset.trans second.starts first.starts⟩

/-- The effects that only touch the index and the queue. -/
def Queues (e : Effect) : Prop := e = .index ∨ ∃ tid status, e = .queue tid status

theorem Goes.shifts (goes : Goes Queues s s') : Shifts s s' := by
  refine { goes with runs := fun filed => Relation.ReflTransGen.mono ?_ _ _ (goes.runs filed) }
  rintro a b ⟨e, rfl | ⟨tid, status, rfl⟩, does⟩
  · exact .stay (.of_view does)
  · obtain ⟨stays, task, found, waits, view⟩ := does
    exact .queue tid task status found waits stays (.of_view view)

theorem start_cases (quiet : s.Quiet) (tid : TaskId) (agent : AgentId) :
    ∃ starts ⊆ s.starts, s.start tid agent = raises { s with starts } ∨
      s.start tid agent = returns { s with starts, started := s.started ++ [(tid, agent)] } := by
  set script := ((s.starts.find? fun entry => entry.1 = tid).map Prod.snd).getD .quiet with chosen
  have silent : script.calls = [] := by
    cases search : s.starts.find? fun entry => entry.1 = tid with
    | none => rw [chosen, search]; rfl
    | some entry =>
      rw [chosen, search]
      exact quiet entry (List.mem_of_find?_eq_some search)
  refine ⟨s.starts.eraseP fun entry => entry.1 = tid, List.eraseP_subset, ?_⟩
  unfold start
  dsimp only
  rw [runScript, silent]
  cases raises : script.raises
  · exact .inr rfl
  · exact .inl rfl

theorem history_aborted (s : Scheduler) (task : Task) (status : TaskStatus) :
    ({ task with status, history := task.history ++ [s.execution task] } : Task).ended .failed =
      { task with
        status := .failed
        history := task.history ++ [{ s.execution task with outcome := some .failed }] } := by
  simp [Task.ended, Task.closeExecution, Task.current, Execution.isOpen, execution]

theorem shifts_misfire {t : Scheduler} {resolved : Bool} (found : s.tasks.get? tid = some task)
    (waits : task.status = .waitingResource) (spent : Spent s t task resolved) :
    Shifts s (t.abortLaunch tid task resolved) := by
  have view := spent.view found
  have store : (t.abortLaunch tid task resolved).store = t.store := congrArg View.store view
  have agent : (t.abortLaunch tid task resolved).nextAgent = t.nextAgent :=
    congrArg View.nextAgent view
  have ended : task.ended .failed =
      { task with status := .failed, history := (task.ended .failed).history } := by
    obtain ⟨history, closed⟩ := task.closed_eq .failed
    simp [Task.ended, closed]
  refine ⟨spent.filed found waits, fun _ => .single (.misfire tid task _ found waits (.inl rfl) ?_
    (congrArg View.handoffs view) (store ▸ spent.store) (agent ▸ spent.agent)
    (congrArg View.started view)), ?_⟩
  · rw [← ended]
    exact congrArg View.tasks view
  · rw [starts_abortLaunch, spent.starts]
    exact List.Subset.refl _

theorem shifts_launch (quiet : s.Quiet) (tid : TaskId) : Shifts s (s.launch tid) := by
  rcases s.launch_cases tid with
    same | ⟨task, found, status, waits | ⟨t, _, spent, fails⟩ | ⟨u, exit, binds, runs, ends⟩⟩
  · rw [same]
    exact .refl s
  · rw [waits]
    exact (goes_queue found (fun _ => by rw [status]; decide) (.inl (by decide))
      (.inr ⟨_, _, rfl⟩)).shifts
  · rw [fails]
    exact shifts_misfire found status spent
  have view := binds.view
  obtain ⟨left, subset, refused | started⟩ :=
    start_cases (s := u) (quiet.mono fun _ mem => binds.starts ▸ mem) tid s.nextAgent
  · -- the start raised: the attempt is closed and what was taken is given back
    set v : Scheduler := { u with starts := left }
    rw [ends, runs, refused]
    change Shifts s (v.abortLaunch tid task true)
    have undone := view_abortLaunch (s := v) binds.get? task true
    have agent : (v.abortLaunch tid task true).nextAgent = s.nextAgent + 1 :=
      (congrArg View.nextAgent undone).trans (congrArg View.nextAgent view)
    have tasks : (v.abortLaunch tid task true).tasks = s.tasks.set tid { task with
        status := .failed
        history := task.history ++ [{ s.execution task with outcome := some .failed }] } := by
      refine (congrArg View.tasks undone).trans ?_
      rw [show u.tasks = _ from congrArg View.tasks view]
      refine (Dict.set_set ..).trans ?_
      exact congrArg _ (history_aborted s task .inputValidating)
    refine ⟨fun known => ?_, fun _ => .single (.misfire tid task _ found status
      (.inr ⟨binds.idle, binds.ready, rfl⟩) tasks
      ((congrArg View.handoffs undone).trans (congrArg View.handoffs view))
      (.inr ((congrArg View.store undone).trans (congrArg View.store view)))
      (agent.symm ▸ Nat.le_succ _)
      ((congrArg View.started undone).trans (congrArg View.started view))), ?_⟩
    · have same : v.Filed := (binds.filed known).of_same rfl rfl rfl
      exact same.abortLaunch binds.get? (.inl (by simp)) task true
    · rw [starts_abortLaunch, ← binds.starts]
      exact subset
  · rw [ends, runs, started]
    refine ⟨fun known => (binds.filed known).of_same rfl rfl rfl, fun _ => .single
      (.launch tid task found status binds.idle binds.ready (congrArg View.tasks view)
        (congrArg View.handoffs view) (congrArg View.store view) (congrArg View.nextAgent view) ?_),
      ?_⟩
    · exact congrArg (· ++ [(tid, s.nextAgent)]) (congrArg View.started view)
    · rw [← binds.starts]
      exact subset

theorem shifts_drainLoop (fuel : ℕ) (seen : List TaskId) (s : Scheduler) :
    Shifts s (drainLoop fuel seen s) :=
  (goes_drainLoop (.inl rfl) (fun _ _ => .inr ⟨_, _, rfl⟩) fuel seen s).shifts

theorem shifts_index (s : Scheduler) (cascade : List TaskId) (dispatchAgain : Bool) :
    Shifts s { s with cascade, dispatchAgain } :=
  ⟨fun filed => filed.of_same rfl rfl rfl, fun _ => .single (.stay ⟨rfl, rfl, rfl, rfl, rfl⟩),
    fun _ mem => mem⟩

theorem shifts_tryDispatch (quiet : s.Quiet) : Shifts s s.tryDispatch :=
  dispatchLoop_along .refl .trans (fun shifts quiet => quiet.mono shifts.starts)
    (fun _ _ => shifts_drainLoop ..)
    (fun s _ => (goes_recheck (fun _ _ => .inr ⟨_, _, rfl⟩) s).shifts)
    (fun _ tid quiet => shifts_launch quiet tid) (fun s _ => shifts_index s ..) _ s quiet

/-- The slots of the table stay filed, and the starts to come are as they were. -/
structure Files (s s' : Scheduler) : Prop where
  filed : s.Filed → s'.Filed
  starts : s'.starts = s.starts

/-- A new task, or one in place of a task that waits or is cancelled. -/
structure Admits (s s' : Scheduler) (task : Task) : Prop where
  free : ∀ existing, s.tasks.get? task.id = some existing →
    existing.status ∈ TaskStatus.waiting ∨ existing.status = .cancelled
  tasks : ∃ status ∈ TaskStatus.waiting, s'.tasks = s.tasks.set task.id { task with status }
  handoffs : s'.handoffs = declare s.handoffs task.outputs task.id
  store : s'.store = s.store
  nextAgent : s'.nextAgent = s.nextAgent
  started : s'.started = s.started

theorem submit_cases (s : Scheduler) (task : Task) : s.submit task = s.raises ∨
      ∃ admitted, (Admits s admitted task ∧ Files s admitted) ∧
        s.submit task = admitted.tryDispatch.returns := by
  rcases submit_admits s task with
    refused | ⟨admitted, accepted, ⟨free, -, status, waits, view⟩, filed, starts⟩
  · exact .inl refused
  · refine .inr ⟨admitted, ⟨?_, filed, starts⟩, accepted⟩
    exact
      { free existing found := .inr (free existing found)
        tasks := ⟨status, waits, congrArg View.tasks view⟩
        handoffs := congrArg View.handoffs view
        store := congrArg View.store view
        nextAgent := congrArg View.nextAgent view
        started := congrArg View.started view }

structure Moves (s s' : Scheduler) (tid : TaskId) (task : Task) (status : TaskStatus) : Prop where
  found : s.tasks.get? tid = some task
  keeps : Keeps s s' (s.tasks.set tid { task with status })

theorem moves_move (found : s.tasks.get? tid = some task)
    (status : TaskStatus) :
    Moves s (s.move tid status) tid task status ∧ Files s (s.move tid status) :=
  ⟨⟨found, .of_view (view_move found status)⟩, fun filed => filed.move found status,
    starts_move ..⟩

theorem resumeTask_cases (s : Scheduler) (tid : TaskId) : s.resumeTask tid = s.raises ∨
      ∃ task requeued, task.status ∈ resumable ∧
        (∃ status ∈ waiting, Moves s requeued tid task status ∧ Files s requeued) ∧
        s.resumeTask tid = requeued.tryDispatch.returns := by
  unfold resumeTask
  cases required : s.require tid resumable with
  | none => exact .inl rfl
  | some task =>
    obtain ⟨found, resumable⟩ := require_eq_some.mp required
    exact .inr ⟨task, _, resumable, ⟨_, landing_waiting .., moves_move found _⟩, rfl⟩

theorem updateTask_cases (s : Scheduler) (tid : TaskId) (fields old : Task)
    (required : s.require tid waiting = some old) :
    ∃ cancelled raised, (Moves s cancelled tid old .cancelled ∧ Files s cancelled) ∧
      ((s.updateTask tid fields) = ⟨cancelled, true⟩ ∨ ∃ task admitted, (task = { fields with
            id := tid, createdAt := old.createdAt, status := .waitingHandoff, history := [] } ∨
          task = { old with status := .waitingHandoff }) ∧
          (Admits cancelled admitted task ∧ Files cancelled admitted) ∧
          s.updateTask tid fields = ⟨admitted.tryDispatch, raised⟩) := by
  obtain ⟨found, waiting⟩ := require_eq_some.mp required
  set new : Task := { fields with
    id := tid, createdAt := old.createdAt, status := .waitingHandoff, history := [] } with replaces
  unfold updateTask
  rw [required]
  dsimp only
  rcases submit_cases (s.move tid .cancelled) new with rejected | ⟨admitted, admits, accepted⟩
  · refine ⟨_, true, moves_move found .cancelled, ?_⟩
    rw [rejected]
    rcases submit_cases (s.move tid .cancelled) { old with status := .waitingHandoff } with
      lost | ⟨admitted, admits, restored⟩
    · exact .inl (congrArg (fun exit : Exit => exit.state.raises) lost)
    · exact .inr ⟨_, admitted, .inr rfl, admits,
        congrArg (fun exit : Exit => exit.state.raises) restored⟩
  · refine ⟨_, false, moves_move found .cancelled, .inr ⟨_, admitted, .inl rfl, admits, ?_⟩⟩
    rw [accepted]
    rfl

theorem shifts_removal (quiet : s.Quiet) {op : Op}
    (removes : (∃ tid, op = .removeQueued tid) ∨ (∃ tid, op = .cancel tid) ∨
      ∃ tid, op = .cancelDownstream tid) : Shifts s (s.perform op).state := by
  have cancels : ∀ cascade, Shifts s { s with cascade }.drainCascade.tryDispatch := by
    intro cascade
    have drained : Shifts s { s with cascade }.drainCascade :=
      (shifts_index s cascade _).trans (shifts_drainLoop ..)
    exact drained.trans (shifts_tryDispatch (quiet.mono drained.starts))
  rcases removes with ⟨tid, rfl⟩ | ⟨tid, rfl⟩ | ⟨tid, rfl⟩
  · dsimp only [perform, removeQueued]
    cases required : s.require tid waiting with
    | none => exact .refl s
    | some task =>
      obtain ⟨found, waiting⟩ := require_eq_some.mp required
      exact (goes_queue found (fun _ => waiting) (.inr rfl) (.inr ⟨_, _, rfl⟩)).shifts
  · dsimp only [perform, cancel]
    cases s.require tid waiting with
    | none => exact .refl s
    | some task => exact cancels _
  · dsimp only [perform, cancelDownstream]
    cases s.tasks.get? tid with
    | none => exact .refl s
    | some task => exact cancels _

def Held (s : Scheduler) : Prop :=
  ∀ tid task, s.tasks.get? tid = some task → task.status ∈ TaskStatus.holding →
    task.status ∈ TaskStatus.phases ∧ task.isRunning = true

structure Settles (s s' : Scheduler) (tid : TaskId) (task closed : Task) (outcome : TaskStatus) :
    Prop where
  found : s.tasks.get? tid = some task
  phase : task.status ∈ TaskStatus.phases
  closing : task.closeExecution outcome = some closed
  keeps : Keeps s s' (s.tasks.set tid { closed with status := outcome })

theorem onTaskDone_cases (held : s.Held) (tid : TaskId) (outcome : TaskStatus)
    (usage : Dict String ℚ) : (s.onTaskDone tryDispatch tid outcome usage = s.raises ∧
      ∀ task, s.tasks.get? tid = some task → task.status ∉ phases) ∨
      ∃ task closed settled, (Settles s settled tid task closed outcome ∧ Files s settled) ∧
        s.onTaskDone tryDispatch tid outcome usage = settled.tryDispatch.returns := by
  unfold onTaskDone close
  cases required : s.require tid phases with
  | none =>
    refine .inl ⟨rfl, fun task found phase => ?_⟩
    rw [require_eq_some.mpr ⟨found, phase⟩] at required
    cases required
  | some task =>
    obtain ⟨found, phase⟩ := require_eq_some.mp required
    have running := (held tid task found (holding_of_phase phase)).2
    rw [← task.closeExecution_isSome outcome, Option.isSome_iff_exists] at running
    obtain ⟨closed, closing⟩ := running
    refine .inr ⟨task, closed, _, ?_, by dsimp only; rw [closing]⟩
    exact ⟨⟨found, phase, closing,
        .of_view (view_place (s.release task (some usage)) tid closed outcome)⟩,
      fun filed => filed.place (s.release task (some usage)) rfl rfl (fun _ _ => rfl)
        fun _ => filed.recorded_closed found (holding_of_phase phase) closing,
      starts_place (s.release task (some usage)) ..⟩

theorem stop_cases (held : s.Held) (tid : TaskId) :
    (s.stop tid ⟨[(.stopped tid, false)], false⟩ = s.raises ∧ s.require tid phases = none) ∨
      ∃ task closed settled, (Settles s settled tid task closed .suspended ∧ Files s settled) ∧
        s.stop tid ⟨[(.stopped tid, false)], false⟩ = settled.tryDispatch.returns := by
  unfold stop
  cases required : s.require tid phases with
  | none => exact .inl ⟨rfl, rfl⟩
  | some task =>
    obtain ⟨found, phase⟩ := require_eq_some.mp required
    have running := (held tid task found (holding_of_phase phase)).2
    rw [← task.closeExecution_isSome .suspended, Option.isSome_iff_exists] at running
    obtain ⟨closed, closing⟩ := running
    set asked := s.move tid .stopping with stopping
    have found' : asked.tasks.get? tid = some { task with status := .stopping } :=
      (get?_move found ..).trans (if_pos rfl)
    have closing' : ({ task with status := .stopping } : Task).closeExecution .suspended =
        some { closed with status := .stopping } := by
      rw [Task.closeExecution_status, closing]
      rfl
    set freed := asked.release { task with status := .stopping } none
    set settled := (freed.setTask tid { closed with status := .stopping }).move tid .suspended
    have ran : asked.runScript tryDispatch ⟨[(.stopped tid, false)], false⟩ =
        settled.tryDispatch.returns := by
      have acknowledged : asked.onStopped tryDispatch tid = settled.tryDispatch.returns := by
        unfold onStopped close
        rw [require_eq_some.mpr ⟨found', List.mem_singleton_self _⟩]
        dsimp only
        rw [closing']
      simp only [runScript, runCalls, callBack, acknowledged]
      rfl
    refine .inr ⟨task, closed, settled, ?_, ran⟩
    have view : settled.view = { s.view with
        tasks := s.tasks.set tid { closed with status := .suspended }
        resources := freed.resources } := by
      refine (view_place freed tid { closed with status := .stopping } .suspended).trans ?_
      have before : freed.view = { s.view with
          tasks := s.tasks.set tid { task with status := .stopping }
          resources := freed.resources } :=
        congrArg (fun v : View => { v with resources := freed.resources }) (view_move found _)
      rw [before, show freed.tasks = _ from congrArg View.tasks before, Dict.set_set]
    refine ⟨⟨found, phase, closing, .of_view view⟩, fun filed => ?_,
      (starts_place freed ..).trans (starts_move s tid .stopping)⟩
    have filed' : asked.Filed := filed.move found .stopping
    exact filed'.place freed rfl rfl (fun _ _ => rfl) fun same => absurd same (by simp)

end Infera.TaskGraph.Scheduler
