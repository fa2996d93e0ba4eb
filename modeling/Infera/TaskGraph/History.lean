import Infera.TaskGraph.Leases

/-! The four copies of a task's state: its status, the pools of the scheduler,
the attempts in its history and its durable record. They agree between calls,
provided that runners report how a task ended and that a task is submitted
without an open attempt. An attempt that is closed stays as it is, unless the
whole task is replaced: an update, or a submission under the id of a cancelled
task, brings its own history. -/

namespace Infera.TaskGraph
open TaskStatus List

/-- Attempts are numbered from zero, and only the last can be open. -/
structure Numbered (history : List Execution) : Prop where
  attempts : history.map (·.attempt) = List.range history.length
  closed : ∀ e ∈ history.dropLast, e.isOpen = false

instance (history : List Execution) : Decidable (Numbered history) :=
  decidable_of_iff
    (history.map (·.attempt) = List.range history.length ∧ ∀ e ∈ history.dropLast, e.isOpen = false)
    ⟨fun both => ⟨both.1, both.2⟩, fun numbered => ⟨numbered.attempts, numbered.closed⟩⟩

namespace Task
variable {task closed : Task}

/-- The history is in order, and its top is open exactly while the task has a lease. -/
structure Ordered (task : Task) : Prop where
  numbered : Numbered task.history
  isOpen : task.isRunning = true ↔ task.status ∈ TaskStatus.holding

/-- Each closed attempt of the one is the same attempt of the other. -/
def Extends (task task' : Task) : Prop :=
  ∀ (i : ℕ) (e : Execution), task.history[i]? = some e → e.isOpen = false →
    task'.history[i]? = some e

theorem Extends.refl (task : Task) : task.Extends task := fun _ _ found _ => found

theorem Extends.trans {task' task'' : Task} (first : task.Extends task')
    (second : task'.Extends task'') : task.Extends task'' :=
  fun i e found ended => second i e (first i e found ended) ended

variable {outcome : TaskStatus}

variable (closing : task.closeExecution outcome = some closed)
include closing

theorem Extends.close : task.Extends closed := by
  obtain ⟨past, top, split, isOpen, rfl⟩ := closeExecution_eq_some closing
  intro i e found ended
  rw [split] at found
  rcases lt_or_ge i past.length with early | late
  · rw [List.getElem?_append_left early] at found ⊢
    exact found
  · rw [getElem?_append_right late, getElem?_singleton] at found
    split_ifs at found
    cases found
    cases isOpen.symm.trans ended

end Task

theorem Numbered.all_closed {task : Task} (numbered : Numbered task.history)
    (idle : task.isRunning = false) : ∀ e ∈ task.history, e.isOpen = false := by
  rcases eq_nil_or_concat task.history with empty | ⟨past, top, split⟩
  · simp [empty]
  · have before := numbered.closed
    rw [split, concat_eq_append, dropLast_concat] at before
    intro e mem
    rw [split, concat_eq_append, mem_append, mem_singleton] at mem
    rcases mem with mem | rfl
    · exact before e mem
    · simpa [Task.isRunning, Task.current, split] using idle

theorem Numbered.close {task closed : Task}
    (numbered : Numbered task.history) (closing : task.closeExecution outcome = some closed) :
    Numbered closed.history := by
  obtain ⟨past, top, split, isOpen, rfl⟩ := Task.closeExecution_eq_some closing
  have attempts := numbered.attempts
  have before := numbered.closed
  rw [split] at attempts before
  refine ⟨?_, ?_⟩
  · simpa using attempts
  · simpa using before

theorem Numbered.push {task : Task} (numbered : Numbered task.history)
    (idle : task.isRunning = false) {e : Execution} (next : e.attempt = task.history.length) :
    Numbered (task.history ++ [e]) := by
  refine ⟨?_, ?_⟩
  · simp [numbered.attempts, next, range_succ]
  · rw [dropLast_concat]
    exact numbered.all_closed idle

namespace Task
variable {task : Task} {status : TaskStatus}

theorem Ordered.of_idle (numbered : Numbered task.history) (idle : task.isRunning = false)
    (ends : task.status ∉ holding) : task.Ordered :=
  ⟨numbered, by simp [idle, ends]⟩

/-- The task goes on from the other, with nothing closed changed. -/
structure Follows (task' task : Task) : Prop where
  id : task'.id = task.id
  kept : task.Extends task'
  ordered : task.Ordered → task'.Ordered

theorem Follows.move (same : task.status ∈ holding ↔ status ∈ holding) :
    ({ task with status } : Task).Follows task :=
  ⟨rfl, .refl task, fun ordered => ⟨ordered.numbered, ordered.isOpen.trans same⟩⟩

theorem Follows.idle (ends : status ∉ holding)
    (idle : task.isRunning = false) : ({ task with status } : Task).Follows task :=
  ⟨rfl, .refl task, fun ordered => .of_idle ordered.numbered idle ends⟩

theorem Follows.closed {closed : Task}
    (ends : status ∉ holding) (closing : task.closeExecution outcome = some closed) :
    ({ closed with status } : Task).Follows task := by
  have kept : task.Extends closed := .close closing
  have idle : closed.isRunning = false := isRunning_closed closing
  refine ⟨?_, kept, fun ordered => ?_⟩
  · obtain ⟨_, _, -, -, rfl⟩ := closeExecution_eq_some closing
    rfl
  · have numbered : Numbered closed.history := ordered.numbered.close closing
    exact .of_idle numbered idle ends

theorem Follows.ended (outcome : TaskStatus) (ends : status ∉ holding) :
    ({ (task.closeExecution outcome).getD task with status } : Task).Follows task := by
  cases closing : task.closeExecution outcome with
  | some closed => exact .closed ends closing
  | none =>
    have idle : task.isRunning = false := by
      rw [← task.closeExecution_isSome outcome, closing]
      rfl
    exact .idle ends idle

theorem Follows.push (held : status ∈ holding) (idle : task.isRunning = false)
    {e : Execution} (next : e.attempt = task.history.length) (isOpen : e.isOpen = true) :
    ({ task with status, history := task.history ++ [e] } : Task).Follows task := by
  refine ⟨rfl, fun i own found _ => ?_, fun ordered => ⟨ordered.numbered.push idle next, ?_⟩⟩
  · obtain ⟨early, -⟩ := List.getElem?_eq_some_iff.mp found
    exact (List.getElem?_append_left early).trans found
  · simp [isRunning, current, isOpen, held]

end Task

/-- Runners report how a task ended, and no task is admitted but one of this id, without an open
attempt. -/
def Effect.Regular (own : Option TaskId) : Effect → Prop
  | .admitted task => own = some task.id ∧ Numbered task.history ∧ task.isRunning = false
  | .settle _ status => status ∉ TaskStatus.holding
  | _ => True

namespace Scheduler
variable {s s' : Scheduler} {own : Option TaskId} {tid : TaskId}

/-- Tasks are kept under their ids, with their histories in order. -/
def Chronicled (s : Scheduler) : Prop :=
  ∀ tid task, s.tasks.get? tid = some task → task.id = tid ∧ task.Ordered

/-- Every task but one of this id is still there, with its closed attempts. -/
def GoesOn (own : Option TaskId) (s s' : Scheduler) : Prop :=
  ∀ tid, own ≠ some tid → ∀ task, s.tasks.get? tid = some task →
    ∃ task', s'.tasks.get? tid = some task' ∧ task.Extends task'

theorem GoesOn.refl (own : Option TaskId) (s : Scheduler) : GoesOn own s s :=
  fun _ _ task found => ⟨task, found, .refl task⟩

theorem GoesOn.trans {s'' : Scheduler} (first : GoesOn own s s') (second : GoesOn own s' s'') :
    GoesOn own s s'' := by
  intro tid kept task found
  obtain ⟨task', found', before⟩ := first tid kept task found
  obtain ⟨task'', found'', after⟩ := second tid kept task' found'
  exact ⟨task'', found'', before.trans after⟩

section
variable (ordered : s.Chronicled)
include ordered

theorem Chronicled.set {task task' : Task}
    (found : s.tasks.get? tid = some task) (follows : task'.Follows task)
    (tasks : s'.tasks = s.tasks.set tid task') : s'.Chronicled ∧ GoesOn own s s' := by
  refine ⟨fun other known listed => ?_, fun other _ known listed => ?_⟩
  · rcases Dict.get?_set_cases (tasks ▸ listed) with ⟨same, rfl⟩ | ⟨-, listed⟩
    · obtain ⟨id, before⟩ := ordered tid task found
      exact ⟨(follows.id.trans id).trans same.symm, follows.ordered before⟩
    · exact ordered other known listed
  · rw [tasks, Dict.get?_set]
    split_ifs with same
    · subst same
      cases found.symm.trans listed
      exact ⟨task', rfl, follows.kept⟩
    · exact ⟨known, listed, .refl known⟩

theorem Chronicled.same (tasks : s'.tasks = s.tasks) : s'.Chronicled ∧ GoesOn own s s' := by
  refine ⟨?_, fun tid _ task found => ⟨task, by rw [tasks, found], .refl task⟩⟩
  unfold Chronicled
  rw [tasks]
  exact ordered

theorem Chronicled.changes {before : Task → Prop} {status : TaskStatus}
    (same : ∀ task, before task → (task.status ∈ holding ↔ status ∈ holding))
    (change : Changes s s' tid before ({ · with status })) : s'.Chronicled ∧ GoesOn own s s' := by
  obtain ⟨task, found, was, view⟩ := change
  exact ordered.set found (.move (same task was)) (congrArg View.tasks view)

theorem Chronicled.closes {allowed : List TaskStatus} (ends : outcome ∉ holding)
    (closes : Closes s s' tid allowed outcome) : s'.Chronicled ∧ GoesOn own s s' := by
  obtain ⟨task, closed, usage, found, -, closing, view⟩ := closes
  exact ordered.set found (.closed ends closing) (congrArg View.tasks view)

theorem Chronicled.recorded
    (recorded : Option.Rel Task.Recorded (s.records.get? tid) (s.tasks.get? tid)) :
    s.records.get? tid = s.tasks.get? tid := by
  cases known : s.records.get? tid with
  | none =>
    rw [known] at recorded
    cases found : s.tasks.get? tid with
    | none => rfl
    | some task =>
      rw [found] at recorded
      cases recorded
  | some record =>
    rw [known] at recorded
    obtain ⟨task, found, rfl | ⟨held, outcome, closing⟩⟩ := Task.Recorded.of_rel recorded
    · exact found.symm
    · have idle := Task.isRunning_closed closing
      cases ((ordered tid task found).2.isOpen.mpr held).symm.trans idle

end

theorem Chronicled.effect {e : Effect} (regular : e.Regular own) (does : e.Does s s')
    (ordered : s.Chronicled) : s'.Chronicled ∧ GoesOn own s s' := by
  cases e with
  | index | startLate | write => exact ordered.same (congrArg View.tasks does)
  | admitted task =>
    obtain ⟨-, -, status, waiting, view⟩ := does
    obtain ⟨brought, numbered, idle⟩ := regular
    have tasks : s'.tasks = s.tasks.set task.id { task with status } := congrArg View.tasks view
    refine ⟨fun other known listed => ?_, fun other kept known listed => ⟨known, ?_, .refl known⟩⟩
    · rcases Dict.get?_set_cases (tasks ▸ listed) with ⟨same, rfl⟩ | ⟨-, listed⟩
      · exact ⟨same.symm, .of_idle numbered idle (not_holding_of_waiting waiting)⟩
      · exact ordered other known listed
    · have differ : other ≠ task.id := fun same => kept (same ▸ brought)
      rw [tasks, Dict.get?_set_of_ne differ, listed]
  | queue tid status =>
    obtain ⟨stays, change⟩ := does
    exact ordered.changes (fun task waits =>
      iff_of_false (not_holding_of_waiting waits) (not_holding_of_queued stays)) change
  | requeue tid =>
    obtain ⟨status, waiting, change⟩ := does
    refine ordered.changes (fun task resumable => iff_of_false ?_
      (not_holding_of_waiting waiting)) change
    revert resumable
    cases task.status <;> decide
  | phase tid status =>
    obtain ⟨held, change⟩ := does
    refine ordered.changes (fun task phase => iff_of_true (holding_of_phase phase) ?_) change
    rcases held with phase | rfl
    · exact holding_of_phase phase
    · decide
  | bind tid agent =>
    obtain ⟨-, task, found, -, idle, -, -, view⟩ := does
    exact ordered.set found (.push (by decide) idle rfl rfl) (congrArg View.tasks view)
  | start tid agent => exact ordered.same (congrArg View.tasks does.2)
  | misfire tid =>
    obtain ⟨task, found, -, -, -, -, view⟩ := does
    exact ordered.set found (.ended .failed (by decide)) (congrArg View.tasks view)
  | abort tid =>
    obtain ⟨task, found, -, view⟩ := does
    exact ordered.set found (.ended .failed (by decide)) (congrArg View.tasks view)
  | abortLate tid =>
    obtain ⟨task, found, idle, view⟩ := does
    exact ordered.set found (.idle (by decide) idle) (congrArg View.tasks view)
  | settle tid status => exact ordered.closes regular does
  | acknowledge tid => exact ordered.closes (by decide) does
  | leak tid =>
    obtain ⟨task, found, held, idle⟩ := does
    cases ((ordered tid task found).2.isOpen.mpr held).symm.trans idle
  | demote =>
    obtain ⟨recorded, tasks, -⟩ := does
    have follows : ∀ task : Task, ({ (task.closeExecution .suspended).getD task with
        status := demoted task.status } : Task).Follows task :=
      fun task => .ended .suspended (not_holding_demoted task.status)
    have lookup : ∀ tid, s'.tasks.get? tid = (s.tasks.get? tid).map fun task =>
        { (task.closeExecution .suspended).getD task with status := demoted task.status } :=
      fun tid => (tasks tid).trans (by rw [ordered.recorded (recorded tid)])
    refine ⟨fun tid task found => ?_, fun tid _ task found => ?_⟩
    · rw [lookup, Option.map_eq_some_iff] at found
      obtain ⟨before, known, rfl⟩ := found
      obtain ⟨id, order⟩ := ordered tid before known
      exact ⟨(follows before).id.trans id, (follows before).ordered order⟩
    · exact ⟨_, by rw [lookup, found]; rfl, (follows task).kept⟩

def Op.brings : Op → Option TaskId
  | .submit task | .expedite task => some task.id
  | .update tid _ => some tid
  | _ => none

/-- The attempts of a submitted task are in order and closed. -/
def Op.SubmitsIdle : Op → Prop
  | .submit task | .expedite task => Numbered task.history ∧ task.isRunning = false
  | _ => True

instance : (op : Op) → Decidable op.SubmitsIdle
  | .submit _ | .expedite _ => instDecidableAnd
  | .removeQueued _ | .update _ _ | .resume _ | .cancel _ | .cancelDownstream _ | .stop _ _
  | .back _ | .restart _ _ => .isTrue trivial

/-- Runners report how tasks end, and a task is submitted without an open attempt. -/
def Event.Regular (e : Event) : Prop :=
  (∀ call ∈ e.op.calls, call.reportsEnd = true) ∧
    (∀ entry ∈ e.starts, ∀ call ∈ entry.2.calls, call.1.reportsEnd = true) ∧ e.op.SubmitsIdle

instance (e : Event) : Decidable e.Regular := instDecidableAnd

theorem permitted_of_reports {call : Callback} (ends : call.reportsEnd = true) :
    call.Permitted (Effect.Regular own) := by
  cases call with
  | done tid status usage =>
    have ended : status ∉ holding := by simpa [Callback.reportsEnd] using ends
    exact ⟨ended, trivial⟩
  | stopped tid => exact ⟨trivial, trivial⟩
  | enterPhase | write => trivial

theorem Event.Regular.permitted {e : Event} (regular : e.Regular) (ordered : s.Chronicled) :
    e.Permitted (Effect.Regular e.op.brings) s := by
  obtain ⟨reports, starts, submitted⟩ := regular
  constructor
  · exact {
      index := trivial
      queue _ _ := trivial
      bind _ _ := trivial
      start _ _ := trivial
      misfire _ := trivial
      abort _ := trivial
      calls entry mem call listed := permitted_of_reports (starts entry mem call listed)
      startLate _ _ _ _ := trivial
      abortLate _ _ _ := trivial }
  · cases op : e.op with
    | submit | expedite =>
      rw [op] at submitted
      exact ⟨rfl, submitted⟩
    | update tid fields =>
      intro old found waiting
      obtain ⟨id, order⟩ := ordered tid old found
      have idle : old.isRunning = false := by
        rw [← Bool.not_eq_true, order.isOpen]
        exact not_holding_of_waiting waiting
      exact ⟨⟨rfl, ⟨rfl, by simp⟩, rfl⟩, ⟨congrArg some id.symm, order.numbered, idle⟩⟩
    | stop tid script =>
      refine ⟨trivial, fun call mem => permitted_of_reports (reports call.1 ?_)⟩
      rw [op]
      exact mem_map_of_mem mem
    | back call =>
      refine permitted_of_reports (reports call ?_)
      rw [op]
      exact mem_singleton_self call
    | _ => trivial

/-- Each task is listed once, under its status, its record is up to date and its history is in
order. -/
structure Agrees (s : Scheduler) : Prop where
  listed : ∀ status tid, tid ∈ s.pools status ↔
    ∃ task, s.tasks.get? tid = some task ∧ task.status = status
  once : ∀ status, (s.pools status).Nodup
  recorded : ∀ tid, s.records.get? tid = s.tasks.get? tid
  ordered : ∀ tid task, s.tasks.get? tid = some task → task.Ordered

/-- The task is replaced by the call: it is cancelled and submitted again, or it waits and is
updated. -/
def Op.Replaces (s : Scheduler) (tid : TaskId) : Op → Prop
  | .submit task | .expedite task =>
    task.id = tid ∧ (s.tasks.get? tid).any (·.status = .cancelled) = true
  | .update other _ => other = tid ∧ (s.tasks.get? tid).any (·.status ∈ TaskStatus.waiting) = true
  | _ => False

theorem perform_of_not_replaces {op : Op} (brings : op.brings = some tid)
    (kept : ¬op.Replaces s tid) {task : Task} (found : s.tasks.get? tid = some task) :
    (s.perform op).state = s := by
  have refused : ∀ own : Task, own.id = tid → task.status ≠ .cancelled → (s.submit own).state = s := by
    rintro own rfl active
    have existing : (s.tasks.get? own.id).any (·.status ≠ .cancelled) = true := by
      simpa [found] using active
    unfold submit
    split_ifs <;> rfl
  cases op with
  | submit own =>
    cases brings
    exact refused own rfl (by simpa [Op.Replaces, found] using kept)
  | expedite own =>
    cases brings
    dsimp only [perform, expedite]
    split_ifs
    · exact refused { own with expedited := true } rfl (by simpa [Op.Replaces, found] using kept)
    · rfl
  | update other fields =>
    cases brings
    have busy : s.require tid waiting = none := by
      rw [Option.eq_none_iff_forall_not_mem]
      intro own required
      obtain ⟨found', waiting⟩ := require_eq_some.mp required
      cases found.symm.trans found'
      exact kept ⟨rfl, by simpa [found] using waiting⟩
    dsimp only [perform, updateTask]
    rw [busy]
    rfl
  | _ => cases brings

theorem Chronicled.next (filed : s.Filed) (ordered : s.Chronicled) {e : Event}
    (regular : e.Regular) :
    (s.next e).Filed ∧ (s.next e).Chronicled ∧ GoesOn e.op.brings s (s.next e) :=
  let Inv : Scheduler → Prop := fun t => t.Chronicled ∧ GoesOn e.op.brings s t
  have keep : ∀ {a b : Scheduler} {effect : Effect}, effect.Regular e.op.brings →
      Effect.Does a b effect → Inv a → Inv b := fun regular does known => by
    obtain ⟨after, goesOn⟩ := known.1.effect regular does
    exact ⟨after, known.2.trans goesOn⟩
  next_keeps keep (regular.permitted ordered) filed ⟨ordered, .refl _ s⟩

def NoTasks (s : Scheduler) : Prop :=
  s.tasks = .empty ∧ s.records = .empty ∧ ∀ status, s.pools status = []

/-- Between calls status, pool, record and history agree; a call keeps every task with its closed
attempts, but for the one it replaces. -/
theorem copies_agree {s : Scheduler} (reached : Reaches NoTasks next (fun _ e => e.Regular) s) :
    s.Agrees ∧ ∀ e : Event, e.Regular → ∀ tid task, s.tasks.get? tid = some task →
      ¬e.op.Replaces s tid →
        ∃ task', (s.next e).tasks.get? tid = some task' ∧ task.Extends task' := by
  have base : ∀ s : Scheduler, s.NoTasks → s.Filed ∧ s.Chronicled := by
    rintro s ⟨tasks, records, pools⟩
    refine ⟨⟨fun status tid => ?_, fun status => ?_, fun tid => ?_⟩, fun tid task found => ?_⟩
    · simp [pools, tasks]
    · rw [pools]
      exact nodup_nil
    · rw [tasks, records]
      exact .none
    · simp [tasks] at found
  have kept : s.Filed ∧ s.Chronicled := reached.invariant base fun s e known regular => by
    obtain ⟨filed, ordered, -⟩ := known.2.next known.1 regular
    exact ⟨filed, ordered⟩
  obtain ⟨filed, ordered⟩ := kept
  refine ⟨⟨filed.listed, filed.once, fun tid => ordered.recorded (filed.recorded tid),
    fun tid task found => (ordered tid task found).2⟩, fun e regular tid task found stays => ?_⟩
  by_cases brings : e.op.brings = some tid
  · have same := perform_of_not_replaces (s := { s with starts := e.starts }) brings
      (by
        cases op : e.op with
        | _ => rw [op] at stays; exact stays) found
    refine ⟨task, ?_, .refl task⟩
    rw [show s.next e = { s with starts := [] } by rw [Scheduler.next, same]]
    exact found
  · exact (ordered.next filed regular).2.2 tid brings task found

/-- Task 0 fails and is resumed, and waits because task 1 has the units. -/
def failedAndResumed : List Event :=
  [⟨.submit (unitTask 0 2), []⟩, ⟨.back (.done 0 .failed .empty), []⟩,
    ⟨.submit (unitTask 1 2), []⟩, ⟨.resume 0, []⟩]

theorem failed_and_resumed_agrees :
    let s := failedAndResumed.foldl next twoUnits
    s.Agrees ∧ s.pools .waitingResource = [0] ∧ s.pools .inputValidating = [1] ∧
      ∃ task task', s.tasks.get? 0 = some task ∧ task.history.length = 1 ∧
        (s.next ⟨.restart ["worker"] .empty, []⟩).tasks.get? 0 = some task' ∧
          task.Extends task' := by
  have regular : ∀ e ∈ failedAndResumed, e.Regular := by decide +kernel
  have reached : Reaches NoTasks next (fun _ e => e.Regular)
      (failedAndResumed.foldl next twoUnits) := by
    refine Reaches.run _ (.start ⟨rfl, rfl, fun _ => rfl⟩) fun pre e post split => ?_
    exact regular e (split ▸ mem_append_right pre mem_cons_self)
  obtain ⟨agrees, keeps⟩ := copies_agree reached
  have known : ((failedAndResumed.foldl next twoUnits).tasks.get? 0).any
      (·.history.length = 1) = true := by decide +kernel
  obtain ⟨task, found, once⟩ := (Option.any_eq_true ..).mp known
  obtain ⟨task', found', kept⟩ := keeps ⟨.restart ["worker"] .empty, []⟩ (by decide +kernel) 0 task
    found (fun replaced => replaced)
  exact ⟨agrees, by decide +kernel, by decide +kernel, task, task', found, by simpa using once,
    found', kept⟩

/-- An update of the task that waits takes its failed attempt away. -/
theorem update_drops_closed_attempt :
    let s := failedAndResumed.foldl next twoUnits
    twoUnits.NoTasks ∧ (∀ e ∈ failedAndResumed, e.Regular) ∧
      ((s.tasks.get? 0).map fun task => task.history.map fun e => (e.attempt, e.outcome)) =
        some [(0, some .failed)] ∧
      (((s.next ⟨.update 0 (unitTask 0 2), []⟩).tasks.get? 0).map fun task =>
        task.history.length) = some 0 :=
  ⟨⟨rfl, rfl, fun _ => rfl⟩, by decide +kernel, by decide +kernel, by decide +kernel⟩

end Scheduler
end Infera.TaskGraph
