import Infera.TaskGraph.System

/-! What an event can do. A call of the scheduler is a change of one task followed
by a dispatch, and a dispatch is a run of single changes, each of which starts one
attempt at most. Between events the index is in order, no script is left over, and
each task that has a lease has an open attempt. -/

namespace Infera.TaskGraph
open Scheduler TaskStatus List

namespace System
variable {s s' : System} {refused : List TaskId} {a b : Scheduler} {op : Op}
  {task : Task} {tid : TaskId} {outcome : TaskStatus} {h : Scheduler}

theorem adopt_of_same (started : b.started = s.scheduler.started) :
    s.adopt b = { s with scheduler := b } := by
  rw [adopt, started, drop_length]
  rfl

theorem adopt_of_launch {agent : AgentId}
    (started : b.started = s.scheduler.started ++ [(tid, agent)]) : s.adopt b = { s with
      scheduler := b
      current := s.current.set tid agent
      attempts := s.attempts.set agent (.fresh tid) } := by
  rw [adopt, started, drop_left]
  rfl

theorem adopt_adopt {c : Scheduler} (first : s.scheduler.started <+: b.started)
    (second : b.started <+: c.started) : (s.adopt b).adopt c = s.adopt c := by
  obtain ⟨fresh, first⟩ := first
  obtain ⟨fresher, second⟩ := second
  unfold adopt
  dsimp only
  rw [← second, drop_left, ← first, drop_left, append_assoc, drop_left, map_append]
  simp [Dict.assign]

/-- One change of a dispatch, with the attempt that it starts. -/
def Shift (s s' : System) : Prop := ∃ b, s.scheduler.Shift b ∧ s' = s.adopt b

def Dispatched : System → System → Prop := Relation.ReflTransGen Shift

theorem Dispatched.keeps {Inv : System → Prop} (keep : ∀ {s s'}, Shift s s' → Inv s → Inv s')
    (run : Dispatched s s') (holds : Inv s) : Inv s' := by
  induction run with
  | refl => exact holds
  | tail _ shift ih => exact keep shift ih

theorem started_of_shift (shift : a.Shift b) : a.started <+: b.started := by
  cases shift with
  | stay keeps | queue _ _ _ _ _ _ keeps => exact keeps.started ▸ prefix_rfl
  | misfire _ _ _ _ _ _ _ _ _ _ started =>
    exact started ▸ prefix_rfl
  | launch _ _ _ _ _ _ _ _ _ _ started =>
    rw [started]
    exact prefix_append ..

theorem dispatched_of_shifts (run : Relation.ReflTransGen Scheduler.Shift s.scheduler b) :
    s.scheduler.started <+: b.started ∧ Dispatched s (s.adopt b) := by
  induction run with
  | refl =>
    rw [adopt_of_same rfl]
    exact ⟨prefix_rfl, .refl⟩
  | tail _ shift ih =>
    have grows := started_of_shift shift
    exact ⟨ih.1.trans grows, ih.2.tail ⟨_, shift, (adopt_adopt ih.1 grows).symm⟩⟩

structure Sane (s : System) : Prop where
  filed : s.scheduler.Filed
  starts : s.scheduler.starts = []
  held : s.scheduler.Held
  keyed : ∀ tid task, s.scheduler.tasks.get? tid = some task → task.id = tid

/-- What holds of each task of the table in order. -/
def InOrder (a : Scheduler) : Prop :=
  ∀ tid task, a.tasks.get? tid = some task → task.id = tid ∧
    (task.status ∈ TaskStatus.holding → task.status ∈ TaskStatus.phases ∧ task.isRunning = true)

theorem Sane.inOrder (sane : s.Sane) : InOrder s.scheduler :=
  fun tid task found => ⟨sane.keyed tid task found, sane.held tid task found⟩

theorem InOrder.sane (inOrder : InOrder s.scheduler) (filed : s.scheduler.Filed)
    (starts : s.scheduler.starts = []) : s.Sane :=
  ⟨filed, starts, fun tid task found => (inOrder tid task found).2,
    fun tid task found => (inOrder tid task found).1⟩

theorem InOrder.set (inOrder : InOrder a) (tasks : b.tasks = a.tasks.set tid task)
    (id : task.id = tid) (own : task.status ∈ holding →
      task.status ∈ phases ∧ task.isRunning = true) : InOrder b := by
  intro other found lookup
  rcases Dict.get?_set_cases (tasks ▸ lookup) with ⟨same, rfl⟩ | ⟨-, lookup⟩
  · exact ⟨id.trans same.symm, own⟩
  · exact inOrder other found lookup

theorem InOrder.shift (inOrder : InOrder a) (shift : a.Shift b) : InOrder b := by
  cases shift with
  | stay keeps => exact fun tid task found => inOrder tid task (keeps.tasks ▸ found)
  | queue tid task _ found _ stays keeps =>
    exact inOrder.set keeps.tasks (inOrder tid task found).1 fun holds =>
      absurd holds (not_holding_of_queued stays)
  | misfire tid task _ found _ _ tasks =>
    exact inOrder.set tasks (inOrder tid task found).1 fun holds =>
      absurd holds (by simp [holding])
  | launch tid task found _ _ _ tasks =>
    refine inOrder.set tasks (inOrder tid task found).1 fun _ => ⟨mem_cons_self, ?_⟩
    simp [Task.isRunning, Task.current, execution, Execution.isOpen]

theorem InOrder.shifts (run : Relation.ReflTransGen Scheduler.Shift a b) (inOrder : InOrder a) :
    InOrder b := by
  induction run with
  | refl => exact inOrder
  | tail _ shift ih => exact ih.shift shift

def given (s : System) (refused : List TaskId) : Scheduler :=
  { s.scheduler with starts := refused.map (·, ⟨[], true⟩) }

theorem quiet_given (s : System) (refused : List TaskId) : (s.given refused).Quiet := by
  intro entry mem
  obtain ⟨tid, -, rfl⟩ := mem_map.mp mem
  rfl

theorem invoke_shifts (filed : h.Filed) (inOrder : InOrder h)
    (started : h.started = s.scheduler.started)
    (shifts : Shifts h (s.perform op refused).state) :
    Dispatched { s with scheduler := { h with starts := [] } } (s.invoke op refused) ∧
      (s.invoke op refused).Sane := by
  set b : Scheduler := { (s.perform op refused).state with starts := [] }
  have first : ({ h with starts := [] } : Scheduler).Shift h := .stay ⟨rfl, rfl, rfl, rfl, rfl⟩
  have last : (s.perform op refused).state.Shift b := .stay ⟨rfl, rfl, rfl, rfl, rfl⟩
  have run : Relation.ReflTransGen Scheduler.Shift { h with starts := [] } b :=
    .head first ((shifts.runs filed).tail last)
  have result : s.invoke op refused =
      { s with scheduler := { h with starts := [] } }.adopt b := by
    change s.adopt b = _
    unfold adopt
    rw [started]
  have kept : InOrder b := .shifts run inOrder
  refine ⟨?_, kept.sane ((shifts.filed filed).of_same rfl rfl rfl) rfl⟩
  rw [result]
  exact (dispatched_of_shifts (s := { s with scheduler := { h with starts := [] } }) run).2

theorem keeps_given {tasks : Dict TaskId Task} (keeps : (s.given refused).Keeps b tasks) :
    s.scheduler.Keeps { b with starts := [] } tasks :=
  { keeps with }

@[simp] theorem scheduler_detach (s : System) (tid : TaskId) :
    (s.detach tid).scheduler = s.scheduler := by
  unfold detach
  split <;> rfl

theorem InOrder.admits (inOrder : InOrder a) (admits : Admits a b task) : InOrder b := by
  obtain ⟨status, waits, tasks⟩ := admits.tasks
  exact inOrder.set tasks rfl fun holds => absurd holds (not_holding_of_waiting waits)

theorem given_of_same (scheduler : s'.scheduler = s.scheduler) (refused : List TaskId) :
    s'.given refused = s.given refused := by
  rw [given, given, scheduler]

theorem closed_same {closed : Task} (closing : task.closeExecution outcome = some closed) :
    ∃ history, closed = { task with history } := by
  obtain ⟨history, same⟩ := task.closed_eq outcome
  rw [closing] at same
  exact ⟨history, same⟩

section
variable (s : System)

def halt (tid : TaskId) : System :=
  let halted := match s.current.get? tid with
    | none => s
    | some agent => s.alter agent fun a => { a with halted := true, wake := true }
  { halted with current := halted.current.erase tid }

theorem scheduler_alter (agent : AgentId) (f : Attempt → Attempt) :
    (s.alter agent f).scheduler = s.scheduler := by
  unfold alter
  split <;> rfl

theorem scheduler_halt (tid : TaskId) : (s.halt tid).scheduler = s.scheduler := by
  unfold halt
  split
  · rfl
  · exact scheduler_alter ..

def durable : System :=
  { s with
    scheduler := { s.scheduler with handoffs := s.scheduler.handoffs.assign s.lagging.items }
    current := .empty
    attempts := .empty
    planned := []
    handling := .empty
    lagging := .empty }

end

/-- Every task is rebuilt from its record, and none is in a phase. -/
structure Rebuilds (s s' : Scheduler) : Prop where
  tasks : ∀ tid, Option.Rel (fun before after : Task => ∃ record, Task.Recorded record before ∧
        after = { (record.closeExecution .suspended).getD record with
          status := Scheduler.demoted record.status })
    (s.tasks.get? tid) (s'.tasks.get? tid)
  handoffs : s'.handoffs = s.handoffs
  store : s'.store = s.store
  nextAgent : s'.nextAgent = s.nextAgent
  started : s'.started = s.started

theorem demoted_not_holding (status : TaskStatus) : demoted status ∉ holding := by
  cases status <;> decide

theorem enterPhase_moves {s : Scheduler} {phase : TaskStatus}
    (found : s.tasks.get? tid = some task) (next : task.status.nextPhase = some phase) :
    Scheduler.Moves s (s.enterPhase tid phase).state tid task phase ∧
      Files s (s.enterPhase tid phase).state := by
  have phases : task.status ∈ phases := by
    revert next
    cases task.status <;> simp [nextPhase, phases]
  have enters : s.enterPhase tid phase = (s.move tid phase).returns := by
    unfold Scheduler.enterPhase
    rw [Scheduler.require_eq_some.mpr ⟨found, phases⟩]
    exact if_pos next
  rw [enters]
  exact Scheduler.moves_move found phase

def upcoming (s : System) (tid : TaskId) : Option EventRecord :=
  s.planned.find? fun record => record.tid = tid

def others (s : System) (tid : TaskId) : List EventRecord :=
  s.planned.eraseP fun record => record.tid = tid

/-- The subtasks that a monitor has to submit for a task that it moved to a phase. -/
inductive Expands (s : System) (tid : TaskId) (task : Task) (phase : TaskStatus) (raises : Bool) :
    Dict TaskId (List Task) → Prop
  | plain (leaf : ¬(phase = .running ∧ task.hasSubgraph = true)) :
      Expands s tid task phase raises (s.handling.set tid [])
  | failed (enters : phase = .running) (nonLeaf : task.hasSubgraph = true)
      (fails : raises = true ∨ ∃ error, unfold s.regs task.graph (s.alreadyUnfolded tid)
        s.nextHandoff s.nextTask = .error error) :
      Expands s tid task phase raises s.handling
  | unfolded (enters : phase = .running) (nonLeaf : task.hasSubgraph = true)
      (subtasks : List GraphTask)
      (made : unfold s.regs task.graph (s.alreadyUnfolded tid) s.nextHandoff s.nextTask =
        .ok subtasks) :
      Expands s tid task phase raises (s.handling.set tid (subtasks.map (·.task s.regs)))

inductive Delivers (s : System) (tid : TaskId) (raises : Bool) : System → Prop
  | idle (none : s.handling.contains tid = true ∨ s.upcoming tid = none) : Delivers s tid raises s
  | dropped (record : EventRecord) (free : s.handling.contains tid = false)
      (taken : s.upcoming tid = some record)
      (reason : ∀ task, s.scheduler.tasks.get? tid = some task →
        record.isLast = false ∧ task.status.nextPhase = none ∨
        record.isLast = true ∧ (task.isEnd = false ∨ raises = true ∨
          ∀ parent, task.parent = some parent → s.scheduler.tasks.get? parent = none)) :
      Delivers s tid raises { s with planned := s.others tid }
  | notified (record : EventRecord) (task : Task) (parent : TaskId)
      (free : s.handling.contains tid = false) (taken : s.upcoming tid = some record)
      (last : record.isLast = true) (found : s.scheduler.tasks.get? tid = some task)
      (ends : task.isEnd = true) (child : task.parent = some parent) :
      Delivers s tid raises
        { s with planned := s.others tid ++ [.subgraphDone parent tid] }
  | advanced (record : EventRecord) (task : Task) (phase : TaskStatus) (h : Scheduler)
      (handling : Dict TaskId (List Task)) (nextHandoff : HandoffId) (nextTask : TaskId)
      (free : s.handling.contains tid = false) (taken : s.upcoming tid = some record)
      (last : record.isLast = false) (next : task.status.nextPhase = some phase)
      (moves : Scheduler.Moves s.scheduler h tid task phase ∧ Files s.scheduler h)
      (expands : Expands { s with scheduler := h } tid task phase raises handling) :
      Delivers s tid raises
        { s with
          scheduler := h
          planned := s.others tid
          handling
          nextHandoff
          nextTask
          acted := if record.isSubgraphDone then s.acted ++ (task.current.map (·.agentId)).toList
            else s.acted }

theorem foldl_uses (tasks : List Task) (s : System) :
    ∃ nextHandoff nextTask, tasks.foldl uses s = { s with nextHandoff, nextTask } := by
  induction tasks generalizing s with
  | nil => exact ⟨_, _, rfl⟩
  | cons task rest ih =>
    obtain ⟨nextHandoff, nextTask, same⟩ := ih (s.uses task)
    exact ⟨nextHandoff, nextTask, same⟩

theorem expands_expand (s : System) (tid : TaskId) (task : Task) (raises : Bool)
    (nonLeaf : task.hasSubgraph = true) :
    ∃ handling nextHandoff nextTask, Expands s tid task .running raises handling ∧
      (if raises then s else s.expand tid task) = { s with handling, nextHandoff, nextTask } := by
  cases raises with
  | true => exact ⟨_, _, _, .failed rfl nonLeaf (.inl rfl), rfl⟩
  | false =>
    simp only [expand]
    cases made : unfold s.regs task.graph (s.alreadyUnfolded tid) s.nextHandoff s.nextTask with
    | error error => exact ⟨_, _, _, .failed rfl nonLeaf (.inr ⟨error, made⟩), rfl⟩
    | ok subtasks =>
      obtain ⟨nextHandoff, nextTask, same⟩ := foldl_uses (subtasks.map (·.task s.regs))
        { s with handling := s.handling.set tid (subtasks.map (·.task s.regs)) }
      exact ⟨_, nextHandoff, nextTask, .unfolded rfl nonLeaf subtasks made, same⟩

theorem advance_delivers {record : EventRecord} {raises : Bool}
    (free : s.handling.contains tid = false) (taken : s.upcoming tid = some record)
    (last : record.isLast = false) (found : s.scheduler.tasks.get? tid = some task) :
    Delivers s tid raises ({ s with planned := s.others tid }.advance tid task record raises) := by
  unfold advance
  cases next : task.status.nextPhase with
  | none =>
    refine .dropped record free taken fun other lookup => ?_
    cases found.symm.trans lookup
    exact .inl ⟨last, next⟩
  | some phase =>
    have moves := enterPhase_moves found next
    dsimp only
    set moved : System := { s with
      scheduler := (s.scheduler.enterPhase tid phase).state
      planned := s.others tid
      acted := if record.isSubgraphDone then s.acted ++ (task.current.map (·.agentId)).toList
        else s.acted }
    by_cases expands : phase = .running ∧ task.hasSubgraph = true
    · rw [if_pos expands]
      obtain ⟨handling, nextHandoff, nextTask, expanded, same⟩ :=
        expands_expand moved tid task raises expands.2
      rw [same]
      obtain ⟨rfl, -⟩ := expands
      refine .advanced record task .running _ handling nextHandoff nextTask free taken last next
        moves ?_
      cases expanded with
      | plain leaf => exact .plain leaf
      | failed enters nonLeaf fails => exact .failed enters nonLeaf fails
      | unfolded enters nonLeaf subtasks made => exact .unfolded enters nonLeaf subtasks made
    · rw [if_neg expands]
      exact .advanced record task phase _ _ _ _ free taken last next moves (.plain expands)

section
variable (s : System)

theorem deliver_delivers (tid : TaskId) (raises : Bool) :
    Delivers s tid raises (s.deliver tid raises) := by
  unfold deliver
  cases free : s.handling.contains tid with
  | true => exact .idle (.inl free)
  | false =>
    simp only [Bool.false_eq_true, if_false]
    cases taken : s.planned.find? fun record => record.tid = tid with
    | none => exact .idle (.inr taken)
    | some record =>
      cases found : s.scheduler.tasks.get? tid with
      | none =>
        refine .dropped record free taken fun task lookup => ?_
        cases found.symm.trans lookup
      | some task =>
        dsimp only
        cases last : record.isLast with
        | false =>
          exact advance_delivers free taken last found
        | true =>
          have lost : (task.isEnd = false ∨ raises = true ∨ ∀ parent, task.parent = some parent →
              s.scheduler.tasks.get? parent = none) →
              Delivers s tid raises { s with planned := s.others tid } := by
            refine fun why => .dropped record free taken fun other lookup => ?_
            cases found.symm.trans lookup
            exact .inr ⟨last, why⟩
          cases ends : task.isEnd with
          | false => exact lost (.inl ends)
          | true =>
            cases raises with
            | true => exact lost (.inr (.inl rfl))
            | false =>
              simp only [Bool.not_false, Bool.and_self, if_true, notifyParent]
              cases child : task.parent with
              | none =>
                refine lost (.inr (.inr fun parent impossible => ?_))
                cases child.symm.trans impossible
              | some parent =>
                dsimp only
                split_ifs with known
                · exact .notified record task parent free taken last found ends child
                · refine lost (.inr (.inr fun other same => ?_))
                  cases child.symm.trans same
                  simpa [Dict.contains] using known

def after (agent : AgentId) (a : Attempt) (task : Task) (refused : List TaskId)
    (turn : Turn) : System :=
  let result := s.does agent a task refused turn.deed
  { result.1 with
    attempts := result.1.attempts.set agent (if result.2 then turn.failed else turn.next) }

theorem turn_cases (agent : AgentId) (answer : Answer) (refused : List TaskId) :
    s.turn agent answer refused = s ∨
      ∃ a task turn, s.attempts.get? agent = some a ∧ s.object a = some task ∧
        a.turn task s.scheduler.store.isSome (s.gate task) answer = some turn ∧
        s.turn agent answer refused = s.after agent a task refused turn := by
  unfold System.turn
  cases found : s.attempts.get? agent with
  | none => exact .inl rfl
  | some a =>
    dsimp only
    cases object : s.object a with
    | none => exact .inl rfl
    | some task =>
      dsimp only
      cases turns : a.turn task s.scheduler.store.isSome (s.gate task) answer with
      | none => exact .inl rfl
      | some turn => exact .inr ⟨a, task, turn, rfl, object, turns, rfl⟩

theorem publish_cases (hid : HandoffId) (version : ℕ) (manifest : Manifest) (refused : Bool) :
    s.publish hid version manifest refused = (s, true) ∨
      ∃ store store', s.scheduler.store = some store ∧
        store.sealVersion hid version manifest refused = some store' ∧
        s.publish hid version manifest refused =
          ({ s with scheduler := { s.scheduler with store := some store' } }, false) := by
  unfold publish
  cases found : s.scheduler.store with
  | none => exact .inl rfl
  | some store =>
    dsimp only
    cases seals : store.sealVersion hid version manifest refused with
    | none => exact .inl rfl
    | some store' => exact .inr ⟨store, store', rfl, seals, rfl⟩

end

theorem complete_outcome {a : Attempt} {hasStore gate : Bool} {answer : Answer}
    {turn : Turn} (turns : a.Turns task hasStore gate answer turn) {status : TaskStatus}
    (completes : turn.deed = .complete status) :
    a.point = .done ∧ status = .succeeded ∨ a.point = .crash ∧ status = .failed := by
  cases turns with
  | done point => cases completes; exact .inl ⟨point, rfl⟩
  | crash point => cases completes; exact .inr ⟨point, rfl⟩
  | _ => cases completes

section
variable (sane : s.Sane)
include sane

theorem invoke_dispatched
    (filed : (s.given refused).Filed → h.Filed) (starts : h.starts = (s.given refused).starts)
    (inOrder : InOrder h) (started : h.started = s.scheduler.started)
    (performs : (s.perform op refused).state = h.tryDispatch) :
    Dispatched { s with scheduler := { h with starts := [] } } (s.invoke op refused) ∧
      (s.invoke op refused).Sane := by
  refine invoke_shifts (filed (sane.filed.of_same rfl rfl rfl)) inOrder started ?_
  rw [performs]
  exact shifts_tryDispatch ((s.quiet_given refused).mono fun _ mem => starts ▸ mem)

theorem invoke_refused
    (raises : s.perform op refused = (s.given refused).raises) : s.invoke op refused = s := by
  have scheduler : ({ s.given refused with starts := [] } : Scheduler) = s.scheduler := by
    rw [given, ← sane.starts]
  rw [invoke, raises]
  change s.adopt { s.given refused with starts := [] } = s
  rw [scheduler, adopt_of_same rfl]

theorem Sane.of_scheduler (scheduler : s'.scheduler = s.scheduler) : s'.Sane :=
  ⟨scheduler ▸ sane.filed, scheduler ▸ sane.starts, scheduler ▸ sane.held, scheduler ▸ sane.keyed⟩

section
variable (refused : List TaskId)

theorem submit_cases {own : Task}
    (submits : op = .submit task ∨ ∃ plain, op = .expedite plain ∧
      task = { plain with expedited := true }) (id : own.id = task.id) :
    s.submit op own refused = (s.uses own, true) ∨
      ∃ h, Admits s.scheduler h task ∧ (s.submit op own refused).2 = false ∧
        Dispatched { (s.uses own).detach task.id with scheduler := h }
          (s.submit op own refused).1 ∧ (s.submit op own refused).1.Sane := by
  -- what the scheduler does, whichever of the two calls it is
  have cases : s.perform op refused = (s.given refused).raises ∨
      ∃ admitted, (Admits (s.given refused) admitted task ∧ Files (s.given refused) admitted) ∧
        s.perform op refused = admitted.tryDispatch.returns := by
    rcases submits with rfl | ⟨plain, rfl, rfl⟩
    · exact (s.given refused).submit_cases task
    · change Scheduler.expedite (s.given refused) plain = _ ∨ ∃ admitted, _ ∧
        Scheduler.expedite (s.given refused) plain = _
      unfold Scheduler.expedite
      split_ifs
      · exact (s.given refused).submit_cases _
      · exact .inl rfl
  have used : (s.uses own).Sane := sane.of_scheduler rfl
  have performs : ∀ t : System, t.scheduler = s.scheduler →
      t.perform op refused = s.perform op refused := by
    intro t same
    rw [perform, perform, same]
  have raised := congrArg Exit.raised (performs (s.uses own) rfl)
  rcases cases with raises | ⟨admitted, ⟨admits, files⟩, accepts⟩
  · refine .inl ?_
    unfold submit
    dsimp only
    rw [raised, raises]
    change ((s.uses own).invoke op refused, true) = _
    rw [invoke_refused used ((performs (s.uses own) rfl).trans raises)]
  · have done : s.submit op own refused =
        (((s.uses own).detach task.id).invoke op refused, false) := by
      unfold submit
      dsimp only
      rw [raised, accepts, id]
      rfl
    set t := (s.uses own).detach task.id
    have scheduler : t.scheduler = s.scheduler := scheduler_detach ..
    have changed : Admits s.scheduler { admitted with starts := [] } task :=
      { admits with }
    have ordered := sane.inOrder.admits changed
    have given := given_of_same scheduler refused
    obtain ⟨run, sane'⟩ := invoke_dispatched (s := t) (h := admitted)
      (sane.of_scheduler scheduler) (given ▸ files.filed) (given ▸ files.starts) ordered
      (by rw [scheduler]; exact admits.started)
      (congrArg Exit.state ((performs t scheduler).trans accepts))
    rw [done]
    exact .inr ⟨_, changed, rfl, run, sane'⟩

theorem resume_cases (tid : TaskId) :
    s.call (.resume tid) refused = s ∨ ∃ h task, task.status ∈ resumable ∧
        (∃ status ∈ waiting, Scheduler.Moves s.scheduler h tid task status) ∧
        Dispatched { s with scheduler := h } (s.call (.resume tid) refused) ∧
        (s.call (.resume tid) refused).Sane := by
  rcases (s.given refused).resumeTask_cases tid with
    raises | ⟨task, requeued, resumable, ⟨status, waits, moves, files⟩, requeues⟩
  · exact .inl (invoke_refused sane raises)
  · have performs : (s.perform (.resume tid) refused).state = requeued.tryDispatch :=
      congrArg Exit.state requeues
    obtain ⟨run, sane'⟩ := invoke_dispatched sane files.filed files.starts
      (sane.inOrder.set moves.keeps.tasks (sane.keyed tid task moves.found) fun holds =>
        absurd holds (not_holding_of_waiting waits)) moves.keeps.started performs
    exact .inr ⟨_, task, resumable, ⟨status, waits, moves.found, keeps_given moves.keeps⟩, run,
      sane'⟩

theorem update_cases (tid : TaskId) (fields : Task) :
    s.call (.update tid fields) refused = s ∨
      ∃ old, s.scheduler.tasks.get? tid = some old ∧ old.status ∈ waiting ∧
        (s.call (.update tid fields) refused).Sane ∧
        ((∃ h, Scheduler.Moves s.scheduler h tid old .cancelled ∧
          s.call (.update tid fields) refused =
            { (s.uses fields).detach tid with scheduler := h }) ∨
        ∃ h task, (task = { s.resolved fields with
            id := tid, createdAt := old.createdAt, status := .waitingHandoff, history := [] } ∨
          task = { old with status := .waitingHandoff }) ∧ Admits s.scheduler h task ∧
          Dispatched { (s.uses fields).detach tid with scheduler := h }
            (s.call (.update tid fields) refused)) := by
  cases required : s.scheduler.require tid waiting with
  | none => exact .inl (by simp [call, required])
  | some old =>
    obtain ⟨found, waiting⟩ := require_eq_some.mp required
    refine .inr ⟨old, found, waiting, ?_⟩
    simp only [call, required]
    set t := (s.uses fields).detach tid
    have scheduler : t.scheduler = s.scheduler := scheduler_detach ..
    have given := given_of_same scheduler refused
    set op : Op := .update tid (s.resolved fields) with updates
    have performs : t.perform op refused =
        (s.given refused).updateTask tid (s.resolved fields) := by
      rw [← given]
      rfl
    obtain ⟨cancelled, raised, ⟨moves, files⟩, outcome⟩ :=
      (s.given refused).updateTask_cases tid (s.resolved fields) old required
    have tasks : cancelled.tasks = s.scheduler.tasks.set tid { old with status := .cancelled } :=
      moves.keeps.tasks
    have filed : cancelled.Filed := files.filed (sane.filed.of_same rfl rfl rfl)
    have inOrder : InOrder cancelled := sane.inOrder.set tasks (sane.keyed tid old found)
      fun holds => absurd holds (by simp [holding])
    rcases outcome with lost | ⟨task, admitted, replaces, ⟨admits, files'⟩, updated⟩
    · have result : t.invoke op refused =
          { t with scheduler := { cancelled with starts := [] } } := by
        rw [invoke, performs, lost]
        exact adopt_of_same (moves.keeps.started.trans (congrArg started scheduler).symm)
      rw [result]
      exact ⟨inOrder.sane (filed.of_same rfl rfl rfl) rfl,
        .inl ⟨_, ⟨found, keeps_given moves.keeps⟩, rfl⟩⟩
    · have id : task.id = tid := by
        rcases replaces with rfl | rfl
        · rfl
        · exact sane.keyed tid old found
      obtain ⟨status, waits, placed⟩ := admits.tasks
      have changed : Admits s.scheduler { admitted with starts := [] } task :=
        { free := fun existing lookup => by
            rw [id, found] at lookup
            cases lookup
            exact .inl waiting
          tasks := ⟨status, waits, by
            rw [placed, tasks, id, Dict.set_set]⟩
          handoffs := admits.handoffs.trans (by rw [moves.keeps.handoffs]; rfl)
          store := admits.store.trans moves.keeps.store
          nextAgent := admits.nextAgent.trans moves.keeps.nextAgent
          started := admits.started.trans moves.keeps.started }
      have ordered := sane.inOrder.admits changed
      obtain ⟨run, sane''⟩ := invoke_dispatched (s := t) (sane.of_scheduler scheduler)
        (h := admitted) (given ▸ fun filed => files'.filed (files.filed filed))
        (given ▸ files'.starts.trans files.starts) ordered
        (by rw [scheduler]; exact admits.started.trans moves.keeps.started)
        (by rw [performs, updated])
      exact ⟨sane'', .inr ⟨_, task, replaces, changed, run⟩⟩

theorem removal_dispatched
    (removes : (∃ tid, op = .removeQueued tid) ∨ (∃ tid, op = .cancel tid) ∨
      ∃ tid, op = .cancelDownstream tid) :
    Dispatched s (s.invoke op refused) ∧ (s.invoke op refused).Sane := by
  have shifts : Shifts (s.given refused) (s.perform op refused).state :=
    shifts_removal (s.quiet_given refused) removes
  obtain ⟨run, sane'⟩ := invoke_shifts (h := s.given refused)
    (sane.filed.of_same rfl rfl rfl) sane.inOrder rfl shifts
  have scheduler : ({ s.given refused with starts := [] } : Scheduler) = s.scheduler := by
    rw [given, ← sane.starts]
  rw [scheduler] at run
  exact ⟨run, sane'⟩

end

theorem invoke_settles {closed : Task} {settled : Scheduler} (ends : outcome ∉ holding)
    (settles : Settles (s.given refused) settled tid task closed outcome ∧
      Files (s.given refused) settled)
    (performs : s.perform op refused = settled.tryDispatch.returns) :
    Settles s.scheduler { settled with starts := [] } tid task closed outcome ∧
      Dispatched { s with scheduler := { settled with starts := [] } } (s.invoke op refused) ∧
      (s.invoke op refused).Sane := by
  obtain ⟨settles, files⟩ := settles
  refine ⟨{ settles with keeps := keeps_given settles.keeps }, ?_⟩
  refine invoke_dispatched sane files.filed files.starts (sane.inOrder.set settles.keeps.tasks
    ?_ fun holds => absurd holds ends) settles.keeps.started (congrArg Exit.state performs)
  obtain ⟨history, rfl⟩ := closed_same settles.closing
  exact sane.keyed tid task settles.found

theorem done_cases (tid : TaskId)
    (ends : outcome ∉ holding) (usage : Dict String ℚ) (refused : List TaskId) :
    ((s.perform (.back (.done tid outcome usage)) refused).raised = true ∧
      s.invoke (.back (.done tid outcome usage)) refused = s ∧
      ∀ task, s.scheduler.tasks.get? tid = some task → task.status ∉ phases) ∨
    ∃ h task closed, Settles s.scheduler h tid task closed outcome ∧
      (s.perform (.back (.done tid outcome usage)) refused).raised = false ∧
      Dispatched { s with scheduler := h } (s.invoke (.back (.done tid outcome usage)) refused) ∧
      (s.invoke (.back (.done tid outcome usage)) refused).Sane := by
  have held : (s.given refused).Held := sane.held
  rcases Scheduler.onTaskDone_cases held tid outcome usage with
    ⟨raises, idle⟩ | ⟨task, closed, settled, settles, performs⟩
  · exact .inl ⟨congrArg Exit.raised raises, invoke_refused sane raises, idle⟩
  · have performs' : s.perform (.back (.done tid outcome usage)) refused =
      settled.tryDispatch.returns := performs
    obtain ⟨changed, run, sane'⟩ := invoke_settles sane ends settles performs'
    exact .inr ⟨_, task, closed, changed, congrArg Exit.raised performs, run, sane'⟩

theorem stop_cases (tid : TaskId) (refused : List TaskId) : s.stop tid refused = s ∨
      ∃ h task closed, Settles s.scheduler h tid task closed .suspended ∧
        Dispatched { s.halt tid with scheduler := h } (s.stop tid refused) ∧
        (s.stop tid refused).Sane := by
  unfold stop
  cases required : s.scheduler.require tid phases with
  | none => exact .inl rfl
  | some task =>
    refine .inr ?_
    have scheduler := scheduler_halt s tid
    have sane' : (s.halt tid).Sane := sane.of_scheduler scheduler
    rcases Scheduler.stop_cases (s := (s.halt tid).given refused) sane'.held tid with
      ⟨-, impossible⟩ | ⟨task, closed, settled, settles, performs⟩
    · change (s.halt tid).scheduler.require tid phases = none at impossible
      rw [scheduler, required] at impossible
      cases impossible
    · have performs' : (s.halt tid).perform (.stop tid ⟨[(.stopped tid, false)], false⟩) refused =
        settled.tryDispatch.returns := performs
      obtain ⟨changed, run, sane''⟩ := invoke_settles sane' (by decide) settles performs'
      rw [scheduler] at changed
      exact ⟨_, task, closed, changed, run, sane''⟩

theorem restart_cases (specs : List String)
    (capacities : Dict String (PoolKind × ℚ)) (refused : List TaskId) :
    ∃ h, Rebuilds s.durable.scheduler h ∧
      Dispatched { s.durable with scheduler := h } (s.restart specs capacities refused) ∧
      (s.restart specs capacities refused).Sane := by
  have sane' : s.durable.Sane :=
    { sane with filed := sane.filed.of_same rfl rfl rfl }
  set t := s.durable
  obtain ⟨does, filed, starts⟩ := (t.given refused).rebuilt_spec specs capacities
  set h := (t.given refused).rebuilt specs capacities
  obtain ⟨recorded, tasks, -, view⟩ := does (sane'.filed.of_same rfl rfl rfl)
  have rebuilds : Rebuilds t.scheduler { h with starts := [] } :=
    { tasks := fun tid => by
        have here := recorded tid
        rw [tasks tid]
        revert here
        change Option.Rel _ (t.scheduler.records.get? tid) (t.scheduler.tasks.get? tid) →
          Option.Rel _ _ (Option.map _ (t.scheduler.records.get? tid))
        cases t.scheduler.records.get? tid with
        | none =>
          generalize t.scheduler.tasks.get? tid = found
          intro here
          cases here
          exact .none
        | some record =>
          intro here
          obtain ⟨task, found, agrees⟩ := Task.Recorded.of_rel here
          rw [found]
          exact .some ⟨record, agrees, rfl⟩
      handoffs := congrArg View.handoffs view
      store := congrArg View.store view
      nextAgent := congrArg View.nextAgent view
      started := congrArg View.started view }
  have origin : ∀ tid task, h.tasks.get? tid = some task → ∃ before record,
      t.scheduler.tasks.get? tid = some before ∧ Task.Recorded record before ∧
        task = { (record.closeExecution .suspended).getD record with
          status := demoted record.status } := by
    intro tid task found
    have here := rebuilds.tasks tid
    rw [found] at here
    generalize lookup : t.scheduler.tasks.get? tid = before at here
    cases here with
    | some agrees =>
      obtain ⟨record, recorded, rfl⟩ := agrees
      exact ⟨_, record, rfl, recorded, rfl⟩
  have inOrder : InOrder h := by
    intro tid task found
    obtain ⟨before, record, known, recorded, rfl⟩ := origin tid task found
    refine ⟨?_, fun holds => absurd holds (demoted_not_holding _)⟩
    obtain ⟨history, rfl⟩ := recorded.same
    obtain ⟨history', same⟩ := record.closed_eq .suspended
    have own := sane.keyed tid _ known
    rw [same]
    exact own
  have performs : (t.perform (.restart specs capacities) refused).state = h.tryDispatch := rfl
  obtain ⟨run, sane''⟩ := invoke_dispatched sane' (fun _ => filed) starts inOrder rebuilds.started
    performs
  exact ⟨_, rebuilds, run, sane''⟩

theorem Sane.moves {phase : TaskStatus} (moves : Scheduler.Moves s.scheduler h tid task phase)
    (files : Files s.scheduler h) (next : task.status.nextPhase = some phase) :
    { s with scheduler := h }.Sane := by
  have before : task.status ∈ holding := by
    revert next
    cases task.status <;> simp [nextPhase, holding]
  have inOrder : InOrder h := sane.inOrder.set moves.keeps.tasks (sane.keyed tid task moves.found)
    fun _ => ⟨nextPhase_phase next, (sane.held tid task moves.found before).2⟩
  exact inOrder.sane (files.filed sane.filed) (files.starts.trans sane.starts)

theorem Sane.deliver (tid : TaskId) (raises : Bool) : (s.deliver tid raises).Sane := by
  have delivers := s.deliver_delivers tid raises
  generalize s.deliver tid raises = s' at delivers
  cases delivers with
  | idle none => exact sane
  | dropped | notified => exact sane.of_scheduler rfl
  | advanced _ _ _ _ _ _ _ _ _ _ next moves =>
    exact (sane.moves moves.1 moves.2 next).of_scheduler rfl

end

theorem Start.sane (start : s.Start) : s.Sane where
  filed :=
    { listed := fun status tid => by simp [start.pools, start.tasks]
      once status := by simp [start.pools]
      recorded tid := by
        rw [start.records, start.tasks]
        exact .none }
  starts := start.starts
  held tid task found := by
    rw [start.tasks] at found
    cases found
  keyed tid task found := by
    rw [start.tasks] at found
    cases found

def blank (regs : Registries) (store : Option FilesystemStore) : System where
  regs
  scheduler :=
    { policy := .fifo
      specs := ["worker"]
      nextAgent := 0
      tasks := .empty
      records := .empty
      handoffs := .empty
      store
      resources := ⟨.empty, .empty⟩
      pools _ := []
      cascade := []
      dispatchAgain := false
      starts := []
      started := [] }
  current := .empty
  attempts := .empty
  planned := []
  handling := .empty
  lagging := .empty
  nextHandoff := 0
  nextTask := 0
  finished := []
  acted := []

theorem start_blank (regs : Registries) {store : Option FilesystemStore}
    (empty : ∀ store', store = some store' → ∀ hid, store'.versions hid = []) :
    (blank regs store).Start where
  tasks := rfl
  records := rfl
  pools _ := rfl
  handoffs := rfl
  store := empty
  starts := rfl
  started := rfl
  current := rfl
  attempts := rfl
  planned := rfl
  handling := rfl
  lagging := rfl
  finished := rfl
  acted := rfl

def noClosures : Registries where
  closures := .empty
  originOf name := name
  handoffSpecs := []
  agentSpecs := ["worker"]
  validatorSpecs := .empty
  validatorOrigin name := name
  withoutValidator := []

def plainTask (tid : TaskId) (inputs outputs : List HandoffId) : Task where
  id := tid
  agentSpec := "worker"
  inputs
  outputs
  resources := .empty
  status := .waitingHandoff
  createdAt := tid
  expedited := false
  history := []
  parent := none
  hasSubgraph := false

def fine : Answer := ⟨false, true, .empty⟩

def bad : Answer := ⟨true, false, .empty⟩

end System
end Infera.TaskGraph
