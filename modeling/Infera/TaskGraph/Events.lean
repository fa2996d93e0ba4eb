import Infera.TaskGraph.Steps
import Infera.Runs

/-! Every event is one change of its own and then a dispatch. `Lead` lists the
changes with all that is known of them, so that an invariant of the system is
proved by going through `Lead` and `Shift` once each. -/

namespace Infera.TaskGraph
open Dict Attempt
namespace Attempt

def asked (a : Attempt) : Attempt := { a with halted := true, wake := true }

def woken (a : Attempt) : Attempt := { a with wake := true }

def takenUp (a : Attempt) : Attempt :=
  if a.live && !a.halted then a.woken
  else { a with wake := false, halted := false, point := .begun }

end Attempt

namespace System
variable {s s' t : System} {agent : AgentId} {a : Attempt} {task : Task}

/-- The tables refer to each other, and agent ids are new. -/
structure Tracked (s : System) : Prop where
  fresh : ∀ agent a, s.attempts.get? agent = some a → agent < s.scheduler.nextAgent
  known : ∀ agent a, s.attempts.get? agent = some a →
    ∃ task, s.scheduler.tasks.get? a.tid = some task
  current : ∀ tid agent, s.current.get? tid = some agent →
    ∃ a, s.attempts.get? agent = some a ∧ a.tid = tid
  handled : ∀ tid, s.handling.contains tid = true → ∃ task, s.scheduler.tasks.get? tid = some task

section
variable (s : System) (tid : TaskId)

def released (a : Attempt) : Attempt :=
  match s.scheduler.tasks.get? tid with
  | none => a
  | some task =>
    if a.tid = tid ∧ a.detached.isNone then
      { a with detached := some { task with status := .cancelled } }
    else a

def Releases (attempts : Dict AgentId Attempt) : Prop :=
  ∀ agent, attempts.get? agent = (s.attempts.get? agent).map (s.released tid)

theorem detach_same :
    ∃ attempts, s.detach tid = { s with attempts } ∧ s.Releases tid attempts := by
  unfold detach Releases released
  cases s.scheduler.tasks.get? tid with
  | none => exact ⟨s.attempts, rfl, by simp⟩
  | some task => exact ⟨_, rfl, fun agent => get?_mapValues ..⟩

variable (f : Attempt → Attempt)

def atCurrent (agent : AgentId) (a : Attempt) : Attempt :=
  if s.current.get? tid = some agent then f a else a

def Alters (attempts : Dict AgentId Attempt) : Prop :=
  ∀ agent, attempts.get? agent = (s.attempts.get? agent).map (s.atCurrent tid f agent)

theorem current_same :
    ∃ attempts, (match s.current.get? tid with
        | none => s
        | some agent => s.alter agent f) = { s with attempts } ∧ s.Alters tid f attempts := by
  unfold Alters atCurrent alter
  cases s.current.get? tid with
  | none => exact ⟨s.attempts, rfl, by simp⟩
  | some own =>
    dsimp only
    cases found : s.attempts.get? own with
    | none =>
      refine ⟨s.attempts, rfl, fun agent => ?_⟩
      by_cases same : own = agent
      · rw [← same, found]
        rfl
      · simp [same]
    | some a =>
      refine ⟨_, rfl, fun agent => ?_⟩
      rw [get?_set]
      by_cases same : agent = own
      · rw [same, found]
        simp
      · simp [same, Ne.symm same]

end

/-- The task that a call puts into the table. -/
inductive Call.Gives (s : System) : Call → Task → Prop
  | submit (task : Task) : Gives s (.submit task) (s.resolved task)
  | expedite (task : Task) : Gives s (.expedite task) { s.resolved task with expedited := true }
  | update (tid : TaskId) (fields old : Task) (found : s.scheduler.tasks.get? tid = some old)
      (waits : old.status ∈ TaskStatus.waiting) :
      Gives s (.update tid fields) { s.resolved fields with
        id := tid, createdAt := old.createdAt, status := .waitingHandoff, history := [] }
  | restore (tid : TaskId) (fields old : Task) (found : s.scheduler.tasks.get? tid = some old)
      (waits : old.status ∈ TaskStatus.waiting) :
      Gives s (.update tid fields) { old with status := .waitingHandoff }

variable (s : System) (agent : AgentId) (a : Attempt) (task : Task) in
/-- What a deed leaves, and whether it raised. -/
inductive Does : Deed → System → Bool → Prop
  | nothing : Does .nothing s false
  | opens (hid : HandoffId) (old new : Handoff) (found : s.scheduler.handoffs.get? hid = some old)
      (opened : old.openNext a.tid agent = some new) :
      Does (.openSlot hid) (s.setSlot hid old new) false
  | busy (hid : HandoffId)
      (refused : ∀ old, s.scheduler.handoffs.get? hid = some old →
        old.openNext a.tid agent = none) :
      Does (.openSlot hid) s true
  | seals (hid : HandoffId) (verdict : Bool) (old new : Handoff)
      (found : s.scheduler.handoffs.get? hid = some old)
      (closed : old.sealLatest verdict = some new) :
      Does (.sealSlot hid verdict) (s.setSlot hid old new) false
  | unsealed (hid : HandoffId) (verdict : Bool)
      (refused : ∀ old, s.scheduler.handoffs.get? hid = some old → old.sealLatest verdict = none) :
      Does (.sealSlot hid verdict) s true
  | persists (hid : HandoffId) : Does (.persist hid) { s with lagging := s.lagging.erase hid } false
  | publishes (hid : HandoffId) (version : ℕ) (unfit : Bool) (store store' : FilesystemStore)
      (found : s.scheduler.store = some store)
      (published : store.sealVersion hid version ⟨a.tid, agent⟩ unfit = some store') :
      Does (.publish hid version unfit) { s with scheduler := { s.scheduler with store := some store' } } false
  | unpublished (hid : HandoffId) (version : ℕ) (unfit : Bool) :
      Does (.publish hid version unfit) s true
  | reports (work : Work) : Does (.report work) (s.report agent task a.tid work) false
  | settles (status : TaskStatus) (h : Scheduler) (found closed : Task)
      (settles : Scheduler.Settles s.scheduler h a.tid found closed status) :
      Does (.complete status) { s with scheduler := h } false
  | refused (status : TaskStatus)
      (idle : ∀ task, s.scheduler.tasks.get? a.tid = some task → task.status ∉ TaskStatus.phases) :
      Does (.complete status) s true

/-- The change that an act makes before the dispatch. -/
inductive Lead (s : System) : Act → System → Prop
  | none (act : Act) : Lead s act s
  | used (call : Call) (nextHandoff : HandoffId) (nextTask : TaskId) :
      Lead s (.call call) { s with nextHandoff, nextTask }
  | admitted (call : Call) (task : Task) (h : Scheduler) (attempts : Dict AgentId Attempt)
      (nextHandoff : HandoffId) (nextTask : TaskId) (gives : call.Gives s task)
      (admits : Scheduler.Admits s.scheduler h task) (releases : s.Releases task.id attempts) :
      Lead s (.call call) { s with scheduler := h, attempts, nextHandoff, nextTask }
  | lost (tid : TaskId) (fields old : Task) (h : Scheduler) (attempts : Dict AgentId Attempt)
      (nextHandoff : HandoffId) (nextTask : TaskId) (waits : old.status ∈ TaskStatus.waiting)
      (moves : Scheduler.Moves s.scheduler h tid old .cancelled)
      (releases : s.Releases tid attempts) :
      Lead s (.call (.update tid fields))
        { s with scheduler := h, attempts, nextHandoff, nextTask }
  | requeue (tid : TaskId) (task : Task) (status : TaskStatus) (h : Scheduler)
      (resumable : task.status ∈ TaskStatus.resumable) (waits : status ∈ TaskStatus.waiting)
      (moves : Scheduler.Moves s.scheduler h tid task status) :
      Lead s (.call (.resume tid)) { s with scheduler := h }
  | fail (tid : TaskId) (task closed : Task) (h : Scheduler)
      (settles : Scheduler.Settles s.scheduler h tid task closed .failed) :
      Lead s (.call (.fail tid)) { s with scheduler := h }
  | stop (tid : TaskId) (task closed : Task) (h : Scheduler) (attempts : Dict AgentId Attempt)
      (settles : Scheduler.Settles s.scheduler h tid task closed .suspended)
      (asks : s.Alters tid Attempt.asked attempts) :
      Lead s (.stop tid)
        { s with scheduler := h, attempts, current := s.current.erase tid }
  | deliver (tid : TaskId) (raises : Bool) (t : System) (delivers : Delivers s tid raises t) :
      Lead s (.deliver tid raises) t
  | carryOn (tid : TaskId) (attempts : Dict AgentId Attempt)
      (handled : s.handling.get? tid = some []) (takes : s.Alters tid Attempt.takenUp attempts) :
      Lead s (.proceed tid) { s with attempts, handling := s.handling.erase tid }
  | reject (tid : TaskId) (subtask : Task) (rest : List Task) (nextHandoff : HandoffId)
      (nextTask : TaskId) (handled : s.handling.get? tid = some (subtask :: rest))
      (rejected : ∃ refused, (s.submit (.submit subtask) subtask refused).2 = true) :
      Lead s (.proceed tid)
        { s with nextHandoff, nextTask, handling := s.handling.erase tid }
  | subtask (tid : TaskId) (subtask : Task) (rest : List Task) (h : Scheduler)
      (attempts : Dict AgentId Attempt) (nextHandoff : HandoffId) (nextTask : TaskId)
      (handled : s.handling.get? tid = some (subtask :: rest))
      (admits : Scheduler.Admits s.scheduler h subtask)
      (releases : s.Releases subtask.id attempts) :
      Lead s (.proceed tid)
        { s with
          scheduler := h
          attempts
          nextHandoff
          nextTask
          handling := s.handling.set tid rest }
  | retry (tid : TaskId) (attempts : Dict AgentId Attempt)
      (wakes : s.Alters tid Attempt.woken attempts) : Lead s (.retry tid) { s with attempts }
  | turn (agent : AgentId) (answer : Answer) (a : Attempt) (task : Task) (turn : Turn) (t : System)
      (raised : Bool) (found : s.attempts.get? agent = some a) (object : s.object a = some task)
      (turns : a.Turns task s.scheduler.store.isSome (s.gate task) answer turn)
      (does : Does s agent a task turn.deed t raised) :
      Lead s (.turn agent answer)
        { t with attempts := s.attempts.set agent (if raised then turn.failed else turn.next) }
  | restart (specs : List String) (capacities : Dict String (PoolKind × ℚ)) (h : Scheduler)
      (rebuilds : Rebuilds s.durable.scheduler h) :
      Lead s (.restart specs capacities) { s.durable with scheduler := h }

theorem Dispatched.of_same (same : s' = s) : Dispatched s s' := same ▸ .refl

/-- The change of the act and a dispatch lead to a sane state. -/
def Leads (s : System) (act : Act) (s' : System) : Prop :=
  ∃ t, Lead s act t ∧ Dispatched t s' ∧ s'.Sane

theorem Dispatched.withHandling (run : Dispatched s s') (handling : Dict TaskId (List Task)) :
    Dispatched { s with handling } { s' with handling } := by
  induction run with
  | refl => exact .refl
  | tail _ shift ih =>
    obtain ⟨b, shift, rfl⟩ := shift
    exact ih.tail ⟨b, shift, rfl⟩

theorem Dispatched.withAttempt (run : Dispatched s s')
    (older : agent < s.scheduler.nextAgent) (there : agent ∈ s.attempts.keys) (a : Attempt) :
    Dispatched { s with attempts := s.attempts.set agent a }
      { s' with attempts := s'.attempts.set agent a } := by
  have kept : agent < s'.scheduler.nextAgent ∧ agent ∈ s'.attempts.keys ∧
      Dispatched { s with attempts := s.attempts.set agent a }
        { s' with attempts := s'.attempts.set agent a } := by
    induction run with
    | refl => exact ⟨older, there, .refl⟩
    | tail _ shift ih =>
      rename_i t _ _
      obtain ⟨before, present, ih⟩ := ih
      obtain ⟨b, shift, rfl⟩ := shift
      have same (started : b.started = t.scheduler.started)
          (later : t.scheduler.nextAgent ≤ b.nextAgent) :
          agent < (t.adopt b).scheduler.nextAgent ∧ agent ∈ (t.adopt b).attempts.keys ∧
            Dispatched { s with attempts := s.attempts.set agent a }
              { t.adopt b with attempts := (t.adopt b).attempts.set agent a } := by
        rw [adopt_of_same started]
        refine ⟨lt_of_lt_of_le before later, present, ih.tail ⟨b, shift, ?_⟩⟩
        exact (adopt_of_same (s := { t with attempts := t.attempts.set agent a }) started).symm
      have shifts := shift
      cases shift with
      | stay keeps => exact same keeps.started keeps.nextAgent.ge
      | queue _ _ _ _ _ _ keeps =>
        exact same keeps.started keeps.nextAgent.ge
      | misfire _ _ _ _ _ _ _ _ _ next started =>
        exact same started next
      | launch tid _ _ _ _ _ _ _ _ next started =>
        have differ : agent ≠ t.scheduler.nextAgent := before.ne
        rw [adopt_of_launch started]
        refine ⟨?_, ?_, ih.tail ⟨b, shifts, ?_⟩⟩
        · exact next ▸ Nat.lt_succ_of_lt before
        · rw [mem_keys_iff, get?_set_of_ne differ, ← mem_keys_iff]
          exact present
        · have started' : b.started =
              ({ t with attempts := t.attempts.set agent a } : System).scheduler.started ++
                [(tid, t.scheduler.nextAgent)] := started
          rw [adopt_of_launch started']
          rw [set_comm _ differ present]
  exact kept.2.2

theorem Does.frame {deed : Deed} {raised : Bool} (does : Does s agent a task deed t raised) :
    t.attempts = s.attempts ∧ t.current = s.current ∧ t.handling = s.handling ∧
      t.scheduler.nextAgent = s.scheduler.nextAgent := by
  cases does with
  | settles _ _ _ _ settles => exact ⟨rfl, rfl, rfl, settles.keeps.nextAgent⟩
  | _ => exact ⟨rfl, rfl, rfl, rfl⟩

section
variable (sane : s.Sane) (refused : List TaskId)
include sane

theorem Sane.leads {act : Act} (lead : Lead s act t) (same : s' = t)
    (scheduler : t.scheduler = s.scheduler) : Leads s act s' :=
  ⟨t, lead, .of_same same, same ▸ sane.of_scheduler scheduler⟩

theorem does_cases (agent : AgentId) (a : Attempt) (task : Task) (deed : Deed)
    (ends : ∀ status, deed = .complete status → status ∉ TaskStatus.holding) :
    ∃ t, Does s agent a task deed t (s.does agent a task refused deed).2 ∧
      Dispatched t (s.does agent a task refused deed).1 ∧
      (s.does agent a task refused deed).1.Sane := by
  cases deed with
  | nothing => exact ⟨s, .nothing, .refl, sane⟩
  | persist hid => exact ⟨_, .persists hid, .refl, sane.of_scheduler rfl⟩
  | report work => exact ⟨_, .reports work, .refl, sane.of_scheduler rfl⟩
  | openSlot hid =>
    dsimp only [System.does, changeSlot]
    cases found : s.scheduler.handoffs.get? hid with
    | none => exact ⟨s, .busy hid fun old known => (nomatch found.symm.trans known), .refl, sane⟩
    | some old =>
      dsimp only
      cases opened : old.openNext a.tid agent with
      | none =>
        refine ⟨s, .busy hid fun other known => ?_, .refl, sane⟩
        cases found.symm.trans known
        exact opened
      | some new =>
        exact ⟨_, .opens hid old new found opened, .refl, sane.filed.of_same rfl rfl rfl,
          sane.starts, sane.held, sane.keyed⟩
  | sealSlot hid verdict =>
    dsimp only [System.does, changeSlot]
    cases found : s.scheduler.handoffs.get? hid with
    | none =>
      exact ⟨s, .unsealed hid verdict fun old known => (nomatch found.symm.trans known), .refl,
        sane⟩
    | some old =>
      dsimp only
      cases closed : old.sealLatest verdict with
      | none =>
        refine ⟨s, .unsealed hid verdict fun other known => ?_, .refl, sane⟩
        cases found.symm.trans known
        exact closed
      | some new =>
        exact ⟨_, .seals hid verdict old new found closed, .refl, sane.filed.of_same rfl rfl rfl,
          sane.starts, sane.held, sane.keyed⟩
  | publish hid version unfit =>
    dsimp only [System.does]
    rcases s.publish_cases hid version ⟨a.tid, agent⟩ unfit with
      same | ⟨store, store', found, published, changed⟩
    · rw [same]
      exact ⟨s, .unpublished hid version unfit, .refl, sane⟩
    · rw [changed]
      exact ⟨_, .publishes hid version unfit store store' found published, .refl,
        sane.filed.of_same rfl rfl rfl, sane.starts, sane.held, sane.keyed⟩
  | complete status =>
    dsimp only [System.does]
    rcases done_cases sane a.tid (ends status rfl) a.usage refused with
      ⟨raised, same, idle⟩ | ⟨h, found, closed, settles, returned, run⟩
    · rw [raised, same]
      exact ⟨s, .refused status idle, .refl, sane⟩
    · rw [returned]
      exact ⟨_, .settles status h found closed settles, run⟩

theorem turn_lead (tracked : s.Tracked) (agent : AgentId) (answer : Answer) :
    Leads s (.turn agent answer) (s.turn agent answer refused) := by
  rcases s.turn_cases agent answer refused with
    same | ⟨a, task, turn, found, object, takes, result⟩
  · exact sane.leads (.none _) same rfl
  · have turns := turns_of_turn takes
    obtain ⟨t, does, run, done⟩ := does_cases sane refused agent a task turn.deed
      fun status completes => by
        rcases complete_outcome turns completes with ⟨-, rfl⟩ | ⟨-, rfl⟩ <;> decide
    obtain ⟨attempts, -, -, agents⟩ := does.frame
    refine ⟨_, .turn agent answer a task turn t _ found object turns does, ?_⟩
    rw [result, ← attempts]
    refine ⟨run.withAttempt (agents ▸ tracked.fresh agent a found) ?_ _, done.of_scheduler rfl⟩
    rw [attempts]
    exact mem_keys_iff.mpr ⟨a, found⟩

theorem submit_lead {call : Call} {op : Scheduler.Op} {own : Task}
    (submits : op = .submit task ∨ ∃ plain, op = .expedite plain ∧
      task = { plain with expedited := true })
    (id : own.id = task.id) (gives : call.Gives s task) :
    Leads s (.call call) (s.submit op own refused).1 := by
  rcases submit_cases sane refused submits id with same | ⟨h, admits, -, run⟩
  · rw [same]
    exact sane.leads (.used call _ _) rfl rfl
  · obtain ⟨attempts, same, releases⟩ := (s.uses own).detach_same task.id
    rw [same] at run
    exact ⟨_, .admitted call task h attempts _ _ gives admits releases, run⟩

theorem update_lead (tid : TaskId) (fields : Task) :
    Leads s (.call (.update tid fields)) (s.call (.update tid fields) refused) := by
  rcases update_cases sane refused tid fields with
    same | ⟨old, found, waits, sane', ⟨h, moves, result⟩ | ⟨h, task, replaces, admits, run⟩⟩
  · exact sane.leads (.none _) same rfl
  · obtain ⟨attempts, same, releases⟩ := (s.uses fields).detach_same tid
    rw [same] at result
    exact ⟨_, .lost tid fields old h attempts _ _ waits moves releases, .of_same result, sane'⟩
  · have id : task.id = tid := by
      rcases replaces with rfl | rfl
      · rfl
      · exact sane.keyed tid old found
    have gives : (Call.update tid fields).Gives s task := by
      rcases replaces with rfl | rfl
      · exact .update tid fields old found waits
      · exact .restore tid fields old found waits
    obtain ⟨attempts, same, releases⟩ := (s.uses fields).detach_same tid
    rw [same] at run
    exact ⟨_, .admitted _ task h attempts _ _ gives admits (id ▸ releases), run, sane'⟩

theorem call_lead (call : Call) : Leads s (.call call) (s.call call refused) := by
  cases call with
  | submit task =>
    have id : task.id = (s.resolved task).id := rfl
    exact submit_lead sane refused (.inl rfl) id (.submit task)
  | expedite task =>
    have id : task.id = ({ s.resolved task with expedited := true } : Task).id := rfl
    exact submit_lead sane refused (.inr ⟨s.resolved task, rfl, rfl⟩) id (.expedite task)
  | update tid fields => exact update_lead sane refused tid fields
  | removeQueued tid => exact ⟨s, .none _, removal_dispatched sane refused (.inl ⟨tid, rfl⟩)⟩
  | cancel tid => exact ⟨s, .none _, removal_dispatched sane refused (.inr (.inl ⟨tid, rfl⟩))⟩
  | cancelDownstream tid =>
    exact ⟨s, .none _, removal_dispatched sane refused (.inr (.inr ⟨tid, rfl⟩))⟩
  | resume tid =>
    rcases resume_cases sane refused tid with
      same | ⟨h, task, resumable, ⟨status, waits, moves⟩, run⟩
    · exact sane.leads (.none _) same rfl
    · exact ⟨_, .requeue tid task status h resumable waits moves, run⟩
  | fail tid =>
    rcases done_cases sane tid (by decide : TaskStatus.failed ∉ TaskStatus.holding) .empty refused
      with ⟨-, same, -⟩ | ⟨h, task, closed, settles, -, run⟩
    · exact sane.leads (.none _) same rfl
    · exact ⟨_, .fail tid task closed h settles, run⟩

theorem proceed_lead (tid : TaskId) : Leads s (.proceed tid) (s.proceed tid refused) := by
  unfold proceed
  cases handled : s.handling.get? tid with
  | none => exact sane.leads (.none _) rfl rfl
  | some subtasks =>
    cases subtasks with
    | nil =>
      obtain ⟨attempts, same, takes⟩ :=
        { s with handling := s.handling.erase tid }.current_same tid takenUp
      exact sane.leads (.carryOn tid attempts handled takes) same rfl
    | cons subtask rest =>
      dsimp only
      rcases submit_cases sane refused (.inl rfl) (rfl : subtask.id = subtask.id) with
        same | ⟨h, admits, accepted, run, sane'⟩
      · have rejected := congrArg Prod.snd same
        rw [same]
        exact sane.leads (.reject tid subtask rest _ _ handled ⟨refused, rejected⟩) rfl rfl
      · obtain ⟨attempts, detached, releases⟩ := (s.uses subtask).detach_same subtask.id
        rw [detached] at run
        rw [accepted]
        exact ⟨_, .subtask tid subtask rest h attempts _ _ handled admits releases,
          run.withHandling _, sane'.of_scheduler rfl⟩

theorem next_lead (tracked : s.Tracked) (e : Event) : Leads s e.act (s.next e) := by
  obtain ⟨act, refused⟩ := e
  cases act with
  | call call => exact call_lead sane refused call
  | stop tid =>
    rcases stop_cases sane tid refused with same | ⟨h, task, closed, settles, run⟩
    · exact sane.leads (.none _) same rfl
    · obtain ⟨attempts, halted, asks⟩ := s.current_same tid asked
      have same : s.halt tid = { s with attempts, current := s.current.erase tid } :=
        congrArg (fun u : System => { u with current := u.current.erase tid }) halted
      rw [same] at run
      exact ⟨_, .stop tid task closed h attempts settles asks, run⟩
  | deliver tid raises =>
    exact ⟨_, .deliver tid raises _ (s.deliver_delivers tid raises), .refl, sane.deliver tid raises⟩
  | proceed tid => exact proceed_lead sane refused tid
  | retry tid =>
    obtain ⟨attempts, same, wakes⟩ := s.current_same tid woken
    exact sane.leads (.retry tid attempts wakes) same rfl
  | turn agent answer => exact turn_lead sane refused tracked agent answer
  | restart specs capacities =>
    obtain ⟨h, rebuilds, run⟩ := restart_cases sane specs capacities refused
    exact ⟨_, .restart specs capacities h rebuilds, run⟩

end

theorem released_tid (s : System) (tid : TaskId) (a : Attempt) :
    (s.released tid a).tid = a.tid := by
  unfold released
  split
  · rfl
  · split_ifs <;> rfl

theorem atCurrent_tid (s : System) (tid : TaskId) {f : Attempt → Attempt}
    (keeps : ∀ a, (f a).tid = a.tid) (agent : AgentId) (a : Attempt) :
    (s.atCurrent tid f agent a).tid = a.tid := by
  unfold atCurrent
  split_ifs
  · exact keeps a
  · rfl

theorem takenUp_tid (a : Attempt) : a.takenUp.tid = a.tid := by
  unfold takenUp
  split_ifs <;> rfl

theorem turns_same {hasStore gate : Bool} {answer : Answer}
    {turn : Turn} (turns : a.Turns task hasStore gate answer turn) :
    a.live = true ∧ (turn.next.tid = a.tid ∧ turn.next.detached = a.detached) ∧
      turn.failed.tid = a.tid ∧ turn.failed.detached = a.detached := by
  have seals : ∀ pass outputs otherwise, (a.sealsModel pass outputs otherwise).tid = a.tid ∧
      (a.sealsModel pass outputs otherwise).detached = a.detached := by
    intro pass outputs otherwise
    unfold sealsModel
    split_ifs <;> exact ⟨rfl, rfl⟩
  cases turns with
  | raises raises fallible =>
    refine ⟨?_, ⟨rfl, rfl⟩, rfl, rfl⟩
    unfold live
    revert fallible
    cases a.point <;> simp [Point.fallible, Point.isOver]
  | passes pass _ _ point =>
    refine ⟨by rw [live, point]; rfl, ?_, rfl, rfl⟩
    cases pass with
    | closing passed => cases passed <;> exact ⟨rfl, rfl⟩
    | _ => exact ⟨rfl, rfl⟩
  | outputPasses point | outputBlocks point | leave point =>
    exact ⟨by rw [live, point]; rfl, seals .., rfl, rfl⟩
  | _ => exact ⟨by rw [live, ‹a.point = _›]; rfl, ⟨rfl, rfl⟩, rfl, rfl⟩

theorem get?_turned {attempts : Dict AgentId Attempt} {b : Attempt}
    (found : attempts.get? agent = some a) (other : AgentId) : (attempts.set agent b).get? other =
      (attempts.get? other).map fun before => if other = agent then b else before := by
  rw [get?_set]
  by_cases same : other = agent
  · simp [same, found]
  · simp [same]

def Grows (s t : System) : Prop :=
  ∀ tid task, s.scheduler.tasks.get? tid = some task →
    ∃ task', t.scheduler.tasks.get? tid = some task'

theorem grows_set {h : Scheduler} {tid : TaskId}
    (tasks : h.tasks = s.scheduler.tasks.set tid task) (same : t.scheduler = h) : s.Grows t := by
  intro other found lookup
  rw [same, tasks, get?_set]
  split_ifs
  · exact ⟨_, rfl⟩
  · exact ⟨found, lookup⟩

theorem Does.grows {deed : Deed} {raised : Bool}
    (does : Does s agent a task deed t raised) : s.Grows t := by
  cases does with
  | settles _ _ _ _ settles => exact grows_set settles.keeps.tasks rfl
  | _ => exact fun tid task found => ⟨task, found⟩

namespace Tracked
variable (tracked : s.Tracked)
include tracked

section
variable (grows : s.Grows t) (agents : s.scheduler.nextAgent ≤ t.scheduler.nextAgent)
include grows agents

theorem of_attempts {f : AgentId → Attempt → Attempt}
    (attempts : ∀ agent, t.attempts.get? agent = (s.attempts.get? agent).map (f agent))
    (same : ∀ agent a, s.attempts.get? agent = some a → (f agent a).tid = a.tid)
    (current : ∀ tid agent, t.current.get? tid = some agent → s.current.get? tid = some agent :=
      by exact fun _ _ found => found)
    (handling : ∀ tid, t.handling.contains tid = true → s.handling.contains tid = true ∨
      ∃ task, t.scheduler.tasks.get? tid = some task := by exact fun _ handled => .inl handled) :
    t.Tracked where
  fresh agent a found := by
    obtain ⟨before, known, -⟩ := Option.map_eq_some_iff.mp ((attempts agent).symm.trans found)
    exact lt_of_lt_of_le (tracked.fresh agent before known) agents
  known agent a found := by
    obtain ⟨before, known, rfl⟩ := Option.map_eq_some_iff.mp ((attempts agent).symm.trans found)
    obtain ⟨task, lookup⟩ := tracked.known agent before known
    exact grows _ task ((same agent before known).symm ▸ lookup)
  current tid agent found := by
    obtain ⟨a, known, own⟩ := tracked.current tid agent (current tid agent found)
    exact ⟨f agent a, by rw [attempts, known]; rfl, (same agent a known).trans own⟩
  handled tid handled := by
    rcases handling tid handled with before | there
    · obtain ⟨task, lookup⟩ := tracked.handled tid before
      exact grows tid task lookup
    · exact there

theorem of_same (attempts : t.attempts = s.attempts)
    (current : ∀ tid agent, t.current.get? tid = some agent → s.current.get? tid = some agent :=
      by exact fun _ _ found => found)
    (handling : ∀ tid, t.handling.contains tid = true → s.handling.contains tid = true ∨
      ∃ task, t.scheduler.tasks.get? tid = some task := by exact fun _ handled => .inl handled) :
    t.Tracked :=
  tracked.of_attempts grows agents (f := fun _ a => a) (fun agent => by simp [attempts])
    (fun _ _ _ => rfl) current handling

end

theorem shift (shift : Shift s t) : t.Tracked := by
  obtain ⟨b, shift, rfl⟩ := shift
  have stays : ∀ {tid : TaskId} {task : Task}, b.tasks = s.scheduler.tasks.set tid task →
      b.started = s.scheduler.started → s.scheduler.nextAgent ≤ b.nextAgent →
      (s.adopt b).Tracked := by
    intro tid task tasks started agents
    rw [adopt_of_same started]
    exact tracked.of_same (grows_set tasks rfl) agents rfl
  cases shift with
  | stay keeps =>
    rw [adopt_of_same keeps.started]
    refine tracked.of_same (fun tid task found => ⟨task, ?_⟩) keeps.nextAgent.ge rfl
    exact (congrArg (Dict.get? · tid) keeps.tasks).trans found
  | queue _ _ _ _ _ _ keeps =>
    exact stays keeps.tasks keeps.started keeps.nextAgent.ge
  | misfire _ _ _ _ _ _ tasks _ _ agent started =>
    exact stays tasks started agent
  | launch tid task found _ _ _ tasks _ _ agent started =>
    rw [adopt_of_launch started]
    have grows : s.Grows { s with scheduler := b } := grows_set tasks rfl
    refine ⟨fun other a lookup => ?_, fun other a lookup => ?_, fun other held lookup => ?_,
      fun other handled => ?_⟩
    · change other < b.nextAgent
      rcases get?_set_cases lookup with ⟨same, -⟩ | ⟨-, lookup⟩
      · exact same ▸ agent ▸ Nat.lt_succ_self _
      · exact agent ▸ Nat.lt_succ_of_lt (tracked.fresh other a lookup)
    · rcases get?_set_cases lookup with ⟨-, rfl⟩ | ⟨-, lookup⟩
      · exact grows tid task found
      · obtain ⟨task, known⟩ := tracked.known other a lookup
        exact grows a.tid task known
    · rcases get?_set_cases lookup with ⟨same, rfl⟩ | ⟨-, lookup⟩
      · exact ⟨.fresh tid, get?_set_self .., same.symm⟩
      · obtain ⟨a, known, own⟩ := tracked.current other held lookup
        have later : held ≠ s.scheduler.nextAgent := (tracked.fresh held a known).ne
        exact ⟨a, (get?_set_of_ne later).trans known, own⟩
    · obtain ⟨task, known⟩ := tracked.handled other handled
      exact grows other task known

theorem dispatched (run : Dispatched s t) : t.Tracked :=
  run.keeps (fun shift held => held.shift shift) tracked

theorem delivers {tid : TaskId} {raises : Bool} (delivers : Delivers s tid raises t) :
    t.Tracked := by
  cases delivers with
  | advanced _ task _ h handling _ _ _ _ _ _ moves expands =>
    obtain ⟨moves, -⟩ := moves
    refine tracked.of_same (grows_set moves.keeps.tasks rfl) moves.keeps.nextAgent.ge rfl
      (fun _ _ found => found) fun other handled => ?_
    have here : ∃ task, h.tasks.get? tid = some task := by
      rw [moves.keeps.tasks]
      exact ⟨_, get?_set_self ..⟩
    have sets : ∀ subtasks, (s.handling.set tid subtasks).contains other = true →
        s.handling.contains other = true ∨ ∃ task, h.tasks.get? other = some task := by
      intro subtasks handled
      rcases contains_of_set handled with rfl | handled
      · exact .inr here
      · exact .inl handled
    cases expands with
    | plain | unfolded => exact sets _ handled
    | failed enters nonLeaf fails => exact .inl handled
  | _ => exact { tracked with }

theorem lead {act : Act} (lead : Lead s act t) : t.Tracked := by
  cases lead with
  | none => exact tracked
  | used call nextHandoff nextTask =>
    exact { tracked with }
  | admitted _ _ _ _ _ _ _ admits releases =>
    obtain ⟨status, -, tasks⟩ := admits.tasks
    exact tracked.of_attempts (grows_set tasks rfl) admits.nextAgent.ge releases
      (fun _ a _ => s.released_tid _ a)
  | lost _ _ _ _ _ _ _ _ moves releases =>
    exact tracked.of_attempts (grows_set moves.keeps.tasks rfl) moves.keeps.nextAgent.ge releases
      (fun _ a _ => s.released_tid _ a)
  | requeue _ _ _ _ _ _ moves =>
    exact tracked.of_same (grows_set moves.keeps.tasks rfl) moves.keeps.nextAgent.ge rfl
  | fail _ _ _ _ settles =>
    exact tracked.of_same (grows_set settles.keeps.tasks rfl) settles.keeps.nextAgent.ge rfl
  | stop tid _ _ _ _ settles asks =>
    refine tracked.of_attempts (grows_set settles.keeps.tasks rfl) settles.keeps.nextAgent.ge asks
      (fun agent a _ => s.atCurrent_tid tid (f := asked) (fun _ => rfl) agent a) (fun other agent found => ?_)
    rw [get?_erase] at found
    split_ifs at found
    exact found
  | deliver _ _ _ delivers => exact tracked.delivers delivers
  | carryOn tid attempts handled takes =>
    exact tracked.of_attempts (fun tid task found => ⟨task, found⟩) le_rfl takes
      (fun agent a _ => s.atCurrent_tid tid takenUp_tid agent a) (fun _ _ found => found)
      fun other handled => .inl (contains_of_erase handled)
  | reject _ _ _ _ _ handled =>
    exact ⟨tracked.fresh, tracked.known, tracked.current, fun other handled =>
      tracked.handled other (contains_of_erase handled)⟩
  | subtask tid _ rest _ _ _ _ handled admits releases =>
    obtain ⟨status, -, tasks⟩ := admits.tasks
    refine tracked.of_attempts (grows_set tasks rfl) admits.nextAgent.ge releases
      (fun _ a _ => s.released_tid _ a) (fun _ _ found => found) fun other still => .inl ?_
    rcases contains_of_set still with rfl | still
    · exact congrArg Option.isSome handled
    · exact still
  | retry tid attempts wakes =>
    exact tracked.of_attempts (fun tid task found => ⟨task, found⟩) le_rfl wakes
      (fun agent a _ => s.atCurrent_tid tid (f := woken) (fun _ => rfl) agent a)
  | turn _ _ _ _ _ _ _ found _ turns does =>
    obtain ⟨-, next, failed⟩ := turns_same turns
    obtain ⟨-, current, handling, agents⟩ := does.frame
    refine tracked.of_attempts does.grows agents.ge (get?_turned found) (fun other before known => ?_)
      (fun tid other lookup => current ▸ lookup) fun tid handled => .inl (handling ▸ handled)
    split_ifs with same
    · subst same
      cases found.symm.trans known
      exact failed.1
    · subst same
      cases found.symm.trans known
      exact next.1
    · rfl
  | restart => constructor <;> intros <;> contradiction

end Tracked

theorem Start.tracked (start : s.Start) : s.Tracked where
  fresh := by simp [start.attempts]
  known := by simp [start.attempts]
  current := by simp [start.current]
  handled := by simp [start.handling]

structure Wellformed (s : System) : Prop where
  sane : s.Sane
  tracked : s.Tracked

theorem Wellformed.next (wellformed : s.Wellformed) (e : Event) : (s.next e).Wellformed := by
  obtain ⟨t, lead, run, sane⟩ := next_lead wellformed.sane wellformed.tracked e
  exact ⟨sane, (wellformed.tracked.lead lead).dispatched run⟩

theorem invariant_of_changes {cond : System → Event → Prop} {Inv : System → Prop}
    (base : ∀ s, s.Start → Inv s)
    (lead : ∀ {s t} e, s.Wellformed → Inv s → cond s e → Lead s e.act t → Inv t)
    (shift : ∀ {s t}, s.Tracked → Inv s → Shift s t → Inv t) {s : System}
    (reached : Reaches Start next cond s) : s.Wellformed ∧ Inv s := by
  have start : ∀ s : System, s.Start → s.Wellformed ∧ Inv s := fun s start =>
    ⟨⟨start.sane, start.tracked⟩, base s start⟩
  refine reached.invariant start fun s e held meets => ⟨held.1.next e, ?_⟩
  obtain ⟨t, leads, run, -⟩ := next_lead held.1.sane held.1.tracked e
  have both : t.Tracked ∧ Inv t := ⟨held.1.tracked.lead leads, lead e held.1 held.2 meets leads⟩
  have keep : ∀ {t t' : System}, Shift t t' → t.Tracked ∧ Inv t → t'.Tracked ∧ Inv t' :=
    fun shifts held => ⟨held.1.shift shifts, shift held.1 held.2 shifts⟩
  exact (run.keeps keep both).2

end System
end Infera.TaskGraph
