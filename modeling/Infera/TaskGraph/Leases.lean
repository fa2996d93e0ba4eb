import Infera.TaskGraph.Effects
import Infera.Runs

/-! What the renewable pools have lent against what the tasks hold. A lease is
taken in a dispatch pass and given back by a completion, by an acknowledged stop
or by the handler of a launch that raised. The handler gives back the whole
reservation without asking whether the runner completed the task before it
raised, so such a lease is given back twice. -/

namespace Infera.TaskGraph
open TaskStatus List Option Dict

def Task.lease (task : Task) (name : String) : ℚ :=
  if task.status ∈ TaskStatus.holding then Resources.amountOf task.resources.items name else 0

theorem Task.lease_of_not_holding {task : Task} (idle : task.status ∉ holding)
    (name : String) : task.lease name = 0 := if_neg idle

theorem Task.lease_of_holding {task : Task} (held : task.status ∈ holding)
    (name : String) : task.lease name = Resources.amountOf task.resources.items name := if_pos held

namespace Scheduler
variable {s s' : Scheduler}

def leased (s : Scheduler) (name : String) : ℚ := (s.tasks.values.map (·.lease name)).sum

section
variable (s : Scheduler) (tid : TaskId) (name : String)

def leaseOf : ℚ :=
  (s.tasks.get? tid).elim 0 (·.lease name)

theorem leased_eq :
    s.leased name = s.leaseOf tid name + ((s.tasks.erase tid).values.map (·.lease name)).sum := by
  unfold leased leaseOf
  cases found : s.tasks.get? tid with
  | none => rw [erase_of_absent _ found, elim_none, zero_add]
  | some task =>
    rw [((s.tasks.values_perm_erase found).map (Task.lease · name)).sum_eq]
    rfl

end

theorem leased_set {tid : TaskId} {task : Task} (tasks : s'.tasks = s.tasks.set tid task)
    (name : String) : s'.leased name = s.leased name - s.leaseOf tid name + task.lease name := by
  have others : s'.tasks.erase tid = s.tasks.erase tid := by rw [tasks, erase_set]
  have own : s'.leaseOf tid name = task.lease name := by
    rw [leaseOf, tasks, get?_set_self, elim_some]
  rw [leased_eq s' tid, leased_eq s tid, others]
  linarith

/-- The pools balance, amounts are not negative, and only an open attempt holds a lease. -/
structure Sound (s : Scheduler) : Prop where
  balanced : s.resources.Balanced s.leased
  nonneg : ∀ tid task, s.tasks.get? tid = some task → ∀ lease ∈ task.resources.items, 0 ≤ lease.2
  running : ∀ tid task, s.tasks.get? tid = some task → task.status ∈ TaskStatus.holding →
    task.isRunning = true

namespace Sound
variable {task : Task} {tid : TaskId} {r : Resources}

theorem leaseOf_of_found (found : s.tasks.get? tid = some task)
    (name : String) : s.leaseOf tid name = task.lease name := by
  rw [leaseOf, found, elim_some]

section
variable (sound : s.Sound)
include sound

section
variable (found : s.tasks.get? tid = some task)
include found

theorem lease_nonneg (name : String) : 0 ≤ task.lease name := by
  unfold Task.lease
  split_ifs
  · exact Resources.amountOf_nonneg (sound.nonneg tid task found) name
  · exact le_refl 0

theorem lease_le (name : String) : task.lease name ≤ s.leased name := by
  refine single_le_sum (fun amount mem => ?_) _
    (mem_map.mpr ⟨task, mem_values_iff.mpr ⟨tid, found⟩, rfl⟩)
  obtain ⟨other, listed, rfl⟩ := mem_map.mp mem
  obtain ⟨key, found⟩ := mem_values_iff.mp listed
  exact sound.lease_nonneg found name

theorem balanced_giveBackAll (held : task.status ∈ holding) (actual : String → Option ℚ) :
    (s.resources.giveBackAll actual task.resources.items).Balanced
      fun name => s.leased name - s.leaseOf tid name := by
  have lease := Task.lease_of_holding held
  have given := Resources.Balanced.giveBackAll actual task.resources.nodupKeys
    (sound.nonneg tid task found) sound.balanced
    fun name => lease name ▸ sound.lease_le found name
  exact given.congr fun name => by rw [leaseOf_of_found found, lease]

theorem balanced_release (held : task.status ∈ holding) (usage : Option (Dict String ℚ)) :
    (s.release task usage).resources.Balanced fun name => s.leased name - s.leaseOf tid name := by
  have given := sound.balanced_giveBackAll found held fun name => usage.bind (·.get? name)
  unfold release
  generalize s.resources.giveBackAll _ _ = r at given ⊢
  generalize usage.elim [] Dict.items = spends
  induction spends generalizing r with
  | nil => exact given
  | cons spend rest ih =>
    refine ih _ ?_
    dsimp only
    split_ifs
    · exact given
    · exact given.charge spend.1 spend.2

end

theorem leased_nonneg (name : String) : 0 ≤ s.leased name := by
  refine sum_nonneg fun amount mem => ?_
  obtain ⟨other, listed, rfl⟩ := mem_map.mp mem
  obtain ⟨key, found⟩ := mem_values_iff.mp listed
  exact sound.lease_nonneg found name

section
variable (tasks : s'.tasks = s.tasks.set tid task) (resources : s'.resources = r)
  (nonneg : ∀ lease ∈ task.resources.items, 0 ≤ lease.2)
include tasks resources nonneg

theorem replace (running : task.status ∈ holding → task.isRunning = true)
    (balanced : r.Balanced fun name => s.leased name - s.leaseOf tid name + task.lease name) :
    s'.Sound where
  balanced := resources ▸ balanced.congr (leased_set tasks)
  nonneg := by
    intro other found listed
    rcases get?_set_cases (tasks ▸ listed) with ⟨-, rfl⟩ | ⟨-, listed⟩
    · exact nonneg
    · exact sound.nonneg other found listed
  running := by
    intro other found listed held
    rcases get?_set_cases (tasks ▸ listed) with ⟨-, rfl⟩ | ⟨-, listed⟩
    · exact running held
    · exact sound.running other found listed held

theorem replace_idle
    (before : ∀ found, s.tasks.get? tid = some found → found.status ∉ holding)
    (after : task.status ∉ holding) (balanced : r.Balanced s.leased) : s'.Sound := by
  refine sound.replace tasks resources nonneg (fun held => (after held).elim)
    (balanced.congr fun name => ?_)
  have none : s.leaseOf tid name = 0 := by
    unfold leaseOf
    cases found : s.tasks.get? tid with
    | none => rfl
    | some task => exact Task.lease_of_not_holding (before task found) name
  rw [none, Task.lease_of_not_holding after, sub_zero, add_zero]

end

theorem finish {task' : Task} (tasks : s'.tasks = s.tasks.set tid task')
    (resources : s'.resources = r) (found : s.tasks.get? tid = some task)
    (amounts : task'.resources = task.resources) (after : task'.status ∉ holding)
    (balanced : r.Balanced fun name => s.leased name - s.leaseOf tid name) : s'.Sound := by
  refine sound.replace tasks resources (amounts ▸ sound.nonneg tid task found)
    (fun held => (after held).elim) (balanced.congr fun name => ?_)
  rw [Task.lease_of_not_holding after, add_zero]

theorem close {allowed : List TaskStatus} {outcome : TaskStatus}
    (held : ∀ status ∈ allowed, status ∈ holding)
    (ends : outcome ∉ holding) (closes : Closes s s' tid allowed outcome) : s'.Sound := by
  obtain ⟨task, closed, usage, found, status, closing, view⟩ := closes
  have amounts : closed.resources = task.resources := by
    simpa [closing] using task.resources_closed outcome
  exact sound.finish (congrArg View.tasks view) (congrArg View.resources view) found amounts ends
    (sound.balanced_release found (held _ status) usage)

theorem of_same (tasks : s'.tasks = s.tasks)
    (resources : s'.resources = s.resources) : s'.Sound where
  balanced := by
    rw [resources]
    exact sound.balanced.congr fun name => by rw [leased, leased, tasks]
  nonneg := tasks ▸ sound.nonneg
  running := tasks ▸ sound.running

theorem changes {before : Task → Prop} {status : TaskStatus}
    (idle : ∀ task, before task → task.status ∉ holding)
    (after : status ∉ holding) (change : Changes s s' tid before ({ · with status })) :
    s'.Sound := by
  obtain ⟨task, found, was, view⟩ := change
  refine sound.replace_idle (congrArg View.tasks view) (congrArg View.resources view)
    (sound.nonneg tid task found) (fun other listed => ?_) after sound.balanced
  cases found.symm.trans listed
  exact idle task was

end

end Sound

theorem not_holding_demoted (status : TaskStatus) : demoted status ∉ holding := by
  cases status <;> decide

/-- The effects of runners that report how a task ended, and let no exception leave a start after
they completed its task. -/
def Lawful : Effect → Prop
  | .abortLate _ => False
  | .settle _ status => status ∉ TaskStatus.holding
  | _ => True

theorem Sound.effect {e : Effect} (lawful : Lawful e) (does : e.Does s s') (sound : s.Sound) :
    s'.Sound := by
  cases e with
  | index => exact sound.of_same (congrArg View.tasks does) (congrArg View.resources does)
  | admitted task =>
    obtain ⟨existing, nonneg, status, waiting, view⟩ := does
    refine sound.replace_idle (congrArg View.tasks view) (congrArg View.resources view)
      nonneg (fun found listed => ?_) (not_holding_of_waiting waiting) sound.balanced
    rw [existing found listed]
    decide
  | queue tid status =>
    obtain ⟨stays, change⟩ := does
    exact sound.changes (fun task => not_holding_of_waiting) (not_holding_of_queued stays) change
  | requeue tid =>
    obtain ⟨status, waiting, change⟩ := does
    refine sound.changes (fun task resumable => ?_) (not_holding_of_waiting waiting) change
    revert resumable
    cases task.status <;> decide
  | phase tid status =>
    obtain ⟨held, task, found, phase, view⟩ := does
    have before := holding_of_phase phase
    have after : status ∈ holding := by
      rcases held with phase | rfl
      · exact holding_of_phase phase
      · decide
    refine sound.replace (congrArg View.tasks view) (congrArg View.resources view)
      (sound.nonneg tid task found) (fun _ => sound.running tid task found before)
      (sound.balanced.congr fun name => ?_)
    rw [leaseOf_of_found found, Task.lease_of_holding before, Task.lease_of_holding after]
    exact sub_add_cancel ..
  | bind tid agent =>
    obtain ⟨-, task, found, waiting, -, -, taken, view⟩ := does
    refine sound.replace (congrArg View.tasks view) (congrArg View.resources view)
      (sound.nonneg tid task found) (fun _ => ?_)
      ((sound.balanced.takeAll task.resources.nodupKeys taken).congr fun name => ?_)
    · simp [Task.isRunning, Task.current, execution, Execution.isOpen]
    · rw [leaseOf_of_found found, Task.lease_of_not_holding (by rw [waiting]; decide), sub_zero,
        Task.lease_of_holding mem_cons_self]
  | start tid agent =>
    exact sound.of_same (congrArg View.tasks does.2) (congrArg View.resources does.2)
  | misfire tid =>
    obtain ⟨task, found, waiting, neutral, -, -, view⟩ := does
    refine sound.replace_idle (congrArg View.tasks view) rfl
      ((task.resources_closed .failed).symm ▸ sound.nonneg tid task found) (fun other listed => ?_)
      (by decide : failed ∉ holding) (neutral _ sound.leased_nonneg sound.balanced)
    cases found.symm.trans listed
    rw [waiting]
    decide
  | abort tid =>
    obtain ⟨task, found, phase, view⟩ := does
    exact sound.finish (congrArg View.tasks view) (congrArg View.resources view) found
      (task.resources_closed .failed) (by decide : failed ∉ holding)
      (sound.balanced_giveBackAll found (holding_of_phase phase) fun _ => some 0)
  | startLate | write =>
    exact sound.of_same (congrArg View.tasks does) (congrArg View.resources does)
  | abortLate tid => exact lawful.elim
  | settle tid status => exact sound.close (fun _ => holding_of_phase) lawful does
  | acknowledge tid => exact sound.close (by decide) (by decide) does
  | leak tid =>
    obtain ⟨task, found, held, idle⟩ := does
    cases (sound.running tid task found held).symm.trans idle
  | demote =>
    obtain ⟨recorded, tasks, ⟨capacities, resources⟩, -⟩ := does
    have idle : ∀ tid task, s'.tasks.get? tid = some task → task.status ∉ holding := by
      intro tid task found
      rw [tasks, map_eq_some_iff] at found
      obtain ⟨before, -, rfl⟩ := found
      exact not_holding_demoted before.status
    refine ⟨?_, fun tid task found => ?_, fun tid task found held => (idle tid task found held).elim⟩
    · rw [resources]
      refine (s.resources.balanced_resumeSystem capacities).congr fun name => ?_
      refine sum_eq_zero fun amount mem => ?_
      obtain ⟨task, listed, rfl⟩ := mem_map.mp mem
      obtain ⟨tid, found⟩ := mem_values_iff.mp listed
      exact Task.lease_of_not_holding (idle tid task found) name
    · rw [tasks, map_eq_some_iff] at found
      obtain ⟨record, known, rfl⟩ := found
      replace recorded := recorded tid
      rw [known] at recorded
      obtain ⟨task, found, agrees⟩ := Task.Recorded.of_rel recorded
      obtain ⟨history, same⟩ := agrees.same
      have nonneg := sound.nonneg tid task found
      rw [show task.resources = record.resources by rw [same]] at nonneg
      exact (record.resources_closed .suspended).symm ▸ nonneg

end Scheduler

/-- A report says how the task ended. -/
def Callback.reportsEnd : Callback → Bool
  | .done _ status _ => status ∉ TaskStatus.holding
  | _ => true

namespace Scheduler

def Op.calls : Op → List Callback
  | .stop _ script => script.calls.map Prod.fst
  | .back call => [call]
  | _ => []

/-- Runners report how tasks end, and no exception leaves a start that completed its task. -/
def Event.Orderly (e : Event) : Prop :=
  (∀ call ∈ e.op.calls, call.reportsEnd = true) ∧
    ∀ entry ∈ e.starts, (∀ call ∈ entry.2.calls, call.1.reportsEnd = true) ∧
      entry.2.raisesLate entry.1 = false

instance (e : Event) : Decidable e.Orderly := instDecidableAnd

theorem permitted_of_reportsEnd {call : Callback} (ends : call.reportsEnd = true) :
    call.Permitted Lawful := by
  cases call with
  | done tid status usage =>
    have ended : status ∉ holding := by simpa [Callback.reportsEnd] using ends
    exact ⟨ended, trivial⟩
  | stopped tid => exact ⟨trivial, trivial⟩
  | enterPhase | write => trivial

theorem Event.Orderly.permitted {e : Event} (orderly : e.Orderly) (s : Scheduler) :
    e.Permitted Lawful s := by
  obtain ⟨reports, starts⟩ := orderly
  constructor
  · exact {
      index := trivial
      queue _ _ := trivial
      bind _ _ := trivial
      start _ _ := trivial
      misfire _ := trivial
      abort _ := trivial
      calls entry mem call listed :=
        permitted_of_reportsEnd ((starts entry mem).1 call listed)
      startLate _ _ _ _ := trivial
      abortLate entry mem late := by simp [(starts entry mem).2] at late }
  · cases op : e.op with
    | stop tid script =>
      refine ⟨trivial, fun call mem => permitted_of_reportsEnd (reports call.1 ?_)⟩
      rw [op]
      exact mem_map_of_mem mem
    | back call =>
      refine permitted_of_reportsEnd (reports call ?_)
      rw [op]
      exact mem_singleton_self call
    | update tid fields => exact fun _ _ _ => ⟨trivial, trivial⟩
    | _ => trivial

def Start (s : Scheduler) : Prop :=
  s.tasks = .empty ∧ s.records = .empty ∧ (∀ status, s.pools status = []) ∧
    ∀ name pool, s.resources.pools.get? name = some pool → pool.available = pool.capacity

theorem Start.filed {s : Scheduler} (start : s.Start) : s.Filed := by
  obtain ⟨tasks, records, pools, -⟩ := start
  refine ⟨fun status tid => ?_, fun status => ?_, fun tid => ?_⟩
  · simp [pools, tasks]
  · rw [pools]
    exact nodup_nil
  · rw [tasks, records]
    exact .none

theorem Start.sound {s : Scheduler} (start : s.Start) : s.Sound := by
  obtain ⟨tasks, -, -, full⟩ := start
  have none : ∀ tid task, s.tasks.get? tid ≠ some task := by simp [tasks]
  refine ⟨fun name pool listed _ => ?_, fun tid task found => (none tid task found).elim,
    fun tid task found => (none tid task found).elim⟩
  have lent : s.leased name = 0 := by
    rw [leased, tasks]
    rfl
  rw [lent, full name pool listed, sub_self]
  exact ⟨rfl, .inl rfl⟩

/-- Between calls a renewable pool has lent what the tasks in a phase or stopping declared, and
never more than it has. -/
theorem leases_conserved {s : Scheduler}
    (reached : Reaches Start next (fun _ e => e.Orderly) s) : s.resources.Balanced s.leased := by
  have base : ∀ s : Scheduler, s.Start → s.Filed ∧ s.Sound :=
    fun s start => ⟨start.filed, start.sound⟩
  have kept : s.Filed ∧ s.Sound := reached.invariant base fun s e known orderly =>
    next_keeps (fun lawful does sound => sound.effect lawful does) (orderly.permitted s)
      known.1 known.2
  exact kept.2.balanced

def twoUnits : Scheduler where
  policy := .fifo
  specs := ["worker"]
  nextAgent := 0
  tasks := .empty
  records := .empty
  handoffs := .empty
  store := none
  resources := ⟨Dict.empty.set "gpu" (.fresh .renewable 2), .empty⟩
  pools _ := []
  cascade := []
  dispatchAgain := false
  starts := []
  started := []

def unitTask (tid : TaskId) (units : ℚ) : Task where
  id := tid
  agentSpec := "worker"
  inputs := []
  outputs := []
  resources := Dict.empty.set "gpu" units
  status := .waitingHandoff
  createdAt := tid
  expedited := false
  history := []
  parent := none
  hasSubgraph := false

def completesAtOnce (tid : TaskId) (raises : Bool) : Script :=
  ⟨[(.done tid .succeeded .empty, false)], raises⟩

theorem start_twoUnits : twoUnits.Start := by
  refine ⟨rfl, rfl, fun _ => rfl, fun name pool listed => ?_⟩
  by_cases gpu : name = "gpu"
  · subst gpu
    cases listed
    rfl
  · simp [twoUnits, get?_set_of_ne gpu] at listed

/-- Task 1 is completed within its start, the start of task 2 raises. -/
def atOnce : List Event :=
  [⟨.submit (unitTask 0 1), []⟩, ⟨.submit (unitTask 1 1), [(1, completesAtOnce 1 false)]⟩,
    ⟨.submit (unitTask 2 1), [(2, ⟨[], true⟩)]⟩]

theorem at_once_conserved :
    (atOnce.foldl next twoUnits).leased "gpu" = 1 ∧
      (atOnce.foldl next twoUnits).resources.Balanced (atOnce.foldl next twoUnits).leased := by
  have orderly : ∀ e ∈ atOnce, e.Orderly := by decide +kernel
  refine ⟨by decide +kernel, leases_conserved (Reaches.run _ (.start start_twoUnits) ?_)⟩
  intro pre e post split
  exact orderly e (split ▸ mem_append_right pre mem_cons_self)

/-- Task 0 holds one unit. Task 1 is completed within its start, which then raises: its unit is
given back twice, and task 2 gets two units. -/
theorem lease_given_back_twice :
    let s := [⟨.submit (unitTask 0 1), []⟩, ⟨.submit (unitTask 1 1), [(1, completesAtOnce 1 true)]⟩,
      ⟨.submit (unitTask 2 2), []⟩].foldl next twoUnits
    twoUnits.Start ∧ s.leased "gpu" = 3 ∧
      (s.resources.pools.get? "gpu").map (fun pool => (pool.kind, pool.capacity, pool.available)) =
        some (.renewable, 2, 0) :=
  ⟨start_twoUnits, by decide +kernel, by decide +kernel⟩

end Scheduler
end Infera.TaskGraph
