import Infera.TaskGraph.Events

/-! Which attempt a completion closes. A completion carries the id of the task
only, and the scheduler closes whatever attempt is open. As long as a task is
requeued only when no thread of it is alive and no monitor is at it, a thread
that is alive belongs to the open attempt of its task, so a completion closes the
attempt that reports it or is refused. -/

namespace Infera.TaskGraph.System
open Dict TaskStatus
variable {s s' t : System} {tid : TaskId}

/-- No thread carries an attempt of the task, and no monitor is at it. -/
def Rests (s : System) (tid : TaskId) : Prop :=
  (∀ a ∈ s.attempts.values, a.tid = tid → a.live = false) ∧ s.handling.contains tid = false

instance (s : System) (tid : TaskId) : Decidable (s.Rests tid) := instDecidableAnd

theorem Rests.not_live (rests : s.Rests tid) {agent : AgentId} {a : Attempt}
    (found : s.attempts.get? agent = some a) (own : a.tid = tid) : a.live = false :=
  rests.1 a (mem_values_iff.mpr ⟨agent, found⟩) own

def Engaged (s : System) (tid : TaskId) : Prop :=
  ∃ task, s.scheduler.tasks.get? tid = some task ∧ task.status ∉ TaskStatus.waiting ∧
    task.status ≠ .cancelled

theorem not_engaged {task : Task} (found : s.scheduler.tasks.get? tid = some task)
    (waits : task.status ∈ waiting) : ¬s.Engaged tid := by
  rintro ⟨other, lookup, idle, -⟩
  cases found.symm.trans lookup
  exact idle waits

/-- The open attempt of the task, if it is in a phase, is that of the agent. -/
def Owns (s : System) (tid : TaskId) (agent : AgentId) : Prop :=
  ∀ task, s.scheduler.tasks.get? tid = some task → task.status ∈ TaskStatus.phases →
    task.BoundTo agent

structure Orderly (s : System) : Prop where
  fresh : ∀ agent a, s.attempts.get? agent = some a → agent < s.scheduler.nextAgent
  live : ∀ agent a, s.attempts.get? agent = some a → a.live = true →
    a.detached = none ∧ s.Engaged a.tid ∧ s.Owns a.tid agent
  current : ∀ tid agent, s.current.get? tid = some agent → ∃ a,
    s.attempts.get? agent = some a ∧ a.tid = tid ∧ s.Owns tid agent ∧
      (a.detached = none ∨ s.handling.contains tid = false ∧
        ∀ task, s.scheduler.tasks.get? tid = some task → task.status ∉ TaskStatus.phases)
  handling : ∀ tid, s.handling.contains tid = true → s.Engaged tid

theorem Start.orderly (start : s.Start) : s.Orderly where
  fresh := by simp [start.attempts]
  live := by simp [start.attempts]
  current := by simp [start.current]
  handling := by simp [start.handling]

namespace Orderly
variable (orderly : s.Orderly) {attempts : Dict AgentId Attempt} {h : Scheduler} {task : Task}
  {tid : TaskId}
include orderly

theorem rests (idle : ¬s.Engaged tid) : s.Rests tid := by
  refine ⟨fun a given own => ?_, ?_⟩
  · obtain ⟨agent, found⟩ := mem_values_iff.mp given
    by_contra live
    have engaged := (orderly.live agent a found (by simpa using live)).2.1
    exact idle (own ▸ engaged)
  · by_contra handled
    exact idle (orderly.handling tid (by simpa using handled))

theorem of_same (tasks : s'.scheduler.tasks = s.scheduler.tasks)
    (agent : s.scheduler.nextAgent ≤ s'.scheduler.nextAgent) (current : s'.current = s.current)
    (attempts : s'.attempts = s.attempts) (handling : s'.handling = s.handling) : s'.Orderly where
  fresh agent a found := lt_of_lt_of_le (orderly.fresh agent a (attempts ▸ found)) ‹_›
  live agent a found live := by
    unfold Engaged Owns
    rw [tasks]
    exact orderly.live agent a (attempts ▸ found) live
  current tid agent found := by
    unfold Owns
    rw [tasks, attempts, handling]
    exact orderly.current tid agent (current ▸ found)
  handling tid found := by
    unfold Engaged
    rw [tasks]
    exact orderly.handling tid (handling ▸ found)

/-- One task changes. When it leaves for the queue nobody is at it, and an attempt that it enters
or keeps a phase with is the one it had. -/
theorem set (tasks : h.tasks = s.scheduler.tasks.set tid task)
    (agent : s.scheduler.nextAgent ≤ h.nextAgent)
    (leaves : task.status ∈ waiting ∨ task.status = .cancelled → s.Rests tid)
    (keeps : task.status ∈ phases → ∃ before, s.scheduler.tasks.get? tid = some before ∧
      before.status ∈ phases ∧ ∀ agent, before.BoundTo agent → task.BoundTo agent) :
    { s with scheduler := h }.Orderly := by
  have engaged : ∀ other, s.Engaged other → (other = tid → ¬s.Rests tid) →
      { s with scheduler := h }.Engaged other := by
    rintro other ⟨found, lookup, waits, cancelled⟩ busy
    by_cases same : other = tid
    · refine ⟨task, ?_, fun waiting => busy same (leaves (.inl waiting)),
        fun cancelled => busy same (leaves (.inr cancelled))⟩
      rw [tasks, same, get?_set_self]
    · refine ⟨found, ?_, waits, cancelled⟩
      change h.tasks.get? other = _
      rw [tasks, get?_set_of_ne same, lookup]
  have owns : ∀ other agent, s.Owns other agent → { s with scheduler := h }.Owns other agent := by
    intro other agent owns found lookup phase
    rcases get?_set_cases (tasks ▸ lookup) with ⟨same, rfl⟩ | ⟨-, lookup⟩
    · obtain ⟨before, known, earlier, kept⟩ := keeps phase
      exact kept agent (owns before (same ▸ known) earlier)
    · exact owns found lookup phase
  refine ⟨fun other a found => lt_of_lt_of_le (orderly.fresh other a found) agent,
    fun other a found live => ?_, fun other agent found => ?_, fun other handled => ?_⟩
  · obtain ⟨attached, at_, bound⟩ := orderly.live other a found live
    refine ⟨attached, engaged a.tid at_ fun same rests => ?_, owns a.tid other bound⟩
    cases (rests.not_live found same).symm.trans live
  · obtain ⟨a, held, own, bound, attached⟩ := orderly.current other agent found
    refine ⟨a, held, own, owns other agent bound, attached.imp_right ?_⟩
    rintro ⟨idle, out⟩
    refine ⟨idle, fun found lookup phase => ?_⟩
    rcases get?_set_cases (tasks ▸ lookup) with ⟨same, rfl⟩ | ⟨-, lookup⟩
    · obtain ⟨before, known, earlier, -⟩ := keeps phase
      exact out before (same ▸ known) earlier
    · exact out found lookup phase
  · refine engaged other (orderly.handling other handled) fun same rests => ?_
    have free := rests.2
    rw [← same] at free
    exact absurd handled (by simp [show s.handling.contains other = false from free])

theorem launch {bound : Task} (found : s.scheduler.tasks.get? tid = some task)
    (waits : task.status ∈ waiting) (tasks : h.tasks = s.scheduler.tasks.set tid bound)
    (binds : bound.BoundTo s.scheduler.nextAgent) (phase : bound.status ∈ phases)
    (agent : h.nextAgent = s.scheduler.nextAgent + 1) :
    { s with
      scheduler := h
      current := s.current.set tid s.scheduler.nextAgent
      attempts := s.attempts.set s.scheduler.nextAgent (.fresh tid) }.Orderly := by
  have queued : ¬s.Engaged tid := not_engaged found waits
  have own : h.tasks.get? tid = some bound := by rw [tasks, get?_set_self]
  have elsewhere : ∀ other, other ≠ tid →
      h.tasks.get? other = s.scheduler.tasks.get? other := fun other differ => by
    rw [tasks, get?_set_of_ne differ]
  have engaged : ∀ other, s.Engaged other → other ≠ tid ∧ ∃ task,
      h.tasks.get? other = some task ∧ task.status ∉ waiting ∧ task.status ≠ .cancelled := by
    rintro other ⟨found, lookup, rest⟩
    have differ : other ≠ tid := fun same => queued (same ▸ ⟨found, lookup, rest⟩)
    exact ⟨differ, found, by rw [elsewhere other differ, lookup], rest⟩
  have busy : bound.status ∉ waiting ∧ bound.status ≠ .cancelled := by
    revert phase
    cases bound.status <;> decide
  refine ⟨fun other a lookup => ?_, fun other a lookup live => ?_, fun other held lookup => ?_,
    fun other handled => (engaged other (orderly.handling other handled)).2⟩
  · rw [agent]
    rcases get?_set_cases lookup with ⟨same, -⟩ | ⟨-, lookup⟩
    · exact same ▸ Nat.lt_succ_self _
    · exact Nat.lt_succ_of_lt (orderly.fresh other a lookup)
  · rcases get?_set_cases lookup with ⟨same, rfl⟩ | ⟨-, lookup⟩
    · refine ⟨rfl, ⟨bound, own, busy⟩, fun task lookup _ => ?_⟩
      cases own.symm.trans lookup
      exact same ▸ binds
    · obtain ⟨attached, at_, owns⟩ := orderly.live other a lookup live
      obtain ⟨differ, still⟩ := engaged a.tid at_
      refine ⟨attached, still, fun task lookup phase => owns task ?_ phase⟩
      exact (elsewhere a.tid differ).symm.trans lookup
  · rcases get?_set_cases lookup with ⟨same, rfl⟩ | ⟨same, lookup⟩
    · refine ⟨.fresh tid, get?_set_self .., same.symm, fun task lookup _ => ?_, .inl rfl⟩
      rw [same] at lookup
      cases own.symm.trans lookup
      exact binds
    · obtain ⟨a, known, mine, owns, attached⟩ := orderly.current other held lookup
      have later : held ≠ s.scheduler.nextAgent := (orderly.fresh held a known).ne
      refine ⟨a, (get?_set_of_ne later).trans known, mine,
        fun task lookup phase => owns task ?_ phase, attached.imp_right fun out => ⟨out.1, ?_⟩⟩
      · exact (elsewhere other same).symm.trans lookup
      · exact fun task lookup => out.2 task ((elsewhere other same).symm.trans lookup)

theorem of_attempts {f : AgentId → Attempt → Attempt}
    (each : ∀ agent, attempts.get? agent = (s.attempts.get? agent).map (f agent))
    (same : ∀ agent a, s.attempts.get? agent = some a →
      (f agent a).tid = a.tid ∧ (f agent a).detached = a.detached)
    (live : ∀ agent a, s.attempts.get? agent = some a → (f agent a).live = true → a.live = true ∨
      s.current.get? a.tid = some agent ∧ s.handling.contains a.tid = true) :
    { s with attempts }.Orderly := by
  have back : ∀ agent b, attempts.get? agent = some b →
      ∃ a, s.attempts.get? agent = some a ∧ f agent a = b := fun agent b found =>
    Option.map_eq_some_iff.mp ((each agent).symm.trans found)
  refine ⟨fun agent b found => ?_, fun agent b found lives => ?_, fun tid agent found => ?_,
    orderly.handling⟩
  · obtain ⟨a, known, -⟩ := back agent b found
    exact orderly.fresh agent a known
  · obtain ⟨a, known, rfl⟩ := back agent b found
    rw [(same agent a known).1, (same agent a known).2]
    rcases live agent a known lives with lived | ⟨current, handled⟩
    · exact orderly.live agent a known lived
    · obtain ⟨a₀, known₀, -, owns, attached⟩ := orderly.current a.tid agent current
      cases known.symm.trans known₀
      refine ⟨attached.resolve_right fun out => ?_, orderly.handling a.tid handled, owns⟩
      rw [handled] at out
      exact absurd out.1 (by simp)
  · obtain ⟨a, known, own, owns, attached⟩ := orderly.current tid agent found
    obtain ⟨tid', detached⟩ := same agent a known
    refine ⟨f agent a, ?_, tid'.trans own, owns, by rw [detached]; exact attached⟩
    exact (each agent).trans (by rw [known]; rfl)

theorem alter {f : Attempt → Attempt} (alters : s.Alters tid f attempts)
    (same : ∀ a, (f a).tid = a.tid ∧ (f a).detached = a.detached)
    (live : ∀ a, (f a).live = true → a.live = true ∨ s.handling.contains tid = true) :
    { s with attempts }.Orderly := by
  refine orderly.of_attempts alters (fun agent a _ => ?_) fun agent a known lives => ?_
  · unfold atCurrent
    split_ifs
    · exact same a
    · exact ⟨rfl, rfl⟩
  · unfold atCurrent at lives
    split_ifs at lives with current
    · obtain ⟨a₀, known₀, own, -⟩ := orderly.current tid agent current
      cases known.symm.trans known₀
      exact (live a lives).imp_right fun handled => own.symm ▸ ⟨current, handled⟩
    · exact .inl lives

theorem release (releases : s.Releases tid attempts) (idle : ¬s.Engaged tid) :
    { s with attempts }.Orderly := by
  have rests := orderly.rests idle
  have same : ∀ a, (s.released tid a).live = a.live := by
    intro a
    unfold released
    split
    · rfl
    · split_ifs <;> rfl
  have other : ∀ a : Attempt, a.tid ≠ tid → s.released tid a = a := by
    intro a differ
    unfold released
    split
    · rfl
    · exact if_neg fun own => differ own.1
  refine ⟨fun agent a known => ?_, fun agent a known live => ?_, fun mine agent known => ?_,
    orderly.handling⟩
  · obtain ⟨before, held, rfl⟩ := Option.map_eq_some_iff.mp ((releases agent).symm.trans known)
    exact orderly.fresh agent before held
  · obtain ⟨before, held, rfl⟩ := Option.map_eq_some_iff.mp ((releases agent).symm.trans known)
    rw [same before] at live
    have differ : before.tid ≠ tid := fun own => by
      cases (rests.not_live held own).symm.trans live
    rw [other before differ]
    exact orderly.live agent before held live
  · obtain ⟨a, held, own, owns, attached⟩ := orderly.current mine agent known
    refine ⟨s.released tid a, (releases agent).trans (by rw [held]; rfl),
      (s.released_tid tid a).trans own, owns, ?_⟩
    by_cases here : mine = tid
    · refine .inr ⟨here ▸ rests.2, fun before lookup phase => idle ⟨before, here ▸ lookup, ?_⟩⟩
      revert phase
      cases before.status <;> decide
    · rw [other a (own ▸ here)]
      exact attached

theorem forget (tid : TaskId) : { s with current := s.current.erase tid }.Orderly := by
  refine { orderly with current := fun other agent found => ?_ }
  rw [get?_erase] at found
  split_ifs at found
  exact orderly.current other agent found

theorem shift (shift : Shift s s') : s'.Orderly := by
  obtain ⟨b, shift, rfl⟩ := shift
  cases shift with
  | stay keeps =>
    rw [adopt_of_same keeps.started]
    exact orderly.of_same keeps.tasks keeps.nextAgent.ge rfl rfl rfl
  | queue _ _ _ found waits stays keeps =>
    rw [adopt_of_same keeps.started]
    exact orderly.set keeps.tasks keeps.nextAgent.ge
      (fun _ => orderly.rests (not_engaged found waits)) fun phase =>
        absurd (holding_of_phase phase) (not_holding_of_queued stays)
  | misfire _ _ _ found waits _ tasks _ _ agent started =>
    rw [adopt_of_same started]
    exact orderly.set tasks agent
      (fun _ => orderly.rests (not_engaged found (by rw [waits]; decide))) fun phase =>
        absurd phase (by simp [phases])
  | launch _ task found waits _ _ tasks _ _ agent started =>
    rw [adopt_of_launch started]
    refine orderly.launch found (by rw [waits]; decide) tasks ?_ List.mem_cons_self agent
    exact ⟨s.scheduler.execution task, by simp [Task.current], rfl, rfl⟩

theorem admitted (admits : Scheduler.Admits s.scheduler h task) :
    ¬s.Engaged task.id ∧ { s with scheduler := h }.Orderly := by
  have idle : ¬s.Engaged task.id := by
    rintro ⟨existing, found, waits, cancelled⟩
    exact (admits.free existing found).elim waits cancelled
  obtain ⟨status, waits, tasks⟩ := admits.tasks
  refine ⟨idle, orderly.set tasks admits.nextAgent.ge (fun _ => orderly.rests idle) fun phase => ?_⟩
  exact absurd (holding_of_phase phase) (not_holding_of_waiting waits)

theorem settle {closed : Task} {outcome : TaskStatus}
    (settles : Scheduler.Settles s.scheduler h tid task closed outcome)
    (ends : outcome ∉ phases) (left : outcome ∉ waiting)
    (stays : outcome ≠ .cancelled) : { s with scheduler := h }.Orderly :=
  orderly.set settles.keeps.tasks settles.keeps.nextAgent.ge
    (fun leaves => absurd leaves (not_or.mpr ⟨left, stays⟩)) fun phase => absurd phase ends

end Orderly

def Act.requeues : Act → Option TaskId
  | .call (.resume tid) => some tid
  | _ => none

/-- A task is requeued only when nobody is at it. -/
def Event.Waits (s : System) (e : Event) : Prop := ∀ tid ∈ e.act.requeues, s.Rests tid

instance (s : System) (e : Event) : Decidable (e.Waits s) :=
  inferInstanceAs (Decidable (∀ tid ∈ e.act.requeues, s.Rests tid))

namespace Orderly
variable (orderly : s.Orderly)
include orderly

theorem delivers {raises : Bool} (delivers : Delivers s tid raises t) : t.Orderly := by
  cases delivers with
  | advanced _ task phase h handling _ _ _ _ _ next moves expands =>
    obtain ⟨moves, -⟩ := moves
    have phases := nextPhase_phase next
    have before : task.status ∈ TaskStatus.phases := by
      revert next
      cases task.status <;> simp [nextPhase, TaskStatus.phases]
    have moved : { s with scheduler := h }.Orderly := by
      refine orderly.set moves.keeps.tasks moves.keeps.nextAgent.ge (fun leaves => ?_) fun _ =>
        ⟨task, moves.found, before, fun _ bound => bound⟩
      revert phases leaves
      cases phase <;> simp [TaskStatus.phases, waiting]
    have now : h.tasks.get? tid = some { task with status := phase } := by
      rw [moves.keeps.tasks, get?_set_self]
    have engaged : { s with scheduler := h }.Engaged tid := by
      refine ⟨_, now, ?_⟩
      revert phases
      cases phase <;> simp [TaskStatus.phases, waiting]
    have handles : ∀ other, handling.contains other = true →
        other = tid ∨ s.handling.contains other = true := by
      intro other handled
      cases expands with
      | failed enters nonLeaf fails => exact .inr handled
      | _ => exact contains_of_set handled
    refine ⟨moved.fresh, moved.live, fun other agent found => ?_, fun other handled => ?_⟩
    · obtain ⟨a, known, own, owns, attached⟩ := moved.current other agent found
      refine ⟨a, known, own, owns, attached.imp_right fun out => ⟨?_, out.2⟩⟩
      by_contra handled
      rcases handles other (by simpa using handled) with rfl | earlier
      · exact out.2 _ now phases
      · cases (show s.handling.contains other = false from out.1).symm.trans earlier
    · rcases handles other handled with rfl | earlier
      · exact engaged
      · exact moved.handling other earlier
  | _ => exact orderly.of_same rfl le_rfl rfl rfl rfl

theorem handle (handling : Dict TaskId (List Task))
    (fewer : ∀ tid, handling.contains tid = true → s.handling.contains tid = true) :
    { s with handling }.Orderly := by
  refine ⟨orderly.fresh, orderly.live, fun tid agent found => ?_,
    fun tid handled => orderly.handling tid (fewer tid handled)⟩
  obtain ⟨a, known, own, owns, attached⟩ := orderly.current tid agent found
  refine ⟨a, known, own, owns, attached.imp_right fun out => ⟨?_, out.2⟩⟩
  by_contra handled
  have earlier := fewer tid (by simpa using handled)
  cases out.1.symm.trans earlier

theorem does {agent : AgentId} {a : Attempt} {task : Task} {deed : Deed} {raised : Bool}
    (does : Does s agent a task deed t raised)
    (outcome : ∀ status, deed = .complete status → status = .succeeded ∨ status = .failed) :
    t.Orderly := by
  cases does with
  | settles status _ _ _ settles =>
    have ends : status ∉ phases ∧ status ∉ waiting ∧ status ≠ .cancelled := by
      rcases outcome status rfl with rfl | rfl <;> decide
    exact orderly.settle settles ends.1 ends.2.1 ends.2.2
  | _ => exact orderly.of_same rfl le_rfl rfl rfl rfl

theorem lead {e : Event} (waits : e.Waits s) (lead : Lead s e.act t) : t.Orderly := by
  obtain ⟨act, refused⟩ := e
  cases lead with
  | none => exact orderly
  | used call nextHandoff nextTask => exact orderly.of_same rfl le_rfl rfl rfl rfl
  | admitted _ _ _ _ _ _ _ admits releases =>
    have freed := orderly.release releases (orderly.admitted admits).1
    exact (freed.admitted admits).2.of_same rfl le_rfl rfl rfl rfl
  | lost _ _ _ _ _ _ _ queued moves releases =>
    have idle := not_engaged moves.found queued
    have freed := orderly.release releases idle
    have placed := freed.set moves.keeps.tasks moves.keeps.nextAgent.ge (fun _ => freed.rests idle)
      fun phase => absurd phase (by simp [phases])
    exact placed.of_same rfl le_rfl rfl rfl rfl
  | requeue tid _ _ _ _ waiting moves =>
    refine orderly.set moves.keeps.tasks moves.keeps.nextAgent.ge (fun _ => waits tid rfl)
      fun phase => ?_
    exact absurd (holding_of_phase phase) (not_holding_of_waiting waiting)
  | fail _ _ _ _ settles =>
    exact orderly.settle settles (by decide) (by decide) (by decide)
  | stop tid _ _ _ _ settles asks =>
    have asked := orderly.alter asks (fun _ => ⟨rfl, rfl⟩) fun _ lives => .inl lives
    exact (asked.forget tid).settle settles (by decide) (by decide) (by decide)
  | deliver _ _ _ delivers => exact orderly.delivers delivers
  | carryOn tid attempts handled takes =>
    -- the attempt is taken up before the monitor lets go of the task
    have contains : s.handling.contains tid = true := by rw [contains, handled]; rfl
    have same : ∀ a : Attempt, a.takenUp.tid = a.tid ∧ a.takenUp.detached = a.detached := by
      intro a
      unfold Attempt.takenUp
      split_ifs <;> exact ⟨rfl, rfl⟩
    have taken := orderly.alter takes same fun _ _ => .inr contains
    exact taken.handle _ fun other still => contains_of_erase still
  | reject tid =>
    have handed := orderly.handle (s.handling.erase tid) fun other still =>
      contains_of_erase still
    exact handed.of_same rfl le_rfl rfl rfl rfl
  | subtask tid _ rest _ _ _ _ handled admits releases =>
    have freed := orderly.release releases (orderly.admitted admits).1
    have handed := (freed.admitted admits).2.handle (s.handling.set tid rest)
      fun other still => by
        rcases contains_of_set still with rfl | still
        · exact congrArg Option.isSome handled
        · exact still
    exact handed.of_same rfl le_rfl rfl rfl rfl
  | retry tid attempts wakes => exact orderly.alter wakes (fun _ => ⟨rfl, rfl⟩) fun _ => .inl
  | turn agent _ _ _ _ _ _ found _ turns does =>
    obtain ⟨live, next, failed⟩ := turns_same turns
    have done := orderly.does does fun status completes =>
      (complete_outcome turns completes).imp And.right And.right
    obtain ⟨attempts, -⟩ := does.frame
    rw [← attempts] at found ⊢
    refine done.of_attempts (get?_turned found) (fun other b known => ?_)
      fun other b known lives => ?_
    · by_cases same : other = agent
      · subst same
        cases found.symm.trans known
        rw [if_pos rfl]
        split_ifs
        · exact failed
        · exact next
      · rw [if_neg same]
        exact ⟨rfl, rfl⟩
    · by_cases same : other = agent
      · subst same
        cases found.symm.trans known
        exact .inl live
      · rw [if_neg same] at lives
        exact .inl lives
  | restart =>
    constructor <;> intros <;> contradiction

end Orderly

theorem orderly_of_reached (reached : Reaches Start next (fun s e => e.Waits s) s) :
    s.Wellformed ∧ s.Orderly :=
  invariant_of_changes (fun _ start => start.orderly)
    (fun _ _ orderly waits lead => orderly.lead waits lead)
    (fun _ orderly shift => orderly.shift shift) reached

/-- In a run where tasks are requeued only when nobody is at them, a completion is refused and
changes nothing, or the execution it closes is that of the attempt that reports it. -/
theorem completion_closes_own_attempt (reached : Reaches Start next (fun s e => e.Waits s) s)
    {agent : AgentId} {a : Attempt} {status : TaskStatus} (found : s.attempts.get? agent = some a)
    (completes : a.completes = some status) (refused : List TaskId) :
    let op := Scheduler.Op.back (.done a.tid status a.usage)
    (s.perform op refused).raised = true ∧ s.invoke op refused = s ∨
      ∃ h task closed, task.BoundTo agent ∧
        Scheduler.Settles s.scheduler h a.tid task closed status ∧
        Dispatched { s with scheduler := h } (s.invoke op refused) := by
  obtain ⟨⟨sane, -⟩, orderly⟩ := orderly_of_reached reached
  have at_end : (status = .succeeded ∨ status = .failed) ∧ a.live = true := by
    unfold Attempt.completes at completes
    unfold Attempt.live
    cases point : a.point <;> rw [point] at completes <;> cases completes
    · exact ⟨.inl rfl, rfl⟩
    · exact ⟨.inr rfl, rfl⟩
  have ends : status ∉ holding := by
    rcases at_end.1 with rfl | rfl <;> decide
  rcases done_cases sane a.tid ends a.usage refused with
    ⟨raised, same, -⟩ | ⟨h, task, closed, settles, -, run, -⟩
  · exact .inl ⟨raised, same⟩
  · have owns := (orderly.live agent a found at_end.2).2.2
    exact .inr ⟨h, task, closed, owns task settles.found settles.phase, settles, run⟩

def stoppedEarly : List Event :=
  [⟨.call (.submit (plainTask 0 [] [])), []⟩, ⟨.turn 0 fine, []⟩, ⟨.turn 0 fine, []⟩, ⟨.stop 0, []⟩]

def resumedLate : List Event :=
  stoppedEarly ++ [⟨.turn 0 bad, []⟩, ⟨.turn 0 fine, []⟩, ⟨.turn 0 fine, []⟩,
    ⟨.call (.resume 0), []⟩, ⟨.turn 1 bad, []⟩]

theorem reached_resumedLate : Reaches Start next (fun s e => e.Waits s)
    (resumedLate.foldl next (blank noClosures none)) :=
  Reaches.along resumedLate (.start (start_blank _ (by simp))) (by decide +kernel)

theorem crash_closes_second_attempt :
    let s := resumedLate.foldl next (blank noClosures none)
    ∃ a, s.attempts.get? 1 = some a ∧ a.completes = some .failed ∧
      let op := Scheduler.Op.back (.done a.tid .failed a.usage)
      ((s.perform op []).raised = true ∧ s.invoke op [] = s ∨
        ∃ h task closed, task.BoundTo 1 ∧
          Scheduler.Settles s.scheduler h a.tid task closed .failed ∧
          Dispatched { s with scheduler := h } (s.invoke op [])) := by
  have known : ((resumedLate.foldl next (blank noClosures none)).attempts.get? 1).any
      (·.completes = some .failed) = true := by decide +kernel
  obtain ⟨a, found, completes⟩ := (Option.any_eq_true ..).mp known
  have completes : a.completes = some .failed := by simpa using completes
  exact ⟨a, found, completes,
    completion_closes_own_attempt reached_resumedLate found completes []⟩

/-- The task is resumed while the thread that was stopped is still validating and then crashes. -/
def resumedEarly : List Event :=
  stoppedEarly ++ [⟨.call (.resume 0), []⟩, ⟨.turn 0 bad, []⟩]

/-- The completion of the first attempt closes the second. -/
theorem late_completion_closes_next_attempt :
    let s := resumedEarly.foldl next (blank noClosures none)
    let outline := fun task : Task =>
      (task.status, task.history.map fun e => (e.agentId, e.outcome))
    (blank noClosures none).Start ∧ (s.attempts.get? 0).map (·.completes) = some (some .failed) ∧
      (s.scheduler.tasks.get? 0).map outline =
        some (.inputValidating, [(0, some .suspended), (1, none)]) ∧
      ((s.next ⟨.turn 0 fine, []⟩).scheduler.tasks.get? 0).map outline =
        some (.failed, [(0, some .suspended), (1, some .failed)]) :=
  ⟨start_blank _ (by simp), by decide +kernel, by decide +kernel, by decide +kernel⟩

/-- While a task is in a phase, at most one of its threads is alive. -/
theorem one_thread_in_phase (reached : Reaches Start next (fun s e => e.Waits s) s) {task : Task}
    (found : s.scheduler.tasks.get? tid = some task) (phase : task.status ∈ phases) :
    {agent | ∃ a, s.attempts.get? agent = some a ∧ a.tid = tid ∧ a.live = true}.Subsingleton := by
  rintro agent ⟨a, known, rfl, live⟩ other ⟨b, known', own, live'⟩
  obtain ⟨-, orderly⟩ := orderly_of_reached reached
  obtain ⟨top, current, -, bound⟩ := (orderly.live agent a known live).2.2 task found phase
  obtain ⟨top', current', -, bound'⟩ :=
    (orderly.live other b known' live').2.2 task (own ▸ found) phase
  cases current.symm.trans current'
  exact bound.symm.trans bound'

theorem resumed_task_has_one_thread :
    {agent | ∃ a, (resumedLate.foldl next (blank noClosures none)).attempts.get? agent = some a ∧
      a.tid = 0 ∧ a.live = true}.Subsingleton := by
  have known : ((resumedLate.foldl next (blank noClosures none)).scheduler.tasks.get? 0).any
      (·.status ∈ phases) = true := by decide +kernel
  obtain ⟨task, found, phase⟩ := (Option.any_eq_true ..).mp known
  exact one_thread_in_phase reached_resumedLate found (of_decide_eq_true phase)

end Infera.TaskGraph.System
