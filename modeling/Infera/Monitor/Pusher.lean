import Infera.Monitor.Buffer

/-! The pusher, a monitor that answers a failed gate by telling the agent to keep
going. It decides on the newest record of a unit; whether it has pushed before it
reads back from the record set, which others write to meanwhile. The reasons it
gives are left out. -/

namespace Infera.Monitor
open List

inductive EventKind
  | phaseDone
  | subgraphDone
  | outputAbsent
  | outputNotExecutable
  | selfCheckUnset
  | budgetExceeded
  | validationFailed
  | validationUnreached
  | pushAttempted
  | pushIneffective
  | escalated
  | monitorGaveUp
  | handlingFailed
  | loopStalled
  | threadDied
  deriving DecidableEq

def gateKinds : List EventKind := [.outputAbsent, .outputNotExecutable, .selfCheckUnset]
def terminal : List EventKind := [.validationFailed, .validationUnreached]

structure Occurrence where
  attempt : ℕ
  kind : EventKind

inductive Decision
  | push
  | escalate
  | giveUp

structure Push where
  taskId : ℕ
  attempt : ℕ
  unit : List (EventRecord Occurrence)

structure PusherMonitor where
  recorded : List (EventRecord Occurrence)
  pushes : List Push

structure Turn where
  others : List (EventRecord Occurrence)
  /-- The runner has an agent for the task. -/
  live : Bool
  unit : WorkUnit Occurrence

namespace PusherMonitor
variable (m : PusherMonitor) (live : Bool) (newest : EventRecord Occurrence)

def write (taskId attempt : ℕ) (kind : EventKind) : PusherMonitor :=
  { m with recorded := m.recorded ++ [⟨taskId, attempt, kind⟩] }

def pushedBefore : Bool :=
  m.recorded.any fun r => r.taskId = newest.taskId ∧ r.body.attempt = newest.body.attempt ∧
    r.body.kind = .pushAttempted

def decideGate : PusherMonitor × Decision :=
  if m.pushedBefore newest then
    (m.write newest.taskId newest.body.attempt .pushIneffective, .escalate)
  else (m, if live then .push else .escalate)

def decide : PusherMonitor × Decision :=
  let kind := newest.body.kind
  if kind ∈ gateKinds then m.decideGate live newest
  else if kind = .budgetExceeded ∨ kind ∈ terminal then (m, .escalate)
  else (m, .giveUp)

/-- A unit without records raises. What an escalation reports to the parent is written by others. -/
def handle (unit : WorkUnit Occurrence) : PusherMonitor :=
  match unit.records.getLast? with
  | none => m
  | some newest =>
    let attempt := newest.body.attempt
    match m.decide live newest with
    | (m, .push) => { m.write unit.taskId attempt .pushAttempted with
        pushes := m.pushes ++ [⟨unit.taskId, attempt, unit.records⟩] }
    | (m, .escalate) => m.write unit.taskId attempt .escalated
    | (m, .giveUp) => m.write unit.taskId attempt .monitorGaveUp

def step (turn : Turn) : PusherMonitor :=
  handle { m with recorded := m.recorded ++ turn.others } turn.live turn.unit

/-- The unit is of one task, and past the budget or the end of the task its newest record is not
a failure to deliver. -/
def NewestTells (_ : PusherMonitor) (turn : Turn) : Prop :=
  (∀ r ∈ turn.unit.records, r.taskId = turn.unit.taskId) ∧
    ∀ r ∈ turn.unit.records, r.body.kind ∈ .budgetExceeded :: terminal →
      ∀ newest ∈ turn.unit.records.getLast?, newest.body.kind ∉ gateKinds

instance (turn : Turn) : Decidable (m.NewestTells turn) :=
  inferInstanceAs (Decidable (_ ∧ ∀ r ∈ turn.unit.records, _ → ∀ _ ∈ _, _))

structure Bounded (m : PusherMonitor) : Prop where
  once : (m.pushes.map fun push => (push.taskId, push.attempt)).Nodup
  free : ∀ push ∈ m.pushes, ∀ r ∈ push.unit, r.body.kind ∉ .budgetExceeded :: terminal
  recorded : ∀ push ∈ m.pushes, ⟨push.taskId, push.attempt, .pushAttempted⟩ ∈ m.recorded

variable {m live}

theorem handle_cases (unit : WorkUnit Occurrence) :
    (∃ more, m.handle live unit = { m with recorded := m.recorded ++ more }) ∨
      ∃ newest ∈ unit.records.getLast?, newest.body.kind ∈ gateKinds ∧
        m.pushedBefore newest = false ∧ m.handle live unit =
          { recorded := m.recorded ++ [⟨unit.taskId, newest.body.attempt, .pushAttempted⟩]
            pushes := m.pushes ++ [⟨unit.taskId, newest.body.attempt, unit.records⟩] } := by
  unfold handle
  cases last : unit.records.getLast? with
  | none => exact .inl ⟨[], by simp⟩
  | some newest =>
    unfold decide decideGate
    dsimp only
    split_ifs with gate before agent
    · exact .inl ⟨[_] ++ [_], congrArg (mk · m.pushes) (append_assoc ..)⟩
    · exact .inr ⟨newest, rfl, gate, by simpa using before, rfl⟩
    all_goals exact .inl ⟨[_], rfl⟩

theorem Bounded.writes (bounded : m.Bounded) (more : List (EventRecord Occurrence)) :
    Bounded { m with recorded := m.recorded ++ more } :=
  { bounded with
    recorded push pushed := mem_append_left _ (bounded.recorded push pushed) }

theorem Bounded.handle (bounded : m.Bounded) {unit : WorkUnit Occurrence}
    (tells : m.NewestTells ⟨[], live, unit⟩) : (m.handle live unit).Bounded := by
  rcases handle_cases unit with ⟨more, writes⟩ | ⟨newest, last, gate, before, pushes⟩
  · rw [writes]
    exact bounded.writes more
  · have mem := mem_of_mem_getLast? last
    have fresh : ∀ push ∈ m.pushes, (push.taskId, push.attempt) ≠ (unit.taskId, newest.body.attempt) := by
      rintro push pushed same
      have written := bounded.recorded push pushed
      obtain ⟨task, attempt⟩ := Prod.mk.inj same
      rw [task, attempt, ← tells.1 newest mem] at written
      rw [pushedBefore, any_eq_false] at before
      exact before _ written (by simp)
    rw [pushes]
    refine ⟨?_, ?_, ?_⟩
    · rw [map_append, map_singleton, ← concat_eq_append, nodup_concat]
      exact ⟨by simpa using fresh, bounded.once⟩
    · intro push pushed r held past
      rcases mem_append.mp pushed with pushed | new
      · exact bounded.free push pushed r held past
      · cases mem_singleton.mp new
        exact tells.2 r held past newest last gate
    · intro push pushed
      rcases mem_append.mp pushed with pushed | new
      · exact mem_append_left _ (bounded.recorded push pushed)
      · cases mem_singleton.mp new
        exact mem_append_right _ (mem_singleton_self _)

/-- However records are merged into units, an attempt is pushed once at most, and not past its
budget or the end of its task. -/
theorem pushes_bounded {m : PusherMonitor}
    (reached : Reaches (fun m => m.pushes = []) step NewestTells m) :
    (m.pushes.map fun push => (push.taskId, push.attempt)).Nodup ∧
      ∀ push ∈ m.pushes, ∀ r ∈ push.unit, r.body.kind ∉ .budgetExceeded :: terminal := by
  have bounded : m.Bounded := by
    refine reached.invariant (fun m none => ?_) fun m turn bounded tells => ?_
    · constructor <;> simp [none]
    · exact (bounded.writes turn.others).handle tells
  exact ⟨bounded.once, bounded.free⟩

/-- Two passes of the gate whose failures became one unit. -/
def merged (kinds : List EventKind) : Turn :=
  ⟨[], true, 0, kinds.map fun kind => ⟨0, 0, kind⟩⟩

theorem gate_pushed_once :
    let m := [merged [.outputAbsent], merged [.outputAbsent, .budgetExceeded],
      merged [.outputAbsent]].foldl step ⟨[], []⟩
    m.pushes.length = 1 ∧ (m.pushes.map fun push => (push.taskId, push.attempt)).Nodup :=
  ⟨by decide, (pushes_bounded (Reaches.along _ (.start rfl) (by decide +kernel))).1⟩

/-- The budget is exceeded, and the newest record of the unit is a missing output. -/
theorem pushed_past_budget :
    (step ⟨[], []⟩ (merged [.budgetExceeded, .outputAbsent])).pushes.map (·.unit.map (·.body.kind)) =
      [[.budgetExceeded, .outputAbsent]] := by
  decide

end PusherMonitor
end Infera.Monitor
