import Infera.Dict
import Infera.Runs

/-! The buffer of unplanned work. One unit of a task is out at a time: `order`
is the queue across tasks, `dirty` are the tasks with records nobody has taken,
`processing` those whose unit is out. `get` waits outside its critical section
and has no effect while it waits, so each operation is one step. A `done` for a
task whose unit is not out queues the task a second time. -/

namespace Infera.Monitor
open List

structure EventRecord (α : Type*) where
  taskId : ℕ
  body : α
  deriving DecidableEq

structure WorkUnit (α : Type*) where
  taskId : ℕ
  records : List (EventRecord α)

structure ExceptionBuffer (α : Type*) where
  order : List ℕ
  dirty : Finset ℕ
  processing : Finset ℕ
  records : Dict ℕ (List (EventRecord α))
  closed : Bool

namespace ExceptionBuffer
variable {α : Type*}

def empty : ExceptionBuffer α := ⟨[], ∅, ∅, .empty, false⟩

variable (b : ExceptionBuffer α) (record : EventRecord α)

def pending (tid : ℕ) : List (EventRecord α) := (b.records.get? tid).getD []

/-- `none` is the refusal of a closed buffer. -/
def add : Option (ExceptionBuffer α) :=
  if b.closed then none
  else
    let tid := record.taskId
    let merged := { b with records := b.records.set tid (b.pending tid ++ [record]) }
    if tid ∈ b.dirty then some merged
    else
      let marked := { merged with dirty := insert tid b.dirty }
      if tid ∈ b.processing then some marked
      else some { marked with order := b.order ++ [tid] }

def get : Option (WorkUnit α × ExceptionBuffer α) :=
  match b.order with
  | [] => none
  | tid :: rest => some (⟨tid, b.pending tid⟩, { b with
      order := rest
      dirty := b.dirty.erase tid
      processing := insert tid b.processing
      records := b.records.erase tid })

def done (tid : ℕ) : ExceptionBuffer α :=
  { b with
    processing := b.processing.erase tid
    order := if tid ∈ b.dirty then b.order ++ [tid] else b.order }

def shutdown : ExceptionBuffer α := { b with closed := true }

theorem add_eq (isOpen : b.closed = false) : b.add record = some { b with
      records := b.records.set record.taskId (b.pending record.taskId ++ [record])
      dirty := insert record.taskId b.dirty
      order := if record.taskId ∈ b.dirty ∨ record.taskId ∈ b.processing then b.order
        else b.order ++ [record.taskId] } := by
  unfold add
  rw [if_neg (by simp [isOpen])]
  by_cases known : record.taskId ∈ b.dirty
  · rw [if_pos known, if_pos (.inl known), Finset.insert_eq_of_mem known]
  · by_cases out : record.taskId ∈ b.processing
    · rw [if_neg known, if_pos out, if_pos (.inr out)]
    · rw [if_neg known, if_neg out, if_neg (by simp [known, out])]

theorem pending_set (tid : ℕ) (records : List (EventRecord α)) (other : ℕ) :
    ({ b with records := b.records.set tid records } : ExceptionBuffer α).pending other =
      if other = tid then records else b.pending other := by
  unfold pending
  split_ifs with same
  · rw [same, Dict.get?_set_self, Option.getD_some]
  · rw [Dict.get?_set_of_ne same]

theorem pending_erase (tid other : ℕ) :
    ({ b with records := b.records.erase tid } : ExceptionBuffer α).pending other =
      if other = tid then [] else b.pending other := by
  unfold pending
  split_ifs with same
  · rw [same, Dict.get?_erase_self, Option.getD_none]
  · rw [Dict.get?_erase_of_ne same]

end ExceptionBuffer

structure Delivery (α : Type*) where
  buffer : ExceptionBuffer α
  accepted : List (EventRecord α)
  delivered : List (WorkUnit α)
  out : List ℕ

namespace Delivery
variable {α : Type*} (d : Delivery α) (tid : ℕ)

inductive Op (α : Type*)
  | add (record : EventRecord α)
  | get
  | done (tid : ℕ)
  | shutdown

def step : Op α → Delivery α
  | .add record => match d.buffer.add record with
    | none => d
    | some buffer => { d with buffer, accepted := d.accepted ++ [record] }
  | .get => match d.buffer.get with
    | none => d
    | some (unit, buffer) => { d with
        buffer, delivered := d.delivered ++ [unit], out := d.out ++ [unit.taskId] }
  | .done tid => { d with buffer := d.buffer.done tid, out := d.out.erase tid }
  | .shutdown => { d with buffer := d.buffer.shutdown }

def Start : Prop := d = ⟨.empty, [], [], []⟩

/-- A task is marked done while a unit of it is out. -/
def Matched : Op α → Prop
  | .done tid => tid ∈ d.out
  | _ => True

instance (d : Delivery α) : (op : Op α) → Decidable (d.Matched op)
  | .done tid => inferInstanceAs (Decidable (tid ∈ d.out))
  | .add _ | .get | .shutdown => .isTrue trivial

def acceptedOf : List (EventRecord α) :=
  d.accepted.filter fun record => record.taskId = tid

def deliveredOf : List (EventRecord α) :=
  (d.delivered.filter fun unit => unit.taskId = tid).flatMap (·.records)

/-- Every unit that is out is marked done, and then `get` is called once per queued task. -/
def drained : Delivery α :=
  let settled := d.out.foldl (fun d tid => d.step (.done tid)) d
  (List.replicate settled.buffer.order.length Op.get).foldl step settled

/-- The three collections agree with each other and with what is out. -/
structure Consistent (d : Delivery α) : Prop where
  pending_iff : ∀ tid, d.buffer.pending tid ≠ [] ↔ tid ∈ d.buffer.dirty
  processing_iff : ∀ tid, tid ∈ d.buffer.processing ↔ tid ∈ d.out
  order_iff : ∀ tid, tid ∈ d.buffer.order ↔ tid ∈ d.buffer.dirty ∧ tid ∉ d.buffer.processing
  order_nodup : d.buffer.order.Nodup
  out_nodup : d.out.Nodup
  conserved : ∀ tid, d.acceptedOf tid = d.deliveredOf tid ++ d.buffer.pending tid
  nonempty : ∀ unit ∈ d.delivered, unit.records ≠ []

variable {d : Delivery α}

open ExceptionBuffer

theorem Consistent.start (start : d.Start) : d.Consistent := by
  subst start
  constructor <;> simp [empty, pending, acceptedOf, deliveredOf]

def Queued (d : Delivery α) : Prop := ∀ tid, d.buffer.pending tid ≠ [] → tid ∈ d.buffer.order

section
variable (consistent : d.Consistent)
include consistent

theorem Consistent.add (record : EventRecord α) : (d.step (.add record)).Consistent := by
  dsimp only [step]
  cases closed : d.buffer.closed with
  | true =>
    have refused : d.buffer.add record = none := if_pos closed
    rw [refused]
    exact consistent
  | false =>
    rw [d.buffer.add_eq record closed]
    set tid := record.taskId with named
    have pending : ∀ other, pending { d.buffer with
          records := d.buffer.records.set tid (d.buffer.pending tid ++ [record]) } other =
        if other = tid then d.buffer.pending tid ++ [record] else d.buffer.pending other :=
      fun other => d.buffer.pending_set ..
    constructor
    · intro other
      refine Iff.trans (not_congr (Eq.congr_left (pending other))) ?_
      by_cases same : other = tid
      · simp [same]
      · simp [same, consistent.pending_iff other]
    · exact consistent.processing_iff
    · intro other
      have before := consistent.order_iff other
      by_cases same : other = tid
      · rw [same] at before ⊢
        split_ifs with skip
        · have known : tid ∉ d.buffer.processing → tid ∈ d.buffer.dirty := skip.resolve_right
          simpa [before] using known
        · simp [not_or.mp skip]
      · split_ifs with skip <;> simp [same, before]
    · split_ifs with skip
      · exact consistent.order_nodup
      · refine nodup_append.mpr ⟨consistent.order_nodup, nodup_singleton _, ?_⟩
        rintro other listed _ last rfl
        rw [mem_singleton] at last
        exact skip (.inl (last ▸ ((consistent.order_iff other).mp listed).1))
    · exact consistent.out_nodup
    · intro other
      have before := consistent.conserved other
      refine Eq.trans ?_ (congrArg (d.deliveredOf other ++ ·) (pending other)).symm
      unfold acceptedOf at before ⊢
      rw [filter_append, before]
      by_cases same : other = tid
      · simp [same, named]
      · have differ : ¬record.taskId = other := fun eq => same eq.symm
        simp [same, differ]
    · exact consistent.nonempty

theorem Consistent.get : (d.step .get).Consistent := by
  dsimp only [step, ExceptionBuffer.get]
  cases queue : d.buffer.order with
  | nil => exact consistent
  | cons tid rest =>
    have head : tid ∈ d.buffer.dirty ∧ tid ∉ d.buffer.processing :=
      (consistent.order_iff tid).mp (queue ▸ mem_cons_self)
    have nodup := queue ▸ consistent.order_nodup
    rw [nodup_cons] at nodup
    have pending : ∀ other, pending { d.buffer with
          records := d.buffer.records.erase tid } other =
        if other = tid then [] else d.buffer.pending other :=
      fun other => d.buffer.pending_erase ..
    have idle : tid ∉ d.out := fun out => head.2 ((consistent.processing_iff tid).mpr out)
    constructor
    · intro other
      refine Iff.trans (not_congr (Eq.congr_left (pending other))) ?_
      by_cases same : other = tid
      · simp [same]
      · simp [consistent.pending_iff other]
    · intro other
      simp [consistent.processing_iff other, or_comm]
    · intro other
      have before := consistent.order_iff other
      rw [queue] at before
      by_cases same : other = tid
      · simp [same, nodup.1]
      · simpa [same] using before
    · exact nodup.2
    · refine nodup_append.mpr ⟨consistent.out_nodup, nodup_singleton _, ?_⟩
      rintro other listed _ last rfl
      have last : other = tid := mem_singleton.mp last
      exact idle (last ▸ listed)
    · intro other
      have before := consistent.conserved other
      refine Eq.trans ?_ (congrArg (_ ++ ·) (pending other)).symm
      refine Eq.trans before ?_
      unfold deliveredOf
      by_cases same : other = tid
      · simp [same]
      · have differ : ¬tid = other := fun eq => same eq.symm
        simp [same, differ]
    · intro unit delivered
      rw [mem_append, mem_singleton] at delivered
      rcases delivered with earlier | rfl
      · exact consistent.nonempty unit earlier
      · exact (consistent.pending_iff tid).mpr head.1

theorem Consistent.done {tid : ℕ} (out : tid ∈ d.out) : (d.step (.done tid)).Consistent := by
  have busy := (consistent.processing_iff tid).mpr out
  have unqueued : tid ∉ d.buffer.order := fun listed =>
    ((consistent.order_iff tid).mp listed).2 busy
  constructor
  · exact consistent.pending_iff
  · intro other
    dsimp only [step, ExceptionBuffer.done]
    rw [Finset.mem_erase, consistent.processing_iff, consistent.out_nodup.mem_erase_iff]
  · intro other
    have before := consistent.order_iff other
    dsimp only [step, ExceptionBuffer.done]
    by_cases same : other = tid
    · subst same
      split_ifs with dirty <;> simp [dirty, unqueued]
    · split_ifs with dirty <;> simp [same, before]
  · dsimp only [step, ExceptionBuffer.done]
    split_ifs with dirty
    · refine nodup_append.mpr ⟨consistent.order_nodup, nodup_singleton _, ?_⟩
      rintro other listed _ last rfl
      rw [mem_singleton] at last
      exact unqueued (last ▸ listed)
    · exact consistent.order_nodup
  · exact consistent.out_nodup.erase tid
  · exact consistent.conserved
  · exact consistent.nonempty

theorem Consistent.step {op : Op α} (matched : d.Matched op) : (d.step op).Consistent := by
  cases op with
  | add record => exact consistent.add record
  | get => exact consistent.get
  | done tid => exact consistent.done matched
  | shutdown => exact { consistent with }

theorem Consistent.dones :
    ∃ settled : Delivery α, d.out.foldl (fun d tid => d.step (.done tid)) d = settled ∧
      settled.Consistent ∧ settled.out = [] ∧ settled.accepted = d.accepted := by
  generalize unsettled : d.out = out
  induction out generalizing d with
  | nil => exact ⟨d, rfl, consistent, unsettled, rfl⟩
  | cons tid rest ih =>
    have left : (d.step (.done tid)).out = rest := by
      simp [Delivery.step, unsettled]
    obtain ⟨settled, run, rest⟩ := ih (consistent.done (unsettled ▸ mem_cons_self)) left
    exact ⟨settled, run, rest⟩

theorem Consistent.queued (idle : d.out = []) : d.Queued := by
  intro tid pending
  refine (consistent.order_iff tid).mpr ⟨(consistent.pending_iff tid).mp pending, fun busy => ?_⟩
  have out := (consistent.processing_iff tid).mp busy
  rw [idle] at out
  cases out

omit consistent in
theorem Queued.get (queued : d.Queued) : (d.step .get).Queued := by
  dsimp only [step, ExceptionBuffer.get]
  cases queue : d.buffer.order with
  | nil => exact queued
  | cons tid rest =>
    intro other pending
    have erased := d.buffer.pending_erase tid other
    have left : ¬(if other = tid then [] else d.buffer.pending other) = [] :=
      fun empty => pending (erased.trans empty)
    split_ifs at left with same
    · exact (left rfl).elim
    · have listed := queued other left
      rw [queue] at listed
      exact (mem_cons.mp listed).resolve_left same

theorem Consistent.gets (queued : d.Queued) (n : ℕ) (length : d.buffer.order.length = n) :
    ((List.replicate n Op.get).foldl Delivery.step d).Consistent ∧
      ((List.replicate n Op.get).foldl Delivery.step d).accepted = d.accepted ∧
      ∀ tid, ((List.replicate n Op.get).foldl Delivery.step d).buffer.pending tid = [] := by
  induction n generalizing d with
  | zero =>
    refine ⟨consistent, rfl, fun tid => ?_⟩
    by_contra pending
    have listed := queued tid pending
    rw [length_eq_zero_iff.mp length] at listed
    cases listed
  | succ n ih =>
    obtain ⟨tid, rest, queue⟩ := exists_cons_of_length_eq_add_one length
    have taken : (d.step .get).buffer.order = rest ∧ (d.step .get).accepted = d.accepted := by
      simp [Delivery.step, ExceptionBuffer.get, queue]
    have shorter : (d.step .get).buffer.order.length = n := by
      rw [taken.1]
      simpa [queue] using length
    obtain ⟨consistent', accepted, empty⟩ := ih consistent.get queued.get shorter
    exact ⟨consistent', accepted.trans taken.2, empty⟩

theorem Consistent.drained (tid : ℕ) : d.drained.deliveredOf tid = d.acceptedOf tid := by
  obtain ⟨settled, run, consistent', idle, accepted⟩ := consistent.dones
  obtain ⟨final, same, empty⟩ := consistent'.gets (consistent'.queued idle) _ rfl
  have conserved := final.conserved tid
  rw [empty tid, append_nil] at conserved
  unfold Delivery.drained
  rw [run, ← conserved, acceptedOf, acceptedOf, same, accepted]

end

/-- What the buffer owes to its users in a state. -/
structure Delivers (d : Delivery α) : Prop where
  /-- Each task's records were delivered once, in the order they were added, but for those that
  are still in the buffer. -/
  once : ∀ tid, d.acceptedOf tid = d.deliveredOf tid ++ d.buffer.pending tid
  /-- What is in the buffer is delivered when the units that are out are done and `get` is
  called. -/
  all : ∀ tid, d.drained.deliveredOf tid = d.acceptedOf tid
  nonempty : ∀ unit ∈ d.delivered, unit.records ≠ []
  single : d.out.Nodup
  next : ∀ unit buffer, d.buffer.get = some (unit, buffer) → unit.taskId ∉ d.out

theorem buffer_delivers {d : Delivery α} (reached : Reaches Start step Matched d) : d.Delivers := by
  have base : ∀ d : Delivery α, d.Start → d.Consistent := fun d => Consistent.start
  have consistent : d.Consistent :=
    reached.invariant base fun d op consistent matched => consistent.step matched
  exact {
    once := consistent.conserved
    all := consistent.drained
    nonempty := consistent.nonempty
    single := consistent.out_nodup
    next := by
      intro unit buffer taken out
      have busy := (consistent.processing_iff unit.taskId).mpr out
      unfold ExceptionBuffer.get at taken
      cases queue : d.buffer.order with
      | nil => simp [queue] at taken
      | cons tid rest =>
        have own : unit.taskId = tid := by
          rw [queue] at taken
          cases taken
          rfl
        have head := (consistent.order_iff tid).mp (queue ▸ mem_cons_self)
        exact head.2 (own ▸ busy) }

/-- A record arrives while the unit of its task is out: it is delivered after `done`. -/
theorem late_record_delivered :
    let d := [Op.add ⟨0, 'a'⟩, .add ⟨0, 'b'⟩, .get, .add ⟨0, 'c'⟩, .get, .done 0, .get].foldl step
      (⟨.empty, [], [], []⟩ : Delivery Char)
    d.Delivers ∧ d.delivered.map (·.records.map (·.body)) = [['a', 'b'], ['c']] := by
  exact ⟨buffer_delivers (Reaches.along _ (.start rfl) (by decide +kernel)), by decide +kernel⟩

/-- `done` for a task whose unit is not out: the task is queued twice, its second unit is empty,
and both are out. -/
theorem unmatched_done_delivers_empty :
    let d := [Op.add ⟨0, 'a'⟩, .done 0, .get, .get].foldl step
      (⟨.empty, [], [], []⟩ : Delivery Char)
    d.delivered.map (·.records.map (·.body)) = [['a'], []] ∧ d.out = [0, 0] := by
  decide +kernel

end Delivery
end Infera.Monitor
