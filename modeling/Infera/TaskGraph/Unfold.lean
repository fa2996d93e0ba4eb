import Infera.TaskGraph.Closures

/-! Unfolding a non-leaf. One subtask is built per declared entry, wired by kind:
an input takes the slot of the last earlier entry that produces its kind, else
the parent's own input of that kind, else a new slot. An end entry writes the
parent's outputs. The result is a closed graph exactly when the declared kinds are
supplied, which no load check asks. New ids come from counters that are above
every id in use. -/

namespace Infera.TaskGraph
open List

structure GraphTask where
  id : TaskId
  agentSpec : String
  inputs : List HandoffId
  outputs : List HandoffId
  dependsOn : List TaskId
  resources : List (String × ℚ)
  parent : Option TaskId
  isStart : Bool
  isEnd : Bool
  closure : Option String
  permissions : List Grant
  kinds : Dict HandoffId String
  monitorSpec : Option String

inductive UnfoldError
  | noClosure
  | undeclared (name : String)
  | noSubgraph (name : String)
  | noEarlierEntry (index : ℕ) (name : String)
  | noAgent
  deriving DecidableEq

def subgraphAgentSpec : String := "subgraph"

/-- A declared agent wins; a non-leaf without one gets the built-in; a leaf has to have one. -/
def agentSpecFor (doc : ClosureDoc) : Except UnfoldError String :=
  if agentOf doc ≠ "" then .ok (agentOf doc)
  else if !doc.task.subgraph.isEmpty then .ok subgraphAgentSpec
  else
    match doc.agent with
    | some agent => .ok agent
    | none => .error .noAgent

variable (kinds : Dict HandoffId String) (first : Dict String HandoffId) (slots : List HandoffId)
  (hid : HandoffId) (kind : String)

def noteFirst : Dict String HandoffId :=
  match kinds.get? hid with
  | none => first
  | some kind => if first.contains kind then first else first.set kind hid

def firstOfKind : Dict String HandoffId :=
  slots.foldl (noteFirst kinds) .empty

theorem get?_noteFirst : (noteFirst kinds first hid).get? kind =
      (first.get? kind).or (if kinds.get? hid = some kind then some hid else none) := by
  unfold noteFirst
  cases typed : kinds.get? hid with
  | none => simp
  | some own =>
    dsimp only
    by_cases held : first.contains own
    · rw [if_pos held]
      by_cases same : own = kind
      · subst same
        obtain ⟨slot, found⟩ := Option.isSome_iff_exists.mp held
        rw [found]
        rfl
      · simp [same]
    · have absent : first.get? own = none := by simpa [Dict.contains] using held
      rw [if_neg held, Dict.get?_set]
      by_cases same : kind = own
      · subst same
        simp [absent]
      · simp [same, Ne.symm same]

theorem get?_firstOfKind :
    (firstOfKind kinds slots).get? kind = slots.find? fun hid => kinds.get? hid = some kind := by
  induction slots using List.reverseRecOn with
  | nil => rfl
  | append_singleton rest last ih =>
    rw [firstOfKind, foldl_append, foldl_cons, foldl_nil, ← firstOfKind, get?_noteFirst, ih]
    by_cases typed : kinds.get? last = some kind <;> simp

/-- The slot that a kind resolves to, and the next new id. -/
structure Wiring where
  available : Dict String HandoffId
  next : HandoffId

/-- The slots of these input kinds; a kind that resolves to nothing gets a new slot. -/
def consume : List String → Wiring → List HandoffId × Wiring
  | [], w => ([], w)
  | kind :: rest, w =>
    match w.available.get? kind with
    | some hid =>
      let (slots, w) := consume rest w
      (hid :: slots, w)
    | none =>
      let (slots, after) := consume rest ⟨w.available.set kind w.next, w.next + 1⟩
      (w.next :: slots, after)

/-- The slots of these output kinds: the parent's for an end entry, else new ones. -/
def supply (mine : Dict String HandoffId) (isEnd : Bool) :
    List String → Wiring → List HandoffId × Wiring
  | [], w => ([], w)
  | kind :: rest, w =>
    match if isEnd then mine.get? kind else none with
    | some hid =>
      let (slots, after) := supply mine isEnd rest ⟨w.available.set kind hid, w.next⟩
      (hid :: slots, after)
    | none =>
      let (slots, after) := supply mine isEnd rest ⟨w.available.set kind w.next, w.next + 1⟩
      (w.next :: slots, after)

structure Builder where
  wiring : Wiring
  nextTask : TaskId
  latestNamed : Dict String ℕ
  made : List GraphTask

def dependencies (b : Builder) (index : ℕ) :
    List String → List TaskId → Except UnfoldError (List TaskId)
  | [], ids => .ok ids
  | name :: rest, ids =>
    match b.latestNamed.get? name with
    | none => .error (.noEarlierEntry index name)
    | some j =>
      match b.made[j]? with
      | none => dependencies b index rest ids
      | some declared =>
        dependencies b index rest (if declared.id ∈ ids then ids else ids ++ [declared.id])

structure Expansion where
  parent : Option TaskId
  monitorSpec : Option String
  mine : Dict String HandoffId

/-- The subtask of one entry, at the slots that its kinds resolve to. -/
def Builder.add (b : Builder) (x : Expansion) (index : ℕ) (entry : SubgraphEntry)
    (doc : ClosureDoc) (dependsOn : List TaskId) (agentSpec : String) : Builder :=
  let (inputs, wiring) := consume doc.task.inputs b.wiring
  let (outputs, wiring) := supply x.mine entry.isEnd doc.task.outputs wiring
  { wiring
    nextTask := b.nextTask + 1
    latestNamed := b.latestNamed.set entry.closure index
    made := b.made ++
      [{ id := b.nextTask, agentSpec, inputs, outputs, dependsOn
         resources := doc.task.resources
         parent := x.parent
         isStart := entry.isStart
         isEnd := entry.isEnd
         closure := some entry.closure
         permissions := doc.task.grants
         kinds := Dict.empty.assign (inputs.zip doc.task.inputs ++ outputs.zip doc.task.outputs)
         monitorSpec := doc.task.monitor.or x.monitorSpec }] }

variable (regs : Registries) (producerOf : Dict String ℕ) (task : GraphTask) (closureName : String)
  (parent : Option TaskId) (next : HandoffId) (x : Expansion) (index : ℕ) (entry : SubgraphEntry)
  (edges : List DerivedEdge)

def place (b : Builder) : Except UnfoldError Builder :=
  match regs.closures.get? entry.closure with
  | none => .error (.undeclared entry.closure)
  | some doc =>
    match dependencies b index entry.froms
        (edges.filterMap fun edge => b.made[edge.producerIndex]?.map (·.id)) with
    | .error e => .error e
    | .ok dependsOn =>
      match agentSpecFor doc with
      | .error e => .error e
      | .ok agentSpec => .ok (b.add x index entry doc dependsOn agentSpec)

def placeAll (regs : Registries) (x : Expansion) :
    ℕ → List (SubgraphEntry × List DerivedEdge) → Builder → Except UnfoldError Builder
  | _, [], b => .ok b
  | index, (entry, edges) :: rest, b =>
    match place regs x index entry edges b with
    | .error e => .error e
    | .ok b => placeAll regs x (index + 1) rest b

def specsByName : Dict String TaskSpec :=
  regs.closures.mapValues fun _ doc => doc.task

def instantiate (nextTask : TaskId) : Except UnfoldError (List GraphTask) :=
  match regs.closures.get? closureName with
  | none => .error (.undeclared closureName)
  | some doc =>
    let entries := subgraphEntries doc.task
    if entries.isEmpty then .error (.noSubgraph closureName)
    else
      let edges := derivedEdges entries (specsByName regs)
      (placeAll regs
        ⟨parent.or task.parent, task.monitorSpec, firstOfKind task.kinds task.outputs⟩ 0
        (entries.zip edges)
        ⟨⟨firstOfKind task.kinds task.inputs, next⟩, nextTask, .empty, []⟩).map (·.made)

/-- A task whose expansion exists already has nothing to submit. -/
def unfold (alreadyUnfolded : Bool) (next : HandoffId)
    (nextTask : TaskId) : Except UnfoldError (List GraphTask) :=
  match task.closure with
  | none => .error .noClosure
  | some name =>
    if alreadyUnfolded then .ok []
    else instantiate regs task name (some task.id) next nextTask

def rootTask (id : TaskId) : Except UnfoldError GraphTask :=
  match regs.closures.get? closureName with
  | none => .error (.undeclared closureName)
  | some doc =>
    let spec := doc.task
    let declared := (doc.handoffs ++ spec.inputs ++ spec.outputs).eraseDups
    let slot := fun kind => next + declared.idxOf kind
    match agentSpecFor doc with
    | .error e => .error e
    | .ok agentSpec => .ok
      { id, agentSpec
        inputs := spec.inputs.map slot
        outputs := spec.outputs.map slot
        dependsOn := []
        resources := spec.resources
        parent := none
        isStart := true
        isEnd := true
        closure := some closureName
        permissions := spec.grants
        kinds := Dict.empty.assign ((spec.inputs ++ spec.outputs).map fun kind => (slot kind, kind))
        monitorSpec := spec.monitor }

/-- Tasks that come from the catalogue: a root, or a subtask of one that does. -/
inductive Instantiated (regs : Registries) : GraphTask → Prop
  | root {name : String} {next : HandoffId} {id : TaskId} {task : GraphTask}
      (made : rootTask regs name next id = .ok task) : Instantiated regs task
  | subtask {task : GraphTask} {name : String} {parent : Option TaskId} {next : HandoffId}
      {nextTask : TaskId} {subtasks : List GraphTask} {t : GraphTask}
      (from_ : Instantiated regs task) (unused : ∀ hid ∈ task.kinds.keys, hid < next)
      (made : instantiate regs task name parent next nextTask = .ok subtasks)
      (mem : t ∈ subtasks) : Instantiated regs t

/-- No subtask waits for a slot that nothing writes, and each of the parent's outputs is written. -/
structure ClosedGraph (task : GraphTask) (subtasks : List GraphTask) : Prop where
  inputs : ∀ (i : ℕ) (t : GraphTask), subtasks[i]? = some t → ∀ hid ∈ t.inputs,
    hid ∈ task.inputs ∨ ∃ (j : ℕ) (u : GraphTask),
      j < i ∧ subtasks[j]? = some u ∧ hid ∈ u.outputs ∧ u.id ∈ t.dependsOn
  outputs : ∀ hid ∈ task.outputs, ∃ t ∈ subtasks, t.isEnd = true ∧ hid ∈ t.outputs

def kindsOf (key : TaskSpec → List String) (entry : SubgraphEntry) : List String :=
  ((regs.closures.get? entry.closure).map fun doc => key doc.task).getD []

/-- Each kind an entry consumes is an input kind of the task or an output kind of an earlier entry;
each output kind of the task is an output kind of an end entry; and no two output slots of the task
have one kind. -/
structure Supplied (regs : Registries) (task : GraphTask) (spec : TaskSpec) : Prop where
  consumed : ∀ item ∈ (subgraphEntries spec).zipIdx,
    ∀ kind ∈ kindsOf regs TaskSpec.inputs item.1, kind ∈ spec.inputs ∨
      ∃ earlier ∈ (subgraphEntries spec).take item.2, kind ∈ kindsOf regs TaskSpec.outputs earlier
  exported : ∀ kind ∈ spec.outputs, ∃ entry ∈ subgraphEntries spec,
    entry.isEnd = true ∧ kind ∈ kindsOf regs TaskSpec.outputs entry
  once : ∀ hid ∈ task.outputs, ∀ other ∈ task.outputs,
    task.kinds.get? hid = task.kinds.get? other → hid = other

instance (regs : Registries) (task : GraphTask) (spec : TaskSpec) :
    Decidable (Supplied regs task spec) :=
  decidable_of_iff
    ((∀ item ∈ (subgraphEntries spec).zipIdx,
        ∀ kind ∈ kindsOf regs TaskSpec.inputs item.1, kind ∈ spec.inputs ∨
          ∃ earlier ∈ (subgraphEntries spec).take item.2,
            kind ∈ kindsOf regs TaskSpec.outputs earlier) ∧
      (∀ kind ∈ spec.outputs, ∃ entry ∈ subgraphEntries spec,
        entry.isEnd = true ∧ kind ∈ kindsOf regs TaskSpec.outputs entry) ∧
      ∀ hid ∈ task.outputs, ∀ other ∈ task.outputs,
        task.kinds.get? hid = task.kinds.get? other → hid = other)
    ⟨fun all => ⟨all.1, all.2.1, all.2.2⟩, fun s => ⟨s.consumed, s.exported, s.once⟩⟩

theorem consume_of_available {kinds : List String} {w : Wiring}
    (known : ∀ kind ∈ kinds, (w.available.get? kind).isSome) : (consume kinds w).2 = w ∧
      ∀ hid ∈ (consume kinds w).1, ∃ kind ∈ kinds, w.available.get? kind = some hid := by
  induction kinds with
  | nil => exact ⟨rfl, fun hid inside => absurd inside not_mem_nil⟩
  | cons kind rest ih =>
    obtain ⟨slot, found⟩ := Option.isSome_iff_exists.mp (known kind mem_cons_self)
    obtain ⟨same, resolved⟩ := ih fun other inside => known other (.tail _ inside)
    simp only [consume, found]
    refine ⟨same, fun hid inside => ?_⟩
    rcases mem_cons.mp inside with rfl | inside
    · exact ⟨kind, mem_cons_self, found⟩
    · obtain ⟨other, listed, resolves⟩ := resolved hid inside
      exact ⟨other, .tail _ listed, resolves⟩

theorem supply_available (mine : Dict String HandoffId) (isEnd : Bool) (kinds : List String) :
    ∀ (w : Wiring) (kind : String),
      (kind ∉ kinds → (supply mine isEnd kinds w).2.available.get? kind = w.available.get? kind) ∧
      (kind ∈ kinds → ∃ hid ∈ (supply mine isEnd kinds w).1,
        (supply mine isEnd kinds w).2.available.get? kind = some hid) := by
  induction kinds with
  | nil => exact fun w kind => ⟨fun _ => rfl, fun inside => absurd inside not_mem_nil⟩
  | cons first rest ih =>
    intro w kind
    have step : ∃ hid next, supply mine isEnd (first :: rest) w =
        (hid :: (supply mine isEnd rest ⟨w.available.set first hid, next⟩).1,
          (supply mine isEnd rest ⟨w.available.set first hid, next⟩).2) := by
      rw [supply]
      split
      · exact ⟨_, _, rfl⟩
      · exact ⟨_, _, rfl⟩
    obtain ⟨hid, next, goes⟩ := step
    obtain ⟨kept, resolved⟩ := ih ⟨w.available.set first hid, next⟩ kind
    rw [goes]
    by_cases later : kind ∈ rest
    · refine ⟨fun absent => absurd (.tail _ later) absent, fun _ => ?_⟩
      obtain ⟨slot, inside, resolves⟩ := resolved later
      exact ⟨slot, .tail _ inside, resolves⟩
    · rw [kept later, Dict.get?_set]
      by_cases same : kind = first
      · rw [if_pos same]
        exact ⟨fun absent => absurd (same ▸ mem_cons_self) absent,
          fun _ => ⟨hid, mem_cons_self, rfl⟩⟩
      · rw [if_neg same]
        refine ⟨fun _ => rfl, fun inside => ?_⟩
        rcases mem_cons.mp inside with first | inside
        · exact absurd first same
        · exact absurd inside later

theorem mem_supply_of_mine {mine : Dict String HandoffId} {kinds : List String} :
    ∀ {w : Wiring} {kind : String} {hid : HandoffId}, kind ∈ kinds → mine.get? kind = some hid →
      hid ∈ (supply mine true kinds w).1 := by
  induction kinds with
  | nil => exact fun inside => absurd inside not_mem_nil
  | cons first rest ih =>
    intro w kind hid inside own
    rcases mem_cons.mp inside with rfl | inside
    · simp only [supply, own]
      exact mem_cons_self
    · rw [supply]
      split
      · exact .tail _ (ih inside own)
      · exact .tail _ (ih inside own)

/-- An output slot that was there before is the parent's. -/
theorem supply_old {mine : Dict String HandoffId} {isEnd : Bool} {bound : HandoffId}
    (kinds : List String) : ∀ {w : Wiring}, bound ≤ w.next →
      ∀ hid ∈ (supply mine isEnd kinds w).1, hid < bound → ∃ kind, mine.get? kind = some hid := by
  induction kinds with
  | nil => exact fun _ hid inside => absurd inside not_mem_nil
  | cons kind rest ih =>
    intro w above hid inside old
    rw [supply] at inside
    split at inside
    · rename_i own chosen
      rcases mem_cons.mp inside with rfl | inside
      · split_ifs at chosen
        exact ⟨kind, chosen⟩
      · exact ih (by exact above) hid inside old
    · rcases mem_cons.mp inside with rfl | inside
      · exact absurd above (Nat.not_le.mpr old)
      · exact ih (Nat.le_succ_of_le above) hid inside old

theorem get?_produce (outputs : List String) :
    ∀ kind, (produce producerOf index outputs).get? kind =
      if kind ∈ outputs then some index else producerOf.get? kind := by
  induction outputs generalizing producerOf with
  | nil => exact fun kind => by simp [produce]
  | cons first rest ih =>
    intro kind
    rw [produce, foldl_cons, ← produce, ih, Dict.get?_set]
    by_cases later : kind ∈ rest
    · rw [if_pos later, if_pos (.tail _ later)]
    · rw [if_neg later]
      by_cases same : kind = first
      · rw [if_pos same, if_pos (same ▸ mem_cons_self)]
      · rw [if_neg same, if_neg (by simp [same, later])]

theorem subset_addEdge (kind : String) : edges ⊆ addEdge producerOf edges kind := by
  unfold addEdge
  split
  · exact List.Subset.refl _
  · split_ifs
    · exact List.Subset.refl _
    · exact subset_append_left _ _

theorem mem_edgesOf {producerOf : Dict String ℕ} {inputs : List String} {kind : String} {j : ℕ}
    (consumed : kind ∈ inputs) (producer : producerOf.get? kind = some j) :
    ∃ edge ∈ edgesOf producerOf inputs, edge.producerIndex = j := by
  induction inputs using List.reverseRecOn with
  | nil => exact absurd consumed not_mem_nil
  | append_singleton rest last ih =>
    rw [edgesOf, foldl_append, foldl_cons, ← edgesOf]
    rcases mem_append.mp consumed with before | at_last
    · obtain ⟨edge, inside, same⟩ := ih before
      exact ⟨edge, subset_addEdge _ _ _ inside, same⟩
    · rw [mem_singleton.mp at_last] at producer
      by_cases already : (edgesOf producerOf rest).any (·.producerIndex = j) = true
      · obtain ⟨edge, inside, same⟩ := any_eq_true.mp already
        exact ⟨edge, subset_addEdge _ _ _ inside, of_decide_eq_true same⟩
      · rw [addEdge, producer]
        dsimp only
        rw [if_neg already]
        exact ⟨_, mem_append_right _ (mem_singleton_self _), rfl⟩

theorem dependencies_ok {b : Builder} {index : ℕ} {froms : List String}
    (known : ∀ name ∈ froms, (b.latestNamed.get? name).isSome) :
    ∀ ids, ∃ all, dependencies b index froms ids = .ok all ∧ ids ⊆ all := by
  induction froms with
  | nil => exact fun ids => ⟨ids, rfl, List.Subset.refl _⟩
  | cons name rest ih =>
    intro ids
    obtain ⟨j, found⟩ := Option.isSome_iff_exists.mp (known name mem_cons_self)
    have later := ih fun other inside => known other (.tail _ inside)
    simp only [dependencies, found]
    cases b.made[j]? with
    | none => exact later ids
    | some declared =>
      obtain ⟨all, goes, kept⟩ := later (if declared.id ∈ ids then ids else ids ++ [declared.id])
      refine ⟨all, goes, fun id inside => kept ?_⟩
      split_ifs
      · exact inside
      · exact mem_append_left _ inside

end Infera.TaskGraph
