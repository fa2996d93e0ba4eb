import Infera.TaskGraph.Catalogue

/-! The closure pass over a loaded catalogue, and what an accepted catalogue is.
The pass keys the task spec of every closure under the closure's name, and the
graph checks then run over those specs. Every check appends problems and none
raises; a catalogue is accepted when no problem of the two passes is fatal. -/

namespace Infera.TaskGraph
open List

structure Registries where
  closures : Dict String ClosureDoc
  originOf : String → String
  handoffSpecs : List String
  agentSpecs : List String
  /-- Validators, each with the agent spec it names. -/
  validatorSpecs : Dict String (Option String)
  validatorOrigin : String → String
  /-- Kinds that were admitted under the escape-hatch flag. -/
  withoutValidator : List String

variable (task : TaskSpec) (doc : ClosureDoc) (regs : Registries) (origin : String)

def namedKinds : List String := (task.inputs ++ task.outputs).eraseDups

/-- A write grant covers a read. -/
def covers (kind : String) (access : Access) : Bool :=
  task.grants.any fun grant => grant.kind = some kind && (grant.access = access || grant.access = .write)

def checkPermissionsCover : List Problem :=
  (task.inputs.map (·, Access.read) ++ task.outputs.map (·, Access.write)).flatMap
    fun (kind, access) =>
      if covers task kind access then [] else [⟨origin, "$.task.permissions.grants", "covers", true⟩]

def checkBody : List Problem :=
  (if task.body.readme = "" then [⟨origin, "$.task.body.readme", "required", true⟩] else []) ++
  if task.body.entry.any (· ≠ "") && !task.subgraph.isEmpty then
    [⟨origin, "$.task.body.entry", "oneOf", true⟩] else []

def checkSubgraphTargets : List Problem :=
  task.subgraph.zipIdx.flatMap fun (entry, index) =>
    if entry.closure = "" then [⟨origin, s!"$.task.subgraph[{index}]", "required", true⟩]
    else if regs.closures.contains entry.closure then []
    else [⟨origin, s!"$.task.subgraph[{index}]", "resolves", true⟩]

def checkKinds : List Problem :=
  (namedKinds doc.task).flatMap fun kind =>
    if kind ∉ regs.handoffSpecs then [⟨origin, "$.task", "resolves", true⟩]
    else if kind ∉ doc.handoffs then [⟨origin, "$.handoffs", "declared", true⟩]
    else []

def escapeHatchReport : List Problem :=
  if (namedKinds task).any (· ∈ regs.withoutValidator) then
    [⟨origin, "$.handoffs", "escape_hatch", false⟩] else []

def agentOf : String := doc.agent.getD ""

/-- Absent is an error for a leaf only. -/
def checkAgent : List Problem :=
  if agentOf doc = "" && doc.task.subgraph.isEmpty then [⟨origin, "$.agent", "required", true⟩]
  else if agentOf doc ≠ "" && agentOf doc ∉ regs.agentSpecs then
    [⟨origin, "$.agent", "resolves", true⟩]
  else []

section
variable (taskSpecs : Dict String TaskSpec) (origin : String)

def checkPhaseValidators : List Problem :=
  doc.validators.flatMap fun validator =>
    if regs.validatorSpecs.contains validator then []
    else if taskSpecs.contains validator then [⟨origin, "$.validators", "kind", true⟩]
    else [⟨origin, "$.validators", "resolves", true⟩]

def checkClosure : List Problem :=
  checkKinds doc regs origin ++ escapeHatchReport doc.task regs origin ++
    checkAgent doc regs origin ++ checkPhaseValidators doc regs taskSpecs origin ++
    checkPermissionsCover doc.task origin ++ checkBody doc.task origin ++
    checkSubgraphTargets doc.task regs origin

end

/-- The name is held by another spec, or the spec by another name. -/
def clashes (specs : Dict String TaskSpec) (name : String) (task : TaskSpec) : Bool :=
  match specs.get? name with
  | some held => held ≠ task
  | none => task ∈ specs.values

/-- Key each task spec under its closure's name. -/
def admitTaskSpecs (regs : Registries) :
    List String → Dict String TaskSpec → Dict String TaskSpec × List Problem
  | [], specs => (specs, [])
  | name :: rest, specs =>
    match regs.closures.get? name with
    | none => admitTaskSpecs regs rest specs
    | some doc =>
      if clashes specs name doc.task then
        let (specs, problems) := admitTaskSpecs regs rest specs
        (specs, ⟨regs.originOf name, "$.task", "duplicate", true⟩ :: problems)
      else admitTaskSpecs regs rest (specs.set name doc.task)

def checkValidatorAgents : List Problem :=
  (sortedNames regs.validatorSpecs).flatMap fun name =>
    match regs.validatorSpecs.get? name with
    | some (some agent) =>
      if agent = "" || agent ∈ regs.agentSpecs then []
      else [⟨regs.validatorOrigin name, "$.agent", "resolves", true⟩]
    | _ => []

def checkClosures (skip : List String) : Dict String TaskSpec × List Problem :=
  let admitted := (sortedNames regs.closures).filter (· ∉ skip)
  let (specs, problems) := admitTaskSpecs regs admitted .empty
  (specs, problems ++ checkValidatorAgents regs ++ admitted.flatMap fun name =>
    match regs.closures.get? name with
    | none => []
    | some doc => checkClosure doc regs specs (regs.originOf name))

def Accepted : Prop :=
  (∀ problem ∈ (checkClosures regs []).2, problem.fatal = false) ∧
    ∀ problem ∈ checkGraph (checkClosures regs []).1 [], problem.fatal = false

instance (regs : Registries) : Decidable (Accepted regs) :=
  inferInstanceAs (Decidable (_ ∧ _))

theorem mem_sortedNames {α : Type*} (specs : Dict String α) (name : String) :
    name ∈ sortedNames specs ↔ ∃ value, specs.get? name = some value := by
  rw [sortedNames, mem_insertionSort, specs.mem_keys_iff]

theorem admitTaskSpecs_keeps (names : List String) :
    ∀ specs name task, specs.get? name = some task →
      (admitTaskSpecs regs names specs).1.get? name = some task := by
  induction names with
  | nil => exact fun _ _ _ held => held
  | cons first rest ih =>
    intro specs name task held
    rw [admitTaskSpecs]
    split
    · exact ih specs name task held
    · rename_i doc found
      split_ifs with clash
      · exact ih specs name task held
      · refine ih _ name task ?_
        rw [Dict.get?_set]
        split_ifs with same
        · subst same
          rw [clashes, held, decide_eq_true_iff, not_not] at clash
          rw [clash]
        · exact held

theorem admitTaskSpecs_complete (names : List String) :
    ∀ specs, (∀ problem ∈ (admitTaskSpecs regs names specs).2, problem.fatal = false) →
      ∀ name ∈ names, ∀ doc, regs.closures.get? name = some doc →
        (admitTaskSpecs regs names specs).1.get? name = some doc.task := by
  induction names with
  | nil => exact fun _ _ name inside => absurd inside not_mem_nil
  | cons first rest ih =>
    intro specs clean name inside doc found
    rw [admitTaskSpecs] at clean ⊢
    cases known : regs.closures.get? first with
    | none =>
      rw [known] at clean
      rcases mem_cons.mp inside with rfl | inside
      · cases found.symm.trans known
      · exact ih specs clean name inside doc found
    | some own =>
      rw [known] at clean
      dsimp only at clean ⊢
      split_ifs at clean with clash
      · exact absurd (clean _ mem_cons_self) (by simp)
      · rw [if_neg clash]
        rcases mem_cons.mp inside with rfl | inside
        · cases found.symm.trans known
          exact admitTaskSpecs_keeps regs rest _ name doc.task (by rw [Dict.get?_set, if_pos rfl])
        · exact ih _ clean name inside doc found

namespace Accepted
variable {regs : Registries} (accepted : Accepted regs) {doc : ClosureDoc} {name : String}
include accepted

section
variable (found : regs.closures.get? name = some doc)
include found

theorem taskSpecs : (checkClosures regs []).1.get? name = some doc.task := by
  refine admitTaskSpecs_complete regs _ .empty (fun problem given => ?_) name ?_ doc found
  · exact accepted.1 problem (mem_append_left _ (mem_append_left _ given))
  · exact mem_filter.mpr ⟨(mem_sortedNames _ _).mpr ⟨doc, found⟩, by simp⟩

theorem closure : ∀ problem ∈ checkClosure doc regs (checkClosures regs []).1 (regs.originOf name),
      problem.fatal = false := by
  intro problem given
  refine accepted.1 problem (mem_append_right _ (mem_flatMap.mpr ⟨name, ?_, ?_⟩))
  · exact mem_filter.mpr ⟨(mem_sortedNames _ _).mpr ⟨doc, found⟩, by simp⟩
  · rw [found]
    exact given

theorem target {entry : DeclaredEntry} (listed : entry ∈ doc.task.subgraph) :
    ∃ member, regs.closures.get? entry.closure = some member := by
  obtain ⟨i, bound, rfl⟩ := getElem_of_mem listed
  by_contra missing
  have absent : ¬regs.closures.contains doc.task.subgraph[i].closure = true := by
    rw [Dict.contains, Option.isSome_iff_exists]
    exact missing
  have clean := accepted.closure found
  have given : (doc.task.subgraph[i], i) ∈ doc.task.subgraph.zipIdx := by
    rw [mk_mem_zipIdx_iff_getElem?, List.getElem?_eq_getElem bound]
  by_cases unnamed : doc.task.subgraph[i].closure = ""
  · have := clean ⟨regs.originOf name, s!"$.task.subgraph[{i}]", "required", true⟩
      (mem_append_right _ (mem_flatMap.mpr ⟨_, given, by simp [unnamed]⟩))
    cases this
  · have := clean ⟨regs.originOf name, s!"$.task.subgraph[{i}]", "resolves", true⟩
      (mem_append_right _ (mem_flatMap.mpr
        ⟨_, given, by simp only [if_neg unnamed, if_neg absent, mem_singleton]⟩))
    cases this

theorem agent (leaf : doc.task.subgraph = []) : agentOf doc ≠ "" := by
  intro unnamed
  have missing : ⟨regs.originOf name, "$.agent", "required", true⟩ ∈
      checkAgent doc regs (regs.originOf name) := by
    rw [checkAgent, unnamed, leaf]
    exact mem_singleton_self _
  have := accepted.closure found _ (mem_append_left _ (mem_append_left _
    (mem_append_left _ (mem_append_left _ (mem_append_right _ missing)))))
  cases this

end

end Accepted
end Infera.TaskGraph
