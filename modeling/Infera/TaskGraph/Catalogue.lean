import Infera.TaskGraph.Models

/-! The declared catalogue and the checks of its graph. A task spec names kinds
of handoffs, and a non-leaf lists the closures it expands into. Edges between
entries are derived from the kinds, by the nearest earlier producer, and checked
against the `froms` that each entry declares. Documents are taken as the schema
admits them; the wording of the problems is left out. -/

namespace Infera.TaskGraph

inductive Access
  | read
  | write
  deriving DecidableEq

structure Grant where
  path : String
  access : Access
  kind : Option String
  deriving DecidableEq

structure TaskBody where
  readme : String
  entry : Option String
  deriving DecidableEq

structure DeclaredEntry where
  closure : String
  froms : List String
  isStart : Option Bool
  isEnd : Option Bool
  deriving DecidableEq

/-- The dictionaries of a spec are in key order. -/
structure TaskSpec where
  goal : String
  body : TaskBody
  version : String
  materials : List String
  repos : List String
  monitor : Option String
  inputs : List String
  outputs : List String
  resources : List (String × ℚ)
  grants : List Grant
  subgraph : List DeclaredEntry
  deriving DecidableEq

structure ClosureDoc where
  task : TaskSpec
  agent : Option String
  handoffs : List String
  validators : List String

structure Problem where
  origin : String
  path : String
  keyword : String
  fatal : Bool

structure SubgraphEntry where
  closure : String
  isStart : Bool
  isEnd : Bool
  froms : List String
  deriving DecidableEq

/-- Absent marks: the first is the start, the last is the end. -/
def subgraphEntries (spec : TaskSpec) : List SubgraphEntry :=
  spec.subgraph.zipIdx.map fun (entry, i) =>
    ⟨entry.closure, entry.isStart.getD (i = 0), entry.isEnd.getD (i = spec.subgraph.length - 1),
      entry.froms⟩

structure DerivedEdge where
  producerIndex : ℕ
  kind : String

variable (producerOf : Dict String ℕ)

def addEdge (edges : List DerivedEdge) (kind : String) : List DerivedEdge :=
  match producerOf.get? kind with
  | none => edges
  | some producer =>
    if edges.any (·.producerIndex = producer) then edges else edges ++ [⟨producer, kind⟩]

def edgesOf (inputs : List String) : List DerivedEdge :=
  inputs.foldl (addEdge producerOf) []

def produce (index : ℕ) (outputs : List String) : Dict String ℕ :=
  outputs.foldl (fun producerOf kind => producerOf.set kind index) producerOf

/-- The walk from one entry on; a member that is not in the catalogue has no kinds. -/
def derivedEdgesFrom (specs : Dict String TaskSpec) :
    Dict String ℕ → ℕ → List SubgraphEntry → List (List DerivedEdge)
  | _, _, [] => []
  | producerOf, index, entry :: rest =>
    let kinds := fun (key : TaskSpec → List String) => ((specs.get? entry.closure).map key).getD []
    edgesOf producerOf (kinds TaskSpec.inputs) ::
      derivedEdgesFrom specs (produce producerOf index (kinds TaskSpec.outputs)) (index + 1) rest

variable (entries : List SubgraphEntry) (name : String) (specs : Dict String TaskSpec)

def derivedEdges : List (List DerivedEdge) :=
  derivedEdgesFrom specs .empty 0 entries

def checkLeafOnlyAcquisition (spec : TaskSpec) : List Problem :=
  if spec.subgraph.isEmpty || spec.resources.isEmpty then []
  else [⟨name, "$.resources", "leaf_only_acquisition", true⟩]

/-- The walk over closures strictly inside a subgraph; the last of `pending` is taken next. -/
def descend (specs : Dict String TaskSpec) : ℕ → List String → List String → List String
  | 0, _, inside => inside
  | fuel + 1, pending, inside =>
    match pending.getLast? with
    | none => inside
    | some closure =>
      if closure ∈ inside then descend specs fuel pending.dropLast inside
      else
        let members := ((specs.get? closure).map subgraphEntries).getD []
        descend specs fuel (pending.dropLast ++ members.map (·.closure)) (closure :: inside)

/-- No closure is expanded twice, so the entries of all specs bound the walk. -/
def descendants : List String :=
  descend specs (entries.length + (specs.values.map (·.subgraph.length)).sum)
    (entries.map (·.closure)) []

/-- The kinds of direct members, each with its first producer, and those that an end exports. -/
def producedInside : Dict String String × List String :=
  entries.foldl (fun (produced, exported) entry =>
    match specs.get? entry.closure with
    | none => (produced, exported)
    | some member =>
      (member.outputs.foldl (fun produced kind =>
          if produced.contains kind then produced else produced.set kind entry.closure) produced,
        if entry.isEnd then exported ++ member.outputs else exported)) (.empty, [])

def sortedNames {α : Type*} (specs : Dict String α) : List String :=
  specs.keys.insertionSort (· ≤ ·)

def checkSubgraphContainment (spec : TaskSpec) (specs : Dict String TaskSpec)
    (skip : List String) : List Problem :=
  let entries := subgraphEntries spec
  if entries.isEmpty then []
  else
    let inside := descendants entries specs
    let (produced, exported) := producedInside entries specs
    (sortedNames specs).flatMap fun other =>
      if other ∈ skip || other = name || other ∈ inside then []
      else (((specs.get? other).map TaskSpec.inputs).getD []).flatMap fun kind =>
        if (produced.get? kind).isNone || kind ∈ exported then []
        else [⟨other, "$.inputs", "subgraph_containment", true⟩]

def indexOf : Dict String ℕ :=
  Dict.empty.assign (entries.zipIdx.map fun (entry, i) => (entry.closure, i))

def checkFromsResolve (entry : SubgraphEntry) (i : ℕ) (index : Dict String ℕ) : List Problem :=
  entry.froms.flatMap fun declared =>
    match index.get? declared with
    | none => [⟨name, s!"$.subgraph[{i}].froms", "froms_resolves", true⟩]
    | some target =>
      if target ≥ i then [⟨name, s!"$.subgraph[{i}].froms", "froms_order", true⟩] else []

def producers (edges : List DerivedEdge) : List String :=
  edges.filterMap fun edge => entries[edge.producerIndex]?.map (·.closure)

section
variable (entries : List SubgraphEntry) (entry : SubgraphEntry) (i : ℕ) (edges : List DerivedEdge)

def checkFromsCoversDerived : List Problem :=
  (producers entries edges).flatMap fun producer =>
    if producer ∈ entry.froms then []
    else [⟨name, s!"$.subgraph[{i}].froms", "froms_mismatch", true⟩]

def checkFromsBeyondDerived : List Problem :=
  let derived := producers entries edges
  let unmatched := entry.froms.filter fun f =>
    f ∉ derived && ((indexOf entries).get? f).getD i < i
  if unmatched.isEmpty then []
  else [⟨name, s!"$.subgraph[{i}].froms", "froms_underived", false⟩]

end

def checkMarksAgree (entries : List SubgraphEntry) : List Problem :=
  let hasSuccessor := entries.flatMap (·.froms)
  entries.zipIdx.flatMap fun (entry, i) =>
    (if entry.isStart && !entry.froms.isEmpty then
      [⟨name, s!"$.subgraph[{i}].is_start", "mark_disagrees", true⟩] else []) ++
    if entry.isEnd && entry.closure ∈ hasSuccessor then
      [⟨name, s!"$.subgraph[{i}].is_end", "mark_disagrees", true⟩] else []

def checkSubgraphFroms (spec : TaskSpec) (specs : Dict String TaskSpec) : List Problem :=
  let entries := subgraphEntries spec
  if (entries.map (·.closure)).Nodup then
    let edges := derivedEdges entries specs
    ((entries.zip edges).zipIdx.flatMap fun ((entry, edges), i) =>
      checkFromsResolve name entry i (indexOf entries) ++
      checkFromsCoversDerived name entries entry i edges ++
      checkFromsBeyondDerived name entries entry i edges) ++
    checkMarksAgree name entries
  else [⟨name, "$.subgraph", "froms_ambiguous", true⟩]

def checkGraph (skip : List String) : List Problem :=
  ((sortedNames specs).filter (· ∉ skip)).flatMap fun name =>
    match specs.get? name with
    | none => []
    | some spec =>
      checkLeafOnlyAcquisition name spec ++ checkSubgraphContainment name spec specs skip ++
        checkSubgraphFroms name spec specs

theorem length_subgraphEntries (spec : TaskSpec) :
    (subgraphEntries spec).length = spec.subgraph.length := by
  rw [subgraphEntries, List.length_map, List.length_zipIdx]

end Infera.TaskGraph
