import Infera.TaskGraph.Models

/-! What one validation phase produced. An outcome keeps the verdicts that were
produced now apart from those that were recorded earlier and reused, and it is
judged over both. An empty phase is not a pass; whether it blocks depends on
whether a verdict was expected of it. -/

namespace Infera.Validator
open List
open TaskGraph (TaskId HandoffId)

inductive Dimension
  | completeness
  | usability
  | trustworthiness
  deriving DecidableEq

inductive Strength
  | strong
  | longTermStrong
  | weak
  deriving DecidableEq

/-- A pass of this strength is evidence, now or once the loop closes. -/
def Strength.establishing : Strength → Bool
  | .strong | .longTermStrong => true
  | .weak => false

inductive PhaseKind
  | input
  | output
  deriving DecidableEq

/-- `--validation-strict-level` -/
inductive StrictLevel
  | none
  | default
  | strict
  deriving DecidableEq

inductive Evidence
  | nothingRan
  | unchecked
  | failed
  | lowConfidence
  | established
  deriving DecidableEq

structure Target where
  handoffId : HandoffId
  version : ℕ
  deriving DecidableEq

structure Verdict where
  validator : String
  result : Bool
  strength : Strength
  dimension : Dimension
  taskId : TaskId
  deriving DecidableEq

structure VerdictRecord where
  verdict : Verdict
  target : Target
  deriving DecidableEq

structure SkipRecord where
  validator : String
  reason : String
  reused : Option VerdictRecord

/-- What a record says, whoever had it made. -/
structure Finding where
  validator : String
  target : Target
  result : Bool
  strength : Strength

def VerdictRecord.finding (record : VerdictRecord) : Finding :=
  ⟨record.verdict.validator, record.target, record.verdict.result, record.verdict.strength⟩

structure PhaseOutcome where
  kind : PhaseKind
  ran : List VerdictRecord
  reused : List VerdictRecord
  skipped : List SkipRecord
  empty : Bool
  verdictsExpected : Bool
  empty_iff : empty = (ran ++ reused).isEmpty

namespace PhaseOutcome

variable (kind : PhaseKind) (ran reused : List VerdictRecord) (skipped : List SkipRecord)

def nothingExpected : PhaseOutcome :=
  ⟨kind, [], [], skipped, true, false, rfl⟩

def fold : PhaseOutcome :=
  ⟨kind, ran, reused, skipped, ran.isEmpty && reused.isEmpty, true, by cases ran <;> rfl⟩

variable (o : PhaseOutcome)

def verdicts : List VerdictRecord := o.ran ++ o.reused

def passed : Bool := !o.empty && o.verdicts.all (·.verdict.result)

/-- Nothing checked what this task produced. -/
def unchecked : Bool := o.kind = .output && o.verdictsExpected && o.empty

def blocksTheTask : Bool := o.unchecked || (!o.empty && !o.passed)

def passStrengths : List Strength :=
  (o.verdicts.filter (·.verdict.result)).map (·.verdict.strength)

def evidence : Evidence :=
  if o.unchecked then .unchecked
  else if o.empty then .nothingRan
  else if !o.passed then .failed
  else if o.passStrengths.any Strength.establishing then .established
  else .lowConfidence

def findings : List Finding := o.verdicts.map VerdictRecord.finding

theorem empty_eq : o.empty = o.findings.isEmpty := by
  rw [o.empty_iff, findings, verdicts, isEmpty_map]

theorem passed_eq : o.passed = (!o.findings.isEmpty && o.findings.all (·.result)) := by
  rw [passed, empty_eq, findings, all_map]
  rfl

theorem any_establishing_eq : o.passStrengths.any Strength.establishing =
      o.findings.any fun f => f.result && f.strength.establishing := by
  rw [passStrengths, findings, any_map, any_filter, any_map]
  rfl

/-- Two outcomes that answer the runner alike. -/
structure SameAnswer (o o' : PhaseOutcome) : Prop where
  passed : o.passed = o'.passed
  blocks : o.blocksTheTask = o'.blocksTheTask
  evidence : o.evidence = o'.evidence

theorem SameAnswer.refl : SameAnswer o o := ⟨rfl, rfl, rfl⟩

theorem sameAnswer_of_perm {o o' : PhaseOutcome} (kind : o.kind = o'.kind)
    (expected : o.verdictsExpected = o'.verdictsExpected)
    (perm : o.findings.Perm o'.findings) : SameAnswer o o' := by
  have empty : o.empty = o'.empty := by
    rw [empty_eq, empty_eq, Bool.eq_iff_iff, List.isEmpty_iff, List.isEmpty_iff]
    exact ⟨fun none => (none ▸ perm).nil_eq.symm, fun none => (none ▸ perm).eq_nil⟩
  have passed : o.passed = o'.passed := by
    rw [passed_eq, passed_eq, perm.all_eq, ← empty_eq, ← empty_eq, empty]
  have unchecked : o.unchecked = o'.unchecked := by
    rw [PhaseOutcome.unchecked, PhaseOutcome.unchecked, kind, expected, empty]
  refine ⟨passed, ?_, ?_⟩
  · rw [blocksTheTask, blocksTheTask, unchecked, empty, passed]
  · rw [evidence, evidence, unchecked, empty, passed, any_establishing_eq, any_establishing_eq,
      perm.any_eq]

end PhaseOutcome
end Infera.Validator
