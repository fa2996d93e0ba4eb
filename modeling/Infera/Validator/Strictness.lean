import Infera.Validator.Phase
import Infera.Runs

/-! The strictness level and the verdicts. A level below the strict one reuses
the records of a validator whose every target has one. The records of two
targets may come from two different executions, so reuse agrees with running
again when the body judges each target by that target's version alone, and may
disagree when it judges them together. -/

namespace Infera.Validator
open List Option VerdictRecord

def OneVersion (targets : List Target) : Prop :=
  ∀ t ∈ targets, ∀ u ∈ targets, t.handoffId = u.handoffId → t = u

theorem OneVersion.subset {targets others : List Target} (one : OneVersion targets)
    (subset : others ⊆ targets) : OneVersion others :=
  fun t inside u inside' same => one t (subset inside) u (subset inside') same

/-- Every body judges a target by that version alone: it writes a verdict for each of its targets
if it can judge each of them, and otherwise raises or writes a file that lacks one. -/
structure Itemwise (bodies : String → List Target → BodyResult)
    (judge : String → Target → Option Bool) : Prop where
  decides : ∀ name targets, targets ≠ [] → OneVersion targets →
    (∀ t ∈ targets, (judge name t).isSome) →
      ∃ file, bodies name targets = .writes file ∧ ∀ t ∈ targets, file t.handoffId = judge name t
  fails : ∀ name targets, OneVersion targets → (∃ t ∈ targets, judge name t = none) →
    bodies name targets = .raises ∨
      ∃ file, bodies name targets = .writes file ∧ ∃ t ∈ targets, file t.handoffId = none

namespace Catalogue
variable (cat : Catalogue) {judge : String → Target → Option Bool} {history : History}
  {handoffs : List Target} {shelves : Shelves} {name : String} {t : Target} {task : Task}
  {spec : ValidatorSpec} {results : Verdicts}

/-- Each verdict on record is what a call of its validator said of the version. -/
def Produced (history : History) : Prop :=
  ∀ t, ∀ verdict ∈ history t, ∀ spec, cat.validatorSpecs.specs.get? verdict.validator = some spec →
    verdict.strength = spec.strength ∧ ∃ targets results, OneVersion targets ∧ t ∈ targets ∧
        cat.call spec targets = .ok results ∧ results t.handoffId = some verdict.result

/-- What the validator says of one target, when each body judges each target alone. -/
def judged (judge : String → Target → Option Bool) (spec : ValidatorSpec) (t : Target) :
    Option Bool :=
  if spec.isComposite then
    match cat.membersOf spec.members with
    | .error _ => none
    | .ok members =>
      if spec.reduce = some "all" ∧ (∃ m ∈ members, cat.covers m t) ∧
          ∀ m ∈ members, cat.covers m t → (judge m.name t).isSome then
        some (members.all fun m => !cat.covers m t || judge m.name t = some true)
      else none
  else judge spec.name t

variable {cat} {records : List VerdictRecord}

section
variable (cat : Catalogue) (judge : String → Target → Option Bool) (handoffs : List Target)
  (member : ValidatorSpec)

/-- The row of a member: its verdicts on the handoffs it covers, and nothing else. -/
def Row (row : Verdicts) : Prop :=
  ∀ t ∈ handoffs, row t.handoffId = if cat.covers member t then judge member.name t else none

def Judges : Prop :=
  ∀ t ∈ handoffs, cat.covers member t → (judge member.name t).isSome

end

theorem reduceAll_rows {members : List ValidatorSpec} {rows : List Verdicts}
    (said : List.Forall₂ (cat.Row judge handoffs) members rows) (given : t ∈ handoffs)
    (decided : ∀ m ∈ members, cat.covers m t → (judge m.name t).isSome) :
    reduceAll rows t.handoffId =
      members.all fun m => !cat.covers m t || judge m.name t = some true := by
  induction said with
  | nil => rfl
  | @cons member _ _ _ own _ ih =>
    have rest := ih fun m inside => decided m (.tail _ inside)
    rw [reduceAll] at rest ⊢
    rw [filterMap_cons, own t given, all_cons, ← rest]
    by_cases covered : cat.covers member t
    · obtain ⟨said, judgement⟩ := isSome_iff_exists.mp (decided member mem_cons_self covered)
      rw [judgement, covered]
      cases said <;> simp
    · rw [Bool.eq_false_of_not_eq_true covered]
      rfl

theorem record_produced (registered : cat.validatorSpecs.specs.get? name = some spec)
    (one : OneVersion handoffs) (ran : cat.call spec handoffs = .ok results)
    (targets : List Target) : ∀ history, targets ⊆ handoffs → cat.Produced history →
      cat.Produced (record shelves task spec results targets history).1 := by
  induction targets with
  | nil => exact fun _ _ produced => produced
  | cons t rest ih =>
    intro history given produced
    rw [record]
    split
    · exact produced
    · rename_i result said
      split_ifs with published
      · refine ih _ (fun u inside => given (.tail _ inside)) ?_
        intro u verdict inside spec' found
        by_cases same : u = t
        · subst same
          rw [Function.update_self, mem_append, mem_singleton] at inside
          rcases inside with old | rfl
          · exact produced u verdict old spec' found
          · have : spec' = spec := by
              rw [cat.validatorSpecs.named name spec registered, registered] at found
              exact (some.inj found).symm
            subst this
            exact ⟨rfl, handoffs, results, one, given mem_cons_self, ran, said⟩
        · rw [Function.update_of_ne same] at inside
          exact produced u verdict inside spec' found
      · exact produced

theorem invoke_produced (shelves : Shelves) (task : Task)
    (registered : cat.validatorSpecs.specs.get? name = some spec) {targets : List Target}
    (one : OneVersion targets) (produced : cat.Produced history) :
    cat.Produced (cat.invoke shelves task spec targets history).1 := by
  unfold invoke
  split
  · exact produced
  · rename_i results ran
    refine record_produced registered (one.subset ?_) ran targets history ?_ produced
    · exact fun t inside => mem_eraseDups.mp inside
    · exact fun t inside => mem_eraseDups.mpr inside

def found (cat : Catalogue) (judge : String → Target → Option Bool) (spec : ValidatorSpec)
    (targets : List Target) : List Finding :=
  targets.map fun t => ⟨spec.name, t, (cat.judged judge spec t).getD false, spec.strength⟩

theorem record_found (targets : List Target)
    (said : ∀ t ∈ targets, (cat.judged judge spec t).isSome ∧
      results t.handoffId = cat.judged judge spec t)
    (published : ∀ t ∈ targets, t.version ∈ shelves.store.listVersions t.handoffId) :
    ∀ history, ∃ records, (record shelves task spec results targets history).2 = .ok records ∧
      records.map finding = cat.found judge spec targets := by
  induction targets with
  | nil => exact fun _ => ⟨[], rfl, rfl⟩
  | cons t rest ih =>
    intro history
    obtain ⟨decided, result⟩ := said t mem_cons_self
    obtain ⟨value, judgement⟩ := isSome_iff_exists.mp decided
    rw [judgement] at result
    obtain ⟨records, recorded, findings⟩ := ih (fun u inside => said u (.tail _ inside))
      (fun u inside => published u (.tail _ inside))
      (Function.update history t
        (history t ++ [⟨spec.name, value, spec.strength, spec.dimension, task.id⟩]))
    refine ⟨⟨⟨spec.name, value, spec.strength, spec.dimension, task.id⟩, t⟩ :: records, ?_, ?_⟩
    · simp only [record, result, if_pos (published t mem_cons_self), recorded]
      rfl
    · rw [map_cons, findings, found, found, map_cons, judgement]
      rfl

def lastOf (history : History) (validator : String) (t : Target) : Option VerdictRecord :=
  ((history t).reverse.find? (·.validator = validator)).map (⟨·, t⟩)

theorem mapM_top (shelves : Shelves) (history : History) (validator : String)
    (targets : List Target) : targets.mapM (top shelves history validator) =
      match targets.find? fun t => t.version ∉ shelves.store.listVersions t.handoffId with
      | some t => .error (.unpublished t)
      | none => .ok (targets.map (lastOf history validator)) := by
  induction targets with
  | nil => rfl
  | cons t rest ih =>
    rw [mapM_cons, ih, top, readVerdicts, find?_cons]
    by_cases published : t.version ∈ shelves.store.listVersions t.handoffId
    · rw [if_pos published, decide_eq_false (not_not_intro published)]
      cases rest.find? fun t => t.version ∉ shelves.store.listVersions t.handoffId <;> rfl
    · rw [if_neg published, decide_eq_true published]
      rfl

/-- The last records of all targets, if each has one. -/
def reusable (history : History) (validator : String) (targets : List Target) :
    Option (List VerdictRecord) :=
  if (targets.map (lastOf history validator)).any Option.isNone then none
  else some (targets.filterMap (lastOf history validator))

theorem reusable_eq_some {validator : String} {targets : List Target} (all : reusable history validator targets = some records) :
    records = targets.filterMap (lastOf history validator) ∧
      ∀ t ∈ targets, (lastOf history validator t).isSome := by
  unfold reusable at all
  split_ifs at all with gap
  refine ⟨(some.inj all).symm, fun t inside => ?_⟩
  by_contra missing
  exact gap (List.any_eq_true.mpr ⟨_, mem_map_of_mem inside, by simpa using missing⟩)

theorem priors_eq (shelves : Shelves) (history : History) {targets : List Target}
    (nonempty : targets ≠ []) (validator : String) : priors shelves history targets validator =
      match targets.find? fun t => t.version ∉ shelves.store.listVersions t.handoffId with
      | some t => .error (.unpublished t)
      | none => .ok (reusable history validator targets) := by
  rw [priors, if_neg (by rwa [List.isEmpty_iff]), mapM_top]
  split
  · rfl
  · rw [Except.map, filterMap_map]
    rfl

def Progress.findings (progress : Progress) : List Finding :=
  (progress.ran ++ progress.reused).map VerdictRecord.finding

/-- What one validator adds to a phase at any level. -/
def expected (cat : Catalogue) (judge : String → Target → Option Bool) (shelves : Shelves)
    (targets : List Target) (spec : ValidatorSpec) : Except Refusal (List Finding) :=
  match cat.mine shelves spec targets with
  | .error e => .error e
  | .ok mine =>
    if mine = [] then .ok []
    else
      match mine.find? fun t => t.version ∉ shelves.store.listVersions t.handoffId with
      | some t => .error (.unpublished t)
      | none => (cat.call spec mine.eraseDups).map fun _ => cat.found judge spec mine

def expectedAll (cat : Catalogue) (judge : String → Target → Option Bool) (shelves : Shelves)
    (targets : List Target) : List ValidatorSpec → Except Refusal (List Finding)
  | [] => .ok []
  | spec :: rest =>
    match cat.expected judge shelves targets spec with
    | .error e => .error e
    | .ok found => (expectedAll cat judge shelves targets rest).map (found ++ ·)

theorem mine_subset :
    ∀ {targets mine : List Target}, cat.mine shelves spec targets = .ok mine → mine ⊆ targets := by
  intro targets
  induction targets with
  | nil =>
    intro mine given
    cases given
    exact List.Subset.refl _
  | cons t rest ih =>
    intro mine given
    cases kept : cat.mine shelves spec rest with
    | error e =>
      rw [Catalogue.mine, kept] at given
      split_ifs at given <;> cases given
    | ok others =>
      rw [Catalogue.mine, kept] at given
      split_ifs at given <;> cases given
      · exact cons_subset_cons t (ih kept)
      · exact fun u inside => .tail _ (ih kept inside)

theorem exists_of_maySkip {prior : Option (List VerdictRecord)} {level : StrictLevel}
    (skips : maySkip prior level = true) : ∃ records, prior = some records := by
  cases prior with
  | none => cases skips
  | some records => exact ⟨records, rfl⟩

section
variable (itemwise : Itemwise cat.bodies judge)
include itemwise

section
variable (one : OneVersion handoffs)
include one

theorem leaf_outcome (nonempty : handoffs ≠ []) (spec : ValidatorSpec)
    (file : Option Verdicts) : (∃ got left, cat.leaf spec file handoffs = .ok (got, left) ∧
      (∀ t ∈ handoffs, (judge spec.name t).isSome ∧ got t.handoffId = judge spec.name t) ∧
      ∀ hid, (∀ t ∈ handoffs, t.handoffId ≠ hid) → got hid = none) ∨
    (∃ e, cat.leaf spec file handoffs = .error e) ∧ ∃ t ∈ handoffs, judge spec.name t = none := by
  by_cases undecided : ∃ t ∈ handoffs, judge spec.name t = none
  · refine .inr ⟨?_, undecided⟩
    rcases itemwise.fails _ _ one undecided with raises | ⟨raw, writes, t, inside, gap⟩
    · exact ⟨.bodyRaised spec.name, by rw [leaf, raises]⟩
    · cases first : handoffs.find? fun t => (raw t.handoffId).isNone with
      | none => simpa [gap] using find?_eq_none.mp first t inside
      | some u => exact ⟨_, by simp only [leaf, writes, readVerdictFile, first]; rfl⟩
  have decided : ∀ t ∈ handoffs, (judge spec.name t).isSome := by
    push Not at undecided
    exact fun t inside => isSome_iff_ne_none.mpr (undecided t inside)
  obtain ⟨raw, writes, said⟩ := itemwise.decides spec.name handoffs nonempty one decided
  have complete : (handoffs.find? fun t => (raw t.handoffId).isNone) = none := by
    rw [find?_eq_none]
    intro t inside
    rw [said t inside, isNone_iff_eq_none]
    exact isSome_iff_ne_none.mp (decided t inside)
  refine .inl ⟨fun hid => if handoffs.any (·.handoffId = hid) then raw hid else none, some raw,
    ?_, ?_, ?_⟩
  · simp only [leaf, writes, readVerdictFile, complete]
    rfl
  · intro t inside
    have declared : handoffs.any (·.handoffId = t.handoffId) = true :=
      List.any_eq_true.mpr ⟨t, inside, decide_eq_true rfl⟩
    exact ⟨decided t inside, (if_pos declared).trans (said t inside)⟩
  · intro hid absent
    refine if_neg ?_
    rw [List.any_eq_true]
    rintro ⟨t, inside, same⟩
    exact absent t inside (of_decide_eq_true same)

theorem grid_cons (member : ValidatorSpec) (rest : List ValidatorSpec)
    (file : Option Verdicts) :
    (∃ row left, cat.Judges judge handoffs member ∧ cat.Row judge handoffs member row ∧
      cat.grid handoffs (member :: rest) file = (cat.grid handoffs rest left).map (row :: ·)) ∨
    (∃ e, cat.grid handoffs (member :: rest) file = .error e) ∧
      ∃ t ∈ handoffs, cat.covers member t ∧ judge member.name t = none := by
  rw [grid]
  by_cases idle : (handoffs.filter (cat.covers member)).isEmpty
  · have outside : ∀ t ∈ handoffs, ¬cat.covers member t :=
      filter_eq_nil_iff.mp (List.isEmpty_iff.mp idle)
    refine .inl ⟨fun _ => none, file, ?_, ?_, if_pos idle⟩
    · exact fun t inside covered => absurd covered (outside t inside)
    · exact fun t inside => (if_neg (outside t inside)).symm
  rw [if_neg idle]
  have nonempty : handoffs.filter (cat.covers member) ≠ [] := by
    rwa [List.isEmpty_iff] at idle
  rcases leaf_outcome itemwise (one.subset (List.filter_subset_self _)) nonempty member file with
    ⟨got, left, ran, said, silent⟩ | ⟨⟨e, failed⟩, t, inside, none⟩
  · have complete : ((handoffs.filter (cat.covers member)).filter
        fun t => (got t.handoffId).isNone) = [] := by
      rw [filter_eq_nil_iff]
      intro t inside
      rw [(said t inside).2, isNone_iff_eq_none]
      exact isSome_iff_ne_none.mp (said t inside).1
    refine .inl ⟨got, left, ?_, ?_, by simp [ran, complete]⟩
    · exact fun t inside covered => (said t (mem_filter.mpr ⟨inside, covered⟩)).1
    · intro t inside
      split_ifs with covered
      · exact (said t (mem_filter.mpr ⟨inside, covered⟩)).2
      · refine silent t.handoffId ?_
        intro u shared same
        obtain ⟨given, other⟩ := mem_filter.mp shared
        rw [one u given t inside same] at other
        exact covered other
  · obtain ⟨given, covered⟩ := mem_filter.mp inside
    exact .inr ⟨⟨e, by rw [failed]⟩, t, given, covered, none⟩

theorem grid_outcome (members : List ValidatorSpec) :
    ∀ file, (∃ rows, cat.grid handoffs members file = .ok rows ∧
      (∀ m ∈ members, cat.Judges judge handoffs m) ∧
      List.Forall₂ (cat.Row judge handoffs) members rows) ∨
    (∃ e, cat.grid handoffs members file = .error e) ∧
      ∃ m ∈ members, ∃ t ∈ handoffs, cat.covers m t ∧ judge m.name t = none := by
  induction members with
  | nil => exact fun _ => .inl ⟨[], rfl, by simp, .nil⟩
  | cons member rest ih =>
    intro file
    rcases grid_cons itemwise one member rest file with
      ⟨row, left, judges, said, ran⟩ | ⟨failed, undecided⟩
    · rw [ran]
      rcases ih left with ⟨rows, others, all, rest⟩ | ⟨⟨e, failed⟩, m, inside, undecided⟩
      · refine .inl ⟨row :: rows, by rw [others]; rfl, ?_, .cons said rest⟩
        exact forall_mem_cons.mpr ⟨judges, all⟩
      · exact .inr ⟨⟨e, by rw [failed]; rfl⟩, m, .tail _ inside, undecided⟩
    · exact .inr ⟨failed, member, mem_cons_self, undecided⟩

theorem call_outcome (nonempty : handoffs ≠ []) (spec : ValidatorSpec) :
    (∃ results, cat.call spec handoffs = .ok results ∧ ∀ t ∈ handoffs,
      (cat.judged judge spec t).isSome ∧ results t.handoffId = cat.judged judge spec t) ∨
    (∃ e, cat.call spec handoffs = .error e) ∧ ∃ t ∈ handoffs, cat.judged judge spec t = none := by
  obtain ⟨first, given⟩ := exists_mem_of_ne_nil _ nonempty
  unfold judged call
  by_cases composed : spec.isComposite
  · simp only [if_pos composed]
    cases cat.membersOf spec.members with
    | error e => exact .inr ⟨⟨e, rfl⟩, first, given, rfl⟩
    | ok members =>
      by_cases known : spec.reduce = some "all"
      · simp only [known, true_and, composite]
        rcases grid_outcome itemwise one members none with
          ⟨rows, ran, all, said⟩ | ⟨⟨e, failed⟩, m, inside, t, given, covered, none⟩
        · rw [ran]
          cases missing : handoffs.filter fun t => !members.any fun m => cat.covers m t with
          | nil =>
            refine .inl ⟨_, rfl, fun t given => ?_⟩
            have covered : ∃ m ∈ members, cat.covers m t := by
              simpa using filter_eq_nil_iff.mp missing t given
            have judges := fun m inside => all m inside t given
            have declared : handoffs.any (·.handoffId = t.handoffId) = true :=
              List.any_eq_true.mpr ⟨t, given, decide_eq_true rfl⟩
            rw [if_pos ⟨covered, judges⟩, if_pos declared, reduceAll_rows said given judges]
            exact ⟨rfl, rfl⟩
          | cons t more =>
            have inside : t ∈ handoffs.filter fun t => !members.any fun m => cat.covers m t :=
              missing ▸ mem_cons_self
            obtain ⟨given, uncovered⟩ := mem_filter.mp inside
            refine .inr ⟨⟨_, rfl⟩, t, given, if_neg fun met => ?_⟩
            simp [List.any_eq_true.mpr met.1] at uncovered
        · rw [failed]
          refine .inr ⟨⟨e, rfl⟩, t, given, if_neg fun met => ?_⟩
          simpa [none] using met.2 m inside covered
      · simp only [known, if_false, false_and]
        exact .inr ⟨⟨_, rfl⟩, first, given, trivial⟩
  · simp only [if_neg composed]
    rcases leaf_outcome itemwise one nonempty spec none with
      ⟨got, left, ran, said, -⟩ | ⟨⟨e, failed⟩, undecided⟩
    · exact .inl ⟨got, by rw [ran]; rfl, said⟩
    · exact .inr ⟨⟨e, by rw [failed]; rfl⟩, undecided⟩

theorem judged_of_call (ran : cat.call spec handoffs = .ok results) (given : t ∈ handoffs) :
    (cat.judged judge spec t).isSome ∧ results t.handoffId = cat.judged judge spec t := by
  rcases call_outcome itemwise one (ne_nil_of_mem given) spec with
    ⟨said, ran', agrees⟩ | ⟨⟨e, failed⟩, -⟩
  · cases ran.symm.trans ran'
    exact agrees t given
  · cases ran.symm.trans failed

end

section
variable (produced : cat.Produced history)
  (registered : cat.validatorSpecs.specs.get? name = some spec)
include produced registered

theorem lastOf_found {record : VerdictRecord}
    (last : lastOf history spec.name t = some record) : (cat.judged judge spec t).isSome ∧
      record.finding = ⟨spec.name, t, (cat.judged judge spec t).getD false, spec.strength⟩ := by
  obtain ⟨verdict, found, rfl⟩ := map_eq_some_iff.mp last
  have inside := mem_reverse.mp (mem_of_find?_eq_some found)
  have byName : verdict.validator = spec.name := by
    simpa using find?_some found
  have named := cat.validatorSpecs.named name spec registered
  obtain ⟨strength, targets, results, one, given, ran, said⟩ := produced t verdict inside spec
    (by rw [byName, named, registered])
  obtain ⟨decided, judgement⟩ := judged_of_call itemwise one ran given
  refine ⟨decided, ?_⟩
  rw [← judgement, said]
  exact congrArg₂ (Finding.mk · t verdict.result ·) byName strength

theorem filterMap_lastOf (targets : List Target)
    (all : ∀ t ∈ targets, (lastOf history spec.name t).isSome) :
    (targets.filterMap (lastOf history spec.name)).map finding = cat.found judge spec targets := by
  induction targets with
  | nil => rfl
  | cons t rest ih =>
    obtain ⟨record, last⟩ := isSome_iff_exists.mp (all t mem_cons_self)
    rw [filterMap_cons, last, map_cons, ih fun u inside => all u (.tail _ inside),
      (lastOf_found itemwise produced registered last).2]
    rfl

theorem reused_found {targets : List Target} (nonempty : targets ≠ []) (one : OneVersion targets)
    (all : reusable history spec.name targets = some records) :
    (∃ results, cat.call spec targets.eraseDups = .ok results) ∧
      records.map finding = cat.found judge spec targets := by
  obtain ⟨rfl, each⟩ := reusable_eq_some all
  refine ⟨?_, filterMap_lastOf itemwise produced registered targets each⟩
  have decided : ∀ t ∈ targets.eraseDups, (cat.judged judge spec t).isSome := by
    intro t inside
    obtain ⟨record, last⟩ := isSome_iff_exists.mp (each t (mem_eraseDups.mp inside))
    exact (lastOf_found itemwise produced registered last).1
  obtain ⟨t, inside⟩ := exists_mem_of_ne_nil _ nonempty
  rcases call_outcome itemwise (one.subset fun u inside => mem_eraseDups.mp inside)
    (ne_nil_of_mem (mem_eraseDups.mpr inside)) spec with
    ⟨results, ran, -⟩ | ⟨-, u, inside, none⟩
  · exact ⟨results, ran⟩
  · simpa [none] using decided u inside

end

theorem invoke_found (shelves : Shelves) (task : Task)
    {targets : List Target} (one : OneVersion targets)
    (published : ∀ t ∈ targets, t.version ∈ shelves.store.listVersions t.handoffId)
    (ran : cat.call spec targets.eraseDups = .ok results) (history : History) :
    ∃ records, (cat.invoke shelves task spec targets history).2 = .ok records ∧
      records.map finding = cat.found judge spec targets := by
  rw [invoke, ran]
  refine record_found targets (fun t inside => ?_) published history
  exact judged_of_call itemwise (one.subset fun u inside => mem_eraseDups.mp inside) ran
    (mem_eraseDups.mpr inside)

section
variable {targets : List Target} (shelves : Shelves) (level : StrictLevel) (task : Task)
  (one : OneVersion targets)
include one

theorem runSelected_cons
    (registered : cat.validatorSpecs.specs.get? name = some spec) (rest : List ValidatorSpec)
    (produced : cat.Produced history) (progress : Progress) :
    (∃ e, cat.expected judge shelves targets spec = .error e ∧
      (cat.runSelected shelves level task targets (spec :: rest) history progress).2 = .error e) ∨
    ∃ found history' progress', cat.expected judge shelves targets spec = .ok found ∧
      cat.Produced history' ∧ progress'.findings.Perm (progress.findings ++ found) ∧
      cat.runSelected shelves level task targets (spec :: rest) history progress =
        cat.runSelected shelves level task targets rest history' progress' := by
  unfold expected
  rw [runSelected]
  cases given : cat.mine shelves spec targets with
  | error e => exact .inl ⟨e, rfl, rfl⟩
  | ok mine =>
    cases mine with
    | nil => exact .inr ⟨[], history, progress, rfl, produced, by simp, rfl⟩
    | cons t more =>
      have nonempty : t :: more ≠ [] := cons_ne_nil t more
      have own := one.subset (mine_subset given)
      simp only [priors_eq shelves history nonempty, if_neg nonempty]
      cases readable : (t :: more).find? fun t =>
          t.version ∉ shelves.store.listVersions t.handoffId with
      | some t => exact .inl ⟨_, rfl, rfl⟩
      | none =>
        have published : ∀ u ∈ t :: more, u.version ∈ shelves.store.listVersions u.handoffId := by
          simpa using find?_eq_none.mp readable
        dsimp only
        split_ifs with skips
        · obtain ⟨records, all⟩ := exists_of_maySkip skips
          obtain ⟨⟨results, ran⟩, findings⟩ :=
            reused_found itemwise produced registered nonempty own all
          refine .inr ⟨_, _, _, by rw [ran]; rfl, produced, ?_, rfl⟩
          rw [all, getD_some, Progress.findings, Progress.findings, ← append_assoc,
            map_append, findings]
        · cases ran : cat.call spec (t :: more).eraseDups with
          | error e => exact .inl ⟨e, rfl, by rw [invoke, ran]⟩
          | ok results =>
            have kept := invoke_produced shelves task registered own produced
            obtain ⟨records, recorded, findings⟩ :=
              invoke_found itemwise shelves task own published ran history
            generalize cat.invoke shelves task spec (t :: more) history = after at kept recorded ⊢
            obtain ⟨history', left⟩ := after
            cases recorded
            refine .inr ⟨_, _, _, rfl, kept, ?_, rfl⟩
            rw [Progress.findings, Progress.findings, ← findings, ← map_append]
            refine List.Perm.map _ ?_
            rw [append_assoc, append_assoc]
            exact List.Perm.append_left _ perm_append_comm

theorem runSelected_findings (selected : List ValidatorSpec)
    (registered : ∀ spec ∈ selected, ∃ name, cat.validatorSpecs.specs.get? name = some spec) :
    ∀ history progress, cat.Produced history →
      match cat.expectedAll judge shelves targets selected with
      | .error e =>
        (cat.runSelected shelves level task targets selected history progress).2 = .error e
      | .ok found => ∃ progress',
        (cat.runSelected shelves level task targets selected history progress).2 = .ok progress' ∧
          progress'.findings.Perm (progress.findings ++ found) := by
  induction selected with
  | nil => exact fun history progress _ => ⟨progress, rfl, by simp⟩
  | cons spec rest ih =>
    intro history progress produced
    obtain ⟨name, known⟩ := registered spec mem_cons_self
    rw [expectedAll]
    rcases runSelected_cons itemwise shelves level task one known rest produced progress with
      ⟨e, expected, failed⟩ | ⟨found, history', progress', expected, kept, added, goes⟩
    · rw [expected]
      exact failed
    · rw [expected, goes]
      have later := ih (fun spec inside => registered spec (.tail _ inside)) history' progress' kept
      cases others : cat.expectedAll judge shelves targets rest with
      | error e =>
        rw [others] at later
        exact later
      | ok more =>
        rw [others] at later
        obtain ⟨last, ends, perm⟩ := later
        refine ⟨last, ends, perm.trans ?_⟩
        rw [← append_assoc]
        exact added.append_right more

end

end

theorem target_handoffId {kind : PhaseKind} {hid : TaskGraph.HandoffId}
    (made : target shelves kind task hid = .ok t) : t.handoffId = hid := by
  unfold target at made
  dsimp only at made
  split at made
  · cases made
  · cases made
    rfl

theorem targets_oneVersion {kind : PhaseKind}
    {made : List Target} (all : targets shelves kind task = .ok made) : OneVersion made := by
  have each : ∀ (ids : List TaskGraph.HandoffId) (made : List Target),
      ids.mapM (target shelves kind task) = .ok made →
        ∀ t ∈ made, target shelves kind task t.handoffId = .ok t := by
    intro ids
    induction ids with
    | nil =>
      intro made all
      cases all
      exact fun t inside => absurd inside not_mem_nil
    | cons hid rest ih =>
      intro made all t inside
      rw [mapM_cons] at all
      cases first : target shelves kind task hid with
      | error e => rw [first] at all; cases all
      | ok u =>
        cases others : rest.mapM (target shelves kind task) with
        | error e => rw [first, others] at all; cases all
        | ok more =>
          rw [first, others] at all
          cases all
          rcases mem_cons.mp inside with rfl | inside
          · rw [target_handoffId first, first]
          · exact ih more others t inside
  intro t inside u inside' same
  have first := each _ made all t inside
  rw [same, each _ made all u inside'] at first
  exact (Except.ok.inj first).symm

theorem select_registered {selected : List ValidatorSpec}
    (chosen : cat.select task = .ok selected) :
    ∀ spec ∈ selected, ∃ name, cat.validatorSpecs.specs.get? name = some spec := by
  unfold select at chosen
  cases names : cat.bound task with
  | error e => rw [names] at chosen; cases chosen
  | ok names' =>
    rw [names] at chosen
    cases chosen
    intro spec inside
    obtain ⟨name, -, found⟩ := mem_filterMap.mp ((mem_insertionSort _).mp inside)
    exact ⟨name, found⟩

section
variable (shelves : Shelves) (level : StrictLevel)

theorem runSelected_produced (task : Task)
    {targets : List Target} (one : OneVersion targets) (selected : List ValidatorSpec)
    (registered : ∀ spec ∈ selected, ∃ name, cat.validatorSpecs.specs.get? name = some spec) :
    ∀ history progress, cat.Produced history →
      cat.Produced (cat.runSelected shelves level task targets selected history progress).1 := by
  induction selected with
  | nil => exact fun _ _ produced => produced
  | cons spec rest ih =>
    intro history progress produced
    have later := ih fun spec inside => registered spec (.tail _ inside)
    obtain ⟨name, known⟩ := registered spec mem_cons_self
    rw [runSelected]
    cases given : cat.mine shelves spec targets with
    | error e => exact produced
    | ok mine =>
      cases mine with
      | nil => exact later _ _ produced
      | cons t more =>
        dsimp only
        cases priors shelves history (t :: more) spec.name with
        | error e => exact produced
        | ok prior =>
          dsimp only
          split_ifs
          · exact later _ _ produced
          · have kept := invoke_produced shelves task known (one.subset (mine_subset given)) produced
            split
            · rename_i ran
              rwa [ran] at kept
            · rename_i ran
              rw [ran] at kept
              exact later _ _ kept

theorem runPhase_produced (kind : PhaseKind) (task : Task) (produced : cat.Produced history) :
    cat.Produced (cat.runPhase shelves level kind task history).1 := by
  unfold runPhase
  cases chosen : cat.select task with
  | error e => exact produced
  | ok selected =>
    dsimp only
    split_ifs
    · exact produced
    · exact produced
    · exact produced
    · cases made : targets shelves kind task with
      | error e => exact produced
      | ok targets =>
        exact runSelected_produced shelves level task (targets_oneVersion made) selected
          (select_registered chosen) history _ produced

end

/-- A phase of some task, at some level, over what is published by then. -/
structure Phase where
  shelves : Shelves
  level : StrictLevel
  kind : PhaseKind
  task : Task

def step (cat : Catalogue) (history : History) (phase : Phase) : History :=
  (cat.runPhase phase.shelves phase.level phase.kind phase.task history).1

theorem recorded_produced
    (recorded : Reaches (fun history => history = fun _ => []) cat.step (fun _ _ => True) history) :
    cat.Produced history := by
  have base : ∀ history : History, (history = fun _ => []) → cat.Produced history := by
    rintro _ rfl t verdict inside
    exact absurd inside not_mem_nil
  exact recorded.invariant base fun history phase produced _ =>
    runPhase_produced phase.shelves phase.level phase.kind phase.task produced

/-- Two phases fail alike, or answer alike. -/
inductive Agrees : Except Refusal PhaseOutcome → Except Refusal PhaseOutcome → Prop
  | fails (e : Refusal) : Agrees (.error e) (.error e)
  | answers {o o' : PhaseOutcome} (same : o.SameAnswer o') : Agrees (.ok o) (.ok o')

theorem level_keeps_answer (itemwise : Itemwise cat.bodies judge) {history : History}
    (produced : cat.Produced history) (shelves : Shelves) (kind : PhaseKind) (task : Task)
    {level level' : StrictLevel} (runs : level ≠ .none) (runs' : level' ≠ .none) :
    Agrees (cat.runPhase shelves level kind task history).2
      (cat.runPhase shelves level' kind task history).2 := by
  unfold runPhase
  cases chosen : cat.select task with
  | error e => exact .fails e
  | ok selected =>
    simp only [if_neg runs]
    split_ifs
    · exact .answers (.refl _)
    · exact .answers (.refl _)
    · cases made : targets shelves kind task with
      | error e => exact .fails e
      | ok targets =>
        have ends := fun level => runSelected_findings itemwise shelves level task
          (targets_oneVersion made) selected (select_registered chosen) history ⟨[], [], []⟩ produced
        have left := ends level
        have right := ends level'
        dsimp only
        cases found : cat.expectedAll judge shelves targets selected with
        | error e =>
          rw [found] at left right
          rw [left, right]
          exact .fails e
        | ok found =>
          rw [found] at left right
          obtain ⟨progress, ran, perm⟩ := left
          obtain ⟨progress', ran', perm'⟩ := right
          rw [ran, ran']
          exact .answers (PhaseOutcome.sameAnswer_of_perm rfl rfl (perm.trans perm'.symm))

/-- One validator that takes a trace and a report, with this body. -/
def pairCatalogue (body : List Target → BodyResult) : Catalogue where
  validatorSpecs :=
    { specs := Dict.empty.set "consistent"
        ⟨"consistent", ["trace", "report"], .trustworthiness, .strong, .seconds, [], none⟩
      named := by
        intro name spec found
        rcases Dict.get?_set_cases found with ⟨rfl, rfl⟩ | ⟨-, found⟩
        · rfl
        · cases found }
  closures := Dict.empty.set "merge" ["consistent"]
  bodies _ := body
  typeOf hid := if hid = 0 then "trace" else "report"

def twoVersions : Shelves :=
  ⟨⟨fun _ => [some ⟨0, 0⟩, some ⟨0, 1⟩]⟩, (Dict.empty.set 0 1).set 1 1⟩

def merge (trace report : ℕ) : Task :=
  ⟨7, some "merge", [0, 1], [], (Dict.empty.set 0 trace).set 1 report, .empty⟩

/-- Judges the pair: both files come from one run. -/
def sameRun (targets : List Target) : BodyResult :=
  .writes fun _ => some (targets.all fun t => targets.all fun u => t.version = u.version)

/-- Judges each file: it comes from the second run. -/
def secondRun (targets : List Target) : BodyResult :=
  .writes fun hid => (targets.find? (·.handoffId = hid)).map (·.version = 1)

theorem secondRun_itemwise :
    Itemwise (pairCatalogue secondRun).bodies fun _ t => some (t.version = 1) where
  decides := by
    intro name targets _ one _
    refine ⟨_, rfl, fun t inside => ?_⟩
    cases found : targets.find? (·.handoffId = t.handoffId) with
    | none => simpa using find?_eq_none.mp found t inside
    | some u =>
      have same : u.handoffId = t.handoffId := by simpa using find?_some found
      rw [one u (mem_of_find?_eq_some found) t inside same]
      rfl
  fails := by simp

/-- The two levels answer alike on a pair that was checked apart. -/
theorem checked_apart_answers :
    (let cat := pairCatalogue secondRun
     let history := cat.step (cat.step (fun _ => []) ⟨twoVersions, .default, .input, merge 0 0⟩)
       ⟨twoVersions, .default, .input, merge 1 1⟩
     Agrees (cat.runPhase twoVersions .default .input (merge 0 1) history).2
       (cat.runPhase twoVersions .strict .input (merge 0 1) history).2) := by
  refine level_keeps_answer secondRun_itemwise (recorded_produced ?_) twoVersions .input (merge 0 1)
    (by decide) (by decide)
  exact .next _ (.next _ (.start rfl) trivial) trivial

/-- The pairs of the first run and of the second run are checked and pass. A task that is given the
trace of one and the report of the other passes on those records, and is blocked when the body is
run again. -/
theorem mixed_pair_passes_unchecked :
    (let cat := pairCatalogue sameRun
     let history := cat.step (cat.step (fun _ => []) ⟨twoVersions, .default, .input, merge 0 0⟩)
       ⟨twoVersions, .default, .input, merge 1 1⟩
     let answer := fun level =>
       (cat.runPhase twoVersions level .input (merge 0 1) history).2.toOption.map fun o =>
         (o.passed, o.blocksTheTask)
     answer .default = some (true, false) ∧ answer .strict = some (false, true)) := by
  decide +kernel

end Catalogue
end Infera.Validator
