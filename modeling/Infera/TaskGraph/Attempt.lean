import Infera.TaskGraph.Scheduler

/-! The thread of an attempt, one statement that others can observe at a time. A
turn does one deed to what is shared and leaves the thread at its next point, or
at another one when the deed raises. Opening and sealing the slots of a task are
passes over its outputs, each slot changed and then written back. What the
executor, the validators and the recorder do is an answer that the turn is given;
a turn that fails in `finally` ends the thread. -/

namespace Infera.TaskGraph

inductive Pass
  | opening
  | closing (passed : Bool)
  /-- The one of `finally`. -/
  | ending
  deriving DecidableEq

inductive Point
  | begun
  | loop
  | inputValidation
  /-- `_await_wake` after a phase. -/
  | parked
  | main
  /-- The first of `rest` is to be changed, or has been changed and is to be written. -/
  | slots (pass : Pass) (saving : Bool) (treated rest : List HandoffId)
  | again
  | body
  /-- The pinned versions that are still to be published, then the gate. -/
  | publishing (rest : List (HandoffId × ℕ))
  /-- `_await_wake` after a gate failure. -/
  | held
  | outputValidation
  | done
  | crash
  | leave
  | departed
  deriving DecidableEq

def Point.isOver : Point → Bool
  | .departed => true
  | _ => false

structure Attempt where
  tid : TaskId
  point : Point
  halted : Bool
  wake : Bool
  modelOpen : Bool
  storeSealed : List HandoffId
  usage : Dict String ℚ
  /-- The task it was started for, once another one is in the table under that id. -/
  detached : Option Task

def Attempt.fresh (tid : TaskId) : Attempt :=
  ⟨tid, .begun, false, false, false, [], .empty, none⟩

variable (a : Attempt)

def Attempt.live : Bool := !a.point.isOver

def Attempt.completes : Option TaskStatus :=
  match a.point with
  | .done => some .succeeded
  | .crash => some .failed
  | _ => none

/-- The part of an attempt that ended without blocking. -/
inductive Work
  | input
  | body
  | output
  deriving DecidableEq

inductive Deed
  | nothing
  | openSlot (hid : HandoffId)
  | sealSlot (hid : HandoffId) (verdict : Bool)
  | persist (hid : HandoffId)
  | publish (hid : HandoffId) (version : ℕ) (refused : Bool)
  | report (work : Work)
  | complete (status : TaskStatus)
  deriving DecidableEq

structure Turn where
  deed : Deed
  next : Attempt
  /-- Where an exception of the deed leaves the thread. -/
  failed : Attempt

structure Answer where
  raises : Bool
  passes : Bool
  usage : Dict String ℚ

def Point.fallible : Point → Bool
  | .begun | .inputValidation | .main | .body | .publishing _ | .outputValidation => true
  | .slots _ saving _ (_ :: _) => saving
  | _ => false

/-- An exception goes to the handler of `run`, and one of `finally` out of the thread. -/
def Point.raised : Point → Point
  | .slots .ending _ _ _ => .departed
  | _ => .crash

namespace Attempt

def goTo (point : Point) : Attempt := { a with point }

def sealsModel (pass : Pass) (outputs : List HandoffId) (otherwise : Point) : Attempt :=
  if a.modelOpen then { a with modelOpen := false, point := .slots pass false [] outputs }
  else a.goTo otherwise

def passed : Pass → Attempt
  | .opening => { a with modelOpen := true, point := .again }
  | .closing true => a.goTo .done
  | .closing false => a.goTo .leave
  | .ending => a.goTo .departed

def pinned (task : Task) : List (HandoffId × ℕ) :=
  task.outputs.filterMap fun hid =>
    (task.current.bind (·.outputVersions.get? hid)).map fun version => (hid, version)

variable (task : Task) (hasStore gate : Bool) (answer : Answer)

/-- `none` while it waits, and once it is over. -/
def turn : Option Turn :=
  let failed := a.goTo a.point.raised
  let goes := fun (next : Attempt) => some ⟨.nothing, next, failed⟩
  let does := fun (deed : Deed) (next : Attempt) => some ⟨deed, next, failed⟩
  if answer.raises && a.point.fallible then goes failed
  else match a.point with
  | .begun => goes (a.goTo .loop)
  | .loop =>
    if a.halted then goes (a.goTo .leave)
    else match task.status with
    | .inputValidating => goes (a.goTo .inputValidation)
    | .running => goes (a.goTo .main)
    | .outputValidating => goes (a.goTo .outputValidation)
    | _ => goes (a.goTo .leave)
  | .inputValidation =>
    if answer.passes then does (.report .input) (a.goTo .parked) else goes (a.goTo .leave)
  | .parked =>
    if a.wake then goes { a with wake := false, point := if a.halted then .leave else .loop }
    else none
  | .main =>
    if task.hasSubgraph then goes { a with halted := true, wake := true, point := .leave }
    else goes (a.goTo (.slots .opening false [] task.outputs))
  | .slots pass _ _ [] => goes (a.passed pass)
  | .slots pass true treated (hid :: rest) =>
    does (.persist hid) (a.goTo (.slots pass false (treated ++ [hid]) rest))
  | .slots .opening false treated (hid :: rest) =>
    does (.openSlot hid) (a.goTo (.slots .opening true treated (hid :: rest)))
  | .slots (.closing passed) false treated (hid :: rest) =>
    does (.sealSlot hid (passed && hid ∈ a.storeSealed))
      (a.goTo (.slots (.closing passed) true treated (hid :: rest)))
  | .slots .ending false treated (hid :: rest) =>
    does (.sealSlot hid false) (a.goTo (.slots .ending true treated (hid :: rest)))
  | .again => goes (a.goTo (if a.halted then .leave else .body))
  | .body =>
    goes { a with usage := answer.usage, point := .publishing (if hasStore then pinned task else []) }
  | .publishing ((hid, version) :: rest) =>
    does (.publish hid version !answer.passes)
      { a with
        point := .publishing rest
        storeSealed := if answer.passes then hid :: a.storeSealed else a.storeSealed }
  | .publishing [] =>
    if gate && answer.passes then does (.report .body) (a.goTo .parked) else goes (a.goTo .held)
  | .held =>
    if a.wake then goes { a with wake := false, point := if a.halted then .leave else .again }
    else none
  | .outputValidation =>
    if answer.passes then
      does (.report .output) (a.sealsModel (.closing true) task.outputs .done)
    else goes (a.sealsModel (.closing false) task.outputs .leave)
  | .done => does (.complete .succeeded) (a.goTo .leave)
  | .crash => some ⟨.complete .failed, a.goTo .leave, a.goTo .leave⟩
  | .leave => goes (a.sealsModel .ending task.outputs .departed)
  | .departed => none

inductive Turns : Turn → Prop
  | raises (raises : answer.raises = true) (fallible : a.point.fallible = true) :
      Turns ⟨.nothing, a.goTo a.point.raised, a.goTo a.point.raised⟩
  | begun (point : a.point = .begun) : Turns ⟨.nothing, a.goTo .loop, a.goTo .crash⟩
  | quits (point : a.point = .loop) (why : a.halted = true ∨ task.status ∉ TaskStatus.phases) :
      Turns ⟨.nothing, a.goTo .leave, a.goTo .crash⟩
  | takesInput (point : a.point = .loop) (runs : a.halted = false)
      (status : task.status = .inputValidating) :
      Turns ⟨.nothing, a.goTo .inputValidation, a.goTo .crash⟩
  | takesMain (point : a.point = .loop) (runs : a.halted = false)
      (status : task.status = .running) : Turns ⟨.nothing, a.goTo .main, a.goTo .crash⟩
  | takesOutput (point : a.point = .loop) (runs : a.halted = false)
      (status : task.status = .outputValidating) :
      Turns ⟨.nothing, a.goTo .outputValidation, a.goTo .crash⟩
  | inputPasses (point : a.point = .inputValidation) :
      Turns ⟨.report .input, a.goTo .parked, a.goTo .crash⟩
  | inputBlocks (point : a.point = .inputValidation) :
      Turns ⟨.nothing, a.goTo .leave, a.goTo .crash⟩
  | wakes (point : a.point = .parked) (woken : a.wake = true) :
      Turns ⟨.nothing, { a with wake := false, point := if a.halted then .leave else .loop },
          a.goTo .crash⟩
  | releases (point : a.point = .main) (nonLeaf : task.hasSubgraph = true) :
      Turns ⟨.nothing, { a with halted := true, wake := true, point := .leave }, a.goTo .crash⟩
  | deploys (point : a.point = .main) (leaf : task.hasSubgraph = false) :
      Turns ⟨.nothing, a.goTo (.slots .opening false [] task.outputs), a.goTo .crash⟩
  | passes (pass : Pass) (saving : Bool) (treated : List HandoffId)
      (point : a.point = .slots pass saving treated []) :
      Turns ⟨.nothing, a.passed pass, a.goTo (Point.slots pass saving treated []).raised⟩
  | saves (pass : Pass) (treated rest : List HandoffId) (hid : HandoffId)
      (point : a.point = .slots pass true treated (hid :: rest)) :
      Turns ⟨.persist hid, a.goTo (.slots pass false (treated ++ [hid]) rest),
          a.goTo (Point.slots pass true treated (hid :: rest)).raised⟩
  | opens (treated rest : List HandoffId) (hid : HandoffId)
      (point : a.point = .slots .opening false treated (hid :: rest)) :
      Turns ⟨.openSlot hid, a.goTo (.slots .opening true treated (hid :: rest)), a.goTo .crash⟩
  | closes (passed : Bool) (treated rest : List HandoffId) (hid : HandoffId)
      (point : a.point = .slots (.closing passed) false treated (hid :: rest)) :
      Turns ⟨.sealSlot hid (passed && decide (hid ∈ a.storeSealed)),
          a.goTo (.slots (.closing passed) true treated (hid :: rest)), a.goTo .crash⟩
  | ends (treated rest : List HandoffId) (hid : HandoffId)
      (point : a.point = .slots .ending false treated (hid :: rest)) :
      Turns ⟨.sealSlot hid false, a.goTo (.slots .ending true treated (hid :: rest)), a.goTo .departed⟩
  | again (point : a.point = .again) :
      Turns ⟨.nothing, a.goTo (if a.halted then .leave else .body), a.goTo .crash⟩
  | body (point : a.point = .body) :
      Turns ⟨.nothing,
          { a with
            usage := answer.usage
            point := .publishing (if hasStore then pinned task else []) },
          a.goTo .crash⟩
  | publishes (hid : HandoffId) (version : ℕ) (rest : List (HandoffId × ℕ))
      (point : a.point = .publishing ((hid, version) :: rest)) :
      Turns ⟨.publish hid version !answer.passes,
          { a with
            point := .publishing rest
            storeSealed := if answer.passes then hid :: a.storeSealed else a.storeSealed },
          a.goTo .crash⟩
  | gatePasses (point : a.point = .publishing []) (gates : gate = true) :
      Turns ⟨.report .body, a.goTo .parked, a.goTo .crash⟩
  | gateFails (point : a.point = .publishing []) : Turns ⟨.nothing, a.goTo .held, a.goTo .crash⟩
  | retries (point : a.point = .held) (woken : a.wake = true) :
      Turns ⟨.nothing, { a with wake := false, point := if a.halted then .leave else .again },
          a.goTo .crash⟩
  | outputPasses (point : a.point = .outputValidation) :
      Turns ⟨.report .output, a.sealsModel (.closing true) task.outputs .done, a.goTo .crash⟩
  | outputBlocks (point : a.point = .outputValidation) :
      Turns ⟨.nothing, a.sealsModel (.closing false) task.outputs .leave, a.goTo .crash⟩
  | done (point : a.point = .done) : Turns ⟨.complete .succeeded, a.goTo .leave, a.goTo .crash⟩
  | crash (point : a.point = .crash) : Turns ⟨.complete .failed, a.goTo .leave, a.goTo .leave⟩
  | leave (point : a.point = .leave) :
      Turns ⟨.nothing, a.sealsModel .ending task.outputs .departed, a.goTo .crash⟩

theorem turns_of_turn {a : Attempt} {task : Task} {hasStore gate : Bool} {answer : Answer}
    {turn : Turn} (takes : a.turn task hasStore gate answer = some turn) :
    Turns a task hasStore gate answer turn := by
  unfold Attempt.turn at takes
  by_cases raising : (answer.raises && a.point.fallible) = true
  · cases (if_pos raising).symm.trans takes
    rw [Bool.and_eq_true] at raising
    exact .raises raising.1 raising.2
  rw [if_neg raising] at takes
  generalize point : a.point = p at takes
  cases p with
  | begun =>
    cases takes
    exact .begun point
  | loop =>
    dsimp only at takes
    split_ifs at takes with halted
    · cases takes
      exact .quits point (.inl halted)
    · have runs : a.halted = false := by simpa using halted
      generalize status : task.status = phase at takes
      cases phase with
      | inputValidating =>
        cases takes
        exact .takesInput point runs status
      | running =>
        cases takes
        exact .takesMain point runs status
      | outputValidating =>
        cases takes
        exact .takesOutput point runs status
      | _ =>
        cases takes
        exact .quits point (.inr (by rw [status]; decide))
  | inputValidation =>
    dsimp only at takes
    split_ifs at takes <;> cases takes
    · exact .inputPasses point
    · exact .inputBlocks point
  | parked =>
    by_cases woken : a.wake = true
    · cases (if_pos woken).symm.trans takes
      exact .wakes point woken
    · cases (if_neg woken).symm.trans takes
  | main =>
    dsimp only at takes
    split_ifs at takes with nonLeaf <;> cases takes
    · exact .releases point nonLeaf
    · exact .deploys point (by simpa using nonLeaf)
  | slots pass saving treated rest =>
    cases rest with
    | nil =>
      cases takes
      exact .passes pass saving treated point
    | cons hid rest =>
      cases saving with
      | true =>
        cases takes
        exact .saves pass treated rest hid point
      | false =>
        cases pass <;> cases takes
        · exact .opens treated rest hid point
        · exact .closes _ treated rest hid point
        · exact .ends treated rest hid point
  | again =>
    cases takes
    exact .again point
  | body =>
    cases takes
    exact .body point
  | publishing rest =>
    cases rest with
    | nil =>
      dsimp only at takes
      split_ifs at takes with gates <;> cases takes
      · exact .gatePasses point ((Bool.and_eq_true ..).mp gates).1
      · exact .gateFails point
    | cons first rest =>
      cases takes
      exact .publishes first.1 first.2 rest point
  | held =>
    by_cases woken : a.wake = true
    · cases (if_pos woken).symm.trans takes
      exact .retries point woken
    · cases (if_neg woken).symm.trans takes
  | outputValidation =>
    dsimp only at takes
    split_ifs at takes <;> cases takes
    · exact .outputPasses point
    · exact .outputBlocks point
  | done =>
    cases takes
    exact .done point
  | crash =>
    cases takes
    exact .crash point
  | leave =>
    cases takes
    exact .leave point
  | departed =>
    cases takes

end Attempt
end Infera.TaskGraph
