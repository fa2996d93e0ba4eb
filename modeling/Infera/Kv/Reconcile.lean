import Infera.Kv.EventStream
import Infera.Kv.Residency

/-! Event batches and pulled snapshots on their way to one index. Probes emit
each event to the batch stream and to the snapshot mirror; the writer applies
batches in order, and the reconciler replaces a tree by a snapshot when its
response arrives, which may be after later batches. The lists `emitted` and
`applied` record the history and are read by no function of the system. -/

namespace Infera.Kv

abbrev Target := String × StreamKey

structure Reconciler where
  targets : Dict Target Unit
  lastSeenBatch : Dict Target Int

namespace Reconciler

variable (r : Reconciler) (target : Target)

def lastSeen : Int := (r.lastSeenBatch.get? target).getD (-1)

def register : Reconciler :=
  { r with targets := r.targets.set target () }

def unregister : Reconciler :=
  ⟨r.targets.erase target, r.lastSeenBatch.erase target⟩

def noteBatchSeenByStream (key : StreamKey) (batchId : Nat) : Reconciler :=
  r.targets.keys.foldl (fun r target =>
    if target.2 = key ∧ r.lastSeen target < batchId then
      { r with lastSeenBatch := r.lastSeenBatch.set target batchId }
    else r) r

end Reconciler

structure Probe where
  key : StreamKey
  tier : Tier
  emitted : Finset Nat

/-- The response to a pull, on its way; `taken` events had been emitted when it was made. -/
structure Pull where
  endpoint : String
  snapshot : Snapshot
  taken : Nat

structure Feed where
  probes : Nat → Probe
  publisher : Publisher
  producer : SnapshotProducer
  wire : List EventBatch
  index : KVIndex
  reconciler : Reconciler
  pulls : List Pull
  /-- Every event emitted so far, and those of each stream the writer has applied. -/
  emitted : List (StreamKey × KvEvent)
  applied : StreamKey → List KvEvent

namespace Feed

/-- The probe does not name a batch to the mirror. -/
def emit (s : Feed) (key : StreamKey) (event : KvEvent) : Feed :=
  { s with
    publisher := s.publisher.emit key event
    producer := s.producer.onEvent key event none
    emitted := s.emitted ++ [(key, event)] }

variable (s : Feed) (key : StreamKey) (i : Nat) (pull : Pull) (history : List (StreamKey × KvEvent))
  (now : Int) (chain : List BlockKey) (index : KVIndex)

def setEmitted (emitted : Finset Nat) : Feed :=
  { s with probes := Function.update s.probes i { s.probes i with emitted } }

def emitStored (block : BlockKey) : Feed :=
  let probe := s.probes i
  if block.sequenceHash ∈ probe.emitted then s
  else (s.emit probe.key (.stored block probe.tier)).setEmitted i
    (insert block.sequenceHash probe.emitted)

/-- `chain` is the hash chain of the node's tokens. -/
def onNodeInserted : Feed :=
  chain.foldl (fun s block => s.emitStored i block) s

def onNodeEvicted : Feed :=
  let probe := s.probes i
  match chain.getLast? with
  | none => s
  | some last =>
    if last.sequenceHash ∉ probe.emitted then s
    else (s.emit probe.key (.removed last.sequenceHash probe.tier)).setEmitted i
      (probe.emitted.erase last.sequenceHash)

def onClear (scope : Option Scope) : Feed :=
  let probe := s.probes i
  let scope := scope.getD (.compatKey probe.key.compatKey)
  let cleared := s.emit probe.key (.cleared scope)
  if scope = .all ∨ scope = .compatKey probe.key.compatKey then cleared.setEmitted i ∅ else cleared

def flush : Feed :=
  { s with publisher := s.publisher.flushAll.1, wire := s.wire ++ s.publisher.flushAll.2 }

def applyEvent (key : StreamKey) (now : Int) : KvEvent → KVIndex
  | .stored block tier => index.applyStored key block tier now
  | .removed sequenceHash tier => index.applyRemoved key sequenceHash tier
  | .cleared scope => index.applyCleared scope

/-- The next event of the batch at hand; after its last one the reconciler is told. -/
def applyNext : Feed :=
  match s.wire with
  | [] => s
  | batch :: rest =>
    match batch.events with
    | [] => { s with
        wire := rest
        reconciler := s.reconciler.noteBatchSeenByStream batch.key batch.batchId }
    | event :: events => { s with
        wire := { batch with events } :: rest
        index := applyEvent s.index batch.key now event
        applied := Function.update s.applied batch.key (s.applied batch.key ++ [event]) }

def capture (endpoint : String) (key : StreamKey) : Feed :=
  { s with pulls := s.pulls ++ [⟨endpoint, s.producer.snapshot key, s.emitted.length⟩] }

def isStale : Bool :=
  pull.snapshot.batchId ≠ -1 &&
    pull.snapshot.batchId < s.reconciler.lastSeen (pull.endpoint, pull.snapshot.key)

def storeBlock (blk : SnapshotBlock) : KVIndex :=
  blk.tiers.foldl (fun index tier => index.applyStored key blk.key tier now) index

def rebuild (snapshot : Snapshot) (now : Int) : KVIndex :=
  snapshot.blocks.foldl (storeBlock snapshot.key now) (index.dropTree snapshot.key)

def reconcileOne : Feed :=
  if s.isStale pull then s
  else
    { s with
      index := rebuild s.index pull.snapshot now
      reconciler :=
        if pull.snapshot.batchId ≠ -1 then
          { s.reconciler with lastSeenBatch :=
              s.reconciler.lastSeenBatch.set (pull.endpoint, pull.snapshot.key) pull.snapshot.batchId }
        else s.reconciler }

inductive Event where
  | inserted (i : Nat) (chain : List BlockKey)
  | evicted (i : Nat) (chain : List BlockKey)
  | cleared (i : Nat) (scope : Option Scope)
  | flush
  | applyNext (now : Int)
  | capture (endpoint : String) (key : StreamKey)
  | arrive (n : Nat) (now : Int)
  | lost (n : Nat)
  | register (target : Target)
  | unregister (target : Target)

def step : Event → Feed
  | .inserted i chain => s.onNodeInserted i chain
  | .evicted i chain => s.onNodeEvicted i chain
  | .cleared i scope => s.onClear i scope
  | .flush => s.flush
  | .applyNext now => s.applyNext now
  | .capture endpoint key => s.capture endpoint key
  | .arrive n now =>
    match s.pulls[n]? with
    | none => s
    | some pull => { s.reconcileOne pull now with pulls := s.pulls.eraseIdx n }
  | .lost n => { s with pulls := s.pulls.eraseIdx n }
  | .register target => { s with reconciler := s.reconciler.register target }
  | .unregister target => { s with reconciler := s.reconciler.unregister target }

/-- Nothing has been emitted; probes and targets may be set up already. -/
structure Start (s : Feed) : Prop where
  streams : s.publisher.streams = .empty
  state : s.producer.state = .empty
  batchIds : s.producer.batchIds = .empty
  wire : s.wire = []
  trees : s.index.trees = .empty
  pulls : s.pulls = []
  emitted : s.emitted = []
  applied : s.applied = fun _ => []

def streamOf : List KvEvent :=
  (history.filter fun item => item.1 = key).map Prod.snd

/-- One event on the plain map of a tree. -/
def observe (resident : Nat → Finset Tier) (item : StreamKey × KvEvent) : Nat → Finset Tier :=
  match item.2 with
  | .stored block tier =>
    if item.1 = key then (TreeEvent.stored block tier 0).record resident else resident
  | .removed sequenceHash tier =>
    if item.1 = key then (TreeEvent.removed sequenceHash tier).record resident else resident
  | .cleared (.tier tier) => fun s => (resident s).erase tier
  | .cleared scope => if scope.covers key then fun _ => ∅ else resident

def residencyAfter : Nat → Finset Tier :=
  history.foldl (observe key) fun _ => ∅

/-- The tree shows the publisher's state at some point of its history that is not before any event
the writer has applied. -/
def Reflects : Prop :=
  ∃ n, s.applied key <+: streamOf key (s.emitted.take n) ∧
    (s.index.treeOf key).Mirrors (residencyAfter key (s.emitted.take n))

/-- The writer has applied no event of the tree that was emitted after the snapshot was taken. -/
def UpToDate : Prop :=
  (s.applied pull.snapshot.key).length ≤
    (streamOf pull.snapshot.key (s.emitted.take pull.taken)).length

end Feed

/-- The snapshot as events on an empty tree. -/
def Snapshot.events (snapshot : Snapshot) (now : Int) : List TreeEvent :=
  snapshot.blocks.flatMap fun blk => blk.tiers.map fun tier => .stored blk.key tier now

/-- Every block finds its place in the tree rebuilt so far. -/
def Snapshot.Rebuildable (snapshot : Snapshot) (now : Int) : Prop :=
  ∀ pre event post, snapshot.events now = pre ++ event :: post →
    (pre.foldl Reported.step Reported.blankReport).Attached event

end Infera.Kv
