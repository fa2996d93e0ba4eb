import Infera.Kv.Index

/-! The two ways a publisher's cache state reaches the index: batches of events
(`Publisher`) and snapshots of the mirror that `SnapshotProducer` keeps. One
publisher is modelled, with any number of streams, one per model and compatibility
key, and one index tree for each. -/

namespace Infera.Kv

structure StreamKey where
  model : String
  compatKey : String
  deriving DecidableEq, Repr

/-- The forms of a `cleared` event's scope. -/
inductive Scope where
  | all
  | model (name : String)
  | compatKey (hex : String)
  | tier (tier : Tier)
  /-- Any other text, an unknown tier name included; it matches nothing. -/
  | other (text : String)
  deriving DecidableEq, Repr

namespace Scope

def covers (key : StreamKey) : Scope → Bool
  | all => true
  | model name => key.model = name
  | compatKey hex => key.compatKey = hex
  | tier _ => false
  | other _ => false

end Scope

inductive KvEvent where
  | stored (block : BlockKey) (tier : Tier)
  | removed (sequenceHash : Nat) (tier : Tier)
  | cleared (scope : Scope)

/-- Every node loses the tier; leaves without a tier are unlinked afterwards. -/
def Tree.stripTier (t : Tree) (tier : Tier) : Tree :=
  let stripped := t.bySeq.values.foldl (fun t i => t.modify i (IndexNode.stripped tier)) t
  let gone := t.bySeq.values.filter fun i =>
    (stripped.node i).tiers = ∅ ∧ (stripped.node i).isLeaf = true
  gone.foldl (fun t i => t.unlinkLeaf (t.node i)) stripped

structure KVIndex where
  trees : Dict StreamKey Tree

namespace KVIndex

variable (index : KVIndex)

def treeOf (key : StreamKey) : Tree := (index.trees.get? key).getD .new

def applyStored (index : KVIndex) (key : StreamKey) (block : BlockKey) (tier : Tier) (now : Int) :
    KVIndex :=
  ⟨index.trees.set key ((index.treeOf key).applyStored block tier now)⟩

def applyRemoved (index : KVIndex) (key : StreamKey) (sequenceHash : Nat) (tier : Tier) : KVIndex :=
  match index.trees.get? key with
  | none => index
  | some t => ⟨index.trees.set key (t.applyRemoved sequenceHash tier)⟩

def applyCleared (scope : Scope) : KVIndex :=
  match scope with
  | .tier tier => ⟨index.trees.mapValues fun _ t => t.stripTier tier⟩
  | scope => ⟨index.trees.filter fun key _ => !scope.covers key⟩

def dropTree (key : StreamKey) : KVIndex := ⟨index.trees.erase key⟩

end KVIndex

structure SnapshotBlock where
  sequenceHash : Nat
  parentSequenceHash : Option Nat
  blockHash : Nat
  tiers : List Tier

namespace SnapshotBlock

variable (blk : SnapshotBlock)

def key : BlockKey :=
  ⟨blk.sequenceHash, blk.blockHash, blk.parentSequenceHash⟩

def withTier (tier : Tier) : SnapshotBlock :=
  if tier ∈ blk.tiers then blk else { blk with tiers := blk.tiers ++ [tier] }

def remaining (tier : Tier) : List Tier := blk.tiers.filter (· ≠ tier)

end SnapshotBlock

structure Snapshot where
  key : StreamKey
  batchId : Int
  blocks : List SnapshotBlock

abbrev Blocks := Dict Nat SnapshotBlock

namespace Blocks

variable (blocks : Blocks)

def store (block : BlockKey) (tier : Tier) : Blocks :=
  match blocks.get? block.sequenceHash with
  | none => blocks.set block.sequenceHash
      ⟨block.sequenceHash, block.parentSequenceHash, block.blockHash, [tier]⟩
  | some existing => blocks.set block.sequenceHash (existing.withTier tier)

def strip (sequenceHash : Nat) (tier : Tier) : Blocks :=
  match blocks.get? sequenceHash with
  | none => blocks
  | some existing =>
    if existing.remaining tier = [] then blocks.erase sequenceHash
    else blocks.set sequenceHash { existing with tiers := existing.remaining tier }

def stripAll (tier : Tier) : Blocks :=
  (blocks.filter fun _ blk => blk.remaining tier ≠ []).mapValues fun _ blk =>
    { blk with tiers := blk.remaining tier }

end Blocks

structure SnapshotProducer where
  state : Dict StreamKey Blocks
  batchIds : Dict StreamKey Nat

namespace SnapshotProducer

variable (p : SnapshotProducer) (key : StreamKey)

def blocksOf : Blocks := (p.state.get? key).getD .empty

/-- The highest batch id the caller has named for the stream. -/
def noteBatch (batchId : Option Nat) : SnapshotProducer :=
  match batchId with
  | none => p
  | some id =>
    if ((p.batchIds.get? key).map Int.ofNat).getD (-1) < id then
      { p with batchIds := p.batchIds.set key id }
    else p

def applyCleared (scope : Scope) : SnapshotProducer :=
  match scope with
  | .tier tier => { p with state := p.state.mapValues fun _ blocks => blocks.stripAll tier }
  | scope =>
    { state := p.state.filter fun key _ => !scope.covers key
      batchIds := p.batchIds.filter fun key _ =>
        !(scope.covers key && (scope = .all || p.state.contains key)) }

def onEvent (event : KvEvent) (batchId : Option Nat) : SnapshotProducer :=
  let p := p.noteBatch key batchId
  match event with
  | .stored block tier =>
    { p with state := p.state.set key ((p.blocksOf key).store block tier) }
  | .removed sequenceHash tier =>
    match p.state.get? key with
    | none => p
    | some blocks => { p with state := p.state.set key (blocks.strip sequenceHash tier) }
  | .cleared scope => p.applyCleared scope

def snapshot : Snapshot :=
  ⟨key, ((p.batchIds.get? key).map Int.ofNat).getD (-1), (p.blocksOf key).values⟩

end SnapshotProducer

structure StreamState where
  buffer : List KvEvent
  nextBatchId : Nat

structure EventBatch where
  key : StreamKey
  batchId : Nat
  events : List KvEvent

structure Publisher where
  batchMaxEvents : Nat
  batchMaxEvents_pos : 0 < batchMaxEvents
  streams : Dict StreamKey StreamState

namespace Publisher

variable (p : Publisher) (key : StreamKey)

def streamOf : StreamState :=
  (p.streams.get? key).getD ⟨[], 0⟩

def emit (event : KvEvent) : Publisher :=
  let state := p.streamOf key
  { p with streams := p.streams.set key { state with buffer := state.buffer ++ [event] } }

/-- The buffer in batches of at most `n` events; as many rounds as events suffice. -/
def batches (key : StreamKey) (n : Nat) : Nat → Nat → List KvEvent → List EventBatch
  | 0, _, _ => []
  | _ + 1, _, [] => []
  | fuel + 1, id, event :: events =>
    ⟨key, id, (event :: events).take n⟩ :: batches key n fuel (id + 1) ((event :: events).drop n)

def drain (state : StreamState) : List EventBatch :=
  batches key p.batchMaxEvents state.buffer.length state.nextBatchId state.buffer

def flushAll : Publisher × List EventBatch :=
  ({ p with
      streams := p.streams.mapValues fun key state =>
        ⟨[], state.nextBatchId + (p.drain key state).length⟩ },
    p.streams.items.flatMap fun item => p.drain item.1 item.2)

end Publisher
end Infera.Kv
