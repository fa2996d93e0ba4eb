import Infera.Dict
import Infera.Router.Hasher

/-! The router's mirror of each worker's cache. A tracked worker has, per
data-parallel rank, a view (the chained hashes cached there), a map from the
engine's block hashes to chained hashes, and the health of the rank's event
chain. `applyEvents` applies one decoded batch, `seedRankView` and
`dropRankView` follow the bucket, and `takeFlushRequest` hands out a pending
flush. Instants are nanoseconds; every reading of the clock is an argument.
Counters are unbounded and log lines are not modelled. -/

namespace Infera.Router
open Dict

/-- A decoded cache event, over the types of block hashes and tokens. -/
inductive Event (H T : Type) where
  | stored (blockHashes : List H) (parentBlockHash : Option H) (tokenIds : List T)
      (specKind : Option String)
  | removed (blockHashes : List H)
  | cleared
  deriving DecidableEq

/-- Which cache groups carry a usable hash per block; no kind fails open. -/
def isIndexableSpecKind : Option String → Bool
  | none => true
  | some k => k == "full_attention" || k == "mla_attention" || k == "sink_full_attention"

abbrev Instant := ℕ

def elapsed (now since : Instant) : ℕ := now - since

def seedCoverageWindow : ℕ := 60 * 10 ^ 9

def flushArmHoldoff : ℕ := 5 * 10 ^ 9

structure ChainHealth where
  orphaned : ℕ
  applied : ℕ
  nextWarn : ℕ
  needsFlush : Bool
  seededAt : Option Instant
  armedAt : Option Instant
  deriving DecidableEq

def ChainHealth.new : ChainHealth :=
  { orphaned := 0, applied := 0, nextWarn := 1, needsFlush := false, seededAt := none,
    armedAt := none }

/-- What the loop over a batch updates. -/
structure Tally where
  view : Finset UInt64
  map : Dict UInt64 UInt64
  orphaned : ℕ
  applied : ℕ
  cleared : Bool

section Indexing
variable (xxh3_64 : List UInt8 → UInt64) (bs : ℕ) (view : Finset UInt64) (map : Dict UInt64 UInt64)

def bindBlock (aligned : Bool) (blockHashes : List UInt64) (routerHash : UInt64)
    (map : Dict UInt64 UInt64) : Dict UInt64 UInt64 :=
  match aligned, blockHashes with
  | true, blockHash :: _ => map.set blockHash routerHash
  | _, _ => map

/-- Chain the blocks below `parent` into the view, and into the map when each
has its own engine hash. -/
def indexBlocks (aligned : Bool) : UInt64 → List (List UInt32) → List UInt64 →
    Finset UInt64 × Dict UInt64 UInt64 → Finset UInt64 × Dict UInt64 UInt64
  | _, [], _, index => index
  | parent, chunk :: chunks, blockHashes, (view, map) =>
    let parent := hashChunk xxh3_64 parent chunk
    indexBlocks aligned parent chunks blockHashes.tail
      (insert parent view, bindBlock aligned blockHashes parent map)

def dropBlock (index : Finset UInt64 × Dict UInt64 UInt64) (blockHash : UInt64) :
    Finset UInt64 × Dict UInt64 UInt64 :=
  match index.2.get? blockHash with
  | some routerHash => (index.1.erase routerHash, index.2.erase blockHash)
  | none => index

/-- The chained hash a stored event builds on; `none` when its parent is missing. -/
def resolveParent : Option UInt64 → Option UInt64
  | none => some routerSeed
  | some ph => map.get? ph

def Tally.event (t : Tally) : Event UInt64 UInt32 → Tally
  | .stored blockHashes parentBlockHash tokenIds specKind =>
    if isIndexableSpecKind specKind then
      let n := tokenIds.length / bs
      if n = 0 then t
      else
        match resolveParent t.map parentBlockHash with
        | none => { t with orphaned := t.orphaned + 1 }
        | some parent =>
          let index := indexBlocks xxh3_64 (n == blockHashes.length) parent
            (fullBlocks bs tokenIds) blockHashes (t.view, t.map)
          { t with view := index.1, map := index.2, applied := t.applied + 1 }
    else t
  | .removed blockHashes =>
    let index := blockHashes.foldl dropBlock (t.view, t.map)
    { t with view := index.1, map := index.2 }
  | .cleared => { view := ∅, map := .empty, orphaned := 0, applied := 0, cleared := true }

def Tally.start : Tally :=
  { view, map, orphaned := 0, applied := 0, cleared := false }

def Tally.batch (events : List (Event UInt64 UInt32)) : Tally :=
  events.foldl (Tally.event xxh3_64 bs) (Tally.start view map)

end Indexing

/-- The two readings of the clock while a batch is accounted for. -/
structure Readings where
  coverage : Instant
  arming : Instant

variable (h : ChainHealth) (now : Instant)

/-- Whether a seed still stands for the rank's view. -/
def ChainHealth.bucketCovered : Bool :=
  h.seededAt.any fun t => elapsed now t < seedCoverageWindow

/-- The counters after a batch; a clear in it forgets everything before. -/
def ChainHealth.count (t : Tally) : ChainHealth :=
  let h := if t.cleared then ChainHealth.new else h
  { h with orphaned := h.orphaned + t.orphaned, applied := h.applied + t.applied }

/-- Arm on this batch's orphans, withdraw on evidence to the contrary. -/
def ChainHealth.arm (orphaned : ℕ) (now : Readings) : ChainHealth :=
  if 0 < orphaned ∧ h.applied = 0 ∧ h.bucketCovered now.coverage = false then
    if h.needsFlush then h else { h with needsFlush := true, armedAt := some now.arming }
  else if h.bucketCovered now.coverage = true ∨ 0 < h.applied then
    { h with needsFlush := false, armedAt := none }
  else h

def ChainHealth.warn (orphaned : ℕ) : ChainHealth :=
  if 0 < orphaned ∧ h.nextWarn ≤ h.orphaned then
    { h with nextWarn := min (h.orphaned * 10) (2 ^ 64 - 1) }
  else h

def ChainHealth.account (t : Tally) (now : Readings) : ChainHealth :=
  ((h.count t).arm t.orphaned now).warn t.orphaned

def ChainHealth.due : Bool :=
  h.needsFlush &&
    !(h.seededAt.isSome && h.armedAt.any fun t => elapsed now t < flushArmHoldoff)

def ChainHealth.taken : ChainHealth :=
  if h.due now then { h with needsFlush := false, armedAt := none } else h

/-- The bucket has just replaced the view; a request raised before it is withdrawn. -/
def ChainHealth.seeded : ChainHealth :=
  { h with seededAt := some now, needsFlush := false, armedAt := none }

def ChainHealth.uncovered : ChainHealth := { h with seededAt := none }

structure WorkerViews where
  blockSize : ℕ
  views : Dict Int (Finset UInt64)
  maps : Dict Int (Dict UInt64 UInt64)
  health : Dict Int ChainHealth

namespace WorkerViews

def new (blockSize : ℕ) : WorkerViews :=
  { blockSize := max blockSize 1, views := .empty, maps := .empty, health := .empty }

variable (wv : WorkerViews) (rank : Int)

def view : Finset UInt64 := (wv.views.get? rank).getD ∅

def map : Dict UInt64 UInt64 := (wv.maps.get? rank).getD .empty

def healthOf : ChainHealth :=
  (wv.health.get? rank).getD ChainHealth.new

def anchored : Bool :=
  (wv.health.get? rank).any fun h => 0 < h.applied

def applyEvents (xxh3_64 : List UInt8 → UInt64) (wv : WorkerViews) (rank : Int)
    (events : List (Event UInt64 UInt32)) (now : Readings) : WorkerViews :=
  let t := Tally.batch xxh3_64 wv.blockSize (wv.view rank) (wv.map rank) events
  { wv with
    views := wv.views.set rank t.view
    maps := wv.maps.set rank t.map
    health := wv.health.set rank ((wv.healthOf rank).account t now) }

def seedRankView (snapshot : List UInt64) (now : Instant) : WorkerViews :=
  if wv.anchored rank ∧ wv.view rank ≠ ∅ then wv
  else
    { wv with
      views := wv.views.set rank snapshot.toFinset
      health := wv.health.set rank ((wv.healthOf rank).seeded now) }

def dropRankView : WorkerViews :=
  { wv with
    views := wv.views.erase rank
    health := match wv.health.get? rank with
      | some h => wv.health.set rank h.uncovered
      | none => wv.health }

/-- Drop everything indexed for a rank whose publisher was replaced. -/
def resetRank : WorkerViews :=
  { wv with
    views := wv.views.set rank ∅
    maps := wv.maps.set rank .empty
    health := wv.health.set rank ChainHealth.new }

/-- The blocks of `query` cached on the rank, up to the first that is not. -/
def prefixHits (dpRank : Option Int) (query : List UInt64) : ℕ :=
  (query.takeWhile fun h => h ∈ wv.view (dpRank.getD 0)).length

/-- Check and clear; `now` is read once per rank. -/
def takeFlushRequest (now : Int → Instant) : Bool × WorkerViews :=
  (wv.health.items.any fun (rank, h) => h.due (now rank),
    { wv with health := wv.health.mapValues fun rank h => h.taken (now rank) })

section ApplyEvents
variable (xxh3_64 : List UInt8 → UInt64) (wv : WorkerViews) (rank : Int)
  (events : List (Event UInt64 UInt32)) (now : Readings)

@[simp] theorem view_applyEvents (r : Int) : (wv.applyEvents xxh3_64 rank events now).view r =
    if r = rank then (Tally.batch xxh3_64 wv.blockSize (wv.view rank) (wv.map rank) events).view
    else wv.view r := by
  simp only [view, applyEvents, get?_set]
  split_ifs <;> rfl

@[simp] theorem map_applyEvents (r : Int) : (wv.applyEvents xxh3_64 rank events now).map r =
    if r = rank then (Tally.batch xxh3_64 wv.blockSize (wv.view rank) (wv.map rank) events).map
    else wv.map r := by
  simp only [map, applyEvents, get?_set]
  split_ifs <;> rfl

@[simp] theorem healthOf_applyEvents (r : Int) :
    (wv.applyEvents xxh3_64 rank events now).healthOf r =
      if r = rank then (wv.healthOf rank).account
        (Tally.batch xxh3_64 wv.blockSize (wv.view rank) (wv.map rank) events) now
      else wv.healthOf r := by
  simp only [healthOf, applyEvents, get?_set]
  split_ifs <;> rfl

end ApplyEvents

theorem anchored_iff : wv.anchored rank = true ↔ 0 < (wv.healthOf rank).applied := by
  unfold anchored healthOf
  cases wv.health.get? rank <;> simp [ChainHealth.new]

section Bucket
variable (wv : WorkerViews) (rank r : Int) (snapshot : List UInt64) (now : Instant)

/-- A rank whose own chain is live keeps the view it built. -/
def Keeps : Prop := wv.anchored rank ∧ wv.view rank ≠ ∅

theorem seedRankView_of_keeps (keeps : wv.Keeps rank) : wv.seedRankView rank snapshot now = wv :=
  if_pos keeps

@[simp] theorem map_seedRankView : (wv.seedRankView rank snapshot now).map r = wv.map r := by
  unfold seedRankView
  split_ifs <;> rfl

theorem view_seedRankView (accepts : ¬wv.Keeps rank) : (wv.seedRankView rank snapshot now).view r =
      if r = rank then snapshot.toFinset else wv.view r := by
  unfold Keeps at accepts
  rw [seedRankView, if_neg accepts]
  simp only [view, get?_set]
  split_ifs <;> rfl

theorem healthOf_seedRankView (accepts : ¬wv.Keeps rank) :
    (wv.seedRankView rank snapshot now).healthOf r =
      if r = rank then (wv.healthOf rank).seeded now else wv.healthOf r := by
  unfold Keeps at accepts
  rw [seedRankView, if_neg accepts]
  simp only [healthOf, get?_set]
  split_ifs <;> rfl

theorem healthOf_dropRankView : (wv.dropRankView rank).healthOf r =
    if r = rank then (wv.healthOf rank).uncovered else wv.healthOf r := by
  simp only [healthOf, dropRankView]
  cases known : wv.health.get? rank with
  | none =>
    split_ifs with same
    · rw [same, known]
      rfl
    · rfl
  | some h =>
    simp only [get?_set]
    split_ifs <;> rfl

theorem healthOf_resetRank : (wv.resetRank rank).healthOf r =
    if r = rank then ChainHealth.new else wv.healthOf r := by
  simp only [healthOf, resetRank, get?_set]
  split_ifs <;> rfl

theorem healthOf_takeFlushRequest (now : Int → Instant) :
    (wv.takeFlushRequest now).2.healthOf r = (wv.healthOf r).taken (now r) := by
  simp only [healthOf, takeFlushRequest, get?_mapValues]
  cases wv.health.get? r with
  | none => rfl
  | some h => rfl

end Bucket

end WorkerViews

structure KvEventClient where
  state : Dict String WorkerViews

namespace KvEventClient
variable (xxh3_64 : List UInt8 → UInt64)

/-- Run `f` on a tracked worker; a worker that is not tracked is left out. -/
def onWorker (c : KvEventClient) (workerId : String) (f : WorkerViews → WorkerViews) :
    KvEventClient :=
  match c.state.get? workerId with
  | none => c
  | some wv => { c with state := c.state.set workerId (f wv) }

theorem get?_onWorker (c : KvEventClient) (workerId w : String) (f : WorkerViews → WorkerViews) :
    (c.onWorker workerId f).state.get? w =
      if w = workerId then (c.state.get? workerId).map f else c.state.get? w := by
  unfold onWorker
  split
  · rename_i untracked
    split_ifs with same
    · rw [same, untracked, Option.map_none]
    · rfl
  · rename_i wv tracked
    rw [get?_set, tracked, Option.map_some]

variable (c : KvEventClient) (workerId : String)

def applyEvents (rank : Int) (events : List (Event UInt64 UInt32)) (now : Readings) :
    KvEventClient :=
  c.onWorker workerId fun wv => wv.applyEvents xxh3_64 rank events now

def prefixHits (dpRank : Option Int) (query : List UInt64) : ℕ :=
  match c.state.get? workerId with
  | none => 0
  | some wv => wv.prefixHits dpRank query

end KvEventClient
end Infera.Router
