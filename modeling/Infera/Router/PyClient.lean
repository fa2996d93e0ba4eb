import Infera.Router.Fleet
import Infera.Router.WireSafety

/-! The Python router's client. One dictionary holds a subscription per worker:
the key it was built from, the decoder of the worker's engine, a view and a map
per rank, and one task per rank. A message is decoded by the subscription's own
decoder; a handler that raises leaves what it had written and ends the batch.
Hashes are integers or byte strings. What only log lines read is left out, and
so are tasks of a registration that raised: nothing can look at their view. -/

namespace Infera.Router.Py
open Function

inductive EngineType where
  | sglang
  | vllm
  | atom
  deriving DecidableEq

structure WorkerInfo extends Worker where
  engine : EngineType
  deriving DecidableEq

variable (w : WorkerInfo) (s : List Char)

def decisionKey : DecisionKey × EngineType := (.of w.toWorker, w.engine)

def batchTypeForEngine : EngineType → EventForm
  | .vllm | .atom => .map
  | .sglang => .array

def isRankMultiplexed : Bool := w.dpSize.getD 1 > 1 && w.dpRank.isNone

/-- The block size, if it is truthy. -/
def WorkerInfo.blockSize? : Option Int := w.kvBlockSize.filter (· ≠ 0)

/-- What `int` takes for a blank; the four separators from 0x1c on are none. -/
def isSpace (c : Char) : Bool :=
  let n := c.toNat
  9 ≤ n && n ≤ 13 || 0x2000 ≤ n && n ≤ 0x200a ||
    [0x20, 0x85, 0xa0, 0x1680, 0x2028, 0x2029, 0x202f, 0x205f, 0x3000].contains n

def strip : List Char :=
  ((s.dropWhile isSpace).reverse.dropWhile isSpace).reverse

/-- The zeros of Unicode's decimal digits; the other nine of a script follow. -/
def decimalZeros : List ℕ :=
  [0x30, 0x660, 0x6f0, 0x7c0, 0x966, 0x9e6, 0xa66, 0xae6, 0xb66, 0xbe6, 0xc66, 0xce6, 0xd66, 0xde6,
    0xe50, 0xed0, 0xf20, 0x1040, 0x1090, 0x17e0, 0x1810, 0x1946, 0x19d0, 0x1a80, 0x1a90, 0x1b50,
    0x1bb0, 0x1c40, 0x1c50, 0xa620, 0xa8d0, 0xa900, 0xa9d0, 0xa9f0, 0xaa50, 0xabf0, 0xff10, 0x104a0,
    0x10d30, 0x11066, 0x110f0, 0x11136, 0x111d0, 0x112f0, 0x11450, 0x114d0, 0x11650, 0x116c0,
    0x11730, 0x118e0, 0x11950, 0x11c50, 0x11d50, 0x11da0, 0x16a60, 0x16ac0, 0x16b50, 0x1d7ce,
    0x1d7d8, 0x1d7e2, 0x1d7ec, 0x1d7f6, 0x1e140, 0x1e2f0, 0x1e950, 0x1fbf0]

def decimal (c : Char) : Option ℕ :=
  (decimalZeros.find? fun base => base ≤ c.toNat && c.toNat ≤ base + 9).map (c.toNat - ·)

/-- Digits with single underscores between them. -/
def parseGroups : Option ℕ :=
  if (s.splitOn '_').all (· ≠ []) then
    ((s.filter (· ≠ '_')).mapM decimal).map (·.foldl (fun n d => 10 * n + d) 0)
  else none

/-- `int(s)`; `none` where it raises. -/
def parseInt : Option Int :=
  match strip s with
  | '-' :: digits => (parseGroups digits).map fun n => -(n : Int)
  | '+' :: digits => (parseGroups digits).map fun n => (n : Int)
  | digits => (parseGroups digits).map fun n => (n : Int)

def offsetEndpoint (endpoint : String) (rank : ℕ) : Option String :=
  if rank = 0 then some endpoint
  else
    let (head, port) := (rsplitOnce ':' endpoint.toList).getD ([], endpoint.toList)
    (parseInt port).map fun p => String.ofList head ++ ":" ++ toString (p + (rank : Int))

/-- One task per rank; `none` when a rank's endpoint cannot be formed. -/
def rankTasks (endpoint : String) : Option (List (Int × String)) :=
  let ranks := if isRankMultiplexed w then (w.dpSize.getD 1).toNat else 1
  (List.range ranks).mapM fun r => (offsetEndpoint endpoint r).map fun ep => ((r : Int), ep)

structure WorkerSubscription where
  blockSize : Int
  key : DecisionKey × EngineType
  decoder : EventForm
  views : Dict Int (Finset UInt64)
  maps : Dict Int (Dict WireHash UInt64)
  tasks : List (Int × String)

def WorkerSubscription.new (blockSize : Int) (tasks : List (Int × String)) : WorkerSubscription :=
  { blockSize, key := decisionKey w, decoder := batchTypeForEngine w.engine, views := .empty,
    maps := .empty, tasks }

/-- The flat tokens, when the first element tells how they all are given. -/
def flatTokens : List WireToken → Option (List WireToken)
  | [] => some []
  | .id i :: rest => some (.id i :: rest)
  | .pair i j :: rest =>
    (WireToken.pair i j :: rest).mapM fun
      | .pair i _ => some (.id i)
      | .id _ => none

def u32Token : WireToken → Option UInt32
  | .id i => if 0 ≤ i.val ∧ i.val < 2 ^ 32 then some (UInt32.ofNat i.val.toNat) else none
  | .pair _ _ => none

section Handlers
variable (xxh3_64 : List UInt8 → UInt64) (sub : WorkerSubscription)

def hashChunk (parent : UInt64) (chunk : List WireToken) : Option UInt64 :=
  (chunk.mapM u32Token).map (Router.hashChunk xxh3_64 parent)

def bindBlock (aligned : Bool) (blockHashes : List WireHash) (routerHash : UInt64)
    (map : Dict WireHash UInt64) : Dict WireHash UInt64 :=
  match aligned, blockHashes with
  | true, blockHash :: _ => map.set blockHash routerHash
  | _, _ => map

/-- Whether it raised comes with what was written until then. -/
def indexBlocks (aligned : Bool) : UInt64 → List (List WireToken) → List WireHash →
    Finset UInt64 × Dict WireHash UInt64 → (Finset UInt64 × Dict WireHash UInt64) × Bool
  | _, [], _, index => (index, false)
  | parent, chunk :: chunks, blockHashes, (view, map) =>
    match hashChunk xxh3_64 parent chunk with
    | none => ((view, map), true)
    | some parent =>
      indexBlocks aligned parent chunks blockHashes.tail
        (insert parent view, bindBlock aligned blockHashes parent map)

def dropBlock (index : Finset UInt64 × Dict WireHash UInt64) (blockHash : WireHash) :
    Finset UInt64 × Dict WireHash UInt64 :=
  match index.2.get? blockHash with
  | some routerHash => (index.1.erase routerHash, index.2.erase blockHash)
  | none => index

namespace WorkerSubscription

variable (sub : WorkerSubscription) (rank : Int)

def viewFor : Finset UInt64 :=
  (sub.views.get? rank).getD ∅

def mapFor : Dict WireHash UInt64 :=
  (sub.maps.get? rank).getD .empty

/-- Write a rank's view and map back; a handler that changes nothing still creates them. -/
def put (index : Finset UInt64 × Dict WireHash UInt64) : WorkerSubscription :=
  { sub with views := sub.views.set rank index.1, maps := sub.maps.set rank index.2 }

def onBlockStored (blockHashes : List WireHash)
    (parentBlockHash : Option WireHash) (tokenIds : List WireToken) :
    WorkerSubscription × Bool :=
  let index := (sub.viewFor rank, sub.mapFor rank)
  let parent := match parentBlockHash with
    | none => some routerSeed
    | some h => index.2.get? h
  match parent, flatTokens tokenIds with
  | none, _ => (sub.put rank index, false)
  | some _, none => (sub.put rank index, true)
  | some parent, some tokens =>
    let n := (tokens.length : Int).fdiv sub.blockSize
    let (index, raised) := indexBlocks xxh3_64 (n = blockHashes.length) parent
      (fullBlocks sub.blockSize.toNat tokens) blockHashes index
    (sub.put rank index, raised)

def handleEvent : Event WireHash WireToken → WorkerSubscription × Bool
  | .stored blockHashes parentBlockHash tokenIds specKind =>
    if isIndexableSpecKind specKind then
      sub.onBlockStored xxh3_64 rank blockHashes parentBlockHash tokenIds
    else (sub, false)
  | .removed blockHashes =>
    (sub.put rank (blockHashes.foldl dropBlock (sub.viewFor rank, sub.mapFor rank)), false)
  | .cleared => (sub.put rank (∅, .empty), false)

/-- The first handler that raises ends the batch. -/
def handleEvents (rank : Int) : WorkerSubscription → List (Event WireHash WireToken) →
    WorkerSubscription
  | sub, [] => sub
  | sub, ev :: events =>
    match sub.handleEvent xxh3_64 rank ev with
    | (sub, true) => sub
    | (sub, false) => handleEvents rank sub events

end WorkerSubscription

/-- A message of one rank, by what each decoder makes of it. -/
structure RankMessage where
  rank : Int
  decode : EventForm → Option (List (Event WireHash WireToken))

def WorkerSubscription.receive (sub : WorkerSubscription) (m : RankMessage) : WorkerSubscription :=
  match m.decode sub.decoder with
  | none => sub
  | some events => sub.handleEvents xxh3_64 m.rank events

theorem WorkerSubscription.handleEvent_eq (rank : Int)
    (ev : Event WireHash WireToken) : (sub.handleEvent xxh3_64 rank ev).1 = sub ∨
      ∃ index, (sub.handleEvent xxh3_64 rank ev).1 = sub.put rank index := by
  cases ev with
  | stored =>
    simp only [handleEvent]
    split_ifs
    · refine .inr ?_
      unfold onBlockStored
      dsimp only
      split <;> exact ⟨_, rfl⟩
    · exact .inl rfl
  | removed | cleared => exact .inr ⟨_, rfl⟩

theorem WorkerSubscription.key_handleEvents (rank : Int) (events : List (Event WireHash WireToken))
    (sub : WorkerSubscription) : (sub.handleEvents xxh3_64 rank events).key = sub.key ∧
      (sub.handleEvents xxh3_64 rank events).tasks = sub.tasks := by
  induction events generalizing sub with
  | nil => exact ⟨rfl, rfl⟩
  | cons ev events ih =>
    have kept : (sub.handleEvent xxh3_64 rank ev).1.key = sub.key ∧
        (sub.handleEvent xxh3_64 rank ev).1.tasks = sub.tasks := by
      rcases handleEvent_eq xxh3_64 sub rank ev with same | ⟨index, written⟩
      · rw [same]
        exact ⟨rfl, rfl⟩
      · rw [written]
        exact ⟨rfl, rfl⟩
    unfold handleEvents
    split <;> rename_i sub' handled <;> rw [handled] at kept
    · exact kept
    · exact ⟨(ih sub').1.trans kept.1, (ih sub').2.trans kept.2⟩

theorem WorkerSubscription.key_receive (m : RankMessage) :
    (sub.receive xxh3_64 m).key = sub.key ∧ (sub.receive xxh3_64 m).tasks = sub.tasks := by
  unfold receive
  split
  · exact ⟨rfl, rfl⟩
  · exact key_handleEvents xxh3_64 _ _ sub

theorem WorkerSubscription.key_foldl_receive (heard : List RankMessage) (sub : WorkerSubscription) :
    (heard.foldl (receive xxh3_64) sub).key = sub.key ∧
      (heard.foldl (receive xxh3_64) sub).tasks = sub.tasks := by
  induction heard generalizing sub with
  | nil => exact ⟨rfl, rfl⟩
  | cons m heard ih =>
    obtain ⟨key, tasks⟩ := key_receive xxh3_64 sub m
    exact ⟨(ih _).1.trans key, (ih _).2.trans tasks⟩

end Handlers

structure KvEventClient where
  subs : Dict String WorkerSubscription

namespace KvEventClient

def new : KvEventClient := ⟨.empty⟩

variable (c : KvEventClient) (workerId : String)

def cacheView (dpRank : Option Int) : Finset UInt64 :=
  match c.subs.get? workerId with
  | none => ∅
  | some sub => sub.viewFor (dpRank.getD 0)

/-- A cancelled task delivers nothing more. -/
def onWorkerRemoved : KvEventClient :=
  ⟨c.subs.erase workerId⟩

/-- Whether the worker still needs deciding, after a stale subscription is torn down. -/
def claim (w : WorkerInfo) : Bool × KvEventClient :=
  match c.subs.get? w.workerId with
  | none => (true, c)
  | some existing =>
    if existing.key = decisionKey w then (false, c) else (true, c.onWorkerRemoved w.workerId)

def build (w : WorkerInfo) (endpoint : String) : KvEventClient :=
  match w.blockSize? with
  | none => c
  | some blockSize =>
    match rankTasks w endpoint with
    | none => c
    | some tasks => ⟨c.subs.set w.workerId (.new w blockSize tasks)⟩

/-- A registration without an endpoint returns before anything is torn down. -/
def onWorkerAdded (w : WorkerInfo) : KvEventClient :=
  match w.endpoint? with
  | none => c
  | some endpoint =>
    match c.claim w with
    | (false, c) => c
    | (true, c) => c.build w endpoint

def listens (source : Int × String) : Bool :=
  match c.subs.get? workerId with
  | none => false
  | some sub => source ∈ sub.tasks

def receive (xxh3_64 : List UInt8 → UInt64) (c : KvEventClient) (workerId : String)
    (m : RankMessage) : KvEventClient :=
  match c.subs.get? workerId with
  | none => c
  | some sub => ⟨c.subs.set workerId (sub.receive xxh3_64 m)⟩

end KvEventClient

/-- The record has what a subscription needs: an endpoint for each rank and a block size. -/
def WorkerInfo.Qualifies : Prop :=
  w.blockSize? ≠ none ∧ w.endpoint?.bind (rankTasks w) ≠ none

namespace KvEventClient

def freshSubscription : Option WorkerSubscription :=
  w.endpoint?.bind fun endpoint => w.blockSize?.bind fun blockSize =>
    (rankTasks w endpoint).map (.new w blockSize)

theorem freshSubscription_isSome_iff : (freshSubscription w).isSome ↔ w.Qualifies := by
  unfold freshSubscription WorkerInfo.Qualifies
  cases w.endpoint? with
  | none => simp
  | some endpoint =>
    cases w.blockSize? with
    | none => simp
    | some blockSize => cases known : rankTasks w endpoint <;> simp [known]

theorem freshSubscription_congr (w w' : WorkerInfo) (same : decisionKey w' = decisionKey w) :
    freshSubscription w' = freshSubscription w := by
  have fields := same
  simp only [decisionKey, DecisionKey.of, Prod.mk.injEq, DecisionKey.mk.injEq] at fields
  obtain ⟨⟨endpoint, blockSize, dpSize, dpRank⟩, engine⟩ := fields
  have tasks : rankTasks w' = rankTasks w := by
    funext endpoint
    unfold rankTasks isRankMultiplexed
    rw [dpSize, dpRank]
  have start : WorkerSubscription.new w' = WorkerSubscription.new w := by
    funext blockSize tasks
    rw [WorkerSubscription.new, WorkerSubscription.new, same, engine]
  unfold freshSubscription WorkerInfo.blockSize? Worker.endpoint?
  rw [endpoint, blockSize, tasks, start]

theorem key_of_freshSubscription {w : WorkerInfo} {sub : WorkerSubscription}
    (fresh : freshSubscription w = some sub) : sub.key = decisionKey w := by
  simp only [freshSubscription, Option.bind_eq_some_iff, Option.map_eq_some_iff] at fresh
  obtain ⟨_, _, _, _, _, _, rfl⟩ := fresh
  rfl

theorem get?_build {c : KvEventClient} {w : WorkerInfo} {endpoint : String}
    (connect : w.endpoint? = some endpoint) (absent : c.subs.get? w.workerId = none) :
    (c.build w endpoint).subs.get? = update c.subs.get? w.workerId (freshSubscription w) := by
  have nothing : c.subs.get? = update c.subs.get? w.workerId none := by
    rw [← absent, update_eq_self]
  unfold build freshSubscription
  rw [connect]
  cases w.blockSize? with
  | none => simpa using nothing
  | some blockSize =>
    cases known : rankTasks w endpoint with
    | none => simpa [known] using nothing
    | some tasks => simp [known, Dict.get?_set_eq_update]

theorem get?_receive (xxh3_64 : List UInt8 → UInt64) (c : KvEventClient) (workerId : String)
    (m : RankMessage) : (c.receive xxh3_64 workerId m).subs.get? = update c.subs.get? workerId
        ((c.subs.get? workerId).map fun sub => sub.receive xxh3_64 m) := by
  unfold receive
  split
  · rename_i absent
    rw [absent, Option.map_none, ← absent, update_eq_self]
  · rename_i sub known
    rw [known, Dict.get?_set_eq_update, Option.map_some]

end KvEventClient
end Infera.Router.Py
