import Infera.Dict
import Infera.Router.Hasher
import Infera.Sha256

/-! The scheduler side of the vLLM connector. The engine asks how many tokens of
a request lie in the external cache, allocates blocks for what it takes, and
collects once per step what the workers shall load and save. Chunks of `N` pages
are the unit of both; a chunk of a cache group is keyed by the hashes of its
pages. What the cache holds is an argument of the probe, and the clock is read
once per key that comes up for saving. Statistics and log lines are not modelled; `GroupSpec` has what
the scheduler reads of a group, whose block size is never zero. -/

namespace Infera.Vllm
open List

abbrev Hash := List UInt8

inductive RawHash where
  | int (n : UInt64)
  | bytes (b : Hash)
  | other

def RawHash.toBytes : RawHash → Option Hash
  | .int n => some (Router.leBytes 8 n.toNat)
  | .bytes b => some b
  | .other => none

structure Request where
  requestId : Option String
  blockHashes : List RawHash
  /-- The block size the request carries, if it carries one. -/
  kvBlockSize : Option ℕ

def Request.extractBlockSize (r : Request) : ℕ := (r.kvBlockSize.filter (0 < ·)).getD 16

/-- The hashes of the blocks from this token on; an unknown representation gives none. -/
def Request.extractBlockHashesAfter (r : Request) (numComputedTokens : ℕ) : List Hash :=
  let skipBlocks := numComputedTokens / max r.extractBlockSize 1
  ((r.blockHashes.drop skipBlocks).mapM RawHash.toBytes).getD []

def chunkKvdKeyFor (blockHashes : List Hash) (start count : ℕ) : Hash :=
  (Sha256.digestBytes ((List.range count).flatMap fun i => blockHashes.getD (start + i) [])).take 8

def groupChunkKey (chunkKey : Hash) (gid : ℕ) : Hash := chunkKey.take 7 ++ [UInt8.ofNat gid]

structure GroupSpec where
  blockSize : ℕ
  positive : 0 < blockSize
  layerNames : List String

inductive Retention where
  | none
  | short
  | long
  deriving DecidableEq

/-- A chunk of one cache group: per page the block ids of all groups, and its key. -/
structure LoadEntry where
  perPageBlockIds : List (List ℕ)
  key : Hash
  gid : ℕ
  layerNames : List String
  deriving DecidableEq

structure SaveEntry extends LoadEntry where
  retention : Retention
  deriving DecidableEq

structure Metadata where
  packedChunksToLoad : List LoadEntry
  packedChunksToSave : List SaveEntry
  loadChunkReqIds : List String

/-- What is kept of a request while its prompt is being computed. -/
structure SaveState where
  blockIdsGroups : List (List ℕ)
  blockHashes : List Hash
  retention : Retention
  nLoad : ℕ
  skipBlocks : ℕ

structure Connector where
  chunkTokens : ℕ
  groupKvSpec : Dict ℕ GroupSpec
  hasNonPagedGroups : Bool
  asyncLoad : Bool
  /-- How long a saved key is not saved again; `none` is forever. -/
  savedContentTtl : Option ℕ
  maxSavedContentKeys : ℕ
  pendingBlockHashes : Dict String (List Hash)
  pendingExternalBlocks : Dict String ℕ
  asyncPendingLoads : Dict String (List LoadEntry)
  reqSaveState : Dict String SaveState
  savedContentKeys : Dict Hash ℕ

def minLength (groups : List (List ℕ)) : ℕ := (groups.map List.length).min?.getD 0

namespace Connector

variable (c : Connector) (acc : Metadata × Connector) (key : Hash) (blockHashes : List Hash)
  (st : SaveState) (nPairs nLoad : ℕ) (emitLoad : Bool) (now : Hash → ℕ)

def blockSizeNow (carried : ℕ) : ℕ :=
  match c.groupKvSpec.values.find? (0 < ·.blockSize) with
  | some spec => spec.blockSize
  | none => carried

def grain (blockSize : ℕ) : ℕ := max 1 (c.chunkTokens / blockSize)

def pivotGid : ℕ := c.groupKvSpec.keys.min?.getD 0

def groupIds : List ℕ := c.groupKvSpec.keys.mergeSort (· ≤ ·)

def layerNames (c : Connector) (gid : ℕ) : List String :=
  ((c.groupKvSpec.get? gid).map (·.layerNames)).getD []

def chunkEntry (groups : List (List ℕ)) (n chunk gid : ℕ) : LoadEntry where
  perPageBlockIds := (List.range n).map fun p => groups.map fun g => g.getD (chunk * n + p) 0
  key := groupChunkKey (chunkKvdKeyFor blockHashes (chunk * n) n) gid
  gid
  layerNames := c.layerNames gid

/-- How many tokens beyond the computed ones the external cache can supply, and whether they
are loaded asynchronously. -/
def getNumNewMatchedTokens (r : Request) (numComputedTokens : ℕ)
    (present : Hash → Bool) : (ℕ × Bool) × Connector :=
  let fullHashes := r.extractBlockHashesAfter 0
  let c := match r.requestId with
    | some id => { c with pendingBlockHashes := c.pendingBlockHashes.set id fullHashes }
    | none => c
  let promise (pages : ℕ) : Connector := match r.requestId with
    | some id => { c with pendingExternalBlocks := c.pendingExternalBlocks.set id pages }
    | none => c
  if c.hasNonPagedGroups then ((0, false), c)
  else
    let blockSize := c.blockSizeNow r.extractBlockSize
    let n := c.grain blockSize
    let nChunksTotal := fullHashes.length / n
    let skipChunks := numComputedTokens / blockSize / n
    if blockSize = 0 ∨ nChunksTotal ≤ skipChunks then ((0, false), c)
    else
      let chunkKeys := (List.range' skipChunks (nChunksTotal - skipChunks)).map fun chunk =>
        groupChunkKey (chunkKvdKeyFor fullHashes (chunk * n) n) c.pivotGid
      let numHitChunks := (chunkKeys.takeWhile present).length
      if numHitChunks = 0 then ((0, false), promise 0)
      else
        let newTokens := (skipChunks + numHitChunks) * n * blockSize - numComputedTokens
        ((newTokens, c.asyncLoad && 0 < newTokens), promise (newTokens / blockSize))

/-- The loads of an asynchronously loading request, from chunk 0 on. -/
def buildAsyncLoadEntries (groups : List (List ℕ)) (nPairs nLoad : ℕ) : List LoadEntry :=
  match c.groupKvSpec.values.head? with
  | none => []
  | some first =>
    let n := c.grain first.blockSize
    let nLoadChunks := min (nLoad / n) (nPairs / n)
    (List.range nLoadChunks).flatMap fun chunk =>
      c.groupIds.map fun gid => c.chunkEntry blockHashes groups n chunk gid

/-- The engine allocated blocks and takes this many external tokens. -/
def updateStateAfterAlloc (r : Request) (blocks : List (List ℕ))
    (numExternalTokens : ℕ) : Connector :=
  match r.requestId with
  | none => c
  | some id =>
    let actual := numExternalTokens / max (c.blockSizeNow r.extractBlockSize) 1
    let nLoad := min ((c.pendingExternalBlocks.get? id).getD actual) actual
    let c := { c with pendingExternalBlocks := c.pendingExternalBlocks.set id nLoad }
    let blockHashes := (c.pendingBlockHashes.get? id).getD []
    if c.asyncLoad ∧ 0 < nLoad ∧ blockHashes ≠ [] ∧ blocks.head?.getD [] ≠ [] then
      let nPairs := min (minLength blocks) blockHashes.length
      let entries := c.buildAsyncLoadEntries blockHashes blocks nPairs (min nLoad nPairs)
      if entries = [] then c
      else
        { c with
          asyncPendingLoads := c.asyncPendingLoads.set id entries
          pendingExternalBlocks := c.pendingExternalBlocks.set id 0 }
    else c

def trim (cap : ℕ) (d : Dict Hash ℕ) : Dict Hash ℕ where
  items := d.items.drop (d.items.length - cap)
  nodupKeys := by
    rw [List.map_drop]
    exact d.nodupKeys.sublist (List.drop_sublist _ _)

def rememberSavedKey (now : ℕ) : Connector :=
  { c with savedContentKeys := trim c.maxSavedContentKeys (c.savedContentKeys.set key now) }

def recentlySaved (now : ℕ) : Bool :=
  match c.savedContentKeys.get? key with
  | none => false
  | some prev => c.savedContentTtl.all fun ttl => now - prev < ttl

/-- A key that is met again is the newest, under its old time. -/
def moveToEnd : Connector :=
  match c.savedContentKeys.get? key with
  | none => c
  | some prev => { c with savedContentKeys := (c.savedContentKeys.erase key).set key prev }

def emitEntry (emitLoad isLoad : Bool) (retention : Retention) (now : Hash → ℕ)
    (acc : Metadata × Connector) (entry : LoadEntry) : Metadata × Connector :=
  let (plan, c) := acc
  if isLoad then
    if emitLoad then
      ({ plan with packedChunksToLoad := plan.packedChunksToLoad ++ [entry] }, c)
    else (plan, c)
  else if c.recentlySaved entry.key (now entry.key) then (plan, c.moveToEnd entry.key)
  else
    ({ plan with packedChunksToSave := plan.packedChunksToSave ++ [{ entry with retention }] },
      c.rememberSavedKey entry.key (now entry.key))

/-- The full chunks past the locally cached ones: `nLoad` pages of them are loads, in whole
chunks, and the rest are saves. -/
def emitV2Chunks : Metadata × Connector :=
  let c := acc.2
  match c.groupKvSpec.values.head? with
  | none => acc
  | some first =>
    let n := c.grain first.blockSize
    let nChunksTotal := nPairs / n
    let nLoadChunks := min (nLoad / n) nChunksTotal
    let skipChunks := min (st.skipBlocks / n) nChunksTotal
    let loadChunkEnd := skipChunks + nLoadChunks
    let positions := (List.range' skipChunks (nChunksTotal - skipChunks)).flatMap fun chunk =>
      c.groupIds.map fun gid => (chunk, gid)
    positions.foldl (fun acc (chunk, gid) =>
      emitEntry emitLoad (chunk < loadChunkEnd) st.retention now acc
        (c.chunkEntry st.blockHashes st.blockIdsGroups n chunk gid)) acc

def emitReqSaveChunks : Metadata × Connector :=
  if st.blockIdsGroups.head?.getD [] = [] then acc
  else
    let nPairs := min (minLength st.blockIdsGroups) st.blockHashes.length
    if nPairs = 0 then acc
    else emitV2Chunks acc st nPairs (min st.nLoad nPairs) emitLoad now

def reqSaveComplete : Bool :=
  st.blockHashes.length ≤ minLength st.blockIdsGroups

end Connector

/-- A request scheduled for the first time; its two places for a retention. -/
structure NewReq where
  reqId : String
  blockIds : List (List ℕ)
  numComputedTokens : ℕ
  kvTransferRetention : Option String
  extraArgsRetention : Option String

def parseRetention : String → Option Retention
  | "none" => some .none
  | "short" => some .short
  | "long" => some .long
  | _ => Option.none

def NewReq.extractRetention (new : NewReq) : Retention :=
  ((new.kvTransferRetention.bind parseRetention).or
    (new.extraArgsRetention.bind parseRetention)).getD .long

/-- A request scheduled again; after a preemption its block table is a new one. -/
structure CachedReq where
  reqId : String
  newBlockIds : Option (List (List ℕ))
  resumed : Bool

structure SchedulerOutput where
  scheduledNewReqs : List NewReq
  scheduledCachedReqs : List CachedReq

def extendTables (groups new : List (List ℕ)) : List (List ℕ) :=
  groups.zipIdx.map fun (g, i) => g ++ new.getD i []

namespace Connector

variable (now : Hash → ℕ) (acc : Metadata × Connector)

def startReq (new : NewReq) : Metadata × Connector :=
  let (plan, c) := acc
  let blockHashes := (c.pendingBlockHashes.get? new.reqId).getD []
  let numExternalBlocks := (c.pendingExternalBlocks.get? new.reqId).getD 0
  let c := { c with
    pendingBlockHashes := c.pendingBlockHashes.erase new.reqId
    pendingExternalBlocks := c.pendingExternalBlocks.erase new.reqId }
  if new.blockIds.head?.getD [] = [] ∨ blockHashes = [] then (plan, c)
  else
    let blockSize := max 1 (c.blockSizeNow 16)
    let st : SaveState :=
      { blockIdsGroups := new.blockIds
        blockHashes
        retention := new.extractRetention
        nLoad := numExternalBlocks
        skipBlocks := new.numComputedTokens / blockSize - numExternalBlocks }
    emitReqSaveChunks (plan, { c with reqSaveState := c.reqSaveState.set new.reqId st }) st true now

def continueReq (cached : CachedReq) : Metadata × Connector :=
  match acc.2.reqSaveState.get? cached.reqId, cached.newBlockIds with
  | none, _ | _, none => acc
  | some st, some new =>
    let st := { st with blockIdsGroups :=
      if cached.resumed then new else extendTables st.blockIdsGroups new }
    let (plan, c) := acc
    let c := { c with reqSaveState := c.reqSaveState.set cached.reqId st }
    let (plan, c) := emitReqSaveChunks (plan, c) st false now
    if reqSaveComplete st then
      (plan, { c with reqSaveState := c.reqSaveState.erase cached.reqId })
    else (plan, c)

variable (c : Connector) (emitLoad isLoad : Bool) (retention : Retention)

def asyncLoads : Metadata :=
  let pending := if c.asyncLoad then c.asyncPendingLoads.items else []
  { packedChunksToLoad := pending.flatMap fun (_, entries) => entries
    packedChunksToSave := []
    loadChunkReqIds := pending.flatMap fun (id, entries) => entries.map fun _ => id }

def buildConnectorMeta (out : SchedulerOutput) (now : Hash → ℕ) : Metadata × Connector :=
  let plan := c.asyncLoads
  let c := if c.asyncLoad then { c with asyncPendingLoads := .empty } else c
  if c.groupKvSpec.items = [] then (plan, c)
  else
    out.scheduledCachedReqs.foldl (continueReq now)
      (out.scheduledNewReqs.foldl (startReq now) (plan, c))

def requestFinished (r : Request) : Connector :=
  { c with reqSaveState := c.reqSaveState.erase (r.requestId.getD "") }

def Resaved (c c' : Connector) : Prop :=
  c' = { c with savedContentKeys := c'.savedContentKeys }

theorem Resaved.refl : c.Resaved c := rfl

theorem Resaved.trans {c c' c'' : Connector} (first : c.Resaved c') (second : c'.Resaved c'') :
    c.Resaved c'' := by
  unfold Resaved at *
  rw [second, first]

section
variable (now : Hash → ℕ) (acc : Metadata × Connector) (entry : LoadEntry)

theorem resaved_emitEntry :
    acc.2.Resaved (emitEntry emitLoad isLoad retention now acc entry).2 := by
  unfold emitEntry moveToEnd rememberSavedKey
  dsimp only
  split_ifs
  · rfl
  · rfl
  · split <;> rfl
  · rfl

theorem emitEntry_loads :
    ∃ more, (emitEntry emitLoad isLoad retention now acc entry).1.packedChunksToLoad =
      acc.1.packedChunksToLoad ++ more := by
  unfold emitEntry
  dsimp only
  split_ifs
  · exact ⟨[entry], rfl⟩
  all_goals exact ⟨[], (append_nil _).symm⟩

end

theorem foldl_emitEntry (f : ℕ × ℕ → LoadEntry) (emitLoad : Bool) (loadChunkEnd : ℕ)
    (retention : Retention) (now : Hash → ℕ) (positions : List (ℕ × ℕ))
    (acc : Metadata × Connector) :
    let result := positions.foldl (fun acc p =>
      emitEntry emitLoad (p.1 < loadChunkEnd) retention now acc (f p)) acc
    acc.2.Resaved result.2 ∧
      (∃ more, result.1.packedChunksToLoad = acc.1.packedChunksToLoad ++ more) ∧
      (∀ e, e ∈ result.1.packedChunksToLoad ↔ e ∈ acc.1.packedChunksToLoad ∨
        emitLoad = true ∧ ∃ p ∈ positions, p.1 < loadChunkEnd ∧ e = f p) ∧
      (∀ e ∈ result.1.packedChunksToSave, e ∈ acc.1.packedChunksToSave ∨
        ∃ p ∈ positions, loadChunkEnd ≤ p.1 ∧ e.toLoadEntry = f p) ∧
      result.1.loadChunkReqIds = acc.1.loadChunkReqIds := by
  induction positions generalizing acc with
  | nil => exact ⟨rfl, ⟨[], by simp⟩, by simp, fun e mem => .inl mem, rfl⟩
  | cons p positions ih =>
    obtain ⟨resaved, ⟨more, longer⟩, loads, saves, ids⟩ :=
      ih (emitEntry emitLoad (p.1 < loadChunkEnd) retention now acc (f p))
    obtain ⟨one, appended⟩ := emitEntry_loads emitLoad (p.1 < loadChunkEnd) retention now acc (f p)
    refine ⟨(resaved_emitEntry ..).trans resaved, ⟨one ++ more, ?_⟩, ?_, ?_, ?_⟩
    · rw [foldl_cons, longer, appended, append_assoc]
    · intro e
      rw [foldl_cons, loads]
      by_cases isLoad : p.1 < loadChunkEnd
      · cases emitLoad <;> simp [emitEntry, isLoad, or_assoc]
      · have kept : (emitEntry emitLoad (p.1 < loadChunkEnd) retention now acc
            (f p)).1.packedChunksToLoad = acc.1.packedChunksToLoad := by
          unfold emitEntry
          simp only [isLoad, decide_false, Bool.false_eq_true, if_false]
          split_ifs <;> rfl
        rw [kept]
        simp [isLoad]
    · intro e mem
      rcases saves e mem with before | ⟨q, later, past, same⟩
      · unfold emitEntry at before
        dsimp only at before
        split_ifs at before with isLoad emits recent
        · exact .inl before
        · exact .inl before
        · exact .inl before
        · rcases mem_append.mp before with old | new
          · exact .inl old
          · rw [mem_singleton] at new
            rw [decide_eq_true_eq, not_lt] at isLoad
            exact .inr ⟨p, mem_cons_self, isLoad, by rw [new]⟩
      · exact .inr ⟨q, mem_cons_of_mem _ later, past, same⟩
    · rw [foldl_cons, ids]
      unfold emitEntry
      dsimp only
      split_ifs <;> rfl

end Connector
end Infera.Vllm
