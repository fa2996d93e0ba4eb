import Infera.Kvd.Ssd
import Infera.Vllm.Connector

/-! The worker side of the vLLM connector: how the load entries of a step reach
the paged cache. A chunk is looked for in the ring of recent saves, in its file
and with the daemon; its header must match the worker's caches; its pages are
then scattered, all layers at once or layer by layer during the forward pass. A
load that fails on the way writes nothing, or only its first layers, and returns.

What the outside answers to one load is its `Outcome`. The result of a load is
the list of blocks it has written, with their layers. What `msgpack` makes of a
header is a parameter; the bytes of a payload are counted, not read. -/

namespace Infera.Vllm
open Kvd (leNat)

structure ChunkHeader where
  chunkTokens : ℤ
  blockSize : ℤ
  numLayers : ℤ
  layerNames : List String
  hiddenDim : ℤ
  dtype : String
  cacheGroupId : ℤ
  numKvChannels : ℤ
  payloadByteOffset : ℤ

variable (h : ChunkHeader) (unpackb : List UInt8 → Option HeaderBody) (blob : List UInt8)

def ChunkHeader.dtypeBytes : ℤ :=
  match h.dtype with
  | "bf16" => 2
  | "fp16" => 2
  | "fp8_e4m3" => 1
  | "fp32" => 4
  | _ => 2

def ChunkHeader.elements : ℤ :=
  h.numKvChannels * h.numLayers * h.chunkTokens * h.hiddenDim

def ChunkHeader.payloadBytes : ℤ := h.elements * h.dtypeBytes

/-- A field of a decoded header: missing, of the wrong type, or there. -/
inductive Field (α : Type) where
  | absent
  | invalid
  | value (a : α)

def Field.required {α : Type} : Field α → Option α
  | .value a => some a
  | _ => none

def Field.orElse {α : Type} (default : α) : Field α → Option α
  | .absent => some default
  | .invalid => none
  | .value a => some a

structure HeaderBody where
  v : Field ℤ
  chunkTokens : Field ℤ
  blockSize : Field ℤ
  numLayers : Field ℤ
  layerNames : Field (List String)
  hiddenDim : Field ℤ
  dtype : Field String
  cacheGroupId : Field ℤ
  numKvChannels : Field ℤ
  payloadByteOffset : Field ℤ

def HeaderBody.header (body : HeaderBody) : Option ChunkHeader := do
  if body.v.required ≠ some 2 then none
  else
    some
      { chunkTokens := ← body.chunkTokens.required
        blockSize := ← body.blockSize.required
        numLayers := ← body.numLayers.required
        layerNames := ← body.layerNames.required
        hiddenDim := ← body.hiddenDim.required
        dtype := ← body.dtype.required
        cacheGroupId := ← body.cacheGroupId.orElse 0
        numKvChannels := ← body.numKvChannels.orElse 2
        payloadByteOffset := ← body.payloadByteOffset.orElse 0 }

/-- Parse the header of a blob; `none` is the `PackedFormatError`. -/
def unpackHeader : Option ChunkHeader := do
  if blob.length < 4 then none
  else
    let headerLen := leNat (blob.take 4)
    if 4 + headerLen > blob.length then none
    else
      let header ← (← unpackb ((blob.drop 4).take headerLen)).header
      if header.layerNames.length ≠ header.numLayers then none
      else if header.numKvChannels ≠ 1 ∧ header.numKvChannels ≠ 2 then none
      else some header

def ChunkHeader.payloadStart : ℤ :=
  if h.payloadByteOffset > 0 then h.payloadByteOffset else 4 + leNat (blob.take 4)

def unpackChunk : Option (ChunkHeader × List UInt8) := do
  let header ← unpackHeader unpackb blob
  if header.payloadStart blob > blob.length then none
  else
    let payload := blob.drop (header.payloadStart blob).toNat
    if payload.length ≠ header.payloadBytes then none
    else some (header, payload)

structure KvCache where
  elementBytes : ℕ
  numel : ℕ

structure WorkerGroup where
  blockSize : ℕ
  numKvChannels : ℕ
  hiddenDim : ℕ

inductive LayerwiseMode where
  | off
  | stepped
  | prefetch
  | parallel
  deriving DecidableEq

structure Worker where
  groupKvSpec : Dict ℕ WorkerGroup
  kvCaches : Dict String KvCache
  unpackb : List UInt8 → Option HeaderBody
  asyncLoad : Bool
  gpuDirect : Bool
  layerwiseMode : LayerwiseMode
  forward : List String

inductive FileRead where
  | absent
  | failed
  | bytes (b : List UInt8)

/-- What one load meets. -/
structure Outcome where
  cached : Option (List UInt8)
  file : FileRead
  /-- The daemon's answer, if there is one. -/
  remote : Option (List UInt8)
  /-- The registered device buffer could be had, and the direct read succeeds. -/
  registered : Bool
  directRead : Bool
  /-- The copy to the device and the scatter kernel succeed. -/
  device : Bool
  ships : String → Bool
  timely : Bool

abbrev Write := String × ℕ

def blockOf (row : List ℕ) (gid : ℕ) : ℕ := row.getD gid (row.getD 0 0)

def LoadEntry.blocks (e : LoadEntry) : List ℕ := e.perPageBlockIds.map (blockOf · e.gid)

/-- An empty file cannot be mapped, which raises. -/
def fetchChunkBlob (o : Outcome) : Option (List UInt8) :=
  match o.cached, o.file with
  | some blob, _ => some blob
  | none, .bytes [] => none
  | none, .bytes blob => some blob
  | none, _ => o.remote

/-- A chunk whose header fits the worker's caches. -/
structure OpenChunk where
  spec : WorkerGroup
  present : List String
  header : ChunkHeader
  payload : List UInt8

namespace Worker
variable (w : Worker) (e : LoadEntry) (spec : WorkerGroup) (o : Outcome)

def present (layerNames : List String) : List String :=
  layerNames.filter fun name => w.kvCaches.contains name

/-- The header describes the layers this worker has of the entry. -/
def matchesHeader (present : List String) (header : ChunkHeader) : Bool :=
  header.numLayers = present.length ∧ header.numKvChannels = spec.numKvChannels ∧
    header.hiddenDim = spec.hiddenDim

/-- The part the loaders share: each step that fails ends the load. -/
def openChunk : Option OpenChunk := do
  let spec ← w.groupKvSpec.get? e.gid
  if w.present e.layerNames = [] then none
  else
    let blob ← fetchChunkBlob o
    let (header, payload) ← unpackChunk w.unpackb blob
    if matchesHeader spec (w.present e.layerNames) header then
      some { spec, present := w.present e.layerNames, header, payload }
    else none

def firstCache (present : List String) : KvCache :=
  (present.head?.bind w.kvCaches.get?).getD ⟨1, 0⟩

/-- The bytes can be viewed as a tensor of the cache's type with the header's shape. -/
def decodes (present : List String) (header : ChunkHeader) (bytes : ℕ) : Bool :=
  0 < bytes ∧ bytes % (w.firstCache present).elementBytes = 0 ∧
    ((bytes / (w.firstCache present).elementBytes : ℕ) : ℤ) = header.elements

def writes (layers : List String) (blocks : List ℕ) : List Write :=
  layers.flatMap fun layer => blocks.map fun block => (layer, block)

/-- The pages of the chunk; a shorter chunk leaves the last ones alone. -/
def chunkBlocks (header : ChunkHeader) (e : LoadEntry) : List ℕ :=
  e.blocks.take (header.chunkTokens / spec.blockSize).toNat

def kvChunkScatter (present : List String) (header : ChunkHeader) (e : LoadEntry) : List Write :=
  let rows := (w.firstCache present).numel / max (spec.numKvChannels * spec.hiddenDim) 1
  if (header.numKvChannels = 1 ∨ header.numKvChannels = 2) ∧ header.numLayers = present.length ∧
      header.chunkTokens % spec.blockSize = 0 ∧
      ∀ block ∈ e.blocks, block * spec.blockSize + spec.blockSize - 1 < rows then
    writes present (chunkBlocks spec header e)
  else []

def loadChunkPacked : List Write :=
  match w.openChunk e o with
  | none => []
  | some chunk =>
    if w.decodes chunk.present chunk.header chunk.payload.length ∧ o.device then
      w.kvChunkScatter chunk.spec chunk.present chunk.header e
    else []

/-- From the file straight to the device, where that is possible; else as above. -/
def loadChunkPackedHipfileDirect : List Write :=
  let present := w.present e.layerNames
  match w.groupKvSpec.get? e.gid with
  | none => []
  | some spec =>
    if present = [] then []
    else
      match o.cached, o.file with
      | none, .bytes blob =>
        match unpackHeader w.unpackb (blob.take 65536) with
        | none => w.loadChunkPacked e o
        | some header =>
          let offset := header.payloadStart blob
          if matchesHeader spec present header = false then []
          else if blob.length < offset + header.payloadBytes ∨ offset % 4096 ≠ 0 ∨
              ¬(o.registered ∧ o.directRead) then
            w.loadChunkPacked e o
          else if w.decodes present header header.payloadBytes.toNat ∧ o.device then
            w.kvChunkScatter spec present header e
          else []
      | _, _ => w.loadChunkPacked e o

/-- The layers shipped during the forward pass: the first failure ends the chunk. -/
def shipped (present : List String) (o : Outcome) : List String :=
  (w.forward.filter fun name => present.contains name).takeWhile o.ships

def loadStepped : List Write :=
  match w.openChunk e o with
  | none => []
  | some chunk =>
    if w.decodes chunk.present chunk.header chunk.payload.length then
      writes (w.shipped chunk.present o) (chunkBlocks chunk.spec chunk.header e)
    else []

def loadPrefetch : List Write :=
  match w.openChunk e o with
  | none => []
  | some chunk => writes (w.shipped chunk.present o) (chunkBlocks chunk.spec chunk.header e)

def perChunk : List Write :=
  if w.gpuDirect then w.loadChunkPackedHipfileDirect e o else w.loadChunkPacked e o

end Worker

def isDsaIndexerLayer (name : String) : Bool :=
  decide (List.IsInfix "indexer".toList name.toLower.toList)

def dsaIndexerGidBase : ℕ := 1000

namespace Worker
variable (w : Worker)

/-- An entry of a group that was split on this worker becomes one for the main layers and one for
the indexer's. -/
def splitDsaEntry (e : LoadEntry) : List LoadEntry :=
  let idxGid := dsaIndexerGidBase + e.gid
  let idxNames := e.layerNames.filter isDsaIndexerLayer
  let mainNames := e.layerNames.filter fun name => !isDsaIndexerLayer name
  if (w.groupKvSpec.get? idxGid).isNone ∨ idxNames = [] then [e]
  else
    (if mainNames = [] then [] else [{ e with layerNames := mainNames }]) ++
      [{ e with key := groupChunkKey e.key idxGid, gid := idxGid, layerNames := idxNames }]

/-- One load in the mode of the step. A load that runs beyond the timeout has not written when
the forward pass starts. -/
def load (asynchronous : Bool) (e : LoadEntry) (o : Outcome) : List Write :=
  if asynchronous then w.perChunk e o
  else
    match w.layerwiseMode with
    | .off => w.loadChunkPacked e o
    | .stepped => w.loadStepped e o
    | .prefetch => w.loadPrefetch e o
    | .parallel => if o.timely then w.perChunk e o else []

def entries (plan : Metadata) : List LoadEntry := plan.packedChunksToLoad.flatMap w.splitDsaEntry

/-- What the loads of a step have written when attention may read the pages. -/
def startLoadKv (plan : Metadata) (outcomes : ℕ → Outcome) : List Write :=
  (w.entries plan).zipIdx.flatMap fun (e, i) =>
    w.load (w.asyncLoad && plan.loadChunkReqIds ≠ []) e (outcomes i)

/-- The blocks reported to the engine as not loaded. The connector counts failed loads but keeps
no record of their blocks, and does not override the report of its base class, which is empty. -/
def blockIdsWithLoadErrors (_w : Worker) (_plan : Metadata) (_outcomes : ℕ → Outcome) : List ℕ := []

end Worker
end Infera.Vllm
