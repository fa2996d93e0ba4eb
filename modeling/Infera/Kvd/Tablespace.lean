import Infera.JsonLines
import Infera.Kvd.BitsetAllocator
import Infera.Kvd.Region

/-! The tablespace region: blocks in fixed-size slots of preallocated container
files, an in-memory index, an append-only journal of index changes and a
snapshot written by `clear`. The region is modelled in inline-fsync mode, where
what an operation has written is on disk when it returns.

Container contents are kept per slot; a block never crosses its slot. A write
may fail with `OSError`, given as the `WriteFault` that names what it left in the
slot. Hash functions and the text of a time stamp come from the `Platform`. -/

namespace Infera.Kvd
open Json JsonText JsonLines

structure Platform where
  /-- The 8-byte digest as an integer. -/
  blake2b : Bytes → Nat
  /-- The hexadecimal digest. -/
  sha256 : List Char → String
  /-- `time.time()` as `json.dumps` writes it. -/
  timeRepr : ℚ → JsonFloat

def directIoAlign : Nat := 4096

structure TablespaceConfig where
  maxBytes : Nat
  slotBytes : Nat
  containerBytes : Nat
  oDirect : Bool
  platform : Platform
  maxBytes_pos : 0 < maxBytes
  slotBytes_pos : 0 < slotBytes
  slot_le_container : slotBytes ≤ containerBytes
  aligned : oDirect = true → slotBytes % directIoAlign = 0

namespace TablespaceConfig

variable (cfg : TablespaceConfig)

def slotsPerContainer : Nat := cfg.containerBytes / cfg.slotBytes

def numContainers : Nat := max 1 (cfg.maxBytes / cfg.containerBytes)

def totalSlots : Nat := cfg.numContainers * cfg.slotsPerContainer

def newAllocator : BitsetAllocator :=
  .new cfg.totalSlots cfg.numContainers cfg.slotsPerContainer

end TablespaceConfig

structure TablespaceEntry where
  key : Bytes
  containerIdx : Nat
  slotIdx : Nat
  sizeBytes : Nat
  retention : Retention
  model : String
  compatKey : String
  lastAccess : ℚ
  metadata : Metadata

variable (cfg : TablespaceConfig) (raw : Json) (disk : TablespaceDisk) (text : List Char)

def TablespaceEntry.slotGlobal (e : TablespaceEntry) : Nat :=
  e.containerIdx * cfg.slotsPerContainer + e.slotIdx

/-- What a crash leaves. A missing journal file is an empty one. -/
structure TablespaceDisk where
  /-- Container, slot, byte of the slot. -/
  slots : Nat → Nat → Nat → UInt8
  journal : List Char
  snapshot : Option (List Char)
  snapshotBak : Option (List Char)

structure TablespaceLongRegion where
  cfg : TablespaceConfig
  started : Bool
  allocator : BitsetAllocator
  entries : Dict Composite TablespaceEntry
  usedBytes : Int
  disk : TablespaceDisk

def hexText (key : Bytes) : String :=
  String.ofList (key.flatMap fun b => [hexDigit (b.toNat / 16), hexDigit (b.toNat % 16)])

/-- `bytes.fromhex`: pairs of hexadecimal digits, blanks between them ignored. -/
def fromHex : List Char → Option Bytes
  | [] => some []
  | c :: cs =>
    if isSpace c then fromHex cs
    else
      match cs with
      | [] => none
      | d :: rest => do
        let high ← hexVal c
        let low ← hexVal d
        let more ← fromHex rest
        return UInt8.ofNat (high * 16 + low) :: more

def putRecord (c : Composite) (container slot size : Nat) (retention : Retention)
    (metadata : Metadata) (ts : JsonFloat) : Json :=
  .obj [("op", .str "PUT"), ("key_hex", .str (hexText c.key)), ("container", .int container),
    ("slot", .int slot), ("size", .int size), ("retention", .str retention.toString),
    ("model", .str c.model), ("compat_key", .str c.compatKey), ("metadata", metadata.toJson),
    ("ts", .float ts)]

def delRecord (c : Composite) : Json :=
  .obj [("op", .str "DEL"), ("key_hex", .str (hexText c.key)), ("model", .str c.model),
    ("compat_key", .str c.compatKey)]

namespace TablespaceDisk

variable (disk : TablespaceDisk)

/-- `json.dumps` raises before anything is written when the entry is not encodable. -/
def journalAppend (entry : Json) : Except PyErr TablespaceDisk :=
  if entry.encodable then .ok { disk with journal := disk.journal ++ line entry }
  else .error .typeError

def setSlot (container slot : Nat) (contents : Nat → UInt8) : TablespaceDisk :=
  { disk with
    slots := Function.update disk.slots container
      (Function.update (disk.slots container) slot contents) }

/-- A buffered write leaves the rest of the slot, an `O_DIRECT` one zeroes it. -/
def written (cfg : TablespaceConfig) (container slot : Nat) (value : Bytes) : TablespaceDisk :=
  disk.setSlot container slot fun i =>
    value[i]?.getD (if cfg.oDirect then 0 else disk.slots container slot i)

def slotBytes (container slot size : Nat) : Bytes :=
  (List.range size).map (disk.slots container slot)

end TablespaceDisk

def getField (name : String) : Except PyErr (Option Json) :=
  match raw with
  | .obj fields => .ok (fields.lookup name)
  | _ => .error .attributeError

/-- Fields of another type do not occur in files the region wrote. -/
def strField (name fallback : String) : Except PyErr String := do
  match ← getField raw name with
  | none => return fallback
  | some (.str s) => return s
  | some _ => throw .typeError

def intField (name : String) : Except PyErr Int := do
  match ← getField raw name with
  | none => return 0
  | some (.int n) => return n
  | some _ => throw .typeError

def metadataField : Except PyErr Metadata := do
  match ← getField raw "metadata" with
  | some (.obj fields) =>
    if distinct : (Json.obj fields).distinct = true then return ⟨fields, distinct⟩
    else return .empty
  | _ => return .empty

theorem metadataField_eq {raw : Json} {m : Metadata}
    (found : getField raw "metadata" = .ok (some m.toJson)) : metadataField raw = .ok m := by
  rw [metadataField, found]
  exact dif_pos m.distinct

def compositeOf : Except PyErr Composite := do
  let model ← strField raw "model" ""
  let compatKey ← strField raw "compat_key" ""
  let keyHex ← strField raw "key_hex" ""
  match fromHex keyHex.toList with
  | none => throw .valueError
  | some key => return ⟨model, compatKey, key⟩

def checksumOf (entries : Json) : String :=
  "sha256:" ++ cfg.platform.sha256 (dumps entries.sortKeys)

def snapshotText (entries : List Json) : List Char :=
  dumps (sortKeys (.obj [("version", .int 1), ("geometry", .obj [("slot_bytes", .int cfg.slotBytes),
      ("container_bytes", .int cfg.containerBytes)]),
    ("checksum", .str (checksumOf cfg (.arr entries))), ("entries", .arr entries)]))

/-- The primary is replaced atomically and the old one becomes the backup. -/
def writeSnapshot : TablespaceDisk :=
  { disk with
    snapshot := some text
    snapshotBak := if disk.snapshot.isSome then disk.snapshot else disk.snapshotBak }

def isInt (x : Option Json) (n : Nat) : Bool :=
  match x with
  | some (.int m) => m = n
  | _ => false

/-- The entries of one snapshot file, if it parses and its checksum and geometry match. -/
def snapshotEntries : Option Json :=
  match loads text with
  | some (.obj fields) =>
    match fields.lookup "entries", fields.lookup "checksum", fields.lookup "geometry" with
    | some entries, some (.str checksum), some (.obj geometry) =>
      if checksum = checksumOf cfg entries ∧ isInt (geometry.lookup "slot_bytes") cfg.slotBytes ∧
          isInt (geometry.lookup "container_bytes") cfg.containerBytes then some entries
      else none
    | _, _, _ => none
  | _ => none

def readSnapshot : Except PyErr (List Json) :=
  match (disk.snapshot.bind (snapshotEntries cfg)).or
      (disk.snapshotBak.bind (snapshotEntries cfg)) with
  | none => .ok []
  | some (.arr entries) => .ok entries
  | some _ => .error .typeError

namespace TablespaceLongRegion

def snapshotRecord (e : TablespaceEntry) : Json :=
  .obj [("key_hex", .str (hexText e.key)), ("container", .int e.containerIdx),
    ("slot", .int e.slotIdx), ("size", .int e.sizeBytes), ("retention", .str e.retention.toString),
    ("model", .str e.model), ("compat_key", .str e.compatKey), ("metadata", e.metadata.toJson)]

variable (r : TablespaceLongRegion) (clk : Clock) (c : Composite) (cfg : TablespaceConfig)
  (disk : TablespaceDisk) (slotGlobal : Nat) (allocator : BitsetAllocator) (value : Bytes)
  (retention : Retention) (metadata : Metadata) (fault : Option WriteFault)

/-- Write the index to the snapshot and drop the journal; raises like `json.dumps`. -/
def snapshotNow : Except PyErr TablespaceLongRegion :=
  let entries := r.entries.values.map snapshotRecord
  if encodableAll entries then
    .ok { r with disk := { writeSnapshot r.disk (snapshotText r.cfg entries) with journal := [] } }
  else .error .typeError

def applyOp (index : Dict Composite Json) (op : Json) : Except PyErr (Dict Composite Json) := do
  match ← getField op "op" with
  | some (.str kind) =>
    if kind = "PUT" then return index.set (← compositeOf op) op
    else if kind = "DEL" then return index.erase (← compositeOf op)
    else return index
  | _ => return index

def replayIndex : Except PyErr (Dict Composite Json) := do
  let snapshot ← readSnapshot cfg disk
  let index ← snapshot.foldlM (fun index raw => return index.set (← compositeOf raw) raw) .empty
  (readAll disk.journal).foldlM applyOp index

/-- The entry of a raw record, or nothing when it is malformed. -/
def admitRecord (now : ℚ) (c : Composite) (raw : Json) : Except PyErr (Option TablespaceEntry) := do
  let container ← intField raw "container"
  let slot ← intField raw "slot"
  let size ← intField raw "size"
  if container < 0 ∨ container ≥ cfg.numContainers ∨ slot < 0 ∨ slot ≥ cfg.slotsPerContainer ∨
      size ≤ 0 ∨ size > cfg.slotBytes then return none
  else
    let retention ← strField raw "retention" "long"
    let metadata ← metadataField raw
    return some
      { key := c.key, containerIdx := container.toNat, slotIdx := slot.toNat
        sizeBytes := size.toNat, retention := (Retention.ofString? retention).getD .long
        model := c.model, compatKey := c.compatKey, lastAccess := now, metadata }

def restoreEntry (e : TablespaceEntry) : TablespaceLongRegion :=
  { r with
    allocator := r.allocator.markUsed (e.slotGlobal r.cfg)
    entries := r.entries.set c e
    usedBytes := r.usedBytes + e.sizeBytes }

def populate (r : TablespaceLongRegion) (clk : Clock) :
    List (Composite × Json) → Except PyErr TablespaceLongRegion
  | [] => .ok { r with allocator := r.allocator.recomputeState }
  | (c, raw) :: rest =>
    match admitRecord r.cfg (clk 0) c raw with
    | .error err => .error err
    | .ok none => r.populate clk rest
    | .ok (some e) => (r.restoreEntry c e).populate (clk.after 1) rest

def new : TablespaceLongRegion :=
  { cfg, started := false, allocator := cfg.newAllocator, entries := .empty, usedBytes := 0, disk }

def start : Except PyErr TablespaceLongRegion :=
  if r.started then .ok r
  else
    match replayIndex r.cfg r.disk with
    | .error err => .error err
    | .ok index =>
      match (new r.cfg r.disk).populate clk index.items with
      | .error err => .error err
      | .ok restored => .ok { restored with started := true }

/-- A last snapshot, then the files are closed. What `json.dumps` raises escapes and leaves the
region as it was. -/
def shutdown : Except PyErr TablespaceLongRegion :=
  if r.started = false then .ok r
  else
    match r.snapshotNow with
    | .error err => .error err
    | .ok persisted => .ok { persisted with started := false }

/-- The process dies and a new one starts over the same directory. -/
def restart : Except PyErr TablespaceLongRegion :=
  (new r.cfg r.disk).start clk

def getEntry : Option TablespaceEntry := r.entries.get? c

def getBytes : TablespaceLongRegion × Option Bytes :=
  match r.entries.get? c with
  | none => (r, none)
  | some e =>
    ({ r with entries := r.entries.set c { e with lastAccess := clk 0 } },
      if e.sizeBytes = 0 ∨ e.sizeBytes > r.cfg.slotBytes ∨ r.started = false ∨
          e.containerIdx ≥ r.cfg.numContainers then none
      else some (r.disk.slotBytes e.containerIdx e.slotIdx e.sizeBytes))

def olderVictim (best : Option (Composite × ℚ)) (row : Composite × TablespaceEntry) :
    Option (Composite × ℚ) :=
  match best with
  | none => some (row.1, row.2.lastAccess)
  | some (c, t) => if row.2.lastAccess < t then some (row.1, row.2.lastAccess) else some (c, t)

def pickLruVictim : Option Composite :=
  (r.entries.items.foldl olderVictim none).map Prod.fst

def evict : TablespaceLongRegion :=
  match r.entries.get? c with
  | none => r
  | some e =>
    { r with
      entries := r.entries.erase c
      allocator := r.allocator.free (e.slotGlobal r.cfg)
      usedBytes := max 0 (r.usedBytes - e.sizeBytes) }

def hasRoom (size : Nat) : Bool :=
  r.allocator.numFree ≠ 0 && r.usedBytes + size ≤ r.cfg.maxBytes

/-- Evict until there is room; as many rounds as there are entries suffice. -/
def makeRoom : Nat → TablespaceLongRegion → Nat → TablespaceLongRegion × Bool
  | 0, r, size => (r, r.hasRoom size)
  | fuel + 1, r, size =>
    if r.hasRoom size then (r, true)
    else
      match r.pickLruVictim with
      | none => (r, false)
      | some victim => makeRoom fuel (r.evict victim) size

/-- A failed container write: the error and what it left in the slot. -/
structure WriteFault where
  message : String
  left : Nat → UInt8

def keyHash (c : Composite) : Nat :=
  cfg.platform.blake2b
    (c.model.toUTF8.toList ++ [0] ++ c.compatKey.toUTF8.toList ++ [0] ++ c.key)

section
variable (e : TablespaceEntry)

def seat (value : Bytes) (allocator : BitsetAllocator) (usedBytes : Int) : TablespaceLongRegion :=
  { r with
    allocator, usedBytes
    entries := r.entries.set c e
    disk := r.disk.written r.cfg e.containerIdx e.slotIdx value }

def journalPut (retention : Retention) (metadata : Metadata) :
    TablespaceLongRegion × Except PyErr (Bool × Option String) :=
  match r.disk.journalAppend (putRecord c e.containerIdx e.slotIdx e.sizeBytes retention metadata
      (r.cfg.platform.timeRepr (clk 1))) with
  | .error err => (r, .error err)
  | .ok disk => ({ r with disk }, .ok (true, none))

/-- The update of a resident block, in its slot. A failed write drops the entry; the slot stays
taken. -/
def overwrite
    (value : Bytes) (retention : Retention) (metadata : Metadata) (fault : Option WriteFault) :
    TablespaceLongRegion × Except PyErr (Bool × Option String) :=
  match fault with
  | some fault =>
    ({ r with
      entries := r.entries.erase c
      usedBytes := max 0 r.usedBytes
      disk := r.disk.setSlot e.containerIdx e.slotIdx fault.left },
      .ok (false, some ("disk_write_failed: " ++ fault.message)))
  | none =>
    let updated := { e with sizeBytes := value.length, lastAccess := clk 0, metadata }
    (r.seat c updated value r.allocator (r.usedBytes + (value.length - e.sizeBytes : Int))).journalPut
      clk c updated retention metadata

end

/-- A block in the slot just allocated. A failed write gives the slot back. -/
def insertAt : TablespaceLongRegion × Except PyErr (Bool × Option String) :=
  let container := slotGlobal / r.cfg.slotsPerContainer
  let slot := slotGlobal % r.cfg.slotsPerContainer
  match fault with
  | some fault =>
    ({ r with
      allocator := allocator.free slotGlobal
      usedBytes := max 0 r.usedBytes
      disk := r.disk.setSlot container slot fault.left },
      .ok (false, some ("disk_write_failed: " ++ fault.message)))
  | none =>
    let entry : TablespaceEntry :=
      { key := c.key, containerIdx := container, slotIdx := slot, sizeBytes := value.length
        retention, model := c.model, compatKey := c.compatKey, lastAccess := clk 0, metadata }
    (r.seat c entry value allocator (r.usedBytes + value.length)).journalPut clk c entry retention
      metadata

def put : TablespaceLongRegion × Except PyErr (Bool × Option String) :=
  if retention ≠ .long then
    (r, .ok (false, some "tablespace_long_only_accepts_long_retention"))
  else if r.started = false then (r, .ok (false, some "region_not_started"))
  else if value.length = 0 then (r, .ok (false, some "empty_value"))
  else if value.length > r.cfg.slotBytes then
    (r, .ok (false, some ("value_exceeds_slot_bytes (" ++ toString value.length ++ " > " ++
      toString r.cfg.slotBytes ++ ")")))
  else
    match r.entries.get? c with
    | some e => r.overwrite clk c e value retention metadata fault
    | none =>
      let room := makeRoom r.entries.items.length r value.length
      if room.2 = false then (room.1, .ok (false, some "tablespace_full_no_victim"))
      else
        match room.1.allocator.alloc (keyHash r.cfg c) with
        | none => (room.1, .ok (false, some "tablespace_alloc_failed"))
        | some (slotGlobal, allocator) =>
          room.1.insertAt clk c slotGlobal allocator value retention metadata fault

def remove : TablespaceLongRegion × Bool :=
  match r.entries.get? c with
  | none => (r, false)
  | some e =>
    ({ r with
      entries := r.entries.erase c
      allocator := r.allocator.free (e.slotGlobal r.cfg)
      usedBytes := max 0 (r.usedBytes - e.sizeBytes)
      disk := { r.disk with journal := r.disk.journal ++ line (delRecord c) } }, true)

def emptied : TablespaceLongRegion :=
  { r with entries := .empty, allocator := r.cfg.newAllocator, usedBytes := 0 }

/-- Drop everything and persist the empty index. -/
def clear (r : TablespaceLongRegion) : TablespaceLongRegion × Nat :=
  match r.emptied.snapshotNow with
  | .error _ => (r.emptied, r.entries.items.length)
  | .ok persisted => (persisted, r.entries.items.length)

/-- The store's namespace clear removes the matching entries one by one. -/
def clearNamespace (model compatKey : String) : TablespaceLongRegion :=
  (r.entries.keys.filter fun c => c.model = model ∧ c.compatKey = compatKey).foldl
    (fun r c => (r.remove c).1) r

end TablespaceLongRegion
end Infera.Kvd
