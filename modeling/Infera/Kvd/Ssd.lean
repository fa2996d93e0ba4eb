import Infera.Base64
import Infera.Kvd.Tablespace
import Infera.Router.Hasher
import Infera.Sha256
import Infera.UrlQuote

/-! The file-per-block SSD regions. Each block is a data file and a sidecar of
fixed size in a directory named by the hash of its composite; the in-memory
index is rebuilt from the sidecars when a long region starts.

A file appears under its name all at once, as `os.replace` makes it, so no
temporary file outlives a call. A write may fail with `OSError`, given as the
`DiskFault` that names the stage. `_to_wall` and `_from_wall` read two clocks;
what they give during one call is the `WallClock` of that call. -/

namespace Infera.Kvd
open Json JsonText

variable (c : Composite)

/-- `_encode_composite`: model, compat key and the key in base64, joined by bars. -/
def encodeComposite : List Char :=
  c.model.toList ++ '|' :: (c.compatKey.toList ++ '|' :: Base64.encode c.key)

def splitBar : List Char → Option (List Char × List Char)
  | [] => none
  | c :: cs => if c = '|' then some ([], cs) else (splitBar cs).map fun p => (c :: p.1, p.2)

/-- `_decode_composite`: split at the first two bars; `none` is its `ValueError`. -/
def decodeComposite (text : List Char) : Option Composite := do
  let (model, rest) ← splitBar text
  let (compatKey, keyText) ← splitBar rest
  let key ← Base64.decode keyText
  return ⟨String.ofList model, String.ofList compatKey, key⟩

def dataExt : List Char := ".kvcache".toList

def metadataExt : List Char := ".kvcache.metadata".toList

def filenameForComposite : List Char := UrlQuote.quote (encodeComposite c)

def dataName : List Char := filenameForComposite c ++ dataExt

def metadataName : List Char := filenameForComposite c ++ metadataExt

/-- The two directory levels `{XX}/{YY}`. -/
structure Shard where
  outer : List Char
  inner : List Char
  deriving DecidableEq

def compositeHash : List Char :=
  Sha256.hexdigest ((encodeComposite c).flatMap String.utf8EncodeChar)

def shardOf : Shard :=
  ⟨(compositeHash c).take 2, ((compositeHash c).drop 2).take 2⟩

/-- Only directories of two lower-case hexadecimal digits are scanned. -/
def Shard.scanned (s : Shard) : Bool :=
  s.outer.length = 2 && s.outer.all Sha256.isLowerHex &&
    (s.inner.length = 2 && s.inner.all Sha256.isLowerHex)

def sidecarVersion : ℕ := 1

def sidecarHeaderLenBytes : ℕ := 8

def sidecarTotalBytes : ℕ := 4096

def sidecarRoom : ℕ := sidecarTotalBytes - sidecarHeaderLenBytes

inductive SidecarFailure where
  | typeError
  | tooLarge (length : ℕ)

def sidecarText (payload : Json) : List Char := dumps payload.sortKeys

def encodeSidecar (payload : Json) : Except SidecarFailure Bytes :=
  if payload.encodable = false then .error .typeError
  else
    let json := (sidecarText payload).flatMap String.utf8EncodeChar
    if json.length > sidecarRoom then .error (.tooLarge json.length)
    else
      .ok (Router.leBytes sidecarHeaderLenBytes json.length ++ json ++
        List.replicate (sidecarRoom - json.length) 0)

def leNat (bytes : Bytes) : ℕ := bytes.foldr (fun b acc => b.toNat + 256 * acc) 0

def decodeSidecar (blob : Bytes) : Option Json := do
  if blob.length ≠ sidecarTotalBytes then none
  else
    let n := leNat (blob.take sidecarHeaderLenBytes)
    if n > sidecarRoom then none
    else
      let text ← ((blob.drop sidecarHeaderLenBytes).take n).toByteArray.utf8Decode?
      loads text.toList

structure SsdEntry where
  key : Bytes
  sizeBytes : ℕ
  retention : String
  model : String
  compatKey : String
  insertedAt : ℚ
  lastAccess : ℚ
  metadata : Metadata

def SsdEntry.composite (e : SsdEntry) : Composite := ⟨e.model, e.compatKey, e.key⟩

/-- The wall clock as one call sees it. -/
structure WallClock where
  /-- `_to_wall`, as `json.dumps` writes the float. -/
  toWall : ℚ → JsonFloat
  /-- `_from_wall` of a float read back. -/
  fromWall : JsonFloat → ℚ
  /-- `_from_wall(time.time())`. -/
  now : ℚ

abbrev Folder := Dict (List Char) Bytes

abbrev SsdDisk := Dict Shard Folder

namespace SsdDisk

variable (disk : SsdDisk) (shard : Shard) (name : List Char)

def read : Option Bytes :=
  (disk.get? shard).bind (·.get? name)

def write (bytes : Bytes) : SsdDisk :=
  disk.set shard (((disk.get? shard).getD .empty).set name bytes)

def unlink : SsdDisk :=
  match disk.get? shard with
  | none => disk
  | some folder => disk.set shard (folder.erase name)

end SsdDisk

structure SsdRegion where
  maxBytes : ℕ
  entries : Dict Composite SsdEntry
  usedBytes : Int
  disk : SsdDisk

/-- Where a block write meets an `OSError`. -/
inductive DiskFault where
  | data (message : String)
  | sidecar (message : String)

/-- What leaves `_write_block_file_unlocked`. -/
inductive WriteError where
  | osError (message : String)
  | sidecarError (length : ℕ)
  | typeError

variable (wall : WallClock) (folder : Folder)

def sidecarPayload (e : SsdEntry) (value : Bytes) : Json :=
  .obj [("version", .int sidecarVersion), ("retention", .str e.retention),
    ("size_bytes", .int e.sizeBytes), ("inserted_at", .float (wall.toWall e.insertedAt)),
    ("last_access", .float (wall.toWall e.lastAccess)), ("model", .str e.model),
    ("compat_key", .str e.compatKey),
    ("value_sha256", .str (String.ofList (Sha256.hexdigest value))),
    ("metadata", e.metadata.toJson)]

section
variable (disk : SsdDisk) (wall : WallClock) (e : SsdEntry) (value : Bytes)

/-- The second half of a block write, once the data file is in place. -/
def writeSidecar (fault : Option String) : SsdDisk × Except WriteError Unit :=
  match encodeSidecar (sidecarPayload wall e value) with
  | .error .typeError => (disk, .error .typeError)
  | .error (.tooLarge length) => (disk, .error (.sidecarError length))
  | .ok blob =>
    match fault with
    | some message => (disk, .error (.osError message))
    | none => (disk.write (shardOf e.composite) (metadataName e.composite) blob, .ok ())

/-- Data first, then the sidecar. -/
def writeBlockFile (fault : Option DiskFault) : SsdDisk × Except WriteError Unit :=
  let stored := disk.write (shardOf e.composite) (dataName e.composite) value
  match fault with
  | some (.data message) => (disk, .error (.osError message))
  | some (.sidecar message) => writeSidecar stored wall e value (some message)
  | none => writeSidecar stored wall e value none

end

namespace SsdRegion

variable (r : SsdRegion) (c : Composite) (e : SsdEntry) (clk : Clock)

def dataFile : Option Bytes := r.disk.read (shardOf c) (dataName c)

def sidecarFile : Option Bytes :=
  r.disk.read (shardOf c) (metadataName c)

def deleteBlockFiles (disk : SsdDisk) (e : SsdEntry) : SsdDisk :=
  (disk.unlink (shardOf e.composite) (dataName e.composite)).unlink (shardOf e.composite)
    (metadataName e.composite)

def getEntry : Option SsdEntry := r.entries.get? c

def forget : SsdRegion :=
  { r with entries := r.entries.erase c, usedBytes := max 0 (r.usedBytes - e.sizeBytes) }

def getBytes (c : Composite) : SsdRegion × Option Bytes :=
  match r.entries.get? c with
  | none => (r, none)
  | some e =>
    match r.dataFile e.composite with
    | some value => ({ r with entries := r.entries.set c { e with lastAccess := clk 0 } }, some value)
    | none => (r.forget c e, none)

def evict : SsdRegion :=
  match r.entries.get? c with
  | none => r
  | some e => { r.forget c e with disk := deleteBlockFiles r.disk e }

def remove : SsdRegion × Bool :=
  match r.entries.get? c with
  | none => (r, false)
  | some _ => (r.evict c, true)

def clear : SsdRegion × ℕ :=
  ({ r with
    entries := .empty
    usedBytes := 0
    disk := r.entries.values.foldl deleteBlockFiles r.disk }, r.entries.items.length)

/-- The scan for the smallest access time; the first of equals wins. -/
def olderEntry (best : Option (Composite × ℚ)) (row : Composite × SsdEntry) :
    Option (Composite × ℚ) :=
  match best with
  | none => some (row.1, row.2.lastAccess)
  | some (c, t) => if row.2.lastAccess < t then some (row.1, row.2.lastAccess) else some (c, t)

def pickLruVictim : Option Composite :=
  (r.entries.items.foldl olderEntry none).map Prod.fst

/-- Evict until there is room; as many rounds as there are entries suffice. -/
def makeRoom : ℕ → SsdRegion → ℕ → SsdRegion × Bool
  | 0, r, size => (r, decide (r.usedBytes + size ≤ r.maxBytes))
  | fuel + 1, r, size =>
    if r.usedBytes + size ≤ r.maxBytes then (r, true)
    else
      match r.pickLruVictim with
      | none => (r, false)
      | some victim => makeRoom fuel (r.evict victim) size

/-- What the two regions' `put` differ in. -/
structure Policy where
  retention : Retention
  refusal : String
  full : String

/-- Disk write outside the lock; a failed one takes the entry back out of the index. -/
def commit (wall : WallClock) (c : Composite) (e : SsdEntry) (value : Bytes)
    (fault : Option DiskFault) : SsdRegion × Except PyErr (Bool × Option String) :=
  let written := writeBlockFile r.disk wall e value fault
  let after := { r with disk := written.1 }
  match written.2 with
  | .ok () => (after, .ok (true, none))
  | .error (.osError message) =>
    (after.forget c e, .ok (false, some ("disk_write_failed: " ++ message)))
  | .error (.sidecarError length) =>
    (after.forget c e, .ok (false, some ("disk_write_failed: sidecar payload too large: " ++
      toString length ++ " > " ++ toString sidecarRoom ++ " bytes")))
  | .error .typeError => (after, .error .typeError)

def updated (value : Bytes) (metadata : Metadata) : SsdEntry :=
  { e with sizeBytes := value.length, lastAccess := clk 0, metadata }

def fresh (c : Composite) (value : Bytes) (retention : Retention)
    (metadata : Metadata) : SsdEntry :=
  { key := c.key, sizeBytes := value.length, retention := retention.toString, model := c.model
    compatKey := c.compatKey, insertedAt := clk 0, lastAccess := clk 1, metadata }

def put (policy : Policy) (r : SsdRegion) (clk : Clock) (wall : WallClock) (c : Composite)
    (value : Bytes) (retention : Retention) (metadata : Metadata) (fault : Option DiskFault) :
    SsdRegion × Except PyErr (Bool × Option String) :=
  if retention ≠ policy.retention then (r, .ok (false, some policy.refusal))
  else if value.length > r.maxBytes then (r, .ok (false, some "value_larger_than_region"))
  else
    match r.entries.get? c with
    | some e =>
      -- the update in place makes no room for a larger value
      commit { r with
        entries := r.entries.set c (updated e clk value metadata)
        usedBytes := r.usedBytes + (value.length - e.sizeBytes : Int) }
        wall c (updated e clk value metadata) value fault
    | none =>
      let room := makeRoom r.entries.items.length r value.length
      if room.2 = false then (room.1, .ok (false, some policy.full))
      else
        commit { room.1 with
          entries := room.1.entries.set c (fresh clk c value retention metadata)
          usedBytes := room.1.usedBytes + value.length }
          wall c (fresh clk c value retention metadata) value fault

end SsdRegion

inductive LeafFile where
  | tmp
  | sidecar (stem : List Char)
  | data (stem : List Char)
  | other

def tmpMark : List Char := ".tmp.".toList

def classify (name : List Char) : LeafFile :=
  if tmpMark <:+: name then .tmp
  else if metadataExt <:+ name then .sidecar (name.take (name.length - metadataExt.length))
  else if dataExt <:+ name then .data (name.take (name.length - dataExt.length))
  else .other

def LeafFile.dataStem? : LeafFile → Option (List Char)
  | data stem => some stem
  | _ => none

def LeafFile.sidecarStem? : LeafFile → Option (List Char)
  | sidecar stem => some stem
  | _ => none

def dataStems : List (List Char) :=
  folder.keys.filterMap fun name => (classify name).dataStem?

def metaStems : List (List Char) :=
  folder.keys.filterMap fun name => (classify name).sidecarStem?

local instance lawfulText : LawfulBEq (List Char) := inferInstance

/-- Temporary files and data files without a sidecar are unlinked. -/
def reclaim : Folder :=
  folder.filter fun name _ =>
    match classify name with
    | .tmp => false
    | .data stem => decide (stem ∈ metaStems folder)
    | _ => true

section
variable (payload : Json)

def floatField (name : String) : Except PyErr ℚ := do
  match ← getField payload name with
  | none => return wall.now
  | some (.float x) => return wall.fromWall x
  | some _ => throw .typeError

def sizeField : Except PyErr Int := do
  match ← getField payload "size_bytes" with
  | none => return -1
  | some (.int n) => return n
  | some _ => throw .typeError

/-- One field of the sidecar against the name of the file. -/
def names (field text : String) : Except PyErr Bool := do
  match ← getField payload field with
  | some (.str s) => return s = text
  | _ => return false

/-- The entry a parsed sidecar stands for, `none` where the pair is dropped. -/
def recoverEntry (stem : List Char) (value : Bytes) : Except PyErr (Option SsdEntry) := do
  if isInt (← getField payload "version") sidecarVersion = false then return none
  else
    match (UrlQuote.unquote stem).bind decodeComposite with
    | none => return none
    | some c =>
      let sameModel ← names payload "model" c.model
      let sameCompat ← names payload "compat_key" c.compatKey
      if (sameModel && sameCompat) = false then return none
      else
        let declared ← sizeField payload
        if (value.length : Int) ≠ declared then return none
        else
          let retention ← strField payload "retention" Retention.long.toString
          let insertedAt ← floatField wall payload "inserted_at"
          let lastAccess ← floatField wall payload "last_access"
          let metadata ← metadataField payload
          return some { key := c.key, sizeBytes := value.length, retention, model := c.model
                        compatKey := c.compatKey, insertedAt, lastAccess, metadata }

end

def readPair (stems : List (List Char)) (folder : Folder) (stem : List Char) :
    Except PyErr (Option SsdEntry) :=
  if stem ∉ stems then .ok none
  else
    match folder.get? (stem ++ metadataExt), folder.get? (stem ++ dataExt) with
    | some blob, some value =>
      match decodeSidecar blob with
      | none => .ok none
      | some payload => recoverEntry wall payload stem value
    | _, _ => .ok none

/-- The sidecars of one directory in turn; a dropped pair is unlinked. -/
def scanStems (wall : WallClock) (stems : List (List Char)) :
    List (List Char) → Folder → Except PyErr (Folder × List SsdEntry)
  | [], folder => .ok (folder, [])
  | stem :: rest, folder => do
    match ← readPair wall stems folder stem with
    | none =>
      scanStems wall stems rest ((folder.erase (stem ++ dataExt)).erase (stem ++ metadataExt))
    | some e => do
      let more ← scanStems wall stems rest folder
      return (more.1, e :: more.2)

def scanLeaf : Except PyErr (Folder × List SsdEntry) :=
  scanStems wall (dataStems folder) (metaStems folder) (reclaim folder)

def scanDisk (wall : WallClock) :
    List (Shard × Folder) → SsdDisk → Except PyErr (SsdDisk × List SsdEntry)
  | [], disk => .ok (disk, [])
  | (shard, folder) :: rest, disk =>
    if shard.scanned then do
      let leaf ← scanLeaf wall folder
      let more ← scanDisk wall rest (disk.set shard leaf.1)
      return (more.1, leaf.2 ++ more.2)
    else scanDisk wall rest disk

namespace LongStorageRegion

def policy : SsdRegion.Policy :=
  ⟨.long, "long_region_only_accepts_long_retention", "long_region_full_no_victim"⟩

def new (maxBytes : ℕ) (disk : SsdDisk) : SsdRegion := ⟨maxBytes, .empty, 0, disk⟩

/-- Rebuild the index from the sidecars found on disk. -/
def start (r : SsdRegion) (wall : WallClock) : Except PyErr SsdRegion := do
  let (disk, found) ← scanDisk wall r.disk.items r.disk
  return { r with
    disk
    entries := Dict.empty.assign (found.map fun e => (e.composite, e))
    usedBytes := (found.map fun e => (e.sizeBytes : Int)).sum }

def put (r : SsdRegion) (clk : Clock) (wall : WallClock) (c : Composite) (value : Bytes)
    (retention : Retention) (metadata : Metadata) (fault : Option DiskFault) :
    SsdRegion × Except PyErr (Bool × Option String) :=
  r.put policy clk wall c value retention metadata fault

end LongStorageRegion

namespace SpilloverRegion

def policy : SsdRegion.Policy :=
  ⟨.short, "spillover_only_accepts_short_retention", "spillover_full_no_victim"⟩

def start (r : SsdRegion) : SsdRegion :=
  { r with entries := .empty, usedBytes := 0, disk := r.disk.filter fun shard _ => !shard.scanned }

end SpilloverRegion
end Infera.Kvd
