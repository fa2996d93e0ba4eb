import Infera.Kvd.Region
import Infera.Kvd.SharedArena

/-! The host store: RAM rows over an optional shared arena, with optional
spillover and long regions below. Every method takes the store and returns it
with a result; an exception leaves the state reached when it was raised.

`Entry` objects are mutable and shared with the callers of `get_many`, so each
carries an object identity, `oid`. `accepted` is a history variable: the blocks
stored by accepted writes, newest first. No operation reads it. -/

namespace Infera.Kvd

structure Entry where
  oid : Nat
  key : Bytes
  value : Bytes
  retention : Retention
  model : String
  compatKey : String
  metadata : Metadata
  lastAccess : ℚ
  expiresAt : Option ℚ
  /-- `-1` for inline storage in `value`. -/
  slotId : Int
  sizeCache : Nat

namespace Entry

def sizeBytes (e : Entry) : Nat := if e.slotId ≥ 0 then e.sizeCache else e.value.length

def inlineBytes (e : Entry) : Nat := if e.slotId ≥ 0 then 0 else e.value.length

def priority (e : Entry) : Nat := e.retention.priority

def isExpired (e : Entry) (now : ℚ) : Bool :=
  match e.expiresAt with
  | none => false
  | some deadline => decide (now ≥ deadline)

end Entry

structure StoreStats where
  gets : Nat := 0
  sets : Nat := 0
  hits : Nat := 0
  misses : Nat := 0
  evictions : Nat := 0
  setRejections : Nat := 0

/-- A short-retention victim's block, to be written to the spillover region. -/
structure Spill where
  composite : Composite
  value : Bytes
  metadata : Metadata

structure HostStore (σ ρ : Type) where
  maxBytes : Nat
  usedBytes : Int
  entries : Dict Composite Entry
  keyIndex : Dict Bytes (List Composite)
  sharedArena : Option SharedArena
  spillover : Option σ
  longRegion : Option ρ
  stats : StoreStats
  nextOid : Nat
  accepted : List (Composite × Bytes)

namespace HostStore
variable {σ ρ : Type} (st : HostStore σ ρ) (clk : Clock) (index : Dict Bytes (List Composite))
  (c : Composite) (e : Entry) (value : Bytes) (slot : Option Nat) (retention : Retention)
  (metadata : Metadata) (lastAccess : ℚ) (expiresAt : Option ℚ)

def new (maxBytes : Nat) (sharedArena : Option SharedArena) (spillover : Option σ)
    (longRegion : Option ρ) (accepted : List (Composite × Bytes)) : HostStore σ ρ :=
  { maxBytes, usedBytes := 0, entries := .empty, keyIndex := .empty, sharedArena, spillover,
    longRegion, stats := {}, nextOid := 0, accepted }

def countGet : HostStore σ ρ :=
  { st with stats := { st.stats with gets := st.stats.gets + 1 } }

def countSet : HostStore σ ρ :=
  { st with stats := { st.stats with sets := st.stats.sets + 1 } }

def countHit : HostStore σ ρ :=
  { st with stats := { st.stats with hits := st.stats.hits + 1 } }

def countMisses (n : Nat) : HostStore σ ρ :=
  { st with stats := { st.stats with misses := st.stats.misses + n } }

def countEviction : HostStore σ ρ :=
  { st with stats := { st.stats with evictions := st.stats.evictions + 1 } }

def countRejection : HostStore σ ρ :=
  { st with stats := { st.stats with setRejections := st.stats.setRejections + 1 } }

def setArena (arena : SharedArena) : HostStore σ ρ :=
  { st with sharedArena := some arena }

def setSpillover (region : σ) : HostStore σ ρ :=
  { st with spillover := some region }

def setLongRegion (region : ρ) : HostStore σ ρ :=
  { st with longRegion := some region }

def mapArena (f : SharedArena → SharedArena) : HostStore σ ρ :=
  match st.sharedArena with
  | none => st
  | some arena => st.setArena (f arena)

def recordAccepted : HostStore σ ρ :=
  { st with accepted := (c, value) :: st.accepted }

/-- An arena-backed row reads its slot; a torn or missing slot reads as empty. -/
def resolveValue : Bytes :=
  if e.slotId < 0 then e.value
  else
    match st.sharedArena with
    | none => []
    | some arena => (arena.getSlice e.slotId).getD []

def keyIndexAdd : Dict Bytes (List Composite) :=
  match index.get? c.key with
  | none => index.set c.key [c]
  | some bucket => if c ∈ bucket then index else index.set c.key (bucket ++ [c])

def keyIndexRemove : Dict Bytes (List Composite) :=
  match index.get? c.key with
  | none => index
  | some bucket =>
    let rest := bucket.filter fun c' => c' ≠ c
    if rest = [] then index.erase c.key else index.set c.key rest

def dropRow : HostStore σ ρ :=
  match st.entries.get? c with
  | none => st
  | some e =>
    { st with
      entries := st.entries.erase c
      keyIndex := keyIndexRemove st.keyIndex c
      usedBytes := st.usedBytes - e.inlineBytes }

/-- `evict_key(entry.key, notify_drain=False)` for an arena-backed entry. -/
def releaseSlot : HostStore σ ρ :=
  if e.slotId ≥ 0 then st.mapArena fun arena => (arena.evictKey e.key false).1 else st

def removeEntry : HostStore σ ρ :=
  (st.dropRow c).releaseSlot e

def evict : HostStore σ ρ :=
  match st.entries.get? c with
  | none => st
  | some e => (st.removeEntry c e).countEviction

def dropEvicted : HostStore σ ρ :=
  match st.entries.get? c with
  | none => st
  | some _ => (st.dropRow c).countEviction

/-- Every row under the raw key, in all namespaces. -/
def bucket (key : Bytes) : List Composite := (st.keyIndex.get? key).getD []

def dropBucket (key : Bytes) : HostStore σ ρ :=
  (st.bucket key).foldl dropEvicted st

def drainEvicted : HostStore σ ρ :=
  match st.sharedArena with
  | none => st
  | some arena =>
    arena.drainRecentEvictions.2.foldl dropBucket (st.setArena arena.drainRecentEvictions.1)

/-- The scan of `_pick_victim`: composite, priority and last access of the best so far. -/
def betterVictim (incoming : Nat) (best : Option (Composite × Nat × ℚ)) (row : Composite × Entry) :
    Option (Composite × Nat × ℚ) :=
  if row.2.priority > incoming then best
  else
    match best with
    | none => some (row.1, row.2.priority, row.2.lastAccess)
    | some (c, priority, lastAccess) =>
      if row.2.priority < priority ∨
          (row.2.priority = priority ∧ row.2.lastAccess < lastAccess) then
        some (row.1, row.2.priority, row.2.lastAccess)
      else some (c, priority, lastAccess)

def pickVictim : Option Composite :=
  (st.entries.items.foldl (betterVictim retention.priority) none).map Prod.fst

def collectForSpillover : Option Spill :=
  match st.spillover, st.entries.get? c with
  | some _, some e =>
    if e.retention = .short then
      some ⟨⟨e.model, e.compatKey, e.key⟩, st.resolveValue e, e.metadata⟩
    else none
  | _, _ => none

/-- The eviction loop, one row an iteration; `none` when only protected rows are left.
As many iterations as there are rows always suffice. -/
def makeRoom : Nat → HostStore σ ρ → Nat → Retention → List Spill →
    HostStore σ ρ × Option (List Spill)
  | 0, st, demand, _, spills =>
    if st.usedBytes + demand ≤ st.maxBytes then (st, some spills) else (st.countRejection, none)
  | fuel + 1, st, demand, retention, spills =>
    if st.usedBytes + demand ≤ st.maxBytes then (st, some spills)
    else
      match st.pickVictim retention with
      | none => (st.countRejection, none)
      | some victim =>
        makeRoom fuel (st.evict victim) demand retention
          (spills ++ (st.collectForSpillover victim).toList)

/-- Push the bytes into the arena; `none` means they stay inline. -/
def storeBytes (key value : Bytes) : HostStore σ ρ × Except PyErr (Option Nat) :=
  match st.sharedArena with
  | none => (st, .ok none)
  | some arena => (st.setArena (arena.put key value).1, (arena.put key value).2)

inductive RowResult where
  | rejected (reason : String)
  | stored (spills : List Spill)

/-- The update of a present row. Without an arena only `value` changes place. -/
def overwriteEntry : Entry :=
  let e := match st.sharedArena, slot with
    | none, _ => { e with value := value }
    | some _, none => { e with value := value, slotId := -1, sizeCache := 0 }
    | some _, some slot => { e with value := [], slotId := slot, sizeCache := value.length }
  { e with retention, metadata, lastAccess, expiresAt }

def overwriteRow : HostStore σ ρ × Except PyErr RowResult :=
  if retention.priority < e.priority then
    (st.countRejection, .ok (.rejected "retention_downgrade_not_allowed"))
  else
    let put := st.storeBytes c.key value
    match put.2 with
    | .error err => (put.1, .error err)
    | .ok slot =>
      let e' := st.overwriteEntry e value slot retention metadata (clk 1) expiresAt
      ({ put.1 with
        entries := put.1.entries.set c e'
        usedBytes := put.1.usedBytes + (e'.inlineBytes - e.inlineBytes : Int) },
        .ok (.stored []))

def newEntry (oid : Nat) (c : Composite) (value : Bytes) (slot : Option Nat)
    (retention : Retention) (metadata : Metadata) (lastAccess : ℚ) (expiresAt : Option ℚ) : Entry :=
  { oid, key := c.key, retention, model := c.model, compatKey := c.compatKey, metadata,
    lastAccess, expiresAt
    value := if slot.isSome then [] else value
    slotId := match slot with | none => -1 | some slot => slot
    sizeCache := if slot.isSome then value.length else 0 }

def wouldUseArena (size : Nat) : Bool :=
  match st.sharedArena with
  | none => false
  | some arena => arena.wouldAcceptSize size

def inlineDemand (size : Nat) : Nat :=
  if st.wouldUseArena size then 0 else size

def insertRow : HostStore σ ρ × Except PyErr RowResult :=
  let demand := st.inlineDemand value.length
  if demand > st.maxBytes then (st.countRejection, .ok (.rejected "value_larger_than_store"))
  else
    let room := makeRoom st.entries.items.length st demand retention []
    match room.2 with
    | none => (room.1, .ok (.rejected "would_displace_higher_priority"))
    | some spills =>
      let put := room.1.storeBytes c.key value
      match put.2 with
      | .error err => (put.1, .error err)
      | .ok slot =>
        let e := newEntry put.1.nextOid c value slot retention metadata (clk 1) expiresAt
        ({ put.1 with
          entries := put.1.entries.set c e
          keyIndex := keyIndexAdd put.1.keyIndex c
          usedBytes := put.1.usedBytes + e.inlineBytes
          nextOid := put.1.nextOid + 1 },
          .ok (.stored spills))

def setRow : HostStore σ ρ × Except PyErr RowResult :=
  match st.entries.get? c with
  | some e => st.overwriteRow clk c e value retention metadata expiresAt
  | none => st.insertRow clk c value retention metadata expiresAt

variable [Region σ] [Region ρ]

def flushSpills (st : HostStore σ ρ) (clk : Clock) : List Spill → HostStore σ ρ × Except PyErr Unit
  | [] => (st, .ok ())
  | spill :: spills =>
    match st.spillover with
    | none => (st, .ok ())
    | some region =>
      let put := Region.put region clk spill.composite spill.value .short spill.metadata
      match put.2 with
      | .error err => (st.setSpillover put.1, .error err)
      | .ok _ => flushSpills (st.setSpillover put.1) (clk.after 1) spills

variable (st : HostStore σ ρ) (clk : Clock) (cs : List Composite) (results : List (Option Entry))

def writeThrough (c : Composite) (retention : Retention) : HostStore σ ρ × Except PyErr Unit :=
  match retention, st.longRegion, st.entries.get? c with
  | .long, some region, some current =>
    let put := Region.put region clk c (st.resolveValue current) .long current.metadata
    (st.setLongRegion put.1, put.2.map fun _ => ())
  | _, _, _ => (st, .ok ())

section
variable (c : Composite) (value : Bytes) (retention : Retention) (metadata : Metadata)

def setLive (expiresAt : Option ℚ) : HostStore σ ρ × Except PyErr (Bool × Option String) :=
  let row := st.countSet.setRow clk c value retention metadata expiresAt
  match row.2 with
  | .error err => (row.1, .error err)
  | .ok (.rejected reason) => (row.1, .ok (false, some reason))
  | .ok (.stored spills) =>
    let flushed := row.1.drainEvicted.flushSpills (clk.after 2) spills
    match flushed.2 with
    | .error err => (flushed.1, .error err)
    | .ok () =>
      let written := flushed.1.writeThrough (clk.after (2 + spills.length)) c retention
      match written.2 with
      | .error err => (written.1, .error err)
      | .ok () => (written.1.recordAccepted c value, .ok (true, none))

/-- A time to live of zero or less counts as a set and stores nothing. -/
def set (ttl : Option ℚ) : HostStore σ ρ × Except PyErr (Bool × Option String) :=
  match ttl with
  | none => st.setLive clk c value retention metadata none
  | some t =>
    if t ≤ 0 then (st.countSet, .ok (true, none))
    else st.setLive clk c value retention metadata (some (clk 0 + t))

end

/-- A block found in a lower tier, with the retention and metadata it is promoted with. -/
structure Fetched where
  value : Bytes
  retention : Retention
  metadata : Metadata

def fetchFrom {τ : Type} [Region τ] (region : τ) (clk : Clock) (c : Composite) :
    τ × Option Fetched :=
  match Region.getEntry region c with
  | none => (region, none)
  | some (retention, metadata) =>
    let read := Region.getBytes region clk c
    (read.1, read.2.map fun value => ⟨value, retention, metadata⟩)

section
variable (c : Composite)

def fetchLong : HostStore σ ρ × Option Fetched :=
  match st.longRegion with
  | none => (st, none)
  | some region => (st.setLongRegion (fetchFrom region clk c).1, (fetchFrom region clk c).2)

def fetchSpill : HostStore σ ρ × Option Fetched :=
  match st.spillover with
  | none => (st, none)
  | some region => (st.setSpillover (fetchFrom region clk c).1, (fetchFrom region clk c).2)

/-- Bring a block back into RAM. A rejected `set` yields a one-off entry that is not cached;
an accepted one yields the row, which the drain may already have dropped. -/
def promoteFromSsd (f : Fetched) : HostStore σ ρ × Except PyErr (Option Entry) :=
  let stored := st.set clk c f.value f.retention f.metadata none
  match stored.2 with
  | .error err => (stored.1, .error err)
  | .ok (true, _) => (stored.1, .ok (stored.1.entries.get? c))
  | .ok (false, _) =>
    ({ stored.1 with nextOid := stored.1.nextOid + 1 },
      .ok (some (newEntry stored.1.nextOid c f.value none f.retention f.metadata (clk 2) none)))

def promoteFetched (fetched : Option Fetched) : HostStore σ ρ × Except PyErr (Option Entry) :=
  match fetched with
  | none => (st, .ok none)
  | some f =>
    let promoted := st.promoteFromSsd clk c f
    match promoted.2 with
    | .ok (some e) => (promoted.1.countHit, .ok (some e))
    | other => (promoted.1, other)

/-- A RAM miss of `get`: the long region, then spillover. -/
def getBelow : HostStore σ ρ × Except PyErr (Option Entry) :=
  let fetched := st.fetchLong clk c
  let long := fetched.1.promoteFetched (clk.after 1) c fetched.2
  match long.2 with
  | .error err => (long.1, .error err)
  | .ok (some e) => (long.1, .ok (some e))
  | .ok none =>
    let fetched := long.1.fetchSpill (clk.after 4) c
    let spill := fetched.1.promoteFetched (clk.after 5) c fetched.2
    match spill.2 with
    | .ok none => (spill.1.countMisses 1, .ok none)
    | other => (spill.1, other)

end

def get (st : HostStore σ ρ) (clk : Clock) (c : Composite) :
    HostStore σ ρ × Except PyErr (Option Entry) :=
  let st := st.countGet
  match st.entries.get? c with
  | some e =>
    if e.isExpired (clk 0) then ((st.removeEntry c e).countMisses 1, .ok none)
    else
      let e := { e with lastAccess := clk 1 }
      ({ st with entries := st.entries.set c e }.countHit, .ok (some e))
  | none => st.getBelow clk c

def existsRam (st : HostStore σ ρ) (now : ℚ) : List Composite → HostStore σ ρ × List Bool
  | [] => (st, [])
  | c :: cs =>
    match st.entries.get? c with
    | none => let rest := st.existsRam now cs; (rest.1, false :: rest.2)
    | some e =>
      if e.isExpired now then
        let rest := (st.removeEntry c e).existsRam now cs
        (rest.1, false :: rest.2)
      else let rest := st.existsRam now cs; (rest.1, true :: rest.2)

def patchPresent {τ : Type} [Region τ] (region : Option τ) (cs : List Composite)
    (present : List Bool) : List Bool :=
  match region with
  | none => present
  | some region => List.zipWith (fun a c => a || Region.contains region c) present cs

def existsKeys : HostStore σ ρ × List Bool :=
  let ram := st.existsRam (clk 0) cs
  if ram.2.all id then ram
  else
    let present := patchPresent ram.1.longRegion cs ram.2
    if present.all id then (ram.1, present)
    else (ram.1, patchPresent ram.1.spillover cs present)

def getManyRam (st : HostStore σ ρ) (now : ℚ) : List Composite → HostStore σ ρ × List (Option Entry)
  | [] => (st, [])
  | c :: cs =>
    let st := st.countGet
    match st.entries.get? c with
    | none => let rest := st.getManyRam now cs; (rest.1, none :: rest.2)
    | some e =>
      if e.isExpired now then
        let rest := (st.removeEntry c e).getManyRam now cs
        (rest.1, none :: rest.2)
      else
        let e := { e with lastAccess := now }
        let rest := { st with entries := st.entries.set c e }.countHit.getManyRam now cs
        (rest.1, some e :: rest.2)

/-- The row object a promotion of `c` mutates in place, as the mutation leaves it. -/
def mutated (st : HostStore σ ρ) (clk : Clock) (c : Composite) (f : Fetched) : Option Entry :=
  match st.entries.get? c, (st.countSet.setRow clk c f.value f.retention f.metadata none) with
  | some _, (row, .ok (.stored _)) => row.entries.get? c
  | _, _ => none

/-- Collected results that are the mutated object see the mutation. -/
def refresh (object : Option Entry) (results : List (Option Entry)) : List (Option Entry) :=
  match object with
  | none => results
  | some e => results.map fun r => r.map fun e' => if e'.oid = e.oid then e else e'

/-- One pass of `get_many` over a lower tier: at every missing position, fetch and promote. -/
def fillMisses (fetch : HostStore σ ρ → Clock → Nat → Composite → HostStore σ ρ × Option Fetched) :
    HostStore σ ρ → Clock → List (Nat × Composite) → List (Option Entry) →
    HostStore σ ρ × Except PyErr (List (Option Entry))
  | st, _, [], results => (st, .ok results)
  | st, clk, (i, c) :: rest, results =>
    let fetched := fetch st clk i c
    match fetched.2 with
    | none => fillMisses fetch fetched.1 (clk.after 4) rest results
    | some f =>
      let promoted := fetched.1.promoteFetched (clk.after 1) c (some f)
      match promoted.2 with
      | .error err => (promoted.1, .error err)
      | .ok found =>
        let results := refresh (fetched.1.mutated (clk.after 1) c f) results
        fillMisses fetch promoted.1 (clk.after 4) rest (results.set i found)

def missing : List (Nat × Composite) :=
  ((List.range cs.length).zip (cs.zip results)).filterMap fun p =>
    if p.2.2.isSome then none else some (p.1, p.2.1)

def readBatch (misses : List (Nat × Composite)) : HostStore σ ρ × Option (List (Option Bytes)) :=
  match st.longRegion, (Region.getBytesBatch : Option (ρ → _)) with
  | some region, some batch =>
    let read := batch region clk (misses.map Prod.snd)
    (st.setLongRegion read.1,
      match read.2 with
      | .ok vals => if vals.length = misses.length then some vals else none
      | .error _ => none)
  | _, _ => (st, none)

/-- The long-region pass: batched values are promoted as `long` without metadata. -/
def getManyLong : HostStore σ ρ × Except PyErr (List (Option Entry)) :=
  let misses := missing cs results
  if misses = [] then (st, .ok results)
  else
    let batch := st.readBatch clk misses
    match batch.2 with
    | some vals =>
      let fetch := fun (st : HostStore σ ρ) (_ : Clock) (i : Nat) (_ : Composite) =>
        (st, ((((misses.map Prod.fst).zip vals).lookup i).join).map fun value =>
          (⟨value, .long, .empty⟩ : Fetched))
      fillMisses fetch batch.1 (clk.after 1) misses results
    | none =>
      fillMisses (fun st clk _ c => st.fetchLong clk c) batch.1 (clk.after 1) misses results

def getMany : HostStore σ ρ × Except PyErr (List (Option Entry)) :=
  let ram := st.getManyRam (clk 0) cs
  let long := ram.1.getManyLong (clk.after 1) cs ram.2
  match long.2 with
  | .error err => (long.1, .error err)
  | .ok results =>
    let spill := fillMisses (fun st clk _ c => st.fetchSpill clk c) long.1
      (clk.after (2 + 4 * cs.length)) (missing cs results) results
    match spill.2 with
    | .error err => (spill.1, .error err)
    | .ok results => (spill.1.countMisses (missing cs results).length, .ok results)

/-- `warm_from_ssd`: a `none` retention below is warmed as `short`. -/
def warmFromSsd (c : Composite) (ttl : ℚ) : HostStore σ ρ × Except PyErr Bool :=
  if st.entries.contains c then (st, .ok false)
  else
    let long := st.fetchLong clk c
    let found := match long.2 with
      | some f => (long.1, some f)
      | none => long.1.fetchSpill (clk.after 1) c
    match found.2 with
    | none => (found.1, .ok false)
    | some f =>
      let retention := if f.retention = .none then .short else f.retention
      let stored := found.1.set (clk.after 2) c f.value retention .empty (some (max ttl (1 / 1000)))
      (stored.1, stored.2.map Prod.fst)

/-- The rows of a key whose old slot the commit replaced. -/
def dropOverwritten (overwrittenKey : Option Bytes) : HostStore σ ρ :=
  match overwrittenKey with
  | none => st
  | some key => (st.bucket key).foldl dropRow st

def seatLease (c : Composite) (slotId : Int) (length : Nat)
    (retention : Retention) (expiresAt : Option ℚ) : HostStore σ ρ :=
  match st.entries.get? c with
  | some e =>
    { st with
      entries := st.entries.set c
        { e with
          value := [], slotId, sizeCache := length, retention, lastAccess := clk 1, expiresAt }
      usedBytes := st.usedBytes - e.inlineBytes }
  | none =>
    { st with
      entries := st.entries.set c
        { oid := st.nextOid, key := c.key, value := [], retention, model := c.model
          compatKey := c.compatKey, metadata := .empty, lastAccess := clk 1, expiresAt, slotId
          sizeCache := length }
      keyIndex := keyIndexAdd st.keyIndex c
      nextOid := st.nextOid + 1 }

def leaseDeadline (ttl : Option ℚ) : Option ℚ :=
  match ttl with
  | some t => if t > 0 then some (clk 0 + t) else none
  | none => none

def commitArenaLease (c : Composite) (slotId : Int)
    (length : Nat) (retention : Retention) (ttl : Option ℚ) (overwrittenKey : Option Bytes) :
    HostStore σ ρ :=
  ((st.countSet.dropOverwritten overwrittenKey).seatLease clk c slotId length retention
    (leaseDeadline clk ttl)).drainEvicted

def clearRow (c : Composite) : HostStore σ ρ :=
  match st.entries.get? c with
  | none => st
  | some e => st.removeEntry c e

/-- Two empty strings clear every row and both tiers; otherwise one namespace. -/
def clear (st : HostStore σ ρ) (model compatKey : String) : HostStore σ ρ × Nat :=
  if model = "" ∧ compatKey = "" then
    let freed := st.entries.values.foldl releaseSlot st
    ({ freed with
      entries := .empty
      keyIndex := .empty
      usedBytes := 0
      spillover := st.spillover.map Region.clear
      longRegion := st.longRegion.map Region.clear }, st.entries.items.length)
  else
    let toDrop := st.entries.keys.filter fun c => c.model = model ∧ c.compatKey = compatKey
    let dropped := toDrop.foldl clearRow st
    ({ dropped with
      spillover := st.spillover.map fun r => Region.clearNamespace r model compatKey
      longRegion := st.longRegion.map fun r => Region.clearNamespace r model compatKey },
      toDrop.length)

end HostStore
end Infera.Kvd
