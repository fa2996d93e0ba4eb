import Infera.Kvd.HostStore
import Infera.Runs

/-! The daemon's request dispatch over one host store. A request is handled
without an `await` between its store operations, so it is one step; an exception
that escapes becomes an error response and keeps the state reached. The other
steps are a connection's end, one item of the prefetch worker, and an engine
storing bytes into a slot it holds a lease on, through its own mapping.

Hints, statistics and greetings do not touch the store. The prefetch queue and
its counters are not modelled: the worker may warm any composite at any time. -/

namespace Infera.Kvd

inductive Message where
  | get (c : Composite)
  | batchGet (keys : List Bytes) (model compatKey : String)
  | set (c : Composite) (value : Bytes) (retention : String) (metadata : Metadata) (ttl : Option ℚ)
  | batchSet (keys values : List Bytes) (retentions : List String) (metadatas : List Metadata)
      (ttls : Option (List (Option ℚ))) (model compatKey : String)
  | setReserve (size : Int)
  | setCommit (token : Nat) (c : Composite) (length : Int) (retention : String) (ttl : ℚ)
  | setCancel (token : Nat)
  | exists (keys : List Bytes) (model compatKey : String)
  | clear (model compatKey : String)

/-- One position of a shared batch response: payload offset (`-1` for a miss), length, version. -/
structure SlotTriple where
  offset : Int
  length : Nat
  version : Nat
  deriving DecidableEq

inductive Response where
  | getResponse (value : Option Bytes) (retention : Option Retention)
  | getSharedResponse (triple : SlotTriple) (retention : Retention) (slotSize : Nat)
  | batchGetResponse (values : List (Option Bytes)) (retentions : List (Option Retention))
  | batchGetSharedResponse (triples : List SlotTriple) (retentions : List (Option Retention))
      (slotSize : Nat)
  | setAck (accepted : Bool) (reason : Option String)
  | batchSetAck (accepted : List Bool) (reasons : List (Option String))
  | setReserveResponse (token : Nat) (slotId : Int) (payloadOffset payloadMaxSize : Nat)
      (reason : String)
  | setCommitResponse (accepted : Bool) (reason : String)
  | setCancelResponse
  | existsResponse (present : List Bool)
  | clearAck (cleared : Nat)
  | errorMessage (code : String)
  deriving DecidableEq

namespace Server
variable {σ ρ : Type} (arena : SharedArena)
open HostStore

def missTriple : SlotTriple := ⟨-1, 0, 0⟩

def entryTriple (e : Entry) : Option SlotTriple :=
  (arena.getSlotMetadata e.slotId).map fun m => ⟨m.1, m.2.1, m.2.2⟩

/-- The response to `Get` for an entry: a slot triple for a shared-arena client, else bytes. -/
def respondEntry (st : HostStore σ ρ) (shared : Bool) (e : Entry) : Response :=
  if shared ∧ e.slotId ≥ 0 then
    match st.sharedArena with
    | none => .errorMessage "internal_error"
    | some arena =>
      match entryTriple arena e with
      | none =>
        let value := st.resolveValue e
        .getResponse (if value = [] then none else some value) (some e.retention)
      | some triple => .getSharedResponse triple e.retention arena.slotSize
  else .getResponse (some (st.resolveValue e)) (some e.retention)

/-- One position of a shared batch: inline entries are reported as misses. -/
def sharedPosition (e : Option Entry) : SlotTriple × Option Retention :=
  match e with
  | none => (missTriple, none)
  | some e =>
    if e.slotId < 0 then (missTriple, none)
    else
      match entryTriple arena e with
      | none => (missTriple, none)
      | some triple => (triple, some e.retention)

def respondBatch (st : HostStore σ ρ) (shared : Bool) (entries : List (Option Entry)) : Response :=
  match shared, st.sharedArena with
  | true, some arena =>
    .batchGetSharedResponse (entries.map fun e => (sharedPosition arena e).1)
      (entries.map fun e => (sharedPosition arena e).2) arena.slotSize
  | _, _ =>
    .batchGetResponse (entries.map fun e => e.map st.resolveValue)
      (entries.map fun e => e.map Entry.retention)

def reserveReason (size : Int) : String :=
  if arena.slotSize > 0 ∧ size + 16 > arena.slotSize then "oversize"
  else if size > arena.capacity then "oversize"
  else "arena_full_no_evictable"

def dispatchReserve (st : HostStore σ ρ) (connectionId : Nat) (size : Int) :
    HostStore σ ρ × Response :=
  match st.sharedArena with
  | none => (st, .setReserveResponse 0 (-1) 0 0 "no_arena")
  | some arena =>
    let reserved := arena.reserve size connectionId
    let st := st.setArena reserved.1
    match reserved.2 with
    | .error _ => (st, .errorMessage "internal_error")
    | .ok none => (st, .setReserveResponse 0 (-1) 0 0 (reserveReason reserved.1 size))
    | .ok (some (token, slot, offset)) =>
      (st, .setReserveResponse token slot offset (reserved.1.slotSize - 16) "")

/-- `"default"` and the empty string stand for `short`. -/
def commitRetention (retention : String) : Option Retention :=
  if retention = "default" ∨ retention = "" then some .short else Retention.ofString? retention

/-- The slot id handed to the store: `get_slot_for_key(key) or -1`. -/
def slotOrMinusOne (slot : Option Nat) : Int :=
  match slot with
  | none => -1
  | some 0 => -1
  | some slot => slot

def dispatchCommit (st : HostStore σ ρ) (connectionId : Nat) (clk : Clock) (token : Nat)
    (c : Composite) (length : Int) (retention : String) (ttl : ℚ) : HostStore σ ρ × Response :=
  match st.sharedArena with
  | none => (st, .setCommitResponse false "no_arena")
  | some arena =>
    match commitRetention retention with
    | none => (st, .setCommitResponse false "bad_retention")
    | some retention =>
      let committed := arena.commitReservation token c.key length connectionId
      match committed.2 with
      | .error _ => (st.setArena committed.1, .errorMessage "internal_error")
      | .ok (.refused reason) =>
        (st.setArena committed.1, .setCommitResponse false reason)
      | .ok (.committed overwritten) =>
        let found := committed.1.getSlotForKey c.key
        let st := (st.setArena found.1).commitArenaLease clk c (slotOrMinusOne found.2) length.toNat retention
          (if ttl > 0 then some ttl else none) overwritten
        let bytes := (found.2.map fun slot => (found.1.slots slot).bytes length.toNat).getD []
        (st.recordAccepted c bytes, .setCommitResponse true "")

variable [Region σ] [Region ρ]

def dispatchSet (st : HostStore σ ρ) (clk : Clock) (c : Composite) (value : Bytes)
    (retention : String) (metadata : Metadata) (ttl : Option ℚ) :
    HostStore σ ρ × Except PyErr (Bool × Option String) :=
  match Retention.ofString? retention with
  | none => (st, .error .valueError)
  | some retention => st.set clk c value retention metadata ttl

structure BatchItem where
  key : Bytes
  value : Bytes
  retention : String
  metadata : Metadata
  ttl : Option ℚ

def batchItems (keys values : List Bytes) (retentions : List String) (metadatas : List Metadata)
    (ttls : Option (List (Option ℚ))) : List BatchItem :=
  let ttls := ttls.getD (keys.map fun _ => none)
  (keys.zip (values.zip (retentions.zip (metadatas.zip ttls)))).map fun item =>
    ⟨item.1, item.2.1, item.2.2.1, item.2.2.2.1, item.2.2.2.2⟩

/-- The loop of `BatchSet`; an exception ends it and keeps the earlier items. -/
def dispatchSets (model compatKey : String) : HostStore σ ρ → Clock → List BatchItem →
    HostStore σ ρ × Except PyErr (List (Bool × Option String))
  | st, _, [] => (st, .ok [])
  | st, clk, item :: items =>
    let one := dispatchSet st clk ⟨model, compatKey, item.key⟩ item.value item.retention
      item.metadata item.ttl
    match one.2 with
    | .error err => (one.1, .error err)
    | .ok answer =>
      let rest := dispatchSets model compatKey one.1 (clk.after 4) items
      (rest.1, rest.2.map (answer :: ·))

def dispatch (st : HostStore σ ρ) (connectionId : Nat) (shared : Bool) (clk : Clock) :
    Message → HostStore σ ρ × Response
  | .get c =>
    let found := st.get clk c
    match found.2 with
    | .error _ => (found.1, .errorMessage "internal_error")
    | .ok none => (found.1, .getResponse none none)
    | .ok (some e) => (found.1, respondEntry found.1 shared e)
  | .batchGet keys model compatKey =>
    let found := st.getMany clk (keys.map fun k => ⟨model, compatKey, k⟩)
    match found.2 with
    | .error _ => (found.1, .errorMessage "internal_error")
    | .ok entries => (found.1, respondBatch found.1 shared entries)
  | .set c value retention metadata ttl =>
    let stored := dispatchSet st clk c value retention metadata ttl
    match stored.2 with
    | .error _ => (stored.1, .errorMessage "internal_error")
    | .ok (accepted, reason) => (stored.1, .setAck accepted reason)
  | .batchSet keys values retentions metadatas ttls model compatKey =>
    let n := keys.length
    if values.length = n ∧ retentions.length = n ∧ metadatas.length = n ∧
        ttls.all (fun ttls => ttls.length = n) then
      let stored := dispatchSets model compatKey st clk
        (batchItems keys values retentions metadatas ttls)
      match stored.2 with
      | .error _ => (stored.1, .errorMessage "internal_error")
      | .ok answers => (stored.1, .batchSetAck (answers.map Prod.fst) (answers.map Prod.snd))
    else (st, .errorMessage "batch_set_arity_mismatch")
  | .setReserve size => dispatchReserve st connectionId size
  | .setCommit token c length retention ttl =>
    dispatchCommit st connectionId clk token c length retention ttl
  | .setCancel token =>
    (st.mapArena fun arena => (arena.cancelReservation token connectionId).1, .setCancelResponse)
  | .exists keys model compatKey =>
    let present := st.existsKeys clk (keys.map fun k => ⟨model, compatKey, k⟩)
    (present.1, .existsResponse present.2)
  | .clear model compatKey =>
    let cleared := st.clear model compatKey
    (cleared.1, .clearAck cleared.2)

inductive Event where
  | request (connectionId : Nat) (shared : Bool) (clk : Clock) (msg : Message)
  | disconnect (connectionId : Nat)
  | prefetch (clk : Clock) (c : Composite) (deadlineMs : Int)
  | engineWrite (token offset : Nat) (data : Bytes)

/-- The engine stores only into the payload range of a slot it holds a lease on. -/
def engineStore (token offset : Nat) (data : Bytes) : SharedArena :=
  match arena.reservations.get? token with
  | none => arena
  | some lease =>
    if offset + data.length + headerBytes ≤ arena.slotSize then
      arena.engineWrite lease.slotId offset data
    else arena

def step (st : HostStore σ ρ) : Event → HostStore σ ρ
  | .request connectionId shared clk msg => (dispatch st connectionId shared clk msg).1
  | .disconnect connectionId =>
    st.mapArena fun arena => (arena.cancelConnectionReservations connectionId).1
  | .prefetch clk c deadlineMs =>
    (st.warmFromSsd clk c (max ((deadlineMs : ℚ) / 1000) (1 / 1000))).1
  | .engineWrite token offset data =>
    st.mapArena fun arena => engineStore arena token offset data

end Server
end Infera.Kvd
