import Infera.Roster
import Infera.Router.KvEvent

/-! Which workers the Rust client subscribes to. A registration is decided on
once per decision key: an old subscription with its view is torn down when the
key changes, and a record without an endpoint (unless events come over the bus)
or without a block size is declined. A subscription has one thread per rank,
each with its own endpoint; over the bus it is only a view to write into.
Log lines, and the role that sets their severity, are not modelled. -/

namespace Infera.Router
open Function Dict

structure Worker where
  workerId : String
  kvEventsEndpoint : Option String
  kvBlockSize : Option Int
  dpSize : Option Int
  dpRank : Option Int
  deriving DecidableEq

structure DecisionKey where
  endpoint : Option String
  blockSize : Option Int
  dpSize : Option Int
  dpRank : Option Int
  deriving DecidableEq

variable (w : Worker) (endpoint : String) (sep : Char) (s : List Char)

def DecisionKey.of : DecisionKey :=
  { endpoint := w.kvEventsEndpoint, blockSize := w.kvBlockSize, dpSize := w.dpSize,
    dpRank := w.dpRank }

/-- The endpoint to connect to; an empty one is none. -/
def Worker.endpoint? : Option String := w.kvEventsEndpoint.filter (· ≠ "")

/-- The block size to build the view at; a missing one is not a 1. -/
def resolveBlockSize : Option ℕ := (w.kvBlockSize.filter (0 < ·)).map Int.toNat

def rsplitOnce : Option (List Char × List Char) :=
  match s.reverse.span (· ≠ sep) with
  | (after, _ :: before) => some (before.reverse, after.reverse)
  | (_, []) => none

def parseDigits : Option ℕ :=
  if s ≠ [] ∧ s.all Char.isDigit then
    some (s.foldl (fun n c => 10 * n + (c.toNat - '0'.toNat)) 0)
  else none

/-- `parse::<i64>`: an optional sign and digits, in range. -/
def parseI64 : Option Int :=
  let value : Option Int := match s with
    | '-' :: digits => (parseDigits digits).map fun n => -(n : Int)
    | '+' :: digits => (parseDigits digits).map fun n => (n : Int)
    | digits => (parseDigits digits).map fun n => (n : Int)
  value.filter fun n => -2 ^ 63 ≤ n ∧ n < 2 ^ 63

/-- Rank `r` publishes on the base port plus `r`. -/
def offsetEndpoint (rank : Int) : String :=
  if rank = 0 then endpoint
  else
    match rsplitOnce ':' endpoint.toList with
    | none => endpoint
    | some (head, port) =>
      match parseI64 port with
      | none => endpoint
      | some p => String.ofList head ++ ":" ++ toString (p + rank)

/-- One subscriber per rank of a multiplexed worker, else one. -/
def rankEndpoints : List (Int × String) :=
  let multiplexed := w.dpSize.getD 1 > 1 ∧ w.dpRank = none
  let nRanks := if multiplexed then w.dpSize.getD 1 else 1
  (List.range nRanks.toNat).map fun r => ((r : Int), offsetEndpoint endpoint r)

/-- The client with its subscriber threads, by rank and endpoint, and the keys it has decided. -/
structure FleetClient extends KvEventClient where
  natsFed : Bool
  threads : Dict String (List (Int × String))
  decided : Dict String DecisionKey

inductive Message where
  | batch (rank : Int) (events : List (Event UInt64 UInt32)) (now : Readings)
  | seed (rank : Int) (snapshot : List UInt64) (now : Instant)
  | drop (rank : Int)
  /-- The rank's sequence went backwards: its publisher was replaced. -/
  | restarted (rank : Int)
  | flushTaken (now : Int → Instant)

def WorkerViews.receive (xxh3_64 : List UInt8 → UInt64) (wv : WorkerViews) : Message → WorkerViews
  | .batch rank events now => wv.applyEvents xxh3_64 rank events now
  | .seed rank snapshot now => wv.seedRankView rank snapshot now
  | .drop rank => wv.dropRankView rank
  | .restarted rank => wv.resetRank rank
  | .flushTaken now => (wv.takeFlushRequest now).2

namespace FleetClient

def new (natsFed : Bool) : FleetClient :=
  { state := .empty, natsFed, threads := .empty, decided := .empty }

variable (c : FleetClient) (w : Worker)

/-- The threads are stopped and joined before the view goes. -/
def onWorkerRemoved (workerId : String) : FleetClient :=
  { c with
    decided := c.decided.erase workerId
    threads := c.threads.erase workerId
    state := c.state.erase workerId }

/-- Over the bus there is no socket to open. -/
def track : FleetClient :=
  match resolveBlockSize w with
  | none => c
  | some blockSize =>
    if c.state.contains w.workerId then c
    else { c with state := c.state.set w.workerId (.new blockSize) }

def subscribe (endpoint : String) : FleetClient :=
  if c.threads.contains w.workerId then c
  else
    match resolveBlockSize w with
    | none => c
    | some blockSize =>
      { c with
        state := c.state.set w.workerId (.new blockSize)
        threads := c.threads.set w.workerId (rankEndpoints w endpoint) }

/-- The decision is recorded, also when it is to decline. -/
def decideOn : FleetClient :=
  let c := { c with decided := c.decided.set w.workerId (.of w) }
  if c.natsFed then c.track w
  else
    match w.endpoint? with
    | some endpoint => c.subscribe w endpoint
    | none => c

def onWorkerAdded : FleetClient :=
  match c.decided.get? w.workerId with
  | some prev => if prev = .of w then c else (c.onWorkerRemoved w.workerId).decideOn w
  | none => c.decideOn w

/-- Reconcile against the active fleet: departures from `decided`, then every worker. -/
def sync (workers : List Worker) : FleetClient :=
  let departed := c.decided.keys.filter fun id => id ∉ workers.map Worker.workerId
  workers.foldl onWorkerAdded (departed.foldl onWorkerRemoved c)

instance lawfulSource : LawfulBEq (Int × String) := inferInstance

def listens (workerId : String) (rank : Int) (endpoint : String) : Bool :=
  (rank, endpoint) ∈ (c.threads.get? workerId).getD []

/-- A message for a worker that is not tracked is dropped. -/
def receive (xxh3_64 : List UInt8 → UInt64) (c : FleetClient) (workerId : String) (m : Message) :
    FleetClient :=
  { c with toKvEventClient := c.onWorker workerId (·.receive xxh3_64 m) }

end FleetClient

def Worker.Qualifies (natsFed : Bool) (w : Worker) : Prop :=
  (natsFed = true ∨ w.endpoint? ≠ none) ∧ resolveBlockSize w ≠ none

instance (natsFed : Bool) (w : Worker) : Decidable (w.Qualifies natsFed) := by
  unfold Worker.Qualifies
  infer_instance

namespace FleetClient

def freshView (natsFed : Bool) (w : Worker) : Option WorkerViews :=
  if w.Qualifies natsFed then (resolveBlockSize w).map .new else none

def freshThreads (natsFed : Bool) (w : Worker) : Option (List (Int × String)) :=
  if natsFed = false ∧ w.Qualifies natsFed then w.endpoint?.map (rankEndpoints w) else none

theorem qualifies_congr {w w' : Worker} (same : DecisionKey.of w' = .of w) (natsFed : Bool) :
    w'.Qualifies natsFed ↔ w.Qualifies natsFed := by
  simp only [DecisionKey.of, DecisionKey.mk.injEq] at same
  simp [Worker.Qualifies, Worker.endpoint?, resolveBlockSize, same]

variable (natsFed : Bool)

section
variable (w w' : Worker) (same : DecisionKey.of w' = .of w)
include same

theorem freshView_congr : freshView natsFed w' = freshView natsFed w := by
  have qualifies := qualifies_congr same natsFed
  simp only [DecisionKey.of, DecisionKey.mk.injEq] at same
  simp [freshView, qualifies, resolveBlockSize, same]

theorem freshThreads_congr : freshThreads natsFed w' = freshThreads natsFed w := by
  have qualifies := qualifies_congr same natsFed
  simp only [DecisionKey.of, DecisionKey.mk.injEq] at same
  simp only [freshThreads, qualifies, Worker.endpoint?, same]
  congr 2
  funext endpoint
  simp [rankEndpoints, same]

end

theorem isSome_freshView_iff (w : Worker) : (freshView natsFed w).isSome ↔ w.Qualifies natsFed := by
  unfold freshView
  split_ifs with qualifies
  · simpa [qualifies, Option.isSome_iff_ne_none] using qualifies.2
  · simp [qualifies]

theorem isSome_freshThreads_iff (w : Worker) :
    (freshThreads natsFed w).isSome ↔ natsFed = false ∧ w.Qualifies natsFed := by
  unfold freshThreads
  split_ifs with opens
  · obtain ⟨rfl, qualifies⟩ := opens
    simpa [qualifies, Option.isSome_iff_ne_none] using qualifies.1
  · simp [opens]

/-- What `c'` has for the worker is what the record calls for; the rest is as in `c`. -/
structure Settled (c : FleetClient) (w : Worker) (c' : FleetClient) : Prop where
  decided : c'.decided.get? = update c.decided.get? w.workerId (some (.of w))
  natsFed : c'.natsFed = c.natsFed
  state : c'.state.get? = update c.state.get? w.workerId (freshView c.natsFed w)
  threads : c'.threads.get? = update c.threads.get? w.workerId (freshThreads c.natsFed w)

theorem settled_decideOn {c : FleetClient} {w : Worker} (untracked : c.state.get? w.workerId = none)
    (unsubscribed : c.threads.get? w.workerId = none) : c.Settled w (c.decideOn w) := by
  have noState : c.state.get? = update c.state.get? w.workerId none := by
    rw [← untracked, update_eq_self]
  have noThreads : c.threads.get? = update c.threads.get? w.workerId none := by
    rw [← unsubscribed, update_eq_self]
  have fresh : c.state.contains w.workerId = false := by rw [Dict.contains, untracked]; rfl
  have free : c.threads.contains w.workerId = false := by rw [Dict.contains, unsubscribed]; rfl
  -- the branches of the source, in its order
  by_cases fed : c.natsFed = true
  · cases size : resolveBlockSize w with
    | none =>
      constructor <;> simp [decideOn, track, freshView, freshThreads, fed, size, ← noState,
        ← noThreads, get?_set_eq_update]
    | some blockSize =>
      have qualifies : w.Qualifies true := ⟨.inl rfl, by simp [size]⟩
      constructor <;> simp [decideOn, track, freshView, freshThreads, fed, size, qualifies, fresh,
        ← noThreads, get?_set_eq_update]
  · rw [Bool.not_eq_true] at fed
    cases connect : w.endpoint? with
    | none =>
      have declined : ¬w.Qualifies false := by simp [Worker.Qualifies, connect]
      constructor <;> simp [decideOn, freshView, freshThreads, fed, connect, declined, ← noState,
        ← noThreads, get?_set_eq_update]
    | some endpoint =>
      cases size : resolveBlockSize w with
      | none =>
        have declined : ¬w.Qualifies false := fun qualifies => qualifies.2 size
        constructor <;> simp [decideOn, subscribe, freshView, freshThreads, fed, connect, size,
          declined, ← noState, ← noThreads, get?_set_eq_update]
      | some blockSize =>
        have qualifies : w.Qualifies false := ⟨.inr (by simp [connect]), by simp [size]⟩
        constructor <;> simp [decideOn, subscribe, freshView, freshThreads, fed, connect, size,
          qualifies, free, get?_set_eq_update]

theorem Settled.of_removed {c c' : FleetClient} {w : Worker}
    (settled : (c.onWorkerRemoved w.workerId).Settled w c') : c.Settled w c' where
  decided := by
    rw [settled.decided, onWorkerRemoved, get?_erase_eq_update, update_idem]
  natsFed := settled.natsFed
  state := by
    rw [settled.state, onWorkerRemoved, get?_erase_eq_update, update_idem]
  threads := by
    rw [settled.threads, onWorkerRemoved, get?_erase_eq_update, update_idem]

theorem get?_receive (xxh3_64 : List UInt8 → UInt64) (c : FleetClient) (workerId : String)
    (m : Message) : (c.receive xxh3_64 workerId m).state.get? = update c.state.get? workerId
        ((c.state.get? workerId).map fun wv => wv.receive xxh3_64 m) := by
  funext id
  rw [receive, KvEventClient.get?_onWorker, update_apply]

end FleetClient
end Infera.Router
