import Infera.Router.PyClient

/-! Registrations in place, in both routers. Next to each client runs the roster
of the fleet: the latest record of every worker and the messages delivered since
its decision key last changed. In every state of the Rust client a worker is
subscribed exactly when its latest record qualifies, and its view is what those
messages make of an empty one. The Python client keeps this only while no
subscribed worker registers without an endpoint: such a registration returns
before the stale subscription is torn down. -/

namespace Infera.Router
open FleetClient Roster Function Option Dict Reaches

/-- What a rank's publisher sends to the thread that listens to it. -/
inductive Publication where
  | batch (events : List (Event UInt64 UInt32)) (now : Readings)
  | restarted

def Publication.at (rank : Int) : Publication → Message
  | .batch events now => .batch rank events now
  | .restarted => .restarted rank

/-- A publication comes from an endpoint, a delivery from the bus. -/
inductive FleetCall where
  | added (w : Worker)
  | removed (workerId : String)
  | sync (workers : List Worker)
  | published (workerId : String) (rank : Int) (endpoint : String) (p : Publication)
  | delivered (workerId : String) (m : Message)
  | flushTaken (workerId : String) (now : Int → Instant)

abbrev FleetRoster := Roster String Worker Message

namespace FleetRoster

def register (r : FleetRoster) (w : Worker) : FleetRoster :=
  Roster.register Worker.workerId DecisionKey.of r w

def reconcile (r : FleetRoster) (workers : List Worker) : FleetRoster :=
  workers.foldl register fun id => if id ∈ workers.map Worker.workerId then r id else none

def listens (natsFed : Bool) (r : FleetRoster) (id : String) (rank : Int) (endpoint : String) :
    Bool :=
  (rank, endpoint) ∈ ((r id).bind fun entry => FleetClient.freshThreads natsFed entry.1).getD []

end FleetRoster

structure FleetRun where
  client : FleetClient
  roster : FleetRoster

namespace FleetRun

def Start (s : FleetRun) : Prop := (∃ natsFed, s.client = .new natsFed) ∧ s.roster = Roster.empty

section
variable (xxh3_64 : List UInt8 → UInt64)

def hear (s : FleetRun) (workerId : String) (m : Message) : FleetRun :=
  ⟨s.client.receive xxh3_64 workerId m, Roster.hear s.roster workerId m⟩

def step (s : FleetRun) : FleetCall → FleetRun
  | .added w => ⟨s.client.onWorkerAdded w, s.roster.register w⟩
  | .removed workerId => ⟨s.client.onWorkerRemoved workerId, Roster.depart s.roster workerId⟩
  | .sync workers => ⟨s.client.sync workers, s.roster.reconcile workers⟩
  | .published workerId rank endpoint p =>
    ⟨if s.client.listens workerId rank endpoint then s.client.receive xxh3_64 workerId (p.at rank)
        else s.client,
      if s.roster.listens s.client.natsFed workerId rank endpoint then
        Roster.hear s.roster workerId (p.at rank) else s.roster⟩
  | .delivered workerId m => if s.client.natsFed then s.hear xxh3_64 workerId m else s
  | .flushTaken workerId now => s.hear xxh3_64 workerId (.flushTaken now)

end

def Qualified (s : FleetRun) (id : String) : Prop :=
  ∃ w heard, s.roster id = some (w, heard) ∧ w.Qualifies s.client.natsFed

/-- Every subscription is the one of the latest record, with a view built from what was heard
under its key. -/
structure Current (xxh3_64 : List UInt8 → UInt64) (s : FleetRun) : Prop where
  tracked : ∀ id, (s.client.state.get? id).isSome ↔ s.Qualified id
  connected : ∀ id, (s.client.threads.get? id).isSome ↔ s.client.natsFed = false ∧ s.Qualified id
  endpoints : ∀ id w heard threads, s.roster id = some (w, heard) →
    s.client.threads.get? id = some threads →
    ∃ endpoint, w.endpoint? = some endpoint ∧ threads = rankEndpoints w endpoint
  views : ∀ id w heard wv, s.roster id = some (w, heard) → s.client.state.get? id = some wv →
    ∃ blockSize, resolveBlockSize w = some blockSize ∧
      wv = heard.foldl (WorkerViews.receive xxh3_64) (.new blockSize)

structure Tracks (xxh3_64 : List UInt8 → UInt64) (c : FleetClient) (r : FleetRoster) : Prop where
  decided : ∀ id, c.decided.get? id = (r id).map fun entry => DecisionKey.of entry.1
  state : Roster.Mirrors (FleetClient.freshView c.natsFed) (WorkerViews.receive xxh3_64)
    c.state.get? r
  threads : Roster.Mirrors (FleetClient.freshThreads c.natsFed) (fun threads _ => threads)
    c.threads.get? r

variable {xxh3_64 : List UInt8 → UInt64} {c : FleetClient} {r : FleetRoster} {s : FleetRun}
  (id : String) (workers : List Worker)

namespace Tracks

theorem new (natsFed : Bool) : Tracks xxh3_64 (.new natsFed) empty := ⟨fun _ => rfl, .empty, .empty⟩

section
variable (tracks : Tracks xxh3_64 c r)
include tracks

theorem removed : Tracks xxh3_64 (c.onWorkerRemoved id) (depart r id) where
  decided id' := by
    simp only [onWorkerRemoved, depart, get?_erase, update_apply]
    split_ifs
    · rfl
    · exact tracks.decided id'
  state := by
    have departed := tracks.state.depart id
    rwa [← get?_erase_eq_update] at departed
  threads := by
    have departed := tracks.threads.depart id
    rwa [← get?_erase_eq_update] at departed

theorem settled {w : Worker} {c' : FleetClient}
    (changed : ∀ w' heard, r w.workerId = some (w', heard) → DecisionKey.of w' ≠ .of w)
    (settled : c.Settled w c') : Tracks xxh3_64 c' (r.register w) where
  decided id := by
    rw [settled.decided, FleetRoster.register, register, update_apply, update_apply]
    split_ifs
    · rfl
    · exact tracks.decided id
  state := by
    rw [settled.natsFed, settled.state]
    exact tracks.state.register_new Worker.workerId changed
  threads := by
    rw [settled.natsFed, settled.threads]
    exact tracks.threads.register_new Worker.workerId changed

theorem added (w : Worker) : Tracks xxh3_64 (c.onWorkerAdded w) (r.register w) := by
  unfold onWorkerAdded
  split
  · rename_i prev decided
    rw [tracks.decided, map_eq_some_iff] at decided
    obtain ⟨⟨w', heard⟩, known, rfl⟩ := decided
    split_ifs with same
    · refine ⟨fun id => ?_, ?_, ?_⟩
      · rw [tracks.decided, FleetRoster.register, register, update_apply]
        split_ifs with here
        · rw [here, known, map_some, map_some, same]
        · rfl
      · exact tracks.state.register_same _ (freshView_congr c.natsFed) known same
      · exact tracks.threads.register_same _ (freshThreads_congr c.natsFed) known same
    · refine tracks.settled ?_ (Settled.of_removed
        (settled_decideOn (get?_erase_self _ _) (get?_erase_self _ _)))
      intro w'' heard' known'
      cases known.symm.trans known'
      exact same
  · rename_i undecided
    rw [tracks.decided, map_eq_none_iff] at undecided
    refine tracks.settled ?_ (settled_decideOn ?_ ?_)
    · intro w' heard known
      cases undecided.symm.trans known
    · rw [tracks.state, undecided]
      rfl
    · rw [tracks.threads, undecided]
      rfl

theorem hear (m : Message) : Tracks xxh3_64 (c.receive xxh3_64 id m) (Roster.hear r id m) where
  decided id' := by
    rw [Roster.hear, update_apply]
    split_ifs with here
    · rw [here, map_map]
      exact tracks.decided id
    · exact tracks.decided id'
  state := by
    rw [get?_receive]
    exact tracks.state.hear id m
  threads := by
    have heard := tracks.threads.hear id m
    rw [map_id', update_eq_self] at heard
    exact heard

theorem removedAll (ids : List String) :
    Tracks xxh3_64 (ids.foldl onWorkerRemoved c) (ids.foldl depart r) := by
  induction ids generalizing c r with
  | nil => exact tracks
  | cons id ids ih => exact ih (tracks.removed id)

theorem addedAll : Tracks xxh3_64 (workers.foldl onWorkerAdded c)
      (workers.foldl FleetRoster.register r) := by
  induction workers generalizing c r with
  | nil => exact tracks
  | cons w workers ih => exact ih (tracks.added w)

theorem sync : Tracks xxh3_64 (c.sync workers) (r.reconcile workers) := by
  have departed : (c.decided.keys.filter fun id => id ∉ workers.map Worker.workerId).foldl
      depart r = fun id => if id ∈ workers.map Worker.workerId then r id else none := by
    rw [foldl_depart]
    funext id
    have unknown : id ∉ c.decided.keys → r id = none := by
      intro absent
      rw [← get?_eq_none_iff, tracks.decided, map_eq_none_iff] at absent
      exact absent
    by_cases stays : id ∈ workers.map Worker.workerId
    · rw [if_pos stays, if_neg]
      exact fun mem => by simpa [stays] using (List.mem_filter.mp mem).2
    · rw [if_neg stays]
      by_cases decided : id ∈ c.decided.keys
      · rw [if_pos]
        simpa [decided] using stays
      · rw [unknown decided, ite_self]
  have left := tracks.removedAll (c.decided.keys.filter fun id => id ∉ workers.map Worker.workerId)
  rw [departed] at left
  exact left.addedAll workers

theorem listens_eq (rank : Int) (endpoint : String) :
    c.listens id rank endpoint = r.listens c.natsFed id rank endpoint := by
  have same : c.threads.get? id = (r id).bind fun entry => freshThreads c.natsFed entry.1 := by
    rw [tracks.threads id]
    match r id with
    | none => rfl
    | some (w, heard) =>
      simp [stateOf]
  rw [listens, FleetRoster.listens, same]

end

variable (tracks : Tracks xxh3_64 s.client s.roster)
include tracks

theorem step (call : FleetCall) :
    Tracks xxh3_64 (s.step xxh3_64 call).client (s.step xxh3_64 call).roster := by
  cases call with
  | added w => exact tracks.added w
  | removed id => exact tracks.removed id
  | sync workers => exact tracks.sync workers
  | published id rank endpoint p =>
    simp only [FleetRun.step, ← tracks.listens_eq]
    split_ifs
    · exact tracks.hear id (p.at rank)
    · exact tracks
  | delivered id m =>
    simp only [FleetRun.step]
    split_ifs
    · exact tracks.hear id m
    · exact tracks
  | flushTaken id now => exact tracks.hear id (.flushTaken now)

theorem current : s.Current xxh3_64 where
  tracked id := by
    rw [tracks.state.isSome_iff]
    simp [isSome_freshView_iff, Qualified]
  connected id := by
    rw [tracks.threads.isSome_iff]
    simp only [isSome_freshThreads_iff]
    constructor
    · rintro ⟨w, heard, known, sockets, qualifies⟩
      exact ⟨sockets, w, heard, known, qualifies⟩
    · rintro ⟨sockets, w, heard, known, qualifies⟩
      exact ⟨w, heard, known, sockets, qualifies⟩
  endpoints id w heard threads known opened := by
    rw [tracks.threads.of_known known, map_eq_some_iff] at opened
    obtain ⟨fresh, called, rfl⟩ := opened
    unfold freshThreads at called
    split_ifs at called
    obtain ⟨endpoint, connect, rfl⟩ := map_eq_some_iff.mp called
    exact ⟨endpoint, connect, by simp⟩
  views id w heard wv known held := by
    rw [tracks.state.of_known known, map_eq_some_iff] at held
    obtain ⟨fresh, called, rfl⟩ := held
    unfold freshView at called
    split_ifs at called
    obtain ⟨blockSize, size, rfl⟩ := map_eq_some_iff.mp called
    exact ⟨blockSize, size, rfl⟩

end Tracks

theorem tracks_of_reaches (reached : Reaches Start (step xxh3_64) (fun _ _ => True) s) :
    Tracks xxh3_64 s.client s.roster := by
  have base : ∀ s : FleetRun, s.Start → Tracks xxh3_64 s.client s.roster := by
    rintro s ⟨⟨natsFed, client⟩, roster⟩
    rw [client, roster]
    exact Tracks.new natsFed
  exact invariant base (fun _ call tracks _ => tracks.step call) reached

end FleetRun

open Py.KvEventClient
namespace Py

inductive ClientCall where
  | added (w : WorkerInfo)
  | removed (workerId : String)
  | published (workerId : String) (m : RankMessage) (endpoint : String)

abbrev ClientRoster := Roster String WorkerInfo RankMessage

def ClientRoster.register (r : ClientRoster) (w : WorkerInfo) : ClientRoster :=
  Roster.register (fun w : WorkerInfo => w.workerId) decisionKey r w

def ClientRoster.listens (r : ClientRoster) (id : String) (source : Int × String) : Bool :=
  match r id with
  | none => false
  | some (w, _) => ((freshSubscription w).map (·.tasks)).any (source ∈ ·)

structure ClientRun where
  client : KvEventClient
  roster : ClientRoster

namespace ClientRun

def Start (s : ClientRun) : Prop := s = ⟨.new, Roster.empty⟩

variable (xxh3_64 : List UInt8 → UInt64)

def step (s : ClientRun) : ClientCall → ClientRun
  | .added w => ⟨s.client.onWorkerAdded w, s.roster.register w⟩
  | .removed workerId => ⟨s.client.onWorkerRemoved workerId, Roster.depart s.roster workerId⟩
  | .published workerId m endpoint =>
    ⟨if s.client.listens workerId (m.rank, endpoint) then s.client.receive xxh3_64 workerId m
        else s.client,
      if s.roster.listens workerId (m.rank, endpoint) then Roster.hear s.roster workerId m
        else s.roster⟩

/-- A worker that registers without an endpoint has no subscription. -/
def EndpointKept (s : ClientRun) : ClientCall → Prop
  | .added w => w.endpoint? = none → s.client.subs.get? w.workerId = none
  | _ => True

structure Current (xxh3_64 : List UInt8 → UInt64) (s : ClientRun) : Prop where
  subscribed : ∀ id, (s.client.subs.get? id).isSome ↔
    ∃ w heard, s.roster id = some (w, heard) ∧ w.Qualifies
  views : ∀ id w heard sub, s.roster id = some (w, heard) → s.client.subs.get? id = some sub →
    ∃ blockSize tasks, w.blockSize? = some blockSize ∧ w.endpoint?.bind (rankTasks w) = some tasks ∧
      sub = heard.foldl (WorkerSubscription.receive xxh3_64) (.new w blockSize tasks)

def Tracks (s : ClientRun) : Prop :=
  Roster.Mirrors freshSubscription (WorkerSubscription.receive xxh3_64)
    s.client.subs.get? s.roster

variable {xxh3_64 : List UInt8 → UInt64} {s : ClientRun}

namespace Tracks

section
variable (tracks : s.Tracks xxh3_64)
include tracks

theorem of_get? {id : String} {sub : WorkerSubscription} (held : s.client.subs.get? id = some sub) :
    ∃ w heard fresh, s.roster id = some (w, heard) ∧
      freshSubscription w = some fresh ∧
      sub = heard.foldl (WorkerSubscription.receive xxh3_64) fresh ∧
      sub.key = decisionKey w ∧ sub.tasks = fresh.tasks := by
  obtain ⟨w, heard, known, -⟩ := (Mirrors.isSome_iff tracks id).mp (by rw [held]; rfl)
  rw [Mirrors.of_known tracks known, map_eq_some_iff] at held
  obtain ⟨fresh, called, rfl⟩ := held
  obtain ⟨key, tasks⟩ := WorkerSubscription.key_foldl_receive xxh3_64 heard fresh
  exact ⟨w, heard, fresh, known, called, rfl,
    key.trans (key_of_freshSubscription called), tasks⟩

theorem listens_eq (id : String) (source : Int × String) :
    s.client.listens id source = s.roster.listens id source := by
  unfold KvEventClient.listens ClientRoster.listens
  cases held : s.client.subs.get? id with
  | none =>
    match known : s.roster id with
    | none => rfl
    | some (w, heard) =>
      rw [Mirrors.of_known tracks known, map_eq_none_iff] at held
      simp [held]
  | some sub =>
    obtain ⟨w, heard, fresh, known, called, -, -, tasks⟩ := tracks.of_get? held
    simp [known, called, tasks]

theorem register_absent {w : WorkerInfo} (absent : s.client.subs.get? w.workerId = none) :
    Mirrors freshSubscription (WorkerSubscription.receive xxh3_64)
      (update s.client.subs.get? w.workerId (freshSubscription w))
      (s.roster.register w) :=
  Mirrors.register_absent (fun w : WorkerInfo => w.workerId) tracks
    freshSubscription_congr absent

theorem added {w : WorkerInfo}
    (kept : s.EndpointKept (.added w)) : (s.step xxh3_64 (.added w)).Tracks xxh3_64 := by
  unfold Tracks
  simp only [ClientRun.step, KvEventClient.onWorkerAdded]
  cases connect : w.endpoint? with
  | none =>
    have absent : s.client.subs.get? w.workerId = none := kept connect
    have declined : freshSubscription w = none := by
      rw [freshSubscription, connect, bind_none]
    have registered := tracks.register_absent absent
    rw [declined, ← absent, update_eq_self] at registered
    exact registered
  | some endpoint =>
    simp only [claim]
    cases held : s.client.subs.get? w.workerId with
    | none =>
      have registered := tracks.register_absent held
      rw [← get?_build connect held] at registered
      exact registered
    | some existing =>
      obtain ⟨w', heard, fresh, known, -, -, key, -⟩ := tracks.of_get? held
      by_cases same : existing.key = decisionKey w
      · simp only [if_pos same]
        exact Mirrors.register_same (fun w : WorkerInfo => w.workerId) tracks
          freshSubscription_congr known (key ▸ same)
      · simp only [if_neg same]
        have torn : (s.client.onWorkerRemoved w.workerId).subs.get? w.workerId = none :=
          get?_erase_self _ _
        rw [get?_build connect torn, KvEventClient.onWorkerRemoved,
          get?_erase_eq_update, update_idem]
        refine Mirrors.register_new (fun w : WorkerInfo => w.workerId) tracks ?_
        intro w'' heard' known' again
        cases known.symm.trans known'
        exact same (key.trans again)

theorem step {call : ClientCall} (kept : s.EndpointKept call) :
    (s.step xxh3_64 call).Tracks xxh3_64 := by
  cases call with
  | added w => exact tracks.added kept
  | removed id =>
    have departed := Mirrors.depart tracks id
    rw [← get?_erase_eq_update] at departed
    exact departed
  | published id m endpoint =>
    unfold Tracks
    simp only [ClientRun.step, ← tracks.listens_eq]
    split_ifs
    · rw [KvEventClient.get?_receive]
      exact Mirrors.hear tracks id m
    · exact tracks

theorem current : s.Current xxh3_64 where
  subscribed id := by
    rw [Mirrors.isSome_iff tracks]
    simp [freshSubscription_isSome_iff]
  views id w heard sub known held := by
    obtain ⟨w', heard', fresh, known', called, rfl, -, -⟩ := tracks.of_get? held
    cases known.symm.trans known'
    simp only [freshSubscription, bind_eq_some_iff, map_eq_some_iff] at called
    obtain ⟨endpoint, connect, blockSize, size, tasks, formed, rfl⟩ := called
    exact ⟨blockSize, tasks, size, by rw [connect, bind_some, formed], rfl⟩

end

end Tracks

theorem tracks_of_reaches (reached : Reaches Start (ClientRun.step xxh3_64) EndpointKept s) :
    s.Tracks xxh3_64 := by
  have base : ∀ s : ClientRun, s.Start → s.Tracks xxh3_64 := by
    rintro s rfl
    exact Mirrors.empty
  exact invariant base (fun _ _ tracks kept => tracks.step kept) reached

end ClientRun
end Py

/-- The Rust client always follows the latest records, and so does the Python client while no
subscribed worker registers without an endpoint. -/
theorem subscriptions_current (xxh3_64 : List UInt8 → UInt64) :
    (∀ s, Reaches FleetRun.Start (FleetRun.step xxh3_64) (fun _ _ => True) s → s.Current xxh3_64) ∧
    ∀ s, Reaches Py.ClientRun.Start (Py.ClientRun.step xxh3_64) Py.ClientRun.EndpointKept s →
      s.Current xxh3_64 :=
  ⟨fun _ reached => (FleetRun.tracks_of_reaches reached).current,
    fun _ reached => (Py.ClientRun.tracks_of_reaches reached).current⟩

def warmWorker : Py.WorkerInfo where
  workerId := "w"
  kvEventsEndpoint := some "tcp://h:1"
  kvBlockSize := some 1
  dpSize := none
  dpRank := none
  engine := .vllm

def blockStored : Py.RankMessage :=
  ⟨0, fun _ => some [.stored [Wired.intHash 1] none [Wired.tokenId 5] none]⟩

def movedWorker : Py.WorkerInfo := { warmWorker with kvEventsEndpoint := some "tcp://h:2" }

def bareWorker : Py.WorkerInfo := { warmWorker with kvEventsEndpoint := none }

def Py.ClientRun.idle : Py.ClientRun := ⟨.new, Roster.empty⟩

def Py.ClientRun.replacedBy (w : Py.WorkerInfo) : Py.ClientRun :=
  [.added warmWorker, .published "w" blockStored "tcp://h:1", .added w].foldl
    (Py.ClientRun.step rollingHash) idle

def FleetRun.replacedBy (w : Py.WorkerInfo) : FleetRun :=
  [.added warmWorker.toWorker,
    .published "w" 0 "tcp://h:1" (.batch [.stored [1] none [5] none] ⟨0, 0⟩),
    .added w.toWorker].foldl (FleetRun.step rollingHash) ⟨.new false, Roster.empty⟩

/-- Both clients follow an engine that moves; the Rust client also one that stops publishing. -/
theorem moved_worker_current :
    (FleetRun.replacedBy bareWorker).Current rollingHash ∧
      (Py.ClientRun.replacedBy movedWorker).Current rollingHash ∧
      ((FleetRun.replacedBy bareWorker).client.state.get? "w").isNone ∧
      (Py.ClientRun.replacedBy movedWorker).client.cacheView "w" none = ∅ := by
  have rust : Reaches FleetRun.Start (FleetRun.step rollingHash) (fun _ _ => True)
      (FleetRun.replacedBy bareWorker) := unconditional _ ⟨⟨false, rfl⟩, rfl⟩
  have python : Reaches Py.ClientRun.Start (Py.ClientRun.step rollingHash)
      Py.ClientRun.EndpointKept (Py.ClientRun.replacedBy movedWorker) := by
    refine next (Py.ClientCall.added movedWorker) (next _ (next
      (Py.ClientCall.added warmWorker) (.start rfl) ?_) trivial) ?_ <;>
    exact fun lost => absurd lost (by decide)
  refine ⟨(subscriptions_current rollingHash).1 _ rust,
    (subscriptions_current rollingHash).2 _ python, ?_, ?_⟩ <;> decide +kernel

/-- The endpoint is lost: the subscription and the view of the replaced engine stay. -/
theorem lost_endpoint_keeps_view :
    Reaches Py.ClientRun.Start (Py.ClientRun.step rollingHash) (fun _ _ => True)
      (Py.ClientRun.replacedBy bareWorker) ∧
      (Py.ClientRun.replacedBy bareWorker).client.cacheView "w" none ≠ ∅ ∧
      ¬(Py.ClientRun.replacedBy bareWorker).Current rollingHash := by
  refine ⟨unconditional _ rfl, by decide +kernel, fun current => ?_⟩
  obtain ⟨w, heard, known, -, formed⟩ := (current.subscribed "w").mp (by decide +kernel)
  have latest : (Py.ClientRun.replacedBy bareWorker).roster "w" = some (bareWorker, []) := by
    rfl
  cases latest.symm.trans known
  exact formed (by decide)

end Infera.Router
