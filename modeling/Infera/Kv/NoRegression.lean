import Infera.Kv.Reconcile

/-! When a pulled snapshot takes a tree back. The guard against an old snapshot
compares batch ids, but the probes never name a batch to the mirror, so every
snapshot carries `-1` and is applied: a tree loses a block the writer had already
put there (`late_snapshot_regresses`). A snapshot taken after every event the
writer has applied, whose blocks find their places again, does not take the tree
back (`reflects_of_upToDate`).

Two facts about every run carry this. The mirror's blocks are the plain map of all
emitted events, and a stream's events are, in order, the applied ones, those on the
wire and those in the publisher's buffer. -/

namespace Infera.Kv
open TreeEvent Dict Function List Publisher Feed Blocks SnapshotProducer SnapshotBlock

/-- The blocks stand for the plain map. -/
structure Blocks.Reports (blocks : Blocks) (resident : Nat → Finset Tier) : Prop where
  keyed : ∀ s blk, blocks.get? s = some blk → blk.sequenceHash = s
  tiers : ∀ s, resident s = ((blocks.get? s).map fun blk => blk.tiers.toFinset).getD ∅

namespace Blocks
variable {blocks : Blocks}
variable {resident : Nat → Finset Tier} (blk : SnapshotBlock) (tier : Tier)

theorem reports_empty : Reports .empty fun _ => ∅ :=
  ⟨fun s blk found => by simp at found, fun _ => rfl⟩

theorem toFinset_withTier :
    (blk.withTier tier).tiers.toFinset = insert tier blk.tiers.toFinset := by
  unfold withTier
  split_ifs with present
  · exact (Finset.insert_eq_of_mem (mem_toFinset.mpr present)).symm
  · ext t
    simp

theorem toFinset_remaining : (blk.remaining tier).toFinset = blk.tiers.toFinset.erase tier := by
  ext t
  simp [remaining, and_comm]

section
variable (reports : blocks.Reports resident)
include reports

theorem Reports.set {s : Nat} {blk : SnapshotBlock} (keyed : blk.sequenceHash = s) :
    Reports (set blocks s blk) (update resident s blk.tiers.toFinset) where
  keyed s' blk' found := by
    rcases get?_set_cases found with ⟨rfl, rfl⟩ | ⟨-, found⟩
    · exact keyed
    · exact reports.keyed s' blk' found
  tiers s' := by
    rw [get?_set, update_apply]
    split_ifs
    · rfl
    · exact reports.tiers s'

theorem Reports.store (block : BlockKey) (tier : Tier) (now : Int) :
    (blocks.store block tier).Reports ((stored block tier now).record resident) := by
  have before := reports.tiers block.sequenceHash
  cases found : blocks.get? block.sequenceHash with
  | none =>
    simp only [Blocks.store, record, before, found]
    exact reports.set rfl
  | some existing =>
    have keyed := reports.keyed _ existing found
    have own : (existing.withTier tier).sequenceHash = block.sequenceHash := by
      unfold withTier
      split_ifs <;> exact keyed
    simp only [Blocks.store, record, before, found, Option.map_some, Option.getD_some,
      ← toFinset_withTier]
    exact reports.set own

theorem Reports.strip (s : Nat) (tier : Tier) :
    (blocks.strip s tier).Reports ((removed s tier).record resident) := by
  have before := reports.tiers s
  cases found : blocks.get? s with
  | none =>
    have nothing : (resident s).erase tier = resident s := by
      rw [before, found]
      rfl
    simp only [Blocks.strip, record, found, nothing, update_eq_self]
    exact reports
  | some existing =>
    simp only [Blocks.strip, record, before, found, Option.map_some, Option.getD_some,
      ← toFinset_remaining]
    split_ifs with last
    · refine ⟨fun s' blk gone => reports.keyed s' blk (get?_of_erase gone).2, fun s' => ?_⟩
      rw [get?_erase, update_apply, last]
      split_ifs
      · rfl
      · exact reports.tiers s'
    · exact reports.set (reports.keyed s existing found)

theorem Reports.stripAll (tier : Tier) :
    (blocks.stripAll tier).Reports fun s => (resident s).erase tier := by
  refine ⟨fun s blk found => ?_, fun s => ?_⟩
  · rw [Blocks.stripAll, get?_mapValues, Option.map_eq_some_iff] at found
    obtain ⟨blk', found, rfl⟩ := found
    exact reports.keyed s blk' (get?_filter_eq_some_iff.mp found).1
  · rw [reports.tiers s, Blocks.stripAll, get?_mapValues, get?_filter]
    cases blocks.get? s with
    | none => rfl
    | some blk =>
      by_cases last : blk.remaining tier = []
      · simp [Option.filter, ← toFinset_remaining, last]
      · simp [Option.filter, ← toFinset_remaining, last]

end

end Blocks

namespace SnapshotProducer

theorem blocksOf_set (p : SnapshotProducer) (key : StreamKey) (blocks : Blocks)
    (key' : StreamKey) : blocksOf { p with state := p.state.set key blocks } key' =
      if key' = key then blocks else p.blocksOf key' := by
  simp only [blocksOf, get?_set]
  split_ifs <;> rfl

variable {resident : Nat → Finset Tier} {p : SnapshotProducer}

theorem reports_dropped {key : StreamKey}
    (reports : (p.blocksOf key).Reports resident) (scope : Scope) (batchIds : Dict StreamKey Nat) :
    (blocksOf ⟨p.state.filter fun key _ => !scope.covers key, batchIds⟩ key).Reports
      (if scope.covers key then fun _ => ∅ else resident) := by
  simp only [blocksOf, get?_filter]
  split_ifs with covered
  · have dropped : (p.state.get? key).filter (fun _ => !scope.covers key) = none := by
      simp [covered]
    rw [dropped]
    exact reports_empty
  · have kept : (p.state.get? key).filter (fun _ => !scope.covers key) = p.state.get? key := by
      cases p.state.get? key <;> simp [covered]
    rw [kept]
    exact reports

theorem onEvent_reports {key' : StreamKey}
    (reports : (p.blocksOf key').Reports resident) (key : StreamKey) (event : KvEvent) :
    ((p.onEvent key event none).blocksOf key').Reports
      (observe key' resident (key, event)) := by
  cases event with
  | stored block tier =>
    simp only [onEvent, observe, blocksOf_set]
    by_cases same : key = key'
    · subst same
      simp only [if_true]
      exact reports.store block tier 0
    · simp only [if_neg same, if_neg (Ne.symm same)]
      exact reports
  | removed s tier =>
    simp only [onEvent, noteBatch, observe]
    by_cases same : key = key'
    · subst same
      cases found : p.state.get? key with
      | none =>
        simp only [blocksOf, found] at reports ⊢
        exact reports.strip s tier
      | some blocks =>
        simp only [blocksOf, found] at reports
        simp only [blocksOf_set]
        exact reports.strip s tier
    · rw [if_neg same]
      cases p.state.get? key with
      | none => exact reports
      | some blocks =>
        simp only [blocksOf_set, if_neg (Ne.symm same)]
        exact reports
  | cleared scope =>
    cases scope with
    | tier tier =>
      simp only [onEvent, noteBatch, applyCleared, blocksOf, get?_mapValues]
      cases found : p.state.get? key' with
      | none | some =>
        simp only [blocksOf, found] at reports
        exact reports.stripAll tier
    | all => exact reports_dropped reports .all _
    | model name => exact reports_dropped reports (.model name) _
    | compatKey hex => exact reports_dropped reports (.compatKey hex) _
    | other text => exact reports_dropped reports (.other text) _

theorem onEvent_unnumbered (unnumbered : p.batchIds = .empty) (key : StreamKey)
    (event : KvEvent) : (p.onEvent key event none).batchIds = .empty := by
  cases event with
  | stored block tier => exact unnumbered
  | removed s tier =>
    simp only [onEvent]
    split <;> exact unnumbered
  | cleared scope =>
    cases scope <;> simp [onEvent, noteBatch, applyCleared, unnumbered] <;> rfl

end SnapshotProducer

namespace Publisher

theorem mem_batches {key : StreamKey} {n : Nat} {batch : EventBatch} :
    ∀ (fuel id : Nat) (events : List KvEvent), batch ∈ batches key n fuel id events →
      batch.key = key
  | 0, _, _, mem | _ + 1, _, [], mem => by simp [batches] at mem
  | fuel + 1, id, event :: events, mem => by
    rw [batches, mem_cons] at mem
    rcases mem with rfl | later
    · rfl
    · exact mem_batches fuel _ _ later

theorem flatMap_batches (key : StreamKey) {n : Nat} (positive : 0 < n) :
    ∀ (fuel id : Nat) (events : List KvEvent), events.length ≤ fuel →
      (batches key n fuel id events).flatMap EventBatch.events = events
  | 0, _, events, short => by
    rw [eq_nil_of_length_eq_zero (Nat.le_zero.mp short)]
    rfl
  | _ + 1, _, [], _ => rfl
  | fuel + 1, id, event :: events, short => by
    have rest : ((event :: events).drop n).length ≤ fuel := by
      rw [length_drop]
      omega
    rw [batches, flatMap_cons, flatMap_batches key positive fuel _ _ rest, take_append_drop]

theorem streamOf_emit (p : Publisher) (key : StreamKey) (event : KvEvent) (key' : StreamKey) :
    ((p.emit key event).streamOf key').buffer =
      (p.streamOf key').buffer ++ if key = key' then [event] else [] := by
  by_cases same : key = key'
  · subst same
    simp [emit, streamOf]
  · simp [emit, streamOf, get?_set, same, Ne.symm same]

end Publisher

namespace Feed
variable {s : Feed}

def inFlight (key : StreamKey) (batches : List EventBatch) : List KvEvent :=
  (batches.filter fun batch => batch.key = key).flatMap EventBatch.events

variable (p : Publisher) (key : StreamKey) (now : Int) (index : KVIndex) (blk : SnapshotBlock)

theorem inFlight_append (first second : List EventBatch) :
    inFlight key (first ++ second) = inFlight key first ++ inFlight key second := by
  simp [inFlight]

theorem inFlight_cons (batch : EventBatch) (rest : List EventBatch) : inFlight key (batch :: rest) =
      (if batch.key = key then batch.events else []) ++ inFlight key rest := by
  by_cases same : batch.key = key <;> simp [inFlight, same]

theorem inFlight_drain (state : StreamState)
    (key' : StreamKey) : inFlight key' (p.drain key state) =
      if key = key' then state.buffer else [] := by
  have keys : ∀ batch ∈ p.drain key state, batch.key = key := fun batch mem => mem_batches _ _ _ mem
  split_ifs with same
  · have all : (p.drain key state).filter (fun batch => decide (batch.key = key')) =
        p.drain key state :=
      filter_eq_self.mpr fun batch mem => by simp [keys batch mem, same]
    rw [inFlight, all]
    exact flatMap_batches key p.batchMaxEvents_pos _ _ _ (Nat.le_refl _)
  · have nothing : (p.drain key state).filter (fun batch => decide (batch.key = key')) = [] :=
      filter_eq_nil_iff.mpr fun batch mem => by simp [keys batch mem, same]
    rw [inFlight, nothing]
    rfl

theorem inFlight_drained (p : Publisher) (key : StreamKey) :
    ∀ items : List (StreamKey × StreamState), (items.map Prod.fst).Nodup →
      inFlight key (items.flatMap fun item => p.drain item.1 item.2) =
        ((items.lookup key).map StreamState.buffer).getD []
  | [], _ => rfl
  | (key', state) :: items, nodup => by
    rw [map_cons, nodup_cons] at nodup
    rw [flatMap_cons, inFlight_append, inFlight_drain, inFlight_drained p key items nodup.2]
    by_cases same : key' = key
    · subst same
      have absent : items.lookup key' = none := (get?_eq_none_iff ⟨items, nodup.2⟩ key').mpr nodup.1
      simp [absent]
    · have differ : (key == key') = false := by simpa using Ne.symm same
      simp [same, lookup_cons, differ]

theorem inFlight_flushAll : inFlight key p.flushAll.2 = (p.streamOf key).buffer := by
  rw [Publisher.flushAll, inFlight_drained p key _ p.streams.nodupKeys, Publisher.streamOf, get?]
  cases p.streams.items.lookup key <;> rfl

theorem buffer_flushAll : (p.flushAll.1.streamOf key).buffer = [] := by
  simp only [Publisher.flushAll, Publisher.streamOf, get?_mapValues]
  cases p.streams.get? key <;> rfl

theorem streamOf_append (history : List (StreamKey × KvEvent))
    (item : StreamKey × KvEvent) : streamOf key (history ++ [item]) =
      streamOf key history ++ if item.1 = key then [item.2] else [] := by
  by_cases same : item.1 = key <;> simp [streamOf, same]

/-- A response carries the mirror of the first `taken` events, and no batch id. -/
structure Captured (pull : Pull) (history : List (StreamKey × KvEvent)) : Prop where
  taken : pull.taken ≤ history.length
  unnumbered : pull.snapshot.batchId = -1
  blocks : ∃ blocks : Blocks, pull.snapshot.blocks = blocks.values ∧
    blocks.Reports (residencyAfter pull.snapshot.key (history.take pull.taken))

theorem Captured.append {pull : Pull} {history : List (StreamKey × KvEvent)}
    (captured : Captured pull history) (item : StreamKey × KvEvent) :
    Captured pull (history ++ [item]) where
  taken := by
    rw [length_append]
    exact Nat.le_add_right_of_le captured.taken
  unnumbered := captured.unnumbered
  blocks := by
    rw [take_append_of_le_length captured.taken]
    exact captured.blocks

structure Faithful (s : Feed) : Prop where
  mirror : ∀ key, (s.producer.blocksOf key).Reports (residencyAfter key s.emitted)
  unnumbered : s.producer.batchIds = .empty
  ordered : ∀ key, streamOf key s.emitted =
    s.applied key ++ inFlight key s.wire ++ (s.publisher.streamOf key).buffer
  captured : ∀ pull ∈ s.pulls, Captured pull s.emitted

theorem faithful_of_start (start : s.Start) : s.Faithful where
  mirror key := by
    simp only [blocksOf, start.state, start.emitted]
    exact reports_empty
  unnumbered := start.batchIds
  ordered key := by
    simp [start.emitted, start.applied, start.wire, start.streams, streamOf, inFlight,
      Publisher.streamOf]
  captured pull mem := by simp [start.pulls] at mem

section
variable (faithful : s.Faithful) (i : Nat) (chain : List BlockKey)
include faithful

theorem Faithful.emit (key : StreamKey) (event : KvEvent) : (s.emit key event).Faithful where
  mirror key' := by
    simp only [Feed.emit, residencyAfter, foldl_append]
    exact onEvent_reports (faithful.mirror key') key event
  unnumbered := onEvent_unnumbered faithful.unnumbered key event
  ordered key' := by
    simp [Feed.emit, streamOf_append, streamOf_emit, faithful.ordered key']
  captured pull mem := (faithful.captured pull mem).append (key, event)

theorem Faithful.setEmitted (emitted : Finset Nat) : (s.setEmitted i emitted).Faithful :=
  { faithful with }

theorem Faithful.onNodeInserted : (s.onNodeInserted i chain).Faithful := by
  induction chain generalizing s with
  | nil => exact faithful
  | cons block chain ih =>
    refine ih ?_
    unfold emitStored
    dsimp only
    split_ifs
    · exact faithful
    · exact (faithful.emit _ _).setEmitted i _

theorem Faithful.onNodeEvicted : (s.onNodeEvicted i chain).Faithful := by
  unfold Feed.onNodeEvicted
  dsimp only
  split
  · exact faithful
  · split_ifs
    · exact (faithful.emit _ _).setEmitted i _
    · exact faithful

theorem Faithful.onClear (scope : Option Scope) : (s.onClear i scope).Faithful := by
  unfold Feed.onClear
  dsimp only
  split_ifs
  · exact (faithful.emit _ _).setEmitted i _
  · exact faithful.emit _ _

theorem Faithful.flush : s.flush.Faithful where
  __ := faithful
  ordered key := by
    simp [Feed.flush, inFlight_append, inFlight_flushAll, buffer_flushAll, faithful.ordered key]

theorem Faithful.applyNext (now : Int) : (s.applyNext now).Faithful := by
  have ordered := faithful.ordered
  cases wire : s.wire with
  | nil =>
    simp only [Feed.applyNext, wire]
    exact faithful
  | cons batch rest =>
    cases events : batch.events with
    | nil =>
      simp only [Feed.applyNext, wire, events]
      refine { faithful with ordered := fun key => ?_ }
      simpa [wire, inFlight_cons, events] using ordered key
    | cons event events' =>
      simp only [Feed.applyNext, wire, events]
      refine { faithful with ordered := fun key => ?_ }
      have before := ordered key
      rw [wire, inFlight_cons, events] at before
      rw [before]
      by_cases same : batch.key = key
      · subst same
        simp [inFlight_cons]
      · simp [inFlight_cons, same, update_of_ne (Ne.symm same)]

theorem Faithful.capture (endpoint : String)
    (key : StreamKey) : (s.capture endpoint key).Faithful where
  __ := faithful
  captured pull mem := by
    rcases mem_append.mp mem with before | new
    · exact faithful.captured pull before
    · rw [mem_singleton.mp new]
      refine ⟨Nat.le_refl _, ?_, _, rfl, ?_⟩
      · simp [snapshot, faithful.unnumbered]
      · change Reports _ (residencyAfter key (s.emitted.take s.emitted.length))
        rw [take_length]
        exact faithful.mirror key

theorem Faithful.reconcileOne (pull : Pull) (now : Int) : (s.reconcileOne pull now).Faithful := by
  unfold Feed.reconcileOne
  split_ifs
  · exact faithful
  · exact { faithful with }
  · exact { faithful with }

theorem Faithful.eraseIdx {pulls : List Pull}
    (fewer : ∀ pull ∈ pulls, pull ∈ s.pulls) : Faithful { s with pulls } :=
  { faithful with captured := fun pull mem => faithful.captured pull (fewer pull mem) }

theorem Faithful.step (event : Event) : (s.step event).Faithful := by
  cases event with
  | inserted i chain => exact faithful.onNodeInserted i chain
  | evicted i chain => exact faithful.onNodeEvicted i chain
  | cleared i scope => exact faithful.onClear i scope
  | flush => exact faithful.flush
  | applyNext now => exact faithful.applyNext now
  | capture endpoint key => exact faithful.capture endpoint key
  | arrive n now =>
    simp only [Feed.step]
    split
    · exact faithful
    · rename_i pull _
      have pulls : (s.reconcileOne pull now).pulls = s.pulls := by
        unfold Feed.reconcileOne
        split_ifs <;> rfl
      refine (faithful.reconcileOne pull now).eraseIdx fun pull' mem => ?_
      rw [pulls]
      exact mem_of_mem_eraseIdx mem
  | lost n => exact faithful.eraseIdx fun pull mem => mem_of_mem_eraseIdx mem
  | register target => exact { faithful with }
  | unregister target =>
    exact { faithful with }

end

theorem faithful_of_reached (reached : Reaches Start step (fun _ _ => True) s) : s.Faithful :=
  reached.invariant (fun _ start => faithful_of_start start)
    fun _ event faithful _ => faithful.step event

theorem treeOf_applyStored (key : StreamKey) (block : BlockKey) (tier : Tier)
    (now : Int) : (index.applyStored key block tier now).treeOf key =
      (index.treeOf key).applyStored block tier now := by
  simp [KVIndex.applyStored, KVIndex.treeOf]

theorem treeOf_storeBlock : (storeBlock key now index blk).treeOf key =
      (blk.tiers.map fun tier => stored blk.key tier now).foldl Tree.apply (index.treeOf key) := by
  unfold storeBlock
  induction blk.tiers generalizing index with
  | nil => rfl
  | cons tier tiers ih =>
    rw [foldl_cons, ih, treeOf_applyStored]
    rfl

theorem treeOf_rebuild (snapshot : Snapshot) (now : Int) :
    (rebuild index snapshot now).treeOf snapshot.key =
      (snapshot.events now).foldl Tree.apply Tree.new := by
  have dropped : (index.dropTree snapshot.key).treeOf snapshot.key = Tree.new := by
    simp [KVIndex.dropTree, KVIndex.treeOf]
  rw [← dropped, rebuild, Snapshot.events]
  generalize index.dropTree snapshot.key = start
  induction snapshot.blocks generalizing start with
  | nil => rfl
  | cons blk blocks ih =>
    rw [foldl_cons, ih, flatMap_cons, foldl_append, treeOf_storeBlock]

theorem foldl_step_tree (events : List TreeEvent) (r : Reported) :
    (events.foldl Reported.step r).tree = events.foldl Tree.apply r.tree := by
  induction events generalizing r with
  | nil => rfl
  | cons event events ih => rw [foldl_cons, ih, foldl_cons, Reported.step]

theorem mem_foldl_tiers (tiers : List Tier) (now : Int) (r : Reported) (s : Nat) (tier : Tier) :
    tier ∈ ((tiers.map fun tier => stored blk.key tier now).foldl Reported.step
      r).resident s ↔ tier ∈ r.resident s ∨ blk.sequenceHash = s ∧ tier ∈ tiers := by
  induction tiers generalizing r with
  | nil => simp
  | cons t tiers ih =>
    refine (ih _).trans ?_
    simp only [Reported.step, record, key, update_apply]
    by_cases same : s = blk.sequenceHash
    · subst same
      simp only [if_true, Finset.mem_insert, mem_cons]
      tauto
    · simp [same, Ne.symm same]

theorem mem_foldl_stored (blocks : List SnapshotBlock) (now : Int) (r : Reported) (s : Nat)
    (tier : Tier) : tier ∈ ((blocks.flatMap fun blk => blk.tiers.map fun tier =>
        stored blk.key tier now).foldl Reported.step r).resident s ↔
      tier ∈ r.resident s ∨ ∃ blk ∈ blocks, blk.sequenceHash = s ∧ tier ∈ blk.tiers := by
  induction blocks generalizing r with
  | nil => simp
  | cons blk blocks ih =>
    rw [flatMap_cons, foldl_append]
    refine (ih _).trans ?_
    rw [mem_foldl_tiers]
    simp [or_assoc]

theorem resident_events {blocks : Blocks} (reports : blocks.Reports resident) {snapshot : Snapshot}
    (content : snapshot.blocks = blocks.values) (now : Int) :
    ((snapshot.events now).foldl Reported.step Reported.blankReport).resident = resident := by
  funext s
  ext tier
  rw [Snapshot.events, mem_foldl_stored, content, reports.tiers s]
  simp only [Reported.blankReport, Finset.notMem_empty, false_or, mem_values_iff]
  constructor
  · rintro ⟨blk, ⟨s', found⟩, own, mem⟩
    have keyed := reports.keyed s' blk found
    rw [keyed] at own
    subst own
    simpa [found] using mem
  · intro mem
    cases found : blocks.get? s with
    | none => simp [found] at mem
    | some blk => exact ⟨blk, ⟨s, found⟩, reports.keyed s blk found, by simpa [found] using mem⟩

/-- In every run, a snapshot that is not older than what the writer has applied and whose blocks
find their places again leaves the tree at a point of the publisher's history that is not before any
applied event. -/
theorem reflects_of_upToDate {s : Feed} (reached : Reaches Start step (fun _ _ => True) s)
    {pull : Pull} (pending : pull ∈ s.pulls) (upToDate : s.UpToDate pull) {now : Int}
    (rebuildable : pull.snapshot.Rebuildable now) :
    (s.reconcileOne pull now).Reflects pull.snapshot.key := by
  have faithful := faithful_of_reached reached
  obtain ⟨taken, unnumbered, blocks, content, reports⟩ := faithful.captured pull pending
  have applied : s.reconcileOne pull now =
      { s with index := rebuild s.index pull.snapshot now } := by
    simp [Feed.reconcileOne, isStale, unnumbered]
  rw [applied]
  refine ⟨pull.taken, ?_, ?_⟩
  · have whole : s.applied pull.snapshot.key <+: streamOf pull.snapshot.key s.emitted := by
      rw [faithful.ordered, append_assoc]
      exact prefix_append _ _
    have taken := take_prefix pull.taken s.emitted
    have part : streamOf pull.snapshot.key (s.emitted.take pull.taken) <+:
        streamOf pull.snapshot.key s.emitted := (taken.filter _).map _
    exact prefix_of_prefix_length_le whole part upToDate
  · have run := Reaches.run (pull.snapshot.events now)
      (Reaches.start Reported.start_blankReport) rebuildable
    have mirrors := Reported.mirrors_of_attached run
    rw [foldl_step_tree, resident_events reports content] at mirrors
    rw [treeOf_rebuild]
    exact mirrors

def onlyStream : StreamKey := ⟨"m", "c"⟩

def idle : Feed :=
  { probes := fun _ => ⟨onlyStream, .device, ∅⟩, publisher := ⟨256, by decide, .empty⟩
    producer := ⟨.empty, .empty⟩, wire := [], index := ⟨.empty⟩, reconciler := ⟨.empty, .empty⟩
    pulls := [], emitted := [], applied := fun _ => [] }

theorem start_idle : idle.Start := ⟨rfl, rfl, rfl, rfl, rfl, rfl, rfl, rfl⟩

def overtaken : Feed :=
  [.inserted 0 [⟨1, 10, none⟩], .capture "" onlyStream, .inserted 0 [⟨1, 10, none⟩, ⟨2, 20, some 1⟩],
    .flush, .applyNext 0, .applyNext 0].foldl step idle

/-- The snapshot arrives after the second block was applied, and the tree loses that block. -/
theorem late_snapshot_regresses : ∃ s pull, Reaches Start step (fun _ _ => True) s ∧
    pull ∈ s.pulls ∧ s.isStale pull = false ∧
    ¬(s.reconcileOne pull 0).Reflects pull.snapshot.key := by
  refine ⟨overtaken, ⟨"", ⟨onlyStream, -1, [⟨1, none, 10, [.device]⟩]⟩, 1⟩,
    Reaches.unconditional _ start_idle, mem_singleton.mpr rfl, by decide +kernel, ?_⟩
  rintro ⟨n, before, mirrors⟩
  have two : 2 ≤ (streamOf onlyStream (overtaken.emitted.take n)).length := before.length_le
  have all : overtaken.emitted.take n = overtaken.emitted := by
    refine take_of_length_le ?_
    by_contra short
    have bound : (streamOf onlyStream (overtaken.emitted.take n)).length ≤ n := by
      rw [streamOf, length_map]
      exact (length_filter_le _ _).trans (length_take_le _ _)
    have total : overtaken.emitted.length = 2 := by decide +kernel
    omega
  have second := mirrors.residency 2
  change _ = residencyAfter onlyStream (overtaken.emitted.take n) 2 at second
  rw [all] at second
  revert second
  decide +kernel

def caughtUp : Feed :=
  [.inserted 0 [⟨1, 10, none⟩, ⟨2, 20, some 1⟩], .capture "" onlyStream, .flush, .applyNext 0,
    .applyNext 0].foldl step idle

def fullPull : Pull :=
  ⟨"", ⟨onlyStream, -1, [⟨1, none, 10, [.device]⟩, ⟨2, some 1, 20, [.device]⟩]⟩, 2⟩

theorem full_snapshot_reflected :
    (caughtUp.reconcileOne fullPull 0).Reflects fullPull.snapshot.key := by
  refine reflects_of_upToDate (Reaches.unconditional _ start_idle) (mem_singleton.mpr rfl)
    (by unfold UpToDate; decide +kernel) ?_
  intro pre event post split
  have events : fullPull.snapshot.events 0 = [.stored ⟨1, 10, none⟩ .device 0,
    .stored ⟨2, 20, some 1⟩ .device 0] := rfl
  rw [events] at split
  rcases pre with _ | ⟨first, _ | ⟨second, pre⟩⟩
  · obtain ⟨rfl, -⟩ := split
    change Tree.Placed _ _
    decide +kernel
  · obtain ⟨rfl, rfl, -⟩ := split
    change Tree.Placed _ _
    decide +kernel
  · simp at split

end Feed
end Infera.Kv
