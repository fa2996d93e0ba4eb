import Infera.Vllm.Connector

/-! What a step of the engine emits, and for whom. Each function of the
scheduler side is specified once: the load entries it adds, the only saves it
may add, and that everything it knows of other requests stays. -/

namespace Infera.Vllm
open Dict List
variable {groups : List (List ℕ)}

theorem minLength_le {g : List ℕ} (mem : g ∈ groups) : minLength groups ≤ g.length :=
  min?_getD_le_of_mem (mem_map_of_mem mem)

theorem minLength_eq_zero (blockless : groups.head?.getD [] = []) : minLength groups = 0 := by
  cases groups with
  | nil => rfl
  | cons g groups =>
    have empty : g = [] := by simpa using blockless
    have shortest := minLength_le (@mem_cons_self _ g groups)
    rw [empty] at shortest ⊢
    exact Nat.le_zero.mp shortest

theorem le_minLength {k : ℕ} (nonempty : groups ≠ [])
    (long : ∀ g ∈ groups, k ≤ g.length) : k ≤ minLength groups := by
  obtain ⟨shortest, least⟩ : ∃ n, (groups.map List.length).min? = some n := by
    rw [← Option.ne_none_iff_exists', ne_eq, min?_eq_none_iff, map_eq_nil_iff]
    exact nonempty
  rw [minLength, least]
  refine (le_min?_iff least).mpr fun n mem => ?_
  obtain ⟨g, group, rfl⟩ := mem_map.mp mem
  exact long g group

namespace Connector
variable {first : GroupSpec} {c : Connector}

/-- The connector knows its cache groups; `first` is the one it reads the block size from. -/
def Grouped (c : Connector) (first : GroupSpec) : Prop :=
  c.groupKvSpec.values.head? = some first

theorem Grouped.blockSizeNow (grouped : c.Grouped first)
    (carried : ℕ) : c.blockSizeNow carried = first.blockSize := by
  obtain ⟨rest, values⟩ := head?_eq_some_iff.mp grouped
  rw [Connector.blockSizeNow, values, find?_cons_of_pos (by simpa using first.positive)]

theorem Grouped.groupIds_ne_nil (grouped : c.Grouped first) : c.groupIds ≠ [] := by
  obtain ⟨rest, values⟩ := head?_eq_some_iff.mp grouped
  have items : c.groupKvSpec.items ≠ [] := by
    intro none
    rw [Dict.values, none] at values
    cases values
  intro none
  have sorted : (c.groupKvSpec.keys.mergeSort (· ≤ ·)).length = 0 := by
    rw [← groupIds, none, length_nil]
  rw [length_mergeSort, Dict.keys, length_map] at sorted
  exact items (length_eq_zero_iff.mp sorted)

theorem exists_grouped (known : c.groupKvSpec.items ≠ []) : ∃ first, c.Grouped first := by
  obtain ⟨item, rest, items⟩ := exists_cons_of_ne_nil known
  exact ⟨item.2, by rw [Grouped, values, items]; rfl⟩

theorem grain_pos (c : Connector) (blockSize : ℕ) : 0 < c.grain blockSize := by
  unfold grain
  omega

section Emission
variable {c : Connector} {first : GroupSpec} (grouped : c.Grouped first) (plan : Metadata)
  (st : SaveState) (emitLoad : Bool) (now : Hash → ℕ)

def pairs (st : SaveState) : ℕ := min (minLength st.blockIdsGroups) st.blockHashes.length

/-- What emitting the chunks of a request adds to the plan. -/
structure Emits (c : Connector) (n : ℕ) (st : SaveState) (emitLoad : Bool) (plan : Metadata)
    (result : Metadata × Connector) : Prop where
  resaved : c.Resaved result.2
  keeps : ∃ more, result.1.packedChunksToLoad = plan.packedChunksToLoad ++ more
  loads : emitLoad = true → ∀ chunk, st.skipBlocks / n ≤ chunk →
    chunk < st.skipBlocks / n + st.nLoad / n → chunk < pairs st / n → ∀ gid ∈ c.groupIds,
    c.chunkEntry st.blockHashes st.blockIdsGroups n chunk gid ∈ result.1.packedChunksToLoad
  only : ∀ e ∈ result.1.packedChunksToLoad, e ∈ plan.packedChunksToLoad ∨ emitLoad = true ∧
    ∃ chunk < pairs st / n, st.skipBlocks / n ≤ chunk ∧ chunk < st.skipBlocks / n + st.nLoad / n ∧
      ∃ gid, e = c.chunkEntry st.blockHashes st.blockIdsGroups n chunk gid
  saves : ∀ e ∈ result.1.packedChunksToSave, e ∈ plan.packedChunksToSave ∨
    ∃ chunk < pairs st / n, ∃ gid ∈ c.groupIds,
      e.toLoadEntry = c.chunkEntry st.blockHashes st.blockIdsGroups n chunk gid
  ids : result.1.loadChunkReqIds = plan.loadChunkReqIds

include grouped in
theorem emits_emitV2Chunks : Emits c (c.grain first.blockSize) st emitLoad plan
      (emitV2Chunks (plan, c) st (pairs st) (min st.nLoad (pairs st)) emitLoad now) := by
  unfold emitV2Chunks
  dsimp only
  rw [show c.groupKvSpec.values.head? = some first from grouped]
  set n := c.grain first.blockSize
  set total := pairs st / n
  obtain ⟨resaved, keeps, loads, saves, ids⟩ := foldl_emitEntry
    (fun p => c.chunkEntry st.blockHashes st.blockIdsGroups n p.1 p.2) emitLoad
    (min (st.skipBlocks / n) total + min (min st.nLoad (pairs st) / n) total) st.retention now
    ((List.range' (min (st.skipBlocks / n) total) (total - min (st.skipBlocks / n) total)).flatMap
      fun chunk => c.groupIds.map fun gid => (chunk, gid)) (plan, c)
  have positions : ∀ p, p ∈ (List.range' (min (st.skipBlocks / n) total)
      (total - min (st.skipBlocks / n) total)).flatMap
        (fun chunk => c.groupIds.map fun gid => (chunk, gid)) ↔
      min (st.skipBlocks / n) total ≤ p.1 ∧ p.1 < total ∧ p.2 ∈ c.groupIds := by
    rintro ⟨chunk, gid⟩
    simp only [mem_flatMap, mem_range'_1, mem_map, Prod.mk.injEq]
    constructor
    · rintro ⟨chunk', ⟨low, high⟩, gid', mem, rfl, rfl⟩
      exact ⟨low, by omega, mem⟩
    · rintro ⟨low, high, mem⟩
      exact ⟨chunk, ⟨low, by omega⟩, gid, mem, rfl, rfl⟩
  have paired : min st.nLoad (pairs st) / n = min (st.nLoad / n) total := by
    rcases le_total st.nLoad (pairs st) with fewer | more
    · rw [min_eq_left fewer, min_eq_left (Nat.div_le_div_right fewer)]
    · rw [min_eq_right more, min_eq_right (Nat.div_le_div_right more)]
  exact {
    resaved
    keeps
    loads := by
      intro emits chunk low high inside gid mem
      have skipped : min (st.skipBlocks / n) total = st.skipBlocks / n :=
        min_eq_left (low.trans inside.le)
      refine (loads _).mpr (.inr ⟨emits, (chunk, gid), (positions _).mpr ⟨?_, inside, mem⟩, ?_, rfl⟩)
      · exact skipped.trans_le low
      · rw [paired, skipped, min_eq_left (min_le_right _ _)]
        rcases min_choice (st.nLoad / n) total with few | all
        · exact few.symm ▸ high
        · exact all.symm ▸ inside.trans_le (Nat.le_add_left _ _)
    only := by
      intro e mem
      refine ((loads e).mp mem).imp_right fun ⟨emits, ⟨chunk, gid⟩, mem, high, same⟩ => ?_
      obtain ⟨low, inside, -⟩ := (positions _).mp mem
      rw [paired] at high
      exact ⟨emits, chunk, inside, by omega, by omega, gid, same⟩
    saves := by
      intro e mem
      refine (saves e mem).imp id ?_
      rintro ⟨⟨chunk, gid⟩, mem, -, same⟩
      obtain ⟨-, inside, group⟩ := (positions _).mp mem
      exact ⟨chunk, inside, gid, group, same⟩
    ids }

include grouped in
theorem emits_emitReqSaveChunks :
    Emits c (c.grain first.blockSize) st emitLoad plan (emitReqSaveChunks (plan, c) st emitLoad now) := by
  have nothing (empty : pairs st = 0) : Emits c (c.grain first.blockSize) st emitLoad plan (plan, c) :=
    { resaved := .refl c
      keeps := ⟨[], (append_nil _).symm⟩
      loads _ chunk _ _ inside := by simp [empty] at inside
      only e mem := .inl mem
      saves e mem := .inl mem
      ids := rfl }
  unfold emitReqSaveChunks
  by_cases blockless : st.blockIdsGroups.head?.getD [] = []
  · rw [if_pos blockless]
    refine nothing ?_
    rw [pairs, minLength_eq_zero blockless, Nat.zero_min]
  · rw [if_neg blockless]
    by_cases pairless : pairs st = 0
    · exact (if_pos pairless).symm ▸ nothing pairless
    · exact (if_neg pairless).symm ▸ emits_emitV2Chunks grouped plan st emitLoad now

end Emission

theorem mem_buildAsyncLoadEntries (grouped : c.Grouped first)
    (hashes : List Hash) (groups : List (List ℕ)) (nPairs nLoad : ℕ) (e : LoadEntry) :
    e ∈ c.buildAsyncLoadEntries hashes groups nPairs nLoad ↔
      ∃ chunk < min (nLoad / c.grain first.blockSize) (nPairs / c.grain first.blockSize),
        ∃ gid ∈ c.groupIds, c.chunkEntry hashes groups (c.grain first.blockSize) chunk gid = e := by
  unfold buildAsyncLoadEntries
  rw [show c.groupKvSpec.values.head? = some first from grouped]
  simp

structure SameConfig (c c' : Connector) : Prop where
  chunkTokens : c'.chunkTokens = c.chunkTokens
  groupKvSpec : c'.groupKvSpec = c.groupKvSpec
  asyncLoad : c'.asyncLoad = c.asyncLoad

/-- So is all that is known of one request. -/
structure SameFor (id : String) (c c' : Connector) : Prop extends SameConfig c c' where
  hashes : c'.pendingBlockHashes.get? id = c.pendingBlockHashes.get? id
  external : c'.pendingExternalBlocks.get? id = c.pendingExternalBlocks.get? id
  loads : c'.asyncPendingLoads.get? id = c.asyncPendingLoads.get? id
  saving : c'.reqSaveState.get? id = c.reqSaveState.get? id

variable {id : String} {c c' c'' : Connector}

theorem SameConfig.refl (c : Connector) : SameConfig c c := ⟨rfl, rfl, rfl⟩

theorem SameConfig.trans (first : SameConfig c c') (second : SameConfig c' c'') :
    SameConfig c c'' :=
  ⟨second.chunkTokens.trans first.chunkTokens, second.groupKvSpec.trans first.groupKvSpec,
    second.asyncLoad.trans first.asyncLoad⟩

section
variable (same : SameConfig c c')
include same

theorem SameConfig.blockSizeNow (carried : ℕ) :
    c'.blockSizeNow carried = c.blockSizeNow carried := by
  rw [Connector.blockSizeNow, Connector.blockSizeNow, same.groupKvSpec]

theorem SameConfig.grain (blockSize : ℕ) : c'.grain blockSize = c.grain blockSize := by
  rw [Connector.grain, Connector.grain, same.chunkTokens]

theorem SameConfig.grouped (grouped : c.Grouped first) : c'.Grouped first := by
  rw [Grouped, same.groupKvSpec]
  exact grouped

theorem SameConfig.groupIds : c'.groupIds = c.groupIds := by
  rw [Connector.groupIds, Connector.groupIds, same.groupKvSpec]

theorem SameConfig.chunkEntry (hashes : List Hash) (groups : List (List ℕ)) (n chunk gid : ℕ) :
    c'.chunkEntry hashes groups n chunk gid = c.chunkEntry hashes groups n chunk gid := by
  rw [Connector.chunkEntry, Connector.chunkEntry, layerNames, layerNames, same.groupKvSpec]

end

theorem SameFor.refl (id : String) (c : Connector) : SameFor id c c := ⟨.refl c, rfl, rfl, rfl, rfl⟩

theorem SameFor.trans (first : SameFor id c c') (second : SameFor id c' c'') : SameFor id c c'' :=
  ⟨first.toSameConfig.trans second.toSameConfig, second.hashes.trans first.hashes,
    second.external.trans first.external, second.loads.trans first.loads,
    second.saving.trans first.saving⟩

theorem Resaved.sameFor (resaved : c.Resaved c') (id : String) : SameFor id c c' := by
  rw [resaved]
  exact ⟨⟨rfl, rfl, rfl⟩, rfl, rfl, rfl, rfl⟩

variable (now : Hash → ℕ) (acc : Metadata × Connector) (cached : CachedReq) (new : NewReq)
  (plan : Metadata) (r : Request) (out : SchedulerOutput) (st : SaveState) (emitLoad : Bool)

theorem sameFor_getNumNewMatchedTokens (other : r.requestId ≠ some id)
    (numComputedTokens : ℕ) (present : Hash → Bool) :
    SameFor id c (c.getNumNewMatchedTokens r numComputedTokens present).2 := by
  unfold getNumNewMatchedTokens
  cases named : r.requestId with
  | none =>
    dsimp only
    split_ifs <;> exact .refl id c
  | some other' =>
    have distinct : id ≠ other' := fun same => other (same ▸ named)
    dsimp only
    split_ifs <;>
      exact ⟨⟨rfl, rfl, rfl⟩, get?_set_of_ne distinct, by simp [get?_set_of_ne distinct], rfl, rfl⟩

theorem sameFor_updateStateAfterAlloc (other : r.requestId ≠ some id)
    (blocks : List (List ℕ)) (numExternalTokens : ℕ) :
    SameFor id c (c.updateStateAfterAlloc r blocks numExternalTokens) := by
  unfold updateStateAfterAlloc
  cases named : r.requestId with
  | none => exact .refl id c
  | some other' =>
    have distinct : id ≠ other' := fun same => other (same ▸ named)
    dsimp only
    split_ifs <;>
      exact ⟨⟨rfl, rfl, rfl⟩, rfl, by simp [get?_set_of_ne distinct],
        by simp [get?_set_of_ne distinct], rfl⟩

theorem sameFor_requestFinished (other : r.requestId.getD "" ≠ id) :
    SameFor id c (c.requestFinished r) :=
  ⟨⟨rfl, rfl, rfl⟩, rfl, rfl, rfl, get?_erase_of_ne other.symm⟩

theorem emitReqSaveChunks_of_unknown (unknown : c.groupKvSpec.values.head? = none) (st : SaveState)
    (emitLoad : Bool) (now : Hash → ℕ) : emitReqSaveChunks (plan, c) st emitLoad now = (plan, c) := by
  unfold emitReqSaveChunks emitV2Chunks
  dsimp only
  rw [unknown]
  split_ifs <;> rfl

theorem resaved_emitReqSaveChunks
    (now : Hash → ℕ) : c.Resaved (emitReqSaveChunks (plan, c) st emitLoad now).2 := by
  cases specs : c.groupKvSpec.values.head? with
  | none =>
    rw [emitReqSaveChunks_of_unknown _ specs]
    exact .refl c
  | some first => exact (emits_emitReqSaveChunks specs plan st emitLoad now).resaved

theorem sameFor_startReq (id : String)
    (other : new.reqId ≠ id) : SameFor id acc.2 (startReq now acc new).2 := by
  unfold startReq
  dsimp only
  split_ifs
  · exact ⟨⟨rfl, rfl, rfl⟩, get?_erase_of_ne other.symm, get?_erase_of_ne other.symm, rfl, rfl⟩
  · refine SameFor.trans ?_ ((resaved_emitReqSaveChunks ..).sameFor id)
    exact ⟨⟨rfl, rfl, rfl⟩, get?_erase_of_ne other.symm, get?_erase_of_ne other.symm,
      rfl, get?_set_of_ne other.symm⟩

section
variable (cached : CachedReq) (new : List (List ℕ))

def tablesNow : List (List ℕ) :=
  if cached.resumed then new else extendTables st.blockIdsGroups new

def stateNow : SaveState :=
  { st with blockIdsGroups := tablesNow st cached new }

end

theorem continueReq_cases : (continueReq now acc cached = acc ∧
      (acc.2.reqSaveState.get? cached.reqId = none ∨ cached.newBlockIds = none)) ∨
    ∃ st new, acc.2.reqSaveState.get? cached.reqId = some st ∧ cached.newBlockIds = some new ∧
      ∃ acc', acc' = emitReqSaveChunks (acc.1, { acc.2 with
          reqSaveState := acc.2.reqSaveState.set cached.reqId (stateNow st cached new) })
          (stateNow st cached new) false now ∧
        continueReq now acc cached = (acc'.1, if reqSaveComplete (stateNow st cached new) then
          { acc'.2 with reqSaveState := acc'.2.reqSaveState.erase cached.reqId } else acc'.2) := by
  cases saving : acc.2.reqSaveState.get? cached.reqId with
  | none => exact .inl ⟨by rw [continueReq, saving], .inl rfl⟩
  | some st =>
    cases extended : cached.newBlockIds with
    | none => exact .inl ⟨by rw [continueReq, saving, extended], .inr rfl⟩
    | some new =>
      refine .inr ⟨st, new, rfl, rfl, _, rfl, ?_⟩
      rw [continueReq, saving, extended]
      by_cases complete : reqSaveComplete (stateNow st cached new) = true
      · rw [if_pos complete]
        exact if_pos complete
      · rw [if_neg complete]
        exact if_neg complete

theorem sameFor_continueReq (id : String) (other : cached.reqId ≠ id) :
    SameFor id acc.2 (continueReq now acc cached).2 := by
  rcases continueReq_cases now acc cached with
    ⟨same, -⟩ | ⟨st, new, saving, extended, acc', emitted, same⟩
  · rw [same]
    exact .refl id acc.2
  · have updated : SameFor id acc.2 { acc.2 with
        reqSaveState := acc.2.reqSaveState.set cached.reqId (stateNow st cached new) } :=
      ⟨⟨rfl, rfl, rfl⟩, rfl, rfl, rfl, get?_set_of_ne other.symm⟩
    have emits : SameFor id acc.2 acc'.2 :=
      updated.trans (emitted ▸ ((resaved_emitReqSaveChunks ..).sameFor id))
    rw [same]
    split_ifs
    · exact emits.trans ⟨⟨rfl, rfl, rfl⟩, rfl, rfl, rfl, get?_erase_of_ne other.symm⟩
    · exact emits

/-- What the engine's scheduler asks of the connector between two steps. -/
inductive SchedulerCall where
  | matched (r : Request) (numComputedTokens : ℕ) (present : Hash → Bool)
  | allocated (r : Request) (blocks : List (List ℕ)) (numExternalTokens : ℕ)
  | finished (r : Request)

def perform (c : Connector) : SchedulerCall → Connector
  | .matched r numComputedTokens present => (c.getNumNewMatchedTokens r numComputedTokens present).2
  | .allocated r blocks numExternalTokens => c.updateStateAfterAlloc r blocks numExternalTokens
  | .finished r => c.requestFinished r

def SchedulerCall.Concerns (id : String) : SchedulerCall → Prop
  | .matched r .. | .allocated r .. => r.requestId = some id
  | .finished r => r.requestId.getD "" = id

theorem sameFor_perform (c : Connector) (call : SchedulerCall)
    (other : ¬call.Concerns id) : SameFor id c (c.perform call) := by
  cases call with
  | matched r numComputedTokens present => exact sameFor_getNumNewMatchedTokens r other ..
  | allocated r blocks numExternalTokens => exact sameFor_updateStateAfterAlloc r other ..
  | finished r => exact sameFor_requestFinished r other

theorem sameFor_performs (c : Connector) (calls : List SchedulerCall)
    (others : ∀ call ∈ calls, ¬call.Concerns id) : SameFor id c (calls.foldl perform c) := by
  induction calls generalizing c with
  | nil => exact .refl id c
  | cons call calls ih =>
    exact (sameFor_perform c call (others call mem_cons_self)).trans
      (ih _ fun call mem => others call (.tail _ mem))

/-- The loads of `plan` are planned first, and no load behind them is for a named request. -/
def Keeps (plan plan' : Metadata) : Prop :=
  (∃ more, plan'.packedChunksToLoad = plan.packedChunksToLoad ++ more) ∧
    plan'.loadChunkReqIds = plan.loadChunkReqIds

theorem Keeps.refl : Keeps plan plan := ⟨⟨[], (append_nil _).symm⟩, rfl⟩

theorem Keeps.trans {plan plan' plan'' : Metadata} (first : Keeps plan plan')
    (second : Keeps plan' plan'') : Keeps plan plan'' := by
  obtain ⟨⟨more, loads⟩, ids⟩ := first
  obtain ⟨⟨more', loads'⟩, ids'⟩ := second
  exact ⟨⟨more ++ more', by rw [loads', loads, append_assoc]⟩, ids'.trans ids⟩

theorem Keeps.mem {plan plan' : Metadata} (keeps : Keeps plan plan') {e : LoadEntry}
    (mem : e ∈ plan.packedChunksToLoad) : e ∈ plan'.packedChunksToLoad := by
  obtain ⟨⟨more, loads⟩, -⟩ := keeps
  exact loads ▸ mem_append_left _ mem

theorem keeps_emitReqSaveChunks
    (now : Hash → ℕ) : Keeps plan (emitReqSaveChunks (plan, c) st emitLoad now).1 := by
  cases specs : c.groupKvSpec.values.head? with
  | none =>
    rw [emitReqSaveChunks_of_unknown _ specs]
    exact .refl _
  | some first =>
    have emits := emits_emitReqSaveChunks specs plan st emitLoad now
    exact ⟨emits.keeps, emits.ids⟩

theorem keeps_startReq : Keeps acc.1 (startReq now acc new).1 := by
  unfold startReq
  dsimp only
  split_ifs
  · exact .refl _
  · exact keeps_emitReqSaveChunks _ _ _ _

theorem keeps_continueReq : Keeps acc.1 (continueReq now acc cached).1 := by
  rcases continueReq_cases now acc cached with ⟨same, -⟩ | ⟨_, _, -, -, acc', emitted, same⟩
  · rw [same]
    exact .refl _
  · rw [same, emitted]
    exact keeps_emitReqSaveChunks _ _ _ _

theorem keeps_foldl {β : Type*} {f : Metadata × Connector → β → Metadata × Connector}
    (step : ∀ acc x, Keeps acc.1 (f acc x).1) (xs : List β) (acc : Metadata × Connector) :
    Keeps acc.1 (xs.foldl f acc).1 := by
  induction xs generalizing acc with
  | nil => exact .refl _
  | cons x xs ih => exact (step acc x).trans (ih _)

def drained (c : Connector) : Connector :=
  if c.asyncLoad then { c with asyncPendingLoads := .empty } else c

theorem drained_eq (c : Connector) :
    c.drained = { c with asyncPendingLoads := c.drained.asyncPendingLoads } := by
  unfold drained
  split_ifs <;> rfl

theorem buildConnectorMeta_of_unknown (unknown : c.groupKvSpec.items = []) (out : SchedulerOutput)
    (now : Hash → ℕ) : c.buildConnectorMeta out now = (c.asyncLoads, c.drained) := by
  unfold buildConnectorMeta drained
  rw [if_pos (by split_ifs <;> exact unknown)]

theorem buildConnectorMeta_of_known (known : c.groupKvSpec.items ≠ []) (out : SchedulerOutput)
    (now : Hash → ℕ) :
    c.buildConnectorMeta out now = out.scheduledCachedReqs.foldl (continueReq now)
      (out.scheduledNewReqs.foldl (startReq now) (c.asyncLoads, c.drained)) := by
  unfold buildConnectorMeta drained
  rw [if_neg (by split_ifs <;> exact known)]

/-- Only the bookkeeping of requests in progress may differ. -/
def Replanned (c c' : Connector) : Prop :=
  c' = { c with
    pendingBlockHashes := c'.pendingBlockHashes
    pendingExternalBlocks := c'.pendingExternalBlocks
    reqSaveState := c'.reqSaveState
    savedContentKeys := c'.savedContentKeys }

theorem Replanned.trans (first : Replanned c c') (second : Replanned c' c'') : Replanned c c'' := by
  unfold Replanned at *
  rw [second, first]

theorem Resaved.replanned (resaved : c.Resaved c') : Replanned c c' := by
  rw [resaved]
  rfl

theorem replanned_startReq : Replanned acc.2 (startReq now acc new).2 := by
  unfold startReq
  dsimp only
  split_ifs
  · rfl
  · exact Replanned.trans (by rfl) (resaved_emitReqSaveChunks ..).replanned

theorem replanned_continueReq : Replanned acc.2 (continueReq now acc cached).2 := by
  rcases continueReq_cases now acc cached with ⟨same, -⟩ | ⟨_, _, -, -, acc', emitted, same⟩
  · rw [same]
    rfl
  · have emits : Replanned acc.2 acc'.2 := by
      rw [emitted]
      exact Replanned.trans (by rfl) (resaved_emitReqSaveChunks ..).replanned
    rw [same]
    split_ifs
    · exact emits.trans rfl
    · exact emits

theorem replanned_foldl {β : Type*} {f : Metadata × Connector → β → Metadata × Connector}
    (step : ∀ acc x, Replanned acc.2 (f acc x).2) (xs : List β) (acc : Metadata × Connector) :
    Replanned acc.2 (xs.foldl f acc).2 := by
  induction xs generalizing acc with
  | nil => rfl
  | cons x xs ih => exact (step acc x).trans (ih _)

section
variable (now : Hash → ℕ)

theorem replanned_buildConnectorMeta : Replanned c.drained (c.buildConnectorMeta out now).2 := by
  by_cases known : c.groupKvSpec.items = []
  · rw [buildConnectorMeta_of_unknown known]
    rfl
  · rw [buildConnectorMeta_of_known known]
    exact (replanned_foldl (replanned_startReq now) _ (c.asyncLoads, c.drained)).trans
      (replanned_foldl (replanned_continueReq now) _ _)

theorem config_buildConnectorMeta : SameConfig c (c.buildConnectorMeta out now).2 := by
  rw [replanned_buildConnectorMeta out now, drained_eq]
  exact ⟨rfl, rfl, rfl⟩

theorem keeps_buildConnectorMeta : Keeps c.asyncLoads (c.buildConnectorMeta out now).1 := by
  by_cases known : c.groupKvSpec.items = []
  · rw [buildConnectorMeta_of_unknown known]
    exact .refl _
  · rw [buildConnectorMeta_of_known known]
    exact (keeps_foldl (keeps_startReq now) _ (c.asyncLoads, c.drained)).trans
      (keeps_foldl (keeps_continueReq now) _ _)

end

theorem mem_asyncLoads {entries : List LoadEntry} (asynchronous : c.asyncLoad = true)
    (pending : c.asyncPendingLoads.get? id = some entries) {e : LoadEntry} (mem : e ∈ entries) :
    e ∈ c.asyncLoads.packedChunksToLoad := by
  unfold asyncLoads
  rw [asynchronous]
  exact mem_flatMap.mpr ⟨(id, entries), (get?_eq_some_iff ..).mp pending, mem⟩

section Fold
variable {β : Type*} {f : Metadata × Connector → β → Metadata × Connector} {idOf : β → String}
  (frame : ∀ acc x id, idOf x ≠ id → SameFor id acc.2 (f acc x).2)

include frame in
theorem sameFor_foldl (id : String) (xs : List β) (acc : Metadata × Connector)
    (others : ∀ x ∈ xs, idOf x ≠ id) : SameFor id acc.2 (xs.foldl f acc).2 := by
  induction xs generalizing acc with
  | nil => exact .refl id _
  | cons x xs ih =>
    exact (frame acc x id (others x mem_cons_self)).trans (ih _ fun y mem => others y (.tail _ mem))

include frame in
theorem foldl_own (xs : List β) (acc : Metadata × Connector) (distinct : (xs.map idOf).Nodup)
    {x : β} (mem : x ∈ xs) :
    ∃ acc', SameFor (idOf x) acc.2 acc'.2 ∧ SameFor (idOf x) (f acc' x).2 (xs.foldl f acc).2 := by
  obtain ⟨before, after, rfl⟩ := append_of_mem mem
  rw [map_append, map_cons, nodup_append] at distinct
  obtain ⟨-, tail, apart⟩ := distinct
  refine ⟨before.foldl f acc, sameFor_foldl frame _ before acc fun y mem same => ?_, ?_⟩
  · exact apart _ (mem_map_of_mem mem) _ mem_cons_self same
  · rw [foldl_append, foldl_cons]
    refine sameFor_foldl frame _ after _ fun y mem same => ?_
    exact (nodup_cons.mp tail).1 (same ▸ mem_map_of_mem mem)

include frame in
/-- What a plan holds of one kind after the turns of several requests is from before or from one of
them. -/
theorem planned_foldl {ε : Type*} (planned : Metadata → List ε) (Plans : Connector → β → ε → Prop)
    (depends : ∀ {c c' x e}, SameFor (idOf x) c c' → Plans c' x e → Plans c x e)
    (turn : ∀ acc x, ∀ e ∈ planned (f acc x).1, e ∈ planned acc.1 ∨ Plans acc.2 x e)
    (xs : List β) (acc : Metadata × Connector) (distinct : (xs.map idOf).Nodup) :
    ∀ e ∈ planned (xs.foldl f acc).1, e ∈ planned acc.1 ∨ ∃ x ∈ xs, Plans acc.2 x e := by
  induction xs generalizing acc with
  | nil => exact fun e mem => .inl mem
  | cons x xs ih =>
    intro e mem
    rw [map_cons, nodup_cons] at distinct
    rcases ih (f acc x) distinct.2 e mem with before | ⟨y, later, plans⟩
    · refine (turn acc x e before).imp_right fun plans => ⟨x, mem_cons_self, plans⟩
    · have apart : idOf x ≠ idOf y := fun same => distinct.1 (same ▸ mem_map_of_mem later)
      exact .inr ⟨y, mem_cons_of_mem _ later, depends (frame acc x _ apart) plans⟩

end Fold

/-- What the probe of a request answers and remembers: the tokens up to the end of a chunk of the
prompt, and the pages that makes. -/
structure Promises (c : Connector) (r : Request) (id : String) (numComputedTokens : ℕ)
    (result : (ℕ × Bool) × Connector) : Prop where
  config : SameConfig c result.2
  loads : result.2.asyncPendingLoads = c.asyncPendingLoads
  saving : result.2.reqSaveState = c.reqSaveState
  hashes : result.2.pendingBlockHashes.get? id = some (r.extractBlockHashesAfter 0)
  parks : result.1.2 = true ↔ c.asyncLoad = true ∧ 0 < result.1.1
  pages : 0 < result.1.1 → ∃ chunks,
    chunks * c.grain (c.blockSizeNow r.extractBlockSize) ≤ (r.extractBlockHashesAfter 0).length ∧
      result.1.1 = chunks * c.grain (c.blockSizeNow r.extractBlockSize) *
        c.blockSizeNow r.extractBlockSize - numComputedTokens ∧
      result.2.pendingExternalBlocks.get? id = some (result.1.1 / c.blockSizeNow r.extractBlockSize)

theorem hits_le (present : Hash → Bool) (keyOf : ℕ → Hash) {skip total : ℕ} (inside : skip ≤ total) :
    skip + (((List.range' skip (total - skip)).map keyOf).takeWhile present).length ≤ total := by
  have hits := (takeWhile_sublist present
    (l := (List.range' skip (total - skip)).map keyOf)).length_le
  rw [length_map, length_range'] at hits
  omega

theorem promises_getNumNewMatchedTokens (named : r.requestId = some id)
    (numComputedTokens : ℕ) (present : Hash → Bool) :
    Promises c r id numComputedTokens (c.getNumNewMatchedTokens r numComputedTokens present) := by
  have hashes := get?_set_self c.pendingBlockHashes id (r.extractBlockHashesAfter 0)
  unfold getNumNewMatchedTokens
  rw [named]
  dsimp only
  set c' : Connector := { c with pendingBlockHashes := c.pendingBlockHashes.set id (r.extractBlockHashesAfter 0) }
  have config : SameConfig c c' := ⟨rfl, rfl, rfl⟩
  set blockSize := c.blockSizeNow r.extractBlockSize
  set n := c.grain blockSize
  split_ifs with nonPaged beyond missed
  · exact ⟨config, rfl, rfl, hashes, by simp, fun promised => absurd promised (lt_irrefl 0)⟩
  · exact ⟨config, rfl, rfl, hashes, by simp, fun promised => absurd promised (lt_irrefl 0)⟩
  · exact ⟨⟨rfl, rfl, rfl⟩, rfl, rfl, hashes, by simp, fun promised => absurd promised (lt_irrefl 0)⟩
  · refine ⟨⟨rfl, rfl, rfl⟩, rfl, rfl, hashes, by simp,
      fun promised => ⟨_, ?_, rfl, get?_set_self ..⟩⟩
    push Not at beyond
    calc _ ≤ (r.extractBlockHashesAfter 0).length / n * n :=
          Nat.mul_le_mul_right n (hits_le present _ beyond.2.le)
      _ ≤ _ := Nat.div_mul_le_self _ _

/-- Two tokens a page, one group, and no call so far. -/
def idle (chunkTokens : ℕ) : Connector where
  chunkTokens
  groupKvSpec := Dict.empty.set 0 ⟨2, Nat.two_pos, ["layer"]⟩
  hasNonPagedGroups := false
  asyncLoad := false
  savedContentTtl := none
  maxSavedContentKeys := 8
  pendingBlockHashes := .empty
  pendingExternalBlocks := .empty
  asyncPendingLoads := .empty
  reqSaveState := .empty
  savedContentKeys := .empty

end Connector
end Infera.Vllm
