import Infera.Vllm.Emission

/-! The engine treats the external pages of an admitted request as computed,
because the connector said so. Here an admission is the probe, the allocation
that may take fewer pages than were offered, whatever the scheduler asks about
other requests, and the plan of the step. The plan covers the external pages
when they begin and end on chunk boundaries; asynchronous loads begin at the
first page, and a preempted request that comes back gets no synchronous load.
Where no other load of the step goes to the same blocks, it covers them only
then. -/

namespace Infera.Vllm
open Connector List Option
/-- A request admitted with `localPages` in the engine's own cache and `externalPages` behind them
on the connector's word. -/
structure Admission where
  request : Request
  id : String
  named : request.requestId = some id
  localPages : ℕ
  externalPages : ℕ
  present : Hash → Bool
  blocks : List (List ℕ)
  resumed : Bool

namespace Admission
variable (a : Admission) (c : Connector)

def blockSize : ℕ := c.blockSizeNow a.request.extractBlockSize

def pagesPerChunk : ℕ := c.grain (a.blockSize c)

def hashes : List Hash := a.request.extractBlockHashesAfter 0

def answer : (ℕ × Bool) × Connector :=
  c.getNumNewMatchedTokens a.request (a.localPages * a.blockSize c) a.present

def allocated : Connector :=
  (a.answer c).2.updateStateAfterAlloc a.request a.blocks (a.externalPages * a.blockSize c)

def plan (calls : List Connector.SchedulerCall) (out : SchedulerOutput) (now : Hash → ℕ) :
    Metadata :=
  ((calls.foldl Connector.perform (a.allocated c)).buildConnectorMeta out now).1

/-- How the engine admits: it takes at most what was offered and has a block for every page it
counts as computed. A request that does not wait for its load and was not preempted is among the
new ones of the step's output. -/
structure Scheduled (calls : List Connector.SchedulerCall) (out : SchedulerOutput) : Prop where
  granted : a.externalPages * a.blockSize c ≤ (a.answer c).1.1
  others : ∀ call ∈ calls, ¬call.Concerns a.id
  grouped : a.blocks ≠ []
  tables : ∀ g ∈ a.blocks, a.localPages + a.externalPages ≤ g.length
  first : (a.answer c).1.2 = false → a.resumed = false →
    ∃ before new after, out.scheduledNewReqs = before ++ new :: after ∧
      (∀ other ∈ before, other.reqId ≠ a.id) ∧ new.reqId = a.id ∧ new.blockIds = a.blocks ∧
      new.numComputedTokens = (a.localPages + a.externalPages) * a.blockSize c

def row (page : ℕ) : List ℕ := a.blocks.map fun g => g.getD page 0

/-- The blocks of the external pages are this admission's alone: no earlier load of the request is
pending, no load of another request goes there, no request is listed twice or while it waits, and
some table of the request lists no block twice. -/
structure Exclusive (calls : List Connector.SchedulerCall) (out : SchedulerOutput) : Prop where
  fresh : c.asyncPendingLoads.get? a.id = none
  pending : ∀ id entries, id ≠ a.id → (calls.foldl Connector.perform
    (a.allocated c)).asyncPendingLoads.get? id = some entries → ∀ e ∈ entries, ∀ page,
      a.localPages ≤ page → page < a.localPages + a.externalPages → a.row page ∉ e.perPageBlockIds
  started : ∀ new ∈ out.scheduledNewReqs, new.reqId ≠ a.id → ∀ page, a.localPages ≤ page →
    page < a.localPages + a.externalPages → ∀ k, (new.blockIds.map fun g => g.getD k 0) ≠ a.row page
  distinct : (out.scheduledNewReqs.map NewReq.reqId).Nodup
  listed : ∀ new ∈ out.scheduledNewReqs, new.reqId = a.id →
    (a.answer c).1.2 = false ∧ a.resumed = false
  table : ∃ g ∈ a.blocks, g.Nodup

/-- Every external page has, in every cache group, a load of its chunk into its block. -/
def Covers (plan : Metadata) : Prop :=
  ∀ page, a.localPages ≤ page → page < a.localPages + a.externalPages →
    c.groupIds ≠ [] ∧ ∀ gid ∈ c.groupIds, ∃ e ∈ plan.packedChunksToLoad, e.gid = gid ∧
      e.key = groupChunkKey (chunkKvdKeyFor a.hashes
        (page / a.pagesPerChunk c * a.pagesPerChunk c) (a.pagesPerChunk c)) gid ∧
      e.perPageBlockIds[page % a.pagesPerChunk c]? = some (a.blocks.map fun g => g.getD page 0)

/-- Whole chunks are taken, by a path that loads them. -/
def Aligned : Prop :=
  a.externalPages = 0 ∨ c.groupKvSpec.items ≠ [] ∧
    if c.asyncLoad then a.localPages = 0 ∧ a.pagesPerChunk c ∣ a.externalPages
    else a.resumed = false ∧ a.pagesPerChunk c ∣ a.localPages ∧ a.pagesPerChunk c ∣ a.externalPages

theorem promises_answer : c.Promises a.request a.id (a.localPages * a.blockSize c) (a.answer c) :=
  c.promises_getNumNewMatchedTokens a.request a.named (a.localPages * a.blockSize c) a.present

variable {a c}

theorem chunkEntry_row (page gid : ℕ) :
    (c.chunkEntry a.hashes a.blocks (a.pagesPerChunk c) (page / a.pagesPerChunk c)
      gid).perPageBlockIds[page % a.pagesPerChunk c]? =
        some (a.blocks.map fun g => g.getD page 0) := by
  have inside : page % a.pagesPerChunk c < a.pagesPerChunk c :=
    Nat.mod_lt page (c.grain_pos (a.blockSize c))
  have position := Nat.div_add_mod' page (a.pagesPerChunk c)
  simp only [chunkEntry, getElem?_map]
  rw [getElem?_range inside]
  simp [position]

theorem covers_of_chunks {plan : Metadata}
    (chunks : ∀ page, a.localPages ≤ page → page < a.localPages + a.externalPages →
      c.groupIds ≠ [] ∧ ∀ gid ∈ c.groupIds, c.chunkEntry a.hashes a.blocks (a.pagesPerChunk c)
        (page / a.pagesPerChunk c) gid ∈ plan.packedChunksToLoad) : a.Covers c plan := by
  intro page low high
  obtain ⟨groups, entries⟩ := chunks page low high
  exact ⟨groups, fun gid group => ⟨_, entries gid group, rfl, rfl, chunkEntry_row page gid⟩⟩

theorem config_allocated : SameConfig c (a.allocated c) := by
  refine (a.promises_answer c).config.trans ?_
  unfold allocated updateStateAfterAlloc
  rw [a.named]
  dsimp only
  split_ifs <;> exact ⟨rfl, rfl, rfl⟩

section Granted
variable {first : GroupSpec} (grouped : c.Grouped first)

include grouped in
theorem blockSize_eq : a.blockSize c = first.blockSize := grouped.blockSizeNow _

include grouped in
section
variable (external : 0 < a.externalPages)
  (granted : a.externalPages * a.blockSize c ≤ (a.answer c).1.1)
include external granted

theorem granted_pages :
    a.localPages + a.externalPages ≤ a.hashes.length ∧
      ∃ promised, (a.answer c).2.pendingExternalBlocks.get? a.id = some promised ∧
        a.externalPages ≤ promised := by
  have positive : 0 < a.blockSize c := (blockSize_eq grouped).symm ▸ first.positive
  have promises := a.promises_answer c
  have offered : 0 < (a.answer c).1.1 := (Nat.mul_pos external positive).trans_le granted
  obtain ⟨chunks, inside, tokens, remembered⟩ := promises.pages offered
  change (a.answer c).1.1 =
    chunks * a.pagesPerChunk c * a.blockSize c - a.localPages * a.blockSize c at tokens
  rw [← Nat.sub_mul] at tokens
  rw [tokens] at granted
  have taken := Nat.le_of_mul_le_mul_right granted positive
  refine ⟨?_, _, remembered, (Nat.le_div_iff_mul_le positive).mpr (tokens ▸ granted)⟩
  change chunks * a.pagesPerChunk c ≤ a.hashes.length at inside
  omega

include grouped in
theorem settled_pages :
    min (((a.answer c).2.pendingExternalBlocks.get? a.id).getD (a.externalPages * a.blockSize c /
          max ((a.answer c).2.blockSizeNow a.request.extractBlockSize) 1))
      (a.externalPages * a.blockSize c /
        max ((a.answer c).2.blockSizeNow a.request.extractBlockSize) 1) = a.externalPages := by
  have positive : 0 < a.blockSize c := (blockSize_eq grouped).symm ▸ first.positive
  have config := (a.promises_answer c).config
  obtain ⟨-, promised, remembered, enough⟩ := granted_pages grouped external granted
  have size : max ((a.answer c).2.blockSizeNow a.request.extractBlockSize) 1 = a.blockSize c :=
    (congrArg (max · 1) (config.blockSizeNow _)).trans (max_eq_left positive)
  rw [remembered, size, Nat.mul_div_cancel _ positive, getD_some, min_eq_right enough]

end

include grouped in
theorem allocated_sync (synchronous : c.asyncLoad = false) (external : 0 < a.externalPages)
    (granted : a.externalPages * a.blockSize c ≤ (a.answer c).1.1) :
    (a.allocated c).pendingBlockHashes.get? a.id = some a.hashes ∧
      (a.allocated c).pendingExternalBlocks.get? a.id = some a.externalPages := by
  have promises := a.promises_answer c
  have sync : (a.answer c).2.asyncLoad = false := promises.config.asyncLoad.trans synchronous
  have settled := settled_pages grouped external granted
  unfold allocated updateStateAfterAlloc
  rw [a.named]
  dsimp only
  rw [settled, if_neg (by simp [sync])]
  exact ⟨promises.hashes, Dict.get?_set_self ..⟩

include grouped in
theorem allocated_async (asynchronous : c.asyncLoad = true) (external : 0 < a.externalPages)
    (enough : a.pagesPerChunk c ≤ a.externalPages) (nonempty : a.blocks ≠ [])
    (tables : ∀ g ∈ a.blocks, a.localPages + a.externalPages ≤ g.length)
    (granted : a.externalPages * a.blockSize c ≤ (a.answer c).1.1) :
      ∃ entries, entries ≠ [] ∧ (a.allocated c).asyncPendingLoads.get? a.id = some entries ∧
        ∀ chunk < a.externalPages / a.pagesPerChunk c, ∀ gid ∈ c.groupIds,
          c.chunkEntry a.hashes a.blocks (a.pagesPerChunk c) chunk gid ∈ entries := by
  have promises := a.promises_answer c
  have settled := settled_pages grouped external granted
  obtain ⟨inPrompt, -⟩ := granted_pages grouped external granted
  have paired : a.externalPages ≤ min (minLength a.blocks) a.hashes.length :=
    le_min (le_minLength nonempty fun g mem => by have := tables g mem; omega) (by omega)
  have pagesPerChunk : a.pagesPerChunk c = c.grain first.blockSize := by
    rw [pagesPerChunk, blockSize_eq grouped]
  have hashed : a.hashes ≠ [] := by
    intro none
    simp only [none, length_nil] at inPrompt
    omega
  have blocked : a.blocks.head?.getD [] ≠ [] := by
    intro none
    rw [minLength_eq_zero none] at paired
    omega
  unfold allocated updateStateAfterAlloc
  rw [a.named]
  dsimp only
  rw [settled, promises.hashes, getD_some, ← hashes,
    if_pos ⟨promises.config.asyncLoad.trans asynchronous, external, hashed, blocked⟩]
  set c' : Connector := { (a.answer c).2 with
    pendingExternalBlocks := (a.answer c).2.pendingExternalBlocks.set a.id a.externalPages }
  have config : SameConfig c c' := promises.config.trans ⟨rfl, rfl, rfl⟩
  set entries := c'.buildAsyncLoadEntries a.hashes a.blocks
    (min (minLength a.blocks) a.hashes.length)
    (min a.externalPages (min (minLength a.blocks) a.hashes.length)) with planned
  have chunks : ∀ chunk < a.externalPages / a.pagesPerChunk c, ∀ gid ∈ c.groupIds,
      c.chunkEntry a.hashes a.blocks (a.pagesPerChunk c) chunk gid ∈ entries := by
    intro chunk inside gid group
    rw [planned, mem_buildAsyncLoadEntries (config.grouped grouped), config.grain,
      min_eq_left paired, ← pagesPerChunk]
    exact ⟨chunk, lt_min inside (inside.trans_le (Nat.div_le_div_right paired)), gid,
      config.groupIds.symm ▸ group, config.chunkEntry ..⟩
  have some : entries ≠ [] := by
    obtain ⟨gid, group⟩ := exists_mem_of_ne_nil _ grouped.groupIds_ne_nil
    exact ne_nil_of_mem (chunks 0 (Nat.div_pos enough (c.grain_pos _)) gid group)
  rw [if_neg some]
  exact ⟨entries, some, Dict.get?_set_self .., chunks⟩

end Granted

theorem startReq_loads {first : GroupSpec} (grouped : c.Grouped first) (now : Hash → ℕ)
    (earlier : Metadata) (new : NewReq) (hashes : List Hash) (localPages externalPages : ℕ)
    (stashed : c.pendingBlockHashes.get? new.reqId = some hashes)
    (promised : c.pendingExternalBlocks.get? new.reqId = some externalPages)
    (computed : new.numComputedTokens = (localPages + externalPages) * first.blockSize)
    (paired : localPages + externalPages ≤ min (minLength new.blockIds) hashes.length)
    (chunk gid : ℕ) (group : gid ∈ c.groupIds) (low : localPages / c.grain first.blockSize ≤ chunk)
    (high : chunk < localPages / c.grain first.blockSize + externalPages / c.grain first.blockSize) :
    c.chunkEntry hashes new.blockIds (c.grain first.blockSize) chunk gid ∈
      (startReq now (earlier, c) new).1.packedChunksToLoad := by
  set n := c.grain first.blockSize
  have inside : chunk < min (minLength new.blockIds) hashes.length / n :=
    calc chunk < localPages / n + externalPages / n := high
      _ ≤ (localPages + externalPages) / n := Nat.div_add_div_le_add_div ..
      _ ≤ _ := Nat.div_le_div_right paired
  have positive : 0 < min (minLength new.blockIds) hashes.length := by
    by_contra none
    rw [Nat.le_zero.mp (not_lt.mp none), Nat.zero_div] at inside
    omega
  have blocked : ¬(new.blockIds.head?.getD [] = [] ∨ hashes = []) := by
    rintro (none | none)
    · rw [minLength_eq_zero none] at positive
      omega
    · rw [none] at positive
      simp at positive
  unfold startReq
  dsimp only
  rw [stashed, promised, getD_some, getD_some, if_neg blocked]
  set c' : Connector := { c with
    pendingBlockHashes := c.pendingBlockHashes.erase new.reqId
    pendingExternalBlocks := c.pendingExternalBlocks.erase new.reqId }
  have config' : SameConfig c c' := ⟨rfl, rfl, rfl⟩
  have skipped : new.numComputedTokens / max 1 (c'.blockSizeNow 16) - externalPages =
      localPages := by
    rw [(config'.grouped grouped).blockSizeNow, max_eq_right first.positive, computed,
      Nat.mul_div_cancel _ first.positive, Nat.add_sub_cancel]
  rw [skipped]
  set st : SaveState := ⟨new.blockIds, hashes, new.extractRetention, externalPages, localPages⟩
  have config : SameConfig c { c' with reqSaveState := c'.reqSaveState.set new.reqId st } :=
    ⟨rfl, rfl, rfl⟩
  have emits := emits_emitReqSaveChunks (config.grouped grouped) earlier st true now
  exact emits.loads rfl chunk low high inside gid (config.groupIds.symm ▸ group)

theorem planned_chunks {calls : List SchedulerCall} {out : SchedulerOutput}
    (now : Hash → ℕ) (scheduled : a.Scheduled c calls out) (aligned : a.Aligned c) (page : ℕ)
    (low : a.localPages ≤ page) (high : page < a.localPages + a.externalPages) :
    c.groupIds ≠ [] ∧ ∀ gid ∈ c.groupIds, c.chunkEntry a.hashes a.blocks (a.pagesPerChunk c)
      (page / a.pagesPerChunk c) gid ∈ (a.plan c calls out now).packedChunksToLoad := by
  have external : 0 < a.externalPages := by omega
  obtain ⟨known, path⟩ := aligned.resolve_left external.ne'
  obtain ⟨first, grouped⟩ := exists_grouped known
  have others := sameFor_performs (a.allocated c) calls scheduled.others
  refine ⟨grouped.groupIds_ne_nil, fun gid group => ?_⟩
  cases asynchronous : c.asyncLoad with
  | true =>
    rw [asynchronous] at path
    obtain ⟨fromStart, whole⟩ := path
    obtain ⟨entries, -, pending, chunks⟩ := allocated_async grouped asynchronous external
      (Nat.le_of_dvd external whole) scheduled.grouped scheduled.tables scheduled.granted
    have inside : page / a.pagesPerChunk c < a.externalPages / a.pagesPerChunk c :=
      Nat.div_lt_div_of_lt_of_dvd whole (by omega)
    exact (keeps_buildConnectorMeta out now).mem (mem_asyncLoads
      ((others.asyncLoad.trans config_allocated.asyncLoad).trans asynchronous) (others.loads.trans pending)
      (chunks _ inside gid group))
  | false =>
    rw [asynchronous] at path
    obtain ⟨fresh, wholeLocal, whole⟩ := path
    obtain ⟨hashes, pages⟩ := allocated_sync grouped asynchronous external scheduled.granted
    obtain ⟨inPrompt, -⟩ := granted_pages grouped external scheduled.granted
    have answered : (a.answer c).1.2 = false := by
      rw [← Bool.not_eq_true, (a.promises_answer c).parks, asynchronous]
      simp
    obtain ⟨before, new, after, news, earlier, self, blocks, computed⟩ :=
      scheduled.first answered fresh
    set c' := calls.foldl perform (a.allocated c)
    have config : SameConfig c c' := config_allocated.trans others.toSameConfig
    set acc := before.foldl (startReq now) (c'.asyncLoads, c')
    have same : SameFor a.id c' acc.2 := sameFor_foldl (sameFor_startReq now) a.id before
        (c'.asyncLoads, c') earlier
    have total := config.trans same.toSameConfig
    have size : a.blockSize c = first.blockSize := blockSize_eq grouped
    have emitted := startReq_loads (total.grouped grouped) now acc.1 new a.hashes a.localPages
      a.externalPages (self.symm ▸ same.hashes.trans (others.hashes.trans hashes))
      (self.symm ▸ same.external.trans (others.external.trans pages)) (size ▸ computed)
      (le_min (blocks.symm ▸ le_minLength scheduled.grouped scheduled.tables) inPrompt)
      (page / a.pagesPerChunk c) gid (total.groupIds.symm ▸ group)
    rw [total.grain, ← size, ← pagesPerChunk, total.chunkEntry, blocks] at emitted
    have through := emitted (Nat.div_le_div_right low) (by
      rw [← Nat.add_div_of_dvd_right wholeLocal]
      exact Nat.div_lt_div_of_lt_of_dvd (dvd_add wholeLocal whole) high)
    have drained : c'.drained = c' := if_neg (by rw [config.asyncLoad, asynchronous]; simp)
    rw [plan, buildConnectorMeta_of_known (config.groupKvSpec ▸ known), drained, news,
      foldl_append, foldl_cons]
    exact (keeps_foldl (keeps_continueReq now) _ _).mem
      ((keeps_foldl (keeps_startReq now) _ _).mem through)

section Converse
variable {first : GroupSpec} {e : LoadEntry}

/-- The loads that starting a request plans. -/
def StartLoads (c : Connector) (new : NewReq) (e : LoadEntry) : Prop :=
  ∃ first, c.Grouped first ∧ ∃ hashes external skip chunk gid n,
    (c.pendingBlockHashes.get? new.reqId).getD [] = hashes ∧
    (c.pendingExternalBlocks.get? new.reqId).getD 0 = external ∧
    new.numComputedTokens / first.blockSize - external = skip ∧ c.grain first.blockSize = n ∧
    chunk < min (minLength new.blockIds) hashes.length / n ∧ skip / n ≤ chunk ∧
    chunk < skip / n + external / n ∧ e = c.chunkEntry hashes new.blockIds n chunk gid

theorem StartLoads.of_sameFor {c c' : Connector} {new : NewReq} (same : SameFor new.reqId c c')
    (loads : StartLoads c' new e) : StartLoads c new e := by
  obtain ⟨first, grouped, hashes, external, skip, chunk, gid, n, stashed, promised, rest⟩ := loads
  rw [same.toSameConfig.grain, same.toSameConfig.chunkEntry] at rest
  refine ⟨first, ?_, hashes, external, skip, chunk, gid, n, same.hashes ▸ stashed,
    same.external ▸ promised, rest⟩
  rw [Grouped, ← same.groupKvSpec]
  exact grouped

theorem loads_emitReqSaveChunks (plan : Metadata) (st : SaveState) (emitLoad : Bool)
    (now : Hash → ℕ) : ∀ e ∈ (emitReqSaveChunks (plan, c) st emitLoad now).1.packedChunksToLoad,
      e ∈ plan.packedChunksToLoad ∨ emitLoad = true ∧ ∃ first, c.Grouped first ∧
        ∃ chunk < pairs st / c.grain first.blockSize,
          st.skipBlocks / c.grain first.blockSize ≤ chunk ∧
          chunk < st.skipBlocks / c.grain first.blockSize + st.nLoad / c.grain first.blockSize ∧
          ∃ gid, e = c.chunkEntry st.blockHashes st.blockIdsGroups (c.grain first.blockSize)
            chunk gid := by
  intro e mem
  cases specs : c.groupKvSpec.values.head? with
  | none =>
    rw [emitReqSaveChunks_of_unknown _ specs] at mem
    exact .inl mem
  | some first =>
    refine ((emits_emitReqSaveChunks specs plan st emitLoad now).only e mem).imp_right ?_
    exact fun ⟨emits, loads⟩ => ⟨emits, first, specs, loads⟩

theorem loads_startReq (now : Hash → ℕ) (acc : Metadata × Connector) (new : NewReq) :
    ∀ e ∈ (startReq now acc new).1.packedChunksToLoad,
      e ∈ acc.1.packedChunksToLoad ∨ StartLoads acc.2 new e := by
  intro e mem
  unfold startReq at mem
  dsimp only at mem
  split_ifs at mem
  · exact .inl mem
  · refine (loads_emitReqSaveChunks _ _ _ _ e mem).imp_right fun loads => ?_
    obtain ⟨-, first, grouped, chunk, inside, low, high, gid, same⟩ := loads
    change acc.2.Grouped first at grouped
    have size : max 1 (acc.2.blockSizeNow 16) = first.blockSize := by
      rw [grouped.blockSizeNow, max_eq_right first.positive]
    exact ⟨first, grouped, _, _, new.numComputedTokens / max 1 (acc.2.blockSizeNow 16) - _, chunk,
      gid, _, rfl, rfl, by rw [size], rfl, inside, low, high, same⟩

theorem loads_continueReq (now : Hash → ℕ) (acc : Metadata × Connector) (cached : CachedReq) :
    ∀ e ∈ (continueReq now acc cached).1.packedChunksToLoad, e ∈ acc.1.packedChunksToLoad := by
  intro e mem
  rcases continueReq_cases now acc cached with ⟨same, -⟩ | ⟨st, new, -, -, acc', emitted, same⟩
  · exact same ▸ mem
  · rw [same, emitted] at mem
    exact (loads_emitReqSaveChunks _ _ _ _ e mem).resolve_right fun loads => nomatch loads.1

/-- A step loads what was pending and what the requests it starts need. -/
theorem loads_buildConnectorMeta (out : SchedulerOutput) (now : Hash → ℕ)
    (distinct : (out.scheduledNewReqs.map NewReq.reqId).Nodup) :
    ∀ e ∈ (c.buildConnectorMeta out now).1.packedChunksToLoad,
      (c.asyncLoad = true ∧ ∃ id entries, c.asyncPendingLoads.get? id = some entries ∧ e ∈ entries) ∨
        ∃ new ∈ out.scheduledNewReqs, StartLoads c new e := by
  intro e mem
  have pending (mem : e ∈ c.asyncLoads.packedChunksToLoad) : c.asyncLoad = true ∧
      ∃ id entries, c.asyncPendingLoads.get? id = some entries ∧ e ∈ entries := by
    unfold asyncLoads at mem
    obtain ⟨⟨id, entries⟩, listed, mem⟩ := mem_flatMap.mp mem
    split_ifs at listed with asynchronous
    · exact ⟨asynchronous, id, entries, (Dict.get?_eq_some_iff ..).mpr listed, mem⟩
    · cases listed
  by_cases known : c.groupKvSpec.items = []
  · rw [buildConnectorMeta_of_unknown known] at mem
    exact .inl (pending mem)
  rw [buildConnectorMeta_of_known known] at mem
  have started : e ∈ (out.scheduledNewReqs.foldl (startReq now)
      (c.asyncLoads, c.drained)).1.packedChunksToLoad := by
    generalize out.scheduledNewReqs.foldl (startReq now) (c.asyncLoads, c.drained) = acc at mem
    generalize out.scheduledCachedReqs = cacheds at mem
    induction cacheds generalizing acc with
    | nil => exact mem
    | cons cached rest ih => exact loads_continueReq now acc cached e (ih _ mem)
  refine (planned_foldl (sameFor_startReq now) _ StartLoads StartLoads.of_sameFor
    (loads_startReq now) _ _ distinct e started).imp pending ?_
  rintro ⟨new, listed, loads⟩
  rw [drained_eq] at loads
  exact ⟨new, listed, loads⟩

theorem pending_allocated (grouped : c.Grouped first) (fresh : c.asyncPendingLoads.get? a.id = none)
    (external : 0 < a.externalPages)
    (granted : a.externalPages * a.blockSize c ≤ (a.answer c).1.1) {entries : List LoadEntry}
    (pending : (a.allocated c).asyncPendingLoads.get? a.id = some entries) (mem : e ∈ entries) :
    ∃ chunk < min (minLength a.blocks) a.hashes.length / a.pagesPerChunk c,
      chunk < a.externalPages / a.pagesPerChunk c ∧
        ∃ gid, e = c.chunkEntry a.hashes a.blocks (a.pagesPerChunk c) chunk gid := by
  have promises := a.promises_answer c
  have settled := settled_pages grouped external granted
  have unpending : (a.answer c).2.asyncPendingLoads.get? a.id = none := by
    rw [promises.loads, fresh]
  unfold allocated updateStateAfterAlloc at pending
  rw [a.named] at pending
  dsimp only at pending
  rw [settled, promises.hashes, getD_some, ← hashes] at pending
  split_ifs at pending with loads none
  · exact absurd (unpending.symm.trans pending) (by simp)
  · cases (Dict.get?_set_self ..).symm.trans pending
    have config : SameConfig c { (a.answer c).2 with
        pendingExternalBlocks := (a.answer c).2.pendingExternalBlocks.set a.id a.externalPages } :=
      promises.config.trans ⟨rfl, rfl, rfl⟩
    rw [mem_buildAsyncLoadEntries (config.grouped grouped), config.grain] at mem
    obtain ⟨chunk, inside, gid, -, rfl⟩ := mem
    rw [pagesPerChunk, blockSize_eq grouped]
    obtain ⟨few, paired⟩ := lt_min_iff.mp inside
    exact ⟨chunk, paired, few.trans_le (Nat.div_le_div_right (min_le_left ..)), gid,
      config.chunkEntry ..⟩
  · exact absurd (unpending.symm.trans pending) (by simp)

variable {calls : List SchedulerCall} {out : SchedulerOutput} {now : Hash → ℕ} {page : ℕ}

theorem row_of_chunkEntry {hashes : List Hash} {groups : List (List ℕ)} {n chunk gid p : ℕ}
    {row : List ℕ} (found : (c.chunkEntry hashes groups n chunk gid).perPageBlockIds[p]? = some row) :
    p < n ∧ (groups.map fun g => g.getD (chunk * n + p) 0) = row := by
  obtain ⟨q, listed, same⟩ := map_eq_some_iff.mp (List.getElem?_map.symm.trans found)
  obtain ⟨inside, rfl⟩ := List.getElem?_eq_some_iff.mp listed
  rw [getElem_range] at same
  exact ⟨by simpa using inside, same⟩

/-- A load into the row of an external page is one of the admission's own chunks. -/
theorem own_chunk (scheduled : a.Scheduled c calls out) (exclusive : a.Exclusive c calls out)
    (grouped : c.Grouped first) (low : a.localPages ≤ page)
    (high : page < a.localPages + a.externalPages)
    (planned : e ∈ (a.plan c calls out now).packedChunksToLoad)
    (into : a.row page ∈ e.perPageBlockIds) :
    ∃ chunk < min (minLength a.blocks) a.hashes.length / a.pagesPerChunk c,
      (∃ gid, e = c.chunkEntry a.hashes a.blocks (a.pagesPerChunk c) chunk gid) ∧
        if c.asyncLoad then chunk < a.externalPages / a.pagesPerChunk c
        else a.resumed = false ∧ chunk < a.localPages / a.pagesPerChunk c +
          a.externalPages / a.pagesPerChunk c := by
  have external : 0 < a.externalPages := by omega
  have others := sameFor_performs (a.allocated c) calls scheduled.others
  have size : a.blockSize c = first.blockSize := blockSize_eq grouped
  have parks := (a.promises_answer c).parks
  have offered : 0 < (a.answer c).1.1 :=
    (Nat.mul_pos external (size ▸ first.positive)).trans_le scheduled.granted
  have config : SameConfig c (calls.foldl perform (a.allocated c)) :=
    config_allocated.trans others.toSameConfig
  rcases loads_buildConnectorMeta out now exclusive.distinct e planned with
    ⟨asynchronous, id, entries, pending, mem⟩ | ⟨new, listed, loads⟩
  · by_cases own : id = a.id
    · subst own
      rw [others.loads] at pending
      obtain ⟨chunk, inside, few, gid, same⟩ :=
        pending_allocated grouped exclusive.fresh external scheduled.granted pending mem
      rw [config.asyncLoad] at asynchronous
      exact ⟨chunk, inside, ⟨gid, same⟩, by rwa [if_pos asynchronous]⟩
    · exact absurd into (exclusive.pending id entries own pending e mem page low high)
  · obtain ⟨first', grouped', hashes, promised, skip, chunk, gid, n, stashed, kept, skipped, grain,
      inside, -, few, rfl⟩ := loads
    by_cases own : new.reqId = a.id
    · obtain ⟨answered, unresumed⟩ := exclusive.listed new listed own
      have synchronous : c.asyncLoad = false := by
        by_contra asynchronous
        exact absurd (parks.mpr ⟨by simpa using asynchronous, offered⟩) (by simp [answered])
      obtain ⟨before, new', after, news, -, self, blocks, computed⟩ :=
        scheduled.first answered unresumed
      obtain rfl : new = new' := inj_on_of_nodup_map exclusive.distinct listed
        (news ▸ mem_append_right _ mem_cons_self) (own.trans self.symm)
      obtain ⟨stash, external'⟩ := allocated_sync grouped synchronous external scheduled.granted
      rw [own, others.hashes, stash, getD_some] at stashed
      rw [own, others.external, external', getD_some] at kept
      obtain rfl : first' = first := some.inj (grouped'.symm.trans (config.grouped grouped))
      rw [config.grain, ← size] at grain
      rw [computed, ← size, ← kept, Nat.mul_div_cancel _ (size ▸ first'.positive),
        Nat.add_sub_cancel] at skipped
      subst stashed kept skipped grain
      rw [blocks] at inside ⊢
      refine ⟨chunk, inside, ⟨gid, config.chunkEntry ..⟩, ?_⟩
      rw [if_neg (by simp [synchronous])]
      exact ⟨unresumed, few⟩
    · obtain ⟨p, -, same⟩ := mem_map.mp into
      exact absurd same (exclusive.started new listed own page low high _)

/-- The last external page is in an own chunk only if the pages end on a chunk boundary. -/
theorem aligned_of_covers (scheduled : a.Scheduled c calls out)
    (exclusive : a.Exclusive c calls out) (covers : a.Covers c (a.plan c calls out now)) :
    a.Aligned c := by
  rcases Nat.eq_zero_or_pos a.externalPages with none | external
  · exact .inl none
  obtain ⟨groups, loads⟩ := covers (a.localPages + a.externalPages - 1) (by omega) (by omega)
  obtain ⟨gid, group⟩ := exists_mem_of_ne_nil _ groups
  have known : c.groupKvSpec.items ≠ [] := by
    intro none
    simp [groupIds, Dict.keys, none] at groups
  obtain ⟨first, grouped⟩ := exists_grouped known
  obtain ⟨e, planned, -, -, found⟩ := loads gid group
  obtain ⟨chunk, inside, ⟨gid', rfl⟩, path⟩ := own_chunk scheduled exclusive grouped (by omega)
    (by omega) planned (mem_of_getElem? found)
  set n := a.pagesPerChunk c
  have positive : 0 < n := c.grain_pos _
  obtain ⟨table, listed, nodup⟩ := exclusive.table
  obtain ⟨-, rows⟩ := row_of_chunkEntry found
  have same := map_inj_left.mp rows table listed
  have last : (chunk + 1) * n ≤ table.length :=
    calc (chunk + 1) * n ≤ min (minLength a.blocks) a.hashes.length :=
          (Nat.le_div_iff_mul_le positive).mp inside
      _ ≤ table.length := (Nat.min_le_left ..).trans (minLength_le listed)
  have here := scheduled.tables table listed
  have offset := Nat.mod_lt (a.localPages + a.externalPages - 1) positive
  rw [Nat.succ_mul] at last
  rw [getD_eq_getElem _ _ (by omega), getD_eq_getElem _ _ (by omega), nodup.getElem_inj_iff] at same
  have reach : a.localPages + a.externalPages ≤ (chunk + 1) * n := by
    rw [Nat.succ_mul]
    omega
  have localPart := Nat.div_mul_le_self a.localPages n
  have externalPart := Nat.div_mul_le_self a.externalPages n
  refine .inr ⟨known, ?_⟩
  split_ifs at path ⊢
  · have few := Nat.mul_le_mul_right n (show chunk + 1 ≤ _ from path)
    have whole : a.externalPages / n * n = a.externalPages := by omega
    exact ⟨by omega, Dvd.intro_left _ whole⟩
  · have few := (Nat.mul_le_mul_right n (show chunk + 1 ≤ _ from path.2)).trans_eq (Nat.add_mul ..)
    have wholeLocal : a.localPages / n * n = a.localPages := by omega
    have whole : a.externalPages / n * n = a.externalPages := by omega
    exact ⟨path.1, Dvd.intro_left _ wholeLocal, Dvd.intro_left _ whole⟩

end Converse

/-- Aligned external pages of an admission are loaded, and only those if nobody else loads into
their blocks. -/
theorem external_pages_covered (a : Admission) (c : Connector)
    (calls : List Connector.SchedulerCall) (out : SchedulerOutput) (now : Hash → ℕ)
    (scheduled : a.Scheduled c calls out) :
    (a.Aligned c → a.Covers c (a.plan c calls out now)) ∧
      (a.Exclusive c calls out → a.Covers c (a.plan c calls out now) → a.Aligned c) :=
  ⟨fun aligned => covers_of_chunks (planned_chunks now scheduled aligned),
    aligned_of_covers scheduled⟩

def pairing : Connector := .idle 4

def fourPages (localPages : ℕ) : Admission where
  request := ⟨some "r", [.bytes [0], .bytes [1], .bytes [2], .bytes [3]], none⟩
  id := "r"
  named := rfl
  localPages
  externalPages := 4 - localPages
  present _ := true
  blocks := [[10, 11, 12, 13]]
  resumed := false

def onlyFourPages : SchedulerOutput where
  scheduledNewReqs := [⟨"r", [[10, 11, 12, 13]], 8, none, none⟩]
  scheduledCachedReqs := []

theorem scheduled_fourPages (localPages : Fin 4) :
    (fourPages localPages).Scheduled pairing [] onlyFourPages where
  granted := by revert localPages; decide +kernel
  others := by simp
  grouped := by simp [fourPages]
  tables := by revert localPages; decide +kernel
  first _ _ := ⟨[], _, [], rfl, by simp, rfl, rfl, by revert localPages; decide +kernel⟩

theorem exclusive_fourPages (localPages : Fin 4) :
    (fourPages localPages).Exclusive pairing [] onlyFourPages where
  fresh := rfl
  pending _ _ _ found := by
    have none : ∀ localPages : Fin 4,
        ((fourPages localPages).allocated pairing).asyncPendingLoads.items = [] := by decide +kernel
    rw [foldl_nil, Dict.get?_eq_some_iff, none] at found
    cases found
  started new listed other := absurd (by rw [mem_singleton.mp listed]; rfl) other
  distinct := by decide
  listed _ _ _ := ⟨by clear * -; revert localPages; decide +kernel, rfl⟩
  table := ⟨_, mem_singleton_self _, by decide⟩

theorem second_chunk_covered :
    (fourPages 2).Covers pairing ((fourPages 2).plan pairing [] onlyFourPages fun _ => 0) ∧
      ¬(fourPages 3).Covers pairing ((fourPages 3).plan pairing [] onlyFourPages fun _ => 0) := by
  refine ⟨(external_pages_covered _ _ _ _ _ (scheduled_fourPages 2)).1 (.inr (by decide +kernel)),
    fun covers => ?_⟩
  have aligned := (external_pages_covered _ _ _ _ _ (scheduled_fourPages 3)).2
    (exclusive_fourPages 3) covers
  exact absurd aligned (not_or.mpr ⟨by decide, by decide +kernel⟩)

/-- With one local page the plan ends a chunk early: the last page is counted as computed, and
nothing is loaded into its block. -/
theorem last_page_not_loaded :
    (fourPages 1).Scheduled pairing [] onlyFourPages ∧
      ¬(fourPages 1).Covers pairing ((fourPages 1).plan pairing [] onlyFourPages fun _ => 0) := by
  refine ⟨scheduled_fourPages 1, fun covers => ?_⟩
  obtain ⟨-, groups⟩ := covers 3 (by decide) (by decide)
  obtain ⟨e, planned, -, -, row⟩ := groups 0 (by decide +kernel)
  have elsewhere : ∀ e ∈ ((fourPages 1).plan pairing [] onlyFourPages fun _ => 0).packedChunksToLoad,
      e.perPageBlockIds[1]? ≠ some [13] := by decide +kernel
  exact elsewhere e planned row

end Admission
end Infera.Vllm
