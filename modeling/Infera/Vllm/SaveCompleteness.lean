import Infera.Runs
import Infera.Vllm.Emission

/-! What the emitter of saves takes for a full page. It counts the blocks a
request has, not the tokens that are computed, and it never comes back to a
chunk it has emitted. Next to the connector we keep what the engine knows: the
pages of its own cache, those taken on the connector's word and which of them
were written, and the tokens computed when the step's forward pass ends. A step
delivers block tables for exactly the pages touched by then. Every stored page
is full in every run whose steps end on page boundaries, or past the last full
page of the prompt, with the external pages written. -/

namespace Infera.Vllm
open Connector List Option Dict Function

namespace Connector
variable {c c' : Connector} {id : String} {e : SaveEntry}

/-- The save is a chunk of pages that have both a hash and a block. -/
def ChunkOf (c : Connector) (hashes : List Hash) (tables : List (List ℕ)) (e : SaveEntry) : Prop :=
  ∃ chunk gid, chunk < min (minLength tables) hashes.length / c.grain (c.blockSizeNow 16) ∧
    e.toLoadEntry = c.chunkEntry hashes tables (c.grain (c.blockSizeNow 16)) chunk gid

theorem SameConfig.chunkOf (same : SameConfig c c') {hashes : List Hash} {tables : List (List ℕ)} (chunk : c'.ChunkOf hashes tables e) : c.ChunkOf hashes tables e := by
  obtain ⟨chunk, gid, inside, entry⟩ := chunk
  rw [same.blockSizeNow, same.grain] at inside entry
  exact ⟨chunk, gid, inside, entry.trans (same.chunkEntry ..)⟩

theorem saves_emitReqSaveChunks (plan : Metadata) (st : SaveState) (emitLoad : Bool)
    (now : Hash → ℕ) : ∀ e ∈ (emitReqSaveChunks (plan, c) st emitLoad now).1.packedChunksToSave,
      e ∈ plan.packedChunksToSave ∨ c.ChunkOf st.blockHashes st.blockIdsGroups e := by
  intro e mem
  cases specs : c.groupKvSpec.values.head? with
  | none =>
    rw [emitReqSaveChunks_of_unknown _ specs] at mem
    exact .inl mem
  | some first =>
    refine ((emits_emitReqSaveChunks specs plan st emitLoad now).saves e mem).imp_right ?_
    rintro ⟨chunk, inside, gid, -, entry⟩
    rw [← Grouped.blockSizeNow specs 16] at inside entry
    exact ⟨chunk, gid, inside, entry⟩

def StartSaves (c : Connector) (new : NewReq) (e : SaveEntry) : Prop :=
  c.ChunkOf ((c.pendingBlockHashes.get? new.reqId).getD []) new.blockIds e

variable (now : Hash → ℕ) (acc : Metadata × Connector)

theorem saves_startReq (new : NewReq) : ∀ e ∈ (startReq now acc new).1.packedChunksToSave,
      e ∈ acc.1.packedChunksToSave ∨ acc.2.StartSaves new e := by
  intro e mem
  unfold startReq at mem
  dsimp only at mem
  split_ifs at mem
  · exact .inl mem
  · exact (saves_emitReqSaveChunks _ _ _ _ e mem).imp_right
      (SameConfig.chunkOf (c := acc.2) ⟨rfl, rfl, rfl⟩)

def ContinueSaves (c : Connector) (cached : CachedReq) (e : SaveEntry) : Prop :=
  ∃ st new, c.reqSaveState.get? cached.reqId = some st ∧ cached.newBlockIds = some new ∧
    c.ChunkOf st.blockHashes (tablesNow st cached new) e

variable {new : NewReq}

theorem StartSaves.of_sameFor (same : SameFor new.reqId c c')
    (saves : c'.StartSaves new e) : c.StartSaves new e := by
  rw [StartSaves, same.hashes] at saves
  exact same.toSameConfig.chunkOf saves

variable {cached : CachedReq}

theorem ContinueSaves.of_sameFor
    (same : SameFor cached.reqId c c') (saves : c'.ContinueSaves cached e) :
    c.ContinueSaves cached e := by
  obtain ⟨st, new, saving, extended, chunk⟩ := saves
  exact ⟨st, new, same.saving ▸ saving, extended, same.toSameConfig.chunkOf chunk⟩

theorem saves_continueReq (cached : CachedReq) :
    ∀ e ∈ (continueReq now acc cached).1.packedChunksToSave,
      e ∈ acc.1.packedChunksToSave ∨ acc.2.ContinueSaves cached e := by
  intro e mem
  rcases continueReq_cases now acc cached with
    ⟨same, -⟩ | ⟨st, new, saving, extended, acc', emitted, same⟩
  · rw [same] at mem
    exact .inl mem
  · rw [same, emitted] at mem
    exact (saves_emitReqSaveChunks _ _ _ _ e mem).imp_right fun chunk =>
      ⟨st, new, saving, extended, SameConfig.chunkOf (c := acc.2) ⟨rfl, rfl, rfl⟩ chunk⟩

theorem saves_buildConnectorMeta (out : SchedulerOutput) (now : Hash → ℕ)
    (distinct : (out.scheduledNewReqs.map NewReq.reqId ++
      out.scheduledCachedReqs.map CachedReq.reqId).Nodup) :
    ∀ e ∈ (c.buildConnectorMeta out now).1.packedChunksToSave,
      (∃ new ∈ out.scheduledNewReqs, c.StartSaves new e) ∨
        ∃ cached ∈ out.scheduledCachedReqs, c.ContinueSaves cached e := by
  intro e mem
  by_cases known : c.groupKvSpec.items = []
  · rw [buildConnectorMeta_of_unknown known] at mem
    cases mem
  rw [buildConnectorMeta_of_known known] at mem
  obtain ⟨news, cacheds, apart⟩ := List.nodup_append.mp distinct
  rcases planned_foldl (sameFor_continueReq now) _ ContinueSaves ContinueSaves.of_sameFor
    (saves_continueReq now) _ _ cacheds e mem with earlier | ⟨cached, listed, saves⟩
  · rcases planned_foldl (sameFor_startReq now) _ StartSaves StartSaves.of_sameFor
      (saves_startReq now) _ _ news e earlier with none | ⟨new, listed, saves⟩
    · cases none
    · exact .inl ⟨new, listed, by rw [drained_eq] at saves; exact saves⟩
  · have unstarted := sameFor_foldl (sameFor_startReq now) cached.reqId
      out.scheduledNewReqs (c.asyncLoads, c.drained) fun new mem same =>
        apart _ (mem_map_of_mem mem) _ (mem_map_of_mem listed) same
    have first := saves.of_sameFor unstarted
    rw [drained_eq] at first
    exact .inr ⟨cached, listed, first⟩

variable {st : SaveState}

theorem saving_startReq (new : NewReq) (saving : (startReq now acc new).2.reqSaveState.get? new.reqId = some st) :
    acc.2.reqSaveState.get? new.reqId = some st ∨ st.blockIdsGroups = new.blockIds := by
  unfold startReq at saving
  dsimp only at saving
  split_ifs at saving
  · exact .inl saving
  · rw [((resaved_emitReqSaveChunks ..).sameFor _).saving, get?_set_self] at saving
    cases saving
    exact .inr rfl

theorem saving_continueReq (cached : CachedReq)
    (saving : (continueReq now acc cached).2.reqSaveState.get? cached.reqId = some st) :
    ∃ before, acc.2.reqSaveState.get? cached.reqId = some before ∧
      st.blockIdsGroups = cached.newBlockIds.elim before.blockIdsGroups (tablesNow before cached) := by
  rcases continueReq_cases now acc cached with
    ⟨same, quiet⟩ | ⟨before, new, known, extended, acc', emitted, same⟩
  · rw [same] at saving
    rcases quiet with unsaved | blockless
    · cases unsaved.symm.trans saving
    · exact ⟨st, saving, by rw [blockless]; rfl⟩
  · refine ⟨before, known, ?_⟩
    have kept : acc'.2.reqSaveState.get? cached.reqId = some (stateNow before cached new) := by
      rw [emitted, ((resaved_emitReqSaveChunks ..).sameFor _).saving, get?_set_self]
    rw [same] at saving
    split_ifs at saving
    · rw [get?_erase_self] at saving
      cases saving
    · rw [kept] at saving
      cases saving
      rw [extended]
      rfl

section Step
variable (out : SchedulerOutput) (now : Hash → ℕ)

theorem saving_buildConnectorMeta_other (news : ∀ new ∈ out.scheduledNewReqs, new.reqId ≠ id)
    (cacheds : ∀ cached ∈ out.scheduledCachedReqs, cached.reqId ≠ id) :
    (c.buildConnectorMeta out now).2.reqSaveState.get? id = c.reqSaveState.get? id := by
  have drained : c.drained.reqSaveState = c.reqSaveState := by rw [drained_eq]
  by_cases known : c.groupKvSpec.items = []
  · rw [buildConnectorMeta_of_unknown known, drained]
  · rw [buildConnectorMeta_of_known known, (sameFor_foldl (sameFor_continueReq now) _ _ _ cacheds).saving,
      (sameFor_foldl (sameFor_startReq now) _ _ _ news).saving, drained]

variable (distinct : (out.scheduledNewReqs.map NewReq.reqId ++
  out.scheduledCachedReqs.map CachedReq.reqId).Nodup) (known : c.groupKvSpec.items ≠ [])
  {st : SaveState}

include distinct known

theorem saving_buildConnectorMeta_new (listed : new ∈ out.scheduledNewReqs)
    (saving : (c.buildConnectorMeta out now).2.reqSaveState.get? new.reqId = some st) :
    c.reqSaveState.get? new.reqId = some st ∨ st.blockIdsGroups = new.blockIds := by
  have drained : c.drained.reqSaveState = c.reqSaveState := by rw [drained_eq]
  obtain ⟨news, -, apart⟩ := List.nodup_append.mp distinct
  have elsewhere : ∀ cached ∈ out.scheduledCachedReqs, cached.reqId ≠ new.reqId :=
    fun cached mem same => apart _ (mem_map_of_mem listed) _ (mem_map_of_mem mem) same.symm
  obtain ⟨acc, before, after⟩ := foldl_own (sameFor_startReq now) _ (c.asyncLoads, c.drained) news
    listed
  rw [buildConnectorMeta_of_known known,
    (sameFor_foldl (sameFor_continueReq now) _ _ _ elsewhere).saving, after.saving] at saving
  rw [← drained, ← before.saving]
  exact saving_startReq now acc new saving

theorem saving_buildConnectorMeta_cached (listed : cached ∈ out.scheduledCachedReqs)
    (saving : (c.buildConnectorMeta out now).2.reqSaveState.get? cached.reqId = some st) :
    ∃ before, c.reqSaveState.get? cached.reqId = some before ∧
      st.blockIdsGroups = cached.newBlockIds.elim before.blockIdsGroups (tablesNow before cached) := by
  have drained : c.drained.reqSaveState = c.reqSaveState := by rw [drained_eq]
  obtain ⟨-, cacheds, apart⟩ := List.nodup_append.mp distinct
  have elsewhere : ∀ new ∈ out.scheduledNewReqs, new.reqId ≠ cached.reqId :=
    fun new mem => apart _ (mem_map_of_mem mem) _ (mem_map_of_mem listed)
  obtain ⟨acc, before, after⟩ := foldl_own (sameFor_continueReq now) _
    (out.scheduledNewReqs.foldl (startReq now) (c.asyncLoads, c.drained)) cacheds listed
  have started := sameFor_foldl (sameFor_startReq now) _ _ (c.asyncLoads, c.drained) elsewhere
  rw [buildConnectorMeta_of_known known, after.saving] at saving
  obtain ⟨st', saving', tables⟩ := saving_continueReq now acc cached saving
  rw [before.saving, started.saving, drained] at saving'
  exact ⟨st', saving', tables⟩

end Step

end Connector

/-- The pages that hold the first `tokens` tokens. -/
def pagesTouched (blockSize tokens : ℕ) : ℕ := (tokens + blockSize - 1) / blockSize

structure Progress where
  localPages : ℕ
  externalPages : ℕ
  computedTokens : ℕ
  tables : List (List ℕ)
  loaded : ℕ → Bool

/-- Every token of the page has its entry in the cache. -/
def Progress.Filled (p : Progress) (blockSize page : ℕ) : Prop :=
  (page + 1) * blockSize ≤ p.computedTokens ∧
    (p.localPages ≤ page → page < p.localPages + p.externalPages → p.loaded page = true)

inductive Phase where
  | absent
  | running (p : Progress)
  | preempted

/-- A request's part in a step: the tokens computed for it and the pages written by loads. When it
is admitted in this step, also the pages it is admitted with. -/
structure Turn where
  localPages : ℕ
  externalPages : ℕ
  tokens : ℕ
  loaded : ℕ → Bool

def Turn.begin (turn : Turn) (blockSize : ℕ) (tables : List (List ℕ)) : Progress where
  localPages := turn.localPages
  externalPages := turn.externalPages
  computedTokens := (turn.localPages + turn.externalPages) * blockSize + turn.tokens
  tables
  loaded := turn.loaded

def Progress.advance (p : Progress) (turn : Turn) (newBlockIds : Option (List (List ℕ))) :
    Progress :=
  { p with
    computedTokens := p.computedTokens + turn.tokens
    tables := newBlockIds.elim p.tables (extendTables p.tables)
    loaded page := p.loaded page || turn.loaded page }

structure EngineStep where
  news : List (NewReq × Turn)
  cacheds : List (CachedReq × Turn)

def EngineStep.output (s : EngineStep) : SchedulerOutput :=
  ⟨s.news.map Prod.fst, s.cacheds.map Prod.fst⟩

def EngineStep.ids (s : EngineStep) : List String :=
  s.output.scheduledNewReqs.map NewReq.reqId ++ s.output.scheduledCachedReqs.map CachedReq.reqId

inductive EngineEvent where
  | call (call : Connector.SchedulerCall)
  | preempt (id : String)
  | step (s : EngineStep) (now : Hash → ℕ)

structure Engine where
  connector : Connector
  phase : String → Phase

namespace Engine
variable {p : Progress} {id : String} {turn : Turn} (e : Engine) (s : EngineStep)

def blockSize : ℕ := e.connector.blockSizeNow 16

def pagesPerChunk : ℕ := e.connector.grain e.blockSize

def hashesOf (id : String) : List Hash :=
  match e.connector.reqSaveState.get? id with
  | some st => st.blockHashes
  | none => (e.connector.pendingBlockHashes.get? id).getD []

def after (id : String) : Option Progress :=
  match s.news.find? (·.1.reqId = id) with
  | some (new, turn) => some (turn.begin e.blockSize new.blockIds)
  | none => (s.cacheds.find? (·.1.reqId = id)).map fun (cached, turn) =>
    match e.phase id with
    | .running p => p.advance turn cached.newBlockIds
    | _ => turn.begin e.blockSize (cached.newBlockIds.getD [])

def next : EngineEvent → Engine
  | .call call =>
    { connector := e.connector.perform call
      phase := match call with
        | .finished r => update e.phase (r.requestId.getD "") .absent
        | _ => e.phase }
  | .preempt id => { e with phase := update e.phase id .preempted }
  | .step s now =>
    { connector := (e.connector.buildConnectorMeta s.output now).2
      phase id := match e.after s id with
        | some p => .running p
        | none => e.phase id }

/-- What the engine's scheduler may put into a step. -/
structure FitsStep (e : Engine) (s : EngineStep) : Prop where
  distinct : s.ids.Nodup
  news : ∀ x ∈ s.news, e.phase x.1.reqId = .absent ∧
    x.1.numComputedTokens = (x.2.localPages + x.2.externalPages) * e.blockSize
  cacheds : ∀ x ∈ s.cacheds, if x.1.resumed then
      e.phase x.1.reqId = .preempted ∧ x.1.newBlockIds.isSome = true
    else ∃ p, e.phase x.1.reqId = .running p
  touched : ∀ id p, e.after s id = some p → p.tables ≠ [] ∧
    ∀ g ∈ p.tables, g.length = pagesTouched e.blockSize p.computedTokens

def Fits : EngineEvent → Prop
  | .call _ => True
  | .preempt id => ∃ p, e.phase id = .running p
  | .step s _ => e.FitsStep s

/-- Steps end on page boundaries, or past the prompt's full pages, with all external pages
written. -/
def Whole : EngineEvent → Prop
  | .step s _ => ∀ id p, e.after s id = some p →
    (e.blockSize ∣ p.computedTokens ∨ (e.hashesOf id).length * e.blockSize ≤ p.computedTokens) ∧
    ∀ page, p.localPages ≤ page → page < p.localPages + p.externalPages → p.loaded page = true
  | _ => True

def Start : Prop :=
  e.connector.reqSaveState = .empty ∧ ∀ id, e.phase id = .absent

/-- The save is a chunk of a request's prompt under its key, and each of its pages is filled when
the step ends. -/
def Complete (save : SaveEntry) : Prop :=
  ∃ id p start, e.after s id = some p ∧
    save.key = groupChunkKey (chunkKvdKeyFor (e.hashesOf id) start e.pagesPerChunk) save.gid ∧
    save.perPageBlockIds = (List.range e.pagesPerChunk).map
      (fun i => p.tables.map fun g => g.getD (start + i) 0) ∧
    ∀ i < e.pagesPerChunk, p.Filled e.blockSize (start + i)

/-- The states kept for saving follow the engine's block tables. -/
structure Tracked (e : Engine) : Prop where
  absent : ∀ id, e.phase id = .absent → e.connector.reqSaveState.get? id = none
  running : ∀ id p st, e.phase id = .running p → e.connector.reqSaveState.get? id = some st →
    st.blockIdsGroups = p.tables
  known : ∀ id st, e.connector.reqSaveState.get? id = some st → e.connector.groupKvSpec.items ≠ []

variable {e : Engine} {s : EngineStep}

theorem after_cases (fits : e.FitsStep s) (after : e.after s id = some p) :
    (∃ new turn, (new, turn) ∈ s.news ∧ new.reqId = id ∧ p = turn.begin e.blockSize new.blockIds) ∨
      ∃ cached turn, (cached, turn) ∈ s.cacheds ∧ cached.reqId = id ∧
        ((cached.resumed = false ∧ ∃ before, e.phase id = .running before ∧
            p = before.advance turn cached.newBlockIds) ∨
          (cached.resumed = true ∧ ∃ new, cached.newBlockIds = some new ∧
            p = turn.begin e.blockSize new)) := by
  unfold Engine.after at after
  split at after
  · rename_i new turn found
    cases after
    exact .inl ⟨new, turn, mem_of_find?_eq_some found, by simpa using find?_some found, rfl⟩
  · obtain ⟨⟨cached, turn⟩, found, rfl⟩ := map_eq_some_iff.mp after
    have listed := mem_of_find?_eq_some found
    have self : cached.reqId = id := by simpa using find?_some found
    have contract := fits.cacheds _ listed
    refine .inr ⟨cached, turn, listed, self, ?_⟩
    cases resumed : cached.resumed with
    | false =>
      rw [resumed, self] at contract
      obtain ⟨before, phase⟩ := contract
      exact .inl ⟨rfl, before, phase, by rw [phase]⟩
    | true =>
      rw [resumed, self] at contract
      obtain ⟨phase, some⟩ := contract
      obtain ⟨new, extended⟩ := isSome_iff_exists.mp some
      exact .inr ⟨rfl, new, extended, by rw [phase]; dsimp only; rw [extended, getD_some]⟩

theorem after_none (outside : e.after s id = none) :
    (∀ new ∈ s.output.scheduledNewReqs, new.reqId ≠ id) ∧
      ∀ cached ∈ s.output.scheduledCachedReqs, cached.reqId ≠ id := by
  unfold Engine.after at outside
  split at outside
  · cases outside
  · rename_i news
    rw [map_eq_none_iff] at outside
    constructor
    · intro new mem same
      obtain ⟨x, listed, rfl⟩ := mem_map.mp mem
      exact find?_eq_none.mp news x listed (by simpa using same)
    · intro cached mem same
      obtain ⟨x, listed, rfl⟩ := mem_map.mp mem
      exact find?_eq_none.mp outside x listed (by simpa using same)

theorem tracked_start (start : e.Start) : e.Tracked where
  absent _ _ := by rw [start.1]; rfl
  running id p st phase := by rw [start.2 id] at phase; cases phase
  known id st saving := by rw [start.1] at saving; cases saving

theorem saving_perform (c : Connector) (call : SchedulerCall) :
    (c.perform call).groupKvSpec = c.groupKvSpec ∧ (c.perform call).reqSaveState = match call with
        | .finished r => c.reqSaveState.erase (r.requestId.getD "")
        | _ => c.reqSaveState := by
  cases call with
  | matched r numComputedTokens present =>
    dsimp only [perform]
    unfold getNumNewMatchedTokens
    cases named : r.requestId <;> dsimp only <;> split_ifs <;> exact ⟨rfl, rfl⟩
  | allocated r blocks numExternalTokens =>
    dsimp only [perform]
    unfold updateStateAfterAlloc
    cases named : r.requestId <;> dsimp only
    · exact ⟨rfl, rfl⟩
    · split_ifs <;> exact ⟨rfl, rfl⟩
  | finished r => exact ⟨rfl, rfl⟩

theorem phase_step (now : Hash → ℕ) (id : String) :
    (e.next (.step s now)).phase id = match e.after s id with
      | some p => .running p
      | none => e.phase id := rfl

theorem mem_news (listed : (new, turn) ∈ s.news) : new ∈ s.output.scheduledNewReqs :=
  mem_map_of_mem (f := Prod.fst) listed

theorem mem_cacheds (listed : (cached, turn) ∈ s.cacheds) : cached ∈ s.output.scheduledCachedReqs :=
  mem_map_of_mem (f := Prod.fst) listed

section
variable (tracked : e.Tracked)
include tracked

theorem Tracked.of_same {e' : Engine} (phase : e'.phase = e.phase)
    (saving : e'.connector.reqSaveState = e.connector.reqSaveState)
    (specs : e'.connector.groupKvSpec = e.connector.groupKvSpec) : e'.Tracked := by
  refine ⟨?_, ?_, ?_⟩
  · rw [phase, saving]
    exact tracked.absent
  · rw [phase, saving]
    exact tracked.running
  · rw [saving, specs]
    exact tracked.known

theorem tracked_call (call : SchedulerCall) : (e.next (.call call)).Tracked := by
  obtain ⟨specs, saving⟩ := saving_perform e.connector call
  cases call with
  | matched | allocated => exact tracked.of_same rfl saving specs
  | finished r =>
    have kept : ∀ id st, (e.connector.reqSaveState.erase (r.requestId.getD "")).get? id = some st →
        id ≠ r.requestId.getD "" ∧ e.connector.reqSaveState.get? id = some st := by
      intro id st some
      rw [get?_erase] at some
      split_ifs at some with same
      exact ⟨same, some⟩
    refine ⟨fun id phase => ?_, fun id p st phase some => ?_, fun id st some => ?_⟩
    · by_cases same : id = r.requestId.getD ""
      · exact same ▸ get?_erase_self ..
      · rw [show (e.next (.call (.finished r))).phase id = e.phase id from
          update_of_ne same ..] at phase
        exact (get?_erase_of_ne same).trans (tracked.absent id phase)
    · obtain ⟨differ, before⟩ := kept id st some
      rw [show (e.next (.call (.finished r))).phase id = e.phase id from
        update_of_ne differ ..] at phase
      exact tracked.running id p st phase before
    · exact tracked.known id st (kept id st some).2

theorem tracked_preempt (id : String) : (e.next (.preempt id)).Tracked := by
  refine ⟨fun other phase => ?_, fun other p st phase saving => ?_, tracked.known⟩
  all_goals
    by_cases same : other = id
    · rw [same, show (e.next (.preempt id)).phase id = .preempted from update_self ..] at phase
      cases phase
    · rw [show (e.next (.preempt id)).phase other = e.phase other from
        update_of_ne same ..] at phase
      first
        | exact tracked.absent other phase
        | exact tracked.running other p st phase saving

section
variable (s : EngineStep) (now : Hash → ℕ) (fits : e.FitsStep s)
include fits

theorem tables_step (known : e.connector.groupKvSpec.items ≠ []) (after : e.after s id = some p)
    (saving : (e.connector.buildConnectorMeta s.output now).2.reqSaveState.get? id = some st) :
    st.blockIdsGroups = p.tables := by
  rcases after_cases fits after with ⟨new, turn, listed, rfl, rfl⟩ |
    ⟨cached, turn, listed, rfl, ⟨fresh, before, phase, rfl⟩ | ⟨resumed, new, extended, rfl⟩⟩
  · rcases saving_buildConnectorMeta_new s.output now fits.distinct known
      (mem_news listed) saving with earlier | tables
    · cases (tracked.absent _ (fits.news _ listed).1).symm.trans earlier
    · exact tables
  · obtain ⟨st', earlier, tables⟩ := saving_buildConnectorMeta_cached s.output now
      fits.distinct known (mem_cacheds listed) saving
    rw [tables, tracked.running _ _ _ phase earlier, Progress.advance]
    cases cached.newBlockIds with
    | none => rfl
    | some new =>
      rw [elim_some, elim_some, tablesNow, fresh,
        if_neg Bool.false_ne_true, tracked.running _ _ _ phase earlier]
  · obtain ⟨st', earlier, tables⟩ := saving_buildConnectorMeta_cached s.output now
      fits.distinct known (mem_cacheds listed) saving
    rw [tables, extended, elim_some, tablesNow, resumed]
    rfl

theorem tracked_step : (e.next (.step s now)).Tracked := by
  have specs := (e.connector.config_buildConnectorMeta s.output now).groupKvSpec
  have other : ∀ id, e.after s id = none →
      (e.connector.buildConnectorMeta s.output now).2.reqSaveState.get? id =
        e.connector.reqSaveState.get? id := fun id outside =>
    saving_buildConnectorMeta_other s.output now (after_none outside).1 (after_none outside).2
  have known : ∀ id st,
      (e.connector.buildConnectorMeta s.output now).2.reqSaveState.get? id = some st →
        e.connector.groupKvSpec.items ≠ [] := by
    intro id st saving unknown
    rw [buildConnectorMeta_of_unknown unknown, drained_eq] at saving
    exact tracked.known id st saving unknown
  refine ⟨fun id phase => ?_, fun id p st phase saving => ?_, fun id st saving => ?_⟩
  · rw [phase_step] at phase
    cases after : e.after s id with
    | some p => rw [after] at phase; cases phase
    | none =>
      rw [after] at phase
      exact (other id after).trans (tracked.absent id phase)
  · rw [phase_step] at phase
    cases after : e.after s id with
    | some p' =>
      rw [after] at phase
      cases phase
      exact tables_step tracked s now fits (known id st saving) after saving
    | none =>
      rw [after] at phase
      exact tracked.running id p st phase ((other id after).symm.trans saving)
  · rw [show (e.next (.step s now)).connector.groupKvSpec = e.connector.groupKvSpec from specs]
    exact known id st saving

end

theorem tracked_next (event : EngineEvent) (fits : e.Fits event) : (e.next event).Tracked := by
  cases event with
  | call call => exact tracked_call tracked call
  | preempt id => exact tracked_preempt tracked id
  | step s now => exact tracked_step tracked s now fits

end

theorem filled_of_touched {tokens blockSize hashed page : ℕ}
    (aligned : blockSize ∣ tokens ∨ hashed * blockSize ≤ tokens)
    (touched : page < pagesTouched blockSize tokens) (inPrompt : page < hashed) :
    (page + 1) * blockSize ≤ tokens := by
  rcases aligned with ⟨pages, rfl⟩ | past
  · rcases Nat.eq_zero_or_pos blockSize with rfl | positive
    · simp
    · have touches : pagesTouched blockSize (blockSize * pages) = pages := by
        rw [pagesTouched, Nat.add_sub_assoc positive, Nat.mul_add_div positive,
          Nat.div_eq_of_lt (by omega), Nat.add_zero]
      rw [touches] at touched
      rw [mul_comm blockSize]
      exact Nat.mul_le_mul_right blockSize touched
  · exact (Nat.mul_le_mul_right blockSize inPrompt).trans past

theorem complete_of_chunkOf (fits : e.FitsStep s) (now : Hash → ℕ) (whole : e.Whole (.step s now))
    (after : e.after s id = some p) {save : SaveEntry}
    (chunk : e.connector.ChunkOf (e.hashesOf id) p.tables save) : e.Complete s save := by
  obtain ⟨chunk, gid, inside, entry⟩ := chunk
  obtain ⟨aligned, loaded⟩ := whole id p after
  obtain ⟨nonempty, tables⟩ := fits.touched id p after
  refine ⟨id, p, chunk * e.pagesPerChunk, after, ?_, congrArg LoadEntry.perPageBlockIds entry,
    fun i low => ⟨?_, loaded _⟩⟩
  · rw [show save.gid = gid from congrArg LoadEntry.gid entry]
    exact congrArg LoadEntry.key entry
  · have paired : chunk * e.pagesPerChunk + i < min (minLength p.tables) (e.hashesOf id).length :=
      calc chunk * e.pagesPerChunk + i < (chunk + 1) * e.pagesPerChunk := by
            rw [Nat.add_mul]
            omega
        _ ≤ min (minLength p.tables) (e.hashesOf id).length / e.pagesPerChunk * e.pagesPerChunk :=
            Nat.mul_le_mul_right _ inside
        _ ≤ _ := Nat.div_mul_le_self _ _
    obtain ⟨g, rest, split⟩ := exists_cons_of_ne_nil nonempty
    have group : g ∈ p.tables := split ▸ mem_cons_self
    refine filled_of_touched aligned ?_ (paired.trans_le (min_le_right _ _))
    rw [← tables g group]
    exact (paired.trans_le (min_le_left _ _)).trans_le (minLength_le group)

theorem find?_of_nodup {β : Type*} {idOf : β → String} {xs : List β} (distinct : (xs.map idOf).Nodup)
    {x : β} (mem : x ∈ xs) : xs.find? (fun y => idOf y = idOf x) = some x := by
  obtain ⟨y, found⟩ : ∃ y, xs.find? (fun y => idOf y = idOf x) = some y := by
    rw [← isSome_iff_exists, find?_isSome]
    exact ⟨x, mem, decide_eq_true rfl⟩
  have same : idOf y = idOf x := by simpa using find?_some found
  rw [found, inj_on_of_nodup_map distinct (mem_of_find?_eq_some found) mem same]

theorem after_new (fits : e.FitsStep s) (listed : (new, turn) ∈ s.news) :
    e.after s new.reqId = some (turn.begin e.blockSize new.blockIds) := by
  obtain ⟨news, -, -⟩ := List.nodup_append.mp fits.distinct
  rw [EngineStep.output, List.map_map] at news
  unfold Engine.after
  rw [show s.news.find? (·.1.reqId = new.reqId) = some (new, turn) from find?_of_nodup news listed]

theorem after_cached (fits : e.FitsStep s) (listed : (cached, turn) ∈ s.cacheds) :
    e.after s cached.reqId = some (match e.phase cached.reqId with
      | .running p => p.advance turn cached.newBlockIds
      | _ => turn.begin e.blockSize (cached.newBlockIds.getD [])) := by
  obtain ⟨-, cacheds, apart⟩ := List.nodup_append.mp fits.distinct
  rw [EngineStep.output, List.map_map] at cacheds
  have absent : s.news.find? (·.1.reqId = cached.reqId) = none := by
    rw [find?_eq_none]
    intro x mem same
    exact apart _ (mem_map_of_mem (mem_news mem)) _ (mem_map_of_mem (mem_cacheds listed))
      (by simpa using same)
  unfold Engine.after
  rw [absent, show s.cacheds.find? (·.1.reqId = cached.reqId) = some (cached, turn) from
    find?_of_nodup cacheds listed]
  rfl

/-- Every page that is saved is full when the step's forward pass ends. -/
theorem saves_complete {e : Engine}
    (reached : Reaches Start next (fun e event => e.Fits event ∧ e.Whole event) e)
    (s : EngineStep) (now : Hash → ℕ) (fits : e.FitsStep s) (whole : e.Whole (.step s now)) :
    ∀ save ∈ (e.connector.buildConnectorMeta s.output now).1.packedChunksToSave,
      e.Complete s save := by
  have base : ∀ e : Engine, e.Start → e.Tracked := fun _ => tracked_start
  have tracked : e.Tracked :=
    Reaches.invariant base (fun e event kept meets => tracked_next kept event meets.1) reached
  intro save mem
  rcases saves_buildConnectorMeta s.output now fits.distinct save mem with
    ⟨new, listed, chunk⟩ | ⟨cached, listed, st, new, saving, extended, chunk⟩
  · obtain ⟨⟨_, turn⟩, member, rfl⟩ := mem_map.mp listed
    refine complete_of_chunkOf fits now whole (after_new fits member) ?_
    rw [hashesOf, tracked.absent _ (fits.news _ member).1]
    exact chunk
  · obtain ⟨turn, member⟩ : ∃ turn, (cached, turn) ∈ s.cacheds := by
      simpa [EngineStep.output] using listed
    have contract := fits.cacheds _ member
    have after := after_cached fits member
    have hashes : e.hashesOf cached.reqId = st.blockHashes := by rw [hashesOf, saving]
    rw [← hashes] at chunk
    cases resumed : cached.resumed with
    | false =>
      rw [if_neg (by simp [resumed])] at contract
      obtain ⟨before, phase⟩ := contract
      rw [phase] at after
      refine complete_of_chunkOf fits now whole after ?_
      rw [extended]
      rw [tablesNow, resumed, if_neg Bool.false_ne_true,
        tracked.running _ _ _ phase saving] at chunk
      exact chunk
    | true =>
      rw [if_pos resumed] at contract
      rw [contract.1] at after
      refine complete_of_chunkOf fits now whole after ?_
      rw [extended]
      rw [tablesNow, resumed, if_pos rfl] at chunk
      exact chunk

def fresh : Engine := ⟨.idle 2, fun _ => .absent⟩

def prompt : Request := ⟨some "r", [.bytes [0], .bytes [1]], none⟩

def looked : Engine :=
  (fresh.next (.call (.matched prompt 0 fun _ => false))).next (.call (.allocated prompt [[5]] 0))

def firstStep (tokens : ℕ) : EngineStep :=
  ⟨[(⟨"r", [[5]], 0, none, none⟩, ⟨0, 0, tokens, fun _ => false⟩)], []⟩

theorem reached_looked (cond : Engine → EngineEvent → Prop)
    (calls : ∀ e call, cond e (.call call)) : Reaches Start next cond looked := by
  have start : Reaches Start next cond fresh := .start ⟨rfl, fun _ => rfl⟩
  exact .next _ (.next _ start (calls _ _)) (calls _ _)

theorem mem_ids_of_after {e : Engine} {s : EngineStep} (after : e.after s id = some p) :
    id ∈ s.ids := by
  unfold Engine.after at after
  split at after
  · rename_i x found
    exact mem_append_left _ (mem_map.mpr ⟨_, mem_news (mem_of_find?_eq_some found),
      by simpa using find?_some found⟩)
  · obtain ⟨x, found, -⟩ := map_eq_some_iff.mp after
    exact mem_append_right _ (mem_map.mpr ⟨_, mem_cacheds (mem_of_find?_eq_some found),
      by simpa using find?_some found⟩)

theorem after_firstStep {tokens : ℕ} (after : looked.after (firstStep tokens) id = some p) :
    p = ⟨0, 0, 0 * looked.blockSize + tokens, [[5]], fun _ => false⟩ := by
  obtain rfl : id = "r" := mem_singleton.mp (mem_ids_of_after after)
  cases after
  rfl

theorem fitsStep_firstStep (tokens : ℕ) (touched : pagesTouched 2 tokens = 1) :
    looked.FitsStep (firstStep tokens) where
  distinct := nodup_singleton _
  news x mem := by
    rw [firstStep, mem_singleton] at mem
    rw [mem]
    exact ⟨rfl, (Nat.zero_mul _).symm⟩
  cacheds x mem := by cases mem
  touched id p after := by
    rw [after_firstStep after]
    refine ⟨by simp, fun g mem => ?_⟩
    rw [mem_singleton] at mem
    rw [mem, Nat.zero_mul, Nat.zero_add]
    exact touched.symm

def stepped : Engine := looked.next (.step (firstStep 2) fun _ => 0)

theorem reached_stepped : Reaches Start next (fun e event => e.Fits event ∧ e.Whole event)
    stepped := by
  refine .next _ (reached_looked _ fun _ _ => ⟨trivial, trivial⟩)
    ⟨fitsStep_firstStep 2 (by decide), fun id p after => ?_⟩
  rw [after_firstStep after]
  exact ⟨.inl (by decide +kernel), fun page low high => absurd high (by simp)⟩

def secondStep : EngineStep := ⟨[], [(⟨"r", some [[6]], false⟩, ⟨0, 0, 2, fun _ => false⟩)]⟩

theorem after_secondStep (after : stepped.after secondStep id = some p) :
    p = ⟨0, 0, 0 * looked.blockSize + 2 + 2, [[5, 6]], fun _ => false⟩ := by
  obtain rfl : id = "r" := mem_singleton.mp (mem_ids_of_after after)
  cases after
  rfl

theorem fitsStep_secondStep : stepped.FitsStep secondStep where
  distinct := nodup_singleton _
  news x mem := by cases mem
  cacheds x mem := by
    rw [secondStep, mem_singleton] at mem
    rw [mem]
    exact ⟨_, rfl⟩
  touched id p after := by
    rw [after_secondStep after]
    refine ⟨by simp, fun g mem => ?_⟩
    rw [mem_singleton] at mem
    rw [mem]
    decide +kernel

theorem second_page_saved_complete :
    (stepped.connector.buildConnectorMeta secondStep.output fun _ => 1).1.packedChunksToSave ≠ [] ∧
      ∀ save ∈ (stepped.connector.buildConnectorMeta secondStep.output
        fun _ => 1).1.packedChunksToSave, stepped.Complete secondStep save := by
  refine ⟨by decide +kernel, saves_complete reached_stepped secondStep (fun _ => 1)
    fitsStep_secondStep fun id p after => ?_⟩
  rw [after_secondStep after]
  exact ⟨.inl (by decide +kernel), fun page low high => absurd high (by simp)⟩

/-- One token of the first page is computed, and the page is saved. -/
theorem half_computed_page_saved :
    Reaches Start next Fits looked ∧ looked.FitsStep (firstStep 1) ∧
      ∃ save ∈ (looked.connector.buildConnectorMeta (firstStep 1).output
        fun _ => 0).1.packedChunksToSave, ¬looked.Complete (firstStep 1) save := by
  refine ⟨reached_looked _ fun _ _ => trivial, fitsStep_firstStep 1 (by decide), ?_⟩
  obtain ⟨save, saved⟩ := exists_mem_of_ne_nil
    (looked.connector.buildConnectorMeta (firstStep 1).output fun _ => 0).1.packedChunksToSave
    (by decide +kernel)
  refine ⟨save, saved, ?_⟩
  rintro ⟨id, p, start, after, -, -, filled⟩
  have tokens := (filled 0 (looked.connector.grain_pos _)).1
  rw [after_firstStep after, show looked.blockSize = 2 by decide +kernel] at tokens
  dsimp only at tokens
  omega

end Engine
end Infera.Vllm
