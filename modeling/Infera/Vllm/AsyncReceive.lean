import Infera.Runs
import Infera.Vllm.LoadFailures

/-! Requests that wait for an asynchronous load. The answer to the probe parks
the request, the allocation plans its loads, the next step submits them, and a
poll reports the request once all of them have ended. We keep with each request
how often it was parked and received and which loads were submitted for it, and
compare with what the poll reports. A plan without a whole chunk submits nothing,
and loads that run inline are not registered: such a request is never received. -/

namespace Infera.Vllm
open Connector List Dict Admission

structure Wait where
  parked : Bool
  /-- The plan of a step was handed to the worker since the request was parked. -/
  handed : Bool
  submitted : List ℕ
  parkings : ℕ
  receipts : ℕ

def Wait.none : Wait := ⟨false, false, [], 0, 0⟩

structure Transfer where
  connector : Connector
  worker : Worker
  /-- The load executor, gone after a shutdown. -/
  executor : Bool
  asyncInflight : Dict (Option String) (List ℕ)
  nextFuture : ℕ
  ended : ℕ → Bool
  waits : String → Wait

inductive TransferEvent where
  | probe (r : Request) (numComputedTokens : ℕ) (present : Hash → Bool)
  | admitted (a : Admission)
  | finished (r : Request)
  | step (out : SchedulerOutput) (now : Hash → ℕ)
  | ends (future : ℕ)
  | poll
  | shutdown

def Worker.loadReqIds (w : Worker) (plan : Metadata) : List (Option String) :=
  plan.packedChunksToLoad.zipIdx.flatMap fun (e, i) =>
    (w.splitDsaEntry e).map fun _ => plan.loadChunkReqIds[i]?

def submit (acc : Dict (Option String) (List ℕ) × ℕ) (rid : Option String) :
    Dict (Option String) (List ℕ) × ℕ :=
  (acc.1.set rid ((acc.1.get? rid).getD [] ++ [acc.2]), acc.2 + 1)

def futuresOf (rid : Option String) (rids : List (Option String)) (first : ℕ) : List ℕ :=
  ((rids.zipIdx first).filter fun p => p.1 = rid).map Prod.snd

namespace Transfer

variable (s : Transfer)

/-- The loads of a plan that become futures: none without an executor, and none when no load of
the plan belongs to a waiting request. -/
def submissions (plan : Metadata) : List (Option String) :=
  if plan.loadChunkReqIds ≠ [] ∧ s.executor then s.worker.loadReqIds plan else []

def startLoadKvAsync (plan : Metadata) : Transfer :=
  let (asyncInflight, nextFuture) :=
    (s.submissions plan).foldl submit (s.asyncInflight, s.nextFuture)
  { s with
    asyncInflight
    nextFuture
    waits id :=
      { s.waits id with
        handed := (s.waits id).parked
        submitted := (s.waits id).submitted ++
          futuresOf (some id) (s.submissions plan) s.nextFuture } }

/-- The requests whose loads have all ended. -/
def getFinished : List (Option String) :=
  (s.asyncInflight.filter fun _ futures => futures.all s.ended).keys

def next : TransferEvent → Transfer
  | .probe r numComputedTokens present =>
    { s with connector := (s.connector.getNumNewMatchedTokens r numComputedTokens present).2 }
  | .admitted a =>
    let waits := s.waits
    { s with
      connector := a.allocated s.connector
      waits := if (a.answer s.connector).1.2 then
          Function.update waits a.id
            ⟨true, false, [], (waits a.id).parkings + 1, (waits a.id).receipts⟩
        else waits }
  | .finished r => { s with connector := s.connector.requestFinished r }
  | .step out now =>
    let (plan, connector) := s.connector.buildConnectorMeta out now
    { s with connector }.startLoadKvAsync plan
  | .ends future => { s with ended := Function.update s.ended future true }
  | .poll =>
    { s with
      asyncInflight := s.asyncInflight.filter fun _ futures => !futures.all s.ended
      waits id := if some id ∈ s.getFinished then
          ⟨false, false, [], (s.waits id).parkings, (s.waits id).receipts + 1⟩
        else s.waits id }
  | .shutdown => { s with executor := false }

def Start : Prop :=
  s.connector.asyncLoad = true ∧ s.connector.asyncPendingLoads = .empty ∧
    s.asyncInflight = .empty ∧ ∀ id, s.waits id = .none

/-- How the engine admits: only requests that do not wait, with at most what was offered, and with
a block for every external page. -/
def Fits : TransferEvent → Prop
  | .admitted a => (s.waits a.id).parked = false ∧
    a.externalPages * a.blockSize s.connector ≤ (a.answer s.connector).1.1 ∧ a.blocks ≠ [] ∧
    ∀ g ∈ a.blocks, a.localPages + a.externalPages ≤ g.length
  | _ => True

/-- A request that is parked gets at least one chunk, of known groups, and loads are submitted to
an executor. -/
def Productive : TransferEvent → Prop
  | .admitted a => (a.answer s.connector).1.2 = true →
    s.connector.groupKvSpec.items ≠ [] ∧ a.pagesPerChunk s.connector ≤ a.externalPages
  | .step _ _ => s.executor = true
  | _ => True

/-- The request was received once for every time it was parked, but for the wait that is not over;
and a wait whose loads were handed to the worker and have all ended is over at the next poll. -/
def Received (id : String) : Prop :=
  (s.waits id).parkings = (s.waits id).receipts + (if (s.waits id).parked then 1 else 0) ∧
    ((s.waits id).parked = true → (s.waits id).handed = true →
      (∀ future ∈ (s.waits id).submitted, s.ended future = true) → some id ∈ s.getFinished)

end Transfer

namespace Connector
variable {c : Connector}

section
variable (asynchronous : c.asyncLoad = true) (out : SchedulerOutput) (now : Hash → ℕ)
include asynchronous

theorem loads_buildConnectorMeta : (c.buildConnectorMeta out now).2.asyncPendingLoads = .empty := by
  rw [replanned_buildConnectorMeta out now, drained, if_pos asynchronous]

theorem mem_loadChunkReqIds (id : String) : id ∈ (c.buildConnectorMeta out now).1.loadChunkReqIds ↔
      ∃ entries, entries ≠ [] ∧ c.asyncPendingLoads.get? id = some entries := by
  rw [(keeps_buildConnectorMeta out now).2]
  simp only [asyncLoads, asynchronous, mem_flatMap, mem_map, Prod.exists]
  constructor
  · rintro ⟨id', entries, listed, e, mem, rfl⟩
    exact ⟨entries, ne_nil_of_mem mem, (get?_eq_some_iff ..).mpr listed⟩
  · rintro ⟨entries, some, pending⟩
    obtain ⟨e, mem⟩ := exists_mem_of_ne_nil _ some
    exact ⟨id, entries, (get?_eq_some_iff ..).mp pending, e, mem, rfl⟩

end

theorem length_loadChunkReqIds (out : SchedulerOutput) (now : Hash → ℕ) :
    (c.buildConnectorMeta out now).1.loadChunkReqIds.length ≤
      (c.buildConnectorMeta out now).1.packedChunksToLoad.length := by
  obtain ⟨⟨more, loads⟩, ids⟩ := c.keeps_buildConnectorMeta out now
  have paired : c.asyncLoads.loadChunkReqIds.length = c.asyncLoads.packedChunksToLoad.length := by
    simp [asyncLoads]
  rw [ids, loads, length_append, paired]
  exact Nat.le_add_right _ _

end Connector

theorem splitDsaEntry_ne_nil (w : Worker) (e : LoadEntry) : w.splitDsaEntry e ≠ [] := by
  unfold Worker.splitDsaEntry
  dsimp only
  split_ifs <;> simp

variable {plan : Metadata} {pending : Option (List LoadEntry)} {rids : List (Option String)}

theorem mem_loadReqIds {w : Worker}
    (paired : plan.loadChunkReqIds.length ≤ plan.packedChunksToLoad.length) (id : String) :
    some id ∈ w.loadReqIds plan ↔ id ∈ plan.loadChunkReqIds := by
  unfold Worker.loadReqIds
  simp only [mem_flatMap, mem_map, Prod.exists]
  constructor
  · rintro ⟨e, i, -, part, -, named⟩
    exact mem_of_getElem? named
  · intro listed
    obtain ⟨i, inside, named⟩ := mem_iff_getElem.mp listed
    obtain ⟨part, mem⟩ := exists_mem_of_ne_nil _ (splitDsaEntry_ne_nil w
      (plan.packedChunksToLoad[i]))
    refine ⟨plan.packedChunksToLoad[i], i, ?_, part, mem, ?_⟩
    · rw [mem_zipIdx_iff_getElem?, List.getElem?_eq_getElem]
    · rw [List.getElem?_eq_getElem inside, named]

theorem futuresOf_cons (rid x : Option String) (rids : List (Option String)) (first : ℕ) :
    futuresOf rid (x :: rids) first =
      (if x = rid then [first] else []) ++ futuresOf rid rids (first + 1) := by
  unfold futuresOf
  by_cases same : x = rid <;> simp [same]

theorem futuresOf_eq_nil_iff (rid : Option String) (rids : List (Option String)) (first : ℕ) :
    futuresOf rid rids first = [] ↔ rid ∉ rids := by
  induction rids generalizing first with
  | nil => simp [futuresOf]
  | cons x rids ih =>
    rw [futuresOf_cons, append_eq_nil_iff, ih]
    by_cases same : x = rid
    · simp [same]
    · simp [same, Ne.symm same]

theorem get?_foldl_submit_of_not_mem {rid : Option String}
    (other : rid ∉ rids) (acc : Dict (Option String) (List ℕ) × ℕ) :
    (rids.foldl submit acc).1.get? rid = acc.1.get? rid := by
  induction rids generalizing acc with
  | nil => rfl
  | cons x rids ih =>
    rw [mem_cons, not_or] at other
    rw [foldl_cons, ih other.2]
    exact get?_set_of_ne other.1

theorem get?_foldl_submit_of_mem {rid : Option String}
    (mem : rid ∈ rids) (acc : Dict (Option String) (List ℕ) × ℕ) :
    (rids.foldl submit acc).1.get? rid =
      some ((acc.1.get? rid).getD [] ++ futuresOf rid rids acc.2) := by
  induction rids generalizing acc with
  | nil => cases mem
  | cons x rids ih =>
    rw [foldl_cons, futuresOf_cons]
    by_cases later : rid ∈ rids
    · rw [ih later]
      dsimp only [submit]
      by_cases same : x = rid
      · rw [same, get?_set_self, if_pos rfl, Option.getD_some, append_assoc]
      · rw [get?_set_of_ne (Ne.symm same), if_neg same, nil_append]
    · have same : x = rid := ((mem_cons.mp mem).resolve_right later).symm
      rw [get?_foldl_submit_of_not_mem later, (futuresOf_eq_nil_iff ..).mpr later, if_pos same]
      dsimp only [submit]
      rw [same, get?_set_self, append_nil]

/-- Where a request can be: its wait, its loads in flight and its planned loads. -/
inductive Place : Wait → Option (List ℕ) → Option (List LoadEntry) → Prop
  | idle (n : ℕ) : Place ⟨false, false, [], n, n⟩ none none
  | planned (n : ℕ) {entries : List LoadEntry} (some : entries ≠ []) :
      Place ⟨true, false, [], n + 1, n⟩ none (.some entries)
  | flying (n : ℕ) {futures : List ℕ} (some : futures ≠ []) :
      Place ⟨true, true, futures, n + 1, n⟩ (.some futures) none

theorem Place.not_parked {wait : Wait} {flight : Option (List ℕ)} (place : Place wait flight pending)
    (free : wait.parked = false) :
    ∃ n, wait = ⟨false, false, [], n, n⟩ ∧ flight = none ∧ pending = none := by
  cases place with
  | idle n => exact ⟨n, rfl, rfl, rfl⟩
  | planned | flying => cases free

namespace Transfer
variable {s : Transfer} (c : Connector) (r : Request)

structure Sound (s : Transfer) : Prop where
  asynchronous : s.connector.asyncLoad = true
  place : ∀ id, Place (s.waits id) (s.asyncInflight.get? (some id))
    (s.connector.asyncPendingLoads.get? id)

theorem sound_start (start : s.Start) : s.Sound := by
  obtain ⟨asynchronous, pending, inflight, waits⟩ := start
  refine ⟨asynchronous, fun id => ?_⟩
  rw [waits, pending, inflight]
  exact .idle 0

theorem mem_getFinished (s : Transfer) (rid : Option String) : rid ∈ s.getFinished ↔
      ∃ futures, s.asyncInflight.get? rid = some futures ∧ futures.all s.ended = true := by
  rw [getFinished, mem_keys_iff]
  simp

theorem mem_submissions (executor : s.executor = true)
    (paired : plan.loadChunkReqIds.length ≤ plan.packedChunksToLoad.length) (id : String) :
    some id ∈ s.submissions plan ↔ id ∈ plan.loadChunkReqIds := by
  unfold submissions
  split_ifs with active
  · exact mem_loadReqIds paired id
  · have none : plan.loadChunkReqIds = [] := by
      by_contra some
      exact active ⟨some, executor⟩
    simp [none]

theorem place_startLoadKvAsync {id : String}
    (place : Place (s.waits id) (s.asyncInflight.get? (some id)) pending)
    (named : some id ∈ s.submissions plan ↔ ∃ entries, entries ≠ [] ∧ pending = some entries) :
    Place ((s.startLoadKvAsync plan).waits id)
      ((s.startLoadKvAsync plan).asyncInflight.get? (some id)) none := by
  dsimp only [startLoadKvAsync]
  cases pending with
  | none =>
    have other : some id ∉ s.submissions plan := by simp [named]
    rw [get?_foldl_submit_of_not_mem other, (futuresOf_eq_nil_iff ..).mpr other]
    generalize s.waits id = wait at *
    generalize s.asyncInflight.get? (some id) = flight at *
    cases place with
    | idle n => exact .idle n
    | @flying n futures some =>
      rw [append_nil]
      exact .flying n some
  | some entries =>
    generalize waits : s.waits id = wait at *
    generalize flies : s.asyncInflight.get? (some id) = flight at *
    cases place with
    | planned n some =>
      have submits : Option.some id ∈ s.submissions plan := named.mpr ⟨entries, some, rfl⟩
      rw [get?_foldl_submit_of_mem submits, flies]
      refine .flying n fun none => ?_
      exact (futuresOf_eq_nil_iff ..).mp none submits

theorem loads_getNumNewMatchedTokens (numComputedTokens : ℕ) (present : Hash → Bool) :
    (c.getNumNewMatchedTokens r numComputedTokens present).2.asyncPendingLoads =
        c.asyncPendingLoads ∧
      (c.getNumNewMatchedTokens r numComputedTokens present).2.asyncLoad = c.asyncLoad := by
  unfold getNumNewMatchedTokens
  cases named : r.requestId <;> dsimp only <;> split_ifs <;> exact ⟨rfl, rfl⟩

theorem asyncLoad_updateStateAfterAlloc (blocks : List (List ℕ)) (numExternalTokens : ℕ) :
    (c.updateStateAfterAlloc r blocks numExternalTokens).asyncLoad = c.asyncLoad := by
  unfold updateStateAfterAlloc
  cases r.requestId with
  | none => rfl
  | some id =>
    dsimp only
    split_ifs <;> rfl

theorem loads_updateStateAfterAlloc_zero (blocks : List (List ℕ)) :
    (c.updateStateAfterAlloc r blocks 0).asyncPendingLoads = c.asyncPendingLoads := by
  unfold updateStateAfterAlloc
  cases r.requestId with
  | none => rfl
  | some id =>
    dsimp only
    rw [if_neg (by simp)]

theorem loads_allocated_other (a : Admission) (c : Connector) {id : String} (other : id ≠ a.id) :
    (a.allocated c).asyncPendingLoads.get? id = c.asyncPendingLoads.get? id := by
  have elsewhere : a.request.requestId ≠ some id := by
    rw [a.named]
    exact fun same => other (Option.some.inj same).symm
  exact (sameFor_updateStateAfterAlloc a.request elsewhere ..).loads.trans
    (sameFor_getNumNewMatchedTokens a.request elsewhere ..).loads

section
variable (sound : s.Sound)
include sound

theorem Sound.of_same {s' : Transfer} (asyncLoad : s'.connector.asyncLoad = s.connector.asyncLoad)
    (pending : s'.connector.asyncPendingLoads = s.connector.asyncPendingLoads)
    (inflight : s'.asyncInflight = s.asyncInflight) (waits : s'.waits = s.waits) : s'.Sound := by
  refine ⟨asyncLoad.trans sound.asynchronous, fun id => ?_⟩
  rw [waits, pending, inflight]
  exact sound.place id

theorem sound_poll : (s.next .poll).Sound := by
  refine ⟨sound.asynchronous, fun id => ?_⟩
  have place := sound.place id
  have finished := mem_getFinished s (some id)
  dsimp only [next]
  rw [get?_filter]
  generalize s.waits id = wait at *
  generalize s.asyncInflight.get? (some id) = flight at *
  generalize s.connector.asyncPendingLoads.get? id = pending at *
  cases place with
  | idle n =>
    rw [if_neg (by simp [finished])]
    exact .idle n
  | @planned n entries some =>
    rw [if_neg (by simp [finished])]
    exact .planned n some
  | @flying n futures some =>
    by_cases ended : futures.all s.ended = true
    · rw [if_pos (finished.mpr ⟨futures, rfl, ended⟩), Option.filter_some,
        if_neg (by simpa using ended)]
      exact .idle (n + 1)
    · rw [if_neg (by simpa [finished] using ended), Option.filter_some,
        if_pos (by simpa using ended)]
      exact .flying n some

theorem sound_step (out : SchedulerOutput) (now : Hash → ℕ)
    (executor : s.executor = true) : (s.next (.step out now)).Sound := by
  have config := s.connector.config_buildConnectorMeta out now
  refine ⟨config.asyncLoad.trans sound.asynchronous, fun id => ?_⟩
  set t : Transfer := { s with connector := (s.connector.buildConnectorMeta out now).2 }
  have submitted : some id ∈ t.submissions (s.connector.buildConnectorMeta out now).1 ↔
      ∃ entries, entries ≠ [] ∧ s.connector.asyncPendingLoads.get? id = some entries :=
    (mem_submissions executor (s.connector.length_loadChunkReqIds out now) id).trans
      (s.connector.mem_loadChunkReqIds sound.asynchronous out now id)
  have drained : (s.next (.step out now)).connector.asyncPendingLoads = .empty :=
    s.connector.loads_buildConnectorMeta sound.asynchronous out now
  rw [drained]
  exact place_startLoadKvAsync (s := t) (sound.place id) submitted

theorem sound_admit (a : Admission) (fits : s.Fits (.admitted a))
    (productive : s.Productive (.admitted a)) : (s.next (.admitted a)).Sound := by
  obtain ⟨free, granted, nonempty, tables⟩ := fits
  have promises := a.promises_answer s.connector
  have asynchronous : (a.allocated s.connector).asyncLoad = true :=
    (asyncLoad_updateStateAfterAlloc ..).trans (promises.config.asyncLoad.trans sound.asynchronous)
  refine ⟨asynchronous, fun id => ?_⟩
  have place := sound.place id
  dsimp only [next]
  by_cases parks : (a.answer s.connector).1.2 = true
  · rw [if_pos parks]
    by_cases self : id = a.id
    · subst self
      obtain ⟨known, enough⟩ := productive parks
      obtain ⟨first, grouped⟩ := exists_grouped known
      obtain ⟨entries, some, planned, -⟩ := allocated_async grouped sound.asynchronous
        ((grain_pos ..).trans_le enough) enough nonempty tables granted
      obtain ⟨n, wait, flight, -⟩ := place.not_parked free
      rw [Function.update_self, planned, flight, wait]
      exact .planned n some
    · rw [Function.update_of_ne self, loads_allocated_other a s.connector self]
      exact place
  · rw [if_neg parks]
    have nothing : (a.answer s.connector).1.1 = 0 := by
      by_contra offered
      exact parks (promises.parks.mpr ⟨sound.asynchronous, Nat.pos_of_ne_zero offered⟩)
    have unchanged :
        (a.allocated s.connector).asyncPendingLoads = s.connector.asyncPendingLoads := by
      rw [allocated, Nat.le_zero.mp (granted.trans_eq nothing),
        loads_updateStateAfterAlloc_zero, promises.loads]
    rw [unchanged]
    exact place

theorem sound_next (e : TransferEvent) (fits : s.Fits e)
    (productive : s.Productive e) : (s.next e).Sound := by
  cases e with
  | probe r numComputedTokens present =>
    obtain ⟨loads, asyncLoad⟩ :=
      loads_getNumNewMatchedTokens s.connector r numComputedTokens present
    exact sound.of_same asyncLoad loads rfl rfl
  | admitted a => exact sound_admit sound a fits productive
  | step out now => exact sound_step sound out now productive
  | poll => exact sound_poll sound
  | finished | ends | shutdown => exact sound.of_same rfl rfl rfl rfl

theorem Sound.received (id : String) : s.Received id := by
  have place := sound.place id
  have finished := mem_getFinished s (some id)
  unfold Received
  generalize s.waits id = wait at *
  generalize s.asyncInflight.get? (some id) = flight at *
  generalize s.connector.asyncPendingLoads.get? id = pending at *
  cases place with
  | idle n => exact ⟨rfl, fun parked => nomatch parked⟩
  | planned n some => exact ⟨rfl, fun _ handed => nomatch handed⟩
  | @flying n futures some =>
    exact ⟨rfl, fun _ _ ended => finished.mpr ⟨futures, rfl, all_eq_true.mpr ended⟩⟩

end

/-- As long as every parked request gets a chunk to load and loads are submitted to an executor, a
request that was parked is received once, by the first poll after its loads have ended. -/
theorem parked_requests_received {s : Transfer}
    (reached : Reaches Start next (fun s e => s.Fits e ∧ s.Productive e) s) (id : String) :
    s.Received id := by
  have base : ∀ s : Transfer, s.Start → s.Sound := fun _ => sound_start
  have sound := reached.invariant base fun _ e sound cond => sound_next sound e cond.1 cond.2
  exact sound.received id

def waiting : Transfer where
  connector := { Admission.pairing with asyncLoad := true }
  worker := { Admission.oneLayer with asyncLoad := true }
  executor := true
  asyncInflight := .empty
  nextFuture := 0
  ended _ := false
  waits _ := .none

def idleStep : TransferEvent := .step ⟨[], []⟩ fun _ => 0

theorem start_waiting : waiting.Start := ⟨rfl, rfl, rfl, fun _ => rfl⟩

theorem fits_fourPages (localPages : Fin 4) : waiting.Fits (.admitted (fourPages localPages)) := by
  refine ⟨rfl, ?_, by simp [fourPages], ?_⟩
  all_goals
    revert localPages
    decide +kernel

def fourPagesLoad : List TransferEvent :=
  [.admitted (Admission.fourPages 0), idleStep, .ends 0, .ends 1]

theorem four_pages_received :
    (fourPagesLoad.foldl next waiting).Received "r" ∧
      some "r" ∈ (fourPagesLoad.foldl next waiting).getFinished := by
  have admitted : Reaches Start next (fun s e => s.Fits e ∧ s.Productive e)
      (waiting.next (.admitted (fourPages 0))) :=
    .next _ (.start start_waiting) ⟨fits_fourPages 0, fun _ => by decide +kernel⟩
  have handed := admitted.next idleStep ⟨trivial, rfl⟩
  have first := handed.next (TransferEvent.ends 0) ⟨trivial, trivial⟩
  have ended := first.next (TransferEvent.ends 1) ⟨trivial, trivial⟩
  exact ⟨parked_requests_received ended "r", by decide +kernel⟩

/-- Three of the four pages are local: the answer offers the page that is left of the second chunk
and parks the request, the plan has no whole chunk, nothing is submitted and no poll ever reports
the request. -/
theorem parked_without_a_load :
    ∃ s, Reaches Start next Fits s ∧
      s = (waiting.next (.admitted (Admission.fourPages 3))).next idleStep ∧
      (s.waits "r").parked = true ∧ (s.waits "r").submitted = [] ∧ ¬s.Received "r" := by
  have admitted : Reaches Start next Fits (waiting.next (.admitted (fourPages 3))) :=
    .next _ (.start start_waiting) (fits_fourPages 3)
  refine ⟨_, admitted.next idleStep trivial, rfl, by decide +kernel, by decide +kernel, ?_⟩
  intro received
  have finished := received.2 (by decide +kernel) (by decide +kernel) (by decide +kernel)
  exact absurd finished (by decide +kernel)

end Transfer
end Infera.Vllm
