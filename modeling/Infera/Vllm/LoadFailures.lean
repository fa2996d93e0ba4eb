import Infera.Vllm.LoadCoverage
import Infera.Vllm.Worker

/-! Pages the engine was promised, and what became of their loads. The engine
recomputes the blocks the connector reports as failed; the connector reports
none. So the promise is kept only by loads that succeed: we say what a load
needs, in every mode, to write a block of a layer, and that a promised page is
written exactly when the loads of the step have it. -/

namespace Infera.Vllm
open List Option

variable {unpackb : List UInt8 → Option HeaderBody} {blob payload : List UInt8}
  {header : ChunkHeader}

theorem unpackHeader_eq_some_iff : unpackHeader unpackb blob = some header ↔
      4 ≤ blob.length ∧ 4 + Kvd.leNat (blob.take 4) ≤ blob.length ∧
        (unpackb ((blob.drop 4).take (Kvd.leNat (blob.take 4)))).bind HeaderBody.header =
          some header ∧ (header.layerNames.length : ℤ) = header.numLayers ∧
        (header.numKvChannels = 1 ∨ header.numKvChannels = 2) := by
  unfold unpackHeader
  by_cases long : 4 ≤ blob.length
  · by_cases whole : 4 + Kvd.leNat (blob.take 4) ≤ blob.length
    · rw [if_neg (not_lt.mpr long)]
      rw [if_neg (not_lt.mpr whole)]
      simp only [bind_eq_bind, long, whole, true_and]
      cases unpackb ((blob.drop 4).take (Kvd.leNat (blob.take 4))) with
      | none => simp
      | some body =>
        simp only [bind_some]
        cases body.header with
        | none => simp
        | some found =>
          simp only [bind_some]
          split_ifs with layers channels
          · simp only [false_iff]
            rintro ⟨same, equal, -⟩
            cases same
            exact layers equal
          · simp only [false_iff]
            rintro ⟨same, -, either⟩
            cases same
            omega
          · constructor
            · intro same
              cases same
              exact ⟨rfl, by omega, by omega⟩
            · exact fun facts => facts.1
    · simp [whole]
  · simp [long]

theorem unpackHeader_take {k : ℕ} (unpacked : unpackHeader unpackb (blob.take k) = some header) :
    unpackHeader unpackb blob = some header := by
  rw [unpackHeader_eq_some_iff] at unpacked ⊢
  obtain ⟨long, whole, body, rest⟩ := unpacked
  rw [length_take] at long whole
  have start : (blob.take k).take 4 = blob.take 4 := by
    rw [take_take, min_eq_left (by omega)]
  rw [start] at whole body
  have slice : ((blob.take k).drop 4).take (Kvd.leNat (blob.take 4)) =
      (blob.drop 4).take (Kvd.leNat (blob.take 4)) := by
    rw [drop_take, take_take, min_eq_left (by omega)]
  rw [slice] at body
  exact ⟨by omega, by omega, body, rest⟩

theorem unpackChunk_cases (unpacked : unpackChunk unpackb blob = some (header, payload)) :
    unpackHeader unpackb blob = some header ∧ header.payloadStart blob ≤ blob.length ∧
      payload = blob.drop (header.payloadStart blob).toNat ∧
      (payload.length : ℤ) = header.payloadBytes := by
  obtain ⟨found, parsed, rest⟩ := bind_eq_some_iff.mp unpacked
  dsimp only at rest
  split_ifs at rest with beyond size
  cases rest
  exact ⟨parsed, not_lt.mp beyond, rfl, not_not.mp size⟩

namespace Worker

/-- The chunk a load works with, by its header and its number of bytes: fetched and unpacked whole,
or read from its file straight to the device. -/
inductive Finds (w : Worker) (o : Outcome) (direct : Bool) (header : ChunkHeader) : ℕ → Prop
  | whole {blob payload : List UInt8} (fetched : fetchChunkBlob o = some blob)
      (unpacked : unpackChunk w.unpackb blob = some (header, payload)) :
      Finds w o direct header payload.length
  | straight {blob : List UInt8} (usable : direct = true) (uncached : o.cached = none)
      (file : o.file = .bytes blob)
      (parsed : unpackHeader w.unpackb (blob.take 65536) = some header)
      (long : header.payloadStart blob + header.payloadBytes ≤ blob.length)
      (aligned : header.payloadStart blob % 4096 = 0)
      (read : o.registered = true ∧ o.directRead = true) :
      Finds w o direct header header.payloadBytes.toNat

/-- A chunk is scattered once its bytes decode and all blocks of the entry are inside the cache. -/
structure Scatters (w : Worker) (e : LoadEntry) (o : Outcome) (spec : WorkerGroup)
    (header : ChunkHeader) (bytes : ℕ) : Prop where
  decoded : w.decodes (w.present e.layerNames) header bytes = true
  device : o.device = true
  whole : header.chunkTokens % spec.blockSize = 0
  room : ∀ block ∈ e.blocks, block * spec.blockSize + spec.blockSize - 1 <
    (w.firstCache (w.present e.layerNames)).numel / max (spec.numKvChannels * spec.hiddenDim) 1

/-- The chunk of the entry is found, was saved for the layers and sizes this worker has, and has a
page for the block. -/
structure Serves (w : Worker) (direct : Bool) (e : LoadEntry) (o : Outcome) (layer : String)
    (block : ℕ) (spec : WorkerGroup) (header : ChunkHeader) (bytes : ℕ) : Prop where
  present : layer ∈ w.present e.layerNames
  group : w.groupKvSpec.get? e.gid = some spec
  found : w.Finds o direct header bytes
  shape : matchesHeader spec (w.present e.layerNames) header = true
  page : block ∈ chunkBlocks spec header e

/-- What the load of an entry needs, in the mode of the step, to bring a block of a layer into the
cache. -/
def Delivers (w : Worker) (asynchronous : Bool) (e : LoadEntry) (o : Outcome) (layer : String)
    (block : ℕ) : Prop :=
  let pooled := asynchronous || w.layerwiseMode = .parallel
  ∃ spec header bytes, w.Serves (w.gpuDirect && pooled) e o layer block spec header bytes ∧
    if pooled ∨ w.layerwiseMode = .off then
      w.Scatters e o spec header bytes ∧ (asynchronous = true ∨ pooled = false ∨ o.timely = true)
    else layer ∈ w.shipped (w.present e.layerNames) o ∧
      (w.layerwiseMode = .stepped → w.decodes (w.present e.layerNames) header bytes = true)

/-- Every block of the entry is delivered to each of its layers on this worker. -/
def Loadable (w : Worker) (asynchronous : Bool) (e : LoadEntry) (o : Outcome) : Prop :=
  ∀ layer ∈ w.present e.layerNames, ∀ block ∈ e.blocks, w.Delivers asynchronous e o layer block

variable {w : Worker} {e : LoadEntry} {o : Outcome} {spec : WorkerGroup} {layer : String}
  {block bytes : ℕ} {direct : Bool}

theorem mem_writes {layers : List String} {blocks : List ℕ} :
    (layer, block) ∈ writes layers blocks ↔ layer ∈ layers ∧ block ∈ blocks := by
  simp [writes]

theorem Finds.channels (found : w.Finds o direct header bytes) :
    header.numKvChannels = 1 ∨ header.numKvChannels = 2 := by
  cases found with
  | whole _ unpacked => exact (unpackHeader_eq_some_iff.mp (unpackChunk_cases unpacked).1).2.2.2.2
  | straight _ _ _ parsed => exact (unpackHeader_eq_some_iff.mp parsed).2.2.2.2

theorem openChunk_eq_some_iff {chunk : OpenChunk} : w.openChunk e o = some chunk ↔
    ∃ spec blob header payload, chunk = ⟨spec, w.present e.layerNames, header, payload⟩ ∧
      w.groupKvSpec.get? e.gid = some spec ∧ w.present e.layerNames ≠ [] ∧
      fetchChunkBlob o = some blob ∧ unpackChunk w.unpackb blob = some (header, payload) ∧
      matchesHeader spec (w.present e.layerNames) header = true := by
  unfold openChunk
  constructor
  · intro opened
    obtain ⟨spec, group, opened⟩ := bind_eq_some_iff.mp opened
    split_ifs at opened with none
    obtain ⟨blob, fetched, opened⟩ := bind_eq_some_iff.mp opened
    obtain ⟨⟨header, payload⟩, unpacked, opened⟩ := bind_eq_some_iff.mp opened
    dsimp only at opened
    split_ifs at opened with shape
    exact ⟨spec, blob, header, payload, (some.inj opened).symm, group, none, fetched, unpacked, shape⟩
  · rintro ⟨spec, blob, header, payload, rfl, group, some, fetched, unpacked, shape⟩
    simp only [group, fetched, unpacked, bind_eq_bind, bind_some]
    rw [if_neg some, if_pos shape]

/-- Scattering a chunk that was found writes just what it serves. -/
theorem mem_scattered (group : w.groupKvSpec.get? e.gid = some spec)
    (found : w.Finds o direct header bytes)
    (shape : matchesHeader spec (w.present e.layerNames) header = true) :
    (layer, block) ∈ (if w.decodes (w.present e.layerNames) header bytes ∧ o.device then
        w.kvChunkScatter spec (w.present e.layerNames) header e else []) ↔
      w.Serves direct e o layer block spec header bytes ∧ w.Scatters e o spec header bytes := by
  have layers : header.numLayers = (w.present e.layerNames).length := (of_decide_eq_true shape).1
  constructor
  · intro mem
    split_ifs at mem with ready
    · unfold kvChunkScatter at mem
      dsimp only at mem
      split_ifs at mem with fits
      · obtain ⟨present, page⟩ := mem_writes.mp mem
        exact ⟨⟨present, group, found, shape, page⟩, ready.1, ready.2, fits.2.2.1, fits.2.2.2⟩
      · cases mem
    · cases mem
  · rintro ⟨serves, scatters⟩
    rw [if_pos ⟨scatters.decoded, scatters.device⟩, kvChunkScatter,
      if_pos ⟨found.channels, layers, scatters.whole, scatters.room⟩]
    exact mem_writes.mpr ⟨serves.present, serves.page⟩

/-- What a load that scatters a whole chunk writes. -/
theorem mem_loadChunkPacked : (layer, block) ∈ w.loadChunkPacked e o ↔
    ∃ spec header bytes, w.Serves false e o layer block spec header bytes ∧
      w.Scatters e o spec header bytes := by
  unfold loadChunkPacked
  cases opened : w.openChunk e o with
  | none =>
    refine ⟨(nomatch ·), fun ⟨spec, header, bytes, serves, _⟩ => ?_⟩
    cases serves.found with
    | whole fetched unpacked =>
      exact absurd (openChunk_eq_some_iff.mpr ⟨_, _, _, _, rfl, serves.group,
        ne_nil_of_mem serves.present, fetched, unpacked, serves.shape⟩) (by simp [opened])
    | straight usable => cases usable
  | some chunk =>
    obtain ⟨spec, blob, header, payload, rfl, group, -, fetched, unpacked, shape⟩ :=
      openChunk_eq_some_iff.mp opened
    refine (mem_scattered group (.whole fetched unpacked) shape).trans
      ⟨fun serves => ⟨_, _, _, serves⟩, fun ⟨spec', header', bytes', serves, scatters⟩ => ?_⟩
    cases group.symm.trans serves.group
    cases serves.found with
    | whole fetched' unpacked' =>
      cases fetched.symm.trans fetched'
      cases unpacked.symm.trans unpacked'
      exact ⟨serves, scatters⟩
    | straight usable => cases usable

theorem Finds.mono (found : w.Finds o false header bytes) : w.Finds o direct header bytes := by
  cases found with
  | whole fetched unpacked => exact .whole fetched unpacked
  | straight usable => cases usable

/-- A chunk with a header that can be read directly is found under that header only. -/
theorem Finds.of_parsed {header' : ChunkHeader} (uncached : o.cached = none)
    (file : o.file = .bytes blob)
    (parsed : unpackHeader w.unpackb (blob.take 65536) = some header)
    (found : w.Finds o direct header' bytes) :
    header' = header ∧ bytes = header.payloadBytes.toNat := by
  cases found with
  | whole fetched unpacked =>
    rw [fetchChunkBlob, uncached, file] at fetched
    obtain ⟨parsed', -, -, size⟩ := unpackChunk_cases unpacked
    cases blob with
    | nil => cases fetched
    | cons b rest =>
      cases fetched
      cases (unpackHeader_take parsed).symm.trans parsed'
      exact ⟨rfl, by rw [← size, Int.toNat_natCast]⟩
  | straight _ _ file' parsed' =>
    cases file.symm.trans file'
    cases parsed.symm.trans parsed'
    exact ⟨rfl, rfl⟩

theorem mem_loadChunkPacked_of_whole
    (never : ∀ header bytes, w.Finds o true header bytes → w.Finds o false header bytes) :
    (layer, block) ∈ w.loadChunkPacked e o ↔ ∃ spec header bytes,
      w.Serves true e o layer block spec header bytes ∧ w.Scatters e o spec header bytes :=
  mem_loadChunkPacked.trans
    ⟨fun ⟨spec, header, bytes, serves, scatters⟩ =>
      ⟨spec, header, bytes, { serves with found := serves.found.mono }, scatters⟩,
    fun ⟨spec, header, bytes, serves, scatters⟩ =>
      ⟨spec, header, bytes, { serves with found := never _ _ serves.found }, scatters⟩⟩

theorem mem_loadChunkPackedHipfileDirect : (layer, block) ∈ w.loadChunkPackedHipfileDirect e o ↔
    ∃ spec header bytes, w.Serves true e o layer block spec header bytes ∧
      w.Scatters e o spec header bytes := by
  unfold loadChunkPackedHipfileDirect
  dsimp only
  cases group : w.groupKvSpec.get? e.gid with
  | none =>
    refine ⟨(nomatch ·), fun ⟨spec, header, bytes, serves, _⟩ => ?_⟩
    cases group.symm.trans serves.group
  | some spec =>
    dsimp only
    by_cases none : w.present e.layerNames = []
    · rw [if_pos none]
      refine ⟨(nomatch ·), fun ⟨spec, header, bytes, serves, _⟩ => ?_⟩
      exact absurd none (ne_nil_of_mem serves.present)
    rw [if_neg none]
    split
    · rename_i blob uncached file
      cases parsed : unpackHeader w.unpackb (blob.take 65536) with
      | none =>
        refine mem_loadChunkPacked_of_whole fun header bytes found => ?_
        cases found with
        | whole fetched unpacked => exact .whole fetched unpacked
        | straight _ _ file' parsed' =>
          cases file.symm.trans file'
          cases parsed.symm.trans parsed'
      | some header =>
        dsimp only
        by_cases mismatch : matchesHeader spec (w.present e.layerNames) header = false
        · rw [if_pos mismatch]
          refine ⟨(nomatch ·), fun ⟨spec', header', bytes, serves, _⟩ => ?_⟩
          cases group.symm.trans serves.group
          obtain ⟨rfl, -⟩ := serves.found.of_parsed uncached file parsed
          exact absurd serves.shape (by simp [mismatch])
        rw [if_neg mismatch]
        by_cases fallback : blob.length < header.payloadStart blob + header.payloadBytes ∨
            header.payloadStart blob % 4096 ≠ 0 ∨ ¬(o.registered ∧ o.directRead)
        · rw [if_pos fallback]
          refine mem_loadChunkPacked_of_whole fun header' bytes found => ?_
          cases found with
          | whole fetched unpacked => exact .whole fetched unpacked
          | straight _ _ file' parsed' long aligned read =>
            cases file.symm.trans file'
            cases parsed.symm.trans parsed'
            rcases fallback with short | unaligned | unread
            · exact absurd long (not_le.mpr short)
            · exact absurd aligned unaligned
            · exact absurd read unread
        · rw [if_neg fallback]
          simp only [not_or, not_lt, not_not] at fallback
          obtain ⟨long, aligned, read⟩ := fallback
          refine (mem_scattered group (.straight rfl uncached file parsed long aligned read)
            (by simpa using mismatch)).trans ⟨fun serves => ⟨_, _, _, serves⟩,
              fun ⟨spec', header', bytes, serves, scatters⟩ => ?_⟩
          cases group.symm.trans serves.group
          obtain ⟨rfl, rfl⟩ := serves.found.of_parsed uncached file parsed
          exact ⟨serves, scatters⟩
    · rename_i other
      refine mem_loadChunkPacked_of_whole fun header bytes found => ?_
      cases found with
      | whole fetched unpacked => exact .whole fetched unpacked
      | straight _ uncached file => exact absurd file (other _ uncached)

theorem mem_perChunk : (layer, block) ∈ w.perChunk e o ↔ ∃ spec header bytes,
    w.Serves w.gpuDirect e o layer block spec header bytes ∧ w.Scatters e o spec header bytes := by
  unfold perChunk
  cases w.gpuDirect with
  | true => exact mem_loadChunkPackedHipfileDirect
  | false => exact mem_loadChunkPacked

/-- What the layerwise loads write, `Needs` being what they ask of the bytes. -/
theorem open_shipped (Needs : List String → ChunkHeader → ℕ → Prop) :
    (∃ chunk, w.openChunk e o = some chunk ∧ Needs chunk.present chunk.header chunk.payload.length ∧
      layer ∈ w.shipped chunk.present o ∧ block ∈ chunkBlocks chunk.spec chunk.header e) ↔
    ∃ spec header bytes, w.Serves false e o layer block spec header bytes ∧
      layer ∈ w.shipped (w.present e.layerNames) o ∧ Needs (w.present e.layerNames) header bytes := by
  constructor
  · rintro ⟨chunk, opened, needed, shipped, page⟩
    obtain ⟨spec, blob, header, payload, rfl, group, -, fetched, unpacked, shape⟩ :=
      openChunk_eq_some_iff.mp opened
    have present : layer ∈ w.present e.layerNames := by
      simpa using (mem_filter.mp (takeWhile_sublist _ |>.subset shipped)).2
    exact ⟨spec, header, _, ⟨present, group, .whole fetched unpacked, shape, page⟩, shipped, needed⟩
  · rintro ⟨spec, header, bytes, serves, shipped, needed⟩
    cases serves.found with
    | whole fetched unpacked =>
      exact ⟨_, openChunk_eq_some_iff.mpr ⟨_, _, _, _, rfl, serves.group,
        ne_nil_of_mem serves.present, fetched, unpacked, serves.shape⟩, needed, shipped, serves.page⟩
    | straight usable => cases usable

/-- A load writes the blocks it delivers and no others. -/
theorem mem_load (asynchronous : Bool) :
    (layer, block) ∈ w.load asynchronous e o ↔ w.Delivers asynchronous e o layer block := by
  unfold load Delivers
  cases asynchronous with
  | true => simpa using mem_perChunk
  | false =>
    cases mode : w.layerwiseMode with
    | off => simpa [mode] using mem_loadChunkPacked
    | stepped =>
      have steps : (layer, block) ∈ w.loadStepped e o ↔ ∃ chunk, w.openChunk e o = some chunk ∧
          w.decodes chunk.present chunk.header chunk.payload.length = true ∧
          layer ∈ w.shipped chunk.present o ∧ block ∈ chunkBlocks chunk.spec chunk.header e := by
        cases opened : w.openChunk e o <;> simp [loadStepped, opened, mem_writes]
      simpa [mode] using steps.trans (open_shipped (w.decodes · · · = true))
    | prefetch =>
      have prefetches : (layer, block) ∈ w.loadPrefetch e o ↔ ∃ chunk, w.openChunk e o = some chunk ∧
          True ∧ layer ∈ w.shipped chunk.present o ∧ block ∈ chunkBlocks chunk.spec chunk.header e := by
        cases opened : w.openChunk e o <;> simp [loadPrefetch, opened, mem_writes]
      simpa [mode] using prefetches.trans (open_shipped fun _ _ _ => True)
    | parallel =>
      cases timely : o.timely with
      | true => simpa [mode] using mem_perChunk
      | false => simp

/-- Only the first group is split, and the synthetic group of its indexer is beyond all groups: the
indexer's blocks are then those of its group. -/
def SplitsFirst (w : Worker) (c : Connector) (groups : ℕ) : Prop :=
  groups ≤ dsaIndexerGidBase ∧ ∀ gid ∈ c.groupIds,
    (w.groupKvSpec.get? (dsaIndexerGidBase + gid)).isSome = true → gid = 0

theorem splitDsaEntry_covers (short : ∀ row ∈ e.perPageBlockIds, row.length ≤ dsaIndexerGidBase)
    (first : (w.groupKvSpec.get? (dsaIndexerGidBase + e.gid)).isSome = true → e.gid = 0) (mem : layer ∈ e.layerNames) :
    ∃ e' ∈ w.splitDsaEntry e, layer ∈ e'.layerNames ∧ e'.blocks = e.blocks := by
  unfold splitDsaEntry
  by_cases whole : (w.groupKvSpec.get? (dsaIndexerGidBase + e.gid)).isNone = true ∨
      e.layerNames.filter isDsaIndexerLayer = []
  · rw [if_pos whole]
    exact ⟨e, mem_singleton_self e, mem, rfl⟩
  rw [if_neg whole]
  have zero : e.gid = 0 := first (by
    rw [not_or, Bool.not_eq_true, isNone_eq_false_iff] at whole
    exact whole.1)
  cases indexer : isDsaIndexerLayer layer with
  | true =>
    refine ⟨_, mem_append_right _ (mem_singleton_self _),
      mem_filter.mpr ⟨mem, indexer⟩, map_congr_left fun row listed => ?_⟩
    have beyond : row.length ≤ dsaIndexerGidBase + e.gid := (short row listed).trans (by omega)
    rw [blockOf, getD_eq_getElem?_getD, List.getElem?_eq_none beyond, zero]
    cases row <;> rfl
  | false =>
    have main : layer ∈ e.layerNames.filter fun name => !isDsaIndexerLayer name :=
      mem_filter.mpr ⟨mem, by rw [indexer]; rfl⟩
    refine ⟨{ e with layerNames := e.layerNames.filter fun name => !isDsaIndexerLayer name },
      mem_append_left _ ?_, main, rfl⟩
    rw [if_neg (ne_nil_of_mem main)]
    exact mem_singleton_self _

end Worker

namespace Admission
variable (a : Admission) (c : Connector)

def Written (w : Worker) (written : List Write) (page : ℕ) : Prop :=
  c.groupIds ≠ [] ∧ ∀ gid ∈ c.groupIds, ∀ layer ∈ w.present (c.layerNames gid),
    (layer, blockOf (a.row page) gid) ∈ written

def Reported (failed : List ℕ) (page : ℕ) : Prop :=
  c.groupIds ≠ [] ∧ ∀ gid ∈ c.groupIds, blockOf (a.row page) gid ∈ failed

/-- For each group and layer of a page some load of the step has what it needs. -/
def Supplied (w : Worker) (plan : Metadata) (outcomes : ℕ → Outcome) (page : ℕ) : Prop :=
  c.groupIds ≠ [] ∧ ∀ gid ∈ c.groupIds, ∀ layer ∈ w.present (c.layerNames gid),
    ∃ x ∈ (w.entries plan).zipIdx, w.Delivers (w.asyncLoad && plan.loadChunkReqIds ≠ []) x.1
      (outcomes x.2) layer (blockOf (a.row page) gid)

theorem written_iff_supplied (w : Worker) (plan : Metadata) (outcomes : ℕ → Outcome) (page : ℕ) :
    a.Written c w (w.startLoadKv plan outcomes) page ↔ a.Supplied c w plan outcomes page := by
  refine and_congr_right fun _ => forall₄_congr fun gid _ layer _ => ?_
  rw [Worker.startLoadKv, mem_flatMap]
  exact exists_congr fun x => and_congr_right fun _ => Worker.mem_load _

/-- A promised page is written, or the engine learns that it was not, exactly when it is supplied:
in particular if whole chunks were taken and every load has what it needs. -/
theorem promised_pages_written_or_reported (a : Admission) (c : Connector)
    (calls : List Connector.SchedulerCall) (out : SchedulerOutput) (now : Hash → ℕ) (w : Worker)
    (outcomes : ℕ → Outcome) (scheduled : a.Scheduled c calls out)
    (page : ℕ) (low : a.localPages ≤ page) (high : page < a.localPages + a.externalPages) :
    (a.Written c w (w.startLoadKv (a.plan c calls out now) outcomes) page ∨
        a.Reported c (w.blockIdsWithLoadErrors (a.plan c calls out now) outcomes) page ↔
      a.Supplied c w (a.plan c calls out now) outcomes page) ∧
    (a.Aligned c → w.SplitsFirst c a.blocks.length →
      (∀ x ∈ (w.entries (a.plan c calls out now)).zipIdx, w.Loadable
        (w.asyncLoad && (a.plan c calls out now).loadChunkReqIds ≠ []) x.1 (outcomes x.2)) →
      a.Supplied c w (a.plan c calls out now) outcomes page) := by
  constructor
  · rw [← written_iff_supplied]
    refine or_iff_left fun ⟨groups, reported⟩ => ?_
    obtain ⟨gid, group⟩ := exists_mem_of_ne_nil _ groups
    cases reported gid group
  intro aligned splits loadable
  obtain ⟨groups, planned⟩ := planned_chunks now scheduled aligned page low high
  refine ⟨groups, fun gid group layer registered => ?_⟩
  obtain ⟨named, cached⟩ := mem_filter.mp registered
  set e := c.chunkEntry a.hashes a.blocks (a.pagesPerChunk c) (page / a.pagesPerChunk c) gid
  have short : ∀ row ∈ e.perPageBlockIds, row.length ≤ dsaIndexerGidBase := by
    intro row listed
    obtain ⟨p, -, rfl⟩ := mem_map.mp listed
    rw [length_map]
    exact splits.1
  obtain ⟨e', part, layered, blocks⟩ :=
    Worker.splitDsaEntry_covers (w := w) short (splits.2 gid group)
      (show layer ∈ e.layerNames from named)
  have block : blockOf (a.row page) gid ∈ e'.blocks := by
    rw [blocks]
    exact mem_map.mpr ⟨_, mem_of_getElem? (chunkEntry_row page gid), rfl⟩
  have entry : e' ∈ w.entries (a.plan c calls out now) :=
    mem_flatMap.mpr ⟨e, planned gid group, part⟩
  obtain ⟨i, inside, same⟩ := mem_iff_getElem.mp entry
  have listed : (e', i) ∈ (w.entries (a.plan c calls out now)).zipIdx := by
    rw [mem_zipIdx_iff_getElem?, List.getElem?_eq_getElem inside, same]
  exact ⟨_, listed, loadable _ listed layer (mem_filter.mpr ⟨layered, cached⟩) _ block⟩

def oneLayer : Worker where
  groupKvSpec := Dict.empty.set 0 ⟨2, 1, 1⟩
  kvCaches := Dict.empty.set "layer" ⟨1, 64⟩
  unpackb _ := some ⟨.value 2, .value 4, .value 2, .value 1, .value ["layer"], .value 1,
    .value "fp8_e4m3", .absent, .value 1, .absent⟩
  asyncLoad := false
  gpuDirect := false
  layerwiseMode := .off
  forward := ["layer"]

def readChunk (file : FileRead) : Outcome where
  cached := none
  file
  remote := none
  registered := false
  directRead := false
  device := true
  ships _ := true
  timely := true

def chunkFile : List UInt8 := [0, 0, 0, 0, 1, 2, 3, 4]

theorem loadable_oneLayer (key : Hash) : oneLayer.Loadable false ⟨[[12], [13]], key, 0, ["layer"]⟩
    (readChunk (.bytes chunkFile)) := by
  intro layer present block listed
  have decoded : oneLayer.decodes ["layer"] ⟨4, 2, 1, ["layer"], 1, "fp8_e4m3", 0, 1, 0⟩ 4 = true := by
    decide +kernel
  refine ⟨⟨2, 1, 1⟩, _, 4, ⟨present, rfl, @Worker.Finds.whole _ _ _ _ chunkFile [1, 2, 3, 4] rfl rfl,
    rfl, listed⟩, ?_⟩
  exact ⟨⟨decoded, rfl, rfl, show ∀ block ∈ [12, 13], block * 2 + 2 - 1 < 64 / max (1 * 1) 1 by decide⟩,
    .inr (.inl rfl)⟩

theorem second_chunk_written : (fourPages 2).Written pairing oneLayer
        (oneLayer.startLoadKv ((fourPages 2).plan pairing [] onlyFourPages fun _ => 0)
          fun _ => readChunk (.bytes chunkFile)) 2 ∨
      (fourPages 2).Reported pairing
        (oneLayer.blockIdsWithLoadErrors ((fourPages 2).plan pairing [] onlyFourPages fun _ => 0)
          fun _ => readChunk (.bytes chunkFile)) 2 := by
  have loads : ∀ x ∈ (oneLayer.entries
      ((fourPages 2).plan pairing [] onlyFourPages fun _ => 0)).zipIdx,
      x.1.perPageBlockIds = [[12], [13]] ∧ x.1.gid = 0 ∧ x.1.layerNames = ["layer"] := by
    decide +kernel
  obtain ⟨exact, enough⟩ := promised_pages_written_or_reported (fourPages 2) pairing [] onlyFourPages
    (fun _ => 0) oneLayer (fun _ => readChunk (.bytes chunkFile)) (scheduled_fourPages 2) 2
    (by decide) (by decide)
  refine exact.mpr (enough (.inr (by decide +kernel)) ⟨by decide, by decide +kernel⟩ ?_)
  rintro ⟨⟨rows, key, gid, names⟩, i⟩ mem
  obtain ⟨rfl, rfl, rfl⟩ := loads _ mem
  exact loadable_oneLayer key

/-- The second chunk was found by the probe and is gone when it is loaded: its pages are not
written, and not reported. -/
theorem removed_chunk_not_reported :
    (fourPages 2).Scheduled pairing [] onlyFourPages ∧ (fourPages 2).Aligned pairing ∧
      ¬((fourPages 2).Written pairing oneLayer
          (oneLayer.startLoadKv ((fourPages 2).plan pairing [] onlyFourPages fun _ => 0)
            fun _ => readChunk .absent) 2 ∨
        (fourPages 2).Reported pairing (oneLayer.blockIdsWithLoadErrors
            ((fourPages 2).plan pairing [] onlyFourPages fun _ => 0)
            fun _ => readChunk .absent) 2) := by
  refine ⟨scheduled_fourPages 2, .inr (by decide +kernel), ?_⟩
  have group : 0 ∈ pairing.groupIds := by decide +kernel
  rintro (⟨-, written⟩ | ⟨-, reported⟩)
  · have gone : oneLayer.startLoadKv ((fourPages 2).plan pairing [] onlyFourPages fun _ => 0)
        (fun _ => readChunk .absent) = [] := by decide +kernel
    have some := written 0 group "layer" (by decide +kernel)
    rw [gone] at some
    cases some
  · cases reported 0 group

end Admission
end Infera.Vllm
