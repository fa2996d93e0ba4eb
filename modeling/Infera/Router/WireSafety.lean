import Infera.Router.EngineCache
import Infera.Router.Wire
import Infera.Runs

/-! What an engine's event stream becomes in a view. Engines name blocks by
integers or byte strings and tokens by integers or, under speculative decoding,
by pairs of them. A batch is encoded as the engine's schema declares and read
back by the subscriber, which drops every value it does not recognise. Over a
whole run the engine's cache and the paths it ever stored are kept beside the
router's rank. -/

namespace Infera.Router
open Value List EngineCache

inductive WireHash where
  | int (i : WireInt)
  | bytes (b : List UInt8)
  deriving DecidableEq

inductive WireToken where
  | id (i : WireInt)
  | pair (i j : WireInt)
  deriving DecidableEq

namespace WireHash

def encode : WireHash → Value
  | .int i => .integer i
  | .bytes b => .binary b

/-- The router's key for an integer hash; byte strings have none. -/
def read : WireHash → UInt64
  | .int i => UInt64.ofInt i.val
  | .bytes _ => 0

end WireHash

namespace WireToken

def encode : WireToken → Value
  | .id i => .integer i
  | .pair i j => .array [.integer i, .integer j]

/-- The flat token; overlapping pairs spell a sequence by their first halves. -/
def flat : WireToken → Int
  | .id i => i.val
  | .pair i _ => i.val

def read (t : WireToken) : UInt32 := (UInt64.ofInt t.flat).toUInt32

/-- The token id fits the router's 32 bits. -/
def Fits (t : WireToken) : Prop := 0 ≤ t.flat ∧ t.flat < 2 ^ 32

instance (t : WireToken) : Decidable t.Fits := inferInstanceAs (Decidable (_ ∧ _))

end WireToken

/-- The engines' two encodings of an event. -/
inductive EventForm where
  | map
  | array

structure StoredFields where
  blockHashes : List WireHash
  parentBlockHash : Option WireHash
  tokenIds : List WireToken
  blockSize : WireInt
  loraId : Option WireInt
  medium : Option String
  groupIdx : Option WireInt
  kvCacheSpecKind : Option String

inductive EngineEvent where
  | stored (fields : StoredFields)
  | removed (blockHashes : List WireHash) (medium : Option String)
  | cleared

namespace EngineEvent

def optional {α : Type} (encode : α → Value) : Option α → Value
  | none => .nil
  | some a => encode a

def field {α : Type} (name : String) (encode : α → Value) (a : Option α) : List (Value × Value) :=
  a.toList.map fun a => (.string name, encode a)

def encodeMap : EngineEvent → Value
  | .stored s => .map
      ([(.string "type", .string "BlockStored"),
        (.string "block_hashes", .array (s.blockHashes.map WireHash.encode)),
        (.string "parent_block_hash", optional WireHash.encode s.parentBlockHash),
        (.string "token_ids", .array (s.tokenIds.map WireToken.encode)),
        (.string "block_size", .integer s.blockSize),
        (.string "lora_id", optional .integer s.loraId)] ++
        field "medium" .string s.medium ++ field "group_idx" .integer s.groupIdx ++
        field "kv_cache_spec_kind" .string s.kvCacheSpecKind)
  | .removed hs medium => .map
      ([(.string "type", .string "BlockRemoved"),
        (.string "block_hashes", .array (hs.map WireHash.encode))] ++
        field "medium" .string medium)
  | .cleared => .map [(.string "type", .string "AllBlocksCleared")]

def encodeArray : EngineEvent → Value
  | .stored s => .array
      ([.string "BlockStored", .array (s.blockHashes.map WireHash.encode),
        optional WireHash.encode s.parentBlockHash,
        .array (s.tokenIds.map WireToken.encode), .integer s.blockSize,
        optional .integer s.loraId] ++ s.medium.toList.map .string)
  | .removed hs medium => .array
      ([.string "BlockRemoved", .array (hs.map WireHash.encode)] ++ medium.toList.map .string)
  | .cleared => .array [.string "AllBlocksCleared"]

def encode : EventForm → EngineEvent → Value
  | .map => encodeMap
  | .array => encodeArray

def toEvent (form : EventForm) : EngineEvent → Event WireHash WireToken
  | .stored s => .stored s.blockHashes s.parentBlockHash s.tokenIds
      (match form with
      | .map => s.kvCacheSpecKind
      | .array => none)
  | .removed hs _ => .removed hs
  | .cleared => .cleared

end EngineEvent

section Decoding

@[simp] theorem asStr_string (s : String) : (string s).asStr = some s := rfl

theorem entryAt_cons (name k : String) (v : Value) (rest : List (Value × Value)) :
    entryAt ((.string name, v) :: rest) k = if name = k then some v else entryAt rest k := by
  by_cases same : name = k <;> simp [entryAt, same]

open EngineEvent

theorem entryAt_field {α : Type} (name k : String) (encode : α → Value) (a : Option α)
    (rest : List (Value × Value)) : entryAt (field name encode a ++ rest) k =
      if name = k then (a.map encode) <|> entryAt rest k else entryAt rest k := by
  cases a with
  | none => simp [field]
  | some a => simp [field, entryAt_cons]

theorem asU64Any_integer (i : WireInt) : (integer i).asU64Any = some (UInt64.ofInt i.val) := by
  simp only [asU64Any, WireInt.asU64, WireInt.asI64]
  by_cases nonneg : 0 ≤ i.val
  · simp [nonneg]
  · have small : i.val < 9223372036854775808 := by omega
    simp [nonneg, small]

theorem asU32Any_encode (t : WireToken) : t.encode.asU32Any = some t.read := by
  cases t with
  | id i => simp [WireToken.encode, asU32Any, asU64Any_integer, WireToken.read, WireToken.flat]
  | pair i j =>
    simp [WireToken.encode, asU32Any, asU64Any_integer, WireToken.read, WireToken.flat]

theorem asU32Vec_encode (ts : List WireToken) :
    (array (ts.map WireToken.encode)).asU32Vec = ts.map WireToken.read := by
  simp [asU32Vec, asArray, asU32Any_encode]

/-- The block hashes a subscriber can key on. -/
def Integral (known : Set WireHash) : Prop := ∀ h ∈ known, ∃ i, h = .int i

variable {known : Set WireHash} (integral : Integral known)
include integral

theorem asU64Any_encode {h : WireHash} (mem : h ∈ known) : h.encode.asU64Any = some h.read := by
  obtain ⟨i, rfl⟩ := integral h mem
  exact asU64Any_integer i

theorem asU64Vec_encode {hs : List WireHash} (mem : ∀ h ∈ hs, h ∈ known) :
    (array (hs.map WireHash.encode)).asU64Vec = hs.map WireHash.read := by
  induction hs with
  | nil => rfl
  | cons h rest ih =>
    have first := asU64Any_encode integral (mem h mem_cons_self)
    have tail := ih fun h' inRest => mem h' (.tail _ inRest)
    simp only [asU64Vec, asArray, Option.map_some, Option.getD_some] at tail ⊢
    rw [map_cons, filterMap_cons_some first, tail, map_cons]

theorem asU64Any_optional {h : Option WireHash} (mem : ∀ h' ∈ h, h' ∈ known) :
    (optional WireHash.encode h).asU64Any = h.map WireHash.read := by
  cases h with
  | none => rfl
  | some h => exact asU64Any_encode integral (mem h rfl)

theorem parseEvent_encode (form : EventForm) (e : EngineEvent)
    (mem : ∀ h ∈ (e.toEvent form).hashes, h ∈ known) :
    parseEvent (e.encode form) = some ((e.toEvent form).map WireHash.read WireToken.read) := by
  cases e with
  | cleared => cases form <;> rfl
  | removed hs medium =>
    have hashes : (array (hs.map WireHash.encode)).asU64Vec = hs.map WireHash.read :=
      asU64Vec_encode integral mem
    cases form with
    | map =>
      simp [encode, encodeMap, parseEvent, asMap, parseEventMap,
        entryAt_cons, hashes, toEvent, Event.map]
    | array =>
      simp [encode, encodeArray, parseEvent, asMap, asArray,
        parseEventArray, hashes, toEvent, Event.map]
  | stored s =>
    have hashes : (array (s.blockHashes.map WireHash.encode)).asU64Vec =
        s.blockHashes.map WireHash.read :=
      asU64Vec_encode integral fun h inHashes => mem h (mem_append_left _ inHashes)
    have parent := asU64Any_optional integral fun h isParent =>
      mem h (mem_append_right _ (Option.mem_toList.mpr isParent))
    cases form with
    | map =>
      have kind : (entryAt (field "kv_cache_spec_kind" .string s.kvCacheSpecKind)
          "kv_cache_spec_kind").bind (fun v => v.asStr) = s.kvCacheSpecKind := by
        cases s.kvCacheSpecKind <;> rfl
      simp [encode, encodeMap, parseEvent, asMap, parseEventMap,
        entryAt_cons, entryAt_field, hashes, parent, kind, asU32Vec_encode, toEvent,
        Event.map]
    | array =>
      simp [encode, encodeArray, parseEvent, asMap, asArray,
        parseEventArray, hashes, parent, asU32Vec_encode, toEvent, Event.map]

end Decoding

/-- An emitted event with the blocks of its span its hashes name. -/
structure Emitted where
  event : EngineEvent
  covers : List ℕ

def Emitted.parsed (form : EventForm) (e : Emitted) : Option (Event UInt64 UInt32) :=
  parseEvent (e.event.encode form)

structure Emission where
  form : EventForm
  ts : UInt64
  events : List Emitted
  attnDpRank : Option WireInt
  now : Readings

namespace Emission

def encode (m : Emission) : Value :=
  .array ([.float m.ts, .array (m.events.map fun e => e.event.encode m.form)] ++
    m.attnDpRank.toList.map .integer)

theorem decodeBatch_encode (m : Emission) : decodeBatch (.ok m.encode) =
      .ok (m.events.filterMap (Emitted.parsed m.form)) := by
  have read : decodeBatch (.ok m.encode) =
      .ok ((m.events.map fun e => e.event.encode m.form).filterMap parseEvent) := rfl
  rw [read, filterMap_map]
  rfl

end Emission

/-- The 32-bit ids of a path, when they are its token ids. -/
def Spells (path : List (List WireToken)) (ids : List (List UInt32)) : Prop :=
  path.map (List.map WireToken.flat) = ids.map (List.map fun id => (id.toNat : Int))

def PathFits (path : List (List WireToken)) : Prop := ∀ block ∈ path, ∀ t ∈ block, t.Fits

theorem toNat_read {t : WireToken} (fits : t.Fits) : (t.read.toNat : Int) = t.flat := by
  obtain ⟨lower, upper⟩ := fits
  obtain ⟨n, value⟩ := Int.eq_ofNat_of_zero_le lower
  have truncated : ((UInt64.ofInt (n : Int)).toUInt32.toNat : Int) =
      (n : Int) % 2 ^ 64 % 2 ^ 32 := by
    simp [UInt64.ofInt]
    omega
  rw [WireToken.read, value]
  omega

theorem PathFits.spells {path : List (List WireToken)} (fits : PathFits path) :
    Spells path (path.map (List.map WireToken.read)) := by
  rw [Spells, map_map]
  refine map_congr_left fun block inPath => ?_
  rw [Function.comp_apply, map_map]
  exact map_congr_left fun t inBlock => (toNat_read (fits block inPath t inBlock)).symm

/-- A router's rank beside the engine it mirrors: the engine's cache, and every
path it stored so far. -/
structure Wired where
  worker : WorkerViews
  cache : EngineCache WireHash WireToken
  stored : List (List (List WireToken))

section Emitting
variable (bs : ℕ) (form : EventForm)

/-- The engine's cache and the paths it has stored. -/
abbrev EngineState := EngineCache WireHash WireToken × List (List (List WireToken))

def emit (engine : EngineState) (e : Emitted) : EngineState :=
  (engine.1.step bs (e.event.toEvent form) e.covers,
    engine.2 ++ (engine.1.placed bs e.covers (e.event.toEvent form)).map Prod.snd)

variable (known : Set WireHash)

/-- What the subscriber can follow: integer hashes and tokens of 32 bits, one
hash per block in the groups it indexes, and no hash reused for another block
while it is held. -/
structure Followed (cache : EngineCache WireHash WireToken) (e : Emitted) : Prop where
  hashes : ∀ h ∈ (e.event.toEvent form).hashes, h ∈ known
  tokens : ∀ s, e.event = .stored s → ∀ t ∈ s.tokenIds, t.Fits
  reported : Reported bs (e.event.toEvent form) e.covers
  identified : cache.Identified bs e.covers (e.event.toEvent form)

/-- Every event of the batch can be followed when its turn comes. -/
def FollowedAll (engine : EngineState) : List Emitted → Prop
  | [] => True
  | e :: rest =>
    Followed bs form known engine.1 e ∧ FollowedAll (emit bs form engine e) rest

end Emitting

namespace Wired
variable (xxh3_64 : List UInt8 → UInt64) (rank : Int) (known : Set WireHash) (s : Wired)
  (m : Emission)

def step : Wired :=
  let engine := m.events.foldl (emit s.worker.blockSize m.form) (s.cache, s.stored)
  { worker := match decodeBatch (.ok m.encode) with
      | .ok events => s.worker.applyEvents xxh3_64 rank events m.now
      | .error _ => s.worker
    cache := engine.1
    stored := engine.2 }

def tally (form : EventForm) (events : List Emitted) : Tally :=
  Tally.batch xxh3_64 s.worker.blockSize (s.worker.view rank) (s.worker.map rank)
    (events.filterMap (Emitted.parsed form))

def Start : Prop :=
  s.worker.view rank = ∅ ∧ s.worker.map rank = .empty ∧
    ∀ h path, s.cache.get? h = some path → PathFits path

def Follows : Prop :=
  FollowedAll s.worker.blockSize m.form known (s.cache, s.stored) m.events

end Wired

theorem mem_of_mem_fullBlocks {T : Type*} {bs : ℕ} {tokens block : List T}
    (inBlocks : block ∈ fullBlocks bs tokens) {t : T} (inBlock : t ∈ block) : t ∈ tokens := by
  obtain ⟨i, _, rfl⟩ := mem_map.mp inBlocks
  exact mem_of_mem_drop (mem_of_mem_take inBlock)

section Chaining
variable (xxh3_64 : List UInt8 → UInt64) (known : Set WireHash)

/-- The map names held blocks, and the view shows blocks the engine stored. -/
structure Chained (view : Finset UInt64) (map : Dict UInt64 UInt64)
    (engine : EngineState) : Prop where
  translates : Translates xxh3_64 WireHash.read WireToken.read known map engine.1
  fitting : ∀ h path, engine.1.get? h = some path → PathFits path
  sound : ∀ r ∈ view, ∃ path ∈ engine.2, PathFits path ∧ r = readChain xxh3_64 WireToken.read path

variable {xxh3_64 known} {bs : ℕ} {form : EventForm}

theorem Followed.placed_fits {cache : EngineCache WireHash WireToken} {e : Emitted}
    (followed : Followed bs form known cache e)
    (fitting : ∀ h path, cache.get? h = some path → PathFits path) :
    ∀ b ∈ cache.placed bs e.covers (e.event.toEvent form), PathFits b.2 := by
  intro b placed
  obtain ⟨event, covers⟩ := e
  cases event with
  | stored s =>
    simp only [EngineEvent.toEvent, EngineCache.placed] at placed
    cases parent : cache.parentPath s.parentBlockHash with
    | none => simp [parent] at placed
    | some path =>
      simp only [parent] at placed
      obtain ⟨i, _, shape⟩ := mem_map.mp (of_mem_zip placed).2
      have above : PathFits path := by
        cases given : s.parentBlockHash with
        | none =>
          rw [given] at parent
          injection parent with root
          subst root
          exact fun block mem => absurd mem not_mem_nil
        | some ph =>
          rw [given] at parent
          exact fitting ph path parent
      intro block inPath t inBlock
      rw [← shape] at inPath
      rcases mem_append.mp inPath with old | new
      · exact above block old t inBlock
      · exact followed.tokens s rfl t (mem_of_mem_fullBlocks (mem_of_mem_take new) inBlock)
  | removed | cleared => simp [EngineEvent.toEvent, EngineCache.placed] at placed

theorem get?_step_eq_some {H T : Type} [DecidableEq H] {cache : EngineCache H T} {e : Event H T}
    {covers : List ℕ} {h : H} {path : List (List T)}
    (found : (cache.step bs e covers).get? h = some path) :
    (h, path) ∈ cache.placed bs covers e ∨ cache.get? h = some path := by
  cases e with
  | stored => exact Dict.get?_assign_eq_some found
  | removed hs =>
    simp only [step, Dict.get?_eraseAll] at found
    split_ifs at found
    exact .inr found
  | cleared => simp [step] at found

theorem Chained.event {t : Tally}
    {engine : EngineState} {e : Emitted}
    (chained : Chained xxh3_64 known t.view t.map engine)
    (injective : Set.InjOn WireHash.read known) (followed : Followed bs form known engine.1 e) :
    let t' := t.event xxh3_64 bs ((e.event.toEvent form).map WireHash.read WireToken.read)
    Chained xxh3_64 known t'.view t'.map (emit bs form engine e) where
  translates := chained.translates.event injective followed.hashes followed.reported
    followed.identified
  fitting h path found := by
    rcases get?_step_eq_some found with placed | before
    · exact followed.placed_fits chained.fitting _ placed
    · exact chained.fitting h path before
  sound r shown := by
    rcases chained.translates.view_event injective followed.hashes followed.reported shown with
      old | ⟨b, placed, value⟩
    · obtain ⟨path, stored, fits, value⟩ := chained.sound r old
      exact ⟨path, mem_append_left _ stored, fits, value⟩
    · exact ⟨b.2, mem_append_right _ (mem_map.mpr ⟨b, placed, rfl⟩),
        followed.placed_fits chained.fitting b placed, value⟩

theorem Chained.events (integral : Integral known) (injective : Set.InjOn WireHash.read known)
    {events : List Emitted} :
    ∀ {t : Tally} {engine : EngineState},
      Chained xxh3_64 known t.view t.map engine → FollowedAll bs form known engine events →
      let t' := (events.filterMap (Emitted.parsed form)).foldl (Tally.event xxh3_64 bs) t
      Chained xxh3_64 known t'.view t'.map (events.foldl (emit bs form) engine) := by
  induction events with
  | nil => exact fun chained _ => chained
  | cons e rest ih =>
    intro t engine chained followed
    have parsed : e.parsed form = some _ :=
      parseEvent_encode integral form e.event followed.1.hashes
    rw [filterMap_cons_some parsed]
    exact ih (chained.event injective followed.1) followed.2

end Chaining

namespace Wired
variable {xxh3_64 : List UInt8 → UInt64} {rank : Int} {known : Set WireHash}

theorem worker_step (s : Wired) (m : Emission) :
    (s.step xxh3_64 rank m).worker = s.worker.applyEvents xxh3_64 rank
      (m.events.filterMap (Emitted.parsed m.form)) m.now := by
  simp [step, m.decodeBatch_encode]

def Mirrors (xxh3_64 : List UInt8 → UInt64) (rank : Int) (known : Set WireHash) (s : Wired) :
    Prop :=
  Chained xxh3_64 known (s.worker.view rank) (s.worker.map rank) (s.cache, s.stored)

section
variable (integral : Integral known) (injective : Set.InjOn WireHash.read known)
include integral injective

theorem Mirrors.step {s : Wired} {m : Emission} (mirrors : s.Mirrors xxh3_64 rank known)
    (follows : s.Follows known m) : (s.step xxh3_64 rank m).Mirrors xxh3_64 rank known := by
  have start : Chained xxh3_64 known (Tally.start (s.worker.view rank) (s.worker.map rank)).view
      (Tally.start (s.worker.view rank) (s.worker.map rank)).map (s.cache, s.stored) := mirrors
  rw [Mirrors, worker_step, WorkerViews.view_applyEvents, WorkerViews.map_applyEvents, if_pos rfl,
    if_pos rfl]
  exact start.events integral injective follows

theorem mirrors_of_reaches
    {s : Wired} (reached : Reaches (Start rank) (step xxh3_64 rank) (Follows known) s) :
    s.Mirrors xxh3_64 rank known := by
  have start : ∀ s, Start rank s → s.Mirrors xxh3_64 rank known := by
    rintro s ⟨view, map, fitting⟩
    rw [Mirrors, view, map]
    exact ⟨fun u r found => by simp at found, fitting, fun r shown => by simp at shown⟩
  exact reached.invariant start fun s m mirrors follows => mirrors.step integral injective follows

end

/-- A decoded event has every hash and every token of the event sent. -/
def SameSizes (form : EventForm) (sent : Emitted) (decoded : Event UInt64 UInt32) : Prop :=
  match sent.event.toEvent form, decoded with
  | .stored hs _ ts _, .stored hs' _ ts' _ => hs'.length = hs.length ∧ ts'.length = ts.length
  | .removed hs, .removed hs' => hs'.length = hs.length
  | .cleared, .cleared => True
  | _, _ => False

/-- The router cannot resolve the block a hash names. -/
def Unresolved (map : Dict UInt64 UInt64) : WireHash → Prop
  | .int i => map.get? (UInt64.ofInt i.val) = none
  | .bytes _ => True

/-- Nothing is lost in decoding, an event with a parent the router cannot
resolve adds nothing, and what the view shows are paths the engine stored. -/
structure WellChained (xxh3_64 : List UInt8 → UInt64) (rank : Int) (s : Wired) (m : Emission) :
    Prop where
  decoded : ∃ events, decodeBatch (.ok m.encode) = .ok events ∧
    List.Forall₂ (SameSizes m.form) m.events events
  orphans : ∀ before e after fields parent, m.events = before ++ e :: after →
    e.event = .stored fields → fields.parentBlockHash = some parent →
    Unresolved (s.tally xxh3_64 rank m.form before).map parent →
    (s.tally xxh3_64 rank m.form (before ++ [e])).view = (s.tally xxh3_64 rank m.form before).view
  shown : ∀ r ∈ (s.step xxh3_64 rank m).worker.view rank,
    ∃ path ∈ (s.step xxh3_64 rank m).stored, ∃ ids, Spells path ids ∧ r = chainHash xxh3_64 ids

theorem FollowedAll.sameSizes {bs : ℕ} {form : EventForm} (integral : Integral known)
    {events : List Emitted} :
    ∀ {engine : EngineState},
      FollowedAll bs form known engine events →
      List.Forall₂ (SameSizes form) events (events.filterMap (Emitted.parsed form)) := by
  induction events with
  | nil => exact fun _ => .nil
  | cons e rest ih =>
    intro engine followed
    have parsed : e.parsed form = some _ :=
      parseEvent_encode integral form e.event followed.1.hashes
    rw [filterMap_cons_some parsed]
    refine .cons ?_ (ih followed.2)
    unfold SameSizes
    cases e.event.toEvent form <;> simp [Event.map]

theorem FollowedAll.at {bs : ℕ} {form : EventForm} {before after : List Emitted} {e : Emitted} :
    ∀ {engine : EngineState},
      FollowedAll bs form known engine (before ++ e :: after) →
      Followed bs form known (before.foldl (emit bs form) engine).1 e := by
  induction before with
  | nil => exact fun followed => followed.1
  | cons e' before ih => exact fun followed => ih followed.2

theorem view_event_of_orphan (bs : ℕ) (t : Tally) (hs : List UInt64) {ph : Option UInt64}
    (ts : List UInt32) (kind : Option String) (unresolved : resolveParent t.map ph = none) :
    (t.event xxh3_64 bs (.stored hs ph ts kind)).view = t.view := by
  simp only [Tally.event, unresolved]
  split_ifs <;> rfl

theorem wellChained_of_follows (integral : Integral known)
    (injective : Set.InjOn WireHash.read known) {s : Wired}
    (reached : Reaches (Start rank) (step xxh3_64 rank) (Follows known) s) (m : Emission)
    (follows : s.Follows known m) : WellChained xxh3_64 rank s m where
  decoded := ⟨_, m.decodeBatch_encode, FollowedAll.sameSizes integral follows⟩
  orphans before e after fields parent split event named unresolved := by
    rw [Follows, split] at follows
    have followed := FollowedAll.at follows
    have parsed : e.parsed m.form = some _ :=
      parseEvent_encode integral m.form e.event followed.hashes
    have parentKnown : parent ∈ known := followed.hashes parent (by
      simp [event, EngineEvent.toEvent, Event.hashes, named])
    obtain ⟨i, rfl⟩ := integral parent parentKnown
    rw [tally, Tally.batch, filterMap_append, foldl_append, filterMap_cons_some parsed, event]
    refine view_event_of_orphan _ _ _ _ _ ?_
    rw [named]
    exact unresolved
  shown r inView := by
    have mirrors := (mirrors_of_reaches integral injective reached).step integral injective follows
    obtain ⟨path, stored, fits, value⟩ := mirrors.sound r inView
    exact ⟨path, stored, _, fits.spells, value⟩

def storedEvent (blockHashes : List WireHash) (parentBlockHash : Option WireHash)
    (tokenIds : List WireToken) : EngineEvent :=
  .stored { blockHashes, parentBlockHash, tokenIds, blockSize := ⟨2, by decide, by decide⟩,
            loraId := none, medium := none, groupIdx := none, kvCacheSpecKind := none }

instance byteNeZero : NeZero 256 := ⟨by decide⟩

def intHash (n : Fin 256) : WireHash := .int ⟨n, by omega, by omega⟩

def tokenId (n : Fin 256) : WireToken := .id ⟨n, by omega, by omega⟩

def idle : Wired := ⟨.new 2, .empty, []⟩

def parentThenChild (parent child : WireHash) : Emission where
  form := .map
  ts := 0
  events := [⟨storedEvent [parent] none [tokenId 1, tokenId 2], [0]⟩,
    ⟨storedEvent [child] (some parent) [tokenId 5, tokenId 6], [0]⟩]
  attnDpRank := none
  now := ⟨0, 0⟩

theorem integer_hashes_wellChained :
    WellChained rollingHash 0 idle (parentThenChild (intHash 1) (intHash 2)) := by
  have integral : Integral {intHash 1, intHash 2} := by
    rintro h (rfl | rfl) <;> exact ⟨_, rfl⟩
  have injective : Set.InjOn WireHash.read {intHash 1, intHash 2} := by
    rintro h (rfl | rfl) h' (rfl | rfl) same
    · rfl
    · exact absurd same (by decide)
    · exact absurd same (by decide)
    · rfl
  have start : Start 0 idle := ⟨rfl, rfl, fun h path found => by simp [idle] at found⟩
  refine wellChained_of_follows integral injective (.start start) _
    ⟨⟨?_, ?_, fun _ => ⟨rfl, rfl⟩, ?_⟩, ⟨?_, ?_, fun _ => ⟨rfl, rfl⟩, ?_⟩, trivial⟩
  · intro h mem
    exact .inl (mem_singleton.mp mem)
  · rintro s ⟨⟩
    decide
  · unfold Identified
    decide +kernel
  · intro h mem
    rcases mem_cons.mp mem with child | parent
    · exact .inr child
    · exact .inl (mem_singleton.mp parent)
  · rintro s ⟨⟩
    decide
  · unfold Identified
    decide +kernel

/-- Under byte-string hashes the child is chained as a root: the view shows the
hash of a path the engine never stored, and the hashes themselves are lost. -/
theorem byte_hashes_mischained :
    let m := parentThenChild (.bytes [1]) (.bytes [2])
    let s := idle.step rollingHash 0 m
    Start 0 idle ∧
      s.stored = [[[tokenId 1, tokenId 2]], [[tokenId 1, tokenId 2], [tokenId 5, tokenId 6]]] ∧
      chainHash rollingHash [[5, 6]] ∈ s.worker.view 0 ∧
      (∀ path ∈ s.stored, readChain rollingHash WireToken.read path ≠
        chainHash rollingHash [[5, 6]]) ∧
      decodeBatch (.ok m.encode) = .ok [.stored [] none [1, 2] none, .stored [] none [5, 6] none] ∧
      ¬WellChained rollingHash 0 idle m := by
  refine ⟨⟨rfl, rfl, fun h path found => by simp [idle] at found⟩, by decide +kernel,
    by decide +kernel, by decide +kernel, rfl, ?_⟩
  rintro ⟨⟨events, decoded, sizes⟩, -, -⟩
  injection decoded with same
  subst same
  cases sizes with
  | cons first _ => exact absurd first.1 (by decide)

end Wired

end Infera.Router
