import Infera.Router.PyClient

/-! The two clients on one event sequence. The Rust router flattens every token by
itself, the Python router by the first token of the list, so a list that mixes ids and
pairs raises in Python and is indexed in Rust (`mixed_tokens_diverge`). Where each
list is of one kind, both end with one view and one map, however the sequence was
cut into batches (`clients_agree`): each event takes a rank of the one client to
the rank of the other, its keys renamed to the engine's integers. -/

namespace Infera.Router.Py
open WorkerSubscription List WorkerViews

/-- An id, or the pair it begins. -/
abbrev Token := UInt32 × Option UInt32

def wireId (id : UInt32) : WireInt := ⟨id.toNat, by omega, by have := id.toNat_lt; omega⟩

def wireHash (h : UInt64) : WireHash := .int ⟨h.toNat, by omega, by have := h.toNat_lt; omega⟩

def wireToken : Token → WireToken
  | (id, none) => .id (wireId id)
  | (id, some next) => .pair (wireId id) (wireId next)

def wireEvent : Event UInt64 Token → Event WireHash WireToken := Event.map wireHash wireToken

/-- The event as the Rust router decodes it. -/
def readEvent (e : Event UInt64 Token) : Event UInt64 UInt32 :=
  (wireEvent e).map WireHash.read WireToken.read

theorem ofInt_natCast (n : ℕ) : UInt64.ofInt n = UInt64.ofNat n := by
  exact UInt64.ofNat_mod_size

theorem read_wireHash (h : UInt64) : (wireHash h).read = h := by
  simp [wireHash, WireHash.read, ofInt_natCast]

theorem wireHash_injective : Function.Injective wireHash :=
  Function.LeftInverse.injective read_wireHash

theorem readEvent_eq (e : Event UInt64 Token) : readEvent e = e.map id Prod.fst := by
  have tokens (t : Token) : (wireToken t).read = t.1 := by
    obtain ⟨id, next⟩ := t
    cases next <;> simp [wireToken, WireToken.read, WireToken.flat, wireId, ofInt_natCast]
  cases e <;> simp [readEvent, wireEvent, Event.map, Function.comp_def, read_wireHash, tokens]

/-- Only ids, or only pairs. -/
def OneKind : Event UInt64 Token → Prop
  | .stored _ _ tokens _ => (∃ ids : List UInt32, tokens = ids.map (·, none)) ∨
      ∃ pairs : List (UInt32 × UInt32), tokens = pairs.map fun p => (p.1, some p.2)
  | _ => True

def flatToken (t : Token) : WireToken := .id (wireId t.1)

section Indexing
variable (index : Finset UInt64 × Dict UInt64 UInt64) {hashes : List UInt64}
  {parent : Option UInt64} {tokens : List Token} {kind : Option String}

theorem mapM_some {α β : Type} (f : α → β) (xs : List α) :
    xs.mapM (fun x => some (f x)) = some (xs.map f) :=
  mapM_pure

theorem flatTokens_wireToken (oneKind : OneKind (.stored hashes parent tokens kind)) :
    flatTokens (tokens.map wireToken) = some (tokens.map flatToken) := by
  obtain ⟨ids, rfl⟩ | ⟨pairs, rfl⟩ := oneKind
  · cases ids <;> simp [flatTokens, wireToken, flatToken]
  · cases pairs <;> simp [flatTokens, wireToken, flatToken, Function.comp_def, mapM_some]

/-- A rank as the Python router keys it. -/
def renamed : Finset UInt64 × Dict WireHash UInt64 :=
  (index.1, index.2.mapKeys wireHash wireHash_injective)

theorem dropBlock_renamed (h : UInt64) :
    dropBlock (renamed index) (wireHash h) = renamed (Router.dropBlock index h) := by
  simp only [dropBlock, Router.dropBlock, renamed, Dict.get?_mapKeys]
  cases index.2.get? h with
  | none => rfl
  | some routerHash => simp [Dict.mapKeys_erase]

variable (xxh3_64 : List UInt8 → UInt64)

theorem u32Token_flatToken (t : Token) : u32Token (flatToken t) = some t.1 := by
  have upper := t.1.toNat_lt
  simp only [flatToken, wireId, u32Token]
  rw [if_pos (by omega)]
  simp

theorem hashChunk_flatToken (parent : UInt64) (chunk : List Token) :
    hashChunk xxh3_64 parent (chunk.map flatToken) =
      some (Router.hashChunk xxh3_64 parent (chunk.map Prod.fst)) := by
  simp [hashChunk, Function.comp_def, u32Token_flatToken, mapM_some]

theorem indexBlocks_renamed (aligned : Bool) (parent : UInt64) (chunks : List (List Token))
    (hashes : List UInt64) :
    indexBlocks xxh3_64 aligned parent (chunks.map (List.map flatToken)) (hashes.map wireHash)
        (renamed index) =
      (renamed (Router.indexBlocks xxh3_64 aligned parent (chunks.map (List.map Prod.fst)) hashes
        index), false) := by
  induction chunks generalizing parent hashes index with
  | nil => rfl
  | cons chunk chunks ih =>
    have bound (routerHash : UInt64) :
        bindBlock aligned (hashes.map wireHash) routerHash (renamed index).2 =
          (Router.bindBlock aligned hashes routerHash index.2).mapKeys wireHash
            wireHash_injective := by
      cases aligned with
      | false => rfl
      | true =>
        cases hashes with
        | nil => rfl
        | cons h rest => exact (Dict.mapKeys_set _ _ _ _ _).symm
    simp only [map_cons, indexBlocks, hashChunk_flatToken, bound, ← map_tail]
    exact ih (_, _) _ _

/-- A span shorter than a block adds nothing, whether or not its parent is known. -/
theorem index_stored (bs : ℕ) (t : Tally) (tokens : List UInt32)
    (indexable : isIndexableSpecKind kind = true) :
    let out := t.event xxh3_64 bs (.stored hashes parent tokens kind)
    (out.view, out.map) = match resolveParent t.map parent with
      | none => (t.view, t.map)
      | some router => Router.indexBlocks xxh3_64 (tokens.length / bs == hashes.length) router
          (fullBlocks bs tokens) hashes (t.view, t.map) := by
  simp only [Tally.event, if_pos indexable]
  by_cases short : tokens.length / bs = 0
  · rw [if_pos short, fullBlocks, short]
    cases resolveParent t.map parent <;> rfl
  · rw [if_neg short]
    cases resolveParent t.map parent <;> rfl

variable {index} {bs : ℕ} {rank : Int} {sub : WorkerSubscription} {t : Tally}

/-- The rank of the one client is the rank of the other. -/
structure Twin (bs : ℕ) (rank : Int) (sub : WorkerSubscription)
    (index : Finset UInt64 × Dict UInt64 UInt64) : Prop where
  size : sub.blockSize = bs
  same : (sub.viewFor rank, sub.mapFor rank) = renamed index

namespace Twin

theorem put (twin : Twin bs rank sub index) (index' : Finset UInt64 × Dict UInt64 UInt64) :
    Twin bs rank (sub.put rank (renamed index')) index' :=
  ⟨twin.size, by simp [WorkerSubscription.put, viewFor, mapFor]⟩

theorem stored (twin : Twin bs rank sub (t.view, t.map))
    (oneKind : OneKind (.stored hashes parent tokens kind))
    (indexable : isIndexableSpecKind kind = true) :
    let out := t.event xxh3_64 bs (.stored hashes parent (tokens.map Prod.fst) kind)
    sub.onBlockStored xxh3_64 rank (hashes.map wireHash) (parent.map wireHash)
      (tokens.map wireToken) = (sub.put rank (renamed (out.view, out.map)), false) := by
  have aligned : decide ((tokens.length : Int).fdiv bs = hashes.length) =
      (tokens.length / bs == hashes.length) := by
    rw [Int.fdiv_eq_ediv_of_nonneg _ (by omega), Bool.eq_iff_iff, decide_eq_true_iff, beq_iff_eq]
    norm_cast
  rw [onBlockStored.eq_def, twin.same, twin.size, flatTokens_wireToken oneKind]
  dsimp only
  rw [index_stored xxh3_64 bs t _ indexable]
  cases parent with
  | none =>
    simp [resolveParent, aligned, fullBlocks_map, indexBlocks_renamed]
  | some h =>
    have found : (renamed (t.view, t.map)).2.get? (wireHash h) = t.map.get? h :=
      Dict.get?_mapKeys _ h _ wireHash_injective
    simp only [Option.map_some, found, resolveParent]
    cases t.map.get? h with
    | none => rfl
    | some router =>
      simp [aligned, fullBlocks_map, indexBlocks_renamed]

theorem event (twin : Twin bs rank sub (t.view, t.map)) {e : Event UInt64 Token}
    (oneKind : OneKind e) :
    let out := t.event xxh3_64 bs (readEvent e)
    ∃ sub', sub.handleEvent xxh3_64 rank (wireEvent e) = (sub', false) ∧
      Twin bs rank sub' (out.view, out.map) := by
  rw [readEvent_eq]
  cases e with
  | cleared => exact ⟨_, rfl, twin.put (∅, .empty)⟩
  | removed hashes =>
    refine ⟨_, rfl, ?_⟩
    rw [twin.same, foldl_map, foldl_hom renamed dropBlock_renamed, Event.map, map_id]
    exact twin.put _
  | stored hashes parent tokens kind =>
    simp only [Event.map, map_id, Option.map_id_fun]
    by_cases indexable : isIndexableSpecKind kind = true
    · exact ⟨_, (if_pos indexable).trans (twin.stored xxh3_64 oneKind indexable), twin.put _⟩
    · refine ⟨sub, if_neg indexable, ?_⟩
      simpa [Tally.event, if_neg indexable] using twin

theorem events {events : List (Event UInt64 Token)} (oneKind : ∀ e ∈ events, OneKind e)
    (twin : Twin bs rank sub (t.view, t.map)) :
    let out := (events.map readEvent).foldl (Tally.event xxh3_64 bs) t
    ∃ sub', Twin bs rank sub' (out.view, out.map) ∧ ∀ rest,
      handleEvents xxh3_64 rank sub (events.map wireEvent ++ rest) =
        handleEvents xxh3_64 rank sub' rest := by
  induction events generalizing sub t with
  | nil => exact ⟨sub, twin, fun _ => rfl⟩
  | cons e events ih =>
    rw [forall_mem_cons] at oneKind
    obtain ⟨sub₁, handled, twin₁⟩ := twin.event xxh3_64 oneKind.1
    obtain ⟨sub₂, twin₂, later⟩ := ih oneKind.2 twin₁
    refine ⟨sub₂, twin₂, fun rest => ?_⟩
    rw [map_cons, cons_append, handleEvents, handled]
    exact later rest

end Twin

end Indexing

section Runs
variable (xxh3_64 : List UInt8 → UInt64) (rank : Int)
  (batches : List (List (Event UInt64 Token) × Readings))

def applyBatches (wv : WorkerViews) : WorkerViews :=
  batches.foldl (fun wv batch => wv.applyEvents xxh3_64 rank (batch.1.map readEvent) batch.2) wv

def handleBatches (sub : WorkerSubscription) : WorkerSubscription :=
  sub.handleEvents xxh3_64 rank (batches.flatMap fun batch => batch.1.map wireEvent)

variable (oneKind : ∀ batch ∈ batches, ∀ e ∈ batch.1, OneKind e)
include oneKind

theorem Twin.run {sub : WorkerSubscription} {wv : WorkerViews}
    (twin : Twin wv.blockSize rank sub (wv.view rank, wv.map rank)) :
    let out := applyBatches xxh3_64 rank batches wv
    Twin wv.blockSize rank (handleBatches xxh3_64 rank batches sub)
      (out.view rank, out.map rank) := by
  induction batches generalizing sub wv with
  | nil => exact twin
  | cons batch batches ih =>
    rw [forall_mem_cons] at oneKind
    obtain ⟨sub₁, twin₁, later⟩ := Twin.events xxh3_64 oneKind.1 (t := .start _ _) twin
    rw [handleBatches, flatMap_cons, later]
    let wv₁ := wv.applyEvents xxh3_64 rank (batch.1.map readEvent) batch.2
    have stepped : Twin wv₁.blockSize rank sub₁ (wv₁.view rank, wv₁.map rank) := by
      rw [view_applyEvents, map_applyEvents, if_pos rfl, if_pos rfl]
      exact twin₁
    exact ih oneKind.2 stepped

theorem clients_agree {bs : ℕ} (positive : 0 < bs) (w : WorkerInfo) (tasks : List (Int × String)) :
    let py := handleBatches xxh3_64 rank batches (.new w bs tasks)
    let rust := applyBatches xxh3_64 rank batches (.new bs)
    py.viewFor rank = rust.view rank ∧
      py.mapFor rank = (rust.map rank).mapKeys wireHash wireHash_injective := by
  have size : (bs : Int) = ((WorkerViews.new bs).blockSize : ℕ) := by
    rw [WorkerViews.new, max_eq_left positive]
  have fresh : Twin (WorkerViews.new bs).blockSize rank (.new w bs tasks)
      ((WorkerViews.new bs).view rank, (WorkerViews.new bs).map rank) := ⟨size, rfl⟩
  exact Prod.mk.inj (fresh.run xxh3_64 rank batches oneKind).same

end Runs

def plainWorker : WorkerInfo :=
  { workerId := "w", kvEventsEndpoint := some "tcp://h:1", kvBlockSize := some 1, dpSize := none,
    dpRank := none, engine := .sglang }

/-- Two blocks of one token each. -/
def twoBlocks (tokens : List Token) : List (List (Event UInt64 Token) × Readings) :=
  [([.stored [1, 2] none tokens none], ⟨0, 0⟩)]

theorem clients_agree_pairs :
    let py := handleBatches rollingHash 0 (twoBlocks [(5, some 6), (6, some 7)])
      (.new plainWorker (1 : ℕ) [])
    let rust := applyBatches rollingHash 0 (twoBlocks [(5, some 6), (6, some 7)]) (.new 1)
    py.viewFor 0 = rust.view 0 ∧
      py.mapFor 0 = (rust.map 0).mapKeys wireHash wireHash_injective := by
  refine clients_agree rollingHash 0 _ ?_ Nat.one_pos plainWorker []
  simp only [twoBlocks, forall_mem_singleton]
  exact .inr ⟨[(5, 6), (6, 7)], rfl⟩

/-- The Python router raises before it has indexed a block. -/
theorem mixed_tokens_diverge :
    let batches := twoBlocks [(5, some 6), (6, none)]
    (handleBatches rollingHash 0 batches (.new plainWorker 1 [])).viewFor 0 = ∅ ∧
      (applyBatches rollingHash 0 batches (.new 1)).view 0 ≠ ∅ := by
  refine ⟨rfl, ?_⟩
  decide +kernel

end Infera.Router.Py
