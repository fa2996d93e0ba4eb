import Infera.Router.EngineCache

/-! Prefix hits against the engine's own cache. The router learns one rank's
cache from its event history alone: stores are aligned and find their parent
resident, and engine hashes name blocks one to one. However the history is cut
into batches, and whatever other ranks and workers deliver in between, the
prefix hits of a query are the leading blocks of it the engine holds. -/

namespace Infera.Router
open EngineCache List Dict WorkerViews

theorem takeWhile_congr {α : Type*} {p q : α → Bool} {l : List α} (agree : ∀ x ∈ l, p x = q x) :
    l.takeWhile p = l.takeWhile q := by
  induction l with
  | nil => rfl
  | cons x rest ih =>
    rw [takeWhile_cons, takeWhile_cons, agree x mem_cons_self,
      ih fun y mem => agree y (.tail _ mem)]

namespace EngineCache
variable {H T : Type} [DecidableEq H] (bs : ℕ) (cache : EngineCache H T)

/-- Follow an event whose hashes name the blocks of its span in order. -/
def observe (e : Event H T) : EngineCache H T :=
  cache.step bs e (List.range (e.span bs))

def storedBlocks (bs : ℕ) : EngineCache H T → List (Event H T) → List (H × List (List T))
  | _, [] => []
  | cache, e :: rest =>
    cache.placed bs (List.range (e.span bs)) e ++ storedBlocks bs (cache.observe bs e) rest

def Placeable : Event H T → Prop
  | .stored hs ph ts _ => hs.length = ts.length / bs ∧ (cache.parentPath ph).isSome
  | _ => True

instance (bs : ℕ) (cache : EngineCache H T) : (e : Event H T) → Decidable (cache.Placeable bs e)
  | .stored hs ph ts _ =>
    inferInstanceAs (Decidable (hs.length = ts.length / bs ∧ (cache.parentPath ph).isSome))
  | .removed _ => .isTrue trivial
  | .cleared => .isTrue trivial

/-- Every store of the history is aligned and finds its parent resident. -/
def LossFree (bs : ℕ) : EngineCache H T → List (Event H T) → Prop
  | _, [] => True
  | cache, e :: rest => cache.Placeable bs e ∧ LossFree bs (cache.observe bs e) rest

instance decidableLossFree (bs : ℕ) : (cache : EngineCache H T) → (history : List (Event H T)) →
    Decidable (LossFree bs cache history)
  | _, [] => .isTrue trivial
  | cache, e :: rest =>
    @instDecidableAnd _ _ (inferInstanceAs (Decidable (cache.Placeable bs e)))
      (decidableLossFree bs (cache.observe bs e) rest)

/-- Engine hashes name blocks one to one. -/
def OneToOne (blocks : List (H × List (List T))) : Prop :=
  ∀ b ∈ blocks, ∀ b' ∈ blocks, b.1 = b'.1 ↔ b.2 = b'.2

/-- The leading full blocks of `tokens` that the cache holds, up to the first it
does not. -/
def residentBlocks [DecidableEq T] (bs : ℕ) (cache : EngineCache H T) (tokens : List T) : ℕ :=
  ((rootPaths [] (fullBlocks bs tokens)).takeWhile fun path => path ∈ cache.values).length

theorem lossFree_append {bs : ℕ} {cache : EngineCache H T} {first second : List (Event H T)} :
    LossFree bs cache (first ++ second) ↔
      LossFree bs cache first ∧ LossFree bs (first.foldl (observe bs) cache) second := by
  induction first generalizing cache with
  | nil => simp [LossFree]
  | cons e rest ih => simp [LossFree, ih, and_assoc]

theorem storedBlocks_append (first second : List (Event H T)) :
    storedBlocks bs cache (first ++ second) = storedBlocks bs cache first ++
        storedBlocks bs (first.foldl (observe bs) cache) second := by
  induction first generalizing cache with
  | nil => rfl
  | cons e rest ih => simp [storedBlocks, ih]

end EngineCache

section Mirror
variable (xxh3_64 : List UInt8 → UInt64) (blocks : List (UInt64 × List (List UInt32)))
  {map : Dict UInt64 UInt64} {cache : EngineCache UInt64 UInt32} {e : Event UInt64 UInt32}
  {view : Finset UInt64} {bs : ℕ}

/-- The rank's map and view are the engine's cache, hashed. -/
structure Mirror (view : Finset UInt64) (map : Dict UInt64 UInt64)
    (cache : EngineCache UInt64 UInt32) : Prop where
  translates : Translates xxh3_64 id id Set.univ map cache
  complete : ∀ h path, cache.get? h = some path → map.get? h = some (chainHash xxh3_64 path)
  backed : Backed view map
  shown : ∀ h r, map.get? h = some r → r ∈ view
  stored : ∀ h path, cache.get? h = some path → (h, path) ∈ blocks

variable {xxh3_64 blocks}

theorem Mirror.empty : Mirror xxh3_64 blocks ∅ .empty .empty where
  translates u r found := by simp at found
  complete h path found := by simp at found
  backed r mem := by simp at mem
  shown h r found := by simp at found
  stored h path found := by simp at found

theorem shown_dropBlocks {index : Finset UInt64 × Dict UInt64 UInt64}
    (unshared : ∀ u u' r, index.2.get? u = some r → index.2.get? u' = some r → u = u')
    (shown : ∀ u r, index.2.get? u = some r → r ∈ index.1) (us : List UInt64) {u r : UInt64}
    (found : (us.foldl dropBlock index).2.get? u = some r) : r ∈ (us.foldl dropBlock index).1 := by
  induction us generalizing index with
  | nil => exact shown u r found
  | cons u' us ih =>
    have kept : ∀ u r, (dropBlock index u').2.get? u = some r →
        u ≠ u' ∧ index.2.get? u = some r := by
      intro u r after
      rw [dropBlock_snd, get?_erase] at after
      split_ifs at after with same
      exact ⟨same, after⟩
    refine ih ?_ ?_ found
    · intro u₁ u₂ r found₁ found₂
      exact unshared u₁ u₂ r (kept u₁ r found₁).2 (kept u₂ r found₂).2
    · intro u r after
      obtain ⟨differ, before⟩ := kept u r after
      unfold dropBlock
      split
      · rename_i r' dropped
        refine Finset.mem_erase.mpr ⟨?_, shown u r before⟩
        rintro rfl
        exact differ (unshared u u' r before dropped)
      · exact shown u r before

theorem EngineCache.OneToOne.identified {covers : List ℕ} (oneToOne : OneToOne blocks)
    (held : ∀ h path, cache.get? h = some path → (h, path) ∈ blocks)
    (mem : ∀ b ∈ cache.placed bs covers e, b ∈ blocks) : cache.Identified bs covers e := by
  intro b inPlaced
  refine ⟨fun path found => ?_, fun b' inPlaced' same => ?_⟩
  · exact (oneToOne _ (held b.1 path found) b (mem b inPlaced)).mp rfl
  · exact (oneToOne b' (mem b' inPlaced') b (mem b inPlaced)).mp same

section
variable (mirror : Mirror xxh3_64 blocks view map cache)
include mirror

theorem Mirror.unshared (oneToOne : OneToOne blocks)
    (injective : Set.InjOn (chainHash xxh3_64) {path | ∃ h, (h, path) ∈ blocks}) (u u' r : UInt64)
    (found : map.get? u = some r) (found' : map.get? u' = some r) : u = u' := by
  obtain ⟨h, _, rfl, path, held, value⟩ := mirror.translates u r found
  obtain ⟨h', _, rfl, path', held', value'⟩ := mirror.translates u' r found'
  rw [readChain_id] at value value'
  have mem := mirror.stored h path held
  have mem' := mirror.stored h' path' held'
  have same : path = path' := injective ⟨h, mem⟩ ⟨h', mem'⟩ (value.symm.trans value')
  exact (oneToOne _ mem _ mem').mpr same

theorem Mirror.mem_view_iff {path : List (List UInt32)}
    (distinct : ∀ stored ∈ {path | ∃ h, (h, path) ∈ blocks},
      chainHash xxh3_64 stored = chainHash xxh3_64 path → stored = path) :
    chainHash xxh3_64 path ∈ view ↔ path ∈ cache.values := by
  rw [mem_values_iff]
  constructor
  · intro shown
    obtain ⟨u, found⟩ := mirror.backed _ shown
    obtain ⟨h, _, _, stored, held, value⟩ := mirror.translates u _ found
    rw [readChain_id] at value
    exact ⟨h, by rw [held, distinct stored ⟨h, mirror.stored h stored held⟩ value.symm]⟩
  · rintro ⟨h, held⟩
    exact mirror.shown h _ (mirror.complete h path held)

theorem Mirror.resolveParent_ne_none
    {ph : Option UInt64} (resident : (cache.parentPath ph).isSome) :
    resolveParent map ph ≠ none := by
  cases ph with
  | none => simp [resolveParent]
  | some h =>
    obtain ⟨path, held⟩ := Option.isSome_iff_exists.mp resident
    simp [resolveParent, mirror.complete h path held]

theorem Mirror.assign (oneToOne : OneToOne blocks) {covers : List ℕ}
    (mem : ∀ b ∈ cache.placed bs covers e, b ∈ blocks) : Mirror xxh3_64 blocks
      (view ∪ ((cache.placed bs covers e).map fun b => chainHash xxh3_64 b.2).toFinset)
      (map.assign ((cache.placed bs covers e).map (Prod.map id (readChain xxh3_64 id))))
      (cache.assign (cache.placed bs covers e)) where
  translates := mirror.translates.assign _ fun _ _ => Set.mem_univ _
  complete h path found := by
    by_cases placed : ∃ path', (h, path') ∈ cache.placed bs covers e
    · obtain ⟨path', inPlaced⟩ := placed
      have same : path' = path := by
        rcases get?_assign_eq_some found with here | before
        · exact (oneToOne _ (mem _ inPlaced) _ (mem _ here)).mp rfl
        · exact (oneToOne _ (mem _ inPlaced) _ (mirror.stored h path before)).mp rfl
      subst same
      refine get?_assign_of_mem (mem_map.mpr ⟨_, inPlaced, by simp⟩) fun r other => ?_
      obtain ⟨⟨h', path''⟩, inPlaced', pair⟩ := mem_map.mp other
      obtain ⟨rfl, rfl⟩ := Prod.mk.inj pair
      have same : path'' = path' := (oneToOne _ (mem _ inPlaced') _ (mem _ inPlaced)).mp rfl
      rw [readChain_id, same]
    · rw [get?_assign_of_not_mem fun path' inPlaced => placed ⟨path', inPlaced⟩] at found
      rw [get?_assign_of_not_mem, mirror.complete h path found]
      intro r mapped
      obtain ⟨⟨h', path'⟩, inPlaced, pair⟩ := mem_map.mp mapped
      exact placed ⟨path', (Prod.mk.inj pair).1 ▸ inPlaced⟩
  backed := by
    have backed := mirror.translates.backed_assign (Set.injOn_id _) (fun _ _ => Set.mem_univ _)
      (oneToOne.identified mirror.stored mem) mirror.backed
    simpa using backed
  shown h r found := by
    rcases get?_assign_eq_some found with mapped | before
    · obtain ⟨b, inPlaced, pair⟩ := mem_map.mp mapped
      refine Finset.mem_union_right _ (mem_toFinset.mpr (mem_map.mpr ⟨b, inPlaced, ?_⟩))
      rw [← readChain_id]
      exact (Prod.mk.inj pair).2
    · exact Finset.mem_union_left _ (mirror.shown h r before)
  stored h path found := by
    rcases get?_assign_eq_some found with here | before
    · exact mem _ here
    · exact mirror.stored h path before

end

variable {t : Tally} (mirror : Mirror xxh3_64 blocks t.view t.map cache)
  (oneToOne : OneToOne blocks)
  (injective : Set.InjOn (chainHash xxh3_64) {path | ∃ h, (h, path) ∈ blocks})
include mirror oneToOne injective

theorem Mirror.event (placeable : cache.Placeable bs e) (indexable : e.Indexable)
    (mem : ∀ b ∈ cache.placed bs (List.range (e.span bs)) e, b ∈ blocks) :
    Mirror xxh3_64 blocks (t.event xxh3_64 bs e).view (t.event xxh3_64 bs e).map
      (cache.observe bs e) := by
  cases e with
  | cleared => exact Mirror.empty
  | removed hs =>
    have translates := mirror.translates.eraseAll hs
    rw [map_id] at translates
    simp only [Tally.event, observe, step]
    refine ⟨?_, ?_, mirror.backed.dropBlocks hs, ?_, ?_⟩
    · rwa [foldl_dropBlock_snd]
    · intro h path found
      rw [foldl_dropBlock_snd, get?_eraseAll]
      rw [get?_eraseAll] at found
      split_ifs at found ⊢ with kept
      exact mirror.complete h path found
    · intro h r found
      exact shown_dropBlocks (mirror.unshared oneToOne injective) mirror.shown hs found
    · intro h path found
      rw [get?_eraseAll] at found
      split_ifs at found
      exact mirror.stored h path found
  | stored hs ph ts kind =>
    obtain ⟨aligned, resident⟩ := placeable
    have all : ∀ h ∈ (Event.stored hs ph ts kind).hashes, h ∈ Set.univ := fun h _ => Set.mem_univ h
    obtain ⟨t', after, effect⟩ := mirror.translates.stored (Set.injOn_id _) all
    rw [Event.map_id] at after
    rw [after]
    cases effect with
    | skipped orphaned reason =>
      -- only a store without a full block is passed over, and it places nothing
      have nothing : ts.length / bs = 0 := by
        rcases reason with other | short | unresolved
        · cases (show isIndexableSpecKind kind = true from indexable).symm.trans other
        · exact short
        · rw [Option.map_id] at unresolved
          exact absurd unresolved (mirror.resolveParent_ne_none resident)
      have unplaced : cache.placed bs (List.range (ts.length / bs)) (.stored hs ph ts kind) = [] := by
        obtain ⟨path, parent⟩ := Option.isSome_iff_exists.mp resident
        simp [placed, parent, nothing]
      simp only [observe, step, Event.span, unplaced]
      exact mirror
    | indexed path _ _ parent _ entries =>
      have assigned := mirror.assign oneToOne mem
      simp only [observe, step, entries aligned]
      rw [Event.span, placed_stored_of_parent parent] at assigned ⊢
      rw [show (fun b : UInt64 × List (List UInt32) => chainHash xxh3_64 b.2) =
          readChain xxh3_64 id ∘ Prod.snd from funext fun b => (readChain_id b.2).symm,
        ← map_map, map_snd_zip_rootPaths _ _ _ aligned] at assigned
      exact assigned

theorem Mirror.events {events : List (Event UInt64 UInt32)} (lossFree : LossFree bs cache events)
    (indexable : ∀ e ∈ events, e.Indexable)
    (mem : ∀ b ∈ storedBlocks bs cache events, b ∈ blocks) :
    Mirror xxh3_64 blocks (events.foldl (Tally.event xxh3_64 bs) t).view
      (events.foldl (Tally.event xxh3_64 bs) t).map (events.foldl (observe bs) cache) := by
  induction events generalizing t cache with
  | nil => exact mirror
  | cons e rest ih =>
    have first := mirror.event oneToOne injective lossFree.1 (indexable e mem_cons_self)
      fun b inPlaced => mem b (mem_append_left _ inPlaced)
    exact ih first lossFree.2 (fun e' inRest => indexable e' (.tail _ inRest))
      fun b later => mem b (mem_append_right _ later)

end Mirror

structure Delivery where
  workerId : String
  rank : Int
  events : List (Event UInt64 UInt32)
  now : Readings

def historyOf (workerId : String) (rank : Int) (deliveries : List Delivery) :
    List (Event UInt64 UInt32) :=
  (deliveries.filter fun d => d.workerId = workerId ∧ d.rank = rank).flatMap Delivery.events

namespace KvEventClient
variable (xxh3_64 : List UInt8 → UInt64)

def deliver (c : KvEventClient) (d : Delivery) : KvEventClient :=
  c.applyEvents xxh3_64 d.workerId d.rank d.events d.now

variable {xxh3_64} {blocks : List (UInt64 × List (List UInt32))}

theorem mirror_deliveries (oneToOne : OneToOne blocks)
    (injective : Set.InjOn (chainHash xxh3_64) {path | ∃ h, (h, path) ∈ blocks})
    {workerId : String} {rank : Int} {bs : ℕ} (deliveries : List Delivery) :
    ∀ {c : KvEventClient} {wv : WorkerViews} {cache : EngineCache UInt64 UInt32},
      c.state.get? workerId = some wv → wv.blockSize = bs →
      Mirror xxh3_64 blocks (wv.view rank) (wv.map rank) cache →
      LossFree bs cache (historyOf workerId rank deliveries) →
      (∀ e ∈ historyOf workerId rank deliveries, e.Indexable) →
      (∀ b ∈ storedBlocks bs cache (historyOf workerId rank deliveries), b ∈ blocks) →
      ∃ wv', (deliveries.foldl (deliver xxh3_64) c).state.get? workerId = some wv' ∧
        Mirror xxh3_64 blocks (wv'.view rank) (wv'.map rank)
          ((historyOf workerId rank deliveries).foldl (observe bs) cache) := by
  induction deliveries with
  | nil => exact fun tracked _ mirror _ _ _ => ⟨_, tracked, mirror⟩
  | cons d rest ih =>
    intro c wv cache tracked sized mirror lossFree indexable mem
    have tracked' : (c.deliver xxh3_64 d).state.get? workerId =
        some (if workerId = d.workerId then wv.applyEvents xxh3_64 d.rank d.events d.now else wv) := by
      rw [deliver, applyEvents, get?_onWorker]
      split_ifs with same
      · rw [← same, tracked, Option.map_some]
      · exact tracked
    by_cases ours : d.workerId = workerId ∧ d.rank = rank
    · obtain ⟨rfl, rfl⟩ := ours
      rw [if_pos rfl] at tracked'
      have split : historyOf d.workerId d.rank (d :: rest) =
          d.events ++ historyOf d.workerId d.rank rest := by simp [historyOf]
      rw [split] at lossFree indexable mem ⊢
      rw [lossFree_append] at lossFree
      rw [storedBlocks_append] at mem
      rw [foldl_append]
      have start : Mirror xxh3_64 blocks (Tally.start (wv.view d.rank) (wv.map d.rank)).view
          (Tally.start (wv.view d.rank) (wv.map d.rank)).map cache := mirror
      have batch := start.events oneToOne injective lossFree.1
        (fun e inBatch => indexable e (mem_append_left _ inBatch))
        (fun b inBatch => mem b (mem_append_left _ inBatch))
      refine ih tracked' sized ?_ lossFree.2 (fun e later => indexable e (mem_append_right _ later))
        fun b later => mem b (mem_append_right _ later)
      rw [view_applyEvents, map_applyEvents, if_pos rfl, if_pos rfl, sized]
      exact batch
    · have skip : historyOf workerId rank (d :: rest) = historyOf workerId rank rest := by
        simp [historyOf, ours]
      rw [skip] at lossFree indexable mem ⊢
      split_ifs at tracked' with same
      · have other : rank ≠ d.rank := fun eq => ours ⟨same.symm, eq.symm⟩
        refine ih tracked' sized ?_ lossFree indexable mem
        rw [view_applyEvents, map_applyEvents, if_neg other, if_neg other]
        exact mirror
      · exact ih tracked' sized mirror lossFree indexable mem

theorem prefixHits_eq_residentBlocks (c : KvEventClient) (workerId : String) (dpRank : Option Int)
    {wv : WorkerViews} (tracked : c.state.get? workerId = some wv) (sized : 0 < wv.blockSize)
    (unseen : wv.view (dpRank.getD 0) = ∅ ∧ wv.map (dpRank.getD 0) = .empty)
    (deliveries : List Delivery) (q : List UInt32)
    (lossFree : EngineCache.LossFree wv.blockSize .empty
      (historyOf workerId (dpRank.getD 0) deliveries))
    (indexable : ∀ e ∈ historyOf workerId (dpRank.getD 0) deliveries, e.Indexable)
    (oneToOne : EngineCache.OneToOne (EngineCache.storedBlocks wv.blockSize .empty
      (historyOf workerId (dpRank.getD 0) deliveries)))
    (collisionFree : CollisionFree xxh3_64 ((EngineCache.storedBlocks wv.blockSize .empty
      (historyOf workerId (dpRank.getD 0) deliveries)).map Prod.snd ++
        [fullBlocks wv.blockSize q])) :
    (deliveries.foldl (deliver xxh3_64) c).prefixHits workerId dpRank
        (hashRequest xxh3_64 q wv.blockSize) =
      EngineCache.residentBlocks wv.blockSize
        ((historyOf workerId (dpRank.getD 0) deliveries).foldl
          (EngineCache.observe wv.blockSize) .empty) q := by
  have injective := collisionFree.injOn
  have injectiveStored : Set.InjOn (chainHash xxh3_64)
      {path | ∃ h, (h, path) ∈ storedBlocks wv.blockSize .empty
        (historyOf workerId (dpRank.getD 0) deliveries)} := by
    refine injective.mono ?_
    rintro path ⟨h, mem⟩
    exact ⟨path, mem_append_left _ (mem_map.mpr ⟨_, mem, rfl⟩), prefix_refl _⟩
  obtain ⟨wv', tracked', mirror⟩ := mirror_deliveries oneToOne injectiveStored deliveries tracked
    rfl (by rw [unseen.1, unseen.2]; exact Mirror.empty) lossFree indexable fun _ mem => mem
  simp only [prefixHits, tracked', WorkerViews.prefixHits]
  rw [hashRequest_eq xxh3_64 q sized, takeWhile_map, length_map]
  refine congrArg List.length (takeWhile_congr fun path inQuery => ?_)
  obtain ⟨i, _, rfl⟩ := mem_map.mp inQuery
  refine decide_eq_decide.mpr (mirror.mem_view_iff ?_)
  rintro path ⟨h, mem⟩ same
  refine injective ⟨path, mem_append_left _ (mem_map.mpr ⟨_, mem, rfl⟩),
    prefix_refl _⟩ ⟨_, mem_append_right _ (mem_singleton_self _), ?_⟩ same
  exact take_prefix _ _

/-- Two blocks stored, the second removed and a sibling stored, over three
batches with another rank's in between. -/
def siblingDeliveries : List Delivery :=
  [⟨"w", 0, [.stored [10, 11] none [1, 2, 3, 4] none], ⟨0, 0⟩⟩, ⟨"w", 1, [.cleared], ⟨1, 1⟩⟩,
    ⟨"w", 0, [.removed [11]], ⟨2, 2⟩⟩,
    ⟨"w", 0, [.stored [12] (some 10) [5, 6] (some "full_attention")], ⟨3, 3⟩⟩]

def trackedAt (bs : ℕ) : KvEventClient := ⟨Dict.empty.set "w" (.new bs)⟩

theorem sibling_prefixHits :
    (siblingDeliveries.foldl (deliver rollingHash) (trackedAt 2)).prefixHits "w" none
      (hashRequest rollingHash [1, 2, 5, 6, 9] 2) = 2 :=
  (prefixHits_eq_residentBlocks (trackedAt 2) "w" none
    (show (trackedAt 2).state.get? "w" = some (.new 2) from rfl) (by decide) ⟨rfl, rfl⟩
    siblingDeliveries [1, 2, 5, 6, 9] (by decide +kernel) (by decide +kernel)
    (by unfold OneToOne; decide +kernel)
    ⟨by decide +kernel, by decide +kernel⟩).trans (by decide +kernel)

/-- One block of a sliding-window group, stored and never removed, is not
counted. -/
theorem sliding_window_not_counted :
    let history : List (Event UInt64 UInt32) :=
      [.stored [10] none [1, 2] (some "sliding_window")]
    let c := (trackedAt 2).deliver rollingHash ⟨"w", 0, history, ⟨0, 0⟩⟩
    EngineCache.LossFree 2 .empty history ∧
      EngineCache.OneToOne (EngineCache.storedBlocks 2 .empty history) ∧
      CollisionFree rollingHash ((EngineCache.storedBlocks 2 .empty history).map Prod.snd ++
        [fullBlocks 2 [1, 2]]) ∧
      EngineCache.residentBlocks 2 (history.foldl (EngineCache.observe 2) .empty) [1, 2] = 1 ∧
      c.prefixHits "w" none (hashRequest rollingHash [1, 2] 2) = 0 := by
  refine ⟨by decide +kernel, by unfold OneToOne; decide +kernel,
    ⟨by decide +kernel, by decide +kernel⟩, by decide +kernel, by decide +kernel⟩

end KvEventClient
end Infera.Router
