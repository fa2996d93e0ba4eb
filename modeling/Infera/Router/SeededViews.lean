import Infera.Router.EngineCache
import Infera.Runs

/-! A rank fed from two sources. Event batches follow the worker's stream from
wherever the router joined it; the bucket replaces the view by a snapshot of
everything the worker holds, unless the rank's own chain is live. A seeded hash
has no entry in the translation map, so no removal can retract it: the view is
current after a seed as long as the stream never anchors on top of one. -/

namespace Infera.Router
open WorkerViews List

abbrev Stream := List (Event UInt64 UInt32 × List ℕ)

structure Seeded where
  worker : WorkerViews
  cache : EngineCache UInt64 UInt32

namespace Seeded

inductive Input where
  | batch (events : Stream) (now : Readings)
  | seed (now : Instant)

section Step
variable (xxh3_64 : List UInt8 → UInt64) (rank : Int)

/-- Everything the worker holds, as the bucket reports it. -/
def snapshot (cache : EngineCache UInt64 UInt32) : List UInt64 :=
  cache.values.map (chainHash xxh3_64)

def step (s : Seeded) : Input → Seeded
  | .batch events now =>
    { worker := s.worker.applyEvents xxh3_64 rank (events.map Prod.fst) now
      cache := events.foldl (fun c e => c.step s.worker.blockSize e.1 e.2) s.cache }
  | .seed now =>
    { s with worker := s.worker.seedRankView rank (snapshot xxh3_64 s.cache) now }

variable (s : Seeded)

/-- The router has just begun to track the rank; the worker may hold anything. -/
def Start : Prop :=
  s.worker.view rank = ∅ ∧ s.worker.map rank = .empty ∧ (s.worker.healthOf rank).applied = 0

/-- Every hash the view shows is that of a block the worker holds. -/
def Current : Prop :=
  ∀ r ∈ s.worker.view rank, ∃ path, s.cache.Holds path ∧ r = chainHash xxh3_64 path

end Step

def Told (bs : ℕ) : EngineCache UInt64 UInt32 → Stream → Prop
  | _, [] => True
  | cache, e :: rest =>
    (Reported bs e.1 e.2 ∧ cache.Identified bs e.2 e.1) ∧ Told bs (cache.step bs e.1 e.2) rest

def Plants (bs : ℕ) : Event UInt64 UInt32 → Prop
  | .stored _ ph ts kind =>
    isIndexableSpecKind kind = true ∧ ph = none ∧ ts.length / bs ≠ 0
  | _ => False

/-- The stream does not anchor on top of seeded hashes: a batch finds the view
backed by the map, or clears it, or leaves a rank without a chain without one. -/
def Unmixed (rank : Int) (s : Seeded) : Input → Prop
  | .batch events _ =>
    Told s.worker.blockSize s.cache events ∧
      (Backed (s.worker.view rank) (s.worker.map rank) ∨ (∃ e ∈ events, e.1 = .cleared) ∨
        ((s.worker.healthOf rank).applied = 0 ∧ ∀ e ∈ events, ¬Plants s.worker.blockSize e.1))
  | .seed _ => True

section Batch
variable {xxh3_64 : List UInt8 → UInt64} {bs : ℕ}

variable {events : Stream}

theorem translates_events : ∀ {t : Tally} {cache : EngineCache UInt64 UInt32},
      Translates xxh3_64 id id Set.univ t.map cache → Told bs cache events →
      Translates xxh3_64 id id Set.univ ((events.map Prod.fst).foldl (Tally.event xxh3_64 bs) t).map
        (events.foldl (fun c e => c.step bs e.1 e.2) cache) ∧
      ((Backed t.view t.map ∨ ∃ e ∈ events, e.1 = .cleared) →
        Backed ((events.map Prod.fst).foldl (Tally.event xxh3_64 bs) t).view
          ((events.map Prod.fst).foldl (Tally.event xxh3_64 bs) t).map) := by
  induction events with
  | nil => exact fun translates _ => ⟨translates, fun before => before.resolve_right (by simp)⟩
  | cons e rest ih =>
    intro t cache translates told
    have next := translates.event (Set.injOn_id _) (fun h _ => Set.mem_univ h) told.1.1 told.1.2
    rw [Event.map_id] at next
    obtain ⟨last, backed⟩ := ih next told.2
    refine ⟨last, fun before => backed ?_⟩
    rcases before with before | ⟨e', mem, clears⟩
    · have kept := translates.backed_event (Set.injOn_id _) (fun h _ => Set.mem_univ h) told.1.1
        told.1.2 before
      rw [Event.map_id] at kept
      exact .inl kept
    · rcases mem_cons.mp mem with rfl | later
      · rw [clears]
        exact .inl fun r shown => absurd shown (Finset.notMem_empty r)
      · exact .inr ⟨e', later, clears⟩

/-- A rank without an applied store has an empty map, if it had one when the
counters were last reset. -/
def Bare (hadNone : Prop) (t : Tally) : Prop :=
  t.applied = 0 → t.cleared = true ∨ hadNone → t.map = .empty

theorem Bare.event {hadNone : Prop} {t : Tally} (bare : Bare hadNone t)
    (e : Event UInt64 UInt32) : Bare hadNone (t.event xxh3_64 bs e) := by
  cases e with
  | cleared => exact fun _ _ => rfl
  | removed hs =>
    intro applied reset
    simp only [Tally.event, foldl_dropBlock_snd] at applied reset ⊢
    rw [bare applied reset, Dict.eraseAll_empty]
  | stored =>
    simp only [Tally.event]
    split_ifs
    · exact bare
    · split
      · exact bare
      · exact fun applied => absurd applied (Nat.succ_ne_zero _)
    · exact bare

theorem bare_events {hadNone : Prop} (events : List (Event UInt64 UInt32)) :
    ∀ {t : Tally}, Bare hadNone t → Bare hadNone (events.foldl (Tally.event xxh3_64 bs) t) := by
  induction events with
  | nil => exact fun bare => bare
  | cons e rest ih => exact fun bare => ih (bare.event e)

theorem applied_events_eq_zero {events : List (Event UInt64 UInt32)} :
    ∀ {t : Tally}, (∀ e ∈ events, ¬Plants bs e) → t.applied = 0 → t.map = .empty →
      (events.foldl (Tally.event xxh3_64 bs) t).applied = 0 := by
  induction events with
  | nil => exact fun _ applied _ => applied
  | cons e rest ih =>
    intro t rootless applied bare
    have none_applied : (t.event xxh3_64 bs e).applied = 0 := by
      cases e with
      | cleared => rfl
      | removed hs => exact applied
      | stored _ ph =>
        simp only [Tally.event, bare]
        split_ifs with indexable short
        · exact applied
        · cases ph with
          | none => exact absurd ⟨indexable, rfl, short⟩ (rootless _ mem_cons_self)
          | some h => exact applied
        · exact applied
    have still : Bare True (t.event xxh3_64 bs e) := Bare.event (fun _ _ => bare) e
    exact ih (fun e' later => rootless e' (.tail _ later)) none_applied
      (still none_applied (.inr trivial))

end Batch

section Runs
variable {xxh3_64 : List UInt8 → UInt64} {rank : Int} {s : Seeded}

/-- The map names held blocks; a rank without a chain has none; a rank with one
shows only held blocks. -/
structure Consistent (xxh3_64 : List UInt8 → UInt64) (rank : Int) (s : Seeded) : Prop where
  translates : Translates xxh3_64 id id Set.univ (s.worker.map rank) s.cache
  bare : (s.worker.healthOf rank).applied = 0 → s.worker.map rank = .empty
  current : 0 < (s.worker.healthOf rank).applied → s.Current xxh3_64 rank

theorem applied_account (h : ChainHealth) (t : Tally) (now : Readings) :
    (h.account t now).applied = (if t.cleared then 0 else h.applied) + t.applied := by
  have counted : (h.count t).applied = (if t.cleared then 0 else h.applied) + t.applied := by
    simp only [ChainHealth.count]
    split_ifs <;> rfl
  rw [← counted, ChainHealth.account, ChainHealth.warn, ChainHealth.arm]
  split_ifs <;> rfl

theorem current_of_backed
    (translates : Translates xxh3_64 id id Set.univ (s.worker.map rank) s.cache)
    (backed : Backed (s.worker.view rank) (s.worker.map rank)) : s.Current xxh3_64 rank := by
  intro r shown
  obtain ⟨u, found⟩ := backed r shown
  obtain ⟨h, _, _, path, held, value⟩ := translates u r found
  exact ⟨path, ⟨h, held⟩, by rw [value, readChain_id]⟩

def tally (xxh3_64 : List UInt8 → UInt64) (rank : Int) (s : Seeded) (events : Stream) : Tally :=
  Tally.batch xxh3_64 s.worker.blockSize (s.worker.view rank) (s.worker.map rank)
    (events.map Prod.fst)

section
variable (events : Stream) (now : Readings)

theorem map_batch : (s.step xxh3_64 rank (.batch events now)).worker.map rank =
      (s.tally xxh3_64 rank events).map := by
  rw [step, map_applyEvents, if_pos rfl]
  rfl

theorem view_batch : (s.step xxh3_64 rank (.batch events now)).worker.view rank =
      (s.tally xxh3_64 rank events).view := by
  rw [step, view_applyEvents, if_pos rfl]
  rfl

theorem applied_batch : ((s.step xxh3_64 rank (.batch events now)).worker.healthOf rank).applied =
      (if (s.tally xxh3_64 rank events).cleared then 0 else (s.worker.healthOf rank).applied) +
        (s.tally xxh3_64 rank events).applied := by
  rw [step, healthOf_applyEvents, if_pos rfl, applied_account]
  rfl

end

section
variable (consistent : s.Consistent xxh3_64 rank)
include consistent

theorem current_seed (now : Instant) : (s.step xxh3_64 rank (.seed now)).Current xxh3_64 rank := by
  by_cases keeps : s.worker.Keeps rank
  · rw [step, seedRankView_of_keeps _ _ _ _ keeps]
    exact consistent.current ((anchored_iff _ _).mp keeps.1)
  · intro r shown
    rw [step, view_seedRankView _ _ _ _ _ keeps, if_pos rfl] at shown
    obtain ⟨path, held, rfl⟩ := mem_map.mp (mem_toFinset.mp shown)
    exact ⟨path, Dict.mem_values_iff.mp held, rfl⟩

theorem Consistent.seed (now : Instant) :
    (s.step xxh3_64 rank (.seed now)).Consistent xxh3_64 rank := by
  have applied : ((s.step xxh3_64 rank (.seed now)).worker.healthOf rank).applied =
      (s.worker.healthOf rank).applied := by
    by_cases keeps : s.worker.Keeps rank
    · rw [step, seedRankView_of_keeps _ _ _ _ keeps]
    · rw [step, healthOf_seedRankView _ _ _ _ _ keeps, if_pos rfl]
      rfl
  refine ⟨?_, ?_, fun _ => current_seed consistent now⟩
  · rw [step, map_seedRankView]
    exact consistent.translates
  · rw [applied, step, map_seedRankView]
    exact consistent.bare

theorem bare_batch (events : Stream) (now : Readings)
    (applied : ((s.step xxh3_64 rank (.batch events now)).worker.healthOf rank).applied = 0) :
    (s.step xxh3_64 rank (.batch events now)).worker.map rank = .empty := by
  have bare : Bare (s.worker.map rank = .empty) (s.tally xxh3_64 rank events) :=
    bare_events _ fun _ reset => reset.resolve_left (by simp [Tally.start])
  rw [applied_batch, Nat.add_eq_zero_iff] at applied
  rw [map_batch]
  refine bare applied.2 ?_
  by_cases cleared : (s.tally xxh3_64 rank events).cleared = true
  · exact .inl cleared
  · rw [if_neg cleared] at applied
    exact .inr (consistent.bare applied.1)

theorem Consistent.batch {now : Readings} (unmixed : s.Unmixed rank (.batch events now)) :
    (s.step xxh3_64 rank (.batch events now)).Consistent xxh3_64 rank := by
  obtain ⟨told, apart⟩ := unmixed
  have start : Translates xxh3_64 id id Set.univ
      (Tally.start (s.worker.view rank) (s.worker.map rank)).map s.cache := consistent.translates
  obtain ⟨translates, kept⟩ := translates_events start told
  have last : (s.step xxh3_64 rank (.batch events now)).worker.map rank =
      (s.tally xxh3_64 rank events).map := map_batch events now
  refine ⟨last ▸ translates, bare_batch consistent events now, fun anchored => ?_⟩
  have backed : (Backed (s.worker.view rank) (s.worker.map rank) ∨ ∃ e ∈ events, e.1 = .cleared) →
      (s.step xxh3_64 rank (.batch events now)).Current xxh3_64 rank := by
    intro before
    refine current_of_backed (last ▸ translates) ?_
    rw [last, view_batch]
    exact kept before
  rcases apart with kept | clears | ⟨unanchored, rootless⟩
  · exact backed (.inl kept)
  · exact backed (.inr clears)
  · -- nothing is applied, so the rank is not anchored afterwards either
    have none_applied : (s.tally xxh3_64 rank events).applied = 0 := by
      refine applied_events_eq_zero ?_ rfl (consistent.bare unanchored)
      rintro e mem
      obtain ⟨e', mem', rfl⟩ := mem_map.mp mem
      exact rootless e' mem'
    rw [applied_batch, unanchored, none_applied] at anchored
    split_ifs at anchored <;> exact absurd anchored (Nat.lt_irrefl 0)

end

theorem consistent_of_reaches
    (reached : Reaches (Start rank) (step xxh3_64 rank) (Unmixed rank) s) :
    s.Consistent xxh3_64 rank := by
  have start : ∀ s, Start rank s → s.Consistent xxh3_64 rank := by
    rintro s ⟨view, map, applied⟩
    refine ⟨?_, fun _ => map, fun anchored => ?_⟩
    · intro u r found
      rw [map] at found
      cases found
    · rw [applied] at anchored
      exact absurd anchored (Nat.lt_irrefl 0)
  refine reached.invariant start fun s input consistent unmixed => ?_
  cases input with
  | batch events now => exact consistent.batch unmixed
  | seed now => exact consistent.seed now

theorem current_after_seed {s : Seeded}
    (reached : Reaches (Start rank) (step xxh3_64 rank) (Unmixed rank) s) (now : Instant) :
    (s.step xxh3_64 rank (.seed now)).Current xxh3_64 rank :=
  current_seed (consistent_of_reaches reached) now

end Runs

def joinedLate : Seeded := ⟨.new 2, Dict.empty.set 1 [[1, 2]]⟩

def removalBatch : Stream := [(.removed [1], []), (.stored [3] (some 7) [5, 6] none, [0])]

theorem mirrored_removal_current :
    Current rollingHash 0 (((joinedLate.step rollingHash 0 (.seed 0)).step rollingHash 0
      (.batch removalBatch ⟨1, 1⟩)).step rollingHash 0 (.seed 2)) := by
  have seeded : Reaches (Start 0) (step rollingHash 0) (Unmixed 0)
      (joinedLate.step rollingHash 0 (.seed 0)) :=
    .next (Input.seed 0) (.start ⟨rfl, rfl, rfl⟩) trivial
  have told : Told 2 (Dict.empty.set 1 [[1, 2]]) removalBatch := by
    refine ⟨⟨fun _ => ⟨trivial, rfl⟩, ?_⟩, ⟨fun _ => ⟨rfl, rfl⟩, ?_⟩, trivial⟩
    · exact fun b mem => absurd mem not_mem_nil
    · unfold EngineCache.Identified
      decide +kernel
  have rootless : ∀ e ∈ removalBatch, ¬Plants 2 e.1 := by
    simp [removalBatch, Plants]
  exact current_after_seed (.next (Input.batch removalBatch ⟨1, 1⟩) seeded
    ⟨told, .inr (.inr ⟨by decide +kernel, rootless⟩)⟩) 2

/-- A block seeded from the bucket, then a root block on the stream, then the
seeded block's removal: the next seed is refused and the block still shows. -/
theorem seeded_then_anchored_stale :
    let inputs : List Input := [.seed 0, .batch [(.stored [2] none [3, 4] none, [0])] ⟨1, 1⟩,
      .batch [(.removed [1], [])] ⟨2, 2⟩, .seed 3]
    let s := inputs.foldl (step rollingHash 0) joinedLate
    Start 0 joinedLate ∧ chainHash rollingHash [[1, 2]] ∈ s.worker.view 0 ∧
      s.cache.values = [[[3, 4]]] ∧
      chainHash rollingHash [[1, 2]] ≠ chainHash rollingHash [[3, 4]] := by
  refine ⟨⟨rfl, rfl, rfl⟩, by decide +kernel, by decide +kernel, by decide +kernel⟩

end Seeded
end Infera.Router
