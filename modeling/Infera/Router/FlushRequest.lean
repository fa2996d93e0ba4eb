import Infera.Router.KvEvent
import Infera.Runs

/-! When a worker's cache flush may be asked for. Each rank keeps a log of what
happened to it since its last clear or reset: batches with what they orphaned
and applied, seeds and drops of the bucket, and requests handed over. A request
is handed over only for a rank that never applied a store and has an orphaning
batch no seed covered, with neither a seed nor another request since. -/

namespace Infera.Router
open WorkerViews List ChainHealth

inductive Mark where
  | batch (orphaned applied : ℕ) (arrived : Instant)
  | seed (stamp : Instant)
  | drop
  | delivered
  deriving DecidableEq

namespace Mark

def applied : Mark → ℕ
  | .batch _ applied _ => applied
  | _ => 0

def stamp? : Mark → Option Instant
  | .seed stamp => some stamp
  | _ => none

/-- The mark neither disproves an earlier request nor uses it up. -/
def Spares : Mark → Prop
  | .seed _ => False
  | .delivered => False
  | _ => True

end Mark

def seedsEver (log : List Mark) : List Instant := log.filterMap Mark.stamp?

def seedsSinceDrop (log : List Mark) : List Instant :=
  seedsEver (log.takeWhile (· ≠ .drop))

/-- A batch in the log orphaned a store while none of `seeds` covered the rank,
and no seed or handed-over request came after it. Logs are newest first. -/
inductive Evidence (seeds : List Mark → List Instant) : List Mark → Prop
  | here {orphaned arrived : ℕ} {older : List Mark} (some_orphaned : 0 < orphaned)
      (uncovered : ∀ stamp ∈ seeds older, seedCoverageWindow ≤ elapsed arrived stamp) :
      Evidence seeds (.batch orphaned 0 arrived :: older)
  | later {mark : Mark} {older : List Mark} (spares : mark.Spares)
      (before : Evidence seeds older) : Evidence seeds (mark :: older)

/-- The rank applied nothing, and has evidence of a dead chain. -/
structure Owed (seeds : List Mark → List Instant) (log : List Mark) : Prop where
  unanchored : ∀ mark ∈ log, mark.applied = 0
  evidence : Evidence seeds log

structure Watched where
  worker : WorkerViews
  log : Int → List Mark

namespace Watched
variable {h : ChainHealth} {now : Instant} {log : List Mark} {s : Watched}

inductive Call where
  | batch (rank : Int) (events : List (Event UInt64 UInt32)) (now : Readings)
  | restart (rank : Int)
  | seed (rank : Int) (snapshot : List UInt64) (now : Instant)
  | drop (rank : Int)
  | take (now : Int → Instant)

/-- The rank's request is among those `takeFlushRequest` hands over. -/
def Delivers (s : Watched) (now : Int → Instant) (rank : Int) : Prop :=
  (s.worker.healthOf rank).due (now rank) = true

def step (xxh3_64 : List UInt8 → UInt64) (s : Watched) : Call → Watched
  | .batch rank events now =>
    let t := Tally.batch xxh3_64 s.worker.blockSize (s.worker.view rank) (s.worker.map rank) events
    { worker := s.worker.applyEvents xxh3_64 rank events now
      log := Function.update s.log rank
        (.batch t.orphaned t.applied now.coverage :: if t.cleared then [] else s.log rank) }
  | .restart rank =>
    { worker := s.worker.resetRank rank, log := Function.update s.log rank [] }
  | .seed rank snapshot now =>
    { worker := s.worker.seedRankView rank snapshot now
      log := Function.update s.log rank (.seed now :: s.log rank) }
  | .drop rank =>
    { worker := s.worker.dropRankView rank
      log := Function.update s.log rank (.drop :: s.log rank) }
  | .take now =>
    { worker := (s.worker.takeFlushRequest now).2
      log rank :=
        if (s.worker.healthOf rank).due (now rank) then .delivered :: s.log rank
        else s.log rank }

def Start (s : Watched) : Prop := ∃ blockSize, s = ⟨.new blockSize, fun _ => []⟩

/-- The clock does not go back from one seed of a rank to the next. -/
def Ticks (s : Watched) : Call → Prop
  | .seed rank _ now => ∀ stamp ∈ seedsEver (s.log rank), stamp ≤ now
  | _ => True

structure Accounts (h : ChainHealth) (log : List Mark) : Prop where
  applied : h.applied = (log.map Mark.applied).sum
  seeded : h.applied = 0 → h.seededAt = (seedsSinceDrop log).head?
  latest : ∀ stamp ∈ seedsSinceDrop log, ∀ last ∈ (seedsSinceDrop log).head?, stamp ≤ last
  armed : h.needsFlush = true → h.applied = 0 ∧ Evidence seedsSinceDrop log

theorem Accounts.new : Accounts .new [] where
  applied := rfl
  seeded _ := rfl
  latest stamp mem := absurd mem not_mem_nil
  armed armed := by cases armed

@[simp] theorem seedsSinceDrop_batch (orphaned applied arrived : ℕ) (log : List Mark) :
    seedsSinceDrop (.batch orphaned applied arrived :: log) = seedsSinceDrop log := rfl

@[simp] theorem seedsSinceDrop_seed (stamp : Instant) (log : List Mark) :
    seedsSinceDrop (.seed stamp :: log) = stamp :: seedsSinceDrop log := rfl

@[simp] theorem seedsSinceDrop_delivered (log : List Mark) :
    seedsSinceDrop (.delivered :: log) = seedsSinceDrop log := rfl

theorem mem_seedsEver_of_mem_seedsSinceDrop {stamp : Instant}
    (mem : stamp ∈ seedsSinceDrop log) : stamp ∈ seedsEver log := by
  obtain ⟨mark, inLog, value⟩ := mem_filterMap.mp mem
  exact mem_filterMap.mpr ⟨mark, (takeWhile_sublist _).subset inLog, value⟩

theorem arm_fields (h : ChainHealth) (orphaned : ℕ) (now : Readings) :
    (h.arm orphaned now).applied = h.applied ∧ (h.arm orphaned now).seededAt = h.seededAt := by
  unfold arm
  split_ifs <;> exact ⟨rfl, rfl⟩

theorem warn_fields (h : ChainHealth) (orphaned : ℕ) :
    (h.warn orphaned).applied = h.applied ∧ (h.warn orphaned).seededAt = h.seededAt ∧
      (h.warn orphaned).needsFlush = h.needsFlush := by
  unfold warn
  split_ifs <;> exact ⟨rfl, rfl, rfl⟩

theorem needsFlush_arm {orphaned : ℕ} {now : Readings}
    (armed : (h.arm orphaned now).needsFlush = true) :
    h.applied = 0 ∧ (0 < orphaned ∧ h.bucketCovered now.coverage = false ∨
      h.needsFlush = true) := by
  unfold arm at armed
  split_ifs at armed with raise before withdraw
  · exact ⟨raise.2.1, .inr armed⟩
  · exact ⟨raise.2.1, .inl ⟨raise.1, raise.2.2⟩⟩
  · exact ⟨Nat.eq_zero_of_not_pos fun anchored => withdraw (.inr anchored), .inr armed⟩

section
variable (accounts : Accounts h log)
include accounts

theorem Accounts.uncovered (unanchored : h.applied = 0) (uncovered : h.bucketCovered now = false) :
    ∀ stamp ∈ seedsSinceDrop log, seedCoverageWindow ≤ elapsed now stamp := by
  intro stamp mem
  have seeded := accounts.seeded unanchored
  cases last : (seedsSinceDrop log).head? with
  | none =>
    rw [List.head?_eq_none_iff.mp last] at mem
    exact absurd mem not_mem_nil
  | some t =>
    have older := accounts.latest stamp mem t last
    rw [bucketCovered, seeded, last, Option.any_some, decide_eq_false_iff_not] at uncovered
    exact (Nat.not_lt.mp uncovered).trans (Nat.sub_le_sub_left older now)

theorem Accounts.cleared (cleared : Bool) :
    Accounts (if cleared then .new else h) (if cleared then [] else log) := by
  cases cleared with
  | false => exact accounts
  | true => exact Accounts.new

theorem Accounts.account (t : Tally) (now : Readings) : Accounts (h.account t now)
      (.batch t.orphaned t.applied now.coverage :: if t.cleared then [] else log) := by
  have reset := accounts.cleared t.cleared
  have count : (h.count t).applied = (if t.cleared then ChainHealth.new else h).applied + t.applied ∧
      (h.count t).seededAt = (if t.cleared then ChainHealth.new else h).seededAt ∧
      (h.count t).needsFlush = (if t.cleared then ChainHealth.new else h).needsFlush :=
    ⟨rfl, rfl, rfl⟩
  generalize (if t.cleared then ChainHealth.new else h) = start at reset count
  obtain ⟨warnApplied, warnSeeded, warnFlush⟩ :=
    warn_fields ((h.count t).arm t.orphaned now) t.orphaned
  obtain ⟨armApplied, armSeeded⟩ := arm_fields (h.count t) t.orphaned now
  have applied : (h.account t now).applied = start.applied + t.applied := by
    rw [ChainHealth.account, warnApplied, armApplied, count.1]
  refine ⟨?_, fun none_applied => ?_, ?_, fun armed => ?_⟩
  · rw [applied, reset.applied, Nat.add_comm]
    rfl
  · rw [ChainHealth.account, warnSeeded, armSeeded, count.2.1]
    exact reset.seeded (by omega)
  · rw [seedsSinceDrop_batch]
    exact reset.latest
  · rw [ChainHealth.account, warnFlush] at armed
    obtain ⟨none_applied, raised⟩ := needsFlush_arm armed
    rw [count.1, Nat.add_eq_zero_iff] at none_applied
    refine ⟨by rw [applied, none_applied.1, none_applied.2], ?_⟩
    rw [none_applied.2]
    rcases raised with ⟨some_orphaned, uncovered⟩ | before
    · refine .here some_orphaned (reset.uncovered none_applied.1 ?_)
      rw [bucketCovered, count.2.1] at uncovered
      exact uncovered
    · rw [count.2.2] at before
      exact .later trivial (reset.armed before).2

theorem Accounts.applied_cons {mark : Mark} (none_applied : mark.applied = 0) :
    h.applied = ((mark :: log).map Mark.applied).sum := by
  rw [map_cons, sum_cons, none_applied, Nat.zero_add]
  exact accounts.applied

theorem Accounts.seedAccepted (ticks : ∀ stamp ∈ seedsEver log, stamp ≤ now) :
    Accounts (h.seeded now) (.seed now :: log) where
  applied := accounts.applied_cons rfl
  seeded _ := by rw [seedsSinceDrop_seed]; rfl
  latest := by
    intro stamp mem last isLast
    rw [seedsSinceDrop_seed, List.head?_cons, Option.mem_some_iff] at isLast
    rw [seedsSinceDrop_seed, mem_cons] at mem
    rw [← isLast]
    rcases mem with rfl | earlier
    · exact Nat.le_refl _
    · exact ticks stamp (mem_seedsEver_of_mem_seedsSinceDrop earlier)
  armed armed := by cases armed

theorem Accounts.seedRefused (anchored : 0 < h.applied)
    (ticks : ∀ stamp ∈ seedsEver log, stamp ≤ now) : Accounts h (.seed now :: log) where
  applied := (accounts.seedAccepted ticks).applied
  seeded none_applied := absurd none_applied anchored.ne'
  latest := (accounts.seedAccepted ticks).latest
  armed armed := absurd (accounts.armed armed).1 anchored.ne'

theorem Accounts.drop : Accounts h.uncovered (.drop :: log) where
  applied := accounts.applied_cons rfl
  seeded _ := rfl
  latest _ mem := absurd mem not_mem_nil
  armed armed := ⟨(accounts.armed armed).1, .later trivial (accounts.armed armed).2⟩

theorem Accounts.taken (now : Instant) :
    Accounts (h.taken now) (if h.due now then .delivered :: log else log) := by
  unfold ChainHealth.taken
  split_ifs
  · refine ⟨accounts.applied_cons rfl, ?_, ?_, fun armed => by cases armed⟩
    · rw [seedsSinceDrop_delivered]
      exact accounts.seeded
    · rw [seedsSinceDrop_delivered]
      exact accounts.latest
  · exact accounts

end

def Accounted (s : Watched) : Prop := ∀ rank, Accounts (s.worker.healthOf rank) (s.log rank)

theorem Accounted.update (accounted : s.Accounted) {worker : WorkerViews} {rank : Int}
    (healths : ∀ r, worker.healthOf r = if r = rank then h else s.worker.healthOf r)
    (accounts : Accounts h log) : Accounted ⟨worker, Function.update s.log rank log⟩ := by
  intro r
  simp only [healths, Function.update_apply]
  split_ifs
  · exact accounts
  · exact accounted r

theorem Accounted.step (accounted : s.Accounted) (xxh3_64 : List UInt8 → UInt64)
    {call : Call} (ticks : s.Ticks call) : (s.step xxh3_64 call).Accounted := by
  cases call with
  | batch rank events now =>
    exact accounted.update (healthOf_applyEvents _ _ _ _ _) ((accounted rank).account _ now)
  | restart rank => exact accounted.update (healthOf_resetRank _ _) Accounts.new
  | seed rank snapshot now =>
    by_cases keeps : s.worker.Keeps rank
    · refine accounted.update (h := s.worker.healthOf rank) (fun r => ?_)
        ((accounted rank).seedRefused ((anchored_iff _ _).mp keeps.1) ticks)
      rw [seedRankView_of_keeps _ _ _ _ keeps]
      split_ifs with same
      · rw [same]
      · rfl
    · exact accounted.update (fun r => healthOf_seedRankView _ _ r _ _ keeps)
        ((accounted rank).seedAccepted ticks)
  | drop rank => exact accounted.update (healthOf_dropRankView _ _) (accounted rank).drop
  | take now =>
    intro r
    simp only [Watched.step, healthOf_takeFlushRequest]
    exact (accounted r).taken (now r)

theorem Accounts.owed (accounts : Accounts h log)
    (armed : h.needsFlush = true) : Owed seedsSinceDrop log := by
  obtain ⟨unanchored, evidence⟩ := accounts.armed armed
  rw [accounts.applied] at unanchored
  refine ⟨fun mark inLog => ?_, evidence⟩
  exact sum_eq_zero_iff.mp unanchored _ (mem_map_of_mem inLog)

theorem delivers_of_takeFlushRequest {now : Int → Instant}
    (asked : (s.worker.takeFlushRequest now).1 = true) : ∃ rank, s.Delivers now rank := by
  obtain ⟨⟨rank, h⟩, item, due⟩ := any_eq_true.mp asked
  refine ⟨rank, ?_⟩
  rw [Delivers, healthOf, (Dict.get?_eq_some_iff _ _ _).mpr item]
  exact due

theorem flush_only_when_owed {xxh3_64 : List UInt8 → UInt64} {s : Watched}
    (reached : Reaches Start (step xxh3_64) Ticks s) (now : Int → Instant) :
    ((s.worker.takeFlushRequest now).1 = true → ∃ rank, s.Delivers now rank) ∧
      ∀ rank, s.Delivers now rank → Owed seedsSinceDrop (s.log rank) ∧
          ¬Evidence seedsSinceDrop ((s.step xxh3_64 (.take now)).log rank) := by
  have accounted : s.Accounted := by
    refine reached.invariant ?_ fun s call accounted ticks => accounted.step xxh3_64 ticks
    rintro s ⟨blockSize, rfl⟩ rank
    exact Accounts.new
  refine ⟨delivers_of_takeFlushRequest, fun rank delivers => ⟨?_, ?_⟩⟩
  · refine (accounted rank).owed ?_
    exact (Bool.and_eq_true_iff.mp delivers).1
  · unfold Delivers at delivers
    simp only [Watched.step, delivers]
    rintro (_ | ⟨⟨⟩, _⟩)

def orphanedStore : Event UInt64 UInt32 := .stored [1] (some 9) [1, 2] none

def idleWorker : Watched := ⟨.new 2, fun _ => []⟩

theorem dead_chain_owed :
    ∃ rank, Owed seedsSinceDrop
      ((idleWorker.step rollingHash (.batch 0 [orphanedStore] ⟨0, 0⟩)).log rank) := by
  have reached : Reaches Start (step rollingHash) Ticks
      (idleWorker.step rollingHash (.batch 0 [orphanedStore] ⟨0, 0⟩)) :=
    .next (Call.batch 0 [orphanedStore] ⟨0, 0⟩) (.start ⟨2, rfl⟩) trivial
  obtain ⟨asked, owed⟩ := flush_only_when_owed reached fun _ => 0
  obtain ⟨rank, delivers⟩ := asked (by decide +kernel)
  exact ⟨rank, (owed rank delivers).1⟩

/-- A seed, the bucket's drop of the rank a moment later and one orphaned batch
within the second: the request is handed over although the seed is younger than
the window. -/
theorem dropped_seed_not_counted :
    let calls : List Call := [.seed 0 [7] 0, .drop 0, .batch 0 [orphanedStore] ⟨10 ^ 9, 10 ^ 9⟩]
    let s := calls.foldl (step rollingHash) idleWorker
    Start idleWorker ∧ (s.worker.takeFlushRequest fun _ => 10 ^ 9).1 = true ∧
      ∀ rank, ¬Owed seedsEver (s.log rank) := by
  refine ⟨⟨2, rfl⟩, by decide +kernel, fun rank owed => ?_⟩
  have log : ([.seed 0 [7] 0, .drop 0, .batch 0 [orphanedStore] ⟨10 ^ 9, 10 ^ 9⟩].foldl
      (step rollingHash) idleWorker).log rank =
        if rank = 0 then [.batch 1 0 (10 ^ 9), .drop, .seed 0] else [] := by
    by_cases same : rank = 0
    · subst same
      decide +kernel
    · simp [step, same, idleWorker]
  have evidence := owed.evidence
  rw [log] at evidence
  split_ifs at evidence with same
  · rcases evidence with ⟨_, uncovered⟩ | ⟨_, before⟩
    · exact absurd (uncovered 0 (by decide)) (by decide)
    · rcases before with _ | ⟨_, before⟩
      rcases before with _ | ⟨⟨⟩, _⟩
  · cases evidence

end Watched
end Infera.Router
