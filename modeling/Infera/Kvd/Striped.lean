import Infera.Kvd.TablespaceLifecycle

/-! A region striped over shards. A block lives on the shard its key hashes to. A
batch is grouped by shard, each group is cut into at most as many chunks as a
shard has workers, and what the chunks read is put back by position. The reads
of all chunks interleave in any order; a read only moves an access time. The
executor of a region that was shut down takes no more work. -/

namespace Infera
open List

/-- Writes that agree with `target`, from a list that agrees with it where nothing is written. -/
theorem foldl_set_eq {ι β : Type*} {pos : ι → ℕ} {val : ι → β} {target : List β} {xs : List ι}
    (agree : ∀ x ∈ xs, target[pos x]? = some (val x)) {out : List β}
    (rest : ∀ i, (∃ x ∈ xs, pos x = i) ∨ out[i]? = target[i]?)
    (length : out.length = target.length) :
    xs.foldl (fun out x => out.set (pos x) (val x)) out = target := by
  induction xs generalizing out with
  | nil => exact ext_getElem? fun i => (rest i).resolve_left (by simp)
  | cons x xs ih =>
    rw [forall_mem_cons] at agree
    refine ih agree.2 (fun i => ?_) (by rw [length_set, length])
    rcases eq_or_ne (pos x) i with rfl | other
    · have inside := (List.getElem?_eq_some_iff.mp agree.1).1
      exact .inr (by rw [List.getElem?_set_self (length ▸ inside), agree.1])
    · rw [getElem?_set_ne other]
      exact (rest i).imp_left fun ⟨y, mem, same⟩ =>
        ⟨y, (mem_cons.mp mem).resolve_left (by rintro rfl; exact other same), same⟩

namespace Kvd

/-- A batch in at most `workers` chunks of one size, the last one shorter. -/
def chunks {α : Type} (workers : ℕ) (items : List α) : List (List α) :=
  let subs := min workers items.length
  let size := (items.length + subs - 1) / subs
  ((List.range subs).map fun i => (items.drop (i * size)).take size).filter (· ≠ [])

theorem flatten_slices {α : Type} (items : List α) (size n : ℕ) :
    ((List.range n).map fun i => (items.drop (i * size)).take size).flatten =
      items.take (n * size) := by
  induction n with
  | zero => simp
  | succ n ih => simp [range_succ, ih, Nat.succ_mul, take_add]

theorem flatten_chunks {α : Type} {workers : ℕ} (positive : 0 < workers) (items : List α) :
    (chunks workers items).flatten = items := by
  unfold chunks
  rw [flatten_filter_ne_nil, flatten_slices]
  refine take_of_length_le ?_
  cases items with
  | nil => simp
  | cons x items =>
    have subs : 0 < min workers (x :: items).length := lt_min positive (Nat.succ_pos _)
    generalize min workers (x :: items).length = n at subs
    have ceil := Nat.lt_mul_div_succ ((x :: items).length + n - 1) subs
    rw [Nat.mul_succ] at ceil
    omega

structure StripedLongRegion where
  n : ℕ
  positive : 0 < n
  shards : Fin n → TablespaceLongRegion
  workersPerShard : ℕ
  workers : 0 < workersPerShard
  started : Bool
  ownsExecutor : Bool
  /-- The executor was not shut down. -/
  accepts : Bool

namespace StripedLongRegion

def compositeBytes (c : Composite) : Bytes :=
  c.model.toList.flatMap String.utf8EncodeChar ++
    0 :: c.compatKey.toList.flatMap String.utf8EncodeChar ++ 0 :: c.key

variable (s : StripedLongRegion) (blake2b : Bytes → ℕ) (clk : ℕ → Clock) (cs : List Composite)
  (order : List (Fin s.n × ℕ × Composite))

def pickKey (c : Composite) : Fin s.n := ⟨blake2b (compositeBytes c) % s.n, Nat.mod_lt _ s.positive⟩

def getBytes (clk : Clock) (c : Composite) : StripedLongRegion × Option Bytes :=
  let (shard, found) := (s.shards (s.pickKey blake2b c)).getBytes clk c
  ({ s with shards := Function.update s.shards (s.pickKey blake2b c) shard }, found)

def getEntry (c : Composite) : Option TablespaceEntry :=
  (s.shards (s.pickKey blake2b c)).getEntry c

/-- What a shard raises is logged. -/
def shutdown : StripedLongRegion :=
  if s.started then
    { s with
      shards sid := (s.shards sid).shutdown.toOption.getD (s.shards sid)
      started := false
      accepts := s.accepts && !s.ownsExecutor }
  else s

def byShard : Dict (Fin s.n) (List (ℕ × Composite)) :=
  cs.zipIdx.foldl (fun d x => d.push (s.pickKey blake2b x.1) (x.2, x.1)) .empty

def futures : List (Fin s.n × List (ℕ × Composite)) :=
  (s.byShard blake2b cs).items.flatMap fun group =>
    (chunks s.workersPerShard group.2).map (group.1, ·)

def reads : List (Fin s.n × ℕ × Composite) :=
  (s.futures blake2b cs).flatMap fun future => future.2.map (future.1, ·)

/-- A worker reads the block at a position of the batch. -/
def read {n : ℕ} (st : (Fin n → TablespaceLongRegion) × List (Option Bytes))
    (x : Fin n × ℕ × Composite) : (Fin n → TablespaceLongRegion) × List (Option Bytes) :=
  let (shard, found) := (st.1 x.1).getBytes (clk x.2.1) x.2.2
  (Function.update st.1 x.1 shard, st.2.set x.2.1 found)

def stitch {β : Type} (out : List β) (chunk : List (ℕ × Composite)) (results : List β) : List β :=
  (chunk.zip results).foldl (fun out x => out.set x.1.1 x.2) out

/-- The reads are done in the given order, and then the futures are gathered. There is no result
where `submit` raises. -/
def getBytesBatch : StripedLongRegion × Option (List (Option Bytes)) :=
  if cs = [] then (s, some [])
  else if s.accepts = false then (s, none)
  else
    let blank := List.replicate cs.length none
    let done := order.foldl (read clk) (s.shards, blank)
    ({ s with shards := done.1 }, some <| (s.futures blake2b cs).foldl
      (fun out future => stitch out future.2 (future.2.map fun x => done.2.getD x.1 none)) blank)

def existsMany : Option (List Bool) :=
  if cs = [] then some []
  else if s.accepts = false then none
  else some <| (s.byShard blake2b cs).items.foldl
    (fun out group => stitch out group.2
      (group.2.map fun x => ((s.shards group.1).getEntry x.2).isSome))
    (List.replicate cs.length false)

/-- Each position once, with its key and the shard of its key. -/
def positions : List (Fin s.n × ℕ × Composite) :=
  cs.zipIdx.map fun x => (s.pickKey blake2b x.1, x.2, x.1)

variable {s blake2b clk cs}

theorem byShard_perm : (s.byShard blake2b cs).pairs.Perm (s.positions blake2b cs) := by
  have all := Dict.pairs_foldl_push (fun x => s.pickKey blake2b x.1) Prod.swap cs.zipIdx .empty
  rwa [show (Dict.empty : Dict (Fin s.n) (List (ℕ × Composite))).pairs = [] from rfl,
    append_nil] at all

theorem reads_perm : (s.reads blake2b cs).Perm (s.positions blake2b cs) := by
  have whole : s.reads blake2b cs = (s.byShard blake2b cs).pairs := by
    unfold reads futures Dict.pairs
    rw [flatMap_assoc]
    refine flatMap_congr fun group _ => ?_
    rw [flatMap_map]
    dsimp only
    rw [← map_flatMap, flatMap_id', flatten_chunks s.workers]
  exact whole ▸ byShard_perm

section
variable {β : Type} (value : Fin s.n → ℕ × Composite → β) {f : Composite → β} (blank : β)
  (agree : ∀ i c, cs[i]? = some c → value (s.pickKey blake2b c) (i, c) = f c)
include agree

theorem writes_eq {xs : List (Fin s.n × ℕ × Composite)} (cover : xs.Perm (s.positions blake2b cs)) :
    xs.foldl (fun out x => out.set x.2.1 (value x.1 x.2)) (List.replicate cs.length blank) =
      cs.map f := by
  have mem : ∀ x, x ∈ xs ↔ cs[x.2.1]? = some x.2.2 ∧ s.pickKey blake2b x.2.2 = x.1 := by
    rintro ⟨sid, i, c⟩
    simp [cover.mem_iff, positions, mem_zipIdx_iff_getElem?]
  refine foldl_set_eq (fun x listed => ?_) (fun i => ?_) (by simp)
  · obtain ⟨found, sid⟩ := (mem x).mp listed
    rw [getElem?_map, found, ← sid, Option.map_some, ← agree _ _ found]
  · by_cases inside : i < cs.length
    · exact .inl ⟨(s.pickKey blake2b cs[i], i, cs[i]), (mem _).mpr ⟨by simp, rfl⟩, rfl⟩
    · exact .inr (by simp [inside])

theorem stitch_eq_map {groups : List (Fin s.n × List (ℕ × Composite))}
    (cover : (groups.flatMap fun g => g.2.map (g.1, ·)).Perm (s.positions blake2b cs)) :
    groups.foldl (fun out g => stitch out g.2 (g.2.map (value g.1)))
      (List.replicate cs.length blank) = cs.map f := by
  rw [← writes_eq value blank agree cover, foldl_flatMap]
  simp [foldl_map, stitch, ← map_prod_left_eq_zip]

end

theorem touched_refl (r : TablespaceLongRegion) : r.Touched r fun _ e => e.lastAccess :=
  ⟨rfl, rfl, rfl, rfl, fun c => by simp⟩

theorem getBytes_of_touched {r r' : TablespaceLongRegion} {access}
    (touched : TablespaceLongRegion.Touched r r' access) (clk clk' : Clock) (c : Composite) :
    (r'.getBytes clk' c).2 = (r.getBytes clk c).2 := by
  unfold TablespaceLongRegion.getBytes
  rw [touched.entries c]
  cases r.entries.get? c with
  | none => rfl
  | some e => simp [touched.cfg, touched.started, touched.disk]

/-- Whatever was read before, a read answers as the first one would have. -/
theorem foldl_read {st : (Fin s.n → TablespaceLongRegion) × List (Option Bytes)}
    (value : Fin s.n → Composite → Option Bytes)
    (same : ∀ sid c clk, ((st.1 sid).getBytes clk c).2 = value sid c) :
    (order.foldl (read clk) st).2 =
      order.foldl (fun out x => out.set x.2.1 (value x.1 x.2.2)) st.2 := by
  induction order generalizing st with
  | nil => rfl
  | cons x order ih =>
    rw [foldl_cons, foldl_cons, ih fun sid c clk' => ?_]
    · rw [← same x.1 x.2.2 (clk x.2.1)]
      rfl
    obtain ⟨access, touched⟩ := (st.1 x.1).getBytes_touched (clk x.2.1) x.2.2
    dsimp only [read]
    by_cases own : sid = x.1
    · rw [own, Function.update_self, getBytes_of_touched touched clk', same]
    · rw [Function.update_of_ne own, same]

/-- The chunks have every position of a batch once, and a batch is answered as its keys would be,
one by one. -/
theorem batch_pointwise (s : StripedLongRegion) (accepts : s.accepts = true)
    (blake2b : Bytes → ℕ) (cs : List Composite) (order : List (Fin s.n × ℕ × Composite)) (all : order.Perm (s.reads blake2b cs))
    (clk : ℕ → Clock) (clk' : Clock) :
    ((s.reads blake2b cs).map fun x => x.2.1).Perm (List.range cs.length) ∧
      (s.getBytesBatch blake2b clk cs order).2 =
        some (cs.map fun c => (s.getBytes blake2b clk' c).2) ∧
      s.existsMany blake2b cs = some (cs.map fun c => (s.getEntry blake2b c).isSome) := by
  have once : ((s.reads blake2b cs).map fun x => x.2.1).Perm (List.range cs.length) := by
    refine (reads_perm.map _).trans (.of_eq ?_)
    rw [positions, map_map, range_eq_range']
    exact zipIdx_map_snd 0 cs
  have answered : (order.foldl (read clk) (s.shards, List.replicate cs.length none)).2 =
      cs.map fun c => (s.getBytes blake2b clk' c).2 := by
    rw [foldl_read order (fun sid c => ((s.shards sid).getBytes clk' c).2) fun sid c clk =>
      getBytes_of_touched (touched_refl _) clk' clk c]
    exact writes_eq (fun sid x => ((s.shards sid).getBytes clk' x.2).2) none (fun _ _ _ => rfl)
      (all.trans reads_perm)
  rcases eq_or_ne cs [] with rfl | some
  · exact ⟨once, rfl, rfl⟩
  unfold getBytesBatch existsMany
  rw [if_neg some, if_neg some, if_neg (by simp [accepts]), if_neg (by simp [accepts])]
  dsimp only
  rw [answered]
  refine ⟨once, congrArg _ (stitch_eq_map (fun _ x => (cs.map _).getD x.1 none) none
      (fun i c found => by simp [found]) reads_perm),
    congrArg _ (stitch_eq_map (fun sid x => ((s.shards sid).getEntry x.2).isSome) false
      (fun _ _ _ => rfl) byShard_perm)⟩

def twoShards : StripedLongRegion :=
  ⟨2, by decide, fun _ => TablespaceLongRegion.oneStored, 2, by decide, true, true, true⟩

def threeKeys : List Composite := [⟨"m", "", [1]⟩, ⟨"m", "", [2, 3]⟩, ⟨"m", "", [1]⟩]

theorem batch_of_three : (twoShards.getBytesBatch List.length (fun _ _ => 1) threeKeys
      (twoShards.reads List.length threeKeys).reverse).2 =
        some (threeKeys.map fun c => (twoShards.getBytes List.length (fun _ => 0) c).2) :=
  (batch_pointwise _ rfl _ _ _ (reverse_perm _) _ _).2.1

theorem batch_raises_after_shutdown :
    (twoShards.shutdown.getBytesBatch List.length (fun _ _ => 1) threeKeys
      (twoShards.shutdown.reads List.length threeKeys)).2 = none ∧
      twoShards.shutdown.existsMany List.length threeKeys = none :=
  ⟨rfl, rfl⟩

end StripedLongRegion
end Kvd
end Infera
