import Infera.Kvd.GeometryChange

/-! A long region of several pools, each a tablespace with its own slot size. A
block goes to the smallest pool it fits in and is first dropped from the others;
a lookup takes the first pool that answers. Next to the pools runs what was last
put under each composite: no composite is in two pools, and a pool that has one
has the block last put. The drop comes before the chosen pool has accepted. -/

namespace Infera.Kvd
open TablespaceLongRegion List

structure MultiPoolTablespaceLongRegion where
  started : Bool
  /-- In ascending order of slot size. -/
  pools : List TablespaceLongRegion

structure PoolPut where
  clk : Clock
  c : Composite
  value : Bytes
  retention : Retention
  metadata : Metadata

inductive PoolOp where
  | put (w : PoolPut)
  | getBytes (clk : Clock) (c : Composite)
  | remove (c : Composite)
  | clear
  | clearNamespace (model compatKey : String)

/-- The pool's own `put`; its container writes succeed. -/
abbrev TablespaceLongRegion.write (pool : TablespaceLongRegion) (w : PoolPut) :
    TablespaceLongRegion × Except PyErr (Bool × Option String) :=
  pool.put w.clk w.c w.value w.retention w.metadata none

namespace MultiPoolTablespaceLongRegion

def lookup (clk : Clock) (c : Composite) :
    List TablespaceLongRegion → List TablespaceLongRegion × Option Bytes
  | [] => ([], none)
  | pool :: rest =>
    match pool.getBytes clk c with
    | (pool', some value) => (pool' :: rest, some value)
    | (pool', none) => (pool' :: (lookup clk c rest).1, (lookup clk c rest).2)

def dropFrom (c : Composite) (pools : List TablespaceLongRegion) : List TablespaceLongRegion :=
  pools.map fun pool => (pool.remove c).1

def refused : Except PyErr (Bool × Option String) → Bool
  | .ok (false, _) => true
  | _ => false

variable (m : MultiPoolTablespaceLongRegion)

def getBytes (clk : Clock) (c : Composite) : MultiPoolTablespaceLongRegion × Option Bytes :=
  ({ m with pools := (lookup clk c m.pools).1 }, (lookup clk c m.pools).2)

/-- The pools too small for a block of this size, and the others. -/
def route (size : Nat) : List TablespaceLongRegion × List TablespaceLongRegion :=
  m.pools.span fun pool => pool.cfg.slotBytes < size

def put (w : PoolPut) : MultiPoolTablespaceLongRegion × Except PyErr (Bool × Option String) :=
  if m.started = false then (m, .ok (false, some "region_not_started"))
  else
    match m.route w.value.length with
    | (_, []) =>
      let biggest := (m.pools.getLast?.map (·.cfg.slotBytes)).getD 0
      (m, .ok (false, some ("value_exceeds_largest_pool (" ++ toString w.value.length ++ " > " ++
        toString biggest ++ "); add a larger --tablespace-pools entry to host this size")))
    | (smaller, chosen :: larger) =>
      ({ m with pools := dropFrom w.c smaller ++ (chosen.write w).1 :: dropFrom w.c larger },
        (chosen.write w).2)

def remove (c : Composite) : MultiPoolTablespaceLongRegion × Bool :=
  ({ m with pools := dropFrom c m.pools }, m.pools.any fun pool => (pool.remove c).2)

def clear : MultiPoolTablespaceLongRegion × Nat :=
  ({ m with pools := m.pools.map (·.clear.1) }, (m.pools.map (·.clear.2)).sum)

def clearNamespace (model compatKey : String) : MultiPoolTablespaceLongRegion :=
  { m with pools := m.pools.map (·.clearNamespace model compatKey) }

/-- The pools' blocks under a composite. -/
def copies (c : Composite) (pools : List TablespaceLongRegion) : List Bytes :=
  pools.flatMap fun pool => (pool.held c).toList

/-- If a block of this size goes to a pool, no other pool has the composite. -/
def Home (c : Composite) (size : Nat) : Prop :=
  (m.route size).2 ≠ [] → ∀ pool ∈ (m.route size).1 ++ (m.route size).2.tail, pool.getEntry c = none

structure Coherent (latest : Composite → Option Bytes) : Prop where
  unique : ∀ c, (copies c m.pools).length ≤ 1
  current : ∀ clk c value, (m.getBytes clk c).2 = some value → latest c = some value
  /-- A refused put leaves the block readable. -/
  kept : ∀ w, m.Home w.c w.value.length → refused (m.put w).2 = true →
    ∀ clk, ((m.put w).1.getBytes clk w.c).2 = (m.getBytes clk w.c).2

end MultiPoolTablespaceLongRegion

/-- The region and the block last put under each composite, refused puts apart. -/
structure PoolRun where
  region : MultiPoolTablespaceLongRegion
  latest : Composite → Option Bytes

namespace PoolRun

/-- The pools have been started over empty directories. -/
def Start (s : PoolRun) : Prop :=
  ∃ specs : List TablespaceConfig, specs ≠ [] ∧ specs.Pairwise (·.slotBytes < ·.slotBytes) ∧
    s = ⟨⟨true, specs.map blank⟩, fun _ => none⟩

def step (s : PoolRun) : PoolOp → PoolRun
  | .put w =>
    ⟨(s.region.put w).1, if MultiPoolTablespaceLongRegion.refused (s.region.put w).2 then s.latest
      else Function.update s.latest w.c (some w.value)⟩
  | .getBytes clk c => { s with region := (s.region.getBytes clk c).1 }
  | .remove c => { s with region := (s.region.remove c).1 }
  | .clear => { s with region := s.region.clear.1 }
  | .clearNamespace model compatKey => { s with region := s.region.clearNamespace model compatKey }

end PoolRun

namespace MultiPoolTablespaceLongRegion
variable {m : MultiPoolTablespaceLongRegion} {c : Composite}
  {latest : Composite → Option Bytes} {w : PoolPut}
  {pools : List TablespaceLongRegion} {f : TablespaceLongRegion → TablespaceLongRegion}

structure Kept (latest : Composite → Option Bytes) (pools : List TablespaceLongRegion) : Prop where
  valid : ∀ pool ∈ pools, pool.Valid
  below : ∀ c, (copies c pools).Sublist (latest c).toList

theorem toList_sublist {before after : Option Bytes} (kept : KeptOrDropped before after) :
    after.toList.Sublist before.toList := by
  rcases kept with rfl | rfl
  · exact .refl _
  · exact nil_sublist _

theorem copies_map_sublist (kept : ∀ pool, KeptOrDropped (pool.held c) ((f pool).held c))
    (pools : List TablespaceLongRegion) : (copies c (pools.map f)).Sublist (copies c pools) := by
  induction pools with
  | nil => exact .slnil
  | cons pool rest ih => exact (toList_sublist (kept pool)).append ih

theorem Kept.map (kept : Kept latest pools) (valid : ∀ pool, pool.Valid → (f pool).Valid)
    (drops : ∀ pool c, KeptOrDropped (pool.held c) ((f pool).held c)) :
    Kept latest (pools.map f) where
  valid := forall_mem_map.mpr fun pool mem => valid pool (kept.valid pool mem)
  below c := (copies_map_sublist (fun pool => drops pool c) pools).trans (kept.below c)

theorem remove_drops (c : Composite) (pool : TablespaceLongRegion) (c' : Composite) :
    KeptOrDropped (pool.held c') ((pool.remove c).1.held c') := by
  rw [remove_held]
  exact ite_eq_or_eq _ _ _ |>.symm

theorem copies_dropFrom (c : Composite) (pools : List TablespaceLongRegion) :
    copies c (dropFrom c pools) = [] := by
  simp [copies, dropFrom, remove_held]

theorem lookup_kept (clk : Clock) (c : Composite) (valid : ∀ pool ∈ pools, pool.Valid) :
    (∀ pool ∈ (lookup clk c pools).1, pool.Valid) ∧
      ∀ c', copies c' (lookup clk c pools).1 = copies c' pools := by
  induction pools with
  | nil => exact ⟨valid, fun _ => rfl⟩
  | cons pool rest ih =>
    obtain ⟨own, others⟩ := forall_mem_cons.mp valid
    obtain ⟨valid', same⟩ := ih others
    obtain ⟨access, touched⟩ := pool.getBytes_touched clk c
    have stays : ∀ c', ((pool.getBytes clk c).1.held c').toList = (pool.held c').toList :=
      fun c' => congrArg Option.toList (touched.held c')
    have own' := touched.valid own
    rw [lookup]
    generalize pool.getBytes clk c = answer at stays own'
    rcases answer with ⟨pool', _ | value⟩
    · exact ⟨forall_mem_cons.mpr ⟨own', valid'⟩, fun c' =>
        congrArg₂ (· ++ ·) (stays c') (same c')⟩
    · exact ⟨forall_mem_cons.mpr ⟨own', others⟩, fun c' => congrArg (· ++ _) (stays c')⟩

theorem lookup_snd (clk : Clock) (c : Composite) (pools : List TablespaceLongRegion) :
    (lookup clk c pools).2 = pools.findSome? fun pool => (pool.getBytes clk c).2 := by
  induction pools with
  | nil => rfl
  | cons pool rest ih =>
    rw [lookup, List.findSome?_cons]
    rcases pool.getBytes clk c with ⟨pool', _ | value⟩
    · exact ih
    · rfl

theorem put_cases (m : MultiPoolTablespaceLongRegion) (w : PoolPut) :
    (∃ reason, m.put w = (m, .ok (false, some reason))) ∨
      ∃ smaller chosen larger, m.route w.value.length = (smaller, chosen :: larger) ∧
        m.pools = smaller ++ chosen :: larger ∧ m.put w =
          ({ m with pools := dropFrom w.c smaller ++ (chosen.write w).1 :: dropFrom w.c larger },
            (chosen.write w).2) := by
  unfold put
  split_ifs
  · exact .inl ⟨_, rfl⟩
  split
  · exact .inl ⟨_, rfl⟩
  · rename_i smaller chosen larger routed
    refine .inr ⟨smaller, chosen, larger, routed, ?_, rfl⟩
    rw [route, span_eq_takeWhile_dropWhile] at routed
    obtain ⟨rfl, dropped⟩ := Prod.mk.inj routed
    rw [← dropped, takeWhile_append_dropWhile]

theorem Kept.put (kept : Kept latest m.pools) (w : PoolPut) :
    Kept (if refused (m.put w).2 then latest else Function.update latest w.c (some w.value))
      (m.put w).1.pools := by
  obtain ⟨reason, same⟩ | ⟨smaller, chosen, larger, -, whole, moved⟩ := m.put_cases w
  · rw [same]
    exact kept
  obtain ⟨valid, below⟩ := kept
  simp only [whole, forall_mem_append, forall_mem_cons] at valid
  simp only [whole, copies, flatMap_append] at below
  obtain ⟨smallerValid, chosenValid, largerValid⟩ := valid
  obtain ⟨valid', others, own⟩ := put_effect w.clk w.c w.value w.retention chosenValid w.metadata
  rw [moved]
  constructor
  · rw [forall_mem_append, forall_mem_cons]
    exact ⟨forall_mem_map.mpr fun pool mem => remove_valid (smallerValid pool mem) w.c, valid',
      forall_mem_map.mpr fun pool mem => remove_valid (largerValid pool mem) w.c⟩
  intro c
  rw [copies, flatMap_append, flatMap_cons]
  by_cases same : c = w.c
  · subst same
    have gone := copies_dropFrom w.c
    unfold copies at gone
    rw [gone, gone, append_nil]
    rcases own with ⟨⟨reason, answer⟩, stays⟩ | ⟨answer, stored⟩
    · rw [answer]
      refine (toList_sublist stays).trans (List.Sublist.trans ?_ (below w.c))
      exact (sublist_append_left _ _).trans (sublist_append_right _ _)
    · have accepted : refused (chosen.write w).2 = false := by
        rcases answer with ⟨reason, answer⟩ | answer <;> rw [answer] <;> rfl
      rw [accepted, stored]
      simp
  · have smallerDrops := copies_map_sublist (fun pool => remove_drops w.c pool c) smaller
    have largerDrops := copies_map_sublist (fun pool => remove_drops w.c pool c) larger
    have shrunk := smallerDrops.append ((toList_sublist (others c same)).append largerDrops)
    split_ifs
    · exact shrunk.trans (below c)
    · rw [Function.update_of_ne same]
      exact shrunk.trans (below c)

theorem Kept.step {s : PoolRun} (kept : Kept s.latest s.region.pools) (op : PoolOp) :
    Kept (s.step op).latest (s.step op).region.pools := by
  cases op with
  | put w => exact kept.put w
  | getBytes clk c =>
    obtain ⟨valid, same⟩ := lookup_kept clk c kept.valid
    exact ⟨valid, fun c' => (same c').symm ▸ kept.below c'⟩
  | remove c => exact kept.map (fun pool valid => remove_valid valid c) (remove_drops c)
  | clear =>
    exact kept.map (fun pool valid => emptied_valid valid.started _) fun pool c => .inr rfl
  | clearNamespace model compatKey =>
    refine kept.map (fun pool valid => removes_valid _ valid) fun pool c => ?_
    rw [clearNamespace_held]
    exact ite_eq_or_eq _ _ _ |>.symm

/-- A refused put leaves what its pool answers for the composite. -/
theorem getBytes_of_refused {pool : TablespaceLongRegion}
    (no : refused (pool.write w).2 = true) (clk : Clock) :
    ((pool.write w).1.getBytes clk w.c).2 = (pool.getBytes clk w.c).2 := by
  unfold TablespaceLongRegion.write at no ⊢
  obtain ⟨reason, same | ⟨absent, full⟩⟩ | ⟨base, e, allocator, used, seat, wrote⟩ :=
    pool.put_cases w.clk w.c w.value w.retention w.metadata
  · rw [same]
  · have gone : (pool.roomFor w.value.length).held w.c = none := by
      have kept := (pool.roomFor_thinned w.value.length).held w.c
      rw [held, absent] at kept
      exact kept.none
    rw [held, Option.map_eq_none_iff] at gone
    rw [full]
    simp [TablespaceLongRegion.getBytes, gone, absent]
  · rw [wrote, journalPut_eq] at no
    split_ifs at no <;> cases no

theorem dropFrom_of_absent (absent : ∀ pool ∈ pools, pool.getEntry c = none) :
    dropFrom c pools = pools :=
  (map_congr_left fun pool mem => remove_of_absent (absent pool mem)).trans (map_id pools)

theorem getBytes_of_home (home : m.Home w.c w.value.length) (no : refused (m.put w).2 = true)
    (clk : Clock) : ((m.put w).1.getBytes clk w.c).2 = (m.getBytes clk w.c).2 := by
  obtain ⟨reason, same⟩ | ⟨smaller, chosen, larger, routed, whole, moved⟩ := m.put_cases w
  · rw [same]
  rw [Home, routed, forall_mem_append] at home
  rw [moved] at no ⊢
  obtain ⟨first, last⟩ : (∀ pool ∈ smaller, pool.getEntry w.c = none) ∧
    ∀ pool ∈ larger, pool.getEntry w.c = none := home (cons_ne_nil _ _)
  simp [getBytes, lookup_snd, dropFrom_of_absent first, dropFrom_of_absent last, whole,
    List.findSome?_cons, getBytes_of_refused no]

theorem pools_coherent {s : PoolRun}
    (reached : Reaches PoolRun.Start PoolRun.step (fun _ _ => True) s) :
    s.region.Coherent s.latest := by
  have base : ∀ s : PoolRun, s.Start → Kept s.latest s.region.pools := by
    rintro s ⟨specs, -, -, rfl⟩
    exact ⟨forall_mem_map.mpr fun cfg _ => valid_blank cfg, by simp [copies, held_blank]⟩
  have kept := Reaches.invariant base (fun _ op kept _ => kept.step op) reached
  constructor
  · intro c
    have short := (kept.below c).length_le
    cases latest : s.latest c <;> simp_all
  · intro clk c value hit
    rw [getBytes, lookup_snd] at hit
    obtain ⟨pool, mem, answer⟩ := exists_of_findSome?_eq_some hit
    have copy : value ∈ copies c s.region.pools :=
      mem_flatMap.mpr ⟨pool, mem, Option.mem_toList.mpr (getBytes_held answer)⟩
    exact Option.mem_toList.mp ((kept.below c).subset copy)
  · exact fun w home no => getBytes_of_home home no

def twoPools : PoolRun := ⟨⟨true, [fourByteSlots 3, eightByteSlots].map blank⟩, fun _ => none⟩

def putBlock (value : Bytes) (retention : Retention) : PoolPut :=
  ⟨fun _ => 0, ⟨"m", "", [1]⟩, value, retention, .empty⟩

/-- A block outgrows its pool. -/
theorem moved_block_coherent :
    let s := (twoPools.step (.put (putBlock [1, 2, 3] .long))).step
      (.put (putBlock [1, 2, 3, 4, 5] .long))
    s.region.Coherent s.latest ∧
      (s.region.getBytes (fun _ => 1) ⟨"m", "", [1]⟩).2 = some [1, 2, 3, 4, 5] := by
  have start : twoPools.Start := ⟨[fourByteSlots 3, eightByteSlots], by simp, by decide, rfl⟩
  exact ⟨pools_coherent (.next _ (.next _ (.start start) trivial) trivial), by decide +kernel⟩

/-- The larger pool refuses the block, and the smaller one has dropped the one before. -/
theorem refused_put_drops :
    let m := (twoPools.step (.put (putBlock [1, 2, 3] .long))).region
    let result := m.put (putBlock [1, 2, 3, 4, 5] .short)
    (m.getBytes (fun _ => 1) ⟨"m", "", [1]⟩).2 = some [1, 2, 3] ∧ refused result.2 = true ∧
      (result.1.getBytes (fun _ => 1) ⟨"m", "", [1]⟩).2 = none := by
  decide +kernel

end MultiPoolTablespaceLongRegion
end Infera.Kvd
