import Infera.Dict

/-! Resource pools of the scheduler. A renewable pool lends units and gets them
back whole; a consumable one settles a reservation at what was spent. Amounts
are exact rationals. `Balanced` compares what each renewable pool has lent with
what is due to it, so a lease that is given back twice shows up even where the
clamp at the capacity hides it. -/

namespace Infera.TaskGraph
open Function List

inductive PoolKind
  | renewable
  | consumable
  deriving DecidableEq

structure ResourceMgr where
  kind : PoolKind
  capacity : ℚ
  available : ℚ
  /-- What was consumed for good; a renewable pool leaves it at zero. -/
  spent : ℚ

namespace ResourceMgr

def fresh (kind : PoolKind) (capacity : ℚ) : ResourceMgr := ⟨kind, capacity, capacity, 0⟩

variable (pool : ResourceMgr) (amount : ℚ)

def canAfford : Bool := 0 ≤ amount ∧ amount ≤ pool.available

def take : Option ResourceMgr :=
  if pool.canAfford amount then some { pool with available := pool.available - amount } else none

/-- Release a reservation of `amount`, of which `actual` was consumed. -/
def giveBack (actual : Option ℚ) : Option ResourceMgr :=
  if amount < 0 then none
  else match pool.kind with
    | .renewable => some { pool with available := min pool.capacity (pool.available + amount) }
    | .consumable =>
      let spent := actual.elim amount fun actual => min (max actual 0) amount
      some { pool with
        available := min pool.capacity (pool.available + (amount - spent))
        spent := min pool.capacity (pool.spent + spent) }

/-- Spend that was never reserved. Only a consumable can record it. -/
def charge : Option ResourceMgr :=
  if pool.kind = .consumable ∧ 0 ≤ amount then
    some { pool with available := pool.available - amount, spent := pool.spent + amount }
  else none

/-- No lease survives a restart; a consumable keeps what its record says was spent. -/
def resumeSystem (record : Option ℚ) : ResourceMgr :=
  match pool.kind with
  | .renewable => { pool with available := pool.capacity }
  | .consumable =>
    let spent := record.getD 0
    { pool with spent, available := max 0 (pool.capacity - spent) }

variable {pool pool' : ResourceMgr}

theorem kind_take {amount : ℚ} (taken : pool.take amount = some pool') :
    pool'.kind = pool.kind := by
  unfold take at taken
  split_ifs at taken
  rw [← Option.some.inj taken]

theorem kind_giveBack {amount : ℚ} {actual : Option ℚ}
    (given : pool.giveBack amount actual = some pool') : pool'.kind = pool.kind := by
  unfold giveBack at given
  split_ifs at given
  cases kind : pool.kind <;> rw [kind] at given <;> rw [← Option.some.inj given]

end ResourceMgr

/-- The registered pools, and the durable record of each consumable's spend. -/
structure Resources where
  pools : Dict String ResourceMgr
  records : Dict String ℚ

namespace Resources
variable {amounts : List (String × ℚ)} {name : String} {amount : ℚ} (r : Resources)
  (actual : String → Option ℚ)

/-- A call that raises leaves the pool as it was. -/
def settle (name : String) (settled : Option ResourceMgr) : Resources :=
  match settled with
  | none => r
  | some pool =>
    { pools := r.pools.set name pool
      records := if pool.kind = .consumable then r.records.set name pool.spent else r.records }

section
variable (r : Resources) (name : String) (amount : ℚ)

def giveBack (actual : Option ℚ) : Resources :=
  r.settle name ((r.pools.get? name).bind (·.giveBack amount actual))

def charge : Resources :=
  r.settle name ((r.pools.get? name).bind (·.charge amount))

end

/-- Every lease of a reservation is given back; one pool that raises does not strand the rest. -/
def giveBackAll (amounts : List (String × ℚ)) : Resources :=
  amounts.foldl (fun r lease => r.giveBack lease.1 lease.2 (actual lease.1)) r

/-- Take the amounts in order, and whether one of the pools raised on the way. -/
def takeAll (r : Resources) : List (String × ℚ) → Resources × Bool
  | [] => (r, false)
  | (name, amount) :: rest =>
    match (r.pools.get? name).bind (·.take amount) with
    | none => (r, true)
    | some pool => takeAll { r with pools := r.pools.set name pool } rest

def knows (amounts : List (String × ℚ)) : Bool :=
  amounts.all fun lease => r.pools.contains lease.1

def canAfford (r : Resources) (amounts : List (String × ℚ)) : Bool :=
  amounts.all fun lease => (r.pools.get? lease.1).any (·.canAfford lease.2)

/-- The pools of a new process, under the capacities the operator gives them now. -/
def resumeSystem (r : Resources) (capacities : Dict String (PoolKind × ℚ)) : Resources where
  pools := capacities.mapValues fun name (kind, capacity) =>
    (ResourceMgr.fresh kind capacity).resumeSystem (r.records.get? name)
  records := r.records

/-- Each renewable pool has lent exactly what is due to it, and no more than it has. -/
def Balanced (due : String → ℚ) : Prop :=
  ∀ name pool, r.pools.get? name = some pool → pool.kind = .renewable →
    pool.capacity - pool.available = due name ∧ (due name = 0 ∨ due name ≤ pool.capacity)

variable {r : Resources} {due : String → ℚ}

section
variable (balanced : r.Balanced due)
include balanced

theorem Balanced.set {pool : ResourceMgr} (own : pool.kind = .renewable →
      pool.capacity - pool.available = amount ∧ (amount = 0 ∨ amount ≤ pool.capacity))
    {r' : Resources} (pools : r'.pools = r.pools.set name pool) :
    r'.Balanced (update due name amount) := by
  intro other found listed renewable
  rcases Dict.get?_set_cases (pools ▸ listed) with ⟨rfl, rfl⟩ | ⟨same, listed⟩
  · rw [update_self]
    exact own renewable
  · rw [update_of_ne same]
    exact balanced other found listed renewable

theorem Balanced.absent (amount : ℚ)
    (absent : ∀ pool, r.pools.get? name = some pool → pool.kind ≠ .renewable) :
    r.Balanced (update due name amount) := by
  intro other pool listed renewable
  have differ : other ≠ name := fun same => absent pool (same ▸ listed) renewable
  rw [update_of_ne differ]
  exact balanced other pool listed renewable

theorem Balanced.congr {due' : String → ℚ}
    (same : ∀ name, due' name = due name) : r.Balanced due' := by
  rwa [funext same]

omit balanced in
theorem pools_settle (r : Resources) (name : String) (pool : ResourceMgr) :
    (r.settle name (some pool)).pools = r.pools.set name pool := rfl

theorem Balanced.giveBack (nonneg : 0 ≤ amount) (owed : amount ≤ due name) (actual : Option ℚ) :
    (r.giveBack name amount actual).Balanced (update due name (due name - amount)) := by
  unfold Resources.giveBack
  cases listed : r.pools.get? name with
  | none => exact balanced.absent _ (by simp [listed])
  | some pool =>
    have given : ∃ pool', pool.giveBack amount actual = some pool' := by
      unfold ResourceMgr.giveBack
      rw [if_neg (not_lt.mpr nonneg)]
      cases pool.kind <;> exact ⟨_, rfl⟩
    obtain ⟨pool', given⟩ := given
    rw [Option.bind_some, given]
    refine balanced.set (fun renewable => ?_) (pools_settle r name pool')
    have kind : pool.kind = .renewable := (ResourceMgr.kind_giveBack given).symm.trans renewable
    obtain ⟨lent, fits⟩ := balanced name pool listed kind
    unfold ResourceMgr.giveBack at given
    rw [if_neg (not_lt.mpr nonneg), kind] at given
    rw [← Option.some.inj given]
    rw [min_eq_right (by linarith)]
    refine ⟨by linarith, ?_⟩
    rcases fits with none | fits
    · exact .inl (by linarith)
    · exact .inr (by linarith)

theorem Balanced.charge (name : String) (amount : ℚ) : (r.charge name amount).Balanced due := by
  unfold Resources.charge
  cases listed : r.pools.get? name with
  | none => exact balanced
  | some pool =>
    rw [Option.bind_some]
    unfold ResourceMgr.charge
    split_ifs with consumable
    · have other : (r.settle name (some { pool with
            available := pool.available - amount, spent := pool.spent + amount })).Balanced
          (update due name (due name)) :=
        balanced.set (fun renewable => by simp [consumable.1] at renewable) (pools_settle ..)
      rwa [update_eq_self] at other
    · exact balanced

theorem Balanced.take
    (listed : r.pools.get? name = some pool) (taken : pool.take amount = some pool') :
    ({ r with pools := r.pools.set name pool' } : Resources).Balanced
      (update due name (due name + amount)) := by
  refine balanced.set (fun renewable => ?_) rfl
  obtain ⟨lent, -⟩ := balanced name pool listed ((ResourceMgr.kind_take taken).symm.trans renewable)
  unfold ResourceMgr.take ResourceMgr.canAfford at taken
  split_ifs at taken with affordable
  simp only [Bool.decide_and, Bool.and_eq_true, decide_eq_true_eq] at affordable
  rw [← Option.some.inj taken]
  exact ⟨by linarith, .inr (by linarith [affordable.2])⟩

end

def amountOf (amounts : List (String × ℚ)) (name : String) : ℚ := (amounts.lookup name).getD 0

theorem amountOf_cons (name : String) (amount : ℚ) (rest : List (String × ℚ)) (other : String) :
    amountOf ((name, amount) :: rest) other =
      if other = name then amount else amountOf rest other := by
  by_cases same : other = name
  · simp [amountOf, same]
  · have differ : (other == name) = false := by simpa using same
    simp [amountOf, lookup_cons, differ, same]

theorem amountOf_of_not_mem (absent : name ∉ amounts.map Prod.fst) : amountOf amounts name = 0 := by
  have missing : amounts.lookup name = none := by
    rw [lookup_eq_none_iff]
    rintro ⟨other, amount⟩ mem
    have : name ≠ other := fun same => absent (mem_map.mpr ⟨_, mem, same.symm⟩)
    simpa using this
  rw [amountOf, missing, Option.getD_none]

theorem amountOf_nonneg
    (nonneg : ∀ lease ∈ amounts, 0 ≤ lease.2) (name : String) : 0 ≤ amountOf amounts name := by
  induction amounts with
  | nil => exact le_refl 0
  | cons lease rest ih =>
    rw [amountOf_cons]
    split_ifs
    · exact nonneg lease mem_cons_self
    · exact ih fun lease mem => nonneg lease (.tail _ mem)

section
variable (nodup : (amounts.map Prod.fst).Nodup)
include nodup

theorem Balanced.giveBackAll (nonneg : ∀ lease ∈ amounts, 0 ≤ lease.2) :
    ∀ {r : Resources} {due : String → ℚ}, r.Balanced due → (∀ name, amountOf amounts name ≤ due name) →
      (r.giveBackAll actual amounts).Balanced fun name => due name - amountOf amounts name := by
  induction amounts with
  | nil =>
    intro r due balanced _
    exact balanced.congr fun name => by simp [amountOf]
  | cons lease rest ih =>
    obtain ⟨name, amount⟩ := lease
    intro r due balanced owed
    rw [map_cons, nodup_cons] at nodup
    have own : amount ≤ due name := by simpa [amountOf_cons] using owed name
    have elsewhere := amountOf_of_not_mem nodup.1
    have amountNonneg : 0 ≤ amount := nonneg _ mem_cons_self
    have given := ih nodup.2 (fun lease mem => nonneg lease (.tail _ mem))
      (balanced.giveBack amountNonneg own (actual name)) fun other => by
        by_cases same : other = name
        · subst same
          rw [update_self]
          linarith
        · rw [update_of_ne same]
          simpa [amountOf_cons, same] using owed other
    refine given.congr fun other => ?_
    rw [amountOf_cons]
    by_cases same : other = name
    · subst same
      simp [elsewhere]
    · simp [same]

theorem Balanced.takeAll :
    ∀ {r : Resources} {due : String → ℚ}, r.Balanced due → (r.takeAll amounts).2 = false →
      (r.takeAll amounts).1.Balanced fun name => due name + amountOf amounts name := by
  induction amounts with
  | nil =>
    intro r due balanced _
    exact balanced.congr fun name => by simp [amountOf]
  | cons lease rest ih =>
    obtain ⟨name, amount⟩ := lease
    intro r due balanced taken
    rw [map_cons, nodup_cons] at nodup
    unfold Resources.takeAll at taken ⊢
    cases listed : r.pools.get? name with
    | none => simp [listed] at taken
    | some pool =>
      rw [listed] at taken
      rw [Option.bind_some] at taken ⊢
      cases takes : pool.take amount with
      | none => simp [takes] at taken
      | some pool' =>
        rw [takes] at taken
        have given := ih nodup.2 (balanced.take listed takes) taken
        refine given.congr fun other => ?_
        rw [amountOf_cons]
        by_cases same : other = name
        · subst same
          simp [amountOf_of_not_mem nodup.1]
        · simp [same]

theorem takeAll_of_canAfford :
    ∀ {r : Resources}, r.canAfford amounts = true → (r.takeAll amounts).2 = false := by
  induction amounts with
  | nil => intro r _; rfl
  | cons lease rest ih =>
    obtain ⟨name, amount⟩ := lease
    intro r affordable
    rw [map_cons, nodup_cons] at nodup
    simp only [canAfford, all_cons, Bool.and_eq_true] at affordable
    unfold Resources.takeAll
    cases listed : r.pools.get? name with
    | none => simp [listed] at affordable
    | some pool =>
      have takes : pool.take amount = some { pool with available := pool.available - amount } :=
        if_pos (by simpa [listed] using affordable.1)
      rw [Option.bind_some, takes]
      refine ih nodup.2 ?_
      rw [canAfford, all_eq_true]
      intro lease mem
      have other : lease.1 ≠ name := fun same => nodup.1 (mem_map.mpr ⟨lease, mem, same⟩)
      rw [Dict.get?_set_of_ne other]
      exact all_eq_true.mp affordable.2 lease mem

end

theorem balanced_resumeSystem (capacities : Dict String (PoolKind × ℚ)) :
    (r.resumeSystem capacities).Balanced fun _ => 0 := by
  intro name pool listed renewable
  rw [resumeSystem, Dict.get?_mapValues, Option.map_eq_some_iff] at listed
  obtain ⟨⟨kind, capacity⟩, -, rfl⟩ := listed
  cases kind with
  | renewable => exact ⟨sub_self _, .inl rfl⟩
  | consumable => simp [ResourceMgr.resumeSystem, ResourceMgr.fresh] at renewable

end Resources
end Infera.TaskGraph
