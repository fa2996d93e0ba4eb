import Infera.TaskGraph.Resource
import Infera.Runs

/-! The account of one consumable pool. Beside the pool stand the durable record
of its spend, the reservations that are out since the last restart, and the sum
of everything that was charged or settled. A settlement clamps the spend at the
capacity and a charge does not, so a settlement after an over-budget charge
lowers the spend; a restart forgets by how much a pool is over budget. -/

namespace Infera.TaskGraph
open ResourceMgr List

/-- What a settlement books: the actual consumption within the reservation. -/
def settled (amount : ℚ) (actual : Option ℚ) : ℚ :=
  actual.elim amount fun actual => min (max actual 0) amount

theorem settled_nonneg {amount : ℚ} (nonneg : 0 ≤ amount) (actual : Option ℚ) :
    0 ≤ settled amount actual := by
  cases actual with
  | none => exact nonneg
  | some actual => exact le_min (le_max_right ..) nonneg

structure Account where
  pool : ResourceMgr
  record : Option ℚ
  /-- Taken and not given back since the last restart. -/
  outstanding : List ℚ
  /-- All charges and settlements so far. -/
  booked : ℚ
  /-- Nothing was done since the last restart. -/
  restarted : Bool

namespace Account
variable {amount : ℚ} (a : Account)

inductive Op
  | take (amount : ℚ)
  | giveBack (amount : ℚ) (actual : Option ℚ)
  | charge (amount : ℚ)
  | restart

/-- A call that raises leaves the account as it was; only settlements and charges are durable. -/
def step : Op → Account
  | .take amount => match a.pool.take amount with
    | none => a
    | some pool => { a with pool, outstanding := amount :: a.outstanding, restarted := false }
  | .giveBack amount actual => match a.pool.giveBack amount actual with
    | none => a
    | some pool => { a with
        pool
        record := some pool.spent
        outstanding := a.outstanding.erase amount
        booked := a.booked + settled amount actual
        restarted := false }
  | .charge amount => match a.pool.charge amount with
    | none => a
    | some pool => { a with
        pool, record := some pool.spent, booked := a.booked + amount, restarted := false }
  | .restart => { a with
      pool := a.pool.resumeSystem a.record, outstanding := [], restarted := true }

def Start : Prop :=
  ∃ capacity, a = ⟨.fresh .consumable capacity, none, [], 0, false⟩

def Overdrawn : Prop := a.restarted = true ∧ a.pool.capacity < a.pool.spent

/-- Every reservation that is given back was taken, settlements stay within the capacity, and
nothing is taken from or charged to a pool that a restart found over budget. -/
def Solvent : Op → Prop
  | .take amount => a.Overdrawn → amount ≠ 0
  | .giveBack amount actual =>
    amount ∈ a.outstanding ∧ a.pool.spent + settled amount actual ≤ a.pool.capacity
  | .charge amount => a.Overdrawn → amount < 0
  | .restart => True

/-- The spend is what was booked, and what is available is what is neither spent nor reserved. -/
structure Exact (a : Account) : Prop where
  spent : a.pool.spent = a.booked
  available : a.pool.available = a.pool.capacity - a.pool.spent - a.outstanding.sum ∨
    a.Overdrawn ∧ a.pool.available = 0 ∧ a.outstanding = []

/-- The books are exact, the record is the spend, and nothing in them is negative. -/
structure Kept (a : Account) : Prop extends a.Exact where
  kind : a.pool.kind = .consumable
  record : a.record.getD 0 = a.pool.spent
  nonneg : 0 ≤ a.pool.spent
  taken : ∀ amount ∈ a.outstanding, 0 ≤ amount

variable {a : Account}

theorem Kept.start (start : a.Start) : a.Kept := by
  obtain ⟨capacity, rfl⟩ := start
  exact {
    spent := rfl
    available := .inl (by simp [fresh])
    kind := rfl
    record := rfl
    nonneg := le_refl 0
    taken := by simp }

section
variable (kept : a.Kept)
include kept

theorem Kept.take_fits {pool : ResourceMgr}
    (solvent : a.Solvent (.take amount)) (takes : a.pool.take amount = some pool) :
    0 ≤ amount ∧ amount ≤ a.pool.available ∧
      a.pool.available = a.pool.capacity - a.pool.spent - a.outstanding.sum := by
  unfold ResourceMgr.take canAfford at takes
  split_ifs at takes with affordable
  simp only [Bool.decide_and, Bool.and_eq_true, decide_eq_true_eq] at affordable
  refine ⟨affordable.1, affordable.2, kept.available.resolve_right ?_⟩
  rintro ⟨overdrawn, empty, -⟩
  exact solvent overdrawn (le_antisymm (empty ▸ affordable.2) affordable.1)

theorem Kept.take (solvent : a.Solvent (.take amount)) : (a.step (.take amount)).Kept := by
  dsimp only [step]
  cases takes : a.pool.take amount with
  | none => exact kept
  | some pool =>
    obtain ⟨nonneg, -, available⟩ := kept.take_fits solvent takes
    unfold ResourceMgr.take at takes
    split_ifs at takes
    cases takes
    exact { kept with
      available := .inl (by rw [sum_cons]; linarith)
      taken := by simpa using ⟨nonneg, kept.taken⟩ }

section
variable {actual : Option ℚ} (solvent : a.Solvent (.giveBack amount actual))
include solvent

theorem Kept.giveBack_eq : a.pool.giveBack amount actual = some { a.pool with
      available := a.pool.available + (amount - settled amount actual)
      spent := a.pool.spent + settled amount actual } := by
  obtain ⟨taken, fits⟩ := solvent
  have nonneg := kept.taken amount taken
  have available := kept.available.resolve_right fun overdrawn => by simp [overdrawn.2.2] at taken
  have others : 0 ≤ (a.outstanding.erase amount).sum :=
    sum_nonneg fun other mem => kept.taken other (mem_of_mem_erase mem)
  have split := (perm_cons_erase taken).sum_eq
  rw [sum_cons] at split
  have below : a.pool.available + (amount - settled amount actual) ≤ a.pool.capacity := by
    linarith [settled_nonneg nonneg actual, kept.nonneg]
  unfold giveBack
  rw [if_neg (not_lt.mpr nonneg)]
  dsimp only
  rw [show (actual.elim amount fun actual => min (max actual 0) amount) = settled amount actual
    from rfl, min_eq_right below, min_eq_right fits, kept.kind]

theorem Kept.giveBack : (a.step (.giveBack amount actual)).Kept := by
  have settles := kept.giveBack_eq solvent
  obtain ⟨taken, -⟩ := solvent
  have available := kept.available.resolve_right fun overdrawn => by simp [overdrawn.2.2] at taken
  have split := (perm_cons_erase taken).sum_eq
  rw [sum_cons] at split
  have booked := kept.spent
  dsimp only [step]
  rw [settles]
  exact {
    spent := by dsimp only; rw [booked]
    available := .inl (by dsimp only; linarith)
    kind := kept.kind
    record := rfl
    nonneg := add_nonneg kept.nonneg (settled_nonneg (kept.taken amount taken) actual)
    taken other mem := kept.taken other (mem_of_mem_erase mem) }

end

theorem Kept.charge (solvent : a.Solvent (.charge amount)) : (a.step (.charge amount)).Kept := by
  dsimp only [step]
  unfold ResourceMgr.charge
  split_ifs with accepted
  · have available := kept.available.resolve_right fun overdrawn =>
      absurd (solvent overdrawn.1) (not_lt.mpr accepted.2)
    have booked := kept.spent
    exact { kept with
      spent := by dsimp only; rw [booked]
      available := .inl (by dsimp only; linarith)
      record := rfl
      nonneg := add_nonneg kept.nonneg accepted.2 }
  · exact kept

theorem Kept.restart : (a.step .restart).Kept := by
  have resumed : a.pool.resumeSystem a.record = { a.pool with
      available := max 0 (a.pool.capacity - a.pool.spent) } := by
    unfold resumeSystem
    dsimp only
    rw [kept.record, kept.kind]
  dsimp only [step]
  rw [resumed]
  exact { kept with
    available := by
      rcases le_or_gt a.pool.spent a.pool.capacity with within | exceeds
      · refine .inl ?_
        simp [max_eq_right (sub_nonneg.mpr within)]
      · exact .inr ⟨⟨rfl, exceeds⟩, max_eq_left (by linarith), rfl⟩
    taken := by simp }

theorem Kept.step {op : Op} (solvent : a.Solvent op) : (a.step op).Kept := by
  cases op with
  | take amount => exact kept.take solvent
  | giveBack amount actual => exact kept.giveBack solvent
  | charge amount => exact kept.charge solvent
  | restart => exact kept.restart

theorem Kept.spent_mono {op : Op} (solvent : a.Solvent op) :
    a.pool.spent ≤ (a.step op).pool.spent := by
  cases op with
  | take amount =>
    dsimp only [Account.step]
    unfold ResourceMgr.take
    split_ifs <;> exact le_refl _
  | giveBack amount actual =>
    dsimp only [Account.step]
    rw [kept.giveBack_eq solvent]
    exact le_add_of_nonneg_right (settled_nonneg (kept.taken amount solvent.1) actual)
  | charge amount =>
    dsimp only [Account.step]
    unfold ResourceMgr.charge
    split_ifs with accepted
    · exact le_add_of_nonneg_right accepted.2
    · exact le_refl _
  | restart =>
    refine le_of_eq ?_
    dsimp only [Account.step]
    unfold resumeSystem
    rw [kept.kind]
    exact kept.record.symm

end

/-- In every state the books are exact; no step lowers the spend, and what a step reserves was
neither spent nor reserved before. -/
theorem budget_exact {a : Account} (reached : Reaches Start step Solvent a) :
    a.Exact ∧ (∀ op, a.Solvent op → a.pool.spent ≤ (a.step op).pool.spent) ∧
      ∀ amount, a.Solvent (.take amount) → (a.pool.take amount).isSome = true →
        a.pool.spent + a.outstanding.sum + amount ≤ a.pool.capacity := by
  have base : ∀ a : Account, a.Start → a.Kept := fun a => Kept.start
  have kept : a.Kept := reached.invariant base fun a op kept solvent => kept.step solvent
  refine ⟨kept.toExact, fun op solvent => kept.spent_mono solvent, fun amount solvent accepted => ?_⟩
  obtain ⟨pool, takes⟩ := Option.isSome_iff_exists.mp accepted
  obtain ⟨-, fits, available⟩ := kept.take_fits solvent takes
  linarith

def ten : Account := ⟨.fresh .consumable 10, none, [], 0, false⟩

theorem settled_and_charged_exact :
    let a := [Op.take 5, .charge 2, .giveBack 5 (some 3), .restart].foldl step ten
    a.Exact ∧ a.pool.spent = 5 ∧ a.pool.available = 5 := by
  have reached : Reaches Start step Solvent
      ([Op.take 5, .charge 2, .giveBack 5 (some 3), .restart].foldl step ten) := by
    have first : Reaches Start step Solvent (ten.step (.take 5)) :=
      .next _ (.start ⟨10, rfl⟩) fun _ => by decide
    have second : Reaches Start step Solvent ((ten.step (.take 5)).step (.charge 2)) :=
      .next _ first fun overdrawn => absurd overdrawn.1 (by decide)
    have third : Reaches Start step Solvent
        (((ten.step (.take 5)).step (.charge 2)).step (.giveBack 5 (some 3))) :=
      .next _ second ⟨by decide +kernel, by decide +kernel⟩
    exact .next Op.restart third trivial
  exact ⟨(budget_exact reached).1, by decide +kernel, by decide +kernel⟩

/-- Five are reserved, then fifteen are charged to a budget of ten. The settlement of the five
lowers the spend from fifteen to ten, where twenty were booked. -/
theorem settlement_lowers_spend :
    let charged := [Op.take 5, .charge 15].foldl step ten
    let done := charged.step (.giveBack 5 (some 5))
    ten.Start ∧ 5 ∈ charged.outstanding ∧ charged.pool.spent = 15 ∧
      done.pool.spent = 10 ∧ done.booked = 20 := by
  exact ⟨⟨10, rfl⟩, by decide +kernel, by decide +kernel, by decide +kernel, by decide +kernel⟩

end Account
end Infera.TaskGraph
