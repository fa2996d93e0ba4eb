import Infera.Kvd.RetentionGuard

/-! Rejected writes. The eviction loop of `set` removes one victim at a time and may find only
then that the rows left are protected. The victims collected for spillover are in a local list at
that point and are dropped with it. A rejected write leaves the store as it was exactly when the
loop removes nothing: it is not entered, or its first look finds no row it may displace. -/

namespace Infera.Kvd
namespace HostStore
open List

variable {σ ρ : Type} {st : HostStore σ ρ} {retention : Retention} {victim : Composite}

theorem makeRoom_of_no_victim (none : st.pickVictim retention = none) {demand fuel : Nat}
    {spills : List Spill} (stuck : (makeRoom fuel st demand retention spills).2 = Option.none) :
    (makeRoom fuel st demand retention spills).1 = st.countRejection := by
  cases fuel <;> simp [makeRoom, none] at stuck ⊢ <;> split_ifs at stuck ⊢ <;> rfl

theorem makeRoom_keeps_absent {demand fuel : Nat} {spills : List Spill}
    (gone : st.entries.get? victim = none) :
    (makeRoom fuel st demand retention spills).1.entries.get? victim = none :=
  makeRoom_invariant (P := (·.entries.get? victim = none)) retention demand (fun _ gone => gone)
    (fun st c gone _ => by rw [get?_evict, gone, ite_self]) fuel st spills gone

/-- A loop that gave up with every row in place never had a victim: the first one picked is
evicted, and no later turn stores it again. -/
theorem no_victim_of_rows_kept {st' : HostStore σ ρ} {demand : Nat} {spills : List Spill}
    (stuck : makeRoom st.entries.items.length st demand retention spills = (st', none))
    (same : st'.entries = st.entries) : st.pickVictim retention = none := by
  rw [Option.eq_none_iff_forall_ne_some]
  intro victim picked
  obtain ⟨e, row, -⟩ := pickVictim_row picked
  obtain ⟨turns, rows⟩ : ∃ turns, st.entries.items.length = turns + 1 :=
    Nat.exists_eq_succ_of_ne_zero fun empty => by
      have mem := (st.entries.get?_eq_some_iff _ _).mp row
      simp [length_eq_zero_iff.mp empty] at mem
  rw [rows, makeRoom] at stuck
  split_ifs at stuck
  · cases stuck
  · simp only [picked] at stuck
    obtain rfl := congrArg Prod.fst stuck
    have lost := congrArg (·.get? victim) same
    rw [makeRoom_keeps_absent (by simp), row] at lost
    cases lost

/-- A rejected write finds no row it may displace: its own row is there, or the value is larger
than the whole store, or every row is protected from it. -/
def NothingToEvict (st : HostStore σ ρ) (c : Composite) (retention : Retention) (size : Nat) : Prop :=
  st.entries.get? c ≠ none ∨ st.inlineDemand size > st.maxBytes ∨ st.pickVictim retention = none

variable [Region σ] [Region ρ] (events : List Server.Event)

section
variable {w : Write} {st' : HostStore σ ρ} {reason : Option String}

theorem SetOutcome.recounted (outcome : SetOutcome w st st' (.ok (false, reason)))
    (none : st.NothingToEvict w.c w.retention w.value.length) : st' = { st with stats := st'.stats } := by
  cases outcome with
  | refused _ reason row =>
    cases row with
    | downgrade | tooLarge => rfl
    | protectedRows _ absent fits stuck =>
      have none := (none.resolve_left (not_not.mpr absent)).resolve_left (not_lt.mpr fits)
      have same := makeRoom_of_no_victim (show st.countSet.pickVictim _ = _ from none)
        (congrArg Prod.snd stuck)
      rw [stuck] at same
      cases same
      rfl

theorem SetOutcome.nothingToEvict (outcome : SetOutcome w st st' (.ok (false, reason)))
    (same : st'.entries = st.entries) : st.NothingToEvict w.c w.retention w.value.length := by
  cases outcome with
  | refused _ reason row =>
    cases row with
    | downgrade e row => exact .inl (by rw [show st.entries.get? w.c = some e from row]; simp)
    | tooLarge _ large => exact .inr (.inl large)
    | protectedRows _ _ _ stuck =>
      exact .inr (.inr (@no_victim_of_rows_kept _ _ st.countSet _ _ _ _ stuck same))

end

/-- A rejected write that finds no row to displace leaves the rows, the arena and both regions as
they were, with only the counters moved. Any other rejected write has lost a row. -/
theorem rejected_set_leaves_store {st : HostStore σ ρ} (reached : Server.Reachable st)
    (call : SetCall) (reason : Option String)
    (rejected : (st.apply call).2 = .ok (false, reason)) :
    (st.NothingToEvict call.c call.retention call.value.length →
        (st.apply call).1 = { st with stats := (st.apply call).1.stats }) ∧
      ((st.apply call).1.entries = st.entries →
        st.NothingToEvict call.c call.retention call.value.length) := by
  have positive : ∀ t, call.ttl = some t → 0 < t := by
    intro t ttl
    by_contra zero
    simp [apply, HostStore.set, ttl, not_lt.mp zero] at rejected
  unfold apply at rejected ⊢
  rw [st.set_eq_setLive _ _ _ _ _ positive] at rejected ⊢
  have outcome := reached.wellFormed.setOutcome ⟨call.clk, call.c, call.value, call.retention,
    call.metadata, call.ttl.map (call.clk 0 + ·)⟩
  simp only [rejected] at outcome
  exact ⟨outcome.recounted, outcome.nothingToEvict⟩

def tenByteStore : HostStore TablespaceLongRegion TablespaceLongRegion :=
  events.foldl Server.step (HostStore.new 10 none none none [])

theorem reachable_tenByteStore : Server.Reachable (tenByteStore events) :=
  Reaches.unconditional _ ⟨10, none, none, none, [], by simp, rfl⟩

def fiveBytes (key : UInt8) (retention : String) : Server.Event :=
  .request 1 false (fun _ => 0) (.set ⟨"m", "", [key]⟩ (List.replicate 5 7) retention .empty none)

def eightByteWrite : SetCall :=
  ⟨fun _ => 1, ⟨"m", "", [3]⟩, List.replicate 8 9, .short, .empty, none⟩

theorem long_rows_survive_rejected_write :
    let st := tenByteStore [fiveBytes 1 "long", fiveBytes 2 "long"]
    (st.apply eightByteWrite).1 = { st with stats := (st.apply eightByteWrite).1.stats } := by
  intro st
  exact rejected_set_leaves_store (reachable_tenByteStore _) eightByteWrite
    (some "would_displace_higher_priority") (by decide +kernel) |>.1
    (.inr (.inr (by decide +kernel)))

/-- The short row is evicted before the long one turns out to be protected. -/
theorem rejected_write_loses_row :
    let st := tenByteStore [fiveBytes 1 "long", fiveBytes 2 "short"]
    Server.Reachable st ∧
      (st.apply eightByteWrite).2 = .ok (false, some "would_displace_higher_priority") ∧
      ((st.get (fun _ => 2) ⟨"m", "", [2]⟩).2.map (·.map Entry.value)) =
        .ok (some (List.replicate 5 7)) ∧
      (((st.apply eightByteWrite).1.get (fun _ => 2) ⟨"m", "", [2]⟩).2.map (·.isSome)) =
        .ok false :=
  ⟨reachable_tenByteStore _, by decide +kernel, by decide +kernel, by decide +kernel⟩

end HostStore
end Infera.Kvd
