import Infera.Kvd.ArenaContents
import Infera.Kvd.StoreWrites

/-! What the eviction loop of `set` does. It removes rows of the incoming
priority or lower and nothing else (`Thinned`); the arena only gets slots back
(`Loosened`); every block it hands to spillover is the block of a removed row. -/

namespace Infera.Kvd
open List

namespace SharedArena

/-- Keys were released: the bytes and the log are as before, and if anything changed there is a
free slot. -/
structure Loosened (a b : SharedArena) : Prop where
  capacity : b.capacity = a.capacity
  slotSize : b.slotSize = a.slotSize
  numSlots : b.numSlots = a.numSlots
  slots : b.slots = a.slots
  log : b.recentEvictedKeys = a.recentEvictedKeys
  reservations : b.reservations = a.reservations
  index : ∀ k s, b.slotIndex.get? k = some s → a.slotIndex.get? k = some s
  free : b = a ∨ b.freeSlots ≠ []

theorem Loosened.refl (a : SharedArena) : Loosened a a :=
  ⟨rfl, rfl, rfl, rfl, rfl, rfl, fun _ _ found => found, .inl rfl⟩

theorem Loosened.evictKey {a b : SharedArena} (loose : Loosened a b) (key : Bytes) :
    Loosened a (b.evictKey key false).1 := by
  unfold SharedArena.evictKey
  split
  · exact loose
  · rename_i slot found
    have frame := releaseKey_frame b key
    refine ⟨?_, ?_, ?_, ?_, ?_, ?_, ?_, ?_⟩
    · rw [← loose.capacity]
      unfold SharedArena.releaseKey
      split <;> rfl
    · exact frame.2.1.trans loose.slotSize
    · exact frame.2.2.1.trans loose.numSlots
    · exact frame.1.trans loose.slots
    · exact loose.log
    · exact (reservations_releaseKey b key).trans loose.reservations
    · intro k s indexed
      simp only [slotIndex_releaseKey] at indexed
      split_ifs at indexed
      exact loose.index k s indexed
    · refine .inr ?_
      simp only [SharedArena.releaseKey, found]
      exact cons_ne_nil _ _

theorem Loosened.getSlice {a b : SharedArena} (loose : Loosened a b) (slot : Int) :
    b.getSlice slot = a.getSlice slot :=
  getSlice_congr slot loose.slotSize loose.numSlots (congrFun loose.slots _)

end SharedArena

namespace HostStore
variable {σ ρ : Type} {victim : Composite} {retention : Retention}
open SharedArena
variable {st st' : HostStore σ ρ} {base : HostStore σ ρ}

def LoosenedArena (st st' : HostStore σ ρ) : Prop :=
  (st.sharedArena = none ∧ st'.sharedArena = none) ∨
    ∃ a b, st.sharedArena = some a ∧ st'.sharedArena = some b ∧ Loosened a b

theorem LoosenedArena.refl (st : HostStore σ ρ) : LoosenedArena st st := by
  cases wired : st.sharedArena with
  | none => exact .inl ⟨wired, wired⟩
  | some a => exact .inr ⟨a, a, wired, wired, .refl a⟩

section
variable (loose : LoosenedArena st st')
include loose

theorem LoosenedArena.evict (c : Composite) : LoosenedArena st (st'.evict c) := by
  unfold HostStore.evict
  split
  · exact loose
  · rename_i e row
    have arena : ((st'.removeEntry c e).countEviction).sharedArena =
        if e.slotId ≥ 0 then st'.sharedArena.map fun a => (a.evictKey e.key false).1
        else st'.sharedArena := by
      show (st'.removeEntry c e).sharedArena = _
      unfold HostStore.removeEntry HostStore.releaseSlot
      split_ifs <;> simp
    rcases loose with ⟨none, none'⟩ | ⟨a, b, wired, wired', loose⟩
    · refine .inl ⟨none, ?_⟩
      rw [arena, none']
      split_ifs <;> rfl
    · refine .inr ?_
      by_cases backed : e.slotId ≥ 0
      · exact ⟨a, _, wired, by rw [arena, if_pos backed, wired']; rfl, loose.evictKey e.key⟩
      · exact ⟨a, b, wired, by rw [arena, if_neg backed, wired'], loose⟩

theorem LoosenedArena.unwired
    (none : st.sharedArena = Option.none) : st'.sharedArena = Option.none := by
  rcases loose with ⟨-, none'⟩ | ⟨a, b, wired, -, -⟩
  · exact none'
  · simp [wired] at none

theorem LoosenedArena.resolveValue (e : Entry) : st'.resolveValue e = st.resolveValue e := by
  unfold HostStore.resolveValue
  rcases loose with ⟨none, none'⟩ | ⟨a, b, wired, wired', loose⟩
  · rw [none, none']
  · rw [wired, wired']
    simp [loose.getSlice]

end

theorem foldl_betterVictim (incoming : Nat) (rows : List (Composite × Entry)) :
    ∀ best, (∀ v, best = some v → v.2.1 ≤ incoming) →
      ∀ v, rows.foldl (betterVictim incoming) best = some v →
        best = some v ∨ ∃ row ∈ rows, row.1 = v.1 ∧ row.2.priority ≤ incoming := by
  induction rows with
  | nil => exact fun best _ v found => .inl found
  | cons row rows ih =>
    intro best below v found
    rw [foldl_cons] at found
    -- the scan moves on with the old best or with this row
    have step : betterVictim incoming best row = best ∨
        (betterVictim incoming best row = some (row.1, row.2.priority, row.2.lastAccess) ∧
          row.2.priority ≤ incoming) := by
      unfold betterVictim
      split_ifs with higher
      · exact .inl rfl
      · split
        · exact .inr ⟨rfl, not_lt.mp higher⟩
        · split_ifs
          · exact .inr ⟨rfl, not_lt.mp higher⟩
          · exact .inl rfl
    rcases step with kept | ⟨taken, low⟩
    · rw [kept] at found
      rcases ih best below v found with old | ⟨row', mem, eq⟩
      · exact .inl old
      · exact .inr ⟨row', mem_cons_of_mem _ mem, eq⟩
    · rw [taken] at found
      rcases ih _ (fun v eq => by cases eq; exact low) v found with here | ⟨row', mem, eq⟩
      · cases here
        exact .inr ⟨row, mem_cons_self, rfl, low⟩
      · exact .inr ⟨row', mem_cons_of_mem _ mem, eq⟩

theorem pickVictim_row (picked : st.pickVictim retention = some victim) :
    ∃ e, st.entries.get? victim = some e ∧ e.priority ≤ retention.priority := by
  obtain ⟨v, found, rfl⟩ := Option.map_eq_some_iff.mp picked
  rcases foldl_betterVictim retention.priority st.entries.items none (by simp) v found with
    impossible | ⟨⟨c, e⟩, mem, same, low⟩
  · simp at impossible
  · exact ⟨e, (st.entries.get?_eq_some_iff _ _).mpr (same ▸ mem), low⟩

/-- Rows of the given retention's priority or lower were removed, and nothing else. -/
structure Thinned (retention : Retention) (st st' : HostStore σ ρ) : Prop where
  rows : ∀ c e, st'.entries.get? c = some e → st.entries.get? c = some e
  lost : ∀ c e, st.entries.get? c = some e → st'.entries.get? c = none →
    e.priority ≤ retention.priority
  arena : LoosenedArena st st'

theorem Thinned.refl (retention : Retention) (st : HostStore σ ρ) : Thinned retention st st :=
  ⟨fun _ _ found => found, fun _ _ found gone => by simp [gone] at found, .refl st⟩

theorem Thinned.evict (thinned : Thinned retention st st')
    (picked : st'.pickVictim retention = some victim) :
    Thinned retention st (st'.evict victim) := by
  obtain ⟨e, row, low⟩ := pickVictim_row picked
  refine ⟨?_, ?_, thinned.arena.evict victim⟩
  · intro c e' found
    rw [get?_evict] at found
    split_ifs at found
    exact thinned.rows c e' found
  · intro c e' found gone
    rw [get?_evict] at gone
    split_ifs at gone with same
    · have first := thinned.rows victim e row
      rw [same, first] at found
      exact Option.some.inj found ▸ low
    · exact thinned.lost c e' found gone

/-- The block of a removed row, as it was before the loop. -/
structure SpillOf (st : HostStore σ ρ) (spill : Spill) (e : Entry) : Prop where
  row : st.entries.get? spill.composite = some e
  short : e.retention = .short
  value : spill.value = st.resolveValue e
  metadata : spill.metadata = e.metadata

theorem collectForSpillover_spillOf (wf : st'.WellFormed) (thinned : Thinned retention st st')
    {spill : Spill} (collected : st'.collectForSpillover victim = some spill) :
    spill.composite = victim ∧ ∃ e, SpillOf st spill e := by
  unfold collectForSpillover at collected
  split at collected
  · rename_i e region row
    split_ifs at collected with short
    cases collected
    obtain ⟨key, model, compat⟩ := wf.named victim e row
    have same : (⟨e.model, e.compatKey, e.key⟩ : Composite) = victim := by
      rw [key, model, compat]
    refine ⟨same, e, ?_, short, thinned.arena.resolveValue e, rfl⟩
    rw [same]
    exact thinned.rows victim e row
  · simp at collected

theorem makeRoom_thinned (start : HostStore σ ρ) (retention : Retention) (demand fuel : Nat) :
    ∀ (st : HostStore σ ρ) (spills : List Spill), st.WellFormed → Thinned retention start st →
      (∀ s ∈ spills, (∃ e, SpillOf start s e) ∧ st.entries.get? s.composite = none) →
      Thinned retention start (makeRoom fuel st demand retention spills).1 ∧
        ∀ out, (makeRoom fuel st demand retention spills).2 = some out → ∀ s ∈ out,
          (∃ e, SpillOf start s e) ∧
            (makeRoom fuel st demand retention spills).1.entries.get? s.composite = none := by
  induction fuel with
  | zero =>
    intro st spills _ thinned from_start
    unfold makeRoom
    split_ifs
    · exact ⟨thinned, fun out eq => by cases eq; exact from_start⟩
    · exact ⟨{ thinned with }, fun out eq => by simp at eq⟩
  | succ fuel ih =>
    intro st spills wf thinned from_start
    unfold makeRoom
    split_ifs
    · exact ⟨thinned, fun out eq => by cases eq; exact from_start⟩
    · split
      · exact ⟨{ thinned with }, fun out eq => by simp at eq⟩
      · rename_i victim picked
        refine ih _ _ (wellFormed_sheds.evict victim wf) (thinned.evict picked) fun s mem => ?_
        rcases mem_append.mp mem with old | new
        · refine ⟨(from_start s old).1, ?_⟩
          rw [get?_evict, (from_start s old).2, ite_self]
        · have collected := collectForSpillover_spillOf wf thinned (Option.mem_toList.mp new)
          exact ⟨collected.2, by rw [get?_evict, if_pos collected.1]⟩

variable {w : Write} {spills : List Spill} (room : RoomMade w st base spills)
include room

theorem RoomMade.thinned
    (wf : st.WellFormed) : Thinned w.retention st base ∧
      ∀ s ∈ spills, (∃ e, SpillOf st s e) ∧ base.entries.get? s.composite = none := by
  rcases room with ⟨e, -, -, rfl, rfl⟩ | ⟨-, -, made⟩
  · exact ⟨.refl _ _, by simp⟩
  · have loop := makeRoom_thinned st w.retention (st.inlineDemand w.value.length)
      st.entries.items.length st [] wf (.refl _ _) (by simp)
    rw [made] at loop
    exact ⟨loop.1, loop.2 spills rfl⟩

theorem RoomMade.sameTiers : SameTiers st base := by
  rcases room with ⟨e, -, -, rfl, -⟩ | ⟨-, -, made⟩
  · exact .refl _
  · have same := (SameTiers.sheds st).makeRoom w.retention (.refl st)
      (st.inlineDemand w.value.length) st.entries.items.length []
    rwa [made] at same

end HostStore
end Infera.Kvd
