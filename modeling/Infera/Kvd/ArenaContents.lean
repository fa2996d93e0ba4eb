import Infera.Kvd.ArenaPartition

/-! What the slots hold. `Placed` describes an accepted `put`: the key's slot
reads back the value, the other keys keep their slots and contents, except one
whose eviction is logged. The lemmas here are the ones the host store uses; the
partition of the grid is in `ArenaPartition`. -/

namespace Infera.Kvd
open List

namespace Slot

theorem bytes_store (p : Nat → UInt8) (value : Bytes) :
    (List.range value.length).map (store p 0 value) = value := by
  apply ext_getElem
  · simp
  · intro i _ inside
    simp [store, inside]

theorem writeSeqlock_eq {s : Slot} {value : Bytes} (size : packsU32 value.length)
    (stable : packsU32 (s.midVersion + 1)) : s.writeSeqlock value =
      (⟨s.midVersion + 1, value.length, store s.payload 0 value⟩, .ok ()) := by
  have mid : packsU32 s.midVersion := by
    unfold packsU32 at stable ⊢
    omega
  simp only [writeSeqlock, mid, size, stable, not_true_eq_false, if_false]

theorem writeSeqlock_ok_iff {s : Slot} {value : Bytes} : (s.writeSeqlock value).2 = .ok () ↔
    packsU32 value.length ∧ packsU32 (s.midVersion + 1) := by
  refine ⟨fun ok => ?_, fun packs => by rw [writeSeqlock_eq packs.1 packs.2]⟩
  unfold writeSeqlock at ok
  by_cases mid : packsU32 s.midVersion
  · by_cases size : packsU32 value.length
    · by_cases stable : packsU32 (s.midVersion + 1)
      · exact ⟨size, stable⟩
      · simp [mid, size, stable] at ok
    · simp [mid, size] at ok
  · simp [mid] at ok

theorem writeSeqlock_ok {s : Slot} {value : Bytes} (ok : (s.writeSeqlock value).2 = .ok ()) :
    (s.writeSeqlock value).1.version % 2 = 0 ∧ (s.writeSeqlock value).1.length = value.length ∧
      (s.writeSeqlock value).1.bytes value.length = value ∧
      (s.writeSeqlock value).1.version ≤ s.version + 3 := by
  have packs := writeSeqlock_ok_iff.mp ok
  rw [writeSeqlock_eq packs.1 packs.2]
  refine ⟨?_, rfl, bytes_store _ _, ?_⟩
  · simp only [midVersion]
    split_ifs <;> omega
  · simp only [midVersion]
    split_ifs <;> omega

end Slot

namespace SharedArena
variable {k : Bytes} {slot : Nat} {a b : SharedArena}

/-- What `put` leaves when it answers a slot. -/
structure Placed (a b : SharedArena) (key value : Bytes) (slot : Nat) : Prop where
  reads : b.getSlice slot = some value
  index : b.slotIndex.get? key = some slot
  logged : ∀ k ∈ b.recentEvictedKeys, k ∈ a.recentEvictedKeys ∨ k ≠ key
  kept : ∀ k s, k ≠ key → a.slotIndex.get? k = some s →
    (b.slotIndex.get? k = some s ∧ b.getSlice s = a.getSlice s) ∨ k ∈ b.recentEvictedKeys

theorem mem_logEvicted_self (log : List Bytes) (key : Bytes) : key ∈ logEvicted log key := by
  unfold logEvicted
  split_ifs with room
  · simp
  · have long : 1 ≤ log.length := by
      simp only [evictLogCap] at room
      omega
    rw [drop_append_of_le_length long]
    simp

theorem of_mem_logEvicted {log : List Bytes} {key : Bytes} (mem : k ∈ logEvicted log key) :
    k ∈ log ∨ k = key := by
  unfold logEvicted at mem
  split_ifs at mem
  · simpa using mem
  · simpa using mem_of_mem_drop mem

theorem getSlice_eq_some {v : Bytes} (inside : slot < a.numSlots)
    (stable : (a.slots slot).version % 2 = 0)
    (bound : (a.slots slot).length + headerBytes ≤ a.slotSize)
    (contents : (a.slots slot).bytes (a.slots slot).length = v) : a.getSlice slot = some v := by
  have sized : ¬(a.slots slot).length > a.slotSize - headerBytes := by omega
  have range : ¬((slot : Int) < 0 ∨ (slot : Int) ≥ a.numSlots) := by omega
  simp only [getSlice, if_neg range, Int.toNat_natCast, stable, ne_eq, not_true_eq_false, if_false,
    if_neg sized, contents]

theorem getSlice_congr (slot : Int) (size : b.slotSize = a.slotSize)
    (grid : b.numSlots = a.numSlots) (contents : b.slots slot.toNat = a.slots slot.toNat) :
    b.getSlice slot = a.getSlice slot := by
  simp [getSlice, size, grid, contents]

theorem InHand.lt (hand : InHand slot a) : slot < a.numSlots :=
  mem_range.mp (hand.balanced.mem_iff.mp mem_cons_self)

section
variable (a : SharedArena)

@[simp] theorem recentEvictedKeys_ensureGrid (size : Nat) :
    (a.ensureGrid size).recentEvictedKeys = a.recentEvictedKeys := by
  unfold ensureGrid
  split_ifs <;> rfl

@[simp] theorem slots_ensureGrid (size : Nat) : (a.ensureGrid size).slots = a.slots := by
  unfold ensureGrid
  split_ifs <;> rfl

theorem releaseKey_frame (key : Bytes) :
    (a.releaseKey key).slots = a.slots ∧ (a.releaseKey key).slotSize = a.slotSize ∧
      (a.releaseKey key).numSlots = a.numSlots ∧
      (a.releaseKey key).recentEvictedKeys = a.recentEvictedKeys := by
  unfold releaseKey
  split <;> exact ⟨rfl, rfl, rfl, rfl⟩

theorem slotIndex_releaseKey (key k : Bytes) :
    (a.releaseKey key).slotIndex.get? k = if k = key then none else a.slotIndex.get? k := by
  unfold releaseKey
  split
  · rename_i absent
    split_ifs with same
    · rw [same, absent]
    · rfl
  · rw [Dict.get?_erase]

end

theorem Ledger.ensureGrid_of_indexed (wf : a.Ledger) {s : Nat}
    (indexed : a.slotIndex.get? k = some s) (size : Nat) : a.ensureGrid size = a := by
  have decided : a.slotSize ≠ 0 := by
    intro undecided
    have mem : s ∈ a.slotIndex.values := Dict.mem_values_iff.mpr ⟨k, indexed⟩
    rw [(wf.empty_of_undecided undecided).2.1] at mem
    exact absurd mem not_mem_nil
  simp [SharedArena.ensureGrid, if_pos decided]

theorem takeSlot_index (taken : a.takeSlot = some (slot, b))
    (k : Bytes) (s : Nat) (indexed : a.slotIndex.get? k = some s) :
    b.slotIndex.get? k = some s ∨ k ∈ b.recentEvictedKeys := by
  rcases takeSlot_cases taken with ⟨rest, -, rfl⟩ | ⟨-, victim, rest, popped, rfl⟩
  · exact .inl indexed
  · by_cases same : k = victim
    · exact .inr (same ▸ mem_logEvicted_self _ _)
    · refine .inl ?_
      simp [a.slotIndex.get?_popFirst popped, if_neg same, indexed]

theorem takeSlot_logged (taken : a.takeSlot = some (slot, b)) (logged : k ∈ b.recentEvictedKeys) :
    k ∈ a.recentEvictedKeys ∨ ∃ s, a.slotIndex.get? k = some s := by
  rcases takeSlot_cases taken with ⟨rest, -, rfl⟩ | ⟨-, victim, rest, popped, rfl⟩
  · exact .inl logged
  · rcases of_mem_logEvicted logged with old | rfl
    · exact .inl old
    · refine .inr ⟨slot, (a.slotIndex.get?_eq_some_iff k slot).mpr ?_⟩
      rw [a.slotIndex.popFirst_eq_some popped]
      exact mem_cons_self

theorem Ledger.put_placed (wf : a.Ledger) {key value : Bytes}
    (ok : (a.put key value).2 = .ok (some slot)) : Placed a (a.put key value).1 key value slot := by
  rcases a.put_cases key value with ⟨-, eq⟩ | ⟨accepted, ⟨-, eq⟩ | ⟨taken, c, took, eq⟩⟩
  · simp [eq] at ok
  · simp [eq] at ok
  · have released := (wf.ensureGrid value.length).releaseKey key
    have hand := released.takeSlot took
    have frame := releaseKey_frame (a.ensureGrid value.length) key
    have took' := takeSlot_frame took
    have written : ((c.slots taken).writeSeqlock value).2 = .ok () ∧ taken = slot := by
      rw [eq] at ok
      cases wrote : ((c.slots taken).writeSeqlock value).2 with
      | error e => simp [wrote, Except.map] at ok
      | ok u => exact ⟨rfl, by simpa [wrote, Except.map] using ok⟩
    obtain ⟨wrote, rfl⟩ := written
    have contents := Slot.writeSeqlock_ok wrote
    have fits : value.length + headerBytes ≤ c.slotSize := by
      rw [took'.1, frame.2.1]
      exact le_slotSize_of_accepts accepted
    rw [eq]
    refine ⟨?_, ?_, ?_, ?_⟩
    · refine getSlice_eq_some (a := c.placed key taken value) hand.lt ?_ ?_ ?_
      · simpa using contents.1
      · simpa [contents.2.1] using fits
      · simpa [contents.2.1] using contents.2.2.1
    · simp
    · intro k logged
      by_cases same : k = key
      · rcases takeSlot_logged took logged with old | ⟨s, indexed⟩
        · rw [frame.2.2.2, recentEvictedKeys_ensureGrid] at old
          exact .inl old
        · simp [same] at indexed
      · exact .inr same
    · intro k s other indexed
      have grid := wf.ensureGrid_of_indexed indexed value.length
      rw [grid] at took released frame
      have here : (a.releaseKey key).slotIndex.get? k = some s := by
        rw [slotIndex_releaseKey, if_neg other, indexed]
      rcases takeSlot_index took k s here with stays | logged
      · have apart : s ≠ taken := fun same => hand.not_indexed k (same ▸ stays)
        refine .inl ⟨?_, ?_⟩
        · simpa [Dict.get?_set_of_ne other] using stays
        · refine getSlice_congr s ?_ ?_ ?_
          · simp [took'.1, grid, frame.2.1]
          · simp [took'.2.1, grid, frame.2.2.1]
          · simp [Function.update_of_ne apart, took'.2.2.1, grid, frame.1]
      · exact .inr logged

end SharedArena
end Infera.Kvd
