import Infera.Kvd.ArenaContents

/-! `wouldAcceptSize` predicts `put`. The prediction is right where, and only where,
the first block still fits once it is rounded up to the slot alignment, a slot is
free or indexed, and its header has room for the size and the next version. -/

namespace Infera.Kvd
namespace SharedArena
variable {a b : SharedArena} {size : Nat}

theorem sized_ensureGrid (sized : a.slotSize ≤ a.capacity) (size : Nat) :
    (a.ensureGrid size).slotSize ≤ (a.ensureGrid size).capacity := by
  unfold ensureGrid
  split_ifs with decided large
  · exact sized
  · exact Nat.zero_le _
  · exact Nat.le_of_not_lt fun small => large (Nat.div_eq_of_lt small)

theorem sized_releaseKey (sized : a.slotSize ≤ a.capacity) (key : Bytes) :
    (a.releaseKey key).slotSize ≤ (a.releaseKey key).capacity := by
  unfold releaseKey
  split <;> exact sized

theorem sized_takeSlot {slot : Nat} (taken : a.takeSlot = some (slot, b))
    (sized : a.slotSize ≤ a.capacity) : b.slotSize ≤ b.capacity := by
  rcases takeSlot_cases taken with ⟨rest, -, rfl⟩ | ⟨-, victim, rest, -, rfl⟩ <;> exact sized

theorem sized_step (a : SharedArena) (op : Op) (sized : a.slotSize ≤ a.capacity) :
    (a.step op).slotSize ≤ (a.step op).capacity := by
  cases op with
  | put key value =>
    have grid := sized_ensureGrid sized value.length
    rcases a.put_cases key value with ⟨-, eq⟩ | ⟨-, ⟨-, eq⟩ | ⟨slot, c, taken, eq⟩⟩
    · simp only [step, eq, refused]
      split_ifs
      exacts [sized, grid]
    · rw [step, eq]
      exact sized_releaseKey grid key
    · rw [step, eq]
      have kept := sized_takeSlot taken (sized_releaseKey grid key)
      exact kept
  | reserve size connectionId =>
    have grid := sized_ensureGrid sized size.toNat
    rcases a.reserve_cases size connectionId with ⟨b, rfl | rfl, eq⟩ | ⟨-, -, slot, c, taken, eq⟩
    · rwa [step, eq]
    · rwa [step, eq]
    · rw [step, eq]
      have kept := sized_takeSlot taken grid
      exact kept
  | commitReservation =>
    simp only [step, commitReservation]
    split
    · exact sized
    · split_ifs <;> exact sized
  | cancelReservation token connectionId =>
    simp only [step, cancelReservation]
    split
    · exact sized
    · split_ifs <;> exact sized
  | getSlotForKey key =>
    simp only [step, getSlotForKey]
    split <;> exact sized
  | evictLru notifyDrain =>
    simp only [step, evictLru]
    split <;> exact sized
  | evictKey key notifyDrain =>
    simp only [step, evictKey]
    split
    · exact sized
    · exact sized_releaseKey sized key
  | _ => exact sized

/-- The slot that a block of this size would take: the key's own, else a free one, else that of the
least recently written key. -/
def slotFor (a : SharedArena) (key : Bytes) (size : Nat) : Option Nat :=
  ((a.ensureGrid size).releaseKey key).takeSlot.map Prod.fst

/-- A block that fits an empty arena still fits once it is rounded up, and where one is to be
accepted there is a slot whose header has room. -/
structure Predictable (a : SharedArena) (key : Bytes) (size : Nat) : Prop where
  rounded : a.slotSize = 0 → size + headerBytes ≤ a.capacity → slotSizeFor size ≤ a.capacity
  available : a.wouldAcceptSize size = true → ∃ slot, a.slotFor key size = some slot ∧
    size < 2 ^ 32 ∧ (a.slots slot).midVersion + 1 < 2 ^ 32

theorem ensureGrid_undecided (undecided : a.slotSize = 0) (room : slotSizeFor size ≤ a.capacity) :
    (a.ensureGrid size).slotSize = slotSizeFor size := by
  have some : a.capacity / slotSizeFor size ≠ 0 := (Nat.div_pos room (slotSizeFor_pos size)).ne'
  simp [ensureGrid, undecided, some]

theorem ensureGrid_too_large (undecided : a.slotSize = 0)
    (large : ¬slotSizeFor size ≤ a.capacity) : (a.ensureGrid size).fits size = false := by
  have none : a.capacity / slotSizeFor size = 0 := Nat.div_eq_of_lt (not_le.mp large)
  simp [ensureGrid, undecided, none, fits]

theorem wouldAcceptSize_eq (sized : a.slotSize ≤ a.capacity)
    (rounded : a.slotSize = 0 → size + headerBytes ≤ a.capacity → slotSizeFor size ≤ a.capacity) :
    a.wouldAcceptSize size = a.accepts size := by
  rw [Bool.eq_iff_iff]
  simp only [wouldAcceptSize, accepts]
  by_cases undecided : a.slotSize = 0
  · have ge : size + headerBytes ≤ slotSizeFor size := by
      simp only [slotSizeFor, slotAlignment]
      omega
    by_cases room : slotSizeFor size ≤ a.capacity
    · have positive := slotSizeFor_pos size
      simp only [undecided, fits, ensureGrid_undecided undecided room, if_true,
        decide_eq_true_eq, Bool.and_eq_true]
      omega
    · have large := mt (rounded undecided) room
      simp [undecided, ensureGrid_too_large undecided room, large]
  · have decided : a.ensureGrid size = a := by simp [ensureGrid, undecided]
    simp only [decided, undecided, fits, if_false, decide_eq_true_eq, Bool.and_eq_true, ne_eq,
      not_false_eq_true, true_and]
    omega

/-- A write is accepted when the predictor says so and its slot's header has room. -/
theorem put_eq_some_iff (key value : Bytes) : (∃ slot, (a.put key value).2 = .ok (some slot)) ↔
    a.accepts value.length = true ∧ ∃ slot, a.slotFor key value.length = some slot ∧
      value.length < 2 ^ 32 ∧ (a.slots slot).midVersion + 1 < 2 ^ 32 := by
  rcases a.put_cases key value with ⟨refused, eq⟩ | ⟨accepted, ⟨none, eq⟩ | ⟨slot, c, taken, eq⟩⟩
  · simp [eq, refused]
  · simp [eq, slotFor, none]
  · have before : c.slots slot = a.slots slot := by
      rw [(takeSlot_frame taken).2.2.1, (releaseKey_frame _ key).1, slots_ensureGrid]
    have written := @Slot.writeSeqlock_ok_iff (a.slots slot) value
    rw [eq, before]
    simp only [accepted, slotFor, taken, Option.map_some, Option.some.injEq, exists_eq_left', true_and]
    refine Iff.trans ?_ written
    cases ((a.slots slot).writeSeqlock value).2 <;> simp [Except.map]

/-- The predictor is right and `put` does not raise, exactly where the block is predictable. -/
theorem put_as_predicted (reached : Reaches Fresh step (fun _ _ => True) a) (key value : Bytes) :
    (((∃ slot, (a.put key value).2 = .ok (some slot)) ↔ a.wouldAcceptSize value.length = true) ∧
      ∃ answer, (a.put key value).2 = .ok answer) ↔ a.Predictable key value.length := by
  have sized : a.slotSize ≤ a.capacity := by
    refine reached.invariant ?_ fun a op sized _ => sized_step a op sized
    rintro a ⟨capacity, -, rfl⟩
    exact Nat.zero_le _
  constructor
  · rintro ⟨exact, -⟩
    refine ⟨fun undecided fits => ?_, fun said => ((put_eq_some_iff key value).mp (exact.mpr said)).2⟩
    by_contra large
    have said : a.wouldAcceptSize value.length = true := by
      simpa [wouldAcceptSize, undecided] using fits
    have accepted := ((put_eq_some_iff key value).mp (exact.mpr said)).1
    simp [accepts, ensureGrid_too_large undecided large] at accepted
  · intro predictable
    have same := wouldAcceptSize_eq sized predictable.rounded
    cases said : a.wouldAcceptSize value.length with
    | true =>
      obtain ⟨slot, stored⟩ :=
        (put_eq_some_iff key value).mpr ⟨same ▸ said, predictable.available said⟩
      exact ⟨iff_of_true ⟨slot, stored⟩ rfl, some slot, stored⟩
    | false =>
      rcases a.put_cases key value with ⟨-, eq⟩ | ⟨accepted, -⟩
      · simp [eq]
      · simp [← same, said] at accepted

theorem small_put_as_predicted :
    (new 100).wouldAcceptSize 3 = true ∧
      ∃ slot, ((new 100).put [1] [7, 8, 9]).2 = .ok (some slot) := by
  have predictable : (new 100).Predictable [1] 3 :=
    ⟨fun _ _ => by decide, fun _ => ⟨0, by decide, by decide, by decide⟩⟩
  have reached : Reaches Fresh step (fun _ _ => True) (new 100) := .start ⟨100, by decide, rfl⟩
  exact ⟨by decide, ((put_as_predicted reached [1] [7, 8, 9]).mpr predictable).1.mpr (by decide)⟩

/-- Rounding up refuses what the predictor allows, and a fully leased arena raises. -/
theorem put_against_prediction :
    ((new 100).wouldAcceptSize 80 = true ∧ ((new 100).put [1] (List.replicate 80 0)).2 = .ok none) ∧
      (((new 64).step (.reserve 8 1)).wouldAcceptSize 8 = true ∧
        (((new 64).step (.reserve 8 1)).put [1] (List.replicate 8 0)).2 = .error .keyError) :=
  ⟨⟨by decide, rfl⟩, by decide, rfl⟩

end SharedArena
end Infera.Kvd
