import Infera.Kvd.SharedArena
import Infera.Runs

/-! Where the slots of the arena are. Every operation moves slots between the
free list, the key index and the leases without losing or copying one; `Ledger`
states it as a permutation of the grid. The exception is `clear`, which rebuilds
the free list from the whole grid and so frees slots that are still leased. -/

namespace Infera.Kvd
open List
namespace SharedArena
open Dict SharedArena
variable {slot token : Nat} {a b : SharedArena}

def leasedSlots (a : SharedArena) : List Nat := a.reservations.values.map Reservation.slotId

def allSlots (a : SharedArena) : List Nat :=
  a.freeSlots ++ (a.slotIndex.values ++ a.leasedSlots)

structure Ledger (a : SharedArena) : Prop where
  balanced : a.allSlots.Perm (List.range a.numSlots)
  undecided : a.slotSize = 0 → a.numSlots = 0
  freshToken : ∀ t r, a.reservations.get? t = some r → t < a.nextLeaseToken
  leaseFits : ∀ t r, a.reservations.get? t = some r → r.promisedSize + headerBytes ≤ a.slotSize

/-- A slot has been taken out of its container and belongs to the caller. -/
structure InHand (slot : Nat) (a : SharedArena) : Prop where
  balanced : (slot :: a.allSlots).Perm (List.range a.numSlots)
  undecided : a.slotSize = 0 → a.numSlots = 0
  freshToken : ∀ t r, a.reservations.get? t = some r → t < a.nextLeaseToken
  leaseFits : ∀ t r, a.reservations.get? t = some r → r.promisedSize + headerBytes ≤ a.slotSize

theorem ledger_new (capacity : Nat) : (new capacity).Ledger where
  balanced := List.Perm.refl _
  undecided _ := rfl
  freshToken _ _ found := by simp [new] at found
  leaseFits _ _ found := by simp [new] at found

theorem slotSizeFor_pos (size : Nat) : 0 < slotSizeFor size := by
  simp only [slotSizeFor, headerBytes, slotAlignment]
  omega

theorem Ledger.releaseKey (wf : a.Ledger) (key : Bytes) : (a.releaseKey key).Ledger := by
  unfold SharedArena.releaseKey
  split
  · exact wf
  · rename_i slot found
    refine { wf with balanced := List.Perm.trans ?_ wf.balanced }
    have moved := (a.slotIndex.values_perm_erase found).symm
    refine perm_middle.symm.trans (List.Perm.append_left _ ?_)
    exact moved.append_right _

section
variable (hand : InHand slot a)
include hand

theorem InHand.index (key : Bytes) (fresh : a.slotIndex.get? key = none) :
    Ledger { a with slotIndex := a.slotIndex.set key slot } := by
  refine { hand with balanced := List.Perm.trans ?_ hand.balanced }
  simp only [allSlots, leasedSlots, a.slotIndex.values_set_of_fresh key slot fresh]
  rw [append_assoc, singleton_append, ← append_assoc]
  exact perm_middle.trans (List.Perm.cons _ (by rw [append_assoc]))

theorem InHand.lease (size connectionId : Nat)
    (fits : size + headerBytes ≤ a.slotSize) : Ledger { a with
      nextLeaseToken := a.nextLeaseToken + 1
      reservations := a.reservations.set a.nextLeaseToken ⟨slot, size, connectionId⟩ } := by
  have fresh : a.reservations.get? a.nextLeaseToken = none := by
    cases found : a.reservations.get? a.nextLeaseToken with
    | none => rfl
    | some r => exact absurd (hand.freshToken _ r found) (lt_irrefl _)
  refine ⟨List.Perm.trans ?_ hand.balanced, hand.undecided, ?_, ?_⟩
  · simp only [allSlots, leasedSlots, a.reservations.values_set_of_fresh _ _ fresh]
    rw [map_append, ← append_assoc, ← append_assoc]
    exact perm_append_singleton slot _ |>.trans (by rw [append_assoc])
  · intro t r found
    rcases get?_set_cases found with ⟨rfl, -⟩ | ⟨-, found⟩
    · exact Nat.lt_succ_self _
    · exact Nat.lt_succ_of_lt (hand.freshToken t r found)
  · intro t r found
    rcases get?_set_cases found with ⟨-, rfl⟩ | ⟨-, found⟩
    · exact fits
    · exact hand.leaseFits t r found

theorem InHand.free : Ledger { a with freeSlots := slot :: a.freeSlots } :=
  { hand with }

theorem InHand.releaseKey (key : Bytes) : InHand slot (a.releaseKey key) := by
  unfold SharedArena.releaseKey
  split
  · exact hand
  · rename_i old found
    refine { hand with balanced := List.Perm.trans (List.Perm.cons _ ?_) hand.balanced }
    have moved := (a.slotIndex.values_perm_erase found).symm
    refine perm_middle.symm.trans (List.Perm.append_left _ ?_)
    exact moved.append_right _

theorem InHand.not_indexed (key : Bytes) : a.slotIndex.get? key ≠ some slot := by
  intro found
  have nodup := hand.balanced.nodup_iff.mpr nodup_range
  have mem : slot ∈ a.slotIndex.values := mem_values_iff.mpr ⟨key, found⟩
  exact (nodup_cons.mp nodup).1 (mem_append_right _ (mem_append_left _ mem))

theorem commit_collision (key : Bytes) :
    ((a.slotIndex.get? key).filter fun old => old ≠ slot) = a.slotIndex.get? key ∧
      { a with
        slotIndex := a.slotIndex.erase key
        freeSlots := (a.slotIndex.get? key).toList ++ a.freeSlots } = a.releaseKey key := by
  unfold releaseKey
  cases found : a.slotIndex.get? key with
  | none => simp [a.slotIndex.erase_of_absent found]
  | some old =>
    have differ : old ≠ slot := fun same => hand.not_indexed key (same ▸ found)
    simp [differ]

theorem InHand.not_leased : slot ∉ a.leasedSlots := by
  have nodup := hand.balanced.nodup_iff.mpr nodup_range
  intro mem
  exact (nodup_cons.mp nodup).1 (mem_append_right _ (mem_append_right _ mem))

end

section
variable (wf : a.Ledger)
include wf

theorem Ledger.empty_of_undecided (undecided : a.slotSize = 0) :
    a.freeSlots = [] ∧ a.slotIndex.values = [] ∧ a.leasedSlots = [] := by
  have none : a.allSlots = [] := by
    have balanced := wf.balanced
    rw [wf.undecided undecided] at balanced
    exact balanced.eq_nil
  simpa [allSlots] using none

theorem Ledger.no_lease_of_undecided
    (undecided : a.slotSize = 0) (t : Nat) : a.reservations.get? t = none := by
  cases found : a.reservations.get? t with
  | none => rfl
  | some r =>
    have bound := wf.leaseFits t r found
    simp [undecided, headerBytes] at bound

theorem Ledger.ensureGrid (size : Nat) : (a.ensureGrid size).Ledger := by
  unfold SharedArena.ensureGrid
  split_ifs with decided tooLarge
  · exact wf
  · have undecided : a.slotSize = 0 := not_not.mp decided
    have empty := wf.empty_of_undecided undecided
    refine ⟨?_, fun _ => rfl, wf.freshToken, ?_⟩
    · simp [allSlots, leasedSlots] at empty ⊢
      simp [empty]
    · intro t r found
      simp [wf.no_lease_of_undecided undecided t] at found
  · have undecided : a.slotSize = 0 := not_not.mp decided
    have empty := wf.empty_of_undecided undecided
    have positive := slotSizeFor_pos size
    refine ⟨?_, fun zero => ?_, wf.freshToken, ?_⟩
    · simp only [allSlots, leasedSlots] at empty ⊢
      rw [empty.2.1, empty.2.2, append_nil, append_nil]
      exact reverse_perm _
    · simp only at zero
      omega
    · intro t r found
      simp [wf.no_lease_of_undecided undecided t] at found

theorem Ledger.takeSlot (taken : a.takeSlot = some (slot, b)) : InHand slot b := by
  have balanced := wf.balanced
  rcases takeSlot_cases taken with ⟨rest, free, rfl⟩ | ⟨free, victim, rest, popped, rfl⟩
  · refine { wf with balanced := ?_ }
    simpa [allSlots, leasedSlots, free] using balanced
  · refine { wf with balanced := ?_ }
    simpa [allSlots, leasedSlots, free, a.slotIndex.values_popFirst popped] using balanced

theorem Ledger.congr (free : b.freeSlots = a.freeSlots)
    (index : b.slotIndex.values.Perm a.slotIndex.values) (leases : b.reservations = a.reservations)
    (token : b.nextLeaseToken = a.nextLeaseToken) (grid : b.numSlots = a.numSlots)
    (size : b.slotSize = a.slotSize) : b.Ledger := by
  refine ⟨?_, ?_, ?_, ?_⟩
  · rw [allSlots, free, grid, leasedSlots, leases]
    exact ((index.append_right _).append_left _).trans wf.balanced
  · rw [size, grid]
    exact wf.undecided
  · rw [leases, token]
    exact wf.freshToken
  · rw [leases, size]
    exact wf.leaseFits

theorem Ledger.setSlot (slot : Nat) (contents : Slot) : (a.setSlot slot contents).Ledger :=
  wf.congr rfl (List.Perm.refl _) rfl rfl rfl rfl

theorem Ledger.refused (size : Nat) : (a.refused size).Ledger := by
  unfold SharedArena.refused
  split_ifs
  · exact wf
  · exact wf.ensureGrid size

theorem Ledger.endLease {lease : Reservation} (found : a.reservations.get? token = some lease) :
    InHand lease.slotId { a with reservations := a.reservations.erase token } := by
  refine ⟨List.Perm.trans ?_ wf.balanced, wf.undecided, ?_, ?_⟩
  · have moved := ((a.reservations.values_perm_erase found).map Reservation.slotId).symm
    simp only [allSlots]
    rw [← append_assoc, ← append_assoc]
    exact perm_middle.symm.trans (moved.append_left _)
  · exact fun t r kept => wf.freshToken t r (get?_of_erase kept).2
  · exact fun t r kept => wf.leaseFits t r (get?_of_erase kept).2

end

theorem slotIndex_takeSlot_of_absent {key : Bytes}
    (taken : a.takeSlot = some (slot, b)) (absent : a.slotIndex.get? key = none) :
    b.slotIndex.get? key = none := by
  rcases takeSlot_cases taken with ⟨rest, -, rfl⟩ | ⟨-, victim, rest, popped, rfl⟩
  · exact absent
  · simp [a.slotIndex.get?_popFirst popped, absent]

theorem takeSlot_frame (taken : a.takeSlot = some (slot, b)) :
    b.slotSize = a.slotSize ∧ b.numSlots = a.numSlots ∧ b.slots = a.slots ∧
      b.reservations = a.reservations ∧ b.nextLeaseToken = a.nextLeaseToken := by
  rcases takeSlot_cases taken with ⟨rest, -, rfl⟩ | ⟨-, victim, rest, -, rfl⟩ <;>
    exact ⟨rfl, rfl, rfl, rfl, rfl⟩

@[simp] theorem slotIndex_releaseKey_self (a : SharedArena) (key : Bytes) :
    (a.releaseKey key).slotIndex.get? key = none := by
  unfold releaseKey
  split
  · assumption
  · simp

theorem Ledger.put (wf : a.Ledger) (key value : Bytes) : (a.put key value).1.Ledger := by
  have released := (wf.ensureGrid value.length).releaseKey key
  rcases a.put_cases key value with ⟨-, eq⟩ | ⟨-, ⟨-, eq⟩ | ⟨slot, c, taken, eq⟩⟩
  · rw [eq]
    exact wf.refused value.length
  · rw [eq]
    exact released
  · have absent := slotIndex_takeSlot_of_absent taken (slotIndex_releaseKey_self _ key)
    rw [eq]
    exact ((released.takeSlot taken).index key absent).setSlot _ _

theorem le_slotSize_of_accepts {size : Nat} (ok : a.accepts size = true) :
    size + headerBytes ≤ (a.ensureGrid size).slotSize := by
  simp only [accepts, fits, Bool.and_eq_true, decide_eq_true_eq] at ok
  exact ok.2.2

theorem Ledger.reserve (wf : a.Ledger) (size : Int) (connectionId : Nat) :
    (a.reserve size connectionId).1.Ledger := by
  have grid := wf.ensureGrid size.toNat
  rcases a.reserve_cases size connectionId with ⟨b, rfl | rfl, eq⟩ | ⟨-, ok, slot, c, taken, eq⟩
  · rw [eq]
    exact wf
  · rw [eq]
    exact grid
  · have fits : size.toNat + headerBytes ≤ c.slotSize := by
      rw [(takeSlot_frame taken).1]
      exact le_slotSize_of_accepts ok
    rw [eq]
    exact ((grid.takeSlot taken).lease _ _ fits).setSlot _ _

section
variable (wf : a.Ledger) (key : Bytes) (notifyDrain : Bool)
include wf

theorem Ledger.commitReservation (token : Nat) (key : Bytes) (length : Int) (connectionId : Nat) :
    (a.commitReservation token key length connectionId).1.Ledger := by
  unfold SharedArena.commitReservation
  split
  · exact wf
  · rename_i lease found
    split_ifs with owner size
    · exact wf
    · exact wf
    · have hand := wf.endLease found
      have collision := commit_collision hand key
      have indexed := (hand.releaseKey key).index key (slotIndex_releaseKey_self _ key)
      rw [← collision.2] at indexed
      simp only at collision ⊢
      rw [collision.1]
      exact indexed.setSlot _ _

theorem Ledger.cancelReservation (token connectionId : Nat) :
    (a.cancelReservation token connectionId).1.Ledger := by
  unfold SharedArena.cancelReservation
  split
  · exact wf
  · rename_i lease found
    split_ifs with owner
    · exact wf
    · exact (wf.endLease found).free

theorem Ledger.cancelConnectionReservations
    (connectionId : Nat) : (a.cancelConnectionReservations connectionId).1.Ledger := by
  unfold SharedArena.cancelConnectionReservations
  refine ⟨List.Perm.trans ?_ wf.balanced, wf.undecided, ?_, ?_⟩
  · have split := filter_append_perm (fun kv : Nat × Reservation =>
      decide (kv.2.connectionId = connectionId)) a.reservations.items
    have slots := (split.map Prod.snd).map Reservation.slotId
    simp only [map_append] at slots
    simp only [allSlots, decide_not] at slots ⊢
    rw [append_assoc]
    refine ((reverse_perm _).append_right _).trans ?_
    refine (perm_append_comm_assoc _ _ _).trans (List.Perm.append_left _ ?_)
    exact (perm_append_comm_assoc _ _ _).trans (slots.append_left _)
  · intro t r kept
    exact wf.freshToken t r (get?_filter_eq_some_iff.mp kept).1
  · intro t r kept
    exact wf.leaseFits t r (get?_filter_eq_some_iff.mp kept).1

theorem Ledger.evictLru : (a.evictLru notifyDrain).1.Ledger := by
  unfold SharedArena.evictLru
  split
  · exact wf
  · rename_i key slot rest popped
    refine { wf with balanced := List.Perm.trans ?_ wf.balanced }
    simp only [allSlots, a.slotIndex.values_popFirst popped]
    exact perm_middle.symm

theorem Ledger.evictKey : (a.evictKey key notifyDrain).1.Ledger := by
  unfold SharedArena.evictKey
  split
  · exact wf
  · exact (wf.releaseKey key).congr rfl (List.Perm.refl _) rfl rfl rfl rfl

theorem Ledger.getSlotForKey : (a.getSlotForKey key).1.Ledger := by
  unfold SharedArena.getSlotForKey
  split
  · exact wf
  · rename_i slot found
    refine wf.congr rfl ?_ rfl rfl rfl rfl
    rw [values_set_of_fresh _ _ _ (by simp)]
    exact (perm_append_singleton _ _).trans (a.slotIndex.values_perm_erase found).symm

theorem Ledger.drainRecentEvictions : a.drainRecentEvictions.1.Ledger :=
  wf.congr rfl (List.Perm.refl _) rfl rfl rfl rfl

theorem Ledger.clear (unleased : a.leasedSlots = []) : a.clear.Ledger := by
  refine { wf with balanced := ?_ }
  simp only [SharedArena.clear, allSlots, leasedSlots] at unleased ⊢
  rw [unleased]
  simp [values, empty]

/-- The operations on an arena, including the engine's stores through its own mapping. -/
inductive Op where
  | put (key value : Bytes)
  | drainRecentEvictions
  | reserve (size : Int) (connectionId : Nat)
  | commitReservation (token : Nat) (key : Bytes) (length : Int) (connectionId : Nat)
  | cancelReservation (token connectionId : Nat)
  | cancelConnectionReservations (connectionId : Nat)
  | getSlotForKey (key : Bytes)
  | evictLru (notifyDrain : Bool)
  | evictKey (key : Bytes) (notifyDrain : Bool)
  | clear
  | engineWrite (slot offset : Nat) (data : Bytes)

def step (a : SharedArena) : Op → SharedArena
  | .put key value => (a.put key value).1
  | .drainRecentEvictions => a.drainRecentEvictions.1
  | .reserve size connectionId => (a.reserve size connectionId).1
  | .commitReservation token key length connectionId =>
    (a.commitReservation token key length connectionId).1
  | .cancelReservation token connectionId => (a.cancelReservation token connectionId).1
  | .cancelConnectionReservations connectionId => (a.cancelConnectionReservations connectionId).1
  | .getSlotForKey key => (a.getSlotForKey key).1
  | .evictLru notifyDrain => (a.evictLru notifyDrain).1
  | .evictKey key notifyDrain => (a.evictKey key notifyDrain).1
  | .clear => a.clear
  | .engineWrite slot offset data => a.engineWrite slot offset data

/-- An arena as its constructor leaves it, which refuses a capacity of zero. -/
def Fresh (a : SharedArena) : Prop := ∃ capacity, 0 < capacity ∧ a = new capacity

def ClearUnleased (a : SharedArena) : Op → Prop
  | .clear => a.reservations.items = []
  | _ => True

theorem Ledger.step (op : Op) (meets : ClearUnleased a op) : (a.step op).Ledger := by
  cases op with
  | put key value => exact wf.put key value
  | drainRecentEvictions => exact wf.drainRecentEvictions
  | reserve size connectionId => exact wf.reserve size connectionId
  | commitReservation token key length connectionId =>
    exact wf.commitReservation token key length connectionId
  | cancelReservation token connectionId => exact wf.cancelReservation token connectionId
  | cancelConnectionReservations connectionId =>
    exact wf.cancelConnectionReservations connectionId
  | getSlotForKey key => exact wf.getSlotForKey key
  | evictLru notifyDrain => exact wf.evictLru notifyDrain
  | evictKey key notifyDrain => exact wf.evictKey key notifyDrain
  | clear =>
    have none : a.reservations.items = [] := meets
    exact wf.clear (by simp [leasedSlots, values, none])
  | engineWrite slot offset data => exact wf.setSlot _ _

end

theorem ledger_of_reaches (reached : Reaches Fresh step ClearUnleased a) : a.Ledger := by
  refine reached.invariant ?_ fun a op wf meets => wf.step op meets
  intro a fresh
  obtain ⟨capacity, -, rfl⟩ := fresh
  exact ledger_new capacity

/-- Free list, index and leases share no slot, repeat none, and cover the grid. -/
structure Partitioned (a : SharedArena) : Prop where
  freeNodup : a.freeSlots.Nodup
  indexInjective : ∀ k k' slot, a.slotIndex.get? k = some slot →
    a.slotIndex.get? k' = some slot → k = k'
  leaseInjective : ∀ t t' r r', a.reservations.get? t = some r → a.reservations.get? t' = some r' →
    r.slotId = r'.slotId → t = t'
  freeNotIndexed : ∀ slot ∈ a.freeSlots, slot ∉ a.slotIndex.values
  freeNotLeased : ∀ slot ∈ a.freeSlots, slot ∉ a.leasedSlots
  indexedNotLeased : ∀ slot ∈ a.slotIndex.values, slot ∉ a.leasedSlots
  cover : ∀ slot, (slot ∈ a.freeSlots ∨ slot ∈ a.slotIndex.values ∨ slot ∈ a.leasedSlots) ↔
    slot < a.numSlots

theorem Ledger.partitioned (wf : a.Ledger) : a.Partitioned := by
  have nodup := wf.balanced.nodup_iff.mpr nodup_range
  rw [allSlots, nodup_append] at nodup
  obtain ⟨freeNodup, rest, freeApart⟩ := nodup
  rw [nodup_append] at rest
  obtain ⟨indexNodup, leaseNodup, indexApart⟩ := rest
  refine ⟨freeNodup, ?_, ?_, ?_, ?_, ?_, ?_⟩
  · intro k k' slot found found'
    exact a.slotIndex.key_unique id (by simpa using indexNodup) found found' rfl
  · intro t t' r r' found found' same
    exact a.reservations.key_unique Reservation.slotId leaseNodup found found' same
  · intro slot free indexed
    exact freeApart slot free slot (mem_append_left _ indexed) rfl
  · intro slot free leased
    exact freeApart slot free slot (mem_append_right _ leased) rfl
  · intro slot indexed leased
    exact indexApart slot indexed slot leased rfl
  · intro slot
    have mem := wf.balanced.mem_iff (a := slot)
    simpa [allSlots] using mem

section
variable (a : SharedArena)

@[simp] theorem reservations_ensureGrid (size : Nat) :
    (a.ensureGrid size).reservations = a.reservations := by
  unfold ensureGrid
  split_ifs <;> rfl

@[simp] theorem reservations_releaseKey (key : Bytes) :
    (a.releaseKey key).reservations = a.reservations := by
  unfold releaseKey
  split <;> rfl

@[simp] theorem nextLeaseToken_ensureGrid (size : Nat) :
    (a.ensureGrid size).nextLeaseToken = a.nextLeaseToken := by
  unfold ensureGrid
  split_ifs <;> rfl

@[simp] theorem reservations_put (key value : Bytes) :
    (a.put key value).1.reservations = a.reservations := by
  rcases a.put_cases key value with ⟨-, eq⟩ | ⟨-, ⟨-, eq⟩ | ⟨slot, c, taken, eq⟩⟩
  · rw [eq, refused]
    split_ifs <;> simp
  · simp [eq]
  · simp [eq, (takeSlot_frame taken).2.2.2.1]

end

theorem Ledger.put_not_leased (wf : a.Ledger) {key value : Bytes}
    (handed : (a.put key value).2 = .ok (some slot)) : slot ∉ a.leasedSlots := by
  rcases a.put_cases key value with ⟨-, eq⟩ | ⟨-, ⟨-, eq⟩ | ⟨taken, c, took, eq⟩⟩
  · simp [eq] at handed
  · simp [eq] at handed
  · have same : taken = slot := by
      rw [eq] at handed
      cases written : ((c.slots taken).writeSeqlock value).2 with
      | error e => simp [written, Except.map] at handed
      | ok u => simpa [written, Except.map] using handed
    have apart := (((wf.ensureGrid value.length).releaseKey key).takeSlot took).not_leased
    rwa [leasedSlots, (takeSlot_frame took).2.2.2.1, reservations_releaseKey,
      reservations_ensureGrid, same] at apart

theorem Ledger.reserve_not_leased (wf : a.Ledger) {size : Int} {connectionId offset : Nat}
    (handed : (a.reserve size connectionId).2 = .ok (some (token, slot, offset))) :
    slot ∉ a.leasedSlots := by
  rcases a.reserve_cases size connectionId with ⟨b, -, eq⟩ | ⟨-, -, taken, c, took, eq⟩
  · simp [eq] at handed
  · have same : taken = slot := by
      rw [eq] at handed
      cases written : (c.slots taken).markReserved.2 with
      | error e => simp [written, Except.map] at handed
      | ok u =>
        simp only [written, Except.map, Except.ok.injEq, Option.some.injEq, Prod.mk.injEq] at handed
        exact handed.2.1
    have apart := ((wf.ensureGrid size.toNat).takeSlot took).not_leased
    rwa [leasedSlots, (takeSlot_frame took).2.2.2.1, reservations_ensureGrid, same] at apart

/-- The operations that end a lease: its commit, its cancel, its connection's end. -/
def EndsLease (token : Nat) (lease : Reservation) : Op → Prop
  | .commitReservation t _ _ _ => t = token
  | .cancelReservation t _ => t = token
  | .cancelConnectionReservations c => c = lease.connectionId
  | _ => False

theorem Ledger.lease_kept (wf : a.Ledger) {lease : Reservation}
    (held : a.reservations.get? token = some lease) (op : Op) (other : ¬EndsLease token lease op) :
    (a.step op).reservations.get? token = some lease := by
  cases op with
  | put key value => simpa [SharedArena.step] using held
  | drainRecentEvictions | clear | engineWrite => exact held
  | reserve size connectionId =>
    simp only [SharedArena.step]
    rcases a.reserve_cases size connectionId with ⟨b, rfl | rfl, eq⟩ | ⟨-, -, slot, c, took, eq⟩
    · simpa [eq] using held
    · simpa [eq] using held
    · have fresh : token ≠ c.nextLeaseToken := by
        have below := wf.freshToken token lease held
        rw [(takeSlot_frame took).2.2.2.2, nextLeaseToken_ensureGrid]
        omega
      simp [eq, get?_set_of_ne fresh, (takeSlot_frame took).2.2.2.1, held]
  | commitReservation t =>
    have differ : token ≠ t := fun same => other same.symm
    simp only [SharedArena.step, SharedArena.commitReservation]
    split
    · exact held
    · split_ifs
      · exact held
      · exact held
      · simpa [SharedArena.setSlot, get?_erase_of_ne differ] using held
  | cancelReservation t connectionId =>
    have differ : token ≠ t := fun same => other same.symm
    simp only [SharedArena.step, SharedArena.cancelReservation]
    split
    · exact held
    · split_ifs
      · exact held
      · simpa [get?_erase_of_ne differ] using held
  | cancelConnectionReservations connectionId =>
    have differ : lease.connectionId ≠ connectionId := fun same => other same.symm
    simp only [SharedArena.step, SharedArena.cancelConnectionReservations, get?_filter_eq_some_iff]
    exact ⟨held, by simpa using differ⟩
  | getSlotForKey key =>
    simp only [SharedArena.step, SharedArena.getSlotForKey]
    split <;> exact held
  | evictLru notifyDrain =>
    simp only [SharedArena.step, SharedArena.evictLru]
    split <;> exact held
  | evictKey key notifyDrain =>
    simp only [SharedArena.step, SharedArena.evictKey]
    split
    · exact held
    · simpa using held

/-- In a run that clears only between leases, the containers partition the grid and a
leased slot is handed to nobody until its lease ends. -/
theorem slots_partitioned_of_clear_unleased {a : SharedArena}
    (reached : Reaches Fresh step ClearUnleased a) :
    (a.slotSize ≠ 0 → a.Partitioned) ∧
      (∀ key value slot, (a.put key value).2 = .ok (some slot) → slot ∉ a.leasedSlots) ∧
      (∀ size connectionId token slot offset,
        (a.reserve size connectionId).2 = .ok (some (token, slot, offset)) → slot ∉ a.leasedSlots) ∧
      ∀ op token lease, a.reservations.get? token = some lease → ¬EndsLease token lease op →
        (a.step op).reservations.get? token = some lease := by
  have wf := ledger_of_reaches reached
  exact ⟨fun _ => wf.partitioned, fun _ _ _ => wf.put_not_leased,
    fun _ _ _ _ _ => wf.reserve_not_leased, fun op _ _ held => wf.lease_kept held op⟩

def clearedLease : SharedArena := [Op.reserve 8 1, .clear].foldl step (new 64)

theorem clear_frees_leased_slot :
    Reaches Fresh step (fun _ _ => True) clearedLease ∧ clearedLease.slotSize ≠ 0 ∧
      ¬clearedLease.Partitioned ∧ clearedLease.leasedSlots = [0] ∧
      (clearedLease.reserve 8 2).2 = .ok (some (2, 0, 16)) := by
  refine ⟨Reaches.unconditional _ ⟨64, by decide, rfl⟩, by decide, ?_, by decide, rfl⟩
  intro partitioned
  exact partitioned.freeNotLeased 0 (by decide) (by decide)

def clearedUnleased : SharedArena :=
  [Op.reserve 8 1, .put [1] [7], .cancelReservation 1 1, .clear].foldl step (new 128)

theorem clearedUnleased_partitioned :
    clearedUnleased.slotSize ≠ 0 ∧ clearedUnleased.Partitioned := by
  have start : Reaches Fresh step ClearUnleased (new 128) := .start ⟨128, by decide, rfl⟩
  have leased := Reaches.next (Op.reserve 8 1) start trivial
  have written := Reaches.next (Op.put [1] [7]) leased trivial
  have ended := Reaches.next (Op.cancelReservation 1 1) written trivial
  have reached : Reaches Fresh step ClearUnleased clearedUnleased :=
    Reaches.next Op.clear ended (by decide : _ = [])
  have decided : clearedUnleased.slotSize ≠ 0 := by decide
  exact ⟨decided, (slots_partitioned_of_clear_unleased reached).1 decided⟩

end SharedArena
end Infera.Kvd
