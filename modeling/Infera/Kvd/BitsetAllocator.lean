import Mathlib

/-! The slot allocator of the tablespace: one bit per slot, slots grouped into
containers, a byte cursor and a count per container. A container is scanned a
byte at a time from its cursor, wrapping once; the hash of the key picks the
container tried first. Only what the bits say is used by the proofs: an
allocation takes a clear bit inside the grid and sets it. -/

namespace Infera.Kvd
open List Function

structure BitsetAllocator where
  totalSlots : Nat
  numContainers : Nat
  slotsPerContainer : Nat
  bits : Nat → Bool
  allocated : Nat
  perContainerCursor : Nat → Nat
  perContainerAllocated : Nat → Nat

namespace BitsetAllocator
variable {a b : BitsetAllocator} {slot : Nat}

def new (totalSlots numContainers slotsPerContainer : Nat) : BitsetAllocator :=
  { totalSlots, numContainers, slotsPerContainer, bits := fun _ => false, allocated := 0,
    perContainerCursor _ := 0, perContainerAllocated := fun _ => 0 }

variable (a) (container : Nat)

def numFree : Nat := a.totalSlots - a.allocated

def isSet (slot : Nat) : Bool := slot < a.totalSlots && a.bits slot

/-- Bytes of the bitmap that hold one container, the last one maybe in part. -/
def localBytes : Nat := (a.slotsPerContainer + 7) / 8

def byteSlots (container localByte : Nat) : List Nat :=
  ((List.range 8).map fun bit =>
    container * a.slotsPerContainer + (localByte * 8 + bit)).takeWhile fun slot =>
      slot < (container + 1) * a.slotsPerContainer && slot < a.totalSlots

/-- The slots of a container with their local byte, in the order they are tried. -/
def scan : List (Nat × Nat) :=
  (List.range a.localBytes).flatMap fun offset =>
    let localByte := (a.perContainerCursor container + offset) % a.localBytes
    (a.byteSlots container localByte).map fun slot => (localByte, slot)

def allocInContainer : Option (Nat × BitsetAllocator) :=
  if a.perContainerAllocated container ≥ a.slotsPerContainer then none
  else
    match (a.scan container).find? fun p => !a.bits p.2 with
    | none => none
    | some (localByte, slot) =>
      some (slot,
        { a with
          bits := update a.bits slot true
          allocated := a.allocated + 1
          perContainerAllocated := update a.perContainerAllocated container
            (a.perContainerAllocated container + 1)
          perContainerCursor := update a.perContainerCursor container localByte })

/-- The container of the hash, then the others in order, wrapping. -/
def alloc (keyHash : Nat) : Option (Nat × BitsetAllocator) :=
  if a.allocated ≥ a.totalSlots then none
  else
    (List.range a.numContainers).findSome? fun offset =>
      a.allocInContainer ((keyHash % a.numContainers + offset) % a.numContainers)

def free (slot : Nat) : BitsetAllocator :=
  if a.isSet slot then
    let container := slot / a.slotsPerContainer
    { a with
      bits := update a.bits slot false
      allocated := a.allocated - 1
      perContainerAllocated :=
        if container < a.numContainers then
          update a.perContainerAllocated container (a.perContainerAllocated container - 1)
        else a.perContainerAllocated }
  else a

/-- Replay's way to take a slot; the caller has checked that it is in the grid. -/
def markUsed (slot : Nat) : BitsetAllocator :=
  if a.isSet slot then a
  else
    let container := slot / a.slotsPerContainer
    { a with
      bits := update a.bits slot true
      allocated := a.allocated + 1
      perContainerAllocated :=
        if container < a.numContainers then
          update a.perContainerAllocated container (a.perContainerAllocated container + 1)
        else a.perContainerAllocated }

def containerSlots : List Nat :=
  ((List.range a.slotsPerContainer).map fun i =>
    container * a.slotsPerContainer + i).takeWhile fun slot => slot < a.totalSlots

def firstFreeByte : Nat :=
  match (a.containerSlots container).find? fun slot => !a.bits slot with
  | none => 0
  | some slot => min ((slot - container * a.slotsPerContainer) / 8) (a.localBytes - 1)

def recomputeState : BitsetAllocator :=
  let count := fun container => (a.containerSlots container).countP a.bits
  { a with
    allocated := ((List.range a.numContainers).map count).sum
    perContainerAllocated := count
    perContainerCursor := a.firstFreeByte }

structure SameGrid (a b : BitsetAllocator) : Prop where
  totalSlots : b.totalSlots = a.totalSlots
  numContainers : b.numContainers = a.numContainers
  slotsPerContainer : b.slotsPerContainer = a.slotsPerContainer

theorem SameGrid.refl : SameGrid a a := ⟨rfl, rfl, rfl⟩

variable {a}

theorem SameGrid.trans {c : BitsetAllocator} (first : SameGrid a b) (second : SameGrid b c) :
    SameGrid a c :=
  ⟨second.totalSlots.trans first.totalSlots, second.numContainers.trans first.numContainers,
    second.slotsPerContainer.trans first.slotsPerContainer⟩

structure Allocated (a b : BitsetAllocator) (slot : Nat) : Prop where
  inGrid : slot < a.totalSlots
  wasFree : a.bits slot = false
  bits : b.bits = update a.bits slot true
  grid : SameGrid a b

theorem mem_byteSlots {container localByte : Nat}
    (mem : slot ∈ a.byteSlots container localByte) : slot < a.totalSlots := by
  have inside := mem_takeWhile_imp mem
  simp only [Bool.and_eq_true, decide_eq_true_eq] at inside
  exact inside.2

theorem allocInContainer_allocated {container : Nat}
    (took : a.allocInContainer container = some (slot, b)) : Allocated a b slot := by
  unfold allocInContainer at took
  split_ifs at took
  split at took
  · simp at took
  · rename_i localByte slot' found
    obtain ⟨rfl, rfl⟩ := took
    have free := find?_some found
    have mem := mem_of_find?_eq_some found
    obtain ⟨offset, -, mem⟩ := mem_flatMap.mp mem
    obtain ⟨slot'', inByte, eq⟩ := mem_map.mp mem
    cases eq
    exact ⟨mem_byteSlots inByte, by simpa using free, rfl, rfl, rfl, rfl⟩

theorem alloc_allocated {keyHash : Nat}
    (took : a.alloc keyHash = some (slot, b)) : Allocated a b slot := by
  unfold alloc at took
  split_ifs at took
  obtain ⟨offset, -, took⟩ := exists_of_findSome?_eq_some took
  exact allocInContainer_allocated took

variable (a)

theorem bits_free (slot s : Nat) : (a.free slot).bits s = true → a.bits s = true := by
  intro set
  unfold free at set
  split_ifs at set
  · by_cases same : s = slot
    · simp [same] at set
    · simpa [update_of_ne same] using set
  · exact set

theorem bits_free_of_ne {s : Nat} (other : s ≠ slot) : (a.free slot).bits s = a.bits s := by
  unfold free
  split_ifs
  · simp [update_of_ne other]
  · rfl

theorem bits_free_self (inGrid : slot < a.totalSlots) : (a.free slot).bits slot = false := by
  unfold free isSet
  split_ifs with set
  · simp
  · simpa [inGrid] using set

theorem sameGrid_free (slot : Nat) : SameGrid a (a.free slot) := by
  unfold free
  split_ifs <;> exact ⟨rfl, rfl, rfl⟩

theorem bits_markUsed (slot : Nat) : (a.markUsed slot).bits = update a.bits slot true := by
  unfold markUsed isSet
  split_ifs with set
  · simp only [Bool.and_eq_true] at set
    rw [← set.2, update_eq_self]
  · rfl

theorem sameGrid_markUsed (slot : Nat) : SameGrid a (a.markUsed slot) := by
  unfold markUsed
  split_ifs <;> exact ⟨rfl, rfl, rfl⟩

variable {a}

end BitsetAllocator
end Infera.Kvd
