import Infera.Kvd.Types

/-! The shared-memory arena: a grid of fixed-size slots over one mapping, each
with a seqlock header (version, length) before its payload. Slots move between
three containers, the free list, the key index (in LRU order) and the leases
taken by `reserve`.

A `Slot` holds what the mapping holds at that grid position. Header fields are
written with `struct.pack("<I", ..)`, which raises from `2 ^ 32` on; a write that
raises leaves the stores made before it. The free list is kept top first, since
the code pops from its end. Counters and log flags are not modelled: no
operation reads them. -/

namespace Infera.Kvd

def headerBytes : Nat := 16

def slotAlignment : Nat := 64

def evictLogCap : Nat := 4096

/-- `struct.pack("<I", n)` raises outside 32 bits. -/
def packsU32 (n : Nat) : Prop := n < 2 ^ 32

instance (n : Nat) : Decidable (packsU32 n) := inferInstanceAs (Decidable (n < 2 ^ 32))

/-- One grid position of the mapping. Even versions are stable, odd ones mid-write. -/
structure Slot where
  version : Nat
  length : Nat
  payload : Nat → UInt8

namespace Slot

def zero : Slot := ⟨0, 0, fun _ => 0⟩

variable (s : Slot)

def bytes (n : Nat) : Bytes := (List.range n).map s.payload

def store (payload : Nat → UInt8) (offset : Nat) (value : Bytes) : Nat → UInt8 :=
  fun i => if offset ≤ i then (value[i - offset]?).getD (payload i) else payload i

def midVersion : Nat := if s.version % 2 = 0 then s.version + 1 else s.version + 2

def writeSeqlock (value : Bytes) : Slot × Except PyErr Unit :=
  if ¬packsU32 s.midVersion then (s, .error .structError)
  else
    let marked := { s with version := s.midVersion, payload := store s.payload 0 value }
    if ¬packsU32 value.length then (marked, .error .structError)
    else
      let sized := { marked with length := value.length }
      if ¬packsU32 (s.midVersion + 1) then (sized, .error .structError)
      else ({ sized with version := s.midVersion + 1 }, .ok ())

def markReserved : Slot × Except PyErr Unit :=
  if ¬packsU32 s.midVersion then (s, .error .structError)
  else ({ s with version := s.midVersion, length := 0 }, .ok ())

def stampCommitted (length : Nat) : Slot × Except PyErr Unit :=
  let stable := if s.version % 2 = 1 then s.version + 1 else s.version + 2
  if ¬packsU32 length then (s, .error .structError)
  else if ¬packsU32 stable then ({ s with length := length }, .error .structError)
  else ({ s with length := length, version := stable }, .ok ())

end Slot

structure Reservation where
  slotId : Nat
  promisedSize : Nat
  connectionId : Nat
  deriving DecidableEq

structure SharedArena where
  capacity : Nat
  slotSize : Nat
  numSlots : Nat
  freeSlots : List Nat
  slotIndex : Dict Bytes Nat
  recentEvictedKeys : List Bytes
  reservations : Dict Nat Reservation
  nextLeaseToken : Nat
  slots : Nat → Slot

namespace SharedArena

def new (capacity : Nat) : SharedArena :=
  { capacity, slotSize := 0, numSlots := 0, freeSlots := [], slotIndex := .empty,
    recentEvictedKeys := [], reservations := .empty, nextLeaseToken := 1,
    slots _ := .zero }

/-- Header plus payload, rounded up to the slot alignment. -/
def slotSizeFor (size : Nat) : Nat :=
  (size + headerBytes + slotAlignment - 1) / slotAlignment * slotAlignment

variable (a : SharedArena) (key : Bytes) (size : Int) (connectionId : Nat)

/-- The first-touch decision of the slot grid; nothing when it is decided. -/
def ensureGrid (size : Nat) : SharedArena :=
  if a.slotSize ≠ 0 then a
  else if a.capacity / slotSizeFor size = 0 then { a with slotSize := 0, numSlots := 0 }
  else
    { a with
      slotSize := slotSizeFor size
      numSlots := a.capacity / slotSizeFor size
      freeSlots := (List.range (a.capacity / slotSizeFor size)).reverse }

def fits (size : Nat) : Bool :=
  a.slotSize ≠ 0 && size + headerBytes ≤ a.slotSize

def logEvicted (log : List Bytes) (key : Bytes) : List Bytes :=
  if log.length < evictLogCap then log ++ [key] else (log ++ [key]).drop 1

def releaseKey : SharedArena :=
  match a.slotIndex.get? key with
  | none => a
  | some slot => { a with slotIndex := a.slotIndex.erase key, freeSlots := slot :: a.freeSlots }

/-- A free slot, else the slot of the least recently written key. -/
def takeSlot : Option (Nat × SharedArena) :=
  match a.freeSlots with
  | slot :: rest => some (slot, { a with freeSlots := rest })
  | [] =>
    match a.slotIndex.popFirst with
    | some ((key, slot), rest) =>
      some (slot, { a with
        slotIndex := rest
        recentEvictedKeys := logEvicted a.recentEvictedKeys key })
    | none => none

def setSlot (slot : Nat) (contents : Slot) : SharedArena :=
  { a with slots := Function.update a.slots slot contents }

/-- `none` when the block does not fit. `popitem` on an empty index (every slot
leased) raises `KeyError`; a header overflow raises after the slot was assigned. -/
def put (key value : Bytes) : SharedArena × Except PyErr (Option Nat) :=
  if value.length > a.capacity then (a, .ok none)
  else
    let a := a.ensureGrid value.length
    if a.fits value.length = false then (a, .ok none)
    else
      let a := a.releaseKey key
      match a.takeSlot with
      | none => (a, .error .keyError)
      | some (slot, a) =>
        let a := { a with slotIndex := a.slotIndex.set key slot }
        let (contents, written) := (a.slots slot).writeSeqlock value
        (a.setSlot slot contents, written.map fun _ => some slot)

def drainRecentEvictions : SharedArena × List Bytes :=
  ({ a with recentEvictedKeys := [] }, a.recentEvictedKeys)

/-- Lease token, slot and payload offset; `none` when refused. -/
def reserve : SharedArena × Except PyErr (Option (Nat × Nat × Nat)) :=
  if size ≤ 0 then (a, .ok none)
  else if size.toNat > a.capacity then (a, .ok none)
  else
    let a := a.ensureGrid size.toNat
    if a.fits size.toNat = false then (a, .ok none)
    else
      match a.takeSlot with
      | none => (a, .ok none)
      | some (slot, a) =>
        let token := a.nextLeaseToken
        let a := { a with
          nextLeaseToken := token + 1
          reservations := a.reservations.set token ⟨slot, size.toNat, connectionId⟩ }
        let (contents, written) := (a.slots slot).markReserved
        (a.setSlot slot contents,
          written.map fun _ => some (token, slot, slot * a.slotSize + headerBytes))

inductive CommitResult where
  | refused (reason : String)
  | committed (overwrittenKey : Option Bytes)
  deriving DecidableEq

def commitReservation (token : Nat) (key : Bytes) (length : Int)
    (connectionId : Nat) : SharedArena × Except PyErr CommitResult :=
  match a.reservations.get? token with
  | none => (a, .ok (.refused "unknown_lease"))
  | some lease =>
    if lease.connectionId ≠ connectionId then (a, .ok (.refused "wrong_owner"))
    else if length < 0 ∨ length > lease.promisedSize then (a, .ok (.refused "oversize_commit"))
    else
      let slot := lease.slotId
      let oldSlot := a.slotIndex.get? key
      let freed := oldSlot.filter fun old => old ≠ slot
      let a := { a with
        slotIndex := (a.slotIndex.erase key).set key slot
        freeSlots := freed.toList ++ a.freeSlots
        reservations := a.reservations.erase token }
      let (contents, written) := (a.slots slot).stampCommitted length.toNat
      (a.setSlot slot contents, written.map fun _ => .committed (freed.map fun _ => key))

def cancelReservation (token connectionId : Nat) : SharedArena × Bool :=
  match a.reservations.get? token with
  | none => (a, false)
  | some lease =>
    if lease.connectionId ≠ connectionId then (a, false)
    else
      ({ a with
        reservations := a.reservations.erase token
        freeSlots := lease.slotId :: a.freeSlots }, true)

/-- The slots of the connection's leases go onto the free list, oldest lease first. -/
def cancelConnectionReservations : SharedArena × Nat :=
  let doomed := (a.reservations.filter fun _ r => r.connectionId = connectionId).values
  ({ a with
    reservations := a.reservations.filter fun _ r => r.connectionId ≠ connectionId
    freeSlots := (doomed.map Reservation.slotId).reverse ++ a.freeSlots }, doomed.length)

/-- The payload of a stable slot; a mid-write version or a bogus length reads as `none`. -/
def getSlice (slot : Int) : Option Bytes :=
  if slot < 0 ∨ slot ≥ a.numSlots then none
  else
    let s := a.slots slot.toNat
    if s.version % 2 ≠ 0 then none
    else if s.length > a.slotSize - headerBytes then none
    else some (s.bytes s.length)

def getSlotForKey : SharedArena × Option Nat :=
  match a.slotIndex.get? key with
  | none => (a, none)
  | some slot => ({ a with slotIndex := (a.slotIndex.erase key).set key slot }, some slot)

def getSlotMetadata (slot : Int) : Option (Nat × Nat × Nat) :=
  if slot < 0 ∨ slot ≥ a.numSlots then none
  else
    let s := a.slots slot.toNat
    some (slot.toNat * a.slotSize + headerBytes, s.length, s.version)

def wouldAcceptSize (size : Nat) : Bool :=
  if a.slotSize = 0 then size + headerBytes ≤ a.capacity else size + headerBytes ≤ a.slotSize

def evictLru (notifyDrain : Bool) : SharedArena × Option Bytes :=
  match a.slotIndex.popFirst with
  | none => (a, none)
  | some ((key, slot), rest) =>
    ({ a with
      slotIndex := rest
      freeSlots := slot :: a.freeSlots
      recentEvictedKeys :=
        if notifyDrain then logEvicted a.recentEvictedKeys key else a.recentEvictedKeys },
      some key)

def evictKey (notifyDrain : Bool) : SharedArena × Bool :=
  match a.slotIndex.get? key with
  | none => (a, false)
  | some _ =>
    ({ a.releaseKey key with
      recentEvictedKeys :=
        if notifyDrain then logEvicted a.recentEvictedKeys key else a.recentEvictedKeys }, true)

def clear : SharedArena :=
  { a with slotIndex := .empty, freeSlots := (List.range a.numSlots).reverse }

/-- The engine's own stores, through its mapping, into the payload range it was handed. -/
def engineWrite (slot offset : Nat) (data : Bytes) : SharedArena :=
  a.setSlot slot { a.slots slot with payload := Slot.store (a.slots slot).payload offset data }

/-- What the worker's seqlock reader returns for an `(offset, length, version)` triple. -/
def readSlotSeqlock (slotOffset length expectedVersion : Nat) : Option Bytes :=
  if slotOffset < headerBytes then none
  else
    let s := a.slots ((slotOffset - headerBytes) / a.slotSize)
    if s.version % 2 ≠ 0 ∨ s.version ≠ expectedVersion then none else some (s.bytes length)

/-- The block passes both size checks of `put` and `reserve`. -/
def accepts (size : Nat) : Bool :=
  size ≤ a.capacity && (a.ensureGrid size).fits size

/-- The state of a refused allocation: at most the grid decision was made. -/
def refused (size : Nat) : SharedArena :=
  if size > a.capacity then a else a.ensureGrid size

theorem takeSlot_cases {a b : SharedArena} {slot : Nat} (taken : a.takeSlot = some (slot, b)) :
    (∃ rest, a.freeSlots = slot :: rest ∧ b = { a with freeSlots := rest }) ∨
      (a.freeSlots = [] ∧ ∃ victim rest, a.slotIndex.popFirst = some ((victim, slot), rest) ∧
        b = { a with
          slotIndex := rest
          recentEvictedKeys := logEvicted a.recentEvictedKeys victim }) := by
  unfold takeSlot at taken
  split at taken
  · rename_i first rest free
    simp only [Option.some.injEq, Prod.mk.injEq] at taken
    exact .inl ⟨rest, taken.1 ▸ free, taken.2.symm⟩
  · rename_i free
    split at taken
    · rename_i victim first rest popped
      simp only [Option.some.injEq, Prod.mk.injEq] at taken
      exact .inr ⟨free, victim, rest, taken.1 ▸ popped, taken.2.symm⟩
    · simp at taken

theorem takeSlot_eq_none {a : SharedArena} (taken : a.takeSlot = none) :
    a.freeSlots = [] ∧ a.slotIndex.items = [] := by
  unfold takeSlot at taken
  split at taken
  · simp at taken
  · rename_i free
    split at taken
    · simp at taken
    · rename_i popped
      exact ⟨free, a.slotIndex.popFirst_eq_none popped⟩

/-- The header store gives the slot's contents and whether it raised. -/
def placed (slot : Nat) (value : Bytes) : SharedArena :=
  { a with slotIndex := a.slotIndex.set key slot }.setSlot slot
    ((a.slots slot).writeSeqlock value).1

def leased (slot size connectionId : Nat) : SharedArena :=
  { a with
    nextLeaseToken := a.nextLeaseToken + 1
    reservations := a.reservations.set a.nextLeaseToken ⟨slot, size, connectionId⟩ }.setSlot slot
      (a.slots slot).markReserved.1

section
variable (a : SharedArena) (slot : Nat) (contents : Slot) (key value : Bytes)

@[simp] theorem slots_setSlot :
    (a.setSlot slot contents).slots = Function.update a.slots slot contents := rfl

@[simp] theorem slotIndex_setSlot : (a.setSlot slot contents).slotIndex = a.slotIndex := rfl

@[simp] theorem slots_placed : (a.placed key slot value).slots =
      Function.update a.slots slot ((a.slots slot).writeSeqlock value).1 := rfl

@[simp] theorem slotIndex_placed : (a.placed key slot value).slotIndex = a.slotIndex.set key slot :=
  rfl

@[simp] theorem slotSize_placed : (a.placed key slot value).slotSize = a.slotSize := rfl

@[simp] theorem numSlots_placed : (a.placed key slot value).numSlots = a.numSlots := rfl

@[simp] theorem recentEvictedKeys_placed :
    (a.placed key slot value).recentEvictedKeys = a.recentEvictedKeys := rfl

@[simp] theorem reservations_placed : (a.placed key slot value).reservations = a.reservations := rfl

variable (size connectionId : Nat)

@[simp] theorem slots_leased : (a.leased slot size connectionId).slots =
      Function.update a.slots slot (a.slots slot).markReserved.1 := rfl

@[simp] theorem reservations_leased : (a.leased slot size connectionId).reservations =
      a.reservations.set a.nextLeaseToken ⟨slot, size, connectionId⟩ := rfl

end

theorem put_cases (key value : Bytes) :
    (a.accepts value.length = false ∧ a.put key value = (a.refused value.length, .ok none)) ∨
      (a.accepts value.length = true ∧
        let b := (a.ensureGrid value.length).releaseKey key
        (b.takeSlot = none ∧ a.put key value = (b, .error .keyError)) ∨
          ∃ slot c, b.takeSlot = some (slot, c) ∧ a.put key value = (c.placed key slot value,
                ((c.slots slot).writeSeqlock value).2.map fun _ => some slot)) := by
  unfold put accepts refused
  by_cases large : value.length > a.capacity
  · exact .inl (by simp [large])
  · have small : value.length ≤ a.capacity := not_lt.mp large
    cases fit : (a.ensureGrid value.length).fits value.length with
    | false => exact .inl (by simp [fit, not_lt.mpr small])
    | true =>
      refine .inr ⟨by simp [small], ?_⟩
      simp only [large, fit]
      cases took : ((a.ensureGrid value.length).releaseKey key).takeSlot with
      | none => exact .inl ⟨rfl, rfl⟩
      | some found => exact .inr ⟨found.1, found.2, rfl, rfl⟩

theorem reserve_cases :
    (∃ b, (b = a ∨ b = a.ensureGrid size.toNat) ∧ a.reserve size connectionId = (b, .ok none)) ∨
      (0 < size ∧ a.accepts size.toNat = true ∧ ∃ slot c,
        (a.ensureGrid size.toNat).takeSlot = some (slot, c) ∧ a.reserve size connectionId =
            (c.leased slot size.toNat connectionId, (c.slots slot).markReserved.2.map fun _ =>
                some (c.nextLeaseToken, slot, slot * c.slotSize + headerBytes))) := by
  unfold reserve accepts
  by_cases nonpositive : size ≤ 0
  · exact .inl ⟨a, .inl rfl, by simp [nonpositive]⟩
  · by_cases large : size.toNat > a.capacity
    · exact .inl ⟨a, .inl rfl, by simp [large]⟩
    · have small : size.toNat ≤ a.capacity := not_lt.mp large
      cases fit : (a.ensureGrid size.toNat).fits size.toNat with
      | false => exact .inl ⟨_, .inr rfl, by simp [nonpositive, large, fit]⟩
      | true =>
        cases took : (a.ensureGrid size.toNat).takeSlot with
        | none => exact .inl ⟨_, .inr rfl, by simp [nonpositive, large, took]⟩
        | some found =>
          refine .inr ⟨not_le.mp nonpositive, by simp [small], found.1, found.2, rfl, ?_⟩
          simp [nonpositive, large, fit, took, leased]

end SharedArena
end Infera.Kvd
