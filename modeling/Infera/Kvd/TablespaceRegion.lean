import Infera.Kvd.TablespaceReplay

/-! The tablespace as a lower tier of the store. A region is `Valid` when its
entries lie in distinct slots of the grid that the allocator knows as taken;
every operation keeps that, and then a write to one entry's slot leaves the
bytes of all others alone. -/

namespace Infera.Kvd
open Option Dict BitsetAllocator TablespaceEntry TablespaceDisk

namespace TablespaceConfig

theorem slotsPerContainer_pos (cfg : TablespaceConfig) : 0 < cfg.slotsPerContainer :=
  Nat.div_pos cfg.slot_le_container cfg.slotBytes_pos

end TablespaceConfig

namespace TablespaceDisk

theorem slotBytes_written (disk : TablespaceDisk) (cfg : TablespaceConfig) (container slot : Nat)
    (value : Bytes) : (disk.written cfg container slot value).slotBytes container slot value.length =
      value := by
  apply List.ext_getElem
  · simp [slotBytes]
  · intro i inRange inValue
    simp [slotBytes, written, setSlot, List.getElem?_eq_getElem inValue]

theorem slotBytes_setSlot (disk : TablespaceDisk) {container slot container' slot' : Nat}
    (other : ¬(container' = container ∧ slot' = slot)) (contents : Nat → UInt8) (size : Nat) :
    (disk.setSlot container slot contents).slotBytes container' slot' size =
      disk.slotBytes container' slot' size := by
  unfold slotBytes setSlot
  by_cases same : container' = container
  · have differ : slot' ≠ slot := fun eq => other ⟨same, eq⟩
    simp [same, differ]
  · simp [same]

end TablespaceDisk

namespace TablespaceLongRegion
variable {allocator : BitsetAllocator} {value : Bytes} {c : Composite} {metadata : Metadata}
  {e : TablespaceEntry} {base r r' : TablespaceLongRegion}
variable {access : Composite → TablespaceEntry → ℚ} (cs : List Composite)

def held (r : TablespaceLongRegion) (c : Composite) : Option Bytes :=
  (r.entries.get? c).map fun e => r.disk.slotBytes e.containerIdx e.slotIdx e.sizeBytes

structure Sound (r : TablespaceLongRegion) : Prop where
  started : r.started = true
  grid : BitsetAllocator.SameGrid r.cfg.newAllocator r.allocator
  fits : ∀ c e, r.entries.get? c = some e → e.placement.Fits r.cfg

structure Valid (r : TablespaceLongRegion) : Prop extends Sound r where
  taken : ∀ c e, r.entries.get? c = some e → r.allocator.bits (e.slotGlobal r.cfg) = true
  apart : ∀ c c' e e', r.entries.get? c = some e → r.entries.get? c' = some e' →
    e.slotGlobal r.cfg = e'.slotGlobal r.cfg → c = c'

/-- Entries were dropped and their slots freed; nothing else changed. -/
structure Thinned (r r' : TablespaceLongRegion) : Prop where
  cfg : r'.cfg = r.cfg
  started : r'.started = r.started
  disk : r'.disk = r.disk
  grid : BitsetAllocator.SameGrid r.allocator r'.allocator
  entries : ∀ c e, r'.entries.get? c = some e → r.entries.get? c = some e
  valid : r.Valid → r'.Valid

theorem Thinned.refl (r : TablespaceLongRegion) : Thinned r r :=
  ⟨rfl, rfl, rfl, .refl _, fun _ _ => id, id⟩

theorem Thinned.trans {r'' : TablespaceLongRegion} (first : Thinned r r')
    (second : Thinned r' r'') : Thinned r r'' where
  cfg := second.cfg.trans first.cfg
  started := second.started.trans first.started
  disk := second.disk.trans first.disk
  grid := first.grid.trans second.grid
  entries c e found := first.entries c e (second.entries c e found)
  valid valid := second.valid (first.valid valid)

theorem Thinned.held (thinned : Thinned r r') (c : Composite) :
    KeptOrDropped (r.held c) (r'.held c) := by
  unfold TablespaceLongRegion.held
  cases found : r'.entries.get? c with
  | none => exact .inr rfl
  | some e => exact .inl (by rw [thinned.entries c e found, thinned.disk])

theorem Thinned.sound (thinned : Thinned r r') (sound : r.Sound) : r'.Sound where
  started := thinned.started.trans sound.started
  grid := by
    rw [thinned.cfg]
    exact sound.grid.trans thinned.grid
  fits c e found := by
    rw [thinned.cfg]
    exact sound.fits c e (thinned.entries c e found)

theorem Valid.drop (valid : r.Valid)
    (found : r.entries.get? c = some e) (used : Int) (disk : TablespaceDisk) : Valid { r with
      entries := r.entries.erase c
      allocator := r.allocator.free (e.slotGlobal r.cfg)
      usedBytes := used
      disk } where
  started := valid.started
  grid := valid.grid.trans (sameGrid_free r.allocator (e.slotGlobal r.cfg))
  fits c' e' found' := valid.fits c' e' (get?_of_erase found').2
  taken c' e' found' := by
    obtain ⟨same, found'⟩ := get?_of_erase found'
    have other : e'.slotGlobal r.cfg ≠ e.slotGlobal r.cfg := fun eq =>
      same (valid.apart c' c e' e found' found eq)
    rw [bits_free_of_ne _ other]
    exact valid.taken c' e' found'
  apart c₁ c₂ e₁ e₂ found₁ found₂ :=
    valid.apart c₁ c₂ e₁ e₂ (get?_of_erase found₁).2 (get?_of_erase found₂).2

theorem evict_thinned (r : TablespaceLongRegion) (c : Composite) : Thinned r (r.evict c) := by
  unfold evict
  split
  · exact Thinned.refl r
  · rename_i e found
    refine ⟨rfl, rfl, rfl, sameGrid_free _ _, fun c' e' found' => ?_, fun valid => valid.drop found _ _⟩
    exact (get?_of_erase found').2

theorem makeRoom_thinned (fuel : Nat) (r : TablespaceLongRegion) (size : Nat) :
    Thinned r (makeRoom fuel r size).1 := by
  induction fuel generalizing r with
  | zero => exact Thinned.refl r
  | succ fuel ih =>
    unfold makeRoom
    split_ifs
    · exact Thinned.refl r
    · split
      · exact Thinned.refl r
      · exact (evict_thinned r _).trans (ih _)

section
variable (r : TablespaceLongRegion) (size : Nat)

/-- The region after `put`'s evictions for a block of this size. -/
def roomFor : TablespaceLongRegion :=
  (makeRoom r.entries.items.length r size).1

theorem roomFor_thinned : Thinned r (r.roomFor size) :=
  makeRoom_thinned _ r size

end

theorem roomFor_of_hasRoom {size : Nat} (room : r.hasRoom size = true) : r.roomFor size = r := by
  unfold roomFor
  cases r.entries.items.length with
  | zero => rfl
  | succ n => rw [makeRoom, if_pos room]

/-- The entry and the allocator a write of `value` takes effect with, over the region `base` that
the evictions left. -/
structure Seat (r : TablespaceLongRegion) (c : Composite) (value : Bytes) (metadata : Metadata)
    (base : TablespaceLongRegion) (e : TablespaceEntry) (allocator : BitsetAllocator) : Prop where
  thinned : Thinned r base
  inPlace : r.entries.get? c ≠ none → base = r
  roomy : r.hasRoom value.length = true → base = r
  size : e.sizeBytes = value.length
  metadata : e.metadata = metadata
  fits : r.Sound → e.placement.Fits r.cfg
  grid : BitsetAllocator.SameGrid base.allocator allocator
  bits : ∀ s, base.allocator.bits s = true → allocator.bits s = true
  taken : r.Valid → allocator.bits (e.slotGlobal r.cfg) = true
  alone : r.Valid → ∀ c' e', c' ≠ c → base.entries.get? c' = some e' →
    e'.slotGlobal r.cfg ≠ e.slotGlobal r.cfg

def Admitted (r : TablespaceLongRegion) (value : Bytes) (retention : Retention) : Prop :=
  retention = .long ∧ 0 < value.length ∧ value.length ≤ r.cfg.slotBytes

/-- What an admitted write comes down to, by how far it gets. -/
inductive WriteOutcome (r : TablespaceLongRegion) (clk : Clock) (c : Composite) (value : Bytes)
    (metadata : Metadata) (fault : Option WriteFault) :
    TablespaceLongRegion × Except PyErr (Bool × Option String) → Prop
  | full (absent : r.entries.get? c = none) (reason : String) :
      WriteOutcome r clk c value metadata fault
        (r.roomFor value.length, .ok (false, some reason))
  | overwriteFailed (e : TablespaceEntry) (found : r.entries.get? c = some e) (used : Int)
      (failed : fault ≠ none) (contents : Nat → UInt8) (reason : String) :
      WriteOutcome r clk c value metadata fault ({ r with
        entries := r.entries.erase c
        usedBytes := used
        disk := r.disk.setSlot e.containerIdx e.slotIdx contents }, .ok (false, some reason))
  | insertFailed (slotGlobal : Nat) (allocator : BitsetAllocator) (absent : r.entries.get? c = none)
      (failed : fault ≠ none)
      (took : BitsetAllocator.Allocated (r.roomFor value.length).allocator allocator slotGlobal)
      (used : Int) (contents : Nat → UInt8) (reason : String) :
      WriteOutcome r clk c value metadata fault ({ r.roomFor value.length with
        allocator := allocator.free slotGlobal
        usedBytes := used
        disk := (r.roomFor value.length).disk.setSlot (slotGlobal / r.cfg.slotsPerContainer)
          (slotGlobal % r.cfg.slotsPerContainer) contents }, .ok (false, some reason))
  | written (base : TablespaceLongRegion) (e : TablespaceEntry) (allocator : BitsetAllocator)
      (used : Int) (seat : Seat r c value metadata base e allocator) :
      WriteOutcome r clk c value metadata fault
        ((base.seat c e value allocator used).journalPut clk c e .long metadata)

section
variable (clk : Clock) (positive : 0 < value.length) (size : value.length ≤ r.cfg.slotBytes)
  (metadata : Metadata) (fault : Option WriteFault)
include positive size

theorem overwrite_outcome (found : r.entries.get? c = some e) :
    WriteOutcome r clk c value metadata fault (r.overwrite clk c e value .long metadata fault) := by
  cases fault with
  | some fault => exact .overwriteFailed e found _ (by simp) _ _
  | none =>
    exact .written r _ r.allocator _
      { thinned := Thinned.refl r
        inPlace _ := rfl
        roomy _ := rfl
        size := rfl
        metadata := rfl
        fits sound :=
          ⟨(sound.fits c e found).container, (sound.fits c e found).slot, positive, size⟩
        grid := .refl _
        bits _ := id
        taken valid := valid.taken c e found
        alone valid c' e' other found' same :=
          other (valid.apart c' c e' e found' found same) }

theorem insertAt_outcome (absent : r.entries.get? c = none) {slotGlobal : Nat}
    (took : Allocated (r.roomFor value.length).allocator allocator slotGlobal) :
    WriteOutcome r clk c value metadata fault
      ((r.roomFor value.length).insertAt clk c slotGlobal allocator value .long metadata fault) := by
  have thinned := r.roomFor_thinned value.length
  have perContainer : (r.roomFor value.length).cfg.slotsPerContainer = r.cfg.slotsPerContainer := by
    rw [thinned.cfg]
  unfold insertAt
  cases fault with
  | some fault =>
    simp only [perContainer]
    exact .insertFailed slotGlobal allocator absent (by simp) took _ _ _
  | none =>
    have inGrid : r.Sound → slotGlobal < r.cfg.slotsPerContainer * r.cfg.numContainers := by
      intro sound
      have bound := took.inGrid
      rw [(thinned.sound sound).grid.totalSlots, thinned.cfg] at bound
      rwa [Nat.mul_comm]
    have whole : slotGlobal / r.cfg.slotsPerContainer * r.cfg.slotsPerContainer +
        slotGlobal % r.cfg.slotsPerContainer = slotGlobal := Nat.div_add_mod' _ _
    simp only [perContainer]
    exact .written _ _ allocator _
      { thinned
        inPlace resident := absurd absent resident
        roomy := roomFor_of_hasRoom
        size := rfl
        metadata := rfl
        fits sound := ⟨Nat.div_lt_of_lt_mul (inGrid sound),
          Nat.mod_lt _ r.cfg.slotsPerContainer_pos, positive, size⟩
        grid := took.grid
        bits s set := by
          rw [took.bits, Function.update_apply]
          split_ifs
          exacts [rfl, set]
        taken _ := by
          rw [took.bits, TablespaceEntry.slotGlobal, whole, Function.update_self]
        alone valid c' e' _ found same := by
          have set := (thinned.valid valid).taken c' e' found
          rw [thinned.cfg, same, TablespaceEntry.slotGlobal, whole, took.wasFree] at set
          exact Bool.false_ne_true set }

end

theorem Valid.journaled (valid : r.Valid) (journal : List Char) :
    Valid { r with disk := { r.disk with journal } } :=
  ⟨{ valid with }, valid.taken, valid.apart⟩

theorem get?_seat (base : TablespaceLongRegion) (c : Composite) (e : TablespaceEntry)
    (value : Bytes) (allocator : BitsetAllocator) (used : Int) (c' : Composite) :
    (base.seat c e value allocator used).entries.get? c' =
      if c' = c then some e else base.entries.get? c' := by
  simp [seat, get?_set]

section
variable (seat : Seat r c value metadata base e allocator)
include seat

theorem Seat.sound (sound : r.Sound) (used : Int) : (base.seat c e value allocator used).Sound where
  started := (seat.thinned.sound sound).started
  grid := (seat.thinned.sound sound).grid.trans seat.grid
  fits c' e' found := by
    rcases get?_set_cases found with ⟨-, rfl⟩ | ⟨-, found⟩
    · exact seat.thinned.cfg ▸ seat.fits sound
    · exact (seat.thinned.sound sound).fits c' e' found

theorem Seat.valid (valid : r.Valid) (used : Int) : (base.seat c e value allocator used).Valid where
  toSound := seat.sound valid.toSound used
  taken c' e' found := by
    rcases get?_set_cases found with ⟨-, rfl⟩ | ⟨-, found⟩
    · exact seat.thinned.cfg ▸ seat.taken valid
    · exact seat.bits _ ((seat.thinned.valid valid).taken c' e' found)
  apart := by
    have alone := seat.alone valid
    rw [← seat.thinned.cfg] at alone
    exact key_unique_set (slotGlobal base.cfg) alone (seat.thinned.valid valid).apart

theorem Seat.slotBytes_other (used : Int)
    {loc : Placement} (other : loc.slotGlobal r.cfg ≠ e.slotGlobal r.cfg) (size : Nat) :
    (base.seat c e value allocator used).disk.slotBytes loc.container loc.slot size =
      r.disk.slotBytes loc.container loc.slot size := by
  rw [TablespaceLongRegion.seat, seat.thinned.disk]
  refine slotBytes_setSlot r.disk ?_ _ size
  rintro ⟨container, slot⟩
  exact other (by rw [Placement.slotGlobal, container, slot]; rfl)

theorem Seat.held_self (used : Int) : (base.seat c e value allocator used).held c = some value := by
  unfold held
  rw [get?_seat, if_pos rfl, map_some, seat.size, TablespaceLongRegion.seat, slotBytes_written]

theorem Seat.held_other (valid : r.Valid) (used : Int) {c' : Composite} (other : c' ≠ c) :
    (base.seat c e value allocator used).held c' = base.held c' := by
  unfold held
  rw [get?_seat, if_neg other]
  cases found : base.entries.get? c' with
  | none => rfl
  | some e' =>
    have away : e'.placement.slotGlobal r.cfg ≠ e.slotGlobal r.cfg :=
      seat.alone valid c' e' other found
    have bytes := seat.slotBytes_other used away e'.sizeBytes
    rw [seat.thinned.disk]
    exact congrArg some bytes

end

structure Touched (r r' : TablespaceLongRegion) (access : Composite → TablespaceEntry → ℚ) :
    Prop where
  cfg : r'.cfg = r.cfg
  started : r'.started = r.started
  disk : r'.disk = r.disk
  allocator : r'.allocator = r.allocator
  entries : ∀ c, r'.entries.get? c =
    (r.entries.get? c).map fun e => { e with lastAccess := access c e }

section
variable (r : TablespaceLongRegion) (clk : Clock)
include clk

theorem put_outcome (c : Composite) (value : Bytes)
    (retention : Retention) (metadata : Metadata) (fault : Option WriteFault) :
    (∃ reason, r.put clk c value retention metadata fault = (r, .ok (false, some reason))) ∨
      r.Admitted value retention ∧
        WriteOutcome r clk c value metadata fault (r.put clk c value retention metadata fault) := by
  unfold put
  split_ifs with notLong notStarted empty oversize
  · exact .inl ⟨_, rfl⟩
  · exact .inl ⟨_, rfl⟩
  · exact .inl ⟨_, rfl⟩
  · exact .inl ⟨_, rfl⟩
  · have long : retention = .long := by simpa using notLong
    subst long
    refine .inr ⟨⟨rfl, by omega, by omega⟩, ?_⟩
    split
    · rename_i e found
      exact overwrite_outcome clk (by omega) (by omega) metadata fault found
    · rename_i absent
      dsimp only
      split_ifs
      · exact .full absent _
      · split
        · exact .full absent _
        · rename_i slotGlobal allocator took
          exact insertAt_outcome clk (by omega) (by omega) metadata fault absent
            (alloc_allocated took)

theorem journalPut_eq (c : Composite)
    (e : TablespaceEntry) (retention : Retention) (metadata : Metadata) :
    r.journalPut clk c e retention metadata =
      if metadata.encodable then
        ({ r with disk := { r.disk with
          journal := r.disk.journal ++ JsonLines.line (JournalOp.put c e.placement retention metadata
            (r.cfg.platform.timeRepr (clk 1))).toJson } }, .ok (true, none))
      else (r, .error .typeError) := by
  have encodable : (putRecord c e.containerIdx e.slotIdx e.sizeBytes retention metadata
      (r.cfg.platform.timeRepr (clk 1))).encodable = metadata.encodable := by
    simp [putRecord, Json.encodable, Json.encodableFields, Metadata.encodable]
  unfold journalPut journalAppend
  rw [encodable]
  split_ifs <;> rfl

theorem getBytes_touched (c : Composite) : ∃ access, Touched r (r.getBytes clk c).1 access := by
  refine ⟨fun c' e => if c' = c then clk 0 else e.lastAccess, ?_⟩
  unfold getBytes
  split
  · rename_i absent
    refine ⟨rfl, rfl, rfl, rfl, fun c' => ?_⟩
    by_cases same : c' = c
    · simp [same, absent]
    · simp [same]
  · rename_i e found
    refine ⟨rfl, rfl, rfl, rfl, fun c' => ?_⟩
    by_cases same : c' = c
    · simp [same, found]
    · simp [same, get?_set]

theorem put_cases (c : Composite) (value : Bytes) (retention : Retention) (metadata : Metadata) :
    let result := r.put clk c value retention metadata none
    (∃ reason, result = (r, .ok (false, some reason)) ∨
      r.entries.get? c = none ∧ result = (r.roomFor value.length, .ok (false, some reason))) ∨
      ∃ base e allocator used, Seat r c value metadata base e allocator ∧
        result = (base.seat c e value allocator used).journalPut clk c e .long metadata := by
  intro result
  obtain ⟨reason, refused⟩ | ⟨-, outcome⟩ := put_outcome r clk c value retention metadata none
  · exact .inl ⟨reason, .inl refused⟩
  rw [show r.put clk c value retention metadata none = result from rfl] at outcome
  clear_value result
  cases outcome with
  | full absent reason => exact .inl ⟨reason, .inr ⟨absent, rfl⟩⟩
  | overwriteFailed _ _ _ failed => exact absurd rfl failed
  | insertFailed _ _ _ failed =>
    exact absurd rfl failed
  | written base e allocator used seat => exact .inr ⟨base, e, allocator, used, seat, rfl⟩

end

section
variable (touched : Touched r r' access)
include touched

theorem Touched.placement (c : Composite) : (r'.entries.get? c).map placement =
      (r.entries.get? c).map placement := by
  rw [touched.entries c, map_map]
  rfl

theorem Touched.held (c : Composite) : r'.held c = r.held c := by
  unfold TablespaceLongRegion.held
  rw [touched.entries c, map_map, touched.disk]
  rfl

theorem Touched.sound (sound : r.Sound) : r'.Sound where
  started := touched.started.trans sound.started
  grid := by rw [touched.cfg, touched.allocator]; exact sound.grid
  fits c e found := by
    rw [touched.entries c, map_eq_some_iff] at found
    obtain ⟨e₀, found₀, rfl⟩ := found
    rw [touched.cfg]
    exact sound.fits c e₀ found₀

theorem Touched.valid (valid : r.Valid) : r'.Valid where
  toSound := touched.sound valid.toSound
  taken c e found := by
    rw [touched.entries c, map_eq_some_iff] at found
    obtain ⟨e₀, found₀, rfl⟩ := found
    rw [touched.cfg, touched.allocator]
    exact valid.taken c e₀ found₀
  apart c c' e e' found found' same := by
    rw [touched.entries, map_eq_some_iff] at found found'
    obtain ⟨e₀, found₀, rfl⟩ := found
    obtain ⟨e₀', found₀', rfl⟩ := found'
    rw [touched.cfg] at same
    exact valid.apart c c' e₀ e₀' found₀ found₀' same

end

theorem getBytes_held {clk : Clock} {v : Bytes}
    (hit : (r.getBytes clk c).2 = some v) : r.held c = some v := by
  unfold getBytes at hit
  unfold held
  split at hit
  · simp at hit
  · rename_i e found
    split_ifs at hit
    rw [found]
    exact hit

theorem emptied_valid (started : r.started = true)
    (disk : TablespaceDisk) : Valid { r.emptied with disk } where
  started := started
  grid := ⟨rfl, rfl, rfl⟩
  fits c e found := by simp [emptied] at found
  taken c e found := by simp [emptied] at found
  apart c c' e e' found := by simp [emptied] at found

theorem get?_remove (r : TablespaceLongRegion) (c c' : Composite) :
    (r.remove c).1.entries.get? c' = if c' = c then none else r.entries.get? c' := by
  unfold remove
  split
  · rename_i absent
    split_ifs with same
    · rw [same, absent]
    · rfl
  · exact get?_erase _ _ _

theorem remove_valid (valid : r.Valid) (c : Composite) : (r.remove c).1.Valid := by
  unfold remove
  split
  · exact valid
  · rename_i e found
    exact valid.drop found _ _

theorem remove_held (r : TablespaceLongRegion) (c c' : Composite) :
    (r.remove c).1.held c' = if c' = c then none else r.held c' := by
  have slots : (r.remove c).1.disk.slots = r.disk.slots := by
    unfold remove
    split <;> rfl
  unfold held slotBytes
  rw [get?_remove, slots]
  split_ifs <;> rfl

theorem removes_valid (valid : r.Valid) : (cs.foldl (fun r c => (r.remove c).1) r).Valid := by
  induction cs generalizing r with
  | nil => exact valid
  | cons c cs ih => exact ih (remove_valid valid c)

section
variable (r : TablespaceLongRegion)

theorem removes_held (c : Composite) :
    (cs.foldl (fun r c => (r.remove c).1) r).held c = if c ∈ cs then none else r.held c := by
  induction cs generalizing r with
  | nil => simp
  | cons c' cs ih =>
    rw [List.foldl_cons, ih, remove_held]
    by_cases later : c ∈ cs
    · simp [later]
    · by_cases now : c = c'
      · simp [now]
      · simp [now]

theorem clearNamespace_held (model compatKey : String)
    (c : Composite) : (r.clearNamespace model compatKey).held c =
      if c.model = model ∧ c.compatKey = compatKey then none else r.held c := by
  unfold clearNamespace
  rw [removes_held]
  by_cases resident : c ∈ r.entries.keys
  · simp [resident]
  · have absent : r.held c = none := by
      rw [held, (r.entries.get?_eq_none_iff c).mpr resident, map_none]
    simp [absent]

def Clean : Prop :=
  ∀ c e, r.entries.get? c = some e → e.metadata.encodable = true

end

theorem Clean.thinned (clean : r.Clean)
    (entries : ∀ c e, r'.entries.get? c = some e → r.entries.get? c = some e) : r'.Clean :=
  fun c e found => clean c e (entries c e found)

theorem Clean.removes (clean : r.Clean) : (cs.foldl (fun r c => (r.remove c).1) r).Clean := by
  induction cs generalizing r with
  | nil => exact clean
  | cons c cs ih =>
    refine ih (clean.thinned fun c' e found => ?_)
    rw [get?_remove] at found
    split_ifs at found
    exact found

section
variable (clk : Clock) (c : Composite) (value : Bytes) (retention : Retention)

theorem put_effect (valid : r.Valid) (metadata : Metadata) :
    let result := r.put clk c value retention metadata none
    result.1.Valid ∧ (∀ c', c' ≠ c → KeptOrDropped (r.held c') (result.1.held c')) ∧
      ((∃ reason, result.2 = .ok (false, reason)) ∧ KeptOrDropped (r.held c) (result.1.held c) ∨
        ((∃ reason, result.2 = .ok (true, reason)) ∨ result.2 = .error .typeError) ∧
          result.1.held c = some value) := by
  obtain ⟨reason, same | ⟨-, full⟩⟩ | ⟨base, e, allocator, used, seat, wrote⟩ :=
    put_cases r clk c value retention metadata
  · rw [same]
    exact ⟨valid, fun c' _ => .inl rfl, .inl ⟨⟨_, rfl⟩, .inl rfl⟩⟩
  · have thinned := r.roomFor_thinned value.length
    rw [full]
    exact ⟨thinned.valid valid, fun c' _ => thinned.held c', .inl ⟨⟨_, rfl⟩, thinned.held c⟩⟩
  · have others : ∀ c', c' ≠ c →
        KeptOrDropped (r.held c') ((base.seat c e value allocator used).held c') := fun c' other => by
      rw [seat.held_other valid used other]
      exact seat.thinned.held c'
    rw [wrote, journalPut_eq]
    split_ifs
    · exact ⟨(seat.valid valid used).journaled _, others,
        .inr ⟨.inl ⟨_, rfl⟩, seat.held_self used⟩⟩
    · exact ⟨seat.valid valid used, others, .inr ⟨.inr rfl, seat.held_self used⟩⟩

theorem Clean.put (clean : r.Clean) (encodable : metadata.encodable = true) :
    (r.put clk c value retention metadata none).1.Clean := by
  obtain ⟨reason, same | ⟨-, full⟩⟩ | ⟨base, e, allocator, used, seat, wrote⟩ :=
    put_cases r clk c value retention metadata
  · rw [same]
    exact clean
  · rw [full]
    exact clean.thinned (r.roomFor_thinned value.length).entries
  · rw [wrote, journalPut_eq, if_pos encodable]
    intro c' e' found
    rcases get?_set_cases found with ⟨-, rfl⟩ | ⟨-, found⟩
    · rw [seat.metadata, encodable]
    · exact clean c' e' (seat.thinned.entries c' e' found)

theorem put_ok (encodable : metadata.encodable = true) :
    ∃ answer, (r.put clk c value retention metadata none).2 = .ok answer := by
  obtain ⟨reason, same | ⟨-, full⟩⟩ | ⟨base, e, allocator, used, seat, wrote⟩ :=
    put_cases r clk c value retention metadata
  · exact ⟨_, by rw [same]⟩
  · exact ⟨_, by rw [full]⟩
  · rw [wrote, journalPut_eq, if_pos encodable]
    exact ⟨_, rfl⟩

end

instance : Region TablespaceLongRegion where
  getEntry r c := (r.getEntry c).map fun e => (e.retention, e.metadata)
  getBytes := getBytes
  getBytesBatch := none
  contains r c := r.entries.contains c
  put r clk c value retention metadata := r.put clk c value retention metadata none
  clear r := r.clear.1
  clearNamespace := clearNamespace

instance : LawfulRegion TablespaceLongRegion where
  Valid := Valid
  Clean := Clean
  Apart _ := True
  held := held
  getEntry_held r c found _ entry := by
    obtain ⟨e, resident, -⟩ := map_eq_some_iff.mp entry
    have resident : r.entries.get? c = some e := resident
    simp [held, resident]
  contains_held r c _ present := by
    obtain ⟨e, resident⟩ := (r.entries.contains_eq_true_iff c).mp present
    simp [held, resident]
  getBytes_valid r clk c valid := by
    obtain ⟨access, touched⟩ := r.getBytes_touched clk c
    exact touched.valid valid
  getBytes_some r clk c v _ hit := getBytes_held hit
  getBytes_kept r clk c c' _ := by
    obtain ⟨access, touched⟩ := r.getBytes_touched clk c
    exact .inl (touched.held c')
  batch_reads f defined := by simp [Region.getBytesBatch] at defined
  put_valid r clk c v ret md valid _ := (put_effect clk c v ret valid md).1
  put_own r clk c v ret md valid _ := by
    change PutLeaves v (r.held c) ((r.put clk c v ret md none).1.held c)
      (r.put clk c v ret md none).2
    obtain ⟨-, -, ⟨⟨_, answer⟩, kept⟩ | ⟨⟨_, answer⟩ | answer, stored⟩⟩ :=
      put_effect clk c v ret valid md <;> rw [answer]
    · exact kept
    · exact stored
    · exact .inr stored
  put_other r clk c v ret md c' valid _ other := (put_effect clk c v ret valid md).2.1 c' other
  clear_valid r valid := emptied_valid valid.started _
  clear_held r c _ := rfl
  clearNamespace_valid r model compatKey valid := removes_valid _ valid
  clearNamespace_kept r model compatKey c _ := by
    change KeptOrDropped (r.held c) ((r.clearNamespace model compatKey).held c)
    rw [clearNamespace_held]
    split_ifs
    · exact .inr rfl
    · exact .inl rfl
  clearNamespace_held r c _ := by
    change (r.clearNamespace c.model c.compatKey).held c = none
    rw [clearNamespace_held, if_pos ⟨rfl, rfl⟩]
  clean_getEntry r c ret md clean entry := by
    obtain ⟨e, resident, same⟩ := map_eq_some_iff.mp entry
    cases same
    exact clean c e resident
  clean_getBytes r clk c clean c' e found := by
    obtain ⟨access, touched⟩ := r.getBytes_touched clk c
    obtain ⟨e₀, found₀, rfl⟩ := map_eq_some_iff.mp ((touched.entries c').symm.trans found)
    exact clean c' e₀ found₀
  clean_batch f defined := by simp [Region.getBytesBatch] at defined
  clean_put r clk c v ret md clean encodable := clean.put clk c v ret encodable
  clean_clear r _ c e found := by
    change (Dict.empty : Dict Composite TablespaceEntry).get? c = some e at found
    simp at found
  clean_clearNamespace r model compatKey clean := clean.removes _
  put_ok r clk c v ret md encodable := put_ok clk c v ret encodable

end TablespaceLongRegion
end Infera.Kvd
