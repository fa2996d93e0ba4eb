import Infera.Kvd.TablespaceRuns

/-! The tablespace's bookkeeping: the index, the allocator's bits and the byte
counter. A region is `Tidy` when the three agree. Every operation keeps that, an
update whose container write fails excepted: it drops the entry, but the slot
stays taken and the size stays counted. What `start` builds is `Tight` whatever
records it reads, and tidy when no two of them name one slot. -/

namespace Infera.Kvd
open Dict Function
namespace TablespaceLongRegion
open TablespaceEntry BitsetAllocator List
variable {c : Composite} {raw : Json} {cfg : TablespaceConfig} {e : TablespaceEntry}
  {r : TablespaceLongRegion} {allocator : BitsetAllocator}

def indexedBytes (r : TablespaceLongRegion) : Nat :=
  (r.entries.values.map TablespaceEntry.sizeBytes).sum

/-- Index, allocator and byte counter agree; two entries may still name one slot. -/
structure Tight (r : TablespaceLongRegion) : Prop where
  grid : BitsetAllocator.SameGrid r.cfg.newAllocator r.allocator
  fits : ∀ c e, r.entries.get? c = some e → e.placement.Fits r.cfg
  keyed : ∀ c e, r.entries.get? c = some e → Composite.mk e.model e.compatKey e.key = c
  taken : ∀ c e, r.entries.get? c = some e → r.allocator.bits (e.slotGlobal r.cfg) = true
  owned : ∀ s, r.allocator.bits s = true → ∃ c e, r.entries.get? c = some e ∧ e.slotGlobal r.cfg = s
  counted : r.usedBytes = r.indexedBytes

structure Tidy (r : TablespaceLongRegion) : Prop extends Tight r where
  started : r.started = true
  apart : ∀ c c' e e', r.entries.get? c = some e → r.entries.get? c' = some e' →
    e.slotGlobal r.cfg = e'.slotGlobal r.cfg → c = c'

theorem Tidy.valid (tidy : r.Tidy) : r.Valid := ⟨{ tidy with }, tidy.taken, tidy.apart⟩

theorem Tidy.onDisk (tidy : r.Tidy) (disk : TablespaceDisk) : Tidy { r with disk } :=
  ⟨{ tidy with }, tidy.started, tidy.apart⟩

theorem slotGlobal_lt (fits : e.placement.Fits cfg) : e.slotGlobal cfg < cfg.totalSlots := by
  have container : e.containerIdx + 1 ≤ cfg.numContainers := fits.container
  have slot : e.slotIdx < cfg.slotsPerContainer := fits.slot
  calc e.slotGlobal cfg < e.containerIdx * cfg.slotsPerContainer + cfg.slotsPerContainer :=
        Nat.add_lt_add_left slot _
    _ = (e.containerIdx + 1) * cfg.slotsPerContainer := (Nat.succ_mul _ _).symm
    _ ≤ cfg.totalSlots := Nat.mul_le_mul_right _ container

section
variable (found : r.entries.get? c = some e)
include found

theorem Tight.inGrid (tight : r.Tight) : e.slotGlobal r.cfg < r.allocator.totalSlots := by
  rw [tight.grid.totalSlots]
  exact slotGlobal_lt (tight.fits c e found)

theorem indexedBytes_eq : r.indexedBytes =
      e.sizeBytes + ((r.entries.erase c).values.map sizeBytes).sum := by
  have split := (r.entries.values_perm_erase found).map sizeBytes
  rw [indexedBytes, split.sum_eq, map_cons, sum_cons]

theorem Tidy.drop (tidy : r.Tidy) (disk : TablespaceDisk) : Tidy { r with
      entries := r.entries.erase c
      allocator := r.allocator.free (e.slotGlobal r.cfg)
      usedBytes := max 0 (r.usedBytes - e.sizeBytes)
      disk } := by
  have dropped := tidy.valid.drop found (max 0 (r.usedBytes - e.sizeBytes)) disk
  refine ⟨⟨dropped.grid, dropped.fits, fun c' e' found' => ?_, dropped.taken, fun s set => ?_, ?_⟩,
    dropped.started, dropped.apart⟩
  · exact tidy.keyed c' e' (get?_of_erase found').2
  · obtain ⟨c', e', found', rfl⟩ := tidy.owned s (bits_free _ _ _ set)
    have differ : c' ≠ c := by
      rintro rfl
      cases found.symm.trans found'
      rw [bits_free_self _ (tidy.inGrid found)] at set
      exact Bool.false_ne_true set
    exact ⟨c', e', by rw [get?_erase_of_ne differ, found'], rfl⟩
  · have total := tidy.counted
    rw [indexedBytes_eq found] at total
    simp only [indexedBytes]
    omega

end

theorem Tidy.evict (tidy : r.Tidy) (c : Composite) : (r.evict c).Tidy := by
  unfold TablespaceLongRegion.evict
  split
  · exact tidy
  · rename_i e found
    exact tidy.drop found r.disk

theorem Tidy.makeRoom (fuel : Nat) (tidy : r.Tidy) (size : Nat) :
    (makeRoom fuel r size).1.Tidy := by
  induction fuel generalizing r with
  | zero => exact tidy
  | succ fuel ih =>
    unfold TablespaceLongRegion.makeRoom
    split_ifs
    · exact tidy
    · split
      · exact tidy
      · exact ih (tidy.evict _)

theorem Tidy.remove (tidy : r.Tidy) (c : Composite) : (r.remove c).1.Tidy := by
  unfold TablespaceLongRegion.remove
  split
  · exact tidy
  · rename_i e found
    exact tidy.drop found _

theorem tidy_emptied (started : r.started = true)
    (disk : TablespaceDisk) : Tidy { r.emptied with disk } := by
  have valid := emptied_valid started disk
  refine ⟨⟨valid.grid, valid.fits, fun c e found => ?_, valid.taken, fun s set => ?_, rfl⟩,
    valid.started, valid.apart⟩
  · simp [emptied] at found
  · simp [emptied, TablespaceConfig.newAllocator, BitsetAllocator.new] at set

theorem Tidy.seat {base : TablespaceLongRegion} (tidy : base.Tidy)
    (e : TablespaceEntry) {used : Int} (value : Bytes)
    (fits : e.placement.Fits base.cfg) (keyed : Composite.mk e.model e.compatKey e.key = c)
    (grid : SameGrid base.allocator allocator) (bits : ∀ s, allocator.bits s = true ↔
      base.allocator.bits s = true ∨ s = e.slotGlobal base.cfg)
    (inPlace : ∀ e₀, base.entries.get? c = some e₀ → e₀.slotGlobal base.cfg = e.slotGlobal base.cfg)
    (alone : ∀ c' e', c' ≠ c → base.entries.get? c' = some e' →
      e'.slotGlobal base.cfg ≠ e.slotGlobal base.cfg) (counted : used = e.sizeBytes +
      ((base.entries.erase c).values.map sizeBytes).sum) :
    (base.seat c e value allocator used).Tidy where
  grid := tidy.grid.trans grid
  fits c' e' found := by
    rcases get?_set_cases found with ⟨-, rfl⟩ | ⟨-, found⟩
    · exact fits
    · exact tidy.fits c' e' found
  keyed c' e' found := by
    rcases get?_set_cases found with ⟨rfl, rfl⟩ | ⟨-, found⟩
    · exact keyed
    · exact tidy.keyed c' e' found
  taken c' e' found := by
    rcases get?_set_cases found with ⟨-, rfl⟩ | ⟨-, found⟩
    · exact (bits _).mpr (.inr rfl)
    · exact (bits _).mpr (.inl (tidy.taken c' e' found))
  owned s set := by
    rcases (bits s).mp set with before | own
    · obtain ⟨c', e', found, rfl⟩ := tidy.owned s before
      by_cases same : c' = c
      · subst same
        exact ⟨c', e, by rw [get?_seat, if_pos rfl], (inPlace e' found).symm⟩
      · exact ⟨c', e', by rw [get?_seat, if_neg same, found], rfl⟩
    · exact ⟨c, e, by rw [get?_seat, if_pos rfl], own.symm⟩
  counted := by
    have split := (base.entries.values_perm_set c e).map sizeBytes
    rw [counted]
    simp only [indexedBytes, TablespaceLongRegion.seat, split.sum_eq]
    rfl
  started := tidy.started
  apart := key_unique_set (slotGlobal base.cfg) alone tidy.apart

theorem Tidy.reseat (tidy : r.Tidy)
    (found : r.entries.get? c = some e) (e' : TablespaceEntry) (value : Bytes)
    (fits : e'.placement.Fits r.cfg) (keyed : Composite.mk e'.model e'.compatKey e'.key = c)
    (slot : e'.slotGlobal r.cfg = e.slotGlobal r.cfg) {used : Int}
    (counted : used = r.usedBytes + (e'.sizeBytes - e.sizeBytes : Int)) :
    (r.seat c e' value r.allocator used).Tidy := by
  refine tidy.seat e' value fits keyed (.refl _) (fun s => ⟨.inl, fun set => ?_⟩)
    (fun e₀ found₀ => ?_) (fun c' e₁ other found' same => ?_) ?_
  · rcases set with before | rfl
    · exact before
    · exact slot ▸ tidy.taken c e found
  · cases found.symm.trans found₀
    exact slot.symm
  · exact other (tidy.apart c' c e₁ e found' found (same.trans slot))
  · have total := tidy.counted
    rw [indexedBytes_eq found] at total
    rw [counted, total]
    push_cast
    ring

section
variable (tidy : r.Tidy) (clk : Clock) (retention : Retention) (metadata : Metadata)
include tidy

theorem Tidy.journalPut (c : Composite) (e : TablespaceEntry) :
    (r.journalPut clk c e retention metadata).1.Tidy := by
  rw [journalPut_eq]
  split_ifs
  · exact tidy.onDisk _
  · exact tidy

theorem Tidy.overwrite (found : r.entries.get? c = some e) {value : Bytes}
    (positive : 0 < value.length) (size : value.length ≤ r.cfg.slotBytes) :
    (r.overwrite clk c e value retention metadata none).1.Tidy := by
  have fits := tidy.fits c e found
  exact (tidy.reseat found { e with sizeBytes := value.length, lastAccess := clk 0, metadata } value
    ⟨fits.container, fits.slot, positive, size⟩ (tidy.keyed c e found) rfl rfl).journalPut ..

theorem Tidy.insertAt
    (absent : r.entries.get? c = none) {value : Bytes} (positive : 0 < value.length)
    (size : value.length ≤ r.cfg.slotBytes) {slotGlobal : Nat}
    (took : Allocated r.allocator allocator slotGlobal) (fault : Option WriteFault) :
    (r.insertAt clk c slotGlobal allocator value retention metadata fault).1.Tidy := by
  have whole : slotGlobal / r.cfg.slotsPerContainer * r.cfg.slotsPerContainer +
      slotGlobal % r.cfg.slotsPerContainer = slotGlobal := Nat.div_add_mod' _ _
  have inGrid : slotGlobal < r.cfg.slotsPerContainer * r.cfg.numContainers := by
    have bound := took.inGrid
    rw [tidy.grid.totalSlots] at bound
    rwa [Nat.mul_comm]
  unfold TablespaceLongRegion.insertAt
  cases fault with
  | some fault =>
    -- Taking the slot and giving it back leaves the bits as they were.
    have bits : (allocator.free slotGlobal).bits = r.allocator.bits := by
      funext s
      by_cases same : s = slotGlobal
      · subst same
        rw [took.wasFree]
        exact bits_free_self _ (took.grid.totalSlots ▸ took.inGrid)
      · rw [bits_free_of_ne _ same, took.bits, update_of_ne same]
    refine ⟨⟨(tidy.grid.trans took.grid).trans (sameGrid_free _ _), tidy.fits,
      tidy.keyed, fun c' e' found => ?_, fun s set => ?_, ?_⟩, tidy.started, tidy.apart⟩
    · rw [bits]
      exact tidy.taken c' e' found
    · rw [bits] at set
      exact tidy.owned s set
    · rw [tidy.counted]
      exact max_eq_right (Int.natCast_nonneg _)
  | none =>
    have fits : Placement.Fits r.cfg ⟨slotGlobal / r.cfg.slotsPerContainer,
        slotGlobal % r.cfg.slotsPerContainer, value.length⟩ :=
      ⟨Nat.div_lt_of_lt_mul inGrid, Nat.mod_lt _ r.cfg.slotsPerContainer_pos, positive, size⟩
    refine Tidy.journalPut ?_ ..
    refine tidy.seat _ value fits rfl took.grid (fun s => ?_)
      (fun e₀ found₀ => by simp [absent] at found₀) (fun c' e' _ found same => ?_) ?_
    · simp only [TablespaceEntry.slotGlobal, whole, took.bits]
      by_cases same : s = slotGlobal <;> simp [same]
    · have set := tidy.taken c' e' found
      rw [same, TablespaceEntry.slotGlobal, whole, took.wasFree] at set
      exact Bool.false_ne_true set
    · rw [tidy.counted, r.entries.erase_of_absent absent]
      exact Int.add_comm _ _

theorem Tidy.put (c : Composite) (value : Bytes) (fault : Option WriteFault)
    (sheltered : fault ≠ none → r.Admitted value retention → r.entries.get? c = none) :
    (r.put clk c value retention metadata fault).1.Tidy := by
  unfold TablespaceLongRegion.put
  split_ifs with notLong notStarted empty oversize
  · exact tidy
  · exact tidy
  · exact tidy
  · exact tidy
  · have positive : 0 < value.length := by omega
    have size : value.length ≤ r.cfg.slotBytes := by omega
    split
    · rename_i e found
      have written : fault = none := by
        by_contra failed
        have absent := sheltered failed ⟨by simpa using notLong, positive, size⟩
        simp [found] at absent
      subst written
      exact tidy.overwrite clk retention metadata found positive size
    · rename_i absent
      have room : (r.roomFor value.length).Tidy := tidy.makeRoom _ _
      have thinned := r.roomFor_thinned value.length
      dsimp only
      split_ifs
      · exact room
      · split
        · exact room
        · rename_i slotGlobal allocator took
          refine room.insertAt clk retention metadata ?_ positive (thinned.cfg ▸ size)
            (alloc_allocated took) fault
          cases found : (r.roomFor value.length).entries.get? c with
          | none => rfl
          | some e =>
            have resident := thinned.entries c e found
            simp [absent] at resident

theorem Tidy.getBytes (c : Composite) : (r.getBytes clk c).1.Tidy := by
  unfold TablespaceLongRegion.getBytes
  split
  · exact tidy
  · rename_i e found
    have same : r.usedBytes = r.usedBytes + (e.sizeBytes - e.sizeBytes : Int) := by simp
    exact (tidy.reseat found { e with lastAccess := clk 0 } [] (tidy.fits c e found)
      (tidy.keyed c e found) rfl same).onDisk r.disk

end

theorem intField_toNat {name : String} {n : Int} (read : intField raw name = .ok n)
    (nonneg : 0 ≤ n) : intField raw name = .ok n.toNat := by
  rw [read, Int.toNat_of_nonneg nonneg]

/-- An admitted record gives an entry of its composite inside the grid, in the slot it names. -/
structure Admits (cfg : TablespaceConfig) (c : Composite) (raw : Json) (e : TablespaceEntry) :
    Prop where
  fits : e.placement.Fits cfg
  keyed : Composite.mk e.model e.compatKey e.key = c
  container : intField raw "container" = .ok e.containerIdx
  slot : intField raw "slot" = .ok e.slotIdx

theorem admit_admits {now : ℚ} (admitted : admitRecord cfg now c raw = .ok (some e)) :
    Admits cfg c raw e := by
  unfold admitRecord at admitted
  cases container : intField raw "container" with
  | error err => simp [container, bind, Except.bind] at admitted
  | ok k =>
  cases slot : intField raw "slot" with
  | error err => simp [container, slot, bind, Except.bind] at admitted
  | ok j =>
  cases size : intField raw "size" with
  | error err => simp [container, slot, size, bind, Except.bind] at admitted
  | ok n =>
  simp only [container, slot, size, bind, Except.bind, pure, Except.pure] at admitted
  split_ifs at admitted with outside
  · cases admitted
  · cases retention : strField raw "retention" "long" with
    | error err => simp [retention] at admitted
    | ok kind =>
    cases metadata : metadataField raw with
    | error err => simp [retention, metadata] at admitted
    | ok md =>
    simp only [retention, metadata, Except.ok.injEq, Option.some.injEq] at admitted
    subst admitted
    push Not at outside
    exact ⟨⟨by simp [placement]; omega, by simp [placement]; omega,
        by simp [placement]; omega,
        by simp [placement]; omega⟩, rfl,
      intField_toNat container outside.1, intField_toNat slot outside.2.2.1⟩

theorem Tight.restoreEntry (tight : r.Tight) (fresh : r.entries.get? c = none)
    (admits : Admits r.cfg c raw e) : (r.restoreEntry c e).Tight where
  grid := tight.grid.trans (sameGrid_markUsed _ _)
  fits c' e' found := by
    rcases get?_set_cases found with ⟨-, rfl⟩ | ⟨-, found⟩
    · exact admits.fits
    · exact tight.fits c' e' found
  keyed c' e' found := by
    rcases get?_set_cases found with ⟨rfl, rfl⟩ | ⟨-, found⟩
    · exact admits.keyed
    · exact tight.keyed c' e' found
  taken c' e' found := by
    simp only [TablespaceLongRegion.restoreEntry, bits_markUsed, update_apply]
    split_ifs with own
    · rfl
    · rcases get?_set_cases found with ⟨-, rfl⟩ | ⟨-, found⟩
      · exact absurd rfl own
      · exact tight.taken c' e' found
  owned s set := by
    simp only [TablespaceLongRegion.restoreEntry, bits_markUsed, update_apply] at set
    split_ifs at set with own
    · exact ⟨c, e, by simp [TablespaceLongRegion.restoreEntry], own.symm⟩
    · obtain ⟨c', e', found, rfl⟩ := tight.owned s set
      have differ : c' ≠ c := fun same => by simp [same, fresh] at found
      exact ⟨c', e', by simp [TablespaceLongRegion.restoreEntry, get?_set, differ, found], rfl⟩
  counted := by
    simp only [tight.counted, indexedBytes, TablespaceLongRegion.restoreEntry,
      values_set_of_fresh _ _ _ fresh, map_append, sum_append, map_cons,
      map_nil, sum_cons, sum_nil]
    push_cast
    ring

/-- The files and the geometry stay, and every entry is one there was or comes from a record. -/
structure PopulatedFrom (r r' : TablespaceLongRegion) (items : List (Composite × Json)) : Prop where
  tight : r'.Tight
  cfg : r'.cfg = r.cfg
  disk : r'.disk = r.disk
  entries : ∀ c e, r'.entries.get? c = some e →
    r.entries.get? c = some e ∨ ∃ raw, (c, raw) ∈ items ∧ Admits r.cfg c raw e

theorem populate_tight : ∀ (items : List (Composite × Json)) (r r' : TablespaceLongRegion)
    (clk : Clock), r.Tight → (items.map Prod.fst).Nodup →
    (∀ c ∈ items.map Prod.fst, r.entries.get? c = none) → r.populate clk items = .ok r' →
    PopulatedFrom r r' items
  | [], r, r', clk, tight, _, _, ok => by
    cases ok
    obtain ⟨total, containers, perContainer⟩ := tight.grid
    exact ⟨{ tight with grid := ⟨total, containers, perContainer⟩ }, rfl, rfl, fun c e found => .inl found⟩
  | (c, raw) :: items, r, r', clk, tight, nodup, fresh, ok => by
    rw [map_cons, nodup_cons] at nodup
    have freshRest : ∀ c' ∈ items.map Prod.fst, r.entries.get? c' = none :=
      fun c' mem => fresh c' (.tail _ mem)
    rw [populate] at ok
    split at ok
    · cases ok
    · have rest := populate_tight items r r' clk tight nodup.2 freshRest ok
      refine { rest with entries := fun c' e found => ?_ }
      rcases rest.entries c' e found with before | ⟨raw', mem, admits⟩
      · exact .inl before
      · exact .inr ⟨raw', mem_cons_of_mem _ mem, admits⟩
    · rename_i e admitted
      have admits := admit_admits admitted
      have absent : r.entries.get? c = none := fresh c mem_cons_self
      have freshNext : ∀ c' ∈ items.map Prod.fst, (r.restoreEntry c e).entries.get? c' = none :=
        fun c' mem => by
          have differ : c' ≠ c := fun same => nodup.1 (same ▸ mem)
          rw [restoreEntry, get?_set_of_ne differ, freshRest c' mem]
      have rest := populate_tight items (r.restoreEntry c e) r' (clk.after 1)
        (tight.restoreEntry absent admits) nodup.2 freshNext ok
      refine { rest with entries := fun c' e' found => ?_ }
      rcases rest.entries c' e' found with before | ⟨raw', mem, admits'⟩
      · rcases get?_set_cases before with ⟨rfl, rfl⟩ | ⟨-, before⟩
        · exact .inr ⟨raw, mem_cons_self, admits⟩
        · exact .inl before
      · exact .inr ⟨raw', mem_cons_of_mem _ mem, admits'⟩

theorem tight_new (cfg : TablespaceConfig) (disk : TablespaceDisk) : (new cfg disk).Tight where
  grid := ⟨rfl, rfl, rfl⟩
  fits c e found := by simp [new] at found
  keyed c e found := by simp [new] at found
  taken c e found := by simp [new] at found
  owned s set := by
    simp [new, TablespaceConfig.newAllocator, BitsetAllocator.new] at set
  counted := rfl

/-- No two records of an index name one slot. -/
def SlotsNamedOnce (index : Dict Composite Json) : Prop :=
  ∀ c c' raw raw', index.get? c = some raw → index.get? c' = some raw' →
    intField raw "container" = intField raw' "container" →
    intField raw "slot" = intField raw' "slot" → c = c'

theorem coordinates_eq {e' : TablespaceEntry} (fits : e.placement.Fits cfg)
    (fits' : e'.placement.Fits cfg) (same : e.slotGlobal cfg = e'.slotGlobal cfg) :
    e.containerIdx = e'.containerIdx ∧ e.slotIdx = e'.slotIdx := by
  have slot : e.slotIdx < cfg.slotsPerContainer := fits.slot
  have slot' : e'.slotIdx < cfg.slotsPerContainer := fits'.slot
  have positive := cfg.slotsPerContainer_pos
  constructor
  · have quotients := congrArg (· / cfg.slotsPerContainer) same
    simpa [slotGlobal, Nat.add_div_of_dvd_right, Nat.mul_div_cancel _ positive,
      Nat.div_eq_of_lt slot, Nat.div_eq_of_lt slot'] using quotients
  · have remainders := congrArg (· % cfg.slotsPerContainer) same
    simpa [slotGlobal, Nat.mod_eq_of_lt slot, Nat.mod_eq_of_lt slot'] using remainders

theorem start_tidy {r' : TablespaceLongRegion} {clk : Clock} (stopped : r.started = false)
    (ok : r.start clk = .ok r')
    (once : ∀ index, replayIndex r.cfg r.disk = .ok index → SlotsNamedOnce index) :
    r'.Tidy ∧ r'.cfg = r.cfg ∧ r'.disk = r.disk := by
  rw [start, if_neg (by simp [stopped])] at ok
  split at ok
  · cases ok
  rename_i index replayed
  split at ok
  · cases ok
  rename_i restored populated
  cases ok
  have filled := populate_tight index.items _ restored clk (tight_new r.cfg r.disk)
    index.nodupKeys (fun c _ => rfl) populated
  obtain ⟨grid, fits, keyed, taken, owned, counted⟩ := filled.tight
  refine ⟨⟨⟨grid, fits, keyed, taken, owned, counted⟩, rfl, fun c c' e e' found found' same => ?_⟩,
    filled.cfg, filled.disk⟩
  have origin : ∀ c e, restored.entries.get? c = some e →
      ∃ raw, index.get? c = some raw ∧ Admits r.cfg c raw e := fun c e found => by
    rcases filled.entries c e found with before | ⟨raw, mem, admits⟩
    · simp [new] at before
    · exact ⟨raw, (index.get?_eq_some_iff c raw).mpr mem, admits⟩
  obtain ⟨raw, named, admits⟩ := origin c e found
  obtain ⟨raw', named', admits'⟩ := origin c' e' found'
  obtain ⟨container, slot⟩ := coordinates_eq (fits c e found) (fits c' e' found') same
  refine once index replayed c c' raw raw' named named' ?_ ?_
  · rw [admits.container, admits'.container, container]
  · rw [admits.slot, admits'.slot, slot]

end TablespaceLongRegion
end Infera.Kvd
