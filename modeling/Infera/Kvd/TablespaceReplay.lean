import Infera.JsonSorted
import Infera.Kvd.Tablespace

/-! What a journal says and what `start` makes of it. A journal of whole lines is
a list of `JournalOp`s; `placements` folds them into the place of each composite,
and `restart_restored` is the refinement: the region that starts over such a
directory has exactly these places in its index and exactly their slots taken. -/

namespace Infera.Kvd
open Json JsonText JsonLines TablespaceLongRegion List Function

structure Placement where
  container : Nat
  slot : Nat
  size : Nat
  deriving DecidableEq

namespace Placement

structure Fits (cfg : TablespaceConfig) (loc : Placement) : Prop where
  container : loc.container < cfg.numContainers
  slot : loc.slot < cfg.slotsPerContainer
  positive : 0 < loc.size
  size : loc.size ≤ cfg.slotBytes

def slotGlobal (cfg : TablespaceConfig) (loc : Placement) : Nat :=
  loc.container * cfg.slotsPerContainer + loc.slot

end Placement

def TablespaceEntry.placement (e : TablespaceEntry) : Placement :=
  ⟨e.containerIdx, e.slotIdx, e.sizeBytes⟩

inductive JournalOp where
  | put (c : Composite) (loc : Placement) (retention : Retention) (metadata : Metadata)
      (ts : JsonFloat)
  | del (c : Composite)

namespace JournalOp

def toJson : JournalOp → Json
  | put c loc retention metadata ts =>
    putRecord c loc.container loc.slot loc.size retention metadata ts
  | del c => delRecord c

/-- `json.dumps` can write the entry. -/
def Encodable : JournalOp → Prop
  | put _ _ _ metadata _ => metadata.encodable = true
  | del _ => True

def apply (index : Composite → Option Placement) : JournalOp → Composite → Option Placement
  | put c loc _ _ _ => update index c (some loc)
  | del c => update index c none

end JournalOp

variable (ops : List JournalOp)

def placements : Composite → Option Placement :=
  ops.foldl JournalOp.apply fun _ => none

theorem placements_append (op : JournalOp) :
    placements (ops ++ [op]) = op.apply (placements ops) := by
  simp [placements]

theorem hexDigit_not_space {d : Nat} (small : d < 16) : isSpace (hexDigit d) = false := by
  interval_cases d <;> rfl

theorem fromHex_hexText (key : Bytes) : fromHex (hexText key).toList = some key := by
  simp only [hexText, String.toList_ofList]
  induction key with
  | nil => rfl
  | cons b key ih =>
    have high : b.toNat / 16 < 16 := by have := b.toNat_lt; omega
    have low : b.toNat % 16 < 16 := Nat.mod_lt _ (by omega)
    rw [flatMap_cons, cons_append, cons_append, nil_append, fromHex]
    simp only [hexDigit_not_space high, Bool.false_eq_true, if_false, hexVal_hexDigit high,
      hexVal_hexDigit low, ih]
    have whole : UInt8.ofNat (b.toNat / 16 * 16 + b.toNat % 16) = b := by
      rw [show b.toNat / 16 * 16 + b.toNat % 16 = b.toNat by omega, UInt8.ofNat_toNat]
    simp only [Option.bind_eq_bind, Option.bind_some, whole, Option.pure_def]

theorem compositeOf_eq {raw : Json} {c : Composite} (model : strField raw "model" "" = .ok c.model)
    (compatKey : strField raw "compat_key" "" = .ok c.compatKey)
    (keyHex : strField raw "key_hex" "" = .ok (hexText c.key)) : compositeOf raw = .ok c := by
  simp [compositeOf, model, compatKey, keyHex, fromHex_hexText, bind, Except.bind, pure, Except.pure]

open JournalOp

theorem JournalOp.record (op : JournalOp) (encodable : op.Encodable) : Record op.toJson := by
  refine ⟨by cases op <;> exact ⟨_, rfl⟩, writable_of_encodable _ ?_ ?_⟩
  · cases op with
    | put _ _ _ metadata =>
      have inner : metadata.toJson.encodable = true := encodable
      simp [toJson, putRecord, Json.encodable, encodableFields, inner]
    | del c => rfl
  · cases op with
    | put _ _ _ metadata =>
      have inner : metadata.toJson.distinct = true := metadata.distinct
      simp [toJson, putRecord, Json.distinct, distinctFields, inner]
    | del c => rfl

/-- The records of an index under construction stand for the places. -/
def IndexOf (index : Dict Composite Json) (place : Composite → Option Placement) : Prop :=
  ∀ c, index.get? c = none ∧ place c = none ∨ ∃ loc retention metadata ts, place c = some loc ∧
      index.get? c = some (JournalOp.put c loc retention metadata ts).toJson

variable {place : Composite → Option Placement} {index : Dict Composite Json}

theorem applyOp_indexOf (stands : IndexOf index place) (op : JournalOp) :
    ∃ index', applyOp index op.toJson = .ok index' ∧ IndexOf index' (op.apply place) := by
  cases op with
  | put c loc retention metadata ts =>
    refine ⟨index.set c (put c loc retention metadata ts).toJson, ?_, fun c' => ?_⟩
    · have composite : compositeOf (putRecord c loc.container loc.slot loc.size retention metadata
          ts) = .ok c := compositeOf_eq rfl rfl rfl
      have kind : getField (putRecord c loc.container loc.slot loc.size retention metadata ts) "op" =
          .ok (some (.str "PUT")) := rfl
      simp only [applyOp, kind, toJson, composite, bind, Except.bind, pure, Except.pure, if_true]
    · by_cases same : c' = c
      · subst same
        exact .inr ⟨loc, retention, metadata, ts, by simp [apply], by simp⟩
      · simpa [apply, Dict.get?_set, same] using stands c'
  | del c =>
    refine ⟨index.erase c, ?_, fun c' => ?_⟩
    · have composite : compositeOf (delRecord c) = .ok c := compositeOf_eq rfl rfl rfl
      have kind : getField (delRecord c) "op" = .ok (some (.str "DEL")) := rfl
      have other : ¬"DEL" = "PUT" := by decide
      simp only [applyOp, kind, toJson, composite, bind, Except.bind,
        pure, Except.pure, if_true, if_neg other]
    · by_cases same : c' = c
      · subst same
        exact .inl ⟨by simp, by simp [apply]⟩
      · simpa [apply, Dict.get?_erase, same] using stands c'

theorem replay_indexOf (stands : IndexOf index place) :
    ∃ index', (ops.map toJson).foldlM applyOp index = .ok index' ∧
      IndexOf index' (ops.foldl apply place) := by
  induction ops generalizing index place with
  | nil => exact ⟨index, rfl, stands⟩
  | cons op ops ih =>
    obtain ⟨next, applied, nextStands⟩ := applyOp_indexOf stands op
    obtain ⟨final, folded, finalStands⟩ := ih nextStands
    refine ⟨final, ?_, finalStands⟩
    rw [map_cons, foldlM_cons, applied]
    exact folded

theorem sortKeys_payload (checksum : String) (entries : List Json) (slotBytes containerBytes : Nat) :
    sortKeys (.obj [("version", .int 1), ("geometry", .obj [("slot_bytes", .int slotBytes),
      ("container_bytes", .int containerBytes)]), ("checksum", .str checksum),
      ("entries", .arr entries)]) =
    .obj [("checksum", .str checksum), ("entries", .arr (entries.map sortKeys)),
      ("geometry", .obj [("container_bytes", .int containerBytes), ("slot_bytes", .int slotBytes)]),
      ("version", .int 1)] := by
  simp only [sortKeys, sortKeysFields, sortKeysAll_eq_map, insertionSort_cons,
    insertionSort_nil, orderedInsert_cons, orderedInsert_nil, String.reduceLT,
    not_true_eq_false, not_false_eq_true, if_true, if_false]

theorem checksumOf_sorted (cfg : TablespaceConfig) (entries : List Json) :
    checksumOf cfg (.arr (entries.map sortKeys)) = checksumOf cfg (.arr entries) := by
  have sorted : (Json.arr entries).sortKeys = .arr (entries.map sortKeys) := by
    rw [sortKeys, sortKeysAll_eq_map]
  rw [checksumOf, checksumOf, ← sorted, sortKeys_sortKeys]

theorem snapshotEntries_text (cfg cfg' : TablespaceConfig) {entries : List Json}
    (encodable : ∀ x ∈ entries, x.encodable = true) (distinct : ∀ x ∈ entries, x.distinct = true) :
    snapshotEntries cfg' (snapshotText cfg entries) =
      if checksumOf cfg (.arr entries) = checksumOf cfg' (.arr entries) ∧
        cfg.slotBytes = cfg'.slotBytes ∧ cfg.containerBytes = cfg'.containerBytes then
        some (.arr (entries.map sortKeys)) else none := by
  have encodableSorted : encodableAll (entries.map sortKeys) = true := by
    rw [encodableAll_iff, forall_mem_map]
    exact fun x mem => encodable_sortKeys x (encodable x mem)
  have distinctSorted : distinctAll (entries.map sortKeys) = true := by
    rw [distinctAll_iff, forall_mem_map]
    exact fun x mem => distinct_sortKeys x (distinct x mem)
  rw [snapshotText, sortKeys_payload, snapshotEntries, loads_dumps (writable_of_encodable _
    (by simp [Json.encodable, encodableFields, encodableSorted])
    (by simp [Json.distinct, distinctFields, distinctSorted]))]
  change (if checksumOf cfg (.arr entries) = checksumOf cfg' (.arr (entries.map sortKeys)) ∧
      isInt (some (.int cfg.slotBytes)) cfg'.slotBytes ∧
      isInt (some (.int cfg.containerBytes)) cfg'.containerBytes
    then some (Json.arr (entries.map sortKeys)) else none) = _
  simp [isInt, checksumOf_sorted]

variable (cfg : TablespaceConfig) (r : TablespaceLongRegion) (disk : TablespaceDisk)

theorem readSnapshot_cleared
    (written : disk.snapshot = some (snapshotText cfg [])) : readSnapshot cfg disk = .ok [] := by
  have empty : snapshotEntries cfg (snapshotText cfg []) = some (.arr []) := by
    rw [snapshotEntries_text cfg cfg (by simp) (by simp), if_pos ⟨rfl, rfl, rfl⟩]
    rfl
  simp [readSnapshot, written, empty]

namespace TablespaceLongRegion

theorem clear_fst : r.clear.1 = { r.emptied with
      disk := { writeSnapshot r.disk (snapshotText r.cfg []) with journal := [] } } := rfl

/-- The index holds exactly the given places, and exactly their slots are taken. -/
structure Populated (r : TablespaceLongRegion) (place : Composite → Option Placement) : Prop where
  entries : ∀ c, (r.entries.get? c).map TablespaceEntry.placement = place c
  grid : BitsetAllocator.SameGrid r.cfg.newAllocator r.allocator
  bits : ∀ s, r.allocator.bits s = true ↔ ∃ c loc, place c = some loc ∧ loc.slotGlobal r.cfg = s

theorem populated_new : Populated (new cfg disk) fun _ => none where
  entries _ := rfl
  grid := ⟨rfl, rfl, rfl⟩
  bits s := by simp [new, TablespaceConfig.newAllocator, BitsetAllocator.new]

theorem admitRecord_eq {cfg : TablespaceConfig} {raw : Json} {loc : Placement} {retention : String}
    {metadata : Metadata} (fits : loc.Fits cfg)
    (container : intField raw "container" = .ok loc.container)
    (slot : intField raw "slot" = .ok loc.slot) (size : intField raw "size" = .ok loc.size)
    (kind : strField raw "retention" "long" = .ok retention)
    (stored : getField raw "metadata" = .ok (some metadata.toJson)) (now : ℚ) (c : Composite) :
    admitRecord cfg now c raw = .ok (some
      { key := c.key, containerIdx := loc.container, slotIdx := loc.slot, sizeBytes := loc.size
        retention := (Retention.ofString? retention).getD .long, model := c.model
        compatKey := c.compatKey, lastAccess := now, metadata }) := by
  have inRange : ¬((loc.container : Int) < 0 ∨ (loc.container : Int) ≥ cfg.numContainers ∨
      (loc.slot : Int) < 0 ∨ (loc.slot : Int) ≥ cfg.slotsPerContainer ∨ (loc.size : Int) ≤ 0 ∨
      (loc.size : Int) > cfg.slotBytes) := by
    rcases fits with ⟨h₁, h₂, h₃, h₄⟩
    omega
  simp only [admitRecord, container, slot, size, kind, metadataField_eq stored, bind, Except.bind, if_neg inRange]
  rfl

theorem admit_put (now : ℚ) (c : Composite) (loc : Placement)
    (fits : loc.Fits cfg) (retention : Retention) (metadata : Metadata) (ts : JsonFloat) :
    ∃ e, admitRecord cfg now c (JournalOp.put c loc retention metadata ts).toJson = .ok (some e) ∧
      e.placement = loc :=
  ⟨_, admitRecord_eq fits rfl rfl rfl rfl rfl now c, rfl⟩

theorem Populated.restoreEntry {r : TablespaceLongRegion}
    (populated : Populated r place) {c : Composite} (fresh : place c = none) (e : TablespaceEntry) :
    Populated (r.restoreEntry c e) (update place c (some e.placement)) where
  entries c' := by
    by_cases same : c' = c
    · simp [same, TablespaceLongRegion.restoreEntry]
    · simp [Dict.get?_set, same, populated.entries c', TablespaceLongRegion.restoreEntry]
  grid := populated.grid.trans (BitsetAllocator.sameGrid_markUsed r.allocator (e.slotGlobal r.cfg))
  bits s := by
    simp only [TablespaceLongRegion.restoreEntry, BitsetAllocator.bits_markUsed]
    by_cases same : s = e.slotGlobal r.cfg
    · subst same
      simp only [update_self, true_iff]
      exact ⟨c, e.placement, by simp, rfl⟩
    · rw [update_of_ne same, populated.bits s]
      constructor
      · rintro ⟨c', loc, at_c', eq⟩
        have differ : c' ≠ c := fun same => by simp [same, fresh] at at_c'
        exact ⟨c', loc, by simpa [differ] using at_c', eq⟩
      · rintro ⟨c', loc, at_c', eq⟩
        by_cases differ : c' = c
        · subst differ
          simp only [update_self, Option.some.injEq] at at_c'
          subst at_c'
          exact absurd eq.symm same
        · exact ⟨c', loc, by simpa [differ] using at_c', eq⟩

theorem populate_populated {goal : Composite → Option Placement} {cfg : TablespaceConfig}
    (fits : ∀ c loc, goal c = some loc → loc.Fits cfg) :
    ∀ (items : List (Composite × Json)) (r : TablespaceLongRegion) (clk : Clock)
      (place : Composite → Option Placement), r.cfg = cfg → Populated r place →
      (items.map Prod.fst).Nodup →
      (∀ c raw, (c, raw) ∈ items → place c = none ∧ ∃ loc retention metadata ts,
        goal c = some loc ∧ raw = (JournalOp.put c loc retention metadata ts).toJson) →
      (∀ c, c ∉ items.map Prod.fst → goal c = place c) →
      ∃ r', r.populate clk items = .ok r' ∧ Populated r' goal ∧ r'.cfg = r.cfg ∧ r'.disk = r.disk
  | [], r, clk, place, _, populated, _, _, done => by
    have same : goal = place := funext fun c => done c (by simp)
    subst same
    refine ⟨_, rfl, { populated with grid := ?_ }, rfl, rfl⟩
    obtain ⟨total, containers, perContainer⟩ := populated.grid
    exact ⟨total, containers, perContainer⟩
  | (c, raw) :: items, r, clk, place, sameCfg, populated, nodup, records, done => by
    subst sameCfg
    obtain ⟨fresh, loc, retention, metadata, ts, at_c, record⟩ := records c raw (by simp)
    obtain ⟨e, admitted, placed⟩ :=
      admit_put r.cfg (clk 0) c loc (fits c loc at_c) retention metadata ts
    rw [map_cons, nodup_cons] at nodup
    have later : ∀ c', c' ∈ items.map Prod.fst → c' ≠ c := fun c' mem same =>
      nodup.1 (same ▸ mem)
    obtain ⟨r', ok, restored, cfg', disk'⟩ := populate_populated fits items
      (r.restoreEntry c e) (clk.after 1) _ rfl (populated.restoreEntry fresh e) nodup.2
      (fun c' raw' mem => by
        have differ := later c' (mem_map.mpr ⟨_, mem, rfl⟩)
        obtain ⟨fresh', rest⟩ := records c' raw' (.tail _ mem)
        exact ⟨by simpa [differ] using fresh', rest⟩)
      (fun c' notLater => by
        by_cases differ : c' = c
        · simp [differ, at_c, placed]
        · simpa [differ] using done c' (by simpa [differ] using notLater))
    refine ⟨r', ?_, restored, cfg', disk'⟩
    rw [populate, record, admitted]
    exact ok

/-- The region started over a directory: its index is `place`. -/
structure Restored (r : TablespaceLongRegion) (place : Composite → Option Placement)
    (r' : TablespaceLongRegion) : Prop where
  populated : Populated r' place
  started : r'.started = true
  cfg : r'.cfg = r.cfg
  disk : r'.disk = r.disk

theorem restart_restored (clk : Clock) (ops : List JournalOp)
    (snapshot : readSnapshot r.cfg r.disk = .ok [])
    (journal : readAll r.disk.journal = ops.map toJson)
    (fits : ∀ c loc, placements ops c = some loc → loc.Fits r.cfg) :
    ∃ r', r.restart clk = .ok r' ∧ Restored r (placements ops) r' := by
  have blank : IndexOf Dict.empty fun _ => none := fun c => .inl ⟨rfl, rfl⟩
  obtain ⟨index, replayed, stands⟩ := replay_indexOf ops blank
  have indexOk : replayIndex r.cfg r.disk = .ok index := by
    simp only [replayIndex, snapshot, journal]
    exact replayed
  obtain ⟨r', populatedOk, populated, cfg', disk'⟩ := populate_populated fits index.items
    (new r.cfg r.disk) clk (fun _ => none) rfl (populated_new r.cfg r.disk) index.nodupKeys
    (fun c raw mem => by
      have found := (index.get?_eq_some_iff c raw).mpr mem
      rcases stands c with ⟨absent, -⟩ | ⟨loc, retention, metadata, ts, at_c, record⟩
      · simp [absent] at found
      · exact ⟨rfl, loc, retention, metadata, ts, at_c, Option.some.inj (found.symm.trans record)⟩)
    (fun c absent => by
      rcases stands c with ⟨-, nowhere⟩ | ⟨loc, retention, metadata, ts, at_c, record⟩
      · exact nowhere
      · exact absurd (mem_map.mpr ⟨_, (index.get?_eq_some_iff _ _).mp record, rfl⟩) absent)
  refine ⟨{ r' with started := true }, ?_, { populated with }, rfl, cfg', disk'⟩
  have fresh : (new r.cfg r.disk).started = false := rfl
  have same : new (new r.cfg r.disk).cfg (new r.cfg r.disk).disk = new r.cfg r.disk := rfl
  have index : replayIndex (new r.cfg r.disk).cfg (new r.cfg r.disk).disk = .ok index := indexOk
  simp [restart, start, fresh, index, same, populatedOk]

end TablespaceLongRegion
end Infera.Kvd
