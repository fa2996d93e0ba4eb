import Infera.Kvd.SsdSidecar

/-! The startup scan over a directory the region wrote. `Settled` says what the
two files of an indexed block hold; over a directory of such files, with
orphaned data files at most, the scan drops nothing but the orphans and gives
one entry for each indexed composite (`scanDisk_kept`). -/

namespace Infera.Kvd
open Json Dict List Option
variable {disk : SsdDisk} {e w : SsdEntry} {entries : Dict Composite SsdEntry}

namespace SsdDisk

variable (disk : SsdDisk) (shard shard' : Shard) (name name' : List Char)

theorem read_write (bytes : Bytes) : (disk.write shard name bytes).read shard' name' =
      if shard' = shard ∧ name' = name then some bytes else disk.read shard' name' := by
  rw [write, read, get?_set]
  by_cases sameShard : shard' = shard
  · subst sameShard
    simp only [if_true, bind_some, get?_set, true_and]
    by_cases sameName : name' = name
    · simp only [sameName, if_true]
    · simp only [read]
      cases disk.get? shard' <;> rfl
  · simp only [sameShard, if_false, false_and, read]

theorem read_unlink : (disk.unlink shard name).read shard' name' =
      if shard' = shard ∧ name' = name then none else disk.read shard' name' := by
  unfold unlink
  cases folder : disk.get? shard with
  | none =>
    split_ifs with same
    · rw [read, same.1, folder, bind_none]
    · rfl
  | some files =>
    by_cases sameShard : shard' = shard
    · subst sameShard
      simp [read, folder, get?_erase]
    · simp only [read, get?_set_of_ne sameShard, sameShard, false_and, if_false]

end SsdDisk

def SameFiles (disk disk' : SsdDisk) : Prop :=
  ∀ shard name, disk.read shard name = disk'.read shard name

/-- The entries agree in what a sidecar keeps of them. -/
structure SameRecord (e w : SsdEntry) : Prop where
  composite : e.composite = w.composite
  sizeBytes : e.sizeBytes = w.sizeBytes
  retention : e.retention = w.retention
  metadata : SameMembers e.metadata.toJson w.metadata.toJson

theorem SameRecord.rebuilt (same : SameRecord e w) (wall wall' : WallClock) :
    SameRecord e (rebuilt wall wall' w) where
  __ := same
  metadata := by
    show e.metadata.toJson.sortKeys = w.metadata.sorted.toJson.sortKeys
    rw [Metadata.sorted_toJson, sortKeys_sortKeys]
    exact same.metadata

theorem SameRecord.trans {x : SsdEntry} (first : SameRecord e w) (second : SameRecord w x) :
    SameRecord e x :=
  ⟨first.composite.trans second.composite, first.sizeBytes.trans second.sizeBytes,
    first.retention.trans second.retention, Eq.trans first.metadata second.metadata⟩

theorem SameRecord.symm (same : SameRecord e w) : SameRecord w e :=
  ⟨same.composite.symm, same.sizeBytes.symm, same.retention.symm, Eq.symm same.metadata⟩

/-- The two files of a block: its bytes and the sidecar of an entry like `e`. -/
structure Settled (disk : SsdDisk) (e : SsdEntry) (value : Bytes) : Prop where
  plain : Plain e.composite
  size : e.sizeBytes = value.length
  data : disk.read (shardOf e.composite) (dataName e.composite) = some value
  sidecar : ∃ wall w, SameRecord e w ∧ Fits (sidecarPayload wall w value) ∧
    disk.read (shardOf e.composite) (metadataName e.composite) =
      some (sidecarBlob (sidecarPayload wall w value))

theorem Settled.congr {disk' : SsdDisk} {e' : SsdEntry} {value : Bytes}
    (settled : Settled disk e value) (same : SameRecord e' e)
    (data : disk'.read (shardOf e.composite) (dataName e.composite) =
      disk.read (shardOf e.composite) (dataName e.composite))
    (sidecar : disk'.read (shardOf e.composite) (metadataName e.composite) =
      disk.read (shardOf e.composite) (metadataName e.composite)) : Settled disk' e' value where
  plain := same.composite ▸ settled.plain
  size := same.sizeBytes.trans settled.size
  data := by rw [same.composite, data, settled.data]
  sidecar := by
    obtain ⟨wall, w, alike, fits, blob⟩ := settled.sidecar
    exact ⟨wall, w, same.trans alike, fits, by rw [same.composite, sidecar, blob]⟩

/-- Every indexed block has its two files, and no other file is on the disk but
data files without a sidecar. -/
structure Kept (entries : Dict Composite SsdEntry) (disk : SsdDisk) : Prop where
  settled : ∀ c e, entries.get? c = some e → e.composite = c ∧ ∃ value, Settled disk e value
  files : ∀ shard name bytes, disk.read shard name = some bytes → ∃ c, Plain c ∧
    shard = shardOf c ∧ (name = dataName c ∨ name = metadataName c ∧ ∃ e, entries.get? c = some e)

theorem scanStems_ok (wall : WallClock) (stems : List (List Char)) (folder : Folder)
    {scanned : List (List Char)}
    (whole : ∀ stem ∈ scanned, ∃ e, readPair wall stems folder stem = .ok (some e)) :
    ∃ out, scanStems wall stems scanned folder = .ok (folder, out) ∧
      ∀ e, e ∈ out ↔ ∃ stem ∈ scanned, readPair wall stems folder stem = .ok (some e) := by
  induction scanned with
  | nil => exact ⟨[], rfl, by simp⟩
  | cons stem rest ih =>
    obtain ⟨e, first⟩ := whole stem mem_cons_self
    obtain ⟨out, later, members⟩ := ih fun s mem => whole s (.tail _ mem)
    refine ⟨e :: out, ?_, fun e' => ?_⟩
    · simp [scanStems, first, later, bind, Except.bind, pure, Except.pure]
    · rw [mem_cons, members, exists_mem_cons_iff, first, Except.ok.injEq, some.injEq, eq_comm]

/-- What the scan reads for a composite from its two files. -/
def Recovers (disk : SsdDisk) (wall : WallClock) (c : Composite) (e : SsdEntry) : Prop :=
  ∃ blob value payload, disk.read (shardOf c) (metadataName c) = some blob ∧
    disk.read (shardOf c) (dataName c) = some value ∧ decodeSidecar blob = some payload ∧
    recoverEntry wall payload (filenameForComposite c) value = .ok (some e)

theorem Recovers.unique {wall : WallClock} {c : Composite} {e' : SsdEntry}
    (recovers : Recovers disk wall c e) (recovers' : Recovers disk wall c e') : e = e' := by
  obtain ⟨blob, value, payload, sidecar, data, decoded, read⟩ := recovers
  obtain ⟨blob', value', payload', sidecar', data', decoded', read'⟩ := recovers'
  obtain rfl : blob = blob' := some.inj (sidecar.symm.trans sidecar')
  obtain rfl : value = value' := some.inj (data.symm.trans data')
  obtain rfl : payload = payload' := some.inj (decoded.symm.trans decoded')
  rw [read, Except.ok.injEq, some.injEq] at read'
  exact read'

theorem Settled.recovers {value : Bytes} (settled : Settled disk e value) (wall : WallClock) :
    ∃ e', Recovers disk wall e.composite e' ∧ SameRecord e' e := by
  obtain ⟨written, w, same, fits, blob⟩ := settled.sidecar
  have named := same.composite
  refine ⟨rebuilt written wall w, ⟨_, value, _, blob, settled.data,
    decodeSidecar_sidecarBlob (distinct_sidecarPayload written w value) fits, ?_⟩,
    (same.rebuilt written wall).symm⟩
  rw [named]
  exact recoverEntry_sidecarPayload written wall (named ▸ settled.plain)
    (same.sizeBytes.symm.trans settled.size)

section Leaf
variable {c : Composite} {e : SsdEntry}

variable {entries : Dict Composite SsdEntry} {disk : SsdDisk} (kept : Kept entries disk)
  {shard : Shard} {folder : Folder} (listed : disk.get? shard = some folder)

include listed in
theorem read_folder (name : List Char) : disk.read shard name = folder.get? name := by
  rw [SsdDisk.read, listed, bind_some]

include kept listed

theorem mem_metaStems {stem : List Char} : stem ∈ metaStems folder ↔
    ∃ c, (∃ e, entries.get? c = some e) ∧ shardOf c = shard ∧ stem = filenameForComposite c := by
  simp only [metaStems, mem_filterMap]
  constructor
  · rintro ⟨name, present, isSidecar⟩
    obtain ⟨bytes, found⟩ := mem_keys_iff.1 present
    rw [← read_folder listed] at found
    obtain ⟨c, plain, home, rfl | ⟨rfl, indexed⟩⟩ := kept.files shard name bytes found
    · rw [classify_dataName plain] at isSidecar
      exact absurd isSidecar (by simp [LeafFile.sidecarStem?])
    · rw [classify_metadataName plain] at isSidecar
      exact ⟨c, indexed, home.symm, (some.inj isSidecar).symm⟩
  · rintro ⟨c, ⟨e, indexed⟩, rfl, rfl⟩
    obtain ⟨rfl, value, settled⟩ := kept.settled c e indexed
    obtain ⟨wall, w, -, -, blob⟩ := settled.sidecar
    rw [read_folder listed] at blob
    refine ⟨metadataName e.composite, mem_keys_iff.2 ⟨_, blob⟩, ?_⟩
    rw [classify_metadataName settled.plain]
    rfl

section
variable (indexed : entries.get? c = some e) (home : shardOf c = shard)
include indexed home

theorem mem_dataStems : filenameForComposite c ∈ dataStems folder := by
  obtain ⟨rfl, value, settled⟩ := kept.settled c e indexed
  subst home
  have data := settled.data
  rw [read_folder listed] at data
  refine mem_filterMap.2 ⟨dataName e.composite, mem_keys_iff.2 ⟨_, data⟩, ?_⟩
  rw [classify_dataName settled.plain]
  rfl

theorem reclaim_indexed :
    (reclaim folder).get? (dataName c) = folder.get? (dataName c) ∧
      (reclaim folder).get? (metadataName c) = folder.get? (metadataName c) := by
  obtain ⟨rfl, value, settled⟩ := kept.settled c e indexed
  have recorded : filenameForComposite e.composite ∈ metaStems folder :=
    (mem_metaStems kept listed).2 ⟨_, ⟨e, indexed⟩, home, rfl⟩
  constructor
  · refine get?_filter_of_true _ fun _ => ?_
    simp [classify_dataName settled.plain, recorded]
  · refine get?_filter_of_true _ fun _ => ?_
    simp [classify_metadataName settled.plain]

end

theorem readPair_indexed (wall : WallClock)
    (indexed : entries.get? c = some e) (home : shardOf c = shard) (e' : SsdEntry) :
    readPair wall (dataStems folder) (reclaim folder) (filenameForComposite c) = .ok (some e') ↔
      Recovers disk wall c e' := by
  have present := mem_dataStems kept listed indexed home
  obtain ⟨data, sidecar⟩ := reclaim_indexed kept listed indexed home
  obtain ⟨rfl, value, settled⟩ := kept.settled c e indexed
  obtain ⟨e₁, recovers, -⟩ := settled.recovers wall
  have onDisk := recovers
  obtain ⟨blob, value', payload, blobRead, dataRead, decoded, read⟩ := recovers
  subst home
  rw [read_folder listed, ← sidecar] at blobRead
  rw [read_folder listed, ← data] at dataRead
  have pair : readPair wall (dataStems folder) (reclaim folder)
      (filenameForComposite e.composite) = .ok (some e₁) := by
    rw [readPair, if_neg (not_not_intro present)]
    simp only [metadataName, dataName] at blobRead dataRead
    simp [blobRead, dataRead, decoded, read]
  rw [pair, Except.ok.injEq, some.injEq]
  exact ⟨fun same => same ▸ onDisk, fun other => onDisk.unique other⟩

theorem scanLeaf_kept (wall : WallClock) :
    ∃ out, scanLeaf wall folder = .ok (reclaim folder, out) ∧ ∀ e, e ∈ out ↔
      ∃ c, (∃ e₀, entries.get? c = some e₀) ∧ shardOf c = shard ∧ Recovers disk wall c e := by
  have whole : ∀ stem ∈ metaStems folder, ∃ e,
      readPair wall (dataStems folder) (reclaim folder) stem = .ok (some e) := by
    intro stem mem
    obtain ⟨c, ⟨e₀, indexed⟩, home, rfl⟩ := (mem_metaStems kept listed).1 mem
    obtain ⟨rfl, value, settled⟩ := kept.settled c e₀ indexed
    obtain ⟨e, recovers, -⟩ := settled.recovers wall
    exact ⟨e, (readPair_indexed kept listed wall indexed home e).2 recovers⟩
  obtain ⟨out, scanned, members⟩ := scanStems_ok wall (dataStems folder) (reclaim folder) whole
  refine ⟨out, scanned, fun e => ?_⟩
  rw [members]
  constructor
  · rintro ⟨stem, mem, pair⟩
    obtain ⟨c, ⟨e₀, indexed⟩, home, rfl⟩ := (mem_metaStems kept listed).1 mem
    exact ⟨c, ⟨e₀, indexed⟩, home, (readPair_indexed kept listed wall indexed home e).1 pair⟩
  · rintro ⟨c, ⟨e₀, indexed⟩, home, recovers⟩
    exact ⟨_, (mem_metaStems kept listed).2 ⟨c, ⟨e₀, indexed⟩, home, rfl⟩,
      (readPair_indexed kept listed wall indexed home e).2 recovers⟩

end Leaf

def reclaimed (items : List (Shard × Folder)) : List (Shard × Folder) :=
  (items.filter fun p => p.1.scanned).map fun p => (p.1, reclaim p.2)

/-- The tree after a scan that dropped only orphans. -/
def swept (disk : SsdDisk) : SsdDisk := disk.assign (reclaimed disk.items)

theorem get?_swept (disk : SsdDisk) (shard : Shard) : (swept disk).get? shard =
      (disk.get? shard).map fun folder => if shard.scanned then reclaim folder else folder := by
  have member : ∀ folder', (shard, folder') ∈ reclaimed disk.items ↔
      ∃ folder, disk.get? shard = some folder ∧ shard.scanned = true ∧ reclaim folder = folder' := by
    intro folder'
    simp only [reclaimed, List.mem_map, List.mem_filter, Prod.mk.injEq, get?_eq_some_iff]
    constructor
    · rintro ⟨⟨_, folder⟩, ⟨mem, scanned⟩, rfl, rfl⟩
      exact ⟨folder, mem, scanned, rfl⟩
    · rintro ⟨folder, mem, scanned, rfl⟩
      exact ⟨(shard, folder), ⟨mem, scanned⟩, rfl, rfl⟩
  unfold swept
  cases listed : disk.get? shard with
  | none =>
    rw [get?_assign_of_not_mem, listed, map_none]
    intro folder' mem
    obtain ⟨folder, found, -⟩ := (member folder').1 mem
    rw [listed] at found
    exact absurd found (by simp)
  | some folder =>
    by_cases scanned : shard.scanned = true
    · rw [map_some, if_pos scanned]
      refine get?_assign_of_mem ((member _).2 ⟨folder, listed, scanned, rfl⟩) ?_
      intro folder' mem
      obtain ⟨folder₁, found, -, rfl⟩ := (member folder').1 mem
      rw [listed, some.injEq] at found
      rw [found]
    · rw [map_some, if_neg scanned, get?_assign_of_not_mem, listed]
      intro folder' mem
      obtain ⟨_, _, yes, _⟩ := (member folder').1 mem
      exact scanned yes

theorem read_of_read_swept {shard : Shard} {name : List Char} {bytes : Bytes}
    (found : (swept disk).read shard name = some bytes) : disk.read shard name = some bytes := by
  rw [SsdDisk.read, get?_swept, bind_map] at found
  obtain ⟨folder, listed, inside⟩ := bind_eq_some_iff.1 found
  rw [SsdDisk.read, listed]
  split_ifs at inside
  · exact (get?_filter_eq_some_iff.1 inside).1
  · exact inside

theorem read_swept_indexed
    (kept : Kept entries disk) {c : Composite} (indexed : entries.get? c = some e) :
    (swept disk).read (shardOf c) (dataName c) = disk.read (shardOf c) (dataName c) ∧
      (swept disk).read (shardOf c) (metadataName c) = disk.read (shardOf c) (metadataName c) := by
  rw [SsdDisk.read, SsdDisk.read, SsdDisk.read, SsdDisk.read, get?_swept]
  cases listed : disk.get? (shardOf c) with
  | none => exact ⟨rfl, rfl⟩
  | some folder =>
    simp only [scanned_shardOf]
    exact reclaim_indexed kept listed indexed rfl

theorem scanDisk_ok (wall : WallClock) {items : List (Shard × Folder)} (disk : SsdDisk)
    {P : Shard → SsdEntry → Prop}
    (leaves : ∀ p ∈ items, p.1.scanned = true → ∃ out,
      scanLeaf wall p.2 = .ok (reclaim p.2, out) ∧ ∀ e, e ∈ out ↔ P p.1 e) :
    ∃ out, scanDisk wall items disk = .ok (disk.assign (reclaimed items), out) ∧
      ∀ e, e ∈ out ↔ ∃ p ∈ items, p.1.scanned = true ∧ P p.1 e := by
  induction items generalizing disk with
  | nil => exact ⟨[], rfl, by simp⟩
  | cons p rest ih =>
    obtain ⟨shard, folder⟩ := p
    have rest_ok := fun p (mem : p ∈ rest) => leaves p (.tail _ mem)
    by_cases scanned : shard.scanned = true
    · obtain ⟨here, leaf, hereMembers⟩ := leaves (shard, folder) mem_cons_self scanned
      obtain ⟨later, more, laterMembers⟩ := ih (disk.set shard (reclaim folder)) rest_ok
      refine ⟨here ++ later, ?_, fun e => ?_⟩
      · have head : reclaimed ((shard, folder) :: rest) =
            (shard, reclaim folder) :: reclaimed rest := by simp [reclaimed, scanned]
        simp only [scanDisk, scanned, leaf, more, bind, Except.bind, head]
        rfl
      · rw [mem_append, hereMembers, laterMembers, exists_mem_cons_iff]
        simp [scanned]
    · obtain ⟨later, more, laterMembers⟩ := ih disk rest_ok
      refine ⟨later, ?_, fun e => ?_⟩
      · have tail : reclaimed ((shard, folder) :: rest) = reclaimed rest := by
          simp [reclaimed, scanned]
        simp only [scanDisk, scanned, if_false, more, tail, Bool.false_eq_true]
      · rw [laterMembers, exists_mem_cons_iff]
        simp [scanned]

theorem scanDisk_kept (kept : Kept entries disk) (wall : WallClock) :
    ∃ out, scanDisk wall disk.items disk = .ok (swept disk, out) ∧
      ∀ e, e ∈ out ↔ ∃ c, (∃ e₀, entries.get? c = some e₀) ∧ Recovers disk wall c e := by
  obtain ⟨out, scanned, members⟩ := scanDisk_ok wall disk
    (P := fun shard e => ∃ c, (∃ e₀, entries.get? c = some e₀) ∧ shardOf c = shard ∧
      Recovers disk wall c e)
    fun p mem _ => scanLeaf_kept kept ((disk.get?_eq_some_iff p.1 p.2).2 mem) wall
  refine ⟨out, scanned, fun e => ?_⟩
  rw [members]
  constructor
  · rintro ⟨p, -, -, c, indexed, -, recovers⟩
    exact ⟨c, indexed, recovers⟩
  · rintro ⟨c, indexed, recovers⟩
    obtain ⟨blob, value, payload, sidecar, rest⟩ := recovers
    obtain ⟨folder, listed, -⟩ := bind_eq_some_iff.1 sidecar
    exact ⟨(shardOf c, folder), (disk.get?_eq_some_iff _ _).1 listed, scanned_shardOf c, c, indexed,
      rfl, blob, value, payload, sidecar, rest⟩

end Infera.Kvd
