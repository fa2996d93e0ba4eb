import Infera.Kvd.SsdScan

/-! A long SSD region over whole runs: writes, reads, removals and restarts from
an empty directory. `Recorded` keeps beside the region the last block accepted
for each composite. In every run whose writes name their blocks plainly and do
not fail over a block already there, `Mirrored` holds: each indexed composite
has files of its own with the accepted block in them, so a clean stop and start
recovers the stored map. -/

namespace Infera.Kvd
open Json Dict LongStorageRegion Option SsdRegion SsdDisk
variable {c c' : Composite} {disk : SsdDisk} {e : SsdEntry} {value : Bytes}

structure SsdBlock where
  bytes : Bytes
  retention : String
  metadata : Metadata

/-- A block up to the order of its metadata. -/
def SsdBlock.content (b : SsdBlock) : Bytes × String × Json :=
  (b.bytes, b.retention, b.metadata.toJson.sortKeys)

def SsdRegion.block (r : SsdRegion) (c : Composite) : Option SsdBlock :=
  (r.entries.get? c).bind fun e => (r.dataFile c).map fun value => ⟨value, e.retention, e.metadata⟩

/-- A region and the last block it accepted for each composite. -/
structure Recorded where
  region : SsdRegion
  accepted : Composite → Option SsdBlock

inductive SsdCall where
  | put (clk : Clock) (wall : WallClock) (c : Composite) (value : Bytes) (retention : Retention)
      (metadata : Metadata) (fault : Option DiskFault)
  | getBytes (clk : Clock) (c : Composite)
  | remove (c : Composite)
  | clear
  /-- A clean stop and a start over the directory, listed as `found`. -/
  | restart (wall : WallClock) (found : SsdDisk)

def putAccepted : Except PyErr (Bool × Option String) → Bool
  | .ok answer => answer.1
  | .error _ => false

namespace Recorded

section
variable (s : Recorded)

def Fresh : Prop :=
  ∃ maxBytes, s = ⟨new maxBytes .empty, fun _ => none⟩

def step : SsdCall → Recorded
  | .put clk wall c value retention metadata fault =>
    let out := LongStorageRegion.put s.region clk wall c value retention metadata fault
    ⟨out.1, if putAccepted out.2 then
        Function.update s.accepted c (some ⟨value, retention.toString, metadata⟩)
      else s.accepted⟩
  | .getBytes clk c => { s with region := (s.region.getBytes clk c).1 }
  | .remove c => { s with region := (s.region.remove c).1 }
  | .clear => { s with region := s.region.clear.1 }
  | .restart wall found =>
    match LongStorageRegion.start (new s.region.maxBytes found) wall with
    | .ok r => { s with region := r }
    | .error _ => s

/-- The stored map: the last accepted block of each composite still indexed. -/
def stored (c : Composite) : Option SsdBlock :=
  if s.region.entries.contains c then s.accepted c else none

/-- Writes under plain names, with metadata `json.dumps` can write, that do not fail over a
block already there; a restart finds the directory as it was left. -/
def Orderly : SsdCall → Prop
  | .put clk wall c value _ metadata fault => Plain c ∧ metadata.encodable = true ∧
    ∀ e, s.region.entries.get? c = some e → fault = none ∧
      (sidecarBytes (sidecarPayload wall (SsdRegion.updated e clk value metadata) value)).length ≤
        sidecarRoom
  | .restart _ found => SameFiles found s.region.disk
  | _ => True

end

/-- Files of their own, names that read back, and a start that recovers the stored map. -/
structure Recoverable (s : Recorded) : Prop where
  ownFiles : ∀ c c', s.region.entries.contains c = true → s.region.entries.contains c' = true →
    c ≠ c' → (shardOf c, dataName c) ≠ (shardOf c', dataName c')
  readBack : ∀ c, s.region.entries.contains c = true → decodeComposite (encodeComposite c) = some c
  recovered : ∀ wall found, SameFiles found s.region.disk →
    ∃ r, LongStorageRegion.start (new s.region.maxBytes found) wall = .ok r ∧
      ∀ c, (r.block c).map SsdBlock.content = (s.stored c).map SsdBlock.content

end Recorded

/-- The files and the entry of a composite hold the block last accepted for it. -/
structure Stored (disk : SsdDisk) (accepted : Composite → Option SsdBlock) (c : Composite)
    (e : SsdEntry) (b : SsdBlock) : Prop where
  named : e.composite = c
  long : e.retention = Retention.long.toString
  accepted : accepted c = some b
  settled : Settled disk e b.bytes
  retention : b.retention = e.retention
  metadata : SameMembers b.metadata.toJson e.metadata.toJson

structure Mirrored (entries : Dict Composite SsdEntry) (disk : SsdDisk)
    (accepted : Composite → Option SsdBlock) : Prop where
  holds : ∀ c e, entries.get? c = some e → ∃ b, Stored disk accepted c e b
  files : ∀ shard name bytes, disk.read shard name = some bytes → ∃ c, Plain c ∧
    shard = shardOf c ∧ (name = dataName c ∨ name = metadataName c ∧ ∃ e, entries.get? c = some e)

def FileOf (c : Composite) (shard : Shard) (name : List Char) : Prop :=
  shard = shardOf c ∧ (name = dataName c ∨ name = metadataName c)

instance (c : Composite) (shard : Shard) (name : List Char) : Decidable (FileOf c shard name) :=
  inferInstanceAs (Decidable (_ ∧ _))

/-- Nothing but the files of one composite differs. -/
def OnlyAt (c : Composite) (disk disk' : SsdDisk) : Prop :=
  ∀ shard name, ¬FileOf c shard name → disk'.read shard name = disk.read shard name

section
variable (barless : Barless c) (barless' : Barless c') (differ : c' ≠ c)
include barless barless' differ

theorem not_fileOf_dataName : ¬FileOf c (shardOf c') (dataName c') := by
  rintro ⟨-, same | same⟩
  · exact differ (dataName_inj barless' barless same)
  · exact dataName_ne_metadataName _ _ same

theorem not_fileOf_metadataName : ¬FileOf c (shardOf c') (metadataName c') := by
  rintro ⟨-, same | same⟩
  · exact dataName_ne_metadataName _ _ same.symm
  · exact differ (metadataName_inj barless' barless same)

end

theorem OnlyAt.refl (c : Composite) (disk : SsdDisk) : OnlyAt c disk disk := fun _ _ _ => rfl

theorem OnlyAt.trans {disk' disk'' : SsdDisk} (first : OnlyAt c disk disk')
    (second : OnlyAt c disk' disk'') : OnlyAt c disk disk'' := fun shard name other =>
  (second shard name other).trans (first shard name other)

theorem onlyAt_write (disk : SsdDisk) {name : List Char} (bytes : Bytes)
    (named : name = dataName c ∨ name = metadataName c) :
    OnlyAt c disk (disk.write (shardOf c) name bytes) := by
  intro shard name' other
  rw [read_write, if_neg]
  rintro ⟨rfl, rfl⟩
  exact other ⟨rfl, named⟩

theorem read_deleteBlockFiles (disk : SsdDisk) (e : SsdEntry) (shard : Shard) (name : List Char) :
    (deleteBlockFiles disk e).read shard name =
      if FileOf e.composite shard name then none else disk.read shard name := by
  rw [deleteBlockFiles, read_unlink, read_unlink]
  by_cases home : shard = shardOf e.composite
  · by_cases data : name = dataName e.composite
    · simp only [FileOf, home, data, true_and, true_or, if_true, ite_self]
    · simp only [FileOf, home, data, true_and, false_or, if_false]
  · simp only [FileOf, home, false_and, if_false]

theorem Stored.frame {disk' : SsdDisk} {accepted accepted' : Composite → Option SsdBlock}
    {b : SsdBlock} (holds : Stored disk accepted c' e b) (plain : Plain c) (differ : c' ≠ c)
    (confined : OnlyAt c disk disk') (same : accepted' c' = accepted c') : Stored disk' accepted' c' e b := by
  have named := holds.named
  have plain' : Barless c' := named ▸ holds.settled.plain.toBarless
  refine { holds with accepted := same.trans holds.accepted, settled := ?_ }
  refine holds.settled.congr ⟨rfl, rfl, rfl, rfl⟩ ?_ ?_
  · rw [named]
    exact confined _ _ (not_fileOf_dataName plain.toBarless plain' differ)
  · rw [named]
    exact confined _ _ (not_fileOf_metadataName plain.toBarless plain' differ)

section Update

variable {entries entries' : Dict Composite SsdEntry} {disk disk' : SsdDisk}
  {accepted accepted' : Composite → Option SsdBlock}

section
variable (mirrored : Mirrored entries disk accepted)
include mirrored

theorem Mirrored.kept : Kept entries disk where
  settled c e found := by
    obtain ⟨b, holds⟩ := mirrored.holds c e found
    exact ⟨holds.named, b.bytes, holds.settled⟩
  files := mirrored.files

theorem Mirrored.sameFiles (same : SameFiles disk' disk) : Mirrored entries disk' accepted where
  holds c e found := by
    obtain ⟨b, holds⟩ := mirrored.holds c e found
    exact ⟨b, { holds with
      settled := holds.settled.congr ⟨rfl, rfl, rfl, rfl⟩ (same _ _) (same _ _) }⟩
  files shard name bytes found := mirrored.files shard name bytes (same shard name ▸ found)

theorem Mirrored.update (plain : Plain c) (confined : OnlyAt c disk disk')
    (others : ∀ c', c' ≠ c → entries'.get? c' = entries.get? c' ∧ accepted' c' = accepted c')
    (here : ∀ e, entries'.get? c = some e → ∃ b, Stored disk' accepted' c e b)
    (sidecar : ∀ blob, disk'.read (shardOf c) (metadataName c) = some blob →
      ∃ e, entries'.get? c = some e) : Mirrored entries' disk' accepted' where
  holds c' e found := by
    by_cases same : c' = c
    · subst same
      exact here e found
    · obtain ⟨entry, block⟩ := others c' same
      obtain ⟨b, holds⟩ := mirrored.holds c' e (entry ▸ found)
      exact ⟨b, holds.frame plain same confined block⟩
  files shard name bytes found := by
    by_cases own : FileOf c shard name
    · obtain ⟨rfl, rfl | rfl⟩ := own
      · exact ⟨c, plain, rfl, .inl rfl⟩
      · exact ⟨c, plain, rfl, .inr ⟨rfl, sidecar bytes found⟩⟩
    · rw [confined shard name own] at found
      obtain ⟨c', plain', home, data | ⟨meta', e, indexed⟩⟩ := mirrored.files shard name bytes found
      · exact ⟨c', plain', home, .inl data⟩
      · have differ : c' ≠ c := by
          rintro rfl
          exact own ⟨home, .inr meta'⟩
        exact ⟨c', plain', home, .inr ⟨meta', e, (others c' differ).1 ▸ indexed⟩⟩

theorem Mirrored.orphan
    (plain : Plain c) (absent : entries.get? c = none) (confined : OnlyAt c disk disk')
    (sidecar : disk'.read (shardOf c) (metadataName c) = disk.read (shardOf c) (metadataName c))
    (same : ∀ c', entries'.get? c' = entries.get? c') : Mirrored entries' disk' accepted := by
  refine mirrored.update plain confined (fun c' _ => ⟨same c', rfl⟩) (fun e found => ?_)
    (fun blob found => ?_)
  · rw [same, absent] at found
    exact absurd found (by simp)
  · rw [sidecar] at found
    obtain ⟨c', plain', -, data | ⟨meta', e, indexed⟩⟩ := mirrored.files _ _ _ found
    · exact absurd data.symm (dataName_ne_metadataName c' c)
    · exact ⟨e, by rw [same, metadataName_inj plain.toBarless plain'.toBarless meta', indexed]⟩

theorem Mirrored.store (plain : Plain e.composite) (size : e.sizeBytes = value.length)
    (long : e.retention = Retention.long.toString) (wall : WallClock)
    (fits : Fits (sidecarPayload wall e value)) : Mirrored (entries.set e.composite e)
      ((disk.write (shardOf e.composite) (dataName e.composite) value).write (shardOf e.composite)
        (metadataName e.composite) (sidecarBlob (sidecarPayload wall e value)))
      (Function.update accepted e.composite
        (some ⟨value, Retention.long.toString, e.metadata⟩)) := by
  have confined := (onlyAt_write disk value (.inl (rfl : dataName e.composite = _))).trans
    (onlyAt_write _ (sidecarBlob (sidecarPayload wall e value)) (.inr rfl))
  refine mirrored.update plain confined (fun c' differ => ⟨get?_set_of_ne differ,
    Function.update_of_ne differ _ _⟩) (fun e' found => ?_) (fun _ _ => ⟨e, get?_set_self ..⟩)
  rw [get?_set_self, some.injEq] at found
  subst found
  refine ⟨_, ⟨rfl, long, Function.update_self .., ⟨plain, size, ?_, ?_⟩, long.symm, rfl⟩⟩
  · rw [read_write, if_neg fun both => dataName_ne_metadataName _ _ both.2,
      read_write, if_pos ⟨rfl, rfl⟩]
  · refine ⟨wall, e, ⟨rfl, rfl, rfl, rfl⟩, fits, ?_⟩
    rw [read_write, if_pos ⟨rfl, rfl⟩]

end

end Update

namespace SsdRegion

def Mirrors (r : SsdRegion) (accepted : Composite → Option SsdBlock) : Prop :=
  Mirrored r.entries r.disk accepted

variable {r : SsdRegion} {accepted : Composite → Option SsdBlock}

theorem Mirrors.evict (mirrors : r.Mirrors accepted) (c : Composite) :
    (r.evict c).Mirrors accepted := by
  unfold SsdRegion.evict
  cases found : r.entries.get? c with
  | none => exact mirrors
  | some e =>
    obtain ⟨b, holds⟩ := mirrors.holds c e found
    obtain rfl := holds.named
    refine Mirrored.update mirrors holds.settled.plain (fun shard name other => ?_)
      (fun c' differ => ⟨get?_erase_of_ne differ, rfl⟩) (fun e' gone => ?_)
      (fun blob gone => ?_)
    · rw [read_deleteBlockFiles, if_neg other]
    · exact absurd gone (by simp [forget])
    · rw [read_deleteBlockFiles, if_pos ⟨rfl, .inr rfl⟩] at gone
      exact absurd gone (by simp)

theorem get?_evict (r : SsdRegion) (c c' : Composite) :
    (r.evict c).entries.get? c' = if c' = c then none else r.entries.get? c' := by
  unfold SsdRegion.evict
  cases found : r.entries.get? c with
  | none =>
    split_ifs with same
    · rw [same, found]
    · rfl
  | some e => exact get?_erase _ _ _

theorem makeRoom_invariant {P : SsdRegion → Prop} (evict : ∀ r c, P r → P (r.evict c))
    (fuel size : ℕ) : ∀ {r : SsdRegion}, P r → P (r.makeRoom fuel size).1 := by
  induction fuel with
  | zero => exact fun holds => holds
  | succ fuel ih =>
    intro r holds
    rw [makeRoom]
    split_ifs
    · exact holds
    · cases r.pickLruVictim with
      | none => exact holds
      | some victim => exact ih (evict r victim holds)

theorem read_deleteAll (es : List SsdEntry) (disk : SsdDisk) (shard : Shard) (name : List Char) :
    (es.foldl deleteBlockFiles disk).read shard name =
      if ∃ e ∈ es, FileOf e.composite shard name then none else disk.read shard name := by
  induction es generalizing disk with
  | nil => simp
  | cons e es ih =>
    rw [List.foldl_cons, ih, read_deleteBlockFiles]
    by_cases own : FileOf e.composite shard name
    · simp only [own, if_true, ite_self, List.exists_mem_cons_iff, true_or]
    · simp only [own, if_false, List.exists_mem_cons_iff, false_or]

def storedDisk (disk : SsdDisk) (e : SsdEntry) (value : Bytes) : SsdDisk :=
  disk.write (shardOf e.composite) (dataName e.composite) value

/-- A write puts both files in place, or takes the entry back out, or it raises over metadata. -/
theorem commit_cases (r : SsdRegion) (wall : WallClock) (c : Composite) (e : SsdEntry)
    (value : Bytes) (fault : Option DiskFault) :
    (Fits (sidecarPayload wall e value) ∧ r.commit wall c e value fault =
      ({ r with disk := (storedDisk r.disk e value).write (shardOf e.composite)
                  (metadataName e.composite) (sidecarBlob (sidecarPayload wall e value)) },
        .ok (true, none))) ∨
    (¬(fault = none ∧ (sidecarBytes (sidecarPayload wall e value)).length ≤ sidecarRoom) ∧
      ∃ disk' reason, (disk' = r.disk ∨ disk' = storedDisk r.disk e value) ∧
        r.commit wall c e value fault =
          ({ r.forget c e with disk := disk' }, .ok (false, reason))) ∨
    e.metadata.encodable = false ∧ r.commit wall c e value fault =
      ({ r with disk := storedDisk r.disk e value }, .error .typeError) := by
  match fault with
  | some (.data message) =>
    exact .inr (.inl ⟨fun both => absurd both.1 (by simp), r.disk, _, .inl rfl, rfl⟩)
  | some (.sidecar _) | none =>
    simp only [commit, writeBlockFile, writeSidecar]
    by_cases text : (sidecarPayload wall e value).encodable = true
    · rcases Nat.lt_or_ge sidecarRoom (sidecarBytes (sidecarPayload wall e value)).length with
        large | small
      · have refused : encodeSidecar (sidecarPayload wall e value) =
            .error (.tooLarge (sidecarBytes (sidecarPayload wall e value)).length) := by
          rw [encodeSidecar, if_neg (by simp [text])]
          exact if_pos large
        rw [refused]
        exact .inr (.inl ⟨fun both => absurd both.2 (Nat.not_le.2 large), _, _, .inr rfl, rfl⟩)
      · rw [encodeSidecar_of_fits ⟨text, small⟩]
        first
        | exact .inl ⟨⟨text, small⟩, rfl⟩
        | exact .inr (.inl ⟨fun both => absurd both.1 (by simp), _, _, .inr rfl, rfl⟩)
    · rw [Bool.not_eq_true] at text
      rw [encodeSidecar, if_pos text]
      exact .inr (.inr ⟨(encodable_sidecarPayload wall e value).symm.trans text, rfl⟩)

def acceptedAfter (accepted : Composite → Option SsdBlock) (c : Composite) (b : SsdBlock)
    (answer : Except PyErr (Bool × Option String)) : Composite → Option SsdBlock :=
  if putAccepted answer then Function.update accepted c (some b) else accepted

section
variable (mirrors : r.Mirrors accepted) (clk : Clock) (wall : WallClock)
include mirrors

theorem Mirrors.getBytes (c : Composite) : (r.getBytes clk c).1.Mirrors accepted := by
  unfold SsdRegion.getBytes
  cases found : r.entries.get? c with
  | none => exact mirrors
  | some e =>
    obtain ⟨b, holds⟩ := mirrors.holds c e found
    obtain rfl := holds.named
    have data : r.dataFile e.composite = some b.bytes := holds.settled.data
    simp only [data]
    refine Mirrored.update mirrors holds.settled.plain (.refl _ _)
      (fun c' differ => ⟨get?_set_of_ne differ, rfl⟩) (fun e' set => ?_)
      (fun _ _ => ⟨_, get?_set_self ..⟩)
    rw [get?_set_self, some.injEq] at set
    subst set
    exact ⟨b, rfl, holds.long, holds.accepted, holds.settled.congr ⟨rfl, rfl, rfl, rfl⟩ rfl rfl,
      holds.retention, holds.metadata⟩

theorem Mirrors.remove (c : Composite) : (r.remove c).1.Mirrors accepted := by
  unfold SsdRegion.remove
  cases r.entries.get? c with
  | none => exact mirrors
  | some e => exact mirrors.evict c

theorem Mirrors.clear : r.clear.1.Mirrors accepted where
  holds c e found := absurd found (by simp [SsdRegion.clear])
  files shard name bytes found := by
    change (r.entries.values.foldl deleteBlockFiles r.disk).read shard name = some bytes at found
    rw [read_deleteAll] at found
    split_ifs at found with deleted
    obtain ⟨c, plain, home, data | ⟨meta', e, indexed⟩⟩ := mirrors.files shard name bytes found
    · exact ⟨c, plain, home, .inl data⟩
    · obtain ⟨b, holds⟩ := mirrors.holds c e indexed
      exact absurd ⟨e, mem_values_iff.2 ⟨c, indexed⟩, holds.named.symm ▸ home,
        .inr (holds.named.symm ▸ meta')⟩ deleted

theorem Mirrors.commit (fault : Option DiskFault) (used : Int) (plain : Plain e.composite)
    (size : e.sizeBytes = value.length) (long : e.retention = Retention.long.toString)
    (encodable : e.metadata.encodable = true)
    (steady : r.entries.get? e.composite = none ∨
      fault = none ∧ (sidecarBytes (sidecarPayload wall e value)).length ≤ sidecarRoom) :
    let out := commit
      { r with entries := r.entries.set e.composite e, usedBytes := used } wall e.composite e value
      fault
    out.1.Mirrors (acceptedAfter accepted e.composite
      ⟨value, Retention.long.toString, e.metadata⟩ out.2) := by
  intro out
  rcases commit_cases { r with entries := r.entries.set e.composite e, usedBytes := used } wall
    e.composite e value fault with
    ⟨fits, written⟩ | ⟨failing, disk', reason, left, written⟩ | ⟨raising, -⟩
  · simp only [out, written]
    exact Mirrored.store mirrors plain size long wall fits
  · have absent := steady.resolve_right failing
    have same : ∀ c', ((r.entries.set e.composite e).erase e.composite).get? c' =
        r.entries.get? c' := by
      rw [erase_set, erase_of_absent _ absent]
      exact fun _ => rfl
    simp only [out, written, acceptedAfter, putAccepted]
    rcases left with rfl | rfl
    · exact Mirrored.orphan mirrors plain absent (.refl _ _) rfl same
    · refine Mirrored.orphan mirrors plain absent (onlyAt_write _ _ (.inl rfl)) ?_ same
      rw [storedDisk, read_write, if_neg fun both => dataName_ne_metadataName _ _ both.2.symm]
  · exact absurd (encodable.symm.trans raising) (by simp)

theorem Mirrors.put (retention : Retention) {metadata : Metadata} {fault : Option DiskFault}
    (plain : Plain c) (encodable : metadata.encodable = true)
    (steady : ∀ e, r.entries.get? c = some e → fault = none ∧
      (sidecarBytes (sidecarPayload wall (updated e clk value metadata) value)).length ≤
        sidecarRoom) :
    let out := LongStorageRegion.put r clk wall c value retention metadata fault
    out.1.Mirrors (acceptedAfter accepted c ⟨value, retention.toString, metadata⟩ out.2) := by
  intro out
  simp only [out, LongStorageRegion.put, SsdRegion.put]
  cases found : r.entries.get? c with
  | some e =>
    dsimp only
    split_ifs with kind large
    · exact mirrors
    · exact mirrors
    · obtain rfl : retention = .long := not_not.mp kind
      obtain ⟨b, holds⟩ := mirrors.holds c e found
      obtain rfl := holds.named
      exact mirrors.commit wall fault (e := updated e clk value metadata) _ holds.settled.plain rfl
        holds.long encodable (.inr (steady e found))
  | none =>
    have room := makeRoom_invariant (P := (·.Mirrors accepted))
      (fun _ victim mirrors => mirrors.evict victim) r.entries.items.length value.length mirrors
    have absent := makeRoom_invariant (P := (·.entries.get? c = none))
      (fun r victim absent => by rw [get?_evict, absent, ite_self]) r.entries.items.length
      value.length found
    split_ifs with kind large full
    · exact mirrors
    · exact mirrors
    · exact room
    · obtain rfl : retention = .long := not_not.mp kind
      exact room.commit wall fault (e := fresh clk c value .long metadata) _ plain rfl rfl encodable
        (.inl absent)

theorem Mirrors.block (c : Composite) : (r.block c).map SsdBlock.content =
      (if r.entries.contains c then accepted c else none).map SsdBlock.content := by
  cases found : r.entries.get? c with
  | none =>
    rw [SsdRegion.block, contains, found]
    rfl
  | some e =>
    obtain ⟨b, holds⟩ := mirrors.holds c e found
    have data : r.dataFile c = some b.bytes := holds.named ▸ holds.settled.data
    have metadata : e.metadata.toJson.sortKeys = b.metadata.toJson.sortKeys := holds.metadata.symm
    rw [SsdRegion.block, contains, found, bind_some, data, isSome_some, if_pos rfl, holds.accepted]
    simp [SsdBlock.content, metadata, holds.retention]

end

end SsdRegion

theorem LongStorageRegion.start_mirrored {entries : Dict Composite SsdEntry}
    {accepted : Composite → Option SsdBlock} (mirrored : Mirrored entries disk accepted)
    (maxBytes : ℕ) (wall : WallClock) :
    ∃ r, start (new maxBytes disk) wall = .ok r ∧ r.Mirrors accepted ∧
      ∀ c, r.entries.contains c = entries.contains c := by
  have kept := mirrored.kept
  obtain ⟨out, scanned, members⟩ := scanDisk_kept kept wall
  -- an entry found stands under the composite it was recovered for
  have named : ∀ e ∈ out, ∃ e₀ b, entries.get? e.composite = some e₀ ∧
      Stored disk accepted e.composite e₀ b ∧ Recovers disk wall e.composite e ∧
      SameRecord e e₀ := by
    intro e mem
    obtain ⟨c, ⟨e₀, indexed⟩, recovers⟩ := (members e).1 mem
    obtain ⟨b, holds⟩ := mirrored.holds c e₀ indexed
    obtain rfl := holds.named
    obtain ⟨e', recovers', same⟩ := holds.settled.recovers wall
    obtain rfl := recovers.unique recovers'
    rw [same.composite]
    exact ⟨e₀, b, indexed, holds, recovers, same⟩
  have index : ∀ c e, ((empty : Dict Composite SsdEntry).assign
      (out.map fun e => (e.composite, e))).get? c = some e → e ∈ out ∧ e.composite = c := by
    intro c e found
    rcases get?_assign_eq_some found with mem | before
    · obtain ⟨e', inOut, same⟩ := List.mem_map.1 mem
      rw [Prod.mk.injEq] at same
      obtain ⟨composite, rfl⟩ := same
      exact ⟨inOut, composite⟩
    · exact absurd before (by simp)
  have indexed : ∀ c e₀, entries.get? c = some e₀ → ∃ e, ((empty : Dict Composite SsdEntry).assign
      (out.map fun e => (e.composite, e))).get? c = some e := by
    intro c e₀ found
    obtain ⟨b, holds⟩ := mirrored.holds c e₀ found
    obtain rfl := holds.named
    obtain ⟨e, recovers, same⟩ := holds.settled.recovers wall
    have inOut : e ∈ out := (members e).2 ⟨_, ⟨e₀, found⟩, recovers⟩
    refine ⟨e, get?_assign_of_mem (List.mem_map.2 ⟨e, inOut, by rw [same.composite]⟩) ?_⟩
    intro e' mem
    obtain ⟨e₁, inOut', pair⟩ := List.mem_map.1 mem
    rw [Prod.mk.injEq] at pair
    obtain ⟨composite, rfl⟩ := pair
    obtain ⟨-, -, -, -, recovers', -⟩ := named e₁ inOut'
    exact (composite ▸ recovers').unique recovers
  refine ⟨_, by simp [start, new, scanned]; rfl,
    ⟨fun c e found => ?_, fun shard name bytes found => ?_⟩, fun c => ?_⟩
  · obtain ⟨inOut, rfl⟩ := index c e found
    obtain ⟨e₀, b, before, holds, -, same⟩ := named e inOut
    obtain ⟨data, sidecar⟩ := read_swept_indexed kept before
    refine ⟨b, rfl, same.retention.trans holds.long, holds.accepted,
      holds.settled.congr same ?_ ?_, holds.retention.trans same.retention.symm,
      Eq.trans holds.metadata (Eq.symm same.metadata)⟩
    · rw [← same.composite]
      exact data
    · rw [← same.composite]
      exact sidecar
  · obtain ⟨c, plain, home, data | ⟨meta', e₀, before⟩⟩ :=
      mirrored.files shard name bytes (read_of_read_swept found)
    · exact ⟨c, plain, home, .inl data⟩
    · exact ⟨c, plain, home, .inr ⟨meta', indexed c e₀ before⟩⟩
  · rw [Bool.eq_iff_iff, contains_eq_true_iff, contains_eq_true_iff]
    constructor
    · rintro ⟨e, found⟩
      obtain ⟨inOut, rfl⟩ := index c e found
      obtain ⟨e₀, -, before, -⟩ := named e inOut
      exact ⟨e₀, before⟩
    · rintro ⟨e₀, before⟩
      exact indexed c e₀ before

namespace Recorded

variable {s : Recorded}

theorem fresh_mirrors (fresh : s.Fresh) : s.region.Mirrors s.accepted := by
  obtain ⟨maxBytes, rfl⟩ := fresh
  exact ⟨fun c e found => absurd found (by simp [new]),
    fun shard name bytes found => absurd found (by simp [new, SsdDisk.read])⟩

theorem step_mirrors {call : SsdCall} (mirrors : s.region.Mirrors s.accepted)
    (orderly : s.Orderly call) : (s.step call).region.Mirrors (s.step call).accepted := by
  cases call with
  | put clk wall _ _ retention =>
    obtain ⟨plain, encodable, steady⟩ := orderly
    exact mirrors.put clk wall retention plain encodable steady
  | getBytes clk c => exact mirrors.getBytes clk c
  | remove c => exact mirrors.remove c
  | clear => exact mirrors.clear
  | restart wall found =>
    obtain ⟨r, started, again, -⟩ :=
      start_mirrored (mirrors.sameFiles orderly) s.region.maxBytes wall
    simp only [step, started]
    exact again

theorem recoverable_of_mirrors (mirrors : s.region.Mirrors s.accepted) : s.Recoverable := by
  have barless : ∀ c, s.region.entries.contains c = true → Barless c := by
    intro c indexed
    obtain ⟨e, found⟩ := (contains_eq_true_iff _ _).1 indexed
    obtain ⟨b, holds⟩ := mirrors.holds c e found
    exact holds.named ▸ holds.settled.plain.toBarless
  refine ⟨fun c c' indexed indexed' differ same => ?_, fun c indexed => ?_,
    fun wall found same => ?_⟩
  · exact differ (dataName_inj (barless c indexed) (barless c' indexed') (Prod.mk.inj same).2)
  · exact decodeComposite_encodeComposite (barless c indexed).model (barless c indexed).compatKey
  · obtain ⟨r, started, again, index⟩ :=
      start_mirrored (mirrors.sameFiles same) s.region.maxBytes wall
    refine ⟨r, started, fun c => ?_⟩
    rw [again.block, index, stored]

/-- In every run whose calls are orderly, a clean stop and start recovers the stored map. -/
theorem recoverable_of_orderly {s : Recorded} (reached : Reaches Fresh step Orderly s) :
    s.Recoverable :=
  recoverable_of_mirrors (reached.invariant (fun _ => fresh_mirrors) fun _ _ => step_mirrors)

def zeroStamp : JsonFloat := .zero

def stillWall : WallClock := ⟨fun _ => zeroStamp, fun _ => 0, 0⟩

def start : Recorded := ⟨new 64 .empty, fun _ => none⟩

def writing (c : Composite) (byte : UInt8) (metadata : Metadata) : SsdCall :=
  .put (fun i => i) stillWall c [byte] .long metadata none

def tagged : Metadata := ⟨[("tag", .str "kv"), ("n", .int 3)], by decide⟩

theorem rewritten_recoverable : ((start.step (writing ⟨"m", "v1", [1, 2]⟩ 7 .empty)).step
      (writing ⟨"m", "v1", [1, 2]⟩ 8 tagged)).Recoverable := by
  have plain : Plain ⟨"m", "v1", [1, 2]⟩ :=
    ⟨⟨by decide, by decide⟩, by decide, by decide⟩
  have first : Reaches Fresh step Orderly (start.step (writing ⟨"m", "v1", [1, 2]⟩ 7 .empty)) :=
    .next _ (.start ⟨64, rfl⟩) ⟨plain, by decide, fun e found =>
      absurd (show none = some e from found) (by simp)⟩
  refine recoverable_of_orderly (.next _ first ⟨plain, by decide, fun e found => ⟨rfl, ?_⟩⟩)
  have fits : ∀ e ∈ (start.step (writing ⟨"m", "v1", [1, 2]⟩ 7 .empty)).region.entries.get?
      ⟨"m", "v1", [1, 2]⟩, (sidecarBytes (sidecarPayload stillWall
        (updated e (fun i => i) [8] tagged) [8])).length ≤ sidecarRoom := by
    decide +kernel
  exact fits e found

/-- Two composites with a bar in their names share their files. -/
theorem bar_in_names_not_recoverable : Reaches Fresh step (fun _ _ => True)
      ((start.step (writing ⟨"a|b", "c", [1]⟩ 7 .empty)).step
        (writing ⟨"a", "b|c", [1]⟩ 8 .empty)) ∧
    ¬((start.step (writing ⟨"a|b", "c", [1]⟩ 7 .empty)).step
      (writing ⟨"a", "b|c", [1]⟩ 8 .empty)).Recoverable := by
  refine ⟨.next _ (.next _ (.start ⟨64, rfl⟩) trivial) trivial, fun recoverable => ?_⟩
  have same : encodeComposite ⟨"a|b", "c", [1]⟩ = encodeComposite ⟨"a", "b|c", [1]⟩ := by decide
  refine recoverable.ownFiles ⟨"a|b", "c", [1]⟩ ⟨"a", "b|c", [1]⟩ (by decide +kernel)
    (by decide +kernel) (by decide) ?_
  simp [shardOf, compositeHash, dataName, filenameForComposite, same]

end Recorded
end Infera.Kvd
