import Infera.Kvd.SsdRecovery

/-! What an SSD region's index says about its disk. Metadata that `json.dumps`
refuses raises after the data file is in place and leaves an entry without a sidecar
(`raised_put_without_sidecar`); an update in place makes no room for a larger value;
and names with a bar share files. In runs without these, and whatever writes fail,
every entry has its two files and the bytes are counted (`accounted_of_careful`). -/

namespace Infera.Kvd
open Dict LongStorageRegion
variable {c c' : Composite} {disk disk' : SsdDisk} {e : SsdEntry}
  (entries : Dict Composite SsdEntry)

/-- A data file of the entry's size and a sidecar that decodes. -/
structure Filed (disk : SsdDisk) (c : Composite) (e : SsdEntry) : Prop where
  named : e.composite = c
  data : ∃ value, disk.read (shardOf c) (dataName c) = some value ∧ value.length = e.sizeBytes
  sidecar : ∃ blob payload, disk.read (shardOf c) (metadataName c) = some blob ∧
    decodeSidecar blob = some payload

theorem Filed.frame (filed : Filed disk c' e) (barless : Barless c) (barless' : Barless c')
    (differ : c' ≠ c) (confined : OnlyAt c disk disk') : Filed disk' c' e where
  named := filed.named
  data := by
    rw [confined _ _ (not_fileOf_dataName barless barless' differ)]
    exact filed.data
  sidecar := by
    rw [confined _ _ (not_fileOf_metadataName barless barless' differ)]
    exact filed.sidecar

def sizes (entries : Dict Composite SsdEntry) : Int :=
  (entries.values.map fun e => (e.sizeBytes : Int)).sum

theorem sizes_nonneg : 0 ≤ sizes entries := by
  refine List.sum_nonneg fun size mem => ?_
  obtain ⟨e, -, rfl⟩ := List.mem_map.mp mem
  omega

theorem sizes_of_get? {entries : Dict Composite SsdEntry} (found : entries.get? c = some e) :
    sizes entries = e.sizeBytes + sizes (entries.erase c) := by
  rw [sizes, ((entries.values_perm_erase found).map _).sum_eq]
  rfl

theorem sizes_set (c : Composite) (e : SsdEntry) :
    sizes (entries.set c e) = e.sizeBytes + sizes (entries.erase c) := by
  rw [sizes_of_get? (get?_set_self ..), erase_set]

namespace SsdRegion
variable {r : SsdRegion}

structure Accounted (r : SsdRegion) : Prop where
  filed : ∀ c e, r.entries.get? c = some e → Filed r.disk c e
  used : r.usedBytes = sizes r.entries
  bounded : r.usedBytes ≤ r.maxBytes

/-- The index of an accounted region, under names without a bar. -/
structure Books (r : SsdRegion) : Prop extends Accounted r where
  barless : ∀ c e, r.entries.get? c = some e → Barless c

theorem books_forget (used : r.usedBytes = sizes r.entries) (bounded : r.usedBytes ≤ r.maxBytes)
    (found : r.entries.get? c = some e)
    (others : ∀ c' e', c' ≠ c → r.entries.get? c' = some e' → Filed disk' c' e' ∧ Barless c') :
    Books { r.forget c e with disk := disk' } := by
  have whole := sizes_of_get? found
  have rest := sizes_nonneg (r.entries.erase c)
  have left : (r.forget c e).usedBytes = sizes (r.entries.erase c) := by
    simp only [forget]
    omega
  refine ⟨⟨fun c' e' kept => ?_, left, ?_⟩, fun c' e' kept => ?_⟩
  · obtain ⟨same, kept⟩ := get?_of_erase kept
    exact (others c' e' same kept).1
  · change (r.forget c e).usedBytes ≤ r.maxBytes
    omega
  · obtain ⟨same, kept⟩ := get?_of_erase kept
    exact (others c' e' same kept).2

theorem Books.evict (books : r.Books) (c : Composite) : (r.evict c).Books := by
  unfold SsdRegion.evict
  cases found : r.entries.get? c with
  | none => exact books
  | some e =>
    obtain rfl := (books.filed c e found).named
    refine books_forget books.used books.bounded found fun c' e' differ kept =>
      have barless' := books.barless c' e' kept
      ⟨(books.filed c' e' kept).frame (books.barless _ e found) barless' differ ?_, barless'⟩
    intro shard name other
    rw [read_deleteBlockFiles, if_neg other]

theorem room_of_makeRoom (fuel size : ℕ) : ∀ {r : SsdRegion}, (r.makeRoom fuel size).2 = true →
    (r.makeRoom fuel size).1.usedBytes + size ≤ (r.makeRoom fuel size).1.maxBytes := by
  induction fuel with
  | zero => exact fun room => of_decide_eq_true room
  | succ fuel ih =>
    intro r
    rw [SsdRegion.makeRoom]
    split_ifs with fits
    · exact fun _ => fits
    · cases r.pickLruVictim with
      | none => rintro ⟨⟩
      | some victim => exact ih

/-- The index already counts the entry whose files are about to be written. -/
structure Reserved (r : SsdRegion) (e : SsdEntry) (value : Bytes) : Prop where
  others : ∀ c' e', c' ≠ e.composite → r.entries.get? c' = some e' →
    Filed r.disk c' e' ∧ Barless c'
  found : r.entries.get? e.composite = some e
  used : r.usedBytes = sizes r.entries
  bounded : r.usedBytes ≤ r.maxBytes
  barless : Barless e.composite
  size : value.length = e.sizeBytes
  encodable : e.metadata.encodable = true

theorem Reserved.commit {value : Bytes} (reserved : r.Reserved e value) (wall : WallClock)
    (fault : Option DiskFault) : (r.commit wall e.composite e value fault).1.Books := by
  obtain ⟨others, found, used, bounded, barless, size, encodable⟩ := reserved
  rcases r.commit_cases wall e.composite e value fault with
    ⟨fits, written⟩ | ⟨-, disk', reason, left, written⟩ | ⟨raising, written⟩ <;> rw [written]
  · have confined := (onlyAt_write r.disk value (.inl (rfl : dataName e.composite = _))).trans
      (onlyAt_write _ (sidecarBlob (sidecarPayload wall e value)) (.inr rfl))
    refine ⟨⟨fun c' e' kept => ?_, used, bounded⟩, fun c' e' kept => ?_⟩ <;>
      by_cases same : c' = e.composite
    · subst same
      obtain rfl : e = e' := Option.some.inj (found.symm.trans kept)
      refine ⟨rfl, ⟨value, ?_, size⟩, _, _, ?_,
        decodeSidecar_sidecarBlob (distinct_sidecarPayload wall e value) fits⟩
      · rw [SsdDisk.read_write, if_neg fun both => dataName_ne_metadataName _ _ both.2,
          storedDisk, SsdDisk.read_write, if_pos ⟨rfl, rfl⟩]
      · rw [SsdDisk.read_write, if_pos ⟨rfl, rfl⟩]
    · obtain ⟨filed, barless'⟩ := others c' e' same kept
      exact filed.frame barless barless' same confined
    · exact same ▸ barless
    · exact (others c' e' same kept).2
  · -- the rollback forgets the entry; the other files are untouched
    have confined : OnlyAt e.composite r.disk disk' := by
      rcases left with rfl | rfl
      · exact .refl _ _
      · exact onlyAt_write _ _ (.inl rfl)
    refine books_forget used bounded found fun c' e' differ kept => ?_
    obtain ⟨filed, barless'⟩ := others c' e' differ kept
    exact ⟨filed.frame barless barless' differ confined, barless'⟩
  · exact absurd (encodable.symm.trans raising) (by simp)

theorem Books.put {policy : Policy} (books : r.Books) (clk : Clock) (wall : WallClock)
    {value : Bytes} (retention : Retention) {metadata : Metadata} (fault : Option DiskFault)
    (barless : Barless c) (encodable : metadata.encodable = true)
    (room : ∀ e, r.entries.get? c = some e →
      r.usedBytes + (value.length - e.sizeBytes : Int) ≤ r.maxBytes) :
    (r.put policy clk wall c value retention metadata fault).1.Books := by
  unfold SsdRegion.put
  split_ifs with kind large
  · exact books
  · exact books
  cases found : r.entries.get? c with
  | some e =>
    obtain rfl := (books.filed c e found).named
    refine Reserved.commit (e := updated e clk value metadata) ⟨fun c' e' differ kept => ?_,
      get?_set_self .., ?_, room e found, barless, rfl, encodable⟩ wall fault
    · have kept := (get?_set_of_ne differ).symm.trans kept
      exact ⟨books.filed c' e' kept, books.barless c' e' kept⟩
    · have whole := sizes_of_get? found
      have used := books.used
      rw [sizes_set]
      simp only [updated]
      omega
  | none =>
    have left := makeRoom_invariant (P := Books) (fun _ victim kept => kept.evict victim)
      r.entries.items.length value.length books
    have absent := makeRoom_invariant (P := (·.entries.get? c = none))
      (fun r victim absent => by rw [get?_evict, absent, ite_self]) r.entries.items.length
      value.length found
    dsimp only
    split_ifs with full
    · exact left
    · refine Reserved.commit (e := fresh clk c value retention metadata)
        ⟨fun c' e' differ kept => ?_, get?_set_self .., ?_,
          room_of_makeRoom _ _ (by simpa using full), barless, rfl, encodable⟩ wall fault
      · have kept := (get?_set_of_ne differ).symm.trans kept
        exact ⟨left.filed c' e' kept, left.barless c' e' kept⟩
      · have used := left.used
        rw [sizes_set, erase_of_absent _ absent]
        simp only [fresh]
        omega

theorem Books.remove (books : r.Books) (c : Composite) : (r.remove c).1.Books := by
  unfold SsdRegion.remove
  cases r.entries.get? c with
  | none => exact books
  | some e => exact books.evict c

theorem books_of_empty (entries : r.entries = .empty) (used : r.usedBytes = 0) : r.Books where
  filed c e found := absurd found (by simp [entries])
  used := by
    rw [used, entries]
    rfl
  bounded := by omega
  barless c e found := absurd found (by simp [entries])

inductive RegionCall where
  | put (clk : Clock) (wall : WallClock) (c : Composite) (value : Bytes) (retention : Retention)
      (metadata : Metadata) (fault : Option DiskFault)
  | remove (c : Composite)
  | clear

def step (policy : Policy) (r : SsdRegion) : RegionCall → SsdRegion
  | .put clk wall c value retention metadata fault =>
    (r.put policy clk wall c value retention metadata fault).1
  | .remove c => (r.remove c).1
  | .clear => r.clear.1

/-- Names without a bar, metadata `json.dumps` can write, and an update in place that has room. -/
def Careful (r : SsdRegion) : RegionCall → Prop
  | .put _ _ c value _ metadata _ => Barless c ∧ metadata.encodable = true ∧
    ∀ e, r.entries.get? c = some e → r.usedBytes + (value.length - e.sizeBytes : Int) ≤ r.maxBytes
  | _ => True

/-- In every run of careful calls, whatever the region takes in and whatever writes fail. -/
theorem accounted_of_careful {policy : Policy}
    (reached : Reaches (fun r => ∃ maxBytes disk, r = new maxBytes disk)
      (step policy) Careful r) : r.Accounted := by
  suffices books : r.Books from books.toAccounted
  refine reached.invariant ?_ ?_
  · rintro _ ⟨maxBytes, disk, rfl⟩
    exact books_of_empty rfl rfl
  · intro r call books careful
    cases call with
    | put clk wall c value retention metadata fault =>
      exact books.put clk wall retention fault careful.1 careful.2.1 careful.2.2
    | remove c => exact books.remove c
    | clear => exact books_of_empty rfl rfl

def tenant : Composite := ⟨"m", "v1", [1]⟩

def putting (value : Bytes) (metadata : Metadata) (fault : Option DiskFault) : RegionCall :=
  .put (fun i => i) Recorded.stillWall tenant value .long metadata fault

/-- The block is written, grows in place, and is lost to a write of its sidecar that fails. -/
theorem failed_update_accounted : ([putting [7] Recorded.tagged none,
    putting [8, 9] .empty none, putting [5] .empty (some (.sidecar "ENOSPC"))].foldl
      (step policy) (new 64 .empty)).Accounted := by
  have barless : Barless tenant := ⟨by decide, by decide⟩
  have begun : Reaches (fun r => ∃ maxBytes disk, r = new maxBytes disk)
      (step policy) Careful (new 64 .empty) :=
    .start ⟨64, .empty, rfl⟩
  have stored := begun.next (putting [7] Recorded.tagged none) ⟨barless, rfl, nofun⟩
  have grown := stored.next (putting [8, 9] .empty none) ⟨barless, rfl, by decide +kernel⟩
  exact accounted_of_careful (grown.next (putting [5] .empty (some (.sidecar "ENOSPC")))
    ⟨barless, rfl, by decide +kernel⟩)

/-- The metadata holds bytes: the call raises, the block stays indexed and has no sidecar. -/
theorem raised_put_without_sidecar :
    let r := step policy (new 64 .empty)
      (putting [7] ⟨[("raw", .bytes [0])], by decide⟩ none)
    r.entries.contains tenant = true ∧ r.sidecarFile tenant = none := by
  refine ⟨rfl, ?_⟩
  exact (SsdDisk.read_write ..).trans (if_neg fun both => dataName_ne_metadataName _ _ both.2.symm)

end SsdRegion
end Infera.Kvd
