import Infera.Kvd.Region
import Infera.Kvd.SsdRecovery

/-! The file-per-block regions as tiers below the host store. Under names without a
bar an indexed block has a data file of its own. A write that fails takes the entry
out of the index, and one that raises leaves the new block in place, so whatever the
wall clock says and whichever writes fail, a region has no other block for a
composite than the one last written. -/

namespace Infera.Kvd
open Dict Option

namespace SsdRegion
variable {r r' base : SsdRegion} {c c' : Composite} {e : SsdEntry} {value : Bytes}

/-- The store's namespace clear removes the matching entries one by one. -/
def clearNamespace (r : SsdRegion) (model compatKey : String) : SsdRegion :=
  (r.entries.keys.filter fun c => c.model = model ∧ c.compatKey = compatKey).foldl
    (fun r c => (r.remove c).1) r

def held (r : SsdRegion) (c : Composite) : Option Bytes :=
  (r.entries.get? c).bind fun _ => r.dataFile c

def Backed (r : SsdRegion) (c : Composite) (e : SsdEntry) : Prop :=
  e.composite = c ∧ Barless c ∧ r.dataFile c ≠ none

def Valid (r : SsdRegion) : Prop := ∀ c e, r.entries.get? c = some e → r.Backed c e

def Clean (r : SsdRegion) : Prop :=
  ∀ c e, r.entries.get? c = some e → e.metadata.encodable = true

theorem held_of_absent (absent : r.entries.get? c = none) : r.held c = none := by
  rw [held, absent, bind_none]

theorem held_of_found (found : r.entries.get? c = some e) : r.held c = r.dataFile c := by
  rw [held, found, bind_some]

/-- Only the entry and the files of `c` are changed. -/
theorem Valid.update (valid : r.Valid) (barless : Barless c) (confined : OnlyAt c r.disk r'.disk)
    (others : ∀ c' ≠ c, r'.entries.get? c' = r.entries.get? c')
    (own : ∀ e, r'.entries.get? c = some e → e.composite = c ∧ r'.dataFile c ≠ none) :
    r'.Valid ∧ ∀ c' ≠ c, r'.held c' = r.held c' := by
  have file : ∀ c' ≠ c, ∀ e, r.entries.get? c' = some e → r'.dataFile c' = r.dataFile c' :=
    fun c' differ e found =>
      confined _ _ (not_fileOf_dataName barless (valid c' e found).2.1 differ)
  refine ⟨fun c' e found => ?_, fun c' differ => ?_⟩
  · by_cases same : c' = c
    · subst same
      exact ⟨(own e found).1, barless, (own e found).2⟩
    · rw [others c' same] at found
      rw [Backed, file c' same e found]
      exact valid c' e found
  · rw [held, held, others c' differ]
    cases found : r.entries.get? c' with
    | none => rfl
    | some e => exact file c' differ e found

/-- Entries are dropped and no block is changed. -/
structure Thinned (r r' : SsdRegion) : Prop where
  valid : r.Valid → r'.Valid
  held : r.Valid → ∀ c, KeptOrDropped (r.held c) (r'.held c)
  entries : ∀ c e, r'.entries.get? c = some e → r.entries.get? c = some e

theorem Thinned.refl (r : SsdRegion) : Thinned r r := ⟨id, fun _ _ => .inl rfl, fun _ _ => id⟩

theorem Thinned.evict (thinned : Thinned r base) (c : Composite) : Thinned r (base.evict c) := by
  have entries : ∀ c' e, (base.evict c).entries.get? c' = some e → c' ≠ c ∧
      base.entries.get? c' = some e := by
    intro c' e found
    rw [get?_evict] at found
    split_ifs at found with same
    exact ⟨same, found⟩
  suffices step : base.Valid → (base.evict c).Valid ∧
      ∀ c', KeptOrDropped (base.held c') ((base.evict c).held c') by
    refine ⟨fun valid => (step (thinned.valid valid)).1, fun valid c' => ?_,
      fun c' e found => thinned.entries c' e (entries c' e found).2⟩
    rcases (step (thinned.valid valid)).2 c' with same | gone
    · exact same ▸ thinned.held valid c'
    · exact .inr gone
  intro valid
  cases found : base.entries.get? c with
  | none =>
    have same : base.evict c = base := by rw [SsdRegion.evict, found]
    exact same.symm ▸ ⟨valid, fun _ => .inl rfl⟩
  | some e =>
    obtain ⟨named, barless, -⟩ := valid c e found
    have confined : OnlyAt c base.disk (base.evict c).disk := by
      intro shard name other
      rw [SsdRegion.evict, found]
      exact (read_deleteBlockFiles ..).trans (if_neg (named.symm ▸ other))
    have gone : (base.evict c).entries.get? c = none := by rw [get?_evict, if_pos rfl]
    obtain ⟨left, away⟩ := valid.update barless confined
      (fun c' differ => by rw [get?_evict, if_neg differ])
      fun e' kept => absurd rfl (entries c e' kept).1
    refine ⟨left, fun c' => ?_⟩
    by_cases same : c' = c
    · exact .inr (held_of_absent (same ▸ gone))
    · exact .inl (away c' same)

theorem remove_fst (r : SsdRegion) (c : Composite) : (r.remove c).1 = r.evict c := by
  unfold SsdRegion.remove
  cases found : r.entries.get? c with
  | none => rw [SsdRegion.evict, found]
  | some e => rfl

theorem Thinned.removes (cs : List Composite) (thinned : Thinned r base) :
    Thinned r (cs.foldl (fun r c => (r.remove c).1) base) ∧
      ∀ c, c ∈ cs ∨ base.entries.get? c = none →
        (cs.foldl (fun r c => (r.remove c).1) base).entries.get? c = none := by
  induction cs generalizing base with
  | nil => exact ⟨thinned, fun c gone => gone.resolve_left List.not_mem_nil⟩
  | cons c cs ih =>
    rw [List.foldl_cons, remove_fst]
    obtain ⟨thinned, gone⟩ := ih (thinned.evict c)
    refine ⟨thinned, fun c' mem => gone c' ?_⟩
    rw [get?_evict]
    split_ifs with same
    · exact .inr rfl
    · exact mem.imp_left fun mem => (List.mem_cons.mp mem).resolve_left same

theorem clearNamespace_absent (r : SsdRegion) (c : Composite) :
    (r.clearNamespace c.model c.compatKey).entries.get? c = none := by
  refine ((Thinned.refl r).removes _).2 c ?_
  cases found : r.entries.get? c with
  | none => exact .inr rfl
  | some e => exact .inl (List.mem_filter.mpr ⟨mem_keys_iff.mpr ⟨e, found⟩, by simp⟩)

/-- A block write takes the entry back out of the index, or it leaves the block on disk. -/
theorem commit_outcome (r : SsdRegion) (wall : WallClock) (c : Composite) (e : SsdEntry)
    (value : Bytes) (fault : Option DiskFault) : ∃ r' answer,
      r.commit wall c e value fault = (r', answer) ∧ OnlyAt e.composite r.disk r'.disk ∧
        (r'.entries = r.entries.erase c ∧ (∃ reason, answer = .ok (false, reason)) ∨
          r'.entries = r.entries ∧ r'.dataFile e.composite = some value ∧
            ((∃ reason, answer = .ok (true, reason)) ∨
              e.metadata.encodable = false ∧ answer = .error .typeError)) := by
  have stored : OnlyAt e.composite r.disk (storedDisk r.disk e value) :=
    onlyAt_write r.disk value (.inl rfl)
  have data : (storedDisk r.disk e value).read (shardOf e.composite) (dataName e.composite) =
      some value := by
    rw [storedDisk, SsdDisk.read_write, if_pos ⟨rfl, rfl⟩]
  rcases r.commit_cases wall c e value fault with
    ⟨-, wrote⟩ | ⟨-, disk', reason, left, wrote⟩ | ⟨raising, wrote⟩
  · refine ⟨_, _, wrote, stored.trans (onlyAt_write _ _ (.inr rfl)),
      .inr ⟨rfl, ?_, .inl ⟨_, rfl⟩⟩⟩
    refine (SsdDisk.read_write ..).trans ((if_neg fun both => ?_).trans data)
    exact dataName_ne_metadataName _ _ both.2
  · refine ⟨_, _, wrote, ?_, .inl ⟨rfl, _, rfl⟩⟩
    rcases left with rfl | rfl
    · exact .refl _ _
    · exact stored
  · exact ⟨_, _, wrote, stored, .inr ⟨rfl, data, .inr ⟨raising, rfl⟩⟩⟩

section
variable (policy : Policy) (r : SsdRegion) (clk : Clock) (wall : WallClock) (c : Composite)
  (value : Bytes) (retention : Retention) (metadata : Metadata) (fault : Option DiskFault)

/-- The write is refused, or an entry is indexed and its block written. -/
theorem put_cases : (∃ r' reason, Thinned r r' ∧
      r.put policy clk wall c value retention metadata fault = (r', .ok (false, reason))) ∨
    ∃ base e used, Thinned r base ∧ e.metadata = metadata ∧ (r.Valid → e.composite = c) ∧
      r.put policy clk wall c value retention metadata fault =
        commit { base with entries := base.entries.set c e, usedBytes := used } wall c e value
          fault := by
  unfold SsdRegion.put
  split_ifs with kind large
  · exact .inl ⟨_, _, .refl r, rfl⟩
  · exact .inl ⟨_, _, .refl r, rfl⟩
  cases found : r.entries.get? c with
  | some e =>
    exact .inr ⟨r, updated e clk value metadata, _, .refl r, rfl,
      fun valid => (valid c e found).1, rfl⟩
  | none =>
    have room : Thinned r (makeRoom r.entries.items.length r value.length).1 :=
      makeRoom_invariant (fun _ victim thinned => thinned.evict victim) _ _ (.refl r)
    dsimp only
    split_ifs
    · exact .inl ⟨_, _, room, rfl⟩
    · exact .inr ⟨_, fresh clk c value retention metadata, _, room, rfl, fun _ => rfl, rfl⟩

variable {r c}

/-- A write leaves the other blocks or drops them, and its own block is there unless refused. -/
theorem put_effect (valid : r.Valid) (barless : Barless c) :
    let out := r.put policy clk wall c value retention metadata fault
    out.1.Valid ∧ (∀ c' ≠ c, KeptOrDropped (r.held c') (out.1.held c')) ∧
      PutLeaves value (r.held c) (out.1.held c) out.2 := by
  dsimp only
  rcases put_cases policy r clk wall c value retention metadata fault with
    ⟨r', reason, thinned, refused⟩ | ⟨base, e, used, thinned, -, named, wrote⟩
  · rw [refused]
    exact ⟨thinned.valid valid, fun c' _ => thinned.held valid c', thinned.held valid c⟩
  obtain rfl := named valid
  obtain ⟨r', answer, told, confined, outcome⟩ := commit_outcome
    { base with entries := base.entries.set e.composite e, usedBytes := used } wall e.composite e
    value fault
  rw [wrote, told]
  have update := @Valid.update base r' e.composite (thinned.valid valid) barless confined
  rcases outcome with ⟨entries, reason, rfl⟩ | ⟨entries, data, answered⟩
  · have gone : r'.entries.get? e.composite = none := by
      rw [entries]
      exact get?_erase_self _ _
    obtain ⟨left, away⟩ := update
      (fun c' differ => by rw [entries, get?_erase_of_ne differ, get?_set_of_ne differ])
      fun e' kept => absurd (gone.symm.trans kept) (by simp)
    exact ⟨left, fun c' differ => away c' differ ▸ thinned.held valid c',
      .inr (held_of_absent gone)⟩
  · have found : r'.entries.get? e.composite = some e := by
      rw [entries]
      exact get?_set_self ..
    obtain ⟨left, away⟩ := update (fun c' differ => by rw [entries, get?_set_of_ne differ])
      fun e' kept => ⟨some.inj (kept.symm.trans found) ▸ rfl, by simp [data]⟩
    refine ⟨left, fun c' differ => away c' differ ▸ thinned.held valid c', ?_⟩
    have now : r'.held e.composite = some value := (held_of_found found).trans data
    rcases answered with ⟨reason, rfl⟩ | ⟨-, rfl⟩
    · exact now
    · exact .inr now

variable {metadata}

theorem put_encodable (encodable : metadata.encodable = true) :
    (r.Clean → (r.put policy clk wall c value retention metadata fault).1.Clean) ∧
      ∃ answer, (r.put policy clk wall c value retention metadata fault).2 = .ok answer := by
  rcases put_cases policy r clk wall c value retention metadata fault with
    ⟨r', reason, thinned, refused⟩ | ⟨base, e, used, thinned, same, -, wrote⟩
  · rw [refused]
    exact ⟨fun clean c' e' found => clean c' e' (thinned.entries c' e' found), _, rfl⟩
  have set (clean : r.Clean) : ∀ c' e', (base.entries.set c e).get? c' = some e' →
      e'.metadata.encodable = true := by
    intro c' e' found
    rcases get?_set_cases found with ⟨-, rfl⟩ | ⟨-, found⟩
    · rw [same, encodable]
    · exact clean c' e' (thinned.entries c' e' found)
  obtain ⟨r', answer, told, -, ⟨entries, refused⟩ | ⟨entries, -, answered⟩⟩ := commit_outcome
    { base with entries := base.entries.set c e, usedBytes := used } wall c e value fault <;>
    rw [wrote, told]
  · obtain ⟨reason, refused⟩ := refused
    exact ⟨fun clean c' e' found => set clean c' e' (get?_of_erase (entries ▸ found)).2, _, refused⟩
  · refine ⟨fun clean c' e' found => set clean c' e' (by rwa [entries] at found), ?_⟩
    rcases answered with ⟨reason, accepted⟩ | ⟨raising, -⟩
    · exact ⟨_, accepted⟩
    · rw [same, encodable] at raising
      cases raising

end

theorem getBytes_dataFile (r : SsdRegion) (clk : Clock) (c c' : Composite) :
    (r.getBytes clk c).1.dataFile c' = r.dataFile c' := by
  unfold SsdRegion.getBytes
  split
  · rfl
  · split <;> rfl

/-- A lookup changes an access time, or it drops the entry. -/
theorem getBytes_entries (clk : Clock) (found : (r.getBytes clk c).1.entries.get? c' = some e) :
    ∃ e₀ access, r.entries.get? c' = some e₀ ∧ e = { e₀ with lastAccess := access } := by
  unfold SsdRegion.getBytes at found
  split at found
  · exact ⟨e, e.lastAccess, found, rfl⟩
  case h_2 e₀ resident =>
    split at found
    · rcases get?_set_cases found with ⟨rfl, rfl⟩ | ⟨-, kept⟩
      · exact ⟨e₀, _, resident, rfl⟩
      · exact ⟨e, e.lastAccess, kept, rfl⟩
    · exact ⟨e, e.lastAccess, (get?_of_erase found).2, rfl⟩

end SsdRegion

/-- A file-per-block region below a store, with what its writes to come meet: the wall clock, and
an `OSError` or none. -/
structure SsdTier (policy : SsdRegion.Policy) where
  region : SsdRegion
  outside : ℕ → WallClock × Option DiskFault

namespace SsdTier
open SsdRegion

variable {policy : Policy}

def put (t : SsdTier policy) (clk : Clock) (c : Composite) (value : Bytes) (retention : Retention)
    (metadata : Metadata) : SsdTier policy × Except PyErr (Bool × Option String) :=
  let out := t.region.put policy clk (t.outside 0).1 c value retention metadata (t.outside 0).2
  (⟨out.1, fun i => t.outside (i + 1)⟩, out.2)

/-- What `put` indexes has the region's own retention. -/
instance : Region (SsdTier policy) where
  getEntry t c := (t.region.getEntry c).map fun e =>
    ((Retention.ofString? e.retention).getD policy.retention, e.metadata)
  getBytes t clk c :=
    ({ t with region := (t.region.getBytes clk c).1 }, (t.region.getBytes clk c).2)
  getBytesBatch := none
  contains t c := t.region.entries.contains c
  put := put
  clear t := { t with region := t.region.clear.1 }
  clearNamespace t model compatKey := { t with region := t.region.clearNamespace model compatKey }

instance : LawfulRegion (SsdTier policy) where
  Valid t := t.region.Valid
  Clean t := t.region.Clean
  Apart := Barless
  held t := t.region.held
  getEntry_held t c found valid entry := by
    obtain ⟨e, resident, -⟩ := map_eq_some_iff.mp entry
    exact held_of_found resident ▸ (valid c e resident).2.2
  contains_held t c valid present := by
    obtain ⟨e, resident⟩ := (contains_eq_true_iff _ c).mp present
    exact held_of_found resident ▸ (valid c e resident).2.2
  getBytes_valid t clk c valid c' e found := by
    obtain ⟨e₀, access, before, rfl⟩ := getBytes_entries clk found
    obtain ⟨named, barless, data⟩ := valid c' e₀ before
    exact ⟨named, barless, fun none => data ((getBytes_dataFile ..).symm.trans none)⟩
  getBytes_some t clk c v valid hit := by
    change (t.region.getBytes clk c).2 = some v at hit
    cases found : t.region.entries.get? c with
    | none => simp [SsdRegion.getBytes, found] at hit
    | some e =>
      obtain ⟨named, -, data⟩ := valid c e found
      obtain ⟨v', data⟩ := ne_none_iff_exists'.mp data
      simp only [SsdRegion.getBytes, found, named, data] at hit
      exact (held_of_found found).trans (data.trans hit)
  getBytes_kept t clk c c' _ := by
    change KeptOrDropped (t.region.held c') ((t.region.getBytes clk c).1.held c')
    cases found : (t.region.getBytes clk c).1.entries.get? c' with
    | none => exact .inr (held_of_absent found)
    | some e =>
      obtain ⟨e₀, access, before, -⟩ := getBytes_entries clk found
      left
      rw [held_of_found found, held_of_found before]
      exact getBytes_dataFile ..
  batch_reads f defined := by simp [Region.getBytesBatch] at defined
  put_valid t clk c v ret md valid barless := (put_effect policy clk _ v ret md _ valid barless).1
  put_own t clk c v ret md valid barless := (put_effect policy clk _ v ret md _ valid barless).2.2
  put_other t clk c v ret md c' valid barless other :=
    (put_effect policy clk _ v ret md _ valid barless).2.1 c' other
  clear_valid t _ c e found := absurd found (by simp [Region.clear, SsdRegion.clear])
  clear_held t c _ := rfl
  clearNamespace_valid t model compatKey valid := ((Thinned.refl _).removes _).1.valid valid
  clearNamespace_kept t model compatKey c valid := ((Thinned.refl _).removes _).1.held valid c
  clearNamespace_held t c _ := held_of_absent (clearNamespace_absent _ c)
  clean_getEntry t c ret md clean entry := by
    obtain ⟨e, resident, same⟩ := map_eq_some_iff.mp entry
    cases same
    exact clean c e resident
  clean_getBytes t clk c clean c' e found := by
    obtain ⟨e₀, access, before, rfl⟩ := getBytes_entries clk found
    exact clean c' e₀ before
  clean_batch f defined := by simp [Region.getBytesBatch] at defined
  clean_put t clk c v ret md clean encodable :=
    (put_encodable policy clk _ v ret _ encodable).1 clean
  clean_clear t _ c e found := absurd found (by simp [Region.clear, SsdRegion.clear])
  clean_clearNamespace t model compatKey clean c e found :=
    clean c e (((Thinned.refl _).removes _).1.entries c e found)
  put_ok t clk c v ret md encodable := (put_encodable policy clk _ v ret _ encodable).2

end SsdTier
end Infera.Kvd
