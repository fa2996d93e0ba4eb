import Infera.Kvd.HostStore

/-! Rows, the key index and the drain. `Lockstep` says that the key index lists
exactly the composites with a row, under their raw key; with it, draining the
arena's log is a filter on the rows (`get?_drainEvicted`). The frame relations
say once per function what it leaves alone: `SameTiers` for the operations on
rows, `SameRam` for those on the lower tiers. -/

namespace Infera.Kvd
open Dict
namespace HostStore
variable {σ ρ : Type}

/-- Lower tiers, history and budget are untouched. -/
structure SameTiers (st st' : HostStore σ ρ) : Prop where
  spillover : st'.spillover = st.spillover
  longRegion : st'.longRegion = st.longRegion
  accepted : st'.accepted = st.accepted
  maxBytes : st'.maxBytes = st.maxBytes

variable (st : HostStore σ ρ) (c c' : Composite) (e : Entry) (f : SharedArena → SharedArena)
  (index : Dict Bytes (List Composite)) {α : Type} (retention : Retention)

theorem SameTiers.refl : SameTiers st st := ⟨rfl, rfl, rfl, rfl⟩

theorem SameTiers.trans {a b c : HostStore σ ρ} (first : SameTiers a b) (second : SameTiers b c) :
    SameTiers a c :=
  ⟨second.spillover.trans first.spillover, second.longRegion.trans first.longRegion,
    second.accepted.trans first.accepted, second.maxBytes.trans first.maxBytes⟩

/-- Rows, key index, arena and history are untouched. -/
structure SameRam (st st' : HostStore σ ρ) : Prop where
  entries : st'.entries = st.entries
  keyIndex : st'.keyIndex = st.keyIndex
  sharedArena : st'.sharedArena = st.sharedArena
  usedBytes : st'.usedBytes = st.usedBytes
  accepted : st'.accepted = st.accepted
  maxBytes : st'.maxBytes = st.maxBytes
  nextOid : st'.nextOid = st.nextOid

theorem SameRam.refl : SameRam st st := ⟨rfl, rfl, rfl, rfl, rfl, rfl, rfl⟩

theorem SameRam.trans {a b c : HostStore σ ρ} (first : SameRam a b) (second : SameRam b c) :
    SameRam a c :=
  ⟨second.entries.trans first.entries, second.keyIndex.trans first.keyIndex,
    second.sharedArena.trans first.sharedArena, second.usedBytes.trans first.usedBytes,
    second.accepted.trans first.accepted, second.maxBytes.trans first.maxBytes,
    second.nextOid.trans first.nextOid⟩

theorem sameRam_setSpillover (region : σ) :
    SameRam st (st.setSpillover region) := ⟨rfl, rfl, rfl, rfl, rfl, rfl, rfl⟩

theorem sameRam_setLongRegion (region : ρ) :
    SameRam st (st.setLongRegion region) := ⟨rfl, rfl, rfl, rfl, rfl, rfl, rfl⟩

theorem resolveValue_congr {st st' : HostStore σ ρ} (same : st'.sharedArena = st.sharedArena)
    (e : Entry) : st'.resolveValue e = st.resolveValue e := by
  simp [resolveValue, same]

theorem sameTiers_setArena (arena : SharedArena) :
    SameTiers st (st.setArena arena) := ⟨rfl, rfl, rfl, rfl⟩

theorem sameTiers_mapArena : SameTiers st (st.mapArena f) := by
  unfold mapArena
  split
  · exact .refl st
  · exact st.sameTiers_setArena _

theorem sameTiers_dropRow : SameTiers st (st.dropRow c) := by
  unfold dropRow
  split <;> exact ⟨rfl, rfl, rfl, rfl⟩

theorem sameTiers_storeBytes (key value : Bytes) : SameTiers st (st.storeBytes key value).1 := by
  unfold storeBytes
  split <;> exact ⟨rfl, rfl, rfl, rfl⟩

theorem makeRoom_of_fits {st : HostStore σ ρ} {demand : Nat}
    (fits : st.usedBytes + demand ≤ st.maxBytes) (fuel : Nat) (retention : Retention)
    (spills : List Spill) : makeRoom fuel st demand retention spills = (st, some spills) := by
  cases fuel <;> simp only [makeRoom, fits, if_true]

theorem makeRoom_invariant {P : HostStore σ ρ → Prop} (demand : Nat)
    (count : ∀ st, P st → P st.countRejection)
    (evict : ∀ st victim, P st → st.pickVictim retention = some victim → P (st.evict victim))
    (fuel : Nat) : ∀ (st : HostStore σ ρ) (spills : List Spill), P st →
      P (makeRoom fuel st demand retention spills).1 := by
  induction fuel with
  | zero =>
    intro st spills holds
    unfold makeRoom
    split_ifs
    · exact holds
    · exact count st holds
  | succ fuel ih =>
    intro st spills holds
    unfold makeRoom
    split_ifs
    · exact holds
    · split
      · exact count st holds
      · rename_i victim picked
        exact ih _ _ (evict st victim holds picked)

@[simp] theorem sharedArena_mapArena : (st.mapArena f).sharedArena = st.sharedArena.map f := by
  unfold mapArena
  split <;> simp [setArena, *]

@[simp] theorem sharedArena_dropRow : (st.dropRow c).sharedArena = st.sharedArena := by
  unfold dropRow
  split <;> rfl

/-- `P` survives the steps that take rows away. -/
structure Sheds (P : HostStore σ ρ → Prop) : Prop where
  drop : ∀ {st} c, P st → P (st.dropRow c)
  release : ∀ {st} key, P st → P (st.mapArena fun arena => (arena.evictKey key false).1)
  drain : ∀ {st}, P st → P (st.mapArena fun arena => arena.drainRecentEvictions.1)
  stats : ∀ {st} stats, P st → P { st with stats }

namespace Sheds
variable {P : HostStore σ ρ → Prop} (sheds : Sheds P) {st : HostStore σ ρ} (holds : P st)
include sheds holds

theorem releaseSlot : P (st.releaseSlot e) := by
  unfold HostStore.releaseSlot
  split_ifs
  · exact sheds.release e.key holds
  · exact holds

theorem removeEntry : P (st.removeEntry c e) := sheds.releaseSlot e (sheds.drop c holds)

theorem evict : P (st.evict c) := by
  unfold HostStore.evict
  split
  · exact holds
  · exact sheds.stats _ (sheds.removeEntry c _ holds)

theorem dropBucket (key : Bytes) : P (st.dropBucket key) := by
  refine List.foldlRecOn _ dropEvicted holds fun st holds c _ => ?_
  unfold dropEvicted
  split
  · exact holds
  · exact sheds.stats _ (sheds.drop c holds)

theorem drainEvicted : P st.drainEvicted := by
  have drained := sheds.drain holds
  unfold HostStore.drainEvicted
  unfold mapArena at drained
  cases wired : st.sharedArena with
  | none => exact holds
  | some arena =>
    rw [wired] at drained
    exact List.foldlRecOn _ HostStore.dropBucket drained fun _ holds key _ =>
      sheds.dropBucket holds key

theorem dropOverwritten (key : Option Bytes) : P (st.dropOverwritten key) := by
  unfold HostStore.dropOverwritten
  split
  · exact holds
  · exact List.foldlRecOn _ dropRow holds fun _ holds c _ => sheds.drop c holds

theorem freed (es : List Entry) : P (es.foldl HostStore.releaseSlot st) :=
  List.foldlRecOn es _ holds fun _ holds e _ => sheds.releaseSlot e holds

theorem cleared (cs : List Composite) : P (cs.foldl clearRow st) := by
  refine List.foldlRecOn cs _ holds fun st holds c _ => ?_
  unfold clearRow
  split
  · exact holds
  · exact sheds.removeEntry c _ holds

theorem makeRoom (demand fuel : Nat) (spills : List Spill) :
    P (HostStore.makeRoom fuel st demand retention spills).1 :=
  makeRoom_invariant retention demand (fun _ => sheds.stats _)
    (fun _ victim holds _ => sheds.evict victim holds) fuel st spills holds

end Sheds

theorem SameTiers.sheds : Sheds (SameTiers st) where
  drop _ same := same.trans (sameTiers_dropRow ..)
  release _ same := same.trans (sameTiers_mapArena ..)
  drain same := same.trans (sameTiers_mapArena ..)
  stats _ same := { same with }

theorem unwired_sheds : Sheds fun st : HostStore σ ρ => st.sharedArena = none where
  drop c none := by rw [sharedArena_dropRow, none]
  release _ none := by rw [sharedArena_mapArena, none, Option.map_none]
  drain none := by rw [sharedArena_mapArena, none, Option.map_none]
  stats _ none := none

@[simp] theorem entries_mapArena : (st.mapArena f).entries = st.entries := by
  unfold mapArena
  split <;> rfl

@[simp] theorem keyIndex_mapArena : (st.mapArena f).keyIndex = st.keyIndex := by
  unfold mapArena
  split <;> rfl

@[simp] theorem entries_releaseSlot : (st.releaseSlot e).entries = st.entries := by
  unfold releaseSlot
  split_ifs <;> simp

@[simp] theorem get?_dropRow :
    (st.dropRow c).entries.get? c' = if c' = c then none else st.entries.get? c' := by
  unfold dropRow
  split
  · rename_i absent
    split_ifs with same
    · rw [same, absent]
    · rfl
  · rw [get?_erase]

@[simp] theorem get?_removeEntry (c' : Composite) :
    (st.removeEntry c e).entries.get? c' = if c' = c then none else st.entries.get? c' := by
  rw [removeEntry, entries_releaseSlot, get?_dropRow]

@[simp] theorem get?_evict :
    (st.evict c).entries.get? c' = if c' = c then none else st.entries.get? c' := by
  unfold evict
  split
  · rename_i absent
    split_ifs with same
    · rw [same, absent]
    · rfl
  · exact st.get?_removeEntry c _ c'

@[simp] theorem get?_dropEvicted :
    (st.dropEvicted c).entries.get? c' = if c' = c then none else st.entries.get? c' := by
  unfold dropEvicted
  split
  · rename_i absent
    split_ifs with same
    · rw [same, absent]
    · rfl
  · exact st.get?_dropRow c c'

@[simp] theorem sharedArena_dropEvicted : (st.dropEvicted c).sharedArena = st.sharedArena := by
  unfold dropEvicted
  split
  · rfl
  · exact st.sharedArena_dropRow c

theorem absent_sheds : Sheds fun st : HostStore σ ρ => st.entries.get? c = none where
  drop _ absent := by simp [absent]
  release _ absent := by rwa [entries_mapArena]
  drain absent := by rwa [entries_mapArena]
  stats _ absent := absent

theorem get?_foldl_drop {f : HostStore σ ρ → Composite → HostStore σ ρ}
    (one : ∀ st c c', (f st c).entries.get? c' = if c' = c then none else st.entries.get? c')
    (cs : List Composite) (c' : Composite) :
    ∀ st, (cs.foldl f st).entries.get? c' = if c' ∈ cs then none else st.entries.get? c' := by
  induction cs with
  | nil => simp
  | cons c cs ih =>
    intro st
    rw [List.foldl_cons, ih, one]
    by_cases first : c' = c <;> by_cases later : c' ∈ cs <;> simp [later]

theorem sharedArena_foldl {f : HostStore σ ρ → α → HostStore σ ρ}
    (one : ∀ st x, (f st x).sharedArena = st.sharedArena) (xs : List α) :
    ∀ st, (xs.foldl f st).sharedArena = st.sharedArena := by
  induction xs with
  | nil => exact fun _ => rfl
  | cons x xs ih => exact fun st => (ih _).trans (one st x)

/-- The key index lists the composites that have a row, each under its raw key. -/
def Lockstep : Prop :=
  ∀ key c, c ∈ st.bucket key ↔ c.key = key ∧ st.entries.get? c ≠ none

theorem mem_keyIndexAdd (c c' : Composite) (key : Bytes) :
    c' ∈ ((keyIndexAdd index c).get? key).getD [] ↔
      c' ∈ (index.get? key).getD [] ∨ (key = c.key ∧ c' = c) := by
  unfold keyIndexAdd
  cases found : index.get? c.key with
  | none =>
    by_cases same : key = c.key
    · simp [same, found]
    · simp [get?_set_of_ne same, same]
  | some bucket =>
    by_cases mem : c ∈ bucket
    · simp only [mem, if_true]
      by_cases same : key = c.key
      · simp only [same, found, true_and]
        constructor
        · exact .inl
        · rintro (here | rfl)
          · exact here
          · exact mem
      · simp [same]
    · simp only [mem]
      by_cases same : key = c.key
      · simp [same, found]
      · simp [get?_set_of_ne same, same]

theorem mem_keyIndexRemove (c c' : Composite) (key : Bytes) :
    c' ∈ ((keyIndexRemove index c).get? key).getD [] ↔
      c' ∈ (index.get? key).getD [] ∧ ¬(key = c.key ∧ c' = c) := by
  unfold keyIndexRemove
  cases found : index.get? c.key with
  | none =>
    by_cases same : key = c.key
    · simp [same, found]
    · simp [same]
  | some bucket =>
    have rest : c' ∈ bucket.filter (fun c' => decide (c' ≠ c)) ↔ c' ∈ bucket ∧ c' ≠ c := by
      simp
    by_cases empty : bucket.filter (fun c' => decide (c' ≠ c)) = []
    · rw [empty] at rest
      simp only [empty, if_true]
      by_cases same : key = c.key
      · simp only [same, get?_erase_self, found, true_and]
        exact rest
      · simp [get?_erase_of_ne same, same]
    · simp only [empty, if_false]
      by_cases same : key = c.key
      · simp only [same, get?_set_self, found, true_and]
        exact rest
      · simp [get?_set_of_ne same, same]

section
variable {st st' : HostStore σ ρ} (lock : st.Lockstep)
include lock

theorem Lockstep.congr (index : st'.keyIndex = st.keyIndex)
    (rows : ∀ c, st'.entries.get? c = none ↔ st.entries.get? c = none) : st'.Lockstep := by
  intro key c
  rw [bucket, index, ← bucket, lock key c, ne_eq, ne_eq, rows c]

theorem Lockstep.overwrite {c : Composite}
    (index : st'.keyIndex = st.keyIndex) {e e' : Entry} (row : st.entries.get? c = some e)
    (entries : st'.entries = st.entries.set c e') : st'.Lockstep := by
  refine lock.congr index fun c' => ?_
  rw [entries, get?_set]
  by_cases same : c' = c <;> simp [same, row]

theorem Lockstep.add {c : Composite} (index : st'.keyIndex = keyIndexAdd st.keyIndex c) {e : Entry}
    (entries : st'.entries = st.entries.set c e) : st'.Lockstep := by
  intro key c'
  rw [bucket, index, mem_keyIndexAdd, ← bucket, lock key c', entries, get?_set]
  by_cases same : c' = c
  · subst same
    simp only [and_true, ne_eq, if_true, reduceCtorEq, not_false_eq_true]
    constructor
    · rintro (⟨eq, -⟩ | eq)
      · exact eq
      · exact eq.symm
    · exact fun eq => .inr eq.symm
  · simp [same]

end

section
variable {st : HostStore σ ρ} (lock : st.Lockstep)
include lock

theorem Lockstep.dropRow (c : Composite) : (st.dropRow c).Lockstep := by
  intro key c'
  rw [get?_dropRow]
  unfold HostStore.dropRow
  split
  · rename_i absent
    rw [lock key c']
    by_cases same : c' = c <;> simp [same, absent]
  · rename_i e found
    rw [bucket, mem_keyIndexRemove, ← bucket, lock key c']
    by_cases same : c' = c
    · simp only [same, ne_eq, if_true, not_true_eq_false, and_false, iff_false, not_and]
      intro present
      simp [present.1]
    · simp [same]

theorem get?_dropBucket (key : Bytes) (c : Composite) :
    (st.dropBucket key).entries.get? c = if c.key = key then none else st.entries.get? c := by
  rw [dropBucket, get?_foldl_drop get?_dropEvicted]
  by_cases mem : c ∈ st.bucket key
  · rw [if_pos mem, if_pos ((lock key c).mp mem).1]
  · rw [if_neg mem]
    split_ifs with same
    · have absent := (lock key c).not.mp mem
      simpa [same] using absent
    · rfl

end

theorem lockstep_sheds : Sheds (Lockstep : HostStore σ ρ → Prop) where
  drop c lock := lock.dropRow c
  release _ lock := lock.congr (by simp) (by simp)
  drain lock := lock.congr (by simp) (by simp)
  stats _ lock := lock

theorem get?_dropBuckets (keys : List Bytes) (c : Composite) :
    ∀ st : HostStore σ ρ, st.Lockstep → (keys.foldl HostStore.dropBucket st).entries.get? c =
      if c.key ∈ keys then none else st.entries.get? c := by
  induction keys with
  | nil => simp
  | cons key keys ih =>
    intro st lock
    rw [List.foldl_cons, ih _ (lockstep_sheds.dropBucket lock key), get?_dropBucket lock]
    by_cases first : c.key = key <;> by_cases later : c.key ∈ keys <;> simp [later]

theorem drainEvicted_of_no_arena {st : HostStore σ ρ} (none : st.sharedArena = none) :
    st.drainEvicted = st := by
  simp [drainEvicted, none]

variable {st : HostStore σ ρ} {arena : SharedArena} (wired : st.sharedArena = some arena)
include wired

theorem get?_drainEvicted (lock : st.Lockstep) (c : Composite) : st.drainEvicted.entries.get? c =
      if c.key ∈ arena.recentEvictedKeys then none else st.entries.get? c := by
  simp only [drainEvicted, wired]
  exact get?_dropBuckets _ c _ (lock.congr rfl fun _ => Iff.rfl)

theorem sharedArena_drainEvicted :
    st.drainEvicted.sharedArena = some { arena with recentEvictedKeys := [] } := by
  simp only [drainEvicted, wired]
  rw [sharedArena_foldl]
  · rfl
  · exact fun st key => sharedArena_foldl sharedArena_dropEvicted _ st

end HostStore
end Infera.Kvd
