import Infera.Kvd.Server
import Infera.Kvd.StoreReads

/-! The states the daemon can be in. `Reachable` is every state reached from a
fresh store by any requests, connection ends, prefetches and engine writes; all
of them are `WellFormed`. -/

namespace Infera.Kvd
namespace HostStore
variable {σ ρ : Type}

theorem WellFormed.touch {st : HostStore σ ρ} (wf : st.WellFormed) {c : Composite} {e : Entry}
    (row : st.entries.get? c = some e) (t : ℚ) :
    WellFormed { st with entries := st.entries.set c { e with lastAccess := t } } := by
  refine wf.seat rfl (wf.lockstep.overwrite rfl row rfl) wf.ledger (wf.named c e row) ?_
    (.inl ⟨e, row, rfl, rfl⟩)
  exact fun unwired => ⟨unwired, wf.inline unwired c e row⟩

theorem WellFormed.skipOid {st : HostStore σ ρ} (wf : st.WellFormed) :
    WellFormed { st with nextOid := st.nextOid + 1 } :=
  { wf with oidBelow := fun c e row => (wf.oidBelow c e row).trans (Nat.lt_succ_self _) }

variable (st : HostStore σ ρ) (clk : Clock)

theorem sameRam_fetchLong [Region ρ] (c : Composite) : SameRam st (st.fetchLong clk c).1 := by
  unfold fetchLong
  split
  · exact .refl st
  · exact st.sameRam_setLongRegion _

theorem sameRam_fetchSpill [Region σ] (c : Composite) : SameRam st (st.fetchSpill clk c).1 := by
  unfold fetchSpill
  split
  · exact .refl st
  · exact st.sameRam_setSpillover _

theorem sameRam_readBatch [Region ρ]
    (misses : List (Nat × Composite)) : SameRam st (st.readBatch clk misses).1 := by
  unfold readBatch
  split
  · exact st.sameRam_setLongRegion _
  · exact .refl st

theorem wellFormed_touches : Touches (WellFormed : HostStore σ ρ → Prop) where
  stats _ stats wf := wf.stats stats
  remove _ c e wf _ := wellFormed_sheds.removeEntry c e wf
  touch _ _ _ t wf row := wf.touch row t

/-- A property of RAM alone that `set` keeps survives every lookup. -/
theorem Touches.reads [Region σ] [Region ρ] {P : HostStore σ ρ → Prop} (ram : Touches P)
    (oid : ∀ st, P st → P { st with nextOid := st.nextOid + 1 })
    (same : ∀ {st st'}, P st → SameRam st st' → P st')
    (set : ∀ {st}, P st → ∀ clk c value retention metadata ttl,
      P (st.set clk c value retention metadata ttl).1) :
    Reads (fun _ => True) (fun _ _ => True) fun _ => P where
  ram _ := ram
  weaken _ _ holds := holds
  oid _ := oid
  fetchLong _ st clk c holds _ := ⟨same holds (st.sameRam_fetchLong clk c), fun _ _ => trivial⟩
  fetchSpill _ st clk c holds _ := ⟨same holds (st.sameRam_fetchSpill clk c), fun _ _ => trivial⟩
  batch _ st clk misses holds _ _ :=
    ⟨same holds (st.sameRam_readBatch clk misses), fun _ _ _ _ _ _ _ => trivial⟩
  promote _ _ clk c f ttl holds _ _ := set holds clk c f.value f.retention f.metadata ttl

theorem wellFormed_reads [Region σ] [Region ρ] :
    Reads (fun _ => True) (fun _ _ => True) fun _ (st : HostStore σ ρ) => st.WellFormed :=
  wellFormed_touches.reads (fun _ wf => wf.skipOid) .sameRam .set

@[simp] theorem sharedArena_dropOverwritten (key : Option Bytes) :
    (st.dropOverwritten key).sharedArena = st.sharedArena := by
  unfold HostStore.dropOverwritten
  split
  · rfl
  · exact sharedArena_foldl sharedArena_dropRow _ _

variable {st}

section
variable (wf : st.WellFormed)
include wf

section
variable (wired : st.sharedArena ≠ none) (clk : Clock) (c : Composite) (slotId : Int) (length : Nat)
  (retention : Retention)
include wired

theorem WellFormed.seatLease (expiresAt : Option ℚ) :
    (st.seatLease clk c slotId length retention expiresAt).WellFormed := by
  unfold HostStore.seatLease
  split
  · rename_i e row
    exact wf.seat rfl (wf.lockstep.overwrite rfl row rfl) wf.ledger (wf.named c e row)
      (fun unwired => absurd unwired wired) (.inl ⟨e, row, rfl, rfl⟩)
  · exact wf.seat rfl (wf.lockstep.add rfl rfl) wf.ledger ⟨rfl, rfl, rfl⟩
      (fun unwired => absurd unwired wired) (.inr ⟨rfl, rfl⟩)

theorem WellFormed.commitArenaLease (ttl : Option ℚ) (overwrittenKey : Option Bytes) :
    (st.commitArenaLease clk c slotId length retention ttl overwrittenKey).WellFormed := by
  have dropped : (st.countSet.dropOverwritten overwrittenKey).WellFormed :=
    wellFormed_sheds.dropOverwritten (wf.stats _) overwrittenKey
  have wired' : (st.countSet.dropOverwritten overwrittenKey).sharedArena ≠ none := by
    rw [sharedArena_dropOverwritten]
    exact wired
  exact wellFormed_sheds.drainEvicted (dropped.seatLease wired' ..)

end

theorem WellFormed.clear [Region σ] [Region ρ]
    (model compatKey : String) : (st.clear model compatKey).1.WellFormed := by
  unfold HostStore.clear
  split_ifs
  · have freed := wellFormed_sheds.freed wf st.entries.values
    refine freed.shrink ?_ ?_ freed.ledger id rfl
    · intro key c
      simp [bucket]
    · exact fun c e found => absurd found (by simp)
  · exact (wellFormed_sheds.cleared wf _).sameRam ⟨rfl, rfl, rfl, rfl, rfl, rfl, rfl⟩

theorem WellFormed.recordAccepted (c : Composite)
    (value : Bytes) : (st.recordAccepted c value).WellFormed :=
  { wf with }

theorem WellFormed.setArena {arena arena' : SharedArena}
    (wired : st.sharedArena = some arena) (ledger : arena'.Ledger) :
    (st.setArena arena').WellFormed := by
  have mapped := wf.mapArena (fun _ => arena') fun _ _ _ => ledger
  simpa [HostStore.mapArena, wired] using mapped

end

variable (st)

end HostStore

namespace Server
variable {σ ρ : Type}
open HostStore
variable {st : HostStore σ ρ}

/-- A store as the daemon builds it: no rows, and an arena nobody has written to. -/
def Booted (st : HostStore σ ρ) : Prop :=
  ∃ maxBytes arena spillover longRegion accepted, (∀ a, arena = some a → a.Fresh) ∧
    st = HostStore.new maxBytes arena spillover longRegion accepted

theorem Booted.wellFormed (booted : Booted st) : st.WellFormed := by
  obtain ⟨maxBytes, arena, spillover, longRegion, accepted, fresh, rfl⟩ := booted
  refine ⟨?_, ?_, ?_, ?_, ?_, ?_⟩
  · intro key c
    simp [bucket, new]
  · intro a wired
    obtain ⟨capacity, -, rfl⟩ := fresh a wired
    exact SharedArena.ledger_new capacity
  all_goals simp [new]

section
variable (wf : st.WellFormed) (connectionId : Nat)
include wf

theorem wellFormed_dispatchReserve
    (size : Int) : (dispatchReserve st connectionId size).1.WellFormed := by
  unfold dispatchReserve
  split
  · exact wf
  · rename_i arena wired
    have reserved := wf.setArena wired ((wf.ledger arena wired).reserve size connectionId)
    simp only
    split <;> exact reserved

theorem wellFormed_dispatchCommit
    (clk : Clock) (token : Nat) (c : Composite) (length : Int) (retention : String) (ttl : ℚ) :
    (dispatchCommit st connectionId clk token c length retention ttl).1.WellFormed := by
  unfold dispatchCommit
  split
  · exact wf
  · rename_i arena wired
    have ledger := (wf.ledger arena wired).commitReservation token c.key length connectionId
    split
    · exact wf
    · simp only
      split
      · exact wf.setArena wired ledger
      · exact wf.setArena wired ledger
      · refine WellFormed.recordAccepted (WellFormed.commitArenaLease ?_ ?_ ..) ..
        · exact wf.setArena wired (ledger.getSlotForKey c.key)
        · exact Option.some_ne_none _

end

theorem ledger_engineStore {arena : SharedArena} (ledger : arena.Ledger) (token offset : Nat)
    (data : Bytes) : (engineStore arena token offset data).Ledger := by
  unfold engineStore
  split
  · exact ledger
  · split_ifs
    · exact ledger.setSlot _ _
    · exact ledger

variable [Region σ] [Region ρ]

theorem wellFormed_dispatchSet (wf : st.WellFormed) (clk : Clock)
    (c : Composite) (value : Bytes) (retention : String) (metadata : Metadata) (ttl : Option ℚ) :
    (dispatchSet st clk c value retention metadata ttl).1.WellFormed := by
  unfold dispatchSet
  split
  · exact wf
  · exact wf.set clk c value _ metadata ttl

theorem wellFormed_dispatchSets (model compatKey : String) (items : List BatchItem) :
    ∀ (st : HostStore σ ρ) (clk : Clock), st.WellFormed →
      (dispatchSets model compatKey st clk items).1.WellFormed := by
  induction items with
  | nil => exact fun _ _ wf => wf
  | cons item items ih =>
    intro st clk wf
    have one := wellFormed_dispatchSet wf clk ⟨model, compatKey, item.key⟩ item.value item.retention
      item.metadata item.ttl
    unfold dispatchSets
    simp only
    split
    · exact one
    · exact ih _ _ one

theorem wellFormed_dispatch (wf : st.WellFormed) (connectionId : Nat)
    (shared : Bool) (clk : Clock) (msg : Message) :
    (dispatch st connectionId shared clk msg).1.WellFormed := by
  cases msg with
  | get c =>
    have found := wellFormed_reads.get (n := 0) wf clk (c := c) trivial
    unfold dispatch
    simp only
    split <;> exact found
  | batchGet keys model compatKey =>
    have found : (st.getMany clk (keys.map fun k => ⟨model, compatKey, k⟩)).1.WellFormed :=
      wellFormed_reads.getMany (n := 0) wf clk fun _ _ => trivial
    unfold dispatch
    simp only
    split <;> exact found
  | set c value retention metadata ttl =>
    have stored := wellFormed_dispatchSet wf clk c value retention metadata ttl
    unfold dispatch
    simp only
    split <;> exact stored
  | batchSet keys values retentions metadatas ttls model compatKey =>
    have stored := wellFormed_dispatchSets model compatKey
      (batchItems keys values retentions metadatas ttls) st clk wf
    unfold dispatch
    simp only
    split_ifs
    · split <;> exact stored
    · exact wf
  | setReserve size => exact wellFormed_dispatchReserve wf connectionId size
  | setCommit token c length retention ttl =>
    exact wellFormed_dispatchCommit wf connectionId clk token c length retention ttl
  | setCancel token =>
    exact wf.mapArena _ fun _ _ ledger => ledger.cancelReservation token connectionId
  | «exists» keys model compatKey =>
    exact wellFormed_touches.existsKeys wf clk _
  | clear model compatKey => exact wf.clear model compatKey

theorem wellFormed_step (wf : st.WellFormed) (event : Event) : (step st event).WellFormed := by
  cases event with
  | request connectionId shared clk msg => exact wellFormed_dispatch wf connectionId shared clk msg
  | disconnect connectionId =>
    exact wf.mapArena _ fun _ _ ledger => ledger.cancelConnectionReservations connectionId
  | prefetch clk c deadlineMs =>
    exact wellFormed_reads.warmFromSsd (fun _ _ _ _ => trivial) (n := 0) wf clk trivial _
  | engineWrite token offset data =>
    exact wf.mapArena _ fun _ _ ledger => ledger_engineStore ledger token offset data

def Reachable : HostStore σ ρ → Prop := Reaches Booted step fun _ _ => True

theorem Reachable.wellFormed (reached : Reachable st) : st.WellFormed := by
  have start : ∀ st : HostStore σ ρ, Booted st → st.WellFormed := fun _ booted => booted.wellFormed
  exact Reaches.invariant start (fun _ event wf _ => wellFormed_step wf event) reached

end Server
end Infera.Kvd
