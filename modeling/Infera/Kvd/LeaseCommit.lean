import Infera.Kvd.SetThenGet

/-! Reading back a committed lease. `SetCommit` stamps the leased slot, hands its
index to the store and drains the log. The index is passed as
`get_slot_for_key(key) or -1`, so slot 0 arrives as `-1`. -/

namespace Infera.Kvd
open SharedArena List Option

namespace SharedArena

theorem Ledger.lease_lt {a : SharedArena} (wf : a.Ledger) {token : Nat} {lease : Reservation}
    (held : a.reservations.get? token = some lease) : lease.slotId < a.numSlots := by
  have mem : lease.slotId ∈ a.leasedSlots :=
    mem_map.mpr ⟨lease, Dict.mem_values_iff.mpr ⟨token, held⟩, rfl⟩
  have inAll : lease.slotId ∈ a.allSlots := mem_append_right _ (mem_append_right _ mem)
  exact mem_range.mp (wf.balanced.mem_iff.mp inAll)

structure Committed (a b : SharedArena) (token : Nat) (key : Bytes) (length : Nat)
    (lease : Reservation) : Prop where
  held : a.reservations.get? token = some lease
  promised : length ≤ lease.promisedSize
  index : b.slotIndex.get? key = some lease.slotId
  version : (b.slots lease.slotId).version % 2 = 0
  length_eq : (b.slots lease.slotId).length = length
  payload : (b.slots lease.slotId).payload = (a.slots lease.slotId).payload
  slotSize : b.slotSize = a.slotSize
  numSlots : b.numSlots = a.numSlots
  log : b.recentEvictedKeys = a.recentEvictedKeys

theorem stampCommitted_ok {s : Slot} {length : Nat} (ok : (s.stampCommitted length).2 = .ok ()) :
    (s.stampCommitted length).1.version % 2 = 0 ∧ (s.stampCommitted length).1.length = length ∧
      (s.stampCommitted length).1.payload = s.payload := by
  unfold Slot.stampCommitted at ok ⊢
  by_cases odd : s.version % 2 = 1
  all_goals
    simp only [odd, if_false] at ok ⊢
    split_ifs at ok ⊢
    refine ⟨?_, rfl, rfl⟩
    dsimp only
    omega

theorem committed_of_ok {a : SharedArena} {token : Nat} {key : Bytes} {length : Int}
    {connectionId : Nat} {overwritten : Option Bytes}
    (ok : (a.commitReservation token key length connectionId).2 = .ok (.committed overwritten)) :
    0 ≤ length ∧ ∃ lease, Committed a (a.commitReservation token key length connectionId).1 token key
      length.toNat lease := by
  unfold commitReservation at ok ⊢
  split at ok
  · simp at ok
  · rename_i lease held
    split_ifs at ok ⊢ with owner size
    · simp at ok
    · simp at ok
    · have stamped : ((a.slots lease.slotId).stampCommitted length.toNat).2 = .ok () := by
        cases stamp : ((a.slots lease.slotId).stampCommitted length.toNat).2 with
        | error e => simp [stamp, Except.map] at ok
        | ok u => rfl
      obtain ⟨version, size', payload⟩ := stampCommitted_ok stamped
      refine ⟨by omega, lease, held, by omega, ?_, ?_, ?_, ?_, rfl, rfl, rfl⟩
      · simp
      · simpa using version
      · simpa using size'
      · simpa using payload

theorem Committed.getSlotForKey {a b : SharedArena} {token length : Nat} {key : Bytes}
    {lease : Reservation} (committed : Committed a b token key length lease) :
    (b.getSlotForKey key).2 = some lease.slotId ∧
      Committed a (b.getSlotForKey key).1 token key length lease := by
  simp only [SharedArena.getSlotForKey, committed.index, true_and]
  exact { committed with index := by simp }

end SharedArena

namespace Server
variable {σ ρ : Type} {st : HostStore σ ρ}
open HostStore

theorem getSlice_inv {a : SharedArena} {slot : Nat} {v : Bytes} (slice : a.getSlice slot = some v) :
    slot < a.numSlots ∧ (a.slots slot).version % 2 = 0 ∧
      v = (a.slots slot).bytes (a.slots slot).length := by
  unfold getSlice at slice
  simp only [Int.toNat_natCast] at slice
  split_ifs at slice with range odd long
  exact ⟨by omega, by omega, (some.inj slice).symm⟩

variable (st) (clk : Clock) (c : Composite) (slotId : Int) (length : Nat) (retention : Retention)
  (expiresAt : Option ℚ)

/-- The bytes a `Get` response designates: its value, or what the client's seqlock reader finds
under the slot triple. -/
def designated : Response → Option Bytes
  | .getResponse value _ => value
  | .getSharedResponse triple _ _ =>
    st.sharedArena.bind fun arena =>
      arena.readSlotSeqlock triple.offset.toNat triple.length triple.version
  | _ => none

theorem designated_respondEntry {st st' : HostStore σ ρ} {a : SharedArena}
    (wired : st.sharedArena = some a) (same : st'.sharedArena = some a) {e : Entry} {slot : Nat}
    (backed : e.slotId = slot) {v : Bytes} (slice : a.getSlice slot = some v) (size : 0 < a.slotSize)
    (shared : Bool) : designated st' (respondEntry st shared e) = some v := by
  obtain ⟨inside, stable, rfl⟩ := getSlice_inv slice
  unfold respondEntry
  split_ifs with isShared
  · have range : ¬((slot : Int) < 0 ∨ (slot : Int) ≥ a.numSlots) := by omega
    have index : slot * a.slotSize / a.slotSize = slot := Nat.mul_div_cancel slot size
    have offset : ((slot : Int) * (a.slotSize : Int) + (headerBytes : Int)).toNat =
        slot * a.slotSize + headerBytes := by
      rw [← Nat.cast_mul, ← Nat.cast_add, Int.toNat_natCast]
    simp only [wired, entryTriple, backed, getSlotMetadata, if_neg range,
      Int.toNat_natCast, map_some, designated, same,
      readSlotSeqlock, Nat.cast_add, Nat.cast_mul, offset]
    simp [index, stable]
  · simp [designated, resolveValue, backed, wired, slice]

theorem slotOrMinusOne_some {slot : Nat} (nonzero : slot ≠ 0) : slotOrMinusOne (some slot) = slot := by
  cases slot with
  | zero => exact absurd rfl nonzero
  | succ n => rfl

/-- What an accepted `SetCommit` leaves: the arena's commit, the row over it, the drain. -/
structure CommitAccepted (st st' : HostStore σ ρ) (clk : Clock) (token : Nat) (c : Composite)
    (length : Int) (ttl : ℚ) (arena arena' : SharedArena) (lease : Reservation)
    (seated : HostStore σ ρ) (e : Entry) : Prop where
  wired : st.sharedArena = some arena
  nonneg : 0 ≤ length
  committed : SharedArena.Committed arena arena' token c.key length.toNat lease
  seatedArena : seated.sharedArena = some arena'
  seatedWf : seated.WellFormed
  row : seated.entries.get? c = some e
  slotId : e.slotId = slotOrMinusOne (some lease.slotId)
  value : e.value = []
  expiresAt : e.expiresAt = if ttl > 0 then some (clk 0 + ttl) else none
  entries : st'.entries = seated.drainEvicted.entries
  arena_eq : st'.sharedArena = seated.drainEvicted.sharedArena
  tiers : st'.spillover = st.spillover ∧ st'.longRegion = st.longRegion

theorem sameTiers_seatLease :
    SameTiers st (st.seatLease clk c slotId length retention expiresAt) := by
  unfold seatLease
  split <;> exact ⟨rfl, rfl, rfl, rfl⟩

theorem seatLease_row :
    (st.seatLease clk c slotId length retention expiresAt).sharedArena = st.sharedArena ∧
      ∃ e, (st.seatLease clk c slotId length retention expiresAt).entries = st.entries.set c e ∧
        e.slotId = slotId ∧ e.value = [] ∧ e.expiresAt = expiresAt := by
  unfold seatLease
  split <;> exact ⟨rfl, _, rfl, rfl, rfl, rfl⟩

variable {st}

theorem commitAccepted_of_response (wf : st.WellFormed) {connectionId : Nat}
    {clk : Clock} {token : Nat} {c : Composite} {length : Int} {retention : String} {ttl : ℚ}
    (accepted : (dispatchCommit st connectionId clk token c length retention ttl).2 =
      .setCommitResponse true "") :
    ∃ arena arena' lease seated e, CommitAccepted st
      (dispatchCommit st connectionId clk token c length retention ttl).1 clk token c length ttl
      arena arena' lease seated e := by
  unfold dispatchCommit at accepted ⊢
  split at accepted
  · simp at accepted
  rename_i arena wired
  split at accepted
  · simp at accepted
  rename_i retention' _
  simp only at accepted ⊢
  split at accepted
  · simp at accepted
  · simp at accepted
  rename_i overwritten ok
  obtain ⟨nonneg, lease, committed⟩ := committed_of_ok ok
  obtain ⟨slot, committed⟩ := committed.getSlotForKey
  have ledger := ((wf.ledger arena wired).commitReservation token c.key length connectionId).getSlotForKey
    c.key
  generalize (arena.commitReservation token c.key length connectionId).1.getSlotForKey c.key = found
    at *
  obtain ⟨arena', slot'⟩ := found
  subst slot
  -- the row is seated over the committed arena, the drain follows
  have placedWf : ((st.setArena arena').countSet.dropOverwritten overwritten).WellFormed :=
    wellFormed_sheds.dropOverwritten ((wf.setArena wired ledger).stats _) overwritten
  have placedArena : ((st.setArena arena').countSet.dropOverwritten overwritten).sharedArena =
      some arena' := sharedArena_dropOverwritten _ _
  have placedTiers := (SameTiers.sheds (st.setArena arena').countSet).dropOverwritten (.refl _)
    overwritten
  have expires : leaseDeadline clk (if ttl > 0 then some ttl else none) =
      if ttl > 0 then some (clk 0 + ttl) else none := by
    by_cases positive : ttl > 0 <;> simp [leaseDeadline, positive]
  unfold commitArenaLease
  generalize leaseDeadline clk (if ttl > 0 then some ttl else none) = expiresAt at *
  generalize (st.setArena arena').countSet.dropOverwritten overwritten = placed at *
  have seatedWf := placedWf.seatLease (by simp [placedArena]) clk c (slotOrMinusOne (some lease.slotId))
    length.toNat retention' expiresAt
  have seatedTiers := sameTiers_seatLease placed clk c (slotOrMinusOne (some lease.slotId))
    length.toNat retention' expiresAt
  obtain ⟨seatedArena, e, entries, slotId, value, deadline⟩ := seatLease_row placed clk c
    (slotOrMinusOne (some lease.slotId)) length.toNat retention' expiresAt
  generalize placed.seatLease clk c (slotOrMinusOne (some lease.slotId)) length.toNat retention'
    expiresAt = seated at *
  have tiers := (SameTiers.sheds _).drainEvicted (placedTiers.trans seatedTiers)
  exact ⟨arena, arena', lease, seated, e, wired, nonneg, committed, seatedArena.trans placedArena, seatedWf,
    by simp [entries], slotId, value, deadline.trans expires, rfl, rfl, tiers.spillover,
    tiers.longRegion⟩

variable [Region σ] [Region ρ]

section
variable (st : HostStore σ ρ)

def getDesignated (reader : Nat) (shared : Bool) (clk : Clock) (c : Composite) : Option Bytes :=
  designated (dispatch st reader shared clk (.get c)).1 (dispatch st reader shared clk (.get c)).2

/-- A `Get` after an accepted `SetCommit` designates the first `length` payload bytes of the slot
the lease reserved. -/
def CommitReadsBack (connectionId : Nat) (clk : Clock) (token : Nat)
    (c : Composite) (length : Int) (retention : String) (ttl : ℚ) (reader : Nat) (shared : Bool)
    (clk' : Clock) : Prop :=
  (dispatchCommit st connectionId clk token c length retention ttl).2 =
      .setCommitResponse true "" → (ttl > 0 → clk' 0 < clk 0 + ttl) →
    ∀ arena lease, st.sharedArena = some arena → arena.reservations.get? token = some lease →
      getDesignated (dispatchCommit st connectionId clk token c length retention ttl).1 reader shared
        clk' c = some ((arena.slots lease.slotId).bytes length.toNat)

/-- The slot index survives the hand-over: it is not 0, or there is nothing to read. -/
def HandedOver (token : Nat) (length : Int) : Prop :=
  ∀ arena lease, st.sharedArena = some arena → arena.reservations.get? token = some lease →
    lease.slotId ≠ 0 ∨ length = 0

end

theorem dispatch_get_of_row {c : Composite} {e : Entry}
    (row : st.entries.get? c = some e) {clk : Clock} (live : e.isExpired (clk 0) = false)
    (reader : Nat) (shared : Bool) :
    (dispatch st reader shared clk (.get c)).1.sharedArena = st.sharedArena ∧
      (dispatch st reader shared clk (.get c)).2 =
        respondEntry st shared { e with lastAccess := clk 1 } := by
  obtain ⟨hit, arena⟩ := get_of_row row live
  unfold dispatch
  simp only [hit]
  refine ⟨arena, ?_⟩
  simp [respondEntry, resolveValue, arena]

section
variable {st st' : HostStore σ ρ} {clk clk' : Clock} {token : Nat} {c : Composite} {length : Int}
  {ttl : ℚ} {arena arena' : SharedArena} {lease : Reservation} {seated : HostStore σ ρ} {e : Entry}

section
omit [Region σ] [Region ρ]
variable (done : CommitAccepted st st' clk token c length ttl arena arena' lease seated e)
include done

theorem CommitAccepted.notices : seated.pendingNotices = st.pendingNotices := by
  simp [pendingNotices, done.seatedArena, done.wired, done.committed.log]

theorem CommitAccepted.live
    (unexpired : ttl > 0 → clk' 0 < clk 0 + ttl) : e.isExpired (clk' 0) = false := by
  unfold Entry.isExpired
  rw [done.expiresAt]
  by_cases positive : ttl > 0
  · simpa [positive] using unexpired positive
  · simp [positive]

theorem CommitAccepted.slot (wf : st.WellFormed) :
    arena'.getSlice lease.slotId = some ((arena.slots lease.slotId).bytes length.toNat) ∧
      0 < arena'.slotSize := by
  have inside := (wf.ledger arena done.wired).lease_lt done.committed.held
  have fits := (wf.ledger arena done.wired).leaseFits token lease done.committed.held
  rw [← done.committed.numSlots] at inside
  rw [← done.committed.slotSize] at fits
  have header : headerBytes = 16 := rfl
  have promised := done.committed.promised
  refine ⟨getSlice_eq_some inside done.committed.version ?_ ?_, by omega⟩
  · rw [done.committed.length_eq]
    omega
  · rw [done.committed.length_eq, Slot.bytes, done.committed.payload]
    rfl

end

theorem CommitAccepted.designated_row (wf : st.WellFormed)
    (done : CommitAccepted st st' clk token c length ttl arena arena' lease seated e)
    (present : st'.entries.get? c = some e) (unexpired : ttl > 0 → clk' 0 < clk 0 + ttl)
    (reader : Nat) (shared : Bool) : getDesignated st' reader shared clk' c =
      if lease.slotId = 0 then some [] else
        some ((arena.slots lease.slotId).bytes length.toNat) := by
  obtain ⟨sameArena, response⟩ := dispatch_get_of_row present (done.live unexpired) reader shared
  obtain ⟨slice, sized⟩ := done.slot wf
  have wired : st'.sharedArena = some { arena' with recentEvictedKeys := [] } :=
    done.arena_eq.trans (sharedArena_drainEvicted done.seatedArena)
  rw [getDesignated, response]
  have slotId := done.slotId
  split_ifs with zero
  · have inline : e.slotId = -1 := by rw [slotId, zero]; rfl
    simp [respondEntry, inline, resolveValue, done.value, designated]
  · rw [slotOrMinusOne_some zero] at slotId
    exact designated_respondEntry wired (sameArena.trans wired) slotId slice sized shared

end

theorem commitReadsBack_of_handedOver (wf : st.WellFormed) (connectionId : Nat)
    (clk : Clock) (token : Nat) (c : Composite) (length : Int) (retention : String) (ttl : ℚ)
    (reader : Nat) (shared : Bool) (clk' : Clock) (unnoticed : c.key ∉ st.pendingNotices)
    (handed : HandedOver st token length) :
    CommitReadsBack st connectionId clk token c length retention ttl reader shared clk' := by
  intro accepted unexpired arena lease wired held
  obtain ⟨a, a', lease', seated, e, done⟩ := commitAccepted_of_response wf accepted
  obtain rfl : arena = a := some.inj (wired.symm.trans done.wired)
  obtain rfl : lease = lease' := some.inj (held.symm.trans done.committed.held)
  have present : (dispatchCommit st connectionId clk token c length retention ttl).1.entries.get? c =
      some e := by
    rw [done.entries, get?_drain done.seatedWf.lockstep, done.notices, if_neg unnoticed]
    exact done.row
  refine (done.designated_row wf present unexpired reader shared).trans ?_
  split_ifs with zero
  · rcases handed arena lease wired held with nonzero | rfl
    · exact absurd zero nonzero
    · rfl
  · rfl

/-- In every reachable state a committed lease reads back when its slot index is not 0, or it is
empty, and no pending notice names its key; with no copy in a lower tier, only then. -/
theorem commitReadsBack_iff_handedOver {st : HostStore σ ρ} (reached : Reachable st)
    (connectionId : Nat) (clk : Clock) (token : Nat) (c : Composite)
    (length : Int) (retention : String) (ttl : ℚ) (reader : Nat) (shared : Bool) (clk' : Clock) :
    (c.key ∉ st.pendingNotices → HandedOver st token length →
        CommitReadsBack st connectionId clk token c length retention ttl reader shared clk') ∧
      ∀ [LawfulRegion σ] [LawfulRegion ρ],
        (dispatchCommit st connectionId clk token c length retention ttl).2 =
          .setCommitResponse true "" → (ttl > 0 → clk' 0 < clk 0 + ttl) → st.NotBelow c →
        (CommitReadsBack st connectionId clk token c length retention ttl reader shared clk' ↔
          c.key ∉ st.pendingNotices ∧ HandedOver st token length) := by
  have wf := reached.wellFormed
  have reads := commitReadsBack_of_handedOver wf connectionId clk token c length retention ttl
    reader shared clk'
  refine ⟨reads, fun accepted unexpired below => ⟨fun back => ?_, fun both => reads both.1 both.2⟩⟩
  obtain ⟨arena, arena', lease, seated, e, done⟩ := commitAccepted_of_response wf accepted
  have designates := back accepted unexpired arena lease done.wired done.committed.held
  generalize (dispatchCommit st connectionId clk token c length retention ttl).1 = st' at *
  have rows : st'.entries.get? c = if c.key ∈ st.pendingNotices then none else some e := by
    rw [done.entries, get?_drain done.seatedWf.lockstep, done.notices, done.row]
  have unnoticed : c.key ∉ st.pendingNotices := by
    intro noticed
    rw [if_pos noticed] at rows
    have rows' : st'.countGet.entries.get? c = none := rows
    have below' : st'.countGet.NotBelow c := below.congr done.tiers.1 done.tiers.2
    have miss : (st'.get clk' c).2 = .ok none := by
      simp only [HostStore.get, rows']
      exact getBelow_of_notBelow below' clk'
    simp [getDesignated, dispatch, miss, designated] at designates
  refine ⟨unnoticed, fun a l wired held => ?_⟩
  obtain rfl : a = arena := some.inj (wired.symm.trans done.wired)
  obtain rfl : l = lease := some.inj (held.symm.trans done.committed.held)
  rw [if_neg unnoticed] at rows
  rw [done.designated_row wf rows unexpired reader shared] at designates
  by_contra neither
  simp only [not_or, not_not] at neither
  rw [if_pos neither.1] at designates
  have sizes := congrArg List.length (some.inj designates)
  have nonneg := done.nonneg
  simp only [length_nil, Slot.bytes, length_map, length_range] at sizes
  omega

def leasedZero : HostStore TablespaceLongRegion TablespaceLongRegion :=
  [Event.request 1 true (fun _ => 0) (.setReserve 8), .engineWrite 1 0 [7]].foldl step
    (HostStore.new 100 (some (SharedArena.new 64)) none none [])

theorem reachable_leasedZero : Reachable leasedZero :=
  Reaches.unconditional _ ⟨100, _, none, none, [], fun _ wired => ⟨64, by decide,
    (some.inj wired).symm⟩, rfl⟩

/-- The commit of slot 0 is accepted and the following `Get` returns no bytes. -/
theorem commit_of_slot_zero_lost :
    Reachable leasedZero ∧
      (dispatchCommit leasedZero 1 (fun _ => 0) 1 ⟨"m", "", [1]⟩ 1 "short" 0).2 =
        .setCommitResponse true "" ∧
      ¬CommitReadsBack leasedZero 1 (fun _ => 0) 1 ⟨"m", "", [1]⟩ 1 "short" 0 1 true
        (fun _ => 0) := by
  have accepted : (dispatchCommit leasedZero 1 (fun _ => 0) 1 ⟨"m", "", [1]⟩ 1 "short" 0).2 =
      .setCommitResponse true "" := by decide
  refine ⟨reachable_leasedZero, accepted, fun back => ?_⟩
  have designates := back accepted (by decide) _ ⟨0, 8, 1⟩ rfl (by decide)
  revert designates
  decide

theorem commit_of_slot_one_kept :
    let st : HostStore TablespaceLongRegion TablespaceLongRegion :=
      [Event.request 1 true (fun _ => 0) (.setReserve 8), .engineWrite 1 0 [7]].foldl step
        (HostStore.new 100 (some (SharedArena.new 128)) none none [])
    (dispatchCommit st 1 (fun _ => 0) 1 ⟨"m", "", [1]⟩ 1 "short" 5).2 = .setCommitResponse true "" ∧
      CommitReadsBack st 1 (fun _ => 0) 1 ⟨"m", "", [1]⟩ 1 "short" 5 2 true (fun _ => 4) := by
  intro st
  have reached : Reachable st := Reaches.unconditional _ ⟨100, _, none, none, [],
    fun _ wired => ⟨128, by decide, (some.inj wired).symm⟩, rfl⟩
  refine ⟨by decide, (commitReadsBack_iff_handedOver reached 1 (fun _ => 0) 1 ⟨"m", "", [1]⟩ 1 "short"
    5 2 true (fun _ => 4)).1 (by decide) ?_⟩
  intro arena lease wired held
  obtain rfl := some.inj wired
  have lease_eq : lease = ⟨1, 8, 1⟩ := some.inj (held.symm.trans (by decide))
  exact .inl (by simp [lease_eq])

end Server
end Infera.Kvd
