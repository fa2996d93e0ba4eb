import Infera.Kvd.TablespaceRuns

/-! Crash safety of the tablespace region: sessions of operations, each ended by a
crash between two operations, and what the next `start` finds. An eviction inside
`put` frees the victim's slot without a journal entry, so the journal may name one
slot for two composites (`evicted_block_restored_over`). In a run in which no
write evicts, the journal's places are those of the index, and every restored
block is the last one accepted (`restores_last_of_evictionless`). -/

namespace Infera.Kvd
open JsonLines TablespaceLongRegion Function Option

/-- A region in use and, per composite, the block of its last accepted `put`. -/
structure Session where
  region : TablespaceLongRegion
  last : Composite → Option Bytes

namespace Session
variable {allocator : BitsetAllocator} {ops : List JournalOp} {s : Session} (cfg : TablespaceConfig)

inductive Event where
  | op (op : TablespaceOp)
  | crash (clk : Clock)

def recordLast (last : Composite → Option Bytes) : Option (Composite × Bytes) →
    Composite → Option Bytes
  | none => last
  | some (c, value) => update last c (some value)

section
variable (s : Session)

def step : Event → Session
  | .op op => ⟨s.region.perform op, recordLast s.last (s.region.acceptedPut op)⟩
  | .crash clk =>
    match s.region.restart clk with
    | .ok region => { s with region }
    | .error _ => s

def Fresh : Prop :=
  ∃ cfg disk clk, disk.journal = [] ∧ disk.snapshot = none ∧ disk.snapshotBak = none ∧
    (new cfg disk).start clk = .ok s.region ∧ s.last = fun _ => none

/-- After a crash now, `start` succeeds, every block it brings back is the last one accepted, and no
two restored entries share a slot. -/
def RestoresLast : Prop :=
  ∀ clk, ∃ r, s.region.restart clk = .ok r ∧
    (∀ clk' c v, (r.getBytes clk' c).2 = some v → s.last c = some v) ∧
    ∀ c c' e e', r.getEntry c = some e → r.getEntry c' = some e' →
      e.containerIdx = e'.containerIdx → e.slotIdx = e'.slotIdx → c = c'

/-- A `put` that passes the entry checks has room without evicting; over a resident block it can be
journaled and its container write succeeds. -/
def Evictionless : Event → Prop
  | .op (.put _ c value retention metadata fault) =>
    s.region.Admitted value retention →
      (s.region.entries.get? c = none → s.region.hasRoom value.length = true) ∧
        (s.region.entries.get? c ≠ none → metadata.encodable = true ∧ fault = none)
  | _ => True

end

/-- The index has every place the journal names, and its block is the last one accepted. -/
structure Durable (s : Session) (ops : List JournalOp) : Prop where
  valid : s.region.Valid
  logged : Logged s.region ops []
  resident : ∀ c loc, placements ops c = some loc →
    (s.region.entries.get? c).map TablespaceEntry.placement = some loc
  current : ∀ c loc, placements ops c = some loc → s.last c = s.region.held c

theorem durable_of_fresh (fresh : Fresh s) : ∃ ops, Durable s ops := by
  obtain ⟨cfg, disk, clk, journal, snapshot, bak, started, last⟩ := fresh
  obtain ⟨valid, logged⟩ := start_empty journal snapshot bak started
  exact ⟨[], valid, logged, fun c loc named => by simp [placements] at named,
    fun c loc named => by simp [placements] at named⟩

section
variable (durable : Durable s ops) (clk : Clock) (c : Composite)
include durable

theorem Durable.fits (loc : Placement) (named : placements ops c = some loc) :
    loc.Fits s.region.cfg := by
  obtain ⟨e, found, rfl⟩ := map_eq_some_iff.mp (durable.resident c loc named)
  exact durable.valid.fits c e found

theorem Durable.restart : ∃ r, s.region.restart clk = .ok r ∧ Restored s.region (placements ops) r ∧
      Durable { s with region := r } ops := by
  obtain ⟨r, ok, restored⟩ := durable.logged.restart durable.fits clk
  have populated := restored.populated
  have named : ∀ c e, r.entries.get? c = some e → placements ops c = some e.placement :=
    fun c e found => by rw [← populated.entries c, found, map_some]
  refine ⟨r, ok, restored, ?_, durable.logged.congr restored.sameLog,
    fun c loc at_c => (populated.entries c).trans at_c, fun c loc at_c => ?_⟩
  · refine ⟨⟨restored.started, populated.grid, fun c e found => ?_⟩, fun c e found => ?_,
      fun c c' e e' found found' same => ?_⟩
    · rw [restored.cfg]
      exact durable.fits c _ (named c e found)
    · exact (populated.bits _).mpr ⟨c, e.placement, named c e found, rfl⟩
    · obtain ⟨e₀, found₀, place₀⟩ := map_eq_some_iff.mp (durable.resident c _ (named c e found))
      obtain ⟨e₀', found₀', place₀'⟩ :=
        map_eq_some_iff.mp (durable.resident c' _ (named c' e' found'))
      refine durable.valid.apart c c' e₀ e₀' found₀ found₀' ?_
      rw [restored.cfg] at same
      calc e₀.slotGlobal s.region.cfg = e₀.placement.slotGlobal s.region.cfg := rfl
        _ = e₀'.placement.slotGlobal s.region.cfg := by rw [place₀, place₀']; exact same
  · rw [durable.current c loc at_c]
    obtain ⟨e, found, place⟩ := map_eq_some_iff.mp ((populated.entries c).trans at_c)
    obtain ⟨e₀, found₀, place₀⟩ := map_eq_some_iff.mp (durable.resident c loc at_c)
    have block : ∀ e : TablespaceEntry, e.placement = loc →
        s.region.disk.slotBytes e.containerIdx e.slotIdx e.sizeBytes =
          s.region.disk.slotBytes loc.container loc.slot loc.size := by
      rintro e rfl
      rfl
    simp [held, found, found₀, restored.disk, block e place, block e₀ place₀]

theorem Durable.restoresLast : RestoresLast s := by
  intro clk
  obtain ⟨r, ok, restored, again⟩ := durable.restart clk
  refine ⟨r, ok, fun clk' c v hit => ?_, fun c c' e e' found found' container slot => ?_⟩
  · have block := getBytes_held hit
    obtain ⟨e, found, -⟩ := map_eq_some_iff.mp block
    have named : placements ops c = some e.placement := by
      rw [← restored.populated.entries c, found, map_some]
    exact (again.current c _ named).trans block
  · refine again.valid.apart c c' e e' found found' ?_
    rw [TablespaceEntry.slotGlobal, TablespaceEntry.slotGlobal, container, slot]

section
variable {c : Composite} {value : Bytes} {metadata : Metadata} {e : TablespaceEntry}
  (seat : Seat s.region c value metadata s.region e allocator) (used : Int)
include seat

theorem Durable.journaled (encodable : metadata.encodable = true) (ts : JsonFloat) :
    let op := JournalOp.put c e.placement .long metadata ts
    let seated := s.region.seat c e value allocator used
    Durable ⟨{ seated with disk := { seated.disk with
      journal := seated.disk.journal ++ line op.toJson } },
      update s.last c (some value)⟩ (ops ++ [op]) := by
  intro op seated
  have place : placements (ops ++ [op]) = update (placements ops) c (some e.placement) :=
    placements_append ops op
  refine ⟨(seat.valid durable.valid used).journaled _,
    durable.logged.append (seat.appended used op) encodable, fun c' loc named => ?_,
    fun c' loc named => ?_⟩
  · rw [place] at named
    rw [get?_seat]
    by_cases same : c' = c
    · simpa [same] using named
    · simpa [same] using durable.resident c' loc (by simpa [same] using named)
  · rw [place] at named
    change update s.last c (some value) c' = (s.region.seat c e value allocator used).held c'
    by_cases same : c' = c
    · rw [same, seat.held_self used, update_self]
    · rw [seat.held_other durable.valid used same, update_of_ne same]
      exact durable.current c' loc (by simpa [same] using named)

theorem Durable.unjournaled (absent : s.region.entries.get? c = none) :
    Durable ⟨s.region.seat c e value allocator used, s.last⟩ ops := by
  have other : ∀ c' loc, placements ops c' = some loc → c' ≠ c := fun c' loc named same => by
    have resident := durable.resident c' loc named
    simp [same, absent] at resident
  refine ⟨seat.valid durable.valid used, durable.logged.congr (seat.sameLog used),
    fun c' loc named => ?_, fun c' loc named => ?_⟩
  · rw [get?_seat, if_neg (other c' loc named)]
    exact durable.resident c' loc named
  · rw [seat.held_other durable.valid used (other c' loc named)]
    exact durable.current c' loc named

end

theorem Durable.spoiled {slotGlobal : Nat}
    (took : BitsetAllocator.Allocated s.region.allocator allocator slotGlobal) (used : Int)
    (contents : Nat → UInt8) : Durable ⟨{ s.region with
      allocator := allocator.free slotGlobal
      usedBytes := used
      disk := s.region.disk.setSlot (slotGlobal / s.region.cfg.slotsPerContainer)
        (slotGlobal % s.region.cfg.slotsPerContainer) contents }, s.last⟩ ops := by
  have away : ∀ c e, s.region.entries.get? c = some e →
      e.slotGlobal s.region.cfg ≠ slotGlobal := fun c e found same => by
    have set := durable.valid.taken c e found
    rw [same, took.wasFree] at set
    exact Bool.false_ne_true set
  refine ⟨⟨⟨durable.valid.started, ?_, durable.valid.fits⟩, fun c e found => ?_,
    durable.valid.apart⟩, durable.logged.congr ⟨rfl, rfl, rfl, rfl⟩, durable.resident,
    fun c loc named => ?_⟩
  · exact (durable.valid.grid.trans took.grid).trans (BitsetAllocator.sameGrid_free _ _)
  · simp only
    rw [BitsetAllocator.bits_free_of_ne _ (away c e found), took.bits,
      update_of_ne (away c e found)]
    exact durable.valid.taken c e found
  · obtain ⟨e, found, -⟩ := map_eq_some_iff.mp (durable.resident c loc named)
    rw [durable.current c loc named]
    simp only [held, found, map_some]
    rw [TablespaceDisk.slotBytes_setSlot]
    rintro ⟨container, slot⟩
    refine away c e found ?_
    rw [TablespaceEntry.slotGlobal, container, slot, Nat.div_add_mod']

theorem Durable.put (value : Bytes)
    (retention : Retention) (metadata : Metadata) (fault : Option WriteFault)
    (meets : Evictionless s (.op (.put clk c value retention metadata fault))) :
    ∃ ops', Durable (s.step (.op (.put clk c value retention metadata fault))) ops' := by
  simp only [step, perform, acceptedPut]
  obtain ⟨reason, refused⟩ | ⟨admitted, outcome⟩ :=
    put_outcome s.region clk c value retention metadata fault
  · rw [refused]
    exact ⟨ops, durable⟩
  obtain ⟨roomy, inPlace⟩ := meets admitted
  generalize s.region.put clk c value retention metadata fault = result at outcome
  cases outcome with
  | full absent reason =>
    rw [roomFor_of_hasRoom (roomy absent)]
    exact ⟨ops, durable⟩
  | overwriteFailed _ found _ failed =>
    exact absurd (inPlace (by simp [found])).2 failed
  | insertFailed _ _ absent _ took used contents =>
    rw [roomFor_of_hasRoom (roomy absent)] at took ⊢
    exact ⟨ops, durable.spoiled took used contents⟩
  | written base _ _ used seat =>
    have still : base = s.region := by
      cases resident : s.region.entries.get? c with
      | none => exact seat.roomy (roomy resident)
      | some e₀ => exact seat.inPlace (by simp [resident])
    subst still
    rw [journalPut_eq]
    split_ifs with encodable
    · exact ⟨_, durable.journaled seat used encodable _⟩
    · have absent : s.region.entries.get? c = none := by
        by_contra resident
        exact encodable (inPlace resident).1
      exact ⟨ops, durable.unjournaled seat used absent⟩

theorem Durable.remove : ∃ ops', Durable (s.step (.op (.remove c))) ops' := by
  simp only [step, perform]
  cases found : s.region.entries.get? c with
  | none =>
    rw [remove_of_absent found]
    exact ⟨ops, durable⟩
  | some e =>
    have encodable : (JournalOp.del c).Encodable := trivial
    refine ⟨ops ++ [.del c], remove_valid durable.valid c,
      durable.logged.append (remove_appended found) encodable, fun c' loc named => ?_,
      fun c' loc named => ?_⟩
    all_goals
      rw [placements_append, JournalOp.apply, update_apply] at named
      split_ifs at named with same
    · rw [get?_remove, if_neg same]
      exact durable.resident c' loc named
    · rw [remove_held, if_neg same]
      exact durable.current c' loc named

theorem Durable.clear : ∃ ops', Durable (s.step (.op .clear)) ops' :=
  ⟨[], emptied_valid durable.valid.started _, logged_clear s.region,
    fun c loc named => by simp [placements] at named,
    fun c loc named => by simp [placements] at named⟩

theorem Durable.getBytes : ∃ ops', Durable (s.step (.op (.getBytes clk c))) ops' := by
  obtain ⟨access, touched⟩ := s.region.getBytes_touched clk c
  exact ⟨ops, touched.valid durable.valid, durable.logged.congr touched.sameLog,
    fun c' loc named => (touched.placement c').trans (durable.resident c' loc named),
    fun c' loc named => (durable.current c' loc named).trans (touched.held c').symm⟩

end

theorem Durable.step (durable : ∃ ops, Durable s ops) (event : Event)
    (meets : Evictionless s event) : ∃ ops', Durable (s.step event) ops' := by
  obtain ⟨ops, durable⟩ := durable
  cases event with
  | crash clk =>
    obtain ⟨r, ok, -, again⟩ := durable.restart clk
    simp only [Session.step, ok]
    exact ⟨ops, again⟩
  | op op =>
    cases op with
    | put clk c value retention metadata fault =>
      exact durable.put clk c value retention metadata fault meets
    | remove c => exact durable.remove c
    | clear => exact durable.clear
    | getBytes clk c => exact durable.getBytes clk c

/-- In every run without evicting writes, whatever a crash brings back is the last accepted block. -/
theorem restores_last_of_evictionless {s : Session}
    (reached : Reaches Fresh step Evictionless s) : RestoresLast s := by
  obtain ⟨ops, durable⟩ := reached.invariant (fun _ fresh => durable_of_fresh fresh)
    fun _ event durable meets => Durable.step durable event meets
  exact durable.restoresLast

def firstSession : Session := ⟨blank cfg, fun _ => none⟩

theorem firstSession_fresh : Fresh (firstSession cfg) :=
  ⟨cfg, blankDisk, fun _ => 0, rfl, rfl, rfl, start_blank cfg _, rfl⟩

/-- The second write evicts the first block and takes its slot; after a crash the first composite
reads the second one's bytes. -/
theorem evicted_block_restored_over :
    ∃ s, Reaches Fresh step (fun _ _ => True) s ∧ ¬RestoresLast s := by
  refine ⟨[.op (putLong 1 7), .op (putLong 2 8)].foldl step (firstSession (fourByteSlots 0)),
    Reaches.unconditional _ (firstSession_fresh _), fun restores => ?_⟩
  obtain ⟨r, ok, reads, -⟩ := restores fun _ => 0
  have served : (([.op (putLong 1 7), .op (putLong 2 8)].foldl step
      (firstSession (fourByteSlots 0))).region.restart fun _ => 0).map
        (fun r => (r.getBytes (fun _ => 0) ⟨"m", "", [1]⟩).2) = .ok (some [8]) := by
    decide +kernel
  rw [ok] at served
  have accepted := reads _ _ _ (Except.ok.inj served)
  revert accepted
  decide +kernel

theorem putLong_evictionless (s : Session) (key value : UInt8)
    (room : s.region.hasRoom 1 = true ∨ (s.region.entries.get? ⟨"m", "", [key]⟩).isSome) :
    Evictionless s (.op (putLong key value)) := by
  refine fun _ => ⟨fun absent => ?_, fun _ => ⟨rfl, rfl⟩⟩
  rcases room with room | resident
  · exact room
  · simp [absent] at resident

theorem overwritten_block_restored :
    RestoresLast ([.op (putLong 1 7), .crash fun _ => 1, .op (putLong 1 9)].foldl step
      (firstSession (fourByteSlots 0))) := by
  have begun : Reaches Fresh step Evictionless (firstSession (fourByteSlots 0)) :=
    .start (firstSession_fresh _)
  have written := begun.next (Event.op (putLong 1 7))
    (putLong_evictionless _ 1 7 (.inl (by decide +kernel)))
  have crashed := written.next (Event.crash fun _ => 1) trivial
  exact restores_last_of_evictionless (crashed.next (Event.op (putLong 1 9))
    (putLong_evictionless _ 1 9 (.inr (by decide +kernel))))

end Session
end Infera.Kvd
