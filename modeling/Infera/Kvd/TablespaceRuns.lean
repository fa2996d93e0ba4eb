import Infera.Kvd.TablespaceRegion
import Infera.Runs

/-! The operations of a session on a tablespace region and what each of them adds
to the journal. `Logged r ops tail` says that the directory holds the journal
lines of `ops` followed by `tail`, on top of an empty snapshot. -/

namespace Infera.Kvd
open JsonLines

inductive TablespaceOp where
  | put (clk : Clock) (c : Composite) (value : Bytes) (retention : Retention) (metadata : Metadata)
      (fault : Option TablespaceLongRegion.WriteFault)
  | remove (c : Composite)
  | clear
  | getBytes (clk : Clock) (c : Composite)

namespace TablespaceLongRegion
variable {c : Composite} {ops : List JournalOp} {e : TablespaceEntry}
  {r r' : TablespaceLongRegion} {base : TablespaceLongRegion} {allocator : BitsetAllocator}

def perform (r : TablespaceLongRegion) : TablespaceOp → TablespaceLongRegion
  | .put clk c value retention metadata fault => (r.put clk c value retention metadata fault).1
  | .remove c => (r.remove c).1
  | .clear => r.clear.1
  | .getBytes clk c => (r.getBytes clk c).1

/-- The composite and the block of a `put` that answers `accepted`. -/
def acceptedPut (r : TablespaceLongRegion) : TablespaceOp → Option (Composite × Bytes)
  | .put clk c value retention metadata fault =>
    match (r.put clk c value retention metadata fault).2 with
    | .ok (true, _) => some (c, value)
    | _ => none
  | _ => none

structure Logged (r : TablespaceLongRegion) (ops : List JournalOp) (tail : List Char) : Prop where
  snapshot : readSnapshot r.cfg r.disk = .ok []
  encodable : ∀ op ∈ ops, op.Encodable
  journal : r.disk.journal = (ops.map JournalOp.toJson).flatMap line ++ tail

/-- The files `start` reads, container contents apart. -/
structure SameLog (r r' : TablespaceLongRegion) : Prop where
  cfg : r'.cfg = r.cfg
  journal : r'.disk.journal = r.disk.journal
  snapshot : r'.disk.snapshot = r.disk.snapshot
  snapshotBak : r'.disk.snapshotBak = r.disk.snapshotBak

theorem Logged.congr {tail : List Char}
    (logged : Logged r ops tail) (same : SameLog r r') : Logged r' ops tail where
  snapshot := by
    rw [← logged.snapshot, readSnapshot, readSnapshot, same.snapshot, same.snapshotBak, same.cfg]
  encodable := logged.encodable
  journal := same.journal.trans logged.journal

theorem records_of_encodable (encodable : ∀ op ∈ ops, op.Encodable) :
    ∀ x ∈ ops.map JournalOp.toJson, Record x := by
  intro x mem
  obtain ⟨op, inOps, rfl⟩ := List.mem_map.mp mem
  exact op.record (encodable op inOps)

theorem encodable_append (encodable : ∀ op ∈ ops, op.Encodable)
    {op : JournalOp} (own : op.Encodable) : ∀ op' ∈ ops ++ [op], op'.Encodable := by
  intro op' mem
  rcases List.mem_append.mp mem with old | new
  · exact encodable op' old
  · rw [List.mem_singleton.mp new]
    exact own

structure Appended (r r' : TablespaceLongRegion) (op : JournalOp) : Prop where
  cfg : r'.cfg = r.cfg
  journal : r'.disk.journal = r.disk.journal ++ line op.toJson
  snapshot : r'.disk.snapshot = r.disk.snapshot
  snapshotBak : r'.disk.snapshotBak = r.disk.snapshotBak

theorem Logged.append (logged : Logged r ops []) {op : JournalOp} (appended : Appended r r' op)
    (encodable : op.Encodable) : Logged r' (ops ++ [op]) [] where
  snapshot := by
    rw [← logged.snapshot, readSnapshot, readSnapshot, appended.snapshot, appended.snapshotBak,
      appended.cfg]
  encodable := encodable_append logged.encodable encodable
  journal := by simp [appended.journal, logged.journal]

theorem Logged.restart (logged : Logged r ops [])
    (fits : ∀ c loc, placements ops c = some loc → loc.Fits r.cfg) (clk : Clock) :
    ∃ r', r.restart clk = .ok r' ∧ Restored r (placements ops) r' := by
  refine restart_restored r clk ops logged.snapshot ?_ fits
  rw [logged.journal, List.append_nil, readAll_lines (records_of_encodable logged.encodable)]

theorem logged_clear (r : TablespaceLongRegion) : Logged r.clear.1 [] [] where
  snapshot := by
    exact readSnapshot_cleared _ _ rfl
  encodable := by simp
  journal := by simp [clear_fst]

theorem Thinned.sameLog (thinned : Thinned r r') : SameLog r r' :=
  ⟨thinned.cfg, by rw [thinned.disk], by rw [thinned.disk], by rw [thinned.disk]⟩

theorem Touched.sameLog {access : Composite → TablespaceEntry → ℚ}
    (touched : Touched r r' access) : SameLog r r' :=
  ⟨touched.cfg, by rw [touched.disk], by rw [touched.disk], by rw [touched.disk]⟩

section
variable {value : Bytes} {metadata : Metadata} (seat : Seat r c value metadata base e allocator)
  (used : Int)
include seat

theorem Seat.sameLog : SameLog r (base.seat c e value allocator used) := by
  obtain ⟨cfg, journal, snapshot, snapshotBak⟩ := seat.thinned.sameLog
  exact ⟨cfg, journal, snapshot, snapshotBak⟩

theorem Seat.appended (op : JournalOp) :
    let seated := base.seat c e value allocator used
    Appended r { seated with disk := { seated.disk with
      journal := seated.disk.journal ++ line op.toJson } } op := by
  intro seated
  obtain ⟨cfg, journal, snapshot, snapshotBak⟩ := seat.sameLog used
  exact ⟨cfg, congrArg (· ++ line op.toJson) journal, snapshot, snapshotBak⟩

end

theorem remove_appended
    (found : r.entries.get? c = some e) : Appended r (r.remove c).1 (.del c) := by
  simp only [remove, found]
  exact ⟨rfl, rfl, rfl, rfl⟩

theorem remove_of_absent (absent : r.entries.get? c = none) : (r.remove c).1 = r := by
  simp [remove, absent]

theorem Restored.sameLog {place : Composite → Option Placement}
    (restored : Restored r place r') : SameLog r r' :=
  ⟨restored.cfg, by rw [restored.disk], by rw [restored.disk], by rw [restored.disk]⟩

theorem start_empty {cfg : TablespaceConfig} {disk : TablespaceDisk} {clk : Clock}
    (journal : disk.journal = []) (snapshot : disk.snapshot = none) (bak : disk.snapshotBak = none)
    (started : (new cfg disk).start clk = .ok r) : r.Valid ∧ Logged r [] [] := by
  have logged : Logged (new cfg disk) [] [] :=
    ⟨by simp [readSnapshot, new, snapshot, bak], by simp, by simp [new, journal]⟩
  obtain ⟨r', ok, restored⟩ := logged.restart (fun c loc named => by simp [placements] at named) clk
  obtain rfl : r = r' := Except.ok.inj (started.symm.trans ok)
  have nothing : ∀ c e, r.entries.get? c ≠ some e := fun c e found => by
    have place := restored.populated.entries c
    simp [found, placements] at place
  refine ⟨⟨⟨restored.started, restored.populated.grid, ?_⟩, ?_, ?_⟩, logged.congr restored.sameLog⟩
  · exact fun c e found => absurd found (nothing c e)
  · exact fun c e found => absurd found (nothing c e)
  · exact fun c c' e e' found => absurd found (nothing c e)

def fourByteSlots (n : Nat) : TablespaceConfig :=
  { maxBytes := 4 * (n + 1), slotBytes := 4, containerBytes := 4 * (n + 1), oDirect := false
    platform := ⟨fun _ => 0, fun _ => "", fun _ => .zero⟩
    maxBytes_pos := by omega, slotBytes_pos := by omega, slot_le_container := by omega
    aligned := by simp }

def blankDisk : TablespaceDisk := ⟨fun _ _ _ => 0, [], none, none⟩

def blank (cfg : TablespaceConfig) : TablespaceLongRegion :=
  { new cfg blankDisk with started := true, allocator := cfg.newAllocator.recomputeState }

variable (cfg : TablespaceConfig)

theorem start_blank (clk : Clock) : (new cfg blankDisk).start clk = .ok (blank cfg) := rfl

theorem valid_blank : (blank cfg).Valid where
  started := rfl
  grid := ⟨rfl, rfl, rfl⟩
  fits c e found := by simp [blank, new] at found
  taken c e found := by simp [blank, new] at found
  apart c c' e e' found := by simp [blank, new] at found

theorem held_blank (c : Composite) : (blank cfg).held c = none := by
  simp [held, blank, new]

theorem clean_blank : (blank cfg).Clean := by
  simp [Clean, blank, new]

def putLong (key value : UInt8) : TablespaceOp :=
  .put (fun _ => 0) ⟨"m", "", [key]⟩ [value] .long .empty none

end TablespaceLongRegion
end Infera.Kvd
