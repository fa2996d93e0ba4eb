import Infera.Kvd.SnapshotRoundTrip

/-! A tablespace region over its whole life: operations, graceful restarts and
crashes between operations.

An update whose container write fails drops the entry but keeps its slot taken and
its size counted (`failed_update_leaks_slot`), and the next graceful restart gives
both back (`leaked_slot_returns`). Without such a failure the bookkeeping is exact
in every state (`accounted_of_sheltered`), and `shutdown` followed by `start`
brings back the index, the slots, the counter and the blocks
(`reopens_of_sheltered`). -/

namespace Infera.Kvd
namespace TablespaceLongRegion
open TablespaceLongRegion
variable {r : TablespaceLongRegion} {r' : TablespaceLongRegion}

inductive Lifecycle where
  | op (op : TablespaceOp)
  | reopen (clk : Clock)
  | crash (clk : Clock)

def live (r : TablespaceLongRegion) : Lifecycle → TablespaceLongRegion
  | .op op => r.perform op
  | .reopen clk =>
    match r.shutdown with
    | .error _ => r
    | .ok stopped =>
      match stopped.start clk with
      | .error _ => stopped
      | .ok reopened => reopened
  | .crash clk =>
    match r.restart clk with
    | .error _ => r
    | .ok restarted => restarted

def Opened (r : TablespaceLongRegion) : Prop :=
  ∃ cfg disk clk, disk.journal = [] ∧ disk.snapshot = none ∧ disk.snapshotBak = none ∧
    (new cfg disk).start clk = .ok r

/-- Distinct entries lie in distinct slots, the set bits are the slots of the entries, and the
counter is the sum of their sizes. -/
structure Accounted (r : TablespaceLongRegion) : Prop where
  apart : ∀ c c' e e', r.getEntry c = some e → r.getEntry c' = some e' →
    e.containerIdx = e'.containerIdx → e.slotIdx = e'.slotIdx → c = c'
  slots : ∀ s, r.allocator.isSet s = true ↔ ∃ c e, r.getEntry c = some e ∧ e.slotGlobal r.cfg = s
  used : r.usedBytes = r.indexedBytes

/-- No container write fails over a resident block, and after a crash the directory names no slot
for two composites. -/
def Sheltered (r : TablespaceLongRegion) : Lifecycle → Prop
  | .op (.put _ c value retention _ fault) =>
    fault ≠ none → r.Admitted value retention → r.entries.get? c = none
  | .crash _ => ∀ index, replayIndex r.cfg r.disk = .ok index → SlotsNamedOnce index
  | _ => True

theorem Tidy.accounted (tidy : r.Tidy) : r.Accounted where
  apart c c' e e' found found' container slot := by
    refine tidy.apart c c' e e' found found' ?_
    rw [TablespaceEntry.slotGlobal, TablespaceEntry.slotGlobal, container, slot]
  slots s := by
    simp only [BitsetAllocator.isSet, Bool.and_eq_true, decide_eq_true_eq]
    constructor
    · rintro ⟨-, set⟩
      exact tidy.owned s set
    · rintro ⟨c, e, found, rfl⟩
      exact ⟨tidy.inGrid found, tidy.taken c e found⟩
  used := tidy.counted

structure SameEntry (e e' : TablespaceEntry) : Prop where
  container : e'.containerIdx = e.containerIdx
  slot : e'.slotIdx = e.slotIdx
  size : e'.sizeBytes = e.sizeBytes
  retention : e'.retention = e.retention
  metadata : e'.metadata.toJson.SameMembers e.metadata.toJson

structure Reopened (r r' : TablespaceLongRegion) : Prop where
  entries : ∀ c, Option.Rel SameEntry (r.getEntry c) (r'.getEntry c)
  slots : ∀ s, r'.allocator.isSet s = r.allocator.isSet s
  used : r'.usedBytes = r.usedBytes
  bytes : ∀ clk clk' c, (r'.getBytes clk' c).2 = (r.getBytes clk c).2

theorem sameEntry_reloaded (now : ℚ) (e : TablespaceEntry) : SameEntry e (reloaded now e) where
  container := rfl
  slot := rfl
  size := rfl
  retention := rfl
  metadata := by
    change e.metadata.sorted.toJson.sortKeys = e.metadata.toJson.sortKeys
    rw [Metadata.sorted_toJson, Json.sortKeys_sortKeys]

theorem SameEntry.slotGlobal {e e' : TablespaceEntry} (same : SameEntry e e')
    (cfg : TablespaceConfig) : e'.slotGlobal cfg = e.slotGlobal cfg := by
  rw [TablespaceEntry.slotGlobal, TablespaceEntry.slotGlobal, same.container, same.slot]

theorem Tidy.slotsNamedOnce (tidy : r.Tidy)
    {index : Dict Composite Json} (content : index.items = records r.entries.items) :
    SlotsNamedOnce index := by
  have origin : ∀ c raw, index.get? c = some raw → ∃ e, r.entries.get? c = some e ∧
      intField raw "container" = .ok e.containerIdx ∧ intField raw "slot" = .ok e.slotIdx := by
    intro c raw named
    rw [Dict.get?_eq_some_iff, content, records, List.mem_map] at named
    obtain ⟨⟨c, e⟩, mem, eq⟩ := named
    cases eq
    have found := (r.entries.get?_eq_some_iff c e).mpr mem
    have admits := admit_admits (admit_sortedRecord (tidy.fits c e found) 0)
    exact ⟨e, found, admits.container, admits.slot⟩
  intro c c' raw raw' named named' container slot
  obtain ⟨e, found, container₁, slot₁⟩ := origin c raw named
  obtain ⟨e', found', container₂, slot₂⟩ := origin c' raw' named'
  rw [container₁, container₂, Except.ok.injEq, Nat.cast_inj] at container
  rw [slot₁, slot₂, Except.ok.injEq, Nat.cast_inj] at slot
  exact tidy.accounted.apart c c' e e' found found' container slot

theorem getBytes_congr (cfg : r'.cfg = r.cfg)
    (started : r'.started = r.started) (slots : r'.disk.slots = r.disk.slots)
    {c : Composite} (entry : Option.Rel SameEntry (r.entries.get? c) (r'.entries.get? c))
    (clk clk' : Clock) : (r'.getBytes clk' c).2 = (r.getBytes clk c).2 := by
  unfold getBytes
  generalize r.entries.get? c = before at entry
  generalize r'.entries.get? c = after at entry
  cases entry with
  | none => rfl
  | some same =>
    simp [cfg, started, same.size, same.container, same.slot, TablespaceDisk.slotBytes, slots]

theorem isSet_congr (tidy : r.Tidy) (tidy' : r'.Tidy) (cfg : r'.cfg = r.cfg)
    (entries : ∀ c, Option.Rel SameEntry (r.entries.get? c) (r'.entries.get? c)) (s : Nat) :
    r'.allocator.isSet s = r.allocator.isSet s := by
  rw [Bool.eq_iff_iff, tidy'.accounted.slots, tidy.accounted.slots, cfg]
  constructor
  · rintro ⟨c, e', found', rfl⟩
    have rel := entries c
    rw [show r'.entries.get? c = some e' from found'] at rel
    generalize found : r.entries.get? c = before at rel
    cases rel with
    | some same => exact ⟨c, _, found, (same.slotGlobal r.cfg).symm⟩
  · rintro ⟨c, e, found, rfl⟩
    have rel := entries c
    rw [show r.entries.get? c = some e from found] at rel
    generalize found' : r'.entries.get? c = after at rel
    cases rel with
    | some same => exact ⟨c, _, found', same.slotGlobal r.cfg⟩

theorem Tidy.reopen (tidy : r.Tidy) (clean : r.Clean) (clk : Clock) :
    ∃ stopped r', r.shutdown = .ok stopped ∧ stopped.start clk = .ok r' ∧ r.Reopened r' ∧
      r'.Tidy := by
  have stop : r.shutdown = .ok { r with disk := r.persisted, started := false } := by
    rw [shutdown, if_neg (by simp [tidy.started]), snapshotNow_of_clean clean]
  obtain ⟨index, replayed, content⟩ := replayIndex_snapshot clean tidy.keyed
  obtain ⟨r', populated, reached, others, used⟩ := populate_records r.entries.items
    (new r.cfg r.persisted) clk r.entries.nodupKeys fun c e mem =>
      have found := (r.entries.get?_eq_some_iff c e).mpr mem
      ⟨tidy.keyed c e found, tidy.fits c e found⟩
  have started : start { r with disk := r.persisted, started := false } clk =
      .ok { r' with started := true } := by
    simp only [start, Bool.false_eq_true, if_false, replayed, content, populated]
  obtain ⟨tidy', cfg', disk'⟩ := start_tidy rfl started fun index' replayed' => by
    have same : index = index' := Except.ok.inj (replayed.symm.trans replayed')
    exact same ▸ tidy.slotsNamedOnce content
  have entries : ∀ c, Option.Rel SameEntry (r.entries.get? c) (r'.entries.get? c) := fun c => by
    cases found : r.entries.get? c with
    | none =>
      rw [others c ((r.entries.get?_eq_none_iff c).mp found)]
      exact .none
    | some e =>
      obtain ⟨now, again⟩ := reached c e ((r.entries.get?_eq_some_iff c e).mp found)
      rw [again]
      exact .some (sameEntry_reloaded now e)
  have slots : r'.disk.slots = r.disk.slots := by
    rw [show r'.disk = r.persisted from disk']
    rfl
  refine ⟨_, _, stop, started, ⟨entries, isSet_congr tidy tidy' cfg' entries, ?_, fun clk clk' c => ?_⟩,
    tidy'⟩
  · rw [used, tidy.counted, indexedBytes, Dict.values, List.map_map]
    exact Int.zero_add _
  · have sameCfg : ({ r' with started := true } : TablespaceLongRegion).cfg = r.cfg := cfg'
    exact getBytes_congr sameCfg tidy.started.symm slots (entries c) clk clk'

theorem clean_of_shutdown {stopped : TablespaceLongRegion} (started : r.started = true)
    (stop : r.shutdown = .ok stopped) : r.Clean := by
  intro c e found
  rw [shutdown, if_neg (by simp [started])] at stop
  split at stop
  · cases stop
  · rename_i persisted ok
    simp only [snapshotNow] at ok
    split_ifs at ok with encodable
    have mem := Dict.mem_values_iff.mpr ⟨c, found⟩
    have record := (Json.encodableAll_iff _).mp encodable _ (List.mem_map_of_mem mem)
    simpa [snapshotRecord, Json.encodable, Json.encodableFields, Metadata.encodable] using record

theorem tidy_of_opened (opened : r.Opened) : r.Tidy := by
  obtain ⟨cfg, disk, clk, journal, snapshot, bak, started⟩ := opened
  refine (start_tidy rfl started fun index replayed => ?_).1
  have nothing : replayIndex cfg disk = .ok .empty := by
    simp only [replayIndex, readSnapshot, snapshot, bak, journal]
    rfl
  have same : Dict.empty = index := Except.ok.inj (nothing.symm.trans replayed)
  subst same
  exact fun c c' raw raw' named => by simp at named

theorem Tidy.live (tidy : r.Tidy) (event : Lifecycle)
    (sheltered : r.Sheltered event) : (r.live event).Tidy := by
  cases event with
  | op op =>
    cases op with
    | put clk c value retention metadata fault =>
      exact tidy.put clk retention metadata c value fault sheltered
    | remove c => exact tidy.remove c
    | clear => exact tidy_emptied tidy.started _
    | getBytes clk c => exact tidy.getBytes clk c
  | reopen clk =>
    simp only [TablespaceLongRegion.live]
    cases stop : r.shutdown with
    | error err => exact tidy
    | ok stopped =>
      obtain ⟨stopped', r', stop', started, -, tidy'⟩ :=
        tidy.reopen (clean_of_shutdown tidy.started stop) clk
      have same : stopped' = stopped := Except.ok.inj (stop'.symm.trans stop)
      subst same
      simpa [started] using tidy'
  | crash clk =>
    simp only [TablespaceLongRegion.live]
    cases restarted : r.restart clk with
    | error err => exact tidy
    | ok r' => exact (start_tidy rfl restarted sheltered).1

theorem tidy_of_sheltered (reached : Reaches Opened live Sheltered r) : r.Tidy :=
  reached.invariant (fun _ opened => tidy_of_opened opened)
    fun _ event tidy sheltered => tidy.live event sheltered

/-- In every run without a failed update the bookkeeping is exact in every state. -/
theorem accounted_of_sheltered {r : TablespaceLongRegion}
    (reached : Reaches Opened TablespaceLongRegion.live Sheltered r) : r.Accounted :=
  (tidy_of_sheltered reached).accounted

theorem opened_blank (cfg : TablespaceConfig) : (blank cfg).Opened :=
  ⟨cfg, blankDisk, fun _ => 0, rfl, rfl, rfl, start_blank cfg _⟩

def failedPut (key value : UInt8) : TablespaceOp :=
  .put (fun _ => 0) ⟨"m", "", [key]⟩ [value] .long .empty (some ⟨"EIO", fun _ => 0⟩)

/-- The update fails: no entry is left, the slot stays taken and the byte stays counted. -/
theorem failed_update_leaks_slot :
    ∃ r, Reaches Opened TablespaceLongRegion.live (fun _ _ => True) r ∧ r.entries.items.length = 0 ∧
      r.allocator.isSet 0 = true ∧ r.usedBytes = 1 ∧ ¬r.Accounted := by
  refine ⟨[.op (putLong 1 7), .op (failedPut 1 8)].foldl live
    (blank (fourByteSlots 0)), Reaches.unconditional _ (opened_blank _), by decide +kernel,
    by decide +kernel, by decide +kernel, fun accounted => ?_⟩
  have used := accounted.used
  revert used
  decide +kernel

section
variable (r : TablespaceLongRegion) (key value : UInt8)

theorem putLong_sheltered : r.Sheltered (.op (putLong key value)) := fun failed => absurd rfl failed

theorem failedPut_sheltered (absent : (r.entries.get? ⟨"m", "", [key]⟩).isNone = true) :
    r.Sheltered (.op (failedPut key value)) :=
  fun _ _ => Option.isNone_iff_eq_none.mp absent

end

def oneStored : TablespaceLongRegion :=
  ((blank (fourByteSlots 1)).live (.op (putLong 1 7))).live (.op (failedPut 2 8))

theorem oneStored_reached : Reaches Opened live Sheltered oneStored := by
  have begun : Reaches Opened live Sheltered (blank (fourByteSlots 1)) := .start (opened_blank _)
  have written := begun.next (Lifecycle.op (putLong 1 7)) (putLong_sheltered _ 1 7)
  exact written.next (Lifecycle.op (failedPut 2 8)) (failedPut_sheltered _ 2 8 (by decide +kernel))

theorem failed_insert_accounted : oneStored.Accounted :=
  accounted_of_sheltered oneStored_reached

theorem reopens_of_sheltered {r : TablespaceLongRegion}
    (reached : Reaches Opened TablespaceLongRegion.live Sheltered r) (clean : r.Clean)
    (clk : Clock) : ∃ stopped r', r.shutdown = .ok stopped ∧ stopped.start clk = .ok r' ∧
      r.Reopened r' := by
  obtain ⟨stopped, r', stop, started, reopened, -⟩ := (tidy_of_sheltered reached).reopen clean clk
  exact ⟨stopped, r', stop, started, reopened⟩

theorem clean_of_items
    (items : ∀ item ∈ r.entries.items, item.2.metadata.encodable = true) : r.Clean :=
  fun c e found => items (c, e) ((r.entries.get?_eq_some_iff c e).mp found)

/-- The slot that a failed update kept is free after a graceful restart. -/
theorem leaked_slot_returns :
    ∃ r, Reaches Opened TablespaceLongRegion.live (fun _ _ => True) r ∧ r.Clean ∧
      ∀ stopped r', r.shutdown = .ok stopped → stopped.start (fun _ => 1) = .ok r' →
        ¬r.Reopened r' := by
  refine ⟨[.op (putLong 1 7), .op (failedPut 1 8)].foldl live
    (blank (fourByteSlots 0)), Reaches.unconditional _ (opened_blank _),
    clean_of_items (by decide +kernel), fun stopped r' stop started reopened => ?_⟩
  have after : ((([.op (putLong 1 7), .op (failedPut 1 8)].foldl live
      (blank (fourByteSlots 0))).shutdown.bind (·.start fun _ => 1)).map
        (·.allocator.isSet 0)) = .ok false := by
    decide +kernel
  have before : ([.op (putLong 1 7), .op (failedPut 1 8)].foldl live
      (blank (fourByteSlots 0))).allocator.isSet 0 = true := by
    decide +kernel
  rw [stop] at after
  change (stopped.start fun _ => 1).map (·.allocator.isSet 0) = .ok false at after
  rw [started] at after
  have free : r'.allocator.isSet 0 = false := Except.ok.inj after
  have kept := reopened.slots 0
  rw [before, free] at kept
  exact Bool.false_ne_true kept

theorem failed_insert_reopens : ∃ stopped r', oneStored.shutdown = .ok stopped ∧
    stopped.start (fun _ => 1) = .ok r' ∧ oneStored.Reopened r' :=
  reopens_of_sheltered oneStored_reached (clean_of_items (by decide +kernel)) fun _ => 1

end TablespaceLongRegion
end Infera.Kvd
