import Infera.Kvd.TablespaceRuns

/-! Durability of the journal across sessions whose crashes may cut its last line
short. `start` stops reading at an unreadable line but appends behind it, so a
torn tail hides every entry written after it (`torn_tail_hides_later_puts`). In a
run whose writes all find a journal that ends with a whole line, every accepted
block that was not overwritten, removed, cleared or evicted since is present
after every `start` (`kept_present_of_whole_lines`). -/

namespace Infera.Kvd
open Json JsonLines TablespaceLongRegion JournalOp Function List Option

structure Tenure where
  region : TablespaceLongRegion
  kept : Composite → Option Placement

def TablespaceOp.target : TablespaceOp → Option Composite
  | .put _ c _ _ _ _ => some c
  | .remove c => some c
  | _ => none

namespace Tenure

inductive Event where
  | op (op : TablespaceOp)
  | crash (clk : Clock)
  /-- A crash inside an operation, after the first `written` bytes of its journal line. -/
  | crashIn (op : TablespaceOp) (written : Nat) (clk : Clock)

variable (r : TablespaceLongRegion) (s : Tenure) (kept : Composite → Option Placement)

def forget : Composite → Option Placement :=
  fun c => if (r.entries.get? c).isSome then kept c else none

def forgetTarget : Option Composite →
    Composite → Option Placement
  | none => kept
  | some c => update kept c none

def recordKept : Option (Composite × Bytes) → Composite → Option Placement
  | none => kept
  | some (c, _) => update kept c ((r.entries.get? c).map TablespaceEntry.placement)

/-- What is on disk when `op` stops after `written` bytes of its journal line. -/
def torn (op : TablespaceOp) (written : Nat) : TablespaceLongRegion :=
  let after := r.perform op
  { after with disk := { after.disk with
    journal := after.disk.journal.take (r.disk.journal.length + written) } }

def step : Event → Tenure
  | .op op =>
    let after := s.region.perform op
    ⟨after, recordKept after (forget after s.kept) (s.region.acceptedPut op)⟩
  | .crash clk =>
    match s.region.restart clk with
    | .ok region => { s with region }
    | .error _ => s
  | .crashIn op written clk =>
    match (torn s.region op written).restart clk with
    | .ok region => ⟨region, forgetTarget (forget (s.region.perform op) s.kept) op.target⟩
    | .error _ => s

def Fresh : Prop :=
  ∃ cfg disk clk, disk.journal = [] ∧ disk.snapshot = none ∧ disk.snapshotBak = none ∧
    (new cfg disk).start clk = .ok s.region ∧ s.kept = fun _ => none

/-- After a crash now, `start` succeeds and every block that counts is in the index again. -/
def KeptPresent : Prop :=
  ∀ clk, ∃ r, s.region.restart clk = .ok r ∧
    ∀ c loc, s.kept c = some loc → ∃ e, r.getEntry c = some e ∧ e.placement = loc

/-- The journal is empty or ends with a newline. -/
def WholeLines (journal : List Char) : Prop := journal = [] ∨ journal.getLast? = some '\n'

/-- Journaling operations, completed or cut short, start from whole lines. -/
def OnWholeLines : Event → Prop
  | .op op => op.target.isSome → WholeLines s.region.disk.journal
  | .crash _ => True
  | .crashIn op _ _ => op.target.isSome → WholeLines s.region.disk.journal

end Tenure

def JournalOp.Fits (cfg : TablespaceConfig) : JournalOp → Prop
  | .put _ loc _ _ _ => loc.Fits cfg
  | .del _ => True

theorem placements_fits {cfg : TablespaceConfig} {ops : List JournalOp}
    (fits : ∀ op ∈ ops, op.Fits cfg) {c : Composite} {loc : Placement}
    (named : placements ops c = some loc) : loc.Fits cfg := by
  induction ops using List.reverseRecOn with
  | nil => simp [placements] at named
  | append_singleton ops op ih =>
    have earlier := ih fun op' mem => fits op' (mem_append_left _ mem)
    have own := fits op (mem_append_right _ (mem_singleton_self op))
    rw [placements_append] at named
    cases op with
    | put =>
      rw [apply, update_apply] at named
      split_ifs at named
      · cases named
        exact own
      · exact earlier named
    | del c' =>
      rw [apply, update_apply] at named
      split_ifs at named
      exact earlier named

namespace TablespaceLongRegion

/-- What an operation leaves in the journal, and in the index for the composite it names there. -/
inductive LogEffect (r : TablespaceLongRegion) (op : TablespaceOp) (r' : TablespaceLongRegion) : Prop
  | same (log : SameLog r r') (unaccepted : r.acceptedPut op = none)
  | cleared (cfg : r'.cfg = r.cfg) (logged : Logged r' [] []) (gone : ∀ c, r'.entries.get? c = none)
      (unaccepted : r.acceptedPut op = none)
  | put (c : Composite) (loc : Placement) (metadata : Metadata) (ts : JsonFloat) (value : Bytes)
      (appended : Appended r r' (.put c loc .long metadata ts))
      (encodable : (JournalOp.put c loc .long metadata ts).Encodable) (fits : loc.Fits r.cfg)
      (target : op.target = some c) (accepted : r.acceptedPut op = some (c, value))
      (placed : (r'.entries.get? c).map TablespaceEntry.placement = some loc)
  | del (c : Composite) (appended : Appended r r' (.del c)) (target : op.target = some c)
      (unaccepted : r.acceptedPut op = none) (gone : r'.entries.get? c = none)

theorem put_effect_sound {r : TablespaceLongRegion} (sound : r.Sound) (clk : Clock) (c : Composite)
    (value : Bytes) (retention : Retention) (metadata : Metadata) (fault : Option WriteFault) :
    let op := TablespaceOp.put clk c value retention metadata fault
    LogEffect r op (r.perform op) ∧ (r.perform op).Sound := by
  intro op
  have answer : r.acceptedPut op = r.acceptedPut op := rfl
  conv at answer =>
    rhs
    rw [acceptedPut]
  change LogEffect r op (r.put clk c value retention metadata fault).1 ∧
    (r.put clk c value retention metadata fault).1.Sound
  obtain ⟨reason, refused⟩ | ⟨-, outcome⟩ := put_outcome r clk c value retention metadata fault
  · rw [refused] at answer ⊢
    exact ⟨.same ⟨rfl, rfl, rfl, rfl⟩ answer, sound⟩
  have thinned := r.roomFor_thinned value.length
  generalize r.put clk c value retention metadata fault = result at answer outcome
  cases outcome with
  | full absent reason => exact ⟨.same thinned.sameLog answer, thinned.sound sound⟩
  | overwriteFailed =>
    refine ⟨.same ⟨rfl, rfl, rfl, rfl⟩ answer, sound.started, sound.grid, fun c' e' found' => ?_⟩
    exact sound.fits c' e' (Dict.get?_of_erase found').2
  | insertFailed _ _ _ _ took =>
    obtain ⟨cfg, journal, snapshot, snapshotBak⟩ := thinned.sameLog
    obtain ⟨started, grid, fits⟩ := thinned.sound sound
    exact ⟨.same ⟨cfg, journal, snapshot, snapshotBak⟩ answer, started,
      (grid.trans took.grid).trans (BitsetAllocator.sameGrid_free _ _), fits⟩
  | written base e allocator used seat =>
    obtain ⟨started, grid, fits⟩ := seat.sound sound used
    rw [journalPut_eq] at answer ⊢
    split_ifs at answer ⊢ with encodable
    · refine ⟨.put c e.placement metadata _ value (seat.appended used _) encodable (seat.fits sound)
        rfl answer ?_, started, grid, fits⟩
      rw [get?_seat, if_pos rfl, map_some]
    · exact ⟨.same (seat.sameLog used) answer, started, grid, fits⟩

theorem perform_effect {r : TablespaceLongRegion} (sound : r.Sound) (op : TablespaceOp) :
    LogEffect r op (r.perform op) ∧ (r.perform op).Sound := by
  cases op with
  | put clk c value retention metadata fault =>
    exact put_effect_sound sound clk c value retention metadata fault
  | remove c =>
    simp only [perform]
    cases found : r.entries.get? c with
    | none =>
      rw [remove_of_absent found]
      exact ⟨.same ⟨rfl, rfl, rfl, rfl⟩ rfl, sound⟩
    | some e =>
      have appended := remove_appended found
      refine ⟨.del c appended rfl rfl (by rw [get?_remove, if_pos rfl]), ?_, ?_, fun c' e' found' => ?_⟩
      · simp only [remove, found]
        exact sound.started
      · simp only [remove, found]
        exact sound.grid.trans (BitsetAllocator.sameGrid_free _ _)
      · rw [get?_remove] at found'
        split_ifs at found'
        rw [appended.cfg]
        exact sound.fits c' e' found'
  | clear => exact ⟨.cleared rfl (logged_clear r) (fun _ => rfl) rfl, (emptied_valid sound.started _).toSound⟩
  | getBytes clk c =>
    obtain ⟨access, touched⟩ := r.getBytes_touched clk c
    exact ⟨.same touched.sameLog rfl, touched.sound sound⟩

end TablespaceLongRegion

namespace Tenure
variable {ops : List JournalOp} {r : TablespaceLongRegion} {s : Tenure}
variable {kept : Composite → Option Placement} (cfg : TablespaceConfig)

/-- The journal reads as `ops`, lies in whole lines unless its tail shows it, and names every block
that counts. -/
structure Recoverable (s : Tenure) (ops : List JournalOp) : Prop where
  sound : s.region.Sound
  snapshot : readSnapshot s.region.cfg s.region.disk = .ok []
  encodable : ∀ op ∈ ops, op.Encodable
  fits : ∀ op ∈ ops, op.Fits s.region.cfg
  reads : readAll s.region.disk.journal = ops.map JournalOp.toJson
  whole : WholeLines s.region.disk.journal →
    s.region.disk.journal = (ops.map JournalOp.toJson).flatMap line
  kept : ∀ c loc, s.kept c = some loc → placements ops c = some loc

theorem Recoverable.keptPresent (recoverable : Recoverable s ops) : KeptPresent s := by
  intro clk
  obtain ⟨r, ok, restored⟩ := restart_restored s.region clk ops recoverable.snapshot recoverable.reads
    fun c loc named => placements_fits recoverable.fits named
  refine ⟨r, ok, fun c loc counts => ?_⟩
  have place := (restored.populated.entries c).trans (recoverable.kept c loc counts)
  obtain ⟨e, found, placed⟩ := map_eq_some_iff.mp place
  exact ⟨e, found, placed⟩

theorem not_wholeLines {lines tail : List Char} (some_ : tail ≠ []) (clear : '\n' ∉ tail) :
    ¬WholeLines (lines ++ tail) := by
  rintro (empty | last)
  · exact some_ (append_eq_nil_iff.mp empty).2
  · rw [List.getLast?_append_of_ne_nil _ some_] at last
    exact clear (mem_of_getLast? last)

theorem cut_line (encodable : ∀ op ∈ ops, op.Encodable) {op : JournalOp}
    (own : op.Encodable) (n : Nat) :
    let journal := (ops.map toJson).flatMap line ++ (line op.toJson).take n
    ∃ ops', (ops' = ops ∨ ops' = ops ++ [op]) ∧ readAll journal = ops'.map toJson ∧
      (WholeLines journal → journal = (ops'.map toJson).flatMap line) := by
  intro journal
  have record := op.record own
  by_cases inside : n ≤ (dumps op.toJson).length
  · have cut : (line op.toJson).take n = (dumps op.toJson).take n := take_append_of_le_length inside
    have text := take_append_drop n (dumps op.toJson)
    have clear : '\n' ∉ (dumps op.toJson).take n := fun mem =>
      oneLine_dumps _ (mem_of_mem_take mem)
    have readBack := readAll_append (records_of_encodable encodable) ((line op.toJson).take n)
    rw [cut, readAll_torn record text, ← cut] at readBack
    have notWhole : (dumps op.toJson).take n ≠ [] → ¬WholeLines journal := fun some_ => by
      rw [show journal = _ ++ (dumps op.toJson).take n by rw [← cut]]
      exact not_wholeLines some_ clear
    split_ifs at readBack with complete
    · refine ⟨ops ++ [op], .inr rfl, by simpa using readBack, fun whole => ?_⟩
      rw [complete, append_nil] at text
      obtain ⟨fields, object⟩ := record.1
      obtain ⟨cs, first⟩ := obj_text fields
      exact absurd whole (notWhole (by rw [text, object, first]; simp))
    · refine ⟨ops, .inl rfl, by simpa using readBack, fun whole => ?_⟩
      have nothing : (dumps op.toJson).take n = [] := by
        by_contra some_
        exact notWhole some_ whole
      change _ ++ (line op.toJson).take n = _
      rw [cut, nothing, append_nil]
  · have all : (line op.toJson).take n = line op.toJson := by
      apply take_of_length_le
      rw [line, length_append, length_singleton]
      omega
    have lines : journal = ((ops ++ [op]).map toJson).flatMap line := by
      change _ ++ (line op.toJson).take n = _
      rw [all]
      simp
    refine ⟨ops ++ [op], .inr rfl, ?_, fun _ => lines⟩
    rw [lines, readAll_lines (records_of_encodable (encodable_append encodable own))]

theorem forget_some {c : Composite} {loc : Placement} (counts : forget r kept c = some loc) :
    kept c = some loc ∧ r.entries.get? c ≠ none := by
  unfold forget at counts
  split_ifs at counts with resident
  exact ⟨counts, isSome_iff_ne_none.mp resident⟩

theorem recoverable_cleared (logged : Logged r [] []) (sound : r.Sound) :
    Recoverable ⟨r, fun _ => none⟩ [] where
  sound := sound
  snapshot := logged.snapshot
  encodable := by simp
  fits := by simp
  reads := by
    have nothing : readAll [] = [] := rfl
    simp [logged.journal, nothing]
  whole _ := by simp [logged.journal]
  kept := by simp

theorem recoverable_of_fresh (fresh : Fresh s) : ∃ ops, Recoverable s ops := by
  obtain ⟨cfg, disk, clk, journal, snapshot, bak, started, kept⟩ := fresh
  obtain ⟨valid, logged⟩ := start_empty journal snapshot bak started
  obtain ⟨region, _⟩ := s
  cases kept
  exact ⟨[], recoverable_cleared logged valid.toSound⟩

section
variable (recoverable : Recoverable s ops)
include recoverable

theorem Recoverable.same (log : SameLog s.region r)
    (sound : r.Sound) (less : ∀ c loc, kept c = some loc → s.kept c = some loc) :
    Recoverable ⟨r, kept⟩ ops where
  sound := sound
  snapshot := by
    rw [← recoverable.snapshot, readSnapshot, readSnapshot, log.snapshot, log.snapshotBak, log.cfg]
  encodable := recoverable.encodable
  fits := by
    simp only [log.cfg]
    exact recoverable.fits
  reads := by
    simp only [log.journal]
    exact recoverable.reads
  whole := by
    simp only [log.journal]
    exact recoverable.whole
  kept c loc counts := recoverable.kept c loc (less c loc counts)

theorem Recoverable.restart
    (clk : Clock) : ∃ r, s.region.restart clk = .ok r ∧ Recoverable { s with region := r } ops := by
  obtain ⟨r, ok, restored⟩ := restart_restored s.region clk ops recoverable.snapshot recoverable.reads
    fun c loc named => placements_fits recoverable.fits named
  refine ⟨r, ok, recoverable.same restored.sameLog ⟨restored.started, restored.populated.grid,
    fun c e found => ?_⟩ fun _ _ counts => counts⟩
  have named : placements ops c = some e.placement := by
    rw [← restored.populated.entries c, found, map_some]
  rw [restored.cfg]
  exact placements_fits recoverable.fits named

theorem Recoverable.journaled {ops' : List JournalOp}
    {op : JournalOp} (own : op.Encodable) (fits : op.Fits s.region.cfg)
    (grown : ops' = ops ∨ ops' = ops ++ [op]) (sound : r.Sound) (cfg : r.cfg = s.region.cfg)
    (snapshot : r.disk.snapshot = s.region.disk.snapshot)
    (snapshotBak : r.disk.snapshotBak = s.region.disk.snapshotBak)
    (reads : readAll r.disk.journal = ops'.map toJson)
    (whole : WholeLines r.disk.journal → r.disk.journal = (ops'.map toJson).flatMap line)
    (counted : ∀ c loc, kept c = some loc → placements ops' c = some loc) :
    Recoverable ⟨r, kept⟩ ops' where
  sound := sound
  snapshot := by
    rw [← recoverable.snapshot, readSnapshot, readSnapshot, snapshot, snapshotBak, cfg]
  encodable := by
    rcases grown with rfl | rfl
    · exact recoverable.encodable
    · exact encodable_append recoverable.encodable own
  fits := by
    simp only [cfg]
    rcases grown with rfl | rfl
    · exact recoverable.fits
    · intro op' mem
      rcases mem_append.mp mem with old | new
      · exact recoverable.fits op' old
      · rw [mem_singleton.mp new]
        exact fits
  reads := reads
  whole := whole
  kept := counted

section
variable {op : JournalOp} (whole : WholeLines s.region.disk.journal) (own : op.Encodable)
  (fits : op.Fits s.region.cfg) (appended : Appended s.region r op)
include whole own fits appended

theorem Recoverable.append (sound : r.Sound)
    (counted : ∀ c loc, kept c = some loc → placements (ops ++ [op]) c = some loc) :
    Recoverable ⟨r, kept⟩ (ops ++ [op]) := by
  have lines : r.disk.journal = ((ops ++ [op]).map toJson).flatMap line := by
    rw [appended.journal, recoverable.whole whole]
    simp
  refine recoverable.journaled own fits (.inr rfl) sound appended.cfg appended.snapshot
    appended.snapshotBak ?_ (fun _ => lines) counted
  rw [lines, readAll_lines (records_of_encodable (encodable_append recoverable.encodable own))]

theorem Recoverable.cut (sound : r.Sound) (n : Nat)
    (counted : ∀ c loc, kept c = some loc → placements ops c = some loc ∧
      placements (ops ++ [op]) c = some loc) : ∃ ops', Recoverable ⟨{ r with disk := { r.disk with
      journal := r.disk.journal.take (s.region.disk.journal.length + n) } }, kept⟩ ops' := by
  obtain ⟨ops', grown, reads, shape⟩ := cut_line recoverable.encodable own n
  have journal : r.disk.journal.take (s.region.disk.journal.length + n) =
      (ops.map toJson).flatMap line ++ (line op.toJson).take n := by
    rw [appended.journal, take_length_add_append, recoverable.whole whole]
  rw [← journal] at reads shape
  have soundCut : Sound { r with disk := { r.disk with
      journal := r.disk.journal.take (s.region.disk.journal.length + n) } } :=
    { sound with }
  refine ⟨ops', recoverable.journaled own fits grown soundCut
    appended.cfg appended.snapshot appended.snapshotBak reads shape fun c loc counts => ?_⟩
  rcases grown with rfl | rfl
  · exact (counted c loc counts).1
  · exact (counted c loc counts).2

end

theorem Recoverable.op (op : TablespaceOp) (meets : OnWholeLines s (.op op)) :
    ∃ ops', Recoverable (s.step (.op op)) ops' := by
  obtain ⟨effect, sound⟩ := perform_effect recoverable.sound op
  simp only [step]
  cases effect with
  | same log unaccepted =>
    rw [unaccepted]
    exact ⟨ops, recoverable.same log sound fun c loc counts => (forget_some counts).1⟩
  | cleared cfg logged gone unaccepted =>
    rw [unaccepted]
    have none_kept : recordKept (s.region.perform op) (forget (s.region.perform op) s.kept) none =
        fun _ => none := by
      funext c
      simp [recordKept, forget, gone]
    rw [none_kept]
    exact ⟨[], recoverable_cleared logged sound⟩
  | put _ _ _ _ _ appended encodable fits target accepted placed =>
    have whole := meets (by simp [target])
    rw [accepted]
    refine ⟨_, recoverable.append whole encodable fits appended sound fun c' loc' counts => ?_⟩
    rw [placements_append]
    simp only [recordKept, placed, apply, update_apply] at counts ⊢
    split_ifs at counts ⊢
    · exact counts
    · exact recoverable.kept c' loc' (forget_some counts).1
  | del c appended target unaccepted gone =>
    have whole := meets (by simp [target])
    have encodable : (del c).Encodable := trivial
    rw [unaccepted]
    refine ⟨_, recoverable.append whole encodable trivial appended sound fun c' loc' counts => ?_⟩
    obtain ⟨before, resident⟩ := forget_some counts
    have other : c' ≠ c := fun same => resident (same ▸ gone)
    rw [placements_append, apply, update_of_ne other]
    exact recoverable.kept c' loc' before

theorem Recoverable.torn
    (op : TablespaceOp) (n : Nat) (meets : op.target.isSome → WholeLines s.region.disk.journal) :
    ∃ ops', Recoverable ⟨Tenure.torn s.region op n,
      forgetTarget (forget (s.region.perform op) s.kept) op.target⟩ ops' := by
  obtain ⟨effect, sound⟩ := perform_effect recoverable.sound op
  have soundTorn : (Tenure.torn s.region op n).Sound := { sound with }
  have less : ∀ c loc, forgetTarget (forget (s.region.perform op) s.kept) op.target c = some loc →
      s.kept c = some loc ∧ op.target ≠ some c := by
    intro c loc counts
    cases target : op.target with
    | none => exact ⟨(forget_some (by simpa [forgetTarget, target] using counts)).1, by simp⟩
    | some c' =>
      rw [target, forgetTarget, update_apply] at counts
      split_ifs at counts with same
      exact ⟨(forget_some counts).1, fun eq => same (some.inj eq).symm⟩
  -- the line that may be cut concerns the target only, and the target no longer counts
  have counted : ∀ {c place jop}, op.target = some c →
      apply (placements ops) jop = update (placements ops) c place →
      ∀ c' loc', forgetTarget (forget (s.region.perform op) s.kept) op.target c' = some loc' →
        placements ops c' = some loc' ∧ placements (ops ++ [jop]) c' = some loc' := by
    intro c place jop target applied c' loc' counts
    obtain ⟨before, notTarget⟩ := less c' loc' counts
    have other : c' ≠ c := fun same => notTarget (same ▸ target)
    have named := recoverable.kept c' loc' before
    exact ⟨named, by rw [placements_append, applied, update_of_ne other, named]⟩
  cases effect with
  | same log unaccepted =>
    have cutLog : SameLog s.region (Tenure.torn s.region op n) :=
      { log with journal := by simp [Tenure.torn, log.journal] }
    exact ⟨ops, recoverable.same cutLog soundTorn fun c loc counts => (less c loc counts).1⟩
  | cleared _ logged gone =>
    have none_kept : forgetTarget (forget (s.region.perform op) s.kept) op.target = fun _ => none := by
      funext c
      cases target : op.target <;> simp [forgetTarget, forget, gone, update_apply]
    rw [none_kept]
    have cutLog : Logged (Tenure.torn s.region op n) [] [] :=
      ⟨logged.snapshot, by simp, by simp [Tenure.torn, logged.journal]⟩
    exact ⟨[], recoverable_cleared cutLog soundTorn⟩
  | put _ _ _ _ _ appended encodable fits target =>
    exact recoverable.cut (meets (by simp [target])) encodable fits appended sound n
      (counted target rfl)
  | del c appended target =>
    have encodable : (del c).Encodable := trivial
    exact recoverable.cut (meets (by simp [target])) encodable trivial appended sound n
      (counted target rfl)

end

theorem Recoverable.step (recoverable : ∃ ops, Recoverable s ops) (event : Event)
    (meets : OnWholeLines s event) : ∃ ops', Recoverable (s.step event) ops' := by
  obtain ⟨ops, recoverable⟩ := recoverable
  cases event with
  | op op => exact recoverable.op op meets
  | crash clk =>
    obtain ⟨r, ok, again⟩ := recoverable.restart clk
    simp only [Tenure.step, ok]
    exact ⟨ops, again⟩
  | crashIn op n clk =>
    obtain ⟨ops', cut⟩ := recoverable.torn op n meets
    obtain ⟨r, ok, again⟩ := cut.restart clk
    simp only [Tenure.step, ok]
    exact ⟨ops', again⟩

/-- In every run whose journaling operations start from whole lines, the accepted blocks that count
are present after every `start`. -/
theorem kept_present_of_whole_lines {s : Tenure} (reached : Reaches Fresh step OnWholeLines s) :
    KeptPresent s := by
  obtain ⟨ops, recoverable⟩ := reached.invariant (fun _ fresh => recoverable_of_fresh fresh)
    fun _ event recoverable meets => Recoverable.step recoverable event meets
  exact recoverable.keptPresent

def firstTenure : Tenure := ⟨blank cfg, fun _ => none⟩

theorem firstTenure_fresh : Fresh (firstTenure cfg) :=
  ⟨cfg, blankDisk, fun _ => 0, rfl, rfl, rfl, start_blank cfg _, rfl⟩

/-- A crash leaves ten bytes of the first line. The next session's accepted write is glued to them
and lost at the next start. -/
theorem torn_tail_hides_later_puts :
    ∃ s, Reaches Fresh step (fun _ _ => True) s ∧ ¬KeptPresent s := by
  refine ⟨[.crashIn (putLong 1 7) 10 fun _ => 0, .op (putLong 2 8)].foldl step
    (firstTenure (fourByteSlots 1)), Reaches.unconditional _ (firstTenure_fresh _), fun present => ?_⟩
  obtain ⟨r, ok, again⟩ := present fun _ => 0
  have missing : (([.crashIn (putLong 1 7) 10 fun _ => 0, .op (putLong 2 8)].foldl step
      (firstTenure (fourByteSlots 1))).region.restart fun _ => 0).map
        (fun r => (r.getEntry ⟨"m", "", [2]⟩).isNone) = .ok true := by
    decide +kernel
  rw [ok] at missing
  obtain ⟨e, found, -⟩ := again ⟨"m", "", [2]⟩ ⟨0, 0, 1⟩ (by decide +kernel)
  have absent : (r.getEntry ⟨"m", "", [2]⟩).isNone = true := Except.ok.inj missing
  rw [found] at absent
  exact Bool.false_ne_true absent

theorem cleared_tail_harmless :
    KeptPresent ([.crashIn (putLong 1 7) 10 fun _ => 0, .op .clear, .op (putLong 2 8)].foldl step
      (firstTenure (fourByteSlots 1))) := by
  have begun : Reaches Fresh step OnWholeLines (firstTenure (fourByteSlots 1)) :=
    .start (firstTenure_fresh _)
  have crashed := begun.next (Event.crashIn (putLong 1 7) 10 fun _ => 0) fun _ => .inl rfl
  have cleared := crashed.next (Event.op .clear) fun journaling => absurd journaling (by decide)
  exact kept_present_of_whole_lines (cleared.next (Event.op (putLong 2 8)) fun _ => .inl rfl)

end Tenure
end Infera.Kvd
