import Infera.Kvd.ArenaPartition
import Infera.Kvd.StoreRows

/-! What a write does to the store. `WellFormed` holds of every reachable store
whatever the requests; `set` is taken apart once, into the row it seats
(`Seated`), the drain, and the writes to the tiers. -/

namespace Infera.Kvd
namespace HostStore
variable {σ ρ : Type}
variable {st st' : HostStore σ ρ} {w : Write} {base : HostStore σ ρ}

structure WellFormed (st : HostStore σ ρ) : Prop where
  lockstep : st.Lockstep
  ledger : ∀ arena, st.sharedArena = some arena → arena.Ledger
  named : ∀ c e, st.entries.get? c = some e →
    e.key = c.key ∧ e.model = c.model ∧ e.compatKey = c.compatKey
  inline : st.sharedArena = none → ∀ c e, st.entries.get? c = some e → e.slotId < 0
  oidBelow : ∀ c e, st.entries.get? c = some e → e.oid < st.nextOid
  oidUnique : ∀ c c' e e', st.entries.get? c = some e → st.entries.get? c' = some e' →
    e.oid = e'.oid → c = c'

theorem nextOid_dropRow (st : HostStore σ ρ) (c : Composite) :
    (st.dropRow c).nextOid = st.nextOid := by
  unfold dropRow
  split <;> rfl

section
variable (wf : st.WellFormed) (c : Composite)
include wf

theorem WellFormed.shrink (lock : st'.Lockstep)
    (rows : ∀ c e, st'.entries.get? c = some e → st.entries.get? c = some e)
    (arena : ∀ a, st'.sharedArena = some a → a.Ledger)
    (wired : st'.sharedArena = none → st.sharedArena = none) (oid : st'.nextOid = st.nextOid) :
    st'.WellFormed where
  lockstep := lock
  ledger := arena
  named c e found := wf.named c e (rows c e found)
  inline none c e found := wf.inline (wired none) c e (rows c e found)
  oidBelow c e found := oid ▸ wf.oidBelow c e (rows c e found)
  oidUnique c c' e e' found found' := wf.oidUnique c c' e e' (rows c e found) (rows c' e' found')

theorem WellFormed.mapArena (f : SharedArena → SharedArena)
    (keeps : ∀ a, st.sharedArena = some a → a.Ledger → (f a).Ledger) :
    (st.mapArena f).WellFormed := by
  refine wf.shrink (wf.lockstep.congr (by simp) (by simp)) (by simp) ?_ (by simp) ?_
  · intro a wired
    rw [sharedArena_mapArena] at wired
    obtain ⟨a', wired', rfl⟩ := Option.map_eq_some_iff.mp wired
    exact keeps a' wired' (wf.ledger a' wired')
  · unfold HostStore.mapArena
    split <;> rfl

theorem WellFormed.dropRow : (st.dropRow c).WellFormed := by
  refine wf.shrink (wf.lockstep.dropRow c) ?_ ?_ (by simp) (st.nextOid_dropRow c)
  · intro c' e found
    rw [get?_dropRow] at found
    split_ifs at found
    exact found
  · simpa using wf.ledger

theorem WellFormed.stats (stats : StoreStats) : WellFormed { st with stats := stats } :=
  { wf with }

theorem WellFormed.storeBytes (key value : Bytes) : (st.storeBytes key value).1.WellFormed := by
  unfold HostStore.storeBytes
  split
  · exact wf
  · rename_i arena wired
    have stored := wf.mapArena (fun a => (a.put key value).1) fun a _ ledger => ledger.put key value
    simpa [HostStore.mapArena, wired] using stored

end

theorem wellFormed_sheds : Sheds (WellFormed : HostStore σ ρ → Prop) where
  drop c wf := wf.dropRow c
  release key wf := wf.mapArena _ fun _ _ ledger => ledger.evictKey key false
  drain wf := wf.mapArena _ fun _ _ ledger => ledger.drainRecentEvictions
  stats stats wf := wf.stats stats

structure Write where
  clk : Clock
  c : Composite
  value : Bytes
  retention : Retention
  metadata : Metadata
  expiresAt : Option ℚ

/-- `st'` is `base` with the bytes of the write pushed down and its row in place. -/
structure Seated (w : Write) (base st' : HostStore σ ρ) (slot : Option Nat) (e : Entry) : Prop where
  put : (base.storeBytes w.c.key w.value).2 = .ok slot
  arena : st'.sharedArena = (base.storeBytes w.c.key w.value).1.sharedArena
  entries : st'.entries = base.entries.set w.c e
  tiers : SameTiers base st'
  lockstep : st'.Lockstep
  named : e.key = w.c.key ∧ e.model = w.c.model ∧ e.compatKey = w.c.compatKey
  inline : slot = none → e.value = w.value ∧ e.slotId < 0
  backed : ∀ s, slot = some s → e.slotId = s
  retention : e.retention = w.retention
  metadata : e.metadata = w.metadata
  expiresAt : e.expiresAt = w.expiresAt
  oid : (∃ old, base.entries.get? w.c = some old ∧ e.oid = old.oid ∧ st'.nextOid = base.nextOid) ∨
    (base.entries.get? w.c = none ∧ e.oid = base.nextOid ∧ st'.nextOid = base.nextOid + 1)

/-- The store the bytes are pushed from: a present row keeps it as it is, a new row first
makes room. -/
def RoomMade (w : Write) (st base : HostStore σ ρ) (spills : List Spill) : Prop :=
  (∃ e, st.entries.get? w.c = some e ∧ e.priority ≤ w.retention.priority ∧ base = st ∧
      spills = []) ∨
    (st.entries.get? w.c = none ∧ st.inlineDemand w.value.length ≤ st.maxBytes ∧
      makeRoom st.entries.items.length st (st.inlineDemand w.value.length) w.retention [] =
        (base, some spills))

/-- The ways a write can leave `setRow`. -/
inductive RowOutcome (w : Write) (st : HostStore σ ρ) :
    HostStore σ ρ → Except PyErr RowResult → Prop
  | downgrade (e : Entry) (row : st.entries.get? w.c = some e)
      (lower : w.retention.priority < e.priority) :
      RowOutcome w st st.countRejection (.ok (.rejected "retention_downgrade_not_allowed"))
  | tooLarge (absent : st.entries.get? w.c = none)
      (large : st.inlineDemand w.value.length > st.maxBytes) :
      RowOutcome w st st.countRejection (.ok (.rejected "value_larger_than_store"))
  | protectedRows (base : HostStore σ ρ) (absent : st.entries.get? w.c = none)
      (fits : st.inlineDemand w.value.length ≤ st.maxBytes)
      (stuck : makeRoom st.entries.items.length st (st.inlineDemand w.value.length) w.retention [] =
        (base, none)) :
      RowOutcome w st base (.ok (.rejected "would_displace_higher_priority"))
  | raised (base : HostStore σ ρ) (spills : List Spill) (room : RoomMade w st base spills)
      (err : PyErr) (put : (base.storeBytes w.c.key w.value).2 = .error err) :
      RowOutcome w st (base.storeBytes w.c.key w.value).1 (.error err)
  | stored (base st' : HostStore σ ρ) (spills : List Spill) (room : RoomMade w st base spills)
      (slot : Option Nat) (e : Entry) (seated : Seated w base st' slot e) :
      RowOutcome w st st' (.ok (.stored spills))

section
variable (st : HostStore σ ρ) (key value : Bytes)

@[simp] theorem entries_storeBytes : (st.storeBytes key value).1.entries = st.entries := by
  unfold storeBytes
  split <;> rfl

@[simp] theorem keyIndex_storeBytes : (st.storeBytes key value).1.keyIndex = st.keyIndex := by
  unfold storeBytes
  split <;> rfl

@[simp] theorem nextOid_storeBytes : (st.storeBytes key value).1.nextOid = st.nextOid := by
  unfold storeBytes
  split <;> rfl

end

theorem storeBytes_of_no_arena (none : st.sharedArena = none)
    (key value : Bytes) : st.storeBytes key value = (st, .ok Option.none) := by
  simp [storeBytes, none]

theorem storeBytes_of_arena {arena : SharedArena}
    (wired : st.sharedArena = some arena) (key value : Bytes) :
    st.storeBytes key value = (st.setArena (arena.put key value).1, (arena.put key value).2) := by
  simp [storeBytes, wired]

section
variable (wf : st.WellFormed)
include wf

theorem WellFormed.overwriteRow (w : Write) (e : Entry)
    (row : st.entries.get? w.c = some e) : RowOutcome w st
      (st.overwriteRow w.clk w.c e w.value w.retention w.metadata w.expiresAt).1
      (st.overwriteRow w.clk w.c e w.value w.retention w.metadata w.expiresAt).2 := by
  unfold HostStore.overwriteRow
  split_ifs with lower
  · exact .downgrade e row lower
  · have room : RoomMade w st st [] := .inl ⟨e, row, not_lt.mp lower, rfl, rfl⟩
    simp only
    cases put : (st.storeBytes w.c.key w.value).2 with
    | error err => exact .raised st [] room err put
    | ok slot =>
      refine .stored st _ [] room slot _ ⟨put, rfl, by rw [entries_storeBytes], ?_, ?_, ?_, ?_, ?_,
        ?_, ?_, ?_, ?_⟩
      · exact (st.sameTiers_storeBytes w.c.key w.value).trans ⟨rfl, rfl, rfl, rfl⟩
      · exact wf.lockstep.overwrite (by simp) row (by rw [entries_storeBytes])
      · have named := wf.named w.c e row
        unfold overwriteEntry
        split <;> exact named
      · rintro rfl
        unfold overwriteEntry
        split
        · rename_i unwired
          exact ⟨rfl, wf.inline unwired w.c e row⟩
        · exact ⟨rfl, (by decide : (-1 : Int) < 0)⟩
        · rename_i eq
          simp at eq
      · rintro s rfl
        unfold overwriteEntry
        split
        · rename_i unwired
          rw [storeBytes_of_no_arena unwired] at put
          simp at put
        · rename_i eq
          simp at eq
        · rename_i eq
          simp only [Option.some.injEq] at eq
          simp [eq]
      · unfold overwriteEntry
        split <;> rfl
      · unfold overwriteEntry
        split <;> rfl
      · unfold overwriteEntry
        split <;> rfl
      · refine .inl ⟨e, row, ?_, by simp⟩
        unfold overwriteEntry
        split <;> rfl

theorem WellFormed.insertRow (w : Write) (absent : st.entries.get? w.c = none) : RowOutcome w st
      (st.insertRow w.clk w.c w.value w.retention w.metadata w.expiresAt).1
      (st.insertRow w.clk w.c w.value w.retention w.metadata w.expiresAt).2 := by
  unfold HostStore.insertRow
  simp only
  split_ifs with large
  · exact .tooLarge absent large
  · have fits := not_lt.mp large
    have roomWf := wellFormed_sheds.makeRoom w.retention wf (st.inlineDemand w.value.length)
      st.entries.items.length []
    have gone := (absent_sheds w.c).makeRoom w.retention absent (st.inlineDemand w.value.length)
      st.entries.items.length []
    cases made : HostStore.makeRoom st.entries.items.length st (st.inlineDemand w.value.length)
      w.retention [] with
    | mk base out =>
      rw [made] at roomWf gone
      cases out with
      | none => exact .protectedRows base absent fits made
      | some spills =>
        have room : RoomMade w st base spills := .inr ⟨absent, fits, made⟩
        cases put : (base.storeBytes w.c.key w.value).2 with
        | error err => exact .raised base spills room err put
        | ok slot =>
          refine .stored base _ spills room slot _ ⟨put, rfl, by rw [entries_storeBytes], ?_, ?_,
            ⟨rfl, rfl, rfl⟩, ?_, ?_, rfl, rfl, rfl, .inr ⟨gone, by simp [newEntry], by simp⟩⟩
          · exact (base.sameTiers_storeBytes w.c.key w.value).trans ⟨rfl, rfl, rfl, rfl⟩
          · exact roomWf.lockstep.add (c := w.c) (by simp) (by rw [entries_storeBytes])
          · rintro rfl
            exact ⟨rfl, (by decide : (-1 : Int) < 0)⟩
          · rintro s rfl
            rfl

theorem WellFormed.rowOutcome (w : Write) : RowOutcome w st
      (st.setRow w.clk w.c w.value w.retention w.metadata w.expiresAt).1
      (st.setRow w.clk w.c w.value w.retention w.metadata w.expiresAt).2 := by
  unfold setRow
  split
  · rename_i e row
    exact wf.overwriteRow w e row
  · rename_i absent
    exact wf.insertRow w absent

theorem WellFormed.seat {c : Composite} {e : Entry}
    (entries : st'.entries = st.entries.set c e) (lock : st'.Lockstep)
    (arena : ∀ a, st'.sharedArena = some a → a.Ledger)
    (named : e.key = c.key ∧ e.model = c.model ∧ e.compatKey = c.compatKey)
    (inline : st'.sharedArena = none → st.sharedArena = none ∧ e.slotId < 0)
    (oid : (∃ old, st.entries.get? c = some old ∧ e.oid = old.oid ∧ st'.nextOid = st.nextOid) ∨
      (e.oid = st.nextOid ∧ st'.nextOid = st.nextOid + 1)) : st'.WellFormed := by
  have fresh : ∀ c' e', c' ≠ c → st.entries.get? c' = some e' → e'.oid ≠ e.oid := by
    intro c' e' other found same
    rcases oid with ⟨old, row, oid, -⟩ | ⟨oid, -⟩
    · exact other (wf.oidUnique c' c e' old found row (same.trans oid))
    · exact absurd (wf.oidBelow c' e' found) (by omega)
  refine ⟨lock, arena, ?_, ?_, ?_, ?_⟩
  · intro c' e' found
    rcases Dict.get?_set_cases (entries ▸ found) with ⟨rfl, rfl⟩ | ⟨-, found⟩
    · exact named
    · exact wf.named c' e' found
  · intro unwired c' e' found
    rcases Dict.get?_set_cases (entries ▸ found) with ⟨rfl, rfl⟩ | ⟨-, found⟩
    · exact (inline unwired).2
    · exact wf.inline (inline unwired).1 c' e' found
  · intro c' e' found
    rcases Dict.get?_set_cases (entries ▸ found) with ⟨rfl, rfl⟩ | ⟨-, found⟩
    · rcases oid with ⟨old, row, oid, next⟩ | ⟨oid, next⟩
      · have old := wf.oidBelow _ old row
        omega
      · omega
    · have old := wf.oidBelow c' e' found
      omega
  · rw [entries]
    exact Dict.key_unique_set Entry.oid fresh wf.oidUnique

theorem WellFormed.roomMade {spills : List Spill}
    (room : RoomMade w st base spills) : base.WellFormed := by
  rcases room with ⟨e, -, -, rfl, -⟩ | ⟨-, -, made⟩
  · exact wf
  · have room := wellFormed_sheds.makeRoom w.retention wf (st.inlineDemand w.value.length)
      st.entries.items.length []
    rwa [made] at room

theorem WellFormed.sameRam (same : SameRam st st') : st'.WellFormed :=
  ⟨wf.lockstep.congr same.keyIndex (by simp [same.entries]), by rw [same.sharedArena]; exact wf.ledger,
    by rw [same.entries]; exact wf.named, by rw [same.entries, same.sharedArena]; exact wf.inline,
    by rw [same.entries, same.nextOid]; exact wf.oidBelow, by rw [same.entries]; exact wf.oidUnique⟩

end

theorem sharedArena_storeBytes_eq_none {key value : Bytes}
    (unwired : (st.storeBytes key value).1.sharedArena = none) : st.sharedArena = none := by
  cases wired : st.sharedArena with
  | none => rfl
  | some arena =>
    rw [storeBytes_of_arena wired] at unwired
    simp [setArena] at unwired

theorem WellFormed.ofSeated {slot : Option Nat} {e : Entry}
    (wf : base.WellFormed) (seated : Seated w base st' slot e) : st'.WellFormed := by
  refine wf.seat seated.entries seated.lockstep ?_ seated.named ?_ ?_
  · rw [seated.arena]
    exact (wf.storeBytes w.c.key w.value).ledger
  · intro unwired
    rw [seated.arena] at unwired
    have unwired := sharedArena_storeBytes_eq_none unwired
    have inline := seated.put
    rw [storeBytes_of_no_arena unwired] at inline
    exact ⟨unwired, (seated.inline (Except.ok.inj inline).symm).2⟩
  · rcases seated.oid with own | ⟨-, fresh⟩
    · exact .inl own
    · exact .inr fresh

theorem WellFormed.ofRowOutcome {out : Except PyErr RowResult}
    (wf : st.WellFormed) (outcome : RowOutcome w st st' out) : st'.WellFormed := by
  cases outcome with
  | downgrade | tooLarge => exact wf.stats _
  | protectedRows _ absent _ stuck =>
    have room := wellFormed_sheds.makeRoom w.retention wf (st.inlineDemand w.value.length)
      st.entries.items.length []
    rwa [stuck] at room
  | raised _ _ room => exact (wf.roomMade room).storeBytes w.c.key w.value
  | stored _ _ _ room _ _ seated => exact (wf.roomMade room).ofSeated seated

theorem sameRam_flushSpills [Region σ] (spills : List Spill) :
    ∀ (st : HostStore σ ρ) (clk : Clock), SameRam st (st.flushSpills clk spills).1 := by
  induction spills with
  | nil => exact fun st _ => .refl st
  | cons spill spills ih =>
    intro st clk
    unfold flushSpills
    split
    · exact .refl st
    · simp only
      split
      · exact st.sameRam_setSpillover _
      · exact (st.sameRam_setSpillover _).trans (ih _ _)

theorem sameRam_writeThrough [Region ρ] (st : HostStore σ ρ) (clk : Clock) (c : Composite)
    (retention : Retention) : SameRam st (st.writeThrough clk c retention).1 := by
  unfold writeThrough
  split
  · exact st.sameRam_setLongRegion _
  · exact .refl st

variable [Region σ] [Region ρ] {out : Except PyErr (Bool × Option String)}

abbrev write (st : HostStore σ ρ) (w : Write) :
    HostStore σ ρ × Except PyErr (Bool × Option String) :=
  st.setLive w.clk w.c w.value w.retention w.metadata w.expiresAt

omit [Region ρ] in
theorem sameRam_flushed {flushed : HostStore σ ρ} {clk : Clock} {spills : List Spill}
    {out : Except PyErr Unit} (flush : st.flushSpills clk spills = (flushed, out)) :
    SameRam st flushed := by
  simpa [flush] using sameRam_flushSpills spills st clk

omit [Region σ] in
theorem sameRam_written {written : HostStore σ ρ} {clk : Clock} {c : Composite}
    {retention : Retention} {out : Except PyErr Unit}
    (write : st.writeThrough clk c retention = (written, out)) : SameRam st written := by
  simpa [write] using sameRam_writeThrough st clk c retention

/-- The ways a write can leave `set`. Whatever the tiers answer, a stored row leaves RAM as the
drain left it. -/
inductive SetOutcome (w : Write) (st : HostStore σ ρ) :
    HostStore σ ρ → Except PyErr (Bool × Option String) → Prop
  | refused (st' : HostStore σ ρ) (reason : String)
      (row : RowOutcome w st.countSet st' (.ok (.rejected reason))) :
      SetOutcome w st st' (.ok (false, some reason))
  | raised (st' : HostStore σ ρ) (err : PyErr) (row : RowOutcome w st.countSet st' (.error err)) :
      SetOutcome w st st' (.error err)
  | spillRaised (row : HostStore σ ρ) (spills : List Spill)
      (outcome : RowOutcome w st.countSet row (.ok (.stored spills))) (err : PyErr)
      (flush : (row.drainEvicted.flushSpills (w.clk.after 2) spills).2 = .error err) :
      SetOutcome w st (row.drainEvicted.flushSpills (w.clk.after 2) spills).1 (.error err)
  | longRaised (row flushed : HostStore σ ρ) (spills : List Spill)
      (outcome : RowOutcome w st.countSet row (.ok (.stored spills)))
      (flush : row.drainEvicted.flushSpills (w.clk.after 2) spills = (flushed, .ok ()))
      (err : PyErr)
      (write : (flushed.writeThrough (w.clk.after (2 + spills.length)) w.c w.retention).2 =
        .error err) :
      SetOutcome w st (flushed.writeThrough (w.clk.after (2 + spills.length)) w.c w.retention).1
        (.error err)
  | accepted (row flushed written : HostStore σ ρ) (spills : List Spill)
      (outcome : RowOutcome w st.countSet row (.ok (.stored spills)))
      (flush : row.drainEvicted.flushSpills (w.clk.after 2) spills = (flushed, .ok ()))
      (write : flushed.writeThrough (w.clk.after (2 + spills.length)) w.c w.retention =
        (written, .ok ())) :
      SetOutcome w st (written.recordAccepted w.c w.value) (.ok (true, none))

theorem WellFormed.setOutcome (wf : st.WellFormed) (w : Write) :
    SetOutcome w st (st.write w).1 (st.write w).2 := by
  have counted : st.countSet.WellFormed := wf.stats _
  have outcome := counted.rowOutcome w
  unfold write setLive
  generalize st.countSet.setRow w.clk w.c w.value w.retention w.metadata w.expiresAt = row at outcome
  obtain ⟨row, out⟩ := row
  match out, outcome with
  | .error err, outcome => exact .raised row err outcome
  | .ok (.rejected reason), outcome => exact .refused row reason outcome
  | .ok (.stored spills), outcome =>
    simp only
    cases flush : row.drainEvicted.flushSpills (w.clk.after 2) spills with
    | mk flushed out =>
      cases out with
      | error err =>
        have raised := SetOutcome.spillRaised row spills outcome err (by rw [flush])
        rwa [flush] at raised
      | ok u =>
        cases write : flushed.writeThrough (w.clk.after (2 + spills.length)) w.c w.retention with
        | mk written out =>
          cases out with
          | error err =>
            have raised := SetOutcome.longRaised row flushed spills outcome flush err (by rw [write])
            rwa [write] at raised
          | ok u => exact .accepted row flushed written spills outcome flush write

theorem SetOutcome.ram (outcome : SetOutcome w st st' out) :
    (∃ result, RowOutcome w st.countSet st' result) ∨
      ∃ row spills accepted, RowOutcome w st.countSet row (.ok (.stored spills)) ∧
        SameRam row.drainEvicted { st' with accepted } := by
  cases outcome with
  | refused _ reason row | raised _ err row => exact .inl ⟨_, row⟩
  | spillRaised row spills outcome =>
    exact .inr ⟨row, spills, _, outcome, sameRam_flushSpills _ _ _⟩
  | longRaised row _ spills outcome flush =>
    exact .inr ⟨row, spills, _, outcome,
      (sameRam_flushed flush).trans (sameRam_writeThrough _ _ _ _)⟩
  | accepted row flushed written spills outcome flush write =>
    exact .inr ⟨row, spills, written.accepted, outcome,
      (sameRam_flushed flush).trans (sameRam_written write)⟩

/-- A property of RAM that survives the write of a row survives a `set`: the drain sheds rows, and
the tiers are out of its reach. -/
theorem Sheds.set {P : HostStore σ ρ → Prop} (sheds : Sheds P)
    (row : ∀ {st}, P st → ∀ clk c value retention metadata expiresAt,
      P (st.setRow clk c value retention metadata expiresAt).1)
    (same : ∀ {st st'}, P st → SameRam st st' → P st')
    (record : ∀ {st} c value, P st → P (st.recordAccepted c value)) (holds : P st) (clk : Clock)
    (c : Composite) (value : Bytes) (retention : Retention) (metadata : Metadata)
    (ttl : Option ℚ) : P (st.set clk c value retention metadata ttl).1 := by
  have counted : P st.countSet := sheds.stats _ holds
  have live : ∀ expiresAt, P (st.setLive clk c value retention metadata expiresAt).1 := by
    intro expiresAt
    have row := row counted clk c value retention metadata expiresAt
    unfold setLive
    simp only
    split
    · exact row
    · exact row
    · rename_i spills _
      have flushed := same (sheds.drainEvicted row) (sameRam_flushSpills spills _ (clk.after 2))
      split
      · exact flushed
      · have written := same flushed
          (sameRam_writeThrough _ (clk.after (2 + spills.length)) c retention)
        split
        · exact written
        · exact record c value written
  unfold HostStore.set
  split
  · exact live none
  · split_ifs
    · exact counted
    · exact live _

theorem WellFormed.set (wf : st.WellFormed) :
    ∀ clk c value retention metadata ttl,
      (st.set clk c value retention metadata ttl).1.WellFormed :=
  wellFormed_sheds.set (fun wf clk c value retention metadata expiresAt =>
    wf.ofRowOutcome (wf.rowOutcome ⟨clk, c, value, retention, metadata, expiresAt⟩)) .sameRam
    (fun _ _ wf => { wf with }) wf

end HostStore
end Infera.Kvd
