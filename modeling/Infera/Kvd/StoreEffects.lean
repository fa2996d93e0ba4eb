import Infera.Kvd.StoreTiers

/-! The effect of a whole `set`. A write whose row is not stored only loses rows
(`Left`). One whose row is stored seats it, drains the arena's log, spills the
evicted short rows and writes a long row through (`Took`). -/

namespace Infera.Kvd
open Option HostStore

namespace SharedArena

variable {k : Bytes}

theorem mem_log_put {a : SharedArena} {key value : Bytes} {slot : Option Nat}
    (wf : a.Ledger) (ok : (a.put key value).2 = .ok slot)
    (logged : k ∈ (a.put key value).1.recentEvictedKeys) : k ∈ a.recentEvictedKeys ∨ k ≠ key := by
  cases slot with
  | some slot => exact (wf.put_placed ok).logged k logged
  | none =>
    rcases a.put_cases key value with ⟨-, eq⟩ | ⟨-, ⟨-, eq⟩ | ⟨slot, c, -, eq⟩⟩
    · rw [eq] at logged
      unfold refused at logged
      split_ifs at logged
      · exact .inl logged
      · exact .inl (by simpa using logged)
    · simp [eq] at ok
    · rw [eq] at ok
      cases written : ((c.slots slot).writeSeqlock value).2 <;> simp [written, Except.map] at ok

theorem log_subset_put {a : SharedArena} (key value : Bytes)
    (room : a.recentEvictedKeys.length < evictLogCap) (logged : k ∈ a.recentEvictedKeys) :
    k ∈ (a.put key value).1.recentEvictedKeys := by
  rcases a.put_cases key value with ⟨-, eq⟩ | ⟨-, ⟨-, eq⟩ | ⟨slot, c, took, eq⟩⟩
  · rw [eq]
    unfold refused
    split_ifs
    · exact logged
    · simpa using logged
  · rw [eq]
    simpa [(releaseKey_frame _ key).2.2.2] using logged
  · have before : ((a.ensureGrid value.length).releaseKey key).recentEvictedKeys =
        a.recentEvictedKeys := by
      rw [(releaseKey_frame _ key).2.2.2, recentEvictedKeys_ensureGrid]
    rw [eq]
    rcases takeSlot_cases took with ⟨rest, -, rfl⟩ | ⟨-, victim, rest, -, rfl⟩
    · exact before ▸ logged
    · simp only [before, logEvicted, if_pos room]
      exact List.mem_append_left _ logged

end SharedArena

namespace HostStore
variable {σ ρ : Type} {e : Entry} {w : Write}
variable {st st' : HostStore σ ρ} {c : Composite}

/-- The arena's notices that the next drain will act on. -/
def pendingNotices (st : HostStore σ ρ) : List Bytes :=
  match st.sharedArena with
  | none => []
  | some arena => arena.recentEvictedKeys

theorem pendingNotices_of_loosened (loose : LoosenedArena st st') :
    st'.pendingNotices = st.pendingNotices := by
  unfold pendingNotices
  rcases loose with ⟨none, none'⟩ | ⟨a, b, wired, wired', loose⟩
  · rw [none, none']
  · rw [wired, wired']
    exact loose.log

theorem get?_drain (lock : st.Lockstep) (c : Composite) : st.drainEvicted.entries.get? c =
      if c.key ∈ st.pendingNotices then none else st.entries.get? c := by
  cases wired : st.sharedArena with
  | none => simp [drainEvicted_of_no_arena wired, pendingNotices, wired]
  | some arena => simp [get?_drainEvicted wired lock c, pendingNotices, wired]

theorem resolveValue_drain (st : HostStore σ ρ) (e : Entry) :
    st.drainEvicted.resolveValue e = st.resolveValue e := by
  cases wired : st.sharedArena with
  | none => rw [drainEvicted_of_no_arena wired]
  | some arena =>
    unfold resolveValue
    rw [sharedArena_drainEvicted wired, wired]
    rfl

section
variable {w : Write} {base st' : HostStore σ ρ} {slot : Option Nat} {e : Entry}
  (seated : Seated w base st' slot e)
include seated

theorem Seated.drained {e' : Entry} (found : st'.drainEvicted.entries.get? c = some e') :
    (base.entries.set w.c e).get? c = some e' := by
  rw [get?_drain seated.lockstep, seated.entries] at found
  split_ifs at found
  exact found

theorem Seated.own {e' : Entry} (found : st'.drainEvicted.entries.get? w.c = some e') : e' = e := by
  have seat := seated.drained found
  rw [Dict.get?_set_self] at seat
  exact (some.inj seat).symm

theorem Seated.notice (wf : base.WellFormed) (noticed : k ∈ st'.pendingNotices) : k ∈ base.pendingNotices ∨ k ≠ w.c.key := by
  have put := seated.put
  unfold pendingNotices at noticed ⊢
  rw [seated.arena] at noticed
  cases wired : base.sharedArena with
  | none => simp [storeBytes_of_no_arena wired, wired] at noticed
  | some arena =>
    rw [storeBytes_of_arena wired] at noticed put
    exact SharedArena.mem_log_put (wf.ledger arena wired) put noticed

theorem Seated.notice_kept (room : base.pendingNotices.length < evictLogCap)
    (noticed : k ∈ base.pendingNotices) : k ∈ st'.pendingNotices := by
  unfold pendingNotices at noticed room ⊢
  rw [seated.arena]
  cases wired : base.sharedArena with
  | none => simp [wired] at noticed
  | some arena =>
    rw [wired] at noticed room
    rw [storeBytes_of_arena wired]
    exact SharedArena.log_subset_put w.c.key w.value room noticed

theorem Seated.resolveValue (wf : base.WellFormed) : st'.resolveValue e = w.value := by
  have put := seated.put
  cases slot with
  | none =>
    obtain ⟨value, inline⟩ := seated.inline rfl
    simp [HostStore.resolveValue, if_pos inline, value]
  | some s =>
    have backed := seated.backed s rfl
    cases wired : base.sharedArena with
    | none => simp [storeBytes_of_no_arena wired] at put
    | some arena =>
      rw [storeBytes_of_arena wired] at put
      have placed := (wf.ledger arena wired).put_placed put
      have arena' : st'.sharedArena = some (arena.put w.c.key w.value).1 := by
        rw [seated.arena, storeBytes_of_arena wired]
        rfl
      simp [HostStore.resolveValue, backed, arena', placed.reads]

end

variable [Region σ] [Region ρ] {st : HostStore σ ρ}

theorem set_eq_setLive (st : HostStore σ ρ) (clk : Clock) (c : Composite) (value : Bytes)
    (retention : Retention) (metadata : Metadata) {ttl : Option ℚ}
    (positive : ∀ t, ttl = some t → 0 < t) : st.set clk c value retention metadata ttl =
      st.setLive clk c value retention metadata (ttl.map (clk 0 + ·)) := by
  cases ttl with
  | none => rfl
  | some t => simp [HostStore.set, if_neg (not_le.mpr (positive t rfl))]

/-- What an accepted write leaves: the seated row and its drain, RAM untouched since. -/
structure Stored (w : Write) (st st' base row : HostStore σ ρ) (spills : List Spill)
    (slot : Option Nat) (e : Entry) : Prop where
  room : RoomMade w st.countSet base spills
  seated : Seated w base row slot e
  entries : st'.entries = row.drainEvicted.entries
  arena : st'.sharedArena = row.drainEvicted.sharedArena
  tiers : ∃ flushed, row.drainEvicted.flushSpills (w.clk.after 2) spills = (flushed, .ok ()) ∧
    st' = (flushed.writeThrough (w.clk.after (2 + spills.length)) w.c w.retention).1.recordAccepted
      w.c w.value

theorem WellFormed.stored (wf : st.WellFormed) (w : Write)
    (accepted : (st.write w).2 = .ok (true, none)) :
    ∃ base row spills slot e, Stored w st (st.write w).1 base row spills slot e := by
  have outcome := wf.setOutcome w
  generalize st.write w = result at *
  obtain ⟨st', out⟩ := result
  simp only at outcome accepted ⊢
  subst accepted
  cases outcome with
  | accepted row flushed written spills outcome flush write =>
    have same := (sameRam_flushed flush).trans (sameRam_written write)
    cases outcome with
    | stored base _ _ room slot e seated =>
      exact ⟨base, row, spills, slot, e, room, seated, same.entries, same.sharedArena, flushed, flush,
        by rw [write]⟩

theorem get_of_row
    (row : st.entries.get? c = some e) {clk : Clock} (live : e.isExpired (clk 0) = false) :
    (st.get clk c).2 = .ok (some { e with lastAccess := clk 1 }) ∧
      (st.get clk c).1.sharedArena = st.sharedArena := by
  have row' : st.countGet.entries.get? c = some e := row
  simp only [get, row', live, Bool.false_eq_true, if_false, true_and]
  rfl

section
variable [LawfulRegion σ] [LawfulRegion ρ]
open LawfulRegion

theorem NotBelow.flushSpills (below : st.NotBelow c)
    (spills : List Spill) (others : ∀ s ∈ spills, s.composite ≠ c ∧ Apart σ s.composite)
    (clk : Clock) : (st.flushSpills clk spills).1.NotBelow c := by
  refine BothTiers.flushSpills spills (fun r clk s mem holds => ?_) st clk below
  obtain ⟨valid, absent⟩ := holds
  have other := others s mem
  refine ⟨put_valid r clk _ _ _ _ valid other.2, ?_⟩
  have kept := put_other r clk s.composite s.value .short s.metadata c valid other.2 other.1.symm
  exact (absent ▸ kept).none

end

/-- Rows may be gone; the tiers are as before. -/
structure Left (st st' : HostStore σ ρ) : Prop where
  rows : ∀ c e, st'.entries.get? c = some e → st.entries.get? c = some e
  tiers : SameTiers st st'
  unwired : st.sharedArena = none → st'.sharedArena = none

/-- The row of the write is in place or was drained, others may be gone, and the tiers got the
spilled blocks and the block of a long write. -/
structure Took (w : Write) (st st' : HostStore σ ρ) : Prop where
  others : ∀ c e, c ≠ w.c → st'.entries.get? c = some e → st.entries.get? c = some e
  own : ∀ e, st'.entries.get? w.c = some e → e.retention = w.retention ∧
    e.metadata = w.metadata ∧ e.expiresAt = w.expiresAt ∧ st'.resolveValue e = w.value
  unwired : st.sharedArena = none → st'.sharedArena = none
  present : st.sharedArena = none → st'.entries.get? w.c ≠ none
  tiers : ∀ {P : σ → Prop} {Q : ρ → Prop}, BothTiers P Q st →
    (∀ r clk s e, SpillOf st s e → s.composite ≠ w.c → P r →
      P (Region.put r clk s.composite s.value .short s.metadata).1) →
    (∀ r clk, w.retention = .long → Q r → Q (Region.put r clk w.c w.value .long w.metadata).1) →
    BothTiers P Q st'

omit [Region σ] [Region ρ] in
theorem RowOutcome.left {out : Except PyErr RowResult}
    (wf : st.WellFormed) (outcome : RowOutcome w st st' out)
    (unstored : ∀ spills, out ≠ .ok (.stored spills)) : Left st st' := by
  cases outcome with
  | downgrade | tooLarge => exact ⟨fun _ _ found => found, ⟨rfl, rfl, rfl, rfl⟩, id⟩
  | protectedRows base absent _ stuck =>
    have loop := makeRoom_thinned st w.retention (st.inlineDemand w.value.length)
      st.entries.items.length st [] wf (.refl _ _) (by simp)
    have tiers := (SameTiers.sheds st).makeRoom w.retention (.refl st)
      (st.inlineDemand w.value.length) st.entries.items.length []
    rw [stuck] at loop tiers
    exact ⟨loop.1.rows, tiers, loop.1.arena.unwired⟩
  | raised _ _ room =>
    refine ⟨fun c e found => ?_, room.sameTiers.trans (sameTiers_storeBytes _ _ _), fun none => ?_⟩
    · rw [entries_storeBytes] at found
      exact (room.thinned wf).1.rows c e found
    · have unwired := (room.thinned wf).1.arena.unwired none
      rw [storeBytes_of_no_arena unwired, unwired]
  | stored _ _ spills => exact absurd rfl (unstored spills)

omit [Region σ] [Region ρ] in
theorem RoomMade.spill_ne {base : HostStore σ ρ} {spills : List Spill}
    (wf : st.WellFormed) (room : RoomMade w st base spills) {s : Spill} (mem : s ∈ spills) :
    s.composite ≠ w.c := by
  obtain ⟨⟨e, spilled⟩, -⟩ := (room.thinned wf).2 s mem
  rcases room with ⟨e', -, -, -, empty⟩ | ⟨absent, -, -⟩
  · simp [empty] at mem
  · intro same
    have row := spilled.row
    rw [same, absent] at row
    simp at row

theorem Seated.took {base row flushed : HostStore σ ρ} {spills : List Spill}
    {slot : Option Nat} (wf : st.WellFormed)
    (room : RoomMade w st base spills) (seated : Seated w base row slot e) (ram : SameRam row.drainEvicted flushed)
    (tiers : ∀ {P : σ → Prop} {Q : ρ → Prop}, BothTiers P Q row.drainEvicted →
      (∀ r clk, ∀ s ∈ spills, P r → P (Region.put r clk s.composite s.value .short s.metadata).1) →
      (∀ r clk e', Q r → w.retention = .long → row.drainEvicted.entries.get? w.c = some e' →
        Q (Region.put r clk w.c (row.drainEvicted.resolveValue e') .long e'.metadata).1) →
      BothTiers P Q flushed) : Took w st flushed := by
  have baseWf := wf.roomMade room
  have thinned := room.thinned wf
  have block : row.drainEvicted.resolveValue e = w.value :=
    (row.resolveValue_drain e).trans (seated.resolveValue baseWf)
  have rowUnwired : st.sharedArena = Option.none → row.sharedArena = Option.none := by
    intro none
    have unwired := thinned.1.arena.unwired none
    rw [seated.arena, storeBytes_of_no_arena unwired, unwired]
  refine ⟨fun c e' other found => ?_, fun e' found => ?_, fun none => ?_, fun none => ?_,
    fun below spill through => ?_⟩
  · rw [ram.entries] at found
    have seat := seated.drained found
    rw [Dict.get?_set_of_ne other] at seat
    exact thinned.1.rows c e' seat
  · rw [ram.entries] at found
    rw [seated.own found, resolveValue_congr ram.sharedArena, block]
    exact ⟨seated.retention, seated.metadata, seated.expiresAt, rfl⟩
  · rw [ram.sharedArena, drainEvicted_of_no_arena (rowUnwired none), rowUnwired none]
  · rw [ram.entries, drainEvicted_of_no_arena (rowUnwired none), seated.entries, Dict.get?_set_self]
    exact some_ne_none _
  · have same := (SameTiers.sheds _).drainEvicted (room.sameTiers.trans seated.tiers)
    refine tiers (below.congr same.spillover same.longRegion) (fun r clk s mem holds => ?_)
      (fun r clk e' holds long found => ?_)
    · obtain ⟨⟨e', spilled⟩, -⟩ := thinned.2 s mem
      exact spill r clk s e' spilled (room.spill_ne wf mem) holds
    · rw [seated.own found, block, seated.metadata]
      exact through r clk long holds

omit [Region σ] [Region ρ] in
theorem Left.ofCounted (left : Left st.countSet st') : Left st st' :=
  ⟨left.rows, ⟨left.tiers.spillover, left.tiers.longRegion, left.tiers.accepted,
    left.tiers.maxBytes⟩, left.unwired⟩

theorem Took.ofCounted (took : Took w st.countSet st') : Took w st st' :=
  ⟨took.others, took.own, took.unwired, took.present, fun below spill through =>
    took.tiers ⟨below.spillover, below.longRegion⟩ (fun r clk s e spilled => spill r clk s e
        { spilled with }) through⟩

theorem Took.recordAccepted (took : Took w st st')
    (c : Composite) (value : Bytes) : Took w st (st'.recordAccepted c value) :=
  ⟨took.others, took.own, took.unwired, took.present, fun below spill through =>
    have tiers := took.tiers below spill through
    ⟨tiers.spillover, tiers.longRegion⟩⟩

theorem WellFormed.setLive_effect (wf : st.WellFormed) (w : Write) :
    let result := st.write w
    Left st result.1 ∧ (∀ reason, result.2 ≠ .ok (true, reason)) ∨
      Took w st result.1 ∧ ((∃ err, result.2 = .error err) ∨ result.2 = .ok (true, none)) := by
  intro result
  have counted : st.countSet.WellFormed := wf.stats _
  have outcome : SetOutcome w st result.1 result.2 := wf.setOutcome w
  obtain ⟨st', out⟩ := result
  have written : ∀ row flushed spills out, RowOutcome w st.countSet row (.ok (.stored spills)) →
      row.drainEvicted.flushSpills (w.clk.after 2) spills = (flushed, out) →
      Took w st (flushed.writeThrough (w.clk.after (2 + spills.length)) w.c w.retention).1 := by
    intro row flushed spills out outcome flush
    have ram := sameRam_flushed flush
    cases outcome with
    | stored _ _ _ room _ _ seated =>
      refine (seated.took counted room (ram.trans (sameRam_writeThrough _ _ _ _))
        fun below spill through => ?_).ofCounted
      have tiers := BothTiers.flushSpills spills spill row.drainEvicted (w.clk.after 2) below
      rw [flush] at tiers
      refine tiers.writeThrough _ _ _ fun r e' holds long found => ?_
      rw [ram.entries] at found
      rw [resolveValue_congr ram.sharedArena]
      exact through r _ e' holds long found
  cases outcome with
  | refused _ reason row | raised _ err row =>
    exact .inl ⟨(row.left counted (by simp)).ofCounted, by simp⟩
  | spillRaised _ spills outcome =>
    cases outcome with
    | stored _ _ _ room _ _ seated =>
      refine .inr ⟨(seated.took counted room (sameRam_flushSpills _ _ _)
        fun below spill through => ?_).ofCounted, .inl ⟨_, rfl⟩⟩
      exact BothTiers.flushSpills spills spill _ _ below
  | longRaised row flushed spills outcome flush =>
    exact .inr ⟨written row flushed spills _ outcome flush, .inl ⟨_, rfl⟩⟩
  | accepted row flushed final spills outcome flush write =>
    have took := written row flushed spills _ outcome flush
    rw [write] at took
    exact .inr ⟨took.recordAccepted _ _, .inr rfl⟩

theorem WellFormed.set_effect (wf : st.WellFormed) (clk : Clock) (c : Composite)
    (value : Bytes) (retention : Retention) (metadata : Metadata) (ttl : Option ℚ) :
    let result := st.set clk c value retention metadata ttl
    let w : Write := ⟨clk, c, value, retention, metadata, ttl.map (clk 0 + ·)⟩
    Left st result.1 ∧ (∀ reason, result.2 = .ok (true, reason) → ∃ t, ttl = some t ∧ t ≤ 0) ∨
      Took w st result.1 ∧ (∀ t, ttl = some t → 0 < t) ∧
        ((∃ err, result.2 = .error err) ∨ result.2 = .ok (true, none)) := by
  intro result w
  by_cases lapsed : ∃ t, ttl = some t ∧ t ≤ 0
  · obtain ⟨t, rfl, late⟩ := lapsed
    have eq : result = (st.countSet, .ok (true, none)) := by
      simp [result, HostStore.set, if_pos late]
    rw [eq]
    exact .inl ⟨⟨fun _ _ found => found, ⟨rfl, rfl, rfl, rfl⟩, id⟩, fun _ _ => ⟨t, rfl, late⟩⟩
  · have positive : ∀ t, ttl = some t → 0 < t := fun t eq =>
      lt_of_not_ge fun late => lapsed ⟨t, eq, late⟩
    have live : result = st.write w := set_eq_setLive st clk c value retention metadata positive
    rw [live]
    rcases wf.setLive_effect w with ⟨left, refused⟩ | ⟨took, answer⟩
    · exact .inl ⟨left, fun reason accepted => absurd accepted (refused reason)⟩
    · exact .inr ⟨took, positive, answer⟩

omit [Region σ] [Region ρ] in
theorem get?_clearRow (st : HostStore σ ρ) (c c' : Composite) :
    (st.clearRow c).entries.get? c' = if c' = c then none else st.entries.get? c' := by
  unfold clearRow
  split
  · rename_i absent
    split_ifs with same
    · rw [same, absent]
    · rfl
  · exact st.get?_removeEntry c _ c'

theorem get?_clear_eq (st : HostStore σ ρ) (model compatKey : String) (c : Composite) :
    (st.clear model compatKey).1.entries.get? c =
      if (model = "" ∧ compatKey = "") ∨ (c.model = model ∧ c.compatKey = compatKey) then none
      else st.entries.get? c := by
  unfold HostStore.clear
  by_cases all : model = "" ∧ compatKey = ""
  · simp [all]
  · simp only [all, if_false]
    rw [get?_foldl_drop get?_clearRow]
    cases row : st.entries.get? c with
    | none => simp
    | some e => simp [Dict.mem_keys_iff, row]

theorem get?_clear {model compatKey : String}
    (found : (st.clear model compatKey).1.entries.get? c = some e) :
    st.entries.get? c = some e := by
  rw [get?_clear_eq] at found
  split_ifs at found
  exact found

theorem unwired_clear (none : st.sharedArena = Option.none)
    (model compatKey : String) : (st.clear model compatKey).1.sharedArena = Option.none := by
  unfold HostStore.clear
  split_ifs
  · exact unwired_sheds.freed none _
  · exact unwired_sheds.cleared none _

theorem BothTiers.clear {P : σ → Prop} {Q : ρ → Prop} (tiers : BothTiers P Q st)
    (model compatKey : String)
    (spillover : ∀ r, P r → P (Region.clear r) ∧ P (Region.clearNamespace r model compatKey))
    (longRegion : ∀ r, Q r → Q (Region.clear r) ∧ Q (Region.clearNamespace r model compatKey)) :
    BothTiers P Q (st.clear model compatKey).1 := by
  have mapped : ∀ {τ : Type} {R : τ → Prop} {tier : Option τ} (f : τ → τ),
      (∀ r, tier = some r → R r) → (∀ r, R r → R (f r)) → ∀ r, tier.map f = some r → R r := by
    intro τ R tier f before keep r wired
    obtain ⟨region, was, rfl⟩ := map_eq_some_iff.mp wired
    exact keep region (before region was)
  unfold HostStore.clear
  split_ifs
  · exact ⟨mapped _ tiers.spillover fun r holds => (spillover r holds).1,
      mapped _ tiers.longRegion fun r holds => (longRegion r holds).1⟩
  · exact ⟨mapped _ tiers.spillover fun r holds => (spillover r holds).2,
      mapped _ tiers.longRegion fun r holds => (longRegion r holds).2⟩

section
variable [LawfulRegion σ] [LawfulRegion ρ]

theorem WellFormed.setLive_ok (wf : st.WellFormed) (w : Write)
    (rows : ∀ c e, st.entries.get? c = some e → e.metadata.encodable = true)
    (encodable : w.metadata.encodable = true)
    (bytes : ∀ base spills, RoomMade w st.countSet base spills →
      ∀ err, (base.storeBytes w.c.key w.value).2 ≠ .error err) :
    ∀ err, (st.write w).2 ≠ .error err := by
  intro err raised
  have counted : st.countSet.WellFormed := wf.stats _
  have outcome := wf.setOutcome w
  have spilled : ∀ row spills, RowOutcome w st.countSet row (.ok (.stored spills)) →
      ∀ s ∈ spills, s.metadata.encodable = true := by
    intro row spills outcome s mem
    cases outcome with
    | stored _ _ _ room =>
      obtain ⟨⟨e', spill⟩, -⟩ := (room.thinned counted).2 s mem
      rw [spill.metadata]
      exact rows s.composite e' spill.row
  generalize st.write w = result at *
  obtain ⟨st', out⟩ := result
  subst raised
  cases outcome with
  | raised _ _ row =>
    cases row with
    | raised base spills room _ put => exact bytes base spills room err put
  | spillRaised row spills outcome _ flush =>
    rw [flushSpills_ok spills (spilled row spills outcome)] at flush
    simp at flush
  | longRaised _ _ _ outcome flush _ write =>
    have ram := sameRam_flushed flush
    rw [writeThrough_ok _ _ _ fun e found => ?_] at write
    · simp at write
    · cases outcome with
      | stored _ _ _ _ _ _ seated =>
        rw [ram.entries] at found
        rw [seated.own found, seated.metadata, encodable]

theorem WellFormed.set_ok (wf : st.WellFormed) (clk : Clock) (c : Composite)
    (value : Bytes) (retention : Retention) {metadata : Metadata} (ttl : Option ℚ)
    (rows : ∀ c e, st.entries.get? c = some e → e.metadata.encodable = true)
    (encodable : metadata.encodable = true) (bytes : ∀ base spills expiresAt,
      RoomMade ⟨clk, c, value, retention, metadata, expiresAt⟩ st.countSet base spills →
      ∀ err, (base.storeBytes c.key value).2 ≠ .error err) :
    ∀ err, (st.set clk c value retention metadata ttl).2 ≠ .error err := by
  have live := fun expiresAt => wf.setLive_ok ⟨clk, c, value, retention, metadata, expiresAt⟩ rows
    encodable fun base spills => bytes base spills expiresAt
  unfold HostStore.set
  split
  · exact live none
  · split_ifs
    · simp
    · exact live _

end

theorem WellFormed.setLive_through (wf : st.WellFormed) (w : Write)
    (long : w.retention = .long) {region : ρ} (wired : st.longRegion = some region)
    (accepted : (st.write w).2 = .ok (true, none))
    (present : (st.write w).1.entries.get? w.c = some e) : ∃ clk, (st.write w).1.longRegion =
      some (Region.put region clk w.c w.value .long w.metadata).1 := by
  have counted : st.countSet.WellFormed := wf.stats _
  obtain ⟨base, row, spills, slot, e', stored⟩ := wf.stored w accepted
  obtain ⟨flushed, flush, final⟩ := stored.tiers
  have seated := stored.seated
  have ram := sameRam_flushed flush
  rw [stored.entries] at present
  obtain rfl := seated.own present
  have kept : flushed.longRegion = some region := by
    have untouched := longRegion_flushSpills spills row.drainEvicted (w.clk.after 2)
    rw [flush] at untouched
    have same := (SameTiers.sheds _).drainEvicted (stored.room.sameTiers.trans seated.tiers)
    rw [untouched, same.longRegion]
    exact wired
  have block : flushed.resolveValue e = w.value := by
    rw [resolveValue_congr ram.sharedArena, row.resolveValue_drain]
    exact seated.resolveValue (counted.roomMade stored.room)
  have row' : flushed.entries.get? w.c = some e := by
    rw [← present]
    exact congrArg (Dict.get? · w.c) ram.entries
  refine ⟨w.clk.after (2 + spills.length), ?_⟩
  rw [final]
  simp only [writeThrough, long, kept, row', block, seated.metadata]
  rfl

end HostStore
end Infera.Kvd
