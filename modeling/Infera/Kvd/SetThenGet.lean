import Infera.Kvd.StoreEffects
import Infera.Kvd.TablespaceRegion

/-! Reading back an accepted write. `set` seats the row and then drains the
arena's log of evicted keys; a notice queued by earlier lease traffic may name
the key that was just written, and then the drain drops the new row. -/

namespace Infera.Kvd
namespace HostStore
variable {σ ρ : Type} [Region σ] [Region ρ] (st : HostStore σ ρ) (clk clk' : Clock) (c : Composite)
  (value : Bytes) (retention : Retention) (metadata : Metadata) (ttl : Option ℚ)

/-- A positive time to live that has not run out when `get` reads its clock. -/
def Unexpired : Prop :=
  ∀ t, ttl = some t → 0 < t ∧ clk' 0 < clk 0 + t

/-- An accepted `set` is read back by the `get` that follows it. -/
def SetReadsBack : Prop :=
  (st.set clk c value retention metadata ttl).2 = .ok (true, none) → Unexpired clk clk' ttl →
    ∃ e, (((st.set clk c value retention metadata ttl).1).get clk' c).2 = .ok (some e) ∧
      (((st.set clk c value retention metadata ttl).1).get clk' c).1.resolveValue e = value

variable {st}

theorem WellFormed.setReadsBack (wf : st.WellFormed) (unnoticed : c.key ∉ st.pendingNotices) :
    SetReadsBack st clk clk' c value retention metadata ttl := by
  intro accepted unexpired
  have counted : st.countSet.WellFormed := wf.stats _
  rw [st.set_eq_setLive clk c value retention metadata fun t eq => (unexpired t eq).1] at accepted ⊢
  obtain ⟨base, row, spills, slot, e, stored⟩ :=
    wf.stored ⟨clk, c, value, retention, metadata, ttl.map (clk 0 + ·)⟩ accepted
  have baseWf := counted.roomMade stored.room
  have loose := (stored.room.thinned counted).1.arena
  have spared : c.key ∉ row.pendingNotices := by
    intro noticed
    rcases stored.seated.notice baseWf noticed with old | other
    · rw [pendingNotices_of_loosened loose] at old
      exact unnoticed old
    · exact other rfl
  have present : (st.setLive clk c value retention metadata (ttl.map (clk 0 + ·))).1.entries.get? c =
      some e := by
    rw [stored.entries, get?_drain stored.seated.lockstep, if_neg spared, stored.seated.entries]
    simp
  have live : e.isExpired (clk' 0) = false := by
    unfold Entry.isExpired
    rw [stored.seated.expiresAt]
    cases ttl with
    | none => rfl
    | some t => simpa using (unexpired t rfl).2
  obtain ⟨hit, arena⟩ := get_of_row present live
  refine ⟨_, hit, ?_⟩
  calc
    _ = (st.setLive clk c value retention metadata (ttl.map (clk 0 + ·))).1.resolveValue e := by
      simp [resolveValue, arena]
    _ = row.drainEvicted.resolveValue e := resolveValue_congr stored.arena e
    _ = row.resolveValue e := row.resolveValue_drain e
    _ = value := stored.seated.resolveValue baseWf

section
variable [LawfulRegion σ] [LawfulRegion ρ]
open LawfulRegion

theorem WellFormed.setReadsBack_unnoticed (wf : st.WellFormed)
    (accepted : (st.set clk c value retention metadata ttl).2 = .ok (true, none))
    (unexpired : Unexpired clk clk' ttl) (room : st.pendingNotices.length < evictLogCap)
    (below : st.NotBelow c) (apart : ∀ c e, st.entries.get? c = some e → Apart σ c)
    (reads : SetReadsBack st clk clk' c value retention metadata ttl) :
    c.key ∉ st.pendingNotices := by
  intro noticed
  obtain ⟨e', hit, -⟩ := reads accepted unexpired
  have counted : st.countSet.WellFormed := wf.stats _
  rw [st.set_eq_setLive clk c value retention metadata fun t eq => (unexpired t eq).1] at accepted hit
  obtain ⟨base, row, spills, slot, e, stored⟩ :=
    wf.stored ⟨clk, c, value, retention, metadata, ttl.map (clk 0 + ·)⟩ accepted
  obtain ⟨thinned, spilled⟩ := stored.room.thinned counted
  have sameNotices := pendingNotices_of_loosened thinned.arena
  have dropped : row.drainEvicted.entries.get? c = none := by
    have still : c.key ∈ row.pendingNotices := by
      refine stored.seated.notice_kept ?_ ?_ <;> rw [sameNotices] <;> assumption
    rw [get?_drain stored.seated.lockstep, if_pos still]
  have absent := stored.entries ▸ dropped
  obtain ⟨flushed, flush, written⟩ := stored.tiers
  -- the victims are other composites: the room is made only when `c` has no row
  have others : ∀ s ∈ spills, s.composite ≠ c ∧ Apart σ s.composite := by
    intro s mem
    obtain ⟨⟨e₀, of⟩, -⟩ := spilled s mem
    refine ⟨fun same => ?_, apart _ _ of.row⟩
    rcases stored.room with ⟨_, _, _, _, rfl⟩ | ⟨fresh, -, -⟩
    · simp at mem
    · have row := of.row
      rw [same, fresh] at row
      simp at row
  have sameTiers : SameTiers st.countSet row.drainEvicted :=
    (SameTiers.sheds _).drainEvicted (stored.room.sameTiers.trans stored.seated.tiers)
  have belowRow : row.drainEvicted.NotBelow c :=
    below.congr sameTiers.spillover sameTiers.longRegion
  have belowFlushed : flushed.NotBelow c := by
    have kept := belowRow.flushSpills spills others (clk.after 2)
    rwa [flush] at kept
  have ram := sameRam_flushed flush
  have belowNow : (st.setLive clk c value retention metadata (ttl.map (clk 0 + ·))).1.NotBelow c := by
    rw [written]
    refine (BothTiers.writeThrough belowFlushed _ _ _ fun r e _ _ row => ?_).congr rfl rfl
    rw [ram.entries, dropped] at row
    simp at row
  have miss : ((st.setLive clk c value retention metadata (ttl.map (clk 0 + ·))).1.get clk' c).2 =
      .ok none := by
    generalize (st.setLive clk c value retention metadata (ttl.map (clk 0 + ·))).1 = st' at *
    have absent' : st'.countGet.entries.get? c = none := absent
    have below' : st'.countGet.NotBelow c := belowNow.congr rfl rfl
    simp only [get, absent']
    exact getBelow_of_notBelow below' clk'
  rw [miss] at hit
  simp at hit

end

/-- In every reachable state an accepted write reads back when no pending notice names its key.
Below the log's cap, and with no copy of the composite in a lower tier, it reads back only then. -/
theorem setReadsBack_iff_unnoticed {st : HostStore σ ρ} (reached : Server.Reachable st)
    (clk clk' : Clock) (c : Composite) (value : Bytes) (retention : Retention) (metadata : Metadata)
    (ttl : Option ℚ) :
    (c.key ∉ st.pendingNotices → SetReadsBack st clk clk' c value retention metadata ttl) ∧
      ∀ [LawfulRegion σ] [LawfulRegion ρ],
        (st.set clk c value retention metadata ttl).2 = .ok (true, none) →
        Unexpired clk clk' ttl → st.pendingNotices.length < evictLogCap → st.NotBelow c →
        (∀ c e, st.entries.get? c = some e → LawfulRegion.Apart σ c) →
        (SetReadsBack st clk clk' c value retention metadata ttl ↔ c.key ∉ st.pendingNotices) := by
  have wf := reached.wellFormed
  have reads := wf.setReadsBack clk clk' c value retention metadata ttl
  refine ⟨reads, fun accepted unexpired room below apart => ⟨?_, reads⟩⟩
  exact wf.setReadsBack_unnoticed clk clk' c value retention metadata ttl accepted unexpired room
    below apart

/-- A one-slot arena: the key is written, a lease takes its slot and is cancelled. The notice of
the eviction stays in the log. -/
def noticedStore : HostStore TablespaceLongRegion TablespaceLongRegion :=
  [Server.Event.request 1 false (fun _ => 0) (.set ⟨"m", "", [1]⟩ [7] "short" .empty none),
    .request 1 false (fun _ => 0) (.setReserve 8),
    .request 1 false (fun _ => 0) (.setCancel 1)].foldl Server.step
    (HostStore.new 100 (some (SharedArena.new 64)) none none [])

theorem reachable_noticedStore : Server.Reachable noticedStore :=
  Reaches.unconditional _ ⟨100, _, none, none, [], fun _ wired => ⟨64, by decide,
    (Option.some.inj wired).symm⟩, rfl⟩

/-- The second write of the key is accepted and its row is gone when `set` returns. -/
theorem noticed_write_lost :
    Server.Reachable noticedStore ∧
      (noticedStore.set (fun _ => 0) ⟨"m", "", [1]⟩ [8] .short .empty none).2 = .ok (true, none) ∧
      ¬SetReadsBack noticedStore (fun _ => 0) (fun _ => 0) ⟨"m", "", [1]⟩ [8] .short .empty none := by
  have accepted :
      (noticedStore.set (fun _ => 0) ⟨"m", "", [1]⟩ [8] .short .empty none).2 = .ok (true, none) := by
    decide
  refine ⟨reachable_noticedStore, accepted, fun reads => ?_⟩
  obtain ⟨e, hit, -⟩ := reads accepted (by simp [Unexpired])
  have miss : ((noticedStore.set (fun _ => 0) ⟨"m", "", [1]⟩ [8] .short .empty none).1.get (fun _ => 0)
      ⟨"m", "", [1]⟩).2 = .ok none := rfl
  rw [miss] at hit
  simp at hit

theorem unnoticed_write_kept :
    (noticedStore.set (fun _ => 0) ⟨"m", "", [2]⟩ [8] .short .empty (some 5)).2 = .ok (true, none) ∧
      SetReadsBack noticedStore (fun _ => 0) (fun _ => 3) ⟨"m", "", [2]⟩ [8] .short .empty (some 5) :=
  ⟨by decide, (setReadsBack_iff_unnoticed reachable_noticedStore (fun _ => 0) (fun _ => 3)
    ⟨"m", "", [2]⟩ [8] .short .empty (some 5)).1 (by decide)⟩

end HostStore
end Infera.Kvd
